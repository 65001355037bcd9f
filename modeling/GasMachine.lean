import GasMachine.Main
import GasMachine.Nested.Registry
import GasMachine.Proofs.Program.Boundaries
import GasMachine.Proofs.Program.BlobLimits
import GasMachine.Proofs.Machine.Rounds
import GasMachine.Proofs.Machine.ControlFlow
import GasMachine.Proofs.Machine.GasMetering
import GasMachine.Proofs.Memory.PageTable
import GasMachine.Proofs.Memory.AccessChecks
import GasMachine.Proofs.Invocation.CacheTransparency
import GasMachine.Proofs.Bytes.ByteAt
import GasMachine.Proofs.Bytes.Words
import GasMachine.Proofs.Memory.ChunkContents
import GasMachine.Proofs.Memory.GapSearch
import GasMachine.Proofs.Memory.FlatMemory
import GasMachine.Proofs.Memory.Operations
import GasMachine.Proofs.Memory.SparseRefinement
import GasMachine.Proofs.Memory.ZoneContents
import GasMachine.Proofs.Memory.ZonedLayout
import GasMachine.Proofs.Memory.ZonedContents
import GasMachine.Proofs.Invocation.HostAborts
import GasMachine.Proofs.Machine.GasSlicing
import GasMachine.Proofs.Machine.AtomicExits
import GasMachine.Proofs.Memory.ZonedRefinement
import GasMachine.Proofs.Machine.HostLoops
import GasMachine.Proofs.Memory.SparseContents
import GasMachine.Proofs.Machine.MemoryIsolation
import GasMachine.Proofs.Machine.DemandPaging
import GasMachine.Proofs.Machine.ReservedZone
import GasMachine.Proofs.Bytes.NaturalForms
import GasMachine.Proofs.Program.BlobFormat
import GasMachine.Proofs.Program.StandardRoundTrip
import GasMachine.Proofs.Memory.ChunkSeparation
import GasMachine.Proofs.Machine.StoppingPoints
import GasMachine.Proofs.Nested.Requests
import GasMachine.Proofs.Nested.Operations
import GasMachine.Proofs.Nested.Isolation
import GasMachine.Proofs.Nested.GuestMemories
import GasMachine.Proofs.Nested.ReservedPages
import GasMachine.Proofs.Nested.FreshPages
import GasMachine.Proofs.Assembly.AssembledPrograms
import GasMachine.Proofs.Assembly.PrintedLines
import GasMachine.Proofs.Assembly.RoundTrip
import GasMachine.Proofs.Machine.DynamicJumps
import GasMachine.Proofs.Assembly.LabelPlaces
import GasMachine.Proofs.Machine.InterchangeableMemories
import GasMachine.Proofs.Program.Interleavings
import GasMachine.Proofs.Program.CodeTiling
import GasMachine.Proofs.Instruction.Decoding
import GasMachine.Proofs.Machine.OperandForms
import GasMachine.Proofs.Memory.StandardLayout
import GasMachine.Proofs.Memory.PageHistories
import GasMachine.Proofs.Memory.HeapGrowth
import GasMachine.Proofs.Memory.TouchedPages
import GasMachine.Proofs.Memory.CanonicalChunks
import GasMachine.Proofs.Memory.FirstFit
import GasMachine.Proofs.Machine.StoredWords
import GasMachine.Proofs.Machine.Arithmetic
import GasMachine.Proofs.Machine.RegisterForms
import GasMachine.Proofs.Assembly.AcceptedTexts
import GasMachine.Proofs.Machine.GasAccounting
import GasMachine.Proofs.Bytes.HexTexts
import GasMachine.Proofs.Assembly.NumberLiterals
import GasMachine.Proofs.Machine.MaskPadding
import GasMachine.Proofs.Instruction.SignedImmediates
