import GasMachine.Program.Basic

/-!
# Building programs

A builder lays out instructions in the order in which they are pushed.  The bitmask and the
narrowest width that holds every jump target follow from what was pushed.
-/

namespace GasMachine.Program

/-- A program under construction. -/
structure Builder where
  code : ByteArray := ByteArray.empty
  /-- Where the instructions start. -/
  starts : Array Nat := #[]
  /-- The dynamic-jump targets. -/
  targets : Array UInt32 := #[]

namespace Builder

/-- The offset of the next instruction. -/
def offset (builder : Builder) : UInt32 :=
  UInt32.ofNat builder.code.size

/-- The relative offset from the next instruction to `target`. -/
def offsetTo (builder : Builder) (target : UInt32) : UInt32 :=
  target - builder.offset

def push (builder : Builder) (instruction : Instruction) : Builder :=
  { builder with
    code := builder.code ++ instruction.encode.toByteArray
    starts := builder.starts.push builder.code.size }

def pushTarget (builder : Builder) (target : UInt32) : Builder :=
  { builder with targets := builder.targets.push target }

def lastTargetAddress (builder : Builder) : UInt32 :=
  UInt32.ofNat (builder.targets.size * AddressSpace.jumpAlignment)

/-- The fewest bytes that hold `value`. -/
def bytesFor (value : Nat) : Nat :=
  if value = 0 then 0 else value.log2 / 8 + 1

def entryWidth (builder : Builder) : Nat :=
  bytesFor (builder.targets.foldl (fun widest target => max widest target.toNat) 0)

def image (builder : Builder) : CodeImage where
  jumpTable :=
    (builder.targets.toList.flatMap fun target =>
      LittleEndian.ofNat builder.entryWidth target.toNat).toByteArray
  entryCount := builder.targets.size
  entryWidth := UInt8.ofNat builder.entryWidth
  code := builder.code
  bitmask :=
    builder.starts.foldl Bitmask.mark (Bytes.zeros (Bitmask.sizeFor builder.code.size))

def build (builder : Builder) : Program :=
  Program.ofImage builder.image

end Builder

end GasMachine.Program
