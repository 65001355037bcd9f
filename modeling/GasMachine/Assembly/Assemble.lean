import GasMachine.Assembly.Statement
import GasMachine.Program.Builder

/-!
# Assembling

The first pass reads the lines and notes the offset of each label.  It can do so before any target
is known, because an instruction's length does not depend on its offset.  The second pass fills in
the targets and lays out the program.
-/

namespace GasMachine.Assembly

abbrev Labels := List (String × UInt32)

/-- What the first pass has found. -/
structure Outline where
  labels : Labels := []
  /-- The statements, with the lines they are in. -/
  statements : Array (Nat × Statement) := #[]
  /-- The offset of the next instruction. -/
  offset : UInt32 := 0

namespace Outline

/-- The outline with labels at the next offset, unless one of them is there already. -/
def define (outline : Outline) : List String → Except Fault Outline
  | [] => .ok outline
  | label :: rest =>
    if (outline.labels.lookup label).isSome then .error (.duplicateLabel label)
    else { outline with labels := (label, outline.offset) :: outline.labels }.define rest

def append (outline : Outline) (line : Nat) (statement : Statement) : Outline :=
  { outline with
    statements := outline.statements.push (line, statement)
    offset :=
      match statement with
      | .instruction instruction _ =>
        outline.offset + UInt32.ofNat instruction.encode.length
      | .jumpTable _ => outline.offset }

def addLine (outline : Outline) (line : Nat) (chars : List Char) : Except Fault Outline := do
  let parsed ← parseLine (← tokens chars)
  let outline ← outline.define parsed.labels
  match parsed.statement with
  | some statement => return outline.append line statement
  | none => return outline

/-- The outline with the given lines added, the first of which has the given number. -/
def addLines (outline : Outline) (line : Nat) : List (List Char) → Except Error Outline
  | [] => .ok outline
  | chars :: rest =>
    match outline.addLine line chars with
    | .error fault => .error ⟨line, fault⟩
    | .ok outline => outline.addLines (line + 1) rest

end Outline

def Target.resolve (labels : Labels) : Target → Except Fault UInt32
  | .absolute offset => .ok offset
  | .label name =>
    match labels.lookup name with
    | some offset => .ok offset
    | none => .error (.undefinedLabel name)

/-- The builder with one more statement, its targets filled in. -/
def place (labels : Labels) (builder : Program.Builder) :
    Statement → Except Fault Program.Builder
  | .instruction instruction none => .ok (builder.push instruction)
  | .instruction instruction (some target) => do
    let offset := builder.offsetTo (← target.resolve labels)
    return builder.push { instruction with operands := instruction.operands.withOffset offset }
  | .jumpTable entries => do
    return (← entries.mapM (Target.resolve labels)).foldl Program.Builder.pushTarget builder

def placeAll (labels : Labels) (builder : Program.Builder) :
    List (Nat × Statement) → Except Error Program.Builder
  | [] => .ok builder
  | (line, statement) :: rest =>
    match place labels builder statement with
    | .error fault => .error ⟨line, fault⟩
    | .ok builder => placeAll labels builder rest

/-- The program that a text describes, or the first error in it. -/
def assemble (text : String) : Except Error Program := do
  let outline ← Outline.addLines {} 1 (lines text)
  let builder ← placeAll outline.labels {} outline.statements.toList
  return builder.build

end GasMachine.Assembly
