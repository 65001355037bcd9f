import GasMachine.Assembly.Token
import GasMachine.Instruction.Basic

/-!
# Statements of assembly text

A line holds at most one statement, after any number of label definitions.  Operands are written in
the order in which they are encoded, except that three-register operations name their target first.
Where an instruction takes an offset, the target itself is written, as a label or as an offset in
the code.
-/

namespace GasMachine.Assembly

inductive Target where
  | label (name : String)
  | absolute (offset : UInt32)
  deriving DecidableEq, Repr

inductive Statement where
  /-- An instruction, whose offset is left open if it has a target. -/
  | instruction (instruction : Instruction) (target : Option Target)
  /-- Entries of the jump table. -/
  | jumpTable (entries : List Target)
  deriving DecidableEq, Repr

/-- The labels that a line defines and what follows them. -/
structure Line where
  labels : List String
  statement : Option Statement
  deriving DecidableEq, Repr

def Target.ofToken : Token → Except Fault Target
  | .name text => .ok (.label text)
  | .number value =>
    if 0 ≤ value ∧ value < 0x100000000 then .ok (.absolute (UInt32.ofNat value.toNat))
    else .error (.invalidNumber (toString value))
  | token => .error (.unexpectedToken token.text)

/-- Reads operands off the front of a list of tokens. -/
abbrev OperandReader := StateT (List Token) (Except Fault)

namespace OperandReader

def next (opcode : Opcode) : OperandReader Token := fun tokens =>
  match tokens with
  | token :: rest => .ok (token, rest)
  | [] => .error (.missingOperand opcode)

def register (opcode : Opcode) : OperandReader Reg := do
  match ← next opcode with
  | .register register => return register
  | token => throw (.unexpectedToken token.text)

def number (opcode : Opcode) (least most : Int) : OperandReader Int := do
  match ← next opcode with
  | .number value =>
    if least ≤ value ∧ value ≤ most then return value
    else throw (.invalidNumber (toString value))
  | token => throw (.unexpectedToken token.text)

/-- A 32-bit immediate, written with or without a sign. -/
def immediate (opcode : Opcode) : OperandReader UInt32 := do
  return UInt32.ofInt (← number opcode (-0x80000000) 0xFFFFFFFF)

def wideImmediate (opcode : Opcode) : OperandReader UInt64 := do
  return UInt64.ofInt (← number opcode (-0x8000000000000000) 0xFFFFFFFFFFFFFFFF)

def target (opcode : Opcode) : OperandReader Target := do
  match Target.ofToken (← next opcode) with
  | .ok target => return target
  | .error fault => throw fault

/-- The operands of an opcode, and the target of their offset. -/
def operands (opcode : Opcode) : OperandReader (Operands × Option Target) := do
  match opcode.form with
  | .bare => return (.bare, none)
  | .imm => return (.imm (← immediate opcode), none)
  | .regWide =>
    let register ← register opcode
    return (.regWide register (← wideImmediate opcode), none)
  | .immImm =>
    let first ← immediate opcode
    return (.immImm first (← immediate opcode), none)
  | .offset => return (.offset 0, some (← target opcode))
  | .regImm =>
    let register ← register opcode
    return (.regImm register (← immediate opcode), none)
  | .regImmImm =>
    let register ← register opcode
    let first ← immediate opcode
    return (.regImmImm register first (← immediate opcode), none)
  | .regImmOffset =>
    let register ← register opcode
    let value ← immediate opcode
    return (.regImmOffset register value 0, some (← target opcode))
  | .regReg =>
    let target ← register opcode
    return (.regReg target (← register opcode), none)
  | .regRegImm =>
    let left ← register opcode
    let right ← register opcode
    return (.regRegImm left right (← immediate opcode), none)
  | .regRegOffset =>
    let left ← register opcode
    let right ← register opcode
    return (.regRegOffset left right 0, some (← target opcode))
  | .regRegImmImm =>
    let left ← register opcode
    let right ← register opcode
    let first ← immediate opcode
    return (.regRegImmImm left right first (← immediate opcode), none)
  | .regRegReg =>
    let target ← register opcode
    let left ← register opcode
    return (.regRegReg left (← register opcode) target, none)

end OperandReader

/-- The opcode that a word names in any mix of cases. -/
def opcodeNamed? (word : String) : Option Opcode :=
  Opcode.ofMnemonic? (String.ofList (word.toList.map Char.toLower))

def parseInstruction (word : String) (tokens : List Token) : Except Fault Statement :=
  match opcodeNamed? word with
  | none => .error (.unknownOpcode word)
  | some opcode =>
    match (OperandReader.operands opcode).run tokens with
    | .error fault => .error fault
    | .ok ((operands, target), []) => .ok (.instruction ⟨opcode, operands⟩ target)
    | .ok (_, extra :: _) => .error (.unexpectedToken extra.text)

def parseStatement : List Token → Except Fault (Option Statement)
  | [] => .ok none
  | .directive text :: rest =>
    if text = "jump_table" then
      (rest.mapM Target.ofToken).map fun entries => some (.jumpTable entries)
    else .error (.unknownDirective ("." ++ text))
  | .name word :: rest => (parseInstruction word rest).map some
  | token :: _ => .error (.unexpectedToken token.text)

def labelOf? : Token → Option String
  | .label text => some text
  | _ => none

def parseLine (tokens : List Token) : Except Fault Line :=
  let isLabel := fun token => (labelOf? token).isSome
  (parseStatement (tokens.dropWhile isLabel)).map fun statement =>
    ⟨(tokens.takeWhile isLabel).filterMap labelOf?, statement⟩

end GasMachine.Assembly
