import GasMachine.Opcode

/-!
# Assembly errors

An error names the line it is in, counted from one.
-/

namespace GasMachine.Assembly

/-- How many operands are written for each form. -/
def operandCount : Form → Nat
  | .bare => 0
  | .imm | .offset => 1
  | .regWide | .immImm | .regImm | .regReg => 2
  | .regImmImm | .regImmOffset | .regRegImm | .regRegOffset | .regRegReg => 3
  | .regRegImmImm => 4

inductive Fault where
  | unknownOpcode (word : String)
  | unknownDirective (word : String)
  | missingOperand (opcode : Opcode)
  | invalidNumber (word : String)
  | invalidRegister (word : String)
  | unexpectedToken (word : String)
  | undefinedLabel (label : String)
  | duplicateLabel (label : String)
  deriving DecidableEq, Repr

def Fault.message : Fault → String
  | unknownOpcode word => "unknown opcode '" ++ word ++ "'"
  | unknownDirective word => "unknown directive '" ++ word ++ "'"
  | missingOperand opcode =>
    opcode.mnemonic ++ " expects " ++ toString (operandCount opcode.form) ++ " operand(s)"
  | invalidNumber word => "invalid number '" ++ word ++ "'"
  | invalidRegister word => "invalid register '" ++ word ++ "'"
  | unexpectedToken word => "unexpected token '" ++ word ++ "'"
  | undefinedLabel label => "undefined label '" ++ label ++ "'"
  | duplicateLabel label => "label '" ++ label ++ "' is already defined"

structure Error where
  line : Nat
  fault : Fault
  deriving DecidableEq, Repr

def Error.message (error : Error) : String :=
  "line " ++ toString error.line ++ ": " ++ error.fault.message

end GasMachine.Assembly
