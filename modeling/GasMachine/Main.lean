import GasMachine.CommandLine.Execute

/-!
# The program
-/

namespace GasMachine.CommandLine

/-- The number of a system error, which some operations negate. -/
def errorNumber (code : UInt32) : UInt32 :=
  min code (0 - code)

def FileError.ofIO (error : IO.Error) : FileError :=
  match error with
  | .noFileOrDirectory .. => .notFound
  | .inappropriateType _ code _ =>
    if errorNumber code = 20 then .notDirectory else .isDirectory
  | .invalidArgument _ code _ =>
    if errorNumber code = 36 then .nameTooLong
    else if errorNumber code = 22 then .nulInPath
    else .other (toString error)
  | _ => .other (toString error)

instance : MonadFiles IO where
  readFile path := do
    try return .ok (← IO.FS.readBinFile path)
    catch error => return .error (.ofIO error)
  writeFile path contents := do
    try
      IO.FS.writeBinFile path contents
      return .ok ()
    catch error => return .error (.ofIO error)

def usage : String :=
  "usage: pvm assemble INPUT [--output PATH]\n" ++
  "       pvm disassemble INPUT\n" ++
  "       pvm run INPUT [--raw] [--pc N] [--gas N] [--arg-hex HEX] [--config PATH]\n" ++
  "       pvm hash INPUT\n"

end GasMachine.CommandLine

open GasMachine.CommandLine in
def main (arguments : List String) : IO UInt32 := do
  match Command.parse arguments with
  | none =>
    IO.eprint usage
    return 2
  | some command =>
    match ← command.execute (m := IO) with
    | .aborted =>
      IO.eprintln "aborted"
      return 101
    | .reported report =>
      IO.print report.output
      IO.eprint report.notes
      return report.code
