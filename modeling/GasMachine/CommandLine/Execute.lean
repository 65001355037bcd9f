import GasMachine.Assembly.Assemble
import GasMachine.Assembly.Listing
import GasMachine.CommandLine.Arguments
import GasMachine.CommandLine.Directory
import GasMachine.Hash.Blake3
import GasMachine.Invocation.Basic
import GasMachine.Memory.Sparse

/-!
# Commands at work

A command ends with a report: what it shows, what it tells about itself, and its exit code.
-/

namespace GasMachine.CommandLine

inductive Failure where
  | unreadable (path : String) (error : FileError)
  | unwritable (path : String) (error : FileError)
  | unreadableSettings (path : String) (error : FileError)
  | invalidSettings (path : String)
  | invalidArgument (error : Hex.Error)
  | assembly (error : Assembly.Error)
  | unparsable (path : String) (error : ProgramError)
  | unloadable (path : String) (error : LoadError)

/-- The message of a failure, as a line of its own.  The message of invalid settings is left
unfinished, without an account of what is wrong with them. -/
def Failure.message : Failure → String
  | unreadable path error => "cannot read '" ++ path ++ "': " ++ error.message ++ "\n"
  | unwritable path error => "cannot write '" ++ path ++ "': " ++ error.message ++ "\n"
  | unreadableSettings path error =>
    "cannot read config '" ++ path ++ "': " ++ error.message ++ "\n"
  | invalidSettings path => "invalid config '" ++ path ++ "'"
  | invalidArgument error => "invalid --arg-hex: " ++ error.message ++ "\n"
  | assembly error => error.message ++ "\n"
  | unparsable path error => "cannot parse '" ++ path ++ "': " ++ error.message ++ "\n"
  | unloadable path error =>
    "cannot load '" ++ path ++ "': " ++ error.message ++ ": " ++ error.cause ++ "\n"

structure Report where
  code : UInt32
  /-- The result. -/
  output : String := ""
  /-- What the command tells about itself. -/
  notes : String := ""
  deriving DecidableEq, Repr

inductive Ending where
  | reported (report : Report)
  /-- The command stopped with the machine that it ran. -/
  | aborted

def Failure.report (failure : Failure) : Report :=
  { code := 1, notes := "error: " ++ failure.message }

/-- The exit code after a machine exited: a machine that ends on its own account is a success. -/
def exitCode : Exit → UInt32
  | .halt | .hostCall _ => 0
  | .panic _ | .outOfGas | .pageFault _ => 3

/-- The lines of the registers from `index` on. -/
def showRegisters (index : Nat) : List UInt64 → String
  | [] => ""
  | value :: rest =>
    "r" ++ toString index ++ ": " ++ Hex.word value ++ "\n" ++ showRegisters (index + 1) rest

def showInvocation (initial : Gas) (invocation : Invocation) : Report :=
  let output :=
    match invocation.output with
    | some bytes => "output: " ++ Hex.encode bytes ++ "\n"
    | none => ""
  { code := exitCode invocation.exit
    output :=
      "exit: " ++ invocation.exit.message ++ "\n"
        ++ "gas used: " ++ toString (invocation.gas.usedSince initial).toNat ++ "\n"
        ++ "gas left: " ++ toString invocation.gas.value.toInt ++ "\n"
        ++ output
        ++ showRegisters 0 invocation.registers.values.toList }

def endingOf (initial : Gas) : Conclusion → Ending
  | .finished invocation => .reported (showInvocation initial invocation)
  | .aborted => .aborted

/-- The last part of a path and what is in front of it. -/
def splitName (path : List Char) : List Char × List Char :=
  let name := (path.reverse.takeWhile (· != '/')).reverse
  (path.take (path.length - name.length), name)

/-- Where a program is written that is assembled from `input`: the extension of assembly text is
replaced, and another name is extended.  The old extension goes first; if what then stands there is
the name of the directory above, it takes no extension. -/
def defaultOutput (input : String) : String :=
  let (front, name) := splitName input.toList
  let stem := name.take (name.length - ".pvmasm".length)
  if stem ≠ [] ∧ name = stem ++ ".pvmasm".toList then
    if stem = ['.'] then String.ofList front ++ ".."
    else String.ofList (front ++ stem) ++ ".pvm"
  else input ++ ".pvm"

section

variable {m : Type → Type} [Monad m] [MonadFiles m]

def readBytes (path : String) : ExceptT Failure m ByteArray := do
  match ← ExceptT.lift (MonadFiles.readFile path) with
  | .ok bytes => return bytes
  | .error error => throw (.unreadable path error)

/-- The text in a file, where `fail` says what it means that there is none. -/
def readText (path : String) (fail : FileError → Failure) : ExceptT Failure m String := do
  match ← ExceptT.lift (MonadFiles.readFile path) with
  | .error error => throw (fail error)
  | .ok bytes =>
    match String.fromUTF8? bytes with
    | some text => return text
    | none => throw (fail .notText)

def assembleFile (input output : String) : ExceptT Failure m Ending := do
  let text ← readText input (.unreadable input)
  match Assembly.assemble text with
  | .error error => throw (.assembly error)
  | .ok program =>
    let bytes := program.encode
    match ← ExceptT.lift (MonadFiles.writeFile output bytes) with
    | .error error => throw (.unwritable output error)
    | .ok _ =>
      return .reported
        { code := 0
          notes :=
            "assembled " ++ toString program.instructions.size ++ " instructions ("
              ++ toString bytes.size ++ " bytes) -> " ++ output ++ "\n" }

def parseProgram (path : String) (bytes : ByteArray) : Except Failure Program :=
  (Program.parse bytes).mapError (.unparsable path)

def disassembleFile (input : String) : ExceptT Failure m Ending := do
  let program ← ExceptT.mk (pure (parseProgram input (← readBytes input)))
  return .reported { code := 0, output := Assembly.disassemble program }

def readSettings (request : RunRequest) : ExceptT Failure m Settings := do
  let settings : Settings ←
    match request.settings with
    | none => pure {}
    | some path =>
      match Settings.parse (← readText path (.unreadableSettings path)) with
      | some settings => pure settings
      | none => throw (.invalidSettings path)
  return { settings with
    pc := request.pc.getD settings.pc
    gas := request.gas.getD settings.gas }

/-- Runs a bare program on an empty memory. -/
def runBare (settings : Settings) (program : Program) : Conclusion :=
  match SparseMemory.allocate? settings.cacheCapacity with
  | none => .aborted
  | some memory =>
    let machine : Machine SparseMemory :=
      ⟨settings.pc, .zero, .ofBudget settings.gas, memory⟩
    match machine.run program with
    | (.exit exit, machine) => .finished ⟨exit, machine.gas, none, machine.registers⟩
    | (.aborted, _) => .aborted

def runBytes (request : RunRequest) (settings : Settings) (bytes argument : ByteArray) :
    Except Failure Conclusion :=
  if request.raw then (parseProgram request.input bytes).map (runBare settings)
  else (invoke settings bytes argument).mapError (.unloadable request.input)

def runFile (request : RunRequest) : ExceptT Failure m Ending := do
  let settings ← readSettings request
  let argument ← ExceptT.mk (pure ((Hex.decode request.argument).mapError .invalidArgument))
  let bytes ← readBytes request.input
  let conclusion ← ExceptT.mk (pure (runBytes request settings bytes argument))
  return endingOf (.ofBudget settings.gas) conclusion

def hashFile (input : String) : ExceptT Failure m Ending := do
  let bytes ← readBytes input
  return .reported { code := 0, output := Hex.encode (Blake3.hash bytes) ++ "\n" }

def Command.attempt : Command → ExceptT Failure m Ending
  | .assemble input output => assembleFile input (output.getD (defaultOutput input))
  | .disassemble input => disassembleFile input
  | .run request => runFile request
  | .hash input => hashFile input

def Command.execute (command : Command) : m Ending := do
  match ← command.attempt.run with
  | .ok ending => return ending
  | .error failure => return .reported failure.report

end

end GasMachine.CommandLine
