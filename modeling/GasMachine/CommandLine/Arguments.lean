import GasMachine.Text.Numeral

/-!
# Command-line arguments

The first argument names a command.  The others are its input and its options, in any order.  An
option is written in full after two dashes, or by its letter after one; its value follows as the
next argument, or after an equals sign, or directly after the letter.  A separate value does not
start with a dash, unless it is a dash alone.  Two dashes alone end the options.
-/

namespace GasMachine.CommandLine

structure RunRequest where
  input : String
  /-- The input is a bare program. -/
  raw : Bool
  pc : Option UInt32
  gas : Option UInt64
  /-- The argument of the program, in hexadecimal. -/
  argument : String
  /-- The file with the settings. -/
  settings : Option String
  deriving DecidableEq, Repr

inductive Command where
  | assemble (input : String) (output : Option String)
  | disassemble (input : String)
  | run (request : RunRequest)
  | hash (input : String)
  deriving DecidableEq, Repr

structure OptionName where
  long : String
  letter : Option Char := none
  takesValue : Bool := true
  deriving DecidableEq, Repr

/-- The arguments of a command, sorted into inputs and options. -/
structure Arguments where
  inputs : List String := []
  /-- The options by their full names, with their values. -/
  options : List (String × String) := []
  deriving DecidableEq, Repr

namespace Arguments

/-- The arguments with one more option in front, unless it is there already. -/
def addOption (name value : String) (arguments : Arguments) : Option Arguments :=
  if (arguments.options.lookup name).isSome then none
  else some { arguments with options := (name, value) :: arguments.options }

def addInput (input : String) (arguments : Arguments) : Arguments :=
  { arguments with inputs := input :: arguments.inputs }

/-- The name of an option and the value that is written with it. -/
structure Mention where
  name : OptionName
  value : Option String

/-- How an option is mentioned after two dashes: its name, and a value after an equals sign. -/
def longMention? (names : List OptionName) (text : List Char) : Option Mention :=
  let long := String.ofList (text.takeWhile (· != '='))
  match names.find? (·.long == long) with
  | none => none
  | some name =>
    match text.dropWhile (· != '=') with
    | [] => some ⟨name, none⟩
    | _ :: value => some ⟨name, some (String.ofList value)⟩

/-- How an option is mentioned after one dash: its letter, and a value with or without an equals
sign. -/
def letterMention? (names : List OptionName) : List Char → Option Mention
  | [] => none
  | letter :: rest =>
    match names.find? (·.letter == some letter), rest with
    | none, _ => none
    | some name, [] => some ⟨name, none⟩
    | some name, '=' :: value => some ⟨name, some (String.ofList value)⟩
    | some name, value => some ⟨name, some (String.ofList value)⟩

/-- What an argument is by how it starts. -/
inductive Shape where
  | input
  | endOfOptions
  /-- The mention of an option, unless there is no such option. -/
  | mention (mention : Option Mention)

def shape (names : List OptionName) (argument : String) : Shape :=
  match argument.toList with
  | ['-'] => .input
  | ['-', '-'] => .endOfOptions
  | '-' :: '-' :: text => .mention (longMention? names text)
  | '-' :: text => .mention (letterMention? names text)
  | _ => .input

/-- Whether an argument may be the separate value of an option. -/
def isValue (argument : String) : Bool :=
  match argument.toList with
  | ['-'] => true
  | '-' :: _ => false
  | _ => true

def sort (names : List OptionName) : List String → Option Arguments
  | [] => some {}
  | argument :: rest =>
    match shape names argument with
    | .input => (sort names rest).map (addInput argument)
    | .endOfOptions => some { inputs := rest }
    | .mention none => none
    | .mention (some ⟨name, some value⟩) =>
      if name.takesValue then (sort names rest).bind (addOption name.long value) else none
    | .mention (some ⟨name, none⟩) =>
      if name.takesValue then
        match rest with
        | [] => none
        | value :: rest =>
          if isValue value then (sort names rest).bind (addOption name.long value) else none
      else (sort names rest).bind (addOption name.long "")

/-- The input, of which there has to be one, with a name. -/
def input? (arguments : Arguments) : Option String :=
  match arguments.inputs with
  | [input] => if input = "" then none else some input
  | _ => none

/-- The value of an option, read by `read`, which may refuse it. -/
def valueOf? {α : Type} (arguments : Arguments) (name : String) (read : String → Option α) :
    Option (Option α) :=
  match arguments.options.lookup name with
  | none => some none
  | some value => (read value).map some

end Arguments

/-- The path that a text is.  Only the empty text is none. -/
def path? (text : String) : Option String :=
  if text = "" then none else some text

/-- The offset in the code that a text stands for.  It may have a sign, as long as it is not
negative. -/
def offset? (text : String) : Option UInt32 :=
  match text.toList with
  | '-' :: digits =>
    if digits ≠ [] ∧ digits.all (· == '0') then some 0 else none
  | digits => (Text.decimal? 32 digits).map UInt32.ofNat

def amount? (text : String) : Option UInt64 :=
  (Text.decimal? 64 text.toList).map UInt64.ofNat

namespace Command

def assembleOptions : List OptionName :=
  [{ long := "output", letter := some 'o' }]

def runOptions : List OptionName :=
  [{ long := "raw", takesValue := false }, { long := "pc" }, { long := "gas" },
    { long := "arg-hex" }, { long := "config" }]

def parseAssemble (words : List String) : Option Command := do
  let arguments ← Arguments.sort assembleOptions words
  let output ← arguments.valueOf? "output" path?
  return .assemble (← arguments.input?) output

def parseRun (words : List String) : Option Command := do
  let arguments ← Arguments.sort runOptions words
  let raw := (arguments.options.lookup "raw").isSome
  let pc ← arguments.valueOf? "pc" offset?
  let gas ← arguments.valueOf? "gas" amount?
  let settings ← arguments.valueOf? "config" path?
  let argument := (arguments.options.lookup "arg-hex").getD ""
  return .run ⟨← arguments.input?, raw, pc, gas, argument, settings⟩

def parse : List String → Option Command
  | "assemble" :: words => parseAssemble words
  | "disassemble" :: words => (Arguments.sort [] words).bind Arguments.input? |>.map .disassemble
  | "run" :: words => parseRun words
  | "hash" :: words => (Arguments.sort [] words).bind Arguments.input? |>.map .hash
  | _ => none

end Command

end GasMachine.CommandLine
