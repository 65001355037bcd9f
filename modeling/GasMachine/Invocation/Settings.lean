import GasMachine.Memory.PageMap
import GasMachine.Text.Numeral

/-!
# Settings of an invocation

Settings are read from a JSON text: an object that has some of the fields, each at most once, or an
array that has the first few of them in order.  Values are non-negative integers in plain notation.
-/

namespace GasMachine

/-- Where and with how much gas an invocation starts, and how many access checks its memory
remembers. -/
structure Settings where
  gas : UInt64 := 100000000
  pc : UInt32 := 0
  cacheCapacity : Nat := PageMap.defaultCapacity
  deriving DecidableEq, Repr

namespace Settings

inductive Field where
  | gas
  | pc
  | cacheCapacity
  deriving DecidableEq, Repr

namespace Field

/-- The fields in the order in which an array gives them. -/
def all : List Field := [gas, pc, cacheCapacity]

def key : Field → String
  | gas => "gas"
  | pc => "pc"
  | cacheCapacity => "access_cache_capacity"

def bits : Field → Nat
  | pc => 32
  | gas | cacheCapacity => 64

end Field

def set (settings : Settings) (value : Nat) : Field → Settings
  | .gas => { settings with gas := UInt64.ofNat value }
  | .pc => { settings with pc := UInt32.ofNat value }
  | .cacheCapacity => { settings with cacheCapacity := value }

abbrev Reader := StateT (List Char) Option

namespace Reader

/-- Whether a character may stand between the symbols of a JSON text. -/
def isSpace (char : Char) : Bool :=
  char == ' ' || char == '\t' || char == '\n' || char == '\r'

/-- The next character that is not white space, which is left in place. -/
def peek : Reader Char := fun chars =>
  match chars.dropWhile isSpace with
  | [] => none
  | char :: rest => some (char, char :: rest)

def symbol (expected : Char) : Reader Unit := fun chars =>
  match chars.dropWhile isSpace with
  | [] => none
  | char :: rest => if char = expected then some ((), rest) else none

/-- An integer of at most `bits` bits.  There is no zero in front of another digit. -/
def integer (bits : Nat) : Reader Nat := fun chars =>
  let chars := chars.dropWhile isSpace
  match chars.takeWhile Char.isDigit with
  | '0' :: _ :: _ => none
  | digits => (Text.decimal? bits digits).map (·, chars.dropWhile Char.isDigit)

/-- The characters of a string up to its closing quote. -/
def stringRest (text : List Char) : List Char → Option (List Char × List Char)
  | '"' :: rest => some (text.reverse, rest)
  | '\\' :: 'u' :: a :: b :: c :: d :: rest =>
    match Text.digitsValue? 16 Hex.digit? [a, b, c, d] with
    | some code => stringRest (Char.ofNat code :: text) rest
    | none => none
  | char :: rest => if char = '\\' then none else stringRest (char :: text) rest
  | [] => none

/-- The field among `unset` that a string names. -/
def field (unset : List Field) : Reader Field := do
  symbol '"'
  let key ← stringRest []
  match unset.find? fun field => field.key.toList == key with
  | some field => return field
  | none => failure

/-- The rest of an object, which has at most `left` members more, for fields among `unset`. -/
def members : (left : Nat) → (unset : List Field) → Settings → Reader Settings
  | 0, _, _ => failure
  | left + 1, unset, settings => do
    let field ← field unset
    symbol ':'
    let settings := settings.set (← integer field.bits) field
    if (← peek) = ',' then
      symbol ','
      members left (unset.erase field) settings
    else
      symbol '\x7d'
      return settings

/-- The rest of an array, which has values for the first of the given fields. -/
def elements : List Field → Settings → Reader Settings
  | [], _ => failure
  | field :: rest, settings => do
    let settings := settings.set (← integer field.bits) field
    if (← peek) = ',' then
      symbol ','
      elements rest settings
    else
      symbol ']'
      return settings

def settings : Reader Settings := do
  if (← peek) = '[' then
    symbol '['
    if (← peek) = ']' then
      symbol ']'
      return {}
    else elements Field.all {}
  else
    symbol '\x7b'
    if (← peek) = '\x7d' then
      symbol '\x7d'
      return {}
    else members Field.all.length Field.all {}

end Reader

def parse (text : String) : Option Settings :=
  match Reader.settings text.toList with
  | some (settings, rest) => if rest.all Reader.isSpace then some settings else none
  | none => none

end Settings

end GasMachine
