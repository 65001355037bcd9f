import GasMachine.Assembly.Error
import GasMachine.Register
import GasMachine.Text.CharClass
import GasMachine.Text.LowerCase
import GasMachine.Text.Numeral

/-!
# Tokens of assembly text

A line is read up to its first semicolon and cut into words at commas and white space.  What a word
is shows in how it starts and ends.
-/

namespace GasMachine.Assembly

inductive Token where
  /-- A mnemonic, or the use of a label. -/
  | name (text : String)
  /-- The definition of a label, written with a colon. -/
  | label (text : String)
  /-- A directive, written with a dot, in lower case. -/
  | directive (text : String)
  | register (reg : Reg)
  | number (value : Int)
  deriving DecidableEq, Repr

namespace Token

/-- The token as it is shown in error messages. -/
def text : Token → String
  | name text => text
  | label text => text ++ ":"
  | directive text => "." ++ text
  | register reg => reg.name
  | number value => toString value

def isNameStart (char : Char) : Bool :=
  char.isAlpha || char == '_'

def isNameRest (char : Char) : Bool :=
  char.isAlphanum || char == '_'

/-- Whether a word can name a label or an opcode. -/
def isName : List Char → Bool
  | [] => false
  | first :: rest => isNameStart first && rest.all isNameRest

def registerDigits? : List Char → Option (List Char)
  | 'r' :: first :: rest => if (first :: rest).all Char.isDigit then some (first :: rest) else none
  | 'R' :: first :: rest => if (first :: rest).all Char.isDigit then some (first :: rest) else none
  | _ => none

/-- The magnitude of a number, in decimal or after `0x` in hexadecimal. -/
def magnitude? : List Char → Option Nat
  | '0' :: 'x' :: digits => Text.hexadecimal? 64 digits
  | '0' :: 'X' :: digits => Text.hexadecimal? 64 digits
  | digits => Text.decimal? 64 digits

/-- The value of a number with an optional minus sign. -/
def number? : List Char → Option Int
  | '-' :: rest => (magnitude? rest).map fun magnitude => -(magnitude : Int)
  | chars => (magnitude? chars).map fun magnitude => (magnitude : Int)

/-- Whether a word starts like a number: with a digit, after an optional minus sign. -/
def looksNumeric : List Char → Bool
  | '-' :: first :: _ => first.isDigit
  | first :: _ => first.isDigit
  | [] => false

def ofWord (word : List Char) : Except Fault Token :=
  let shown := String.ofList word
  if word.getLast? = some ':' then
    if isName word.dropLast then .ok (.label (String.ofList word.dropLast))
    else .error (.unexpectedToken shown)
  else if word.head? = some '.' then
    .ok (.directive (String.ofList (Text.lower word.tail)))
  else
    match registerDigits? word with
    | some digits =>
      match (Text.decimal? 8 digits).bind Reg.ofIndex? with
      | some reg => .ok (.register reg)
      | none => .error (.invalidRegister shown)
    | none =>
      if looksNumeric word then
        match number? word with
        | some value => .ok (.number value)
        | none => .error (.invalidNumber shown)
      else if isName word then .ok (.name shown)
      else .error (.unexpectedToken shown)

end Token

def isSeparator (char : Char) : Bool :=
  char == ',' || Text.isBlank char

def words (chars : List Char) : List (List Char) :=
  match _hrest : chars.dropWhile isSeparator with
  | [] => []
  | first :: rest =>
    (first :: rest.takeWhile fun char => !isSeparator char)
      :: words (rest.dropWhile fun char => !isSeparator char)
termination_by chars.length
decreasing_by
  have hsuffix := (List.dropWhile_sublist (l := chars) isSeparator).length_le
  have htail := (List.dropWhile_sublist (l := rest) fun char => !isSeparator char).length_le
  rw [_hrest, List.length_cons] at hsuffix
  omega

/-- The tokens of a line.  A semicolon starts a comment. -/
def tokens (line : List Char) : Except Fault (List Token) :=
  (words (line.takeWhile (· != ';'))).mapM Token.ofWord

/-- The lines of a text, after those `found` so far.  A line feed at the end starts no line. -/
def linesFrom (found : Array (List Char)) (chars : List Char) : Array (List Char) :=
  match chars with
  | [] => found
  | first :: rest =>
    linesFrom (found.push ((first :: rest).takeWhile (· != '\n')))
      (((first :: rest).dropWhile (· != '\n')).drop 1)
termination_by chars.length
decreasing_by
  simp only [List.length_drop, List.dropWhile_cons]
  split
  · have := (List.dropWhile_sublist (l := rest) (· != '\n')).length_le
    simp only [List.length_cons]
    omega
  · simp only [List.length_cons]
    omega

def lines (text : String) : List (List Char) :=
  (linesFrom #[] text.toList).toList

end GasMachine.Assembly
