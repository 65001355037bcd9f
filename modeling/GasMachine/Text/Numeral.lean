import GasMachine.Bytes.Hex

/-!
# Numerals

Unsigned numbers are read from one or more digits of a base, after an optional plus sign, and have
to fit into a word of the given number of bits.
-/

namespace GasMachine.Text

def decimalDigit? (char : Char) : Option Nat :=
  if '0' ≤ char ∧ char ≤ '9' then some (char.toNat - '0'.toNat) else none

/-- The number that digits of a base stand for, the first one being the most significant. -/
def digitsValue? (base : Nat) (digit? : Char → Option Nat) (chars : List Char) : Option Nat :=
  chars.foldlM (fun value char => (digit? char).map (base * value + ·)) 0

def withoutPlus : List Char → List Char
  | '+' :: rest => rest
  | chars => chars

/-- The number below `2 ^ bits` that a numeral stands for. -/
def unsigned? (base : Nat) (digit? : Char → Option Nat) (bits : Nat) (chars : List Char) :
    Option Nat :=
  match withoutPlus chars with
  | [] => none
  | digits => (digitsValue? base digit? digits).filter (· < 1 <<< bits)

def decimal? (bits : Nat) (chars : List Char) : Option Nat :=
  unsigned? 10 decimalDigit? bits chars

def hexadecimal? (bits : Nat) (chars : List Char) : Option Nat :=
  unsigned? 16 Hex.digit? bits chars

end GasMachine.Text
