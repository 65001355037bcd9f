/-!
# Hexadecimal text

Addresses, registers and byte strings are shown in lower-case hexadecimal.  Byte strings are read
back from pairs of digits, after an optional `0x`; the first digit of a pair may be a plus sign.
-/

namespace GasMachine.Hex

/-- The lower-case digits of a number, without leading zeros. -/
def digits (value : Nat) : String :=
  String.ofList (Nat.toDigits 16 value)

/-- The digits of a number with zeros in front, `width` of them at least. -/
def padded (width value : Nat) : String :=
  let shown := Nat.toDigits 16 value
  String.ofList (List.replicate (width - shown.length) '0' ++ shown)

def address (value : UInt32) : String :=
  "0x" ++ padded 8 value.toNat

def word (value : UInt64) : String :=
  "0x" ++ padded 16 value.toNat

def ofByte (byte : UInt8) : List Char :=
  [Nat.digitChar (byte.toNat / 16), Nat.digitChar (byte.toNat % 16)]

def encode (bytes : ByteArray) : String :=
  String.ofList (bytes.data.toList.flatMap ofByte)

/-- The value of a hexadecimal digit of either case. -/
def digit? (char : Char) : Option Nat :=
  if '0' ≤ char ∧ char ≤ '9' then some (char.toNat - '0'.toNat)
  else if 'a' ≤ char ∧ char ≤ 'f' then some (char.toNat - 'a'.toNat + 10)
  else if 'A' ≤ char ∧ char ≤ 'F' then some (char.toNat - 'A'.toNat + 10)
  else none

inductive Error where
  /-- The text cannot be cut into pairs. -/
  | oddLength
  /-- A pair ends inside a character. -/
  | notAscii
  /-- A pair is no byte. -/
  | badByte (pair : String)
  deriving DecidableEq, Repr

def Error.message : Error → String
  | oddLength => "odd number of hex digits"
  | notAscii => "non-ASCII hex"
  | badByte pair => "bad hex byte '" ++ pair ++ "': invalid digit found in string"

def pair? (first second : Char) : Option UInt8 :=
  match digit? first, digit? second with
  | some high, some low => some (UInt8.ofNat (16 * high + low))
  | none, some low => if first = '+' then some (UInt8.ofNat low) else none
  | _, none => none

/-- The bytes of a text that is cut into pairs of UTF-8 units. -/
def decodePairs : List Char → Except Error (List UInt8)
  | [] => .ok []
  | [single] =>
    if single.utf8Size = 2 then .error (.badByte (String.singleton single)) else .error .notAscii
  | first :: second :: rest =>
    if first.utf8Size = 2 then .error (.badByte (String.singleton first))
    else if first.utf8Size = 1 ∧ second.utf8Size = 1 then
      match pair? first second with
      | none => .error (.badByte (String.ofList [first, second]))
      | some byte => (decodePairs rest).map (byte :: ·)
    else .error .notAscii

def withoutMarker : List Char → List Char
  | '0' :: 'x' :: rest => rest
  | text => text

def decode (text : String) : Except Error ByteArray :=
  let shown := withoutMarker text.toList
  if (String.ofList shown).utf8ByteSize % 2 = 1 then .error .oddLength
  else (decodePairs shown).map List.toByteArray

end GasMachine.Hex
