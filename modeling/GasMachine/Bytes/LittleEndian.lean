/-!
# Little-endian integers

Every fixed-width integer of the program formats is stored least significant byte first.  The
meaning of such a string is an unbounded natural number, so the two directions are inverse
without any side condition beyond the width.
-/

namespace GasMachine.LittleEndian

/-- The natural number whose little-endian bytes are given. -/
def toNat : List UInt8 → Nat
  | [] => 0
  | byte :: rest => byte.toNat + 256 * toNat rest

/-- The `width` low bytes of `value`, least significant first. -/
def ofNat : (width value : Nat) → List UInt8
  | 0, _ => []
  | width + 1, value => UInt8.ofNat value :: ofNat width (value / 256)

@[simp] theorem length_ofNat (width value : Nat) : (ofNat width value).length = width := by
  induction width generalizing value with
  | zero => rfl
  | succ width ih => simp [ofNat, ih]

/-- The integer in the first eight bytes; further bytes are not looked at. -/
def decode (bytes : List UInt8) : UInt64 :=
  UInt64.ofNat (toNat (bytes.take 8))

/-- The `width` low bytes of a word.  A word has no more than eight of them. -/
def encode (value : UInt64) (width : Nat) : List UInt8 :=
  ofNat (min width 8) value.toNat

end GasMachine.LittleEndian
