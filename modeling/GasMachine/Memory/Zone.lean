import GasMachine.Bytes.Basic

/-!
# Zones

A zone is a stretch of addresses with the bytes stored at its front.  What is mapped behind them
counts as zero: a write stores zeros up to its own bytes, and a read may run past the stored bytes.
A read that starts behind them finds nothing to start from.
-/

namespace GasMachine

/-- The addresses from `start` up to `stop`, with the bytes stored from `start` on. -/
structure Zone where
  start : UInt32
  stop : UInt32
  data : ByteArray
  deriving DecidableEq

namespace Zone

def ofSize (start : UInt32) (size : Nat) (data : ByteArray) : Zone :=
  ⟨start, UInt32.ofNat (start.toNat + size), data⟩

def contains (zone : Zone) (address : UInt32) : Bool :=
  zone.start ≤ address && address < zone.stop

def offset (zone : Zone) (address : UInt32) : Nat :=
  (address - zone.start).toNat

/-- How many bytes from `address` on lie in the zone. -/
def room (zone : Zone) (address : UInt32) : Nat :=
  zone.stop.toNat - address.toNat

theorem room_pos {zone : Zone} {address : UInt32} (hcontains : zone.contains address = true) :
    0 < zone.room address := by
  have hlt : address < zone.stop := by
    simp only [contains, Bool.and_eq_true, decide_eq_true_eq] at hcontains
    exact hcontains.2
  have := UInt32.lt_iff_toNat_lt.mp hlt
  unfold room
  omega

/-- The `count` bytes from `address` on, unless the stored bytes end before `address`. -/
def read? (zone : Zone) (address : UInt32) (count : Nat) : Option ByteArray :=
  let offset := zone.offset address
  if zone.data.size < offset then none
  else
    let stored := zone.data.extract offset (offset + count)
    some (stored ++ Bytes.zeros (count - stored.size))

def write (zone : Zone) (address : UInt32) (bytes : ByteArray) : Zone :=
  let offset := zone.offset address
  let missing := offset + bytes.size - zone.data.size
  { zone with data := Bytes.overwrite (zone.data ++ Bytes.zeros missing) offset bytes }

end Zone

end GasMachine
