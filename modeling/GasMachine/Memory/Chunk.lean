import GasMachine.Bytes.Basic

/-!
# Chunks

The contents of a sparse memory are a list of chunks, in the order of their addresses, that do not
overlap: a write joins every chunk that it overlaps or touches into one.  Addresses are natural
numbers here, so that the end of a chunk never wraps.
-/

namespace GasMachine

/-- Bytes stored from `start` on. -/
structure Chunk where
  start : Nat
  data : ByteArray
  deriving DecidableEq

namespace Chunk

def stop (chunk : Chunk) : Nat := chunk.start + chunk.data.size

/-- One chunk with `bytes` from `start` on, and around them what the `touched` chunks hold before
and after. -/
def join (touched : List Chunk) (start : Nat) (bytes : ByteArray) : Chunk :=
  match touched.head?, touched.getLast? with
  | some first, some last =>
    { start := min first.start start
      data := first.data.extract 0 (start - first.start) ++ bytes
        ++ last.data.extract (start + bytes.size - last.start) last.data.size }
  | _, _ => ⟨start, bytes⟩

def write (chunks : List Chunk) (start : Nat) (bytes : ByteArray) : List Chunk :=
  if bytes.size = 0 then chunks
  else
    let rest := chunks.dropWhile fun chunk => chunk.stop < start
    chunks.takeWhile (fun chunk => chunk.stop < start)
      ++ join (rest.takeWhile fun chunk => chunk.start ≤ start + bytes.size) start bytes
      :: rest.dropWhile fun chunk => chunk.start ≤ start + bytes.size

/-- What is left of a chunk when the bytes from `start` up to `stop` are dropped. -/
def without (chunk : Chunk) (start stop : Nat) : List Chunk :=
  if chunk.stop ≤ start ∨ stop ≤ chunk.start then [chunk]
  else
    (if chunk.start < start then
        [⟨chunk.start, chunk.data.extract 0 (start - chunk.start)⟩] else [])
      ++ if stop < chunk.stop then
        [⟨stop, chunk.data.extract (stop - chunk.start) chunk.data.size⟩] else []

def clear (chunks : List Chunk) (start stop : Nat) : List Chunk :=
  chunks.flatMap fun chunk => chunk.without start stop

/-- `buffer`, which shows the addresses from `start` on, with the bytes of the chunk in it. -/
def overlay (start : Nat) (buffer : ByteArray) (chunk : Chunk) : ByteArray :=
  let lower := max start chunk.start
  let upper := min (start + buffer.size) chunk.stop
  if lower < upper then
    chunk.data.copySlice (lower - chunk.start) buffer (lower - start) (upper - lower)
  else buffer

/-- The `count` bytes from `start` on; where no chunk lies they are zero. -/
def read (chunks : List Chunk) (start count : Nat) : ByteArray :=
  chunks.foldl (overlay start) (Bytes.zeros count)

end Chunk

end GasMachine
