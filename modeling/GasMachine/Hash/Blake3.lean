import GasMachine.Bytes.LittleEndian

/-!
# The BLAKE3 hash

A text is cut into chunks of 1024 bytes, and each chunk into blocks of 64.  The blocks of a chunk
are compressed one after the other, and the chunks are the leaves of a binary tree whose left
subtrees are as large a power of two as the number of leaves allows.
-/

namespace GasMachine.Blake3

/-- A chaining value, and also the digest. -/
abbrev Chaining := Vector UInt32 8

/-- The words of a block, and also the state of the compression. -/
abbrev Block := Vector UInt32 16

def initialChaining : Chaining :=
  #v[0x6A09E667, 0xBB67AE85, 0x3C6EF372, 0xA54FF53A, 0x510E527F, 0x9B05688C, 0x1F83D9AB,
    0x5BE0CD19]

/-- The order in which a round takes the words of the round before. -/
def schedule : Vector (Fin 16) 16 :=
  #v[2, 6, 3, 10, 7, 0, 4, 13, 1, 11, 12, 5, 9, 14, 15, 8]

def chunkStart : UInt32 := 1
def chunkEnd : UInt32 := 2
def parent : UInt32 := 4
def root : UInt32 := 8

def chunkSize : Nat := 1024
def blockSize : Nat := 64

def rotateRight (word count : UInt32) : UInt32 :=
  (word >>> count) ||| (word <<< (32 - count))

def mix (state : Block) (a b c d : Fin 16) (x y : UInt32) : Block :=
  let wa := state[a] + state[b] + x
  let wd := rotateRight (state[d] ^^^ wa) 16
  let wc := state[c] + wd
  let wb := rotateRight (state[b] ^^^ wc) 12
  let wa := wa + wb + y
  let wd := rotateRight (wd ^^^ wa) 8
  let wc := wc + wd
  let wb := rotateRight (wb ^^^ wc) 7
  (((state.set a wa).set b wb).set c wc).set d wd

/-- Mixes the message into the columns and then the diagonals of the state. -/
def mixRound (state message : Block) : Block :=
  let state := mix state 0 4 8 12 message[0] message[1]
  let state := mix state 1 5 9 13 message[2] message[3]
  let state := mix state 2 6 10 14 message[4] message[5]
  let state := mix state 3 7 11 15 message[6] message[7]
  let state := mix state 0 5 10 15 message[8] message[9]
  let state := mix state 1 6 11 12 message[10] message[11]
  let state := mix state 2 7 8 13 message[12] message[13]
  mix state 3 4 9 14 message[14] message[15]

def mixRounds : (rounds : Nat) → (state message : Block) → Block
  | 0, state, _ => state
  | rounds + 1, state, message =>
    mixRounds rounds (mixRound state message) (schedule.map fun index => message[index])

/-- What is still to be compressed at a node of the tree. -/
structure Node where
  chaining : Chaining
  block : Block
  counter : UInt64
  size : UInt32
  flags : UInt32

namespace Node

def initialState (node : Node) : Block :=
  #v[node.chaining[0], node.chaining[1], node.chaining[2], node.chaining[3],
    node.chaining[4], node.chaining[5], node.chaining[6], node.chaining[7],
    initialChaining[0], initialChaining[1], initialChaining[2], initialChaining[3],
    node.counter.toUInt32, (node.counter >>> 32).toUInt32, node.size, node.flags]

/-- The chaining value of a node. -/
def compress (node : Node) : Chaining :=
  let state := mixRounds 7 node.initialState node.block
  Vector.ofFn fun index : Fin 8 =>
    state.get (Fin.castLE (by decide) index) ^^^ state.get (Fin.natAdd 8 index)

def digest (node : Node) : Chaining :=
  { node with flags := node.flags ||| root }.compress

end Node

/-- The word of four bytes at `position`, where the bytes past the end of the input are zero. -/
def wordAt (input : ByteArray) (position : Nat) : UInt32 :=
  let byte := fun offset => ((input[position + offset]?).getD 0).toUInt32
  byte 0 ||| (byte 1 <<< 8) ||| (byte 2 <<< 16) ||| (byte 3 <<< 24)

def blockAt (input : ByteArray) (position : Nat) : Block :=
  Vector.ofFn fun index => wordAt input (position + 4 * index.val)

/-- The last block of a chunk, of which `size` bytes from `position` on are left. -/
def chunkFrom (input : ByteArray) (counter : UInt64) (position size : Nat) (flags : UInt32)
    (chaining : Chaining) : Node :=
  let block := blockAt input position
  if blockSize < size then
    let full : Node := ⟨chaining, block, counter, UInt32.ofNat blockSize, flags⟩
    chunkFrom input counter (position + blockSize) (size - blockSize) 0 full.compress
  else ⟨chaining, block, counter, UInt32.ofNat size, flags ||| chunkEnd⟩
termination_by size
decreasing_by
  have : 0 < blockSize := by decide
  omega

def chunk (input : ByteArray) (index : Nat) : Node :=
  let position := index * chunkSize
  chunkFrom input (UInt64.ofNat index) position (min (input.size - position) chunkSize) chunkStart
    initialChaining

def join (left right : Node) : Node :=
  ⟨initialChaining, (left.compress ++ right.compress).cast rfl, 0, UInt32.ofNat blockSize, parent⟩

/-- How many of `count` chunks lie in the left subtree: the largest power of two that leaves some
for the right one. -/
def leftCount (count : Nat) : Nat := 1 <<< (count - 1).log2

theorem leftCount_pos (count : Nat) : 0 < leftCount count := by
  rw [leftCount, Nat.one_shiftLeft]
  exact Nat.two_pow_pos _

theorem leftCount_lt {count : Nat} (hcount : 1 < count) : leftCount count < count := by
  have hlog := Nat.log2_self_le (n := count - 1) (by omega)
  rw [leftCount, Nat.one_shiftLeft]
  omega

/-- The node above `count` chunks from `first` on. -/
def tree (input : ByteArray) (first count : Nat) : Node :=
  if _hleaf : count ≤ 1 then chunk input first
  else
    join (tree input first (leftCount count))
      (tree input (first + leftCount count) (count - leftCount count))
termination_by count
decreasing_by
  · exact leftCount_lt (Nat.lt_of_not_le _hleaf)
  · exact Nat.sub_lt (Nat.zero_lt_of_lt (Nat.lt_of_not_le _hleaf)) (leftCount_pos count)

def hash (input : ByteArray) : ByteArray :=
  let count := (input.size + chunkSize - 1) / chunkSize
  let digest := (tree input 0 count).digest
  (digest.toList.flatMap fun word => LittleEndian.ofNat 4 word.toNat).toByteArray

end GasMachine.Blake3
