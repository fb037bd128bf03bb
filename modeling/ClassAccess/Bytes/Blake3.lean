import ClassAccess.Bytes.LittleEndian

/-!
# BLAKE3

The digest that caches are checked with: 32 bytes for a byte string of any length.

## Main definitions

* `Blake3.compress` — the compression of one block.
* `Blake3.Node` — a block that awaits its compression.
* `Blake3.hash` — the digest.

## Design

The input is cut into chunks of 1024 bytes and each chunk into blocks of 64 bytes. The blocks of a
chunk are compressed one into the next; the chunks are the leaves of a tree, whose inner nodes
compress the results of two subtrees. The last compression of all carries a flag of its own, so each
chunk and each inner node is first built as a node with its last compression still to come. Pairing
neighbours level by level, with an odd one left over carried up, builds the tree.
-/

set_option autoImplicit false

namespace ClassAccess.Blake3

/-- The state between compressions. -/
abbrev Chaining := Vector UInt32 8

/-- A block, or the state inside a compression. -/
abbrev Words := Vector UInt32 16

/-! ## Compression -/

/-- The state before the first block. -/
def initial : Chaining :=
  #v[0x6a09e667, 0xbb67ae85, 0x3c6ef372, 0xa54ff53a, 0x510e527f, 0x9b05688c, 0x1f83d9ab, 0x5be0cd19]

/-- Marks the first block of a chunk. -/
def chunkStart : UInt32 := 1

/-- Marks the last block of a chunk. -/
def chunkEnd : UInt32 := 2

/-- Marks an inner node of the tree. -/
def parentFlag : UInt32 := 4

/-- Marks the last compression of all. -/
def rootFlag : UInt32 := 8

/-- A word turned right by `n` bits. -/
def rotateRight (w n : UInt32) : UInt32 :=
  (w >>> n) ||| (w <<< (32 - n))

/-- One mixing of four words of the state with two words of the block. -/
def mix (s : Words) (a b c d : Fin 16) (x y : UInt32) : Words :=
  let s := s.set a (s[a] + s[b] + x)
  let s := s.set d (rotateRight (s[d] ^^^ s[a]) 16)
  let s := s.set c (s[c] + s[d])
  let s := s.set b (rotateRight (s[b] ^^^ s[c]) 12)
  let s := s.set a (s[a] + s[b] + y)
  let s := s.set d (rotateRight (s[d] ^^^ s[a]) 8)
  let s := s.set c (s[c] + s[d])
  s.set b (rotateRight (s[b] ^^^ s[c]) 7)

/-- One round: the columns of the state are mixed, then its diagonals. -/
def round (s m : Words) : Words :=
  let s := mix s 0 4 8 12 m[0] m[1]
  let s := mix s 1 5 9 13 m[2] m[3]
  let s := mix s 2 6 10 14 m[4] m[5]
  let s := mix s 3 7 11 15 m[6] m[7]
  let s := mix s 0 5 10 15 m[8] m[9]
  let s := mix s 1 6 11 12 m[10] m[11]
  let s := mix s 2 7 8 13 m[12] m[13]
  mix s 3 4 9 14 m[14] m[15]

/-- The order of the words of a block in the next round. -/
def permute (m : Words) : Words :=
  #v[m[2], m[6], m[3], m[10], m[7], m[0], m[4], m[13], m[1], m[11], m[12], m[5], m[9], m[14], m[15],
    m[8]]

/-- The state after `n` rounds. -/
def rounds : (n : Nat) → (s m : Words) → Words
  | 0, s, _ => s
  | n + 1, s, m => rounds n (round s m) (permute m)

/-- The compression of the block `m`, of whose bytes `length` count, into the state `h`. -/
def compress (h : Chaining) (m : Words) (counter : UInt64) (length flags : UInt32) : Words :=
  let s : Words :=
    #v[h[0], h[1], h[2], h[3], h[4], h[5], h[6], h[7], initial[0], initial[1], initial[2],
      initial[3], counter.toUInt32, (counter >>> 32).toUInt32, length, flags]
  let s := rounds 7 s m
  Vector.ofFn fun i =>
    if h8 : i.val < 8 then s[i] ^^^ s[i.val + 8] else s[i] ^^^ h[i.val - 8]

/-- The first half of a compression, which is the state for the next one. -/
def firstHalf (s : Words) : Chaining :=
  #v[s[0], s[1], s[2], s[3], s[4], s[5], s[6], s[7]]

/-! ## Nodes -/

/-- A block that awaits its compression. -/
structure Node where
  /-- The state before the block. -/
  state : Chaining
  /-- The block. -/
  block : Words
  /-- The number of the chunk. -/
  counter : UInt64
  /-- How many bytes of the block count. -/
  length : UInt32
  /-- The flags of the block. -/
  flags : UInt32

namespace Node

/-- The compression of the node, with `extra` flags. -/
def output (n : Node) (extra : UInt32) : Words :=
  compress n.state n.block n.counter n.length (n.flags ||| extra)

/-- The state that the node passes on. -/
def chaining (n : Node) : Chaining := firstHalf (n.output 0)

/-- The inner node over two subtrees. -/
def parent (left right : Node) : Node :=
  let l := left.chaining
  let r := right.chaining
  { state := initial
    block := #v[l[0], l[1], l[2], l[3], l[4], l[5], l[6], l[7], r[0], r[1], r[2], r[3], r[4], r[5],
      r[6], r[7]]
    counter := 0
    length := 64
    flags := parentFlag }

end Node

/-! ## Chunks -/

/-- A list in pieces of `n + 1` elements, the last of which may be shorter. -/
def pieces {α : Type} (n : Nat) : List α → List (List α)
  | [] => []
  | a :: as => (a :: as.take n) :: pieces n (as.drop n)
termination_by l => l.length
decreasing_by simp only [List.length_drop, List.length_cons]; omega

/-- The words of a block, with zeros after its end. -/
def blockWords (bytes : List UInt8) : Words :=
  Vector.ofFn fun i => UInt32.ofNat (littleEndian ((bytes.drop (4 * i.val)).take 4))

/-- The last block of a chunk with the blocks before it compressed, where `flags` are those of the
first of the blocks. -/
def chunkFrom (counter : UInt64) (state : Chaining) (flags : UInt32) :
    (block : List UInt8) → (rest : List (List UInt8)) → Node
  | block, [] =>
    ⟨state, blockWords block, counter, UInt32.ofNat block.length, flags ||| chunkEnd⟩
  | block, next :: rest =>
    let s := compress state (blockWords block) counter (UInt32.ofNat block.length) flags
    chunkFrom counter (firstHalf s) 0 next rest

/-- The node of a chunk. -/
def chunk (counter : Nat) (bytes : List UInt8) : Node :=
  match pieces 63 bytes with
  | [] => chunkFrom (UInt64.ofNat counter) initial chunkStart [] []
  | block :: rest => chunkFrom (UInt64.ofNat counter) initial chunkStart block rest

/-! ## The tree -/

/-- The next level of the tree: neighbours paired, an odd one at the end carried up. -/
def pairUp : List Node → List Node
  | a :: b :: rest => Node.parent a b :: pairUp rest
  | rest => rest

/-- A level has no more nodes than the one below it. -/
theorem length_pairUp_le (l : List Node) : (pairUp l).length ≤ l.length := by
  fun_induction pairUp l with
  | case1 a b rest ih => simp only [List.length_cons]; omega
  | case2 => exact Nat.le_refl _

/-- The top of the tree over `first` and the nodes after it. -/
def tree (first : Node) : List Node → Node
  | [] => first
  | second :: rest => tree (Node.parent first second) (pairUp rest)
termination_by l => l.length
decreasing_by have := length_pairUp_le rest; simp only [List.length_cons]; omega

/-- The 32 bytes of the digest of a byte string. -/
def hash (bytes : List UInt8) : List UInt8 :=
  let top :=
    match (pieces 1023 bytes).zipIdx.map fun piece => chunk piece.2 piece.1 with
    | [] => chunk 0 []
    | first :: rest => tree first rest
  (firstHalf (top.output rootFlag)).toList.flatMap fun w => littleEndianBytes 4 w.toNat

end ClassAccess.Blake3
