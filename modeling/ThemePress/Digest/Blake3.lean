/-! # The BLAKE3 digest

A message is cut into chunks of 1024 bytes and each chunk into blocks of 64. Compressing the blocks
of a chunk one after the other gives the chunk's chaining value. The chunks are the leaves of a
binary tree whose left half at every branch holds the greatest power of two of chunks that leaves
something for the right half, and the chaining value of a branch comes from those of its halves.
The digest is the first 32 bytes of the value at the root.

A compression state has four rows of four words. A round mixes its columns and then its diagonals,
which are the columns once the rows are turned. -/

namespace ThemePress.Digest.Blake3

/-- The chaining value that every chunk and every branch starts from. -/
def initial : List UInt32 :=
  [0x6A09E667, 0xBB67AE85, 0x3C6EF372, 0xA54FF53A, 0x510E527F, 0x9B05688C, 0x1F83D9AB, 0x5BE0CD19]

/-- The order in which a round leaves the words of a block to the next. -/
def reordering : List Nat :=
  [2, 6, 3, 10, 7, 0, 4, 13, 1, 11, 12, 5, 9, 14, 15, 8]

def chunkStart : UInt32 := 1
def chunkEnd : UInt32 := 2
def branch : UInt32 := 4
def root : UInt32 := 8

def rotateRight (n : UInt32) (x : UInt32) : UInt32 :=
  (x >>> n) ||| (x <<< (32 - n))

/-- The four rows of a state. -/
structure Rows where
  a : List UInt32
  b : List UInt32
  c : List UInt32
  d : List UInt32

/-- One half of mixing the columns, with the words `m` and the two rotations. -/
def Rows.mixHalf (s : Rows) (m : List UInt32) (first second : UInt32) : Rows :=
  let a := List.zipWith (· + ·) (List.zipWith (· + ·) s.a s.b) m
  let d := (List.zipWith (· ^^^ ·) s.d a).map (rotateRight first)
  let c := List.zipWith (· + ·) s.c d
  let b := (List.zipWith (· ^^^ ·) s.b c).map (rotateRight second)
  ⟨a, b, c, d⟩

/-- Mixes the columns with the words `x` and then `y`. -/
def Rows.mix (s : Rows) (x y : List UInt32) : Rows :=
  (s.mixHalf x 16 12).mixHalf y 8 7

/-- Turns the rows so that the diagonals become columns. -/
def Rows.turn (s : Rows) : Rows :=
  ⟨s.a, s.b.rotateLeft 1, s.c.rotateLeft 2, s.d.rotateLeft 3⟩

def Rows.turnBack (s : Rows) : Rows :=
  ⟨s.a, s.b.rotateLeft 3, s.c.rotateLeft 2, s.d.rotateLeft 1⟩

/-- The words of a block at the given places. -/
def pick (m : List UInt32) (places : List Nat) : List UInt32 :=
  places.map (m.getD · 0)

/-- One round with the words of a block. -/
def Rows.round (s : Rows) (m : List UInt32) : Rows :=
  let columns := s.mix (pick m [0, 2, 4, 6]) (pick m [1, 3, 5, 7])
  (columns.turn.mix (pick m [8, 10, 12, 14]) (pick m [9, 11, 13, 15])).turnBack

/-- `n` rounds, each with the words of the one before it reordered. -/
def Rows.rounds : Nat → Rows → List UInt32 → Rows
  | 0, s, _ => s
  | n + 1, s, m => Rows.rounds n (s.round m) (pick m reordering)

/-- The chaining value after a block of `size` bytes. -/
def compress (chaining block : List UInt32) (counter : Nat) (size : Nat) (flags : UInt32) :
    List UInt32 :=
  let last := [UInt32.ofNat counter, UInt32.ofNat (counter >>> 32), UInt32.ofNat size, flags]
  let start : Rows := ⟨chaining.take 4, chaining.drop 4, initial.take 4, last⟩
  let s := start.rounds 7 block
  List.zipWith (· ^^^ ·) (s.a ++ s.b) (s.c ++ s.d)

/-- The little-endian words of a byte sequence, the last one filled up with zeros. -/
def wordsOf : List UInt8 → List UInt32
  | a :: b :: c :: d :: s =>
    (a.toUInt32 ||| (b.toUInt32 <<< 8) ||| (c.toUInt32 <<< 16) ||| (d.toUInt32 <<< 24)) :: wordsOf s
  | [] => []
  | [a] => [a.toUInt32]
  | [a, b] => [a.toUInt32 ||| (b.toUInt32 <<< 8)]
  | [a, b, c] => [a.toUInt32 ||| (b.toUInt32 <<< 8) ||| (c.toUInt32 <<< 16)]

/-- The little-endian bytes of words. -/
def bytesOf (words : List UInt32) : List UInt8 :=
  words.flatMap fun (w : UInt32) =>
    [w.toUInt8, (w >>> 8).toUInt8, (w >>> 16).toUInt8, (w >>> 24).toUInt8]

/-- Cuts a list into pieces of `n`; the empty list is one empty piece. -/
def piecesOf {α : Type} (n : Nat) (l : List α) : List (List α) :=
  if _h : l.length ≤ n ∨ n = 0 then [l] else l.take n :: piecesOf n (l.drop n)
termination_by l.length
decreasing_by simp only [List.length_drop]; omega

/-- The chaining value of a chunk, from the value `chaining` and its blocks. -/
def chunkFrom (chaining : List UInt32) (counter : Nat) (flags final : UInt32) :
    List (List UInt8) → List UInt32
  | [] => chaining
  | [b] => compress chaining (wordsOf b) counter b.length (flags ||| chunkEnd ||| final)
  | b :: bs =>
    chunkFrom (compress chaining (wordsOf b) counter b.length flags) counter 0 final bs

/-- The chaining value of the chunk with number `counter`. -/
def chunk (counter : Nat) (final : UInt32) (data : List UInt8) : List UInt32 :=
  chunkFrom initial counter chunkStart final (piecesOf 64 data)

/-- The greatest power of two below `n`. -/
def leftSize (n : Nat) : Nat :=
  1 <<< (n - 1).log2

/-- The chaining value of a tree of chunks, the first of them with number `counter`. -/
def tree (counter : Nat) (final : UInt32) (chunks : List (List UInt8)) : List UInt32 :=
  if _h : chunks.length ≤ 1 then chunk counter final (chunks.headD [])
  else
    let n := leftSize chunks.length
    have : n < chunks.length := by
      have := Nat.log2_self_le (n := chunks.length - 1) (by omega)
      simp only [n, leftSize, Nat.one_shiftLeft]; omega
    have : 0 < n := by
      simp only [n, leftSize, Nat.one_shiftLeft]; exact Nat.two_pow_pos _
    let left := tree counter 0 (chunks.take n)
    let right := tree (counter + n) 0 (chunks.drop n)
    compress initial (left ++ right) 0 64 (branch ||| final)
termination_by chunks.length
decreasing_by all_goals (simp only [List.length_take, List.length_drop]; omega)

/-- The digest of a message, 32 bytes. -/
def digest (data : List UInt8) : List UInt8 :=
  bytesOf (tree 0 root (piecesOf 1024 data))

end ThemePress.Digest.Blake3
