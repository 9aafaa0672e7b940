/-!
# A keyed stream of random words

A seed is stretched to a key of eight words, and the key to an endless stream of words by the ChaCha
permutation with eight rounds: each block of sixteen words mixes constants, the key and the number
of the block.
-/

namespace Scrollback.Random

/-- A word turned left by fewer bits than it has. -/
@[inline] def rotateLeft (word : UInt32) (count : UInt32) : UInt32 :=
  (word <<< count) ||| (word >>> (32 - count))

structure Row where
  first : UInt32
  second : UInt32
  third : UInt32
  fourth : UInt32
  deriving DecidableEq, Repr

namespace Row

/-- The row of what an operation makes of the words of two rows. -/
@[inline] def zipWith (f : UInt32 → UInt32 → UInt32) (r s : Row) : Row :=
  ⟨f r.first s.first, f r.second s.second, f r.third s.third, f r.fourth s.fourth⟩

@[inline] def add (r s : Row) : Row :=
  zipWith (· + ·) r s

/-- The words of a row, each changed by the bits of another row and turned left. -/
@[inline] def changeTurned (count : UInt32) (r s : Row) : Row :=
  zipWith (fun x y => rotateLeft (x ^^^ y) count) r s

/-- The row from its second word on, with the first word at its end. -/
@[inline] def shift (r : Row) : Row :=
  ⟨r.second, r.third, r.fourth, r.first⟩

def toList (r : Row) : List UInt32 :=
  [r.first, r.second, r.third, r.fourth]

end Row

/-- The sixteen words that a block is mixed in, in four rows. -/
structure Grid where
  a : Row
  b : Row
  c : Row
  d : Row
  deriving DecidableEq, Repr

namespace Grid

/-- Mix the four words of each column. -/
def mixColumns (g : Grid) : Grid :=
  let a := g.a.add g.b
  let d := g.d.changeTurned 16 a
  let c := g.c.add d
  let b := g.b.changeTurned 12 c
  let a := a.add b
  let d := d.changeTurned 8 a
  let c := c.add d
  let b := b.changeTurned 7 c
  ⟨a, b, c, d⟩

/-- The grid whose columns are the diagonals. -/
def slant (g : Grid) : Grid :=
  ⟨g.a, g.b.shift, g.c.shift.shift, g.d.shift.shift.shift⟩

/-- The grid whose diagonals are the columns. -/
def straighten (g : Grid) : Grid :=
  ⟨g.a, g.b.shift.shift.shift, g.c.shift.shift, g.d.shift⟩

/-- Two rounds: all columns of a grid, then all diagonals. -/
def mixTwice (g : Grid) : Grid :=
  g.mixColumns.slant.mixColumns.straighten

def add (g h : Grid) : Grid :=
  ⟨g.a.add h.a, g.b.add h.b, g.c.add h.c, g.d.add h.d⟩

def toList (g : Grid) : List UInt32 :=
  g.a.toList ++ g.b.toList ++ g.c.toList ++ g.d.toList

end Grid

/-- A key of eight words, in two rows. -/
structure Key where
  /-- The first four words. -/
  low : Row
  /-- The last four words. -/
  high : Row
  deriving DecidableEq, Repr

namespace Key

/-- The grid of a block before it is mixed. -/
def grid (key : Key) (block : UInt64) : Grid :=
  ⟨⟨0x61707865, 0x3320646e, 0x79622d32, 0x6b206574⟩, key.low, key.high,
    ⟨block.toUInt32, (block >>> 32).toUInt32, 0, 0⟩⟩

def block (key : Key) (number : UInt64) : List UInt32 :=
  let start := key.grid number
  (start.add start.mixTwice.mixTwice.mixTwice.mixTwice).toList

end Key

/-- The state after the next step of the generator that stretches seeds. -/
def nextSeed (state : UInt64) : UInt64 :=
  state * 6364136223846793005 + 11634580027462260723

/-- The word of a seed state. -/
def seedWord (state : UInt64) : UInt32 :=
  let x := (((state >>> 18) ^^^ state) >>> 27).toUInt32
  let turn := (state >>> 59).toUInt32
  if turn = 0 then x else rotateLeft x (32 - turn)

/-- The words of the next four seed states, and the last of these states. -/
def seedRow (state : UInt64) : Row × UInt64 :=
  let first := nextSeed state
  let second := nextSeed first
  let third := nextSeed second
  let fourth := nextSeed third
  (⟨seedWord first, seedWord second, seedWord third, seedWord fourth⟩, fourth)

/-- The key of a seed. -/
def Key.ofSeed (seed : Nat) : Key :=
  let (low, state) := seedRow (UInt64.ofNat seed)
  ⟨low, (seedRow state).1⟩

/-- A place in the stream of a key. -/
structure Stream where
  key : Key
  /-- The number of the next block. -/
  block : UInt64
  /-- Words of the block before it that were not taken yet. -/
  ready : List UInt32
  deriving DecidableEq, Repr

namespace Stream

def ofSeed (seed : Nat) : Stream :=
  ⟨Key.ofSeed seed, 0, []⟩

def nextWord (s : Stream) : UInt32 × Stream :=
  match s.ready with
  | word :: ready => (word, { s with ready })
  | [] =>
    match s.key.block s.block with
    | word :: ready => (word, { s with block := s.block + 1, ready })
    | [] => (0, { s with block := s.block + 1 })

/-- The next number of 32 bits. -/
def next32 (s : Stream) : Nat × Stream :=
  let (word, s) := s.nextWord
  (word.toNat, s)

/-- The next number of 64 bits: two words, the low one first. -/
def next64 (s : Stream) : Nat × Stream :=
  let (low, s) := s.nextWord
  let (high, s) := s.nextWord
  (low.toNat + (high.toNat <<< 32), s)

end Stream

end Scrollback.Random
