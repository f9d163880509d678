import LogicTree.Sampling.Source

/-! # Seeded draws

Draws that a 64-bit seed determines: the key stream of the ChaCha cipher with twelve rounds, under a
key that a permuted congruential generator makes of the seed. Two words of the stream make a draw.
-/

namespace LogicTree.ChaCha

/-- Rotates a word to the left, by less than its width. -/
def rotateLeft (word : UInt32) (count : UInt32) : UInt32 :=
  word <<< count ||| word >>> (32 - count)

/-- Four words that are worked on side by side. -/
structure Row where
  w0 : UInt32
  w1 : UInt32
  w2 : UInt32
  w3 : UInt32
  deriving DecidableEq

namespace Row

/-- Combines two rows word by word. -/
def zipWith (f : UInt32 → UInt32 → UInt32) (x y : Row) : Row :=
  ⟨f x.w0 y.w0, f x.w1 y.w1, f x.w2 y.w2, f x.w3 y.w3⟩

/-- Applies a function to every word. -/
def map (f : UInt32 → UInt32) (x : Row) : Row :=
  ⟨f x.w0, f x.w1, f x.w2, f x.w3⟩

/-- Moves every word one place to the left, the first to the end. -/
def turn (x : Row) : Row :=
  ⟨x.w1, x.w2, x.w3, x.w0⟩

/-- The words in order. -/
def toList (x : Row) : List UInt32 :=
  [x.w0, x.w1, x.w2, x.w3]

end Row

/-- Sixteen words in four rows. -/
structure Block where
  a : Row
  b : Row
  c : Row
  d : Row
  deriving DecidableEq

namespace Block

/-- Adds `y` to `x`, and mixes the sum into `z` by exclusive or and a rotation. -/
def stir (x y z : Row) (rotation : UInt32) : Row × Row :=
  let sum := x.zipWith (· + ·) y
  (sum, (z.zipWith (· ^^^ ·) sum).map (rotateLeft · rotation))

/-- The quarter round on all four columns. -/
def columns (block : Block) : Block :=
  let (a, d) := stir block.a block.b block.d 16
  let (c, b) := stir block.c d block.b 12
  let (a, d) := stir a b d 8
  let (c, b) := stir c d b 7
  ⟨a, b, c, d⟩

/-- Brings the diagonals into the columns. -/
def slant (block : Block) : Block :=
  ⟨block.a, block.b.turn, block.c.turn.turn, block.d.turn.turn.turn⟩

/-- Brings the columns back into the diagonals. -/
def unslant (block : Block) : Block :=
  ⟨block.a, block.b.turn.turn.turn, block.c.turn.turn, block.d.turn⟩

/-- Two rounds: one on the columns and one on the diagonals. -/
def doubleRound (block : Block) : Block :=
  block.columns.slant.columns.unslant

/-- Twelve rounds, and the start added to the result. -/
def scramble (start : Block) : Block :=
  let mixed := (List.range 6).foldl (fun block _ => block.doubleRound) start
  ⟨mixed.a.zipWith (· + ·) start.a, mixed.b.zipWith (· + ·) start.b,
    mixed.c.zipWith (· + ·) start.c, mixed.d.zipWith (· + ·) start.d⟩

/-- The words in order. -/
def toList (block : Block) : List UInt32 :=
  block.a.toList ++ block.b.toList ++ block.c.toList ++ block.d.toList

end Block

/-- The start of a block: constant words, the key, the number of the block, no stream number. -/
def startBlock (key : Row × Row) (number : UInt64) : Block :=
  ⟨⟨0x61707865, 0x3320646e, 0x79622d32, 0x6b206574⟩, key.1, key.2,
    ⟨number.toUInt32, (number >>> 32).toUInt32, 0, 0⟩⟩

/-- A draw from two words of the stream: their 53 high bits, as a fraction of one. -/
def drawOfWords (low high : UInt32) : Float :=
  ((high.toUInt64 <<< 32 ||| low.toUInt64) >>> 11).toFloat / 9007199254740992.0

/-- The draws that the words of a block make, two by two. -/
def drawsOfWords : List UInt32 → List Float
  | low :: high :: rest => drawOfWords low high :: drawsOfWords rest
  | _ => []

/-- One step of the congruential generator. -/
def stepSeed (state : UInt64) : UInt64 :=
  state * 6364136223846793005 + 11634580027462260723

/-- The word that the generator gives out in a state. -/
def seedWord (state : UInt64) : UInt32 :=
  let word := (((state >>> 18) ^^^ state) >>> 27).toUInt32
  let rotation := (state >>> 59).toUInt32
  word >>> rotation ||| word <<< ((32 - rotation) % 32)

/-- The next row of key words, and the state after it. -/
def keyRow (state : UInt64) : Row × UInt64 :=
  let s0 := stepSeed state
  let s1 := stepSeed s0
  let s2 := stepSeed s1
  let s3 := stepSeed s2
  (⟨seedWord s0, seedWord s1, seedWord s2, seedWord s3⟩, s3)

/-- The key that belongs to a seed. -/
def keyOfSeed (seed : UInt64) : Row × Row :=
  let (first, state) := keyRow seed
  (first, (keyRow state).1)

/-- A source of seeded draws: the key, the number of the next block, and the draws that are left of
the present one. -/
structure Stream where
  key : Row × Row
  next : UInt64
  pending : List Float

namespace Stream

/-- The stream of a seed. -/
def ofSeed (seed : UInt64) : Stream := ⟨keyOfSeed seed, 0, []⟩

instance : UniformSource Stream where
  next stream := match stream.pending with
    | draw :: rest => (draw, { stream with pending := rest })
    | [] =>
        let words := (startBlock stream.key stream.next).scramble.toList
        match drawsOfWords words with
        | draw :: rest => (draw, ⟨stream.key, stream.next + 1, rest⟩)
        | [] => (0.0, stream)

end Stream

end LogicTree.ChaCha
