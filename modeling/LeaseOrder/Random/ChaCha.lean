/-
The ChaCha stream with twelve rounds, as a source of words.

The state is a square of sixteen words: four constants, eight words of key, a block
counter of 64 bits and two zeros.  A round works on the four columns of the square at
once; every second round does so with the rows shifted, so that the columns are
diagonals.

The key comes from a seed.  Its words are the outputs of a linear congruential state of 64
bits, each of which is the upper part of the state folded onto itself and rotated by an amount
that the uppermost five bits choose.
-/

namespace LeaseOrder.Random

/-! ### Words -/

/-- A word rotated to the left. -/
def rotateLeft (w k : UInt32) : UInt32 :=
  (w <<< k) ||| (w >>> (32 - k))

/-- A word rotated to the right. -/
def rotateRight (w k : UInt32) : UInt32 :=
  (w >>> k) ||| (w <<< (32 - k))

/-- The state after another one. -/
def advance (state : UInt64) : UInt64 :=
  state * 6364136223846793005 + 11634580027462260723

/-- The word of a state. -/
def output (state : UInt64) : UInt32 :=
  rotateRight (((state >>> 18) ^^^ state) >>> 27).toUInt32 (state >>> 59).toUInt32

/-- The first `n` words that a seed gives. -/
def expand : Nat → UInt64 → List UInt32
  | 0, _ => []
  | n + 1, seed => output (advance seed) :: expand n (advance seed)

/-! ### Blocks -/

/-- Four words side by side. -/
structure Quad where
  a : UInt32
  b : UInt32
  c : UInt32
  d : UInt32
deriving DecidableEq, Repr

namespace Quad

/-- Combines two rows word by word. -/
def zip (f : UInt32 → UInt32 → UInt32) (x y : Quad) : Quad :=
  ⟨f x.a y.a, f x.b y.b, f x.c y.c, f x.d y.d⟩

/-- Rotates every word to the left. -/
def rotate (k : UInt32) (x : Quad) : Quad :=
  ⟨rotateLeft x.a k, rotateLeft x.b k, rotateLeft x.c k, rotateLeft x.d k⟩

/-- Moves every word one place to the left, the first one to the end. -/
def turn (x : Quad) : Quad :=
  ⟨x.b, x.c, x.d, x.a⟩

/-- The words in order. -/
def toList (x : Quad) : List UInt32 :=
  [x.a, x.b, x.c, x.d]

end Quad

/-- Sixteen words in four rows. -/
structure Square where
  top : Quad
  upper : Quad
  lower : Quad
  bottom : Quad
deriving DecidableEq, Repr

namespace Square

/-- Adds `y` to `x`, and mixes the sum into `z`, which is rotated by `k`. -/
def mix (k : UInt32) (x y z : Quad) : Quad × Quad :=
  let s := x.zip (· + ·) y
  (s, (z.zip (· ^^^ ·) s).rotate k)

/-- A round on the four columns. -/
def columns (q : Square) : Square :=
  let (top, bottom) := mix 16 q.top q.upper q.bottom
  let (lower, upper) := mix 12 q.lower bottom q.upper
  let (top, bottom) := mix 8 top upper bottom
  let (lower, upper) := mix 7 lower bottom upper
  ⟨top, upper, lower, bottom⟩

/-- A round on the four diagonals. -/
def diagonals (q : Square) : Square :=
  let r := columns ⟨q.top, q.upper.turn, q.lower.turn.turn, q.bottom.turn.turn.turn⟩
  ⟨r.top, r.upper.turn.turn.turn, r.lower.turn.turn, r.bottom.turn⟩

/-- A number of pairs of rounds. -/
def rounds : Nat → Square → Square
  | 0, q => q
  | n + 1, q => rounds n q.columns.diagonals

/-- Adds two squares word by word. -/
def add (x y : Square) : Square :=
  ⟨x.top.zip (· + ·) y.top, x.upper.zip (· + ·) y.upper, x.lower.zip (· + ·) y.lower,
    x.bottom.zip (· + ·) y.bottom⟩

/-- The words in order. -/
def toList (q : Square) : List UInt32 :=
  q.top.toList ++ q.upper.toList ++ q.lower.toList ++ q.bottom.toList

end Square

/-- Eight words of key. -/
structure Key where
  first : Quad
  second : Quad
deriving DecidableEq, Repr

/-- The key that a seed gives. -/
def Key.ofSeed (seed : UInt64) : Key :=
  match expand 8 seed with
  | [a, b, c, d, e, f, g, h] => ⟨⟨a, b, c, d⟩, ⟨e, f, g, h⟩⟩
  | _ => ⟨⟨0, 0, 0, 0⟩, ⟨0, 0, 0, 0⟩⟩

/-- The words of one block. -/
def Key.block (k : Key) (counter : UInt64) : List UInt32 :=
  let q : Square :=
    { top := ⟨0x61707865, 0x3320646e, 0x79622d32, 0x6b206574⟩
      upper := k.first
      lower := k.second
      bottom := ⟨counter.toUInt32, (counter >>> 32).toUInt32, 0, 0⟩ }
  ((q.rounds 6).add q).toList

/-! ### Streams -/

/-- A stream of words. -/
structure Stream where
  key : Key
  /-- The number of the next block. -/
  counter : UInt64
  /-- The words of the current block that have not been drawn. -/
  left : List UInt32

namespace Stream

/-- The stream of a seed. -/
def ofSeed (seed : UInt64) : Stream :=
  ⟨.ofSeed seed, 0, []⟩

/-- Draws a word. -/
def next (s : Stream) : UInt32 × Stream :=
  match s.left with
  | w :: rest => (w, { s with left := rest })
  | [] =>
    match s.key.block s.counter with
    | w :: rest => (w, ⟨s.key, s.counter + 1, rest⟩)
    | [] => (0, s)

/-- The greatest lower half of a product with `n` that keeps every outcome equally likely. -/
def zone (n : Nat) : Nat :=
  n <<< (31 - n.log2) - 1

/-- Draws a number below `n`: the upper half of a word times `n`, drawn again for as long as
    the lower half lies outside the zone, at most `fuel` times. -/
def draw (n : Nat) : Nat → Stream → Nat × Stream
  | 0, s => (s.next.1.toNat * n / UInt32.size, s.next.2)
  | fuel + 1, s =>
    let product := s.next.1.toNat * n
    if product % UInt32.size ≤ zone n then (product / UInt32.size, s.next.2) else draw n fuel s.next.2

/-- The cut-off of a draw: after so many refused words it takes the next one as it is. -/
def maxDraws : Nat := 1024

/-- Draws a number below `n`. -/
def below (n : Nat) (s : Stream) : Nat × Stream :=
  draw n maxDraws s

end Stream

end LeaseOrder.Random
