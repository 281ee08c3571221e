/-!
# The key stream

Random words come from a stream cipher of twelve rounds run on a counter: block number `n` is made
from a key of eight words and the number `n`, and its sixteen words are handed out in order. The
key is stretched from a 64-bit seed by a multiplicative generator with a permuted output, so equal
seeds give equal streams.
-/

namespace CacheHierarchy.Random

def rotateLeft (w : UInt32) (n : UInt32) : UInt32 := (w <<< n) ||| (w >>> (32 - n))

def rotateRight (w : UInt32) (n : UInt32) : UInt32 := (w >>> n) ||| (w <<< (32 - n))

abbrev Block := Vector UInt32 16

/-- Half of a mixing step: one word takes in a second, and a third is turned. -/
def mix (b : Block) (i j k : Fin 16) (turn : UInt32) : Block :=
  let b := b.set i (b[i] + b[j])
  b.set k (rotateLeft (b[k] ^^^ b[i]) turn)

def quarterRound (b : Block) (i j k l : Fin 16) : Block :=
  mix (mix (mix (mix b i j l 16) k l j 12) i j l 8) k l j 7

/-- Two rounds: the columns of the block and then its diagonals. -/
def doubleRound (b : Block) : Block :=
  let b := quarterRound (quarterRound b 0 4 8 12) 1 5 9 13
  let b := quarterRound (quarterRound b 2 6 10 14) 3 7 11 15
  let b := quarterRound (quarterRound b 0 5 10 15) 1 6 11 12
  quarterRound (quarterRound b 2 7 8 13) 3 4 9 14

abbrev Key := Vector UInt32 8

/-- The block before mixing: four constants, the key, the number of the block, and two zeros. -/
def startBlock (key : Key) (number : UInt64) : Block :=
  #v[0x61707865, 0x3320646e, 0x79622d32, 0x6b206574,
    key[0], key[1], key[2], key[3], key[4], key[5], key[6], key[7],
    number.toUInt32, (number >>> 32).toUInt32, 0, 0]

/-- The words of block `number`: twelve rounds, and the block before mixing added again. -/
def block (key : Key) (number : UInt64) : Block :=
  let start := startBlock key number
  let mixed :=
    doubleRound (doubleRound (doubleRound (doubleRound (doubleRound (doubleRound start)))))
  Vector.zipWith (· + ·) mixed start

/-- The words of a key that a seed is stretched to. -/
def stretch : Nat → UInt64 → List UInt32
  | 0, _ => []
  | n + 1, state =>
    let state := state * 6364136223846793005 + 11634580027462260723
    let folded := (((state >>> 18) ^^^ state) >>> 27).toUInt32
    rotateRight folded (state >>> 59).toUInt32 :: stretch n state

def keyOfSeed (seed : UInt64) : Key :=
  let words := stretch 8 seed
  Vector.ofFn fun i => words.getD i 0

/-- What is left of a stream: the rest of the current block, and the number of the next. -/
structure KeyStream where
  key : Key
  nextBlock : UInt64 := 0
  rest : List UInt32 := []

namespace KeyStream

def ofSeed (seed : UInt64) : KeyStream := { key := keyOfSeed seed }

def next32 (s : KeyStream) : UInt32 × KeyStream :=
  match s.rest with
  | word :: rest => (word, { s with rest })
  | [] =>
    let words := block s.key s.nextBlock
    (words[0], { s with nextBlock := s.nextBlock + 1, rest := words.toList.tail })

/-- The next two words as one, the first of them the lower half. -/
def next64 (s : KeyStream) : UInt64 × KeyStream :=
  let (low, s) := s.next32
  let (high, s) := s.next32
  (high.toUInt64 <<< 32 ||| low.toUInt64, s)

end KeyStream

end CacheHierarchy.Random
