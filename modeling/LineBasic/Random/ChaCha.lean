import LineBasic.Random

namespace LineBasic

/-!
# The source of a terminal session

`ChaCha` is the stream of words that the cipher of that name, with twelve rounds, makes out of a key
and a counter. A block of sixteen words is computed from constants, the key and the counter, and the
words are used one after the other.

* `ofSeed` -- the source whose key is made from a seed: equal seeds give equal numbers;
* `block` -- the words of one block;
* `next` -- the next word.
-/

/-- A source of words. -/
structure ChaCha where
  /-- The key. -/
  key : Vector UInt32 8
  /-- The number of the next block. -/
  counter : UInt64 := 0
  /-- The words of the last block that have not been used. -/
  words : List UInt32 := []
  deriving DecidableEq, Repr

namespace ChaCha

/-! ### Blocks -/

/-- The word with its bits turned to the left. -/
def turn (word bits : UInt32) : UInt32 := (word <<< bits) ||| (word >>> (32 - bits))

/-- Mixes four words. -/
def mix (a b c d : UInt32) : UInt32 × UInt32 × UInt32 × UInt32 :=
  let a := a + b
  let d := turn (d ^^^ a) 16
  let c := c + d
  let b := turn (b ^^^ c) 12
  let a := a + b
  let d := turn (d ^^^ a) 8
  let c := c + d
  let b := turn (b ^^^ c) 7
  (a, b, c, d)

/-- Mixes the words at four places of a block. -/
def mixAt (s : Vector UInt32 16) (i j k l : Fin 16) : Vector UInt32 16 :=
  let (a, b, c, d) := mix s[i] s[j] s[k] s[l]
  (((s.set i a).set j b).set k c).set l d

/-- Mixes the columns of a block, seen as a square of four by four words, and then its diagonals. -/
def doubleRound (s : Vector UInt32 16) : Vector UInt32 16 :=
  let s := mixAt s 0 4 8 12
  let s := mixAt s 1 5 9 13
  let s := mixAt s 2 6 10 14
  let s := mixAt s 3 7 11 15
  let s := mixAt s 0 5 10 15
  let s := mixAt s 1 6 11 12
  let s := mixAt s 2 7 8 13
  mixAt s 3 4 9 14

/-- How often a block is mixed: twelve rounds, two at a time. -/
def doubleRounds : Nat := 6

/-- What a block is mixed from. -/
def fresh (key : Vector UInt32 8) (counter : UInt64) : Vector UInt32 16 :=
  #v[0x61707865, 0x3320646e, 0x79622d32, 0x6b206574, key[0], key[1], key[2], key[3], key[4], key[5],
    key[6], key[7], counter.toUInt32, (counter >>> 32).toUInt32, 0, 0]

/-- The words of a block. -/
def block (key : Vector UInt32 8) (counter : UInt64) : Vector UInt32 16 :=
  let start := fresh key counter
  (Nat.repeat doubleRound doubleRounds start).zipWith (· + ·) start

/-- The next word of the source. -/
def next (g : ChaCha) : UInt32 × ChaCha :=
  match g.words with
  | word :: words => (word, { g with words })
  | [] =>
    let words := block g.key g.counter
    (words[0], { g with counter := g.counter + 1, words := words.toList.tail })

instance : RandomSource ChaCha where
  draw bound pos g := Random.spread next bound pos Random.patience g

/-! ### Seeds -/

/-- The next number of a sequence of 64-bit numbers in which every number occurs. -/
def step (state : UInt64) : UInt64 := state * 6364136223846793005 + 11634580027462260723

/-- The word that a number of the sequence stands for: its upper bits, folded together and turned by
as many bits as the uppermost five say. -/
def fold (state : UInt64) : UInt32 :=
  let word := (((state >>> 18) ^^^ state) >>> 27).toUInt32
  let bits := (state >>> 59).toUInt32
  (word >>> bits) ||| (word <<< ((32 - bits) % 32))

/-- The source whose key is made from a seed. -/
def ofSeed (seed : Nat) : ChaCha where
  key := Vector.ofFn fun i => fold (Nat.repeat step (i + 1) (.ofNat seed))

end ChaCha

end LineBasic
