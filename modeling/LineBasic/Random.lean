import LineBasic.Diagnostic.Basic

namespace LineBasic

/-!
# Random numbers

`RND` draws from a source of random numbers, of which the interpreter knows only the class
`RandomSource`. `Random.spread` says how a source of 32-bit words draws numbers below a bound
without favouring any of them.
-/

/-- A source of random numbers with states of type `γ`. -/
class RandomSource (γ : Type) where
  /-- A number below a bound, and the state of the source afterwards. -/
  draw (bound : Nat) (pos : 0 < bound) (state : γ) : Fin bound × γ

/-- `RND` of a value: a number from zero up to, but not including, the value. -/
def RandomSource.roll {γ : Type} [RandomSource γ] (state : γ) (n : Int16) :
    Except Cause (Int16 × γ) :=
  if h : 0 < n.toInt then
    let (value, state) := draw n.toInt.toNat (by omega) state
    .ok (.ofNat value, state)
  else .error (.rndArgument n)

namespace Random

/-- How many words there are. -/
def wordCount : Nat := UInt32.size

/-- The number below a bound that a word stands for. The words are dealt out to the numbers in
ascending order. -/
def share (bound : Nat) (pos : 0 < bound) (word : UInt32) : Fin bound :=
  ⟨word.toNat * bound / wordCount,
    Nat.div_lt_of_lt_mul (Nat.mul_lt_mul_of_pos_right word.toNat_lt pos)⟩

/-- Whether a word counts. Where the words cannot be dealt out evenly, some of them are refused, so
that every number has as many words as any other. -/
def counts (bound : Nat) (word : UInt32) : Bool :=
  word.toNat * bound % wordCount < wordCount - wordCount % bound

/-- How many words are tried for one number. So many refusals in a row do not happen: for the bounds
of `RND`, fewer than one word in a hundred thousand is refused. -/
def patience : Nat := 64

/-- The number that the first word that counts stands for; after so many refusals any word does. -/
def spread {γ : Type} (next : γ → UInt32 × γ) (bound : Nat) (pos : 0 < bound) :
    Nat → γ → Fin bound × γ
  | 0, state =>
    let (word, state) := next state
    (share bound pos word, state)
  | tries + 1, state =>
    let (word, state) := next state
    if counts bound word then (share bound pos word, state) else spread next bound pos tries state

end Random

end LineBasic
