namespace LineBasic

/-!
# Variable names

The language has 26 variables, named by the letters of the alphabet.
-/

/-- The name of one of the 26 variables, `A` to `Z`. -/
structure Letter where
  /-- The place of the letter in the alphabet, from 0. -/
  index : Fin 26
  deriving DecidableEq, Repr

namespace Letter

/-- The letter that a character is, upper or lower case. -/
def ofChar? (c : Char) : Option Letter :=
  let n := c.toUpper.toNat - 'A'.toNat
  if h : c.isAlpha ∧ n < 26 then some ⟨⟨n, h.2⟩⟩ else none

/-- The letter at a place of the alphabet, counted from 0. -/
def ofIndex? (n : Nat) : Option Letter := if h : n < 26 then some ⟨⟨n, h⟩⟩ else none

/-- The upper-case character of a letter. -/
def char (x : Letter) : Char := Char.ofNat ('A'.toNat + x.index)

/-- The upper-case text of a letter. -/
def name (x : Letter) : String := x.char.toString

/-- All letters, in alphabetical order. -/
def all : List Letter := (List.finRange 26).map Letter.mk

@[simp] theorem ofIndex?_index (x : Letter) : ofIndex? x.index = some x := by
  simp [ofIndex?, x.index.isLt]

@[simp] theorem mem_all (x : Letter) : x ∈ all := by simp [all, List.mem_finRange]

/-- Reading the name of a letter gives the letter back. -/
theorem ofChar?_char (x : Letter) : ofChar? x.char = some x := by
  obtain ⟨i⟩ := x
  revert i
  decide

end Letter

instance : Inhabited Letter := ⟨⟨0⟩⟩

end LineBasic
