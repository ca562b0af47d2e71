import LineBasic.Line

namespace LineBasic

/-!
# Listings

The stored program: lines in ascending order of their numbers, at most one of each number. An
insertion replaces the line that has the number already.

* `get?_insert`, `get?_erase` -- what an operation does to the line of each number;
* `nextAfter?`, `range` -- the lines after a number, and those between two.
-/

/-- The lines of a program. -/
structure Listing where
  /-- The lines. -/
  lines : List Line
  /-- Each line has a smaller number than those after it. -/
  ascending : lines.Pairwise (·.number < ·.number)
  deriving DecidableEq

namespace Listing

/-- The program without lines. -/
def empty : Listing := ⟨[], .nil⟩

instance : Inhabited Listing := ⟨empty⟩

/-- How many lines there are. -/
def size (p : Listing) : Nat := p.lines.length

/-- Whether there are no lines. -/
def isEmpty (p : Listing) : Bool := p.lines.isEmpty

/-- The line with a number. -/
def get? (p : Listing) (n : Nat) : Option Line := p.lines.find? (·.number == n)

/-- Whether there is a line with a number. -/
def contains (p : Listing) (n : Nat) : Bool := p.lines.any (·.number == n)

/-- Puts a line among lines in ascending order, instead of the one with its number. -/
def place (l : Line) : List Line → List Line
  | [] => [l]
  | k :: ks =>
    if k.number < l.number then k :: place l ks
    else if k.number = l.number then l :: ks
    else l :: k :: ks

/-- A line that is there after another has been placed is that one or was there before. -/
theorem eq_or_mem_of_mem_place {l k : Line} {ks : List Line} (h : k ∈ place l ks) :
    k = l ∨ k ∈ ks := by
  fun_induction place l ks <;> grind

/-- Placing a line keeps the numbers in ascending order. -/
theorem place_ascending {l : Line} {ks : List Line} (h : ks.Pairwise (·.number < ·.number)) :
    (place l ks).Pairwise (·.number < ·.number) := by
  fun_induction place l ks with
  | case1 => exact List.pairwise_singleton _ _
  | case2 k ks hk ih =>
    obtain ⟨hks, h⟩ := List.pairwise_cons.1 h
    refine List.pairwise_cons.2 ⟨fun m hm => ?_, ih h⟩
    rcases eq_or_mem_of_mem_place hm with rfl | hm
    · exact hk
    · exact hks m hm
  | case3 k ks _ hk =>
    obtain ⟨hks, h⟩ := List.pairwise_cons.1 h
    exact List.pairwise_cons.2 ⟨fun m hm => hk ▸ hks m hm, h⟩
  | case4 k ks hlt hne =>
    refine List.pairwise_cons.2 ⟨fun m hm => ?_, h⟩
    have := List.pairwise_cons.1 h
    grind

/-- Placing a line replaces the one with its number, and no other. -/
theorem mem_place {l k : Line} {ks : List Line} (h : ks.Pairwise (·.number < ·.number)) :
    k ∈ place l ks ↔ k = l ∨ k ∈ ks ∧ k.number ≠ l.number := by
  fun_induction place l ks with
  | case1 => simp
  | case2 m ks hm ih =>
    have := ih (List.pairwise_cons.1 h).2
    grind
  | case3 m ks _ hm =>
    have := (List.pairwise_cons.1 h).1
    grind
  | case4 m ks hlt hne =>
    have := (List.pairwise_cons.1 h).1
    grind

/-- Puts a line in its place, instead of the one with its number. -/
def insert (p : Listing) (l : Line) : Listing := ⟨place l p.lines, place_ascending p.ascending⟩

/-- Takes away the line with a number, if there is one. -/
def erase (p : Listing) (n : Nat) : Listing :=
  ⟨p.lines.filter (·.number ≠ n), p.ascending.filter _⟩

/-- The number of the first line. -/
def first? (p : Listing) : Option Nat := p.lines.head?.map Line.number

/-- The number of the first line after a number, whether or not that number has a line. -/
def nextAfter? (p : Listing) (n : Nat) : Option Nat :=
  (p.lines.find? (n < ·.number)).map Line.number

/-- The lines between two numbers, both included. -/
def range (p : Listing) (low high : Nat) : List Line :=
  p.lines.filter fun l => low ≤ l.number && l.number ≤ high

/-- The texts of the lines. -/
def sources (p : Listing) : List String := p.lines.map Line.source

/-! ### The line of a number -/

/-- There is a line under a number if one is found there. -/
theorem contains_eq_isSome_get? (p : Listing) (n : Nat) : p.contains n = (p.get? n).isSome := by
  rw [contains, get?, Bool.eq_iff_iff, List.any_eq_true, List.find?_isSome]

/-- The line of a number is the one that has it. -/
theorem get?_eq_some_iff {p : Listing} {n : Nat} {l : Line} :
    p.get? n = some l ↔ l ∈ p.lines ∧ l.number = n := by
  constructor
  · intro h
    exact ⟨List.mem_of_find?_eq_some h, by simpa using List.find?_some h⟩
  · rintro ⟨hl, rfl⟩
    cases hg : p.get? l.number with
    | none => simpa using (List.find?_eq_none.1 hg) l hl
    | some k =>
      have hk : k ∈ p.lines := List.mem_of_find?_eq_some hg
      have hn : k.number = l.number := by simpa using List.find?_some hg
      obtain ⟨i, hi, rfl⟩ := List.getElem_of_mem hk
      obtain ⟨j, hj, rfl⟩ := List.getElem_of_mem hl
      have hp := List.pairwise_iff_getElem.1 p.ascending
      rcases Nat.lt_trichotomy i j with hij | rfl | hij
      · exact absurd hn (Nat.ne_of_lt (hp i j hi hj hij))
      · rfl
      · exact absurd hn (Nat.ne_of_gt (hp j i hj hi hij))

@[simp] theorem mem_insert {p : Listing} {l k : Line} :
    k ∈ (p.insert l).lines ↔ k = l ∨ k ∈ p.lines ∧ k.number ≠ l.number := by
  exact mem_place p.ascending

@[simp] theorem mem_erase {p : Listing} {n : Nat} {k : Line} :
    k ∈ (p.erase n).lines ↔ k ∈ p.lines ∧ k.number ≠ n := by
  simp [erase]

/-- After an insertion the inserted line has its number, and the others have theirs. -/
theorem get?_insert (p : Listing) (l : Line) (n : Nat) :
    (p.insert l).get? n = if l.number = n then some l else p.get? n := by
  apply Option.ext
  intro k
  split <;> simp only [get?_eq_some_iff, mem_insert, Option.some.injEq] <;> grind [get?_eq_some_iff]

/-- After a deletion the number has no line, and the others have theirs. -/
theorem get?_erase (p : Listing) (m n : Nat) :
    (p.erase m).get? n = if m = n then none else p.get? n := by
  apply Option.ext
  intro k
  split <;> simp only [get?_eq_some_iff, mem_erase] <;> grind [get?_eq_some_iff]

end Listing

end LineBasic
