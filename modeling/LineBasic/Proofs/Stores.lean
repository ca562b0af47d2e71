import LineBasic.Breakpoints
import LineBasic.CallStack

namespace LineBasic

/-!
# Listings, call stacks and breakpoints

What the operations of the three stores do, as far as the engine relies on it.

* `Listing.contains_first?`, `Listing.contains_nextAfter?` -- the ways to come to a line without
  naming it lead to stored lines;
* `Listing.contains_insert`, `Listing.contains_erase` -- edits keep the other lines;
* `CallStack.push_ok`, `CallStack.pop_ok` -- how the frames change;
* `Breakpoints.set_ok`, `Breakpoints.clear_ok`, `Breakpoints.forget_lines` -- which breakpoints are
  left.
-/

namespace Listing

variable {p : Listing} {n k : Nat}

/-- A listing is given by its lines. -/
theorem eq_of_lines {p q : Listing} (h : p.lines = q.lines) : p = q := by
  cases p
  cases q
  cases h
  rfl

/-- Whether a value is the number of a line of a program. -/
def IsTarget (p : Listing) (n : Int16) : Prop := 1 ≤ n ∧ p.contains n.toNatClampNeg

/-- A line is found under its own number. -/
theorem get?_number {l : Line} (h : p.get? n = some l) : l.number = n := (get?_eq_some_iff.1 h).2

/-- A number is in use just when a line is found under it. -/
theorem contains_iff_get? : p.contains n ↔ ∃ l, p.get? n = some l := by
  rw [contains_eq_isSome_get?, Option.isSome_iff_exists]

/-- A line of the listing has its number in it. -/
theorem contains_of_mem {l : Line} (h : l ∈ p.lines) : p.contains l.number :=
  contains_iff_get?.2 ⟨l, get?_eq_some_iff.2 ⟨h, rfl⟩⟩

/-- The first line is a line of the listing. -/
theorem contains_first? (h : p.first? = some n) : p.contains n := by
  obtain ⟨l, hl, rfl⟩ := Option.map_eq_some_iff.1 h
  exact contains_of_mem (List.mem_of_mem_head? hl)

/-- The line after another is a line of the listing. -/
theorem contains_nextAfter? (h : p.nextAfter? k = some n) : p.contains n := by
  obtain ⟨l, hl, rfl⟩ := Option.map_eq_some_iff.1 h
  exact contains_of_mem (List.mem_of_find?_eq_some hl)

/-- An insertion keeps the numbers that there are. -/
theorem contains_insert {l : Line} (h : p.contains n) : (p.insert l).contains n := by
  obtain ⟨k, hk⟩ := contains_iff_get?.1 h
  refine contains_iff_get?.2 ?_
  rw [get?_insert]
  split
  · exact ⟨l, rfl⟩
  · exact ⟨k, hk⟩

/-- A deletion keeps all numbers but one. -/
theorem contains_erase (hne : k ≠ n) (h : p.contains n) : (p.erase k).contains n := by
  obtain ⟨l, hl⟩ := contains_iff_get?.1 h
  refine contains_iff_get?.2 ⟨l, ?_⟩
  rw [get?_erase, if_neg hne]
  exact hl

/-- No two lines have the same number. -/
theorem eq_of_number {k l : Line} (hk : k ∈ p.lines) (hl : l ∈ p.lines) (h : k.number = l.number) :
    k = l :=
  Option.some.inj ((get?_eq_some_iff.2 ⟨hk, h⟩).symm.trans (get?_eq_some_iff.2 ⟨hl, rfl⟩))

/-- No line comes before the first. -/
theorem first?_le {l : Line} (h : p.first? = some n) (hl : l ∈ p.lines) : n ≤ l.number := by
  obtain ⟨k, hk, rfl⟩ := Option.map_eq_some_iff.1 h
  obtain ⟨ks, hlines⟩ := List.head?_eq_some_iff.1 hk
  have hsorted := p.ascending
  rw [hlines, List.pairwise_cons] at hsorted
  rw [hlines] at hl
  rcases List.mem_cons.1 hl with rfl | hl
  · exact Nat.le_refl _
  · exact Nat.le_of_lt (hsorted.1 l hl)

/-- No line stands between a number and the next line after it. -/
theorem nextAfter?_le {l : Line} (h : p.nextAfter? k = some n) (hl : l ∈ p.lines)
    (hk : k < l.number) :
    n ≤ l.number := by
  obtain ⟨next, hnext, rfl⟩ := Option.map_eq_some_iff.1 h
  obtain ⟨-, above, below, hlines, habove⟩ := List.find?_eq_some_iff_append.1 hnext
  have hsorted := p.ascending
  rw [hlines, List.pairwise_append, List.pairwise_cons] at hsorted
  rw [hlines] at hl
  rcases List.mem_append.1 hl with hl | hl
  · have := habove l hl
    simp [hk] at this
  · rcases List.mem_cons.1 hl with rfl | hl
    · exact Nat.le_refl _
    · exact Nat.le_of_lt (hsorted.2.1.1 l hl)

end Listing

namespace CallStack

/-- A number that is pushed lies on top, and the stack is within its limit. -/
theorem push_ok {c c' : CallStack} {n : Nat} (h : c.push n = .ok c') :
    c'.frames = n :: c.frames ∧ c'.depth ≤ limit := by
  unfold push at h
  split at h
  next => cases h
  next hroom =>
    cases h
    exact ⟨rfl, Nat.lt_of_not_le hroom⟩

/-- Nothing but a full stack refuses a push. -/
theorem push_error {c : CallStack} {n : Nat} {cause : Cause} (h : c.push n = .error cause) :
    cause = .stackOverflow := by
  unfold push at h
  split at h <;> cases h
  rfl

/-- The number that is popped lay on top. -/
theorem pop_ok {c c' : CallStack} {n : Nat} (h : c.pop = .ok (n, c')) :
    c.frames = n :: c'.frames := by
  unfold pop at h
  split at h
  next => cases h
  next hframes =>
    cases h
    exact hframes

/-- Nothing but an empty stack refuses a pop. -/
theorem pop_error {c : CallStack} {cause : Cause} (h : c.pop = .error cause) :
    cause = .returnWithoutGosub := by
  unfold pop at h
  split at h <;> cases h
  rfl

/-- A stack that refuses a pop is empty. -/
theorem isEmpty_of_pop_error {c : CallStack} {cause : Cause} (h : c.pop = .error cause) :
    c.isEmpty := by
  unfold pop at h
  split at h
  next hframes => simp [isEmpty, hframes]
  next => cases h

/-- An empty stack refuses a pop. -/
theorem pop_of_isEmpty {c : CallStack} (h : c.isEmpty) : c.pop = .error .returnWithoutGosub := by
  have hframes : c.frames = [] := List.isEmpty_iff.1 h
  unfold pop
  rw [hframes]

end CallStack

namespace Breakpoints

/-- The removal of a line can only remove breakpoints. -/
theorem forget_lines (b : Breakpoints) (n : Nat) : (b.forget n).lines = b.lines.filter (· ≠ n) := by
  unfold forget
  split <;> rfl

/-- Where no one-shot is set, none is left after a line is forgotten. -/
theorem forget_oneShot {b : Breakpoints} (h : b.oneShot = none) (n : Nat) :
    (b.forget n).oneShot = none := by
  unfold forget
  split
  · rfl
  · exact h

/-- A breakpoint that is cleared is dropped, and nothing else changes. -/
theorem clear_ok {b b' : Breakpoints} {n : Nat} (h : b.clear n = .ok b') : b' = b.drop n := by
  unfold clear at h
  split at h <;> cases h
  rfl

/-- A breakpoint is set on a line of the listing only. -/
theorem set_ok {b b' : Breakpoints} {n : Nat} {p : Listing} (h : b.set n p = .ok b') :
    p.contains n ∧ b' = b.add n := by
  unfold set at h
  split at h
  · cases h
  next hn =>
    split at h <;> cases h
    exact ⟨by simpa using hn, rfl⟩

/-- A breakpoint is refused where there is no line, and where one is already set. -/
theorem set_error_iff {b : Breakpoints} {n : Nat} {p : Listing} {cause : Cause} :
    b.set n p = .error cause ↔ ¬ p.contains n ∧ cause = .noSuchLine n ∨
      p.contains n ∧ n ∈ b.lines ∧ cause = .breakpointExists n := by
  unfold set
  by_cases hcontains : p.contains n
  · by_cases hset : n ∈ b.lines <;> simp [hcontains, hset, eq_comm]
  · simp [hcontains, eq_comm]

/-- Only a breakpoint that is not set cannot be cleared. -/
theorem clear_error_iff {b : Breakpoints} {n : Nat} {cause : Cause} :
    b.clear n = .error cause ↔ n ∉ b.lines ∧ cause = .noBreakpoint n := by
  unfold clear
  by_cases hset : n ∈ b.lines <;> simp [hset, eq_comm]

/-- Setting a breakpoint leaves the one-shot alone. -/
theorem set_oneShot {b b' : Breakpoints} {n : Nat} {p : Listing} (h : b.set n p = .ok b') :
    b'.oneShot = b.oneShot := by
  rw [(set_ok h).2]
  rfl

end Breakpoints

end LineBasic
