import LineBasic.Proofs.Stores
import Mathlib.Data.Set.Card

namespace LineBasic

/-!
# Histories of programs

A program is settled by its edits: under each number it has what the last edit of that number left
there.

* `Edit`, `Listing.ofEdits` -- the edits of a program, and the program after some of them;
* `lastWritten?` -- what the last edit of a number left there, in terms of the edits alone;
* `Listing.get?_ofEdits` -- the line of a number is that one;
* `Listing.ext_get?`, `Listing.insert_comm` -- programs with the same lines under the same numbers
  are the same, so that insertions under two numbers may change places;
* `Listing.first?_eq_some_iff`, `Listing.nextAfter?_eq_some_iff`, `Listing.size_eq_ncard` -- what
  else can be asked of a program;
* `Listing.Records`, `Listing.records_ofEdits` -- all of this about a program after some edits.
-/

/-- A change of a program. -/
inductive Edit where
  /-- Puts a line in its place. -/
  | insert (l : Line)
  /-- Takes away the line with a number, if there is one. -/
  | remove (n : Nat)
  /-- Takes away all lines. -/
  | clear

/-- What an edit decides about a number: the line that has it afterwards, or that none has.  It
    leaves most numbers alone. -/
def Edit.decides? (n : Nat) : Edit → Option (Option Line)
  | insert l => if l.number = n then some (some l) else none
  | remove k => if k = n then some none else none
  | clear => some none

/-- The line that the last edit to decide about a number left there, if it left one. -/
def lastWritten? (es : List Edit) (n : Nat) : Option Line :=
  (es.reverse.findSome? (·.decides? n)).join

/-- A line that an edit left is one that it put there. -/
theorem insert_mem_of_lastWritten? {es : List Edit} {n : Nat} {l : Line}
    (h : lastWritten? es n = some l) :
    .insert l ∈ es := by
  obtain ⟨e, he, hdecides⟩ := List.exists_of_findSome?_eq_some (Option.join_eq_some_iff.1 h)
  have hinsert : e = .insert l := by
    cases e with
    | insert k =>
      have hdecides : k.number = n ∧ k = l := by simpa [Edit.decides?] using hdecides
      rw [hdecides.2]
    | remove k => simp [Edit.decides?] at hdecides
    | clear => simp [Edit.decides?] at hdecides
  exact hinsert ▸ List.mem_reverse.1 he

namespace Listing

/-- The program after an edit. -/
def edit (p : Listing) : Edit → Listing
  | .insert l => p.insert l
  | .remove n => p.erase n
  | .clear => empty

/-- The program after some edits, there having been none before. -/
def ofEdits (es : List Edit) : Listing := es.foldl edit empty

variable {p q : Listing} {k l : Line} {m n : Nat}

/-! ### Lines -/

/-- After an edit a number has what the edit decides about it, or else what it had. -/
theorem get?_edit (p : Listing) (e : Edit) (n : Nat) :
    (p.edit e).get? n = (e.decides? n).getD (p.get? n) := by
  cases e with
  | insert l =>
    rw [edit, get?_insert, Edit.decides?]
    split <;> rfl
  | remove k =>
    rw [edit, get?_erase, Edit.decides?]
    split <;> rfl
  | clear => rfl

/-- **Last edits.**  Under a number there is what the last edit of it left there. -/
theorem get?_ofEdits (es : List Edit) (n : Nat) : (ofEdits es).get? n = lastWritten? es n := by
  -- By the last edit, which decides the matter or leaves it to those before.
  induction es using List.reverseRecOn with
  | nil => rfl
  | append_singleton es e ih =>
    have hlast : ofEdits (es ++ [e]) = (ofEdits es).edit e := by simp [ofEdits]
    rw [hlast, get?_edit, ih, lastWritten?, lastWritten?, List.reverse_append]
    cases hdecides : e.decides? n <;> simp [hdecides]

/-- A program is the lines that it has under the numbers. -/
theorem ext_get? (h : ∀ n, p.get? n = q.get? n) : p = q := by
  have hmem : ∀ p q : Listing, (∀ n, p.get? n = q.get? n) → ∀ l ∈ p.lines, l ∈ q.lines := by
    intro p q h l hl
    have hget : p.get? l.number = some l := get?_eq_some_iff.2 ⟨hl, rfl⟩
    exact (get?_eq_some_iff.1 (h l.number ▸ hget)).1
  have hlines : ∀ l, l ∈ p.lines ↔ l ∈ q.lines :=
    fun l => ⟨hmem p q h l, hmem q p (fun n => (h n).symm) l⟩
  refine eq_of_lines
    (List.Perm.eq_of_pairwise (fun a b _ _ hab hba => ?_) p.ascending q.ascending ?_)
  · exact absurd hab (Nat.lt_asymm hba)
  · exact (List.perm_ext_iff_of_nodup
      (p.ascending.imp fun h => ne_of_apply_ne Line.number (Nat.ne_of_lt h))
      (q.ascending.imp fun h => ne_of_apply_ne Line.number (Nat.ne_of_lt h))).2 hlines

/-- Lines with different numbers may be inserted in any order. -/
theorem insert_comm (p : Listing) (h : k.number ≠ l.number) :
    (p.insert k).insert l = (p.insert l).insert k := by
  refine ext_get? fun n => ?_
  simp only [get?_insert]
  by_cases hl : l.number = n
  · have hk : k.number ≠ n := hl ▸ h
    simp [hl, hk]
  · simp [hl]

/-! ### Numbers -/

/-- The numbers of the lines. -/
def numbers (p : Listing) : Set Nat := {n | p.contains n}

/-- The numbers of a program are those of its lines. -/
theorem mem_numbers : n ∈ p.numbers ↔ ∃ l ∈ p.lines, l.number = n := by
  simp [numbers, contains]

/-- A number is one of a program if there is a line under it. -/
theorem mem_numbers_iff_get? : n ∈ p.numbers ↔ (p.get? n).isSome := by
  rw [← contains_eq_isSome_get?]
  rfl

/-- The first of the lines whose numbers have a property has the least of these numbers. -/
theorem find?_number_eq_some_iff (q : Nat → Bool) :
    (p.lines.find? (q ·.number)).map Line.number = some n ↔
      IsLeast {k | q k ∧ k ∈ p.numbers} n := by
  have hleast : ∀ {n}, (p.lines.find? (q ·.number)).map Line.number = some n →
      IsLeast {k | q k ∧ k ∈ p.numbers} n := by
    intro n h
    obtain ⟨l, hl, rfl⟩ := Option.map_eq_some_iff.1 h
    obtain ⟨hq, above, below, hlines, habove⟩ := List.find?_eq_some_iff_append.1 hl
    refine ⟨⟨hq, mem_numbers.2 ⟨l, by simp [hlines], rfl⟩⟩, ?_⟩
    rintro m ⟨hm, hnumber⟩
    obtain ⟨k, hk, rfl⟩ := mem_numbers.1 hnumber
    have hsorted := p.ascending
    rw [hlines] at hk hsorted
    rw [List.pairwise_append, List.pairwise_cons] at hsorted
    -- The lines above have not got the property, and those below have greater numbers.
    rcases List.mem_append.1 hk with hk | hk
    · exact absurd hm (by simpa using habove k hk)
    · rcases List.mem_cons.1 hk with rfl | hk
      · exact Nat.le_refl _
      · exact Nat.le_of_lt (hsorted.2.1.1 k hk)
  refine ⟨hleast, fun h => ?_⟩
  obtain ⟨l, hl, rfl⟩ := mem_numbers.1 h.1.2
  have hsome : (p.lines.find? (q ·.number)).isSome := List.find?_isSome.2 ⟨l, hl, h.1.1⟩
  obtain ⟨k, hk⟩ := Option.isSome_iff_exists.1 hsome
  have hmap : (p.lines.find? (q ·.number)).map Line.number = some k.number := by
    rw [hk, Option.map_some]
  rw [hmap, (hleast hmap).unique h]

/-- The first number is the least one. -/
theorem first?_eq_some_iff : p.first? = some n ↔ IsLeast p.numbers n := by
  have hfirst : p.first? = (p.lines.find? fun _ => true).map Line.number := by
    unfold first?
    cases p.lines <;> rfl
  rw [hfirst, find?_number_eq_some_iff fun _ => true]
  simp

/-- The next number after a number is the least of those that are greater. -/
theorem nextAfter?_eq_some_iff :
    p.nextAfter? n = some m ↔ IsLeast {k | n < k ∧ k ∈ p.numbers} m := by
  rw [nextAfter?, find?_number_eq_some_iff fun k => n < k]
  simp

/-- There is a first number unless there is none at all. -/
theorem first?_eq_none_iff : p.first? = none ↔ p.numbers = ∅ := by
  rw [first?, Option.map_eq_none_iff, List.head?_eq_none_iff, Set.eq_empty_iff_forall_notMem]
  simp only [mem_numbers, not_exists, not_and]
  exact ⟨fun h n l hl => by simp [h] at hl, fun h => List.eq_nil_iff_forall_not_mem.2 fun l hl =>
    h _ l hl rfl⟩

/-- There is a next number unless no number is greater. -/
theorem nextAfter?_eq_none_iff : p.nextAfter? n = none ↔ ∀ k ∈ p.numbers, k ≤ n := by
  simp [nextAfter?, List.find?_eq_none, numbers, contains]

/-- There are as many lines as numbers. -/
theorem size_eq_ncard : p.size = p.numbers.ncard := by
  have hnumbers : p.numbers = ((p.lines.map Line.number).toFinset : Set Nat) := by
    ext n
    simp [mem_numbers]
  have hnodup : (p.lines.map Line.number).Nodup :=
    List.pairwise_map.2 (p.ascending.imp Nat.ne_of_lt)
  rw [hnumbers, Set.ncard_coe_finset, List.toFinset_card_of_nodup hnodup, List.length_map, size]

/-- The lines between two numbers are those whose numbers are between them. -/
theorem mem_range {low high : Nat} :
    l ∈ p.range low high ↔ l ∈ p.lines ∧ low ≤ l.number ∧ l.number ≤ high := by
  simp [range]

/-- The lines between two numbers are in ascending order. -/
theorem range_ascending (p : Listing) (low high : Nat) :
    ((p.range low high).map Line.number).Pairwise (· < ·) :=
  List.pairwise_map.2 (p.ascending.filter _)

/-! ### Programs after edits -/

/-- A program that some edits have made. -/
structure Records (p : Listing) (es : List Edit) : Prop where
  /-- The lines are in the order of their numbers, no two of which are the same. -/
  ascending : (p.lines.map Line.number).Pairwise (· < ·)
  /-- They are what the last edits of their numbers left there. -/
  mem_lines : ∀ l, l ∈ p.lines ↔ lastWritten? es l.number = some l
  /-- What is found under a number is what its last edit left there. -/
  get? : ∀ n, p.get? n = lastWritten? es n
  /-- There is a line under a number if its last edit left one there. -/
  mem_numbers : ∀ n, p.contains n ↔ (lastWritten? es n).isSome
  /-- There are as many lines as such numbers. -/
  size : p.size = {n | (lastWritten? es n).isSome}.ncard
  /-- The first number is the least one. -/
  first? : ∀ n, p.first? = some n ↔ IsLeast {n | (lastWritten? es n).isSome} n
  /-- There is none if there are no lines. -/
  first?_none : p.first? = none ↔ ∀ n, lastWritten? es n = none
  /-- The lines between two numbers, in the order of theirs. -/
  range : ∀ low high, ((p.range low high).map Line.number).Pairwise (· < ·) ∧
    ∀ l, l ∈ p.range low high ↔ lastWritten? es l.number = some l ∧ low ≤ l.number ∧ l.number ≤ high
  /-- The next number is the least greater one, whether or not there is a line under the number
      itself. -/
  nextAfter? : ∀ n m, p.nextAfter? n = some m ↔ IsLeast {k | n < k ∧ (lastWritten? es k).isSome} m
  /-- There is none if no number is greater. -/
  nextAfter?_none : ∀ n, p.nextAfter? n = none ↔ ∀ k, (lastWritten? es k).isSome → k ≤ n

/-- The lines that edits leave are those that were last written under their numbers. -/
theorem mem_lines_ofEdits {es : List Edit} :
    l ∈ (ofEdits es).lines ↔ lastWritten? es l.number = some l := by
  rw [← get?_ofEdits, get?_eq_some_iff]
  simp

/-- The lines between two numbers that edits leave were last written under their numbers. -/
theorem mem_range_ofEdits {es : List Edit} {low high : Nat} :
    l ∈ (ofEdits es).range low high ↔ lastWritten? es l.number = some l ∧ low ≤ l.number ∧
      l.number ≤ high := by
  rw [mem_range, mem_lines_ofEdits]

/-- **Programs after edits.**  Whatever is asked of a program is answered by the last edits of the
    numbers. -/
theorem records_ofEdits (es : List Edit) : (ofEdits es).Records es := by
  have hnumbers : (ofEdits es).numbers = {n | (lastWritten? es n).isSome} := by
    ext n
    rw [mem_numbers_iff_get?, get?_ofEdits]
    rfl
  exact {
    ascending := List.pairwise_map.2 (ofEdits es).ascending
    mem_lines := fun l => mem_lines_ofEdits
    get? := get?_ofEdits es
    mem_numbers := fun n => Set.ext_iff.1 hnumbers n
    size := by rw [size_eq_ncard, hnumbers]
    first? := fun n => by rw [first?_eq_some_iff, hnumbers]
    first?_none := by
      rw [first?_eq_none_iff, hnumbers, Set.eq_empty_iff_forall_notMem]
      simp
    range := fun low high => ⟨range_ascending _ low high, fun l => mem_range_ofEdits⟩
    nextAfter? := fun n m => by
      rw [nextAfter?_eq_some_iff, hnumbers]
      rfl
    nextAfter?_none := fun n => by
      rw [nextAfter?_eq_none_iff, hnumbers]
      rfl }

end Listing

end LineBasic
