import LineBasic.Lint

namespace LineBasic

/-!
# The order of findings

The linter puts what it has found in the order of the lines.  Findings with the same place stay in
the order in which they were found.

* `Lint.inOrder` -- findings in order;
* `Lint.inOrder_cons` -- where one more finding goes;
* `Lint.filter_inOrder` -- findings that are in order already stay as they are among all others;
* `Lint.inOrder_sublist` -- fewer findings are in the same order;
* `Lint.inOrder_concat` -- what comes after everything is last.
-/

namespace Lint

variable {f : Finding} {fs gs : List Finding}

/-- Findings in the order of their places. -/
def inOrder (fs : List Finding) : List Finding := fs.mergeSort (·.place ≤ ·.place)

/-- The order of places is transitive. -/
theorem place_trans (f g h : Finding) (hfg : decide (f.place ≤ g.place) = true)
    (hgh : decide (g.place ≤ h.place) = true) : decide (f.place ≤ h.place) = true := by
  simp only [decide_eq_true_eq] at *
  exact Nat.le_trans hfg hgh

/-- Of any two places one comes first. -/
theorem place_total (f g : Finding) :
    (decide (f.place ≤ g.place) || decide (g.place ≤ f.place)) = true := by
  simp [Nat.le_total]

/-- Sorted findings are in the order of their places. -/
theorem inOrder_pairwise (fs : List Finding) : (inOrder fs).Pairwise (·.place ≤ ·.place) :=
  (List.pairwise_mergeSort place_trans place_total fs).imp of_decide_eq_true

/-- Sorting adds no finding and leaves none out. -/
theorem mem_inOrder : f ∈ inOrder fs ↔ f ∈ fs := List.mem_mergeSort

/-- Sorted findings are the same findings. -/
theorem inOrder_perm (fs : List Finding) : (inOrder fs).Perm fs := List.mergeSort_perm fs _

/-- One more finding goes before those that it was found before, unless their place is further
    up. -/
theorem inOrder_cons (f : Finding) (fs : List Finding) :
    inOrder (f :: fs) =
      (inOrder fs).filter (·.place < f.place) ++ f :: (inOrder fs).filter (f.place ≤ ·.place) := by
  obtain ⟨above, below, hcons, hfs, habove⟩ := List.mergeSort_cons place_trans place_total f fs
  have hsorted : (above ++ f :: below).Pairwise (·.place ≤ ·.place) := by
    rw [← hcons]
    exact inOrder_pairwise (f :: fs)
  have hbelow : ∀ g ∈ below, f.place ≤ g.place :=
    (List.pairwise_cons.1 (List.pairwise_append.1 hsorted).2.1).1
  have habove : ∀ g ∈ above, g.place < f.place := by simpa using habove
  have hsplit : inOrder fs = above ++ below := hfs
  rw [hsplit, List.filter_append, List.filter_append,
    List.filter_eq_self.2 (by simpa using habove), List.filter_eq_nil_iff.2 (by simpa using hbelow),
    List.filter_eq_nil_iff.2 (by simpa using habove), List.filter_eq_self.2 (by simpa using hbelow)]
  exact hcons.trans (by simp)

/-- Findings that are in order already are left as they are. -/
theorem filter_inOrder {q : Finding → Bool} (h : (fs.filter q).Pairwise (·.place ≤ ·.place)) :
    (inOrder fs).filter q = fs.filter q := by
  have hsublist : (fs.filter q).Sublist (inOrder fs) :=
    List.sublist_mergeSort place_trans place_total (by simpa using h) List.filter_sublist
  have hlength : (fs.filter q).length = ((inOrder fs).filter q).length :=
    ((inOrder_perm fs).filter q).length_eq.symm
  -- A part of a list that is as long as the list is the list.
  have hagain := hsublist.filter q
  simp only [List.filter_filter, Bool.and_self] at hagain
  exact (hagain.eq_of_length hlength).symm

/-- Findings keep their order when there are more of them. -/
theorem inOrder_sublist (h : fs.Sublist gs) : (inOrder fs).Sublist (inOrder gs) := by
  induction h with
  | slnil => exact List.Sublist.refl _
  | @cons fs gs g _ ih =>
    obtain ⟨above, below, hcons, hgs, -⟩ := List.mergeSort_cons place_trans place_total g gs
    have hmore : (inOrder gs).Sublist (inOrder (g :: gs)) := by
      show (gs.mergeSort _).Sublist ((g :: gs).mergeSort _)
      rw [hcons, hgs]
      exact (List.sublist_cons_self g below).append_left above
    exact ih.trans hmore
  | cons_cons g _ ih =>
    rw [inOrder_cons, inOrder_cons]
    exact (ih.filter _).append ((ih.filter _).cons_cons g)

/-- What is found last and comes after all lines is the last. -/
theorem inOrder_concat (h : ∀ g ∈ fs, g.place ≤ f.place) :
    inOrder (fs ++ [f]) = inOrder fs ++ [f] := by
  induction fs with
  | nil => simp [inOrder]
  | cons g fs ih =>
    have hg : g.place ≤ f.place := h g List.mem_cons_self
    rw [List.cons_append, inOrder_cons, ih fun k hk => h k (List.mem_cons_of_mem g hk),
      inOrder_cons]
    simp [hg]

end Lint

/-- What the linter reports is what has been found, in order. -/
theorem Listing.lint_eq {p : Listing} (hp : p.lines ≠ []) (strict : Bool) :
    p.lint strict = (Lint.inOrder ((Lint.survey p).findings strict)).map Lint.Finding.report := by
  have hempty : p.isEmpty = false := by simpa [Listing.isEmpty] using hp
  rw [Listing.lint, hempty, if_neg Bool.false_ne_true]
  rfl

end LineBasic
