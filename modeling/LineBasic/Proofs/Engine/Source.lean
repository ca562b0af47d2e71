import LineBasic.Proofs.Engine.Moment
import LineBasic.Proofs.Line.Grammar
import LineBasic.Proofs.Text.Space

namespace LineBasic

/-!
# The texts of stored lines

A stored line keeps its text, and the text alone is enough to store the line once more.

* `Line.Faithful`, `DirectStatement.Faithful` -- a text without space at its end that is the entry
  of its own line, or of its own direct statement;
* `Engine.Reachable.faithful` -- whatever has been done with an engine, its lines are of this kind.
-/

/-! ### Trimmed texts -/

/-- The space at the end of a text is taken away once. -/
theorem trimmed_trimmed (text : String) : trimmed (trimmed text) = trimmed text := by
  simp [trimmed, Text.trimEnd_trimEnd]

/-- The space at the end of a text makes no difference to whether it is nothing else. -/
theorem allSpace_trimmed (text : String) :
    Text.allSpace (trimmed text).toList = Text.allSpace text.toList := by
  obtain ⟨tail, htext, htail⟩ := Text.exists_eq_trimEnd_append text.toList
  have hall : tail.all Text.isSpace = true := List.all_eq_true.2 htail
  conv_rhs => rw [htext]
  simp [trimmed, Text.allSpace, hall]

namespace Entry

/-- What is read from a text does not depend on the space at its end. -/
theorem ofText_trimmed (text : String) : ofText (trimmed text) = ofText text := by
  simp only [ofText, trimmed_trimmed]

/-- An empty text is no entry. -/
theorem ofText_empty : (ofText "").toOption = none := by
  decide +kernel

end Entry

/-! ### Faithful lines -/

/-- A line whose text stores it. -/
structure Line.Faithful (l : Line) : Prop where
  /-- The text has no space at its end. -/
  trimmed : LineBasic.trimmed l.source = l.source
  /-- The text is the number and the statement of the line. -/
  entry : Entry.ofText l.source = .ok (.store l.number l.statement)

namespace Line

/-- A line that is stored as it was typed is faithful. -/
theorem faithful_ofText {n : Nat} {text : String} {statement : Statement}
    (h : Entry.ofText text = .ok (.store n statement)) :
    (Line.ofText n text statement).Faithful where
  trimmed := trimmed_trimmed text
  entry := (Entry.ofText_trimmed text).trans h

/-- The text of a faithful line is not only space. -/
theorem Faithful.not_allSpace {l : Line} (h : l.Faithful) : ¬ Text.allSpace l.source.toList := by
  intro hspace
  have hempty : l.source = "" := by
    rw [← h.trimmed, LineBasic.trimmed, Text.trimEnd_of_allSpace hspace]
  have hnone := Entry.ofText_empty
  rw [← hempty, h.entry] at hnone
  cases hnone

end Line

/-- A direct statement whose text is its entry. -/
structure DirectStatement.Faithful (d : DirectStatement) : Prop where
  /-- The text has no space at its end. -/
  trimmed : LineBasic.trimmed d.source = d.source
  /-- The text is the statement. -/
  entry : Entry.ofText d.source = .ok (.direct d.statement)

/-! ### Every history -/

namespace Engine

variable {γ : Type}

/-- An engine with nothing but faithful lines. -/
def Faithful (s : Engine γ) : Prop := ∀ l ∈ s.listing.lines, l.Faithful

/-- A change that brings no line but faithful ones. -/
theorem Shift.faithful {s t : Engine γ} (hs : s.Faithful) (h : Shift s t) : t.Faithful := by
  have hnone : ∀ u : Engine γ, u.listing = .empty → u.Faithful := by
    intro u hu l hl
    rw [hu] at hl
    cases hl
  cases h with
  | store n source statement hentry =>
    intro l hl
    rcases Listing.mem_insert.1 hl with rfl | ⟨hl, -⟩
    · exact Line.faithful_ofText hentry
    · exact hs l hl
  | delete n => exact fun l hl => hs l (Listing.mem_erase.1 hl).1
  | wipe | beginLoad => exact hnone _ (stop_listing _)
  | stop => exact fun l hl => hs l (by simpa using hl)
  | restart => exact fun l hl => hs l (by simpa [rewind_eq] using hl)
  | _ => exact hs

end Engine

variable {γ : Type} [RandomSource γ]

/-- No moment brings a line that is not faithful. -/
theorem Moment.faithful (m : Moment γ) (hm : m.before.Faithful) : m.after.Faithful := by
  rcases moment_cases m with hshifts | hreleases | ⟨n, hmarks⟩
  · exact hshifts.preserves hm fun s t hs hst => hst.faithful hs
  · obtain ⟨-, stepping, hafter⟩ := hreleases.releases
    rw [hafter]
    exact hm
  · obtain ⟨-, b, -, hafter⟩ := hmarks.marks
    rw [hafter]
    exact hm

/-- **Stored lines are faithful.**  Whatever operations have led to an engine, the text of each of
its lines is the entry that stores this line. -/
theorem Engine.Reachable.faithful {s : Engine γ} (h : s.Reachable) : s.Faithful :=
  h.induction (fun _ _ hl => nomatch hl) Moment.faithful

end LineBasic
