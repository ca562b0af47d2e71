import LineBasic.Proofs.Engine.Answer
import LineBasic.Proofs.Engine.LineStatement

namespace LineBasic.Engine

/-!
# Where a run is

A run is at a stored line, and the lines that it can return to are stored.  Whatever a run does
itself keeps it so.

* `Located` -- a run that is at a stored line and can only go to stored lines;
* `InPlace` -- an engine whose run, if there is one, is located;
* `inPlace_finishLine`, `inPlace_executeLine`, `inPlace_advance`, `inPlace_answer`,
  `inPlace_carryOut` -- work, answers and direct statements leave the run located.
-/

variable {γ : Type} {s t : Engine γ} {line : Line}

/-- Whether a run is at a stored line, and can only return or jump to stored lines. -/
structure Located (s : Engine γ) : Prop where
  cursor : s.listing.contains s.cursor
  frames : ∀ f ∈ s.calls.frames, s.listing.contains f
  branch : ∀ m, s.branch = some m → s.listing.contains m

/-- An engine whose run, if there is one, is located. -/
def InPlace (s : Engine γ) : Prop := ¬ s.isIdle → s.Located

/-- Without a run there is nothing to be in place. -/
theorem inPlace_of_isIdle (h : s.isIdle) : s.InPlace := fun hnot => absurd h hnot

/-- The run of an engine that executes program lines is located. -/
theorem InPlace.of_running (hs : s.InPlace) (hmode : s.mode = .running) : s.Located :=
  hs (not_isIdle_iff.2 (.inl hmode))

/-- The end of a run leaves the engine in place. -/
theorem inPlace_stop (s : Engine γ) : s.stop.InPlace := inPlace_of_isIdle (stop_isIdle s)

/-- A run that is where it was, in a program that has kept its lines. -/
theorem InPlace.of_listing (hs : s.InPlace) (hidle : ¬ t.isIdle → ¬ s.isIdle)
    (hlisting : ∀ n, s.listing.contains n → t.listing.contains n) (hcursor : t.cursor = s.cursor)
    (hcalls : t.calls = s.calls) (hbranch : t.branch = s.branch) : t.InPlace := by
  intro hnot
  obtain ⟨hat, hframes, hgoes⟩ := hs (hidle hnot)
  refine ⟨hlisting _ (hcursor ▸ hat), fun f hf => hlisting f (hframes f (hcalls ▸ hf)),
    fun m hm => ?_⟩
  exact hlisting m (hgoes m (hbranch ▸ hm))

/-- What does not concern where a run is. -/
theorem InPlace.same (hs : s.InPlace) (hmode : t.mode = s.mode) (hlisting : t.listing = s.listing)
    (hcursor : t.cursor = s.cursor) (hcalls : t.calls = s.calls) (hbranch : t.branch = s.branch) :
    t.InPlace :=
  hs.of_listing (fun h => by simpa [isIdle, hmode] using h) (fun n hn => hlisting ▸ hn) hcursor
    hcalls hbranch

/-- A failure ends a run or leaves it where it was. -/
theorem InPlace.fail (hs : s.InPlace) (d : Diagnostic) : (s.fail d).InPlace := by
  have hnoted : (s.noted d).InPlace := hs.same rfl rfl rfl rfl rfl
  have hstopped : (s.noted d).stopRun.InPlace := by
    unfold stopRun
    split
    · exact inPlace_stop _
    · exact hnoted
  rw [fail_eq]
  unfold spoilLoad
  split
  · exact inPlace_of_isIdle rfl
  · exact hstopped

/-! ### Going on -/

/-- A run that goes on after a line comes to a stored line, or is over. -/
theorem inPlace_finishLine (hs : s.Located) : s.finishLine.2.InPlace := by
  -- The next line is the one that the statement has chosen, or else the one after it.
  have hnext : ∀ n, s.branch.or (s.listing.nextAfter? s.cursor) = some n →
      s.listing.contains n := by
    intro n hn
    rcases Option.or_eq_some_iff.1 hn with hbranch | ⟨-, hafter⟩
    · exact hs.branch n hbranch
    · exact Listing.contains_nextAfter? hafter
  generalize hr : s.finishLine = r
  cases hr ▸ finishLine_cases s with
  | moved n hn | stepped n hn => exact fun _ => ⟨hnext n hn, hs.frames, nofun⟩
  | fellOff => exact InPlace.fail (fun _ => hs) _

variable [RandomSource γ]

/-- Executing the line at the cursor leaves the run in place. -/
theorem inPlace_executeLine (hs : s.Located) (hopen : s.IsOpen line) :
    ({ s with resume := false }.executeLine line).2.InPlace := by
  obtain ⟨hmode, hpending, -, -⟩ := hopen
  obtain ⟨hcursor, hframes, -⟩ := hs
  have hworked := executeLine_worked { s with resume := false } line hmode hpending
  generalize ({ s with resume := false }.executeLine line).2 = t at hworked
  cases hworked with
  | failed fault u machine transcript d =>
    let v : Engine γ := { s with resume := false, machine, transcript, branch := none }
    have hv : v.InPlace := fun _ => ⟨hcursor, hframes, nofun⟩
    exact hv.fail d
  | ended u t _ _ hidle => exact inPlace_of_isIdle hidle
  | asked u machine queue q transcript => exact fun _ => ⟨hcursor, hframes, nofun⟩
  | finished u machine queue transcript _ _ _ hcalls hbranch =>
    refine inPlace_finishLine ⟨hcursor, fun f hf => ?_, fun m hm => ?_⟩
    · exact (hcalls f hf).elim (hframes f) id
    · -- A return goes to the top frame, and all frames were at stored lines before it.
      rcases hbranch m hm with h | h
      · exact h
      · exact hframes m (by rw [CallStack.pop_ok h]; exact List.mem_cons_self)

/-- Going on with a run leaves it in place. -/
theorem inPlace_advance (hs : s.InPlace) : s.advance.2.InPlace := by
  generalize hr : s.advance = r
  cases hr ▸ advance_cases s with
  | idle | waiting => exact hs
  | lost => exact hs.fail _
  | stopped line hmode =>
    rw [pauseAt_eq]
    have hlocated := hs.of_running hmode
    exact fun _ => ⟨hlocated.cursor, hlocated.frames, hlocated.branch⟩
  | executed line hopen => exact inPlace_executeLine (hs.of_running hopen.1) hopen

/-! ### Answers and direct statements -/

/-- Answers leave a run in place, which may go on with the next line. -/
theorem inPlace_answer (hs : s.InPlace) (q : Inquiry) (text : String) :
    (s.answer q text).InPlace := by
  generalize hr : s.answer q text = r
  cases hr ▸ answer_cases s q text with
  | failed machine d =>
    have hlast : { s with machine, pending := none }.InPlace := hs.same rfl rfl rfl rfl rfl
    exact hlast.fail d
  | more | finished => exact hs.same rfl rfl rfl rfl rfl
  | resumed machine transcript _ hmode =>
    have hlocated := hs.of_running hmode
    exact inPlace_finishLine ⟨hlocated.cursor, hlocated.frames, hlocated.branch⟩

end LineBasic.Engine
