import LineBasic.Proofs.Engine.Advance
import LineBasic.Proofs.Engine.Answer
import LineBasic.Proofs.Engine.Effect

namespace LineBasic.Engine

/-!
# Statements of program lines

What carrying out the statement of a program line does to the engine, by cases.

* `ask_cases` -- an `INPUT` takes the values that there are, and asks for the rest;
* `OfLine`, `execute_ofLine` -- a program line goes on, asks for values, ends the run, or fails;
* `Worked`, `executeLine_worked` -- what executing a line comes to, with all that it leaves alone;
* `executeLine_errors`, `advance_errors`, `answer_errors` -- where an error comes from.
-/

variable {γ : Type} {s : Engine γ} {line : Option Nat}

/-- An `INPUT` takes values for all its variables, or asks for some. -/
theorem ask_cases (line : Option Nat) (s : Engine γ) (xs : List Letter) :
    (∃ machine queue, ask line s xs = { s with machine, queue }) ∨
      ∃ machine queue q, q.line = line ∧
      ask line s xs = { s with machine, queue, pending := some q } := by
  induction xs generalizing s with
  | nil => exact .inl ⟨s.machine, s.queue, rfl⟩
  | cons x xs ih =>
    unfold ask
    split
    next => exact .inr ⟨s.machine, s.queue, ⟨x :: xs, line⟩, rfl, rfl⟩
    next n queue _ =>
      rcases ih ({ s with queue }.assign x n) with ⟨m, queue', h⟩ | ⟨m, queue', q, hq, h⟩
      · exact .inl ⟨m, queue', h⟩
      · exact .inr ⟨m, queue', q, hq, h⟩

/-- What carrying out the statement of a program line comes to, in each case. -/
inductive OfLine (s : Engine γ) (n : Nat) : EStateM.Result Fault (Engine γ) Unit → Prop where
  /-- The run goes on, at a stored line or at the line that a subroutine returns to. -/
  | onward (machine : Machine γ) (calls : CallStack) (branch : Option Nat) (queue : List Int16)
      (transcript : Transcript)
      (hcalls : ∀ f ∈ calls.frames, f ∈ s.calls.frames ∨ s.listing.contains f)
      (hbranch : ∀ m, branch = some m →
        s.branch = some m ∨ s.listing.contains m ∨ s.calls.pop = .ok (m, calls)) :
      OfLine s n (.ok () { s with machine, calls, branch, queue, transcript })
  /-- The line asks for values. -/
  | asked (machine : Machine γ) (queue : List Int16) (q : Inquiry) (hq : q.line = some n) :
      OfLine s n (.ok () { s with machine, queue, pending := some q })
  /-- The run is over. -/
  | ended (listing : Listing) (machine : Machine γ) (breakpoints : Breakpoints) :
      OfLine s n (.ok () { s with listing, machine, breakpoints }.stop)
  | failed (fault : Fault) (machine : Machine γ) : OfLine s n (.error fault { s with machine })

/-- The effects that the statement of a line can have, by what they do to the run. -/
theorem effect_ofLine {effect : Effect} {n : Nat} (hfit : effect.Fits (some n) s.view) :
    OfLine s n (.ok () (effect.apply (some n) s)) := by
  cases effect with
  | nothing =>
    exact .onward s.machine s.calls s.branch s.queue s.transcript (fun _ h => .inl h)
      fun _ h => .inl h
  | assign x k =>
    exact .onward _ s.calls s.branch s.queue s.transcript (fun _ h => .inl h) fun _ h => .inl h
  | write text =>
    exact .onward s.machine s.calls s.branch s.queue _ (fun _ h => .inl h) fun _ h => .inl h
  | ask xs =>
    show OfLine s n (.ok () (Engine.ask (some n) s xs))
    rcases ask_cases (some n) s xs with ⟨machine, queue, h⟩ | ⟨machine, queue, q, hq, h⟩
    · rw [h]
      exact .onward machine s.calls s.branch queue s.transcript (fun _ h => .inl h)
        fun _ h => .inl h
    · rw [h]
      exact .asked machine queue q hq
  | clear => exact .ended _ _ _
  | halt => exact .ended s.listing s.machine s.breakpoints
  | jump calls k =>
    refine .onward s.machine calls (some k) s.queue s.transcript (fun f hf => ?_) fun m hm => ?_
    · -- The frames are those that there were, one less, or one more for the line to come back to.
      rcases hfit.2 with ⟨-, -, rfl | ⟨back, hback, hpush⟩⟩ | hpop
      · exact .inl hf
      · rw [(CallStack.push_ok hpush).1] at hf
        rcases List.mem_cons.1 hf with rfl | hf
        · exact .inr (Listing.contains_nextAfter? hback)
        · exact .inl hf
      · have hframes : s.calls.frames = k :: calls.frames := CallStack.pop_ok hpop
        rw [hframes]
        exact .inl (List.mem_cons_of_mem _ hf)
    · obtain rfl : k = m := Option.some.inj hm
      rcases hfit.2 with ⟨-, hcontains, -⟩ | hpop
      · exact .inr (.inl hcontains)
      · exact .inr (.inr hpop)
  | restart warning =>
    have hrewind : ∀ transcript, OfLine s n (.ok () { s with transcript }.rewind) := by
      intro transcript
      rw [rewind_eq]
      exact .onward s.machine .empty s.listing.first? [] _ nofun fun m hm =>
        .inr (.inl (Listing.contains_first? hm))
    cases warning with
    | none => exact hrewind s.transcript
    | some d => exact hrewind _
  -- Only direct statements launch a run.
  | launch queue k => simp [Effect.Fits] at hfit

variable [RandomSource γ]

/-- **Statements of program lines.**  Each of them goes on, asks for values, ends the run, or
    fails. -/
theorem execute_ofLine (s : Engine γ) (n : Nat) (statement : Statement) :
    OfLine s n (execute (some n) statement s) := by
  obtain ⟨outcome, machine, hfit, hexecute⟩ := execute_uniform statement (some n) s.view s.machine
  rw [hexecute s rfl rfl]
  cases outcome with
  | error fault => exact .failed fault machine
  | ok effect =>
    -- The effect comes about on the engine whose machine the expressions have changed.
    have h := effect_ofLine (s := { s with machine }) (n := n) hfit
    show OfLine s n (.ok () (effect.apply (some n) { s with machine }))
    generalize hr : (EStateM.Result.ok () (effect.apply (some n) { s with machine })) = r at h
    cases h with
    | onward machine calls branch queue transcript hcalls hbranch =>
      exact .onward machine calls branch queue transcript hcalls hbranch
    | asked machine queue q hq => exact .asked machine queue q hq
    | ended listing machine breakpoints => exact .ended listing machine breakpoints
    | failed => cases hr

/-! ### Executing lines -/

/-- What executing a line comes to, in each case. -/
inductive Worked (s : Engine γ) (line : Line) : Engine γ → Prop where
  /-- The statement fails. -/
  | failed (fault : Fault) (u : Engine γ) (machine : Machine γ) (transcript : Transcript)
      (d : Diagnostic) (hexecute : execute (some line.number) line.statement (s.begun line) =
        .error fault u)
      (hcode : d.code = fault.cause.code) :
      Worked s line ({ s with machine, transcript, branch := none }.fail d)
  /-- The statement ends the run. -/
  | ended (u t : Engine γ)
      (hexecute : execute (some line.number) line.statement (s.begun line) = .ok () u)
      (hmode : u.mode ≠ .running) (hidle : t.isIdle) (herrors : t.errors = s.errors)
      (hdirect : t.direct = s.direct) (hpending : t.pending = none) : Worked s line t
  /-- The statement waits for values. -/
  | asked (u : Engine γ) (machine : Machine γ) (queue : List Int16) (q : Inquiry)
      (transcript : Transcript)
      (hexecute : execute (some line.number) line.statement (s.begun line) = .ok () u)
      (hmode : u.mode = .running) (hq : u.pending = some q) (hline : q.line = some line.number) :
      Worked s line { s with machine, queue, transcript, branch := none, pending := some q }
  /-- The run goes on after the line, at a stored line or at the line that a subroutine returns
      to. -/
  | finished (u : Engine γ) (machine : Machine γ) (queue : List Int16) (transcript : Transcript)
      (hexecute : execute (some line.number) line.statement (s.begun line) = .ok () u)
      (hmode : u.mode = .running) (hpending : u.pending = none)
      (hcalls : ∀ f ∈ u.calls.frames, f ∈ s.calls.frames ∨ s.listing.contains f)
      (hbranch : ∀ m, u.branch = some m → s.listing.contains m ∨ s.calls.pop = .ok (m, u.calls)) :
      Worked s line
        { s with machine, calls := u.calls, branch := u.branch, queue, transcript }.finishLine.2

/-- **Executing lines.**  A line leaves alone whatever its statement does not touch. -/
theorem executeLine_worked (s : Engine γ) (line : Line) (hmode : s.mode = .running)
    (hpending : s.pending = none) : Worked s line (s.executeLine line).2 := by
  -- Each case of executing the line goes with the cases that its statement can have come to.
  let b := s.begun line
  have hb : b = { s with transcript := b.transcript, branch := none } := begun_eq s line
  have hof := execute_ofLine b line.number line.statement
  generalize hr : s.executeLine line = r
  cases hr ▸ executeLine_cases s line with
  | failed fault u hexecute =>
    rw [hexecute] at hof
    cases hof with
    | failed _ machine =>
      rw [timed_eq, hb]
      exact .failed fault _ machine _ _ hexecute rfl
  | ended u hexecute hended =>
    rw [hexecute] at hof
    cases hof with
    -- The mode has changed, so the run has been stopped.
    | onward => exact absurd (by rw [hb]; exact hmode) hended
    | asked => exact absurd (by rw [hb]; exact hmode) hended
    | ended listing machine breakpoints =>
      let w : Engine γ := { b with listing, machine, breakpoints }
      have herrors : w.stop.errors = s.errors := by
        rw [stop_errors]
        show b.errors = s.errors
        rw [hb]
      have hdirect : w.stop.direct = s.direct := by
        rw [stop_direct]
        show b.direct = s.direct
        rw [hb]
      rw [timed_eq]
      exact .ended _ _ hexecute hended (stop_isIdle w) herrors hdirect (stop_pending w)
  | asked u hexecute hrunning hwaiting =>
    rw [hexecute] at hof
    cases hof with
    -- No question was pending before, so the statement has asked it.
    | onward => exact absurd (by rw [hb]; exact hpending) hwaiting
    | ended => exact absurd (stop_pending _) hwaiting
    | asked machine queue q hq =>
      have hworked := Worked.asked _ machine queue q
        (({ b with machine, queue, pending := some q } : Engine γ).timed line).transcript
          hexecute hrunning
        rfl hq
      rw [timed_eq, hb]
      rw [hb] at hworked
      exact hworked
  | finished u hexecute hrunning hnone =>
    rw [hexecute] at hof
    cases hof with
    | asked => cases hnone
    | ended => exact absurd hrunning (by rw [stop_mode]; exact idleMode_ne_running _)
    | onward machine calls branch queue transcript hcalls hbranch =>
      have hworked := Worked.finished _ machine queue
        (({ b with machine, calls, branch, queue, transcript } : Engine γ).timed line).transcript
          hexecute
        hrunning hnone (by rw [hb] at hcalls; exact hcalls) ?_
      · rw [timed_eq, hb]
        rw [hb] at hworked
        exact hworked
      · intro m hm
        rcases hbranch m hm with h | h
        · rw [hb] at h
          cases h
        · rw [hb] at h
          exact h

/-! ### Errors -/

omit [RandomSource γ] in
/-- A line that is done with fails only for want of a line to go on at. -/
theorem finishLine_errors {d : Diagnostic} (h : s.finishLine.2.errors = s.errors ++ [d]) :
    d.code = .noEnd := by
  generalize hr : s.finishLine = r at h
  cases hr ▸ finishLine_cases s with
  | moved | stepped => simp at h
  | fellOff =>
    rw [fail_errors] at h
    obtain rfl := List.singleton_inj.1 (List.append_cancel_left h)
    rw [placed_code, atCursor_code]
    rfl

/-- An error of a line is that of its statement, or the want of a line to go on at. -/
theorem executeLine_errors {l : Line} {d : Diagnostic} (hmode : s.mode = .running)
    (hpending : s.pending = none) (h : (s.executeLine l).2.errors = s.errors ++ [d]) :
    (∃ fault u, execute (some l.number) l.statement (s.begun l) = .error fault u ∧
      d.code = fault.cause.code) ∨ d.code = .noEnd := by
  have hworked := executeLine_worked s l hmode hpending
  generalize (s.executeLine l).2 = t at hworked h
  cases hworked with
  | failed fault u machine transcript d' hexecute hcode =>
    rw [fail_errors] at h
    obtain rfl := List.singleton_inj.1 (List.append_cancel_left h)
    exact .inl ⟨fault, u, hexecute, (placed_code _ d').trans hcode⟩
  | ended u t _ _ _ herrors => simp [herrors] at h
  | asked => simp at h
  | finished u machine queue transcript =>
    let v : Engine γ := { s with machine, calls := u.calls, branch := u.branch, queue, transcript }
    exact .inr (finishLine_errors (s := v) h)

/-- An error of `advance` is that of the line at the cursor, or that there is none. -/
theorem advance_errors {d : Diagnostic} (h : s.advance.2.errors = s.errors ++ [d]) :
    (s.mode = .running ∧ s.listing.get? s.cursor = none ∧ d.code = .lineNotInProgram) ∨
      (∃ l fault u, s.executed? = some l ∧
        execute (some l.number) l.statement ({ s with resume := false }.begun l) = .error fault u ∧
        d.code = fault.cause.code) ∨
      d.code = .noEnd := by
  generalize hr : s.advance = r at h
  cases hr ▸ advance_cases s with
  | idle | waiting => simp at h
  | lost hmode _ hline =>
    rw [fail_errors] at h
    obtain rfl := List.singleton_inj.1 (List.append_cancel_left h)
    exact .inl ⟨hmode, hline, by rw [placed_code, atCursor_code]; rfl⟩
  | stopped =>
    rw [pauseAt_eq] at h
    simp at h
  | executed l hopen =>
    refine .inr ((executeLine_errors (s := { s with resume := false }) hopen.1 hopen.2.1 h).imp_left
      ?_)
    rintro ⟨fault, u, hexecute, hcode⟩
    exact ⟨l, fault, u, executed?_eq_some.2 hopen, hexecute, hcode⟩

/-- An error of answers is that one of them is bad, or that there is no line to go on at. -/
theorem answer_errors {q : Inquiry} {text : String} {d : Diagnostic}
    (h : (s.answer q text).errors = s.errors ++ [d]) :
    d.code = .invalidInput ∨ d.code = .noEnd := by
  generalize hr : s.answer q text = t at h
  cases hr ▸ answer_cases s q text with
  | failed machine d' _ hcode =>
    rw [fail_errors] at h
    obtain rfl := List.singleton_inj.1 (List.append_cancel_left h)
    exact .inl ((placed_code _ d').trans hcode)
  | more | finished => simp at h
  | resumed machine transcript =>
    let v : Engine γ := { s with machine, transcript, pending := none }
    exact .inr (finishLine_errors (s := v) h)

end LineBasic.Engine
