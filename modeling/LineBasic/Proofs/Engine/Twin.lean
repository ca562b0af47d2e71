import LineBasic.Proofs.Engine.Advance
import LineBasic.Proofs.Engine.Answer
import LineBasic.Proofs.Engine.Effect

namespace LineBasic.Engine

/-!
# Engines without a debugger

What is left of an engine when everything is taken away that the debugger alone uses, and that
nothing else depends on what is taken away.

* `bare` -- an engine without breakpoints, suspension and single steps, with other errors and
  writings;
* `Twin` -- an engine and its bare twin, which differ besides in what was reported and written
  before;
* `Twin.execute`, `Twin.finishLine`, `Twin.executeLine`, `Twin.answer`, `Twin.carryOut` -- whatever
  the engine does, its twin does too.
-/

variable {γ : Type} {s r : Engine γ} {E : List Diagnostic} {W X : List Emission}

/-- An engine that knows nothing of a debugger. -/
def bare (s : Engine γ) (errors : List Diagnostic) (transcript : Transcript) : Engine γ :=
  { s with
    breakpoints := .empty, mode := if s.mode = .paused then .running else s.mode, resume := false,
    stepping := false, errors, transcript }

/-- An engine that is not suspended, and what is left of it without a debugger.  The twin has other
    errors before those of the engine, and since both have been as they were both have written the
    same. -/
def Twin (E : List Diagnostic) (W X : List Emission) (s r : Engine γ) : Prop :=
  s.mode ≠ .paused ∧ ∃ ws, s.transcript.newestFirst = ws ++ X ∧ r = s.bare (E ++ s.errors) ⟨ws ++ W⟩

/-- Without a debugger the mode of an engine that is not suspended stays as it is. -/
theorem bare_mode (h : s.mode ≠ .paused) (errors : List Diagnostic) (transcript : Transcript) :
    (s.bare errors transcript).mode = s.mode := if_neg h

/-- An engine and its twin at the moment from which their writings are compared. -/
theorem twin_bare (h : s.mode ≠ .paused) :
    Twin E W s.transcript.newestFirst s (s.bare (E ++ s.errors) ⟨W⟩) :=
  ⟨h, [], rfl, rfl⟩

namespace Twin

/-- A twin has the mode of the engine. -/
theorem mode_eq (h : Twin E W X s r) : r.mode = s.mode := by
  obtain ⟨hmode, ws, -, rfl⟩ := h
  exact bare_mode hmode _ _

/-- Statements cannot tell the twin from the engine. -/
theorem view_eq (h : Twin E W X s r) : r.view = s.view := by
  have hsuspended : decide (r.mode = .paused) = decide (s.mode = .paused) := by rw [h.mode_eq]
  obtain ⟨-, ws, -, rfl⟩ := h
  unfold view
  rw [hsuspended]
  rfl

/-- What does not depend on a debugger, on errors and on what was written is the same for the
    twin. -/
theorem same {α : Type} (h : Twin E W X s r) (f : Engine γ → α)
    (hf : ∀ errors transcript, f (s.bare errors transcript) = f s) : f r = f s := by
  obtain ⟨-, ws, -, rfl⟩ := h
  exact hf _ _

/-- A twin has the machine of the engine. -/
theorem machine_eq (h : Twin E W X s r) : r.machine = s.machine := h.same (·.machine) fun _ _ => rfl

/-! ### Small changes -/

/-- Twins stay so when both write the same. -/
theorem emit (h : Twin E W X s r) (e : Emission) : Twin E W X (s.emit e) (r.emit e) := by
  obtain ⟨hmode, ws, hw, rfl⟩ := h
  refine ⟨hmode, e :: ws, ?_, rfl⟩
  show e :: s.transcript.newestFirst = e :: ws ++ X
  rw [hw]
  rfl

/-- Twins stay so when both trace the same. -/
theorem traced (h : Twin E W X s r) (text : String) :
    Twin E W X (s.traced text) (r.traced text) := by
  have hemit := h.emit (.trace ("[trace] " ++ text ++ "\n"))
  have hoptions : r.options = s.options := h.same (·.options) fun _ _ => rfl
  unfold Engine.traced
  rw [hoptions]
  split
  · exact hemit
  · exact h

/-- Twins stay so when both write the time of the same line. -/
theorem timed (h : Twin E W X s r) (line : Line) : Twin E W X (s.timed line) (r.timed line) := by
  have hemit := h.emit (.timing line.number)
  have hoptions : r.options = s.options := h.same (·.options) fun _ _ => rfl
  unfold Engine.timed
  rw [hoptions]
  split
  · exact hemit
  · exact h

/-! ### Stopping and failing -/

/-- Twins stay so when both drop their values of `RUN`. -/
theorem dropQueue (h : Twin E W X s r) : Twin E W X s.dropQueue r.dropQueue := by
  have hqueue : r.queue = s.queue := h.same (·.queue) fun _ _ => rfl
  have hemit := h.emit (.notice Cause.excessInput.diagnostic)
  unfold Engine.dropQueue
  rw [hqueue]
  split
  · exact h
  · obtain ⟨hmode, ws, hw, hr⟩ := hemit
    rw [hr]
    exact ⟨hmode, ws, hw, rfl⟩

/-- Twins stay so when both stop. -/
theorem stop (h : Twin E W X s r) : Twin E W X s.stop r.stop := by
  obtain ⟨-, ws, hw, hr⟩ := h.dropQueue
  unfold Engine.stop
  rw [hr]
  refine ⟨idleMode_ne_paused _, ws, hw, ?_⟩
  unfold bare
  dsimp only
  rw [if_neg (idleMode_ne_paused _)]
  rfl

/-- Twins stay so when the runs of both are ended. -/
theorem stopRun (h : Twin E W X s r) : Twin E W X s.stopRun r.stopRun := by
  unfold Engine.stopRun
  rw [h.mode_eq]
  split
  · exact h.stop
  · exact h

/-- Twins stay so when the same report is noted in both. -/
theorem noted (h : Twin E W X s r) (d : Diagnostic) : Twin E W X (s.noted d) (r.noted d) := by
  obtain ⟨hmode, ws, hw, rfl⟩ := h
  refine ⟨hmode, ws, hw, ?_⟩
  show { s.bare ((E ++ s.errors) ++ [s.placed d]) ⟨ws ++ W⟩ with pending := none } =
    (s.noted d).bare (E ++ (s.errors ++ [s.placed d])) ⟨ws ++ W⟩
  rw [List.append_assoc]
  rfl

/-- Twins stay so when the loads of both are spoilt. -/
theorem spoilLoad (h : Twin E W X s r) : Twin E W X s.spoilLoad r.spoilLoad := by
  have hfile : r.fileLine = s.fileLine := h.same (·.fileLine) fun _ _ => rfl
  unfold Engine.spoilLoad isLoading
  rw [hfile]
  split
  · obtain ⟨-, ws, hw, rfl⟩ := h
    exact ⟨nofun, ws, hw, rfl⟩
  · exact h

/-- Twins stay so when both fail with the same report. -/
theorem fail (h : Twin E W X s r) (d : Diagnostic) : Twin E W X (s.fail d) (r.fail d) := by
  rw [fail_eq, fail_eq]
  exact ((h.noted d).stopRun).spoilLoad

/-! ### Statements -/

/-- Twins stay so when both ask for the same variables. -/
theorem ask (h : Twin E W X s r) (line : Option Nat) (xs : List Letter) :
    Twin E W X (Engine.ask line s xs) (Engine.ask line r xs) := by
  induction xs generalizing s r with
  | nil => exact h
  | cons x xs ih =>
    have hqueue : r.queue = s.queue := h.same (·.queue) fun _ _ => rfl
    unfold Engine.ask
    rw [hqueue]
    split
    next =>
      obtain ⟨hmode, ws, hw, rfl⟩ := h
      exact ⟨hmode, ws, hw, rfl⟩
    next n queue _ =>
      refine ih ?_
      obtain ⟨hmode, ws, hw, rfl⟩ := h
      exact ⟨hmode, ws, hw, rfl⟩

/-- Twins stay so when the runs of both begin again. -/
theorem rewind (h : Twin E W X s r) : Twin E W X s.rewind r.rewind := by
  have hcalls : Twin E W X { s with calls := .empty } { r with calls := .empty } := by
    obtain ⟨hmode, ws, hw, rfl⟩ := h
    exact ⟨hmode, ws, hw, rfl⟩
  obtain ⟨hmode, ws, hw, hr⟩ := hcalls.dropQueue
  unfold Engine.rewind
  rw [hr]
  exact ⟨hmode, ws, hw, rfl⟩

/-- What an effect does to an engine it does to the twin. -/
theorem effect (h : Twin E W X s r) (line : Option Nat) (effect : Effect) :
    Twin E W X (effect.apply line s) (effect.apply line r) := by
  cases effect with
  | nothing => exact h
  | assign x n =>
    obtain ⟨hmode, ws, hw, rfl⟩ := h
    exact ⟨hmode, ws, hw, rfl⟩
  | write text => exact h.emit _
  | ask xs => exact h.ask line xs
  | clear =>
    have hwipe : Twin E W X s.wipe r.wipe := by
      obtain ⟨hmode, ws, hw, rfl⟩ := h
      exact ⟨hmode, ws, hw, rfl⟩
    exact hwipe.stop
  | halt => exact h.stop
  | jump calls n =>
    obtain ⟨hmode, ws, hw, rfl⟩ := h
    exact ⟨hmode, ws, hw, rfl⟩
  | restart warning =>
    cases warning with
    | none => exact h.rewind
    | some d => exact (h.emit (.notice d)).rewind
  | launch queue n =>
    obtain ⟨hmode, ws, hw, rfl⟩ := h
    exact ⟨nofun, ws, hw, rfl⟩

variable [RandomSource γ]

/-- **Statements.**  The twin succeeds or fails as the engine does. -/
theorem execute (h : Twin E W X s r) (line : Option Nat) (statement : Statement) :
    (∃ s' r', Engine.execute line statement s = .ok () s' ∧
      Engine.execute line statement r = .ok () r' ∧ Twin E W X s' r') ∨
      ∃ fault s' r', Engine.execute line statement s = .error fault s' ∧
        Engine.execute line statement r = .error fault r' ∧ Twin E W X s' r' := by
  obtain ⟨outcome, machine, -, hexecute⟩ := execute_uniform statement line s.view s.machine
  rw [hexecute s rfl rfl, hexecute r h.view_eq h.machine_eq]
  -- The view and the machine settle the outcome, and both are the same for the twin.
  have hmachine : Twin E W X { s with machine } { r with machine } := by
    obtain ⟨hmode, ws, hw, rfl⟩ := h
    exact ⟨hmode, ws, hw, rfl⟩
  cases outcome with
  | ok effect => exact .inl ⟨_, _, rfl, rfl, hmachine.effect line effect⟩
  | error fault => exact .inr ⟨fault, _, _, rfl, rfl, hmachine⟩

/-- Twins stay so when both carry out the same direct statement. -/
theorem carryOut (h : Twin E W X s r) (d : DirectStatement) :
    Twin E W X (s.carryOut d) (r.carryOut d) := by
  unfold Engine.carryOut
  rcases h.execute none d.statement with ⟨s', r', hs, hr, htwin⟩ | ⟨fault, s', r', hs, hr, htwin⟩
  · rw [hs, hr]
    exact htwin
  · rw [hs, hr]
    exact htwin.fail _

/-! ### Lines -/

omit [RandomSource γ] in
/-- Twins have the same line to report for. -/
theorem atCursor_eq (h : Twin E W X s r) (cause : Cause) : r.atCursor cause = s.atCursor cause :=
  h.same (·.atCursor cause) fun _ _ => rfl

omit [RandomSource γ] in
/-- The twin goes on at the same line, whether or not a single step ends there. -/
theorem finishLine (h : Twin E W X s r) : Twin E W X s.finishLine.2 r.finishLine.2 := by
  have htarget : r.branch.or (r.listing.nextAfter? r.cursor) =
      s.branch.or (s.listing.nextAfter? s.cursor) :=
    h.same (fun s => s.branch.or (s.listing.nextAfter? s.cursor)) fun _ _ => rfl
  unfold Engine.finishLine
  rw [htarget]
  split
  next n _ =>
    obtain ⟨hmode, ws, hw, rfl⟩ := h
    -- What a single step leaves for its end is not part of the bare engine.
    by_cases hstepping : s.stepping = true
    · simp only [hstepping, if_true]
      exact ⟨hmode, ws, hw, rfl⟩
    · simp only [Bool.not_eq_true] at hstepping
      simp only [hstepping]
      exact ⟨hmode, ws, hw, rfl⟩
  next =>
    rw [h.atCursor_eq]
    exact h.fail _

/-- **Lines.**  The twin does with a line what the engine does. -/
theorem executeLine (h : Twin E W X s r) (line : Line) :
    Twin E W X (s.executeLine line).2 (r.executeLine line).2 := by
  have hbegun : Twin E W X { s.traced line.source with branch := none }
      { r.traced line.source with branch := none } := by
    obtain ⟨hmode, ws, hw, hr⟩ := h.traced line.source
    rw [hr]
    exact ⟨hmode, ws, hw, rfl⟩
  unfold Engine.executeLine
  rcases hbegun.execute (some line.number) line.statement with
    ⟨s', r', hs, hr, htwin⟩ | ⟨fault, s', r', hs, hr, htwin⟩
  · have htimed := htwin.timed line
    have hpending : (r'.timed line).pending = (s'.timed line).pending :=
      htimed.same (·.pending) fun _ _ => rfl
    rw [hs, hr]
    dsimp only
    rw [htimed.mode_eq, hpending]
    split
    · exact htimed
    · split
      · exact htimed
      · exact htimed.finishLine
  · rw [hs, hr]
    exact (htwin.timed line).fail _

/-! ### Answers -/

omit [RandomSource γ] in
/-- Twins stay so when both are given what is read from the same answers. -/
theorem reading (h : Twin E W X s r) (q : Inquiry) (reading : Reading γ) :
    Twin E W X (reading.apply q s) (reading.apply q r) := by
  have hmachine : ∀ machine : Machine γ, Twin E W X { s with machine, pending := none }
      { r with machine, pending := none } := by
    intro machine
    obtain ⟨hmode, ws, hw, rfl⟩ := h
    exact ⟨hmode, ws, hw, rfl⟩
  cases reading with
  | bad machine d => exact (hmachine machine).fail d
  | taken machine awaiting excess =>
    -- The two are still twins after the warning, so the branches behind it are the same in both.
    obtain ⟨s', r', hs, hr, htwin⟩ : ∃ s' r',
        (if excess then ({ s with machine, pending := none } : Engine γ).emit
          (.notice Cause.excessInput.diagnostic) else { s with machine, pending := none }) = s' ∧
        (if excess then ({ r with machine, pending := none } : Engine γ).emit
          (.notice Cause.excessInput.diagnostic) else { r with machine, pending := none }) = r' ∧
        Twin E W X s' r' := by
      refine ⟨_, _, rfl, rfl, ?_⟩
      split
      · exact (hmachine machine).emit _
      · exact hmachine machine
    unfold Reading.apply
    dsimp only
    rw [hs, hr]
    split
    · obtain ⟨hmode, ws, hw, rfl⟩ := htwin
      exact ⟨hmode, ws, hw, rfl⟩
    · rw [htwin.mode_eq]
      split
      · exact htwin.finishLine
      · exact htwin

/-- Twins stay so when both are given the same answers. -/
theorem answer (h : Twin E W X s r) (q : Inquiry) (text : String) :
    Twin E W X (s.answer q text) (r.answer q text) := by
  obtain ⟨reading, -, -, hanswer⟩ := answer_uniform s.machine q text
  rw [hanswer s rfl, hanswer r h.machine_eq]
  exact h.reading q reading

/-- What is entered for answers is entered for the twin too. -/
theorem enter (h : Twin E W X s r) {q : Inquiry} (hq : s.pending = some q) (text : String) :
    Twin E W X (s.enter text).2 (r.enter text).2 := by
  have hqr : r.pending = some q := (h.same (·.pending) fun _ _ => rfl).trans hq
  have hcount : Twin E W X s.counted r.counted := by
    obtain ⟨hmode, ws, hw, rfl⟩ := h
    exact ⟨hmode, ws, hw, rfl⟩
  rw [enter_of_pending hq, enter_of_pending hqr]
  exact hcount.answer q text

end Twin

end LineBasic.Engine
