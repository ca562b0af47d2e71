import LineBasic.Engine.Run

namespace LineBasic.Engine

/-!
# Changes of the engine, field by field

What stopping and failing do to each part of an engine.

* `dropQueue_eq`, `stop_eq` -- stopping as one change of a record;
* `noted`, `stopRun`, `spoilLoad`, `fail_eq` -- the three steps of a failure;
* `notices` -- how often a notice has been written;
* `fail_errors`, `fail_pending`, `fail_direct`, `fail_machine`, `fail_isIdle` -- what a failure
  leaves.
-/

variable {γ : Type} (s : Engine γ)

/-- What has been written once the values that no `INPUT` has taken are forgotten. -/
def dropNotice (s : Engine γ) : Transcript :=
  if s.queue = [] then s.transcript else s.transcript.emit (.notice Cause.excessInput.diagnostic)

/-- Dropping the values of `RUN` as one change. -/
theorem dropQueue_eq : s.dropQueue = { s with queue := [], transcript := s.dropNotice } := by
  unfold dropQueue dropNotice
  by_cases h : s.queue = []
  · obtain ⟨⟩ := s
    simp_all
  · simp only [h, if_false, emit]

/-- Stopping as one change. -/
theorem stop_eq :
    s.stop = { s with
      queue := [], transcript := s.dropNotice, calls := .empty, breakpoints := s.breakpoints.disarm,
      pending := none, branch := none, resume := false, stepping := false,
      mode := s.idleMode } := by
  unfold stop
  rw [dropQueue_eq]
  rfl

@[simp] theorem stop_listing : s.stop.listing = s.listing := by rw [stop_eq]
@[simp] theorem stop_machine : s.stop.machine = s.machine := by rw [stop_eq]
@[simp] theorem stop_calls : s.stop.calls = .empty := by rw [stop_eq]
@[simp] theorem stop_breakpoints : s.stop.breakpoints = s.breakpoints.disarm := by rw [stop_eq]
@[simp] theorem stop_mode : s.stop.mode = s.idleMode := by rw [stop_eq]
@[simp] theorem stop_cursor : s.stop.cursor = s.cursor := by rw [stop_eq]
@[simp] theorem stop_branch : s.stop.branch = none := by rw [stop_eq]
@[simp] theorem stop_direct : s.stop.direct = s.direct := by rw [stop_eq]
@[simp] theorem stop_queue : s.stop.queue = [] := by rw [stop_eq]
@[simp] theorem stop_pending : s.stop.pending = none := by rw [stop_eq]
@[simp] theorem stop_errors : s.stop.errors = s.errors := by rw [stop_eq]
@[simp] theorem stop_resume : s.stop.resume = false := by rw [stop_eq]
@[simp] theorem stop_stepping : s.stop.stepping = false := by rw [stop_eq]
@[simp] theorem stop_fileLine : s.stop.fileLine = s.fileLine := by rw [stop_eq]
@[simp] theorem stop_options : s.stop.options = s.options := by rw [stop_eq]
@[simp] theorem stop_transcript : s.stop.transcript = s.dropNotice := by rw [stop_eq]

variable {s} in

/-- An engine is not idle if it runs or has a run suspended. -/
theorem not_isIdle_iff : ¬ s.isIdle ↔ s.mode = .running ∨ s.mode = .paused := by
  unfold isIdle
  cases s.mode <;> simp

/-- The mode of an idle engine is not that of one that runs. -/
theorem idleMode_ne_running : s.idleMode ≠ .running := by
  unfold idleMode
  split <;> simp

/-- The mode of an idle engine is not that of one with a suspended run. -/
theorem idleMode_ne_paused : s.idleMode ≠ .paused := by
  unfold idleMode
  split <;> simp

/-! ### Writing -/

/-- How often a notice has been written. -/
def notices (s : Engine γ) (d : Diagnostic) : Nat := s.transcript.emissions.count (.notice d)

/-- Writing something else does not count as the notice. -/
theorem notices_emit {e : Emission} {d : Diagnostic} (h : e ≠ .notice d) :
    (s.emit e).notices d = s.notices d := by
  simp [notices, emit, List.count_append, h]

@[simp] theorem notices_emit_notice (d : Diagnostic) :
    (s.emit (.notice d)).notices d = s.notices d + 1 := by
  simp [notices, emit, List.count_append]

/-- Tracing writes no notice. -/
theorem notices_traced (text : String) (d : Diagnostic) :
    (s.traced text).notices d = s.notices d := by
  unfold traced
  split
  · exact s.notices_emit (by simp)
  · rfl

/-- Writing the time of a line writes no notice. -/
theorem notices_timed (line : Line) (d : Diagnostic) : (s.timed line).notices d = s.notices d := by
  unfold timed
  split
  · exact s.notices_emit (by simp)
  · rfl

/-- Tracing changes nothing but what has been written. -/
theorem traced_eq (text : String) :
    s.traced text = { s with transcript := (s.traced text).transcript } := by
  unfold traced
  split <;> rfl

/-- Writing the time of a line changes nothing but what has been written. -/
theorem timed_eq (line : Line) :
    s.timed line = { s with transcript := (s.timed line).transcript } := by
  unfold timed
  split <;> rfl

@[simp] theorem timed_machine (line : Line) : (s.timed line).machine = s.machine := by rw [timed_eq]
@[simp] theorem timed_mode (line : Line) : (s.timed line).mode = s.mode := by rw [timed_eq]
@[simp] theorem timed_pending (line : Line) : (s.timed line).pending = s.pending := by rw [timed_eq]
@[simp] theorem timed_direct (line : Line) : (s.timed line).direct = s.direct := by rw [timed_eq]

/-! ### Failing -/

/-- A report as a failure records it: while a file is being loaded, with the line of the file. -/
def placed (d : Diagnostic) : Diagnostic :=
  match s.fileLine with
  | some n => d.atFileLine n
  | none => d

/-- An engine in which an error has been reported and no question is pending. -/
def noted (d : Diagnostic) : Engine γ := { s.report (s.placed d) with pending := none }

/-- An engine whose run, if there is one, has been stopped. -/
def stopRun : Engine γ := if s.mode = .running then s.stop else s

/-- An engine whose load, if there is one, has failed. -/
def spoilLoad : Engine γ := if s.isLoading then { s with mode := .loadFailed } else s

/-- A failure reports an error, ends a run, and spoils the loading of a file. -/
theorem fail_eq (d : Diagnostic) : s.fail d = (s.noted d).stopRun.spoilLoad := rfl

/-- A report keeps its code when it is told the line of the file. -/
theorem placed_code (d : Diagnostic) : (s.placed d).code = d.code := by
  unfold placed
  split <;> rfl

/-- What stopping leaves alone is the same once the run has been stopped. -/
theorem stopRun_same {α : Type} (f : Engine γ → α) (h : f s.stop = f s) : f s.stopRun = f s := by
  unfold stopRun
  split
  · exact h
  · rfl

/-- What does not depend on the mode is the same once the load has failed. -/
theorem spoilLoad_same {α : Type} (f : Engine γ → α) (h : f { s with mode := .loadFailed } = f s) :
    f s.spoilLoad = f s := by
  unfold spoilLoad
  split
  · exact h
  · rfl

/-- A failure is recorded behind the errors from before. -/
theorem fail_errors (d : Diagnostic) : (s.fail d).errors = s.errors ++ [s.placed d] :=
  calc (s.fail d).errors
      = (s.noted d).stopRun.errors := spoilLoad_same _ (·.errors) rfl
    _ = (s.noted d).errors := stopRun_same _ (·.errors) (stop_errors _)

/-- After a failure no question is pending. -/
theorem fail_pending (d : Diagnostic) : (s.fail d).pending = none :=
  calc (s.fail d).pending
      = (s.noted d).stopRun.pending := spoilLoad_same _ (·.pending) rfl
    _ = (s.noted d).pending := stopRun_same _ (·.pending) (stop_pending _)

/-- A failure leaves a direct statement that waits where it is. -/
theorem fail_direct (d : Diagnostic) : (s.fail d).direct = s.direct :=
  calc (s.fail d).direct
      = (s.noted d).stopRun.direct := spoilLoad_same _ (·.direct) rfl
    _ = (s.noted d).direct := stopRun_same _ (·.direct) (stop_direct _)

/-- A failure leaves the machine alone. -/
theorem fail_machine (d : Diagnostic) : (s.fail d).machine = s.machine :=
  calc (s.fail d).machine
      = (s.noted d).stopRun.machine := spoilLoad_same _ (·.machine) rfl
    _ = (s.noted d).machine := stopRun_same _ (·.machine) (stop_machine _)

/-- An engine that has been stopped is idle. -/
theorem stop_isIdle : s.stop.isIdle := by
  simp [isIdle, idleMode_ne_running, idleMode_ne_paused]

/-- A failure leaves no run, unless one is suspended. -/
theorem fail_isIdle (d : Diagnostic) (h : s.mode ≠ .paused) : (s.fail d).isIdle := by
  have hstopped : (s.noted d).stopRun.isIdle := by
    unfold stopRun
    split
    next => exact stop_isIdle _
    next hmode => exact (by simpa [isIdle] using ⟨hmode, h⟩)
  rw [fail_eq]
  unfold spoilLoad
  split
  · rfl
  · exact hstopped

/-- A failure leaves a suspended run suspended, but while a file is being loaded. -/
theorem fail_mode_of_paused (d : Diagnostic) (h : s.mode = .paused) :
    (s.fail d).mode = .paused ∨ (s.fail d).mode = .loadFailed := by
  have hstopped : (s.noted d).stopRun.mode = .paused := by
    have hmode : (s.noted d).mode = .paused := h
    rw [stopRun, if_neg (by simp [hmode]), hmode]
  rw [fail_eq]
  unfold spoilLoad
  split
  · exact .inr rfl
  · exact .inl hstopped

end LineBasic.Engine
