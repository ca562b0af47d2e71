import LineBasic.Proofs.Engine.Advance
import LineBasic.Proofs.Engine.Answer
import LineBasic.Proofs.Engine.Effect
import LineBasic.Proofs.Engine.Operation
import LineBasic.Proofs.Engine.State
import LineBasic.Proofs.Expr.Eval
import Mathlib.Logic.Relation

namespace LineBasic.Engine

/-!
# Shifts

Whatever an operation does to an engine is put together from a few kinds of small changes, each of
which happens in certain circumstances only.  An invariant has to be checked for the small changes
alone.

* `Shift` -- the small changes;
* `Releases`, `Marks` -- the two changes that only the user can bring about: a suspended run goes
  on, and a breakpoint is set;
* `shifts_ticked`, `shifts_enter`, `shifts_interrupt` -- a tick, an entry and an interruption are
  sequences of shifts.
-/

variable {γ : Type}

/-- A small change of an engine. -/
inductive Shift (s : Engine γ) : Engine γ → Prop where
  /-- Nothing that decides where a run is changes. -/
  | aside (machine : Machine γ) (direct : Option DirectStatement) (errors : List Diagnostic)
      (options : Options) (transcript : Transcript) :
      Shift s { s with machine, direct, errors, options, transcript }
  /-- One more line of a file is counted. -/
  | count : Shift s { s with fileLine := s.fileLine.map (· + 1) }
  /-- A line is stored. -/
  | store (n : Nat) (source : String) (statement : Statement)
      (hentry : Entry.ofText source = .ok (.store n statement)) :
      Shift s { s with listing := s.listing.insert (.ofText n source statement) }
  /-- A line is deleted, with its breakpoint. -/
  | delete (n : Nat) (hmode : s.mode ≠ .paused) :
      Shift s { s with listing := s.listing.erase n, breakpoints := s.breakpoints.forget n }
  /-- A breakpoint is removed. -/
  | unmark (n : Nat) (b : Breakpoints) (hb : s.breakpoints.clear n = .ok b) :
      Shift s { s with breakpoints := b }
  /-- All breakpoints are removed. -/
  | unmarkAll : Shift s { s with breakpoints := s.breakpoints.clearAll }
  /-- An `INPUT` takes a value of `RUN`. -/
  | take (x : Letter) (n : Int16) (queue : List Int16) (hqueue : s.queue = n :: queue) :
      Shift s ({ s with queue }.assign x n)
  /-- An `INPUT` asks for values, or still asks for some. -/
  | wait (q : Inquiry)
      (hline : q.line.isSome →
        (s.mode = .running ∧ s.resume = false ∧ q.line = some s.cursor) ∨
          ∃ q', s.pending = some q' ∧ q'.line = q.line) :
      Shift s { s with pending := some q }
  /-- An `INPUT` asks no longer. -/
  | unwait : Shift s { s with pending := none }
  | stop : Shift s s.stop
  /-- The program is removed. -/
  | wipe : Shift s s.wipe.stop
  /-- A run begins. -/
  | launch (queue : List Int16) (n : Nat) (hmode : s.mode ≠ .paused) (hn : s.listing.contains n) :
      Shift s ({ s with queue }.startRun n)
  /-- The line at the cursor is about to be executed. -/
  | depart (hmode : s.mode = .running) (hpending : s.pending = none) :
      Shift s { s with resume := false, branch := none }
  /-- A program line goes to a stored line, perhaps as to a subroutine. -/
  | go (calls : CallStack) (n : Nat) (hmode : s.mode = .running) (hn : s.listing.contains n)
      (hcalls : calls = s.calls ∨
        ∃ back, s.listing.nextAfter? s.cursor = some back ∧ s.calls.push back = .ok calls) :
      Shift s { s with calls, branch := some n }
  /-- A subroutine is left. -/
  | back (calls : CallStack) (n : Nat) (hmode : s.mode ≠ .paused)
      (hpop : s.calls.pop = .ok (n, calls)) :
      Shift s { s with calls, branch := some n }
  /-- The program begins again. -/
  | restart (hmode : s.mode = .running) : Shift s s.rewind
  /-- A run is suspended at a breakpoint on the line at the cursor. -/
  | pause (hmode : s.mode = .running) (hpending : s.pending = none) (hresume : s.resume = false)
      (hcursor : s.listing.contains s.cursor)
      (hhit : s.cursor ∈ s.breakpoints.lines ∨ s.breakpoints.oneShot = some s.cursor) :
      Shift s { s with breakpoints := s.breakpoints.disarm, mode := .paused, stepping := false }
  /-- The cursor moves on. -/
  | move (n : Nat) (hmode : s.mode = .running)
      (hpending : (s.pending = none ∧ s.resume = false) ∨ ∃ q, s.pending = some q ∧ q.line.isSome)
      (hn : s.branch.or (s.listing.nextAfter? s.cursor) = some n) :
      Shift s { s with pending := none, branch := none, cursor := n }
  /-- A single step is over, and the run is to stop at the cursor. -/
  | arm (hmode : s.mode = .running) (hstepping : s.stepping = true) :
      Shift s { s with stepping := false, breakpoints := s.breakpoints.arm s.cursor }
  /-- The loading of a file has failed. -/
  | spoil (hloading : s.isLoading) (hmode : s.mode ≠ .running) (hpending : s.pending = none) :
      Shift s { s with mode := .loadFailed }
  | beginLoad : Shift s s.beginLoad
  | endLoad : Shift s s.endLoad.2

/-- Some shifts, one after the other. -/
abbrev Shifts : Engine γ → Engine γ → Prop := Relation.ReflTransGen Shift

/-- A suspended run goes on. -/
def Releases (s t : Engine γ) : Prop :=
  s.mode = .paused ∧ ∃ stepping, t = { s with mode := .running, resume := true, stepping }

/-- A breakpoint is set. -/
def Marks (s t : Engine γ) : Prop :=
  ∃ n b, s.breakpoints.set n s.listing = .ok b ∧ t = { s with breakpoints := b }

/-- What every shift preserves, shifts preserve. -/
theorem Shifts.preserves {I : Engine γ → Prop} {s t : Engine γ} (h : Shifts s t) (hs : I s)
    (hstep : ∀ s t, I s → Shift s t → I t) : I t := by
  induction h with
  | refl => exact hs
  | tail _ hst ih => exact hstep _ _ ih hst

/-- A shift never says that the line at the cursor is to be executed whatever breakpoint is on
    it. -/
theorem Shift.resume_eq_false {s t : Engine γ} (h : Shift s t) (hs : s.resume = false) :
    t.resume = false := by
  cases h with
  | stop | wipe | beginLoad => exact stop_resume _
  | launch | depart => rfl
  | restart => rw [rewind_eq]; exact hs
  | _ => exact hs

/-- No sequence of shifts says that a marked line is to be executed. -/
theorem Shifts.resume_eq_false {s t : Engine γ} (h : Shifts s t) (hs : s.resume = false) :
    t.resume = false :=
  h.preserves hs fun _ _ hresume hshift => hshift.resume_eq_false hresume

/-! ### Parts of operations -/

variable {s : Engine γ}

/-- A shift is a sequence of shifts. -/
theorem Shift.shifts {s t : Engine γ} (h : Shift s t) : Shifts s t := .single h

/-- Writing is a shift. -/
theorem shifts_emit (e : Emission) : Shifts s (s.emit e) :=
  (Shift.aside s.machine s.direct s.errors s.options _).shifts

/-- Reporting an error is a shift. -/
theorem shifts_report (d : Diagnostic) : Shifts s (s.report d) :=
  (Shift.aside s.machine s.direct _ s.options s.transcript).shifts

/-- A change of the machine is a shift. -/
theorem shifts_machine (machine : Machine γ) : Shifts s { s with machine } :=
  (Shift.aside machine s.direct s.errors s.options s.transcript).shifts

/-- Tracing is at most a shift. -/
theorem shifts_traced (text : String) : Shifts s (s.traced text) := by
  unfold traced
  split
  · exact shifts_emit _
  · exact .refl

/-- Writing the time of a line is at most a shift. -/
theorem shifts_timed (line : Line) : Shifts s (s.timed line) := by
  unfold timed
  split
  · exact shifts_emit _
  · exact .refl

/-- Ending a run, if there is one, is at most a shift. -/
theorem shifts_stopRun : Shifts s s.stopRun := by
  unfold stopRun
  split
  · exact Shift.stop.shifts
  · exact .refl

/-- A load that fails without a run or a question is at most a shift. -/
theorem shifts_spoilLoad (hmode : s.mode ≠ .running) (hpending : s.pending = none) :
    Shifts s s.spoilLoad := by
  unfold spoilLoad
  split
  next hloading => exact (Shift.spoil hloading hmode hpending).shifts
  next => exact .refl

/-- After the run has been ended the program does not run. -/
theorem stopRun_mode_ne_running : s.stopRun.mode ≠ .running := by
  unfold stopRun
  split
  · rw [stop_mode]
    exact s.idleMode_ne_running
  · assumption

/-- The end of a run asks for nothing. -/
theorem stopRun_pending (h : s.pending = none) : s.stopRun.pending = none :=
  (s.stopRun_same (·.pending) (s.stop_pending.trans h.symm)).trans h

/-- A failure is a sequence of shifts: the report, the end of the run, the end of the load. -/
theorem shifts_fail (d : Diagnostic) : Shifts s (s.fail d) := by
  rw [fail_eq]
  -- A run is stopped before the load is spoilt, so the mode that is then lost is not that of a run.
  have hnoted : Shifts s (s.noted d) := (shifts_report _).tail .unwait
  have hstopped : Shifts s (s.noted d).stopRun := hnoted.trans shifts_stopRun
  exact hstopped.trans (shifts_spoilLoad stopRun_mode_ne_running (stopRun_pending rfl))

/-! ### Statements -/

/-- Where a statement stands: it is direct, or that of the line at the cursor of a run that has just
    come to that line. -/
def Stands (s : Engine γ) (line : Option Nat) : Prop :=
  line.isSome → s.mode = .running ∧ s.resume = false ∧ line = some s.cursor

/-- Taking values and asking for more is a sequence of shifts, where the statement stands as it
    should. -/
theorem shifts_ask {line : Option Nat} (hline : s.Stands line) (xs : List Letter) :
    Shifts s (ask line s xs) := by
  induction xs generalizing s with
  | nil => exact .refl
  | cons x xs ih =>
    unfold ask
    split
    next => exact (Shift.wait ⟨x :: xs, line⟩ fun h => .inl (hline h)).shifts
    next n queue hqueue => exact .head (.take x n queue hqueue) (ih hline)

/-- An effect that fits is a sequence of shifts, where the statement stands as it should. -/
theorem shifts_effect {line : Option Nat} (hline : s.Stands line) {effect : Effect}
    (hfit : effect.Fits line s.view) : Shifts s (effect.apply line s) := by
  cases effect with
  | nothing => exact .refl
  | assign x n => exact shifts_machine _
  | write text => exact shifts_emit _
  | ask xs => exact shifts_ask hline xs
  | clear => exact Shift.wipe.shifts
  | halt => exact Shift.stop.shifts
  | jump calls n =>
    obtain ⟨hpaused, ⟨hsome, hn, hcalls⟩ | hpop⟩ := hfit
    · obtain ⟨hmode, -, rfl⟩ := hline hsome
      exact (Shift.go calls n hmode hn hcalls).shifts
    · refine (Shift.back calls n ?_ hpop).shifts
      -- While a run is suspended only its lines may return, and none of them is being executed.
      intro hmode
      have hsome : line.isSome := hpaused (by simp [view, hmode])
      simp [(hline hsome).1] at hmode
  | restart warning =>
    obtain ⟨hmode, -, -⟩ := hline hfit
    cases warning with
    | none => exact (Shift.restart hmode).shifts
    | some d => exact (shifts_emit _).tail (.restart hmode)
  | launch queue n =>
    obtain ⟨-, hpaused, hn⟩ := hfit
    exact (Shift.launch queue n (by simpa [view] using hpaused) hn).shifts

variable [RandomSource γ]

/-- What carrying out a statement leaves, whether it succeeds or fails. -/
theorem shifts_execute {line : Option Nat} (hline : s.Stands line) (statement : Statement)
    {t : Engine γ} (h : (∃ u, execute line statement s = .ok u t) ∨
      ∃ fault, execute line statement s = .error fault t) : Shifts s t := by
  obtain ⟨outcome, machine, hfit, hexecute⟩ := execute_uniform statement line s.view s.machine
  rw [hexecute s rfl rfl] at h
  cases outcome with
  | ok effect =>
    have ht : t = effect.apply line { s with machine } := by simpa [settle, eq_comm] using h
    subst ht
    exact (shifts_machine machine).trans (shifts_effect (s := { s with machine }) hline hfit)
  | error fault =>
    have ht : t = { s with machine } := by simpa [settle, eq_comm] using h
    subst ht
    exact shifts_machine machine

/-! ### Runs -/

omit [RandomSource γ] in
/-- Going on after a line is a sequence of shifts. -/
theorem shifts_finishLine (hmode : s.mode = .running)
    (hpending : s.pending = none) (hresume : s.resume = false) : Shifts s s.finishLine.2 := by
  have hmove : ∀ n, s.branch.or (s.listing.nextAfter? s.cursor) = some n →
      Shifts s { s with branch := none, cursor := n } := by
    intro n hn
    have h := Shift.move n hmode (.inl ⟨hpending, hresume⟩) hn
    rw [← hpending] at h
    exact h.shifts
  generalize hr : s.finishLine = r
  cases hr ▸ finishLine_cases s with
  | moved n hn _ => exact hmove n hn
  | stepped n hn hstepping => exact (hmove n hn).tail (.arm hmode hstepping)
  | fellOff _ => exact shifts_fail _

/-- Executing the line at the cursor is a sequence of shifts. -/
theorem shifts_executeLine {line : Line} (hmode : s.mode = .running) (hpending : s.pending = none)
    (hline : s.listing.get? s.cursor = some line) :
    Shifts s ({ s with resume := false }.executeLine line).2 := by
  have hnumber : line.number = s.cursor := Listing.get?_number hline
  let b := { s with resume := false }.begun line
  have hbegun : Shifts s b := by
    show Shifts s ({ s with resume := false }.begun line)
    rw [begun_eq]
    exact .head (.depart hmode hpending)
      (Shift.aside s.machine s.direct s.errors s.options _).shifts
  have hstands : b.Stands (some line.number) := by
    show ({ s with resume := false }.begun line).Stands (some line.number)
    rw [begun_eq]
    exact fun _ => ⟨hmode, rfl, congrArg some hnumber⟩
  have htimed : ∀ t, Shifts s t → Shifts s (t.timed line) := fun t h => h.trans (shifts_timed line)
  generalize hr : { s with resume := false }.executeLine line = r
  cases hr ▸ executeLine_cases { s with resume := false } line with
  | failed fault t h =>
    have ht := hbegun.trans (shifts_execute hstands _ (.inr ⟨fault, h⟩))
    exact (htimed t ht).trans (shifts_fail _)
  | ended t h _ => exact htimed t (hbegun.trans (shifts_execute hstands _ (.inl ⟨(), h⟩)))
  | asked t h _ _ => exact htimed t (hbegun.trans (shifts_execute hstands _ (.inl ⟨(), h⟩)))
  | finished t h hrunning hnone =>
    have ht := hbegun.trans (shifts_execute hstands _ (.inl ⟨(), h⟩))
    refine (htimed t ht).trans (shifts_finishLine ?_ ?_ ?_)
    · rw [timed_eq]; exact hrunning
    · rw [timed_eq]; exact hnone
    · -- The statement has not raised the flag again, because no shift does.
      rw [timed_eq]
      exact (shifts_execute hstands _ (.inl ⟨(), h⟩)).resume_eq_false (hstands rfl).2.1

omit [RandomSource γ] in
/-- Suspending a run at a marked line is a sequence of shifts. -/
theorem shifts_pauseAt {line : Line} (hmode : s.mode = .running) (hpending : s.pending = none)
    (hline : s.listing.get? s.cursor = some line) (hresume : s.resume = false)
    (hmarked : s.IsMarked line.number) (hit : Hit) :
    Shifts s ({ s with breakpoints := s.breakpoints.disarm }.pauseAt line hit) := by
  have hcursor : s.listing.contains s.cursor := Listing.contains_iff_get?.2 ⟨line, hline⟩
  rw [Listing.get?_number hline] at hmarked
  have hpause := Shift.pause hmode hpending hresume hcursor hmarked
  -- What is written does not matter to the pause, so it may come after it.
  cases hit with
  | persistent => exact .head hpause ((shifts_emit _).trans (shifts_emit _))
  | oneShot => exact .head hpause (shifts_emit _)

/-- Going on with a run is a sequence of shifts. -/
theorem shifts_advance (s : Engine γ) : Shifts s s.advance.2 := by
  generalize hr : s.advance = r
  cases hr ▸ advance_cases s with
  | idle _ => exact .refl
  | waiting _ _ => exact .refl
  | lost _ _ _ => exact shifts_fail _
  | stopped line hmode hpending hline hresume hmarked =>
    exact shifts_pauseAt hmode hpending hline hresume hmarked _
  | executed line hopen =>
    obtain ⟨hmode, hpending, hline, -⟩ := hopen
    exact shifts_executeLine hmode hpending hline

/-- Carrying out a direct statement is a sequence of shifts. -/
theorem shifts_carryOut (d : DirectStatement) : Shifts s (s.carryOut d) := by
  have hstands : s.Stands none := fun h => nomatch h
  unfold carryOut
  split
  next t h => exact shifts_execute hstands _ (.inl ⟨(), h⟩)
  next fault t h => exact (shifts_execute hstands _ (.inr ⟨fault, h⟩)).trans (shifts_fail _)

/-- **Ticks.**  Whatever is due next is a sequence of shifts. -/
theorem shifts_ticked (s : Engine γ) : Shifts s s.ticked := by
  unfold ticked
  generalize hr : s.tick = r
  cases hr ▸ tick_cases s with
  | errors _ => exact (Shift.aside s.machine s.direct [] s.options s.transcript).shifts
  | input _ _ _ => exact .refl
  | direct d _ _ _ =>
    exact .head (.aside s.machine none s.errors s.options s.transcript) (shifts_carryOut d)
  | program _ => exact shifts_advance s
  | paused _ _ _ _ => exact .refl
  | stopped _ _ _ _ => exact .refl

/-! ### Answers -/

/-- Answering a question is a sequence of shifts. -/
theorem shifts_answer {q : Inquiry} (hq : s.pending = some q) (text : String) :
    Shifts s (s.answer q text) := by
  generalize hr : s.answer q text = r
  have haside : ∀ machine transcript, Shifts s { s with machine, transcript } :=
    fun machine transcript => (Shift.aside machine s.direct s.errors s.options transcript).shifts
  cases hr ▸ answer_cases s q text with
  | failed machine d => exact ((haside machine s.transcript).tail .unwait).trans (shifts_fail d)
  | more machine transcript awaiting =>
    exact (haside machine transcript).tail (.wait _ fun _ => .inr ⟨q, hq, rfl⟩)
  | finished machine transcript => exact (haside machine transcript).tail .unwait
  | resumed machine transcript hline hmode =>
    -- The question is dropped as the cursor moves, so that the move is known to be that of its
    -- line.
    have hmove : ∀ n, s.branch.or (s.listing.nextAfter? s.cursor) = some n →
        Shifts s { s with machine, transcript, pending := none, branch := none, cursor := n } :=
      fun n hn => (haside machine transcript).tail (.move n hmode (.inr ⟨q, hq, hline⟩) hn)
    generalize hf : ({ s with machine, transcript, pending := none } : Engine γ).finishLine = f
    cases hf ▸ finishLine_cases _ with
    | moved n hn _ => exact hmove n hn
    | stepped n hn hstepping => exact (hmove n hn).tail (.arm hmode hstepping)
    | fellOff _ => exact ((haside machine transcript).tail .unwait).trans (shifts_fail _)

/-! ### Entries -/

omit [RandomSource γ] in
/-- Deleting a line is a sequence of shifts. -/
theorem shifts_delete (n : Nat) : Shifts s (s.delete n) := by
  unfold delete
  split
  · exact shifts_report _
  next hmode =>
    split
    · exact (Shift.delete n hmode).shifts
    · split
      · exact .refl
      · exact shifts_fail _

omit [RandomSource γ] in
/-- What becomes of an entry that has been read is a sequence of shifts. -/
theorem shifts_accept {source : String} {entry : Entry} (hentry : Entry.ofText source = .ok entry) :
    Shifts s (s.accept source entry) := by
  cases entry with
  | store n statement =>
    exact (shifts_traced _).tail (.store n source statement hentry)
  | delete n => exact (shifts_traced _).trans (shifts_delete n)
  | direct statement =>
    let t := s.traced ("direct " ++ String.ofList (Text.trim source.toList))
    exact (shifts_traced _).tail
      (.aside t.machine (some ⟨source, statement⟩) t.errors t.options t.transcript)

/-- **Entries.**  Entering a text is a sequence of shifts, whatever the text is. -/
theorem shifts_enter (s : Engine γ) (text : String) : Shifts s (s.enter text).2 := by
  have hcount : Shifts s s.counted := Shift.count.shifts
  cases hpending : s.pending with
  | some q =>
    rw [enter_of_pending hpending]
    exact hcount.trans (shifts_answer (s := s.counted) hpending text)
  | none =>
    rw [enter_of_pending_none hpending]
    split
    · exact hcount
    · split
      next d _ => exact hcount.trans (shifts_fail d)
      next entry hentry =>
        split
        · exact hcount
        · exact hcount.trans (shifts_accept hentry)

omit [RandomSource γ] in
/-- **Interruptions.**  They are sequences of shifts. -/
theorem shifts_interrupt (s : Engine γ) : Shifts s s.interrupt := by
  unfold interrupt
  split
  · exact shifts_fail _
  · split
    · exact shifts_fail _
    · exact .refl

end LineBasic.Engine
