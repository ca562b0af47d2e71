import LineBasic.Proofs.Engine.Operation
import LineBasic.Proofs.Engine.State
import LineBasic.Proofs.Stores

namespace LineBasic

open Engine

namespace Engine

/-!
# Going on with a run

What happens when a run comes to a line, executes it and goes on, by cases.

* `arrive_cases` -- when a breakpoint stops a run, and what that uses up;
* `IsOpen`, `executed?_eq_some` -- when the line at the cursor is executed;
* `Advanced`, `Executed`, `Finished`, `Ticked` -- the cases of `advance`, of executing a line, of
  going on after it, and of what is due next;
* `executeLine_of_error`, `executeLine_of_running` -- executing a line when it is known what its
  statement does.
-/

variable {γ : Type} {s : Engine γ} {line : Line}

/-- Whether a breakpoint of either kind is on a line. -/
def IsMarked (s : Engine γ) (n : Nat) : Prop :=
  n ∈ s.breakpoints.lines ∨ s.breakpoints.oneShot = some n

/-- The kind of the breakpoint that stops a run at a line. -/
def kindOfHit (s : Engine γ) (n : Nat) : Hit :=
  if n ∈ s.breakpoints.lines then .persistent else .oneShot

/-- A run that comes to a line goes past it if it has been released there or the line is not marked,
    and is stopped otherwise. -/
theorem arrive_cases (s : Engine γ) (line : Line) :
    (s.resume = true ∨ ¬ s.IsMarked line.number) ∧
        s.arrive line = (none, { s with resume := false }) ∨
      s.resume = false ∧ s.IsMarked line.number ∧
        s.arrive line =
          (some (s.kindOfHit line.number), { s with breakpoints := s.breakpoints.disarm }) := by
  unfold arrive IsMarked kindOfHit
  by_cases hresume : s.resume = true
  · exact .inl ⟨.inl hresume, by simp [hresume]⟩
  · have hfalse : s.resume = false := by simpa using hresume
    by_cases hlines : line.number ∈ s.breakpoints.lines
    · exact .inr ⟨hfalse, .inl hlines, by simp [hfalse, Breakpoints.hit, hlines]⟩
    · by_cases honce : s.breakpoints.oneShot = some line.number
      · exact .inr ⟨hfalse, .inr honce, by simp [hfalse, Breakpoints.hit, hlines, honce]⟩
      · refine .inl ⟨.inr (by simp [hlines, honce]), ?_⟩
        obtain ⟨⟩ := s
        simp_all [Breakpoints.hit]

/-- A line at which a run may go past the breakpoints. -/
def IsOpen (s : Engine γ) (line : Line) : Prop :=
  s.mode = .running ∧ s.pending = none ∧ s.listing.get? s.cursor = some line ∧
    (s.resume = true ∨ ¬ s.IsMarked line.number)

/-- The line that is executed next is the one that is open. -/
theorem executed?_eq_some : s.executed? = some line ↔ s.IsOpen line := by
  unfold executed? IsOpen
  by_cases hready : s.mode = .running ∧ s.pending = none
  · rw [if_pos hready, Option.filter_eq_some_iff]
    obtain ⟨hmode, hpending⟩ := hready
    rcases arrive_cases s line with ⟨hopen, harrive⟩ | ⟨hresume, hmarked, harrive⟩
    · simp [harrive, hmode, hpending, hopen]
    · simp [harrive, hresume, hmarked]
  · rw [if_neg hready]
    simp only [reduceCtorEq, false_iff]
    rintro ⟨hmode, hpending, -⟩
    exact hready ⟨hmode, hpending⟩

/-- It is the program's turn while it runs and nothing else is due. -/
theorem isProgramTurn_iff : s.isProgramTurn ↔
    s.errors = [] ∧ s.pending = none ∧ s.direct = none ∧ s.mode = .running := by
  simp [isProgramTurn, and_assoc]

/-- An engine that is about to carry out the statement of a line. -/
def begun (s : Engine γ) (line : Line) : Engine γ := { s.traced line.source with branch := none }

/-- Coming to carry out a line traces its text and forgets the last jump. -/
theorem begun_eq (s : Engine γ) (line : Line) :
    s.begun line = { s with transcript := (s.traced line.source).transcript, branch := none } := by
  unfold begun
  rw [traced_eq]

/-- A report for the line at the cursor has the code of its cause. -/
theorem atCursor_code (s : Engine γ) (cause : Cause) : (s.atCursor cause).code = cause.code := by
  unfold atCursor
  dsimp only
  split <;> rfl

/-- What going on after a line does, in each of its cases. -/
inductive Finished (s : Engine γ) : Progress × Engine γ → Prop where
  /-- The run goes on at a line. -/
  | moved (n : Nat) (hn : s.branch.or (s.listing.nextAfter? s.cursor) = some n)
      (hstepping : s.stepping = false) :
      Finished s (.onward, { s with branch := none, cursor := n })
  /-- The run goes on at a line, and is to stop there. -/
  | stepped (n : Nat) (hn : s.branch.or (s.listing.nextAfter? s.cursor) = some n)
      (hstepping : s.stepping = true) :
      Finished s (.onward, { s with
        branch := none, cursor := n, stepping := false, breakpoints := s.breakpoints.arm n })
  /-- There is no line to go on at. -/
  | fellOff (hn : s.branch.or (s.listing.nextAfter? s.cursor) = none) :
      Finished s (.failed, s.fail (s.atCursor .noEnd))

/-- Going on after a line comes to one of the cases. -/
theorem finishLine_cases (s : Engine γ) : Finished s s.finishLine := by
  unfold finishLine
  split
  next n hn =>
    by_cases hstepping : s.stepping = true
    · simp only [hstepping, if_true]
      exact .stepped n hn hstepping
    · have hfalse : s.stepping = false := by simpa using hstepping
      simp only [hfalse, Bool.false_eq_true, if_false]
      exact hfalse ▸ .moved n hn hfalse
  next hn => exact .fellOff hn

variable [RandomSource γ]

/-- What executing a line does, in each of its cases. -/
inductive Executed (s : Engine γ) (line : Line) : Progress × Engine γ → Prop where
  /-- The statement fails. -/
  | failed (fault : Fault) (t : Engine γ)
      (hexecute : execute (some line.number) line.statement (s.begun line) = .error fault t) :
      Executed s line (.failed,
        (t.timed line).fail ((fault.diagnostic.atLine (some line.number)).inSource line.source))
  /-- The statement ends the run. -/
  | ended (t : Engine γ)
      (hexecute : execute (some line.number) line.statement (s.begun line) = .ok () t)
      (hmode : t.mode ≠ .running) : Executed s line (.ended, t.timed line)
  /-- The statement waits for values. -/
  | asked (t : Engine γ)
      (hexecute : execute (some line.number) line.statement (s.begun line) = .ok () t)
      (hmode : t.mode = .running) (hpending : t.pending ≠ none) :
      Executed s line (.onward, t.timed line)
  /-- The run goes on after the line. -/
  | finished (t : Engine γ)
      (hexecute : execute (some line.number) line.statement (s.begun line) = .ok () t)
      (hmode : t.mode = .running) (hpending : t.pending = none) :
      Executed s line (t.timed line).finishLine

/-- Executing a line comes to one of the cases. -/
theorem executeLine_cases (s : Engine γ) (line : Line) : Executed s line (s.executeLine line) := by
  unfold executeLine
  split
  next fault t hexecute => exact .failed fault t hexecute
  next t hexecute =>
    dsimp only
    have hmode : (t.timed line).mode = t.mode := by rw [timed_eq]
    have hpending : (t.timed line).pending = t.pending := by rw [timed_eq]
    rw [hmode, hpending]
    split
    next h => exact .ended t hexecute h
    next h =>
      have hrunning : t.mode = .running := by simpa using h
      split
      next h => exact .asked t hexecute hrunning (Option.isSome_iff_ne_none.1 h)
      next h => exact .finished t hexecute hrunning (by simpa using h)

/-- A line whose statement fails. -/
theorem executeLine_of_error {t : Engine γ} {line : Line} {fault : Fault}
    (hexecute : execute (some line.number) line.statement (s.begun line) = .error fault t) :
    s.executeLine line =
      (.failed, (t.timed line).fail
        ((fault.diagnostic.atLine (some line.number)).inSource line.source)) := by
  generalize hr : s.executeLine line = r
  cases hr ▸ executeLine_cases s line with
  | failed _ _ h =>
    cases hexecute.symm.trans h
    rfl
  | ended _ h | asked _ h | finished _ h => cases hexecute.symm.trans h

/-- A line whose statement neither fails nor ends the run. -/
theorem executeLine_of_running {t : Engine γ} {line : Line}
    (hexecute : execute (some line.number) line.statement (s.begun line) = .ok () t)
    (hmode : t.mode = .running) :
    s.executeLine line =
      if t.pending = none then (t.timed line).finishLine else (.onward, t.timed line) := by
  generalize hr : s.executeLine line = r
  cases hr ▸ executeLine_cases s line with
  | failed _ _ h => cases hexecute.symm.trans h
  | ended _ h hended =>
    cases hexecute.symm.trans h
    exact absurd hmode hended
  | asked _ h _ hasked =>
    cases hexecute.symm.trans h
    rw [if_neg hasked]
  | finished _ h _ hnone =>
    cases hexecute.symm.trans h
    rw [if_pos hnone]

/-- What `advance` does, in each of its cases. -/
inductive Advanced (s : Engine γ) : Progress × Engine γ → Prop where
  /-- There is no run to go on with. -/
  | idle (hmode : s.mode ≠ .running) : Advanced s (.ended, s)
  /-- The run waits for values. -/
  | waiting (hmode : s.mode = .running) (hpending : s.pending ≠ none) : Advanced s (.onward, s)
  /-- There is no line at the cursor. -/
  | lost (hmode : s.mode = .running) (hpending : s.pending = none)
      (hline : s.listing.get? s.cursor = none) :
      Advanced s (.failed, s.fail (s.atCursor (.lineNotInProgram s.cursor)))
  /-- A breakpoint stops the run. -/
  | stopped (line : Line) (hmode : s.mode = .running) (hpending : s.pending = none)
      (hline : s.listing.get? s.cursor = some line) (hresume : s.resume = false)
      (hmarked : s.IsMarked line.number) :
      Advanced s (.paused line.number,
        { s with breakpoints := s.breakpoints.disarm }.pauseAt line (s.kindOfHit line.number))
  /-- The line is executed. -/
  | executed (line : Line) (hopen : s.IsOpen line) :
      Advanced s ({ s with resume := false }.executeLine line)

/-- Going on with a run comes to one of the cases. -/
theorem advance_cases (s : Engine γ) : Advanced s s.advance := by
  unfold advance
  by_cases hmode : s.mode = .running
  · by_cases hpending : s.pending = none
    · rw [if_neg (by simpa using hmode), if_neg (by simp [hpending])]
      split
      next hline => exact .lost hmode hpending hline
      next line hline =>
        rcases arrive_cases s line with ⟨hopen, harrive⟩ | ⟨hresume, hmarked, harrive⟩
        · rw [harrive]
          exact .executed line ⟨hmode, hpending, hline, hopen⟩
        · rw [harrive]
          exact .stopped line hmode hpending hline hresume hmarked
    · rw [if_neg (by simpa using hmode), if_pos (Option.isSome_iff_ne_none.2 hpending)]
      exact .waiting hmode hpending
  · rw [if_pos hmode]
    exact .idle hmode

/-- At an open line, `advance` executes it. -/
theorem advance_of_isOpen (h : s.IsOpen line) :
    s.advance = { s with resume := false }.executeLine line := by
  obtain ⟨hmode, hpending, hline, hopen⟩ := h
  generalize hr : s.advance = r
  have hcases := hr ▸ advance_cases s
  cases hcases with
  | idle hidle => exact absurd hmode hidle
  | waiting _ hwaiting => exact absurd hpending hwaiting
  | lost _ _ hlost => simp [hlost] at hline
  | stopped line' _ _ hline' hresume hmarked =>
    -- Only a marked line without a release is closed.
    obtain rfl : line' = line := by simpa [hline'] using hline
    rcases hopen with h | h
    · simp [h] at hresume
    · exact absurd hmarked h
  | executed line' hopen' =>
    obtain rfl : line' = line := by simpa [hopen'.2.2.1] using hline
    rfl

/-- What is due next, in each of its cases. -/
inductive Ticked (s : Engine γ) : Event × Engine γ ⊕ Engine γ → Prop where
  /-- Errors are collected. -/
  | errors (herrors : s.errors ≠ []) : Ticked s (.inl (.errors s.errors, { s with errors := [] }))
  /-- Values are asked for. -/
  | input (q : Inquiry) (herrors : s.errors = []) (hpending : s.pending = some q) :
      Ticked s (.inl (.input q.prompt, s))
  /-- A direct statement is carried out. -/
  | direct (d : DirectStatement) (herrors : s.errors = []) (hpending : s.pending = none)
      (hdirect : s.direct = some d) : Ticked s (.inr ({ s with direct := none }.carryOut d))
  /-- The program goes on. -/
  | program (hturn : s.isProgramTurn) : Ticked s (.inr s.advance.2)
  /-- A run is suspended. -/
  | paused (herrors : s.errors = []) (hpending : s.pending = none) (hdirect : s.direct = none)
      (hmode : s.mode = .paused) : Ticked s (.inl (.paused s.cursor, s))
  /-- There is nothing to do. -/
  | stopped (herrors : s.errors = []) (hpending : s.pending = none) (hdirect : s.direct = none)
      (hmode : s.isIdle) : Ticked s (.inl (.stopped, s))

/-- What is due next is one of the cases. -/
theorem tick_cases (s : Engine γ) : Ticked s s.tick := by
  unfold tick
  by_cases herrors : s.errors = []
  · rw [if_neg (by simpa using herrors)]
    split
    next q hpending => exact .input q herrors hpending
    next hpending =>
      split
      next d hdirect => exact .direct d herrors hpending hdirect
      next hdirect =>
        split
        next hmode => exact .program (isProgramTurn_iff.2 ⟨herrors, hpending, hdirect, hmode⟩)
        next hmode => exact .paused herrors hpending hdirect hmode
        next hrunning hpaused =>
          exact .stopped herrors hpending hdirect (by simpa [isIdle] using ⟨hrunning, hpaused⟩)
  · rw [if_pos herrors]
    exact .errors herrors

/-- A direct statement that has been put by is carried out as soon as it is its turn. -/
theorem ticked_of_direct {d : DirectStatement} (herrors : s.errors = [])
    (hpending : s.pending = none) (hdirect : s.direct = some d) :
    s.ticked = { s with direct := none }.carryOut d := by
  have htick : s.tick = .inr ({ s with direct := none }.carryOut d) := by
    unfold tick
    rw [if_neg (by simp [herrors])]
    simp only [hpending, hdirect]
  rw [ticked, htick]

/-- On the program's turn a tick is a call of `advance`. -/
theorem ticked_of_isProgramTurn (h : s.isProgramTurn) : s.ticked = s.advance.2 := by
  obtain ⟨herrors, hpending, hdirect, hmode⟩ := isProgramTurn_iff.1 h
  simp [ticked, tick, herrors, hpending, hdirect, hmode]

omit [RandomSource γ] in
/-- A run that is stopped keeps what it works on. -/
theorem pauseAt_eq (s : Engine γ) (line : Line) (hit : Hit) :
    s.pauseAt line hit = { s with
      transcript := (s.pauseAt line hit).transcript, mode := .paused, stepping := false } := by
  cases hit <;> rfl

end Engine

/-! ### Moments -/

variable {γ : Type} [RandomSource γ]

/-- Whether a moment is a call of `advance`, by an act or as the turn of the program. -/
def Moment.isAdvance : Moment γ → Bool
  | .tick s => s.isProgramTurn
  | .act _ .advance => true
  | .act _ _ => false

/-- A call of `advance` leaves what `advance` leaves, and executes what it executes. -/
theorem Moment.isAdvance_spec {m : Moment γ} (h : m.isAdvance) :
    m.after = m.before.advance.2 ∧ m.executed? = m.before.executed? := by
  cases m with
  | tick s =>
    have hturn : s.isProgramTurn := h
    exact ⟨ticked_of_isProgramTurn hturn, if_pos hturn⟩
  | act s a =>
    cases a <;> first | exact ⟨rfl, rfl⟩ | cases h

omit [RandomSource γ] in
/-- Only calls of `advance` execute lines. -/
theorem Moment.isAdvance_of_executed {m : Moment γ} {line : Line} (h : m.executed? = some line) :
    m.isAdvance := by
  cases m with
  | tick s =>
    show s.isProgramTurn
    by_cases hturn : s.isProgramTurn = true
    · exact hturn
    · exact absurd h (by simp [executed?, hturn])
  | act s a => cases a <;> first | rfl | cases h

end LineBasic
