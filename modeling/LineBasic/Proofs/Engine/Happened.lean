import LineBasic.Proofs.Engine.Moment

namespace LineBasic

open Engine

/-!
# What happens in a moment

The cases of ticks and acts, with the circumstances in which each of them comes about.

* `Moment.CarriesOut` -- a statement is carried out in a moment, on behalf of a line or of none;
* `Moment.Unmarks` -- a breakpoint is removed;
* `Moment.Happened` -- the cases;
* `Moment.happened` -- the main result, for all moments.
-/

variable {γ : Type}

namespace Moment

/-- Whether a breakpoint is removed from a line in a moment. -/
def Unmarks (n : Nat) : Moment γ → Prop
  | act _ a => a = .clearBreakpoint n ∨ a = .command (.clearBreakpoint n)
  | tick _ => False

variable [RandomSource γ]

/-- Whether a statement is carried out in a moment, on behalf of a line or of none. -/
inductive CarriesOut : Moment γ → Option Nat → Statement → Prop where
  | line {m : Moment γ} {line : Line} (hexecuted : m.executed? = some line) :
      CarriesOut m (some line.number) line.statement
  | direct {s : Engine γ} {d : DirectStatement} (herrors : s.errors = [])
      (hpending : s.pending = none) (hdirect : s.direct = some d) :
      CarriesOut (.tick s) none d.statement

/-- What a moment leaves, in each case. -/
inductive Happened : Moment γ → Engine γ → Prop where
  /-- Nothing changes that concerns the program or a run. -/
  | aside {m : Moment γ} (machine : Machine γ) (errors : List Diagnostic) (options : Options)
      (transcript : Transcript) : Happened m { m.before with machine, errors, options, transcript }
  /-- A direct statement is carried out. -/
  | carriedOut {s : Engine γ} {d : DirectStatement} (herrors : s.errors = [])
      (hpending : s.pending = none) (hdirect : s.direct = some d) :
      Happened (.tick s) ({ s with direct := none }.carryOut d)
  /-- A run goes on. -/
  | advanced {m : Moment γ} (hadvance : m.isAdvance) : Happened m m.before.advance.2
  /-- Answers to a question are entered. -/
  | answered {s : Engine γ} {text : String} {q : Inquiry} (hpending : s.pending = some q) :
      Happened (.act s (.enter text)) (s.counted.answer q text)
  /-- A text is entered of which no more than notice is taken. -/
  | noticed {s : Engine γ} {text : String} (hpending : s.pending = none) (errors : List Diagnostic)
      (transcript : Transcript) : Happened (.act s (.enter text))
      { s.counted with errors, transcript }
  /-- A text is entered that cannot be read, or the number of a line that is not stored. -/
  | misread {s : Engine γ} {text : String} (hpending : s.pending = none) (transcript : Transcript)
      (hquiet : ∀ d, { s with transcript }.notices d = s.notices d) (d : Diagnostic) :
      Happened (.act s (.enter text)) ({ s.counted with transcript }.fail d)
  /-- A line is stored. -/
  | stored {s : Engine γ} {text : String} {n : Nat} {statement : Statement}
      (hpending : s.pending = none)
      (hentry : Entry.ofText (trimmed text) = .ok (.store n statement)) (transcript : Transcript) :
      Happened (.act s (.enter text))
        { s.counted with
          transcript, listing := s.listing.insert (.ofText n (trimmed text) statement) }
  /-- A line is deleted. -/
  | deleted {s : Engine γ} {text : String} {n : Nat} (hpending : s.pending = none)
      (hmode : s.mode ≠ .paused) (hentry : Entry.ofText (trimmed text) = .ok (.delete n))
      (hn : s.listing.contains n) (transcript : Transcript) :
      Happened (.act s (.enter text))
        { s.counted with
          transcript, listing := s.listing.erase n, breakpoints := s.breakpoints.forget n }
  /-- A direct statement is put by. -/
  | putBy {s : Engine γ} {text : String} {statement : Statement} (hpending : s.pending = none)
      (hentry : Entry.ofText (trimmed text) = .ok (.direct statement)) (transcript : Transcript) :
      Happened (.act s (.enter text))
        { s.counted with transcript, direct := some ⟨trimmed text, statement⟩ }
  /-- A run or a wait for values is broken off. -/
  | interrupted {s : Engine γ} (h : s.pending ≠ none ∨ s.mode = .running) (d : Diagnostic) :
      Happened (.act s .interrupt) (s.fail d)
  /-- A suspended run goes on. -/
  | released {m : Moment γ} {t : Engine γ} (h : m.Releases) (ht : Engine.Releases m.before t) :
      Happened m t
  /-- A suspended run is given up. -/
  | gaveUp {m : Moment γ} (hmode : m.before.mode = .paused) : Happened m m.before.stop
  /-- A breakpoint is set. -/
  | marked {m : Moment γ} {n : Nat} {b : Breakpoints} (h : m.Marks n)
      (hb : m.before.breakpoints.set n m.before.listing = .ok b) :
      Happened m { m.before with breakpoints := b }
  /-- A breakpoint is removed. -/
  | unmarked {m : Moment γ} {n : Nat} {b : Breakpoints} (h : m.Unmarks n)
      (hb : m.before.breakpoints.clear n = .ok b) : Happened m { m.before with breakpoints := b }
  /-- All breakpoints are removed. -/
  | unmarkedAll {s : Engine γ} : Happened (.act s (.command .clearBreakpoints)) s.clearBreakpoints
  | beganLoad {s : Engine γ} : Happened (.act s .beginLoad) s.beginLoad
  | endedLoad {s : Engine γ} : Happened (.act s .endLoad) s.endLoad.2

variable {m : Moment γ} {s : Engine γ}

/-! ### Requests -/

namespace Happened

/-- Nothing may happen in a moment. -/
theorem refl : Happened m m.before :=
  .aside m.before.machine m.before.errors m.before.options m.before.transcript

/-- Something may be written in a moment. -/
theorem emit (e : Emission) : Happened m (m.before.emit e) :=
  .aside m.before.machine m.before.errors m.before.options _

/-- Something may be reported in a moment. -/
theorem report (d : Diagnostic) : Happened m (m.before.report d) :=
  .aside m.before.machine _ m.before.options m.before.transcript

/-- A request that is accepted or refused. -/
theorem request {request : Request γ Unit} (h : (∃ t, request m.before = .ok () t ∧ Happened m t) ∨
    ∃ cause, request m.before = .error cause m.before) :
    Happened m (m.before.ask? request).2 ∧ Happened m (m.before.perform request) := by
  rcases h with ⟨t, ht, hhappened⟩ | ⟨cause, hcause⟩
  · rw [ask?_ok ht, perform_ok ht]
    exact ⟨hhappened, hhappened⟩
  · rw [ask?_error hcause, perform_error hcause]
    exact ⟨refl, report _⟩

/-- Giving up a suspended run is one of the cases, accepted or refused. -/
theorem exitRun : Happened m (m.before.ask? exitRun).2 ∧ Happened m (m.before.perform exitRun) := by
  refine request ?_
  rw [exitRun_eq]
  split
  next hmode => exact .inl ⟨_, rfl, .gaveUp hmode⟩
  next => exact .inr ⟨_, rfl⟩

/-- Showing the open subroutines is one of the cases. -/
theorem showCalls :
    Happened m (m.before.ask? showCalls).2 ∧ Happened m (m.before.perform showCalls) := by
  refine request ?_
  rw [showCalls_eq]
  split
  · exact .inl ⟨_, rfl, .emit _⟩
  · exact .inr ⟨_, rfl⟩

/-- Setting a breakpoint is one of the cases, accepted or refused. -/
theorem setBreakpoint {a : Act γ} {n : Nat}
    (ha : a = .setBreakpoint n ∨ a = .command (.setBreakpoint n)) :
    Happened (.act s a) (s.ask? (Engine.setBreakpoint n)).2 ∧
      Happened (.act s a) (s.perform (Engine.setBreakpoint n)) := by
  refine request (m := .act s a) ?_
  rcases setBreakpoint_cases s n with ⟨b, hb, h⟩ | h
  · exact .inl ⟨_, h, .marked ⟨ha, _, h⟩ hb⟩
  · exact .inr h

/-- Removing a breakpoint is one of the cases, accepted or refused. -/
theorem clearBreakpoint {a : Act γ} {n : Nat}
    (ha : a = .clearBreakpoint n ∨ a = .command (.clearBreakpoint n)) :
    Happened (.act s a) (s.ask? (Engine.clearBreakpoint n)).2 ∧
      Happened (.act s a) (s.perform (Engine.clearBreakpoint n)) := by
  refine request (m := .act s a) ?_
  rcases clearBreakpoint_cases s n with ⟨b, hb, h⟩ | h
  · exact .inl ⟨_, h, .unmarked ha hb⟩
  · exact .inr h

/-- A request to go on is one of the cases, accepted or refused. -/
theorem goingOn {a : Act γ} {request : Request γ Unit} (ha : a.goingOn? = some request) :
    Happened (.act s a) (s.ask? request).2 ∧ Happened (.act s a) (s.perform request) := by
  refine Happened.request (m := .act s a) ?_
  rcases goingOn_cases (s := s) ha with ⟨t, hok, hreleases⟩ | h
  · exact .inl ⟨t, hok, .released ⟨request, t, ha, hok⟩ hreleases⟩
  · exact .inr h

/-- Showing what the linter has found is one of the cases. -/
theorem showLint (strict : Bool) : Happened m (m.before.showLint strict) := by
  have hfold : ∀ (ds : List Diagnostic) (t : Engine γ), ∃ transcript,
      ds.foldl (fun s d => s.emit (.notice d)) t = { t with transcript } := by
    intro ds
    induction ds with
    | nil => exact fun t => ⟨t.transcript, rfl⟩
    | cons d ds ih => exact fun t => ih (t.emit (.notice d))
  obtain ⟨transcript, h⟩ := hfold (m.before.listing.lint strict) m.before
  unfold Engine.showLint
  rw [h]
  exact .aside m.before.machine m.before.errors m.before.options transcript

/-- Obeying a command is one of the cases. -/
theorem obey (s : Engine γ) (c : Command) : Happened (.act s (.command c)) (s.obey c) := by
  cases c with
  | help | shortHelp | quit | load | save => exact .refl
  | option switch value =>
    cases value with
    | some on => exact .aside s.machine s.errors _ s.transcript
    | none => exact .emit _
  | listBreakpoints | showVars => exact .emit _
  | setBreakpoint n => exact (setBreakpoint (.inr rfl)).2
  | clearBreakpoint n => exact (clearBreakpoint (.inr rfl)).2
  | clearBreakpoints => exact .unmarkedAll
  | resume => exact (goingOn (a := .command .resume) rfl).2
  | step => exact (goingOn (a := .command .step) rfl).2
  | backtrace => exact (showCalls (m := .act s (.command .backtrace))).2
  | exit => exact (exitRun (m := .act s (.command .exit))).2
  | lint strict => exact .showLint strict

/-! ### Ticks and entries -/

/-- What is due next is one of the cases. -/
theorem ticked (s : Engine γ) : Happened (.tick s) s.ticked := by
  unfold Engine.ticked
  generalize hr : s.tick = r
  cases hr ▸ tick_cases s with
  | errors => exact .aside s.machine [] s.options s.transcript
  | input | paused | stopped => exact .refl
  | direct d herrors hpending hdirect => exact .carriedOut herrors hpending hdirect
  | program hturn => exact .advanced (m := .tick s) hturn

/-- Deleting a line is one of the cases, also if there is none to delete. -/
theorem delete {text : String} {n : Nat} (hpending : s.pending = none)
    (hentry : Entry.ofText (trimmed text) = .ok (.delete n)) (transcript : Transcript)
    (hquiet : ∀ d, { s with transcript }.notices d = s.notices d) :
    Happened (.act s (.enter text)) ({ s.counted with transcript }.delete n) := by
  unfold Engine.delete
  split
  -- While a run is suspended nothing is deleted, so that the run finds its lines again.
  · exact .noticed hpending _ transcript
  next hmode =>
    split
    next hn => exact .deleted hpending hmode hentry hn transcript
    next =>
      split
      · exact .noticed hpending s.errors transcript
      · exact .misread hpending transcript hquiet _

/-- What becomes of an entry that has been read is one of the cases. -/
theorem accept {text : String} {entry : Entry} (hpending : s.pending = none)
    (hentry : Entry.ofText (trimmed text) = .ok entry) :
    Happened (.act s (.enter text)) (s.counted.accept (trimmed text) entry) := by
  unfold Engine.accept
  cases entry with
  | store n statement =>
    dsimp only
    rw [traced_eq]
    exact .stored hpending hentry _
  | delete n =>
    dsimp only
    rw [traced_eq]
    exact .delete hpending hentry _ (s.counted.notices_traced _)
  | direct statement =>
    dsimp only
    rw [traced_eq]
    exact .putBy hpending hentry _

/-- Entering a text is one of the cases. -/
theorem enter (s : Engine γ) (text : String) :
    Happened (.act s (.enter text)) (s.enter text).2 := by
  cases hpending : s.pending with
  | some q =>
    rw [enter_of_pending hpending]
    exact .answered hpending
  | none =>
    have hnoticed : Happened (.act s (.enter text)) s.counted :=
      .noticed hpending s.errors s.transcript
    rw [enter_of_pending_none hpending]
    split
    · exact hnoticed
    · split
      next d _ => exact .misread hpending s.transcript (fun _ => rfl) d
      next entry hentry =>
        split
        -- In a file that is spoilt texts are read only for their errors.
        · exact hnoticed
        · exact .accept hpending hentry

/-- An interruption is one of the cases. -/
theorem interrupt (s : Engine γ) : Happened (.act s .interrupt) s.interrupt := by
  unfold Engine.interrupt
  split
  next h => exact .interrupted (.inl (Option.isSome_iff_ne_none.1 h)) _
  next =>
    split
    next h => exact .interrupted (.inr h) _
    next => exact .refl

end Happened

/-- **What happens.**  Each moment is one of a few cases. -/
theorem happened (m : Moment γ) : Happened m m.after := by
  cases m with
  | tick s => exact .ticked s
  | act s a =>
    cases a with
    | enter text => exact .enter s text
    | advance => exact .advanced rfl
    | interrupt => exact .interrupt s
    | command c => exact .obey s c
    | resume => exact (Happened.goingOn (a := .resume) rfl).1
    | step => exact (Happened.goingOn (a := .step) rfl).1
    | exit => exact (Happened.exitRun (m := .act s .exit)).1
    | backtrace => exact (Happened.showCalls (m := .act s .backtrace)).1
    | setBreakpoint n => exact (Happened.setBreakpoint (.inl rfl)).1
    | clearBreakpoint n => exact (Happened.clearBreakpoint (.inl rfl)).1
    | beginLoad => exact .beganLoad
    | endLoad => exact .endedLoad
    | reseed generator => exact .aside _ s.errors s.options s.transcript

end Moment

end LineBasic
