import LineBasic.Proofs.Engine.Account
import LineBasic.Proofs.Engine.Happened
import LineBasic.Proofs.Engine.Suspended
import LineBasic.Proofs.Expr.Accesses

namespace LineBasic

open Engine

/-!
# The machine in a moment

Statements and answers change the machine.  Nothing else does, except that loading a file wipes the
memory and that the random source may be replaced.

* `Moment.carried?`, `Moment.CarriesOut.machine` -- a statement that is carried out settles what the
  machine is;
* `Engine.SparesMachine` -- requests leave the machine as it is, the look ahead before a single step
  included;
* `Engine.obey_machine`, `Engine.interrupt_machine`, `Engine.enter_machine` -- so do commands,
  interruptions, and texts that are no answers;
* `Moment.machine_of_isAdvance`, `Moment.ticked_machine` -- so do ticks and `advance` where no
  statement is carried out.
-/

variable {γ : Type} [RandomSource γ]

namespace Engine

variable {s : Engine γ}

/-! ### Statements that are carried out -/

/-- A direct statement does to the machine what carrying it out does. -/
theorem carryOut_machine (s : Engine γ) (d : DirectStatement) :
    (s.carryOut d).machine = (left (execute none d.statement s)).machine := by
  unfold carryOut
  cases execute none d.statement s with
  | ok u t => rfl
  | error fault t => exact fail_machine t _

/-- A program line does to the machine what carrying out its statement does. -/
theorem executeLine_machine (s : Engine γ) (line : Line) :
    (s.executeLine line).2.machine =
      (left (execute (some line.number) line.statement (s.begun line))).machine := by
  generalize hr : s.executeLine line = r
  cases hr ▸ executeLine_cases s line with
  | failed fault t hexecute =>
    rw [hexecute, fail_machine, timed_machine]
    rfl
  | ended t hexecute | asked t hexecute =>
    rw [hexecute, timed_machine]
    rfl
  | finished t hexecute =>
    rw [hexecute, finishLine_machine, timed_machine]
    rfl

/-! ### Texts and lines -/

omit [RandomSource γ] in
/-- Tracing leaves the machine alone. -/
theorem traced_machine (s : Engine γ) (text : String) : (s.traced text).machine = s.machine := by
  rw [traced_eq]

omit [RandomSource γ] in
/-- What becomes of an entry when it is entered leaves the machine alone. -/
theorem accept_machine (s : Engine γ) (source : String) (entry : Entry) :
    (s.accept source entry).machine = s.machine := by
  cases entry with
  | store n statement => exact traced_machine s _
  | direct statement => exact traced_machine s _
  | delete n =>
    rw [← traced_machine s ("delete " ++ Text.ofNat n)]
    show ((s.traced ("delete " ++ Text.ofNat n)).delete n).machine = _
    unfold delete
    split
    · rfl
    split
    · rfl
    split
    · rfl
    · exact fail_machine _ _

/-- Where no line is executed `advance` leaves the machine as it is. -/
theorem advance_machine (h : s.executed? = none) : s.advance.2.machine = s.machine := by
  generalize hr : s.advance = r
  cases hr ▸ advance_cases s with
  | idle | waiting => rfl
  | lost => exact fail_machine s _
  | stopped line => rw [pauseAt_eq]
  | executed line hopen => cases (executed?_eq_some.2 hopen).symm.trans h

/-- Entering a text leaves the machine alone, unless it answers a question. -/
theorem enter_machine (hpending : s.pending = none) (text : String) :
    (s.enter text).2.machine = s.machine := by
  rw [enter_of_pending_none hpending]
  split
  · rfl
  split
  · exact fail_machine _ _
  split
  · rfl
  · exact accept_machine _ _ _

omit [RandomSource γ] in
/-- An interruption leaves the machine alone. -/
theorem interrupt_machine (s : Engine γ) : s.interrupt.machine = s.machine := by
  unfold interrupt
  split
  · exact fail_machine _ _
  split
  · exact fail_machine _ _
  · rfl

/-! ### Requests -/

/-- Whether a request leaves the machine as it is, be it accepted or refused. -/
def SparesMachine (request : Request γ Unit) : Prop := ∀ s, (left (request s)).machine = s.machine

section Requests

variable {request : Request γ Unit}

omit [RandomSource γ] in
/-- A request that spares the machine does so when it is asked directly. -/
theorem SparesMachine.ask? (h : SparesMachine request) (s : Engine γ) :
    (s.ask? request).2.machine = s.machine := by
  rw [← h s]
  unfold Engine.ask?
  cases request s <;> rfl

omit [RandomSource γ] in
/-- A request that spares the machine does so as a command. -/
theorem SparesMachine.perform (h : SparesMachine request) (s : Engine γ) :
    (s.perform request).machine = s.machine := by
  rw [← h s]
  unfold Engine.perform
  cases request s <;> rfl

omit [RandomSource γ] in
/-- Giving up a suspended run spares the machine. -/
theorem sparesMachine_exitRun : SparesMachine (γ := γ) exitRun := by
  intro s
  rw [exitRun_eq]
  split
  · exact stop_machine s
  · rfl

omit [RandomSource γ] in
/-- Showing the open subroutines spares the machine. -/
theorem sparesMachine_showCalls : SparesMachine (γ := γ) showCalls := by
  intro s
  rw [showCalls_eq]
  split <;> rfl

omit [RandomSource γ] in
/-- Setting a breakpoint spares the machine. -/
theorem sparesMachine_setBreakpoint (n : Nat) : SparesMachine (γ := γ) (setBreakpoint n) := by
  intro s
  rcases setBreakpoint_cases s n with ⟨b, -, h⟩ | ⟨cause, h⟩ <;> rw [h] <;> rfl

omit [RandomSource γ] in
/-- Removing a breakpoint spares the machine. -/
theorem sparesMachine_clearBreakpoint (n : Nat) : SparesMachine (γ := γ) (clearBreakpoint n) := by
  intro s
  rcases clearBreakpoint_cases s n with ⟨b, -, h⟩ | ⟨cause, h⟩ <;> rw [h] <;> rfl

/-- Letting a run go on leaves the machine as it is, and so does the look ahead before a single
    step. -/
theorem sparesMachine_goingOn {a : Act γ} (ha : a.goingOn? = some request) :
    SparesMachine request := by
  intro s
  rcases goingOn_cases (s := s) ha with ⟨t, h, -, stepping, rfl⟩ | ⟨cause, h⟩ <;> rw [h] <;> rfl

end Requests

omit [RandomSource γ] in
/-- Showing what the linter has found leaves the machine alone. -/
theorem showLint_machine (s : Engine γ) (strict : Bool) :
    (s.showLint strict).machine = s.machine := by
  unfold showLint
  generalize s.listing.lint strict = ds
  induction ds generalizing s with
  | nil => rfl
  | cons d ds ih => exact ih (s.emit (.notice d))

/-- **Commands.**  Obeying a command leaves the machine alone, a single step included. -/
theorem obey_machine (s : Engine γ) (c : Command) : (s.obey c).machine = s.machine := by
  cases c with
  | help | shortHelp | quit | load | save | listBreakpoints | showVars | clearBreakpoints => rfl
  | option switch value => cases value <;> rfl
  | setBreakpoint n => exact (sparesMachine_setBreakpoint n).perform s
  | clearBreakpoint n => exact (sparesMachine_clearBreakpoint n).perform s
  | resume => exact (sparesMachine_goingOn (a := .command .resume) rfl).perform s
  | step => exact (sparesMachine_goingOn (a := .command .step) rfl).perform s
  | backtrace => exact sparesMachine_showCalls.perform s
  | exit => exact sparesMachine_exitRun.perform s
  | lint strict => exact showLint_machine s strict

end Engine

/-! ### Moments -/

namespace Moment

variable {k : Moment γ} {line : Option Nat} {statement : Statement}

/-- The statement that is carried out in a moment, with the line on whose behalf it is. -/
def carried? (k : Moment γ) : Option (Option Nat × Statement) :=
  (k.direct?.map fun d => (none, d.statement)).or
    (k.executed?.map fun line => (some line.number, line.statement))

omit [RandomSource γ] in
/-- The statement that is carried out in a moment can be computed. -/
theorem carried?_eq_some : k.carried? = some (line, statement) ↔ k.CarriesOut line statement := by
  unfold carried?
  constructor
  · intro h
    cases hd : k.direct? with
    | some d =>
      rw [hd] at h
      cases h
      cases k with
      | act => cases hd
      | tick s =>
        obtain ⟨⟨herrors, hpending⟩, hdirect⟩ := Option.ite_none_right_eq_some.1 hd
        exact .direct herrors hpending hdirect
    | none =>
      rw [hd] at h
      obtain ⟨line, hexecuted, h⟩ := Option.map_eq_some_iff.1 h
      cases h
      exact .line hexecuted
  · rintro (⟨hexecuted⟩ | ⟨herrors, hpending, hdirect⟩)
    · -- The program has its turn only if no direct statement waits.
      have hnone : k.direct? = none := by
        cases k with
        | act => rfl
        | tick s =>
          have hdirect := (isProgramTurn_iff.1 (isAdvance_of_executed hexecuted)).2.2.1
          simp [direct?, hdirect]
      rw [hnone, hexecuted]
      rfl
    · simp [direct?, herrors, hpending, hdirect]

/-- A statement that is carried out in a moment leaves its machine. -/
theorem CarriesOut.machine (h : k.CarriesOut line statement) :
    ∃ t, t.view = k.before.view ∧ t.machine = k.before.machine ∧
      k.after.machine = (left (execute line statement t)).machine := by
  cases h with
  | line hexecuted =>
    obtain ⟨hafter, hsame⟩ := isAdvance_spec (isAdvance_of_executed hexecuted)
    rw [hsame, executed?_eq_some] at hexecuted
    rw [hafter, advance_of_isOpen hexecuted, executeLine_machine]
    refine ⟨_, ?_, ?_, rfl⟩
    · rw [begun_eq]
      rfl
    · rw [begun_eq]
  | @direct s d herrors hpending hdirect =>
    refine ⟨{ s with direct := none }, rfl, rfl, ?_⟩
    rw [← carryOut_machine]
    exact congrArg Engine.machine (ticked_of_direct herrors hpending hdirect)

omit [RandomSource γ] in
/-- Where no statement is found to be carried out, none is. -/
theorem not_carriesOut (h : k.carried? = none) : ¬ k.CarriesOut line statement := fun hcarries => by
  cases h.symm.trans (carried?_eq_some.2 hcarries)

/-- Where no line is executed a call of `advance` leaves the machine as it is. -/
theorem machine_of_isAdvance (hadvance : k.isAdvance) (h : k.carried? = none) :
    k.after.machine = k.before.machine := by
  obtain ⟨hafter, hsame⟩ := isAdvance_spec hadvance
  rw [hafter]
  refine advance_machine ?_
  cases hexecuted : k.before.executed? with
  | none => rfl
  | some line => exact absurd (.line (hsame.trans hexecuted)) (not_carriesOut h)

/-- A tick in which no statement is carried out leaves the machine alone. -/
theorem ticked_machine {s : Engine γ} (h : (tick s).carried? = none) :
    s.ticked.machine = s.machine := by
  unfold ticked
  generalize hr : s.tick = r
  cases hr ▸ tick_cases s with
  | errors | input | paused | stopped => rfl
  | direct d herrors hpending hdirect =>
    exact absurd (.direct herrors hpending hdirect) (not_carriesOut h)
  | program hturn =>
    rw [← ticked_of_isProgramTurn hturn]
    exact machine_of_isAdvance (k := tick s) hturn h

end Moment

end LineBasic
