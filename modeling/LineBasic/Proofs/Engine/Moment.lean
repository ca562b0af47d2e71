import LineBasic.Proofs.Engine.Request
import LineBasic.Proofs.Engine.Shift

namespace LineBasic

open Engine

/-!
# What moments do

Every moment is a sequence of shifts, but for two things that only the user can ask for.

* `Moment.Releases` -- a suspended run is let go on, by one of the four acts that ask for it;
* `Moment.Marks` -- a breakpoint is set;
* `Moment.Refuses`, `Moment.Fails` -- a run is not let go on, a stored line fails;
* `moment_cases` -- any other moment is a sequence of shifts.
-/

variable {γ : Type} [RandomSource γ]

/-- The request to go on with the suspended run that an act makes. -/
def Act.goingOn? : Act γ → Option (Request γ Unit)
  | .resume | .command .resume => some resumeRun
  | .step | .command .step => some stepRun
  | _ => none

namespace Moment

/-- Whether a request to go on with the suspended run is accepted in a moment. -/
def Releases : Moment γ → Prop
  | act s a => ∃ request t, a.goingOn? = some request ∧ request s = .ok () t
  | tick _ => False

/-- Whether a breakpoint is set on a line in a moment. -/
def Marks (n : Nat) : Moment γ → Prop
  | act s a =>
    (a = .setBreakpoint n ∨ a = .command (.setBreakpoint n)) ∧ ∃ t, setBreakpoint n s = .ok () t
  | tick _ => False

/-- Whether a request to go on with the suspended run is refused in a moment. -/
def Refuses (cause : Cause) : Moment γ → Prop
  | act s a => ∃ request t, a.goingOn? = some request ∧ request s = .error cause t
  | tick _ => False

/-- Whether a stored line is at work in a moment: it is executed, or gets values that it has asked
    for. -/
def Works (m : Moment γ) : Prop :=
  m.executed?.isSome ∨ ∃ s text q, m = .act s (.enter text) ∧ s.pending = some q ∧ q.line.isSome

/-- Whether a stored line fails in a moment, with an error of some code. -/
def Fails (m : Moment γ) (code : Code) : Prop :=
  m.Works ∧ ∃ d, m.after.errors = m.before.errors ++ [d] ∧ d.code = code

end Moment

/-! ### Requests as acts and as commands -/

variable {s t : Engine γ} {request : Request γ Unit}

omit [RandomSource γ] in
/-- A request that is accepted leaves what it comes to. -/
theorem ask?_ok (h : request s = .ok () t) : (s.ask? request).2 = t := by
  simp only [ask?, h]

omit [RandomSource γ] in
/-- A request that is refused leaves what it comes to, without a report. -/
theorem ask?_error {cause : Cause} (h : request s = .error cause t) : (s.ask? request).2 = t := by
  simp only [ask?, h]

omit [RandomSource γ] in
/-- A command that is accepted leaves what its request comes to. -/
theorem perform_ok (h : request s = .ok () t) : s.perform request = t := by
  simp only [perform, h]

omit [RandomSource γ] in
/-- A command that is refused reports the cause. -/
theorem perform_error {cause : Cause} (h : request s = .error cause t) :
    s.perform request = t.report cause.diagnostic := by
  simp only [perform, h]

omit [RandomSource γ] in
/-- A refused request changes nothing but the errors to be collected. -/
theorem shifts_refused {cause : Cause} (h : request s = .error cause s) :
    Shifts s (s.ask? request).2 ∧ Shifts s (s.perform request) := by
  rw [ask?_error h, perform_error h]
  exact ⟨.refl, shifts_report _⟩

omit [RandomSource γ] in
/-- A request that shifts the engine or is refused. -/
theorem shifts_request (h : (∃ t, request s = .ok () t ∧ Shifts s t) ∨
    ∃ cause, request s = .error cause s) :
    Shifts s (s.ask? request).2 ∧ Shifts s (s.perform request) := by
  rcases h with ⟨t, ht, hshifts⟩ | ⟨cause, hcause⟩
  · rw [ask?_ok ht, perform_ok ht]
    exact ⟨hshifts, hshifts⟩
  · exact shifts_refused hcause

omit [RandomSource γ] in
/-- Giving up a suspended run is put together from small changes. -/
theorem shifts_exitRun : Shifts s (s.ask? exitRun).2 ∧ Shifts s (s.perform exitRun) := by
  refine shifts_request ?_
  rw [exitRun_eq]
  split
  · exact .inl ⟨_, rfl, Shift.stop.shifts⟩
  · exact .inr ⟨_, rfl⟩

omit [RandomSource γ] in
/-- Showing the open subroutines is put together from small changes. -/
theorem shifts_showCalls : Shifts s (s.ask? showCalls).2 ∧ Shifts s (s.perform showCalls) := by
  refine shifts_request ?_
  rw [showCalls_eq]
  split
  · exact .inl ⟨_, rfl, shifts_emit _⟩
  · exact .inr ⟨_, rfl⟩

omit [RandomSource γ] in
/-- Removing a breakpoint is put together from small changes. -/
theorem shifts_clearBreakpoint (n : Nat) :
    Shifts s (s.ask? (clearBreakpoint n)).2 ∧ Shifts s (s.perform (clearBreakpoint n)) := by
  refine shifts_request ?_
  rcases clearBreakpoint_cases s n with ⟨b, hb, h⟩ | h
  · exact .inl ⟨_, h, (Shift.unmark n b hb).shifts⟩
  · exact .inr h

omit [RandomSource γ] in
/-- Showing what the linter has found is put together from small changes. -/
theorem shifts_showLint (strict : Bool) : Shifts s (s.showLint strict) := by
  unfold showLint
  generalize s.listing.lint strict = ds
  induction ds generalizing s with
  | nil => exact .refl
  | cons d ds ih => exact (shifts_emit _).trans ih

omit [RandomSource γ] in
/-- Turning a switch is a small change. -/
theorem shifts_turn (switch : Switch) (on : Bool) : Shifts s (s.turn switch on) :=
  (Shift.aside s.machine s.direct s.errors _ s.transcript).shifts

/-! ### The two requests that are more -/

/-- To go on with a suspended run is to resume it or to execute one line of it. -/
theorem eq_of_goingOn? {a : Act γ} (ha : a.goingOn? = some request) :
    request = resumeRun ∨ request = stepRun := by
  unfold Act.goingOn? at ha
  split at ha <;> simp_all

/-- What a request to go on comes to. -/
theorem goingOn_cases {a : Act γ} (ha : a.goingOn? = some request) :
    (∃ t, request s = .ok () t ∧ Engine.Releases s t) ∨ ∃ cause, request s = .error cause s := by
  rcases eq_of_goingOn? ha with rfl | rfl
  · rw [resumeRun_eq]
    split
    next hmode => exact .inl ⟨_, rfl, hmode, s.stepping, rfl⟩
    next => exact .inr ⟨_, rfl⟩
  · rcases stepRun_cases s with ⟨hmode, h⟩ | h
    · exact .inl ⟨_, h, hmode, true, rfl⟩
    · exact .inr h

/-- A moment in which a run is released. -/
theorem Moment.Releases.releases {m : Moment γ} (h : m.Releases) :
    Engine.Releases m.before m.after := by
  cases m with
  | tick s => exact absurd h id
  | act s a =>
    obtain ⟨request, t, ha, hok⟩ := h
    rcases goingOn_cases ha with ⟨t', hok', hreleases⟩ | ⟨cause, herror⟩
    · have hafter : (s.respond a).2 = t' := by
        unfold Act.goingOn? at ha
        split at ha <;> cases ha
        · exact ask?_ok hok'
        · exact perform_ok hok'
        · exact ask?_ok hok'
        · exact perform_ok hok'
      show Engine.Releases s (s.respond a).2
      rw [hafter]
      exact hreleases
    · rw [herror] at hok
      cases hok

/-- A request to go on releases a run, or is refused. -/
theorem shifts_or_releases {a : Act γ} (ha : a.goingOn? = some request) :
    Shifts s (s.ask? request).2 ∧ Shifts s (s.perform request) ∨ (Moment.act s a).Releases := by
  rcases goingOn_cases (s := s) ha with ⟨t, hok, -⟩ | ⟨cause, herror⟩
  · exact .inr ⟨request, t, ha, hok⟩
  · exact .inl (shifts_refused herror)

omit [RandomSource γ] in
/-- A request to set a breakpoint sets it, or is refused. -/
theorem shifts_or_marks {a : Act γ} {n : Nat}
    (ha : a = .setBreakpoint n ∨ a = .command (.setBreakpoint n)) :
    Shifts s (s.ask? (setBreakpoint n)).2 ∧ Shifts s (s.perform (setBreakpoint n)) ∨
      (Moment.act s a).Marks n := by
  rcases setBreakpoint_cases s n with ⟨b, -, hok⟩ | ⟨cause, herror⟩
  · exact .inr ⟨ha, _, hok⟩
  · exact .inl (shifts_refused herror)

/-- A moment in which a breakpoint is set. -/
theorem Moment.Marks.marks {m : Moment γ} {n : Nat} (h : m.Marks n) :
    Engine.Marks m.before m.after := by
  cases m with
  | tick s => exact absurd h id
  | act s a =>
    obtain ⟨ha, t, hok⟩ := h
    rcases setBreakpoint_cases s n with ⟨b, hb, hok'⟩ | ⟨cause, herror⟩
    · have hafter : (s.respond a).2 = { s with breakpoints := b } := by
        rcases ha with rfl | rfl
        · exact ask?_ok hok'
        · exact perform_ok hok'
      exact ⟨n, b, hb, hafter⟩
    · rw [herror] at hok
      cases hok

/-! ### Any moment -/

/-- A command shifts the engine, or releases a suspended run, or sets a breakpoint. -/
theorem obey_cases (s : Engine γ) (c : Command) :
    Shifts s (s.obey c) ∨ (Moment.act s (.command c)).Releases ∨
      ∃ n, (Moment.act s (.command c)).Marks n := by
  -- Only two commands release a suspended run, and only one sets a breakpoint.
  cases c with
  | help | shortHelp | quit | load | save => exact .inl .refl
  | option switch value =>
    cases value with
    | some on => exact .inl (shifts_turn switch on)
    | none => exact .inl (shifts_emit _)
  | listBreakpoints => exact .inl (shifts_emit _)
  | setBreakpoint n =>
    rcases shifts_or_marks (s := s) (a := .command (.setBreakpoint n)) (.inr rfl) with h | h
    · exact .inl h.2
    · exact .inr (.inr ⟨n, h⟩)
  | clearBreakpoint n => exact .inl (shifts_clearBreakpoint n).2
  | clearBreakpoints => exact .inl Shift.unmarkAll.shifts
  | resume =>
    rcases shifts_or_releases (s := s) (a := .command .resume) rfl with h | h
    · exact .inl h.2
    · exact .inr (.inl h)
  | step =>
    rcases shifts_or_releases (s := s) (a := .command .step) rfl with h | h
    · exact .inl h.2
    · exact .inr (.inl h)
  | showVars => exact .inl (shifts_emit _)
  | backtrace => exact .inl shifts_showCalls.2
  | exit => exact .inl shifts_exitRun.2
  | lint strict => exact .inl (shifts_showLint strict)

/-- **What a moment does.**  It shifts the engine, or releases a suspended run, or sets a
    breakpoint. -/
theorem moment_cases (m : Moment γ) :
    Shifts m.before m.after ∨ m.Releases ∨ ∃ n, m.Marks n := by
  cases m with
  | tick s => exact .inl (shifts_ticked s)
  | act s a =>
    cases a with
    | enter text => exact .inl (shifts_enter s text)
    | advance => exact .inl (shifts_advance s)
    | interrupt => exact .inl (shifts_interrupt s)
    | command c => exact obey_cases s c
    | resume =>
      rcases shifts_or_releases (s := s) (a := .resume) rfl with h | h
      · exact .inl h.1
      · exact .inr (.inl h)
    | step =>
      rcases shifts_or_releases (s := s) (a := .step) rfl with h | h
      · exact .inl h.1
      · exact .inr (.inl h)
    | exit => exact .inl shifts_exitRun.1
    | backtrace => exact .inl shifts_showCalls.1
    | setBreakpoint n =>
      rcases shifts_or_marks (s := s) (a := .setBreakpoint n) (.inl rfl) with h | h
      · exact .inl h.1
      · exact .inr (.inr ⟨n, h⟩)
    | clearBreakpoint n => exact .inl (shifts_clearBreakpoint n).1
    | beginLoad => exact .inl Shift.beginLoad.shifts
    | endLoad => exact .inl Shift.endLoad.shifts
    | reseed generator => exact .inl (shifts_machine _)

end LineBasic
