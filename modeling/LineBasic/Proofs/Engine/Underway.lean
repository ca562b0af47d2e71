import LineBasic.Proofs.Engine.Located
import LineBasic.Proofs.Engine.Moment

namespace LineBasic

open Engine

/-!
# Runs under supervision

A run to which nothing happens but work, answers to its questions and releases where it is suspended
never gets to a line that is not stored.

* `IsSupervised` -- the moments of such a run;
* `Underway` -- what can be relied on in such a run;
* `underway_carryOut` -- a direct statement puts an idle engine in this state;
* `underway_after` -- every supervised moment leaves an engine in it.
-/

variable {γ : Type} {s t : Engine γ} {line : Line}

namespace Engine

/-- Whether a run is suspended, or has been let go on and not yet gone on. -/
def IsHeld (s : Engine γ) : Prop := s.mode = .paused ∨ s.mode = .running ∧ s.resume = true

/-- An engine without a direct statement whose run, if there is one, cannot get lost. -/
structure Underway (s : Engine γ) : Prop where
  direct : s.direct = none
  /-- A run that waits for values is not held up. -/
  pending : s.pending ≠ none → ¬ s.IsHeld
  located : ¬ s.isIdle → s.Located

/-- Without a run there is none to be held. -/
theorem not_isHeld_of_isIdle (h : s.isIdle) : ¬ s.IsHeld := by
  rintro (hmode | ⟨hmode, -⟩)
  · simp [isIdle, hmode] at h
  · simp [isIdle, hmode] at h

/-- An idle engine without a direct statement cannot get lost. -/
theorem underway_of_isIdle (hidle : s.isIdle) (hdirect : s.direct = none) : s.Underway :=
  ⟨hdirect, fun _ => not_isHeld_of_isIdle hidle, fun h => absurd hidle h⟩

/-- A failure ends the run, so that it cannot get lost. -/
theorem underway_fail (hdirect : s.direct = none) (hmode : s.mode ≠ .paused) (d : Diagnostic) :
    (s.fail d).Underway :=
  underway_of_isIdle (s.fail_isIdle d hmode) (by rw [fail_direct, hdirect])

/-! ### Going on -/

/-- A run that goes on after a line waits for nothing. -/
theorem underway_finishLine (hdirect : s.direct = none) (hmode : s.mode = .running)
    (hpending : s.pending = none) (hplace : s.finishLine.2.InPlace) : s.finishLine.2.Underway := by
  generalize hr : s.finishLine = r at hplace ⊢
  cases hr ▸ finishLine_cases s with
  | moved | stepped => exact ⟨hdirect, fun h => absurd hpending h, hplace⟩
  | fellOff => exact underway_fail hdirect (by rw [hmode]; simp) _

variable [RandomSource γ]

/-- A run that executes its line does not get lost. -/
theorem underway_executeLine (hs : s.Underway) (hopen : s.IsOpen line) :
    ({ s with resume := false }.executeLine line).2.Underway := by
  have hmode := hopen.1
  have hpending := hopen.2.1
  have hplace := inPlace_executeLine (hs.located (not_isIdle_iff.2 (.inl hmode))) hopen
  have hworked := executeLine_worked { s with resume := false } line hmode hpending
  generalize ({ s with resume := false }.executeLine line).2 = t at hworked hplace
  cases hworked with
  | failed fault u machine transcript d =>
    let v : Engine γ := { s with resume := false, machine, transcript, branch := none }
    have hv : v.mode ≠ .paused := by
      show s.mode ≠ .paused
      simp [hmode]
    exact underway_fail (s := v) hs.direct hv d
  | ended u t _ _ hidle _ hdirect => exact underway_of_isIdle hidle (hdirect.trans hs.direct)
  | asked u machine queue q transcript =>
    refine ⟨hs.direct, fun _ => ?_, hplace⟩
    rintro (h | ⟨-, h⟩)
    · simp [hmode] at h
    · cases h
  | finished u machine queue transcript =>
    let v : Engine γ :=
      { s with resume := false, machine, calls := u.calls, branch := u.branch, queue, transcript }
    exact underway_finishLine (s := v) hs.direct hmode hpending hplace

/-! ### Answers and direct statements -/

/-- A run whose question is answered does not get lost. -/
theorem underway_enter (hs : s.Underway) {q : Inquiry} (hq : s.pending = some q) (text : String) :
    (s.enter text).2.Underway := by
  have hheld : ¬ s.IsHeld := hs.pending (by simp [hq])
  have hmode : s.mode ≠ .paused := fun h => hheld (.inl h)
  let c : Engine γ := s.counted
  have hc : c.InPlace := InPlace.same hs.located rfl rfl rfl rfl rfl
  have hplace := inPlace_answer hc q text
  rw [enter_of_pending hq]
  show (c.answer q text).Underway
  generalize hr : c.answer q text = r at hplace ⊢
  cases hr ▸ answer_cases c q text with
  | failed machine d =>
    exact underway_fail (s := { c with machine, pending := none }) hs.direct hmode d
  | more => exact ⟨hs.direct, fun _ => hheld, hplace⟩
  | resumed machine transcript _ hrunning =>
    let v : Engine γ := { c with machine, transcript, pending := none }
    exact underway_finishLine (s := v) hs.direct hrunning rfl hplace
  | finished => exact ⟨hs.direct, fun h => absurd rfl h, hplace⟩

/-- A direct statement begins a run at a stored line, or leaves the engine idle. -/
theorem underway_carryOut (hidle : s.isIdle) (hdirect : s.direct = none) (d : DirectStatement) :
    (s.carryOut d).Underway := by
  obtain ⟨outcome, machine, hfit, hexecute⟩ := execute_uniform d.statement none s.view s.machine
  let v : Engine γ := { s with machine }
  have hv : v.Underway := underway_of_isIdle hidle hdirect
  unfold carryOut
  rw [hexecute s rfl rfl]
  cases outcome with
  | error fault =>
    have hmode : v.mode ≠ .paused := fun h => not_isHeld_of_isIdle hidle (.inl h)
    exact underway_fail (s := v) hdirect hmode _
  | ok effect =>
    show (effect.apply none v).Underway
    -- Only an effect that launches a run leaves the engine other than idle.
    cases effect with
    | nothing | assign | write | jump => exact underway_of_isIdle hidle hdirect
    | ask xs =>
      show (Engine.ask none v xs).Underway
      rcases ask_cases none v xs with ⟨m, queue, h⟩ | ⟨m, queue, q, -, h⟩
      · rw [h]
        exact underway_of_isIdle hidle hdirect
      · rw [h]
        exact underway_of_isIdle hidle hdirect
    | clear => exact underway_of_isIdle (stop_isIdle _) ((stop_direct _).trans hdirect)
    | halt => exact underway_of_isIdle (stop_isIdle _) ((stop_direct _).trans hdirect)
    | restart => cases hfit
    | launch queue n =>
      refine ⟨hdirect, fun _ => ?_, fun _ => ⟨hfit.2.2, nofun, nofun⟩⟩
      rintro (h | ⟨-, h⟩)
      · cases h
      · cases h

/-! ### Ticks -/

/-- A run that goes on does not get lost. -/
theorem underway_advance (hs : s.Underway) : s.advance.2.Underway := by
  have hplace := inPlace_advance hs.located
  generalize hr : s.advance = r at hplace ⊢
  cases hr ▸ advance_cases s with
  | idle | waiting => exact hs
  | lost hmode => exact underway_fail hs.direct (by rw [hmode]; simp) _
  | stopped line hmode hpending =>
    rw [pauseAt_eq] at hplace ⊢
    exact ⟨hs.direct, fun h => absurd hpending h, hplace⟩
  | executed line hopen => exact underway_executeLine hs hopen

/-- Whatever is due next, the run does not get lost. -/
theorem underway_ticked (hs : s.Underway) : s.ticked.Underway := by
  unfold ticked
  generalize hr : s.tick = r
  cases hr ▸ tick_cases s with
  | errors => exact ⟨hs.direct, hs.pending, fun h => ⟨(hs.located h).cursor, (hs.located h).frames,
      (hs.located h).branch⟩⟩
  | input | paused | stopped => exact hs
  | direct d _ _ hdirect => simp [hs.direct] at hdirect
  | program => exact underway_advance hs

end Engine

/-! ### Supervised moments -/

variable [RandomSource γ]

/-- Whether nothing is done in a moment but to work, to answer a question, or to release a suspended
    run. -/
def Moment.IsSupervised : Moment γ → Prop
  | tick _ => True
  | act _ .advance => True
  | act s (.enter _) => s.pending.isSome
  | act s a => (act s a).Releases

/-- What a supervised moment is. -/
theorem Moment.IsSupervised.cases {m : Moment γ} (h : m.IsSupervised) :
    (∃ s, m = .tick s) ∨ (∃ s, m = .act s .advance) ∨
      (∃ s text q, m = .act s (.enter text) ∧ s.pending = some q) ∨ m.Releases := by
  cases m with
  | tick s => exact .inl ⟨s, rfl⟩
  | act s a =>
    cases a with
    | advance => exact .inr (.inl ⟨s, rfl⟩)
    | enter text =>
      obtain ⟨q, hq⟩ := Option.isSome_iff_exists.1 h
      exact .inr (.inr (.inl ⟨s, text, q, rfl, hq⟩))
    | _ => exact .inr (.inr (.inr h))

/-- Where nothing is done, no more is done than supervising. -/
theorem supervised_nil {s : Engine γ} : ∀ m ∈ s.trail [], m.IsSupervised := by
  intro m hm
  cases hm

/-- To work on a run is to supervise it. -/
theorem supervised_poll {s : Engine γ} {budget : Nat} {ops : List (Operation γ)}
    (h : ∀ m ∈ (poll budget s).2.trail ops, m.IsSupervised) :
    ∀ m ∈ s.trail (.poll budget :: ops), m.IsSupervised := by
  have hticks : ∀ (budget : Nat) (s : Engine γ), ∀ m ∈ ticks budget s, m.IsSupervised := by
    intro budget
    induction budget with
    | zero => intro s m hm; cases hm
    | succ budget ih =>
      intro s m hm
      rcases List.mem_cons.1 hm with rfl | hm
      · trivial
      · split at hm
        · cases hm
        · exact ih _ m hm
  intro m hm
  rcases List.mem_append.1 hm with hm | hm
  · exact hticks budget s m hm
  · exact h m hm

/-- A run is supervised if the first act is of the right kind and so is what follows. -/
theorem supervised_act {s : Engine γ} {a : Act γ} {ops : List (Operation γ)}
    (ha : (Moment.act s a).IsSupervised) (h : ∀ m ∈ (s.respond a).2.trail ops, m.IsSupervised) :
    ∀ m ∈ s.trail (.act a :: ops), m.IsSupervised := by
  intro m hm
  rcases List.mem_cons.1 hm with rfl | hm
  · exact ha
  · exact h m hm

omit [RandomSource γ] in
/-- A run that is released is at a stored line, as it was when it was suspended. -/
theorem underway_released {s t : Engine γ} (h : Engine.Releases s t) (hs : s.Underway) :
    t.Underway := by
  obtain ⟨hmode, stepping, rfl⟩ := h
  have hlocated := hs.located (not_isIdle_iff.2 (.inr hmode))
  refine ⟨hs.direct, fun hpending => absurd (.inl hmode) (hs.pending hpending), fun _ => ?_⟩
  exact ⟨hlocated.cursor, hlocated.frames, hlocated.branch⟩

/-- **Supervised moments.**  A run under supervision does not get lost. -/
theorem underway_after {m : Moment γ} (hm : m.IsSupervised) (hs : m.before.Underway) :
    m.after.Underway := by
  rcases hm.cases with ⟨s, rfl⟩ | ⟨s, rfl⟩ | ⟨s, text, q, rfl, hq⟩ | hreleases
  · exact underway_ticked hs
  · exact underway_advance hs
  · exact underway_enter hs hq text
  · exact underway_released hreleases.releases hs

end LineBasic
