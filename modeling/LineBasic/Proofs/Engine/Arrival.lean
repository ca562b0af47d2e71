import LineBasic.Proofs.Engine.Moment
import LineBasic.Random.ChaCha

namespace LineBasic

open Engine

/-!
# Arriving at breakpoints

A run never goes through a line with a breakpoint, unless it was suspended there and has been let go
on.

* `Steady` -- a program line that waits for values has used up any release;
* `Shift.resume_back` -- a release lasts only as long as the cursor stays, and no line is executed;
* `ReleasedAt` -- what the moments of the past must look like for a release to be in force;
* `executed_after_release` -- the main result, over all sequences of operations.
-/

variable {γ : Type} {s t : Engine γ}

/-- An engine in which no release is in force while a program line waits for values, which it does
    only in a run. -/
def Engine.Steady (s : Engine γ) : Prop :=
  ∀ q, s.pending = some q → q.line.isSome → s.mode = .running ∧ s.resume = false

/-! ### Shifts -/

/-- Where no question is pending, nothing waits for values. -/
theorem steady_of_pending_eq_none (h : s.pending = none) : s.Steady :=
  fun q hq => by simp [h] at hq

/-- Small changes put no release in force while a line waits for values. -/
theorem Engine.Shift.steady (h : Shift s t) (hs : s.Steady) : t.Steady := by
  cases h with
  | wait q hline =>
    intro q' hq' hsome
    obtain rfl : q = q' := Option.some.inj hq'
    rcases hline hsome with ⟨hmode, hresume, -⟩ | ⟨q'', hq'', heq⟩
    · exact ⟨hmode, hresume⟩
    · exact hs q'' hq'' (heq ▸ hsome)
  | stop | wipe | beginLoad => exact steady_of_pending_eq_none (stop_pending _)
  | unwait | move => exact steady_of_pending_eq_none rfl
  | pause _ hpending | spoil _ _ hpending | depart _ hpending =>
    exact steady_of_pending_eq_none hpending
  | launch => exact fun q hq hsome => ⟨rfl, rfl⟩
  | restart hmode =>
    rw [rewind_eq]
    exact hs
  | endLoad =>
    intro q hq hsome
    obtain ⟨hmode, hresume⟩ := hs q hq hsome
    refine ⟨?_, hresume⟩
    show (if s.mode = .loading ∨ s.mode = .loadFailed then Mode.prompt else s.mode) = .running
    rw [if_neg (by simp [hmode]), hmode]
  | _ => exact hs

/-- A release that is in force after a shift was in force before it, and at the same line. -/
theorem Engine.Shift.resume_back (h : Shift s t) (hs : s.Steady) (ht : t.resume = true) :
    s.resume = true ∧ t.cursor = s.cursor := by
  cases h with
  | stop | wipe | beginLoad => exact absurd ((stop_resume _).symm.trans ht) (by decide)
  | launch | depart => exact absurd ht (by simp [startRun])
  | restart =>
    rw [rewind_eq] at ht ⊢
    exact ⟨ht, rfl⟩
  | move n hmode hpending =>
    -- The cursor moves on after a line, which has used up any release.
    have hfalse : s.resume = false := by
      rcases hpending with ⟨-, hresume⟩ | ⟨q, hq, hsome⟩
      · exact hresume
      · exact (hs q hq hsome).2
    exact absurd ht (by simp [hfalse])
  | _ => exact ⟨ht, rfl⟩

/-- The same for several shifts. -/
theorem Engine.Shifts.resume_back (h : Shifts s t) (hs : s.Steady) :
    t.Steady ∧ (t.resume = true → s.resume = true ∧ t.cursor = s.cursor) := by
  induction h with
  | refl => exact ⟨hs, fun ht => ⟨ht, rfl⟩⟩
  | tail _ hshift ih =>
    obtain ⟨hsteady, hback⟩ := ih
    refine ⟨hshift.steady hsteady, fun ht => ?_⟩
    obtain ⟨hresume, hcursor⟩ := hshift.resume_back hsteady ht
    obtain ⟨hfirst, hcursor'⟩ := hback hresume
    exact ⟨hfirst, hcursor.trans hcursor'⟩

/-! ### Moments -/

variable [RandomSource γ]

/-- Whether a run comes to a stored line in a moment. -/
def Moment.ComesTo (m : Moment γ) (n : Nat) : Prop :=
  m.isAdvance ∧ m.before.mode = .running ∧ m.before.pending = none ∧ m.before.cursor = n ∧
    m.before.listing.contains n

/-- Once a line has been executed no release is in force. -/
theorem Moment.resume_of_executed {m : Moment γ} {line : Line} (h : m.executed? = some line) :
    m.after.resume = false := by
  obtain ⟨hafter, hexecuted⟩ := isAdvance_spec (isAdvance_of_executed h)
  have hopen := executed?_eq_some.1 (hexecuted ▸ h)
  rw [hafter, advance_of_isOpen hopen]
  have hshifts :=
    shifts_executeLine (s := { m.before with resume := false }) hopen.1 hopen.2.1 hopen.2.2.1
  exact hshifts.resume_eq_false rfl

/-! ### Histories -/

/-- Whether a suspended run was released at a line in the past, and no line has been executed
    since. -/
def ReleasedAt (past : List (Moment γ)) (n : Nat) : Prop :=
  ∃ earlier r between, past = earlier ++ r :: between ∧
    r.Releases ∧ r.before.mode = .paused ∧ r.before.cursor = n ∧ ∀ k ∈ between, k.executed? = none

/-- A release stays the last one as long as no line is executed. -/
theorem ReleasedAt.snoc {past : List (Moment γ)} {m : Moment γ} {n : Nat} (h : ReleasedAt past n)
    (hm : m.executed? = none) : ReleasedAt (past ++ [m]) n := by
  obtain ⟨earlier, r, between, rfl, hreleases, hmode, hcursor, hnone⟩ := h
  refine ⟨earlier, r, between ++ [m], by simp, hreleases, hmode, hcursor, fun k hk => ?_⟩
  rcases List.mem_append.1 hk with hk | hk
  · exact hnone k hk
  · rw [List.mem_singleton.1 hk]
    exact hm

/-- What the past has to do with the engine: a release is in force only after a release at the
    cursor. -/
def Recorded (past : List (Moment γ)) (s : Engine γ) : Prop :=
  s.Steady ∧ (s.resume = true → ReleasedAt past s.cursor)

/-- **One moment.**  A release that is in force after it was on record before it, or is made in
    it. -/
theorem recorded_snoc {past : List (Moment γ)} {m : Moment γ} (h : Recorded past m.before) :
    Recorded (past ++ [m]) m.after := by
  obtain ⟨hsteady, hrecord⟩ := h
  rcases moment_cases m with hshifts | hreleases | ⟨n, hmarks⟩
  · obtain ⟨hafter, hback⟩ := hshifts.resume_back hsteady
    refine ⟨hafter, fun hresume => ?_⟩
    obtain ⟨hbefore, hcursor⟩ := hback hresume
    rw [hcursor]
    refine (hrecord hbefore).snoc ?_
    -- Had a line been executed, the release would not be in force afterwards.
    cases hexecuted : m.executed? with
    | none => rfl
    | some line => simp [Moment.resume_of_executed hexecuted] at hresume
  · obtain ⟨hmode, stepping, hafter⟩ := hreleases.releases
    rw [hafter]
    refine ⟨fun q hq hsome => ?_, fun _ => ⟨past, m, [], rfl, hreleases, hmode, rfl, by simp⟩⟩
    -- A suspended run does not wait for the values of one of its lines.
    simp [(hsteady q hq hsome).1] at hmode
  · obtain ⟨-, b, -, hafter⟩ := hmarks.marks
    rw [hafter]
    refine ⟨hsteady, fun hresume => (hrecord hresume).snoc ?_⟩
    cases m with
    | tick s => exact absurd hmarks id
    | act s a =>
      rcases hmarks.1 with rfl | rfl
      · rfl
      · rfl

/-- A release that is in force after some operations was given at the cursor. -/
theorem recorded_path {generator : γ} {past : List (Moment γ)} (h : Path (start generator) past s) :
    Recorded past s :=
  h.history_induction (I := Recorded) ⟨steady_of_pending_eq_none rfl, nofun⟩ fun _ _ =>
    recorded_snoc

/-- **Main result.**  In every sequence of operations, a moment that executes a line with a
    breakpoint is the first to execute a line after a request to go on that was accepted while the
    run was suspended at that line.  Otherwise a run that comes to a line with a breakpoint is
    suspended there, and keeps all that it works on. -/
theorem executed_after_release (generator : γ) (ops : List (Operation γ))
    {past future : List (Moment γ)} {m : Moment γ}
    (htrail : (start generator).trail ops = past ++ m :: future) :
    (∀ line, m.executed? = some line → line.number ∈ m.before.breakpoints.lines →
        ReleasedAt past line.number) ∧
      ∀ n, m.ComesTo n → n ∈ m.before.breakpoints.lines → m.executed? = none →
        m.after.mode = .paused ∧ m.after.cursor = n ∧ m.after.machine = m.before.machine ∧
          m.after.calls = m.before.calls ∧ m.after.queue = m.before.queue ∧
          m.after.listing = m.before.listing := by
  have hpath : Path (start generator) past m.before :=
    ((htrail ▸ path_trail (start generator) ops : Path _ (past ++ m :: future) _)).split.1
  refine ⟨fun line hexecuted hmarked => ?_, fun n hcomes hmarked hnone => ?_⟩
  · obtain ⟨-, heq⟩ := Moment.isAdvance_spec (Moment.isAdvance_of_executed hexecuted)
    obtain ⟨-, -, hline, hopen⟩ := executed?_eq_some.1 (heq ▸ hexecuted)
    -- A marked line is open only by the flag, and who raised it is on record.
    have hresume : m.before.resume = true := hopen.resolve_right fun h => h (.inl hmarked)
    rw [Listing.get?_number hline]
    exact (recorded_path hpath).2 hresume
  · obtain ⟨hadvance, hmode, hpending, rfl, hcontains⟩ := hcomes
    obtain ⟨hafter, heq⟩ := Moment.isAdvance_spec hadvance
    obtain ⟨line, hline⟩ := Listing.contains_iff_get?.1 hcontains
    rw [hafter]
    generalize hr : m.before.advance = r
    cases hr ▸ advance_cases m.before with
    | idle h => exact absurd hmode h
    | waiting _ h => exact absurd hpending h
    | lost _ _ h => simp [hline] at h
    | stopped line' =>
      rw [pauseAt_eq]
      exact ⟨rfl, rfl, rfl, rfl, rfl, rfl⟩
    | executed line' hopen =>
      rw [heq, executed?_eq_some.2 hopen] at hnone
      cases hnone

/-- A run that has begun at a line with a breakpoint. -/
def markThenRun : List (Operation ChaCha) :=
  [.act (.enter "10 PRINT 1"), .act (.setBreakpoint 10), .act (.enter "RUN"), .poll 1]

/-- The run that is suspended there and let go on. -/
def markThenResume : List (Operation ChaCha) := markThenRun ++ [.act .advance, .act .resume]

/-- The run is suspended at the marked line, and the request to go on releases it there. -/
theorem executed_after_markThenResume :
    ((start (ChaCha.ofSeed 1)).run (markThenRun ++ [.act .advance])).mode = .paused ∧
      ReleasedAt ((start (ChaCha.ofSeed 1)).trail markThenResume) 10 := by
  have htrail : ∀ ops, (start (ChaCha.ofSeed 1)).trail (ops ++ [.act .advance]) =
      (start (ChaCha.ofSeed 1)).trail ops ++
      .act ((start (ChaCha.ofSeed 1)).run ops) .advance :: [] :=
    fun ops => trail_append _ ops [.act .advance]
  constructor
  · let s := (start (ChaCha.ofSeed 1)).run markThenRun
    have hcomes : (Moment.act s .advance).ComesTo 10 :=
      ⟨by decide +kernel, by decide +kernel, by decide +kernel, by decide +kernel,
        by decide +kernel⟩
    have hpaused :=
      (executed_after_release _ _ (htrail markThenRun)).2 10 hcomes (by decide +kernel)
      (by decide +kernel)
    rw [run_append]
    exact hpaused.1
  · let s := (start (ChaCha.ofSeed 1)).run markThenResume
    obtain ⟨line, hexecuted, hnumber, hmarked⟩ : ∃ line,
        (Moment.act s .advance).executed? = some line ∧
        line.number = 10 ∧ 10 ∈ s.breakpoints.lines :=
      ⟨.ofText 10 "10 PRINT 1" (.print ⟨3, 8⟩ [.value (.int ⟨9, 10⟩ 1)]), by decide +kernel⟩
    have h :=
      (executed_after_release _ _ (htrail markThenResume)).1 line hexecuted (hnumber ▸ hmarked)
    exact hnumber ▸ h

end LineBasic
