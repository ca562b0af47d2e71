import LineBasic.Proofs.Engine.Moment
import LineBasic.Random.ChaCha

namespace LineBasic.Engine

/-!
# Idle engines

An engine that neither runs nor has a run suspended has nothing left of any run, whatever has been
done with it, provided that no breakpoint was set while a file was being loaded.

* `Clean` -- what can be relied on between operations;
* `Kept` -- the same, with what a load must not find for it to last;
* `Shift.kept` -- every shift keeps an engine so;
* `clean_run` -- the main result, over all sequences of operations.
-/

variable {γ : Type} {s t : Engine γ}

/-- An engine in good order. -/
structure Clean (s : Engine γ) : Prop where
  /-- Without a run there is no open subroutine and nothing else that belongs to a run. -/
  idle : s.isIdle → s.calls = .empty ∧ s.breakpoints.oneShot = none ∧ s.queue = [] ∧
    s.branch = none ∧ s.resume = false ∧ s.stepping = false
  /-- At the prompt no file is being loaded. -/
  prompt : s.mode = .prompt → s.isLoading = false
  /-- The modes of loading are those of an engine that is loading. -/
  loading : s.mode = .loading ∨ s.mode = .loadFailed → s.isLoading
  /-- No run is suspended during a load. -/
  paused : s.mode = .paused → s.isLoading = false
  /-- No more subroutines are open than there is room for. -/
  depth : s.calls.depth ≤ LineNumber.last
  /-- A program line waits for values only as long as its run goes on. -/
  pending : ∀ q, s.pending = some q → q.line.isSome → s.mode = .running

/-- An engine in good order in which nothing will stop a run during a load. -/
structure Kept (s : Engine γ) : Prop extends Clean s where
  /-- While a file is being loaded there is no breakpoint, and no single step is going on. -/
  unmarked : s.isLoading →
    s.breakpoints.lines = [] ∧ s.breakpoints.oneShot = none ∧ s.stepping = false

/-- An engine that has just been started is in good order. -/
theorem kept_start (generator : γ) : (start generator).Kept where
  idle _ := ⟨rfl, rfl, rfl, rfl, rfl, rfl⟩
  prompt _ := rfl
  loading h := by simp [start] at h
  paused _ := rfl
  depth := Nat.zero_le _
  pending _ hq := nomatch hq
  unmarked h := nomatch h

/-! ### Stopping -/

/-- An engine without work is at the prompt unless it is loading a file. -/
theorem idleMode_eq_prompt : s.idleMode = .prompt ↔ s.isLoading = false := by
  unfold idleMode
  cases s.isLoading <;> simp

/-- The two modes of loading are those of an engine that is loading a file. -/
theorem idleMode_eq_loading (h : s.idleMode = .loading ∨ s.idleMode = .loadFailed) :
    s.isLoading := by
  unfold idleMode at h
  cases hl : s.isLoading <;> simp_all

@[simp] theorem stop_isLoading : s.stop.isLoading = s.isLoading := by
  rw [isLoading, stop_fileLine, isLoading]

/-- Stopping puts an engine in order, if the persistent breakpoints are as they should be. -/
theorem kept_stop (h : s.isLoading → s.breakpoints.lines = []) : s.stop.Kept where
  idle _ := by simp [Breakpoints.disarm]
  prompt hmode := by simpa using idleMode_eq_prompt.1 (stop_mode s ▸ hmode)
  loading hmode := by simpa using idleMode_eq_loading (stop_mode s ▸ hmode)
  paused hmode := absurd (stop_mode s ▸ hmode) s.idleMode_ne_paused
  depth := by simp [CallStack.empty]
  pending q hq := by simp at hq
  unmarked hloading := by
    have hlines := h (by simpa using hloading)
    simpa [Breakpoints.disarm] using hlines

/-! ### Shifts -/

/-- An engine is idle if it neither runs nor has a run suspended. -/
theorem isIdle_iff : s.isIdle ↔ s.mode ≠ .running ∧ s.mode ≠ .paused := by
  simp [isIdle]

/-- Changes of the breakpoints that set none. -/
theorem Kept.with_breakpoints (hs : s.Kept) (b : Breakpoints)
    (hlines : s.breakpoints.lines = [] → b.lines = [])
    (honce : s.breakpoints.oneShot = none → b.oneShot = none) :
    { s with breakpoints := b }.Kept where
  idle h := by
    obtain ⟨hcalls, hnone, hrest⟩ := hs.idle h
    exact ⟨hcalls, honce hnone, hrest⟩
  prompt := hs.prompt
  loading := hs.loading
  paused := hs.paused
  depth := hs.depth
  pending := hs.pending
  unmarked h := by
    obtain ⟨hl, ho, hstepping⟩ := hs.unmarked h
    exact ⟨hlines hl, honce ho, hstepping⟩

/-- A run that is going on with fewer or more open subroutines, or has just begun or been
    resumed. -/
theorem kept_of_running (hmode : s.mode = .running) (hdepth : s.calls.depth ≤ LineNumber.last)
    (hunmarked : s.isLoading →
      s.breakpoints.lines = [] ∧ s.breakpoints.oneShot = none ∧ s.stepping = false) : s.Kept where
  idle h := absurd hmode (isIdle_iff.1 h).1
  prompt h := by simp [hmode] at h
  loading h := by simp [hmode] at h
  paused h := by simp [hmode] at h
  depth := hdepth
  pending _ _ _ := hmode
  unmarked := hunmarked

/-- The end of a load leaves no mode of loading. -/
theorem kept_endLoad (hs : s.Kept) : s.endLoad.2.Kept := by
  by_cases hmode : s.mode = .loading ∨ s.mode = .loadFailed
  · have heq : s.endLoad.2 = { s with fileLine := none, mode := .prompt } := by
      simp only [endLoad, if_pos hmode]
    have hidle : s.isIdle := isIdle_iff.2 (by rcases hmode with h | h <;> simp [h])
    rw [heq]
    refine ⟨⟨fun _ => hs.idle hidle, fun _ => rfl, by simp, by simp, hs.depth,
      fun q hq hsome => ?_⟩, fun h => absurd h Bool.false_ne_true⟩
    exact absurd (hs.pending q hq hsome) (isIdle_iff.1 hidle).1
  · have heq : s.endLoad.2 = { s with fileLine := none } := by
      simp only [endLoad, if_neg hmode]
    rw [heq]
    exact ⟨⟨hs.idle, fun _ => rfl, fun h => absurd h hmode, fun _ => rfl, hs.depth, hs.pending⟩,
      fun h => absurd h Bool.false_ne_true⟩

/-- **Shifts keep an engine in order.** -/
theorem Shift.kept (h : Shift s t) (hs : s.Kept) : t.Kept := by
  cases h with
  | aside => exact ⟨⟨hs.idle, hs.prompt, hs.loading, hs.paused, hs.depth, hs.pending⟩, hs.unmarked⟩
  | count =>
    have hloading : ({ s with fileLine := s.fileLine.map (· + 1) } : Engine γ).isLoading =
        s.isLoading :=
      Option.isSome_map
    exact ⟨⟨hs.idle, hloading ▸ hs.prompt, hloading ▸ hs.loading, hloading ▸ hs.paused, hs.depth,
      hs.pending⟩, hloading ▸ hs.unmarked⟩
  | store => exact ⟨⟨hs.idle, hs.prompt, hs.loading, hs.paused, hs.depth, hs.pending⟩, hs.unmarked⟩
  | delete n hmode =>
    have h : { s with breakpoints := s.breakpoints.forget n }.Kept :=
      hs.with_breakpoints _ (fun h => by simp [Breakpoints.forget_lines, h])
        fun h => Breakpoints.forget_oneShot h n
    exact ⟨⟨h.idle, h.prompt, h.loading, h.paused, h.depth, h.pending⟩, h.unmarked⟩
  | unmark n b hb =>
    refine hs.with_breakpoints _ (fun h => ?_) fun h => ?_
    · simp [Breakpoints.clear_ok hb, Breakpoints.drop, h]
    · simp [Breakpoints.clear_ok hb, Breakpoints.drop, h]
  | unmarkAll => exact hs.with_breakpoints _ (fun _ => rfl) fun _ => rfl
  | take x n queue hqueue =>
    refine ⟨⟨fun h => ?_, hs.prompt, hs.loading, hs.paused, hs.depth, hs.pending⟩, hs.unmarked⟩
    -- An idle engine has no values to take.
    obtain ⟨-, -, hempty, -⟩ := hs.idle h
    rw [hqueue] at hempty
    cases hempty
  | wait q hline =>
    refine ⟨⟨hs.idle, hs.prompt, hs.loading, hs.paused, hs.depth, fun q' hq' hsome => ?_⟩,
      hs.unmarked⟩
    obtain rfl : q = q' := Option.some.inj hq'
    rcases hline hsome with ⟨hmode, -⟩ | ⟨q'', hq'', heq⟩
    · exact hmode
    · exact hs.pending q'' hq'' (heq ▸ hsome)
  | unwait => exact ⟨⟨hs.idle, hs.prompt, hs.loading, hs.paused, hs.depth, by simp⟩, hs.unmarked⟩
  | stop => exact kept_stop fun h => (hs.unmarked h).1
  | wipe => exact kept_stop fun _ => rfl
  | launch queue n =>
    exact kept_of_running rfl (Nat.zero_le _) fun h => ⟨(hs.unmarked h).1, rfl, rfl⟩
  | depart hmode => exact kept_of_running hmode hs.depth hs.unmarked
  | go calls n hmode _ hcalls =>
    refine kept_of_running hmode ?_ hs.unmarked
    rcases hcalls with rfl | ⟨back, -, hpush⟩
    · exact hs.depth
    · exact (CallStack.push_ok hpush).2
  | back calls n hmode hpop =>
    have hframes := CallStack.pop_ok hpop
    refine ⟨⟨fun h => ?_, hs.prompt, hs.loading, hs.paused, ?_, hs.pending⟩, hs.unmarked⟩
    · -- An idle engine has no subroutine to leave.
      obtain ⟨hempty, -⟩ := hs.idle h
      rw [hempty] at hframes
      cases hframes
    · have hdepth := hs.depth
      rw [s.calls.depth_eq, hframes, List.length_cons] at hdepth
      show calls.depth ≤ _
      rw [calls.depth_eq]
      omega
  | restart hmode =>
    rw [rewind_eq]
    exact kept_of_running hmode (Nat.zero_le _) hs.unmarked
  | pause hmode hpending _ _ hhit =>
    -- During a load there is nothing to be stopped by.
    have hloading : s.isLoading = false := by
      refine Bool.eq_false_iff.2 fun h => ?_
      obtain ⟨hlines, honce, -⟩ := hs.unmarked h
      simp [hlines, honce] at hhit
    refine ⟨⟨by simp [isIdle], by simp, by simp, fun _ => hloading, hs.depth, fun q hq => ?_⟩,
      fun h => ?_⟩
    · exact absurd hq (by simp [hpending])
    · exact absurd h (by simpa [isLoading] using hloading)
  | move n hmode => exact kept_of_running hmode hs.depth hs.unmarked
  | arm hmode hstepping =>
    refine kept_of_running hmode hs.depth fun h => ?_
    obtain ⟨-, -, hfalse⟩ := hs.unmarked h
    simp [hfalse] at hstepping
  | spoil hloading hmode hpending =>
    have hidle : s.isIdle := by
      refine isIdle_iff.2 ⟨hmode, fun hpaused => ?_⟩
      simp [hs.paused hpaused] at hloading
    refine ⟨⟨fun _ => hs.idle hidle, by simp, fun _ => hloading, by simp, hs.depth, fun q hq => ?_⟩,
      hs.unmarked⟩
    exact absurd hq (by simp [hpending])
  | beginLoad => exact kept_stop fun _ => rfl
  | endLoad => exact kept_endLoad hs

/-! ### Operations -/

/-- A released run is not one of a load. -/
theorem Releases.kept (h : Releases s t) (hs : s.Kept) : t.Kept := by
  obtain ⟨hmode, stepping, rfl⟩ := h
  refine kept_of_running rfl hs.depth fun hloading => ?_
  exact absurd hloading (by simpa [isLoading] using hs.paused hmode)

/-- A breakpoint does no harm outside a load. -/
theorem Marks.kept (h : Marks s t) (hloading : s.isLoading = false) (hs : s.Kept) : t.Kept := by
  obtain ⟨n, b, hb, rfl⟩ := h
  have honce : b.oneShot = s.breakpoints.oneShot := Breakpoints.set_oneShot hb
  refine ⟨⟨fun h => ?_, hs.prompt, hs.loading, hs.paused, hs.depth, hs.pending⟩, fun h => ?_⟩
  · obtain ⟨hcalls, hnone, hrest⟩ := hs.idle h
    exact ⟨hcalls, honce.trans hnone, hrest⟩
  · exact absurd h (by simpa [isLoading] using hloading)

variable [RandomSource γ]

/-- A moment keeps an engine in order, unless it sets a breakpoint during a load. -/
theorem moment_kept {m : Moment γ} (h : ∀ n, m.Marks n → m.before.isLoading = false)
    (hs : m.before.Kept) : m.after.Kept := by
  rcases moment_cases m with hshifts | hreleases | ⟨n, hmarks⟩
  · exact hshifts.preserves hs fun _ _ hkept hshift => hshift.kept hkept
  · exact hreleases.releases.kept hs
  · exact hmarks.marks.kept (h n hmarks) hs

/-- **Main result.**  Whatever is done with an engine, in whatever order, it is in good order
    afterwards, provided that no breakpoint is set while a file is being loaded. -/
theorem clean_run (generator : γ) (ops : List (Operation γ))
    (hmarks : ∀ m ∈ (start generator).trail ops, ∀ n, m.Marks n → m.before.isLoading = false) :
    ((start generator).run ops).Clean := by
  have hkept : ((start generator).run ops).Kept :=
    (path_trail _ ops).preserves (kept_start generator) fun m hm => moment_kept (hmarks m hm)
  exact hkept.toClean

/-- The loading of a line, after which a breakpoint is set on it. -/
def loadThenMark : List (Operation ChaCha) :=
  [.act .beginLoad, .act (.enter "10 GOSUB 10"), .act .endLoad, .act (.setBreakpoint 10)]

/-- No breakpoint is set during the load, only after it, and the engine is in good order. -/
theorem clean_run_loadThenMark :
    (∀ m ∈ (start (ChaCha.ofSeed 1)).trail loadThenMark, ∀ n, m.Marks n →
      m.before.isLoading = false) ∧ ((start (ChaCha.ofSeed 1)).run loadThenMark).Clean := by
  have hmarks : ∀ m ∈ (start (ChaCha.ofSeed 1)).trail loadThenMark, ∀ n,
      m.Marks n → m.before.isLoading = false := by
    intro m hm n hmarks
    simp only [loadThenMark, trail, moments, List.singleton_append, List.mem_cons, List.not_mem_nil,
      or_false] at hm
    -- The first three acts set no breakpoint, and the load is over when the fourth does.
    rcases hm with rfl | rfl | rfl | rfl
    · simp [Moment.Marks] at hmarks
    · simp [Moment.Marks] at hmarks
    · simp [Moment.Marks] at hmarks
    · rfl
  exact ⟨hmarks, clean_run _ _ hmarks⟩

end LineBasic.Engine
