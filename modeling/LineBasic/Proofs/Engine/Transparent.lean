import LineBasic.Proofs.Engine.Move
import LineBasic.Proofs.Engine.Twin
import LineBasic.Proofs.Engine.Underway
import LineBasic.Random.ChaCha

namespace LineBasic

open Engine

/-!
# The debugger is transparent

A program does the same whether or not it is held up at breakpoints and executed step by step.

* `Followed`, `followed` -- a supervised moment is a move of the bare engine, or nothing that
  matters to it;
* `Tracked`, `tracked_snoc` -- a supervised run comes to what its moves come to without a debugger;
* `Agree`, `debugger_transparent` -- the main result, over all pairs of runs.
-/

variable {γ : Type} [RandomSource γ]

/-! ### One moment -/

/-- Whether what is written in a moment is the notice of the line at the cursor. -/
def Moment.GivesNotice (m : Moment γ) : Prop :=
  ∃ line, m.before.listing.get? m.before.cursor = some line ∧ m.written = m.before.pauseNotice line

/-- How a moment is followed by an engine without a debugger. -/
inductive Followed (m : Moment γ) : Prop where
  /-- There is nothing to follow.  A run that is suspended was not held up before, and its notice is
      all that is written. -/
  | quiet (hmove : m.move? = none)
      (hsame : ∀ E W, m.after.bare (E ++ (m.reported ++ m.after.errors)) W =
        m.before.bare (E ++ m.before.errors) W)
      (hwritten : m.pauses = false → m.written = [])
      (hheld : m.before.IsHeld → m.after.IsHeld)
      (hpause : m.pauses → ¬ m.before.IsHeld ∧ m.after.IsHeld ∧ m.GivesNotice)
  /-- A move is made. -/
  | active (mv : Move) (hmove : m.move? = some mv) (hreported : m.reported = [])
      (hpauses : m.pauses = false) (hdue : mv.IsDue m.before)
      (hheld : m.executed? = none → ¬ m.before.IsHeld)
      (htwin : ∀ E W, Twin E W m.before.transcript.newestFirst m.after
        ((m.before.bare (E ++ m.before.errors) ⟨W⟩).make mv))

/-- A moment that writes nothing. -/
theorem written_eq_nil {m : Moment γ} (h : m.after.transcript = m.before.transcript) :
    m.written = [] := by
  unfold Moment.written
  rw [h, List.drop_length]

/-- A moment in which errors are reported, or nothing happens at all. -/
theorem followed_of_same {m : Moment γ} (hmove : m.move? = none) (errors : List Diagnostic)
    (hafter : m.after = { m.before with errors })
    (herrors : m.before.errors = m.reported ++ errors) :
    Followed m := by
  have hpauses : m.pauses = false := by
    unfold Moment.pauses
    rw [hafter]
    cases m.before.mode <;> rfl
  refine .quiet hmove (fun E W => ?_) (fun _ => written_eq_nil ?_) (fun h => ?_) fun h => ?_
  · rw [hafter, herrors]
    rfl
  · rw [hafter]
  · rw [hafter]
    exact h
  · rw [hpauses] at h
    cases h

/-- A run that is let go on does nothing yet. -/
theorem followed_of_releases {m : Moment γ} (hmove : m.move? = none) (hreported : m.reported = [])
    (h : Engine.Releases m.before m.after) : Followed m := by
  obtain ⟨hmode, stepping, hafter⟩ := h
  have hpauses : m.pauses = false := by
    unfold Moment.pauses
    rw [hmode]
    rfl
  refine .quiet hmove (fun E W => ?_) (fun _ => written_eq_nil ?_) (fun _ => ?_) fun h => ?_
  · rw [hreported, hafter]
    unfold bare
    dsimp only
    rw [hmode]
    rfl
  · rw [hafter]
  · rw [hafter]
    exact .inr ⟨rfl, rfl⟩
  · rw [hpauses] at h
    cases h

/-- What is written is what comes on top of what was there. -/
theorem written_of_newestFirst {m : Moment γ} {ws : List Emission}
    (h : m.after.transcript.newestFirst = ws ++ m.before.transcript.newestFirst) :
    m.written = ws.reverse := by
  unfold Moment.written Transcript.emissions
  rw [h, List.reverse_append, List.drop_left]

omit [RandomSource γ] in
/-- Suspending a run at a line writes the notice of that line and nothing else. -/
theorem pauseAt_newestFirst (s : Engine γ) (line : Line) :
    ({ s with breakpoints := s.breakpoints.disarm }.pauseAt line
        (s.kindOfHit line.number)).transcript.newestFirst =
      (s.pauseNotice line).reverse ++ s.transcript.newestFirst := by
  unfold kindOfHit pauseNotice
  by_cases h : line.number ∈ s.breakpoints.lines
  · rw [if_pos h, if_pos h]
    rfl
  · rw [if_neg h, if_neg h]
    rfl

omit [RandomSource γ] in
/-- Without a debugger no line is held up. -/
theorem bare_isOpen {s : Engine γ} {line : Line} (h : s.IsOpen line) (errors : List Diagnostic)
    (transcript : Transcript) : (s.bare errors transcript).IsOpen line := by
  obtain ⟨hmode, hpending, hline, -⟩ := h
  refine ⟨?_, hpending, hline, .inr ?_⟩
  · rw [bare_mode (by rw [hmode]; simp), hmode]
  · rintro (h | h)
    · cases h
    · cases h

/-- A call of `advance` reports nothing and answers nothing. -/
theorem isAdvance_quiet {m : Moment γ} (h : m.isAdvance) : m.answer? = none ∧ m.reported = [] := by
  cases m with
  | tick s =>
    obtain ⟨herrors, hpending, hdirect, hmode⟩ := isProgramTurn_iff.1 h
    refine ⟨rfl, ?_⟩
    simp [Moment.reported, tick, herrors, hpending, hdirect, hmode]
  | act s a => cases a <;> first | exact ⟨rfl, rfl⟩ | cases h

/-- A run that is stopped at a breakpoint has made no move. -/
theorem followed_stopped {m : Moment γ} {line : Line} (hmove : m.move? = none)
    (hreported : m.reported = []) (hmode : m.before.mode = .running)
    (hline : m.before.listing.get? m.before.cursor = some line) (hresume : m.before.resume = false)
    (hafter : m.after = { m.before with breakpoints := m.before.breakpoints.disarm }.pauseAt line
      (m.before.kindOfHit line.number)) :
    Followed m := by
  have hpaused : m.after = { m.before with
      breakpoints := m.before.breakpoints.disarm, transcript := m.after.transcript, mode := .paused,
      stepping := false } := by
    rw [hafter]
    exact pauseAt_eq _ _ _
  have hpauses : m.pauses = true := by
    unfold Moment.pauses
    rw [hmode, hpaused]
    rfl
  -- Before the stop the run was free, and it is held now: the stop is a pause of its own.
  have hfree : ¬ m.before.IsHeld := by
    rintro (h | ⟨-, h⟩)
    · simp [hmode] at h
    · simp [hresume] at h
  have hheld : m.after.IsHeld := .inl (by rw [hpaused])
  have hnotice : m.written = m.before.pauseNotice line := by
    rw [written_of_newestFirst (by rw [hafter]; exact pauseAt_newestFirst _ _),
      List.reverse_reverse]
  refine .quiet hmove (fun E W => ?_) (fun hno => ?_) (fun _ => hheld) fun _ =>
    ⟨hfree, hheld, line, hline, hnotice⟩
  · -- A suspended engine and a running one have the same bare engine.
    rw [hreported, hpaused]
    unfold bare
    dsimp only
    rw [hmode]
    rfl
  · rw [hpauses] at hno
    cases hno

/-- A line that is executed is executed by the bare engine as well. -/
theorem followed_executed {m : Moment γ} {line : Line} (hmove : m.move? = some .line)
    (hreported : m.reported = []) (hexecuted : m.executed? = some line)
    (hopen : m.before.IsOpen line)
    (hafter : m.after = ({ m.before with resume := false }.executeLine line).2) : Followed m := by
  have htwin : ∀ E W, Twin E W m.before.transcript.newestFirst m.after
      ((m.before.bare (E ++ m.before.errors) ⟨W⟩).make .line) := by
    intro E W
    have hmode : m.before.mode ≠ .paused := by rw [hopen.1]; simp
    have hstart : Twin E W m.before.transcript.newestFirst { m.before with resume := false }
        (m.before.bare (E ++ m.before.errors) ⟨W⟩) := ⟨hmode, [], rfl, rfl⟩
    have hmake : (m.before.bare (E ++ m.before.errors) ⟨W⟩).make .line =
        ((m.before.bare (E ++ m.before.errors) ⟨W⟩).executeLine line).2 := by
      show (Engine.advance _).2 = _
      rw [advance_of_isOpen (bare_isOpen hopen _ _)]
      rfl
    rw [hmake, hafter]
    exact hstart.executeLine line
  have hpauses : m.pauses = false := by
    have hmode := (htwin [] []).1
    unfold Moment.pauses
    simp [hmode]
  refine .active .line hmove hreported hpauses hopen.2.1 (fun hno => ?_) htwin
  rw [hexecuted] at hno
  cases hno

/-- Going on with a run is followed by executing a line, or the run is suspended. -/
theorem followed_of_isAdvance {m : Moment γ} (h : m.isAdvance) (hs : m.before.Underway) :
    Followed m := by
  obtain ⟨hafter, hexecuted⟩ := Moment.isAdvance_spec h
  obtain ⟨hanswer, hreported⟩ := isAdvance_quiet h
  have hmove : m.move? = m.before.executed?.map fun _ => .line := by
    unfold Moment.move?
    rw [hanswer, hexecuted]
  have hnone : (∀ line, ¬ m.before.IsOpen line) → m.move? = none := by
    intro hclosed
    rw [hmove, Option.map_eq_none_iff]
    exact Option.eq_none_iff_forall_ne_some.2 fun line hline =>
      hclosed line (executed?_eq_some.1 hline)
  have hsame : m.before.advance.2 = m.before → (∀ line, ¬ m.before.IsOpen line) → Followed m := by
    intro heq hclosed
    refine followed_of_same (hnone hclosed) m.before.errors ?_ (by rw [hreported]; rfl)
    rw [hafter, heq]
  have hadvance := advance_cases m.before
  generalize hr : m.before.advance = r at hadvance
  cases hadvance with
  | idle hmode => exact hsame (by rw [hr]) fun line hopen => hmode hopen.1
  | waiting _ hpending => exact hsame (by rw [hr]) fun line hopen => hpending hopen.2.1
  | lost hmode _ hline =>
    -- The run cannot have got to a line that is not there.
    have hlocated := hs.located (not_isIdle_iff.2 (.inl hmode))
    obtain ⟨line, hsome⟩ := Listing.contains_iff_get?.1 hlocated.cursor
    rw [hline] at hsome
    cases hsome
  | stopped line hmode hpending hline hresume hmarked =>
    rw [hr] at hafter
    refine followed_stopped (hnone fun line' hopen => ?_) hreported hmode hline hresume hafter
    obtain ⟨-, -, hline', hopen'⟩ := hopen
    obtain rfl : line = line' := Option.some.inj (hline.symm.trans hline')
    rcases hopen' with h | h
    · simp [hresume] at h
    · exact h hmarked
  | executed line hopen =>
    have hsome : m.before.executed? = some line := executed?_eq_some.2 hopen
    rw [hr] at hafter
    exact followed_executed (by rw [hmove, hsome]; rfl) hreported (hexecuted.trans hsome)
      hopen hafter

/-- An answer is followed by the same answer. -/
theorem followed_enter {s : Engine γ} {q : Inquiry} (hq : s.pending = some q) (text : String)
    (hs : s.Underway) : Followed (.act s (.enter text)) := by
  have hheld : ¬ s.IsHeld := hs.pending (by simp [hq])
  have htwin : ∀ E W, Twin E W s.transcript.newestFirst (s.enter text).2
      ((s.bare (E ++ s.errors) ⟨W⟩).make (.answer text)) :=
    fun E W => (twin_bare fun h => hheld (.inl h)).enter hq text
  have hpauses : (Moment.act s (.enter text)).pauses = false := by
    have hmode : (s.enter text).2.mode ≠ .paused := (htwin [] []).1
    unfold Moment.pauses
    show (decide (s.mode = .running) && decide ((s.enter text).2.mode = .paused)) = false
    simp [hmode]
  refine .active (.answer text) rfl rfl hpauses ?_ (fun _ => hheld) htwin
  show s.pending ≠ none
  simp [hq]

/-- What is due next is followed, whatever it is. -/
theorem followed_tick {s : Engine γ} (hs : s.Underway) : Followed (.tick s) := by
  by_cases hturn : s.isProgramTurn = true
  · exact followed_of_isAdvance (m := .tick s) hturn hs
  · have hmove : (Moment.tick s).move? = none := by
      show Option.map _ (if s.isProgramTurn then s.executed? else none) = none
      rw [if_neg hturn]
      rfl
    have hafter : ∀ e t, s.tick = .inl (e, t) → (Moment.tick s).after = t := by
      intro e t h
      show s.ticked = t
      unfold ticked
      rw [h]
    have hreported : ∀ e t, s.tick = .inl (e, t) → (Moment.tick s).reported = e.reports := by
      intro e t h
      simp only [Moment.reported, h]
    have htick := tick_cases s
    generalize hr : s.tick = r at htick
    cases htick with
    | errors _ =>
      refine followed_of_same hmove [] (hafter _ _ hr) ?_
      rw [hreported _ _ hr]
      exact (List.append_nil _).symm
    | input | paused | stopped =>
      exact followed_of_same hmove s.errors (hafter _ _ hr) (by rw [hreported _ _ hr]; rfl)
    | direct d _ _ hdirect =>
      rw [hs.direct] at hdirect
      cases hdirect
    | program h => exact absurd h hturn

/-- **One moment.**  A supervised moment is a move of the bare engine, or nothing that matters to
    it. -/
theorem followed {m : Moment γ} (hm : m.IsSupervised) (hs : m.before.Underway) : Followed m := by
  rcases hm.cases with ⟨s, rfl⟩ | ⟨s, rfl⟩ | ⟨s, text, q, rfl, hq⟩ | hreleases
  · exact followed_tick hs
  · exact followed_of_isAdvance (m := .act s .advance) rfl hs
  · exact followed_enter hq text hs
  · have hquiet : m.move? = none ∧ m.reported = [] := by
      cases m with
      | tick s => exact absurd hreleases id
      | act s a =>
        obtain ⟨request, -, hgoing, -⟩ := hreleases
        unfold Act.goingOn? at hgoing
        split at hgoing <;> first | exact ⟨rfl, rfl⟩ | cases hgoing
    exact followed_of_releases hquiet.1 hquiet.2 hreleases.releases

/-! ### A whole run -/

/-- What a supervised run has come to: its moves, made without a debugger, lead to the same. -/
structure Tracked (r : Engine γ) (ms : List (Moment γ)) (t : Engine γ) : Prop where
  underway : t.Underway
  plays : r.Plays (movesOf ms)
  replay : r.replay (movesOf ms) = t.bare (reportsOf ms ++ t.errors) ⟨(outputOf ms).reverse⟩
  /-- Whenever the run was suspended, its notice was all that was written. -/
  notices : ∀ m ∈ ms, m.pauses → m.GivesNotice
  /-- The run was not suspended twice without executing a line in between. -/
  held : ms.countP Moment.pauses ≤ (linesOf ms).length + 1
  free : ¬ t.IsHeld → ms.countP Moment.pauses ≤ (linesOf ms).length

/-- Where a run is suspended the notice of the line is written, in one more moment too. -/
theorem Tracked.notices_snoc {r : Engine γ} {ms : List (Moment γ)} {m : Moment γ}
    (h : Tracked r ms m.before) (hlast : m.pauses → m.GivesNotice) :
    ∀ k ∈ ms ++ [m], k.pauses → k.GivesNotice := by
  intro k hk
  rcases List.mem_append.1 hk with hk | hk
  · exact h.notices k hk
  · rw [List.mem_singleton.1 hk]
    exact hlast

/-- A moment with nothing to follow leaves the bare engine where it is. -/
theorem Tracked.quiet {r : Engine γ} {ms : List (Moment γ)} {m : Moment γ}
    (h : Tracked r ms m.before) (hafter : m.after.Underway) (hmove : m.move? = none)
    (hsame : ∀ E W, m.after.bare (E ++ (m.reported ++ m.after.errors)) W =
      m.before.bare (E ++ m.before.errors) W)
    (hwritten : m.pauses = false → m.written = []) (hheld : m.before.IsHeld → m.after.IsHeld)
    (hpause : m.pauses → ¬ m.before.IsHeld ∧ m.after.IsHeld ∧ m.GivesNotice) :
    Tracked r (ms ++ [m]) m.after := by
  have hmoves : movesOf (ms ++ [m]) = movesOf ms := by
    rw [movesOf_snoc, hmove, Option.toList_none, List.append_nil]
  have hlines : (linesOf (ms ++ [m])).length = (linesOf ms).length := by
    rw [length_linesOf_snoc, (Moment.move?_eq_none hmove).1]
    rfl
  have hout : outputOf (ms ++ [m]) = outputOf ms := by
    rw [outputOf_snoc]
    cases hpauses : m.pauses with
    | true => simp
    | false => simp [hwritten hpauses]
  -- A suspension is one more, but the run was not held up before it.
  have hcount : (ms ++ [m]).countP Moment.pauses ≤ (linesOf ms).length + 1 ∧
      (¬ m.after.IsHeld → (ms ++ [m]).countP Moment.pauses ≤ (linesOf ms).length) := by
    rw [countP_pauses_snoc]
    cases hpauses : m.pauses with
    | true =>
      obtain ⟨hfree, hstopped, -⟩ := hpause hpauses
      exact ⟨Nat.add_le_add_right (h.free hfree) 1, fun hno => absurd hstopped hno⟩
    | false => exact ⟨h.held, fun hno => h.free fun hbefore => hno (hheld hbefore)⟩
  exact {
    underway := hafter
    plays := by rw [hmoves]; exact h.plays
    replay := by
      rw [hmoves, h.replay, reportsOf_snoc, hout, List.append_assoc]
      exact (hsame _ _).symm
    notices := h.notices_snoc fun hp => (hpause hp).2.2
    held := by rw [hlines]; exact hcount.1
    free := by rw [hlines]; exact hcount.2 }

/-- A moment with a move takes the bare engine along. -/
theorem Tracked.active {r : Engine γ} {ms : List (Moment γ)} {m : Moment γ} {mv : Move}
    (h : Tracked r ms m.before) (hafter : m.after.Underway) (hmove : m.move? = some mv)
    (hreported : m.reported = []) (hpauses : m.pauses = false) (hdue : mv.IsDue m.before)
    (hheld : m.executed? = none → ¬ m.before.IsHeld)
    (htwin : ∀ E W, Twin E W m.before.transcript.newestFirst m.after
      ((m.before.bare (E ++ m.before.errors) ⟨W⟩).make mv)) :
    Tracked r (ms ++ [m]) m.after := by
  obtain ⟨-, ws, hws, hr⟩ := htwin (reportsOf ms) (outputOf ms).reverse
  have hmoves : movesOf (ms ++ [m]) = movesOf ms ++ [mv] := by
    rw [movesOf_snoc, hmove, Option.toList_some]
  have hmade : r.replay (movesOf ms ++ [mv]) =
      (m.before.bare (reportsOf ms ++ m.before.errors) ⟨(outputOf ms).reverse⟩).make mv := by
    rw [← h.replay]
    exact List.foldl_append
  have hturn : mv.IsDue (r.replay (movesOf ms)) := by
    rw [h.replay]
    cases mv with
    | line => exact hdue
    | answer text => exact hdue
  -- Before an answer the run was not held up, and a line makes up for one suspension.
  have hbound : (ms ++ [m]).countP Moment.pauses ≤ (linesOf (ms ++ [m])).length := by
    rw [countP_pauses_snoc, hpauses, length_linesOf_snoc]
    cases hexecuted : m.executed? with
    | none => exact h.free (hheld hexecuted)
    | some line => exact h.held
  exact {
    underway := hafter
    plays := by rw [hmoves]; exact plays_snoc h.plays hturn
    replay := by
      rw [hmoves, hmade, hr, reportsOf_snoc, hreported, List.append_nil, outputOf_snoc, hpauses,
        written_of_newestFirst hws]
      simp
    notices := h.notices_snoc fun hp => absurd hp (by rw [hpauses]; exact Bool.false_ne_true)
    held := Nat.le_succ_of_le hbound
    free := fun _ => hbound }

/-- **One moment.**  What a supervised run has come to is followed through one more moment. -/
theorem tracked_snoc {r : Engine γ} {ms : List (Moment γ)} {m : Moment γ} (hm : m.IsSupervised)
    (h : Tracked r ms m.before) : Tracked r (ms ++ [m]) m.after := by
  have hafter : m.after.Underway := underway_after hm h.underway
  cases followed hm h.underway with
  | quiet hmove hsame hwritten hheld hpause =>
    exact h.quiet hafter hmove hsame hwritten hheld hpause
  | active mv hmove hreported hpauses hdue hheld htwin =>
    exact h.active hafter hmove hreported hpauses hdue hheld htwin

/-- A supervised run is tracked from its beginning. -/
theorem tracked_trail {s : Engine γ} (hs : s.Underway) (ops : List (Operation γ))
    (hops : ∀ m ∈ s.trail ops, m.IsSupervised) :
    Tracked (s.bare s.errors ⟨[]⟩) (s.trail ops) (s.run ops) := by
  have hstart : Tracked (s.bare s.errors ⟨[]⟩) [] s :=
    ⟨hs, trivial, rfl, by simp, by simp, by simp⟩
  have htracked : (∀ m ∈ s.trail ops, m.IsSupervised) →
      Tracked (s.bare s.errors ⟨[]⟩) (s.trail ops) (s.run ops) := by
    refine (path_trail s ops).history_induction
      (I := fun ms t => (∀ m ∈ ms, m.IsSupervised) → Tracked (s.bare s.errors ⟨[]⟩) ms t)
      (fun _ => hstart) fun past m ih hall => ?_
    -- All of the past is supervised because the moments up to the last one are.
    have hpast := ih fun k hk => hall k (List.mem_append_left _ hk)
    exact tracked_snoc (hall m (by simp)) hpast
  exact htracked hops

/-! ### Runs without breakpoints -/

/-- Whether nothing can hold up a run. -/
def Engine.IsUnmarked (s : Engine γ) : Prop :=
  s.breakpoints.lines = [] ∧ s.mode ≠ .paused ∧
    (s.mode = .running → s.breakpoints.oneShot = none ∧ s.stepping = false)

omit [RandomSource γ] in
/-- A run that is over is not held up, if there are no breakpoints. -/
theorem Engine.isUnmarked_stop {s : Engine γ} (h : s.breakpoints.lines = []) :
    s.stop.IsUnmarked := by
  refine ⟨?_, ?_, fun hmode => ?_⟩
  · rw [stop_breakpoints]
    exact h
  · rw [stop_mode]
    exact s.idleMode_ne_paused
  · rw [stop_mode] at hmode
    exact absurd hmode s.idleMode_ne_running

omit [RandomSource γ] in
/-- Small changes hold nothing up where there are no breakpoints. -/
theorem Engine.Shift.isUnmarked {s t : Engine γ} (h : Shift s t) (hs : s.IsUnmarked) :
    t.IsUnmarked := by
  obtain ⟨hlines, hpaused, hrun⟩ := hs
  cases h with
  | stop => exact isUnmarked_stop hlines
  | wipe | beginLoad => exact isUnmarked_stop rfl
  | delete n =>
    refine ⟨?_, hpaused, fun hmode => ⟨Breakpoints.forget_oneShot (hrun hmode).1 n, (hrun hmode).2⟩⟩
    simp [Breakpoints.forget_lines, hlines]
  | unmark n b hb =>
    rw [Breakpoints.clear_ok hb]
    exact ⟨by simp [Breakpoints.drop, hlines], hpaused, hrun⟩
  | unmarkAll => exact ⟨rfl, hpaused, fun hmode => ⟨rfl, (hrun hmode).2⟩⟩
  | launch => exact ⟨hlines, Mode.noConfusion, fun _ => ⟨rfl, rfl⟩⟩
  | restart =>
    rw [rewind_eq]
    exact ⟨hlines, hpaused, hrun⟩
  -- Without breakpoints and steps there is nothing to stop at, and no stop is prepared for.
  | pause hmode _ _ _ hhit => simp [hlines, (hrun hmode).1] at hhit
  | arm hmode hstepping => simp [(hrun hmode).2] at hstepping
  | spoil =>
    refine ⟨hlines, ?_, fun hrunning => ?_⟩
    · simp
    · simp at hrunning
  | endLoad =>
    have hmode : s.endLoad.2.mode = s.mode ∨ s.endLoad.2.mode = .prompt := by
      unfold Engine.endLoad
      dsimp only
      split
      · exact .inr rfl
      · exact .inl rfl
    refine ⟨hlines, ?_, fun hrunning => ?_⟩
    · rcases hmode with h | h <;> rw [h]
      · exact hpaused
      · simp
    · rcases hmode with h | h
      · exact hrun (h ▸ hrunning)
      · simp [h] at hrunning
  | _ => exact ⟨hlines, hpaused, hrun⟩

/-- Supervision sets no breakpoints. -/
theorem isUnmarked_after {m : Moment γ} (hm : m.IsSupervised) (hs : m.before.IsUnmarked) :
    m.after.IsUnmarked := by
  have hfree : ¬ m.Releases := fun h => hs.2.1 h.releases.1
  rcases moment_cases m with hshifts | hreleases | ⟨n, hmarks⟩
  · exact hshifts.preserves hs fun _ _ hunmarked hshift => hshift.isUnmarked hunmarked
  · exact absurd hreleases hfree
  · cases m with
    | tick s => exact absurd hmarks id
    | act s a =>
      obtain ⟨rfl | rfl, -⟩ := hmarks
      · exact absurd hm hfree
      · exact absurd hm hfree

/-- A supervised run without breakpoints is never suspended. -/
theorem pauses_eq_false {s : Engine γ} (hs : s.IsUnmarked) (ops : List (Operation γ))
    (hops : ∀ m ∈ s.trail ops, m.IsSupervised) : ∀ m ∈ s.trail ops, m.pauses = false := by
  intro m hm
  obtain ⟨past, future, htrail⟩ := List.append_of_mem hm
  have hpath : Path s (past ++ m :: future) (s.run ops) := htrail ▸ path_trail s ops
  have hbefore : m.before.IsUnmarked := hpath.split.1.preserves hs fun k hk =>
    isUnmarked_after (hops k (by rw [htrail]; simp [hk]))
  have hafter := isUnmarked_after (hops m hm) hbefore
  unfold Moment.pauses
  simp [hafter.2.1]

/-! ### Two runs -/

/-- Two runs, the first without breakpoints, that have come equally far. -/
structure Agree (msA : List (Moment γ)) (a : Engine γ) (msB : List (Moment γ))
    (b : Engine γ) : Prop where
  listing : a.listing = b.listing
  /-- The variables, the memory and the random source. -/
  machine : a.machine = b.machine
  calls : a.calls = b.calls
  cursor : a.cursor = b.cursor
  branch : a.branch = b.branch
  queue : a.queue = b.queue
  pending : a.pending = b.pending
  /-- The errors that have been reported, and those that are still to be. -/
  errors : reportsOf msA ++ a.errors = reportsOf msB ++ b.errors
  output : outputOf msA = outputOf msB
  /-- Both runs are over, or neither is. -/
  ended : a.isIdle ↔ b.isIdle
  /-- The first run is never suspended. -/
  unhindered : ∀ m ∈ msA, m.pauses = false
  /-- What the second run writes where it is suspended is the notice of the line. -/
  notices : ∀ m ∈ msB, m.pauses → ∃ line, m.before.listing.get? m.before.cursor = some line ∧
    m.written = m.before.pauseNotice line
  /-- The second run is suspended at most once for each line. -/
  progress : msB.countP Moment.pauses ≤ (linesOf msB).length + 1

omit [RandomSource γ] in
/-- What is left of an engine without a debugger is idle when the engine is. -/
theorem bare_isIdle {s : Engine γ} (errors : List Diagnostic) (transcript : Transcript) :
    (s.bare errors transcript).isIdle = s.isIdle := by
  unfold isIdle bare
  cases s.mode <;> rfl

/-- An engine that has carried out a direct statement, with some breakpoints set. -/
def Engine.launched (s : Engine γ) (b : Breakpoints) (d : DirectStatement) : Engine γ :=
  { s with breakpoints := b }.carryOut d

/-- However the breakpoints are set, a direct statement does the same to an idle engine. -/
theorem launched_bare {s : Engine γ} (hidle : s.isIdle) (b b' : Breakpoints) (d : DirectStatement) :
    (s.launched b d).bare (s.launched b d).errors ⟨[]⟩ =
      (s.launched b' d).bare (s.launched b' d).errors ⟨[]⟩ := by
  have hmode : s.mode ≠ .paused := fun h => not_isHeld_of_isIdle hidle (.inl h)
  let r := s.bare s.errors ⟨[]⟩
  have htwin : ∀ b, Twin [] [] s.transcript.newestFirst { s with breakpoints := b } r :=
    fun b => ⟨hmode, [], rfl, rfl⟩
  have hsame : ∀ b, (s.launched b d).bare (s.launched b d).errors ⟨[]⟩ =
      { r.carryOut d with transcript := ⟨[]⟩ } := by
    intro b
    obtain ⟨-, ws, -, hr⟩ := (htwin b).carryOut d
    rw [hr]
    rfl
  rw [hsame b, hsame b']

/-- **Main result.**  An idle engine carries out a direct statement, once without breakpoints and
    once with some, and the two runs that this begins are worked on, get the same answers, and where
    the second is suspended it is let go on or executed step by step.  After equally many lines they
    agree. -/
theorem debugger_transparent {s : Engine γ} (hidle : s.isIdle) (hdirect : s.direct = none)
    (d : DirectStatement) (b : Breakpoints) (opsA opsB : List (Operation γ))
    (hA : ∀ m ∈ (s.launched .empty d).trail opsA, m.IsSupervised)
    (hB : ∀ m ∈ (s.launched b d).trail opsB, m.IsSupervised)
    (hanswers : answersOf ((s.launched .empty d).trail opsA) =
      answersOf ((s.launched b d).trail opsB))
    (hlines : (linesOf ((s.launched .empty d).trail opsA)).length =
      (linesOf ((s.launched b d).trail opsB)).length) :
    Agree ((s.launched .empty d).trail opsA) ((s.launched .empty d).run opsA)
      ((s.launched b d).trail opsB) ((s.launched b d).run opsB) := by
  have hunmarked : (s.launched .empty d).IsUnmarked := by
    have hstart : ({ s with breakpoints := .empty } : Engine γ).IsUnmarked :=
      ⟨rfl, fun h => not_isHeld_of_isIdle hidle (.inl h), fun h =>
        absurd hidle (not_isIdle_iff.2 (.inl h))⟩
    exact (shifts_carryOut d).preserves hstart fun _ _ hunmarked hshift =>
      hshift.isUnmarked hunmarked
  have hunderway : ∀ b, (s.launched b d).Underway :=
    fun b => underway_carryOut (s := { s with breakpoints := b }) hidle hdirect d
  have htrackedA := tracked_trail (hunderway .empty) opsA hA
  have htrackedB := tracked_trail (hunderway b) opsB hB
  have hunhindered := pauses_eq_false hunmarked opsA hA
  rw [launched_bare hidle b .empty] at htrackedB
  generalize (s.launched .empty d).bare _ _ = r at htrackedA htrackedB
  generalize (s.launched .empty d).trail opsA = msA at *
  generalize (s.launched b d).trail opsB = msB at *
  generalize (s.launched .empty d).run opsA = t at *
  generalize (s.launched b d).run opsB = u at *
  -- Equally many lines and the same answers are the same moves, so both bare engines come to the
  -- same.
  have hmoves : movesOf msA = movesOf msB := by
    refine htrackedA.plays.unique htrackedB.plays ?_ ?_
    · rw [linesAmong_movesOf, linesAmong_movesOf, hlines]
    · rw [answersAmong_movesOf, answersAmong_movesOf, hanswers]
  have hbare : t.bare (reportsOf msA ++ t.errors) ⟨(outputOf msA).reverse⟩ =
      u.bare (reportsOf msB ++ u.errors) ⟨(outputOf msB).reverse⟩ := by
    rw [← htrackedA.replay, ← htrackedB.replay, hmoves]
  have hfield : ∀ {α : Type} (f : Engine γ → α),
      f (t.bare (reportsOf msA ++ t.errors) ⟨(outputOf msA).reverse⟩) =
        f (u.bare (reportsOf msB ++ u.errors) ⟨(outputOf msB).reverse⟩) := fun f => congrArg f hbare
  have hended : t.isIdle = u.isIdle := by
    rw [← bare_isIdle (reportsOf msA ++ t.errors) ⟨(outputOf msA).reverse⟩, hbare, bare_isIdle]
  have houtput : (outputOf msA).reverse = (outputOf msB).reverse :=
    hfield (·.transcript.newestFirst)
  exact {
    listing := hfield (·.listing)
    machine := hfield (·.machine)
    calls := hfield (·.calls)
    cursor := hfield (·.cursor)
    branch := hfield (·.branch)
    queue := hfield (·.queue)
    pending := hfield (·.pending)
    errors := hfield (·.errors)
    output := List.reverse_inj.1 houtput
    ended := by rw [hended]
    unhindered := hunhindered
    notices := htrackedB.notices
    progress := htrackedB.held }

/-- A program that asks for a value, and writes it. -/
def asking : List (Operation ChaCha) :=
  [.act (.enter "10 INPUT A"), .act (.enter "20 PRINT A"), .act (.enter "30 END")]

/-- The run of the program without breakpoints. -/
def straight : List (Operation ChaCha) := [.poll 4, .act (.enter "7"), .poll 4]

/-- The run with breakpoints on its first two lines, the first of which is executed as a single
    step. -/
def stepwise : List (Operation ChaCha) :=
  [.poll 4, .act .step, .poll 4, .act (.enter "7"), .poll 4, .act .resume, .poll 4]

/-- The run that is stepped and resumed agrees with the one without breakpoints. -/
theorem debugger_transparent_stepwise :
    let s := (start (ChaCha.ofSeed 1)).run asking
    let a := s.launched .empty ⟨"RUN", .run ⟨0, 3⟩ []⟩
    let b := s.launched { lines := [10, 20] } ⟨"RUN", .run ⟨0, 3⟩ []⟩
    Agree (a.trail straight) (a.run straight) (b.trail stepwise) (b.run stepwise) := by
  intro s a b
  have hA : ∀ m ∈ a.trail straight, m.IsSupervised := by
    refine supervised_poll (supervised_act ?_ (supervised_poll supervised_nil))
    show Option.isSome _ = true
    decide +kernel
  have hB : ∀ m ∈ b.trail stepwise, m.IsSupervised := by
    refine supervised_poll (supervised_act ?_ (supervised_poll (supervised_act ?_ (supervised_poll
      (supervised_act ?_ (supervised_poll supervised_nil))))))
    · exact ⟨stepRun, _, rfl, ask?_done (by decide +kernel)⟩
    · show Option.isSome _ = true
      decide +kernel
    · exact ⟨resumeRun, _, rfl, ask?_done (by decide +kernel)⟩
  exact debugger_transparent (by decide +kernel) (by decide +kernel) _ _ straight stepwise hA hB
    (by decide +kernel) (by decide +kernel)

end LineBasic
