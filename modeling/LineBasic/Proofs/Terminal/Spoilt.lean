import LineBasic.Proofs.Engine.Account
import LineBasic.Proofs.Engine.Idle
import LineBasic.Proofs.Terminal.File

namespace LineBasic

open Engine

/-!
# Spoilt loads

Whether a load counts as one without errors is read off the mode that the engine is in at its end.
An error leaves its mark there, but a direct statement that still waits to be carried out can remove
it.

* `Operation.isFeeding`, `Moment.isFeeding` -- what is done between the beginning and the end of a
  load;
* `Moment.Errs` -- an error is noticed in a moment; `errs_of_unreadable`, `errs_of_bad_line`,
  `errs_of_bad_direct` -- the reasons for one;
* `Moment.Overrides` -- a direct statement ends or begins a run;
* `Engine.Heeds`, `Moment.heeds` -- an error that is noticed spoils the load;
* `Moment.stays_spoilt` -- a load stays spoilt as long as no direct statement overrides that;
* `Engine.endLoad_of_errs` -- the main result.
-/

variable {γ : Type}

/-! ### What is done during a load -/

/-- Whether an operation lets the engine work or enters a text. -/
def Operation.isFeeding : Operation γ → Bool
  | .poll _ | .act (.enter _) | .act .advance => true
  | _ => false

/-- Whether a moment belongs to an operation that lets the engine work or enters a text. -/
def Moment.isFeeding : Moment γ → Bool
  | .tick _ | .act _ (.enter _) | .act _ .advance => true
  | _ => false

/-- Whether a statement ends a run or begins one when it is carried out directly. -/
def Statement.setsMode : Statement → Bool
  | .halt _ | .clear _ | .goto .. | .run .. => true
  | _ => false

namespace Moment

variable [RandomSource γ]

/-- Whether an error is noticed in a moment. -/
def Errs (m : Moment γ) : Prop := ∃ d, m.after.errors = m.before.errors ++ [d]

/-- Whether a direct statement that is carried out in a moment comes to one that ends or begins a
    run. -/
def Overrides (m : Moment γ) : Prop :=
  ∃ statement body machine, m.CarriesOut none statement ∧
    statement.comesTo? m.before.machine = some (body, machine) ∧ body.setsMode

end Moment

section Feeding

variable [RandomSource γ]

/-- Every step of a poll lets the engine work. -/
theorem isFeeding_of_mem_ticks (budget : Nat) (s : Engine γ) :
    ∀ m ∈ ticks budget s, m.isFeeding := by
  induction budget generalizing s with
  | zero => simp [ticks]
  | succ budget ih =>
    refine List.forall_mem_cons.2 ⟨rfl, ?_⟩
    cases s.tick with
    | inl result => simp
    | inr t => exact ih t

/-- Operations that let the engine work or enter a text have only moments of that kind. -/
theorem isFeeding_of_mem_trail {ops : List (Operation γ)} (h : ∀ op ∈ ops, op.isFeeding)
    (s : Engine γ) :
    ∀ m ∈ s.trail ops, m.isFeeding := by
  induction ops generalizing s with
  | nil => simp [trail]
  | cons op ops ih =>
    obtain ⟨hop, hops⟩ := List.forall_mem_cons.1 h
    refine List.forall_mem_append.2 ⟨?_, ih hops _⟩
    cases op with
    | poll budget => exact isFeeding_of_mem_ticks budget s
    | act a =>
      cases a with
      | enter text => exact List.forall_mem_singleton.2 rfl
      | advance => exact List.forall_mem_singleton.2 rfl
      | _ => cases hop

omit [RandomSource γ] in
/-- No breakpoint is set while texts are entered. -/
theorem Moment.not_marks {m : Moment γ} (h : m.isFeeding) (n : Nat) : ¬ m.Marks n := by
  cases m with
  | tick s => exact id
  | act s a =>
    cases a with
    | enter text => simp [Marks]
    | advance => simp [Marks]
    | _ => cases h

end Feeding

/-! ### Errors spoil a load -/

namespace Engine

variable {s t u : Engine γ}

/-- A load goes on, and an error that is noticed spoils it. -/
structure Heeds (s t : Engine γ) : Prop where
  /-- The load is not over. -/
  loading : s.isLoading → t.isLoading
  /-- Errors are the same as before, or have been collected, or the load is spoilt. -/
  errors : t.errors = s.errors ∨ t.errors = [] ∨ (s.isLoading → t.mode = .loadFailed)

/-- Errors are heeded where there are no new ones. -/
theorem Heeds.of_same (herrors : t.errors = s.errors) (hfile : t.fileLine = s.fileLine) :
    s.Heeds t :=
  ⟨fun h => by rwa [isLoading, hfile], .inl herrors⟩

/-- Errors are heeded where nothing happens. -/
theorem Heeds.refl : s.Heeds s := .of_same rfl rfl

/-- What changes neither the errors nor the load may come before. -/
theorem Heeds.after (h : t.Heeds u) (herrors : t.errors = s.errors)
    (hloading : t.isLoading = s.isLoading) :
    s.Heeds u where
  loading hs := h.loading (hloading ▸ hs)
  errors := by
    rw [← herrors, ← hloading]
    exact h.errors

/-- A failure does not end a load. -/
theorem fail_isLoading (d : Diagnostic) : (s.fail d).isLoading = s.isLoading :=
  calc (s.fail d).isLoading
      = (s.noted d).stopRun.isLoading := spoilLoad_same _ (·.isLoading) rfl
    _ = (s.noted d).isLoading := stopRun_same _ (·.isLoading) stop_isLoading

/-- A failure during a load spoils it. -/
theorem fail_mode_of_isLoading (h : s.isLoading) (d : Diagnostic) :
    (s.fail d).mode = .loadFailed := by
  have hstopped : (s.noted d).stopRun.isLoading :=
    (stopRun_same _ (·.isLoading) stop_isLoading).trans h
  rw [fail_eq, spoilLoad, if_pos hstopped]

/-- A failure is heeded. -/
theorem heeds_fail (d : Diagnostic) : s.Heeds (s.fail d) :=
  ⟨fun h => (fail_isLoading d).trans h, .inr (.inr fun h => fail_mode_of_isLoading h d)⟩

/-- The errors at the end of a program line are heeded. -/
theorem heeds_finishLine : s.Heeds s.finishLine.2 := by
  generalize hr : s.finishLine = r
  cases hr ▸ finishLine_cases s with
  | moved n hn hstepping => exact .of_same rfl rfl
  | stepped n hn hstepping => exact .of_same rfl rfl
  | fellOff hn => exact heeds_fail _

variable [RandomSource γ]

/-- The errors of a program line are heeded. -/
theorem heeds_executeLine (line : Line) : s.Heeds (s.executeLine line).2 := by
  -- What the statement leaves differs in nothing that matters here, even once its time has been
  -- written.
  have hloading : ∀ t : Engine γ, s.IsLike t → t.isLoading = s.isLoading := fun t h => by
    rw [isLoading, h.fileLine, isLoading]
  generalize hr : s.executeLine line = r
  cases hr ▸ executeLine_cases s line with
  | failed fault t h =>
    have hlike := (execute_error_isLike h).of_begun
    exact (heeds_fail _).after hlike.errors (hloading _ hlike)
  | ended t h _ =>
    have hlike := (execute_ok_isLike h).of_begun
    exact .of_same hlike.errors hlike.fileLine
  | asked t h _ _ =>
    have hlike := (execute_ok_isLike h).of_begun
    exact .of_same hlike.errors hlike.fileLine
  | finished t h _ _ =>
    have hlike := (execute_ok_isLike h).of_begun
    exact heeds_finishLine.after hlike.errors (hloading _ hlike)

/-- The errors of a step of the run are heeded. -/
theorem heeds_advance (s : Engine γ) : s.Heeds s.advance.2 := by
  generalize hr : s.advance = r
  cases hr ▸ advance_cases s with
  | idle _ => exact .refl
  | waiting _ _ => exact .refl
  | lost _ _ _ => exact heeds_fail _
  | stopped line _ _ _ _ _ =>
    rw [pauseAt_eq]
    exact .of_same rfl rfl
  | executed line _ => exact (heeds_executeLine line).after rfl rfl

/-- The errors of a direct statement that is carried out are heeded. -/
theorem heeds_carryOut (s : Engine γ) (d : DirectStatement) : s.Heeds (s.carryOut d) := by
  unfold carryOut
  split
  next t h =>
    obtain ⟨herrors, hfile, -⟩ := execute_ok_isLike h
    exact .of_same herrors hfile
  next fault t h =>
    obtain ⟨herrors, hfile, -⟩ := execute_error_isLike h
    exact (heeds_fail _).after herrors (by rw [isLoading, hfile, isLoading])

/-- The errors of a step of a poll are heeded. -/
theorem heeds_ticked (s : Engine γ) : s.Heeds s.ticked := by
  unfold ticked
  generalize hr : s.tick = r
  cases hr ▸ tick_cases s with
  | errors _ => exact ⟨id, .inr (.inl rfl)⟩
  | input _ _ _ => exact .refl
  | direct d _ _ _ => exact (heeds_carryOut _ d).after rfl rfl
  | program _ => exact heeds_advance s
  | paused _ _ _ _ => exact .refl
  | stopped _ _ _ _ => exact .refl

/-- The errors of an answer are heeded. -/
theorem heeds_answer (s : Engine γ) (q : Inquiry) (text : String) : s.Heeds (s.answer q text) := by
  generalize hr : s.answer q text = r
  cases hr ▸ answer_cases s q text with
  | failed machine d _ _ => exact (heeds_fail d).after rfl rfl
  | more machine transcript awaiting => exact .of_same rfl rfl
  | finished machine transcript _ => exact .of_same rfl rfl
  | resumed machine transcript _ _ => exact heeds_finishLine.after rfl rfl

omit [RandomSource γ] in
/-- The one error that does not spoil a load is the refusal to delete a line of a suspended run. -/
theorem heeds_delete (hmode : s.mode ≠ .paused) (n : Nat) : s.Heeds (s.delete n) := by
  unfold Engine.delete
  rw [if_neg hmode]
  split
  · exact .of_same rfl rfl
  · split
    · exact .refl
    · exact heeds_fail _

omit [RandomSource γ] in
/-- The errors of an entry are heeded, outside a suspended run. -/
theorem heeds_accept (hmode : s.mode ≠ .paused) (source : String) (entry : Entry) :
    s.Heeds (s.accept source entry) := by
  unfold Engine.accept
  cases entry with
  | store n statement =>
    dsimp only
    rw [traced_eq]
    exact .of_same rfl rfl
  | delete n =>
    dsimp only
    rw [traced_eq]
    exact (heeds_delete (by exact hmode) n).after rfl rfl
  | direct statement =>
    dsimp only
    rw [traced_eq]
    exact .of_same rfl rfl

/-- The errors of a text that is entered are heeded, outside a suspended run. -/
theorem heeds_enter (hmode : s.mode ≠ .paused) (text : String) : s.Heeds (s.enter text).2 := by
  have hcounted : s.counted.isLoading = s.isLoading := Option.isSome_map
  cases hpending : s.pending with
  | some q =>
    rw [enter_of_pending hpending]
    exact (heeds_answer s.counted q text).after rfl hcounted
  | none =>
    have hnoticed : s.Heeds s.counted := Heeds.refl.after rfl hcounted
    rw [enter_of_pending_none hpending]
    split
    · exact hnoticed
    · split
      next d _ => exact (heeds_fail d).after rfl hcounted
      next entry _ =>
        split
        · exact hnoticed
        · exact (heeds_accept (by exact hmode) _ entry).after rfl hcounted

end Engine

variable [RandomSource γ] {m : Moment γ} {s : Engine γ}

/-- What is done during a load heeds errors, as long as no run is suspended. -/
theorem Moment.heeds (h : m.isFeeding) (hmode : m.before.mode ≠ .paused) :
    m.before.Heeds m.after := by
  cases m with
  | tick s => exact heeds_ticked s
  | act s a =>
    cases a with
    | enter text => exact heeds_enter hmode text
    | advance => exact heeds_advance s
    | _ => cases h

/-- An error that is noticed during a load spoils it. -/
theorem Moment.Errs.spoils (h : m.Errs) (hfeeding : m.isFeeding) (hmode : m.before.mode ≠ .paused)
    (hloading : m.before.isLoading) : m.after.mode = .loadFailed := by
  obtain ⟨d, herrs⟩ := h
  rcases (m.heeds hfeeding hmode).errors with hsame | hnone | hspoilt
  · simp [herrs] at hsame
  · simp [herrs] at hnone
  · exact hspoilt hloading

/-! ### Reasons for errors -/

namespace Moment

/-- A text that cannot be read is an error, unless it is taken for answers. -/
theorem errs_of_unreadable {text : String} (hpending : s.pending = none)
    (hsound : Entry.isSound text = false) :
    (act s (.enter text)).Errs := by
  obtain ⟨hspace, d, hentry⟩ := Entry.isSound_eq_false.1 hsound
  have henter : (s.enter text).2 = s.counted.fail d := by
    rw [enter_of_pending_none hpending, allSpace_trimmed, Entry.ofText_trimmed, hentry]
    exact if_neg (by simp [hspace])
  exact ⟨s.counted.placed d, (congrArg Engine.errors henter).trans (fail_errors _ d)⟩

/-- A program line whose statement fails is an error. -/
theorem errs_of_bad_line {line : Line} {fault : Fault} {t : Engine γ}
    (hexecuted : m.executed? = some line)
    (hexecute : execute (some line.number) line.statement
      ({ m.before with resume := false }.begun line) = .error fault t) :
    m.Errs := by
  have hadvance := isAdvance_of_executed hexecuted
  obtain ⟨hafter, hsame⟩ := isAdvance_spec hadvance
  have hopen : m.before.IsOpen line := executed?_eq_some.1 (hsame ▸ hexecuted)
  have herrors : (t.timed line).errors = m.before.errors := by
    rw [timed_eq]
    show t.errors = _
    rw [(execute_error_isLike hexecute).errors, begun_eq]
  rw [Errs, hafter, advance_of_isOpen hopen, executeLine_of_error hexecute, fail_errors, herrors]
  exact ⟨_, rfl⟩

/-- A direct statement that fails is an error. -/
theorem errs_of_bad_direct {d : DirectStatement} {fault : Fault} {t : Engine γ}
    (herrors : s.errors = []) (hpending : s.pending = none) (hdirect : s.direct = some d)
    (hexecute : execute none d.statement { s with direct := none } = .error fault t) :
    (tick s).Errs := by
  have hafter : s.ticked = t.fail (fault.diagnostic.inSource d.source) := by
    rw [ticked_of_direct herrors hpending hdirect]
    simp only [carryOut, hexecute]
  show ∃ d, s.ticked.errors = s.errors ++ [d]
  rw [hafter, fail_errors, (execute_error_isLike hexecute).errors]
  exact ⟨_, rfl⟩

/-- A direct statement overrides nothing if the statement inside its `IF`s neither ends nor begins a
    run. -/
theorem not_overrides (h : m.before.direct.all fun d => !d.statement.core.setsMode) :
    ¬ m.Overrides := by
  rintro ⟨statement, body, machine, hcarries, hcomes, hsets⟩
  cases hcarries with
  | @direct s d _ _ hdirect =>
    have hcore : d.statement.core.setsMode = false := by
      simpa [show (tick s).before.direct = some d from hdirect] using h
    rw [← Statement.eq_core_of_comesTo? hcomes, hsets] at hcore
    cases hcore

end Moment

/-! ### Spoilt loads stay spoilt -/

namespace Engine

/-- A direct statement that neither ends nor begins a run leaves the mode as it is. -/
theorem execute_mode {statement : Statement} {t : Engine γ} {u : Unit}
    (hkeeps : ∀ body m, statement.comesTo? s.machine = some (body, m) → body.setsMode = false)
    (h : execute none statement s = .ok u t) : t.mode = s.mode := by
  rcases execute_ok h with ⟨-, m, rfl⟩ | ⟨body, m, effect, m', hcomes, hdoes, rfl⟩
  · rfl
  · have hbody := hkeeps body m hcomes
    cases hdoes with
    | input => rw [Effect.apply, ask_eq]
    | goto hline => cases hline
    | gosub hline => cases hline
    | restart hline => cases hline
    | clear | halt | launchAt | launch => cases hbody
    | _ => rfl

/-- A spoilt load stays so over a step that carries out no statement that ends or begins a run. -/
theorem ticked_spoilt (hloading : s.isLoading) (hspoilt : s.mode = .loadFailed)
    (hkeeps : ¬ (Moment.tick s).Overrides) : s.ticked.mode = .loadFailed := by
  unfold ticked
  generalize hr : s.tick = r
  cases hr ▸ tick_cases s with
  | errors _ | input _ _ _ | paused _ _ _ _ | stopped _ _ _ _ => exact hspoilt
  | direct d herrors hpending hdirect =>
    show ({ s with direct := none }.carryOut d).mode = .loadFailed
    unfold carryOut
    split
    next t hexecute =>
      refine (execute_mode (fun body machine hcomes => ?_) hexecute).trans hspoilt
      exact Bool.eq_false_iff.2 fun hsets =>
        hkeeps ⟨d.statement, body, machine, .direct herrors hpending hdirect, hcomes, hsets⟩
    next fault t hexecute =>
      refine fail_mode_of_isLoading ?_ _
      rw [isLoading, (execute_error_isLike hexecute).2]
      exact hloading
  | program hturn =>
    have hmode := (isProgramTurn_iff.1 hturn).2.2.2
    simp [hspoilt] at hmode

/-- A spoilt load stays so over an answer. -/
theorem answer_spoilt (hloading : s.isLoading) (hspoilt : s.mode = .loadFailed) (q : Inquiry)
    (text : String) :
    (s.answer q text).mode = .loadFailed := by
  generalize hr : s.answer q text = r
  cases hr ▸ answer_cases s q text with
  | failed machine d _ _ => exact fail_mode_of_isLoading (by exact hloading) d
  | more _ _ _ | finished _ _ _ => exact hspoilt
  | resumed _ _ _ hmode => simp [hspoilt] at hmode

/-- A spoilt load stays so over a text that is entered. -/
theorem enter_spoilt (hloading : s.isLoading) (hspoilt : s.mode = .loadFailed) (text : String) :
    (s.enter text).2.mode = .loadFailed := by
  have hcounted : s.counted.isLoading := Option.isSome_map.trans hloading
  cases hpending : s.pending with
  | some q =>
    rw [enter_of_pending hpending]
    exact answer_spoilt hcounted hspoilt q text
  | none =>
    rw [enter_of_pending_none hpending]
    split
    · exact hspoilt
    · split
      next d _ => exact fail_mode_of_isLoading hcounted d
      next entry _ => exact hspoilt

end Engine

/-- A load that has been spoilt stays so, unless a direct statement ends or begins a run. -/
theorem Moment.stays_spoilt (h : m.isFeeding) (hloading : m.before.isLoading)
    (hspoilt : m.before.mode = .loadFailed) (hkeeps : ¬ m.Overrides) :
    m.after.mode = .loadFailed := by
  cases m with
  | tick s => exact ticked_spoilt hloading hspoilt hkeeps
  | act s a =>
    cases a with
    | enter text => exact enter_spoilt hloading hspoilt text
    | advance =>
      have hmode : s.mode = .loadFailed := hspoilt
      have hidle : s.advance = (.ended, s) := if_pos (by simp [hmode])
      show s.advance.2.mode = .loadFailed
      rw [hidle, hmode]
    | _ => cases h

/-- A load goes on, and no run is suspended in it, because no breakpoint is set. -/
theorem Moment.stays_loading (h : m.isFeeding) (hs : m.before.Kept ∧ m.before.isLoading) :
    m.after.Kept ∧ m.after.isLoading := by
  have hmode : m.before.mode ≠ .paused := fun hpaused => by simp [hs.1.paused hpaused] at hs
  exact ⟨moment_kept (fun n hmarks => absurd hmarks (m.not_marks h n)) hs.1,
    (m.heeds h hmode).loading hs.2⟩

namespace Engine

/-- **Failed loads.**  Let texts be entered after the beginning of a load and the engine be let
work, in any order and in whatever state the engine was before. If an error is noticed, and no
direct statement that is carried out after that ends or begins a run, then the load counts as
failed. -/
theorem endLoad_of_errs (s : Engine γ) {ops : List (Operation γ)} (hops : ∀ op ∈ ops, op.isFeeding)
    {past future : List (Moment γ)} (htrail : s.beginLoad.trail ops = past ++ m :: future)
    (herrs : m.Errs) (hkeeps : ∀ k ∈ future, ¬ k.Overrides) :
    ((s.run (.act .beginLoad :: ops)).respond .endLoad).1 = .loaded false := by
  have hfeeding := isFeeding_of_mem_trail hops s.beginLoad
  have hpath := path_trail s.beginLoad ops
  rw [htrail] at hfeeding hpath
  obtain ⟨hpast, hfuture⟩ := hpath.split
  have hbegin : s.beginLoad.Kept ∧ s.beginLoad.isLoading :=
    ⟨kept_stop fun _ => rfl, by rw [beginLoad, stop_isLoading]; rfl⟩
  -- The load goes on up to the error, which spoils it, and stays spoilt from there to its end.
  have hbefore : m.before.Kept ∧ m.before.isLoading :=
    hpast.preserves (I := fun t => t.Kept ∧ t.isLoading) hbegin fun k hk =>
      k.stays_loading (hfeeding k (List.mem_append_left _ hk))
  have hm : m.isFeeding := hfeeding m (by simp)
  have hmode : m.before.mode ≠ .paused :=
    fun hpaused => by simp [hbefore.1.paused hpaused] at hbefore
  have hafter := m.stays_loading hm hbefore
  have hspoilt : m.after.mode = .loadFailed := herrs.spoils hm hmode hbefore.2
  have hend : ((s.beginLoad.run ops).Kept ∧ (s.beginLoad.run ops).isLoading) ∧
      (s.beginLoad.run ops).mode = .loadFailed :=
    hfuture.preserves (I := fun t => (t.Kept ∧ t.isLoading) ∧ t.mode = .loadFailed)
      ⟨hafter, hspoilt⟩
      fun k hk hs => ⟨k.stays_loading (hfeeding k (by simp [hk])) hs.1,
        k.stays_spoilt (hfeeding k (by simp [hk])) hs.1.2 hs.2 (hkeeps k hk)⟩
  show Reply.loaded (decide ((s.beginLoad.run ops).mode ≠ .loadFailed)) = .loaded false
  rw [hend.2]
  rfl

/-- A line that can be read, and a direct statement that waits. -/
def linesBefore : List (Operation ChaCha) :=
  [.act (.enter "10 PRINT A"), .poll 2, .act (.enter "PRINT 1")]

/-- The waiting statement is carried out once the error has been collected. -/
def linesAfter : List (Operation ChaCha) :=
  [.poll 5, .poll 5, .act (.enter "20 END"), .act .advance]

/-- Such a load: a line that cannot be read stands between two stretches of good ones. -/
theorem endLoad_of_errs_badLine :
    let s := (start (ChaCha.ofSeed 1)).beginLoad.run linesBefore
    let ops := linesBefore ++ .act (.enter "20 LET = 3") :: linesAfter
    s.direct.isSome ∧ (∀ op ∈ ops, op.isFeeding) ∧ (Moment.act s (.enter "20 LET = 3")).Errs ∧
      (∀ k ∈ (s.enter "20 LET = 3").2.trail linesAfter, ¬ k.Overrides) ∧
      (((start (ChaCha.ofSeed 1)).run (.act .beginLoad :: ops)).respond .endLoad).1 =
      .loaded false := by
  intro s ops
  have hdirect : s.direct.isSome := by decide +kernel
  have hops : ∀ op ∈ ops, op.isFeeding := by decide +kernel
  have hpending : s.pending = none := by decide +kernel
  have herrs : (Moment.act s (.enter "20 LET = 3")).Errs :=
    Moment.errs_of_unreadable hpending (by decide +kernel)
  have hkeeps : ∀ k ∈ (s.enter "20 LET = 3").2.trail linesAfter, ¬ k.Overrides := by
    have hall : ∀ k ∈ (s.enter "20 LET = 3").2.trail linesAfter,
        k.before.direct.all fun d => !d.statement.core.setsMode := by decide +kernel
    exact fun k hk => Moment.not_overrides (hall k hk)
  exact ⟨hdirect, hops, herrs, hkeeps,
    endLoad_of_errs _ hops (trail_append _ linesBefore _) herrs hkeeps⟩

/-- A direct `END` that waits, and a line that cannot be read. -/
def endThenError : List (Operation ChaCha) :=
  [.act (.enter "END"), .act (.enter "?"), .poll 5, .poll 5]

/-- A load in which an error has been noticed counts as one without errors if a direct `END` is
carried out after that. -/
theorem endLoad_clean_endThenError :
    let s := start (ChaCha.ofSeed 1)
    (∀ op ∈ endThenError, op.isFeeding) ∧
      (∃ past m future, s.beginLoad.trail endThenError = past ++ m :: future ∧ m.Errs) ∧
      ((s.run (.act .beginLoad :: endThenError)).respond .endLoad).1 = .loaded true := by
  intro s
  have hpending : (s.beginLoad.enter "END").2.pending = none := by decide +kernel
  have herrs : (Moment.act (s.beginLoad.enter "END").2 (.enter "?")).Errs :=
    Moment.errs_of_unreadable hpending (by decide +kernel)
  have hclean : ((s.run (.act .beginLoad :: endThenError)).respond .endLoad).1 = .loaded true := by
    decide +kernel
  exact ⟨by decide +kernel, ⟨[.act s.beginLoad (.enter "END")], _, _, rfl, herrs⟩, hclean⟩

end Engine

end LineBasic
