import LineBasic.Proofs.Engine.Refused

namespace LineBasic

open Engine

/-!
# Direct statements while a run is suspended

While a run is suspended its program can be looked at and its variables changed by direct
statements.  The run itself is spared, unless a direct statement ends it.

* `Engine.Spares` -- what direct statements may change;
* `Engine.execute_movesRun` -- a direct statement that would move the run is refused before anything
  is evaluated;
* `Engine.spares_carryOut`, `Engine.spares_answer`, `Engine.spares_enter` -- what carrying out a
  direct statement, answers and entries come to;
* `Moment.sparesRun` -- any moment in which no program line is stored and no request is made;
* `Engine.direct_statements_spare` -- the main result, for all sequences of such moments.
-/

variable {γ : Type}

/-- Whether a statement ends a run. -/
def Statement.endsRun : Statement → Bool
  | .clear _ | .halt _ => true
  | _ => false

/-- Whether a statement moves or begins a run. -/
def Statement.movesRun : Statement → Bool
  | .goto .. | .gosub .. | .ret _ | .run .. => true
  | _ => false

namespace Engine

variable {s t u : Engine γ}

/-- The engine `t` is the engine `s`, but for the variables, the memory and the random source, the
    values of `RUN`, the question that is pending, and what is written and reported. -/
def Spares (s t : Engine γ) : Prop :=
  t = { s with
    machine := t.machine, queue := t.queue, pending := t.pending, errors := t.errors,
    transcript := t.transcript }

/-- The same, but for the direct statement that has been put by. -/
def SparesRun (s t : Engine γ) : Prop := Spares { s with direct := t.direct } t

/-- Doing nothing spares everything. -/
theorem Spares.refl (s : Engine γ) : Spares s s := rfl

/-- Sparing twice is sparing. -/
theorem Spares.trans (h : Spares s t) (h' : Spares t u) : Spares s u := by
  unfold Spares at *
  rw [h', h]

/-- What spares the run leaves the mode alone. -/
theorem Spares.mode (h : Spares s t) : t.mode = s.mode := by rw [h]

/-- What spares the run neither begins nor ends a load. -/
theorem Spares.isLoading (h : Spares s t) : t.isLoading = s.isLoading := by rw [h]; rfl

/-- What spares everything leaves the direct statement that has been put by. -/
theorem Spares.direct (h : Spares s t) : t.direct = s.direct := by rw [h]

/-- What spares everything but the direct statement spares the run. -/
theorem Spares.sparesRun {direct : Option DirectStatement} (h : Spares { s with direct } t) :
    SparesRun s t := by
  unfold SparesRun
  rw [h.direct]
  exact h

/-- Doing nothing spares the run. -/
theorem SparesRun.refl (s : Engine γ) : SparesRun s s := Spares.refl s

/-- Sparing the run twice is sparing it. -/
theorem SparesRun.trans (h : SparesRun s t) (h' : SparesRun t u) : SparesRun s u := by
  unfold SparesRun Spares at *
  rw [h', h]

/-! ### Failures and questions -/

/-- A failure ends nothing where a run is suspended. -/
theorem Spares.fail (h : Spares s t) (hmode : s.mode = .paused) (hloading : s.isLoading = false)
    (d : Diagnostic) :
    Spares s (t.fail d) := by
  -- A failure gives up the question first, so it is one where no question is pending.
  have hpending : t.fail d = ({ t with pending := none } : Engine γ).fail d := rfl
  have hrunning : t.mode ≠ .running := by simp [h.mode, hmode]
  rw [hpending, fail_eq_report (by exact hrunning) (by exact h.isLoading.trans hloading) rfl]
  exact h.trans rfl

/-- Taking values of `RUN` and asking for more spares the run. -/
theorem Spares.ask (h : Spares s t) (line : Option Nat) (xs : List Letter) :
    Spares s (ask line t xs) := by
  induction xs generalizing t with
  | nil => exact h
  | cons x xs ih =>
    unfold Engine.ask
    split
    · exact h.trans rfl
    · exact ih (h.trans rfl)

variable [RandomSource γ]

/-! ### Direct statements -/

/-- A direct statement that would move the run is refused, whatever its expressions are. -/
theorem execute_movesRun {body : Statement} (hmode : s.mode = .paused) (hmoves : body.movesRun) :
    execute none body s = .error ⟨.useContinue, body.span⟩ s := by
  have hguard : ∀ span, guardPaused span none s = .error ⟨.useContinue, span⟩ s := by
    intro span
    unfold guardPaused
    rw [get_bind, if_pos (by simp [hmode])]
    rfl
  cases body with
  | goto span | gosub span | ret span | run span => exact bind_of_error (hguard span)
  | _ => cases hmoves

/-- What a direct statement does while a run is suspended spares the run, unless it ends it. -/
theorem spares_does {body : Statement} {effect : Effect} {m k : Machine γ}
    (hmode : s.mode = .paused) (h : Does none { s with machine := m } body effect k)
    (hends : body.endsRun = false) :
    Spares s (effect.apply none { s with machine := k }) := by
  -- The effects that move a run are those of program lines, or of direct statements while no run is
  -- suspended.
  cases h with
  | remark | assign | print | list => rfl
  | input =>
    have hsame : Spares s { s with machine := m } := rfl
    exact hsame.ask none _
  | clear | halt => cases hends
  | goto hline | gosub hline | restart hline => cases hline
  | ret hrunning => exact absurd hmode (hrunning rfl)
  | launchAt _ hrunning | launch _ hrunning => exact absurd hmode hrunning

/-- A direct statement that does not come to `END` or `CLEAR` spares a suspended run. -/
theorem spares_carryOut (hmode : s.mode = .paused) (hloading : s.isLoading = false)
    (d : DirectStatement)
    (hends : ∀ body m, d.statement.comesTo? s.machine = some (body, m) → body.endsRun = false) :
    Spares s (s.carryOut d) := by
  unfold carryOut
  split
  next t h =>
    rcases execute_ok h with ⟨-, m, rfl⟩ | ⟨body, m, effect, k, hcomes, hdoes, rfl⟩
    · rfl
    · exact spares_does hmode hdoes (hends body m hcomes)
  next fault t h =>
    obtain ⟨⟨m, rfl⟩, -⟩ := execute_error h
    have hsame : Spares s { s with machine := m } := rfl
    exact hsame.fail hmode hloading _

/-- A direct statement that comes to one that would move the run only reports that it is refused. -/
theorem carryOut_movesRun {d : DirectStatement} {body : Statement} {m : Machine γ}
    (hmode : s.mode = .paused) (hloading : s.isLoading = false) (hpending : s.pending = none)
    (hcomes : d.statement.comesTo? s.machine = some (body, m)) (hmoves : body.movesRun) :
    s.carryOut d = ({ s with machine := m } : Engine γ).report
      ((Fault.mk .useContinue body.span).diagnostic.inSource d.source) := by
  have hrefused : execute none d.statement s =
      .error ⟨.useContinue, body.span⟩ { s with machine := m } :=
    (execute_comesTo hcomes).trans (execute_movesRun hmode hmoves)
  rw [carryOut, hrefused]
  exact fail_eq_report (s := { s with machine := m }) (by simp [hmode])
    (by exact hloading) hpending _

/-! ### Other moments -/

/-- A suspended run does not go on of itself. -/
theorem spares_advance (hmode : s.mode = .paused) : Spares s s.advance.2 := by
  rw [advance, if_pos (by simp [hmode])]
  exact Spares.refl s

omit [RandomSource γ] in
/-- An interruption spares a suspended run. -/
theorem spares_interrupt (hmode : s.mode = .paused) (hloading : s.isLoading = false) :
    Spares s s.interrupt := by
  unfold interrupt
  split
  · exact (Spares.refl s).fail hmode hloading _
  · rw [if_neg (by simp [hmode])]
    exact Spares.refl s

/-- Answers spare a suspended run, whether they are good or bad. -/
theorem spares_answer (hmode : s.mode = .paused) (hloading : s.isLoading = false) (q : Inquiry)
    (text : String) :
    Spares s (s.answer q text) := by
  generalize ht : s.answer q text = t
  cases ht ▸ answer_cases s q text with
  | failed m d =>
    have hsame : Spares s { s with machine := m, pending := none } := rfl
    exact hsame.fail hmode hloading d
  | more | finished => rfl
  | resumed _ _ _ hrunning => simp [hmode] at hrunning

/-- Whatever is entered, unless it is a line to be stored, spares the run.  A direct statement is
    put by. -/
theorem spares_enter (hmode : s.mode = .paused) (hloading : s.isLoading = false) {text : String}
    (hstore : s.pending = none → ∀ n statement, Entry.ofText text ≠ .ok (.store n statement)) :
    SparesRun s (s.enter text).2 := by
  cases hpending : s.pending with
  | some q =>
    rw [enter_of_pending hpending, counted_eq_self hloading]
    exact (spares_answer hmode hloading q text).sparesRun
  -- A suspended run takes no deletions, and what is direct only waits for its turn.
  | none =>
    rw [enter_of_pending_none hpending, counted_eq_self hloading, Entry.ofText_trimmed]
    split
    · exact SparesRun.refl s
    split
    next d _ => exact ((Spares.refl s).fail hmode hloading d).sparesRun
    next entry hentry =>
      rw [if_neg (by simp [hmode])]
      cases entry with
      | store n statement => exact absurd hentry (hstore hpending n statement)
      | delete n =>
        show SparesRun s ((s.traced ("delete " ++ Text.ofNat n)).delete n)
        rw [traced_eq, delete_of_paused (by exact hmode)]
        rfl
      | direct statement =>
        show SparesRun s { s.traced _ with direct := some _ }
        rw [traced_eq]
        rfl

end Engine

/-! ### Moments -/

namespace Moment

variable [RandomSource γ]

/-- The direct statement that is carried out in a moment. -/
def direct? : Moment γ → Option DirectStatement
  | tick s => if s.errors = [] ∧ s.pending = none then s.direct else none
  | act _ _ => none

/-- Whether a direct statement is carried out in a moment, and comes to one that ends the run. -/
def endsRun (m : Moment γ) : Bool :=
  (m.direct?.bind fun d => d.statement.comesTo? m.before.machine).any fun (body, _) => body.endsRun

/-- Whether a moment is one of work, of an interruption or of an entry, but not of the entry of a
    line to be stored. -/
def keepsProgram : Moment γ → Bool
  | tick _ | act _ .advance | act _ .interrupt => true
  | act s (.enter text) => s.pending.isSome || match Entry.ofText text with
    | .ok (.store ..) => false
    | _ => true
  | act _ _ => false

variable {m : Moment γ}

/-- A direct statement is carried out where nothing else is due, and is forgotten. -/
theorem after_of_direct? {d : DirectStatement} (h : m.direct? = some d) :
    m.before.errors = [] ∧ m.before.pending = none ∧
      m.after = { m.before with direct := none }.carryOut d := by
  cases m with
  | act => cases h
  | tick s =>
    obtain ⟨⟨herrors, hpending⟩, hdirect⟩ := Option.ite_none_right_eq_some.1 h
    exact ⟨herrors, hpending, ticked_of_direct herrors hpending hdirect⟩

/-- What a direct statement does in the moment in which it is carried out, while a run is
    suspended. -/
theorem direct_spares {d : DirectStatement} (hmode : m.before.mode = .paused)
    (hloading : m.before.isLoading = false) (hd : m.direct? = some d) (hends : m.endsRun = false) :
    Spares { m.before with direct := none } m.after ∧
      ∀ body k, d.statement.comesTo? m.before.machine = some (body, k) → body.movesRun →
        m.after = ({ m.before with machine := k, direct := none } : Engine γ).report
          ((Fault.mk .useContinue body.span).diagnostic.inSource d.source) := by
  obtain ⟨-, hpending, hafter⟩ := after_of_direct? hd
  rw [hafter]
  refine ⟨spares_carryOut (s := { m.before with direct := none }) hmode hloading d
    fun body k hcomes => ?_, fun body k hcomes hmoves => ?_⟩
  · have hcomes : d.statement.comesTo? m.before.machine = some (body, k) := hcomes
    simpa [endsRun, hd, hcomes] using hends
  · exact carryOut_movesRun (s := { m.before with direct := none }) hmode hloading hpending
      hcomes hmoves

/-- **What one moment spares.**  A suspended run is not concerned by work, interruptions and
    entries, unless a line is stored or a direct statement ends the run. -/
theorem sparesRun (hmode : m.before.mode = .paused) (hloading : m.before.isLoading = false)
    (hkeeps : m.keepsProgram) (hends : m.endsRun = false) : SparesRun m.before m.after := by
  cases m with
  | tick s =>
    show SparesRun s s.ticked
    rw [ticked]
    generalize hr : s.tick = r
    cases hr ▸ tick_cases s with
    | errors | input | paused | stopped => rfl
    | program => exact (spares_advance hmode).sparesRun
    | direct d herrors hpending hdirect =>
      have hturn : (tick s).direct? = some d := by simp [direct?, herrors, hpending, hdirect]
      have hticked : s.ticked = { s with direct := none }.carryOut d :=
        ticked_of_direct herrors hpending hdirect
      have hspares := (direct_spares hmode hloading hturn hends).1.sparesRun
      exact hticked ▸ hspares
  | act s a =>
    cases a with
    | enter text =>
      refine spares_enter hmode hloading fun hpending n statement hentry => ?_
      have hpending : s.pending = none := hpending
      simp [keepsProgram, hpending, hentry] at hkeeps
    | advance => exact (spares_advance hmode).sparesRun
    | interrupt => exact (spares_interrupt hmode hloading).sparesRun
    | _ => cases hkeeps

end Moment

namespace Engine

variable [RandomSource γ] {s : Engine γ}

/-- What some moments in a row spare. -/
theorem sparesRun_path {t : Engine γ} {ms : List (Moment γ)} (hpath : Path s ms t)
    (hmode : s.mode = .paused) (hloading : s.isLoading = false) (hkeeps : ∀ m ∈ ms, m.keepsProgram)
    (hends : ∀ m ∈ ms, m.endsRun = false) :
    SparesRun s t :=
  hpath.preserves (SparesRun.refl s) fun m hm hs =>
    hs.trans (m.sparesRun (hs.mode.trans hmode) (hs.isLoading.trans hloading) (hkeeps m hm)
      (hends m hm))

/-- **Main result.**  While a run is suspended and no file is being loaded, direct statements are
    entered and carried out, and questions that they ask are answered well or badly.  Unless one of
    them comes to `END` or `CLEAR`, nothing changes but the variables, the memory, the random
    source, the values of `RUN`, the question that is pending, and what is written and reported, and
    a direct statement is forgotten once it has been carried out.  Each of them that comes to
    `GOTO`, `GOSUB`, `RETURN` or `RUN` is refused before anything but conditions has been
    evaluated. -/
theorem direct_statements_spare (hmode : s.mode = .paused) (hloading : s.isLoading = false)
    {ops : List (Operation γ)} (hkeeps : ∀ m ∈ s.trail ops, m.keepsProgram)
    (hends : ∀ m ∈ s.trail ops, m.endsRun = false) :
    SparesRun s (s.run ops) ∧ ∀ m ∈ s.trail ops, ∀ d, m.direct? = some d →
      Spares { m.before with direct := none } m.after ∧
      ∀ body k, d.statement.comesTo? m.before.machine = some (body, k) → body.movesRun →
        m.after = ({ m.before with machine := k, direct := none } : Engine γ).report
          ((Fault.mk .useContinue body.span).diagnostic.inSource d.source) := by
  refine ⟨sparesRun_path (path_trail s ops) hmode hloading hkeeps hends, fun m hm d hd => ?_⟩
  obtain ⟨before, after, htrail⟩ := List.append_of_mem hm
  -- Up to that moment the run has been spared, so it is still suspended then.
  have hbefore : SparesRun s m.before := by
    have hsub : ∀ k ∈ before, k ∈ s.trail ops := fun k hk => htrail ▸ List.mem_append_left _ hk
    have hpath := path_trail s ops
    rw [htrail] at hpath
    exact sparesRun_path hpath.split.1 hmode hloading (fun k hk => hkeeps k (hsub k hk))
      fun k hk => hends k (hsub k hk)
  exact m.direct_spares (hbefore.mode.trans hmode) (hbefore.isLoading.trans hloading) hd
    (hends m hm)

/-- A run that is suspended while it has a value for `INPUT` left. -/
def suspendedRun : List (Operation ChaCha) :=
  [.act (.enter "10 INPUT A"), .act (.enter "20 GOTO 10"), .act (.setBreakpoint 20),
    .act (.enter "RUN 5,6"), .poll 9]

/-- Values that are asked for directly and badly answered, and a direct jump. -/
def directWork : List (Operation ChaCha) :=
  [.act (.enter "IF A=5 THEN INPUT B,C"), .poll 9, .act (.enter "1/0"), .poll 9,
    .act (.enter "IF B=6 THEN GOTO D"), .poll 9]

/-- The bad answer and the direct jump spare the run, and the jump is refused. -/
theorem direct_statements_spare_directWork :
    let s := (start (ChaCha.ofSeed 1)).run suspendedRun
    s.mode = .paused ∧ s.isLoading = false ∧ (∀ m ∈ s.trail directWork, m.keepsProgram) ∧
      (∀ m ∈ s.trail directWork, m.endsRun = false) ∧ SparesRun s (s.run directWork) ∧
      ∃ m ∈ s.trail directWork, ∃ d, m.after.errors = m.before.errors ++ [d] ∧
      d.code = .useContinue := by
  intro s
  have hmode : s.mode = .paused := by decide +kernel
  have hloading : s.isLoading = false := by decide +kernel
  have hkeeps : ∀ m ∈ s.trail directWork, m.keepsProgram := by decide +kernel
  have hends : ∀ m ∈ s.trail directWork, m.endsRun = false := by decide +kernel
  have hmoves : ∃ m ∈ s.trail directWork, (m.direct?.bind fun d =>
      d.statement.comesTo? m.before.machine).any (fun (body, _) => body.movesRun) := by
        decide +kernel
  obtain ⟨hspares, hdirect⟩ := direct_statements_spare hmode hloading hkeeps hends
  refine ⟨hmode, hloading, hkeeps, hends, hspares, ?_⟩
  obtain ⟨m, hm, hmoves⟩ := hmoves
  obtain ⟨⟨body, k⟩, hturn, hmoves⟩ := (Option.any_eq_true ..).1 hmoves
  obtain ⟨d, hd, hcomes⟩ := Option.bind_eq_some_iff.1 hturn
  refine ⟨m, hm, (Fault.mk .useContinue body.span).diagnostic.inSource d.source, ?_, rfl⟩
  rw [(hdirect m hm d hd).2 body k hcomes hmoves]
  rfl

end Engine

end LineBasic
