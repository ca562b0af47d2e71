import LineBasic.Proofs.Engine.Place
import LineBasic.Proofs.Engine.Served
import LineBasic.Proofs.Engine.Suspended

namespace LineBasic

open Engine

/-!
# Nested subroutines

As long as a run goes on, what is on the call stack when a subroutine is called stays there until
the `RETURN` that brings the stack back to its size, and this `RETURN` goes to the line after the
call.

* `Moment.performed?`, `Moment.fault?` -- what the line executed in a moment comes to, and how it
  fails;
* `Moment.goesOn`, `Moment.isDisturbed` -- whether a run goes on, and whether a direct statement
  meddles with it;
* `Moment.Nests`, `nests_of_goesOn` -- what becomes of the call stack in a moment;
* `Moment.fault?_gosub`, `Moment.fault?_ret` -- when calls and returns fail, and what they leave;
* `subroutines_nest` -- the main result, for all sequences of operations.
-/

variable {γ : Type}

namespace Moment

variable [RandomSource γ]

/-- The statement that the line executed in a moment comes to, with the number of the line and the
    machine that its conditions leave. -/
def performed? (m : Moment γ) : Option (Nat × Statement × Machine γ) :=
  m.executed?.bind fun l =>
    (l.statement.comesTo? m.before.machine).map fun (body, machine) => (l.number, body, machine)

/-- The line that is executed in a moment and comes to `GOSUB`. -/
def callsFrom? (m : Moment γ) : Option Nat :=
  match m.performed? with
  | some (n, .gosub .., _) => some n
  | _ => none

/-- Whether the line executed in a moment comes to `RETURN`. -/
def returns (m : Moment γ) : Bool :=
  match m.performed? with
  | some (_, .ret _, _) => true
  | _ => false

/-- The fault of the line executed in a moment, with the engine as it is when the fault is
    noticed. -/
def fault? (m : Moment γ) : Option (Fault × Engine γ) :=
  m.executed?.bind fun l =>
    match execute (some l.number) l.statement ({ m.before with resume := false }.begun l) with
    | .ok .. => none
    | .error fault t => some (fault, t)

/-- Whether there is still a run after a moment, and it has not begun again. -/
def goesOn (m : Moment γ) : Bool := !m.after.isIdle && !m.restarts

/-- Whether a direct statement that moves or begins a run is carried out in a moment while the
    program runs. -/
def isDisturbed (m : Moment γ) : Bool :=
  m.before.mode = .running &&
    (m.direct?.bind fun d => d.statement.comesTo? m.before.machine).any fun (body, _) =>
      body.movesRun

/-- What becomes of the call stack in a moment. -/
inductive Nests (m : Moment γ) : Prop where
  /-- It stays. -/
  | kept (hcalls : m.after.calls = m.before.calls) (hcall : m.callsFrom? = none)
      (hreturn : m.returns = false)
  /-- A line calls a subroutine, which is to return to the next line. -/
  | called {n back : Nat} (hcall : m.callsFrom? = some n)
      (hback : m.before.listing.nextAfter? n = some back)
      (hpush : m.before.calls.push back = .ok m.after.calls)
  /-- A line returns to the line on top of it. -/
  | returned {back : Nat} (hreturn : m.returns)
      (hpop : m.before.calls.pop = .ok (back, m.after.calls)) (hcursor : m.after.cursor = back)

end Moment

namespace Engine

variable {s t : Engine γ}

/-! ### Failing and going on -/

/-- A failure that leaves a run leaves its subroutines open. -/
theorem fail_calls {d : Diagnostic} (h : ¬ (s.fail d).isIdle) : (s.fail d).calls = s.calls := by
  have hmode : s.mode ≠ .running := fun hmode => h (s.fail_isIdle d (by simp [hmode]))
  have hrun : (s.noted d).stopRun = s.noted d := if_neg hmode
  rw [fail_eq, hrun]
  exact spoilLoad_same _ (·.calls) rfl

/-- Going on after a line leaves the call stack alone, as long as the run goes on. -/
theorem finishLine_calls (hmode : s.mode = .running) (h : ¬ s.finishLine.2.isIdle) :
    s.finishLine.2.calls = s.calls := by
  generalize hr : s.finishLine = r at h ⊢
  cases hr ▸ finishLine_cases s with
  | moved | stepped => rfl
  | fellOff => exact absurd (s.fail_isIdle _ (by simp [hmode])) h

/-- After a line that has jumped, the run goes on where it has jumped to. -/
theorem finishLine_cursor {n : Nat} (h : s.branch = some n) : s.finishLine.2.cursor = n := by
  generalize hr : s.finishLine = r
  cases hr ▸ finishLine_cases s with
  | moved k hk | stepped k hk =>
    obtain rfl : n = k := by simpa [h] using hk
    rfl
  | fellOff hnone => simp [h] at hnone

variable [RandomSource γ]

/-- Answers leave the call stack alone, as long as the run goes on. -/
theorem answer_calls {q : Inquiry} {text : String} (h : ¬ (s.answer q text).isIdle) :
    (s.answer q text).calls = s.calls := by
  generalize hr : s.answer q text = r at h ⊢
  cases hr ▸ answer_cases s q text with
  | failed machine d => exact fail_calls (s := { s with machine, pending := none }) h
  | more | finished => rfl
  | resumed machine transcript _ hmode =>
    exact finishLine_calls (s := { s with machine, transcript, pending := none }) hmode h

/-! ### Statements -/

/-- What a program line that comes to a statement does to the call stack, if it leaves an engine. -/
def LeavesCalls (n : Nat) (s t : Engine γ) : Statement → Prop
  | .gosub .. => ∃ back, s.listing.nextAfter? n = some back ∧ s.calls.push back = .ok t.calls
  | .ret _ =>
    ∃ back, s.calls.pop = .ok (back, t.calls) ∧ t.branch = some back ∧ t.pending = s.pending
  | _ => t.calls = s.calls

/-- A line that leaves a run changes the call stack only by `GOSUB`, `RETURN` and `RUN`. -/
theorem leavesCalls_of_ok {n : Nat} {statement : Statement} {u : Unit} (hmode : s.mode = .running)
    (h : execute (some n) statement s = .ok u t) (hrun : ¬ t.isIdle)
    (hrestarts : statement.restarts s.machine = false) :
    t.mode = .running ∧ (statement.comesTo? s.machine).elim (t.calls = s.calls)
      fun (body, _) => LeavesCalls n s t body := by
  rcases execute_ok h with ⟨hcomes, m, rfl⟩ | ⟨body, m, effect, k, hcomes, hdoes, rfl⟩
  · exact ⟨hmode, by simp [hcomes]⟩
  rw [hcomes]
  cases hdoes with
  | remark | assign | print | list | goto => exact ⟨hmode, rfl⟩
  | input =>
    rw [Effect.apply, ask_eq]
    exact ⟨hmode, rfl⟩
  | clear | halt => exact absurd (stop_isIdle _) hrun
  | gosub hline _ _ hback hcalls =>
    obtain rfl := Option.some.inj hline
    exact ⟨hmode, _, hback, hcalls⟩
  | ret _ hcalls => exact ⟨hmode, _, hcalls, rfl, rfl⟩
  | restart => simp [Statement.restarts, hcomes] at hrestarts
  | launchAt hline | launch hline => cases hline

/-- A direct statement that leaves a run and is not let move it leaves the call stack. -/
theorem carryOut_calls {d : DirectStatement} (hmode : s.mode = .running ∨ s.mode = .paused)
    (hmoves : s.mode = .running →
      ∀ body m, d.statement.comesTo? s.machine = some (body, m) → body.movesRun = false)
    (hrun : ¬ (s.carryOut d).isIdle) : (s.carryOut d).calls = s.calls := by
  unfold carryOut at hrun ⊢
  split at hrun
  next t h =>
    rcases execute_ok h with ⟨-, m, rfl⟩ | ⟨body, m, effect, k, hcomes, hdoes, rfl⟩
    · rfl
    -- While the run is suspended the statements that move runs do nothing but fail.
    have hstays : s.mode ≠ .paused → body.movesRun = false := fun hnot =>
      hmoves (hmode.resolve_right hnot) body m hcomes
    cases hdoes with
    | remark | assign | print | list => rfl
    | input =>
      rw [Effect.apply, ask_eq]
    | clear | halt => exact absurd (stop_isIdle _) hrun
    | goto hline | gosub hline | restart hline => cases hline
    | ret hnot => cases hstays (hnot rfl)
    | launchAt _ hnot | launch _ hnot => cases hstays hnot
  next fault t h =>
    obtain ⟨⟨m, rfl⟩, -⟩ := execute_error h
    exact fail_calls hrun

/-- A program line calls a subroutine if it has a stored target, a line to return to, and room for
    it. -/
theorem execute_gosub {n back : Nat} {span : Span} {target : Expr} {v : Int16} {m : Machine γ}
    {calls : CallStack} (hv : target.eval s.machine = .ok v m) (hstored : s.listing.IsTarget v)
    (hback : s.listing.nextAfter? n = some back) (hpush : s.calls.push back = .ok calls) :
    execute (some n) (.gosub span target) s =
      .ok () { s with machine := m, calls, branch := some v.toNatClampNeg } := by
  have hresolve : resolve .GOSUB target s = .ok v.toNatClampNeg { s with machine := m } := by
    rw [resolve, bind_of_ok (evaluating_ok hv), get_bind,
      if_pos (by simpa [Listing.IsTarget] using hstored)]
    rfl
  rw [execute, executeGosub, bind_of_ok (guardPaused_line span n), bind_of_ok hresolve, get_bind]
  simp only [Option.bind_some, hback, hpush]
  rfl

end Engine

/-! ### Moments -/

section Moments

variable [RandomSource γ] {m : Moment γ}

/-- What an executed line comes to is settled by its statement and the machine before. -/
theorem performed?_of_executed {l : Line} (h : m.executed? = some l) :
    m.performed? = (l.statement.comesTo? m.before.machine).map fun (body, machine) =>
      (l.number, body, machine) := by
  rw [Moment.performed?, h]
  rfl

/-- A run goes on if it is not over and does not begin again. -/
theorem goesOn_iff : m.goesOn ↔ ¬ m.after.isIdle ∧ m.restarts = false := by
  simp [Moment.goesOn]

/-- A moment without an executed line in which the call stack stays. -/
theorem nests_of_same (hexecuted : m.executed? = none) (hcalls : m.after.calls = m.before.calls) :
    m.Nests := by
  have hperformed : m.performed? = none := by rw [Moment.performed?, hexecuted]; rfl
  exact .kept hcalls (by rw [Moment.callsFrom?, hperformed]) (by rw [Moment.returns, hperformed])

/-- A moment with an executed line whose statement has left an engine. -/
theorem nests_of_leaves {l : Line} {t : Engine γ} (hexecuted : m.executed? = some l)
    (hleaves : (l.statement.comesTo? m.before.machine).elim (t.calls = m.before.calls)
      fun (body, _) => LeavesCalls l.number m.before t body)
    (hcalls : m.after.calls = t.calls)
    (hcursor : ∀ back, t.branch = some back → t.pending = m.before.pending →
      m.after.cursor = back) :
    m.Nests := by
  have hperformed := performed?_of_executed hexecuted
  cases hcomes : l.statement.comesTo? m.before.machine with
  | none =>
    rw [hcomes] at hperformed hleaves
    exact .kept (hcalls.trans hleaves) (by rw [Moment.callsFrom?, hperformed]; rfl)
      (by rw [Moment.returns, hperformed]; rfl)
  | some come =>
    obtain ⟨body, machine⟩ := come
    rw [hcomes] at hperformed hleaves
    have hperformed : m.performed? = some (l.number, body, machine) := hperformed
    have hleaves : LeavesCalls l.number m.before t body := hleaves
    -- Of the statements that are left only `GOSUB` and `RETURN` change the stack.
    cases body with
    | gosub =>
      obtain ⟨back, hback, hpush⟩ := hleaves
      exact .called (by rw [Moment.callsFrom?, hperformed]) hback (hcalls ▸ hpush)
    | ret =>
      obtain ⟨back, hpop, hbranch, hpending⟩ := hleaves
      exact .returned (by rw [Moment.returns, hperformed]) (hcalls ▸ hpop)
        (hcursor back hbranch hpending)
    | _ =>
      exact .kept (hcalls.trans hleaves) (by rw [Moment.callsFrom?, hperformed])
        (by rw [Moment.returns, hperformed])

/-- A moment in which a line is executed. -/
theorem nests_of_executed {l : Line} (hexecuted : m.executed? = some l) (hgoes : m.goesOn) :
    m.Nests := by
  obtain ⟨hrun, hrestarts⟩ := goesOn_iff.1 hgoes
  obtain ⟨hafter, hsame⟩ := Moment.isAdvance_spec (Moment.isAdvance_of_executed hexecuted)
  have hopen : m.before.IsOpen l := executed?_eq_some.1 (hsame ▸ hexecuted)
  let b := { m.before with resume := false }.begun l
  have hb : b = { m.before with resume := false, transcript := b.transcript, branch := none } :=
    begun_eq _ l
  have hmode : b.mode = .running := by rw [hb]; exact hopen.1
  have hmachine : b.machine = m.before.machine := by rw [hb]
  have hrestarts : l.statement.restarts b.machine = false := by
    simpa [Moment.restarts, hexecuted, hmachine] using hrestarts
  -- What `begun` sets up is nothing that the call stack or the way back depends on.
  have hleaves : ∀ {u : Unit} {t : Engine γ}, execute (some l.number) l.statement b = .ok u t →
      ¬ t.isIdle →
      t.mode = .running ∧ (l.statement.comesTo? m.before.machine).elim (t.calls = m.before.calls)
        fun (body, _) => LeavesCalls l.number m.before t body := by
    intro u t hok hidle
    have h := leavesCalls_of_ok hmode hok hidle hrestarts
    rw [hb] at h
    exact h
  rw [hafter, advance_of_isOpen hopen] at hrun
  have hline : m.after = ({ m.before with resume := false }.executeLine l).2 := by
    rw [hafter, advance_of_isOpen hopen]
  generalize hr : ({ m.before with resume := false } : Engine γ).executeLine l = r at hrun hline
  cases hr ▸ executeLine_cases _ l with
  | failed fault t h =>
    obtain ⟨⟨k, rfl⟩, -⟩ := execute_error h
    exact absurd (fail_isIdle _ _ (by rw [timed_mode]; exact (by simp [hmode] : b.mode ≠ .paused)))
      hrun
  | ended t h hended =>
    have hrun : ¬ (t.timed l).isIdle := hrun
    rw [timed_eq] at hrun
    exact absurd (hleaves h hrun).1 hended
  | asked t h hrunning hasked =>
    obtain ⟨-, hleft⟩ := hleaves h (by simp [isIdle, hrunning])
    refine nests_of_leaves hexecuted hleft (by rw [hline, timed_eq]) fun back _ hpending => ?_
    exact absurd (hpending.trans hopen.2.1) hasked
  | finished t h hrunning =>
    obtain ⟨-, hleft⟩ := hleaves h (by simp [isIdle, hrunning])
    have hcalls := finishLine_calls (s := t.timed l) (by rw [timed_mode]; exact hrunning) hrun
    refine nests_of_leaves hexecuted hleft ?_ fun back hbranch _ => ?_
    · rw [hline, hcalls, timed_eq]
    · rw [hline]
      exact finishLine_cursor (by rw [timed_eq]; exact hbranch)

/-- **One moment.**  As long as a run goes on undisturbed, its call stack stays, or a line calls a
    subroutine or returns from one. -/
theorem nests_of_goesOn (hrun : ¬ m.before.isIdle) (hgoes : m.goesOn)
    (hdisturbed : m.isDisturbed = false) :
    m.Nests := by
  cases hexecuted : m.executed? with
  | some l => exact nests_of_executed hexecuted hgoes
  -- No line is executed, so whatever else happens has to leave the stack alone or end the run.
  | none =>
    refine nests_of_same hexecuted ?_
    have hidle := (goesOn_iff.1 hgoes).1
    have hhappened := m.happened
    generalize m.after = t at hidle hhappened
    cases hhappened with
    | aside | noticed | stored | deleted | putBy | marked | unmarked | unmarkedAll | endedLoad =>
      rfl
    | @carriedOut s d herrors hpending hdirect =>
      have hturn : (Moment.tick s).direct? = some d := by
        simp [Moment.direct?, herrors, hpending, hdirect]
      refine carryOut_calls (s := { s with direct := none }) (not_isIdle_iff.1 hrun) ?_ hidle
      intro hmode body k hcomes
      have hmode : s.mode = .running := hmode
      have hcomes : d.statement.comesTo? s.machine = some (body, k) := hcomes
      simpa [Moment.isDisturbed, Moment.before, hmode, hturn, hcomes] using hdisturbed
    | advanced hadvance =>
      generalize hr : m.before.advance = r at hidle
      cases hr ▸ advance_cases m.before with
      | idle | waiting => rfl
      | lost hmode => exact absurd (fail_isIdle _ _ (by simp [hmode])) hidle
      | stopped => rw [pauseAt_eq]
      | executed line hopen =>
        rw [(Moment.isAdvance_spec hadvance).2, executed?_eq_some.2 hopen] at hexecuted
        cases hexecuted
    | @answered s text q hq => exact answer_calls (s := s.counted) hidle
    | @misread s text _ transcript _ d =>
      exact fail_calls (s := { s.counted with transcript }) hidle
    | @interrupted s _ d => exact fail_calls hidle
    | released _ ht =>
      obtain ⟨-, stepping, rfl⟩ := ht
      rfl
    | gaveUp | beganLoad => exact absurd (stop_isIdle _) hidle

/-! ### Calls and returns that fail -/

/-- The statement that a line comes to settles what the line does. -/
theorem executed_of_performed? {n : Nat} {body : Statement} {machine : Machine γ}
    (h : m.performed? = some (n, body, machine)) :
    ∃ b : Engine γ, b.machine = machine ∧ b.listing = m.before.listing ∧ b.calls = m.before.calls ∧
      m.fault? = match execute (some n) body b with
        | .ok .. => none
        | .error fault t => some (fault, t) := by
  obtain ⟨l, hexecuted, hcomes⟩ := Option.bind_eq_some_iff.1 h
  obtain ⟨⟨body', machine'⟩, hcomes, heq⟩ := Option.map_eq_some_iff.1 hcomes
  cases heq
  let b := { m.before with resume := false }.begun l
  have hb : b = { m.before with resume := false, transcript := b.transcript, branch := none } :=
    begun_eq _ l
  refine ⟨{ b with machine }, rfl, by rw [hb], by rw [hb], ?_⟩
  have hmachine : b.machine = m.before.machine := by rw [hb]
  rw [Moment.fault?, hexecuted]
  show (match execute (some l.number) l.statement b with
    | .ok .. => none
    | .error fault t => some (fault, t)) = _
  rw [execute_comesTo (by rw [hmachine]; exact hcomes)]

/-- Whatever fails, the call stack is unchanged when the fault is noticed. -/
theorem Moment.fault?_calls {fault : Fault} {t : Engine γ} (h : m.fault? = some (fault, t)) :
    t.calls = m.before.calls := by
  obtain ⟨l, hexecuted, h⟩ := Option.bind_eq_some_iff.1 h
  dsimp only at h
  split at h
  next => cases h
  next fault' t' hexecute =>
    cases h
    obtain ⟨⟨k, rfl⟩, -⟩ := execute_error hexecute
    rw [begun_eq]

/-- A `GOSUB` fails if its target has no value or is not stored, if no line follows, or if there is
    no room. -/
theorem Moment.fault?_gosub {n : Nat} {span : Span} {target : Expr} {machine : Machine γ}
    (h : m.performed? = some (n, .gosub span target, machine)) :
    m.fault?.isSome ↔
      (∀ v k, target.eval machine = .ok v k → ¬ m.before.listing.IsTarget v) ∨
        m.before.listing.nextAfter? n = none ∨ CallStack.limit ≤ m.before.calls.depth := by
  obtain ⟨b, rfl, hlisting, hcalls, hfault⟩ := executed_of_performed? h
  rw [hfault, ← hlisting, ← hcalls]
  constructor
  · intro hsome
    -- Without any of the reasons all that a call needs is there, and it succeeds.
    by_contra hnot
    simp only [not_or, not_forall, not_not, Nat.not_le] at hnot
    obtain ⟨⟨v, k, hv, hstored⟩, hnext, hroom⟩ := hnot
    obtain ⟨back, hback⟩ := Option.ne_none_iff_exists'.1 hnext
    obtain ⟨calls, hpush⟩ : ∃ calls, b.calls.push back = .ok calls := by
      rw [CallStack.push, if_neg (Nat.not_le.2 hroom)]
      exact ⟨_, rfl⟩
    rw [execute_gosub hv hstored hback hpush] at hsome
    cases hsome
  · intro hreason
    have hperformed : Performed (some n) b (.gosub span target) _ :=
      execute_performed rfl (some n) b
    generalize execute (some n) (.gosub span target) b = r at hperformed ⊢
    cases hperformed with
    | failed => rfl
    | done hdoes =>
      cases hdoes with
      | gosub hline hv hstored hback hpush =>
        obtain rfl := Option.some.inj hline
        rcases hreason with hvalue | hnext | hfull
        · exact absurd hstored (hvalue _ _ hv)
        · cases hback.symm.trans hnext
        · rw [CallStack.push, if_pos hfull] at hpush
          cases hpush

/-- A line that returns has come to `RETURN`. -/
theorem performed?_of_returns (h : m.returns) :
    ∃ n span machine, m.performed? = some (n, .ret span, machine) := by
  unfold Moment.returns at h
  split at h
  next n span machine hperformed => exact ⟨n, span, machine, hperformed⟩
  next => cases h

/-- A `RETURN` fails if no subroutine is open. -/
theorem Moment.fault?_ret (h : m.returns) : m.fault?.isSome ↔ m.before.calls.isEmpty := by
  obtain ⟨n, span, machine, h⟩ := performed?_of_returns h
  obtain ⟨b, -, -, hcalls, hfault⟩ := executed_of_performed? h
  rw [hfault, ← hcalls]
  cases hpop : b.calls.pop with
  | ok top =>
    obtain ⟨back, calls⟩ := top
    have hframes := CallStack.pop_ok hpop
    rw [execute_ret hpop]
    simp [CallStack.isEmpty, hframes]
  | error cause =>
    have hexecute : execute (some n) (.ret span) b = .error ⟨cause, span⟩ b := by
      rw [execute, executeReturn, bind_of_ok (guardPaused_line span n), get_bind]
      simp only [hpop]
      rfl
    rw [hexecute]
    exact iff_of_true rfl (CallStack.isEmpty_of_pop_error hpop)

/-! ### Runs -/

/-- A line that returns from an open subroutine goes to the line on top of the call stack. -/
theorem after_of_returns {back : Nat} {frames : List Nat} (h : m.returns)
    (hframes : m.before.calls.frames = back :: frames) :
    m.after.cursor = back ∧ m.after.calls.frames = frames := by
  obtain ⟨n, span, machine, hperformed⟩ := performed?_of_returns h
  obtain ⟨l, hexecuted, hcomes⟩ := Option.bind_eq_some_iff.1 hperformed
  obtain ⟨⟨body, machine'⟩, hcomes, heq⟩ := Option.map_eq_some_iff.1 hcomes
  cases heq
  obtain ⟨hafter, hsame⟩ := Moment.isAdvance_spec (Moment.isAdvance_of_executed hexecuted)
  obtain ⟨-, -, hcursor, hcalls, -⟩ := advance_ret (hsame ▸ hexecuted) hcomes hframes
  rw [hafter]
  exact ⟨hcursor, hcalls⟩

/-- Whether the frame of a call, with what was under it, is still on the call stack of a run. -/
structure Engine.IsInside (r : Nat) (calls : CallStack) (s : Engine γ) : Prop where
  running : ¬ s.isIdle
  frames : ∃ above, s.calls.frames = above ++ r :: calls.frames

/-- The call of a subroutine puts its frame on the call stack. -/
theorem isInside_of_callsFrom? {n r : Nat} (hcalls : m.callsFrom? = some n)
    (hback : m.before.listing.nextAfter? n = some r) (hgoes : m.goesOn) :
    m.after.IsInside r m.before.calls := by
  obtain ⟨l, hexecuted⟩ : ∃ l, m.executed? = some l := by
    cases hexecuted : m.executed? with
    | some l => exact ⟨l, rfl⟩
    | none => simp [Moment.callsFrom?, Moment.performed?, hexecuted] at hcalls
  refine ⟨(goesOn_iff.1 hgoes).1, [], ?_⟩
  cases nests_of_executed hexecuted hgoes with
  | kept _ hcall => cases hcall.symm.trans hcalls
  | called hcall hback' hpush =>
    obtain rfl := Option.some.inj (hcall.symm.trans hcalls)
    obtain rfl := Option.some.inj (hback'.symm.trans hback)
    exact (CallStack.push_ok hpush).1
  | returned hreturn =>
    obtain ⟨_, _, _, hperformed⟩ := performed?_of_returns hreturn
    simp [Moment.callsFrom?, hperformed] at hcalls

/-- The frame of a call stays, as long as no `RETURN` brings the call stack back to its size. -/
theorem Engine.IsInside.next {r : Nat} {calls : CallStack} (h : m.before.IsInside r calls)
    (hgoes : m.goesOn) (hdisturbed : m.isDisturbed = false)
    (hinside : m.returns → m.after.calls.depth ≠ calls.depth) :
    m.after.IsInside r calls := by
  obtain ⟨hrun, above, hframes⟩ := h
  refine ⟨(goesOn_iff.1 hgoes).1, ?_⟩
  cases nests_of_goesOn hrun hgoes hdisturbed with
  | kept hcalls => exact ⟨above, by rw [hcalls, hframes]⟩
  | @called n back _ _ hpush =>
    exact ⟨back :: above, by rw [(CallStack.push_ok hpush).1, hframes]; rfl⟩
  | returned hreturn hpop =>
    have hpopped := (CallStack.pop_ok hpop).symm.trans hframes
    cases above with
    | nil =>
      -- The frame itself would be taken off, and the stack would have its size back.
      have hback := (List.cons.inj hpopped).2
      refine absurd ?_ (hinside hreturn)
      rw [CallStack.depth_eq, hback, ← CallStack.depth_eq]
    | cons top above => exact ⟨above, (List.cons.inj hpopped).2⟩

/-- **Main result.**  Let a line call a subroutine that is to return to the next stored line, and
    let the run go on, neither ended nor begun again and not meddled with by direct statements.  The
    first `RETURN` that brings the call stack back to its size leaves it exactly as it was before
    the call, and goes to that line.  A `GOSUB` fails only for its target, for want of a next line
    or for want of room, and a `RETURN` only where no subroutine is open; the call stack is then as
    it was. -/
theorem subroutines_nest (s : Engine γ) (ops : List (Operation γ)) :
    (∀ {earlier between future : List (Moment γ)} {m k : Moment γ} {n r : Nat},
      s.trail ops = earlier ++ m :: (between ++ k :: future) →
      m.callsFrom? = some n → m.before.listing.nextAfter? n = some r →
      (∀ j ∈ m :: between, j.goesOn ∧ j.isDisturbed = false) →
      k.returns → k.after.calls.depth = m.before.calls.depth →
      (∀ j ∈ between, j.returns → j.after.calls.depth ≠ m.before.calls.depth) →
        k.after.calls = m.before.calls ∧ k.after.cursor = r) ∧
    ∀ m ∈ s.trail ops,
      (∀ n span target machine, m.performed? = some (n, .gosub span target, machine) →
        (m.fault?.isSome ↔
          (∀ v k, target.eval machine = .ok v k → ¬ m.before.listing.IsTarget v) ∨
            m.before.listing.nextAfter? n = none ∨ CallStack.limit ≤ m.before.calls.depth) ∧
          ∀ fault t, m.fault? = some (fault, t) → t.calls = m.before.calls) ∧
      (m.returns → (m.fault?.isSome ↔ m.before.calls.isEmpty)) := by
  refine ⟨fun {_ between _ m k n r} htrail hcalls hback hgoes hreturns hdepth hfirst => ?_,
    fun m _ => ⟨fun n span target machine h =>
      ⟨Moment.fault?_gosub h, fun _ _ => Moment.fault?_calls⟩, Moment.fault?_ret⟩⟩
  have hpath : Path m.after between k.before := by
    have hall := path_trail s ops
    rw [htrail] at hall
    exact hall.split.2.split.1
  have hinside : k.before.IsInside r m.before.calls :=
    hpath.preserves (isInside_of_callsFrom? hcalls hback (hgoes m (by simp)).1) fun j hj hinside =>
      have hj' := hgoes j (List.mem_cons_of_mem _ hj)
      hinside.next hj'.1 hj'.2 (hfirst j hj)
  obtain ⟨-, above, hframes⟩ := hinside
  -- The stack has its size back only if the frame of the call is the one that is taken off.
  cases above with
  | nil =>
    obtain ⟨hcursor, hsame⟩ := after_of_returns hreturns hframes
    exact ⟨CallStack.ext hsame, hcursor⟩
  | cons top above =>
    obtain ⟨-, hsame⟩ := after_of_returns hreturns hframes
    rw [CallStack.depth_eq, hsame, CallStack.depth_eq] at hdepth
    simp at hdepth
    omega

end Moments

/-- A subroutine that calls itself, begun, with a breakpoint where it returns. -/
def countingCalls : List (Operation ChaCha) :=
  [.act (.enter "10 GOSUB 100"), .act (.enter "20 END"), .act (.enter "100 S=S-128"),
    .act (.enter "110 IF S>0 THEN GOSUB 100"), .act (.enter "120 RETURN"),
    .act (.setBreakpoint 120), .act (.enter "RUN"), .poll 1]

/-- The calls and the returns, with another line stored and a direct statement while the run is
    suspended. -/
def countingReturns : List (Operation ChaCha) :=
  [.poll 9, .act (.enter "15 REM"), .act .resume, .poll 9, .act (.enter "PRINT S"), .poll 9,
    .act .resume, .poll 1]

/-- The last return leads to line 20, though a line 15 has been stored since the call. -/
theorem subroutines_nest_countingReturns :
    ∃ m k between, ((start (ChaCha.ofSeed 1)).run countingCalls).trail countingReturns = m ::
      (between ++ [k]) ∧ (k.after.calls = m.before.calls ∧ k.after.cursor = 20) ∧
        k.before.listing.nextAfter? 10 = some 15 ∧ k.fault? = none := by
  let s := (start (ChaCha.ofSeed 1)).run countingCalls
  let ms := s.trail countingReturns
  let between := (ms.drop 1).take 15
  obtain ⟨m, hm⟩ : ∃ m, ms[0]? = some m := Option.isSome_iff_exists.1 (by decide +kernel)
  obtain ⟨k, hk⟩ : ∃ k, ms[16]? = some k := Option.isSome_iff_exists.1 (by decide +kernel)
  have hfirst : ms[0]?.any fun m => m.callsFrom? = some 10 ∧
      m.before.listing.nextAfter? 10 = some 20 ∧
      m.before.calls.depth = 0 ∧ m.goesOn ∧ m.isDisturbed = false := by
    decide +kernel
  have hlast : ms[16]?.any fun k => k.returns ∧ k.after.calls.depth = 0 ∧
      k.before.calls.isEmpty = false ∧ k.before.listing.nextAfter? 10 = some 15 := by
    decide +kernel
  have hgoes : ∀ j ∈ between, j.goesOn ∧ j.isDisturbed = false := by decide +kernel
  have hinside : ∀ j ∈ between, j.returns → j.after.calls.depth ≠ 0 := by decide +kernel
  have hlength : ms.length = 17 := by decide +kernel
  rw [hm] at hfirst
  rw [hk] at hlast
  obtain ⟨hcalls, hback, hbefore, hgoesOn⟩ : _ ∧ _ ∧ _ ∧ _ := by simpa using hfirst
  obtain ⟨hreturns, hafter, hopen, hnext⟩ : _ ∧ _ ∧ _ ∧ _ := by simpa using hlast
  have htrail : s.trail countingReturns = m :: (between ++ [k]) := by
    have hstart : ms = m :: ms.drop 1 := by
      rw [← List.drop_zero (l := ms), List.drop_eq_getElem?_toList_append, hm]
      rfl
    have hend : (ms.drop 1).drop 15 = [k] := by
      rw [List.drop_drop, List.drop_eq_getElem?_toList_append, hk,
        List.drop_eq_nil_of_le (by omega)]
      rfl
    rw [← hend, List.take_append_drop]
    exact hstart
  have hsplit : s.trail countingReturns = [] ++ m :: (between ++ k :: []) := htrail
  obtain ⟨hnest, hfails⟩ := subroutines_nest s countingReturns
  refine ⟨m, k, between, htrail, ?_, hnext, ?_⟩
  · refine hnest hsplit hcalls hback ?_ hreturns (hafter.trans hbefore.symm) ?_
    · exact List.forall_mem_cons.2 ⟨hgoesOn, hgoes⟩
    · rw [hbefore]
      exact hinside
  · have hfault := (hfails k (by simp [htrail])).2 hreturns
    simpa [hopen] using hfault

/-- A run that is suspended in a subroutine, with a direct `RETURN` that is entered while it is
    suspended but waits until the run goes on. -/
def waitingReturn : List (Operation ChaCha) :=
  [.act (.enter "10 GOSUB 100"), .act (.enter "20 END"), .act (.enter "100 REM"),
    .act (.enter "110 GOSUB 200"), .act (.enter "120 END"), .act (.enter "200 RETURN"),
    .act (.setBreakpoint 100), .act (.enter "RUN"), .poll 1]

/-- The direct `RETURN` closes the subroutine, and the first line that comes to `RETURN` with the
    call stack as small as before the call goes to line 120, not to line 20. -/
theorem returns_elsewhere_waitingReturn :
    let ms := ((start (ChaCha.ofSeed 1)).run waitingReturn).trail
      [.poll 2, .act (.enter "RETURN"), .act .resume, .poll 4]
    (∀ m ∈ ms, m.goesOn ∧ m.fault? = none ∧ (m.entersDirect → m.before.mode ≠ .running)) ∧
      ms.head?.map (fun m => (m.before.calls.frames, m.before.listing.nextAfter? 10)) =
        some ([], some 20) ∧
      ms.map (fun m => (m.callsFrom?, m.returns, m.after.calls.frames, m.after.cursor)) =
        [(some 10, false, [20], 100), (none, false, [20], 100), (none, false, [20], 100),
          (none, false, [20], 100), (none, false, [], 100), (none, false, [], 110),
          (some 110, false, [120], 200), (none, true, [], 120)] := by
  intro ms
  decide +kernel

end LineBasic
