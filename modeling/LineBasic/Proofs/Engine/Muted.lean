import LineBasic.Proofs.Engine.Answer
import LineBasic.Proofs.Engine.Effect
import LineBasic.Proofs.Engine.Operation
import LineBasic.Proofs.Engine.Request

namespace LineBasic

/-!
# Engines that trace nothing

Nothing but traces depends on whether they are switched on.  An engine whose switches for traces and
times are off, and whose traces have been struck out, does whatever the engine does.

* `Engine.muted` -- such an engine, with other writings before its own;
* `Engine.stop_muted`, `Engine.fail_muted`, `Engine.execute_muted`, `Engine.advance_muted`,
  `Engine.poll_muted`, `Engine.enter_muted`, `Engine.obey_muted` -- one lemma for each thing an
  engine does: it can be muted before or afterwards;
* `Operation.tunes`, `Operation.shows?` -- the operations that turn one of these switches, and those
  that show one;
* `Engine.operate_muted`, `Engine.operate_tuning`, `Engine.operate_showing` -- any operation.
-/

variable {γ : Type}

/-- Whether something is written only because traces or times are switched on. -/
def Emission.isTrace : Emission → Bool
  | .trace _ | .timing _ => true
  | .output _ | .notice _ => false

namespace Engine

/-- An engine that traces nothing and has traced nothing, with other writings before its own. -/
def muted (W : List Emission) (s : Engine γ) : Engine γ :=
  { s with
    options := { s.options with logging := false, timing := false }
    transcript := ⟨s.transcript.newestFirst.filter (!·.isTrace) ++ W⟩ }

variable (W : List Emission) (s : Engine γ)

/-! ### Small changes -/

/-- An engine can be muted before something is written or afterwards, unless it is a trace. -/
theorem emit_muted {e : Emission} (he : e.isTrace = false) :
    (s.muted W).emit e = (s.emit e).muted W := by
  simp [muted, emit, Transcript.emit, he]

/-- A trace is the same for a muted engine: none is left of it. -/
theorem traced_muted (text : String) : (s.muted W).traced text = (s.traced text).muted W := by
  unfold traced
  split
  next hlogging => cases hlogging
  next =>
    split
    · simp [muted, emit, Transcript.emit, Emission.isTrace]
    · rfl

/-- The time of a line is the same for a muted engine: none is left of it. -/
theorem timed_muted (line : Line) : (s.muted W).timed line = (s.timed line).muted W := by
  unfold timed
  split
  next htiming => cases htiming
  next =>
    split
    · simp [muted, emit, Transcript.emit, Emission.isTrace]
    · rfl

/-- An engine can be muted before its values of `RUN` are dropped or afterwards. -/
theorem dropQueue_muted : (s.muted W).dropQueue = s.dropQueue.muted W := by
  unfold dropQueue
  rw [emit_muted W s rfl, apply_ite (muted W)]
  rfl

/-- An engine can be muted before it stops or afterwards. -/
theorem stop_muted : (s.muted W).stop = s.stop.muted W := by
  unfold stop
  rw [dropQueue_muted]
  rfl

/-- An engine can be muted before its run is ended or afterwards. -/
theorem stopRun_muted : (s.muted W).stopRun = s.stopRun.muted W := by
  unfold stopRun
  rw [stop_muted, apply_ite (muted W)]
  rfl

/-- An engine can be muted before its load is spoilt or afterwards. -/
theorem spoilLoad_muted : (s.muted W).spoilLoad = s.spoilLoad.muted W := by
  unfold spoilLoad
  rw [apply_ite (muted W)]
  rfl

/-- An engine can be muted before a failure or afterwards. -/
theorem fail_muted (d : Diagnostic) : (s.muted W).fail d = (s.fail d).muted W := by
  have hnoted : (s.muted W).noted d = (s.noted d).muted W := rfl
  rw [fail_eq, hnoted, stopRun_muted, spoilLoad_muted, fail_eq]

/-! ### Statements -/

/-- An engine can be muted before it asks for values or afterwards. -/
theorem ask_muted (line : Option Nat) (xs : List Letter) :
    ask line (s.muted W) xs = (ask line s xs).muted W := by
  induction xs generalizing s with
  | nil => rfl
  | cons x xs ih =>
    have hqueue : (s.muted W).queue = s.queue := rfl
    unfold ask
    rw [hqueue]
    split
    next => rfl
    next n queue _ => exact ih ({ s with queue }.assign x n)

/-- An engine can be muted before its run begins again or afterwards. -/
theorem rewind_muted : (s.muted W).rewind = s.rewind.muted W := by
  have hcalls : ({ s.muted W with calls := .empty } : Engine γ) =
      ({ s with calls := .empty }).muted W := rfl
  unfold rewind
  rw [hcalls, dropQueue_muted]
  rfl

/-- An engine can be muted before an effect of a statement or afterwards. -/
theorem effect_muted (line : Option Nat) (effect : Effect) :
    effect.apply line (s.muted W) = (effect.apply line s).muted W := by
  cases effect with
  | nothing | assign | jump | launch => rfl
  | write text => exact emit_muted W s rfl
  | ask xs => exact ask_muted W s line xs
  | clear => exact stop_muted W s.wipe
  | halt => exact stop_muted W s
  | restart warning =>
    cases warning with
    | none => exact rewind_muted W s
    | some d =>
      show ((s.muted W).emit (.notice d)).rewind = ((s.emit (.notice d)).rewind).muted W
      rw [emit_muted W s rfl, rewind_muted]

variable [RandomSource γ]

/-- **Statements.**  A statement does the same to an engine that is muted. -/
theorem execute_muted (line : Option Nat) (statement : Statement) :
    execute line statement (s.muted W) =
      match execute line statement s with
      | .ok a t => .ok a (t.muted W)
      | .error fault t => .error fault (t.muted W) := by
  obtain ⟨outcome, machine, -, hexecute⟩ := execute_uniform statement line s.view s.machine
  rw [hexecute s rfl rfl, hexecute (s.muted W) rfl rfl]
  cases outcome with
  | ok effect =>
    show EStateM.Result.ok () (effect.apply line ({ s with machine }.muted W)) = _
    rw [effect_muted]
    rfl
  | error fault => rfl

/-- An engine can be muted before it carries out a direct statement or afterwards. -/
theorem carryOut_muted (d : DirectStatement) : (s.muted W).carryOut d = (s.carryOut d).muted W := by
  unfold carryOut
  rw [execute_muted]
  cases execute none d.statement s with
  | ok a t => rfl
  | error fault t => exact fail_muted W t _

/-! ### Lines -/

omit [RandomSource γ] in
/-- An engine can be muted before it goes on after a line or afterwards. -/
theorem finishLine_muted : (s.muted W).finishLine = s.finishLine.map id (muted W) := by
  have htarget : (s.muted W).branch.or ((s.muted W).listing.nextAfter? (s.muted W).cursor) =
    s.branch.or (s.listing.nextAfter? s.cursor) := rfl
  unfold finishLine
  rw [htarget]
  split
  next n _ =>
    refine Prod.ext rfl ?_
    show _ = muted W (if s.stepping then _ else _)
    rw [apply_ite (muted W)]
    rfl
  next => exact Prod.ext rfl (fail_muted W s _)

/-- **Lines.**  What is traced and timed about a line makes no difference to what the line does. -/
theorem executeLine_muted (line : Line) :
    (s.muted W).executeLine line = (s.executeLine line).map id (muted W) := by
  have hbegun : ({ (s.muted W).traced line.source with branch := none } : Engine γ) =
      ({ s.traced line.source with branch := none }).muted W := by
    rw [traced_muted]
    rfl
  unfold executeLine
  rw [hbegun, execute_muted]
  cases execute (some line.number) line.statement { s.traced line.source with branch := none } with
  | error fault t =>
    dsimp only
    rw [timed_muted, fail_muted]
    rfl
  | ok a t =>
    dsimp only
    rw [timed_muted, finishLine_muted]
    have hmode : ((t.timed line).muted W).mode = (t.timed line).mode := rfl
    have hpending : ((t.timed line).muted W).pending = (t.timed line).pending := rfl
    rw [hmode, hpending]
    split
    · rfl
    · split <;> rfl

omit [RandomSource γ] in
/-- An engine can be muted before it comes to a line or afterwards. -/
theorem arrive_muted (line : Line) :
    (s.muted W).arrive line = (s.arrive line).map id (muted W) := by
  unfold arrive
  rw [apply_ite (Prod.map id (muted W))]
  rfl

omit [RandomSource γ] in
/-- An engine can be muted before it is suspended at a line or afterwards. -/
theorem pauseAt_muted (line : Line) (hit : Hit) :
    (s.muted W).pauseAt line hit = (s.pauseAt line hit).muted W := by
  unfold pauseAt
  cases hit with
  | persistent =>
    dsimp only
    rw [emit_muted W s rfl, emit_muted W _ rfl]
    rfl
  | oneShot =>
    dsimp only
    rw [emit_muted W s rfl]
    rfl

/-- An engine can be muted before its run goes on or afterwards, with the same outcome. -/
theorem advance_muted : (s.muted W).advance = s.advance.map id (muted W) := by
  have hmode : (s.muted W).mode = s.mode := rfl
  have hpending : (s.muted W).pending = s.pending := rfl
  have hline : (s.muted W).listing.get? (s.muted W).cursor = s.listing.get? s.cursor := rfl
  unfold advance
  rw [hmode, hpending, hline]
  split
  · rfl
  split
  · rfl
  split
  next => exact Prod.ext rfl (fail_muted W s _)
  next line _ =>
    rw [arrive_muted]
    cases harrive : s.arrive line with
    | mk hit t =>
      cases hit with
      | some hit => exact Prod.ext rfl (pauseAt_muted W t line hit)
      | none => exact executeLine_muted W t line

/-- What is due is the same, and an event is the same. -/
theorem tick_muted : (s.muted W).tick = s.tick.map (Prod.map id (muted W)) (muted W) := by
  have herrors : (s.muted W).errors = s.errors := rfl
  have hpending : (s.muted W).pending = s.pending := rfl
  have hdirect : (s.muted W).direct = s.direct := rfl
  have hmode : (s.muted W).mode = s.mode := rfl
  unfold tick
  rw [herrors, hpending, hdirect, hmode]
  split
  · rfl
  split
  · rfl
  split
  next d _ => exact congrArg Sum.inr (carryOut_muted W { s with direct := none } d)
  split
  · rw [advance_muted]
    rfl
  · rfl
  · rfl

/-- **Polls.**  An engine can be muted before it works within a budget or afterwards, with the same
    event. -/
theorem poll_muted (budget : Nat) : poll budget (s.muted W) = (poll budget s).map id (muted W) := by
  induction budget generalizing s with
  | zero => rfl
  | succ budget ih =>
    unfold poll
    rw [tick_muted]
    cases s.tick with
    | inl result => rfl
    | inr t => exact ih t

/-! ### Entries -/

omit [RandomSource γ] in
/-- What has been read from a line of answers does the same to a muted engine. -/
theorem reading_muted (q : Inquiry) (reading : Reading γ) :
    reading.apply q (s.muted W) = (reading.apply q s).muted W := by
  cases reading with
  | bad machine d => exact fail_muted W { s with machine, pending := none } d
  | taken machine awaiting excess =>
    have hexcess : (if excess then ({ s.muted W with machine, pending := none } : Engine γ).emit
          (.notice Cause.excessInput.diagnostic) else { s.muted W with machine, pending := none }) =
        (if excess then ({ s with machine, pending := none } : Engine γ).emit
          (.notice Cause.excessInput.diagnostic) else { s with machine, pending := none }).muted
          W := by
      rw [apply_ite (muted W), ← emit_muted W { s with machine, pending := none } rfl]
      rfl
    unfold Reading.apply
    dsimp only
    rw [hexcess]
    generalize (if excess then ({ s with machine, pending := none } : Engine γ).emit
      (.notice Cause.excessInput.diagnostic) else { s with machine, pending := none }) = t
    have hmode : (t.muted W).mode = t.mode := rfl
    rw [hmode, finishLine_muted]
    split
    · rfl
    · split <;> rfl

/-- An engine can be muted before a question is answered or afterwards. -/
theorem answer_muted (q : Inquiry) (text : String) :
    (s.muted W).answer q text = (s.answer q text).muted W := by
  obtain ⟨reading, -, -, hanswer⟩ := answer_uniform s.machine q text
  rw [hanswer s rfl, hanswer (s.muted W) rfl]
  exact reading_muted W s q reading

omit [RandomSource γ] in
/-- An engine can be muted before a line is deleted or afterwards. -/
theorem delete_muted (n : Nat) : (s.muted W).delete n = (s.delete n).muted W := by
  have hmode : (s.muted W).mode = s.mode := rfl
  have hlisting : (s.muted W).listing = s.listing := rfl
  have hloading : (s.muted W).isLoading = s.isLoading := rfl
  unfold delete
  rw [hmode, hlisting, hloading]
  split
  · rfl
  split
  · rfl
  split
  · rfl
  · exact fail_muted W s _

omit [RandomSource γ] in
/-- An engine can be muted before an entry is accepted or afterwards. -/
theorem accept_muted (source : String) (entry : Entry) :
    (s.muted W).accept source entry = (s.accept source entry).muted W := by
  unfold accept
  cases entry with
  | store n statement =>
    dsimp only
    rw [traced_muted]
    rfl
  | delete n =>
    dsimp only
    rw [traced_muted, delete_muted]
  | direct statement =>
    dsimp only
    rw [traced_muted]
    rfl

/-- Whether a text was more than space is the same whatever the engine makes of it. -/
theorem enter_fst (text : String) :
    (s.enter text).1 = (s.pending.isSome || !Text.allSpace (trimmed text).toList) := by
  unfold enter
  cases s.pending with
  | some q => rfl
  | none =>
    by_cases hspace : Text.allSpace (trimmed text).toList
    · simp [hspace]
    · simp only [hspace, Bool.false_eq_true, if_false]
      cases Entry.ofText (trimmed text) <;> rfl

/-- **Entries.**  An engine can be muted before a text is entered or afterwards. -/
theorem enter_muted (text : String) : (s.muted W).enter text = (s.enter text).map id (muted W) := by
  have hcounted : (s.muted W).counted = s.counted.muted W := rfl
  have hmode : (s.muted W).mode = s.mode := rfl
  refine Prod.ext ((enter_fst (s.muted W) text).trans (enter_fst s text).symm) ?_
  cases hpending : s.pending with
  | some q =>
    rw [enter_of_pending (s := s.muted W) hpending, hcounted, answer_muted, Prod.map_snd,
      enter_of_pending hpending]
  | none =>
    rw [enter_of_pending_none (s := s.muted W) hpending, hcounted, hmode, Prod.map_snd,
      enter_of_pending_none hpending]
    split
    · rfl
    split
    · exact fail_muted W s.counted _
    split
    · rfl
    · exact accept_muted W s.counted _ _

omit [RandomSource γ] in
/-- An engine can be muted before it is interrupted or afterwards. -/
theorem interrupt_muted : (s.muted W).interrupt = s.interrupt.muted W := by
  have hpending : (s.muted W).pending = s.pending := rfl
  have hmode : (s.muted W).mode = s.mode := rfl
  unfold interrupt
  rw [hpending, hmode]
  split
  · exact fail_muted W s _
  split
  · exact fail_muted W s _
  · rfl

omit [RandomSource γ] in
/-- An engine can be muted before a load begins or afterwards. -/
theorem beginLoad_muted : (s.muted W).beginLoad = s.beginLoad.muted W :=
  stop_muted W { s.wipe with direct := none, fileLine := some 0 }

/-! ### Requests -/

/-- A request that is carried out or refused in the same way on an engine that is muted. -/
def Mutes (request : Request γ Unit) : Prop :=
  ∀ (W : List Emission) (s : Engine γ), request (s.muted W) =
    match request s with
    | .ok a t => .ok a (t.muted W)
    | .error cause t => .error cause (t.muted W)

omit [RandomSource γ] in
/-- A request that mutes is answered in the same way when it is asked directly. -/
theorem Mutes.ask? {request : Request γ Unit} (h : Mutes request) :
    (s.muted W).ask? request = (s.ask? request).map id (muted W) := by
  unfold Engine.ask?
  rw [h]
  cases request s <;> rfl

omit [RandomSource γ] in
/-- A request that mutes does the same as a command. -/
theorem Mutes.perform {request : Request γ Unit} (h : Mutes request) :
    (s.muted W).perform request = (s.perform request).muted W := by
  unfold Engine.perform
  rw [h]
  cases request s <;> rfl

omit [RandomSource γ] in
/-- Going on with a run is granted or refused in the same way. -/
theorem mutes_resumeRun : Mutes (resumeRun (γ := γ)) := by
  intro W s
  have hmode : (s.muted W).mode = s.mode := rfl
  rw [resumeRun_eq, resumeRun_eq, hmode]
  split <;> rfl

omit [RandomSource γ] in
/-- Giving up a suspended run is granted or refused in the same way. -/
theorem mutes_exitRun : Mutes (exitRun (γ := γ)) := by
  intro W s
  have hmode : (s.muted W).mode = s.mode := rfl
  rw [exitRun_eq, exitRun_eq, hmode, stop_muted]
  split <;> rfl

omit [RandomSource γ] in
/-- Showing the open subroutines is granted or refused in the same way. -/
theorem mutes_showCalls : Mutes (showCalls (γ := γ)) := by
  intro W s
  have hmode : (s.muted W).mode = s.mode := rfl
  rw [showCalls_eq, showCalls_eq, hmode, emit_muted W s rfl]
  split <;> rfl

omit [RandomSource γ] in
/-- Setting a breakpoint is granted or refused in the same way. -/
theorem mutes_setBreakpoint (n : Nat) : Mutes (setBreakpoint (γ := γ) n) := by
  intro W s
  have hset : (s.muted W).breakpoints.set n (s.muted W).listing = s.breakpoints.set n s.listing :=
    rfl
  unfold setBreakpoint
  rw [hset]
  cases s.breakpoints.set n s.listing <;> rfl

omit [RandomSource γ] in
/-- Removing a breakpoint is granted or refused in the same way. -/
theorem mutes_clearBreakpoint (n : Nat) : Mutes (clearBreakpoint (γ := γ) n) := by
  intro W s
  have hclear : (s.muted W).breakpoints.clear n = s.breakpoints.clear n := rfl
  unfold clearBreakpoint
  rw [hclear]
  cases s.breakpoints.clear n <;> rfl

/-- An expression is tried out in the same way on a muted engine. -/
theorem attempt_muted (e : Expr) : (s.muted W).attempt e = (s.attempt e).map id (muted W) := by
  obtain ⟨r, m, hattempt⟩ := attempt_uniform s.machine e
  rw [hattempt s rfl, hattempt (s.muted W) rfl]
  rfl

/-- Looking ahead before a single step sees the same. -/
theorem mutes_checkStep (statement : Statement) : Mutes (checkStep (γ := γ) statement) := by
  induction statement with
  | ret span =>
    intro W s
    have hcalls : (s.muted W).calls = s.calls := rfl
    rw [checkStep_ret, checkStep_ret, hcalls]
    split <;> rfl
  | goto span target | gosub span target =>
    intro W s
    show verdict (s.checkTarget target) (s.muted W) = match verdict (s.checkTarget target) s with
      | .ok a t => .ok a (t.muted W)
      | .error cause t => .error cause (t.muted W)
    cases s.checkTarget target <;> rfl
  -- Both sides are tried out before either result is looked at.
  | cond span lhs relation rhs body ih =>
    intro W s
    rw [checkStep_cond, checkStep_cond]
    split
    · rfl
    rw [attempt_muted, Prod.map_fst, Prod.map_snd, attempt_muted]
    cases (s.attempt lhs).2.attempt rhs with
    | mk b t =>
      cases (s.attempt lhs).1 with
      | none => rfl
      | some a =>
        cases b with
        | none => rfl
        | some b =>
          show (if relation.holds a b then checkStep body (t.muted W) else .ok () (t.muted W)) =
            match (if relation.holds a b then checkStep body t else .ok () t) with
            | .ok a t => .ok a (t.muted W)
            | .error cause t => .error cause (t.muted W)
          split
          · exact ih W t
          · rfl
  | clear | halt | input | assign | list | print | remark | run => exact fun _ _ => rfl

/-- A single step is granted or refused in the same way. -/
theorem mutes_stepRun : Mutes (stepRun (γ := γ)) := by
  intro W s
  have hmode : (s.muted W).mode = s.mode := rfl
  have hline : (s.muted W).listing.get? (s.muted W).cursor = s.listing.get? s.cursor := rfl
  rw [stepRun_eq, stepRun_eq, hmode, hline]
  split
  · cases s.listing.get? s.cursor with
    | none => rfl
    | some line =>
      rw [Option.map_some, Option.map_some, mutes_checkStep]
      cases checkStep line.statement s <;> rfl
  · rfl

omit [RandomSource γ] in
/-- An engine can be muted before the findings of the linter are shown or afterwards. -/
theorem showLint_muted (strict : Bool) :
    (s.muted W).showLint strict = (s.showLint strict).muted W := by
  have hlisting : (s.muted W).listing = s.listing := rfl
  unfold showLint
  rw [hlisting]
  generalize s.listing.lint strict = findings
  induction findings generalizing s with
  | nil => rfl
  | cons d findings ih =>
    rw [List.foldl_cons, List.foldl_cons, emit_muted W s rfl]
    exact ih (s.emit (.notice d)) rfl

end Engine

/-! ### Operations -/

/-- Whether a switch is one for traces or for times. -/
def Switch.isTuning : Switch → Bool
  | .logging | .timing => true
  | .runOnLoad => false

namespace Operation

/-- Whether an operation turns traces or times on or off. -/
def tunes : Operation γ → Bool
  | .act (.command (.option switch (some _))) => switch.isTuning
  | _ => false

/-- The switch for traces or times that an operation shows the state of. -/
def shows? : Operation γ → Option Switch
  | .act (.command (.option switch none)) => if switch.isTuning then some switch else none
  | _ => none

end Operation

namespace Engine

variable (W : List Emission) (s : Engine γ) [RandomSource γ]

/-- **Commands.**  An engine can be muted before it obeys a command or afterwards, unless the
    command is about a switch. -/
theorem obey_muted {c : Command} (htunes : ¬ (Operation.act (.command c) : Operation γ).tunes)
    (hshows : (Operation.act (.command c) : Operation γ).shows? = none) :
    (s.muted W).obey c = (s.obey c).muted W := by
  cases c with
  | option switch value =>
    cases value with
    | none =>
      cases switch with
      | logging | timing => cases hshows
      | runOnLoad => exact emit_muted W s rfl
    | some on =>
      cases switch with
      | logging | timing => exact absurd rfl htunes
      | runOnLoad => rfl
  | listBreakpoints => exact emit_muted W s rfl
  | showVars => exact emit_muted W s rfl
  | setBreakpoint n => exact (mutes_setBreakpoint n).perform W s
  | clearBreakpoint n => exact (mutes_clearBreakpoint n).perform W s
  | resume => exact mutes_resumeRun.perform W s
  | step => exact mutes_stepRun.perform W s
  | backtrace => exact mutes_showCalls.perform W s
  | exit => exact mutes_exitRun.perform W s
  | lint strict => exact showLint_muted W s strict
  | clearBreakpoints | help | shortHelp | quit | load | save => rfl

/-- **Operations.**  What neither turns nor shows a switch for traces or times does the same to an
    engine that is muted, and is answered in the same way. -/
theorem operate_muted {op : Operation γ} (htunes : ¬ op.tunes) (hshows : op.shows? = none) :
    (s.muted W).operate op = (s.operate op).map id (muted W) := by
  cases op with
  | poll budget =>
    show (Reply.event (poll budget (s.muted W)).1, (poll budget (s.muted W)).2) = _
    rw [poll_muted]
    rfl
  | act a =>
    cases a with
    | enter text =>
      show (Reply.taken ((s.muted W).enter text).1, ((s.muted W).enter text).2) = _
      rw [enter_muted]
      rfl
    | advance =>
      show (Reply.progress (s.muted W).advance.1, (s.muted W).advance.2) = _
      rw [advance_muted]
      rfl
    | interrupt => exact Prod.ext rfl (interrupt_muted W s)
    | command c => exact Prod.ext rfl (obey_muted W s htunes hshows)
    | resume => exact mutes_resumeRun.ask? W s
    | step => exact mutes_stepRun.ask? W s
    | exit => exact mutes_exitRun.ask? W s
    | backtrace => exact mutes_showCalls.ask? W s
    | setBreakpoint n => exact (mutes_setBreakpoint n).ask? W s
    | clearBreakpoint n => exact (mutes_clearBreakpoint n).ask? W s
    | beginLoad => exact Prod.ext rfl (beginLoad_muted W s)
    | endLoad => rfl
    | reseed generator => rfl

/-- Turning a switch for traces or times changes nothing else, and is not refused. -/
theorem operate_tuning {op : Operation γ} (htunes : op.tunes) :
    (s.operate op).1 = .done ∧ (s.operate op).2.muted W = s.muted W := by
  unfold Operation.tunes at htunes
  split at htunes
  next switch on =>
    cases switch with
    | logging | timing => exact ⟨rfl, rfl⟩
    | runOnLoad => cases htunes
  next => cases htunes

/-- Showing a switch writes one line, and is not refused. -/
theorem operate_showing {op : Operation γ} {switch : Switch} (hshows : op.shows? = some switch) :
    s.operate op = (.done, s.showSwitch switch) := by
  unfold Operation.shows? at hshows
  split at hshows
  next switch' =>
    split at hshows
    next =>
      cases hshows
      rfl
    next => cases hshows
  next => cases hshows

end Engine

end LineBasic
