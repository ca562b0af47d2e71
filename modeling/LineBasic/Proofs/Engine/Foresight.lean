import LineBasic.Proofs.Engine.Targets

namespace LineBasic

open Engine

/-!
# What a single step foresees

Before a single step the engine looks ahead at the line that it is to execute.  It goes into `IF`s,
as far as their conditions call no function, and says beforehand what the line would come to grief
over.

* `Statement.conditions` -- the two sides of each condition that carrying out a statement meets
  with;
* `Hopeless` -- what can be foreseen of a statement that is no `IF`;
* `checkStep_error_iff` -- what the look ahead refuses, and why;
* `execute_hopeless`, `hopeless_of_balks` -- what is foreseen happens, and what happens has been
  foreseen;
* `advance_of_refused` -- a run whose step has been refused fails as soon as it goes on;
* `checkStep_foresees` -- the main result, for all engines and statements.
-/

variable {γ : Type} [RandomSource γ]

/-! ### The conditions on the way -/

namespace Statement

/-- The two sides of the conditions that carrying out a statement meets with: those of the outermost
    `IF`, and of each further in as long as the conditions hold. -/
def conditions : Statement → Machine γ → List Expr
  | cond _ lhs relation rhs body, m =>
    lhs :: rhs ::
      match lhs.eval m with
      | .error .. => []
      | .ok a m =>
        match rhs.eval m with
        | .error .. => []
        | .ok b m => if relation.holds a b then body.conditions m else []
  | _, _ => []

end Statement

namespace Engine

variable {s t : Engine γ} {statement body : Statement} {cause : Cause}

/-- Trying out an expression that has a value finds the value. -/
theorem attempt_of_ok {e : Expr} {n : Int16} (h : e.eval s.machine = .ok n s.machine) :
    s.attempt e = (some n, s) := by
  simp only [attempt, evaluating, h]

/-- Trying out an expression that has no value finds none, and makes no report. -/
theorem attempt_of_error {e : Expr} {fault : Fault}
    (h : e.eval s.machine = .error fault s.machine) :
    s.attempt e = (none, s) := by
  simp only [attempt, evaluating, h]

/-- A condition without functions is found to hold, or not, when it is tried out as when it is
    carried out, and whatever is inside it finds the engine as it was. -/
theorem exists_holds {lhs rhs : Expr} (hlhs : lhs.callsFunction = false)
    (hrhs : rhs.callsFunction = false) (s : Engine γ) (span : Span) (relation : Relation)
    (body : Statement) :
    ∃ holds : Bool,
      (Statement.cond span lhs relation rhs body).conditions s.machine =
        lhs :: rhs :: (if holds then body.conditions s.machine else []) ∧
      (Statement.cond span lhs relation rhs body).comesTo? s.machine =
        (if holds then body.comesTo? s.machine else none) ∧
      checkStep (.cond span lhs relation rhs body) s =
      if holds then checkStep body s else .ok () s := by
  rw [checkStep_cond, hlhs, hrhs]
  rcases Expr.eval_of_not_callsFunction hlhs s.machine with ⟨a, ha⟩ | ⟨fault, ha⟩
  · rcases Expr.eval_of_not_callsFunction hrhs s.machine with ⟨b, hb⟩ | ⟨fault, hb⟩
    · refine ⟨relation.holds a b, ?_, ?_, ?_⟩
      · simp only [Statement.conditions, ha, hb]
      · rw [Statement.comesTo?_cond ha hb]
      · simp [attempt_of_ok ha, attempt_of_ok hb]
    · refine ⟨false, ?_, ?_, ?_⟩
      · simp [Statement.conditions, ha, hb]
      · simp [Statement.comesTo?, ha, hb]
      · simp [attempt_of_ok ha, attempt_of_error hb]
  · refine ⟨false, ?_, ?_, ?_⟩
    · simp [Statement.conditions, ha]
    · simp [Statement.comesTo?, ha]
    · -- The other side is tried out all the same, and changes nothing either.
      have hsame := s.attempt_eq_self hrhs
      simp [attempt_of_error ha, hsame]

/-- Without functions the look ahead goes the way that carrying out goes, and comes to the same
    statement. -/
theorem checkStep_of_not_calls (h : ∀ e ∈ statement.conditions s.machine, e.callsFunction = false) :
    (statement.comesTo? s.machine = none ∧ checkStep statement s = .ok () s) ∨
      ∃ body, statement.comesTo? s.machine = some (body, s.machine) ∧
        checkStep statement s = checkStep body s := by
  induction statement with
  | cond span lhs relation rhs body ih =>
    have hlhs : lhs.callsFunction = false := h lhs (by simp [Statement.conditions])
    have hrhs : rhs.callsFunction = false := h rhs (by simp [Statement.conditions])
    obtain ⟨holds, hconditions, hcomes, hcheck⟩ := exists_holds hlhs hrhs s span relation body
    rw [hconditions] at h
    rw [hcomes, hcheck]
    cases holds with
    | false => exact .inl ⟨rfl, rfl⟩
    | true => exact ih fun e he => h e (by simp [he])
  | _ => exact .inr ⟨_, rfl, rfl⟩

/-- A function in a condition on the way is not called beforehand, and nothing is foreseen. -/
theorem checkStep_of_calls (h : ∃ e ∈ statement.conditions s.machine, e.callsFunction) :
    checkStep statement s = .ok () s := by
  induction statement with
  | cond span lhs relation rhs body ih =>
    by_cases hcalls : (lhs.callsFunction || rhs.callsFunction) = true
    · rw [checkStep_cond, if_pos hcalls]
    · simp only [Bool.or_eq_true, not_or, Bool.not_eq_true] at hcalls
      obtain ⟨holds, hconditions, -, hcheck⟩ := exists_holds hcalls.1 hcalls.2 s span relation body
      rw [hconditions] at h
      rw [hcheck]
      cases holds with
      | false => rfl
      | true => exact ih (by simpa [hcalls] using h)
  | _ => simp [Statement.conditions] at h

/-! ### What is foreseen -/

/-- What can be foreseen of a statement that is no `IF`: a return without a call, or a jump to the
    number of no line. -/
inductive Hopeless (s : Engine γ) (body : Statement) : Cause → Prop where
  | ret {span : Span} (hret : body = .ret span) (hcalls : s.calls.isEmpty) :
      Hopeless s body .emptyCallStack
  | jump {word : Keyword} {span : Span} {n : Int16} (hmiss : s.listing.Misses body word span n) :
      Hopeless s body (.noBranchTarget n)

omit [RandomSource γ] in
/-- A target is found bad if it is a number, and not that of a line. -/
theorem checkTarget_error_iff {target : Expr} : s.checkTarget target = .error cause ↔
    ∃ span n, target.literal? = some (span, n) ∧ ¬ s.listing.IsTarget n ∧
    cause = .noBranchTarget n := by
  unfold checkTarget
  cases target.literal? with
  | none => simp
  | some literal =>
    obtain ⟨span, n⟩ := literal
    have htarget : (decide (1 ≤ n) && s.listing.contains n.toNatClampNeg) = true ↔
        s.listing.IsTarget n := by
      simp [Listing.IsTarget]
    dsimp only
    by_cases hn : s.listing.IsTarget n
    · rw [if_pos (htarget.2 hn)]
      refine iff_of_false (by simp) ?_
      rintro ⟨_, _, ⟨rfl, rfl⟩, hmiss, -⟩
      exact hmiss hn
    · rw [if_neg (mt htarget.1 hn)]
      constructor
      · rintro ⟨rfl⟩
        exact ⟨span, n, rfl, hn, rfl⟩
      · rintro ⟨_, _, ⟨rfl, rfl⟩, -, rfl⟩
        rfl

/-- The look ahead finds a statement that is no `IF` at fault if it is hopeless. -/
theorem checkStep_body_iff (hcond : body.isCond = false) :
    checkStep body s = .error cause t ↔ t = s ∧ Hopeless s body cause := by
  -- Jumps have one reason between them: a literal target that is not stored.
  have hjump : ∀ {word target}, body.jump? = some (word, target) →
      (checkStep body s = .error cause t ↔ t = s ∧ Hopeless s body cause) := by
    intro word target hjump
    have hhopeless : Hopeless s body cause ↔ s.checkTarget target = .error cause := by
      rw [checkTarget_error_iff]
      constructor
      · rintro (⟨rfl, -⟩ | ⟨target', hjump', hliteral, hn⟩)
        · cases hjump
        · obtain ⟨rfl, rfl⟩ := Prod.mk.inj (Option.some.inj (hjump.symm.trans hjump'))
          exact ⟨_, _, hliteral, hn, rfl⟩
      · rintro ⟨span, n, hliteral, hn, rfl⟩
        exact .jump ⟨target, hjump, hliteral, hn⟩
    rw [checkStep_jump hjump, hhopeless]
    unfold verdict
    cases s.checkTarget target with
    | ok => simp
    | error cause' => simp [eq_comm, and_comm]
  cases body with
  | cond => cases hcond
  | goto | gosub => exact hjump rfl
  | ret span =>
    rw [checkStep_ret]
    constructor
    · intro h
      split at h
      next hcalls =>
        cases h
        exact ⟨rfl, .ret rfl hcalls⟩
      next => cases h
    · rintro ⟨rfl, ⟨-, hcalls⟩ | ⟨target, hjump, -⟩⟩
      · rw [if_pos hcalls]
      · cases hjump
  | _ =>
    refine iff_of_false nofun ?_
    rintro ⟨-, ⟨hret, -⟩ | ⟨target, hjump, -⟩⟩
    · cases hret
    · cases hjump

/-- **What is refused.**  A statement is refused if none of the conditions on the way calls a
    function, all of them hold, and what is inside them is hopeless. -/
theorem checkStep_error_iff : checkStep statement s = .error cause t ↔ t = s ∧
    (∀ e ∈ statement.conditions s.machine, ¬ e.Calls) ∧
      ∃ body, statement.comesTo? s.machine = some (body, s.machine) ∧ Hopeless s body cause := by
  by_cases hcalls : ∃ e ∈ statement.conditions s.machine, e.callsFunction
  · rw [checkStep_of_calls hcalls]
    refine iff_of_false nofun fun h => ?_
    obtain ⟨e, he, hcall⟩ := hcalls
    exact h.2.1 e he (Expr.callsFunction_iff.1 hcall)
  · have hplain : ∀ e ∈ statement.conditions s.machine, ¬ e.Calls :=
      fun e he hcall => hcalls ⟨e, he, Expr.callsFunction_iff.2 hcall⟩
    have hfalse : ∀ e ∈ statement.conditions s.machine, e.callsFunction = false :=
      fun e he => Bool.eq_false_iff.2 fun hcall => hcalls ⟨e, he, hcall⟩
    rcases checkStep_of_not_calls hfalse with ⟨hcomes, hcheck⟩ | ⟨body, hcomes, hcheck⟩
    · simp [hcheck, hcomes]
    · rw [hcheck, checkStep_body_iff (Statement.isCond_of_comesTo? hcomes), hcomes]
      refine and_congr_right fun _ => ⟨fun h => ⟨hplain, body, rfl, h⟩, ?_⟩
      rintro ⟨-, body', hbody, h⟩
      cases hbody
      exact h

/-! ### What happens -/

/-- The reason that is foreseen for a failure, and the reason that it then has. -/
inductive Foretells : Cause → Cause → Prop where
  | ret : Foretells .emptyCallStack .returnWithoutGosub
  | jump (word : Keyword) (n : Int16) : Foretells (.noBranchTarget n) (.undefinedLine word n)

/-- What is hopeless fails on behalf of any line, for the reason foreseen, and has changed
    nothing. -/
theorem execute_hopeless (h : Hopeless s body cause) (k : Nat) :
    ∃ fault, execute (some k) body s = .error fault s ∧ Foretells cause fault.cause := by
  cases h with
  | @ret span hret hcalls =>
    refine ⟨⟨.returnWithoutGosub, span⟩, ?_, .ret⟩
    rw [hret, execute, executeReturn, bind_of_ok (guardPaused_line span k), get_bind]
    simp only [CallStack.pop_of_isEmpty hcalls]
    rfl
  | @jump word span n hmiss =>
    obtain ⟨fault, hcause, hfails⟩ := execute_misses (k := k) hmiss
    exact ⟨fault, hfails, hcause ▸ .jump word n⟩

/-- What fails for want of a call to return from, or of the line whose number it jumps to, was
    hopeless. -/
theorem hopeless_of_balks {fault : Fault} (h : Balks s body fault)
    (hcause : fault.cause.code = .returnWithoutGosub ∨ fault.cause.code = .undefinedLine ∧
      body.jump?.all fun (_, target) => target.literal?.isSome) :
    ∃ cause, Hopeless s body cause ∧ Foretells cause fault.cause := by
  cases h with
  | value hcode => rcases hcause with h | ⟨h, -⟩ <;> simp [h, Code.concernsValues] at hcode
  | state hcode => rcases hcause with h | ⟨h, -⟩ <;> simp [h, Code.concernsState] at hcode
  | ret hret hcalls hcause => exact ⟨_, .ret hret hcalls, hcause ▸ .ret⟩
  | @target word target n m hjump hn hstored hundefined =>
    rcases hcause with hcode | ⟨-, hnumber⟩
    · rw [hundefined] at hcode
      cases hcode
    · rw [hjump] at hnumber
      obtain ⟨⟨span, k⟩, hliteral⟩ := Option.isSome_iff_exists.1 hnumber
      rw [Expr.eval_of_literal hliteral] at hn
      cases hn
      exact ⟨_, .jump ⟨target, hjump, hliteral, hstored⟩, hundefined ▸ .jump word n⟩

omit [RandomSource γ] in
/-- Only the program and the open subroutines matter for what is hopeless. -/
theorem Hopeless.congr (h : Hopeless s body cause) (hlisting : t.listing = s.listing)
    (hcalls : t.calls = s.calls) :
    Hopeless t body cause := by
  cases h with
  | ret hret hempty => exact .ret hret (hcalls ▸ hempty)
  | jump hmiss => exact .jump (hlisting ▸ hmiss)

/-- **Refused steps.**  If a single step of a suspended run is refused for what is foreseen of its
    line, that line fails as soon as the run goes on. -/
theorem advance_of_refused {line : Line} {u : Engine γ} (hpending : s.pending = none)
    (hline : s.listing.get? s.cursor = some line)
    (hcheck : checkStep line.statement s = .error cause t) (hresume : resumeRun s = .ok () u) :
    ∃ fault : Fault, Foretells cause fault.cause ∧ u.advance.1 = .failed ∧
      u.advance.2.errors = s.errors ++
        [s.placed ((fault.diagnostic.atLine (some line.number)).inSource line.source)] := by
  obtain ⟨-, -, body, hcomes, hhopeless⟩ := checkStep_error_iff.1 hcheck
  rw [resumeRun_eq] at hresume
  split at hresume <;> cases hresume
  -- When the line is carried out it finds the calls and the program as they were when it was tried
  -- out.
  let b : Engine γ := ({ s with mode := .running, resume := false } : Engine γ).begun line
  obtain ⟨transcript, hb⟩ : ∃ transcript, b = { s with
      mode := .running, resume := false, branch := none, transcript } := ⟨_, begun_eq _ line⟩
  obtain ⟨fault, hfails, hforetells⟩ :=
    execute_hopeless (hhopeless.congr (t := b) (by rw [hb]) (by rw [hb])) line.number
  have hmachine : b.machine = s.machine := by rw [hb]
  rw [← hmachine] at hcomes
  have hexecute : execute (some line.number) line.statement b = .error fault b :=
    (execute_comesTo hcomes).trans hfails
  refine ⟨fault, hforetells, ?_⟩
  rw [advance_of_isOpen (s := { s with mode := .running, resume := true })
    ⟨rfl, hpending, hline, .inl rfl⟩, executeLine_of_error hexecute]
  refine ⟨rfl, ?_⟩
  rw [fail_errors, timed_eq, hb]
  rfl

/-- **Main result.**  Looking ahead at a statement changes nothing, whatever the engine is doing.  A
    statement that is refused fails when it is executed, for the reason foreseen.  And if none of
    the conditions that it meets with calls a function, a statement that fails for want of a call to
    return from, or of the line whose number it jumps to, is refused.  Functions are found wherever
    they are in an expression, and without them its evaluation changes nothing. -/
theorem checkStep_foresees (s : Engine γ) (statement : Statement) (k : Nat) :
    (checkStep statement s = .ok () s ∨ ∃ cause, checkStep statement s = .error cause s) ∧
    (∀ cause t, checkStep statement s = .error cause t →
      ∃ fault u, execute (some k) statement s = .error fault u ∧ Foretells cause fault.cause) ∧
    (∀ fault u, execute (some k) statement s = .error fault u →
      (∀ e ∈ statement.conditions s.machine, ¬ e.Calls) →
      fault.cause.code = .returnWithoutGosub ∨ fault.cause.code = .undefinedLine ∧
      statement.jumpsToNumber →
        ∃ cause, checkStep statement s = .error cause s ∧ Foretells cause fault.cause) ∧
    (∀ e : Expr, e.callsFunction ↔ e.Calls) ∧
    ∀ (e : Expr) (m : Machine γ), e.callsFunction = false → Expr.Keeps m (e.eval m) := by
  refine ⟨checkStep_cases s statement, fun cause t hcheck => ?_,
    fun fault u hexecute hplain hcause => ?_,
    fun e => Expr.callsFunction_iff, fun e m he => Expr.eval_of_not_callsFunction he m⟩
  · obtain ⟨-, -, body, hcomes, hhopeless⟩ := checkStep_error_iff.1 hcheck
    obtain ⟨fault, hfails, hforetells⟩ := execute_hopeless hhopeless k
    exact ⟨fault, s, (execute_comesTo hcomes).trans hfails, hforetells⟩
  · rcases (execute_error hexecute).2 with hvalues | ⟨body, m, hcomes, hbalks⟩
    · rcases hcause with h | ⟨h, -⟩ <;> simp [h, Code.concernsValues] at hvalues
    · have hfalse : ∀ e ∈ statement.conditions s.machine, e.callsFunction = false :=
        fun e he => Bool.eq_false_iff.2 fun hcall => hplain e he (Expr.callsFunction_iff.1 hcall)
      -- The conditions have not changed the machine, so what failed was carried out on the engine
      -- itself.
      rcases checkStep_of_not_calls hfalse with ⟨hnone, -⟩ | ⟨body', hcomes', -⟩
      · cases hcomes.symm.trans hnone
      cases hcomes.symm.trans hcomes'
      rw [Statement.jumpsToNumber, ← Statement.eq_core_of_comesTo? hcomes] at hcause
      obtain ⟨cause, hhopeless, hforetells⟩ := hopeless_of_balks hbalks hcause
      exact ⟨cause, checkStep_error_iff.2 ⟨rfl, hplain, body, hcomes, hhopeless⟩, hforetells⟩

/-- A run that is suspended at a return without a call, inside two `IF`s. -/
def nestedReturn : List (Operation ChaCha) :=
  [.act (.enter "10 LET A=1"), .act (.enter "20 IF A=1 THEN IF A+1=2 THEN RETURN"),
    .act (.setBreakpoint 20), .act (.enter "RUN"), .poll 9]

/-- The `RETURN` inside two `IF`s is refused beforehand, and fails when it is carried out. -/
theorem checkStep_foresees_nestedReturn :
    let s := (start (ChaCha.ofSeed 1)).run nestedReturn
    s.mode = .paused ∧ ∃ l ∈ s.listing.lines, l.number = s.cursor ∧ ∃ cause fault u,
      checkStep l.statement s = .error cause s ∧
      execute (some l.number) l.statement s = .error fault u ∧ Foretells cause fault.cause := by
  intro s
  have hmode : s.mode = .paused := by decide +kernel
  have hrefused : ∃ l ∈ s.listing.lines, l.number = s.cursor ∧
      (match checkStep l.statement s with | .error .. => true | .ok .. => false : Bool) := by
    decide +kernel
  obtain ⟨l, hl, hnumber, hrefused⟩ := hrefused
  obtain ⟨hunchanged, hfails, -⟩ := checkStep_foresees s l.statement l.number
  rcases hunchanged with hok | ⟨cause, hcheck⟩
  · simp [hok] at hrefused
  · obtain ⟨fault, u, hexecute, hforetells⟩ := hfails cause s hcheck
    exact ⟨hmode, l, hl, hnumber, cause, fault, u, hcheck, hexecute, hforetells⟩

end Engine

end LineBasic
