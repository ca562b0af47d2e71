import LineBasic.Engine.Debug
import LineBasic.Proofs.Expr.Eval
import LineBasic.Proofs.Expr.Fault

namespace LineBasic.Engine

/-!
# Requests

What each request does, and that the look ahead before a single step changes nothing.

* `checkStep_cases` -- looking ahead leaves the engine as it was, whatever comes of it;
* `resumeRun_eq`, `stepRun_eq`, `exitRun_eq`, `showCalls_eq`, `setBreakpoint_cases`,
  `clearBreakpoint_cases` -- a request is accepted or refused, and a refusal leaves the engine as it
  was.
-/

variable {γ : Type} [RandomSource γ] (s : Engine γ)

/-! ### Looking ahead -/

/-- An expression without functions can be tried out. -/
theorem attempt_eq_self {e : Expr} (he : e.callsFunction = false) : (s.attempt e).2 = s := by
  unfold attempt evaluating
  rcases Expr.eval_of_not_callsFunction he s.machine with ⟨n, h⟩ | ⟨fault, h⟩
  · rw [h]
  · rw [h]

/-- A `RETURN` is refused beforehand where no subroutine is open. -/
theorem checkStep_ret (span : Span) :
    checkStep (.ret span) s = if s.calls.isEmpty then .error .emptyCallStack s else .ok () s := by
  show (if s.calls.isEmpty = true then _ else _ : Request γ Unit) s = _
  split <;> rfl

/-- Accepts or refuses as a check says. -/
def verdict (check : Except Cause Unit) : Request γ Unit := fun s =>
  match check with
  | .ok () => .ok () s
  | .error cause => .error cause s

/-- Looking ahead at a jump changes nothing, whether or not it is refused. -/
theorem checkStep_goto (span : Span) (target : Expr) :
    checkStep (.goto span target) s = .ok () s ∨
      ∃ cause, checkStep (.goto span target) s = .error cause s := by
  have hgoto : checkStep (.goto span target) s = verdict (s.checkTarget target) s := rfl
  rw [hgoto]
  cases s.checkTarget target with
  | ok => exact .inl rfl
  | error cause => exact .inr ⟨cause, rfl⟩

/-- A call is looked at as a jump is. -/
theorem checkStep_gosub (span : Span) (target : Expr) :
    checkStep (.gosub span target) s = checkStep (.goto span target) s := rfl

/-- An `IF` whose condition calls no function is looked into if the condition holds. -/
theorem checkStep_cond (span : Span) (lhs rhs : Expr) (relation : Relation) (body : Statement) :
    checkStep (.cond span lhs relation rhs body) s =
      if lhs.callsFunction || rhs.callsFunction then .ok () s
      else
        let t := (s.attempt lhs).2.attempt rhs
        match (s.attempt lhs).1, t.1 with
        | some a, some b => if relation.holds a b then checkStep body t.2 else .ok () t.2
        | _, _ => .ok () t.2 :=
  rfl

/-- Looking ahead at an `IF` comes to nothing, or to looking ahead at what is inside it. -/
theorem checkStep_cond_cases (span : Span) (lhs rhs : Expr) (relation : Relation)
    (body : Statement) :
    checkStep (.cond span lhs relation rhs body) s = .ok () s ∨
      checkStep (.cond span lhs relation rhs body) s = checkStep body s := by
  rw [checkStep_cond]
  split
  next => exact .inl rfl
  next hcalls =>
    simp only [Bool.or_eq_true, not_or, Bool.not_eq_true] at hcalls
    -- Neither side changes the engine, so the body is looked at on the engine itself.
    have hlhs := s.attempt_eq_self hcalls.1
    have hrhs := s.attempt_eq_self hcalls.2
    dsimp only
    rw [hlhs, hrhs]
    split
    · split
      · exact .inr rfl
      · exact .inl rfl
    · exact .inl rfl

/-- Looking ahead leaves the engine as it was, whatever comes of it. -/
theorem checkStep_cases (statement : Statement) :
    checkStep statement s = .ok () s ∨ ∃ cause, checkStep statement s = .error cause s := by
  induction statement with
  | ret span =>
    rw [checkStep_ret]
    split
    · exact .inr ⟨_, rfl⟩
    · exact .inl rfl
  | goto span target => exact checkStep_goto s span target
  | gosub span target =>
    rw [checkStep_gosub]
    exact checkStep_goto s span target
  | cond span lhs relation rhs body ih =>
    rcases s.checkStep_cond_cases span lhs rhs relation body with hnothing | hinside
    · exact .inl hnothing
    · rw [hinside]
      exact ih
  | clear | halt | input | assign | list | print | remark | run => exact .inl rfl

/-! ### Accepting and refusing -/

omit [RandomSource γ]

/-- A request that is for suspended runs only. -/
theorem whilePaused_bind (name : String) (request : Unit → Request γ Unit) :
    (whilePaused name >>= request) s =
      if s.mode = .paused then request () s else .error (.notDebugging name) s := by
  by_cases h : s.mode = .paused
  · have hpass : whilePaused name s = .ok () s := by
      show (if s.mode ≠ .paused then _ else _ : Request γ Unit) s = _
      rw [if_neg (by simpa using h)]
      rfl
    show EStateM.bind (whilePaused name) request s = _
    simp only [EStateM.bind, hpass, h, if_true]
  · have hrefuse : whilePaused name s = .error (.notDebugging name) s := by
      show (if s.mode ≠ .paused then _ else _ : Request γ Unit) s = _
      rw [if_pos h]
      rfl
    show EStateM.bind (whilePaused name) request s = _
    simp only [EStateM.bind, hrefuse, h, if_false]

/-- A suspended run goes on past the line at the cursor; without one the request is refused. -/
theorem resumeRun_eq :
    resumeRun s =
      if s.mode = .paused then .ok () { s with mode := .running, resume := true }
      else .error (.notDebugging "continue") s :=
  whilePaused_bind s "continue" _

/-- A suspended run is given up; without one the request is refused. -/
theorem exitRun_eq :
    exitRun s = if s.mode = .paused then .ok () s.stop else .error (.notDebugging "exit") s :=
  whilePaused_bind s "exit" _

/-- The open subroutines of a suspended run are written as their lines; without one the request is
    refused. -/
theorem showCalls_eq :
    showCalls s =
      if s.mode = .paused then
        .ok () (s.emit (.output ("-- Call Stack --\n" ++ s.writtenLines s.calls.frames)))
      else .error (.notDebugging "backtrace") s :=
  whilePaused_bind s "backtrace" _

/-- A breakpoint is set, or refused with the engine as it was. -/
theorem setBreakpoint_cases (n : Nat) :
    (∃ b, s.breakpoints.set n s.listing = .ok b ∧
        setBreakpoint n s = .ok () { s with breakpoints := b }) ∨
      ∃ cause, setBreakpoint n s = .error cause s := by
  unfold setBreakpoint
  cases s.breakpoints.set n s.listing with
  | ok b => exact .inl ⟨b, rfl, rfl⟩
  | error cause => exact .inr ⟨cause, rfl⟩

/-- A breakpoint is removed, or that is refused with the engine as it was. -/
theorem clearBreakpoint_cases (n : Nat) :
    (∃ b, s.breakpoints.clear n = .ok b ∧
      clearBreakpoint n s = .ok () { s with breakpoints := b }) ∨
      ∃ cause, clearBreakpoint n s = .error cause s := by
  unfold clearBreakpoint
  cases s.breakpoints.clear n with
  | ok b => exact .inl ⟨b, rfl, rfl⟩
  | error cause => exact .inr ⟨cause, rfl⟩

variable [RandomSource γ]

/-- A single step is accepted where a run is suspended, unless looking ahead finds something wrong
    with the line at the cursor. -/
theorem stepRun_eq :
    stepRun s =
      if s.mode = .paused then
        match (s.listing.get? s.cursor).map fun line => checkStep line.statement s with
        | some (.error cause t) => .error cause t
        | some (.ok _ t) => .ok () { t with mode := .running, resume := true, stepping := true }
        | none => .ok () { s with mode := .running, resume := true, stepping := true }
      else .error (.notDebugging "step") s := by
  unfold stepRun
  rw [whilePaused_bind, get_bind]
  split
  next =>
    cases s.listing.get? s.cursor with
    | none => rfl
    | some line =>
      dsimp only [bind, Option.map_some, EStateM.bind]
      cases checkStep line.statement s <;> rfl
  next => rfl

/-- A single step is refused where no run is suspended, or for the line at the cursor. -/
theorem stepRun_error_iff {cause : Cause} {t : Engine γ} :
    stepRun s = .error cause t ↔
      s.mode ≠ .paused ∧ cause = .notDebugging "step" ∧ t = s ∨
        s.mode = .paused ∧ ∃ line, s.listing.get? s.cursor = some line ∧
          checkStep line.statement s = .error cause t := by
  rw [stepRun_eq]
  by_cases hmode : s.mode = .paused
  · cases hline : s.listing.get? s.cursor with
    | none => simp [hmode]
    | some line => cases hcheck : checkStep line.statement s <;> simp [hmode, hcheck]
  · simp [hmode, eq_comm]

/-- A refusal changes nothing. -/
theorem stepRun_cases :
    (s.mode = .paused ∧
        stepRun s = .ok () { s with mode := .running, resume := true, stepping := true }) ∨
      ∃ cause, stepRun s = .error cause s := by
  rw [stepRun_eq]
  split
  next h =>
    cases s.listing.get? s.cursor with
    | none => exact .inl ⟨h, rfl⟩
    | some line =>
      rcases checkStep_cases s line.statement with hcheck | ⟨cause, hcheck⟩
      · exact .inl ⟨h, by rw [Option.map_some, hcheck]⟩
      · exact .inr ⟨cause, by rw [Option.map_some, hcheck]⟩
  next => exact .inr ⟨_, rfl⟩

end LineBasic.Engine
