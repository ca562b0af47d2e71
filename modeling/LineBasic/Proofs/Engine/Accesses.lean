import LineBasic.Proofs.Engine.Account
import LineBasic.Proofs.Engine.Printed
import LineBasic.Proofs.Expr.Accesses

namespace LineBasic

open Engine

/-!
# Accesses of statements and answers

What carrying out a statement does with the memory, and what entering answers does.

* `Statement.accesses`, `Engine.execute_uses` -- the accesses of a statement, up to a failure;
* `accessesOfAnswers`, `Engine.takeAnswers_serves` -- the accesses of answers, up to the first bad
  one;
* `Engine.answer_memory` -- nothing but the answers themselves uses the memory;
* `Statement.wipe_mem_accesses` -- only `CLEAR` makes all bytes zero.
-/

/-- The expressions that a `LIST` evaluates. -/
def Extent.bounds : Extent → List Expr
  | whole => []
  | onward low => [low]
  | between low high => [low, high]

/-- The expression that an answer is, if it can be read. -/
def Expr.ofAnswer? (answer : List Char) : Option Expr :=
  (Token.scan (.ofList (Text.trim answer))).toOption.bind fun tokens => (ofTokens tokens).toOption

variable {γ : Type} [RandomSource γ]

/-- What a statement does with the memory, on behalf of a line or of none.  While a run is suspended
    a direct jump is refused before its target is evaluated, and `RUN` evaluates its values only if
    it begins a run. -/
def Statement.accesses (line : Option Nat) (v : View) : Statement → Machine γ → List MemoryAccess
  | assign _ _ value, m => value.accesses m
  | print _ items, m => accessesAll (values items) m
  | list _ extent, m => accessesAll extent.bounds m
  | cond _ lhs relation rhs body, m =>
    lhs.accesses m ++ afterwards (lhs.eval m) fun a m =>
      rhs.accesses m ++ afterwards (rhs.eval m) fun b m =>
        if relation.holds a b then body.accesses line v m else []
  | goto _ target, m | gosub _ target, m =>
    if line.isNone && v.suspended then [] else target.accesses m
  | run _ arguments, m =>
    if line.isNone && !v.suspended && v.listing.first?.isSome then accessesAll arguments m else []
  | clear _, _ => [.wipe]
  | halt _, _ | input .., _ | ret _, _ | remark .., _ => []

/-- What answers to a question do with the memory, up to the first bad one. -/
def accessesOfAnswers : List Letter → List (List Char) → Machine γ → List MemoryAccess
  | x :: xs, answer :: answers, m =>
    match Expr.ofAnswer? answer with
    | none => []
    | some e =>
      e.accesses m ++ afterwards (e.eval m) fun n m =>
        accessesOfAnswers xs answers { m with vars := m.vars.set x n }
  | [], _, _ | _, [], _ => []

/-! ### Statements -/

/-- A `PRINT` does the accesses of its values, from left to right. -/
theorem printed_uses (items : List PrintItem) (m : Machine γ) :
    Uses Machine.memory (printed items) m (accessesAll (values items) m) := by
  have honto : ∀ (text : String) (m : Machine γ),
      Uses Machine.memory (printOnto text items) m (accessesAll (values items) m) := by
    induction items with
    | nil => exact fun text m => uses_of_same rfl
    | cons item items ih =>
      intro text m
      cases item with
      | text | comma | semicolon => exact ih _ m
      | value e => exact uses_bind (e.uses m) fun n m => ih _ m
  exact uses_bind_same (honto "" m) fun text m => uses_of_same rfl

namespace Engine

variable {s : Engine γ} {α β : Type} {line : Option Nat}

/-- The memory of an engine. -/
def memory (s : Engine γ) : Memory := s.machine.memory

omit [RandomSource γ] in
/-- Evaluating with an engine does the accesses of the expression before those that come after. -/
theorem uses_evaluating {x : Evaluation γ α} {k : α → Execution γ β} {as : List MemoryAccess}
    {bs : α → Machine γ → List MemoryAccess} (hx : Uses Machine.memory x s.machine as)
    (hk : ∀ a m, Uses memory (k a) { s with machine := m } (bs a m)) :
    Uses memory (evaluating x >>= k) s (as ++ afterwards (x s.machine) bs) := by
  unfold Uses at *
  cases hvalue : x s.machine with
  | error fault m =>
    rw [bind_of_error (evaluating_error hvalue), afterwards, List.append_nil]
    rwa [hvalue] at hx
  | ok a m =>
    rw [bind_of_ok (evaluating_ok hvalue)]
    rw [hvalue] at hx
    exact hx.append (hk a m)

omit [RandomSource γ] in
/-- What needs no accesses after a value adds none. -/
theorem uses_evaluating_same {x : Evaluation γ α} {k : α → Execution γ β} {as : List MemoryAccess}
    (hx : Uses Machine.memory x s.machine as) (hk : ∀ a t, Uses memory (k a) t []) :
    Uses memory (evaluating x >>= k) s as := by
  have huses := uses_evaluating hx fun a m => hk a { s with machine := m }
  cases hvalue : x s.machine with
  | error | ok => simpa only [hvalue, afterwards, List.append_nil] using huses

omit [RandomSource γ] in
/-- Only a direct statement is refused because a run is suspended, and then it does nothing. -/
theorem uses_guardPaused {k : Execution γ β} {as : List MemoryAccess} (span : Span)
    (hk : Uses memory k s as) :
    Uses memory (guardPaused span line >>= fun _ => k) s
      (if line.isNone && s.view.suspended then [] else as) := by
  unfold Uses at *
  split
  next hrefused =>
    have herror : guardPaused span line s = .error ⟨.useContinue, span⟩ s := by
      unfold guardPaused
      rw [get_bind]
      exact congrFun (if_pos hrefused) s
    rw [bind_of_error herror]
    exact .nil
  next hallowed =>
    have hok : guardPaused span line s = .ok () s := by
      refine guardPaused_ok span fun hline hmode => hallowed ?_
      simp [hline, view, hmode]
    rwa [bind_of_ok hok]

/-- Finding the line that a target names does the accesses of the target. -/
theorem resolve_uses (word : Keyword) (target : Expr) (s : Engine γ) :
    Uses memory (resolve word target) s (target.accesses s.machine) := by
  refine uses_evaluating_same (target.uses s.machine) fun n t => uses_get ?_
  split <;> exact uses_of_same rfl

omit [RandomSource γ] in
/-- Judging the bounds of a `LIST` does no access. -/
theorem checkBounds_uses (span : Span) (low high : Int16) (s : Engine γ) :
    Uses memory (checkBounds span low high) s [] := by
  refine uses_of_same ?_
  unfold checkBounds
  split
  · rfl
  · split <;> rfl

/-- Listing does the accesses of the bounds. -/
theorem listed_uses (span : Span) (extent : Extent) (s : Engine γ) :
    Uses memory (listed span extent) s (accessesAll extent.bounds s.machine) := by
  cases extent with
  | whole => exact uses_of_same rfl
  | onward low =>
    refine uses_evaluating (low.uses s.machine) fun a m => ?_
    refine uses_bind_same (checkBounds_uses span a _ _) fun _ t => uses_get ?_
    dsimp only
    split <;> exact uses_of_same rfl
  | between low high =>
    refine uses_evaluating (low.uses s.machine) fun a m => ?_
    refine uses_evaluating (high.uses m) fun b m => ?_
    exact uses_bind_same (checkBounds_uses span a b _) fun _ t => uses_of_same rfl

omit [RandomSource γ] in
/-- Taking values of `RUN` and asking for more does no access. -/
theorem ask_memory (line : Option Nat) (s : Engine γ) (xs : List Letter) :
    (ask line s xs).memory = s.memory := by
  rw [ask_eq]
  rfl

/-- A direct `RUN` does the accesses of its values if it begins a run, and none otherwise. -/
theorem executeRun_uses (span : Span) (arguments : List Expr) (s : Engine γ) :
    Uses memory (executeRun span arguments line) s
      (if line.isNone && !s.view.suspended && s.view.listing.first?.isSome then accessesAll
        arguments s.machine else []) := by
  cases line with
  | some k =>
    -- A line that begins the program again does not evaluate its arguments.
    have hagain : Uses memory (executeRun span arguments (some k)) s
        (if false then [] else []) := by
      refine uses_guardPaused span (uses_of_same ?_)
      show (if arguments = [] then s else _).rewind.memory = s.memory
      rw [rewind_eq]
      split <;> rfl
    exact hagain
  | none =>
    have hbegins : Uses memory (executeRun span arguments none) s (if s.view.suspended then [] else
        if s.view.listing.first?.isSome then accessesAll arguments s.machine else []) := by
      refine uses_guardPaused span (uses_get ?_)
      split
      next hfirst =>
        rw [if_neg (by simp [view, hfirst])]
        exact uses_of_same rfl
      next first hfirst =>
        rw [if_pos (by simp [view, hfirst])]
        exact uses_evaluating_same (evalAll_uses arguments s.machine) fun queue t =>
          uses_of_same rfl
    convert hbegins using 1
    cases s.view.suspended <;> simp

/-- **Statements.**  Carrying out a statement does its accesses, and nothing else with the
    memory. -/
theorem execute_uses (line : Option Nat) (statement : Statement) (s : Engine γ) :
    Uses memory (execute line statement) s (statement.accesses line s.view s.machine) := by
  induction statement generalizing s with
  | remark => exact uses_of_same rfl
  | input span targets => exact uses_of_same (ask_memory line s _)
  | clear =>
    have hempty : s.wipe.stop.memory = .empty := by
      rw [memory, stop_machine]
      rfl
    show s.memory.Serves [.wipe] s.wipe.stop.memory
    rw [hempty]
    exact .wiped .nil
  | halt => exact uses_of_same (congrArg Machine.memory (stop_machine s))
  | assign span target value =>
    exact uses_evaluating_same (value.uses s.machine) fun n t => uses_of_same rfl
  | print span items =>
    exact uses_evaluating_same (printed_uses items s.machine) fun text t => uses_of_same rfl
  | list span extent =>
    exact uses_bind_same (listed_uses span extent s) fun text t => uses_of_same rfl
  | cond span lhs relation rhs body ih =>
    refine uses_evaluating (lhs.uses s.machine) fun a m => uses_evaluating (rhs.uses m)
      fun b m => ?_
    split
    · exact ih _
    · exact uses_of_same rfl
  | goto span target =>
    refine uses_guardPaused span (uses_bind_same (resolve_uses .GOTO target s) fun n t =>
      uses_of_same ?_)
    cases line <;> rfl
  | gosub span target =>
    refine uses_guardPaused span (uses_bind_same (resolve_uses .GOSUB target s) fun n t =>
      uses_get ?_)
    split
    · exact uses_of_same rfl
    · split <;> exact uses_of_same rfl
  | ret span =>
    have hpop : Uses memory (executeReturn span line) s
        (if line.isNone && s.view.suspended then [] else []) := by
      refine uses_guardPaused span (uses_get ?_)
      split <;> exact uses_of_same rfl
    rwa [ite_self] at hpop
  | run span arguments => exact executeRun_uses span arguments s

/-! ### Answers -/

/-- An answer is evaluated if it is an expression, whatever space is around it. -/
theorem answerValue_eq (s : Engine γ) (answer : List Char) :
    s.answerValue (.ofList (Text.trim answer)) =
      (Expr.ofAnswer? answer).elim (none, s) s.attempt := by
  unfold answerValue Expr.ofAnswer?
  cases Token.scan (.ofList (Text.trim answer)) with
  | error => rfl
  | ok tokens => cases hread : Expr.ofTokens tokens <;> simp [hread, Except.toOption]

/-- **Answers.**  Taking answers does their accesses, up to the first bad answer, and nothing else
    with the memory. -/
theorem takeAnswers_serves (line : Option Nat) (xs : List Letter) (answers : List (List Char))
    (s : Engine γ) :
    s.memory.Serves (accessesOfAnswers xs answers s.machine)
      (takeAnswers line s xs answers).2.memory := by
  induction xs generalizing answers s with
  | nil => exact .nil
  | cons x xs ih =>
    cases answers with
    | nil => exact .nil
    | cons answer answers =>
      unfold takeAnswers accessesOfAnswers
      dsimp only
      rw [answerValue_eq]
      cases Expr.ofAnswer? answer with
      | none =>
        show s.memory.Serves [] (s.fail _).machine.memory
        rw [fail_machine]
        exact .nil
      | some e =>
        have huses : s.memory.Serves (e.accesses s.machine) (left (e.eval s.machine)).memory :=
          e.uses s.machine
        show s.memory.Serves (e.accesses s.machine ++ _) _
        -- What an answer has read or written is done even if it then fails.
        cases hvalue : e.eval s.machine with
        | error fault m =>
          rw [hvalue] at huses
          have hattempt : s.attempt e = (none, { s with machine := m }) := by
            rw [attempt, evaluating_error hvalue]
          simp only [Option.elim_some, hattempt, afterwards, List.append_nil]
          rw [memory, memory, fail_machine]
          exact huses
        | ok n m =>
          rw [hvalue] at huses
          have hattempt : s.attempt e = (some n, { s with machine := m }) := by
            rw [attempt, evaluating_ok hvalue]
          simp only [Option.elim_some, hattempt, afterwards]
          have hrest := ih answers (({ s with machine := m } : Engine γ).assign x n)
          exact huses.append hrest

/-- Of a line of answers only the answers themselves touch the memory. -/
theorem answer_memory (s : Engine γ) (q : Inquiry) (text : String) :
    (s.answer q text).memory =
      (takeAnswers q.line { s with pending := none } q.awaiting (answersIn text)).2.memory := by
  unfold answer answersIn
  dsimp only
  split
  next h => rw [h]
  next awaiting spare t h =>
    rw [h]
    have hspare : (if spare = [] then t else t.emit (.notice Cause.excessInput.diagnostic)).memory =
        t.memory := by
      split <;> rfl
    generalize (if spare = [] then t else t.emit (.notice Cause.excessInput.diagnostic)) = u at *
    split
    · exact hspare
    · split
      · exact (congrArg Machine.memory (finishLine_machine u)).trans hspare
      · exact hspare

end Engine

/-! ### Wipes -/

/-- A statement makes all bytes zero exactly if it comes to `CLEAR`. -/
theorem Statement.wipe_mem_accesses (statement : Statement) (line : Option Nat) (v : View)
    (m : Machine γ) :
    .wipe ∈ statement.accesses line v m ↔
      ∃ span m', statement.comesTo? m = some (.clear span, m') := by
  induction statement generalizing m with
  | clear span => exact ⟨fun _ => ⟨span, m, rfl⟩, fun _ => List.mem_singleton_self _⟩
  | halt | input | ret | remark => exact ⟨nofun, nofun⟩
  | assign span target value => exact ⟨fun h => absurd h (value.wipe_notMem_accesses m), nofun⟩
  | print span items => exact ⟨fun h => absurd h (wipe_notMem_accessesAll _ m), nofun⟩
  | list span extent => exact ⟨fun h => absurd h (wipe_notMem_accessesAll _ m), nofun⟩
  | goto span target | gosub span target =>
    refine ⟨fun h => ?_, nofun⟩
    unfold accesses at h
    split at h
    · cases h
    · exact absurd h (target.wipe_notMem_accesses m)
  | run span arguments =>
    refine ⟨fun h => ?_, nofun⟩
    unfold accesses at h
    split at h
    · exact absurd h (wipe_notMem_accessesAll arguments m)
    · cases h
  -- The two sides only call, so a wipe can come from the body alone, and only if both have values.
  | cond span lhs relation rhs body ih =>
    unfold accesses comesTo?
    cases lhs.eval m with
    | error => simp [afterwards, lhs.wipe_notMem_accesses m]
    | ok a m₁ =>
      dsimp only [afterwards]
      cases rhs.eval m₁ with
      | error => simp [lhs.wipe_notMem_accesses m, rhs.wipe_notMem_accesses m₁]
      | ok b m₂ =>
        dsimp only
        split
        · simp [lhs.wipe_notMem_accesses m, rhs.wipe_notMem_accesses m₁, ih]
        · simp [lhs.wipe_notMem_accesses m, rhs.wipe_notMem_accesses m₁]

/-- Answers never wipe the memory. -/
theorem wipe_notMem_accessesOfAnswers (xs : List Letter) (answers : List (List Char))
    (m : Machine γ) :
    .wipe ∉ accessesOfAnswers xs answers m := by
  induction xs generalizing answers m with
  | nil => exact List.not_mem_nil
  | cons x xs ih =>
    cases answers with
    | nil => exact List.not_mem_nil
    | cons answer answers =>
      unfold accessesOfAnswers
      split
      · exact List.not_mem_nil
      next e _ => exact wipe_notMem_append (e.wipe_notMem_accesses m) fun n m => ih answers _

end LineBasic
