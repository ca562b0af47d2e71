import LineBasic.Engine.Execute
import LineBasic.Proofs.Expr.Fault
import LineBasic.Proofs.Statement.Nodes

namespace LineBasic

/-!
# Where statements fail

A statement that fails does so at a part of it: an expression inside it, or a statement.

* `Engine.evaluating_isOf`, `Engine.resolve_isOf` -- what is evaluated fails at one of the nodes of
  its expressions;
* `Engine.listed_fault`, `Engine.executeGoto_fault`, `Engine.executeGosub_fault`,
  `Engine.executeReturn_fault`, `Engine.executeRun_fault` -- where the statements fail that do more
  than to evaluate;
* `Engine.execute_fault` -- the main result, for any statement.
-/

variable {γ α : Type} {line : Option Nat} {fault : Fault} {span : Span}

/-- A fault at one of the parts of a statement that are visited. -/
def Fault.IsAt (fault : Fault) (vs : List Visit) : Prop := ∃ v ∈ vs, fault.column = v.span

/-- A fault that is at one of some parts is at one of more parts. -/
theorem Fault.IsAt.mono {vs vs' : List Visit} (h : fault.IsAt vs) (hvs : ∀ v ∈ vs, v ∈ vs') :
    fault.IsAt vs' := by
  obtain ⟨v, hv, hcolumn⟩ := h
  exact ⟨v, hvs v hv, hcolumn⟩

/-- What fails at a node of some expressions fails where these expressions are visited. -/
theorem Fault.IsOf.isAt {es : List Expr} {vs : List Visit} (h : fault.IsOf es)
    (hvs : ∀ e ∈ es, Visit.expr e ∈ vs) : fault.IsAt vs := by
  obtain ⟨-, e, he, hcolumn⟩ := h
  exact ⟨.expr e, hvs e he, hcolumn⟩

/-- What fails with the columns of a statement fails at that statement. -/
theorem Fault.isAt_statement (statement : Statement) (h : fault.column = statement.span) :
    fault.IsAt statement.visits := by
  refine ⟨.statement statement, ?_, h⟩
  cases statement <;> simp [Statement.visits]

namespace Engine

variable {s t : Engine γ}

/-- Evaluating on an engine fails where evaluating on its machine fails. -/
theorem evaluating_fault {x : Evaluation γ α} (h : evaluating x s = .error fault t) :
    ∃ m, x s.machine = .error fault m := by
  unfold evaluating at h
  split at h
  next => cases h
  next m hx =>
    cases h
    exact ⟨m, hx⟩

/-- The refusal of a direct statement has the columns of its word. -/
theorem guardPaused_fault (h : guardPaused span line s = .error fault t) : fault.column = span := by
  unfold guardPaused at h
  rw [get_bind] at h
  split at h <;> cases h
  rfl

/-- The refusal of the bounds of a `LIST` has the columns of its word. -/
theorem checkBounds_fault {low high : Int16} (h : checkBounds span low high s = .error fault t) :
    fault.column = span := by
  unfold checkBounds at h
  dsimp only at h
  split at h
  next =>
    rcases bind_error h with h | ⟨u, v, h, -⟩
    · cases h
      rfl
    · cases h
  next => split at h <;> cases h; rfl

variable [RandomSource γ]

/-- An expression fails at one of its nodes. -/
theorem eval_fault {e : Expr} (h : evaluating e.eval s = .error fault t) : fault.IsAt e.visits := by
  obtain ⟨m, hm⟩ := evaluating_fault h
  exact (Expr.eval_isOf hm).isAt fun e' he' => List.mem_map_of_mem he'

/-- A jump without a target fails at the node of an expression in it. -/
theorem resolve_fault {word : Keyword} {target : Expr}
    (h : resolve word target s = .error fault t) :
    fault.IsAt target.visits := by
  rcases bind_error h with h | ⟨n, u, -, h⟩
  · exact eval_fault h
  · rw [get_bind] at h
    split at h <;> cases h
    exact ⟨.expr target, List.mem_map_of_mem (List.mem_of_getLast? target.getLast?_nodes), rfl⟩

/-- A `LIST` fails at its word or in its bounds. -/
theorem listed_fault {extent : Extent} (h : listed span extent s = .error fault t) :
    fault.IsAt (Statement.list span extent).visits := by
  have hvisits : ∀ v ∈ extent.visits, v ∈ (Statement.list span extent).visits := by
    simp +contextual [Statement.visits]
  cases extent with
  | whole => cases h
  | onward low =>
    rcases bind_error h with h | ⟨a, u, -, h⟩
    · exact (eval_fault h).mono hvisits
    rcases bind_error h with h | ⟨_, v, -, h⟩
    · exact Fault.isAt_statement _ (checkBounds_fault h)
    rw [get_bind] at h
    cases hline : v.listing.get? a.toNatClampNeg <;> simp only [hline] at h <;> cases h
  | between low high =>
    rcases bind_error h with h | ⟨a, u, -, h⟩
    · exact ((eval_fault h).mono (by simp +contextual [Extent.visits])).mono hvisits
    rcases bind_error h with h | ⟨b, v, -, h⟩
    · exact ((eval_fault h).mono (by simp +contextual [Extent.visits])).mono hvisits
    rcases bind_error h with h | ⟨_, w, -, h⟩
    · exact Fault.isAt_statement _ (checkBounds_fault h)
    cases h

/-- A `GOTO` fails at its word or in its target. -/
theorem executeGoto_fault {target : Expr} (h : executeGoto span target line s = .error fault t) :
    fault.IsAt (Statement.goto span target).visits := by
  rcases bind_error h with h | ⟨_, u, -, h⟩
  · exact Fault.isAt_statement _ (guardPaused_fault h)
  rcases bind_error h with h | ⟨n, v, -, h⟩
  · exact (resolve_fault h).mono (by simp +contextual [Statement.visits])
  cases line <;> cases h

/-- A `GOSUB` fails at its word or in its target. -/
theorem executeGosub_fault {target : Expr} (h : executeGosub span target line s = .error fault t) :
    fault.IsAt (Statement.gosub span target).visits := by
  rcases bind_error h with h | ⟨_, u, -, h⟩
  · exact Fault.isAt_statement _ (guardPaused_fault h)
  rcases bind_error h with h | ⟨n, v, -, h⟩
  · exact (resolve_fault h).mono (by simp +contextual [Statement.visits])
  rw [get_bind] at h
  cases hback : line.bind v.listing.nextAfter? with
  | none =>
    simp only [hback] at h
    cases h
    exact Fault.isAt_statement _ rfl
  | some back =>
    simp only [hback] at h
    cases hpush : v.calls.push back with
    | error cause =>
      simp only [hpush] at h
      cases h
      exact Fault.isAt_statement _ rfl
    | ok calls =>
      simp only [hpush] at h
      cases h

omit [RandomSource γ] in
/-- A `RETURN` fails at its word. -/
theorem executeReturn_fault (h : executeReturn span line s = .error fault t) :
    fault.column = span := by
  rcases bind_error h with h | ⟨_, u, -, h⟩
  · exact guardPaused_fault h
  rw [get_bind] at h
  cases hpop : u.calls.pop <;> simp only [hpop] at h <;> cases h
  rfl

/-- A `RUN` fails at its word or in its values. -/
theorem executeRun_fault {arguments : List Expr}
    (h : executeRun span arguments line s = .error fault t) :
    fault.IsAt (Statement.run span arguments).visits := by
  rcases bind_error h with h | ⟨_, u, -, h⟩
  · exact Fault.isAt_statement _ (guardPaused_fault h)
  cases line with
  | some n => cases h
  | none =>
    dsimp only at h
    rw [get_bind] at h
    cases hfirst : u.listing.first? with
    | none =>
      simp only [hfirst] at h
      cases h
      exact Fault.isAt_statement _ rfl
    | some first =>
      simp only [hfirst] at h
      rcases bind_error h with h | ⟨queue, v, -, h⟩
      · obtain ⟨m, hm⟩ := evaluating_fault h
        refine (evalAll_isOf hm).isAt fun e he => ?_
        obtain ⟨argument, hargument, he⟩ := List.mem_flatMap.1 he
        exact List.mem_append_left _
          (List.mem_flatMap.2 ⟨argument, hargument, List.mem_map_of_mem he⟩)
      · cases h

/-- **Statements that fail.**  A statement fails at one of its parts. -/
theorem execute_fault {statement : Statement} (h : execute line statement s = .error fault t) :
    fault.IsAt statement.visits := by
  induction statement generalizing s with
  | clear | halt | input | remark => cases h
  | goto span target => exact executeGoto_fault h
  | gosub span target => exact executeGosub_fault h
  | ret span => exact Fault.isAt_statement _ (executeReturn_fault h)
  | run span arguments => exact executeRun_fault h
  | assign span target value =>
    rcases bind_error h with h | ⟨n, u, -, h⟩
    · exact (eval_fault h).mono (by simp +contextual [Statement.visits])
    · cases h
  | list span extent =>
    rcases bind_error h with h | ⟨text, u, -, h⟩
    · exact listed_fault h
    · cases h
  | print span items =>
    rcases bind_error h with h | ⟨text, u, -, h⟩
    · obtain ⟨m, hm⟩ := evaluating_fault h
      refine (printed_isOf hm).isAt fun e he => ?_
      obtain ⟨item, hitem, he⟩ := List.mem_flatMap.1 he
      refine List.mem_append_left _ (List.mem_flatMap.2 ⟨item, hitem, ?_⟩)
      cases item with
      | value e' => exact List.mem_map_of_mem he
      | text | comma | semicolon => cases he
    · cases h
  -- The parts of the body are parts of the `IF`, so its faults are carried over as they are.
  | cond span lhs relation rhs body ih =>
    rcases bind_error h with h | ⟨a, u, -, h⟩
    · exact (eval_fault h).mono (by simp +contextual [Statement.visits])
    rcases bind_error h with h | ⟨b, v, -, h⟩
    · exact (eval_fault h).mono (by simp +contextual [Statement.visits])
    split at h
    · exact (ih h).mono (by simp +contextual [Statement.visits])
    · cases h

end Engine

end LineBasic
