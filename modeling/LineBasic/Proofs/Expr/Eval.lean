import LineBasic.Machine

namespace LineBasic.Expr

/-!
# Expressions without functions

An expression that calls neither `RND` nor `USR` reads variables and changes nothing.

* `Calls`, `callsFunction_iff` -- whether there is a call anywhere in an expression;
* `eval_of_not_callsFunction` -- evaluating one leaves the machine as it was, whether it has a value
  or not.
-/

/-- Whether an expression is a call of `RND` or `USR`. -/
def IsCall : Expr → Prop
  | rnd .. | usr .. | usrAt .. | usrWith .. => True
  | int .. | var .. | unary .. | binary .. | group .. => False

/-- Whether an expression is a call, or has one inside it. -/
def Calls (e : Expr) : Prop := ∃ f ∈ e.nodes, f.IsCall

/-- The test for functions finds a call wherever it is in an expression. -/
theorem callsFunction_iff {e : Expr} : e.callsFunction ↔ e.Calls := by
  unfold Calls
  induction e with
  | int | var => simp [callsFunction, nodes, IsCall]
  | rnd | usr | usrAt | usrWith =>
    exact iff_of_true rfl ⟨_, List.mem_of_getLast? (getLast?_nodes _), trivial⟩
  | unary _ _ e ih | group _ e ih => simp [callsFunction, nodes, IsCall, ih]
  | binary _ _ l r ihl ihr => simp [callsFunction, nodes, IsCall, ihl, ihr, or_and_right, exists_or]

variable {γ : Type} [RandomSource γ]

/-- A result that leaves the machine alone. -/
def Keeps {α : Type} (m : Machine γ) (r : EStateM.Result Fault (Machine γ) α) : Prop :=
  (∃ a, r = .ok a m) ∨ ∃ fault, r = .error fault m

omit [RandomSource γ] in
/-- Computations that leave the machine alone, one after the other. -/
theorem keeps_bind {α β : Type} {m : Machine γ} {x : Evaluation γ α} {k : α → Evaluation γ β}
    (hx : Keeps m (x m)) (hk : ∀ a, Keeps m (k a m)) : Keeps m ((x >>= k) m) := by
  show Keeps m (EStateM.bind x k m)
  rcases hx with ⟨a, ha⟩ | ⟨fault, hf⟩
  · simpa only [EStateM.bind, ha] using hk a
  · exact .inr ⟨fault, by simp only [EStateM.bind, hf]⟩

omit [RandomSource γ] in
/-- Looking up a variable leaves the machine alone. -/
theorem keeps_fetch (span : Span) (x : Letter) (m : Machine γ) :
    Keeps m (Machine.fetch span x m) := by
  unfold Machine.fetch
  split
  next n _ => exact .inl ⟨n, rfl⟩
  next => exact .inr ⟨_, rfl⟩

omit [RandomSource γ] in
/-- An operation on two values leaves the machine alone. -/
theorem keeps_combine (span : Span) (op : BinaryOp) (a b : Int16) (m : Machine γ) :
    Keeps m (Machine.combine span op a b m) := by
  unfold Machine.combine
  cases op.apply? a b with
  | some n => exact .inl ⟨n, rfl⟩
  | none => exact .inr ⟨_, rfl⟩

/-- **Expressions without functions change nothing.**  Evaluating one leaves the machine as it
    was. -/
theorem eval_of_not_callsFunction {e : Expr} (he : e.callsFunction = false) (m : Machine γ) :
    Keeps m (e.eval m) := by
  induction e with
  | int _ n => exact .inl ⟨n, rfl⟩
  | var span x => exact keeps_fetch span x m
  | rnd | usr | usrAt | usrWith => simp [callsFunction] at he
  | unary _ op arg ih => exact keeps_bind (ih he) fun n => .inl ⟨op.apply n, rfl⟩
  | binary span op lhs rhs ihl ihr =>
    simp only [callsFunction, Bool.or_eq_false_iff] at he
    exact keeps_bind (ihl he.1) fun a => keeps_bind (ihr he.2) fun b => keeps_combine span op a b m
  | group _ inner ih => exact ih he

end LineBasic.Expr
