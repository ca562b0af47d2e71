import LineBasic.Machine

namespace LineBasic

/-!
# Reading variables

Expressions read variables and never give them values.  Evaluating one fails for want of a value
only if a variable that it reads has none.

* `Expr.Reads` -- the variables that occur in an expression;
* `Inspects` -- results that say nothing worse of the variables than that one of some has no value;
* `Expr.eval_inspects`, `evalAll_inspects`, `printed_inspects` -- what evaluating and printing come
  to.
-/

/-- Whether a variable occurs in an expression. -/
def Expr.Reads (e : Expr) (x : Letter) : Prop := ∃ span, Expr.var span x ∈ e.nodes

namespace Expr

variable {span : Span} {x y : Letter} {e e' e'' : Expr}

@[simp] theorem reads_var : (var span y).Reads x ↔ y = x := by
  simp [Reads, nodes, eq_comm]

@[simp] theorem reads_rnd : (rnd span e).Reads x ↔ e.Reads x := by
  simp [Reads, nodes]

@[simp] theorem reads_usr : (usr span e).Reads x ↔ e.Reads x := by
  simp [Reads, nodes]

@[simp] theorem reads_usrAt : (usrAt span e e').Reads x ↔ e.Reads x ∨ e'.Reads x := by
  simp [Reads, nodes, exists_or]

@[simp] theorem reads_usrWith :
    (usrWith span e e' e'').Reads x ↔ e.Reads x ∨ e'.Reads x ∨ e''.Reads x := by
  simp [Reads, nodes, exists_or]

@[simp] theorem reads_unary {op : UnaryOp} : (unary span op e).Reads x ↔ e.Reads x := by
  simp [Reads, nodes]

@[simp] theorem reads_binary {op : BinaryOp} :
    (binary span op e e').Reads x ↔ e.Reads x ∨ e'.Reads x := by
  simp [Reads, nodes, exists_or]

@[simp] theorem reads_group : (group span e).Reads x ↔ e.Reads x := by
  simp [Reads, nodes]

end Expr

/-! ### Results -/

variable {γ α β : Type} {R : Letter → Prop} {m : Machine γ}

/-- A result that leaves the variables alone, and is a failure for want of a value only if one of
    some variables has none. -/
def Inspects (R : Letter → Prop) (m : Machine γ) : EStateM.Result Fault (Machine γ) α → Prop
  | .ok _ m' => m'.vars = m.vars
  | .error fault m' =>
    m'.vars = m.vars ∧ (fault.cause.code = .uninitialized → ∃ x, R x ∧ m.vars.get? x = none)

/-- What is computed after a result sees the same variables. -/
theorem inspects_bind {x : Evaluation γ α} {k : α → Evaluation γ β} (hx : Inspects R m (x m))
    (hk : ∀ a m', m'.vars = m.vars → Inspects R m' (k a m')) : Inspects R m ((x >>= k) m) := by
  show Inspects R m (EStateM.bind x k m)
  unfold EStateM.bind
  cases hresult : x m with
  | error fault m' =>
    rw [hresult] at hx
    exact hx
  | ok a m' =>
    rw [hresult] at hx
    have hvars : m'.vars = m.vars := hx
    have hrest := hk a m' hvars
    dsimp only
    cases hlast : k a m' with
    | ok b m'' =>
      rw [hlast] at hrest
      exact Eq.trans hrest hvars
    | error fault m'' =>
      rw [hlast] at hrest
      exact ⟨hrest.1.trans hvars, fun hcode => hvars ▸ hrest.2 hcode⟩

/-- A mere value wants no variable. -/
theorem inspects_pure (a : α) : Inspects R m ((pure a : Evaluation γ α) m) := rfl

/-- A failure with another cause. -/
theorem inspects_error {fault : Fault} {m' : Machine γ} (hvars : m'.vars = m.vars)
    (hcode : fault.cause.code ≠ .uninitialized) :
    Inspects R m (.error fault m' : EStateM.Result Fault (Machine γ) α) :=
  ⟨hvars, fun h => absurd h hcode⟩

/-- Looking up a variable wants a value of that variable only. -/
theorem inspects_fetch (span : Span) {x : Letter} (hx : R x) :
    Inspects R m (Machine.fetch span x m) := by
  unfold Machine.fetch
  split
  next => rfl
  next hnone => exact ⟨rfl, fun _ => ⟨x, hx, hnone⟩⟩

/-- A machine routine wants no variable. -/
theorem inspects_call (span : Span) (arguments : List Int16) :
    Inspects R m (Machine.call span arguments m) := by
  unfold Machine.call
  split
  next => rfl
  next cause hcall =>
    refine inspects_error rfl ?_
    -- The routines have causes of their own.
    unfold Memory.call at hcall
    grind [Cause.code]

/-- An operation on two values wants no variable. -/
theorem inspects_combine (span : Span) (op : BinaryOp) (a b : Int16) :
    Inspects R m (Machine.combine span op a b m) := by
  unfold Machine.combine
  cases op.apply? a b with
  | some n => exact inspects_pure n
  | none => exact inspects_error rfl Code.noConfusion

variable [RandomSource γ]

/-- A random value wants no variable. -/
theorem inspects_roll (span : Span) (bound : Int16) : Inspects R m (Machine.roll span bound m) := by
  unfold Machine.roll
  split
  next => rfl
  next cause hroll =>
    refine inspects_error rfl ?_
    unfold RandomSource.roll at hroll
    split at hroll <;> cases hroll
    exact Code.noConfusion

/-! ### Evaluating and printing -/

/-- **Evaluation.**  An expression leaves the variables alone, and wants values of its own variables
    only. -/
theorem Expr.eval_inspects {e : Expr} (hR : ∀ x, e.Reads x → R x) (m : Machine γ) :
    Inspects R m (e.eval m) := by
  induction e generalizing m with
  | int _ n => exact inspects_pure n
  | var span x => exact inspects_fetch span (hR x (by simp))
  | rnd span e ih =>
    exact inspects_bind (ih (fun x hx => hR x (by simp [hx])) m) fun n m' _ => inspects_roll span n
  | usr span e ih =>
    exact inspects_bind (ih (fun x hx => hR x (by simp [hx])) m) fun n m' _ => inspects_call span _
  | usrAt span e e' ih ih' =>
    refine inspects_bind (ih (fun x hx => hR x (by simp [hx])) m) fun n m₁ _ => ?_
    exact inspects_bind (ih' (fun x hx => hR x (by simp [hx])) m₁) fun a m₂ _ =>
      inspects_call span _
  | usrWith span e e' e'' ih ih' ih'' =>
    refine inspects_bind (ih (fun x hx => hR x (by simp [hx])) m) fun n m₁ _ => ?_
    refine inspects_bind (ih' (fun x hx => hR x (by simp [hx])) m₁) fun a m₂ _ => ?_
    exact inspects_bind (ih'' (fun x hx => hR x (by simp [hx])) m₂) fun v m₃ _ =>
      inspects_call span _
  | unary _ op e ih =>
    exact inspects_bind (ih (fun x hx => hR x (by simp [hx])) m) fun n m' _ => inspects_pure _
  | binary span op e e' ih ih' =>
    refine inspects_bind (ih (fun x hx => hR x (by simp [hx])) m) fun a m₁ _ => ?_
    exact inspects_bind (ih' (fun x hx => hR x (by simp [hx])) m₁) fun b m₂ _ =>
      inspects_combine span op a b
  | group _ e ih => exact ih (fun x hx => hR x (by simp [hx])) m

/-- Some expressions want values of their own variables only. -/
theorem evalAll_inspects {es : List Expr} (hR : ∀ e ∈ es, ∀ x, e.Reads x → R x) (m : Machine γ) :
    Inspects R m (evalAll es m) := by
  induction es generalizing m with
  | nil => exact inspects_pure _
  | cons e es ih =>
    refine inspects_bind (e.eval_inspects (hR e (by simp)) m) fun n m₁ _ => ?_
    exact inspects_bind (ih (fun e' he' => hR e' (by simp [he'])) m₁) fun ns m₂ _ => inspects_pure _

/-- The parts of a `PRINT` want values of their own variables only. -/
theorem printOnto_inspects {items : List PrintItem}
    (hR : ∀ e, PrintItem.value e ∈ items → ∀ x, e.Reads x → R x) (text : String) (m : Machine γ) :
    Inspects R m (printOnto text items m) := by
  induction items generalizing text m with
  | nil => exact inspects_pure _
  | cons item items ih =>
    have ih := ih fun e he => hR e (List.mem_cons_of_mem _ he)
    cases item with
    | text => exact ih _ m
    | value e =>
      exact inspects_bind (e.eval_inspects (hR e (by simp)) m) fun n m' _ => ih _ m'
    | comma => exact ih _ m
    | semicolon => exact ih _ m

/-- A `PRINT` wants values of its own variables only. -/
theorem printed_inspects {items : List PrintItem}
    (hR : ∀ e, PrintItem.value e ∈ items → ∀ x, e.Reads x → R x) (m : Machine γ) :
    Inspects R m (printed items m) :=
  inspects_bind (printOnto_inspects hR "" m) fun _ _ _ => inspects_pure _

/-- A number has its value on any machine. -/
theorem Expr.eval_of_literal {e : Expr} {span : Span} {n : Int16} (h : e.literal? = some (span, n))
    (m : Machine γ) : e.eval m = .ok n m := by
  induction e with
  | int s k =>
    cases h
    rfl
  | group _ e ih => exact ih h
  | _ => cases h

end LineBasic
