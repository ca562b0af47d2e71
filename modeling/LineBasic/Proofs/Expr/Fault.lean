import LineBasic.Machine

namespace LineBasic

/-!
# Failures of evaluation

An expression that has no value says why with one of a few codes, which concern values and never the
lines of a program, and where with the columns of one of its nodes.

* `Code.concernsValues` -- the codes;
* `Fault.IsOf` -- faults with such a code at one of some expressions;
* `eval_isOf`, `evalAll_isOf`, `printed_isOf` -- evaluating and printing fail with no others.
-/

/-- Whether a code says why an expression has no value. -/
def Code.concernsValues : Code → Bool
  | uninitialized | divisionByZero | rndArgument | usrRoutine | usrAddress | usrValue => true
  | _ => false

/-- What a computation that fails after another one fails with. -/
theorem bind_error {ε σ α β : Type} {x : EStateM ε σ α} {k : α → EStateM ε σ β} {s t : σ} {e : ε}
    (h : (x >>= k) s = .error e t) :
    x s = .error e t ∨ ∃ a u, x s = .ok a u ∧ k a u = .error e t := by
  have h : EStateM.bind x k s = .error e t := h
  unfold EStateM.bind at h
  cases hx : x s with
  | ok a u =>
    rw [hx] at h
    exact .inr ⟨a, u, rfl, h⟩
  | error e' u =>
    rw [hx] at h
    cases h
    exact .inl rfl

/-- A computation that succeeds is followed by the next one. -/
theorem bind_of_ok {ε σ α β : Type} {x : EStateM ε σ α} {k : α → EStateM ε σ β} {s t : σ} {a : α}
    (h : x s = .ok a t) : (x >>= k) s = k a t := by
  show EStateM.bind x k s = _
  simp only [EStateM.bind, h]

/-- A computation that fails is followed by nothing. -/
theorem bind_of_error {ε σ α β : Type} {x : EStateM ε σ α} {k : α → EStateM ε σ β} {s t : σ} {e : ε}
    (h : x s = .error e t) : (x >>= k) s = .error e t := by
  show EStateM.bind x k s = _
  simp only [EStateM.bind, h]

/-- Looking at the state is followed by the next computation. -/
theorem get_bind {ε σ β : Type} (k : σ → EStateM ε σ β) (s : σ) : (get >>= k) s = k s s := rfl

/-! ### Faults of expressions -/

/-- A fault that concerns a value, and has the columns of one of some expressions. -/
structure Fault.IsOf (fault : Fault) (es : List Expr) : Prop where
  /-- The fault concerns a value. -/
  code : fault.cause.code.concernsValues
  /-- It has the columns of one of the expressions. -/
  column : ∃ e ∈ es, fault.column = e.span

/-- A fault that is at one of some expressions is at one of more expressions. -/
theorem Fault.IsOf.mono {fault : Fault} {es es' : List Expr} (h : fault.IsOf es)
    (hes : ∀ e ∈ es, e ∈ es') :
    fault.IsOf es' := by
  obtain ⟨hcode, e, he, hcolumn⟩ := h
  exact ⟨hcode, e, hes e he, hcolumn⟩

variable {γ : Type} {m m' : Machine γ} {fault : Fault}

namespace Machine

/-- A variable fails at its own columns, for want of a value. -/
theorem fetch_error {span : Span} {x : Letter} (h : fetch span x m = .error fault m') :
    fault.cause.code.concernsValues ∧ fault.column = span := by
  unfold fetch at h
  split at h <;> cases h
  exact ⟨rfl, rfl⟩

/-- A random value fails at its own columns, for a bad bound. -/
theorem roll_error [RandomSource γ] {span : Span} {bound : Int16}
    (h : roll span bound m = .error fault m') :
    fault.cause.code.concernsValues ∧ fault.column = span := by
  unfold roll at h
  split at h <;> cases h
  next cause hroll =>
    unfold RandomSource.roll at hroll
    split at hroll <;> cases hroll
    exact ⟨rfl, rfl⟩

/-- A machine routine fails at its own columns, for bad arguments. -/
theorem call_error {span : Span} {arguments : List Int16}
    (h : call span arguments m = .error fault m') :
    fault.cause.code.concernsValues ∧ fault.column = span := by
  unfold call at h
  split at h <;> cases h
  next cause hcall =>
    unfold Memory.call at hcall
    grind [Cause.code, Code.concernsValues]

/-- An operation on two values fails at its own columns, for a division by zero. -/
theorem combine_error {span : Span} {op : BinaryOp} {a b : Int16}
    (h : combine span op a b m = .error fault m') :
    fault.cause.code.concernsValues ∧ fault.column = span := by
  unfold combine at h
  cases hop : op.apply? a b with
  | some n =>
    rw [hop] at h
    cases h
  | none =>
    rw [hop] at h
    cases h
    exact ⟨rfl, rfl⟩

end Machine

variable [RandomSource γ]

/-- **Faults of expressions.**  An expression that has no value fails for a reason that concerns
    values, at one of its nodes. -/
theorem Expr.eval_isOf {e : Expr} (h : e.eval m = .error fault m') : fault.IsOf e.nodes := by
  -- What fails at the node of an expression itself fails at the last of its nodes.
  have own : ∀ {e : Expr}, fault.cause.code.concernsValues ∧ fault.column = e.span →
      fault.IsOf e.nodes :=
    fun h => ⟨h.1, _, List.mem_of_getLast? (getLast?_nodes _), h.2⟩
  induction e generalizing m with
  | int => cases h
  | var => exact own (Machine.fetch_error h)
  | rnd _ e ih =>
    rcases bind_error h with h | ⟨n, u, -, h⟩
    · exact (ih h).mono (by simp +contextual [nodes])
    · exact own (Machine.roll_error h)
  | usr _ e ih =>
    rcases bind_error h with h | ⟨n, u, -, h⟩
    · exact (ih h).mono (by simp +contextual [nodes])
    · exact own (Machine.call_error h)
  | usrAt _ e e' ih ih' =>
    rcases bind_error h with h | ⟨n, u, -, h⟩
    · exact (ih h).mono (by simp +contextual [nodes])
    · rcases bind_error h with h | ⟨a, v, -, h⟩
      · exact (ih' h).mono (by simp +contextual [nodes])
      · exact own (Machine.call_error h)
  | usrWith _ e e' e'' ih ih' ih'' =>
    rcases bind_error h with h | ⟨n, u, -, h⟩
    · exact (ih h).mono (by simp +contextual [nodes])
    · rcases bind_error h with h | ⟨a, v, -, h⟩
      · exact (ih' h).mono (by simp +contextual [nodes])
      · rcases bind_error h with h | ⟨b, w, -, h⟩
        · exact (ih'' h).mono (by simp +contextual [nodes])
        · exact own (Machine.call_error h)
  | unary _ op e ih =>
    rcases bind_error h with h | ⟨n, u, -, h⟩
    · exact (ih h).mono (by simp +contextual [nodes])
    · cases h
  | binary _ op e e' ih ih' =>
    rcases bind_error h with h | ⟨n, u, -, h⟩
    · exact (ih h).mono (by simp +contextual [nodes])
    · rcases bind_error h with h | ⟨a, v, -, h⟩
      · exact (ih' h).mono (by simp +contextual [nodes])
      · exact own (Machine.combine_error h)
  | group _ e ih => exact (ih h).mono (by simp +contextual [nodes])

/-- Some expressions fail at a node of one of them. -/
theorem evalAll_isOf {es : List Expr} (h : evalAll es m = .error fault m') :
    fault.IsOf (es.flatMap Expr.nodes) := by
  induction es generalizing m with
  | nil => cases h
  | cons e es ih =>
    rcases bind_error h with h | ⟨n, u, -, h⟩
    · exact (Expr.eval_isOf h).mono (by simp +contextual)
    · rcases bind_error h with h | ⟨ns, v, -, h⟩
      · exact (ih h).mono (by simp +contextual)
      · cases h

/-- The nodes of the values in a `PRINT` statement. -/
def PrintItem.exprs : PrintItem → List Expr
  | value e => e.nodes
  | text .. | comma _ | semicolon _ => []

/-- The parts of a `PRINT` fail at an expression of one of them. -/
theorem printOnto_isOf {text : String} {items : List PrintItem}
    (h : printOnto text items m = .error fault m') :
    fault.IsOf (items.flatMap PrintItem.exprs) := by
  induction items generalizing text m with
  | nil => cases h
  | cons item items ih =>
    cases item with
    | text | comma | semicolon => exact ih h
    | value e =>
      rcases bind_error h with h | ⟨n, u, -, h⟩
      · exact (Expr.eval_isOf h).mono (by simp +contextual [PrintItem.exprs])
      · exact (ih h).mono (by simp +contextual)

/-- A `PRINT` fails at one of its expressions. -/
theorem printed_isOf {items : List PrintItem} (h : printed items m = .error fault m') :
    fault.IsOf (items.flatMap PrintItem.exprs) := by
  rcases bind_error h with h | ⟨text, u, -, h⟩
  · exact printOnto_isOf h
  · cases h

/-! ### Failures of evaluation -/

/-- An expression fails only for reasons that concern values. -/
theorem Expr.eval_error {e : Expr} (h : e.eval m = .error fault m') :
    fault.cause.code.concernsValues :=
  (eval_isOf h).code

/-- Some expressions fail only for reasons that concern values. -/
theorem evalAll_error {es : List Expr} (h : evalAll es m = .error fault m') :
    fault.cause.code.concernsValues :=
  (evalAll_isOf h).code

/-- A `PRINT` fails only for reasons that concern values. -/
theorem printed_error {items : List PrintItem} (h : printed items m = .error fault m') :
    fault.cause.code.concernsValues :=
  (printed_isOf h).code

end LineBasic
