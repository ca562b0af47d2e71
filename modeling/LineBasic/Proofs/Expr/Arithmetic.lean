import LineBasic.Proofs.Engine.Performed
import LineBasic.Proofs.Expr.Eval
import LineBasic.Random.ChaCha

namespace LineBasic

/-!
# Arithmetic

An expression without functions is worth what its operations come to on integers without limits,
each result being wrapped into 16 bits.  It has no value if one of its variables has none, or if one
of its divisors is zero.

* `wrap` -- the integer of 16 bits that an integer comes to;
* `UnaryOp.exact`, `BinaryOp.exact` -- the operations on integers without limits;
* `Expr.value?` -- what an expression is worth;
* `Expr.fault?` -- what is wrong with a node by itself;
* `Expr.unlimited?` -- what sums, differences and products come to without limits;
* `Expr.Agrees`, `Expr.eval_agrees` -- evaluation meets the first of the faults, or finds the value;
* `Expr.value?_of_unlimited?` -- sums, differences and products may be wrapped once and for all at
  the end;
* `Engine.arithmetic_modulo` -- the main result.
-/

/-! ### Wrapping -/

/-- The integer of 16 bits that an integer comes to. -/
def wrap (n : Int) : Int := n.bmod 65536

/-- An integer comes to the one of 16 bits that differs from it by a multiple of 2^16. -/
theorem wrap_eq_iff {n k : Int} : wrap n = k ↔ -32768 ≤ k ∧ k ≤ 32767 ∧ k % 65536 = n % 65536 := by
  unfold wrap
  rw [Int.bmod_def]
  split <;> omega

/-- Making a value of an integer wraps it. -/
theorem toInt_ofInt (n : Int) : (Int16.ofInt n).toInt = wrap n := Int16.toInt_ofInt

/-- A value is an integer of 16 bits. -/
theorem wrap_toInt (n : Int16) : wrap n.toInt = n.toInt := by
  rw [← toInt_ofInt, Int16.ofInt_toInt]

/-! ### Operations -/

/-- An operation on an integer without limits. -/
def UnaryOp.exact : UnaryOp → Int → Int
  | negate, n => -n
  | absolute, n => n.natAbs

/-- An operation on two integers without limits.  A division is one toward zero. -/
def BinaryOp.exact : BinaryOp → Int → Int → Int
  | multiply, a, b => a * b
  | divide, a, b => a.tdiv b
  | add, a, b => a + b
  | subtract, a, b => a - b

/-- The absolute value of the least value is out of range, and comes to that value again. -/
theorem toInt_abs (n : Int16) : n.abs.toInt = wrap n.toInt.natAbs := by
  have habs : n.abs = if n.toInt < 0 then -n else n := by
    have hbits : n.abs.toBitVec = if n.toBitVec.msb then -n.toBitVec else n.toBitVec := rfl
    have hsign : n.toBitVec.msb = decide (n.toInt < 0) := BitVec.msb_eq_toInt
    refine Int16.toBitVec_inj.1 ?_
    rw [hbits, hsign]
    by_cases hneg : n.toInt < 0 <;> simp [hneg]
  rw [habs]
  split
  next hneg =>
    have hnat : (n.toInt.natAbs : Int) = -n.toInt := by omega
    rw [hnat]
    exact Int16.toInt_neg n
  next hneg =>
    have hnat : (n.toInt.natAbs : Int) = n.toInt := by omega
    rw [hnat, wrap_toInt]

/-- A sign is applied exactly, and then the result is wrapped. -/
theorem UnaryOp.toInt_apply (op : UnaryOp) (n : Int16) :
    (op.apply n).toInt = wrap (op.exact n.toInt) := by
  cases op with
  | negate => exact Int16.toInt_neg n
  | absolute => exact toInt_abs n

/-- What an operation on two values comes to.  Only a division by zero comes to nothing. -/
theorem BinaryOp.apply?_eq (op : BinaryOp) (a b : Int16) : op.apply? a b =
    if op = .divide ∧ b.toInt = 0 then none else some (.ofInt (op.exact a.toInt b.toInt)) := by
  have hzero : b.toInt = 0 ↔ b = 0 := Int16.toInt_inj (y := 0)
  unfold BinaryOp.apply? exact
  cases op with
  | multiply => simp [Int16.ofInt_mul]
  | add => simp [Int16.ofInt_add]
  | subtract => simp [Int16.ofInt_sub]
  | divide =>
    have hdivide : a / b = .ofInt (a.toInt.tdiv b.toInt) :=
      Int16.toInt_inj.1 ((Int16.toInt_div a b).trans (toInt_ofInt _).symm)
    simp [hzero, hdivide]

namespace Expr

/-! ### Values and faults -/

/-- What an expression is worth: each operation is carried out on integers without limits, and its
    result wrapped. -/
def value? (v : Variables) : Expr → Option Int
  | int _ n => some n.toInt
  | var _ x => (v.get? x).map Int16.toInt
  | unary _ op e => (e.value? v).map fun n => wrap (op.exact n)
  | binary _ op l r =>
    match l.value? v, r.value? v with
    | some a, some b => if op = .divide ∧ b = 0 then none else some (wrap (op.exact a b))
    | _, _ => none
  | group _ e => e.value? v
  | rnd .. | usr .. | usrAt .. | usrWith .. => none

/-- What is wrong with a node by itself: a variable has no value, or the value of a divisor is
    zero. -/
def fault? (v : Variables) : Expr → Option Fault
  | var s x => if v.get? x = none then some ⟨.uninitialized x, s⟩ else none
  | binary s .divide _ r => if r.value? v = some 0 then some ⟨.divisionByZero, s⟩ else none
  | _ => none

/-- The first of the faults of an expression, its nodes being taken from left to right, each after
    those inside it. -/
def firstFault? (v : Variables) (e : Expr) : Option Fault := e.nodes.findSome? (fault? v)

/-- What an expression of numbers, variables, signs, sums, differences and products comes to on
    integers without limits. -/
def unlimited? (v : Variables) : Expr → Option Int
  | int _ n => some n.toInt
  | var _ x => (v.get? x).map Int16.toInt
  | unary _ .negate e => (e.unlimited? v).map (- ·)
  | binary _ op l r =>
    match l.unlimited? v, r.unlimited? v with
    | some a, some b => if op = .divide then none else some (op.exact a b)
    | _, _ => none
  | group _ e => e.unlimited? v
  | _ => none

/-! ### Evaluation -/

variable {v : Variables} {e k : Expr}

/-- The nodes of a node are nodes. -/
theorem nodes_subset (h : k ∈ e.nodes) : ∀ j ∈ k.nodes, j ∈ e.nodes := by
  induction e with
  | int | var =>
    obtain rfl := List.mem_singleton.1 h
    exact fun _ hj => hj
  | rnd _ e ih | usr _ e ih | unary _ _ e ih | group _ e ih =>
    rcases List.mem_append.1 h with h | h
    · exact fun j hj => List.mem_append_left _ (ih h j hj)
    · obtain rfl := List.mem_singleton.1 h
      exact fun _ hj => hj
  | usrAt _ e e' ih ih' | binary _ _ e e' ih ih' =>
    simp only [nodes, List.mem_append, List.mem_singleton] at h ⊢
    grind [nodes]
  | usrWith _ e e' e'' ih ih' ih'' =>
    simp only [nodes, List.mem_append, List.mem_singleton] at h ⊢
    grind [nodes]

/-- What is inside an expression without functions has none either. -/
theorem callsFunction_of_mem_nodes (he : e.callsFunction = false) (h : k ∈ e.nodes) :
    k.callsFunction = false := by
  refine Bool.eq_false_iff.2 fun hk => Bool.eq_false_iff.1 he ?_
  obtain ⟨j, hj, hcall⟩ := callsFunction_iff.1 hk
  exact callsFunction_iff.2 ⟨j, nodes_subset h j hj, hcall⟩

/-- The fault under a sign is the fault of its operand. -/
theorem firstFault?_unary {s : Span} {op : UnaryOp} :
    (unary s op e).firstFault? v = e.firstFault? v := by
  simp [firstFault?, nodes, fault?]

/-- The fault in parentheses is the fault of what is between them. -/
theorem firstFault?_group {s : Span} : (group s e).firstFault? v = e.firstFault? v := by
  simp [firstFault?, nodes, fault?]

/-- The operands of an operation come before the operation. -/
theorem firstFault?_binary {s : Span} {op : BinaryOp} {l r : Expr} :
    (binary s op l r).firstFault? v =
    ((l.firstFault? v).or (r.firstFault? v)).or ((binary s op l r).fault? v) := by
  simp [firstFault?, nodes, Option.or_assoc]

/-- Where no fault is first there is none. -/
theorem firstFault?_eq_none : e.firstFault? v = none ↔ ∀ k ∈ e.nodes, k.fault? v = none :=
  List.findSome?_eq_none_iff

/-- An operation on two values fails itself only if it divides by zero. -/
theorem fault?_binary {s : Span} {op : BinaryOp} {l r : Expr} {b : Int} (hr : r.value? v = some b) :
    (binary s op l r).fault? v = if op = .divide ∧ b = 0 then some ⟨.divisionByZero, s⟩
      else none := by
  cases op <;> simp [fault?, hr]

variable {γ : Type} {m : Machine γ}

/-- A result that is the first of the faults, or else the value, and leaves the machine as it is. -/
def Agrees (m : Machine γ) (e : Expr) : EStateM.Result Fault (Machine γ) Int16 → Prop
  | .ok n m' => m' = m ∧ e.firstFault? m.vars = none ∧ e.value? m.vars = some n.toInt
  | .error fault m' => m' = m ∧ e.firstFault? m.vars = some fault ∧ e.value? m.vars = none

/-- A variable has the value that it has been given, or the fault that it has none. -/
theorem agrees_fetch (s : Span) (x : Letter) : Agrees m (var s x) (Machine.fetch s x m) := by
  unfold Machine.fetch
  split
  next n hn => exact ⟨rfl, by simp [firstFault?, nodes, fault?, hn], by simp [value?, hn]⟩
  next hnone => exact ⟨rfl, by simp [firstFault?, nodes, fault?, hnone], by simp [value?, hnone]⟩

/-- An operation whose operands have values. -/
theorem agrees_combine {s : Span} {op : BinaryOp} {l r : Expr} {a b : Int16}
    (hl : Agrees m l (.ok a m)) (hr : Agrees m r (.ok b m)) :
    Agrees m (binary s op l r) (Machine.combine s op a b m) := by
  obtain ⟨-, hlfault, hlvalue⟩ := hl
  obtain ⟨-, hrfault, hrvalue⟩ := hr
  unfold Machine.combine
  rw [BinaryOp.apply?_eq]
  by_cases hzero : op = .divide ∧ b.toInt = 0
  · rw [if_pos hzero]
    exact ⟨rfl, by simp [firstFault?_binary, hlfault, hrfault, fault?_binary hrvalue, hzero],
      by simp [value?, hlvalue, hrvalue, hzero]⟩
  · rw [if_neg hzero]
    refine ⟨rfl, ?_, ?_⟩
    · rw [firstFault?_binary, hlfault, hrfault, fault?_binary hrvalue, if_neg hzero]
      rfl
    · simp only [value?, hlvalue, hrvalue, if_neg hzero, toInt_ofInt]

/-- **Evaluation.**  Evaluating an expression without functions meets the first of its faults, or
    finds its value. -/
theorem eval_agrees [RandomSource γ] (he : e.callsFunction = false) (m : Machine γ) :
    Agrees m e (e.eval m) := by
  induction e with
  | int _ n => exact ⟨rfl, rfl, rfl⟩
  | var s x => exact agrees_fetch s x
  | rnd | usr | usrAt | usrWith => simp [callsFunction] at he
  | unary s op e ih =>
    have ih := ih he
    cases hresult : e.eval m with
    | ok n m' =>
      rw [hresult] at ih
      obtain ⟨rfl, hfault, hvalue⟩ := ih
      rw [eval, bind_of_ok hresult]
      refine ⟨rfl, firstFault?_unary.trans hfault, ?_⟩
      rw [value?, hvalue, Option.map_some, UnaryOp.toInt_apply]
    | error fault m' =>
      rw [hresult] at ih
      obtain ⟨rfl, hfault, hvalue⟩ := ih
      rw [eval, bind_of_error hresult]
      exact ⟨rfl, firstFault?_unary.trans hfault, by rw [value?, hvalue, Option.map_none]⟩
  | binary s op l r ihl ihr =>
    simp only [callsFunction, Bool.or_eq_false_iff] at he
    have ihl := ihl he.1
    have ihr := ihr he.2
    -- The left operand is evaluated first, and what is wrong with it comes before anything else.
    cases hleft : l.eval m with
    | error fault m' =>
      rw [hleft] at ihl
      obtain ⟨rfl, hfault, hvalue⟩ := ihl
      rw [eval, bind_of_error hleft]
      exact ⟨rfl, by simp [firstFault?_binary, hfault], by simp [value?, hvalue]⟩
    | ok a m' =>
      rw [hleft] at ihl
      obtain rfl := ihl.1
      cases hright : r.eval m' with
      | error fault m' =>
        rw [hright] at ihr
        obtain ⟨rfl, hfault, hvalue⟩ := ihr
        rw [eval, bind_of_ok hleft, bind_of_error hright]
        exact ⟨rfl, by simp [firstFault?_binary, ihl.2.1, hfault], by simp [value?, hvalue]⟩
      | ok b m' =>
        rw [hright] at ihr
        obtain rfl := ihr.1
        rw [eval, bind_of_ok hleft, bind_of_ok hright]
        exact agrees_combine ihl ihr
  | group s e ih =>
    have ih := ih he
    rw [eval]
    cases hresult : e.eval m with
    | ok n m' =>
      rw [hresult] at ih
      exact ⟨ih.1, firstFault?_group.trans ih.2.1, ih.2.2⟩
    | error fault m' =>
      rw [hresult] at ih
      exact ⟨ih.1, firstFault?_group.trans ih.2.1, ih.2.2⟩

/-- An expression has a value exactly if nothing is wrong with its nodes. -/
theorem eval_eq_ok_iff [RandomSource γ] (he : e.callsFunction = false) {m m' : Machine γ}
    {n : Int16} :
    e.eval m = .ok n m' ↔ m' = m ∧ e.value? m.vars = some n.toInt := by
  have hagrees := eval_agrees he m
  cases hresult : e.eval m with
  | ok i m'' =>
    rw [hresult] at hagrees
    obtain ⟨rfl, -, hvalue⟩ := hagrees
    simp [hvalue, Int16.toInt_inj, eq_comm, and_comm]
  | error fault m'' =>
    rw [hresult] at hagrees
    simp [hagrees.2.2]

/-- Evaluating fails exactly with the first of the faults, and leaves the machine alone. -/
theorem eval_eq_error_iff [RandomSource γ] (he : e.callsFunction = false) {m m' : Machine γ}
    {fault : Fault} :
    e.eval m = .error fault m' ↔ m' = m ∧ e.firstFault? m.vars = some fault := by
  have hagrees := eval_agrees he m
  cases hresult : e.eval m with
  | ok n m'' =>
    rw [hresult] at hagrees
    simp [hagrees.2.1]
  | error fault' m'' =>
    rw [hresult] at hagrees
    obtain ⟨rfl, hfault, -⟩ := hagrees
    simp [hfault, eq_comm, and_comm]

/-- Where an expression without functions has a value, so has each of its nodes. -/
theorem node_eval [RandomSource γ] (he : e.callsFunction = false) {n : Int}
    (hn : e.value? m.vars = some n) (hk : k ∈ e.nodes) :
    ∃ i, k.eval m = .ok i m ∧ k.value? m.vars = some i.toInt := by
  have hnone : e.firstFault? m.vars = none := by
    have hagrees := eval_agrees he m
    cases hresult : e.eval m with
    | ok i m' =>
      rw [hresult] at hagrees
      exact hagrees.2.1
    | error fault m' =>
      rw [hresult] at hagrees
      exact absurd (hn.symm.trans hagrees.2.2) (Option.some_ne_none n)
  have hagrees := eval_agrees (callsFunction_of_mem_nodes he hk) m
  cases hresult : k.eval m with
  | ok i m' =>
    rw [hresult] at hagrees
    obtain ⟨rfl, -, hvalue⟩ := hagrees
    exact ⟨i, rfl, hvalue⟩
  | error fault m' =>
    -- The first fault of a node is that of a node inside it, which is one of all nodes.
    rw [hresult] at hagrees
    obtain ⟨j, hj, hfault⟩ := List.exists_of_findSome?_eq_some hagrees.2.1
    have hnone := firstFault?_eq_none.1 hnone j (nodes_subset hk j hj)
    exact absurd (hfault.symm.trans hnone) (Option.some_ne_none fault)

end Expr

/-! ### Sums, differences and products -/

/-- The change of a sign is the same before and after wrapping. -/
theorem wrap_neg_wrap (n : Int) : wrap (-wrap n) = wrap (-n) := Int.bmod_neg_bmod

/-- So are sums, differences and products. -/
theorem BinaryOp.wrap_exact_wrap {op : BinaryOp} (hop : op ≠ .divide) (a b : Int) :
    wrap (op.exact (wrap a) (wrap b)) = wrap (op.exact a b) := by
  unfold wrap
  cases op with
  | multiply => simp [exact]
  | divide => exact absurd rfl hop
  | add => simp [exact]
  | subtract => simp [exact]

/-- **Wrapping once.**  What sums, differences and products come to without limits need only be
    wrapped at the end. -/
theorem Expr.value?_of_unlimited? {v : Variables} {e : Expr} {n : Int}
    (h : e.unlimited? v = some n) :
    e.value? v = some (wrap n) := by
  induction e generalizing n with
  | int _ k =>
    cases h
    rw [value?, wrap_toInt]
  | var _ x =>
    obtain ⟨k, hk, rfl⟩ := Option.map_eq_some_iff.1 h
    rw [value?, hk, Option.map_some, wrap_toInt]
  | rnd | usr | usrAt | usrWith => cases h
  | unary _ op e ih =>
    cases op with
    | absolute => cases h
    | negate =>
      obtain ⟨k, hk, rfl⟩ := Option.map_eq_some_iff.1 h
      rw [value?, ih hk, Option.map_some]
      exact congrArg some (wrap_neg_wrap k)
  -- Wrapping the operands first makes no difference to a sum, a difference or a product.
  | binary _ op l r ihl ihr =>
    unfold unlimited? at h
    split at h
    next a b ha hb =>
      split at h
      next => cases h
      next hop =>
        cases h
        simp only [value?, ihl ha, ihr hb, hop, false_and, if_false, BinaryOp.wrap_exact_wrap hop]
    next => cases h
  | group _ e ih => exact ih h

namespace Engine

variable {γ : Type} [RandomSource γ]

/-- **Main result.**  Evaluating an expression without functions leaves the engine as it was.  It
    fails with the first of the faults of the nodes, if there is one.  Otherwise the value is the
    one by exact arithmetic, each operation being wrapped, and so is that of each node; in sums,
    differences and products it is enough to wrap the result. -/
theorem arithmetic_modulo {e : Expr} (he : e.callsFunction = false) (s : Engine γ) :
    (∀ fault t, evaluating e.eval s = .error fault t ↔ t = s ∧
      e.firstFault? s.machine.vars = some fault) ∧
      ((∃ fault t, evaluating e.eval s = .error fault t) ↔
        ∃ k ∈ e.nodes, (k.fault? s.machine.vars).isSome) ∧
      (∀ n t, evaluating e.eval s = .ok n t ↔ t = s ∧ e.value? s.machine.vars = some n.toInt) ∧
      (∀ n, e.value? s.machine.vars = some n →
        ∀ k ∈ e.nodes, ∃ i, k.value? s.machine.vars = some i ∧
        -32768 ≤ i ∧ i ≤ 32767 ∧ evaluating k.eval s = .ok (.ofInt i) s) ∧
      wrap (BinaryOp.divide.exact (-32768) (-1)) = -32768 ∧
      wrap (UnaryOp.absolute.exact (-32768)) = -32768 ∧ ∀ n, e.unlimited? s.machine.vars = some n →
        evaluating e.eval s = .ok (.ofInt n) s ∧ (Int16.ofInt n).toInt = wrap n := by
  have herror : ∀ fault t, evaluating e.eval s = .error fault t ↔
      t = s ∧ e.firstFault? s.machine.vars = some fault := by
    intro fault t
    simp only [evaluating_eq_error_iff, Expr.eval_eq_error_iff he]
    constructor
    · rintro ⟨m, ⟨rfl, hfault⟩, rfl⟩
      exact ⟨rfl, hfault⟩
    · rintro ⟨rfl, hfault⟩
      exact ⟨_, ⟨rfl, hfault⟩, rfl⟩
  have hok : ∀ n t, evaluating e.eval s = .ok n t ↔ t = s ∧
      e.value? s.machine.vars = some n.toInt := by
    intro n t
    simp only [evaluating_eq_ok_iff, Expr.eval_eq_ok_iff he]
    constructor
    · rintro ⟨m, ⟨rfl, hvalue⟩, rfl⟩
      exact ⟨rfl, hvalue⟩
    · rintro ⟨rfl, hvalue⟩
      exact ⟨_, ⟨rfl, hvalue⟩, rfl⟩
  refine ⟨herror, ?_, hok, fun n hn k hk => ?_, wrap_eq_iff.2 (by decide),
    wrap_eq_iff.2 (by decide), fun n hn => ⟨?_, toInt_ofInt n⟩⟩
  · simp only [herror]
    constructor
    · rintro ⟨fault, -, -, hfault⟩
      obtain ⟨k, hk, hfault⟩ := List.exists_of_findSome?_eq_some hfault
      exact ⟨k, hk, Option.isSome_of_eq_some hfault⟩
    · intro hfaulty
      obtain ⟨fault, hfault⟩ := Option.isSome_iff_exists.1 (List.findSome?_isSome_iff.2 hfaulty)
      exact ⟨fault, s, rfl, hfault⟩
  · obtain ⟨i, heval, hvalue⟩ := Expr.node_eval he hn hk
    refine ⟨i.toInt, hvalue, i.le_toInt, Int.le_of_lt_add_one i.toInt_lt, ?_⟩
    rw [Int16.ofInt_toInt]
    exact evaluating_eq_ok_iff.2 ⟨_, heval, rfl⟩
  · rw [hok]
    exact ⟨rfl, by rw [Expr.value?_of_unlimited? hn, toInt_ofInt]⟩

/-- An engine on which the value of `A` is the least one, and `B` has none. -/
def atLeast : Engine ChaCha := (start (ChaCha.ofSeed 1)).assign default (-32768)

/-- The least value divided by -1 is that value; where a variable has no value and a divisor is
    zero, the first of the two faults counts. -/
theorem arithmetic_modulo_atLeast :
    let difference : Expr := .binary ⟨4, 5⟩ .subtract (.var ⟨3, 4⟩ ⟨0⟩) (.var ⟨5, 6⟩ ⟨0⟩)
    let quotient : Expr :=
      .binary ⟨1, 2⟩ .divide (.var ⟨0, 1⟩ ⟨0⟩) (.unary ⟨2, 3⟩ .negate (.int ⟨3, 4⟩ 1))
    let unknown : Expr := .binary ⟨1, 2⟩ .divide (.var ⟨0, 1⟩ ⟨1⟩) (.group ⟨2, 3⟩ difference)
    let infinite : Expr :=
      .binary ⟨7, 8⟩ .add (.binary ⟨1, 2⟩ .divide (.int ⟨0, 1⟩ 1) (.group ⟨2, 3⟩ difference))
        (.var ⟨8, 9⟩ ⟨1⟩)
    quotient.callsFunction = false ∧ unknown.callsFunction = false ∧
      infinite.callsFunction = false ∧
      evaluating quotient.eval atLeast = .ok (-32768) atLeast ∧
      evaluating unknown.eval atLeast = .error ⟨.uninitialized ⟨1⟩, ⟨0, 1⟩⟩ atLeast ∧
      evaluating infinite.eval atLeast = .error ⟨.divisionByZero, ⟨1, 2⟩⟩ atLeast := by
  intro difference quotient unknown infinite
  have hquotient := (arithmetic_modulo (e := quotient) rfl atLeast).2.2.1
  have hunknown := (arithmetic_modulo (e := unknown) rfl atLeast).1
  have hinfinite := (arithmetic_modulo (e := infinite) rfl atLeast).1
  exact ⟨rfl, rfl, rfl, (hquotient _ _).2 ⟨rfl, by decide⟩, (hunknown _ _).2 ⟨rfl, by decide⟩,
    (hinfinite _ _).2 ⟨rfl, by decide⟩⟩

end Engine

end LineBasic
