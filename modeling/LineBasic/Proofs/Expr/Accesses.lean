import LineBasic.Proofs.Expr.Fault
import LineBasic.Proofs.Memory

namespace LineBasic

/-!
# Accesses of expressions

Evaluating an expression calls a routine for each `USR` in it that is come to, from left to right,
and does nothing else with the memory.

* `Uses` -- what a computation does with the memory of its state;
* `uses_bind` -- computations one after the other do what they do one after the other;
* `Expr.accesses`, `accessesAll` -- the accesses of expressions in the order of their evaluation, up
  to a failure;
* `Expr.uses`, `evalAll_uses` -- evaluating expressions does just that with the memory;
* `Expr.call?`, `Expr.eval_called` -- a `USR` calls its routine once its arguments have values, and
  has the result of the call.
-/

section Uses

variable {ε σ α β : Type} {mem : σ → Memory} {x : EStateM ε σ α} {k : α → EStateM ε σ β} {s : σ}
  {as : List MemoryAccess} {bs : α → σ → List MemoryAccess}

/-- The state that a computation leaves, whether it succeeds or fails. -/
def left : EStateM.Result ε σ α → σ
  | .ok _ s | .error _ s => s

/-- What is done after a computation that succeeds; nothing is done after one that fails. -/
def afterwards (r : EStateM.Result ε σ α) (bs : α → σ → List MemoryAccess) : List MemoryAccess :=
  match r with
  | .ok a s => bs a s
  | .error .. => []

/-- Whether a computation does some accesses one after the other with the memory of its state, and
    nothing else. -/
def Uses (mem : σ → Memory) (x : EStateM ε σ α) (s : σ) (as : List MemoryAccess) : Prop :=
  (mem s).Serves as (mem (left (x s)))

/-- A computation that leaves the memory as it is needs no accesses. -/
theorem uses_of_same (h : mem (left (x s)) = mem s) : Uses mem x s [] := by
  rw [Uses, h]
  exact .nil

/-- Computations do their accesses one after the other. -/
theorem uses_bind (hx : Uses mem x s as) (hk : ∀ a t, Uses mem (k a) t (bs a t)) :
    Uses mem (x >>= k) s (as ++ afterwards (x s) bs) := by
  unfold Uses at *
  cases hresult : x s with
  | error e t =>
    rw [bind_of_error hresult, afterwards, List.append_nil]
    rwa [hresult] at hx
  | ok a t =>
    rw [bind_of_ok hresult]
    rw [hresult] at hx
    exact hx.append (hk a t)

/-- Looking at the state needs no accesses. -/
theorem uses_get {k : σ → EStateM ε σ β} (hk : Uses mem (k s) s as) : Uses mem (get >>= k) s as :=
  hk

/-- What needs no accesses adds none. -/
theorem uses_bind_same (hx : Uses mem x s as) (hk : ∀ a t, Uses mem (k a) t []) :
    Uses mem (x >>= k) s as := by
  have hbind := uses_bind hx hk
  cases hresult : x s with
  | error | ok => simpa only [hresult, afterwards, List.append_nil] using hbind

/-- What is done after two computations is done after the second, which is done after the first. -/
theorem afterwards_bind (cs : β → σ → List MemoryAccess) :
    afterwards ((x >>= k) s) cs = afterwards (x s) fun a t => afterwards (k a t) cs := by
  cases hresult : x s with
  | error e t => rw [bind_of_error hresult, afterwards, afterwards]
  | ok a t => rw [bind_of_ok hresult, afterwards]

/-- What is done after a computation, one part after the other. -/
theorem afterwards_append (r : EStateM.Result ε σ α) (bs cs : α → σ → List MemoryAccess) :
    afterwards r bs ++ afterwards r cs = afterwards r fun a t => bs a t ++ cs a t := by
  cases r <;> rfl

/-- If neither a computation nor what is done after it wipes the memory, it is not wiped. -/
theorem wipe_notMem_append {r : EStateM.Result ε σ α} (has : .wipe ∉ as)
    (hbs : ∀ a t, .wipe ∉ bs a t) :
    .wipe ∉ as ++ afterwards r bs := by
  cases r with
  | error e t => simpa only [afterwards, List.append_nil] using has
  | ok a t => exact fun h => (List.mem_append.1 h).elim has (hbs a t)

end Uses

variable {γ : Type}

/-- The call of a routine with the result that it has. -/
def Machine.access (m : Machine γ) (arguments : List Int16) : MemoryAccess :=
  .call arguments ((m.memory.call arguments).map Prod.fst)

namespace Machine

/-- A machine routine does one access, with the result that the call has. -/
theorem call_uses (span : Span) (arguments : List Int16) (m : Machine γ) :
    Uses memory (call span arguments) m [m.access arguments] := by
  unfold Uses call access
  cases hcall : m.memory.call arguments with
  | error cause => exact .failed hcall .nil
  | ok result => exact .done hcall .nil

/-- Looking up a variable does no access. -/
theorem fetch_uses (span : Span) (x : Letter) (m : Machine γ) :
    Uses memory (fetch span x) m [] := by
  refine uses_of_same ?_
  unfold fetch
  cases m.vars.get? x <;> rfl

/-- A random value does no access. -/
theorem roll_uses [RandomSource γ] (span : Span) (bound : Int16) (m : Machine γ) :
    Uses memory (roll span bound) m [] := by
  refine uses_of_same ?_
  unfold roll
  cases RandomSource.roll m.generator bound <;> rfl

/-- An operation on two values does no access. -/
theorem combine_uses (span : Span) (op : BinaryOp) (a b : Int16) (m : Machine γ) :
    Uses memory (combine span op a b) m [] := by
  refine uses_of_same ?_
  unfold combine
  cases op.apply? a b <;> rfl

end Machine

variable [RandomSource γ]

/-! ### Expressions -/

/-- What evaluating an expression does with the memory. -/
def Expr.accesses : Expr → Machine γ → List MemoryAccess
  | int .., _ | var .., _ => []
  | rnd _ e, m | unary _ _ e, m | group _ e, m => e.accesses m
  | binary _ _ lhs rhs, m => lhs.accesses m ++ afterwards (lhs.eval m) fun _ m => rhs.accesses m
  | usr _ routine, m => routine.accesses m ++ afterwards (routine.eval m) fun r m => [m.access [r]]
  | usrAt _ routine address, m =>
    routine.accesses m ++ afterwards (routine.eval m) fun r m =>
      address.accesses m ++ afterwards (address.eval m) fun a m => [m.access [r, a]]
  | usrWith _ routine address value, m =>
    routine.accesses m ++ afterwards (routine.eval m) fun r m =>
      address.accesses m ++ afterwards (address.eval m) fun a m =>
        value.accesses m ++ afterwards (value.eval m) fun v m => [m.access [r, a, v]]

/-- What evaluating some expressions, one after the other, does with the memory. -/
def accessesAll : List Expr → Machine γ → List MemoryAccess
  | [], _ => []
  | e :: es, m => e.accesses m ++ afterwards (e.eval m) fun _ m => accessesAll es m

/-- **Expressions.**  Evaluating an expression does its accesses, and nothing else with the
    memory. -/
theorem Expr.uses (e : Expr) (m : Machine γ) : Uses Machine.memory e.eval m (e.accesses m) := by
  induction e generalizing m with
  | int => exact uses_of_same rfl
  | var span x => exact Machine.fetch_uses span x m
  | rnd span e ih => exact uses_bind_same (ih m) (Machine.roll_uses span)
  | unary span op e ih => exact uses_bind_same (ih m) fun n m => uses_of_same rfl
  | binary span op lhs rhs ihl ihr =>
    exact uses_bind (ihl m) fun a m => uses_bind_same (ihr m) (Machine.combine_uses span op a)
  | group span e ih => exact ih m
  | usr span routine ih => exact uses_bind (ih m) fun r m => Machine.call_uses span [r] m
  | usrAt span routine address ih ih' =>
    exact uses_bind (ih m) fun r m => uses_bind (ih' m) fun a m => Machine.call_uses span [r, a] m
  | usrWith span routine address value ih ih' ih'' =>
    exact uses_bind (ih m) fun r m => uses_bind (ih' m) fun a m => uses_bind (ih'' m) fun v m =>
      Machine.call_uses span [r, a, v] m

/-- Expressions do their accesses from left to right, up to the first that fails. -/
theorem evalAll_uses (es : List Expr) (m : Machine γ) :
    Uses Machine.memory (evalAll es) m (accessesAll es m) := by
  induction es generalizing m with
  | nil => exact uses_of_same rfl
  | cons e es ih =>
    exact uses_bind (e.uses m) fun n m => uses_bind_same (ih m) fun ns m => uses_of_same rfl

/-- Expressions wipe nothing. -/
theorem Expr.wipe_notMem_accesses (e : Expr) (m : Machine γ) : .wipe ∉ e.accesses m := by
  induction e generalizing m with
  | int | var => exact List.not_mem_nil
  | rnd _ e ih | unary _ _ e ih | group _ e ih => exact ih m
  | binary _ _ lhs rhs ihl ihr => exact wipe_notMem_append (ihl m) fun _ m => ihr m
  | usr _ routine ih => exact wipe_notMem_append (ih m) fun r m => by simp [Machine.access]
  | usrAt _ routine address ih ih' =>
    exact wipe_notMem_append (ih m) fun r m => wipe_notMem_append (ih' m) fun a m =>
      by simp [Machine.access]
  | usrWith _ routine address value ih ih' ih'' =>
    exact wipe_notMem_append (ih m) fun r m => wipe_notMem_append (ih' m) fun a m =>
      wipe_notMem_append (ih'' m) fun v m => by simp [Machine.access]

/-- Expressions never wipe the memory. -/
theorem wipe_notMem_accessesAll (es : List Expr) (m : Machine γ) : .wipe ∉ accessesAll es m := by
  induction es generalizing m with
  | nil => exact List.not_mem_nil
  | cons e es ih => exact wipe_notMem_append (e.wipe_notMem_accesses m) fun _ m => ih m

/-! ### Calls -/

/-- The arguments of a `USR`, with its columns. -/
def Expr.call? : Expr → Option (Span × List Expr)
  | usr span routine => some (span, [routine])
  | usrAt span routine address => some (span, [routine, address])
  | usrWith span routine address value => some (span, [routine, address, value])
  | _ => none

variable {e : Expr} {es : List Expr} {span : Span} {m m' : Machine γ}

/-- A `USR` evaluates its arguments and calls its routine. -/
theorem Expr.eval_of_call? (h : e.call? = some (span, es)) :
    e.eval (γ := γ) = evalAll es >>= Machine.call span := by
  cases e with
  | usr | usrAt | usrWith =>
    cases h
    simp only [eval, evalAll, bind_assoc, pure_bind]
  | _ => cases h

/-- A `USR` does what its arguments do, and then calls its routine if they all have values. -/
theorem Expr.accesses_of_call? (h : e.call? = some (span, es)) (m : Machine γ) :
    e.accesses m = accessesAll es m ++ afterwards (evalAll es m) fun ns m => [m.access ns] := by
  cases e with
  | usr | usrAt | usrWith =>
    cases h
    simp only [accesses, accessesAll, evalAll, afterwards_bind, afterwards_append,
      List.append_assoc]
    rfl
  | _ => cases h

/-- **Results of calls.**  Once its arguments have values a `USR` calls its routine, and has the
    result that the call should have.  A call that fails leaves the machine as the arguments left
    it. -/
theorem Expr.eval_called (h : e.call? = some (span, es)) {ns : List Int16}
    (hvalues : evalAll es m = .ok ns m') {past : List MemoryAccess} (hm : m.memory.Holds past) :
    ∃ result, e.accesses m = accessesAll es m ++ [.call ns result] ∧
      Answers (past ++ accessesAll es m) ns result ∧
      (∀ n, result = .ok n → ∃ m'', e.eval m = .ok n m'') ∧
      ∀ cause, result = .error cause → e.eval m = .error ⟨cause, span⟩ m' := by
  have haccesses : e.accesses m = accessesAll es m ++ [m'.access ns] := by
    rw [accesses_of_call? h, hvalues]
    rfl
  have huses := e.uses m
  rw [Uses, haccesses] at huses
  refine ⟨(m'.memory.call ns).map Prod.fst, haccesses, huses.answers hm, ?_⟩
  rw [eval_of_call? h, bind_of_ok hvalues, Machine.call]
  cases m'.memory.call ns with
  | error cause => exact ⟨nofun, fun cause' h => by cases h; rfl⟩
  | ok result => exact ⟨fun n h => by cases h; exact ⟨_, rfl⟩, nofun⟩

end LineBasic
