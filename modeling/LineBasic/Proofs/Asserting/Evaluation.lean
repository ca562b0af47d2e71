import LineBasic.Machine
import LineBasic.Proofs.Asserting.Report
import LineBasic.Proofs.Expr.Fault

namespace LineBasic

/-!
# Evaluation with assertions

What goes wrong with a variable, a random value or a machine routine is reported without a place,
and the expression that asked for it tells the report its columns.

* `Trial` -- computations on a state that may come upon a breach, or fail with a report;
* `located` -- tells the reports of a computation which columns are concerned;
* `Follows` -- a checked computation comes upon no breach and does what an unchecked one does, on
  corresponding states;
* `eval`, `evalAll`, `printed` -- evaluation and printing;
* `eval_follows`, `evalAll_follows`, `printed_follows` -- no check fails, and the outcome is the
  same.
-/

namespace Asserting

/-- A computation on a state that may come upon a breach, or fail with a report. -/
abbrev Trial (σ α : Type) := ExceptT Diagnostic (StateT σ Asserting) α

variable {σ τ α β : Type}

/-- Tells the report of a computation that fails which columns are concerned. -/
def located (span : Span) (g : Trial σ α) : Trial σ α :=
  g.tryCatch fun d => do throw (← d.giveColumn span)

/-- Does something that, if it fails, knows nothing but the cause and leaves the state as it was. -/
def performing (f : σ → Except Cause (α × σ)) : Trial σ α := fun s =>
  match f s with
  | .ok (a, s) => .ok (.ok a, s)
  | .error cause => .ok (.error cause.diagnostic, s)

/-! ### Following a computation -/

/-- The outcome of a computation, its fault being reported. -/
def reported : EStateM.Result Fault τ α → Except Diagnostic α × τ
  | .ok a t => (.ok a, t)
  | .error fault t => (.error fault.diagnostic, t)

/-- Whether a checked computation passes its checks on all states that correspond to those of an
    unchecked one, with the same outcome and corresponding states again. -/
def Follows (V : σ → τ → Prop) (g : Trial σ α) (x : EStateM Fault τ α) : Prop :=
  ∀ s t, V s t → Passes (g s) fun r => r.1 = (reported (x t)).1 ∧ V r.2 (reported (x t)).2

variable {V : σ → τ → Prop}

/-- A mere value has nothing to check. -/
theorem follows_pure (a : α) : Follows V (pure a) (pure a) := fun _ _ h => passes_ok ⟨rfl, h⟩

/-- A report that is told its columns where it is made has not been told them before. -/
theorem follows_raise (cause : Cause) (span : Span) :
    Follows V (α := α) (do throw (← cause.reportAt span)) (throw ⟨cause, span⟩) :=
  fun _ _ h => passes_ok ⟨rfl, h⟩

/-- What is done with a result need only follow where there is that result. -/
theorem Follows.bind_of_ok {g : Trial σ α} {x : EStateM Fault τ α} {k : α → Trial σ β}
    {k' : α → EStateM Fault τ β} (h : Follows V g x)
    (hk : ∀ a, (∃ t t', x t = .ok a t') → Follows V (k a) (k' a)) :
    Follows V (g >>= k) (x >>= k') := by
  intro s t hst
  obtain ⟨⟨outcome, s'⟩, hg, houtcome, hst'⟩ := h s t hst
  show Passes (StateT.bind g _ s) _
  rw [StateT.bind, hg]
  cases hx : x t with
  | ok a t' =>
    rw [hx] at houtcome hst'
    obtain rfl : outcome = .ok a := houtcome
    rw [LineBasic.bind_of_ok hx]
    exact hk a ⟨t, t', hx⟩ s' t' hst'
  | error fault t' =>
    -- The report of the first part is passed on as it is, so nobody tells it anything more.
    rw [hx] at houtcome hst'
    obtain rfl : outcome = .error fault.diagnostic := houtcome
    rw [bind_of_error hx]
    exact passes_ok ⟨rfl, hst'⟩

/-- Checked computations that follow unchecked ones do so one after the other. -/
theorem Follows.bind {g : Trial σ α} {x : EStateM Fault τ α} {k : α → Trial σ β}
    {k' : α → EStateM Fault τ β} (h : Follows V g x) (hk : ∀ a, Follows V (k a) (k' a)) :
    Follows V (g >>= k) (x >>= k') :=
  h.bind_of_ok fun a _ => hk a

/-- What is checked on the way makes no difference. -/
theorem follows_after {r : Asserting β} {b : β} {k : β → Trial σ α} {x : EStateM Fault τ α}
    (hr : r = .ok b) (hk : Follows V (k b) x) : Follows V (do k (← r)) x := by
  rw [hr]
  exact hk

/-- Looking at the state. -/
theorem follows_get {k : σ → Trial σ β} {k' : τ → EStateM Fault τ β}
    (hk : ∀ s t, V s t → Follows V (k s) (k' t)) :
    Follows V (do k (← get)) (do k' (← get)) := fun s t hst => hk s t hst s t hst

/-- Looking at the state, where what is done next depends on it once more. -/
theorem follows_here {k : σ → Trial σ β} {k' : τ → EStateM Fault τ β}
    (hk : ∀ s t, V s t → Passes (k s s) fun r => r.1 = (reported (k' t t)).1 ∧
      V r.2 (reported (k' t t)).2) :
    Follows V (do k (← get)) (do k' (← get)) := hk

/-- Telling a report its columns leaves alone what succeeds. -/
theorem located_of_ok {g : Trial σ α} {s s' : σ} {a : α} (span : Span) (h : g s = .ok (.ok a, s')) :
    located span g s = .ok (.ok a, s') := by
  unfold located ExceptT.tryCatch ExceptT.mk
  show StateT.bind g _ s = _
  rw [StateT.bind, h]
  rfl

/-- A report that is made of a cause alone can be told its columns. -/
theorem located_of_error {g : Trial σ α} {s s' : σ} (span : Span) (cause : Cause)
    (h : g s = .ok (.error cause.diagnostic, s')) :
    located span g s = .ok (.error (Fault.mk cause span).diagnostic, s') := by
  unfold located ExceptT.tryCatch ExceptT.mk
  show StateT.bind g _ s = _
  rw [StateT.bind, h]
  rfl

/-- What fails with a mere cause is told its columns once. -/
theorem located_follows {f : σ → Except Cause (α × σ)} {x : EStateM Fault τ α} (span : Span)
    (h : ∀ s t, V s t → match f s with
      | .ok (a, s') => ∃ t', x t = .ok a t' ∧ V s' t'
      | .error cause => x t = .error ⟨cause, span⟩ t) :
    Follows V (located span (performing f)) x := by
  intro s t hst
  have hf := h s t hst
  cases hr : f s with
  | ok r =>
    rw [hr] at hf
    obtain ⟨t', hx, hst'⟩ := hf
    have hok : performing f s = .ok (.ok r.1, r.2) := by rw [performing, hr]
    rw [located_of_ok span hok, hx]
    exact passes_ok ⟨rfl, hst'⟩
  | error cause =>
    rw [hr] at hf
    have herror : performing f s = .ok (.error cause.diagnostic, s) := by rw [performing, hr]
    rw [located_of_error span cause herror, hf]
    exact passes_ok ⟨rfl, hst⟩

/-! ### The machine -/

variable {γ : Type}

/-- The value of a variable. -/
def fetch (x : Letter) : Trial (Machine γ) Int16 :=
  performing fun m =>
    match m.vars.get? x with
    | some n => .ok (n, m)
    | none => .error (.uninitialized x)

/-- A random value below a bound. -/
def roll [RandomSource γ] (bound : Int16) : Trial (Machine γ) Int16 :=
  performing fun m => (RandomSource.roll m.generator bound).map fun (n, generator) =>
    (n, { m with generator })

/-- The result of a machine routine. -/
def call (arguments : List Int16) : Trial (Machine γ) Int16 :=
  performing fun m => (m.memory.call arguments).map fun (n, memory) => (n, { m with memory })

/-- The value of an operation on two values. -/
def combine (span : Span) (op : BinaryOp) (a b : Int16) : Trial (Machine γ) Int16 := do
  match op.apply? a b with
  | some n => return n
  | none => throw (← Cause.divisionByZero.reportAt span)

/-- Evaluates an expression. -/
def eval [RandomSource γ] : Expr → Trial (Machine γ) Int16
  | .int _ n => pure n
  | .var s x => located s (fetch x)
  | .rnd s e => do
    let n ← eval e
    located s (roll n)
  | .usr s routine => do
    let r ← eval routine
    located s (call [r])
  | .usrAt s routine address => do
    let r ← eval routine
    let a ← eval address
    located s (call [r, a])
  | .usrWith s routine address value => do
    let r ← eval routine
    let a ← eval address
    let v ← eval value
    located s (call [r, a, v])
  | .unary _ op e => do
    let n ← eval e
    return op.apply n
  | .binary s op lhs rhs => do
    let a ← eval lhs
    let b ← eval rhs
    combine s op a b
  | .group _ e => eval e

/-- Evaluates some expressions, one after the other. -/
def evalAll [RandomSource γ] : List Expr → Trial (Machine γ) (List Int16)
  | [] => pure []
  | e :: es => do
    let n ← eval e
    let ns ← evalAll es
    return n :: ns

/-- Adds the parts of a `PRINT` statement to a text. -/
def printOnto [RandomSource γ] (text : String) : List PrintItem → Trial (Machine γ) String
  | [] => pure text
  | .text _ s :: items => printOnto (text ++ s) items
  | .value e :: items => do
    let n ← eval e
    printOnto (text ++ Text.ofInt n.toInt) items
  | .comma _ :: items => printOnto (toNextZone text) items
  | .semicolon _ :: items => printOnto text items

/-- The text that a `PRINT` statement writes. -/
def printed [RandomSource γ] (items : List PrintItem) : Trial (Machine γ) String := do
  let text ← printOnto "" items
  return if items.getLast?.any PrintItem.isSeparator then text else text ++ "\n"

/-! ### No check fails -/

/-- The report of a variable without a value is told its columns once. -/
theorem fetch_follows (span : Span) (x : Letter) :
    Follows Eq (located span (fetch x)) (Machine.fetch span x : Evaluation γ Int16) := by
  refine located_follows span ?_
  rintro m _ rfl
  unfold Machine.fetch
  cases m.vars.get? x with
  | some n => exact ⟨m, rfl, rfl⟩
  | none => rfl

variable [RandomSource γ]

/-- The report of a bad bound for a random value is told its columns once. -/
theorem roll_follows (span : Span) (bound : Int16) :
    Follows Eq (located span (roll bound)) (Machine.roll span bound : Evaluation γ Int16) := by
  refine located_follows span ?_
  rintro m _ rfl
  unfold Machine.roll
  cases RandomSource.roll m.generator bound with
  | ok r => exact ⟨_, rfl, rfl⟩
  | error cause => rfl

omit [RandomSource γ] in
/-- The report of a machine routine is told its columns once. -/
theorem call_follows (span : Span) (arguments : List Int16) :
    Follows Eq (located span (call arguments))
      (Machine.call span arguments : Evaluation γ Int16) := by
  refine located_follows span ?_
  rintro m _ rfl
  unfold Machine.call
  cases m.memory.call arguments with
  | ok r => exact ⟨_, rfl, rfl⟩
  | error cause => rfl

omit [RandomSource γ] in
/-- The report of a division by zero is told its columns once. -/
theorem combine_follows (span : Span) (op : BinaryOp) (a b : Int16) :
    Follows Eq (combine span op a b) (Machine.combine span op a b : Evaluation γ Int16) := by
  unfold combine Machine.combine
  cases op.apply? a b with
  | some n => exact follows_pure n
  | none => exact follows_raise _ _

/-- **Evaluation.**  No report of an expression is told its columns twice: what goes wrong inside an
    operand is reported with the columns of the operand, and the operation around it is not carried
    out. -/
theorem eval_follows (e : Expr) : Follows Eq (eval e) (e.eval : Evaluation γ Int16) := by
  induction e with
  | int => exact follows_pure _
  | var s x => exact fetch_follows s x
  | rnd s e ih => exact ih.bind fun n => roll_follows s n
  | usr s e ih => exact ih.bind fun r => call_follows s [r]
  | usrAt s e a ih iha => exact ih.bind fun r => iha.bind fun a => call_follows s [r, a]
  | usrWith s e a v ih iha ihv =>
    exact ih.bind fun r => iha.bind fun a => ihv.bind fun v => call_follows s [r, a, v]
  | unary s op e ih => exact ih.bind fun n => follows_pure _
  | binary s op l r ihl ihr => exact ihl.bind fun a => ihr.bind fun b => combine_follows s op a b
  | group s e ih => exact ih

/-- Evaluating expressions one after the other fails no check. -/
theorem evalAll_follows (es : List Expr) :
    Follows Eq (evalAll es) (LineBasic.evalAll es : Evaluation γ (List Int16)) := by
  induction es with
  | nil => exact follows_pure _
  | cons e es ih => exact (eval_follows e).bind fun n => ih.bind fun ns => follows_pure _

/-- Writing the parts of a `PRINT` behind a text fails no check. -/
theorem printOnto_follows (text : String) (items : List PrintItem) :
    Follows Eq (printOnto text items) (LineBasic.printOnto text items : Evaluation γ String) := by
  induction items generalizing text with
  | nil => exact follows_pure _
  | cons item items ih =>
    cases item with
    | value e => exact (eval_follows e).bind fun n => ih _
    | _ => exact ih _

/-- Writing a whole `PRINT` fails no check. -/
theorem printed_follows (items : List PrintItem) :
    Follows Eq (printed items) (LineBasic.printed items : Evaluation γ String) :=
  (printOnto_follows "" items).bind fun _ => follows_pure _

end Asserting

end LineBasic
