import LineBasic.Proofs.Engine.Effect
import LineBasic.Proofs.Lint

namespace LineBasic.Engine

/-!
# What statements do to the variables

A statement reads variables before it does anything else, and fails for want of a value only if a
variable that is read in it has none.

* `Looked` -- an engine after expressions have been evaluated;
* `Comes`, `comes_bind` -- what computations come to, one after the other;
* `Carried` -- what each statement leaves, on behalf of a line or of none;
* `execute_comes` -- the main result, for all statements.
-/

variable {γ α β : Type} {R : Letter → Prop} {s t : Engine γ} {line : Option Nat}

/-- What comes of a computation: a value and an engine of which something holds, or a failure that
    has changed nothing but the machine, and for want of a value only if one of some variables has
    none. -/
def Comes (R : Letter → Prop) (s : Engine γ) (Q : α → Engine γ → Prop) :
    EStateM.Result Fault (Engine γ) α → Prop
  | .ok a t => Q a t
  | .error fault t =>
    ∃ machine, Inspects R s.machine (.error fault machine : EStateM.Result _ _ α) ∧
      t = { s with machine }

/-- An engine that only differs in its machine, which has the same variables. -/
def Looked (s t : Engine γ) : Prop :=
  ∃ machine, machine.vars = s.machine.vars ∧ t = { s with machine }

/-- An engine looks as it looked before. -/
theorem looked_refl (s : Engine γ) : s.Looked s := ⟨s.machine, rfl, rfl⟩

/-- Looking twice is looking. -/
theorem Looked.trans {u : Engine γ} (h : s.Looked t) (h' : t.Looked u) : s.Looked u := by
  obtain ⟨machine, hvars, rfl⟩ := h
  obtain ⟨machine', hvars', rfl⟩ := h'
  exact ⟨machine', hvars'.trans hvars, rfl⟩

/-- Looking leaves the program alone. -/
theorem Looked.listing (h : s.Looked t) : t.listing = s.listing := by
  obtain ⟨machine, -, rfl⟩ := h
  rfl

/-- Looking leaves the open subroutines alone. -/
theorem Looked.calls (h : s.Looked t) : t.calls = s.calls := by
  obtain ⟨machine, -, rfl⟩ := h
  rfl

/-- A computation that comes to something comes to anything weaker. -/
theorem Comes.mono {Q Q' : α → Engine γ → Prop} {r : EStateM.Result Fault (Engine γ) α}
    (h : Comes R s Q r) (hQ : ∀ a t, Q a t → Q' a t) : Comes R s Q' r := by
  cases r with
  | ok a t => exact hQ a t h
  | error fault t => exact h

/-- A failure after a look is a failure. -/
theorem Comes.after_look {Q : α → Engine γ → Prop} {r : EStateM.Result Fault (Engine γ) α}
    (hlook : s.Looked t) (h : Comes R t Q r) : Comes R s Q r := by
  obtain ⟨machine, hvars, rfl⟩ := hlook
  cases r with
  | ok a u => exact h
  | error fault u =>
    obtain ⟨machine', ⟨hvars', hcode⟩, hu⟩ := h
    exact ⟨machine', ⟨hvars'.trans hvars, fun hfault => hvars ▸ hcode hfault⟩, hu⟩

/-- What is carried out after a look sees the same variables. -/
theorem comes_bind {P : α → Prop} {Q : β → Engine γ → Prop} {x : Execution γ α}
    {k : α → Execution γ β} (hx : Comes R s (fun a t => P a ∧ s.Looked t) (x s))
    (hk : ∀ a t, P a → s.Looked t → Comes R t Q (k a t)) : Comes R s Q ((x >>= k) s) := by
  show Comes R s Q (EStateM.bind x k s)
  unfold EStateM.bind
  cases hresult : x s with
  | error fault t =>
    rw [hresult] at hx
    exact hx
  | ok a t =>
    rw [hresult] at hx
    obtain ⟨ha, hlook⟩ := hx
    exact (hk a t ha hlook).after_look hlook

/-- Looking at the whole engine changes nothing. -/
theorem comes_get {Q : α → Engine γ → Prop} {k : Engine γ → Execution γ α}
    (hk : Comes R s Q (k s s)) :
    Comes R s Q ((get >>= k) s) := hk

/-- A failure for another reason than the want of a value needs no variable. -/
theorem comes_error {Q : α → Engine γ → Prop} (fault : Fault)
    (hcode : fault.cause.code ≠ .uninitialized) :
    Comes R s Q (.error fault s) :=
  ⟨s.machine, inspects_error rfl hcode, rfl⟩

/-- Evaluating wants a value only of the variables that are read. -/
theorem comes_evaluating {x : Evaluation γ α} (h : Inspects R s.machine (x s.machine)) :
    Comes R s (fun _ t => True ∧ s.Looked t) (evaluating x s) := by
  unfold evaluating
  cases hresult : x s.machine with
  | ok a machine =>
    rw [hresult] at h
    exact ⟨trivial, machine, h, rfl⟩
  | error fault machine =>
    rw [hresult] at h
    exact ⟨machine, h, rfl⟩

/-! ### Parts of statements -/

/-- Behind the refusal of direct statements no run is suspended, or the statement is that of a
    line. -/
theorem comes_guardPaused (span : Span) :
    Comes R s (fun _ t => (line = none → s.mode ≠ .paused) ∧ s.Looked t)
      (guardPaused span line s) := by
  refine comes_get ?_
  split
  next => exact comes_error _ Code.noConfusion
  next h =>
    refine ⟨?_, s.looked_refl⟩
    rintro rfl hmode
    simp [hmode] at h

/-- Judging the bounds of a `LIST` wants no value. -/
theorem comes_checkBounds (span : Span) (low high : Int16) :
    Comes R s (fun _ t => True ∧ s.Looked t) (checkBounds span low high s) := by
  unfold checkBounds
  dsimp only
  split
  next => exact comes_error ⟨.listOrder low high, span⟩ Code.noConfusion
  next =>
    split
    next => exact comes_error ⟨.listRange low high, span⟩ Code.noConfusion
    next => exact ⟨trivial, s.looked_refl⟩

variable [RandomSource γ]

/-- Evaluating an expression wants a value only of its variables, and a number gives itself. -/
theorem comes_eval {e : Expr} (hR : ∀ x, e.Reads x → R x) :
    Comes R s (fun n t => (∀ span k, e.literal? = some (span, k) → n = k) ∧ s.Looked t)
      (evaluating e.eval s) := by
  cases hliteral : e.literal? with
  | none =>
    refine (comes_evaluating (e.eval_inspects hR s.machine)).mono fun n t ht => ⟨?_, ht.2⟩
    rintro span k ⟨⟩
  | some literal =>
    obtain ⟨span, k⟩ := literal
    unfold evaluating
    rw [Expr.eval_of_literal hliteral]
    refine ⟨?_, s.looked_refl⟩
    rintro span' k' ⟨⟩
    rfl

/-- A target that is a number is resolved to that number. -/
theorem comes_resolve (word : Keyword) {target : Expr} (hR : ∀ x, target.Reads x → R x) :
    Comes R s
      (fun n t => (∀ span k, target.literal? = some (span, k) → n = k.toNatClampNeg) ∧ s.Looked t)
      (resolve word target s) := by
  refine comes_bind (comes_eval hR) fun k t hk hlook => ?_
  refine comes_get ?_
  split
  · exact ⟨fun span j hj => by rw [hk span j hj], hlook⟩
  · exact comes_error _ Code.noConfusion

/-- Listing wants a value only of the variables in the bounds. -/
theorem comes_listed {span : Span} {extent : Extent}
    (hR : ∀ x, (Statement.list span extent).Reads x → R x) :
    Comes R s (fun _ t => True ∧ s.Looked t) (listed span extent s) := by
  cases extent with
  | whole => exact ⟨trivial, s.looked_refl⟩
  | onward low =>
    refine comes_bind (comes_eval fun x hx => hR x (by simp [hx])) fun a t _ hlook => ?_
    refine comes_bind (comes_checkBounds span _ _) fun _ u _ hlook' => ?_
    refine comes_get ?_
    cases u.listing.get? a.toNatClampNeg with
    | some line => exact ⟨trivial, hlook.trans hlook'⟩
    | none => exact ⟨trivial, hlook.trans hlook'⟩
  | between low high =>
    refine comes_bind (comes_eval fun x hx => hR x (by simp [hx])) fun a t _ hlook => ?_
    refine comes_bind (comes_eval fun x hx => hR x (by simp [hx])) fun b u _ hlook' => ?_
    refine comes_bind (comes_checkBounds span _ _) fun _ v _ hlook'' => ?_
    exact ⟨trivial, (hlook.trans hlook').trans hlook''⟩

/-! ### Statements -/

omit [RandomSource γ]

/-- What carrying out a statement, on behalf of a line or of none, leaves if it does not fail. -/
inductive Carried (line : Option Nat) : Engine γ → Statement → Engine γ → Prop where
  /-- The condition of an `IF` does not hold. -/
  | skipped {s t : Engine γ} {span lhs relation rhs body} (hlook : s.Looked t) :
      Carried line s (.cond span lhs relation rhs body) t
  /-- The condition of an `IF` holds. -/
  | held {s t u : Engine γ} {span lhs relation rhs body} (hlook : s.Looked t)
      (h : Carried line t body u) :
      Carried line s (.cond span lhs relation rhs body) u
  /-- A variable is given a value. -/
  | assigned {s t : Engine γ} {span target e} (hlook : s.Looked t) (n : Int16) :
      Carried line s (.assign span target e) (t.assign target.name n)
  | asked {s : Engine γ} {span targets} :
      Carried line s (.input span targets) (ask line s (targets.map Target.name))
  /-- At most a text is written. -/
  | wrote {s t : Engine γ} {statement : Statement} (hassigns : statement.assigns = false)
      (hlook : s.Looked t) (transcript : Transcript) :
      Carried line s statement { t with transcript }
  /-- The run is over. -/
  | ended {s t : Engine γ} {statement : Statement} (hassigns : statement.assigns = false)
      (hidle : t.isIdle) (herrors : t.errors = s.errors) : Carried line s statement t
  /-- A program line goes to a line. -/
  | jumped {s t : Engine γ} {span target} (k n : Nat) (hline : line = some k) (hlook : s.Looked t)
      (hn : ∀ span j, target.literal? = some (span, j) → n = j.toNatClampNeg) :
      Carried line s (.goto span target) { t with branch := some n }
  /-- A program line goes to a line from which a return goes to the next one. -/
  | called {s t : Engine γ} {span target} (k n back : Nat) (calls : CallStack)
      (hline : line = some k) (hlook : s.Looked t)
      (hn : ∀ span j, target.literal? = some (span, j) → n = j.toNatClampNeg)
      (hback : s.listing.nextAfter? k = some back)
      (hcalls : calls.frames = back :: s.calls.frames) :
      Carried line s (.gosub span target) { t with calls, branch := some n }
  /-- A subroutine is left. -/
  | returned {s t : Engine γ} {span} (n : Nat) (calls : CallStack)
      (hpaused : line = none → s.mode ≠ .paused) (hlook : s.Looked t)
      (hcalls : s.calls.frames = n :: calls.frames) :
      Carried line s (.ret span) { t with calls, branch := some n }
  /-- A program line begins the program again. -/
  | rewound {s t : Engine γ} {span arguments} (k : Nat) (transcript : Transcript)
      (hline : line = some k) (hlook : s.Looked t) :
      Carried line s (.run span arguments) { t with transcript }.rewind
  /-- A direct statement begins a run. -/
  | launched {s t : Engine γ} {statement : Statement} (queue : List Int16) (n : Nat)
      (hline : line = none) (hmode : s.mode ≠ .paused) (hlook : s.Looked t)
      (hn : ∀ span arguments, statement = .run span arguments → s.listing.first? = some n) :
      Carried line s statement ({ t with queue }.startRun n)

variable [RandomSource γ]

/-- **Carrying out statements.**  A statement fails for want of a value only if a variable that is
    read in it has none. -/
theorem execute_comes (statement : Statement) (line : Option Nat)
    (hR : ∀ x, statement.Reads x → R x) (s : Engine γ) :
    Comes R s (fun _ t => Carried line s statement t) (execute line statement s) := by
  induction statement generalizing s with
  | clear => exact .ended rfl (stop_isIdle _) (stop_errors _)
  | halt => exact .ended rfl (stop_isIdle _) (stop_errors _)
  | goto span target =>
    refine comes_bind (comes_guardPaused span) fun _ t hpaused hlook => ?_
    refine comes_bind (comes_resolve .GOTO fun x hx => hR x (by simp [hx])) fun n u hn hlook' => ?_
    cases line with
    | some k => exact .jumped k n rfl (hlook.trans hlook') hn
    | none => exact .launched [] n rfl (hpaused rfl) (hlook.trans hlook') nofun
  | gosub span target =>
    refine comes_bind (comes_guardPaused span) fun _ t hpaused hlook => ?_
    refine comes_bind (comes_resolve .GOSUB fun x hx => hR x (by simp [hx])) fun n u hn hlook' => ?_
    refine comes_get ?_
    cases hback : line.bind u.listing.nextAfter? with
    | none => exact comes_error _ Code.noConfusion
    | some back =>
      obtain ⟨k, hline, hback⟩ := Option.bind_eq_some_iff.1 hback
      dsimp only
      cases hpush : u.calls.push back with
      | error cause =>
        obtain rfl := CallStack.push_error hpush
        exact comes_error ⟨.stackOverflow, span⟩ Code.noConfusion
      | ok calls =>
        have hsame := hlook.trans hlook'
        rw [hsame.listing] at hback
        rw [hsame.calls] at hpush
        have hcarried : Carried line s (.gosub span target) { u with calls, branch := some n } :=
          .called k n back calls hline hsame hn hback (CallStack.push_ok hpush).1
        exact hcarried
  | ret span =>
    refine comes_bind (comes_guardPaused span) fun _ t hpaused hlook => ?_
    refine comes_get ?_
    cases hpop : t.calls.pop with
    | error cause =>
      obtain rfl := CallStack.pop_error hpop
      exact comes_error ⟨.returnWithoutGosub, span⟩ Code.noConfusion
    | ok top =>
      rw [hlook.calls] at hpop
      have hcarried : Carried line s (.ret span) { t with calls := top.2, branch := some top.1 } :=
        .returned top.1 top.2 hpaused hlook (CallStack.pop_ok hpop)
      exact hcarried
  | cond _ lhs relation rhs body ih =>
    refine comes_bind (comes_eval fun x hx => hR x (by simp [hx])) fun a t _ hlook => ?_
    refine comes_bind (comes_eval fun x hx => hR x (by simp [hx])) fun b u _ hlook' => ?_
    split
    · exact (ih (fun x hx => hR x (by simp [hx])) u).mono fun _ v h => .held (hlook.trans hlook') h
    · exact .skipped (hlook.trans hlook')
  | input => exact .asked
  | assign span target e =>
    refine comes_bind (comes_eval fun x hx => hR x (by simp [hx])) fun n t _ hlook => ?_
    exact .assigned hlook n
  | list span extent =>
    refine comes_bind (comes_listed hR) fun text t _ hlook => ?_
    exact .wrote rfl hlook _
  | print span items =>
    have hitems : ∀ e, PrintItem.value e ∈ items → ∀ x, e.Reads x → R x :=
      fun e he x hx => hR x (Statement.reads_print.2 ⟨e, he, hx⟩)
    refine comes_bind (comes_evaluating (printed_inspects hitems s.machine))
      fun text t _ hlook => ?_
    exact .wrote rfl hlook _
  | remark => exact .wrote rfl s.looked_refl s.transcript
  | run span arguments =>
    refine comes_bind (comes_guardPaused span) fun _ t hpaused hlook => ?_
    cases line with
    | some k =>
      -- The warning, if there is one, changes only what has been written.
      have hcarried : ∀ transcript, Carried (some k) s (.run span arguments)
          { t with transcript }.rewind :=
        fun transcript => .rewound k transcript rfl hlook
      show Comes R t _ (.ok () (if arguments = [] then t else t.emit _).rewind)
      split
      · exact hcarried t.transcript
      · exact hcarried _
    | none =>
      refine comes_get ?_
      cases hfirst : t.listing.first? with
      | none => exact comes_error _ Code.noConfusion
      | some first =>
        have hvalues : ∀ e ∈ arguments, ∀ x, e.Reads x → R x :=
          fun e he x hx => hR x (Statement.reads_run.2 ⟨e, he, hx⟩)
        rw [hlook.listing] at hfirst
        refine comes_bind (comes_evaluating (evalAll_inspects hvalues t.machine))
          fun queue u _ hlook' => ?_
        refine .launched queue first rfl (hpaused rfl) (hlook.trans hlook') ?_
        rintro _ _ ⟨⟩
        exact hfirst

end LineBasic.Engine
