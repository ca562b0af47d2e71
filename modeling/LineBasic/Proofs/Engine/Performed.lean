import LineBasic.Proofs.Engine.Effect
import LineBasic.Proofs.Expr.Fault
import LineBasic.Proofs.Statement.Core

namespace LineBasic

/-!
# What is performed

An `IF` performs the statement inside it or nothing at all, so whatever a statement does is done by
a statement that is no `IF`.

* `execute_comesTo`, `execute_skipped` -- `IF`s can be left out of account;
* `Does` -- the effect of each statement that is no `IF`, with the values it depends on;
* `Balks` -- the reasons for which such a statement fails;
* `execute_performed` -- each statement that is no `IF` has its effect or one of these reasons;
* `execute_ends`, `execute_ok`, `execute_error` -- the success and the failure of any statement.
-/

variable {γ : Type}

namespace Engine

variable {α β : Type} {s t : Engine γ} {line : Option Nat}

/-! ### Outcomes of computations -/

/-- A computation that succeeds in one way or fails in another. -/
def Ends (Q : α → Engine γ → Prop) (F : Fault → Engine γ → Prop) :
    EStateM.Result Fault (Engine γ) α → Prop
  | .ok a t => Q a t
  | .error fault t => F fault t

section Ends

variable {P : α → Engine γ → Prop} {Q : β → Engine γ → Prop} {F : Fault → Engine γ → Prop}

/-- Computations one after the other, which all fail in one way. -/
theorem ends_bind {x : Execution γ α} {k : α → Execution γ β} (hx : Ends P F (x s))
    (hk : ∀ a t, P a t → Ends Q F (k a t)) : Ends Q F ((x >>= k) s) := by
  show Ends Q F (EStateM.bind x k s)
  unfold EStateM.bind
  cases hresult : x s with
  | ok a t =>
    rw [hresult] at hx
    exact hk a t hx
  | error fault t =>
    rw [hresult] at hx
    exact hx

/-- A computation that ends in one way ends in any weaker way. -/
theorem ends_mono {R : β → Engine γ → Prop} {G : Fault → Engine γ → Prop}
    {r : EStateM.Result Fault (Engine γ) β} (hok : ∀ b t, R b t → Q b t)
    (herror : ∀ fault t, G fault t → F fault t) (h : Ends R G r) : Ends Q F r := by
  cases r with
  | ok b t => exact hok b t h
  | error fault t => exact herror fault t h

/-- A computation that succeeds in one way is known to have come to that. -/
theorem ends_self {x : Execution γ α} (hx : Ends P F (x s)) :
    Ends (fun a t => x s = .ok a t ∧ P a t) F (x s) := by
  cases hresult : x s with
  | ok a t =>
    rw [hresult] at hx
    exact ⟨rfl, hx⟩
  | error fault t =>
    rw [hresult] at hx
    exact hx

/-- Looking at the whole engine changes nothing. -/
theorem ends_get {k : Engine γ → Execution γ β} (hk : Ends Q F (k s s)) :
    Ends Q F ((get >>= k) s) := hk

/-- Evaluating ends with a value and another machine, or with the fault of the expression. -/
theorem ends_evaluating {x : Evaluation γ α}
    (hF : ∀ fault m, x s.machine = .error fault m → F fault { s with machine := m }) :
    Ends (fun a t => ∃ m, x s.machine = .ok a m ∧ t = { s with machine := m }) F
      (evaluating x s) := by
  unfold evaluating
  cases hx : x s.machine with
  | ok a m => exact ⟨m, rfl, rfl⟩
  | error fault m => exact hF fault m hx

/-- Refusing direct statements ends where no run is suspended or the statement is that of a line. -/
theorem ends_guardPaused {span : Span}
    (hF : ∀ fault : Fault, fault.cause = .useContinue → F fault s) :
    Ends (fun _ t => (line = none → s.mode ≠ .paused) ∧ s = t) F (guardPaused span line s) := by
  refine ends_get ?_
  split
  next => exact hF _ rfl
  next h =>
    refine ⟨?_, rfl⟩
    rintro rfl hmode
    simp [hmode] at h

variable [RandomSource γ]

/-- Finding the line of a target ends with a stored one, or fails for the value or the line. -/
theorem ends_resolve {word : Keyword} {target : Expr}
    (hvalue : ∀ fault m, target.eval s.machine = .error fault m → F fault { s with machine := m })
    (htarget : ∀ (fault : Fault) n m, target.eval s.machine = .ok n m → ¬ s.listing.IsTarget n →
      fault.cause = .undefinedLine word n → F fault { s with machine := m }) :
    Ends (fun k t => ∃ n m, target.eval s.machine = .ok n m ∧ s.listing.IsTarget n ∧
      k = n.toNatClampNeg ∧ t = { s with machine := m }) F (resolve word target s) := by
  refine ends_bind (ends_evaluating hvalue) ?_
  rintro n _ ⟨m, hn, rfl⟩
  refine ends_get ?_
  split
  next h => exact ⟨n, m, hn, by simpa [Listing.IsTarget] using h, rfl, rfl⟩
  next h => exact htarget _ n m hn (by simpa [Listing.IsTarget] using h) rfl

end Ends

/-! ### What statements do, and why they fail -/

variable [RandomSource γ]

/-- The effect of a statement that is no `IF`, on behalf of a line or of none, and the machine that
    its expressions leave. -/
inductive Does (line : Option Nat) (s : Engine γ) : Statement → Effect → Machine γ → Prop where
  | remark {span comment} : Does line s (.remark span comment) .nothing s.machine
  | assign {span target value n m} (hn : value.eval s.machine = .ok n m) :
      Does line s (.assign span target value) (.assign target.name n) m
  | print {span items text m} (htext : printed items s.machine = .ok text m) :
      Does line s (.print span items) (.write text) m
  | list {span extent text m} (htext : listed span extent s = .ok text { s with machine := m }) :
      Does line s (.list span extent) (.write text) m
  | input {span targets} : Does line s (.input span targets)
      (.ask (targets.map Target.name)) s.machine
  | clear {span} : Does line s (.clear span) .clear s.machine
  | halt {span} : Does line s (.halt span) .halt s.machine
  /-- A program line goes to a line. -/
  | goto {span target n m} (hline : line.isSome) (hn : target.eval s.machine = .ok n m)
      (hstored : s.listing.IsTarget n) :
      Does line s (.goto span target) (.jump s.calls n.toNatClampNeg) m
  /-- A program line calls a subroutine, which returns to the next line. -/
  | gosub {span target n m k back calls} (hline : line = some k)
      (hn : target.eval s.machine = .ok n m) (hstored : s.listing.IsTarget n)
      (hback : s.listing.nextAfter? k = some back) (hcalls : s.calls.push back = .ok calls) :
      Does line s (.gosub span target) (.jump calls n.toNatClampNeg) m
  | ret {span back calls} (hmode : line = none → s.mode ≠ .paused)
      (hcalls : s.calls.pop = .ok (back, calls)) :
      Does line s (.ret span) (.jump calls back) s.machine
  /-- A program line begins the program again. -/
  | restart {span arguments k} (hline : line = some k) :
      Does line s (.run span arguments)
        (.restart (if arguments = [] then none
          else some ((Fault.mk (.runArgumentsIgnored k) span).diagnostic.atLine line))) s.machine
  /-- A direct statement begins a run at a line. -/
  | launchAt {span target n m} (hline : line = none) (hmode : s.mode ≠ .paused)
      (hn : target.eval s.machine = .ok n m) (hstored : s.listing.IsTarget n) :
      Does line s (.goto span target) (.launch [] n.toNatClampNeg) m
  /-- A direct statement begins a run at the first line, with values for `INPUT`. -/
  | launch {span arguments first queue m} (hline : line = none) (hmode : s.mode ≠ .paused)
      (hfirst : s.listing.first? = some first)
      (hqueue : evalAll arguments s.machine = .ok queue m) :
      Does line s (.run span arguments) (.launch queue first) m

end Engine

/-- Whether a code says that a statement cannot be carried out as the engine stands. -/
def Code.concernsState : Code → Bool
  | useContinue | listOrder | listRange | invalidReturnAddress | stackOverflow | noProgram => true
  | _ => false

namespace Engine

variable {α β : Type} {s t : Engine γ} {line : Option Nat} [RandomSource γ]

/-- Why a statement that is no `IF` fails. -/
inductive Balks (s : Engine γ) (statement : Statement) (fault : Fault) : Prop where
  /-- An expression has no value. -/
  | value (hcode : fault.cause.code.concernsValues)
  /-- The target of a jump is not the number of a line. -/
  | target {word target n m} (hjump : statement.jump? = some (word, target))
      (hn : target.eval s.machine = .ok n m) (hstored : ¬ s.listing.IsTarget n)
      (hcause : fault.cause = .undefinedLine word n)
  /-- There is no subroutine to return from. -/
  | ret {span} (hret : statement = .ret span) (hcalls : s.calls.isEmpty)
      (hcause : fault.cause = .returnWithoutGosub)
  /-- It cannot be carried out as the engine stands. -/
  | state (hcode : fault.cause.code.concernsState)

/-- What carrying out a statement that is no `IF` comes to. -/
inductive Performed (line : Option Nat) (s : Engine γ) (statement : Statement) :
    EStateM.Result Fault (Engine γ) Unit → Prop where
  | done {effect m} (hdoes : Does line s statement effect m) :
      Performed line s statement (.ok () (effect.apply line { s with machine := m }))
  | failed {fault m} (hbalks : Balks s statement fault) :
      Performed line s statement (.error fault { s with machine := m })

/-- The two ways in which a statement that is no `IF` ends. -/
theorem performed_iff {statement : Statement} {r : EStateM.Result Fault (Engine γ) Unit} :
    Performed line s statement r ↔
      Ends (fun _ t => ∃ effect m, Does line s statement effect m ∧
          t = effect.apply line { s with machine := m })
        (fun fault t => Balks s statement fault ∧ ∃ m, t = { s with machine := m }) r := by
  constructor
  · rintro (⟨hdoes⟩ | ⟨hbalks⟩)
    · exact ⟨_, _, hdoes, rfl⟩
    · exact ⟨hbalks, _, rfl⟩
  · intro h
    cases r with
    | ok u t =>
      obtain ⟨effect, m, hdoes, rfl⟩ := h
      exact .done hdoes
    | error fault t =>
      obtain ⟨hbalks, m, rfl⟩ := h
      exact .failed hbalks

/-! ### The statements, one by one -/

/-- A `LIST` ends with the texts of lines, or fails for its bounds or their values. -/
theorem ends_listed {F : Fault → Engine γ → Prop} {span : Span} {extent : Extent}
    (hF : ∀ (fault : Fault) m, fault.cause.code.concernsValues ∨ fault.cause.code.concernsState →
      F fault { s with machine := m }) :
    Ends (fun _ t => ∃ m, t = { s with machine := m }) F (listed span extent s) := by
  have hvalue : ∀ (e : Expr) (m : Machine γ) fault m', e.eval m = .error fault m' →
      F fault { s with machine := m' } :=
    fun e m fault m' h => hF fault m' (.inl (Expr.eval_error h))
  have hbounds : ∀ (low high : Int16) (m : Machine γ),
      Ends (fun _ t => t = { s with machine := m }) F
        (checkBounds span low high { s with machine := m }) := by
    intro low high m
    unfold checkBounds
    dsimp only
    split
    next => exact hF ⟨.listOrder low high, span⟩ m (.inr rfl)
    next =>
      split
      next => exact hF ⟨.listRange low high, span⟩ m (.inr rfl)
      next => rfl
  cases extent with
  | whole => exact ⟨s.machine, rfl⟩
  | onward low =>
    refine ends_bind (ends_evaluating (hvalue low _)) ?_
    rintro a _ ⟨m, -, rfl⟩
    refine ends_bind (hbounds a _ m) ?_
    rintro _ _ rfl
    refine ends_get ?_
    cases { s with machine := m }.listing.get? a.toNatClampNeg with
    | some line => exact ⟨m, rfl⟩
    | none => exact ⟨m, rfl⟩
  | between low high =>
    refine ends_bind (ends_evaluating (hvalue low _)) ?_
    rintro a _ ⟨m, -, rfl⟩
    refine ends_bind (ends_evaluating (hvalue high _)) ?_
    rintro b _ ⟨m', -, rfl⟩
    refine ends_bind (hbounds a b m') ?_
    rintro _ _ rfl
    exact ⟨m', rfl⟩

/-- An expression without a value is a reason to fail. -/
theorem balks_of_error {statement : Statement} {x : Evaluation γ α}
    (hx : ∀ {fault : Fault} {m m' : Machine γ}, x m = .error fault m' →
      fault.cause.code.concernsValues)
    (fault : Fault) (m : Machine γ) (h : x s.machine = .error fault m) :
    Balks s statement fault ∧ ∃ m', { s with machine := m } = { s with machine := m' } :=
  ⟨.value (hx h), m, rfl⟩

/-- A jump finds the stored line that its target denotes, or balks. -/
theorem ends_target {statement : Statement} {word : Keyword} {target : Expr}
    (hjump : statement.jump? = some (word, target)) :
    Ends (fun k t => ∃ n m, target.eval s.machine = .ok n m ∧ s.listing.IsTarget n ∧
      k = n.toNatClampNeg ∧ t = { s with machine := m })
      (fun fault t => Balks s statement fault ∧ ∃ m, t = { s with machine := m })
      (resolve word target s) :=
  ends_resolve (balks_of_error Expr.eval_error) fun _ _ m hn hstored hcause =>
    ⟨.target hjump hn hstored hcause, m, rfl⟩

/-- **Statements that are no `IF`s.**  Each has its effect, or fails for one of a few reasons and
    has changed nothing but the machine. -/
theorem execute_performed {statement : Statement} (hcond : statement.isCond = false)
    (line : Option Nat) (s : Engine γ) : Performed line s statement (execute line statement s) := by
  refine performed_iff.2 ?_
  have hstate : ∀ fault : Fault, fault.cause.code.concernsState →
      Balks s statement fault ∧ ∃ m, s = { s with machine := m } :=
    fun fault h => ⟨.state h, s.machine, rfl⟩
  have hpaused : ∀ fault : Fault, fault.cause = .useContinue →
      Balks s statement fault ∧ ∃ m, s = { s with machine := m } :=
    fun fault h => hstate fault (by rw [h]; rfl)
  cases statement with
  | cond => cases hcond
  | remark => exact ⟨_, _, .remark, rfl⟩
  | input => exact ⟨_, _, .input, rfl⟩
  | clear => exact ⟨_, _, .clear, rfl⟩
  | halt => exact ⟨_, _, .halt, rfl⟩
  | assign span target value =>
    refine ends_bind (ends_evaluating (balks_of_error Expr.eval_error)) ?_
    rintro n _ ⟨m, hn, rfl⟩
    exact ⟨_, m, .assign hn, rfl⟩
  | print span items =>
    refine ends_bind (ends_evaluating (balks_of_error printed_error)) ?_
    rintro text _ ⟨m, htext, rfl⟩
    exact ⟨_, m, .print htext, rfl⟩
  | list span extent =>
    refine ends_bind (ends_self (ends_listed fun fault m h => ⟨h.elim .value .state, m, rfl⟩)) ?_
    rintro text _ ⟨htext, m, rfl⟩
    exact ⟨_, m, .list htext, rfl⟩
  | goto span target =>
    refine ends_bind (ends_guardPaused hpaused) ?_
    rintro _ _ ⟨hmode, rfl⟩
    refine ends_bind (ends_target rfl) ?_
    rintro _ _ ⟨n, m, hn, hstored, rfl, rfl⟩
    cases line with
    | some k => exact ⟨_, m, .goto rfl hn hstored, rfl⟩
    | none => exact ⟨_, m, .launchAt rfl (hmode rfl) hn hstored, rfl⟩
  | gosub span target =>
    refine ends_bind (ends_guardPaused hpaused) ?_
    rintro _ _ ⟨hmode, rfl⟩
    refine ends_bind (ends_target rfl) ?_
    rintro _ _ ⟨n, m, hn, hstored, rfl, rfl⟩
    refine ends_get ?_
    cases hback : line.bind s.listing.nextAfter? with
    | none => exact ⟨.state rfl, m, rfl⟩
    | some back =>
      obtain ⟨k, hline, hback⟩ := Option.bind_eq_some_iff.1 hback
      dsimp only
      cases hcalls : s.calls.push back with
      | error cause =>
        obtain rfl := CallStack.push_error hcalls
        exact ⟨.state rfl, m, rfl⟩
      | ok calls => exact ⟨_, m, .gosub hline hn hstored hback hcalls, rfl⟩
  | ret span =>
    refine ends_bind (ends_guardPaused hpaused) ?_
    rintro _ _ ⟨hmode, rfl⟩
    refine ends_get ?_
    cases hcalls : s.calls.pop with
    | error cause =>
      obtain rfl := CallStack.pop_error hcalls
      exact ⟨.ret rfl (CallStack.isEmpty_of_pop_error hcalls) rfl, s.machine, rfl⟩
    | ok top => exact ⟨_, s.machine, .ret hmode hcalls, rfl⟩
  | run span arguments =>
    refine ends_bind (ends_guardPaused hpaused) ?_
    rintro _ _ ⟨hmode, rfl⟩
    cases line with
    | some k =>
      refine ⟨_, s.machine, .restart rfl, ?_⟩
      by_cases ha : arguments = []
      · simp only [ha, if_pos]
        rfl
      · simp only [ha, if_false]
        rfl
    | none =>
      refine ends_get ?_
      cases hfirst : s.listing.first? with
      | none => exact ⟨.state rfl, s.machine, rfl⟩
      | some first =>
        refine ends_bind (ends_evaluating (balks_of_error evalAll_error)) ?_
        rintro queue _ ⟨m, hqueue, rfl⟩
        exact ⟨_, m, .launch rfl (hmode rfl) hfirst hqueue, rfl⟩

/-! ### Statements inside `IF`s -/

omit [RandomSource γ] in
/-- Evaluating on an engine has the value that it has on the machine. -/
theorem evaluating_ok {x : Evaluation γ α} {a : α} {m : Machine γ} (h : x s.machine = .ok a m) :
    evaluating x s = .ok a { s with machine := m } := by
  simp only [evaluating, h]

omit [RandomSource γ] in
/-- Evaluating on an engine has the fault that it has on the machine. -/
theorem evaluating_error {x : Evaluation γ α} {fault : Fault} {m : Machine γ}
    (h : x s.machine = .error fault m) : evaluating x s = .error fault { s with machine := m } := by
  simp only [evaluating, h]

omit [RandomSource γ] in
/-- An expression has a value on an engine exactly if it has it on the machine. -/
theorem evaluating_eq_ok_iff {x : Evaluation γ α} {a : α} :
    evaluating x s = .ok a t ↔ ∃ m, x s.machine = .ok a m ∧ t = { s with machine := m } := by
  unfold evaluating
  cases x s.machine with
  | ok b m => simp [eq_comm, and_assoc]
  | error fault m => simp

omit [RandomSource γ] in
/-- An expression has a fault on an engine exactly if it has it on the machine. -/
theorem evaluating_eq_error_iff {x : Evaluation γ α} {fault : Fault} :
    evaluating x s = .error fault t ↔
      ∃ m, x s.machine = .error fault m ∧ t = { s with machine := m } := by
  unfold evaluating
  cases x s.machine with
  | ok a m => simp
  | error fault' m => simp [eq_comm, and_assoc]

omit [RandomSource γ] in
/-- Only direct statements are kept from a run that is suspended. -/
theorem guardPaused_ok (span : Span) (h : line = none → s.mode ≠ .paused) :
    guardPaused span line s = .ok () s := by
  unfold guardPaused
  rw [get_bind, if_neg (by simpa using h)]
  rfl

omit [RandomSource γ] in
/-- The statement of a line is never refused for a suspended run. -/
theorem guardPaused_line (span : Span) (k : Nat) : guardPaused span (some k) s = .ok () s :=
  guardPaused_ok span nofun

/-- What an `IF` whose two sides have values comes to. -/
theorem execute_cond {span : Span} {lhs rhs : Expr} {relation : Relation} {body : Statement}
    {a b : Int16} {m m' : Machine γ} (ha : lhs.eval s.machine = .ok a m)
    (hb : rhs.eval m = .ok b m') :
    execute line (.cond span lhs relation rhs body) s =
      if relation.holds a b then execute line body { s with machine := m' }
      else .ok () { s with machine := m' } :=
  calc execute line (.cond span lhs relation rhs body) s
      = (if relation.holds a b then execute line body else pure ()) { s with machine := m' } :=
        (bind_of_ok (evaluating_ok ha)).trans (bind_of_ok (evaluating_ok hb))
    _ = if relation.holds a b then execute line body { s with machine := m' }
        else .ok () { s with machine := m' } := by split <;> rfl

/-- A statement inside `IF`s whose conditions hold is carried out on what the conditions leave. -/
theorem execute_comesTo {statement body : Statement} {m : Machine γ}
    (h : statement.comesTo? s.machine = some (body, m)) :
    execute line statement s = execute line body { s with machine := m } := by
  -- The conditions leave another machine for each `IF` further in, so the induction is for any
  -- engine.
  induction statement generalizing s with
  | cond _ lhs relation rhs inner ih =>
    cases ha : lhs.eval s.machine with
    | error fault m₁ => simp [Statement.comesTo?, ha] at h
    | ok a m₁ =>
      cases hb : rhs.eval m₁ with
      | error fault m₂ => simp [Statement.comesTo?, ha, hb] at h
      | ok b m₂ =>
        rw [Statement.comesTo?_cond ha hb] at h
        rw [execute_cond ha hb]
        split at h
        next hholds =>
          rw [if_pos hholds]
          exact ih h
        next => cases h
  | _ => cases h; rfl

/-- A statement inside `IF`s whose conditions do not all hold is not carried out.  The `IF`s fail
    only for want of a value. -/
theorem execute_skipped {statement : Statement} (line : Option Nat)
    (h : statement.comesTo? s.machine = none) :
    Ends (fun _ t => ∃ m, t = { s with machine := m })
      (fun fault t => fault.cause.code.concernsValues ∧ ∃ m, t = { s with machine := m })
      (execute line statement s) := by
  induction statement generalizing s with
  -- The sides are evaluated even of an `IF` that is skipped, which is why the machine may differ.
  | cond _ lhs relation rhs inner ih =>
    cases ha : lhs.eval s.machine with
    | error fault m₁ =>
      rw [execute, bind_of_error (evaluating_error ha)]
      exact ⟨Expr.eval_error ha, m₁, rfl⟩
    | ok a m₁ =>
      cases hb : rhs.eval m₁ with
      | error fault m₂ =>
        rw [execute, bind_of_ok (evaluating_ok ha), bind_of_error (evaluating_error hb)]
        exact ⟨Expr.eval_error hb, m₂, rfl⟩
      | ok b m₂ =>
        rw [Statement.comesTo?_cond ha hb] at h
        rw [execute_cond ha hb]
        split at h
        next hholds =>
          rw [if_pos hholds]
          exact ih h
        next hholds =>
          rw [if_neg hholds]
          exact ⟨m₂, rfl⟩
  | _ => cases h

/-! ### Any statement -/

/-- What any statement comes to, by what is inside its `IF`s. -/
theorem execute_ends (line : Option Nat) (statement : Statement) (s : Engine γ) :
    Ends
      (fun _ t => (statement.comesTo? s.machine = none ∧ ∃ m, t = { s with machine := m }) ∨
        ∃ body m effect m', statement.comesTo? s.machine = some (body, m) ∧
          Does line { s with machine := m } body effect m' ∧
          t = effect.apply line { s with machine := m' })
      (fun fault t => (∃ m, t = { s with machine := m }) ∧
        (fault.cause.code.concernsValues ∨ ∃ body m, statement.comesTo? s.machine = some (body, m) ∧
          Balks { s with machine := m } body fault))
      (execute line statement s) := by
  -- Only if all conditions hold is there a statement whose turn it is.
  cases hcomes : statement.comesTo? s.machine with
  | none =>
    refine ends_mono (fun _ t h => ?_) (fun fault t h => ?_) (execute_skipped line hcomes)
    · exact .inl ⟨rfl, h⟩
    · exact ⟨h.2, .inl h.1⟩
  | some come =>
    obtain ⟨body, m⟩ := come
    have hperformed :=
      execute_performed (Statement.isCond_of_comesTo? hcomes) line { s with machine := m }
    rw [execute_comesTo hcomes]
    refine ends_mono (fun _ t h => ?_) (fun fault t h => ?_) (performed_iff.1 hperformed)
    · obtain ⟨effect, m', hdoes, ht⟩ := h
      exact .inr ⟨body, m, effect, m', rfl, hdoes, ht⟩
    · exact ⟨h.2, .inr ⟨body, m, rfl, h.1⟩⟩

/-- **Statements that succeed.**  A condition did not hold, or the statement inside all `IF`s has
    had its effect. -/
theorem execute_ok {statement : Statement} {u : Unit} (h : execute line statement s = .ok u t) :
    (statement.comesTo? s.machine = none ∧ ∃ m, t = { s with machine := m }) ∨
      ∃ body m effect m', statement.comesTo? s.machine = some (body, m) ∧
        Does line { s with machine := m } body effect m' ∧
        t = effect.apply line { s with machine := m' } := by
  have hends := execute_ends line statement s
  rw [h] at hends
  exact hends

/-- **Statements that fail.**  An expression had no value, or there was a reason for the statement
    inside all `IF`s to fail. -/
theorem execute_error {statement : Statement} {fault : Fault}
    (h : execute line statement s = .error fault t) :
    (∃ m, t = { s with machine := m }) ∧
      (fault.cause.code.concernsValues ∨ ∃ body m, statement.comesTo? s.machine = some (body, m) ∧
        Balks { s with machine := m } body fault) := by
  have hends := execute_ends line statement s
  rw [h] at hends
  exact hends

end Engine

end LineBasic
