import LineBasic.Engine.Execute
import LineBasic.Proofs.Engine.State
import LineBasic.Proofs.Stores

namespace LineBasic.Engine

/-!
# Effects of statements

What a statement does to the engine is settled by the machine and by three things that it can see of
the engine: the program, the open subroutines, and whether a run is suspended.

* `View` -- what a statement can see;
* `Effect`, `Effect.apply` -- the things a statement can do once its expressions have their values;
* `Effect.Fits` -- which of them it can do on behalf of a line, or of none;
* `execute_uniform` -- for each machine and view there is one outcome, and carrying the statement
  out on any engine with that machine and view brings about that outcome.
-/

variable {γ : Type}

/-- What a statement can see of the engine besides the machine. -/
structure View where
  /-- The stored program. -/
  listing : Listing
  /-- The open subroutines. -/
  calls : CallStack
  /-- Whether a run is suspended. -/
  suspended : Bool

/-- What statements can see of an engine. -/
def view (s : Engine γ) : View := ⟨s.listing, s.calls, s.mode = .paused⟩

/-- What a statement does once its expressions have their values. -/
inductive Effect where
  /-- Nothing. -/
  | nothing
  /-- Gives a variable a value. -/
  | assign (x : Letter) (n : Int16)
  /-- Writes a text. -/
  | write (text : String)
  /-- Takes values for variables, or asks for them. -/
  | ask (xs : List Letter)
  /-- Removes the program and ends the run. -/
  | clear
  /-- Ends the run. -/
  | halt
  /-- Goes to a line, with these subroutines open. -/
  | jump (calls : CallStack) (n : Nat)
  /-- Begins the program again, perhaps with a warning. -/
  | restart (warning : Option Diagnostic)
  /-- Begins a run at a line, with values for `INPUT`. -/
  | launch (queue : List Int16) (n : Nat)

/-- A run that begins again, with no subroutine open and without the values of `RUN`. -/
def rewind (s : Engine γ) : Engine γ :=
  let s := { s with calls := .empty }.dropQueue
  { s with branch := s.listing.first? }

/-- Beginning again as one change. -/
theorem rewind_eq (s : Engine γ) :
    s.rewind = { s with
      calls := .empty, queue := [], transcript := s.dropNotice, branch := s.listing.first? } := by
  unfold rewind
  rw [dropQueue_eq]
  rfl

namespace Effect

/-- The engine after an effect of a statement that is carried out on behalf of a line, or of
    none. -/
def apply (line : Option Nat) (s : Engine γ) : Effect → Engine γ
  | nothing => s
  | assign x n => s.assign x n
  | write text => s.emit (.output text)
  | ask xs => Engine.ask line s xs
  | clear => s.wipe.stop
  | halt => s.stop
  | jump calls n => { s with calls, branch := some n }
  | restart warning =>
    let s := warning.elim s fun d => s.emit (.notice d)
    s.rewind
  | launch queue n => { s with queue }.startRun n

/-- The effects that a statement can have: jumps go to stored lines or back to the line on top of
    the call stack, only a program line can call or begin again, and only a direct statement begins
    a run. -/
def Fits (line : Option Nat) (v : View) : Effect → Prop
  | jump calls n =>
    (v.suspended = true → line.isSome) ∧
      ((line.isSome ∧ v.listing.contains n ∧
          (calls = v.calls ∨
            ∃ back, line.bind v.listing.nextAfter? = some back ∧ v.calls.push back = .ok calls)) ∨
        v.calls.pop = .ok (n, calls))
  | restart _ => line.isSome
  | launch _ n => line = none ∧ v.suspended = false ∧ v.listing.contains n
  | _ => True

end Effect

/-- The result of carrying out a statement, from its outcome and the machine it leaves. -/
def settle (line : Option Nat) (outcome : Except Fault Effect) (machine : Machine γ)
    (s : Engine γ) :
    EStateM.Result Fault (Engine γ) Unit :=
  match outcome with
  | .ok effect => .ok () (effect.apply line { s with machine })
  | .error fault => .error fault { s with machine }

/-- What `settle` makes of an effect that fits. -/
def Fitting (line : Option Nat) (v : View) : Except Fault Effect → Prop
  | .ok effect => effect.Fits line v
  | .error _ => True

/-! ### Computations that only the machine and the view settle -/

/-- A computation that changes nothing but the machine, and whose value, of which `P` holds, is the
    same on all engines with a machine and a view. -/
def Settled {α : Type} (v : View) (m : Machine γ) (x : Execution γ α) (P : α → Prop) : Prop :=
  ∃ (r : Except Fault α) (m' : Machine γ), (∀ a, r = .ok a → P a) ∧
    ∀ s : Engine γ, s.view = v → s.machine = m →
      x s = match r with
        | .ok a => .ok a { s with machine := m' }
        | .error fault => .error fault { s with machine := m' }

/-- The outcome of a statement is the same on all engines with a machine and a view. -/
def Uniform (line : Option Nat) (v : View) (m : Machine γ) (x : Execution γ Unit) : Prop :=
  ∃ outcome m', Fitting line v outcome ∧
    ∀ s : Engine γ, s.view = v → s.machine = m → x s = settle line outcome m' s

variable {line : Option Nat} {v : View} {m : Machine γ} {α β : Type}

/-- A mere value is settled. -/
theorem settled_pure {P : α → Prop} {a : α} (ha : P a) : Settled v m (pure a) P :=
  ⟨.ok a, m, fun _ h => by cases h; exact ha, fun s _ hm => by subst hm; rfl⟩

/-- A failure is settled. -/
theorem settled_throw {P : α → Prop} (fault : Fault) : Settled v m (throw fault) P :=
  ⟨.error fault, m, by simp, fun s _ hm => by subst hm; rfl⟩

/-- What is evaluated is settled by the machine. -/
theorem settled_evaluating (x : Evaluation γ α) : Settled v m (evaluating x) fun _ => True := by
  cases hx : x m with
  | ok a m' =>
    exact ⟨.ok a, m', fun _ _ => trivial, fun s _ hm => by simp only [evaluating, hm, hx]⟩
  | error fault m' =>
    exact ⟨.error fault, m', fun _ _ => trivial, fun s _ hm => by simp only [evaluating, hm, hx]⟩

/-- Looking at the engine shows no more than the view, where no more is used. -/
theorem settled_get {P : α → Prop} {k : Engine γ → Execution γ α} {x : Execution γ α}
    (hk : ∀ s : Engine γ, s.view = v → k s = x) (hx : Settled v m x P) :
    Settled v m (get >>= k) P := by
  obtain ⟨r, m', hP, h⟩ := hx
  refine ⟨r, m', hP, fun s hv hm => ?_⟩
  show k s s = _
  rw [hk s hv]
  exact h s hv hm

/-- Settled computations are settled one after the other, the second by the machine that the first
    leaves. -/
theorem settled_bind {P : α → Prop} {Q : β → Prop} {x : Execution γ α} {k : α → Execution γ β}
    (hx : Settled v m x P) (hk : ∀ a m', P a → Settled v m' (k a) Q) :
    Settled v m (x >>= k) Q := by
  obtain ⟨r, m', hP, h⟩ := hx
  cases r with
  | ok a =>
    -- Only the machine has changed, so the rest still sees the same view.
    obtain ⟨r', m'', hQ, h'⟩ := hk a m' (hP a rfl)
    refine ⟨r', m'', hQ, fun s hv hm => ?_⟩
    show EStateM.bind x k s = _
    simp only [EStateM.bind, h s hv hm]
    rw [h' { s with machine := m' } hv rfl]
  | error fault =>
    refine ⟨.error fault, m', by simp, fun s hv hm => ?_⟩
    show EStateM.bind x k s = _
    simp only [EStateM.bind, h s hv hm]

/-- What is uniform after a settled computation is uniform with it. -/
theorem uniform_bind {P : α → Prop} {x : Execution γ α} {k : α → Execution γ Unit}
    (hx : Settled v m x P) (hk : ∀ a m', P a → Uniform line v m' (k a)) :
    Uniform line v m (x >>= k) := by
  obtain ⟨r, m', hP, h⟩ := hx
  cases r with
  | ok a =>
    obtain ⟨outcome, m'', hfit, h'⟩ := hk a m' (hP a rfl)
    refine ⟨outcome, m'', hfit, fun s hv hm => ?_⟩
    show EStateM.bind x k s = _
    simp only [EStateM.bind, h s hv hm]
    rw [h' { s with machine := m' } hv rfl]
    cases outcome <;> rfl
  | error fault =>
    refine ⟨.error fault, m', trivial, fun s hv hm => ?_⟩
    show EStateM.bind x k s = _
    simp only [EStateM.bind, h s hv hm, settle]

/-- A failure that leaves the engine alone. -/
theorem uniform_throw (fault : Fault) : Uniform line v m (throw fault) :=
  ⟨.error fault, m, trivial, fun s _ hm => by subst hm; rfl⟩

/-- A change of the engine that is an effect. -/
theorem uniform_effect {x : Execution γ Unit} (effect : Effect) (hfit : effect.Fits line v)
    (h : ∀ s : Engine γ, s.view = v → x s = .ok () (effect.apply line s)) : Uniform line v m x :=
  ⟨.ok effect, m, hfit, fun s hv hm => by subst hm; exact h s hv⟩

/-- After a look at the engine, what follows may use the engine only as far as the view goes. -/
theorem uniform_get {k : Engine γ → Execution γ Unit} {x : Execution γ Unit}
    (hk : ∀ s : Engine γ, s.view = v → k s s = x s) (hx : Uniform line v m x) :
    Uniform line v m (get >>= k) := by
  obtain ⟨outcome, m', hfit, h⟩ := hx
  refine ⟨outcome, m', hfit, fun s hv hm => ?_⟩
  show k s s = _
  rw [hk s hv, h s hv hm]

/-! ### The statements, one by one -/

/-- Whether a direct statement is refused is settled by whether a run is suspended. -/
theorem settled_guardPaused (span : Span) :
    Settled v m (guardPaused span line) fun _ => v.suspended = true → line.isSome := by
  refine settled_get
    (x := if line.isNone && v.suspended then throw ⟨.useContinue, span⟩ else pure ()) ?_ ?_
  · rintro s rfl
    rfl
  · split
    · exact settled_throw _
    · refine settled_pure fun hs => ?_
      cases line <;> simp_all

/-- Whether bounds are refused is settled by the bounds. -/
theorem settled_checkBounds (span : Span) (low high : Int16) :
    Settled v m (checkBounds span low high) fun _ => True := by
  unfold checkBounds
  dsimp only
  split
  · exact settled_bind (P := fun _ => True) (settled_throw _) fun _ m' _ => by
      split
      · exact settled_throw _
      · exact settled_pure trivial
  · split
    · exact settled_throw _
    · exact settled_pure trivial

variable [RandomSource γ]

/-- The line that a target names is settled, and it is a stored one. -/
theorem settled_resolve (word : Keyword) (target : Expr) :
    Settled v m (resolve word target) fun n => v.listing.contains n := by
  refine settled_bind (settled_evaluating _) fun n m' _ => ?_
  refine settled_get
    (x := if 1 ≤ n && v.listing.contains n.toNatClampNeg then pure n.toNatClampNeg
      else throw ⟨.undefinedLine word n, target.span⟩) ?_ ?_
  · rintro s rfl
    rfl
  · split
    next h => exact settled_pure (by simpa using (Bool.and_eq_true _ _ ▸ h).2)
    · exact settled_throw _

/-- What a `LIST` writes is settled by the program and the machine. -/
theorem settled_listed (span : Span) (extent : Extent) :
    Settled v m (listed span extent) fun _ => True := by
  -- What is listed is read off the view, so that the text is fixed before any engine is given.
  cases extent with
  | whole =>
    refine settled_get (x := pure (written (v.listing.range 1 LineNumber.last))) ?_
      (settled_pure trivial)
    rintro s rfl
    rfl
  | onward low =>
    refine settled_bind (settled_evaluating _) fun a m₁ _ => ?_
    refine settled_bind (settled_checkBounds _ _ _) fun _ m₂ _ => ?_
    cases hline : v.listing.get? a.toNatClampNeg with
    | some line =>
      refine settled_get (x := pure (written [line])) ?_ (settled_pure trivial)
      rintro s rfl
      have hline : s.listing.get? a.toNatClampNeg = some line := hline
      simp only [hline]
    | none =>
      refine settled_get (x := pure (written (v.listing.range a.toNatClampNeg LineNumber.last))) ?_
        (settled_pure trivial)
      rintro s rfl
      have hline : s.listing.get? a.toNatClampNeg = none := hline
      simp only [hline]
      rfl
  | between low high =>
    refine settled_bind (settled_evaluating _) fun a m₁ _ => ?_
    refine settled_bind (settled_evaluating _) fun b m₂ _ => ?_
    refine settled_bind (settled_checkBounds _ _ _) fun _ m₃ _ => ?_
    refine settled_get (x := pure (written (v.listing.range a.toNatClampNeg b.toNatClampNeg))) ?_
      (settled_pure trivial)
    rintro s rfl
    rfl

/-- The outcome of a `GOTO` is settled. -/
theorem uniform_goto (span : Span) (target : Expr) :
    Uniform line v m (executeGoto span target line) := by
  refine uniform_bind (settled_guardPaused span) fun _ m₁ hpaused => ?_
  refine uniform_bind (settled_resolve .GOTO target) fun n m₂ hn => ?_
  cases line with
  | some k =>
    refine uniform_effect (.jump v.calls n) ⟨hpaused, .inl ⟨rfl, hn, .inl rfl⟩⟩ ?_
    rintro s rfl
    rfl
  | none =>
    refine uniform_effect (.launch [] n) ⟨rfl, ?_, hn⟩ fun s _ => rfl
    simpa using hpaused

/-- The outcome of a `GOSUB` is settled. -/
theorem uniform_gosub (span : Span) (target : Expr) :
    Uniform line v m (executeGosub span target line) := by
  refine uniform_bind (settled_guardPaused span) fun _ m₁ hpaused => ?_
  refine uniform_bind (settled_resolve .GOSUB target) fun n m₂ hn => ?_
  -- The view has the line to come back to, and whether there is room for it.
  cases hback : line.bind v.listing.nextAfter? with
  | none =>
    refine uniform_get ?_ (uniform_throw ⟨.invalidReturnAddress, span⟩)
    rintro s rfl
    rw [view] at hback
    simp only [hback]
  | some back =>
    have hline : line.isSome := by
      cases line with
      | none => simp at hback
      | some k => rfl
    cases hpush : v.calls.push back with
    | error cause =>
      refine uniform_get ?_ (uniform_throw ⟨cause, span⟩)
      rintro s rfl
      rw [view] at hback hpush
      simp only [hback, hpush]
    | ok calls =>
      refine uniform_get ?_ (uniform_effect (x := modify (Effect.apply line · (.jump calls n)))
        (.jump calls n) ⟨hpaused, .inl ⟨hline, hn, .inr ⟨back, hback, hpush⟩⟩⟩ fun _ _ => rfl)
      rintro s rfl
      rw [view] at hback hpush
      simp only [hback, hpush]
      rfl

/-- The outcome of a `RUN` is settled, on behalf of a line or of none. -/
theorem uniform_run (span : Span) (arguments : List Expr) :
    Uniform line v m (executeRun span arguments line) := by
  refine uniform_bind (settled_guardPaused span) fun _ m₁ hpaused => ?_
  -- A line begins the program again, with a warning if it has arguments; a direct `RUN` needs a
  -- line to begin at.
  cases line with
  | some k =>
    by_cases ha : arguments = []
    · refine uniform_effect (.restart none) rfl fun s _ => ?_
      simp only [ha, if_pos]
      rfl
    · refine uniform_effect
        (.restart (some ((Fault.mk (.runArgumentsIgnored k) span).diagnostic.atLine (some k)))) rfl
        fun s _ => ?_
      simp only [ha, if_false]
      rfl
  | none =>
    cases hfirst : v.listing.first? with
    | none =>
      refine uniform_get ?_ (uniform_throw ⟨.noProgram, span⟩)
      rintro s rfl
      rw [view] at hfirst
      simp only [hfirst]
    | some first =>
      refine uniform_get (x := evaluating (evalAll arguments) >>= fun queue =>
        modify fun s => { s with queue }.startRun first) ?_ ?_
      · rintro s rfl
        rw [view] at hfirst
        simp only [hfirst]
      · refine uniform_bind (settled_evaluating _) fun queue m₂ _ => ?_
        refine uniform_effect (.launch queue first) ⟨rfl, ?_, Listing.contains_first? hfirst⟩
          fun _ _ => rfl
        simpa using hpaused

omit [RandomSource γ] in
/-- The outcome of a `RETURN` is settled by the open subroutines. -/
theorem uniform_return (span : Span) : Uniform (γ := γ) line v m (executeReturn span line) := by
  refine uniform_bind (settled_guardPaused span) fun _ m₁ hpaused => ?_
  cases hpop : v.calls.pop with
  | error cause =>
    refine uniform_get ?_ (uniform_throw ⟨cause, span⟩)
    rintro s rfl
    rw [view] at hpop
    simp only [hpop]
  | ok top =>
    obtain ⟨back, calls⟩ := top
    refine uniform_get ?_ (uniform_effect (x := modify (Effect.apply line · (.jump calls back)))
      (.jump calls back) ⟨hpaused, .inr hpop⟩ fun _ _ => rfl)
    rintro s rfl
    rw [view] at hpop
    simp only [hpop]
    rfl

/-! ### Any statement -/

/-- **Statements are uniform.**  For each machine and view there is one outcome, with an effect that
    fits, and carrying the statement out on any engine with that machine and view brings about that
    outcome. -/
theorem execute_uniform (statement : Statement) (line : Option Nat) (v : View) (m : Machine γ) :
    Uniform line v m (execute line statement) := by
  induction statement generalizing m with
  | clear _ => exact uniform_effect .clear trivial fun _ _ => rfl
  | halt _ => exact uniform_effect .halt trivial fun _ _ => rfl
  | goto span target => exact uniform_goto span target
  | gosub span target => exact uniform_gosub span target
  | ret span => exact uniform_return span
  | cond _ lhs relation rhs body ih =>
    refine uniform_bind (settled_evaluating _) fun a m₁ _ => ?_
    refine uniform_bind (settled_evaluating _) fun b m₂ _ => ?_
    split
    · exact ih m₂
    · exact uniform_effect .nothing trivial fun _ _ => rfl
  | input _ targets => exact uniform_effect (.ask (targets.map Target.name)) trivial fun _ _ => rfl
  | assign _ target value =>
    refine uniform_bind (settled_evaluating _) fun n m₁ _ => ?_
    exact uniform_effect (.assign target.name n) trivial fun _ _ => rfl
  | list span extent =>
    refine uniform_bind (settled_listed span extent) fun text m₁ _ => ?_
    exact uniform_effect (.write text) trivial fun _ _ => rfl
  | print _ items =>
    refine uniform_bind (settled_evaluating _) fun text m₁ _ => ?_
    exact uniform_effect (.write text) trivial fun _ _ => rfl
  | remark _ _ => exact uniform_effect .nothing trivial fun _ _ => rfl
  | run span arguments => exact uniform_run span arguments

end LineBasic.Engine
