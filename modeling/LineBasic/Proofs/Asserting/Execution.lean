import LineBasic.Engine.Execute
import LineBasic.Proofs.Asserting.Evaluation
import LineBasic.Proofs.Engine.Listed

namespace LineBasic

open Engine

/-!
# Statements with assertions

An engine keeps the variables that an `INPUT` still has to give values to.  Here all variables of
the `INPUT` are kept, with the number of those that have their values, so that it can be checked
that no variable is looked up that is not there.

* `Question` -- the variables of an `INPUT` and how many have their values;
* `Watched`, `Watched.Watches` -- an engine with the question that is pending;
* `execute` -- carries out a statement;
* `execute_follows` -- no check fails, and the engine becomes what it becomes without checks.
-/

namespace Asserting

/-! ### Questions -/

/-- The variables of an `INPUT`, some of which have got their values. -/
structure Question where
  /-- All variables, also those that have their values. -/
  names : List Letter
  /-- How many have their values. -/
  answered : Nat
  /-- The program line of the `INPUT`; a direct one has none. -/
  line : Option Nat

/-- What is still asked for. -/
def Question.inquiry (q : Question) : Inquiry := ⟨q.names.drop q.answered, q.line⟩

/-- The question in words.  It begins behind the variables that have their values, and names at
    least one. -/
def Question.prompt (q : Question) : Asserting String := do
  insist (q.answered ≤ q.names.length) .pastVariables
  let asked := (q.names.drop q.answered).map Letter.name
  insist (asked ≠ []) .emptyQuestion
  return "[" ++ ",".intercalate asked ++ "]? "

/-- The variable that an answer is for. -/
def Question.next (q : Question) : Asserting Letter :=
  match q.names[q.answered]? with
  | some x => .ok x
  | none => .error .pastVariables

/-- Whether a question names at least one variable. -/
abbrev Question.Open (q : Question) : Prop := q.answered < q.names.length

/-- An open question can be put in words, and in those that the library puts it in. -/
theorem Question.Open.prompt_eq {q : Question} (h : q.Open) : q.prompt = .ok q.inquiry.prompt := by
  have hne : (q.names.drop q.answered).map Letter.name ≠ [] := by
    simpa [List.drop_eq_nil_iff, Open] using h
  unfold prompt
  rw [insist_of (Nat.le_of_lt h)]
  show (do insist _ _; return _) = _
  rw [insist_of hne]
  rfl

/-- The variable that an open question asks for next is in its list. -/
theorem Question.Open.next_eq {q : Question} (h : q.Open) : q.next = .ok q.names[q.answered] := by
  rw [next, List.getElem?_eq_getElem h]

/-! ### Engines under watch -/

variable {γ : Type}

/-- An engine, and the question that is pending. -/
structure Watched (γ : Type) where
  /-- The engine. -/
  engine : Engine γ
  /-- The question. -/
  question : Option Question

namespace Watched

/-- What has nothing to do with the question. -/
def change (w : Watched γ) (f : Engine γ → Engine γ) : Watched γ := { w with engine := f w.engine }

/-- What puts an end to the question. -/
def clear (w : Watched γ) (f : Engine γ → Engine γ) : Watched γ := ⟨f w.engine, none⟩

/-- Asks a question. -/
def pose (w : Watched γ) (q : Question) : Watched γ :=
  ⟨{ w.engine with pending := some q.inquiry }, some q⟩

/-- Whether a watched engine is a given one, and its question the one that is pending there. -/
structure Watches (w : Watched γ) (s : Engine γ) : Prop where
  engine : w.engine = s
  pending : s.pending = w.question.map Question.inquiry
  isOpen : ∀ q ∈ w.question, q.Open

variable {w : Watched γ} {s : Engine γ}

/-- A change that leaves the pending question alone can be made on both sides. -/
theorem Watches.change (h : w.Watches s) (f : Engine γ → Engine γ)
    (hf : (f s).pending = s.pending) :
    (w.change f).Watches (f s) where
  engine := congrArg f h.engine
  pending := hf.trans h.pending
  isOpen := h.isOpen

/-- A change that drops the pending question can be made on both sides. -/
theorem Watches.clear (h : w.Watches s) (f : Engine γ → Engine γ) (hf : (f s).pending = none) :
    (w.clear f).Watches (f s) where
  engine := congrArg f h.engine
  pending := hf
  isOpen := by simp [Watched.clear]

/-- An open question can be asked on both sides. -/
theorem Watches.pose (h : w.Watches s) {q : Question} (hq : q.Open) :
    (w.pose q).Watches { s with pending := some q.inquiry } where
  engine := by rw [Watched.pose, h.engine]
  pending := rfl
  isOpen := by simpa [Watched.pose] using hq

end Watched

open Watched

/-! ### Statements -/

/-- Evaluates something on the machine of the engine. -/
def evaluating {α : Type} (g : Trial (Machine γ) α) : Trial (Watched γ) α := fun w => do
  let (outcome, machine) ← g w.engine.machine
  return (outcome, w.change fun s => { s with machine })

/-- Refuses a direct statement that would disturb a suspended run. -/
def guardPaused (span : Span) (line : Option Nat) : Trial (Watched γ) Unit := do
  let w ← get
  if line.isNone && w.engine.mode = .paused then throw (← Cause.useContinue.reportAt span)

/-- The lines of a program between two numbers, of which the second is not the smaller one. -/
def range (p : Listing) (low high : Nat) : Asserting (List Line) := do
  insist (low ≤ high) .invertedRange
  return p.range low high

/-- Fails unless two values are bounds that `LIST` can have. -/
def checkBounds (span : Span) (low high : Int16) : Trial (Watched γ) Unit := do
  if high < low then throw (← (Cause.listOrder low high).reportAt span)
  if low < 1 || high < 1 then throw (← (Cause.listRange low high).reportAt span)

variable [RandomSource γ]

/-- The stored line that an expression denotes as the target of a jump. -/
def resolve (word : Keyword) (target : Expr) : Trial (Watched γ) Nat := do
  let n ← evaluating (eval target)
  let w ← get
  if 1 ≤ n && w.engine.listing.contains n.toNatClampNeg then return n.toNatClampNeg
  else throw (← (Cause.undefinedLine word n).reportAt target.span)

/-- The text that `LIST` writes. -/
def listed (span : Span) (extent : Extent) : Trial (Watched γ) String := do
  match extent with
  | .whole => return written (← range (← get).engine.listing 1 LineNumber.last)
  | .onward low =>
    let low ← evaluating (eval low)
    checkBounds span low (.ofNat LineNumber.last)
    let p := (← get).engine.listing
    match p.get? low.toNatClampNeg with
    | some line => return written [line]
    | none => return written (← range p low.toNatClampNeg LineNumber.last)
  | .between low high =>
    let low ← evaluating (eval low)
    let high ← evaluating (eval high)
    checkBounds span low high
    return written (← range (← get).engine.listing low.toNatClampNeg high.toNatClampNeg)

omit [RandomSource γ] in
/-- Gives the variables of a question their values from the values of `RUN`, and asks for those that
    are left over. -/
def ask (q : Question) (w : Watched γ) : Asserting (Watched γ) := do
  if q.answered < q.names.length then
    match w.engine.queue with
    | [] => return w.pose q
    | n :: queue =>
      let x ← q.next
      ask { q with answered := q.answered + 1 } (w.change fun s => { s with queue }.assign x n)
  else return w
termination_by q.names.length - q.answered

omit [RandomSource γ] in
/-- Carries out `INPUT`. -/
def executeInput (targets : List Target) (line : Option Nat) : Trial (Watched γ) Unit := fun w => do
  let w ← ask ⟨targets.map Target.name, 0, line⟩ w
  return (.ok (), w)

/-- Carries out `GOTO`. -/
def executeGoto (span : Span) (target : Expr) (line : Option Nat) : Trial (Watched γ) Unit := do
  guardPaused span line
  let n ← resolve .GOTO target
  match line with
  | some _ => modify (·.change fun s => { s with branch := some n })
  | none => modify (·.change fun s => { s with queue := [] }.startRun n)

/-- Carries out `GOSUB`.  A stack that is full is reported without a place. -/
def executeGosub (span : Span) (target : Expr) (line : Option Nat) : Trial (Watched γ) Unit := do
  guardPaused span line
  let n ← resolve .GOSUB target
  match line.bind (← get).engine.listing.nextAfter? with
  | none => throw (← Cause.invalidReturnAddress.reportAt span)
  | some back =>
    located span <| performing fun w =>
      (w.engine.calls.push back).map fun calls =>
        ((), w.change fun s => { s with calls, branch := some n })

omit [RandomSource γ] in
/-- Carries out `RETURN`.  A stack that is empty is reported without a place. -/
def executeReturn (span : Span) (line : Option Nat) : Trial (Watched γ) Unit := do
  guardPaused span line
  located span <| performing fun w =>
    w.engine.calls.pop.map fun (back, calls) =>
      ((), w.change fun s => { s with calls, branch := some back })

/-- Carries out `RUN`.  The warning of a program that runs itself is told its line and then its
    columns. -/
def executeRun (span : Span) (arguments : List Expr) (line : Option Nat) :
    Trial (Watched γ) Unit := do
  guardPaused span line
  match line with
  | some n =>
    if arguments ≠ [] then
      let d ← (Cause.runArgumentsIgnored n).diagnostic.giveLine line
      let d ← d.giveColumn span
      modify (·.change (·.emit (.notice d)))
    modify (·.change rewind)
  | none =>
    match (← get).engine.listing.first? with
    | none => throw (← Cause.noProgram.reportAt span)
    | some first =>
      let queue ← evaluating (evalAll arguments)
      modify (·.change fun s => { s with queue }.startRun first)

/-- Carries out a statement, on behalf of a program line or of none. -/
def execute (line : Option Nat) : Statement → Trial (Watched γ) Unit
  | .remark .. => pure ()
  | .assign _ target value => do
    let n ← evaluating (eval value)
    modify (·.change (·.assign target.name n))
  | .print _ items => do
    let text ← evaluating (printed items)
    modify (·.change (·.emit (.output text)))
  | .cond _ lhs relation rhs body => do
    let a ← evaluating (eval lhs)
    let b ← evaluating (eval rhs)
    if relation.holds a b then execute line body
  | .input _ targets => executeInput targets line
  | .list span extent => do
    let text ← listed span extent
    modify (·.change (·.emit (.output text)))
  | .clear _ => modify (·.clear (·.wipe.stop))
  | .halt _ => modify (·.clear (·.stop))
  | .goto span target => executeGoto span target line
  | .gosub span target => executeGosub span target line
  | .ret span => executeReturn span line
  | .run span arguments => executeRun span arguments line

/-! ### No check fails -/

variable {α : Type}

omit [RandomSource γ] in
/-- Evaluating fails no check on a whole engine if it fails none on the machine. -/
theorem evaluating_follows {g : Trial (Machine γ) α} {x : Evaluation γ α} (h : Follows Eq g x) :
    Follows Watches (evaluating g) (Engine.evaluating x) := by
  intro w s hw
  obtain ⟨⟨outcome, machine⟩, hg, houtcome, hmachine⟩ := h _ _ (congrArg Engine.machine hw.engine)
  have hw' := hw.change (fun s => { s with machine }) rfl
  unfold evaluating Engine.evaluating
  rw [hg]
  cases hx : x s.machine with
  | ok a m =>
    rw [hx] at houtcome hmachine
    obtain rfl : machine = m := hmachine
    exact passes_ok ⟨houtcome, hw'⟩
  | error fault m =>
    rw [hx] at houtcome hmachine
    obtain rfl : machine = m := hmachine
    exact passes_ok ⟨houtcome, hw'⟩

omit [RandomSource γ] in
/-- A change as a step of a computation, where it leaves the pending question alone. -/
theorem follows_change {f : Engine γ → Engine γ} (hf : ∀ s, (f s).pending = s.pending) :
    Follows Watches (modify (·.change f)) (modify f) :=
  fun _ s hw => passes_ok ⟨rfl, hw.change f (hf s)⟩

omit [RandomSource γ] in
/-- A change as a step of a computation, where it drops the pending question. -/
theorem follows_clear {f : Engine γ → Engine γ} (hf : ∀ s, (f s).pending = none) :
    Follows Watches (modify (·.clear f)) (modify f) :=
  fun _ s hw => passes_ok ⟨rfl, hw.clear f (hf s)⟩

omit [RandomSource γ] in
/-- Refusing a direct statement while a run is suspended fails no check. -/
theorem guardPaused_follows (span : Span) (line : Option Nat) :
    Follows Watches (guardPaused span line : Trial (Watched γ) Unit)
      (Engine.guardPaused span line) := by
  refine follows_get fun w s hw => ?_
  rw [hw.engine]
  split
  · exact follows_raise _ _
  · exact follows_pure _

/-- Finding the line that a target names fails no check. -/
theorem resolve_follows (word : Keyword) (target : Expr) :
    Follows Watches (resolve word target : Trial (Watched γ) Nat) (Engine.resolve word target) := by
  refine (evaluating_follows (eval_follows target)).bind fun n => follows_get fun w s hw => ?_
  rw [hw.engine]
  split
  · exact follows_pure _
  · exact follows_raise _ _

omit [RandomSource γ] in
/-- Judging the bounds of a `LIST` fails no check. -/
theorem checkBounds_follows (span : Span) (low high : Int16) :
    Follows Watches (checkBounds span low high : Trial (Watched γ) Unit)
      (Engine.checkBounds span low high) := by
  intro w s hw
  unfold checkBounds Engine.checkBounds
  dsimp only
  split
  · exact passes_ok ⟨rfl, hw⟩
  · split
    · exact passes_ok ⟨rfl, hw⟩
    · exact passes_ok ⟨rfl, hw⟩

omit [RandomSource γ] in
/-- Bounds that are not refused are in order, as numbers of lines too. -/
theorem le_of_checkBounds {span : Span} {low high : Int16}
    (h : ∃ s t : Engine γ, Engine.checkBounds span low high s = .ok () t) :
    low.toNatClampNeg ≤ high.toNatClampNeg := by
  obtain ⟨s, t, h⟩ := h
  by_cases himproper : Improper low high
  · rw [checkBounds_improper himproper] at h
    cases h
  · exact Int.toNat_le_toNat (not_improper_iff.1 himproper).2

/-- The lines between two bounds in order can be asked for. -/
theorem range_eq {p : Listing} {low high : Nat} (h : low ≤ high) :
    range p low high = .ok (p.range low high) := by
  rw [range, insist_of h]
  rfl

/-- Listing fails no check: whatever it asks the program for has its bounds in order. -/
theorem listed_follows (span : Span) (extent : Extent) :
    Follows Watches (listed span extent : Trial (Watched γ) String)
      (Engine.listed span extent) := by
  cases extent with
  | whole =>
    refine follows_get fun w s hw => ?_
    rw [hw.engine]
    exact follows_after (range_eq (by decide)) (follows_pure _)
  | onward low =>
    refine (evaluating_follows (eval_follows low)).bind fun low => ?_
    refine (checkBounds_follows _ _ _).bind_of_ok fun _ hbounds => ?_
    refine follows_get fun w s hw => ?_
    rw [hw.engine]
    dsimp only
    cases s.listing.get? low.toNatClampNeg with
    | some line => exact follows_pure _
    | none =>
      -- The bounds have passed their check, so the ends of the range are in order.
      have hrange : low.toNatClampNeg ≤ LineNumber.last := le_of_checkBounds hbounds
      exact follows_after (range_eq hrange) (follows_pure _)
  | between low high =>
    refine (evaluating_follows (eval_follows low)).bind fun low => ?_
    refine (evaluating_follows (eval_follows high)).bind fun high => ?_
    refine (checkBounds_follows _ _ _).bind_of_ok fun _ hbounds => ?_
    refine follows_get fun w s hw => ?_
    rw [hw.engine]
    exact follows_after (range_eq (le_of_checkBounds hbounds)) (follows_pure _)

omit [RandomSource γ] in
/-- Asking, with the variables that have their values, comes to asking for the others. -/
theorem ask_passes {w : Watched γ} {s : Engine γ} (hw : w.Watches s) (q : Question) :
    (ask q w).Passes fun w' => w'.Watches (Engine.ask q.line s (q.names.drop q.answered)) := by
  rw [ask]
  split
  -- The variables that have their values stand in front, so what is still asked for is the rest of
  -- the list.
  next h =>
    have hdrop : q.names.drop q.answered = q.names[q.answered] :: q.names.drop (q.answered + 1) :=
      List.drop_eq_getElem_cons h
    rw [hw.engine, hdrop, Engine.ask]
    cases hqueue : s.queue with
    | nil =>
      have hinquiry : q.inquiry = ⟨q.names[q.answered] :: q.names.drop (q.answered + 1),
          q.line⟩ := by
        rw [Question.inquiry, hdrop]
      have hposed := hw.pose h
      rw [hqueue, hinquiry] at hposed
      exact passes_ok hposed
    | cons n queue =>
      dsimp only
      rw [Question.Open.next_eq h]
      have hw' := hw.change (fun s => { s with queue }.assign q.names[q.answered] n) rfl
      exact ask_passes hw' { q with answered := q.answered + 1 }
  next h =>
    rw [List.drop_eq_nil_of_le (Nat.le_of_not_lt h)]
    exact passes_ok hw
termination_by q.names.length - q.answered

omit [RandomSource γ] in
/-- Carrying out `INPUT` fails no check: the question that is left has a variable to ask for. -/
theorem executeInput_follows (targets : List Target) (line : Option Nat) :
    Follows Watches (executeInput targets line : Trial (Watched γ) Unit)
      (modify (Engine.ask line · (targets.map Target.name))) := by
  intro w s hw
  obtain ⟨w', hask, hw'⟩ := ask_passes hw ⟨targets.map Target.name, 0, line⟩
  unfold executeInput
  rw [hask]
  exact passes_ok ⟨rfl, hw'⟩

/-- Carrying out `GOTO` fails no check. -/
theorem executeGoto_follows (span : Span) (target : Expr) (line : Option Nat) :
    Follows Watches (executeGoto span target line : Trial (Watched γ) Unit)
      (Engine.executeGoto span target line) := by
  refine (guardPaused_follows span line).bind fun _ =>
    (resolve_follows .GOTO target).bind fun n => ?_
  cases line with
  | some k => exact follows_change fun _ => rfl
  | none => exact follows_change fun _ => rfl

/-- Carrying out `GOSUB` fails no check. -/
theorem executeGosub_follows (span : Span) (target : Expr) (line : Option Nat) :
    Follows Watches (executeGosub span target line : Trial (Watched γ) Unit)
      (Engine.executeGosub span target line) := by
  refine (guardPaused_follows span line).bind fun _ =>
    (resolve_follows .GOSUB target).bind fun n => ?_
  refine follows_here fun w s hw => ?_
  obtain rfl := hw.engine
  cases line.bind w.engine.listing.nextAfter? with
  | none => exact passes_ok ⟨rfl, hw⟩
  | some back =>
    dsimp only
    cases hpush : w.engine.calls.push back with
    | error cause =>
      rw [located_of_error span cause (by rw [performing, hpush]; rfl)]
      exact passes_ok ⟨rfl, hw⟩
    | ok calls =>
      rw [located_of_ok span (by rw [performing, hpush]; rfl)]
      exact passes_ok ⟨rfl, hw.change (fun s => { s with calls, branch := some n }) rfl⟩

omit [RandomSource γ] in
/-- Carrying out `RETURN` fails no check. -/
theorem executeReturn_follows (span : Span) (line : Option Nat) :
    Follows Watches (executeReturn span line : Trial (Watched γ) Unit)
      (Engine.executeReturn span line) := by
  refine (guardPaused_follows span line).bind fun _ => ?_
  refine located_follows span fun w s hw => ?_
  obtain rfl := hw.engine
  cases hpop : w.engine.calls.pop with
  | error cause =>
    simp only [Except.map, get_bind, hpop]
    rfl
  | ok r =>
    simp only [Except.map, get_bind, hpop]
    exact ⟨_, rfl, hw.change (fun s => { s with calls := r.2, branch := some r.1 }) rfl⟩

/-- Carrying out `RUN` fails no check, on behalf of a line or of none. -/
theorem executeRun_follows (span : Span) (arguments : List Expr) (line : Option Nat) :
    Follows Watches (executeRun span arguments line : Trial (Watched γ) Unit)
      (Engine.executeRun span arguments line) := by
  refine (guardPaused_follows span line).bind fun _ => ?_
  cases line with
  | some n =>
    intro w s hw
    have hpending : ∀ s : Engine γ, s.rewind.pending = s.pending := fun s => by rw [rewind_eq]
    cases arguments with
    | nil => exact passes_ok ⟨rfl, hw.change rewind (hpending s)⟩
    | cons e es =>
      let warned (s : Engine γ) : Engine γ :=
        s.emit (.notice ((Fault.mk (.runArgumentsIgnored n) span).diagnostic.atLine (some n)))
      have hwarned : (w.change warned).Watches (warned s) := hw.change warned rfl
      exact passes_ok ⟨rfl, hwarned.change rewind (hpending _)⟩
  | none =>
    refine follows_get fun w s hw => ?_
    rw [hw.engine]
    cases s.listing.first? with
    | none => exact follows_raise _ _
    | some first =>
      exact (evaluating_follows (evalAll_follows arguments)).bind fun queue =>
        follows_change fun _ => rfl

/-- **Statements.**  Carrying out a statement fails no check and does what it does without
    checks. -/
theorem execute_follows (line : Option Nat) (statement : Statement) :
    Follows Watches (execute line statement : Trial (Watched γ) Unit)
      (Engine.execute line statement) := by
  induction statement with
  | remark => exact follows_pure _
  | assign span target value =>
    exact (evaluating_follows (eval_follows value)).bind fun n => follows_change fun _ => rfl
  | print span items =>
    exact (evaluating_follows (printed_follows items)).bind fun text => follows_change fun _ => rfl
  | cond span lhs relation rhs body ih =>
    refine (evaluating_follows (eval_follows lhs)).bind fun a => ?_
    refine (evaluating_follows (eval_follows rhs)).bind fun b => ?_
    split
    · exact ih
    · exact follows_pure _
  | input span targets => exact executeInput_follows targets line
  | list span extent =>
    exact (listed_follows span extent).bind fun text => follows_change fun _ => rfl
  | clear => exact follows_clear fun _ => stop_pending _
  | halt => exact follows_clear fun _ => stop_pending _
  | goto span target => exact executeGoto_follows span target line
  | gosub span target => exact executeGosub_follows span target line
  | ret span => exact executeReturn_follows span line
  | run span arguments => exact executeRun_follows span arguments line

end Asserting

end LineBasic
