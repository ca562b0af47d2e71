import LineBasic.Engine.State

namespace LineBasic.Engine

/-!
# Carrying out statements

What each statement does to the engine. A statement of the program is carried out on behalf of its
line, a direct one on behalf of none; the statements that move a run do different things in the two
cases. A fault leaves the engine as it was when the fault was noticed.

* `execute` -- carries out a statement;
* `listed`, `resolve`, `ask` -- what `LIST`, the jumps and `INPUT` do.
-/

variable {γ : Type} [RandomSource γ]

/-- A computation on the engine that may fail. -/
abbrev Execution (γ α : Type) := EStateM Fault (Engine γ) α

/-- Evaluates something on the engine's machine. -/
def evaluating {α : Type} (x : Evaluation γ α) : Execution γ α := fun s =>
  match x s.machine with
  | .ok a machine => .ok a { s with machine }
  | .error fault machine => .error fault { s with machine }

/-- Refuses a direct statement that would disturb a suspended run. -/
def guardPaused (span : Span) (line : Option Nat) : Execution γ Unit := do
  let s ← get
  if line.isNone && s.mode = .paused then throw ⟨.useContinue, span⟩

/-- The stored line that an expression denotes as the target of a jump. -/
def resolve (word : Keyword) (target : Expr) : Execution γ Nat := do
  let n ← evaluating target.eval
  let s ← get
  if 1 ≤ n && s.listing.contains n.toNatClampNeg then return n.toNatClampNeg
  else throw ⟨.undefinedLine word n, target.span⟩

/-- Fails unless two values are bounds that `LIST` can have. -/
def checkBounds (span : Span) (low high : Int16) : Execution γ Unit := do
  if high < low then throw ⟨.listOrder low high, span⟩
  if low < 1 || high < 1 then throw ⟨.listRange low high, span⟩

/-- The texts of some lines, each with a newline. -/
def written (lines : List Line) : String := String.join (lines.map fun l => l.source ++ "\n")

/-- The text that `LIST` writes. -/
def listed (span : Span) (extent : Extent) : Execution γ String := do
  match extent with
  | .whole => return written ((← get).listing.range 1 LineNumber.last)
  | .onward low =>
    let low ← evaluating low.eval
    checkBounds span low (.ofNat LineNumber.last)
    let p := (← get).listing
    match p.get? low.toNatClampNeg with
    | some line => return written [line]
    | none => return written (p.range low.toNatClampNeg LineNumber.last)
  | .between low high =>
    let low ← evaluating low.eval
    let high ← evaluating high.eval
    checkBounds span low high
    return written ((← get).listing.range low.toNatClampNeg high.toNatClampNeg)

/-- Gives variables their values from the values of `RUN`, and asks for those that are left over. -/
def ask (line : Option Nat) (s : Engine γ) : List Letter → Engine γ
  | [] => s
  | x :: xs =>
    match s.queue with
    | [] => { s with pending := some ⟨x :: xs, line⟩ }
    | n :: queue => ask line ({ s with queue }.assign x n) xs

/-- Carries out `GOTO`. -/
def executeGoto (span : Span) (target : Expr) (line : Option Nat) : Execution γ Unit := do
  guardPaused span line
  let n ← resolve .GOTO target
  match line with
  | some _ => modify fun s => { s with branch := some n }
  | none => modify fun s => { s with queue := [] }.startRun n

/-- Carries out `GOSUB`. A direct one has no line to return to, and neither has one on the last
    line. -/
def executeGosub (span : Span) (target : Expr) (line : Option Nat) : Execution γ Unit := do
  guardPaused span line
  let n ← resolve .GOSUB target
  let s ← get
  match line.bind s.listing.nextAfter? with
  | none => throw ⟨.invalidReturnAddress, span⟩
  | some back =>
    match s.calls.push back with
    | .error cause => throw ⟨cause, span⟩
    | .ok calls => set { s with calls, branch := some n }

/-- Carries out `RETURN`. -/
def executeReturn (span : Span) (line : Option Nat) : Execution γ Unit := do
  guardPaused span line
  let s ← get
  match s.calls.pop with
  | .error cause => throw ⟨cause, span⟩
  | .ok (back, calls) => set { s with calls, branch := some back }

/-- Carries out `RUN`. A program that runs itself begins again, and cannot give itself values. -/
def executeRun (span : Span) (arguments : List Expr) (line : Option Nat) : Execution γ Unit := do
  guardPaused span line
  match line with
  | some n =>
    modify fun s =>
      let s :=
        if arguments = [] then s
        else s.emit (.notice ((Fault.mk (.runArgumentsIgnored n) span).diagnostic.atLine line))
      let s := { s with calls := .empty }.dropQueue
      { s with branch := s.listing.first? }
  | none =>
    match (← get).listing.first? with
    | none => throw ⟨.noProgram, span⟩
    | some first =>
      let queue ← evaluating (evalAll arguments)
      modify fun s => { s with queue }.startRun first

/-- Carries out a statement, on behalf of a program line or of none. -/
def execute (line : Option Nat) : Statement → Execution γ Unit
  | .remark .. => pure ()
  | .assign _ target value => do
    let n ← evaluating value.eval
    modify (·.assign target.name n)
  | .print _ items => do
    let text ← evaluating (printed items)
    modify (·.emit (.output text))
  | .cond _ lhs relation rhs body => do
    let a ← evaluating lhs.eval
    let b ← evaluating rhs.eval
    if relation.holds a b then execute line body
  | .input _ targets => modify (ask line · (targets.map Target.name))
  | .list span extent => do
    let text ← listed span extent
    modify (·.emit (.output text))
  | .clear _ => modify (·.wipe.stop)
  | .halt _ => modify (·.stop)
  | .goto span target => executeGoto span target line
  | .gosub span target => executeGosub span target line
  | .ret span => executeReturn span line
  | .run span arguments => executeRun span arguments line

end LineBasic.Engine
