import LineBasic.Command
import LineBasic.Engine.Enter
import LineBasic.Lint

namespace LineBasic.Engine

/-!
# Debugging

What the user can ask of the engine besides entering lines: to go on with a suspended run, to
execute one line of it, to give it up, to look at it, and to set breakpoints. A request may be
refused, and a refusal changes nothing.

* `resumeRun`, `stepRun`, `exitRun`, `showCalls`, `setBreakpoint`, `clearBreakpoint` -- requests
  that may be refused;
* `checkStep` -- whether a single step can be carried out;
* `obey` -- any command of the command language that concerns the engine.
-/

variable {γ : Type} [RandomSource γ]

/-- Something asked of the engine that may be refused. -/
abbrev Request (γ α : Type) := EStateM Cause (Engine γ) α

/-- Refuses a command, by its name, unless a run is suspended. -/
def whilePaused (name : String) : Request γ Unit := do
  if (← get).mode ≠ .paused then throw (.notDebugging name)

/-- Goes on with the suspended run. -/
def resumeRun : Request γ Unit := do
  whilePaused "continue"
  modify fun s => { s with mode := .running, resume := true }

/-- Whether a jump to a target can be carried out; only a target that is a number can be judged. -/
def checkTarget (s : Engine γ) (target : Expr) : Except Cause Unit :=
  match target.literal? with
  | none => .ok ()
  | some (_, n) =>
    if 1 ≤ n && s.listing.contains n.toNatClampNeg then .ok () else .error (.noBranchTarget n)

/-- Whether a statement can be carried out as a single step. A condition that calls a function is
not evaluated beforehand, because that could change something. -/
def checkStep : Statement → Request γ Unit
  | .ret _ => do
    if (← get).calls.isEmpty then throw .emptyCallStack
  | .goto _ target | .gosub _ target => fun s =>
    match s.checkTarget target with
    | .ok () => .ok () s
    | .error cause => .error cause s
  | .cond _ lhs relation rhs body => fun s =>
    if lhs.callsFunction || rhs.callsFunction then .ok () s
    else
      let (a, s) := s.attempt lhs
      let (b, s) := s.attempt rhs
      match a, b with
      | some a, some b => if relation.holds a b then checkStep body s else .ok () s
      | _, _ => .ok () s
  | _ => pure ()

/-- Executes one line of the suspended run. -/
def stepRun : Request γ Unit := do
  whilePaused "step"
  let s ← get
  if let some line := s.listing.get? s.cursor then checkStep line.statement
  modify fun s => { s with mode := .running, resume := true, stepping := true }

/-- Gives up the suspended run. -/
def exitRun : Request γ Unit := do
  whilePaused "exit"
  modify (·.stop)

/-- The texts of the stored lines with some numbers. -/
def writtenLines (s : Engine γ) (numbers : List Nat) : String :=
  written (numbers.filterMap s.listing.get?)

/-- Shows the lines that the open subroutines return to. -/
def showCalls : Request γ Unit := do
  whilePaused "backtrace"
  modify fun s => s.emit (.output ("-- Call Stack --\n" ++ s.writtenLines s.calls.frames))

/-- Sets a breakpoint. -/
def setBreakpoint (n : Nat) : Request γ Unit := fun s =>
  match s.breakpoints.set n s.listing with
  | .ok breakpoints => .ok () { s with breakpoints }
  | .error cause => .error cause s

/-- Removes a breakpoint. -/
def clearBreakpoint (n : Nat) : Request γ Unit := fun s =>
  match s.breakpoints.clear n with
  | .ok breakpoints => .ok () { s with breakpoints }
  | .error cause => .error cause s

/-- Removes all breakpoints. -/
def clearBreakpoints (s : Engine γ) : Engine γ := { s with breakpoints := s.breakpoints.clearAll }

/-- Shows the lines that have breakpoints. -/
def showBreakpoints (s : Engine γ) : Engine γ :=
  s.emit <| .output <|
    if s.breakpoints.isEmpty then "No breakpoints set.\n"
    else "Breakpoints set on:\n" ++ s.writtenLines s.breakpoints.lines

/-- Shows the variables. -/
def showVariables (s : Engine γ) : Engine γ := s.emit (.output s.machine.vars.table)

/-- Shows what the linter finds. -/
def showLint (s : Engine γ) (strict : Bool) : Engine γ :=
  (s.listing.lint strict).foldl (fun s d => s.emit (.notice d)) s

/-- How a switch is turned. -/
def switched (s : Engine γ) : Switch → Bool
  | .logging => s.options.logging
  | .timing => s.options.timing
  | .runOnLoad => s.options.runOnLoad

/-- Turns a switch. -/
def turn (s : Engine γ) (switch : Switch) (on : Bool) : Engine γ :=
  { s with
    options :=
      match switch with
      | .logging => { s.options with logging := on }
      | .timing => { s.options with timing := on }
      | .runOnLoad => { s.options with runOnLoad := on } }

/-- Shows how a switch is turned. -/
def showSwitch (s : Engine γ) (switch : Switch) : Engine γ :=
  let state := if s.switched switch then "true" else "false"
  s.emit (.output ("Option: " ++ switch.name ++ " is " ++ state ++ ".\n"))

/-- Carries out a request; a refusal is an error to be collected. -/
def perform (s : Engine γ) (request : Request γ Unit) : Engine γ :=
  match request s with
  | .ok _ s => s
  | .error cause s => s.report cause.diagnostic

/-- Carries out a command. Those that concern files or the session as a whole do nothing here. -/
def obey (s : Engine γ) : Command → Engine γ
  | .option switch (some on) => s.turn switch on
  | .option switch none => s.showSwitch switch
  | .listBreakpoints => s.showBreakpoints
  | .setBreakpoint n => s.perform (setBreakpoint n)
  | .clearBreakpoint n => s.perform (clearBreakpoint n)
  | .clearBreakpoints => s.clearBreakpoints
  | .resume => s.perform resumeRun
  | .step => s.perform stepRun
  | .showVars => s.showVariables
  | .backtrace => s.perform showCalls
  | .exit => s.perform exitRun
  | .lint strict => s.showLint strict
  | .help | .shortHelp | .quit | .load _ | .save _ => s

end LineBasic.Engine
