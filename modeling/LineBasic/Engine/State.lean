import LineBasic.Breakpoints
import LineBasic.CallStack
import LineBasic.Machine
import LineBasic.Transcript

namespace LineBasic

/-!
# The engine

All that an interpreter knows between two requests, as one record, and the changes that several
requests share: reporting an error, stopping a run, starting one.

The engine is in one of five modes. In `running` it executes program lines, in `paused` a run waits
at a breakpoint; the other three are idle: at the prompt, loading a file, and loading a file in
which an error has been found.
-/

/-- What the engine is doing. -/
inductive Mode where
  /-- Nothing: it waits for something to be typed. -/
  | prompt
  /-- It takes lines from a file. -/
  | loading
  /-- It executes the program. -/
  | running
  /-- The program is suspended at a breakpoint. -/
  | paused
  /-- It takes lines from a file, one of which was in error; only errors are still noticed. -/
  | loadFailed
  deriving DecidableEq, Repr

/-- Values that an `INPUT` waits for. -/
structure Inquiry where
  /-- The variables that have not got their values yet. -/
  awaiting : List Letter
  /-- The program line of the `INPUT`; a direct one has none. -/
  line : Option Nat
  deriving DecidableEq, Repr

/-- The question that asks for the values. -/
def Inquiry.prompt (q : Inquiry) : String :=
  "[" ++ ",".intercalate (q.awaiting.map Letter.name) ++ "]? "

/-- A statement that was typed without a line number. -/
structure DirectStatement where
  /-- Its text. -/
  source : String
  /-- What it does. -/
  statement : Statement
  deriving DecidableEq, Repr

/-- What the user can switch on and off. -/
structure Options where
  /-- Whether to trace what is entered and executed. -/
  logging : Bool := false
  /-- Whether to show how long program lines take. -/
  timing : Bool := false
  /-- Whether a program is to be run as soon as it is loaded. -/
  runOnLoad : Bool := false
  deriving DecidableEq, Repr

/-- The state of an interpreter. -/
structure Engine (γ : Type) where
  /-- The stored program. -/
  listing : Listing := .empty
  /-- What expressions read and change. -/
  machine : Machine γ
  /-- The open subroutines. -/
  calls : CallStack := .empty
  /-- Where a run is to stop. -/
  breakpoints : Breakpoints := .empty
  /-- What the engine is doing. -/
  mode : Mode := .prompt
  /-- The line that a run is at, or waits at. -/
  cursor : Nat := 0
  /-- The line that the statement being executed goes to. -/
  branch : Option Nat := none
  /-- The direct statement to carry out next. -/
  direct : Option DirectStatement := none
  /-- The values that `RUN` was given and no `INPUT` has taken. -/
  queue : List Int16 := []
  /-- The values that are being asked for. -/
  pending : Option Inquiry := none
  /-- The errors that have not been collected yet. -/
  errors : List Diagnostic := []
  /-- Whether the line at the cursor is to be executed even if a breakpoint is set on it. -/
  resume : Bool := false
  /-- Whether to stop after the line at the cursor. -/
  stepping : Bool := false
  /-- How many lines of the file have been taken, while one is being loaded. -/
  fileLine : Option Nat := none
  /-- What the user has switched on. -/
  options : Options := {}
  /-- What has been written. -/
  transcript : Transcript := .empty
  deriving DecidableEq

namespace Engine

variable {γ : Type}

/-- The value that the variable `S` begins with. -/
def initialS : Int16 := 256

/-- An engine without a program, with a random source. -/
def start (generator : γ) : Engine γ where
  machine :=
    { vars := Variables.empty.set ⟨18, by decide⟩ initialS, memory := .empty, generator }

/-- Whether a file is being loaded. -/
def isLoading (s : Engine γ) : Bool := s.fileLine.isSome

/-- Whether no run is going on or suspended. -/
def isIdle (s : Engine γ) : Bool := s.mode ≠ .running && s.mode ≠ .paused

/-- Starts the random source afresh. -/
def reseed (s : Engine γ) (generator : γ) : Engine γ :=
  { s with machine := { s.machine with generator } }

/-! ### Writing -/

/-- Writes something. -/
def emit (s : Engine γ) (e : Emission) : Engine γ := { s with transcript := s.transcript.emit e }

/-- Writes a trace if they are switched on. -/
def traced (s : Engine γ) (text : String) : Engine γ :=
  if s.options.logging then s.emit (.trace ("[trace] " ++ text ++ "\n")) else s

/-- Takes what has been written. -/
def drain (s : Engine γ) : List Emission × Engine γ :=
  (s.transcript.emissions, { s with transcript := .empty })

/-! ### Stopping and starting -/

/-- Forgets the values of `RUN` that no `INPUT` has taken, with a warning if there are any. -/
def dropQueue (s : Engine γ) : Engine γ :=
  if s.queue = [] then s else { s.emit (.notice Cause.excessInput.diagnostic) with queue := [] }

/-- The mode of an engine that executes nothing. -/
def idleMode (s : Engine γ) : Mode := if s.isLoading then .loading else .prompt

/-- Ends whatever is going on. -/
def stop (s : Engine γ) : Engine γ :=
  let s := s.dropQueue
  { s with
    calls := .empty, breakpoints := s.breakpoints.disarm, pending := none, branch := none,
    resume := false, stepping := false, mode := s.idleMode }

/-- Adds an error to those to be collected. -/
def report (s : Engine γ) (d : Diagnostic) : Engine γ := { s with errors := s.errors ++ [d] }

/-- Reports an error that ends a run, a wait for `INPUT`, and the success of a load. -/
def fail (s : Engine γ) (d : Diagnostic) : Engine γ :=
  let s :=
    { s.report (match s.fileLine with | some n => d.atFileLine n | none => d) with pending := none }
  let s := if s.mode = .running then s.stop else s
  if s.isLoading then { s with mode := .loadFailed } else s

/-- Begins a run at a line. -/
def startRun (s : Engine γ) (target : Nat) : Engine γ :=
  { s with
    calls := .empty, breakpoints := s.breakpoints.disarm, cursor := target, branch := none,
    resume := false, stepping := false, mode := .running }

/-- Gives a variable a value. -/
def assign (s : Engine γ) (x : Letter) (n : Int16) : Engine γ :=
  { s with machine := { s.machine with vars := s.machine.vars.set x n } }

/-- Forgets the program, with its breakpoints, and the memory. -/
def wipe (s : Engine γ) : Engine γ :=
  { s with
    listing := .empty, breakpoints := s.breakpoints.clearAll,
    machine := { s.machine with memory := .empty } }

end Engine

end LineBasic
