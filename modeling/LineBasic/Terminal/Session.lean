import LineBasic.Engine.Debug
import LineBasic.Terminal.Text

namespace LineBasic.Terminal

/-!
# Terminal sessions

A session feeds an engine with lines: those of a file that is being loaded, those given on the
command line, and those that are typed. It is a state that changes by turns, and each turn says what
it needs from outside before the next.

* `Arguments.ofList` -- the command line;
* `begin`, `turn` -- the first turn and any later one;
* `receive`, `answer`, `loaded`, `saved` -- what is made of what comes from outside.
-/

/-- What a session was started with. -/
structure Arguments where
  /-- Whether to show the logo. -/
  logo : Bool := true
  /-- The file to load first. -/
  file : Option String := none
  /-- The lines to enter first. -/
  commands : List String := []
  deriving DecidableEq, Repr

/-- The lines of one command-line argument, with circumflexes between them. -/
def commandLines (argument : String) : List String :=
  (Text.split (· == '^') argument.toList).map .ofList

/-- Reads the command line; of several files the last one counts. -/
def Arguments.add (a : Arguments) : List String → Arguments
  | [] => a
  | "--nologo" :: rest => { a with logo := false }.add rest
  | ["-c"] | ["--commands"] => a
  | "-c" :: lines :: rest | "--commands" :: lines :: rest =>
    { a with commands := a.commands ++ commandLines lines }.add rest
  | file :: rest => { a with file := some file }.add rest

/-- What the command line asks for. -/
def Arguments.ofList (arguments : List String) : Arguments := ({} : Arguments).add arguments

/-- A line that waits to be entered. -/
inductive Queued where
  /-- A line given on the command line. -/
  | typed (text : String)
  /-- A line of a file. -/
  | fileLine (text : String)
  /-- The end of a file. -/
  | endOfFile
  deriving DecidableEq, Repr

/-- The state of a session. -/
structure Session (γ : Type) where
  /-- The interpreter. -/
  engine : Engine γ
  /-- The lines that are entered before any is typed. -/
  queue : List Queued := []

/-- What a session needs from outside. -/
inductive Need where
  /-- Another turn. -/
  | turn
  /-- A line, typed at a prompt. -/
  | line (prompt : String)
  /-- A line of answers to `INPUT`, typed at a prompt. -/
  | answer (prompt : String)
  /-- The contents of a file. -/
  | read (file : String)
  /-- A file with some contents. -/
  | write (file : String) (text : String)
  /-- Nothing: the session is over. -/
  | done
  deriving DecidableEq, Repr

namespace Session

variable {γ : Type}

/-- Shows something. -/
def emit (s : Session γ) (e : Emission) : Session γ := { s with engine := s.engine.emit e }

/-- Shows the report of a cause. -/
def refuse (s : Session γ) (cause : Cause) : Session γ := s.emit (.notice cause.diagnostic)

/-- Takes what is to be shown. -/
def drain (s : Session γ) : List Emission × Session γ :=
  let (emissions, engine) := s.engine.drain
  (emissions, { s with engine })

/-! ### Files -/

/-- Asks for a file to load. -/
def load (s : Session γ) (file : String) : Need × Session γ :=
  if s.engine.mode = .paused then (.turn, s.refuse .loadWhileDebugging)
  else if Text.allSpace file.toList then (.turn, s.refuse .blankFilename)
  else (.read file, s)

/-- Takes the contents of a file: its lines go before all others that wait. -/
def loaded (s : Session γ) (file : String) : Except FileFault String → Session γ
  | .ok text =>
    let lines := (Text.lines text.toList).map fun line => Queued.fileLine (.ofList line)
    { s with engine := s.engine.beginLoad, queue := lines ++ .endOfFile :: s.queue }
  | .error .missing => s.refuse (.fileNotFound file)
  | .error fault => s.refuse (.invalidFilename file fault)

/-- The contents of the file that a program is saved in. -/
def saveText (p : Listing) : String := Engine.written p.lines

/-- Asks for the program to be saved. -/
def save (s : Session γ) (file : String) : Need × Session γ :=
  if s.engine.listing.isEmpty then (.turn, s.refuse .nothingToSave)
  else (.write file (saveText s.engine.listing), s)

/-- Takes the outcome of saving. -/
def saved (s : Session γ) (file : String) : Except FileFault Unit → Session γ
  | .ok () => s
  | .error fault => s.refuse (.invalidFilename file fault)

/-! ### Lines -/

variable [RandomSource γ]

/-- Enters a line. -/
def enter (s : Session γ) (text : String) : Session γ :=
  { s with engine := (s.engine.enter text).2 }

/-- Carries out a command. -/
def command (s : Session γ) : Command → Need × Session γ
  | .quit => (.done, s)
  | .help => (.turn, s.emit (.output Terminal.help))
  | .shortHelp => (.turn, s.emit (.output Terminal.shortHelp))
  | .load file => s.load file
  | .save file => s.save file
  | c => (.turn, { s with engine := s.engine.obey c })

/-- Takes a line that was typed at a prompt, or given on the command line. -/
def receive (s : Session γ) (text : String) : Need × Session γ :=
  if Command.isCommand text then
    match Command.ofText text with
    | .ok c => s.command c
    | .error cause => (.turn, s.refuse cause)
  else (.turn, s.enter text)

/-- Takes a line that was typed as an answer to `INPUT`. -/
def answer (s : Session γ) (text : String) : Session γ := s.enter text

/-! ### Turns -/

/-- What a session does when the engine asks for values. A file that ends before they are given
breaks the wait off. -/
def onInput (s : Session γ) (prompt : String) : Need × Session γ :=
  match s.queue with
  | .typed text :: queue | .fileLine text :: queue => (.turn, { s with queue }.enter text)
  | .endOfFile :: _ => (.turn, { s with engine := s.engine.interrupt })
  | [] => (.answer prompt, s)

/-- What a session does when the engine has nothing to do. -/
def onIdle (s : Session γ) (prompt : String) : Need × Session γ :=
  match s.queue with
  | .fileLine text :: queue => (.turn, { s with queue }.enter text)
  | .endOfFile :: queue =>
    let (clean, engine) := s.engine.endLoad
    let queue := if clean && engine.options.runOnLoad then .typed "RUN" :: queue else queue
    (.turn, { engine, queue })
  | .typed text :: queue => { s with queue }.receive text
  | [] => (.line prompt, s)

/-- Lets the engine work within a budget, and sees to what it comes up with. -/
def turn (s : Session γ) (budget : Nat) : Need × Session γ :=
  let (event, engine) := s.engine.poll budget
  let s := { s with engine }
  match event with
  | .running => (.turn, s)
  | .errors reports => (.turn, reports.foldl (fun s d => s.emit (.notice d)) s)
  | .input prompt => s.onInput prompt
  | .stopped => s.onIdle idlePrompt
  | .paused line => s.onIdle (debugPrompt line)

/-- A session with some arguments, and what it needs first. -/
def begin (arguments : Arguments) (generator : γ) : Need × Session γ :=
  let s : Session γ := { engine := .start generator, queue := arguments.commands.map .typed }
  let s := if arguments.logo then s.emit (.output logo) else s
  match arguments.file with
  | some file => s.load file
  | none => (.turn, s)

end Session

end LineBasic.Terminal
