import LineBasic.Diagnostic.Basic
import LineBasic.LineNumber
import LineBasic.Text.Space

namespace LineBasic

/-!
# Commands

The command language: lines that begin with a percent sign ask something of the interpreter itself.
A command is a word, in either case and most in a short form too, and what it applies to after it.
-/

/-- What `%opt` switches. -/
inductive Switch where
  | logging | timing | runOnLoad
  deriving DecidableEq, Repr

/-- How the state of a switch is reported. -/
def Switch.name : Switch → String
  | .logging => "logging"
  | .timing => "time"
  | .runOnLoad => "run_on_load"

/-- A command. -/
inductive Command where
  | help
  | shortHelp
  | quit
  | load (file : String)
  | save (file : String)
  /-- Turns a switch, or shows how it is turned. -/
  | option (switch : Switch) (value : Option Bool)
  | listBreakpoints
  | setBreakpoint (line : Nat)
  | clearBreakpoint (line : Nat)
  | clearBreakpoints
  /-- Goes on with a suspended run. -/
  | resume
  /-- Executes one line of a suspended run. -/
  | step
  /-- Shows the variables that have values. -/
  | showVars
  | backtrace
  /-- Gives up a suspended run. -/
  | exit
  | lint (strict : Bool)
  deriving DecidableEq, Repr

namespace Command

open Text (isSpace trim trimStart words)

/-- Whether a typed text is a command. -/
def isCommand (text : String) : Bool := (trimStart text.toList).head? = some '%'

/-- The text in lower case. -/
def lower (cs : List Char) : String := .ofList (cs.map Char.toLower)

/-- The file name that a text between double quotes is. -/
def fileName (cs : List Char) : Except Cause String :=
  match cs with
  | '"' :: cs =>
    if cs.getLast? = some '"' && trim cs.dropLast ≠ [] then .ok (.ofList cs.dropLast)
    else .error .missingFilename
  | _ => .error .missingFilename

/-- The line number that a text spells. -/
def lineNumber (cs : List Char) : Except Cause Nat :=
  match LineNumber.ofText? cs with
  | some n => .ok n
  | none => .error .lineParameter

/-- The switch that a text names. -/
def switch (name : String) : Except Cause Switch :=
  match name with
  | "log" => .ok .logging
  | "time" => .ok .timing
  | "run_on_load" => .ok .runOnLoad
  | _ => .error (.unknownOption name)

/-- The way to turn a switch that a text names. -/
def setting (name : String) : Except Cause Bool :=
  match name with
  | "true" | "t" => .ok true
  | "false" | "f" => .ok false
  | _ => .error (.optionValue name)

/-- The command that `%opt` with some words is. -/
def ofOptions : List (List Char) → Except Cause Command
  | [] => .error .missingOption
  | name :: others => do
    let switch ← switch (lower name)
    match others with
    | [] => return .option switch none
    | value :: _ => return .option switch (some (← setting (lower value)))

/-- The command that a typed text is, with or without the percent sign in front. -/
def ofText (text : String) : Except Cause Command :=
  let cs := trim text.toList
  let body := if cs.head? = some '%' then cs.tail else cs
  let rest := trim (body.dropWhile (!isSpace ·))
  let arguments := words rest
  match lower (body.takeWhile (!isSpace ·)) with
  | "help" => .ok .help
  | "?" => .ok .shortHelp
  | "quit" | "q" => .ok .quit
  | "loadfile" | "lf" => (fileName rest).map .load
  | "savefile" | "sf" => (fileName rest).map .save
  | "opt" => ofOptions arguments
  | "break" | "bp" =>
    match arguments with
    | [] => .ok .listBreakpoints
    | argument :: _ => (lineNumber argument).map .setBreakpoint
  | "delete" | "d" =>
    match arguments with
    | [] => .error .lineParameter
    | ['*'] :: _ => .ok .clearBreakpoints
    | argument :: _ => (lineNumber argument).map .clearBreakpoint
  | "continue" | "c" => .ok .resume
  | "step" | "s" => .ok .step
  | "vars" | "v" => .ok .showVars
  | "backtrace" | "bt" => .ok .backtrace
  | "exit" | "e" => .ok .exit
  | "lint" =>
    match arguments with
    | [] => .ok (.lint false)
    | argument :: _ =>
      if lower argument = "strict" then .ok (.lint true)
      else .error (.unknownLintOption (.ofList argument))
  | _ => .error (.unknownCommand (.ofList cs))

end Command

end LineBasic
