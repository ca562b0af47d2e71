import LineBasic.Diagnostic.Cause
import LineBasic.Span

namespace LineBasic

/-!
# Diagnostics

How a cause becomes a report, in two steps:

* a `Fault` is a cause with the columns it concerns, which is all that the part of the program that
  notices it knows;
* a `Diagnostic` also says which program line failed, which line of a file was being loaded, and
  what the text of the line is, each where there is one.

`Diagnostic.display` writes a report: how it begins depends on the category, and where the text of
the line is known, that text follows with a caret below the column.
-/

/-- A cause, and the columns it concerns. -/
structure Fault where
  /-- What went wrong. -/
  cause : Cause
  /-- Where on its line. -/
  column : Span
  deriving DecidableEq, Repr

/-- A report. -/
structure Diagnostic where
  /-- What the report is about. -/
  code : Code
  /-- The wording. -/
  message : String := code.summary
  /-- The program line that failed; a direct statement has none. -/
  line : Option Nat := none
  /-- The columns concerned. -/
  column : Span := .unplaced
  /-- The line of the file that was being loaded, counted from 1. -/
  fileLine : Option Nat := none
  /-- The text of the line that the column refers to. -/
  source : Option String := none
  deriving DecidableEq, Repr

/-- The report of a cause that has no place. -/
def Cause.diagnostic (cause : Cause) : Diagnostic where
  code := cause.code
  message := cause.message

/-- The report of a fault. -/
def Fault.diagnostic (fault : Fault) : Diagnostic :=
  { fault.cause.diagnostic with column := fault.column }

namespace Diagnostic

/-- Says which program line failed. -/
def atLine (d : Diagnostic) (line : Option Nat) : Diagnostic := { d with line }

/-- Says which columns are concerned. -/
def atColumn (d : Diagnostic) (column : Span) : Diagnostic := { d with column }

/-- Words the report otherwise. -/
def worded (d : Diagnostic) (message : String) : Diagnostic := { d with message }

/-- Says which line of a file was being loaded. -/
def atFileLine (d : Diagnostic) (fileLine : Nat) : Diagnostic :=
  { d with fileLine := some fileLine }

/-- Attaches the text of the line, unless a text is attached already: whoever noticed the fault
first knew best which text its columns refer to. -/
def inSource (d : Diagnostic) (source : String) : Diagnostic :=
  { d with source := some (d.source.getD source) }

/-- The number of the report's code. -/
def number (d : Diagnostic) : Nat := d.code.number

/-- The category of the report's code. -/
def category (d : Diagnostic) : Category := d.code.category

/-- Whether the report is about a direct statement, or about no statement at all. -/
def isDirect (d : Diagnostic) : Bool := d.line.isNone

/-- How a report begins. -/
def heading (d : Diagnostic) : String :=
  match d.category with
  | .lexical => "Lexical Error: Error #" ++ Text.padded 3 d.number
  | .grammar => "Syntax Error: Error #" ++ Text.padded 3 d.number
  | .runtime => "Runtime Error: Error #" ++ Text.padded 3 d.number
  | .command => "CLE #" ++ Text.padded 2 d.number
  | .lint => "LINT #" ++ Text.padded 2 d.number
  | .warning => "WARN #" ++ Text.padded 3 d.number

/-- The line below the source text: dashes up to the column, then a caret. -/
def caret (d : Diagnostic) : String := String.ofList (List.replicate d.column.start '-') ++ "^"

/-- The full text of a report, without a newline at its end. -/
def display (d : Diagnostic) : String :=
  d.heading ++ ": " ++ d.message
    ++ (match d.fileLine with
        | some n => " (file line " ++ Text.ofNat n ++ ")"
        | none => "")
    ++ (match d.source with
        | some source => "\n" ++ source ++ "\n" ++ d.caret
        | none => "")

/-- A report as it is shown to programmers. -/
def debugText (d : Diagnostic) : String := "Error \x7b " ++ d.display ++ " \x7d"

end Diagnostic

end LineBasic
