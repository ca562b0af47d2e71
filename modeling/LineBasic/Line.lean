import LineBasic.Statement.Reader
import LineBasic.Text.Space
import LineBasic.Token.Scan

namespace LineBasic

/-!
# Lines

What is typed is an entry: a numbered line to store, the number of a line to delete, or a statement
to carry out at once. A stored line keeps its text beside its statement.
-/

/-- What a typed line asks for. -/
inductive Entry where
  /-- Store a statement under a number. -/
  | store (number : Nat) (statement : Statement)
  /-- Delete the line with a number. -/
  | delete (number : Nat)
  /-- Carry out a statement. -/
  | direct (statement : Statement)
  deriving DecidableEq, Repr

/-- A text without the space at its end, which no line keeps. -/
def trimmed (text : String) : String := .ofList (Text.trimEnd text.toList)

namespace Entry

/-- The entry that the tokens of a line spell. A number that no line can have is a fault of the text
as a whole; any other fault is that of the numbered line. -/
def ofTokens : List Token → Except Diagnostic Entry
  | [] => .error (Token.misplaced .unexpectedExpression []).diagnostic
  | t :: ts =>
    match t.kind with
    | .lineNumber _ =>
      match t.lineNumber with
      | .error fault => .error fault.diagnostic
      | .ok n =>
        if Token.atEnd ts then .ok (.delete n)
        else
          match Statement.ofTokens ts with
          | .ok s => .ok (.store n s)
          | .error fault => .error (fault.diagnostic.atLine (some n))
    | _ =>
      match Statement.ofTokens (t :: ts) with
      | .ok s => .ok (.direct s)
      | .error fault => .error fault.diagnostic

/-- The entry that a typed text is. A report of what is wrong with it shows the text. -/
def ofText (text : String) : Except Diagnostic Entry :=
  let source := trimmed text
  match Token.scan source >>= ofTokens with
  | .ok entry => .ok entry
  | .error d => .error (d.inSource source)

end Entry

/-- A stored line. -/
structure Line where
  /-- Its number. -/
  number : Nat
  /-- Its text, as it was typed. -/
  source : String
  /-- What it does. -/
  statement : Statement
  deriving DecidableEq, Repr

/-- The line that stores a statement, typed as a text, under a number. -/
def Line.ofText (number : Nat) (text : String) (statement : Statement) : Line :=
  ⟨number, trimmed text, statement⟩

end LineBasic
