import LineBasic.Diagnostic.Basic
import LineBasic.LineNumber

namespace LineBasic

/-!
# Tokens

A scanned line is a row of tokens, the last of which marks the end of the line. A token knows its
kind, the text that stood for it (less the blanks inside it), its column, and the number of its
line.

Digits are kept as they were typed: `wrappedValue` reads them as a value of the language, and
`Token.lineNumber` as the number of a line.
-/

/-- What a token is. -/
inductive Kind where
  /-- Digits that begin a line. -/
  | lineNumber (digits : String)
  | number (digits : String)
  /-- A string, by what stands between its quotes. -/
  | string (text : String)
  /-- What follows `REM`, up to the end of the line. -/
  | comment (text : String)
  | letter (name : Letter)
  | word (word : Keyword)
  | operator (op : Operator)
  | leftParen | rightParen | comma | semicolon | colon
  | endOfLine
  deriving DecidableEq, Repr

/-- The text of a kind, in the language's own spelling. -/
def Kind.display : Kind → String
  | .lineNumber digits => digits
  | .number digits => digits
  | .string text => "\"" ++ text ++ "\""
  | .comment text => text
  | .letter x => x.name
  | .word w => w.name
  | .operator op => op.name
  | .leftParen => "("
  | .rightParen => ")"
  | .comma => ","
  | .semicolon => ";"
  | .colon => ":"
  | .endOfLine => "\n"

/-- A scanned token. -/
structure Token where
  /-- What it is. -/
  kind : Kind
  /-- The text that stood for it, without the blanks inside it. -/
  lexeme : String
  /-- The number of the line it is on, if the line begins with one. -/
  line : Option Nat
  /-- The column it begins at. -/
  column : Nat
  deriving DecidableEq, Repr

/-- What a row of digits is worth in the language: its value wrapped to 16 bits. Characters that are
no digits do not count. -/
def wrappedValue (digits : String) : Int16 :=
  Int16.ofNat (Text.value (digits.toList.filter Char.isDigit))

namespace Token

/-- The columns of a token: as many as its text has characters, from where it begins. -/
def span (t : Token) : Span := .covering t.column t.lexeme.length

/-- Whether a token marks the end of the line. -/
def isEndOfLine (t : Token) : Bool := t.kind == .endOfLine

/-- How a message names a token. -/
def found (t : Token) : Found := if t.isEndOfLine then .endOfLine else .lexeme t.lexeme

/-- The line number that a token denotes. -/
def lineNumber (t : Token) : Except Fault Nat :=
  match t.kind with
  | .lineNumber digits | .number digits =>
    match LineNumber.ofText? digits.toList with
    | some n => .ok n
    | none => .error ⟨.lineNumberRange digits, t.span⟩
  | _ => .error ⟨.notLineNumber, t.span⟩

end Token

end LineBasic
