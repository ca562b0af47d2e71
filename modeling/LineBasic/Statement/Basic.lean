import LineBasic.Expr.Basic
import LineBasic.Keyword

namespace LineBasic

/-!
# Statements

The twelve statements of the language. Each knows the columns of the word that begins it; an
assignment without `LET` those of its variable.
-/

/-- A variable that a statement gives a value to. -/
structure Target where
  /-- The columns of its name. -/
  span : Span
  /-- Its name. -/
  name : Letter
  deriving DecidableEq, Repr

/-- A part of a `PRINT` statement. -/
inductive PrintItem where
  | text (span : Span) (text : String)
  | value (e : Expr)
  /-- A comma goes on to the next column of a table. -/
  | comma (span : Span)
  /-- A semicolon adds nothing. -/
  | semicolon (span : Span)
  deriving DecidableEq, Repr

/-- Whether a part of a `PRINT` statement is a comma or a semicolon. -/
def PrintItem.isSeparator : PrintItem → Bool
  | .comma _ | .semicolon _ => true
  | .text .. | .value _ => false

/-- The part of a program that `LIST` shows. -/
inductive Extent where
  /-- The whole program. -/
  | whole
  /-- One line, or all from its number on if it is not stored. -/
  | onward (low : Expr)
  /-- The lines between two numbers. -/
  | between (low high : Expr)
  deriving DecidableEq, Repr

/-- A statement. -/
inductive Statement where
  /-- `CLEAR` removes the program. -/
  | clear (span : Span)
  /-- `END` ends a run. -/
  | halt (span : Span)
  | goto (span : Span) (target : Expr)
  | gosub (span : Span) (target : Expr)
  /-- `RETURN` goes back behind the last `GOSUB`. -/
  | ret (span : Span)
  /-- `IF` carries out a statement if a relation holds. -/
  | cond (span : Span) (lhs : Expr) (relation : Relation) (rhs : Expr) (body : Statement)
  | input (span : Span) (targets : List Target)
  /-- `LET` gives a variable a value. -/
  | assign (span : Span) (target : Target) (value : Expr)
  | list (span : Span) (extent : Extent)
  | print (span : Span) (items : List PrintItem)
  /-- `REM` does nothing. -/
  | remark (span : Span) (comment : String)
  | run (span : Span) (arguments : List Expr)
  deriving DecidableEq, Repr

namespace Statement

/-- The columns of the word that begins a statement. -/
def span : Statement → Span
  | clear s | halt s | goto s _ | gosub s _ | ret s | cond s _ _ _ _ | input s _ | assign s _ _
  | list s _ | print s _ | remark s _ | run s _ => s

/-- The reserved word of a statement. -/
def word : Statement → Keyword
  | clear _ => .CLEAR
  | halt _ => .END
  | goto _ _ => .GOTO
  | gosub _ _ => .GOSUB
  | ret _ => .RETURN
  | cond .. => .IF
  | input _ _ => .INPUT
  | assign _ _ _ => .LET
  | list _ _ => .LIST
  | print _ _ => .PRINT
  | remark _ _ => .REM
  | run _ _ => .RUN

end Statement

instance : Inhabited Statement := ⟨.halt .unplaced⟩

end LineBasic
