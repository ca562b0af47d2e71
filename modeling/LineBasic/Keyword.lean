namespace LineBasic

/-!
# Reserved words and operators

The fifteen reserved words, the six relations of `IF`, and the operators, each with its spelling.
-/

/-- The reserved words, in their own spelling. -/
inductive Keyword where
  | CLEAR | END | GOSUB | GOTO | IF | INPUT | LET | LIST | PRINT | REM | RETURN | RND | RUN | THEN
  | USR
  deriving DecidableEq, Repr

/-- The spelling of a reserved word. -/
def Keyword.name : Keyword → String
  | .CLEAR => "CLEAR"
  | .END => "END"
  | .GOSUB => "GOSUB"
  | .GOTO => "GOTO"
  | .IF => "IF"
  | .INPUT => "INPUT"
  | .LET => "LET"
  | .LIST => "LIST"
  | .PRINT => "PRINT"
  | .REM => "REM"
  | .RETURN => "RETURN"
  | .RND => "RND"
  | .RUN => "RUN"
  | .THEN => "THEN"
  | .USR => "USR"

/-- The relations that an `IF` can test. -/
inductive Relation where
  | equal | notEqual | less | lessEqual | greater | greaterEqual
  deriving DecidableEq, Repr

namespace Relation

/-- The spelling of a relation. -/
def name : Relation → String
  | .equal => "="
  | .notEqual => "<>"
  | .less => "<"
  | .lessEqual => "<="
  | .greater => ">"
  | .greaterEqual => ">="

/-- Whether a relation holds between two values. -/
def holds : Relation → Int16 → Int16 → Bool
  | .equal, a, b => a == b
  | .notEqual, a, b => a != b
  | .less, a, b => a < b
  | .lessEqual, a, b => a ≤ b
  | .greater, a, b => b < a
  | .greaterEqual, a, b => b ≤ a

end Relation

/-- The operators: arithmetic, and the relations. -/
inductive Operator where
  | times | divide | plus | minus
  | relation (r : Relation)
  deriving DecidableEq, Repr

/-- The spelling of an operator. -/
def Operator.name : Operator → String
  | .times => "*"
  | .divide => "/"
  | .plus => "+"
  | .minus => "-"
  | .relation r => r.name

end LineBasic
