import LineBasic.Statement.Basic

namespace LineBasic

/-!
# Visiting statements

The parts of a statement in the order in which it uses them: each part after the parts inside it,
and the value of an assignment before its target. The linter goes by this order.
-/

/-- A part of a statement. -/
inductive Visit where
  /-- An expression has been evaluated. -/
  | expr (e : Expr)
  /-- A variable has been given a value. -/
  | target (t : Target)
  /-- A statement has been carried out. -/
  | statement (s : Statement)
  deriving DecidableEq, Repr

/-- The visits to an expression and to what is inside it. -/
def Expr.visits (e : Expr) : List Visit := e.nodes.map .expr

/-- The visits to a part of a `PRINT` statement. -/
def PrintItem.visits : PrintItem → List Visit
  | .value e => e.visits
  | .text .. | .comma _ | .semicolon _ => []

/-- The visits to the bounds of a `LIST`. -/
def Extent.visits : Extent → List Visit
  | .whole => []
  | .onward low => low.visits
  | .between low high => low.visits ++ high.visits

/-- The visits to a statement and to what is inside it. -/
def Statement.visits : Statement → List Visit
  | .clear s => [.statement (.clear s)]
  | .halt s => [.statement (.halt s)]
  | .goto s e => e.visits ++ [.statement (.goto s e)]
  | .gosub s e => e.visits ++ [.statement (.gosub s e)]
  | .ret s => [.statement (.ret s)]
  | .cond s lhs r rhs body =>
    lhs.visits ++ rhs.visits ++ body.visits ++ [.statement (.cond s lhs r rhs body)]
  | .input s targets => targets.map .target ++ [.statement (.input s targets)]
  | .assign s t e => e.visits ++ [.target t, .statement (.assign s t e)]
  | .list s extent => extent.visits ++ [.statement (.list s extent)]
  | .print s items => items.flatMap PrintItem.visits ++ [.statement (.print s items)]
  | .remark s text => [.statement (.remark s text)]
  | .run s arguments => arguments.flatMap Expr.visits ++ [.statement (.run s arguments)]

end LineBasic
