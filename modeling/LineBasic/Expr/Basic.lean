import LineBasic.Letter
import LineBasic.Span

namespace LineBasic

/-!
# Expressions

The trees of arithmetic. Each node knows the columns of the token that it stands for: an operator,
an opening parenthesis, the name of a function, a variable or a number. `USR` has one to three
arguments, and a constructor for each number of them.
-/

/-- The operations on one value. -/
inductive UnaryOp where
  /-- A minus sign changes the sign. -/
  | negate
  /-- A plus sign takes the absolute value. -/
  | absolute
  deriving DecidableEq, Repr

/-- The operations on two values. -/
inductive BinaryOp where
  | multiply | divide | add | subtract
  deriving DecidableEq, Repr

/-- An expression. -/
inductive Expr where
  | int (span : Span) (value : Int16)
  | var (span : Span) (name : Letter)
  /-- `RND`, a random value below a bound. -/
  | rnd (span : Span) (bound : Expr)
  /-- `USR` with a routine alone. -/
  | usr (span : Span) (routine : Expr)
  /-- `USR` with a routine and an address. -/
  | usrAt (span : Span) (routine address : Expr)
  /-- `USR` with a routine, an address and a value. -/
  | usrWith (span : Span) (routine address value : Expr)
  | unary (span : Span) (op : UnaryOp) (arg : Expr)
  | binary (span : Span) (op : BinaryOp) (lhs rhs : Expr)
  /-- An expression in parentheses. -/
  | group (span : Span) (inner : Expr)
  deriving DecidableEq, Repr

namespace Expr

/-- The columns of the token that an expression stands for. -/
def span : Expr → Span
  | int s _ | var s _ | rnd s _ | usr s _ | usrAt s _ _ | usrWith s _ _ _ | unary s _ _
  | binary s _ _ _ | group s _ => s

/-- The number that an expression is, looking through parentheses, with its columns. -/
def literal? : Expr → Option (Span × Int16)
  | int s n => some (s, n)
  | group _ e => e.literal?
  | _ => none

/-- Whether `RND` or `USR` occurs anywhere in an expression. -/
def callsFunction : Expr → Bool
  | int .. | var .. => false
  | rnd .. | usr .. | usrAt .. | usrWith .. => true
  | unary _ _ e | group _ e => e.callsFunction
  | binary _ _ l r => l.callsFunction || r.callsFunction

/-- All expressions in an expression, each after those inside it. -/
def nodes : Expr → List Expr
  | int s n => [int s n]
  | var s x => [var s x]
  | rnd s e => e.nodes ++ [rnd s e]
  | usr s e => e.nodes ++ [usr s e]
  | usrAt s e a => e.nodes ++ a.nodes ++ [usrAt s e a]
  | usrWith s e a v => e.nodes ++ a.nodes ++ v.nodes ++ [usrWith s e a v]
  | unary s op e => e.nodes ++ [unary s op e]
  | binary s op l r => l.nodes ++ r.nodes ++ [binary s op l r]
  | group s e => e.nodes ++ [group s e]

/-- An expression is the last of its nodes. -/
theorem getLast?_nodes (e : Expr) : e.nodes.getLast? = some e := by
  cases e <;> simp [nodes]

end Expr

instance : Inhabited Expr := ⟨.int .unplaced 0⟩

end LineBasic
