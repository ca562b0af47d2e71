import LineBasic.Expr.Basic
import LineBasic.Memory
import LineBasic.Random
import LineBasic.Statement.Basic
import LineBasic.Variables

namespace LineBasic

/-!
# Evaluation

What expressions read and change -- variables, memory and the random source -- and how they are
evaluated: from left to right, arithmetic wrapping around at 16 bits, division toward zero.
Evaluation stops at the first fault, and what was changed before it stays changed.

* `Expr.eval` -- the value of an expression;
* `printed` -- the text that the parts of a `PRINT` statement make up.
-/

/-- What expressions read and change. -/
structure Machine (γ : Type) where
  /-- The variables. -/
  vars : Variables
  /-- The memory of `USR`. -/
  memory : Memory
  /-- The source of `RND`. -/
  generator : γ
  deriving DecidableEq

/-- A computation on the machine that may fail. -/
abbrev Evaluation (γ α : Type) := EStateM Fault (Machine γ) α

variable {γ : Type}

/-- The value of an operation on one value. -/
def UnaryOp.apply : UnaryOp → Int16 → Int16
  | .negate, n => -n
  | .absolute, n => n.abs

/-- The value of an operation on two values; a division by zero has none. -/
def BinaryOp.apply? : BinaryOp → Int16 → Int16 → Option Int16
  | .multiply, a, b => some (a * b)
  | .divide, a, b => if b = 0 then none else some (a / b)
  | .add, a, b => some (a + b)
  | .subtract, a, b => some (a - b)

namespace Machine

/-- The value of a variable. -/
def fetch (span : Span) (x : Letter) : Evaluation γ Int16 := fun m =>
  match m.vars.get? x with
  | some n => .ok n m
  | none => .error ⟨.uninitialized x, span⟩ m

/-- A random value below a bound. -/
def roll [RandomSource γ] (span : Span) (bound : Int16) : Evaluation γ Int16 := fun m =>
  match RandomSource.roll m.generator bound with
  | .ok (n, generator) => .ok n { m with generator }
  | .error cause => .error ⟨cause, span⟩ m

/-- The result of a machine routine. -/
def call (span : Span) (arguments : List Int16) : Evaluation γ Int16 := fun m =>
  match m.memory.call arguments with
  | .ok (n, memory) => .ok n { m with memory }
  | .error cause => .error ⟨cause, span⟩ m

/-- The value of an operation on two values. -/
def combine (span : Span) (op : BinaryOp) (a b : Int16) : Evaluation γ Int16 :=
  match op.apply? a b with
  | some n => pure n
  | none => throw ⟨.divisionByZero, span⟩

end Machine

/-- Evaluates an expression. -/
def Expr.eval [RandomSource γ] : Expr → Evaluation γ Int16
  | .int _ n => pure n
  | .var s x => Machine.fetch s x
  | .rnd s e => do
    let n ← e.eval
    Machine.roll s n
  | .usr s routine => do
    let r ← routine.eval
    Machine.call s [r]
  | .usrAt s routine address => do
    let r ← routine.eval
    let a ← address.eval
    Machine.call s [r, a]
  | .usrWith s routine address value => do
    let r ← routine.eval
    let a ← address.eval
    let v ← value.eval
    Machine.call s [r, a, v]
  | .unary _ op e => do
    let n ← e.eval
    return op.apply n
  | .binary s op lhs rhs => do
    let a ← lhs.eval
    let b ← rhs.eval
    Machine.combine s op a b
  | .group _ e => e.eval

/-- Evaluates some expressions, one after the other. -/
def evalAll [RandomSource γ] : List Expr → Evaluation γ (List Int16)
  | [] => pure []
  | e :: es => do
    let n ← e.eval
    let ns ← evalAll es
    return n :: ns

/-! ### Printing -/

/-- How far apart the columns are that a comma goes on to. -/
def zoneWidth : Nat := 8

/-- The text with spaces up to the next column of the table, at least one. -/
def toNextZone (text : String) : String :=
  text ++ String.ofList (List.replicate (zoneWidth - text.length % zoneWidth) ' ')

/-- Adds the parts of a `PRINT` statement to a text. -/
def printOnto [RandomSource γ] (text : String) : List PrintItem → Evaluation γ String
  | [] => pure text
  | .text _ s :: items => printOnto (text ++ s) items
  | .value e :: items => do
    let n ← e.eval
    printOnto (text ++ Text.ofInt n.toInt) items
  | .comma _ :: items => printOnto (toNextZone text) items
  | .semicolon _ :: items => printOnto text items

/-- The text that a `PRINT` statement writes. A newline ends it unless a separator does. -/
def printed [RandomSource γ] (items : List PrintItem) : Evaluation γ String := do
  let text ← printOnto "" items
  return if items.getLast?.any PrintItem.isSeparator then text else text ++ "\n"

end LineBasic
