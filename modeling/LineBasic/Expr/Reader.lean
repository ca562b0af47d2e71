import LineBasic.Expr.Basic
import LineBasic.Token.Row

namespace LineBasic

/-!
# Reading expressions

From tokens to expression trees:

* sums of products of signed values, operators of one level grouping to the left and signs binding
  tightest;
* a value is a number, a variable, an expression in parentheses, `RND` of one expression, or `USR`
  of one to three.

The reader goes through the tokens once and is in one of two moods: `operand`, where a value must
begin, and `operator`, where one has just been completed. Whatever still waits for a value to its
right is kept in a list of frames, the innermost first.
-/

namespace Expr

/-- What waits for a value to its right. -/
inductive Frame where
  /-- A value and the `+` or `-` after it. -/
  | sum (span : Span) (op : BinaryOp) (lhs : Expr)
  /-- A value and the `*` or `/` after it. -/
  | product (span : Span) (op : BinaryOp) (lhs : Expr)
  /-- A sign. -/
  | sign (span : Span) (op : UnaryOp)
  /-- An opening parenthesis. -/
  | group (span : Span)
  /-- `RND` and its parenthesis. -/
  | rnd (span : Span)
  /-- `USR`, its parenthesis and the arguments before this one. -/
  | usr (span : Span)
  | usrAt (span : Span) (routine : Expr)
  | usrWith (span : Span) (routine address : Expr)
  deriving DecidableEq, Repr

/-- Gives a value to the signs in front of it. -/
def closeSigns : Expr → List Frame → Expr × List Frame
  | e, .sign s op :: frames => closeSigns (.unary s op e) frames
  | e, frames => (e, frames)

/-- Completes the product that a value ends. -/
def closeProduct (e : Expr) (frames : List Frame) : Expr × List Frame :=
  match closeSigns e frames with
  | (e, .product s op lhs :: frames) => (.binary s op lhs e, frames)
  | closed => closed

/-- Completes the sum that a value ends. -/
def closeSum (e : Expr) (frames : List Frame) : Expr × List Frame :=
  match closeProduct e frames with
  | (e, .sum s op lhs :: frames) => (.binary s op lhs e, frames)
  | closed => closed

/-- The value of a closing parenthesis after a complete sum, and the frames outside it. -/
def closeParen? (e : Expr) : List Frame → Option (Expr × List Frame)
  | .group s :: frames => some (.group s e, frames)
  | .rnd s :: frames => some (.rnd s e, frames)
  | .usr s :: frames => some (.usr s e, frames)
  | .usrAt s routine :: frames => some (.usrAt s routine e, frames)
  | .usrWith s routine address :: frames => some (.usrWith s routine address e, frames)
  | _ => none

/-- The frames after a comma that follows a complete sum; only `USR` has room for one. -/
def nextArgument? (e : Expr) : List Frame → Option (List Frame)
  | .usr s :: frames => some (.usrAt s e :: frames)
  | .usrAt s routine :: frames => some (.usrWith s routine e :: frames)
  | _ => none

/-- The operator of a product, if a token is one. -/
def productOp? : Kind → Option BinaryOp
  | .operator .times => some .multiply
  | .operator .divide => some .divide
  | _ => none

/-- The operator of a sum, if a token is one. -/
def sumOp? : Kind → Option BinaryOp
  | .operator .plus => some .add
  | .operator .minus => some .subtract
  | _ => none

/-- What to do when a complete sum is followed by a token that cannot carry it on: with no frame
left the expression ends here, else a parenthesis is open. -/
def finish (e : Expr) (frames : List Frame) (ts : List Token) : Except Fault (Expr × List Token) :=
  if frames = [] then .ok (e, ts) else .error (Token.misplaced .missingParenthesis ts)

mutual

/-- Reads on where a value must begin. -/
def operand (frames : List Frame) : List Token → Except Fault (Expr × List Token)
  | [] => .error (Token.misplaced .unexpectedExpression [])
  | t :: ts =>
    match t.kind with
    | .operator .minus => operand (.sign t.span .negate :: frames) ts
    | .operator .plus => operand (.sign t.span .absolute :: frames) ts
    | .number digits => operator (.int t.span (wrappedValue digits)) frames ts
    | .letter x => operator (.var t.span x) frames ts
    | .leftParen => operand (.group t.span :: frames) ts
    | .word .RND => openFunction .RND (.rnd t.span :: frames) ts
    | .word .USR => openFunction .USR (.usr t.span :: frames) ts
    | _ => .error (Token.misplaced .unexpectedExpression (t :: ts))

/-- Reads on after the name of a function. -/
def openFunction (function : Keyword) (frames : List Frame) :
    List Token → Except Fault (Expr × List Token)
  | [] => .error ⟨.missingFunctionParenthesis function, Token.spanOf []⟩
  | t :: ts =>
    if t.kind = .leftParen then operand frames ts
    else .error ⟨.missingFunctionParenthesis function, t.span⟩

/-- Reads on after a value. -/
def operator (e : Expr) (frames : List Frame) : List Token → Except Fault (Expr × List Token)
  | [] =>
    let (e, frames) := closeSum e frames
    finish e frames []
  | t :: ts =>
    match productOp? t.kind with
    | some op =>
      let (e, frames) := closeProduct e frames
      operand (.product t.span op e :: frames) ts
    | none =>
      let (e, frames) := closeSum e frames
      match sumOp? t.kind with
      | some op => operand (.sum t.span op e :: frames) ts
      | none =>
        match t.kind with
        | .rightParen =>
          match closeParen? e frames with
          | some (e, frames) => operator e frames ts
          | none => finish e frames (t :: ts)
        | .comma =>
          match nextArgument? e frames with
          | some frames => operand frames ts
          | none => finish e frames (t :: ts)
        | _ => finish e frames (t :: ts)

end

/-- Finishing an expression never gives tokens back. -/
theorem finish_length_le {e e' : Expr} {frames : List Frame} {ts rest : List Token}
    (h : finish e frames ts = .ok (e', rest)) : rest.length ≤ ts.length := by
  unfold finish at h
  split at h <;> simp_all

/-- A reader that waits for a value takes at least one token, and one that has a value adds none. -/
theorem reading_length (ts : List Token) :
    (∀ frames e rest, operand frames ts = .ok (e, rest) → rest.length < ts.length) ∧
    (∀ f frames e rest, openFunction f frames ts = .ok (e, rest) → rest.length < ts.length) ∧
    (∀ v frames e rest, operator v frames ts = .ok (e, rest) → rest.length ≤ ts.length) := by
  induction ts with
  | nil =>
    refine ⟨fun _ _ _ h => ?_, fun _ _ _ _ h => ?_, fun _ _ _ _ h => ?_⟩
    · simp [operand] at h
    · simp [openFunction] at h
    · exact finish_length_le (by simpa [operator] using h)
  | cons t ts ih =>
    obtain ⟨ihOperand, ihOpen, ihOperator⟩ := ih
    refine ⟨fun frames e rest h => ?_, fun f frames e rest h => ?_, fun v frames e rest h => ?_⟩
    · rw [List.length_cons, Nat.lt_succ_iff]
      rw [operand] at h
      split at h
      all_goals first
        | exact Nat.le_of_lt (ihOperand _ _ _ h)
        | exact Nat.le_of_lt (ihOpen _ _ _ _ h)
        | exact ihOperator _ _ _ _ h
        | cases h
    · rw [openFunction] at h
      split at h
      · exact Nat.lt_succ_of_lt (ihOperand _ _ _ h)
      · cases h
    · rw [operator] at h
      repeat' split at h
      all_goals first
        | exact Nat.le_succ_of_le (Nat.le_of_lt (ihOperand _ _ _ h))
        | exact Nat.le_succ_of_le (ihOperator _ _ _ _ h)
        | exact finish_length_le h

/-- Reads the longest expression that some tokens begin with, and gives the tokens after it. -/
def read (ts : List Token) : Except Fault (Expr × List Token) := operand [] ts

/-- Reading an expression takes at least one token. -/
theorem read_length_lt {ts rest : List Token} {e : Expr} (h : read ts = .ok (e, rest)) :
    rest.length < ts.length := (reading_length ts).1 _ _ _ h

/-- The tokens with the number of their line, if they have one, taken for a number like any
    other. -/
def numbered : List Token → List Token
  | ⟨.lineNumber digits, lexeme, line, column⟩ :: ts => ⟨.number digits, lexeme, line, column⟩ :: ts
  | ts => ts

/-- The expression that a whole row of tokens spells. -/
def ofTokens (ts : List Token) : Except Fault Expr := do
  let (e, rest) ← read (numbered ts)
  Token.expectEnd rest
  return e

end Expr

end LineBasic
