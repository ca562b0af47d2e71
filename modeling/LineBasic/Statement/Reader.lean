import LineBasic.Expr.Reader
import LineBasic.Statement.Basic

namespace LineBasic.Statement

/-!
# Reading statements

From the tokens of a line to its statement. The first word decides which statement it is, and a
variable in front stands for an assignment. A reader takes the tokens that belong to its statement
and gives the others; `ofTokens` insists that none are left.

* `readAssignment`, `readItems`, `readExtent`, `readCondition`, `readTargets`, `readArguments` --
  what follows the word of one statement;
* `read` -- any statement, with the statement of an `IF` inside it.
-/

open Token (atEnd spanOf misplaced skip? expectEnd)

/-- Reads the variable, equals sign and value of an assignment. -/
def readAssignment (span : Span) : List Token → Except Fault (Statement × List Token)
  | [] => .error (misplaced .letMissingVariable [])
  | t :: ts =>
    match t.kind with
    | .letter x =>
      match skip? (.operator (.relation .equal)) ts with
      | none => .error (misplaced .letMissingEquals ts)
      | some ts =>
        if atEnd ts then .error ⟨.letMissingExpression, spanOf ts⟩
        else (Expr.read ts).map fun (e, rest) => (.assign span ⟨t.span, x⟩ e, rest)
    | _ => .error (misplaced .letMissingVariable (t :: ts))

/-- Reads the parts of a `PRINT` statement, up to a colon or the end of the line. -/
def readItems (ts : List Token) : Except Fault (List PrintItem × List Token) :=
  match ts with
  | [] => .ok ([], [])
  | t :: ts =>
    match t.kind with
    | .endOfLine | .colon => .ok ([], t :: ts)
    | .string text => (readItems ts).map fun (items, rest) => (.text t.span text :: items, rest)
    | .comma => (readItems ts).map fun (items, rest) => (.comma t.span :: items, rest)
    | .semicolon => (readItems ts).map fun (items, rest) => (.semicolon t.span :: items, rest)
    | _ =>
      match _h : Expr.read (t :: ts) with
      | .error fault => .error fault
      | .ok (e, rest) => (readItems rest).map fun (items, rest) => (.value e :: items, rest)
termination_by ts.length
decreasing_by
  all_goals first
    | exact Nat.lt_succ_self _
    | exact Expr.read_length_lt _h

/-- Reads what follows `PRINT`: nothing, or parts of which the first is no separator. One colon may
end them. -/
def readPrint (span : Span) (ts : List Token) : Except Fault (Statement × List Token) :=
  if (skip? .comma ts).isSome || (skip? .semicolon ts).isSome || (skip? .colon ts).isSome then
    .error ⟨.printLeadingSeparator, spanOf ts⟩
  else
    (readItems ts).map fun (items, rest) => (.print span items, (skip? .colon rest).getD rest)

/-- Reads what follows `LIST`: up to two expressions. -/
def readExtent (ts : List Token) : Except Fault (Extent × List Token) :=
  if atEnd ts then .ok (.whole, ts)
  else do
    let (low, rest) ← Expr.read ts
    match skip? .comma rest with
    | none => return (.onward low, rest)
    | some rest =>
      let (high, rest) ← Expr.read rest
      return (.between low high, rest)

/-- The relation that some tokens begin with, and the tokens after it. -/
def relation? : List Token → Option (Relation × List Token)
  | [] => none
  | t :: ts =>
    match t.kind with
    | .operator (.relation r) => some (r, ts)
    | _ => none

/-- Reads the condition of an `IF`, with the `THEN` after it if there is one. -/
def readCondition (ts : List Token) : Except Fault ((Expr × Relation × Expr) × List Token) := do
  let (lhs, ts) ← Expr.read ts
  match relation? ts with
  | none => .error (misplaced .missingRelation ts)
  | some (r, ts) =>
    let (rhs, ts) ← Expr.read ts
    return ((lhs, r, rhs), (skip? (.word .THEN) ts).getD ts)

/-- Reads the variables of an `INPUT`, with commas between them. -/
def readTargets : List Token → Except Fault (List Target × List Token)
  | [] => .error (misplaced .inputMissingVariable [])
  | t :: ts =>
    match t.kind with
    | .letter x =>
      match ts with
      | [] => .ok ([⟨t.span, x⟩], [])
      | u :: us =>
        if u.kind = .comma then
          (readTargets us).map fun (targets, rest) => (⟨t.span, x⟩ :: targets, rest)
        else .ok ([⟨t.span, x⟩], u :: us)
    | _ => .error (misplaced .inputMissingVariable (t :: ts))

/-- Reads the values of a `RUN`, up to the end of the line. Commas may stand anywhere but at the
    end. -/
def readArguments (ts : List Token) : Except Fault (List Expr × List Token) :=
  match ts with
  | [] => .ok ([], [])
  | t :: ts =>
    match t.kind with
    | .endOfLine => .ok ([], t :: ts)
    | .comma =>
      if atEnd ts then .error ⟨.trailingRunComma, spanOf ts⟩ else readArguments ts
    | _ =>
      match _h : Expr.read (t :: ts) with
      | .error fault => .error fault
      | .ok (e, rest) => (readArguments rest).map fun (arguments, rest) => (e :: arguments, rest)
termination_by ts.length
decreasing_by
  · exact Nat.lt_succ_self _
  · exact Expr.read_length_lt _h

/-- Reads the target of a `GOTO` or `GOSUB`. -/
def readJump (word : Keyword) (ts : List Token) : Except Fault (Expr × List Token) :=
  if atEnd ts then .error ⟨.missingTarget word, spanOf ts⟩ else Expr.read ts

/-- A condition takes tokens off the row. -/
theorem readCondition_length_lt {ts rest : List Token} {c : Expr × Relation × Expr}
    (h : readCondition ts = .ok (c, rest)) : rest.length < ts.length := by
  unfold readCondition at h
  simp only [bind, Except.bind] at h
  split at h
  · cases h
  next lhs h₁ =>
    have h₁ := Expr.read_length_lt h₁
    split at h
    · cases h
    next r ts' hr =>
      have hr : ts'.length ≤ lhs.2.length := by
        unfold relation? at hr
        split at hr
        · cases hr
        · split at hr
          · cases hr
            simp_all
          · cases hr
      split at h
      · cases h
      next rhs h₂ =>
        have h₂ := Expr.read_length_lt h₂
        simp only [pure, Except.pure, Except.ok.injEq, Prod.mk.injEq] at h
        have h₃ : rest.length ≤ rhs.2.length := by
          rw [← h.2]
          cases hs : skip? (.word .THEN) rhs.2 with
          | none => exact Nat.le_refl _
          | some after =>
            obtain ⟨t, _, ht⟩ := Token.skip?_eq_some hs
            simp [ht]
        omega

/-- Reads a statement, and gives the tokens after it. -/
def read (ts : List Token) : Except Fault (Statement × List Token) :=
  match ts with
  | [] => .error (misplaced .unexpectedExpression [])
  | t :: ts =>
    match t.kind with
    | .letter _ => readAssignment t.span (t :: ts)
    | .word .CLEAR => .ok (.clear t.span, ts)
    | .word .END => .ok (.halt t.span, ts)
    | .word .RETURN => .ok (.ret t.span, ts)
    | .word .REM =>
      match ts with
      | ⟨.comment text, _, _, _⟩ :: rest => .ok (.remark t.span text, rest)
      | ts => .ok (.remark t.span "", ts)
    | .word .GOTO => (readJump .GOTO ts).map fun (e, rest) => (.goto t.span e, rest)
    | .word .GOSUB => (readJump .GOSUB ts).map fun (e, rest) => (.gosub t.span e, rest)
    | .word .LET => readAssignment t.span ts
    | .word .PRINT => readPrint t.span ts
    | .word .LIST => (readExtent ts).map fun (extent, rest) => (.list t.span extent, rest)
    | .word .INPUT => (readTargets ts).map fun (targets, rest) => (.input t.span targets, rest)
    | .word .RUN => (readArguments ts).map fun (arguments, rest) => (.run t.span arguments, rest)
    | .word .IF =>
      match _h : readCondition ts with
      | .error fault => .error fault
      | .ok ((lhs, r, rhs), rest) =>
        (read rest).map fun (body, rest) => (.cond t.span lhs r rhs body, rest)
    | _ => .error (misplaced .unexpectedExpression (t :: ts))
termination_by ts.length
decreasing_by exact Nat.lt_succ_of_lt (readCondition_length_lt _h)

/-- The statement that a whole row of tokens spells. -/
def ofTokens (ts : List Token) : Except Fault Statement := do
  let (s, rest) ← read ts
  expectEnd rest
  return s

end LineBasic.Statement
