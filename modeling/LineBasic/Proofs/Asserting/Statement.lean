import LineBasic.Line
import LineBasic.Proofs.Asserting.Reader
import LineBasic.Proofs.Statement.Reading

namespace LineBasic

open Token Attempt

/-!
# Reading statements with assertions

* `Cursor.statement` -- statements, read with a cursor, and the readers for what follows the word of
  each;
* `Cursor.statement_agrees` -- no check fails, and the same is read;
* `parse`, `parseExpr`, `entryOf` -- whole rows and whole lines, with reports that are told their
  lines as well;
* `parse_eq`, `parseExpr_eq`, `entryOf_eq` -- what is made of the tokens that the scanner gives, and
  of any text.
-/

namespace Asserting.Cursor

/-! ### Readers -/

/-- Reads the variable, equals sign and value of an assignment. -/
def assignment (span : Span) (c : Cursor) : Attempt (Statement × Cursor) := do
  let t ← c.peek
  match t.kind with
  | .letter x =>
    let ⟨c, _⟩ ← c.next
    match ← c.nextIf (.operator (.relation .equal)) with
    | none => throw (← c.misplaced .letMissingEquals)
    | some c =>
      let u ← c.peek
      if u.isEndOfLine then throw (← Cause.letMissingExpression.reportAt u.span)
      else
        let (e, c) ← c.expression
        return (.assign span ⟨t.span, x⟩ e, c)
  | _ => throw (← c.misplaced .letMissingVariable)

/-- Reads the parts of a `PRINT` statement, up to a colon or the end of the line. -/
def items (c : Cursor) : Attempt (List PrintItem × Cursor) := do
  let t ← c.peek
  match t.kind with
  | .endOfLine | .colon => return ([], c)
  | .string text =>
    let ⟨c', _⟩ ← c.next
    let (more, c') ← items c'
    return (.text t.span text :: more, c')
  | .comma =>
    let ⟨c', _⟩ ← c.next
    let (more, c') ← items c'
    return (.comma t.span :: more, c')
  | .semicolon =>
    let ⟨c', _⟩ ← c.next
    let (more, c') ← items c'
    return (.semicolon t.span :: more, c')
  | _ =>
    let (e, c') ← c.expression
    let ⟨c', _⟩ ← c.further c'
    let (more, c') ← items c'
    return (.value e :: more, c')
termination_by c.left

/-- Reads what follows `PRINT`. -/
def print (span : Span) (c : Cursor) : Attempt (Statement × Cursor) := do
  let t ← c.peek
  match t.kind with
  | .endOfLine => return (.print span [], c)
  | .comma | .semicolon | .colon => throw (← Cause.printLeadingSeparator.reportAt t.span)
  | _ =>
    let (items, c) ← c.items
    return (.print span items, (← c.nextIf .colon).getD c)

/-- Reads what follows `LIST`. -/
def extent (c : Cursor) : Attempt (Extent × Cursor) := do
  if (← c.peek).isEndOfLine then return (.whole, c)
  else
    let (low, c) ← c.expression
    match ← c.nextIf .comma with
    | none => return (.onward low, c)
    | some c =>
      let (high, c) ← c.expression
      return (.between low high, c)

/-- Reads the condition of an `IF`, with the `THEN` after it if there is one. -/
def condition (c : Cursor) : Attempt ((Expr × Relation × Expr) × Cursor) := do
  let (lhs, c) ← c.expression
  let t ← c.peek
  match t.kind with
  | .operator (.relation r) =>
    let ⟨c, _⟩ ← c.next
    let (rhs, c) ← c.expression
    return ((lhs, r, rhs), (← c.nextIf (.word .THEN)).getD c)
  | _ => throw (← c.misplaced .missingRelation)

/-- Reads the variables of an `INPUT`, with commas between them. -/
def targets (c : Cursor) : Attempt (List Target × Cursor) := do
  let t ← c.peek
  match t.kind with
  | .letter x =>
    let ⟨c', _⟩ ← c.next
    match ← c'.nextIf .comma with
    | none => return ([⟨t.span, x⟩], c')
    | some c' =>
      let ⟨c', _⟩ ← c.further c'
      let (more, c') ← targets c'
      return (⟨t.span, x⟩ :: more, c')
  | _ => throw (← c.misplaced .inputMissingVariable)
termination_by c.left

/-- Reads the values of a `RUN`, up to the end of the line. -/
def arguments (c : Cursor) : Attempt (List Expr × Cursor) := do
  if (← c.peek).isEndOfLine then return ([], c)
  else
    match ← c.nextIf .comma with
    | some c' =>
      let u ← c'.peek
      if u.isEndOfLine then throw (← Cause.trailingRunComma.reportAt u.span)
      else
        let ⟨c', _⟩ ← c.further c'
        arguments c'
    | none =>
      let (e, c') ← c.expression
      let ⟨c', _⟩ ← c.further c'
      let (more, c') ← arguments c'
      return (e :: more, c')
termination_by c.left

/-- Reads the target of a `GOTO` or `GOSUB`. -/
def jump (word : Keyword) (c : Cursor) : Attempt (Expr × Cursor) := do
  let t ← c.peek
  if t.isEndOfLine then throw (← (Cause.missingTarget word).reportAt t.span) else c.expression

/-- Reads a statement.  A word that begins no statement is taken before that is noticed, and given
    back. -/
def statement (c : Cursor) : Attempt (Statement × Cursor) := do
  let t ← c.peek
  match t.kind with
  | .letter _ => c.assignment t.span
  | .word word =>
    let ⟨c', _⟩ ← c.next
    match word with
    | .CLEAR => return (.clear t.span, c')
    | .END => return (.halt t.span, c')
    | .RETURN => return (.ret t.span, c')
    | .REM =>
      match (← c'.peek).kind with
      | .comment text =>
        let ⟨c', _⟩ ← c'.next
        return (.remark t.span text, c')
      | _ => return (.remark t.span "", c')
    | .GOTO =>
      let (e, c') ← c'.jump .GOTO
      return (.goto t.span e, c')
    | .GOSUB =>
      let (e, c') ← c'.jump .GOSUB
      return (.gosub t.span e, c')
    | .LET => c'.assignment t.span
    | .PRINT => c'.print t.span
    | .LIST =>
      let (extent, c') ← c'.extent
      return (.list t.span extent, c')
    | .INPUT =>
      let (targets, c') ← c'.targets
      return (.input t.span targets, c')
    | .RUN =>
      let (arguments, c') ← c'.arguments
      return (.run t.span arguments, c')
    | .IF =>
      let ((lhs, r, rhs), c') ← c'.condition
      let ⟨c', _⟩ ← c.further c'
      let (body, c') ← statement c'
      return (.cond t.span lhs r rhs body, c')
    | .THEN | .RND | .USR =>
      let c ← c'.back
      throw (← c.misplaced .unexpectedExpression)
  | _ => throw (← c.misplaced .unexpectedExpression)
termination_by c.left

/-! ### No check fails -/

variable {c : Cursor} {t : Token} {ts : List Token}

/-- What has been read is a part of something. -/
theorem agrees_part {α β : Type} {g : Attempt (α × Cursor)} {x : Except Fault (α × List Token)}
    {f : α → β} (h : Agrees Stands g x) :
    Agrees Stands (do let (a, c) ← g; return (f a, c)) (x.map fun (a, rest) => (f a, rest)) :=
  agrees_read_map h fun _ _ _ hc => agrees_ok ⟨rfl, hc⟩

/-- Reading an assignment fails no check, with `LET` before it or without. -/
theorem assignment_agrees (span : Span) (hc : c.At ts) :
    Agrees Stands (c.assignment span) (Statement.readAssignment span ts) := by
  obtain ⟨t, ts, rfl⟩ := hc.exists_cons
  unfold assignment Statement.readAssignment
  refine agrees_peek hc ?_
  split
  next x hk =>
    simp only [hk]
    refine agrees_next hc (by simp [hk]) fun c _ hc => ?_
    obtain ⟨u, ts, rfl⟩ := hc.exists_cons
    refine agrees_nextIf hc (by simp) (fun hu c hc => ?_) fun hu => ?_
    · simp only [skip?, hu, if_true]
      obtain ⟨v, ts, rfl⟩ := hc.exists_cons
      refine agrees_peek hc ?_
      show Agrees _ (if v.isEndOfLine = true then _ else _) (if v.isEndOfLine = true then _ else _)
      split
      · exact agrees_report
      · exact agrees_part (expression_agrees hc)
    · simp only [skip?, hu, if_false]
      exact agrees_misplaced hc _
  next =>
    simp only
    exact agrees_misplaced hc _

/-- Reading the parts of a `PRINT` fails no check. -/
theorem items_agrees (hc : c.At ts) : Agrees Stands c.items (Statement.readItems ts) := by
  fun_induction Statement.readItems ts generalizing c with
  | case1 => exact absurd hc not_at_nil
  | case2 t ts hk =>
    rw [items]
    refine agrees_peek hc ?_
    simp only [hk]
    exact agrees_ok ⟨rfl, hc⟩
  | case3 t ts hk =>
    rw [items]
    refine agrees_peek hc ?_
    simp only [hk]
    exact agrees_ok ⟨rfl, hc⟩
  | case4 t ts text hk ih =>
    rw [items]
    refine agrees_peek hc ?_
    simp only [hk]
    refine agrees_next hc (by simp [hk]) fun c _ hc => ?_
    exact agrees_part (ih hc)
  | case5 t ts hk ih =>
    rw [items]
    refine agrees_peek hc ?_
    simp only [hk]
    exact agrees_next hc (by simp [hk]) fun c _ hc => agrees_part (ih hc)
  | case6 t ts hk ih =>
    rw [items]
    refine agrees_peek hc ?_
    simp only [hk]
    exact agrees_next hc (by simp [hk]) fun c _ hc => agrees_part (ih hc)
  | case7 t ts fault hread =>
    rw [items]
    refine agrees_peek hc ?_
    simp only
    exact (hread ▸ expression_agrees hc).of_error rfl
  -- The reader insists that an expression has moved it on, which it has because no expression is
  -- empty.
  | case8 t ts e after hread _ _ _ _ _ ih =>
    rw [items]
    refine agrees_peek hc ?_
    simp only
    refine agrees_read_ok (hread ▸ expression_agrees hc) fun c' hc' => ?_
    exact agrees_further (hc.left_lt hc' (Expr.read_length_lt hread)) (agrees_part (ih hc'))

/-- What has been read may have a colon behind it. -/
theorem agrees_colon {α : Type} {kind : Kind} (hc : c.At ts) (hkind : kind ≠ .endOfLine) (a : α) :
    Agrees Stands (do return (a, (← c.nextIf kind).getD c)) (.ok (a, (skip? kind ts).getD ts)) := by
  obtain ⟨t, ts, rfl⟩ := hc.exists_cons
  refine agrees_nextIf hc hkind (fun ht c' hc' => ?_) fun ht => ?_
  · simp only [skip?, ht, if_true]
    exact agrees_ok ⟨rfl, hc'⟩
  · simp only [skip?, ht, if_false]
    exact agrees_ok ⟨rfl, hc⟩

/-- Reading what follows the word `PRINT` fails no check. -/
theorem print_agrees (span : Span) (hc : c.At ts) :
    Agrees Stands (c.print span) (Statement.readPrint span ts) := by
  obtain ⟨t, ts, rfl⟩ := hc.exists_cons
  unfold print Statement.readPrint
  refine agrees_peek hc ?_
  split
  case h_1 hk =>
    simp only [skip?, hk, Statement.readItems]
    exact agrees_ok ⟨rfl, by simpa [hk] using hc⟩
  case h_5 h1 h2 h3 h4 =>
    have hskip : ∀ kind, t.kind ≠ kind → skip? kind (t :: ts) = none := fun kind h => if_neg h
    rw [hskip _ h2, hskip _ h3, hskip _ h4]
    exact agrees_read_map (items_agrees hc) fun items c rest hc => agrees_colon hc (by simp) _
  all_goals
    next hk =>
      simp only [skip?, hk]
      exact agrees_report

/-- Reading the bounds of a `LIST` fails no check. -/
theorem extent_agrees (hc : c.At ts) : Agrees Stands c.extent (Statement.readExtent ts) := by
  obtain ⟨t, ts, rfl⟩ := hc.exists_cons
  unfold extent Statement.readExtent
  refine agrees_peek hc ?_
  show Agrees _ (if t.isEndOfLine = true then _ else _) (if t.isEndOfLine = true then _ else _)
  split
  · exact agrees_ok ⟨rfl, hc⟩
  · refine agrees_read (expression_agrees hc) fun low c rest hc => ?_
    obtain ⟨u, rest, rfl⟩ := hc.exists_cons
    refine agrees_nextIf hc (by simp) (fun hu c hc => ?_) fun hu => ?_
    · simp only [skip?, hu, if_true]
      exact agrees_read (expression_agrees hc) fun high c rest hc => agrees_ok ⟨rfl, hc⟩
    · simp only [skip?, hu, if_false]
      exact agrees_ok ⟨rfl, hc⟩

/-- Reading the condition of an `IF` fails no check. -/
theorem condition_agrees (hc : c.At ts) :
    Agrees Stands c.condition (Statement.readCondition ts) := by
  unfold condition Statement.readCondition
  refine agrees_read (expression_agrees hc) fun lhs c rest hc => ?_
  obtain ⟨u, rest, rfl⟩ := hc.exists_cons
  refine agrees_peek hc ?_
  split
  next r hk =>
    simp only [Statement.relation?, hk]
    refine agrees_next hc (by simp [hk]) fun c _ hc => ?_
    exact agrees_read (expression_agrees hc) fun rhs c rest hc => agrees_colon hc (by simp) _
  next h =>
    simp only [Statement.relation?]
    exact agrees_misplaced hc _

/-- Reading the variables of an `INPUT` fails no check. -/
theorem targets_agrees (hc : c.At ts) : Agrees Stands c.targets (Statement.readTargets ts) := by
  fun_induction Statement.readTargets ts generalizing c with
  | case1 => exact absurd hc not_at_nil
  | case2 t x hk =>
    rw [targets]
    refine agrees_peek hc ?_
    simp only [hk]
    exact agrees_next hc (by simp [hk]) fun c _ hc => absurd hc not_at_nil
  | case3 t x hk u us hu ih =>
    rw [targets]
    refine agrees_peek hc ?_
    simp only [hk]
    refine agrees_next hc (by simp [hk]) fun c₁ h₁ hc₁ => ?_
    refine agrees_nextIf hc₁ (by simp) (fun _ c₂ hc₂ => ?_) fun hne => absurd hu hne
    exact agrees_further (hc.left_lt hc₂ (by simp only [List.length_cons]; omega))
      (agrees_part (ih hc₂))
  | case4 t x hk u us hu =>
    rw [targets]
    refine agrees_peek hc ?_
    simp only [hk]
    refine agrees_next hc (by simp [hk]) fun c₁ h₁ hc₁ => ?_
    exact agrees_nextIf hc₁ (by simp) (fun h => absurd h hu) fun _ => agrees_ok ⟨rfl, hc₁⟩
  | case5 t ts h =>
    rw [targets]
    refine agrees_peek hc ?_
    simp only
    exact agrees_misplaced hc _

/-- Reading the values of a `RUN` fails no check. -/
theorem arguments_agrees (hc : c.At ts) :
    Agrees Stands c.arguments (Statement.readArguments ts) := by
  fun_induction Statement.readArguments ts generalizing c with
  | case1 => exact absurd hc not_at_nil
  | case2 t ts hk =>
    rw [arguments]
    refine agrees_peek hc ?_
    rw [if_pos (isEndOfLine_iff.2 hk)]
    exact agrees_ok ⟨rfl, hc⟩
  -- A comma at the end is refused at the token behind it, so there has to be one.
  | case3 t ts hk hend =>
    rw [arguments]
    refine agrees_peek hc ?_
    rw [if_neg (by simp [isEndOfLine_iff, hk])]
    refine agrees_nextIf hc (by simp) (fun _ c hc => ?_) fun hne => absurd hk hne
    obtain ⟨u, ts, rfl⟩ := hc.exists_cons
    refine agrees_peek hc ?_
    rw [if_pos (show u.isEndOfLine from hend)]
    exact agrees_report
  | case4 t ts hk hmore ih =>
    rw [arguments]
    refine agrees_peek hc ?_
    rw [if_neg (by simp [isEndOfLine_iff, hk])]
    refine agrees_nextIf hc (by simp) (fun _ c' hc' => ?_) fun hne => absurd hk hne
    have hlt : c'.left < c.left := hc.left_lt hc' (Nat.lt_succ_self _)
    obtain ⟨u, ts, rfl⟩ := hc'.exists_cons
    refine agrees_peek hc' ?_
    rw [if_neg (show ¬ u.isEndOfLine from hmore)]
    exact agrees_further hlt (ih hc')
  | case5 t ts fault hread hend hcomma =>
    rw [arguments]
    refine agrees_peek hc ?_
    rw [if_neg (mt isEndOfLine_iff.1 hend)]
    refine agrees_nextIf hc (by simp) (fun h => absurd h hcomma) fun _ => ?_
    exact (hread ▸ expression_agrees hc).of_error rfl
  | case6 t ts e after hread hend hcomma ih =>
    rw [arguments]
    refine agrees_peek hc ?_
    rw [if_neg (mt isEndOfLine_iff.1 hend)]
    refine agrees_nextIf hc (by simp) (fun h => absurd h hcomma) fun _ => ?_
    refine agrees_read_ok (hread ▸ expression_agrees hc) fun c' hc' => ?_
    exact agrees_further (hc.left_lt hc' (Expr.read_length_lt hread)) (agrees_part (ih hc'))

/-- Reading the target of a jump fails no check. -/
theorem jump_agrees (word : Keyword) (hc : c.At ts) :
    Agrees Stands (c.jump word) (Statement.readJump word ts) := by
  obtain ⟨t, ts, rfl⟩ := hc.exists_cons
  unfold jump Statement.readJump
  refine agrees_peek hc ?_
  show Agrees _ (if t.isEndOfLine = true then _ else _) (if t.isEndOfLine = true then _ else _)
  split
  · exact agrees_report
  · exact expression_agrees hc

/-- **Reading a statement.**  No check fails, and what is read is what the library's reader
    reads. -/
theorem statement_agrees (hc : c.At ts) : Agrees Stands c.statement (Statement.read ts) := by
  fun_induction Statement.read ts generalizing c
  case case1 => exact absurd hc not_at_nil
  all_goals
    rw [statement]
    refine agrees_peek hc ?_
  case case17 hletter _ _ _ _ _ _ _ _ _ _ _ _ =>
    split
    case h_1 hk => exact (hletter _ hk).elim
    case h_2 word hk =>
      obtain ⟨c', hlt, hnext, -, hback⟩ := hc.next (by simp [hk])
      rw [hnext]
      cases word
      case THEN | RND | USR =>
        show Agrees Stands (do let c ← c'.back; throw (← c.misplaced .unexpectedExpression)) _
        rw [hback]
        exact agrees_misplaced hc _
      all_goals contradiction
    case h_3 => exact agrees_misplaced hc _
  all_goals simp only [‹Token.kind _ = _›]
  case case2 => exact assignment_agrees _ hc
  -- Any other statement begins with a word, which is taken first.
  all_goals refine agrees_next hc (by simp [‹Token.kind _ = _›]) fun c' hlt hc' => ?_
  case case3 | case4 | case5 => exact agrees_ok ⟨rfl, hc'⟩
  case case6 =>
    refine agrees_peek hc' ?_
    exact agrees_next hc' (by simp) fun c'' _ hc'' => agrees_ok ⟨rfl, hc''⟩
  case case7 hne =>
    obtain ⟨⟨kind, lexeme, line, column⟩, ts, rfl⟩ := hc'.exists_cons
    refine agrees_peek hc' ?_
    cases kind
    case comment text => exact (hne text lexeme line column ts rfl).elim
    all_goals exact agrees_ok ⟨rfl, hc'⟩
  case case8 | case9 => exact agrees_part (jump_agrees _ hc')
  case case10 => exact assignment_agrees _ hc'
  case case11 => exact print_agrees _ hc'
  case case12 => exact agrees_part (extent_agrees hc')
  case case13 => exact agrees_part (targets_agrees hc')
  case case14 => exact agrees_part (arguments_agrees hc')
  case case15 hread => exact (hread ▸ condition_agrees hc').of_error rfl
  case case16 t ts hk lhs r rhs after hread ih =>
    refine agrees_read_ok (hread ▸ condition_agrees hc') fun c'' hc'' => ?_
    have hlt : after.length < (t :: ts).length :=
      Nat.lt_succ_of_lt (Statement.readCondition_length_lt hread)
    exact agrees_further (hc.left_lt hc'' hlt) (agrees_part (ih hc''))

/-! ### Whole rows -/

/-- Reads a statement that is the rest of its line. -/
def lastStatement (c : Cursor) : Attempt Statement := do
  let (s, c) ← c.statement
  c.expectEnd
  return s

/-- Reading a statement with the end of the line behind it fails no check. -/
theorem lastStatement_agrees (hc : c.At ts) :
    Agrees Eq c.lastStatement (Statement.ofTokens ts) := by
  refine agrees_read (statement_agrees hc) fun s c rest hc => ?_
  exact (expectEnd_agrees hc).bind fun _ _ _ => agrees_ok rfl

/-- There is a cursor at the front of a row with an end. -/
theorem start_of_ended (h : Ended ts) : ∃ c, start ts = .ok c ∧ c.At ts := by
  obtain ⟨last, hlast, hk⟩ := h.getLast?
  refine ⟨{ tokens := ts }, ?_, rfl, h⟩
  rw [start, insist_of (by simp [hlast, isEndOfLine_iff.2 hk])]
  rfl

end Asserting.Cursor

namespace Asserting

/-- The line number that a token denotes. -/
def lineNumber (t : Token) : Attempt Nat := do
  match t.kind with
  | .lineNumber digits | .number digits =>
    match LineNumber.ofText? digits.toList with
    | some n => return n
    | none => throw (← (Cause.lineNumberRange digits).reportAt t.span)
  | _ => throw (← Cause.notLineNumber.reportAt t.span)

/-- Reads an entry on behalf of a numbered line, or of none. -/
def entry (line : Option Nat) (c : Cursor) : Attempt Entry := do
  match line with
  | some n =>
    if (← c.peek).isEndOfLine then return .delete n
    else return .store n (← c.lastStatement)
  | none => return .direct (← c.lastStatement)

/-- The entry that the tokens of a line spell.  What stands in its way is told the number of the
    line, unless it is that number. -/
def parse (tokens : List Token) : Attempt Entry := do
  let c ← Cursor.start tokens
  let t ← c.peek
  match t.kind with
  | .lineNumber _ =>
    let ⟨c, _⟩ ← c.next
    let n ← lineNumber t
    (entry (some n) c).tryCatch fun d => do throw (← d.giveLine (some n))
  | _ => (entry none c).tryCatch fun d => do throw (← d.giveLine none)

/-- The expression that a whole row of tokens spells. -/
def parseExpr (tokens : List Token) : Attempt Expr := do
  let c ← Cursor.start (Expr.numbered tokens)
  let (e, c) ← c.expression
  c.expectEnd
  return e

/-- The entry that a typed text is. -/
def entryOf (text : String) : Attempt Entry :=
  let source := trimmed text
  ExceptT.tryCatch (do parse (← scan source)) fun d => throw (d.inSource source)

variable {α : Type}

/-- Reading the number of a line fails no check, whether or not a line can have it. -/
theorem lineNumber_agrees (t : Token) : Agrees Eq (lineNumber t) t.lineNumber := by
  unfold lineNumber Token.lineNumber
  cases t.kind with
  | lineNumber digits | number digits =>
    dsimp only
    cases LineNumber.ofText? digits.toList with
    | some n => exact agrees_ok rfl
    | none => exact agrees_report
  | _ => exact agrees_report

/-- What an attempt with a located report comes to. -/
theorem run_onLine {g : Attempt α} {x : Except Fault α} (line : Option Nat) (h : Agrees Eq g x) :
    (g.tryCatch fun d => do throw (← d.giveLine line)).run =
      .ok (x.mapError fun fault => fault.diagnostic.atLine line) := by
  cases x with
  | error fault =>
    obtain rfl : g = throw fault.diagnostic := h
    rfl
  | ok a =>
    obtain ⟨_, rfl, rfl⟩ := h
    rfl

/-- A line without a number is read without a breach as a direct statement. -/
theorem entry_direct_agrees {c : Cursor} {ts : List Token} (hc : c.At ts) :
    Agrees Eq (entry none c) ((Statement.ofTokens ts).map Entry.direct) :=
  (Cursor.lastStatement_agrees hc).map fun _ _ h => h ▸ agrees_ok rfl

/-- A line with a number is read without a breach as one to delete or to store. -/
theorem entry_numbered_agrees {c : Cursor} {ts : List Token} (n : Nat) (hc : c.At ts) :
    Agrees Eq (entry (some n) c)
      (if atEnd ts then .ok (.delete n) else (Statement.ofTokens ts).map (Entry.store n)) := by
  obtain ⟨t, ts, rfl⟩ := hc.exists_cons
  refine Cursor.agrees_peek hc ?_
  show Agrees _ (if t.isEndOfLine = true then _ else _) (if t.isEndOfLine = true then _ else _)
  split
  · exact agrees_ok rfl
  · exact (Cursor.lastStatement_agrees hc).map fun _ _ h => h ▸ agrees_ok rfl

/-- **Parsing.**  The tokens of a line are parsed without a breach, and as the library parses
    them. -/
theorem parse_eq {ts : List Token} (h : Ended ts) : (parse ts).run = .ok (Entry.ofTokens ts) := by
  obtain ⟨c, hstart, hc⟩ := Cursor.start_of_ended h
  obtain ⟨t, ts, rfl⟩ := hc.exists_cons
  unfold parse Entry.ofTokens
  rw [run_after hstart, run_after hc.peek]
  split
  next digits hk =>
    obtain ⟨c', hlt, hnext, hc', -⟩ := hc.next (by simp [hk])
    simp only [hk]
    rw [run_after hnext]
    have hnumber := lineNumber_agrees t
    cases hn : t.lineNumber with
    | error fault =>
      rw [hn] at hnumber
      obtain hnumber : lineNumber t = throw fault.diagnostic := hnumber
      rw [hnumber]
      rfl
    | ok n =>
      rw [hn] at hnumber
      obtain ⟨_, rfl, hnumber⟩ := hnumber
      rw [hnumber]
      show ExceptT.run ((entry (some _) c').tryCatch _) = _
      rw [run_onLine _ (entry_numbered_agrees _ hc')]
      split
      · rfl
      · cases Statement.ofTokens ts <;> rfl
  next =>
    simp only
    rw [run_onLine _ (entry_direct_agrees hc)]
    cases Statement.ofTokens (t :: ts) <;> rfl

/-- A row with an end still has it when the number of its line counts as a number. -/
theorem ended_numbered {ts : List Token} (h : Ended ts) : Ended (Expr.numbered ts) := by
  unfold Expr.numbered
  split
  next =>
    cases h with
    | last ht => cases ht
    | cons _ hts => exact .cons (by simp) hts
  next => exact h

/-- A row with an end is read without a breach as an expression, or with the library's report. -/
theorem parseExpr_eq {ts : List Token} (h : Ended ts) :
    (parseExpr ts).run = .ok ((Expr.ofTokens ts).mapError Fault.diagnostic) := by
  refine Agrees.run_eq ?_
  obtain ⟨c, hstart, hc⟩ := Cursor.start_of_ended (ended_numbered h)
  unfold parseExpr Expr.ofTokens
  rw [hstart]
  refine Cursor.agrees_read (Cursor.expression_agrees hc) fun e c rest hc => ?_
  exact (Cursor.expectEnd_agrees hc).bind fun _ _ _ => agrees_ok rfl

/-! ### What the scanner gives -/

/-- Scanned texts are parsed without a breach: every scanned row has an end. -/
theorem parse_scanned (text : String) :
    (do parse (← scan text) : Attempt Entry).run = .ok (Token.scan text >>= Entry.ofTokens) :=
  run_bind (scan_eq text) fun _ hscan => parse_eq (scan_isRow hscan).ended

/-- Scanned texts are read without a breach as expressions. -/
theorem parseExpr_scanned (text : String) :
    (do parseExpr (← scan text) : Attempt Expr).run =
      .ok (Token.scan text >>= fun ts => (Expr.ofTokens ts).mapError Fault.diagnostic) :=
  run_bind (scan_eq text) fun _ hscan => parseExpr_eq (scan_isRow hscan).ended

/-- **Entries.**  What a text asks for is found out without a breach, whatever the text. -/
theorem entryOf_eq (text : String) : (entryOf text).run = .ok (Entry.ofText text) := by
  have h := parse_scanned (trimmed text)
  unfold entryOf Entry.ofText
  cases hentry : Token.scan (trimmed text) >>= Entry.ofTokens with
  | error d =>
    rw [hentry] at h
    obtain h : (do parse (← scan (trimmed text)) : Attempt Entry) = throw d := h
    dsimp only
    rw [h, hentry]
    rfl
  | ok entry =>
    rw [hentry] at h
    obtain h : (do parse (← scan (trimmed text)) : Attempt Entry) = pure entry := h
    dsimp only
    rw [h, hentry]
    rfl

end Asserting

end LineBasic
