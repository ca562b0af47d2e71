import LineBasic.Expr.Reader
import LineBasic.Proofs.Asserting.Report
import LineBasic.Proofs.Token.Row

namespace LineBasic

open Token Attempt

/-!
# Reading expressions with assertions

The library's readers take tokens away from the front of a list.  Here they move a cursor along a
row of tokens, and the place of the cursor is checked with every look and with every move.

* `Token.Ended` -- rows of tokens with the end of the line as their last token and nowhere before;
* `Cursor`, `Cursor.peek`, `Cursor.next`, `Cursor.back`, `Cursor.nextIf`, `Cursor.further` --
  cursors and their moves;
* `Cursor.At` -- the tokens from a cursor on;
* `Cursor.operand`, `Cursor.openFunction`, `Cursor.operator` -- expressions, read with a cursor;
* `Cursor.reading_agrees`, `Cursor.expression_agrees` -- no check fails, and the same is read.
-/

namespace Token

/-- The test for the end of a line says what it is meant to say. -/
theorem isEndOfLine_iff {t : Token} : t.isEndOfLine ↔ t.kind = .endOfLine := by simp [isEndOfLine]

/-- Tokens of which the last, and no other, is the end of the line. -/
inductive Ended : List Token → Prop where
  | last {t : Token} (ht : t.kind = .endOfLine) : Ended [t]
  | cons {t : Token} {ts : List Token} (ht : t.kind ≠ .endOfLine) (hts : Ended ts) : Ended (t :: ts)

/-- A row with an end still has it when a token before the end is taken away. -/
theorem Ended.tail {t : Token} {ts : List Token} (h : Ended (t :: ts)) (ht : t.kind ≠ .endOfLine) :
    Ended ts := by
  cases h with
  | last hlast => exact absurd hlast ht
  | cons _ hts => exact hts

/-- The last token of a row with an end is that end. -/
theorem Ended.getLast? {ts : List Token} (h : Ended ts) :
    ∃ t, ts.getLast? = some t ∧ t.kind = .endOfLine := by
  induction h with
  | last ht => exact ⟨_, rfl, ht⟩
  | @cons t ts _ _ ih =>
    obtain ⟨last, hlast, hk⟩ := ih
    exact ⟨last, by simp [List.getLast?_cons, hlast], hk⟩

/-- What the scanner gives ends where the line does, and nowhere before. -/
theorem IsRow.ended {ts : List Token} (h : IsRow ts) : Ended ts := by
  obtain ⟨row, last, rfl, hrow, hlast⟩ := h.exists_eq_append
  clear h
  induction row with
  | nil => exact .last hlast
  | cons t row ih =>
    obtain ⟨ht, hrow⟩ := List.forall_mem_cons.1 hrow
    exact .cons ht (ih hrow)

end Token

namespace Asserting

/-- A place in a row of tokens. -/
structure Cursor where
  /-- The tokens of the row. -/
  tokens : List Token
  /-- How many of them are behind. -/
  place : Nat := 0

namespace Cursor

/-! ### Moves -/

/-- How many tokens are not behind yet. -/
def left (c : Cursor) : Nat := c.tokens.length - c.place

/-- A cursor at the front of a row, which has to have an end. -/
def start (tokens : List Token) : Asserting Cursor := do
  insist (tokens.getLast?.any Token.isEndOfLine) .openRow
  return { tokens }

/-- The token at the cursor. -/
def peek (c : Cursor) : Asserting Token :=
  match c.tokens[c.place]? with
  | some t => .ok t
  | none => .error .pastEnd

/-- The cursor behind the token at it, which is not the end of the line. -/
def next (c : Cursor) : Asserting { c' : Cursor // c'.left < c.left } :=
  match h : c.tokens[c.place]? with
  | some t =>
    if t.isEndOfLine then .error .pastEnd
    else
      .ok ⟨{ c with place := c.place + 1 },
        by have := List.getElem?_eq_some_iff.1 h; grind [left]⟩
  | none => .error .pastEnd

/-- The cursor before the token that was taken last. -/
def back (c : Cursor) : Asserting Cursor := do
  insist (1 ≤ c.place) .beforeFront
  return { c with place := c.place - 1 }

/-- The cursor behind the token at it, if that is of a certain kind. -/
def nextIf (kind : Kind) (c : Cursor) : Asserting (Option Cursor) := do
  if (← c.peek).kind = kind then
    let ⟨c, _⟩ ← c.next
    return some c
  else return none

/-- A later cursor, with which a loop comes round again. -/
def further (c c' : Cursor) : Asserting { c' : Cursor // c'.left < c.left } :=
  if h : c'.left < c.left then .ok ⟨c', h⟩ else .error .standstill

/-- The report of meeting the token at the cursor where it does not belong. -/
def misplaced (c : Cursor) (cause : Found → Cause) : Asserting Diagnostic := do
  let t ← c.peek
  (cause t.found).reportAt t.span

/-! ### Expressions -/

open LineBasic.Expr (Frame closeSum closeProduct closeParen? nextArgument? productOp? sumOp?)

/-- What to do when a complete sum is followed by a token that cannot carry it on. -/
def finish (e : Expr) (frames : List Frame) (c : Cursor) : Attempt (Expr × Cursor) := do
  if frames = [] then return (e, c) else throw (← c.misplaced .missingParenthesis)

mutual

/-- Reads on where a value must begin. -/
def operand (frames : List Frame) (c : Cursor) : Attempt (Expr × Cursor) := do
  let t ← c.peek
  match t.kind with
  | .operator .minus =>
    let ⟨c', _⟩ ← c.next
    operand (.sign t.span .negate :: frames) c'
  | .operator .plus =>
    let ⟨c', _⟩ ← c.next
    operand (.sign t.span .absolute :: frames) c'
  | .number digits =>
    let ⟨c', _⟩ ← c.next
    operator (.int t.span (wrappedValue digits)) frames c'
  | .letter x =>
    let ⟨c', _⟩ ← c.next
    operator (.var t.span x) frames c'
  | .leftParen =>
    let ⟨c', _⟩ ← c.next
    operand (.group t.span :: frames) c'
  | .word .RND =>
    let ⟨c', _⟩ ← c.next
    openFunction .RND (.rnd t.span :: frames) c'
  | .word .USR =>
    let ⟨c', _⟩ ← c.next
    openFunction .USR (.usr t.span :: frames) c'
  | _ => throw (← c.misplaced .unexpectedExpression)
termination_by c.left

/-- Reads on after the name of a function. -/
def openFunction (function : Keyword) (frames : List Frame) (c : Cursor) :
    Attempt (Expr × Cursor) := do
  let t ← c.peek
  if t.kind = .leftParen then
    let ⟨c', _⟩ ← c.next
    operand frames c'
  else throw (← (Cause.missingFunctionParenthesis function).reportAt t.span)
termination_by c.left

/-- Reads on after a value. -/
def operator (e : Expr) (frames : List Frame) (c : Cursor) : Attempt (Expr × Cursor) := do
  let t ← c.peek
  match productOp? t.kind with
  | some op =>
    let (e, frames) := closeProduct e frames
    let ⟨c', _⟩ ← c.next
    operand (.product t.span op e :: frames) c'
  | none =>
    let (e, frames) := closeSum e frames
    match sumOp? t.kind with
    | some op =>
      let ⟨c', _⟩ ← c.next
      operand (.sum t.span op e :: frames) c'
    | none =>
      match t.kind with
      | .rightParen =>
        match closeParen? e frames with
        | some (e, frames) =>
          let ⟨c', _⟩ ← c.next
          operator e frames c'
        | none => finish e frames c
      | .comma =>
        match nextArgument? e frames with
        | some frames =>
          let ⟨c', _⟩ ← c.next
          operand frames c'
        | none => finish e frames c
      | _ => finish e frames c
termination_by c.left

end

/-- Reads the longest expression that begins at the cursor. -/
def expression (c : Cursor) : Attempt (Expr × Cursor) := operand [] c

/-- Fails unless the line ends at the cursor. -/
def expectEnd (c : Cursor) : Attempt Unit := do
  if (← c.peek).isEndOfLine then return () else throw (← c.misplaced .expectedEndOfLine)

/-! ### The tokens from a cursor on -/

variable {α β : Type} {R : α → β → Prop} {x : Except Fault β} {c : Cursor} {t : Token}
  {ts : List Token}

/-- Whether some tokens, with the end of the line behind them, are those from the cursor on. -/
structure At (c : Cursor) (ts : List Token) : Prop where
  /-- They are what is not behind. -/
  ahead : c.tokens.drop c.place = ts
  /-- They end where the line does. -/
  ended : Ended ts

/-- A cursor always has a token ahead, the end of the line if nothing else. -/
theorem not_at_nil : ¬ c.At [] := fun h => nomatch h.ended

/-- There is a token to look at wherever a cursor stands. -/
theorem At.exists_cons (hc : c.At ts) : ∃ t us, ts = t :: us :=
  List.exists_cons_of_ne_nil fun h => not_at_nil (h ▸ hc)

/-- What a cursor has left to go is the number of tokens ahead of it. -/
theorem At.left_eq (hc : c.At ts) : c.left = ts.length := by rw [left, ← hc.ahead, List.length_drop]

/-- A cursor with fewer tokens ahead has less left to go. -/
theorem At.left_lt {c' : Cursor} {us : List Token} (hc : c.At ts) (hc' : c'.At us)
    (h : us.length < ts.length) :
    c'.left < c.left := by
  rw [hc.left_eq, hc'.left_eq]
  exact h

/-- The token at the place of a cursor is the first one ahead of it. -/
theorem At.getElem? (hc : c.At (t :: ts)) : c.tokens[c.place]? = some t := by
  rw [← List.head?_drop, hc.ahead, List.head?_cons]

/-- Looking at the token at a cursor finds the first one ahead. -/
theorem At.peek (hc : c.At (t :: ts)) : c.peek = .ok t := by rw [Cursor.peek, hc.getElem?]

/-- Behind a token that is not the end of the line a cursor has the rest of the row ahead. -/
theorem At.behind (hc : c.At (t :: ts)) (ht : t.kind ≠ .endOfLine) :
    ({ c with place := c.place + 1 } : Cursor).At ts where
  ahead := by rw [← List.tail_drop, hc.ahead, List.tail_cons]
  ended := hc.ended.tail ht

/-- Whether something has been read, and a cursor stands before what comes after it. -/
def Stands (x : α × Cursor) (y : α × List Token) : Prop := x.1 = y.1 ∧ x.2.At y.2

section Reading

variable {α' β' : Type} {S : α' → β' → Prop} {g : Attempt (α × Cursor)}
  {k : α × Cursor → Attempt α'}

/-- Going on after something that is read. -/
theorem agrees_read {y : Except Fault (α × List Token)} {k' : α × List Token → Except Fault β'}
    (h : Agrees Stands g y) (hk : ∀ a c rest, c.At rest → Agrees S (k (a, c)) (k' (a, rest))) :
    Agrees S (g >>= k) (y >>= k') := by
  refine h.bind ?_
  rintro ⟨a, c⟩ ⟨_, rest⟩ ⟨rfl, hc⟩
  exact hk a c rest hc

/-- Going on after something that is known to have been read. -/
theorem agrees_read_ok {a : α} {rest : List Token} {y : Except Fault β'}
    (h : Agrees Stands g (.ok (a, rest))) (hk : ∀ c, c.At rest → Agrees S (k (a, c)) y) :
    Agrees S (g >>= k) y := by
  refine h.of_ok ?_
  rintro ⟨_, c⟩ ⟨rfl, hc⟩
  exact hk c hc

/-- Making something of what is read. -/
theorem agrees_read_map {y : Except Fault (α × List Token)} {f : α × List Token → β'}
    (h : Agrees Stands g y) (hk : ∀ a c rest, c.At rest → Agrees S (k (a, c)) (.ok (f (a, rest)))) :
    Agrees S (g >>= k) (y.map f) := by
  refine h.map ?_
  rintro ⟨a, c⟩ ⟨_, rest⟩ ⟨rfl, hc⟩
  exact hk a c rest hc

end Reading

/-- Looking at the next token fails no check. -/
theorem agrees_peek {k : Token → Attempt α} (hc : c.At (t :: ts)) (hk : Agrees R (k t) x) :
    Agrees R (do k (← c.peek)) x := by
  rw [hc.peek]
  exact hk

/-- A token that is not the end of the line can be taken, and given back. -/
theorem At.next (hc : c.At (t :: ts)) (ht : t.kind ≠ .endOfLine) :
    ∃ c' h, c.next = .ok ⟨c', h⟩ ∧ c'.At ts ∧ c'.back = .ok c := by
  have hlt : ({ c with place := c.place + 1 } : Cursor).left < c.left :=
    hc.left_lt (hc.behind ht) (Nat.lt_succ_self _)
  refine ⟨_, hlt, ?_, hc.behind ht, ?_⟩
  · unfold Cursor.next
    split
    next t' h =>
      obtain rfl : t' = t := Option.some.inj (h.symm.trans hc.getElem?)
      exact if_neg (mt isEndOfLine_iff.1 ht)
    next h => simp [hc.getElem?] at h
  · rw [back, insist_of (Nat.le_add_left 1 _)]
    rfl

/-- Taking the next token fails no check, unless it is the end of the line. -/
theorem agrees_next {k : { c' : Cursor // c'.left < c.left } → Attempt α} (hc : c.At (t :: ts))
    (ht : t.kind ≠ .endOfLine) (hk : ∀ c' h, c'.At ts → Agrees R (k ⟨c', h⟩) x) :
    Agrees R (do k (← c.next)) x := by
  obtain ⟨c', h, hnext, hc', -⟩ := hc.next ht
  rw [hnext]
  exact hk c' h hc'

/-- A loop that has taken a token can come round again. -/
theorem agrees_further {k : { c' : Cursor // c'.left < c.left } → Attempt α} {c' : Cursor}
    (h : c'.left < c.left) (hk : Agrees R (k ⟨c', h⟩) x) : Agrees R (do k (← c.further c')) x := by
  have hfurther : c.further c' = .ok ⟨c', h⟩ := dif_pos h
  rw [hfurther]
  exact hk

/-- A report about a token that is out of place is told its columns once. -/
theorem agrees_misplaced (hc : c.At (t :: ts)) (cause : Found → Cause) :
    Agrees R (do throw (← c.misplaced cause)) (.error (Token.misplaced cause (t :: ts))) := by
  have hmisplaced : c.misplaced cause = .ok (Token.misplaced cause (t :: ts)).diagnostic := by
    rw [misplaced, hc.peek]
    rfl
  rw [hmisplaced]
  rfl

/-- A token of the kind that is looked for is taken. -/
theorem At.nextIf (hc : c.At (t :: ts)) (ht : t.kind ≠ .endOfLine) :
    ∃ c', c.nextIf t.kind = .ok (some c') ∧ c'.At ts := by
  obtain ⟨c', _, hnext, hc', -⟩ := hc.next ht
  refine ⟨c', ?_, hc'⟩
  unfold Cursor.nextIf
  rw [hc.peek]
  show (if t.kind = t.kind then _ else _) = _
  rw [if_pos rfl, hnext]
  rfl

/-- A token of another kind than the one looked for stays where it is. -/
theorem At.nextIf_of_ne {kind : Kind} (hc : c.At (t :: ts)) (h : t.kind ≠ kind) :
    c.nextIf kind = .ok none := by
  unfold Cursor.nextIf
  rw [hc.peek]
  exact if_neg h

/-- Going on with what follows a token of a certain kind, or else from that token. -/
theorem agrees_nextIf {k : Option Cursor → Attempt α} {kind : Kind} (hc : c.At (t :: ts))
    (hkind : kind ≠ .endOfLine) (hsome : t.kind = kind → ∀ c', c'.At ts → Agrees R (k (some c')) x)
    (hnone : t.kind ≠ kind → Agrees R (k none) x) : Agrees R (do k (← c.nextIf kind)) x := by
  by_cases h : t.kind = kind
  · subst h
    obtain ⟨c', hnext, hc'⟩ := hc.nextIf hkind
    rw [hnext]
    exact hsome rfl c' hc'
  · rw [hc.nextIf_of_ne h]
    exact hnone h

/-! ### Expressions again -/

/-- Finishing an expression fails no check, and leaves the cursor where it is. -/
theorem agrees_finish (e : Expr) (frames : List Frame) (hc : c.At (t :: ts)) :
    Agrees Stands (finish e frames c) (Expr.finish e frames (t :: ts)) := by
  unfold finish Expr.finish
  split
  · exact agrees_ok ⟨rfl, hc⟩
  · exact agrees_misplaced hc _

/-- The sign of a product is not the end of a line. -/
theorem kind_ne_of_productOp? {k : Kind} {op : BinaryOp} (h : productOp? k = some op) :
    k ≠ .endOfLine := by
  rintro rfl
  cases h

/-- The sign of a sum is not the end of a line. -/
theorem kind_ne_of_sumOp? {k : Kind} {op : BinaryOp} (h : sumOp? k = some op) : k ≠ .endOfLine := by
  rintro rfl
  cases h

/-- The reader of expressions fails no check, and reads what the library's reader does. -/
theorem reading_agrees (ts : List Token) :
    (∀ frames c, c.At ts → Agrees Stands (operand frames c) (Expr.operand frames ts)) ∧
    (∀ f frames c, c.At ts → Agrees Stands (openFunction f frames c)
      (Expr.openFunction f frames ts)) ∧
    (∀ e frames c, c.At ts → Agrees Stands (operator e frames c) (Expr.operator e frames ts)) := by
  -- The three readers take turns, one token each, so the induction is about all of them at once.
  induction ts with
  | nil =>
    exact ⟨fun _ _ hc => absurd hc not_at_nil, fun _ _ _ hc => absurd hc not_at_nil,
      fun _ _ _ hc => absurd hc not_at_nil⟩
  | cons t ts ih =>
    obtain ⟨ihOperand, ihOpen, ihOperator⟩ := ih
    refine ⟨fun frames c hc => ?_, fun f frames c hc => ?_, fun e frames c hc => ?_⟩
    · rw [operand, Expr.operand]
      refine agrees_peek hc ?_
      cases hk : t.kind with
      | number | letter => exact agrees_next hc (by simp [hk]) fun c' _ hc' => ihOperator _ _ c' hc'
      | leftParen => exact agrees_next hc (by simp [hk]) fun c' _ hc' => ihOperand _ c' hc'
      | operator op =>
        cases op with
        | plus | minus => exact agrees_next hc (by simp [hk]) fun c' _ hc' => ihOperand _ c' hc'
        | _ => exact agrees_misplaced hc _
      | word w =>
        cases w with
        | RND | USR => exact agrees_next hc (by simp [hk]) fun c' _ hc' => ihOpen _ _ c' hc'
        | _ => exact agrees_misplaced hc _
      | _ => exact agrees_misplaced hc _
    · rw [openFunction, Expr.openFunction]
      refine agrees_peek hc ?_
      split
      next hk => exact agrees_next hc (by simp [hk]) fun c' _ hc' => ihOperand _ c' hc'
      next => exact agrees_report
    · rw [operator, Expr.operator]
      refine agrees_peek hc ?_
      cases hp : productOp? t.kind with
      | some op =>
        exact agrees_next hc (kind_ne_of_productOp? hp) fun c' _ hc' => ihOperand _ c' hc'
      | none =>
        generalize closeSum e frames = closed
        obtain ⟨e, frames⟩ := closed
        cases hs : sumOp? t.kind with
        | some op =>
          simp only
          exact agrees_next hc (kind_ne_of_sumOp? hs) fun c' _ hc' => ihOperand _ c' hc'
        | none =>
          simp only
          cases hk : t.kind with
          | rightParen =>
            dsimp only
            cases closeParen? e frames with
            | some closed =>
              exact agrees_next hc (by simp [hk]) fun c' _ hc' => ihOperator _ _ c' hc'
            | none => exact agrees_finish _ _ hc
          | comma =>
            dsimp only
            cases nextArgument? e frames with
            | some frames => exact agrees_next hc (by simp [hk]) fun c' _ hc' => ihOperand _ c' hc'
            | none => exact agrees_finish _ _ hc
          | _ => exact agrees_finish _ _ hc

/-- **Reading an expression.**  No check fails, and what is read is what the library's reader
    reads. -/
theorem expression_agrees (hc : c.At ts) : Agrees Stands c.expression (Expr.read ts) :=
  (reading_agrees ts).1 [] c hc

/-- Looking for the end of a line fails no check. -/
theorem expectEnd_agrees (hc : c.At ts) :
    Agrees (fun _ _ => True) c.expectEnd (Token.expectEnd ts) := by
  obtain ⟨t, ts, rfl⟩ := hc.exists_cons
  unfold expectEnd Token.expectEnd
  refine agrees_peek hc ?_
  show Agrees _ (if t.isEndOfLine = true then _ else _) (if t.isEndOfLine = true then _ else _)
  split
  · exact agrees_ok trivial
  · exact agrees_misplaced hc _

end Cursor

end Asserting

end LineBasic
