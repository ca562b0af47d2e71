import LineBasic.Proofs.Expr.Reading
import LineBasic.Statement.Basic

namespace LineBasic.Statement

/-!
# The grammar of statements

Which rows of tokens spell which statements, without regard to any way of reading them.  `PRINT` and
`RUN` let expressions stand side by side, so a row can spell several statements of one word: in
`PRINT A -B` there are two values or one.

* `Sequence` -- expressions and single tokens in any order;
* `Greedy`, `Sequence.greedy` -- the reading of a sequence in which each expression is as long as it
  can be;
* `Targets`, `Phrase` -- the variables of an `INPUT`, and whole statements;
* `Phrase.leading` -- the first token of a statement tells its word.
-/

open LineBasic.Expr (Spelled NoTerm opensValue)

/-! ### Sequences -/

/-- Expressions and single tokens in any order, with the parts that they stand for. -/
inductive Sequence {α : Type} (single : Token → Option (List α)) (value : Expr → α) :
    List Token → List α → Prop where
  | nil : Sequence single value [] []
  | single {t : Token} {ts : List Token} {as bs : List α} (ht : single t = some as)
      (hts : Sequence single value ts bs) : Sequence single value (t :: ts) (as ++ bs)
  | value {us ts : List Token} {e : Expr} {bs : List α} (he : Spelled .sum us e)
      (hts : Sequence single value ts bs) : Sequence single value (us ++ ts) (value e :: bs)

/-- A sequence in which no expression can be carried on into what follows it. -/
inductive Greedy {α : Type} (single : Token → Option (List α)) (value : Expr → α) :
    List Token → List α → Prop where
  | nil : Greedy single value [] []
  | single {t : Token} {ts : List Token} {as bs : List α} (ht : single t = some as)
      (hts : Greedy single value ts bs) : Greedy single value (t :: ts) (as ++ bs)
  | value {us ts : List Token} {e : Expr} {bs : List α} (he : Spelled .sum us e) (hend : NoTerm ts)
      (hts : Greedy single value ts bs) : Greedy single value (us ++ ts) (value e :: bs)

/-- The tokens that stand for a part of a `PRINT` statement by themselves. -/
def printSingle (t : Token) : Option (List PrintItem) :=
  match t.kind with
  | .string text => some [.text t.span text]
  | .comma => some [.comma t.span]
  | .semicolon => some [.semicolon t.span]
  | _ => none

/-- The tokens that may stand between the values of a `RUN`. -/
def runSingle (t : Token) : Option (List Expr) := if t.kind = .comma then some [] else none

section Sequence

variable {α : Type} {single : Token → Option (List α)} {value : Expr → α} {t : Token}
  {ts us : List Token} {as bs : List α} {e : Expr}

/-- An expression put before a greedy sequence takes over the first expression of it, if that begins
    with a sign. -/
theorem Greedy.cons_value (hsingle : ∀ t as, single t = some as → ∀ ts, NoTerm (t :: ts))
    (h : Greedy single value ts bs) (he : Spelled .sum us e) :
    ∃ bs', Greedy single value (us ++ ts) bs' := by
  cases h with
  | nil => exact ⟨_, .value he (by simp [NoTerm]) .nil⟩
  | single ht hts => exact ⟨_, .value he (hsingle _ _ ht _) (.single ht hts)⟩
  | @value vs ts e' bs he' hend hts =>
    obtain ⟨v, rest, rfl, hv⟩ := he'.cons
    cases hop : Expr.sumOp? v.kind with
    | some op =>
      obtain ⟨e'', he''⟩ := he.join hop he'
      rw [← List.append_assoc]
      exact ⟨_, .value he'' hend hts⟩
    | none =>
      refine ⟨_, .value he ?_ (.value he' hend hts)⟩
      rintro _ ⟨⟩
      exact ⟨Expr.productOp?_of_opensValue hv, hop⟩

/-- Every sequence has a greedy reading. -/
theorem Sequence.greedy (hsingle : ∀ t as, single t = some as → ∀ ts, NoTerm (t :: ts))
    (h : Sequence single value ts as) : ∃ bs, Greedy single value ts bs := by
  induction h with
  | nil => exact ⟨_, .nil⟩
  | single ht _ ih =>
    obtain ⟨bs, hbs⟩ := ih
    exact ⟨_, .single ht hbs⟩
  | value he _ ih =>
    obtain ⟨bs, hbs⟩ := ih
    exact hbs.cons_value hsingle he

end Sequence

/-! ### Statements -/

/-- The variables of an `INPUT`, with commas between them. -/
inductive Targets : List Token → List Target → Prop where
  | one {x : Token} {name : Letter} (hx : x.kind = .letter name) : Targets [x] [⟨x.span, name⟩]
  | cons {x c : Token} {name : Letter} {ts : List Token} {targets : List Target}
      (hx : x.kind = .letter name) (hc : c.kind = .comma) (hts : Targets ts targets) :
      Targets (x :: c :: ts) (⟨x.span, name⟩ :: targets)

/-- Some tokens that are at most one, of a certain kind. -/
inductive AtMostOne (kind : Kind) : List Token → Prop where
  | none : AtMostOne kind []
  | one {t : Token} (ht : t.kind = kind) : AtMostOne kind [t]

/-- The tokens of a statement, in their order. -/
inductive Phrase : List Token → Statement → Prop where
  | clear {t : Token} (ht : t.kind = .word .CLEAR) : Phrase [t] (.clear t.span)
  | halt {t : Token} (ht : t.kind = .word .END) : Phrase [t] (.halt t.span)
  | ret {t : Token} (ht : t.kind = .word .RETURN) : Phrase [t] (.ret t.span)
  | remark {t c : Token} {text : String} (ht : t.kind = .word .REM) (hc : c.kind = .comment text) :
      Phrase [t, c] (.remark t.span text)
  | goto {t : Token} {ts : List Token} {e : Expr} (ht : t.kind = .word .GOTO)
      (he : Spelled .sum ts e) :
      Phrase (t :: ts) (.goto t.span e)
  | gosub {t : Token} {ts : List Token} {e : Expr} (ht : t.kind = .word .GOSUB)
      (he : Spelled .sum ts e) :
      Phrase (t :: ts) (.gosub t.span e)
  | assign {x q : Token} {ts : List Token} {name : Letter} {e : Expr} (hx : x.kind = .letter name)
      (hq : q.kind = .operator (.relation .equal)) (he : Spelled .sum ts e) :
      Phrase (x :: q :: ts) (.assign x.span ⟨x.span, name⟩ e)
  | assignLet {t x q : Token} {ts : List Token} {name : Letter} {e : Expr}
      (ht : t.kind = .word .LET) (hx : x.kind = .letter name)
      (hq : q.kind = .operator (.relation .equal)) (he : Spelled .sum ts e) :
      Phrase (t :: x :: q :: ts) (.assign t.span ⟨x.span, name⟩ e)
  | printNothing {t : Token} (ht : t.kind = .word .PRINT) : Phrase [t] (.print t.span [])
  | printText {t s : Token} {ts colon : List Token} {text : String} {items : List PrintItem}
      (ht : t.kind = .word .PRINT) (hs : s.kind = .string text)
      (hts : Sequence printSingle .value ts items) (hcolon : AtMostOne .colon colon) :
      Phrase (t :: s :: (ts ++ colon)) (.print t.span (.text s.span text :: items))
  | printValue {t : Token} {us ts colon : List Token} {e : Expr} {items : List PrintItem}
      (ht : t.kind = .word .PRINT) (he : Spelled .sum us e)
      (hts : Sequence printSingle .value ts items) (hcolon : AtMostOne .colon colon) :
      Phrase (t :: (us ++ ts ++ colon)) (.print t.span (.value e :: items))
  | listWhole {t : Token} (ht : t.kind = .word .LIST) : Phrase [t] (.list t.span .whole)
  | listOnward {t : Token} {ts : List Token} {e : Expr} (ht : t.kind = .word .LIST)
      (he : Spelled .sum ts e) :
      Phrase (t :: ts) (.list t.span (.onward e))
  | listBetween {t c : Token} {ts us : List Token} {low high : Expr} (ht : t.kind = .word .LIST)
      (hlow : Spelled .sum ts low) (hc : c.kind = .comma) (hhigh : Spelled .sum us high) :
      Phrase (t :: (ts ++ c :: us)) (.list t.span (.between low high))
  | cond {t o : Token} {ls rs thens ts : List Token} {lhs rhs : Expr} {r : Relation}
      {body : Statement} (ht : t.kind = .word .IF) (hl : Spelled .sum ls lhs)
      (ho : o.kind = .operator (.relation r)) (hr : Spelled .sum rs rhs)
      (hthen : AtMostOne (.word .THEN) thens) (hbody : Phrase ts body) :
      Phrase (t :: (ls ++ o :: (rs ++ (thens ++ ts)))) (.cond t.span lhs r rhs body)
  | input {t : Token} {ts : List Token} {targets : List Target} (ht : t.kind = .word .INPUT)
      (hts : Targets ts targets) : Phrase (t :: ts) (.input t.span targets)
  | run {t : Token} {ts : List Token} {arguments : List Expr} (ht : t.kind = .word .RUN)
      (hts : Sequence runSingle id ts arguments) (hlast : ∀ c ∈ ts.getLast?, c.kind ≠ .comma) :
      Phrase (t :: ts) (.run t.span arguments)

/-- The word that the first token of a statement stands for: a variable in front is an
    assignment. -/
def leading? : List Token → Option Keyword
  | [] => none
  | t :: _ =>
    match t.kind with
    | .word w => some w
    | .letter _ => some .LET
    | _ => none

/-- A statement is one of the word that its first token stands for. -/
theorem Phrase.leading {ts : List Token} {s : Statement} (h : Phrase ts s) :
    leading? ts = some s.word := by
  cases h <;> simp [leading?, word, *]

/-- A statement begins with a token that stands for a word. -/
theorem Phrase.cons {ts : List Token} {s : Statement} (h : Phrase ts s) :
    ∃ t rest, ts = t :: rest ∧ (t.kind = .word s.word ∨ ∃ x, t.kind = .letter x) := by
  cases h <;> exact ⟨_, _, rfl, by simp [word, *]⟩

end LineBasic.Statement
