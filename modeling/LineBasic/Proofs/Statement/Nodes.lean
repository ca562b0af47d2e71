import LineBasic.Proofs.Line.Grammar
import LineBasic.Proofs.Token.Offsets
import LineBasic.Proofs.Token.Squeezed
import LineBasic.Statement.Visit

namespace LineBasic

/-!
# The parts of a statement in its text

Each part of a statement has the columns of one token of its line, and under the first of these
columns stands, up to case, the first character of what the token is.

* `Kind.isNodal`, `Kind.BeginsWith` -- the tokens that parts of statements have their columns from,
  and the character that such a token begins with;
* `Token.begins_of_splitsOff`, `Token.begins_of_scan` -- the text of a scanned token begins with
  that character;
* `Token.standing` -- so does the text of the line at the column of the token;
* `Node`, `Statement.nodes` -- the parts of a statement;
* `Token.GivesRise`, `Statement.Phrase.comesFrom` -- each part comes from a token of the statement;
* `Entry.nodes_stand` -- the main result, for whatever text is an entry.
-/

/-! ### What tokens begin with -/

/-- Whether a part of a statement may have the columns of a token of a kind. -/
def Kind.isNodal : Kind → Bool
  | .number _ | .string _ | .letter _ | .word _ | .leftParen | .comma | .semicolon => true
  | .operator .times | .operator .divide | .operator .plus | .operator .minus => true
  | _ => false

/-- Whether a character is the first of what a kind is displayed as, in either case. -/
def Kind.BeginsWith (k : Kind) (c : Char) : Prop := k.display.toList.head? = some c.toUpper

namespace Token

variable {c : Char} {cs rest : List Char} {pieces : List Piece} {t : Token} {ts : List Token}
  {line : Option Nat} {column : Nat}

/-- All spellings of a word begin with the same letter. -/
theorem head?_of_mem_spellings : ∀ entry ∈ spellings, ∀ w ∈ entry.2,
    w.name.toList.head? = entry.1.toList.head? := by
  simp only [spellings, List.forall_mem_cons, List.not_mem_nil, false_implies,
    implies_true, and_true]
  refine ⟨?_, ?_, ?_, ?_, ?_, ?_, ?_, ?_, ?_, ?_, ?_, ?_, ?_, ?_, ?_, ?_, ?_⟩ <;>
    rintro w ⟨⟩ <;> rfl

/-- A reserved word begins with its own first letter, in either case. -/
theorem begins_of_word? {w : Keyword} {covers : List Char} (hc : isBlank c = false)
    (h : word? (c :: cs) = some (w, covers, rest)) :
    covers.head? = some c ∧ (Kind.word w).BeginsWith c := by
  obtain ⟨happend, hne⟩ := word?_append h
  obtain ⟨d, ds, rfl⟩ := List.exists_cons_of_ne_nil hne
  obtain ⟨rfl, -⟩ := List.cons.inj happend
  obtain ⟨text, hmem, htext⟩ := exists_spelling_of_findWord h
  rw [squeezed_cons hc] at htext
  refine ⟨rfl, ?_⟩
  rw [Kind.BeginsWith, Kind.display, head?_of_mem_spellings _ hmem w rfl, ← htext]
  rfl

/-- The pieces that are split off a text begin where the text does. -/
theorem begins_of_splitsOff (h : SplitsOff c cs pieces rest) : ∀ p ∈ pieces, p.kind.isNodal →
    p.covers.head? = some c ∧ p.kind.BeginsWith c := by
  cases h with
  | symbol hsymbol =>
    refine List.forall_mem_singleton.2 fun hnodal => ?_
    unfold symbol? at hsymbol
    split at hsymbol <;> cases hsymbol <;> first | exact ⟨rfl, rfl⟩ | cases hnodal
  | string hc => simp [Kind.BeginsWith, Kind.display, hc]
  | number hc =>
    have hsplit : (readDigits (c :: cs)).1 = c :: (readDigits cs).1 := by rw [readDigits, if_pos hc]
    have hupper : c.toUpper = c := (toUpper_eq_or_isAlpha c).resolve_right fun halpha => by
      simp [isDigit_of_isAlpha halpha] at hc
    simp [Kind.BeginsWith, Kind.display, hsplit, dropBlanks_cons (isBlank_of_isDigit hc), hupper]
  | word hc hword =>
    exact List.forall_mem_singleton.2 fun _ => begins_of_word? (isBlank_of_isAlpha hc) hword
  | rem hc hword =>
    -- The comment behind `REM` is no part by itself.
    refine List.forall_mem_cons.2 ⟨fun _ => ?_, List.forall_mem_singleton.2 fun hnodal =>
      by cases hnodal⟩
    exact begins_of_word? (isBlank_of_isAlpha hc) hword
  | letter hx => simp [Kind.BeginsWith, Kind.display, Letter.name, ofChar?_eq_some hx]

/-- The lexeme of a piece begins with a character that a token of its kind begins with. -/
theorem begins_of_first (hc : isBlank c = false) (h : first column c cs = .ok (pieces, rest)) :
    ∀ p ∈ pieces, p.kind.isNodal → ∃ d ∈ p.lexeme.toList.head?, p.kind.BeginsWith d := by
  intro p hp hnodal
  obtain ⟨hhead, hbegins⟩ := begins_of_splitsOff (splitsOff_of_first h) p hp hnodal
  have hstands := standsFor_piece (p := p) (by simpa [hhead] using hc) none column
  exact ⟨c, hstands.head.trans hhead, hbegins⟩

/-- The lexeme of a scanned token begins with a character that the token begins with. -/
theorem ScansTo.begins (h : ScansTo line column cs ts) : ∀ t ∈ ts, t.kind.isNodal →
    ∃ c ∈ t.lexeme.toList.head?, t.kind.BeginsWith c := by
  induction h with
  | finish => exact List.forall_mem_singleton.2 nofun
  | blank _ _ ih => exact ih
  | piece hc hfirst _ _ ih =>
    exact List.forall_mem_cons.2 ⟨begins_of_first hc hfirst _ List.mem_cons_self, ih⟩
  | remark hc hfirst =>
    have hpieces := begins_of_first hc hfirst
    refine List.forall_mem_cons.2 ⟨hpieces _ List.mem_cons_self, List.forall_mem_cons.2 ⟨?_, ?_⟩⟩
    · exact hpieces _ (List.mem_cons_of_mem _ List.mem_cons_self)
    · exact List.forall_mem_singleton.2 nofun

/-- A scanned token begins with the first character of what it is displayed as. -/
theorem begins_of_scan {text : String} (h : scan text = .ok ts) : ∀ t ∈ ts, t.kind.isNodal →
    ∃ c ∈ t.lexeme.toList.head?, t.kind.BeginsWith c := by
  obtain ⟨front, covers, rest, hfronted⟩ := exists_fronted text.toList
  obtain ⟨tokens, htokens, rfl⟩ := hfronted.exists_of_scan h
  refine List.forall_mem_append.2 ⟨fun t ht hnodal => ?_, (scansTo_iff.2 htokens).begins⟩
  rw [(mem_numberTokens ht).2.1] at hnodal
  cases hnodal

/-- **Tokens in their text.**  At the column of a token that a part of a statement may have its
    columns from, the text has a character that the token begins with. -/
theorem standing {text : String} (h : scan text = .ok ts) : ∀ t ∈ ts, t.kind.isNodal →
    ∃ c, text.toList[t.column]? = some c ∧ t.kind.BeginsWith c := by
  intro t ht hnodal
  obtain ⟨c, hc, hbegins⟩ := begins_of_scan h t ht hnodal
  obtain ⟨front, covers, rest, body, hfronted, hlie, rfl⟩ := exists_lie_of_scan h
  have haccounts := hfronted.accounts hlie
  obtain ⟨lineEnd, htext, -⟩ := exists_dropLineEnd_append text.toList
  rcases List.mem_append.1 ht with hbody | hlast
  · have hat := haccounts.located t hbody (fun digits hk => by rw [hk] at hnodal; cases hnodal) c hc
    obtain ⟨hlt, -⟩ := List.getElem?_eq_some_iff.1 hat
    exact ⟨c, by rw [← htext, List.getElem?_append_left hlt, hat], hbegins⟩
  · rw [List.mem_singleton.1 hlast, haccounts.last_kind] at hnodal
    cases hnodal

end Token

/-! ### The parts of a statement -/

/-- A part of a statement. -/
inductive Node where
  /-- An expression, a variable that is given a value, or a statement. -/
  | visit (v : Visit)
  /-- A part of a `PRINT` statement. -/
  | item (i : PrintItem)
  deriving DecidableEq, Repr

/-- The columns of what is visited. -/
def Visit.span : Visit → Span
  | expr e => e.span
  | target t => t.span
  | statement s => s.span

/-- The columns of a part of a `PRINT` statement. -/
def PrintItem.span : PrintItem → Span
  | text s _ | comma s | semicolon s => s
  | value e => e.span

/-- The columns of a part of a statement. -/
def Node.span : Node → Span
  | visit v => v.span
  | item i => i.span

namespace Statement

/-- The parts of the `PRINT` statement that a statement is, or that is inside its `IF`s. -/
def items : Statement → List PrintItem
  | print _ items => items
  | cond _ _ _ _ body => body.items
  | _ => []

/-- All parts of a statement. -/
def nodes (s : Statement) : List Node := s.visits.map .visit ++ s.items.map .item

end Statement

/-- The statement of an entry. -/
def Entry.statement? : Entry → Option Statement
  | store _ s | direct s => some s
  | delete _ => none

/-! ### Where parts come from -/

/-- A part of a statement that comes from a token: an expression, a variable or a separator from the
    token that stands for it, and a statement from its word, or from its variable if it is an
    assignment without `LET`. -/
inductive Token.GivesRise (t : Token) : Node → Prop where
  | int {digits : String} (ht : t.kind = .number digits) :
      t.GivesRise (.visit (.expr (.int t.span (wrappedValue digits))))
  | var {x : Letter} (ht : t.kind = .letter x) : t.GivesRise (.visit (.expr (.var t.span x)))
  | rnd {e : Expr} (ht : t.kind = .word .RND) : t.GivesRise (.visit (.expr (.rnd t.span e)))
  | usr {e : Expr} (ht : t.kind = .word .USR) : t.GivesRise (.visit (.expr (.usr t.span e)))
  | usrAt {e a : Expr} (ht : t.kind = .word .USR) : t.GivesRise (.visit (.expr (.usrAt t.span e a)))
  | usrWith {e a v : Expr} (ht : t.kind = .word .USR) :
      t.GivesRise (.visit (.expr (.usrWith t.span e a v)))
  | unary {op : UnaryOp} {e : Expr} (ht : Expr.signOp? t.kind = some op) :
      t.GivesRise (.visit (.expr (.unary t.span op e)))
  | binary {op : BinaryOp} {l r : Expr}
      (ht : Expr.productOp? t.kind = some op ∨ Expr.sumOp? t.kind = some op) :
      t.GivesRise (.visit (.expr (.binary t.span op l r)))
  | group {e : Expr} (ht : t.kind = .leftParen) : t.GivesRise (.visit (.expr (.group t.span e)))
  | target {x : Letter} (ht : t.kind = .letter x) : t.GivesRise (.visit (.target ⟨t.span, x⟩))
  | statement {s : Statement} (ht : t.kind = .word s.word) (hs : s.span = t.span) :
      t.GivesRise (.visit (.statement s))
  | assignment {x : Letter} {e : Expr} (ht : t.kind = .letter x) :
      t.GivesRise (.visit (.statement (.assign t.span ⟨t.span, x⟩ e)))
  | text {text : String} (ht : t.kind = .string text) : t.GivesRise (.item (.text t.span text))
  | comma (ht : t.kind = .comma) : t.GivesRise (.item (.comma t.span))
  | semicolon (ht : t.kind = .semicolon) : t.GivesRise (.item (.semicolon t.span))
  | value {e : Expr} (he : t.GivesRise (.visit (.expr e))) : t.GivesRise (.item (.value e))

namespace Token.GivesRise

variable {t : Token} {n : Node}

/-- A part has the columns of the token that it comes from. -/
theorem span_eq (h : t.GivesRise n) : n.span = t.span := by
  induction h with
  | statement _ hs => exact hs
  | value _ ih => exact ih
  | _ => rfl

/-- A token that a part comes from is of a kind that parts come from. -/
theorem isNodal (h : t.GivesRise n) : t.kind.isNodal := by
  induction h with
  | unary ht => rcases Expr.signOp?_eq_some ht with ⟨hk, -⟩ | ⟨hk, -⟩ <;> rw [hk] <;> rfl
  | binary ht =>
    rcases ht with ht | ht
    · rcases Expr.productOp?_eq_some ht with ⟨hk, -⟩ | ⟨hk, -⟩ <;> rw [hk] <;> rfl
    · rcases Expr.sumOp?_eq_some ht with ⟨hk, -⟩ | ⟨hk, -⟩ <;> rw [hk] <;> rfl
  | value _ ih => exact ih
  | int ht | var ht | rnd ht | usr ht | usrAt ht | usrWith ht | group ht | target ht | statement ht
  | assignment ht | text ht | comma ht | semicolon ht => rw [ht]; rfl

end Token.GivesRise

/-- Whether a part comes from one of some tokens. -/
def Node.ComesFrom (n : Node) (ts : List Token) : Prop := ∃ t ∈ ts, t.GivesRise n

/-- A part that comes from some tokens comes from more tokens. -/
theorem Node.ComesFrom.mono {n : Node} {ts us : List Token} (h : n.ComesFrom ts)
    (hts : ∀ t ∈ ts, t ∈ us) :
    n.ComesFrom us := by
  obtain ⟨t, ht, hrise⟩ := h
  exact ⟨t, hts t ht, hrise⟩

variable {t : Token} {ts us : List Token} {e : Expr}

/-! ### Expressions -/

/-- An expression all of whose nodes come from some tokens. -/
def Expr.ComesFrom (e : Expr) (ts : List Token) : Prop :=
  ∀ e' ∈ e.nodes, (Node.visit (.expr e')).ComesFrom ts

/-- An expression that comes from some tokens comes from more tokens. -/
theorem Expr.ComesFrom.mono (h : e.ComesFrom ts) (hts : ∀ t ∈ ts, t ∈ us) : e.ComesFrom us :=
  fun e' he' => (h e' he').mono hts

/-- The nodes of an expression come from its tokens. -/
theorem Expr.Spelled.comesFrom {level : Expr.Level} (h : Expr.Spelled level ts e) :
    e.ComesFrom ts := by
  -- A node has the columns of its first token, but for an operation on two sides, which has those
  -- of the operator.
  induction h with
  | ofValue _ ih | ofSigned _ ih | ofProduct _ ih => exact ih
  | number ht => exact List.forall_mem_singleton.2 ⟨_, List.mem_cons_self, .int ht⟩
  | letter ht => exact List.forall_mem_singleton.2 ⟨_, List.mem_cons_self, .var ht⟩
  | group ht _ _ ih =>
    exact List.forall_mem_append.2 ⟨ih.mono (by simp +contextual),
      List.forall_mem_singleton.2 ⟨_, List.mem_cons_self, .group ht⟩⟩
  | rnd ht _ _ _ ih =>
    exact List.forall_mem_append.2 ⟨ih.mono (by simp +contextual),
      List.forall_mem_singleton.2 ⟨_, List.mem_cons_self, .rnd ht⟩⟩
  | usr ht _ _ _ ih =>
    exact List.forall_mem_append.2 ⟨ih.mono (by simp +contextual),
      List.forall_mem_singleton.2 ⟨_, List.mem_cons_self, .usr ht⟩⟩
  | usrAt ht _ _ _ _ _ ih ih' =>
    simp only [ComesFrom, nodes, List.forall_mem_append, List.forall_mem_singleton]
    exact ⟨⟨ih.mono (by simp +contextual), ih'.mono (by simp +contextual)⟩, _,
      List.mem_cons_self, .usrAt ht⟩
  | usrWith ht _ _ _ _ _ _ _ ih ih' ih'' =>
    simp only [ComesFrom, nodes, List.forall_mem_append, List.forall_mem_singleton]
    exact ⟨⟨⟨ih.mono (by simp +contextual), ih'.mono (by simp +contextual)⟩,
      ih''.mono (by simp +contextual)⟩, _, List.mem_cons_self, .usrWith ht⟩
  | negate ht _ ih | absolute ht _ ih =>
    exact List.forall_mem_append.2 ⟨ih.mono (by simp +contextual),
      List.forall_mem_singleton.2 ⟨_, List.mem_cons_self, .unary (by rw [ht]; rfl)⟩⟩
  | multiply _ ht _ ih ih' | divide _ ht _ ih ih' =>
    simp only [ComesFrom, nodes, List.forall_mem_append, List.forall_mem_singleton]
    exact ⟨⟨ih.mono (by simp +contextual), ih'.mono (by simp +contextual)⟩, _, by simp,
      .binary (.inl (by rw [ht]; rfl))⟩
  | add _ ht _ ih ih' | subtract _ ht _ ih ih' =>
    simp only [ComesFrom, nodes, List.forall_mem_append, List.forall_mem_singleton]
    exact ⟨⟨ih.mono (by simp +contextual), ih'.mono (by simp +contextual)⟩, _, by simp,
      .binary (.inr (by rw [ht]; rfl))⟩

/-- All that is visited in an expression comes from its tokens. -/
theorem Expr.ComesFrom.visits (h : e.ComesFrom ts) : ∀ v ∈ e.visits, (Node.visit v).ComesFrom ts :=
  List.forall_mem_map.2 h

/-! ### Parts of `PRINT` statements -/

/-- A part of a `PRINT` statement that comes from some tokens, with the nodes inside it. -/
structure PrintItem.ComesFrom (i : PrintItem) (ts : List Token) : Prop where
  /-- The nodes inside it come from the tokens. -/
  visits : ∀ v ∈ i.visits, (Node.visit v).ComesFrom ts
  /-- It comes from them itself. -/
  item : (Node.item i).ComesFrom ts

/-- A part of a `PRINT` that comes from some tokens comes from more tokens. -/
theorem PrintItem.ComesFrom.mono {i : PrintItem} (h : i.ComesFrom ts) (hts : ∀ t ∈ ts, t ∈ us) :
    i.ComesFrom us :=
  ⟨fun v hv => (h.visits v hv).mono hts, h.item.mono hts⟩

/-- A value that is printed comes from where its expression does. -/
theorem PrintItem.comesFrom_value (h : Expr.Spelled .sum ts e) : (value e).ComesFrom ts := by
  obtain ⟨t, ht, hrise⟩ := h.comesFrom e (List.mem_of_getLast? e.getLast?_nodes)
  exact ⟨h.comesFrom.visits, t, ht, .value hrise⟩

namespace Statement

/-- A part of a `PRINT` that is one token comes from it. -/
theorem comesFrom_printSingle {as : List PrintItem} (h : printSingle t = some as) :
    ∀ i ∈ as, i.ComesFrom [t] := by
  unfold printSingle at h
  split at h <;> cases h <;> refine List.forall_mem_singleton.2 ⟨nofun, _, List.mem_cons_self, ?_⟩
  next ht => exact .text ht
  next ht => exact .comma ht
  next ht => exact .semicolon ht

/-- What a sequence stands for comes from its tokens if its values and its single tokens do. -/
theorem Sequence.forall_mem {α : Type} {single : Token → Option (List α)} {value : Expr → α}
    {as : List α} {P : α → List Token → Prop}
    (hmono : ∀ {a ts us}, P a ts → (∀ t ∈ ts, t ∈ us) → P a us)
    (hsingle : ∀ {t as}, single t = some as → ∀ a ∈ as, P a [t])
    (hvalue : ∀ {ts e}, Expr.Spelled .sum ts e → P (value e) ts) (h : Sequence single value ts as) :
    ∀ a ∈ as, P a ts := by
  induction h with
  | nil => simp
  | single ht _ ih =>
    refine List.forall_mem_append.2 ⟨fun a ha => hmono (hsingle ht a ha) (by simp), fun a ha => ?_⟩
    exact hmono (ih a ha) (by simp +contextual)
  | value he _ ih =>
    refine List.forall_mem_cons.2 ⟨hmono (hvalue he) (by simp +contextual), fun a ha => ?_⟩
    exact hmono (ih a ha) (by simp +contextual)

/-- The parts of a `PRINT` come from their tokens. -/
theorem Sequence.comesFrom_items {items : List PrintItem}
    (h : Sequence printSingle .value ts items) :
    ∀ i ∈ items, i.ComesFrom ts :=
  h.forall_mem PrintItem.ComesFrom.mono comesFrom_printSingle PrintItem.comesFrom_value

/-- The values of a `RUN` come from their tokens. -/
theorem Sequence.comesFrom_arguments {arguments : List Expr}
    (h : Sequence runSingle id ts arguments) :
    ∀ e ∈ arguments, e.ComesFrom ts :=
  h.forall_mem Expr.ComesFrom.mono (fun ht => by simp [(kind_of_runSingle ht).2])
    Expr.Spelled.comesFrom

/-! ### Statements -/

/-- The variables of an `INPUT` come from their tokens. -/
theorem Targets.comesFrom {targets : List Target} (h : Targets ts targets) :
    ∀ target ∈ targets, (Node.visit (.target target)).ComesFrom ts := by
  induction h with
  | one hx => exact List.forall_mem_singleton.2 ⟨_, List.mem_cons_self, .target hx⟩
  | cons hx _ _ ih =>
    refine List.forall_mem_cons.2 ⟨⟨_, List.mem_cons_self, .target hx⟩, fun target htarget => ?_⟩
    exact (ih target htarget).mono (by simp +contextual)

/-- The parts of a `PRINT` statement come from what stands between its word and its colon. -/
theorem Phrase.comesFrom_parts {span : Span} {items : List PrintItem}
    (h : Phrase ts (.print span items)) :
    ∀ i ∈ items, i.ComesFrom ts := by
  cases h with
  | printNothing => simp
  | @printText t s ts colon text items ht hs hts =>
    have hsingle : printSingle s = some [.text s.span text] := by simp [printSingle, hs]
    exact fun i hi => ((Sequence.single hsingle hts).comesFrom_items i hi).mono
      (by simp +contextual)
  | printValue ht he hts =>
    exact fun i hi => ((Sequence.value he hts).comesFrom_items i hi).mono
      (by simp +contextual [or_imp])

/-- What is visited in a statement comes from its tokens. -/
theorem Phrase.comesFrom_visits {s : Statement} (h : Phrase ts s) :
    ∀ v ∈ s.visits, (Node.visit v).ComesFrom ts := by
  induction h with
  | clear ht | halt ht | ret ht | remark ht | printNothing ht | listWhole ht =>
    exact List.forall_mem_singleton.2 ⟨_, List.mem_cons_self, .statement ht rfl⟩
  | goto ht he | gosub ht he | listOnward ht he =>
    exact List.forall_mem_append.2 ⟨(he.comesFrom.mono (by simp +contextual)).visits,
      List.forall_mem_singleton.2 ⟨_, List.mem_cons_self, .statement ht rfl⟩⟩
  | listBetween ht hlow _ hhigh =>
    simp only [visits, Extent.visits, List.forall_mem_append, List.forall_mem_singleton]
    exact ⟨⟨(hlow.comesFrom.mono (by simp +contextual)).visits,
      (hhigh.comesFrom.mono (by simp +contextual)).visits⟩,
      _, List.mem_cons_self, .statement ht rfl⟩
  | assign hx _ he =>
    simp only [visits, List.forall_mem_append, List.forall_mem_cons, List.not_mem_nil,
      false_implies, implies_true, and_true]
    exact ⟨(he.comesFrom.mono (by simp +contextual)).visits, ⟨_, List.mem_cons_self, .target hx⟩, _,
      List.mem_cons_self, .assignment hx⟩
  | assignLet ht hx _ he =>
    simp only [visits, List.forall_mem_append, List.forall_mem_cons, List.not_mem_nil,
      false_implies, implies_true, and_true]
    exact ⟨(he.comesFrom.mono (by simp +contextual)).visits, ⟨_, by simp, .target hx⟩, _,
      List.mem_cons_self, .statement ht rfl⟩
  | printText ht hs hts hcolon =>
    simp only [visits, List.forall_mem_append, List.forall_mem_flatMap, List.forall_mem_singleton]
    exact ⟨fun i hi => ((Phrase.printText ht hs hts hcolon).comesFrom_parts i hi).visits, _,
      List.mem_cons_self, .statement ht rfl⟩
  | printValue ht he hts hcolon =>
    simp only [visits, List.forall_mem_append, List.forall_mem_flatMap, List.forall_mem_singleton]
    exact ⟨fun i hi => ((Phrase.printValue ht he hts hcolon).comesFrom_parts i hi).visits, _,
      List.mem_cons_self, .statement ht rfl⟩
  | cond ht hl _ hr _ _ ih =>
    simp only [visits, List.forall_mem_append, List.forall_mem_singleton]
    refine ⟨⟨⟨(hl.comesFrom.mono (by simp +contextual)).visits,
      (hr.comesFrom.mono (by simp +contextual)).visits⟩,
      fun v hv => (ih v hv).mono (by simp +contextual)⟩, _, List.mem_cons_self, .statement ht rfl⟩
  | input ht hts =>
    simp only [visits, List.forall_mem_append, List.forall_mem_map, List.forall_mem_singleton]
    exact ⟨fun target htarget => (hts.comesFrom target htarget).mono (by simp +contextual), _,
      List.mem_cons_self, .statement ht rfl⟩
  | run ht hts =>
    simp only [visits, List.forall_mem_append, List.forall_mem_flatMap, List.forall_mem_singleton]
    exact ⟨fun e he => ((hts.comesFrom_arguments e he).mono (by simp +contextual)).visits, _,
      List.mem_cons_self, .statement ht rfl⟩

/-- The parts of the `PRINT` that a statement comes to come from its tokens. -/
theorem Phrase.comesFrom_items {s : Statement} (h : Phrase ts s) :
    ∀ i ∈ s.items, (Node.item i).ComesFrom ts := by
  induction h with
  | printText ht hs hts hcolon =>
    exact fun i hi => ((Phrase.printText ht hs hts hcolon).comesFrom_parts i hi).item
  | printValue ht he hts hcolon =>
    exact fun i hi => ((Phrase.printValue ht he hts hcolon).comesFrom_parts i hi).item
  | cond _ _ _ _ _ _ ih => exact fun i hi => (ih i hi).mono (by simp +contextual)
  | _ => exact nofun

/-- **Parts and tokens.**  Each part of a statement comes from one of its tokens. -/
theorem Phrase.comesFrom {s : Statement} (h : Phrase ts s) : ∀ n ∈ s.nodes, n.ComesFrom ts :=
  List.forall_mem_append.2
    ⟨List.forall_mem_map.2 h.comesFrom_visits, List.forall_mem_map.2 h.comesFrom_items⟩

end Statement

/-! ### Whole lines -/

/-- A part of a statement that stands in a text: it has the columns of a token of the text that it
    comes from, and at the first of them the text has a character that this token begins with. -/
def Node.StandsIn (n : Node) (text : String) : Prop :=
  ∃ tokens, Token.scan text = .ok tokens ∧ ∃ t ∈ tokens, t.GivesRise n ∧ n.span = t.span ∧
    ∃ c, text.toList[n.span.start]? = some c ∧ t.kind.BeginsWith c

/-- A part that stands in a text has a column of the text. -/
theorem Node.StandsIn.start_lt {n : Node} {text : String} (h : n.StandsIn text) :
    n.span.start < text.length := by
  obtain ⟨_, _, _, _, _, _, c, hc, _⟩ := h
  obtain ⟨hlt, -⟩ := List.getElem?_eq_some_iff.1 hc
  rwa [String.length_toList] at hlt

namespace Entry

/-- All parts of the statement of an entry come from the tokens of the line. -/
theorem Spelled.comesFrom {entry : Entry} (h : Spelled ts entry) :
    ∀ s ∈ entry.statement?, ∀ n ∈ s.nodes, n.ComesFrom ts := by
  cases h with
  | delete => exact nofun
  | store _ _ _ hs =>
    rintro _ ⟨⟩ n hn
    exact (hs.comesFrom n hn).mono (by simp +contextual)
  | direct hs =>
    rintro _ ⟨⟩
    exact hs.comesFrom

/-- **Parts in their text.**  Each part of the statement of an entry stands in the text of the
    entry, without the space at its end. -/
theorem nodes_stand {text : String} {entry : Entry} (h : ofText text = .ok entry) :
    ∀ s ∈ entry.statement?, ∀ n ∈ s.nodes, n.StandsIn (trimmed text) := by
  intro s hs n hn
  obtain ⟨tokens, hscan, hread⟩ := ofText_eq_ok_iff.1 h
  have hrow : Token.IsRow tokens := Token.scan_isRow hscan
  obtain ⟨row, last, rfl, -, -⟩ := hrow.exists_eq_append
  obtain ⟨t, ht, hrise⟩ := (ofTokens_sound hrow hread).comesFrom s hs n hn
  have hmem : t ∈ row ++ [last] := List.mem_append_left _ ht
  obtain ⟨c, hc, hbegins⟩ := Token.standing hscan t hmem hrise.isNodal
  have hstart : n.span.start = t.column := congrArg Span.start hrise.span_eq
  exact ⟨_, hscan, t, hmem, hrise, hrise.span_eq, c, hstart ▸ hc, hbegins⟩

end Entry

end LineBasic
