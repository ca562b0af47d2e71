import LineBasic.Proofs.Token.First
import LineBasic.Proofs.Token.Row

namespace LineBasic.Token

/-!
# Tokens and the text under them

Where the tokens of a line stand in its text.  Behind any blanks each token covers a stretch of the
text, and the stretches follow one another from the front of the line to its end.

* `dropBlanks_readDigits` -- the digits at the front of a text, without reading them as the scanner
  does;
* `StandsFor` -- a lexeme says what its stretch says, but for blanks, and both begin with the same
  character;
* `Lie` -- tokens that lie on a text, and what follows for their lexemes and columns;
* `ScansTo.exists_lie`, `exists_lie_of_scan` -- the tokens that are scanned from a column on lie on
  the text from there;
* `Accounts`, `Fronted.accounts`, `scan_accounts` -- the main result, for whole lines.
-/

variable {c : Char} {cs covers rest : List Char} {t : Token} {ts : List Token} {line : Option Nat}
  {column : Nat}

/-! ### Blanks -/

/-- Blanks are dropped from two texts one by one. -/
theorem dropBlanks_append (cs ds : List Char) :
    dropBlanks (cs ++ ds) = dropBlanks cs ++ dropBlanks ds :=
  List.filter_append cs ds

/-- A blank in front is dropped. -/
theorem dropBlanks_of_isBlank (hc : isBlank c) : dropBlanks (c :: cs) = dropBlanks cs :=
  List.filter_cons_of_neg (by simp [hc])

/-- A character that is no blank is kept. -/
theorem dropBlanks_cons (hc : isBlank c = false) : dropBlanks (c :: cs) = c :: dropBlanks cs :=
  List.filter_cons_of_pos (by simp [hc])

/-- Nothing is left of blanks. -/
theorem dropBlanks_eq_nil (h : ∀ c ∈ cs, isBlank c) : dropBlanks cs = [] := by
  simpa [dropBlanks, List.filter_eq_nil_iff] using h

/-- The digits at the front of a text are those that stand there when its blanks are left out. -/
theorem dropBlanks_readDigits (cs : List Char) :
    dropBlanks (readDigits cs).1 = (dropBlanks cs).takeWhile Char.isDigit := by
  fun_induction readDigits cs with
  | case1 => rfl
  | case2 c cs hd covers rest hsplit ih =>
    rw [hsplit] at ih
    rw [dropBlanks_cons (isBlank_of_isDigit hd), dropBlanks_cons (isBlank_of_isDigit hd),
      List.takeWhile_cons_of_pos hd, ih]
  | case3 c cs hd hb rest hsplit ih => rw [dropBlanks_of_isBlank hb, ← ih, hsplit]
  | case4 c cs hd hb covers rest hne hsplit ih =>
    rw [dropBlanks_of_isBlank hb, dropBlanks_of_isBlank hb, ← ih, hsplit]
  | case5 c cs hd hb =>
    rw [dropBlanks_cons (by simpa using hb), List.takeWhile_cons_of_neg hd]
    rfl

/-! ### Tokens on a text -/

/-- The token says what a stretch of text says, but for blanks, and begins as the stretch does. -/
structure StandsFor (t : Token) (covers : List Char) : Prop where
  /-- What is not blank in the stretch is in the lexeme. -/
  lexeme : dropBlanks t.lexeme.toList = dropBlanks covers
  /-- The stretch begins with the lexeme. -/
  head : t.lexeme.toList.head? = covers.head?

/-- Whether a token is neither the number of a line nor its end. -/
def isInner (t : Token) : Bool :=
  match t.kind with
  | .lineNumber _ | .endOfLine => false
  | _ => true

/-- Tokens that lie on a text one behind the other, from a column on, with blanks between them.
    Only a comment may lie on nothing, at the end of the text. -/
inductive Lie (line : Option Nat) : Nat → List Char → List Token → Prop where
  | nil (column : Nat) : Lie line column [] []
  | blank {c : Char} {cs : List Char} {ts : List Token} {column : Nat} (hc : isBlank c)
      (h : Lie line (column + 1) cs ts) : Lie line column (c :: cs) ts
  | token {t : Token} {covers rest : List Char} {ts : List Token} (hinner : t.isInner)
      (hkind : t.kind ≠ .comment "") (hline : t.line = line) (hfor : t.StandsFor covers)
      (hne : covers ≠ []) (h : Lie line (t.column + covers.length) rest ts) :
      Lie line t.column (covers ++ rest) (t :: ts)
  | emptyComment {t : Token} (hkind : t.kind = .comment "") (hlexeme : t.lexeme = "")
      (hline : t.line = line) :
      Lie line t.column [] [t]

namespace Lie

/-- No token that lies on a text is the number of a line or its end. -/
theorem isInner (h : Lie line column cs ts) : ∀ t ∈ ts, t.isInner := by
  induction h with
  | nil => simp
  | blank _ _ ih => exact ih
  | token hinner _ _ _ _ _ ih => exact List.forall_mem_cons.2 ⟨hinner, ih⟩
  | emptyComment hkind => simp [Token.isInner, hkind]

/-- The tokens bear the number of the line. -/
theorem line_eq (h : Lie line column cs ts) : ∀ t ∈ ts, t.line = line := by
  induction h with
  | nil => simp
  | blank _ _ ih => exact ih
  | token _ _ hline _ _ _ ih => exact List.forall_mem_cons.2 ⟨hline, ih⟩
  | emptyComment _ _ hline => simpa using hline

/-- Nothing but blanks stands between the tokens. -/
theorem lexemes (h : Lie line column cs ts) :
    dropBlanks (ts.flatMap fun t => t.lexeme.toList) = dropBlanks cs := by
  induction h with
  | nil => rfl
  | blank hc _ ih => simpa [dropBlanks, hc] using ih
  | token _ _ _ hfor _ _ ih =>
    have hfirst := hfor.lexeme
    simp only [dropBlanks, List.flatMap_cons, List.filter_append] at hfirst ih ⊢
    rw [hfirst, ih]
  | emptyComment _ hlexeme => simp [hlexeme]

/-- The tokens stand at the column where the text begins or behind it. -/
theorem column_le (h : Lie line column cs ts) : ∀ t ∈ ts, column ≤ t.column := by
  induction h with
  | nil => simp
  | blank _ _ ih => exact fun t ht => by have := ih t ht; omega
  | token _ _ _ _ _ _ ih =>
    exact List.forall_mem_cons.2 ⟨Nat.le_refl _, fun t ht => by have := ih t ht; omega⟩
  | emptyComment => simp

/-- The tokens stand before the end of the text, but for an empty comment, which stands there. -/
theorem column_lt (h : Lie line column cs ts) :
    ∀ t ∈ ts, if t.kind = .comment "" then t.column = column + cs.length else t.column < column +
      cs.length := by
  induction h with
  | nil => simp
  | blank _ _ ih => simpa only [List.length_cons, Nat.add_assoc, Nat.add_comm 1] using ih
  | token _ hkind _ _ hne _ ih =>
    have hpos := List.length_pos_iff.2 hne
    simp only [List.length_append, ← Nat.add_assoc]
    refine List.forall_mem_cons.2 ⟨?_, ih⟩
    rw [if_neg hkind]
    omega
  | emptyComment hkind => simp [hkind]

/-- Each token stands before the next. -/
theorem ascending (h : Lie line column cs ts) : ts.Pairwise fun t u => t.column < u.column := by
  induction h with
  | nil => exact .nil
  | blank _ _ ih => exact ih
  | token _ _ _ _ hne h ih =>
    have hpos := List.length_pos_iff.2 hne
    exact .cons (fun u hu => by have := h.column_le u hu; omega) ih
  | emptyComment => exact List.pairwise_singleton _ _

/-- At the column of a token the text has the first character of its lexeme. -/
theorem getElem? (h : Lie line column cs ts) (front : List Char) (hfront : front.length = column) :
    ∀ t ∈ ts, ∀ c ∈ t.lexeme.toList.head?, (front ++ cs)[t.column]? = some c := by
  -- The text in front grows with the column, so the induction is for any text of that length.
  induction h generalizing front with
  | nil => simp
  | @blank c cs ts column hc _ ih =>
    have hmore := ih (front ++ [c]) (by simp [hfront])
    simpa using hmore
  | @token t covers rest ts _ _ _ hfor hne _ ih =>
    have hmore := ih (front ++ covers) (by simp [hfront])
    refine List.forall_mem_cons.2 ⟨fun c hc => ?_, by simpa using hmore⟩
    rw [hfor.head] at hc
    obtain ⟨d, ds, rfl⟩ := List.exists_cons_of_ne_nil hne
    obtain rfl : d = c := by simpa using hc
    simp [← hfront]
  | emptyComment _ hlexeme => simp [hlexeme]

end Lie

/-! ### Scanning -/

/-- The lexeme of a piece stands for what the piece covers. -/
theorem standsFor_piece {p : Piece} (hhead : ∀ c ∈ p.covers.head?, isBlank c = false)
    (line : Option Nat) (column : Nat) : StandsFor ⟨p.kind, p.lexeme, line, column⟩ p.covers := by
  have hblanks : ∀ cs : List Char, (∀ c ∈ cs.head?, isBlank c = false) →
      dropBlanks (dropBlanks cs) = dropBlanks cs ∧ (dropBlanks cs).head? = cs.head? := by
    intro cs hcs
    refine ⟨by simp [dropBlanks], ?_⟩
    cases cs with
    | nil => rfl
    | cons c cs => simp [dropBlanks, hcs c rfl]
  obtain ⟨kind, covers⟩ := p
  cases kind with
  | string | comment => exact ⟨by simp [Piece.lexeme], by simp [Piece.lexeme]⟩
  | _ =>
    obtain ⟨hdrop, hfirst⟩ := hblanks covers hhead
    exact ⟨by simpa [Piece.lexeme] using hdrop, by simpa [Piece.lexeme] using hfirst⟩

/-- A comment stands for what it covers, blanks at its front included. -/
theorem standsFor_comment {text : String} (line : Option Nat) (column : Nat) (covers : List Char) :
    StandsFor ⟨.comment text, (Piece.mk (.comment text) covers).lexeme, line, column⟩ covers :=
  ⟨by simp [Piece.lexeme], by simp [Piece.lexeme]⟩

/-- A plain token is neither the number of a line, nor its end, nor an empty comment. -/
theorem isInner_of_isPlain (h : isPlain t.kind) : t.isInner ∧ t.kind ≠ .comment "" := by
  constructor
  · unfold isInner
    split <;> simp_all [isPlain]
  · intro hkind
    rw [hkind] at h
    cases h

/-- `REM` and its comment lie on their text, an empty comment at its end. -/
theorem lie_remark {covers : List Char} (hne : covers ≠ [])
    (hhead : ∀ c ∈ covers.head?, isBlank c = false) (line : Option Nat) (column : Nat)
    (comment : List Char) :
    Lie line column (covers ++ comment)
      (place line column [⟨.word .REM, covers⟩, ⟨.comment (.ofList comment), comment⟩]) := by
  refine .token rfl (by simp) rfl (standsFor_piece (p := ⟨.word .REM, covers⟩) hhead line column)
    hne ?_
  cases comment with
  | nil =>
    exact .emptyComment (t := ⟨.comment (.ofList []), .ofList [], line, column + covers.length⟩) rfl
      rfl rfl
  | cons c cs =>
    have hlie :=
      Lie.token (t := ⟨.comment (.ofList (c :: cs)), .ofList (c :: cs), line,
        column + covers.length⟩)
      rfl (by simp) rfl (standsFor_comment line _ (c :: cs)) (List.cons_ne_nil c cs) (.nil _)
    rwa [List.append_nil] at hlie

/-- A stretch at the front of a text that begins with no blank begins with none either. -/
theorem isBlank_head? (hc : isBlank c = false) (hne : covers ≠ [])
    (happend : covers ++ rest = c :: cs) :
    ∀ d ∈ covers.head?, isBlank d = false := by
  intro d hd
  rw [Option.mem_def, ← List.head?_append_of_ne_nil covers hne, happend] at hd
  cases hd
  exact hc

/-- What scans from a column on lies on the text from there, up to the end of the line. -/
theorem ScansTo.exists_lie (h : ScansTo line column cs ts) :
    ∃ body, ts = body ++ [⟨.endOfLine, "\n", line, column + cs.length⟩] ∧
      Lie line column cs body := by
  induction h with
  | finish column => exact ⟨[], rfl, .nil column⟩
  | blank hc _ ih =>
    obtain ⟨body, rfl, hlie⟩ := ih
    exact ⟨body, by simp only [List.length_cons, Nat.add_assoc, Nat.add_comm 1], .blank hc hlie⟩
  | @piece column c cs rest p ts hc hfirst hp _ ih =>
    obtain ⟨hcovers, hne⟩ := first_covers hfirst
    rw [covered_singleton] at hcovers hne
    obtain ⟨body, rfl, hlie⟩ := ih
    rw [← hcovers]
    obtain ⟨hinner, hkind⟩ := isInner_of_isPlain (t := ⟨p.kind, p.lexeme, line, column⟩) hp
    refine ⟨⟨p.kind, p.lexeme, line, column⟩ :: body, by simp [Nat.add_assoc], ?_⟩
    exact .token hinner hkind rfl (standsFor_piece (isBlank_head? hc hne hcovers) line column) hne
      hlie
  | @remark column c cs r p text hc hfirst hr hp =>
    cases splitsOff_of_first hfirst with
    | @rem covers comment _ hword =>
      obtain ⟨hsplit, hne⟩ := word?_append hword
      refine ⟨_, ?_, hsplit ▸ lie_remark hne (isBlank_head? hc hne hsplit) line column comment⟩
      rw [← hsplit, List.length_append, ← Nat.add_assoc]
      rfl

/-! ### Whole lines -/

/-- The number of a line is the value of its digits, if that is one that a line can have. -/
theorem ofText?_eq_some_iff {digits : List Char} {n : Nat} (hdigits : ∀ c ∈ digits, c.isDigit) :
    LineNumber.ofText? digits = some n ↔ 1 ≤ n ∧ n ≤ LineNumber.last ∧ Text.value digits = n := by
  by_cases hne : digits = []
  · subst hne
    constructor
    · nofun
    · rintro ⟨hlow, -, rfl⟩
      cases hlow
  · rw [LineNumber.ofText?_digits hne hdigits]
    split
    next hrange =>
      rw [Option.some.injEq]
      exact ⟨fun h => ⟨h ▸ hrange.1, h ▸ hrange.2, h⟩, fun h => h.2.2⟩
    next hrange =>
      constructor
      · nofun
      · rintro ⟨hlow, hhigh, rfl⟩
        exact absurd ⟨hlow, hhigh⟩ hrange

/-- How the tokens of a line account for its text: a body, and the end of the line. -/
structure Accounts (cs : List Char) (body : List Token) (last : Token) : Prop where
  /-- The last token is the end of the line. -/
  last_kind : last.kind = .endOfLine
  /-- It stands behind all characters. -/
  last_column : last.column = cs.length
  /-- The line ends nowhere before. -/
  body_kind : ∀ t ∈ body, t.kind ≠ .endOfLine
  /-- No character is lost but blanks. -/
  lexemes : dropBlanks (body.flatMap fun t => t.lexeme.toList) = dropBlanks cs
  /-- Each token stands before the next. -/
  ascending : body.Pairwise fun t u => t.column < u.column
  /-- So does the last of them before the end of the line, but for an empty comment. -/
  before_last : ∀ t ∈ body,
    if t.kind = .comment "" then t.column = last.column else t.column < last.column
  /-- Where a token stands, the text has the first character of its lexeme. -/
  located : ∀ t ∈ body, (∀ digits, t.kind ≠ .lineNumber digits) → ∀ c ∈ t.lexeme.toList.head?,
    cs[t.column]? = some c
  /-- All tokens are on one line. -/
  same_line : ∀ t ∈ body, t.line = last.line
  /-- It has the number that the digits at the front of the text denote, if that is one of a
      line. -/
  line_eq_some_iff : ∀ n, last.line = some n ↔
    1 ≤ n ∧ n ≤ LineNumber.last ∧ Text.value ((dropBlanks cs).takeWhile Char.isDigit) = n

/-- The last token stands behind all others. -/
theorem Accounts.column_le {body : List Token} {last : Token} (h : Accounts cs body last)
    (ht : t ∈ body) :
    t.column ≤ last.column := by
  have hbefore := h.before_last t ht
  split at hbefore
  · exact hbefore.le
  · exact hbefore.le

/-- The number of a line stands at its front. -/
theorem mem_numberTokens {digits : List Char} (h : t ∈ numberTokens digits) :
    digits ≠ [] ∧ t.kind = .lineNumber (.ofList digits) ∧ t.line = LineNumber.ofText? digits ∧
      t.column = 0 := by
  unfold numberTokens at h
  split at h
  next => cases h
  next hne =>
    rw [List.mem_singleton.1 h]
    exact ⟨hne, rfl, rfl, rfl⟩

/-- The lexeme of a line number has the digits that were read. -/
theorem lexemes_numberTokens (cs : List Char) :
    dropBlanks ((numberTokens (dropBlanks cs)).flatMap fun t => t.lexeme.toList) =
      dropBlanks cs := by
  unfold numberTokens
  split
  next hnil => rw [hnil]; rfl
  next => simp [dropBlanks]

/-- A scanned line is its number, tokens that lie on the rest of its text, and its end. -/
theorem exists_lie_of_scan {text : String} (h : scan text = .ok ts) :
    ∃ front covers rest body, Fronted text.toList front covers rest ∧
      Lie (LineNumber.ofText? (dropBlanks covers)) (front.length + covers.length) rest body ∧
      ts = numberTokens (dropBlanks covers) ++ body ++
      [⟨.endOfLine, "\n", LineNumber.ofText? (dropBlanks covers),
        front.length + covers.length + rest.length⟩] := by
  obtain ⟨front, covers, rest, hfronted⟩ := exists_fronted text.toList
  obtain ⟨tokens, htokens, rfl⟩ := hfronted.exists_of_scan h
  obtain ⟨body, rfl, hlie⟩ := (scansTo_iff.2 htokens).exists_lie
  exact ⟨front, covers, rest, body, hfronted, hlie, (List.append_assoc ..).symm⟩

/-- The number of a line and the tokens that lie on the rest of its text account for it. -/
theorem Fronted.accounts {front : List Char} {body : List Token}
    (hfronted : Fronted cs front covers rest)
    (hlie : Lie (LineNumber.ofText? (dropBlanks covers)) (front.length + covers.length) rest body) :
    Accounts (dropLineEnd cs) (numberTokens (dropBlanks covers) ++ body)
      ⟨.endOfLine, "\n", LineNumber.ofText? (dropBlanks covers),
        front.length + covers.length + rest.length⟩ := by
  rw [hfronted.text]
  have hcolumn : front.length + covers.length + rest.length =
      (front ++ (covers ++ rest)).length := by
    simp only [List.length_append, Nat.add_assoc]
  -- A line with a number has characters for it, so whatever follows stands at a later column.
  have hnumber : ∀ t ∈ numberTokens (dropBlanks covers), 0 < covers.length := fun t ht =>
    List.length_pos_iff.2 fun hnil => (mem_numberTokens ht).1 (by rw [hnil]; rfl)
  constructor
  case last_kind => rfl
  case last_column => exact hcolumn
  case body_kind =>
    refine List.forall_mem_append.2 ⟨fun t ht => ?_, fun t ht hkind => ?_⟩
    · simp [(mem_numberTokens ht).2.1]
    · simpa [isInner, hkind] using hlie.isInner t ht
  case lexemes =>
    rw [List.flatMap_append, dropBlanks_append, dropBlanks_append, dropBlanks_append, hlie.lexemes,
      dropBlanks_eq_nil hfronted.front, List.nil_append, lexemes_numberTokens]
  case ascending =>
    refine List.pairwise_append.2 ⟨?_, hlie.ascending, fun t ht u hu => ?_⟩
    · unfold numberTokens
      split
      · exact .nil
      · exact List.pairwise_singleton _ _
    · have hpos := hnumber t ht
      have hle := hlie.column_le u hu
      rw [(mem_numberTokens ht).2.2.2]
      omega
  case before_last =>
    refine List.forall_mem_append.2 ⟨fun t ht => ?_, hlie.column_lt⟩
    have hpos := hnumber t ht
    obtain ⟨-, hkind, -, hzero⟩ := mem_numberTokens ht
    rw [if_neg (by simp [hkind]), hzero]
    exact Nat.lt_of_lt_of_le hpos (Nat.le_trans (Nat.le_add_left _ _) (Nat.le_add_right _ _))
  case located =>
    refine List.forall_mem_append.2 ⟨fun t ht hkind => ?_, fun t ht _ c hc => ?_⟩
    · exact absurd (mem_numberTokens ht).2.1 (hkind _)
    · have hat := hlie.getElem? (front ++ covers) (by simp) t ht c hc
      rwa [List.append_assoc] at hat
  case same_line =>
    exact List.forall_mem_append.2 ⟨fun t ht => (mem_numberTokens ht).2.2.1, hlie.line_eq⟩
  case line_eq_some_iff =>
    have hdigits : (dropBlanks (front ++ (covers ++ rest))).takeWhile Char.isDigit =
        dropBlanks covers := by
      rw [dropBlanks_append, dropBlanks_eq_nil hfronted.front, List.nil_append,
        ← dropBlanks_readDigits, hfronted.split]
    intro n
    rw [hdigits]
    exact ofText?_eq_some_iff hfronted.isDigit

/-- **Tokens account for the text.**  Whatever text is scanned, its tokens account for all of it but
the line end: nothing is lost but blanks, and the columns are those of the text. -/
theorem scan_accounts {text : String} (h : scan text = .ok ts) :
    ∃ body last, ts = body ++ [last] ∧ Accounts (dropLineEnd text.toList) body last := by
  obtain ⟨front, covers, rest, body, hfronted, hlie, rfl⟩ := exists_lie_of_scan h
  exact ⟨_, _, rfl, hfronted.accounts hlie⟩

/-- The tokens of a numbered remark account for its text, blanks in front and the comment
    included. -/
theorem scan_accounts_remark :
    ∃ body last, [⟨.lineNumber "10", "10", some 10, 0⟩, ⟨.word .REM, "REM", some 10, 5⟩,
        ⟨.comment " a  b", " a  b", some 10, 9⟩, ⟨.endOfLine, "\n", some 10, 14⟩] = body ++ [last] ∧
      Accounts " 1 0 R EM a  b".toList body last := by
  have hscan : scan " 1 0 R EM a  b\r\n" = .ok [⟨.lineNumber "10", "10", some 10, 0⟩,
      ⟨.word .REM, "REM", some 10, 5⟩, ⟨.comment " a  b", " a  b", some 10, 9⟩,
      ⟨.endOfLine, "\n", some 10, 14⟩] := by
    decide +kernel
  exact scan_accounts hscan

end LineBasic.Token
