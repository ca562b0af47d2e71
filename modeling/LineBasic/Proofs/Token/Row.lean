import LineBasic.Token.Row
import LineBasic.Proofs.Token.First

namespace LineBasic

/-!
# Scanned rows

What every row of tokens looks like that the scanner gives:

* `LineNumber.ofText?_digits` -- the number of a line that digits denote;
* `Body` -- the tokens between the number of a line and its end: a comment stands behind a final
  `REM` and nowhere else;
* `ScansTo`, `scansTo_iff` -- the scan of a text, by what the text begins with;
* `Fronted.isDigit`, `IsRow`, `scan_isRow` -- a number of digits or none, a body, and the end of the
  line;
* `eq_of_append_atEnd` -- a row has only one place where the line ends.
-/

/-! ### Results -/

/-- A result that is mapped is that of a computation that succeeds. -/
theorem map_eq_ok {ε α β : Type} {x : Except ε α} {f : α → β} {b : β} :
    x.map f = .ok b ↔ ∃ a, x = .ok a ∧ f a = b := by
  cases x <;> simp [Except.map]

/-- Two computations in a row succeed if the first does and then the second. -/
theorem bind_eq_ok {ε α β : Type} {x : Except ε α} {f : α → Except ε β} {b : β} :
    x >>= f = .ok b ↔ ∃ a, x = .ok a ∧ f a = .ok b := by
  cases x <;> simp [bind, Except.bind]

/-- Mapping a result keeps the error. -/
theorem map_eq_error {ε α β : Type} {x : Except ε α} {f : α → β} {e : ε} :
    x.map f = .error e ↔ x = .error e := by
  cases x <;> simp [Except.map]

/-- Of two computations in a row the first fails, or the second does. -/
theorem bind_eq_error {ε α β : Type} {x : Except ε α} {f : α → Except ε β} {e : ε} :
    x >>= f = .error e ↔ x = .error e ∨ ∃ a, x = .ok a ∧ f a = .error e := by
  cases x <;> simp [bind, Except.bind]

/-! ### Line numbers -/

/-- Digits are the number of a line if their value is one that a line can have. -/
theorem LineNumber.ofText?_digits {digits : List Char} (hne : digits ≠ [])
    (hdigits : ∀ c ∈ digits, c.isDigit) :
    LineNumber.ofText? digits =
      if 1 ≤ Text.value digits ∧ Text.value digits ≤ LineNumber.last then some (Text.value digits)
      else none := by
  have hplus : digits.head? ≠ some '+' := by
    intro hhead
    have hplus := hdigits '+' (List.mem_of_head? hhead)
    revert hplus
    decide
  have hnumber : Text.number? digits = some (Text.value digits) := by
    have hall : digits.all Char.isDigit := List.all_eq_true.2 hdigits
    simp [Text.number?, hplus, hne, hall]
  rw [LineNumber.ofText?, hnumber]
  simp [Option.filter]

namespace Token

variable {t last : Token} {ts us body rest : List Token} {column : Nat} {line : Option Nat}

/-! ### Bodies -/

/-- Whether tokens of a kind can stand anywhere behind the number of a line. -/
def isPlain : Kind → Bool
  | .lineNumber _ | .comment _ | .word .REM | .endOfLine => false
  | _ => true

/-- The tokens of a line without its number and its end. -/
inductive Body : List Token → Prop where
  | nil : Body []
  | remark {r c : Token} {text : String} (hr : r.kind = .word .REM) (hc : c.kind = .comment text) :
    Body [r, c]
  | cons {t : Token} {ts : List Token} (ht : isPlain t.kind) (hts : Body ts) : Body (t :: ts)

namespace Body

/-- A token of a body is plain, or it is `REM` or the comment behind it. -/
theorem isPlain_or_remark (h : Body ts) :
    ∀ t ∈ ts, isPlain t.kind ∨ t.kind = .word .REM ∨ ∃ text, t.kind = .comment text := by
  induction h with
  | nil => simp
  | remark hr hc => simp [hr, hc]
  | cons ht _ ih => exact List.forall_mem_cons.2 ⟨.inl ht, ih⟩

/-- The end of the line is no part of a body. -/
theorem kind_ne_endOfLine (h : Body ts) : ∀ t ∈ ts, t.kind ≠ .endOfLine := by
  intro t ht hk
  simpa [hk, isPlain] using h.isPlain_or_remark t ht

/-- The number of a line is no part of its body. -/
theorem kind_ne_lineNumber (h : Body ts) (digits : String) :
    ∀ t ∈ ts, t.kind ≠ .lineNumber digits := by
  intro t ht hk
  simpa [hk, isPlain] using h.isPlain_or_remark t ht

end Body

/-! ### What the scanner splits off -/

/-- The pieces at the front of a text are a single one, or `REM` and its comment, which is the
    rest. -/
theorem first_kinds {c : Char} {cs rest : List Char} {pieces : List Piece}
    (h : first column c cs = .ok (pieces, rest)) :
    (∃ p, pieces = [p] ∧ isPlain p.kind) ∨
      ∃ r p text, pieces = [r, p] ∧ rest = [] ∧ r.kind = .word .REM ∧ p.kind = .comment text := by
  cases splitsOff_of_first h with
  | symbol hsymbol =>
    refine .inl ⟨_, rfl, ?_⟩
    unfold symbol? at hsymbol
    split at hsymbol <;> simp_all <;> obtain ⟨rfl, rfl⟩ := hsymbol <;> rfl
  | string | number | letter => exact .inl ⟨_, rfl, rfl⟩
  | @word word _ _ _ _ hne =>
    refine .inl ⟨_, rfl, ?_⟩
    cases word <;> first | rfl | exact (hne rfl).elim
  | rem => exact .inr ⟨_, _, _, rfl, rfl, rfl, rfl⟩

/-! ### The scan as a relation -/

/-- The tokens of a text from a column on: it is at its end, or begins with a blank, with a piece
    that more of the text follows, or with `REM` and its comment. -/
inductive ScansTo (line : Option Nat) : Nat → List Char → List Token → Prop where
  | finish (column : Nat) : ScansTo line column [] [⟨.endOfLine, "\n", line, column⟩]
  | blank {column : Nat} {c : Char} {cs : List Char} {ts : List Token} (hc : isBlank c)
      (h : ScansTo line (column + 1) cs ts) : ScansTo line column (c :: cs) ts
  | piece {column : Nat} {c : Char} {cs rest : List Char} {p : Piece} {ts : List Token}
      (hc : isBlank c = false) (hfirst : first column c cs = .ok ([p], rest)) (hp : isPlain p.kind)
      (h : ScansTo line (column + p.covers.length) rest ts) :
      ScansTo line column (c :: cs) (⟨p.kind, p.lexeme, line, column⟩ :: ts)
  | remark {column : Nat} {c : Char} {cs : List Char} {r p : Piece} {text : String}
      (hc : isBlank c = false) (hfirst : first column c cs = .ok ([r, p], []))
      (hr : r.kind = .word .REM) (hp : p.kind = .comment text) :
      ScansTo line column (c :: cs)
        [⟨r.kind, r.lexeme, line, column⟩, ⟨p.kind, p.lexeme, line, column + r.covers.length⟩,
          ⟨.endOfLine, "\n", line, column + r.covers.length + p.covers.length⟩]

/-- **The scan as a relation.**  What is scanned is what the relation says, so that a proof about
    all scanned texts goes by induction on it. -/
theorem scansTo_iff {cs : List Char} :
    ScansTo line column cs ts ↔ scanFrom line column cs = .ok ts := by
  constructor
  · intro h
    induction h with
    | finish => exact scanFrom_nil
    | blank hc _ ih => rw [scanFrom_of_isBlank hc, ih]
    | piece hc hfirst _ _ ih =>
      rw [scanFrom_of_first hc hfirst, covered_singleton, ih]
      rfl
    | remark hc hfirst =>
      rw [scanFrom_of_first hc hfirst, scanFrom_nil]
      simp [Except.map, place, covered, Nat.add_assoc]
  · intro h
    fun_induction scanFrom line column cs generalizing ts with
    | case1 column =>
      cases h
      exact .finish column
    | case2 column c cs hc ih => exact .blank hc (ih h)
    | case3 => cases h
    | case4 column c cs hc pieces rest hfirst ih =>
      have hc : isBlank c = false := by simpa using hc
      obtain ⟨tokens, htokens, rfl⟩ := map_eq_ok.1 h
      rcases first_kinds hfirst with ⟨p, rfl, hp⟩ | ⟨r, p, text, rfl, rfl, hr, hp⟩
      · rw [covered_singleton] at htokens ih
        exact .piece hc hfirst hp (ih htokens)
      · -- Nothing is left behind a comment.
        rw [scanFrom_nil] at htokens
        cases htokens
        simpa [place, covered, Nat.add_assoc] using ScansTo.remark hc hfirst hr hp

/-- The tokens of a text are a body and the end of the line. -/
theorem ScansTo.exists_body {cs : List Char} (h : ScansTo line column cs ts) :
    ∃ body last, ts = body ++ [last] ∧ Body body ∧ last.kind = .endOfLine := by
  induction h with
  | finish => exact ⟨[], _, rfl, .nil, rfl⟩
  | blank _ _ ih => exact ih
  | piece _ _ hp _ ih =>
    obtain ⟨body, last, rfl, hbody, hlast⟩ := ih
    exact ⟨_ :: body, last, rfl, .cons hp hbody, hlast⟩
  | remark _ _ hr hp => exact ⟨[_, _], _, rfl, .remark hr hp, rfl⟩

/-! ### Whole rows -/

/-- A number is read from digits with blanks between them. -/
theorem readDigits_covers (cs : List Char) : ∀ c ∈ (readDigits cs).1, c.isDigit ∨ isBlank c := by
  fun_induction readDigits cs <;> simp_all

/-- What is left of a number without its blanks is digits. -/
theorem isDigit_of_mem_dropBlanks {c : Char} {cs : List Char}
    (h : c ∈ dropBlanks (readDigits cs).1) :
    c.isDigit := by
  obtain ⟨hmem, hblank⟩ := List.mem_filter.1 h
  exact (readDigits_covers cs c hmem).resolve_right (by simpa using hblank)

/-- The number at the front of a line is made of digits. -/
theorem Fronted.isDigit {cs front covers rest : List Char} (h : Fronted cs front covers rest) :
    ∀ c ∈ dropBlanks covers, c.isDigit := by
  intro c hc
  refine @isDigit_of_mem_dropBlanks c (covers ++ rest) ?_
  rwa [h.split]

/-- The tokens of a whole line: its number, if it has one, its body, and its end. -/
inductive IsRow : List Token → Prop where
  | numbered {t last : Token} {digits : String} {body : List Token}
      (ht : t.kind = .lineNumber digits) (hne : digits.toList ≠ [])
      (hdigits : ∀ c ∈ digits.toList, c.isDigit) (hbody : Body body)
      (hlast : last.kind = .endOfLine) : IsRow (t :: (body ++ [last]))
  | plain {last : Token} {body : List Token} (hbody : Body body) (hlast : last.kind = .endOfLine) :
      IsRow (body ++ [last])

/-- A row ends where the line does, and nowhere before. -/
theorem IsRow.exists_eq_append (h : IsRow ts) :
    ∃ row last, ts = row ++ [last] ∧ (∀ t ∈ row, t.kind ≠ .endOfLine) ∧ last.kind = .endOfLine := by
  cases h with
  | @numbered t last digits body ht _ _ hbody hlast =>
    exact ⟨t :: body, last, rfl, List.forall_mem_cons.2 ⟨by simp [ht], hbody.kind_ne_endOfLine⟩,
      hlast⟩
  | @plain last body hbody hlast => exact ⟨body, last, rfl, hbody.kind_ne_endOfLine, hlast⟩

/-- **Scanned rows.**  Whatever text is scanned, its tokens are the row of a line. -/
theorem scan_isRow {text : String} (h : scan text = .ok ts) : IsRow ts := by
  obtain ⟨front, covers, rest, hfronted⟩ := exists_fronted text.toList
  obtain ⟨tokens, htokens, rfl⟩ := hfronted.exists_of_scan h
  obtain ⟨body, last, rfl, hbody, hlast⟩ := (scansTo_iff.2 htokens).exists_body
  unfold numberTokens
  split
  next => exact .plain hbody hlast
  next hne =>
    exact .numbered rfl (by simpa using hne)
      (fun c hc => hfronted.isDigit c (by simpa using hc)) hbody hlast

/-- A row whose end is expected is at its end. -/
theorem atEnd_of_expectEnd (h : expectEnd ts = .ok ()) : atEnd ts := by
  unfold expectEnd at h
  split at h
  · assumption
  · cases h

/-- The end of a row is where the line ends, and nowhere before. -/
theorem eq_of_append_atEnd (hbody : ∀ t ∈ body, t.kind ≠ .endOfLine)
    (hus : ∀ t ∈ us, t.kind ≠ .endOfLine) (hrest : atEnd rest) (hlast : last.kind = .endOfLine)
    (h : body ++ [last] = us ++ rest) : us = body := by
  rcases List.append_eq_append_iff.1 h with ⟨as, rfl, has⟩ | ⟨bs, rfl, rfl⟩
  · rcases List.append_eq_singleton_iff.1 has.symm with ⟨rfl, -⟩ | ⟨rfl, -⟩
    · exact List.append_nil _
    · exact absurd hlast (hus last (by simp))
  · cases bs with
    | nil => exact (List.append_nil _).symm
    | cons b bs =>
      have hb : b.kind = .endOfLine := by simpa [atEnd, isEndOfLine] using hrest
      exact absurd hb (hbody b (by simp))

end Token

end LineBasic
