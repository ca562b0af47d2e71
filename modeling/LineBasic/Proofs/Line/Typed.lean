import LineBasic.Proofs.Line.Grammar
import LineBasic.Proofs.Statement.Written
import LineBasic.Proofs.Text.Space

namespace LineBasic

/-!
# Typed lines

Every statement that can be written can be typed, with a number before it or without.  The entry of
what is typed is that statement again, up to its columns.

* `spaced`, `typed_spaced` -- the text of a row of kinds with one space between them;
* `Statement.rendered` -- the text that a statement is written as;
* `Token.scan_of_typed`, `Token.scan_of_numbered` -- the tokens of a typed text, without and with a
  number;
* `Entry.ofText_of_typed` -- the main result.
-/

open Token

variable {ks : List Kind} {cs : List Char}

/-! ### One space between tokens -/

/-- The text of a row of kinds with one space between them, but none behind `REM`. -/
def spaced : List Kind → List Char
  | [] => []
  | [k] => k.display.toList
  | k :: next :: ks =>
    k.display.toList ++ if k = .word .REM then spaced (next :: ks) else ' ' :: spaced (next :: ks)

/-- The text that a statement is written as. -/
def Statement.rendered (s : Statement) : String := .ofList (spaced s.kinds)

/-- A text with one space between its tokens is typed. -/
theorem typed_spaced (h : Legible ks) : Typed ks (spaced ks) := by
  induction h with
  | nil => exact .nil
  | remark => exact .remark _
  | @cons k ks hk _ _ ih =>
    have hne : k ≠ .word .REM := by
      rintro rfl
      cases hk
    cases ks with
    | nil => simpa [spaced] using Typed.cons hne .nil
    | cons next ks =>
      rw [spaced, if_neg hne]
      exact .cons hne (.blank rfl (List.cons_ne_nil _ _) ih)

/-! ### Blanks in front -/

/-- Blanks can be typed before what is typed. -/
theorem Typed.blanks (h : Typed ks cs) (hne : ks ≠ []) {gap : List Char}
    (hgap : ∀ c ∈ gap, isBlank c) :
    Typed ks (gap ++ cs) := by
  induction gap with
  | nil => exact h
  | cons c gap ih =>
    obtain ⟨hc, hgap⟩ := List.forall_mem_cons.1 hgap
    exact .blank hc hne (ih hgap)

/-- The blanks in front of what is typed can be left out. -/
theorem Typed.dropWhile (h : Typed ks cs) (hks : Legible ks) : Typed ks (cs.dropWhile isBlank) := by
  induction h with
  | nil => exact .nil
  | remark comment => exact .remark comment
  | blank hc _ _ ih =>
    rw [List.dropWhile_cons_of_pos hc]
    exact ih hks
  | @cons k ks cs hne htyped =>
    obtain ⟨hk, -, -⟩ := hks.of_cons hne
    obtain ⟨c, ds, hdisplay, hc⟩ := Kind.exists_display hk
    have hdrop : (c :: ds ++ cs).dropWhile isBlank = c :: ds ++ cs :=
      List.dropWhile_cons_of_neg (by simp [hc])
    rw [hdisplay, hdrop, ← hdisplay]
    exact .cons hne htyped

/-! ### Scanning -/

namespace Token

variable {text : String} {w : Keyword}

/-- Whatever stands before it, what is typed does not end with space. -/
theorem getLast?_append_of_typed (front : List Char) (hne : ks ≠ []) (hks : Legible ks)
    (h : Typed ks cs) :
    ∀ c ∈ (front ++ cs).getLast?, Text.isSpace c = false := by
  obtain ⟨c, ds, rfl⟩ := List.exists_cons_of_ne_nil (ne_nil_of_typed hks hne h)
  rw [List.getLast?_append_cons]
  exact getLast?_of_typed hks h

/-- A text that does not end with space has no line end to drop. -/
theorem dropLineEnd_of_getLast? (h : ∀ c ∈ cs.getLast?, Text.isSpace c = false) :
    dropLineEnd cs = cs := by
  refine dropLineEnd_eq_self fun hne => ?_
  have hlast := h _ (List.getLast?_eq_some_getLast hne)
  constructor <;> intro heq <;> rw [heq] at hlast <;> cases hlast

/-- A reserved word begins with a letter. -/
theorem head?_dropWhile_of_word (hks : Legible (.word w :: ks)) (h : Typed (.word w :: ks) cs) :
    ∀ c ∈ (cs.dropWhile isBlank).head?, c.isAlpha := by
  rw [head?_of_typed hks h]
  exact isAlpha_of_head?_name w

/-- Without the end of the line, the tokens of a typed text have the kinds that it was typed for. -/
theorem exists_scanFrom_of_typed (line : Option Nat) (column : Nat) (hks : Legible ks)
    (h : Typed ks cs) :
    ∃ ts last, scanFrom line column cs = .ok (ts ++ [last]) ∧ ts.map Token.kind = ks ∧
      last.kind = .endOfLine := by
  obtain ⟨tokens, hscan, hkinds⟩ := scanFrom_of_typed line column hks h
  obtain ⟨ts, _, rfl, hts, hend⟩ := List.map_eq_append_iff.1 hkinds
  obtain ⟨last, rfl, hlast⟩ := List.map_eq_singleton_iff.1 hend
  exact ⟨ts, last, hscan, hts, hlast⟩

/-- The tokens of a statement that is typed without a number. -/
theorem scan_of_typed (hks : Legible (.word w :: ks)) (h : Typed (.word w :: ks) text.toList) :
    ∃ ts last, scan text = .ok (ts ++ [last]) ∧ ts.map Token.kind = .word w :: ks ∧
      last.kind = .endOfLine := by
  have hhead := head?_dropWhile_of_word hks h
  have hfront : Fronted text.toList (text.toList.takeWhile isBlank) []
      (text.toList.dropWhile isBlank) := by
    refine ⟨?_, fun c => List.mem_takeWhile_imp, fun c hc => isBlank_of_isAlpha (hhead c hc), ?_⟩
    · rw [dropLineEnd_of_getLast? (getLast?_of_typed hks h), List.nil_append,
        List.takeWhile_append_dropWhile]
    · refine readDigits_eq_nil fun c hc => isDigit_of_isAlpha (hhead c ?_)
      rwa [List.nil_append, List.dropWhile_idempotent] at hc
  obtain ⟨ts, last, hscan, hts, hlast⟩ := exists_scanFrom_of_typed _ _ hks (h.dropWhile hks)
  exact ⟨ts, last, hfront.scan_of_ok hscan, hts, hlast⟩

/-- The tokens of a statement that is typed behind a number. -/
theorem scan_of_numbered {n : Nat} (hks : Legible (.word w :: ks)) (h : Typed (.word w :: ks) cs)
    (htext : text.toList = (Text.ofNat n).toList ++ cs) :
    ∃ t ts last, scan text = .ok (t :: (ts ++ [last])) ∧ t.kind = .lineNumber (Text.ofNat n) ∧
      ts.map Token.kind = .word w :: ks ∧ last.kind = .endOfLine := by
  have hdigits := Text.isDigit_of_mem_ofNat (n := n)
  have hhead := head?_dropWhile_of_word hks h
  have hfront : Fronted text.toList [] (Text.ofNat n).toList cs := by
    refine ⟨?_, by simp, ?_, readDigits_digits hdigits fun c hc => isDigit_of_isAlpha (hhead c hc)⟩
    · rw [htext, dropLineEnd_of_getLast? (getLast?_append_of_typed _ (List.cons_ne_nil _ _) hks h),
        List.nil_append]
    · rw [List.head?_append_of_ne_nil _ (Text.ofNat_ne_nil n)]
      exact fun c hc => isBlank_of_isDigit (hdigits c (List.mem_of_head? hc))
  obtain ⟨ts, last, hscan, hts, hlast⟩ := exists_scanFrom_of_typed _ _ hks h
  have hall := hfront.scan_of_ok hscan
  rw [dropBlanks_digits hdigits, numberTokens, if_neg (Text.ofNat_ne_nil n)] at hall
  exact ⟨_, ts, last, hall, by simp, hts, hlast⟩

end Token

/-! ### Entries -/

namespace Entry

variable {s : Statement} {n : Nat} {text : String}

/-- The entry of written tokens is the statement that they were written for. -/
theorem exists_ofTokens_direct {ts : List Token} {last : Token} (hs : s.isTypable)
    (hts : ts.map Token.kind = s.kinds) (hlast : last.kind = .endOfLine) :
    ∃ s', ofTokens (ts ++ [last]) = .ok (.direct s') ∧ s'.unplaced = s.unplaced := by
  obtain ⟨ks, hks⟩ := s.exists_kinds
  obtain ⟨t, us, rfl, ht, -⟩ := List.map_eq_cons_iff.1 (hts.trans hks)
  obtain ⟨s', hread, hsame⟩ := Statement.exists_ofTokens hs hts hlast
  rw [List.cons_append] at hread ⊢
  exact ⟨s', by simp [ofTokens, ht, hread], hsame⟩

/-- The entry of written tokens behind a number stores the statement that they were written for. -/
theorem exists_ofTokens_store {t last : Token} {ts : List Token} (hs : s.isTypable) (hlow : 1 ≤ n)
    (hhigh : n ≤ 32767) (ht : t.kind = .lineNumber (Text.ofNat n))
    (hts : ts.map Token.kind = s.kinds) (hlast : last.kind = .endOfLine) :
    ∃ s', ofTokens (t :: (ts ++ [last])) = .ok (.store n s') ∧ s'.unplaced = s.unplaced := by
  obtain ⟨ks, hks⟩ := s.exists_kinds
  obtain ⟨b, bs, rfl, hb, -⟩ := List.map_eq_cons_iff.1 (hts.trans hks)
  obtain ⟨s', hread, hsame⟩ := Statement.exists_ofTokens hs hts hlast
  have hnumber : t.lineNumber = .ok n :=
    (Token.lineNumber_eq_ok_iff ht (Text.ofNat_ne_nil n) Text.isDigit_of_mem_ofNat).2
      ⟨(Text.value_ofNat n).symm, hlow, hhigh⟩
  have hmore : ¬ Token.atEnd (b :: bs ++ [last]) := by simp [Token.atEnd, Token.isEndOfLine, hb]
  exact ⟨s', by simp only [ofTokens, ht, hnumber, if_neg hmore, hread], hsame⟩

/-- **Typed lines.** Every statement that can be written can be typed.  The text that it is written
as is one of those that can be typed for it, and from each of these, whatever blanks stand between
its tokens, it is read again, up to its columns: as a statement to carry out, and behind a number,
with or without blanks between, as one to store under that number. -/
theorem ofText_of_typed (hs : s.isTypable) (hlow : 1 ≤ n) (hhigh : n ≤ 32767) :
    Typed s.kinds s.rendered.toList ∧
    ∀ text gap : String, Typed s.kinds text.toList → (∀ c ∈ gap.toList, isBlank c) →
      (∃ s', ofText text = .ok (.direct s') ∧ s'.unplaced = s.unplaced) ∧
      ∃ s', ofText (Text.ofNat n ++ gap ++ text) = .ok (.store n s') ∧
      s'.unplaced = s.unplaced := by
  have hlegible : Legible s.kinds := s.legible hs
  refine ⟨by simpa [Statement.rendered] using typed_spaced hlegible, fun text gap htyped hgap => ?_⟩
  obtain ⟨ks, hks⟩ := s.exists_kinds
  have hne : s.kinds ≠ [] := by simp [hks]
  constructor
  · have htrimmed : trimmed text = text := by
      rw [trimmed, Text.trimEnd_eq_self (getLast?_of_typed hlegible htyped), String.ofList_toList]
    obtain ⟨ts, last, hscan, hts, hlast⟩ := scan_of_typed (hks ▸ hlegible) (hks ▸ htyped)
    obtain ⟨s', hentry, hsame⟩ := exists_ofTokens_direct hs (hts.trans hks.symm) hlast
    exact ⟨s', ofText_eq_ok_iff.2 ⟨_, by rwa [htrimmed], hentry⟩, hsame⟩
  -- Behind the number the gap is part of the typed text: blanks may stand before any token.
  · have hmore : Typed s.kinds (gap.toList ++ text.toList) := htyped.blanks hne hgap
    have htext : (Text.ofNat n ++ gap ++ text).toList = (Text.ofNat n).toList ++
        (gap.toList ++ text.toList) := by
      simp
    have htrimmed : trimmed (Text.ofNat n ++ gap ++ text) = Text.ofNat n ++ gap ++ text := by
      rw [trimmed, htext, Text.trimEnd_eq_self (getLast?_append_of_typed _ hne hlegible hmore),
        ← htext, String.ofList_toList]
    obtain ⟨t, ts, last, hscan, ht, hts, hlast⟩ :=
      scan_of_numbered (hks ▸ hlegible) (hks ▸ hmore) htext
    obtain ⟨s', hentry, hsame⟩ := exists_ofTokens_store hs hlow hhigh ht (hts.trans hks.symm) hlast
    exact ⟨s', ofText_eq_ok_iff.2 ⟨_, by rwa [htrimmed], hentry⟩, hsame⟩

/-- The variable that is named by a character. -/
def variableNamed (c : Char) : Expr := .var .unplaced ((Letter.ofChar? c).getD default)

/-- An `IF` in an `IF`: reserved words stand behind letters that others of them begin with, and a
value is too small to be written as it is. -/
def nestedIf : Statement :=
  .cond .unplaced (variableNamed 'P') .lessEqual (.unary .unplaced .negate (.int .unplaced (-1)))
    (.cond .unplaced (.binary .unplaced .multiply (.group .unplaced (variableNamed 'I'))
      (variableNamed 'E')) .notEqual (variableNamed 'T')
      (.print .unplaced [.text .unplaced "R", .value (variableNamed 'R'), .comma .unplaced,
        .value (.usrAt .unplaced (.int .unplaced 0) (variableNamed 'L'))]))

/-- From the text of nested `IF`s, behind a number, they are read again. -/
theorem ofText_of_typed_nestedIf :
    nestedIf.rendered =
      "IF P <= - 65535 THEN IF ( I ) * E <> T THEN PRINT \"R\" R , USR ( 0 , L )" ∧
      ∃ s', ofText "10 IF P <= - 65535 THEN IF ( I ) * E <> T THEN PRINT \"R\" R , USR ( 0 , L )" =
        .ok (.store 10 s') ∧ s'.unplaced = nestedIf.unplaced := by
  have hrendered :
      nestedIf.rendered =
        "IF P <= - 65535 THEN IF ( I ) * E <> T THEN PRINT \"R\" R , USR ( 0 , L )" := by
    decide +kernel
  have hlines :=
    ofText_of_typed (n := 10) (show nestedIf.isTypable by decide +kernel) (by decide) (by decide)
  have hentry := (hlines.2 nestedIf.rendered " " hlines.1 (by simp [isBlank])).2
  rw [hrendered] at hentry
  exact ⟨hrendered, hentry⟩

end Entry

end LineBasic
