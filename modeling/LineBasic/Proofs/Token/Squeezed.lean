import LineBasic.Proofs.Token.First
import LineBasic.Proofs.Token.Row

namespace LineBasic.Token

/-!
# Blanks and letter case

What is scanned does not depend on the blanks of a text or on the case of its letters, as long as
nothing in it is kept as it stands: no string, no comment, and no relation of two characters.

* `squeezed` -- a text without its blanks, its letters in upper case;
* `readDigits_squeezed`, `spell_squeezed`, `findWord_squeezed`, `first_squeezed` -- each split of
  the scanner goes through a squeezed text as it goes through the text itself;
* `scanFrom_squeezed` -- so does the scanner;
* `scan_ignores_blanks` -- the main result, for two texts that are the same once they are squeezed.
-/

/-- The text without its blanks, its letters in upper case. -/
def squeezed (cs : List Char) : List Char := (dropBlanks cs).map Char.toUpper

/-- Texts are squeezed one by one. -/
theorem squeezed_append (cs ds : List Char) : squeezed (cs ++ ds) = squeezed cs ++ squeezed ds := by
  simp [squeezed, dropBlanks]

@[simp] theorem squeezed_nil : squeezed [] = [] := rfl

variable {c : Char} {cs covers rest : List Char}

/-- A blank in front is squeezed out. -/
theorem squeezed_of_isBlank (hc : isBlank c) : squeezed (c :: cs) = squeezed cs := by
  simp [squeezed, dropBlanks, hc]

/-- A character that is no blank stays, in upper case. -/
theorem squeezed_cons (hc : isBlank c = false) : squeezed (c :: cs) = c.toUpper :: squeezed cs := by
  simp [squeezed, dropBlanks, hc]

/-- The blanks in front leave nothing in the squeezed text. -/
theorem squeezed_dropWhile (cs : List Char) : squeezed (cs.dropWhile isBlank) = squeezed cs := by
  induction cs with
  | nil => rfl
  | cons c cs ih =>
    by_cases hc : isBlank c
    · rw [List.dropWhile_cons_of_pos hc, ih, squeezed_of_isBlank hc]
    · rw [List.dropWhile_cons_of_neg hc]

/-- Nothing is left of blanks. -/
theorem squeezed_eq_nil (h : ∀ c ∈ cs, isBlank c) : squeezed cs = [] := by
  simpa [squeezed, dropBlanks, List.filter_eq_nil_iff] using h

/-! ### Single characters -/

@[simp] theorem isBlank_toUpper (c : Char) : isBlank c.toUpper = isBlank c := by
  rcases toUpper_eq_or_isAlpha c with hc | hc
  · rw [hc]
  · rw [isBlank_of_isAlpha hc, isBlank_of_isAlpha (by simpa using hc)]

@[simp] theorem isDigit_toUpper (c : Char) : c.toUpper.isDigit = c.isDigit := by
  rcases toUpper_eq_or_isAlpha c with hc | hc
  · rw [hc]
  · rw [isDigit_of_isAlpha hc, isDigit_of_isAlpha (by simpa using hc)]

/-- A variable is written in either case. -/
theorem ofChar?_toUpper (c : Char) : Letter.ofChar? c.toUpper = Letter.ofChar? c := by
  simp [Letter.ofChar?]

/-! ### Splitting a squeezed text -/

/-- The digits at the front of a squeezed text are those of the text, squeezed. -/
theorem readDigits_squeezed (cs : List Char) :
    readDigits (squeezed cs) = (squeezed (readDigits cs).1, squeezed (readDigits cs).2) := by
  fun_induction readDigits cs with
  | case1 => rfl
  | case2 c cs hd covers rest hsplit ih =>
    have hc : isBlank c = false := isBlank_of_isDigit hd
    simp [squeezed_cons hc, readDigits, hd, ih, hsplit]
  | case3 c cs hd hb rest hsplit ih =>
    -- Blanks behind which no digit stands are left where they are.
    have hrest : rest = cs := by simpa [hsplit] using readDigits_append cs
    rw [squeezed_of_isBlank hb, ih, hsplit, hrest]
  | case4 c cs hd hb covers rest hne hsplit ih =>
    rw [squeezed_of_isBlank hb, ih, hsplit, squeezed_of_isBlank hb]
  | case5 c cs hd hb =>
    have hc : isBlank c = false := by simpa using hb
    simp [squeezed_cons hc, readDigits, hd, hc]

/-- A word is spelled in a squeezed text where it is spelled in the text. -/
theorem spell_squeezed (word cs : List Char) :
    spell word (squeezed cs) =
      (spell word cs).map fun (covers, rest) => (squeezed covers, squeezed rest) := by
  fun_induction spell word cs with
  | case1 => simp [spell]
  | case2 => rfl
  | case3 w word c cs hb ih =>
    rw [squeezed_of_isBlank hb, ih, Option.map_map]
    simp [Function.comp_def, squeezed_of_isBlank hb]
  | case4 w word c cs hb hw ih =>
    have hc : isBlank c = false := by simpa using hb
    have hw' : (c.toUpper.toUpper == w) = true := by simpa using hw
    rw [squeezed_cons hc, spell, if_neg (by simpa using hb), if_pos hw', ih, Option.map_map,
      Option.map_map]
    simp [Function.comp_def, squeezed_cons hc]
  | case5 w word c cs hb hw =>
    have hc : isBlank c = false := by simpa using hb
    have hw' : ¬ (c.toUpper.toUpper == w) = true := by simpa using hw
    rw [squeezed_cons hc, spell, if_neg (by simpa using hb), if_neg hw']
    rfl

/-- The letters that a spelling covers are its own. -/
theorem squeezed_of_spell {word : List Char} (h : spell word cs = some (covers, rest)) :
    squeezed covers = word := by
  fun_induction spell word cs generalizing covers with
  | case1 => simp_all
  | case2 => simp at h
  | case3 w word c cs hb ih =>
    obtain ⟨⟨covers', rest'⟩, hs, he⟩ := Option.map_eq_some_iff.1 h
    cases he
    rw [squeezed_of_isBlank hb, ih hs]
  | case4 w word c cs hb hw ih =>
    obtain ⟨⟨covers', rest'⟩, hs, he⟩ := Option.map_eq_some_iff.1 h
    cases he
    rw [squeezed_cons (by simpa using hb), ih hs, beq_iff_eq.1 hw]
  | case5 => simp at h

/-- The word that is found in a squeezed text is the one that is found in the text. -/
theorem findWord_squeezed (cs : List Char) (others : List (String × Option Keyword)) :
    findWord (squeezed cs) others =
      (findWord cs others).map fun (word, covers, rest) =>
        (word, squeezed covers, squeezed rest) := by
  induction others with
  | nil => rfl
  | cons entry others ih =>
    obtain ⟨text, word?⟩ := entry
    rw [findWord, findWord, spell_squeezed]
    cases spell text.toList cs with
    | none => exact ih
    | some split => cases word? <;> rfl

/-- A reserved word is found where it is spelled. -/
theorem spell_of_findWord {others : List (String × Option Keyword)} {word : Keyword}
    (h : findWord cs others = some (word, covers, rest)) :
    ∃ text, (text, some word) ∈ others ∧ spell text.toList cs = some (covers, rest) := by
  induction others with
  | nil => simp [findWord] at h
  | cons entry others ih =>
    obtain ⟨text, word?⟩ := entry
    rw [findWord] at h
    split at h
    next covers' rest' hs =>
      obtain ⟨word', rfl, he⟩ := Option.map_eq_some_iff.1 h
      cases he
      exact ⟨text, List.mem_cons_self, hs⟩
    next =>
      obtain ⟨text', hmem, htext⟩ := ih h
      exact ⟨text', List.mem_cons_of_mem _ hmem, htext⟩

/-- The letters that a reserved word covers are those of one of its spellings. -/
theorem exists_spelling_of_findWord {others : List (String × Option Keyword)} {word : Keyword}
    (h : findWord cs others = some (word, covers, rest)) :
    ∃ text, (text, some word) ∈ others ∧ squeezed covers = text.toList := by
  obtain ⟨text, hmem, hspell⟩ := spell_of_findWord h
  exact ⟨text, hmem, squeezed_of_spell hspell⟩

/-- `REM` is spelled in one way. -/
theorem squeezed_of_word?_rem (h : word? cs = some (.REM, covers, rest)) :
    squeezed covers = "REM".toList := by
  obtain ⟨text, hmem, htext⟩ := exists_spelling_of_findWord h
  have hrem : text = "REM" := by simpa [spellings] using hmem
  rw [htext, hrem]

/-- A number is squeezed by dropping its blanks. -/
theorem squeezed_of_digits (h : ∀ c ∈ cs, c.isDigit ∨ isBlank c) : squeezed cs = dropBlanks cs := by
  refine List.map_congr_left (fun c hc => ?_) |>.trans (List.map_id _)
  obtain ⟨hmem, hblank⟩ := List.mem_filter.1 hc
  have hdigit : c.isDigit := (h c hmem).resolve_right (by simpa using hblank)
  exact (toUpper_eq_or_isAlpha c).resolve_right fun halpha =>
    by simp [isDigit_of_isAlpha halpha] at hdigit

/-- Blanks that were dropped are not dropped again. -/
theorem dropBlanks_dropBlanks (cs : List Char) : dropBlanks (dropBlanks cs) = dropBlanks cs := by
  simp [dropBlanks]

@[simp] theorem dropBlanks_squeezed (cs : List Char) : dropBlanks (squeezed cs) = squeezed cs := by
  simp [dropBlanks, squeezed, List.filter_map, Function.comp_def, List.filter_filter]

/-- The digits of a number are the same whatever blanks stand between them. -/
theorem dropBlanks_readDigits_squeezed (cs : List Char) :
    dropBlanks (readDigits (squeezed cs)).1 = dropBlanks (readDigits cs).1 := by
  rw [readDigits_squeezed, dropBlanks_squeezed, squeezed_of_digits (readDigits_covers cs)]

/-! ### Squeezing a scan -/

/-- A character that is neither the quote of a string nor part of a relation of two characters. -/
def isLoose (c : Char) : Bool := c != '"' && c != '<' && c != '>'

/-- A loose character is an operator or a mark whatever follows it. -/
theorem symbol?_of_isLoose (hc : isLoose c) (cs ds : List Char) :
    (symbol? c cs = none ∧ symbol? c ds = none) ∨
      ∃ kind, symbol? c cs = some (⟨kind, [c]⟩, cs) ∧ symbol? c ds = some (⟨kind, [c]⟩, ds) := by
  simp only [isLoose, Bool.and_eq_true, bne_iff_ne] at hc
  unfold symbol?
  split <;> simp_all

/-- The first piece of a squeezed text is the first piece of the text, squeezed. -/
theorem first_squeezed (column column' : Nat) (hc : isBlank c = false) (hloose : isLoose c)
    (hrem : ¬ "REM".toList <:+: squeezed (c :: cs)) :
    (∃ p p' rest, first column c cs = .ok ([p], rest) ∧
      first column' c.toUpper (squeezed cs) = .ok ([p'], squeezed rest) ∧ p'.kind = p.kind ∧
        p'.covers = squeezed p.covers) ∨
    (c.toUpper = c ∧ first column c cs = .error ⟨.unexpectedCharacter c, .covering column 1⟩ ∧
      first column' c (squeezed cs) = .error ⟨.unexpectedCharacter c, .covering column' 1⟩) := by
  have hsingle : squeezed [c] = [c.toUpper] := squeezed_cons hc
  by_cases halpha : c.isAlpha
  · -- A letter begins the same word in both texts, or none in either.
    left
    obtain ⟨x, hx⟩ := Option.isSome_iff_exists.1 (isSome_ofChar? halpha)
    have halpha' : c.toUpper.isAlpha := by simpa using halpha
    have hword' := findWord_squeezed (c :: cs) spellings
    rw [squeezed_cons hc, ← word?, ← word?] at hword'
    cases hword : word? (c :: cs) with
    | none =>
      rw [hword] at hword'
      exact ⟨_, _, _, first_of_letter hx hword column,
        first_of_letter ((ofChar?_toUpper c).trans hx) hword' column', rfl, hsingle.symm⟩
    | some split =>
      obtain ⟨word, covers, rest⟩ := split
      -- A comment would be squeezed as well, which changes it.
      have hne : word ≠ .REM := by
        rintro rfl
        rw [← squeezed_of_word?_rem hword, ← (word?_append hword).1, squeezed_append] at hrem
        exact hrem (List.prefix_append _ _).isInfix
      rw [hword] at hword'
      exact ⟨_, _, _, first_of_word halpha hword hne column,
        first_of_word halpha' hword' hne column', rfl, rfl⟩
  · have hupper : c.toUpper = c := (toUpper_eq_or_isAlpha c).resolve_right halpha
    rw [hupper]
    rcases symbol?_of_isLoose hloose cs (squeezed cs) with ⟨hs, hs'⟩ | ⟨kind, hs, hs'⟩
    · by_cases hdigit : c.isDigit
      · left
        have hsplit := readDigits_squeezed (c :: cs)
        have hdigits := dropBlanks_readDigits_squeezed (c :: cs)
        have hfirst := first_of_isDigit hdigit column' (squeezed cs)
        rw [squeezed_cons hc, hupper] at hsplit hdigits
        rw [hdigits, hsplit] at hfirst
        exact ⟨_, _, _, first_of_isDigit hdigit column cs, hfirst, rfl, rfl⟩
      · right
        have hquote : c ≠ '"' := by
          rintro rfl
          cases hloose
        have hx : Letter.ofChar? c = none := by simp [Letter.ofChar?, halpha]
        have hdigit' : c.isDigit = false := by simpa using hdigit
        exact ⟨rfl, first_of_other hs hquote hdigit' hx column,
          first_of_other hs' hquote hdigit' hx column'⟩
    · exact .inl ⟨_, _, _, first_of_symbol hs column, first_of_symbol hs' column', rfl,
        by rw [hsingle, hupper]⟩

/-- Scanning a squeezed text gives the kinds that scanning the text gives, or stops at the same
    character. -/
theorem scanFrom_squeezed (line : Option Nat) (column column' : Nat) (hloose : ∀ c ∈ cs, isLoose c)
    (hrem : ¬ "REM".toList <:+: squeezed cs) :
    (∃ ts ts', scanFrom line column cs = .ok ts ∧ scanFrom line column' (squeezed cs) = .ok ts' ∧
      ts'.map Token.kind = ts.map Token.kind) ∨
    ∃ c before after, cs = before ++ c :: after ∧ isBlank c = false ∧ c.toUpper = c ∧
      scanFrom line column cs =
        .error ⟨.unexpectedCharacter c, .covering (column + before.length) 1⟩ ∧
      scanFrom line column' (squeezed cs) =
        .error ⟨.unexpectedCharacter c, .covering (column' + (squeezed before).length) 1⟩ := by
  fun_induction scanFrom line column cs generalizing column' with
  | case1 => exact .inl ⟨_, _, rfl, scanFrom_nil, rfl⟩
  | case2 column c cs hb ih =>
    rw [squeezed_of_isBlank hb] at hrem ⊢
    rcases ih column' (fun c hc => hloose c (List.mem_cons_of_mem _ hc)) hrem with
      h | ⟨d, before, after, rfl, hd, hupper, herr, herr'⟩
    · exact .inl h
    · refine .inr ⟨d, c :: before, after, rfl, hd, hupper, ?_, ?_⟩
      · rw [herr, List.length_cons, Nat.add_assoc, Nat.add_comm 1]
      · rw [herr', squeezed_of_isBlank hb]
  | case3 column c cs hb fault hfirst =>
    have hc : isBlank c = false := by simpa using hb
    rcases first_squeezed column column' hc (hloose c List.mem_cons_self) hrem with
      ⟨p, p', rest, hok, -⟩ | ⟨hupper, herr, herr'⟩
    · simp [hok] at hfirst
    · rw [hfirst] at herr
      cases herr
      refine .inr ⟨c, [], cs, rfl, hc, hupper, rfl, ?_⟩
      rw [squeezed_cons hc, hupper, scanFrom_of_error hc herr']
      rfl
  | case4 column c cs hb pieces rest hfirst ih =>
    have hc : isBlank c = false := by simpa using hb
    have hc' : isBlank c.toUpper = false := by simpa using hc
    obtain ⟨hcovers, -⟩ := first_covers hfirst
    rcases first_squeezed column column' hc (hloose c List.mem_cons_self) hrem with
      ⟨p, p', rest', hok, hok', hkind, hcovers'⟩ | ⟨-, herr, -⟩
    · rw [hfirst] at hok
      cases hok
      rw [covered_singleton] at hcovers
      have hloose' : ∀ c ∈ rest, isLoose c := fun c hmem =>
        hloose c (by rw [← hcovers]; exact List.mem_append_right _ hmem)
      have hrem' : ¬ "REM".toList <:+: squeezed rest := by
        rw [← hcovers, squeezed_append] at hrem
        exact fun hin => hrem (hin.trans (List.suffix_append _ _).isInfix)
      rw [squeezed_cons hc, scanFrom_of_first hc' hok', covered_singleton, covered_singleton]
      -- The columns differ between the two texts, which is why the induction leaves that of the
      -- squeezed one open.
      rcases ih (column' + p'.covers.length) hloose' hrem' with
        ⟨ts, ts', hts, hts', hkinds⟩ | ⟨d, before, after, rfl, hd, hupper, herr, herr'⟩
      · rw [covered_singleton] at hts
        exact .inl ⟨_, _, by rw [hts]; rfl, by rw [hts']; rfl, by simp [place, hkind, hkinds]⟩
      · rw [covered_singleton] at herr
        refine .inr ⟨d, p.covers ++ before, after, ?_, hd, hupper, ?_, ?_⟩
        · rw [← hcovers, List.append_assoc]
        · rw [herr, List.length_append, ← Nat.add_assoc]
          rfl
        · rw [herr', squeezed_append, List.length_append, ← hcovers', ← Nat.add_assoc]
          rfl
    · simp [herr] at hfirst

/-! ### Squeezing a line -/

/-- Without its line end, a text has the same characters that are not blank. -/
theorem squeezed_dropLineEnd (h : '\n' ∉ cs) : squeezed (dropLineEnd cs) = squeezed cs := by
  obtain ⟨lineEnd, hcs, hend⟩ := exists_dropLineEnd_append cs
  have hblank : ∀ c ∈ lineEnd, isBlank c := by
    intro c hc
    rcases hend c hc with rfl | rfl
    · exact absurd (by rw [← hcs]; exact List.mem_append_right _ hc) h
    · rfl
  conv_rhs => rw [← hcs, squeezed_append, squeezed_eq_nil hblank, List.append_nil]

/-- A squeezed text has no blanks. -/
theorem isBlank_of_mem_squeezed (h : c ∈ squeezed cs) : isBlank c = false := by
  obtain ⟨d, hd, rfl⟩ := List.mem_map.1 h
  simpa using (List.mem_filter.1 hd).2

/-- A newline is kept. -/
theorem newline_mem_squeezed (h : '\n' ∈ squeezed cs) : '\n' ∈ cs := by
  obtain ⟨d, hd, hupper⟩ := List.mem_map.1 h
  have hd' : d = '\n' := by
    rcases toUpper_eq_or_isAlpha d with heq | halpha
    · rw [← heq, hupper]
    · have halpha' : d.toUpper.isAlpha := by simpa using halpha
      rw [hupper] at halpha'
      cases halpha'
  exact hd' ▸ (List.mem_filter.1 hd).1

/-- The squeezed text of a line is the digits of its number and the squeezed rest. -/
theorem Fronted.squeezed {front : List Char} (h : Fronted cs front covers rest) (hn : '\n' ∉ cs) :
    Fronted (squeezed cs) [] (dropBlanks covers) (squeezed rest) := by
  have hdigits : Token.squeezed covers = dropBlanks covers := squeezed_of_digits fun c hc =>
    readDigits_covers (covers ++ rest) c (by rwa [h.split])
  have htext : Token.squeezed cs = dropBlanks covers ++ Token.squeezed rest := by
    rw [← squeezed_dropLineEnd hn, h.text, squeezed_append, squeezed_eq_nil h.front,
      squeezed_append, hdigits, List.nil_append]
  have hsplit := readDigits_squeezed (covers ++ rest)
  rw [h.split, squeezed_append, hdigits] at hsplit
  refine ⟨?_, by simp, fun c hc => ?_, hsplit⟩
  · rw [List.nil_append, ← htext]
    refine dropLineEnd_eq_self fun hne => ⟨?_, ?_⟩
    · exact fun heq => hn (newline_mem_squeezed (heq ▸ List.getLast_mem hne))
    · intro heq
      have hblank := isBlank_of_mem_squeezed (List.getLast_mem hne)
      rw [heq] at hblank
      cases hblank
  · rw [← htext] at hc
    exact isBlank_of_mem_squeezed (List.mem_of_head? hc)

/-- The report of a character that begins no token. -/
def unexpectedAt (line : Option Nat) (column : Nat) (c : Char) : Diagnostic :=
  (Fault.mk (.unexpectedCharacter c) (.covering column 1)).diagnostic.atLine line

/-- Scanning a squeezed line gives the kinds that scanning the line gives, or stops at the same
    character. -/
theorem scan_squeezed {text : String} (hplain : ∀ c ∈ text.toList, isLoose c ∧ c ≠ '\n')
    (hrem : ¬ "REM".toList <:+: squeezed text.toList) :
    (∃ ts ts', scan text = .ok ts ∧ scan (.ofList (squeezed text.toList)) = .ok ts' ∧
      ts'.map Token.kind = ts.map Token.kind) ∨
    ∃ line c before after, text.toList = before ++ c :: after ∧ isBlank c = false ∧ c.toUpper = c ∧
      scan text = .error (unexpectedAt line before.length c) ∧
      scan (.ofList (squeezed text.toList)) =
      .error (unexpectedAt line (squeezed before).length c) := by
  have hn : '\n' ∉ text.toList := fun hmem => (hplain _ hmem).2 rfl
  obtain ⟨front, covers, rest, hfront⟩ := exists_fronted text.toList
  have hfront' := (hfront.squeezed hn).ofList
  obtain ⟨lineEnd, htext, -⟩ := exists_dropLineEnd_append text.toList
  rw [hfront.text] at htext
  have hloose : ∀ c ∈ rest, isLoose c := fun c hc => (hplain c (by simp [← htext, hc])).1
  have hrem' : ¬ "REM".toList <:+: squeezed rest := by
    refine fun hin => hrem (hin.trans ⟨squeezed (front ++ covers), squeezed lineEnd, ?_⟩)
    rw [← squeezed_append, ← squeezed_append, ← htext, List.append_assoc front covers rest]
  have hdigits : squeezed covers = dropBlanks covers := squeezed_of_digits fun c hc =>
    readDigits_covers (covers ++ rest) c (by rwa [hfront.split])
  rcases scanFrom_squeezed (LineNumber.ofText? (dropBlanks covers)) (front.length + covers.length)
      (([] : List Char).length + (dropBlanks covers).length) hloose hrem' with
    ⟨ts, ts', hts, hts', hkinds⟩ | ⟨c, before, after, rfl, hc, hupper, herr, herr'⟩
  · have hscan' := hfront'.scan_of_ok (by rwa [dropBlanks_dropBlanks])
    rw [dropBlanks_dropBlanks] at hscan'
    exact .inl ⟨_, _, hfront.scan_of_ok hts, hscan', by simp [hkinds]⟩
  · have hscan := hfront.scan_of_error herr
    have hscan' := hfront'.scan_of_error (by rwa [dropBlanks_dropBlanks])
    rw [dropBlanks_dropBlanks] at hscan'
    refine .inr ⟨LineNumber.ofText? (dropBlanks covers), c, front ++ covers ++ before,
      after ++ lineEnd, ?_, hc, hupper, ?_, ?_⟩
    · simp [← htext]
    · rw [hscan, unexpectedAt, List.length_append, List.length_append]
    · rw [hscan', unexpectedAt, squeezed_append, squeezed_append,
        squeezed_eq_nil hfront.front, hdigits,
        List.length_append, List.nil_append, List.length_nil, Nat.zero_add]

/-- **Blanks and letter case.**  Two texts without strings, comments and newlines, and without the
characters of relations that two characters spell, may differ in their blanks and in the case of
their letters. Their tokens are then of the same kinds; or neither of them can be scanned, for the
same unexpected character, which stands behind the same text in both. -/
theorem scan_ignores_blanks {text text' : String}
    (hsame : squeezed text.toList = squeezed text'.toList)
    (hplain : ∀ c ∈ text.toList, isLoose c ∧ c ≠ '\n')
    (hplain' : ∀ c ∈ text'.toList, isLoose c ∧ c ≠ '\n')
    (hrem : ¬ "REM".toList <:+: squeezed text.toList) :
    (∃ ts ts', scan text = .ok ts ∧ scan text' = .ok ts' ∧ ts.map Token.kind = ts'.map Token.kind) ∨
    ∃ line c before after before' after', text.toList = before ++ c :: after ∧
      text'.toList = before' ++ c :: after' ∧ squeezed before = squeezed before' ∧
      scan text = .error (unexpectedAt line before.length c) ∧
      scan text' = .error (unexpectedAt line before'.length c) := by
  have hscan' := scan_squeezed hplain' (hsame ▸ hrem)
  rw [← hsame] at hscan'
  rcases scan_squeezed hplain hrem with
    ⟨ts, us, hts, hus, hkinds⟩ | ⟨line, c, before, after, htext, hc, hupper, herr, herrs⟩
  · rcases hscan' with ⟨ts', us', hts', hus', hkinds'⟩ | ⟨_, _, _, _, _, _, _, _, herrs'⟩
    · rw [hus] at hus'
      cases hus'
      exact .inl ⟨ts, ts', hts, hts', hkinds.symm.trans hkinds'⟩
    · simp [hus] at herrs'
  · rcases hscan' with ⟨_, _, _, hus', _⟩ |
      ⟨line', c', before', after', htext', hc', hupper', herr', herrs'⟩
    · simp [herrs] at hus'
    · -- The unexpected characters of both texts stand at the same place of the squeezed text.
      rw [herrs, Except.error.injEq] at herrs'
      have hline : line = line' := congrArg Diagnostic.line herrs'
      have hlength : (squeezed before).length = (squeezed before').length :=
        congrArg (·.column.start) herrs'
      rw [htext, htext', squeezed_append, squeezed_append, squeezed_cons hc,
        squeezed_cons hc', hupper, hupper'] at hsame
      obtain ⟨hbefore, hafter⟩ := List.append_inj hsame hlength
      obtain ⟨rfl, -⟩ := List.cons_eq_cons.1 hafter
      exact .inr ⟨line, c, before, after, before', after', htext, htext', hbefore, herr,
        hline ▸ herr'⟩

/-- A reserved word with blanks inside it and one without are the same word; a character that no
token begins with is found behind the same text. -/
theorem scan_ignores_blanks_print :
    (∃ ts ts', scan " 1 0 pr iN t p" = .ok ts ∧ scan "10PRINTP" = .ok ts' ∧
      ts.map Token.kind = ts'.map Token.kind) ∧
    ∃ line c before after before' after', "10 x = 1 % 2".toList = before ++ c :: after ∧
      "10X=1%2".toList = before' ++ c :: after' ∧ squeezed before = squeezed before' ∧
      scan "10 x = 1 % 2" = .error (unexpectedAt line before.length c) ∧
      scan "10X=1%2" = .error (unexpectedAt line before'.length c) := by
  have hprint : (scan "10PRINTP").isOk = true := by decide +kernel
  have hpercent : (scan "10X=1%2").isOk = false := by decide +kernel
  refine ⟨(scan_ignores_blanks (by decide +kernel) (by simp [isLoose]) (by simp [isLoose])
      (by decide +kernel)).resolve_right ?_,
    (scan_ignores_blanks (by decide +kernel) (by simp [isLoose]) (by simp [isLoose])
      (by decide +kernel)).resolve_left ?_⟩
  · rintro ⟨line, c, before, after, before', after', -, -, -, -, herr⟩
    rw [herr] at hprint
    cases hprint
  · rintro ⟨ts, ts', -, hok, -⟩
    rw [hok] at hpercent
    cases hpercent

end LineBasic.Token
