import LineBasic.Proofs.Token.Stretch

namespace LineBasic.Token

/-!
# Variables before a statement

What a statement begins with, and whether a variable that stands before it is still scanned as one:
the letters of both may be those of a reserved word, whatever blanks stand between them.

* `Opening` -- rows that begin as a statement does;
* `runsInto` -- the variables and the kinds behind them that are scanned as `IF` or `PR` when they
  meet;
* `squeezed_of_word`, `squeezed_of_assignment` -- the letters that an opening was scanned from;
* `agree_word`, `agree_letter` -- the reserved words that these letters can belong to behind a
  variable;
* `word?_of_opening`, `word?_of_runsInto` -- which variables stay variables before an opening, and
  which do not.
-/

variable {c : Char} {cs covers rest v : List Char} {t : Token} {ts us : List Token}
  {line : Option Nat} {column : Nat} {x : Letter} {w : Keyword}

/-! ### Rows that begin a statement -/

/-- A row that begins with a reserved word that begins a statement, or with an assignment. -/
inductive Opening : List Token → Prop where
  | word {t : Token} {ts : List Token} {w : Keyword} (ht : t.kind = .word w)
      (hw : w ∉ [.RND, .THEN, .USR]) :
      Opening (t :: ts)
  | letter {t q : Token} {ts : List Token} {y : Letter} (ht : t.kind = .letter y)
      (hq : q.kind = .operator (.relation .equal)) : Opening (t :: q :: ts)

/-- An opening is told by the front of a row. -/
theorem Opening.append_right (h : Opening us) (ts : List Token) : Opening (us ++ ts) := by
  cases h with
  | word ht hw => exact .word ht hw
  | letter ht hq => exact .letter ht hq

/-- Whether a variable and what stands next behind it are scanned as a reserved word: `IF` or
    `PR`. -/
def runsInto : Kind → Kind → Bool
  | .letter x, .letter y => x.char = 'I' && y.char = 'F' || x.char = 'P' && y.char = 'R'
  | .letter x, .word w => x.char = 'P' && (w = .RUN || w = .REM)
  | _, _ => false

/-! ### What single tokens tell of a text -/

/-- Where a reserved word is scanned, it is found. -/
theorem word?_of_scanFrom (hc : isBlank c = false) (ht : t.kind = .word w)
    (h : scanFrom line column (c :: cs) = .ok (t :: ts)) :
    ∃ covers rest, word? (c :: cs) = some (w, covers, rest) ∧ t.column = column ∧
      t.lexeme = .ofList (dropBlanks covers) ∧
      (w ≠ .REM → scanFrom line (column + covers.length) rest = .ok ts) := by
  obtain ⟨p, pieces, rest, hsplit, rfl, hscan⟩ := splitsOff_of_scanFrom hc h
  cases hsplit with
  | symbol hsymbol =>
    have hp := (symbol?_display hsymbol).1
    rw [show p.kind = .word w from ht] at hp
    cases hp
  | word _ hword =>
    cases ht
    exact ⟨_, _, hword, rfl, rfl, fun _ => hscan rfl⟩
  | rem _ hword =>
    cases ht
    exact ⟨_, _, hword, rfl, rfl, fun hne => absurd rfl hne⟩
  | string | number | letter => cases ht

/-- Where a variable is scanned, no reserved word is found. -/
theorem letter_of_scanFrom (hc : isBlank c = false) (ht : t.kind = .letter x)
    (h : scanFrom line column (c :: cs) = .ok (t :: ts)) :
    Letter.ofChar? c = some x ∧ word? (c :: cs) = none ∧
      t = ⟨.letter x, (Piece.mk (.letter x) [c]).lexeme, line, column⟩ ∧
      scanFrom line (column + 1) cs = .ok ts := by
  obtain ⟨p, pieces, rest, hsplit, rfl, hscan⟩ := splitsOff_of_scanFrom hc h
  cases hsplit with
  | symbol hsymbol =>
    have hp := (symbol?_display hsymbol).1
    rw [show p.kind = .letter x from ht] at hp
    cases hp
  | letter hx hword =>
    cases ht
    exact ⟨hx, hword, rfl, hscan rfl⟩
  | string | number | word | rem => cases ht

/-- Where an equals sign is scanned, one stands. -/
theorem eq_of_scanFrom (hc : isBlank c = false) (ht : t.kind = .operator (.relation .equal))
    (h : scanFrom line column (c :: cs) = .ok (t :: ts)) : c = '=' := by
  obtain ⟨p, pieces, rest, hsplit, rfl, -⟩ := splitsOff_of_scanFrom hc h
  cases hsplit with
  | symbol hsymbol =>
    unfold symbol? at hsymbol
    split at hsymbol <;> cases hsymbol <;> first | rfl | cases ht
  | string | number | word | rem | letter => cases ht

/-! ### The letters of an opening -/

/-- Blanks in front of a character leave nothing in the squeezed text. -/
theorem squeezed_of_front {front : List Char} (hfront : ∀ d ∈ front, isBlank d)
    (hc : isBlank c = false) :
    squeezed (front ++ c :: cs) = c.toUpper :: squeezed cs := by
  rw [squeezed_append, squeezed_eq_nil hfront, List.nil_append, squeezed_cons hc]

/-- What is scanned with a reserved word in front begins with the letters of the word. -/
theorem squeezed_of_word (ht : t.kind = .word w) (h : scanFrom line column v = .ok (t :: ts)) :
    ∃ text more, (text, some w) ∈ spellings ∧ squeezed v = text.toList ++ more := by
  obtain ⟨front, c, rest, rfl, hfront, hc, hscan⟩ := exists_front (by simp [ht]) h
  obtain ⟨covers, rest', hword, -⟩ := word?_of_scanFrom hc ht hscan
  obtain ⟨text, hmem, htext⟩ := exists_spelling_of_findWord hword
  refine ⟨text, squeezed rest', hmem, ?_⟩
  rw [squeezed_append, squeezed_eq_nil hfront, List.nil_append, ← (word?_append hword).1,
    squeezed_append, htext]

/-- What is scanned with an assignment in front begins with its variable and an equals sign. -/
theorem squeezed_of_assignment {q : Token} (ht : t.kind = .letter x)
    (hq : q.kind = .operator (.relation .equal)) (h : scanFrom line column v = .ok (t :: q :: ts)) :
    ∃ more, squeezed v = x.char :: '=' :: more := by
  obtain ⟨front, c, rest, rfl, hfront, hc, hscan⟩ := exists_front (by simp [ht]) h
  obtain ⟨hx, -, -, hmore⟩ := letter_of_scanFrom hc ht hscan
  obtain ⟨front', d, rest', rfl, hfront', hd, hscan'⟩ := exists_front (by simp [hq]) hmore
  obtain rfl := eq_of_scanFrom hd hq hscan'
  exact ⟨squeezed rest',
    by rw [squeezed_of_front hfront hc, squeezed_of_front hfront' hd, ofChar?_eq_some hx]; rfl⟩

/-- An opening begins with a letter. -/
theorem Opening.beginsWithLetter (hopen : Opening ts) (h : scanFrom line column v = .ok ts) :
    BeginsWithLetter v := by
  cases hopen with
  | word ht =>
    obtain ⟨text, more, hmem, hv⟩ := squeezed_of_word ht h
    obtain ⟨c, tail, htext, halpha, -⟩ := tail_of_mem_spellings _ hmem
    rw [BeginsWithLetter, hv, htext]
    rintro _ ⟨⟩
    exact halpha c (by simp [htext])
  | letter ht hq =>
    obtain ⟨more, hv⟩ := squeezed_of_assignment ht hq h
    rw [BeginsWithLetter, hv]
    rintro _ ⟨⟩
    exact isAlpha_char _

/-- An opening is scanned from a text that is not empty. -/
theorem Opening.ne_nil (hopen : Opening ts) (h : scanFrom line column v = .ok ts) : v ≠ [] := by
  rintro rfl
  rw [scanFrom_nil] at h
  cases h
  cases hopen with
  | word ht => cases ht

/-- A text begins with a letter also behind blanks. -/
theorem BeginsWithLetter.of_blanks {bs : List Char} (hbs : ∀ d ∈ bs, isBlank d)
    (h : BeginsWithLetter cs) :
    BeginsWithLetter (bs ++ cs) := by
  rwa [BeginsWithLetter, squeezed_append, squeezed_eq_nil hbs, List.nil_append]

/-- A text with a variable in front begins with a letter. -/
theorem beginsWithLetter_cons (hx : Letter.ofChar? c = some x) (cs : List Char) :
    BeginsWithLetter (c :: cs) := by
  have hc := isAlpha_of_ofChar? hx
  rw [BeginsWithLetter, squeezed_cons (isBlank_of_isAlpha hc)]
  rintro _ ⟨⟩
  simpa using hc

/-! ### Variables in front of an opening -/

/-- Two rows of letters of which one begins with the other. -/
def Agree (u v : List Char) : Prop := u <+: v ∨ v <+: u

instance (u v : List Char) : Decidable (Agree u v) := inferInstanceAs (Decidable (_ ∨ _))

/-- Two fronts of one text agree. -/
theorem agree_of_isPrefix {u v more : List Char} (h : u <+: v ++ more) : Agree u v :=
  List.prefix_or_prefix_of_prefix h (List.prefix_append v more)

/-- The spelling of a reserved word that agrees with some letters begins with the first of them. -/
theorem Agree.head?_spelling {entry : String × Option Keyword} {v : List Char}
    (hentry : entry ∈ spellings) (h : Agree entry.1.toList (c :: v)) :
    entry.1.toList.head? = some c := by
  obtain ⟨d, tail, htext, -⟩ := tail_of_mem_spellings entry hentry
  rw [htext] at h ⊢
  rcases h with h | h <;> rw [(List.cons_prefix_cons.1 h).1] <;> rfl

/-- The reserved words that a variable can begin with the letters of a word that begins a
    statement. -/
theorem agree_word :
    ∀ entry ∈ spellings, ∀ i : Fin 26, entry.1.toList.head? = some (Letter.mk i).char →
    ∀ entry' ∈ spellings, ∀ w ∈ entry'.2, w ∉ [.RND, .THEN, .USR] →
      Agree entry.1.toList ((Letter.mk i).char :: entry'.1.toList) →
        (Letter.mk i).char = 'P' ∧ w ∈ [Keyword.REM, .RETURN, .RUN] := by
  decide +kernel

/-- The reserved words that a variable can begin with the variable of an assignment. -/
theorem agree_letter :
    ∀ entry ∈ spellings, ∀ i : Fin 26, entry.1.toList.head? = some (Letter.mk i).char →
    ∀ j : Fin 26, Agree entry.1.toList [(Letter.mk i).char, (Letter.mk j).char, '='] →
      runsInto (.letter ⟨i⟩) (.letter ⟨j⟩) := by
  decide +kernel

/-- A letter begins no reserved word if none agrees with what it begins. -/
theorem word?_eq_none_of_agree (text : List Char) {more : List Char}
    (hcs : squeezed cs = text ++ more) (h : ∀ entry ∈ spellings, ¬ Agree entry.1.toList text) :
    word? cs = none := by
  refine findWord_eq_none fun entry hentry => Option.not_isSome_iff_eq_none.1 fun hspell =>
    h entry hentry ?_
  obtain ⟨w, tail, -, halpha, -⟩ := tail_of_mem_spellings entry hentry
  rw [isSome_spell_iff _ _ halpha, hcs] at hspell
  exact agree_of_isPrefix hspell

/-- `P` in front of `RETURN` is a variable. -/
theorem word?_preturn {more : List Char} (hcs : squeezed cs = 'P' :: ("RETURN".toList ++ more)) :
    word? cs = none := by
  have hword := findWord_squeezed cs spellings
  rw [← word?, ← word?, hcs] at hword
  have hnone : word? ('P' :: ("RETURN".toList ++ more)) = none := by
    simp [word?, findWord, spellings, spell, isBlank]
  exact Option.map_eq_none_iff.1 (hword.symm.trans hnone)

/-- The letters that a variable is looked for a reserved word in, before a text and any blanks. -/
theorem squeezed_of_variable {gap : List Char} (hx : Letter.ofChar? c = some x)
    (hgap : ∀ d ∈ gap, isBlank d) :
    squeezed (c :: (gap ++ v)) = x.char :: squeezed v := by
  rw [squeezed_cons (isBlank_of_isAlpha (isAlpha_of_ofChar? hx)), squeezed_append,
    squeezed_eq_nil hgap, ofChar?_eq_some hx, List.nil_append]

/-- **Variables before an opening.**  A variable stays one before what begins a statement, unless it
    runs into it. -/
theorem word?_of_opening {gap : List Char} (hx : Letter.ofChar? c = some x)
    (hgap : ∀ d ∈ gap, isBlank d) (hopen : Opening (t :: ts))
    (h : scanFrom line column v = .ok (t :: ts)) (hapart : runsInto (.letter x) t.kind = false) :
    word? (c :: (gap ++ v)) = none := by
  have hsqueezed := squeezed_of_variable (v := v) hx hgap
  cases hopen with
  | @word _ _ w ht hw =>
    obtain ⟨text, more, hmem, hv⟩ := squeezed_of_word ht h
    rw [hv] at hsqueezed
    rw [ht] at hapart
    -- `P` and `RETURN` begin the letters of `PR`, but `PRETURN` stands before it in the table of
    -- words.
    by_cases hreturn : x.char = 'P' ∧ w = .RETURN
    · obtain ⟨hp, rfl⟩ := hreturn
      obtain rfl : text = "RETURN" := by simpa [spellings] using hmem
      exact word?_preturn (hp ▸ hsqueezed)
    · refine word?_eq_none_of_agree (x.char :: text.toList) hsqueezed fun entry hentry hagree => ?_
      obtain ⟨hp, hw'⟩ :=
        agree_word entry hentry x.index (hagree.head?_spelling hentry) _ hmem w rfl hw hagree
      have hp : x.char = 'P' := hp
      simp only [List.mem_cons, List.not_mem_nil, or_false] at hw'
      simp only [runsInto, hp] at hapart
      rcases hw' with rfl | rfl | rfl
      · cases hapart
      · exact hreturn ⟨hp, rfl⟩
      · cases hapart
  | @letter _ q _ y ht hq =>
    obtain ⟨more, hv⟩ := squeezed_of_assignment ht hq h
    rw [hv] at hsqueezed
    refine word?_eq_none_of_agree [x.char, y.char, '='] hsqueezed fun entry hentry hagree => ?_
    have hruns : runsInto (.letter x) (.letter y) :=
      agree_letter entry hentry x.index (hagree.head?_spelling hentry) y.index hagree
    rw [← ht, hapart] at hruns
    cases hruns

/-- A variable that runs into what begins a statement is scanned as a word that begins no value. -/
theorem word?_of_runsInto {gap : List Char} (hx : Letter.ofChar? c = some x)
    (hgap : ∀ d ∈ gap, isBlank d) (hopen : Opening (t :: ts))
    (h : scanFrom line column v = .ok (t :: ts)) (hruns : runsInto (.letter x) t.kind) :
    ∃ w covers rest, word? (c :: (gap ++ v)) = some (w, covers, rest) ∧
      w ∈ [Keyword.IF, .PRINT] := by
  have hsqueezed := squeezed_of_variable (v := v) hx hgap
  obtain ⟨w, us, vs, hfound, hw⟩ : ∃ w us vs, word? (x.char :: squeezed v) = some (w, us, vs) ∧
      w ∈ [Keyword.IF, .PRINT] := by
    cases hopen with
    | word ht =>
      obtain ⟨text, more, hmem, hv⟩ := squeezed_of_word ht h
      simp only [ht, runsInto, Bool.and_eq_true, Bool.or_eq_true, decide_eq_true_eq] at hruns
      obtain ⟨hp, rfl | rfl⟩ := hruns
      · obtain rfl : text = "RUN" := by simpa [spellings] using hmem
        simp [hv, hp, word?, findWord, spellings, spell, isBlank]
      · obtain rfl : text = "REM" := by simpa [spellings] using hmem
        simp [hv, hp, word?, findWord, spellings, spell, isBlank]
    | letter ht hq =>
      obtain ⟨more, hv⟩ := squeezed_of_assignment ht hq h
      simp only [ht, runsInto, Bool.and_eq_true, Bool.or_eq_true, decide_eq_true_eq] at hruns
      rcases hruns with ⟨hi, hf⟩ | ⟨hp, hr⟩
      · simp [hv, hi, hf, word?, findWord, spellings, spell, isBlank]
      · simp [hv, hp, hr, word?, findWord, spellings, spell, isBlank]
  -- Blanks and case do not matter to words, so what was found in the squeezed text is in the text.
  have hword := findWord_squeezed (c :: (gap ++ v)) spellings
  rw [← word?, ← word?, hsqueezed, hfound] at hword
  obtain ⟨⟨w', covers, rest⟩, hfound', heq⟩ := Option.map_eq_some_iff.1 hword.symm
  cases heq
  exact ⟨w, covers, rest, hfound', hw⟩

end LineBasic.Token
