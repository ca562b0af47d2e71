import LineBasic.Proofs.Token.First
import LineBasic.Text.Space

namespace LineBasic

/-!
# Typed tokens

From the kinds of a row of tokens to a text, and back by scanning.  The scanner looks over blanks in
search of more digits or of the letters of a word, so blanks do not keep tokens apart; the
characters that follow do.

* `Kind.isTypable`, `Kind.stopsAt` -- the kinds whose display is read as one token, and the
  characters that it is not carried on with;
* `Typed` -- the texts of some kinds, with any blanks before each of them;
* `Legible` -- rows of kinds in which no token runs on into the next;
* `word?_name`, `word?_eq_none` -- a reserved word is found where it stands, and none at a variable;
* `first_of_isTypable` -- a token that is not carried on is the first piece of its text;
* `scanFrom_of_typed` -- the main result.
-/

open Token

variable {k : Kind} {ks : List Kind} {c : Char} {cs rest : List Char}

/-! ### Kinds and their texts -/

/-- The letters that come second in the spelling of a word. -/
def Token.secondLetters : List Char := ['L', 'N', 'O', 'F', 'I', 'E', 'R', 'U', 'H', 'S']

/-- Whether the display of a kind is a token by itself. -/
def Kind.isTypable : Kind → Bool
  | .number digits => digits.toList ≠ [] && digits.toList.all Char.isDigit
  | .string text => '"' ∉ text.toList
  | .word w => w ≠ .REM
  | .lineNumber _ | .comment _ | .endOfLine => false
  | _ => true

/-- Whether a token of a kind ends before a character, even if there are blanks before that. -/
def Kind.stopsAt : Kind → Char → Bool
  | .letter _, c => c.toUpper ∉ secondLetters
  | .number _, c => !c.isDigit
  | .operator (.relation _), c => c ∉ ['=', '<', '>']
  | _, _ => true

/-- The texts of a row of kinds. Any blanks may stand before each of them, but a comment stands
    directly behind its `REM`. -/
inductive Typed : List Kind → List Char → Prop where
  | nil : Typed [] []
  | remark (comment : String) : Typed [.word .REM, .comment comment]
      ("REM".toList ++ comment.toList)
  | blank {c : Char} {ks : List Kind} {cs : List Char} (hc : isBlank c) (hne : ks ≠ [])
      (h : Typed ks cs) :
      Typed ks (c :: cs)
  | cons {k : Kind} {ks : List Kind} {cs : List Char} (hk : k ≠ .word .REM) (h : Typed ks cs) :
      Typed (k :: ks) (k.display.toList ++ cs)

/-- A row of kinds that can be told apart: each ends before the text of the next begins, and a
    comment does not end with space. -/
inductive Legible : List Kind → Prop where
  | nil : Legible []
  | remark {comment : String} (hlast : ∀ c ∈ comment.toList.getLast?, Text.isSpace c = false) :
      Legible [.word .REM, .comment comment]
  | cons {k : Kind} {ks : List Kind} (hk : k.isTypable)
      (hnext : ∀ k' ∈ ks.head?, ∀ c ∈ k'.display.toList.head?, k.stopsAt c) (h : Legible ks) :
      Legible (k :: ks)

/-- A token that is complete whatever follows it can be put before others. -/
theorem Legible.closed (hk : k.isTypable) (hstop : ∀ c, k.stopsAt c) (hks : Legible ks) :
    Legible (k :: ks) :=
  .cons hk (fun _ _ c _ => hstop c) hks

/-- Each token but `REM` is a token by itself and ends before the next. -/
theorem Legible.of_cons (h : Legible (k :: ks)) (hne : k ≠ .word .REM) :
    k.isTypable ∧ (∀ k' ∈ ks.head?, ∀ c ∈ k'.display.toList.head?, k.stopsAt c) ∧ Legible ks := by
  cases h with
  | remark => exact absurd rfl hne
  | cons hk hnext hks => exact ⟨hk, hnext, hks⟩

/-! ### What stops a token -/

/-- No number is read where no digit stands behind the blanks. -/
theorem readDigits_eq_nil (h : ∀ c ∈ (cs.dropWhile isBlank).head?, c.isDigit = false) :
    readDigits cs = ([], cs) := by
  induction cs with
  | nil => rfl
  | cons c cs ih =>
    by_cases hc : isBlank c
    · rw [List.dropWhile_cons_of_pos hc] at h
      have hdigit : c.isDigit = false :=
        Bool.eq_false_iff.2 fun hdigit => by simp [isBlank_of_isDigit hdigit] at hc
      simp [readDigits, hdigit, hc, ih h]
    · rw [List.dropWhile_cons_of_neg hc] at h
      simp [readDigits, h c rfl, hc]

/-- Digits are a number up to where no digit follows. -/
theorem readDigits_digits {digits : List Char} (hdigits : ∀ c ∈ digits, c.isDigit)
    (h : ∀ c ∈ (cs.dropWhile isBlank).head?, c.isDigit = false) :
    readDigits (digits ++ cs) = (digits, cs) := by
  induction digits with
  | nil => exact readDigits_eq_nil h
  | cons c digits ih =>
    obtain ⟨hc, hdigits⟩ := List.forall_mem_cons.1 hdigits
    simp [readDigits, hc, ih hdigits]

/-- Digits have no blanks to drop. -/
theorem dropBlanks_digits {digits : List Char} (hdigits : ∀ c ∈ digits, c.isDigit) :
    dropBlanks digits = digits :=
  List.filter_eq_self.2 fun c hc => by simp [isBlank_of_isDigit (hdigits c hc)]

/-- A text without a quote is a string up to the quote behind it. -/
theorem readString_append_quote {text : List Char} (htext : '"' ∉ text) (cs : List Char) :
    readString (text ++ '"' :: cs) = some (text, cs) := by
  have hloose : ∀ c ∈ text, (c != '"') = true := by
    intro c hc
    rw [bne_iff_ne]
    rintro rfl
    exact htext hc
  rw [readString, List.dropWhile_append_of_pos hloose, List.takeWhile_append_of_pos hloose]
  simp

/-- No spelling goes on where another letter follows. -/
theorem spell_eq_none {w : Char} {word : List Char}
    (h : ∀ c ∈ (cs.dropWhile isBlank).head?, c.toUpper ≠ w) : spell (w :: word) cs = none := by
  induction cs with
  | nil => rfl
  | cons c cs ih =>
    by_cases hc : isBlank c
    · rw [List.dropWhile_cons_of_pos hc] at h
      rw [spell, if_pos hc, ih h]
      rfl
    · rw [List.dropWhile_cons_of_neg hc] at h
      rw [spell, if_neg hc, if_neg (by simpa using h c rfl)]

/-- No word is found in a text that spells none of a table. -/
theorem findWord_eq_none {others : List (String × Option Keyword)}
    (h : ∀ entry ∈ others, spell entry.1.toList cs = none) : findWord cs others = none := by
  induction others with
  | nil => rfl
  | cons entry others ih =>
    obtain ⟨hentry, hothers⟩ := List.forall_mem_cons.1 h
    rw [findWord, hentry]
    exact ih hothers

/-- A letter begins no word if no second letter of one follows. -/
theorem word?_eq_none (hc : isBlank c = false)
    (h : ∀ d ∈ (cs.dropWhile isBlank).head?, d.toUpper ∉ secondLetters) :
    word? (c :: cs) = none := by
  refine findWord_eq_none fun entry hentry => ?_
  have hsecond : ∃ v w word, entry.1.toList = v :: w :: word ∧ w ∈ secondLetters := by
    simp only [spellings, List.mem_cons, List.not_mem_nil, or_false] at hentry
    rcases hentry with rfl | rfl | rfl | rfl | rfl | rfl | rfl | rfl | rfl | rfl | rfl | rfl | rfl |
      rfl | rfl | rfl | rfl <;> exact ⟨_, _, _, rfl, by decide⟩
  obtain ⟨v, w, word, htext, hw⟩ := hsecond
  have hrest : spell (w :: word) cs = none := spell_eq_none fun d hd heq => h d hd (heq ▸ hw)
  rw [htext, spell, if_neg (by simp [hc]), hrest]
  simp

/-- A reserved word is found where it is spelled, whatever follows. -/
theorem word?_name (w : Keyword) (cs : List Char) :
    word? (w.name.toList ++ cs) = some (w, w.name.toList, cs) := by
  cases w <;> simp [Keyword.name, word?, findWord, spellings, spell, isBlank]

/-- The name of a reserved word begins with a letter. -/
theorem isAlpha_of_head?_name (w : Keyword) : ∀ c ∈ w.name.toList.head?, c.isAlpha := by
  cases w <;> simp [Keyword.name]

/-! ### One token -/

variable {ds : List Char}

/-- The display of a kind is not empty and does not begin with a blank. -/
theorem Kind.exists_display (hk : k.isTypable) :
    ∃ c ds, k.display.toList = c :: ds ∧ isBlank c = false := by
  cases k with
  | number digits =>
    simp only [isTypable, Bool.and_eq_true, decide_eq_true_eq, List.all_eq_true] at hk
    obtain ⟨c, ds, hdigits⟩ := List.exists_cons_of_ne_nil hk.1
    exact ⟨c, ds, hdigits, isBlank_of_isDigit (hk.2 c (by simp [hdigits]))⟩
  | letter x =>
    exact ⟨x.char, [], by simp [display, Letter.name], isBlank_of_isAlpha (isAlpha_char x)⟩
  | string text => exact ⟨'"', text.toList ++ ['"'], by simp [display], rfl⟩
  | word w => cases w <;> exact ⟨_, _, rfl, rfl⟩
  | operator op =>
    cases op with
    | relation r => cases r <;> exact ⟨_, _, rfl, rfl⟩
    | times | divide | plus | minus => exact ⟨_, _, rfl, rfl⟩
  | leftParen | rightParen | comma | semicolon | colon => exact ⟨_, _, rfl, rfl⟩
  | lineNumber | comment | endOfLine => cases hk

/-- Letters and digits are no space. -/
theorem isSpace_of_isAlphanum (hc : c.isAlphanum) : Text.isSpace c = false := by
  simp only [Char.isAlphanum, Char.isAlpha, Char.isUpper, Char.isLower, Char.isDigit,
    Bool.or_eq_true,
    Bool.and_eq_true, decide_eq_true_eq, UInt32.le_iff_toNat_le, ge_iff_le, Char.toNat_val,
    Char.reduceToNat] at hc
  simp only [Text.isSpace, Bool.or_eq_false_iff, Bool.and_eq_false_iff, decide_eq_false_iff_not,
    beq_eq_false_iff_ne]
  omega

/-- The display of a kind does not end with space. -/
theorem Kind.getLast?_display (hk : k.isTypable) :
    ∀ c ∈ k.display.toList.getLast?, Text.isSpace c = false := by
  cases k with
  | number digits =>
    simp only [isTypable, Bool.and_eq_true, List.all_eq_true] at hk
    intro c hc
    exact isSpace_of_isAlphanum (by simp [Char.isAlphanum, hk.2 c (List.mem_of_getLast? hc)])
  | letter x =>
    simpa [display, Letter.name] using isSpace_of_isAlphanum
      (by simp [Char.isAlphanum, isAlpha_char x])
  | string text =>
    intro c hc
    obtain rfl : '"' = c := by simpa [display, List.getLast?_cons] using hc
    rfl
  | word w => cases w <;> simp [display, Keyword.name, Text.isSpace]
  | operator op =>
    cases op with
    | relation r => cases r <;> simp [display, Operator.name, Relation.name, Text.isSpace]
    | times | divide | plus | minus => simp [display, Operator.name, Text.isSpace]
  | leftParen | rightParen | comma | semicolon | colon => simp [display, Text.isSpace]
  | lineNumber | comment | endOfLine => cases hk

/-- A relation is read up to where no other character of a relation stands next to it. -/
theorem symbol?_relation {r : Relation} (hname : r.name.toList = c :: ds)
    (h : ∀ d ∈ cs.head?, d ∉ ['=', '<', '>']) :
    symbol? c (ds ++ cs) = some (⟨.operator (.relation r), c :: ds⟩, cs) := by
  cases r with
  | equal | notEqual | lessEqual | greaterEqual =>
    simp only [Relation.name, String.reduceToList, List.cons.injEq] at hname
    obtain ⟨rfl, rfl⟩ := hname
    rfl
  | less | greater =>
    simp only [Relation.name, String.reduceToList, List.cons.injEq] at hname
    obtain ⟨rfl, rfl⟩ := hname
    cases cs with
    | nil => rfl
    | cons d cs =>
      have hd : d ∉ ['=', '<', '>'] := h d rfl
      simp only [List.mem_cons, List.not_mem_nil, or_false, not_or] at hd
      simp [symbol?, hd]

/-- An operator is read whole; only a relation needs that no character of another follows. -/
theorem symbol?_operator {op : Operator} (hname : op.name.toList = c :: ds)
    (h : ∀ r, op = .relation r → ∀ d ∈ cs.head?, d ∉ ['=', '<', '>']) :
    symbol? c (ds ++ cs) = some (⟨.operator op, c :: ds⟩, cs) := by
  cases op with
  | relation r => exact symbol?_relation hname (h r rfl)
  | times | divide | plus | minus =>
    simp only [Operator.name, String.reduceToList, List.cons.injEq] at hname
    obtain ⟨rfl, rfl⟩ := hname
    rfl

/-- A character that is no blank stands first behind the blanks if it stands first. -/
theorem mem_head?_dropWhile (hc : isBlank c = false) (h : c ∈ cs.head?) :
    c ∈ (cs.dropWhile isBlank).head? := by
  cases cs with
  | nil => cases h
  | cons d cs =>
    cases h
    rw [List.dropWhile_cons_of_neg (by simp [hc])]
    rfl

/-- No character of a relation is a blank. -/
theorem isBlank_of_mem_relation (hc : c ∈ ['=', '<', '>']) : isBlank c = false := by
  simp only [List.mem_cons, List.not_mem_nil, or_false] at hc
  rcases hc with rfl | rfl | rfl <;> rfl

/-- What the text of a kind that stops before the rest of the line begins with is one piece of that
    kind. -/
theorem first_of_isTypable (hk : k.isTypable) (hdisplay : k.display.toList = c :: ds)
    (h : ∀ d ∈ (cs.dropWhile isBlank).head?, k.stopsAt d) (column : Nat) :
    first column c (ds ++ cs) = .ok ([⟨k, c :: ds⟩], cs) := by
  -- Each kind is told from its first character; what stops it is the character behind it.
  cases k with
  | number digits =>
    simp only [Kind.isTypable, Bool.and_eq_true, decide_eq_true_eq, List.all_eq_true] at hk
    simp only [Kind.stopsAt, Bool.not_eq_true'] at h
    have hdigits : digits.toList = c :: ds := hdisplay
    have hsplit : readDigits (c :: (ds ++ cs)) = (c :: ds, cs) := by
      rw [← List.cons_append, ← hdigits]
      exact readDigits_digits hk.2 h
    have hblanks : dropBlanks (c :: ds) = c :: ds := dropBlanks_digits (hdigits ▸ hk.2)
    rw [first_of_isDigit (hk.2 c (by simp [hdigits])), hsplit, hblanks, ← hdigits,
      String.ofList_toList]
  | string text =>
    obtain ⟨rfl, rfl⟩ : '"' = c ∧ text.toList ++ ['"'] = ds := by
      simpa [Kind.display, eq_comm] using hdisplay
    have hread : readString (text.toList ++ '"' :: cs) = some (text.toList, cs) :=
      readString_append_quote (by simpa [Kind.isTypable] using hk) cs
    simp [first, symbol?, hread]
  | letter x =>
    obtain ⟨rfl, rfl⟩ : x.char = c ∧ ds = [] := by simpa [Kind.display, Letter.name] using hdisplay
    have hblank : isBlank x.char = false := isBlank_of_isAlpha (isAlpha_char x)
    have hword : word? (x.char :: cs) = none :=
      word?_eq_none hblank (by simpa [Kind.stopsAt] using h)
    exact first_of_letter x.ofChar?_char hword column
  | word w =>
    have hname : w.name.toList = c :: ds := hdisplay
    have hc : c.isAlpha := isAlpha_of_head?_name w c (by simp [hname])
    have hword := word?_name w cs
    rw [hname, List.cons_append] at hword
    exact first_of_word hc hword (by simpa [Kind.isTypable] using hk) column
  | operator op =>
    refine first_of_symbol (symbol?_operator hdisplay fun r hr d hd hmem => ?_) column
    have hstop := h d (mem_head?_dropWhile (isBlank_of_mem_relation hmem) hd)
    simp only [hr, Kind.stopsAt, decide_eq_true_eq] at hstop
    exact hstop hmem
  | leftParen | rightParen | comma | semicolon | colon =>
    simp only [Kind.display, String.reduceToList, List.cons.injEq] at hdisplay
    obtain ⟨rfl, rfl⟩ := hdisplay
    exact first_of_symbol rfl column
  | lineNumber | comment | endOfLine => cases hk

/-! ### A row of tokens -/

/-- What a typed text begins with, behind its blanks, is the display of the first kind. -/
theorem head?_of_typed (hks : Legible ks) (h : Typed ks cs) :
    (cs.dropWhile isBlank).head? = ks.head?.bind fun k => k.display.toList.head? := by
  induction h with
  | nil | remark => rfl
  | blank hc _ _ ih => rw [List.dropWhile_cons_of_pos hc, ih hks]
  | cons hne =>
    obtain ⟨hk, -, -⟩ := hks.of_cons hne
    obtain ⟨c, ds, hdisplay, hc⟩ := Kind.exists_display hk
    simp [hdisplay, hc]

/-- The text of a row that has a token is not empty. -/
theorem ne_nil_of_typed (hks : Legible ks) (hne : ks ≠ []) (h : Typed ks cs) : cs ≠ [] := by
  rintro rfl
  have hhead := head?_of_typed hks h
  cases hks with
  | nil => exact hne rfl
  | remark => simp [Kind.display, Keyword.name] at hhead
  | cons hk =>
    obtain ⟨c, ds, hdisplay, -⟩ := Kind.exists_display hk
    simp [hdisplay] at hhead

/-- A typed text does not end with space. -/
theorem getLast?_of_typed (hks : Legible ks) (h : Typed ks cs) :
    ∀ c ∈ cs.getLast?, Text.isSpace c = false := by
  induction h with
  | nil => simp
  | remark comment =>
    cases hks with
    | remark hlast =>
      intro c hc
      rw [List.getLast?_append, Option.mem_def, Option.or_eq_some_iff] at hc
      rcases hc with hc | ⟨-, hc⟩
      · exact hlast c hc
      · obtain rfl : 'M' = c := by simpa using hc
        rfl
    | cons hk => cases hk
  | blank _ hne htyped ih =>
    rw [List.getLast?_cons_of_ne_nil (ne_nil_of_typed hks hne htyped)]
    exact ih hks
  | cons hne _ ih =>
    obtain ⟨hk, -, hks⟩ := hks.of_cons hne
    intro c hc
    rw [List.getLast?_append, Option.mem_def, Option.or_eq_some_iff] at hc
    rcases hc with hc | ⟨-, hc⟩
    · exact ih hks c hc
    · exact Kind.getLast?_display hk c hc

/-- **Typed tokens.** What is typed for a legible row of kinds is scanned as tokens of these
    kinds. -/
theorem scanFrom_of_typed (line : Option Nat) (column : Nat) (hks : Legible ks) (h : Typed ks cs) :
    ∃ ts, scanFrom line column cs = .ok ts ∧ ts.map Token.kind = ks ++ [.endOfLine] := by
  induction h generalizing column with
  | nil => exact ⟨_, scanFrom_nil, rfl⟩
  | remark comment =>
    have hword : word? ('R' :: 'E' :: 'M' :: comment.toList) =
        some (.REM, ['R', 'E', 'M'], comment.toList) := by
      simpa [Keyword.name] using word?_name .REM comment.toList
    have hfirst := first_of_rem rfl hword column
    refine ⟨_, (scanFrom_of_first rfl hfirst).trans (by rw [scanFrom_nil]; rfl), ?_⟩
    simp [place, String.ofList_toList]
  | blank hc _ _ ih =>
    rw [scanFrom_of_isBlank hc]
    exact ih _ hks
  | @cons k ks cs hne htyped ih =>
    obtain ⟨hk, hnext, hks⟩ := hks.of_cons hne
    obtain ⟨c, ds, hdisplay, hc⟩ := Kind.exists_display hk
    -- What is typed next begins where the next kind does, and this one stops there.
    have hstop : ∀ d ∈ (cs.dropWhile isBlank).head?, k.stopsAt d := by
      intro d hd
      rw [head?_of_typed hks htyped] at hd
      obtain ⟨k', hk', hd⟩ := Option.bind_eq_some_iff.1 hd
      exact hnext k' hk' d hd
    obtain ⟨ts, hts, hkinds⟩ := ih (column + (c :: ds).length) hks
    rw [hdisplay, List.cons_append,
      scanFrom_of_first hc (first_of_isTypable hk hdisplay hstop column), covered_singleton, hts]
    exact ⟨_, rfl, by simp [place, hkinds]⟩

end LineBasic
