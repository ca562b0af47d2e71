import LineBasic.Token.Scan
import Mathlib

namespace LineBasic.Token

/-!
# The first piece of a text

Which piece a text begins with, told from its first character:

* `isBlank_of_isAlpha`, `isDigit_of_isAlpha`, `isSome_ofChar?`, `ofChar?_eq_some` -- blanks, digits
  and letters are different characters, and every letter names a variable;
* `first_of_symbol` -- an operator or a mark is a piece of its own;
* `first_of_word`, `first_of_rem`, `first_of_letter` -- a letter begins a reserved word, or else is
  a variable;
* `first_of_isDigit` -- a digit begins a number;
* `first_of_other` -- what is none of these and no quote is unexpected;
* `SplitsOff`, `splitsOff_of_first` -- the ways in which the first pieces are split off;
* `scanFrom_of_isBlank`, `scanFrom_of_first`, `scanFrom_of_error` -- how the scan of a text begins;
* `dropLineEnd_eq_self`, `exists_dropLineEnd_append` -- what is dropped at the end of a line;
* `Fronted`, `Fronted.scan_of_ok`, `Fronted.exists_of_scan`, `Fronted.scan_of_error` -- what stands
  at the front of a line, and the scan of the line.
-/

variable {c : Char} {cs covers rest : List Char} {x : Letter} {word : Keyword}

/-! ### Single characters -/

/-- A letter is no blank. -/
theorem isBlank_of_isAlpha (hc : c.isAlpha) : isBlank c = false := by
  refine Bool.eq_false_iff.2 fun hblank => ?_
  simp only [isBlank, Bool.or_eq_true, beq_iff_eq] at hblank
  rcases hblank with (rfl | rfl) | rfl <;> revert hc <;> decide

/-- A digit is no blank. -/
theorem isBlank_of_isDigit (hc : c.isDigit) : isBlank c = false := by
  refine Bool.eq_false_iff.2 fun hblank => ?_
  simp only [isBlank, Bool.or_eq_true, beq_iff_eq] at hblank
  rcases hblank with (rfl | rfl) | rfl <;> revert hc <;> decide

/-- A letter is no digit. -/
theorem isDigit_of_isAlpha (hc : c.isAlpha) : c.isDigit = false := by
  refine Bool.eq_false_iff.2 fun hdigit => ?_
  simp only [Char.isAlpha, Char.isUpper, Char.isLower, Char.isDigit, Bool.or_eq_true,
    Bool.and_eq_true, decide_eq_true_eq, UInt32.le_iff_toNat_le, ge_iff_le] at hc hdigit
  simp only [Char.reduceVal, UInt32.reduceToNat] at hc hdigit
  omega

/-- A character is either its own upper case or a letter. -/
theorem toUpper_eq_or_isAlpha (c : Char) : c.toUpper = c ∨ c.isAlpha := by
  by_cases hc : c.isLower
  · exact .inr (by simp [Char.isAlpha, hc])
  · exact .inl (Char.toUpper_eq_of_not_isLower hc)

/-- Letters are the characters that begin a variable or a word. -/
theorem isSome_ofChar? (hc : c.isAlpha) : (Letter.ofChar? c).isSome := by
  have hupper : c.toUpper.isUpper := by simpa using hc
  have hbounds : 65 ≤ c.toUpper.toNat ∧ c.toUpper.toNat ≤ 90 := by
    simpa [Char.isUpper, UInt32.le_iff_toNat_le, ← Char.toNat_val] using hupper
  have hn : c.toUpper.toNat - 65 < 26 := by omega
  simp [Letter.ofChar?, hc, hn]

/-- A character that stands for a variable is a letter. -/
theorem isAlpha_of_ofChar? (hx : Letter.ofChar? c = some x) : c.isAlpha := by
  simp only [Letter.ofChar?] at hx
  split at hx
  next h => exact h.1
  next => cases hx

/-- The character of a variable is a letter. -/
theorem isAlpha_char (x : Letter) : x.char.isAlpha := isAlpha_of_ofChar? x.ofChar?_char

/-- The name of a variable is the letter it was typed as, in upper case. -/
theorem ofChar?_eq_some {x : Letter} (hx : Letter.ofChar? c = some x) : x.char = c.toUpper := by
  have hupper : c.toUpper.isUpper := by simpa using isAlpha_of_ofChar? hx
  have hlow : 65 ≤ c.toUpper.toNat := by
    have hbounds : 65 ≤ c.toUpper.toNat ∧ c.toUpper.toNat ≤ 90 := by
      simpa [Char.isUpper, UInt32.le_iff_toNat_le, ← Char.toNat_val] using hupper
    exact hbounds.1
  simp only [Letter.ofChar?] at hx
  split at hx
  next h =>
    cases hx
    have hsum : 'A'.toNat + (c.toUpper.toNat - 'A'.toNat) = c.toUpper.toNat :=
      Nat.add_sub_cancel' hlow
    rw [Letter.char, hsum, Char.ofNat_toNat]
  next => cases hx

/-- A letter is no operator and no mark. -/
theorem symbol?_of_isAlpha (hc : c.isAlpha) (cs : List Char) : symbol? c cs = none := by
  unfold symbol?
  split <;> simp_all

/-- A digit is no operator and no mark. -/
theorem symbol?_of_isDigit (hc : c.isDigit) (cs : List Char) : symbol? c cs = none := by
  unfold symbol?
  split <;> simp_all

/-! ### Pieces -/

/-- An operator or a mark at the front is split off alone. -/
theorem first_of_symbol {p : Piece} (h : symbol? c cs = some (p, rest)) (column : Nat) :
    first column c cs = .ok ([p], rest) := by
  simp [first, h]

/-- A reserved word other than `REM` is a piece of its own. -/
theorem first_of_word (hc : c.isAlpha) (hword : word? (c :: cs) = some (word, covers, rest))
    (hne : word ≠ .REM) (column : Nat) :
    first column c cs = .ok ([⟨.word word, covers⟩], rest) := by
  have hquote : c ≠ '"' := by rintro rfl; revert hc; decide
  obtain ⟨x, hx⟩ := Option.isSome_iff_exists.1 (isSome_ofChar? hc)
  simp only [first, symbol?_of_isAlpha hc, if_neg hquote, isDigit_of_isAlpha hc, hx, hword]
  rfl

/-- `REM` brings the rest of the line with it. -/
theorem first_of_rem (hc : c.isAlpha) (hword : word? (c :: cs) = some (.REM, covers, rest))
    (column : Nat) :
    first column c cs = .ok ([⟨.word .REM, covers⟩, ⟨.comment (.ofList rest), rest⟩], []) := by
  have hquote : c ≠ '"' := by rintro rfl; revert hc; decide
  obtain ⟨x, hx⟩ := Option.isSome_iff_exists.1 (isSome_ofChar? hc)
  simp only [first, symbol?_of_isAlpha hc, if_neg hquote, isDigit_of_isAlpha hc, hx, hword]
  rfl

/-- A letter that begins no reserved word is a variable. -/
theorem first_of_letter (hx : Letter.ofChar? c = some x) (hword : word? (c :: cs) = none)
    (column : Nat) :
    first column c cs = .ok ([⟨.letter x, [c]⟩], cs) := by
  have hc : c.isAlpha := isAlpha_of_ofChar? hx
  have hquote : c ≠ '"' := by rintro rfl; revert hc; decide
  simp only [first, symbol?_of_isAlpha hc, if_neg hquote, isDigit_of_isAlpha hc, hx, hword]
  rfl

/-- A digit at the front begins a number, which takes all digits and blanks behind it. -/
theorem first_of_isDigit (hc : c.isDigit) (column : Nat) (cs : List Char) :
    first column c cs =
      .ok ([⟨.number (.ofList (dropBlanks (readDigits (c :: cs)).1)), (readDigits (c :: cs)).1⟩],
        (readDigits (c :: cs)).2) := by
  have hquote : c ≠ '"' := by rintro rfl; revert hc; decide
  simp only [first, symbol?_of_isDigit hc, if_neg hquote, hc, if_true]

/-- A character that begins no piece is unexpected. -/
theorem first_of_other (hsymbol : symbol? c cs = none) (hquote : c ≠ '"')
    (hdigit : c.isDigit = false) (hx : Letter.ofChar? c = none) (column : Nat) :
    first column c cs = .error ⟨.unexpectedCharacter c, .covering column 1⟩ := by
  simp [first, hsymbol, hquote, hdigit, hx]

variable {line : Option Nat} {column : Nat} {pieces : List Piece} {fault : Fault}

/-- The pieces at the front of a text that begins with a character, and the rest of it, in each of
the ways in which they can be split off. -/
inductive SplitsOff (c : Char) (cs : List Char) : List Piece → List Char → Prop where
  | symbol {p : Piece} {rest : List Char} (hsymbol : symbol? c cs = some (p, rest)) :
      SplitsOff c cs [p] rest
  | string {text rest : List Char} (hc : c = '"') (hread : readString cs = some (text, rest)) :
      SplitsOff c cs [⟨.string (.ofList text), '"' :: (text ++ ['"'])⟩] rest
  | number (hc : c.isDigit) :
      SplitsOff c cs
        [⟨.number (.ofList (dropBlanks (readDigits (c :: cs)).1)), (readDigits (c :: cs)).1⟩]
        (readDigits (c :: cs)).2
  | word {word : Keyword} {covers rest : List Char} (hc : c.isAlpha)
      (hword : word? (c :: cs) = some (word, covers, rest)) (hne : word ≠ .REM) :
      SplitsOff c cs [⟨.word word, covers⟩] rest
  | rem {covers rest : List Char} (hc : c.isAlpha)
      (hword : word? (c :: cs) = some (.REM, covers, rest)) :
      SplitsOff c cs [⟨.word .REM, covers⟩, ⟨.comment (.ofList rest), rest⟩] []
  | letter {x : Letter} (hx : Letter.ofChar? c = some x) (hword : word? (c :: cs) = none) :
      SplitsOff c cs [⟨.letter x, [c]⟩] cs

/-- What the scanner splits off at the front of a text is one of the cases of `SplitsOff`. -/
theorem splitsOff_of_first (h : first column c cs = .ok (pieces, rest)) :
    SplitsOff c cs pieces rest := by
  unfold first at h
  split at h
  next piece rest' hsymbol =>
    cases h
    exact .symbol hsymbol
  split at h
  next hquote =>
    split at h
    next text rest' hread =>
      cases h
      exact .string hquote hread
    next => cases h
  split at h
  next hdigit =>
    cases h
    exact .number hdigit
  split at h
  next => cases h
  next x hx =>
    have hc : c.isAlpha := isAlpha_of_ofChar? hx
    split at h
    next covers rest' hword =>
      cases h
      exact .rem hc hword
    next word covers rest' hne hword =>
      cases h
      exact .word hc hword hne
    next hword =>
      cases h
      exact .letter hx hword

/-! ### Scanning from the first piece on -/

/-- The end of the text is the end of the line. -/
theorem scanFrom_nil : scanFrom line column [] = .ok [⟨.endOfLine, "\n", line, column⟩] := by
  rw [scanFrom]

/-- A blank in front is passed over. -/
theorem scanFrom_of_isBlank (hc : isBlank c) :
    scanFrom line column (c :: cs) = scanFrom line (column + 1) cs := by
  rw [scanFrom, if_pos hc]

/-- The pieces at the front are placed, and the scan goes on behind what they cover. -/
theorem scanFrom_of_first (hc : isBlank c = false) (h : first column c cs = .ok (pieces, rest)) :
    scanFrom line column (c :: cs) =
      (scanFrom line (column + (covered pieces).length) rest).map
        (place line column pieces ++ ·) := by
  rw [scanFrom, if_neg (by simp [hc])]
  split
  next fault hfirst => simp [h] at hfirst
  next pieces' rest' hfirst =>
    rw [h] at hfirst
    cases hfirst
    rfl

/-- What spoils the front spoils the scan. -/
theorem scanFrom_of_error (hc : isBlank c = false) (h : first column c cs = .error fault) :
    scanFrom line column (c :: cs) = .error fault := by
  rw [scanFrom, if_neg (by simp [hc])]
  split
  next fault' hfirst =>
    rw [h] at hfirst
    cases hfirst
    rfl
  next => simp_all

/-! ### Line ends -/

/-- A text that ends in no line end has none to drop. -/
theorem dropLineEnd_eq_self (h : ∀ hne : cs ≠ [], cs.getLast hne ≠ '\n' ∧ cs.getLast hne ≠ '\r') :
    dropLineEnd cs = cs :=
  List.rdropWhile_eq_self_iff.2 fun hne => by simpa using h hne

/-- All that is dropped at the end of a line is its line end. -/
theorem exists_dropLineEnd_append (cs : List Char) :
    ∃ lineEnd, dropLineEnd cs ++ lineEnd = cs ∧ ∀ c ∈ lineEnd, c = '\n' ∨ c = '\r' := by
  refine ⟨(cs.reverse.takeWhile fun c => c == '\n' || c == '\r').reverse, ?_, fun c hc => ?_⟩
  · rw [dropLineEnd, ← List.reverse_append, List.takeWhile_append_dropWhile, List.reverse_reverse]
  · simpa using List.mem_takeWhile_imp (List.mem_reverse.1 hc)

/-! ### Whole lines -/

/-- The token of the number of a line, if the line has one. -/
def numberTokens (digits : List Char) : List Token :=
  if digits = [] then []
  else [⟨.lineNumber (.ofList digits), .ofList digits, LineNumber.ofText? digits, 0⟩]

/-- What stands at the front of a line: blanks, its number, and the rest. -/
structure Fronted (cs front covers rest : List Char) : Prop where
  /-- Together they are the line without its line end. -/
  text : dropLineEnd cs = front ++ (covers ++ rest)
  /-- At the front there are blanks. -/
  front : ∀ c ∈ front, isBlank c
  /-- Behind them there is no blank. -/
  body : ∀ c ∈ (covers ++ rest).head?, isBlank c = false
  /-- The number is as long as it can be. -/
  split : readDigits (covers ++ rest) = (covers, rest)

/-- Every text has a front of blanks and a number, either of which may be empty. -/
theorem exists_fronted (cs : List Char) : ∃ front covers rest, Fronted cs front covers rest := by
  obtain ⟨covers, rest, hsplit⟩ : ∃ covers rest,
      readDigits ((dropLineEnd cs).dropWhile isBlank) = (covers, rest) := ⟨_, _, rfl⟩
  have hbody : covers ++ rest = (dropLineEnd cs).dropWhile isBlank := by
    simpa [hsplit] using readDigits_append ((dropLineEnd cs).dropWhile isBlank)
  refine ⟨(dropLineEnd cs).takeWhile isBlank, covers, rest, ?_, ?_, ?_, ?_⟩
  · rw [hbody, List.takeWhile_append_dropWhile]
  · exact fun c => List.mem_takeWhile_imp
  · intro c hc
    have hhead := List.head?_dropWhile_not isBlank (dropLineEnd cs)
    rw [hbody] at hc
    simpa [Option.mem_def.1 hc] using hhead
  · rw [hbody, hsplit]

/-- A line is scanned from behind the blanks at its front and the number after them. -/
theorem Fronted.scan_eq {text : String} {front : List Char}
    (h : Fronted text.toList front covers rest) :
    scan text =
      match scanFrom (LineNumber.ofText? (dropBlanks covers))
          (front.length + covers.length) rest with
      | .ok tokens => .ok (numberTokens (dropBlanks covers) ++ tokens)
      | .error fault =>
        .error (fault.diagnostic.atLine (LineNumber.ofText? (dropBlanks covers))) := by
  have htake : (covers ++ rest).takeWhile isBlank = [] ∧
      (covers ++ rest).dropWhile isBlank = covers ++ rest := by
    have hbody := h.body
    cases hcs : covers ++ rest with
    | nil => exact ⟨rfl, rfl⟩
    | cons c cs =>
      rw [hcs] at hbody
      simp [hbody c rfl]
  simp only [scan, h.text, List.takeWhile_append_of_pos h.front,
    List.dropWhile_append_of_pos h.front, htake, List.append_nil, h.split]
  rfl

/-- What stands at the front of some characters stands at the front of the text that is made of
    them. -/
theorem Fronted.ofList {front : List Char} (h : Fronted cs front covers rest) :
    Fronted (String.ofList cs).toList front covers rest := by
  rwa [String.toList_ofList]

/-- The tokens of a line are its number and those of the text behind it. -/
theorem Fronted.scan_of_ok {text : String} {front : List Char} {ts : List Token}
    (h : Fronted text.toList front covers rest)
    (hts : scanFrom (LineNumber.ofText? (dropBlanks covers)) (front.length + covers.length)
      rest = .ok ts) :
    scan text = .ok (numberTokens (dropBlanks covers) ++ ts) := by
  rw [h.scan_eq, hts]

/-- The tokens of a line are its number and what is scanned behind it. -/
theorem Fronted.exists_of_scan {text : String} {front : List Char} {ts : List Token}
    (hfronted : Fronted text.toList front covers rest) (h : scan text = .ok ts) :
    ∃ tokens, scanFrom (LineNumber.ofText? (dropBlanks covers)) (front.length + covers.length)
      rest = .ok tokens ∧ ts = numberTokens (dropBlanks covers) ++ tokens := by
  rw [hfronted.scan_eq] at h
  split at h
  next tokens htokens =>
    cases h
    exact ⟨tokens, htokens, rfl⟩
  next => cases h

/-- A fault behind the number of a line is reported under that number. -/
theorem Fronted.scan_of_error {text : String} {front : List Char}
    (h : Fronted text.toList front covers rest)
    (hfault : scanFrom (LineNumber.ofText? (dropBlanks covers)) (front.length + covers.length)
      rest = .error fault) :
    scan text = .error (fault.diagnostic.atLine (LineNumber.ofText? (dropBlanks covers))) := by
  rw [h.scan_eq, hfault]

end LineBasic.Token
