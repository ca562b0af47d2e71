import LineBasic.Token.Basic

namespace LineBasic.Token

/-!
# Scanning

From the text of a line to its tokens. Spaces, tabs and carriage returns separate tokens and may
stand anywhere inside a number or a reserved word; letters count as upper case. Each step of the
scanner splits off the characters that one piece covers:

* `readDigits`, `spell`, `symbol?` -- the split for numbers, reserved words, and operators and
  marks;
* `first` -- the first piece of a text, or why there is none;
* `first_covers` -- nothing is lost: what the pieces cover, followed by the rest, is the text;
* `scan` -- all tokens of a line.
-/

/-- The characters that separate tokens. -/
def isBlank (c : Char) : Bool := c == ' ' || c == '\t' || c == '\r'

/-- The text without its blanks. -/
def dropBlanks (cs : List Char) : List Char := cs.filter (!isBlank ·)

/-- A kind of token, and the characters of the line that it covers. -/
structure Piece where
  /-- What it is. -/
  kind : Kind
  /-- The characters it covers. -/
  covers : List Char
  deriving DecidableEq, Repr

/-- The text of a piece as its token keeps it: strings and comments as they stand, all else without
blanks. -/
def Piece.lexeme (p : Piece) : String :=
  match p.kind with
  | .string _ | .comment _ => .ofList p.covers
  | _ => .ofList (dropBlanks p.covers)

/-! ### Splitting off one piece -/

/-- Splits off the longest stretch of digits, with any blanks between them, that ends in a digit. -/
def readDigits : List Char → List Char × List Char
  | [] => ([], [])
  | c :: cs =>
    if c.isDigit then
      let (covers, rest) := readDigits cs
      (c :: covers, rest)
    else if isBlank c then
      match readDigits cs with
      | ([], _) => ([], c :: cs)
      | (covers, rest) => (c :: covers, rest)
    else ([], c :: cs)

/-- The number at the front and the rest are the text. -/
theorem readDigits_append (cs : List Char) : (readDigits cs).1 ++ (readDigits cs).2 = cs := by
  fun_induction readDigits cs <;> simp_all

/-- Splits off the letters of a word, in either case and with any blanks before or between them. -/
def spell : List Char → List Char → Option (List Char × List Char)
  | [], cs => some ([], cs)
  | _ :: _, [] => none
  | w :: word, c :: cs =>
    if isBlank c then (spell (w :: word) cs).map fun (covers, rest) => (c :: covers, rest)
    else if c.toUpper == w then (spell word cs).map fun (covers, rest) => (c :: covers, rest)
    else none

/-- The stretch that spells a word and the rest are the text. -/
theorem spell_append {word cs covers rest : List Char} (h : spell word cs = some (covers, rest)) :
    covers ++ rest = cs := by
  fun_induction spell word cs generalizing covers with
  | case1 => simp_all
  | case2 => simp at h
  | case3 w word c cs hb ih =>
    obtain ⟨⟨covers', rest'⟩, hs, he⟩ := Option.map_eq_some_iff.1 h
    cases he
    simp [ih hs]
  | case4 w word c cs hb hw ih =>
    obtain ⟨⟨covers', rest'⟩, hs, he⟩ := Option.map_eq_some_iff.1 h
    cases he
    simp [ih hs]
  | case5 => simp at h

/-- The spellings that are tried at a letter, in this order. `PR` is short for `PRINT`. `PRETURN` is
no word: where it is spelled, the `P` is a variable that `RETURN` follows. -/
def spellings : List (String × Option Keyword) :=
  [("CLEAR", some .CLEAR), ("END", some .END), ("GOTO", some .GOTO), ("GOSUB", some .GOSUB),
   ("IF", some .IF), ("INPUT", some .INPUT), ("LET", some .LET), ("LIST", some .LIST),
   ("PRINT", some .PRINT), ("PRETURN", none), ("PR", some .PRINT), ("RUN", some .RUN),
   ("RETURN", some .RETURN), ("RND", some .RND), ("REM", some .REM), ("THEN", some .THEN),
   ("USR", some .USR)]

/-- Splits off the first of some spellings that the text begins with, if it stands for a word. -/
def findWord (cs : List Char) :
    List (String × Option Keyword) → Option (Keyword × List Char × List Char)
  | [] => none
  | (text, word?) :: others =>
    match spell text.toList cs with
    | some (covers, rest) => word?.map fun word => (word, covers, rest)
    | none => findWord cs others

/-- Splits off a reserved word. -/
def word? (cs : List Char) : Option (Keyword × List Char × List Char) := findWord cs spellings

/-- The stretch of the word that is found and the rest are the text. -/
theorem findWord_append {cs : List Char} {others : List (String × Option Keyword)} {word : Keyword}
    {covers rest : List Char} (h : findWord cs others = some (word, covers, rest)) :
    covers ++ rest = cs := by
  induction others with
  | nil => simp [findWord] at h
  | cons entry others ih =>
    obtain ⟨text, word?⟩ := entry
    rw [findWord] at h
    split at h
    next covers' rest' hs =>
      obtain ⟨_, _, he⟩ := Option.map_eq_some_iff.1 h
      cases he
      exact spell_append hs
    next => exact ih h

/-- A word of letters is not spelled by nothing. -/
theorem spell_ne_nil {word cs covers rest : List Char} (hw : word ≠ [])
    (h : spell word cs = some (covers, rest)) : covers ≠ [] := by
  cases word with
  | nil => exact absurd rfl hw
  | cons w word =>
    cases cs with
    | nil => simp [spell] at h
    | cons c cs =>
      rw [spell] at h
      split at h
      · obtain ⟨_, _, he⟩ := Option.map_eq_some_iff.1 h
        cases he
        simp
      · split at h
        · obtain ⟨_, _, he⟩ := Option.map_eq_some_iff.1 h
          cases he
          simp
        · simp at h

/-- A word that is found covers a character. -/
theorem findWord_ne_nil {cs : List Char} {others : List (String × Option Keyword)} {word : Keyword}
    {covers rest : List Char} (ho : ∀ entry ∈ others, entry.1.toList ≠ [])
    (h : findWord cs others = some (word, covers, rest)) : covers ≠ [] := by
  induction others with
  | nil => simp [findWord] at h
  | cons entry others ih =>
    obtain ⟨text, word?⟩ := entry
    rw [findWord] at h
    split at h
    next covers' rest' hs =>
      obtain ⟨_, _, he⟩ := Option.map_eq_some_iff.1 h
      cases he
      exact spell_ne_nil (ho _ List.mem_cons_self) hs
    next => exact ih (fun entry he => ho entry (List.mem_cons_of_mem _ he)) h

/-- What is left after a reserved word, and the word, make up the text; no word is empty. -/
theorem word?_append {cs : List Char} {word : Keyword} {covers rest : List Char}
    (h : word? cs = some (word, covers, rest)) : covers ++ rest = cs ∧ covers ≠ [] :=
  ⟨findWord_append h, findWord_ne_nil (by decide) h⟩

/-- The operator or mark that a text begins with, and the characters after it. The two characters of
a relation stand next to each other. -/
def symbol? (c : Char) (cs : List Char) : Option (Piece × List Char) :=
  match c, cs with
  | '(', _ => some (⟨.leftParen, [c]⟩, cs)
  | ')', _ => some (⟨.rightParen, [c]⟩, cs)
  | ',', _ => some (⟨.comma, [c]⟩, cs)
  | ';', _ => some (⟨.semicolon, [c]⟩, cs)
  | ':', _ => some (⟨.colon, [c]⟩, cs)
  | '+', _ => some (⟨.operator .plus, [c]⟩, cs)
  | '-', _ => some (⟨.operator .minus, [c]⟩, cs)
  | '*', _ => some (⟨.operator .times, [c]⟩, cs)
  | '/', _ => some (⟨.operator .divide, [c]⟩, cs)
  | '=', _ => some (⟨.operator (.relation .equal), [c]⟩, cs)
  | '<', '=' :: rest => some (⟨.operator (.relation .lessEqual), [c, '=']⟩, rest)
  | '<', '>' :: rest => some (⟨.operator (.relation .notEqual), [c, '>']⟩, rest)
  | '>', '=' :: rest => some (⟨.operator (.relation .greaterEqual), [c, '=']⟩, rest)
  | '>', '<' :: rest => some (⟨.operator (.relation .notEqual), [c, '<']⟩, rest)
  | '<', _ => some (⟨.operator (.relation .less), [c]⟩, cs)
  | '>', _ => some (⟨.operator (.relation .greater), [c]⟩, cs)
  | _, _ => none

/-- What an operator or a mark covers and the rest are the text. -/
theorem symbol?_append {c : Char} {cs : List Char} {p : Piece} {rest : List Char}
    (h : symbol? c cs = some (p, rest)) : p.covers ++ rest = c :: cs ∧ p.covers ≠ [] := by
  unfold symbol? at h
  split at h <;> simp_all <;> obtain ⟨rfl, rfl⟩ := h <;> simp

/-- Splits off a string after its opening quote: what stands before the closing quote, and what
stands after it. -/
def readString (cs : List Char) : Option (List Char × List Char) :=
  match cs.dropWhile (· != '"') with
  | [] => none
  | _ :: rest => some (cs.takeWhile (· != '"'), rest)

/-- The string, its closing quote and the rest are the text. -/
theorem readString_append {cs text rest : List Char} (h : readString cs = some (text, rest)) :
    text ++ '"' :: rest = cs := by
  unfold readString at h
  split at h
  · simp at h
  · next q rest' hd =>
    simp only [Option.some.injEq, Prod.mk.injEq] at h
    obtain ⟨rfl, rfl⟩ := h
    have hq : q = '"' := by
      have := List.head?_dropWhile_not (· != '"') cs
      simpa [hd] using this
    subst hq
    rw [← hd, List.takeWhile_append_dropWhile]

/-! ### The first piece of a text -/

/-- The pieces at the front of a text that begins with the character `c` at a column, and the rest
of the text. There is one piece, except that `REM` brings its comment with it. -/
def first (column : Nat) (c : Char) (cs : List Char) : Except Fault (List Piece × List Char) :=
  if let some (piece, rest) := symbol? c cs then .ok ([piece], rest)
  else if c = '"' then
    match readString cs with
    | some (text, rest) => .ok ([⟨.string (.ofList text), '"' :: (text ++ ['"'])⟩], rest)
    | none => .error ⟨.unterminatedString column, .covering (column + (c :: cs).length) 1⟩
  else if c.isDigit then
    let (covers, rest) := readDigits (c :: cs)
    .ok ([⟨.number (.ofList (dropBlanks covers)), covers⟩], rest)
  else
    match Letter.ofChar? c with
    | none => .error ⟨.unexpectedCharacter c, .covering column 1⟩
    | some x =>
      match word? (c :: cs) with
      | some (.REM, covers, rest) =>
        .ok ([⟨.word .REM, covers⟩, ⟨.comment (.ofList rest), rest⟩], [])
      | some (word, covers, rest) => .ok ([⟨.word word, covers⟩], rest)
      | none => .ok ([⟨.letter x, [c]⟩], cs)

/-- The characters that some pieces cover. -/
def covered (pieces : List Piece) : List Char := pieces.flatMap Piece.covers

@[simp] theorem covered_singleton (p : Piece) : covered [p] = p.covers := by simp [covered]

/-- The pieces at the front of a text and the rest of it make up the text, and the pieces cover
something. -/
theorem first_covers {column : Nat} {c : Char} {cs rest : List Char} {pieces : List Piece}
    (h : first column c cs = .ok (pieces, rest)) :
    covered pieces ++ rest = c :: cs ∧ covered pieces ≠ [] := by
  unfold first at h
  split at h
  next piece rest' hs =>
    cases h
    simpa using symbol?_append hs
  split at h
  next hq =>
    split at h
    next text rest' hr =>
      cases h
      simpa [hq] using readString_append hr
    next => cases h
  split at h
  next hd =>
    simp only [Except.ok.injEq, Prod.mk.injEq] at h
    obtain ⟨rfl, rfl⟩ := h
    refine ⟨by simpa using readDigits_append (c :: cs), ?_⟩
    rw [covered_singleton, readDigits, if_pos hd]
    exact List.cons_ne_nil _ _
  split at h
  next => cases h
  split at h
  next covers rest' hw =>
    cases h
    simp [covered, (word?_append hw).1]
  next word covers rest' _ hw =>
    cases h
    simpa using word?_append hw
  next =>
    cases h
    simp

/-- The pieces at the front take characters off the text. -/
theorem first_length_lt {column : Nat} {c : Char} {cs rest : List Char} {pieces : List Piece}
    (h : first column c cs = .ok (pieces, rest)) : rest.length < (c :: cs).length := by
  obtain ⟨ha, hn⟩ := first_covers h
  have := congrArg List.length ha
  have := List.length_pos_iff.2 hn
  simp only [List.length_append] at *
  omega

/-! ### Whole lines -/

/-- The tokens of pieces that stand one after the other from a column on. -/
def place (line : Option Nat) : Nat → List Piece → List Token
  | _, [] => []
  | column, p :: pieces =>
    ⟨p.kind, p.lexeme, line, column⟩ :: place line (column + p.covers.length) pieces

/-- The tokens of a text that begins at a column of its line. -/
def scanFrom (line : Option Nat) (column : Nat) (cs : List Char) : Except Fault (List Token) :=
  match cs with
  | [] => .ok [⟨.endOfLine, "\n", line, column⟩]
  | c :: cs =>
    if isBlank c then scanFrom line (column + 1) cs
    else
      match _h : first column c cs with
      | .error fault => .error fault
      | .ok (pieces, rest) =>
        (scanFrom line (column + (covered pieces).length) rest).map (place line column pieces ++ ·)
termination_by cs.length
decreasing_by
  · simp
  · exact first_length_lt _h

/-- The text of a line without its line end. -/
def dropLineEnd (cs : List Char) : List Char :=
  (cs.reverse.dropWhile fun c => c == '\n' || c == '\r').reverse

/-- The tokens of a line. Digits at its front are its number, whatever blanks stand before and
between them; every token of the line carries the number if it is one that a line can have. -/
def scan (text : String) : Except Diagnostic (List Token) :=
  let cs := dropLineEnd text.toList
  let blanks := cs.takeWhile isBlank
  let (covers, rest) := readDigits (cs.dropWhile isBlank)
  let digits := dropBlanks covers
  let line := LineNumber.ofText? digits
  let number :=
    if digits = [] then [] else [⟨.lineNumber (.ofList digits), .ofList digits, line, 0⟩]
  match scanFrom line (blanks.length + covers.length) rest with
  | .ok tokens => .ok (number ++ tokens)
  | .error fault => .error (fault.diagnostic.atLine line)

end LineBasic.Token
