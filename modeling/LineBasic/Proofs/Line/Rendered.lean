import LineBasic.Proofs.Line.Typed
import LineBasic.Proofs.Token.Respelled

namespace LineBasic

/-!
# Tokens written out again

Whatever text is scanned, its tokens can be written out with one space between them and scanned
again: they are then of the same kinds.

* `behind`, `spaced_cons` -- what stands behind the first kind of a row that is written out;
* `Token.IsTrimmed` -- texts that do not end with a line end;
* `Token.symbol?_display`, `Token.respelled_of_mem_spellings` -- operators and marks and reserved
  words are shown as they were typed, up to case and to `><` and `PR`;
* `Token.Renders` -- what is written out for a text is scanned as the same kinds, with one lemma for
  each way in which the first piece of a text can be split off;
* `Token.ScansTo.exists_renders` -- so is what is written out for whatever is scanned from a column
  on;
* `Token.scan_rendered` -- the main result, for whole lines.
-/

open Token

variable {k : Kind} {ks : List Kind} {c : Char} {cs covers rest : List Char}

/-! ### The text behind the first kind -/

/-- What stands behind the display of a kind if other kinds follow. -/
def behind (ks : List Kind) : List Char := if ks = [] then [] else ' ' :: spaced ks

/-- Kinds are written out one after the other, with a space between them unless the first is
    `REM`. -/
theorem spaced_cons (hk : k ≠ .word .REM) (ks : List Kind) :
    spaced (k :: ks) = k.display.toList ++ behind ks := by
  cases ks <;> simp [spaced, behind, hk]

/-- The space before a row of kinds is gone when the text is squeezed. -/
theorem squeezed_behind (ks : List Kind) : squeezed (behind ks) = squeezed (spaced ks) := by
  unfold behind
  split
  next hnil => simp [hnil, spaced]
  next => exact squeezed_of_isBlank rfl

/-- Only a blank stands next to the display of a kind. -/
theorem isBlank_head?_behind (ks : List Kind) : ∀ c ∈ (behind ks).head?, isBlank c := by
  unfold behind
  split <;> simp [isBlank]

namespace Token

/-- A text whose last character is no line end. -/
def IsTrimmed (cs : List Char) : Prop := ∀ c ∈ cs.getLast?, c ≠ '\n' ∧ c ≠ '\r'

/-- A text without a line end stays as it is when the line end is taken away. -/
theorem IsTrimmed.dropLineEnd_eq (h : IsTrimmed cs) : dropLineEnd cs = cs :=
  dropLineEnd_eq_self fun hne => h _ (List.getLast?_eq_some_getLast hne)

/-- No line end is left when it has been taken away. -/
theorem isTrimmed_dropLineEnd (cs : List Char) : IsTrimmed (dropLineEnd cs) := by
  intro c hc
  have hlast := List.head?_dropWhile_not (fun c => c == '\n' || c == '\r') cs.reverse
  rw [dropLineEnd, List.getLast?_reverse] at hc
  rw [Option.mem_def.1 hc] at hlast
  simpa using hlast

/-- No line end is left when the space at the end has been taken away. -/
theorem isTrimmed_trimEnd (cs : List Char) : IsTrimmed (Text.trimEnd cs) := by
  intro c hc
  have hnot := Text.getLast?_trimEnd cs c hc
  constructor <;> rintro rfl <;> cases hnot

/-- The end of a text without a line end has none. -/
theorem IsTrimmed.right (h : IsTrimmed (covers ++ rest)) : IsTrimmed rest := by
  intro c hc
  exact h c (by rw [List.getLast?_append, Option.mem_def.1 hc]; rfl)

/-- Two texts without a line end make up one. -/
theorem IsTrimmed.append (hcovers : IsTrimmed covers) (hrest : IsTrimmed rest) :
    IsTrimmed (covers ++ rest) := by
  intro c hc
  rw [List.getLast?_append, Option.mem_def, Option.or_eq_some_iff] at hc
  rcases hc with hc | ⟨-, hc⟩
  · exact hrest c hc
  · exact hcovers c hc

/-- A character that is no line end may stand before a text without one. -/
theorem IsTrimmed.cons (hc : c ≠ '\n' ∧ c ≠ '\r') (h : IsTrimmed cs) : IsTrimmed (c :: cs) :=
  @IsTrimmed.append [c] cs (by simpa [IsTrimmed] using hc) h

/-- What can be typed is written without a line end. -/
theorem isTrimmed_display (hk : k.isTypable) : IsTrimmed k.display.toList := by
  intro c hc
  have hspace := Kind.getLast?_display hk c hc
  constructor <;> rintro rfl <;> cases hspace

/-- A row of kinds that is written without a line end is so behind a space. -/
theorem isTrimmed_behind (h : IsTrimmed (spaced ks)) : IsTrimmed (behind ks) := by
  unfold behind
  split
  next => exact fun c hc => by cases hc
  next => exact h.cons (by decide)

/-! ### One token -/

/-- Whether a kind is an operator or a mark. -/
def isSymbol : Kind → Bool
  | .operator _ | .leftParen | .rightParen | .comma | .semicolon | .colon => true
  | _ => false

/-- Operators and marks can be typed. -/
theorem isTypable_of_isSymbol (h : isSymbol k) : k.isTypable := by
  cases k <;> first | rfl | cases h

/-- An operator or a mark is shown as it was typed, but for `><`. -/
theorem symbol?_display {p : Piece} (h : symbol? c cs = some (p, rest)) :
    isSymbol p.kind ∧ Respelled (squeezed p.covers) (squeezed p.kind.display.toList) := by
  unfold symbol? at h
  split at h
  case h_14 =>
    cases h
    exact ⟨rfl, .notEqual .nil⟩
  all_goals
    cases h
    try exact ⟨rfl, .refl _⟩

/-- An operator or a mark is read again where a blank or nothing stands next to it. -/
theorem symbol?_of_isSymbol {d : Char} {ds more : List Char} (hk : isSymbol k)
    (hdisplay : k.display.toList = d :: ds) (hmore : ∀ e ∈ more.head?, isBlank e) :
    symbol? d (ds ++ more) = some (⟨k, d :: ds⟩, more) := by
  cases k with
  | operator op =>
    refine symbol?_operator hdisplay fun _ _ e he hmem => ?_
    have hblank := hmore e he
    rw [isBlank_of_mem_relation hmem] at hblank
    cases hblank
  | leftParen | rightParen | comma | semicolon | colon =>
    simp only [Kind.display, String.reduceToList, List.cons.injEq] at hdisplay
    obtain ⟨rfl, rfl⟩ := hdisplay
    rfl
  | lineNumber | number | string | comment | letter | word | endOfLine => cases hk

/-- No quote stands inside a string. -/
theorem notMem_of_readString {text : List Char} (h : readString cs = some (text, rest)) :
    '"' ∉ text := by
  unfold readString at h
  split at h
  next => cases h
  next =>
    cases h
    intro hmem
    simpa using List.mem_takeWhile_imp hmem

/-- The spellings of a reserved word differ from its name only where it is `PR`. -/
theorem respelled_of_mem_spellings : ∀ entry ∈ spellings, ∀ w ∈ entry.2,
    Respelled entry.1.toList (squeezed w.name.toList) := by
  simp only [spellings, List.forall_mem_cons, List.not_mem_nil, false_implies,
    implies_true, and_true]
  refine ⟨?_, ?_, ?_, ?_, ?_, ?_, ?_, ?_, ?_, ?_, ?_, ?_, ?_, ?_, ?_, ?_, ?_⟩ <;>
    intro w hw <;> cases hw <;> first | exact .refl _ | exact .print .nil

/-- The name of a variable is no blank. -/
theorem squeezed_char (x : Letter) : squeezed [x.char] = [x.char] := by
  have hx := ofChar?_eq_some x.ofChar?_char
  rw [squeezed_cons (isBlank_of_isAlpha (isAlpha_char x)), ← hx]
  rfl

/-! ### All tokens of a text -/

/-- The kinds of a text are those that are scanned from the text they are written out as. -/
structure Renders (cs : List Char) (ks : List Kind) : Prop where
  /-- Once they are squeezed, both texts differ in spellings only. -/
  respelled : Respelled (squeezed cs) (squeezed (spaced ks))
  /-- What is written out begins with no blank. -/
  head : ∀ c ∈ (spaced ks).head?, isBlank c = false
  /-- It ends with a line end only if the text does. -/
  last : IsTrimmed cs → IsTrimmed (spaced ks)
  /-- It is scanned as tokens of the kinds. -/
  scanned : ∀ line column, ∃ ts, scanFrom line column (spaced ks) = .ok ts ∧
    ts.map Token.kind = ks ++ [.endOfLine]

namespace Renders

/-- No kinds are written as the empty text. -/
theorem nil : Renders [] [] where
  respelled := .nil
  head := by simp [spaced]
  last h := h
  scanned _ _ := ⟨_, scanFrom_nil, rfl⟩

/-- Blanks between tokens are not written out. -/
theorem blank (hc : isBlank c) (h : Renders cs ks) : Renders (c :: cs) ks where
  respelled := by
    rw [squeezed_of_isBlank hc]
    exact h.respelled
  head := h.head
  last hlast := h.last (@IsTrimmed.right [c] cs hlast)
  scanned := h.scanned

/-- What stands behind a kind is scanned as the kinds that follow. -/
theorem scanned_behind (h : Renders cs ks) (line : Option Nat) (column : Nat) :
    ∃ ts, scanFrom line column (behind ks) = .ok ts ∧ ts.map Token.kind = ks ++ [.endOfLine] := by
  unfold behind
  split
  next hnil => exact ⟨_, scanFrom_nil, by rw [hnil]; rfl⟩
  next =>
    rw [scanFrom_of_isBlank rfl]
    exact h.scanned line (column + 1)

/-- A token can be put before others if it is read again before them. -/
theorem cons (hk : k.isTypable) (hcovers : Respelled (squeezed covers) (squeezed k.display.toList))
    (hfirst : ∀ d ds, k.display.toList = d :: ds → ∀ column,
      first column d (ds ++ behind ks) = .ok ([⟨k, d :: ds⟩], behind ks))
    (h : Renders rest ks) : Renders (covers ++ rest) (k :: ks) := by
  have hrem : k ≠ .word .REM := by
    rintro rfl
    cases hk
  -- Behind the token stands a space or nothing, so that it ends where it did.
  have hspaced := spaced_cons hrem ks
  obtain ⟨d, ds, hdisplay, hd⟩ := Kind.exists_display hk
  constructor
  case respelled =>
    rw [hspaced, squeezed_append, squeezed_append, squeezed_behind]
    exact hcovers.append h.respelled
  case head => simpa [hspaced, hdisplay] using hd
  case last =>
    intro hlast
    rw [hspaced]
    exact (isTrimmed_display hk).append (isTrimmed_behind (h.last hlast.right))
  case scanned =>
    intro line column
    obtain ⟨ts, hts, hkinds⟩ := h.scanned_behind line (column + (d :: ds).length)
    rw [hspaced, hdisplay, List.cons_append, scanFrom_of_first hd (hfirst d ds hdisplay column),
      covered_singleton, hts]
    exact ⟨_, rfl, by simp [place, hkinds]⟩

/-- A comment is written out as it stands, directly behind its `REM`. -/
theorem remark (hcovers : squeezed covers = "REM".toList) (comment : List Char) :
    Renders (covers ++ comment) [.word .REM, .comment (.ofList comment)] := by
  have hspaced : spaced [.word .REM, .comment (.ofList comment)] = 'R' :: 'E' :: 'M' ::
      comment := by
    simp [spaced, Kind.display, Keyword.name]
  constructor
  case respelled =>
    rw [hspaced, squeezed_append, hcovers]
    exact .refl _
  case head => simp [hspaced, isBlank]
  case last =>
    intro hlast
    rw [hspaced]
    exact ((hlast.right.cons (by decide)).cons (by decide)).cons (by decide)
  case scanned =>
    intro line column
    have hword : word? ('R' :: 'E' :: 'M' :: comment) = some (.REM, ['R', 'E', 'M'], comment) := by
      simpa [Keyword.name] using word?_name .REM comment
    rw [hspaced, scanFrom_of_first rfl (first_of_rem rfl hword column), scanFrom_nil]
    exact ⟨_, rfl, rfl⟩

/-- An operator or a mark can be put before others. -/
theorem symbol {p : Piece} (hsymbol : symbol? c cs = some (p, rest)) (h : Renders rest ks) :
    Renders (p.covers ++ rest) (p.kind :: ks) := by
  obtain ⟨hk, hcovers⟩ := symbol?_display hsymbol
  refine h.cons (isTypable_of_isSymbol hk) hcovers fun d ds hdisplay => ?_
  exact first_of_symbol (symbol?_of_isSymbol hk hdisplay (isBlank_head?_behind ks))

/-- A string is written out as it stands. -/
theorem string {text : List Char} (hread : readString cs = some (text, rest))
    (h : Renders rest ks) :
    Renders ('"' :: (text ++ ['"']) ++ rest) (.string (.ofList text) :: ks) := by
  have hk : (Kind.string (.ofList text)).isTypable := by
    simpa [Kind.isTypable] using notMem_of_readString hread
  refine h.cons hk ?_ fun d ds hdisplay => ?_
  · simpa [Kind.display] using Respelled.refl _
  · exact first_of_isTypable hk hdisplay fun _ _ => rfl

/-- A number is written out as its digits, before what does not begin with a digit. -/
theorem number (hdigits : ∀ c ∈ covers, c.isDigit ∨ isBlank c) (hne : dropBlanks covers ≠ [])
    (hrest : ∀ c ∈ (squeezed rest).head?, c.isDigit = false) (h : Renders rest ks) :
    Renders (covers ++ rest) (.number (.ofList (dropBlanks covers)) :: ks) := by
  have hk : (Kind.number (.ofList (dropBlanks covers))).isTypable := by
    have hall : ∀ c ∈ dropBlanks covers, c.isDigit := fun c hc =>
      (hdigits c (List.mem_filter.1 hc).1).resolve_right (by simpa using (List.mem_filter.1 hc).2)
    simpa [Kind.isTypable, hne] using hall
  have hstop : ∀ d ∈ ((behind ks).dropWhile isBlank).head?, d.isDigit = false := by
    refine isDigit_head?_dropWhile ?_
    rw [squeezed_behind]
    exact h.respelled.isDigit_head? hrest
  refine h.cons hk ?_ fun d ds hdisplay => first_of_isTypable hk hdisplay ?_
  · simpa [Kind.display, squeezed, dropBlanks_dropBlanks] using Respelled.refl _
  · simpa [Kind.stopsAt] using hstop

/-- A reserved word is written out by its name. -/
theorem word {w : Keyword} (hword : word? cs = some (w, covers, rest)) (hne : w ≠ .REM)
    (h : Renders rest ks) :
    Renders (covers ++ rest) (.word w :: ks) := by
  have hk : (Kind.word w).isTypable := by simpa [Kind.isTypable] using hne
  obtain ⟨text, hmem, htext⟩ := exists_spelling_of_findWord hword
  refine h.cons hk ?_ fun d ds hdisplay => first_of_isTypable hk hdisplay fun _ _ => rfl
  rw [htext]
  exact respelled_of_mem_spellings _ hmem w rfl

/-- A letter that begins no word begins none where it is written out. -/
theorem letter {x : Letter} (hx : Letter.ofChar? c = some x) (hword : word? (c :: cs) = none)
    (h : Renders cs ks) :
    Renders ([c] ++ cs) (.letter x :: ks) := by
  have hc : isBlank c = false := isBlank_of_isAlpha (isAlpha_of_ofChar? hx)
  have hblank : isBlank x.char = false := isBlank_of_isAlpha (isAlpha_char x)
  have hdisplay : (Kind.letter x).display.toList = [x.char] := by simp [Kind.display, Letter.name]
  refine h.cons rfl ?_ fun d ds hds column => ?_
  · rw [squeezed_cons hc, hdisplay, squeezed_char, ofChar?_eq_some hx]
    exact .refl _
  · rw [hdisplay] at hds
    cases hds
    have hrest : Respelled (squeezed cs) (squeezed (behind ks)) := by
      rw [squeezed_behind]
      exact h.respelled
    have hupper : c.toUpper = x.char.toUpper := by simp [ofChar?_eq_some hx]
    exact first_of_letter x.ofChar?_char ((word?_respelled hc hblank hupper hrest).1 hword) column

end Renders

/-- Whatever is scanned from a column on is written out as the text of its kinds. -/
theorem ScansTo.exists_renders {line : Option Nat} {column : Nat} {ts : List Token}
    (h : ScansTo line column cs ts) :
    ∃ ks, ts.map Token.kind = ks ++ [.endOfLine] ∧ Renders cs ks := by
  induction h with
  | finish => exact ⟨[], rfl, .nil⟩
  | blank hc _ ih =>
    obtain ⟨ks, hkinds, hrenders⟩ := ih
    exact ⟨ks, hkinds, hrenders.blank hc⟩
  | @piece column c cs rest p ts _ hfirst _ _ ih =>
    obtain ⟨ks, hkinds, hrenders⟩ := ih
    refine ⟨p.kind :: ks, by simp [hkinds], ?_⟩
    rw [← (first_covers hfirst).1, covered_singleton]
    cases splitsOff_of_first hfirst with
    | symbol hsymbol => exact hrenders.symbol hsymbol
    | string _ hread => exact hrenders.string hread
    | number hdigit =>
      have hne : dropBlanks (readDigits (c :: cs)).1 ≠ [] := by
        simp [readDigits, hdigit, dropBlanks, isBlank_of_isDigit hdigit]
      exact hrenders.number (readDigits_covers _) hne (isDigit_head?_readDigits _)
    | word _ hword hne => exact hrenders.word hword hne
    | letter hx hword => exact hrenders.letter hx hword
  | remark _ hfirst =>
    cases splitsOff_of_first hfirst with
    | rem _ hword =>
      refine ⟨[.word .REM, .comment _], rfl, ?_⟩
      rw [← (word?_append hword).1]
      exact .remark (squeezed_of_word?_rem hword) _

/-! ### Whole lines -/

/-- What stands at the front of a line that begins with no blank and no digit. -/
theorem fronted_of_head? (hlast : IsTrimmed cs) (hhead : ∀ c ∈ cs.head?, isBlank c = false)
    (hdigit : ∀ c ∈ (squeezed cs).head?, c.isDigit = false) : Fronted cs [] [] cs where
  text := hlast.dropLineEnd_eq
  front := by simp
  body := hhead
  split := readDigits_eq_nil (isDigit_head?_dropWhile hdigit)

/-- What stands at the front of a line that begins with digits and what is behind them. -/
theorem fronted_of_digits {digits : List Char} (hne : digits ≠ [])
    (hdigits : ∀ c ∈ digits, c.isDigit) (hlast : IsTrimmed (digits ++ cs))
    (hdigit : ∀ c ∈ (squeezed cs).head?, c.isDigit = false) :
    Fronted (digits ++ cs) [] digits cs where
  text := hlast.dropLineEnd_eq
  front := by simp
  body := by
    rw [List.head?_append_of_ne_nil _ hne]
    exact fun c hc => isBlank_of_isDigit (hdigits c (List.mem_of_head? hc))
  split := readDigits_digits hdigits (isDigit_head?_dropWhile hdigit)

/-- What stands at the front of a line that is written out: the digits of its number, if there are
    any. -/
theorem Renders.exists_fronted {digits : List Char} (h : Renders cs ks) (hlast : IsTrimmed cs)
    (hdigit : ∀ c ∈ (squeezed cs).head?, c.isDigit = false) (hdigits : ∀ c ∈ digits, c.isDigit) :
    ∃ more, Fronted (spaced ((numberTokens digits).map Token.kind ++ ks)) [] digits more ∧
      (more = spaced ks ∨ more = behind ks) := by
  have hdigit' := h.respelled.isDigit_head? hdigit
  unfold numberTokens
  split
  next hnil =>
    subst hnil
    exact ⟨_, fronted_of_head? (h.last hlast) h.head hdigit', .inl rfl⟩
  next hne =>
    have hspaced : spaced (.lineNumber (.ofList digits) :: ks) = digits ++ behind ks := by
      rw [spaced_cons (k := .lineNumber _) nofun]
      simp [Kind.display]
    have htrimmed : IsTrimmed (digits ++ behind ks) := by
      refine IsTrimmed.append (fun c hc => ?_) (isTrimmed_behind (h.last hlast))
      have hc := hdigits c (List.mem_of_getLast? hc)
      constructor <;> rintro rfl <;> cases hc
    refine ⟨behind ks, ?_, .inr rfl⟩
    rw [List.map_singleton, List.singleton_append, hspaced]
    exact fronted_of_digits hne hdigits htrimmed (by rwa [squeezed_behind])

/-- **Tokens written out again.**  Whatever text is scanned, the displays of its tokens but the end
of the line, with one space between them and none behind `REM`, are scanned as tokens of the same
kinds. -/
theorem scan_rendered {text : String} {ts : List Token} (h : scan text = .ok ts) :
    ∃ body last ts', ts = body ++ [last] ∧ last.kind = .endOfLine ∧
      scan (.ofList (spaced (body.map Token.kind))) = .ok ts' ∧
      ts'.map Token.kind = ts.map Token.kind := by
  obtain ⟨front, covers, rest, hfronted⟩ := exists_fronted text.toList
  have htrimmed : IsTrimmed rest := by
    have htext := isTrimmed_dropLineEnd text.toList
    rw [hfronted.text] at htext
    exact htext.right.right
  have hdigit : ∀ c ∈ (squeezed rest).head?, c.isDigit = false := by
    have hleft := isDigit_head?_readDigits (covers ++ rest)
    rwa [hfronted.split] at hleft
  obtain ⟨tokens, htokens, rfl⟩ := hfronted.exists_of_scan h
  obtain ⟨ks, hkinds, hrenders⟩ := (scansTo_iff.2 htokens).exists_renders
  obtain ⟨body, _, rfl, rfl, hend⟩ := List.map_eq_append_iff.1 hkinds
  obtain ⟨last, rfl, hlast⟩ := List.map_eq_singleton_iff.1 hend
  obtain ⟨more, hfronted', hmore⟩ := hrenders.exists_fronted htrimmed hdigit hfronted.isDigit
  rw [← List.map_append] at hfronted'
  obtain ⟨ts, hts, hkinds'⟩ : ∃ ts, scanFrom (LineNumber.ofText? (dropBlanks (dropBlanks covers)))
      (([] : List Char).length + (dropBlanks covers).length) more = .ok ts ∧
      ts.map Token.kind = body.map Token.kind ++ [.endOfLine] := by
    rcases hmore with rfl | rfl
    · exact hrenders.scanned _ _
    · exact hrenders.scanned_behind _ _
  refine ⟨numberTokens (dropBlanks covers) ++ body, last, _, by rw [List.append_assoc], hlast,
    hfronted'.ofList.scan_of_ok hts, ?_⟩
  rw [dropBlanks_dropBlanks, List.map_append, hkinds', List.map_append, List.map_append,
    List.map_singleton, hlast]

/-- The tokens of a number, `PRINT`, variables and relations that look otherwise when they are
    written out. -/
def shortPrint : List Token :=
  [⟨.lineNumber "10", "10", some 10, 0⟩, ⟨.word .PRINT, "Pr", some 10, 4⟩,
    ⟨.letter ((Letter.ofChar? 'p').getD default), "p", some 10, 7⟩,
    ⟨.operator (.relation .notEqual), "><", some 10, 8⟩,
    ⟨.operator (.relation .less), "<", some 10, 10⟩,
    ⟨.operator (.relation .equal), "=", some 10, 12⟩,
    ⟨.letter ((Letter.ofChar? 'P').getD default), "P", some 10, 13⟩,
    ⟨.word .RETURN, "RETURN", some 10, 14⟩, ⟨.endOfLine, "\n", some 10, 20⟩]

/-- They are written out with other spellings. -/
theorem scan_rendered_shortPrint :
    scan " 1 0Pr p><< =PRETURN\n" = .ok shortPrint ∧
      String.ofList (spaced (shortPrint.dropLast.map Token.kind)) = "10 PRINT P <> < = P RETURN" ∧
      ∃ body last ts', shortPrint = body ++ [last] ∧ last.kind = .endOfLine ∧
        scan (.ofList (spaced (body.map Token.kind))) = .ok ts' ∧
          ts'.map Token.kind = shortPrint.map Token.kind := by
  have hscan : scan " 1 0Pr p><< =PRETURN\n" = .ok shortPrint := by decide +kernel
  exact ⟨hscan, by decide +kernel, scan_rendered hscan⟩

end Token

end LineBasic
