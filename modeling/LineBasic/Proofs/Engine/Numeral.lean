import LineBasic.Proofs.Engine.Performed
import LineBasic.Proofs.Token.Offsets

namespace LineBasic

/-!
# Digits as values and as line numbers

A row of digits, of any length and with any leading zeros, denotes one number, and all that is made
of it goes back to this number: the value that it is worth in an expression, and the line that it
names, whether at the front of a line, in a token, or behind a `GOTO`.

* `Text.positional` -- the number that digits denote, by the places they stand at;
* `Text.value_eq_positional` -- reading the digits from left to right comes to this number;
* `wrappedValue_eq_steps` -- what digits are worth can be reckoned at 16 bits from the first digit
  on;
* `eq_wrappedValue_iff`, `toInt_wrappedValue` -- what digits are worth, by the number that they
  denote;
* `lineOf?` -- the line that digits name;
* `Token.lineNumber_digits`, `Token.scan_numbered`, `resolve_digits` -- the three places in which
  digits name a line;
* `ReadAlike`, `digits_readAlike` -- the main result, for all rows of digits.
-/

/-! ### The number that digits denote -/

namespace Text

/-- The number that a row of decimal digits denotes: each of them counts ten times as much as the
    one behind it. -/
def positional (digits : List Char) : Nat := Nat.ofDigits 10 (digits.reverse.map digit)

/-- One more digit at the end makes ten times the number, and itself. -/
theorem positional_append_singleton (digits : List Char) (c : Char) :
    positional (digits ++ [c]) = digit c + 10 * positional digits := by
  rw [positional, List.reverse_append, List.reverse_singleton, List.singleton_append, List.map_cons,
    Nat.ofDigits_cons, positional]

/-- Reading digits from left to right comes to the number that they denote. -/
theorem value_eq_positional (digits : List Char) : value digits = positional digits := by
  induction digits using List.reverseRecOn with
  | nil => rfl
  | append_singleton digits c ih =>
    rw [positional_append_singleton, ← ih, value, List.foldl_append]
    exact Nat.add_comm _ _

end Text

variable {d : String}

/-! ### Digits as values -/

/-- What digits are worth, if each of them in turn is added to ten times what those before it are
    worth, and each sum and product is wrapped. -/
def wrappedSteps (digits : List Char) : UInt16 :=
  digits.foldl (fun n c => n * 10 + .ofNat (Text.digit c)) 0

/-- Wrapping the number that digits denote is wrapping at every step. -/
theorem wrappedValue_eq_steps (d : String) :
    wrappedValue d = (wrappedSteps (d.toList.filter Char.isDigit)).toInt16 := by
  have hsteps : wrappedSteps (d.toList.filter Char.isDigit) =
      .ofNat (Text.value (d.toList.filter Char.isDigit)) :=
    List.foldl_hom UInt16.ofNat fun n c =>
      by rw [UInt16.ofNat_add, UInt16.ofNat_mul, UInt16.mul_comm]; rfl
  rw [hsteps, UInt16.toInt16_ofNat', wrappedValue]

/-- What digits are worth is the only value that differs from the number that they denote by a
    multiple of 2^16. -/
theorem eq_wrappedValue_iff (hdigits : ∀ c ∈ d.toList, c.isDigit) {k : Int16} :
    k = wrappedValue d ↔ k.toInt % 65536 = Text.positional d.toList % 65536 := by
  have hvalue : (wrappedValue d).toInt = (Text.positional d.toList : Int).bmod 65536 := by
    rw [wrappedValue, List.filter_eq_self.2 hdigits, Text.value_eq_positional, Int16.toInt_ofNat']
  have hlow : -32768 ≤ k.toInt := Int16.le_toInt k
  have hhigh : k.toInt < 32768 := Int16.toInt_lt k
  rw [← Int16.toInt_inj, hvalue, Int.bmod_def]
  split <;> omega

/-- Digits that denote a number of 15 bits are worth this number. -/
theorem toInt_wrappedValue (hdigits : ∀ c ∈ d.toList, c.isDigit) {n : Nat}
    (hn : Text.positional d.toList = n) (hhigh : n ≤ 32767) : (wrappedValue d).toInt = n := by
  have hlow : -32768 ≤ (wrappedValue d).toInt := Int16.le_toInt _
  have hbound : (wrappedValue d).toInt < 32768 := Int16.toInt_lt _
  have hvalue : (wrappedValue d).toInt % 65536 = Text.positional d.toList % 65536 :=
    (eq_wrappedValue_iff hdigits).1 rfl
  rw [hn] at hvalue
  omega

/-! ### Digits as line numbers -/

/-- The line that digits name: the one with the number that they denote, if a line can have this
    number. -/
def lineOf? (d : String) : Option Nat :=
  if 1 ≤ Text.positional d.toList ∧ Text.positional d.toList ≤ LineNumber.last then
    some (Text.positional d.toList)
  else none

/-- Digits name a line if their number is one that a line can have. -/
theorem lineOf?_eq_some_iff {n : Nat} :
    lineOf? d = some n ↔ Text.positional d.toList = n ∧ 1 ≤ n ∧ n ≤ LineNumber.last := by
  unfold lineOf?
  split
  next hrange =>
    rw [Option.some.injEq]
    exact ⟨fun h => ⟨h, h ▸ hrange⟩, And.left⟩
  next hrange => exact ⟨nofun, fun ⟨h, hn⟩ => absurd (h ▸ hn) hrange⟩

/-- The number of a line is read from digits as that of the line that they name. -/
theorem ofText?_eq_lineOf? (hne : d.toList ≠ []) (hdigits : ∀ c ∈ d.toList, c.isDigit) :
    LineNumber.ofText? d.toList = lineOf? d := by
  rw [LineNumber.ofText?_digits hne hdigits, Text.value_eq_positional]
  rfl

namespace Token

variable {t w last : Token} {text : String} {front covers rest : List Char}

/-- A token of digits denotes the line that they name, or else is out of range. -/
theorem lineNumber_digits (hne : d.toList ≠ []) (hdigits : ∀ c ∈ d.toList, c.isDigit)
    (ht : t.kind = .number d ∨ t.kind = .lineNumber d) : t.lineNumber =
      match lineOf? d with
      | some n => .ok n
      | none => .error ⟨.lineNumberRange d, t.span⟩ := by
  rw [← ofText?_eq_lineOf? hne hdigits]
  unfold lineNumber
  rcases ht with ht | ht <;> cases hline : LineNumber.ofText? d.toList <;> simp [ht, hline]

/-- The digits at the front of a text, whatever blanks stand before and between them. -/
def leading (text : String) : List Char := (dropBlanks text.toList).takeWhile Char.isDigit

/-- Nothing is taken from behind a text if nothing there can be taken. -/
theorem takeWhile_append_of_neg {p : Char → Bool} (cs : List Char) {ds : List Char}
    (h : ∀ c ∈ ds, p c = false) :
    (cs ++ ds).takeWhile p = cs.takeWhile p := by
  induction cs with
  | nil =>
    cases ds with
    | nil => rfl
    | cons d ds => exact List.takeWhile_cons_of_neg (by simp [h d])
  | cons c cs ih =>
    by_cases hc : p c
    · rw [List.cons_append, List.takeWhile_cons_of_pos hc, List.takeWhile_cons_of_pos hc, ih]
    · rw [List.cons_append, List.takeWhile_cons_of_neg hc, List.takeWhile_cons_of_neg hc]

/-- The number of a line is made of the digits at the front of its text. -/
theorem Fronted.dropBlanks_covers (h : Fronted text.toList front covers rest) :
    dropBlanks covers = leading text := by
  obtain ⟨lineEnd, htext, hend⟩ := exists_dropLineEnd_append text.toList
  have hfront : dropBlanks (dropLineEnd text.toList) = dropBlanks (covers ++ rest) := by
    rw [h.text, dropBlanks_append, dropBlanks_eq_nil h.front, List.nil_append]
  have hend : ∀ c ∈ dropBlanks lineEnd, c.isDigit = false := by
    intro c hc
    rcases hend c (List.mem_of_mem_filter hc) with rfl | rfl <;> rfl
  calc dropBlanks covers
      = (dropBlanks (covers ++ rest)).takeWhile Char.isDigit := by
        rw [← dropBlanks_readDigits, h.split]
    _ = (dropBlanks (dropLineEnd text.toList) ++ dropBlanks lineEnd).takeWhile Char.isDigit := by
      rw [takeWhile_append_of_neg _ hend, hfront]
    _ = leading text := by rw [← dropBlanks_append, htext, leading]

/-- All tokens of a line that begins with digits carry the line that these name, and so does the
    report if the line cannot be scanned. -/
theorem scan_numbered (hne : d.toList ≠ []) (hdigits : ∀ c ∈ d.toList, c.isDigit)
    (hleading : leading text = d.toList) :
    match scan text with
    | .ok ts => ts.head? = some ⟨.lineNumber d, d, lineOf? d, 0⟩ ∧ ∀ t ∈ ts, t.line = lineOf? d
    | .error diagnostic => diagnostic.line = lineOf? d := by
  obtain ⟨front, covers, rest, hfronted⟩ := exists_fronted text.toList
  have hcovers : dropBlanks covers = d.toList := hfronted.dropBlanks_covers.trans hleading
  rw [hfronted.scan_eq, hcovers, ofText?_eq_lineOf? hne hdigits]
  have hnumber : numberTokens d.toList = [⟨.lineNumber d, d, lineOf? d, 0⟩] := by
    rw [numberTokens, if_neg hne, String.ofList_toList, ofText?_eq_lineOf? hne hdigits]
  rw [hnumber]
  cases hscan : scanFrom (lineOf? d) (front.length + covers.length) rest with
  | error fault => rfl
  | ok tokens =>
    obtain ⟨body, rfl, hlie⟩ := (scansTo_iff.2 hscan).exists_lie
    refine ⟨rfl, List.forall_mem_append.2
      ⟨by simp, List.forall_mem_append.2 ⟨hlie.line_eq, by simp⟩⟩⟩

/-- Digits behind a `GOTO` or `GOSUB` are read as its target. -/
theorem ofTokens_jump {word : Keyword} (hword : word = .GOTO ∨ word = .GOSUB)
    (hw : w.kind = .word word) (ht : t.kind = .number d) (hlast : last.kind = .endOfLine) :
    ∃ statement, Statement.ofTokens [w, t, last] = .ok statement ∧
      statement.jump? = some (word, .int t.span (wrappedValue d)) := by
  have hend : atEnd [last] := by simp [atEnd, isEndOfLine, hlast]
  have hmore : atEnd [t, last] = false := by simp [atEnd, isEndOfLine, ht]
  have hread : Expr.read [t, last] = .ok (.int t.span (wrappedValue d), [last]) := by
    simp [Expr.read, Expr.operand, ht, Expr.operator, Expr.productOp?, Expr.sumOp?, hlast,
      Expr.closeSum, Expr.closeProduct, Expr.closeSigns, Expr.finish]
  have hjump : Statement.readJump word [t, last] = .ok (.int t.span (wrappedValue d), [last]) := by
    rw [Statement.readJump, hmore]
    exact hread
  have hof : ∀ statement, Statement.read [w, t, last] = .ok (statement, [last]) →
      Statement.ofTokens [w, t, last] = .ok statement := by
    intro statement hstatement
    simp [Statement.ofTokens, hstatement, expectEnd, hend, bind, Except.bind, pure, Except.pure]
  rcases hword with rfl | rfl
  · refine ⟨.goto w.span (.int t.span (wrappedValue d)), hof _ ?_, rfl⟩
    rw [Statement.read.eq_def]
    simp [hw, hjump, Except.map]
  · refine ⟨.gosub w.span (.int t.span (wrappedValue d)), hof _ ?_, rfl⟩
    rw [Statement.read.eq_def]
    simp [hw, hjump, Except.map]

end Token

namespace Engine

variable {γ : Type} [RandomSource γ]

/-- A target of digits is the stored line that they name. -/
theorem resolve_digits (hdigits : ∀ c ∈ d.toList, c.isDigit) {n : Nat} (hline : lineOf? d = some n)
    (word : Keyword) (span : Span) {s : Engine γ} (hstored : s.listing.contains n) :
    resolve word (.int span (wrappedValue d)) s = .ok n s := by
  obtain ⟨hn, hlow, hhigh⟩ := lineOf?_eq_some_iff.1 hline
  have hvalue : (wrappedValue d).toInt = n := toInt_wrappedValue hdigits hn hhigh
  have hnat : (wrappedValue d).toNatClampNeg = n := by
    rw [← Int16.toNat_toInt, hvalue]
    rfl
  have hone : 1 ≤ wrappedValue d := by
    rw [Int16.le_iff_toInt_le, hvalue]
    exact Int.ofNat_le.2 hlow
  have hcheck : (decide (1 ≤ wrappedValue d) && s.listing.contains (wrappedValue d).toNatClampNeg) =
      true := by
    rw [hnat, hstored, decide_eq_true hone]
    rfl
  calc resolve word (.int span (wrappedValue d)) s
      = .ok (wrappedValue d).toNatClampNeg s := by
        refine (bind_of_ok (evaluating_ok rfl)).trans ?_
        rw [get_bind, if_pos hcheck]
        rfl
    _ = .ok n s := by rw [hnat]

end Engine

/-! ### All readings -/

/-- What a row of digits is in all the places where it is read. -/
structure ReadAlike (d : String) : Prop where
  /-- It is worth the only value that differs from its number by a multiple of 2^16. -/
  value : ∀ k : Int16, k = wrappedValue d ↔ k.toInt % 65536 = Text.positional d.toList % 65536
  /-- So it is if every step is reckoned at 16 bits. -/
  steps : wrappedValue d = (wrappedSteps d.toList).toInt16
  /-- A token of these digits denotes the line that they name, and else is out of range. -/
  token : ∀ t : Token, t.kind = .number d ∨ t.kind = .lineNumber d → t.lineNumber =
    match lineOf? d with
    | some n => .ok n
    | none => .error ⟨.lineNumberRange d, t.span⟩
  /-- If a line begins with these digits, all that is scanned of it carries the line that they
      name. -/
  line : ∀ text, Token.leading text = d.toList →
    match Token.scan text with
    | .ok ts => ts.head? = some ⟨.lineNumber d, d, lineOf? d, 0⟩ ∧ ∀ t ∈ ts, t.line = lineOf? d
    | .error diagnostic => diagnostic.line = lineOf? d
  /-- If they name a line, they are worth its number. -/
  small : ∀ n, lineOf? d = some n → (wrappedValue d).toInt = n
  /-- As the target of a `GOTO` or `GOSUB` they are the stored line that they name. -/
  target : ∀ n, lineOf? d = some n →
    ∀ (word : Keyword) (w t last : Token), word = .GOTO ∨ word = .GOSUB →
    w.kind = .word word → t.kind = .number d → last.kind = .endOfLine →
    ∃ statement target, Statement.ofTokens [w, t, last] = .ok statement ∧
      statement.jump? = some (word, target) ∧
      ∀ (γ : Type) [RandomSource γ] (s : Engine γ), s.listing.contains n →
      Engine.resolve word target s = .ok n s

/-- **Main result.**  A row of digits is read alike wherever it stands. -/
theorem digits_readAlike (d : String) (hne : d ≠ "") (hdigits : ∀ c ∈ d.toList, c.isDigit) :
    ReadAlike d where
  value _ := eq_wrappedValue_iff hdigits
  steps := by
    have hall : d.toList.filter Char.isDigit = d.toList := List.filter_eq_self.2 hdigits
    rw [wrappedValue_eq_steps, hall]
  token _ ht := Token.lineNumber_digits (String.toList_eq_nil_iff.not.2 hne) hdigits ht
  line _ hleading := Token.scan_numbered (String.toList_eq_nil_iff.not.2 hne) hdigits hleading
  small n hline := by
    obtain ⟨hn, -, hhigh⟩ := lineOf?_eq_some_iff.1 hline
    exact toInt_wrappedValue hdigits hn hhigh
  target n hline word w t last hword hw ht hlast := by
    obtain ⟨statement, hstatement, hjump⟩ := Token.ofTokens_jump hword hw ht hlast
    exact ⟨statement, _, hstatement, hjump, fun γ _ s hstored =>
      Engine.resolve_digits hdigits hline word t.span hstored⟩

/-- Digits that wrap around, and digits with leading zeros. -/
theorem digits_readAlike_zeros : ReadAlike "0065537" ∧ ReadAlike "00100" ∧
    lineOf? "0065537" = none ∧ wrappedValue "0065537" = 1 ∧ lineOf? "00100" = some 100 :=
  ⟨digits_readAlike "0065537" (by simp) (by simp), digits_readAlike "00100" (by simp) (by simp),
    by decide +kernel, by decide +kernel, by decide +kernel⟩

end LineBasic
