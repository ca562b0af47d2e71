import LineBasic.Line
import LineBasic.Proofs.Statement.Reading

namespace LineBasic

/-!
# The grammar of lines

What a typed line must look like to be an entry, and which entry it is then:

* `Entry.Spelled` -- a number alone, a numbered statement, or a statement;
* `Token.lineNumber_eq_ok_iff` -- which digits at the front of a line are its number;
* `Statement.ofTokens_sound`, `Statement.ofTokens_complete` -- a body is a statement exactly if the
  grammar spells one;
* `Entry.line_grammar` -- a scanned line is an entry exactly if the grammar of lines spells one, and
  the entry is of the form that the grammar says.
-/

open LineBasic.Expr (NoTerm)
open Statement (Phrase Sequence Targets AtMostOne Remarked)
open Token (atEnd Body IsRow)

variable {t last : Token} {ts us body rest : List Token}

/-! ### Statements up to the end of the line -/

namespace Statement

/-- The parts of a sequence hold no token that may not stand inside a statement. -/
theorem Sequence.kind_ne {α : Type} {single : Token → Option (List α)} {value : Expr → α}
    {as : List α} {k : Kind} (hk : k ∈ [.endOfLine, .word .REM, .word .THEN])
    (hsingle : ∀ t as, single t = some as → t.kind ≠ k) (h : Sequence single value ts as) :
    ∀ t ∈ ts, t.kind ≠ k := by
  induction h with
  | nil => simp
  | single ht _ ih => exact List.forall_mem_cons.2 ⟨hsingle _ _ ht, ih⟩
  | value he _ ih => exact List.forall_mem_append.2 ⟨he.kind_ne hk, ih⟩

/-- The variables of an `INPUT` hold no token that may not stand inside a statement. -/
theorem Targets.kind_ne {targets : List Target} {k : Kind}
    (hk : k ∈ [.endOfLine, .word .REM, .word .THEN]) (h : Targets ts targets) :
    ∀ t ∈ ts, t.kind ≠ k := by
  simp only [List.mem_cons, List.not_mem_nil, or_false] at hk
  rcases hk with rfl | rfl | rfl <;> induction h <;> simp_all

/-- Where one kind may stand, no other does. -/
theorem AtMostOne.kind_ne {j k : Kind} (hk : j ≠ k) (h : AtMostOne j ts) :
    ∀ t ∈ ts, t.kind ≠ k := by
  cases h <;> simp_all

/-- What is a part of a `PRINT` by itself is no token that may not stand inside a statement. -/
theorem printSingle_kind_ne {k : Kind} (hk : k ∈ [.endOfLine, .word .REM, .word .THEN]) (t : Token)
    (items : List PrintItem) (h : printSingle t = some items) : t.kind ≠ k := by
  rintro rfl
  simp only [List.mem_cons, List.not_mem_nil, or_false] at hk
  rcases hk with hk | hk | hk <;> simp [printSingle, hk] at h

/-- Neither the end of the line nor, but for an `IF`, `THEN` is part of a statement. -/
theorem Phrase.kind_ne {s : Statement} {k : Kind} (hk : k = .endOfLine ∨ k = .word .THEN)
    (h : Phrase ts s) (hword : k = .word .THEN → s.word ≠ .IF) : ∀ t ∈ ts, t.kind ≠ k := by
  -- Neither is a token of any other kind.
  have ne : ∀ {t : Token} {j : Kind}, t.kind = j → j ≠ .endOfLine → j ≠ .word .THEN →
      t.kind ≠ k := by
    rintro t j rfl hend hthen rfl
    rcases hk with hk | hk
    · exact hend hk
    · exact hthen hk
  have hk' : k ∈ [.endOfLine, .word .REM, .word .THEN] := by rcases hk with rfl | rfl <;> simp
  induction h with
  | clear ht | halt ht | ret ht | printNothing ht | listWhole ht => simpa using ne ht nofun nofun
  | remark ht hc => simpa using ⟨ne ht nofun nofun, ne hc nofun nofun⟩
  | goto ht he | gosub ht he | listOnward ht he =>
    exact List.forall_mem_cons.2 ⟨ne ht nofun nofun, he.kind_ne hk'⟩
  | assign hx hq he =>
    simp only [List.forall_mem_cons]
    exact ⟨ne hx nofun nofun, ne hq nofun nofun, he.kind_ne hk'⟩
  | assignLet ht hx hq he =>
    simp only [List.forall_mem_cons]
    exact ⟨ne ht nofun nofun, ne hx nofun nofun, ne hq nofun nofun, he.kind_ne hk'⟩
  | printText ht hs hts hcolon =>
    simp only [List.forall_mem_cons, List.forall_mem_append]
    exact ⟨ne ht nofun nofun, ne hs nofun nofun, hts.kind_ne hk' (printSingle_kind_ne hk'),
      hcolon.kind_ne (by rcases hk with rfl | rfl <;> nofun)⟩
  | printValue ht he hts hcolon =>
    simp only [List.forall_mem_cons, List.forall_mem_append]
    exact ⟨ne ht nofun nofun, ⟨he.kind_ne hk', hts.kind_ne hk' (printSingle_kind_ne hk')⟩,
      hcolon.kind_ne (by rcases hk with rfl | rfl <;> nofun)⟩
  | listBetween ht hlow hc hhigh =>
    simp only [List.forall_mem_cons, List.forall_mem_append]
    exact ⟨ne ht nofun nofun, hlow.kind_ne hk', ne hc nofun nofun, hhigh.kind_ne hk'⟩
  | cond ht hl ho hr hthen _ ih =>
    have hthen' : k ≠ .word .THEN := fun hk => hword hk rfl
    simp only [List.forall_mem_cons, List.forall_mem_append]
    exact ⟨ne ht nofun nofun, hl.kind_ne hk', ne ho nofun nofun, hr.kind_ne hk',
      hthen.kind_ne hthen'.symm, ih fun hk => absurd hk hthen'⟩
  | input ht hts => exact List.forall_mem_cons.2 ⟨ne ht nofun nofun, hts.kind_ne hk'⟩
  | run ht hts _ =>
    have hmore := hts.kind_ne hk' fun t as h => ne (kind_of_runSingle h).1 nofun nofun
    exact List.forall_mem_cons.2 ⟨ne ht nofun nofun, hmore⟩

/-- The end of the line is no part of a statement. -/
theorem Phrase.kind_ne_endOfLine {s : Statement} (h : Phrase ts s) :
    ∀ t ∈ ts, t.kind ≠ .endOfLine :=
  h.kind_ne (.inl rfl) nofun

/-- In the body of a scanned line, every `REM` has its comment behind it. -/
theorem remarked_of_body (h : Body body) (hlast : last.kind = .endOfLine) :
    Remarked (body ++ [last]) := by
  induction h with
  | nil => simp [Remarked, hlast]
  | remark hr hc => simp [Remarked, hr, hc, hlast]
  | cons ht _ ih =>
    refine ⟨fun hk => ?_, ih⟩
    rw [hk] at ht
    cases ht

/-- A statement that is read from a row is spelled by it. -/
theorem ofTokens_sound {s : Statement} (hbody : Body body) (hlast : last.kind = .endOfLine)
    (h : ofTokens (body ++ [last]) = .ok s) : Phrase body s := by
  obtain ⟨⟨s', rest⟩, hread, hmore⟩ := bind_eq_ok.1 h
  obtain ⟨⟨⟩, hexpect, hs⟩ := bind_eq_ok.1 hmore
  obtain ⟨us, hus, hphrase⟩ := read_sound (remarked_of_body hbody hlast) hread
  have hend : atEnd rest := Token.atEnd_of_expectEnd hexpect
  cases hs
  rwa [← Token.eq_of_append_atEnd hbody.kind_ne_endOfLine hphrase.kind_ne_endOfLine hend hlast hus]

/-- From a row that spells a statement a statement is read. -/
theorem ofTokens_complete {s : Statement} (hlast : last.kind = .endOfLine) (h : Phrase body s) :
    ∃ s', ofTokens (body ++ [last]) = .ok s' := by
  have hend : atEnd [last] := by simp [atEnd, Token.isEndOfLine, hlast]
  obtain ⟨s', hread⟩ := read_complete h hend
  exact ⟨s', by simp [ofTokens, hread, Token.expectEnd, hend, bind, Except.bind, pure, Except.pure]⟩

end Statement

/-! ### Line numbers -/

/-- The number of a line is what its digits denote. -/
theorem Token.lineNumber_eq_ok_iff {digits : String} {n : Nat} (ht : t.kind = .lineNumber digits)
    (hne : digits.toList ≠ []) (hdigits : ∀ c ∈ digits.toList, c.isDigit) :
    t.lineNumber = .ok n ↔ n = Text.value digits.toList ∧ 1 ≤ n ∧ n ≤ LineNumber.last := by
  rw [Token.lineNumber, ht]
  simp only [LineNumber.ofText?_digits hne hdigits]
  by_cases hrange : 1 ≤ Text.value digits.toList ∧ Text.value digits.toList ≤ LineNumber.last
  · simp only [if_pos hrange, Except.ok.injEq]
    constructor
    · rintro rfl
      exact ⟨rfl, hrange⟩
    · rintro ⟨rfl, -⟩
      rfl
  · simp only [if_neg hrange]
    constructor
    · nofun
    · rintro ⟨rfl, hn⟩
      exact absurd hn hrange

/-! ### Lines -/

namespace Entry

/-- What an entry asks for, whatever its statement says beyond its word. -/
inductive Form where
  /-- Store a statement of a word under a number. -/
  | store (number : Nat) (word : Keyword)
  /-- Delete the line with a number. -/
  | delete (number : Nat)
  /-- Carry out a statement of a word. -/
  | direct (word : Keyword)
  deriving DecidableEq, Repr

/-- The form of an entry. -/
def form : Entry → Form
  | .store n s => .store n s.word
  | .delete n => .delete n
  | .direct s => .direct s.word

/-- The tokens of a line before its end, and the entry that they are. -/
inductive Spelled : List Token → Entry → Prop where
  | delete {t : Token} {digits : String} (ht : t.kind = .lineNumber digits)
      (hlow : 1 ≤ Text.value digits.toList) (hhigh : Text.value digits.toList ≤ 32767) :
      Spelled [t] (.delete (Text.value digits.toList))
  | store {t : Token} {digits : String} {ts : List Token} {s : Statement}
      (ht : t.kind = .lineNumber digits) (hlow : 1 ≤ Text.value digits.toList)
      (hhigh : Text.value digits.toList ≤ 32767) (hs : Phrase ts s) :
      Spelled (t :: ts) (.store (Text.value digits.toList) s)
  | direct {ts : List Token} {s : Statement} (hs : Phrase ts s) : Spelled ts (.direct s)

/-- No statement begins with the number of a line. -/
theorem not_phrase_of_lineNumber {digits : String} {s : Statement}
    (ht : t.kind = .lineNumber digits) :
    ¬ Phrase (t :: us) s := by
  intro hs
  obtain ⟨t', us', hts, hk⟩ := hs.cons
  obtain ⟨rfl, -⟩ := List.cons.inj hts
  rcases hk with hk | ⟨x, hk⟩ <;> rw [ht] at hk <;> cases hk

/-- All entries that a row spells have one form. -/
theorem Spelled.form_unique {entry entry' : Entry} (h : Spelled ts entry) (h' : Spelled ts entry') :
    entry.form = entry'.form := by
  -- Two statements that the same tokens spell begin with the same word.
  have word : ∀ {us : List Token} {s s' : Statement}, Phrase us s → Phrase us s' →
      s.word = s'.word := by
    intro us s s' hs hs'
    exact Option.some.inj (hs.leading.symm.trans hs'.leading)
  have nothing : ∀ {s : Statement}, ¬ Phrase [] s := by
    intro s hs
    obtain ⟨t, us, hts, -⟩ := hs.cons
    cases hts
  cases h with
  | delete ht =>
    cases h' with
    | delete ht' =>
      obtain ⟨rfl⟩ := Kind.lineNumber.inj (ht.symm.trans ht')
      rfl
    | store _ _ _ hs => exact absurd hs nothing
    | direct hs => exact absurd hs (not_phrase_of_lineNumber ht)
  | store ht _ _ hs =>
    cases h' with
    | delete => exact absurd hs nothing
    | store ht' _ _ hs' =>
      obtain ⟨rfl⟩ := Kind.lineNumber.inj (ht.symm.trans ht')
      simp only [form, word hs hs']
    | direct hs' => exact absurd hs' (not_phrase_of_lineNumber ht)
  | direct hs =>
    cases h' with
    | delete ht' => exact absurd hs (not_phrase_of_lineNumber ht')
    | store ht' => exact absurd hs (not_phrase_of_lineNumber ht')
    | direct hs' => simp only [form, word hs hs']

/-- The entry of a line without a number is its statement. -/
theorem ofTokens_plain (hbody : Body body) (hlast : last.kind = .endOfLine) :
    ofTokens (body ++ [last])
      = match Statement.ofTokens (body ++ [last]) with
        | .ok s => .ok (.direct s)
        | .error fault => .error fault.diagnostic := by
  cases body with
  | nil =>
    rw [List.nil_append, ofTokens]
    split
    next digits hk =>
      rw [hlast] at hk
      cases hk
    next => rfl
  | cons t body =>
    rw [List.cons_append, ofTokens]
    split
    next digits ht => exact absurd ht (hbody.kind_ne_lineNumber digits t List.mem_cons_self)
    next => rfl

/-- The entry that is read from a line is one that the grammar spells. -/
theorem ofTokens_sound {entry : Entry} (hrow : IsRow (ts ++ [last]))
    (h : ofTokens (ts ++ [last]) = .ok entry) : Spelled ts entry := by
  generalize hall : ts ++ [last] = tokens at hrow h
  -- Whether a row has a number is seen from its first token, and so is which branch reads it.
  cases hrow with
  | @numbered t last' digits body ht hne hdigits hbody hlast' =>
    obtain ⟨rfl, hl⟩ := List.append_inj' (hall.trans (List.cons_append).symm) rfl
    simp only [ofTokens, ht] at h
    split at h
    next => cases h
    next n hn =>
      obtain ⟨rfl, hlow, hhigh⟩ := (Token.lineNumber_eq_ok_iff ht hne hdigits).1 hn
      split at h
      next hend =>
        cases h
        cases body with
        | nil => exact .delete ht hlow hhigh
        | cons b body =>
          exact absurd (Statement.kind_of_atEnd hend) (hbody.kind_ne_endOfLine b List.mem_cons_self)
      next =>
        split at h
        next s hs =>
          cases h
          exact .store ht hlow hhigh (Statement.ofTokens_sound hbody hlast' hs)
        next => cases h
  | @plain last' body hbody hlast' =>
    obtain ⟨rfl, -⟩ := List.append_inj' hall rfl
    rw [ofTokens_plain hbody hlast'] at h
    split at h
    next s hs =>
      cases h
      exact .direct (Statement.ofTokens_sound hbody hlast' hs)
    next => cases h

/-- From every line that the grammar allows some entry is read. -/
theorem ofTokens_complete {entry : Entry} (hrow : IsRow (ts ++ [last])) (h : Spelled ts entry) :
    ∃ entry', ofTokens (ts ++ [last]) = .ok entry' := by
  generalize hall : ts ++ [last] = tokens at hrow
  cases hrow with
  | @numbered t last' digits body ht hne hdigits hbody hlast' =>
    obtain ⟨rfl, hl⟩ := List.append_inj' (hall.trans (List.cons_append).symm) rfl
    simp only [ofTokens, ht]
    cases h with
    | delete ht' hlow hhigh =>
      obtain ⟨rfl⟩ := Kind.lineNumber.inj (ht.symm.trans ht')
      rw [(Token.lineNumber_eq_ok_iff ht hne hdigits).2 ⟨rfl, hlow, hhigh⟩]
      exact ⟨_, by simp [atEnd, Token.isEndOfLine, hlast']; rfl⟩
    | store ht' hlow hhigh hs =>
      obtain ⟨rfl⟩ := Kind.lineNumber.inj (ht.symm.trans ht')
      rw [(Token.lineNumber_eq_ok_iff ht hne hdigits).2 ⟨rfl, hlow, hhigh⟩]
      obtain ⟨s', hs'⟩ := Statement.ofTokens_complete hlast' hs
      obtain ⟨b, bs, rfl, -⟩ := hs.cons
      have hend : ¬ atEnd (b :: bs ++ [last']) := fun hend =>
        hbody.kind_ne_endOfLine b List.mem_cons_self (Statement.kind_of_atEnd hend)
      simp only [hend, hs']
      exact ⟨_, rfl⟩
    | direct hs => exact absurd hs (not_phrase_of_lineNumber ht)
  | @plain last' body hbody hlast' =>
    obtain ⟨rfl, -⟩ := List.append_inj' hall rfl
    rw [ofTokens_plain hbody hlast']
    cases h with
    | delete ht => exact absurd ht (hbody.kind_ne_lineNumber _ _ List.mem_cons_self)
    | store ht => exact absurd ht (hbody.kind_ne_lineNumber _ _ List.mem_cons_self)
    | direct hs =>
      obtain ⟨s', hs'⟩ := Statement.ofTokens_complete hlast' hs
      exact ⟨.direct s', by rw [hs']⟩

/-- What a text is read as, once the space at its end is gone. -/
theorem ofText_eq_ok_iff {text : String} {entry : Entry} :
    ofText text = .ok entry ↔
      ∃ tokens, Token.scan (trimmed text) = .ok tokens ∧ ofTokens tokens = .ok entry := by
  rw [← bind_eq_ok, ofText]
  split
  next e he => simp [he]
  next d hd => simp [hd]

/-- **Entries are those of the grammar.**  In every text that is scanned there is a row of tokens
    before the end of the line.  An entry is read from it exactly if the grammar of lines spells
    one: a number to delete, a statement to store under its number, or a statement to carry out.
    What is read is spelled by the row, and all that the row spells has the same form.  A typed text
    is the entry of its scanned text without the space at its end. -/
theorem line_grammar {text : String} {tokens : List Token} (h : Token.scan text = .ok tokens) :
    ∃ row last, tokens = row ++ [last] ∧ (∀ t ∈ row, t.kind ≠ .endOfLine) ∧ last.kind = .endOfLine ∧
      (∀ entry, ofTokens tokens = .ok entry → Spelled row entry) ∧
      (∀ entry, Spelled row entry →
        ∃ entry', ofTokens tokens = .ok entry' ∧ entry'.form = entry.form) ∧
      ∀ typed entry, trimmed typed = text →
        (ofText typed = .ok entry ↔ ofTokens tokens = .ok entry) := by
  have hrow : IsRow tokens := Token.scan_isRow h
  obtain ⟨row, last, rfl, hbefore, hlast⟩ := hrow.exists_eq_append
  refine ⟨row, last, rfl, hbefore, hlast, fun entry => ofTokens_sound hrow, fun entry hentry => ?_,
    fun typed entry htyped => ?_⟩
  · obtain ⟨entry', hread⟩ := ofTokens_complete hrow hentry
    exact ⟨entry', hread, (ofTokens_sound hrow hread).form_unique hentry⟩
  · rw [ofText_eq_ok_iff, htyped, h]
    simp

/-- A numbered `IF` around a `PRINT` whose parts can be taken for two values or for one. -/
theorem line_grammar_juxtaposed : ∃ tokens row last,
    Token.scan "10 IF A<>0 PRINT A-B;:" = .ok tokens ∧ tokens = row ++ [last] ∧
      ∃ entry, ofTokens tokens = .ok entry ∧ Spelled row entry ∧ entry.form = .store 10 .IF := by
  have hread : ((Token.scan "10 IF A<>0 PRINT A-B;:").toOption.bind fun tokens =>
      (ofTokens tokens).toOption.map form) = some (.store 10 .IF) := by
    decide +kernel
  cases hscan : Token.scan "10 IF A<>0 PRINT A-B;:" with
  | error d => simp [hscan, Except.toOption] at hread
  | ok tokens =>
    obtain ⟨row, last, hrow, -, -, hsound, -⟩ := line_grammar hscan
    cases hentry : ofTokens tokens with
    | error d => simp [hscan, hentry, Except.toOption] at hread
    | ok entry =>
      have hform : entry.form = .store 10 .IF := by
        simpa [hscan, hentry, Except.toOption] using hread
      exact ⟨tokens, row, last, rfl, hrow, entry, hentry, hsound entry hentry, hform⟩

end Entry

end LineBasic
