import LineBasic.Proofs.Line.Rendered

namespace LineBasic.Token

/-!
# Stretches of text

The scanner goes through a text from left to right, but it looks ahead: for more digits, for the
letters of a word, for the second character of a relation.  So a stretch of text has its tokens only
together with the text that stands behind it.

* `Stretch` -- the tokens of a stretch with a certain text behind it;
* `exists_stretch`, `stretch_of_scanFrom` -- a scanned text is cut before any of its tokens, or is a
  whole stretch;
* `Stretch.scanFrom_eq` -- scanning goes on behind a stretch;
* `symbol?_append_right`, `readDigits_append_right`, `word?_append_right` -- when a split does not
  depend on the text that stands behind;
* `BeginsApart`, `Stretch.change` -- a stretch has the same tokens in front of another text that
  none of its numbers, relations and words goes on in;
* `fronted_change`, `scan_append` -- the same for the front of a line, and for a line as a whole.
-/

variable {c : Char} {cs covers rest rest' word : List Char} {p : Piece} {t last : Token}
  {ts before behind : List Token} {line : Option Nat} {column : Nat}

/-- The tokens of a stretch of text, from a column on, that is scanned with another text behind
    it. -/
inductive Stretch (line : Option Nat) (rest : List Char) : Nat → List Char → List Token → Prop where
  | nil (column : Nat) : Stretch line rest column [] []
  | blank {c : Char} {cs : List Char} {ts : List Token} {column : Nat} (hc : isBlank c)
      (h : Stretch line rest (column + 1) cs ts) : Stretch line rest column (c :: cs) ts
  | token {c : Char} {covers cs : List Char} {p : Piece} {ts : List Token} {column : Nat}
      (hc : isBlank c = false) (hcovers : p.covers = c :: covers)
      (hfirst : first column c (covers ++ (cs ++ rest)) = .ok ([p], cs ++ rest))
      (h : Stretch line rest (column + p.covers.length) cs ts) :
      Stretch line rest column (c :: (covers ++ cs)) (⟨p.kind, p.lexeme, line, column⟩ :: ts)

/-! ### Cutting a text -/

/-- The first token of a text that begins with no blank is the first piece that is split off. -/
theorem splitsOff_of_scanFrom (hc : isBlank c = false)
    (h : scanFrom line column (c :: cs) = .ok (t :: ts)) :
    ∃ p pieces rest, SplitsOff c cs (p :: pieces) rest ∧ t = ⟨p.kind, p.lexeme, line, column⟩ ∧
      (pieces = [] → scanFrom line (column + p.covers.length) rest = .ok ts) := by
  cases scansTo_iff.2 h with
  | blank hblank => simp [hc] at hblank
  | piece _ hfirst _ hmore =>
    exact ⟨_, [], _, splitsOff_of_first hfirst, rfl, fun _ => scansTo_iff.1 hmore⟩
  | remark _ hfirst => exact ⟨_, [_], [], splitsOff_of_first hfirst, rfl, nofun⟩

/-- The piece that a text begins with covers its first character. -/
theorem exists_covers (h : first column c cs = .ok ([p], rest)) :
    ∃ covers, p.covers = c :: covers ∧ cs = covers ++ rest := by
  obtain ⟨happend, hne⟩ := first_covers h
  rw [covered_singleton] at happend hne
  obtain ⟨d, covers, hcovers⟩ := List.exists_cons_of_ne_nil hne
  rw [hcovers] at happend
  obtain ⟨rfl, rfl⟩ := List.cons.inj happend
  exact ⟨covers, hcovers, rfl⟩

/-- The tokens of a text are scanned from behind its blanks. -/
theorem exists_front (ht : t.kind ≠ .endOfLine) (h : scanFrom line column cs = .ok (t :: ts)) :
    ∃ front c rest, cs = front ++ c :: rest ∧ (∀ d ∈ front, isBlank d) ∧ isBlank c = false ∧
      scanFrom line (column + front.length) (c :: rest) = .ok (t :: ts) := by
  induction cs generalizing column with
  | nil =>
    rw [scanFrom_nil] at h
    cases h
    exact absurd rfl ht
  | cons c cs ih =>
    by_cases hc : isBlank c
    · rw [scanFrom_of_isBlank hc] at h
      obtain ⟨front, d, rest, rfl, hfront, hd, hscan⟩ := ih h
      rw [Nat.add_right_comm] at hscan
      exact ⟨c :: front, d, rest, rfl, List.forall_mem_cons.2 ⟨hc, hfront⟩, hd, hscan⟩
    · exact ⟨[], c, cs, rfl, by simp, by simpa using hc, h⟩

/-- A scanned text can be cut before any of its tokens. -/
theorem exists_stretch (ht : isPlain t.kind)
    (h : scanFrom line column cs = .ok (before ++ t :: behind)) :
    ∃ front c rest, cs = front ++ c :: rest ∧ isBlank c = false ∧ t.column = column + front.length ∧
      Stretch line (c :: rest) column front before ∧
      scanFrom line t.column (c :: rest) = .ok (t :: behind) := by
  obtain ⟨ts, hts⟩ : ∃ ts, ts = before ++ t :: behind := ⟨_, rfl⟩
  rw [← hts, ← scansTo_iff] at h
  induction h generalizing before with
  | finish column =>
    obtain ⟨-, hlast⟩ := (List.append_eq_singleton_iff.1 hts.symm).resolve_right (by simp)
    obtain ⟨rfl, -⟩ := List.cons.inj hlast
    cases ht
  | @blank column c cs ts hc _ ih =>
    obtain ⟨front, d, rest, rfl, hd, hcolumn, hstretch, hscan⟩ := ih hts
    exact ⟨c :: front, d, rest, rfl, hd, by simp [hcolumn, Nat.add_assoc, Nat.add_comm 1],
      .blank hc hstretch, hscan⟩
  | @piece column c cs rest p ts hc hfirst hp hmore ih =>
    cases before with
    | nil =>
      obtain ⟨rfl, rfl⟩ := List.cons.inj hts
      exact ⟨[], c, cs, rfl, hc, rfl, .nil column, scansTo_iff.1 (.piece hc hfirst hp hmore)⟩
    | cons b before =>
      obtain ⟨rfl, rfl⟩ := List.cons.inj hts
      obtain ⟨front, d, rest', rfl, hd, hcolumn, hstretch, hscan⟩ := ih rfl
      obtain ⟨covers, hcovers, rfl⟩ := exists_covers hfirst
      refine ⟨c :: (covers ++ front), d, rest', by simp, hd, ?_,
        .token hc hcovers hfirst hstretch, hscan⟩
      rw [hcolumn, hcovers, Nat.add_assoc, ← List.length_append, List.cons_append]
  | remark _ _ hr hp =>
    -- Neither `REM` nor its comment is what the text is cut before, and behind them there is only
    -- the end of the line.
    have hmem : t ∈ before ++ t :: behind := by simp
    rw [← hts] at hmem
    simp only [List.mem_cons, List.not_mem_nil, or_false] at hmem
    rcases hmem with rfl | rfl | rfl <;> simp_all [isPlain]

/-- A scanned text without `REM` is a stretch with nothing behind it. -/
theorem stretch_of_scanFrom (h : scanFrom line column cs = .ok (ts ++ [last]))
    (hrem : ∀ t ∈ ts, t.kind ≠ .word .REM) :
    Stretch line [] column cs ts := by
  obtain ⟨row, hrow⟩ : ∃ row, row = ts ++ [last] := ⟨_, rfl⟩
  rw [← hrow, ← scansTo_iff] at h
  induction h generalizing ts with
  | finish column =>
    obtain ⟨rfl, -⟩ := (List.append_eq_singleton_iff.1 hrow.symm).resolve_right (by simp)
    exact .nil column
  | blank hc _ ih => exact .blank hc (ih hrem hrow)
  | @piece column c cs rest p row hc hfirst _ hmore ih =>
    -- The end of the line comes last, so the rest of the row is what has been split off and the
    -- tokens behind it.
    obtain ⟨body, last', rfl, -⟩ := hmore.exists_body
    rw [← List.cons_append] at hrow
    obtain ⟨rfl, hlast⟩ := List.append_inj' hrow rfl
    obtain ⟨covers, hcovers, rfl⟩ := exists_covers hfirst
    have hstretch := ih (fun t ht => hrem t (List.mem_cons_of_mem _ ht)) (by rw [hlast])
    rw [← List.append_nil rest] at hfirst
    exact .token hc hcovers hfirst hstretch
  | remark _ _ hr =>
    have hrow : [_, _] ++ [_] = ts ++ [last] := hrow
    obtain ⟨rfl, -⟩ := List.append_inj' hrow rfl
    exact absurd hr (hrem _ List.mem_cons_self)

namespace Stretch

/-- Scanning goes on behind a stretch. -/
theorem scanFrom_eq (h : Stretch line rest column cs ts) :
    scanFrom line column (cs ++ rest) =
      (scanFrom line (column + cs.length) rest).map (ts ++ ·) := by
  induction h with
  | nil column => cases hscan : scanFrom line column rest <;> simp [hscan, Except.map]
  | @blank c cs ts column hc _ ih =>
    rw [List.cons_append, scanFrom_of_isBlank hc, ih, List.length_cons, Nat.add_assoc,
      Nat.add_comm 1]
  | @token c covers cs p ts column hc hcovers hfirst _ ih =>
    have hlength : column + (c :: (covers ++ cs)).length = column + p.covers.length +
        cs.length := by
      rw [hcovers, Nat.add_assoc, ← List.length_append, List.cons_append]
    rw [List.cons_append, List.append_assoc, scanFrom_of_first hc hfirst, covered_singleton,
      ih, hlength]
    cases scanFrom line (column + p.covers.length + cs.length) rest <;> rfl

/-- One stretch can stand behind another. -/
theorem append {ds : List Char} {us : List Token} (h : Stretch line (ds ++ rest) column cs ts)
    (h' : Stretch line rest (column + cs.length) ds us) :
    Stretch line rest column (cs ++ ds) (ts ++ us) := by
  induction h with
  | nil => exact h'
  | @blank c cs ts column hc _ ih =>
    rw [List.length_cons, Nat.add_comm cs.length, ← Nat.add_assoc] at h'
    exact .blank hc (ih h')
  | @token c covers cs p ts column hc hcovers hfirst _ ih =>
    have hlength : column + (c :: (covers ++ cs)).length = column + p.covers.length +
        cs.length := by
      rw [hcovers, Nat.add_assoc, ← List.length_append, List.cons_append]
    rw [hlength] at h'
    rw [List.cons_append, List.append_assoc]
    exact .token hc hcovers (by rwa [List.append_assoc]) (ih h')

/-- A stretch of blanks has no tokens. -/
theorem of_blanks (h : ∀ c ∈ cs, isBlank c) (column : Nat) : Stretch line rest column cs [] := by
  induction cs generalizing column with
  | nil => exact .nil column
  | cons c cs ih =>
    obtain ⟨hc, hcs⟩ := List.forall_mem_cons.1 h
    exact .blank hc (ih hcs _)

/-- A stretch without tokens is blank. -/
theorem isBlank_of_nil (h : Stretch line rest column cs []) : ∀ c ∈ cs, isBlank c := by
  generalize hts : ([] : List Token) = ts at h
  induction h with
  | nil => simp
  | blank hc _ ih => exact List.forall_mem_cons.2 ⟨hc, ih hts⟩
  | token => cases hts

/-- A stretch with tokens is not blank. -/
theorem squeezed_ne_nil (h : Stretch line rest column cs ts) (hts : ts ≠ []) :
    squeezed cs ≠ [] := by
  induction h with
  | nil => exact absurd rfl hts
  | blank hc _ ih =>
    rw [squeezed_of_isBlank hc]
    exact ih hts
  | token hc =>
    rw [squeezed_cons hc]
    exact List.cons_ne_nil _ _

end Stretch

/-! ### Splits that do not depend on what is behind -/

/-- An operator or a mark is the same in front of another text, unless a relation goes on with
    that. -/
theorem symbol?_append_right (h : symbol? c (covers ++ rest) = some (p, rest))
    (hp : p.covers = c :: covers)
    (hrest : ∀ d ∈ rest'.head?, d ∈ rest.head? ∨ d ∉ ['=', '<', '>']) :
    symbol? c (covers ++ rest') = some (p, rest') := by
  have other : ∀ {d e : Char} {more : List Char}, d ∈ ['=', '<', '>'] →
      (∀ more, rest = d :: more → False) → rest' = e :: more → e ≠ d := by
    intro d e more hd hnot hmore heq
    subst heq
    rcases hrest e (by rw [hmore]; rfl) with hhead | hnone
    · obtain ⟨tail, htail⟩ := List.head?_eq_some_iff.1 hhead
      exact hnot tail htail
    · exact hnone hd
  generalize hall : covers ++ rest = all at h
  unfold symbol? at h
  split at h
  case h_11 | h_12 | h_13 | h_14 =>
    cases h
    obtain rfl : covers = [_] := (List.cons.inj hp).2.symm
    rfl
  case h_15 hequal hgreater | h_16 hequal hgreater =>
    -- A relation of one character has no second one behind it.
    cases h
    obtain rfl : covers = [] := (List.cons.inj hp).2.symm
    cases hmore : rest' with
    | nil => rfl
    | cons d more => simp [symbol?, other (by simp) hequal hmore, other (by simp) hgreater hmore]
  case h_17 => cases h
  all_goals
    cases h
    obtain rfl : covers = [] := (List.cons.inj hp).2.symm
    rfl

/-- A number ends in front of any text that does not begin with a digit. -/
theorem readDigits_append_right (h : readDigits (covers ++ rest) = (covers, rest))
    (hrest : ∀ c ∈ (squeezed rest').head?, c.isDigit = false) :
    readDigits (covers ++ rest') = (covers, rest') := by
  induction covers with
  | nil => exact readDigits_eq_nil (isDigit_head?_dropWhile hrest)
  | cons c covers ih =>
    have hmore : readDigits (covers ++ rest) = (covers, rest) := by
      rw [List.cons_append, readDigits] at h
      split at h
      next => simpa [Prod.ext_iff] using h
      next =>
        split at h
        next =>
          split at h
          next => cases h
          next hsplit =>
            rw [hsplit]
            simpa [Prod.ext_iff] using h
        next => cases h
    have hmore' := ih hmore
    rw [List.cons_append, readDigits] at h ⊢
    rw [hmore] at h
    rw [hmore']
    cases covers with
    | nil => split at h <;> simp_all
    | cons d covers => split at h <;> simp_all

/-- Whether the letters at the end of a text do not go on behind it: it has a character that is
    neither a blank nor a letter, or the text behind it begins with none. -/
def LettersEnd (cs rest : List Char) : Prop :=
  (∃ d ∈ squeezed cs, d.isAlpha = false) ∨ ∀ d ∈ (squeezed rest).head?, d.isAlpha = false

/-- The letters of a spelling do not reach behind a text where its letters end. -/
theorem spell_append_right (hword : ∀ w ∈ word, w.isAlpha) (h : LettersEnd cs rest) :
    spell word (cs ++ rest) = (spell word cs).map fun (covers, more) => (covers, more ++ rest) := by
  unfold LettersEnd at h
  fun_induction spell word cs with
  | case1 => simp [spell]
  | case2 w word =>
    have hrest : ∀ d ∈ (squeezed rest).head?, d.isAlpha = false := by simpa using h
    have hnone : spell (w :: word) rest = none := by
      refine Option.not_isSome_iff_eq_none.1 fun hsome => ?_
      obtain ⟨more, hmore⟩ := (isSome_spell_iff (w :: word) rest hword).1 hsome
      have hnot := hrest w (by rw [← hmore]; rfl)
      rw [hword w List.mem_cons_self] at hnot
      cases hnot
    rw [List.nil_append, hnone]
    rfl
  | case3 w word c cs hb ih =>
    rw [squeezed_of_isBlank hb] at h
    rw [List.cons_append, spell, if_pos hb, ih hword h, Option.map_map, Option.map_map]
    rfl
  | case4 w word c cs hb hw ih =>
    obtain ⟨halpha, hword⟩ := List.forall_mem_cons.1 hword
    have hc : isBlank c = false := by simpa using hb
    -- What is spelled is a letter, so it is not what ends the letters.
    have hmore : (∃ d ∈ squeezed cs, d.isAlpha = false) ∨
        ∀ d ∈ (squeezed rest).head?, d.isAlpha = false := by
      rcases h with ⟨d, hd, hnot⟩ | hrest
      · rw [squeezed_cons hc, List.mem_cons] at hd
        rcases hd with rfl | hd
        · rw [beq_iff_eq.1 hw, halpha] at hnot
          cases hnot
        · exact .inl ⟨d, hd, hnot⟩
      · exact .inr hrest
    rw [List.cons_append, spell, if_neg hb, if_pos hw, ih hword hmore, Option.map_map,
      Option.map_map]
    rfl
  | case5 w word c cs hb hw =>
    rw [List.cons_append, spell, if_neg hb, if_neg hw]
    rfl

/-- The words of letters do not reach behind a text where its letters end. -/
theorem findWord_append_right {others : List (String × Option Keyword)}
    (hothers : ∀ entry ∈ others, ∀ c ∈ entry.1.toList, c.isAlpha) (h : LettersEnd cs rest) :
    findWord (cs ++ rest) others =
      (findWord cs others).map fun (word, covers, more) => (word, covers, more ++ rest) := by
  induction others with
  | nil => rfl
  | cons entry others ih =>
    obtain ⟨hentry, hothers⟩ := List.forall_mem_cons.1 hothers
    rw [findWord, findWord, spell_append_right hentry h]
    cases spell entry.1.toList cs with
    | none => exact ih hothers
    | some split => cases entry.2 <;> rfl

/-- Neither do those of a reserved word. -/
theorem word?_append_right (h : LettersEnd cs rest) :
    word? (cs ++ rest) = (word? cs).map fun (word, covers, more) => (word, covers, more ++ rest) :=
  findWord_append_right (fun entry hentry => by
    obtain ⟨w, tail, -, halpha, -⟩ := tail_of_mem_spellings entry hentry
    exact halpha) h

/-! ### Another text behind a stretch -/

/-- A text that begins, behind its blanks, with nothing that a number or a relation goes on with. -/
def BeginsApart (cs : List Char) : Prop :=
  ∀ d ∈ (squeezed cs).head?, d.isDigit = false ∧ d ∉ ['=', '<', '>']

/-- A text that begins apart does not begin with the rest of a relation. -/
theorem BeginsApart.head? (h : BeginsApart cs) : ∀ d ∈ cs.head?, d ∉ ['=', '<', '>'] := by
  intro d hd hmem
  obtain ⟨tail, rfl⟩ := List.head?_eq_some_iff.1 hd
  refine (h d.toUpper (by rw [squeezed_cons (isBlank_of_mem_relation hmem)]; rfl)).2 ?_
  simp only [List.mem_cons, List.not_mem_nil, or_false] at hmem
  rcases hmem with rfl | rfl | rfl <;> decide

/-- A text that begins with a letter, behind its blanks. -/
def BeginsWithLetter (cs : List Char) : Prop := ∀ d ∈ (squeezed cs).head?, d.isAlpha

/-- A letter goes on neither a number nor a relation. -/
theorem BeginsWithLetter.beginsApart (h : BeginsWithLetter cs) : BeginsApart cs := by
  intro d hd
  have halpha := h d hd
  refine ⟨isDigit_of_isAlpha halpha, fun hmem => ?_⟩
  simp only [List.mem_cons, List.not_mem_nil, or_false] at hmem
  rcases hmem with rfl | rfl | rfl <;> cases halpha

namespace Stretch

/-- The first piece of a stretch is the same in front of another text that it does not go on in. -/
theorem first_append_right
    (hfirst : first column c (covers ++ (cs ++ rest)) = .ok ([p], cs ++ rest))
    (hcovers : p.covers = c :: covers) (hletters : LettersEnd (c :: (covers ++ cs)) rest)
    (hletters' : LettersEnd (c :: (covers ++ cs)) rest') (hrest : BeginsApart rest') :
    first column c (covers ++ (cs ++ rest')) = .ok ([p], cs ++ rest') := by
  -- A word is looked for in the stretch alone.
  have hword : ∀ {more}, LettersEnd (c :: (covers ++ cs)) more →
      word? (c :: (covers ++ (cs ++ more))) =
      (word? (c :: (covers ++ cs))).map fun (w, us, vs) => (w, us, vs ++ more) := fun hmore => by
    simpa using word?_append_right hmore
  obtain ⟨pieces, hpieces⟩ : ∃ pieces, pieces = [p] := ⟨_, rfl⟩
  obtain ⟨more, hmore⟩ : ∃ more, more = cs ++ rest := ⟨_, rfl⟩
  have hsplit : SplitsOff c (covers ++ (cs ++ rest)) pieces more := by
    rw [hpieces, hmore]
    exact splitsOff_of_first hfirst
  cases hsplit with
  | symbol hsymbol =>
    cases hpieces
    rw [hmore] at hsymbol
    refine first_of_symbol (symbol?_append_right hsymbol hcovers fun d hd => ?_) column
    cases cs with
    | nil => exact .inr (hrest.head? d hd)
    | cons e cs => exact .inl hd
  | string hc hread =>
    cases hpieces
    obtain ⟨rfl, rfl⟩ := List.cons.inj hcovers
    have hread' := readString_append_quote (notMem_of_readString hread) (cs ++ rest')
    simp [first, symbol?, hread']
  | number hc =>
    cases hpieces
    have hread : readDigits (c :: covers ++ (cs ++ rest)) = (c :: covers, cs ++ rest) :=
      Prod.ext hcovers hmore
    have hdigit : ∀ d ∈ (squeezed (cs ++ rest')).head?, d.isDigit = false := by
      have hleft := isDigit_head?_readDigits (c :: covers ++ (cs ++ rest))
      rw [hread, squeezed_append] at hleft
      rw [squeezed_append]
      cases hcs : squeezed cs with
      | nil => exact fun d hd => (hrest d hd).1
      | cons d ds => simpa [hcs] using hleft
    have hread' := readDigits_append_right hread hdigit
    have hfirst' := first_of_isDigit hc column (covers ++ (cs ++ rest'))
    rw [← List.cons_append, hread'] at hfirst'
    rw [hfirst', ← List.cons_append, hread]
  | word hc hfound hne =>
    cases hpieces
    rw [hword hletters] at hfound
    obtain ⟨⟨w, us, vs⟩, hfound', heq⟩ := Option.map_eq_some_iff.1 hfound
    simp only [hmore, Prod.mk.injEq, List.append_cancel_right_eq] at heq
    obtain ⟨rfl, rfl, rfl⟩ := heq
    exact first_of_word hc (by rw [hword hletters', hfound']; rfl) hne column
  | rem => cases hpieces
  | letter hx hfound =>
    cases hpieces
    obtain rfl : covers = [] := (List.cons.inj hcovers).2.symm
    rw [hword hletters, Option.map_eq_none_iff] at hfound
    exact first_of_letter hx (by rw [hword hletters', hfound]; rfl) column

/-- **Another text behind a stretch.**  A stretch has the same tokens in front of another text, if
    no number and no relation goes on in that, and if the stretch does not end with a letter or
    neither text begins with one. -/
theorem change (h : Stretch line rest column cs ts)
    (hletters : (∀ d ∈ (squeezed cs).getLast?, d.isAlpha = false) ∨
      ∀ d, d ∈ (squeezed rest).head? ∨ d ∈ (squeezed rest').head? → d.isAlpha = false)
    (hrest : BeginsApart rest') : Stretch line rest' column cs ts := by
  induction h with
  | nil column => exact .nil column
  | blank hc _ ih =>
    rw [squeezed_of_isBlank hc] at hletters
    exact .blank hc (ih hletters)
  | @token c covers cs p ts column hc hcovers hfirst _ ih =>
    have hne : squeezed (c :: (covers ++ cs)) ≠ [] := by simp [squeezed_cons hc]
    have happend : squeezed (c :: (covers ++ cs)) = squeezed (c :: covers) ++ squeezed cs :=
      squeezed_append (c :: covers) cs
    rcases hletters with hlast | hnone
    · have hend : ∃ d ∈ squeezed (c :: (covers ++ cs)), d.isAlpha = false :=
        ⟨_, List.getLast_mem hne, hlast _ (List.getLast?_eq_some_getLast hne)⟩
      refine .token hc hcovers (first_append_right hfirst hcovers (.inl hend) (.inl hend) hrest)
        (ih (.inl fun d hd => hlast d ?_))
      rw [happend, List.getLast?_append, Option.mem_def.1 hd]
      rfl
    · exact .token hc hcovers
        (first_append_right hfirst hcovers (.inr fun d hd => hnone d (.inl hd))
        (.inr fun d hd => hnone d (.inr hd)) hrest) (ih (.inr hnone))

end Stretch

/-! ### The end of a stretch -/

/-- Whether a token of a kind has no letters: a number, an operator or a mark. -/
def isSign : Kind → Bool
  | .number _ => true
  | k => isSymbol k

/-- A token without letters covers none. -/
theorem isAlpha_of_isSign (h : first column c cs = .ok ([p], rest)) (hp : isSign p.kind) :
    ∀ d ∈ squeezed p.covers, d.isAlpha = false := by
  obtain ⟨pieces, hpieces⟩ : ∃ pieces, pieces = [p] := ⟨_, rfl⟩
  have hsplit : SplitsOff c cs pieces rest := by
    rw [hpieces]
    exact splitsOff_of_first h
  cases hsplit with
  | symbol hsymbol =>
    cases hpieces
    unfold symbol? at hsymbol
    split at hsymbol <;> cases hsymbol <;> simp [squeezed, dropBlanks, isBlank]
  | number hc =>
    cases hpieces
    rw [squeezed_of_digits (readDigits_covers _)]
    intro d hd
    have hdigit : d.isDigit := isDigit_of_mem_dropBlanks hd
    exact Bool.eq_false_iff.2 fun halpha => by simp [isDigit_of_isAlpha halpha] at hdigit
  | string | word | letter =>
    cases hpieces
    cases hp
  | rem => cases hpieces

/-- A stretch ends, but for blanks, with its last token. -/
theorem Stretch.getLast?_squeezed (h : Stretch line rest column cs (ts ++ [t]))
    (ht : isSign t.kind) :
    ∃ d, (squeezed cs).getLast? = some d ∧ d.isAlpha = false := by
  generalize hall : ts ++ [t] = all at h
  induction h generalizing ts with
  | nil => simp at hall
  | blank hc _ ih =>
    rw [squeezed_of_isBlank hc]
    exact ih hall
  | @token c covers cs p us column hc hcovers hfirst hmore ih =>
    have happend : squeezed (c :: (covers ++ cs)) = squeezed p.covers ++ squeezed cs := by
      rw [hcovers]
      exact squeezed_append (c :: covers) cs
    have hne : squeezed p.covers ≠ [] := by simp [hcovers, squeezed_cons hc]
    rw [happend]
    cases ts with
    | nil =>
      obtain ⟨rfl, rfl⟩ := List.cons.inj hall
      rw [squeezed_eq_nil hmore.isBlank_of_nil, List.append_nil]
      exact ⟨_, List.getLast?_eq_some_getLast hne,
        isAlpha_of_isSign hfirst ht _ (List.getLast_mem hne)⟩
    | cons t' ts =>
      obtain ⟨-, htail⟩ := List.cons.inj hall
      obtain ⟨d, hd, halpha⟩ := ih htail
      exact ⟨d, by rw [List.getLast?_append, hd]; rfl, halpha⟩

/-! ### Whole lines -/

/-- The front of a line is the same with another text at the end of the line. -/
theorem fronted_change {front digits u w w' : List Char} (h : Fronted cs front digits (u ++ w))
    (hne : squeezed (digits ++ u) ≠ [])
    (hdigit : squeezed u = [] → ∀ d ∈ (squeezed w').head?, d.isDigit = false)
    (htrim : IsTrimmed (front ++ (digits ++ (u ++ w')))) :
    Fronted (front ++ (digits ++ (u ++ w'))) front digits (u ++ w') := by
  have hne' : digits ++ u ≠ [] := fun hnil => hne (by rw [hnil]; rfl)
  constructor
  case text => exact htrim.dropLineEnd_eq
  case front => exact h.front
  case body =>
    have hbody := h.body
    rw [← List.append_assoc, List.head?_append_of_ne_nil _ hne'] at hbody ⊢
    exact hbody
  case split =>
    refine readDigits_append_right h.split ?_
    have hhead := isDigit_head?_readDigits (digits ++ (u ++ w))
    rw [h.split, squeezed_append] at hhead
    rw [squeezed_append]
    cases hu : squeezed u with
    | nil => exact hdigit hu
    | cons d ds => simpa [hu] using hhead

/-- **Another text behind a line.**  A line without `REM` has the same tokens in front of another
    text, if no number, no relation and no word goes on in that. -/
theorem scan_append {tokens : List Token} (htrim : IsTrimmed cs) (htrim' : IsTrimmed (cs ++ rest))
    (h : scan (.ofList cs) = .ok (ts ++ [last])) (hne : ts ≠ [])
    (hrem : ∀ t ∈ ts, t.kind ≠ .word .REM)
    (hletters : ∀ d ∈ (squeezed rest).head?, d.isAlpha = false) (hrest : BeginsApart rest)
    (h' : scan (.ofList (cs ++ rest)) = .ok tokens) :
    ∃ line column more, scanFrom line column rest = .ok more ∧ tokens = ts ++ more := by
  obtain ⟨front, digits, u, hfronted⟩ := exists_fronted cs
  have hcs : cs = front ++ (digits ++ u) := by rw [← hfronted.text, htrim.dropLineEnd_eq]
  obtain ⟨row, hrow, hscan⟩ := hfronted.ofList.exists_of_scan h
  obtain ⟨body, last', rfl, -⟩ := (scansTo_iff.2 hrow).exists_body
  rw [← List.append_assoc] at hscan
  obtain ⟨rfl, -⟩ := List.append_inj' hscan rfl
  -- Behind its number, the line is a stretch with nothing behind it, and so one with the other text
  -- behind it.
  have hstretch := stretch_of_scanFrom hrow fun t ht => hrem t (List.mem_append_right _ ht)
  have hstretch' := hstretch.change (.inr fun d hd => hletters d (hd.resolve_left nofun)) hrest
  have hsqueezed : squeezed (digits ++ u) ≠ [] := by
    rw [squeezed_append]
    intro hnil
    obtain ⟨hdigits, hu⟩ := List.append_eq_nil_iff.1 hnil
    have hbody : body = [] := not_not.1 fun hbody => hstretch.squeezed_ne_nil hbody hu
    refine hne ?_
    rw [hbody, List.append_nil, numberTokens, if_pos (List.map_eq_nil_iff.1 hdigits)]
  rw [← List.append_nil u] at hfronted
  have hline : cs ++ rest = front ++ (digits ++ (u ++ rest)) := by simp [hcs]
  have hfronted' :=
    fronted_change hfronted hsqueezed (fun _ d hd => (hrest d hd).1) (hline ▸ htrim')
  rw [hline] at h'
  obtain ⟨tokens', hmore, rfl⟩ := hfronted'.ofList.exists_of_scan h'
  rw [hstretch'.scanFrom_eq] at hmore
  obtain ⟨more, hscan, rfl⟩ := map_eq_ok.1 hmore
  exact ⟨_, _, more, hscan, by rw [List.append_assoc]⟩

end LineBasic.Token
