import LineBasic.Proofs.Token.Opening

namespace LineBasic.Token

/-!
# A word that is blanked out

What is scanned when blanks stand in the place of a reserved word.  The tokens before it and behind
it are the same, at the same columns, unless the word has kept a variable apart from the letters
behind it.

* `blankOut`, `blanked` -- a text with blanks for a word;
* `Settled`, `runTogether` -- rows that end as an expression does, and whether a row runs into
  another;
* `OperandsFollow` -- rows in which a value follows every operator;
* `JoinsTo` -- what may be scanned for two rows without the word between them;
* `scanFrom_blanked`, `scan_blanked` -- the main result, from a column on and for whole lines.
-/

variable {c : Char} {cs covers rest : List Char} {t : Token} {ts us before behind : List Token}
  {line : Option Nat} {column : Nat} {x : Letter} {w : Keyword}

/-! ### Blanks for a word -/

/-- The text with blanks for its first characters that are none, as many as are to go. -/
def blankOut : Nat → List Char → List Char
  | 0, cs => cs
  | _ + 1, [] => []
  | n + 1, c :: cs => if isBlank c then c :: blankOut (n + 1) cs else ' ' :: blankOut n cs

/-- The text with blanks for the characters of a token. -/
def blanked (t : Token) (text : String) : String :=
  .ofList (text.toList.take t.column ++ blankOut t.lexeme.length (text.toList.drop t.column))

/-- Blanking out the letters of a spelling leaves what stands behind it. -/
theorem blankOut_of_spell {word : List Char} (h : spell word cs = some (covers, rest)) :
    ∃ bs, (∀ more, blankOut word.length (covers ++ more) = bs ++ more) ∧ bs.length = covers.length ∧
      ∀ c ∈ bs, isBlank c := by
  fun_induction spell word cs generalizing covers with
  | case1 =>
    cases h
    exact ⟨[], fun more => by cases more <;> rfl, rfl, by simp⟩
  | case2 => cases h
  | case3 w word c cs hb ih =>
    obtain ⟨⟨covers', rest'⟩, hs, he⟩ := Option.map_eq_some_iff.1 h
    cases he
    obtain ⟨bs, hbs, hlength, hblank⟩ := ih hs
    exact ⟨c :: bs, by simpa [blankOut, hb] using hbs, by simp [hlength],
      List.forall_mem_cons.2 ⟨hb, hblank⟩⟩
  | case4 w word c cs hb hw ih =>
    obtain ⟨⟨covers', rest'⟩, hs, he⟩ := Option.map_eq_some_iff.1 h
    cases he
    obtain ⟨bs, hbs, hlength, hblank⟩ := ih hs
    exact ⟨' ' :: bs, by simpa [blankOut, hb] using hbs, by simp [hlength],
      List.forall_mem_cons.2 ⟨rfl, hblank⟩⟩
  | case5 => cases h

/-- Scanning goes on behind blanks. -/
theorem scanFrom_of_blanks {bs : List Char} (hbs : ∀ c ∈ bs, isBlank c) :
    scanFrom line column (bs ++ cs) = scanFrom line (column + bs.length) cs := by
  induction bs generalizing column with
  | nil => rfl
  | cons c bs ih =>
    obtain ⟨hc, hbs⟩ := List.forall_mem_cons.1 hbs
    rw [List.cons_append, scanFrom_of_isBlank hc, ih hbs, List.length_cons, Nat.add_assoc,
      Nat.add_comm 1]

/-! ### The rows around a word -/

/-- A row that ends with a number, an operator or a mark, or with a variable behind an operator. -/
inductive Settled : List Token → Prop where
  | sign {ts : List Token} {s : Token} (hs : isSign s.kind) : Settled (ts ++ [s])
  | letter {ts : List Token} {o t : Token} {op : Operator} {x : Letter} (ho : o.kind = .operator op)
      (ht : t.kind = .letter x) : Settled (ts ++ [o, t])

/-- Whether a row is settled is told by its end. -/
theorem Settled.append (h : Settled us) (ts : List Token) : Settled (ts ++ us) := by
  cases h with
  | sign hs =>
    rw [← List.append_assoc]
    exact .sign hs
  | letter hs ht =>
    rw [← List.append_assoc]
    exact .letter hs ht

/-- A settled row does not end with what is neither number nor operator nor mark. -/
theorem Settled.of_cons (h : Settled (t :: ts)) (ht : isSign t.kind = false) : Settled ts := by
  generalize hall : t :: ts = all at h
  cases h with
  | @sign us s hs =>
    cases us with
    | nil =>
      obtain ⟨rfl, -⟩ := List.cons.inj hall
      rw [hs] at ht
      cases ht
    | cons u us =>
      obtain ⟨-, rfl⟩ := List.cons.inj hall
      exact .sign hs
  | @letter us o a op x ho ha =>
    cases us with
    | nil =>
      obtain ⟨rfl, -⟩ := List.cons.inj hall
      rw [ho] at ht
      cases ht
    | cons u us =>
      obtain ⟨-, rfl⟩ := List.cons.inj hall
      exact .letter ho ha

/-- A settled row has a token. -/
theorem Settled.ne_nil (h : Settled ts) : ts ≠ [] := by
  cases h <;> simp

/-- The number of a line is no part of a settled row. -/
theorem Settled.of_numberTokens {digits : List Char} {us : List Token}
    (h : Settled (numberTokens digits ++ us)) :
    Settled us := by
  unfold numberTokens at h
  split at h
  next => exact h
  next => exact h.of_cons rfl

/-- Whether the last token of a row runs into the first of another. -/
def runTogether (before behind : List Token) : Bool :=
  match before.getLast?, behind.head? with
  | some a, some b => runsInto a.kind b.kind
  | _, _ => false

/-- A number, an operator or a mark runs into nothing. -/
theorem runTogether_of_isSign {s : Token} (hs : isSign s.kind) (ts behind : List Token) :
    runTogether (ts ++ [s]) behind = false := by
  have hkind : ∀ k, runsInto s.kind k = false := by
    intro k
    cases hk : s.kind with
    | letter => simp [hk, isSign, isSymbol] at hs
    | _ => rfl
  cases behind <;> simp [runTogether, hkind]

/-- Whether rows run together is told by the end of the first. -/
theorem runTogether_append (hne : us ≠ []) (ts behind : List Token) :
    runTogether (ts ++ us) behind = runTogether us behind := by
  rw [runTogether, runTogether, List.getLast?_append_of_ne_nil _ hne]

/-- Rows in which something that can begin a value stands behind every operator. -/
def OperandsFollow : List Token → Prop
  | [] => True
  | t :: ts =>
    ((∃ op, t.kind = .operator op) → ∃ u ∈ ts.head?, Expr.opensValue u.kind) ∧ OperandsFollow ts

/-- A token that is no operator may stand in front. -/
theorem OperandsFollow.cons {k : Kind} (ht : t.kind = k) (hk : ∀ op, k ≠ .operator op)
    (h : OperandsFollow ts) :
    OperandsFollow (t :: ts) :=
  ⟨fun ⟨op, hop⟩ => absurd (ht.symm.trans hop) (hk op), h⟩

/-- A single token that is no operator needs no operand. -/
theorem OperandsFollow.single {k : Kind} (ht : t.kind = k) (hk : ∀ op, k ≠ .operator op) :
    OperandsFollow [t] :=
  .cons ht hk trivial

/-- Two rows whose operators have their operands, one behind the other. -/
theorem OperandsFollow.append (h : OperandsFollow us) (h' : OperandsFollow ts) :
    OperandsFollow (us ++ ts) := by
  induction us with
  | nil => exact h'
  | cons u us ih =>
    refine ⟨fun hop => ?_, ih h.2⟩
    obtain ⟨v, hv, hopens⟩ := h.1 hop
    obtain ⟨tail, rfl⟩ := List.head?_eq_some_iff.1 hv
    exact ⟨v, rfl, hopens⟩

/-- The operators at the end of a row have their operands in it. -/
theorem OperandsFollow.of_append (h : OperandsFollow (us ++ ts)) : OperandsFollow ts := by
  induction us with
  | nil => exact h
  | cons u us ih => exact ih h.2

/-- What is scanned for two rows without the word between them: both rows; or, if they run together,
    no row in which values stand behind the operators. -/
def JoinsTo {ε : Type} (before behind : List Token) (result : Except ε (List Token)) : Prop :=
  if runTogether before behind then ∀ tokens, result = .ok tokens → ¬ OperandsFollow tokens
  else result = .ok (before ++ behind)

/-! ### Scanning without a word -/

/-- Every reserved word but `REM` can stand anywhere behind the number of a line. -/
theorem isPlain_of_word (ht : t.kind = .word w) (hw : w ≠ .REM) : isPlain t.kind := by
  rw [ht]
  cases w <;> first | rfl | exact absurd rfl hw

/-- A word at the front of a text is blanked out up to where its letters end. -/
theorem blankOut_of_word (hc : isBlank c = false) (ht : t.kind = .word w) (hw : w ≠ .REM)
    (h : scanFrom line column (c :: cs) = .ok (t :: behind)) :
    ∃ covers bs rest, c :: cs = covers ++ rest ∧ t.column = column ∧
      (∀ more, blankOut t.lexeme.length (covers ++ more) = bs ++ more) ∧ (∀ d ∈ bs, isBlank d) ∧
      scanFrom line (column + bs.length) rest = .ok behind := by
  obtain ⟨covers, rest, hword, hcolumn, hlexeme, hscan⟩ := word?_of_scanFrom hc ht h
  obtain ⟨text, -, hspell⟩ := spell_of_findWord hword
  obtain ⟨bs, hbs, hlength, hblank⟩ := blankOut_of_spell hspell
  have hletters : t.lexeme.length = text.toList.length := by
    rw [← squeezed_of_spell hspell, hlexeme, String.length_ofList, squeezed, List.length_map]
  exact ⟨covers, bs, rest, (word?_append hword).1.symm, hcolumn, by rwa [hletters], hblank,
    by rw [hlength]; exact hscan hw⟩

/-- A stretch that ends with a number, an operator or a mark does not end with a letter. -/
theorem Stretch.change_of_isSign {s : Token} {rest' : List Char}
    (h : Stretch line rest column cs (ts ++ [s])) (hs : isSign s.kind)
    (hrest : BeginsWithLetter rest') : Stretch line rest' column cs (ts ++ [s]) := by
  obtain ⟨d, hd, halpha⟩ := h.getLast?_squeezed hs
  refine h.change (.inl fun e he => ?_) hrest.beginsApart
  rw [hd] at he
  cases he
  exact halpha

/-- No value is scanned behind an operator where `IF` or `PRINT` is found. -/
theorem not_operandsFollow {front us vs : List Char} {o : Token} {op : Operator}
    {tokens : List Token} (h : Stretch line (c :: cs) column front (ts ++ [o]))
    (ho : o.kind = .operator op) (hc : c.isAlpha) (hword : word? (c :: cs) = some (w, us, vs))
    (hw : w ∈ [Keyword.IF, .PRINT]) (hscan : scanFrom line column (front ++ c :: cs) = .ok tokens) :
    ¬ OperandsFollow tokens := by
  obtain ⟨hne, hvalue⟩ : w ≠ .REM ∧ Expr.opensValue (.word w) = false := by
    simp only [List.mem_cons, List.not_mem_nil, or_false] at hw
    rcases hw with rfl | rfl <;> exact ⟨nofun, rfl⟩
  rw [h.scanFrom_eq, scanFrom_of_first (isBlank_of_isAlpha hc)
    (first_of_word hc hword hne _)] at hscan
  obtain ⟨_, hmore, rfl⟩ := map_eq_ok.1 hscan
  obtain ⟨more, -, rfl⟩ := map_eq_ok.1 hmore
  intro hfollow
  rw [List.append_assoc] at hfollow
  obtain ⟨b, hb, hopens⟩ := hfollow.of_append.1 ⟨op, ho⟩
  cases hb
  rw [hvalue] at hopens
  cases hopens

/-- A word of which only the blanks are left is no part of what is scanned, unless what is before it
    runs into what is behind it. -/
theorem scanFrom_blanked (h : scanFrom line column cs = .ok (before ++ t :: behind))
    (ht : t.kind = .word w) (hw : w ≠ .REM) (hbefore : Settled before) (hopen : Opening behind) :
    ∃ front covers bs rest, cs = front ++ (covers ++ rest) ∧ t.column = column + front.length ∧
      (∀ more, blankOut t.lexeme.length (covers ++ more) = bs ++ more) ∧
      squeezed front ≠ [] ∧ rest ≠ [] ∧
      JoinsTo before behind (scanFrom line column (front ++ (bs ++ rest))) := by
  -- Behind a stretch with the tokens that are before the word, what is behind the word is scanned.
  have joined : ∀ {front bs rest}, Stretch line (bs ++ rest) column front before →
      (∀ d ∈ bs, isBlank d) → scanFrom line (column + front.length + bs.length) rest = .ok behind →
      scanFrom line column (front ++ (bs ++ rest)) = .ok (before ++ behind) := by
    intro front bs rest hstretch hblank hmore
    rw [hstretch.scanFrom_eq, scanFrom_of_blanks hblank, hmore]
    rfl
  cases hbefore with
  | @sign ts s hs =>
    obtain ⟨front, c, after, rfl, hc, hcolumn, hstretch, hscan⟩ :=
      exists_stretch (isPlain_of_word ht hw) h
    obtain ⟨covers, bs, rest, hafter, -, hbs, hblank, hmore⟩ := blankOut_of_word hc ht hw hscan
    have hstretch' :=
      hstretch.change_of_isSign hs (.of_blanks hblank (hopen.beginsWithLetter hmore))
    refine ⟨front, covers, bs, rest, by rw [hafter], hcolumn, hbs,
      hstretch.squeezed_ne_nil (by simp), hopen.ne_nil hmore, ?_⟩
    rw [JoinsTo, runTogether_of_isSign hs, if_neg Bool.false_ne_true]
    exact joined hstretch' hblank (hcolumn ▸ hmore)
  | @letter ts o a op x ho ha =>
    -- The variable is scanned anew, the stretch before it as it was.
    have hrow : ts ++ [o, a] ++ t :: behind = ts ++ [o] ++ a :: t :: behind := by simp
    rw [hrow] at h
    obtain ⟨front, c, after, rfl, hc, hcolumn, hstretch, hscan⟩ :=
      exists_stretch (by rw [ha]; rfl) h
    obtain ⟨hx, -, htoken, hnext⟩ := letter_of_scanFrom hc ha hscan
    obtain ⟨gap, d, after', rfl, hgap, hd, hscan'⟩ := exists_front (by simp [ht]) hnext
    obtain ⟨covers, bs, rest, hafter, hcolumn', hbs, hblank, hmore⟩ :=
      blankOut_of_word hd ht hw hscan'
    have hblanks : ∀ d ∈ gap ++ bs, isBlank d := List.forall_mem_append.2 ⟨hgap, hblank⟩
    have hstretch' :=
      hstretch.change_of_isSign (by rw [ho]; rfl) (beginsWithLetter_cons hx (gap ++ (bs ++ rest)))
    have hlength : t.column = column + (front ++ c :: gap).length := by
      rw [hcolumn', hcolumn, List.length_append, List.length_cons]
      omega
    refine ⟨front ++ c :: gap, covers, bs, rest, by simp [hafter], hlength, hbs, ?_,
      hopen.ne_nil hmore, ?_⟩
    · simp [squeezed_append, squeezed_cons hc]
    rw [← hcolumn'] at hmore
    cases behind with
    | nil => cases hopen
    | cons b more =>
    have hruns : runTogether (ts ++ [o, a]) (b :: more) = runsInto (.letter x) b.kind := by
      simp [runTogether, ha]
    rw [JoinsTo, hruns]
    split
    next htogether =>
      obtain ⟨w, us, vs, hword, hw⟩ := word?_of_runsInto hx hblanks hopen hmore htogether
      intro tokens htokens
      rw [List.append_assoc] at hword htokens
      exact not_operandsFollow hstretch' ho (isAlpha_of_ofChar? hx) hword hw htokens
    next hapart =>
      have hword : word? (c :: ([] ++ (gap ++ (bs ++ rest)))) = none := by
        rw [List.nil_append, ← List.append_assoc]
        exact word?_of_opening hx hblanks hopen hmore (by simpa using hapart)
      have hvariable : Stretch line (bs ++ rest) (column + front.length)
          (c :: ([] ++ gap)) [a] := by
        rw [htoken, ← hcolumn]
        exact .token hc rfl (first_of_letter hx hword _) (.of_blanks hgap _)
      have happend := Stretch.append hstretch' hvariable
      rw [List.append_assoc] at happend
      exact joined happend hblank (hlength ▸ hmore)

/-! ### Whole lines -/

/-- A token is found behind a row that it is not in. -/
theorem exists_append_of_notMem {ns : List Token} (ht : t ∉ ns)
    (h : before ++ t :: behind = ns ++ ts) :
    ∃ us, before = ns ++ us ∧ us ++ t :: behind = ts := by
  rcases List.append_eq_append_iff.1 h with ⟨as, hns, has⟩ | ⟨us, hbefore, hts⟩
  · cases as with
    | nil => exact ⟨[], by simpa using hns.symm, by simpa using has⟩
    | cons a as =>
      obtain ⟨rfl, -⟩ := List.cons.inj has
      exact absurd (by simp [hns]) ht
  · exact ⟨us, hbefore, hts.symm⟩

/-- **A word that is blanked out.**  In a text that does not end with a line end, blanks for a word
    leave the tokens before it and behind it as they are, unless what is before it runs into what is
    behind it. -/
theorem scan_blanked (htrim : IsTrimmed cs) (h : scan (.ofList cs) = .ok (before ++ t :: behind))
    (ht : t.kind = .word w) (hw : w ≠ .REM) (hbefore : Settled before) (hopen : Opening behind) :
    ∃ front covers bs rest, cs = front ++ (covers ++ rest) ∧ t.column = front.length ∧
      (∀ more, blankOut t.lexeme.length (covers ++ more) = bs ++ more) ∧ rest ≠ [] ∧
      JoinsTo before behind (scan (.ofList (front ++ (bs ++ rest)))) := by
  obtain ⟨front, digits, body, hfronted⟩ := exists_fronted cs
  have hcs : cs = front ++ (digits ++ body) := by rw [← hfronted.text, htrim.dropLineEnd_eq]
  obtain ⟨tokens, htokens, hrow⟩ := hfronted.ofList.exists_of_scan h
  -- The word is none of the digits in front, so it is in the part that is scanned behind them.
  have hnumber : t ∉ numberTokens (dropBlanks digits) := by
    unfold numberTokens
    split
    next => simp
    next =>
      rw [List.mem_singleton]
      rintro rfl
      cases ht
  obtain ⟨us, rfl, rfl⟩ := exists_append_of_notMem hnumber hrow
  have hus : Settled us := hbefore.of_numberTokens
  obtain ⟨u, covers, bs, v, rfl, hcolumn, hbs, hu, hv, hjoins⟩ :=
    scanFrom_blanked htokens ht hw hus hopen
  -- The line still ends as it did, because something is left behind the word.
  have htrim' : IsTrimmed (front ++ (digits ++ (u ++ (bs ++ v)))) := by
    intro c hc
    refine htrim c ?_
    simp only [hcs, ← List.append_assoc] at hc ⊢
    rwa [List.getLast?_append_of_ne_nil _ hv] at hc ⊢
  have hfronted' :=
    fronted_change hfronted (by simp [squeezed_append, hu]) (fun hnil => absurd hnil hu) htrim'
  refine ⟨front ++ (digits ++ u), covers, bs, v, by simp [hcs], ?_, hbs, hv, ?_⟩
  · simp only [hcolumn, List.length_append, Nat.add_assoc]
  have hline : front ++ (digits ++ u) ++ (bs ++ v) = front ++ (digits ++ (u ++ (bs ++ v))) := by
    simp
  rw [JoinsTo, runTogether_append hus.ne_nil, hline, hfronted'.ofList.scan_eq]
  rw [JoinsTo] at hjoins
  split
  next htogether =>
    rw [if_pos htogether] at hjoins
    intro tokens htokens'
    split at htokens'
    next tokens' hscan' =>
      cases htokens'
      exact fun hfollow => hjoins tokens' hscan' hfollow.of_append
    next => cases htokens'
  next hapart =>
    rw [if_neg hapart] at hjoins
    rw [hjoins, List.append_assoc]

end LineBasic.Token
