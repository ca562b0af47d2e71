import LineBasic.Proofs.Expr.Reading
import LineBasic.Proofs.Token.Stretch

namespace LineBasic.Expr

/-!
# Commas in expressions

In an expression, commas stand only between parentheses.  So what stands before a comma of an
expression leaves a parenthesis open, and is no expression.

* `depth?` -- how many parentheses a row of tokens leaves open, if its commas stand between
  parentheses;
* `Spelled.depth?` -- an expression leaves none open;
* `ofTokens_before_comma` -- a row that is an expression is none before any of its commas;
* `exists_comma` -- what is scanned behind space from a comma on;
* `no_value_before_comma` -- the main result, for texts.
-/

variable {level : Level} {t c last : Token} {ts us : List Token} {e e' : Expr} {d : Nat}

/-! ### Open parentheses -/

/-- How many parentheses are open behind a row of tokens, with some open before it.  There is none
    to be closed, and no place for a comma, where no parenthesis is open. -/
def depth? : Nat → List Token → Option Nat
  | d, [] => some d
  | d, t :: ts =>
    match t.kind, d with
    | .leftParen, d => depth? (d + 1) ts
    | .rightParen, 0 => none
    | .rightParen, d + 1 => depth? d ts
    | .comma, 0 => none
    | _, d => depth? d ts

/-- Parentheses are counted one part of a row after the other. -/
theorem depth?_append (d : Nat) (ts us : List Token) :
    depth? d (ts ++ us) = (depth? d ts).bind (depth? · us) := by
  induction ts generalizing d with
  | nil => rfl
  | cons t ts ih =>
    rw [List.cons_append, depth?.eq_def, depth?.eq_def]
    dsimp only
    split <;> first | rfl | exact ih _

/-- An expression closes the parentheses that it opens. -/
theorem Spelled.depth? (h : Spelled level ts e) : ∀ d, depth? d ts = some d := by
  induction h with
  | number ht | letter ht => simp [Expr.depth?, ht]
  | group hl _ hr ih => simp [Expr.depth?, depth?_append, hl, hr, ih]
  | rnd hf hl _ hr ih | usr hf hl _ hr ih => simp [Expr.depth?, depth?_append, hf, hl, hr, ih]
  | usrAt hf hl _ hc _ hr ih ih' => simp [Expr.depth?, depth?_append, hf, hl, hc, hr, ih, ih']
  | usrWith hf hl _ hc _ hd _ hr ih ih' ih'' =>
    simp [Expr.depth?, depth?_append, hf, hl, hc, hd, hr, ih, ih', ih'']
  | ofValue _ ih | ofSigned _ ih | ofProduct _ ih => exact ih
  | negate ht _ ih | absolute ht _ ih => simp [Expr.depth?, ht, ih]
  | multiply _ ht _ ih ih' | divide _ ht _ ih ih' | add _ ht _ ih ih' | subtract _ ht _ ih ih' =>
    simp [Expr.depth?, depth?_append, ht, ih, ih']

/-- What stands before a comma of an expression is no expression. -/
theorem Spelled.kind_ne_comma (h : Spelled level ts e) (h' : Spelled level (ts ++ c :: us) e') :
    c.kind ≠ .comma := by
  intro hc
  have hwhole := h'.depth? 0
  -- No parenthesis is open where the comma stands.
  rw [depth?_append, h.depth?, Option.bind_some, Expr.depth?.eq_def] at hwhole
  simp [hc] at hwhole

/-! ### Rows of tokens -/

/-- Only the first token of a row can be the number of a line. -/
theorem numbered_append (hne : ts ≠ []) (us : List Token) :
    numbered (ts ++ us) = numbered ts ++ us := by
  cases ts with
  | nil => exact absurd rfl hne
  | cons t ts =>
    rw [List.cons_append, numbered.eq_def, numbered.eq_def (t :: ts)]
    split <;> simp_all

/-- A token that is no line number stays when the number of a line counts as a number. -/
theorem mem_numbered (ht : t ∈ ts) (hk : ∀ digits, t.kind ≠ .lineNumber digits) :
    t ∈ numbered ts := by
  unfold numbered
  split
  next digits _ _ _ ts =>
    rcases List.mem_cons.1 ht with rfl | ht
    · exact absurd rfl (hk digits)
    · exact List.mem_cons_of_mem _ ht
  next => exact ht

/-- A line that is an expression is one up to its end. -/
theorem spelled_of_ofTokens (hrow : Token.IsRow (ts ++ [last]))
    (h : ofTokens (ts ++ [last]) = .ok e) :
    ts ≠ [] ∧ Spelled .sum (numbered ts) e := by
  obtain ⟨row, last', hnumbered, hkinds, hlast⟩ := numbered_of_isRow hrow
  have hspelled := (ofTokens_eq_ok_iff hnumbered hkinds hlast).1 h
  have hne : ts ≠ [] := by
    rintro rfl
    obtain ⟨t, more, rfl, -⟩ := hspelled.cons
    rw [List.nil_append, numbered.eq_def] at hnumbered
    split at hnumbered <;> simp_all
  rw [numbered_append hne] at hnumbered
  obtain ⟨rfl, -⟩ := List.append_inj' hnumbered rfl
  exact ⟨hne, hspelled⟩

/-- A line that is an expression is none before any of its commas. -/
theorem ofTokens_before_comma (hrow : Token.IsRow (ts ++ [last]))
    (hrow' : Token.IsRow (ts ++ c :: us)) (h : ofTokens (ts ++ [last]) = .ok e)
    (h' : ofTokens (ts ++ c :: us) = .ok e') : c.kind ≠ .comma := by
  intro hc
  obtain ⟨hne, hspelled⟩ := spelled_of_ofTokens hrow h
  -- The comma is not the end of the line, so the row goes on behind it.
  obtain ⟨us, z, rfl⟩ : ∃ us' z, us = us' ++ [z] := by
    rcases List.eq_nil_or_concat us with rfl | ⟨us', z, rfl⟩
    · obtain ⟨row, z, hall, -, hz⟩ := hrow'.exists_eq_append
      obtain ⟨-, hz'⟩ := List.append_inj' hall rfl
      obtain rfl := List.singleton_inj.1 hz'
      cases hc.symm.trans hz
    · exact ⟨us', z, List.concat_eq_append⟩
  rw [← List.cons_append, ← List.append_assoc] at hrow' h'
  obtain ⟨-, hspelled'⟩ := spelled_of_ofTokens hrow' h'
  rw [numbered_append hne] at hspelled'
  exact hspelled.kind_ne_comma hspelled' hc

/-! ### Texts -/

/-- Space is no letter and no digit. -/
theorem isAlpha_of_isSpace {c : Char} (hc : Text.isSpace c) :
    c.isAlpha = false ∧ c.isDigit = false := by
  have hnot : ¬ c.isAlphanum := fun halnum => by simp [isSpace_of_isAlphanum halnum] at hc
  simpa [Char.isAlphanum] using hnot

/-- Behind space, a comma is the first token that is scanned. -/
theorem exists_comma {line : Option Nat} {column : Nat} {space rest : List Char}
    (hspace : ∀ c ∈ space, Text.isSpace c)
    (h : Token.scanFrom line column (space ++ ',' :: rest) = .ok ts) :
    ∃ c us, ts = c :: us ∧ c.kind = .comma := by
  induction space generalizing column with
  | nil =>
    rw [List.nil_append, Token.scanFrom_of_first rfl (Token.first_of_symbol rfl column)] at h
    obtain ⟨us, -, rfl⟩ := map_eq_ok.1 h
    exact ⟨_, us, rfl, rfl⟩
  | cons d space ih =>
    obtain ⟨hd, hspace⟩ := List.forall_mem_cons.1 hspace
    by_cases hblank : Token.isBlank d
    · rw [List.cons_append, Token.scanFrom_of_isBlank hblank] at h
      exact ih hspace h
    · -- Any other space is no part of a line.
      obtain ⟨halpha, hdigit⟩ := isAlpha_of_isSpace hd
      have hsymbol : Token.symbol? d (space ++ ',' :: rest) = none := by
        unfold Token.symbol?
        split <;> first | rfl | cases hd
      have hletter : Letter.ofChar? d = none := by simp [Letter.ofChar?, halpha]
      have hquote : d ≠ '"' := by rintro rfl; cases hd
      rw [List.cons_append, Token.scanFrom_of_error (by simpa using hblank)
        (Token.first_of_other hsymbol hquote hdigit hletter column)] at h
      cases h

/-- Neither a number nor a relation nor a word goes on with a comma, whatever space is before it. -/
theorem head?_squeezed_comma {space : List Char} (hspace : ∀ c ∈ space, Text.isSpace c)
    (rest : List Char) :
    ∀ d ∈ (Token.squeezed (space ++ ',' :: rest)).head?, d.isAlpha = false ∧ d.isDigit = false ∧
      d ∉ ['=', '<', '>'] := by
  induction space with
  | nil =>
    rintro _ ⟨⟩
    decide
  | cons c space ih =>
    obtain ⟨hc, hspace⟩ := List.forall_mem_cons.1 hspace
    by_cases hblank : Token.isBlank c
    · rw [List.cons_append, Token.squeezed_of_isBlank hblank]
      exact ih hspace
    · rw [List.cons_append, Token.squeezed_cons (by simpa using hblank)]
      rintro _ ⟨⟩
      obtain ⟨halpha, hdigit⟩ := isAlpha_of_isSpace hc
      rw [(Token.toUpper_eq_or_isAlpha c).resolve_right (by simp [halpha])]
      refine ⟨halpha, hdigit, fun hmem => ?_⟩
      simp only [List.mem_cons, List.not_mem_nil, or_false] at hmem
      rcases hmem with rfl | rfl | rfl <;> cases hc

/-- **Before a comma.**  Where a text without space around it is an expression, what stands before
    any of its commas is none. -/
theorem no_value_before_comma {text : String} {tokens tokens' : List Token} {front rest : List Char}
    (htrim : Text.trim text.toList = text.toList) (htext : text.toList = front ++ ',' :: rest)
    (hscan : Token.scan text = .ok tokens) (hread : ofTokens tokens = .ok e)
    (hscan' : Token.scan (.ofList (Text.trim front)) = .ok tokens') :
    ofTokens tokens' ≠ .ok e' := by
  intro hread'
  have hhead : ∀ c ∈ front.head?, Text.isSpace c = false := fun c hc =>
    Text.head?_of_trim_eq htrim c (by rw [htext, List.head?_append, Option.mem_def.1 hc]; rfl)
  rw [Text.trim_eq_trimEnd hhead] at hscan'
  obtain ⟨space, hfront, hspace⟩ := Text.exists_eq_trimEnd_append front
  have hline : text.toList = Text.trimEnd front ++ (space ++ ',' :: rest) := by
    rw [htext, ← List.append_assoc, ← hfront]
  have htrimmed : Token.IsTrimmed (Text.trimEnd front ++ (space ++ ',' :: rest)) := by
    rw [← hline, ← htrim]
    exact Token.isTrimmed_trimEnd _
  -- The tokens before the comma are the same whether the comma stands behind them or nothing.
  have hnone := head?_squeezed_comma hspace rest
  have hrow := Token.scan_isRow hscan'
  obtain ⟨ts, last, rfl, -⟩ := hrow.exists_eq_append
  obtain ⟨hne, hspelled⟩ := spelled_of_ofTokens hrow hread'
  have hrem : ∀ t ∈ ts, t.kind ≠ .word .REM := fun t ht hk =>
    hspelled.kind_ne (by simp) t (mem_numbered ht (by simp [hk])) hk
  have hwhole : Token.scan (.ofList (Text.trimEnd front ++ (space ++ ',' :: rest))) =
      .ok tokens := by
    rw [← hline, String.ofList_toList]
    exact hscan
  obtain ⟨line, column, more, hmore, rfl⟩ :=
    Token.scan_append (Token.isTrimmed_trimEnd front) htrimmed hscan' hne hrem
    (fun d hd => (hnone d hd).1) (fun d hd => (hnone d hd).2) hwhole
  obtain ⟨c, us, rfl, hc⟩ := exists_comma hspace hmore
  exact ofTokens_before_comma hrow (Token.scan_isRow hwhole) hread' hread hc

end LineBasic.Expr
