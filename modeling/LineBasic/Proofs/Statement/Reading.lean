import LineBasic.Proofs.Statement.Grammar
import LineBasic.Statement.Reader

namespace LineBasic.Statement

/-!
# Reading agrees with the grammar of statements

For each reader of a part of a statement, what it takes is what the grammar allows there, and what
the grammar allows it takes.  Where values stand side by side the reader makes each as long as it
can, so a sequence may be read as another one than was meant, but it is read:

* `readItems_sound`, `readItems_greedy` -- the parts of a `PRINT`;
* `readArguments_sound`, `readArguments_complete` -- the values of a `RUN`;
* `readAssignment_sound`, `readCondition_sound` and their converses -- assignments and conditions;
* `read_sound`, `read_complete` -- whole statements, by induction on the statement inside an `IF`.
-/

open LineBasic.Expr (Spelled NoTerm opensValue)
open Token (atEnd skip?)

variable {t : Token} {ts us rest : List Token} {e : Expr}

/-! ### Single tokens -/

/-- A row at its end has the end of the line in front. -/
theorem kind_of_atEnd (h : atEnd (t :: ts)) : t.kind = .endOfLine := by
  simpa [atEnd, Token.isEndOfLine] using h

/-- A row with an expression in front is not at its end. -/
theorem not_atEnd_of_opensValue (h : opensValue t.kind) : ¬ atEnd (t :: ts) := by
  intro hend
  rw [kind_of_atEnd hend] at h
  cases h

/-- What begins an expression is no separator. -/
theorem separator_of_opensValue {k : Kind} (h : opensValue k) :
    k ≠ .comma ∧ k ≠ .semicolon ∧ k ≠ .colon := by
  unfold opensValue at h
  split at h <;> simp_all

/-- An expression that is read is not empty. -/
theorem not_atEnd_of_read (h : Expr.read ts = .ok (e, rest)) : ¬ atEnd ts := by
  obtain ⟨us, rfl, he, -⟩ := Expr.read_eq_ok_iff.1 h
  obtain ⟨t, us, rfl, ht⟩ := he.cons
  exact not_atEnd_of_opensValue ht

/-- Two rows that go on with no operator make up one, whichever of them is empty. -/
theorem noTerm_append (hts : NoTerm ts) (hrest : NoTerm rest) : NoTerm (ts ++ rest) := by
  cases ts with
  | nil => exact hrest
  | cons t ts => exact fun t' ht' => hts t' (by simpa using ht')

/-- A token that is no operator goes on with none. -/
theorem noTerm_cons {k : Kind} (ht : t.kind = k) (hp : Expr.productOp? k = none)
    (hs : Expr.sumOp? k = none) :
    NoTerm (t :: ts) := by
  rintro _ ⟨⟩
  rw [ht]
  exact ⟨hp, hs⟩

/-! ### `PRINT` -/

/-- Some tokens that the parts of a `PRINT` statement cannot go on with. -/
def ItemsEnd (ts : List Token) : Prop := ∀ t ∈ ts.head?, t.kind = .endOfLine ∨ t.kind = .colon

/-- Where a `PRINT` cannot go on no operator follows. -/
theorem ItemsEnd.noTerm (h : ItemsEnd ts) : NoTerm ts := by
  intro t ht
  rcases h t ht with hk | hk <;> rw [hk] <;> exact ⟨rfl, rfl⟩

/-- The parts that are read are a sequence, which ends where the line or a colon does. -/
theorem readItems_sound {items : List PrintItem} (h : readItems ts = .ok (items, rest)) :
    ∃ us, ts = us ++ rest ∧ Sequence printSingle .value us items ∧ ItemsEnd rest := by
  -- One more token before a sequence that is read from what follows it.
  have single : ∀ {t : Token} {ts : List Token} {item : PrintItem} {items : List PrintItem}
      {rest : List Token}, printSingle t = some [item] →
      (∀ {items' rest'}, readItems ts = .ok (items', rest') →
        ∃ us, ts = us ++ rest' ∧ Sequence printSingle .value us items' ∧ ItemsEnd rest') →
      ((readItems ts).map fun r => (item :: r.1, r.2)) = .ok (items, rest) →
      ∃ us, t :: ts = us ++ rest ∧ Sequence printSingle .value us items ∧ ItemsEnd rest := by
    intro t ts item items rest ht ih h
    obtain ⟨⟨items', rest'⟩, hread, hitems⟩ := map_eq_ok.1 h
    obtain ⟨us, rfl, hus, hend⟩ := ih hread
    cases hitems
    exact ⟨t :: us, rfl, .single ht hus, hend⟩
  fun_induction readItems ts generalizing items rest with
  | case1 =>
    cases h
    exact ⟨[], rfl, .nil, by simp [ItemsEnd]⟩
  | case2 t ts hk =>
    cases h
    exact ⟨[], rfl, .nil, by simp [ItemsEnd, hk]⟩
  | case3 t ts hk =>
    cases h
    exact ⟨[], rfl, .nil, by simp [ItemsEnd, hk]⟩
  | case4 t ts text hk ih => exact single (by simp [printSingle, hk]) ih h
  | case5 t ts hk ih => exact single (by simp [printSingle, hk]) ih h
  | case6 t ts hk ih => exact single (by simp [printSingle, hk]) ih h
  | case7 => cases h
  | case8 t ts e after hread _ _ _ _ _ ih =>
    obtain ⟨⟨items', rest'⟩, hmore, hitems⟩ := map_eq_ok.1 h
    obtain ⟨us, hus, he, -⟩ := Expr.read_eq_ok_iff.1 hread
    obtain ⟨vs, rfl, hvs, hend⟩ := ih hmore
    cases hitems
    exact ⟨us ++ vs, by rw [hus, List.append_assoc], .value he hvs, hend⟩

/-- Where an expression begins, it is read as the next part. -/
theorem readItems_of_read (ht : opensValue t.kind) (h : Expr.read (t :: ts) = .ok (e, rest)) :
    readItems (t :: ts) = (readItems rest).map fun (items, rest) => (.value e :: items, rest) := by
  rw [readItems]
  split
  case h_6 =>
    split
    next heq => rw [h] at heq; cases heq
    next heq =>
      rw [h] at heq
      cases heq
      rfl
  all_goals
    next hk =>
      rw [hk] at ht
      cases ht

/-- A greedy sequence of parts is read, and nothing after it. -/
theorem readItems_greedy {items : List PrintItem} (h : Greedy printSingle .value us items)
    (hrest : ItemsEnd rest) : readItems (us ++ rest) = .ok (items, rest) := by
  induction h with
  | nil =>
    cases rest with
    | nil => rw [List.nil_append, readItems]
    | cons t rest => rcases hrest t rfl with hk | hk <;> simp only [List.nil_append, readItems, hk]
  | @single t ts as bs ht _ ih =>
    unfold printSingle at ht
    rw [List.cons_append, readItems]
    split at ht
    next hk =>
      cases ht
      simp [hk, ih, Except.map]
    next hk =>
      cases ht
      simp [hk, ih, Except.map]
    next hk =>
      cases ht
      simp [hk, ih, Except.map]
    next => cases ht
  -- A value goes as far as it can, which is where the part behind it begins.
  | @value us ts e bs he hend _ ih =>
    have hread : Expr.read (us ++ (ts ++ rest)) = .ok (e, ts ++ rest) :=
      Expr.read_eq_ok_iff.2 ⟨us, rfl, he, noTerm_append hend hrest.noTerm⟩
    obtain ⟨t, us, rfl, ht⟩ := he.cons
    rw [List.cons_append] at hread
    rw [List.append_assoc, List.cons_append, readItems_of_read ht hread, ih]
    rfl

/-- A part of a `PRINT` that is one token is no operator. -/
theorem noTerm_of_printSingle {t : Token} {items : List PrintItem} (h : printSingle t = some items)
    (ts : List Token) : NoTerm (t :: ts) := by
  unfold printSingle at h
  split at h
  next hk => exact noTerm_cons hk rfl rfl
  next hk => exact noTerm_cons hk rfl rfl
  next hk => exact noTerm_cons hk rfl rfl
  next => cases h

/-- A token is skipped if it is of the kind that may be. -/
theorem isSome_skip?_cons {k : Kind} : (skip? k (t :: ts)).isSome ↔ t.kind = k := by
  rw [skip?]
  split <;> simp [*]

/-- What is read after `PRINT` is what the grammar allows there. -/
theorem readPrint_sound {s : Statement} (ht : t.kind = .word .PRINT)
    (h : readPrint t.span ts = .ok (s, rest)) : ∃ us, ts = us ++ rest ∧ Phrase (t :: us) s := by
  rw [readPrint] at h
  split at h
  next => cases h
  next hfirst =>
    obtain ⟨⟨items, after⟩, hread, hs⟩ := map_eq_ok.1 h
    obtain ⟨us, rfl, hus, -⟩ := readItems_sound hread
    cases hs
    -- The colon belongs to the statement if there is one.
    have hcolon : ∃ colon, after = colon ++ (skip? .colon after).getD after ∧
        AtMostOne .colon colon := by
      cases hskip : skip? .colon after with
      | none => exact ⟨[], rfl, .none⟩
      | some rest =>
        obtain ⟨c, hc, rfl⟩ := Token.skip?_eq_some hskip
        exact ⟨[c], rfl, .one hc⟩
    obtain ⟨colon, hafter, hcolon⟩ := hcolon
    cases hus with
    | nil =>
      cases hcolon with
      | none => exact ⟨[], hafter, .printNothing ht⟩
      | @one c hc =>
        rw [hafter] at hfirst
        simp [isSome_skip?_cons, hc] at hfirst
    | @single s ts as bs hs hts =>
      refine ⟨s :: (ts ++ colon),
        by rw [List.cons_append, List.cons_append, List.append_assoc, ← hafter], ?_⟩
      unfold printSingle at hs
      split at hs
      next hk =>
        cases hs
        exact .printText ht hk hts hcolon
      next hk => simp [isSome_skip?_cons, hk] at hfirst
      next hk => simp [isSome_skip?_cons, hk] at hfirst
      next => cases hs
    | @value us ts e bs he hts =>
      refine ⟨us ++ ts ++ colon, by rw [List.append_assoc (us ++ ts), ← hafter],
        .printValue ht he hts hcolon⟩

/-- A greedy sequence of parts that does not begin with a separator is read after `PRINT`, with a
    colon after it. -/
theorem readPrint_greedy {span : Span} {items : List PrintItem} {colon : List Token}
    (h : Greedy printSingle .value us items)
    (hfirst : ∀ t ∈ (us ++ colon).head?, t.kind ≠ .comma ∧ t.kind ≠ .semicolon ∧ t.kind ≠ .colon)
    (hcolon : AtMostOne .colon colon) (hrest : atEnd rest) :
    readPrint span (us ++ colon ++ rest) = .ok (.print span items, rest) := by
  have hend : ItemsEnd rest := by
    rintro t ht
    cases rest with
    | nil => cases ht
    | cons t' rest =>
      cases ht
      exact .inl (kind_of_atEnd hrest)
  -- No separator stands in front, neither among the parts nor behind them if there are none.
  have hopen : ¬ ((skip? .comma (us ++ colon ++ rest)).isSome ||
      (skip? .semicolon (us ++ colon ++ rest)).isSome ||
      (skip? .colon (us ++ colon ++ rest)).isSome) := by
    cases hall : us ++ colon with
    | cons t ts =>
      rw [hall] at hfirst
      simp [isSome_skip?_cons, hfirst t rfl]
    | nil =>
      cases rest with
      | nil => simp [skip?]
      | cons t rest => simp [isSome_skip?_cons, kind_of_atEnd hrest]
  rw [readPrint, if_neg hopen, List.append_assoc]
  cases hcolon with
  | none =>
    have hskip : skip? .colon rest = none := by
      cases rest with
      | nil => rfl
      | cons t rest => simp [skip?, kind_of_atEnd hrest]
    simp [readItems_greedy h hend, hskip, Except.map]
  | @one c hc =>
    have hstop : ItemsEnd (c :: rest) := by
      rintro _ ⟨⟩
      exact .inr hc
    simp [readItems_greedy h hstop, skip?, hc, Except.map]

/-- A sequence of parts that does not begin with a separator is read after `PRINT`, with a colon
    after it. -/
theorem readPrint_complete {span : Span} {items : List PrintItem} {colon : List Token}
    (h : Sequence printSingle .value us items) (hcons : us = t :: ts)
    (ht : t.kind ≠ .comma ∧ t.kind ≠ .semicolon ∧ t.kind ≠ .colon)
    (hcolon : AtMostOne .colon colon) (hrest : atEnd rest) :
    ∃ items', readPrint span (us ++ colon ++ rest) = .ok (.print span items', rest) := by
  obtain ⟨items', hitems⟩ := h.greedy fun _ _ => noTerm_of_printSingle
  have hfirst : ∀ u ∈ (us ++ colon).head?, u.kind ≠ .comma ∧ u.kind ≠ .semicolon ∧
      u.kind ≠ .colon := by
    rw [hcons]
    rintro _ ⟨⟩
    exact ht
  exact ⟨items', readPrint_greedy hitems hfirst hcolon hrest⟩

/-! ### `RUN` -/

/-- The values that are read are a sequence without a comma at its end. -/
theorem readArguments_sound {arguments : List Expr} (h : readArguments ts = .ok (arguments, rest)) :
    atEnd rest ∧ ∃ us, ts = us ++ rest ∧ Sequence runSingle id us arguments ∧
      ∀ c ∈ us.getLast?, c.kind ≠ .comma := by
  fun_induction readArguments ts generalizing arguments rest with
  | case1 =>
    cases h
    exact ⟨rfl, [], rfl, .nil, by simp⟩
  | case2 t ts hk =>
    cases h
    exact ⟨by simp [atEnd, Token.isEndOfLine, hk], [], rfl, .nil, by simp⟩
  | case3 => cases h
  -- A comma is followed by more values, so it is not the last of the tokens.
  | case4 t ts hk hmore ih =>
    obtain ⟨hend, us, rfl, hus, hlast⟩ := ih h
    have hcomma : runSingle t = some [] := by simp [runSingle, hk]
    have hseq : Sequence runSingle id (t :: us) ([] ++ arguments) := .single hcomma hus
    refine ⟨hend, t :: us, rfl, hseq, ?_⟩
    cases us with
    | nil => exact absurd hend hmore
    | cons u us => simpa using hlast
  | case5 => cases h
  | case6 t ts e after hread _ _ ih =>
    obtain ⟨⟨arguments', rest'⟩, hmore, harguments⟩ := map_eq_ok.1 h
    obtain ⟨us, hus, he, -⟩ := Expr.read_eq_ok_iff.1 hread
    obtain ⟨hend, vs, rfl, hvs, hlast⟩ := ih hmore
    cases harguments
    refine ⟨hend, us ++ vs, by rw [hus, List.append_assoc], .value he hvs, ?_⟩
    cases vs with
    | nil => simpa using he.getLast_ne_comma
    | cons v vs => rwa [List.getLast?_append_cons]

/-- Between the values of a `RUN` there are only commas. -/
theorem kind_of_runSingle {as : List Expr} (h : runSingle t = some as) :
    t.kind = .comma ∧ as = [] := by
  unfold runSingle at h
  split at h
  next hk => exact ⟨hk, (Option.some.inj h).symm⟩
  next => cases h

/-- Where an expression begins, it is read as the next value. -/
theorem readArguments_of_read (ht : opensValue t.kind) (h : Expr.read (t :: ts) = .ok (e, rest)) :
    readArguments (t :: ts) = (readArguments rest).map fun (arguments, rest) =>
      (e :: arguments, rest) := by
  rw [readArguments]
  split
  case h_3 =>
    split
    next heq => rw [h] at heq; cases heq
    next heq =>
      rw [h] at heq
      cases heq
      rfl
  all_goals
    next hk =>
      rw [hk] at ht
      cases ht

/-- The values of a `RUN` are not over as long as tokens of them are left. -/
theorem Greedy.not_atEnd {arguments : List Expr} (h : Greedy runSingle id us arguments)
    (hne : us ≠ []) :
    ¬ atEnd (us ++ rest) := by
  cases h with
  | nil => exact absurd rfl hne
  | single ht =>
    intro hend
    have hk := kind_of_atEnd hend
    rw [(kind_of_runSingle ht).1] at hk
    cases hk
  | value he =>
    obtain ⟨t, us, rfl, ht⟩ := he.cons
    exact not_atEnd_of_opensValue ht

/-- A greedy sequence of values is read up to the end of the line. -/
theorem readArguments_greedy {arguments : List Expr} (h : Greedy runSingle id us arguments)
    (hlast : ∀ c ∈ us.getLast?, c.kind ≠ .comma) (hrest : atEnd rest) :
    readArguments (us ++ rest) = .ok (arguments, rest) := by
  induction h with
  | nil =>
    cases rest with
    | nil => rw [List.nil_append, readArguments]
    | cons t rest => simp only [List.nil_append, readArguments, kind_of_atEnd hrest]
  -- This is a comma, and something stands behind it.
  | @single t ts as bs ht hts ih =>
    obtain ⟨hk, rfl⟩ := kind_of_runSingle ht
    have hne : ts ≠ [] := by
      rintro rfl
      exact hlast t rfl hk
    rw [List.getLast?_cons_of_ne_nil hne] at hlast
    simp only [List.cons_append, List.nil_append, readArguments, hk,
      if_neg (hts.not_atEnd hne), ih hlast]
  | @value us ts e bs he hend hts ih =>
    have hread : Expr.read (us ++ (ts ++ rest)) = .ok (e, ts ++ rest) :=
      Expr.read_eq_ok_iff.2 ⟨us, rfl, he, noTerm_append hend (Expr.noTerm_of_atEnd hrest)⟩
    have hmore : readArguments (ts ++ rest) = .ok (bs, rest) := by
      apply ih
      cases ts with
      | nil => simp
      | cons t ts => rwa [List.getLast?_append_cons] at hlast
    obtain ⟨t, us, rfl, ht⟩ := he.cons
    rw [List.cons_append] at hread
    rw [List.append_assoc, List.cons_append, readArguments_of_read ht hread, hmore]
    rfl

/-- Every sequence of values without a comma at its end can be read, though perhaps as another
    one. -/
theorem readArguments_complete {arguments : List Expr} (h : Sequence runSingle id us arguments)
    (hlast : ∀ c ∈ us.getLast?, c.kind ≠ .comma) (hrest : atEnd rest) :
    ∃ arguments', readArguments (us ++ rest) = .ok (arguments', rest) := by
  obtain ⟨arguments', harguments⟩ :=
    h.greedy fun _ _ ht _ => noTerm_cons (kind_of_runSingle ht).1 rfl rfl
  exact ⟨arguments', readArguments_greedy harguments hlast hrest⟩

/-! ### `INPUT` -/

/-- The variables that are read have commas between them. -/
theorem readTargets_sound {targets : List Target} (h : readTargets ts = .ok (targets, rest)) :
    ∃ us, ts = us ++ rest ∧ Targets us targets := by
  fun_induction readTargets ts generalizing targets rest with
  | case1 => cases h
  | case2 t x hx =>
    cases h
    exact ⟨[t], rfl, .one hx⟩
  | case3 t x hx c ts hc ih =>
    obtain ⟨⟨targets', rest'⟩, hread, htargets⟩ := map_eq_ok.1 h
    obtain ⟨us, rfl, hus⟩ := ih hread
    cases htargets
    exact ⟨t :: c :: us, rfl, .cons hx hc hus⟩
  | case4 t x hx u us =>
    cases h
    exact ⟨[t], rfl, .one hx⟩
  | case5 => cases h

/-- Variables with commas between them are read, up to where no comma follows. -/
theorem readTargets_complete {targets : List Target} (h : Targets us targets) (hrest : atEnd rest) :
    readTargets (us ++ rest) = .ok (targets, rest) := by
  induction h with
  | one hx =>
    cases rest with
    | nil => simp [readTargets, hx]
    | cons t rest => simp [readTargets, hx, kind_of_atEnd hrest]
  | cons hx hc _ ih => simp [readTargets, hx, hc, ih, Except.map]

/-! ### The other statements -/

/-- A jump has an expression for its target. -/
theorem readJump_eq_ok_iff {word : Keyword} :
    readJump word ts = .ok (e, rest) ↔ Expr.read ts = .ok (e, rest) := by
  rw [readJump]
  split
  next hend => exact ⟨nofun, fun h => absurd hend (not_atEnd_of_read h)⟩
  next => rfl

/-- An assignment that is read is a variable, an equals sign and an expression. -/
theorem readAssignment_sound {span : Span} {s : Statement}
    (h : readAssignment span ts = .ok (s, rest)) :
    ∃ x name q us e, ts = x :: q :: (us ++ rest) ∧ x.kind = .letter name ∧
      q.kind = .operator (.relation .equal) ∧ Spelled .sum us e ∧
      s = .assign span ⟨x.span, name⟩ e := by
  unfold readAssignment at h
  split at h
  next => cases h
  next t ts =>
    split at h
    next name hx =>
      split at h
      next => cases h
      next after hskip =>
        split at h
        next => cases h
        next =>
          obtain ⟨q, hq, rfl⟩ := Token.skip?_eq_some hskip
          obtain ⟨⟨e, rest'⟩, hread, hs⟩ := map_eq_ok.1 h
          obtain ⟨us, rfl, he, -⟩ := Expr.read_eq_ok_iff.1 hread
          cases hs
          exact ⟨t, name, q, us, e, rfl, hx, hq, he, rfl⟩
    next => cases h

/-- Whatever is spelled as an assignment is read as that assignment. -/
theorem readAssignment_complete {x q : Token} {name : Letter} (span : Span)
    (hx : x.kind = .letter name) (hq : q.kind = .operator (.relation .equal))
    (he : Spelled .sum us e) (hrest : NoTerm rest) :
    readAssignment span (x :: q :: (us ++ rest)) = .ok (.assign span ⟨x.span, name⟩ e, rest) := by
  have hread : Expr.read (us ++ rest) = .ok (e, rest) := Expr.read_eq_ok_iff.2 ⟨us, rfl, he, hrest⟩
  simp [readAssignment, hx, skip?, hq, not_atEnd_of_read hread, hread, Except.map]

/-- The bounds of a `LIST` are up to two expressions. -/
theorem readExtent_sound {extent : Extent} (ht : t.kind = .word .LIST)
    (h : readExtent ts = .ok (extent, rest)) :
    ∃ us, ts = us ++ rest ∧ Phrase (t :: us) (.list t.span extent) := by
  rw [readExtent] at h
  split at h
  next =>
    cases h
    exact ⟨[], rfl, .listWhole ht⟩
  next =>
    obtain ⟨⟨low, after⟩, hlow, hmore⟩ := bind_eq_ok.1 h
    obtain ⟨us, rfl, hus, -⟩ := Expr.read_eq_ok_iff.1 hlow
    dsimp only at hmore
    split at hmore
    next =>
      cases hmore
      exact ⟨us, rfl, .listOnward ht hus⟩
    next after' hskip =>
      obtain ⟨c, hc, rfl⟩ := Token.skip?_eq_some hskip
      obtain ⟨⟨high, rest'⟩, hhigh, hextent⟩ := bind_eq_ok.1 hmore
      obtain ⟨vs, rfl, hvs, -⟩ := Expr.read_eq_ok_iff.1 hhigh
      cases hextent
      exact ⟨us ++ c :: vs, by simp, .listBetween ht hus hc hvs⟩

/-- One expression is read as the bound from which to list. -/
theorem readExtent_onward {low : Expr} (hlow : Spelled .sum us low) (hrest : atEnd rest) :
    readExtent (us ++ rest) = .ok (.onward low, rest) := by
  have hread : Expr.read (us ++ rest) = .ok (low, rest) :=
    Expr.read_eq_ok_iff.2 ⟨us, rfl, hlow, Expr.noTerm_of_atEnd hrest⟩
  have hskip : skip? .comma rest = none := by
    cases rest with
    | nil => rfl
    | cons t rest => simp [skip?, kind_of_atEnd hrest]
  simp only [readExtent, if_neg (not_atEnd_of_read hread), hread, bind, Except.bind, hskip]
  rfl

/-- Two expressions with a comma between them are read as both bounds. -/
theorem readExtent_between {c : Token} {vs : List Token} {low high : Expr}
    (hlow : Spelled .sum us low) (hc : c.kind = .comma) (hhigh : Spelled .sum vs high)
    (hrest : NoTerm rest) :
    readExtent (us ++ c :: (vs ++ rest)) = .ok (.between low high, rest) := by
  have hread : Expr.read (us ++ c :: (vs ++ rest)) = .ok (low, c :: (vs ++ rest)) :=
    Expr.read_eq_ok_iff.2 ⟨us, rfl, hlow, noTerm_cons hc rfl rfl⟩
  have hread' : Expr.read (vs ++ rest) = .ok (high, rest) :=
    Expr.read_eq_ok_iff.2 ⟨vs, rfl, hhigh, hrest⟩
  simp only [readExtent, if_neg (not_atEnd_of_read hread), hread, bind, Except.bind, skip?,
    if_pos hc, hread']
  rfl

/-- The condition of an `IF` is two expressions and a relation, and it ends behind one `THEN` at
    most. -/
theorem readCondition_sound {lhs rhs : Expr} {r : Relation}
    (h : readCondition ts = .ok ((lhs, r, rhs), rest)) :
    ∃ ls o rs thens, ts = ls ++ o :: (rs ++ (thens ++ rest)) ∧ Spelled .sum ls lhs ∧
      o.kind = .operator (.relation r) ∧ Spelled .sum rs rhs ∧ AtMostOne (.word .THEN) thens := by
  obtain ⟨⟨lhs', after⟩, hlhs, hmore⟩ := bind_eq_ok.1 h
  obtain ⟨ls, rfl, hls, -⟩ := Expr.read_eq_ok_iff.1 hlhs
  dsimp only at hmore
  split at hmore
  next => cases hmore
  next r' after' hrelation =>
    obtain ⟨⟨rhs', end'⟩, hrhs, hend⟩ := bind_eq_ok.1 hmore
    obtain ⟨rs, rfl, hrs, -⟩ := Expr.read_eq_ok_iff.1 hrhs
    -- The relation is the one token between the two expressions.
    have ho : ∃ o, after = o :: (rs ++ end') ∧ o.kind = .operator (.relation r') := by
      unfold relation? at hrelation
      split at hrelation
      next => cases hrelation
      next o after =>
        split at hrelation
        next hk =>
          cases hrelation
          exact ⟨o, rfl, hk⟩
        next => cases hrelation
    obtain ⟨o, rfl, hk⟩ := ho
    cases hend
    cases hskip : skip? (.word .THEN) end' with
    | none => exact ⟨ls, o, rs, [], rfl, hls, hk, hrs, .none⟩
    | some rest =>
      obtain ⟨u, hu, rfl⟩ := Token.skip?_eq_some hskip
      exact ⟨ls, o, rs, [u], rfl, hls, hk, hrs, .one hu⟩

/-- Two expressions with a relation between them are read as a condition, with a `THEN` after
    them. -/
theorem readCondition_complete {ls rs thens : List Token} {o : Token} {lhs rhs : Expr}
    {r : Relation} (hl : Spelled .sum ls lhs) (ho : o.kind = .operator (.relation r))
    (hr : Spelled .sum rs rhs) (hthen : AtMostOne (.word .THEN) thens) (hrest : NoTerm rest)
    (hne : ∀ t ∈ rest.head?, t.kind ≠ .word .THEN) :
    readCondition (ls ++ o :: (rs ++ (thens ++ rest))) = .ok ((lhs, r, rhs), rest) := by
  have hlhs : Expr.read (ls ++ o :: (rs ++ (thens ++ rest))) =
      .ok (lhs, o :: (rs ++ (thens ++ rest))) :=
    Expr.read_eq_ok_iff.2 ⟨ls, rfl, hl, noTerm_cons ho rfl rfl⟩
  have hterm : NoTerm (thens ++ rest) := by
    cases hthen with
    | none => exact hrest
    | one ht => exact noTerm_cons ht rfl rfl
  have hrhs : Expr.read (rs ++ (thens ++ rest)) = .ok (rhs, thens ++ rest) :=
    Expr.read_eq_ok_iff.2 ⟨rs, rfl, hr, hterm⟩
  have hskip : (skip? (.word .THEN) (thens ++ rest)).getD (thens ++ rest) = rest := by
    cases hthen with
    | one ht => simp [skip?, ht]
    | none =>
      cases rest with
      | nil => rfl
      | cons t rest => simp [skip?, hne t rfl]
  simp only [readCondition, hlhs, bind, Except.bind, relation?, ho, hrhs, hskip]
  rfl

/-! ### Statements -/

/-- Some tokens in which every `REM` has its comment behind it. -/
def Remarked : List Token → Prop
  | [] => True
  | t :: ts =>
    (t.kind = .word .REM → ∃ c text rest, ts = c :: rest ∧ c.kind = .comment text) ∧ Remarked ts

/-- The rest of a row in which every `REM` has its comment is such a row. -/
theorem Remarked.of_append (h : Remarked (us ++ ts)) : Remarked ts := by
  induction us with
  | nil => exact h
  | cons u us ih => exact ih h.2

/-- **Soundness.**  The tokens that a statement is read from spell it. -/
theorem read_sound {s : Statement} (hr : Remarked ts) (h : read ts = .ok (s, rest)) :
    ∃ us, ts = us ++ rest ∧ Phrase us s := by
  -- One case for each statement, in the order of the words; only the statement of an `IF` needs the
  -- induction.
  fun_induction read ts generalizing s rest with
  | case1 => cases h
  | case2 t ts name ht =>
    obtain ⟨x, name, q, us, e, hts, hx, hq, he, rfl⟩ := readAssignment_sound h
    obtain ⟨rfl, rfl⟩ := List.cons.inj hts
    exact ⟨t :: q :: us, rfl, .assign hx hq he⟩
  | case3 t ts ht =>
    cases h
    exact ⟨[t], rfl, .clear ht⟩
  | case4 t ts ht =>
    cases h
    exact ⟨[t], rfl, .halt ht⟩
  | case5 t ts ht =>
    cases h
    exact ⟨[t], rfl, .ret ht⟩
  | case6 t ht text lexeme line column after =>
    cases h
    exact ⟨[t, _], rfl, .remark ht rfl⟩
  | case7 t ht ts hne =>
    obtain ⟨⟨_, lexeme, line, column⟩, text, after, rfl, rfl⟩ := hr.1 ht
    exact (hne _ _ _ _ _ rfl).elim
  | case8 t ts ht =>
    obtain ⟨⟨e, rest'⟩, hread, hs⟩ := map_eq_ok.1 h
    obtain ⟨us, rfl, he, -⟩ := Expr.read_eq_ok_iff.1 (readJump_eq_ok_iff.1 hread)
    cases hs
    exact ⟨t :: us, rfl, .goto ht he⟩
  | case9 t ts ht =>
    obtain ⟨⟨e, rest'⟩, hread, hs⟩ := map_eq_ok.1 h
    obtain ⟨us, rfl, he, -⟩ := Expr.read_eq_ok_iff.1 (readJump_eq_ok_iff.1 hread)
    cases hs
    exact ⟨t :: us, rfl, .gosub ht he⟩
  | case10 t ts ht =>
    obtain ⟨x, name, q, us, e, rfl, hx, hq, he, rfl⟩ := readAssignment_sound h
    exact ⟨t :: x :: q :: us, rfl, .assignLet ht hx hq he⟩
  | case11 t ts ht =>
    obtain ⟨us, rfl, hus⟩ := readPrint_sound ht h
    exact ⟨t :: us, rfl, hus⟩
  | case12 t ts ht =>
    obtain ⟨⟨extent, rest'⟩, hread, hs⟩ := map_eq_ok.1 h
    obtain ⟨us, rfl, hus⟩ := readExtent_sound ht hread
    cases hs
    exact ⟨t :: us, rfl, hus⟩
  | case13 t ts ht =>
    obtain ⟨⟨targets, rest'⟩, hread, hs⟩ := map_eq_ok.1 h
    obtain ⟨us, rfl, hus⟩ := readTargets_sound hread
    cases hs
    exact ⟨t :: us, rfl, .input ht hus⟩
  | case14 t ts ht =>
    obtain ⟨⟨arguments, rest'⟩, hread, hs⟩ := map_eq_ok.1 h
    obtain ⟨-, us, rfl, hus, hlast⟩ := readArguments_sound hread
    cases hs
    exact ⟨t :: us, rfl, .run ht hus hlast⟩
  | case15 => cases h
  | case16 t ts ht lhs r rhs after hread ih =>
    obtain ⟨ls, o, rs, thens, rfl, hls, ho, hrs, hthen⟩ := readCondition_sound hread
    -- Behind the condition a remark still has its comment.
    have hafter : Remarked after := by
      have hin : Remarked ((ls ++ [o] ++ rs ++ thens) ++ after) := by simpa using hr.2
      exact hin.of_append
    obtain ⟨⟨body, rest'⟩, hbody, hs⟩ := map_eq_ok.1 h
    obtain ⟨us, rfl, hus⟩ := ih hafter hbody
    cases hs
    exact ⟨t :: (ls ++ o :: (rs ++ (thens ++ us))), by simp, .cond ht hls ho hrs hthen hus⟩
  | case17 => cases h

/-- An `IF` is read as its condition and the statement behind it. -/
theorem read_of_readCondition {lhs rhs : Expr} {r : Relation} (ht : t.kind = .word .IF)
    (h : readCondition ts = .ok ((lhs, r, rhs), rest)) :
    read (t :: ts) = (read rest).map fun (body, rest) => (.cond t.span lhs r rhs body, rest) := by
  rw [read.eq_def]
  simp only [ht]
  split
  next heq =>
    rw [h] at heq
    cases heq
  next heq =>
    rw [h] at heq
    cases heq
    rfl

/-- **Completeness.**  Whatever tokens spell a statement, up to the end of the line a statement is
    read from them. -/
theorem read_complete {s : Statement} (h : Phrase ts s) (hrest : atEnd rest) :
    ∃ s', read (ts ++ rest) = .ok (s', rest) := by
  have hterm : NoTerm rest := Expr.noTerm_of_atEnd hrest
  induction h with
  | @clear t ht => exact ⟨.clear t.span, by rw [read.eq_def]; simp [ht]⟩
  | @halt t ht => exact ⟨.halt t.span, by rw [read.eq_def]; simp [ht]⟩
  | @ret t ht => exact ⟨.ret t.span, by rw [read.eq_def]; simp [ht]⟩
  | @remark t c text ht hc =>
    obtain ⟨_, lexeme, line, column⟩ := c
    cases hc
    exact ⟨.remark t.span text, by rw [read.eq_def]; simp [ht]⟩
  | @goto t ts e ht he =>
    have hread : Expr.read (ts ++ rest) = .ok (e, rest) :=
      Expr.read_eq_ok_iff.2 ⟨ts, rfl, he, hterm⟩
    exact ⟨.goto t.span e, by rw [read.eq_def]; simp [ht, readJump_eq_ok_iff.2 hread, Except.map]⟩
  | @gosub t ts e ht he =>
    have hread : Expr.read (ts ++ rest) = .ok (e, rest) :=
      Expr.read_eq_ok_iff.2 ⟨ts, rfl, he, hterm⟩
    exact ⟨.gosub t.span e, by rw [read.eq_def]; simp [ht, readJump_eq_ok_iff.2 hread, Except.map]⟩
  | @assign x q ts name e hx hq he =>
    have hread := readAssignment_complete x.span hx hq he hterm
    exact ⟨_, by rw [read.eq_def]; simpa [hx] using hread⟩
  | @assignLet t x q ts name e ht hx hq he =>
    have hread := readAssignment_complete t.span hx hq he hterm
    exact ⟨_, by rw [read.eq_def]; simpa [ht] using hread⟩
  | @printNothing t ht =>
    have hread : readPrint t.span ([] ++ [] ++ rest) = .ok (.print t.span [], rest) :=
      readPrint_greedy .nil (by simp) .none hrest
    exact ⟨.print t.span [], by rw [read.eq_def]; simpa [ht] using hread⟩
  | @printText t s ts colon text items ht hs hts hcolon =>
    have hsingle : printSingle s = some [.text s.span text] := by simp [printSingle, hs]
    have hseq : Sequence printSingle .value (s :: ts) ([.text s.span text] ++ items) :=
      .single hsingle hts
    obtain ⟨items', hread⟩ := readPrint_complete hseq rfl (by simp [hs]) hcolon hrest
    exact ⟨.print t.span items', by rw [read.eq_def]; simpa [ht] using hread⟩
  | @printValue t us ts colon e items ht he hts hcolon =>
    have hseq : Sequence printSingle .value (us ++ ts) (.value e :: items) := .value he hts
    obtain ⟨u, us, rfl, hu⟩ := he.cons
    obtain ⟨items', hread⟩ := readPrint_complete hseq rfl (separator_of_opensValue hu) hcolon hrest
    exact ⟨.print t.span items', by rw [read.eq_def]; simpa [ht] using hread⟩
  | @listWhole t ht =>
    exact ⟨.list t.span .whole, by rw [read.eq_def]; simp [ht, readExtent, hrest, Except.map]⟩
  | @listOnward t ts e ht he =>
    have hread := readExtent_onward he hrest
    exact ⟨.list t.span (.onward e), by rw [read.eq_def]; simp [ht, hread, Except.map]⟩
  | @listBetween t c ts us low high ht hlow hc hhigh =>
    have hread := readExtent_between hlow hc hhigh hterm
    exact ⟨.list t.span (.between low high), by rw [read.eq_def]; simp [ht, hread, Except.map]⟩
  | @input t ts targets ht hts =>
    exact ⟨.input t.span targets,
      by rw [read.eq_def]; simp [ht, readTargets_complete hts hrest, Except.map]⟩
  | @run t ts arguments ht hts hlast =>
    obtain ⟨arguments', hread⟩ := readArguments_complete hts hlast hrest
    exact ⟨.run t.span arguments', by rw [read.eq_def]; simp [ht, hread, Except.map]⟩
  | @cond t o ls rs thens ts lhs rhs r body ht hl ho hr hthen hbody ih =>
    obtain ⟨body', hread⟩ := ih
    -- Neither an operator nor `THEN` can begin the statement inside.
    obtain ⟨b, bs, rfl, hb⟩ := hbody.cons
    have hbodyTerm : NoTerm (b :: bs ++ rest) := by
      rcases hb with hb | ⟨x, hb⟩ <;> exact noTerm_cons hb rfl rfl
    have hnoThen : ∀ u ∈ (b :: bs ++ rest).head?, u.kind ≠ .word .THEN := by
      rintro _ ⟨⟩
      rcases hb with hb | ⟨x, hb⟩ <;> rw [hb]
      · cases body <;> simp [word]
      · simp
    have hcondition := readCondition_complete hl ho hr hthen hbodyTerm hnoThen
    refine ⟨.cond t.span lhs r rhs body', ?_⟩
    have hshape : t :: (ls ++ o :: (rs ++ (thens ++ b :: bs))) ++ rest
        = t :: (ls ++ o :: (rs ++ (thens ++ (b :: bs ++ rest)))) := by simp
    rw [hshape, read_of_readCondition ht hcondition, hread]
    rfl

end LineBasic.Statement
