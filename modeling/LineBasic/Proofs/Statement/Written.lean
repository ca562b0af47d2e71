import LineBasic.Proofs.Expr.Written
import LineBasic.Proofs.Statement.Reading

namespace LineBasic

/-!
# Written statements

Every statement that keeps to the grammar can be written down, and from what is written the same
statement is read, up to its columns.  Assignments are written with `LET`, conditions with `THEN`.

* `Statement.unplaced` -- a statement without its columns;
* `Statement.kinds` -- the kinds of the tokens that a statement is written with;
* `Statement.isTypable` -- the statements that can be written;
* `Statement.legible` -- no token of a written statement runs on into the next;
* `exists_greedy_items`, `exists_greedy_arguments`, `exists_targets` -- what is written in a row is
  read as that row;
* `Statement.exists_read`, `Statement.exists_ofTokens` -- the statement that is read is the one that
  was written.
-/

open LineBasic.Expr (endsValue Spelled NoTerm)
open Statement (separator_of_opensValue)
open Token (atEnd)

/-! ### Without columns -/

/-- The variable without its columns. -/
def Target.unplaced (x : Target) : Target := ⟨.unplaced, x.name⟩

/-- The part of a `PRINT` statement without its columns. -/
def PrintItem.unplaced : PrintItem → PrintItem
  | text _ t => text .unplaced t
  | value e => value e.unplaced
  | comma _ => comma .unplaced
  | semicolon _ => semicolon .unplaced

/-- The bounds of a `LIST` without their columns. -/
def Extent.unplaced : Extent → Extent
  | whole => whole
  | onward low => onward low.unplaced
  | between low high => between low.unplaced high.unplaced

/-- The statement without its columns. -/
def Statement.unplaced : Statement → Statement
  | clear _ => clear .unplaced
  | halt _ => halt .unplaced
  | goto _ e => goto .unplaced e.unplaced
  | gosub _ e => gosub .unplaced e.unplaced
  | ret _ => ret .unplaced
  | cond _ lhs r rhs body => cond .unplaced lhs.unplaced r rhs.unplaced body.unplaced
  | input _ targets => input .unplaced (targets.map Target.unplaced)
  | assign _ x e => assign .unplaced x.unplaced e.unplaced
  | list _ extent => list .unplaced extent.unplaced
  | print _ items => print .unplaced (items.map PrintItem.unplaced)
  | remark _ comment => remark .unplaced comment
  | run _ arguments => run .unplaced (arguments.map Expr.unplaced)

/-! ### Written trees -/

/-- The kinds that a part of a `PRINT` statement is written with. -/
def PrintItem.kinds : PrintItem → List Kind
  | text _ t => [.string t]
  | value e => e.kinds
  | comma _ => [.comma]
  | semicolon _ => [.semicolon]

/-- The kinds that the bounds of a `LIST` are written with. -/
def Extent.kinds : Extent → List Kind
  | whole => []
  | onward low => low.kinds
  | between low high => low.kinds ++ .comma :: high.kinds

/-- The kinds of the tokens that a statement is written with. -/
def Statement.kinds : Statement → List Kind
  | clear _ => [.word .CLEAR]
  | halt _ => [.word .END]
  | goto _ e => .word .GOTO :: e.kinds
  | gosub _ e => .word .GOSUB :: e.kinds
  | ret _ => [.word .RETURN]
  | cond _ lhs r rhs body =>
    .word .IF :: (lhs.kinds ++ .operator (.relation r) :: (rhs.kinds ++ .word .THEN :: body.kinds))
  | input _ targets =>
    .word .INPUT :: List.intercalate [.comma] (targets.map fun x => [.letter x.name])
  | assign _ x e => .word .LET :: .letter x.name :: .operator (.relation .equal) :: e.kinds
  | list _ extent => .word .LIST :: extent.kinds
  | print _ items => .word .PRINT :: items.flatMap PrintItem.kinds
  | remark _ comment => [.word .REM, .comment comment]
  | run _ arguments => .word .RUN :: List.intercalate [.comma] (arguments.map Expr.kinds)

/-- Whether a part of a `PRINT` statement is a value. -/
def PrintItem.isValue : PrintItem → Bool
  | value _ => true
  | _ => false

/-- Whether a part of a `PRINT` statement can be written. -/
def PrintItem.isTypable : PrintItem → Bool
  | text _ t => '"' ∉ t.toList
  | value e => e.fits .sum
  | comma _ | semicolon _ => true

/-- Whether the bounds of a `LIST` can be written. -/
def Extent.isTypable : Extent → Bool
  | whole => true
  | onward low => low.fits .sum
  | between low high => low.fits .sum && high.fits .sum

/-- Whether a statement can be written: its expressions fit where they stand, an `INPUT` has a
    variable, the parts of a `PRINT` do not begin with a separator and have no two values side by
    side, no string has a quote in it, and no comment ends with space. -/
def Statement.isTypable : Statement → Bool
  | clear _ | halt _ | ret _ => true
  | goto _ e | gosub _ e | assign _ _ e => e.fits .sum
  | cond _ lhs _ rhs body => lhs.fits .sum && rhs.fits .sum && body.isTypable
  | input _ targets => targets ≠ []
  | list _ extent => extent.isTypable
  | print _ items =>
    items.head?.all (!·.isSeparator) && items.all PrintItem.isTypable &&
      decide (items.IsChain fun item next => ¬ (item.isValue ∧ next.isValue))
  | remark _ comment => comment.toList.getLast?.all (!Text.isSpace ·)
  | run _ arguments => arguments.all (Expr.fits .sum)

/-- A statement is written with its word in front. -/
theorem Statement.exists_kinds (s : Statement) : ∃ ks, s.kinds = .word s.word :: ks := by
  cases s <;> exact ⟨_, rfl⟩

/-! ### Written statements can be read off -/

variable {k : Kind} {ks : List Kind} {e : Expr} {items : List PrintItem} {arguments : List Expr}
  {targets : List Target} {t : Token} {ts rest : List Token} {s : Statement}

/-- An expression can be written so that its tokens are told apart. -/
theorem Expr.legible (e : Expr) : Legible e.kinds := by
  have hall : Legible (e.kinds ++ []) := e.legible_append (by simp) .nil
  rwa [List.append_nil] at hall

/-- A relation can be written before an expression. -/
theorem Expr.legible_relation (r : Relation) (e : Expr) (h : Legible (e.kinds ++ ks)) :
    Legible (.operator (.relation r) :: (e.kinds ++ ks)) := by
  refine .cons rfl ?_ h
  rw [List.head?_append_of_ne_nil _ e.kinds_ne_nil]
  exact e.relation_stopsAt r

/-- A variable can be written before what can stand behind a value. -/
theorem legible_letter (x : Letter) (hnext : ∀ k ∈ ks.head?, endsValue k) (h : Legible ks) :
    Legible (.letter x :: ks) := (Expr.var .unplaced x).legible_append hnext h

/-- What does not begin with a value begins with a string or a separator. -/
theorem PrintItem.head?_kinds (h : ∀ item ∈ items.head?, item.isValue = false) :
    ∀ k ∈ (items.flatMap PrintItem.kinds).head?, k = .comma ∨ k = .semicolon ∨
      ∃ text, k = .string text := by
  cases items with
  | nil => simp
  | cons item items =>
    have hitem := h item rfl
    cases item <;> simp_all [kinds, isValue]

/-- What does not begin with a separator is not written with one in front. -/
theorem PrintItem.head?_kinds_ne (h : items.head?.all (!·.isSeparator)) :
    ∀ k ∈ (items.flatMap PrintItem.kinds).head?, k ≠ .comma ∧ k ≠ .semicolon ∧ k ≠ .colon := by
  cases items with
  | nil => simp
  | cons item items =>
    cases item with
    | text => simp [kinds]
    | comma | semicolon => cases h
    | value e =>
      intro k hk
      rw [List.flatMap_cons, kinds, List.head?_append_of_ne_nil _ e.kinds_ne_nil] at hk
      exact separator_of_opensValue (e.opensValue_of_head?_kinds k hk)

/-- The parts of a `PRINT` statement can be written one after the other, if no two of them are
    values. -/
theorem legible_items (hitems : ∀ item ∈ items, item.isTypable)
    (hchain : items.IsChain fun item next => ¬ (item.isValue ∧ next.isValue)) :
    Legible (items.flatMap PrintItem.kinds) := by
  induction items with
  | nil => exact .nil
  | cons item items ih =>
    obtain ⟨hnext, hchain⟩ := List.isChain_cons.1 hchain
    obtain ⟨hitem, hitems⟩ := List.forall_mem_cons.1 hitems
    have hmore := ih hitems hchain
    cases item with
    | text _ t => exact hmore.closed hitem fun _ => rfl
    | comma | semicolon => exact hmore.closed rfl fun _ => rfl
    | value e =>
      have hother : ∀ next ∈ items.head?, next.isValue = false := by
        simpa [PrintItem.isValue] using hnext
      refine e.legible_append (fun k hk => ?_) hmore
      rcases PrintItem.head?_kinds hother k hk with rfl | rfl | ⟨_, rfl⟩ <;> rfl

/-- Expressions can be written with commas between them. -/
theorem legible_arguments (arguments : List Expr) :
    Legible (List.intercalate [.comma] (arguments.map Expr.kinds)) := by
  induction arguments with
  | nil => exact .nil
  | cons e arguments ih =>
    cases arguments with
    | nil => simpa using e.legible
    | cons e' arguments =>
      have hcomma : Legible (.comma :: _) := ih.closed rfl fun _ => rfl
      simpa [List.intercalate_cons_cons] using e.legible_append (by simp [endsValue]) hcomma

/-- Variables can be written with commas between them. -/
theorem legible_targets (targets : List Target) :
    Legible (List.intercalate [.comma] (targets.map fun x => [.letter x.name])) := by
  simpa [Function.comp_def, Expr.kinds] using legible_arguments
    (targets.map fun x => .var .unplaced x.name)

/-- **Legibility.** The tokens of a statement that can be written do not run on into each other. -/
theorem Statement.legible (h : s.isTypable) : Legible s.kinds := by
  induction s with
  | clear | halt | ret => exact Legible.nil.closed rfl fun _ => rfl
  | goto _ e | gosub _ e => exact e.legible.closed rfl fun _ => rfl
  -- From the right, as in the expressions: body, `THEN`, right side, relation, left side.
  | cond _ lhs r rhs body ih =>
    simp only [isTypable, Bool.and_eq_true] at h
    have hthen : Legible (.word .THEN :: body.kinds) := (ih h.2).closed rfl fun _ => rfl
    have hright := rhs.legible_append (by simp [endsValue]) hthen
    have hleft := lhs.legible_append (by simp [endsValue]) (rhs.legible_relation r hright)
    exact hleft.closed rfl fun _ => rfl
  | input _ targets => exact (legible_targets targets).closed rfl fun _ => rfl
  | assign _ x e =>
    have hvalue : Legible (e.kinds ++ []) := e.legible_append (by simp) .nil
    have hletter := legible_letter x.name (by simp [endsValue]) (e.legible_relation .equal hvalue)
    simpa [kinds] using hletter.closed rfl fun _ => rfl
  | list _ extent =>
    cases extent with
    | whole => exact Legible.nil.closed rfl fun _ => rfl
    | onward low => exact low.legible.closed rfl fun _ => rfl
    | between low high =>
      have hcomma : Legible (.comma :: high.kinds) := high.legible.closed rfl fun _ => rfl
      exact (low.legible_append (by simp [endsValue]) hcomma).closed rfl fun _ => rfl
  | print _ items =>
    simp only [isTypable, Bool.and_eq_true, List.all_eq_true, decide_eq_true_eq] at h
    exact (legible_items h.1.2 h.2).closed rfl fun _ => rfl
  | remark _ comment =>
    refine .remark fun c hc => ?_
    simp only [isTypable, Option.mem_def.1 hc] at h
    simpa using h
  | run _ arguments => exact (legible_arguments arguments).closed rfl fun _ => rfl

/-! ### Reading what was written -/

namespace Statement

/-- A part of a `PRINT` statement that is no value is written as one token, which stands for it. -/
theorem exists_printSingle {item : PrintItem} (hitem : item.isValue = false)
    (hts : ts.map Token.kind = item.kinds) :
    ∃ t items, ts = [t] ∧ printSingle t = some items ∧
      items.map PrintItem.unplaced = [item.unplaced] := by
  cases item with
  | value => cases hitem
  | text | comma | semicolon =>
    obtain ⟨t, rfl, ht⟩ := List.map_eq_singleton_iff.1 hts
    exact ⟨t, (printSingle t).getD [], rfl, by simp [printSingle, ht], by
      simp [printSingle, ht, PrintItem.unplaced]⟩

/-- What is written for the parts of a `PRINT` statement is read as these parts. -/
theorem exists_greedy_items (hitems : ∀ item ∈ items, item.isTypable)
    (hchain : items.IsChain fun item next => ¬ (item.isValue ∧ next.isValue))
    (hts : ts.map Token.kind = items.flatMap PrintItem.kinds) :
    ∃ items', Greedy printSingle .value ts items' ∧
      items'.map PrintItem.unplaced = items.map PrintItem.unplaced := by
  induction items generalizing ts with
  | nil =>
    obtain rfl : ts = [] := List.map_eq_nil_iff.1 hts
    exact ⟨[], .nil, rfl⟩
  | cons item items ih =>
    obtain ⟨hnext, hchain⟩ := List.isChain_cons.1 hchain
    obtain ⟨hitem, hitems⟩ := List.forall_mem_cons.1 hitems
    rw [List.flatMap_cons] at hts
    obtain ⟨us, vs, rfl, hus, hvs⟩ := List.map_eq_append_iff.1 hts
    obtain ⟨items', hread, hsame⟩ := ih hitems hchain hvs
    cases item with
    | text | comma | semicolon =>
      obtain ⟨t, _, rfl, hsingle, hpart⟩ := exists_printSingle rfl hus
      exact ⟨_, .single hsingle hread, by simp [hpart, hsame]⟩
    | value e =>
      obtain ⟨e', he', hvalue⟩ := Expr.exists_spelled hitem hus
      have hother : ∀ next ∈ items.head?, next.isValue = false := by
        simpa [PrintItem.isValue] using hnext
      -- No value stands behind a value, so nothing can make this one longer.
      have hend : NoTerm vs := by
        intro t ht
        have hmem : t.kind ∈ (items.flatMap PrintItem.kinds).head? := by
          rw [← hvs, List.head?_map]
          exact Option.mem_map_of_mem _ ht
        rcases PrintItem.head?_kinds hother t.kind hmem with hk | hk | ⟨_, hk⟩ <;> rw [hk] <;>
          exact ⟨rfl, rfl⟩
      exact ⟨_, .value he' hend hread, by simp [PrintItem.unplaced, hvalue, hsame]⟩

/-- What is written for the values of a `RUN` statement is read as these values. -/
theorem exists_greedy_arguments (harguments : ∀ e ∈ arguments, e.fits .sum)
    (hts : ts.map Token.kind = List.intercalate [.comma] (arguments.map Expr.kinds)) :
    ∃ arguments', Greedy runSingle id ts arguments' ∧ (∀ c ∈ ts.getLast?, c.kind ≠ .comma) ∧
      arguments'.map Expr.unplaced = arguments.map Expr.unplaced := by
  induction arguments generalizing ts with
  | nil =>
    obtain rfl : ts = [] := List.map_eq_nil_iff.1 hts
    exact ⟨[], .nil, by simp, rfl⟩
  | cons e arguments ih =>
    obtain ⟨he, harguments⟩ := List.forall_mem_cons.1 harguments
    -- There are commas between the values only, so the last one has none behind it.
    cases arguments with
    | nil =>
      rw [List.map_singleton, List.intercalate_singleton] at hts
      obtain ⟨e', he', hvalue⟩ := Expr.exists_spelled he hts
      have hread : Greedy runSingle id (ts ++ []) [e'] := .value he' (by simp [NoTerm]) .nil
      rw [List.append_nil] at hread
      exact ⟨[e'], hread, he'.getLast_ne_comma, by simp [hvalue]⟩
    | cons next arguments =>
      simp only [List.map_cons, List.intercalate_cons_cons, List.append_assoc,
        List.singleton_append, List.map_eq_append_iff, List.map_eq_cons_iff] at hts
      obtain ⟨us, _, rfl, hus, c, vs, rfl, hc, hvs⟩ := hts
      obtain ⟨e', he', hvalue⟩ := Expr.exists_spelled he hus
      obtain ⟨arguments', hread, hlast, hsame⟩ := ih harguments hvs
      have hcomma : runSingle c = some [] := by simp [runSingle, hc]
      refine ⟨_, .value he' (noTerm_cons hc rfl rfl) (.single hcomma hread), ?_,
        by simp [hvalue, hsame]⟩
      have hne : vs ≠ [] := by
        rintro rfl
        cases arguments <;> simp [List.intercalate_cons_cons, next.kinds_ne_nil] at hvs
      rwa [List.getLast?_append_cons, List.getLast?_cons_of_ne_nil hne]

/-- What is written for the variables of an `INPUT` statement is read as these variables. -/
theorem exists_targets (hne : targets ≠ [])
    (hts : ts.map Token.kind = List.intercalate [.comma] (targets.map fun x => [.letter x.name])) :
    ∃ targets', Targets ts targets' ∧
      targets'.map Target.unplaced = targets.map Target.unplaced := by
  induction targets generalizing ts with
  | nil => exact absurd rfl hne
  | cons x targets ih =>
    cases targets with
    | nil =>
      obtain ⟨t, rfl, ht⟩ := List.map_eq_singleton_iff.1 (by simpa using hts)
      exact ⟨_, .one ht, rfl⟩
    | cons next targets =>
      simp only [List.map_cons, List.intercalate_cons_cons, List.cons_append, List.nil_append,
        List.map_eq_cons_iff] at hts
      obtain ⟨t, _, rfl, ht, c, us, rfl, hc, hus⟩ := hts
      obtain ⟨targets', hread, hsame⟩ := ih (by simp) hus
      exact ⟨_, .cons ht hc hread, by simp [Target.unplaced, hsame]⟩

/-- What is written for the target of a jump is read as that target. -/
theorem exists_readJump (word : Keyword) (h : e.fits .sum) (hts : ts.map Token.kind = e.kinds)
    (hrest : atEnd rest) :
    ∃ e', readJump word (ts ++ rest) = .ok (e', rest) ∧ e'.unplaced = e.unplaced := by
  obtain ⟨e', he', hsame⟩ := Expr.exists_spelled h hts
  have hread : Expr.read (ts ++ rest) = .ok (e', rest) :=
    Expr.read_eq_ok_iff.2 ⟨ts, rfl, he', Expr.noTerm_of_atEnd hrest⟩
  exact ⟨e', readJump_eq_ok_iff.2 hread, hsame⟩

/-- What is written for the bounds of a `LIST` statement is read as these bounds. -/
theorem exists_readExtent {extent : Extent} (h : extent.isTypable)
    (hts : ts.map Token.kind = extent.kinds) (hrest : atEnd rest) :
    ∃ extent', readExtent (ts ++ rest) = .ok (extent', rest) ∧
      extent'.unplaced = extent.unplaced := by
  cases extent with
  | whole =>
    obtain rfl : ts = [] := List.map_eq_nil_iff.1 hts
    exact ⟨.whole, by simp [readExtent, hrest], rfl⟩
  | onward low =>
    obtain ⟨low', hlow, hsame⟩ := Expr.exists_spelled h hts
    exact ⟨.onward low', readExtent_onward hlow hrest, by simp [Extent.unplaced, hsame]⟩
  | between low high =>
    simp only [Extent.kinds, List.map_eq_append_iff, List.map_eq_cons_iff] at hts
    obtain ⟨us, _, rfl, hus, c, vs, rfl, hc, hvs⟩ := hts
    simp only [Extent.isTypable, Bool.and_eq_true] at h
    obtain ⟨low', hlow, hleft⟩ := Expr.exists_spelled h.1 hus
    obtain ⟨high', hhigh, hright⟩ := Expr.exists_spelled h.2 hvs
    refine ⟨.between low' high', ?_, by simp [Extent.unplaced, hleft, hright]⟩
    simpa using readExtent_between hlow hc hhigh (Expr.noTerm_of_atEnd hrest)

/-- **Written statements.** From tokens of the kinds that a statement is written with, up to the end
    of the line, that statement is read, whatever the columns are. -/
theorem exists_read (h : s.isTypable) (hts : ts.map Token.kind = s.kinds) (hrest : atEnd rest) :
    ∃ s', read (ts ++ rest) = .ok (s', rest) ∧ s'.unplaced = s.unplaced := by
  induction s generalizing ts with
  | clear =>
    obtain ⟨t, rfl, ht⟩ := List.map_eq_singleton_iff.1 hts
    exact ⟨.clear t.span, by rw [read.eq_def]; simp [ht], rfl⟩
  | halt =>
    obtain ⟨t, rfl, ht⟩ := List.map_eq_singleton_iff.1 hts
    exact ⟨.halt t.span, by rw [read.eq_def]; simp [ht], rfl⟩
  | ret =>
    obtain ⟨t, rfl, ht⟩ := List.map_eq_singleton_iff.1 hts
    exact ⟨.ret t.span, by rw [read.eq_def]; simp [ht], rfl⟩
  | remark _ comment =>
    simp only [kinds, List.map_eq_cons_iff, List.map_eq_nil_iff] at hts
    obtain ⟨t, _, rfl, ht, ⟨_, lexeme, line, column⟩, _, rfl, hc, rfl⟩ := hts
    cases hc
    exact ⟨.remark t.span comment, by rw [read.eq_def]; simp [ht], rfl⟩
  | goto _ e =>
    obtain ⟨t, us, rfl, ht, hus⟩ := List.map_eq_cons_iff.1 hts
    obtain ⟨e', hread, hsame⟩ := exists_readJump .GOTO h hus hrest
    refine ⟨.goto t.span e', ?_, by simp [unplaced, hsame]⟩
    rw [read.eq_def]
    simp [ht, hread, Except.map]
  | gosub _ e =>
    obtain ⟨t, us, rfl, ht, hus⟩ := List.map_eq_cons_iff.1 hts
    obtain ⟨e', hread, hsame⟩ := exists_readJump .GOSUB h hus hrest
    refine ⟨.gosub t.span e', ?_, by simp [unplaced, hsame]⟩
    rw [read.eq_def]
    simp [ht, hread, Except.map]
  | assign _ x e =>
    simp only [kinds, List.map_eq_cons_iff] at hts
    obtain ⟨t, _, rfl, ht, x', _, rfl, hx, q, us, rfl, hq, hus⟩ := hts
    obtain ⟨e', he', hsame⟩ := Expr.exists_spelled h hus
    have hread := readAssignment_complete t.span hx hq he' (Expr.noTerm_of_atEnd hrest)
    refine ⟨.assign t.span ⟨x'.span, x.name⟩ e', ?_, by simp [unplaced, Target.unplaced, hsame]⟩
    rw [read.eq_def]
    simpa [ht] using hread
  | list _ extent =>
    obtain ⟨t, us, rfl, ht, hus⟩ := List.map_eq_cons_iff.1 hts
    obtain ⟨extent', hread, hsame⟩ : ∃ extent', readExtent (us ++ rest) = .ok (extent', rest) ∧
        extent'.unplaced = extent.unplaced := exists_readExtent h hus hrest
    refine ⟨.list t.span extent', ?_, by simp [unplaced, hsame]⟩
    rw [read.eq_def]
    simp [ht, hread, Except.map]
  | print _ items =>
    obtain ⟨t, us, rfl, ht, hus⟩ := List.map_eq_cons_iff.1 hts
    simp only [isTypable, Bool.and_eq_true, List.all_eq_true, decide_eq_true_eq] at h
    obtain ⟨⟨hfirst, hitems⟩, hchain⟩ := h
    obtain ⟨items', hgreedy, hsame⟩ := exists_greedy_items hitems hchain hus
    have hopen : ∀ t ∈ (us ++ []).head?, t.kind ≠ .comma ∧ t.kind ≠ .semicolon ∧
        t.kind ≠ .colon := by
      rw [List.append_nil]
      intro t ht
      refine PrintItem.head?_kinds_ne hfirst t.kind ?_
      rw [← hus, List.head?_map]
      exact Option.mem_map_of_mem _ ht
    have hread : readPrint t.span (us ++ [] ++ rest) = .ok (.print t.span items', rest) :=
      readPrint_greedy hgreedy hopen .none hrest
    refine ⟨.print t.span items', ?_, by simp [unplaced, hsame]⟩
    rw [read.eq_def]
    simpa [ht] using hread
  | input _ targets =>
    obtain ⟨t, us, rfl, ht, hus⟩ := List.map_eq_cons_iff.1 hts
    obtain ⟨targets', htargets, hsame⟩ := exists_targets (by simpa [isTypable] using h) hus
    refine ⟨.input t.span targets', ?_, by simp [unplaced, hsame]⟩
    rw [read.eq_def]
    simp [ht, readTargets_complete htargets hrest, Except.map]
  | run _ arguments =>
    obtain ⟨t, us, rfl, ht, hus⟩ := List.map_eq_cons_iff.1 hts
    obtain ⟨arguments', hread, hlast, hsame⟩ :=
      exists_greedy_arguments (by simpa [isTypable] using h) hus
    refine ⟨.run t.span arguments', ?_, by simp [unplaced, hsame]⟩
    rw [read.eq_def]
    simp [ht, readArguments_greedy hread hlast hrest, Except.map]
  | cond _ lhs r rhs body ih =>
    simp only [kinds, List.map_eq_cons_iff, List.map_eq_append_iff] at hts
    obtain ⟨t, _, rfl, ht, ls, _, rfl, hls, o, _, rfl, ho, rs, _, rfl, hrs, u, us, rfl, hu, hus⟩ :=
      hts
    simp only [isTypable, Bool.and_eq_true] at h
    obtain ⟨⟨hleft, hright⟩, hbody⟩ := h
    obtain ⟨lhs', hl, hlhs⟩ := Expr.exists_spelled hleft hls
    obtain ⟨rhs', hr, hrhs⟩ := Expr.exists_spelled hright hrs
    obtain ⟨body', hread, hsame⟩ := ih hbody hus
    -- A statement begins with a word other than `THEN`.
    obtain ⟨ks, hks⟩ := body.exists_kinds
    obtain ⟨b, bs, rfl, hb, -⟩ := List.map_eq_cons_iff.1 (hus.trans hks)
    have hbodyTerm : NoTerm (b :: bs ++ rest) := noTerm_cons hb rfl rfl
    have hnoThen : ∀ v ∈ (b :: bs ++ rest).head?, v.kind ≠ .word .THEN := by
      rintro _ ⟨⟩
      rw [hb]
      cases body <;> simp [word]
    have hcondition := readCondition_complete hl ho hr (.one hu) hbodyTerm hnoThen
    refine ⟨.cond t.span lhs' r rhs' body', ?_, by simp [unplaced, hlhs, hrhs, hsame]⟩
    have hshape : t :: (ls ++ o :: (rs ++ u :: b :: bs)) ++ rest
        = t :: (ls ++ o :: (rs ++ ([u] ++ (b :: bs ++ rest)))) := by simp
    rw [hshape, read_of_readCondition ht hcondition, hread]
    rfl

/-- From a whole row of written tokens the statement is read, if the line ends behind them. -/
theorem exists_ofTokens {last : Token} (h : s.isTypable) (hts : ts.map Token.kind = s.kinds)
    (hlast : last.kind = .endOfLine) :
    ∃ s', ofTokens (ts ++ [last]) = .ok s' ∧ s'.unplaced = s.unplaced := by
  have hend : atEnd [last] := by simp [atEnd, Token.isEndOfLine, hlast]
  obtain ⟨s', hread, hsame⟩ := exists_read h hts hend
  exact ⟨s', by simp [ofTokens, hread, Token.expectEnd, hend, bind, Except.bind, pure, Except.pure],
    hsame⟩

end Statement

end LineBasic
