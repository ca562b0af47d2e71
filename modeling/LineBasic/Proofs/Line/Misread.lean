import LineBasic.Proofs.Line.Grammar
import LineBasic.Proofs.Token.Offsets

namespace LineBasic

/-!
# Where reading fails

What cannot be scanned or read is reported with a column of the text, or with the column behind it.

* `Misread` -- faults at the token where reading stops, or at the end of the tokens;
* `Expr.reading_misread`, `Statement.ofTokens_misread`, `Entry.ofTokens_misread` -- expressions,
  statements and lines are misread in no other way;
* `Diagnostic.WellPlaced` -- a report whose column is one of the text that it shows;
* `Token.scan_error` -- a text is scanned up to a character of it, or up to its end;
* `Entry.ofText_error` -- the main result, for whatever is typed.
-/

/-- A fault of grammar that is found where some of the tokens that are left begin. -/
structure Misread (ts : List Token) (fault : Fault) : Prop where
  /-- It is a fault of grammar. -/
  category : fault.cause.code.category = .grammar
  /-- It has the column of the first token that is left. -/
  column : ∃ us, us <:+ ts ∧ fault.column = Token.spanOf us

variable {t : Token} {ts us rest : List Token} {fault : Fault} {e : Expr}

/-- What is misread in the rest of a row is misread in the row. -/
theorem Misread.mono (h : Misread us fault) (hus : us <:+ ts) : Misread ts fault := by
  obtain ⟨hcategory, vs, hvs, hcolumn⟩ := h
  exact ⟨hcategory, vs, hvs.trans hus, hcolumn⟩

/-- What is misread behind a token is misread with the token before it. -/
theorem Misread.cons (h : Misread ts fault) (t : Token) : Misread (t :: ts) fault :=
  h.mono (List.suffix_cons t ts)

/-- A fault of grammar is found at the first of the tokens that are left. -/
theorem misread_here {cause : Cause} (hcause : cause.code.category = .grammar) (ts : List Token) :
    Misread ts ⟨cause, Token.spanOf ts⟩ :=
  ⟨hcause, ts, List.suffix_rfl, rfl⟩

/-! ### Expressions -/

namespace Expr

/-- An expression that ends too early is misread where it ends. -/
theorem finish_misread {frames : List Frame} (h : finish e frames ts = .error fault) :
    Misread ts fault := by
  unfold finish at h
  split at h
  next => cases h
  next =>
    cases h
    exact misread_here rfl ts

/-- Whatever the reader waits for, it fails at the token where it stops. -/
theorem reading_misread (ts : List Token) :
    (∀ frames, operand frames ts = .error fault → Misread ts fault) ∧
    (∀ f frames, openFunction f frames ts = .error fault → Misread ts fault) ∧
    (∀ v frames, operator v frames ts = .error fault → Misread ts fault) := by
  -- The three states of the reader call each other on the rest of the row, so they go through one
  -- induction.
  induction ts with
  | nil =>
    refine ⟨fun _ h => ?_, fun _ _ h => ?_, fun _ _ h => ?_⟩
    · cases h
      exact misread_here rfl []
    · cases h
      exact misread_here rfl []
    · exact finish_misread (by simpa [operator] using h)
  | cons t ts ih =>
    obtain ⟨ihOperand, ihOpen, ihOperator⟩ := ih
    refine ⟨fun frames h => ?_, fun f frames h => ?_, fun v frames h => ?_⟩
    · rw [operand] at h
      split at h
      all_goals first
        | exact (ihOperand _ h).cons t
        | exact (ihOpen _ _ h).cons t
        | exact (ihOperator _ _ h).cons t
        | cases h; exact misread_here rfl (t :: ts)
    · rw [openFunction] at h
      split at h
      next => exact (ihOperand _ h).cons t
      next =>
        cases h
        exact misread_here rfl (t :: ts)
    · rw [operator] at h
      repeat' split at h
      all_goals first
        | exact (ihOperand _ h).cons t
        | exact (ihOperator _ _ h).cons t
        | exact finish_misread h

/-- An expression is misread at a token that is left. -/
theorem read_misread (h : read ts = .error fault) : Misread ts fault := (reading_misread ts).1 _ h

/-- What is left behind an expression is an end of the tokens. -/
theorem suffix_of_read (h : read ts = .ok (e, rest)) : rest <:+ ts := by
  obtain ⟨us, rfl, -, -⟩ := read_eq_ok_iff.1 h
  exact List.suffix_append us rest

end Expr

/-! ### Statements -/

namespace Statement

open Token (skip? atEnd)

/-- What is left behind a token that may be skipped is the rest of the row. -/
theorem suffix_of_skip? {k : Kind} (h : skip? k ts = some rest) : rest <:+ ts := by
  obtain ⟨t, -, rfl⟩ := Token.skip?_eq_some h
  exact List.suffix_cons t rest

/-- An assignment is misread at a token that is left. -/
theorem readAssignment_misread {span : Span} (h : readAssignment span ts = .error fault) :
    Misread ts fault := by
  unfold readAssignment at h
  split at h
  next =>
    cases h
    exact misread_here rfl []
  next t ts =>
    split at h
    next =>
      split at h
      next =>
        cases h
        exact (misread_here rfl ts).cons t
      next after hskip =>
        have hafter : after <:+ t :: ts := (suffix_of_skip? hskip).trans (List.suffix_cons t ts)
        split at h
        next =>
          cases h
          exact (misread_here rfl after).mono hafter
        next => exact (Expr.read_misread (map_eq_error.1 h)).mono hafter
    next =>
      cases h
      exact misread_here rfl (t :: ts)

/-- The parts of a `PRINT` are misread at a token that is left. -/
theorem readItems_misread (h : readItems ts = .error fault) : Misread ts fault := by
  fun_induction readItems ts with
  | case1 => cases h
  | case2 => cases h
  | case3 => cases h
  | case4 t ts text hk ih => exact (ih (map_eq_error.1 h)).cons t
  | case5 t ts hk ih => exact (ih (map_eq_error.1 h)).cons t
  | case6 t ts hk ih => exact (ih (map_eq_error.1 h)).cons t
  | case7 t ts fault' hread =>
    cases h
    exact Expr.read_misread hread
  | case8 t ts e after hread _ _ _ _ _ ih =>
    exact (ih (map_eq_error.1 h)).mono (Expr.suffix_of_read hread)

/-- A `PRINT` is misread at a token that is left. -/
theorem readPrint_misread {span : Span} (h : readPrint span ts = .error fault) :
    Misread ts fault := by
  unfold readPrint at h
  split at h
  next =>
    cases h
    exact misread_here rfl ts
  next => exact readItems_misread (map_eq_error.1 h)

/-- The bounds of a `LIST` are misread at a token that is left. -/
theorem readExtent_misread (h : readExtent ts = .error fault) : Misread ts fault := by
  unfold readExtent at h
  split at h
  next => cases h
  next =>
    rcases bind_eq_error.1 h with hlow | ⟨⟨low, after⟩, hlow, hmore⟩
    · exact Expr.read_misread hlow
    · dsimp only at hmore
      split at hmore
      next => cases hmore
      next rest hskip =>
        rcases bind_eq_error.1 hmore with hhigh | ⟨_, _, hpure⟩
        · exact (Expr.read_misread hhigh).mono
            ((suffix_of_skip? hskip).trans (Expr.suffix_of_read hlow))
        · cases hpure

/-- What is left behind a relation is the rest of the row. -/
theorem suffix_of_relation? {r : Relation} (h : relation? ts = some (r, rest)) : rest <:+ ts := by
  unfold relation? at h
  split at h
  next => cases h
  next t after =>
    split at h
    next =>
      cases h
      exact List.suffix_cons t rest
    next => cases h

/-- A condition is misread at a token that is left. -/
theorem readCondition_misread (h : readCondition ts = .error fault) : Misread ts fault := by
  rcases bind_eq_error.1 h with hlhs | ⟨⟨lhs, after⟩, hlhs, hmore⟩
  · exact Expr.read_misread hlhs
  · have hafter : after <:+ ts := Expr.suffix_of_read hlhs
    dsimp only at hmore
    split at hmore
    next =>
      cases hmore
      exact (misread_here rfl after).mono hafter
    next r after' hrelation =>
      rcases bind_eq_error.1 hmore with hrhs | ⟨_, _, hpure⟩
      · exact (Expr.read_misread hrhs).mono ((suffix_of_relation? hrelation).trans hafter)
      · cases hpure

/-- What is left behind a condition is the rest of the row. -/
theorem suffix_of_readCondition {c : Expr × Relation × Expr}
    (h : readCondition ts = .ok (c, rest)) :
    rest <:+ ts := by
  obtain ⟨ls, o, rs, thens, rfl, -⟩ := readCondition_sound h
  exact ⟨ls ++ o :: (rs ++ thens), by simp⟩

/-- The variables of an `INPUT` are misread at a token that is left. -/
theorem readTargets_misread (h : readTargets ts = .error fault) : Misread ts fault := by
  fun_induction readTargets ts with
  | case1 =>
    cases h
    exact misread_here rfl []
  | case2 => cases h
  | case3 t x hx c ts hc ih => exact ((ih (map_eq_error.1 h)).cons c).cons t
  | case4 => cases h
  | case5 t ts =>
    cases h
    exact misread_here rfl (t :: ts)

/-- The values of a `RUN` are misread at a token that is left. -/
theorem readArguments_misread (h : readArguments ts = .error fault) : Misread ts fault := by
  fun_induction readArguments ts with
  | case1 => cases h
  | case2 => cases h
  | case3 t ts =>
    cases h
    exact (misread_here rfl ts).cons t
  | case4 t ts hk hmore ih => exact (ih h).cons t
  | case5 t ts fault' hread =>
    cases h
    exact Expr.read_misread hread
  | case6 t ts e after hread _ _ ih =>
    exact (ih (map_eq_error.1 h)).mono (Expr.suffix_of_read hread)

/-- The target of a jump is misread at a token that is left. -/
theorem readJump_misread {word : Keyword} (h : readJump word ts = .error fault) :
    Misread ts fault := by
  unfold readJump at h
  split at h
  next =>
    cases h
    exact misread_here rfl ts
  next => exact Expr.read_misread h

/-- **Statements that are misread.**  A statement is misread at the token where its reader stops. -/
theorem read_misread (h : read ts = .error fault) : Misread ts fault := by
  fun_induction read ts with
  | case1 =>
    cases h
    exact misread_here rfl []
  | case2 => exact readAssignment_misread h
  | case3 | case4 | case5 | case6 | case7 => cases h
  | case8 t | case9 t => exact (readJump_misread (map_eq_error.1 h)).cons t
  | case10 t => exact (readAssignment_misread h).cons t
  | case11 t => exact (readPrint_misread h).cons t
  | case12 t => exact (readExtent_misread (map_eq_error.1 h)).cons t
  | case13 t => exact (readTargets_misread (map_eq_error.1 h)).cons t
  | case14 t => exact (readArguments_misread (map_eq_error.1 h)).cons t
  | case15 t ts ht fault' hread =>
    cases h
    exact (readCondition_misread hread).cons t
  | case16 t ts ht lhs r rhs after hread ih =>
    exact ((ih (map_eq_error.1 h)).mono (suffix_of_readCondition hread)).cons t
  | case17 t ts =>
    cases h
    exact misread_here rfl (t :: ts)

/-- A statement with the end of the line behind it is misread at one of its tokens. -/
theorem ofTokens_misread (hr : Remarked ts) (h : ofTokens ts = .error fault) :
    Misread ts fault := by
  rcases bind_eq_error.1 h with hread | ⟨⟨s, rest⟩, hread, hmore⟩
  · exact read_misread hread
  · rcases bind_eq_error.1 hmore with hexpect | ⟨_, _, hpure⟩
    · obtain ⟨us, rfl, -⟩ := read_sound hr hread
      unfold Token.expectEnd at hexpect
      split at hexpect
      next => cases hexpect
      next =>
        cases hexpect
        exact (misread_here rfl rest).mono (List.suffix_append us rest)
    · cases hpure

end Statement

/-! ### Lines -/

open Token (IsRow Body)

/-- A number that no line can have is misread at itself. -/
theorem Token.lineNumber_misread (h : t.lineNumber = .error fault) (ts : List Token) :
    Misread (t :: ts) fault := by
  unfold Token.lineNumber at h
  split at h
  case h_3 =>
    cases h
    exact misread_here rfl (t :: ts)
  all_goals
    split at h
    next => cases h
    next =>
      cases h
      exact misread_here rfl (t :: ts)

namespace Diagnostic

/-- A report of a fault, perhaps with the line that it is on, but without its text. -/
def IsBare (d : Diagnostic) (fault : Fault) : Prop := ∃ line, d = fault.diagnostic.atLine line

/-- A report whose column is one of the text that it shows.  Only where a text could not be read,
    the column may be the one behind it. -/
def WellPlaced (d : Diagnostic) : Prop :=
  ∀ source ∈ d.source, d.column.start ≤ source.length ∧
    (d.category ≠ .lexical → d.category ≠ .grammar → d.column.start < source.length)

end Diagnostic

namespace Entry

/-- A row of tokens that is no entry is misread. -/
theorem ofTokens_misread {d : Diagnostic} (hrow : IsRow ts) (h : ofTokens ts = .error d) :
    ∃ fault, Misread ts fault ∧ d.IsBare fault := by
  cases hrow with
  | @numbered t last digits body ht _ _ hbody hlast =>
    simp only [ofTokens, ht] at h
    split at h
    next fault hnumber =>
      cases h
      exact ⟨fault, Token.lineNumber_misread hnumber _, none, rfl⟩
    next n _ =>
      split at h
      next => cases h
      next =>
        split at h
        next => cases h
        next fault hread =>
          cases h
          exact ⟨fault, (Statement.ofTokens_misread (Statement.remarked_of_body hbody hlast)
            hread).cons t, some n, rfl⟩
  | @plain last body hbody hlast =>
    rw [ofTokens_plain hbody hlast] at h
    split at h
    next => cases h
    next fault hread =>
      cases h
      exact ⟨fault, Statement.ofTokens_misread (Statement.remarked_of_body hbody hlast)
        hread, none, rfl⟩

end Entry

/-! ### Texts -/

namespace Token

variable {c : Char} {cs : List Char} {line : Option Nat} {column : Nat}

/-- A text that cannot be split up fails at a character of it, or right behind it. -/
theorem first_error (h : first column c cs = .error fault) :
    fault.cause.code.category = .lexical ∧ fault.column.start ≤ column + (c :: cs).length := by
  unfold first at h
  split at h
  next => cases h
  split at h
  next =>
    split at h
    next => cases h
    next =>
      cases h
      exact ⟨rfl, Nat.le_refl _⟩
  split at h
  next => cases h
  split at h
  next =>
    cases h
    exact ⟨rfl, Nat.le_add_right _ _⟩
  next => split at h <;> cases h

/-- A text that cannot be scanned is scanned up to one of its characters, or up to its end. -/
theorem scanFrom_error (h : scanFrom line column cs = .error fault) :
    fault.cause.code.category = .lexical ∧ fault.column.start ≤ column + cs.length := by
  fun_induction scanFrom line column cs with
  | case1 => cases h
  | case2 column c cs _ ih =>
    have hmore := ih h
    rw [List.length_cons]
    exact ⟨hmore.1, by omega⟩
  | case3 column c cs _ fault' hfirst =>
    cases h
    exact first_error hfirst
  | case4 column c cs _ pieces rest hfirst ih =>
    have hmore := ih (map_eq_error.1 h)
    have hlength := congrArg List.length (first_covers hfirst).1
    rw [List.length_append] at hlength
    exact ⟨hmore.1, by omega⟩

/-- A text does not get longer when its line end is taken away. -/
theorem length_dropLineEnd_le (cs : List Char) : (dropLineEnd cs).length ≤ cs.length := by
  obtain ⟨lineEnd, htext, -⟩ := exists_dropLineEnd_append cs
  rw [← congrArg List.length htext, List.length_append]
  exact Nat.le_add_right _ _

/-- A text that cannot be scanned fails at a character of it, or right behind it. -/
theorem scan_error {text : String} {d : Diagnostic} (h : scan text = .error d) :
    ∃ fault, d.IsBare fault ∧ fault.cause.code.category = .lexical ∧
      fault.column.start ≤ text.length := by
  obtain ⟨front, covers, rest, hfronted⟩ := exists_fronted text.toList
  rw [hfronted.scan_eq] at h
  split at h
  next => cases h
  next fault hfault =>
    cases h
    obtain ⟨hcategory, hstart⟩ := scanFrom_error hfault
    have hlength := length_dropLineEnd_le text.toList
    rw [hfronted.text, List.length_append, List.length_append, String.length_toList] at hlength
    exact ⟨fault, ⟨_, rfl⟩, hcategory, by omega⟩

/-- No token of a text stands behind its end. -/
theorem column_le_of_scan {text : String} (h : scan text = .ok ts) :
    ∀ t ∈ ts, t.column ≤ text.length := by
  obtain ⟨front, covers, rest, body, hfronted, hlie, rfl⟩ := exists_lie_of_scan h
  have haccounts := hfronted.accounts hlie
  have hlast : front.length + covers.length + rest.length ≤ text.length := by
    rw [← String.length_toList]
    exact haccounts.last_column.trans_le (length_dropLineEnd_le _)
  exact List.forall_mem_append.2
    ⟨fun t ht => (haccounts.column_le ht).trans hlast, List.forall_mem_singleton.2 hlast⟩

end Token

/-- Tokens of a text are misread at one of its columns, or behind it. -/
theorem Misread.start_le {text : String} (h : Misread ts fault) (hscan : Token.scan text = .ok ts) :
    fault.column.start ≤ text.length := by
  obtain ⟨-, us, hus, hcolumn⟩ := h
  rw [hcolumn]
  cases us with
  | nil => exact Nat.zero_le _
  | cons t us => exact Token.column_le_of_scan hscan t (hus.subset List.mem_cons_self)

/-- **Texts that cannot be read.**  The report of a text that is no entry shows the text without the
    space at its end, and a column of it or the one behind it. -/
theorem Entry.ofText_error {text : String} {d : Diagnostic} (h : ofText text = .error d) :
    d.source = some (trimmed text) ∧ d.WellPlaced := by
  -- Faults of the two categories that reading has may name the column behind the text.
  have hbare : ∀ {d : Diagnostic} {fault : Fault}, d.IsBare fault →
      fault.cause.code.category = .lexical ∨ fault.cause.code.category = .grammar →
      fault.column.start ≤ (trimmed text).length →
      (d.inSource (trimmed text)).source = some (trimmed text) ∧
      (d.inSource (trimmed text)).WellPlaced := by
    rintro _ fault ⟨line, rfl⟩ hcategory hstart
    refine ⟨rfl, ?_⟩
    rintro _ ⟨⟩
    refine ⟨hstart, fun hlexical hgrammar => ?_⟩
    rcases hcategory with hcategory | hcategory
    · exact absurd hcategory hlexical
    · exact absurd hcategory hgrammar
  unfold ofText at h
  dsimp only at h
  split at h
  next => cases h
  next d' hd =>
    cases h
    rcases bind_eq_error.1 hd with hscan | ⟨tokens, hscan, hread⟩
    · obtain ⟨fault, hfault, hcategory, hstart⟩ := Token.scan_error hscan
      exact hbare hfault (.inl hcategory) hstart
    · obtain ⟨fault, hmisread, hfault⟩ := ofTokens_misread (Token.scan_isRow hscan) hread
      exact hbare hfault (.inr hmisread.category) (hmisread.start_le hscan)

end LineBasic
