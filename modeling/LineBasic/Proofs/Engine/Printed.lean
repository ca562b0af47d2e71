import LineBasic.Proofs.Engine.Performed

namespace LineBasic

/-!
# Printing

A `PRINT` writes one text that holds all its parts, or it fails and writes nothing.  Commas go on to
columns that are counted from the beginning of this text.

* `values`, `FailsAt` -- the expressions of a `PRINT`, and the first of them that has no value;
* `LaysOut` -- the texts that the parts add, one for each, given the values of the expressions;
* `ending` -- what is written behind the parts;
* `LaysOut.unique` -- these texts are settled by the values;
* `printOnto_of_ok`, `printOnto_of_error` -- parts are laid out behind a text, or fail as their
  expressions do;
* `evalAll_values_error_iff` -- some expressions fail at the first of them that has no value;
* `Engine.print_lays_out` -- the main result, for all engines and parts.
-/

/-- The expression that a part of a `PRINT` evaluates. -/
def PrintItem.value? : PrintItem → Option Expr
  | value e => some e
  | text .. | comma _ | semicolon _ => none

/-- The expressions that a `PRINT` evaluates, in order. -/
def values (items : List PrintItem) : List Expr := items.filterMap PrintItem.value?

/-- The texts that some parts of a `PRINT` add behind a text of some length, one for each part,
    given the values of their expressions. -/
inductive LaysOut : Nat → List PrintItem → List Int16 → List String → Prop
  | nil {k : Nat} : LaysOut k [] [] []
  /-- A string is added as it is. -/
  | text {k : Nat} {span : Span} {text : String} {items : List PrintItem} {ns : List Int16}
      {texts : List String} (h : LaysOut (k + text.length) items ns texts) :
      LaysOut k (.text span text :: items) ns (text :: texts)
  /-- A value is added in decimal. -/
  | value {k : Nat} {e : Expr} {n : Int16} {items : List PrintItem} {ns : List Int16}
      {texts : List String} (h : LaysOut (k + (toString n.toInt).length) items ns texts) :
      LaysOut k (.value e :: items) (n :: ns) (toString n.toInt :: texts)
  /-- A comma adds one to eight spaces, so that what follows begins at a multiple of eight. -/
  | comma {k gap : Nat} {span : Span} {items : List PrintItem} {ns : List Int16}
      {texts : List String} (hlow : 1 ≤ gap) (hhigh : gap ≤ 8) (hstop : (k + gap) % 8 = 0)
      (h : LaysOut (k + gap) items ns texts) :
      LaysOut k (.comma span :: items) ns (String.ofList (List.replicate gap ' ') :: texts)
  /-- A semicolon adds nothing. -/
  | semicolon {k : Nat} {span : Span} {items : List PrintItem} {ns : List Int16}
      {texts : List String} (h : LaysOut k items ns texts) :
      LaysOut k (.semicolon span :: items) ns ("" :: texts)

/-- What is written behind the parts of a `PRINT`: a newline, unless the last of them is a
    separator. -/
def ending (items : List PrintItem) : String :=
  match items.getLast? with
  | some (.comma _) | some (.semicolon _) => ""
  | _ => "\n"

variable {γ : Type} [RandomSource γ]

/-- Whether one of the expressions of a `PRINT` has no value, while all those before it have, with
    its fault and the machine afterwards. -/
def FailsAt (items : List PrintItem) (m : Machine γ) (fault : Fault) (m' : Machine γ) : Prop :=
  ∃ before e after ns m₁, items = before ++ .value e :: after ∧
    evalAll (values before) m = .ok ns m₁ ∧ e.eval m₁ = .error fault m'

/-! ### Layouts -/

variable {k : Nat} {item : PrintItem} {items : List PrintItem} {ns : List Int16}
  {texts texts' : List String} {m m' : Machine γ} {fault : Fault} {text : String}

omit [RandomSource γ] in
/-- What the parts add is settled by the values. -/
theorem LaysOut.unique (h : LaysOut k items ns texts) (h' : LaysOut k items ns texts') :
    texts = texts' := by
  induction h generalizing texts' with
  | nil =>
    cases h'
    rfl
  | text _ ih =>
    cases h' with
    | text h' => rw [ih h']
  | value _ ih =>
    cases h' with
    | value h' => rw [ih h']
  | @comma k gap _ _ _ _ hlow hhigh hstop _ ih =>
    cases h' with
    | @comma _ gap' _ _ _ _ hlow' hhigh' hstop' h' =>
      -- Of eight numbers one after the other only one is a multiple of eight.
      obtain rfl : gap = gap' := by omega
      rw [ih h']
  | semicolon _ ih =>
    cases h' with
    | semicolon h' => rw [ih h']

omit [RandomSource γ] in
/-- A column of the table is not farther away than a column is wide. -/
theorem toNextZone_eq (text : String) : ∃ gap, 1 ≤ gap ∧ gap ≤ 8 ∧ (text.length + gap) % 8 = 0 ∧
    toNextZone text = text ++ String.ofList (List.replicate gap ' ') := by
  have hrest : text.length % 8 < 8 := Nat.mod_lt _ (by decide)
  exact ⟨8 - text.length % 8, by omega, by omega, by omega, rfl⟩

omit [RandomSource γ] in
/-- What is written behind the parts is a newline, unless a separator is the last of them. -/
theorem append_ending (text : String) (items : List PrintItem) : text ++ ending items =
    if items.getLast?.any PrintItem.isSeparator then text else text ++ "\n" := by
  unfold ending
  cases items.getLast? with
  | none => rfl
  | some item =>
    cases item with
    | text | value => rfl
    | comma | semicolon => exact String.append_empty

/-! ### Evaluating the parts -/

/-- The values of some expressions begin with the value of the first. -/
theorem evalAll_cons_eq_ok_iff {e : Expr} {es : List Expr} : evalAll (e :: es) m = .ok ns m' ↔
    ∃ n ns' m₁, ns = n :: ns' ∧ e.eval m = .ok n m₁ ∧ evalAll es m₁ = .ok ns' m' := by
  constructor
  · intro h
    cases hvalue : e.eval m with
    | error fault m₁ => cases (bind_of_error hvalue).symm.trans h
    | ok n m₁ =>
      cases hvalues : evalAll es m₁ with
      | error fault m₂ => cases ((bind_of_ok hvalue).trans (bind_of_error hvalues)).symm.trans h
      | ok ns' m₂ =>
        cases ((bind_of_ok hvalue).trans (bind_of_ok hvalues)).symm.trans h
        exact ⟨n, ns', m₁, rfl, rfl, hvalues⟩
  · rintro ⟨n, ns', m₁, rfl, hvalue, hvalues⟩
    exact (bind_of_ok hvalue).trans (bind_of_ok hvalues)

/-- Parts whose expressions all have values are laid out behind the text. -/
theorem printOnto_of_ok (text : String) (h : evalAll (values items) m = .ok ns m') :
    ∃ texts, LaysOut text.length items ns texts ∧
      printOnto text items m = .ok (text ++ String.join texts) m' := by
  induction items generalizing text m ns with
  | nil =>
    cases h
    exact ⟨[], .nil, by rw [String.join_nil, String.append_empty]; rfl⟩
  | cons item items ih =>
    cases item with
    | text span more =>
      obtain ⟨texts, hlaid, hprint⟩ := ih (text ++ more) h
      rw [String.length_append] at hlaid
      exact ⟨more :: texts, .text hlaid,
        by rw [printOnto, hprint, String.join_cons, String.append_assoc]⟩
    | value e =>
      obtain ⟨n, ns', m₁, rfl, hvalue, hvalues⟩ := evalAll_cons_eq_ok_iff.1 h
      have hdecimal : Text.ofInt n.toInt = toString n.toInt := by cases n.toInt <;> rfl
      obtain ⟨texts, hlaid, hprint⟩ := ih (text ++ toString n.toInt) hvalues
      rw [String.length_append] at hlaid
      refine ⟨_, .value hlaid, ?_⟩
      rw [printOnto, bind_of_ok hvalue, hdecimal, hprint, String.join_cons, String.append_assoc]
    -- The gap depends on where the text ends, so the columns are those of the whole text so far.
    | comma span =>
      obtain ⟨gap, hlow, hhigh, hstop, hzone⟩ := toNextZone_eq text
      obtain ⟨texts, hlaid, hprint⟩ := ih (toNextZone text) h
      rw [hzone] at hlaid hprint
      rw [String.length_append, String.length_ofList, List.length_replicate] at hlaid
      refine ⟨_, .comma hlow hhigh hstop hlaid, ?_⟩
      rw [printOnto, hzone, hprint, String.join_cons, String.append_assoc]
    | semicolon span =>
      obtain ⟨texts, hlaid, hprint⟩ := ih text h
      exact ⟨"" :: texts, .semicolon hlaid,
        by rw [printOnto, hprint, String.join_cons, String.empty_append]⟩

/-- Adding parts to a text fails as evaluating their expressions does. -/
theorem printOnto_of_error (h : evalAll (values items) m = .error fault m') :
    printOnto text items m = .error fault m' := by
  induction items generalizing text m with
  | nil => cases h
  | cons item items ih =>
    cases item with
    | text | comma | semicolon => exact ih h
    | value e =>
      rcases bind_error h with hvalue | ⟨n, m₁, hvalue, h⟩
      · exact bind_of_error hvalue
      · rcases bind_error h with hvalues | ⟨ns, m₂, -, h⟩
        · exact (bind_of_ok hvalue).trans (ih hvalues)
        · cases h

/-- Evaluating the expressions fails at the first of them that has no value. -/
theorem evalAll_values_error_iff :
    evalAll (values items) m = .error fault m' ↔ FailsAt items m fault m' := by
  constructor
  · intro h
    induction items generalizing m with
    | nil => cases h
    | cons item items ih =>
      cases item with
      | text | comma | semicolon =>
        obtain ⟨before, e, after, ns, m₁, rfl, hbefore, herror⟩ := ih h
        exact ⟨_ :: before, e, after, ns, m₁, rfl, hbefore, herror⟩
      | value e =>
        rcases bind_error h with hvalue | ⟨n, m₁, hvalue, h⟩
        · exact ⟨[], e, items, [], m, rfl, rfl, hvalue⟩
        · rcases bind_error h with hvalues | ⟨ns, m₂, -, h⟩
          · obtain ⟨before, e', after, ns, m₂, rfl, hbefore, herror⟩ := ih hvalues
            exact ⟨.value e :: before, e', after, n :: ns, m₂, rfl,
              (bind_of_ok hvalue).trans (bind_of_ok hbefore), herror⟩
          · cases h
  · rintro ⟨before, e, after, ns, m₁, rfl, hbefore, herror⟩
    induction before generalizing m ns with
    | nil =>
      cases hbefore
      exact bind_of_error herror
    | cons item before ih =>
      cases item with
      | text | comma | semicolon => exact ih ns hbefore
      | value e' =>
        obtain ⟨n, ns', m₂, rfl, hvalue, hvalues⟩ := evalAll_cons_eq_ok_iff.1 hbefore
        exact (bind_of_ok hvalue).trans (bind_of_error (ih ns' hvalues))

namespace Engine

variable {s t : Engine γ} {line : Option Nat} {span : Span}

/-- A `PRINT` whose expressions all have values writes one text. -/
theorem execute_print_of_ok {m : Machine γ} (line : Option Nat) (span : Span)
    (h : evalAll (values items) s.machine = .ok ns m) : ∃ texts, LaysOut 0 items ns texts ∧
      execute line (.print span items) s =
        .ok () ({ s with machine := m }.emit (.output (String.join texts ++ ending items))) := by
  obtain ⟨texts, hlaid, hprint⟩ := printOnto_of_ok "" h
  rw [String.empty_append] at hprint
  refine ⟨texts, hlaid, ?_⟩
  have hprinted : printed items s.machine = .ok (String.join texts ++ ending items) m :=
    calc printed items s.machine
        = .ok (if items.getLast?.any PrintItem.isSeparator then String.join texts
            else String.join texts ++ "\n") m := bind_of_ok hprint
      _ = .ok (String.join texts ++ ending items) m := by rw [append_ending]
  exact bind_of_ok (evaluating_ok hprinted)

/-- **Main result.**  A `PRINT` fails exactly if one of its expressions has no value, with the fault
    of the first of them, and then nothing is written.  Otherwise one text is written: that of all
    its parts, laid out from the beginning of this text, and of what is written behind them. -/
theorem print_lays_out (line : Option Nat) (span : Span) (items : List PrintItem) (s t : Engine γ) :
    (∀ fault, execute line (.print span items) s = .error fault t ↔
      ∃ m, FailsAt items s.machine fault m ∧ t = { s with machine := m }) ∧
    (execute line (.print span items) s = .ok () t ↔
      ∃ ns m texts, evalAll (values items) s.machine = .ok ns m ∧ LaysOut 0 items ns texts ∧
        t = { s with machine := m }.emit (.output (String.join texts ++ ending items))) := by
  cases hvalues : evalAll (values items) s.machine with
  | error fault m =>
    have hexecute : execute line (.print span items) s = .error fault { s with machine := m } :=
      bind_of_error (evaluating_error (bind_of_error (printOnto_of_error hvalues)))
    rw [hexecute]
    simp only [← evalAll_values_error_iff, hvalues]
    constructor
    · intro fault'
      constructor
      · intro h
        cases h
        exact ⟨m, rfl, rfl⟩
      · rintro ⟨m', h, rfl⟩
        cases h
        rfl
    · exact ⟨nofun, nofun⟩
  | ok ns m =>
    have ⟨texts, hlaid, hexecute⟩ := execute_print_of_ok line span hvalues
    rw [hexecute]
    simp only [← evalAll_values_error_iff, hvalues]
    refine ⟨fun fault => ⟨nofun, nofun⟩, ?_⟩
    constructor
    · intro h
      cases h
      exact ⟨ns, m, texts, rfl, hlaid, rfl⟩
    · rintro ⟨ns', m', texts', h, hlaid', rfl⟩
      cases h
      rw [hlaid.unique hlaid']

example (s : Engine γ) :
    execute none (.print ⟨0, 5⟩ [.text ⟨6, 9⟩ "é", .comma ⟨9, 10⟩, .value (.int ⟨10, 12⟩ (-3))]) s =
      .ok () (s.emit (.output "é       -3\n")) := rfl

end Engine

end LineBasic
