import LineBasic.Lint
import LineBasic.Proofs.Expr.Reads
import LineBasic.Proofs.Stores

namespace LineBasic

/-!
# What the strict linter lets pass

The linter takes note of reads and of variables that are given values, in the order of the lines.  A
read that it has nothing against comes after something that gives the variable a value.

* `Statement.Reads`, `Statement.Gives` -- the variables of a statement, by what it does with them;
* `Listing.GivesOpenly` -- programs in which nothing is given a value under a condition;
* `Lint.given_before` -- what comes before a read in the order of the linter;
* `Listing.given_above` -- in such a program, a line further up gives a variable its value before it
  is read.
-/

/-! ### The variables of a statement -/

namespace Statement

/-- Whether a variable is read in a statement. -/
def Reads (s : Statement) (x : Letter) : Prop := ∃ span, Visit.expr (.var span x) ∈ s.visits

/-- Whether a variable is given a value in a statement. -/
def Gives (s : Statement) (x : Letter) : Prop := ∃ t, Visit.target t ∈ s.visits ∧ t.name = x

/-- Whether a statement is a `LET` or an `INPUT`, or has one in the body of an `IF`. -/
def assigns : Statement → Bool
  | input .. | assign .. => true
  | cond _ _ _ _ body => body.assigns
  | _ => false

/-- Whether no `LET` and no `INPUT` is in the body of an `IF`. -/
def givesOpenly : Statement → Bool
  | cond _ _ _ _ body => !body.assigns
  | _ => true

attribute [simp] visits

variable {s : Statement} {span : Span} {x : Letter}

section Reads

variable {e e' : Expr}

@[simp] theorem reads_goto : (goto span e).Reads x ↔ e.Reads x := by
  simp [Reads, Expr.visits, Expr.Reads]

@[simp] theorem reads_gosub : (gosub span e).Reads x ↔ e.Reads x := by
  simp [Reads, Expr.visits, Expr.Reads]

@[simp] theorem reads_cond {relation : Relation} :
    (cond span e relation e' s).Reads x ↔ e.Reads x ∨ e'.Reads x ∨ s.Reads x := by
  simp [Reads, Expr.visits, Expr.Reads, exists_or]

@[simp] theorem reads_assign {target : Target} : (assign span target e).Reads x ↔ e.Reads x := by
  simp [Reads, Expr.visits, Expr.Reads]

@[simp] theorem reads_onward : (list span (.onward e)).Reads x ↔ e.Reads x := by
  simp [Reads, Extent.visits, Expr.visits, Expr.Reads]

@[simp] theorem reads_between : (list span (.between e e')).Reads x ↔ e.Reads x ∨ e'.Reads x := by
  simp [Reads, Extent.visits, Expr.visits, Expr.Reads, exists_or]

@[simp] theorem reads_print {items : List PrintItem} :
    (print span items).Reads x ↔ ∃ e, PrintItem.value e ∈ items ∧ e.Reads x := by
  constructor
  · rintro ⟨span, hread⟩
    simp only [visits, List.mem_append, List.mem_flatMap, List.mem_singleton, reduceCtorEq,
      or_false] at hread
    obtain ⟨item, hitem, hread⟩ := hread
    cases item with
    | value e => exact ⟨e, hitem, span, by simpa [PrintItem.visits, Expr.visits] using hread⟩
    | text | comma | semicolon => simp [PrintItem.visits] at hread
  · rintro ⟨e, hitem, span, hread⟩
    refine ⟨span, List.mem_append_left _ (List.mem_flatMap.2 ⟨.value e, hitem, ?_⟩)⟩
    simpa [PrintItem.visits, Expr.visits] using hread

@[simp] theorem reads_run {es : List Expr} : (run span es).Reads x ↔ ∃ e ∈ es, e.Reads x := by
  simp [Reads, Expr.visits, Expr.Reads]
  grind

end Reads

/-- The visits to an expression are visits to expressions. -/
theorem target_notMem_visits (e : Expr) (t : Target) : Visit.target t ∉ e.visits := by
  simp [Expr.visits]

/-- A statement gives values only if it is a `LET` or an `INPUT`, or has one inside it. -/
theorem not_gives_of_not_assigns (h : s.assigns = false) : ¬ s.Gives x := by
  rintro ⟨t, ht, -⟩
  induction s with
  | cond _ lhs relation rhs body ih =>
    simp only [visits, List.mem_append, target_notMem_visits, List.mem_singleton,
      reduceCtorEq, or_false, false_or] at ht
    exact ih h ht
  | input | assign => cases h
  | list _ extent => cases extent <;> simp [Extent.visits, target_notMem_visits] at ht
  | print _ items =>
    simp only [visits, List.mem_append, List.mem_flatMap, List.mem_singleton, reduceCtorEq,
      or_false] at ht
    obtain ⟨item, -, hitem⟩ := ht
    cases item <;> simp [PrintItem.visits, target_notMem_visits] at hitem
  | _ => simp [target_notMem_visits] at ht

@[simp] theorem gives_assign {target : Target} {e : Expr} :
    (assign span target e).Gives x ↔ target.name = x := by
  simp [Gives, target_notMem_visits]

@[simp] theorem gives_input {targets : List Target} :
    (input span targets).Gives x ↔ x ∈ targets.map Target.name := by
  simp [Gives]

/-- A statement reads before it gives. -/
theorem reads_first (h : s.givesOpenly) {before after : List Visit} {e : Expr} {t : Target}
    (hvisits : s.visits = before ++ .expr e :: after) : Visit.target t ∉ before := by
  intro ht
  have hgives : s.Gives t.name := ⟨t, by rw [hvisits]; simp [ht], rfl⟩
  have hassigns : s.assigns := by
    cases hassigns : s.assigns with
    | false => exact absurd hgives (not_gives_of_not_assigns hassigns)
    | true => rfl
  cases s with
  | cond => simp_all [givesOpenly, assigns]
  | input span targets =>
    have he : Visit.expr e ∈ (input span targets).visits := by rw [hvisits]; simp
    simp at he
  | assign span target value =>
    -- The target comes after the whole of the value.
    have hpairwise : (assign span target value).visits.Pairwise fun v w =>
        ∀ t e, v = .target t → w ≠ .expr e := by
      simp [Expr.visits, List.pairwise_append, List.pairwise_map, List.pairwise_of_forall]
    rw [hvisits, List.pairwise_append] at hpairwise
    exact hpairwise.2.2 _ ht _ List.mem_cons_self t e rfl rfl
  | _ => cases hassigns

end Statement

/-! ### What the survey knows -/

namespace Lint

variable {p : Listing} {v : Survey} {x : Letter}

/-- Whether a visit gives a variable a value. -/
def GivesAt (w : Line × Visit) (x : Letter) : Prop := ∃ t, w.2 = .target t ∧ t.name = x

/-- A survey in which each suspect has been found for the reason that it may have no value. -/
def Sober (v : Survey) : Prop :=
  ∀ x f, v.suspects.lookup x = some f → f.report.code = .maybeUninitialized

/-- Looking at a jump tells nothing of variables. -/
theorem jump_same (line : Line) (word : Keyword) (target : Expr) :
    (v.jump p line word target).assigned = v.assigned ∧
      (v.jump p line word target).suspects = v.suspects := by
  unfold Survey.jump
  split
  · exact ⟨rfl, rfl⟩
  · split <;> exact ⟨rfl, rfl⟩

/-- A variable that is read is known to have a value, or is suspected. -/
theorem read_cases (v : Survey) (line : Line) (span : Span) (x : Letter) :
    (x ∈ v.assigned ∨ (v.suspects.lookup x).isSome) ∧ v.read line span x = v ∨
      v.suspects.lookup x = none ∧ v.read line span x =
        { v with suspects := (x, findingOn line ⟨.maybeUninitialized x, span⟩) :: v.suspects } := by
  unfold Survey.read
  split
  next h => exact .inl ⟨by simpa only [Bool.or_eq_true, decide_eq_true_eq] using h, rfl⟩
  next h =>
    simp only [Bool.or_eq_true, not_or, Option.not_isSome_iff_eq_none] at h
    exact .inr ⟨h.2, rfl⟩

/-- What a visit does to the variables. -/
theorem visit_cases (p : Listing) (v : Survey) (w : Line × Visit) :
    (∃ span x, w.2 = .expr (.var span x) ∧ Survey.visit p v w = v.read w.1 span x) ∨
      (∃ t, w.2 = .target t ∧ Survey.visit p v w = { v with assigned := t.name :: v.assigned }) ∨
      (∀ t, w.2 ≠ .target t) ∧ (Survey.visit p v w).assigned = v.assigned ∧
        (Survey.visit p v w).suspects = v.suspects := by
  obtain ⟨line, visit⟩ := w
  cases visit with
  | target t => exact .inr (.inl ⟨t, rfl, rfl⟩)
  | expr e =>
    cases e with
    | var span x => exact .inl ⟨span, x, rfl, rfl⟩
    | _ => exact .inr (.inr ⟨nofun, rfl, rfl⟩)
  | statement s =>
    refine .inr (.inr ⟨nofun, ?_⟩)
    cases s with
    | goto | gosub => exact jump_same _ _ _
    | _ => exact ⟨rfl, rfl⟩

/-- A visit adds the variable that is given a value in it, if there is one. -/
theorem visit_assigned (w : Line × Visit) :
    x ∈ (Survey.visit p v w).assigned ↔ x ∈ v.assigned ∨ GivesAt w x := by
  unfold GivesAt
  rcases visit_cases p v w with ⟨span, y, hw, h⟩ | ⟨t, hw, h⟩ | ⟨hw, h, -⟩
  · rcases read_cases v w.1 span y with ⟨-, h'⟩ | ⟨-, h'⟩ <;> simp [h, h', hw]
  · simp [h, hw, eq_comm, or_comm]
  · simp [h, hw]

/-- The variables that have been given values are those of the targets visited. -/
theorem foldl_assigned (ws : List (Line × Visit)) :
    x ∈ (ws.foldl (Survey.visit p) v).assigned ↔ x ∈ v.assigned ∨ ∃ w ∈ ws, GivesAt w x := by
  induction ws generalizing v with
  | nil => simp
  | cons w ws ih => simp [ih, visit_assigned, or_assoc]

/-- Suspects stay as they are. -/
theorem visit_suspects {f : Finding} (hf : v.suspects.lookup x = some f) (w : Line × Visit) :
    (Survey.visit p v w).suspects.lookup x = some f := by
  rcases visit_cases p v w with ⟨span, y, -, h⟩ | ⟨t, -, h⟩ | ⟨-, -, h⟩
  · rcases read_cases v w.1 span y with ⟨-, h'⟩ | ⟨hnone, h'⟩
    · rw [h, h', hf]
    · have hne : x ≠ y := by
        rintro rfl
        simp [hf] at hnone
      rw [h, h', List.lookup_cons, beq_false_of_ne hne, hf]
  · rw [h, hf]
  · rw [h, hf]

/-- A variable that is a suspect stays one, with the first finding against it. -/
theorem foldl_suspects {f : Finding} (hf : v.suspects.lookup x = some f)
    (ws : List (Line × Visit)) :
    (ws.foldl (Survey.visit p) v).suspects.lookup x = some f := by
  induction ws generalizing v with
  | nil => exact hf
  | cons w ws ih => exact ih (visit_suspects hf w)

/-- A visit makes a suspect only of a variable that may have no value. -/
theorem visit_sober (hv : Sober v) (w : Line × Visit) : Sober (Survey.visit p v w) := by
  rcases visit_cases p v w with ⟨span, y, -, h⟩ | ⟨t, -, h⟩ | ⟨-, -, h⟩
  · rcases read_cases v w.1 span y with ⟨-, h'⟩ | ⟨-, h'⟩
    · rw [h, h']
      exact hv
    · intro x f hf
      rw [h, h', List.lookup_cons] at hf
      cases hxy : x == y with
      | true =>
        rw [hxy] at hf
        cases hf
        rfl
      | false =>
        rw [hxy] at hf
        exact hv x f hf
  · rw [h]
    exact hv
  · intro x f hf
    exact hv x f (h ▸ hf)

/-- Visits make suspects only of variables that may have no value. -/
theorem foldl_sober (hv : Sober v) (ws : List (Line × Visit)) :
    Sober (ws.foldl (Survey.visit p) v) := by
  induction ws generalizing v with
  | nil => exact hv
  | cons w ws ih => exact ih (visit_sober hv w)

/-- In the survey of a program each suspect may have no value. -/
theorem survey_sober : Sober (survey p) := foldl_sober (fun _ _ h => by cases h) (visits p)

/-! ### What the linter reports -/

/-- What is found in a program with lines is reported. -/
theorem report_mem {strict : Bool} {f : Finding} (hp : p.lines ≠ [])
    (hf : f ∈ (survey p).findings strict) : f.report ∈ p.lint strict := by
  have hempty : p.isEmpty = false := by simpa [Listing.isEmpty] using hp
  unfold Listing.lint
  rw [hempty, if_neg Bool.false_ne_true]
  exact List.mem_map_of_mem (List.mem_mergeSort.2 hf)

/-- What is reported has been found. -/
theorem finding_of_mem {strict : Bool} {d : Diagnostic} (hd : d ∈ p.lint strict) :
    ∃ f ∈ (survey p).findings strict, f.report = d := by
  unfold Listing.lint at hd
  split at hd
  · cases hd
  · obtain ⟨f, hf, rfl⟩ := List.mem_map.1 hd
    exact ⟨f, List.mem_mergeSort.1 hf, rfl⟩

/-- The strict linter reports every suspect. -/
theorem suspect_reported (hp : p.lines ≠ []) {f : Finding}
    (hf : (survey p).suspects.lookup x = some f) :
    ∃ d ∈ p.lint true, d.code = .maybeUninitialized := by
  refine ⟨f.report, report_mem hp ?_, survey_sober x f hf⟩
  have hread : f ∈ (survey p).reads true := List.mem_filterMap.2 ⟨x, x.mem_all, by simpa using hf⟩
  simp [Survey.findings, hread]

/-- **Reads that pass.**  If the strict linter has nothing against the reads of a program, each of
    them comes after something that gives the variable a value, in the order of the linter. -/
theorem given_before (hlint : ∀ d ∈ p.lint true, d.code ≠ .maybeUninitialized)
    {before after : List (Line × Visit)} {line : Line} {span : Span}
    (hvisits : visits p = before ++ (line, .expr (.var span x)) :: after) :
    ∃ w ∈ before, GivesAt w x := by
  have hp : p.lines ≠ [] := by
    intro hnil
    simp [visits, hnil] at hvisits
  let v := before.foldl (Survey.visit p) {}
  have hsurvey : survey p = after.foldl (Survey.visit p) (v.read line span x) := by
    rw [survey, hvisits, List.foldl_append]
    rfl
  have hunsuspected : ∀ f, (v.read line span x).suspects.lookup x ≠ some f := by
    intro f hf
    obtain ⟨d, hd, hcode⟩ := suspect_reported hp (hsurvey ▸ foldl_suspects hf after)
    exact hlint d hd hcode
  have hassigned : x ∈ v.assigned := by
    rcases read_cases v line span x with ⟨hassigned | hsome, h⟩ | ⟨-, h⟩
    · exact hassigned
    · obtain ⟨f, hf⟩ := Option.isSome_iff_exists.1 hsome
      exact absurd (by rw [h, hf]) (hunsuspected f)
    · exact absurd (by rw [h, List.lookup_cons, beq_self_eq_true]) (hunsuspected _)
  simpa using foldl_assigned before |>.1 hassigned

end Lint

/-! ### Lines further up -/

namespace Listing

/-- Whether no `LET` and no `INPUT` of a program is in the body of an `IF`. -/
def GivesOpenly (p : Listing) : Prop := ∀ l ∈ p.lines, l.statement.givesOpenly

/-- **Lines further up.**  In a program whose reads pass, and which gives values openly, a variable
    that a line reads is given a value by a line with a smaller number. -/
theorem given_above {p : Listing} (hopen : p.GivesOpenly)
    (hlint : ∀ d ∈ p.lint true, d.code ≠ .maybeUninitialized) {l : Line} (hl : l ∈ p.lines)
    {x : Letter} (hread : l.statement.Reads x) :
    ∃ k ∈ p.lines, k.number < l.number ∧ k.statement.Gives x := by
  obtain ⟨span, hvisit⟩ := hread
  obtain ⟨above, below, hlines⟩ := List.append_of_mem hl
  obtain ⟨before, after, hstatement⟩ := List.append_of_mem hvisit
  have hvisits : Lint.visits p =
      ((above.flatMap fun k => k.statement.visits.map (k, ·)) ++ before.map (l, ·)) ++
        (l, .expr (.var span x)) ::
          (after.map (l, ·) ++ below.flatMap fun k => k.statement.visits.map (k, ·)) := by
    simp [Lint.visits, hlines, hstatement]
  obtain ⟨w, hw, t, ht, hname⟩ := Lint.given_before hlint hvisits
  rcases List.mem_append.1 hw with hw | hw
  · obtain ⟨k, hk, hw⟩ := List.mem_flatMap.1 hw
    obtain ⟨visit, hvisit, rfl⟩ := List.mem_map.1 hw
    have hsorted := p.ascending
    rw [hlines, List.pairwise_append] at hsorted
    obtain rfl : visit = .target t := ht
    exact ⟨k, by simp [hlines, hk], hsorted.2.2 k hk l List.mem_cons_self, t, hvisit, hname⟩
  · -- The line itself gives no value before it reads.
    obtain ⟨visit, hvisit, rfl⟩ := List.mem_map.1 hw
    obtain rfl : visit = .target t := ht
    exact absurd hvisit (Statement.reads_first (hopen l hl) hstatement)

end Listing

end LineBasic
