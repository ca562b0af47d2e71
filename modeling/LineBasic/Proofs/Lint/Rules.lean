import LineBasic.Proofs.Lint.Order
import LineBasic.Proofs.Lint.Survey

namespace LineBasic

/-!
# The rules of the linter

What is reported about a program, and nothing else is.

* `Listing.Suspects`, `Listing.FirstRead` -- the variables that are held against a program, and
  where;
* `Listing.FollowsRules` -- the rules;
* `Lint.heldAgainst_of_suspects`, `Lint.suspects_of_heldAgainst` -- the survey holds those variables
  against it;
* `Lint.lint_split`, `Lint.filter_lint` -- what has been found in the lines comes first, and the
  reports of a kind are the findings of that kind;
* `Listing.lint_followsRules` -- the main result, for all programs.
-/

/-- Whether a report says that a variable may be read before it has a value. -/
def Diagnostic.accuses (x : Letter) (d : Diagnostic) : Bool :=
  d.code = .maybeUninitialized && d.message = (Cause.maybeUninitialized x).message

namespace Listing

/-- Whether a variable is held against a program.  Strictly, it is if the first thing done with it
    is a read; otherwise, if it is read and never written. -/
def Suspects (p : Listing) (strict : Bool) (x : Letter) : Prop :=
  if strict then ∃ line span, p.accesses.find? (·.name = x) = some (.read line span x)
  else (∃ line span, .read line span x ∈ p.accesses) ∧ .write x ∉ p.accesses

/-- Whether a variable is read first by a line, in some columns. -/
def FirstRead (p : Listing) (x : Letter) (line : Line) (span : Span) : Prop :=
  p.accesses.find? (·.isRead x) = some (.read line span x)

/-- The reports of what is wrong with statements, each on behalf of its line. -/
def reportsOf (p : Listing) (fault? : Statement → Option Fault) : List Diagnostic :=
  p.lines.filterMap fun l => (fault? l.statement.core).map fun fault =>
    (Lint.findingOn l fault).report

/-- Some reports about a program, as they are to be. -/
structure FollowsRules (p : Listing) (strict : Bool) (ds : List Diagnostic) : Prop where
  /-- A variable that is held against the program is reported once, where it is read first. -/
  suspects : ∀ x, p.Suspects strict x → ∃ line span, p.FirstRead x line span ∧
    ds.filter (·.accuses x) = [(Lint.findingOn line ⟨.maybeUninitialized x, span⟩).report]
  /-- No other variable is. -/
  others : ∀ x, ¬ p.Suspects strict x → ds.filter (·.accuses x) = []
  /-- A `CLEAR` is reported once, however deep in `IF`s it is. -/
  clears : ds.filter (·.code = .clearPresent) = p.reportsOf Statement.clearFault?
  /-- So is a jump to a number that is that of no line. -/
  jumps : ds.filter (·.code = .badBranchTarget) = p.reportsOf p.jumpFault?
  /-- A program that has lines, and no `END` however deep in `IF`s, is reported once. -/
  missingEnd : ds.filter (·.code = .missingEnd) =
    if p.isEmpty || p.lines.any (·.statement.core.isHalt) then [] else [Cause.missingEnd.diagnostic]
  /-- Nothing else is reported. -/
  nothingElse : ∀ d ∈ ds,
    d.code = .clearPresent ∨ d.code = .badBranchTarget ∨ d.code = .missingEnd ∨ ∃ x, d.accuses x
  /-- The reports are in the order of their lines. -/
  ordered : ds.Pairwise fun d d' => d'.code ≠ .missingEnd →
    ∃ n n', d.line = some n ∧ d'.line = some n' ∧ n ≤ n'
  /-- What is said of the program as a whole is said last. -/
  last : ∀ d ∈ ds.dropLast, d.code ≠ .missingEnd

end Listing

/-! ### Variables -/

/-- The message about a variable tells which one it is. -/
theorem Cause.maybeUninitialized_message_inj {x y : Letter}
    (h : (Cause.maybeUninitialized x).message = (Cause.maybeUninitialized y).message) : x = y := by
  have hquoted : "Potentially uninitialized variable " ++ ("'" ++ x.name ++ "'") ++ "." =
      "Potentially uninitialized variable " ++ ("'" ++ y.name ++ "'") ++ "." := h
  have hname : x.name = y.name := by simpa using hquoted
  have hchar : x.char = y.char := by simpa [Letter.name] using hname
  exact Option.some.inj (x.ofChar?_char.symm.trans (hchar ▸ y.ofChar?_char))

namespace Lint

variable {p : Listing} {strict : Bool} {x : Letter} {f : Finding}

/-- The read of a variable that a survey holds against a program. -/
def Survey.heldAgainst? (v : Survey) (strict : Bool) (x : Letter) : Option Finding :=
  if !strict && x ∈ v.assigned then none else v.suspects.lookup x

/-- A variable that is read first of all is read there for the first time. -/
theorem firstRead_of_find? {line : Line} {span : Span}
    (h : p.accesses.find? (·.name = x) = some (.read line span x)) : p.FirstRead x line span := by
  obtain ⟨-, before, after, haccesses, hbefore⟩ := List.find?_eq_some_iff_append.1 h
  refine List.find?_eq_some_iff_append.2 ⟨by simp [Access.isRead], before, after, haccesses,
    fun access haccess => ?_⟩
  have hname := hbefore access haccess
  cases access with
  | read line' span' y => exact hname
  | write y => rfl

/-- What is held against a program anyway is held against it strictly. -/
theorem suspects_strict (h : p.Suspects strict x) : p.Suspects true x := by
  cases strict with
  | true => exact h
  | false =>
    obtain ⟨⟨line, span, hread⟩, hwrite⟩ := h
    have hsome : (p.accesses.find? (·.name = x)).isSome :=
      List.find?_isSome.2 ⟨.read line span x, hread, by simp [Access.name]⟩
    obtain ⟨access, haccess⟩ := Option.isSome_iff_exists.1 hsome
    have hmem := List.mem_of_find?_eq_some haccess
    have hname : access.name = x := by simpa using List.find?_some haccess
    cases access with
    | read line span y =>
      obtain rfl : y = x := hname
      exact ⟨line, span, haccess⟩
    | write y =>
      obtain rfl : y = x := hname
      exact absurd hmem hwrite

/-- What the rules hold against a program is found where the variable is read first. -/
theorem heldAgainst_of_suspects (h : p.Suspects strict x) : ∃ line span, p.FirstRead x line span ∧
    (survey p).heldAgainst? strict x = some (findingOn line ⟨.maybeUninitialized x, span⟩) := by
  obtain ⟨line, span, hfind⟩ := suspects_strict h
  refine ⟨line, span, firstRead_of_find? hfind, ?_⟩
  -- Only a variable that is written somewhere is forgiven.
  have hforgiven : ¬ ((!strict && decide (x ∈ (survey p).assigned)) = true) := by
    cases strict with
    | true => simp
    | false => simpa [survey_assigned] using h.2
  rw [Survey.heldAgainst?, if_neg hforgiven, survey_lookup, hfind]
  rfl

/-- Nothing else is found. -/
theorem suspects_of_heldAgainst (h : (survey p).heldAgainst? strict x = some f) :
    p.Suspects strict x := by
  unfold Survey.heldAgainst? at h
  split at h
  next => cases h
  next hforgiven =>
    rw [survey_lookup] at h
    obtain ⟨access, haccess, hfinding⟩ := Option.bind_eq_some_iff.1 h
    have hname : access.name = x := by simpa using List.find?_some haccess
    cases access with
    | write => cases hfinding
    | read line span y =>
      obtain rfl : y = x := hname
      cases strict with
      | true => exact ⟨line, span, haccess⟩
      | false =>
        refine ⟨⟨line, span, List.mem_of_find?_eq_some haccess⟩, ?_⟩
        simpa [survey_assigned] using hforgiven

/-- What no rule suspects is not held against a program. -/
theorem heldAgainst_of_not_suspects (h : ¬ p.Suspects strict x) :
    (survey p).heldAgainst? strict x = none := by
  cases hheld : (survey p).heldAgainst? strict x with
  | none => rfl
  | some f => exact absurd (suspects_of_heldAgainst hheld) h

/-! ### Findings -/

/-- A finding in a line of a program. -/
def IsLineFinding (p : Listing) (f : Finding) : Prop :=
  ∃ l ∈ p.lines, ∃ fault : Fault, f = findingOn l fault ∧ fault.cause.code ≠ .missingEnd

@[simp] theorem findingOn_code (l : Line) (fault : Fault) :
    (findingOn l fault).report.code = fault.cause.code := rfl

/-- Variables are read in lines of the program. -/
theorem line_mem_of_read {line : Line} {span : Span} (h : .read line span x ∈ p.accesses) :
    line ∈ p.lines := by
  obtain ⟨w, hw, haccess⟩ := List.mem_filterMap.1 h
  rw [eq_of_access?_read haccess] at hw
  exact (mem_visits.1 hw).1

/-- What is wrong with a statement is that it is a `CLEAR`, or else its target. -/
theorem fault?_code {s : Statement} {fault : Fault} (h : p.fault? s = some fault) :
    fault.cause.code = .clearPresent ∧ s.clearFault? = some fault ∧ p.jumpFault? s = none ∨
      fault.cause.code = .badBranchTarget ∧ s.clearFault? = none ∧ p.jumpFault? s = some fault := by
  rcases Option.or_eq_some_iff.1 h with hclear | ⟨hclear, hjump⟩
  · cases s <;> cases hclear
    exact .inl ⟨rfl, rfl, rfl⟩
  · obtain ⟨word, span, n, -, rfl⟩ := Listing.jumpFault?_eq_some_iff.1 hjump
    exact .inr ⟨rfl, hclear, hjump⟩

/-- What is wrong with a statement as a `CLEAR` is never hidden by another fault. -/
theorem filter_fault?_clear (s : Statement) :
    (p.fault? s).filter (·.cause.code = .clearPresent) = s.clearFault? := by
  cases hfault : p.fault? s with
  | none => exact (Option.or_eq_none_iff.1 hfault).1.symm
  | some fault => rcases fault?_code hfault with ⟨hcode, h, -⟩ | ⟨hcode, h, -⟩ <;> simp [hcode, h]

/-- What is wrong with the target of a statement is never hidden by another fault. -/
theorem filter_fault?_jump (s : Statement) :
    (p.fault? s).filter (·.cause.code = .badBranchTarget) = p.jumpFault? s := by
  cases hfault : p.fault? s with
  | none => exact (Option.or_eq_none_iff.1 hfault).2.symm
  | some fault => rcases fault?_code hfault with ⟨hcode, -, h⟩ | ⟨hcode, -, h⟩ <;> simp [hcode, h]

/-- What is found in visits is a finding in a line. -/
theorem found_isLineFinding (hf : f ∈ (survey p).found.reverse) : IsLineFinding p f := by
  rw [survey_found] at hf
  obtain ⟨l, hl, hf⟩ := List.mem_filterMap.1 hf
  obtain ⟨fault, hfault, rfl⟩ := Option.map_eq_some_iff.1 hf
  refine ⟨l, hl, fault, rfl, ?_⟩
  rcases fault?_code hfault with ⟨hcode, -⟩ | ⟨hcode, -⟩ <;> simp [hcode]

/-- The report of a read names its variable. -/
theorem accuses_findingOn {y : Letter} {line : Line} {span : Span} :
    (findingOn line ⟨.maybeUninitialized y, span⟩).report.accuses x ↔ y = x := by
  have haccuses : (findingOn line ⟨.maybeUninitialized y, span⟩).report.accuses x =
      decide ((Cause.maybeUninitialized y).message = (Cause.maybeUninitialized x).message) := rfl
  rw [haccuses, decide_eq_true_eq]
  exact ⟨Cause.maybeUninitialized_message_inj, fun h => h ▸ rfl⟩

/-- A finding that is held against a variable accuses this one and no other. -/
theorem heldAgainst_accuses {y : Letter} (h : (survey p).heldAgainst? strict y = some f) :
    f.report.accuses x ↔ y = x := by
  obtain ⟨line, span, -, hheld⟩ := heldAgainst_of_suspects (suspects_of_heldAgainst h)
  obtain rfl : f = _ := Option.some.inj (h.symm.trans hheld)
  exact accuses_findingOn

/-- The reads that are held against a program are findings in lines, and accuse variables. -/
theorem reads_isLineFinding (hf : f ∈ (survey p).reads strict) :
    IsLineFinding p f ∧ ∃ x, f.report.accuses x := by
  obtain ⟨x, -, hheld⟩ := List.mem_filterMap.1 hf
  obtain ⟨line, span, hfirst, hheld'⟩ := heldAgainst_of_suspects (suspects_of_heldAgainst hheld)
  obtain rfl : f = _ := Option.some.inj (hheld.symm.trans hheld')
  have hread : .read line span x ∈ p.accesses := List.mem_of_find?_eq_some hfirst
  exact ⟨⟨line, line_mem_of_read hread, _, rfl, nofun⟩, x, accuses_findingOn.2 rfl⟩

/-- The reads that are held against a program are reported with one code. -/
theorem reads_code (hf : f ∈ (survey p).reads strict) : f.report.code = .maybeUninitialized := by
  obtain ⟨-, x, haccuses⟩ := reads_isLineFinding hf
  simpa using (Bool.and_eq_true_iff.1 haccuses).1

/-- The read of a variable is found once. -/
theorem filter_reads (x : Letter) :
    ((survey p).reads strict).filter (·.report.accuses x) =
      ((survey p).heldAgainst? strict x).toList := by
  -- The other letters, before and after this one, have nothing to do with it.
  have hnone : ∀ xs : List Letter, x ∉ xs →
      (xs.filterMap ((survey p).heldAgainst? strict)).filter (·.report.accuses x) = [] := by
    intro xs hxs
    refine List.filter_eq_nil_iff.2 fun f hf haccuses => ?_
    obtain ⟨y, hy, hheld⟩ := List.mem_filterMap.1 hf
    exact hxs ((heldAgainst_accuses hheld).1 haccuses ▸ hy)
  have hnodup : Letter.all.Nodup := by decide
  obtain ⟨before, after, hall⟩ := List.append_of_mem x.mem_all
  rw [hall, List.nodup_append, List.nodup_cons] at hnodup
  have hreads : (survey p).reads strict = Letter.all.filterMap ((survey p).heldAgainst? strict) :=
    rfl
  rw [hreads, hall, List.filterMap_append, List.filter_append,
    hnone before fun hx => hnodup.2.2 x hx x List.mem_cons_self rfl, List.nil_append,
    List.filterMap_cons]
  cases hheld : (survey p).heldAgainst? strict x with
  | none => exact hnone after hnodup.2.1.1
  | some f => simp [(heldAgainst_accuses hheld).2 rfl, hnone after hnodup.2.1.1]

/-- What is found in lines apart from variables is found in their order. -/
theorem found_pairwise (p : Listing) : (survey p).found.reverse.Pairwise (·.place ≤ ·.place) := by
  rw [survey_found, List.pairwise_filterMap]
  refine p.ascending.imp fun {l k} hlk f hf g hg => ?_
  obtain ⟨_, -, rfl⟩ := Option.map_eq_some_iff.1 hf
  obtain ⟨_, -, rfl⟩ := Option.map_eq_some_iff.1 hg
  exact Nat.le_of_lt hlk

/-- The findings that there are of a code, apart from variables and from what concerns the whole
    program. -/
theorem filter_found (code : Code) {fault? : Statement → Option Fault}
    (hfault : ∀ s, (p.fault? s).filter (·.cause.code = code) = fault? s) :
    (survey p).found.reverse.filter (·.report.code = code) =
      p.lines.filterMap fun l => (fault? l.statement.core).map (findingOn l) := by
  rw [survey_found, List.filter_filterMap]
  refine List.filterMap_congr fun l _ => ?_
  rw [← hfault l.statement.core, Option.filter_map]
  rfl

/-! ### Reports -/

/-- What has been found in the lines of a program. -/
def Survey.lineFindings (v : Survey) (strict : Bool) : List Finding :=
  v.found.reverse ++ v.reads strict

/-- What is to be said of the program as a whole. -/
def Survey.ending (v : Survey) : List Diagnostic :=
  if v.hasEnd then [] else [Cause.missingEnd.diagnostic]

/-- Whatever has been found in the lines is a finding in a line. -/
theorem lineFindings_isLineFinding (hf : f ∈ (survey p).lineFindings strict) :
    IsLineFinding p f := by
  rcases List.mem_append.1 hf with hf | hf
  · exact found_isLineFinding hf
  · exact (reads_isLineFinding hf).1

/-- What is said of the program as a whole is said after all that has been found in its lines. -/
theorem lint_split (hp : p.lines ≠ []) (hnumbers : ∀ l ∈ p.lines, l.number ≤ afterAll)
    (strict : Bool) :
    p.lint strict =
      (inOrder ((survey p).lineFindings strict)).map Finding.report ++ (survey p).ending := by
  -- A line may have the very place that is after all lines; what is found last is still sorted last
  -- then.
  have hplaces : ∀ f ∈ (survey p).lineFindings strict, f.place ≤ afterAll := by
    intro f hf
    obtain ⟨l, hl, fault, rfl, -⟩ := lineFindings_isLineFinding hf
    exact hnumbers l hl
  rw [Listing.lint_eq hp, Survey.ending]
  cases hend : (survey p).hasEnd with
  | true =>
    have hfindings : (survey p).findings strict = (survey p).lineFindings strict := by
      simp [Survey.findings, Survey.lineFindings, hend]
    simp [hfindings]
  | false =>
    have hfindings : (survey p).findings strict =
        (survey p).lineFindings strict ++ [⟨afterAll, Cause.missingEnd.diagnostic⟩] := by
      simp [Survey.findings, Survey.lineFindings, hend]
    rw [hfindings, inOrder_concat hplaces, List.map_append]
    rfl

/-- **Kinds of reports.**  If the findings of a kind have been found in the order of their lines,
    they are reported as they have been found. -/
theorem filter_lint (hp : p.lines ≠ []) (hnumbers : ∀ l ∈ p.lines, l.number ≤ afterAll)
    (q : Diagnostic → Bool)
    (h : (((survey p).lineFindings strict).filter (q ·.report)).Pairwise (·.place ≤ ·.place)) :
    (p.lint strict).filter q =
      (((survey p).lineFindings strict).filter (q ·.report)).map Finding.report ++
      (survey p).ending.filter q := by
  rw [lint_split hp hnumbers, List.filter_append, List.filter_map]
  exact congrArg (List.map Finding.report · ++ (survey p).ending.filter q) (filter_inOrder h)

/-- A report that the `END` is missing passes no other filter. -/
theorem ending_filter {q : Diagnostic → Bool} (hq : q Cause.missingEnd.diagnostic = false) :
    (survey p).ending.filter q = [] := by
  unfold Survey.ending
  split <;> simp [hq]

/-- What is wrong with statements by themselves is reported once for each of them. -/
theorem filter_lint_code (hp : p.lines ≠ []) (hnumbers : ∀ l ∈ p.lines, l.number ≤ afterAll)
    {code : Code} (hreads : code ≠ .maybeUninitialized) (hend : code ≠ .missingEnd)
    {fault? : Statement → Option Fault}
    (hfault : ∀ s, (p.fault? s).filter (·.cause.code = code) = fault? s) :
    (p.lint strict).filter (·.code = code) = p.reportsOf fault? := by
  have hnone : ((survey p).reads strict).filter (·.report.code = code) = [] :=
    List.filter_eq_nil_iff.2 fun f hf => by simpa [reads_code hf] using hreads.symm
  have hfindings : ((survey p).lineFindings strict).filter (·.report.code = code) =
      p.lines.filterMap fun l => (fault? l.statement.core).map (findingOn l) := by
    rw [Survey.lineFindings, List.filter_append, hnone, List.append_nil, filter_found code hfault]
  have hordered : (((survey p).lineFindings strict).filter (·.report.code = code)).Pairwise
      (·.place ≤ ·.place) := by
    rw [Survey.lineFindings, List.filter_append, hnone, List.append_nil]
    exact (found_pairwise p).filter _
  rw [filter_lint hp hnumbers _ hordered, hfindings, ending_filter (decide_eq_false hend.symm),
    List.append_nil, List.map_filterMap]
  simp only [Option.map_map]
  rfl

/-- The read of a variable is reported once. -/
theorem filter_lint_accuses (hp : p.lines ≠ []) (hnumbers : ∀ l ∈ p.lines, l.number ≤ afterAll)
    (x : Letter) :
    (p.lint strict).filter (·.accuses x) =
      ((survey p).heldAgainst? strict x).toList.map Finding.report := by
  have hnone : (survey p).found.reverse.filter (·.report.accuses x) = [] := by
    refine List.filter_eq_nil_iff.2 fun f hf haccuses => ?_
    rw [survey_found] at hf
    obtain ⟨l, -, hf⟩ := List.mem_filterMap.1 hf
    obtain ⟨fault, hfault, rfl⟩ := Option.map_eq_some_iff.1 hf
    have hcode : fault.cause.code = .maybeUninitialized :=
      of_decide_eq_true (Bool.and_eq_true_iff.1 haccuses).1
    rcases fault?_code hfault with ⟨h, -⟩ | ⟨h, -⟩ <;> simp [h] at hcode
  have hfindings : ((survey p).lineFindings strict).filter (·.report.accuses x) =
      ((survey p).heldAgainst? strict x).toList := by
    rw [Survey.lineFindings, List.filter_append, hnone, List.nil_append, filter_reads]
  rw [filter_lint hp hnumbers, hfindings, ending_filter rfl, List.append_nil]
  rw [hfindings]
  cases (survey p).heldAgainst? strict x <;> simp

/-- The missing `END` is reported once, or not at all. -/
theorem filter_lint_missingEnd (hp : p.lines ≠ []) (hnumbers : ∀ l ∈ p.lines, l.number ≤ afterAll) :
    (p.lint strict).filter (·.code = .missingEnd) = (survey p).ending := by
  have hnone : ((survey p).lineFindings strict).filter (·.report.code = .missingEnd) = [] := by
    refine List.filter_eq_nil_iff.2 fun f hf hcode => ?_
    obtain ⟨l, -, fault, rfl, hfault⟩ := lineFindings_isLineFinding hf
    exact hfault (of_decide_eq_true hcode)
  rw [filter_lint hp hnumbers _ (by simp [hnone]), hnone]
  unfold Survey.ending
  split <;> rfl

/-- A program without lines has nothing reported about it. -/
theorem followsRules_of_nil (hp : p.lines = []) : p.FollowsRules strict [] := by
  have haccesses : p.accesses = [] := by simp [Listing.accesses, visits, hp]
  have hsuspects : ∀ x, ¬ p.Suspects strict x := by
    cases strict <;> simp [Listing.Suspects, haccesses]
  exact {
    suspects := fun x hx => absurd hx (hsuspects x)
    others := fun _ _ => rfl
    clears := by simp [Listing.reportsOf, hp]
    jumps := by simp [Listing.reportsOf, hp]
    missingEnd := by simp [Listing.isEmpty, hp]
    nothingElse := fun _ hd => absurd hd List.not_mem_nil
    ordered := .nil
    last := fun _ hd => absurd hd List.not_mem_nil }

/-- What is said of the program as a whole is that its `END` is missing. -/
theorem ending_code {d : Diagnostic} (hd : d ∈ (survey p).ending) : d.code = .missingEnd := by
  unfold Survey.ending at hd
  split at hd
  next => cases hd
  next =>
    rw [List.mem_singleton.1 hd]
    rfl

/-- A program with lines has reported about it what the rules say. -/
theorem followsRules_of_ne_nil (hp : p.lines ≠ []) (hnumbers : ∀ l ∈ p.lines, l.number ≤ afterAll) :
    p.FollowsRules strict (p.lint strict) where
  suspects x hx := by
    obtain ⟨line, span, hfirst, hheld⟩ := heldAgainst_of_suspects hx
    exact ⟨line, span, hfirst, by rw [filter_lint_accuses hp hnumbers, hheld]; rfl⟩
  others x hx := by
    rw [filter_lint_accuses hp hnumbers, heldAgainst_of_not_suspects hx]
    rfl
  clears := filter_lint_code hp hnumbers (by decide) (by decide) filter_fault?_clear
  jumps := filter_lint_code hp hnumbers (by decide) (by decide) filter_fault?_jump
  missingEnd := by
    have hend : (p.isEmpty || p.lines.any (·.statement.core.isHalt)) = (survey p).hasEnd := by
      rw [Bool.eq_iff_iff, survey_hasEnd]
      simp [Listing.isEmpty, hp]
    rw [filter_lint_missingEnd hp hnumbers, hend, Survey.ending]
  nothingElse d hd := by
    rw [lint_split hp hnumbers] at hd
    rcases List.mem_append.1 hd with hd | hd
    · obtain ⟨f, hf, rfl⟩ := List.mem_map.1 hd
      rcases List.mem_append.1 (mem_inOrder.1 hf) with hf | hf
      · rw [survey_found] at hf
        obtain ⟨l, -, hf⟩ := List.mem_filterMap.1 hf
        obtain ⟨fault, hfault, rfl⟩ := Option.map_eq_some_iff.1 hf
        rcases fault?_code hfault with ⟨hcode, -⟩ | ⟨hcode, -⟩ <;> simp [hcode]
      · exact .inr (.inr (.inr (reads_isLineFinding hf).2))
    · exact .inr (.inr (.inl (ending_code hd)))
  ordered := by
    rw [lint_split hp hnumbers, List.pairwise_append, List.pairwise_map]
    refine ⟨(inOrder_pairwise _).imp_of_mem fun {f g} hf hg hplace _ => ?_, ?_,
      fun d _ d' hd' hcode => absurd (ending_code hd') hcode⟩
    · obtain ⟨l, -, fault, rfl, -⟩ := lineFindings_isLineFinding (mem_inOrder.1 hf)
      obtain ⟨l', -, fault', rfl, -⟩ := lineFindings_isLineFinding (mem_inOrder.1 hg)
      exact ⟨l.number, l'.number, rfl, rfl, hplace⟩
    · unfold Survey.ending
      split
      · exact .nil
      · exact List.pairwise_singleton _ _
  last d hd := by
    have hline : d ∈ (inOrder ((survey p).lineFindings strict)).map Finding.report := by
      rw [lint_split hp hnumbers] at hd
      unfold Survey.ending at hd
      split at hd
      · exact List.dropLast_subset _ (by simpa using hd)
      · simpa using hd
    obtain ⟨f, hf, rfl⟩ := List.mem_map.1 hline
    obtain ⟨l, -, fault, rfl, hfault⟩ := lineFindings_isLineFinding (mem_inOrder.1 hf)
    exact hfault

/-- Whoever is not strict finds fewer reads. -/
theorem reads_sublist (v : Survey) : (v.reads false).Sublist (v.reads true) := by
  unfold Survey.reads
  -- A letter has the same finding in both, or one in the second only.
  induction Letter.all with
  | nil => exact .slnil
  | cons x xs ih =>
    by_cases hx : x ∈ v.assigned
    · cases hlookup : v.suspects.lookup x with
      | none => simpa [List.filterMap_cons, hx, hlookup] using ih
      | some f => simpa [List.filterMap_cons, hx, hlookup] using ih.cons f
    · cases hlookup : v.suspects.lookup x with
      | none => simpa [List.filterMap_cons, hx, hlookup] using ih
      | some f => simpa [List.filterMap_cons, hx, hlookup] using ih.cons_cons f

end Lint

/-- **Main result.**  Strict or not, the linter reports about a program what the rules say.  If it
    is not strict, it reports the same in the same order, but for some things that it passes
    over. -/
theorem Listing.lint_followsRules {p : Listing}
    (hnumbers : ∀ l ∈ p.lines, l.number ≤ Lint.afterAll) :
    (∀ strict, p.FollowsRules strict (p.lint strict)) ∧ (p.lint false).Sublist (p.lint true) := by
  by_cases hp : p.lines = []
  · have hlint : ∀ strict, p.lint strict = [] := by simp [Listing.lint, Listing.isEmpty, hp]
    refine ⟨fun strict => ?_, ?_⟩
    · rw [hlint]
      exact Lint.followsRules_of_nil hp
    · rw [hlint, hlint]
  · refine ⟨fun strict => Lint.followsRules_of_ne_nil hp hnumbers, ?_⟩
    rw [Listing.lint_eq hp, Listing.lint_eq hp]
    have hreads := Lint.reads_sublist (Lint.survey p)
    exact (Lint.inOrder_sublist (((List.Sublist.refl _).append hreads).append (.refl _))).map _

/-- A program that reads `A` before it writes it, jumps nowhere and never ends. -/
def Listing.readEarly : Listing :=
  [⟨10, "10 PRINT A", .print ⟨3, 8⟩ [.value (.var ⟨9, 10⟩ default)]⟩,
    ⟨20, "20 GOTO (99)", .goto ⟨3, 7⟩ (.group ⟨8, 9⟩ (.int ⟨9, 11⟩ 99))⟩,
    ⟨30, "30 LET A=1", .assign ⟨3, 6⟩ ⟨⟨7, 8⟩, default⟩ (.int ⟨9, 10⟩ 1)⟩].foldl
      Listing.insert .empty

/-- The early read is held against the program only strictly, the bad target and the missing `END`
    always. -/
theorem Listing.lint_followsRules_readEarly :
    (∀ l ∈ readEarly.lines, l.number ≤ Lint.afterAll) ∧
      (∃ d, (readEarly.lint true).filter (·.accuses default) = [d] ∧ d.line = some 10) ∧
      (readEarly.lint false).filter (·.accuses default) = [] ∧
      (∃ d, (readEarly.lint false).filter (·.code = .badBranchTarget) = [d] ∧ d.line = some 20) ∧
      (readEarly.lint false).filter (·.code = .missingEnd) = [Cause.missingEnd.diagnostic] := by
  have hnumbers : ∀ l ∈ readEarly.lines, l.number ≤ Lint.afterAll := by decide
  have hread : readEarly.accesses.find? (·.isRead default) =
      some (.read ⟨10, "10 PRINT A", .print ⟨3, 8⟩ [.value (.var ⟨9, 10⟩ default)]⟩ ⟨9, 10⟩
        default) := rfl
  have hforgiven : ¬ readEarly.Suspects false default := fun h => h.2 (by decide)
  obtain ⟨hrules, -⟩ := lint_followsRules hnumbers
  obtain ⟨line, span, hfirst, hreport⟩ := (hrules true).suspects default ⟨_, _, rfl⟩
  cases hfirst.symm.trans hread
  exact ⟨hnumbers, ⟨_, hreport, rfl⟩, (hrules false).others default hforgiven,
    ⟨_, (hrules false).jumps, rfl⟩, (hrules false).missingEnd⟩

end LineBasic
