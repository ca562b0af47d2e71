import LineBasic.Proofs.Lint.Rules

namespace LineBasic

/-!
# The order of discoveries

In its visits the linter discovers one thing after the other.  It keeps what it discovers of
variables apart from the rest, by their letters, so that on a line the order of the reports need not
be that of the discoveries.

* `grouped` -- the elements of a list, key by key;
* `Lint.Discovery`, `Lint.discoveries` -- what some visits discover, in their order;
* `Listing.discovered`, `Listing.discoveredOn` -- what is held against a program, and against a line
  of it;
* `Lint.lineFindings_eq` -- what the linter has found in lines is what it has discovered, the
  variables last and in alphabetical order;
* `Listing.lint_discovered` -- the main result: the reports of a line are in alphabetical order, and
  in the order of the discoveries only if that is the same;
* `Listing.lint_undiscovered_backwards` -- a program whose reports are not in the order of the
  discoveries.
-/

/-! ### Groups -/

section Groups

variable {α κ : Type} [DecidableEq κ] {key : α → κ} {r : κ → Nat} {k : κ} {ks : List κ} {x : α}
  {xs : List α}

/-- The elements of a list by their keys: for one key after the other, those that have it, as they
    stand in the list. -/
def grouped (ks : List κ) (key : α → κ) (xs : List α) : List α :=
  ks.flatMap fun k => xs.filter (key · = k)

/-- Those with the first key come first. -/
theorem grouped_cons : grouped (k :: ks) key xs = xs.filter (key · = k) ++ grouped ks key xs :=
  List.flatMap_cons

/-- Grouping keeps the elements whose keys are listed. -/
theorem mem_grouped : x ∈ grouped ks key xs ↔ key x ∈ ks ∧ x ∈ xs := by
  simp [grouped, and_comm]

/-- A list can be grouped before some elements are left out or afterwards. -/
theorem filter_grouped (q : α → Bool) :
    (grouped ks key xs).filter q = grouped ks key (xs.filter q) := by
  simp only [grouped, List.filter_flatMap]
  exact List.flatMap_congr fun k _ => List.filter_comm _ _ _

/-- Elements with one key are in the order of the keys as they stand. -/
theorem filter_key_pairwise :
    (xs.filter (key · = k)).Pairwise fun x y => r (key x) ≤ r (key y) := by
  refine List.pairwise_of_forall_mem_list fun x hx y hy => ?_
  simp only [List.mem_filter, decide_eq_true_eq] at hx hy
  exact Nat.le_of_eq (congrArg r (hx.2.trans hy.2.symm))

/-- The groups are in the order of the keys. -/
theorem grouped_pairwise (hks : ks.Pairwise (r · < r ·)) :
    (grouped ks key xs).Pairwise fun x y => r (key x) ≤ r (key y) := by
  refine List.pairwise_flatMap.2
    ⟨fun k _ => filter_key_pairwise, hks.imp fun {k k'} hlt x hx y hy => ?_⟩
  simp only [List.mem_filter, decide_eq_true_eq] at hx hy
  rw [hx.2, hy.2]
  exact Nat.le_of_lt hlt

/-- A list in which some elements stand before all others is these and the others. -/
theorem filter_append_filter_not {q : α → Bool} (h : xs.Pairwise fun x y => q y → q x) :
    xs.filter q ++ xs.filter (!q ·) = xs := by
  induction xs with
  | nil => rfl
  | cons x xs ih =>
    obtain ⟨hx, hxs⟩ := List.pairwise_cons.1 h
    cases hq : q x with
    | true => simp [hq, ih hxs]
    | false =>
      have hnone : ∀ y ∈ xs, q y = false := fun y hy => by simpa [hq] using mt (hx y hy)
      rw [List.filter_cons_of_neg (by simp [hq]), List.filter_cons_of_pos (by simp [hq]),
        List.filter_eq_nil_iff.2 (by simpa using hnone),
        List.filter_eq_self.2 (by simpa using hnone), List.nil_append]

/-- A list that is in the order of the keys already stays as it is. -/
theorem grouped_eq_self (hks : ks.Pairwise (r · < r ·))
    (hxs : xs.Pairwise fun x y => r (key x) ≤ r (key y)) (hkeys : ∀ x ∈ xs, key x ∈ ks) :
    grouped ks key xs = xs := by
  induction ks generalizing xs with
  | nil => exact (List.eq_nil_iff_forall_not_mem.2 fun x hx => List.not_mem_nil (hkeys x hx)).symm
  | cons k ks ih =>
    obtain ⟨hk, hks⟩ := List.pairwise_cons.1 hks
    have hothers : ∀ x ∈ xs, key x ≠ k → key x ∈ ks := fun x hx hne =>
      (List.mem_cons.1 (hkeys x hx)).resolve_left hne
    -- The elements with the first key stand before all others, whose groups do not depend on them.
    have hfirst : xs.Pairwise fun x y => decide (key y = k) → decide (key x = k) := by
      refine hxs.imp_of_mem fun {x y} hx hy hle => ?_
      simp only [decide_eq_true_eq]
      intro hyk
      by_contra hne
      have hlt := hk _ (hothers x hx hne)
      rw [hyk] at hle
      omega
    have hrest : grouped ks key (xs.filter fun x => !decide (key x = k)) = grouped ks key xs := by
      rw [← filter_grouped, List.filter_eq_self]
      intro x hx
      have hlt := hk _ (mem_grouped.1 hx).1
      have hne : key x ≠ k := fun h => by simp [h] at hlt
      simpa using hne
    have hgroups : grouped ks key (xs.filter fun x => !decide (key x = k)) =
        xs.filter fun x => !decide (key x = k) := by
      refine ih hks (hxs.filter _) fun x hx => ?_
      obtain ⟨hx, hne⟩ := List.mem_filter.1 hx
      exact hothers x hx (by simpa using hne)
    rw [grouped_cons, ← hrest, hgroups]
    exact filter_append_filter_not hfirst

end Groups

/-! ### Discoveries -/

namespace Lint

/-- Something that the linter discovers. -/
structure Discovery where
  /-- The line. -/
  line : Line
  /-- What is wrong there. -/
  fault : Fault
  deriving DecidableEq

namespace Discovery

/-- What is found. -/
def finding (d : Discovery) : Finding := findingOn d.line d.fault

/-- How it is reported. -/
def report (d : Discovery) : Diagnostic := d.finding.report

/-- The variable that is read too early, if that is what is wrong. -/
def suspect? (d : Discovery) : Option Letter :=
  match d.fault.cause with
  | .maybeUninitialized x => some x
  | _ => none

end Discovery

/-- What is wrong with statements comes before the variables, which are in alphabetical order. -/
def rank : Option Letter → Nat
  | none => 0
  | some x => x.index + 1

/-- The rank of a discovery among those of its line. -/
def Discovery.rank (d : Discovery) : Nat := Lint.rank d.suspect?

/-- What is wrong with a statement, and the variables in alphabetical order. -/
def ranks : List (Option Letter) := none :: Letter.all.map some

/-- The ranks are in ascending order. -/
theorem ranks_pairwise : ranks.Pairwise (rank · < rank ·) := by decide

/-- Whatever a discovery is about has a rank. -/
theorem mem_ranks (x? : Option Letter) : x? ∈ ranks := by
  cases x? with
  | none => exact List.mem_cons_self
  | some x => exact List.mem_cons_of_mem _ (List.mem_map_of_mem x.mem_all)

/-- Discoveries in that order. -/
def alphabetical (ds : List Discovery) : List Discovery := grouped ranks Discovery.suspect? ds

/-- What a visit discovers, given what is known before it. -/
def discoveredIn? (p : Listing) (v : Survey) : Line × Visit → Option Discovery
  | (line, .expr (.var span x)) =>
    if x ∈ v.assigned || (v.suspects.lookup x).isSome then none
    else some ⟨line, ⟨.maybeUninitialized x, span⟩⟩
  | (line, .statement s) => (p.fault? s).map (⟨line, ·⟩)
  | _ => none

/-- What some visits discover, in their order. -/
def discoveries (p : Listing) : Survey → List (Line × Visit) → List Discovery
  | _, [] => []
  | v, w :: ws => (discoveredIn? p v w).toList ++ discoveries p (Survey.visit p v w) ws

end Lint

namespace Listing

/-- What the linter discovers in a program, in the order of its visits.  Unless it is strict, it
    passes over the reads of variables that are written somewhere. -/
def discovered (p : Listing) (strict : Bool) : List Lint.Discovery :=
  (Lint.discoveries p {} (Lint.visits p)).filter fun d =>
    strict || d.suspect?.all (.write · ∉ p.accesses)

/-- What it discovers in the line with a number. -/
def discoveredOn (p : Listing) (strict : Bool) (n : Nat) : List Lint.Discovery :=
  (p.discovered strict).filter (·.line.number = n)

/-- What is to be said of a program as a whole: that it has lines, but no `END`. -/
def ending (p : Listing) : List Diagnostic :=
  if p.isEmpty || p.lines.any (·.statement.core.isHalt) then [] else [Cause.missingEnd.diagnostic]

end Listing

namespace Lint

variable {p : Listing} {v : Survey} {w : Line × Visit} {x : Letter} {strict : Bool}

/-! ### What the survey keeps of them -/

/-- What is wrong with a statement by itself is no variable. -/
theorem suspect?_of_fault? {l : Line} {s : Statement} {fault : Fault}
    (h : p.fault? s = some fault) :
    (Discovery.mk l fault).suspect? = none := by
  rcases fault?_code h with ⟨hcode, -⟩ | ⟨hcode, -⟩ <;>
    cases hcause : fault.cause <;> simp_all [Discovery.suspect?, Cause.code]

/-- What is discovered in the statements is found in the same order. -/
theorem discoveries_statements (ws : List (Line × Visit)) :
    ((discoveries p v ws).filter (·.suspect? = none)).map Discovery.finding =
      ws.filterMap (foundIn? p) := by
  have hvisit : ∀ (v : Survey) (w : Line × Visit),
      ((discoveredIn? p v w).toList.filter (·.suspect? = none)).map Discovery.finding =
      (foundIn? p w).toList := by
    rintro v ⟨line, visit⟩
    cases visit with
    | target t => rfl
    | expr e =>
      cases e with
      | var span x =>
        simp only [discoveredIn?]
        split <;> rfl
      | _ => rfl
    | statement s =>
      cases hfault : p.fault? s with
      | none => simp [discoveredIn?, foundIn?, hfault]
      | some fault =>
        simp [discoveredIn?, foundIn?, hfault, suspect?_of_fault? hfault, Discovery.finding]
  induction ws generalizing v with
  | nil => rfl
  | cons w ws ih =>
    rw [discoveries, List.filter_append, List.map_append, ih, hvisit, List.filterMap_cons]
    cases foundIn? p w <;> rfl

/-- A read is discovered only in a visit to it, if nothing has been done with the variable
    before. -/
theorem suspect?_discoveredIn? {d : Discovery} (hd : discoveredIn? p v w = some d)
    (hx : d.suspect? = some x) :
    access? w = some (.read d.line d.fault.column x) ∧ x ∉ v.assigned ∧
      v.suspects.lookup x = none := by
  obtain ⟨line, visit⟩ := w
  cases visit with
  | target t => cases hd
  | expr e =>
    cases e with
    | var span y =>
      simp only [discoveredIn?] at hd
      split at hd
      · cases hd
      next hfresh =>
        cases hd
        cases hx
        refine ⟨rfl, ?_⟩
        simpa only [Bool.or_eq_true, decide_eq_true_eq, not_or,
          Option.not_isSome_iff_eq_none] using hfresh
    | _ => cases hd
  | statement s =>
    obtain ⟨fault, hfault, rfl⟩ := Option.map_eq_some_iff.1 hd
    rw [suspect?_of_fault? hfault] at hx
    cases hx

/-- A variable that something has been done with is not discovered any more. -/
theorem discoveries_settled (h : x ∈ v.assigned ∨ (v.suspects.lookup x).isSome)
    (ws : List (Line × Visit)) :
    (discoveries p v ws).filter (·.suspect? = some x) = [] := by
  induction ws generalizing v with
  | nil => rfl
  | cons w ws ih =>
    have hsettled : x ∈ (Survey.visit p v w).assigned ∨
        ((Survey.visit p v w).suspects.lookup x).isSome := by
      refine h.imp (fun h => (visit_assigned w).2 (.inl h)) fun h => ?_
      obtain ⟨f, hf⟩ := Option.isSome_iff_exists.1 h
      rw [visit_suspects hf]
      rfl
    rw [discoveries, List.filter_append, ih hsettled, List.append_nil, List.filter_eq_nil_iff]
    intro d hd hx
    obtain ⟨-, hassigned, hnone⟩ :=
      suspect?_discoveredIn? (Option.mem_toList.1 hd) (of_decide_eq_true hx)
    simp [hassigned, hnone] at h

/-- A read is discovered if it is the first thing done with its variable. -/
theorem discoveries_suspect (hx : x ∉ v.assigned) (hnone : v.suspects.lookup x = none)
    (ws : List (Line × Visit)) :
    ((discoveries p v ws).filter (·.suspect? = some x)).map Discovery.finding =
      (((ws.filterMap access?).find? (·.name = x)).bind Access.suspect?).toList := by
  -- The induction goes on as long as nothing has been done with the variable; either access to it
  -- settles the matter.
  induction ws generalizing v with
  | nil => rfl
  | cons w ws ih =>
    rw [discoveries, List.filter_append, List.map_append, List.filterMap_cons]
    have hother : (∀ line span, access? w ≠ some (.read line span x)) →
        (discoveredIn? p v w).toList.filter (·.suspect? = some x) = [] := by
      intro hw
      refine List.filter_eq_nil_iff.2 fun d hd hdx => ?_
      exact hw _ _ (suspect?_discoveredIn? (Option.mem_toList.1 hd) (of_decide_eq_true hdx)).1
    cases visit_access p v w with
    | neither haccess hassigned hsuspects =>
      rw [hother (by simp [haccess]), haccess, List.map_nil, List.nil_append]
      exact ih (hassigned ▸ hx) (hsuspects ▸ hnone)
    | @read line span y haccess hvisit =>
      by_cases hyx : y = x
      · subst hyx
        have hsettled : ((Survey.visit p v w).suspects.lookup y).isSome := by
          rw [hvisit, lookup_read_self hx hnone]
          rfl
        have hdiscovered : discoveredIn? p v w = some ⟨line, ⟨.maybeUninitialized y, span⟩⟩ := by
          rw [eq_of_access?_read haccess]
          simp [discoveredIn?, hx, hnone]
        rw [discoveries_settled (.inr hsettled), hdiscovered, haccess]
        simp [Access.name, Access.suspect?, Discovery.suspect?, Discovery.finding]
      · rw [hother (by simp [haccess, hyx]), haccess, List.map_nil, List.nil_append,
          ih (by rwa [hvisit, read_assigned])
            (by rwa [hvisit, lookup_read fun h => absurd h.symm hyx])]
        simp [Access.name, hyx]
    | @write y haccess hvisit =>
      rw [hother (by simp [haccess]), haccess, List.map_nil, List.nil_append]
      by_cases hyx : y = x
      · subst hyx
        rw [discoveries_settled (.inl (by simp [hvisit]))]
        simp [Access.name, Access.suspect?]
      · rw [ih (by simpa [hvisit, hx] using Ne.symm hyx) (by rwa [hvisit])]
        simp [Access.name, hyx]

/-! ### What is found -/

/-- What is wrong with a statement is never passed over. -/
theorem discovered_statements (p : Listing) (strict : Bool) :
    ((p.discovered strict).filter (·.suspect? = none)).map Discovery.finding =
      (survey p).found.reverse := by
  have hkept : (p.discovered strict).filter (·.suspect? = none) =
      (discoveries p {} (visits p)).filter (·.suspect? = none) := by
    rw [Listing.discovered, List.filter_filter]
    refine List.filter_congr fun d _ => ?_
    cases d.suspect? <;> simp
  rw [hkept, discoveries_statements, survey, foldl_found_eq, List.append_nil, List.reverse_reverse]

/-- The read that is discovered of a variable is the one that is held against the program. -/
theorem discovered_suspect (p : Listing) (strict : Bool) (x : Letter) :
    ((p.discovered strict).filter (·.suspect? = some x)).map Discovery.finding =
      ((survey p).heldAgainst? strict x).toList := by
  have hkept : ∀ d : Discovery, d.suspect? = some x →
      (strict || d.suspect?.all (.write · ∉ p.accesses)) =
      !(!strict && x ∈ (survey p).assigned) := by
    intro d hd
    simp [hd, survey_assigned]
  -- Of one variable all reads are held against the program or none is.
  have hforgiven : (p.discovered strict).filter (·.suspect? = some x) =
      if !strict && x ∈ (survey p).assigned then []
      else (discoveries p {} (visits p)).filter (·.suspect? = some x) := by
    rw [Listing.discovered, List.filter_filter]
    split
    next h =>
      refine List.filter_eq_nil_iff.2 fun d _ hd => ?_
      obtain ⟨hx, hd⟩ := Bool.and_eq_true_iff.1 hd
      rw [hkept d (of_decide_eq_true hx), h] at hd
      cases hd
    next h =>
      refine List.filter_congr fun d _ => ?_
      by_cases hx : d.suspect? = some x
      · rw [hkept d hx, Bool.eq_false_iff.2 h]
        simp
      · simp [hx]
  rw [hforgiven, Survey.heldAgainst?]
  split
  · rfl
  · rw [discoveries_suspect (by simp) rfl, survey_lookup]
    rfl

/-- What has been found in the lines is what has been discovered there, in alphabetical order. -/
theorem lineFindings_eq (p : Listing) (strict : Bool) :
    (survey p).lineFindings strict =
      (alphabetical (p.discovered strict)).map Discovery.finding := by
  have hreads : (survey p).reads strict = Letter.all.filterMap ((survey p).heldAgainst? strict) :=
    rfl
  rw [alphabetical, ranks, grouped_cons, List.map_append, discovered_statements,
    Survey.lineFindings, hreads, grouped,
    List.flatMap_map, List.map_flatMap, List.filterMap_eq_flatMap_toList]
  simp only [discovered_suspect]

/-- What a visit discovers is on the line that is visited. -/
theorem line_of_discoveredIn? {d : Discovery} (hd : discoveredIn? p v w = some d) :
    d.line = w.1 := by
  obtain ⟨line, visit⟩ := w
  cases visit with
  | target t => cases hd
  | expr e =>
    cases e with
    | var span x =>
      simp only [discoveredIn?] at hd
      split at hd <;> cases hd
      rfl
    | _ => cases hd
  | statement s =>
    obtain ⟨fault, -, rfl⟩ := Option.map_eq_some_iff.1 hd
    rfl

/-- Discoveries are made in the lines of the visits, one after the other. -/
theorem discoveries_lines (ws : List (Line × Visit)) :
    ((discoveries p v ws).map Discovery.line).Sublist (ws.map Prod.fst) := by
  induction ws generalizing v with
  | nil => exact .slnil
  | cons w ws ih =>
    rw [discoveries, List.map_append]
    cases hd : discoveredIn? p v w with
    | none => exact ih.cons w.1
    | some d =>
      have hline : d.line = w.1 := line_of_discoveredIn? hd
      simpa [hline] using ih.cons_cons w.1

/-- The lines are visited from top to bottom. -/
theorem visits_lines (p : Listing) : ((visits p).map Prod.fst).Pairwise (·.number ≤ ·.number) := by
  have hmap : (visits p).map Prod.fst = p.lines.flatMap fun l =>
      l.statement.visits.map fun _ => l := by
    simp [visits, List.map_flatMap, Function.comp_def]
  rw [hmap, List.pairwise_flatMap]
  refine ⟨fun l _ => ?_, p.ascending.imp fun {l l'} hlt k hk k' hk' => ?_⟩
  · exact List.pairwise_map.2 (List.pairwise_of_forall fun _ _ => Nat.le_refl _)
  · obtain ⟨-, -, rfl⟩ := List.mem_map.1 hk
    obtain ⟨-, -, rfl⟩ := List.mem_map.1 hk'
    exact Nat.le_of_lt hlt

/-- Discoveries are about lines of the program. -/
theorem line_mem_of_discovered {d : Discovery} (hd : d ∈ p.discovered strict) :
    d.line ∈ p.lines := by
  have hline : d.line ∈ (visits p).map Prod.fst :=
    (discoveries_lines _).subset (List.mem_map_of_mem (List.mem_of_mem_filter hd))
  obtain ⟨w, hw, hline⟩ := List.mem_map.1 hline
  exact hline ▸ (mem_visits.1 hw).1

/-- Discoveries come in the order of the lines. -/
theorem discovered_pairwise (p : Listing) (strict : Bool) :
    (p.discovered strict).Pairwise (·.line.number ≤ ·.line.number) :=
  (List.pairwise_map.1 ((visits_lines p).sublist (discoveries_lines _))).filter _

/-! ### Reports -/

/-- The numbers of a program are in ascending order. -/
theorem numbers_pairwise (p : Listing) : (p.lines.map Line.number).Pairwise (id · < id ·) :=
  List.pairwise_map.2 p.ascending

/-- What has been discovered is discovered in one line after the other. -/
theorem flatMap_discoveredOn (p : Listing) (strict : Bool) :
    (p.lines.flatMap fun l => p.discoveredOn strict l.number) = p.discovered strict := by
  have hgroups : grouped (p.lines.map Line.number) (fun d => d.line.number) (p.discovered strict) =
      p.discovered strict :=
    grouped_eq_self (numbers_pairwise p) (discovered_pairwise p strict) fun d hd =>
      List.mem_map_of_mem (line_mem_of_discovered hd)
  rwa [grouped, List.flatMap_map] at hgroups

/-- The findings of a line. -/
theorem filter_lineFindings (p : Listing) (strict : Bool) (n : Nat) :
    ((survey p).lineFindings strict).filter (·.place = n) =
      (alphabetical (p.discoveredOn strict n)).map Discovery.finding := by
  rw [lineFindings_eq, List.filter_map, alphabetical, filter_grouped]
  rfl

/-- The findings in order are those of one line after the other. -/
theorem inOrder_lineFindings (p : Listing) (strict : Bool) :
    inOrder ((survey p).lineFindings strict) =
      p.lines.flatMap fun l => (alphabetical (p.discoveredOn strict l.number)).map
        Discovery.finding := by
  have hplaces : ∀ f ∈ inOrder ((survey p).lineFindings strict),
      f.place ∈ p.lines.map Line.number := by
    intro f hf
    obtain ⟨l, hl, fault, rfl, -⟩ := lineFindings_isLineFinding (mem_inOrder.1 hf)
    exact List.mem_map_of_mem hl
  rw [← grouped_eq_self (numbers_pairwise p) (inOrder_pairwise _) hplaces, grouped,
    List.flatMap_map]
  refine List.flatMap_congr fun l _ => ?_
  -- Findings of one line have been found in order, whatever that is.
  have hsame : (((survey p).lineFindings strict).filter (·.place = l.number)).Pairwise
      (·.place ≤ ·.place) :=
    filter_key_pairwise (r := id)
  exact (filter_inOrder hsame).trans (filter_lineFindings p strict l.number)

/-- What the linter reports is what it has discovered in one line after the other, and then the
    missing `END`. -/
theorem lint_flatMap (hnumbers : ∀ l ∈ p.lines, l.number ≤ afterAll) (strict : Bool) :
    p.lint strict = (p.lines.flatMap fun l =>
      (alphabetical (p.discoveredOn strict l.number)).map Discovery.report) ++ p.ending := by
  by_cases hp : p.lines = []
  · simp [Listing.lint, Listing.ending, Listing.isEmpty, hp]
  · have hending : (survey p).ending = p.ending := by
      have hend : (p.isEmpty || p.lines.any (·.statement.core.isHalt)) = (survey p).hasEnd := by
        rw [Bool.eq_iff_iff, survey_hasEnd]
        simp [Listing.isEmpty, hp]
      rw [Survey.ending, Listing.ending, hend]
    rw [lint_split hp hnumbers, inOrder_lineFindings, List.map_flatMap, hending]
    simp only [List.map_map]
    rfl

/-- The reports of a line. -/
theorem filter_lint_line (hnumbers : ∀ l ∈ p.lines, l.number ≤ afterAll) (strict : Bool) (n : Nat) :
    (p.lint strict).filter (·.line = some n) =
      (alphabetical (p.discoveredOn strict n)).map Discovery.report := by
  have hplace : ((survey p).lineFindings strict).filter (·.report.line = some n) =
      ((survey p).lineFindings strict).filter (·.place = n) := by
    refine List.filter_congr fun f hf => ?_
    obtain ⟨l, -, fault, rfl, -⟩ := lineFindings_isLineFinding hf
    exact decide_eq_decide.2 Option.some_inj
  by_cases hp : p.lines = []
  · have hnone : p.discovered strict = [] := List.eq_nil_iff_forall_not_mem.2 fun d hd => by
      simpa [hp] using line_mem_of_discovered hd
    rw [Listing.discoveredOn, hnone]
    simp [Listing.lint, Listing.isEmpty, hp, alphabetical, grouped]
  · rw [filter_lint hp hnumbers (·.line = some n)
      (by rw [hplace]; exact filter_key_pairwise (r := id)),
      ending_filter rfl, List.append_nil, hplace, filter_lineFindings, List.map_map]
    rfl

/-- The variable that a report is about. -/
def accused? (d : Diagnostic) : Option Letter := Letter.all.find? (d.accuses ·)

/-- The variable that a report is about can be told from the report. -/
theorem accused?_report (d : Discovery) : accused? d.report = d.suspect? := by
  have haccuses : ∀ x, d.report.accuses x ↔ d.suspect? = some x := by
    obtain ⟨line, cause, column⟩ := d
    intro x
    cases cause with
    | maybeUninitialized y => exact accuses_findingOn.trans Option.some_inj.symm
    | _ =>
      simp [Diagnostic.accuses, Discovery.report, Discovery.finding, Discovery.suspect?, Cause.code]
  unfold accused?
  cases hd : d.suspect? with
  | none => simp [List.find?_eq_none, haccuses, hd]
  | some x =>
    have hsome : (Letter.all.find? (d.report.accuses ·)).isSome :=
      List.find?_isSome.2 ⟨x, x.mem_all, (haccuses x).2 hd⟩
    obtain ⟨y, hy⟩ := Option.isSome_iff_exists.1 hsome
    rw [hy, ← (haccuses y).1 (by simpa using List.find?_some hy), hd]

/-- Discoveries are reported in their order if that is alphabetical, and not otherwise. -/
theorem alphabetical_report_iff {ds : List Discovery} :
    (alphabetical ds).map Discovery.report = ds.map Discovery.report ↔
      ds.Pairwise (·.rank ≤ ·.rank) := by
  constructor
  · intro h
    have hsuspects : (alphabetical ds).map Discovery.suspect? = ds.map Discovery.suspect? := by
      simpa [Function.comp_def, accused?_report] using congrArg (List.map accused?) h
    have hranks : (alphabetical ds).map Discovery.rank = ds.map Discovery.rank := by
      have h := congrArg (List.map rank) hsuspects
      rwa [List.map_map, List.map_map] at h
    have hordered : ((alphabetical ds).map Discovery.rank).Pairwise (· ≤ ·) :=
      List.pairwise_map.2 (grouped_pairwise ranks_pairwise)
    rw [hranks] at hordered
    exact List.pairwise_map.1 hordered
  · intro h
    rw [alphabetical, grouped_eq_self ranks_pairwise h fun d _ => mem_ranks _]

end Lint

/-- **Main result.**  The lines are reported on one after the other, and a missing `END` is reported
    last.  On a line, what is wrong with the statement comes first, and then the variables in
    alphabetical order; only where this is the order of the discoveries do the reports have that
    order. -/
theorem Listing.lint_discovered {p : Listing} (hnumbers : ∀ l ∈ p.lines, l.number ≤ Lint.afterAll)
    (strict : Bool) :
    p.lint strict =
        (p.lines.flatMap fun l =>
          (Lint.alphabetical (p.discoveredOn strict l.number)).map Lint.Discovery.report) ++
          p.ending ∧
      (∀ l ∈ p.lines, (p.lint strict).filter (·.line = some l.number) =
          (p.discoveredOn strict l.number).map Lint.Discovery.report ↔
        (p.discoveredOn strict l.number).Pairwise (·.rank ≤ ·.rank)) ∧
      (p.lint strict = (p.discovered strict).map Lint.Discovery.report ++ p.ending ↔
        ∀ l ∈ p.lines, (p.discoveredOn strict l.number).Pairwise (·.rank ≤ ·.rank)) := by
  have hlint := Lint.lint_flatMap hnumbers strict
  have hline : ∀ n, (p.lint strict).filter (·.line = some n) =
      (p.discoveredOn strict n).map Lint.Discovery.report ↔
        (p.discoveredOn strict n).Pairwise (·.rank ≤ ·.rank) := fun n => by
    rw [Lint.filter_lint_line hnumbers, Lint.alphabetical_report_iff]
  refine ⟨hlint, fun l _ => hline l.number, fun h l _ => ?_, fun h => ?_⟩
  · refine (hline l.number).1 ?_
    have hending : p.ending.filter (·.line = some l.number) = [] := by
      unfold ending
      split <;> rfl
    rw [h, List.filter_append, hending, List.append_nil, List.filter_map]
    exact congrArg (List.map Lint.Discovery.report)
      (List.filter_congr fun d _ => decide_eq_decide.2 Option.some_inj)
  · rw [hlint, ← Lint.flatMap_discoveredOn, List.map_flatMap]
    exact congrArg (· ++ p.ending)
      (List.flatMap_congr fun l hl => Lint.alphabetical_report_iff.2 (h l hl))

/-- The variable with a name. -/
def Letter.named (c : Char) : Letter := (ofChar? c).getD default

/-- A program that reads `A` before `B`, comes to a `CLEAR` when it has read both, and never
    ends. -/
def Listing.forwards : Listing :=
  [⟨10, "10 PRINT A,B", .print ⟨3, 8⟩ [.value (.var ⟨9, 10⟩ (.named 'A')), .comma ⟨10, 11⟩,
      .value (.var ⟨11, 12⟩ (.named 'B'))]⟩,
    ⟨20, "20 IF A=1 CLEAR", .cond ⟨3, 5⟩ (.var ⟨6, 7⟩ (.named 'A')) .equal (.int ⟨8, 9⟩ 1)
      (.clear ⟨10, 15⟩)⟩
  ].foldl insert .empty

/-- The variables come before the `CLEAR`, and the reports stand in the order of the discoveries. -/
theorem Listing.lint_discovered_forwards :
    (∀ l ∈ forwards.lines, l.number ≤ Lint.afterAll) ∧
      (∀ strict, (forwards.lint strict).map (·.code) =
        [.maybeUninitialized, .maybeUninitialized, .clearPresent, .missingEnd]) ∧
      ∀ strict, forwards.lint strict = (forwards.discovered strict).map Lint.Discovery.report ++
      forwards.ending := by
  have hnumbers : ∀ l ∈ forwards.lines, l.number ≤ Lint.afterAll := by decide
  have hordered : ∀ strict, ∀ l ∈ forwards.lines,
      (forwards.discoveredOn strict l.number).Pairwise (·.rank ≤ ·.rank) := by
    decide +kernel
  refine ⟨hnumbers, fun strict => ?_, fun strict =>
    (lint_discovered hnumbers strict).2.2.2 (hordered strict)⟩
  rw [(lint_discovered hnumbers strict).1]
  revert strict
  decide +kernel

/-- A program that reads `B` before `A`, and `C` before it comes to a `CLEAR`. -/
def Listing.backwards : Listing :=
  [⟨10, "10 PRINT B,A", .print ⟨3, 8⟩ [.value (.var ⟨9, 10⟩ (.named 'B')), .comma ⟨10, 11⟩,
      .value (.var ⟨11, 12⟩ (.named 'A'))]⟩,
    ⟨20, "20 IF C=1 CLEAR", .cond ⟨3, 5⟩ (.var ⟨6, 7⟩ (.named 'C')) .equal (.int ⟨8, 9⟩ 1)
      (.clear ⟨10, 15⟩)⟩,
    ⟨30, "30 END", .halt ⟨3, 6⟩⟩
  ].foldl insert .empty

/-- Its reports are not in the order of the discoveries, strict or not. -/
theorem Listing.lint_undiscovered_backwards :
    (backwards.discovered true).map (·.fault.cause) =
        [.maybeUninitialized (.named 'B'), .maybeUninitialized (.named 'A'),
          .maybeUninitialized (.named 'C'), .clearPresent] ∧
      (backwards.lint true).map (·.message) =
        [Cause.maybeUninitialized (.named 'A'), .maybeUninitialized (.named 'B'), .clearPresent,
          .maybeUninitialized (.named 'C')].map Cause.message ∧
      backwards.discovered false = backwards.discovered true ∧
      backwards.lint false = backwards.lint true ∧
      backwards.lint true ≠ (backwards.discovered true).map Lint.Discovery.report ++
      backwards.ending := by
  have hnumbers : ∀ l ∈ backwards.lines, l.number ≤ Lint.afterAll := by decide
  rw [Lint.lint_flatMap hnumbers, Lint.lint_flatMap hnumbers]
  decide +kernel

end LineBasic
