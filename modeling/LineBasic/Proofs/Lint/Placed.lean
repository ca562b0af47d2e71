import LineBasic.Proofs.Engine.Faulted
import LineBasic.Proofs.Engine.Source
import LineBasic.Proofs.Line.Misread
import LineBasic.Proofs.Lint.Targets

namespace LineBasic

/-!
# Findings in their lines

A line that says where it failed, or what the linter thinks of it, points into its own text.

* `Line.Faithful.start_lt`, `DirectStatement.Faithful.start_lt` -- where a statement fails there is
  a character of the text that it was read from;
* `Lint.Survey.IsPlaced` -- what the linter has found so far points into lines of the program;
* `Lint.lint_wellPlaced` -- the main result, for any program of faithful lines.
-/

variable {d : Diagnostic} {fault : Fault}

/-! ### Reports -/

namespace Diagnostic

/-- A report that shows no text points at none. -/
theorem wellPlaced_of_none (h : d.source = none) : d.WellPlaced := by
  intro source hsource
  rw [h] at hsource
  cases hsource

/-- A report with a column of its text is well placed. -/
theorem wellPlaced_of_lt {source : String} (hsource : d.source = some source)
    (h : d.column.start < source.length) : d.WellPlaced := by
  intro source' hsource'
  obtain rfl : source = source' := Option.some.inj (hsource.symm.trans hsource')
  exact ⟨Nat.le_of_lt h, fun _ _ => h⟩

end Diagnostic

/-- The parts of the statement of an entry stand before the end of its text. -/
theorem Fault.IsAt.start_lt {source : String} {entry : Entry} {statement : Statement}
    (h : fault.IsAt statement.visits) (htrimmed : trimmed source = source)
    (hentry : Entry.ofText source = .ok entry) (hstatement : statement ∈ entry.statement?) :
    fault.column.start < source.length := by
  obtain ⟨v, hv, hcolumn⟩ := h
  have hnode : Node.visit v ∈ statement.nodes := List.mem_append_left _ (List.mem_map_of_mem hv)
  have hstart := (Entry.nodes_stand hentry statement hstatement _ hnode).start_lt
  rw [hcolumn, ← htrimmed]
  exact hstart

/-- A fault at a part of a faithful line has a column of its text. -/
theorem Line.Faithful.start_lt {l : Line} (hl : l.Faithful) (h : fault.IsAt l.statement.visits) :
    fault.column.start < l.source.length :=
  h.start_lt hl.trimmed hl.entry rfl

/-- A fault at a part of a faithful direct statement has a column of its text. -/
theorem DirectStatement.Faithful.start_lt {s : DirectStatement} (hs : s.Faithful)
    (h : fault.IsAt s.statement.visits) : fault.column.start < s.source.length :=
  h.start_lt hs.trimmed hs.entry rfl

/-- The text of a faithful line is not empty. -/
theorem Line.Faithful.length_pos {l : Line} (hl : l.Faithful) : 0 < l.source.length := by
  refine Nat.pos_of_ne_zero fun hzero => hl.not_allSpace ?_
  rw [← String.length_toList, List.length_eq_zero_iff] at hzero
  rw [hzero]
  rfl

/-! ### What the linter finds -/

/-- A number that an expression is, perhaps in parentheses, is one of its nodes. -/
theorem Expr.mem_nodes_of_literal? {e : Expr} {span : Span} {n : Int16}
    (h : e.literal? = some (span, n)) :
    .int span n ∈ e.nodes := by
  induction e with
  | int =>
    cases h
    exact List.mem_singleton_self _
  | group _ e ih => exact List.mem_append_left _ (ih h)
  | _ => cases h

namespace Lint

variable {p : Listing} {v : Survey}

/-- A survey whose findings are well placed. -/
structure Survey.IsPlaced (v : Survey) : Prop where
  /-- Each finding is well placed. -/
  found : ∀ f ∈ v.found, f.report.WellPlaced
  /-- So is each suspect. -/
  suspects : ∀ x f, v.suspects.lookup x = some f → f.report.WellPlaced

/-- What is found at a part of a faithful line is well placed. -/
theorem findingOn_wellPlaced {line : Line} (hline : line.Faithful)
    (h : fault.IsAt line.statement.visits) :
    (findingOn line fault).report.WellPlaced :=
  Diagnostic.wellPlaced_of_lt rfl (hline.start_lt h)

/-- A finding that is well placed may be added to a survey. -/
theorem Survey.IsPlaced.add (h : v.IsPlaced) {f : Finding} (hf : f.report.WellPlaced) :
    (v.add f).IsPlaced :=
  ⟨List.forall_mem_cons.2 ⟨hf, h.found⟩, h.suspects⟩

/-- Looking at a jump of a faithful line adds only what is well placed. -/
theorem Survey.IsPlaced.jump (h : v.IsPlaced) {line : Line} (hline : line.Faithful) {word : Keyword}
    {target : Expr} (htarget : ∀ v ∈ target.visits, v ∈ line.statement.visits) :
    (v.jump p line word target).IsPlaced := by
  unfold Survey.jump
  split
  next => exact h
  next span n hliteral =>
    split
    next => exact h
    next =>
      have hmem : Visit.expr (.int span n) ∈ target.visits :=
        List.mem_map_of_mem (Expr.mem_nodes_of_literal? hliteral)
      exact h.add (findingOn_wellPlaced hline ⟨_, htarget _ hmem, rfl⟩)

/-- Noting a read in a faithful line adds only what is well placed. -/
theorem Survey.IsPlaced.read (h : v.IsPlaced) {line : Line} (hline : line.Faithful) {span : Span}
    {x : Letter} (hread : .expr (.var span x) ∈ line.statement.visits) :
    (v.read line span x).IsPlaced := by
  rcases read_cases v line span x with ⟨-, hsame⟩ | ⟨-, hmore⟩
  · rwa [hsame]
  · rw [hmore]
    refine ⟨h.found, fun y f hf => ?_⟩
    rw [List.lookup_cons] at hf
    split at hf
    next =>
      cases hf
      exact findingOn_wellPlaced hline ⟨_, hread, rfl⟩
    next => exact h.suspects y f hf

/-- Visiting a part of a faithful line adds no finding but those that are well placed. -/
theorem Survey.IsPlaced.visit (h : v.IsPlaced) {line : Line} (hline : line.Faithful) {visit : Visit}
    (hvisit : visit ∈ line.statement.visits) : (Survey.visit p v (line, visit)).IsPlaced := by
  cases visit with
  | target t => exact ⟨h.found, h.suspects⟩
  | expr e =>
    cases e with
    | var span x => exact h.read hline hvisit
    | _ => exact h
  | statement s =>
    have hinside := Statement.visits_subset hvisit
    cases s with
    | goto span target | gosub span target =>
      exact h.jump hline fun v hv => hinside v (List.mem_append_left _ hv)
    | clear span => exact h.add (findingOn_wellPlaced hline ⟨_, hvisit, rfl⟩)
    | halt span => exact ⟨h.found, h.suspects⟩
    | _ => exact h

/-- All visits to a program of faithful lines find nothing but what is well placed. -/
theorem survey_isPlaced (h : ∀ l ∈ p.lines, l.Faithful) : (survey p).IsPlaced := by
  have hvisits : ∀ w ∈ visits p, w.1.Faithful ∧ w.2 ∈ w.1.statement.visits := by
    simp only [visits, List.forall_mem_flatMap, List.forall_mem_map]
    exact fun l hl v hv => ⟨h l hl, hv⟩
  -- Nothing has been found before the first visit, and each visit adds what is well placed.
  refine List.foldlRecOn (visits p) (Survey.visit p) ?_ fun v hv w hw => ?_
  · exact ⟨fun _ hf => (List.not_mem_nil hf).elim, fun _ _ hf => by cases hf⟩
  · exact hv.visit (hvisits w hw).1 (hvisits w hw).2

/-- **Findings in their text.**  What the linter reports about faithful lines is well placed. -/
theorem lint_wellPlaced (h : ∀ l ∈ p.lines, l.Faithful) (strict : Bool) :
    ∀ d ∈ p.lint strict, d.WellPlaced := by
  intro d hd
  obtain ⟨f, hf, rfl⟩ := finding_of_mem hd
  obtain ⟨hfound, hsuspects⟩ := survey_isPlaced h
  simp only [Survey.findings, List.mem_append, List.mem_reverse] at hf
  rcases hf with (hf | hf) | hf
  · exact hfound f hf
  · obtain ⟨x, -, hlookup⟩ := List.mem_filterMap.1 hf
    split at hlookup
    next => cases hlookup
    next => exact hsuspects x f hlookup
  · split at hf
    next => cases hf
    next =>
      rw [List.mem_singleton.1 hf]
      exact Diagnostic.wellPlaced_of_none rfl

end Lint

end LineBasic
