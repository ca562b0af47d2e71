import LineBasic.Proofs.Lint
import LineBasic.Proofs.Statement.Core

namespace LineBasic

/-!
# What the linter says about jumps

The linter judges each jump whose target is a number when it visits the statement.  Whether it is
strict does not matter here.

* `Listing.Misses` -- a statement jumps to a number that is that of no line;
* `Statement.eq_core_of_visited` -- the linter visits one statement of a line that is no `IF`;
* `Listing.lint_misses` -- the main result: the lines that are reported are those whose jump misses.
-/

/-- Whether a statement jumps to a number, written at some place, that is that of no line of a
    program. -/
def Listing.Misses (p : Listing) (s : Statement) (word : Keyword) (span : Span) (n : Int16) :
    Prop :=
  ∃ target, s.jump? = some (word, target) ∧ target.literal? = some (span, n) ∧ ¬ p.IsTarget n

/-! ### The statement that is no `IF` -/

namespace Statement

variable {s body : Statement}

/-- A jump is no `IF`. -/
theorem isCond_of_jump? (h : body.jump? ≠ none) : body.isCond = false := by
  cases body <;> first | rfl | simp [jump?] at h

/-- No statement is visited in an expression. -/
theorem statement_notMem_visits (e : Expr) (body : Statement) :
    Visit.statement body ∉ e.visits := by
  simp [Expr.visits]

/-- The statement inside the `IF`s is visited. -/
theorem core_visited (s : Statement) : Visit.statement s.core ∈ s.visits := by
  induction s with
  | cond _ lhs relation rhs body ih => simp [core, ih]
  | _ => simp [core]

/-- The one statement that is visited in a statement that is no `IF` is that statement. -/
theorem eq_of_visited (h : Visit.statement body ∈ s.visits) (hs : s.isCond = false) : body = s := by
  cases s with
  | cond => cases hs
  | list _ extent => cases extent <;> simpa [Extent.visits, statement_notMem_visits] using h
  | print _ items =>
    simp only [visits, List.mem_append, List.mem_flatMap, List.mem_singleton,
      Visit.statement.injEq] at h
    rcases h with ⟨item, -, hitem⟩ | h
    · cases item <;> simp [PrintItem.visits, statement_notMem_visits] at hitem
    · exact h
  | run _ arguments =>
    simp only [visits, List.mem_append, List.mem_flatMap, List.mem_singleton,
      Visit.statement.injEq] at h
    rcases h with ⟨e, -, he⟩ | h
    · exact absurd he (statement_notMem_visits e body)
    · exact h
  | _ => simpa [statement_notMem_visits] using h

/-- An `IF` is visited, and so is what is visited in the statement inside it. -/
theorem visited_cond {span : Span} {lhs rhs : Expr} {relation : Relation} {inner : Statement}
    (h : Visit.statement body ∈ (cond span lhs relation rhs inner).visits) :
    Visit.statement body ∈ inner.visits ∨ body = cond span lhs relation rhs inner := by
  simpa [statement_notMem_visits] using h

/-- Whatever is visited besides the statement inside all `IF`s is an `IF` or no statement. -/
theorem eq_core_of_visited (h : Visit.statement body ∈ s.visits) (hbody : body.isCond = false) :
    body = s.core := by
  induction s with
  | cond _ lhs relation rhs inner ih =>
    rcases visited_cond h with h | rfl
    · exact ih h
    · cases hbody
  | _ => exact eq_of_visited h rfl

/-- What is visited in a statement inside another is visited in the outer one. -/
theorem visits_subset (h : Visit.statement body ∈ s.visits) : ∀ v ∈ body.visits, v ∈ s.visits := by
  induction s with
  | cond _ lhs relation rhs inner ih =>
    rcases visited_cond h with h | rfl
    · intro v hv
      simp [ih h v hv]
    · exact fun _ hv => hv
  | _ =>
    obtain rfl := eq_of_visited h rfl
    exact fun _ hv => hv

end Statement

/-! ### What the survey has found -/

namespace Lint

variable {p : Listing} {v : Survey} {f : Finding}

/-- Whether a finding is that of a jump that misses. -/
def MissAt (p : Listing) (w : Line × Visit) (f : Finding) : Prop :=
  ∃ s word span n, w.2 = .statement s ∧ p.Misses s word span n ∧
    f = findingOn w.1 ⟨.badBranchTarget word n, span⟩

/-- Looking at a jump adds a finding exactly if the jump misses. -/
theorem jump_found {line : Line} {s : Statement} {word : Keyword} {target : Expr}
    (hs : s.jump? = some (word, target)) :
    f ∈ (v.jump p line word target).found ↔ f ∈ v.found ∨ MissAt p (line, .statement s) f := by
  -- The statement is the one that is visited, so its target is the only one that can be missed.
  have hmiss : MissAt p (line, .statement s) f ↔ ∃ span n, target.literal? = some (span, n) ∧
      ¬ p.IsTarget n ∧ f = findingOn line ⟨.badBranchTarget word n, span⟩ := by
    constructor
    · rintro ⟨s', word', span, n, hvisit, ⟨target', hjump, hliteral, hn⟩, rfl⟩
      obtain rfl := Visit.statement.inj hvisit
      obtain ⟨rfl, rfl⟩ := Prod.mk.inj (Option.some.inj (hs.symm.trans hjump))
      exact ⟨span, n, hliteral, hn, rfl⟩
    · rintro ⟨span, n, hliteral, hn, rfl⟩
      exact ⟨s, word, span, n, rfl, ⟨target, hs, hliteral, hn⟩, rfl⟩
  rw [hmiss]
  unfold Survey.jump
  cases hliteral : target.literal? with
  | none => simp
  | some literal =>
    obtain ⟨span, n⟩ := literal
    have htarget : (decide (1 ≤ n) && p.contains n.toNatClampNeg) = true ↔ p.IsTarget n := by
      simp [Listing.IsTarget]
    dsimp only
    by_cases hn : p.IsTarget n
    · rw [if_pos (htarget.2 hn)]
      simp only [Option.some.injEq, Prod.mk.injEq]
      constructor
      · exact .inl
      · rintro (h | ⟨_, _, ⟨rfl, rfl⟩, hmiss, -⟩)
        · exact h
        · exact absurd hn hmiss
    · rw [if_neg (mt htarget.1 hn), Survey.add, List.mem_cons, or_comm]
      simp only [Option.some.injEq, Prod.mk.injEq]
      constructor
      · rintro (h | rfl)
        · exact .inl h
        · exact .inr ⟨_, _, ⟨rfl, rfl⟩, hn, rfl⟩
      · rintro (h | ⟨_, _, ⟨rfl, rfl⟩, -, h⟩)
        · exact .inl h
        · exact .inr h

/-- A visit to something other than a jump finds none that misses. -/
theorem not_missAt_of_jump? {w : Line × Visit} (h : ∀ s, w.2 = .statement s → s.jump? = none) :
    ¬ MissAt p w f := by
  rintro ⟨s, word, span, n, hvisit, ⟨target, hjump, -⟩, -⟩
  simp [h s hvisit] at hjump

/-- What a visit says about jumps. -/
theorem visit_found (hf : f.report.code = .badBranchTarget) (w : Line × Visit) :
    f ∈ (Survey.visit p v w).found ↔ f ∈ v.found ∨ MissAt p w f := by
  obtain ⟨line, visit⟩ := w
  -- A visit to anything but a jump adds nothing that concerns jumps.
  have hsame : (∀ s, visit = .statement s → s.jump? = none) →
      (Survey.visit p v (line, visit)).found = v.found →
      (f ∈ (Survey.visit p v (line, visit)).found ↔ f ∈ v.found ∨ MissAt p (line, visit) f) := by
    intro hjump hfound
    simp [hfound, not_missAt_of_jump? (p := p) (f := f) (w := (line, visit)) hjump]
  cases visit with
  | target t => exact hsame nofun rfl
  | expr e =>
    refine hsame nofun ?_
    cases e with
    | var span x => rcases read_cases v line span x with ⟨-, h⟩ | ⟨-, h⟩ <;> simp [Survey.visit, h]
    | _ => rfl
  | statement s =>
    cases s with
    | goto span target => exact jump_found rfl
    | gosub span target => exact jump_found rfl
    | clear span =>
      have hne : f ≠ findingOn line ⟨.clearPresent, span⟩ := by
        rintro rfl
        cases hf
      have hmiss : ¬ MissAt p (line, .statement (.clear span)) f :=
        not_missAt_of_jump? fun s h => by
          obtain rfl := Visit.statement.inj h
          rfl
      simp [Survey.visit, Survey.add, hne, hmiss]
    | _ =>
      refine hsame (fun s h => ?_) rfl
      obtain rfl := Visit.statement.inj h
      rfl

/-- The jumps that have been found fault with are those visited that miss. -/
theorem foldl_found (hf : f.report.code = .badBranchTarget) (ws : List (Line × Visit)) :
    f ∈ (ws.foldl (Survey.visit p) v).found ↔ f ∈ v.found ∨ ∃ w ∈ ws, MissAt p w f := by
  -- Each visit adds to what has been found before, so the induction is for any survey.
  induction ws generalizing v with
  | nil => simp
  | cons w ws ih => simp [ih, visit_found hf, or_assoc]

/-- The linter visits one jump of a line, if there is any. -/
theorem missAt_visits :
    (∃ w ∈ visits p, MissAt p w f) ↔ ∃ l ∈ p.lines, ∃ word span n,
      p.Misses l.statement.core word span n ∧ f = findingOn l ⟨.badBranchTarget word n, span⟩ := by
  constructor
  · rintro ⟨w, hw, s, word, span, n, hvisit, hmiss, rfl⟩
    obtain ⟨l, hl, hw⟩ := List.mem_flatMap.1 hw
    obtain ⟨visit, hmem, rfl⟩ := List.mem_map.1 hw
    obtain rfl : visit = .statement s := hvisit
    have hs : s.isCond = false := Statement.isCond_of_jump? (by
      obtain ⟨target, hjump, -⟩ := hmiss
      simp [hjump])
    rw [Statement.eq_core_of_visited hmem hs] at hmiss
    exact ⟨l, hl, word, span, n, hmiss, rfl⟩
  · rintro ⟨l, hl, word, span, n, hmiss, rfl⟩
    have hw : (l, Visit.statement l.statement.core) ∈ visits p :=
      List.mem_flatMap.2 ⟨l, hl, List.mem_map_of_mem l.statement.core_visited⟩
    exact ⟨_, hw, _, word, span, n, rfl, hmiss, rfl⟩

/-- Only the survey's findings concern jumps. -/
theorem mem_findings {strict : Bool} (hf : f.report.code = .badBranchTarget) :
    f ∈ (survey p).findings strict ↔ f ∈ (survey p).found := by
  -- A report that depends on strictness is about a variable, and the last one about a missing
  -- `END`.
  have hreads : f ∉ (survey p).reads strict := by
    intro h
    obtain ⟨x, -, hx⟩ := List.mem_filterMap.1 h
    split at hx
    · cases hx
    · simp [survey_sober x f hx] at hf
  have hend : f ∉ if (survey p).hasEnd then [] else [⟨afterAll, Cause.missingEnd.diagnostic⟩] := by
    split
    · simp
    · intro h
      obtain rfl := List.mem_singleton.1 h
      cases hf
  simp [Survey.findings, hreads, hend]

end Lint

/-- **Main result.**  Strict or not, the linter reports that a target is bad for the lines whose
    jump misses, and for no others. -/
theorem Listing.lint_misses {p : Listing} {strict : Bool} {d : Diagnostic} :
    d ∈ p.lint strict ∧ d.code = .badBranchTarget ↔ ∃ l ∈ p.lines, ∃ word span n,
      p.Misses l.statement.core word span n ∧
        d = (Lint.findingOn l ⟨.badBranchTarget word n, span⟩).report := by
  constructor
  · rintro ⟨hd, hcode⟩
    obtain ⟨f, hf, rfl⟩ := Lint.finding_of_mem hd
    rcases (Lint.foldl_found hcode _).1 ((Lint.mem_findings hcode).1 hf) with hf | hf
    · cases hf
    · obtain ⟨l, hl, word, span, n, hmiss, rfl⟩ := Lint.missAt_visits.1 hf
      exact ⟨l, hl, word, span, n, hmiss, rfl⟩
  · rintro ⟨l, hl, word, span, n, hmiss, rfl⟩
    refine ⟨Lint.report_mem (List.ne_nil_of_mem hl) ((Lint.mem_findings rfl).2 ?_), rfl⟩
    exact (Lint.foldl_found rfl _).2
      (.inr (Lint.missAt_visits.2 ⟨l, hl, word, span, n, hmiss, rfl⟩))

end LineBasic
