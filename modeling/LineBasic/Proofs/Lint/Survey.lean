import LineBasic.Proofs.Lint.Targets
import Mathlib.Data.List.Basic

namespace LineBasic

/-!
# What the survey knows

What is known of a program after all its lines, in terms of the program alone.

* `Statement.filterMap_visits` -- of the statements of a line, only the one inside all `IF`s counts;
* `Listing.fault?` -- what is wrong with a statement by itself;
* `Listing.accesses` -- the reads and writes of variables, in the order of the linter;
* `Lint.survey_found`, `Lint.survey_hasEnd`, `Lint.survey_assigned`, `Lint.survey_lookup` -- what
  the four parts of the survey are.
-/

/-! ### Statements -/

/-- The statement that is visited, if it is one. -/
def Visit.statement? : Visit → Option Statement
  | .statement s => some s
  | .expr _ | .target _ => none

@[simp] theorem Visit.statement?_statement (s : Statement) :
    (Visit.statement s).statement? = some s := rfl
@[simp] theorem Visit.statement?_expr (e : Expr) : (Visit.expr e).statement? = none := rfl
@[simp] theorem Visit.statement?_target (t : Target) : (Visit.target t).statement? = none := rfl

namespace Statement

variable {α : Type} {f : Statement → Option α}

@[simp] theorem filterMap_expr_visits (e : Expr) :
    e.visits.filterMap (fun v => v.statement?.bind f) = [] := by
  simp [Expr.visits]

@[simp] theorem filterMap_extent_visits (extent : Extent) :
    extent.visits.filterMap (fun v => v.statement?.bind f) = [] := by
  cases extent <;> simp [Extent.visits]

@[simp] theorem filterMap_item_visits (item : PrintItem) :
    item.visits.filterMap (fun v => v.statement?.bind f) = [] := by
  cases item <;> simp [PrintItem.visits]

/-- Of the statements visited in a line, only the one inside all `IF`s is no `IF`. -/
theorem filterMap_visits (hf : ∀ s : Statement, s.isCond → f s = none) (s : Statement) :
    s.visits.filterMap (fun v => v.statement?.bind f) = (f s.core).toList := by
  have hlast : ∀ body : Statement, [Visit.statement body].filterMap (fun v => v.statement?.bind f) =
      (f body).toList :=
    fun body => by cases h : f body <;> simp [h]
  -- Each `IF` is visited after its body, and adds nothing.
  induction s with
  | cond span lhs relation rhs body ih =>
    have hcond : f (cond span lhs relation rhs body) = none := hf _ rfl
    simp [ih, core, hlast, hcond]
  | input span targets => simp [hlast, core, List.filterMap_map, Function.comp_def]
  | assign span target value =>
    rw [visits, List.filterMap_append, filterMap_expr_visits]
    exact hlast (assign span target value)
  | print span items | run span items => simp [hlast, core, List.filterMap_flatMap]
  | _ => simp [hlast, core]

/-- Whether a statement is an `END`. -/
def isHalt : Statement → Bool
  | halt _ => true
  | _ => false

/-- What is wrong with a statement that must not be in a program. -/
def clearFault? : Statement → Option Fault
  | clear span => some ⟨.clearPresent, span⟩
  | _ => none

end Statement

namespace Listing

/-- What is wrong with a target that is a number, but not that of a line. -/
def targetFault? (p : Listing) (word : Keyword) (target : Expr) : Option Fault :=
  match target.literal? with
  | none => none
  | some (span, n) =>
    if 1 ≤ n && p.contains n.toNatClampNeg then none else some ⟨.badBranchTarget word n, span⟩

/-- What is wrong with a jump. -/
def jumpFault? (p : Listing) (s : Statement) : Option Fault :=
  match s.jump? with
  | none => none
  | some (word, target) => p.targetFault? word target

/-- What is wrong with a statement by itself. -/
def fault? (p : Listing) (s : Statement) : Option Fault := s.clearFault?.or (p.jumpFault? s)

variable {p : Listing} {s : Statement} {fault : Fault}

/-- A target is at fault if it is a number, and that of no line. -/
theorem targetFault?_eq_some_iff {word : Keyword} {target : Expr} :
    p.targetFault? word target = some fault ↔
      ∃ span n, target.literal? = some (span, n) ∧ ¬ p.IsTarget n ∧
        fault = ⟨.badBranchTarget word n, span⟩ := by
  unfold targetFault?
  cases target.literal? with
  | none => simp
  | some literal =>
    obtain ⟨span, n⟩ := literal
    by_cases hn : p.IsTarget n
    · have htarget : (decide (1 ≤ n) && p.contains n.toNatClampNeg) = true := by
        simpa [IsTarget] using hn
      simp [htarget, hn]
    · have htarget : (decide (1 ≤ n) && p.contains n.toNatClampNeg) = false := by
        simpa [IsTarget] using hn
      simp [htarget, hn, eq_comm]

/-- There is something wrong with a jump if it misses. -/
theorem jumpFault?_eq_some_iff : p.jumpFault? s = some fault ↔
    ∃ word span n, p.Misses s word span n ∧ fault = ⟨.badBranchTarget word n, span⟩ := by
  unfold jumpFault? Misses
  cases s.jump? with
  | none => simp
  | some jump =>
    obtain ⟨word, target⟩ := jump
    simp only [targetFault?_eq_some_iff, Option.some.injEq, Prod.mk.injEq]
    constructor
    · rintro ⟨span, n, hliteral, hn, rfl⟩
      exact ⟨word, span, n, ⟨target, ⟨rfl, rfl⟩, hliteral, hn⟩, rfl⟩
    · rintro ⟨_, span, n, ⟨_, ⟨rfl, rfl⟩, hliteral, hn⟩, rfl⟩
      exact ⟨span, n, hliteral, hn, rfl⟩

/-- Nothing is wrong with an `IF` by itself. -/
theorem fault?_of_isCond (h : s.isCond) : p.fault? s = none := by
  cases s <;> first | rfl | cases h

end Listing

namespace Lint

variable {p : Listing} {v : Survey} {x : Letter}

/-- What is found in a visit, apart from variables. -/
def foundIn? (p : Listing) (w : Line × Visit) : Option Finding :=
  w.2.statement?.bind fun s => (p.fault? s).map (findingOn w.1)

/-- Looking at a jump adds what is wrong with its target. -/
theorem jump_found_eq (line : Line) (word : Keyword) (target : Expr) :
    (v.jump p line word target).found =
      ((p.targetFault? word target).map (findingOn line)).toList ++ v.found := by
  unfold Survey.jump Listing.targetFault?
  cases target.literal? with
  | none => rfl
  | some literal =>
    dsimp only
    split <;> rfl

/-- A visit adds what is found in it. -/
theorem visit_found_eq (w : Line × Visit) :
    (Survey.visit p v w).found = (foundIn? p w).toList ++ v.found := by
  obtain ⟨line, visit⟩ := w
  cases visit with
  | target => rfl
  | expr e =>
    cases e with
    | var span x =>
      rcases read_cases v line span x with ⟨-, h⟩ | ⟨-, h⟩ <;> simp [Survey.visit, h, foundIn?]
    | _ => rfl
  | statement s =>
    cases s with
    | goto | gosub => exact jump_found_eq line _ _
    | _ => rfl

/-- Visits add what is found in them, the last one in front. -/
theorem foldl_found_eq (ws : List (Line × Visit)) :
    (ws.foldl (Survey.visit p) v).found = (ws.filterMap (foundIn? p)).reverse ++ v.found := by
  induction ws generalizing v with
  | nil => rfl
  | cons w ws ih =>
    rw [List.foldl_cons, ih, visit_found_eq, List.filterMap_cons]
    cases foundIn? p w <;> simp

/-- Apart from variables, one thing is found in a line at most, and in the order of the lines. -/
theorem survey_found (p : Listing) : (survey p).found.reverse =
    p.lines.filterMap fun l => (p.fault? l.statement.core).map (findingOn l) := by
  have hline : ∀ l : Line, (l.statement.visits.map (l, ·)).filterMap (foundIn? p) =
      ((p.fault? l.statement.core).map (findingOn l)).toList := by
    intro l
    rw [List.filterMap_map]
    refine Statement.filterMap_visits (f := fun s => (p.fault? s).map (findingOn l))
      (fun s hs => ?_) l.statement
    rw [Listing.fault?_of_isCond hs, Option.map_none]
  have hsurvey : (survey p).found.reverse = (visits p).filterMap (foundIn? p) := by
    rw [survey, foldl_found_eq, List.append_nil, List.reverse_reverse]
  rw [hsurvey, visits, List.filterMap_flatMap, List.filterMap_eq_flatMap_toList]
  simp only [hline]

/-- Whether an `END` is visited. -/
def isEnd (w : Line × Visit) : Bool := w.2.statement?.any Statement.isHalt

/-- A visit finds an `END`, or none has been found before. -/
theorem visit_hasEnd (w : Line × Visit) : (Survey.visit p v w).hasEnd = (v.hasEnd || isEnd w) := by
  have hjump : ∀ line word target, (v.jump p line word target).hasEnd = v.hasEnd := by
    intro line word target
    unfold Survey.jump
    split
    · rfl
    · split <;> rfl
  obtain ⟨line, visit⟩ := w
  cases visit with
  | target => simp [Survey.visit, isEnd]
  | expr e =>
    cases e with
    | var span x =>
      rcases read_cases v line span x with ⟨-, h⟩ | ⟨-, h⟩ <;> simp [Survey.visit, h, isEnd]
    | _ => simp [Survey.visit, isEnd]
  | statement s =>
    cases s with
    | goto | gosub => simp [Survey.visit, hjump, isEnd, Statement.isHalt]
    | _ => simp [Survey.visit, Survey.add, isEnd, Statement.isHalt]

/-- Visits find an `END` if one of them is that of an `END`. -/
theorem foldl_hasEnd (ws : List (Line × Visit)) :
    (ws.foldl (Survey.visit p) v).hasEnd = (v.hasEnd || ws.any isEnd) := by
  induction ws generalizing v with
  | nil => simp
  | cons w ws ih => rw [List.foldl_cons, ih, visit_hasEnd, List.any_cons, Bool.or_assoc]

/-- A program has an `END` if one of its lines comes to it. -/
theorem survey_hasEnd : (survey p).hasEnd ↔ ∃ l ∈ p.lines, l.statement.core.isHalt := by
  have hline : ∀ l : Line, (l.statement.visits.map (l, ·)).any isEnd = l.statement.core.isHalt := by
    intro l
    rw [Bool.eq_iff_iff, List.any_map, List.any_eq_true]
    constructor
    · rintro ⟨visit, hvisit, hend⟩
      cases visit with
      | statement s =>
        have hhalt : s.isHalt := hend
        have hs : s.isCond = false := by cases s <;> first | rfl | cases hhalt
        rw [← Statement.eq_core_of_visited hvisit hs]
        exact hhalt
      | expr | target => cases hend
    · intro h
      exact ⟨.statement l.statement.core, l.statement.core_visited, h⟩
  rw [survey, foldl_hasEnd, visits, List.any_flatMap]
  simp [hline]

/-! ### Variables -/

end Lint

/-- Something that a line does with a variable. -/
inductive Access where
  | read (line : Line) (span : Span) (x : Letter)
  | write (x : Letter)
  deriving DecidableEq

namespace Access

/-- The variable. -/
def name : Access → Letter
  | read _ _ x | write x => x

/-- Whether a variable is read. -/
def isRead (x : Letter) : Access → Bool
  | read _ _ y => y = x
  | write _ => false

/-- What is found if a read is held against a program. -/
def suspect? : Access → Option Lint.Finding
  | read line span x => some (Lint.findingOn line ⟨.maybeUninitialized x, span⟩)
  | write _ => none

end Access

/-- What is done with a variable in a visit. -/
def Lint.access? : Line × Visit → Option Access
  | (line, .expr (.var span x)) => some (.read line span x)
  | (_, .target t) => some (.write t.name)
  | _ => none

/-- The reads and writes of variables in a program, in the order of the linter. -/
def Listing.accesses (p : Listing) : List Access := (Lint.visits p).filterMap Lint.access?

namespace Lint

variable {p : Listing} {v : Survey} {x : Letter}

/-- All parts of all lines are visited. -/
theorem mem_visits {w : Line × Visit} :
    w ∈ visits p ↔ w.1 ∈ p.lines ∧ w.2 ∈ w.1.statement.visits := by
  obtain ⟨line, visit⟩ := w
  simp [visits]

/-- A read is a visit to a variable in an expression. -/
theorem eq_of_access?_read {w : Line × Visit} {line : Line} {span : Span}
    (h : access? w = some (.read line span x)) :
    w = (line, .expr (.var span x)) := by
  obtain ⟨line, visit⟩ := w
  cases visit with
  | target | statement => cases h
  | expr e =>
    cases e with
    | var =>
      cases h
      rfl
    | _ => cases h

/-- What a visit notes about variables, by the access that it is. -/
inductive Notes (p : Listing) (v : Survey) (w : Line × Visit) : Prop
  /-- A visit that is no access notes nothing. -/
  | neither (haccess : access? w = none) (hassigned : (Survey.visit p v w).assigned = v.assigned)
      (hsuspects : (Survey.visit p v w).suspects = v.suspects)
  | read {line : Line} {span : Span} {y : Letter} (haccess : access? w = some (.read line span y))
      (hvisit : Survey.visit p v w = v.read line span y)
  | write {y : Letter} (haccess : access? w = some (.write y))
      (hvisit : Survey.visit p v w = { v with assigned := y :: v.assigned })

/-- What a visit notes about variables is settled by the access that it is. -/
theorem visit_access (p : Listing) (v : Survey) (w : Line × Visit) : Notes p v w := by
  obtain ⟨line, visit⟩ := w
  cases visit with
  | target t => exact .write rfl rfl
  | expr e =>
    cases e with
    | var => exact .read rfl rfl
    | _ => exact .neither rfl rfl rfl
  | statement s =>
    cases s with
    | goto | gosub => exact .neither rfl (jump_same _ _ _).1 (jump_same _ _ _).2
    | _ => exact .neither rfl rfl rfl

/-- The read of a variable does not concern another one, nor one that has been given a value. -/
theorem lookup_read {y : Letter} (h : x = y → x ∈ v.assigned) (line : Line) (span : Span) :
    (v.read line span y).suspects.lookup x = v.suspects.lookup x := by
  unfold Survey.read
  split
  next => rfl
  next hy =>
    have hne : x ≠ y := by
      rintro rfl
      simp [h rfl] at hy
    exact List.lookup_cons.trans (by rw [beq_false_of_ne hne])

/-- The first read of a variable without a value is noted. -/
theorem lookup_read_self (hx : x ∉ v.assigned) (hnone : v.suspects.lookup x = none) (line : Line)
    (span : Span) :
    (v.read line span x).suspects.lookup x =
      some (findingOn line ⟨.maybeUninitialized x, span⟩) := by
  simp [Survey.read, hx, hnone]

/-- A read gives no variable a value. -/
theorem read_assigned (line : Line) (span : Span) (y : Letter) :
    (v.read line span y).assigned = v.assigned := by
  rcases read_cases v line span y with ⟨-, h⟩ | ⟨-, h⟩ <;> rw [h]

/-- A variable that has been given a value is not suspected any more. -/
theorem lookup_foldl_of_assigned (hx : x ∈ v.assigned) (hnone : v.suspects.lookup x = none)
    (ws : List (Line × Visit)) : (ws.foldl (Survey.visit p) v).suspects.lookup x = none := by
  induction ws generalizing v with
  | nil => exact hnone
  | cons w ws ih =>
    refine ih (visit_assigned w |>.2 (.inl hx)) ?_
    rcases visit_cases p v w with ⟨span, y, -, h⟩ | ⟨t, -, h⟩ | ⟨-, -, h⟩
    · rw [h, lookup_read fun _ => hx, hnone]
    · rw [h, hnone]
    · rw [h, hnone]

/-- **Suspects.**  A variable is suspected if the first thing done with it is a read. -/
theorem lookup_foldl (hx : x ∉ v.assigned) (hnone : v.suspects.lookup x = none)
    (ws : List (Line × Visit)) :
    (ws.foldl (Survey.visit p) v).suspects.lookup x =
      ((ws.filterMap access?).find? (·.name = x)).bind Access.suspect? := by
  -- The induction goes on as long as nothing has been done with the variable; either access to it
  -- settles the matter.
  induction ws generalizing v with
  | nil => exact hnone
  | cons w ws ih =>
    rw [List.foldl_cons, List.filterMap_cons]
    cases visit_access p v w with
    | neither haccess hassigned hsuspects =>
      rw [haccess]
      exact ih (hassigned ▸ hx) (hsuspects ▸ hnone)
    | @read line span y haccess hvisit =>
      rw [haccess, hvisit]
      by_cases hyx : y = x
      · subst hyx
        rw [foldl_suspects (lookup_read_self hx hnone line span)]
        simp [Access.name, Access.suspect?]
      · rw [ih (by rwa [read_assigned]) (by rwa [lookup_read fun h => absurd h.symm hyx])]
        simp [Access.name, hyx]
    | @write y haccess hvisit =>
      rw [haccess, hvisit]
      by_cases hyx : y = x
      · subst hyx
        rw [lookup_foldl_of_assigned (by simp) (by exact hnone)]
        simp [Access.name, Access.suspect?]
      · rw [ih (by simpa [hx] using Ne.symm hyx) (by exact hnone)]
        simp [Access.name, hyx]

/-- A variable is a suspect if the first access to it is a read. -/
theorem survey_lookup : (survey p).suspects.lookup x =
    (p.accesses.find? (·.name = x)).bind Access.suspect? :=
  lookup_foldl (by simp) rfl (visits p)

/-- A variable is given a value in the survey if there is a write among the accesses. -/
theorem survey_assigned : x ∈ (survey p).assigned ↔ .write x ∈ p.accesses := by
  rw [survey, foldl_assigned, Listing.accesses, List.mem_filterMap]
  have hwrite : ∀ w : Line × Visit, GivesAt w x ↔ access? w = some (.write x) := by
    rintro ⟨line, visit⟩
    cases visit with
    | target t => simp [GivesAt, access?]
    | statement => simp [GivesAt, access?]
    | expr e => cases e <;> simp [GivesAt, access?]
  simp [hwrite]

end Lint

end LineBasic
