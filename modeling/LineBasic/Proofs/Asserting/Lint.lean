import LineBasic.Lint
import LineBasic.Proofs.Asserting.Report

namespace LineBasic

open Lint

/-!
# Linting with assertions

What the linter finds is reported with its columns where it is found, and told its line when it is
put down.

* `Asserting.survey`, `Asserting.lint` -- the linter with its checks;
* `Asserting.lint_eq` -- no check fails, whatever the program, and the same is found.
-/

namespace Asserting

variable (p : Listing) (line : Line)

/-- Puts down what has been found on a line. -/
def findingOn (cause : Cause) (span : Span) : Asserting Finding := do
  let d ← cause.reportAt span
  let d ← d.giveLine (some line.number)
  return ⟨line.number, d.inSource line.source⟩

/-- Takes notice of a jump. -/
def surveyJump (v : Survey) (word : Keyword) (target : Expr) : Asserting Survey := do
  match target.literal? with
  | none => return v
  | some (span, n) =>
    if 1 ≤ n && p.contains n.toNatClampNeg then return v
    else return v.add (← findingOn line (.badBranchTarget word n) span)

/-- Takes notice of the read of a variable. -/
def surveyRead (v : Survey) (span : Span) (x : Letter) : Asserting Survey := do
  if x ∈ v.assigned || (v.suspects.lookup x).isSome then return v
  else return { v with suspects := (x, ← findingOn line (.maybeUninitialized x) span) ::
    v.suspects }

/-- Takes notice of a part of a statement. -/
def surveyVisit (v : Survey) : Line × Visit → Asserting Survey
  | (line, .expr (.var span x)) => surveyRead line v span x
  | (_, .expr _) => return v
  | (_, .target t) => return { v with assigned := t.name :: v.assigned }
  | (_, .statement (.halt _)) => return { v with hasEnd := true }
  | (line, .statement (.clear span)) => return v.add (← findingOn line .clearPresent span)
  | (line, .statement (.goto _ target)) => surveyJump p line v .GOTO target
  | (line, .statement (.gosub _ target)) => surveyJump p line v .GOSUB target
  | (_, .statement _) => return v

/-- What is known after all lines. -/
def survey : Asserting Survey := (visits p).foldlM (surveyVisit p) {}

/-- The reports of the linter. -/
def lint (strict : Bool) : Asserting (List Diagnostic) := do
  if p.isEmpty then return []
  else
    let v ← survey p
    return ((v.findings strict).mergeSort (·.place ≤ ·.place)).map Finding.report

/-- Judging the target of a jump makes at most one report, which is told its place once. -/
theorem surveyJump_eq (v : Survey) (word : Keyword) (target : Expr) :
    surveyJump p line v word target = .ok (v.jump p line word target) := by
  unfold surveyJump Survey.jump
  cases target.literal? with
  | none => rfl
  | some literal =>
    dsimp only
    split <;> rfl

/-- Noting the read of a variable makes at most one report, which is told its place once. -/
theorem surveyRead_eq (v : Survey) (span : Span) (x : Letter) :
    surveyRead line v span x = .ok (v.read line span x) := by
  unfold surveyRead Survey.read
  split <;> rfl

/-- Looking at one part of a line fails no check. -/
theorem surveyVisit_eq (v : Survey) (x : Line × Visit) : surveyVisit p v x = .ok (v.visit p x) := by
  obtain ⟨line, visit⟩ := x
  cases visit with
  | expr e =>
    cases e with
    | var span x => exact surveyRead_eq line v span x
    | _ => rfl
  | target => rfl
  | statement s =>
    cases s with
    | goto span target => exact surveyJump_eq p line v .GOTO target
    | gosub span target => exact surveyJump_eq p line v .GOSUB target
    | _ => rfl

/-- Looking at a whole program fails no check. -/
theorem survey_eq : survey p = .ok (Lint.survey p) := by
  have hvisit : surveyVisit p = fun v x => pure (v.visit p x) :=
    funext fun v => funext (surveyVisit_eq p v)
  rw [survey, hvisit, List.foldlM_pure]
  rfl

/-- **Linting.**  The linter fails no check, and finds what the library's linter finds. -/
theorem lint_eq (strict : Bool) : lint p strict = .ok (p.lint strict) := by
  unfold lint Listing.lint
  rw [survey_eq]
  split <;> rfl

end Asserting

end LineBasic
