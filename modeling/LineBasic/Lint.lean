import LineBasic.Listing
import LineBasic.Statement.Visit

namespace LineBasic

/-!
# Linting

What can be said against a program without running it: a jump to a line that does not exist, a
`CLEAR`, a program without `END`, and a variable that is read before anything gives it a value. The
linter goes through the lines once, from top to bottom, and follows no jumps. It forgives a read if
the variable is given a value anywhere in the program, unless it is asked to be strict.
-/

namespace Lint

/-- Something found. -/
structure Finding where
  /-- The number that decides its place among the findings. -/
  place : Nat
  /-- The report of it. -/
  report : Diagnostic
  deriving DecidableEq, Repr

/-- What is known after some lines. -/
structure Survey where
  /-- The variables that have been given a value. -/
  assigned : List Letter := []
  /-- The variables that were read before that, each with its first read. -/
  suspects : List (Letter × Finding) := []
  /-- What has been found in other respects, the last first. -/
  found : List Finding := []
  /-- Whether there was an `END`. -/
  hasEnd : Bool := false

/-- The finding of a fault on a line. -/
def findingOn (line : Line) (fault : Fault) : Finding :=
  ⟨line.number, (fault.diagnostic.atLine (some line.number)).inSource line.source⟩

/-- Adds a finding. -/
def Survey.add (v : Survey) (f : Finding) : Survey := { v with found := f :: v.found }

/-- Takes notice of a jump. Only a target that is a number can be judged. -/
def Survey.jump (v : Survey) (p : Listing) (line : Line) (word : Keyword) (target : Expr) :
    Survey :=
  match target.literal? with
  | none => v
  | some (span, n) =>
    if 1 ≤ n && p.contains n.toNatClampNeg then v
    else v.add (findingOn line ⟨.badBranchTarget word n, span⟩)

/-- Takes notice of the read of a variable. -/
def Survey.read (v : Survey) (line : Line) (span : Span) (x : Letter) : Survey :=
  if x ∈ v.assigned || (v.suspects.lookup x).isSome then v
  else { v with suspects := (x, findingOn line ⟨.maybeUninitialized x, span⟩) :: v.suspects }

/-- Takes notice of a part of a statement. -/
def Survey.visit (p : Listing) (v : Survey) : Line × Visit → Survey
  | (line, .expr (.var span x)) => v.read line span x
  | (_, .expr _) => v
  | (_, .target t) => { v with assigned := t.name :: v.assigned }
  | (_, .statement (.halt _)) => { v with hasEnd := true }
  | (line, .statement (.clear span)) => v.add (findingOn line ⟨.clearPresent, span⟩)
  | (line, .statement (.goto _ target)) => v.jump p line .GOTO target
  | (line, .statement (.gosub _ target)) => v.jump p line .GOSUB target
  | (_, .statement _) => v

/-- The visits to the statements of a program, each with its line. -/
def visits (p : Listing) : List (Line × Visit) :=
  p.lines.flatMap fun line => line.statement.visits.map (line, ·)

/-- What is known after all lines. -/
def survey (p : Listing) : Survey := (visits p).foldl (Survey.visit p) {}

/-- The reads that are held against a program, in alphabetical order of their variables. -/
def Survey.reads (v : Survey) (strict : Bool) : List Finding :=
  Letter.all.filterMap fun x =>
    if !strict && x ∈ v.assigned then none else v.suspects.lookup x

/-- The place of what concerns the program as a whole: after every line. -/
def afterAll : Nat := 65535

/-- The findings, before they are put in order. -/
def Survey.findings (v : Survey) (strict : Bool) : List Finding :=
  v.found.reverse ++ v.reads strict
    ++ (if v.hasEnd then [] else [⟨afterAll, Cause.missingEnd.diagnostic⟩])

end Lint

/-- The reports of the linter, in the order of the lines. There is nothing to say against a program
without lines. -/
def Listing.lint (p : Listing) (strict : Bool) : List Diagnostic :=
  if p.isEmpty then []
  else (((Lint.survey p).findings strict).mergeSort (·.place ≤ ·.place)).map Lint.Finding.report

end LineBasic
