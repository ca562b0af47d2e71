import LineBasic.Diagnostic.Basic
import LineBasic.Token.Scan

namespace LineBasic

/-!
# Assertions

A report is made in one place and told where it belongs by others, each of which takes for granted
that none before it has said so already; a reader takes for granted that its row of tokens has an
end, and a listing that a number is the number of a line.  Here and in the modules beside this one,
whatever takes something for granted is written a second time with a check in its place, and shown
to fail no check and to do otherwise what it did before.

* `Breach` -- what can turn out not to hold;
* `Asserting`, `insist` -- computations that may come upon a breach, and a check;
* `Asserting.Passes` -- a computation comes upon none, and its result is as it should be;
* `Diagnostic.giveLine`, `Diagnostic.giveColumn` -- reports are told their line and their columns
  once;
* `Attempt` -- computations that may fail with a report as well;
* `Attempt.Agrees` -- a checked attempt does what an unchecked one does;
* `Asserting.scan` -- the scanner with its checks.
-/

/-- Something that was taken for granted and does not hold. -/
inductive Breach where
  /-- A report is told a line for the second time. -/
  | secondLine
  /-- A report is told columns for the second time. -/
  | secondColumn
  /-- A reader is given tokens that do not end where a line ends. -/
  | openRow
  /-- A reader goes beyond the end of the line. -/
  | pastEnd
  /-- A reader steps back from the first token. -/
  | beforeFront
  /-- A loop of a reader comes round again without having taken a token. -/
  | standstill
  /-- A line is stored under a number that no line has. -/
  | badNumber
  /-- The lines from one number to a smaller one are asked for. -/
  | invertedRange
  /-- A question is about a variable behind its last one. -/
  | pastVariables
  /-- A question names no variable. -/
  | emptyQuestion
  deriving DecidableEq, Repr

/-- A computation that may come upon a breach. -/
abbrev Asserting (α : Type) := Except Breach α

/-- Checks that something holds. -/
def insist (p : Prop) [Decidable p] (b : Breach) : Asserting Unit := if p then .ok () else .error b

/-- What holds can be insisted on. -/
theorem insist_of {p : Prop} [Decidable p] {b : Breach} (h : p) : insist p b = .ok () := if_pos h

/-- Whether a computation comes upon no breach, and its result is as it should be. -/
def Asserting.Passes {α : Type} (r : Asserting α) (P : α → Prop) : Prop := ∃ a, r = .ok a ∧ P a

/-- A result passes if it has the property that is asked of it. -/
theorem Asserting.passes_ok {α : Type} {P : α → Prop} {a : α} (h : P a) : Passes (.ok a) P :=
  ⟨a, rfl, h⟩

/-- Checked computations pass one after the other. -/
theorem Asserting.Passes.bind {α β : Type} {r : Asserting α} {P : α → Prop} {k : α → Asserting β}
    {Q : β → Prop} (h : r.Passes P) (hk : ∀ a, P a → (k a).Passes Q) : (r >>= k).Passes Q := by
  obtain ⟨a, rfl, ha⟩ := h
  exact hk a ha

/-! ### Reports -/

/-- Tells a report which program line failed. -/
def Diagnostic.giveLine (d : Diagnostic) (line : Option Nat) : Asserting Diagnostic := do
  insist (d.line = none) .secondLine
  return d.atLine line

/-- Tells a report which columns are concerned. -/
def Diagnostic.giveColumn (d : Diagnostic) (column : Span) : Asserting Diagnostic := do
  insist (d.column = .unplaced) .secondColumn
  return d.atColumn column

/-- Makes a report, and tells it which columns are concerned. -/
def Cause.reportAt (cause : Cause) (column : Span) : Asserting Diagnostic :=
  cause.diagnostic.giveColumn column

/-- The report of a cause has no place yet. -/
@[simp] theorem Cause.giveLine_diagnostic (cause : Cause) (line : Option Nat) :
    cause.diagnostic.giveLine line = .ok (cause.diagnostic.atLine line) := rfl

@[simp] theorem Cause.reportAt_eq (cause : Cause) (column : Span) :
    cause.reportAt column = .ok (Fault.mk cause column).diagnostic := rfl

/-- The report of a fault has columns, and no line. -/
@[simp] theorem Fault.giveLine_diagnostic (fault : Fault) (line : Option Nat) :
    fault.diagnostic.giveLine line = .ok (fault.diagnostic.atLine line) := rfl

/-- A report that has been told its line is not told another one. -/
example : ((Fault.mk .noEnd ⟨0, 3⟩).diagnostic.atLine (some 10)).giveLine (some 20) =
    .error .secondLine := rfl

/-! ### Attempts -/

/-- A computation that may come upon a breach, or fail with a report. -/
abbrev Attempt (α : Type) := ExceptT Diagnostic Asserting α

namespace Attempt

variable {α β α' β' : Type} {R : α → β → Prop} {S : α' → β' → Prop} {g : Attempt α}
  {x : Except Fault β}

/-- Whether an attempt comes upon no breach, has a result that is related to a given one, and fails
    with the report of a given fault. -/
def Agrees (R : α → β → Prop) (g : Attempt α) (x : Except Fault β) : Prop :=
  match x with
  | .ok b => ∃ a, R a b ∧ g = pure a
  | .error fault => g = throw fault.diagnostic

/-- What has been checked makes no difference to what is attempted with it. -/
theorem run_after {x : Asserting α} {a : α} (h : x = .ok a) (k : α → Attempt β) :
    (do k (← x) : Attempt β).run = (k a).run := by
  rw [h]
  rfl

/-- Two attempts without a breach, one after the other, come to what they come to without checks. -/
theorem run_bind {g : Attempt α} {r : Except Diagnostic α} {k : α → Attempt β}
    {k' : α → Except Diagnostic β} (h : g.run = .ok r)
    (hk : ∀ a, r = .ok a → (k a).run = .ok (k' a)) : (g >>= k).run = .ok (r >>= k') := by
  obtain rfl : g = ExceptT.mk (.ok r) := h
  cases r with
  | ok a => exact hk a rfl
  | error d => rfl

/-- A mere value has nothing to check. -/
theorem agrees_ok {a : α} {b : β} (h : R a b) : Agrees R (pure a) (.ok b) := ⟨a, h, rfl⟩

/-- A report that is told its columns where it is made has not been told them before. -/
theorem agrees_report {cause : Cause} {column : Span} :
    Agrees R (do throw (← cause.reportAt column)) (.error ⟨cause, column⟩) := rfl

/-- An attempt that fails decides all that was to come after it. -/
theorem Agrees.of_error {fault : Fault} {y : Except Fault β'} {k : α → Attempt α'}
    (h : Agrees R g (.error fault)) (hy : y = .error fault) : Agrees S (g >>= k) y := by
  obtain rfl : g = throw fault.diagnostic := h
  subst hy
  rfl

/-- An attempt that succeeds goes on with its result. -/
theorem Agrees.of_ok {b : β} {y : Except Fault β'} {k : α → Attempt α'} (h : Agrees R g (.ok b))
    (hk : ∀ a, R a b → Agrees S (k a) y) : Agrees S (g >>= k) y := by
  obtain ⟨a, ha, rfl⟩ := h
  exact hk a ha

/-- Attempts that agree with unchecked computations do so one after the other. -/
theorem Agrees.bind {k : α → Attempt α'} {k' : β → Except Fault β'} (h : Agrees R g x)
    (hk : ∀ a b, R a b → Agrees S (k a) (k' b)) : Agrees S (g >>= k) (x >>= k') := by
  cases x with
  | error fault => exact h.of_error rfl
  | ok b => exact h.of_ok fun a ha => hk a b ha

/-- An attempt goes on with its result where the unchecked computation only maps it. -/
theorem Agrees.map {k : α → Attempt α'} {f : β → β'} (h : Agrees R g x)
    (hk : ∀ a b, R a b → Agrees S (k a) (.ok (f b))) : Agrees S (g >>= k) (x.map f) := by
  cases x with
  | error fault => exact h.of_error rfl
  | ok b => exact h.of_ok fun a ha => hk a b ha

/-- What agrees in its results gives the same result or the report of the same fault. -/
theorem Agrees.run_eq {x : Except Fault α} (h : Agrees Eq g x) :
    g.run = .ok (x.mapError Fault.diagnostic) := by
  cases x with
  | error fault => exact h
  | ok a =>
    obtain ⟨_, rfl, hg⟩ := h
    exact hg

end Attempt

/-! ### The scanner -/

namespace Asserting

open Token

/-- The tokens of a line.  What stands in their way is told the number of the line, if there is one,
    and then its columns. -/
def scan (text : String) : Attempt (List Token) := do
  let cs := dropLineEnd text.toList
  let blanks := cs.takeWhile isBlank
  let (covers, rest) := readDigits (cs.dropWhile isBlank)
  let digits := dropBlanks covers
  let line := LineNumber.ofText? digits
  let number :=
    if digits = [] then [] else [⟨.lineNumber (.ofList digits), .ofList digits, line, 0⟩]
  match scanFrom line (blanks.length + covers.length) rest with
  | .ok tokens => return number ++ tokens
  | .error fault => throw (← (← fault.cause.diagnostic.giveLine line).giveColumn fault.column)

/-- **Scanning.**  No check fails, and the tokens and the reports are those of the library's
    scanner. -/
theorem scan_eq (text : String) : (scan text).run = .ok (Token.scan text) := by
  unfold scan Token.scan
  dsimp only
  generalize scanFrom _ _ _ = scanned
  cases scanned with
  | ok tokens => rfl
  | error fault => rfl

end Asserting

end LineBasic
