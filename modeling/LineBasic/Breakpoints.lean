import LineBasic.Listing

namespace LineBasic

/-!
# Breakpoints

Where a run is to stop: any number of persistent breakpoints, set by the user, and at most one for
one stop only, set by the execution of a single step.
-/

/-- Why a run stops at a line. -/
inductive Hit where
  | persistent | oneShot
  deriving DecidableEq, Repr

/-- The breakpoints of a program. -/
structure Breakpoints where
  /-- The numbers of the lines with a persistent breakpoint. -/
  lines : List Nat := []
  /-- Each number is smaller than those after it. -/
  ascending : lines.Pairwise (· < ·) := by decide
  /-- The number of the line to stop at once. -/
  oneShot : Option Nat := none
  deriving DecidableEq

namespace Breakpoints

/-- No breakpoints. -/
def empty : Breakpoints := {}

instance : Inhabited Breakpoints := ⟨empty⟩

/-- Whether no persistent breakpoint is set. -/
def isEmpty (b : Breakpoints) : Bool := b.lines.isEmpty

/-- Puts a number among the persistent breakpoints. -/
def add (b : Breakpoints) (n : Nat) : Breakpoints where
  lines := b.lines.filter (· < n) ++ n :: b.lines.filter (n < ·)
  ascending := by
    refine List.pairwise_append.2 ⟨b.ascending.filter _, ?_, ?_⟩
    · exact List.pairwise_cons.2 ⟨by simp [List.mem_filter], b.ascending.filter _⟩
    · intro i hi j hj
      have hi : i < n := by simpa using (List.mem_filter.1 hi).2
      rcases List.mem_cons.1 hj with rfl | hj
      · exact hi
      · exact Nat.lt_trans hi (by simpa using (List.mem_filter.1 hj).2)
  oneShot := b.oneShot

/-- Takes a number from the persistent breakpoints. -/
def drop (b : Breakpoints) (n : Nat) : Breakpoints :=
  ⟨b.lines.filter (· ≠ n), b.ascending.filter _, b.oneShot⟩

/-- Sets a breakpoint on a stored line that has none. -/
def set (b : Breakpoints) (n : Nat) (p : Listing) : Except Cause Breakpoints :=
  if !p.contains n then .error (.noSuchLine n)
  else if n ∈ b.lines then .error (.breakpointExists n)
  else .ok (b.add n)

/-- Removes a breakpoint. -/
def clear (b : Breakpoints) (n : Nat) : Except Cause Breakpoints :=
  if n ∈ b.lines then .ok (b.drop n) else .error (.noBreakpoint n)

/-- Removes all breakpoints, that of a single step included. -/
def clearAll (_ : Breakpoints) : Breakpoints := empty

/-- Asks for a stop at the next arrival at a line. -/
def arm (b : Breakpoints) (n : Nat) : Breakpoints := { b with oneShot := some n }

/-- Withdraws what a single step asked for. -/
def disarm (b : Breakpoints) : Breakpoints := { b with oneShot := none }

/-- Removes whatever breakpoint a deleted line had. -/
def forget (b : Breakpoints) (n : Nat) : Breakpoints :=
  if b.oneShot = some n then (b.drop n).disarm else b.drop n

/-- Whether a run stops at a line it has come to, and the breakpoints afterwards. Any stop uses up
the breakpoint of a single step; a persistent one on the same line takes precedence. -/
def hit (b : Breakpoints) (n : Nat) : Option Hit × Breakpoints :=
  if n ∈ b.lines then (some .persistent, b.disarm)
  else if b.oneShot = some n then (some .oneShot, b.disarm)
  else (none, b)

@[simp] theorem mem_add {b : Breakpoints} {m n : Nat} :
    m ∈ (b.add n).lines ↔ m = n ∨ m ∈ b.lines := by
  simp only [add, List.mem_append, List.mem_cons, List.mem_filter, decide_eq_true_eq]
  grind

@[simp] theorem mem_drop {b : Breakpoints} {m n : Nat} :
    m ∈ (b.drop n).lines ↔ m ∈ b.lines ∧ m ≠ n := by
  simp [drop]

end Breakpoints

end LineBasic
