import LineBasic.Diagnostic.Basic
import LineBasic.LineNumber

namespace LineBasic

/-!
# Call stacks

The numbers of the lines that the open subroutines return to. There is room for as many of them as
there are line numbers.
-/

/-- A call stack. -/
structure CallStack where
  /-- The return lines, the most recent one first. -/
  frames : List Nat := []
  /-- How many there are. -/
  depth : Nat := frames.length
  depth_eq : depth = frames.length := by rfl
  deriving DecidableEq

namespace CallStack

/-- The stack of a program that is in no subroutine. -/
def empty : CallStack := {}

instance : Inhabited CallStack := ⟨empty⟩

/-- How many frames there is room for. -/
def limit : Nat := LineNumber.last

/-- Whether no subroutine is open. -/
def isEmpty (c : CallStack) : Bool := c.frames.isEmpty

/-- Opens a subroutine, if there is room. -/
def push (c : CallStack) (n : Nat) : Except Cause CallStack :=
  if limit ≤ c.depth then .error .stackOverflow
  else .ok ⟨n :: c.frames, c.depth + 1, by rw [c.depth_eq, List.length_cons]⟩

/-- Closes the most recent subroutine. -/
def pop (c : CallStack) : Except Cause (Nat × CallStack) :=
  match c.frames with
  | [] => .error .returnWithoutGosub
  | n :: frames => .ok (n, { frames })

/-- The return lines, the oldest one first, between brackets. -/
def debugText (c : CallStack) : String :=
  "[" ++ ", ".intercalate (c.frames.reverse.map Text.ofNat) ++ "]"

/-- A call stack is settled by its frames. -/
@[ext] theorem ext {c d : CallStack} (h : c.frames = d.frames) : c = d := by
  obtain ⟨frames, depth, hd⟩ := c
  obtain ⟨frames', depth', hd'⟩ := d
  cases h
  cases hd
  cases hd'
  rfl

end CallStack

end LineBasic
