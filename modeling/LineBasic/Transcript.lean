import LineBasic.Diagnostic.Basic

namespace LineBasic

/-!
# Transcripts

What the interpreter writes, in order. There are three streams in one transcript: the output of
programs and of the debugger, notices (warnings and findings of the linter), and traces.
-/

/-- Something written. -/
inductive Emission where
  /-- Output of a statement or of the debugger. -/
  | output (text : String)
  /-- A report that stops nothing. -/
  | notice (d : Diagnostic)
  /-- A trace of what is about to be done. -/
  | trace (text : String)
  /-- A program line has been executed, and the time it took is to be shown. -/
  | timing (line : Nat)
  deriving DecidableEq, Repr

/-- Everything written so far. -/
structure Transcript where
  /-- What has been written, the last first. -/
  newestFirst : List Emission := []
  deriving DecidableEq, Repr

namespace Transcript

/-- Nothing written yet. -/
def empty : Transcript := {}

instance : Inhabited Transcript := ⟨empty⟩

/-- Writes something after all that has been written. -/
def emit (t : Transcript) (e : Emission) : Transcript := ⟨e :: t.newestFirst⟩

/-- What has been written, in order. -/
def emissions (t : Transcript) : List Emission := t.newestFirst.reverse

@[simp] theorem emissions_empty : empty.emissions = [] := rfl

@[simp] theorem emissions_emit (t : Transcript) (e : Emission) :
    (t.emit e).emissions = t.emissions ++ [e] := by
  simp [emissions, emit]

end Transcript

end LineBasic
