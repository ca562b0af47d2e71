namespace LineBasic

/-!
# Columns

A span is a stretch of columns of one line, counted in characters from 0; `stop` is the first column
after it.
-/

/-- The columns from `start` up to, but not including, `stop`. -/
structure Span where
  /-- The first column. -/
  start : Nat
  /-- The first column after the span. -/
  stop : Nat
  deriving DecidableEq, Repr

namespace Span

/-- The span of something that has no place on its line. -/
def unplaced : Span := ⟨0, 0⟩

/-- The span of `width` characters from a column on. Even an empty text takes up one column, so that
it can be pointed at. -/
def covering (column width : Nat) : Span := ⟨column, column + max width 1⟩

end Span

instance : Inhabited Span := ⟨.unplaced⟩

end LineBasic
