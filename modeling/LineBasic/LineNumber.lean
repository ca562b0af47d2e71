import LineBasic.Text.Decimal

namespace LineBasic.LineNumber

/-!
# Line numbers

A program line is numbered from 1 to 32767, the largest value of the language.
-/

/-- The largest line number. -/
def last : Nat := 32767

/-- The line number that a text spells, if it spells one. -/
def ofText? (cs : List Char) : Option Nat :=
  (Text.number? cs).filter fun n => 1 ≤ n && n ≤ last

end LineBasic.LineNumber
