import LineBasic.Diagnostic.Basic

namespace LineBasic

/-!
# Variables

The values of the 26 variables. A variable has no value until one is stored in it.
-/

/-- The values of the variables. -/
structure Variables where
  /-- The value of each variable, in alphabetical order. -/
  values : Vector (Option Int16) 26 := Vector.replicate 26 none
  deriving DecidableEq

namespace Variables

/-- Variables without values. -/
def empty : Variables := {}

instance : Inhabited Variables := ⟨empty⟩

/-- The value of a variable. -/
def get? (v : Variables) (x : Letter) : Option Int16 := v.values[x.index]

/-- Gives a variable a value. -/
def set (v : Variables) (x : Letter) (n : Int16) : Variables :=
  ⟨v.values.set x.index (some n)⟩

/-- The variables that have values, in alphabetical order, with their values. -/
def defined (v : Variables) : List (Letter × Int16) :=
  Letter.all.filterMap fun x => (v.get? x).map (x, ·)

/-- Storing changes the value of one variable. -/
theorem get?_set (v : Variables) (x y : Letter) (n : Int16) :
    (v.set x n).get? y = if x = y then some n else v.get? y := by
  obtain ⟨i⟩ := x
  obtain ⟨j⟩ := y
  simp [get?, set, Vector.getElem_set, Fin.ext_iff]

/-! ### The table of variables -/

/-- How wide a value is in the table. -/
def valueWidth : Nat := 10

/-- How many variables stand in a row of the table. -/
def rowLength : Nat := 6

/-- One place of the table: the name, and the value filled up with spaces. -/
def cell (x : Letter) (n : Int16) : String :=
  let text := Text.ofInt n.toInt
  x.name ++ "=" ++ text ++ String.ofList (List.replicate (valueWidth - text.length) ' ')

/-- The table of the variables that have values. Every row ends in a newline, also a short one. -/
def table (v : Variables) : String :=
  let cells := v.defined.zipIdx.map fun ((x, n), i) =>
    cell x n ++ (if (i + 1) % rowLength = 0 ∨ i + 1 = v.defined.length then "\n" else "")
  String.join cells

end Variables

end LineBasic
