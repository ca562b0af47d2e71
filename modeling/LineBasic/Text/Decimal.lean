namespace LineBasic.Text

/-!
# Decimal numbers

Reading and writing whole numbers in decimal.

* `value` -- what a row of digits denotes, of any length and with any leading zeros;
* `number?` -- the number a whole text spells, a plus sign allowed in front;
* `ofNat`, `ofInt`, `padded` -- the texts of numbers, the last with leading zeros to a width.
-/

/-- What one decimal digit denotes. -/
def digit (c : Char) : Nat := c.toNat - '0'.toNat

/-- What a row of decimal digits denotes. -/
def value (cs : List Char) : Nat := cs.foldl (fun n c => 10 * n + digit c) 0

/-- The number that a text of digits spells, with or without a plus sign before them. -/
def number? (cs : List Char) : Option Nat :=
  let digits := if cs.head? = some '+' then cs.tail else cs
  if digits ≠ [] && digits.all Char.isDigit then some (value digits) else none

/-- The decimal text of a natural number. -/
def ofNat (n : Nat) : String := String.ofList (Nat.toDigits 10 n)

/-- The decimal text of an integer: a minus sign before the digits of a negative one. -/
def ofInt : Int → String
  | .ofNat n => ofNat n
  | .negSucc n => "-" ++ ofNat (n + 1)

/-- The decimal text of a number, with leading zeros up to a width. -/
def padded (width n : Nat) : String :=
  let digits := Nat.toDigits 10 n
  String.ofList (List.replicate (width - digits.length) '0' ++ digits)

end LineBasic.Text
