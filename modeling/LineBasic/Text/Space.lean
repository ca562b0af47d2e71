namespace LineBasic.Text

/-!
# Blank space in typed text

Which characters count as space, and the four ways a text is cut at them:

* `trimStart`, `trimEnd`, `trim` -- the text without its outer space;
* `split sep` -- the pieces between the separators, empty ones included;
* `words` -- the pieces between stretches of space, none of them empty;
* `lines` -- the lines of a file, without their line ends.

Everything works on `List Char`, so that a cut is a `takeWhile` or a structural recursion.
-/

/-- The characters with the Unicode property `White_Space`. -/
def isSpace (c : Char) : Bool :=
  let n := c.toNat
  (0x09 ≤ n && n ≤ 0x0D) || n == 0x20 || n == 0x85 || n == 0xA0 || n == 0x1680
    || (0x2000 ≤ n && n ≤ 0x200A) || n == 0x2028 || n == 0x2029 || n == 0x202F || n == 0x205F
    || n == 0x3000

/-! ### Trimming -/

/-- The text without its leading space. -/
def trimStart (cs : List Char) : List Char := cs.dropWhile isSpace

/-- The text without its trailing space. -/
def trimEnd (cs : List Char) : List Char := (cs.reverse.dropWhile isSpace).reverse

/-- The text without its leading and trailing space. -/
def trim (cs : List Char) : List Char := trimEnd (trimStart cs)

/-- Whether the text is nothing but space. -/
def allSpace (cs : List Char) : Bool := cs.all isSpace

/-- A text is the trimmed text followed by space. -/
theorem exists_eq_trimEnd_append (cs : List Char) :
    ∃ tail, cs = trimEnd cs ++ tail ∧ ∀ c ∈ tail, isSpace c := by
  refine ⟨(cs.reverse.takeWhile isSpace).reverse, ?_, ?_⟩
  · simp only [trimEnd, ← List.reverse_append, List.takeWhile_append_dropWhile,
      List.reverse_reverse]
  · intro c hc
    exact List.all_eq_true.1 List.all_takeWhile c (List.mem_reverse.1 hc)

/-! ### Splitting -/

/-- The pieces of a text between the characters that satisfy `sep`: always one piece more than there
are separators. -/
def split (sep : Char → Bool) : List Char → List (List Char)
  | [] => [[]]
  | c :: cs => if sep c then [] :: split sep cs else (split sep cs).modifyHead (c :: ·)

/-- A text that is split has a part. -/
theorem split_ne_nil (sep : Char → Bool) (cs : List Char) : split sep cs ≠ [] := by
  induction cs with
  | nil => simp [split]
  | cons c cs ih => by_cases h : sep c <;> simp [split, h, List.modifyHead_eq_nil_iff, ih]

/-- The words of a text: its longest stretches without space. -/
def words (cs : List Char) : List (List Char) := (split isSpace cs).filter (· ≠ [])

/-- The text of a file line: a carriage return that stood before the line feed is no part of it. -/
def dropReturn (cs : List Char) : List Char := if cs.getLast? = some '\r' then cs.dropLast else cs

/-- The lines of a file. A line feed ends a line, and what follows the last one is a line only if it
holds something. -/
def lines (cs : List Char) : List (List Char) :=
  let pieces := split (· == '\n') cs
  pieces.dropLast.map dropReturn ++ (pieces.getLast?.toList.filter (· ≠ []))

end LineBasic.Text
