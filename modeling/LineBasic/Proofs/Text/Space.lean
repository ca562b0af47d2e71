import LineBasic.Text.Space
import Mathlib.Data.List.DropRight

namespace LineBasic.Text

/-!
# Trimmed texts and files

* `trimEnd_trimEnd`, `getLast?_trimEnd`, `trimEnd_eq_self` -- a trimmed text has no more space at
  its end;
* `trimEnd_append_cons`, `trim_trimEnd` -- what is trimmed is behind the last character that is no
  space;
* `trim_surrounded`, `exists_surrounded` -- a trimmed text, and the space around it;
* `trim_split_trimEnd` -- the pieces of a line are those that it was put together from, up to space
  around them;
* `words_append_cons`, `words_trim`, `words_of_none` -- the words of a text, whatever space is
  around them;
* `lines_flatMap` -- the lines of a file are those that it was written from, if none of them has a
  line feed in it or a carriage return at its end.
-/

variable {cs rest : List Char} {sep : Char → Bool}

/-! ### Trimming -/

/-- Space that was trimmed is not trimmed again. -/
theorem trimEnd_trimEnd (cs : List Char) : trimEnd (trimEnd cs) = trimEnd cs := by
  simp only [trimEnd, List.reverse_reverse, List.dropWhile_idempotent]

/-- A trimmed text does not end with space. -/
theorem getLast?_trimEnd (cs : List Char) : ∀ c ∈ (trimEnd cs).getLast?, isSpace c = false := by
  intro c hc
  rw [trimEnd, List.getLast?_reverse] at hc
  have hnot := List.head?_dropWhile_not isSpace cs.reverse
  rw [hc] at hnot
  simpa using hnot

/-- A text that does not end with space is trimmed. -/
theorem trimEnd_eq_self (h : ∀ c ∈ cs.getLast?, isSpace c = false) : trimEnd cs = cs :=
  List.rdropWhile_eq_self_iff.2 fun hne => by simpa using h _ (List.getLast?_eq_some_getLast hne)

/-- Nothing is left of a text of space. -/
theorem trimEnd_of_allSpace (h : allSpace cs) : trimEnd cs = [] := by
  have hall : ∀ c ∈ cs.reverse, isSpace c := by simpa [allSpace] using h
  rw [trimEnd, List.dropWhile_eq_nil_iff.2 hall, List.reverse_nil]

/-- Only what stands behind a character that is no space is trimmed. -/
theorem trimEnd_append_cons {c : Char} (hc : isSpace c = false) (cs rest : List Char) :
    trimEnd (cs ++ c :: rest) = cs ++ c :: trimEnd rest := by
  have hrest : (rest.reverse ++ [c]).dropWhile isSpace = rest.reverse.dropWhile isSpace ++ [c] := by
    rw [List.dropWhile_append]
    split
    next hnil => simp [hc, List.isEmpty_iff.1 hnil]
    next => rfl
  have hne : ((rest.reverse ++ [c]).dropWhile isSpace).isEmpty = false := by simp [hrest]
  have hall : (rest.reverse ++ [c] ++ cs.reverse).dropWhile isSpace =
      rest.reverse.dropWhile isSpace ++ [c] ++ cs.reverse := by
    rw [List.dropWhile_append, hne, if_neg Bool.false_ne_true, hrest]
  have hreverse : (cs ++ c :: rest).reverse = rest.reverse ++ [c] ++ cs.reverse := by simp
  rw [trimEnd, trimEnd, hreverse, hall]
  simp

/-- Trimming adds no character. -/
theorem mem_of_mem_trimEnd {c : Char} (h : c ∈ trimEnd cs) : c ∈ cs := by
  rw [trimEnd, List.mem_reverse] at h
  exact List.mem_reverse.1 ((List.dropWhile_sublist _).mem h)

/-- A text can be trimmed at its end first. -/
theorem trim_trimEnd (cs : List Char) : trim (trimEnd cs) = trim cs := by
  by_cases hspace : allSpace cs
  · have hstart : trimStart cs = [] := by
      rw [trimStart, List.dropWhile_eq_nil_iff]
      exact List.all_eq_true.1 hspace
    rw [trimEnd_of_allSpace hspace, trim, trim, hstart]
    rfl
  · -- The first character that is no space stands behind the leading space and before the trailing
    -- space.
    obtain ⟨c, hmem, hc⟩ : ∃ c ∈ cs, isSpace c = false := by simpa [allSpace] using hspace
    obtain ⟨first, hfirst⟩ := Option.isSome_iff_exists.1
      (List.find?_isSome.2 ⟨c, hmem, by simpa using hc⟩ : (cs.find? fun c => !isSpace c).isSome)
    obtain ⟨hnot, before, rest, rfl, hbefore⟩ := List.find?_eq_some_iff_append.1 hfirst
    have hnot : isSpace first = false := by simpa using hnot
    have hdrop : ∀ tail : List Char, trimStart (before ++ first :: tail) = first :: tail := by
      intro tail
      rw [trimStart, List.dropWhile_append_of_pos (by simpa using hbefore),
        List.dropWhile_cons_of_neg (by simp [hnot])]
    rw [trimEnd_append_cons hnot, trim, trim, hdrop, hdrop]
    exact (congrArg trimEnd (trimEnd_append_cons hnot [] rest).symm).trans (trimEnd_trimEnd _)

/-- A trimmed text does not begin with space. -/
theorem head?_of_trim_eq (h : trim cs = cs) : ∀ c ∈ cs.head?, isSpace c = false := by
  intro c hc
  obtain ⟨tail, htail, -⟩ := exists_eq_trimEnd_append (trimStart cs)
  have hstart : trimStart cs = cs ++ tail := by
    rwa [show trimEnd (trimStart cs) = cs from h] at htail
  have hnot := List.head?_dropWhile_not isSpace cs
  rw [show cs.dropWhile isSpace = cs ++ tail from hstart, List.head?_append,
    Option.mem_def.1 hc] at hnot
  simpa using hnot

/-- A text that does not begin with space is trimmed at its end. -/
theorem trim_eq_trimEnd (h : ∀ c ∈ cs.head?, isSpace c = false) : trim cs = trimEnd cs := by
  cases cs with
  | nil => rfl
  | cons c cs => rw [trim, trimStart, List.dropWhile_cons_of_neg (by simpa using h c rfl)]

/-- Trimming a text with space around it gives the text, if it neither begins nor ends with
    space. -/
theorem trim_surrounded {before after : List Char} (hbefore : ∀ c ∈ before, isSpace c)
    (hafter : ∀ c ∈ after, isSpace c) (hhead : ∀ c ∈ cs.head?, isSpace c = false)
    (hlast : ∀ c ∈ cs.getLast?, isSpace c = false) : trim (before ++ (cs ++ after)) = cs := by
  rcases List.eq_nil_or_concat cs with rfl | ⟨init, last, rfl⟩
  · have hall : ∀ c ∈ before ++ ([] ++ after), isSpace c :=
      List.forall_mem_append.2 ⟨hbefore, hafter⟩
    rw [trim, trimStart, List.dropWhile_eq_nil_iff.2 hall]
    rfl
  · rw [List.concat_eq_append] at *
    have hstart : trimStart (before ++ (init ++ [last] ++ after)) = init ++ [last] ++ after := by
      rw [trimStart, List.dropWhile_append_of_pos hbefore]
      cases init with
      | nil => exact List.dropWhile_cons_of_neg (by simpa using hhead)
      | cons c init => exact List.dropWhile_cons_of_neg (by simpa using hhead)
    rw [trim, hstart, List.append_assoc, List.singleton_append,
      trimEnd_append_cons (hlast last (by simp)), trimEnd_of_allSpace (List.all_eq_true.2 hafter)]

/-- A text is its trimmed text with space around it. -/
theorem exists_surrounded (cs : List Char) : ∃ before after, cs = before ++ (trim cs ++ after) ∧
    (∀ c ∈ before, isSpace c) ∧ (∀ c ∈ after, isSpace c) := by
  obtain ⟨after, hafter, hspace⟩ := exists_eq_trimEnd_append (trimStart cs)
  refine ⟨cs.takeWhile isSpace, after, ?_, fun c hc => List.mem_takeWhile_imp hc, hspace⟩
  calc cs = cs.takeWhile isSpace ++ trimStart cs := List.takeWhile_append_dropWhile.symm
    _ = cs.takeWhile isSpace ++ (trim cs ++ after) := by rw [trim, ← hafter]

/-- Nothing is left of a text that is trimmed if there is only space in it. -/
theorem trim_eq_nil_iff : trim cs = [] ↔ ∀ c ∈ cs, isSpace c := by
  constructor
  · intro h
    obtain ⟨before, after, hcs, hbefore, hafter⟩ := exists_surrounded cs
    rw [h, List.nil_append] at hcs
    rw [hcs]
    exact List.forall_mem_append.2 ⟨hbefore, hafter⟩
  · intro h
    rw [trim, trimStart, List.dropWhile_eq_nil_iff.2 h]
    rfl

/-! ### Pieces of a line -/

/-- A text without separators is one piece. -/
theorem split_of_none (h : ∀ c ∈ cs, sep c = false) : split sep cs = [cs] := by
  induction cs with
  | nil => rfl
  | cons c cs ih =>
    obtain ⟨hc, hcs⟩ := List.forall_mem_cons.1 h
    simp [split, hc, ih hcs]

/-- A text up to the first separator is the first piece. -/
theorem split_append {d : Char} (h : ∀ c ∈ cs, sep c = false) (hd : sep d) :
    split sep (cs ++ d :: rest) = cs :: split sep rest := by
  induction cs with
  | nil => simp [split, hd]
  | cons c cs ih =>
    obtain ⟨hc, hcs⟩ := List.forall_mem_cons.1 h
    simp [split, hc, ih hcs]

/-- The pieces of a text are those before a separator and those behind it. -/
theorem split_append_cons {d : Char} (hd : sep d) (cs rest : List Char) :
    split sep (cs ++ d :: rest) = split sep cs ++ split sep rest := by
  induction cs with
  | nil => simp [split, hd]
  | cons c cs ih =>
    by_cases hc : sep c
    · simp [split, hc, ih]
    · obtain ⟨piece, pieces, hpieces⟩ := List.exists_cons_of_ne_nil (split_ne_nil sep cs)
      simp [split, hc, ih, hpieces]

/-- Putting pieces together with a separator between them, trimming the end and splitting gives the
    pieces, up to the space around them. -/
theorem trim_split_trimEnd {d : Char} (hd : sep d) (hspace : isSpace d = false)
    {pieces : List (List Char)} (hne : pieces ≠ []) (h : ∀ p ∈ pieces, ∀ c ∈ p, sep c = false) :
    (split sep (trimEnd ([d].intercalate pieces))).map trim = pieces.map trim := by
  induction pieces with
  | nil => exact absurd rfl hne
  | cons p pieces ih =>
    obtain ⟨hp, hpieces⟩ := List.forall_mem_cons.1 h
    cases pieces with
    | nil =>
      rw [List.intercalate_singleton, split_of_none fun c hc => hp c (mem_of_mem_trimEnd hc)]
      simp [trim_trimEnd]
    | cons q pieces =>
      rw [List.intercalate_cons_cons, List.append_assoc, List.singleton_append,
        trimEnd_append_cons hspace, split_append hp hd, List.map_cons, ih (by simp) hpieces]
      rfl

/-! ### Words -/

/-- The words of a text are those before a space and those behind it. -/
theorem words_append_cons {d : Char} (hd : isSpace d) (cs rest : List Char) :
    words (cs ++ d :: rest) = words cs ++ words rest := by
  rw [words, split_append_cons hd, List.filter_append, words, words]

/-- Space in front of a text holds no words. -/
theorem words_space_append (h : ∀ c ∈ cs, isSpace c) (rest : List Char) :
    words (cs ++ rest) = words rest := by
  induction cs with
  | nil => rfl
  | cons c cs ih =>
    obtain ⟨hc, hcs⟩ := List.forall_mem_cons.1 h
    exact (words_append_cons hc [] (cs ++ rest)).trans (ih hcs)

/-- So does space behind it. -/
theorem words_append_space (cs : List Char) (h : ∀ c ∈ rest, isSpace c) :
    words (cs ++ rest) = words cs := by
  cases rest with
  | nil => rw [List.append_nil]
  | cons d rest =>
    obtain ⟨hd, hrest⟩ := List.forall_mem_cons.1 h
    have hnil : words rest = words [] := by simpa using words_space_append hrest []
    rw [words_append_cons hd, hnil]
    exact List.append_nil _

/-- Trimming does away with no words. -/
theorem words_trim (cs : List Char) : words (trim cs) = words cs := by
  obtain ⟨before, after, hcs, hbefore, hafter⟩ := exists_surrounded cs
  conv_rhs => rw [hcs, words_space_append hbefore, words_append_space _ hafter]

/-- A text without space is a word. -/
theorem words_of_none (hne : cs ≠ []) (h : ∀ c ∈ cs, isSpace c = false) : words cs = [cs] := by
  simp [words, split_of_none h, hne]

/-! ### Lines of a file -/

/-- Writing lines with line feeds after them, and splitting at line feeds, gives the lines. -/
theorem lines_flatMap {lines : List (List Char)} (hfeed : ∀ l ∈ lines, '\n' ∉ l)
    (hreturn : ∀ l ∈ lines, l.getLast? ≠ some '\r') :
    Text.lines (lines.flatMap (· ++ ['\n'])) = lines := by
  -- The last piece is empty, as the file ends with a line feed.
  have hsplit : split (· == '\n') (lines.flatMap (· ++ ['\n'])) = lines ++ [[]] := by
    clear hreturn
    induction lines with
    | nil => rfl
    | cons l lines ih =>
      obtain ⟨hl, hlines⟩ := List.forall_mem_cons.1 hfeed
      have hnone : ∀ c ∈ l, (c == '\n') = false :=
        fun c hc => beq_false_of_ne fun heq => hl (heq ▸ hc)
      rw [List.flatMap_cons, List.append_assoc, List.singleton_append,
        split_append hnone rfl, ih hlines]
      rfl
  have hdrop : lines.map dropReturn = lines := by
    have hline : ∀ l ∈ lines, dropReturn l = id l := fun l hl => if_neg (hreturn l hl)
    rw [List.map_congr_left hline, List.map_id]
  simp [Text.lines, hsplit, hdrop]

end LineBasic.Text
