import LineBasic.Command
import LineBasic.Proofs.Expr.Written
import LineBasic.Proofs.Text.Space
import LineBasic.Proofs.Token.Row

namespace LineBasic

/-!
# The spelling of commands

A command can be written in many ways: with its long or its short word, in any letter case, and with
any space around it and between its parts.  Each of them is read as this command.

* `Spells` -- a word in any letter case;
* `Command.names`, `Command.arguments` -- the words of a command, and what is to be written behind
  them;
* `Gapped`, `Command.Written` -- the texts that a command is written as;
* `Command.ofText_of_written` -- a written command is read as itself;
* `Command.Read`, `Command.read_of_ofText` -- what a text that is read as a command looks like;
* `Command.commands_round_trip` -- the main result.
-/

open Text (isSpace trim trimStart trimEnd words)

/-! ### Letter case -/

/-- Whether a text spells a word, each letter of which may be in lower or in upper case. -/
def Spells (word : String) (cs : List Char) : Prop :=
  List.Forall₂ (fun w c => c = w ∨ c = w.toUpper) word.toList cs

/-- Whether a word is one in lower case, without space in it. -/
def isWord (word : String) : Bool :=
  word ≠ "" && word.toList.all fun w => w.toLower = w && !isSpace w

/-- The word that a switch is named with. -/
def Switch.word : Switch → String
  | .logging => "log"
  | .timing => "time"
  | .runOnLoad => "run_on_load"

/-- Whether a text spells the way to turn a switch, in full or by its first letter. -/
def SpellsSetting : Bool → List Char → Prop
  | true, cs => Spells "true" cs ∨ Spells "t" cs
  | false, cs => Spells "false" cs ∨ Spells "f" cs

variable {word : String} {cs arg args gap : List Char} {p : List Char → Prop}
  {ps : List (List Char → Prop)}

/-- Lower case undoes whatever letter case a word is written in. -/
theorem map_toLower_eq {ws : List Char} (h : List.Forall₂ (fun w c => c = w ∨ c = w.toUpper) ws cs)
    (hws : ∀ w ∈ ws, w.toLower = w) : cs.map Char.toLower = ws := by
  induction h with
  | nil => rfl
  | @cons w c ws cs hc _ ih =>
    obtain ⟨hw, hws⟩ := List.forall_mem_cons.1 hws
    rw [List.map_cons, ih hws]
    rcases hc with rfl | rfl
    · rw [hw]
    · rw [Char.toLower_toUpper_eq_toLower, hw]

/-- Letter case makes no difference to what is space. -/
theorem isSpace_toLower (c : Char) : isSpace c.toLower = isSpace c := by
  by_cases hc : c.isUpper
  · have halpha : c.isAlpha := by simp [Char.isAlpha, hc]
    have hlower : c.toLower.isAlpha := by simpa using halpha
    rw [isSpace_of_isAlphanum (by rw [Char.isAlphanum, hlower]; rfl),
      isSpace_of_isAlphanum (by rw [Char.isAlphanum, halpha]; rfl)]
  · rw [Char.toLower_eq_of_not_isUpper hc]

namespace Spells

/-- A word in lower case is what its spellings come to in lower case. -/
theorem lower_eq (h : Spells word cs) (hword : isWord word) : Command.lower cs = word := by
  simp only [isWord, Bool.and_eq_true, List.all_eq_true, decide_eq_true_eq] at hword
  rw [Command.lower, map_toLower_eq h fun w hw => (hword.2 w hw).1, String.ofList_toList]

/-- There is no space in a spelling of a word. -/
theorem isSpace_eq_false (h : Spells word cs) (hword : isWord word) :
    ∀ c ∈ cs, isSpace c = false := by
  intro c hc
  have hlower : c.toLower ∈ word.toList := by
    rw [← h.lower_eq hword, Command.lower, String.toList_ofList]
    exact List.mem_map_of_mem hc
  simp only [isWord, Bool.and_eq_true, List.all_eq_true, decide_eq_true_eq] at hword
  rw [← isSpace_toLower]
  simpa using (hword.2 _ hlower).2

end Spells

/-- Every text spells the word that it comes to in lower case. -/
theorem spells_lower (cs : List Char) : Spells (Command.lower cs) cs := by
  rw [Spells, Command.lower, String.toList_ofList, List.forall₂_map_left_iff]
  refine List.forall₂_same.2 fun c _ => ?_
  by_cases hc : c.isUpper
  · have hlower : ¬ c.isLower := by
      simp only [Char.isUpper, Char.isLower, Bool.and_eq_true, decide_eq_true_eq,
        UInt32.le_iff_toNat_le, ge_iff_le, Char.toNat_val, Char.reduceToNat] at hc ⊢
      omega
    rw [Char.toUpper_toLower_eq_toUpper, Char.toUpper_eq_of_not_isLower hlower]
    exact .inr rfl
  · exact .inl (Char.toLower_eq_of_not_isUpper hc).symm

namespace Spells

/-- However a word is written, there is something written. -/
theorem ne_nil (h : Spells word cs) (hword : isWord word) : cs ≠ [] := by
  rintro rfl
  rw [isWord, ← h.lower_eq hword] at hword
  exact absurd hword (by decide)

end Spells

/-! ### The parts of a command -/

/-- The decimal text of a number, with any leading zeros. -/
def Denotes (n : Nat) (cs : List Char) : Prop :=
  ∃ zeros, cs = List.replicate zeros '0' ++ (toString n).toList

namespace Command

/-- The words that a command is named with, the long one before the short one. -/
def names : Command → List String
  | help => ["help"]
  | shortHelp => ["?"]
  | quit => ["quit", "q"]
  | load _ => ["loadfile", "lf"]
  | save _ => ["savefile", "sf"]
  | option .. => ["opt"]
  | listBreakpoints | setBreakpoint _ => ["break", "bp"]
  | clearBreakpoint _ | clearBreakpoints => ["delete", "d"]
  | resume => ["continue", "c"]
  | step => ["step", "s"]
  | showVars => ["vars", "v"]
  | backtrace => ["backtrace", "bt"]
  | exit => ["exit", "e"]
  | lint _ => ["lint"]

/-- What is to be written behind the word of a command. -/
def arguments : Command → List (List Char → Prop)
  | load file | save file => [(· = '"' :: (file.toList ++ ['"']))]
  | option switch none => [Spells switch.word]
  | option switch (some on) => [Spells switch.word, SpellsSetting on]
  | setBreakpoint n | clearBreakpoint n => [Denotes n]
  | clearBreakpoints => [(· = ['*'])]
  | lint true => [Spells "strict"]
  | _ => []

/-- Whether there is such a command: a file has a name, and a line a number. -/
def Valid : Command → Prop
  | load file | save file => ∃ c ∈ file.toList, isSpace c = false
  | setBreakpoint n | clearBreakpoint n => 1 ≤ n ∧ n ≤ 32767
  | _ => True

end Command

/-- Texts with some properties one after the other, with space in front of each of them. -/
inductive Gapped : List (List Char → Prop) → List Char → Prop
  | nil : Gapped [] []
  | cons {p : List Char → Prop} {ps : List (List Char → Prop)} {gap arg args : List Char}
      (hne : gap ≠ []) (hgap : ∀ c ∈ gap, isSpace c) (harg : p arg) (h : Gapped ps args) :
      Gapped (p :: ps) (gap ++ (arg ++ args))

/-- Whether a command can be written as a text: a percent sign, a word of the command and what
    belongs behind it, with any space around them. -/
def Command.Written (c : Command) (text : String) : Prop :=
  ∃ before word spelled args after, text.toList = before ++ ('%' :: (spelled ++ args) ++ after) ∧
    (∀ x ∈ before, isSpace x) ∧ (∀ x ∈ after, isSpace x) ∧ word ∈ c.names ∧ Spells word spelled ∧
    Gapped c.arguments args

/-! ### Texts without space at their ends -/

/-- A text that neither begins nor ends with space, and holds something. -/
structure Solid (cs : List Char) : Prop where
  /-- It holds something. -/
  ne_nil : cs ≠ []
  /-- It does not begin with space. -/
  head : ∀ c ∈ cs.head?, isSpace c = false
  /-- It does not end with space. -/
  last : ∀ c ∈ cs.getLast?, isSpace c = false

/-- A text without space is solid. -/
theorem Solid.of_none (hne : cs ≠ []) (h : ∀ c ∈ cs, isSpace c = false) : Solid cs :=
  ⟨hne, fun c hc => h c (List.mem_of_mem_head? hc), fun c hc => h c (List.mem_of_getLast? hc)⟩

/-- What is put behind a solid text leaves it solid if there is no space at its end. -/
theorem Solid.append (h : Solid cs) (hlast : ∀ c ∈ args.getLast?, isSpace c = false) :
    Solid (cs ++ args) := by
  refine ⟨by simp [h.ne_nil], ?_, ?_⟩
  · intro c hc
    rw [List.head?_append_of_ne_nil _ h.ne_nil] at hc
    exact h.head c hc
  · intro c hc
    rw [List.getLast?_append] at hc
    rcases Option.or_eq_some_iff.1 hc with hc | ⟨-, hc⟩
    · exact hlast c hc
    · exact h.last c hc

/-- The name of a file in its double quotes is solid, whatever the name is. -/
theorem solid_quoted (file : String) : Solid ('"' :: (file.toList ++ ['"'])) := by
  refine ⟨List.cons_ne_nil _ _, by simp; decide, fun c hc => ?_⟩
  rw [← List.cons_append, List.getLast?_concat, Option.mem_some_iff] at hc
  exact hc ▸ by decide

namespace Denotes

variable {n : Nat}

/-- A number is written with digits only. -/
theorem isDigit (h : Denotes n cs) : ∀ c ∈ cs, c.isDigit := by
  obtain ⟨zeros, rfl⟩ := h
  refine List.forall_mem_append.2 ⟨fun c hc => ?_, Text.isDigit_of_mem_ofNat (n := n)⟩
  rw [List.eq_of_mem_replicate hc]
  rfl

/-- There is no space in a number. -/
theorem isSpace_eq_false (h : Denotes n cs) : ∀ c ∈ cs, isSpace c = false := fun c hc =>
  isSpace_of_isAlphanum (by rw [Char.isAlphanum, h.isDigit c hc, Bool.or_true])

/-- However a number is written, there is at least one digit. -/
theorem ne_nil (h : Denotes n cs) : cs ≠ [] := by
  obtain ⟨zeros, rfl⟩ := h
  exact List.append_ne_nil_of_right_ne_nil _ (Text.ofNat_ne_nil n)

/-- Zeros in front of a number leave its value as it is. -/
theorem value_eq (h : Denotes n cs) : Text.value cs = n := by
  obtain ⟨zeros, rfl⟩ := h
  induction zeros with
  | zero => exact Text.value_ofNat n
  | succ zeros ih => exact ih

end Denotes

/-! ### Gapped texts -/

/-- A list that goes along with a single element is a single element. -/
theorem forall₂_singleton_left {α β : Type} {R : α → β → Prop} {a : α} {bs : List β} :
    List.Forall₂ R [a] bs ↔ ∃ b, R a b ∧ bs = [b] := by
  rw [List.forall₂_cons_left_iff]
  simp

namespace Gapped

/-- If nothing is written behind a word, nothing was to be written there. -/
theorem eq_nil (h : Gapped ps args) (hargs : args = []) : ps = [] := by
  cases h with
  | nil => rfl
  | cons hne => exact absurd (List.append_eq_nil_iff.1 hargs).1 hne

/-- Behind the word of a command there is space, or nothing. -/
theorem isSpace_head (h : Gapped ps args) : ∀ c ∈ args.head?, isSpace c := by
  cases h with
  | nil => simp
  | @cons _ _ gap arg args hne hgap =>
    intro c hc
    rw [List.head?_append_of_ne_nil _ hne] at hc
    exact hgap c (List.mem_of_mem_head? hc)

/-- What is written behind a word does not end with space. -/
theorem isSpace_last (hps : ∀ p ∈ ps, ∀ cs, p cs → Solid cs) (h : Gapped ps args) :
    ∀ c ∈ args.getLast?, isSpace c = false := by
  induction h with
  | nil => simp
  | @cons p ps gap arg args _ _ harg _ ih =>
    obtain ⟨hp, hps⟩ := List.forall_mem_cons.1 hps
    have hsolid : Solid (arg ++ args) := (hp arg harg).append (ih hps)
    intro c hc
    rw [List.getLast?_append_of_ne_nil _ hsolid.ne_nil] at hc
    exact hsolid.last c hc

/-- A single part is what remains when the space around it is trimmed. -/
theorem trim_eq (hp : ∀ cs, p cs → Solid cs) (h : Gapped [p] args) : p (trim args) := by
  cases h with
  | @cons _ _ gap arg args _ hgap harg h =>
    cases h
    have htrim : trim (gap ++ (arg ++ [])) = arg :=
      Text.trim_surrounded hgap nofun (hp arg harg).head (hp arg harg).last
    rwa [htrim]

/-- Parts without space in them are the words. -/
theorem words_eq (hps : ∀ p ∈ ps, ∀ cs, p cs → cs ≠ [] ∧ ∀ c ∈ cs, isSpace c = false)
    (h : Gapped ps args) :
    List.Forall₂ (fun p cs => p cs) ps (words args) := by
  induction h with
  | nil => exact .nil
  | @cons p ps gap arg args _ hgap harg h ih =>
    obtain ⟨hp, hps⟩ := List.forall_mem_cons.1 hps
    obtain ⟨hne, hnone⟩ := hp arg harg
    rw [Text.words_space_append hgap]
    cases args with
    | nil =>
      rw [h.eq_nil rfl, List.append_nil, Text.words_of_none hne hnone]
      exact .cons harg .nil
    | cons d args =>
      have hd : isSpace d := h.isSpace_head d rfl
      have hwords : words (d :: args) = words args := Text.words_append_cons hd [] args
      rw [Text.words_append_cons hd, Text.words_of_none hne hnone, ← hwords]
      exact .cons harg (ih hps)

end Gapped

namespace Command

variable {c : Command} {text : String} {n : Nat} {file : String}

/-! ### Reading what is written -/

/-- The names of commands are words. -/
theorem isWord_of_mem_names (h : word ∈ c.names) : isWord word := by
  have hall : ∀ word ∈ c.names, isWord word := by cases c <;> simp only [names] <;> decide
  exact hall word h

/-- Whether a command is about a file. -/
def namesFile : Command → Bool
  | load _ | save _ => true
  | _ => false

/-- What belongs behind a word has no space in it, but for the name of a file. -/
theorem unspaced_of_arguments (hc : c.namesFile = false) :
    ∀ p ∈ c.arguments, ∀ cs, p cs → cs ≠ [] ∧ ∀ x ∈ cs, isSpace x = false := by
  have hspells : ∀ {word cs}, isWord word → Spells word cs → cs ≠ [] ∧
      ∀ x ∈ cs, isSpace x = false :=
    fun hword h => ⟨h.ne_nil hword, h.isSpace_eq_false hword⟩
  have hnumber : ∀ n cs, Denotes n cs → cs ≠ [] ∧ ∀ x ∈ cs, isSpace x = false :=
    fun n cs h => ⟨h.ne_nil, h.isSpace_eq_false⟩
  have hswitch : ∀ (switch : Switch) cs, Spells switch.word cs → cs ≠ [] ∧
      ∀ x ∈ cs, isSpace x = false :=
    fun switch cs h => hspells (by cases switch <;> decide) h
  cases c with
  | load | save => cases hc
  | option switch value =>
    cases value with
    | none => exact List.forall_mem_singleton.2 (hswitch switch)
    | some on =>
      refine List.forall_mem_cons.2 ⟨hswitch switch, List.forall_mem_singleton.2 fun cs h => ?_⟩
      cases on with
      | false | true => exact h.elim (hspells (by decide)) (hspells (by decide))
  | setBreakpoint n | clearBreakpoint n => exact List.forall_mem_singleton.2 (hnumber n)
  | clearBreakpoints =>
    refine List.forall_mem_singleton.2 ?_
    rintro _ rfl
    exact ⟨List.cons_ne_nil _ _, List.forall_mem_singleton.2 (by decide)⟩
  | lint strict =>
    cases strict with
    | false => exact List.forall_mem_nil _
    | true => exact List.forall_mem_singleton.2 fun cs => hspells (by decide)
  | help | shortHelp | quit | listBreakpoints | resume | step | showVars | backtrace | exit =>
    exact List.forall_mem_nil _

/-- Whatever belongs behind the word of a command is solid. -/
theorem solid_of_arguments : ∀ p ∈ c.arguments, ∀ cs, p cs → Solid cs := by
  cases hc : c.namesFile with
  | false =>
    intro p hp cs h
    obtain ⟨hne, hnone⟩ := unspaced_of_arguments hc p hp cs h
    exact .of_none hne hnone
  | true =>
    cases c with
    | load file | save file =>
      refine List.forall_mem_singleton.2 ?_
      rintro _ rfl
      exact solid_quoted file
    | _ => cases hc

/-- The file name between double quotes is the name of the file. -/
theorem fileName_quoted (h : ∃ x ∈ file.toList, isSpace x = false) :
    fileName ('"' :: (file.toList ++ ['"'])) = .ok file := by
  obtain ⟨x, hmem, hx⟩ := h
  have htrim : trim file.toList ≠ [] := fun hnil => by
    rw [Text.trim_eq_nil_iff.1 hnil x hmem] at hx
    cases hx
  rw [fileName, List.getLast?_concat, List.dropLast_concat, String.ofList_toList]
  simp [htrim]

/-- The number of a line is read as itself, with any zeros in front. -/
theorem lineNumber_of_denotes (h : Denotes n cs) (hlow : 1 ≤ n) (hhigh : n ≤ 32767) :
    lineNumber cs = .ok n := by
  have hrange : 1 ≤ Text.value cs ∧ Text.value cs ≤ LineNumber.last := by
    rw [h.value_eq]
    exact ⟨hlow, hhigh⟩
  rw [lineNumber, LineNumber.ofText?_digits h.ne_nil h.isDigit, if_pos hrange, h.value_eq]

/-- The word for a switch is read as that switch, in any letter case. -/
theorem switch_of_spells {s : Switch} (h : Spells s.word cs) : switch (lower cs) = .ok s := by
  cases s with
  | logging | timing | runOnLoad =>
    rw [h.lower_eq (by decide)]
    rfl

/-- The way to turn a switch can be spelled out or not. -/
theorem setting_of_spells {on : Bool} (h : SpellsSetting on cs) : setting (lower cs) = .ok on := by
  cases on with
  | false | true =>
    rcases h with h | h
    · rw [h.lower_eq (by decide)]
      rfl
    · rw [h.lower_eq (by decide)]
      rfl

/-- The text of a command without the space around it and without its percent sign. -/
def body (text : String) : List Char :=
  if (trim text.toList).head? = some '%' then (trim text.toList).tail else trim text.toList

/-- A written command has one of its words in front, and what belongs behind it. -/
theorem parts_of_written (h : c.Written text) :
    lower ((body text).takeWhile (!isSpace ·)) ∈ c.names ∧
      Gapped c.arguments ((body text).dropWhile (!isSpace ·)) := by
  obtain ⟨before, word, spelled, args, after, htext, hbefore, hafter, hname, hspelled, hgapped⟩ := h
  have hword : isWord word := isWord_of_mem_names hname
  have hnone : ∀ x ∈ spelled, isSpace x = false := hspelled.isSpace_eq_false hword
  have hsolid : Solid ('%' :: (spelled ++ args)) := by
    have hfront : Solid ('%' :: spelled) :=
      .of_none (List.cons_ne_nil _ _) (List.forall_mem_cons.2 ⟨by decide, hnone⟩)
    exact hfront.append (hgapped.isSpace_last solid_of_arguments)
  have hbody : body text = spelled ++ args := by
    have htrim : trim text.toList = '%' :: (spelled ++ args) := by
      rw [htext]
      exact Text.trim_surrounded hbefore hafter hsolid.head hsolid.last
    rw [body, htrim]
    rfl
  have hstop : args.takeWhile (!isSpace ·) = [] ∧ args.dropWhile (!isSpace ·) = args := by
    cases args with
    | nil => exact ⟨rfl, rfl⟩
    | cons d args => simp [hgapped.isSpace_head d rfl]
  rw [hbody, List.takeWhile_append_of_pos (by simpa using hnone),
    List.dropWhile_append_of_pos (by simpa using hnone),
    hstop.1, hstop.2, List.append_nil, hspelled.lower_eq hword]
  exact ⟨hname, hgapped⟩

/-- **Written commands.**  A command that is written in any of the possible ways is read as
    itself. -/
theorem ofText_of_written (hvalid : c.Valid) (h : c.Written text) : ofText text = .ok c := by
  obtain ⟨hname, hgapped⟩ := parts_of_written h
  unfold body at hname hgapped
  unfold ofText
  dsimp only
  generalize lower _ = name at hname ⊢
  generalize List.dropWhile _ _ = args at hgapped ⊢
  have hwords : c.namesFile = false →
      List.Forall₂ (fun p cs => p cs) c.arguments (words (trim args)) := fun hc => by
    rw [Text.words_trim]
    exact hgapped.words_eq (unspaced_of_arguments hc)
  generalize words (trim args) = parts at hwords
  cases c with
  | help | shortHelp =>
    obtain rfl := List.mem_singleton.1 hname
    rfl
  | quit | resume | step | showVars | backtrace | exit =>
    rcases List.mem_pair.1 hname with rfl | rfl <;> rfl
  | load file | save file =>
    have hrest : trim args = '"' :: (file.toList ++ ['"']) :=
      Gapped.trim_eq (p := (· = '"' :: (file.toList ++ ['"'])))
        (fun _ h => h.symm ▸ solid_quoted file) hgapped
    rw [hrest, fileName_quoted hvalid]
    rcases List.mem_pair.1 hname with rfl | rfl <;> rfl
  | option s value =>
    obtain rfl := List.mem_singleton.1 hname
    cases value with
    | none =>
      obtain ⟨part, hs, rfl⟩ := forall₂_singleton_left.1 (hwords rfl)
      show ofOptions [part] = _
      rw [ofOptions, switch_of_spells hs]
      rfl
    | some on =>
      obtain ⟨part, others, hs, hothers, rfl⟩ := List.forall₂_cons_left_iff.1 (hwords rfl)
      obtain ⟨value, hon, rfl⟩ := forall₂_singleton_left.1 hothers
      show ofOptions [part, value] = _
      rw [ofOptions, switch_of_spells hs]
      show (do return option s (some (← setting (lower value)))) = _
      rw [setting_of_spells hon]
      rfl
  | listBreakpoints =>
    obtain rfl := List.forall₂_nil_left_iff.1 (hwords rfl)
    rcases List.mem_pair.1 hname with rfl | rfl <;> rfl
  | setBreakpoint n =>
    obtain ⟨part, hn, rfl⟩ := forall₂_singleton_left.1 (hwords rfl)
    have hline : lineNumber part = .ok n := lineNumber_of_denotes hn hvalid.1 hvalid.2
    rcases List.mem_pair.1 hname with rfl | rfl <;> exact congrArg (Except.map setBreakpoint) hline
  | clearBreakpoint n =>
    obtain ⟨part, hn, rfl⟩ := forall₂_singleton_left.1 (hwords rfl)
    have hline : lineNumber part = .ok n := lineNumber_of_denotes hn hvalid.1 hvalid.2
    -- The digits of a number are no asterisk, which would stand for all breakpoints.
    have hstar : part ≠ ['*'] :=
      fun heq => absurd (hn.isDigit '*' (heq ▸ List.mem_singleton_self _)) (by decide)
    rcases List.mem_pair.1 hname with rfl | rfl <;> simp only [hline, Except.map]
  | clearBreakpoints =>
    obtain ⟨_, rfl, rfl⟩ := forall₂_singleton_left.1 (hwords rfl)
    rcases List.mem_pair.1 hname with rfl | rfl <;> rfl
  | lint strict =>
    obtain rfl := List.mem_singleton.1 hname
    cases strict with
    | false =>
      obtain rfl := List.forall₂_nil_left_iff.1 (hwords rfl)
      rfl
    | true =>
      obtain ⟨part, hs, rfl⟩ := forall₂_singleton_left.1 (hwords rfl)
      show (if lower part = "strict" then _ else _) = _
      rw [if_pos (hs.lower_eq (by decide))]

/-- A written command is taken for a command. -/
theorem isCommand_of_written (h : c.Written text) : isCommand text := by
  obtain ⟨before, word, spelled, args, after, htext, hbefore, -⟩ := h
  have hstart : trimStart text.toList = '%' :: (spelled ++ args) ++ after := by
    rw [htext, trimStart, List.dropWhile_append_of_pos hbefore]
    exact List.dropWhile_cons_of_neg (by decide)
  rw [isCommand, hstart]
  rfl

/-! ### What is read -/

/-- A text without the space around it is its body, with or without a percent sign in front. -/
theorem exists_mark (text : String) :
    ∃ mark, (mark = [] ∨ mark = ['%']) ∧ trim text.toList = mark ++ body text := by
  unfold body
  split
  next hhead => exact ⟨['%'], .inr rfl, (List.cons_head?_tail hhead).symm⟩
  next => exact ⟨[], .inl rfl, rfl⟩

/-- What stands behind the word of a command that is read, as far as it is about a file or a
    line. -/
def Bears (rest : List Char) : Command → Prop
  | load file | save file => fileName rest = .ok file
  | setBreakpoint n | clearBreakpoint n => ∃ part, lineNumber part = .ok n
  | _ => True

/-- Only `option` is read from the parts of an `option`. -/
theorem ofOptions_eq_ok {parts : List (List Char)} (h : ofOptions parts = .ok c) :
    ∃ s value, c = option s value := by
  unfold ofOptions at h
  split at h
  next => cases h
  next name others =>
    obtain ⟨s, -, h⟩ := bind_eq_ok.1 h
    split at h
    next =>
      cases h
      exact ⟨s, none, rfl⟩
    next value _ =>
      obtain ⟨on, -, h⟩ := bind_eq_ok.1 h
      cases h
      exact ⟨s, some on, rfl⟩

/-- What is read as a command begins with a word of the command. -/
theorem bears_of_ofText (h : ofText text = .ok c) :
    lower ((body text).takeWhile (!isSpace ·)) ∈ c.names ∧
      Bears (trim ((body text).dropWhile (!isSpace ·))) c := by
  unfold ofText at h
  unfold body
  dsimp only at h ⊢
  generalize lower _ = name at h ⊢
  generalize trim (List.dropWhile _ _) = rest at h ⊢
  -- One case for each name of a command, in the order of the reader; those that read alike go
  -- together.
  split at h
  case h_5 | h_6 | h_7 | h_8 =>
    obtain ⟨file, hfile, rfl⟩ := map_eq_ok.1 h
    exact ⟨by simp [names], hfile⟩
  case h_9 =>
    obtain ⟨s, value, rfl⟩ := ofOptions_eq_ok h
    exact ⟨by simp [names], trivial⟩
  case h_10 | h_11 =>
    split at h
    · cases h
      exact ⟨by simp [names], trivial⟩
    · obtain ⟨n, hn, rfl⟩ := map_eq_ok.1 h
      exact ⟨by simp [names], _, hn⟩
  case h_12 | h_13 =>
    split at h
    · cases h
    · cases h
      exact ⟨by simp [names], trivial⟩
    · obtain ⟨n, hn, rfl⟩ := map_eq_ok.1 h
      exact ⟨by simp [names], _, hn⟩
  case h_24 =>
    split at h
    · cases h
      exact ⟨by simp [names], trivial⟩
    next part _ =>
      split at h
      · cases h
        exact ⟨by simp [names], trivial⟩
      · cases h
  case h_25 => cases h
  all_goals
    cases h
    exact ⟨by simp [names], trivial⟩

/-- A file name that is read stands between double quotes. -/
theorem fileName_eq_ok (h : fileName cs = .ok file) :
    cs = '"' :: (file.toList ++ ['"']) ∧ ∃ x ∈ file.toList, isSpace x = false := by
  unfold fileName at h
  split at h
  next rest =>
    split at h
    next hquoted =>
      cases h
      simp only [Bool.and_eq_true, decide_eq_true_eq] at hquoted
      obtain ⟨hlast, htrim⟩ := hquoted
      have hsplit : rest.dropLast ++ ['"'] = rest := List.dropLast_append_getLast? _ hlast
      rw [String.toList_ofList, hsplit]
      refine ⟨rfl, ?_⟩
      by_contra hspace
      exact htrim (Text.trim_eq_nil_iff.2 (by simpa using hspace))
    next => cases h
  next => cases h

/-- A line number that is read is in range. -/
theorem lineNumber_eq_ok (h : lineNumber cs = .ok n) : 1 ≤ n ∧ n ≤ 32767 := by
  unfold lineNumber at h
  split at h
  next k hk =>
    cases h
    obtain ⟨-, hrange⟩ := Option.filter_eq_some_iff.1 hk
    simp only [Bool.and_eq_true, decide_eq_true_eq] at hrange
    exact hrange
  next => cases h

/-- A command that is read is one that there is. -/
theorem valid_of_ofText (h : ofText text = .ok c) : c.Valid := by
  obtain ⟨-, hbears⟩ := bears_of_ofText h
  cases c with
  | load file | save file => exact (fileName_eq_ok hbears).2
  | setBreakpoint n | clearBreakpoint n =>
    obtain ⟨part, hn⟩ := hbears
    exact lineNumber_eq_ok hn
  | _ => trivial

/-- Whether a word of a command and space, with or without a percent sign before them, stand in
    front of some text, and there is nothing else but space around them. -/
def Leads (c : Command) (text : String) (rest : List Char) : Prop :=
  ∃ before mark word spelled gap after,
    text.toList = before ++ (mark ++ (spelled ++ (gap ++ (rest ++ after)))) ∧
    (∀ x ∈ before, isSpace x) ∧ (mark = [] ∨ mark = ['%']) ∧ word ∈ c.names ∧ Spells word spelled ∧
    gap ≠ [] ∧ (∀ x ∈ gap, isSpace x) ∧ (∀ x ∈ after, isSpace x)

/-- The name of a file that is read is all that stands between the double quotes. -/
theorem leads_of_ofText (h : ofText text = .ok c) (hc : c = load file ∨ c = save file) :
    c.Leads text ('"' :: (file.toList ++ ['"'])) := by
  obtain ⟨hname, hbears⟩ := bears_of_ofText h
  have hrest : trim ((body text).dropWhile (!isSpace ·)) = '"' :: (file.toList ++ ['"']) := by
    rcases hc with rfl | rfl <;> exact (fileName_eq_ok hbears).1
  obtain ⟨before, after, htext, hbefore, hafter⟩ := Text.exists_surrounded text.toList
  obtain ⟨gap, after', hdrop, hgap, hafter'⟩ :=
    Text.exists_surrounded ((body text).dropWhile (!isSpace ·))
  obtain ⟨mark, hmark, hbody⟩ := exists_mark text
  rw [hrest] at hdrop
  refine ⟨before, mark, _, (body text).takeWhile (!isSpace ·), gap, after' ++ after, ?_, hbefore,
    hmark, hname, spells_lower _, ?_, hgap, List.forall_mem_append.2 ⟨hafter', hafter⟩⟩
  · calc text.toList
        = before ++ (mark ++
          ((body text).takeWhile (!isSpace ·) ++ (body text).dropWhile (!isSpace ·)) ++ after) := by
          rw [List.takeWhile_append_dropWhile, ← hbody, ← htext]
      _ = before ++ (mark ++ ((body text).takeWhile (!isSpace ·) ++
            (gap ++ ('"' :: (file.toList ++ ['"']) ++ (after' ++ after))))) := by
          rw [hdrop]
          simp only [List.append_assoc]
  · -- A double quote is no space, so it does not end the word.
    rintro rfl
    have hnot := List.head?_dropWhile_not (fun c => !isSpace c) (body text)
    rw [hdrop] at hnot
    exact absurd (show (!isSpace '"') = false from hnot) (by decide)

/-- **Main result.**  However a command is written that there is, it is read as itself.  Whatever is
    read as a command is one that there is, and the name of a file is all that stands between the
    double quotes. -/
theorem commands_round_trip (c : Command) (text : String) :
    (c.Valid → c.Written text → isCommand text ∧ ofText text = .ok c) ∧
    (ofText text = .ok c → c.Valid ∧ ∀ file, c = load file ∨ c = save file →
      c.Leads text ('"' :: (file.toList ++ ['"']))) :=
  ⟨fun hvalid h => ⟨isCommand_of_written h, ofText_of_written hvalid h⟩,
    fun h => ⟨valid_of_ofText h, fun _ hc => leads_of_ofText h hc⟩⟩

/-- A file name with blanks at its ends and a double quote in it, behind a word in mixed case. -/
theorem commands_round_trip_quotedName :
    (load " a\"b ").Written "\t%LoadFile  \" a\"b \"\n" ∧ isCommand "\t%LoadFile  \" a\"b \"\n" ∧
      ofText "\t%LoadFile  \" a\"b \"\n" = .ok (load " a\"b ") := by
  have hspelled : Spells "loadfile" "LoadFile".toList :=
    (by decide : lower "LoadFile".toList = "loadfile") ▸ spells_lower _
  have hgapped : Gapped (load " a\"b ").arguments
      (List.replicate 2 ' ' ++ ('"' :: (" a\"b ".toList ++ ['"']) ++ [])) :=
    .cons (List.cons_ne_nil _ _) (List.forall_mem_replicate.2 (.inr rfl)) rfl .nil
  have hwritten : (load " a\"b ").Written "\t%LoadFile  \" a\"b \"\n" :=
    ⟨['\t'], "loadfile", "LoadFile".toList, _, ['\n'], by decide,
      List.forall_mem_singleton.2 (by decide),
      List.forall_mem_singleton.2 (by decide), List.mem_cons_self, hspelled, hgapped⟩
  have hvalid : (load " a\"b ").Valid := ⟨'a', by decide, by decide⟩
  obtain ⟨hcommand, hread⟩ := (commands_round_trip _ _).1 hvalid hwritten
  exact ⟨hwritten, hcommand, hread⟩

end Command

end LineBasic
