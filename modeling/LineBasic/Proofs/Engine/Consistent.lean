import LineBasic.Proofs.Engine.Happened
import LineBasic.Proofs.Engine.LineStatement
import LineBasic.Proofs.Engine.Performed
import LineBasic.Proofs.Engine.Source

namespace LineBasic

open Engine

/-!
# The program store

Whatever is done with an engine, its stored lines are what their texts say, and breakpoints are on
stored lines only.  The breakpoints that the user sets change only where someone asks for it.

* `Engine.Consistent` -- a program store in good order;
* `Reachable.consistent` -- every history leaves one;
* `Moment.EditsBreakpoints` -- the ways to change the breakpoints that the user sets;
* `program_store_consistent` -- the main result, for all histories.
-/

variable {γ : Type} {s t : Engine γ}

/-! ### Numbers of lines -/

/-- A token denotes only numbers that lines can have. -/
theorem Token.lineNumber_range {t : Token} {n : Nat} (h : t.lineNumber = .ok n) :
    1 ≤ n ∧ n ≤ LineNumber.last := by
  have hdigits : ∀ digits : String, LineNumber.ofText? digits.toList = some n →
      1 ≤ n ∧ n ≤ LineNumber.last := by
    intro digits hn
    unfold LineNumber.ofText? at hn
    simpa using (Option.filter_eq_some_iff.1 hn).2
  -- Of the three kinds of tokens the last denotes no number, and the others do by their digits.
  unfold Token.lineNumber at h
  split at h
  case h_3 => cases h
  all_goals
    split at h
    next hn =>
      cases h
      exact hdigits _ hn
    next => cases h

/-- A statement is stored only under a number that lines can have. -/
theorem Entry.number_range {text : String} {n : Nat} {statement : Statement}
    (h : Entry.ofText text = .ok (.store n statement)) : 1 ≤ n ∧ n ≤ LineNumber.last := by
  obtain ⟨tokens, -, htokens⟩ := Entry.ofText_eq_ok_iff.1 h
  unfold Entry.ofTokens at htokens
  -- Only the branch with a number and a statement behind it stores anything.
  split at htokens
  next => cases htokens
  next first rest =>
    split at htokens
    next =>
      cases hn : first.lineNumber with
      | error fault =>
        rw [hn] at htokens
        cases htokens
      | ok k =>
        rw [hn] at htokens
        dsimp only at htokens
        split at htokens
        next => cases htokens
        next =>
          split at htokens
          next =>
            cases htokens
            exact Token.lineNumber_range hn
          next => cases htokens
    next =>
      split at htokens
      next => cases htokens
      next => cases htokens

namespace Engine

/-! ### Consistent stores -/

/-- A program store in good order. -/
structure Consistent (s : Engine γ) : Prop where
  /-- Lines have numbers that lines can have. -/
  number : ∀ l ∈ s.listing.lines, 1 ≤ l.number ∧ l.number ≤ 32767
  /-- A line is found under its number. -/
  stored : ∀ l ∈ s.listing.lines, s.listing.get? l.number = some l
  /-- The text of a line is the entry that stores it. -/
  source : ∀ l ∈ s.listing.lines, Entry.ofText l.source = .ok (.store l.number l.statement)
  /-- Breakpoints are on stored lines. -/
  marked : ∀ n ∈ s.breakpoints.lines, s.listing.contains n

/-- Whether the breakpoints that the user has set are on stored lines. -/
def MarksLines (s : Engine γ) : Prop := ∀ n ∈ s.breakpoints.lines, s.listing.contains n

/-- Where there are no breakpoints, they are on stored lines. -/
theorem marksLines_of_lines_eq_nil (h : s.breakpoints.lines = []) : s.MarksLines := by
  intro n hn
  rw [h] at hn
  cases hn

/-- The end of a run keeps the breakpoints that the user has set. -/
theorem stop_lines (s : Engine γ) : s.stop.breakpoints.lines = s.breakpoints.lines := by
  rw [stop_breakpoints]
  rfl

/-- `CLEAR` removes all breakpoints. -/
theorem wipe_lines (s : Engine γ) : s.wipe.stop.breakpoints.lines = [] := stop_lines _

/-- The beginning of a load removes all breakpoints. -/
theorem beginLoad_lines (s : Engine γ) : s.beginLoad.breakpoints.lines = [] := stop_lines _

/-- A change that brings no breakpoint but on a stored line. -/
theorem Shift.marksLines (h : Shift s t) (hs : s.MarksLines) : t.MarksLines := by
  cases h with
  | store n source statement => exact fun k hk => Listing.contains_insert (hs k hk)
  -- The breakpoint of a deleted line goes with it; every other line is still there.
  | delete n hmode =>
    intro k hk
    have hk : k ∈ (s.breakpoints.forget n).lines := hk
    rw [Breakpoints.forget_lines, List.mem_filter] at hk
    have hne : n ≠ k := fun h => by simp [h] at hk
    exact Listing.contains_erase hne (hs k hk.1)
  | unmark n b hb =>
    intro k hk
    obtain rfl := Breakpoints.clear_ok hb
    exact hs k (Breakpoints.mem_drop.1 hk).1
  | unmarkAll => exact marksLines_of_lines_eq_nil rfl
  | wipe => exact marksLines_of_lines_eq_nil s.wipe_lines
  | beginLoad => exact marksLines_of_lines_eq_nil s.beginLoad_lines
  | stop =>
    intro n hn
    rw [stop_lines] at hn
    rw [stop_listing]
    exact hs n hn
  | restart =>
    rw [rewind_eq]
    exact hs
  | _ => exact hs

/-- A breakpoint is set on a stored line only. -/
theorem Marks.marksLines (h : Marks s t) (hs : s.MarksLines) : t.MarksLines := by
  obtain ⟨n, b, hb, rfl⟩ := h
  obtain ⟨hn, rfl⟩ := Breakpoints.set_ok hb
  intro k hk
  rcases Breakpoints.mem_add.1 hk with rfl | hk
  · exact hn
  · exact hs k hk

/-! ### What leaves breakpoints alone -/

/-- A failure keeps the breakpoints. -/
theorem fail_lines (s : Engine γ) (d : Diagnostic) :
    (s.fail d).breakpoints.lines = s.breakpoints.lines :=
  calc (s.fail d).breakpoints.lines
      = (s.noted d).stopRun.breakpoints.lines := spoilLoad_same _ (·.breakpoints.lines) rfl
    _ = (s.noted d).breakpoints.lines := stopRun_same _ (·.breakpoints.lines) (stop_lines _)

/-- Going on after a line keeps the breakpoints. -/
theorem finishLine_lines (s : Engine γ) :
    s.finishLine.2.breakpoints.lines = s.breakpoints.lines := by
  generalize hr : s.finishLine = r
  cases hr ▸ finishLine_cases s with
  | moved | stepped => rfl
  | fellOff => exact fail_lines s _

/-- Writing the time of a line keeps the breakpoints. -/
theorem timed_lines (s : Engine γ) (line : Line) :
    (s.timed line).breakpoints.lines = s.breakpoints.lines := by
  rw [timed_eq]

/-- Of all the effects of statements only that of `CLEAR` concerns the breakpoints. -/
theorem Effect.apply_lines (line : Option Nat) (s : Engine γ) {effect : Effect}
    (h : effect ≠ .clear) :
    (effect.apply line s).breakpoints.lines = s.breakpoints.lines := by
  cases effect with
  | clear => exact absurd rfl h
  | nothing | assign | write | jump | launch => rfl
  | halt => exact stop_lines s
  | ask xs =>
    show (Engine.ask line s xs).breakpoints.lines = _
    rcases ask_cases line s xs with ⟨machine, queue, h⟩ | ⟨machine, queue, q, -, h⟩ <;> rw [h]
  | restart warning =>
    cases warning with
    | none => show s.rewind.breakpoints.lines = _; rw [rewind_eq]
    | some d => show (s.emit _).rewind.breakpoints.lines = _; rw [rewind_eq]; rfl

variable [RandomSource γ]

/-- Answers keep the breakpoints. -/
theorem answer_lines (s : Engine γ) (q : Inquiry) (text : String) :
    (s.answer q text).breakpoints.lines = s.breakpoints.lines := by
  generalize hr : s.answer q text = r
  cases hr ▸ answer_cases s q text with
  | failed => exact fail_lines _ _
  | more | finished => rfl
  | resumed => exact finishLine_lines _

/-- Only `CLEAR` has the effect of `CLEAR`. -/
theorem Does.clear_inv {line : Option Nat} {statement : Statement} {m : Machine γ}
    (h : Does line s statement .clear m) : ∃ span, statement = .clear span := by
  cases h
  exact ⟨_, rfl⟩

/-- Whether a statement comes to `CLEAR`. -/
def ComesToClear (s : Engine γ) (statement : Statement) : Prop :=
  ∃ span m, statement.comesTo? s.machine = some (.clear span, m)

/-- A statement leaves the breakpoints alone unless it comes to `CLEAR`, which removes them. -/
theorem execute_lines {line : Option Nat} {statement : Statement}
    (h : (∃ u, execute line statement s = .ok u t) ∨
      ∃ fault, execute line statement s = .error fault t) :
    t.breakpoints.lines = s.breakpoints.lines ∨ s.ComesToClear statement ∧
      t.breakpoints.lines = [] := by
  rcases h with ⟨u, h⟩ | ⟨fault, h⟩
  · rcases execute_ok h with ⟨-, m, rfl⟩ | ⟨body, m, effect, m', hcomes, hdoes, rfl⟩
    · exact .inl rfl
    -- `CLEAR` is told by its effect, and the effect tells what statement has been come to.
    · by_cases hclear : effect = .clear
      · subst hclear
        obtain ⟨span, rfl⟩ := hdoes.clear_inv
        exact .inr ⟨⟨span, m, hcomes⟩, wipe_lines _⟩
      · exact .inl (Effect.apply_lines line _ hclear)
  · obtain ⟨⟨m, rfl⟩, -⟩ := execute_error h
    exact .inl rfl

/-- A direct statement keeps the breakpoints, unless it comes to `CLEAR`. -/
theorem carryOut_lines (s : Engine γ) (d : DirectStatement) :
    (s.carryOut d).breakpoints.lines = s.breakpoints.lines ∨
      s.ComesToClear d.statement ∧ (s.carryOut d).breakpoints.lines = [] := by
  unfold carryOut
  split
  next t h => exact execute_lines (.inl ⟨_, h⟩)
  next fault t h =>
    rw [fail_lines]
    exact execute_lines (.inr ⟨_, h⟩)

/-- A program line keeps the breakpoints, unless it comes to `CLEAR`. -/
theorem executeLine_lines (s : Engine γ) (line : Line) :
    (s.executeLine line).2.breakpoints.lines = s.breakpoints.lines ∨
      s.ComesToClear line.statement ∧ (s.executeLine line).2.breakpoints.lines = [] := by
  have hbegun : ∀ t, ((∃ u, execute (some line.number) line.statement (s.begun line) = .ok u t) ∨
      ∃ fault, execute (some line.number) line.statement (s.begun line) = .error fault t) →
      t.breakpoints.lines = s.breakpoints.lines ∨
        s.ComesToClear line.statement ∧ t.breakpoints.lines = [] := by
    intro t h
    have hlines := execute_lines h
    rw [ComesToClear, begun_eq] at hlines
    exact hlines
  generalize hr : s.executeLine line = r
  cases hr ▸ executeLine_cases s line with
  | failed fault t h =>
    rw [fail_lines, timed_lines]
    exact hbegun t (.inr ⟨fault, h⟩)
  | ended t h | asked t h =>
    rw [timed_lines]
    exact hbegun t (.inl ⟨(), h⟩)
  | finished t h =>
    rw [finishLine_lines, timed_lines]
    exact hbegun t (.inl ⟨(), h⟩)

/-- Going on with a run keeps the breakpoints, unless the line that is executed comes to `CLEAR`. -/
theorem advance_lines (s : Engine γ) :
    s.advance.2.breakpoints.lines = s.breakpoints.lines ∨
      ∃ line, s.executed? = some line ∧ s.ComesToClear line.statement ∧
        s.advance.2.breakpoints.lines = [] := by
  generalize hr : s.advance = r
  cases hr ▸ advance_cases s with
  | idle | waiting => exact .inl rfl
  | lost => exact .inl (fail_lines s _)
  | stopped =>
    rw [pauseAt_eq]
    exact .inl rfl
  | executed line hopen =>
    rcases executeLine_lines { s with resume := false } line with h | ⟨hclear, h⟩
    · exact .inl h
    · exact .inr ⟨line, executed?_eq_some.2 hopen, hclear, h⟩

end Engine

/-! ### Edits of the breakpoints -/

variable [RandomSource γ]

/-- The ways in which the breakpoints that the user sets are changed in a moment, with those that
    are left. -/
inductive Moment.EditsBreakpoints : Moment γ → List Nat → Prop where
  /-- One is set. -/
  | set {m : Moment γ} {n : Nat} (h : m.Marks n) :
      EditsBreakpoints m (m.before.breakpoints.add n).lines
  /-- One is removed. -/
  | clear {m : Moment γ} {n : Nat} (h : m.Unmarks n) :
      EditsBreakpoints m (m.before.breakpoints.lines.filter (· ≠ n))
  /-- All are removed. -/
  | clearAll {s : Engine γ} : EditsBreakpoints (.act s (.command .clearBreakpoints)) []
  /-- The line of one is deleted. -/
  | delete {s : Engine γ} {text : String} {n : Nat} (hentry : Entry.ofText text = .ok (.delete n))
      (hn : s.listing.contains n) (hafter : (s.enter text).2.listing = s.listing.erase n) :
      EditsBreakpoints (.act s (.enter text)) (s.breakpoints.lines.filter (· ≠ n))
  /-- `CLEAR` is carried out. -/
  | wipe {m : Moment γ} {line : Option Nat} {statement : Statement}
      (hcarries : m.CarriesOut line statement) (hclear : m.before.ComesToClear statement) :
      EditsBreakpoints m []
  /-- A load begins. -/
  | load {s : Engine γ} : EditsBreakpoints (.act s .beginLoad) []

namespace Moment

variable {m : Moment γ}

/-- **Edits of the breakpoints.**  Nothing else changes the breakpoints that the user sets. -/
theorem breakpoints_cases (m : Moment γ) :
    m.after.breakpoints.lines = m.before.breakpoints.lines ∨
      m.EditsBreakpoints m.after.breakpoints.lines := by
  have hhappened := m.happened
  generalize hafter : m.after = t at hhappened ⊢
  cases hhappened with
  | aside | noticed | stored | putBy | endedLoad => exact .inl rfl
  -- Of all statements only `CLEAR` drops breakpoints, as a direct one or as that of a line.
  | @carriedOut s d herrors hpending hdirect =>
    rcases carryOut_lines { s with direct := none } d with h | ⟨hclear, h⟩
    · exact .inl h
    · rw [h]
      exact .inr (.wipe (.direct herrors hpending hdirect) hclear)
  | advanced hadvance =>
    rcases advance_lines m.before with h | ⟨line, hline, hclear, h⟩
    · exact .inl h
    · rw [h]
      exact .inr (.wipe (.line ((isAdvance_spec hadvance).2.trans hline)) hclear)
  | answered => exact .inl (answer_lines _ _ _)
  | misread | interrupted => exact .inl (fail_lines _ _)
  | deleted _ _ hentry hn =>
    refine .inr ?_
    show EditsBreakpoints _ (Breakpoints.forget _ _).lines
    rw [Breakpoints.forget_lines]
    rw [Entry.ofText_trimmed] at hentry
    exact .delete hentry hn (congrArg Engine.listing hafter)
  | released h ht =>
    obtain ⟨-, stepping, rfl⟩ := ht
    exact .inl rfl
  | gaveUp => exact .inl (stop_lines _)
  | marked h hb =>
    obtain ⟨-, rfl⟩ := Breakpoints.set_ok hb
    exact .inr (.set h)
  | unmarked h hb =>
    obtain rfl := Breakpoints.clear_ok hb
    exact .inr (.clear h)
  | unmarkedAll => exact .inr .clearAll
  | beganLoad =>
    rw [beginLoad_lines]
    exact .inr .load

end Moment

/-! ### Every history -/

/-- Whatever has been done with an engine, its program store is in good order. -/
theorem Engine.Reachable.consistent {s : Engine γ} (h : s.Reachable) : s.Consistent := by
  have hfaithful : ∀ l ∈ s.listing.lines,
      Entry.ofText l.source = .ok (.store l.number l.statement) :=
    fun l hl => (h.faithful l hl).entry
  have hmarks : s.MarksLines := by
    -- The induction is on the history.  A moment is a chain of shifts, unless a run that is
    -- suspended goes on in it or a breakpoint is set.
    refine h.induction (fun generator n hn => nomatch hn) fun m hm => ?_
    rcases moment_cases m with hshifts | hreleases | ⟨n, hmarks⟩
    · exact hshifts.preserves hm fun s t hs hst => hst.marksLines hs
    · obtain ⟨-, stepping, hafter⟩ := hreleases.releases
      rw [hafter]
      exact hm
    · exact hmarks.marks.marksLines hm
  exact {
    number := fun l hl => Entry.number_range (hfaithful l hl)
    stored := fun l hl => Listing.get?_eq_some_iff.2 ⟨hl, rfl⟩
    source := hfaithful
    marked := hmarks }

/-- **Main result.**  After any operations on an engine that has just been started the program store
    is in good order.  In each moment of them the breakpoints that the user sets stay as they are,
    unless one is set or removed, all are removed, the line of one is deleted, `CLEAR` is carried
    out or a load begins; and then they change as that asks for. -/
theorem program_store_consistent (generator : γ) (ops : List (Operation γ)) :
    ((start generator).run ops).Consistent ∧
      ∀ m ∈ (start generator).trail ops, m.after.breakpoints.lines = m.before.breakpoints.lines ∨
        m.EditsBreakpoints m.after.breakpoints.lines :=
  ⟨Reachable.consistent ⟨generator, ops, rfl⟩, fun m _ => m.breakpoints_cases⟩

end LineBasic
