import LineBasic.Proofs.Engine.Advance

namespace LineBasic.Engine

/-!
# Waiting for events

An engine is given budgets of work, one after the other, until it has an event to report.  How the
work is divided among the budgets makes no difference.

* `Awaited`, `await` -- what comes of a sequence of budgets: the event, the engine at that moment,
  and the lines that were executed;
* `Reports` -- the ticks up to an event;
* `await_eq_poll` -- a sequence of budgets is as good as one budget of their total;
* `Brings`, `Reports.brings` -- once the budgets pay for the ticks up to an event, that event is
  reported;
* `Leads` -- what an engine comes to within so many ticks.
-/

variable {γ : Type} [RandomSource γ] {s t : Engine γ} {e : Event} {ms : List (Moment γ)}

/-- What comes of waiting for an event. -/
structure Awaited (γ : Type) where
  /-- The event; that the engine is still running says that the budgets were used up. -/
  event : Event
  /-- The engine afterwards. -/
  engine : Engine γ
  /-- The lines that were executed, in order. -/
  executed : List Line

/-- The lines that are executed in some moments, in order. -/
def linesOf (ms : List (Moment γ)) : List Line := ms.filterMap Moment.executed?

/-- Polls the engine with one budget after the other until there is an event. -/
def await (s : Engine γ) : List Nat → Awaited γ
  | [] => ⟨.running, s, []⟩
  | budget :: budgets =>
    let lines := linesOf (ticks budget s)
    match poll budget s with
    | (.running, s) =>
      let rest := s.await budgets
      { rest with executed := lines ++ rest.executed }
    | (e, s) => ⟨e, s, lines⟩

/-- The ticks that lead to an event, with the engine after it. -/
inductive Reports : Engine γ → List (Moment γ) → Event → Engine γ → Prop
  | now {s : Engine γ} {e : Event} {t : Engine γ} (h : s.tick = .inl (e, t)) :
      Reports s [.tick s] e t
  | later {s s' t : Engine γ} {ms : List (Moment γ)} {e : Event} (h : s.tick = .inr s') :
      Reports s' ms e t → Reports s (.tick s :: ms) e t

/-- No tick reports that the engine is still running. -/
theorem tick_ne_running {r : Event × Engine γ} (h : s.tick = .inl r) : r.1 ≠ .running := by
  have hcases := h ▸ tick_cases s
  cases hcases with
  | errors | input | paused | stopped => simp

/-- An event that is reported says more than that there is work left. -/
theorem Reports.event_ne_running (h : Reports s ms e t) : e ≠ .running := by
  induction h with
  | now h => exact tick_ne_running h
  | later _ _ ih => exact ih

/-! ### Budgets -/

/-- What some budgets come to together. -/
def total : List Nat → Nat
  | [] => 0
  | budget :: budgets => budget + total budgets

/-- A poll with two budgets in one goes on with the second where the first was used up. -/
theorem poll_add (a b : Nat) (s : Engine γ) :
    poll (a + b) s = if (poll a s).1 = .running then poll b (poll a s).2 else poll a s := by
  induction a generalizing s with
  | zero => simp [poll]
  | succ a ih =>
    rw [Nat.succ_add]
    cases ht : s.tick with
    | inl r => simp only [poll, ht, if_neg (tick_ne_running ht)]
    | inr s' => simp only [poll, ht, ih s']

/-- The ticks of two budgets together are those of the first, and then those of the second if no
    event has ended the first. -/
theorem ticks_add (a b : Nat) (s : Engine γ) :
    ticks (a + b) s = ticks a s ++ if (poll a s).1 = .running then ticks b (poll a s).2
      else [] := by
  induction a generalizing s with
  | zero => simp [poll, ticks]
  | succ a ih =>
    rw [Nat.succ_add]
    cases ht : s.tick with
    | inl r => simp only [poll, ticks, ht, if_neg (tick_ne_running ht), List.append_nil]
    | inr s' => simp only [poll, ticks, ht, ih s', List.cons_append]

/-- **Budgets add up.**  A sequence of budgets comes to what one budget of their total comes to. -/
theorem await_eq_poll (s : Engine γ) (budgets : List Nat) :
    s.await budgets =
      ⟨(poll (total budgets) s).1, (poll (total budgets) s).2,
        linesOf (ticks (total budgets) s)⟩ := by
  induction budgets generalizing s with
  | nil => rfl
  | cons budget budgets ih =>
    have hpoll := poll_add budget (total budgets) s
    have hticks := ticks_add budget (total budgets) s
    rw [total, hpoll, hticks, await]
    generalize poll budget s = r
    obtain ⟨e, s'⟩ := r
    -- The later budgets matter only where the first has been used up.
    by_cases he : e = .running
    · subst he
      simp only [ih s', if_true, linesOf, List.filterMap_append]
    · cases e <;> simp_all

/-! ### Reports -/

/-- A budget that pays for the ticks up to an event brings it about, and a smaller one is used
    up. -/
theorem Reports.poll (h : Reports s ms e t) (budget : Nat) :
    if ms.length ≤ budget then ticks budget s = ms ∧ poll budget s = (e, t)
    else (poll budget s).1 = .running := by
  -- By the ticks, each of which takes one from the budget.
  induction h generalizing budget with
  | now h =>
    cases budget with
    | zero => simp [Engine.poll]
    | succ budget => simp [Engine.poll, ticks, h]
  | later h _ ih =>
    cases budget with
    | zero => simp [Engine.poll]
    | succ budget => simpa [Engine.poll, ticks, h] using ih budget

/-- Whatever the budgets are, the first event that is reported is the one that the ticks lead to,
    and it is reported as soon as the budgets pay for them. -/
theorem Reports.await (h : Reports s ms e t) (budgets : List Nat) :
    (ms.length ≤ total budgets → (s.await budgets).event ≠ .running) ∧
      ((s.await budgets).event ≠ .running → s.await budgets = ⟨e, t, linesOf ms⟩) := by
  have hpoll := h.poll (total budgets)
  rw [await_eq_poll]
  by_cases hle : ms.length ≤ total budgets
  · rw [if_pos hle] at hpoll
    obtain ⟨hticks, hpoll⟩ := hpoll
    rw [hticks, hpoll]
    exact ⟨fun _ => h.event_ne_running, fun _ => rfl⟩
  · rw [if_neg hle] at hpoll
    exact ⟨fun h => absurd h hle, fun h => absurd hpoll h⟩

/-- Whatever the budgets are, there is an event once they pay for so many ticks, and of the first
    event a property holds. -/
def Brings (s : Engine γ) (k : Nat) (P : Awaited γ → Prop) : Prop :=
  ∀ budgets : List Nat, (k ≤ total budgets → (s.await budgets).event ≠ .running) ∧
    ((s.await budgets).event ≠ .running → P (s.await budgets))

/-- A property that an event has is brought about as soon as the budgets pay for the ticks up to
    it. -/
theorem Reports.brings {k : Nat} {P : Awaited γ → Prop} (h : Reports s ms e t) (hk : ms.length ≤ k)
    (hP : P ⟨e, t, linesOf ms⟩) : s.Brings k P := by
  intro budgets
  obtain ⟨henough, hfirst⟩ := h.await budgets
  refine ⟨fun hle => henough (Nat.le_trans hk hle), fun hevent => ?_⟩
  rw [hfirst hevent]
  exact hP

/-- Whether there is an event within so many ticks, before which some lines are executed, and a
    property holds of it and of the engine after it. -/
def Leads (s : Engine γ) (k : Nat) (lines : List Line) (P : Event → Engine γ → Prop) : Prop :=
  ∃ ms e t, Reports s ms e t ∧ ms.length ≤ k ∧ linesOf ms = lines ∧ P e t

/-! ### Events -/

omit [RandomSource γ] in
/-- The lines that are executed in moments, one part after the other. -/
theorem linesOf_append (ms ms' : List (Moment γ)) :
    linesOf (ms ++ ms') = linesOf ms ++ linesOf ms' :=
  List.filterMap_append

omit [RandomSource γ] in
/-- The lines that are executed in moments, the first of them apart. -/
theorem linesOf_cons (m : Moment γ) (ms : List (Moment γ)) :
    linesOf (m :: ms) = linesOf [m] ++ linesOf ms :=
  linesOf_append [m] ms

omit [RandomSource γ] in
/-- The line that a tick executes is executed on the program's turn. -/
theorem linesOf_tick (s : Engine γ) :
    linesOf [Moment.tick s] = if s.isProgramTurn then s.executed?.toList else [] := by
  have hexecuted : (Moment.tick s).executed? = if s.isProgramTurn then s.executed? else none := rfl
  unfold linesOf
  rw [List.filterMap_cons, List.filterMap_nil, hexecuted]
  by_cases hturn : s.isProgramTurn = true
  · rw [if_pos hturn, if_pos hturn]
    cases s.executed? <;> rfl
  · rw [if_neg hturn, if_neg hturn]

omit [RandomSource γ] in
/-- A tick that is not the program's turn executes nothing. -/
theorem linesOf_tick_of_not_turn (h : ¬ s.isProgramTurn) : linesOf [Moment.tick s] = [] := by
  rw [linesOf_tick, if_neg h]

/-- Errors are reported in the next tick, and no line is executed before that. -/
theorem reports_errors (h : s.errors ≠ []) :
    Reports s [.tick s] (.errors s.errors) { s with errors := [] } ∧
      linesOf [Moment.tick s] = [] := by
  constructor
  · exact .now (by simp [tick, h])
  · exact linesOf_tick_of_not_turn fun hturn => h (isProgramTurn_iff.1 hturn).1

/-- A pending question is put in the next tick, if there are no errors. -/
theorem reports_input {q : Inquiry} (herrors : s.errors = []) (hq : s.pending = some q) :
    Reports s [.tick s] (.input q.prompt) s ∧ linesOf [Moment.tick s] = [] := by
  constructor
  · exact .now (by simp [tick, herrors, hq])
  · refine linesOf_tick_of_not_turn fun hturn => ?_
    simp [(isProgramTurn_iff.1 hturn).2.1] at hq

/-- A suspended run is reported in the next tick, if nothing else is due. -/
theorem reports_paused (herrors : s.errors = []) (hpending : s.pending = none)
    (hdirect : s.direct = none) (hmode : s.mode = .paused) :
    Reports s [.tick s] (.paused s.cursor) s ∧ linesOf [Moment.tick s] = [] := by
  constructor
  · exact .now (by simp [tick, herrors, hpending, hdirect, hmode])
  · refine linesOf_tick_of_not_turn fun hturn => ?_
    simp [(isProgramTurn_iff.1 hturn).2.2.2] at hmode

/-- An idle engine reports in the next tick that there is nothing to do, if nothing else is due. -/
theorem reports_stopped (herrors : s.errors = []) (hpending : s.pending = none)
    (hdirect : s.direct = none) (hmode : s.isIdle) :
    Reports s [.tick s] .stopped s ∧ linesOf [Moment.tick s] = [] := by
  have hidle : s.mode ≠ .running ∧ s.mode ≠ .paused := by simpa [isIdle] using hmode
  constructor
  · refine .now ?_
    cases h : s.mode with
    | running => exact absurd h hidle.1
    | paused => exact absurd h hidle.2
    | prompt | loading | loadFailed => simp [tick, herrors, hpending, hdirect, h]
  · exact linesOf_tick_of_not_turn fun hturn => hidle.1 (isProgramTurn_iff.1 hturn).2.2.2

/-- On the program's turn the event that `advance` leads to comes one tick later. -/
theorem Leads.after_advance {k : Nat} {lines : List Line} {P : Event → Engine γ → Prop}
    (hturn : s.isProgramTurn) (h : s.advance.2.Leads k lines P) :
    s.Leads (k + 1) (s.executed?.toList ++ lines) P := by
  obtain ⟨herrors, hpending, hdirect, hmode⟩ := isProgramTurn_iff.1 hturn
  obtain ⟨ms, e, t, hreports, hlength, hlines, hP⟩ := h
  have htick : s.tick = .inr s.advance.2 := by simp [tick, herrors, hpending, hdirect, hmode]
  refine ⟨.tick s :: ms, e, t, .later htick hreports, Nat.succ_le_succ hlength, ?_, hP⟩
  rw [linesOf_cons, linesOf_tick, if_pos hturn, hlines]

end LineBasic.Engine
