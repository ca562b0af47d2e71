import LineBasic.Engine.Run
import LineBasic.Proofs.Asserting.Execution
import LineBasic.Proofs.Engine.Advance

namespace LineBasic

open Engine

/-!
# Runs with assertions

A report of a statement has its columns when it comes to the line that is executed, and is told that
line there; a report of a run that comes to nothing is made with a line and without columns.

* `finishLine`, `executeLine`, `advance`, `carryOut`, `tick`, `poll` -- runs with their checks;
* `Watched.Yields` -- the same answer, and an engine with its question;
* `advance_passes`, `tick_passes`, `poll_passes` -- no check fails, and the same happens.
-/

namespace Asserting

open Watched

variable {γ : Type}

/-- The report that something happened to the run at the cursor. -/
def atCursor (s : Engine γ) (cause : Cause) : Asserting Diagnostic := do
  let d ← cause.diagnostic.giveLine (some s.cursor)
  match s.listing.get? s.cursor with
  | some line => return d.inSource line.source
  | none => return d

/-- An engine that has gone on to a line, and stops there if it executes single steps. -/
def moveTo (s : Engine γ) (n : Nat) : Engine γ :=
  let s := { s with branch := none, cursor := n }
  if s.stepping then { s with stepping := false, breakpoints := s.breakpoints.arm n } else s

/-- Goes on to the line that was jumped to, or else to the next one. -/
def finishLine (w : Watched γ) : Asserting (Progress × Watched γ) := do
  match w.engine.branch.or (w.engine.listing.nextAfter? w.engine.cursor) with
  | some n => return (.onward, w.change (moveTo · n))
  | none =>
    let d ← atCursor w.engine .noEnd
    return (.failed, w.clear (·.fail d))

variable [RandomSource γ]

/-- Executes a line of the program, and tells the report of a failure which line it is. -/
def executeLine (line : Line) (w : Watched γ) : Asserting (Progress × Watched γ) := do
  let w := w.change fun s => { s.traced line.source with branch := none }
  match ← execute (some line.number) line.statement w with
  | (.error d, w) =>
    let d ← d.giveLine (some line.number)
    return (.failed, w.clear fun s => (s.timed line).fail (d.inSource line.source))
  | (.ok _, w) =>
    let w := w.change (·.timed line)
    if w.engine.mode ≠ .running then return (.ended, w)
    else if w.question.isSome then return (.onward, w)
    else finishLine w

/-- Executes the line at the cursor, or stops at a breakpoint on it. -/
def advance (w : Watched γ) : Asserting (Progress × Watched γ) := do
  if w.engine.mode ≠ .running then return (.ended, w)
  else if w.question.isSome then return (.onward, w)
  else
    match w.engine.listing.get? w.engine.cursor with
    | none =>
      let d ← (Cause.lineNotInProgram w.engine.cursor).diagnostic.giveLine (some w.engine.cursor)
      return (.failed, w.clear (·.fail d))
    | some line =>
      let w' := w.change fun s => (s.arrive line).2
      match (w.engine.arrive line).1 with
      | some hit => return (.paused line.number, w'.change (·.pauseAt line hit))
      | none => executeLine line w'

/-- Carries out a direct statement. -/
def carryOut (d : DirectStatement) (w : Watched γ) : Asserting (Watched γ) := do
  match ← execute none d.statement w with
  | (.ok _, w) => return w
  | (.error report, w) => return w.clear (·.fail (report.inSource d.source))

/-- What is due next.  A question that is due is put in words. -/
def tick (w : Watched γ) : Asserting (Event × Watched γ ⊕ Watched γ) := do
  if w.engine.errors ≠ [] then
    return .inl (.errors w.engine.errors, w.change fun s => { s with errors := [] })
  else
    match w.question with
    | some q => return .inl (.input (← q.prompt), w)
    | none =>
      match w.engine.direct with
      | some d => return .inr (← carryOut d (w.change fun s => { s with direct := none }))
      | none =>
        match w.engine.mode with
        | .running => return .inr (← advance w).2
        | .paused => return .inl (.paused w.engine.cursor, w)
        | _ => return .inl (.stopped, w)

/-- Does what is due, up to so many times, until there is an event. -/
def poll : Nat → Watched γ → Asserting (Event × Watched γ)
  | 0, w => .ok (.running, w)
  | n + 1, w => do
    match ← tick w with
    | .inl result => return result
    | .inr w => poll n w

/-! ### No check fails -/

/-- Whether an answer and a watched engine are a given answer and that engine with its question. -/
def Watched.Yields {α : Type} (p : α × Engine γ) (r : α × Watched γ) : Prop :=
  r.1 = p.1 ∧ r.2.Watches p.2

omit [RandomSource γ] in
/-- Going on after an answer. -/
theorem Passes.bind_yields {α β : Type} {r : Asserting (α × Watched γ)} {p : α × Engine γ}
    {k : α × Watched γ → Asserting β} {Q : β → Prop} (h : r.Passes (Yields p))
    (hk : ∀ w, w.Watches p.2 → (k (p.1, w)).Passes Q) : (r >>= k).Passes Q := by
  refine h.bind ?_
  rintro ⟨_, w⟩ ⟨rfl, hw⟩
  exact hk w hw

variable {w : Watched γ} {s : Engine γ}

omit [RandomSource γ] in
/-- There is a question to be checked where one is pending. -/
theorem Watched.Watches.isSome_question (hw : w.Watches s) :
    w.question.isSome = s.pending.isSome := by
  rw [hw.pending, Option.isSome_map]

omit [RandomSource γ] in
/-- A report for the line at the cursor is told its line once. -/
theorem atCursor_eq (s : Engine γ) (cause : Cause) : atCursor s cause = .ok (s.atCursor cause) := by
  unfold atCursor Engine.atCursor
  rw [Cause.giveLine_diagnostic]
  cases s.listing.get? s.cursor <;> rfl

omit [RandomSource γ] in
/-- Moving to a line leaves the pending question alone. -/
theorem moveTo_pending (s : Engine γ) (n : Nat) : (moveTo s n).pending = s.pending := by
  unfold moveTo
  dsimp only
  split <;> rfl

omit [RandomSource γ] in
/-- Going on after a line fails no check. -/
theorem finishLine_passes (hw : w.Watches s) : (finishLine w).Passes (Yields s.finishLine) := by
  unfold finishLine Engine.finishLine
  rw [hw.engine]
  cases s.branch.or (s.listing.nextAfter? s.cursor) with
  | some n => exact passes_ok ⟨rfl, hw.change (moveTo · n) (moveTo_pending s n)⟩
  | none =>
    dsimp only
    rw [atCursor_eq]
    exact passes_ok ⟨rfl, hw.clear (·.fail (s.atCursor .noEnd)) (fail_pending _ _)⟩

omit [RandomSource γ] in
/-- Tracing leaves the pending question alone. -/
theorem traced_pending (s : Engine γ) (text : String) : (s.traced text).pending = s.pending := by
  rw [traced_eq]

/-- **Lines.**  Executing a line fails no check: its report is told the line once. -/
theorem executeLine_passes (line : Line) (hw : w.Watches s) :
    (executeLine line w).Passes (Yields (s.executeLine line)) := by
  have hbegun :=
    hw.change (fun s => { s.traced line.source with branch := none }) (traced_pending s line.source)
  refine Passes.bind_yields (execute_follows _ _ _ _ hbegun) fun w' hw' => ?_
  unfold Engine.executeLine
  cases hexecute : Engine.execute (some line.number) line.statement
    { s.traced line.source with branch := none } with
  | error fault t =>
    rw [hexecute] at hw'
    exact passes_ok ⟨rfl, hw'.clear (fun s => (s.timed line).fail _) (fail_pending _ _)⟩
  | ok _ t =>
    rw [hexecute] at hw'
    have htimed : (w'.change (·.timed line)).Watches (t.timed line) :=
      hw'.change (·.timed line) (timed_pending _ _)
    dsimp only [reported]
    rw [htimed.isSome_question, htimed.engine]
    split
    · exact passes_ok ⟨rfl, htimed⟩
    · split
      · exact passes_ok ⟨rfl, htimed⟩
      · exact finishLine_passes htimed

omit [RandomSource γ] in
/-- Coming to a line leaves the pending question alone. -/
theorem arrive_pending (s : Engine γ) (line : Line) : (s.arrive line).2.pending = s.pending := by
  rcases arrive_cases s line with ⟨-, h⟩ | ⟨-, -, h⟩ <;> rw [h]

/-- Going on with a run by one line fails no check. -/
theorem advance_passes (hw : w.Watches s) : (advance w).Passes (Yields s.advance) := by
  unfold advance Engine.advance
  rw [hw.isSome_question, hw.engine]
  split
  · exact passes_ok ⟨rfl, hw⟩
  split
  · exact passes_ok ⟨rfl, hw⟩
  cases hget : s.listing.get? s.cursor with
  | none =>
    have hcursor : s.atCursor (.lineNotInProgram s.cursor) =
        (Cause.lineNotInProgram s.cursor).diagnostic.atLine (some s.cursor) := by
      rw [Engine.atCursor, hget]
    dsimp only
    rw [hcursor]
    exact passes_ok ⟨rfl, hw.clear (·.fail _) (fail_pending _ _)⟩
  | some line =>
    -- Coming to a line poses no question, so the engine is watched when the line is executed.
    have harrived : (w.change fun s => (s.arrive line).2).Watches (s.arrive line).2 :=
      hw.change (fun s => (s.arrive line).2) (arrive_pending s line)
    dsimp only
    generalize w.change (fun s => (s.arrive line).2) = w' at harrived
    generalize s.arrive line = arrived at harrived
    obtain ⟨hit | hit, t⟩ := arrived
    · exact executeLine_passes line harrived
    · exact passes_ok ⟨rfl, harrived.change (·.pauseAt line hit) (by rw [pauseAt_eq])⟩

/-- Carrying out a direct statement fails no check. -/
theorem carryOut_passes (d : DirectStatement) (hw : w.Watches s) :
    (carryOut d w).Passes (·.Watches (s.carryOut d)) := by
  refine Passes.bind_yields (execute_follows none d.statement w s hw) fun w' hw' => ?_
  unfold Engine.carryOut
  cases hexecute : Engine.execute none d.statement s with
  | error fault t =>
    rw [hexecute] at hw'
    exact passes_ok (hw'.clear (·.fail _) (fail_pending _ _))
  | ok _ t =>
    rw [hexecute] at hw'
    exact passes_ok hw'

/-- Whether what is due next is the same, whether it is an event or a change. -/
def TickYields (r : Event × Engine γ ⊕ Engine γ) (r' : Event × Watched γ ⊕ Watched γ) : Prop :=
  Sum.LiftRel Yields (fun s w => w.Watches s) r r'

/-- **What is due.**  A question that is due can be put in words, and whatever is done fails no
    check. -/
theorem tick_passes (hw : w.Watches s) : (tick w).Passes (TickYields s.tick) := by
  unfold tick Engine.tick
  rw [hw.engine]
  split
  · exact passes_ok (.inl ⟨rfl, hw.change (fun s => { s with errors := [] }) rfl⟩)
  have hpending := hw.pending
  cases hquestion : w.question with
  | some q =>
    -- A question is closed as soon as its last variable has a value, so there is one to ask for.
    have hopen : q.Open := hw.isOpen q hquestion
    rw [hquestion] at hpending
    rw [hpending]
    dsimp only [Option.map_some]
    rw [hopen.prompt_eq]
    exact passes_ok (.inl ⟨rfl, hw⟩)
  | none =>
    rw [hquestion] at hpending
    rw [hpending]
    dsimp only [Option.map_none]
    cases s.direct with
    | some d =>
      have hw' : (w.change fun s => { s with direct := none }).Watches { s with direct := none } :=
        hw.change _ rfl
      rw [hpending] at hw'
      exact (carryOut_passes d hw').bind fun w' hw' => passes_ok (.inr hw')
    | none =>
      cases s.mode with
      | running => exact (advance_passes hw).bind fun r hr => passes_ok (.inr hr.2)
      | paused => exact passes_ok (.inl ⟨rfl, hw⟩)
      | prompt | loading | loadFailed => exact passes_ok (.inl ⟨rfl, hw⟩)

/-- Working within a budget fails no check, however large the budget is. -/
theorem poll_passes (budget : Nat) (hw : w.Watches s) :
    (poll budget w).Passes (Yields (Engine.poll budget s)) := by
  induction budget generalizing w s with
  | zero => exact passes_ok ⟨rfl, hw⟩
  | succ budget ih =>
    refine (tick_passes hw).bind fun r hr => ?_
    unfold Engine.poll
    generalize s.tick = r' at hr
    cases hr with
    | inl h => exact passes_ok h
    | inr h => exact ih h

end Asserting

end LineBasic
