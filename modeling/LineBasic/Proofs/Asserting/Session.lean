import LineBasic.Engine.Debug
import LineBasic.Proofs.Asserting.Lint
import LineBasic.Proofs.Asserting.Run
import LineBasic.Proofs.Asserting.Statement
import LineBasic.Proofs.Engine.Answer
import LineBasic.Proofs.Engine.Consistent
import LineBasic.Proofs.Engine.Muted
import LineBasic.Proofs.Engine.Operation
import LineBasic.Proofs.Engine.Request

namespace LineBasic

open Engine

/-!
# Sessions with assertions

All that can be asked of an engine, with every check on the way.

* `Engine.replies` -- what some operations answer;
* `takeAnswers`, `answer`, `enter`, `interrupt`, `stepRun`, `exitRun`, `obey` -- what is asked of an
  engine;
* `respond`, `operate`, `run` -- acts, operations and sequences of operations;
* `respond_passes`, `operate_passes`, `run_passes` -- no check fails, and the same is answered.
-/

variable {γ : Type}

/-- The answers to some operations. -/
def Engine.replies [RandomSource γ] (s : Engine γ) : List (Operation γ) → List Reply
  | [] => []
  | op :: ops => (s.operate op).1 :: (s.operate op).2.replies ops

namespace Asserting

open Watched

/-! ### Program edits -/

/-- Stores a line, under a number that lines can have. -/
def insert (p : Listing) (l : Line) : Asserting Listing := do
  insist (1 ≤ l.number ∧ l.number ≤ LineNumber.last) .badNumber
  return p.insert l

/-- Deletes a line. -/
def delete (n : Nat) (w : Watched γ) : Asserting (Watched γ) := do
  if w.engine.mode = .paused then return w.change (·.report Cause.deleteWhileDebugging.diagnostic)
  else if w.engine.listing.contains n then
    return w.change fun s =>
      { s with listing := s.listing.erase n, breakpoints := s.breakpoints.forget n }
  else if w.engine.isLoading then return w
  else
    let d ← (Cause.lineNotInProgram n).diagnostic.giveLine (some n)
    return w.clear (·.fail d)

/-- Does what an entry asks for. -/
def accept (source : String) (w : Watched γ) : Entry → Asserting (Watched γ)
  | .store n statement => do
    let w := w.change (·.traced ("store " ++ Text.ofNat n))
    let p ← insert w.engine.listing (.ofText n source statement)
    return w.change fun s => { s with listing := p }
  | .delete n => delete n (w.change (·.traced ("delete " ++ Text.ofNat n)))
  | .direct statement =>
    return w.change fun s =>
      { s.traced ("direct " ++ String.ofList (Text.trim source.toList)) with
        direct := some ⟨source, statement⟩ }

/-- Breaks off a wait for `INPUT`, or else a run. -/
def interrupt (w : Watched γ) : Asserting (Watched γ) := do
  if w.question.isSome then return w.clear (·.fail Cause.inputAborted.diagnostic)
  else if w.engine.mode = .running then
    let d ← atCursor w.engine .interrupted
    return w.clear (·.fail d)
  else return w

variable [RandomSource γ]

/-! ### Answers to `INPUT` -/

/-- Evaluates an expression that may fail to have a value. -/
def attempt (e : Expr) (w : Watched γ) : Asserting (Option Int16 × Watched γ) := do
  match ← evaluating (eval e) w with
  | (.ok n, w) => return (some n, w)
  | (.error _, w) => return (none, w)

/-- The value of an answer. -/
def answerValue (answer : String) (w : Watched γ) : Asserting (Option Int16 × Watched γ) := do
  match ← (do parseExpr (← scan answer) : Attempt Expr).run with
  | .ok e => attempt e w
  | .error _ => return (none, w)

/-- Gives the variables of a question the values of answers, one after the other.  The report of a
    bad answer is told the line of the `INPUT`, if it has one. -/
def takeAnswers (q : Question) (w : Watched γ) :
    List (List Char) → Asserting (Option (Question × List (List Char)) × Watched γ)
  | [] => return (some (q, []), w)
  | answer :: answers => do
    if q.answered < q.names.length then
      let answer := String.ofList (Text.trim answer)
      match ← answerValue answer w with
      | (some n, w) =>
        let x ← q.next
        takeAnswers { q with answered := q.answered + 1 } (w.change (·.assign x n)) answers
      | (none, w) =>
        let d := (Cause.invalidInput answer).diagnostic
        match q.line with
        | some n =>
          let d ← d.giveLine (some n)
          return (none, w.clear (·.fail d))
        | none => return (none, w.clear (·.fail d))
    else return (some (q, answer :: answers), w)

/-- Asks for what has no value yet, or else lets the run go on. -/
def settle (q : Question) (spare : List (List Char)) (w : Watched γ) : Asserting (Watched γ) := do
  let w := if spare = [] then w else w.change (·.emit (.notice Cause.excessInput.diagnostic))
  if q.answered < q.names.length then return w.pose q
  else if q.line.isSome && w.engine.mode = .running then return (← finishLine w).2
  else return w

/-- Takes a line of answers. -/
def answer (q : Question) (text : String) (w : Watched γ) : Asserting (Watched γ) := do
  let answers := Text.split (· == ',') (Text.trimEnd text.toList)
  match ← takeAnswers q (w.clear fun s => { s with pending := none }) answers with
  | (none, w) => return w
  | (some (q, spare), w) => settle q spare w

/-- Takes a line, and says whether it was more than space. -/
def enter (text : String) (w : Watched γ) : Asserting (Bool × Watched γ) := do
  let w := w.change counted
  match w.question with
  | some q => return (true, ← answer q text w)
  | none =>
    let source := trimmed text
    if Text.allSpace source.toList then return (false, w)
    else
      match ← (entryOf source).run with
      | .error d => return (true, w.clear (·.fail d))
      | .ok entry =>
        if w.engine.mode = .loadFailed then return (true, w)
        else return (true, ← accept source w entry)

/-! ### Requests -/

/-- What becomes of a request. -/
def outcome : EStateM.Result Cause (Engine γ) Unit → Except Cause Unit × Engine γ
  | .ok _ s => (.ok (), s)
  | .error cause s => (.error cause, s)

/-- A request that checks nothing and has nothing to do with the question. -/
def grant (request : Request γ Unit) (w : Watched γ) : Except Cause Unit × Watched γ :=
  ((outcome (request w.engine)).1, w.change fun s => (outcome (request s)).2)

/-- Whether a statement can be carried out as a single step.  The reports of a condition without a
    value are made and thrown away. -/
def checkStep : Statement → Watched γ → Asserting (Except Cause Unit × Watched γ)
  | .cond _ lhs relation rhs body, w => do
    if lhs.callsFunction || rhs.callsFunction then return (.ok (), w)
    else
      let (a, w) ← attempt lhs w
      let (b, w) ← attempt rhs w
      match a, b with
      | some a, some b => if relation.holds a b then checkStep body w else return (.ok (), w)
      | _, _ => return (.ok (), w)
  | statement, w => return grant (Engine.checkStep statement) w

omit [RandomSource γ] in
/-- Lets a suspended run go on for one line. -/
def letStep (s : Engine γ) : Engine γ :=
  { s with mode := .running, resume := true, stepping := true }

/-- Executes one line of the suspended run. -/
def stepRun (w : Watched γ) : Asserting (Except Cause Unit × Watched γ) := do
  if w.engine.mode = .paused then
    let (verdict, w) ← match w.engine.listing.get? w.engine.cursor with
      | some line => checkStep line.statement w
      | none => pure (.ok (), w)
    match verdict with
    | .ok _ => return (.ok (), w.change letStep)
    | .error cause => return (.error cause, w)
  else return (.error (.notDebugging "step"), w)

omit [RandomSource γ] in
/-- Gives up the suspended run. -/
def exitRun (w : Watched γ) : Except Cause Unit × Watched γ :=
  if w.engine.mode = .paused then (.ok (), w.clear (·.stop)) else (.error (.notDebugging "exit"), w)

omit [RandomSource γ] in
/-- Carries out a request; a refusal is an error to be collected. -/
def perform (r : Except Cause Unit × Watched γ) : Watched γ :=
  match r.1 with
  | .ok _ => r.2
  | .error cause => r.2.change (·.report cause.diagnostic)

/-- Carries out a command. -/
def obey (w : Watched γ) : Command → Asserting (Watched γ)
  | .setBreakpoint n => return perform (grant (setBreakpoint n) w)
  | .clearBreakpoint n => return perform (grant (clearBreakpoint n) w)
  | .resume => return perform (grant resumeRun w)
  | .step => return perform (← stepRun w)
  | .backtrace => return perform (grant showCalls w)
  | .exit => return perform (exitRun w)
  | .lint strict => do
    let found ← lint w.engine.listing strict
    return w.change (found.foldl fun s d => s.emit (.notice d))
  | c => return w.change (·.obey c)

/-! ### Operations -/

omit [RandomSource γ] in
/-- The reply to a request. -/
def reply (r : Except Cause Unit × Watched γ) : Reply × Watched γ :=
  match r.1 with
  | .ok _ => (.done, r.2)
  | .error cause => (.refused cause, r.2)

/-- The answer to an act. -/
def respond (w : Watched γ) : Act γ → Asserting (Reply × Watched γ)
  | .enter text => do
    let (more, w) ← enter text w
    return (.taken more, w)
  | .advance => do
    let (progress, w) ← advance w
    return (.progress progress, w)
  | .interrupt => return (.done, ← interrupt w)
  | .command c => return (.done, ← obey w c)
  | .resume => return reply (grant resumeRun w)
  | .step => return reply (← stepRun w)
  | .exit => return reply (exitRun w)
  | .backtrace => return reply (grant showCalls w)
  | .setBreakpoint n => return reply (grant (setBreakpoint n) w)
  | .clearBreakpoint n => return reply (grant (clearBreakpoint n) w)
  | .beginLoad => return (.done, w.clear (·.beginLoad))
  | .endLoad => return (.loaded w.engine.endLoad.1, w.change (·.endLoad.2))
  | .reseed generator => return (.done, w.change (·.reseed generator))

/-- The answer to an operation. -/
def operate (w : Watched γ) : Operation γ → Asserting (Reply × Watched γ)
  | .poll budget => do
    let (event, w) ← poll budget w
    return (.event event, w)
  | .act a => respond w a

/-- The answers to some operations. -/
def run (w : Watched γ) : List (Operation γ) → Asserting (List Reply × Watched γ)
  | [] => return ([], w)
  | op :: ops => do
    let (reply, w) ← operate w op
    let (replies, w) ← run w ops
    return (reply :: replies, w)

/-! ### No check fails -/

variable {w : Watched γ} {s : Engine γ}

/-- A line whose number is in range can be stored. -/
theorem insert_eq {p : Listing} {l : Line} (h : 1 ≤ l.number ∧ l.number ≤ LineNumber.last) :
    insert p l = .ok (p.insert l) := by
  rw [insert, insist_of h]
  rfl

omit [RandomSource γ] in
/-- Deleting a line fails no check. -/
theorem delete_passes (n : Nat) (hw : w.Watches s) :
    (delete n w).Passes (·.Watches (s.delete n)) := by
  unfold delete Engine.delete
  rw [hw.engine]
  split
  · exact passes_ok (hw.change (·.report _) rfl)
  split
  · exact passes_ok (hw.change (fun s =>
      { s with listing := s.listing.erase n, breakpoints := s.breakpoints.forget n }) rfl)
  split
  · exact passes_ok hw
  · exact passes_ok (hw.clear (·.fail _) (fail_pending _ _))

omit [RandomSource γ] in
/-- Entries whose numbers lines can have are accepted. -/
theorem accept_passes (source : String) {entry : Entry} (hw : w.Watches s)
    (hentry : ∀ n statement, entry = .store n statement → 1 ≤ n ∧ n ≤ LineNumber.last) :
    (accept source w entry).Passes (·.Watches (s.accept source entry)) := by
  cases entry with
  | store n statement =>
    have hw' := hw.change (·.traced ("store " ++ Text.ofNat n)) (traced_pending _ _)
    unfold accept Engine.accept
    dsimp only
    rw [hw'.engine, insert_eq (hentry n statement rfl)]
    exact passes_ok (hw'.change (fun s => { s with listing := _ }) rfl)
  | delete n => exact delete_passes n (hw.change (·.traced _) (traced_pending _ _))
  | direct statement =>
    exact passes_ok (hw.change (fun s => { s.traced _ with direct := some ⟨source, statement⟩ })
      (traced_pending _ _))

omit [RandomSource γ] in
/-- Interrupting fails no check, whether or not a question is pending. -/
theorem interrupt_passes (hw : w.Watches s) : (interrupt w).Passes (·.Watches s.interrupt) := by
  unfold interrupt Engine.interrupt
  rw [hw.isSome_question, hw.engine]
  split
  · exact passes_ok (hw.clear (·.fail _) (fail_pending _ _))
  split
  · rw [atCursor_eq]
    exact passes_ok (hw.clear (·.fail _) (fail_pending _ _))
  · exact passes_ok hw

/-- Evaluating an answer fails no check. -/
theorem attempt_passes (e : Expr) (hw : w.Watches s) :
    (attempt e w).Passes (Yields (s.attempt e)) := by
  refine Passes.bind_yields (evaluating_follows (eval_follows e) w s hw) fun w' hw' => ?_
  unfold Engine.attempt
  cases heval : Engine.evaluating e.eval s with
  | ok n t =>
    rw [heval] at hw'
    exact passes_ok ⟨rfl, hw'⟩
  | error fault t =>
    rw [heval] at hw'
    exact passes_ok ⟨rfl, hw'⟩

/-- Reading and evaluating an answer fails no check. -/
theorem answerValue_passes (answer : String) (hw : w.Watches s) :
    (answerValue answer w).Passes (Yields (s.answerValue answer)) := by
  unfold answerValue Engine.answerValue
  rw [parseExpr_scanned]
  cases Token.scan answer with
  | error d => exact passes_ok ⟨rfl, hw⟩
  | ok tokens =>
    dsimp only
    have hread : (Except.ok tokens >>= fun ts => (Expr.ofTokens ts).mapError Fault.diagnostic) =
        (Expr.ofTokens tokens).mapError Fault.diagnostic := rfl
    rw [hread]
    cases Expr.ofTokens tokens with
    | error => exact passes_ok ⟨rfl, hw⟩
    | ok e => exact attempt_passes e hw

/-- Whether the same answers are left over, and the question goes on with the same variables, if it
    does. -/
structure TakesYield (line : Option Nat) (p : Option (List Letter × List (List Char)) × Engine γ)
    (r : Option (Question × List (List Char)) × Watched γ) : Prop where
  left : p.1 = r.1.map fun (q, spare) => (q.inquiry.awaiting, spare)
  line : ∀ q spare, r.1 = some (q, spare) → q.line = line
  watches : r.2.Watches p.2

/-- Taking answers fails no check: as long as there is an answer for it, the next variable is in its
    list. -/
theorem takeAnswers_passes (answers : List (List Char)) (q : Question) (hw : w.Watches s) :
    (takeAnswers q w answers).Passes
      (TakesYield q.line (Engine.takeAnswers q.line s (q.names.drop q.answered) answers)) := by
  -- An answer moves the question on by one variable, where the library takes that variable from its
  -- list.
  induction answers generalizing q w s with
  | nil =>
    have hleft : Engine.takeAnswers q.line s (q.names.drop q.answered) [] =
        (some (q.names.drop q.answered, []), s) := by
      cases q.names.drop q.answered <;> rfl
    rw [hleft]
    exact passes_ok ⟨rfl, by simp +contextual, hw⟩
  | cons answer answers ih =>
    unfold takeAnswers
    split
    next h =>
      have hdrop : q.names.drop q.answered = q.names[q.answered] :: q.names.drop (q.answered + 1) :=
        List.drop_eq_getElem_cons h
      rw [hdrop, Engine.takeAnswers]
      refine (answerValue_passes _ hw).bind_yields fun w' hw' => ?_
      generalize s.answerValue _ = r at hw' ⊢
      obtain ⟨value, t⟩ := r
      cases value with
      | some n =>
        dsimp only
        rw [Question.Open.next_eq h]
        exact ih { q with answered := q.answered + 1 }
          (hw'.change (·.assign q.names[q.answered] n) rfl)
      | none =>
        dsimp only
        cases q.line with
        | some k => exact passes_ok ⟨rfl, by simp, hw'.clear (·.fail _) (fail_pending _ _)⟩
        | none => exact passes_ok ⟨rfl, by simp, hw'.clear (·.fail _) (fail_pending _ _)⟩
    next h =>
      have hnil : q.names.drop q.answered = [] := List.drop_eq_nil_of_le (Nat.le_of_not_lt h)
      rw [hnil, Engine.takeAnswers]
      exact passes_ok ⟨by simp [Question.inquiry, hnil], by simp +contextual, hw⟩

omit [RandomSource γ] in
/-- What becomes of an engine whose question has been answered, but for what is left over. -/
def settled (q : Inquiry) (spare : List (List Char)) (s : Engine γ) : Engine γ :=
  let s := if spare = [] then s else s.emit (.notice Cause.excessInput.diagnostic)
  if q.awaiting ≠ [] then { s with pending := some q }
  else if q.line.isSome && s.mode = .running then s.finishLine.2
  else s

omit [RandomSource γ] in
/-- What is done once the answers have been taken fails no check. -/
theorem settle_passes (q : Question) (spare : List (List Char)) (hw : w.Watches s) :
    (settle q spare w).Passes (·.Watches (settled q.inquiry spare s)) := by
  have hopen : q.inquiry.awaiting ≠ [] ↔ q.Open := by simp [Question.inquiry, Question.Open]
  -- The warning about answers to spare touches nothing that is watched.
  have hnoticed :
      (if spare = [] then w else w.change (·.emit (.notice Cause.excessInput.diagnostic))).Watches
      (if spare = [] then s else s.emit (.notice Cause.excessInput.diagnostic)) := by
    split
    · exact hw
    · exact hw.change (·.emit _) rfl
  unfold settle settled
  dsimp only
  generalize (if spare = [] then s else s.emit _) = t at hnoticed ⊢
  generalize (if spare = [] then w else _) = w' at hnoticed ⊢
  rw [hnoticed.engine]
  split
  next h =>
    rw [if_pos (hopen.2 h)]
    exact passes_ok (hnoticed.pose h)
  next h =>
    rw [if_neg (mt hopen.1 h)]
    split
    next hgoes =>
      rw [if_pos (show (q.inquiry.line.isSome && decide (t.mode = .running)) = true from hgoes)]
      exact (finishLine_passes hnoticed).bind_yields fun w hw => passes_ok hw
    next hgoes =>
      rw [if_neg (show ¬ (q.inquiry.line.isSome && decide (t.mode = .running)) = true from hgoes)]
      exact passes_ok hnoticed

/-- A line of answers first takes the answers and then settles the question. -/
theorem answer_eq (q : Inquiry) (text : String) :
    s.answer q text =
      match Engine.takeAnswers q.line { s with pending := none } q.awaiting
        (Text.split (· == ',') (Text.trimEnd text.toList)) with
      | (none, s) => s
      | (some (awaiting, spare), s) => settled { q with awaiting } spare s :=
  rfl

/-- Answering a question with a line fails no check. -/
theorem answer_passes (q : Question) (text : String) (hw : w.Watches s) :
    (answer q text w).Passes (·.Watches (s.answer q.inquiry text)) := by
  have hw' := hw.clear (fun s => { s with pending := none }) rfl
  refine (takeAnswers_passes _ q hw').bind ?_
  rintro ⟨rest, w'⟩ ⟨hleft, hline, hw'⟩
  rw [answer_eq]
  dsimp only [Question.inquiry]
  generalize Engine.takeAnswers q.line { s with pending := none } _ _ = taken at hleft hw' ⊢
  obtain ⟨left, t⟩ := taken
  obtain rfl : left = _ := hleft
  cases rest with
  | none => exact passes_ok hw'
  | some rest =>
    obtain ⟨q', spare⟩ := rest
    have hsettle := settle_passes q' spare hw'
    rw [Question.inquiry, hline q' spare rfl] at hsettle
    exact hsettle

/-- **Entries.**  Entering a text fails no check, whatever the text is and whatever the engine is
    doing. -/
theorem enter_passes (text : String) (hw : w.Watches s) :
    (enter text w).Passes (Yields (s.enter text)) := by
  have hw' : (w.change counted).Watches s.counted := hw.change counted rfl
  have hquestion : (w.change counted).question = w.question := rfl
  have hpending := hw.pending
  unfold enter
  dsimp only
  rw [hquestion]
  -- An open question takes the text as its answers, whatever it says; otherwise it is an entry.
  cases hq : w.question with
  | some q =>
    rw [hq] at hpending
    rw [enter_of_pending hpending]
    exact (answer_passes q text hw').bind fun w h => passes_ok ⟨rfl, h⟩
  | none =>
    rw [hq] at hpending
    show Passes _ fun r : Bool × Watched γ => r.1 = (s.enter text).1 ∧ r.2.Watches (s.enter text).2
    rw [enter_fst, enter_of_pending_none hpending, hpending, entryOf_eq]
    dsimp only [Option.map_none, Option.isSome_none, Bool.false_or]
    split
    next hspace => exact passes_ok ⟨by rw [hspace]; rfl, hw'⟩
    next hspace =>
      rw [Bool.not_eq_true] at hspace
      rw [hspace]
      cases hentry : Entry.ofText (trimmed text) with
      | error d => exact passes_ok ⟨rfl, hw'.clear (·.fail d) (fail_pending _ _)⟩
      | ok entry =>
        show Passes (if (w.change counted).engine.mode = .loadFailed then _ else _) _
        rw [hw'.engine]
        by_cases hmode : s.mode = .loadFailed
        · rw [if_pos (show s.counted.mode = .loadFailed from hmode)]
          exact passes_ok ⟨rfl, by simpa [hmode] using hw'⟩
        · rw [if_neg (show ¬ s.counted.mode = .loadFailed from hmode)]
          -- Storing insists on the range of the number, and every number that has been read is in
          -- it.
          have hrange : ∀ n statement, entry = .store n statement → 1 ≤ n ∧ n ≤ LineNumber.last :=
            fun n statement h => Entry.number_range (h ▸ hentry)
          exact (accept_passes _ hw' hrange).bind fun w h =>
            passes_ok ⟨rfl, by simpa [hmode] using h⟩

/-! ### No request fails a check -/

section Requests

variable {request : Request γ Unit} {r : Except Cause Unit × Watched γ}

omit [RandomSource γ]

/-- Whether a request has nothing to do with the question. -/
def SparesQuestion (request : Request γ Unit) : Prop :=
  ∀ s, (outcome (request s)).2.pending = s.pending

/-- A request that leaves the pending question alone can be granted on both sides. -/
theorem SparesQuestion.grant (h : SparesQuestion request) (hw : w.Watches s) :
    Yields (outcome (request s)) (grant request w) := by
  obtain rfl := hw.engine
  exact ⟨rfl, hw.change (fun s => (outcome (request s)).2) (h _)⟩

/-- What a request comes to as a command, from what it comes to on both sides. -/
theorem Watched.Yields.perform (h : Yields (outcome (request s)) r) :
    (perform r).Watches (s.perform request) := by
  obtain ⟨verdict, w⟩ := r
  obtain ⟨rfl : verdict = _, hw : w.Watches _⟩ := h
  unfold Asserting.perform Engine.perform
  cases hrequest : request s with
  | ok _ t =>
    rw [hrequest] at hw
    exact hw
  | error cause t =>
    rw [hrequest] at hw
    exact hw.change (·.report cause.diagnostic) rfl

/-- What a request comes to when it is asked directly, from what it comes to on both sides. -/
theorem Watched.Yields.reply (h : Yields (outcome (request s)) r) :
    Yields (s.ask? request) (reply r) := by
  obtain ⟨verdict, w⟩ := r
  obtain ⟨rfl : verdict = _, hw : w.Watches _⟩ := h
  unfold Asserting.reply Engine.ask?
  cases hrequest : request s with
  | ok _ t =>
    rw [hrequest] at hw
    exact ⟨rfl, hw⟩
  | error cause t =>
    rw [hrequest] at hw
    exact ⟨rfl, hw⟩

/-- Going on with a run leaves the pending question alone. -/
theorem sparesQuestion_resumeRun : SparesQuestion (γ := γ) resumeRun := by
  intro s
  rw [resumeRun_eq]
  split <;> rfl

/-- Showing the open subroutines leaves the pending question alone. -/
theorem sparesQuestion_showCalls : SparesQuestion (γ := γ) showCalls := by
  intro s
  rw [showCalls_eq]
  split <;> rfl

/-- Setting a breakpoint leaves the pending question alone. -/
theorem sparesQuestion_setBreakpoint (n : Nat) : SparesQuestion (γ := γ) (setBreakpoint n) := by
  intro s
  rcases setBreakpoint_cases s n with ⟨b, -, h⟩ | ⟨cause, h⟩ <;> rw [h] <;> rfl

/-- Removing a breakpoint leaves the pending question alone. -/
theorem sparesQuestion_clearBreakpoint (n : Nat) : SparesQuestion (γ := γ) (clearBreakpoint n) := by
  intro s
  rcases clearBreakpoint_cases s n with ⟨b, -, h⟩ | ⟨cause, h⟩ <;> rw [h] <;> rfl

/-- Giving up a suspended run comes to the same on both sides. -/
theorem exitRun_yields (hw : w.Watches s) : Yields (outcome (Engine.exitRun s)) (exitRun w) := by
  rw [exitRun_eq, exitRun, hw.engine]
  split
  · exact ⟨rfl, hw.clear (·.stop) (stop_pending _)⟩
  · exact ⟨rfl, hw⟩

end Requests

/-- Looking ahead at a statement leaves the pending question alone. -/
theorem sparesQuestion_checkStep (statement : Statement) :
    SparesQuestion (γ := γ) (Engine.checkStep statement) := by
  intro s
  rcases checkStep_cases s statement with h | ⟨cause, h⟩ <;> rw [h] <;> rfl

/-- Looking ahead makes no report that is told its place twice, also where the reports are thrown
    away. -/
theorem checkStep_passes (statement : Statement) (hw : w.Watches s) :
    (checkStep statement w).Passes (Yields (outcome (Engine.checkStep statement s))) := by
  induction statement generalizing w s with
  | cond span lhs relation rhs body ih =>
    rw [checkStep, checkStep_cond]
    split
    · exact passes_ok ⟨rfl, hw⟩
    -- What the two sides report is thrown away, and only the engine is carried over.
    refine (attempt_passes lhs hw).bind_yields fun w₁ hw₁ => ?_
    refine (attempt_passes rhs hw₁).bind_yields fun w₂ hw₂ => ?_
    dsimp only
    generalize (s.attempt lhs).2.attempt rhs = t at hw₂ ⊢
    generalize (s.attempt lhs).1 = a
    obtain ⟨b, t⟩ := t
    cases a with
    | none => exact passes_ok ⟨rfl, hw₂⟩
    | some a =>
      cases b with
      | none => exact passes_ok ⟨rfl, hw₂⟩
      | some b =>
        dsimp only
        split
        · exact ih hw₂
        · exact passes_ok ⟨rfl, hw₂⟩
  | clear | halt | input | assign | list | print | remark | run | goto | gosub | ret =>
    exact passes_ok ((sparesQuestion_checkStep _).grant hw)

/-- Asking for a single step fails no check. -/
theorem stepRun_passes (hw : w.Watches s) :
    (stepRun w).Passes (Yields (outcome (Engine.stepRun s))) := by
  rw [stepRun_eq, stepRun, hw.engine]
  split
  · cases s.listing.get? s.cursor with
    | none => exact passes_ok ⟨rfl, hw.change letStep rfl⟩
    | some line =>
      refine (checkStep_passes line.statement hw).bind_yields fun w' hw' => ?_
      dsimp only [Option.map_some]
      cases hcheck : Engine.checkStep line.statement s with
      | ok _ t =>
        rw [hcheck] at hw'
        exact passes_ok ⟨rfl, hw'.change letStep rfl⟩
      | error cause t =>
        rw [hcheck] at hw'
        exact passes_ok ⟨rfl, hw'⟩
  · exact passes_ok ⟨rfl, hw⟩

omit [RandomSource γ] in
/-- Showing what the linter has found leaves the pending question alone. -/
theorem foldl_notice_pending (found : List Diagnostic) (s : Engine γ) :
    (found.foldl (fun s d => s.emit (.notice d)) s).pending = s.pending := by
  induction found generalizing s with
  | nil => rfl
  | cons d found ih => exact ih (s.emit (.notice d))

/-- **Commands.**  Obeying a command fails no check. -/
theorem obey_passes (c : Command) (hw : w.Watches s) :
    (obey w c).Passes (·.Watches (s.obey c)) := by
  cases c with
  | setBreakpoint n => exact passes_ok ((sparesQuestion_setBreakpoint n).grant hw).perform
  | clearBreakpoint n => exact passes_ok ((sparesQuestion_clearBreakpoint n).grant hw).perform
  | resume => exact passes_ok (sparesQuestion_resumeRun.grant hw).perform
  | step => exact (stepRun_passes hw).bind fun r hr => passes_ok hr.perform
  | backtrace => exact passes_ok (sparesQuestion_showCalls.grant hw).perform
  | exit => exact passes_ok (exitRun_yields hw).perform
  | lint strict =>
    unfold obey
    dsimp only
    rw [hw.engine, lint_eq]
    exact passes_ok (hw.change ((s.listing.lint strict).foldl fun s d => s.emit (.notice d))
      (foldl_notice_pending _ s))
  | option switch value =>
    cases value <;> exact passes_ok (hw.change (·.obey (.option switch _)) rfl)
  | listBreakpoints => exact passes_ok (hw.change (·.obey .listBreakpoints) rfl)
  | clearBreakpoints => exact passes_ok (hw.change (·.obey .clearBreakpoints) rfl)
  | showVars => exact passes_ok (hw.change (·.obey .showVars) rfl)
  | help | shortHelp | quit | load | save => exact passes_ok (hw.change (·.obey _) rfl)

/-! ### No operation fails a check -/

/-- **Acts.**  No act fails a check, and each is answered as it is without checks. -/
theorem respond_passes (a : Act γ) (hw : w.Watches s) :
    (respond w a).Passes (Yields (s.respond a)) := by
  cases a with
  | enter text => exact (enter_passes text hw).bind_yields fun w hw => passes_ok ⟨rfl, hw⟩
  | advance => exact (advance_passes hw).bind_yields fun w hw => passes_ok ⟨rfl, hw⟩
  | interrupt => exact (interrupt_passes hw).bind fun w hw => passes_ok ⟨rfl, hw⟩
  | command c => exact (obey_passes c hw).bind fun w hw => passes_ok ⟨rfl, hw⟩
  | resume => exact passes_ok (sparesQuestion_resumeRun.grant hw).reply
  | step => exact (stepRun_passes hw).bind fun r hr => passes_ok hr.reply
  | exit => exact passes_ok (exitRun_yields hw).reply
  | backtrace => exact passes_ok (sparesQuestion_showCalls.grant hw).reply
  | setBreakpoint n => exact passes_ok ((sparesQuestion_setBreakpoint n).grant hw).reply
  | clearBreakpoint n => exact passes_ok ((sparesQuestion_clearBreakpoint n).grant hw).reply
  | beginLoad => exact passes_ok ⟨rfl, hw.clear (·.beginLoad) (stop_pending _)⟩
  | endLoad =>
    exact passes_ok ⟨congrArg (Reply.loaded ·.endLoad.1) hw.engine, hw.change (·.endLoad.2) rfl⟩
  | reseed generator => exact passes_ok ⟨rfl, hw.change (·.reseed generator) rfl⟩

/-- One operation, whatever it is, fails no check and is answered as without checks. -/
theorem operate_passes (op : Operation γ) (hw : w.Watches s) :
    (operate w op).Passes (Yields (s.operate op)) := by
  cases op with
  | poll budget => exact (poll_passes budget hw).bind_yields fun w hw => passes_ok ⟨rfl, hw⟩
  | act a => exact respond_passes a hw

/-- **Sessions.**  No operation of a sequence fails a check, and each is answered as it is without
    checks. -/
theorem run_passes (ops : List (Operation γ)) (hw : w.Watches s) :
    (run w ops).Passes (Yields (s.replies ops, s.run ops)) := by
  induction ops generalizing w s with
  | nil => exact passes_ok ⟨rfl, hw⟩
  | cons op ops ih =>
    exact (operate_passes op hw).bind_yields fun w₁ hw₁ => (ih hw₁).bind_yields fun w₂ hw₂ =>
      passes_ok ⟨rfl, hw₂⟩

omit [RandomSource γ] in
/-- An engine that has just been started is watched without a question. -/
theorem watches_start (generator : γ) : Watches ⟨start generator, none⟩ (start generator) :=
  ⟨rfl, rfl, by simp⟩

end Asserting

/-- **Main result.**  Nothing that is taken for granted ever fails to hold.  With every assumption
    checked, the scanner, the readers of what it gives, the linter and any operations one after the
    other come upon no breach, whatever the texts, and give what they give without checks; and a
    question that is pending then can be put in words. -/
theorem assertions_hold [RandomSource γ] :
    (∀ text, (Asserting.scan text).run = .ok (Token.scan text)) ∧
    (∀ text, (do Asserting.parse (← Asserting.scan text) : Attempt Entry).run =
      .ok (Token.scan text >>= Entry.ofTokens)) ∧
    (∀ text, (do Asserting.parseExpr (← Asserting.scan text) : Attempt Expr).run =
      .ok (Token.scan text >>= fun tokens => (Expr.ofTokens tokens).mapError Fault.diagnostic)) ∧
    (∀ text, (Asserting.entryOf text).run = .ok (Entry.ofText text)) ∧
    (∀ p strict, Asserting.lint p strict = .ok (p.lint strict)) ∧
    ∀ (generator : γ) ops, ∃ w,
      Asserting.run ⟨start generator, none⟩ ops = .ok ((start generator).replies ops, w) ∧
        w.Watches ((start generator).run ops) ∧
        ∀ q ∈ w.question, q.prompt = .ok q.inquiry.prompt := by
  refine ⟨Asserting.scan_eq, Asserting.parse_scanned, Asserting.parseExpr_scanned,
    Asserting.entryOf_eq, Asserting.lint_eq, fun generator ops => ?_⟩
  obtain ⟨⟨replies, w⟩, hrun, rfl : replies = _, hw⟩ :=
    Asserting.run_passes ops (Asserting.watches_start generator)
  exact ⟨w, hrun, hw, fun q hq => Asserting.Question.Open.prompt_eq (hw.isOpen q hq)⟩

end LineBasic
