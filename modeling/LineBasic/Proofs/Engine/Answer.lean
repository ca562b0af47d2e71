import LineBasic.Engine.Enter

namespace LineBasic.Engine

/-!
# Answers

What a line of answers to `INPUT` does to the engine.  The machine alone settles how the answers are
read.

* `takeAnswers_uniform` -- taking answers changes the machine, or fails;
* `Reading`, `Reading.apply_taken`, `answer_uniform` -- what is read from a line of answers, and
  what the engine makes of it;
* `IsAnswered` -- whether all the answers that are looked at have values;
* `Answered`, `answer_cases` -- the cases of answering a question;
* `enter_of_pending`, `enter_of_pending_none` -- what entering a text comes to, with a question and
  without one.
-/

variable {γ : Type} [RandomSource γ]

/-! ### Reading answers -/

/-- What an expression is worth as an answer, and the machine afterwards, depend on the machine
    alone. -/
theorem attempt_uniform (m : Machine γ) (e : Expr) :
    ∃ r m', ∀ s : Engine γ, s.machine = m → s.attempt e = (r, { s with machine := m' }) := by
  cases he : e.eval m with
  | ok n m' => exact ⟨some n, m', fun s hm => by simp only [attempt, evaluating, hm, he]⟩
  | error fault m' => exact ⟨none, m', fun s hm => by simp only [attempt, evaluating, hm, he]⟩

/-- What an answer is worth, and the machine afterwards, depend on the machine alone. -/
theorem answerValue_uniform (m : Machine γ) (answer : String) :
    ∃ r m', ∀ s : Engine γ, s.machine = m →
      s.answerValue answer = (r, { s with machine := m' }) := by
  unfold answerValue
  split
  next => exact ⟨none, m, fun s hm => by rw [← hm]⟩
  next =>
    split
    next => exact ⟨none, m, fun s hm => by rw [← hm]⟩
    next => exact attempt_uniform m _

/-- Taking answers changes the machine, and fails at the first bad answer. -/
theorem takeAnswers_uniform (line : Option Nat) (m : Machine γ) (xs : List Letter)
    (answers : List (List Char)) :
    ∃ (r : Except Diagnostic (List Letter × List (List Char))) (m' : Machine γ),
      (∀ d, r = .error d → d.code = .invalidInput ∧ d.source = none) ∧
        ∀ s : Engine γ, s.machine = m → takeAnswers line s xs answers =
          match r with
          | .ok rest => (some rest, { s with machine := m' })
          | .error d => (none, { s with machine := m' }.fail d) := by
  induction xs generalizing m answers with
  | nil =>
    exact ⟨.ok ([], answers), m, by rintro _ ⟨⟩, fun s hm => by simp only [takeAnswers, ← hm]⟩
  | cons x xs ih =>
    cases answers with
    | nil =>
      exact ⟨.ok (x :: xs, []), m, by rintro _ ⟨⟩, fun s hm => by simp only [takeAnswers, ← hm]⟩
    | cons answer answers =>
      obtain ⟨value, m₁, hvalue⟩ := answerValue_uniform m (String.ofList (Text.trim answer))
      cases value with
      | none =>
        let d := (Cause.invalidInput (String.ofList (Text.trim answer))).diagnostic.atLine line
        refine ⟨.error d, m₁, fun d' hd => ?_, fun s hm => by rw [takeAnswers, hvalue s hm]⟩
        cases hd
        exact ⟨rfl, rfl⟩
      | some n =>
        -- A value that has been taken stays, whatever comes of the answers after it.
        obtain ⟨r, m₂, hcode, h⟩ := ih { m₁ with vars := m₁.vars.set x n } answers
        refine ⟨r, m₂, hcode, fun s hm => ?_⟩
        rw [takeAnswers, hvalue s hm]
        show takeAnswers line ({ s with machine := m₁ }.assign x n) xs answers = _
        rw [h _ rfl]
        rfl

/-- The answers in a text. -/
def answersIn (text : String) : List (List Char) := Text.split (· == ',') (Text.trimEnd text.toList)

/-- Whether the answers in a text have values, as far as they are asked for. -/
def IsAnswered (m : Machine γ) (q : Inquiry) (text : String) : Prop :=
  (takeAnswers q.line { machine := m } q.awaiting (answersIn text)).1.isSome

/-- Whether there are more answers in a text than are asked for. -/
def hasSpare (m : Machine γ) (q : Inquiry) (text : String) : Bool :=
  match (takeAnswers q.line { machine := m } q.awaiting (answersIn text)).1 with
  | some (_, spare) => spare ≠ []
  | none => false

/-- What is read from a line of answers. -/
inductive Reading (γ : Type) where
  /-- A bad answer. -/
  | bad (machine : Machine γ) (d : Diagnostic)
  /-- The variables that are still to get a value, and whether there were too many answers. -/
  | taken (machine : Machine γ) (awaiting : List Letter) (excess : Bool)

/-- Whether too many answers have been read. -/
def Reading.isExcess : Reading γ → Bool
  | bad .. => false
  | taken _ _ excess => excess

/-- What the engine makes of what is read. -/
def Reading.apply (q : Inquiry) (s : Engine γ) : Reading γ → Engine γ
  | bad machine d => { s with machine, pending := none }.fail d
  | taken machine awaiting excess =>
    let s := { s with machine, pending := none }
    let s := if excess then s.emit (.notice Cause.excessInput.diagnostic) else s
    if awaiting ≠ [] then { s with pending := some { q with awaiting } }
    else if q.line.isSome && s.mode = .running then s.finishLine.2
    else s

omit [RandomSource γ] in
/-- A warning about spare answers changes nothing but what has been written. -/
theorem Reading.apply_taken (q : Inquiry) (s : Engine γ) (machine : Machine γ)
    (awaiting : List Letter) (excess : Bool) :
    ∃ transcript, (Reading.taken machine awaiting excess).apply q s =
      if awaiting ≠ [] then { s with machine, transcript, pending := some { q with awaiting } }
      else if q.line.isSome && s.mode = .running then
        ({ s with machine, transcript, pending := none } : Engine γ).finishLine.2
      else { s with machine, transcript, pending := none } := by
  obtain ⟨transcript, hexcess⟩ : ∃ transcript,
      (if excess then ({ s with machine, pending := none } : Engine γ).emit
          (.notice Cause.excessInput.diagnostic) else { s with machine, pending := none }) =
        { s with machine, transcript, pending := none } := by
    split
    · exact ⟨_, rfl⟩
    · exact ⟨s.transcript, rfl⟩
  refine ⟨transcript, ?_⟩
  unfold Reading.apply
  dsimp only
  rw [hexcess]

/-- What is read is the same on all engines with a machine, and is bad only where an answer is. -/
theorem answer_uniform (m : Machine γ) (q : Inquiry) (text : String) :
    ∃ reading : Reading γ, reading.isExcess = hasSpare m q text ∧
      (∀ m' d, reading = .bad m' d → ¬ IsAnswered m q text ∧ d.code = .invalidInput ∧
        d.source = none) ∧ ∀ s : Engine γ, s.machine = m → s.answer q text = reading.apply q s := by
  -- The answers are read alike on all engines with the machine; what is left is to apply the
  -- reading.
  obtain ⟨r, m', hcode, h⟩ := takeAnswers_uniform q.line m q.awaiting (answersIn text)
  cases r with
  | error d =>
    refine ⟨.bad m' d, ?_, fun m'' d' hbad => ?_, fun s hm => ?_⟩
    · rw [hasSpare, h _ rfl]
      rfl
    · obtain ⟨rfl, rfl⟩ := Reading.bad.inj hbad
      refine ⟨fun hgood => ?_, hcode d rfl⟩
      rw [IsAnswered, h _ rfl] at hgood
      cases hgood
    · have hs := h { s with pending := none } hm
      rw [answersIn] at hs
      unfold answer
      dsimp only
      rw [hs]
      rfl
  | ok rest =>
    obtain ⟨awaiting, spare⟩ := rest
    refine ⟨.taken m' awaiting (spare ≠ []), ?_, by rintro _ _ ⟨⟩, fun s hm => ?_⟩
    · rw [hasSpare, h _ rfl]
      rfl
    have hs := h { s with pending := none } hm
    rw [answersIn] at hs
    unfold answer
    dsimp only
    rw [hs]
    by_cases hspare : spare = []
    · simp [Reading.apply, hspare]
    · simp [Reading.apply, hspare]

/-! ### Answering -/

/-- What answers to a question do, in each case. -/
inductive Answered (s : Engine γ) (q : Inquiry) (text : String) : Engine γ → Prop where
  /-- An answer is bad. -/
  | failed (machine : Machine γ) (d : Diagnostic) (hbad : ¬ IsAnswered s.machine q text)
      (hcode : d.code = .invalidInput) (hsource : d.source = none) :
      Answered s q text ({ s with machine, pending := none }.fail d)
  /-- More values are needed. -/
  | more (machine : Machine γ) (transcript : Transcript) (awaiting : List Letter) :
      Answered s q text { s with machine, transcript, pending := some { q with awaiting } }
  /-- The values of a program line are complete. -/
  | resumed (machine : Machine γ) (transcript : Transcript) (hline : q.line.isSome)
      (hmode : s.mode = .running) :
      Answered s q text ({ s with machine, transcript, pending := none }).finishLine.2
  /-- The values of a direct statement are complete. -/
  | finished (machine : Machine γ) (transcript : Transcript)
      (hdirect : ¬ (q.line.isSome ∧ s.mode = .running)) :
      Answered s q text { s with machine, transcript, pending := none }

/-- Answering a question with a line comes to one of the cases. -/
theorem answer_cases (s : Engine γ) (q : Inquiry) (text : String) :
    Answered s q text (s.answer q text) := by
  obtain ⟨reading, -, hbad, happly⟩ := answer_uniform s.machine q text
  rw [happly s rfl]
  cases reading with
  | bad machine d =>
    obtain ⟨hanswered, hcode, hsource⟩ := hbad machine d rfl
    exact .failed machine d hanswered hcode hsource
  | taken machine awaiting excess =>
    obtain ⟨transcript, htaken⟩ := Reading.apply_taken q s machine awaiting excess
    rw [htaken]
    split
    next => exact .more machine transcript awaiting
    next =>
      by_cases hline : q.line.isSome ∧ s.mode = .running
      · rw [if_pos (by simpa using hline)]
        exact .resumed machine transcript hline.1 hline.2
      · rw [if_neg (by simpa using hline)]
        exact .finished machine transcript hline

/-! ### Entering a text -/

/-- An engine after one more line of a file has been counted. -/
def counted (s : Engine γ) : Engine γ := { s with fileLine := s.fileLine.map (· + 1) }

/-- What is entered while a question is pending is taken for answers. -/
theorem enter_of_pending {s : Engine γ} {q : Inquiry} (hq : s.pending = some q) (text : String) :
    s.enter text = (true, s.counted.answer q text) := by
  unfold enter
  dsimp only
  split
  next q' hq' =>
    obtain rfl : q = q' := Option.some.inj (hq.symm.trans hq')
    rfl
  next hnone => simp [hq] at hnone

/-- A text that answers no question is counted, and then accepted or found fault with. -/
theorem enter_of_pending_none {s : Engine γ} (h : s.pending = none) (text : String) :
    (s.enter text).2 =
      if Text.allSpace (trimmed text).toList then s.counted
      else
        match Entry.ofText (trimmed text) with
        | .error d => s.counted.fail d
        | .ok entry =>
          if s.mode = .loadFailed then s.counted else s.counted.accept (trimmed text) entry := by
  unfold enter
  dsimp only
  split
  next q hq =>
    rw [h] at hq
    cases hq
  next =>
    by_cases hspace : Text.allSpace (trimmed text).toList
    · rw [if_pos hspace, if_pos hspace]
      rfl
    · rw [if_neg hspace, if_neg hspace]
      cases Entry.ofText (trimmed text) <;> rfl

end LineBasic.Engine
