import LineBasic.Proofs.Engine.Await

namespace LineBasic

open Engine

/-!
# Moves

What takes a program on, in a run in which much else may happen.

* `answersOf`, `reportsOf`, `outputOf` -- what can be seen of a run apart from the debugger;
* `Move`, `movesOf` -- the lines that are executed and the answers that are given, in order;
* `Engine.make`, `Engine.Plays` -- a run of nothing but moves, each in its turn;
* `Engine.Plays.unique` -- such a run is determined by its answers and by the number of its lines.
-/

variable {γ : Type} [RandomSource γ]

/-! ### What can be seen of a run -/

/-- What takes a program on. -/
inductive Move where
  /-- The line at the cursor is executed. -/
  | line
  /-- A question is answered. -/
  | answer (text : String)

/-- What is written when a run is suspended at a line. -/
def Engine.pauseNotice (s : Engine γ) (line : Line) : List Emission :=
  (if line.number ∈ s.breakpoints.lines then
    [.output ("Breakpoint: " ++ Text.ofNat line.number ++ "\n")] else []) ++
    [.output ("[" ++ line.source ++ "]\n")]

/-- The errors that an event reports. -/
def Engine.Event.reports : Event → List Diagnostic
  | .errors reports => reports
  | _ => []

namespace Moment

/-- The answer that is given in a moment. -/
def answer? : Moment γ → Option String
  | act _ (.enter text) => some text
  | _ => none

/-- The errors that are reported in a moment. -/
def reported : Moment γ → List Diagnostic
  | tick s =>
    match s.tick with
    | .inl (e, _) => e.reports
    | .inr _ => []
  | act _ _ => []

/-- What is written in a moment. -/
def written (m : Moment γ) : List Emission :=
  m.after.transcript.emissions.drop m.before.transcript.emissions.length

/-- Whether a run is suspended in a moment. -/
def pauses (m : Moment γ) : Bool := m.before.mode = .running && m.after.mode = .paused

/-- The move that is made in a moment. -/
def move? (m : Moment γ) : Option Move :=
  match m.answer? with
  | some text => some (.answer text)
  | none => m.executed?.map fun _ => .line

end Moment

/-- The answers that are given in some moments. -/
def answersOf (ms : List (Moment γ)) : List String := ms.filterMap Moment.answer?

/-- The errors that are reported in some moments. -/
def reportsOf (ms : List (Moment γ)) : List Diagnostic := ms.flatMap Moment.reported

/-- What is written in some moments, without what is written where a run is suspended. -/
def outputOf (ms : List (Moment γ)) : List Emission :=
  ms.flatMap fun m => if m.pauses then [] else m.written

/-- The moves that are made in some moments. -/
def movesOf (ms : List (Moment γ)) : List Move := ms.filterMap Moment.move?

/-! ### Moves -/

/-- Whether it is the turn of a move: questions have to be answered first. -/
def Move.IsDue (r : Engine γ) : Move → Prop
  | line => r.pending = none
  | answer _ => r.pending ≠ none

namespace Engine

/-- The engine after a move. -/
def make (r : Engine γ) : Move → Engine γ
  | .line => r.advance.2
  | .answer text => (r.enter text).2

/-- The engine after some moves. -/
def replay (r : Engine γ) (moves : List Move) : Engine γ := moves.foldl make r

/-- Whether each of some moves is made in its turn. -/
def Plays (r : Engine γ) : List Move → Prop
  | [] => True
  | mv :: moves => mv.IsDue r ∧ (r.make mv).Plays moves

/-- One more move may be made if it is its turn after the others. -/
theorem plays_snoc {r : Engine γ} {moves : List Move} {mv : Move} (h : r.Plays moves)
    (hmv : mv.IsDue (r.replay moves)) : r.Plays (moves ++ [mv]) := by
  induction moves generalizing r with
  | nil => exact ⟨hmv, trivial⟩
  | cons k moves ih => exact ⟨h.1, ih h.2 hmv⟩

end Engine

/-- The answers among some moves. -/
def answersAmong (moves : List Move) : List String :=
  moves.filterMap fun
    | .answer text => some text
    | .line => none

/-- How many of some moves execute lines. -/
def linesAmong (moves : List Move) : Nat :=
  moves.countP fun
    | .line => true
    | .answer _ => false

/-- **Moves are determined.**  The number of lines that are executed and the answers that are given
    say which moves are made, and in what order. -/
theorem Engine.Plays.unique {r : Engine γ} {moves moves' : List Move} (h : r.Plays moves)
    (h' : r.Plays moves') (hlines : linesAmong moves = linesAmong moves')
    (hanswers : answersAmong moves = answersAmong moves') : moves = moves' := by
  induction moves generalizing r moves' with
  | nil =>
    cases moves' with
    | nil => rfl
    | cons mv' moves' => cases mv' <;> simp [linesAmong, answersAmong] at hlines hanswers
  | cons mv moves ih =>
    cases moves' with
    | nil => cases mv <;> simp [linesAmong, answersAmong] at hlines hanswers
    | cons mv' moves' =>
      cases mv with
      | line =>
        cases mv' with
        | line =>
          -- Neither move is an answer, and the rest is determined likewise.
          have hrest := ih h.2 h'.2 (by simpa [linesAmong] using hlines)
            (by simpa [answersAmong] using hanswers)
          rw [hrest]
        -- A question cannot be both pending and not.
        | answer text' => exact absurd h.1 h'.1
      | answer text =>
        cases mv' with
        | line => exact absurd h'.1 h.1
        | answer text' =>
          have hsplit : text = text' ∧ answersAmong moves = answersAmong moves' := by
            simpa [answersAmong] using hanswers
          obtain ⟨rfl, hrest⟩ := hsplit
          rw [ih h.2 h'.2 (by simpa [linesAmong] using hlines) hrest]

/-! ### One moment more -/

section Snoc

variable (ms : List (Moment γ)) (m : Moment γ)

omit [RandomSource γ] in
/-- One more moment adds at most one move. -/
theorem movesOf_snoc : movesOf (ms ++ [m]) = movesOf ms ++ m.move?.toList := by
  unfold movesOf
  rw [List.filterMap_append]
  cases hmove : m.move? <;> simp [hmove]

omit [RandomSource γ] in
/-- One more moment adds at most one line to those that are executed. -/
theorem length_linesOf_snoc :
    (linesOf (ms ++ [m])).length = (linesOf ms).length + m.executed?.toList.length := by
  unfold linesOf
  rw [List.filterMap_append, List.length_append]
  cases hexecuted : m.executed? <;> simp [hexecuted]

/-- One more moment adds the errors that are reported in it. -/
theorem reportsOf_snoc : reportsOf (ms ++ [m]) = reportsOf ms ++ m.reported := by
  simp [reportsOf]

/-- One more moment adds what is written in it, unless a run is suspended in it. -/
theorem outputOf_snoc :
    outputOf (ms ++ [m]) = outputOf ms ++ if m.pauses then [] else m.written := by
  simp [outputOf]

/-- One more moment is counted if a run is suspended in it. -/
theorem countP_pauses_snoc :
    (ms ++ [m]).countP Moment.pauses = ms.countP Moment.pauses + if m.pauses then 1 else 0 := by
  rw [List.countP_append, List.countP_singleton]

end Snoc

/-! ### The moves of a run -/

omit [RandomSource γ] in
/-- A moment in which an answer is given executes nothing. -/
theorem Moment.executed?_of_answer {m : Moment γ} {text : String} (h : m.answer? = some text) :
    m.executed? = none := by
  cases m with
  | tick s => cases h
  | act s a => cases a <;> first | rfl | cases h

omit [RandomSource γ] in
/-- A moment without a move executes nothing and answers nothing. -/
theorem Moment.move?_eq_none {m : Moment γ} (h : m.move? = none) :
    m.executed? = none ∧ m.answer? = none := by
  unfold move? at h
  split at h
  next => cases h
  next hanswer => exact ⟨Option.map_eq_none_iff.1 h, hanswer⟩

omit [RandomSource γ] in
/-- As many moves execute lines as there are lines that are executed. -/
theorem linesAmong_movesOf (ms : List (Moment γ)) :
    linesAmong (movesOf ms) = (linesOf ms).length := by
  induction ms with
  | nil => rfl
  | cons m ms ih =>
    unfold linesAmong movesOf linesOf at ih ⊢
    cases hanswer : m.answer? with
    | some text =>
      have hexecuted := Moment.executed?_of_answer hanswer
      simp [Moment.move?, hanswer, hexecuted, ih]
    | none => cases hexecuted : m.executed? <;> simp [Moment.move?, hanswer, hexecuted, ih]

omit [RandomSource γ] in
/-- The answers among the moves are the answers that are given. -/
theorem answersAmong_movesOf (ms : List (Moment γ)) : answersAmong (movesOf ms) = answersOf ms := by
  induction ms with
  | nil => rfl
  | cons m ms ih =>
    unfold answersAmong movesOf answersOf at ih ⊢
    cases hanswer : m.answer? with
    | some text => simp [Moment.move?, hanswer, ih]
    | none => cases hexecuted : m.executed? <;> simp [Moment.move?, hanswer, hexecuted, ih]

end LineBasic
