import LineBasic.Engine.Run
import LineBasic.Text.Space

namespace LineBasic.Engine

/-!
# Entering lines

What is typed, or read from a file, goes to `enter` line by line: edits of the program, direct
statements, and answers to an `INPUT`. `interrupt` breaks off what is going on; `beginLoad` and
`endLoad` enclose the lines of a file.
-/

variable {γ : Type} [RandomSource γ]

/-! ### Answers to `INPUT` -/

/-- Evaluates an expression that may fail to have a value. -/
def attempt (s : Engine γ) (e : Expr) : Option Int16 × Engine γ :=
  match evaluating e.eval s with
  | .ok n s => (some n, s)
  | .error _ s => (none, s)

/-- The value of an answer: any expression, evaluated now. -/
def answerValue (s : Engine γ) (answer : String) : Option Int16 × Engine γ :=
  match Token.scan answer with
  | .error _ => (none, s)
  | .ok tokens =>
    match Expr.ofTokens tokens with
    | .error _ => (none, s)
    | .ok e => s.attempt e

/-- Gives variables the values of answers, one after the other. What is left are the variables
without an answer and the answers without a variable; the first bad answer fails instead. -/
def takeAnswers (line : Option Nat) (s : Engine γ) :
    List Letter → List (List Char) → Option (List Letter × List (List Char)) × Engine γ
  | [], answers => (some ([], answers), s)
  | xs, [] => (some (xs, []), s)
  | x :: xs, answer :: answers =>
    let answer := String.ofList (Text.trim answer)
    match s.answerValue answer with
    | (some n, s) => takeAnswers line (s.assign x n) xs answers
    | (none, s) => (none, s.fail ((Cause.invalidInput answer).diagnostic.atLine line))

/-- Takes a line of answers, with commas between them. The last of them lets the run go on. -/
def answer (s : Engine γ) (q : Inquiry) (text : String) : Engine γ :=
  let answers := Text.split (· == ',') (Text.trimEnd text.toList)
  match takeAnswers q.line { s with pending := none } q.awaiting answers with
  | (none, s) => s
  | (some (awaiting, spare), s) =>
    let s := if spare = [] then s else s.emit (.notice Cause.excessInput.diagnostic)
    if awaiting ≠ [] then { s with pending := some { q with awaiting } }
    else if q.line.isSome && s.mode = .running then s.finishLine.2
    else s

/-! ### Entries -/

/-- Deletes a line. While a run is suspended that is refused; a file may ask for it in vain. -/
def delete (s : Engine γ) (n : Nat) : Engine γ :=
  if s.mode = .paused then s.report Cause.deleteWhileDebugging.diagnostic
  else if s.listing.contains n then
    { s with listing := s.listing.erase n, breakpoints := s.breakpoints.forget n }
  else if s.isLoading then s
  else s.fail ((Cause.lineNotInProgram n).diagnostic.atLine (some n))

/-- Does what an entry asks for; a direct statement is put by until it is its turn. -/
def accept (s : Engine γ) (source : String) : Entry → Engine γ
  | .store n statement =>
    let s := s.traced ("store " ++ Text.ofNat n)
    { s with listing := s.listing.insert (.ofText n source statement) }
  | .delete n => (s.traced ("delete " ++ Text.ofNat n)).delete n
  | .direct statement =>
    let s := s.traced ("direct " ++ String.ofList (Text.trim source.toList))
    { s with direct := some ⟨source, statement⟩ }

/-- Takes a line, and says whether it was more than space. After an error in a file, the lines of
that file are only looked at for more errors. -/
def enter (s : Engine γ) (text : String) : Bool × Engine γ :=
  let s := { s with fileLine := s.fileLine.map (· + 1) }
  match s.pending with
  | some q => (true, s.answer q text)
  | none =>
    let source := trimmed text
    if Text.allSpace source.toList then (false, s)
    else
      match Entry.ofText source with
      | .error d => (true, s.fail d)
      | .ok entry => (true, if s.mode = .loadFailed then s else s.accept source entry)

/-! ### Breaking off and loading -/

/-- Breaks off a wait for `INPUT`, or else a run. -/
def interrupt (s : Engine γ) : Engine γ :=
  if s.pending.isSome then s.fail Cause.inputAborted.diagnostic
  else if s.mode = .running then s.fail (s.atCursor .interrupted)
  else s

/-- Gets ready for the lines of a file: the program, its breakpoints and the memory are
    forgotten. -/
def beginLoad (s : Engine γ) : Engine γ := { s.wipe with direct := none, fileLine := some 0 }.stop

/-- Ends the loading of a file, and says whether there was no error in it. -/
def endLoad (s : Engine γ) : Bool × Engine γ :=
  (s.mode ≠ .loadFailed,
    { s with
      fileLine := none
      mode := if s.mode = .loading ∨ s.mode = .loadFailed then .prompt else s.mode })

end LineBasic.Engine
