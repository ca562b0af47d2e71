import LineBasic.Engine.Execute

namespace LineBasic.Engine

/-!
# Running programs

A run executes one line after the other until something stops it.

* `advance` -- executes the line at the cursor, or stops at a breakpoint on it;
* `finishLine` -- moves the cursor on after a line;
* `tick` -- does the one thing that is due next, or says what the engine waits for;
* `poll` -- does so as often as a budget allows.
-/

variable {γ : Type} [RandomSource γ]

/-- What came of executing a line. -/
inductive Progress where
  /-- The run goes on. -/
  | onward
  /-- The run is suspended at a line. -/
  | paused (line : Nat)
  /-- The run is over. -/
  | ended
  /-- The line failed. -/
  | failed
  deriving DecidableEq, Repr

/-- What the engine waits for. -/
inductive Event where
  /-- Something to be typed. -/
  | stopped
  /-- More time. -/
  | running
  /-- What to do with the run suspended at a line. -/
  | paused (line : Nat)
  /-- Values for an `INPUT`, with the question that asks for them. -/
  | input (prompt : String)
  /-- Errors have been collected. -/
  | errors (reports : List Diagnostic)
  deriving DecidableEq, Repr

/-- The report that something happened to the run at the cursor. -/
def atCursor (s : Engine γ) (cause : Cause) : Diagnostic :=
  let d := cause.diagnostic.atLine (some s.cursor)
  match s.listing.get? s.cursor with
  | some line => d.inSource line.source
  | none => d

/-- Goes on to the line that was jumped to, or else to the next one. A single step stops there. -/
def finishLine (s : Engine γ) : Progress × Engine γ :=
  match s.branch.or (s.listing.nextAfter? s.cursor) with
  | some n =>
    let s := { s with branch := none, cursor := n }
    (.onward,
      if s.stepping then { s with stepping := false, breakpoints := s.breakpoints.arm n } else s)
  | none => (.failed, s.fail (s.atCursor .noEnd))

/-- Comes to a line: whether a breakpoint stops the run there. The line that a suspended run goes on
with is not asked about. -/
def arrive (s : Engine γ) (line : Line) : Option Hit × Engine γ :=
  if s.resume then (none, { s with resume := false })
  else
    let (hit, breakpoints) := s.breakpoints.hit line.number
    (hit, { s with breakpoints })

/-- Suspends a run at a line. -/
def pauseAt (s : Engine γ) (line : Line) (hit : Hit) : Engine γ :=
  let s :=
    match hit with
    | .persistent => s.emit (.output ("Breakpoint: " ++ Text.ofNat line.number ++ "\n"))
    | .oneShot => s
  { s.emit (.output ("[" ++ line.source ++ "]\n")) with mode := .paused, stepping := false }

/-- Writes how long a line took, if that is asked for. -/
def timed (s : Engine γ) (line : Line) : Engine γ :=
  if s.options.timing then s.emit (.timing line.number) else s

/-- Executes a line of the program. -/
def executeLine (s : Engine γ) (line : Line) : Progress × Engine γ :=
  match execute (some line.number) line.statement { s.traced line.source with branch := none } with
  | .error fault s =>
    (.failed,
      (s.timed line).fail ((fault.diagnostic.atLine (some line.number)).inSource line.source))
  | .ok _ s =>
    let s := s.timed line
    if s.mode ≠ .running then (.ended, s)
    else if s.pending.isSome then (.onward, s)
    else s.finishLine

/-- Executes the line at the cursor, or stops at a breakpoint on it. -/
def advance (s : Engine γ) : Progress × Engine γ :=
  if s.mode ≠ .running then (.ended, s)
  else if s.pending.isSome then (.onward, s)
  else
    match s.listing.get? s.cursor with
    | none => (.failed, s.fail (s.atCursor (.lineNotInProgram s.cursor)))
    | some line =>
      match s.arrive line with
      | (some hit, s) => (.paused line.number, s.pauseAt line hit)
      | (none, s) => s.executeLine line

/-- Carries out a direct statement. -/
def carryOut (s : Engine γ) (d : DirectStatement) : Engine γ :=
  match execute none d.statement s with
  | .ok _ s => s
  | .error fault s => s.fail (fault.diagnostic.inSource d.source)

/-- What is due next: an event to be seen to by others, or a change of the engine. Errors come
first, then a wait for `INPUT`, then a direct statement, then the program. -/
def tick (s : Engine γ) : Event × Engine γ ⊕ Engine γ :=
  if s.errors ≠ [] then .inl (.errors s.errors, { s with errors := [] })
  else
    match s.pending with
    | some q => .inl (.input q.prompt, s)
    | none =>
      match s.direct with
      | some d => .inr ({ s with direct := none }.carryOut d)
      | none =>
        match s.mode with
        | .running => .inr s.advance.2
        | .paused => .inl (.paused s.cursor, s)
        | _ => .inl (.stopped, s)

/-- Does what is due, up to so many times, until there is an event. -/
def poll : Nat → Engine γ → Event × Engine γ
  | 0, s => (.running, s)
  | n + 1, s =>
    match s.tick with
    | .inl result => result
    | .inr s => poll n s

end LineBasic.Engine
