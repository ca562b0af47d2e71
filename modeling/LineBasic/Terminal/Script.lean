import LineBasic.Terminal.Disk
import LineBasic.Terminal.Session

namespace LineBasic.Terminal

/-!
# Scripts

What appears on a terminal, and what becomes of a disk, when a session is given certain lines to
type and then the end of its input.
-/

/-- A session with what is outside it. -/
structure Script (γ : Type) where
  /-- The session. -/
  session : Session γ
  /-- The files. -/
  disk : Disk := {}
  /-- The lines still to be typed. -/
  typed : List String := []
  /-- What has appeared on the terminal, the last first. -/
  screen : List String := []

namespace Script

/-- Everything that has appeared on the terminal. -/
def shown {γ : Type} (c : Script γ) : String := String.join c.screen.reverse

/-- Lets a text appear. -/
def appear {γ : Type} (c : Script γ) (text : String) : Script γ :=
  { c with screen := text :: c.screen }

/-- Lets everything appear that the session has written. -/
def flush {γ : Type} (c : Script γ) : Script γ :=
  let (emissions, session) := c.session.drain
  { c with session }.appear (String.join (emissions.map (Emission.shown 0)))

/-- The text without the characters after its last space. -/
def dropLastWord (cs : List Char) : List Char := (cs.reverse.dropWhile (!Text.isSpace ·)).reverse

/-- What a typed text comes to be: a tab after nothing but the number of a stored line completes
that line, and any other tab does nothing. -/
def completed (p : Listing) (text : String) : String :=
  String.ofList <| text.toList.foldl (fun buffer c =>
    if c = '\t' then
      match (Text.number? (Text.trim buffer)).bind p.get? with
      | some line => dropLastWord buffer ++ line.source.toList
      | none => buffer
    else buffer ++ [c]) []

/-- Types the next line at a prompt that completes the lines of a program. Without a line to type,
the input ends, and so does the session. -/
def type {γ : Type} (c : Script γ) (p : Listing) (prompt : String) : Option String × Script γ :=
  match c.typed with
  | [] => (none, c.appear (prompt ++ "\n"))
  | line :: typed =>
    let line := completed p line
    (some line, { c with typed }.appear (prompt ++ line ++ "\n"))

variable {γ : Type} [RandomSource γ]

/-- How many program lines are executed in a turn. -/
def budget : Nat := 5000

/-- Gives a session what it needs, and takes the next turn. -/
def next (need : Need) (c : Script γ) : Need × Script γ :=
  match need with
  | .turn =>
    let (need, session) := c.session.turn budget
    (need, { c with session })
  | .line prompt =>
    match c.type c.session.engine.listing prompt with
    | (some line, c) =>
      let (need, session) := c.session.receive line
      (need, { c with session })
    | (none, c) => (.done, c)
  | .answer prompt =>
    match c.type .empty prompt with
    | (some line, c) => (.turn, { c with session := c.session.answer line })
    | (none, c) => (.done, c)
  | .read file => (.turn, { c with session := c.session.loaded file (c.disk.read file) })
  | .write file text =>
    match c.disk.write file text with
    | .ok disk => (.turn, { c with disk, session := c.session.saved file (.ok ()) })
    | .error fault => (.turn, { c with session := c.session.saved file (.error fault) })
  | .done => (.done, c)

/-- Carries a session on until it is over, for so many turns at most. -/
def run : Nat → Need → Script γ → Script γ
  | 0, _, c => c
  | _, .done, c => c.flush
  | turns + 1, need, c =>
    let (need, c) := next need c.flush
    run turns need c

/-- The session that some arguments start, on a disk and with lines to type. -/
def ofArguments (arguments : List String) (generator : γ) (disk : Disk) (typed : List String)
    (turns : Nat) : Script γ :=
  let (need, session) := Session.begin (.ofList arguments) generator
  run turns need { session, disk, typed }

end Script

end LineBasic.Terminal
