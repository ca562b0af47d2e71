import LineBasic.Random.ChaCha
import LineBasic.Terminal.Session

/-!
# The command line

An interactive session on standard input and output: whatever `Session.turn` needs is got from the
system, and whatever it writes is shown at once.
-/

namespace LineBasic.Main

open LineBasic.Terminal

/-- The failure with a file that a number of the system stands for, negative or not. -/
def faultOfCode (code : UInt32) (details : String) : FileFault :=
  let code := code.toInt32.toInt.natAbs
  match code with
  | 20 => .notDirectory
  | 21 => .isDirectory
  | 28 => .noSpace
  | 36 => .nameTooLong
  | _ => .other (details ++ " (os error " ++ toString code ++ ")")

/-- Why the system failed with a file. -/
def faultOf : IO.Error → FileFault
  | .noFileOrDirectory .. => .missing
  | .inappropriateType _ code details | .invalidArgument _ code details
  | .permissionDenied _ code details | .resourceExhausted _ code details => faultOfCode code details
  | e => .other (toString e)

/-- Reads a file as text. -/
def readFile (file : String) : IO (Except FileFault String) := do
  try
    let bytes ← IO.FS.readBinFile file
    match String.fromUTF8? bytes with
    | some text => return .ok text
    | none => return .error .notText
  catch e => return .error (faultOf e)

/-- Writes a text to a file. -/
def writeFile (file text : String) : IO (Except FileFault Unit) := do
  try
    IO.FS.writeFile file text
    return .ok ()
  catch e => return .error (faultOf e)

/-- Shows a text at once. -/
def put (text : String) : IO Unit := do
  let out ← IO.getStdout
  out.putStr text
  out.flush

/-- A line typed at a prompt, without its line end, or nothing at the end of the input. -/
def typedLine (prompt : String) : IO (Option String) := do
  put prompt
  let line ← (← IO.getStdin).getLine
  if line.isEmpty then
    put "\n"
    return none
  return some (String.ofList (Token.dropLineEnd line.toList))

/-- How many program lines are executed in a turn: one, where each is to be timed. -/
def budget (s : Session ChaCha) : Nat := if s.engine.options.timing then 1 else 5000

/-- Shows what a session has written, where its last turn took so many milliseconds. -/
def flush (s : Session ChaCha) (milliseconds : Nat) : IO (Session ChaCha) := do
  let (emissions, s) := s.drain
  put (String.join (emissions.map (Emission.shown milliseconds)))
  return s

/-- Carries a session on until it is over. -/
partial def converse (need : Need) (s : Session ChaCha) : IO Unit := do
  let started ← IO.monoMsNow
  match need with
  | .done => discard (flush s 0)
  | .turn =>
    let (need, s) := s.turn (budget s)
    let s ← flush s ((← IO.monoMsNow) - started)
    converse need s
  | .line prompt =>
    let s ← flush s 0
    match ← typedLine prompt with
    | none => return
    | some text =>
      let (need, s) := s.receive text
      converse need s
  | .answer prompt =>
    let s ← flush s 0
    match ← typedLine prompt with
    | none => return
    | some text => converse .turn (s.answer text)
  | .read file =>
    let contents ← readFile file
    converse .turn (s.loaded file contents)
  | .write file text =>
    let outcome ← writeFile file text
    converse .turn (s.saved file outcome)

end LineBasic.Main

/-- Starts an interactive session. -/
def main (arguments : List String) : IO Unit := do
  let generator := LineBasic.ChaCha.ofSeed (← IO.monoNanosNow)
  let (need, session) :=
    LineBasic.Terminal.Session.begin (LineBasic.Terminal.Arguments.ofList arguments) generator
  LineBasic.Main.converse need session
