import LineBasic.Transcript

namespace LineBasic.Terminal

/-!
# What a terminal shows

The fixed texts of a terminal session, and how each emission looks: reports are bold, traces are
dimmed.
-/

/-- What a session begins with. -/
def logo : String :=
  "Tiny BASIC: interpreter, debugger and linter\nType %help for commands, CTRL-D to quit.\n"

/-- The commands, one to a line. -/
def shortHelp : String :=
  "%help                     Full help\n"
    ++ "%quit | %q                Quit\n"
    ++ "%loadfile | %lf \"file\"    Load a program\n"
    ++ "%savefile | %sf \"file\"    Save the program\n"
    ++ "%opt log|time|run_on_load [t|f]\n"
    ++ "%lint [strict]            Check the program\n"
    ++ "%break | %bp [n]          List or set breakpoints\n"
    ++ "%delete | %d n|*          Delete breakpoints\n"
    ++ "%continue | %c            Resume from a breakpoint\n"
    ++ "%step | %s                Execute one line\n"
    ++ "%vars | %v                Show variables\n"
    ++ "%backtrace | %bt          Show the GOSUB call stack\n"
    ++ "%exit | %e                Leave the debugger\n"

/-- How to use the interpreter. -/
def usage : String :=
  "Enter Tiny BASIC statements with a line number to store them, without\n"
    ++ "one to run them now. A bare line number deletes that line. Lines typed\n"
    ++ "at the prompt that start with % are commands.\n"
    ++ "\n"
    ++ "Command line: tinybasic [--nologo] [-c \"cmd^cmd\"] [FILE]\n"
    ++ "\n"

/-- The full help. -/
def help : String := logo ++ usage ++ shortHelp

/-- The prompt while nothing is going on. -/
def idlePrompt : String := "tbp:> "

/-- The prompt while a run is suspended at a line. -/
def debugPrompt (line : Nat) : String := "DEBUG(" ++ Text.ofNat line ++ "):> "

/-- A text in bold. -/
def bold (text : String) : String := "\x1b[1m" ++ text ++ "\x1b[0m"

/-- A dimmed text. -/
def dim (text : String) : String := "\x1b[2m" ++ text ++ "\x1b[0m"

end LineBasic.Terminal

namespace LineBasic

/-- The line that says how long a program line took. -/
def timingText (line milliseconds : Nat) : String :=
  "[" ++ Text.ofNat line ++ "] = " ++ Text.ofNat milliseconds ++ " ms\n"

/-- What a terminal shows of an emission, if the last program line took so many milliseconds. -/
def Emission.shown (milliseconds : Nat) : Emission → String
  | .output text => text
  | .notice d => Terminal.bold d.display ++ "\n"
  | .trace text => Terminal.dim text
  | .timing line => Terminal.dim (timingText line milliseconds)

end LineBasic
