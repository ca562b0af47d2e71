import LineBasic.Diagnostic.Code
import LineBasic.Keyword
import LineBasic.Letter
import LineBasic.Text.Decimal

namespace LineBasic

/-!
# Causes

A cause is a code together with the facts of the case: the offending character, the missing line,
the value that was out of range. `Cause.code` forgets the facts and `Cause.message` words them;
nothing else in the library words an error.
-/

/-- What the reader of a line met where it expected something else. -/
inductive Found where
  /-- The end of the line. -/
  | endOfLine
  /-- A token, by its text. -/
  | lexeme (text : String)
  deriving DecidableEq, Repr

/-- How a message names what was found. -/
def Found.text : Found → String
  | .endOfLine => "end of line"
  | .lexeme text => "'" ++ text ++ "'"

/-- Why the system refuses to read or write a file. -/
inductive FileFault where
  /-- The name belongs to a directory. -/
  | isDirectory
  /-- The file, or the directory it should be in, does not exist. -/
  | missing
  /-- A part of the name that should lead to a directory leads to a file. -/
  | notDirectory
  /-- The name, or a part of it, is longer than names can be. -/
  | nameTooLong
  /-- There is no room for what is written. -/
  | noSpace
  /-- The bytes of the file are no text. -/
  | notText
  /-- Any other reason, in the words of the system. -/
  | other (reason : String)
  deriving DecidableEq, Repr

/-- The words of the system for its reason. -/
def FileFault.text : FileFault → String
  | .isDirectory => "Is a directory (os error 21)"
  | .missing => "No such file or directory (os error 2)"
  | .notDirectory => "Not a directory (os error 20)"
  | .nameTooLong => "File name too long (os error 36)"
  | .noSpace => "No space left on device (os error 28)"
  | .notText => "stream did not contain valid UTF-8"
  | .other reason => reason

/-- Why something went wrong. -/
inductive Cause where
  /-- A character that begins no token. -/
  | unexpectedCharacter (c : Char)
  /-- A string, begun at a column, without its closing quote. -/
  | unterminatedString (start : Nat)
  /-- Digits at the start of a line that denote no line number. -/
  | lineNumberRange (digits : String)
  | letMissingVariable (found : Found)
  | letMissingEquals (found : Found)
  | letMissingExpression
  /-- A token that is no number where a line number is needed. -/
  | notLineNumber
  /-- A `GOTO` or `GOSUB` with nothing after it. -/
  | missingTarget (word : Keyword)
  | inputMissingVariable (found : Found)
  | unexpectedExpression (found : Found)
  /-- `RND` or `USR` without its parenthesis. -/
  | missingFunctionParenthesis (function : Keyword)
  | expectedEndOfLine (found : Found)
  | missingParenthesis (found : Found)
  /-- A comma after the last value of `RUN`. -/
  | trailingRunComma
  | missingRelation (found : Found)
  | printLeadingSeparator
  | noProgram
  /-- A `GOTO` or `GOSUB` to a line that is not stored. -/
  | undefinedLine (word : Keyword) (target : Int16)
  | returnWithoutGosub
  | stackOverflow
  | divisionByZero
  /-- `RND` of zero or of a negative value. -/
  | rndArgument (value : Int16)
  | noEnd
  | uninitialized (name : Letter)
  | listOrder (low high : Int16)
  | listRange (low high : Int16)
  | invalidReturnAddress
  | lineNotInProgram (number : Nat)
  | interrupted
  | inputAborted
  /-- An answer to `INPUT` that is no expression or has no value. -/
  | invalidInput (answer : String)
  | usrRoutine (routine : Int16)
  | usrAddress
  | usrMissingValue
  | usrValue (value : Int16)
  | unknownCommand (text : String)
  | missingFilename
  | nothingToSave
  | missingOption
  | unknownOption (name : String)
  | optionValue (text : String)
  | unknownLintOption (text : String)
  | lineParameter
  /-- A breakpoint on a line that is not stored. -/
  | noSuchLine (number : Nat)
  /-- No breakpoint to take away from a line. -/
  | noBreakpoint (number : Nat)
  /-- A debugger command while no run is suspended. -/
  | notDebugging (command : String)
  | deleteWhileDebugging
  | noBranchTarget (target : Int16)
  | emptyCallStack
  /-- A file name of nothing but space. -/
  | blankFilename
  | invalidFilename (name : String) (reason : FileFault)
  | fileNotFound (name : String)
  | breakpointExists (number : Nat)
  | loadWhileDebugging
  | useContinue
  | missingEnd
  | clearPresent
  | badBranchTarget (word : Keyword) (target : Int16)
  | maybeUninitialized (name : Letter)
  | excessInput
  | runArgumentsIgnored (number : Nat)
  deriving DecidableEq, Repr

namespace Cause

/-- The code of a cause. -/
def code : Cause → Code
  | unexpectedCharacter _ => .unexpectedCharacter
  | unterminatedString _ => .unterminatedString
  | lineNumberRange _ => .lineNumberRange
  | letMissingVariable _ => .letMissingVariable
  | letMissingEquals _ => .letMissingEquals
  | letMissingExpression => .letMissingExpression
  | notLineNumber | missingTarget _ => .missingTarget
  | inputMissingVariable _ => .inputMissingVariable
  | unexpectedExpression _ | missingFunctionParenthesis _ => .unexpectedExpression
  | expectedEndOfLine _ => .expectedEndOfLine
  | missingParenthesis _ | trailingRunComma => .missingParenthesis
  | missingRelation _ => .missingRelation
  | printLeadingSeparator => .printLeadingSeparator
  | noProgram => .noProgram
  | undefinedLine _ _ => .undefinedLine
  | returnWithoutGosub => .returnWithoutGosub
  | stackOverflow => .stackOverflow
  | divisionByZero => .divisionByZero
  | rndArgument _ => .rndArgument
  | noEnd => .noEnd
  | uninitialized _ => .uninitialized
  | listOrder _ _ => .listOrder
  | listRange _ _ => .listRange
  | invalidReturnAddress => .invalidReturnAddress
  | lineNotInProgram _ => .lineNotInProgram
  | interrupted => .interrupted
  | inputAborted => .inputAborted
  | invalidInput _ => .invalidInput
  | usrRoutine _ => .usrRoutine
  | usrAddress => .usrAddress
  | usrMissingValue | usrValue _ => .usrValue
  | unknownCommand _ => .unknownCommand
  | missingFilename => .missingFilename
  | nothingToSave => .nothingToSave
  | missingOption | unknownOption _ | optionValue _ | unknownLintOption _ => .missingOption
  | lineParameter => .lineParameter
  | noSuchLine _ | noBreakpoint _ => .noSuchLine
  | notDebugging _ => .notDebugging
  | deleteWhileDebugging => .deleteWhileDebugging
  | noBranchTarget _ => .noBranchTarget
  | emptyCallStack => .emptyCallStack
  | blankFilename | invalidFilename _ _ => .invalidFilename
  | fileNotFound _ => .fileNotFound
  | breakpointExists _ => .breakpointExists
  | loadWhileDebugging => .loadWhileDebugging
  | useContinue => .useContinue
  | missingEnd => .missingEnd
  | clearPresent => .clearPresent
  | badBranchTarget _ _ => .badBranchTarget
  | maybeUninitialized _ => .maybeUninitialized
  | excessInput => .excessInput
  | runArgumentsIgnored _ => .runArgumentsIgnored

private def quoted (text : String) : String := "'" ++ text ++ "'"

private def shown (value : Int16) : String := Text.ofInt value.toInt

/-- The message of a cause: the facts of the case, or the summary of its code where there are
    none. -/
def message : Cause → String
  | unexpectedCharacter c => "Syntax error - unexpected expression : " ++ quoted c.toString ++ "."
  | unterminatedString start =>
      "Unterminated string (started at position " ++ Text.ofNat start ++ ")."
  | lineNumberRange digits => "Line number is out of range (1-32767): " ++ quoted digits ++ "."
  | letMissingVariable found =>
      "LET is missing a variable name but found " ++ found.text ++ "."
  | letMissingEquals found => "LET is missing an '=' but found " ++ found.text ++ "."
  | missingTarget word => "Missing line number for " ++ quoted word.name ++ "."
  | inputMissingVariable found =>
      "INPUT expected a variable name but found " ++ found.text ++ "."
  | unexpectedExpression found =>
      "Syntax error - unexpected expression " ++ found.text ++ "."
  | missingFunctionParenthesis function =>
      "Syntax error - missing left parenthesis to the " ++ function.name ++ " function."
  | expectedEndOfLine found =>
      "Expected the end of the line but found " ++ found.text ++ "."
  | missingParenthesis found =>
      "Syntax error - expected a closing parenthesis, got " ++ found.text ++ "."
  | trailingRunComma => "Syntax error - RUN parameters cannot end with a comma."
  | missingRelation found =>
      "IF is missing the relational operator but found " ++ found.text ++ "."
  | undefinedLine word target =>
    word.name ++ " target does not exist " ++ quoted (shown target) ++ "."
  | rndArgument value =>
      if value == 0 then Code.rndArgument.summary
      else "RND argument must be positive, given " ++ quoted (shown value) ++ "."
  | uninitialized name => "Accessing uninitialized variable " ++ quoted name.name ++ "."
  | listOrder low high =>
      "LIST parameters must be in logical order, not " ++ quoted (shown low) ++ ","
        ++ quoted (shown high) ++ "."
  | listRange low high =>
      "LIST parameters must be in the range 1 to 32767 not "
        ++ quoted (shown low ++ ", " ++ shown high) ++ "."
  | lineNotInProgram number =>
      "Line number is not in the program: " ++ quoted (Text.ofNat number) ++ "."
  | invalidInput answer => "Invalid value in INPUT: " ++ quoted answer ++ "."
  | usrRoutine routine =>
      "USR only supports read (276) or write (280) subroutines, given " ++
        quoted (shown routine) ++ "."
  | usrValue value =>
      "USR write routine only supports values in AReg between 0 and 255, given "
        ++ quoted (shown value) ++ "."
  | unknownCommand text => "Invalid or unknown command: " ++ quoted text ++ "."
  | unknownOption name => "Unknown option: " ++ quoted name ++ "."
  | optionValue text => "Option value must be true or false, given " ++ quoted text ++ "."
  | unknownLintOption text => "Unknown %lint option: " ++ quoted text ++ "."
  | noSuchLine number =>
      "Line does not exist in the program: " ++ quoted (Text.ofNat number) ++ "."
  | noBreakpoint number => "No breakpoint set on line " ++ quoted (Text.ofNat number) ++ "."
  | notDebugging command => "%" ++ command ++ " command only works while debugging."
  | noBranchTarget target => "Branch target does not exist " ++ quoted (shown target) ++ "."
  | invalidFilename name reason =>
      "Filename is invalid: " ++ quoted name ++ " (" ++ reason.text ++ ")."
  | fileNotFound name => "File does not exist: " ++ quoted name ++ "."
  | breakpointExists number => "Breakpoint already set on " ++ quoted (Text.ofNat number) ++ "."
  | badBranchTarget word target =>
    word.name ++ " target not in program: " ++ quoted (shown target) ++ "."
  | maybeUninitialized name => "Potentially uninitialized variable " ++ quoted name.name ++ "."
  | runArgumentsIgnored number =>
      "RUN parameters not supported in programs, only in direct execution: Line ["
        ++ Text.ofNat number ++ "]."
  | cause => cause.code.summary

end Cause

end LineBasic
