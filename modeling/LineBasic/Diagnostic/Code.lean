namespace LineBasic

/-!
# Error codes

Everything that can go wrong has a code. A code has a category, which decides how a report of it
begins; a number, unique within `lexical`, `grammar` and `runtime` but for 293; and a summary, which
is its message when nothing more is known.
-/

/-- The kinds of report. -/
inductive Category where
  /-- The text of a line cannot be scanned. -/
  | lexical
  /-- The tokens of a line form no statement. -/
  | grammar
  /-- A statement failed when it was carried out. -/
  | runtime
  /-- A command of the command language was refused. -/
  | command
  /-- The linter found something. -/
  | lint
  /-- A run goes on, but something was ignored. -/
  | warning
  deriving DecidableEq, Repr

/-- What a report is about. -/
inductive Code where
  | unexpectedCharacter | unterminatedString
  | lineNumberRange | letMissingVariable | letMissingEquals | letMissingExpression | missingTarget
  | inputMissingVariable | unexpectedExpression | expectedEndOfLine | missingParenthesis
  | missingRelation | printLeadingSeparator
  | noProgram | undefinedLine | returnWithoutGosub | stackOverflow | divisionByZero | rndArgument
  | noEnd | uninitialized | listOrder | listRange | invalidReturnAddress | lineNotInProgram
  | interrupted | inputAborted | invalidInput | usrRoutine | usrAddress | usrValue
  | unknownCommand | missingFilename | nothingToSave | missingOption | lineParameter | noSuchLine
  | notDebugging | deleteWhileDebugging | noBranchTarget | emptyCallStack | invalidFilename
  | fileNotFound | breakpointExists | loadWhileDebugging | useContinue
  | missingEnd | clearPresent | badBranchTarget | maybeUninitialized
  | excessInput | runArgumentsIgnored
  deriving DecidableEq, Repr

namespace Code

/-- The number of a code within its category. -/
def number : Code → Nat
  | unexpectedCharacter => 293
  | unterminatedString => 331
  | lineNumberRange => 9
  | letMissingVariable => 18
  | letMissingEquals => 20
  | letMissingExpression => 23
  | missingTarget => 37
  | inputMissingVariable => 104
  | unexpectedExpression => 293
  | expectedEndOfLine => 294
  | missingParenthesis => 296
  | missingRelation => 330
  | printLeadingSeparator => 339
  | noProgram => 13
  | undefinedLine => 46
  | returnWithoutGosub => 133
  | stackOverflow => 134
  | divisionByZero => 224
  | rndArgument => 259
  | noEnd => 335
  | uninitialized => 336
  | listOrder => 337
  | listRange => 338
  | invalidReturnAddress => 345
  | lineNotInProgram => 347
  | interrupted => 349
  | inputAborted => 350
  | invalidInput => 351
  | usrRoutine => 360
  | usrAddress => 361
  | usrValue => 362
  | unknownCommand => 1
  | missingFilename => 2
  | nothingToSave => 3
  | missingOption => 4
  | lineParameter => 5
  | noSuchLine => 6
  | notDebugging => 8
  | deleteWhileDebugging => 9
  | noBranchTarget => 10
  | emptyCallStack => 11
  | invalidFilename => 12
  | fileNotFound => 13
  | breakpointExists => 14
  | loadWhileDebugging => 15
  | useContinue => 16
  | missingEnd => 1
  | clearPresent => 2
  | badBranchTarget => 3
  | maybeUninitialized => 4
  | excessInput => 1
  | runArgumentsIgnored => 2

/-- The category of a code. -/
def category : Code → Category
  | unexpectedCharacter | unterminatedString => .lexical
  | lineNumberRange | letMissingVariable | letMissingEquals | letMissingExpression | missingTarget
  | inputMissingVariable | unexpectedExpression | expectedEndOfLine | missingParenthesis
  | missingRelation | printLeadingSeparator => .grammar
  | noProgram | undefinedLine | returnWithoutGosub | stackOverflow | divisionByZero | rndArgument
  | noEnd | uninitialized | listOrder | listRange | invalidReturnAddress | lineNotInProgram
  | interrupted | inputAborted | invalidInput | usrRoutine | usrAddress | usrValue => .runtime
  | unknownCommand | missingFilename | nothingToSave | missingOption | lineParameter | noSuchLine
  | notDebugging | deleteWhileDebugging | noBranchTarget | emptyCallStack | invalidFilename
  | fileNotFound | breakpointExists | loadWhileDebugging | useContinue => .command
  | missingEnd | clearPresent | badBranchTarget | maybeUninitialized => .lint
  | excessInput | runArgumentsIgnored => .warning

/-- What a code means, in one sentence. -/
def summary : Code → String
  | unexpectedCharacter => "Syntax error - unexpected character."
  | unterminatedString => "Unterminated string."
  | lineNumberRange => "Line number not allowed."
  | letMissingVariable => "LET is missing a variable name."
  | letMissingEquals => "LET is missing an '='."
  | letMissingExpression => "Improper syntax in LET, no right-side expression."
  | missingTarget => "Missing line number."
  | inputMissingVariable => "INPUT expected a variable name."
  | unexpectedExpression => "Syntax error - unexpected expression."
  | expectedEndOfLine => "Expected the end of the line."
  | missingParenthesis => "Syntax error - expected a closing parenthesis."
  | missingRelation => "IF is missing the relational operator."
  | printLeadingSeparator => "Separators or colons cannot be the first item in a PRINT statement."
  | noProgram => "No program in memory to run."
  | undefinedLine => "Branch target does not exist."
  | returnWithoutGosub => "RETURN called with an empty call stack."
  | stackOverflow => "GOSUB nesting is too deep."
  | divisionByZero => "Division by zero."
  | rndArgument => "RND(0) not allowed."
  | noEnd => "No END in the program."
  | uninitialized => "Accessing uninitialized variable."
  | listOrder => "LIST parameters must be in logical order."
  | listRange => "LIST parameters must be in the range 1 to 32767."
  | invalidReturnAddress => "GOSUB return address is invalid."
  | lineNotInProgram => "Line number is not in the program."
  | interrupted => "Program execution interrupted."
  | inputAborted => "Aborting RUN from INPUT entry."
  | invalidInput => "Invalid value in INPUT."
  | usrRoutine => "USR only supports read (276) or write (280) subroutines."
  | usrAddress => "USR read/write routines require an address in XReg."
  | usrValue => "USR write routine requires a value in AReg."
  | unknownCommand => "Invalid or unknown command."
  | missingFilename => "Missing required filename or missing quote delimiters."
  | nothingToSave => "No program in memory to save."
  | missingOption => "Required option is missing."
  | lineParameter => "%break and %delete commands require line numbers as parameters."
  | noSuchLine => "Line does not exist in the program."
  | notDebugging => "Command only works while debugging."
  | deleteWhileDebugging => "Deleting program lines while debugging disabled."
  | noBranchTarget => "Branch target does not exist."
  | emptyCallStack => "RETURN call stack is empty."
  | invalidFilename => "Filename is invalid."
  | fileNotFound => "File does not exist."
  | breakpointExists => "Breakpoint already set."
  | loadWhileDebugging => "%loadfile disabled while debugging."
  | useContinue => "Use %c to continue from a breakpoint instead of RUN."
  | missingEnd => "Missing END statement in the program."
  | clearPresent => "CLEAR must never be in a program."
  | badBranchTarget => "Branch target not in program."
  | maybeUninitialized => "Potentially uninitialized variable."
  | excessInput => "More input given than variables requested by INPUT."
  | runArgumentsIgnored => "RUN parameters not supported in programs."

end Code

end LineBasic
