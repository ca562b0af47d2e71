import LineBasic.Token.Basic

namespace LineBasic.Token

/-!
# Rows of tokens

What a reader asks of the tokens before it: where they begin, how to name the first of them, whether
the line ends here, and whether a certain token comes next. An empty row counts as the end of a
line.
-/

/-- Where a row of tokens begins, for a report: the columns of the first token. -/
def spanOf : List Token → Span
  | [] => .covering 0 0
  | t :: _ => t.span

/-- How a message names the first of some tokens. -/
def foundIn : List Token → Found
  | [] => .endOfLine
  | t :: _ => t.found

/-- Whether the line ends here. -/
def atEnd : List Token → Bool
  | [] => true
  | t :: _ => t.isEndOfLine

/-- The fault of meeting the first of some tokens where it does not belong. -/
def misplaced (cause : Found → Cause) (ts : List Token) : Fault := ⟨cause (foundIn ts), spanOf ts⟩

/-- The tokens after the first one, if that is of a certain kind. -/
def skip? (kind : Kind) : List Token → Option (List Token)
  | [] => none
  | t :: ts => if t.kind = kind then some ts else none

/-- A kind that is skipped stood at the front. -/
theorem skip?_eq_some {kind : Kind} {ts rest : List Token} (h : skip? kind ts = some rest) :
    ∃ t, t.kind = kind ∧ ts = t :: rest := by
  cases ts with
  | nil => cases h
  | cons t ts =>
    rw [skip?] at h
    split at h
    next hk => exact ⟨t, hk, by simpa using h⟩
    next => cases h

/-- Fails unless the line ends here. -/
def expectEnd (ts : List Token) : Except Fault Unit :=
  if atEnd ts then .ok () else .error (misplaced .expectedEndOfLine ts)

end LineBasic.Token
