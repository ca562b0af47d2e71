import LineBasic.Main
import LineBasic.Proofs.Engine.Effect
import LineBasic.Proofs.Engine.Operation
import LineBasic.Proofs.Expr.Eval
import LineBasic.Terminal.Script
import LineBasic.Proofs.Engine.Advance
import LineBasic.Proofs.Engine.Shift
import LineBasic.Proofs.Engine.Moment
import LineBasic.Proofs.Engine.Idle
import LineBasic.Proofs.Engine.Arrival
import LineBasic.Proofs.Engine.Await
import LineBasic.Proofs.Engine.LineStatement
import LineBasic.Proofs.Engine.Step
import LineBasic.Proofs.Engine.Twin
import LineBasic.Proofs.Engine.Underway
import LineBasic.Proofs.Engine.Transparent
import LineBasic.Proofs.Line.Grammar
import LineBasic.Proofs.Terminal.Load
import LineBasic.Proofs.Engine.Initialized
import LineBasic.Proofs.Engine.Consistent
import LineBasic.Proofs.Engine.Place
import LineBasic.Proofs.Engine.Targets
import LineBasic.Proofs.Engine.Account
import LineBasic.Proofs.Engine.Served
import LineBasic.Proofs.Token.Squeezed
import LineBasic.Proofs.Terminal.Spoilt
import LineBasic.Proofs.Line.Typed
import LineBasic.Proofs.Line.Rendered
import LineBasic.Proofs.Token.Offsets
import LineBasic.Proofs.Token.Respelled
import LineBasic.Proofs.Engine.Switches
import LineBasic.Proofs.Statement.Nodes
import LineBasic.Proofs.Line.Misread
import LineBasic.Proofs.Engine.Faulted
import LineBasic.Proofs.Lint.Placed
import LineBasic.Proofs.Engine.Carets
import LineBasic.Proofs.Engine.Foresight
import LineBasic.Proofs.Engine.Refused
import LineBasic.Proofs.Engine.Suspended
import LineBasic.Proofs.Lint.Order
import LineBasic.Proofs.Lint.Survey
import LineBasic.Proofs.Lint.Rules
import LineBasic.Proofs.Engine.Nested
import LineBasic.Proofs.Engine.Pending
import LineBasic.Proofs.Engine.Grouped
import LineBasic.Proofs.Expr.Commas
import LineBasic.Proofs.Engine.Answerable
import LineBasic.Proofs.Token.Stretch
import LineBasic.Proofs.Token.Opening
import LineBasic.Proofs.Token.Blanked
import LineBasic.Proofs.Statement.Then
import LineBasic.Proofs.Line.Then
import LineBasic.Proofs.Expr.Arithmetic
import LineBasic.Proofs.Engine.Polling
import LineBasic.Proofs.Edits
import LineBasic.Proofs.Engine.Listed
import LineBasic.Proofs.Lint.Discovery
import LineBasic.Proofs.Engine.Printed
import LineBasic.Proofs.Engine.Numeral
import LineBasic.Proofs.Command
import LineBasic.Proofs.Engine.Remembered
import LineBasic.Proofs.Asserting.Session
