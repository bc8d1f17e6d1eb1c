import FexprLisp.Bounds
import FexprLisp.Console.Basic
import FexprLisp.Console.Transcript
import FexprLisp.Eval.Arithmetic
import FexprLisp.Eval.Error
import FexprLisp.Eval.Evaluate
import FexprLisp.Eval.Form
import FexprLisp.Eval.Journal
import FexprLisp.Eval.State
import FexprLisp.Failure
import FexprLisp.HostStack
import FexprLisp.Machine.Basic
import FexprLisp.Machine.Script
import FexprLisp.Main
import FexprLisp.Node.Basic
import FexprLisp.Node.Print
import FexprLisp.Proofs.Eval.Agreement
import FexprLisp.Proofs.Eval.Depth
import FexprLisp.Proofs.Eval.Frames
import FexprLisp.Proofs.Eval.Logic
import FexprLisp.Proofs.Eval.Recursion
import FexprLisp.Proofs.Eval.Run
import FexprLisp.Proofs.Source.Lexeme
import FexprLisp.Proofs.Source.Reading
import FexprLisp.Proofs.Source.RoundTrip
import FexprLisp.Proofs.Source.Spelling
import FexprLisp.Scope.Frame
import FexprLisp.Scope.Handle
import FexprLisp.Scope.Print
import FexprLisp.Scope.Stack
import FexprLisp.Settings
import FexprLisp.Source.Cursor
import FexprLisp.Source.Error
import FexprLisp.Source.Scan
import FexprLisp.Source.Start
import FexprLisp.Source.Token
import FexprLisp.Text.Escape
import FexprLisp.Text.Numeral
import FexprLisp.Text.Shown
import FexprLisp.Text.Unprintable
import FexprLisp.Value.Basic
import FexprLisp.Value.Primitive
import FexprLisp.Value.Print
import FexprLisp.Proofs.Source.Continuation
import FexprLisp.Proofs.Source.Malformed
import FexprLisp.Proofs.Source.Completion
import FexprLisp.Proofs.Source.Grammar
import FexprLisp.Proofs.Eval.Provenance
import FexprLisp.Proofs.Machine.Session
import FexprLisp.Proofs.Source.Separation
import FexprLisp.Proofs.Machine.Interleaving
import FexprLisp.Proofs.Machine.Retyping
import FexprLisp.Proofs.Console.Lines
import FexprLisp.Proofs.Eval.Failures
import FexprLisp.Proofs.Console.Survival
import FexprLisp.Proofs.Eval.Outcomes
import FexprLisp.Proofs.Eval.Nesting
import FexprLisp.Proofs.Source.Layout
import FexprLisp.Proofs.Source.Stepwise
import FexprLisp.Proofs.Source.Consumption
import FexprLisp.Proofs.Eval.Wrapping
import FexprLisp.Proofs.Eval.Exactness
import FexprLisp.Proofs.Scope.Cells
import FexprLisp.Proofs.Machine.Store
import FexprLisp.Proofs.Source.Literal
import FexprLisp.Proofs.Value.Inspection
import FexprLisp.Proofs.Console.Printing
