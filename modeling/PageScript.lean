import PageScript.Embedding.Stock
import PageScript.Main
import PageScript.Scope.Forest
import PageScript.StyleCheck
import PageScript.Proofs.Evaluation.Correspondence
import PageScript.Proofs.Evaluation.Drift
import PageScript.Proofs.Evaluation.ControlState
import PageScript.Proofs.Evaluation.GlobalNames
import PageScript.Proofs.Evaluation.CallerFrames
import PageScript.Proofs.Evaluation.Truncation
import PageScript.Proofs.Grammar.Correspondence
import PageScript.Proofs.Grammar.Progress
import PageScript.Proofs.Token.Typeset
import PageScript.Proofs.Token.Lines
import PageScript.Proofs.Grammar.Lines
import PageScript.Proofs.Grammar.Operators
import PageScript.Proofs.Grammar.Reads
import PageScript.Proofs.Source.Syntax
import PageScript.Proofs.Source.Reading
import PageScript.Proofs.Source.RoundTrip
import PageScript.Proofs.Source.Printing
import PageScript.Proofs.Grammar.Beginning
import PageScript.Proofs.Grammar.Foretelling
import PageScript.Proofs.Source.Exhaustion
import PageScript.Proofs.Source.Continuation
import PageScript.Proofs.Evaluation.Failures
import PageScript.Proofs.Evaluation.Observation
import PageScript.Proofs.Evaluation.Holdings
import PageScript.Proofs.Evaluation.Provenance
import PageScript.Proofs.Evaluation.Numbers
import PageScript.Proofs.Evaluation.Confinement
import PageScript.Proofs.Grammar.Words
import PageScript.Proofs.Grammar.Shape
import PageScript.Proofs.Document.Recovery
import PageScript.Proofs.Document.Places
import PageScript.Proofs.Document.Depth
import PageScript.Proofs.Document.Operations
import PageScript.Proofs.Evaluation.Presence
import PageScript.Proofs.Evaluation.Echo
import PageScript.Proofs.Shell.Groups
import PageScript.Proofs.Evaluation.Piecemeal
import PageScript.Proofs.Shell.Session
import PageScript.Proofs.Source.Layout
import PageScript.Proofs.Shell.Agreement
import PageScript.Proofs.Token.Segments
import PageScript.Proofs.Token.Decomposition
import PageScript.Proofs.Evaluation.Unlimited
import PageScript.Proofs.Source.Arithmetic
import PageScript.Proofs.Evaluation.Hoisting
import PageScript.Proofs.Evaluation.Monitoring
import PageScript.Proofs.Evaluation.Nesting
import PageScript.Proofs.Evaluation.Range
import PageScript.Proofs.Evaluation.Unwinding
import PageScript.Proofs.Evaluation.ReadOnly
import PageScript.Proofs.Evaluation.Arguments
import PageScript.Proofs.Scope.Nearest
import PageScript.Proofs.Grammar.Calls
import PageScript.Proofs.Grammar.Weights
import PageScript.Proofs.Source.Terminators
import PageScript.Proofs.Document.Attribution
import PageScript.Proofs.Shell.Limits
