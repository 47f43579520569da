import ExprTyping.Name
import ExprTyping.Span
import ExprTyping.Text.Bytes
import ExprTyping.Text.Lines
import ExprTyping.Interner
import ExprTyping.Interner.Handles
import ExprTyping.Operator
import ExprTyping.Ty
import ExprTyping.Ty.Render
import ExprTyping.Scope
import ExprTyping.Scope.Session
import ExprTyping.Graph
import ExprTyping.Graph.Traversal
import ExprTyping.TypeError
import ExprTyping.Rule
import ExprTyping.Log
import ExprTyping.Checker
import ExprTyping.Diagnostic
import ExprTyping.Diagnostic.Queue
import ExprTyping.Diagnostic.Layout
import ExprTyping.Sink
import ExprTyping.Terminal
import ExprTyping.Batch
import ExprTyping.Report
import ExprTyping.Proofs.Reachability
import ExprTyping.Proofs.Fold
import ExprTyping.Proofs.Visit
import ExprTyping.Proofs.Rule
import ExprTyping.Proofs.Compositionality
import ExprTyping.Proofs.Absorption
import ExprTyping.Proofs.Typing
import ExprTyping.Proofs.Suppression
import ExprTyping.Proofs.Placement
import ExprTyping.Proofs.Selection
import ExprTyping.Proofs.Report
import ExprTyping.Proofs.DistinctCount
import ExprTyping.Proofs.Unfolding
import ExprTyping.Proofs.Walk
import ExprTyping.Proofs.Access
import ExprTyping.Proofs.Termination
import ExprTyping.Proofs.Weakening
import ExprTyping.Proofs.Renaming
import ExprTyping.Proofs.Numbering
import ExprTyping.Proofs.Parentheses
import ExprTyping.Proofs.Explanation
import ExprTyping.Proofs.Reuse
import ExprTyping.Proofs.Session
import ExprTyping.Proofs.Snapshot
import ExprTyping.Proofs.Interning
import ExprTyping.Proofs.Position
import ExprTyping.Proofs.Linearization
import ExprTyping.Proofs.OrderIndependence
import ExprTyping.Proofs.Allocation
import ExprTyping.Proofs.Line
import ExprTyping.Proofs.Rendering
import ExprTyping.Proofs.Underline
import ExprTyping.Proofs.Arguments
import ExprTyping.Proofs.Readability
import ExprTyping.Proofs.Repeats
import ExprTyping.Proofs.Lookup
import ExprTyping.Proofs.Symmetry
import ExprTyping.Proofs.Fields
import ExprTyping.Proofs.Decoration
import ExprTyping.Proofs.Truncation
