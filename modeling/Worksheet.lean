import Worksheet.Builtin
import Worksheet.Diagnostic
import Worksheet.Document.Basic
import Worksheet.Document.Placeholder
import Worksheet.Error
import Worksheet.Evaluation
import Worksheet.Expr.Basic
import Worksheet.Expr.Parse
import Worksheet.Expr.Print
import Worksheet.Expr.Scope
import Worksheet.Json.Basic
import Worksheet.Json.Decode
import Worksheet.Json.Reader
import Worksheet.Markup
import Worksheet.Name
import Worksheet.Number.Binary
import Worksheet.Number.Closeness
import Worksheet.Number.Constant
import Worksheet.Number.Decimal
import Worksheet.Number.Numeral
import Worksheet.Number.Power
import Worksheet.Number.Radix
import Worksheet.Number.Rounding
import Worksheet.Number.Shortest
import Worksheet.Proofs.Document.Effect
import Worksheet.Proofs.Document.Isolation
import Worksheet.Proofs.Document.Parameters
import Worksheet.Proofs.Document.Places
import Worksheet.Proofs.Document.Remembered
import Worksheet.Proofs.Document.Rendered
import Worksheet.Proofs.Document.Reported
import Worksheet.Proofs.Document.Requested
import Worksheet.Proofs.Document.Rerun
import Worksheet.Proofs.Document.Run
import Worksheet.Proofs.Document.Scoped
import Worksheet.Proofs.Document.Shown
import Worksheet.Proofs.Document.Spliced
import Worksheet.Proofs.Document.Usable
import Worksheet.Proofs.Evaluation.Broadcast
import Worksheet.Proofs.Evaluation.Ensures
import Worksheet.Proofs.Evaluation.Finite
import Worksheet.Proofs.Evaluation.Frames
import Worksheet.Proofs.Evaluation.Invariant
import Worksheet.Proofs.Evaluation.Limits
import Worksheet.Proofs.Evaluation.Machine
import Worksheet.Proofs.Evaluation.Numbers
import Worksheet.Proofs.Evaluation.Policies
import Worksheet.Proofs.Evaluation.Quotient
import Worksheet.Proofs.Evaluation.Reports
import Worksheet.Proofs.Evaluation.Scoped
import Worksheet.Proofs.Evaluation.Termination
import Worksheet.Proofs.Evaluation.Uniform
import Worksheet.Proofs.Evaluation.Visits
import Worksheet.Proofs.Except
import Worksheet.Proofs.Expr.Alike
import Worksheet.Proofs.Expr.Arguments
import Worksheet.Proofs.Expr.Calls
import Worksheet.Proofs.Expr.Composition
import Worksheet.Proofs.Expr.Factor
import Worksheet.Proofs.Expr.Fractions
import Worksheet.Proofs.Expr.Grammar
import Worksheet.Proofs.Expr.Leaves
import Worksheet.Proofs.Expr.Nodes
import Worksheet.Proofs.Expr.Printed
import Worksheet.Proofs.Expr.ReadBack
import Worksheet.Proofs.Expr.Reading
import Worksheet.Proofs.Expr.Roots
import Worksheet.Proofs.Expr.Scoped
import Worksheet.Proofs.Expr.Shape
import Worksheet.Proofs.Expr.Spans
import Worksheet.Proofs.Expr.Tight
import Worksheet.Proofs.Markup
import Worksheet.Proofs.Name
import Worksheet.Proofs.Number.Exact
import Worksheet.Proofs.Number.Finite
import Worksheet.Proofs.Number.Numeral
import Worksheet.Proofs.Number.Whole
import Worksheet.Proofs.Quantity.Arithmetic
import Worksheet.Proofs.Quantity.Base
import Worksheet.Proofs.Quantity.Coherence
import Worksheet.Proofs.Quantity.Known
import Worksheet.Proofs.Quantity.Offset
import Worksheet.Proofs.Registry.Integrity
import Worksheet.Proofs.Registry.Scoped
import Worksheet.Proofs.Rendering.Closed
import Worksheet.Proofs.Rendering.Compact
import Worksheet.Proofs.Rendering.Evaluated
import Worksheet.Proofs.Rendering.Numbers
import Worksheet.Proofs.Rendering.Prefixes
import Worksheet.Proofs.Rendering.Units
import Worksheet.Proofs.Rendering.Values
import Worksheet.Proofs.Span
import Worksheet.Proofs.Statement.Again
import Worksheet.Proofs.Statement.Asking
import Worksheet.Proofs.Statement.Carried
import Worksheet.Proofs.Statement.Clear
import Worksheet.Proofs.Statement.Divide
import Worksheet.Proofs.Statement.Faults
import Worksheet.Proofs.Statement.Fragments
import Worksheet.Proofs.Statement.Hints
import Worksheet.Proofs.Statement.Names
import Worksheet.Proofs.Statement.Recovered
import Worksheet.Proofs.Statement.Result
import Worksheet.Proofs.Statement.Wrapped
import Worksheet.Proofs.Text.Blank
import Worksheet.Proofs.Text.Group
import Worksheet.Proofs.Text.Replace
import Worksheet.Proofs.Text.Search
import Worksheet.Proofs.Text.Slice
import Worksheet.Proofs.Text.Word
import Worksheet.Proofs.Token.Braceless
import Worksheet.Proofs.Token.Canonical
import Worksheet.Proofs.Token.Commands
import Worksheet.Proofs.Token.Decorations
import Worksheet.Proofs.Token.Faults
import Worksheet.Proofs.Token.Fronts
import Worksheet.Proofs.Token.Layout
import Worksheet.Proofs.Token.Lookahead
import Worksheet.Proofs.Token.Margins
import Worksheet.Proofs.Token.Named
import Worksheet.Proofs.Token.Numbers
import Worksheet.Proofs.Token.Operator
import Worksheet.Proofs.Token.Pieces
import Worksheet.Proofs.Token.Scans
import Worksheet.Proofs.Token.Sizing
import Worksheet.Proofs.Token.Spelling
import Worksheet.Proofs.Token.Squeezed
import Worksheet.Proofs.Token.Tiling
import Worksheet.Proofs.Token.UnitText
import Worksheet.Proofs.Token.Words
import Worksheet.Proofs.UnitProduct.Exponents
import Worksheet.Proofs.UnitProduct.Group
import Worksheet.Proofs.UnitProduct.Reduced
import Worksheet.Proofs.UnitTable.Accounts
import Worksheet.Proofs.UnitTable.Dimensions
import Worksheet.Proofs.UnitTable.Displays
import Worksheet.Proofs.UnitTable.Entries
import Worksheet.Proofs.UnitTable.Exact
import Worksheet.Proofs.UnitTable.Families
import Worksheet.Proofs.UnitTable.Faults
import Worksheet.Proofs.UnitTable.Growth
import Worksheet.Proofs.UnitTable.Integrity
import Worksheet.Proofs.UnitTable.Listing
import Worksheet.Proofs.UnitTable.Measure
import Worksheet.Proofs.UnitTable.RoundTrip
import Worksheet.Proofs.UnitTable.Says
import Worksheet.Proofs.UnitTable.Scale
import Worksheet.Proofs.UnitTable.Squeezed
import Worksheet.Proofs.UnitTable.Standard
import Worksheet.Proofs.UnitTable.Symbols
import Worksheet.Proofs.UnitTable.Texts
import Worksheet.Proofs.UnitTable.Turns
import Worksheet.Quantity
import Worksheet.Registry.Basic
import Worksheet.Registry.Snapshot
import Worksheet.Rendering
import Worksheet.Settings
import Worksheet.Span
import Worksheet.Statement.Basic
import Worksheet.Statement.Result
import Worksheet.Text.Blank
import Worksheet.Text.CharSet
import Worksheet.Text.Digit
import Worksheet.Text.Group
import Worksheet.Text.Letter
import Worksheet.Text.Search
import Worksheet.Text.Size
import Worksheet.Text.Word
import Worksheet.Token.Basic
import Worksheet.Token.Scan
import Worksheet.Token.UnitText
import Worksheet.UnitProduct
import Worksheet.UnitTable.Basic
import Worksheet.UnitTable.Build
import Worksheet.UnitTable.Definition
import Worksheet.UnitTable.Expression
import Worksheet.UnitTable.Standard
import Worksheet.Value
