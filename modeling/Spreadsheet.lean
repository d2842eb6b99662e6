import Spreadsheet.Arity
import Spreadsheet.Cell
import Spreadsheet.CellError
import Spreadsheet.Column
import Spreadsheet.Content
import Spreadsheet.Context
import Spreadsheet.Engine
import Spreadsheet.Expression.Basic
import Spreadsheet.Expression.Parser
import Spreadsheet.Expression.Token
import Spreadsheet.Expression.Value
import Spreadsheet.Formula.Argument
import Spreadsheet.Formula.Call
import Spreadsheet.Formula.Error
import Spreadsheet.Formula.Evaluate
import Spreadsheet.Formula.Scan
import Spreadsheet.Formula.Shift
import Spreadsheet.Formula.Token
import Spreadsheet.Formulas
import Spreadsheet.Graph.Basic
import Spreadsheet.Graph.Cycle
import Spreadsheet.Graph.Order
import Spreadsheet.Graph.Reach
import Spreadsheet.Grid
import Spreadsheet.Library.Aggregate
import Spreadsheet.Library.Basic
import Spreadsheet.Library.Call
import Spreadsheet.Library.Choice
import Spreadsheet.Library.Lookup
import Spreadsheet.Number.Binary
import Spreadsheet.Number.Decimal
import Spreadsheet.Number.Form
import Spreadsheet.Number.Reading
import Spreadsheet.Number.Rounding
import Spreadsheet.Number.Shortest
import Spreadsheet.Number.Whole
import Spreadsheet.Options
import Spreadsheet.Proofs.Cell.Key
import Spreadsheet.Proofs.Context
import Spreadsheet.Proofs.Context.Finite
import Spreadsheet.Proofs.Context.Invariant
import Spreadsheet.Proofs.Context.Machine
import Spreadsheet.Proofs.Context.Memo
import Spreadsheet.Proofs.Engine
import Spreadsheet.Proofs.Engine.Circular
import Spreadsheet.Proofs.Engine.Current
import Spreadsheet.Proofs.Expression.Comparison
import Spreadsheet.Proofs.Expression.Contract
import Spreadsheet.Proofs.Expression.Decimal
import Spreadsheet.Proofs.Expression.Grammar
import Spreadsheet.Proofs.Expression.Joint
import Spreadsheet.Proofs.Expression.Operand
import Spreadsheet.Proofs.Expression.Parser
import Spreadsheet.Proofs.Expression.Seam
import Spreadsheet.Proofs.Expression.Sound
import Spreadsheet.Proofs.Expression.Spelling
import Spreadsheet.Proofs.Formula.Apart
import Spreadsheet.Proofs.Formula.Arithmetic
import Spreadsheet.Proofs.Formula.Boundary
import Spreadsheet.Proofs.Formula.Call
import Spreadsheet.Proofs.Formula.Comparison
import Spreadsheet.Proofs.Formula.Copy
import Spreadsheet.Proofs.Formula.CutAlike
import Spreadsheet.Proofs.Formula.Expansion
import Spreadsheet.Proofs.Formula.Joined
import Spreadsheet.Proofs.Formula.Literal
import Spreadsheet.Proofs.Formula.Mark
import Spreadsheet.Proofs.Formula.Nested
import Spreadsheet.Proofs.Formula.Numeral
import Spreadsheet.Proofs.Formula.Places
import Spreadsheet.Proofs.Formula.Reads
import Spreadsheet.Proofs.Formula.Scan
import Spreadsheet.Proofs.Formula.Segment
import Spreadsheet.Proofs.Formula.Shift
import Spreadsheet.Proofs.Formula.Side
import Spreadsheet.Proofs.Formula.Substitution
import Spreadsheet.Proofs.Formula.Trim
import Spreadsheet.Proofs.Formula.WellFormed
import Spreadsheet.Proofs.Formula.Yields
import Spreadsheet.Proofs.Graph.Cycle
import Spreadsheet.Proofs.Graph.Edges
import Spreadsheet.Proofs.Graph.Incremental
import Spreadsheet.Proofs.Graph.Mirror
import Spreadsheet.Proofs.Graph.Order
import Spreadsheet.Proofs.Graph.Path
import Spreadsheet.Proofs.Graph.Recalculation
import Spreadsheet.Proofs.Graph.Tarjan
import Spreadsheet.Proofs.Grid
import Spreadsheet.Proofs.Grid.Writes
import Spreadsheet.Proofs.Library.Aggregate
import Spreadsheet.Proofs.Library.Choice
import Spreadsheet.Proofs.Library.Column
import Spreadsheet.Proofs.Library.Lookup
import Spreadsheet.Proofs.Library.Reads
import Spreadsheet.Proofs.Library.Yields
import Spreadsheet.Proofs.Number.Between
import Spreadsheet.Proofs.Number.Decimal
import Spreadsheet.Proofs.Number.Digits
import Spreadsheet.Proofs.Number.Model
import Spreadsheet.Proofs.Number.Nearest
import Spreadsheet.Proofs.Number.Order
import Spreadsheet.Proofs.Number.Quotient
import Spreadsheet.Proofs.Number.Reading
import Spreadsheet.Proofs.Number.RoundTrip
import Spreadsheet.Proofs.Number.Rounding
import Spreadsheet.Proofs.Number.Shortest
import Spreadsheet.Proofs.Query
import Spreadsheet.Proofs.Query.Yields
import Spreadsheet.Proofs.Range
import Spreadsheet.Proofs.Range.Cursor
import Spreadsheet.Proofs.Reference
import Spreadsheet.Proofs.Reference.Codec
import Spreadsheet.Proofs.Sheet.Affected
import Spreadsheet.Proofs.Sheet.Export
import Spreadsheet.Proofs.Sheet.Paste
import Spreadsheet.Proofs.Sheet.Run
import Spreadsheet.Proofs.Sheet.Styles
import Spreadsheet.Proofs.Style.Colour
import Spreadsheet.Proofs.Text.Closed
import Spreadsheet.Proofs.Text.Mask
import Spreadsheet.Proofs.Text.Nesting
import Spreadsheet.Proofs.Text.Part
import Spreadsheet.Proofs.Text.Quoted
import Spreadsheet.Proofs.Text.Search
import Spreadsheet.Proofs.Text.TopLevel
import Spreadsheet.Query
import Spreadsheet.Range
import Spreadsheet.Reference
import Spreadsheet.Sheet
import Spreadsheet.SheetError
import Spreadsheet.Style
import Spreadsheet.Text.Blank
import Spreadsheet.Text.Case
import Spreadsheet.Text.Case.Table
import Spreadsheet.Text.Cut
import Spreadsheet.Text.Nesting
import Spreadsheet.Text.Quoted
import Spreadsheet.Text.Word
import Spreadsheet.Value
