import Scss.Result
import Scss.Number.Exact
import Scss.Number.Rounding
import Scss.Number.Decimal
import Scss.Number.Single
import Scss.Text.Blank
import Scss.Text.Invisible
import Scss.Text.Quoted
import Scss.Text.Hex
import Scss.Text.Names
import Scss.Text.Template
import Scss.Color.Scalar
import Scss.Color.Basic
import Scss.Color.Named
import Scss.Value.Basic
import Scss.Value.Style
import Scss.Value.Read
import Scss.Arithmetic.Division
import Scss.Arithmetic.Quantity
import Scss.Arithmetic.Evaluate
import Scss.Variables.Table
import Scss.Function.Call
import Scss.Function.Builtin
import Scss.Function.Registry
import Scss.Log
import Scss.Diagnostic
import Scss.Token.Position
import Scss.Token.Numeral
import Scss.Token.Basic
import Scss.Token.Name
import Scss.Token.Text
import Scss.Token.Lexeme
import Scss.Token.Component
import Scss.Token.SyntaxError
import Scss.Stylesheet.Basic
import Scss.Stylesheet.Read
import Scss.Compile.Journal
import Scss.Compile.Resolve
import Scss.Compile.Settle
import Scss.Compile.Basic
import Scss.Proofs.Outcomes
import Scss.Proofs.Tables
import Scss.Proofs.Collection
import Scss.Proofs.Resolution
import Scss.Proofs.SettlingOrder
import Scss.Proofs.Builtins
import Scss.Proofs.Arguments
import Scss.Proofs.Evaluation
import Scss.Proofs.Precedence
import Scss.Proofs.ResolvedForm
import Scss.Proofs.Compilation
import Scss.Proofs.Markers
import Scss.Proofs.Fixpoint
import Scss.Proofs.Independence
import Scss.Proofs.Lexing
import Scss.Proofs.Layout
import Scss.Proofs.RoundTrip
import Scss.Proofs.Segments
import Scss.Proofs.ReducedForm
import Scss.Proofs.OutputStyle
import Scss.Proofs.Conservation
import Scss.Proofs.UnitChecking
import Scss.Proofs.Nesting
import Scss.Proofs.QuotedStrings
import Scss.Proofs.Insertion
import Scss.Proofs.ScanEnds
import Scss.Proofs.TokenBoundary
import Scss.Proofs.Readings
import Scss.Proofs.Comments
import Scss.Proofs.LiteralValues
import Scss.Proofs.ColorFolding
import Scss.Proofs.BinaryRounding
import Scss.Proofs.Doubles
import Scss.Proofs.NumberText
import Scss.Proofs.Interpolation
import Scss.Proofs.SourceText
import Scss.Proofs.PropertyNames
import Scss.Proofs.Declarations
import Scss.Proofs.Finiteness
import Scss.Proofs.ExactColors
import Scss.Proofs.Mixing
import Scss.Proofs.HslRoundTrip
import Scss.Proofs.CommentText
import Scss.Proofs.TrailingComments
