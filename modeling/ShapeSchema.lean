import ShapeSchema.Config.Basic
import ShapeSchema.Config.Load
import ShapeSchema.Config.Yaml
import ShapeSchema.Convert.Checked
import ShapeSchema.Convert.Coerce
import ShapeSchema.Convert.Constraint
import ShapeSchema.Convert.Converter
import ShapeSchema.Convert.Parse
import ShapeSchema.Convert.Read
import ShapeSchema.Convert.Write
import ShapeSchema.Decimal.Double
import ShapeSchema.Decimal.Hex
import ShapeSchema.Decimal.Places
import ShapeSchema.Decimal.Power
import ShapeSchema.Decimal.Reading
import ShapeSchema.Decimal.Shortest
import ShapeSchema.Digest.Sha256
import ShapeSchema.Expr.ArrayMethod
import ShapeSchema.Expr.Binding
import ShapeSchema.Expr.Datum
import ShapeSchema.Expr.Dump
import ShapeSchema.Expr.Eval
import ShapeSchema.Expr.Filter
import ShapeSchema.Expr.Grammar
import ShapeSchema.Expr.ListFilter
import ShapeSchema.Expr.Member
import ShapeSchema.Expr.Method
import ShapeSchema.Expr.Node
import ShapeSchema.Expr.Operator
import ShapeSchema.Expr.Scalar
import ShapeSchema.Expr.Template
import ShapeSchema.Expr.Term
import ShapeSchema.Expr.Test
import ShapeSchema.Expr.TextFilter
import ShapeSchema.Expr.TextMethod
import ShapeSchema.Expr.Token
import ShapeSchema.Fault.Basic
import ShapeSchema.Fault.Build
import ShapeSchema.Fault.Convert
import ShapeSchema.Fault.Violation
import ShapeSchema.Interchange.Data
import ShapeSchema.Interchange.Definition
import ShapeSchema.Interchange.Fields
import ShapeSchema.Interchange.Report
import ShapeSchema.Interchange.Type
import ShapeSchema.Interchange.Value
import ShapeSchema.Log.Event
import ShapeSchema.Native.Basic
import ShapeSchema.Native.Canonical
import ShapeSchema.Native.JsonReader
import ShapeSchema.Native.Parts
import ShapeSchema.Native.Spoken
import ShapeSchema.Outcome.Basic
import ShapeSchema.Outcome.Diagnostic
import ShapeSchema.Proofs.Config.Forest
import ShapeSchema.Proofs.Config.Layers
import ShapeSchema.Proofs.Config.Offside
import ShapeSchema.Proofs.Convert.Absent
import ShapeSchema.Proofs.Convert.Accepts
import ShapeSchema.Proofs.Convert.Admits
import ShapeSchema.Proofs.Convert.Again
import ShapeSchema.Proofs.Convert.Alike
import ShapeSchema.Proofs.Convert.Checked
import ShapeSchema.Proofs.Convert.Coerced
import ShapeSchema.Proofs.Convert.Coercing
import ShapeSchema.Proofs.Convert.Conforms
import ShapeSchema.Proofs.Convert.Culprit
import ShapeSchema.Proofs.Convert.Faithful
import ShapeSchema.Proofs.Convert.Fits
import ShapeSchema.Proofs.Convert.Formed
import ShapeSchema.Proofs.Convert.Forms
import ShapeSchema.Proofs.Convert.Nullable
import ShapeSchema.Proofs.Convert.Omitted
import ShapeSchema.Proofs.Convert.Parsed
import ShapeSchema.Proofs.Convert.Placed
import ShapeSchema.Proofs.Convert.Places
import ShapeSchema.Proofs.Convert.Reading
import ShapeSchema.Proofs.Convert.Refuses
import ShapeSchema.Proofs.Convert.Rekeyed
import ShapeSchema.Proofs.Convert.Renamed
import ShapeSchema.Proofs.Convert.Reordered
import ShapeSchema.Proofs.Convert.Restated
import ShapeSchema.Proofs.Convert.Rests
import ShapeSchema.Proofs.Convert.Returns
import ShapeSchema.Proofs.Convert.RoundTrip
import ShapeSchema.Proofs.Convert.Shown
import ShapeSchema.Proofs.Convert.Simplified
import ShapeSchema.Proofs.Convert.Spelling
import ShapeSchema.Proofs.Convert.Streamed
import ShapeSchema.Proofs.Convert.Supported
import ShapeSchema.Proofs.Convert.Taken
import ShapeSchema.Proofs.Convert.Total
import ShapeSchema.Proofs.Convert.Trails
import ShapeSchema.Proofs.Convert.Variants
import ShapeSchema.Proofs.Convert.WellNamed
import ShapeSchema.Proofs.Convert.Writing
import ShapeSchema.Proofs.Convert.Written
import ShapeSchema.Proofs.Convert.WrittenAgain
import ShapeSchema.Proofs.Convert.WrittenZeros
import ShapeSchema.Proofs.Convert.Yielded
import ShapeSchema.Proofs.Decimal.Distinct
import ShapeSchema.Proofs.Decimal.Exact
import ShapeSchema.Proofs.Decimal.Nearest
import ShapeSchema.Proofs.Decimal.Whole
import ShapeSchema.Proofs.Lists
import ShapeSchema.Proofs.Native.Alike
import ShapeSchema.Proofs.Native.Canonical
import ShapeSchema.Proofs.Native.Entries
import ShapeSchema.Proofs.Native.KeyOrder
import ShapeSchema.Proofs.Native.Merged
import ShapeSchema.Proofs.Outcome.Literal
import ShapeSchema.Proofs.Resolve.Best
import ShapeSchema.Proofs.Resolve.Scores
import ShapeSchema.Proofs.Resolve.Variant
import ShapeSchema.Proofs.Schema.AnyOrder
import ShapeSchema.Proofs.Schema.Closed
import ShapeSchema.Proofs.Schema.Component
import ShapeSchema.Proofs.Schema.Cycles
import ShapeSchema.Proofs.Schema.Fingerprint
import ShapeSchema.Proofs.Schema.KeyOrder
import ShapeSchema.Proofs.Schema.Payload
import ShapeSchema.Proofs.Schema.Recursive
import ShapeSchema.Proofs.Schema.Registered
import ShapeSchema.Proofs.Schema.Walk
import ShapeSchema.Proofs.Shape.Built
import ShapeSchema.Proofs.Shape.Clashes
import ShapeSchema.Proofs.Shape.Finished
import ShapeSchema.Proofs.Shape.Found
import ShapeSchema.Proofs.Shape.GivenNames
import ShapeSchema.Proofs.Shape.Inhabits
import ShapeSchema.Proofs.Shape.Landing
import ShapeSchema.Proofs.Shape.Names
import ShapeSchema.Proofs.Shape.NullApart
import ShapeSchema.Proofs.Shape.RuleLists
import ShapeSchema.Proofs.Shape.Rules
import ShapeSchema.Proofs.Shape.Run
import ShapeSchema.Proofs.Shape.Terminates
import ShapeSchema.Proofs.Shape.Typed
import ShapeSchema.Proofs.Shape.Zeros
import ShapeSchema.Proofs.Text.Filled
import ShapeSchema.Proofs.Text.Order
import ShapeSchema.Proofs.Text.Template
import ShapeSchema.Proofs.Text.Words
import ShapeSchema.Proofs.Text.Written
import ShapeSchema.Proofs.Ty.Canonical
import ShapeSchema.Proofs.Ty.Constraints
import ShapeSchema.Proofs.Ty.Flags
import ShapeSchema.Proofs.Ty.Induction
import ShapeSchema.Proofs.Ty.Lasting
import ShapeSchema.Proofs.Ty.Mentions
import ShapeSchema.Proofs.Ty.NullApart
import ShapeSchema.Proofs.Ty.Open
import ShapeSchema.Proofs.Ty.ReadingMode
import ShapeSchema.Proofs.Ty.Reduced
import ShapeSchema.Proofs.Ty.Simplify
import ShapeSchema.Proofs.Ty.Streaming
import ShapeSchema.Proofs.Ty.Union
import ShapeSchema.Proofs.Value.Content
import ShapeSchema.Proofs.Value.PathText
import ShapeSchema.Proofs.Value.Same
import ShapeSchema.Resolve.Cursor
import ShapeSchema.Resolve.Union
import ShapeSchema.Schema.Cycles
import ShapeSchema.Schema.Definition
import ShapeSchema.Schema.Fingerprint
import ShapeSchema.Schema.Registry
import ShapeSchema.Session.Basic
import ShapeSchema.Session.Cache
import ShapeSchema.Shape.Builder
import ShapeSchema.Shape.Graph
import ShapeSchema.Shape.Naming
import ShapeSchema.Shape.Scalar
import ShapeSchema.Shape.Zero
import ShapeSchema.Text.Blank
import ShapeSchema.Text.Case
import ShapeSchema.Text.Cased
import ShapeSchema.Text.Escaped
import ShapeSchema.Text.Markup
import ShapeSchema.Text.Quoted
import ShapeSchema.Text.Search
import ShapeSchema.Text.Template
import ShapeSchema.Text.Units
import ShapeSchema.Ty.Basic
import ShapeSchema.Ty.Canonical
import ShapeSchema.Ty.Display
import ShapeSchema.Ty.Draft
import ShapeSchema.Ty.Metadata
import ShapeSchema.Ty.ReadingMode
import ShapeSchema.Ty.Simplify
import ShapeSchema.Ty.Streaming
import ShapeSchema.Ty.Visit
import ShapeSchema.Value.Basic
import ShapeSchema.Value.Media
import ShapeSchema.Value.Parts
import ShapeSchema.Value.Path
import ShapeSchema.Value.Plain
