import MixedInteger.Coefficients
import MixedInteger.Constraint.Basic
import MixedInteger.Constraint.Reification
import MixedInteger.Constraint.Scaling
import MixedInteger.Constraint.Triviality
import MixedInteger.Document.Basic
import MixedInteger.Document.Parse
import MixedInteger.Document.Reader
import MixedInteger.Engine
import MixedInteger.Expression.Amplitude
import MixedInteger.Expression.Answerable
import MixedInteger.Expression.Basic
import MixedInteger.Expression.Cells
import MixedInteger.Expression.InPlace
import MixedInteger.Expression.Integrality
import MixedInteger.Expression.Interval
import MixedInteger.Expression.Operand
import MixedInteger.Expression.Partway
import MixedInteger.Expression.Product
import MixedInteger.Expression.Rendering
import MixedInteger.Fault
import MixedInteger.Fault.Wording
import MixedInteger.Implication.BigM
import MixedInteger.Implication.Native
import MixedInteger.Meaning.Feasibility
import MixedInteger.Meaning.Polynomial
import MixedInteger.Meaning.Product
import MixedInteger.Meaning.Snapshot
import MixedInteger.Meaning.Term
import MixedInteger.Meaning.Value
import MixedInteger.Model.Basic
import MixedInteger.Model.Ensemble
import MixedInteger.Model.Posting
import MixedInteger.Model.Registry
import MixedInteger.Model.Session
import MixedInteger.Numeric.Binary64
import MixedInteger.Numeric.Decimal
import MixedInteger.Numeric.Literal
import MixedInteger.Numeric.Notation
import MixedInteger.Numeric.Power
import MixedInteger.Numeric.Typed
import MixedInteger.Proofs.Acceptance
import MixedInteger.Proofs.Amplitudes
import MixedInteger.Proofs.Approach
import MixedInteger.Proofs.Arithmetic
import MixedInteger.Proofs.Atomicity
import MixedInteger.Proofs.BigM
import MixedInteger.Proofs.Bits
import MixedInteger.Proofs.Bounds
import MixedInteger.Proofs.BreakingOff
import MixedInteger.Proofs.Canonical
import MixedInteger.Proofs.Capabilities
import MixedInteger.Proofs.Capturing
import MixedInteger.Proofs.Centring
import MixedInteger.Proofs.Choice
import MixedInteger.Proofs.Comparison
import MixedInteger.Proofs.Completion
import MixedInteger.Proofs.DeadTerms
import MixedInteger.Proofs.Decision
import MixedInteger.Proofs.Degree
import MixedInteger.Proofs.Difference
import MixedInteger.Proofs.Encoding
import MixedInteger.Proofs.Exactness
import MixedInteger.Proofs.Export
import MixedInteger.Proofs.Figures
import MixedInteger.Proofs.Forgiveness
import MixedInteger.Proofs.Growth
import MixedInteger.Proofs.Invariance
import MixedInteger.Proofs.Isolation
import MixedInteger.Proofs.Keeping
import MixedInteger.Proofs.Kinds
import MixedInteger.Proofs.Legibility
import MixedInteger.Proofs.Naming
import MixedInteger.Proofs.Nearest
import MixedInteger.Proofs.Negation
import MixedInteger.Proofs.Nodes
import MixedInteger.Proofs.Numeral
import MixedInteger.Proofs.Optimum
import MixedInteger.Proofs.Order
import MixedInteger.Proofs.Ownership
import MixedInteger.Proofs.Parsing
import MixedInteger.Proofs.Pieces
import MixedInteger.Proofs.Posting
import MixedInteger.Proofs.Reach
import MixedInteger.Proofs.RealTexts
import MixedInteger.Proofs.Records
import MixedInteger.Proofs.Registration
import MixedInteger.Proofs.Remaking
import MixedInteger.Proofs.Rendering
import MixedInteger.Proofs.Replaceability
import MixedInteger.Proofs.Returning
import MixedInteger.Proofs.Scope
import MixedInteger.Proofs.Separation
import MixedInteger.Proofs.Shortest
import MixedInteger.Proofs.Sparing
import MixedInteger.Proofs.Stability
import MixedInteger.Proofs.Tightening
import MixedInteger.Proofs.Tokens
import MixedInteger.Proofs.Underflow
import MixedInteger.Proofs.Uniqueness
import MixedInteger.Proofs.Validation
import MixedInteger.Proofs.Words
import MixedInteger.Report.Table
import MixedInteger.Scalar.Basic
import MixedInteger.Scalar.Double
import MixedInteger.Scalar.Extended
import MixedInteger.Scalar.Number
import MixedInteger.Scalar.Powers
import MixedInteger.Scalar.Reals
import MixedInteger.Scalar.Rounding
import MixedInteger.Script.Copying
import MixedInteger.Script.Evaluation
import MixedInteger.Script.Heap
import MixedInteger.Script.Loose
import MixedInteger.Script.Operation
import MixedInteger.Script.Plain
import MixedInteger.Script.Question
import MixedInteger.Script.Step
import MixedInteger.Script.Telling
import MixedInteger.Script.Upkeep
import MixedInteger.Script.Value
import MixedInteger.Script.View
import MixedInteger.Script.Workspace
import MixedInteger.Settings.Basic
import MixedInteger.Settings.Storage
import MixedInteger.Settings.Text
import MixedInteger.Snapshot.Basic
import MixedInteger.Snapshot.Format
import MixedInteger.Text.Base64
import MixedInteger.Text.Blank
import MixedInteger.Text.Digit
import MixedInteger.Text.Quoted
import MixedInteger.Text.Utf8
import MixedInteger.Text.Visible
import MixedInteger.Variable
import MixedInteger.Yaml.Cursor
import MixedInteger.Yaml.Loading
import MixedInteger.Yaml.Node
import MixedInteger.Yaml.Refusal
import MixedInteger.Yaml.Scalar
import MixedInteger.Yaml.Tag
import MixedInteger.Yaml.Token
import MixedInteger.Yaml.Value
