import TreeText.Main
import TreeText.Proofs.SExpr.Reader
import TreeText.Proofs.Encoding.Kernel
import TreeText.Proofs.Encoding.Agreement
import TreeText.Proofs.Encoding.FirstDefect
import TreeText.Proofs.Reading.Likeness
import TreeText.Proofs.Reading.Likeness.Expression
import TreeText.Proofs.Reading.Likeness.Statement
import TreeText.Proofs.Reading.Depth
import TreeText.Proofs.Reading.Trivia
import TreeText.Proofs.Reading.Counter
import TreeText.Proofs.Reading.Grammar
import TreeText.Proofs.Reading.Conformance
import TreeText.Proofs.Reading.Building
import TreeText.Proofs.Reading.Building.Literal
import TreeText.Proofs.Reading.Building.Call
import TreeText.Proofs.Reading.Building.Expression
import TreeText.Proofs.Reading.Building.Statement
import TreeText.Proofs.Reading.Induction
import TreeText.Proofs.Reading.Sorts
import TreeText.Proofs.Reading.Validity
import TreeText.Proofs.Reading.Accesses
import TreeText.Proofs.Reading.Nesting
import TreeText.Proofs.Json.Printer
import TreeText.Proofs.Json.Reader
import TreeText.Proofs.Tree.Interchange
import TreeText.Proofs.CommandLine.Strictness
import TreeText.Proofs.Encoding.Extension
import TreeText.Proofs.CommandLine.Pipeline
import TreeText.Proofs.Reading.Annotation
import TreeText.Proofs.Reading.Locality
import TreeText.Proofs.Cst.FirstError
import TreeText.Proofs.Reading.Faults
import TreeText.Proofs.Schema.Session
import TreeText.Proofs.Reading.Flattening
import TreeText.Proofs.Reading.Tuples
import TreeText.Proofs.Reading.Format
import TreeText.Proofs.Text.Brace
import TreeText.Proofs.Text.CharacterName
import TreeText.Proofs.Text.Escape
import TreeText.Proofs.Reading.Quoting
import TreeText.Proofs.Reading.Parameters
import TreeText.Proofs.Reading.Comparison
import TreeText.Proofs.Text.Segment
import TreeText.Proofs.Text.ByteRange
import TreeText.Proofs.Reading.Bytes
import TreeText.Proofs.Reading.Comprehension
import TreeText.Proofs.Encoding.Fields
import TreeText.Proofs.Reading.Conditional
import TreeText.Proofs.Encoding.Path
