import LambdaTally.Command
import LambdaTally.Interchange
import LambdaTally.Main
import LambdaTally.Proofs.Grammar.Ending
import LambdaTally.Proofs.Introducers
import LambdaTally.Proofs.Sentences
import LambdaTally.Proofs.Tally
import LambdaTally.Proofs.Expressions
import LambdaTally.Proofs.Source.Within
import LambdaTally.Proofs.Source.Locality
import LambdaTally.Proofs.Structural.Steps
import LambdaTally.Proofs.Source.Opaque
import LambdaTally.Proofs.Opacity
import LambdaTally.Proofs.Directives
import LambdaTally.Proofs.Splices
import LambdaTally.Proofs.LineEndings
import LambdaTally.Proofs.Lines
import LambdaTally.Proofs.Attributes
import LambdaTally.Proofs.Sampling.Thinning
import LambdaTally.Proofs.Collection
import LambdaTally.Proofs.Roots
import LambdaTally.Proofs.Exclusion
import LambdaTally.Proofs.Aggregation
import LambdaTally.Proofs.RoundTrip
import LambdaTally.Proofs.Output.Records
import LambdaTally.Proofs.Squares
import LambdaTally.Proofs.Json.Sorted
import LambdaTally.Proofs.Text.Decoding
import LambdaTally.Proofs.Output.JsonLines
import LambdaTally.Proofs.RawStrings
import LambdaTally.Proofs.OperatorNames
import LambdaTally.Proofs.Whitespace
import LambdaTally.Proofs.QuotedLiterals
import LambdaTally.Proofs.DigitSeparators
import LambdaTally.Proofs.Sampling.Extent
import LambdaTally.Proofs.SortOrder
import LambdaTally.Proofs.Stability
import LambdaTally.Proofs.Number.Exact
import LambdaTally.Proofs.Sampling.Generator
import LambdaTally.Proofs.Number.Natural
import LambdaTally.Proofs.Sizes
import LambdaTally.Proofs.Extensions
import LambdaTally.Proofs.Progress
