import QueryLowering.Encoding.Plan
import QueryLowering.Proofs.Rendering
import QueryLowering.Query.Equality
import QueryLowering.Query.OfJson
import QueryLowering.Query.Sample
import QueryLowering.Rule.Origin
import QueryLowering.Settings.Text
import QueryLowering.Sexpr.Expectation
import QueryLowering.Sexpr.ToJson
import QueryLowering.Sexpr.Writer
import QueryLowering.Proofs.Trace
import QueryLowering.Proofs.Children
import QueryLowering.Proofs.Balance
import QueryLowering.Proofs.Walk
import QueryLowering.Proofs.Forest
import QueryLowering.Proofs.Reading
import QueryLowering.Proofs.ReadBack
import QueryLowering.Proofs.NormalForm
import QueryLowering.Proofs.Faithful
import QueryLowering.Proofs.Grammar
import QueryLowering.Proofs.Canonical
import QueryLowering.Proofs.Extension
import QueryLowering.Proofs.Chain
import QueryLowering.Proofs.PatternText
import QueryLowering.Proofs.Framing
import QueryLowering.Proofs.Threshold
import QueryLowering.Proofs.Loosening
import QueryLowering.Proofs.Parts
import QueryLowering.Proofs.JsonRoundTrip
import QueryLowering.Proofs.Levels
import QueryLowering.Proofs.Nesting
import QueryLowering.Proofs.Outline
import QueryLowering.Proofs.Naming
import QueryLowering.Proofs.Recovery
import QueryLowering.Proofs.Places
import QueryLowering.Proofs.Counting
import QueryLowering.Proofs.PatternSize
import QueryLowering.Proofs.Session
import QueryLowering.Proofs.JsonText
import QueryLowering.Proofs.Loading
