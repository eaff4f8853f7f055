import FoldedHeader.HeaderValue
import FoldedHeader.Proofs.ContinuedParameter
import FoldedHeader.Proofs.RoundTrip
import FoldedHeader.Proofs.CheapestForm
import FoldedHeader.Proofs.LargerLimit
import FoldedHeader.Proofs.NoInjection
import FoldedHeader.Proofs.IndependentParameters
import FoldedHeader.Proofs.DistinctEncodings
import FoldedHeader.Proofs.ValuePrefix
import FoldedHeader.Proofs.TruthfulEvents
import FoldedHeader.Proofs.EditHistory
import FoldedHeader.Proofs.CanonicalPercent
import FoldedHeader.Proofs.CodeUnits
import FoldedHeader.Proofs.EquivalentValues
import FoldedHeader.Proofs.CanonicalQuoting
import FoldedHeader.Proofs.QuotableValues
import FoldedHeader.Proofs.ExtendedLength
import FoldedHeader.Proofs.LineWriter
import FoldedHeader.Proofs.BoundedTurns
import FoldedHeader.Proofs.ColumnAccounts
import FoldedHeader.Proofs.WordArithmetic
import FoldedHeader.Proofs.WordWriter
import FoldedHeader.Proofs.WordEncoder
