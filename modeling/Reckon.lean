import Reckon.Bindings
import Reckon.Json.Codec
import Reckon.Trace
import Reckon.Proofs.Denotation
import Reckon.Proofs.Completion
import Reckon.Proofs.Nesting
import Reckon.Proofs.FirstFault
import Reckon.Proofs.Tiling
import Reckon.Proofs.Location
import Reckon.Proofs.Script
import Reckon.Proofs.Lookups
import Reckon.Proofs.Observation
import Reckon.Proofs.Subreading
import Reckon.Proofs.Cursor
import Reckon.Proofs.Printing
import Reckon.Proofs.Splitting
import Reckon.Proofs.LongestPhrase
import Reckon.Proofs.Descent
import Reckon.Proofs.Context
import Reckon.Proofs.RoundTrip
import Reckon.Proofs.Joining
import Reckon.Proofs.Wraparound
import Reckon.Proofs.Numerals
import Reckon.Proofs.Dependence
import Reckon.Proofs.Neutral
import Reckon.Proofs.Equivariance
import Reckon.Proofs.Quotient
import Reckon.Proofs.Stores
import Reckon.Proofs.Wording
import Reckon.Proofs.JsonSymbols
import Reckon.Proofs.JsonText
import Reckon.Proofs.Serialization
import Reckon.Proofs.Tolerance
