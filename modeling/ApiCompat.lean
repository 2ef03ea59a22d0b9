import ApiCompat.Api.Lookup
import ApiCompat.CommandLine.Run
import ApiCompat.Json.Read
import ApiCompat.Api.OfJson
import ApiCompat.Main
import ApiCompat.Proofs.Api.Keyed
import ApiCompat.Proofs.Api.Same
import ApiCompat.Proofs.Compare.Additions
import ApiCompat.Proofs.Compare.Composition
import ApiCompat.Proofs.Compare.Conversions
import ApiCompat.Proofs.Compare.Removals
import ApiCompat.Proofs.Compare.Surface
import ApiCompat.Proofs.Compare.Equality
import ApiCompat.Proofs.Compare.Reordering
import ApiCompat.Proofs.Api.Unplaced
import ApiCompat.Proofs.Signature.Concatenation
import ApiCompat.Proofs.Signature.Reread
import ApiCompat.Proofs.Signature.WellFormed
import ApiCompat.Proofs.Accepts.Texts
import ApiCompat.Proofs.Signature.Stored
import ApiCompat.Proofs.Api.Serialized
import ApiCompat.Proofs.CommandLine.ExitCode
import ApiCompat.Proofs.Report.Composition
import ApiCompat.Proofs.Compare.Pairs
import ApiCompat.Proofs.Compare.Observed
import ApiCompat.Proofs.Compare.Locality
import ApiCompat.Proofs.Compare.Places
import ApiCompat.Proofs.Respaced.Texts
import ApiCompat.Proofs.Respaced.Spacing
import ApiCompat.Proofs.Api.Outline
import ApiCompat.Proofs.Ordered.Pointwise
import ApiCompat.Proofs.Api.Qualified
import ApiCompat.Proofs.Compare.TypeChanges
import ApiCompat.Proofs.Signature.Headed
import ApiCompat.Proofs.Faults.Places
import ApiCompat.Proofs.Signature.TypeRoundTrip
import ApiCompat.Proofs.CommandLine.Saved
import ApiCompat.Proofs.Signature.Verbatim
import ApiCompat.Proofs.Signature.Local
import ApiCompat.Proofs.Signature.Refront
import ApiCompat.Proofs.Signature.Rearranged
import ApiCompat.Proofs.Cursor.Texts
