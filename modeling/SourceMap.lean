import SourceMap.Document.Files
import SourceMap.OriginIndex.Record
import SourceMap.Text.Utf8
import SourceMap.Proofs.OrderedMap.Lookup
import SourceMap.Proofs.OrderedMap.Order
import SourceMap.Proofs.Number.Order
import SourceMap.Proofs.OriginIndex.SourceOrder
import SourceMap.Proofs.OriginIndex.Lookup
import SourceMap.Proofs.OriginIndex.Invariant
import SourceMap.Proofs.OriginIndex.Listing
import SourceMap.Proofs.OriginIndex.Adding
import SourceMap.Proofs.Mappings.Tokens
import SourceMap.Proofs.OriginIndex.Built
import SourceMap.Proofs.Segment
import SourceMap.Proofs.Separators
import SourceMap.Proofs.OriginIndex.Placements
import SourceMap.Proofs.StableSort
import SourceMap.Proofs.Mappings.TextOrder
import SourceMap.Proofs.Mappings.Writing
import SourceMap.Proofs.Distinct
import SourceMap.Proofs.Mappings.RoundTrip
import SourceMap.Proofs.Mappings.Reading
import SourceMap.Proofs.Document.Composition
import SourceMap.Proofs.Document.Associativity
import SourceMap.Proofs.Mappings.PrefixSums
import SourceMap.Proofs.Number.Whole
import SourceMap.Proofs.Vlq.Grammar
import SourceMap.Proofs.Mappings.Following
import SourceMap.Proofs.Mappings.TokenPlaces
import SourceMap.Proofs.Mappings.RunningTotals
import SourceMap.Proofs.Mappings.Faults
import SourceMap.Proofs.Mappings.Offsets
import SourceMap.Proofs.Mappings.Layout
import SourceMap.Proofs.OriginIndex.Outline
import SourceMap.Proofs.OriginIndex.Checks
import SourceMap.Proofs.Mappings.Refusals
import SourceMap.Proofs.OriginIndex.Chaining
import SourceMap.Proofs.OriginIndex.InRange
import SourceMap.Proofs.OriginIndex.OriginOrder
import SourceMap.Proofs.Mappings.Rereading
import SourceMap.Proofs.Number.Saturation
import SourceMap.Proofs.Mappings.ReadCoordinates
import SourceMap.Proofs.Mappings.TokenCount
import SourceMap.Proofs.Mappings.GeneratedPlaces
import SourceMap.Proofs.Document.Accounting
import SourceMap.Proofs.Session.Consistency
import SourceMap.Proofs.OrderedMap.Assignments
import SourceMap.Proofs.Json.Strings
import SourceMap.Proofs.Number.Digits
import SourceMap.Proofs.Json.Numbers
import SourceMap.Proofs.Json.RoundTrip
import SourceMap.Proofs.Json.Fields
import SourceMap.Proofs.Document.Serialization
import SourceMap.Proofs.Path.Absolute
import SourceMap.Proofs.FileTree
import SourceMap.Proofs.Document.Files
import SourceMap.Proofs.Vlq.Defects
import SourceMap.Proofs.Vlq.Runs
import SourceMap.Proofs.Number.Products
import SourceMap.Proofs.Vlq.DoublePrecision
import SourceMap.Proofs.Vlq.Decoding
import SourceMap.Proofs.Vlq.Canonical
import SourceMap.Proofs.Document.Reencoding
import SourceMap.Proofs.Vlq.Range
import SourceMap.Proofs.Segment.Lockstep
import SourceMap.Proofs.OriginIndex.Additions
import SourceMap.Proofs.Mappings.NameTable
import SourceMap.Proofs.OriginIndex.Ranking
import SourceMap.Proofs.OriginIndex.Records
import SourceMap.Proofs.OriginIndex.RecordRoundTrip
import SourceMap.Proofs.Path.Relative
import SourceMap.Proofs.Segment.Legality
import SourceMap.Proofs.OrderedMap.Search
