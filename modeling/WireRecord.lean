import WireRecord.Catalog
import WireRecord.Derive.Expansion
import WireRecord.Proofs.Lists
import WireRecord.Proofs.Record.RoundTrip
import WireRecord.Proofs.Batch.Nesting
import WireRecord.Proofs.Batch.Verdict
import WireRecord.Proofs.Batch.Order
import WireRecord.Proofs.Batch.Interference
import WireRecord.Proofs.Batch.Placement
import WireRecord.Proofs.Schema.Spelling
import WireRecord.Proofs.Schema.Exactness
import WireRecord.Proofs.Record.SinkRun
import WireRecord.Proofs.Record.FailedWrite
import WireRecord.Proofs.Batch.Recursion
import WireRecord.Proofs.Derive.Knowledge
import WireRecord.Proofs.Derive.Expansion
import WireRecord.Proofs.Cursor.Replay
import WireRecord.Proofs.Segments.Slice
import WireRecord.Proofs.Segments.Canonical
import WireRecord.Proofs.Record.Size
import WireRecord.Proofs.Codec.Agreement
import WireRecord.Proofs.Sink.Lifetime
import WireRecord.Proofs.Sink.Headroom
import WireRecord.Proofs.Primitive.Law
import WireRecord.Proofs.Record.SinkCalls
import WireRecord.Proofs.Checked.Sink
import WireRecord.Proofs.Schema.Classification
import WireRecord.Proofs.Record.ByteOrder
import WireRecord.Proofs.Derive.Regrouping
import WireRecord.Proofs.Derive.Merging
import WireRecord.Proofs.Schema.Descent
import WireRecord.Proofs.Schema.Resolution
import WireRecord.Proofs.Codec.Routing
import WireRecord.Proofs.Codec.Provenance
