import Authorization.Collection.PriorityQueue
import Authorization.Config.Format
import Authorization.Config.Override
import Authorization.Directory.Format
import Authorization.Json.Reader
import Authorization.Json.Writer
import Authorization.Metrics.Collector
import Authorization.Proofs.Interleaving.Handler
import Authorization.Proofs.Interleaving.Revocation
import Authorization.Proofs.Queries.Scan
import Authorization.Resolver.Query
import Authorization.Resolver.Warmup
import Authorization.Version
import Authorization.Proofs.Cache.History
import Authorization.Proofs.Cache.Recency
import Authorization.Proofs.Queries.Isolation
import Authorization.Proofs.Queue.HeapOrder
import Authorization.Proofs.Queue.History
import Authorization.Proofs.Queue.SlotOrder
import Authorization.Proofs.Catalog.Growth
import Authorization.Proofs.Catalog.Progress
import Authorization.Proofs.Catalog.Tracking
import Authorization.Proofs.Interleaving.Ending
import Authorization.Proofs.Catalog.Accounting
import Authorization.Proofs.Catalog.Agreement
import Authorization.Proofs.Queries.Listing
import Authorization.Proofs.Snapshots.Effect
import Authorization.Proofs.Queries.Reach
import Authorization.Proofs.Identifiers.Numbering
import Authorization.Proofs.Identifiers.Freshness
import Authorization.Proofs.Renewal.Carried
import Authorization.Proofs.Renewal.Consult
import Authorization.Proofs.Renewal.Twin
import Authorization.Proofs.Renewal.Run
import Authorization.Proofs.Renewal.Equivalence
import Authorization.Proofs.Queries.Lookup
import Authorization.Proofs.Queries.Failure
import Authorization.Proofs.Catalog.Creation
import Authorization.Proofs.Cache.Filling
import Authorization.Proofs.Warmup.Effect
import Authorization.Proofs.Warmup.Repetition
import Authorization.Proofs.Queries.Inquiry
import Authorization.Proofs.Queries.Trace
import Authorization.Proofs.Queries.Recall
import Authorization.Proofs.Queries.Outage
import Authorization.Proofs.Queries.WorkingSet
import Authorization.Proofs.Queries.Replies
import Authorization.Proofs.Commands.Sequence
import Authorization.Proofs.Commands.Edits
import Authorization.Proofs.Commands.Calls
import Authorization.Proofs.Commands.Marks
import Authorization.Proofs.Commands.SoftDeletion
import Authorization.Proofs.Commands.Independence
import Authorization.Proofs.Commands.Atomicity
import Authorization.Proofs.Cache.Conservation
import Authorization.Proofs.Interleaving.Displacement
import Authorization.Proofs.Metrics.Books
import Authorization.Proofs.Metrics.Settlement
import Authorization.Proofs.Metrics.Payment
import Authorization.Proofs.Metrics.Ledger
import Authorization.Proofs.Metrics.Unfolding
import Authorization.Proofs.Metrics.Audit
import Authorization.Proofs.Binary64.TotalOrder
import Authorization.Proofs.Binary64.Exact
import Authorization.Proofs.Collector.History
import Authorization.Proofs.Collector.Latency
import Authorization.Proofs.Collector.Percentile
import Authorization.Proofs.Config.Service
import Authorization.Proofs.Config.Size
import Authorization.Proofs.Json.RoundTrip
import Authorization.Proofs.Json.Text
import Authorization.Proofs.Json.Values
import Authorization.Json.Text
