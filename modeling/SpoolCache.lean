import SpoolCache.Base.OrderedDict
import SpoolCache.Base.Paging
import SpoolCache.Base.TrueDivision
import SpoolCache.Base.Bytes
import SpoolCache.Base.Sha256
import SpoolCache.Base.Json
import SpoolCache.Core.Values
import SpoolCache.Core.Config
import SpoolCache.Prefix.Span
import SpoolCache.Prefix.Digests
import SpoolCache.Prefix.KeySpace
import SpoolCache.Prefix.Boundaries
import SpoolCache.Prefix.Universe
import SpoolCache.Layout.Geometry
import SpoolCache.Layout.StoreSpan
import SpoolCache.Layout.Coverage
import SpoolCache.Quorum.Report
import SpoolCache.Quorum.Catalog
import SpoolCache.Quorum.Receiver
import SpoolCache.Quorum.Tracking
import SpoolCache.Quorum.Refinement
import SpoolCache.Quorum.Index
import SpoolCache.Quorum.Representation
import SpoolCache.Quorum.Generation
import SpoolCache.Quorum.Reporter
import SpoolCache.Quorum.Emission
import SpoolCache.Quorum.Agreement
import SpoolCache.Quorum.Rollback
import SpoolCache.Connector.Scheduler
import SpoolCache.Connector.Isolation
import SpoolCache.Store.TokenFiles
import SpoolCache.Store.Commit
import SpoolCache.Store.Withdrawal
import SpoolCache.Store.Steps
import SpoolCache.Store.CommitSteps
import SpoolCache.Store.Provenance
import SpoolCache.Connector.Worker
import SpoolCache.Connector.Honesty
import SpoolCache.Connector.LockStep
import SpoolCache.Connector.Restore
import SpoolCache.Connector.Lookup
import SpoolCache.Connector.HitSoundness
import SpoolCache.Base.Durable
import SpoolCache.Base.Fallible
import SpoolCache.Store.SmallFiles
import SpoolCache.Store.GenerationEpoch
import SpoolCache.Store.Scrub
import SpoolCache.Store.ScrubCoverage
import SpoolCache.Store.ScrubRequests
import SpoolCache.Base.Recency
import SpoolCache.Store.Chains
import SpoolCache.Store.CommitFiles
import SpoolCache.Store.Recency
import SpoolCache.Store.Leases
import SpoolCache.Store.FileFormat
import SpoolCache.Store.Disk
import SpoolCache.Store.Fencing
import SpoolCache.Store.Publication
import SpoolCache.Base.JsonReading
import SpoolCache.Connector.Rescan
import SpoolCache.Store.FileReader
import SpoolCache.Store.StreamCommit
import SpoolCache.Base.Tiling
import SpoolCache.Store.SnapshotCoverage
import SpoolCache.Store.ChainWalk
import SpoolCache.Quorum.WellFormed
import SpoolCache.Connector.LookupSpec
import SpoolCache.Connector.Admission
import SpoolCache.Connector.StorePlanning
import SpoolCache.Base.Locking
import SpoolCache.Store.LockOrder
import SpoolCache.Base.Strided
import SpoolCache.Mover.PageView
import SpoolCache.Base.CyclicPaging
import SpoolCache.Connector.MarkerPaging
import SpoolCache.Telemetry.Journal
import SpoolCache.Telemetry.JournalRuns
import SpoolCache.Telemetry.Merge
import SpoolCache.Telemetry.MergeSpec
import SpoolCache.Telemetry.Aggregate
import SpoolCache.Base.Signature
import SpoolCache.Connector.Compat
import SpoolCache.Connector.CompatSpec
import SpoolCache.Connector.CapacityRound
import SpoolCache.Store.Inventory
import SpoolCache.Store.HeaderBounds
import SpoolCache.Connector.PackageFingerprint
import SpoolCache.Store.FileIo
import SpoolCache.Base.Scatter
import SpoolCache.Mover.PageCopy
import SpoolCache.Mover.PinnedPool
import SpoolCache.Base.Traversal
import SpoolCache.Connector.ConfigValue
import SpoolCache.Connector.ConfigIdentity
import SpoolCache.Quorum.Convergence
import SpoolCache.Base.Cleanup
import SpoolCache.Base.Writes
import SpoolCache.Mover.CoveredPages
import SpoolCache.Store.CrashRecovery
import SpoolCache.Store.Delivery
import SpoolCache.Store.FileHistory
import SpoolCache.Store.IntactStream
import SpoolCache.Store.PageRoundTrip
import SpoolCache.Base.Simulation
import SpoolCache.Connector.RankRuns
