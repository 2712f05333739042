import Vsector.Framework.Layers
import Vsector.Impl.Ingest.ShardContext
import Vsector.Impl.Sharding.Shard
import Vsector.Impl.Index.Base
import Vsector.Impl.Models.Namespace
import Vsector.Impl.Storage.Recovery
import Vsector.Impl.Storage.Segment
import Vsector.Impl.Models.VectorRecord
import Vsector.Impl.Errors
import Vsector.Framework.Run
import Vsector.Framework.Since
import Vsector.Framework.Refinement
import Vsector.Framework.DictMap
import Vsector.Impl.Models.NamespaceConfig
import Vsector.Impl.Storage.Metadata
import Vsector.Proof.Storage.Metadata
import Vsector.Framework.Dict
import Vsector.Framework.Framing
import Vsector.Framework.BigEndian
import Vsector.Framework.Digits
import Vsector.Impl.Storage.Wal
import Vsector.Framework.Slots
import Vsector.Impl.Storage.WalLifetimes
import Vsector.Impl.Storage.WalThreads
import Vsector.Proof.Storage.WalFiles
import Vsector.Proof.Storage.WalLifetimes
import Vsector.Proof.Storage.WalOrder
import Vsector.Proof.Storage.WalTornTail
import Vsector.Proof.Storage.WalThreads
import Vsector.Proof.Storage.Segments
import Vsector.Proof.Storage.Recovery
import Vsector.Proof.Ingest.ShardContext
import Vsector.Proof.Models.Documents
import Vsector.Proof.Ingest.Restart
import Vsector.Impl.Sharding.Replication
import Vsector.Proof.Sharding.Replication
import Vsector.Impl.Sharding.Router
import Vsector.Impl.Ingest.Service
import Vsector.Proof.Sharding.Etcd
import Vsector.Proof.Sharding.Router
import Vsector.Proof.Ingest.Service
import Vsector.Proof.Ingest.LastWrite
import Vsector.Proof.Storage.LastOperation
import Vsector.Proof.Storage.FlushNames
import Vsector.Proof.Storage.Tiering
import Vsector.Impl.Models.JsonText
import Vsector.Framework.PrefixCode
import Vsector.Proof.Models.JsonText
import Vsector.Proof.Models.SortKeys
import Vsector.Impl.Infra.Cache
import Vsector.Proof.Infra.CacheKey
import Vsector.Impl.Infra.CacheFleet
import Vsector.Proof.Infra.CacheFleet
import Vsector.Framework.Lines
import Vsector.Impl.Storage.TableFile
import Vsector.Proof.Storage.TornTable
import Vsector.Proof.Models.JsonBytes
import Vsector.Impl.Index.Flat
import Vsector.Proof.Ingest.IndexMirror
import Vsector.Impl.Index.Ann
import Vsector.Impl.Index.Hnsw
import Vsector.Impl.Index.IvfPq
import Vsector.Proof.Index.Ann
import Vsector.Framework.Proc
import Vsector.Impl.Sharding.Transfer
import Vsector.Impl.Sharding.Migration
import Vsector.Proof.Sharding.MigrationSteps
import Vsector.Impl.Sharding.Lifecycle
import Vsector.Impl.Api.Namespaces
import Vsector.Proof.Sharding.StaleGuard
import Vsector.Impl.Models.PyValue
import Vsector.Impl.Query.Filter
import Vsector.Impl.Ingest.DeleteFilter
import Vsector.Impl.Query.Engine
import Vsector.Impl.Api.Vectors
import Vsector.Proof.Ingest.Elsewhere
import Vsector.Proof.Query.Cached
import Vsector.Proof.Sharding.MigrationChanges
import Vsector.Proof.Sharding.MigrationHistory
import Vsector.Proof.Sharding.LifecycleStates
import Vsector.Impl.Sharding.LifecycleCalls
import Vsector.Proof.Sharding.RejectedCalls
import Vsector.Proof.Sharding.LifecycleSteps
import Vsector.Proof.Sharding.Disks
import Vsector.Proof.Storage.Filling
import Vsector.Proof.Sharding.CancelSafety
import Vsector.Proof.Sharding.ShardTransfer
import Vsector.Proof.Sharding.VerifiedCommit
import Vsector.Impl.Sharding.Transport
import Vsector.Proof.Sharding.DeliveryHealth
import Vsector.Proof.Sharding.Quorum
import Vsector.Framework.SnapshotWrites
import Vsector.Impl.Sharding.MetadataOps
import Vsector.Proof.Sharding.MetadataWriters
import Vsector.Proof.Ingest.ShardSplit
import Vsector.Impl.Models.JsonLoads
import Vsector.Proof.Models.JsonLoads
import Vsector.Proof.Models.JsonRoundTrip
import Vsector.Proof.Models.JsonCompact
import Vsector.Impl.Sharding.EtcdFile
import Vsector.Proof.Sharding.MetadataFile
import Vsector.Impl.Cluster.Bootstrap
import Vsector.Impl.Api.Startup
import Vsector.Proof.Api.Namespaces
import Vsector.Proof.Sharding.MetadataCrash
import Vsector.Impl.Sharding.FileStore
import Vsector.Proof.Sharding.MetadataRuns
import Vsector.Proof.Cluster.MembershipHistory
import Vsector.Impl.Sharding.Placement
import Vsector.Proof.Sharding.Placement
import Vsector.Proof.Ingest.Idempotency
import Vsector.Proof.Api.CreationCrash
import Vsector.Impl.Sharding.RouterCache
import Vsector.Proof.Sharding.RouterCache
import Vsector.Proof.Query.ReadOwnership
import Vsector.Framework.TopK
import Vsector.Proof.Query.ShardedSearch
import Vsector.Impl.Api.Rest
import Vsector.Proof.Api.Mediation
import Vsector.Proof.Storage.FailedFlush
import Vsector.Proof.Sharding.CommitOutcome
import Vsector.Proof.Sharding.MigrationEffects
import Vsector.Proof.Sharding.MigrationCrash
import Vsector.Proof.Ingest.FilterDelete
import Vsector.Proof.Ingest.VectorCount
import Vsector.Proof.Ingest.DeleteCounts
import Vsector.Proof.Query.FilterAgreement
import Vsector.Proof.Query.LowerBounds
import Vsector.Proof.Query.TagFilter
import Vsector.Impl.Storage.WalFaults
import Vsector.Proof.Storage.FailedWrite
import Vsector.Impl.Storage.WalRetention
import Vsector.Proof.Storage.Retention
import Vsector.Framework.FirstMax
import Vsector.Proof.Sharding.HashRing
import Vsector.Proof.Sharding.DeleteGate
import Vsector.Proof.Gateway.Policies
import Vsector.Proof.Storage.TruncatedSegment
import Vsector.Proof.Index.Flat
import Vsector.Proof.Query.ExactSearch
import Vsector.Proof.Index.FilteredSearch
import Vsector.Proof.Models.Checksum
import Vsector.Proof.Ingest.OneRecord
import Vsector.Proof.Ingest.ReadBack
import Vsector.Proof.Ingest.Spellings
import Vsector.Proof.Api.PatchMetadata
import Vsector.Framework.HalfEven
import Vsector.Impl.Index.Quantize
import Vsector.Proof.Index.Quantize
import Vsector.Impl.Models.Cost
import Vsector.Proof.Models.Cost
import Vsector.Framework.SlidingWindow
import Vsector.Impl.Gateway.RateLimit
import Vsector.Proof.Gateway.RateLimit
import Vsector.Framework.Bisect
import Vsector.Impl.Sharding.HashRing
import Vsector.Proof.Sharding.ConsistentHash
import Vsector.Impl.Query.Ranking
import Vsector.Proof.Query.MmrRanking
import Vsector.Impl.Index.Scann
import Vsector.Proof.Index.Scann
import Vsector.Proof.Sharding.ShardDigest
import Vsector.Framework.Balance
import Vsector.Impl.Sharding.Rebalance
import Vsector.Proof.Sharding.Rebalance
import Vsector.Proof.Sharding.RebalanceAccepted
import Vsector.Proof.Sharding.Redelivery
import Vsector.Proof.Sharding.OneMigration
import Vsector.Proof.Ingest.MigrationWrites
import Vsector.Proof.Ingest.IndexRows
import Vsector.Proof.Query.WrittenRecords
import Vsector.Framework.Replay
import Vsector.Impl.Api.Events
import Vsector.Proof.Api.Events
import Vsector.Framework.Keyspace
import Vsector.Impl.Sharding.Etcd3
import Vsector.Proof.Sharding.Etcd3
import Vsector.Impl.Sharding.Gossip
import Vsector.Proof.Sharding.Gossip
import Vsector.Proof.Sharding.Fencing
import Vsector.Framework.Unwinding
import Vsector.Proof.Ingest.Isolation
import Vsector.Proof.Query.Isolation
