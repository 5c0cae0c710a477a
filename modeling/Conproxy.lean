import Conproxy.Lib.WeightedTable
import Conproxy.Lib.Machine
import Conproxy.Lib.Squeeze
import Conproxy.Lib.Trace
import Conproxy.Lib.LastWrite
import Conproxy.Lib.KeyIndex
import Conproxy.Lib.SecondChance
import Conproxy.Lib.TwoQueues
import Conproxy.Lib.Checks
import Conproxy.Lib.Layering
import Conproxy.Lib.FirstSeen
import Conproxy.Lib.Grouping
import Conproxy.Lib.Ranks
import Conproxy.Lib.Streaks
import Conproxy.Lib.Shares
import Conproxy.Lib.Recency
import Conproxy.Lib.Costs
import Conproxy.Lib.Outputs
import Conproxy.Lib.Noninterference
import Conproxy.Lib.Weighing
import Conproxy.Lib.Leaders
import Conproxy.Lib.Sorting
import Conproxy.Lib.Chunks
import Conproxy.Lib.Window
import Conproxy.Lib.Words
import Conproxy.Lib.Substitution
import Conproxy.Lib.Progress
import Conproxy.Lib.Extremum
import Conproxy.Lib.TomlTables
import Conproxy.Lib.TomlGrammar
import Conproxy.Lib.TomlLines
import Conproxy.Lib.TomlStrings
import Conproxy.Text
import Conproxy.Types
import Conproxy.Truncation
import Conproxy.Cdc
import Conproxy.Persistence
import Conproxy.Sample
import Conproxy.Namespaces
import Conproxy.Semantic
import Conproxy.Agent
import Conproxy.RateLimit
import Conproxy.Cache.Store
import Conproxy.Cache.Eviction
import Conproxy.Cache.Operations
import Conproxy.Version
import Conproxy.Cache.Keys
import Conproxy.Cache.Core
import Conproxy.Cache.Scans
import Conproxy.Cache.Calls
import Conproxy.Cache.Residency
import Conproxy.Cache.Pruning
import Conproxy.Cache.Representation
import Conproxy.Cache.Memory
import Conproxy.Cache.Reload
import Conproxy.Cache.Contents
import Conproxy.Cache.Mappings
import Conproxy.Cache.UpstreamLimit
import Conproxy.Cache.Requests
import Conproxy.Cache.Admission
import Conproxy.Cache.Crowding
import Conproxy.Cache.Rounds
import Conproxy.Cache.Persisted
import Conproxy.Cache.RoundTrip
import Conproxy.Cache.Events
import Conproxy.Cache.Tier
import Conproxy.Cache.Integrity
import Conproxy.Peer.Receiver
import Conproxy.Peer.Removals
import Conproxy.Peer.Mesh
import Conproxy.Peer.Convergence
import Conproxy.Peer.Snapshot
import Conproxy.Peer.Singleflight
import Conproxy.Circuit
import Conproxy.Pool.Connections
import Conproxy.Pool.Permits
import Conproxy.Pool.Queue
import Conproxy.Server.State
import Conproxy.Server.Query
import Conproxy.Server.Handlers
import Conproxy.Server.Exits
import Conproxy.Server.Provenance
import Conproxy.Server.Tracing
import Conproxy.Server.Writes
import Conproxy.Server.Storing
import Conproxy.Server.Isolation
import Conproxy.Server.Sharing
import Conproxy.Server.Tags
import Conproxy.Server.Tiers
import Conproxy.Server.Metrics
import Conproxy.Server.Latency
import Conproxy.Server.Protection
import Conproxy.Server.Expiry
import Conproxy.Server.Coalescing
import Conproxy.Auth
import Conproxy.Revocation
import Conproxy.Scope
import Conproxy.Pool.Strategies
import Conproxy.Cascade
import Conproxy.Dispatch
import Conproxy.Distill
import Conproxy.Pool.Failover
import Conproxy.Effort
import Conproxy.Preference
import Conproxy.BestEffort
import Conproxy.ScopeModes
import Conproxy.Fusion
import Conproxy.Sections
import Conproxy.Config
import Conproxy.Layers
import Conproxy.Settings
import Conproxy.Validation
import Conproxy.Projection
import Conproxy.Tune
import Conproxy.Federated
import Conproxy.Merging
import Conproxy.SemanticTier
import Conproxy.Resilience
import Conproxy.Priority
import Conproxy.Batch
import Conproxy.BatchTasks
import Conproxy.Adapter
import Conproxy.Context
import Conproxy.ContextTable
import Conproxy.Server.Access
import Conproxy.Server.Gates
import Conproxy.Server.Delegation
import Conproxy.Convert
import Conproxy.SmartEmbedder
import Conproxy.EmbedderCoalescing
import Conproxy.EmbeddingBound
import Conproxy.Engine
import Conproxy.BatchEmbedding
import Conproxy.Hits
import Conproxy.Server.Refresh
import Conproxy.Server.Reload
import Conproxy.Server.Scoped
import Conproxy.Cache.Freshness
import Conproxy.Cache.Smart
import Conproxy.Cache.Verified
import Conproxy.Server.Workers
import Conproxy.Server.Revalidation
import Conproxy.Cache.Twins
import Conproxy.Server.Parity
import Conproxy.Pool.Health
import Conproxy.Pool.Live
import Conproxy.Pool.Disabled
import Conproxy.Pool.Selection
import Conproxy.Pool.Weights
import Conproxy.Tuning.Session
import Conproxy.Tuning.Selection
import Conproxy.Tuning.Isolation
import Conproxy.Tuning.CascadeTune
import Conproxy.Tuning.CacheTune
import Conproxy.Tuning.ScopeJson
import Conproxy.Tuning.ScopeTune
import Conproxy.Tuning.RateLimitTune
import Conproxy.Tuning.ExportChoice
import Conproxy.Tuning.ApplyFrame
import Conproxy.Tuning.ExportText
import Conproxy.Tuning.Benchmark
import Conproxy.Recovery
import Conproxy.Server.Clients
import Conproxy.Audit
import Conproxy.Adaptive
import Conproxy.Normalization
import Conproxy.Subscription
import Conproxy.Peer.Join
import Conproxy.Peer.Replication
import Conproxy.Pgvector
import Conproxy.Lib.Calendar
import Conproxy.Timestamps
import Conproxy.Lib.SocketText
import Conproxy.HttpAddress
import Conproxy.Retry
import Conproxy.QueryStats
import Conproxy.Shielding
