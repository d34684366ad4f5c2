import ReadCache.Bindings
import ReadCache.ShardedMap
import ReadCache.Config.Text
import ReadCache.Counters
import ReadCache.Pool.Basic
import ReadCache.Reader
import ReadCache.ChunkId
import ReadCache.Memory
import ReadCache.Store.Engine
import ReadCache.Access
import ReadCache.Cache
import ReadCache.Scan.Run
import ReadCache.Scenario.CounterScript
import ReadCache.Scenario.MapScript
import ReadCache.Scenario.PoolScript
import ReadCache.Scenario.ReaderScript
import ReadCache.Scenario.Run
import ReadCache.Main
import ReadCache.Proofs.ShardedMap
import ReadCache.Proofs.Entries
import ReadCache.Proofs.Slots
import ReadCache.Proofs.References
import ReadCache.Proofs.Interleaving
import ReadCache.Proofs.Steps
import ReadCache.Proofs.Lifetimes
import ReadCache.Proofs.Transitions
import ReadCache.Proofs.Conservation
import ReadCache.Proofs.Weights
import ReadCache.Proofs.History
import ReadCache.Proofs.Eviction
import ReadCache.Proofs.Exclusion
import ReadCache.Proofs.Budget
import ReadCache.Proofs.Accounting
import ReadCache.Proofs.SingleFlight
import ReadCache.Proofs.Freshness
import ReadCache.Proofs.Hiding
import ReadCache.Proofs.LostLoads
import ReadCache.Proofs.Uninterrupted
import ReadCache.Proofs.WholeCalls
import ReadCache.Proofs.Sequential
import ReadCache.Proofs.Reading
import ReadCache.Proofs.Session
import ReadCache.Proofs.Faithfulness
import ReadCache.Proofs.Transparency
import ReadCache.Proofs.Recency
import ReadCache.Proofs.Overcounting
import ReadCache.Proofs.Hits
import ReadCache.Proofs.Passes
import ReadCache.Proofs.Pool
import ReadCache.Proofs.Loading
import ReadCache.Proofs.Attempts
import ReadCache.Proofs.Origins
import ReadCache.Proofs.Readership
import ReadCache.Proofs.Coverage
import ReadCache.Proofs.ClosedReaders
import ReadCache.Proofs.Invalidation
import ReadCache.Proofs.Statistics
import ReadCache.Proofs.FailedLoads
import ReadCache.Proofs.Deeds
import ReadCache.Proofs.PlainMemory
import ReadCache.Proofs.Twins
import ReadCache.Proofs.Sharding
import ReadCache.Proofs.OneMap
import ReadCache.Proofs.Retention
import ReadCache.Proofs.ShortReads
import ReadCache.Proofs.Routes
import ReadCache.Proofs.Crew
import ReadCache.Proofs.Scanning
import ReadCache.Proofs.OneByOne
import ReadCache.Proofs.WholeScans
import ReadCache.Proofs.EvictionTarget
import ReadCache.Proofs.LoadSizes
import ReadCache.Proofs.Handles
