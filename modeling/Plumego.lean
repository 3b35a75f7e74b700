import Plumego.Cache.Memory
import Plumego.Distributed.HashRing
import Plumego.Go.Binary
import Plumego.Go.Calendar
import Plumego.Go.Maps
import Plumego.Go.Numbers
import Plumego.Go.Order
import Plumego.Go.Slices
import Plumego.Go.Strings
import Plumego.Go.Time
import Plumego.Go.Utf8
import Plumego.KvEngine.Codec
import Plumego.KvEngine.Lru
import Plumego.KvEngine.Store
import Plumego.KvStore.Store
import Plumego.Lib.Chain
import Plumego.Lib.Circle
import Plumego.Lib.Counting
import Plumego.Lib.Gregorian
import Plumego.Lib.IndexedHeap
import Plumego.Lib.KeyedStore
import Plumego.Lib.LabelTree
import Plumego.Lib.Machine
import Plumego.Lib.Reading
import Plumego.Lib.Search
import Plumego.Lib.Stream
import Plumego.Lib.TimedLog
import Plumego.Lib.TokenBucket
import Plumego.Lib.Traversal
import Plumego.Mq.MemStore
import Plumego.Mq.Worker
import Plumego.Proofs.AbuseBound
import Plumego.Proofs.AbuseCleanup
import Plumego.Proofs.AuditChain
import Plumego.Proofs.BreakerHalfOpen
import Plumego.Proofs.BreakerTransitions
import Plumego.Proofs.CacheMemory
import Plumego.Proofs.CancelCascade
import Plumego.Proofs.CronFields
import Plumego.Proofs.CronNext
import Plumego.Proofs.CronZones
import Plumego.Proofs.DelayScheduling
import Plumego.Proofs.DelayedOnce
import Plumego.Proofs.DependencyGraph
import Plumego.Proofs.FixedWindowBound
import Plumego.Proofs.FrameCodec
import Plumego.Proofs.HashRing
import Plumego.Proofs.HashRingHistory
import Plumego.Proofs.HubOrder
import Plumego.Proofs.HubRateLimit
import Plumego.Proofs.HubRooms
import Plumego.Proofs.HubSteps
import Plumego.Proofs.HubStop
import Plumego.Proofs.KvAccounting
import Plumego.Proofs.KvCodec
import Plumego.Proofs.KvContents
import Plumego.Proofs.KvLru
import Plumego.Proofs.KvRecovery
import Plumego.Proofs.KvSessions
import Plumego.Proofs.KvStoreCalls
import Plumego.Proofs.KvStoreRoundTrip
import Plumego.Proofs.KvWalReplay
import Plumego.Proofs.MessageStream
import Plumego.Proofs.OrderedPublishing
import Plumego.Proofs.OrderedShutdown
import Plumego.Proofs.PersistedLoading
import Plumego.Proofs.PriorityBuffering
import Plumego.Proofs.QuotaStore
import Plumego.Proofs.RebalanceHandshake
import Plumego.Proofs.RetryDelays
import Plumego.Proofs.RingRefinement
import Plumego.Proofs.RouterAtomicity
import Plumego.Proofs.RouterCache
import Plumego.Proofs.RouterDispatch
import Plumego.Proofs.RouterLookup
import Plumego.Proofs.RouterMatching
import Plumego.Proofs.RouterRegistration
import Plumego.Proofs.RouterTable
import Plumego.Proofs.SerialCatchUp
import Plumego.Proofs.SlidingQuota
import Plumego.Proofs.TaskDedupe
import Plumego.Proofs.TaskLifecycle
import Plumego.Proofs.TaskMoves
import Plumego.Proofs.TaskStranding
import Plumego.Proofs.TenantCache
import Plumego.Proofs.WaitingJobs
import Plumego.PubSub.Audit
import Plumego.PubSub.DelayedPublish
import Plumego.PubSub.OrderedClose
import Plumego.PubSub.Ordering
import Plumego.PubSub.PriorityBuffer
import Plumego.PubSub.Rebalance
import Plumego.PubSub.RetryDelay
import Plumego.PubSub.RingBuffer
import Plumego.Resilience.CircuitBreaker
import Plumego.Router.Dispatch
import Plumego.Router.Matcher
import Plumego.Router.Path
import Plumego.Router.PathScan
import Plumego.Router.Registration
import Plumego.Scheduler.Completions
import Plumego.Scheduler.Cron
import Plumego.Scheduler.CronFields
import Plumego.Scheduler.CronZones
import Plumego.Scheduler.Jobs
import Plumego.Scheduler.Persisted
import Plumego.Scheduler.SerialQueue
import Plumego.Security.AbuseCleanup
import Plumego.Security.AbuseLimiter
import Plumego.Tenant.Cache
import Plumego.Tenant.Quota
import Plumego.Tenant.SlidingQuota
import Plumego.Webhook.DelayScheduler
import Plumego.Websocket.Frames
import Plumego.Websocket.Hub
import Plumego.Websocket.Messages
import Plumego.Websocket.RateLimiter
