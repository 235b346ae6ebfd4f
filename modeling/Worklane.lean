import Worklane.Lib.Machine
import Worklane.Lib.Segments
import Worklane.Lib.Select
import Worklane.Lib.Digits
import Worklane.Lib.Codec
import Worklane.Lib.Dedup
import Worklane.Lib.Index
import Worklane.Lib.Lease
import Worklane.Lib.Locks
import Worklane.Lib.ZSet
import Worklane.Lib.Utf8
import Worklane.Lib.Words
import Worklane.Lib.Rounding
import Worklane.Lib.Program
import Worklane.Lib.Threads
import Worklane.Core.Envelope
import Worklane.Core.Spi
import Worklane.Core.Json
import Worklane.Core.Broker
import Worklane.Core.Fencing
import Worklane.Core.DeliveryBound
import Worklane.Core.Backoff
import Worklane.Core.Clock
import Worklane.Core.Redact
import Worklane.Core.RedactUserinfo
import Worklane.Memory.Broker
import Worklane.Memory.Changes
import Worklane.Memory.Invariant
import Worklane.Memory.Requeue
import Worklane.Memory.Retention
import Worklane.Memory.Parts
import Worklane.Memory.Refusals
import Worklane.Memory.Lanes
import Worklane.Memory.Conservation
import Worklane.Memory.Lease
import Worklane.Memory.Sound
import Worklane.Memory.Origin
import Worklane.Memory.Deliveries
import Worklane.Sql.Tables
import Worklane.Sql.Changes
import Worklane.Sql.DeadIds
import Worklane.Sql.Pairing
import Worklane.Sqlite.Broker
import Worklane.Sqlite.Invariant
import Worklane.Sqlite.DeadIds
import Worklane.Sqlite.Fencing
import Worklane.Sqlite.Refinement
import Worklane.Sqlite.Schema
import Worklane.Postgres.Broker
import Worklane.Postgres.Invariant
import Worklane.Postgres.DeadIds
import Worklane.Postgres.KeyLocks
import Worklane.Postgres.Unnest
import Worklane.Postgres.Fencing
import Worklane.Postgres.Refinement
import Worklane.Redis.Store
import Worklane.Redis.Scripts
import Worklane.Redis.Broker
import Worklane.Redis.Changes
import Worklane.Redis.Index
import Worklane.Redis.DeadLetters
import Worklane.Redis.Naming
import Worklane.Redis.Reservations
import Worklane.Redis.Fates
import Worklane.Redis.UniqueKeys
import Worklane.Redis.Letters
import Worklane.Redis.Retention
import Worklane.Redis.Keys
import Worklane.Redis.Namespaces
import Worklane.Backends.Enqueue
import Worklane.Backends.DeliveryBound
import Worklane.Facade.Effects
import Worklane.Facade.History
import Worklane.Facade.FanIn
import Worklane.Facade.Client
import Worklane.Facade.Json
import Worklane.Facade.Offload
import Worklane.Facade.Rules
import Worklane.Facade.Watcher
import Worklane.Facade.Worker
import Worklane.Facade.Orphans
import Worklane.Facade.Checkpoint
import Worklane.Facade.Capture
import Worklane.Facade.Ownership
import Worklane.Facade.WorkerLaw
import Worklane.Facade.System
import Worklane.Facade.Process
import Worklane.Facade.Record
import Worklane.Facade.Resolution
import Worklane.Facade.Fates
import Worklane.Facade.Blobs
import Worklane.Facade.Acceptance
import Worklane.Facade.Attempts
import Worklane.Facade.Breaker
import Worklane.Facade.Completion
import Worklane.Lib.Rank
import Worklane.Memory.Ranking
import Worklane.Memory.Sweep
import Worklane.Lib.Automaton
import Worklane.Facade.RunLoop
import Worklane.Facade.LoopSafety
import Worklane.Facade.IdleLoop
import Worklane.Backends.Retries
import Worklane.Backends.Limits
import Worklane.Lib.Keyspace
import Worklane.Redis.InsertScripts
import Worklane.Redis.Watermarks
import Worklane.Redis.ReserveOrder
import Worklane.Scheduler.Selection
