import LiteStore.Lib.Machine
import LiteStore.Lib.JsonRun
import LiteStore.Store.Expiry
import LiteStore.Store.Agree
import LiteStore.Store.Kept
import LiteStore.Store.InStep
import LiteStore.Wheel.Calls
import LiteStore.Commands.Plain
import LiteStore.Commands.Overflow
import LiteStore.Protocol.Stages
import LiteStore.Wheel.Buckets
import LiteStore.Metrics.Histogram
import LiteStore.Persistence.Torn
import LiteStore.Persistence.Fsync
import LiteStore.Persistence.Durable
import LiteStore.Persistence.StartUp
import LiteStore.Worker.Raising
import LiteStore.Worker.Callers
import LiteStore.Worker.Deadlines
import LiteStore.Worker.Boundary
import LiteStore.Worker.Replayed
import LiteStore.Worker.PowerCut
import LiteStore.Worker.Pipeline
import LiteStore.Shard.Single
import LiteStore.Shard.Flush
import LiteStore.Shard.Pooled
import LiteStore.Shard.Errors
import LiteStore.Shard.Served
import LiteStore.Server.Client
import LiteStore.Server.LastWrite
import LiteStore.Server.Scrape
import LiteStore.Server.Memory
import LiteStore.Server.Deadline
import LiteStore.Server.Restart
