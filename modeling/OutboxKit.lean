import OutboxKit.Lib.Machine
import OutboxKit.Lib.Trace
import OutboxKit.Lib.LexCode
import OutboxKit.Lib.Binary64
import OutboxKit.Lib.Rounding
import OutboxKit.Lib.Scramble
import OutboxKit.Lib.Segments
import OutboxKit.Lib.Ordered
import OutboxKit.Lib.Commit
import OutboxKit.Lib.Cells
import OutboxKit.Lib.History
import OutboxKit.Lib.Shares
import OutboxKit.Event
import OutboxKit.Error
import OutboxKit.Codec
import OutboxKit.Wire
import OutboxKit.Backoff
import OutboxKit.Schedule
import OutboxKit.Seed
import OutboxKit.Store
import OutboxKit.Truncation
import OutboxKit.Outbox
import OutboxKit.Memory
import OutboxKit.MemorySpec
import OutboxKit.Table
import OutboxKit.Sqlite
import OutboxKit.SqliteSpec
import OutboxKit.Postgres
import OutboxKit.PostgresSpec
import OutboxKit.Equivalence
import OutboxKit.IdOrder
import OutboxKit.DeadLetter
import OutboxKit.Letters
import OutboxKit.Display
import OutboxKit.Acceptance
import OutboxKit.Parking
import OutboxKit.Dispatch
import OutboxKit.Reschedule
import OutboxKit.Replay
import OutboxKit.Commutation
import OutboxKit.DispatchSteps
import OutboxKit.Poll
import OutboxKit.PostgresShared
import OutboxKit.Delivery
import OutboxKit.Overlap
import OutboxKit.Snapshot
import OutboxKit.Life
import OutboxKit.Budget
import OutboxKit.Custody
import OutboxKit.Deliveries
import OutboxKit.Capacity
import OutboxKit.Shutdown
import OutboxKit.Turn
import OutboxKit.Claims
import OutboxKit.Unsent
import OutboxKit.Lockstep
import OutboxKit.Serial
import OutboxKit.Attempts
import OutboxKit.Canonical
import OutboxKit.Metrics
import OutboxKit.Exit
import OutboxKit.Drain
