import OutboxKit.Table

/-! The SQLite store: two tables keyed by the identifier's text, and each call as
the statements it runs. Every statement commits by itself. A live row has no
`dispatched_at`; the due column at its ceiling means parked. -/
namespace OutboxKit.Sqlite
open Std Machine Ordered Commit

/-- A row of `outbox_events`, less its key. -/
structure EventRow where
  topic : String
  payload : List UInt8
  headers : List UInt8
  createdAt : Int
  attempts : Int
  nextAttemptAt : Int
  lastError : Option String
  dispatchedAt : Option Int
deriving DecidableEq

structure Tables where
  outboxEvents : ExtTreeMap String EventRow
  outboxDeadLetters : ExtTreeMap String LetterRow
deriving DecidableEq

def empty : Tables := ⟨∅, ∅⟩

def Tables.write (t : Tables) (id : String) (row : EventRow) : Tables :=
  { t with outboxEvents := t.outboxEvents.insert id row }

section Statements

/-- `INSERT OR IGNORE INTO outbox_events`. -/
def insertOrIgnore (id : String) (row : EventRow) : Statement Tables SqlError := fun t =>
  .ok { t with outboxEvents := t.outboxEvents.insertIfNew id row }

/-- `UPDATE .. SET dispatched_at = ? WHERE id = ? AND dispatched_at IS NULL`. -/
def updateDispatched (id : String) (stamp : Int) : Statement Tables SqlError := fun t =>
  match t.outboxEvents[id]? with
  | none => .ok t
  | some row =>
    if row.dispatchedAt.isNone then .ok (t.write id { row with dispatchedAt := some stamp })
    else .ok t

/-- `SET attempts = attempts + 1, last_error = ?2, next_attempt_at = ?3`. -/
def EventRow.failed (row : EventRow) (error : String) (nextAttemptAt : Int) : EventRow :=
  { row with
    attempts := row.attempts+1
    lastError := some error
    nextAttemptAt := nextAttemptAt }

/-- The same, `WHERE id = ?1`. The sum turns real past the integer range, which a STRICT column
refuses. -/
def updateFailed (id error : String) (nextAttemptAt : Int) : Statement Tables SqlError := fun t =>
  match t.outboxEvents[id]? with
  | none => .ok t
  | some row =>
    if row.attempts < i64Max then .ok (t.write id (row.failed error nextAttemptAt))
    else .error .integerOutOfRange

/-- `INSERT INTO outbox_dead_letters .. ON CONFLICT(id) DO UPDATE SET` every other
column to the new one. -/
def upsertLetter (id : String) (row : LetterRow) : Statement Tables SqlError := fun t =>
  .ok { t with outboxDeadLetters := t.outboxDeadLetters.insert id row }

/-- `DELETE FROM outbox_events WHERE id = ?`. -/
def deleteEvent (id : String) : Statement Tables SqlError := fun t =>
  .ok { t with outboxEvents := t.outboxEvents.erase id }

end Statements

/-- The row an append writes; the due column starts at `created_at`. -/
def rowOf (e : OutboxEvent) (headers : List UInt8) : EventRow where
  topic := e.topic
  payload := e.payload
  headers := headers
  createdAt := clampI64 e.createdAt
  attempts := clampI64 e.attempts.toUInt64
  nextAttemptAt := clampI64 e.createdAt
  lastError := e.lastError
  dispatchedAt := none

def append (e : OutboxEvent) (t : Tables) : Except StoreError Unit × Tables :=
  match e.checked with
  | .error err => (.error err, t)
  | .ok () =>
    match encodeHeaders e.headers with
    | .error err => (.error err, t)
    | .ok headers => execute [insertOrIgnore e.id.text (rowOf e headers)] t

/-- `WHERE dispatched_at IS NULL AND next_attempt_at <= ?1 AND next_attempt_at < ?2`. -/
def isDue (now : UInt64) (row : EventRow) : Bool :=
  row.dispatchedAt.isNone && row.nextAttemptAt ≤ clampI64 now && row.nextAttemptAt < parkedAsI64

def eventFromRow (U : UuidCrate) (kr : String × EventRow) : Except StoreError OutboxEvent :=
  decodeEvent U kr.1 kr.2.topic kr.2.payload kr.2.headers kr.2.createdAt kr.2.attempts
    kr.2.lastError

def fetchDue (U : UuidCrate) (limit now : UInt64) (t : Tables) :
    Except StoreError (List OutboxEvent) :=
  ((selectOrdered (·.nextAttemptAt) (isDue now) t.outboxEvents).take
    (limitRows limit)).mapM (eventFromRow U)

def markDispatched (clock : UInt64) (id : EventId) (t : Tables) : Except StoreError Unit × Tables :=
  execute [updateDispatched id.text (clampI64 clock)] t

def markFailed (id : EventId) (error : String) (retryAt : UInt64) (t : Tables) :
    Except StoreError Unit × Tables :=
  execute [updateFailed id.text (truncateError error) (clampI64 retryAt)] t

def pendingCount (t : Tables) : Except StoreError UInt64 :=
  .ok (selectCount (fun row => row.dispatchedAt.isNone && row.nextAttemptAt < parkedAsI64)
    t.outboxEvents)

def parkedCount (t : Tables) : Except StoreError UInt64 :=
  .ok (selectCount (fun row => row.dispatchedAt.isNone && parkedAsI64 ≤ row.nextAttemptAt)
    t.outboxEvents)

def letterOf (clock : UInt64) (e : OutboxEvent) (headers : List UInt8) (reason : String) :
    LetterRow where
  topic := e.topic
  payload := e.payload
  headers := headers
  createdAt := clampI64 e.createdAt
  attempts := clampI64 e.attempts.toUInt64
  lastError := e.lastError
  reason := truncateReason reason
  deadLetteredAt := clampI64 clock

/-- Record the letter, then remove any live row: two statements, no transaction. -/
def deadLetterStatements (clock : UInt64) (e : OutboxEvent) (headers : List UInt8)
    (reason : String) : List (Statement Tables SqlError) :=
  [upsertLetter e.id.text (letterOf clock e headers reason), deleteEvent e.id.text]

def deadLetter (clock : UInt64) (e : OutboxEvent) (reason : String) (t : Tables) :
    Except StoreError Unit × Tables :=
  match e.checked with
  | .error err => (.error err, t)
  | .ok () =>
    match encodeHeaders e.headers with
    | .error err => (.error err, t)
    | .ok headers => execute (deadLetterStatements clock e headers reason) t

def deadLetterUnder (fault : Fault SqlError) (clock : UInt64) (e : OutboxEvent) (reason : String)
    (t : Tables) : Outcome StoreError × Tables :=
  match e.checked with
  | .error err => (.returned (.error err), t)
  | .ok () =>
    match encodeHeaders e.headers with
    | .error err => (.returned (.error err), t)
    | .ok headers =>
      ((autocommit (deadLetterStatements clock e headers reason) fault t).1.mapError backend,
        (autocommit (deadLetterStatements clock e headers reason) fault t).2)

def deadLetters (U : UuidCrate) (limit : UInt64) (t : Tables) :
    Except StoreError (List (OutboxEvent × String)) :=
  selectLetters U limit t.outboxDeadLetters

def store (U : UuidCrate) : OutboxStore Tables where
  append := append
  fetchDue := fetchDue U
  markDispatched := markDispatched
  markFailed := markFailed
  pendingCount := pendingCount
  parkedCount := parkedCount
  deadLetter := deadLetter
  deadLetters := deadLetters U

end OutboxKit.Sqlite
