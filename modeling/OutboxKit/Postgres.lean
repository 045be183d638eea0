import OutboxKit.Table

/-! The Postgres store: a `status` column beside the due column, a 32-bit attempt
counter, and text parameters that may not hold U+0000. `fetch_due` claims its
rows inside a transaction and skips the rows other open transactions hold;
`dead_letter` is one transaction. -/
namespace OutboxKit.Postgres
open Std Machine Ordered Commit

inductive Status where
  | pending
  | parked
  | dispatched
deriving DecidableEq, Repr

/-- A row of `outbox_events`, less its key. -/
structure EventRow where
  topic : String
  payload : List UInt8
  headers : List UInt8
  createdAt : Int
  attempts : Int
  status : Status
  nextAttemptAt : Int
  lastError : Option String
  dispatchedAt : Option Int
deriving DecidableEq

structure Tables where
  outboxEvents : ExtTreeMap String EventRow
  outboxDeadLetters : ExtTreeMap String LetterRow
deriving DecidableEq

def empty : Tables := ⟨∅, ∅⟩

def Tables.write (t : Tables) (id : String) (row : EventRow) : Tables :=
  { t with outboxEvents := t.outboxEvents.insert id row }

section Statements

/-- A statement with its text parameters; a zero byte in one is refused. -/
def binding (texts : List String) (stmt : Statement Tables SqlError) : Statement Tables SqlError :=
  fun t => if texts.any hasNul then .error .nulInText else stmt t

/-- `INSERT INTO outbox_events .. ON CONFLICT (id) DO NOTHING`. -/
def insertOnConflict (id : String) (row : EventRow) : Statement Tables SqlError :=
  binding ([id, row.topic]++row.lastError.toList) fun t =>
    .ok { t with outboxEvents := t.outboxEvents.insertIfNew id row }

/-- `UPDATE .. SET status = 'dispatched', dispatched_at = $1
WHERE id = $2 AND status <> 'dispatched'`. -/
def updateDispatched (id : String) (stamp : Int) : Statement Tables SqlError :=
  binding [id] fun t =>
    match t.outboxEvents[id]? with
    | none => .ok t
    | some row =>
      if row.status ≠ .dispatched then
        .ok (t.write id { row with status := .dispatched, dispatchedAt := some stamp })
      else .ok t

/-- `CASE WHEN $3 >= $4 THEN 'parked' ELSE 'pending' END`. -/
def statusFor (nextAttemptAt : Int) : Status :=
  if parkedAsI64 ≤ nextAttemptAt then .parked else .pending

/-- `SET attempts = attempts + 1, last_error = $2, next_attempt_at = $3, status = ..`. -/
def EventRow.failed (row : EventRow) (error : String) (nextAttemptAt : Int) : EventRow :=
  { row with
    attempts := row.attempts+1
    lastError := some error
    nextAttemptAt := nextAttemptAt
    status := statusFor nextAttemptAt }

/-- The same, `WHERE id = $1` and whatever the status. The sum may leave the
counter's range. -/
def updateFailed (id error : String) (nextAttemptAt : Int) : Statement Tables SqlError :=
  binding [id, error] fun t =>
    match t.outboxEvents[id]? with
    | none => .ok t
    | some row =>
      if row.attempts < i32Max then .ok (t.write id (row.failed error nextAttemptAt))
      else .error .integerOutOfRange

/-- `INSERT INTO outbox_dead_letters .. ON CONFLICT (id) DO UPDATE SET` every other
column to the new one. -/
def upsertLetter (id : String) (row : LetterRow) : Statement Tables SqlError :=
  binding ([id, row.topic, row.reason]++row.lastError.toList) fun t =>
    .ok { t with outboxDeadLetters := t.outboxDeadLetters.insert id row }

/-- `DELETE FROM outbox_events WHERE id = $1`. -/
def deleteEvent (id : String) : Statement Tables SqlError := binding [id] fun t =>
  .ok { t with outboxEvents := t.outboxEvents.erase id }

end Statements

/-- The row an append writes: pending, due at `created_at`. -/
def rowOf (e : OutboxEvent) (headers : List UInt8) : EventRow where
  topic := e.topic
  payload := e.payload
  headers := headers
  createdAt := clampI64 e.createdAt
  attempts := (tryI32 e.attempts).getD i32Max
  status := .pending
  nextAttemptAt := clampI64 e.createdAt
  lastError := e.lastError
  dispatchedAt := none

def append (e : OutboxEvent) (t : Tables) : Except StoreError Unit × Tables :=
  match e.checked with
  | .error err => (.error err, t)
  | .ok () =>
    match encodeHeaders e.headers with
    | .error err => (.error err, t)
    | .ok headers => execute [insertOnConflict e.id.text (rowOf e headers)] t

/-- `WHERE status = 'pending' AND next_attempt_at <= $1`. -/
def isDue (now : UInt64) (row : EventRow) : Bool :=
  row.status == .pending && row.nextAttemptAt ≤ clampI64 now

def eventFromRow (U : UuidCrate) (kr : String × EventRow) : Except StoreError OutboxEvent :=
  decodeEvent U kr.1 kr.2.topic kr.2.payload kr.2.headers kr.2.createdAt kr.2.attempts
    kr.2.lastError

/-- `FETCH_DUE_SQL`: the due rows no open transaction has locked, in order, up to
the limit. The rows it returns are the ones it locks. -/
def claim (locked : String → Bool) (limit now : UInt64) (t : Tables) : List (String × EventRow) :=
  ((selectOrdered (·.nextAttemptAt) (isDue now) t.outboxEvents).filter
    fun kr => !locked kr.1).take (limitRows limit)

/-- The claim transaction of a client that shares the database with no other. -/
def fetchDue (U : UuidCrate) (limit now : UInt64) (t : Tables) :
    Except StoreError (List OutboxEvent) :=
  (claim (fun _ => false) limit now t).mapM (eventFromRow U)

def markDispatched (clock : UInt64) (id : EventId) (t : Tables) : Except StoreError Unit × Tables :=
  execute [updateDispatched id.text (clampI64 clock)] t

def markFailed (id : EventId) (error : String) (retryAt : UInt64) (t : Tables) :
    Except StoreError Unit × Tables :=
  execute [updateFailed id.text (truncateError error) (clampI64 retryAt)] t

def countStatus (status : Status) (t : Tables) : Except StoreError UInt64 :=
  .ok (selectCount (fun row => row.status == status) t.outboxEvents)

def pendingCount : Tables → Except StoreError UInt64 := countStatus .pending
def parkedCount : Tables → Except StoreError UInt64 := countStatus .parked

def letterOf (clock : UInt64) (e : OutboxEvent) (headers : List UInt8) (reason : String) :
    LetterRow where
  topic := e.topic
  payload := e.payload
  headers := headers
  createdAt := clampI64 e.createdAt
  attempts := (tryI32 e.attempts).getD i32Max
  lastError := e.lastError
  reason := truncateReason reason
  deadLetteredAt := clampI64 clock

def deadLetterStatements (clock : UInt64) (e : OutboxEvent) (headers : List UInt8)
    (reason : String) : List (Statement Tables SqlError) :=
  [upsertLetter e.id.text (letterOf clock e headers reason), deleteEvent e.id.text]

/-- Record the letter and remove any live row, in one transaction. -/
def deadLetter (clock : UInt64) (e : OutboxEvent) (reason : String) (t : Tables) :
    Except StoreError Unit × Tables :=
  match e.checked with
  | .error err => (.error err, t)
  | .ok () =>
    match encodeHeaders e.headers with
    | .error err => (.error err, t)
    | .ok headers =>
      ((atomic (deadLetterStatements clock e headers reason) t).1.mapError backend,
        (atomic (deadLetterStatements clock e headers reason) t).2)

def deadLetterUnder (fault : Fault SqlError) (clock : UInt64) (e : OutboxEvent) (reason : String)
    (t : Tables) : Outcome StoreError × Tables :=
  match e.checked with
  | .error err => (.returned (.error err), t)
  | .ok () =>
    match encodeHeaders e.headers with
    | .error err => (.returned (.error err), t)
    | .ok headers =>
      ((transaction (deadLetterStatements clock e headers reason) fault t).1.mapError backend,
        (transaction (deadLetterStatements clock e headers reason) fault t).2)

def deadLetters (U : UuidCrate) (limit : UInt64) (t : Tables) :
    Except StoreError (List (OutboxEvent × String)) :=
  selectLetters U limit t.outboxDeadLetters

def store (U : UuidCrate) : OutboxStore Tables where
  append := append
  fetchDue := fetchDue U
  markDispatched := markDispatched
  markFailed := markFailed
  pendingCount := pendingCount
  parkedCount := parkedCount
  deadLetter := deadLetter
  deadLetters := deadLetters U

end OutboxKit.Postgres
