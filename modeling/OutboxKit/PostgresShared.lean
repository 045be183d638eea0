import OutboxKit.Dispatch
import OutboxKit.PostgresSpec

/-! The Postgres store as several instances share it. A fetch is a transaction
that locks the rows it returns until it commits; a fetch of another instance
passes over them and a mark waits for them. The commit comes before the sends,
so nothing is locked while an event is in flight. -/
namespace OutboxKit.Postgres
open Std Machine Ordered

/-- The tables, and the keys of the rows that open claim transactions hold. -/
structure Db where
  tables : Tables
  locked : List String

def Db.unlock (db : Db) (rows : List (String × EventRow)) : Db :=
  { db with locked := db.locked.filter fun key => !(rows.map (·.1)).contains key }

def shared (U : UuidCrate) : Shared Db (List (String × EventRow)) where
  append e db := ((append e db.tables).1, { db with tables := (append e db.tables).2 })
  openFetch limit now db :=
    let rows := claim (fun key => db.locked.contains key) limit now db.tables
    (rows, { db with locked := rows.map (·.1)++db.locked })
  closeFetch rows db := (rows.mapM (eventFromRow U), db.unlock rows)
  abortFetch rows db := db.unlock rows
  free id db := !db.locked.contains id.text
  markDispatched clock id db :=
    ((markDispatched clock id db.tables).1,
      { db with tables := (markDispatched clock id db.tables).2 })
  markFailed id error retryAt db :=
    ((markFailed id error retryAt db.tables).1,
      { db with tables := (markFailed id error retryAt db.tables).2 })

end OutboxKit.Postgres
