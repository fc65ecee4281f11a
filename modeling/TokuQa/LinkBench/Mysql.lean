import TokuQa.Lib.Table
import TokuQa.Lib.Txn
import TokuQa.LinkBench.LinkStore

/-!
# `LinkStoreMysql.java`, as the SQL it sends

The link and count tables of one database, the statements the class builds as string
literals (each a function on the tables), and the methods as programs over them. A method
body sends its statements on `conn_rw`, which has autocommit off; `countLinks` reads on
`conn_ro`, so it sees committed rows only.

The wall clock is a parameter: `now` is what `(new Date()).getTime()` answers during the
call. Column ranges and SQL text are not modelled; the statements get the values the class
formats into them.
-/

set_option autoImplicit false

namespace TokuQa.LinkBench

open TokuQa.Lib

namespace Mysql

/-! ## The tables -/

/-- The columns of `linktable` outside its key. -/
structure LinkRow where
  visibility : Int
  data : List UInt8
  time : Int
  version : Int
deriving DecidableEq

structure CountKey where
  id : Int
  linkType : Int
deriving DecidableEq

/-- The columns of `counttable` outside its key. -/
structure CountRow where
  count : Int
  time : Int
  version : Int
deriving DecidableEq

structure Tables where
  linktable : Table LinkKey LinkRow
  counttable : Table CountKey CountRow
deriving DecidableEq

def Tables.empty : Tables := ⟨∅, ∅⟩

end Mysql

open Mysql

def Link.row (l : Link) : LinkRow := ⟨l.visibility, l.data, l.time, l.version⟩

def Link.countKey (l : Link) : CountKey := ⟨l.id1, l.linkType⟩

def LinkKey.countKey (k : LinkKey) : CountKey := ⟨k.id1, k.linkType⟩

namespace Mysql

/-! ## The statements -/

/-- The statements of the class, by what they are for. -/
inductive Site where
  | insertLink
  | selectLink
  | deleteLink
  | updateCount
  | updateData
  | replaceCounts
  | commit
deriving DecidableEq

/-- What the methods throw: an `SQLException` with its SQLState, or a plain `Exception`. -/
inductive Exn where
  | sql (sqlState : String)
  | exception (msg : String)
deriving DecidableEq

/-- `INSERT INTO linktable ... ON DUPLICATE KEY UPDATE visibility = VALUES(visibility)`,
one row of the `VALUES` list. -/
def insertLink (l : Link) (t : Tables) : Nat × Tables :=
  let r := Table.insertOnDuplicate l.key l.row
    (fun old => { old with visibility := l.visibility }) t.linktable
  (r.1, { t with linktable := r.2 })

/-- The whole `VALUES` list; the affected rows add up. -/
def insertLinks : List Link → Tables → Nat × Tables
  | [], t => (0, t)
  | l :: ls, t => ((insertLink l t).1 + (insertLinks ls (insertLink l t).2).1,
      (insertLinks ls (insertLink l t).2).2)

/-- `INSERT INTO counttable ... VALUES (.., base_count, now, 0) ON DUPLICATE KEY UPDATE
count = count + update_count, version = version + 1, time = now`. -/
def upsertCount (now : Int) (k : CountKey) (baseCount updateCount : Int) (t : Tables) : Tables :=
  { t with counttable := (Table.insertOnDuplicate k ⟨baseCount, now, 0⟩
      (fun c => ⟨c.count + updateCount, now, c.version + 1⟩) t.counttable).2 }

/-- `UPDATE linktable SET visibility, data, time, version WHERE <key>`. -/
def updateData (l : Link) (t : Tables) : Tables :=
  { t with linktable := t.linktable.updateWhere l.key fun _ => l.row }

/-- `UPDATE linktable SET visibility = VISIBILITY_HIDDEN WHERE <key>`. -/
def hideLink (k : LinkKey) (t : Tables) : Tables :=
  { t with linktable := t.linktable.updateWhere k fun r => { r with visibility := visibilityHidden } }

/-- `DELETE FROM linktable WHERE <key>`. -/
def expungeLink (k : LinkKey) (t : Tables) : Tables :=
  { t with linktable := t.linktable.erase k }

/-- `INSERT INTO counttable ... VALUES (.., 0, now, 0) ON DUPLICATE KEY UPDATE
count = IF (count = 0, 0, count - 1), time = now, version = version + 1`. -/
def decrementCount (now : Int) (k : CountKey) (t : Tables) : Tables :=
  { t with counttable := (Table.insertOnDuplicate k ⟨0, now, 0⟩
      (fun c => ⟨if c.count = 0 then 0 else c.count - 1, now, c.version + 1⟩) t.counttable).2 }

/-- `REPLACE INTO counttable ... VALUES ...`. -/
def replaceCounts (counts : List LinkCount) (t : Tables) : Tables :=
  { t with counttable := (counts.foldl
      (fun c n => c.insert ⟨n.id1, n.linkType⟩ ⟨n.count, n.time, n.version⟩) t.counttable) }

/-! ## The methods that write -/

/-- A program of this class. -/
abbrev Body (α : Type) := Sql Site Exn Tables α

/-- `addLinksNoCount`: the number of affected rows. -/
def addLinksNoCount (links : List Link) : Body Nat :=
  if links.length = 0 then pure 0 else statement .insertLink (insertLinks links)

/-- `addLinkImpl`: true when a row was found. -/
def addLinkImpl (now : Int) (l : Link) : Body Bool := do
  let nrows ← addLinksNoCount [l]
  -- (row_found, update_data, update_count) out of the `switch`
  let (rowFound, doUpdateData, doUpdateCount) ← match nrows with
    | 1 => pure (false, false, if l.visibility = visibilityDefault then (1 : Int) else 0)
    | 0 => pure (true, true, 0)
    | 2 => pure (true, true, if l.visibility = visibilityDefault then 1 else -1)
    | n => throw (.exception ("Value of affected-rows number is not valid" ++ toString n))
  if doUpdateCount ≠ 0 then
    let baseCount := if doUpdateCount < 0 then 0 else 1
    update .updateCount (upsertCount now l.countKey baseCount doUpdateCount)
    -- " commit;" is appended only when this is the last statement
    if !doUpdateData then
      commitWork .commit
  if doUpdateData then
    update .updateData (updateData l)
    commitWork .commit
  return rowFound

/-- `deleteLinkImpl`: true when a row was found. The `updateCount` flag the source computes
("only update count if link is present and visible") is never read there, so it is absent. -/
def deleteLinkImpl (now : Int) (k : LinkKey) (expunge : Bool) : Body Bool := do
  let result ← statement .selectLink fun t => (t.linktable.lookup k, t)
  let visibility := (result.map (·.visibility)).getD (-1)
  let found := result.isSome
  if !found then pure ()
  else if visibility = visibilityHidden && !expunge then pure ()
  else
    update .deleteLink (if !expunge then hideLink k else expungeLink k)
    update .updateCount (decrementCount now k.countKey)
  commitWork .commit
  return found

/-- `addBulkLinksImpl`. -/
def addBulkLinksImpl (links : List Link) : Body Unit := do
  let _ ← addLinksNoCount links
  commitWork .commit

/-- `addBulkCountsImpl`. -/
def addBulkCountsImpl (counts : List LinkCount) : Body Unit :=
  if counts.length = 0 then pure ()
  else do
    update .replaceCounts (replaceCounts counts)
    commitWork .commit

/-! ## Transient errors and the public methods -/

/-- The two errors `populateRetrySQLStates` lists, named by their MySQL error codes. -/
inductive TransientError where
  | lockWaitTimeout
  | deadlock
deriving DecidableEq

/-- `retrySQLStates`. -/
def retrySQLStates : List String := ["41000", "40001"]

def TransientError.sqlState : TransientError → String
  | .lockWaitTimeout => "41000"
  | .deadlock => "40001"

/-- What InnoDB undoes: the failed statement for a lock wait timeout, everything for a
deadlock. -/
def TransientError.undo : TransientError → Undo
  | .lockWaitTimeout => .statement
  | .deadlock => .transaction

/-- `processSQLException`, with the `catch (SQLException ex)` in front of it. -/
def processSQLException : Exn → Bool
  | .sql sqlState => retrySQLStates.contains sqlState
  | .exception _ => false

/-- One transient error: the attempt it strikes fails at `site`, if it gets there. -/
structure Strike where
  site : Site
  error : TransientError
deriving DecidableEq

def Strike.fault (f : Strike) : Fault Site Exn := ⟨f.site, f.error.undo, .sql f.error.sqlState⟩

/-- The connection and its tables. -/
abbrev Db := Conn Tables

/-- The `while (true)` around every `...Impl`. -/
def retrying {α : Type} (body : Body α) (strikes : List Strike) (db : Db) :
    Outcome Exn Tables α :=
  retry processSQLException body (strikes.map Strike.fault) db

def addLink (now : Int) (l : Link) : List Strike → Db → Outcome Exn Tables Bool :=
  retrying (addLinkImpl now l)

def deleteLink (now : Int) (k : LinkKey) (expunge : Bool) :
    List Strike → Db → Outcome Exn Tables Bool :=
  retrying (deleteLinkImpl now k expunge)

def updateLink (now : Int) (l : Link) (strikes : List Strike) (db : Db) :
    Outcome Exn Tables Bool :=
  match addLink now l strikes db with
  | .returned added db' => .returned (!added) db'
  | .thrown e db' => .thrown e db'

def addBulkLinks (links : List Link) : List Strike → Db → Outcome Exn Tables Unit :=
  retrying (addBulkLinksImpl links)

def addBulkCounts (counts : List LinkCount) : List Strike → Db → Outcome Exn Tables Unit :=
  retrying (addBulkCountsImpl counts)

/-- A writing call of the interface. -/
def call (now : Int) : LinkOp → List Strike → Db → Outcome Exn Tables Bool
  | .addLink l => addLink now l
  | .deleteLink k expunge => deleteLink now k expunge
  | .updateLink l => updateLink now l

/-- `clearErrors`: both connections are closed, which drops the open transaction, and opened
again. -/
def clearErrors (db : Db) : Db := db.rollback

/-! ## Reading -/

/-- `countLinksImpl`, on `conn_ro`. -/
def countLinks (db : Db) (k : CountKey) : Int :=
  match db.committed.counttable.lookup k with
  | none => 0
  | some c => c.count

/-- `SELECT COUNT(id2) FROM linktable WHERE id1 AND link_type AND visibility =
VISIBILITY_DEFAULT`: the first select of `testCount`. -/
def visibleCount (t : Tables) (k : CountKey) : Nat :=
  t.linktable.count fun key r => key.countKey = k && r.visibility = visibilityDefault

/-- The links a table holds, by key: what `createLinkFromRow` makes of its rows. -/
def linkSet (t : Tables) : AbsStore := fun k =>
  (t.linktable.lookup k).map fun r =>
    ⟨k.id1, k.linkType, k.id2, r.visibility, r.data, r.version, r.time⟩

end Mysql

end TokuQa.LinkBench
