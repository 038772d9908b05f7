import SyncBridge.Entities
import Mathlib.Data.List.Sort

/-!
# The relational store

Statements of the services against Postgres. A statement of the pooled manager
takes effect at once. The writes of a transaction's manager are kept with the
transaction and take effect together at the commit; the transaction sees its own
writes and others do not. A row updated by an open transaction is locked, so
another update or delete of it waits. An insert whose idempotency key is held by
another open transaction waits too, and one whose key is taken is a unique
violation.

The row-level policy of `file_transfers` is the one of the migration: it lets a
row through when no tenant is set, when the setting is empty, and when the row
is the tenant's own. The setting is local to the transaction.
-/

namespace Database

open Entities

inductive Write where
  | transfer (t : FileTransfer)
  | event (e : OutboxEvent)
  | reset (id : Nat)
  deriving DecidableEq, Repr

def Write.row? : Write → Option FileTransfer
  | .transfer t => some t
  | _ => none

def Write.event? : Write → Option OutboxEvent
  | .event e => some e
  | _ => none

def Write.reset? : Write → Option Nat
  | .reset id => some id
  | _ => none

/-- An open transaction: its start, its tenant setting, and its writes so far. -/
structure Tx where
  startedAt : Nat
  currentTenant : Option String
  writes : List Write
  deriving DecidableEq, Repr

def Tx.rows (t : Tx) : List FileTransfer := t.writes.filterMap Write.row?

def Tx.events (t : Tx) : List OutboxEvent := t.writes.filterMap Write.event?

/-- The rows a transaction has updated and so keeps locked. -/
def Tx.resets (t : Tx) : List Nat := t.writes.filterMap Write.reset?

/-- A row's move to SUCCESS, kept as history. -/
structure Completion where
  transferId : Nat
  tenantId : String
  processedBytes : Nat
  deriving DecidableEq, Repr

/-- `inserted` and `completions` are history only: no statement reads them. -/
structure Db where
  transfers : List FileTransfer
  outbox : List OutboxEvent
  usage : List TenantUsage
  subscriptions : List EventSubscription
  openTxs : List (Nat × Tx)
  nextId : Nat
  inserted : List FileTransfer
  completions : List Completion

/-- The manager a statement goes through: the pool's or the open transaction's. -/
inductive Manager where
  | pool
  | tx
  deriving DecidableEq, Repr

inductive DbOp where
  | findOne (mgr : Manager) (id : Nat)
  | update (id : Nat) (p : Patch)
  | resetForRetry (mgr : Manager) (id : Nat)
  | findForRetry (mgr : Manager) (status : TransferStatus) (before : Option Nat) (limit : Nat)
  | findAndCount (mgr : Manager) (status : Option TransferStatus) (limit offset : Nat)
  | findStuck (staleBefore limit : Nat)
  | deleteTerminalOlderThan (cutoff : Nat)
  | begin
  | setCurrentTenant (tenantId : String)
  | insertTransfer (input : CreatePendingInput)
  | insertEvent (aggregateId : Nat) (payload : TransferJobData)
  | commit
  | rollback
  | findPendingEvents (limit : Nat)
  | markPublished (id : Nat)
  | findUsage (tenantId : String)
  | recordUsage (tenantId : String) (bytes : Nat)
  | findSubscriptions (tenantId : String)
  deriving DecidableEq, Repr

@[reducible] def DbOp.Ans : DbOp → Type
  | .findOne _ _ => Option FileTransfer
  | .update _ _ => Unit
  | .resetForRetry _ _ => Unit
  | .findForRetry _ _ _ _ => List FileTransfer
  | .findAndCount _ _ _ _ => List FileTransfer × Nat
  | .findStuck _ _ => List FileTransfer
  | .deleteTerminalOlderThan _ => Nat
  | .begin => Unit
  | .setCurrentTenant _ => Unit
  | .insertTransfer _ => FileTransfer
  | .insertEvent _ _ => Unit
  | .commit => Unit
  | .rollback => Unit
  | .findPendingEvents _ => List OutboxEvent
  | .markPublished _ => Unit
  | .findUsage _ => Option TenantUsage
  | .recordUsage _ _ => Unit
  | .findSubscriptions _ => List EventSubscription

/-- The `tenant_isolation` policy, used for reads and for the check of writes. -/
def tenantIsolation (currentTenant : Option String) (t : FileTransfer) : Bool :=
  match currentTenant with
  | none => true
  | some s => s == "" || t.tenantId == s

def orderBy {α : Type} (key : α → Nat) (rows : List α) : List α :=
  rows.insertionSort fun a b => key a ≤ key b

def orderByDesc {α : Type} (key : α → Nat) (rows : List α) : List α :=
  rows.insertionSort fun a b => key b ≤ key a

/-- `UPDATE … WHERE id` under the policy: no visible row, no effect. -/
def patchRow (currentTenant : Option String) (now : Nat) (id : Nat) (p : Patch)
    (rows : List FileTransfer) : List FileTransfer :=
  rows.map fun t => if t.id = id ∧ tenantIsolation currentTenant t = true then p.apply now t else t

/-- The completions that one update adds to the history. -/
def completed (id : Nat) (p : Patch) (rows : List FileTransfer) : List Completion :=
  match p with
  | .markSuccess _ _ _ _ _ _ bytes =>
    (rows.filter fun t => t.id = id).map fun t => ⟨t.id, t.tenantId, bytes⟩
  | _ => []

/-- The rows that `findStuck` answers. -/
def stuckRows (db : Db) (staleBefore limit : Nat) : List FileTransfer :=
  (orderBy (·.updatedAt) (db.transfers.filter fun t =>
    (t.status == .pending || t.status == .processing) && t.updatedAt < staleBefore)).take limit

namespace Db

/-- The open transaction of a connection. -/
def tx (db : Db) (pid : Nat) : Option Tx :=
  match db.openTxs.find? fun e => e.1 = pid with
  | none => none
  | some e => some e.2

def dropTx (db : Db) (pid : Nat) : Db := { db with openTxs := db.openTxs.filter fun e => e.1 ≠ pid }

def setTx (db : Db) (pid : Nat) (t : Tx) : Db :=
  { db with openTxs := (pid, t) :: db.openTxs.filter fun e => e.1 ≠ pid }

/-- Committed effect of one write of a transaction. -/
def applyWrite (t : Tx) (db : Db) : Write → Db
  | .transfer row =>
    { db with transfers := db.transfers ++ [row], inserted := db.inserted ++ [row] }
  | .event e => { db with outbox := db.outbox ++ [e] }
  | .reset id => { db with
      transfers := patchRow t.currentTenant t.startedAt id .resetForRetry db.transfers }

def applyWrites (db : Db) (t : Tx) : Db := t.writes.foldl (applyWrite t) db

/-- The rows a manager sees: committed ones and, in a transaction, its own writes,
through the policy. -/
def rows (db : Db) (pid : Nat) : Manager → List FileTransfer
  | .pool => db.transfers
  | .tx => match db.tx pid with
    | none => []
    | some t => (db.applyWrites t).transfers.filter (tenantIsolation t.currentTenant)

/-- Some open transaction of a connection in `who` has updated the row. -/
def locked (db : Db) (who : Nat → Bool) (id : Nat) : Bool :=
  db.openTxs.any fun e => who e.1 && decide (id ∈ e.2.resets)

def keyHeld (db : Db) (who : Nat → Bool) (key : String) : Bool :=
  db.openTxs.any fun e => who e.1 && e.2.rows.any fun t => t.idempotencyKey = key

def anyone (_ : Nat) : Bool := true

def purgeable (cutoff : Nat) (t : FileTransfer) : Bool :=
  (t.status == .success || t.status == .failed) && t.updatedAt < cutoff

/-- `INSERT … ON CONFLICT (tenant_id) DO UPDATE` with both counters incremented. -/
def addUsage (tenantId : String) (bytes : Nat) : List TenantUsage → List TenantUsage
  | [] => [⟨tenantId, 1, bytes⟩]
  | u :: us =>
    if u.tenantId = tenantId then ⟨tenantId, u.objectCount + 1, u.bytesStored + bytes⟩ :: us
    else u :: addUsage tenantId bytes us

def publish (now : Nat) (id : Nat) (e : OutboxEvent) : OutboxEvent :=
  if e.id = id then
    { e with status := .published, publishedAt := some now, attempts := e.attempts + 1 }
  else e

def noTransaction : Err := .other "QueryFailedError" "no transaction"

/-- An update of the pooled manager; it waits while an open transaction holds the row.
Texts are stored as they are, also with a NUL character, which the server refuses. -/
def updateRow (now : Nat) (db : Db) (id : Nat) (p : Patch) : Option (Except Err Unit × Db) :=
  if db.locked anyone id then none
  else some (.ok (), { db with
    transfers := patchRow none now id p db.transfers
    completions := completed id p db.transfers ++ db.completions })

/-- The answer of a statement, or nothing while it must wait for a lock. -/
def exec (now pid : Nat) (db : Db) : (op : DbOp) → Option (Except Err op.Ans × Db)
  | .findOne mgr id => some (.ok ((db.rows pid mgr).find? fun t => t.id = id), db)
  | .update id p => db.updateRow now id p
  | .resetForRetry .pool id => db.updateRow now id .resetForRetry
  | .resetForRetry .tx id => match db.tx pid with
    | none => some (.error noTransaction, db)
    | some t =>
      if (db.rows pid .tx).any fun r => r.id = id then
        if db.locked (· ≠ pid) id then none
        else some (.ok (), db.setTx pid { t with writes := t.writes ++ [.reset id] })
      else some (.ok (), db)
  | .findForRetry mgr status before limit =>
    some (.ok ((orderBy (·.createdAt) ((db.rows pid mgr).filter fun t => t.status == status &&
      (match before with | none => true | some b => decide (t.updatedAt < b)))).take limit), db)
  | .findAndCount mgr status limit offset =>
    let found := (db.rows pid mgr).filter fun t => match status with
      | none => true
      | some s => t.status == s
    some (.ok (((orderByDesc (·.createdAt) found).drop offset).take limit, found.length), db)
  | .findStuck staleBefore limit => some (.ok (stuckRows db staleBefore limit), db)
  | .deleteTerminalOlderThan cutoff =>
    if db.transfers.any fun t => purgeable cutoff t && db.locked anyone t.id then none
    else some (.ok (db.transfers.countP (purgeable cutoff)),
      { db with transfers := db.transfers.filter fun t => !purgeable cutoff t })
  | .begin => some (.ok (), db.setTx pid ⟨now, none, []⟩)
  | .setCurrentTenant tenantId => match db.tx pid with
    | none => some (.error noTransaction, db)
    | some t => some (.ok (), db.setTx pid { t with currentTenant := some tenantId })
  | .insertTransfer input => match db.tx pid with
    | none => some (.error noTransaction, db)
    | some t =>
      if db.transfers.any (fun r => r.idempotencyKey = input.idempotencyKey) ||
          t.rows.any (fun r => r.idempotencyKey = input.idempotencyKey) then
        some (.error .uniqueViolation, db)
      else if db.keyHeld (· ≠ pid) input.idempotencyKey then none
      else
        let row := input.row db.nextId t.startedAt
        some (.ok row, { db.setTx pid { t with writes := t.writes ++ [.transfer row] } with
          nextId := db.nextId + 1 })
  | .insertEvent aggregateId payload => match db.tx pid with
    | none => some (.error noTransaction, db)
    | some t =>
      let e : OutboxEvent := ⟨db.nextId, aggregateId, payload, .pending, 0, t.startedAt, none⟩
      some (.ok (), { db.setTx pid { t with writes := t.writes ++ [.event e] } with
        nextId := db.nextId + 1 })
  | .commit => match db.tx pid with
    | none => some (.error noTransaction, db)
    | some t => some (.ok (), (db.applyWrites t).dropTx pid)
  | .rollback => some (.ok (), db.dropTx pid)
  | .findPendingEvents limit =>
    some (.ok ((orderBy (·.createdAt) (db.outbox.filter (·.status == .pending))).take limit), db)
  | .markPublished id => some (.ok (), { db with outbox := db.outbox.map (publish now id) })
  | .findUsage tenantId => some (.ok (db.usage.find? fun u => u.tenantId = tenantId), db)
  | .recordUsage tenantId bytes =>
    some (.ok (), { db with usage := addUsage tenantId bytes db.usage })
  | .findSubscriptions tenantId =>
    some (.ok (db.subscriptions.filter fun s => s.tenantId == tenantId && s.active), db)

end Db

end Database
