import SyncBridge.Ingestion
import SyncBridge.Worker

/-!
# The management API and the maintenance jobs

`TransfersService`, `RecoveryService` and `RetentionService`. A user who is no
administrator works inside a transaction that sets the tenant, so the row-level
policy filters what the statements see. Route guards and log lines are left out.
-/

namespace Management

open AwaitPrograms ChunkTransforms NodeCrypto EnvelopeCrypto Entities Database Calls Ingestion
open Routing

/-- `scoped`: run `work` with the caller's tenant applied; administrators bypass it. -/
def scopedTo {α : Type} (user : AuthUser) (work : Manager → Async α) : Async α :=
  if Role.admin ∈ user.roles then work .pool
  else transaction do
    let _ ← db (.setCurrentTenant user.tenantId)
    work .tx

structure ListTransfersQueryDto where
  status : Option TransferStatus
  limit : Nat
  offset : Nat

structure PaginatedTransfers where
  items : List FileTransfer
  total : Nat
  limit : Nat
  offset : Nat
  deriving DecidableEq, Repr

def list (query : ListTransfersQueryDto) (user : AuthUser) : Async PaginatedTransfers :=
  scopedTo user fun mgr => do
    let found ← db (.findAndCount mgr query.status query.limit query.offset)
    return ⟨found.1, found.2, query.limit, query.offset⟩

def notFound (id : Nat) : Err := .notFound ("Transfer " ++ toString id ++ " not found")

def getById (id : Nat) (user : AuthUser) : Async FileTransfer := do
  let transfer ← scopedTo user fun mgr => db (.findOne mgr id)
  match transfer with
  | none => Prog.throw (notFound id)
  | some transfer => return transfer

/-- The names of the enumeration, as they appear in messages. -/
def statusName : TransferStatus → String
  | .pending => "PENDING"
  | .processing => "PROCESSING"
  | .success => "SUCCESS"
  | .failed => "FAILED"

/-- The response of a download: the object's bytes and what they are piped through. -/
structure DownloadResult (L : Library) where
  body : Bytes
  decryption : Option (Transform (DecryptState L) CipherError)
  filename : String
  contentType : String

/-- The stream sent to the client when the object arrives in these chunks. -/
def DownloadResult.stream {L : Library} (d : DownloadResult L) (chunks : List Bytes) :
    List Bytes × Except CipherError Unit :=
  match d.decryption with
  | none => (chunks, .ok ())
  | some t => t.pipe chunks

/-- The transaction of `retry`. -/
def resetOne (id : Nat) (mgr : Manager) : Async FileTransfer := do
  let found ← db (.findOne mgr id)
  match found with
  | none => Prog.throw (notFound id)
  | some found =>
    if found.status = .success then
      Prog.throw (.conflict ("Transfer " ++ toString id ++ " already succeeded; nothing to retry"))
    else do
      let _ ← db (.resetForRetry mgr id)
      let again ← db (.findOne mgr id)
      match again with
      | none => Prog.throw (.other "EntityNotFoundError" "FileTransfer")
      | some transfer => return transfer

structure RetryBatchDto where
  status : Option TransferStatus
  before : Option Nat
  limit : Nat

/-- The transaction of `retryBatch`: the identifiers of the rows it has reset. -/
def resetMatching (status : TransferStatus) (before : Option Nat) (limit : Nat) (mgr : Manager) :
    Async (List Nat) := do
  let found ← db (.findForRetry mgr status before limit)
  Prog.forEach (fun (t : FileTransfer) => db (.resetForRetry mgr t.id)) found
  return found.map (·.id)

section Service
variable (env : Env)

/-- `createDecryptStream` with the configured key; without one it throws. -/
def decryption (wrappedDek : String) :
    Async (Transform (DecryptState env.crypto) CipherError) :=
  match env.config.crypto.kek with
  | none => Prog.throw (.other "TypeError" "Invalid key")
  | some kek => match createDecryptStream env.crypto kek wrappedDek with
    | .error _ => Prog.throw (.other "Error" "Unsupported state or unable to authenticate data")
    | .ok t => return t

/-- The object of a SUCCESS row; an empty key counts as none. -/
def download (id : Nat) (user : AuthUser) : Async (DownloadResult env.crypto) := do
  let transfer ← getById id user
  let refused : Err := .conflict ("Transfer " ++ toString id ++ " has no stored object (status " ++
    statusName transfer.status ++ ")")
  if transfer.status ≠ .success then Prog.throw refused
  else match present transfer.objectKey with
    | none => Prog.throw refused
    | some objectKey => do
      let obj ← store (.getObject transfer.bucket objectKey)
      match transfer.encrypted, present transfer.wrappedDek with
      | true, some wrappedDek => do
        let t ← decryption env wrappedDek
        return ⟨obj.body, some t, transfer.filename, obj.contentType⟩
      | _, _ => return ⟨obj.body, none, transfer.filename, obj.contentType⟩

/-- The transfer queue of the ingestion module carries the configured attempts. -/
def enqueue (id : Nat) : Async Unit :=
  queue (.addTransfer ⟨id, []⟩ (some env.config.transferMaxAttempts))

def retry (id : Nat) (user : AuthUser) : Async FileTransfer := do
  let transfer ← scopedTo user (resetOne id)
  enqueue env id
  return transfer

structure RetryBatchResult where
  requeued : Nat
  ids : List Nat
  deriving DecidableEq, Repr

def retryBatch (dto : RetryBatchDto) (user : AuthUser) : Async RetryBatchResult := do
  let status := dto.status.getD .failed
  if status = .success then Prog.throw (.conflict "Cannot batch-retry SUCCESS transfers")
  else do
    let ids ← scopedTo user (resetMatching status dto.before dto.limit)
    Prog.forEach (enqueue env) ids
    return ⟨ids.length, ids⟩

/-- The reason written by the recovery sweep. -/
def interrupted (transfer : FileTransfer) : String :=
  "Recovered after interruption but retries (" ++ toString transfer.attempts ++
    ") already exhausted"

/-- A stuck row is finalised when its attempts are used up, else queued again. -/
def recover (transfer : FileTransfer) : Async Unit :=
  if env.config.transferMaxAttempts ≤ transfer.attempts then
    db (.update transfer.id (.markFailed (interrupted transfer)))
  else enqueue env transfer.id

/-- One pass of the recovery sweep in a replica; an error abandons the batch. -/
def sweep (replica : Nat) : Async Unit :=
  if env.config.recoveryEnabled then do
    let entered ← host (.enterSweep replica)
    if entered then
      Prog.finallyDo
        (Prog.tryCatch
          (do
            let now ← host .now
            let stuck ← db
              (.findStuck (now - env.config.recoveryStaleMs) env.config.recoveryBatchSize)
            Prog.forEach (recover env) stuck)
          (fun _ => return ()))
        (host (.leaveSweep replica))
    else return ()
  else return ()

def msPerDay : Nat := 24 * 60 * 60 * 1000

def purge : Async Unit :=
  if env.config.auditDays = 0 then return ()
  else do
    let now ← host .now
    let _ ← db (.deleteTerminalOlderThan (now - env.config.auditDays * msPerDay))
    return ()

end Service

end Management
