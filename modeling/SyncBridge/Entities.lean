import SyncBridge.EnvelopeCrypto
import Mathlib.Data.List.Nodup

/-!
# Rows, jobs and configuration

The records that pass between the services: the `file_transfers`,
`outbox_events`, `tenant_usage` and `event_subscriptions` rows, the queue
payloads, the published events, and the part of the configuration tree that the
modelled services read. Identifiers are drawn from a counter, as a column
default draws a fresh uuid. Instants are milliseconds.
-/

namespace Entities

open ChunkTransforms EnvelopeCrypto

inductive TransferStatus where
  | pending
  | processing
  | success
  | failed
  deriving DecidableEq, Repr

structure FileTransfer where
  id : Nat
  idempotencyKey : String
  filename : String
  virtualPath : String
  sourcePath : String
  objectKey : Option String
  bucket : String
  sizeBytes : Nat
  etag : Option String
  checksumSha256 : Option String
  encrypted : Bool
  wrappedDek : Option String
  status : TransferStatus
  attempts : Nat
  errorLog : Option String
  tenantId : String
  username : String
  protocol : Option String
  sessionId : Option String
  createdAt : Nat
  updatedAt : Nat
  deriving DecidableEq, Repr

/-- What `accept` hands to the outbox for insertion. -/
structure CreatePendingInput where
  idempotencyKey : String
  tenantId : String
  filename : String
  virtualPath : String
  sourcePath : String
  bucket : String
  sizeBytes : Nat
  username : String
  protocol : Option String
  sessionId : Option String
  deriving DecidableEq, Repr

/-- The row that `mgr.create(FileTransfer, …)` saves, with the column defaults. -/
def CreatePendingInput.row (input : CreatePendingInput) (id now : Nat) : FileTransfer where
  id := id
  idempotencyKey := input.idempotencyKey
  filename := input.filename
  virtualPath := input.virtualPath
  sourcePath := input.sourcePath
  objectKey := none
  bucket := input.bucket
  sizeBytes := input.sizeBytes
  etag := none
  checksumSha256 := none
  encrypted := false
  wrappedDek := none
  status := .pending
  attempts := 0
  errorLog := none
  tenantId := input.tenantId
  username := input.username
  protocol := input.protocol
  sessionId := input.sessionId
  createdAt := now
  updatedAt := now

/-- The partial updates of `FileTransferRepository`. `processedBytes` is no column:
it is the size the marking execution worked on, kept for the history of runs. -/
inductive Patch where
  | markProcessing
  | markSuccess (bucket objectKey : String) (etag checksumSha256 : Option String)
      (encrypted : Bool) (wrappedDek : Option String) (processedBytes : Nat)
  | markFailed (errorLog : String)
  | resetForRetry
  deriving DecidableEq, Repr

/-- The columns one update writes; `updated_at` is set by every update. -/
def Patch.apply (now : Nat) (t : FileTransfer) : Patch → FileTransfer
  | .markProcessing =>
    { t with status := .processing, attempts := t.attempts + 1, errorLog := none, updatedAt := now }
  | .markSuccess bucket objectKey etag sha encrypted wrappedDek _ =>
    { t with status := .success, bucket := bucket, objectKey := some objectKey, etag := etag,
             checksumSha256 := sha, encrypted := encrypted, wrappedDek := wrappedDek,
             errorLog := none, updatedAt := now }
  | .markFailed errorLog =>
    { t with status := .failed, errorLog := some errorLog, updatedAt := now }
  | .resetForRetry =>
    { t with status := .pending, attempts := 0, errorLog := none, updatedAt := now }

@[simp] theorem Patch.apply_id (now : Nat) (t : FileTransfer) (p : Patch) :
    (p.apply now t).id = t.id := by
  cases p <;> rfl

@[simp] theorem Patch.apply_tenantId (now : Nat) (t : FileTransfer) (p : Patch) :
    (p.apply now t).tenantId = t.tenantId := by
  cases p <;> rfl

@[simp] theorem Patch.apply_idempotencyKey (now : Nat) (t : FileTransfer) (p : Patch) :
    (p.apply now t).idempotencyKey = t.idempotencyKey := by
  cases p <;> rfl

/-- Payload of a transfer job; the trace carrier links it to the webhook. -/
structure TransferJobData where
  transferId : Nat
  carrier : List (String × String) := []
  deriving DecidableEq, Repr

structure DeadLetterJobData where
  transferId : Nat
  reason : String
  deriving DecidableEq, Repr

inductive OutboxStatus where
  | pending
  | published
  deriving DecidableEq, Repr

/-- `type` is always the name of the transfer job, so the payload is typed. -/
structure OutboxEvent where
  id : Nat
  aggregateId : Nat
  payload : TransferJobData
  status : OutboxStatus
  attempts : Nat
  createdAt : Nat
  publishedAt : Option Nat
  deriving DecidableEq, Repr

structure TenantUsage where
  tenantId : String
  objectCount : Nat
  bytesStored : Nat
  deriving DecidableEq, Repr

inductive EventType where
  | transferCompleted
  | transferFailed
  deriving DecidableEq, Repr

structure EventSubscription where
  id : Nat
  tenantId : String
  url : String
  events : List EventType
  secret : String
  active : Bool
  deriving DecidableEq, Repr

/-- The data of `transfer.completed` and of `transfer.failed`. -/
inductive EventData where
  | completed (bucket objectKey : String) (sizeBytes : Nat) (encrypted : Bool)
  | failed (reason : String)
  deriving DecidableEq, Repr

structure TransferEvent where
  type : EventType
  transferId : Nat
  tenantId : String
  data : EventData
  deriving DecidableEq, Repr

structure WebhookDeliveryJob where
  subscriptionId : Nat
  url : String
  secret : String
  event : TransferEvent
  deriving DecidableEq, Repr

inductive Role where
  | admin
  | operator
  | viewer
  deriving DecidableEq, Repr

/-- The principal attached to a request by the token. -/
structure AuthUser where
  userId : Nat
  username : String
  roles : List Role
  tenantId : String
  deriving DecidableEq, Repr

/-- One routing rule; an absent or empty field matches anything. -/
structure RoutingRule where
  username : Option String
  extension : Option String
  pathPrefix : Option String
  bucket : Option String
  keyPrefix : Option String
  deriving DecidableEq, Repr

/-- Quota overrides of one tenant. -/
structure QuotaOverride where
  maxBytes : Option Nat
  maxObjects : Option Nat
  deriving DecidableEq, Repr

structure AppConfig where
  transferMaxAttempts : Nat
  ingestionDataRoot : String
  recoveryEnabled : Bool
  recoveryStaleMs : Nat
  recoveryBatchSize : Nat
  auditDays : Nat
  s3Bucket : String
  uploadPartSizeBytes : Nat
  maxFileSizeBytes : Nat
  avEnabled : Bool
  crypto : CryptoService
  routingRules : List RoutingRule
  defaultTenant : String
  tenantMap : List (String × String)
  quotaDefaultMaxBytes : Nat
  quotaDefaultMaxObjects : Nat
  quotaMap : List (String × QuotaOverride)
  kafkaEnabled : Bool

/-- Errors as the services tell them apart. Every rejection of a call that is not
one of the named classes is an `Error` with a name and a message. -/
inductive Err where
  | nonRetryable (message : String)
  | uniqueViolation
  | notFound (message : String)
  | conflict (message : String)
  | other (name message : String)
  deriving DecidableEq, Repr

/-- `errMessage`: the name and the message of an error. -/
def Err.message : Err → String
  | .nonRetryable m => "NonRetryableError: " ++ m
  | .uniqueViolation => "QueryFailedError: duplicate key value violates unique constraint"
  | .notFound m => "NotFoundException: " ++ m
  | .conflict m => "ConflictException: " ++ m
  | .other n m => n ++ ": " ++ m

/-- A row is found by its value in a column that has no duplicates. -/
theorem find_unique {α β : Type} [DecidableEq β] {rows : List α} {column : α → β}
    (distinct : (rows.map column).Nodup) {row : α} (hrow : row ∈ rows) :
    rows.find? (fun other => column other = column row) = some row := by
  cases found : rows.find? fun other => column other = column row with
  | none => simpa using List.find?_eq_none.mp found row hrow
  | some other =>
    have same : column other = column row := by simpa using List.find?_some found
    rw [List.inj_on_of_nodup_map distinct (List.mem_of_find?_eq_some found) hrow same]

end Entities
