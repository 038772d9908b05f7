import SyncBridge.Calls
import SyncBridge.PosixPaths

/-!
# Accepting an upload

`IngestionService.accept` and the transactional outbox behind it. An accepted
webhook becomes one row and one outbox event in the same transaction; the relay
publishes committed events to the queue afterwards.
-/

namespace Ingestion

open AwaitPrograms ChunkTransforms Entities Database Calls PosixPaths

/-- The fields of the SFTPGo payload that are read. -/
structure SftpgoWebhookDto where
  action : String
  username : String
  path : String
  virtualPath : String
  fileSize : Nat
  status : Option Int
  protocol : Option String
  sessionId : Option String
  timestamp : Option Int
  deriving DecidableEq, Repr

/-- A transaction around `body`; any throw rolls back and is thrown on. -/
def transaction {α : Type} (body : Async α) : Async α := do
  let _ ← db .begin
  Prog.tryCatch
    (do
      let a ← body
      let _ ← db .commit
      return a)
    (fun e => do
      let _ ← db .rollback
      Prog.throw e)

/-- The row and its event, or nothing when the idempotency key is taken. -/
def createTransferWithOutbox (input : CreatePendingInput) (carrier : List (String × String)) :
    Async (Option FileTransfer) :=
  Prog.tryCatch
    (do
      let saved ← transaction (do
        let saved ← db (.insertTransfer input)
        let _ ← db (.insertEvent saved.id ⟨saved.id, carrier⟩)
        return saved)
      return some saved)
    (fun e => match e with
      | .uniqueViolation => return none
      | e => Prog.throw e)

section Service
variable (env : Env)

/-- The resolved path when it stays within the data root. -/
def resolveWithinRoot (candidate : String) : Option String :=
  if candidate = "" ∨ isAbsolute candidate.toList = false then none
  else
    let dataRoot := resolve env.cwd env.config.ingestionDataRoot.toList
    let normalized := resolve env.cwd candidate.toList
    let rel := relative env.cwd dataRoot normalized
    if ['.', '.'].isPrefixOf rel || isAbsolute rel then none else some (String.ofList normalized)

def utf8 (s : String) : Bytes := s.toList.flatMap String.utf8EncodeChar

def joinFields : List String → String
  | [] => ""
  | [s] => s
  | s :: ss => s ++ "|" ++ joinFields ss

/-- Numbers are exact here, also those beyond `2^53`, which a double rounds. -/
def buildIdempotencyKey (p : SftpgoWebhookDto) : String :=
  env.sha256 (utf8 (joinFields [p.username, p.virtualPath, toString p.fileSize,
    (p.timestamp.map toString).getD "", p.sessionId.getD ""]))

def basename (p : String) : String :=
  match lastSegment p.toList with
  | none => p
  | some s => String.ofList s

/-- `TenantService.resolve`, for plain names. -/
def resolveTenant (username : String) : String :=
  match env.config.tenantMap.find? fun e => e.1 = username with
  | none => env.config.defaultTenant
  | some e => e.2

/-- The insert built from a payload whose path was accepted. -/
def pendingInput (p : SftpgoWebhookDto) (sourcePath : String) : CreatePendingInput where
  idempotencyKey := buildIdempotencyKey env p
  tenantId := resolveTenant env p.username
  filename := basename p.virtualPath
  virtualPath := p.virtualPath
  sourcePath := sourcePath
  bucket := env.config.s3Bucket
  sizeBytes := p.fileSize
  username := p.username
  protocol := p.protocol
  sessionId := p.sessionId

def accept (p : SftpgoWebhookDto) (carrier : List (String × String)) : Async AcceptOutcome :=
  if p.action ≠ "upload" then return .ignored
  else if p.status ≠ none ∧ p.status ≠ some 1 then return .ignored
  else match resolveWithinRoot env p.path with
    | none => return .ignored
    | some sourcePath => do
      let record ← createTransferWithOutbox (pendingInput env p sourcePath) carrier
      match record with
      | none => return .duplicate
      | some _ => return .accepted

end Service

def relayBatch : Nat := 100

/-- The queue of the outbox module is registered without default job options, so
BullMQ fills in its own default of zero attempts. -/
def relayAttempts : Option Nat := some 0

/-- One pass of the outbox relay in a replica; an error abandons the batch. -/
def relay (replica : Nat) : Async Unit := do
  let entered ← host (.enterRelay replica)
  if entered then
    Prog.finallyDo
      (Prog.tryCatch
        (do
          let pending ← db (.findPendingEvents relayBatch)
          Prog.forEach (fun (evt : OutboxEvent) => do
            let _ ← queue (.addTransfer evt.payload relayAttempts)
            let _ ← db (.markPublished evt.id)
            return ()) pending)
        (fun _ => return ()))
      (host (.leaveRelay replica))
  else return ()

end Ingestion
