import SyncBridge.Calls
import SyncBridge.Routing

/-!
# The transfer worker

`IngestionProcessor` with the pipeline, the storage facade and the event
publisher it drives. An attempt marks the row, checks and uploads the file, and
then finalises. A permanent problem is finalised in the attempt itself; any other
error is thrown to the queue, whose `failed` event finalises the row once no
attempt is left. Metrics, spans and log lines are left out. Connecting the Kafka
producer and sending count as one call.
-/

namespace Worker

open AwaitPrograms ChunkTransforms EnvelopeCrypto Entities Database Calls PosixPaths Routing

section Service
variable (env : Env)

/-- Best effort: a rejection is swallowed. -/
def kafkaPublish (key : String) (event : TransferEvent) : Async Unit :=
  if env.config.kafkaEnabled then
    Prog.tryCatch (Prog.call (Op.kafkaSend key event)) fun _ => return ()
  else return ()

/-- The event of a transfer. -/
def transferEvent (transfer : FileTransfer) (type : EventType) (data : EventData) : TransferEvent :=
  ⟨type, transfer.id, transfer.tenantId, data⟩

def deliveryJob (event : TransferEvent) (s : EventSubscription) : WebhookDeliveryJob :=
  ⟨s.id, s.url, s.secret, event⟩

def publishTransferEvent (transfer : FileTransfer) (type : EventType) (data : EventData) :
    Async Unit := do
  kafkaPublish env transfer.tenantId (transferEvent transfer type data)
  let subscriptions ← db (.findSubscriptions transfer.tenantId)
  Prog.forEach (fun s => queue (.addDelivery (deliveryJob (transferEvent transfer type data) s)))
    (subscriptions.filter fun s => type ∈ s.events)

def toDeadLetter (transferId : Nat) (reason : String) : Async Unit :=
  queue (.addDeadLetter ⟨transferId, reason⟩)

/-- What the pipeline steps read and enrich. -/
structure ProcessingContext where
  transfer : FileTransfer
  sourcePath : String
  sizeBytes : Nat
  contentType : Option String

def validationStep (ctx : ProcessingContext) : Async ProcessingContext :=
  if ctx.sizeBytes = 0 then Prog.throw (.nonRetryable "File is empty")
  else if 0 < env.config.maxFileSizeBytes ∧ env.config.maxFileSizeBytes < ctx.sizeBytes then
    Prog.throw (.nonRetryable ("File size " ++ toString ctx.sizeBytes ++ " exceeds limit " ++
      toString env.config.maxFileSizeBytes ++ " bytes"))
  else return ctx

/-- Limits of a tenant; zero is no limit. -/
structure Quota where
  maxBytes : Nat
  maxObjects : Nat

def getQuota (tenantId : String) : Quota :=
  let t : QuotaOverride :=
    ((env.config.quotaMap.find? fun e => e.1 = tenantId).map (·.2)).getD ⟨none, none⟩
  ⟨t.maxBytes.getD env.config.quotaDefaultMaxBytes,
    t.maxObjects.getD env.config.quotaDefaultMaxObjects⟩

def getUsage (tenantId : String) : Async TenantUsage := do
  let row ← db (.findUsage tenantId)
  return row.getD ⟨tenantId, 0, 0⟩

def assertWithinQuota (tenantId : String) (additionalBytes : Nat) : Async Unit := do
  let quota := getQuota env tenantId
  let usage ← getUsage tenantId
  if 0 < quota.maxBytes ∧ quota.maxBytes < usage.bytesStored + additionalBytes then
    Prog.throw (.nonRetryable ("Storage quota exceeded for tenant '" ++ tenantId ++ "': " ++
      toString usage.bytesStored ++ "+" ++ toString additionalBytes ++ " > " ++
      toString quota.maxBytes ++ " bytes"))
  else if 0 < quota.maxObjects ∧ quota.maxObjects < usage.objectCount + 1 then
    Prog.throw (.nonRetryable ("Object quota exceeded for tenant '" ++ tenantId ++ "': " ++
      toString usage.objectCount ++ "+1 > " ++ toString quota.maxObjects ++ " objects"))
  else return ()

def quotaStep (ctx : ProcessingContext) : Async ProcessingContext := do
  assertWithinQuota env ctx.transfer.tenantId ctx.sizeBytes
  return ctx

def antivirusStep (ctx : ProcessingContext) : Async ProcessingContext :=
  if env.config.avEnabled then do
    let result ← volume (.scan ctx.sourcePath)
    if result.clean then return ctx
    else Prog.throw (.nonRetryable ("Virus detected: " ++ result.signature.getD "unknown"))
  else return ctx

def mimeByExt : List (String × String) :=
  [(".csv", "text/csv"), (".txt", "text/plain"), (".json", "application/json"),
   (".xml", "application/xml"), (".pdf", "application/pdf"), (".zip", "application/zip"),
   (".gz", "application/gzip"), (".png", "image/png"), (".jpg", "image/jpeg"),
   (".jpeg", "image/jpeg")]

def octetStream : String := "application/octet-stream"

def contentTypeStep (ctx : ProcessingContext) : Async ProcessingContext :=
  let ext := env.toLowerCase (String.ofList (extname ctx.transfer.filename.toList))
  return { ctx with
    contentType := some (((mimeByExt.find? fun e => e.1 = ext).map (·.2)).getD octetStream) }

def processingSteps : List (ProcessingContext → Async ProcessingContext) :=
  [validationStep env, quotaStep env, antivirusStep env, contentTypeStep env]

/-- `ProcessingPipeline.run`: the first throw stops the pipeline. -/
def runPipeline : List (ProcessingContext → Async ProcessingContext) → ProcessingContext →
    Async ProcessingContext
  | [], ctx => return ctx
  | step :: steps, ctx => do
    let ctx ← step ctx
    runPipeline steps ctx

structure FileChecksums where
  md5 : String
  sha256 : String

def computeFileChecksums (path : String) : Async FileChecksums := do
  let content ← volume (.readFile path)
  return ⟨env.md5 content, env.sha256 content⟩

/-- Create the bucket when it does not exist. -/
def ensureBucket (bucket : String) : Async Unit :=
  Prog.tryCatch (store (.headBucket bucket)) fun e => match e with
    | .other name message =>
      if name = "NotFound" then store (.createBucket bucket) else Prog.throw (.other name message)
    | e => Prog.throw e

/-- One `PutObject` for a known size of at most one part, else a multipart upload. -/
def uploadStream (bucket key : String) (body : Body) (contentLength : Nat) (contentType : String) :
    Async (Option String) := do
  let _ ← (if bucket = env.config.s3Bucket then pure () else ensureBucket bucket)
  if 0 < contentLength ∧ contentLength ≤ env.config.uploadPartSizeBytes then
    store (.putObject bucket key body contentLength contentType)
  else store (.multipartUpload bucket key body contentType)

def isHexDigit (c : Char) : Bool :=
  ('0' ≤ c && c ≤ '9') || ('a' ≤ c && c ≤ 'f') || ('A' ≤ c && c ≤ 'F')

/-- The pattern of a single-part ETag: 32 hexadecimal digits. -/
def singlePartEtag (etag : String) : Bool :=
  etag.toList.length == 32 && etag.toList.all isHexDigit

def verifyIntegrity (etag : Option String) (expectedMd5 : String) : Async Unit :=
  match etag with
  | none => return ()
  | some etag =>
    if singlePartEtag etag && env.toLowerCase etag != env.toLowerCase expectedMd5 then
      Prog.throw (.other "Error" ("Integrity check failed: ETag " ++ etag ++ " != source MD5 " ++
        expectedMd5))
    else return ()

/-- A data key, the vector of its object, and the key wrapped for the row. -/
structure Encryption where
  dek : Key
  iv : Iv
  wrappedDek : String

/-- The encryption of one upload, with fresh random bytes, when it is switched on. -/
def drawEncryption : Async (Option Encryption) :=
  if env.config.crypto.enabled then
    match env.config.crypto.kek with
    | none => return none
    | some kek => do
      let dek ← host .randomKey
      let iv ← host .randomIv
      let wrapIv ← host .randomIv
      match createEncryptStream env.crypto kek dek iv wrapIv with
      | .error _ => Prog.throw (.other "Error" "cipher")
      | .ok enc => return some ⟨dek, iv, enc.wrappedDek⟩
  else return none

/-- What an upload leaves for the row. A wrapped key is never the empty string. -/
structure Uploaded where
  bucket : String
  key : String
  etag : Option String
  checksumSha256 : String
  wrappedDek : Option String
  sizeBytes : Nat

/-- The update of `markSuccess`. -/
def Uploaded.patch (u : Uploaded) : Patch :=
  .markSuccess u.bucket u.key u.etag
    (some u.checksumSha256) u.wrappedDek.isSome u.wrappedDek u.sizeBytes

def Uploaded.event (u : Uploaded) : EventData :=
  .completed u.bucket u.key u.sizeBytes u.wrappedDek.isSome

/-- `stat(path).catch(() => null)`, and only a regular file will do. -/
def sourceStats (transfer : FileTransfer) : Async Stats := do
  let stats ← Prog.tryCatch
    (do
      let stats ← volume (.stat transfer.sourcePath)
      return some stats)
    fun _ => return none
  match stats with
  | none => Prog.throw (.nonRetryable ("Source unreadable: " ++ transfer.sourcePath))
  | some stats =>
    if stats.isFile then return stats
    else Prog.throw (.nonRetryable ("Source unreadable: " ++ transfer.sourcePath))

/-- Where a row's file is stored. -/
def routeOf (transfer : FileTransfer) : RouteTarget :=
  resolve env.toLowerCase env.config.s3Bucket env.config.routingRules transfer

/-- Encrypt and store the checked file. -/
def uploadFile (transfer : FileTransfer) (ctx : ProcessingContext) (checksums : FileChecksums) :
    Async Uploaded := do
  let target := routeOf env transfer
  let enc ← drawEncryption env
  let body : Body := ⟨ctx.sourcePath, enc.map fun e => (e.dek, e.iv)⟩
  let contentLength := if enc.isSome then ctx.sizeBytes + overheadBytes else ctx.sizeBytes
  let etag ← uploadStream env target.bucket target.key body contentLength
    (ctx.contentType.getD octetStream)
  let _ ← (if enc.isSome then pure () else verifyIntegrity env etag checksums.md5)
  return ⟨target.bucket, target.key, etag, checksums.sha256, enc.map (·.wrappedDek), ctx.sizeBytes⟩

/-- The part of an attempt between `markProcessing` and `markSuccess`. -/
def prepareAndUpload (transfer : FileTransfer) : Async Uploaded := do
  let stats ← sourceStats transfer
  let ctx ← runPipeline (processingSteps env) ⟨transfer, transfer.sourcePath, stats.size, none⟩
  let checksums ← computeFileChecksums env ctx.sourcePath
  uploadFile env transfer ctx checksums

/-- The row is complete: meter it and tell the tenant. -/
def complete (transfer : FileTransfer) (u : Uploaded) : Async Unit := do
  let _ ← db (.update transfer.id u.patch)
  let _ ← db (.recordUsage transfer.tenantId u.sizeBytes)
  publishTransferEvent env transfer .transferCompleted u.event

/-- The `catch` branch: a permanent problem is finalised now, others are thrown on. -/
def reject (transfer : FileTransfer) (err : Err) : Async Unit :=
  match err with
  | .nonRetryable message => do
    let _ ← db (.update transfer.id (.markFailed message))
    publishTransferEvent env transfer .transferFailed (.failed message)
    toDeadLetter transfer.id message
  | err => Prog.throw err

def runTransfer (data : TransferJobData) : Async Unit := do
  let found ← db (.findOne .pool data.transferId)
  match found with
  | none => return ()
  | some transfer =>
    if transfer.status = .success then return ()
    else do
      let _ ← db (.update transfer.id .markProcessing)
      Prog.tryCatch
        (do
          let uploaded ← prepareAndUpload env transfer
          complete env transfer uploaded)
        (reject env transfer)

/-- The reason written by the `failed` handler. -/
def exhausted (job : Job) (err : Err) : String :=
  "Exhausted " ++ toString (job.attempts.getD 1) ++ " attempts. Last error: " ++ err.message

/-- Fired for every throwing run; `job` is the job after that run was counted. -/
def onFailed (job : Job) (err : Err) : Async Unit :=
  if job.attemptsMade < job.attempts.getD 1 then return ()
  else do
    let _ ← db (.update job.data.transferId (.markFailed (exhausted job err)))
    let found ← db (.findOne .pool job.data.transferId)
    let _ ← (match found with
      | none => pure ()
      | some transfer =>
        publishTransferEvent env transfer .transferFailed (.failed (exhausted job err)))
    toDeadLetter job.data.transferId (exhausted job err)

end Service

end Worker
