import SyncBridge.AwaitPrograms
import SyncBridge.Database

/-!
# Awaited calls

Everything the services wait for: the database, the BullMQ queues, the Kafka
topic, the shared volume and the virus scanner, the object store, and the local
sources of time and randomness. `exec` says what one call does. Any call to
another system may be rejected instead, and then it has had no effect. The
object store keeps the last completed write at a key.

Reads of one file are independent: each sees the content the volume has at that
moment. How a read stream is cut into chunks is left out, since the encrypted
object does not depend on it.
-/

namespace Calls

open AwaitPrograms ChunkTransforms EnvelopeCrypto Entities Database

inductive JobState where
  | waiting
  | active
  | completed
  | failed
  deriving DecidableEq, Repr

/-- A job of the transfer queue. A job delayed for a retry is waiting. -/
structure Job where
  id : Nat
  data : TransferJobData
  attemptsMade : Nat
  attempts : Option Nat
  state : JobState
  deriving DecidableEq, Repr

structure Queues where
  jobs : List Job
  deadLetters : List DeadLetterJobData
  deliveries : List WebhookDeliveryJob

inductive QueueOp where
  | addTransfer (data : TransferJobData) (attempts : Option Nat)
  | addDeadLetter (data : DeadLetterJobData)
  | addDelivery (job : WebhookDeliveryJob)
  deriving DecidableEq, Repr

def Queues.exec (q : Queues) : QueueOp → Queues
  | .addTransfer data attempts =>
    { q with jobs := q.jobs ++ [⟨q.jobs.length, data, 0, attempts, .waiting⟩] }
  | .addDeadLetter data => { q with deadLetters := q.deadLetters ++ [data] }
  | .addDelivery job => { q with deliveries := q.deliveries ++ [job] }

inductive Entry where
  | file (content : Bytes)
  | directory
  deriving DecidableEq, Repr

structure Stats where
  size : Nat
  isFile : Bool
  deriving DecidableEq, Repr

def Entry.stats : Entry → Stats
  | .file content => ⟨content.length, true⟩
  | .directory => ⟨0, false⟩

structure ScanResult where
  clean : Bool
  signature : Option String
  deriving DecidableEq, Repr

inductive VolumeOp where
  | stat (path : String)
  | readFile (path : String)
  | scan (path : String)
  deriving DecidableEq, Repr

@[reducible] def VolumeOp.Ans : VolumeOp → Type
  | .stat _ => Stats
  | .readFile _ => Bytes
  | .scan _ => ScanResult

/-- The bytes of an upload: a read stream, or one piped through the encryptor. -/
structure Body where
  sourcePath : String
  encryption : Option (Key × Iv)
  deriving DecidableEq, Repr

/-- An object and, as history only, the data key its bytes were encrypted under. -/
structure StoredObject where
  body : Bytes
  contentType : String
  dek : Option Bytes
  deriving DecidableEq, Repr

/-- One write; which thread made it is kept as history. -/
structure Put where
  bucket : String
  key : String
  object : StoredObject
  writer : Nat
  deriving DecidableEq, Repr

/-- Completed writes, newest first. -/
structure Store where
  buckets : List String
  puts : List Put

def Store.get (s : Store) (bucket key : String) : Option StoredObject :=
  (s.puts.find? fun p => p.bucket = bucket && p.key = key).map (·.object)

inductive StoreOp where
  | headBucket (bucket : String)
  | createBucket (bucket : String)
  | putObject (bucket key : String) (body : Body) (contentLength : Nat) (contentType : String)
  | multipartUpload (bucket key : String) (body : Body) (contentType : String)
  | getObject (bucket key : String)
  deriving DecidableEq, Repr

@[reducible] def StoreOp.Ans : StoreOp → Type
  | .headBucket _ => Unit
  | .createBucket _ => Unit
  | .putObject _ _ _ _ _ => Option String
  | .multipartUpload _ _ _ _ => Option String
  | .getObject _ _ => StoredObject

/-- Time, randomness, and the flags that keep one pass at a time in a replica. -/
inductive HostOp where
  | now
  | randomKey
  | randomIv
  | enterRelay (replica : Nat)
  | leaveRelay (replica : Nat)
  | enterSweep (replica : Nat)
  | leaveSweep (replica : Nat)
  deriving DecidableEq, Repr

@[reducible] def HostOp.Ans : HostOp → Type
  | .now => Nat
  | .randomKey => Key
  | .randomIv => Iv
  | .enterRelay _ => Bool
  | .leaveRelay _ => Unit
  | .enterSweep _ => Bool
  | .leaveSweep _ => Unit

structure Host where
  now : Nat
  relaying : List Nat
  sweeping : List Nat

inductive Op where
  | db (op : DbOp)
  | queue (op : QueueOp)
  | kafkaSend (key : String) (event : TransferEvent)
  | volume (op : VolumeOp)
  | store (op : StoreOp)
  | host (op : HostOp)
  deriving DecidableEq, Repr

@[reducible] def Op.Ans : Op → Type
  | .db op => op.Ans
  | .queue _ => Unit
  | .kafkaSend _ _ => Unit
  | .volume op => op.Ans
  | .store op => op.Ans
  | .host op => op.Ans

/-- Rollbacks and local operations always succeed. -/
def Op.mayFail : Op → Bool
  | .db .rollback => false
  | .host _ => false
  | _ => true

inductive AcceptOutcome where
  | accepted
  | duplicate
  | ignored
  deriving DecidableEq, Repr

/-- The answer given to one webhook, kept as history. -/
structure Answer where
  idempotencyKey : String
  outcome : Option AcceptOutcome
  deriving DecidableEq, Repr

structure State where
  db : Db
  queues : Queues
  kafka : List (String × TransferEvent)
  files : List (String × Entry)
  store : Store
  host : Host
  answers : List Answer

/-- The configuration and the functions of the runtime the services call. -/
structure Env where
  config : AppConfig
  crypto : NodeCrypto.Library
  md5 : Bytes → String
  sha256 : Bytes → String
  clamd : Bytes → ScanResult
  multipartEtag : Bytes → Option String
  toLowerCase : String → String
  cwd : List Char

def zeroKey : Key := ⟨List.replicate 32 0, rfl⟩

def zeroIv : Iv := ⟨List.replicate 12 0, rfl⟩

/-- What is left open about one call: a rejection, and the random bytes drawn. -/
structure Choice where
  fault : Option (String × String) := none
  key : Key := zeroKey
  iv : Iv := zeroIv

def Choice.ok : Choice := {}

def Choice.rejected (name message : String) : Choice := { fault := some (name, message) }

section Exec
variable (env : Env)

def lookupFile (s : State) (path : String) : Option Entry :=
  (s.files.find? fun f => f.1 = path).map (·.2)

def execVolume (s : State) : (op : VolumeOp) → Except Err op.Ans
  | .stat path => match lookupFile s path with
    | none => .error (.other "Error" "ENOENT")
    | some e => .ok e.stats
  | .readFile path => match lookupFile s path with
    | some (.file content) => .ok content
    | _ => .error (.other "Error" "ENOENT")
  | .scan path => match lookupFile s path with
    | some (.file content) => .ok (env.clamd content)
    | _ => .error (.other "Error" "ENOENT")

/-- The bytes a body streams, given the content of its file. -/
def Body.bytes (b : Body) (content : Bytes) : Option Bytes :=
  match b.encryption with
  | none => some content
  | some (dek, iv) => match env.crypto.createCipheriv dek.1 iv.1 with
    | .error _ => none
    | .ok cipher => match (encryptTransform env.crypto iv.1 cipher).pipe [content] with
      | (_, .error _) => none
      | (out, .ok ()) => some out.flatten

/-- The whole stream at once: a file is rewritten between calls, not while one reads it. -/
def Body.read (s : State) (b : Body) : Option Bytes :=
  match lookupFile s b.sourcePath with
  | some (.file content) => b.bytes env content
  | _ => none

def putIn (pid : Nat) (s : State) (bucket key : String) (body : Body) (bytes : Bytes)
    (contentType : String) : State :=
  { s with store := { s.store with
      puts := ⟨bucket, key, ⟨bytes, contentType, body.encryption.map fun e => e.1.1⟩, pid⟩ ::
        s.store.puts } }

/-- A source that cannot be read rejects the call. With encryption on the process ends
instead, which is a crash at this point. -/
def execStore (pid : Nat) (s : State) : (op : StoreOp) → Except Err op.Ans × State
  | .headBucket bucket =>
    if bucket ∈ s.store.buckets then (.ok (), s) else (.error (.other "NotFound" bucket), s)
  | .createBucket bucket =>
    (.ok (), { s with store := { s.store with buckets := bucket :: s.store.buckets } })
  | .putObject bucket key body contentLength contentType => match body.read env s with
    | none => (.error (.other "Error" "source stream failed"), s)
    | some bytes =>
      if bytes.length = contentLength then
        (.ok (some (env.md5 bytes)), putIn pid s bucket key body bytes contentType)
      else (.error (.other "IncompleteBody" key), s)
  | .multipartUpload bucket key body contentType => match body.read env s with
    | none => (.error (.other "Error" "source stream failed"), s)
    | some bytes => (.ok (env.multipartEtag bytes), putIn pid s bucket key body bytes contentType)
  | .getObject bucket key => match s.store.get bucket key with
    | none => (.error (.other "NoSuchKey" key), s)
    | some o => (.ok o, s)

def execHost (c : Choice) (h : Host) : (op : HostOp) → op.Ans × Host
  | .now => (h.now, h)
  | .randomKey => (c.key, h)
  | .randomIv => (c.iv, h)
  | .enterRelay replica =>
    if replica ∈ h.relaying then (false, h)
    else (true, { h with relaying := replica :: h.relaying })
  | .leaveRelay replica => ((), { h with relaying := h.relaying.filter (· ≠ replica) })
  | .enterSweep replica =>
    if replica ∈ h.sweeping then (false, h)
    else (true, { h with sweeping := replica :: h.sweeping })
  | .leaveSweep replica => ((), { h with sweeping := h.sweeping.filter (· ≠ replica) })

/-- A call that is not rejected. -/
def perform (pid : Nat) (c : Choice) (s : State) : (op : Op) → Option (Except Err op.Ans × State)
  | .db op => match s.db.exec s.host.now pid op with
    | none => none
    | some (r, db) => some (r, { s with db := db })
  | .queue op => some (.ok (), { s with queues := s.queues.exec op })
  | .kafkaSend key event => some (.ok (), { s with kafka := s.kafka ++ [(key, event)] })
  | .volume op => some (execVolume env s op, s)
  | .store op => some (execStore env pid s op)
  | .host op =>
    let (a, h) := execHost c s.host op
    some (.ok a, { s with host := h })

def exec (pid : Nat) (op : Op) (c : Choice) (s : State) : Option (Except Err op.Ans × State) :=
  match c.fault with
  | none => perform env pid c s op
  | some (name, message) =>
    if op.mayFail then some (.error (.other name message), s) else perform env pid c s op

end Exec

/-- An asynchronous function of the services. -/
abbrev Async (α : Type) := Prog Op Op.Ans Err α

def db (op : DbOp) : Async op.Ans := Prog.call (Op.db op)

def queue (op : QueueOp) : Async Unit := Prog.call (Op.queue op)

def volume (op : VolumeOp) : Async op.Ans := Prog.call (Op.volume op)

def store (op : StoreOp) : Async op.Ans := Prog.call (Op.store op)

def host (op : HostOp) : Async op.Ans := Prog.call (Op.host op)

end Calls
