import SyncBridge.ThreadPools
import SyncBridge.Management

/-!
# The running system

Every operation of the orchestrator is a task of one thread pool over the shared
state: webhook calls, relay passes, worker attempts, `failed` handlers, recovery
sweeps, retries and purges, on any number of replicas. BullMQ is the part of the
machine around the tasks: it hands a waiting job to a worker, counts a throwing
run, runs the job again while attempts are left, and fires `failed` for every
throwing run. A job whose worker was lost may become waiting again, here any number
of times. The queue fails it at the second loss, and for the tables that is a run of
this machine as well: the next attempt ends with its first call rejected. A crash
rolls the open transaction back and clears the flag of its pass.
-/

namespace Orchestrator

open AwaitPrograms ThreadPools EnvelopeCrypto Entities Database Calls Ingestion Worker Management

inductive Task where
  | accept (p : SftpgoWebhookDto) (carrier : List (String × String))
  | relay (replica : Nat)
  | process (jobId : Nat) (data : TransferJobData)
  | onFailed (job : Job) (err : Err)
  | sweep (replica : Nat)
  | retry (id : Nat) (user : AuthUser)
  | retryBatch (dto : RetryBatchDto) (user : AuthUser)
  | purge

/-- What is kept of a task's result. -/
inductive Reply where
  | outcome (o : AcceptOutcome)
  | finished
  deriving DecidableEq, Repr

/-- A task whose value nobody looks at. -/
def finished {α : Type} (p : Async α) : Async Reply := p.bind fun _ => .done (.ok .finished)

def code (env : Env) : Task → Async Reply
  | .accept p carrier => (accept env p carrier).bind fun o => .done (.ok (.outcome o))
  | .relay replica => finished (relay replica)
  | .process _ data => finished (runTransfer env data)
  | .onFailed job err => finished (onFailed env job err)
  | .sweep replica => finished (sweep env replica)
  | .retry id user => finished (retry env id user)
  | .retryBatch dto user => finished (retryBatch env dto user)
  | .purge => finished (purge env)

inductive Request where
  | webhook (p : SftpgoWebhookDto) (carrier : List (String × String))
  | relayTick (replica : Nat)
  | takeJob (jobId : Nat)
  | sweepTick (replica : Nat)
  | retry (id : Nat) (user : AuthUser)
  | retryBatch (dto : RetryBatchDto) (user : AuthUser)
  | purgeTick

/-- Replace the job of this number. -/
def setJob (f : Job → Job) (jobId : Nat) (s : State) : State :=
  { s with queues := { s.queues with
      jobs := s.queues.jobs.map fun j => if j.id = jobId then f j else j } }

def findJob (jobId : Nat) (s : State) : Option Job := s.queues.jobs.find? fun j => j.id = jobId

/-- A waiting job goes to one worker. -/
def takeJob (jobId : Nat) (s : State) : Option (State × Task) :=
  match findJob jobId s with
  | none => none
  | some job =>
    if job.state = .waiting then
      some (setJob (fun j => { j with state := .active }) jobId s, .process jobId job.data)
    else none

def enter : Request → State → Option (State × Task)
  | .webhook p carrier, s => some (s, .accept p carrier)
  | .relayTick replica, s => some (s, .relay replica)
  | .takeJob jobId, s => takeJob jobId s
  | .sweepTick replica, s => some (s, .sweep replica)
  | .retry id user, s => some (s, .retry id user)
  | .retryBatch dto user, s => some (s, .retryBatch dto user)
  | .purgeTick, s => some (s, .purge)

/-- A throwing run is counted; the job waits again while attempts are left. -/
def failedRun (j : Job) : Job :=
  { j with
    attemptsMade := j.attemptsMade + 1
    state := if j.attemptsMade + 1 < j.attempts.getD 0 then .waiting else .failed }

def replyOutcome : Except Err Reply → Option AcceptOutcome
  | .ok (.outcome o) => some o
  | _ => none

/-- What the end of a task does: the answer to a webhook is kept as history, the
queue settles its job and fires `failed` after a throw. -/
def finish (env : Env) : Task → Except Err Reply → State → State × List Task
  | .accept p _, out, s =>
    ({ s with answers := s.answers ++ [⟨buildIdempotencyKey env p, replyOutcome out⟩] }, [])
  | .process jobId _, .ok _, s => (setJob (fun j => { j with state := .completed }) jobId s, [])
  | .process jobId _, .error err, s => match findJob jobId s with
    | none => (s, [])
    | some job => (setJob failedRun jobId s, [.onFailed (failedRun job) err])
  | _, _, s => (s, [])

/-- The transaction of a lost process is rolled back and its flags start afresh. -/
def drop (pid : Nat) (task : Task) (s : State) : State :=
  let host := match task with
    | .relay replica => { s.host with relaying := s.host.relaying.filter (· ≠ replica) }
    | .sweep replica => { s.host with sweeping := s.host.sweeping.filter (· ≠ replica) }
    | _ => s.host
  { s with db := s.db.dropTx pid, host := host }

/-- Steps that no task takes: the clock, clients writing files, a lost job. -/
inductive Event where
  | clock (ms : Nat)
  | writeFile (path : String) (entry : Entry)
  | stalled (jobId : Nat)

def outside : Event → State → Option State
  | .clock ms, s => some { s with host := { s.host with now := s.host.now + ms } }
  | .writeFile path entry, s => some { s with files := (path, entry) :: s.files }
  | .stalled jobId, s => match findJob jobId s with
    | none => none
    | some job =>
      if job.state = .active then some (setJob (fun j => { j with state := .waiting }) jobId s)
      else none

def machine (env : Env) : Machine State Task Op Op.Ans Err Reply Request Choice Event where
  exec := exec env
  enter := enter
  code := code env
  finish := finish env
  drop := drop
  outside := outside

abbrev SysWorld := World State Task Op Op.Ans Err Reply

abbrev SysAct := Act Request Choice Event

abbrev SysThread := Thread Task Op Op.Ans Err Reply

/-- A fresh installation: nothing accepted, nothing running. Files, subscriptions,
stored objects and the clock are arbitrary. -/
structure Initial (w : SysWorld) : Prop where
  threads : w.threads = []
  transfers : w.store.db.transfers = []
  outbox : w.store.db.outbox = []
  usage : w.store.db.usage = []
  openTxs : w.store.db.openTxs = []
  inserted : w.store.db.inserted = []
  completions : w.store.db.completions = []
  jobs : w.store.queues.jobs = []
  answers : w.store.answers = []

/-! ## A sample installation

The documented defaults, one uploaded file with one byte, and the digests of the
strings that occur. Concrete runs of later modules start here. -/

def sampleConfig : AppConfig where
  transferMaxAttempts := 3
  ingestionDataRoot := "/srv/sftpgo/data"
  recoveryEnabled := true
  recoveryStaleMs := 900000
  recoveryBatchSize := 50
  auditDays := 0
  s3Bucket := "syncbridge"
  uploadPartSizeBytes := 8388608
  maxFileSizeBytes := 1073741824
  avEnabled := false
  crypto := ⟨false, none, fun h => nomatch h⟩
  routingRules := []
  defaultTenant := "default"
  tenantMap := []
  quotaDefaultMaxBytes := 0
  quotaDefaultMaxObjects := 0
  quotaMap := []
  kafkaEnabled := false

def sampleFile : String := "/srv/sftpgo/data/alice/a.txt"

def sampleEnv : Env where
  config := sampleConfig
  crypto := GaloisCounter.node
  md5 _ := "0cc175b9c0f1b6a831c399e269772661"
  sha256 b :=
    if b = [97] then "ca978112ca1bbdcafac231b39a23dc4da786eff8147c4e72b9807785afee48bb"
    else "b6ea8e89e72c7363adf5367ff7888304377f7c4592bc0125e1fad4a34f7179f1"
  clamd _ := ⟨true, none⟩
  multipartEtag _ := none
  toLowerCase s := String.ofList (s.toList.map Char.toLower)
  cwd := "/app".toList

def sampleUpload : SftpgoWebhookDto :=
  ⟨"upload", "alice", sampleFile, "/a.txt", 1, some 1, some "SFTP", none, some 1720000000000⟩

/-- The row of the sample upload. -/
def sampleRow : FileTransfer := (pendingInput sampleEnv sampleUpload sampleFile).row 0 1720000000000

def sampleState : State where
  db := ⟨[], [], [], [], [], 0, [], []⟩
  queues := ⟨[], [], []⟩
  kafka := []
  files := [(sampleFile, .file [97])]
  store := ⟨["syncbridge"], []⟩
  host := ⟨1720000000000, [], []⟩
  answers := []

def sampleWorld : SysWorld := ⟨sampleState, [], 0⟩

theorem sample_initial : Initial sampleWorld := by
  constructor <;> rfl

/-- Answer the next `n` calls of a thread. -/
def answer (pid n : Nat) : List SysAct := List.replicate n (.resume pid .ok)

/-- The webhook of the sample upload, answered by thread 0. -/
def sampleAccepted : List SysAct :=
  .request (.webhook sampleUpload []) :: answer 0 4 ++ [.settle 0]

/-- A relay pass of one event, by this thread. -/
def sampleRelay (pid : Nat) : List SysAct :=
  .request (.relayTick 0) :: answer pid 5 ++ [.settle pid]

/-- A relay is lost after `queue.add`, so the next pass publishes the event again.
Workers 3 and 4 take the two jobs, both read the row, and worker 3 goes on until
the row is SUCCESS. -/
def sampleDuplicate : List SysAct :=
  sampleAccepted ++ .request (.relayTick 0) :: answer 1 3 ++ [.crash 1] ++ sampleRelay 2 ++
    [.request (.takeJob 0), .request (.takeJob 1)] ++ answer 3 1 ++ answer 4 1 ++ answer 3 6

/-- The sample installation with one attempt for every transfer. -/
def onceEnv : Env := { sampleEnv with config := { sampleEnv.config with transferMaxAttempts := 1 } }

/-- The worker is lost after `markProcessing`; later a sweep of thread 3 stands at its
`markFailed`. -/
def exhaustedSweep : List SysAct :=
  sampleAccepted ++ sampleRelay 1 ++ .request (.takeJob 0) :: answer 2 2 ++
    [.crash 2, .outside (.clock 1000000), .request (.sweepTick 0)] ++ answer 3 3

/-- Nothing goes wrong in the step: only one operation is in flight, its call is
answered, and it ends without an error. -/
def calm (w : SysWorld) : SysAct → Bool
  | .resume pid c => (w.others pid).isEmpty && c.fault.isNone
  | .settle _ => w.threads.all fun t => match t.prog with
    | .done (.error _) => false
    | _ => true
  | .crash _ => false
  | _ => true

end Orchestrator
