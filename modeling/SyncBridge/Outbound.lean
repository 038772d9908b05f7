import SyncBridge.Authentication
import SyncBridge.CombinedCalls
import SyncBridge.JsonText
import SyncBridge.Orchestrator
import SyncBridge.SimpleArrays

/-!
# Subscriptions, deliveries and alerts

The services behind the queues: `SubscriptionsService`, `WebhookDeliveryProcessor`,
`DeadLetterProcessor` and `NotificationService`. They run in one pool with the
operations of the orchestrator, whose calls they share; `NetOp` holds what only they
wait for. A worker that takes a job gets a new lock on it, and the queue takes the end
of a run into account only from the holder of the lock. A job whose worker was lost
may become waiting again. Delivery jobs have five attempts, dead letters the default of
one. Metrics and log lines are left out.

A request that `fetch` puts on the wire is kept as history with what came of it, and so
are the registrations the API has let in.
-/

namespace Outbound

open AwaitPrograms CombinedCalls JsonText ThreadPools Entities Database Calls Ingestion Orchestrator
open Authentication (fits)

/-! ## Payloads -/

def eventName : EventType → String
  | .transferCompleted => "transfer.completed"
  | .transferFailed => "transfer.failed"

def dataJson : EventData → Json
  | .completed bucket objectKey sizeBytes encrypted => .object
      [("bucket", .string bucket), ("objectKey", .string objectKey),
        ("sizeBytes", .number (whole sizeBytes)),
       ("encrypted", .bool encrypted)]
  | .failed reason => .object [("reason", .string reason)]

/-- The event as the body of a delivery and as the value of a Kafka message. -/
def eventJson (event : TransferEvent) : Json :=
  .object [("type", .string (eventName event.type)),
    ("transferId", .string (toString event.transferId)),
    ("tenantId", .string event.tenantId), ("data", dataJson event.data)]

structure HttpRequest where
  url : String
  headers : List (String × String)
  body : String
  deriving DecidableEq, Repr

structure Response where
  status : Nat
  deriving DecidableEq, Repr

/-- `res.ok`. -/
def Response.ok (res : Response) : Bool := 200 ≤ res.status && res.status < 300

structure FailureAlert where
  transferId : Nat
  filename : String
  reason : String
  deriving DecidableEq, Repr

def alertText (alert : FailureAlert) : String :=
  "🚨 S3-SyncBridge transfer FAILED\n• file: " ++ alert.filename ++ "\n• id: " ++
    toString alert.transferId ++
    "\n• reason: " ++ alert.reason

/-! ## Subscriptions -/

/-- The request body after its transformation. -/
structure CreateSubscriptionDto where
  url : String
  events : List EventType
  secret : Option String
  deriving DecidableEq, Repr

def eventNamed (name : String) : Option EventType :=
  if name = "transfer.completed" then some .transferCompleted
  else if name = "transfer.failed" then some .transferFailed
  else none

/-- The event types that a saved column gives back. -/
def storedEvents (events : List EventType) : List EventType :=
  SimpleArrays.stored eventName eventNamed events

def urlColumn : Nat := 2048

/-! ## Calls -/

/-- Who puts a request on the wire. -/
inductive Origin where
  | delivery (jobId : Nat)
  | alert (jobId : Nat)
  deriving DecidableEq, Repr

/-- `origin` is no argument of `fetch`: it is kept for the history. -/
inductive NetOp where
  | saveSubscription (tenantId url : String) (events : List EventType) (secret : String)
  | findSubscription (id : Nat) (tenantId : String)
  | listSubscriptions (tenantId : String)
  | deleteSubscription (id : Nat)
  | randomSecret
  | fetch (request : HttpRequest) (origin : Origin)
  deriving DecidableEq, Repr

@[reducible] def NetOp.Ans : NetOp → Type
  | .saveSubscription _ _ _ _ => EventSubscription
  | .findSubscription _ _ => Option EventSubscription
  | .listSubscriptions _ => List EventSubscription
  | .deleteSubscription _ => Unit
  | .randomSecret => String
  | .fetch _ _ => Response

/-- What the queue keeps of a delivery or dead-letter job; `stalls` counts the workers that
were lost. -/
structure Run where
  state : JobState
  attemptsMade : Nat
  lock : Nat
  stalls : Nat
  deriving DecidableEq, Repr

def Run.fresh : Run := ⟨.waiting, 0, 0, 0⟩

/-- A request on the wire and the status that came back, if any. -/
structure Sent where
  origin : Origin
  request : HttpRequest
  status : Option Nat
  deriving DecidableEq, Repr

def Sent.ok (x : Sent) : Bool :=
  match x.status with
  | none => false
  | some status => (Response.mk status).ok

/-- The number of a job is its place in the queue's list. `sent` and `registrations` are
history only. -/
structure OutState where
  core : State
  deliveryRuns : Nat → Run
  alertRuns : Nat → Run
  sent : List Sent
  registrations : List (AuthUser × CreateSubscriptionDto)

structure OutEnv where
  core : Env
  hmacSha256 : String → String → String
  isUrl : String → Bool
  alertsEnabled : Bool
  alertsWebhookUrl : Option String

/-- What is left open about a call: also the status a subscriber answers with, and a
random secret. -/
structure OutChoice where
  core : Choice := {}
  status : Nat := 200
  secret : String := ""

def execNet (c : OutChoice) (s : OutState) : (op : NetOp) → Except Err op.Ans × OutState
  | .saveSubscription tenantId url events secret =>
    if fits Authentication.tenantColumn tenantId && fits urlColumn url &&
      fits Authentication.nameColumn secret then
      let sub : EventSubscription :=
        ⟨s.core.db.nextId, tenantId, url, storedEvents events, secret, true⟩
      (.ok sub, { s with core := { s.core with db := { s.core.db with
        subscriptions := s.core.db.subscriptions ++ [sub], nextId := s.core.db.nextId + 1 } } })
    else (.error (.other "QueryFailedError" "value does not fit its column"), s)
  | .findSubscription id tenantId =>
    (.ok (s.core.db.subscriptions.find? fun x => x.id = id && x.tenantId = tenantId), s)
  | .listSubscriptions tenantId =>
    (.ok (s.core.db.subscriptions.filter (·.tenantId = tenantId)).reverse, s)
  | .deleteSubscription id =>
    (.ok (), { s with core := { s.core with db := { s.core.db with
      subscriptions := s.core.db.subscriptions.filter (·.id ≠ id) } } })
  | .randomSecret => (.ok c.secret, s)
  | .fetch request origin =>
    (.ok ⟨c.status⟩, { s with sent := s.sent ++ [⟨origin, request, some c.status⟩] })

/-- A call that fails: a failed `fetch` may have reached the other side all the same. -/
def rejectNet (name message : String) (s : OutState) : (op : NetOp) → Except Err op.Ans × OutState
  | .fetch request origin =>
    (.error (.other name message), { s with sent := s.sent ++ [⟨origin, request, none⟩] })
  | _ => (.error (.other name message), s)

def execOut (env : OutEnv) (pid : Nat) : (op : Op ⊕ NetOp) → OutChoice → OutState →
    Option (Except Err (Either Op.Ans NetOp.Ans op) × OutState)
  | .inl op, c, s => match exec env.core pid op c.core s.core with
    | none => none
    | some (a, core) => some (a, { s with core := core })
  | .inr .randomSecret, c, s => some (execNet c s .randomSecret)
  | .inr op, c, s => match c.core.fault with
    | none => some (execNet c s op)
    | some (name, message) => some (rejectNet name message s op)

/-- An asynchronous function of these services. -/
abbrev OutAsync (α : Type) := Prog (Op ⊕ NetOp) (Either Op.Ans NetOp.Ans) Err α

def net (op : NetOp) : OutAsync op.Ans := Prog.call (Sum.inr op)

/-! ## Services -/

namespace SubscriptionsService

/-- A subscription of the caller's tenant; a missing secret is drawn at random. -/
def create (user : AuthUser) (dto : CreateSubscriptionDto) : OutAsync EventSubscription := do
  let secret ← match dto.secret with
    | some secret => pure secret
    | none => net .randomSecret
  net (.saveSubscription user.tenantId dto.url dto.events secret)

def list (user : AuthUser) : OutAsync (List EventSubscription) :=
  net (.listSubscriptions user.tenantId)

/-- The row is looked up in the caller's tenant and then deleted by its identifier. -/
def remove (user : AuthUser) (id : Nat) : OutAsync Unit := do
  let sub ← net (.findSubscription id user.tenantId)
  match sub with
  | none => Prog.throw (.notFound ("Subscription " ++ toString id ++ " not found"))
  | some _ => net (.deleteSubscription id)

end SubscriptionsService

section Service
variable (env : OutEnv)

/-- The decorators of `CreateSubscriptionDto`. -/
def CreateSubscriptionDto.valid (dto : CreateSubscriptionDto) : Bool :=
  env.isUrl dto.url && !dto.events.isEmpty

/-- The signed request of a delivery job. -/
def deliveryRequest (job : WebhookDeliveryJob) : HttpRequest :=
  let body := stringify (eventJson job.event)
  { url := job.url
    headers :=
      [("Content-Type", "application/json"), ("X-SyncBridge-Event", eventName job.event.type),
      ("X-SyncBridge-Signature", "sha256=" ++ env.hmacSha256 job.secret body)]
    body := body }

/-- One attempt of `WebhookDeliveryProcessor.process`; its `catch` only counts and throws on. -/
def deliver (jobId : Nat) (job : WebhookDeliveryJob) : OutAsync Unit := do
  let res ← net (.fetch (deliveryRequest env job) (.delivery jobId))
  if res.ok then return ()
  else Prog.throw (.other "Error" ("subscriber returned " ++ toString res.status))

/-- Where alerts go, unless they are off or unconfigured. -/
def alertUrl : Option String :=
  if env.alertsEnabled then Routing.present env.alertsWebhookUrl else none

def alertRequest (url : String) (alert : FailureAlert) : HttpRequest :=
  { url := url
    headers := [("Content-Type", "application/json")]
    body := stringify (.object [("text", .string (alertText alert))]) }

/-- A response that is not ok and a failed `fetch` are only logged. -/
def notifyFailure (jobId : Nat) (alert : FailureAlert) : OutAsync Unit :=
  match alertUrl env with
  | none => return ()
  | some url => Prog.tryCatch
      (do
        let _ ← net (.fetch (alertRequest url alert) (.alert jobId))
        return ())
      fun _ => return ()

/-- `DeadLetterProcessor.process`. -/
def processDeadLetter (jobId : Nat) (data : DeadLetterJobData) : OutAsync Unit := do
  let transfer ← left (db (.findOne .pool data.transferId))
  notifyFailure env jobId
    ⟨data.transferId, (transfer.map (·.filename)).getD "unknown", data.reason⟩

end Service

/-! ## The running system -/

inductive OutTask where
  | core (task : Task)
  | createSubscription (user : AuthUser) (dto : CreateSubscriptionDto)
  | listSubscriptions (user : AuthUser)
  | removeSubscription (user : AuthUser) (id : Nat)
  | deliver (jobId lock : Nat) (job : WebhookDeliveryJob)
  | deadLetter (jobId lock : Nat) (data : DeadLetterJobData)

def unwatched {α : Type} (p : OutAsync α) : OutAsync Reply := p.bind fun _ => .done (.ok .finished)

def codeOut (env : OutEnv) : OutTask → OutAsync Reply
  | .core task => left (code env.core task)
  | .createSubscription user dto => unwatched (SubscriptionsService.create user dto)
  | .listSubscriptions user => unwatched (SubscriptionsService.list user)
  | .removeSubscription user id => unwatched (SubscriptionsService.remove user id)
  | .deliver jobId _ job => unwatched (deliver env jobId job)
  | .deadLetter jobId _ data => unwatched (processDeadLetter env jobId data)

inductive OutRequest where
  | core (q : Request)
  | createSubscription (user : AuthUser) (dto : CreateSubscriptionDto)
  | listSubscriptions (user : AuthUser)
  | removeSubscription (user : AuthUser) (id : Nat)
  | takeDelivery (jobId : Nat)
  | takeDeadLetter (jobId : Nat)

/-- A job that waits goes to a worker under a new lock. -/
def Run.take (run : Run) : Run := { run with state := .active, lock := run.lock + 1 }

def Run.complete (run : Run) : Run := { run with state := .completed }

/-- A throwing run is counted; the job waits again while attempts are left. -/
def Run.fail (limit : Nat) (run : Run) : Run :=
  { run with
    attemptsMade := run.attemptsMade + 1
    state := if run.attemptsMade + 1 < limit then .waiting else .failed }

/-- The end of a run counts when its worker still holds the lock. -/
def Run.settle (limit lock : Nat) (out : Except Err Reply) (run : Run) : Run :=
  if run.state = .active ∧ run.lock = lock then
    match out with
    | .ok _ => run.complete
    | .error _ => run.fail limit
  else run

/-- The default of the queue, which no processor changes. -/
def maxStalledCount : Nat := 1

/-- The job of a lost worker waits again; the queue gives it up when it loses another. -/
def Run.stall (run : Run) : Run :=
  if run.stalls < maxStalledCount then { run with state := .waiting, stalls := run.stalls + 1 }
  else { run with state := .failed, attemptsMade := run.attemptsMade + 1, stalls := run.stalls + 1 }

def setRun (f : Run → Run) (jobId : Nat) (runs : Nat → Run) : Nat → Run :=
  fun n => if n = jobId then f (runs n) else runs n

def deliveryAttempts : Nat := 5

def deadLetterAttempts : Nat := 1

/-- `Roles(OPERATOR, ADMIN)`. -/
def mayManage (user : AuthUser) : Bool :=
  user.roles.contains .operator || user.roles.contains .admin

/-- The route guards and the validation have passed; a viewer may list. -/
def enterOut (env : OutEnv) : OutRequest → OutState → Option (OutState × OutTask)
  | .core q, s => match enter q s.core with
    | none => none
    | some (core, task) => some ({ s with core := core }, .core task)
  | .createSubscription user dto, s =>
    if mayManage user && dto.valid env then
      some ({ s with registrations := s.registrations ++ [(user, dto)] },
        .createSubscription user dto)
    else none
  | .listSubscriptions user, s =>
    if mayManage user || user.roles.contains .viewer then some
      (s, .listSubscriptions user) else none
  | .removeSubscription user id, s =>
    if mayManage user then some (s, .removeSubscription user id) else none
  | .takeDelivery jobId, s => match s.core.queues.deliveries[jobId]? with
    | none => none
    | some job =>
      if (s.deliveryRuns jobId).state = .waiting then
        some ({ s with deliveryRuns := setRun Run.take jobId s.deliveryRuns },
          .deliver jobId ((s.deliveryRuns jobId).lock + 1) job)
      else none
  | .takeDeadLetter jobId, s => match s.core.queues.deadLetters[jobId]? with
    | none => none
    | some data =>
      if (s.alertRuns jobId).state = .waiting then
        some ({ s with alertRuns := setRun Run.take jobId s.alertRuns },
          .deadLetter jobId ((s.alertRuns jobId).lock + 1) data)
      else none

def finishOut (env : OutEnv) : OutTask → Except Err Reply → OutState → OutState × List OutTask
  | .core task, out, s =>
    ({ s with core := (finish env.core task out s.core).1 },
      (finish env.core task out s.core).2.map .core)
  | .deliver jobId lock _, out, s =>
    ({ s with
      deliveryRuns := setRun (Run.settle deliveryAttempts lock out) jobId s.deliveryRuns }, [])
  | .deadLetter jobId lock _, out, s =>
    ({ s with alertRuns := setRun (Run.settle deadLetterAttempts lock out) jobId s.alertRuns }, [])
  | _, _, s => (s, [])

def dropOut (pid : Nat) : OutTask → OutState → OutState
  | .core task, s => { s with core := drop pid task s.core }
  | _, s => s

inductive OutEvent where
  | core (e : Event)
  | stalledDelivery (jobId : Nat)
  | stalledDeadLetter (jobId : Nat)

def outsideOut : OutEvent → OutState → Option OutState
  | .core e, s => match outside e s.core with
    | none => none
    | some core => some { s with core := core }
  | .stalledDelivery jobId, s =>
    if (s.deliveryRuns jobId).state = .active then
      some { s with deliveryRuns := setRun Run.stall jobId s.deliveryRuns }
    else none
  | .stalledDeadLetter jobId, s =>
    if (s.alertRuns jobId).state = .active then
      some { s with alertRuns := setRun Run.stall jobId s.alertRuns }
    else none

def outMachine (env : OutEnv) :
    Machine OutState OutTask (Op ⊕ NetOp) (Either Op.Ans NetOp.Ans) Err Reply
    OutRequest OutChoice OutEvent where
  exec := execOut env
  enter := enterOut env
  code := codeOut env
  finish := finishOut env
  drop := dropOut
  outside := outsideOut

abbrev OutWorld := World OutState OutTask (Op ⊕ NetOp) (Either Op.Ans NetOp.Ans) Err Reply

abbrev OutAct := Act OutRequest OutChoice OutEvent

/-- A fresh installation without subscribers, and with nothing on the wire. -/
structure Fresh (w : OutWorld) : Prop where
  threads : w.threads = []
  core : Initial ⟨w.store.core, [], 0⟩
  subscriptions : w.store.core.db.subscriptions = []
  deliveries : w.store.core.queues.deliveries = []
  deadLetters : w.store.core.queues.deadLetters = []
  deliveryRuns : w.store.deliveryRuns = fun _ => Run.fresh
  alertRuns : w.store.alertRuns = fun _ => Run.fresh
  sent : w.store.sent = []
  registrations : w.store.registrations = []

/-! ## A sample installation

The installation of the orchestrator with one subscriber. The signature is that of the
event of the sample upload under the secret of the sample subscription. -/

def sampleOutEnv : OutEnv where
  core := sampleEnv
  hmacSha256 _ _ := "37e4530d91694ac6f8fcc37257d6853262549ad1e05ddd81b4475365e75857e0"
  isUrl _ := true
  alertsEnabled := true
  alertsWebhookUrl := some "https://alerts.example/hook"

def sampleOutWorld : OutWorld :=
  ⟨⟨sampleState, fun _ => Run.fresh, fun _ => Run.fresh, [], []⟩, [], 0⟩

theorem sample_fresh : Fresh sampleOutWorld := by
  constructor
  case core => constructor <;> rfl
  all_goals rfl

def sampleOperator : AuthUser := ⟨1, "olivia", [.operator], "default"⟩

def sampleSubscription : CreateSubscriptionDto :=
  ⟨"https://subscriber.example/hook", [.transferCompleted], some "whsec"⟩

end Outbound
