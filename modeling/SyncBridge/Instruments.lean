import SyncBridge.CallRefinement
import SyncBridge.Footprints
import SyncBridge.GrowingKnowledge
import SyncBridge.Outbound

/-!
# The producer and the metrics of a process

`KafkaProducerService` and `MetricsService`, and the worker with the calls it makes to
them. Every process has a producer and a registry of its own; which process a thread runs
in is left open. Setting and reading a flag and counting are local and cannot fail. A
process that starts tries to connect its producer; when that fails, the next event tries
again. A process that shuts down disconnects it while its workers may still be at work.

To the rest of the system this is the worker without metrics, for which connecting and
sending are one call: every run of the processes is a run of the modelled system. Until
its process shuts down, a producer that takes itself to be connected is, so a message is
refused by the broker only. The flag is not taken back, so that afterwards the events of
jobs in flight are dropped by the client.
-/

namespace Instruments

open AwaitPrograms CombinedCalls ThreadPools CallRefinement Entities Database Calls JsonText Worker
open Orchestrator Footprints Outbound

/-! ## Services -/

inductive Metric where
  | startTimer
  | endTimer
  | incInFlight
  | decInFlight
  | recordSuccess (bytes : Nat)
  | recordFailure
  deriving DecidableEq, Repr

/-- Fields of the producer service, calls of its client, and the metrics. -/
inductive SideOp where
  | ready
  | setReady
  | connect
  | disconnect
  | send (key value : String)
  | metric (m : Metric)
  deriving DecidableEq, Repr

@[reducible] def SideOp.Ans : SideOp → Type
  | .ready => Bool
  | _ => Unit

/-- `durations` counts the observations; their values are left out. -/
structure Registry where
  inFlight : Int
  succeeded : Nat
  failed : Nat
  bytes : Nat
  durations : Nat
  deriving DecidableEq, Repr

def Registry.record (r : Registry) : Metric → Registry
  | .startTimer => r
  | .endTimer => { r with durations := r.durations + 1 }
  | .incInFlight => { r with inFlight := r.inFlight + 1 }
  | .decInFlight => { r with inFlight := r.inFlight - 1 }
  | .recordSuccess bytes => { r with succeeded := r.succeeded + 1, bytes := r.bytes + bytes }
  | .recordFailure => { r with failed := r.failed + 1 }

/-- `connected` is the client's own state. -/
structure Process where
  ready : Bool
  connected : Bool
  metrics : Registry
  deriving DecidableEq, Repr

def Process.fresh : Process := ⟨false, false, ⟨0, 0, 0, 0, 0⟩⟩

/-- The processes and the topic they send to. -/
structure Site where
  core : State
  processes : Nat → Process
  topic : List (String × String)

def Site.set (s : Site) (n : Nat) (p : Process) : Site :=
  { s with processes := Function.update s.processes n p }

/-- A client that is not connected refuses to send; one that is told to disconnect does not
send any more, whatever becomes of it. -/
def execSide (n : Nat) (c : Choice) (s : Site) : (op : SideOp) → Except Err op.Ans × Site
  | .ready => (.ok (s.processes n).ready, s)
  | .setReady => (.ok (), s.set n { s.processes n with ready := true })
  | .connect => match c.fault with
    | some (name, message) => (.error (.other name message), s)
    | none => (.ok (), s.set n { s.processes n with connected := true })
  | .disconnect => match c.fault with
    | some (name, message) =>
      (.error (.other name message), s.set n { s.processes n with connected := false })
    | none => (.ok (), s.set n { s.processes n with connected := false })
  | .send key value => match c.fault with
    | some (name, message) => (.error (.other name message), s)
    | none =>
      if (s.processes n).connected then (.ok (), { s with topic := s.topic ++ [(key, value)] })
      else (.error (.other "KafkaJSError" "The producer is disconnected"), s)
  | .metric m =>
    (.ok (), s.set n { s.processes n with metrics := (s.processes n).metrics.record m })

/-- An asynchronous function that also makes these calls. -/
abbrev SideAsync (α : Type) := Prog (Op ⊕ SideOp) (Either Op.Ans SideOp.Ans) Err α

def side (op : SideOp) : SideAsync op.Ans := Prog.call (Sum.inr op)

def metric (m : Metric) : SideAsync Unit := side (.metric m)

section Service
variable (env : Env)

namespace KafkaProducerService

/-- A broker that is not up does not keep the process from starting. -/
def onModuleInit : Prog SideOp SideOp.Ans Err Unit :=
  if env.config.kafkaEnabled then
    Prog.tryCatch
      (do
        let _ ← Prog.call SideOp.connect
        Prog.call SideOp.setReady)
      fun _ => return ()
  else return ()

def onModuleDestroy : Prog SideOp SideOp.Ans Err Unit :=
  if env.config.kafkaEnabled then
    Prog.tryCatch (Prog.call SideOp.disconnect) fun _ => return ()
  else return ()

def publish (key : String) (event : TransferEvent) : SideAsync Unit :=
  if env.config.kafkaEnabled then
    Prog.tryCatch
      (do
        let ready ← side .ready
        if ready then side (.send key (stringify (eventJson event)))
        else do
          let _ ← side .connect
          let _ ← side .setReady
          side (.send key (stringify (eventJson event))))
      fun _ => return ()
  else return ()

end KafkaProducerService

def publishTransferEvent (transfer : FileTransfer) (type : EventType) (data : EventData) :
    SideAsync Unit := do
  KafkaProducerService.publish env transfer.tenantId (transferEvent transfer type data)
  let subscriptions ← left (db (.findSubscriptions transfer.tenantId))
  left
    (Prog.forEach (fun s => queue (.addDelivery (deliveryJob (transferEvent transfer type data) s)))
    (subscriptions.filter fun s => type ∈ s.events))

def complete (transfer : FileTransfer) (u : Uploaded) : SideAsync Unit := do
  let _ ← left (db (.update transfer.id u.patch))
  let _ ← metric (.recordSuccess u.sizeBytes)
  let _ ← left (db (.recordUsage transfer.tenantId u.sizeBytes))
  publishTransferEvent env transfer .transferCompleted u.event

def reject (transfer : FileTransfer) (err : Err) : SideAsync Unit :=
  match err with
  | .nonRetryable message => do
    let _ ← left (db (.update transfer.id (.markFailed message)))
    let _ ← metric .recordFailure
    publishTransferEvent env transfer .transferFailed (.failed message)
    left (toDeadLetter transfer.id message)
  | err => Prog.throw err

/-- The gauge goes up before the row is marked and down in the `finally` clause, which
the mark is not inside of. -/
def runTransfer (data : TransferJobData) : SideAsync Unit := do
  let found ← left (db (.findOne .pool data.transferId))
  match found with
  | none => return ()
  | some transfer =>
    if transfer.status = .success then return ()
    else do
      let _ ← metric .startTimer
      let _ ← metric .incInFlight
      let _ ← left (db (.update transfer.id .markProcessing))
      Prog.finallyDo
        (Prog.tryCatch
          (do
            let uploaded ← left (prepareAndUpload env transfer)
            complete env transfer uploaded)
          (reject env transfer))
        (do
          let _ ← metric .decInFlight
          metric .endTimer)

def onFailed (job : Job) (err : Err) : SideAsync Unit :=
  if job.attemptsMade < job.attempts.getD 1 then return ()
  else do
    let _ ← left (db (.update job.data.transferId (.markFailed (exhausted job err))))
    let _ ← metric .recordFailure
    let found ← left (db (.findOne .pool job.data.transferId))
    let _ ← (match found with
      | none => pure ()
      | some transfer =>
        publishTransferEvent env transfer .transferFailed (.failed (exhausted job err)))
    left (toDeadLetter job.data.transferId (exhausted job err))

def code : Task → SideAsync Reply
  | .process _ data => (runTransfer env data).bind fun _ => .done (.ok .finished)
  | .onFailed job err => (onFailed env job err).bind fun _ => .done (.ok .finished)
  | task => left (Orchestrator.code env task)

/-- `home` gives the process of a thread. -/
def execSite (home : Nat → Nat) (pid : Nat) : (op : Op ⊕ SideOp) → Choice → Site →
    Option (Except Err (Either Op.Ans SideOp.Ans op) × Site)
  | .inl op, c, s => match exec env pid op c s.core with
    | none => none
    | some (a, core) => some (a, { s with core := core })
  | .inr op, c, s => some (execSide (home pid) c s op)

def enterSite (q : Request) (s : Site) : Option (Site × Task) :=
  match enter q s.core with
  | none => none
  | some (core, task) => some ({ s with core := core }, task)

/-- A process starts; the choice decides whether the broker is up. -/
def boot (c : Choice) (s : Site) (n : Nat) : Site :=
  ((KafkaProducerService.onModuleInit env).run (fun s op => execSide n c s op) (s.set n .fresh)).2

/-- The hooks of a process that is told to stop; its workers are closed later. -/
def shutdown (c : Choice) (s : Site) (n : Nat) : Site :=
  ((KafkaProducerService.onModuleDestroy env).run (fun s op => execSide n c s op) s).2

inductive SiteEvent where
  | core (e : Event)
  | shutdown (n : Nat) (c : Choice)

def outsideSite : SiteEvent → Site → Option Site
  | .core e, s => match outside e s.core with
    | none => none
    | some core => some { s with core := core }
  | .shutdown n c, s => some (shutdown env c s n)

def siteMachine (home : Nat → Nat) :
    Machine Site Task (Op ⊕ SideOp)
      (Either Op.Ans SideOp.Ans) Err Reply Request Choice SiteEvent where
  exec := execSite env home
  enter := enterSite
  code := code env
  finish task out s :=
    ({ s with core := (finish env task out s.core).1 }, (finish env task out s.core).2)
  drop pid task s := { s with core := drop pid task s.core }
  outside := outsideSite env

end Service

abbrev SiteWorld := World Site Task (Op ⊕ SideOp) (Either Op.Ans SideOp.Ans) Err Reply

abbrev SiteAct := Act Request Choice SiteEvent

abbrev SiteThread := Thread Task (Op ⊕ SideOp) (Either Op.Ans SideOp.Ans) Err Reply

theorem execSite_left {env : Env} {home : Nat → Nat} {pid : Nat} {op : Op} {c : Choice}
    {x x' : Site} {a : Except Err op.Ans} (h : execSite env home pid (.inl op) c x = some (a, x')) :
    ∃ core, exec env pid op c x.core = some (a, core) ∧ x' = { x with core := core } := by
  simp only [execSite] at h
  split at h
  · cases h
  · rename_i b core ran
    cases h
    exact ⟨core, ran, rfl⟩

theorem enterSite_some {q : Request} {x x' : Site} {task : Task}
    (h : enterSite q x = some (x', task)) :
    ∃ core, enter q x.core = some (core, task) ∧ x' = { x with core := core } := by
  simp only [enterSite] at h
  split at h
  · cases h
  · rename_i core task' ran
    cases h
    exact ⟨core, ran, rfl⟩

theorem outsideSite_core (env : Env) {e : Event} {x x' : Site}
    (h : outsideSite env (.core e) x = some x') :
    ∃ core, outside e x.core = some core ∧ x' = { x with core := core } := by
  simp only [outsideSite] at h
  split at h
  · cases h
  · rename_i core ran
    cases h
    exact ⟨core, ran, rfl⟩

/-- A shutdown is one call of the client, if there is one. -/
theorem shutdown_eq (env : Env) (c : Choice) (s : Site) (n : Nat) :
    shutdown env c s n =
      if env.config.kafkaEnabled then s.set n { s.processes n with connected := false } else s := by
  unfold shutdown KafkaProducerService.onModuleDestroy
  split
  · cases fault : c.fault with
    | none =>
      have told : execSide n c s .disconnect =
          (.ok (), s.set n { s.processes n with connected := false }) := by
        simp only [execSide, fault]
      rw [run_tryCatch_ok (run_call told)]
    | some f =>
      have told : execSide n c s .disconnect =
          (.error (.other f.1 f.2), s.set n { s.processes n with connected := false }) := by
        simp only [execSide, fault]
      rw [run_tryCatch_error (run_call told)]
      rfl
  · rfl

/-! ## The modelled system -/

def message (m : String × TransferEvent) : String × String := (m.1, stringify (eventJson m.2))

/-- What the site is in the modelled system: its events are in the topic. -/
structure Shows (x : Site) (s : State) : Prop where
  core : x.core = { s with kafka := [] }
  topic : x.topic = s.kafka.map message

section Frame
variable {env : Env} {home : Nat → Nat} {pid : Nat} {c : Choice}

/-- Calls other than those to Kafka. -/
def Plain : Op → Prop
  | .kafkaSend _ _ => False
  | _ => True

theorem perform_kafka {op : Op} (plain : Plain op) (s : State) (l : List (String × TransferEvent)) :
    perform env pid c { s with kafka := l } op =
      (perform env pid c s op).map fun r => (r.1, { r.2 with kafka := l }) := by
  cases op with
  | db op =>
    simp only [perform]
    cases s.db.exec s.host.now pid op <;> rfl
  | kafkaSend key event => exact plain.elim
  | store op =>
    have read (b : Body) : b.read env { s with kafka := l } = b.read env s := rfl
    cases op <;> simp only [perform, execStore, read, Option.map_some] <;> (try split) <;>
      (try split) <;> rfl
  | volume op =>
    have found (path : String) : lookupFile { s with kafka := l } path = lookupFile s path := rfl
    cases op <;> simp only [perform, execVolume, found, Option.map_some]
  | _ => rfl

theorem exec_kafka {op : Op} (plain : Plain op) (s : State) (l : List (String × TransferEvent)) :
    exec env pid op c { s with kafka := l } = (exec env pid op c s).map
      fun r => (r.1, { r.2 with kafka := l }) := by
  unfold exec
  split
  · exact perform_kafka plain s l
  · split
    · rfl
    · exact perform_kafka plain s l

theorem exec_sent {op : Op} {s s' : State} {a : Except Err op.Ans} (plain : Plain op)
    (step : exec env pid op c s = some (a, s')) : s'.kafka = s.kafka := by
  cases exec_change step with
  | kafka key event => exact plain.elim
  | _ => rfl

theorem exec_shows {op : Op} (plain : Plain op) {x x' : Site} {s : State} {a : Except Err op.Ans}
    (h : Shows x s) (answered : execSite env home pid (.inl op) c x = some (a, x')) :
    ∃ s', exec env pid op c s = some (a, s') ∧ Shows x' s' := by
  obtain ⟨core, ran, rfl⟩ := execSite_left answered
  rw [h.core, exec_kafka plain] at ran
  obtain ⟨⟨b, s'⟩, step, eq⟩ := Option.map_eq_some_iff.mp ran
  cases eq
  refine ⟨s', step, rfl, ?_⟩
  rw [exec_sent plain step]
  exact h.topic

theorem enter_kafka (q : Request) (s : State) (l : List (String × TransferEvent)) :
    enter q { s with kafka := l } = (enter q s).map fun r => ({ r.1 with kafka := l }, r.2) := by
  cases q with
  | takeJob jobId =>
    have same : findJob jobId { s with kafka := l } = findJob jobId s := rfl
    simp only [enter, takeJob, same]
    split
    · rfl
    · split <;> rfl
  | _ => rfl

theorem finish_kafka (env : Env) (task : Task) (out : Except Err Reply) (s : State)
    (l : List (String × TransferEvent)) :
    finish env task out { s with kafka := l } =
      ({ (finish env task out s).1 with kafka := l }, (finish env task out s).2) := by
  cases task with
  | process jobId data =>
    cases out with
    | ok r => rfl
    | error e =>
      have same : findJob jobId { s with kafka := l } = findJob jobId s := rfl
      simp only [finish, same]
      split <;> rfl
  | _ => rfl

theorem outside_kafka (e : Event) (s : State) (l : List (String × TransferEvent)) :
    outside e { s with kafka := l } = (outside e s).map fun r => { r with kafka := l } := by
  cases e with
  | stalled jobId =>
    have same : findJob jobId { s with kafka := l } = findJob jobId s := rfl
    simp only [outside, same]
    split
    · rfl
    · split <;> rfl
  | _ => rfl

end Frame

section Programs
variable {env : Env} {home : Nat → Nat} {pid : Nat}

/-- The two machines agree on these calls. -/
theorem agree (op : Op) (plain : Plain op) (c : Choice) (x : Site) (s : State)
    (a : Except Err op.Ans) (x' : Site) (h : Shows x s)
    (answered : execSite env home pid (.inl op) c x = some (a, x')) :
    ∃ c s', exec env pid op c s = some (a, s') ∧ Shows x' s' := ⟨c, exec_shows plain h answered⟩

theorem plain_tracks {α : Type} {p : Async α}
    (calls : Within Plain (fun _ => True) (fun _ => True) p) :
    Tracks (exec env pid) (execSite env home pid) Shows (left p) p := tracks_left agree calls

theorem one_tracks {op : Op} (plain : Plain op) :
    Tracks (exec env pid) (execSite env home pid) Shows (left (Prog.call op)) (Prog.call op) :=
  plain_tracks (within_call plain fun _ _ => trivial)

theorem set_shows {x : Site} {s : State} (h : Shows x s) (n : Nat) (p : Process) :
    Shows (x.set n p) s :=
  ⟨h.core, h.topic⟩

theorem metric_tracks {α : Type} (m : Metric) {f : Unit → SideAsync α} {p : Async α}
    (rest : Tracks (exec env pid) (execSite env home pid) Shows (f ()) p) :
    Tracks (exec env pid) (execSite env home pid) Shows ((metric m).bind f) p := by
  refine tracks_silent fun c x s a x' h answered => ?_
  cases answered
  exact ⟨set_shows h _ _, rest⟩

/-- What is asked to fail fails with the same error. -/
theorem rejected_send (key : String) (event : TransferEvent) (name message : String) (s : State) :
    exec env pid (.kafkaSend key event) (.rejected name message) s =
      some (.error (.other name message), s) := rfl

theorem send_tracks (key : String) (event : TransferEvent) :
    Tracks (exec env pid) (execSite env home pid) Shows
      (side (.send key (stringify (eventJson event))))
      (Prog.call (Op.kafkaSend key event)) := by
  refine tracks_call fun c x s a x' h answered => ?_
  have answered := Option.some.inj answered
  simp only [execSide] at answered
  split at answered
  · rename_i name text asked
    cases answered
    exact ⟨_, _, s, rejected_send key event name text s, h, rfl⟩
  · split at answered
    · cases answered
      refine ⟨.ok, .ok (), { s with kafka := s.kafka ++ [(key, event)] }, rfl, ⟨h.core, ?_⟩, rfl⟩
      simp only [h.topic, List.map_append]
      rfl
    · cases answered
      exact ⟨_, _, s, rejected_send key event _ _ s, h, rfl⟩

theorem publish_tracks (key : String) (event : TransferEvent) :
    Tracks (exec env pid) (execSite env home pid) Shows (KafkaProducerService.publish env key event)
      (kafkaPublish env key event) := by
  unfold KafkaProducerService.publish kafkaPublish
  split
  · refine tracks_tryCatch ?_ fun _ => tracks_done _
    refine tracks_silent fun c x s a x' h answered => ?_
    cases answered
    refine ⟨h, ?_⟩
    show Tracks _ _ _ (if (x.processes (home pid)).ready then _ else _) _
    split
    · exact send_tracks key event
    · intro c x s a x' h answered
      have answered := Option.some.inj answered
      simp only [execSide] at answered
      split at answered
      · rename_i name text asked
        cases answered
        exact .inr ⟨_, _, rfl, _, _, s, rejected_send key event name text s, h, rfl⟩
      · cases answered
        refine .inl ⟨set_shows h _ _, tracks_silent fun c x s a x' h answered => ?_⟩
        cases answered
        exact ⟨set_shows h _ _, send_tracks key event⟩
  · exact tracks_done _

theorem publishTransferEvent_tracks (t : FileTransfer) (type : EventType) (data : EventData) :
    Tracks (exec env pid) (execSite env home pid) Shows (publishTransferEvent env t type data)
      (Worker.publishTransferEvent env t type data) := by
  refine tracks_bind (publish_tracks _ _) fun _ => tracks_bind (one_tracks trivial)
    fun subscriptions => ?_
  exact plain_tracks (within_forEach fun _ _ => within_call trivial fun _ _ => trivial)

theorem prepareCall_plain (op : Op) (h : PrepareCall op) : Plain op := by
  cases op with
  | kafkaSend key event => exact h
  | _ => trivial

theorem runTransfer_tracks (data : TransferJobData) :
    Tracks (exec env pid) (execSite env home pid) Shows (runTransfer env data)
      (Worker.runTransfer env data) := by
  refine tracks_bind (one_tracks trivial) fun found => ?_
  cases found with
  | none => exact tracks_done _
  | some transfer =>
  dsimp only
  split
  · exact tracks_done _
  refine metric_tracks _ (metric_tracks _ (tracks_bind (one_tracks trivial) fun _ => ?_))
  refine tracks_finally (tracks_tryCatch ?_ fun e => ?_) fun r => ?_
  · refine tracks_bind (plain_tracks ((prepare_within _).mono prepareCall_plain fun _ _ => trivial))
      fun u => ?_
    refine tracks_bind (one_tracks trivial) fun _ => metric_tracks _ ?_
    exact tracks_bind (one_tracks trivial) fun _ => publishTransferEvent_tracks _ _ _
  · cases e with
    | nonRetryable message =>
      refine tracks_bind (one_tracks trivial) fun _ => metric_tracks _ ?_
      exact tracks_bind (publishTransferEvent_tracks _ _ _) fun _ => one_tracks trivial
    | _ => exact tracks_done _
  · refine tracks_silent fun c x s a x' h answered => ?_
    cases answered
    exact ⟨set_shows h _ _, metric_tracks _ (tracks_done r)⟩

theorem onFailed_tracks (job : Job) (err : Err) :
    Tracks (exec env pid) (execSite env home pid) Shows (onFailed env job err)
      (Worker.onFailed env job err) := by
  unfold onFailed Worker.onFailed
  split
  · exact tracks_done _
  refine tracks_bind (one_tracks trivial) fun _ => metric_tracks _ ?_
  refine tracks_bind (one_tracks trivial) fun found => tracks_bind ?_ fun _ => one_tracks trivial
  split
  · exact tracks_done _
  · exact publishTransferEvent_tracks _ _ _

theorem code_tracks (task : Task) :
    Tracks (exec env pid) (execSite env home pid) Shows (code env task)
      (Orchestrator.code env task) := by
  have other (h : ∀ op, CallOf task op → Plain op) :
      Tracks (exec env pid) (execSite env home pid) Shows (left (Orchestrator.code env task))
        (Orchestrator.code env task) :=
    plain_tracks ((code_within task).mono h fun _ _ => trivial)
  cases task with
  | process jobId data => exact tracks_bind (runTransfer_tracks data) fun _ => tracks_done _
  | onFailed job err => exact tracks_bind (onFailed_tracks job err) fun _ => tracks_done _
  | _ =>
    refine other fun op call => ?_
    cases op with
    | kafkaSend key event => exact call.elim
    | _ => trivial

end Programs

/-- Whatever process its threads run in, the site is the modelled system. -/
theorem site_refines (env : Env) (home : Nat → Nat) :
    Refines (machine env) (siteMachine env home) Shows where
  code pid task := code_tracks task
  enter q x s x' task h entered := by
    obtain ⟨core, ran, rfl⟩ := enterSite_some entered
    rw [h.core, enter_kafka] at ran
    obtain ⟨⟨s', task'⟩, step, eq⟩ := Option.map_eq_some_iff.mp ran
    cases eq
    refine ⟨s', step, rfl, ?_⟩
    rw [show s'.kafka = s.kafka from ?_]
    · exact h.topic
    · rcases enter_cases step with ⟨rfl, -, -⟩ | ⟨_, _, -, -, -, rfl, -⟩ <;> rfl
  finish task out x s h := by
    have ended := finish_kafka env task out s []
    rw [← h.core] at ended
    have kafka : (finish env task out s).1.kafka = s.kafka := by
      rcases finish_cases env task out s with same | ⟨_, _, _, -, same⟩ | ⟨_, _, -, same⟩ <;>
        (rw [same]; try rfl)
    have topic : x.topic = (finish env task out s).1.kafka.map message := by
      rw [kafka]
      exact h.topic
    exact ⟨congrArg Prod.snd ended, congrArg Prod.fst ended, topic⟩
  drop pid task x s h := by
    refine ⟨?_, h.topic⟩
    show drop pid task x.core = _
    rw [h.core]
    rfl
  outside e x s x' h happened := by
    cases e with
    | core e =>
      obtain ⟨core, ran, rfl⟩ := outsideSite_core env happened
      rw [h.core, outside_kafka] at ran
      obtain ⟨s', step, rfl⟩ := Option.map_eq_some_iff.mp ran
      refine .inr ⟨e, s', step, rfl, ?_⟩
      rw [show s'.kafka = s.kafka from ?_]
      · exact h.topic
      · rcases outside_cases step with ⟨_, _, rfl⟩ | ⟨_, _, -, -, -, rfl⟩ <;> rfl
    | shutdown n c =>
      cases happened
      rw [shutdown_eq]
      split
      · exact .inl (set_shows h _ _)
      · exact .inl h

/-! ## Connections -/

/-- Whether the thread knows that the producer of its process is connected. -/
def learns (known : Bool) : (op : Op ⊕ SideOp) → Except Err (Either Op.Ans SideOp.Ans op) → Bool
  | .inr .ready, .ok ready => known || ready
  | .inr .connect, .ok _ => true
  | _, _ => known

def linking : Monitor (Op ⊕ SideOp) (Either Op.Ans SideOp.Ans) Err Bool where
  may known op := match op with
    | .inr .setReady | .inr (.send _ _) => known = true
    | .inr .disconnect => False
    | _ => True
  next known op a known' := known' = learns known op a

section Linking
variable {env : Env} {home : Nat → Nat} {α : Type}

/-- The program takes the producer to be connected, and sends, only when it is. -/
abbrev Linked (p : SideAsync α) : Prop := ∀ known, Obeys linking (fun _ _ => True) known p

theorem linked_left (p : Async α) : Linked (left p) :=
  fun _ => obeys_left_free (fun _ _ => trivial) (fun _ _ => trivial) p

theorem linked_metric (m : Metric) : Linked (metric m) := fun _ => ⟨trivial, fun _ _ _ => trivial⟩

theorem linked_bind {β : Type} {p : SideAsync α} {f : α → SideAsync β} (first : Linked p)
    (rest : ∀ a, Linked (f a)) :
    Linked (p.bind f) :=
  fun known => (first known).andThen (fun known a _ => rest a known) fun _ _ _ => trivial

theorem linked_tryCatch {p : SideAsync α} {h : Err → SideAsync α} (first : Linked p)
    (rest : ∀ e, Linked (h e)) :
    Linked (p.tryCatch h) :=
  fun known => (first known).orElse (fun _ _ _ => trivial) fun known e _ => rest e known

theorem publish_linked (key : String) (event : TransferEvent) :
    Linked (KafkaProducerService.publish env key event) := by
  intro known
  unfold KafkaProducerService.publish
  split
  · refine Obeys.orElse (q := fun _ _ => True) ?_ (fun _ _ _ => trivial) fun _ _ _ => trivial
    refine obeys_call trivial ?_ fun _ _ _ => trivial
    intro ready known' heard
    split
    · rename_i yes
      refine ⟨?_, fun _ _ _ => trivial⟩
      show known' = true
      rw [heard, yes]
      exact Bool.or_true known
    · refine obeys_call trivial ?_ fun _ _ _ => trivial
      intro _ known₁ connected
      refine obeys_call connected ?_ fun _ _ _ => trivial
      intro _ known₂ set
      refine ⟨?_, fun _ _ _ => trivial⟩
      show known₂ = true
      rw [set]
      exact connected
  · trivial

theorem publishTransferEvent_linked (t : FileTransfer) (type : EventType) (data : EventData) :
    Linked (publishTransferEvent env t type data) :=
  linked_bind (publish_linked _ _) fun _ => linked_bind (linked_left _) fun _ => linked_left _

theorem runTransfer_linked (data : TransferJobData) : Linked (runTransfer env data) := by
  refine linked_bind (linked_left _) fun found => ?_
  split
  · exact fun _ => trivial
  split
  · exact fun _ => trivial
  refine linked_bind (linked_metric _) fun _ => linked_bind (linked_metric _) fun _ =>
    linked_bind (linked_left _) fun _ => fun known => ?_
  refine Obeys.finally (q := fun _ _ => True) (linked_tryCatch ?_ (fun e => ?_) known)
    fun known r _ => ?_
  · refine linked_bind (linked_left _) fun u => linked_bind (linked_left _) fun _ => ?_
    exact linked_bind (linked_metric _) fun _ => linked_bind (linked_left _) fun _ =>
      publishTransferEvent_linked _ _ _
  · unfold reject
    split
    · exact linked_bind (linked_left _) fun _ => linked_bind (linked_metric _) fun _ =>
        linked_bind (publishTransferEvent_linked _ _ _) fun _ => linked_left _
    · exact fun _ => trivial
  · have again : Linked (Prog.done r : SideAsync Unit) := fun _ => trivial
    exact linked_bind (linked_bind (linked_metric _) fun _ => linked_metric _)
      (fun _ => again) known

theorem onFailed_linked (job : Job) (err : Err) : Linked (onFailed env job err) := by
  unfold onFailed
  split
  · exact fun _ => trivial
  refine linked_bind (linked_left _) fun _ => linked_bind (linked_metric _) fun _ =>
    linked_bind (linked_left _) fun found => ?_
  refine linked_bind ?_ fun _ => linked_left _
  split
  · exact fun _ => trivial
  · exact publishTransferEvent_linked _ _ _

theorem code_linked (task : Task) : Linked (code env task) := by
  cases task with
  | process jobId data => exact linked_bind (runTransfer_linked data) fun _ _ => trivial
  | onFailed job err => exact linked_bind (onFailed_linked job err) fun _ _ => trivial
  | _ => exact linked_left _

/-- The producer of this process, if it takes itself to be connected, is. -/
def Site.Sound (n : Nat) (s : Site) : Prop :=
  (s.processes n).ready = true → (s.processes n).connected = true

/-- The connection of this process is not lost from one site to the other. -/
def Site.Keeps (n : Nat) (s s' : Site) : Prop :=
  (s.processes n).connected = true → (s'.processes n).connected = true

@[simp] theorem Site.set_same (s : Site) (n : Nat) (p : Process) : (s.set n p).processes n = p := by
  rw [Site.set]
  exact Function.update_self n p s.processes

theorem Site.set_other (s : Site) {n m : Nat} (p : Process) (other : m ≠ n) :
    (s.set n p).processes m = s.processes m := by
  rw [Site.set]
  exact Function.update_of_ne other p s.processes

/-- The calls of a process leave the others alone. -/
theorem execSide_other (op : SideOp) {n m : Nat} (c : Choice) (s : Site) (other : m ≠ n) :
    (execSide n c s op).2.processes m = s.processes m := by
  cases op with
  | ready => rfl
  | setReady => exact Site.set_other s _ other
  | metric _ => exact Site.set_other s _ other
  | connect =>
    rw [execSide]
    split
    · rfl
    · exact Site.set_other s _ other
  | disconnect =>
    rw [execSide]
    split <;> exact Site.set_other s _ other
  | send key value =>
    rw [execSide]
    split
    · rfl
    · split <;> rfl

theorem shutdown_other (env : Env) (c : Choice) (s : Site) {n m : Nat} (other : m ≠ n) :
    (shutdown env c s n).processes m = s.processes m := by
  rw [shutdown_eq]
  split
  · exact Site.set_other s _ other
  · rfl

theorem execSite_other {pid : Nat} {op : Op ⊕ SideOp} {c : Choice} {x x' : Site}
    {a : Except Err (Either Op.Ans SideOp.Ans op)} {n : Nat} (other : n ≠ home pid)
    (answered : execSite env home pid op c x = some (a, x')) : x'.processes n = x.processes n := by
  cases op with
  | inl op =>
    obtain ⟨core, -, rfl⟩ := execSite_left answered
    rfl
  | inr op =>
    obtain rfl : (execSide (home pid) c x op).2 = x' := congrArg Prod.snd (Option.some.inj answered)
    exact execSide_other op c x other

/-- The producer is ready from the start when the broker is up. -/
theorem boot_process (env : Env) (c : Choice) (s : Site) (n : Nat) :
    (boot env c s n).processes n =
      if env.config.kafkaEnabled = true ∧
        c.fault = none then { Process.fresh with ready := true, connected := true }
      else .fresh := by
  by_cases enabled : env.config.kafkaEnabled = true
  · rw [boot, KafkaProducerService.onModuleInit, if_pos enabled, Prog.bind_eq]
    cases fault : c.fault with
    | none =>
      have connected : execSide n c (s.set n .fresh) .connect =
          (.ok (), (s.set n .fresh).set n { Process.fresh with connected := true }) := by
        simp only [execSide, fault, Site.set_same]
      rw [run_tryCatch_ok ((run_bind_ok (run_call connected)).trans (run_call rfl))]
      rw [if_pos ⟨enabled, rfl⟩, Site.set_same, Site.set_same]
    | some f =>
      have refused : execSide n c (s.set n .fresh) .connect =
          (.error (.other f.1 f.2), s.set n .fresh) := by
        simp only [execSide, fault]
      rw [run_tryCatch_error (run_bind_error (run_call refused)), if_neg fun h => by cases h.2]
      exact Site.set_same s n .fresh
  · rw [boot, KafkaProducerService.onModuleInit, if_neg enabled, if_neg fun h => enabled h.1]
    exact Site.set_same s n .fresh

theorem exec_linking {pid : Nat} {c : Choice} {op : Op ⊕ SideOp} {x x' : Site}
    {a : Except Err (Either Op.Ans SideOp.Ans op)} {known : Bool} (h : x.Sound (home pid))
    (may : linking.may known op) (truth : known = true → (x.processes (home pid)).connected = true)
    (answered : execSite env home pid op c x = some (a, x')) :
    x'.Sound (home pid) ∧ x.Keeps (home pid) x' ∧
      (learns known op a = true → (x'.processes (home pid)).connected = true) := by
  have same : x.Keeps (home pid) x := id
  cases op with
  | inl op =>
    obtain ⟨core, -, rfl⟩ := execSite_left answered
    exact ⟨h, same, truth⟩
  | inr op =>
    have answered := (Option.some.inj answered).symm
    cases op with
    | ready =>
      obtain ⟨rfl, rfl⟩ := Prod.mk.inj answered
      refine ⟨h, same, fun learnt => ?_⟩
      rcases (Bool.or_eq_true known _).mp learnt with told | ready
      · exact truth told
      · exact h ready
    | setReady =>
      obtain ⟨rfl, rfl⟩ := Prod.mk.inj answered
      simp only [Site.Sound, Site.Keeps, Site.set_same]
      exact ⟨fun _ => truth may, id, truth⟩
    | connect =>
      simp only [execSide] at answered
      split at answered
      · obtain ⟨rfl, rfl⟩ := Prod.mk.inj answered
        exact ⟨h, same, truth⟩
      · obtain ⟨rfl, rfl⟩ := Prod.mk.inj answered
        simp only [Site.Sound, Site.Keeps, Site.set_same]
        exact ⟨fun _ => trivial, fun _ => trivial, fun _ => trivial⟩
    | disconnect => exact may.elim
    | send key value =>
      simp only [execSide] at answered
      split at answered
      · obtain ⟨rfl, rfl⟩ := Prod.mk.inj answered
        exact ⟨h, same, truth⟩
      · split at answered <;>
        · obtain ⟨rfl, rfl⟩ := Prod.mk.inj answered
          exact ⟨h, same, truth⟩
    | metric m =>
      obtain ⟨rfl, rfl⟩ := Prod.mk.inj answered
      simp only [Site.Sound, Site.Keeps, Site.set_same]
      exact ⟨h, id, truth⟩

/-- What the thread takes to be known of the producer of its process is so. -/
def Informed (home : Nat → Nat) (n : Nat) (s : Site) (t : SiteThread) : Prop :=
  home t.pid = n → ∃ known, Obeys linking (fun _ _ => True) known t.prog ∧
    (known = true → (s.processes n).connected = true)

theorem Informed.keep {n : Nat} {s s' : Site} {t : SiteThread} (h : Informed home n s t)
    (kept : s.Keeps n s') :
    Informed home n s' t := by
  intro own
  obtain ⟨known, obeys, truth⟩ := h own
  exact ⟨known, obeys, fun told => kept (truth told)⟩

theorem informed_new (n : Nat) (s : Site) (pid : Nat) (task : Task) :
    Informed home n s ⟨pid, task, code env task⟩ :=
  fun _ => ⟨false, code_linked task false, fun told => Bool.noConfusion told⟩

/-- The process is not told to stop. -/
def StaysUp (n : Nat) (_ : SiteWorld) (act : SiteAct) : Prop := ∀ c, act ≠ .outside (.shutdown n c)

theorem sound_of_same {n : Nat} {s s' : Site} (h : s.Sound n)
    (same : s'.processes n = s.processes n) :
    s'.Sound n ∧ s.Keeps n s' := by
  unfold Site.Sound Site.Keeps
  rw [same]
  exact ⟨h, id⟩

theorem informed_threadwise (env : Env) (home : Nat → Nat) (n : Nat) :
    Threadwise (siteMachine env home) (StaysUp n) (Site.Sound n) (Informed home n) where
  request w q s task _ hG hT entered := by
    obtain ⟨core, -, rfl⟩ := enterSite_some entered
    exact ⟨hG, hT, fun pid => informed_new n _ pid task⟩
  resume w pid c l r t op k a s _ hG hT _ found at_call answered := by
    obtain ⟨hmem, hothers⟩ := mem_of_focus found
    obtain rfl : t.pid = pid := (focus_some found).2
    by_cases own : home t.pid = n
    · subst own
      obtain ⟨known, obeys, truth⟩ := hT t hmem rfl
      rw [at_call] at obeys
      obtain ⟨sound, kept, learnt⟩ := exec_linking hG obeys.1 truth answered
      exact ⟨sound, fun t' ht => (hT t' (hothers t' ht)).keep kept,
        fun _ => ⟨learns known op a, obeys.2 a _ rfl, learnt⟩⟩
    · obtain ⟨sound, kept⟩ := sound_of_same hG (execSite_other (fun same => own same.symm) answered)
      exact ⟨sound, fun t' ht => (hT t' (hothers t' ht)).keep kept, fun same => absurd same own⟩
  settle w pid l r t out _ hG hT found _ :=
    ⟨hG, fun t' ht => hT t' ((mem_of_focus found).2 t' ht),
      fun pid task _ => informed_new n _ pid task⟩
  crash w pid l r t _ hG hT _ found := ⟨hG, fun t' ht => hT t' ((mem_of_focus found).2 t' ht)⟩
  outside w e s ok hG hT happened := by
    cases e with
    | core e =>
      obtain ⟨core, -, rfl⟩ := outsideSite_core env happened
      exact ⟨hG, hT⟩
    | shutdown m c =>
      cases happened
      have other : n ≠ m := by
        rintro rfl
        exact ok c rfl
      obtain ⟨sound, kept⟩ := sound_of_same hG (shutdown_other env c w.store other)
      exact ⟨sound, fun t ht => (hT t ht).keep kept⟩

/-- Nothing runs, nothing has been sent, and every process has started. -/
structure Started (env : Env) (w : SiteWorld) : Prop where
  threads : w.threads = []
  kafka : w.store.core.kafka = []
  topic : w.store.topic = []
  processes : ∀ n, ∃ c s, w.store.processes n = (boot env c s n).processes n

theorem Started.sound {w : SiteWorld} (h : Started env w) (n : Nat) : w.store.Sound n := by
  intro ready
  obtain ⟨c, s, same⟩ := h.processes n
  rw [same, boot_process] at ready ⊢
  split at ready
  · rename_i up
    rw [if_pos up]
  · cases ready

theorem Started.shows {w : SiteWorld} (h : Started env w) : Shows w.store w.store.core := by
  constructor
  · rw [← h.kafka]
  · rw [h.topic, h.kafka]
    rfl

/-- The same operation of the same number, at its end when the other one is. -/
def SameThread (t : SiteThread) (t' : SysThread) : Prop :=
  t'.pid = t.pid ∧ t'.task = t.task ∧ ∀ out, t.prog = .done out → t'.prog = .done out

theorem same_of_mirrors {t : SiteThread} {t' : SysThread}
    (h : Mirrors (machine env) (siteMachine env home) Shows t t') : SameThread t t' := by
  obtain ⟨number, task, tracks⟩ := h
  refine ⟨number, task, fun out ended => ?_⟩
  rw [ended] at tracks
  exact tracks

/-- The processes run as the modelled system does, which has neither connections nor
metrics. In a process that is not shutting down, a message that a worker comes to send is
refused by the broker only. -/
theorem runs_as_modelled (env : Env) (home : Nat → Nat) {w₀ w : SiteWorld} (start : Started env w₀)
    (path : Reach (siteMachine env home) anyStep w₀ w) :
    (∃ v : SysWorld, Reach (machine env) anyStep ⟨w₀.store.core, [], w₀.nextPid⟩ v ∧
      Shows w.store v.store ∧
      List.Forall₂ SameThread w.threads v.threads) ∧
    ∀ n, Reach (siteMachine env home) (StaysUp n) w₀ w → ∀ t ∈ w.threads, home t.pid = n →
      ∀ key value k, t.prog = .await (.inr (.send key value)) k → ∀ c : Choice, c.fault = none →
        execSite env home t.pid (.inr (.send key value)) c w.store =
          some (.ok (), { w.store with topic := w.store.topic ++ [(key, value)] }) := by
  constructor
  · have related :
        Related (machine env) (siteMachine env home) Shows w₀ ⟨w₀.store.core, [], w₀.nextPid⟩ := by
      refine ⟨start.shows, ?_, rfl⟩
      rw [start.threads]
      exact .nil
    obtain ⟨v, path', same⟩ := (site_refines env home).simulates related path
    exact ⟨v, path', same.stores, same.threads.imp fun _ _ => same_of_mirrors⟩
  · intro n up t ht own key value k at_send c heard
    have quiet : ∀ t ∈ w₀.threads, Informed home n w₀.store t := by simp [start.threads]
    have numbered := GrowingKnowledge.numbered_of_none start.threads
    obtain ⟨known, obeys, truth⟩ :=
      ((informed_threadwise env home n).holds numbered (start.sound n) quiet up).2 t ht own
    rw [at_send] at obeys
    have connected := truth obeys.1
    rw [← own] at connected
    simp only [execSite, execSide, heard, if_pos connected]

def brokerEnv : Env := { sampleEnv with config := { sampleEnv.config with kafkaEnabled := true } }

/-- The broker was not up when the processes started. -/
def sampleSite : SiteWorld := ⟨⟨sampleState, fun _ => .fresh, []⟩, [], 0⟩

theorem sample_started : Started brokerEnv sampleSite := by
  refine ⟨rfl, rfl, rfl, fun n =>
    ⟨.rejected "KafkaJSConnectionError" "connect ECONNREFUSED", sampleSite.store, ?_⟩⟩
  rw [boot_process]
  rfl

/-- A schedule of the modelled system in the processes. -/
def onSite : SysAct → SiteAct
  | .request q => .request q
  | .resume pid c => .resume pid c
  | .settle pid => .settle pid
  | .crash pid => .crash pid
  | .outside e => .outside (.core e)

/-- Worker 2 has the sample file stored, connects, and comes to send the event. -/
def sampleSending : List SiteAct :=
  (sampleAccepted ++ sampleRelay 1 ++ .request (.takeJob 0) :: answer 2 14).map onSite

/-- No process is told to stop. -/
def running : SiteAct → Bool
  | .outside (.shutdown _ _) => false
  | _ => true

theorem running_staysUp {n : Nat} (w : SiteWorld) (act : SiteAct) (h : running act = true) :
    StaysUp n w act := by
  rintro c rfl
  cases h

def sending (t : SiteThread) : Bool :=
  match t.prog with
  | .await (.inr (.send _ _)) _ => true
  | _ => false

theorem sending_at {t : SiteThread} (h : sending t = true) :
    ∃ key value k, t.prog = .await (.inr (.send key value)) k := by
  unfold sending at h
  split at h
  · rename_i key value k at_send
    exact ⟨key, value, k, at_send⟩
  · cases h

theorem runs_as_modelled_sample :
    ∃ (w : SiteWorld) (t : SiteThread) (x : Site), Started brokerEnv sampleSite ∧
    Reach (siteMachine brokerEnv id) anyStep sampleSite w ∧
    Reach (siteMachine brokerEnv id) (StaysUp t.pid) sampleSite w ∧ t ∈ w.threads ∧
    (∃ v, Reach (machine brokerEnv) anyStep sampleWorld v ∧ Shows w.store v.store) ∧
    ∃ key value, execSite brokerEnv id t.pid (.inr (.send key value)) .ok w.store =
      some (.ok (), x) ∧
      x.topic = [(key, value)] := by
  have run :
      ((siteMachine brokerEnv id).stepsIf (fun _ act => running act) sampleSite sampleSending).map
      (fun w => (w.threads.any sending, w.store.topic)) = some (true, []) := by decide +kernel
  obtain ⟨w, hw, facts⟩ := Option.map_eq_some_iff.mp run
  obtain ⟨some_sends, unsent⟩ := Prod.mk.inj facts
  obtain ⟨t, ht, sends⟩ := List.any_eq_true.mp some_sends
  obtain ⟨key, value, k, at_send⟩ := sending_at sends
  have up : Reach (siteMachine brokerEnv id) (StaysUp t.pid) sampleSite w :=
    reach_of_stepsIf running_staysUp .start _ hw
  have path := up.weaken fun _ _ _ => trivial
  obtain ⟨⟨v, path', shows', -⟩, sent⟩ := runs_as_modelled brokerEnv id sample_started path
  refine ⟨w, t, _, sample_started, path, up, ht, ⟨v, path', shows'⟩, key, value,
    sent t.pid up t ht rfl key value k at_send .ok rfl, ?_⟩
  rw [unsent]
  rfl

end Linking

end Instruments
