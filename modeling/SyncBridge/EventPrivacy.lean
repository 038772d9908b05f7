import SyncBridge.Announcements
import SyncBridge.GrowingKnowledge
import SyncBridge.Outbound

/-!
# Who hears of a transfer

Events of a transfer are told to the subscribers of its tenant. Between the webhook of
an upload and the request that a subscriber receives lie a row, a job, an attempt, the
subscriptions as they were read then, a delivery job and up to five tries, while users
of all tenants register and remove subscriptions. Every request on the wire can still
be traced back: to the upload of a user who is mapped to the tenant, and to a
registration that a manager of the same tenant made for its address and event.

A subscription is removed by its identifier alone, after a lookup in the tenant of the
caller. The lookup stays valid, since identifiers are never given twice.
-/

namespace EventPrivacy

open AwaitPrograms CombinedCalls ThreadPools GrowingKnowledge Entities Database TableInvariants
open Calls Ingestion Worker Orchestrator Footprints Announcements Outbound

/-- What no step undoes. -/
inductive Fact where
  | registered (user : AuthUser) (dto : CreateSubscriptionDto)
  | stored (id : Nat) (tenantId username : String)
  | owned (id : Nat) (tenantId : String)
  | queued (jobId : Nat) (job : WebhookDeliveryJob)

/-- A row with these columns was inserted; nobody else owns a subscription of this number;
the queue has this job. -/
def know (s : OutState) : Fact → Prop
  | .registered user dto => (user, dto) ∈ s.registrations
  | .stored id tenantId username =>
    ∃ row ∈ s.core.db.inserted, row.id = id ∧ row.tenantId = tenantId ∧
      row.username = username
  | .owned id tenantId => id < s.core.db.nextId ∧
      ∀ sub ∈ s.core.db.subscriptions, sub.id = id → sub.tenantId = tenantId
  | .queued jobId job => s.core.queues.deliveries[jobId]? = some job

/-- The subscription was registered by a user of its tenant. -/
def Asked (F : Fact → Prop) (sub : EventSubscription) : Prop :=
  ∃ user dto, F (.registered user dto) ∧ user.tenantId = sub.tenantId ∧ dto.url = sub.url ∧
    dto.events = sub.events ∧ ∀ secret, dto.secret = some secret → sub.secret = secret

/-- The job tells a registered user of the tenant about a transfer of the tenant. -/
def Legit (F : Fact → Prop) (job : WebhookDeliveryJob) : Prop :=
  ∃ user dto username, F (.registered user dto) ∧ user.tenantId = job.event.tenantId ∧
    dto.url = job.url ∧
    job.event.type ∈ dto.events ∧ (∀ secret, dto.secret = some secret → job.secret = secret) ∧
    F (.stored job.event.transferId job.event.tenantId username)

/-- The uploader is mapped to the tenant of the row. -/
def Mapped (env : OutEnv) (t : FileTransfer) : Prop :=
  t.tenantId = resolveTenant env.core t.username

/-- A delivery on the wire is the signed request of its job. -/
def Genuine (env : OutEnv) (F : Fact → Prop) (x : Sent) : Prop :=
  ∀ jobId, x.origin = .delivery jobId → ∃ job, F (.queued jobId job) ∧
    x.request = deliveryRequest env job

section Growth
variable {F F' : Fact → Prop}

theorem Asked.grow {sub : EventSubscription} (h : Asked F sub) (more : ∀ k, F k → F' k) :
    Asked F' sub := by
  obtain ⟨user, dto, registered, rest⟩ := h
  exact ⟨user, dto, more _ registered, rest⟩

theorem Legit.grow {job : WebhookDeliveryJob} (h : Legit F job) (more : ∀ k, F k → F' k) :
    Legit F' job := by
  obtain ⟨user, dto, username, registered, h₁, h₂, h₃, h₄, stored⟩ := h
  exact ⟨user, dto, username, more _ registered, h₁, h₂, h₃, h₄, more _ stored⟩

theorem Genuine.grow {env : OutEnv} {x : Sent} (h : Genuine env F x) (more : ∀ k, F k → F' k) :
    Genuine env F' x := by
  intro jobId origin
  obtain ⟨job, queued, request⟩ := h jobId origin
  exact ⟨job, more _ queued, request⟩

end Growth

/-! ## The column of event types -/

theorem eventNamed_eventName (type : EventType) : eventNamed (eventName type) = some type := by
  cases type <;> decide

theorem eventName_solid (type : EventType) :
    ',' ∉ (eventName type).toList ∧ (eventName type).toList ≠ [] := by
  cases type <;> decide

/-- The event types of a subscription survive their column. -/
theorem storedEvents_eq (events : List EventType) : storedEvents events = events :=
  SimpleArrays.stored_eq eventNamed_eventName (fun type => (eventName_solid type).1)
    (fun type => (eventName_solid type).2) events

/-! ## Observers -/

/-- Calls of the orchestrator that the observer has an opinion on. -/
def CoreMay (env : OutEnv) (F : Fact → Prop) (op : Op) : Prop :=
  (∀ input, op = .db (.insertTransfer input) →
    input.tenantId = resolveTenant env.core input.username) ∧
    ∀ job, op = .queue (.addDelivery job) → Legit F job

/-- What the answers to reads of the orchestrator say. -/
def CoreHeard (F : Fact → Prop) : (op : Op) → Except Err op.Ans → Prop
  | .db (.findOne .pool _), .ok row => ∀ t, row = some t → F (.stored t.id t.tenantId t.username)
  | .db (.findSubscriptions tenantId), .ok subs =>
    ∀ sub ∈ subs, sub.tenantId = tenantId ∧ Asked F sub
  | _, _ => True

def NetMay (env : OutEnv) (F : Fact → Prop) (task : OutTask) : NetOp → Prop
  | .saveSubscription tenantId url events secret => ∃ user dto, F (.registered user dto) ∧
      user.tenantId = tenantId ∧ dto.url = url ∧ dto.events = events ∧
      ∀ given, dto.secret = some given → secret = given
  | .deleteSubscription id => ∃ user, task = .removeSubscription user id ∧ mayManage user = true ∧
      F (.owned id user.tenantId)
  | .fetch request (.delivery jobId) =>
    ∃ job, F (.queued jobId job) ∧ request = deliveryRequest env job
  | _ => True

def NetHeard (F : Fact → Prop) : (op : NetOp) → Except Err op.Ans → Prop
  | .findSubscription id tenantId, .ok (some _) => F (.owned id tenantId)
  | _, _ => True

def watch (env : OutEnv) (F : Fact → Prop) (task : OutTask) :
    Monitor (Op ⊕ NetOp) (Either Op.Ans NetOp.Ans) Err Unit where
  may _ op := match op with
    | .inl op => CoreMay env F op
    | .inr op => NetMay env F task op
  next _ op a _ := match op with
    | .inl op => CoreHeard F op a
    | .inr op => NetHeard F op a

/-- The observer as the operations of the orchestrator see it. -/
def coreWatch (env : OutEnv) (F : Fact → Prop) : Monitor Op Op.Ans Err Unit where
  may _ op := CoreMay env F op
  next _ op a _ := CoreHeard F op a

/-- A task is started with what it will rely on. -/
def admits (F : Fact → Prop) : OutTask → Prop
  | .createSubscription user dto => F (.registered user dto)
  | .removeSubscription user _ => mayManage user = true
  | .deliver jobId _ job => F (.queued jobId job)
  | _ => True

/-! ## Operations -/

section Operations
variable {env : OutEnv} {F : Fact → Prop}

def AnyEnd {α : Type} (_ : Unit) (_ : Except Err α) : Prop := True

/-- Neither an insert of a row nor a delivery. -/
def Plain (op : Op) : Prop :=
  (∀ input, op ≠ .db (.insertTransfer input)) ∧ ∀ job, op ≠ .queue (.addDelivery job)

theorem plain_may {op : Op} (h : Plain op) : CoreMay env F op :=
  ⟨fun input same => absurd same (h.1 input), fun job same => absurd same (h.2 job)⟩

theorem plain_obeys {α : Type} {P : Op → Prop} {E : Err → Prop} {p : Async α}
    (h : Within P AnyErr E p) (plain : ∀ op, P op → Plain op) :
    Obeys (coreWatch env F) AnyEnd () p := by
  refine (h.obeys (I := fun _ => True) ?_ ?_ trivial).mono p fun _ _ _ => trivial
  · exact fun _ op _ hop => plain_may (plain op hop)
  · exact fun _ _ _ _ _ _ _ => ⟨trivial, fun _ _ => trivial⟩

/-- A call that is neither an insert nor a delivery is followed by the rest. -/
theorem obeys_plain {op : Op} (plain : Plain op) {α : Type} {f : op.Ans → Async α}
    (rest : ∀ a, CoreHeard F op (.ok a) → Obeys (coreWatch env F) AnyEnd () (f a)) :
    Obeys (coreWatch env F) AnyEnd () ((Prog.call op).bind f) :=
  obeys_call (plain_may plain) (fun a _ heard => rest a heard) fun _ _ _ => trivial

theorem plain_db {op : DbOp} (h : ∀ input, op ≠ .insertTransfer input) : Plain (.db op) :=
  ⟨fun input same => h input (Op.db.inj same), fun _ same => by cases same⟩

theorem deadLetter_plain (data : DeadLetterJobData) : Plain (.queue (.addDeadLetter data)) :=
  ⟨fun _ same => (by cases same), fun _ same => by cases same⟩

theorem prepareCall_plain (op : Op) (h : PrepareCall op) : Plain op := by
  constructor <;> (intro x same; subst same; exact h)

theorem otherCall_plain {task : Task} (worker : ∀ jobId data, task ≠ .process jobId data)
    (handler : ∀ job err, task ≠ .onFailed job err)
    (webhook : ∀ p carrier, task ≠ .accept p carrier) (op : Op) (h : CallOf task op) :
    Plain op := by
  constructor
  · intro input same
    subst same
    cases task with
    | accept p carrier => exact webhook p carrier rfl
    | _ => exact h
  · intro job same
    subst same
    cases task with
    | process jobId data => exact worker jobId data rfl
    | onFailed job err => exact handler job err rfl
    | _ => exact h

theorem accept_obeys (p : SftpgoWebhookDto) (carrier : List (String × String)) :
    Obeys (coreWatch env F) AnyEnd () (accept env.core p carrier) := by
  unfold accept
  split
  · trivial
  split
  · trivial
  split
  · trivial
  rename_i sourcePath _
  refine Obeys.andThen (q := AnyEnd) ?_ ?_ fun _ _ _ => trivial
  · refine Obeys.orElse (q := AnyEnd) ?_ (fun _ _ _ => trivial) ?_
    · refine Obeys.andThen (q := AnyEnd) ?_ (fun _ _ _ => trivial) fun _ _ _ => trivial
      refine obeys_plain (plain_db fun _ same => by cases same) fun _ _ => ?_
      refine Obeys.orElse (q := AnyEnd) ?_ (fun _ _ _ => trivial) ?_
      · refine Obeys.andThen (q := AnyEnd) ?_ ?_ fun _ _ _ => trivial
        · refine obeys_call ⟨?_, fun _ same => by cases same⟩ ?_ fun _ _ _ => trivial
          · intro input same
            cases same
            rfl
          · intro saved _ _
            exact obeys_plain (plain_db fun _ same => by cases same) fun _ _ => trivial
        · exact fun _ _ _ => obeys_plain (plain_db fun _ same => by cases same) fun _ _ => trivial
      · exact fun _ _ _ => obeys_plain (plain_db fun _ same => by cases same) fun _ _ => trivial
    · intro _ e _
      split <;> trivial
  · intro _ record _
    split <;> trivial

/-- A stored transfer is told to the subscriptions found in its tenant. -/
theorem publish_obeys {t : FileTransfer} (stored : F (.stored t.id t.tenantId t.username))
    (type : EventType) (data : EventData) :
    Obeys (coreWatch env F) AnyEnd () (publishTransferEvent env.core t type data) := by
  refine Obeys.andThen (q := AnyEnd) ?_ ?_ fun _ _ _ => trivial
  · unfold kafkaPublish
    split
    · refine Obeys.orElse (q := AnyEnd) ?_ (fun _ _ _ => trivial) fun _ _ _ => trivial
      exact ⟨plain_may ⟨fun _ same => (by cases same), fun _ same => by cases same⟩,
        fun _ _ _ => trivial⟩
    · trivial
  · intro _ _ _
    refine obeys_plain (plain_db fun _ same => by cases same) fun subs heard => ?_
    refine obeys_forEach _ (fun rest _ => ∀ sub ∈ rest, sub ∈ subs ∧ type ∈ sub.events) _ ?_ ?_ ?_
    · intro sub hsub
      obtain ⟨found, wanted⟩ := List.mem_filter.mp hsub
      exact ⟨found, by simpa using wanted⟩
    · exact fun _ _ => trivial
    · intro sub rest _ ahead
      obtain ⟨found, wanted⟩ := ahead sub List.mem_cons_self
      refine ⟨⟨fun _ same => (by cases same), ?_⟩, ?_⟩
      · intro job same
        cases same
        obtain ⟨tenant, user, dto, registered, same, url, events, secret⟩ := heard sub found
        exact ⟨user, dto, t.username, registered, same.trans tenant, url, events ▸ wanted,
          secret, stored⟩
      · intro a _ _
        cases a with
        | ok _ => exact fun x hx => ahead x (List.mem_cons_of_mem _ hx)
        | error e => trivial

theorem runTransfer_obeys (data : TransferJobData) :
    Obeys (coreWatch env F) AnyEnd () (runTransfer env.core data) := by
  refine obeys_plain (plain_db fun _ same => by cases same) fun found heard => ?_
  split
  · trivial
  rename_i t
  have stored : F (.stored t.id t.tenantId t.username) := heard t rfl
  split
  · trivial
  refine obeys_plain (plain_db fun _ same => by cases same) fun _ _ => ?_
  refine Obeys.orElse (q := AnyEnd) ?_ (fun _ _ _ => trivial) ?_
  · refine (plain_obeys (prepare_within t) prepareCall_plain).andThen ?_ fun _ _ _ => trivial
    intro _ uploaded _
    refine obeys_plain (plain_db fun _ same => by cases same) fun _ _ => ?_
    exact obeys_plain (plain_db fun _ same => by cases same) fun _ _ => publish_obeys stored _ _
  · intro _ e _
    unfold reject
    split
    · refine obeys_plain (plain_db fun _ same => by cases same) fun _ _ => ?_
      refine (publish_obeys stored _ _).andThen ?_ fun _ _ _ => trivial
      exact fun _ _ _ => ⟨plain_may (deadLetter_plain _), fun _ _ _ => trivial⟩
    · trivial

theorem onFailed_obeys (job : Job) (err : Err) :
    Obeys (coreWatch env F) AnyEnd () (onFailed env.core job err) := by
  unfold onFailed
  split
  · trivial
  refine obeys_plain (plain_db fun _ same => by cases same) fun _ _ => ?_
  refine obeys_plain (plain_db fun _ same => by cases same) fun found heard => ?_
  refine Obeys.andThen (q := AnyEnd) ?_ ?_ fun _ _ _ => trivial
  · split
    · trivial
    · rename_i t
      exact publish_obeys (heard t rfl) _ _
  · exact fun _ _ _ => ⟨plain_may (deadLetter_plain _), fun _ _ _ => trivial⟩

/-- Every operation of the orchestrator tells the right subscribers. -/
theorem code_obeys (task : Task) : Obeys (coreWatch env F) AnyEnd () (code env.core task) := by
  have ends {α : Type} {p : Async α} (h : Obeys (coreWatch env F) AnyEnd () p) (f : α → Reply) :
      Obeys (coreWatch env F) AnyEnd () (p.bind fun a => .done (.ok (f a))) :=
    h.andThen (fun _ _ _ => trivial) fun _ _ _ => trivial
  cases task with
  | accept p carrier => exact ends (accept_obeys p carrier) .outcome
  | process jobId data => exact ends (runTransfer_obeys data) fun _ => .finished
  | onFailed job err => exact ends (onFailed_obeys job err) fun _ => .finished
  | _ =>
    refine plain_obeys (code_within _) (otherCall_plain ?_ ?_ ?_)
    · exact fun _ _ same => by cases same
    · exact fun _ _ same => by cases same
    · exact fun _ _ same => by cases same

theorem create_obeys {user : AuthUser} {dto : CreateSubscriptionDto}
    (registered : F (.registered user dto)) :
    Obeys (watch env F (.createSubscription user dto)) AnyEnd ()
      (SubscriptionsService.create user dto) := by
  have save (secret : String) (given : ∀ x, dto.secret = some x → secret = x) :
      Obeys (watch env F (.createSubscription user dto)) AnyEnd ()
        (net (.saveSubscription user.tenantId dto.url dto.events secret)) :=
    ⟨⟨user, dto, registered, rfl, rfl, rfl, given⟩, fun _ _ _ => trivial⟩
  unfold SubscriptionsService.create
  cases own : dto.secret with
  | some secret =>
    apply save
    intro x same
    exact Option.some.inj (own.symm.trans same)
  | none =>
    refine obeys_call trivial ?_ fun _ _ _ => trivial
    intro secret _ _
    apply save
    intro x same
    cases own.symm.trans same

theorem remove_obeys {user : AuthUser} {id : Nat} (manager : mayManage user = true) :
    Obeys (watch env F (.removeSubscription user id)) AnyEnd ()
      (SubscriptionsService.remove user id) := by
  refine obeys_call trivial ?_ fun _ _ _ => trivial
  intro sub _ heard
  cases sub with
  | none => trivial
  | some sub => exact ⟨⟨user, rfl, manager, heard⟩, fun _ _ _ => trivial⟩

theorem deliver_obeys {jobId lock : Nat} {job : WebhookDeliveryJob}
    (queued : F (.queued jobId job)) :
    Obeys (watch env F (.deliver jobId lock job)) AnyEnd () (deliver env jobId job) := by
  refine obeys_call ⟨job, queued, rfl⟩ ?_ fun _ _ _ => trivial
  intro res _ _
  split <;> trivial

theorem notify_obeys (task : OutTask) (jobId : Nat) (alert : FailureAlert) :
    Obeys (watch env F task) AnyEnd () (notifyFailure env jobId alert) := by
  unfold notifyFailure
  split
  · trivial
  · refine Obeys.orElse (q := AnyEnd) ?_ (fun _ _ _ => trivial) fun _ _ _ => trivial
    exact ⟨trivial, fun a _ _ => by cases a <;> trivial⟩

theorem codeOut_obeys (task : OutTask) (admitted : admits F task) :
    Obeys (watch env F task) AnyEnd () (codeOut env task) := by
  have ends {α : Type} {p : OutAsync α} (h : Obeys (watch env F task) AnyEnd () p) :
      Obeys (watch env F task) AnyEnd () (unwatched p) :=
    h.andThen (fun _ _ _ => trivial) fun _ _ _ => trivial
  cases task with
  | core task => exact (obeys_left _).mpr (code_obeys task)
  | createSubscription user dto => exact ends (create_obeys admitted)
  | listSubscriptions user => exact ends ⟨trivial, fun _ _ _ => trivial⟩
  | removeSubscription user id => exact ends (remove_obeys admitted)
  | deliver jobId lock job => exact ends (deliver_obeys admitted)
  | deadLetter jobId lock data =>
    apply ends
    refine Obeys.andThen (q := AnyEnd) ?_ (fun _ _ _ => notify_obeys _ _ _) fun _ _ _ => trivial
    exact ⟨plain_may (plain_db fun _ same => by cases same), fun a _ _ => by cases a <;> trivial⟩

end Operations

/-! ## Runs -/

structure Private (env : OutEnv) (s : OutState) : Prop where
  rows : ∀ t ∈ allRows s.core.db, Mapped env t
  history : ∀ t ∈ s.core.db.inserted, Mapped env t
  committed : ∀ t ∈ s.core.db.transfers, know s (.stored t.id t.tenantId t.username)
  managers : ∀ r ∈ s.registrations, mayManage r.1 = true
  distinct : (s.core.db.subscriptions.map (·.id)).Nodup
  below : ∀ sub ∈ s.core.db.subscriptions, sub.id < s.core.db.nextId
  asked : ∀ sub ∈ s.core.db.subscriptions, Asked (know s) sub
  deliveries : ∀ job ∈ s.core.queues.deliveries, Legit (know s) job
  sent : ∀ x ∈ s.sent, Genuine env (know s) x

def ident (t : FileTransfer) : Nat × String × String := (t.id, t.tenantId, t.username)

theorem kept_ident : Kept ident := by
  intro now t p
  cases p <;> rfl

theorem mapped_patch {env : OutEnv} {t : FileTransfer} (now : Nat) (p : Patch) (h : Mapped env t) :
    Mapped env (p.apply now t) := by
  cases p <;> exact h

/-- Identifiers are drawn upwards, and only a commit adds to the history of rows. -/
theorem effect_history {now pid : Nat} {db db' : Db} {op : DbOp} (e : Effect now pid db op db') :
    db.nextId ≤ db'.nextId ∧ (db'.inserted = db.inserted ∨
      ∃ x, db.tx pid = some x ∧ db'.inserted = db.inserted ++ x.rows) := by
  cases e with
  | committed x isOpen =>
    obtain ⟨-, inserted, -, next, -⟩ := applyWrites_frame db x
    exact ⟨Nat.le_of_eq next.symm, .inr ⟨x, isOpen, inserted⟩⟩
  | inserted input x isOpen newKey ownKey otherKey => exact ⟨Nat.le_succ _, .inl rfl⟩
  | recorded aggregateId payload x isOpen => exact ⟨Nat.le_succ _, .inl rfl⟩
  | _ => exact ⟨Nat.le_refl _, .inl rfl⟩

/-- Columns that no update writes can be looked up in the history of rows. -/
theorem effect_committed {β : Type} {f : FileTransfer → β} (kept : Kept f) {now pid : Nat}
    {db db' : Db} {op : DbOp} (e : Effect now pid db op db')
    (before : ∀ t ∈ db.transfers, ∃ row ∈ db.inserted, f row = f t) :
    ∀ t ∈ db'.transfers, ∃ row ∈ db'.inserted, f row = f t := by
  intro t ht
  obtain ⟨t₀, same, origin⟩ := effect_rows kept e ht
  rcases origin with old | ⟨x, -, -, new, history⟩
  · obtain ⟨row, hrow, columns⟩ := before t₀ old
    refine ⟨row, ?_, columns.trans same⟩
    rcases (effect_history e).2 with same | ⟨x, -, same⟩
    · rw [same]
      exact hrow
    · rw [same]
      exact List.mem_append_left _ hrow
  · refine ⟨t₀, ?_, same⟩
    rw [history]
    exact List.mem_append_right _ new

section Steps
variable {env : OutEnv} {s : OutState} {core : State}

variable (core) in
/-- What the orchestrator does keeps all facts. -/
theorem know_core (logs : Extends s.core core) (next : s.core.db.nextId ≤ core.db.nextId)
    (history : s.core.db.inserted <+: core.db.inserted) (k : Fact) (h : know s k) :
    know { s with core := core } k := by
  cases k with
  | registered user dto => exact h
  | stored id tenantId username =>
    obtain ⟨row, hrow, same⟩ := h
    exact ⟨row, history.subset hrow, same⟩
  | owned id tenantId =>
    refine ⟨Nat.lt_of_lt_of_le h.1 next, ?_⟩
    rw [logs.subscriptions]
    exact h.2
  | queued jobId job =>
    obtain ⟨more, same⟩ := logs.deliveries
    have inside : jobId < s.core.queues.deliveries.length := (List.getElem?_eq_some_iff.mp h).1
    show core.queues.deliveries[jobId]? = some job
    rw [← same, List.getElem?_append_left inside]
    exact h

/-- Steps that leave the tables, the delivery queue and the wire alone. -/
theorem Private.same (h : Private env s) (s' : OutState) (db : s'.core.db = s.core.db)
    (deliveries : s'.core.queues.deliveries = s.core.queues.deliveries) (sent : s'.sent = s.sent)
    (registrations : s'.registrations = s.registrations) :
    Private env s' ∧ ∀ k, know s k → know s' k := by
  have facts : know s' = know s := by
    funext k
    cases k <;> simp only [know, db, deliveries, registrations]
  constructor
  · constructor
    · rw [db]; exact h.rows
    · rw [db]; exact h.history
    · rw [db, facts]; exact h.committed
    · rw [registrations]; exact h.managers
    · rw [db]; exact h.distinct
    · rw [db]; exact h.below
    · rw [db, facts]; exact h.asked
    · rw [deliveries, facts]; exact h.deliveries
    · rw [sent, facts]; exact h.sent
  · rw [facts]
    exact fun _ hk => hk

theorem core_heard {pid : Nat} {op : Op} {c : Choice} {a : Except Err op.Ans} (h : Private env s)
    (ran : exec env.core pid op c s.core = some (a, core)) : CoreHeard (know s) op a := by
  unfold CoreHeard
  split
  · rename_i id row
    intro t found
    rcases exec_db ran with ⟨_, _, rejected, -⟩ | ⟨db', read, -⟩
    · cases rejected
    · cases read
      exact h.committed t (List.mem_of_find?_eq_some found)
  · rename_i tenantId subs
    intro sub hsub
    rcases exec_db ran with ⟨_, _, rejected, -⟩ | ⟨db', read, -⟩
    · cases rejected
    · cases read
      obtain ⟨stored, active⟩ := List.mem_filter.mp hsub
      have tenant : sub.tenantId = tenantId := by
        have both : (sub.tenantId == tenantId) = true ∧ sub.active = true := by simpa using active
        simpa using both.1
      exact ⟨tenant, h.asked sub stored⟩
  · trivial

theorem CoreHeard.grow {F F' : Fact → Prop} {op : Op} {a : Except Err op.Ans} (h : CoreHeard F op a)
    (more : ∀ k, F k → F' k) : CoreHeard F' op a := by
  unfold CoreHeard at h ⊢
  split
  · exact fun t found => more _ (h t found)
  · exact fun sub hsub => ⟨(h sub hsub).1, (h sub hsub).2.grow more⟩
  · trivial

theorem core_step {pid : Nat} {op : Op} {c : Choice} {a : Except Err op.Ans} (h : Private env s)
    (may : CoreMay env (know s) op) (ran : exec env.core pid op c s.core = some (a, core)) :
    Private env { s with core := core } ∧ ∀ k, know s k → know { s with core := core } k := by
  have logs := exec_extends ran
  rcases exec_effect_db ran with same | ⟨dbOp, rfl, effect⟩
  · have grown := know_core core logs (by rw [same]) (by rw [same])
    refine ⟨⟨?_, ?_, ?_, h.managers, ?_, ?_, ?_, ?_, fun x hx => (h.sent x hx).grow grown⟩, grown⟩
    · rw [same]
      exact h.rows
    · rw [same]
      exact h.history
    · rw [same]
      exact fun t ht => grown _ (h.committed t ht)
    · rw [same]
      exact h.distinct
    · rw [same]
      exact h.below
    · rw [same]
      exact fun sub hsub => (h.asked sub hsub).grow grown
    · rcases exec_queues ran with queues | ⟨q, rfl, queues⟩
      · rw [queues]
        exact fun job hjob => (h.deliveries job hjob).grow grown
      · rw [queues]
        cases q with
        | addDelivery job =>
          intro job' hjob
          rcases List.mem_append.mp hjob with old | new
          · exact (h.deliveries job' old).grow grown
          · rw [List.mem_singleton.mp new]
            exact (may.2 job rfl).grow grown
        | _ => exact fun job hjob => (h.deliveries job hjob).grow grown
  · obtain ⟨next, inserted⟩ := effect_history effect
    have prefixed : s.core.db.inserted <+: core.db.inserted := by
      rcases inserted with same | ⟨x, -, same⟩
      · rw [same]
      · rw [same]
        exact List.prefix_append _ _
    have grown := know_core core logs next prefixed
    have queues : core.queues = s.core.queues := by
      rcases exec_queues ran with queues | ⟨q, other, -⟩
      · exact queues
      · cases other
    refine ⟨⟨?_, ?_, ?_, h.managers, ?_, ?_, ?_, ?_, fun x hx => (h.sent x hx).grow grown⟩, grown⟩
    · refine effect_all effect ?_ (fun _ p t _ _ => mapped_patch _ p)
        (fun now t => mapped_patch now _) h.rows
      rintro input id startedAt rfl
      exact may.1 input rfl
    · rcases inserted with same | ⟨x, isOpen, same⟩
      · rw [same]
        exact h.history
      · rw [same]
        intro t ht
        rcases List.mem_append.mp ht with ht | ht
        · exact h.history t ht
        · exact h.rows t (buffered_of_tx isOpen ht)
    · intro t ht
      have before : ∀ t ∈ s.core.db.transfers, ∃ row ∈ s.core.db.inserted, ident row = ident t := by
        intro t ht
        obtain ⟨row, hrow, same⟩ := h.committed t ht
        exact ⟨row, hrow, by simpa [ident] using same⟩
      obtain ⟨row, hrow, same⟩ := effect_committed kept_ident effect before t ht
      exact ⟨row, hrow, by simpa [ident] using same⟩
    · rw [logs.subscriptions]
      exact h.distinct
    · rw [logs.subscriptions]
      exact fun sub hsub => Nat.lt_of_lt_of_le (h.below sub hsub) next
    · rw [logs.subscriptions]
      exact fun sub hsub => (h.asked sub hsub).grow grown
    · rw [queues]
      exact fun job hjob => (h.deliveries job hjob).grow grown

end Steps

section NetSteps
variable {env : OutEnv} {s s' : OutState} {pid : Nat} {c : OutChoice}

/-- A call of the orchestrator is answered by the orchestrator. -/
theorem core_cases {op : Op} {a : Except Err op.Ans}
    (h : execOut env pid (.inl op) c s = some (a, s')) :
    ∃ core, exec env.core pid op c.core s.core = some (a, core) ∧ s' = { s with core := core } := by
  simp only [execOut] at h
  split at h
  · cases h
  · rename_i core inner
    cases h
    exact ⟨core, inner, rfl⟩

/-- A call of these services did what it says, or it was rejected. -/
theorem net_cases {op : NetOp} {a : Except Err op.Ans}
    (h : execOut env pid (.inr op) c s = some (a, s')) :
    execNet c s op = (a, s') ∨ ∃ name message, rejectNet name message s op = (a, s') := by
  cases op with
  | randomSecret => exact .inl (Option.some.inj h)
  | _ =>
    simp only [execOut] at h
    split at h
    · exact .inl (Option.some.inj h)
    · exact .inr ⟨_, _, Option.some.inj h⟩

/-- A new entry on the wire. -/
theorem Private.send (h : Private env s) {x : Sent} (genuine : Genuine env (know s) x) :
    Private env { s with sent := s.sent ++ [x] } := by
  refine ⟨h.rows, h.history, h.committed, h.managers, h.distinct, h.below, h.asked,
    h.deliveries, ?_⟩
  intro y hy
  rcases List.mem_append.mp hy with old | new
  · exact h.sent y old
  · rw [List.mem_singleton.mp new]
    exact genuine

theorem genuine_fetch {F : Fact → Prop} {task : OutTask} {request : HttpRequest} {origin : Origin}
    (may : NetMay env F task (.fetch request origin)) (status : Option Nat) :
    Genuine env F ⟨origin, request, status⟩ := by
  intro jobId same
  cases same
  exact may

theorem save_step (h : Private env s) {tenantId url secret : String} {events : List EventType}
    {task : OutTask} {a : Except Err EventSubscription}
    (may : NetMay env (know s) task (.saveSubscription tenantId url events secret))
    (ran : execNet c s (.saveSubscription tenantId url events secret) = (a, s')) :
    Private env s' ∧ ∀ k, know s k → know s' k := by
  simp only [execNet] at ran
  split at ran
  · cases ran
    have grown : ∀ k, know s k → know { s with core := { s.core with db := { s.core.db with
        subscriptions := s.core.db.subscriptions ++
          [⟨s.core.db.nextId, tenantId, url, storedEvents events, secret, true⟩],
        nextId := s.core.db.nextId + 1 } } } k := by
      intro k hk
      cases k with
      | owned id tenantId =>
        refine ⟨Nat.lt_succ_of_lt hk.1, ?_⟩
        intro sub hsub same
        rcases List.mem_append.mp hsub with old | new
        · exact hk.2 sub old same
        · rw [List.mem_singleton.mp new] at same
          exact absurd same (Nat.ne_of_gt hk.1)
      | _ => exact hk
    refine ⟨⟨h.rows, h.history, fun t ht => grown _ (h.committed t ht), h.managers, ?_, ?_, ?_,
      fun job hjob => (h.deliveries job hjob).grow grown,
      fun x hx => (h.sent x hx).grow grown⟩, grown⟩
    · rw [List.map_append, List.nodup_append]
      refine ⟨h.distinct, by simp, ?_⟩
      intro id old id' new
      obtain ⟨sub, hsub, rfl⟩ := List.mem_map.mp old
      rw [List.map_singleton, List.mem_singleton] at new
      rw [new]
      exact Nat.ne_of_lt (h.below sub hsub)
    · intro sub hsub
      rcases List.mem_append.mp hsub with old | new
      · exact Nat.lt_succ_of_lt (h.below sub old)
      · rw [List.mem_singleton.mp new]
        exact Nat.lt_succ_self _
    · intro sub hsub
      rcases List.mem_append.mp hsub with old | new
      · exact (h.asked sub old).grow grown
      · obtain ⟨user, dto, registered, tenant, hurl, hevents, given⟩ := may
        rw [List.mem_singleton.mp new]
        exact ⟨user, dto, registered, tenant, hurl,
          hevents.trans (storedEvents_eq events).symm, given⟩
  · cases ran
    exact ⟨h, fun _ hk => hk⟩

theorem delete_step (h : Private env s) (id : Nat) :
    Private env (execNet c s (.deleteSubscription id)).2 ∧
      ∀ k, know s k → know (execNet c s (.deleteSubscription id)).2 k := by
  have kept : ∀ sub ∈ s.core.db.subscriptions.filter (·.id ≠ id), sub ∈ s.core.db.subscriptions :=
    fun sub hsub => (List.mem_filter.mp hsub).1
  have grown : ∀ k, know s k → know (execNet c s (.deleteSubscription id)).2 k := by
    intro k hk
    cases k with
    | owned id tenantId => exact ⟨hk.1, fun sub hsub => hk.2 sub (kept sub hsub)⟩
    | _ => exact hk
  refine ⟨⟨h.rows, h.history, fun t ht => grown _ (h.committed t ht), h.managers, ?_,
    fun sub hsub => h.below sub (kept sub hsub),
    fun sub hsub => (h.asked sub (kept sub hsub)).grow grown,
    fun job hjob => (h.deliveries job hjob).grow grown,
    fun x hx => (h.sent x hx).grow grown⟩, grown⟩
  exact h.distinct.sublist (List.filter_sublist.map _)

/-- A subscription found in a tenant is that tenant's for good. -/
theorem found_owned (h : Private env s) {id : Nat} {tenantId : String} {sub : EventSubscription}
    (found : s.core.db.subscriptions.find? (fun x =>
      x.id = id && x.tenantId = tenantId) = some sub) :
    know s (.owned id tenantId) := by
  have stored := List.mem_of_find?_eq_some found
  have both : sub.id = id ∧ sub.tenantId = tenantId := by simpa using List.find?_some found
  refine ⟨both.1 ▸ h.below sub stored, ?_⟩
  intro other hother same
  rw [List.inj_on_of_nodup_map h.distinct hother stored (same.trans both.1.symm)]
  exact both.2

theorem net_step {task : OutTask} {op : NetOp} {a : Except Err op.Ans} (h : Private env s)
    (may : NetMay env (know s) task op) (ran : execOut env pid (.inr op) c s = some (a, s')) :
    Private env s' ∧ (∀ k, know s k → know s' k) ∧ NetHeard (know s') op a := by
  rcases net_cases ran with done | ⟨name, message, rejected⟩
  · cases op with
    | saveSubscription tenantId url events secret =>
      obtain ⟨hs, grown⟩ := save_step h may done
      exact ⟨hs, grown, trivial⟩
    | findSubscription id tenantId =>
      cases done
      refine ⟨h, fun _ hk => hk, ?_⟩
      unfold NetHeard
      split
      · rename_i same answer
        cases same
        exact found_owned h (Except.ok.inj answer)
      · trivial
    | listSubscriptions tenantId =>
      cases done
      exact ⟨h, fun _ hk => hk, trivial⟩
    | deleteSubscription id =>
      cases done
      obtain ⟨hs, grown⟩ := delete_step (c := c) h id
      exact ⟨hs, grown, trivial⟩
    | randomSecret =>
      cases done
      exact ⟨h, fun _ hk => hk, trivial⟩
    | fetch request origin =>
      cases done
      exact ⟨h.send (genuine_fetch may _), fun _ hk => hk, trivial⟩
  · cases op with
    | fetch request origin =>
      cases rejected
      exact ⟨h.send (genuine_fetch may _), fun _ hk => hk, trivial⟩
    | _ =>
      cases rejected
      exact ⟨h, fun _ hk => hk, trivial⟩

end NetSteps

section Machine
variable {env : OutEnv} {s s' : OutState}

theorem Private.rollback (h : Private env s) (pid : Nat) (task : Task) :
    Private env { s with core := drop pid task s.core } ∧
      ∀ k, know s k → know { s with core := drop pid task s.core } k := by
  have same : know { s with core := drop pid task s.core } = know s := by
    funext k
    cases k <;> rfl
  constructor
  · refine ⟨dropTx_all h.rows, h.history, ?_, h.managers, h.distinct, h.below, ?_, ?_, ?_⟩
    · rw [same]; exact h.committed
    · rw [same]; exact h.asked
    · rw [same]; exact h.deliveries
    · rw [same]; exact h.sent
  · rw [same]
    exact fun _ hk => hk

theorem enter_private {q : OutRequest} {task : OutTask} (h : Private env s)
    (entered : enterOut env q s = some (s', task)) :
    Private env s' ∧ (∀ k, know s k → know s' k) ∧ admits (know s') task := by
  cases q with
  | core q =>
    simp only [enterOut] at entered
    split at entered
    · cases entered
    · rename_i core task' ran
      cases entered
      have same : core.db = s.core.db ∧ core.queues.deliveries = s.core.queues.deliveries := by
        rcases enter_cases ran with ⟨rfl, -, -⟩ | ⟨_, _, -, -, -, rfl, -⟩ <;> exact ⟨rfl, rfl⟩
      obtain ⟨hs, grown⟩ := h.same { s with core := core } same.1 same.2 rfl rfl
      exact ⟨hs, grown, trivial⟩
  | createSubscription user dto =>
    simp only [enterOut] at entered
    split at entered
    · rename_i allowed
      cases entered
      have manager : mayManage user = true := (Bool.and_eq_true_iff.mp allowed).1
      have grown : ∀ k, know s k →
          know { s with registrations := s.registrations ++ [(user, dto)] } k := by
        intro k hk
        cases k with
        | registered user dto => exact List.mem_append_left _ hk
        | _ => exact hk
      refine ⟨⟨h.rows, h.history, h.committed, ?_, h.distinct, h.below,
        fun sub hsub => (h.asked sub hsub).grow grown,
        fun job hjob => (h.deliveries job hjob).grow grown,
        fun x hx => (h.sent x hx).grow grown⟩, grown,
          List.mem_append_right _ (List.mem_singleton_self _)⟩
      intro r hr
      rcases List.mem_append.mp hr with old | new
      · exact h.managers r old
      · rw [List.mem_singleton.mp new]
        exact manager
    · cases entered
  | listSubscriptions user =>
    simp only [enterOut] at entered
    split at entered
    · cases entered
      exact ⟨h, fun _ hk => hk, trivial⟩
    · cases entered
  | removeSubscription user id =>
    simp only [enterOut] at entered
    split at entered
    · rename_i manager
      cases entered
      exact ⟨h, fun _ hk => hk, manager⟩
    · cases entered
  | takeDelivery jobId =>
    simp only [enterOut] at entered
    split at entered
    · cases entered
    · rename_i job found
      split at entered
      · cases entered
        obtain ⟨hs, grown⟩ := h.same { s with deliveryRuns := setRun Run.take jobId s.deliveryRuns }
          rfl rfl rfl rfl
        exact ⟨hs, grown, found⟩
      · cases entered
  | takeDeadLetter jobId =>
    simp only [enterOut] at entered
    split at entered
    · cases entered
    · split at entered
      · cases entered
        obtain ⟨hs, grown⟩ := h.same { s with alertRuns := setRun Run.take jobId s.alertRuns }
          rfl rfl rfl rfl
        exact ⟨hs, grown, trivial⟩
      · cases entered

theorem finish_private (h : Private env s) (task : OutTask) (out : Except Err Reply) :
    Private env (finishOut env task out s).1 ∧
    (∀ k, know s k → know (finishOut env task out s).1 k) ∧
      ∀ new ∈ (finishOut env task out s).2, admits (know (finishOut env task out s).1) new := by
  cases task with
  | core task =>
    have same : (finish env.core task out s.core).1.db = s.core.db ∧
        (finish env.core task out s.core).1.queues.deliveries = s.core.queues.deliveries := by
      rcases finish_cases env.core task out s.core with eq | ⟨_, _, _, -, eq⟩ | ⟨_, _, -, eq⟩ <;>
        rw [eq] <;> exact ⟨rfl, rfl⟩
    obtain ⟨hs, grown⟩ := h.same { s with core := (finish env.core task out s.core).1 }
      same.1 same.2 rfl rfl
    refine ⟨hs, grown, ?_⟩
    intro new hnew
    obtain ⟨task, -, rfl⟩ := List.mem_map.mp hnew
    trivial
  | deliver jobId lock job =>
    obtain ⟨hs, grown⟩ := h.same (finishOut env (.deliver jobId lock job) out s).1 rfl rfl rfl rfl
    exact ⟨hs, grown, fun _ new => by cases new⟩
  | deadLetter jobId lock data =>
    obtain ⟨hs, grown⟩ :=
      h.same (finishOut env (.deadLetter jobId lock data) out s).1 rfl rfl rfl rfl
    exact ⟨hs, grown, fun _ new => by cases new⟩
  | _ => exact ⟨h, fun _ hk => hk, fun _ new => by cases new⟩

theorem outside_private {e : OutEvent} (h : Private env s) (happened : outsideOut e s = some s') :
    Private env s' ∧ ∀ k, know s k → know s' k := by
  cases e with
  | core e =>
    simp only [outsideOut] at happened
    split at happened
    · cases happened
    · rename_i core ran
      cases happened
      rcases outside_cases ran with ⟨_, _, rfl⟩ | ⟨_, _, -, -, -, rfl⟩
      · exact h.same _ rfl rfl rfl rfl
      · exact h.same _ rfl rfl rfl rfl
  | _ =>
    simp only [outsideOut] at happened
    split at happened
    · cases happened
      exact h.same _ rfl rfl rfl rfl
    · cases happened

/-- All steps of the system keep the tables private, and the facts behind it. -/
theorem knowing (env : OutEnv) (allowed : OutWorld → OutAct → Prop) :
    Knowing (outMachine env) allowed know (watch env) admits (fun _ _ _ => True) (Private env) where
  code F task admitted := codeOut_obeys task admitted
  more F F' task more admitted := by
    cases task with
    | createSubscription user dto => exact more _ admitted
    | deliver jobId lock job => exact more _ admitted
    | _ => exact admitted
  request w q s task _ h entered := enter_private h entered
  resume w pid c l r t op k a s _ h _ _ may ran := by
    cases op with
    | inl op =>
      obtain ⟨core, inner, rfl⟩ := core_cases ran
      obtain ⟨hs, grown⟩ := core_step h may inner
      exact ⟨hs, grown, fun F known => (core_heard h inner).grow fun k hk => known k (grown k hk)⟩
    | inr op =>
      obtain ⟨hs, grown, heard⟩ := net_step h may ran
      refine ⟨hs, grown, fun F known => ?_⟩
      show NetHeard F op a
      unfold NetHeard at heard ⊢
      split
      · exact known _ heard
      · trivial
  settle task out s h _ := finish_private h task out
  crash pid task s h := by
    cases task with
    | core task => exact h.rollback pid task
    | _ => exact ⟨h, fun _ hk => hk⟩
  outside e s s' h happened := outside_private h happened

theorem fresh_private {w : OutWorld} (fresh : Fresh w) : Private env w.store := by
  have transfers : w.store.core.db.transfers = [] := fresh.core.transfers
  have openTxs : w.store.core.db.openTxs = [] := fresh.core.openTxs
  have inserted : w.store.core.db.inserted = [] := fresh.core.inserted
  constructor
  · simp [allRows, buffered, transfers, openTxs]
  · simp [inserted]
  · simp [transfers]
  · simp [fresh.registrations]
  · simp [fresh.subscriptions]
  · simp [fresh.subscriptions]
  · simp [fresh.subscriptions]
  · simp [fresh.deliveries]
  · simp [fresh.sent]

end Machine

section Removal
variable {env : OutEnv} {w w' : OutWorld} {act : OutAct}

theorem net_subscriptions {s s' : OutState} {pid : Nat} {c : OutChoice} {op : NetOp}
    {a : Except Err op.Ans} (ran : execOut env pid (.inr op) c s = some (a, s')) :
    (∀ sub ∈ s.core.db.subscriptions, sub ∈ s'.core.db.subscriptions) ∨
      ∃ id, op = .deleteSubscription id ∧
        ∀ sub ∈ s.core.db.subscriptions, sub.id ≠ id → sub ∈ s'.core.db.subscriptions := by
  rcases net_cases ran with done | ⟨name, message, rejected⟩
  · cases op with
    | saveSubscription tenantId url events secret =>
      left
      simp only [execNet] at done
      split at done
      · cases done
        exact fun sub hsub => List.mem_append_left _ hsub
      · cases done
        exact fun sub hsub => hsub
    | deleteSubscription id =>
      right
      cases done
      exact ⟨id, rfl, fun sub hsub other => List.mem_filter.mpr ⟨hsub, by simpa using other⟩⟩
    | _ =>
      cases done
      exact .inl fun sub hsub => hsub
  · left
    cases op <;> cases rejected <;> exact fun sub hsub => hsub

theorem enter_subscriptions {s s' : OutState} {q : OutRequest} {task : OutTask}
    (entered : enterOut env q s = some (s', task)) :
    s'.core.db.subscriptions = s.core.db.subscriptions := by
  cases q with
  | core q =>
    simp only [enterOut] at entered
    split at entered
    · cases entered
    · rename_i ran
      cases entered
      rcases enter_cases ran with ⟨rfl, -, -⟩ | ⟨_, _, -, -, -, rfl, -⟩ <;> rfl
  | _ =>
    simp only [enterOut] at entered
    repeat' split at entered
    all_goals cases entered
    all_goals rfl

theorem finish_subscriptions (env : OutEnv) (task : OutTask) (out : Except Err Reply)
    (s : OutState) :
    (finishOut env task out s).1.core.db.subscriptions = s.core.db.subscriptions := by
  cases task with
  | core task => exact (finish_extends env.core task out s.core).subscriptions
  | _ => rfl

theorem outside_subscriptions {s s' : OutState} {e : OutEvent}
    (happened : outsideOut e s = some s') :
    s'.core.db.subscriptions = s.core.db.subscriptions := by
  cases e with
  | core e =>
    simp only [outsideOut] at happened
    split at happened
    · cases happened
    · rename_i ran
      cases happened
      rcases outside_cases ran with ⟨_, _, rfl⟩ | ⟨_, _, -, -, -, rfl⟩ <;> rfl
  | _ =>
    simp only [outsideOut] at happened
    split at happened <;> cases happened
    rfl

/-- Subscriptions stay, but for the one that a call names for deletion. -/
theorem subscriptions_move (move : (outMachine env).step w act = some w') :
    (∀ sub ∈ w.store.core.db.subscriptions, sub ∈ w'.store.core.db.subscriptions) ∨
      ∃ pid c t id k, act = .resume pid c ∧ t ∈ w.threads ∧ t.pid = pid ∧
        t.prog = .await (.inr (.deleteSubscription id)) k ∧
        ∀ sub ∈ w.store.core.db.subscriptions, sub.id ≠ id →
        sub ∈ w'.store.core.db.subscriptions := by
  have still {core : State} (same : core.db.subscriptions = w.store.core.db.subscriptions) :
      ∀ sub ∈ w.store.core.db.subscriptions, sub ∈ core.db.subscriptions := by
    rw [same]
    exact fun sub hsub => hsub
  cases Machine.step_move move with
  | request s task entered eq =>
    left
    rw [eq]
    exact still (enter_subscriptions entered)
  | resume l r t op k a s found at_call answered eq =>
    obtain ⟨ht, hpid⟩ := focus_some found
    cases op with
    | inl op =>
      left
      obtain ⟨core, inner, rfl⟩ := core_cases answered
      rw [eq]
      exact still (exec_extends inner).subscriptions
    | inr op =>
      rcases net_subscriptions answered with kept | ⟨id, rfl, kept⟩
      · left
        rw [eq]
        exact kept
      · right
        refine ⟨_, _, t, id, k, rfl, (mem_of_focus found).1, hpid, at_call, ?_⟩
        rw [eq]
        exact kept
  | settle l r t out found ended eq =>
    left
    rw [eq]
    exact still (finish_subscriptions env t.task out w.store)
  | crash l r t found eq =>
    left
    rw [eq]
    refine still ?_
    show (dropOut _ t.task w.store).core.db.subscriptions = _
    cases t.task <;> rfl
  | outside s happened eq =>
    left
    rw [eq]
    exact still (outside_subscriptions happened)

/-- A subscription only disappears, or changes, when a manager of its own tenant removes it. -/
theorem subscription_gone {w₀ : OutWorld} (fresh : Fresh w₀)
    (path : Reach (outMachine env) anyStep w₀ w) (move : (outMachine env).step w act = some w')
    {sub : EventSubscription} (there : sub ∈ w.store.core.db.subscriptions)
    (gone : sub ∉ w'.store.core.db.subscriptions) :
    ∃ pid c t user, act = .resume pid c ∧ t ∈ w.threads ∧ t.pid = pid ∧
      t.task = .removeSubscription user sub.id ∧ mayManage user = true ∧
      user.tenantId = sub.tenantId := by
  obtain ⟨-, safe⟩ := (knowing env anyStep).holds fresh.threads (fresh_private fresh) path
  rcases subscriptions_move move with kept | ⟨pid, c, t, id, k, rfl, ht, hpid, at_call, kept⟩
  · exact absurd (kept sub there) gone
  · have named : sub.id = id := by
      by_contra other
      exact gone (kept sub there other)
    have here := (safe t ht).1 (know w.store) fun _ hk => hk
    rw [at_call] at here
    obtain ⟨user, task, manager, owned⟩ := here.1
    refine ⟨pid, c, t, user, rfl, ht, hpid, named ▸ task, manager, ?_⟩
    exact (owned.2 sub there named).symm

end Removal

/-- The subscription of the sample installation is removed by the operator who made it. -/
theorem subscription_gone_sample : ∃ w w' act sub, Fresh sampleOutWorld ∧
    Reach (outMachine sampleOutEnv) anyStep sampleOutWorld w ∧
    (outMachine sampleOutEnv).step w act = some w' ∧
    sub ∈ w.store.core.db.subscriptions ∧ sub ∉ w'.store.core.db.subscriptions ∧
    ∃ pid c t user, act = .resume pid c ∧ t ∈ w.threads ∧ t.pid = pid ∧
      t.task = .removeSubscription user sub.id ∧ mayManage user = true ∧
      user.tenantId = sub.tenantId := by
  have run : ((outMachine sampleOutEnv).steps sampleOutWorld
      [.request (.createSubscription sampleOperator sampleSubscription), .resume 0 {}, .settle 0,
        .request (.removeSubscription sampleOperator 0), .resume 1 {}]).map (fun w =>
        (w.store.core.db.subscriptions.map (·.id),
          ((outMachine sampleOutEnv).step w (.resume 1 {})).map
            fun w' => w'.store.core.db.subscriptions)) =
      some ([0], some []) := by decide +kernel
  obtain ⟨w, hw, seen⟩ := Option.map_eq_some_iff.mp run
  obtain ⟨before, after⟩ := Prod.mk.inj seen
  obtain ⟨w', move, empty⟩ := Option.map_eq_some_iff.mp after
  obtain ⟨sub, hsub, -⟩ := List.map_eq_singleton_iff.mp before
  have there : sub ∈ w.store.core.db.subscriptions := by
    rw [hsub]; exact List.mem_singleton_self sub
  have gone : sub ∉ w'.store.core.db.subscriptions := by rw [empty]; exact List.not_mem_nil
  have path := reach_of_steps _ hw
  exact ⟨w, w', _, sub, sample_fresh, path, move, there, gone,
    subscription_gone sample_fresh path move there gone⟩

end EventPrivacy
