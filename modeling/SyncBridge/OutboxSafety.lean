import SyncBridge.Footprints

/-!
# The transactional outbox

No dual write: a row and its outbox event are committed together or not at all,
one row per idempotency key, and an event counts as published only after its
payload was added to the queue. The results hold for every interleaving of
webhooks, relays on any number of replicas, workers, sweeps, retries and purges,
with a rejected call or a crash at any await.

`Book` is what one operation knows about itself: the writes of its open
transaction, the events it has read, the payloads it has queued, the keys whose
insert was refused, and the keys of the rows it has committed.
-/

namespace OutboxSafety

open AwaitPrograms ThreadPools Entities Database TableInvariants Calls Ingestion Worker Management
open Orchestrator Footprints

structure Book where
  own : Option (List Write)
  read : List OutboxEvent
  queued : List TransferJobData
  refused : List String
  committed : List String

def Book.empty : Book := ⟨none, [], [], [], []⟩

def rowsOf (ws : List Write) : List FileTransfer := ws.filterMap Write.row?

def eventsOf (ws : List Write) : List OutboxEvent := ws.filterMap Write.event?

/-- Rows and events in step: the n-th event belongs to the n-th row. -/
def Paired (events : List OutboxEvent) (rows : List FileTransfer) : Prop :=
  events.map (fun e => (e.aggregateId, e.payload.transferId)) = rows.map fun t => (t.id, t.id)

/-- What an operation must know before a call that matters to the outbox. -/
def Prepared (b : Book) : Op → Prop
  | .db .commit => ∃ ws, b.own = some ws ∧ Paired (eventsOf ws) (rowsOf ws)
  | .db (.insertTransfer _) => ∃ ws, b.own = some ws ∧ rowsOf ws = []
  | .db (.insertEvent _ _) => ∃ ws, b.own = some ws
  | .db (.markPublished id) => ∃ e ∈ b.read, e.id = id ∧ e.payload ∈ b.queued
  | _ => True

/-- The book after an answer. -/
def Entered (b : Book) : (op : Op) → Except Err op.Ans → Book → Prop
  | .db .begin => fun a b' => match a with
    | .ok _ => b' = { b with own := some [] }
    | .error _ => b' = b
  | .db (.insertTransfer input) => fun a b' => match a with
    | .ok row => row.idempotencyKey = input.idempotencyKey ∧
        ∃ ws, b.own = some ws ∧ b' = { b with own := some (ws ++ [.transfer row]) }
    | .error e =>
      (e = .uniqueViolation ∧ b' = { b with refused := input.idempotencyKey :: b.refused }) ∨
        (e ≠ .uniqueViolation ∧ b' = b)
  | .db (.insertEvent aggregateId payload) => fun a b' => match a with
    | .ok _ => ∃ ws e, b.own = some ws ∧ e.aggregateId = aggregateId ∧ e.payload = payload ∧
        b' = { b with own := some (ws ++ [.event e]) }
    | .error _ => b' = b
  | .db (.resetForRetry .tx id) => fun _ b' =>
      b' = b ∨ ∃ ws, b.own = some ws ∧ b' = { b with own := some (ws ++ [.reset id]) }
  | .db .commit => fun a b' => match a with
    | .ok _ => ∃ ws, b.own = some ws ∧
        b' = { b with own := none, committed := (rowsOf ws).map (·.idempotencyKey) }
    | .error _ => b' = b
  | .db .rollback => fun _ b' => b' = { b with own := none }
  | .db (.findPendingEvents _) => fun a b' => match a with
    | .ok events => b' = { b with read := events }
    | .error _ => b' = b
  | .queue (.addTransfer data _) => fun a b' => match a with
    | .ok _ => b' = { b with queued := data :: b.queued }
    | .error _ => b' = b
  | _ => fun _ b' => b' = b

/-- The calls a task may make: a webhook makes those of `accept` only, and commits
one row with one event. -/
def TaskCall : Task → Book → Op → Prop
  | .accept _ _, b, .db .commit => ∃ row e, b.own = some [.transfer row, .event e]
  | .accept _ _, _, op => AcceptCall op
  | _, _, _ => True

/-- After its row is committed an operation makes no further call. -/
def ledger (task : Task) : Monitor Op Op.Ans Err Book where
  may b op := b.committed = [] ∧ TaskCall task b op ∧ Prepared b op
  next b op a b' := Sound op a ∧ Entered b op a b'

/-- How an operation may end: a webhook is ACCEPTED exactly when its row is
committed, and DUPLICATE only after its insert was refused. -/
def Ended (env : Env) : Task → Book → Except Err Reply → Prop
  | .accept p _, b, out =>
    (out = .ok (.outcome .accepted) ∧ b.committed = [buildIdempotencyKey env p]) ∨
    (out ≠ .ok (.outcome .accepted) ∧ b.committed = [] ∧
      (out = .ok (.outcome .duplicate) → buildIdempotencyKey env p ∈ b.refused))
  | _, b, _ => b.committed = []

section Programs
variable {env : Env} {task : Task}

/-- Calls that no book takes notice of. -/
def Unbooked : Op → Prop
  | .db .begin => False
  | .db (.insertTransfer _) => False
  | .db (.insertEvent _ _) => False
  | .db (.resetForRetry .tx _) => False
  | .db .commit => False
  | .db .rollback => False
  | .db (.findPendingEvents _) => False
  | .db (.markPublished _) => False
  | _ => True

/-- An operation of such calls can only add to what it has queued. -/
theorem ledger_of_within {α : Type} {P : Op → Prop} {E : Err → Prop} {p : Async α} {b : Book}
    (h : Within P Retryable E p) (calls : ∀ op, P op → Unbooked op)
    (taskCalls : ∀ b op, P op → TaskCall task b op) (fresh : b.committed = []) :
    Obeys (ledger task) (fun b' _ => b'.committed = []) b p := by
  refine (h.obeys (I := fun b' : Book => b'.committed = []) ?_ ?_ fresh).mono _ fun _ _ h => h.1
  · intro b' op hb hop
    refine ⟨hb, taskCalls b' op hop, ?_⟩
    have := calls op hop
    unfold Prepared
    unfold Unbooked at this
    split <;> first | exact this.elim | trivial
  · rintro b' op a b'' hb hop ⟨sound, entered⟩
    refine ⟨?_, sound.rejected⟩
    have := calls op hop
    unfold Entered at entered
    unfold Unbooked at this
    split at entered <;> first
      | exact this.elim
      | (subst entered; exact hb)
      | (split at entered <;> (subst entered; exact hb))

/-- The transaction of an accepted webhook. -/
theorem insert_ledger {key : String} {input : CreatePendingInput}
    (hkey : input.idempotencyKey = key) (p : SftpgoWebhookDto) (carrier : List (String × String)) :
    Obeys (ledger (.accept p carrier))
      (fun b out => match out with
        | .ok _ => b.committed = [key]
        | .error e => b.committed = [] ∧ (e = .uniqueViolation → key ∈ b.refused))
      Book.empty
      (transaction (do
        let saved ← db (.insertTransfer input)
        let _ ← db (.insertEvent saved.id ⟨saved.id, carrier⟩)
        return saved)) := by
  refine obeys_call ⟨rfl, trivial, trivial⟩ ?_ ?_
  · rintro _ b ⟨-, rfl⟩
    refine Obeys.orElse (q := fun b out => match out with
        | .ok _ => b.committed = [key]
        | .error e => b.committed = [] ∧ (e = .uniqueViolation → key ∈ b.refused)) ?_ ?_ ?_
    · refine Obeys.andThen (q := fun b out => match out with
        | .ok row => b.committed = [] ∧ ∃ e, row.idempotencyKey = key ∧ e.aggregateId = row.id ∧
            e.payload.transferId = row.id ∧ b.own = some [.transfer row, .event e]
        | .error e => b.committed = [] ∧ (e = .uniqueViolation → key ∈ b.refused)) ?_ ?_ ?_
      · refine obeys_call ⟨rfl, trivial, [], rfl, rfl⟩ ?_ ?_
        · rintro row b ⟨-, hrow, ws, hws, rfl⟩
          cases hws
          refine obeys_call ⟨rfl, trivial, _, rfl⟩ ?_ ?_
          · rintro _ b ⟨-, ws, e, hws, hagg, hpay, rfl⟩
            cases hws
            exact ⟨rfl, e, hrow.trans hkey, hagg, by rw [hpay], rfl⟩
          · rintro e b ⟨sound, rfl⟩
            refine ⟨rfl, fun he => ?_⟩
            obtain ⟨_, hop⟩ := sound.duplicate (by rw [he])
            cases hop
        · rintro e b ⟨-, ⟨rfl, rfl⟩ | ⟨hne, rfl⟩⟩
          · exact ⟨rfl, fun _ => by simp [hkey]⟩
          · exact ⟨rfl, fun he => absurd he hne⟩
      · rintro b row ⟨hfresh, e, hrow, hagg, hpay, hown⟩
        refine obeys_call ⟨hfresh, ⟨row, e, hown⟩, _, hown, ?_⟩ ?_ ?_
        · simp [Paired, eventsOf, rowsOf, Write.event?, Write.row?, List.filterMap_cons, hagg, hpay]
        · rintro _ b' ⟨-, ws, hws, rfl⟩
          rw [hown] at hws
          cases hws
          show (rowsOf [.transfer row, .event e]).map (·.idempotencyKey) = [key]
          simp [rowsOf, Write.row?, List.filterMap_cons, hrow]
        · rintro e' b' ⟨sound, rfl⟩
          refine ⟨hfresh, fun he => ?_⟩
          obtain ⟨_, hop⟩ := sound.duplicate (by rw [he])
          cases hop
      · exact fun _ _ h => h
    · exact fun _ _ h => h
    · rintro b e ⟨hfresh, href⟩
      refine obeys_call ⟨hfresh, trivial, trivial⟩ ?_ ?_
      · rintro _ b' ⟨-, rfl⟩
        exact ⟨hfresh, href⟩
      · rintro e' b' ⟨sound, rfl⟩
        refine ⟨hfresh, fun he => ?_⟩
        obtain ⟨_, hop⟩ := sound.duplicate (by rw [he])
        cases hop
  · rintro e b ⟨sound, rfl⟩
    refine ⟨rfl, fun he => ?_⟩
    obtain ⟨_, hop⟩ := sound.duplicate (by rw [he])
    cases hop

theorem accept_ledger (p : SftpgoWebhookDto) (carrier : List (String × String)) :
    Obeys (ledger (.accept p carrier)) (Ended env (.accept p carrier)) Book.empty
      (code env (.accept p carrier)) := by
  have early : ∀ o, o ≠ AcceptOutcome.accepted → o ≠ .duplicate →
      Ended env (.accept p carrier) Book.empty (.ok (.outcome o)) := by
    intro o h h'
    refine .inr ⟨fun heq => ?_, rfl, fun heq => ?_⟩
    · cases heq; exact h rfl
    · cases heq; exact (h' rfl).elim
  show Obeys _ _ _ ((accept env p carrier).bind _)
  unfold accept
  split
  · exact early _ (by decide) (by decide)
  split
  · exact early _ (by decide) (by decide)
  split
  · exact early _ (by decide) (by decide)
  rename_i sourcePath _
  refine Obeys.andThen (q := fun b out => match out with
    | .ok o => (o = .accepted ∧ b.committed = [buildIdempotencyKey env p]) ∨
        (o = .duplicate ∧ b.committed = [] ∧ buildIdempotencyKey env p ∈ b.refused)
    | .error _ => b.committed = []) ?_ ?_ ?_
  · refine Obeys.andThen (q := fun b out => match out with
      | .ok (some _) => b.committed = [buildIdempotencyKey env p]
      | .ok none => b.committed = [] ∧ buildIdempotencyKey env p ∈ b.refused
      | .error _ => b.committed = []) ?_ ?_ ?_
    · refine Obeys.orElse (q := fun b out => match out with
        | .ok (some _) => b.committed = [buildIdempotencyKey env p]
        | .ok none => False
        | .error e => b.committed = [] ∧
            (e = .uniqueViolation → buildIdempotencyKey env p ∈ b.refused)) ?_ ?_ ?_
      · exact (insert_ledger rfl p carrier).andThen (fun _ _ h => h) fun _ _ h => h
      · intro b o h
        cases o with
        | none => exact h.elim
        | some row => exact h
      · rintro b e ⟨hfresh, href⟩
        split
        · exact ⟨hfresh, href rfl⟩
        · exact hfresh
    · intro b o h
      split
      · exact .inr ⟨rfl, h⟩
      · exact .inl ⟨rfl, h⟩
    · exact fun _ _ h => h
  · rintro b o (⟨rfl, h⟩ | ⟨rfl, h, h'⟩)
    · exact .inl ⟨rfl, h⟩
    · exact .inr ⟨fun heq => (nomatch heq), h, fun _ => h'⟩
  · intro b e h
    exact .inr ⟨fun heq => (nomatch heq), h, fun heq => nomatch heq⟩

/-- The book of an open transaction that has neither rows nor events. -/
def Clean (b : Book) : Prop :=
  b.committed = [] ∧ ∃ ws, b.own = some ws ∧ rowsOf ws = [] ∧ eventsOf ws = []

/-- Management statements leave a transaction without rows and events. -/
theorem scopedCall_clean {b b' : Book} {op : Op} {a : Except Err op.Ans} (hb : Clean b)
    (hop : ScopedCall .tx op ∨ ∃ tenantId, op = .db (.setCurrentTenant tenantId))
    (entered : Entered b op a b') : Clean b' := by
  rcases hop with hop | ⟨tenantId, rfl⟩
  · unfold ScopedCall at hop
    split at hop
    · cases entered; exact hb
    · cases entered; exact hb
    · subst hop
      obtain ⟨hfresh, ws, hws, hrows, hevents⟩ := hb
      rcases entered with rfl | ⟨ws', hws', rfl⟩
      · exact ⟨hfresh, ws, hws, hrows, hevents⟩
      · rw [hws] at hws'
        cases hws'
        refine ⟨hfresh, _, rfl, ?_, ?_⟩
        · simpa [rowsOf, Write.row?, List.filterMap_cons] using hrows
        · simpa [eventsOf, Write.event?, List.filterMap_cons] using hevents
    · cases hop
  · cases entered; exact hb

theorem scopedCall_unbooked (op : Op) (h : ScopedCall .pool op) : Unbooked op := by
  unfold ScopedCall at h
  split at h
  · trivial
  · trivial
  · subst h; trivial
  · cases h

theorem scopedTo_ledger {α : Type} (user : AuthUser) {work : Manager → Async α}
    (h : ∀ mgr, Within (ScopedCall mgr) Retryable AnyErr (work mgr))
    (calls : ∀ b op, TaskCall task b op) {b : Book} (hfresh : b.committed = []) :
    Obeys (ledger task) (fun b' _ => b'.committed = []) b (scopedTo user work) := by
  unfold scopedTo
  split
  · exact ledger_of_within (h .pool) scopedCall_unbooked (fun b op _ => calls b op) hfresh
  · refine obeys_call ⟨hfresh, calls _ _, trivial⟩ ?_ ?_
    · rintro _ b' ⟨-, rfl⟩
      have hclean : Clean { b with own := some [] } := ⟨hfresh, [], rfl, rfl, rfl⟩
      refine Obeys.orElse (q := fun b' out => match out with
        | .ok _ => b'.committed = []
        | .error _ => b'.committed = []) ?_ (fun _ _ h => h) ?_
      · have body :
            Within (fun op => ScopedCall .tx op ∨ ∃ tenantId, op = .db (.setCurrentTenant tenantId))
            Retryable AnyErr (db (.setCurrentTenant user.tenantId) >>= fun _ => work .tx) :=
          within_bind (within_call (.inr ⟨_, rfl⟩) fun _ _ => trivial) fun _ =>
            (h .tx).mono (fun _ h => .inl h) fun _ h => h
        refine (body.obeys (I := Clean) ?_ ?_ hclean).andThen ?_ ?_
        · intro b' op hb hop
          refine ⟨hb.1, calls b' op, ?_⟩
          rcases hop with hop | ⟨tenantId, rfl⟩
          · unfold ScopedCall at hop
            split at hop <;> trivial
          · trivial
        · exact fun b' op a b'' hb hop hn => ⟨scopedCall_clean hb hop hn.2, hn.1.rejected⟩
        · rintro b' a ⟨⟨hf, ws, hws, hrows, hevents⟩, -⟩
          refine obeys_call ⟨hf, calls _ _, ws, hws, ?_⟩ ?_ ?_
          · rw [hrows, hevents]
            rfl
          · rintro _ b'' ⟨-, ws', hws', rfl⟩
            rw [hws] at hws'
            cases hws'
            show (rowsOf ws).map (·.idempotencyKey) = []
            rw [hrows]
            rfl
          · rintro e b'' ⟨-, rfl⟩
            exact hf
        · exact fun b' e h => h.1.1
      · intro b' e hf
        refine obeys_call ⟨hf, calls _ _, trivial⟩ ?_ ?_
        · rintro _ b'' ⟨-, rfl⟩
          exact hf
        · rintro e' b'' ⟨-, rfl⟩
          exact hf
    · rintro e b' ⟨-, rfl⟩
      exact hfresh

theorem enqueue_ledger (calls : ∀ b op, TaskCall task b op) (id : Nat) {b : Book}
    (hfresh : b.committed = []) :
    Obeys (ledger task) (fun b' _ => b'.committed = []) b (enqueue env id) := by
  refine ⟨⟨hfresh, calls _ _, trivial⟩, ?_⟩
  rintro (e | v) b' ⟨-, rfl⟩ <;> exact hfresh

theorem retry_ledger (id : Nat) (user : AuthUser) (calls : ∀ b op, TaskCall task b op) :
    Obeys (ledger task) (fun b' _ => b'.committed = []) Book.empty (retry env id user) := by
  refine (scopedTo_ledger user (resetOne_within id) calls rfl).andThen ?_ fun _ _ h => h
  intro b t hfresh
  exact (enqueue_ledger calls id hfresh).andThen (fun _ _ h => h) fun _ _ h => h

theorem retryBatch_ledger (dto : RetryBatchDto) (user : AuthUser)
    (calls : ∀ b op, TaskCall task b op) :
    Obeys (ledger task) (fun b' _ => b'.committed = []) Book.empty (retryBatch env dto user) := by
  unfold retryBatch
  dsimp only
  split
  · rfl
  refine (scopedTo_ledger user (resetMatching_within _ _ _) calls rfl).andThen ?_ fun _ _ h => h
  intro b ids hfresh
  refine Obeys.andThen (q := fun (b' : Book) _ => b'.committed = []) ?_ (fun _ _ h => h)
    fun _ _ h => h
  refine obeys_forEach _ (fun _ b' => b'.committed = []) ids hfresh (fun _ h => h) ?_
  intro id rest b' hf
  refine (enqueue_ledger calls id hf).mono _ fun b'' out h => ?_
  cases out <;> exact h

/-- A relay marks an event after it has queued its payload. -/
theorem relay_ledger (replica : Nat) (calls : ∀ b op, TaskCall task b op) :
    Obeys (ledger task) (fun b' _ => b'.committed = []) Book.empty (relay replica) := by
  refine obeys_call ⟨rfl, calls _ _, trivial⟩ ?_ ?_
  · rintro entered b ⟨-, rfl⟩
    split
    · refine Obeys.finally (q := fun (b' : Book) _ => b'.committed = []) ?_ ?_
      · refine Obeys.orElse (q := fun (b' : Book) _ => b'.committed = []) ?_ (fun _ _ h => h)
          fun _ _ h => h
        refine obeys_call ⟨rfl, calls _ _, trivial⟩ ?_ ?_
        · rintro pending b ⟨-, rfl⟩
          refine obeys_forEach _ (fun rest b' => b'.committed = [] ∧ b'.read = pending ∧
            ∀ e ∈ rest, e ∈ pending) pending ⟨rfl, rfl, fun _ h => h⟩ (fun _ h => h.1) ?_
          rintro evt rest b ⟨hf, hread, hsub⟩
          refine obeys_call ⟨hf, calls _ _, trivial⟩ ?_ ?_
          · rintro _ b' ⟨-, rfl⟩
            refine obeys_call ⟨hf, calls _ _, evt, ?_, rfl, List.mem_cons_self⟩ ?_ ?_
            · exact hread ▸ hsub evt List.mem_cons_self
            · rintro _ b'' ⟨-, rfl⟩
              exact ⟨hf, hread, fun e he => hsub e (List.mem_cons_of_mem evt he)⟩
            · rintro e b'' ⟨-, rfl⟩
              exact hf
          · rintro e b' ⟨-, rfl⟩
            exact hf
        · rintro e b ⟨-, rfl⟩
          rfl
      · intro b out hf
        refine obeys_call ⟨hf, calls _ _, trivial⟩ ?_ ?_
        · rintro _ b' ⟨-, rfl⟩
          exact hf
        · rintro e b' ⟨-, rfl⟩
          exact hf
    · rfl
  · rintro e b ⟨-, rfl⟩
    rfl

theorem code_ledger (task : Task) :
    Obeys (ledger task) (Ended env task) Book.empty (code env task) := by
  have simple : ∀ {P : Op → Prop} {E : Err → Prop} {α : Type} {p : Async α},
      Within P Retryable E p → (∀ op, P op → Unbooked op) → (∀ b op, TaskCall task b op) →
      Obeys (ledger task) (fun b _ => b.committed = []) Book.empty (finished p) := by
    intro P E α p hp hq calls
    exact (ledger_of_within hp hq (fun b op _ => calls b op) rfl).andThen (fun _ _ h => h)
      fun _ _ h => h
  cases task with
  | accept p carrier => exact accept_ledger p carrier
  | relay replica =>
    have calls : ∀ b op, TaskCall (.relay replica) b op := fun _ _ => trivial
    exact (relay_ledger replica calls).andThen (fun _ _ h => h) fun _ _ h => h
  | process jobId data =>
    refine simple (runTransfer_within data) (fun op h => ?_) fun _ _ => trivial
    unfold ProcessCall at h
    split at h <;> trivial
  | onFailed job err =>
    refine simple (onFailed_within job err) (fun op h => ?_) fun _ _ => trivial
    unfold OnFailedCall PublishCall at h
    split at h <;> first | trivial | (split at h <;> trivial)
  | sweep replica =>
    refine simple (sweep_within replica) (fun op h => ?_) fun _ _ => trivial
    unfold SweepCall at h
    split at h <;> trivial
  | retry id user =>
    have calls : ∀ b op, TaskCall (.retry id user) b op := fun _ _ => trivial
    exact (retry_ledger id user calls).andThen (fun _ _ h => h) fun _ _ h => h
  | retryBatch dto user =>
    have calls : ∀ b op, TaskCall (.retryBatch dto user) b op := fun _ _ => trivial
    exact (retryBatch_ledger dto user calls).andThen (fun _ _ h => h) fun _ _ h => h
  | purge =>
    refine simple purge_within (fun op h => ?_) fun _ _ => trivial
    unfold PurgeCall at h
    split at h <;> trivial

end Programs

section Tables
variable {env : Env} {pid : Nat} {s s' : State} {c : Choice}

/-- Events, jobs and history only grow. -/
structure Advances (s s' : State) : Prop where
  outbox : ∀ e ∈ s.db.outbox, ∃ e' ∈ s'.db.outbox, e'.id = e.id ∧ e'.payload = e.payload
  jobs : ∀ j ∈ s.queues.jobs, ∃ j' ∈ s'.queues.jobs, j'.data = j.data
  inserted : ∀ t ∈ s.db.inserted, t ∈ s'.db.inserted

theorem Advances.refl (s : State) : Advances s s :=
  ⟨fun e he => ⟨e, he, rfl, rfl⟩, fun j hj => ⟨j, hj, rfl⟩, fun _ ht => ht⟩

/-- The outbox and the history change at a commit; publishing marks an event. -/
theorem effect_outbox {now : Nat} {db db' : Db} {op : DbOp} (e : Effect now pid db op db') :
    (db'.outbox = db.outbox ∧ db'.inserted = db.inserted) ∨
    (∃ id, op = .markPublished id ∧ db'.outbox = db.outbox.map (Db.publish now id) ∧
      db'.inserted = db.inserted) ∨
    ∃ x, op = .commit ∧ db.tx pid = some x ∧ db'.outbox = db.outbox ++ x.events ∧
      db'.inserted = db.inserted ++ x.rows := by
  cases e with
  | published id => exact .inr (.inl ⟨id, rfl, rfl, rfl⟩)
  | committed x isOpen =>
    obtain ⟨ho, hi, -⟩ := applyWrites_frame db x
    exact .inr (.inr ⟨x, rfl, isOpen, ho, hi⟩)
  | _ => exact .inl ⟨rfl, rfl⟩

theorem publish_id (now id : Nat) (e : OutboxEvent) : (Db.publish now id e).id = e.id := by
  unfold Db.publish
  split <;> rfl

theorem publish_payload (now id : Nat) (e : OutboxEvent) :
    (Db.publish now id e).payload = e.payload ∧
    (Db.publish now id e).aggregateId = e.aggregateId := by
  unfold Db.publish
  split <;> exact ⟨rfl, rfl⟩

theorem exec_jobs {op : Op} {a : Except Err op.Ans} (h : exec env pid op c s = some (a, s')) :
    ∀ j ∈ s.queues.jobs, j ∈ s'.queues.jobs := by
  intro j hj
  rcases exec_queues h with heq | ⟨q, -, heq⟩
  · rw [heq]; exact hj
  · rw [heq]
    cases q with
    | addTransfer data attempts => exact List.mem_append_left _ hj
    | _ => exact hj

theorem exec_advances {op : Op} {a : Except Err op.Ans} (h : exec env pid op c s = some (a, s')) :
    Advances s s' := by
  refine ⟨?_, fun j hj => ⟨j, exec_jobs h j hj, rfl⟩, ?_⟩
  · intro e he
    rcases exec_effect_db h with heq | ⟨dbOp, rfl, eff⟩
    · rw [heq]; exact ⟨e, he, rfl, rfl⟩
    · rcases effect_outbox eff with ⟨ho, -⟩ | ⟨id, -, ho, -⟩ | ⟨x, -, -, ho, -⟩
      · rw [ho]; exact ⟨e, he, rfl, rfl⟩
      · rw [ho]
        exact ⟨_, List.mem_map_of_mem he, publish_id _ _ e, (publish_payload _ _ e).1⟩
      · rw [ho]
        exact ⟨e, List.mem_append_left _ he, rfl, rfl⟩
  · intro t ht
    rcases exec_effect_db h with heq | ⟨dbOp, rfl, eff⟩
    · rw [heq]; exact ht
    · rcases effect_outbox eff with ⟨-, hi⟩ | ⟨id, -, -, hi⟩ | ⟨x, -, -, -, hi⟩
      · rw [hi]; exact ht
      · rw [hi]; exact ht
      · rw [hi]; exact List.mem_append_left _ ht

/-- What an update never changes about a row. -/
def identity (t : FileTransfer) : Nat × String × String := (t.id, t.idempotencyKey, t.tenantId)

theorem kept_identity : Kept identity := by
  intro now t p
  cases p <;> rfl

theorem identity_eq {t t' : FileTransfer} (h : identity t = identity t') :
    t.id = t'.id ∧ t.idempotencyKey = t'.idempotencyKey ∧ t.tenantId = t'.tenantId := by
  simpa [identity] using h

/-- The book agrees with the state. -/
structure Fits (b : Book) (s : State) (pid : Nat) : Prop where
  own : ∀ ws, b.own = some ws → ∃ x, s.db.tx pid = some x ∧ x.writes = ws
  read : ∀ e ∈ b.read, ∃ e' ∈ s.db.outbox, e'.id = e.id ∧ e'.payload = e.payload
  queued : ∀ p ∈ b.queued, ∃ j ∈ s.queues.jobs, j.data = p
  refused : ∀ k ∈ b.refused, ∃ t ∈ s.db.inserted, t.idempotencyKey = k

theorem fits_empty (s : State) (pid : Nat) : Fits Book.empty s pid := by
  constructor <;> simp [Book.empty]

/-- A book whose own transaction changes while the rest stays. -/
theorem Fits.reopen {b : Book} (h : Fits b s pid) (adv : Advances s s') (own : Option (List Write))
    (committed : List String)
    (fits : ∀ ws, own = some ws → ∃ x, s'.db.tx pid = some x ∧ x.writes = ws) :
    Fits { b with own := own, committed := committed } s' pid where
  own := fits
  read e he := by
    obtain ⟨e₁, he₁, hid, hpay⟩ := h.read e he
    obtain ⟨e₂, he₂, hid', hpay'⟩ := adv.outbox e₁ he₁
    exact ⟨e₂, he₂, hid'.trans hid, hpay'.trans hpay⟩
  queued p hp := by
    obtain ⟨j, hj, hdata⟩ := h.queued p hp
    obtain ⟨j', hj', hdata'⟩ := adv.jobs j hj
    exact ⟨j', hj', hdata'.trans hdata⟩
  refused k hk := by
    obtain ⟨t, ht, hkey⟩ := h.refused k hk
    exact ⟨t, adv.inserted t ht, hkey⟩

/-- The tables, the queue and the answers agree with each other. -/
structure Sealed (s : State) : Prop where
  consistent : Consistent s.db
  paired : Paired s.db.outbox s.db.inserted
  ledgered : ∀ t ∈ s.db.transfers, ∃ t' ∈ s.db.inserted, identity t' = identity t
  published : ∀ e ∈ s.db.outbox, e.status = .published → ∃ j ∈ s.queues.jobs, j.data = e.payload
  answered : ∀ ans ∈ s.answers, ans.outcome = some .duplicate →
    ∃ t ∈ s.db.inserted, t.idempotencyKey = ans.idempotencyKey

/-- A rejected call leaves the book as it is, or closes the transaction. -/
theorem entered_rejected (b : Book) (op : Op) (name message : String) :
    Entered b op (.error (.other name message)) b ∨
      Entered b op (.error (.other name message)) { b with own := none } := by
  cases op with
  | db dbOp => cases dbOp with
    | insertTransfer input => exact .inl (.inr ⟨fun h => (nomatch h), rfl⟩)
    | resetForRetry mgr id => cases mgr with
      | pool => exact .inl rfl
      | tx => exact .inl (.inl rfl)
    | rollback => exact .inr rfl
    | _ => exact .inl rfl
  | queue q => cases q <;> exact .inl rfl
  | _ => exact .inl rfl

theorem Fits.advance {b : Book} (h : Fits b s pid) (adv : Advances s s')
    (tx : s'.db.tx pid = s.db.tx pid) : Fits b s' pid :=
  h.reopen adv b.own b.committed fun ws hws => tx ▸ h.own ws hws

/-- A book that continues another after a call: what was entered, and what it commits. -/
def Continues (b : Book) (s s' : State) (pid : Nat) (op : Op) (a : Except Err op.Ans)
    (b' : Book) : Prop :=
  Entered b op a b' ∧ Fits b' s' pid ∧
    s'.db.inserted.map (·.idempotencyKey) = s.db.inserted.map (·.idempotencyKey) ++ b'.committed

section Statements
variable {b : Book} {op : Op} {a : Except Err op.Ans}

theorem Continues.reopen (fits : Fits b s pid) (fresh : b.committed = []) (adv : Advances s s')
    {own : Option (List Write)} (entered : Entered b op a { b with own := own })
    (writes : ∀ ws, own = some ws → ∃ x, s'.db.tx pid = some x ∧ x.writes = ws)
    (inserted : s'.db.inserted = s.db.inserted) : Continues b s s' pid op a { b with own := own } :=
  ⟨entered, fits.reopen adv own b.committed writes, by rw [inserted, fresh, List.append_nil]⟩

theorem Continues.same (fits : Fits b s pid) (fresh : b.committed = []) (adv : Advances s s')
    (entered : Entered b op a b) (tx : s'.db.tx pid = s.db.tx pid)
    (inserted : s'.db.inserted = s.db.inserted) : Continues b s s' pid op a b :=
  Continues.reopen fits fresh adv entered (fun ws hws => tx ▸ fits.own ws hws) inserted

theorem updateRow_frame {db db' : Db} {now id : Nat} {p : Patch} {x : Except Err Unit}
    (ran : db.updateRow now id p = some (x, db')) :
    db'.tx pid = db.tx pid ∧ db'.inserted = db.inserted := by
  rw [Db.updateRow] at ran
  split at ran
  · cases ran
  · cases ran
    exact ⟨rfl, rfl⟩

/-- A reset in a transaction is one more of its writes, where the row is visible. -/
theorem reset_entered {db' : Db} {id : Nat} {x : Except Err Unit} (fits : Fits b s pid)
    (fresh : b.committed = [])
    (ran : s.db.exec s.host.now pid (.resetForRetry .tx id) = some (x, db'))
    (adv : Advances s { s with db := db' }) :
    ∃ b', Continues b s { s with db := db' } pid (.db (.resetForRetry .tx id)) x b' := by
  simp only [Db.exec] at ran
  split at ran
  · cases ran
    exact ⟨b, .same fits fresh adv (.inl rfl) rfl rfl⟩
  · next y isOpen =>
    split at ran
    · split at ran
      · cases ran
      · cases ran
        cases hown : b.own with
        | none =>
          refine ⟨b, .reopen fits fresh adv (.inl rfl) (fun ws h => ?_) rfl⟩
          rw [hown] at h
          cases h
        | some ws =>
          obtain ⟨y, hy, hws⟩ := fits.own ws hown
          obtain rfl := Option.some.inj (isOpen.symm.trans hy)
          refine ⟨_, .reopen fits fresh adv (.inr ⟨ws, hown, rfl⟩) (fun ws' h => ?_) rfl⟩
          cases h
          exact ⟨_, tx_setTx _ _ _, by rw [hws]⟩
    · cases ran
      exact ⟨b, .same fits fresh adv (.inl rfl) rfl rfl⟩

/-- A row is inserted, or refused because a committed row has its key. -/
theorem insert_entered {db' : Db} {input : CreatePendingInput} {x : Except Err FileTransfer}
    (hs : Sealed s) (fits : Fits b s pid) (fresh : b.committed = [])
    (ready : Prepared b (.db (.insertTransfer input)))
    (ran : s.db.exec s.host.now pid (.insertTransfer input) = some (x, db'))
    (adv : Advances s { s with db := db' }) :
    ∃ b', Continues b s { s with db := db' } pid (.db (.insertTransfer input)) x b' := by
  obtain ⟨ws, hown, hrows⟩ := ready
  obtain ⟨y, isOpen, hws⟩ := fits.own ws hown
  simp only [Db.exec, isOpen] at ran
  split at ran
  · next taken =>
    cases ran
    refine ⟨_, .inl ⟨rfl, rfl⟩,
      ⟨fits.own, fits.read, fits.queued, ?_⟩, by rw [fresh, List.append_nil]⟩
    intro k hk
    rcases List.mem_cons.mp hk with rfl | hk
    · -- the transaction has no rows yet, so the key is a committed row's
      have empty : y.rows = [] := by rw [Tx.rows, hws]; exact hrows
      simp only [empty, List.any_nil, Bool.or_false, List.any_eq_true, decide_eq_true_eq] at taken
      obtain ⟨t, ht, hkey⟩ := taken
      obtain ⟨t', ht', same⟩ := hs.ledgered t ht
      exact ⟨t', ht', (identity_eq same).2.1.trans hkey⟩
    · exact fits.refused k hk
  · split at ran
    · cases ran
    · cases ran
      refine ⟨_, .reopen fits fresh adv ⟨rfl, ws, hown, rfl⟩ (fun ws' h => ?_) rfl⟩
      cases h
      exact ⟨_, tx_setTx _ _ _, by rw [hws]⟩

/-- A statement's effect on the book, when the statement was not rejected. -/
theorem statement_entered (hs : Sealed s) (fits : Fits b s pid) (fresh : b.committed = [])
    {op : DbOp} (ready : Prepared b (.db op)) {a : Except Err op.Ans} {db' : Db}
    (ran : s.db.exec s.host.now pid op = some (a, db')) (adv : Advances s { s with db := db' }) :
    ∃ b', Continues b s { s with db := db' } pid (.db op) a b' := by
  cases op with
  | update id p =>
    obtain ⟨tx, inserted⟩ := updateRow_frame ran
    exact ⟨b, .same fits fresh adv rfl tx inserted⟩
  | resetForRetry mgr id =>
    cases mgr with
    | pool =>
      obtain ⟨tx, inserted⟩ := updateRow_frame ran
      exact ⟨b, .same fits fresh adv rfl tx inserted⟩
    | tx => exact reset_entered fits fresh ran adv
  | deleteTerminalOlderThan cutoff =>
    simp only [Db.exec] at ran
    split at ran
    · cases ran
    · cases ran
      exact ⟨b, .same fits fresh adv rfl rfl rfl⟩
  | begin =>
    cases ran
    refine ⟨_, .reopen fits fresh adv rfl (fun ws h => ?_) rfl⟩
    cases h
    exact ⟨_, tx_setTx _ _ _, rfl⟩
  | setCurrentTenant tenantId =>
    simp only [Db.exec] at ran
    split at ran
    · cases ran
      exact ⟨b, .same fits fresh adv rfl rfl rfl⟩
    · next x isOpen =>
      cases ran
      refine ⟨b, .reopen fits fresh adv rfl (fun ws h => ?_) rfl⟩
      obtain ⟨y, hy, hws⟩ := fits.own ws h
      obtain rfl := Option.some.inj (isOpen.symm.trans hy)
      exact ⟨_, tx_setTx _ _ _, hws⟩
  | insertTransfer input => exact insert_entered hs fits fresh ready ran adv
  | insertEvent aggregateId payload =>
    obtain ⟨ws, hown⟩ := ready
    obtain ⟨x, isOpen, hws⟩ := fits.own ws hown
    simp only [Db.exec, isOpen] at ran
    cases ran
    let event : OutboxEvent := ⟨s.db.nextId, aggregateId, payload, .pending, 0, x.startedAt, none⟩
    refine ⟨_, .reopen fits fresh adv ⟨ws, event, hown, rfl, rfl, rfl⟩ (fun ws' h => ?_) rfl⟩
    cases h
    exact ⟨_, tx_setTx _ _ _, by rw [hws]⟩
  | commit =>
    obtain ⟨ws, hown, hpaired⟩ := ready
    obtain ⟨x, isOpen, hws⟩ := fits.own ws hown
    simp only [Db.exec, isOpen] at ran
    cases ran
    refine ⟨_, ⟨ws, hown, rfl⟩, fits.reopen adv none _ fun ws' h => (by cases h), ?_⟩
    obtain ⟨-, hi, -⟩ := applyWrites_frame s.db x
    simp only [Db.dropTx, hi, List.map_append, Tx.rows, hws, rowsOf]
  | rollback =>
    cases ran
    exact ⟨_, .reopen fits fresh adv rfl (fun ws' h => (by cases h)) rfl⟩
  | findPendingEvents limit =>
    cases ran
    refine ⟨_, rfl, ⟨fits.own, fun e he => ?_, fits.queued, fits.refused⟩,
      by rw [fresh, List.append_nil]⟩
    exact ⟨e, (List.mem_filter.mp (mem_orderBy_take he)).1, rfl, rfl⟩
  | _ =>
    cases ran
    exact ⟨b, .same fits fresh adv rfl rfl rfl⟩

/-- The book can always be continued, and the history grows by what it commits. -/
theorem exec_entered (hs : Sealed s) (fits : Fits b s pid) (fresh : b.committed = [])
    (ready : Prepared b op) (h : exec env pid op c s = some (a, s')) :
    ∃ b', Continues b s s' pid op a b' := by
  have adv := exec_advances h
  have same (hdb : s'.db = s.db) (entered : Entered b op a b) :
      ∃ b', Continues b s s' pid op a b' :=
    ⟨b, .same fits fresh adv entered (by rw [hdb]) (by rw [hdb])⟩
  cases exec_change h with
  | rejected op name message =>
    rcases entered_rejected b op name message with entered | entered
    · exact same rfl entered
    · exact ⟨_, .reopen fits fresh adv entered (fun ws' h => (by cases h)) rfl⟩
  | db op a db' ran => exact statement_entered hs fits fresh ready ran adv
  | queue q =>
    cases q with
    | addTransfer data attempts =>
      refine ⟨_, rfl, ⟨fits.own, fits.read, fun p hp => ?_,
        fits.refused⟩, by rw [fresh, List.append_nil]⟩
      rcases List.mem_cons.mp hp with rfl | hp
      · exact ⟨_, List.mem_append_right _ (List.mem_singleton_self _), rfl⟩
      · obtain ⟨j, hj, hdata⟩ := fits.queued p hp
        exact ⟨j, List.mem_append_left _ hj, hdata⟩
    | addDeadLetter data => exact same rfl rfl
    | addDelivery job => exact same rfl rfl
  | kafka key event => exact same rfl rfl
  | volume v => exact same rfl rfl
  | store o a objects ran => exact same rfl rfl
  | host o => exact same rfl rfl

end Statements

theorem event_unique {db : Db} (h : Consistent db) {e e' : OutboxEvent} (he : e ∈ db.outbox)
    (he' : e' ∈ db.outbox) (same : e.id = e'.id) : e = e' := by
  have hn := h.eventIds
  rw [allEvents, List.map_append] at hn
  exact List.inj_on_of_nodup_map hn.of_append_left he he' same

theorem paired_publish {now id : Nat} {events : List OutboxEvent} {rows : List FileTransfer}
    (h : Paired events rows) : Paired (events.map (Db.publish now id)) rows := by
  have hf : ∀ e, ((Db.publish now id e).aggregateId, (Db.publish now id e).payload.transferId) =
      (e.aggregateId, e.payload.transferId) := by
    intro e
    rw [(publish_payload now id e).1, (publish_payload now id e).2]
  rw [Paired, List.map_map]
  exact (List.map_congr_left fun e _ => hf e).trans h

theorem exec_sealed {b : Book} (hs : Sealed s) (fits : Fits b s pid) {op : Op}
    (ready : Prepared b op) {a : Except Err op.Ans} (h : exec env pid op c s = some (a, s')) :
    Sealed s' := by
  have adv := exec_advances h
  have old : ∀ t ∈ s.db.transfers, ∃ t' ∈ s'.db.inserted, identity t' = identity t := by
    intro t ht
    obtain ⟨t', ht', heq⟩ := hs.ledgered t ht
    exact ⟨t', adv.inserted t' ht', heq⟩
  have jobs : ∀ e ∈ s.db.outbox, e.status = .published →
      ∃ j ∈ s'.queues.jobs, j.data = e.payload := by
    intro e he hp
    obtain ⟨j, hj, hdata⟩ := hs.published e he hp
    exact ⟨j, exec_jobs h j hj, hdata⟩
  -- what a committing operation has in its transaction
  have commits : ∀ x, op = .db .commit → s.db.tx pid = some x → Paired x.events x.rows := by
    rintro x rfl isOpen
    obtain ⟨ws, hown, hpaired⟩ := ready
    obtain ⟨y, hy, rfl⟩ := fits.own ws hown
    obtain rfl := Option.some.inj (isOpen.symm.trans hy)
    exact hpaired
  constructor
  · exact exec_consistent h hs.consistent
  · rcases exec_effect_db h with heq | ⟨dbOp, rfl, eff⟩
    · rw [heq]; exact hs.paired
    · rcases effect_outbox eff with ⟨ho, hi⟩ | ⟨id, -, ho, hi⟩ | ⟨x, rfl, isOpen, ho, hi⟩
      · rw [ho, hi]; exact hs.paired
      · rw [ho, hi]; exact paired_publish hs.paired
      · rw [ho, hi, Paired, List.map_append, List.map_append, hs.paired, commits x rfl isOpen]
  · intro t ht
    rcases exec_effect_db h with heq | ⟨dbOp, rfl, eff⟩
    · exact old t (heq ▸ ht)
    · obtain ⟨t₀, same, ht₀ | ⟨x, -, -, ht₀, hi⟩⟩ := effect_rows kept_identity eff ht
      · obtain ⟨t', ht', same'⟩ := old t₀ ht₀
        exact ⟨t', ht', same'.trans same⟩
      · exact ⟨t₀, hi ▸ List.mem_append_right _ ht₀, same⟩
  · intro e he hp
    rcases exec_effect_db h with heq | ⟨dbOp, rfl, eff⟩
    · exact jobs e (heq ▸ he) hp
    · rcases effect_outbox eff with ⟨ho, -⟩ | ⟨id, rfl, ho, -⟩ | ⟨x, rfl, isOpen, ho, -⟩
      · exact jobs e (ho ▸ he) hp
      · rw [ho] at he
        obtain ⟨e₀, he₀, rfl⟩ := List.mem_map.mp he
        rw [(publish_payload _ _ e₀).1]
        by_cases hid : e₀.id = id
        · obtain ⟨e₁, he₁, hid₁, hqueued⟩ := ready
          obtain ⟨e₂, he₂, hid₂, hpay₂⟩ := fits.read e₁ he₁
          obtain rfl := event_unique hs.consistent he₂ he₀ (hid₂.trans (hid₁.trans hid.symm))
          obtain ⟨j, hj, hdata⟩ := fits.queued _ hqueued
          exact ⟨j, exec_jobs h j hj, hdata.trans hpay₂.symm⟩
        · rw [Db.publish, if_neg hid] at hp
          exact jobs e₀ he₀ hp
      · rw [ho] at he
        rcases List.mem_append.mp he with he | he
        · exact jobs e he hp
        · have : e.status = .pending := hs.consistent.newEvents e
            ((bufferedEvents_perm hs.consistent isOpen).mem_iff.mpr (List.mem_append_left _ he))
          rw [this] at hp
          cases hp
  · intro ans hans hd
    rw [exec_answers h] at hans
    obtain ⟨t, ht, hkey⟩ := hs.answered ans hans hd
    exact ⟨t, adv.inserted t ht, hkey⟩

/-- A step of the machine around the tasks: the tables and the answers stay. -/
structure Still (s s' : State) : Prop where
  db : s'.db = s.db
  answers : s'.answers = s.answers
  jobs : ∀ j ∈ s.queues.jobs, ∃ j' ∈ s'.queues.jobs, j'.data = j.data

theorem Still.refl (s : State) : Still s s := ⟨rfl, rfl, fun j hj => ⟨j, hj, rfl⟩⟩

theorem setJob_still {f : Job → Job} (hf : ∀ j, (f j).data = j.data) (jobId : Nat) (s : State) :
    Still s (setJob f jobId s) := by
  refine ⟨rfl, rfl, fun j hj => ⟨_, List.mem_map_of_mem hj, ?_⟩⟩
  split
  · exact hf j
  · rfl

theorem enter_still {q : Request} {task : Task} (h : enter q s = some (s', task)) : Still s s' := by
  rcases enter_cases h with ⟨rfl, -, -⟩ | ⟨jobId, _, -, -, -, rfl, -⟩
  · exact Still.refl _
  · exact setJob_still (fun _ => by rfl) jobId s

theorem outside_still {e : Event} (h : outside e s = some s') : Still s s' := by
  rcases outside_cases h with ⟨_, _, rfl⟩ | ⟨jobId, _, -, -, -, rfl⟩
  · exact ⟨rfl, rfl, fun j hj => ⟨j, hj, rfl⟩⟩
  · exact setJob_still (fun _ => by rfl) jobId s

/-- The end of a task that is no webhook. -/
theorem finish_still {task : Task} (h : ∀ p carrier, task ≠ .accept p carrier)
    (out : Except Err Reply) (s : State) : Still s (finish env task out s).1 := by
  rcases finish_cases env task out s with same | ⟨p, carrier, _, accepts, -⟩ | ⟨f,
    jobId, keeps, same⟩
  · rw [same]
    exact Still.refl s
  · exact absurd accepts (h p carrier)
  · rw [same]
    exact setJob_still (fun j => (keeps j).2) jobId s

theorem Still.advances (h : Still s s') : Advances s s' := by
  refine ⟨fun e he => ⟨e, h.db ▸ he, rfl, rfl⟩, h.jobs, fun t ht => h.db ▸ ht⟩

theorem Still.fits {b : Book} (h : Still s s') (fits : Fits b s pid) : Fits b s' pid :=
  fits.advance h.advances (by rw [h.db])

theorem Still.sealed (h : Still s s') (hs : Sealed s) : Sealed s' where
  consistent := h.db ▸ hs.consistent
  paired := h.db ▸ hs.paired
  ledgered := h.db ▸ hs.ledgered
  published e he hp := by
    obtain ⟨j, hj, hdata⟩ := hs.published e (h.db ▸ he) hp
    obtain ⟨j', hj', hdata'⟩ := h.jobs j hj
    exact ⟨j', hj', hdata'.trans hdata⟩
  answered ans hans hd := h.db ▸ hs.answered ans (h.answers ▸ hans) hd

theorem exec_tx_other {op : Op} {a : Except Err op.Ans} (h : exec env pid op c s = some (a, s'))
    {other : Nat} (hne : other ≠ pid) : s'.db.tx other = s.db.tx other := by
  rcases exec_effect_db h with heq | ⟨dbOp, -, eff⟩
  · rw [heq]
  · exact effect_tx_other eff hne

end Tables

section Runs
variable {env : Env} {w₀ w w' : SysWorld}

/-- The operation has a book that agrees with the state. -/
def Booked (env : Env) (s : State) (t : SysThread) : Prop :=
  ∃ b, Fits b s t.pid ∧ Obeys (ledger t.task) (Ended env t.task) b t.prog

theorem booked_new (s : State) (n : Nat) (task : Task) : Booked env s ⟨n, task, code env task⟩ :=
  ⟨Book.empty, fits_empty s n, code_ledger task⟩

theorem Booked.still {s s' : State} {t : SysThread} (h : Booked env s t) (still : Still s s') :
    Booked env s' t := by
  obtain ⟨b, fits, obeys⟩ := h
  exact ⟨b, still.fits fits, obeys⟩

/-- One answer: the tables stay sealed, and the operation can continue its book.
The history has grown by what the operation has committed with this call. -/
theorem booked_resume {s s' : State} {t : SysThread} {op : Op} {c : Choice}
    {k : Except Err op.Ans → Async Reply} {a : Except Err op.Ans} (hs : Sealed s)
    (h : Booked env s t) (at_call : t.prog = .await op k)
    (step : exec env t.pid op c s = some (a, s')) :
    Sealed s' ∧ ∃ b b', TaskCall t.task b op ∧ Fits b s t.pid ∧ Fits b' s' t.pid ∧
      Obeys (ledger t.task) (Ended env t.task) b' (k a) ∧ Entered b op a b' ∧
      b.committed = [] ∧ s'.db.inserted.map (·.idempotencyKey) =
        s.db.inserted.map (·.idempotencyKey) ++ b'.committed := by
  obtain ⟨b, fits, obeys⟩ := h
  rw [at_call] at obeys
  obtain ⟨⟨fresh, taskCall, ready⟩, next⟩ := obeys
  obtain ⟨b', entered, fits', hinserted⟩ := exec_entered hs fits fresh ready step
  refine ⟨exec_sealed hs fits ready step, b, b', taskCall, fits, fits', ?_, entered,
    fresh, hinserted⟩
  exact next a b' ⟨exec_sound step, entered⟩

theorem booked_threadwise : Threadwise (machine env) anyStep Sealed (Booked env) where
  request w q s task _ hs hT entered := by
    have still := enter_still entered
    exact ⟨still.sealed hs, fun t ht => (hT t ht).still still, fun n => booked_new s n task⟩
  resume w pid c l r t op k a s _ hs hT apart found at_call step := by
    obtain ⟨hmem, hothers⟩ := mem_of_focus found
    obtain ⟨-, rfl⟩ := focus_some found
    obtain ⟨hs', b, b', -, -, fits, obeys, -⟩ := booked_resume hs (hT t hmem) at_call step
    refine ⟨hs', fun t' ht => ?_, b', fits, obeys⟩
    obtain ⟨b, fits, obeys⟩ := hT t' (hothers t' ht)
    exact ⟨b, fits.advance (exec_advances step) (exec_tx_other step (apart t' ht)), obeys⟩
  settle w pid l r t out _ hs hT found ended := by
    obtain ⟨hmem, hothers⟩ := mem_of_focus found
    obtain ⟨b, fits, obeys⟩ := hT t hmem
    rw [ended, obeys_done] at obeys
    refine ⟨?_, fun t' ht => ?_, fun n task _ => booked_new _ n task⟩
    · show Sealed (finish env t.task out w.store).1
      by_cases haccept : ∀ p carrier, t.task ≠ .accept p carrier
      · exact (finish_still haccept out w.store).sealed hs
      · simp only [ne_eq, not_forall, not_not] at haccept
        obtain ⟨p, carrier, htask⟩ := haccept
        rw [htask] at obeys ⊢
        refine ⟨hs.consistent, hs.paired, hs.ledgered, hs.published, fun ans hans hd => ?_⟩
        rcases List.mem_append.mp hans with hans | hans
        · exact hs.answered ans hans hd
        · rw [List.mem_singleton.mp hans] at hd ⊢
          rcases obeys with ⟨rfl, -⟩ | ⟨-, -, refused⟩
          · cases hd
          · refine fits.refused _ (refused ?_)
            unfold replyOutcome at hd
            split at hd
            · rw [Option.some.inj hd]
            · cases hd
    · have hold := hT t' (hothers t' ht)
      by_cases haccept : ∀ p carrier, t.task ≠ .accept p carrier
      · exact hold.still (finish_still haccept out w.store)
      · simp only [ne_eq, not_forall, not_not] at haccept
        obtain ⟨p, carrier, htask⟩ := haccept
        rw [htask]
        obtain ⟨b, fits, obeys⟩ := hold
        exact ⟨b, ⟨fits.own, fits.read, fits.queued, fits.refused⟩, obeys⟩
  crash w pid l r t _ hs hT apart found := by
    refine ⟨⟨dropTx_consistent hs.consistent pid, hs.paired, hs.ledgered, hs.published,
      hs.answered⟩, ?_⟩
    intro t' ht
    obtain ⟨b, fits, obeys⟩ := hT t' ((mem_of_focus found).2 t' ht)
    refine ⟨b, ⟨fun ws hws => ?_, fits.read, fits.queued, fits.refused⟩, obeys⟩
    have := tx_dropTx_ne w.store.db (apart t' ht)
    exact this.symm ▸ fits.own ws hws
  outside w e s _ hs hT happened := by
    have still := outside_still happened
    exact ⟨still.sealed hs, fun t ht => (hT t ht).still still⟩

theorem initial_sealed (start : Initial w₀) : Sealed w₀.store := by
  refine ⟨initial_consistent start, ?_, ?_, ?_, ?_⟩
  · rw [Paired, start.outbox, start.inserted]; rfl
  · simp [start.transfers]
  · simp [start.outbox]
  · simp [start.answers]

theorem booked_invariant (start : Initial w₀) (path : Reach (machine env) anyStep w₀ w) :
    Sealed w.store ∧ ∀ t ∈ w.threads, Booked env w.store t :=
  booked_threadwise.holds (initial_numbered start) (initial_sealed start)
    (by simp [start.threads]) path

/-- The answer ACCEPTED to a webhook with this key. -/
def acceptedAnswer (key : String) (ans : Answer) : Bool :=
  ans.idempotencyKey = key && ans.outcome == some .accepted

/-- A webhook with this key that is about to answer ACCEPTED. -/
def acceptedThread (env : Env) (key : String) (t : SysThread) : Bool :=
  match t.task, t.prog with
  | .accept p _, .done (.ok (.outcome .accepted)) => buildIdempotencyKey env p = key
  | _, _ => false

theorem acceptedThread_elim {key : String} {t : SysThread} (h : acceptedThread env key t = true) :
    ∃ p carrier, t.task = .accept p carrier ∧ t.prog = .done (.ok (.outcome .accepted)) ∧
      buildIdempotencyKey env p = key := by
  unfold acceptedThread at h
  split at h
  · rename_i p carrier htask hprog
    exact ⟨p, carrier, htask, hprog, by simpa using h⟩
  · cases h

/-- A webhook that answers ACCEPTED has committed the one row with its key. -/
theorem accepted_committed {key : String} {t : SysThread} {b : Book}
    (obeys : Obeys (ledger t.task) (Ended env t.task) b t.prog)
    (h : acceptedThread env key t = true) :
    b.committed = [key] := by
  obtain ⟨p, carrier, htask, hprog, hkey⟩ := acceptedThread_elim h
  rw [htask, hprog, obeys_done] at obeys
  rcases obeys with ⟨-, hc⟩ | ⟨hne, -⟩
  · rw [hc, hkey]
  · exact absurd rfl hne

theorem not_accepted {key : String} {t : SysThread} {b : Book}
    (obeys : Obeys (ledger t.task) (Ended env t.task) b t.prog) (fresh : b.committed = []) :
    acceptedThread env key t = false := by
  by_contra h
  rw [accepted_committed obeys (by simpa using h)] at fresh
  cases fresh

theorem waiting_not_accepted {key : String} {t : SysThread} {op : Op}
    {k : Except Err op.Ans → Async Reply} (at_call : t.prog = .await op k) :
    acceptedThread env key t = false := by
  by_contra h
  obtain ⟨-, -, -, hprog, -⟩ := acceptedThread_elim (by simpa using h)
  rw [at_call] at hprog
  cases hprog

/-- An answer ACCEPTED is given by a webhook that was about to give it. -/
theorem finish_accepted (env : Env) {t : SysThread} {out : Except Err Reply}
    (ended : t.prog = .done out) (s : State) (key : String) :
    (finish env t.task out s).1.answers.countP (acceptedAnswer key) ≤
      s.answers.countP (acceptedAnswer key) + if acceptedThread env key t then 1 else 0 := by
  by_cases haccept : ∀ p carrier, t.task ≠ .accept p carrier
  · rw [(finish_still haccept out s).answers]
    omega
  · simp only [ne_eq, not_forall, not_not] at haccept
    obtain ⟨p, carrier, htask⟩ := haccept
    have given : acceptedAnswer key ⟨buildIdempotencyKey env p, replyOutcome out⟩ = true →
        acceptedThread env key t = true := by
      intro h
      simp only [acceptedAnswer, Bool.and_eq_true, decide_eq_true_eq, beq_iff_eq] at h
      obtain ⟨hkey, hout⟩ := h
      unfold replyOutcome at hout
      split at hout
      · cases hout
        simp [acceptedThread, htask, ended, hkey]
      · cases hout
    rw [htask]
    show (s.answers ++ [_]).countP _ ≤ _
    rw [List.countP_append, List.countP_singleton]
    split
    · next h =>
      rw [if_pos (given h)]
    · omega

theorem spawned_not_accepted (env : Env) (key : String) (n : Nat) (tasks : List Task) :
    (spawn (code env) n tasks).countP (acceptedThread env key) = 0 := by
  refine List.countP_eq_zero.mpr fun t ht => ?_
  obtain ⟨-, hprog, -⟩ := mem_spawn ht
  have obeys : Obeys (ledger t.task) (Ended env t.task) Book.empty t.prog :=
    hprog ▸ code_ledger t.task
  simp [not_accepted obeys rfl]

/-- Every answer ACCEPTED, given or about to be given, has a committed row of its own. -/
def Counted (env : Env) (w : SysWorld) : Prop :=
  ∀ key, w.store.answers.countP (acceptedAnswer key) + w.threads.countP (acceptedThread env key) ≤
    (w.store.db.inserted.map (·.idempotencyKey)).count key

theorem accepted_counted (start : Initial w₀) (path : Reach (machine env) anyStep w₀ w) :
    Counted env w := by
  refine path.invariant (I := Counted env) ?_ ?_
  · intro key
    simp [start.answers, start.threads]
  · intro w w' a before _ move ih key
    have ih := ih key
    cases Machine.step_move move with
    | request s task entered eq =>
      subst eq
      have still := enter_still entered
      have new := spawned_not_accepted env key w.nextPid [task]
      show s.answers.countP _ + (w.threads ++ spawn (code env) w.nextPid [task]).countP _ ≤ _
      rw [List.countP_append, new, still.answers, still.db]
      exact ih
    | resume l r t op k b s found at_call answered eq =>
      subst eq
      obtain ⟨hthreads, rfl⟩ := focus_some found
      obtain ⟨hs, hT⟩ := booked_invariant start before
      obtain ⟨-, b₁, b₂, -, -, -, obeys, -, -, hinserted⟩ :=
        booked_resume hs (hT t (mem_of_focus found).1) at_call answered
      have hanswers : s.answers = w.store.answers := exec_answers answered
      rw [hthreads, List.countP_append,
        List.countP_cons_of_neg (by simp [waiting_not_accepted at_call])] at ih
      show s.answers.countP _ + (l ++ _ :: r).countP _ ≤ _
      rw [hanswers, hinserted, List.countP_append, List.count_append]
      by_cases hacc : acceptedThread env key { t with prog := k b } = true
      · rw [List.countP_cons_of_pos hacc, accepted_committed obeys hacc, List.count_singleton_self]
        omega
      · rw [List.countP_cons_of_neg hacc]
        omega
    | settle l r t out found ended eq =>
      subst eq
      have new := spawned_not_accepted env key w.nextPid (finish env t.task out w.store).2
      have given := finish_accepted env ended w.store key
      rw [(focus_some found).1, List.countP_append, List.countP_cons] at ih
      show (finish env t.task out w.store).1.answers.countP _ +
          (l ++ r ++ spawn (code env) w.nextPid (finish env t.task out w.store).2).countP _ ≤
        ((finish env t.task out w.store).1.db.inserted.map _).count key
      rw [finish_db, List.countP_append, List.countP_append, new]
      omega
    | crash l r t found eq =>
      subst eq
      rw [(focus_some found).1, List.countP_append, List.countP_cons] at ih
      show w.store.answers.countP _ + (l ++ r).countP _ ≤ _
      rw [List.countP_append]
      refine Nat.le_trans ?_ ih
      omega
    | outside s happened eq =>
      subst eq
      have still := outside_still happened
      show s.answers.countP _ + _ ≤ _
      rw [still.answers, still.db]
      exact ih

/-- The call is the delete of the retention job. -/
def deletes : Op → Bool
  | .db (.deleteTerminalOlderThan _) => true
  | _ => false

/-- The step runs the delete of the retention job. -/
def purging (w : SysWorld) : SysAct → Bool
  | .resume pid _ => w.threads.any fun t => t.pid == pid && t.prog.head.any deletes
  | _ => false

def Unpurged (w : SysWorld) (a : SysAct) : Prop := purging w a = false

/-- Without purges the rows are the rows ever committed. -/
theorem unpurged_keys (start : Initial w₀) (path : Reach (machine env) Unpurged w₀ w) :
    w.store.db.transfers.map (·.idempotencyKey) = w.store.db.inserted.map (·.idempotencyKey) := by
  refine path.invariant (I := fun w => w.store.db.transfers.map (·.idempotencyKey) =
    w.store.db.inserted.map (·.idempotencyKey)) ?_ ?_
  · rw [start.transfers, start.inserted]
  · intro w w' a _ ok move ih
    cases Machine.step_move move with
    | request s task entered eq => subst eq; exact (enter_still entered).db ▸ ih
    | resume l r t op k b s found at_call answered eq =>
      subst eq
      rcases exec_effect_db answered with heq | ⟨dbOp, rfl, eff⟩
      · exact heq.symm ▸ ih
      · show s.db.transfers.map _ = s.db.inserted.map _
        generalize s.db = db' at eff
        cases eff with
        | updated id p names free => exact (patchRow_map kept_key none _ id p _).trans ih
        | purged cutoff free =>
          have := List.any_eq_false.mp ok t (mem_of_focus found).1
          simp [(focus_some found).2, at_call, Prog.head, deletes] at this
        | committed x isOpen =>
          obtain ⟨-, hi, -⟩ := applyWrites_frame w.store.db x
          simp only [Db.dropTx, applyWrites_map kept_key, hi, List.map_append, ih]
        | _ => exact ih
    | settle l r t out found ended eq =>
      subst eq; exact (finish_db env t.task out w.store).symm ▸ ih
    | crash l r t found eq => subst eq; exact ih
    | outside s happened eq => subst eq; exact (outside_still happened).db ▸ ih

/-- A committed row has one event, with its number in the payload. -/
theorem one_event {s : State} (hs : Sealed s) {t : FileTransfer} (ht : t ∈ s.db.inserted) :
    ∃ e ∈ s.db.outbox, s.db.outbox.filter (fun e => e.aggregateId = t.id) = [e] ∧
      e.payload.transferId = t.id := by
  have ids : (s.db.inserted.map (·.id)).Nodup := by
    have := hs.consistent.historyIds
    rw [List.map_append] at this
    exact this.of_append_left
  have hp := hs.paired
  rw [Paired] at hp
  generalize s.db.outbox = events at hp
  generalize s.db.inserted = rows at hp ht ids
  induction rows generalizing events with
  | nil => cases ht
  | cons row rows ih =>
    obtain ⟨e, events, rfl, he, hrest⟩ := List.map_eq_cons_iff.mp hp
    obtain ⟨hagg, hpay⟩ := Prod.mk.inj he
    rw [List.map_cons, List.nodup_cons] at ids
    rcases List.mem_cons.mp ht with rfl | ht
    · refine ⟨e, List.mem_cons_self, ?_, hpay⟩
      have others : events.filter (fun e => e.aggregateId = t.id) = [] := by
        refine List.filter_eq_nil_iff.mpr fun e' he' => ?_
        have := List.mem_map_of_mem
            (f := fun e : OutboxEvent => (e.aggregateId, e.payload.transferId)) he'
        rw [hrest] at this
        obtain ⟨t', ht', heq⟩ := List.mem_map.mp this
        have hid : t'.id = e'.aggregateId := (Prod.mk.inj heq).1
        simp only [decide_eq_true_eq]
        exact fun h => ids.1 (List.mem_map.mpr ⟨t', ht', hid.trans h⟩)
      rw [List.filter_cons_of_pos (by simpa using hagg), others]
    · obtain ⟨e', he', hfilter, hpay'⟩ := ih events hrest ht ids.2
      have hne : e.aggregateId ≠ t.id := fun h =>
        ids.1 (List.mem_map.mpr ⟨t, ht, h.symm.trans hagg⟩)
      refine ⟨e', List.mem_cons_of_mem e he', ?_, hpay'⟩
      rw [List.filter_cons_of_neg (by simpa using hne), hfilter]

theorem event_row {s : State} (hs : Sealed s) {e : OutboxEvent} (he : e ∈ s.db.outbox) :
    ∃ t ∈ s.db.inserted, t.id = e.aggregateId := by
  have := List.mem_map_of_mem (f := fun e : OutboxEvent => (e.aggregateId, e.payload.transferId)) he
  rw [hs.paired] at this
  obtain ⟨t, ht, heq⟩ := List.mem_map.mp this
  exact ⟨t, ht, (Prod.mk.inj heq).1⟩

/-- A row that a step brings in had no event before the step. -/
theorem new_row_no_event (hs : Sealed w.store) {a : SysAct}
    (move : (machine env).step w a = some w') {t : FileTransfer} (ht : t ∈ w'.store.db.transfers)
    (new : ∀ t₀ ∈ w.store.db.transfers, t₀.id ≠ t.id) :
    ∀ e ∈ w.store.db.outbox, e.aggregateId ≠ t.id := by
  cases Machine.step_move move with
  | request s task entered eq =>
    subst eq
    exact absurd rfl (new t ((enter_still entered).db ▸ ht))
  | resume l r th op k b s found at_call answered eq =>
    subst eq
    rcases exec_effect_db answered with heq | ⟨dbOp, rfl, eff⟩
    · exact absurd rfl (new t (heq ▸ ht))
    · obtain ⟨t₀, hid, ht₀ | ⟨x, -, isOpen, ht₀, -⟩⟩ := effect_rows kept_id eff ht
      · exact absurd hid (new t₀ ht₀)
      · intro e he heq
        obtain ⟨t₁, ht₁, hid₁⟩ := event_row hs he
        have hist := hs.consistent.historyIds
        rw [List.map_append, List.nodup_append] at hist
        have hbuf : t₀ ∈ buffered w.store.db :=
          (buffered_perm hs.consistent isOpen).mem_iff.mpr (List.mem_append_left _ ht₀)
        exact hist.2.2 _ (List.mem_map_of_mem ht₁) _ (List.mem_map_of_mem hbuf)
          (hid₁.trans (heq.trans hid.symm))
  | settle l r th out found ended eq =>
    subst eq
    exact absurd rfl (new t (finish_db env th.task out w.store ▸ ht))
  | crash l r th found eq =>
    subst eq
    exact absurd rfl (new t ht)
  | outside s happened eq =>
    subst eq
    exact absurd rfl (new t ((outside_still happened).db ▸ ht))

theorem taskCall_accept {p : SftpgoWebhookDto} {carrier : List (String × String)} {b : Book}
    {op : Op} (h : TaskCall (.accept p carrier) b op) : AcceptCall op := by
  cases op with
  | db dbOp => cases dbOp <;> trivial
  | _ => exact h

/-- Of the calls of a webhook only the commit changes the tables. -/
theorem accept_effect {now pid : Nat} {db db' : Db} {op : DbOp} (e : Effect now pid db op db')
    (call : AcceptCall (.db op)) :
    (db'.transfers = db.transfers ∧ db'.outbox = db.outbox) ∨ op = .commit := by
  cases e with
  | updated id p names free => cases op <;> first | exact call.elim | cases names
  | purged cutoff free => cases call
  | committed x isOpen => exact .inr rfl
  | published id => cases call
  | _ => exact .inl ⟨rfl, rfl⟩

theorem commit_error {pid : Nat} {c : Choice} {s s' : State} {e : Err}
    (h : exec env pid (.db .commit) c s = some (.error e, s')) : s'.db = s.db := by
  rcases exec_db h with ⟨_, _, _, rfl⟩ | ⟨db', ran, rfl⟩
  · rfl
  · simp only [Db.exec] at ran
    split at ran
    · cases ran; rfl
    · cases ran

/-- A webhook that has committed its row has ended, and its answer is ACCEPTED. -/
theorem ended_accepted {p : SftpgoWebhookDto} {carrier : List (String × String)} {b : Book}
    {prog : Async Reply}
    (obeys : Obeys (ledger (.accept p carrier)) (Ended env (.accept p carrier)) b prog)
    (committed : b.committed ≠ []) : prog = .done (.ok (.outcome .accepted)) := by
  cases prog with
  | await op k => exact absurd obeys.1.1 committed
  | done out =>
    rcases obeys with ⟨rfl, -⟩ | ⟨-, hc, -⟩
    · rfl
    · exact absurd hc committed

/-- A webhook changes the tables only with the commit after which it is ACCEPTED. -/
theorem accept_resume (start : Initial w₀) (path : Reach (machine env) anyStep w₀ w) {pid : Nat}
    {c : Choice} (move : (machine env).step w (.resume pid c) = some w') {t : SysThread}
    (ht : t ∈ w.threads) (hpid : t.pid = pid) {p : SftpgoWebhookDto}
    {carrier : List (String × String)} (htask : t.task = .accept p carrier) :
    (w'.store.db.transfers = w.store.db.transfers ∧ w'.store.db.outbox = w.store.db.outbox) ∨
      ∃ t' ∈ w'.threads, t'.pid = pid ∧ t'.task = t.task ∧
      t'.prog = .done (.ok (.outcome .accepted)) := by
  obtain ⟨hs, hT⟩ := booked_invariant start path
  cases Machine.step_move move with
  | resume l r t' op k a s found at_call answered eq =>
    subst eq
    obtain ⟨hmem, -⟩ := mem_of_focus found
    obtain ⟨-, hpid'⟩ := focus_some found
    obtain rfl : t' = t :=
      List.inj_on_of_nodup_map ((initial_numbered start).reach path).distinct hmem ht
      (hpid'.trans hpid.symm)
    subst hpid
    obtain ⟨-, b, b', taskCall, fits, -, obeys, entered, -⟩ :=
      booked_resume hs (hT t' ht) at_call answered
    rw [htask] at taskCall obeys
    rcases exec_effect_db answered with heq | ⟨dbOp, rfl, eff⟩
    · exact .inl ⟨by rw [heq], by rw [heq]⟩
    · rcases accept_effect eff (taskCall_accept taskCall) with same | rfl
      · exact .inl same
      · cases a with
        | error e =>
          have heq : s.db = w.store.db := commit_error answered
          exact .inl ⟨by rw [heq], by rw [heq]⟩
        | ok v =>
          obtain ⟨row, e, hown⟩ := taskCall
          obtain ⟨ws, hws, rfl⟩ := entered
          rw [hown] at hws
          cases hws
          refine .inr ⟨_, List.mem_append_right _ List.mem_cons_self, rfl, rfl, ?_⟩
          exact ended_accepted obeys (by simp [rowsOf, Write.row?, List.filterMap_cons])

/-- What the promise of a transactional outbox comes to in one state and its next steps. -/
structure Safe (env : Env) (w : SysWorld) : Prop where
  keys : (w.store.db.transfers.map (·.idempotencyKey)).Nodup
  accepted : ∀ ans ∈ w.store.answers, ans.outcome = some .accepted ∨ ans.outcome = some .duplicate →
    ∃ t ∈ w.store.db.inserted, t.idempotencyKey = ans.idempotencyKey
  event : ∀ t ∈ w.store.db.transfers, ∃ e ∈ w.store.db.outbox,
    w.store.db.outbox.filter (fun e => e.aggregateId = t.id) = [e] ∧ e.payload.transferId = t.id
  together : ∀ a w', (machine env).step w a = some w' → ∀ t ∈ w'.store.db.transfers,
    (∀ t₀ ∈ w.store.db.transfers, t₀.id ≠ t.id) → ∀ e ∈ w.store.db.outbox, e.aggregateId ≠ t.id
  published : ∀ e ∈ w.store.db.outbox, e.status = .published →
    ∃ j ∈ w.store.queues.jobs, j.data = e.payload
  kept : ∀ t ∈ w.store.db.inserted, ∃ e ∈ w.store.db.outbox, e.payload.transferId = t.id ∧
    (e.status = .pending ∨ ∃ j ∈ w.store.queues.jobs, j.data = e.payload)
  writes : ∀ pid c w', (machine env).step w (.resume pid c) = some w' →
    ∀ t ∈ w.threads, t.pid = pid →
    ∀ p carrier, t.task = .accept p carrier →
    (w'.store.db.transfers = w.store.db.transfers ∧ w'.store.db.outbox = w.store.db.outbox) ∨
      ∃ t' ∈ w'.threads, t'.pid = pid ∧ t'.task = t.task ∧
      t'.prog = .done (.ok (.outcome .accepted))
  ends : ∀ pid w', (machine env).step w (.settle pid) = some w' ∨
    (machine env).step w (.crash pid) = some w' →
    w'.store.db.transfers = w.store.db.transfers ∧ w'.store.db.outbox = w.store.db.outbox

theorem transfers_keys {db : Db} (h : Consistent db) :
    (db.transfers.map (·.idempotencyKey)).Nodup := by
  have := h.keys
  rw [allRows, List.map_append] at this
  exact this.of_append_left

theorem answer_committed (start : Initial w₀) (path : Reach (machine env) anyStep w₀ w)
    {ans : Answer} (hans : ans ∈ w.store.answers)
    (h : ans.outcome = some .accepted ∨ ans.outcome = some .duplicate) :
    ∃ t ∈ w.store.db.inserted, t.idempotencyKey = ans.idempotencyKey := by
  rcases h with h | h
  · have given : 0 < w.store.answers.countP (acceptedAnswer ans.idempotencyKey) :=
      List.countP_pos_iff.mpr ⟨ans, hans, by simp [acceptedAnswer, h]⟩
    have counted := accepted_counted start path ans.idempotencyKey
    have there : 0 < (w.store.db.inserted.map (·.idempotencyKey)).count ans.idempotencyKey := by
      omega
    exact List.mem_map.mp (List.count_pos_iff.mp there)
  · exact (booked_invariant start path).1.answered ans hans h

theorem ends_unchanged {pid : Nat}
    (h : (machine env).step w (.settle pid) = some w' ∨
      (machine env).step w (.crash pid) = some w') :
    w'.store.db.transfers = w.store.db.transfers ∧ w'.store.db.outbox = w.store.db.outbox := by
  rcases h with move | move
  · cases Machine.step_move move with
    | settle l r t out found ended eq =>
      subst eq
      have hdb := finish_db env t.task out w.store
      exact ⟨congrArg Db.transfers hdb, congrArg Db.outbox hdb⟩
  · cases Machine.step_move move with
    | crash l r t found eq => subst eq; exact ⟨rfl, rfl⟩

/-- In every run: one row per key, one event per row committed with it, published
only after `queue.add`, and no write by a webhook that is not ACCEPTED. Without
purges at most one webhook of a key is ACCEPTED and DUPLICATE means that its row
is there. -/
theorem outbox_is_safe (start : Initial w₀) (path : Reach (machine env) anyStep w₀ w) :
    Safe env w ∧ (Reach (machine env) Unpurged w₀ w → ∀ key,
      w.store.answers.countP (acceptedAnswer key) ≤ 1 ∧
      ∀ ans ∈ w.store.answers, ans.idempotencyKey = key → ans.outcome = some .duplicate →
        ∃ t ∈ w.store.db.transfers, t.idempotencyKey = key) := by
  obtain ⟨hs, -⟩ := booked_invariant start path
  refine ⟨?_, fun unpurged key => ?_⟩
  · constructor
    · exact transfers_keys hs.consistent
    · exact fun ans hans h => answer_committed start path hans h
    · intro t ht
      obtain ⟨t', ht', same⟩ := hs.ledgered t ht
      exact (identity_eq same).1 ▸ one_event hs ht'
    · exact fun a w' move t ht new => new_row_no_event hs move ht new
    · exact hs.published
    · intro t ht
      obtain ⟨e, he, -, hpay⟩ := one_event hs ht
      refine ⟨e, he, hpay, ?_⟩
      cases hstatus : e.status with
      | pending => exact .inl rfl
      | published => exact .inr (hs.published e he hstatus)
    · exact fun pid c w' move t ht hpid p carrier htask =>
        accept_resume start path move ht hpid htask
    · exact fun pid w' h => ends_unchanged h
  · have heq := unpurged_keys start unpurged
    constructor
    · have counted := accepted_counted start path key
      have single := List.nodup_iff_count_le_one.mp (transfers_keys hs.consistent) key
      rw [heq] at single
      omega
    · intro ans hans hkey hd
      obtain ⟨t, ht, hkey'⟩ := hs.answered ans hans hd
      have hm := List.mem_map_of_mem (f := fun t : FileTransfer => t.idempotencyKey) ht
      rw [← heq] at hm
      obtain ⟨t', ht', hk⟩ := List.mem_map.mp hm
      exact ⟨t', ht', hk.trans (hkey'.trans hkey)⟩

/-- A re-delivered webhook is a DUPLICATE, and the event is published with its job. -/
theorem outbox_is_safe_sample : ∃ w : SysWorld, Reach (machine sampleEnv) Unpurged sampleWorld w ∧
    w.store.answers.map (·.outcome) = [some .accepted, some .duplicate] ∧
    w.store.db.outbox.map (·.status) = [.published] ∧ Safe sampleEnv w ∧
    ∀ key, w.store.answers.countP (acceptedAnswer key) ≤ 1 := by
  have run : ((machine sampleEnv).stepsIf (fun w a => !purging w a) sampleWorld
      (sampleAccepted ++ .request (.webhook sampleUpload []) :: answer 1 3 ++ .settle 1 ::
        sampleRelay 2)).map
        (fun w => (w.store.answers.map (·.outcome), w.store.db.outbox.map (·.status))) =
      some ([some .accepted, some .duplicate], [.published]) := by decide +kernel
  obtain ⟨w, hw, heq⟩ := Option.map_eq_some_iff.mp run
  obtain ⟨hans, hout⟩ := Prod.mk.inj heq
  have unpurged : Reach (machine sampleEnv) Unpurged sampleWorld w :=
    reach_of_stepsIf (fun w a h => by simpa [Unpurged] using h) .start _ hw
  obtain ⟨safe, counts⟩ := outbox_is_safe sample_initial (unpurged.weaken fun _ _ _ => trivial)
  exact ⟨w, unpurged, hans, hout, safe, fun key => (counts unpurged key).1⟩

end Runs

end OutboxSafety
