import SyncBridge.Orchestrator
import SyncBridge.TableInvariants

/-!
# What calls answer and which calls an operation makes

The first half inverts `exec`: a call was rejected without effect or did what
`perform` says, and rejections are never of the permanent kind. The second half
bounds the calls of each operation and says which errors it can throw. Results
about runs use these bounds and look inside an operation only where its calls
matter to them.
-/

namespace Footprints

open AwaitPrograms ThreadPools Entities Database TableInvariants Calls Ingestion Worker Management
open Orchestrator

/-- Errors the worker does not take as permanent. -/
def Retryable (e : Err) : Prop := ∀ message, e ≠ .nonRetryable message

@[simp] theorem retryable_other (name message : String) : Retryable (.other name message) :=
  fun _ h => nomatch h

/-- What a value says about the statement that returned it. -/
def Answers : (op : Op) → op.Ans → Prop
  | .db (.findOne _ id) => fun row => ∀ t, row = some t → t.id = id
  | .db (.findForRetry _ status _ _) => fun rows => ∀ t ∈ rows, t.status = status
  | _ => fun _ => True

/-- What can be relied on in the outcome of a call, whatever the state. -/
structure Sound (op : Op) (a : Except Err op.Ans) : Prop where
  rejected : ∀ e, a = .error e → Retryable e
  duplicate : a = .error .uniqueViolation → ∃ input, op = .db (.insertTransfer input)
  answered : ∀ v, a = .ok v → Answers op v

section Inversion
variable {env : Env} {pid : Nat} {op : Op} {c : Choice} {s s' : State} {a : Except Err op.Ans}

theorem exec_cases (h : exec env pid op c s = some (a, s')) :
    (∃ name message, a = .error (.other name message) ∧ s' = s) ∨
      perform env pid c s op = some (a, s') := by
  rw [exec] at h
  split at h
  · exact .inr h
  · rename_i name message _
    split at h
    · cases h
      exact .inl ⟨name, message, rfl, rfl⟩
    · exact .inr h

/-- A statement was rejected or ran on the database. -/
theorem exec_db {op : DbOp} {a : Except Err op.Ans} (h : exec env pid (.db op) c s = some (a, s')) :
    (∃ name message, a = .error (.other name message) ∧ s' = s) ∨
      ∃ db', s.db.exec s.host.now pid op = some (a, db') ∧ s' = { s with db := db' } := by
  refine (exec_cases h).imp_right fun hp => ?_
  simp only [perform] at hp
  split at hp
  · cases hp
  · rename_i r db' hr
    cases hp
    exact ⟨db', hr, rfl⟩

/-- Everything a call can do to the state. -/
inductive Change (env : Env) (pid : Nat) (c : Choice) (s : State) :
    (op : Op) → Except Err op.Ans → State → Prop where
  | rejected (op : Op) (name message : String) : Change env pid c s op
    (.error (.other name message)) s
  | db (op : DbOp) (a : Except Err op.Ans) (db' : Db)
      (ran : s.db.exec s.host.now pid op = some (a, db')) :
      Change env pid c s (.db op) a { s with db := db' }
  | queue (q : QueueOp) : Change env pid c s (.queue q) (.ok ())
    { s with queues := s.queues.exec q }
  | kafka (key : String) (event : TransferEvent) :
      Change env pid c s (.kafkaSend key event) (.ok ())
        { s with kafka := s.kafka ++ [(key, event)] }
  | volume (v : VolumeOp) : Change env pid c s (.volume v) (execVolume env s v) s
  | store (o : StoreOp) (a : Except Err o.Ans) (objects : Store)
      (ran : execStore env pid s o = (a, { s with store := objects })) :
      Change env pid c s (.store o) a { s with store := objects }
  | host (o : HostOp) : Change env pid c s (.host o) (.ok (execHost c s.host o).1)
      { s with host := (execHost c s.host o).2 }

theorem execStore_frame (env : Env) (pid : Nat) (s : State) (o : StoreOp) :
    ∃ a objects, execStore env pid s o = (a, { s with store := objects }) := by
  cases o <;> simp only [execStore, putIn] <;> (try split) <;> (try split) <;> exact ⟨_, _, rfl⟩

theorem exec_change (h : exec env pid op c s = some (a, s')) : Change env pid c s op a s' := by
  rcases exec_cases h with ⟨name, message, rfl, rfl⟩ | hp
  · exact .rejected op name message
  · cases op with
    | db dbOp =>
      simp only [perform] at hp
      split at hp
      · cases hp
      · rename_i r db' ran
        cases hp
        exact .db dbOp _ db' ran
    | queue q => cases hp; exact .queue q
    | kafkaSend key event => cases hp; exact .kafka key event
    | volume v => cases hp; exact .volume v
    | store o =>
      obtain ⟨a', objects, ran⟩ := execStore_frame env pid s o
      simp only [perform, ran, Option.some.injEq, Prod.mk.injEq] at hp
      obtain ⟨rfl, rfl⟩ := hp
      exact .store o a' objects ran
    | host o => cases hp; exact .host o

/-- What a call does to the database. -/
theorem exec_effect_db (h : exec env pid op c s = some (a, s')) :
    s'.db = s.db ∨ ∃ dbOp, op = .db dbOp ∧ Effect s.host.now pid s.db dbOp s'.db := by
  cases exec_change h with
  | db dbOp a db' ran => exact .inr ⟨dbOp, rfl, TableInvariants.exec_effect ran⟩
  | _ => exact .inl rfl

theorem exec_consistent (h : exec env pid op c s = some (a, s')) (hc : Consistent s.db) :
    Consistent s'.db := by
  cases exec_change h with
  | db dbOp a db' ran => exact TableInvariants.exec_consistent hc ran
  | _ => exact hc

/-- Answers to webhooks are given by the machine, not by calls. -/
theorem exec_answers (h : exec env pid op c s = some (a, s')) : s'.answers = s.answers := by
  cases exec_change h <;> rfl

theorem exec_queues (h : exec env pid op c s = some (a, s')) :
    s'.queues = s.queues ∨ ∃ q, op = .queue q ∧ s'.queues = s.queues.exec q := by
  cases exec_change h with
  | queue q => exact .inr ⟨q, rfl, rfl⟩
  | _ => exact .inl rfl

/-- An unnamed error, or the unique violation of an insert. -/
def CallError (op : Op) (e : Err) : Prop :=
  (∃ name message, e = .other name message) ∨
    e = .uniqueViolation ∧ ∃ input, op = .db (.insertTransfer input)

theorem dbError_kind {now : Nat} {db db' : Db} {op : DbOp} {e : Err}
    (h : db.exec now pid op = some (.error e, db')) : CallError (.db op) e := by
  cases op with
  | update id p =>
    simp only [Db.exec, Db.updateRow] at h
    split at h <;> cases h
  | resetForRetry mgr id =>
    cases mgr with
    | pool =>
      simp only [Db.exec, Db.updateRow] at h
      split at h <;> cases h
    | tx =>
      simp only [Db.exec] at h
      split at h
      · cases h; exact .inl ⟨_, _, rfl⟩
      · split at h
        · split at h <;> cases h
        · cases h
  | deleteTerminalOlderThan cutoff =>
    simp only [Db.exec] at h
    split at h <;> cases h
  | insertTransfer input =>
    simp only [Db.exec] at h
    split at h
    · cases h; exact .inl ⟨_, _, rfl⟩
    · split at h
      · cases h; exact .inr ⟨rfl, input, rfl⟩
      · split at h <;> cases h
  | setCurrentTenant _ | insertEvent _ _ | commit =>
    simp only [Db.exec] at h
    split at h
    · cases h; exact .inl ⟨_, _, rfl⟩
    · cases h
  | _ => cases h

theorem callError_kind {op : Op} {e : Err} (h : exec env pid op c s = some (.error e, s')) :
    CallError op e := by
  rcases exec_cases h with ⟨name, message, heq, -⟩ | hp
  · cases heq
    exact .inl ⟨name, message, rfl⟩
  · cases op with
    | db dbOp =>
      rcases exec_db h with ⟨name, message, heq, -⟩ | ⟨db', hr, -⟩
      · cases heq; exact .inl ⟨name, message, rfl⟩
      · exact dbError_kind hr
    | volume v =>
      simp only [perform, Option.some.injEq, Prod.mk.injEq] at hp
      cases v <;> simp only [execVolume] at hp <;> split at hp <;> cases hp.1 <;>
        exact .inl ⟨_, _, rfl⟩
    | store o =>
      simp only [perform, Option.some.injEq] at hp
      cases o with
      | headBucket bucket =>
        simp only [execStore] at hp
        split at hp <;> cases hp
        exact .inl ⟨_, _, rfl⟩
      | createBucket bucket => cases hp
      | putObject bucket key body contentLength contentType =>
        simp only [execStore] at hp
        split at hp
        · cases hp; exact .inl ⟨_, _, rfl⟩
        · split at hp <;> cases hp
          exact .inl ⟨_, _, rfl⟩
      | multipartUpload bucket key body contentType =>
        simp only [execStore] at hp
        split at hp <;> cases hp
        exact .inl ⟨_, _, rfl⟩
      | getObject bucket key =>
        simp only [execStore] at hp
        split at hp <;> cases hp
        exact .inl ⟨_, _, rfl⟩
    | _ => cases hp

theorem mem_orderBy_take {α : Type} {key : α → Nat} {rows : List α} {n : Nat} {x : α}
    (h : x ∈ (orderBy key rows).take n) : x ∈ rows :=
  (List.perm_insertionSort _ rows).mem_iff.mp (List.mem_of_mem_take h)

theorem mem_stuckRows {db : Db} {staleBefore limit : Nat} {t : FileTransfer}
    (h : t ∈ stuckRows db staleBefore limit) : t ∈ db.transfers ∧
      (t.status = .pending ∨ t.status = .processing) ∧ t.updatedAt < staleBefore := by
  obtain ⟨stored, stuck⟩ := List.mem_filter.mp (mem_orderBy_take h)
  simp only [Bool.and_eq_true, Bool.or_eq_true, beq_iff_eq, decide_eq_true_eq] at stuck
  exact ⟨stored, stuck⟩

theorem findStuck_answer {staleBefore limit : Nat} {rows : List FileTransfer}
    (h : exec env pid (.db (.findStuck staleBefore limit)) c s = some (.ok rows, s')) :
    rows = stuckRows s.db staleBefore limit := by
  rcases exec_db h with ⟨_, _, hr, -⟩ | ⟨db', ran, -⟩
  · cases hr
  · exact (Except.ok.inj (Prod.mk.inj (Option.some.inj ran)).1).symm

theorem exec_sound (h : exec env pid op c s = some (a, s')) : Sound op a := by
  refine ⟨fun e he message heq => ?_, fun he => ?_, fun v hv => ?_⟩
  · rcases callError_kind (he ▸ h) with ⟨_, _, rfl⟩ | ⟨rfl, -⟩ <;> cases heq
  · rcases callError_kind (he ▸ h) with ⟨_, _, heq⟩ | ⟨-, hop⟩
    · cases heq
    · exact hop
  subst hv
  unfold Answers
  split
  · intro t ht
    rcases exec_db h with ⟨_, _, hr, -⟩ | ⟨db', hr, -⟩
    · cases hr
    · simp only [Db.exec, Option.some.injEq, Prod.mk.injEq, Except.ok.injEq] at hr
      rw [ht] at hr
      simpa using List.find?_some hr.1
  · intro t ht
    rcases exec_db h with ⟨_, _, hr, -⟩ | ⟨db', hr, -⟩
    · cases hr
    · simp only [Db.exec, Option.some.injEq, Prod.mk.injEq, Except.ok.injEq] at hr
      rw [← hr.1] at ht
      have := (List.mem_filter.mp (mem_orderBy_take ht)).2
      simp only [Bool.and_eq_true, beq_iff_eq] at this
      exact this.1
  · trivial

end Inversion

/-! ## Calls of the operations -/

def AnyErr (_ : Err) : Prop := True

/-- Calls that publish an event. -/
def PublishCall : Op → Prop
  | .kafkaSend _ _ => True
  | .db (.findSubscriptions _) => True
  | .queue (.addDelivery _) => True
  | _ => False

/-- Calls of an attempt before `markSuccess`. -/
def PrepareCall : Op → Prop
  | .volume _ => True
  | .store _ => True
  | .host _ => True
  | .db (.findUsage _) => True
  | _ => False

def AcceptCall : Op → Prop
  | .db .begin => True
  | .db (.insertTransfer _) => True
  | .db (.insertEvent _ _) => True
  | .db .commit => True
  | .db .rollback => True
  | _ => False

def RelayCall : Op → Prop
  | .host _ => True
  | .db (.findPendingEvents _) => True
  | .queue (.addTransfer _ _) => True
  | .db (.markPublished _) => True
  | _ => False

def SweepCall : Op → Prop
  | .host _ => True
  | .db (.findStuck _ _) => True
  | .db (.update _ (.markFailed _)) => True
  | .queue (.addTransfer _ _) => True
  | _ => False

/-- Statements of the management operations on one manager. -/
def ScopedCall (mgr : Manager) : Op → Prop
  | .db (.findOne m _) => m = mgr
  | .db (.findForRetry m _ _ _) => m = mgr
  | .db (.resetForRetry m _) => m = mgr
  | _ => False

/-- Calls of a retry, in and after its transaction. -/
def ManagementCall : Op → Prop
  | .db .begin => True
  | .db (.setCurrentTenant _) => True
  | .db .commit => True
  | .db .rollback => True
  | .db (.findOne _ _) => True
  | .db (.findForRetry _ _ _ _) => True
  | .db (.resetForRetry _ _) => True
  | .queue (.addTransfer _ _) => True
  | _ => False

def PurgeCall : Op → Prop
  | .host _ => True
  | .db (.deleteTerminalOlderThan _) => True
  | _ => False

def OnFailedCall : Op → Prop
  | .db (.update _ (.markFailed _)) => True
  | .db (.findOne _ _) => True
  | .queue (.addDeadLetter _) => True
  | op => PublishCall op

/-- Calls of a worker's attempt. -/
def ProcessCall : Op → Prop
  | .db (.findOne _ _) => True
  | .db (.update _ _) => True
  | .db (.recordUsage _ _) => True
  | .queue (.addDeadLetter _) => True
  | .kafkaSend _ _ => True
  | .db (.findSubscriptions _) => True
  | .queue (.addDelivery _) => True
  | .volume _ => True
  | .store _ => True
  | .host _ => True
  | .db (.findUsage _) => True
  | _ => False

/-- The calls each task makes. -/
def CallOf : Task → Op → Prop
  | .accept _ _ => AcceptCall
  | .relay _ => RelayCall
  | .process _ _ => ProcessCall
  | .onFailed _ _ => OnFailedCall
  | .sweep _ => SweepCall
  | .retry _ _ => ManagementCall
  | .retryBatch _ _ => ManagementCall
  | .purge => PurgeCall

/-- Calls that only workers make. -/
def WorkerCall : Op → Prop
  | .db (.findUsage _) => True
  | .db (.recordUsage _ _) => True
  | .db (.update _ .markProcessing) => True
  | .db (.update _ (.markSuccess _ _ _ _ _ _ _)) => True
  | .volume _ => True
  | .store _ => True
  | _ => False

theorem not_workerCall {task : Task} (other : ∀ jobId data, task ≠ .process jobId data) {op : Op}
    (call : CallOf task op) : ¬ WorkerCall op := by
  intro worker
  unfold WorkerCall at worker
  cases task with
  | process jobId data => exact other jobId data rfl
  | _ => split at worker <;> first | exact call | exact worker

theorem scopedCall_management (mgr : Manager) (op : Op) (h : ScopedCall mgr op) :
    ManagementCall op := by
  unfold ScopedCall at h
  split at h <;> trivial

theorem publishCall_process (op : Op) (h : PublishCall op) : ProcessCall op := by
  unfold PublishCall at h
  split at h <;> trivial

theorem prepareCall_process (op : Op) (h : PrepareCall op) : ProcessCall op := by
  unfold PrepareCall at h
  split at h <;> trivial

section Operations
variable {env : Env} {R : Err → Prop}

theorem publish_within (t : FileTransfer) (type : EventType) (data : EventData) :
    Within PublishCall R R (publishTransferEvent env t type data) := by
  refine within_bind ?_ fun _ => within_bind (within_call trivial fun _ h => h) fun subs => ?_
  · unfold kafkaPublish
    split
    · exact within_tryCatch (within_call (E := R) trivial fun _ h => h) fun _ _ => within_pure ()
    · exact within_pure ()
  · exact within_forEach fun s _ => within_call trivial fun _ h => h

theorem transaction_within {α : Type} {P : Op → Prop} {E : Err → Prop} {body : Async α}
    (imp : ∀ e, R e → E e) (hbody : Within P R E body) (hbegin : P (.db .begin))
    (hcommit : P (.db .commit)) (hrollback : P (.db .rollback)) :
    Within P R E (transaction body) := by
  refine within_bind (within_call hbegin imp) fun _ => within_tryCatch (F := E) ?_ ?_
  · exact within_bind hbody fun a => within_bind (within_call hcommit imp) fun _ => within_pure a
  · exact fun e he => within_bind (within_call hrollback imp) fun _ => (within_throw e).mpr he

theorem accept_within (p : SftpgoWebhookDto) (carrier : List (String × String)) :
    Within AcceptCall R R (accept env p carrier) := by
  unfold accept
  split
  · exact within_pure _
  split
  · exact within_pure _
  split
  · exact within_pure _
  refine within_bind (within_tryCatch (F := R) ?_ ?_) ?_
  · refine within_bind (transaction_within (fun _ h => h) ?_ trivial trivial trivial)
      fun _ => within_pure _
    refine within_bind (within_call trivial fun _ h => h) fun saved => ?_
    exact within_bind (within_call trivial fun _ h => h) fun _ => within_pure saved
  · intro e he
    split
    · exact within_pure _
    · exact (within_throw _).mpr he
  · intro record
    split <;> exact within_pure _

theorem relay_within (replica : Nat) : Within RelayCall R R (relay replica) := by
  refine within_bind (within_call trivial fun _ h => h) fun entered => ?_
  split
  · refine within_finallyDo (within_tryCatch (F := R) ?_ fun _ _ => within_pure ())
      (within_call trivial fun _ h => h)
    refine within_bind (within_call trivial fun _ h => h) fun pending => ?_
    refine within_forEach fun evt _ => within_bind (within_call trivial fun _ h => h) fun _ => ?_
    exact within_bind (within_call trivial fun _ h => h) fun _ => within_pure ()
  · exact within_pure ()

/-- The calls of a sweep, for any description `P` that covers them. -/
theorem sweep_covered {P : Op → Prop} (replica : Nat) (enter : P (.host (.enterSweep replica)))
    (leave : P (.host (.leaveSweep replica))) (now : P (.host .now))
    (others : ∀ op, SweepCall op → (∀ o, op ≠ .host o) → P op) :
    Within P R R (sweep env replica) := by
  have other : ∀ op, SweepCall op → (∀ o, op ≠ .host o) →
      Within P R R (Prog.call op : Async op.Ans) :=
    fun op call apart => within_call (others op call apart) fun _ h => h
  unfold sweep
  split
  · refine within_bind (within_call enter fun _ h => h) fun entered => ?_
    split
    · refine within_finallyDo (within_tryCatch (F := R) ?_ fun _ _ => within_pure ())
        (within_call leave fun _ h => h)
      refine within_bind (within_call now fun _ h => h) fun now => ?_
      refine within_bind (other _ trivial fun _ h => nomatch h)
        fun stuck => within_forEach fun t _ => ?_
      unfold recover enqueue
      split <;> exact other _ trivial fun _ h => nomatch h
    · exact within_pure ()
  · exact within_pure ()

theorem sweep_within (replica : Nat) : Within SweepCall R R (sweep env replica) :=
  sweep_covered replica trivial trivial trivial fun _ call _ => call

/-- The rule for the sweep: an invariant kept by its bookkeeping, and one for the rows
it has found and not yet dealt with. -/
theorem sweep_obeys {σ : Type} {m : Monitor Op Op.Ans Err σ} {I : σ → Prop}
    {J : List FileTransfer → σ → Prop} {s : σ} (replica : Nat)
    (bookkeeping : ∀ s (h : HostOp), I s → m.may s (.host h) ∧
      ∀ r s', m.next s (.host h) r s' → I s')
    (search : ∀ s stale limit, I s → m.may s (.db (.findStuck stale limit)) ∧
      ∀ r s', m.next s (.db (.findStuck stale limit)) r s' →
      I s' ∧ ∀ rows, r = .ok rows → J rows s')
    (recovery : ∀ s t rest, J (t :: rest) s →
      Obeys m (fun s' out => I s' ∧ ∀ v, out = .ok v → J rest s') s (recover env t))
    (last : ∀ s, J [] s → I s) (start : I s) :
    Obeys m (fun s' _ => I s') s (sweep env replica) := by
  unfold sweep
  split
  · refine obeys_call (bookkeeping s _ start).1 ?_ fun e s₁ hn => (bookkeeping s _ start).2 _ s₁ hn
    intro entered s₁ hn₁
    have h₁ := (bookkeeping s _ start).2 _ s₁ hn₁
    split
    · refine Obeys.finally (q := fun s' _ => I s') ?_ ?_
      · refine Obeys.orElse (q := fun s' _ => I s') ?_ (fun _ _ h => h) fun _ _ h => h
        refine obeys_call (bookkeeping s₁ _ h₁).1 ?_ fun e s₂ hn => (bookkeeping s₁ _ h₁).2 _ s₂ hn
        intro now s₂ hn₂
        have h₂ := (bookkeeping s₁ _ h₁).2 _ s₂ hn₂
        refine obeys_call (search s₂ _ _ h₂).1 ?_ fun e s₃ hn => ((search s₂ _ _ h₂).2 _ s₃ hn).1
        intro stuck s₃ hn₃
        have found := ((search s₂ _ _ h₂).2 _ s₃ hn₃).2 stuck rfl
        refine obeys_forEach _ J stuck found last fun t rest s' hrest => ?_
        refine (recovery s' t rest hrest).mono _ fun s'' out h'' => ?_
        cases out with
        | ok v => exact h''.2 v rfl
        | error e => exact h''.1
      · intro s' out h'
        refine obeys_call (bookkeeping s' _ h').1 ?_ fun e s'' hn =>
          (bookkeeping s' _ h').2 _ s'' hn
        exact fun _ s'' hn => (bookkeeping s' _ h').2 _ s'' hn
    · exact h₁
  · exact start

theorem resetOne_within (id : Nat) (mgr : Manager) :
    Within (ScopedCall mgr) R AnyErr (resetOne id mgr) := by
  have any : ∀ e, R e → AnyErr e := fun _ _ => trivial
  refine within_bind (within_call rfl any) fun found => ?_
  split
  · trivial
  split
  · trivial
  refine within_bind (within_call rfl any) fun _ => within_bind (within_call rfl any)
    fun again => ?_
  split
  · trivial
  · exact within_pure _

theorem resetMatching_within (status : TransferStatus) (before : Option Nat) (limit : Nat)
    (mgr : Manager) : Within (ScopedCall mgr) R AnyErr (resetMatching status before limit mgr) := by
  have any : ∀ e, R e → AnyErr e := fun _ _ => trivial
  refine within_bind (within_call rfl any) fun found => ?_
  exact within_bind (within_forEach fun t _ => within_call rfl any) fun _ => within_pure _

theorem scopedTo_within {α : Type} (user : AuthUser) {work : Manager → Async α}
    (h : ∀ mgr, Within (ScopedCall mgr) R AnyErr (work mgr)) :
    Within ManagementCall R AnyErr (scopedTo user work) := by
  have any : ∀ e, R e → AnyErr e := fun _ _ => trivial
  have body : ∀ mgr, Within ManagementCall R AnyErr (work mgr) := fun mgr =>
    (h mgr).mono (scopedCall_management mgr) fun _ h => h
  unfold scopedTo
  split
  · exact body .pool
  · refine transaction_within any ?_ trivial trivial trivial
    exact within_bind (within_call trivial any) fun _ => body .tx

theorem enqueue_within (id : Nat) : Within ManagementCall R AnyErr (enqueue env id) :=
  within_call trivial fun _ _ => trivial

theorem retry_within (id : Nat) (user : AuthUser) :
    Within ManagementCall R AnyErr (retry env id user) := by
  refine within_bind (scopedTo_within user (resetOne_within id)) fun t => ?_
  exact within_bind (enqueue_within id) fun _ => within_pure _

theorem retryBatch_within (dto : RetryBatchDto) (user : AuthUser) :
    Within ManagementCall R AnyErr (retryBatch env dto user) := by
  unfold retryBatch
  dsimp only
  split
  · trivial
  refine within_bind (scopedTo_within user (resetMatching_within _ _ _)) fun ids => ?_
  exact within_bind (within_forEach fun id _ => enqueue_within id) fun _ => within_pure _

theorem purge_covered {P : Op → Prop} (now : P (.host .now))
    (delete : ∀ cutoff, P (.db (.deleteTerminalOlderThan cutoff))) : Within P R R (purge env) := by
  unfold purge
  split
  · exact within_pure ()
  · refine within_bind (within_call now fun _ h => h) fun now => ?_
    exact within_bind (within_call (delete _) fun _ h => h) fun _ => within_pure ()

theorem purge_within : Within PurgeCall R R (purge env) := purge_covered trivial fun _ => trivial

theorem onFailed_within (job : Job) (err : Err) :
    Within OnFailedCall R R (onFailed env job err) := by
  unfold onFailed
  split
  · exact within_pure ()
  refine within_bind (within_call trivial fun _ h => h) fun _ => ?_
  refine within_bind (within_call trivial fun _ h => h) fun found => within_bind ?_ fun _ => ?_
  · split
    · exact within_pure ()
    · refine (publish_within _ _ _).mono (fun op h => ?_) fun _ h => h
      unfold OnFailedCall
      split <;> trivial
  · exact within_call trivial fun _ h => h

/-- A step hands on the transfer, the path and the size it was given. -/
def Handed (ctx ctx' : ProcessingContext) : Prop :=
  ctx'.transfer = ctx.transfer ∧ ctx'.sourcePath = ctx.sourcePath ∧ ctx'.sizeBytes = ctx.sizeBytes

theorem Handed.trans {c₁ c₂ c₃ : ProcessingContext} (h : Handed c₁ c₂) (h' : Handed c₂ c₃) :
    Handed c₁ c₃ :=
  ⟨h'.1.trans h.1, h'.2.1.trans h.2.1, h'.2.2.trans h.2.2⟩

theorem validation_yields (ctx : ProcessingContext) :
    Yields (Handed ctx) (validationStep env ctx) := by
  unfold validationStep
  split
  · trivial
  · split
    · trivial
    · exact ⟨rfl, rfl, rfl⟩

theorem quota_yields (ctx : ProcessingContext) : Yields (Handed ctx) (quotaStep env ctx) :=
  yields_bind (yields_any _) fun _ _ => ⟨rfl, rfl, rfl⟩

theorem antivirus_yields (ctx : ProcessingContext) :
    Yields (Handed ctx) (antivirusStep env ctx) := by
  unfold antivirusStep
  split
  · refine yields_bind (yields_any _) fun result _ => ?_
    split
    · exact ⟨rfl, rfl, rfl⟩
    · trivial
  · exact ⟨rfl, rfl, rfl⟩

theorem contentType_yields (ctx : ProcessingContext) :
    Yields (Handed ctx) (contentTypeStep env ctx) :=
  ⟨rfl, rfl, rfl⟩

theorem pipeline_yields (ctx : ProcessingContext) :
    Yields (Handed ctx) (runPipeline (processingSteps env) ctx) := by
  refine yields_bind (validation_yields ctx) fun c₁ h₁ => yields_bind (quota_yields c₁) fun c₂ h₂ =>
    yields_bind (antivirus_yields c₂) fun c₃ h₃ => yields_bind (contentType_yields c₃)
      fun c₄ h₄ => ?_
  exact ((h₁.trans h₂).trans h₃).trans h₄

/-- What the encryption of an upload can be. -/
def Drawn (env : Env) : Option Encryption → Prop
  | none => env.config.crypto.enabled = false
  | some e =>
    env.config.crypto.enabled = true ∧ ∃ kek wrapIv stream, env.config.crypto.kek = some kek ∧
      EnvelopeCrypto.createEncryptStream env.crypto kek e.dek e.iv wrapIv = .ok stream ∧
      e.wrappedDek = stream.wrappedDek

theorem drawEncryption_yields : Yields (Drawn env) (drawEncryption env) := by
  unfold drawEncryption
  split
  · rename_i on
    split
    · rename_i unset
      have := env.config.crypto.ready on
      rw [unset] at this
      cases this
    · rename_i kek hkek
      refine yields_bind (yields_any _) fun dek _ => yields_bind (yields_any _) fun iv _ =>
        yields_bind (yields_any _) fun wrapIv _ => ?_
      split
      · trivial
      · rename_i stream created
        exact ⟨on, kek, wrapIv, stream, hkek, created, rfl⟩
  · rename_i off
    have unset : Drawn env none := Bool.eq_false_iff.mpr off
    exact unset

-- The calls of each part of an attempt, for any description `P` that covers them.
section Parts
variable {P : Op → Prop}

theorem sourceStats_within (t : FileTransfer) (stat : P (.volume (.stat t.sourcePath))) :
    Within P R AnyErr (sourceStats t) := by
  refine within_bind (within_tryCatch (F := AnyErr) ?_ fun _ _ => within_pure _) fun stats => ?_
  · exact within_bind (within_call stat fun _ _ => trivial) fun _ => within_pure _
  · split
    · trivial
    · split
      · exact within_pure _
      · trivial

theorem validation_within (ctx : ProcessingContext) :
    Within P R AnyErr (validationStep env ctx) := by
  unfold validationStep
  split
  · trivial
  · split
    · trivial
    · exact within_pure _

theorem quota_within (ctx : ProcessingContext)
    (usage : P (.db (.findUsage ctx.transfer.tenantId))) :
    Within P R AnyErr (quotaStep env ctx) := by
  refine within_bind (within_bind ?_ fun usage => ?_) fun _ => within_pure _
  · exact within_bind (within_call usage fun _ _ => trivial) fun _ => within_pure _
  · split
    · trivial
    · split
      · trivial
      · exact within_pure _

theorem antivirus_within (ctx : ProcessingContext) (scan : P (.volume (.scan ctx.sourcePath))) :
    Within P R AnyErr (antivirusStep env ctx) := by
  unfold antivirusStep
  split
  · refine within_bind (within_call scan fun _ _ => trivial) fun result => ?_
    split
    · exact within_pure _
    · trivial
  · exact within_pure _

theorem pipeline_within (ctx : ProcessingContext)
    (usage : P (.db (.findUsage ctx.transfer.tenantId)))
    (scan : P (.volume (.scan ctx.sourcePath))) :
    Within P R AnyErr (runPipeline (processingSteps env) ctx) := by
  refine within_bind_yields (validation_within ctx) (validation_yields ctx) fun c₁ h₁ => ?_
  refine within_bind_yields (quota_within c₁ (h₁.1 ▸ usage)) (quota_yields c₁) fun c₂ h₂ => ?_
  refine within_bind (antivirus_within c₂ ((h₁.trans h₂).2.1 ▸ scan)) fun c₃ => ?_
  exact within_bind (within_pure _) fun c₄ => within_pure c₄

theorem checksums_within (path : String) (read : P (.volume (.readFile path))) :
    Within P R AnyErr (computeFileChecksums env path) :=
  within_bind (within_call read fun _ _ => trivial) fun _ => within_pure _

theorem drawEncryption_within (key : P (.host .randomKey)) (iv : P (.host .randomIv)) :
    Within P R AnyErr (drawEncryption env) := by
  have any : ∀ e, R e → AnyErr e := fun _ _ => trivial
  unfold drawEncryption
  split
  · split
    · exact within_pure _
    · refine within_bind (within_call key any) fun _ => within_bind (within_call iv any) fun _ =>
        within_bind (within_call iv any) fun _ => ?_
      split
      · trivial
      · exact within_pure _
  · exact within_pure _

theorem ensureBucket_within (bucket : String) (head : P (.store (.headBucket bucket)))
    (create : P (.store (.createBucket bucket))) : Within P R AnyErr (ensureBucket bucket) := by
  have any : ∀ e, R e → AnyErr e := fun _ _ => trivial
  refine within_tryCatch (within_call (E := AnyErr) head any) fun e _ => ?_
  split
  · split
    · exact within_call create any
    · trivial
  · trivial

theorem verifyIntegrity_within (etag : Option String) (expectedMd5 : String) :
    Within P R AnyErr (verifyIntegrity env etag expectedMd5) := by
  unfold verifyIntegrity
  split
  · exact within_pure _
  · split
    · trivial
    · exact within_pure _

theorem uploadStream_within (bucket key : String) (body : Body) (n : Nat) (type : String)
    (head : P (.store (.headBucket bucket))) (create : P (.store (.createBucket bucket)))
    (single : P (.store (.putObject bucket key body n type)))
    (parts : P (.store (.multipartUpload bucket key body type))) :
    Within P R AnyErr (uploadStream env bucket key body n type) := by
  refine within_bind ?_ fun _ => ?_
  · split
    · exact within_pure _
    · exact ensureBucket_within bucket head create
  · split
    · exact within_call single fun _ _ => trivial
    · exact within_call parts fun _ _ => trivial

theorem uploadFile_within (t : FileTransfer) (ctx : ProcessingContext) (checksums : FileChecksums)
    (key : P (.host .randomKey)) (iv : P (.host .randomIv))
    (head : ∀ bucket, P (.store (.headBucket bucket)))
    (create : ∀ bucket, P (.store (.createBucket bucket)))
    (single : ∀ bucket key enc n type,
      P (.store (.putObject bucket key ⟨ctx.sourcePath, enc⟩ n type)))
    (parts : ∀ bucket key enc type,
      P (.store (.multipartUpload bucket key ⟨ctx.sourcePath, enc⟩ type))) :
    Within P R AnyErr (uploadFile env t ctx checksums) := by
  refine within_bind (drawEncryption_within key iv) fun enc => within_bind ?_ fun etag =>
    within_bind ?_ fun _ => within_pure _
  · exact uploadStream_within _ _ _ _ _ (head _) (create _) (single _ _ _ _ _) (parts _ _ _ _)
  · split
    · exact within_pure _
    · exact verifyIntegrity_within etag checksums.md5

theorem prepare_covered (t : FileTransfer) (key : P (.host .randomKey)) (iv : P (.host .randomIv))
    (others : ∀ op, PrepareCall op → (∀ o, op ≠ .host o) → P op) :
    Within P R AnyErr (prepareAndUpload env t) := by
  refine within_bind (sourceStats_within t (others _ trivial fun _ h => nomatch h)) fun stats => ?_
  refine within_bind (pipeline_within _ (others _ trivial fun _ h => nomatch h)
    (others _ trivial fun _ h => nomatch h)) fun ctx => ?_
  refine within_bind (checksums_within _ (others _ trivial fun _ h => nomatch h))
    fun checksums => ?_
  exact uploadFile_within t ctx checksums key iv (fun _ => others _ trivial fun _ h => nomatch h)
    (fun _ => others _ trivial fun _ h => nomatch h)
      (fun _ _ _ _ _ => others _ trivial fun _ h => nomatch h)
    fun _ _ _ _ => others _ trivial fun _ h => nomatch h

theorem runTransfer_covered (data : TransferJobData) (key : P (.host .randomKey))
    (iv : P (.host .randomIv)) (others : ∀ op, ProcessCall op → (∀ o, op ≠ .host o) → P op) :
    Within P R AnyErr (runTransfer env data) := by
  have any : ∀ e, R e → AnyErr e := fun _ _ => trivial
  have other : ∀ op, ProcessCall op → (∀ o, op ≠ .host o) →
      Within P R AnyErr (Prog.call op : Async op.Ans) :=
    fun op call apart => within_call (others op call apart) any
  have publish : ∀ t type d, Within P R AnyErr (publishTransferEvent env t type d) := by
    refine fun t type d => (publish_within t type d).mono (fun op h => ?_) any
    refine others op (publishCall_process op h) fun o same => ?_
    rw [same] at h
    exact h
  refine within_bind (other _ trivial fun _ h => nomatch h) fun found => ?_
  split
  · exact within_pure ()
  split
  · exact within_pure ()
  refine within_bind (other _ trivial fun _ h => nomatch h)
    fun _ => within_tryCatch (F := AnyErr) ?_ fun e _ => ?_
  · refine within_bind (prepare_covered _ key iv fun op h apart =>
      others op (prepareCall_process op h) apart)
      fun u => ?_
    exact within_bind (other _ trivial fun _ h => nomatch h) fun _ =>
      within_bind (other _ trivial fun _ h => nomatch h) fun _ => publish _ _ _
  · unfold reject
    split
    · exact within_bind (other _ trivial fun _ h => nomatch h)
        fun _ => within_bind (publish _ _ _) fun _ =>
        other _ trivial fun _ h => nomatch h
    · trivial

end Parts

theorem prepare_within (t : FileTransfer) : Within PrepareCall R AnyErr (prepareAndUpload env t) :=
  prepare_covered t trivial trivial fun _ call _ => call

theorem runTransfer_within (data : TransferJobData) :
    Within ProcessCall R AnyErr (runTransfer env data) :=
  runTransfer_covered data trivial trivial fun _ call _ => call

theorem code_within (task : Task) : Within (CallOf task) R AnyErr (code env task) := by
  have ends : ∀ {P : Op → Prop} {E : Err → Prop} {α : Type} {p : Async α} {f : α → Reply},
      Within P R E p → Within P R AnyErr (p.bind fun a => .done (.ok (f a))) := by
    intro P E α p f hp
    exact within_bind (hp.mono (fun _ h => h) fun _ _ => trivial) fun _ => trivial
  cases task with
  | accept p carrier => exact ends (accept_within p carrier)
  | relay replica => exact ends (relay_within replica)
  | process jobId data => exact ends (runTransfer_within data)
  | onFailed job err => exact ends (onFailed_within job err)
  | sweep replica => exact ends (sweep_within replica)
  | retry id user => exact ends (retry_within id user)
  | retryBatch dto user => exact ends (retryBatch_within dto user)
  | purge => exact ends purge_within

end Operations

section Machine
variable {env : Env}

/-- A request changes nothing, or it hands out a waiting job. -/
theorem enter_cases {q : Request} {s s' : State} {task : Task} (h : enter q s = some (s', task)) :
    (s' = s ∧ (∀ jobId data, task ≠ .process jobId data) ∧ ∀ job err, task ≠ .onFailed job err) ∨
      ∃ jobId job, q = .takeJob jobId ∧ findJob jobId s = some job ∧ job.state = .waiting ∧
        s' = setJob (fun j => { j with state := .active }) jobId s ∧
        task = .process jobId job.data := by
  cases q with
  | takeJob jobId =>
    simp only [enter, takeJob] at h
    split at h
    · cases h
    · rename_i job found
      split at h
      · rename_i waiting
        cases h
        exact .inr ⟨jobId, job, rfl, found, waiting, rfl, rfl⟩
      · cases h
  | _ =>
    cases h
    exact .inl ⟨rfl, fun _ _ h => (nomatch h), fun _ _ h => (nomatch h)⟩

theorem enter_db {q : Request} {s s' : State} {task : Task} (h : enter q s = some (s', task)) :
    s'.db = s.db ∧ ∀ job err, task ≠ .onFailed job err := by
  rcases enter_cases h with ⟨rfl, -, other⟩ | ⟨_, _, -, -, -, rfl, rfl⟩
  · exact ⟨rfl, other⟩
  · exact ⟨rfl, fun _ _ h => nomatch h⟩

/-- The end of a task changes nothing, keeps an answer, or changes one job. -/
theorem finish_cases (env : Env) (task : Task) (out : Except Err Reply) (s : State) :
    (finish env task out s).1 = s ∨
      (∃ p carrier a, task = .accept p carrier ∧
        (finish env task out s).1 = { s with answers := s.answers ++ [a] }) ∨
      ∃ f jobId, (∀ j, (f j).id = j.id ∧ (f j).data = j.data) ∧
      (finish env task out s).1 = setJob f jobId s := by
  unfold finish
  split
  · exact .inr (.inl ⟨_, _, _, rfl, rfl⟩)
  · exact .inr (.inr ⟨fun j => { j with state := .completed }, _, fun _ => ⟨rfl, rfl⟩, rfl⟩)
  · split
    · exact .inl rfl
    · exact .inr (.inr ⟨failedRun, _, fun _ => ⟨rfl, rfl⟩, rfl⟩)
  · exact .inl rfl

theorem finish_db (env : Env) (task : Task) (out : Except Err Reply) (s : State) :
    (finish env task out s).1.db = s.db := by
  rcases finish_cases env task out s with same | ⟨_, _, _, -, same⟩ | ⟨_, _, -, same⟩
  · rw [same]
  · rw [same]
  · rw [same]
    rfl

/-- Only a throwing attempt starts another task: the handler of its counted job. -/
theorem finish_tasks {task : Task} {out : Except Err Reply} {s : State} {new : Task}
    (h : new ∈ (finish env task out s).2) :
    ∃ jobId data err job, task = .process jobId data ∧ out = .error err ∧
      findJob jobId s = some job ∧ new = .onFailed (failedRun job) err := by
  unfold finish at h
  split at h
  · cases h
  · cases h
  · split at h
    · cases h
    · rename_i jobId data err _ job found
      exact ⟨jobId, data, err, job, rfl, rfl, found, List.mem_singleton.mp h⟩
  · cases h

/-- Jobs are found by number, also after one of them was replaced. -/
theorem findJob_setJob {f : Job → Job} (keeps : ∀ j, (f j).id = j.id) (jobId n : Nat) (s : State) :
    findJob n (setJob f jobId s) = (findJob n s).map fun j => if j.id = jobId then f j else j := by
  unfold findJob setJob
  rw [List.find?_map]
  congr 2
  funext j
  simp only [Function.comp]
  split
  · rw [keeps]
  · rfl

theorem findJob_other {f : Job → Job} (keeps : ∀ j, (f j).id = j.id) {jobId n : Nat}
    (other : n ≠ jobId) (s : State) : findJob n (setJob f jobId s) = findJob n s := by
  rw [findJob_setJob keeps]
  cases found : findJob n s with
  | none => rfl
  | some j =>
    have number : j.id = n := by simpa using List.find?_some found
    rw [Option.map_some, if_neg (number ▸ other)]

/-- A step from outside changes the clock or the files, or it gives an active job back. -/
theorem outside_cases {e : Event} {s s' : State} (h : outside e s = some s') :
    (∃ host files, s' = { s with host := host, files := files }) ∨
      ∃ jobId job, e = .stalled jobId ∧ findJob jobId s = some job ∧ job.state = .active ∧
        s' = setJob (fun j => { j with state := .waiting }) jobId s := by
  cases e with
  | stalled jobId =>
    simp only [outside] at h
    split at h
    · cases h
    · rename_i job found
      split at h
      · rename_i active
        cases h
        exact .inr ⟨jobId, job, rfl, found, active, rfl⟩
      · cases h
  | _ =>
    cases h
    exact .inl ⟨_, _, rfl⟩

theorem outside_db {e : Event} {s s' : State} (h : outside e s = some s') : s'.db = s.db := by
  rcases outside_cases h with ⟨_, _, rfl⟩ | ⟨_, _, -, -, -, rfl⟩ <;> rfl

theorem initial_numbered {w : SysWorld} (h : Initial w) : Numbered w := by
  constructor
  · simp [h.threads]
  · simp [h.threads]

theorem initial_consistent {w : SysWorld} (h : Initial w) : Consistent w.store.db :=
  empty_consistent _ h.transfers h.outbox h.openTxs h.inserted

end Machine

/-- What a crash does to the database is a rollback. -/
theorem drop_effect (pid : Nat) (task : Task) (s : State) :
    Effect 0 pid s.db .rollback (drop pid task s).db := .rolledBack

/-- In every run: a property of the tables, and observers whose answers it gives. -/
theorem observed_runs {env : Env} {m : Task → Monitor Op Op.Ans Err Unit} {D : Db → Prop}
    {allowed : SysWorld → SysAct → Prop} {w₀ w : SysWorld}
    (operations : ∀ task, Obeys (m task) (fun _ _ => True) () (code env task))
    (calls : ∀ task pid op c s a s', D s.db → (m task).may () op →
      exec env pid op c s = some (a, s') →
      D s'.db ∧ (m task).next () op a ())
    (rollbacks : ∀ pid db, D db → D (db.dropTx pid)) (start : Initial w₀) (hD : D w₀.store.db)
    (path : Reach (machine env) allowed w₀ w) :
    D w.store.db ∧ ∀ t ∈ w.threads, Obeys (m t.task) (fun _ _ => True) () t.prog := by
  have rule : Threadwise (machine env) allowed (fun s : State => D s.db)
      fun _ t => Obeys (m t.task) (fun _ _ => True) () t.prog := by
    refine Threadwise.observed operations ?_ calls ?_ (fun pid task s h => rollbacks pid s.db h) ?_
    · exact fun q s s' task h entered => (enter_db entered).1 ▸ h
    · exact fun task out s h => finish_db env task out s ▸ h
    · exact fun e s s' h happened => outside_db happened ▸ h
  refine rule.holds (initial_numbered start) hD ?_ path
  simp [start.threads]

end Footprints
