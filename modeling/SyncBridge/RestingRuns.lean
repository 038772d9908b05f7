import SyncBridge.JobOutcome
import SyncBridge.OutboxSafety
import SyncBridge.RecoverySweep

/-!
# A system at rest

When every thread has ended or was lost, no transaction is left open: a transaction is
closed on every way out of the operation that has opened it. A system at rest therefore
answers every call, and an operation that is served alone, from its request to its end
and with the `failed` handlers it starts, is a run of the machine. What happens during
its calls stays open, as in `SoloRuns`.
-/

namespace RestingRuns

open AwaitPrograms ThreadPools Entities Database TableInvariants Calls Ingestion Worker Management
open Orchestrator Footprints SoloRuns JobOutcome AttemptBudget

/-! ## Transactions end with their operations -/

/-- The observer of an operation's transaction: is one open? -/
def bracketing : Monitor Op Op.Ans Err Bool where
  may _ _ := True
  next opened op a opened' := match op, a with
    | .db .begin, .ok _ => opened' = true
    | .db .commit, .ok _ => opened' = false
    | .db .rollback, _ => opened' = false
    | _, _ => opened' = opened

/-- Calls that neither open nor close a transaction. -/
def Unbracketed : Op → Prop
  | .db .begin => False
  | .db .commit => False
  | .db .rollback => False
  | _ => True

/-- At the end of the program, as at its start, no transaction is open. -/
def Closed {α : Type} (p : Async α) : Prop :=
  Obeys bracketing (fun opened _ => opened = false) false p

section Programs
variable {env : Env}

theorem bracketing_next {op : Op} {opened opened' : Bool} {a : Except Err op.Ans}
    (plain : Unbracketed op) (next : bracketing.next opened op a opened') : opened' = opened := by
  simp only [bracketing] at next
  split at next
  · exact plain.elim
  · exact plain.elim
  · exact plain.elim
  · exact next

theorem unbracketed_obeys {α : Type} {P : Op → Prop} {opened : Bool} {p : Async α}
    (h : Within P AnyErr AnyErr p) (plain : ∀ op, P op → Unbracketed op) :
    Obeys bracketing (fun opened' _ => opened' = opened) opened p := by
  have kept := h.obeys (m := bracketing) (I := fun opened' => opened' = opened)
      (fun _ _ _ _ => trivial)
    (fun b op r b' hb call next =>
      ⟨(bracketing_next (plain op call) next).trans hb, fun _ _ => trivial⟩) rfl
  exact kept.mono _ fun _ _ hr => hr.1

theorem transaction_closed {α : Type} {body : Async α}
    (h : Obeys bracketing (fun opened _ => opened = true) true body) :
    Closed (transaction body) := by
  refine obeys_call trivial ?_ fun _ _ next => next
  intro _ opened next
  obtain rfl : opened = true := next
  refine Obeys.orElse (q := fun opened out => ∀ a, out = .ok a → opened = false) ?_ ?_ ?_
  · refine h.andThen ?_ fun _ _ _ _ same => (nomatch same)
    intro opened a _
    exact obeys_call trivial (fun _ _ next _ _ => next) fun _ _ _ _ same => (nomatch same)
  · exact fun _ a ended => ended a rfl
  · intro opened e _
    exact obeys_call trivial (fun _ _ next => next) fun _ _ next => next

theorem scopedTo_closed {α : Type} (user : AuthUser) {work : Manager → Async α}
    (h : ∀ mgr, Within (ScopedCall mgr) AnyErr AnyErr (work mgr)) :
    Closed (scopedTo user work) := by
  have plain : ∀ mgr op, ScopedCall mgr op → Unbracketed op := by
    intro mgr op call
    unfold ScopedCall at call
    split at call
    · trivial
    · trivial
    · trivial
    · cases call
  unfold scopedTo
  split
  · exact unbracketed_obeys (h .pool) (plain .pool)
  · refine transaction_closed (obeys_call trivial ?_ fun _ _ next => next)
    intro _ opened next
    obtain rfl : opened = true := next
    exact unbracketed_obeys (h .tx) (plain .tx)

theorem createTransferWithOutbox_closed (input : CreatePendingInput)
    (carrier : List (String × String)) :
    Closed (createTransferWithOutbox input carrier) := by
  refine Obeys.orElse (q := fun opened _ => opened = false) ?_ (fun _ _ closed => closed) ?_
  · refine Obeys.andThen (q := fun opened _ => opened = false) (transaction_closed ?_)
      (fun _ _ closed => closed)
      fun _ _ closed => closed
    refine obeys_call trivial (fun saved opened next => ?_) fun _ _ next => next
    refine obeys_call trivial (fun _ _ next' => ?_) fun _ _ next' => ?_
    · exact Eq.trans next' next
    · exact Eq.trans next' next
  · intro opened e closed
    cases e with
    | _ => exact closed

theorem accept_closed (p : SftpgoWebhookDto) (carrier : List (String × String)) :
    Closed (accept env p carrier) := by
  unfold accept
  split
  · rfl
  split
  · rfl
  split
  · rfl
  · refine (createTransferWithOutbox_closed _ carrier).andThen ?_ fun _ _ closed => closed
    intro opened record closed
    cases record with
    | _ => exact closed

theorem retry_closed (id : Nat) (user : AuthUser) : Closed (retry env id user) := by
  refine (scopedTo_closed user (resetOne_within id)).andThen ?_ fun _ _ closed => closed
  intro opened t closed
  exact obeys_call trivial (fun _ _ next => Eq.trans next closed)
    fun _ _ next => Eq.trans next closed

theorem retryBatch_closed (dto : RetryBatchDto) (user : AuthUser) :
    Closed (retryBatch env dto user) := by
  unfold retryBatch
  dsimp only
  split
  · rfl
  refine (scopedTo_closed user (resetMatching_within _ _ _)).andThen ?_ fun _ _ closed => closed
  intro opened ids closed
  subst closed
  refine Obeys.andThen (q := fun opened _ => opened = false) ?_ (fun _ _ h => h) fun _ _ h => h
  refine unbracketed_obeys (P := Unbracketed) (within_forEach fun id _ => ?_) fun _ h => h
  exact within_call trivial fun _ _ => trivial

/-- Tasks that open no transaction. -/
def Task.unbracketed : Task → Bool
  | .accept _ _ => false
  | .retry _ _ => false
  | .retryBatch _ _ => false
  | _ => true

theorem callOf_unbracketed {task : Task} (plain : Task.unbracketed task = true) (op : Op)
    (call : CallOf task op) :
    Unbracketed op := by
  cases task with
  | relay replica =>
    simp only [CallOf, RelayCall] at call
    split at call <;> trivial
  | process jobId data =>
    simp only [CallOf, ProcessCall] at call
    split at call <;> trivial
  | onFailed job err =>
    simp only [CallOf, OnFailedCall, PublishCall] at call
    split at call <;> (try split at call) <;> trivial
  | sweep replica =>
    simp only [CallOf, SweepCall] at call
    split at call <;> trivial
  | purge =>
    simp only [CallOf, PurgeCall] at call
    split at call <;> trivial
  | accept p carrier => cases plain
  | retry id user => cases plain
  | retryBatch dto user => cases plain

theorem code_closed (task : Task) : Closed (code env task) := by
  have ends : ∀ {α : Type} {p : Async α} {f : α → Reply}, Closed p →
      Closed (p.bind fun a => .done (.ok (f a))) := by
    intro α p f hp
    exact hp.andThen (fun _ _ closed => closed) fun _ _ closed => closed
  cases task with
  | accept p carrier => exact ends (accept_closed p carrier)
  | retry id user => exact ends (retry_closed id user)
  | retryBatch dto user => exact ends (retryBatch_closed dto user)
  | _ => exact unbracketed_obeys (code_within _) (callOf_unbracketed rfl)

end Programs

section Owners
variable {env : Env} {pid : Nat} {s s' : State}

theorem tx_dropTx (db : Db) (pid : Nat) : (db.dropTx pid).tx pid = none := by
  unfold Db.tx Db.dropTx
  rw [List.find?_eq_none.mpr]
  intro e he
  have other := (List.mem_filter.mp he).2
  simpa using other

/-- A statement that is no bracket leaves a transaction open or closed. -/
theorem effect_bracketing {now : Nat} {db db' : Db} {op : DbOp} (effect : Effect now pid db op db')
    (plain : Unbracketed (.db op)) : (db'.tx pid).isSome = (db.tx pid).isSome := by
  have replaced : ∀ {x : Tx} (y : Tx), db.tx pid = some x →
      ((db.setTx pid y).tx pid).isSome = (db.tx pid).isSome := by
    intro x y isOpen
    rw [tx_setTx, isOpen]
    rfl
  cases effect with
  | began => exact plain.elim
  | committed x isOpen => exact plain.elim
  | rolledBack => exact plain.elim
  | tenantSet tenantId x isOpen => exact replaced _ isOpen
  | reset id x isOpen free => exact replaced _ isOpen
  | inserted input x isOpen newKey ownKey otherKey => exact replaced _ isOpen
  | recorded aggregateId payload x isOpen => exact replaced _ isOpen
  | _ => rfl

theorem bracketing_plain {op : Op} {opened : Bool} (a : Except Err op.Ans)
    (plain : Unbracketed op) :
    bracketing.next opened op a opened := by
  simp only [bracketing]
  split
  · exact plain.elim
  · exact plain.elim
  · exact plain.elim
  · trivial

/-- The observer of a thread's transaction sees what the database has. -/
theorem exec_bracketing {op : Op} {c : Choice} {a : Except Err op.Ans}
    (h : exec env pid op c s = some (a, s')) :
    bracketing.next (s.db.tx pid).isSome op a (s'.db.tx pid).isSome := by
  by_cases plain : Unbracketed op
  · have kept : (s'.db.tx pid).isSome = (s.db.tx pid).isSome := by
      rcases exec_effect_db h with same | ⟨dbOp, rfl, effect⟩
      · rw [same]
      · exact effect_bracketing effect plain
    rw [kept]
    exact bracketing_plain a plain
  · unfold Unbracketed at plain
    split at plain
    · rcases exec_db h with ⟨name, message, rfl, rfl⟩ | ⟨db', ran, rfl⟩
      · rfl
      · cases ran
        exact congrArg Option.isSome (tx_setTx s.db pid _)
    · rcases exec_db h with ⟨name, message, rfl, rfl⟩ | ⟨db', ran, rfl⟩
      · rfl
      · simp only [Db.exec] at ran
        split at ran
        · cases ran
          rfl
        · cases ran
          exact congrArg Option.isSome (tx_dropTx _ pid)
    · -- a rollback is never rejected
      have ran : s' = { s with db := s.db.dropTx pid } := by
        unfold exec at h
        split at h
        · cases h
          rfl
        · cases h
          rfl
      rw [ran]
      exact congrArg Option.isSome (tx_dropTx s.db pid)
    · exact absurd trivial plain

/-- Every open transaction is that of a thread, and every thread closes its own. -/
structure Owned (w : SysWorld) : Prop where
  owners : ∀ pid, (w.store.db.tx pid).isSome = true → ∃ t ∈ w.threads, t.pid = pid
  closes : ∀ t ∈ w.threads,
    Obeys bracketing (fun opened _ => opened = false) (w.store.db.tx t.pid).isSome t.prog

/-- A number that no thread has is that of no transaction. -/
theorem Owned.unowned {w : SysWorld} (h : Owned w) {n : Nat} (free : ∀ t ∈ w.threads, t.pid ≠ n) :
    w.store.db.tx n = none := by
  cases isOpen : w.store.db.tx n with
  | none => rfl
  | some x =>
    obtain ⟨t, ht, same⟩ := h.owners n (by rw [isOpen]; rfl)
    exact absurd same (free t ht)

/-- Threads that start in a database whose open transactions belong to other threads. -/
theorem spawned_closes {db : Db} {n : Nat} {tasks : List Task} (free : ∀ m, n ≤ m → db.tx m = none)
    {t : SysThread} (ht : t ∈ spawn (code env) n tasks) :
    Obeys bracketing (fun opened _ => opened = false) (db.tx t.pid).isSome t.prog := by
  obtain ⟨-, start, above⟩ := mem_spawn ht
  rw [free t.pid above, start]
  exact code_closed t.task

theorem owned_step {w w' : SysWorld} {a : SysAct} (num : Numbered w) (h : Owned w)
    (move : (machine env).step w a = some w') : Owned w' := by
  have above : ∀ m, w.nextPid ≤ m → w.store.db.tx m = none := fun m high =>
    h.unowned fun t ht same => by
      have := num.below t ht
      omega
  cases Machine.step_move move with
  | request s task entered eq =>
    subst eq
    have same : s.db = w.store.db := (enter_db entered).1
    constructor
    · intro pid isOpen
      rw [same] at isOpen
      obtain ⟨t, ht, hp⟩ := h.owners pid isOpen
      exact ⟨t, List.mem_append_left _ ht, hp⟩
    · intro t ht
      rw [same]
      rcases List.mem_append.mp ht with ht | ht
      · exact h.closes t ht
      · exact spawned_closes above ht
  | resume l r t op k b s found at_call answered eq =>
    subst eq
    rename_i pid c
    obtain ⟨hmem, -⟩ := mem_of_focus found
    have number := (focus_some found).2
    constructor
    · intro n isOpen
      by_cases own : n = pid
      · exact ⟨_, mem_middle.mpr (.inl rfl), number.trans own.symm⟩
      · rw [OutboxSafety.exec_tx_other answered own] at isOpen
        obtain ⟨t', ht', hp⟩ := h.owners n isOpen
        refine ⟨t', mem_middle.mpr (.inr (mem_beside found ht' ?_)), hp⟩
        rintro rfl
        exact own (hp.symm.trans number)
    · intro t' ht'
      rcases mem_middle.mp ht' with rfl | ht'
      · have here := h.closes t hmem
        rw [at_call] at here
        have next := exec_bracketing answered
        rw [← number] at next
        exact here.2 b _ next
      · rw [OutboxSafety.exec_tx_other answered (num.others_ne found t' ht')]
        exact h.closes t' ((mem_of_focus found).2 t' ht')
  | settle l r t out found ended eq =>
    subst eq
    obtain ⟨hmem, -⟩ := mem_of_focus found
    have same : (finish env t.task out w.store).1.db = w.store.db :=
      finish_db env t.task out w.store
    have closed := h.closes t hmem
    rw [ended] at closed
    have closed' : (w.store.db.tx t.pid).isSome = false := closed
    constructor
    · intro n isOpen
      change ((finish env t.task out w.store).1.db.tx n).isSome = true at isOpen
      rw [same] at isOpen
      obtain ⟨t', ht', rfl⟩ := h.owners n isOpen
      refine ⟨t', List.mem_append_left _ (mem_beside found ht' ?_), rfl⟩
      rintro rfl
      rw [closed'] at isOpen
      cases isOpen
    · intro t' ht'
      change Obeys bracketing _ ((finish env t.task out w.store).1.db.tx t'.pid).isSome t'.prog
      rw [same]
      rcases List.mem_append.mp ht' with ht' | ht'
      · exact h.closes t' ((mem_of_focus found).2 t' ht')
      · exact spawned_closes above ht'
  | crash l r t found eq =>
    subst eq
    rename_i pid
    constructor
    · intro n isOpen
      change ((w.store.db.dropTx pid).tx n).isSome = true at isOpen
      by_cases own : n = pid
      · rw [own, tx_dropTx] at isOpen
        cases isOpen
      · rw [tx_dropTx_ne _ own] at isOpen
        obtain ⟨t', ht', hp⟩ := h.owners n isOpen
        refine ⟨t', mem_beside found ht' ?_, hp⟩
        rintro rfl
        exact own (hp.symm.trans (focus_some found).2)
    · intro t' ht'
      change Obeys bracketing _ ((w.store.db.dropTx pid).tx t'.pid).isSome t'.prog
      rw [tx_dropTx_ne _ (num.others_ne found t' ht')]
      exact h.closes t' ((mem_of_focus found).2 t' ht')
  | outside s happened eq =>
    subst eq
    have same : s.db = w.store.db := outside_db happened
    exact ⟨fun pid isOpen => h.owners pid (same ▸ isOpen), fun t ht => by
      rw [same]
      exact h.closes t ht⟩

theorem owned_reach {w₀ w : SysWorld} (start : Initial w₀)
    (path : Reach (machine env) anyStep w₀ w) : Owned w := by
  refine path.invariant ⟨fun pid isOpen => ?_, fun t ht => ?_⟩ fun w w' a before _ move h =>
    owned_step ((initial_numbered start).reach before) h move
  · simp [Db.tx, start.openTxs] at isOpen
  · rw [start.threads] at ht
    cases ht

/-- Without threads there are no open transactions. -/
theorem openTxs_at_rest {w₀ w : SysWorld} (start : Initial w₀)
    (path : Reach (machine env) anyStep w₀ w) (rest : w.threads = []) :
    w.store.db.openTxs = [] := by
  cases openTxs : w.store.db.openTxs with
  | nil => rfl
  | cons e es =>
    have isOpen : (w.store.db.tx e.1).isSome = true := by
      unfold Db.tx
      rw [openTxs, List.find?_cons_of_pos (by simp)]
      rfl
    obtain ⟨t, ht, -⟩ := (owned_reach start path).owners e.1 isOpen
    rw [rest] at ht
    cases ht

end Owners

/-! ## Operations served alone -/

/-- Nothing is in flight; the turns say what happens during the calls to come. -/
structure Rest where
  solo : Solo
  nextPid : Nat

def Rest.world (x : Rest) : SysWorld := ⟨x.solo.state, [], x.nextPid⟩

/-- A task from its start to its end, by the next thread. -/
def Rest.serve (env : Env) (x : Rest) (task : Task) : Rest × List Task :=
  let (y, tasks) := runTask env x.nextPid task x.solo
  (⟨y, x.nextPid + 1⟩, tasks)

/-- A request is served, and then the tasks its end has started. -/
def Rest.request (env : Env) (q : Request) (x : Rest) : Rest :=
  match enter q x.solo.state with
  | none => x
  | some (s, task) =>
    let (y, tasks) := Rest.serve env ⟨⟨s, x.solo.turns⟩, x.nextPid⟩ task
    tasks.foldl (fun y task => (y.serve env task).1) y

/-- The requests that the system makes of itself. -/
def Request.own : Request → Bool
  | .relayTick _ => true
  | .sweepTick _ => true
  | .takeJob _ => true
  | _ => false

/-- Steps without new uploads, without anybody's help and without losses. -/
def Unaided (_ : SysWorld) : SysAct → Prop
  | .request q => Request.own q = true
  | .crash _ => False
  | _ => True

/-- Threads are lost and nothing else happens. -/
def Loses (_ : SysWorld) (a : SysAct) : Prop := ∃ pid, a = .crash pid

section Serving
variable {env : Env} {pid : Nat} {x : Solo} {op : Op}

/-- Without open transactions no statement waits. -/
theorem exec_idle (env : Env) (pid : Nat) (op : Op) {s : State} (idle : s.db.openTxs = [])
    (c : Choice) :
    ∃ a s', exec env pid op c s = some (a, s') := by
  have free : ∀ who id, s.db.locked who id = false := fun who id => by
    unfold Db.locked
    rw [idle]
    rfl
  have runs : ∀ dbOp : DbOp, ∃ a db', s.db.exec s.host.now pid dbOp = some (a, db') := by
    have none : s.db.tx pid = none := by
      unfold Db.tx
      rw [idle]
      rfl
    have updates : ∀ id p, ∃ a db', s.db.updateRow s.host.now id p = some (a, db') := by
      intro id p
      unfold Db.updateRow
      rw [free]
      exact ⟨_, _, rfl⟩
    intro dbOp
    cases dbOp with
    | update id p => exact updates id p
    | resetForRetry mgr id =>
      cases mgr with
      | pool => exact updates id .resetForRetry
      | tx =>
        simp only [Db.exec, none]
        exact ⟨_, _, rfl⟩
    | deleteTerminalOlderThan cutoff =>
      have still : (s.db.transfers.any
          fun t => Db.purgeable cutoff t && s.db.locked Db.anyone t.id) = false := by
        simp [free]
      simp only [Db.exec, still]
      exact ⟨_, _, rfl⟩
    | setCurrentTenant tenantId =>
      simp only [Db.exec, none]
      exact ⟨_, _, rfl⟩
    | insertTransfer input =>
      simp only [Db.exec, none]
      exact ⟨_, _, rfl⟩
    | insertEvent aggregateId payload =>
      simp only [Db.exec, none]
      exact ⟨_, _, rfl⟩
    | commit =>
      simp only [Db.exec, none]
      exact ⟨_, _, rfl⟩
    | _ => exact ⟨_, _, rfl⟩
  have performs : ∃ a s', perform env pid c s op = some (a, s') := by
    cases op with
    | db dbOp =>
      obtain ⟨a, db', ran⟩ := runs dbOp
      exact ⟨a, { s with db := db' }, by simp only [perform, ran]⟩
    | _ => exact ⟨_, _, rfl⟩
  unfold exec
  split
  · exact performs
  · split
    · exact ⟨_, _, rfl⟩
    · exact performs

/-- A call that is no bracket opens no transaction. -/
theorem exec_stays_idle {s s' : State} {c : Choice} {a : Except Err op.Ans}
    (idle : s.db.openTxs = []) (plain : Unbracketed op) (h : exec env pid op c s = some (a, s')) :
    s'.db.openTxs = [] := by
  rcases exec_effect_db h with same | ⟨dbOp, rfl, effect⟩
  · rw [same]
    exact idle
  · have none : ∀ x, s.db.tx pid ≠ some x := fun x isOpen => by
      unfold Db.tx at isOpen
      rw [idle] at isOpen
      cases isOpen
    generalize s'.db = db' at effect
    cases effect with
    | began => exact plain.elim
    | rolledBack => exact plain.elim
    | committed y isOpen => exact plain.elim
    | tenantSet tenantId y isOpen => exact absurd isOpen (none y)
    | reset id y isOpen free => exact absurd isOpen (none y)
    | inserted input y isOpen newKey ownKey otherKey => exact absurd isOpen (none y)
    | recorded aggregateId payload y isOpen => exact absurd isOpen (none y)
    | _ => exact idle

theorem serve_stays_idle {mayReject : Op → Bool} (idle : x.state.db.openTxs = [])
    (plain : Unbracketed op) :
    (serve env pid mayReject x op).2.state.db.openTxs = [] :=
  serve_keeps (I := fun s => s.db.openTxs = []) idle fun _ _ _ step =>
    exec_stays_idle (s := (x.turns 0).before x.state) idle plain step

/-- Time passes and clients write their files. -/
theorem before_reach (turn : Turn) (w : SysWorld) :
    Reach (machine env) Unaided w ⟨turn.before w.store, w.threads, w.nextPid⟩ := by
  obtain ⟨elapsed, written, choice⟩ := turn
  induction written with
  | nil => exact .step .start trivial (a := .outside (.clock elapsed)) rfl
  | cons file written ih => exact .step ih trivial (a := .outside (.writeFile file.1 file.2)) rfl

/-- A turn of a call is a run of the machine. -/
theorem serve_reach {mayReject : Op → Bool} {l r : List SysThread} {task : Task} {n : Nat}
    (fresh : ∀ t ∈ l, t.pid ≠ pid) (idle : x.state.db.openTxs = [])
    (k : Except Err op.Ans → Async Reply) :
    Reach (machine env) Unaided ⟨x.state, l ++ ⟨pid, task, .await op k⟩ :: r, n⟩
      ⟨(serve env pid mayReject x op).2.state,
        l ++ ⟨pid, task, k (serve env pid mayReject x op).1⟩ :: r, n⟩ := by
  obtain ⟨a, s', step⟩ := exec_idle env pid op (s := (x.turns 0).before x.state) idle
    ((x.turns 0).choiceFor mayReject op)
  rw [serve_eq step]
  refine (before_reach (x.turns 0) _).trans
    (.step .start trivial (a := .resume pid ((x.turns 0).choiceFor mayReject op)) ?_)
  rw [Machine.step, focus_append (t := ⟨pid, task, .await op k⟩) fresh]
  simp only [machine, step]

end Serving

/-- A task that is served alone is a run of the machine. -/
theorem runTask_reach (env : Env) (pid n : Nat) {task : Task} {x : Solo}
    (plain : Task.unbracketed task = true) (idle : x.state.db.openTxs = []) :
    (runTask env pid task x).1.state.db.openTxs = [] ∧
      Reach (machine env) Unaided ⟨x.state, [⟨pid, task, code env task⟩], n⟩
        ⟨(runTask env pid task x).1.state, spawn (code env) n (runTask env pid task x).2,
          n + (runTask env pid task x).2.length⟩ := by
  obtain ⟨kept, path⟩ := run_reach (machine env) Unaided pid task n Solo.state
    (SoloRuns.serve env pid preparing) (I := fun y : Solo => y.state.db.openTxs = [])
      (P := CallOf task)
    (l := []) (r := []) (fun y op k still call =>
      ⟨serve_stays_idle still (callOf_unbracketed plain op call),
        serve_reach (fun _ none => by cases none) still k⟩)
    (code_within task) idle
  have ended :
      (machine env).step ⟨((code env task).run (SoloRuns.serve env pid preparing) x).2.state,
      [⟨pid, task, .done ((code env task).run (SoloRuns.serve env pid preparing) x).1⟩],
      n⟩ (.settle pid) =
      some ⟨(runTask env pid task x).1.state, spawn (code env) n (runTask env pid task x).2,
        n + (runTask env pid task x).2.length⟩ := by
    rw [Machine.step, focus, if_pos rfl]
    rfl
  refine ⟨?_, path.trans (.step .start (a := .settle pid) trivial ended)⟩
  change (finish env task _ _).1.db.openTxs = []
  rw [finish_db]
  exact kept

/-- The end of a task starts nothing, or the `failed` handler of its job. -/
theorem finish_starts (env : Env) (task : Task) (out : Except Err Reply) (s : State) :
    (finish env task out s).2 = [] ∨
    ∃ job err, (finish env task out s).2 = [.onFailed job err] := by
  unfold finish
  split
  · exact .inl rfl
  · exact .inl rfl
  · split
    · exact .inl rfl
    · exact .inr ⟨_, _, rfl⟩
  · exact .inl rfl

theorem own_unbracketed {q : Request} {s s' : State} {task : Task} (own : Request.own q = true)
    (entered : enter q s = some (s', task)) : Task.unbracketed task = true := by
  cases q with
  | relayTick replica =>
    cases entered
    rfl
  | sweepTick replica =>
    cases entered
    rfl
  | takeJob jobId =>
    simp only [enter, takeJob] at entered
    split at entered
    · cases entered
    · split at entered
      · cases entered
        rfl
      · cases entered
  | _ => cases own

/-- A request that is served alone is a run of the machine. -/
theorem request_reach (env : Env) {q : Request} {x : Rest} (own : Request.own q = true)
    (idle : x.solo.state.db.openTxs = []) :
    Reach (machine env) Unaided x.world (x.request env q).world := by
  unfold Rest.request
  split
  · exact .start
  rename_i s task entered
  have plain := own_unbracketed own entered
  have idle' : s.db.openTxs = [] := by
    rw [(enter_db entered).1]
    exact idle
  have start : (machine env).step x.world (.request q) =
      some ⟨s, [⟨x.nextPid, task, code env task⟩], x.nextPid + 1⟩ := by
    simp only [Machine.step, Rest.world, machine, entered]
    rfl
  obtain ⟨still, served⟩ := runTask_reach env x.nextPid (x.nextPid + 1)
    (x := ⟨s, x.solo.turns⟩) plain idle'
  have path := (Reach.step .start (a := .request q) own start).trans served
  rcases finish_starts env task
    ((code env task).run (SoloRuns.serve env x.nextPid preparing) ⟨s, x.solo.turns⟩).1
    ((code env task).run (SoloRuns.serve env x.nextPid preparing)
      ⟨s, x.solo.turns⟩).2.state with none | ⟨job, err, one⟩
  · have none' : (runTask env x.nextPid task ⟨s, x.solo.turns⟩).2 = [] := none
    rw [none'] at path
    simp only [Rest.serve, none', List.foldl_nil]
    exact path
  · have one' : (runTask env x.nextPid task ⟨s, x.solo.turns⟩).2 = [.onFailed job err] := one
    rw [one'] at path
    simp only [Rest.serve, one', List.foldl_cons, List.foldl_nil]
    have handled := (runTask_reach env (x.nextPid + 1) (x.nextPid + 1 + 1)
      (show Task.unbracketed (.onFailed job err) = true from rfl) still).2
    have none : (runTask env (x.nextPid + 1) (.onFailed job err)
        (runTask env x.nextPid task ⟨s, x.solo.turns⟩).1).2 = [] := rfl
    rw [none] at handled
    exact path.trans handled

/-- All threads are lost: the tables and the queues stay as they are. -/
theorem restart_reach (env : Env) (w : SysWorld) :
    ∃ s, Reach (machine env) Loses w ⟨s, [], w.nextPid⟩ ∧
    s.db.transfers = w.store.db.transfers ∧ s.db.outbox = w.store.db.outbox ∧
    s.queues = w.store.queues := by
  obtain ⟨store, threads, n⟩ := w
  induction threads generalizing store with
  | nil => exact ⟨store, .start, rfl, rfl, rfl⟩
  | cons t ts ih =>
    obtain ⟨s, path, rows, outbox, queues⟩ := ih (drop t.pid t.task store)
    have lost : (machine env).step ⟨store, t :: ts, n⟩ (.crash t.pid) =
        some ⟨drop t.pid t.task store, ts, n⟩ := by
      rw [Machine.step, focus, if_pos rfl]
      rfl
    exact ⟨s, (Reach.step .start ⟨t.pid, rfl⟩ lost).trans path, rows, outbox, queues⟩

/-- What is known of a system at rest that was reached from a fresh installation. -/
structure Resting (env : Env) (w₀ : SysWorld) (x : Rest) : Prop where
  start : Initial w₀
  path : Reach (machine env) anyStep w₀ x.world

section Known
variable {env : Env} {w₀ : SysWorld} {x y : Rest}

theorem Resting.idle (h : Resting env w₀ x) : x.solo.state.db.openTxs = [] :=
  openTxs_at_rest h.start h.path rfl

theorem Resting.consistent (h : Resting env w₀ x) : Consistent x.solo.state.db :=
  h.path.invariant (I := fun w => Consistent w.store.db) (initial_consistent h.start)
    fun w w' a _ _ move before => by
    cases Machine.step_move move with
    | request s task entered eq => exact eq ▸ (enter_db entered).1.symm ▸ before
    | resume l r t op k b s found at_call answered eq =>
      exact eq ▸ Footprints.exec_consistent answered before
    | settle l r t out found ended eq => exact eq ▸ (finish_db env t.task out w.store).symm ▸ before
    | crash l r t found eq => exact eq ▸ dropTx_consistent before _
    | outside s happened eq => exact eq ▸ (outside_db happened).symm ▸ before

theorem Resting.listed (h : Resting env w₀ x) : Listed x.solo.state :=
  h.path.invariant (I := fun w => Listed w.store) (by simp [Listed, h.start.jobs])
    fun w w' a _ _ move before => by
    cases Machine.step_move move with
    | request s task entered eq => exact eq ▸ enter_listed before entered
    | resume l r t op k b s found at_call answered eq => exact eq ▸ exec_listed before answered
    | settle l r t out found ended eq => exact eq ▸ finish_listed env t.task out before
    | crash l r t found eq => exact eq ▸ before
    | outside s happened eq => exact eq ▸ outside_listed before happened

theorem Resting.onward (h : Resting env w₀ x) (path : Reach (machine env) Unaided x.world y.world) :
    Resting env w₀ y :=
  ⟨h.start, h.path.trans (path.weaken fun _ _ _ => trivial)⟩

theorem Resting.request (h : Resting env w₀ x) {q : Request} (own : Request.own q = true) :
    Resting env w₀ (x.request env q) :=
  h.onward (request_reach env own h.idle)

end Known

end RestingRuns
