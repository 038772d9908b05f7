import SyncBridge.RoleEnforcement
import SyncBridge.TenantIsolation

/-!
# Requests of one tenant

A request of a user who is no administrator and whose tenant has a name stays within
that tenant, whatever other requests, workers and timers do between its calls. It
changes no row and no subscription of another tenant and queues no job for one, and its
reply shows rows, subscriptions and usage of the caller's tenant only. The row-level
policy does this for the transfers, in the transaction of the request; the
subscriptions and the usage are asked for by tenant, and what was looked up keeps its
owner until the request acts on it.
-/

namespace TenantConfinement

open AwaitPrograms CombinedCalls ThreadPools GrowingKnowledge NodeCrypto Entities Database
open TableInvariants Calls Ingestion Management Orchestrator Footprints Outbound Accounts Gateway
open TenantIsolation
open EventPrivacy (know)

/-- The columns of a row by which it is told apart; no update writes them. -/
def label (t : FileTransfer) : ℕ × String × String := (t.id, t.tenantId, t.filename)

theorem kept_label : Kept label := by
  intro now t p
  cases p <;> rfl

/-- The row was inserted for its tenant and under its name. -/
def Recorded (db : Db) (t : FileTransfer) : Prop := ∃ row ∈ db.inserted, label row = label t

/-! ## What a request knows and may do -/

/-- The transaction of the request: none, one without a tenant, or the tenant's, before and
after its first update. -/
inductive Scope where
  | outside
  | opened
  | fresh
  | inside

def Scope.Within : Scope → Prop
  | .fresh => True
  | .inside => True
  | _ => False

/-- The rows and subscriptions a request has been shown so far. -/
structure Seen where
  scope : Scope
  rows : List FileTransfer
  subs : List ℕ

def Seen.start : Seen := ⟨.outside, [], []⟩

def Mays (tenant : String) (seen : Seen) : AppOp → Prop
  | .inl (.inl (.db (.findOne mgr _))) => mgr = .tx ∧ seen.scope.Within
  | .inl (.inl (.db (.findAndCount mgr _ _ _))) => mgr = .tx ∧ seen.scope = .fresh
  | .inl (.inl (.db (.findForRetry mgr _ _ _))) => mgr = .tx ∧ seen.scope.Within
  | .inl (.inl (.db (.resetForRetry mgr _))) => mgr = .tx ∧ seen.scope.Within
  | .inl (.inl (.db .begin)) => True
  | .inl (.inl (.db (.setCurrentTenant name))) => name = tenant ∧ seen.scope = .opened
  | .inl (.inl (.db .commit)) => seen.scope.Within
  | .inl (.inl (.db .rollback)) => True
  | .inl (.inl (.db (.findUsage name))) => name = tenant
  | .inl (.inl (.store (.getObject _ _))) => True
  | .inl (.inl (.queue (.addTransfer data _))) => ∃ t ∈ seen.rows, t.id = data.transferId
  | .inl (.inr (.saveSubscription name _ _ _)) => name = tenant
  | .inl (.inr (.findSubscription _ name)) => name = tenant
  | .inl (.inr (.listSubscriptions name)) => name = tenant
  | .inl (.inr (.deleteSubscription id)) => id ∈ seen.subs
  | .inl (.inr .randomSecret) => True
  | _ => False

def hear (seen : Seen) : (op : AppOp) → Except Err (AppAns op) → Seen
  | .inl (.inl (.db .begin)), .ok _ => { seen with scope := .opened }
  | .inl (.inl (.db (.setCurrentTenant _))), .ok _ => { seen with scope := .fresh }
  | .inl (.inl (.db (.resetForRetry _ _))), .ok _ => { seen with scope := .inside }
  | .inl (.inl (.db .commit)), .ok _ => { seen with scope := .outside }
  | .inl (.inl (.db .rollback)), _ => { seen with scope := .outside }
  | .inl (.inl (.db (.findOne _ _))), .ok (some t) => { seen with rows := t :: seen.rows }
  | .inl (.inl (.db (.findAndCount _ _ _ _))), .ok (found, _) =>
    { seen with rows := found ++ seen.rows }
  | .inl (.inl (.db (.findForRetry _ _ _ _))), .ok found => { seen with rows := found ++ seen.rows }
  | .inl (.inr (.findSubscription id _)), .ok (some _) => { seen with subs := id :: seen.subs }
  | _, _ => seen

/-- What the answers say by themselves. -/
def Truthful (tenant : String) : (op : AppOp) → Except Err (AppAns op) → Prop
  | .inl (.inl (.db (.findOne _ id))), .ok found => ∀ t, found = some t → t.id = id
  | .inl (.inr (.saveSubscription _ _ _ _)), .ok sub => sub.tenantId = tenant
  | .inl (.inr (.listSubscriptions _)), .ok subs => ∀ sub ∈ subs, sub.tenantId = tenant
  | _, _ => True

def confine (tenant : String) : Monitor AppOp AppAns Err Seen where
  may := Mays tenant
  next seen op a seen' := seen' = hear seen op a ∧ Truthful tenant op a

/-- The reply shows what the request has seen; a single row is the one asked for. A user,
a token or the outcome of an upload is never the reply of a route that a tenant's user
reaches by role. -/
def Reveals {L : Library} (tenant : String) (route : Route) (seen : Seen) : ReplyBody L → Prop
  | .none => True
  | .error _ => True
  | .outcome _ => False
  | .login _ => False
  | .user _ => False
  | .page p => ∀ t ∈ p.items, t ∈ seen.rows
  | .transfer t => t ∈ seen.rows ∧ route.idParam = some (some t.id)
  | .file _ d => ∃ t ∈ seen.rows, route.idParam = some (some t.id) ∧ t.filename = d.filename
  | .requeued r => ∀ id ∈ r.ids, ∃ t ∈ seen.rows, t.id = id
  | .subscription sub => sub.tenantId = tenant
  | .subscriptions subs => ∀ sub ∈ subs, sub.tenantId = tenant
  | .usage u => u.tenantId = tenant

/-! ## One call -/

def InScope (tenant : String) (pid : ℕ) (db : Db) : Scope → Prop
  | .outside => True
  | .opened => ∃ x, db.tx pid = some x ∧ x.writes = []
  | .fresh => ∃ x, db.tx pid = some x ∧ x.currentTenant = some tenant ∧ x.writes = []
  | .inside => ∃ x, db.tx pid = some x ∧ Confined tenant x

theorem InScope.confined {tenant : String} {pid : ℕ} {db : Db} {scope : Scope}
    (h : InScope tenant pid db scope) (within : scope.Within) :
    ∃ x, db.tx pid = some x ∧ Confined tenant x := by
  cases scope with
  | fresh =>
    obtain ⟨x, isOpen, current, unwritten⟩ := h
    exact ⟨x, isOpen, current, fun w hw => by rw [unwritten] at hw; cases hw⟩
  | inside => exact h
  | _ => exact within.elim

/-- What a request has seen is so: its transaction, the rows and the subscriptions. -/
structure Linked (tenant : String) (pid : ℕ) (s : OutState) (seen : Seen) : Prop where
  scope : InScope tenant pid s.core.db seen.scope
  rows : ∀ t ∈ seen.rows, t.tenantId = tenant ∧ Recorded s.core.db t
  subs : ∀ id ∈ seen.subs, know s (.owned id tenant)

/-- Every row has its record, and subscriptions are told apart by their numbers. -/
structure Orderly (s : OutState) : Prop where
  recorded : ∀ t ∈ s.core.db.transfers, Recorded s.core.db t
  distinct : (s.core.db.subscriptions.map (·.id)).Nodup
  below : ∀ sub ∈ s.core.db.subscriptions, sub.id < s.core.db.nextId

theorem Orderly.same {s s' : OutState} (h : Orderly s) (db : s'.core.db = s.core.db) :
    Orderly s' := by
  constructor
  · rw [db]
    exact h.recorded
  · rw [db]
    exact h.distinct
  · rw [db]
    exact h.below

def foreignSub (tenant : String) (sub : EventSubscription) : Bool := sub.tenantId ≠ tenant

/-- Everything that is not the tenant's is as before; new jobs are for transfers of the
tenant. -/
structure Apart (tenant : String) (s s' : OutState) : Prop where
  rows : s'.core.db.transfers.filter (foreign tenant) = s.core.db.transfers.filter (foreign tenant)
  subscriptions : s'.core.db.subscriptions.filter (foreignSub tenant) =
    s.core.db.subscriptions.filter (foreignSub tenant)
  outbox : s'.core.db.outbox = s.core.db.outbox
  usage : s'.core.db.usage = s.core.db.usage
  jobs : ∃ added, s'.core.queues.jobs = s.core.queues.jobs ++ added ∧ ∀ job ∈ added,
    ∃ row ∈ s.core.db.inserted, row.id = job.data.transferId ∧ row.tenantId = tenant
  deadLetters : s'.core.queues.deadLetters = s.core.queues.deadLetters
  deliveries : s'.core.queues.deliveries = s.core.queues.deliveries
  kafka : s'.core.kafka = s.core.kafka
  objects : s'.core.store = s.core.store
  sent : s'.sent = s.sent

theorem Apart.refl (tenant : String) (s : OutState) : Apart tenant s s :=
  ⟨rfl, rfl, rfl, rfl, ⟨[], by simp, by simp⟩, rfl, rfl, rfl, rfl, rfl⟩

section Statements
variable {tenant : String} {pid now : ℕ} {db db' : Db} {seen : Seen}

theorem confined_rows {x : Tx} (h : Confined tenant x) : x.rows = [] := by
  unfold Tx.rows
  rw [List.filterMap_eq_nil_iff]
  intro w hw
  obtain ⟨id, rfl⟩ := h.writes w hw
  rfl

/-- The policy shows the tenant's rows, which were inserted for it. -/
theorem visible_own (named : tenant ≠ "") (recorded : ∀ t ∈ db.transfers, Recorded db t)
    {scope : Scope} (inScope : InScope tenant pid db scope) (within : scope.Within)
    {t : FileTransfer} (ht : t ∈ db.rows pid .tx) : t.tenantId = tenant ∧ Recorded db t := by
  obtain ⟨x, isOpen, confined⟩ := inScope.confined within
  rw [Db.rows, isOpen] at ht
  obtain ⟨seen, allowed⟩ := List.mem_filter.mp ht
  rw [confined.tenant, tenantIsolation_own named] at allowed
  refine ⟨by simpa [own] using allowed, ?_⟩
  have column := List.mem_map_of_mem (f := label) seen
  rw [applyWrites_map kept_label, confined_rows confined, List.map_nil, List.append_nil] at column
  obtain ⟨t₀, ht₀, same⟩ := List.mem_map.mp column
  obtain ⟨row, hrow, recorded⟩ := recorded t₀ ht₀
  exact ⟨row, hrow, recorded.trans same⟩

/-- What a statement of the request leaves of the tables. -/
structure Spares (tenant : String) (db db' : Db) : Prop where
  rows : db'.transfers.filter (foreign tenant) = db.transfers.filter (foreign tenant)
  outbox : db'.outbox = db.outbox
  usage : db'.usage = db.usage
  subscriptions : db'.subscriptions = db.subscriptions

theorem Spares.refl (tenant : String) (db : Db) : Spares tenant db db := ⟨rfl, rfl, rfl, rfl⟩

/-- A statement of the request, in terms of what it adds to the rows seen. -/
theorem db_step {op : DbOp} {a : Except Err op.Ans} (named : tenant ≠ "")
    (recorded : ∀ t ∈ db.transfers, Recorded db t) (may : Mays tenant seen (.inl (.inl (.db op))))
    (scope : InScope tenant pid db seen.scope) (ran : db.exec now pid op = some (a, db')) :
    Spares tenant db db' ∧ InScope tenant pid db' (hear seen (.inl (.inl (.db op))) a).scope ∧
    (∀ t ∈ (hear seen (.inl (.inl (.db op))) a).rows, t ∈ seen.rows ∨ t.tenantId = tenant ∧
      Recorded db t) ∧
    Truthful tenant (.inl (.inl (.db op))) a := by
  have old : ∀ t ∈ seen.rows, t ∈ seen.rows ∨ t.tenantId = tenant ∧ Recorded db t :=
    fun t ht => .inl ht
  cases op with
  | findOne mgr id =>
    obtain ⟨rfl, within⟩ := may
    cases ran
    cases found : (db.rows pid .tx).find? fun t => t.id = id with
    | none => exact ⟨.refl _ _, scope, old, fun _ none => by cases none⟩
    | some t =>
      refine ⟨.refl _ _, scope, ?_, ?_⟩
      · intro t' ht
        rcases List.mem_cons.mp ht with rfl | ht
        · exact .inr (visible_own named recorded scope within (List.mem_of_find?_eq_some found))
        · exact .inl ht
      · intro t' same
        cases same
        simpa using List.find?_some found
  | findAndCount mgr status limit offset =>
    obtain ⟨rfl, fresh⟩ := may
    have within : seen.scope.Within := by rw [fresh]; trivial
    cases ran
    refine ⟨.refl _ _, scope, ?_, trivial⟩
    intro t ht
    rcases List.mem_append.mp ht with ht | ht
    · have listed := List.mem_of_mem_drop (List.mem_of_mem_take ht)
      rw [orderByDesc, List.mem_insertionSort] at listed
      exact .inr (visible_own named recorded scope within (List.mem_filter.mp listed).1)
    · exact .inl ht
  | findForRetry mgr status before limit =>
    obtain ⟨rfl, within⟩ := may
    cases ran
    refine ⟨.refl _ _, scope, ?_, trivial⟩
    intro t ht
    rcases List.mem_append.mp ht with ht | ht
    · exact .inr (visible_own named recorded scope within
        (List.mem_filter.mp (mem_orderBy_take ht)).1)
    · exact .inl ht
  | resetForRetry mgr id =>
    obtain ⟨rfl, within⟩ := may
    obtain ⟨x, isOpen, confined⟩ := scope.confined within
    simp only [Db.exec, isOpen] at ran
    split at ran
    · split at ran
      · cases ran
      · cases ran
        refine ⟨⟨rfl, rfl, rfl, rfl⟩, ⟨_, tx_setTx _ _ _, confined.tenant, ?_⟩, old, trivial⟩
        intro w hw
        rcases List.mem_append.mp hw with hw | hw
        · exact confined.writes w hw
        · exact ⟨id, List.mem_singleton.mp hw⟩
    · cases ran
      exact ⟨.refl _ _, ⟨x, isOpen, confined⟩, old, trivial⟩
  | begin =>
    cases ran
    exact ⟨⟨rfl, rfl, rfl, rfl⟩, ⟨_, tx_setTx _ _ _, rfl⟩, old, trivial⟩
  | setCurrentTenant name =>
    obtain ⟨rfl, opened⟩ := may
    rw [opened] at scope
    obtain ⟨x, isOpen, blank⟩ := scope
    simp only [Db.exec, isOpen] at ran
    cases ran
    exact ⟨⟨rfl, rfl, rfl, rfl⟩, ⟨_, tx_setTx _ _ _, rfl, blank⟩, old, trivial⟩
  | commit =>
    obtain ⟨x, isOpen, confined⟩ := scope.confined may
    simp only [Db.exec, isOpen] at ran
    cases ran
    rw [applyWrites_confined confined.writes]
    exact ⟨⟨rewrite_foreign named confined _, rfl, rfl, rfl⟩, trivial, old, trivial⟩
  | rollback =>
    cases ran
    exact ⟨⟨rfl, rfl, rfl, rfl⟩, trivial, old, trivial⟩
  | findUsage name =>
    cases ran
    exact ⟨.refl _ _, scope, old, trivial⟩
  | _ => exact may.elim

end Statements

section Steps
variable {env : AppEnv} {tenant : String} {pid : ℕ} {seen : Seen}

/-- What was recorded stays recorded, and numbers keep their owner. -/
structure Later (s s' : OutState) : Prop where
  inserted : s.core.db.inserted <+: s'.core.db.inserted
  owned : ∀ id tenant, know s (.owned id tenant) → know s' (.owned id tenant)

theorem Later.same {s s' : OutState} (inserted : s'.core.db.inserted = s.core.db.inserted)
    (subscriptions : s'.core.db.subscriptions = s.core.db.subscriptions)
    (next : s'.core.db.nextId = s.core.db.nextId) : Later s s' := by
  constructor
  · rw [inserted]
  · intro id tenant owned
    simpa only [know, subscriptions, next] using owned

theorem Later.of_db {s s' : OutState} (same : s'.core.db = s.core.db) : Later s s' :=
  .same (by rw [same]) (by rw [same]) (by rw [same])

theorem Recorded.later {s s' : OutState} {t : FileTransfer} (h : Recorded s.core.db t)
    (later : Later s s') :
    Recorded s'.core.db t := by
  obtain ⟨row, hrow, same⟩ := h
  exact ⟨row, later.inserted.subset hrow, same⟩

theorem Linked.later {s s' : OutState} (h : Linked tenant pid s seen) (later : Later s s')
    (tx : s'.core.db.tx pid = s.core.db.tx pid) : Linked tenant pid s' seen := by
  constructor
  · have scope := h.scope
    unfold InScope at scope ⊢
    rw [tx]
    exact scope
  · exact fun t ht => ⟨(h.rows t ht).1, (h.rows t ht).2.later later⟩
  · exact fun id hid => later.owned id tenant (h.subs id hid)

/-- Calls of the orchestrator keep the records. -/
theorem core_later {env : Env} {op : Op} {c : Choice} {a : Except Err op.Ans} {s : OutState}
    {core : State} (h : Orderly s) (ran : exec env pid op c s.core = some (a, core)) :
    Orderly { s with core := core } ∧ Later s { s with core := core } := by
  have logs := Announcements.exec_extends ran
  rcases exec_effect_db ran with same | ⟨dbOp, rfl, effect⟩
  · exact ⟨h.same same, .of_db same⟩
  · obtain ⟨next, inserted⟩ := EventPrivacy.effect_history effect
    have prefixed : s.core.db.inserted <+: core.db.inserted := by
      rcases inserted with same | ⟨x, -, same⟩
      · rw [same]
      · rw [same]
        exact List.prefix_append _ _
    refine ⟨⟨EventPrivacy.effect_committed kept_label effect h.recorded, ?_, ?_⟩, prefixed, ?_⟩
    · rw [logs.subscriptions]
      exact h.distinct
    · rw [logs.subscriptions]
      exact fun sub hsub => Nat.lt_of_lt_of_le (h.below sub hsub) next
    · exact fun id tenant owned => EventPrivacy.know_core core logs next prefixed _ owned

/-- Subscriptions come and go under numbers of their own. -/
theorem net_later {env : OutEnv} {op : NetOp} {c : OutChoice} {a : Except Err op.Ans}
    {s s' : OutState} (h : Orderly s) (ran : execOut env pid (.inr op) c s = some (a, s')) :
    Orderly s' ∧ Later s s' := by
  rcases EventPrivacy.net_cases ran with done | ⟨name, message, rejected⟩
  · cases op with
    | saveSubscription name url events secret =>
      simp only [execNet] at done
      split at done
      · cases done
        refine ⟨⟨h.recorded, ?_, ?_⟩, List.prefix_rfl, ?_⟩
        · rw [List.map_append, List.nodup_append]
          refine ⟨h.distinct, by simp, ?_⟩
          intro id old id' new
          obtain ⟨sub, hsub, rfl⟩ := List.mem_map.mp old
          rw [List.map_singleton, List.mem_singleton] at new
          rw [new]
          exact Nat.ne_of_lt (h.below sub hsub)
        · intro sub hsub
          rcases List.mem_append.mp hsub with old | new
          · exact Nat.lt_succ_of_lt (h.below sub old)
          · rw [List.mem_singleton.mp new]
            exact Nat.lt_succ_self _
        · intro id tenant owned
          refine ⟨Nat.lt_succ_of_lt owned.1, ?_⟩
          intro sub hsub same
          rcases List.mem_append.mp hsub with old | new
          · exact owned.2 sub old same
          · rw [List.mem_singleton.mp new] at same
            exact absurd same (Nat.ne_of_gt owned.1)
      · cases done
        exact ⟨h, .of_db rfl⟩
    | deleteSubscription id =>
      cases done
      refine ⟨⟨h.recorded, h.distinct.sublist (List.filter_sublist.map _), ?_⟩, List.prefix_rfl, ?_⟩
      · exact fun sub hsub => h.below sub (List.mem_filter.mp hsub).1
      · exact fun id tenant owned =>
          ⟨owned.1, fun sub hsub => owned.2 sub (List.mem_filter.mp hsub).1⟩
    | findSubscription id name =>
      cases done
      exact ⟨h, .of_db rfl⟩
    | listSubscriptions name =>
      cases done
      exact ⟨h, .of_db rfl⟩
    | randomSecret =>
      cases done
      exact ⟨h, .of_db rfl⟩
    | fetch request origin =>
      cases done
      exact ⟨⟨h.recorded, h.distinct, h.below⟩, .of_db rfl⟩
  · have same : s'.core = s.core := by cases op <;> cases rejected <;> rfl
    exact ⟨h.same (by rw [same]), .of_db (by rw [same])⟩

theorem app_later {op : AppOp} {c : AppChoice} {a : Except Err (AppAns op)} {s s' : AppState}
    (h : Orderly s.out) (ran : execApp env pid op c s = some (a, s')) :
    Orderly s'.out ∧ Later s.out s'.out := by
  cases op with
  | inl op =>
    obtain ⟨out, inner, rfl⟩ := RoleEnforcement.out_cases ran
    cases op with
    | inl op =>
      obtain ⟨core, inner', rfl⟩ := EventPrivacy.core_cases inner
      exact core_later h inner'
    | inr op => exact net_later h inner
  | inr op =>
    obtain ⟨accounts, -, rfl⟩ := RoleEnforcement.account_cases pid ran
    exact ⟨h, .of_db rfl⟩

/-- A call to the orchestrator by a request of the tenant. -/
theorem core_step {env : Env} {op : Op} {c : Choice} {a : Except Err op.Ans} {s : OutState}
    {core : State} (named : tenant ≠ "") (h : Orderly s) (linked : Linked tenant pid s seen)
    (may : Mays tenant seen (.inl (.inl op))) (ran : exec env pid op c s.core = some (a, core)) :
    Apart tenant s { s with core := core } ∧
    Linked tenant pid { s with core := core } (hear seen (.inl (.inl op)) a) ∧
      Truthful tenant (.inl (.inl op)) a := by
  have later := (core_later h ran).2
  have heard (same : core.db.tx pid = s.core.db.tx pid) :
      Linked tenant pid { s with core := core } seen :=
    linked.later later same
  cases op with
  | db op =>
    rcases exec_db ran with ⟨name, message, rfl, rfl⟩ | ⟨db', read, rfl⟩
    · refine ⟨.refl _ _, ?_, ?_⟩
      · cases op with
        | rollback => exact ⟨trivial, linked.rows, linked.subs⟩
        | _ => exact linked
      · cases op <;> trivial
    · obtain ⟨spares, scope, rows, truthful⟩ := db_step named h.recorded may linked.scope read
      refine ⟨?_, ⟨scope, ?_, ?_⟩, truthful⟩
      · exact ⟨spares.rows, by rw [spares.subscriptions], spares.outbox, spares.usage,
          ⟨[], by simp, by simp⟩,
          rfl, rfl, rfl, rfl, rfl⟩
      · intro t ht
        rcases rows t ht with old | ⟨own, recorded⟩
        · exact ⟨(linked.rows t old).1, (linked.rows t old).2.later later⟩
        · exact ⟨own, recorded.later later⟩
      · have same : (hear seen (.inl (.inl (.db op))) a).subs = seen.subs := by
          unfold hear
          split <;> first | rfl | (rename_i other _; cases other)
        rw [same]
        exact fun id hid => later.owned id tenant (linked.subs id hid)
  | queue q =>
    cases q with
    | addTransfer data attempts =>
      obtain ⟨t, ht, same⟩ := may
      obtain ⟨own, row, hrow, recorded⟩ := linked.rows t ht
      rcases exec_cases ran with ⟨_, _, rfl, rfl⟩ | performed
      · exact ⟨.refl _ _, linked, trivial⟩
      · cases performed
        refine ⟨⟨rfl, rfl, rfl, rfl, ⟨_, rfl, ?_⟩, rfl, rfl, rfl, rfl, rfl⟩, heard rfl, trivial⟩
        intro job hjob
        rw [List.mem_singleton.mp hjob]
        obtain ⟨hid, htenant, -⟩ := Prod.mk.inj recorded |>.imp_right Prod.mk.inj
        exact ⟨row, hrow, hid.trans same, htenant.trans own⟩
    | _ => exact may.elim
  | store op =>
    cases op with
    | getObject bucket key =>
      have same : core = s.core := by
        rcases exec_cases ran with ⟨_, _, _, rfl⟩ | performed
        · rfl
        · simp only [perform, execStore] at performed
          split at performed <;> cases performed <;> rfl
      subst same
      exact ⟨.refl _ _, linked, trivial⟩
    | _ => exact may.elim
  | _ => exact may.elim

end Steps

section Requests
variable {env : AppEnv} {tenant : String} {pid : ℕ} {seen : Seen}

/-- The lookup in the tenant has shown who owns the number. -/
theorem found_owned {s : OutState} (h : Orderly s) {id : ℕ} {sub : EventSubscription}
    (found : (s.core.db.subscriptions.find? fun x => x.id = id && x.tenantId = tenant) = some sub) :
    know s (.owned id tenant) := by
  have stored := List.mem_of_find?_eq_some found
  have same : sub.id = id ∧ sub.tenantId = tenant := by simpa using List.find?_some found
  refine ⟨same.1 ▸ h.below sub stored, ?_⟩
  intro other hother number
  rw [List.inj_on_of_nodup_map h.distinct hother stored (number.trans same.1.symm)]
  exact same.2

/-- A call to the subscriptions by a request of the tenant. -/
theorem net_step {env : OutEnv} {op : NetOp} {c : OutChoice} {a : Except Err op.Ans}
    {s s' : OutState} (h : Orderly s) (linked : Linked tenant pid s seen)
    (may : Mays tenant seen (.inl (.inr op))) (ran : execOut env pid (.inr op) c s = some (a, s')) :
    Apart tenant s s' ∧ Linked tenant pid s' (hear seen (.inl (.inr op)) a) ∧
    Truthful tenant (.inl (.inr op)) a := by
  have later := (net_later h ran).2
  rcases EventPrivacy.net_cases ran with done | ⟨name, message, rejected⟩
  · cases op with
    | saveSubscription name url events secret =>
      have own : name = tenant := may
      subst own
      simp only [execNet] at done
      split at done
      · cases done
        refine ⟨⟨rfl, ?_, rfl, rfl, ⟨[], by simp, by simp⟩, rfl, rfl, rfl, rfl, rfl⟩,
          linked.later later rfl, rfl⟩
        simp [foreignSub]
      · cases done
        exact ⟨.refl _ _, linked, trivial⟩
    | findSubscription id name =>
      have own : name = tenant := may
      subst own
      cases done
      refine ⟨.refl _ _, ?_, trivial⟩
      cases found : s.core.db.subscriptions.find? fun x => x.id = id && x.tenantId = name with
      | none => exact linked
      | some sub =>
        refine ⟨linked.scope, linked.rows, ?_⟩
        intro id' hid
        rcases List.mem_cons.mp hid with rfl | hid
        · exact found_owned h found
        · exact linked.subs id' hid
    | listSubscriptions name =>
      have own : name = tenant := may
      subst own
      cases done
      refine ⟨.refl _ _, linked, ?_⟩
      intro sub hsub
      simpa using (List.mem_filter.mp (List.mem_reverse.mp hsub)).2
    | deleteSubscription id =>
      cases done
      refine ⟨⟨rfl, ?_, rfl, rfl, ⟨[], by simp, by simp⟩, rfl, rfl, rfl, rfl, rfl⟩,
        linked.later later rfl, trivial⟩
      show (s.core.db.subscriptions.filter _).filter _ = _
      rw [List.filter_filter]
      refine List.filter_congr fun sub hsub => ?_
      by_cases number : sub.id = id
      · have own := (linked.subs id may).2 sub hsub number
        simp [foreignSub, own]
      · simp [number]
    | randomSecret =>
      cases done
      exact ⟨.refl _ _, linked, trivial⟩
    | fetch request origin => exact may.elim
  · cases op with
    | fetch request origin => exact may.elim
    | _ =>
      cases rejected
      exact ⟨.refl _ _, linked, trivial⟩

/-- One call of a request of the tenant. -/
theorem request_step {op : AppOp} {c : AppChoice} {a : Except Err (AppAns op)} {s s' : AppState}
    (named : tenant ≠ "") (h : Orderly s.out) (linked : Linked tenant pid s.out seen)
    (may : Mays tenant seen op) (ran : execApp env pid op c s = some (a, s')) :
    Apart tenant s.out s'.out ∧ Linked tenant pid s'.out (hear seen op a) ∧
    Truthful tenant op a := by
  cases op with
  | inl op =>
    obtain ⟨out, inner, rfl⟩ := RoleEnforcement.out_cases ran
    cases op with
    | inl op =>
      obtain ⟨core, inner', rfl⟩ := EventPrivacy.core_cases inner
      exact core_step named h linked may inner'
    | inr op => exact net_step h linked may inner
  | inr op => exact may.elim

end Requests

/-! ## Handlers -/

/-- The observer as the services of the orchestrator see it. -/
def coreConfine (tenant : String) : Monitor Op Op.Ans Err Seen := leftOf (leftOf (confine tenant))

theorem within_fresh {scope : Scope} (h : scope = .fresh) : scope.Within := by
  rw [h]
  trivial

/-- At the end the request is outside its transaction, and a value is justified. -/
def Ends {α : Type} (q : Seen → α → Prop) (seen : Seen) (r : Except Err α) : Prop :=
  ∀ a, r = .ok a → seen.scope = .outside ∧ q seen a

section Handlers
variable {env : Env} {user : AuthUser} {seen : Seen}

theorem ends_error {α : Type} {q : Seen → α → Prop} {e : Err} : Ends q seen (.error e) := by
  intro a same
  cases same

/-- Work in the transaction of the tenant. What it justifies may not depend on the
transaction itself. -/
theorem scopedTo_confined {α : Type} {work : Manager → Async α} {q : Seen → α → Prop}
    (plain : Role.admin ∉ user.roles)
    (stays : ∀ seen scope a, q seen a → q { seen with scope := scope } a)
    (h : ∀ seen, seen.scope = .fresh → Obeys (coreConfine user.tenantId)
      (fun seen' r => ∀ a, r = .ok a → seen'.scope.Within ∧
        q seen' a) seen (work .tx)) (seen : Seen) :
    Obeys (coreConfine user.tenantId) (Ends q) seen (scopedTo user work) := by
  unfold scopedTo
  rw [if_neg plain]
  refine obeys_call trivial ?_ fun _ _ _ => ends_error
  rintro - seen' ⟨rfl, -⟩
  refine Obeys.orElse (q := Ends q) ?_ (fun _ _ ended => ended) ?_
  · refine Obeys.andThen (q := fun seen' r => ∀ a, r = .ok a → seen'.scope.Within ∧ q seen' a) ?_ ?_
      fun _ _ _ => ends_error
    · refine obeys_call ⟨rfl, rfl⟩ ?_ fun _ _ _ _ same => by cases same
      rintro - seen'' ⟨rfl, -⟩
      exact h _ rfl
    · intro seen' a done
      obtain ⟨inside, justified⟩ := done a rfl
      refine obeys_call inside ?_ fun _ _ _ => ends_error
      rintro - seen'' ⟨rfl, -⟩
      intro a' same
      cases same
      exact ⟨rfl, stays _ _ _ justified⟩
  · intro _ e _
    exact obeys_call trivial (fun _ _ _ => ends_error) fun _ _ _ => ends_error

/-- A row that is found is seen. -/
theorem findOne_confined (id : ℕ) {seen : Seen} (inside : seen.scope.Within) :
    Obeys (coreConfine user.tenantId) (fun seen' r => ∀ found, r = .ok found → seen'.scope.Within ∧
      ∀ t, found = some t → t ∈ seen'.rows ∧ t.id = id) seen (db (.findOne .tx id)) := by
  refine ⟨⟨rfl, inside⟩, ?_⟩
  rintro r seen' ⟨rfl, truthful⟩ found same
  cases same
  cases found with
  | none => exact ⟨inside, fun t none => by cases none⟩
  | some t =>
    refine ⟨inside, ?_⟩
    intro t' same
    cases same
    exact ⟨List.mem_cons_self, truthful t rfl⟩

theorem list_confined (plain : Role.admin ∉ user.roles) (query : ListTransfersQueryDto)
    (seen : Seen) :
    Obeys (coreConfine user.tenantId) (Ends fun seen p => ∀ t ∈ p.items, t ∈ seen.rows) seen
      (Management.list query user) := by
  refine scopedTo_confined plain (fun _ _ _ h => h) ?_ seen
  intro seen fresh
  refine obeys_call ⟨rfl, fresh⟩ ?_ fun _ _ _ _ same => by cases same
  rintro ⟨found, total⟩ seen' ⟨rfl, -⟩
  intro p same
  cases same
  exact ⟨within_fresh fresh, fun t ht => List.mem_append_left _ ht⟩

theorem getById_confined (plain : Role.admin ∉ user.roles) (id : ℕ) (seen : Seen) :
    Obeys (coreConfine user.tenantId) (Ends fun seen t => t ∈ seen.rows ∧ t.id = id) seen
      (Management.getById id user) := by
  refine (scopedTo_confined (q := fun seen found => ∀ t, found = some t →
    t ∈ seen.rows ∧ t.id = id) plain
    (fun _ _ _ h => h) (fun _ fresh => findOne_confined id (within_fresh fresh)) seen).andThen ?_
      fun _ _ _ => ends_error
  intro seen' found ended
  obtain ⟨outside, shown⟩ := ended found rfl
  cases found with
  | none => exact ends_error
  | some t =>
    intro t' same
    cases same
    exact ⟨outside, shown t rfl⟩

end Handlers

section Handlers
variable {env : Env} {user : AuthUser}

theorem download_confined (plain : Role.admin ∉ user.roles) (id : ℕ) (seen : Seen) :
    Obeys (coreConfine user.tenantId) (Ends fun seen d => ∃ t ∈ seen.rows, t.id = id ∧
      t.filename = d.filename) seen
      (Management.download env id user) := by
  refine (getById_confined plain id seen).andThen ?_ fun _ _ _ => ends_error
  intro seen' t ended
  obtain ⟨outside, shown, number⟩ := ended t rfl
  dsimp only
  split
  · exact ends_error
  split
  · exact ends_error
  refine obeys_call trivial ?_ fun _ _ _ => ends_error
  rintro obj seen'' ⟨rfl, -⟩
  have named {d : DownloadResult env.crypto} (same : d.filename = t.filename) :
      Ends (fun seen d => ∃ t ∈ seen.rows, t.id = id ∧ t.filename = d.filename) seen'' (.ok d) := by
    intro d' eq
    cases eq
    exact ⟨outside, t, shown, number, same.symm⟩
  split
  · refine Obeys.andThen (q := fun last _ => last = seen'') ?_ ?_ fun _ _ _ => ends_error
    · unfold decryption
      split
      · rfl
      split <;> rfl
    · intro last transform same
      rw [same]
      exact named rfl
  · exact named rfl

theorem resetOne_confined (id : ℕ) {seen : Seen} (inside : seen.scope.Within) :
    Obeys (coreConfine user.tenantId) (fun seen' r => ∀ t, r = .ok t → seen'.scope.Within ∧
      t ∈ seen'.rows ∧ t.id = id) seen (resetOne id .tx) := by
  refine (findOne_confined id inside).andThen ?_ fun _ _ _ _ same => by cases same
  intro seen' found shown
  obtain ⟨inside', -⟩ := shown found rfl
  split
  · exact fun _ same => by cases same
  split
  · exact fun _ same => by cases same
  refine obeys_call ⟨rfl, inside'⟩ ?_ fun _ _ _ _ same => by cases same
  rintro - seen'' ⟨rfl, -⟩
  refine Obeys.andThen (findOne_confined id trivial) ?_ fun _ _ _ _ same => by cases same
  intro seen'' again shown
  obtain ⟨inside'', rows⟩ := shown again rfl
  cases again with
  | none => exact fun _ same => by cases same
  | some t =>
    intro t' same
    cases same
    exact ⟨inside'', rows t rfl⟩

/-- The rows that are reset are among those seen. -/
theorem resetMatching_confined (status : TransferStatus) (before : Option ℕ) (limit : ℕ)
    {seen : Seen} (inside : seen.scope.Within) :
    Obeys (coreConfine user.tenantId) (fun seen' r => ∀ ids, r = .ok ids → seen'.scope.Within ∧
      ∀ id ∈ ids, ∃ t ∈ seen'.rows, t.id = id) seen (resetMatching status before limit .tx) := by
  refine obeys_call ⟨rfl, inside⟩ ?_ fun _ _ _ _ same => by cases same
  rintro found seen' ⟨rfl, -⟩
  refine Obeys.andThen (q := fun seen' r => ∀ u, r = .ok u →
    seen'.scope.Within ∧ ∀ t ∈ found, t ∈ seen'.rows)
    ?_ ?_ fun _ _ _ _ same => by cases same
  · refine obeys_forEach _ (fun _ seen' => seen'.scope.Within ∧
      ∀ t ∈ found, t ∈ seen'.rows) _ ?_ ?_ ?_
    · exact ⟨inside, fun t ht => List.mem_append_left _ ht⟩
    · exact fun seen' ready _ _ => ready
    · intro t rest seen' ready
      refine ⟨⟨rfl, ready.1⟩, ?_⟩
      rintro r seen'' ⟨rfl, -⟩
      cases r with
      | ok _ => exact ⟨trivial, ready.2⟩
      | error e => exact fun _ same => by cases same
  · intro seen' _ ready
    obtain ⟨inside', shown⟩ := ready () rfl
    intro ids same
    cases same
    refine ⟨inside', ?_⟩
    intro id hid
    obtain ⟨t, ht, rfl⟩ := List.mem_map.mp hid
    exact ⟨t, shown t ht, rfl⟩

theorem enqueue_confined {id : ℕ} {seen : Seen} (shown : ∃ t ∈ seen.rows, t.id = id) :
    Obeys (coreConfine user.tenantId) (fun seen' _ => seen' = seen) seen (enqueue env id) := by
  refine ⟨shown, ?_⟩
  rintro r seen' ⟨rfl, -⟩
  cases r <;> rfl

theorem retry_confined (plain : Role.admin ∉ user.roles) (id : ℕ) (seen : Seen) :
    Obeys (coreConfine user.tenantId) (Ends fun seen t => t ∈ seen.rows ∧ t.id = id) seen
      (Management.retry env id user) := by
  refine (scopedTo_confined (q := fun seen t => t ∈ seen.rows ∧ t.id = id) plain (fun _ _ _ h => h)
    (fun _ fresh => resetOne_confined id (within_fresh fresh)) seen).andThen ?_
      fun _ _ _ => ends_error
  intro seen' t ended
  obtain ⟨outside, shown, same⟩ := ended t rfl
  refine (enqueue_confined ⟨t, shown, same⟩).andThen ?_ fun _ _ _ => ends_error
  rintro _ _ rfl t' eq
  cases eq
  exact ⟨outside, shown, same⟩

theorem retryBatch_confined (plain : Role.admin ∉ user.roles) (dto : RetryBatchDto) (seen : Seen) :
    Obeys (coreConfine user.tenantId) (Ends fun seen r => ∀ id ∈ r.ids, ∃ t ∈ seen.rows,
      t.id = id) seen
      (Management.retryBatch env dto user) := by
  unfold Management.retryBatch
  dsimp only
  split
  · exact ends_error
  refine (scopedTo_confined (q := fun seen ids => ∀ id ∈ ids, ∃ t ∈ seen.rows, t.id = id) plain
    (fun _ _ _ h => h)
    (fun _ fresh => resetMatching_confined _ _ _ (within_fresh fresh)) seen).andThen ?_
      fun _ _ _ => ends_error
  intro seen' ids ended
  obtain ⟨outside, shown⟩ := ended ids rfl
  refine Obeys.andThen (q := fun seen'' r => ∀ u, r = .ok u → seen'' = seen') ?_ ?_
    fun _ _ _ => ends_error
  · refine obeys_forEach _ (fun rest seen'' => seen'' = seen' ∧
      ∀ id ∈ rest, id ∈ ids) _ ⟨rfl, fun _ h => h⟩ ?_ ?_
    · exact fun _ ready _ _ => ready.1
    · rintro id rest seen'' ⟨rfl, ahead⟩
      refine (enqueue_confined (shown id (ahead id List.mem_cons_self))).mono _ ?_
      rintro _ r rfl
      cases r with
      | ok _ => exact ⟨rfl, fun id hid => ahead id (List.mem_cons_of_mem _ hid)⟩
      | error e => exact fun _ same => by cases same
  · intro seen'' _ same
    cases same () rfl
    intro r eq
    cases eq
    exact ⟨outside, shown⟩

theorem summary_confined {tenant : String} (seen : Seen) (outside : seen.scope = .outside) :
    Obeys (coreConfine tenant) (Ends fun _ u => u.tenantId = tenant) seen (summary env tenant) := by
  refine Obeys.andThen (q := fun seen' _ => seen' = seen) ?_ ?_ fun _ _ _ => ends_error
  · refine obeys_call rfl ?_ ?_
    · rintro row seen' ⟨rfl, -⟩
      rfl
    · rintro e seen' ⟨rfl, -⟩
      rfl
  · rintro _ u rfl u' same
    cases same
    exact ⟨outside, rfl⟩

/-- Only administrators look at the usage of another tenant. -/
theorem usageTarget_own (plain : Role.admin ∉ user.roles) (tenant : Option String) :
    usageTarget tenant user = user.tenantId := by
  unfold usageTarget
  split
  · rfl
  · rw [if_neg]
    simpa using plain

theorem create_confined (dto : CreateSubscriptionDto) (seen : Seen)
    (outside : seen.scope = .outside) :
    Obeys (leftOf (confine user.tenantId)) (Ends fun _ sub => sub.tenantId = user.tenantId) seen
      (SubscriptionsService.create user dto) := by
  have save (secret : String) :
      Obeys (leftOf (confine user.tenantId)) (Ends fun _ sub => sub.tenantId = user.tenantId)
      seen (net (.saveSubscription user.tenantId dto.url dto.events secret)) := by
    refine ⟨rfl, ?_⟩
    rintro r seen' ⟨rfl, truthful⟩ sub same
    cases same
    exact ⟨outside, truthful⟩
  unfold SubscriptionsService.create
  cases dto.secret with
  | some secret => exact save secret
  | none =>
    refine obeys_call trivial ?_ fun _ _ _ => ends_error
    rintro secret seen' ⟨rfl, -⟩
    exact save secret

theorem listSubscriptions_confined (seen : Seen) (outside : seen.scope = .outside) :
    Obeys (leftOf (confine user.tenantId)) (Ends fun _ subs => ∀ sub ∈ subs,
      sub.tenantId = user.tenantId) seen
      (SubscriptionsService.list user) := by
  refine ⟨rfl, ?_⟩
  rintro r seen' ⟨rfl, truthful⟩ subs same
  cases same
  exact ⟨outside, truthful⟩

/-- What was found in the tenant is deleted by its number. -/
theorem remove_confined (id : ℕ) (seen : Seen) (outside : seen.scope = .outside) :
    Obeys (leftOf (confine user.tenantId)) (Ends fun _ _ => True) seen
      (SubscriptionsService.remove user id) := by
  refine obeys_call rfl ?_ fun _ _ _ => ends_error
  rintro found seen' ⟨rfl, -⟩
  cases found with
  | none => exact ends_error
  | some sub =>
    refine ⟨List.mem_cons_self, ?_⟩
    rintro r seen' ⟨rfl, -⟩ _ _
    exact ⟨outside, trivial⟩

end Handlers

section Application
variable {env : AppEnv} {user : AuthUser} {call : HttpCall}

/-- The end of a request, when it has one. -/
def Shows {L : Library} (tenant : String) (route : Route) (seen : Seen)
    (r : Except Err (HttpReply L)) : Prop :=
  ∀ reply, r = .ok reply → Reveals tenant route seen reply.body

/-- Past the guards and pipes, a handler stays within the tenant. -/
theorem handler_confined (plain : Role.admin ∉ user.roles) (asked : call.route.roles ≠ none)
    (passed : guards env.webhookSecret (some user) call = none)
    (valid : pipes env.out call.route = none) :
    Obeys (confine user.tenantId) (Shows user.tenantId call.route) .start
      (handler env.out env.accounts user call.carrier call.route) := by
  have ends {α : Type} {q : Seen → α → Prop} {p : AppAsync α}
      {f : α → HttpReply env.out.core.crypto}
      (h : Obeys (confine user.tenantId) (Ends q) .start p)
      (shows : ∀ seen a, q seen a → Reveals user.tenantId call.route seen (f a).body) :
      Obeys (confine user.tenantId) (Shows user.tenantId call.route) .start
        (p.bind fun a => pure (f a)) := by
    refine h.andThen ?_ fun _ _ _ _ same => by cases same
    intro seen a ended reply same
    cases same
    exact shows seen a (ended a rfl).2
  have core {α : Type} {q : Seen → α → Prop} {p : Async α}
      (h : Obeys (coreConfine user.tenantId) (Ends q) .start p) :
      Obeys (confine user.tenantId) (Ends q) .start (fromCore p) :=
    (obeys_left _).mpr ((obeys_left _).mpr h)
  have number {id : IdParam} (param : call.route.idParam = some id) :
      call.route.idParam = some (some (id.getD 0)) := by
    cases id with
    | none => simp [pipes, param] at valid
    | some n => exact param
  cases route : call.route with
  | onUpload payload => exact absurd (by rw [route]; rfl) asked
  | login dto => exact absurd (by rw [route]; rfl) asked
  | createUser dto =>
    obtain ⟨user', same, admin⟩ := RoleEnforcement.guarded_administers (by rw [route]; rfl) passed
    cases same
    exact absurd admin plain
  | listTransfers query =>
    rw [route] at ends
    exact ends (core (list_confined plain query _)) fun _ _ shown => shown
  | getTransfer id =>
    have asked := number (by rw [route]; rfl)
    rw [route] at ends asked
    exact ends (core (getById_confined plain _ _)) fun _ t shown => ⟨shown.1, shown.2 ▸ asked⟩
  | download id =>
    have asked := number (by rw [route]; rfl)
    rw [route] at asked
    refine (core (download_confined plain _ _)).andThen ?_ fun _ _ _ _ same => by cases same
    intro seen d ended
    refine sendFile_obeys (fun reply same => ?_) fun _ _ same => by cases same
    obtain ⟨t, shown, number, filename⟩ := (ended d rfl).2
    cases same
    exact ⟨t, shown, number ▸ asked, filename⟩
  | retry id =>
    have asked := number (by rw [route]; rfl)
    rw [route] at ends asked
    exact ends (core (retry_confined plain _ _)) fun _ t shown => ⟨shown.1, shown.2 ▸ asked⟩
  | retryBatch dto =>
    rw [route] at ends
    exact ends (core (retryBatch_confined plain dto _)) fun _ _ shown => shown
  | createSubscription dto =>
    rw [route] at ends
    exact ends ((obeys_left _).mpr (create_confined dto _ rfl)) fun _ _ shown => shown
  | listSubscriptions =>
    rw [route] at ends
    exact ends ((obeys_left _).mpr (listSubscriptions_confined _ rfl)) fun _ _ shown => shown
  | removeSubscription id =>
    rw [route] at ends
    exact ends ((obeys_left _).mpr (remove_confined _ _ rfl)) fun _ _ _ => trivial
  | usage tenant =>
    rw [route] at ends
    refine ends (core ?_) fun _ _ shown => shown
    rw [usageTarget_own plain]
    exact summary_confined _ rfl

theorem handle_confined (plain : Role.admin ∉ user.roles) (asked : call.route.roles ≠ none) :
    Obeys (confine user.tenantId) (Shows user.tenantId call.route) .start
      (handle env.out env.accounts env.webhookSecret (some user) call) := by
  have refused (seen : Seen) (thrown : Thrown) :
      Shows user.tenantId call.route seen (.ok (refusal env.out call.url thrown)) := by
    intro reply same
    cases same
    trivial
  unfold handle
  split
  · exact refused _ _
  · rename_i allowed
    obtain ⟨passed, valid⟩ := Option.or_eq_none_iff.mp allowed
    exact (handler_confined plain asked passed valid).orElse (fun _ _ shows => shows)
      fun _ _ _ => refused _ _

end Application

/-! ## What a page and a summary are made of -/

/-- The page of the tenant's rows that a query asks for. -/
def tenantPage (tenant : String) (query : ListTransfersQueryDto) (rows : List FileTransfer) :
    PaginatedTransfers :=
  let found := (rows.filter (own tenant)).filter fun t => match query.status with
    | none => true
    | some s => t.status == s
  ⟨((orderByDesc (·.createdAt) found).drop query.offset).take query.limit, found.length,
    query.limit, query.offset⟩

/-- The summary of a tenant by its usage row, which is absent before its first upload. -/
def tenantSummary (env : Env) (tenant : String) (row : Option TenantUsage) : UsageSummary :=
  let quota := Worker.getQuota env tenant
  match row with
  | none => ⟨tenant, 0, 0, quota.maxBytes, quota.maxObjects⟩
  | some usage => ⟨tenant, usage.objectCount, usage.bytesStored, quota.maxBytes, quota.maxObjects⟩

/-- The page is the answer to the query's read in the transaction of the request. -/
def Fetched (query : ListTransfersQueryDto) (heard : List (Exchange AppOp AppAns Err))
    (p : PaginatedTransfers) : Prop :=
  ∃ found, ⟨.inl (.inl (.db (.findAndCount .tx query.status query.limit query.offset))),
    .ok found⟩ ∈ heard ∧ p = ⟨found.1, found.2, query.limit, query.offset⟩

section Composition
variable {env : AppEnv} {user : AuthUser} {heard : List (Exchange AppOp AppAns Err)}

theorem Fetched.more {query : ListTransfersQueryDto} {p : PaginatedTransfers}
    (h : Fetched query heard p) (x : Exchange AppOp AppAns Err) :
    Fetched query (heard ++ [x]) p := by
  obtain ⟨found, said, eq⟩ := h
  exact ⟨found, List.mem_append_left _ said, eq⟩

end Composition

/-! ## Runs of the application -/

section Runs
variable {env : AppEnv} {s s' : AppState}

/-- A request of a tenant's user keeps to what it may do and has seen. -/
def Keeping (s : AppState) (t : AppThread env) : Prop :=
  ∀ user call, t.task = .http (some user) call → Role.admin ∉ user.roles → user.tenantId ≠ "" →
    call.route.roles ≠ none → ∃ seen, Obeys (confine user.tenantId)
      (fun seen r => ∀ reply, r = .ok (.http reply) →
        Reveals user.tenantId call.route seen reply.body) seen t.prog ∧
      Linked user.tenantId t.pid s.out seen

theorem Keeping.later {t : AppThread env} (h : Keeping s t) (later : Later s.out s'.out)
    (tx : s'.out.core.db.tx t.pid = s.out.core.db.tx t.pid) : Keeping s' t := by
  intro user call task plain named asked
  obtain ⟨seen, obeys, linked⟩ := h user call task plain named asked
  exact ⟨seen, obeys, linked.later later tx⟩

theorem keeping_code (task : AppTask) (n : ℕ) (s : AppState) :
    Keeping s (⟨n, task, codeApp env task⟩ : AppThread env) := by
  rintro user call rfl plain named asked
  refine ⟨.start, ?_, ⟨trivial, fun _ ht => (by cases ht), fun _ hid => by cases hid⟩⟩
  refine (handle_confined plain asked).andThen ?_ fun _ _ _ _ same => by cases same
  intro seen reply shows reply' same
  cases same
  exact shows reply rfl

theorem keeping (env : AppEnv) :
    Threadwise (appMachine env) anyStep (fun s => Orderly s.out) Keeping where
  request w q s task _ h hT entered := by
    have same : s.out.core.db = w.store.out.core.db := RoleEnforcement.enterApp_db entered
    exact ⟨h.same same, fun t ht => (hT t ht).later (.of_db same) (by rw [same]),
      fun n => keeping_code task n s⟩
  resume w pid c l r t op k a s _ h hT apart found at_call answered := by
    obtain ⟨hmem, hothers⟩ := mem_of_focus found
    obtain ⟨orderly, later⟩ := app_later h answered
    refine ⟨orderly, fun t' ht => (hT t' (hothers t' ht)).later later ?_, ?_⟩
    · exact RoleEnforcement.app_tx_other answered (apart t' ht)
    · intro user call task plain named asked
      obtain ⟨seen, obeys, linked⟩ := hT t hmem user call task plain named asked
      rw [at_call] at obeys
      have hpid := (focus_some found).2
      subst hpid
      obtain ⟨-, linked', truthful⟩ := request_step named h linked obeys.1 answered
      exact ⟨hear seen op a, obeys.2 a _ ⟨rfl, truthful⟩, linked'⟩
  settle w pid l r t out _ h hT found ended := by
    have same : (finishApp env t.task out w.store).1.out.core.db = w.store.out.core.db :=
      RoleEnforcement.finishApp_db t.task out w.store
    refine ⟨h.same same, fun t' ht => (hT t' ((mem_of_focus found).2 t' ht)).later (.of_db same) ?_,
      fun n task _ => keeping_code task n _⟩
    exact congrArg (·.tx t'.pid) same
  crash w pid l r t _ h hT apart found := by
    have later : Orderly (dropApp pid t.task w.store).out ∧
        Later w.store.out (dropApp pid t.task w.store).out := by
      rcases RoleEnforcement.dropApp_db pid t.task w.store with same | dropped
      · exact ⟨h.same same, .of_db same⟩
      · refine ⟨⟨?_, ?_, ?_⟩, .same ?_ ?_ ?_⟩ <;> rw [dropped]
        · exact h.recorded
        · exact h.distinct
        · exact h.below
        all_goals rfl
    refine ⟨later.1, fun t' ht => (hT t' ((mem_of_focus found).2 t' ht)).later later.2 ?_⟩
    exact RoleEnforcement.dropApp_tx_other t.task w.store (apart t' ht)
  outside w e s _ h hT happened := by
    have same : s.out.core.db = w.store.out.core.db := RoleEnforcement.outsideApp_db happened
    exact ⟨h.same same, fun t ht => (hT t ht).later (.of_db same) (by rw [same])⟩

end Runs

/-- What a reply may show a user of the tenant, who asked for it in these states. -/
def Shown {L : Library} (env : Env) (tenant : String) (route : Route) (during : OutState → Prop)
    (s : OutState) :
    ReplyBody L → Prop
  | .none => True
  | .error _ => True
  | .outcome _ => False
  | .login _ => False
  | .user _ => False
  | .page p => (∀ t ∈ p.items, t.tenantId = tenant) ∧ ∃ query, route = .listTransfers query ∧
      ∃ v, during v ∧ p = tenantPage tenant query v.core.db.transfers
  | .transfer t => t.tenantId = tenant ∧ route.idParam = some (some t.id)
  | .file _ d =>
    ∃ row ∈ s.core.db.inserted, row.tenantId = tenant ∧ route.idParam = some (some row.id) ∧
      row.filename = d.filename
  | .requeued r => ∀ id ∈ r.ids, ∃ row ∈ s.core.db.inserted, row.id = id ∧ row.tenantId = tenant
  | .subscription sub => sub.tenantId = tenant
  | .subscriptions subs => ∀ sub ∈ subs, sub.tenantId = tenant
  | .usage u => u.tenantId = tenant ∧ ∃ v, during v ∧
      u = tenantSummary env tenant (v.core.db.usage.find? fun row => row.tenantId = tenant)

section Replies
variable {env : AppEnv} {w₀ w v : AppWorld env} {t : AppThread env} {user : AuthUser}
  {call : HttpCall}

end Replies

theorem Reveals.shown {L : Library} {env : Env} {tenant : String} {route : Route} {pid : ℕ}
    {s : OutState} {seen : Seen}
    {during : OutState → Prop} {body : ReplyBody L} (linked : Linked tenant pid s seen)
    (h : Reveals tenant route seen body)
    (page : ∀ p, body = .page p → ∃ query, route = .listTransfers query ∧
      ∃ v, during v ∧ p = tenantPage tenant query v.core.db.transfers)
    (usage : ∀ u, body = .usage u → ∃ v, during v ∧
      u = tenantSummary env tenant (v.core.db.usage.find? fun row => row.tenantId = tenant)) :
    Shown env tenant route during s body := by
  have record {t : FileTransfer} (ht : t ∈ seen.rows) : ∃ row ∈ s.core.db.inserted, row.id = t.id ∧
      row.tenantId = tenant ∧ row.filename = t.filename := by
    obtain ⟨own, row, hrow, same⟩ := linked.rows t ht
    obtain ⟨number, rest⟩ := Prod.mk.inj same
    obtain ⟨owner, filename⟩ := Prod.mk.inj rest
    exact ⟨row, hrow, number, owner.trans own, filename⟩
  cases body with
  | page p => exact ⟨fun t ht => (linked.rows t (h t ht)).1, page p rfl⟩
  | transfer t => exact ⟨(linked.rows t h.1).1, h.2⟩
  | file headers d =>
    obtain ⟨t, ht, asked, filename⟩ := h
    obtain ⟨row, hrow, number, owner, same⟩ := record ht
    exact ⟨row, hrow, owner, number ▸ asked, same.trans filename⟩
  | requeued r =>
    intro id hid
    obtain ⟨t, ht, same⟩ := h id hid
    obtain ⟨row, hrow, number, owner, -⟩ := record ht
    exact ⟨row, hrow, number.trans same, owner⟩
  | usage u => exact ⟨h, usage u rfl⟩
  | _ => exact h

end TenantConfinement
