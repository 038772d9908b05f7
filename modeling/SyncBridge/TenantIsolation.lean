import SyncBridge.SoloRuns
import SyncBridge.Authentication

/-!
# What one tenant can learn about another

The operations of the management API are run on two `file_transfers` tables that
agree on the rows of the caller's tenant, with everything else equal. The policy
lets exactly the caller's rows through as long as the tenant is not the empty
string: for the empty string its second disjunct lets every row through. A DTO
with an empty tenant passes validation and the empty string is stored, so the
users created that way are not confined. All others are.
-/

namespace TenantIsolation

open AwaitPrograms NodeCrypto Entities Database TableInvariants Calls Ingestion Management
open Orchestrator Footprints SoloRuns Authentication

/-- A `file_transfers` table: rows with different primary keys. -/
structure Table where
  rows : List FileTransfer
  distinct : (rows.map (·.id)).Nodup

def own (tenant : String) (t : FileTransfer) : Bool := t.tenantId == tenant

def foreign (tenant : String) (t : FileTransfer) : Bool := !own tenant t

/-- The two tables have the same rows of the tenant. -/
def Agree (tenant : String) (T₁ T₂ : Table) : Prop :=
  T₁.rows.filter (own tenant) = T₂.rows.filter (own tenant)

/-- The operations of the management API. -/
inductive ApiCall where
  | list (query : ListTransfersQueryDto)
  | getById (id : Nat)
  | download (id : Nat)
  | retry (id : Nat)
  | retryBatch (dto : RetryBatchDto)

inductive ApiAnswer (L : Library) where
  | page (p : PaginatedTransfers)
  | transfer (t : FileTransfer)
  | file (d : DownloadResult L)
  | requeued (r : RetryBatchResult)

def ApiCall.code (env : Env) (user : AuthUser) : ApiCall → Async (ApiAnswer env.crypto)
  | .list query => (Management.list query user).bind fun p => pure (.page p)
  | .getById id => (Management.getById id user).bind fun t => pure (.transfer t)
  | .download id => (Management.download env id user).bind fun d => pure (.file d)
  | .retry id => (Management.retry env id user).bind fun t => pure (.transfer t)
  | .retryBatch dto => (Management.retryBatch env dto user).bind fun r => pure (.requeued r)

/-- The same state with another table. -/
def withRows (s : State) (rows : List FileTransfer) : State :=
  { s with db := { s.db with transfers := rows } }

/-- The operation run alone on a table; the state gives the rest of the system. -/
def callOn (env : Env) (pid : Nat) (user : AuthUser) (call : ApiCall) (x : Solo) (T : Table) :
    Except Err (ApiAnswer env.crypto) × Solo :=
  runAlone env pid anyCall (call.code env user) { x with state := withRows x.state T.rows }

/-- The answers depend on the tenant's rows only, rows of other tenants stay as they
are, and no job is queued for one of them. -/
structure Isolated (env : Env) (user : AuthUser) : Prop where
  answers : ∀ pid call x T₁ T₂, x.state.db.openTxs = [] → Agree user.tenantId T₁ T₂ →
    (callOn env pid user call x T₁).1 = (callOn env pid user call x T₂).1
  rows : ∀ pid call x T, x.state.db.openTxs = [] →
    (callOn env pid user call x T).2.state.db.transfers.filter (foreign user.tenantId) =
      T.rows.filter (foreign user.tenantId)
  jobs : ∀ pid call x T, x.state.db.openTxs = [] → ∃ added,
    (callOn env pid user call x T).2.state.queues.jobs = x.state.queues.jobs ++ added ∧
      ∀ job ∈ added, ∀ t ∈ T.rows, t.id = job.data.transferId → t.tenantId = user.tenantId

section Policy
variable {tenant : String} {now id : Nat} {p : Patch} {rows : List FileTransfer}

theorem tenantIsolation_own (named : tenant ≠ "") : tenantIsolation (some tenant) = own tenant := by
  funext t
  simp [tenantIsolation, own, named]

theorem patchRow_own (t : Option String) :
    (patchRow t now id p rows).filter (own tenant) =
      patchRow t now id p (rows.filter (own tenant)) := by
  unfold patchRow
  rw [List.filter_map]
  congr 1
  refine List.filter_congr fun t _ => ?_
  simp only [Function.comp_apply, own]
  split <;> simp

theorem patchRow_foreign (named : tenant ≠ "") :
    (patchRow (some tenant) now id p rows).filter (foreign tenant) =
      rows.filter (foreign tenant) := by
  unfold patchRow
  rw [List.filter_map]
  have same : (foreign tenant ∘ fun t =>
      if t.id = id ∧ tenantIsolation (some tenant) t = true then p.apply now t else t) =
      foreign tenant := by
    funext t
    simp only [Function.comp_apply, foreign, own]
    split <;> simp
  rw [same]
  refine (List.map_congr_left fun t ht => ?_).trans (List.map_id _)
  have hidden : tenantIsolation (some tenant) t = false := by
    rw [tenantIsolation_own named]
    simpa [foreign] using (List.mem_filter.mp ht).2
  simp [hidden]

/-- The table after the updates a transaction has made. -/
def rewrite (x : Tx) (rows : List FileTransfer) : List FileTransfer :=
  x.resets.foldl (fun rows id => patchRow x.currentTenant x.startedAt id .resetForRetry rows) rows

/-- A transaction of the management API: it works for the tenant and only updates. -/
structure Confined (tenant : String) (x : Tx) : Prop where
  tenant : x.currentTenant = some tenant
  writes : ∀ w ∈ x.writes, ∃ id, w = .reset id

theorem applyWrites_confined {x : Tx} (h : ∀ w ∈ x.writes, ∃ id, w = .reset id) (db : Db) :
    db.applyWrites x = { db with transfers := rewrite x db.transfers } := by
  obtain ⟨start, current, writes⟩ := x
  unfold Db.applyWrites rewrite Tx.resets
  dsimp only at h ⊢
  -- the transaction's settings stay fixed while its list of writes is consumed
  suffices ∀ (y : Tx) (db : Db), writes.foldl (Db.applyWrite y) db = { db with
      transfers := (writes.filterMap Write.reset?).foldl
        (fun rows id => patchRow y.currentTenant y.startedAt id .resetForRetry rows)
        db.transfers } from
    this _ db
  intro y
  induction writes with
  | nil => intro db; rfl
  | cons w ws ih =>
    intro db
    obtain ⟨id, rfl⟩ := h w List.mem_cons_self
    simpa [Db.applyWrite, Write.reset?] using ih (fun w hw => h w (List.mem_cons_of_mem _ hw))
      (Db.applyWrite y db (.reset id))

theorem rewrite_own (x : Tx) (rows : List FileTransfer) :
    (rewrite x rows).filter (own tenant) = rewrite x (rows.filter (own tenant)) := by
  unfold rewrite
  induction x.resets generalizing rows with
  | nil => rfl
  | cons id ids ih => rw [List.foldl_cons, List.foldl_cons, ih, patchRow_own]

theorem rewrite_foreign (named : tenant ≠ "") {x : Tx} (h : Confined tenant x)
    (rows : List FileTransfer) :
    (rewrite x rows).filter (foreign tenant) = rows.filter (foreign tenant) := by
  unfold rewrite
  rw [h.tenant]
  induction x.resets generalizing rows with
  | nil => rfl
  | cons id ids ih => rw [List.foldl_cons, ih, patchRow_foreign named]

theorem rewrite_ids (x : Tx) (rows : List FileTransfer) :
    (rewrite x rows).map (·.id) = rows.map (·.id) := by
  unfold rewrite
  induction x.resets generalizing rows with
  | nil => rfl
  | cons id ids ih => rw [List.foldl_cons, ih, patchRow_map kept_id]

end Policy

/-! ## Two runs side by side -/

/-- What is fixed while an operation runs on two tables: the caller's tenant and its
thread, the tenant's row numbers, the jobs at the start, and the rows of others. -/
structure Frame where
  tenant : String
  pid : Nat
  ids : List Nat
  jobs : List Job
  others₁ : List FileTransfer
  others₂ : List FileTransfer

/-- Two states that differ in the rows of other tenants only, where the open
transactions satisfy `phase`. -/
structure Alike (F : Frame) (phase : List (Nat × Tx) → Prop) (s₁ s₂ : State) : Prop where
  rest : s₂ = withRows s₁ s₂.db.transfers
  view : s₂.db.transfers.filter (own F.tenant) = s₁.db.transfers.filter (own F.tenant)
  ids : (s₁.db.transfers.filter (own F.tenant)).map (·.id) = F.ids
  others₁ : s₁.db.transfers.filter (foreign F.tenant) = F.others₁
  others₂ : s₂.db.transfers.filter (foreign F.tenant) = F.others₂
  phase : phase s₁.db.openTxs
  jobs : ∃ added, s₁.queues.jobs = F.jobs ++ added ∧ ∀ job ∈ added, job.data.transferId ∈ F.ids

/-- No transaction is open. -/
def Outside (txs : List (Nat × Tx)) : Prop := txs = []

/-- The operation's transaction has begun and has no tenant yet. -/
def Begun (F : Frame) (txs : List (Nat × Tx)) : Prop := ∃ start, txs = [(F.pid, ⟨start, none, []⟩)]

/-- The operation's transaction works for the tenant. -/
def Scoped (F : Frame) (txs : List (Nat × Tx)) : Prop :=
  ∃ x, txs = [(F.pid, x)] ∧ Confined F.tenant x

/-- No other operation has a transaction. -/
def Sole (F : Frame) (txs : List (Nat × Tx)) : Prop := ∀ e ∈ txs, e.1 = F.pid

/-- Two runs at the same call, with the same turns to come. -/
def Twins (F : Frame) (phase : List (Nat × Tx) → Prop) (x : Solo × Solo) : Prop :=
  x.2.turns = x.1.turns ∧ Alike F phase x.1.state x.2.state

section Pairs
variable {F : Frame} {phase phase' : List (Nat × Tx) → Prop} {s₁ s₂ : State} {env : Env}

theorem Alike.mono (h : Alike F phase s₁ s₂) (imp : ∀ txs, phase txs → phase' txs) :
    Alike F phase' s₁ s₂ :=
  { h with phase := imp _ h.phase }

theorem Alike.before (h : Alike F phase s₁ s₂) (turn : Turn) :
    Alike F phase (turn.before s₁) (turn.before s₂) where
  rest := by
    rw [h.rest]
    rfl
  view := h.view
  ids := h.ids
  others₁ := h.others₁
  others₂ := h.others₂
  phase := h.phase
  jobs := h.jobs

/-- The transactions of both states are changed alike. -/
theorem Alike.setTxs (h : Alike F phase s₁ s₂) {txs : List (Nat × Tx)} (new : phase' txs) :
    Alike F phase' { s₁ with db := { s₁.db with openTxs := txs } }
      { s₂ with db := { s₂.db with openTxs := txs } } where
  rest := by
    rw [h.rest]
    rfl
  view := h.view
  ids := h.ids
  others₁ := h.others₁
  others₂ := h.others₂
  phase := new
  jobs := h.jobs

theorem Alike.openTxs (h : Alike F phase s₁ s₂) : s₂.db.openTxs = s₁.db.openTxs := by
  rw [h.rest]
  rfl

theorem Alike.host (h : Alike F phase s₁ s₂) : s₂.host = s₁.host := by
  rw [h.rest]
  rfl

/-- The outcome of a call on both states. -/
def Answered (env : Env) (F : Frame) (phase phase' : List (Nat × Tx) → Prop) (op : Op)
    (Q : op.Ans → Prop) : Prop :=
  ∀ c s₁ s₂, Alike F phase s₁ s₂ → ∃ a s₁' s₂', perform env F.pid c s₁ op = some (a, s₁') ∧
    perform env F.pid c s₂ op = some (a, s₂') ∧
    ((∃ v, a = .ok v ∧ Alike F phase' s₁' s₂' ∧ Q v) ∨ ∃ e, a = .error e ∧ Alike F phase s₁' s₂')

/-- A call that both states answer alike, or that is rejected in both. -/
theorem serve_twins {op : Op} {Q : op.Ans → Prop} {x : Solo × Solo} (h : Twins F phase x)
    (performed : Answered env F phase phase' op Q) :
    ∃ a x₁' x₂', serve env F.pid anyCall x.1 op = (a, x₁') ∧
    serve env F.pid anyCall x.2 op = (a, x₂') ∧
      ((∃ v, a = .ok v ∧ Twins F phase' (x₁', x₂') ∧ Q v) ∨
        ∃ e, a = .error e ∧ Twins F phase (x₁', x₂')) := by
  have alike := h.2.before (x.1.turns 0)
  have turn : x.2.turns = x.1.turns := h.1
  by_cases hf : ∃ name message, (x.1.turns 0).choice.fault = some (name, message) ∧
    op.mayFail = true
  · obtain ⟨name, message, hf, hop⟩ := hf
    have reject : ∀ s, exec env F.pid op (x.1.turns 0).choice s =
        some (.error (.other name message), s) := by
      intro s
      simp [exec, hf, hop]
    refine ⟨_, _, _, serve_eq (reject _), serve_eq (by rw [turn]; exact reject _), .inr ?_⟩
    exact ⟨_, rfl, by rw [turn], by rw [turn]; exact alike⟩
  · have accept : ∀ s, exec env F.pid op (x.1.turns 0).choice s =
        perform env F.pid (x.1.turns 0).choice s op := by
      intro s
      unfold exec
      split
      · rfl
      · rename_i name message hfault
        rw [if_neg fun hop => hf ⟨name, message, hfault, hop⟩]
    obtain ⟨a, s₁', s₂', e₁, e₂, out⟩ := performed (x.1.turns 0).choice _ _ alike
    refine ⟨a, _, _, serve_eq ((accept _).trans e₁),
      serve_eq (by rw [turn]; exact (accept _).trans e₂), ?_⟩
    rcases out with ⟨v, rfl, ok, hq⟩ | ⟨e, rfl, ok⟩
    · exact .inl ⟨v, rfl, ⟨by rw [turn], ok⟩, hq⟩
    · exact .inr ⟨e, rfl, by rw [turn], ok⟩

/-- The rule for a call in two runs side by side. -/
theorem twins_await {α : Type} {op : Op} {Q : op.Ans → Prop} {k : Except Err op.Ans → Async α}
    {post : Solo × Solo → Except Err α → Prop} {x : Solo × Solo} (h : Twins F phase x)
    (performed : Answered env F phase phase' op Q)
    (answered : ∀ v x', Twins F phase' x' → Q v →
      Obeys (both (serve env F.pid anyCall)) post x' (k (.ok v)))
    (rejected : ∀ e x', Twins F phase x' →
      Obeys (both (serve env F.pid anyCall)) post x' (k (.error e))) :
    Obeys (both (serve env F.pid anyCall)) post x (.await op k) := by
  obtain ⟨a, x₁', x₂', e₁, e₂, out⟩ := serve_twins h performed
  refine ⟨?_, fun r x' hn => ?_⟩
  · change (serve env F.pid anyCall x.1 op).1 = (serve env F.pid anyCall x.2 op).1
    rw [e₁, e₂]
  · obtain ⟨h₁, h₂⟩ := hn
    rw [e₁] at h₁
    rw [e₂] at h₂
    obtain ⟨x₁, x₂⟩ := x'
    cases h₁
    cases h₂
    rcases out with ⟨v, rfl, ok, hq⟩ | ⟨e, rfl, ok⟩
    · exact answered v _ ok hq
    · exact rejected e _ ok

theorem twins_call {α : Type} {op : Op} {Q : op.Ans → Prop} {f : op.Ans → Async α}
    {post : Solo × Solo → Except Err α → Prop} {x : Solo × Solo} (h : Twins F phase x)
    (performed : Answered env F phase phase' op Q)
    (answered : ∀ v x', Twins F phase' x' → Q v →
      Obeys (both (serve env F.pid anyCall)) post x' (f v))
    (rejected : ∀ e x', Twins F phase x' → post x' (.error e)) :
    Obeys (both (serve env F.pid anyCall)) post x ((Prog.call op).bind f) :=
  twins_await h performed answered rejected

end Pairs

section Statements
variable {F : Frame} {phase : List (Nat × Tx) → Prop} {s₁ s₂ : State} {env : Env}

theorem sole_filter {txs : List (Nat × Tx)} (h : Sole F txs) :
    (txs.filter fun e => e.1 ≠ F.pid) = [] := by
  rw [List.filter_eq_nil_iff]
  intro e he
  simpa using h e he

theorem outside_sole {txs : List (Nat × Tx)} (h : Outside txs) : Sole F txs := by
  subst h
  exact fun e he => nomatch he

theorem begun_sole {txs : List (Nat × Tx)} (h : Begun F txs) : Sole F txs := by
  obtain ⟨start, rfl⟩ := h
  intro e he
  rw [List.mem_singleton.mp he]

theorem scoped_sole {txs : List (Nat × Tx)} (h : Scoped F txs) : Sole F txs := by
  obtain ⟨x, rfl, -⟩ := h
  intro e he
  rw [List.mem_singleton.mp he]

theorem Alike.setTx (h : Alike F phase s₁ s₂) (sole : Sole F s₁.db.openTxs) {x : Tx}
    {phase' : List (Nat × Tx) → Prop} (new : phase' [(F.pid, x)]) :
    Alike F phase' { s₁ with db := s₁.db.setTx F.pid x } { s₂ with db := s₂.db.setTx F.pid x } := by
  have one : ∀ s : State, s.db.openTxs = s₁.db.openTxs →
      s.db.setTx F.pid x = { s.db with openTxs := [(F.pid, x)] } := by
    intro s hs
    rw [Db.setTx, hs, sole_filter sole]
  rw [one s₁ rfl, one s₂ h.openTxs]
  exact h.setTxs new

theorem Alike.dropTx (h : Alike F phase s₁ s₂) (sole : Sole F s₁.db.openTxs) :
    Alike F Outside { s₁ with db := s₁.db.dropTx F.pid } { s₂ with db := s₂.db.dropTx F.pid } := by
  have none : ∀ s : State, s.db.openTxs = s₁.db.openTxs →
      s.db.dropTx F.pid = { s.db with openTxs := [] } := by
    intro s hs
    rw [Db.dropTx, hs, sole_filter sole]
  rw [none s₁ rfl, none s₂ h.openTxs]
  exact h.setTxs rfl

/-- Both states have the operation's transaction open. -/
theorem tx_single {db : Db} {x : Tx} (h : db.openTxs = [(F.pid, x)]) : db.tx F.pid = some x := by
  simp [Db.tx, h]

/-- In its transaction the tenant sees the same rows in both states, all its own. -/
theorem scoped_rows (named : F.tenant ≠ "") (h : Alike F (Scoped F) s₁ s₂) :
    s₂.db.rows F.pid .tx = s₁.db.rows F.pid .tx ∧
      ∀ t ∈ s₁.db.rows F.pid .tx, t.id ∈ F.ids := by
  obtain ⟨x, htx, hx⟩ := h.phase
  have visible : ∀ db : Db, db.openTxs = [(F.pid, x)] →
      db.rows F.pid .tx = rewrite x (db.transfers.filter (own F.tenant)) := by
    intro db hdb
    simp only [Db.rows, tx_single hdb]
    rw [hx.tenant, tenantIsolation_own named, applyWrites_confined hx.writes, rewrite_own]
  rw [visible s₁.db htx, visible s₂.db (h.openTxs.trans htx), h.view]
  refine ⟨rfl, fun t ht => ?_⟩
  rw [← h.ids, ← rewrite_ids x]
  exact List.mem_map_of_mem ht

theorem begin_answered : Answered env F Outside (Begun F) (.db .begin) fun _ => True := by
  intro c s₁ s₂ h
  refine ⟨.ok (), { s₁ with db := s₁.db.setTx F.pid ⟨s₁.host.now, none, []⟩ },
    { s₂ with db := s₂.db.setTx F.pid ⟨s₁.host.now, none, []⟩ }, rfl, ?_,
    .inl ⟨(), rfl, ?_, trivial⟩⟩
  · simp only [perform, Db.exec, h.host]
  · exact h.setTx (outside_sole h.phase) ⟨_, rfl⟩

theorem setCurrentTenant_answered : Answered env F (Begun F) (Scoped F)
    (.db (.setCurrentTenant F.tenant)) fun _ => True := by
  intro c s₁ s₂ h
  obtain ⟨start, htx⟩ := h.phase
  refine ⟨.ok (), { s₁ with db := s₁.db.setTx F.pid ⟨start, some F.tenant, []⟩ },
    { s₂ with db := s₂.db.setTx F.pid ⟨start, some F.tenant, []⟩ }, ?_, ?_,
    .inl ⟨(), rfl, ?_, trivial⟩⟩
  · simp only [perform, Db.exec, tx_single htx]
  · simp only [perform, Db.exec, tx_single (h.openTxs.trans htx)]
  · refine h.setTx (begun_sole h.phase) ⟨_, rfl, rfl, fun w hw => ?_⟩
    cases hw

/-- A statement that only reads the rows the transaction sees. -/
theorem read_answered (named : F.tenant ≠ "") {op : DbOp} (read : List FileTransfer → op.Ans)
    (reads : ∀ now db, Db.exec now F.pid db op = some (.ok (read (db.rows F.pid .tx)), db)) :
    Answered env F (Scoped F) (Scoped F) (.db op)
      fun v => ∃ rows, v = read rows ∧ ∀ t ∈ rows, t.id ∈ F.ids := by
  intro c s₁ s₂ h
  obtain ⟨same, mine⟩ := scoped_rows named h
  refine ⟨.ok (read (s₁.db.rows F.pid .tx)), s₁, s₂, ?_, ?_, .inl ⟨_, rfl, h, _, rfl, mine⟩⟩
  · simp only [perform, reads]
  · simp only [perform, reads, same]

theorem resetForRetry_answered (named : F.tenant ≠ "") (id : Nat) :
    Answered env F (Scoped F) (Scoped F) (.db (.resetForRetry .tx id)) fun _ => True := by
  intro c s₁ s₂ h
  obtain ⟨same, -⟩ := scoped_rows named h
  obtain ⟨x, htx, hx⟩ := h.phase
  have free : ∀ db : Db, db.openTxs = [(F.pid, x)] → db.locked (· ≠ F.pid) id = false := by
    intro db hdb
    simp [Db.locked, hdb]
  have htx₂ := h.openTxs.trans htx
  by_cases seen : (s₁.db.rows F.pid .tx).any fun r => r.id = id
  · refine ⟨.ok (),
      { s₁ with db := s₁.db.setTx F.pid { x with writes := x.writes ++ [.reset id] } },
      { s₂ with db := s₂.db.setTx F.pid { x with writes := x.writes ++ [.reset id] } }, ?_, ?_,
      .inl ⟨(), rfl, ?_, trivial⟩⟩
    · simp only [perform, Db.exec, tx_single htx, seen, free s₁.db htx, if_true]
      rfl
    · simp only [perform, Db.exec, tx_single htx₂, same, seen, free s₂.db htx₂, if_true]
      rfl
    · refine h.setTx (scoped_sole h.phase) ⟨_, rfl, hx.tenant, fun w hw => ?_⟩
      rcases List.mem_append.mp hw with hw | hw
      · exact hx.writes w hw
      · exact ⟨id, List.mem_singleton.mp hw⟩
  · refine ⟨.ok (), s₁, s₂, ?_, ?_, .inl ⟨(), rfl, h, trivial⟩⟩
    · simp only [perform, Db.exec, tx_single htx, seen]
      rfl
    · simp only [perform, Db.exec, tx_single htx₂, same, seen]
      rfl

/-- The commit writes the tenant's rows alike and leaves the others alone. -/
theorem commit_answered (named : F.tenant ≠ "") :
    Answered env F (Scoped F) Outside (.db .commit) fun _ => True := by
  intro c s₁ s₂ h
  obtain ⟨x, htx, hx⟩ := h.phase
  have htx₂ := h.openTxs.trans htx
  refine ⟨.ok (), { s₁ with db := (s₁.db.applyWrites x).dropTx F.pid },
    { s₂ with db := (s₂.db.applyWrites x).dropTx F.pid }, ?_, ?_, .inl ⟨(), rfl, ?_, trivial⟩⟩
  · simp only [perform, Db.exec, tx_single htx]
  · simp only [perform, Db.exec, tx_single htx₂]
  · rw [applyWrites_confined hx.writes, applyWrites_confined hx.writes]
    have written : Alike F (Scoped F) (withRows s₁ (rewrite x s₁.db.transfers))
        (withRows s₂ (rewrite x s₂.db.transfers)) := by
      refine ⟨?_, ?_, ?_, ?_, ?_, h.phase, h.jobs⟩
      · rw [h.rest]
        rfl
      · simp only [withRows, rewrite_own, h.view]
      · simp only [withRows, rewrite_own, rewrite_ids, h.ids]
      · simp only [withRows, rewrite_foreign named hx, h.others₁]
      · simp only [withRows, rewrite_foreign named hx, h.others₂]
    exact written.dropTx (scoped_sole h.phase)

theorem getObject_answered (bucket key : String) :
    Answered env F Outside Outside (.store (.getObject bucket key)) fun _ => True := by
  intro c s₁ s₂ h
  have same : s₂.store = s₁.store := by
    rw [h.rest]
    rfl
  simp only [perform, execStore, same]
  cases s₁.store.get bucket key with
  | none => exact ⟨_, _, _, rfl, rfl, .inr ⟨_, rfl, h⟩⟩
  | some o => exact ⟨_, _, _, rfl, rfl, .inl ⟨o, rfl, h, trivial⟩⟩

theorem addTransfer_answered {id : Nat} (mine : id ∈ F.ids) (attempts : Option Nat) :
    Answered env F Outside Outside (.queue (.addTransfer ⟨id, []⟩ attempts)) fun _ => True := by
  intro c s₁ s₂ h
  refine ⟨.ok (), _, _, rfl, rfl, .inl ⟨(), rfl, ?_, trivial⟩⟩
  refine ⟨?_, h.view, h.ids, h.others₁, h.others₂, h.phase, ?_⟩
  · rw [h.rest]
    rfl
  · obtain ⟨added, hjobs, hids⟩ := h.jobs
    refine ⟨added ++ [⟨s₁.queues.jobs.length, ⟨id, []⟩, 0, attempts, .waiting⟩], ?_, ?_⟩
    · simp [Queues.exec, hjobs]
    · intro job hjob
      rcases List.mem_append.mp hjob with hjob | hjob
      · exact hids job hjob
      · rw [List.mem_singleton.mp hjob]
        exact mine

end Statements

section Operations
variable {F : Frame} {env : Env} {user : AuthUser}

/-- The outcome of an operation between two calls of others. -/
def Ended {α : Type} (F : Frame) (phase : List (Nat × Tx) → Prop) (Q : α → Prop) (x : Solo × Solo)
    (out : Except Err α) : Prop :=
  Twins F phase x ∧ ∀ a, out = .ok a → Q a

theorem ended_ok {α : Type} {phase : List (Nat × Tx) → Prop} {Q : α → Prop} {x : Solo × Solo}
    {a : α} (h : Twins F phase x) (hq : Q a) : Ended F phase Q x (.ok a) :=
  ⟨h, fun _ ha => Except.ok.inj ha ▸ hq⟩

theorem ended_error {α : Type} {phase : List (Nat × Tx) → Prop} {Q : α → Prop} {x : Solo × Solo}
    (e : Err) (h : Twins F phase x) : Ended F phase Q x (.error e) :=
  ⟨h, fun _ ha => nomatch ha⟩

/-- A rollback is never rejected and closes the transaction, whatever its phase. -/
theorem rollback_twins {α : Type} {phase : List (Nat × Tx) → Prop} {Q : α → Prop} {x : Solo × Solo}
    (e : Err) (h : Twins F phase x) (sole : Sole F x.1.state.db.openTxs) :
    Obeys (both (serve env F.pid anyCall)) (Ended F Outside Q) x
      ((db .rollback).bind fun _ => Prog.throw e) := by
  have run : ∀ y : Solo, serve env F.pid anyCall y (.db .rollback) =
      (.ok (), ⟨{ (y.turns 0).before y.state with
        db := y.state.db.dropTx F.pid }, fun n => y.turns (n + 1)⟩) := by
    intro y
    refine serve_eq ?_
    unfold exec
    split <;> rfl
  refine ⟨?_, fun r x' hn => ?_⟩
  · change (serve env F.pid anyCall x.1 (.db .rollback)).1 =
      (serve env F.pid anyCall x.2 (.db .rollback)).1
    rw [run, run]
  · obtain ⟨h₁, h₂⟩ := hn
    rw [run] at h₁ h₂
    obtain ⟨x₁, x₂⟩ := x'
    cases h₁
    cases h₂
    refine ended_error e ⟨by rw [h.1], ?_⟩
    rw [h.1]
    exact (h.2.before (x.1.turns 0)).dropTx sole

/-- Work in the tenant's transaction, seen from outside. -/
theorem scopedTo_twins {α : Type} {work : Manager → Async α} {Q : α → Prop} {x : Solo × Solo}
    (notAdmin : Role.admin ∉ user.roles) (same : user.tenantId = F.tenant) (named : F.tenant ≠ "")
    (h : Twins F Outside x)
    (body : ∀ x, Twins F (Scoped F) x →
      Obeys (both (serve env F.pid anyCall)) (Ended F (Scoped F) Q) x (work .tx)) :
    Obeys (both (serve env F.pid anyCall)) (Ended F Outside Q) x (scopedTo user work) := by
  unfold scopedTo
  rw [if_neg notAdmin, same]
  refine twins_call h begin_answered ?_ fun e x' hx => ended_error e hx
  intro _ x₁ h₁ _
  -- a throw may leave the transaction open in either of its phases
  refine Obeys.orElse (q := fun x' out => match out with
    | .ok a => Ended F Outside Q x' (.ok a)
    | .error _ => Twins F (Sole F) x') ?_ (fun _ _ hq => hq) ?_
  · refine (obeys_bind _ _).mpr (twins_call h₁ setCurrentTenant_answered ?_ ?_)
    · intro _ x₂ h₂ _
      refine (body x₂ h₂).mono _ fun x₃ out hout => ?_
      cases out with
      | error e => exact ⟨hout.1.1, hout.1.2.mono fun _ => scoped_sole⟩
      | ok a =>
        refine twins_call hout.1 (commit_answered named) ?_ ?_
        · exact fun _ x₄ h₄ _ => ended_ok h₄ (hout.2 a rfl)
        · exact fun e x₄ h₄ => ⟨h₄.1, h₄.2.mono fun _ => scoped_sole⟩
    · exact fun e x₂ h₂ => ⟨h₂.1, h₂.2.mono fun _ => begun_sole⟩
  · exact fun x' e h' => rollback_twins e h' h'.2.phase

theorem findOne_answered (named : F.tenant ≠ "") (id : Nat) :
    Answered env F (Scoped F) (Scoped F) (.db (.findOne .tx id))
      fun row => ∀ t, row = some t → id ∈ F.ids := by
  intro c s₁ s₂ h
  have reads : Answered env F (Scoped F) (Scoped F) (.db (.findOne .tx id)) _ :=
    read_answered named (fun rows => rows.find? fun t => t.id = id) fun _ _ => rfl
  obtain ⟨a, s₁', s₂', e₁, e₂, out⟩ := reads c s₁ s₂ h
  refine ⟨a, s₁', s₂', e₁, e₂, out.imp_left ?_⟩
  rintro ⟨v, rfl, alike, rows, rfl, mine⟩
  refine ⟨_, rfl, alike, fun t ht => ?_⟩
  have hid : t.id = id := by simpa using List.find?_some ht
  exact hid ▸ mine t (List.mem_of_find?_eq_some ht)

theorem resetOne_twins (named : F.tenant ≠ "") (id : Nat) {x : Solo × Solo}
    (h : Twins F (Scoped F) x) :
    Obeys (both (serve env F.pid anyCall)) (Ended F (Scoped F) fun _ => id ∈ F.ids) x
      (resetOne id .tx) := by
  refine twins_call h (findOne_answered named id) ?_ fun e x' hx => ended_error e hx
  intro found x₁ h₁ mine
  split
  · exact ended_error _ h₁
  · split
    · exact ended_error _ h₁
    · refine twins_call h₁ (resetForRetry_answered named id) ?_ fun e x' hx => ended_error e hx
      intro _ x₂ h₂ _
      refine twins_call h₂ (findOne_answered named id) ?_ fun e x' hx => ended_error e hx
      intro again x₃ h₃ _
      split
      · exact ended_error _ h₃
      · exact ended_ok h₃ (mine _ rfl)

/-- The cut-off of `findForRetry`. -/
def olderThan (before : Option Nat) (t : FileTransfer) : Bool :=
  match before with
  | none => true
  | some b => decide (t.updatedAt < b)

/-- The filter of `findAndCount`. -/
def hasStatus (status : Option TransferStatus) (t : FileTransfer) : Bool :=
  match status with
  | none => true
  | some s => t.status == s

theorem resetMatching_twins (named : F.tenant ≠ "") (status : TransferStatus) (before : Option Nat)
    (limit : Nat) {x : Solo × Solo} (h : Twins F (Scoped F) x) :
    Obeys (both (serve env F.pid anyCall)) (Ended F (Scoped F) fun ids => ∀ id ∈ ids, id ∈ F.ids) x
      (resetMatching status before limit .tx) := by
  have reads :
      Answered env F (Scoped F) (Scoped F) (.db (.findForRetry .tx status before limit)) _ :=
    read_answered named (fun rows =>
      (orderBy (·.createdAt) (rows.filter fun t => t.status == status &&
      olderThan before t)).take limit) fun _ _ => rfl
  refine twins_call h reads ?_ fun e x' hx => ended_error e hx
  rintro found x₁ h₁ ⟨rows, rfl, mine⟩
  refine Obeys.andThen (q := Ended F (Scoped F) fun _ => True) ?_ ?_
    fun x' e hx => ended_error e hx.1
  · refine obeys_forEach _ (fun _ x' => Twins F (Scoped F) x') _ h₁
      (fun _ hx => ended_ok hx trivial) ?_
    intro t rest x' hx
    exact twins_await hx (resetForRetry_answered named t.id) (fun _ x'' hx'' _ => hx'')
      fun e x'' hx'' => ended_error e hx''
  · intro x' _ hx
    refine ended_ok hx.1 fun id hid => ?_
    obtain ⟨t, ht, rfl⟩ := List.mem_map.mp hid
    exact mine t (List.mem_filter.mp (mem_orderBy_take ht)).1

theorem enqueue_twins {id : Nat} (mine : id ∈ F.ids) {x : Solo × Solo} (h : Twins F Outside x) :
    Obeys (both (serve env F.pid anyCall)) (Ended F Outside fun _ => True) x (enqueue env id) :=
  twins_await h (addTransfer_answered mine _) (fun _ _ hx _ => ended_ok hx trivial)
    fun e _ hx => ended_error e hx

/-- What follows an ended operation outside a transaction. -/
theorem ended_then {α β : Type} {Q : α → Prop} {prog : Async α} {k : α → Async β} {x : Solo × Solo}
    (h : Obeys (both (serve env F.pid anyCall)) (Ended F Outside Q) x prog)
    (next : ∀ v x', Twins F Outside x' → Q v →
      Obeys (both (serve env F.pid anyCall)) (Ended F Outside fun _ => True) x' (k v)) :
    Obeys (both (serve env F.pid anyCall)) (Ended F Outside fun _ => True) x (prog.bind k) :=
  h.andThen (fun x' v hx => next v x' hx.1 (hx.2 v rfl)) fun _ e hx => ended_error e hx.1

section Calls
variable (notAdmin : Role.admin ∉ user.roles) (same : user.tenantId = F.tenant)
  (named : F.tenant ≠ "")
  {x : Solo × Solo} (h : Twins F Outside x)
include notAdmin same named h

theorem list_twins (query : ListTransfersQueryDto) :
    Obeys (both (serve env F.pid anyCall)) (Ended F Outside fun _ => True) x
      (Management.list query user) := by
  refine scopedTo_twins notAdmin same named h fun x₁ h₁ => ?_
  have reads : Answered env F (Scoped F) (Scoped F)
      (.db (.findAndCount .tx query.status query.limit query.offset)) _ :=
    read_answered named (fun rows =>
      let found := rows.filter fun t => hasStatus query.status t
      (((orderByDesc (·.createdAt) found).drop query.offset).take query.limit, found.length))
      fun _ _ => rfl
  exact twins_call h₁ reads (fun _ _ hx _ => ended_ok hx trivial) fun e _ hx => ended_error e hx

theorem getById_twins (id : Nat) :
    Obeys (both (serve env F.pid anyCall)) (Ended F Outside fun _ => True) x
      (Management.getById id user) := by
  refine ended_then (Q := fun _ => True) ?_ ?_
  · refine scopedTo_twins notAdmin same named h fun x₁ h₁ => ?_
    exact twins_await h₁ (findOne_answered named id) (fun _ _ hx _ => ended_ok hx trivial)
      fun e _ hx => ended_error e hx
  · intro found x' hx _
    split
    · exact ended_error _ hx
    · exact ended_ok hx trivial

theorem download_twins (id : Nat) :
    Obeys (both (serve env F.pid anyCall)) (Ended F Outside fun _ => True) x
      (Management.download env id user) := by
  refine ended_then (getById_twins notAdmin same named h id) fun t x₁ h₁ _ => ?_
  dsimp only
  split
  · exact ended_error _ h₁
  split
  · exact ended_error _ h₁
  refine twins_call h₁ (getObject_answered _ _) ?_ fun e x' hx => ended_error e hx
  intro obj x₂ h₂ _
  split
  · unfold decryption
    split
    · exact ended_error _ h₂
    split
    · exact ended_error _ h₂
    · exact ended_ok h₂ trivial
  · exact ended_ok h₂ trivial

theorem retry_twins (id : Nat) :
    Obeys (both (serve env F.pid anyCall)) (Ended F Outside fun _ => True) x
      (Management.retry env id user) := by
  refine ended_then (scopedTo_twins notAdmin same named h
    fun x₁ h₁ => resetOne_twins named id h₁) ?_
  intro t x₁ h₁ mine
  exact ended_then (enqueue_twins mine h₁) fun _ x' hx _ => ended_ok hx trivial

theorem retryBatch_twins (dto : RetryBatchDto) :
    Obeys (both (serve env F.pid anyCall)) (Ended F Outside fun _ => True) x
      (Management.retryBatch env dto user) := by
  unfold Management.retryBatch
  dsimp only
  split
  · exact ended_error _ h
  refine ended_then (scopedTo_twins notAdmin same named h fun x₁ h₁ =>
    resetMatching_twins named _ dto.before dto.limit h₁) ?_
  intro ids x₁ h₁ all
  refine ended_then (Q := fun _ => True) ?_ fun _ x' hx _ => ended_ok hx trivial
  refine obeys_forEach _ (fun rest x' => Twins F Outside x' ∧ ∀ id ∈ rest, id ∈ F.ids) ids
    ⟨h₁, all⟩ (fun _ hx => ended_ok hx.1 trivial) ?_
  rintro id rest x' ⟨hx, mine⟩
  refine (enqueue_twins (mine id List.mem_cons_self) hx).mono _ fun x'' out hout => ?_
  cases out with
  | ok _ => exact ⟨hout.1, fun i hi => mine i (List.mem_cons_of_mem id hi)⟩
  | error e => exact ended_error e hout.1

/-- Every operation of the API answers alike on both tables. -/
theorem code_twins (call : ApiCall) :
    Obeys (both (serve env F.pid anyCall)) (Ended F Outside fun _ => True) x
      (call.code env user) := by
  cases call with
  | list query =>
    exact ended_then (list_twins notAdmin same named h query) fun _ x' hx _ => ended_ok hx trivial
  | getById id =>
    exact ended_then (getById_twins notAdmin same named h id) fun _ x' hx _ => ended_ok hx trivial
  | download id =>
    exact ended_then (download_twins notAdmin same named h id) fun _ x' hx _ => ended_ok hx trivial
  | retry id =>
    exact ended_then (retry_twins notAdmin same named h id) fun _ x' hx _ => ended_ok hx trivial
  | retryBatch dto =>
    exact ended_then (retryBatch_twins notAdmin same named h dto)
      fun _ x' hx _ => ended_ok hx trivial

end Calls

end Operations

section Users
variable {env : Env} {user : AuthUser}

/-- The frame of a call on two tables. -/
def frameOf (pid : Nat) (tenant : String) (x : Solo) (T₁ T₂ : Table) : Frame :=
  ⟨tenant, pid, (T₁.rows.filter (own tenant)).map (·.id), x.state.queues.jobs,
    T₁.rows.filter (foreign tenant), T₂.rows.filter (foreign tenant)⟩

theorem call_twins (env : Env) (notAdmin : Role.admin ∉ user.roles) (named : user.tenantId ≠ "")
    (pid : Nat) (call : ApiCall) {x : Solo} (idle : x.state.db.openTxs = []) {T₁ T₂ : Table}
    (agree : Agree user.tenantId T₁ T₂) :
    (callOn env pid user call x T₁).1 = (callOn env pid user call x T₂).1 ∧
      Twins (frameOf pid user.tenantId x T₁ T₂) Outside
        ((callOn env pid user call x T₁).2, (callOn env pid user call x T₂).2) := by
  have start : Twins (frameOf pid user.tenantId x T₁ T₂) Outside
      ({ x with state := withRows x.state T₁.rows },
        { x with state := withRows x.state T₂.rows }) := by
    refine ⟨rfl, rfl, agree.symm, rfl, rfl, rfl, idle, [], ?_, fun job hjob => nomatch hjob⟩
    exact (List.append_nil _).symm
  obtain ⟨same, ended⟩ := run_both (call.code env user) (code_twins notAdmin rfl named start call)
  exact ⟨same, ended.1⟩

/-- A user of a tenant with a name is confined to it. -/
theorem isolated_of_named (notAdmin : Role.admin ∉ user.roles) (named : user.tenantId ≠ "") :
    Isolated env user where
  answers pid call x T₁ T₂ idle agree := (call_twins env notAdmin named pid call idle agree).1
  rows pid call x T idle := by
    have twins := (call_twins env notAdmin named pid call idle (rfl : Agree _ T T)).2
    exact twins.2.others₁
  jobs pid call x T idle := by
    have twins := (call_twins env notAdmin named pid call idle (rfl : Agree _ T T)).2
    obtain ⟨added, hjobs, mine⟩ := twins.2.jobs
    refine ⟨added, hjobs, fun job hjob t ht hid => ?_⟩
    obtain ⟨t', ht', hid'⟩ := List.mem_map.mp (mine job hjob)
    obtain ⟨hmem, hown⟩ := List.mem_filter.mp ht'
    have heq : t' = t := List.inj_on_of_nodup_map T.distinct hmem ht (hid'.trans hid.symm)
    subst heq
    simpa [own] using hown

def emptyTable : Table := ⟨[], List.nodup_nil⟩

def sampleTable : Table := ⟨[sampleRow], by decide⟩

def sampleSolo : Solo := ⟨sampleState, fun _ => {}⟩

/-- The empty tenant sees the row of another tenant. -/
theorem not_isolated_of_empty (notAdmin : Role.admin ∉ user.roles) (unnamed : user.tenantId = "") :
    ¬ Isolated env user := by
  intro h
  have scope : ∀ work : Manager → Async (Option FileTransfer), scopedTo user work =
      transaction ((db (.setCurrentTenant "")).bind fun _ => work .tx) := by
    intro work
    unfold scopedTo
    rw [if_neg notAdmin, unnamed]
    rfl
  have missing : (callOn env 0 user (.getById 0) sampleSolo emptyTable).1 =
      .error (notFound 0) := by
    simp only [callOn, ApiCall.code, Management.getById, scope]
    rfl
  have seen : (callOn env 0 user (.getById 0) sampleSolo sampleTable).1 =
      .ok (.transfer sampleRow) := by
    simp only [callOn, ApiCall.code, Management.getById, scope]
    rfl
  have same := h.answers 0 (.getById 0) sampleSolo emptyTable sampleTable rfl (by rw [unnamed]; rfl)
  rw [missing, seen] at same
  cases same

/-- A user made by `createUser` without the role ADMIN, and logged in at any later time,
is isolated exactly when the stored tenant is not the empty string. Validation does not
matter here: it says nothing about the tenant. -/
theorem isolation_iff_named (env : Env) (bcrypt : Bcrypt) (users users' later : List User)
    (dto : CreateUserDto) (id : Nat) (salt password : String) (user : User) (token : JwtPayload)
    (notAdmin : Role.admin ∉ dto.roles)
    (created : createUser env.config bcrypt users dto id salt = .ok (user, users'))
    (stored : user ∈ later) (unique : (later.map (·.username)).Nodup)
    (loggedIn : login bcrypt later user.username password = .ok token) :
    Isolated env token.principal ↔ dto.tenantId.getD env.config.defaultTenant ≠ "" := by
  obtain ⟨rfl, -⟩ := createUser_ok created
  rw [login_principal unique stored loggedIn]
  constructor
  · intro isolated unnamed
    exact not_isolated_of_empty notAdmin unnamed isolated
  · exact fun named => isolated_of_named notAdmin named

def sampleBcrypt : Bcrypt :=
  ⟨fun password salt => salt ++ password, fun password hash => hash == "$" ++ password⟩

def sampleUser : CreateUserDto := ⟨"bob", "correct horse", [.viewer], some "acme"⟩

theorem isolation_iff_named_sample : sampleUser.valid = true ∧ ∃ user token,
    createUser sampleConfig sampleBcrypt [] sampleUser 1 "$" = .ok (user, [user]) ∧
    login sampleBcrypt [user] "bob" "correct horse" = .ok token ∧
    Isolated sampleEnv token.principal := by
  refine ⟨by decide, _, _, rfl, rfl, ?_⟩
  refine (isolation_iff_named sampleEnv sampleBcrypt [] _ _ sampleUser 1 "$" "correct horse" _ _
    (by decide) rfl (List.mem_singleton_self _) (by decide) rfl).mpr ?_
  decide

/-- A DTO with an empty tenant is valid, and the user it creates is not isolated. -/
theorem isolation_fails : ¬ ∀ (env : Env) (bcrypt : Bcrypt) (users users' : List User)
    (dto : CreateUserDto) (id : Nat) (salt password : String) (user : User) (token : JwtPayload),
    dto.valid = true → Role.admin ∉ dto.roles →
    createUser env.config bcrypt users dto id salt = .ok (user, users') →
    login bcrypt users' user.username password = .ok token → Isolated env token.principal := by
  intro always
  have isolated := always sampleEnv sampleBcrypt [] _ { sampleUser with tenantId := some "" } 1 "$"
    "correct horse" _ _ (by decide) (by decide) rfl rfl
  exact not_isolated_of_empty (by decide) rfl isolated

end Users

end TenantIsolation
