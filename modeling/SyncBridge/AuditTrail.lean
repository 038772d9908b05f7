import SyncBridge.Finality
import SyncBridge.GrowingKnowledge

/-!
# The rows as an audit trail

The `file_transfers` table doubles as the audit log. Its rows come from upload
notifications and from nothing else, with the data of the notification; no operation
ever alters that part of a row; and a row goes only when the retention job deletes it,
which takes a finished transfer that nothing has touched for the configured number of
days. Its number is not given again.

The retention job reads the clock first and deletes later, so the age of a row is
measured against a moment in the past.
-/

namespace AuditTrail

open AwaitPrograms ThreadPools GrowingKnowledge Entities Database TableInvariants Calls Ingestion
open Management Orchestrator Footprints Finality

/-- The columns that describe the upload. -/
structure AuditColumns where
  id : ℕ
  idempotencyKey : String
  tenantId : String
  filename : String
  virtualPath : String
  sourcePath : String
  sizeBytes : ℕ
  username : String
  protocol : Option String
  sessionId : Option String
  createdAt : ℕ
  deriving DecidableEq, Repr

def audit (t : FileTransfer) : AuditColumns where
  id := t.id
  idempotencyKey := t.idempotencyKey
  tenantId := t.tenantId
  filename := t.filename
  virtualPath := t.virtualPath
  sourcePath := t.sourcePath
  sizeBytes := t.sizeBytes
  username := t.username
  protocol := t.protocol
  sessionId := t.sessionId
  createdAt := t.createdAt

theorem kept_audit : Kept audit := by
  intro now t p
  cases p <;> rfl

/-- A notification that `accept` goes on with, and the insert it makes. -/
def Admits (env : Env) (p : SftpgoWebhookDto) (input : CreatePendingInput) : Prop :=
  p.action = "upload" ∧ (p.status = none ∨ p.status = some 1) ∧
    ∃ sourcePath, resolveWithinRoot env p.path = some sourcePath ∧
    input = pendingInput env p sourcePath

/-- The row tells of this notification. -/
def RecordOf (env : Env) (p : SftpgoWebhookDto) (t : FileTransfer) : Prop :=
  ∃ input, Admits env p input ∧ audit t = audit (input.row t.id t.createdAt)

/-- The notifications that have come in. -/
def received (_ : SysWorld) : SysAct → List SftpgoWebhookDto
  | .request (.webhook p _) => [p]
  | _ => []

/-! ## Where rows come from -/

/-- Only the task of a notification inserts, and what it inserts is its record. -/
def recorder (env : Env) (task : Task) : Monitor Op Op.Ans Err Unit where
  may _ op := ∀ input, op = .db (.insertTransfer input) →
    ∃ p carrier, task = .accept p carrier ∧ Admits env p input
  next _ _ _ _ := True

section Origin
variable {env : Env}

theorem recorder_of_within {α : Type} {task : Task} {P : Op → Prop} {E : Err → Prop} {p : Async α}
    (h : Within P AnyErr E p) (imp : ∀ op, P op → (recorder env task).may () op) :
    Obeys (recorder env task) (fun _ _ => True) () p := by
  refine (h.obeys (I := fun _ => True) ?_ ?_ trivial).mono p fun _ _ _ => trivial
  · exact fun _ op _ hop => imp op hop
  · exact fun _ _ _ _ _ _ _ => ⟨trivial, fun _ _ => trivial⟩

theorem accept_recorded (p : SftpgoWebhookDto) (carrier : List (String × String)) :
    Obeys (recorder env (.accept p carrier)) (fun _ _ => True) () (accept env p carrier) := by
  unfold accept
  split
  · trivial
  rename_i action
  split
  · trivial
  rename_i status
  split
  · trivial
  rename_i sourcePath inside
  have uploaded : p.action = "upload" := by simpa using action
  have success : p.status = none ∨ p.status = some 1 := by
    by_cases none : p.status = none
    · exact .inl none
    · exact .inr (by simpa [none] using status)
  have covered : Within (fun op => ∀ input, op = .db (.insertTransfer input) →
      input = pendingInput env p sourcePath)
      AnyErr AnyErr (createTransferWithOutbox (pendingInput env p sourcePath) carrier) := by
    have other : ∀ op : Op, (∀ input, op ≠ .db (.insertTransfer input)) →
        ∀ input, op = .db (.insertTransfer input) → input = pendingInput env p sourcePath :=
      fun op ne input same => absurd same (ne input)
    refine within_tryCatch (F := AnyErr) ?_ ?_
    · refine within_bind (transaction_within (fun _ _ => trivial) ?_ ?_ ?_ ?_)
        fun _ => within_pure _
      · refine within_bind (within_call ?_ fun _ _ => trivial) fun saved => ?_
        · intro input same
          cases same
          rfl
        · exact within_bind (within_call (other _ fun _ same => by cases same) fun _ _ => trivial)
            fun _ => within_pure saved
      all_goals exact other _ fun _ same => by cases same
    · intro e _
      split
      · exact within_pure _
      · trivial
  refine (recorder_of_within covered ?_).andThen ?_ fun _ _ _ => trivial
  · intro op only input same
    exact ⟨p, carrier, rfl, uploaded, success, sourcePath, inside, only input same⟩
  · intro _ record _
    split <;> trivial

theorem code_recorded (task : Task) :
    Obeys (recorder env task) (fun _ _ => True) () (code env task) := by
  cases task with
  | accept p carrier =>
    exact (accept_recorded p carrier).andThen (fun _ _ _ => trivial) fun _ _ _ => trivial
  | _ =>
    refine recorder_of_within (code_within _) fun op call input same => ?_
    subst same
    exact call.elim

/-- All rows, committed or not, are records of notifications that have come in, and so
are the payloads of the tasks under way. -/
structure Documented (env : Env) (s : State) (tasks : List (Task × Unit))
    (log : List SftpgoWebhookDto) : Prop where
  rows : ∀ t ∈ allRows s.db, ∃ p ∈ log, RecordOf env p t
  tasks : ∀ x ∈ tasks, ∀ p carrier, x.1 = .accept p carrier → p ∈ log

theorem RecordOf.patched {p : SftpgoWebhookDto} {t : FileTransfer} (h : RecordOf env p t) (now : ℕ)
    (patch : Patch) :
    RecordOf env p (patch.apply now t) := by
  obtain ⟨input, admitted, same⟩ := h
  refine ⟨input, admitted, (kept_audit now t patch).trans ?_⟩
  rw [same]
  cases patch <;> rfl

theorem Documented.same {s s' : State} {xs xs' : List (Task × Unit)}
    {log log' : List SftpgoWebhookDto} (h : Documented env s xs log) (db : s'.db = s.db)
    (grown : log ⊆ log') (tasks : ∀ x ∈ xs', ∀ p carrier, x.1 = .accept p carrier → p ∈ log') :
    Documented env s' xs' log' := by
  refine ⟨?_, tasks⟩
  rw [db]
  intro t ht
  obtain ⟨p, hp, record⟩ := h.rows t ht
  exact ⟨p, grown hp, record⟩

theorem documented_logged :
    Logged (machine env) anyStep received (recorder env) (fun _ _ _ => True) ()
    (fun _ => True) (Documented env) where
  code := code_recorded
  request w q s task xs log _ _ h entered := by
    have grown : log ⊆ log ++ received w (.request q) := List.subset_append_left _ _
    refine h.same (enter_db entered).1 grown ?_
    intro x hx p carrier same
    rcases List.mem_append.mp hx with old | new
    · exact grown (h.tasks x old p carrier same)
    · rw [List.mem_singleton.mp new] at same
      obtain rfl : task = .accept p carrier := same
      have webhook : q = .webhook p carrier := by
        have entered' : enter q w.store = some (s, .accept p carrier) := entered
        cases q with
        | takeJob jobId =>
          simp only [enter, takeJob] at entered'
          split at entered'
          · cases entered'
          · split at entered' <;> cases entered'
        | _ =>
          cases entered'
          try rfl
      rw [webhook]
      exact List.mem_append_right _ (List.mem_singleton_self p)
  resume w pid c ts t us op k a s v l r log _ _ _ _ _ h may answered := by
    have quiet : log ++ received w (.resume pid c) = log := List.append_nil log
    refine ⟨(), trivial, ?_⟩
    rw [quiet]
    refine ⟨?_, h.tasks⟩
    rcases exec_effect_db answered with same | ⟨dbOp, rfl, effect⟩
    · rw [same]
      exact h.rows
    · refine effect_all (P := fun t => ∃ p ∈ log, RecordOf env p t) effect ?_ ?_ ?_ h.rows
      · rintro input id startedAt rfl
        obtain ⟨p, carrier, task, admitted⟩ := may input rfl
        have known := h.tasks (t.task, v)
            (List.mem_append_right _ List.mem_cons_self) p carrier task
        exact ⟨p, known, input, admitted, rfl⟩
      · rintro id p t - - ⟨q, hq, record⟩
        exact ⟨q, hq, record.patched _ p⟩
      · rintro now t ⟨q, hq, record⟩
        exact ⟨q, hq, record.patched now _⟩
  settle w pid task v out l r log h _ := by
    refine h.same (finish_db env task out w.store) (List.subset_append_left _ _) ?_
    intro x hx p carrier same
    rcases List.mem_append.mp hx with old | new
    · refine List.mem_append_left _ (h.tasks x ?_ p carrier same)
      rcases List.mem_append.mp old with left | right
      · exact List.mem_append_left _ left
      · exact List.mem_append_right _ (List.mem_cons_of_mem _ right)
    · obtain ⟨new, hnew, rfl⟩ := List.mem_map.mp new
      obtain ⟨_, _, _, _, -, -, -, started⟩ := finish_tasks hnew
      rw [started] at same
      cases same
  crash w pid ts t us v l r log _ _ h := by
    refine ⟨?_, ?_⟩
    · intro row hrow
      obtain ⟨p, hp, record⟩ :=
        dropTx_all (P := fun t => ∃ p ∈ log, RecordOf env p t) h.rows row hrow
      exact ⟨p, List.mem_append_left _ hp, record⟩
    · intro x hx p carrier same
      refine List.mem_append_left _ (h.tasks x ?_ p carrier same)
      rcases List.mem_append.mp hx with left | right
      · exact List.mem_append_left _ left
      · exact List.mem_append_right _ (List.mem_cons_of_mem _ right)
  outside w e s xs log h happened := by
    refine h.same (outside_db happened) (List.subset_append_left _ _) ?_
    exact fun x hx p carrier same => List.mem_append_left _ (h.tasks x hx p carrier same)

end Origin

/-! ## How rows go -/

/-- The retention job deletes what was old at a time the clock has shown; nobody else
deletes. -/
def retention (env : Env) (F : ℕ → Prop) (task : Task) : Monitor Op Op.Ans Err Unit where
  may _ op := ∀ cutoff, op = .db (.deleteTerminalOlderThan cutoff) →
    task = .purge ∧ 0 < env.config.auditDays ∧
    ∃ n, F n ∧ cutoff = n - env.config.auditDays * msPerDay
  next _ op a _ := match op, a with
    | .host .now, .ok n => F n
    | _, _ => True

/-- A time that has been reached. -/
def reached (s : State) (n : ℕ) : Prop := n ≤ s.host.now

section Retention
variable {env : Env}

theorem code_retention (F : ℕ → Prop) (task : Task) :
    Obeys (retention env F task) (fun _ _ => True) () (code env task) := by
  cases task with
  | purge =>
    refine Obeys.andThen (q := fun _ _ => True) ?_ (fun _ _ _ => trivial) fun _ _ _ => trivial
    unfold purge
    split
    · trivial
    rename_i days
    refine obeys_call (fun _ same => by cases same) ?_ fun _ _ _ => trivial
    intro now _ shown
    refine obeys_call ?_ (fun _ _ _ => trivial) fun _ _ _ => trivial
    intro cutoff same
    cases same
    exact ⟨rfl, by omega, now, shown, rfl⟩
  | _ =>
    refine ((code_within (R := AnyErr) _).obeys (I := fun _ => True) ?_ ?_ trivial).mono _
      fun _ _ _ => trivial
    · intro _ op _ call cutoff same
      subst same
      exact call.elim
    · exact fun _ _ _ _ _ _ _ => ⟨trivial, fun _ _ => trivial⟩

theorem exec_now {pid : ℕ} {op : Op} {c : Choice} {a : Except Err op.Ans} {s s' : State}
    (h : exec env pid op c s = some (a, s')) : s'.host.now = s.host.now := by
  cases exec_change h with
  | host o =>
    cases o with
    | enterRelay replica =>
      simp only [execHost]
      split <;> rfl
    | enterSweep replica =>
      simp only [execHost]
      split <;> rfl
    | _ => rfl
  | _ => rfl

theorem clock_known (env : Env) :
    Knowing (machine env) anyStep reached (retention env) (fun _ _ => True)
    (fun _ _ _ => True) (fun s => Consistent s.db) where
  code F task _ := code_retention F task
  more _ _ _ _ _ := trivial
  request w q s task _ h entered := by
    refine ⟨(enter_db entered).1 ▸ h, fun n hn => ?_, trivial⟩
    rcases enter_cases entered with ⟨rfl, -, -⟩ | ⟨_, _, -, -, -, rfl, -⟩ <;> exact hn
  resume w pid c l r t op k a s _ h found at_call may answered := by
    have clock := exec_now answered
    refine ⟨exec_consistent answered h, fun n hn => ?_, fun F known => ?_⟩
    · unfold reached
      rw [clock]
      exact hn
    · unfold retention
      dsimp only
      split
      · rename_i n
        apply known
        have shown : n = w.store.host.now := by
          cases exec_change answered with
          | host o => rfl
        unfold reached
        rw [clock, shown]
      · trivial
  settle task out s h _ := by
    refine ⟨finish_db env task out s ▸ h, fun n hn => ?_, fun _ _ => trivial⟩
    show n ≤ (finish env task out s).1.host.now
    rcases finish_cases env task out s with same | ⟨_, _, _, -, same⟩ | ⟨_, _, -, same⟩
    · rw [same]
      exact hn
    · rw [same]
      exact hn
    · rw [same]
      exact hn
  crash pid task s h := by
    refine ⟨dropTx_consistent h pid, fun n hn => ?_⟩
    cases task <;> exact hn
  outside e s s' h happened := by
    refine ⟨outside_db happened ▸ h, fun n hn => ?_⟩
    have happened' : outside e s = some s' := happened
    cases e with
    | clock ms =>
      cases happened'
      exact Nat.le_trans hn (Nat.le_add_right _ _)
    | writeFile path entry =>
      cases happened'
      exact hn
    | stalled jobId =>
      simp only [outside] at happened'
      split at happened'
      · cases happened'
      · split at happened'
        · cases happened'
          exact hn
        · cases happened'

/-- A step of the retention job that deletes the row: the transfer is finished, and
nothing has touched the row for the configured days. -/
structure Retires (env : Env) (w : SysWorld) (a : SysAct) (row : FileTransfer) : Prop where
  purging : ∃ pid c, a = .resume pid c ∧ ∃ t ∈ w.threads, t.pid = pid ∧ t.task = .purge
  finished : row.status = .success ∨ row.status = .failed
  enabled : 0 < env.config.auditDays
  old : row.updatedAt + env.config.auditDays * msPerDay < w.store.host.now

theorem purged_gone {now pid cutoff : ℕ} {db db' : Db} {a : Except Err ℕ} {row : FileTransfer}
    (h : Consistent db) (hrow : row ∈ db.transfers) (purgeable : Db.purgeable cutoff row = true)
    (ran : db.exec now pid (.deleteTerminalOlderThan cutoff) = some (a, db')) :
    Gone row.id db' := by
  simp only [Db.exec] at ran
  split at ran
  · cases ran
  cases ran
  refine ⟨h.rowsBelow row (List.mem_append_left _ hrow), fun other hother same => ?_⟩
  rcases List.mem_append.mp hother with committed | underway
  · obtain ⟨hm, kept⟩ := List.mem_filter.mp committed
    rw [row_unique h hm hrow same, purgeable] at kept
    cases kept
  · exact row_not_buffered h hrow underway same.symm

/-- One step keeps what a row tells, or retires the row. -/
theorem audit_step {w₀ w w' : SysWorld} {a : SysAct} (start : Initial w₀)
    (path : Reach (machine env) anyStep w₀ w) (move : (machine env).step w a = some w')
    {row : FileTransfer} (hrow : row ∈ w.store.db.transfers) :
    (∃ row' ∈ w'.store.db.transfers, audit row' = audit row) ∨
      Retires env w a row ∧ Gone row.id w'.store.db := by
  obtain ⟨consistent, threads⟩ :=
    (clock_known env).holds start.threads (initial_consistent start) path
  cases Machine.step_move move with
  | request s task entered eq =>
    subst eq
    exact .inl ⟨row, (enter_db entered).1 ▸ hrow, rfl⟩
  | settle l r t out found ended eq =>
    subst eq
    refine .inl ⟨row, ?_, rfl⟩
    show row ∈ (finish env t.task out w.store).1.db.transfers
    rw [finish_db]
    exact hrow
  | crash l r t found eq =>
    subst eq
    exact .inl ⟨row, hrow, rfl⟩
  | outside s happened eq =>
    subst eq
    exact .inl ⟨row, outside_db happened ▸ hrow, rfl⟩
  | resume l r t op k b s found at_call answered eq =>
    subst eq
    obtain ⟨hmem, -⟩ := mem_of_focus found
    rcases exec_effect_db answered with same | ⟨dbOp, rfl, effect⟩
    · exact .inl ⟨row, same ▸ hrow, rfl⟩
    · rcases column_kept kept_audit effect ⟨row, hrow, rfl⟩ with kept | ⟨cutoff, rfl, old, hold,
        same, purgeable⟩
      · exact .inl kept
      · have number : old.id = row.id := congrArg AuditColumns.id same
        obtain rfl : old = row := row_unique consistent hold hrow number
        rcases exec_db answered with ⟨_, _, -, rfl⟩ | ⟨db', ran, rfl⟩
        · exact .inl ⟨old, hrow, rfl⟩
        right
        have may := (threads t hmem).1 (reached w.store) fun _ hk => hk
        rw [at_call] at may
        obtain ⟨task, days, n, past, rfl⟩ := may.1 cutoff rfl
        have terminal : (old.status = .success ∨ old.status = .failed) ∧
            old.updatedAt < n - env.config.auditDays * msPerDay := by
          simpa [Db.purgeable] using purgeable
        refine ⟨⟨⟨_, _, rfl, t, hmem, (focus_some found).2, task⟩, terminal.1, days, ?_⟩, ?_⟩
        · have past' : n ≤ w.store.host.now := past
          omega
        · exact purged_gone consistent hrow purgeable ran

end Retention

section Trail
variable {env : Env}

theorem gone_move {w w' : SysWorld} {a : SysAct} {r : ℕ} (h : Consistent w.store.db)
    (move : (machine env).step w a = some w') (gone : Gone r w.store.db) : Gone r w'.store.db := by
  cases Machine.step_move move with
  | request s task entered eq =>
    subst eq
    exact (enter_db entered).1 ▸ gone
  | resume l r t op k b s found at_call answered eq =>
    subst eq
    exact gone_exec h answered gone
  | settle l r t out found ended eq =>
    subst eq
    exact finish_db env t.task out w.store ▸ gone
  | crash l r t found eq =>
    subst eq
    exact gone_effect h (drop_effect _ t.task w.store) gone
  | outside s happened eq =>
    subst eq
    exact outside_db happened ▸ gone

/-- A number that is gone is in no state that follows. -/
theorem gone_reach {w₀ w w' : SysWorld} (start : Initial w₀)
    (path : Reach (machine env) anyStep w₀ w) {r : ℕ} (gone : Gone r w.store.db)
    (later : Reach (machine env) anyStep w w') : Gone r w'.store.db := by
  induction later with
  | start => exact gone
  | step rest _ move ih =>
    have consistent :=
      ((clock_known env).holds start.threads (initial_consistent start) (path.trans rest)).1
    exact gone_move consistent move ih

/-- No row has this number. -/
def Absent (r : ℕ) (w : SysWorld) : Prop := ∀ row ∈ w.store.db.transfers, row.id ≠ r

theorem absent_of_gone {r : ℕ} {w : SysWorld} (gone : Gone r w.store.db) : Absent r w :=
  fun row hrow => gone.2 row (List.mem_append_left _ hrow)

/-- On the way from `w` to `w'`, a step of the retention job has taken the row away: it
was there before the step, and no state after it has a row with its number. -/
def Retired (env : Env) (row : FileTransfer) (w w' : SysWorld) : Prop :=
  ∃ w₁ w₂ a last, Reach (machine env) anyStep w w₁ ∧ (machine env).step w₁ a = some w₂ ∧
    Reach (machine env) anyStep w₂ w' ∧ last ∈ w₁.store.db.transfers ∧ audit last = audit row ∧
    Retires env w₁ a last ∧ ∀ w₃, Reach (machine env) anyStep w₂ w₃ → Absent row.id w₃

theorem trail_kept {w₀ w w' : SysWorld} (start : Initial w₀)
    (path : Reach (machine env) anyStep w₀ w) {row : FileTransfer}
    (hrow : row ∈ w.store.db.transfers) (later : Reach (machine env) anyStep w w') :
    (∃ row' ∈ w'.store.db.transfers, audit row' = audit row) ∨ Retired env row w w' := by
  induction later with
  | start => exact .inl ⟨row, hrow, rfl⟩
  | step rest _ move ih =>
    rcases ih with ⟨row', hrow', same⟩ | ⟨w₁, w₂, a, last, before, deleted, after, retired⟩
    · rcases audit_step start (path.trans rest) move hrow' with ⟨row'', kept,
        same'⟩ | ⟨retires, gone⟩
      · exact .inl ⟨row'', kept, same'.trans same⟩
      · have number : row'.id = row.id := congrArg AuditColumns.id same
        rw [number] at gone
        refine .inr ⟨_, _, _, row', rest, move, .start, hrow', same, retires, fun w₃ after => ?_⟩
        exact absent_of_gone (gone_reach start ((path.trans rest).step trivial move) gone after)
    · exact .inr ⟨w₁, w₂, a, last, before, deleted, .step after trivial move, retired⟩

/-- Every row tells of a notification that has come in; in every later state it still
tells the same, unless the retention job has taken it away on the way, and then its
number is in no state from there on. -/
theorem audit_trail {w₀ w : SysWorld} {log : List SftpgoWebhookDto} (start : Initial w₀)
    (path : Traced (machine env) anyStep received w₀ w log) {row : FileTransfer}
    (hrow : row ∈ w.store.db.transfers) :
    (∃ p ∈ log, RecordOf env p row) ∧ ∀ w', Reach (machine env) anyStep w w' →
      (∃ row' ∈ w'.store.db.transfers, audit row' = audit row) ∨ Absent row.id w' ∧
      Retired env row w w' := by
  have first : Documented env w₀.store [] [] := by
    refine ⟨fun t ht => ?_, fun _ hx => by cases hx⟩
    simp [allRows, buffered, start.transfers, start.openTxs] at ht
  obtain ⟨tasks, -, documented⟩ :=
    documented_logged.holds start.threads (fun _ _ => trivial) first path
  refine ⟨documented.rows row (List.mem_append_left _ hrow), fun w' later => ?_⟩
  rcases trail_kept start path.reach hrow later with kept | retired
  · exact .inl kept
  · obtain ⟨w₁, w₂, a, last, before, deleted, after, there, same, retires, absent⟩ := retired
    exact .inr ⟨absent w' after, w₁, w₂, a, last, before, deleted, after, there, same,
      retires, absent⟩

end Trail

/-- Rows are kept for a day. -/
def dayEnv : Env := { sampleEnv with config := { sampleConfig with auditDays := 1 } }

/-- The sample upload is accepted and goes through. -/
def sampleStored : List SysAct :=
  sampleAccepted ++ sampleRelay 1 ++ .request (.takeJob 0) :: answer 2 9 ++ [.settle 2]

/-- Two days later the retention job runs. -/
def samplePurge : List SysAct :=
  [.outside (.clock (2 * msPerDay)), .request .purgeTick] ++ answer 3 2 ++ [.settle 3]

/-- The row of the sample upload is there when the upload has gone through, and two days
later the retention job has taken it away. -/
theorem audit_trail_sample : ∃ (w w' : SysWorld) (log : List SftpgoWebhookDto) (row : FileTransfer),
    Initial sampleWorld ∧ Traced (machine dayEnv) anyStep received sampleWorld w log ∧
    row ∈ w.store.db.transfers ∧ (∃ p ∈ log, RecordOf dayEnv p row) ∧
    Reach (machine dayEnv) anyStep w w' ∧ w'.store.db.transfers = [] ∧ Retired dayEnv row w w' := by
  have run : ((machine dayEnv).steps sampleWorld (sampleStored ++ samplePurge)).map
      (fun w => w.store.db.transfers.length) = some 0 := by decide +kernel
  obtain ⟨w', hw', gone⟩ := Option.map_eq_some_iff.mp run
  obtain ⟨w, hw, rest⟩ := stepsIf_split _ _ hw'
  have stored : ((machine dayEnv).steps sampleWorld sampleStored).map
      (fun w => w.store.db.transfers.length) = some 1 := by decide +kernel
  obtain ⟨v, hv, one⟩ := Option.map_eq_some_iff.mp stored
  obtain rfl : w = v := Option.some.inj (hw.symm.trans hv)
  obtain ⟨row, hrow⟩ := List.length_eq_one_iff.mp one
  have hmem : row ∈ w.store.db.transfers := by rw [hrow]; exact List.mem_singleton_self row
  have empty : w'.store.db.transfers = [] := List.length_eq_zero_iff.mp gone
  have later : Reach (machine dayEnv) anyStep w w' := reach_of_steps _ rest
  obtain ⟨log, traced⟩ := (reach_of_steps _ hw).traced received
  obtain ⟨record, trail⟩ := audit_trail sample_initial traced hmem
  refine ⟨w, w', log, row, sample_initial, traced, hmem, record, later, empty, ?_⟩
  rcases trail w' later with ⟨row', kept, -⟩ | ⟨-, retired⟩
  · rw [empty] at kept
    cases kept
  · exact retired

end AuditTrail
