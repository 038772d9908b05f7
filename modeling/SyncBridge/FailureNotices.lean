import SyncBridge.Announcements
import SyncBridge.OutboxSafety

/-!
# A transfer that has failed

Three operations mark a row FAILED: an attempt that meets a permanent problem,
the handler of a job without attempts left, and the recovery sweep. The first two
publish `transfer.failed` and add a dead letter before they end. The sweep does
neither, so a failure is noticed only in runs in which no sweep finds a stuck row
whose attempts are used up. The handler reads the row again for its event; the
purge must not delete it in between.

`failing` observes one row from inside one operation: nothing has happened yet,
the row has just been marked, or the operation is telling others.
-/

namespace FailureNotices

open AwaitPrograms ThreadPools Entities Database TableInvariants Calls Ingestion Worker Management
open Orchestrator Footprints Announcements OutboxSafety

inductive Phase where
  | idle
  | marked
  | telling (told : Told)

/-- The call marks the row FAILED. -/
def Fails (r : Nat) : Op → Prop
  | .db (.update id (.markFailed _)) => id = r
  | _ => False

/-- The row was read and is not there. -/
def Missing (r : Nat) : (op : Op) → Except Err op.Ans → Prop
  | .db (.findOne .pool id), .ok none => id = r
  | _, _ => False

def Hears (r : Nat) : Phase → (op : Op) → Except Err op.Ans → Phase → Prop
  | .idle, op, a, st => Fails r op ∧ (∃ v, a = .ok v) ∧ st = .marked
  | .marked, op, a, st => ¬ Missing r op a ∧ st = .telling (Told.nothing.hear op a)
  | .telling told, op, a, st => st = .telling (told.hear op a)

/-- What reads answer: the row is the tenant's, and stuck rows have attempts left. -/
def Expected (env : Env) (r : Nat) (tenantId : String) : (op : Op) → Except Err op.Ans → Prop
  | .db (.findOne .pool _), .ok (some t) => t.id = r → t.tenantId = tenantId
  | .db (.findStuck _ _), .ok rows => ∀ t ∈ rows, t.attempts < env.config.transferMaxAttempts
  | _, _ => True

/-- Calls that are answered as long as the services are up. -/
def Reliable : Op → Prop
  | .db (.findOne .pool _) => True
  | op => Tells op

/-- Only the `failed` handler reads a row that it has just marked. -/
def failing (env : Env) (task : Task) (r : Nat) (tenantId : String) :
    Monitor Op Op.Ans Err Phase where
  may st op := st = .marked → op = .db (.findOne .pool r) → ∃ job err, task = .onFailed job err
  next st op a st' := Sound op a ∧ Expected env r tenantId op a ∧ (Reliable op → ∃ v, a = .ok v) ∧
    (st' = .idle ∨ Hears r st op a st')

/-- The failure of the row was published and put in the dead-letter queue. -/
def Complete (env : Env) (r : Nat) (tenantId : String) (told : Told) : Prop :=
  (∃ event : TransferEvent, event.type = .transferFailed ∧ event.transferId = r ∧
    event.tenantId = tenantId ∧ told.Publishes env event) ∧ ∃ d ∈ told.dead, d.transferId = r

/-- An operation that has marked the row ends with the failure told. -/
def Settled (env : Env) (r : Nat) (tenantId : String) (st : Phase) : Prop :=
  st = .idle ∨ ∃ told, st = .telling told ∧ Complete env r tenantId told

section Programs
variable {env : Env} {task : Task} {r : Nat} {tenantId : String}

/-- Calls that do not mark the row leave an idle observer idle. -/
theorem failing_of_within {α : Type} {P : Op → Prop} {E : Err → Prop} {p : Async α}
    (h : Within P Retryable E p) (calls : ∀ op, P op → ¬ Fails r op) :
    Obeys (failing env task r tenantId) (fun st _ => st = .idle) .idle p := by
  refine (h.obeys (I := fun st => st = .idle) ?_ ?_ rfl).mono _ fun _ _ h => h.1
  · intro st op hst _ hm
    rw [hst] at hm
    cases hm
  · rintro st op a st' rfl hop ⟨sound, -, -, hnext⟩
    refine ⟨?_, sound.rejected⟩
    rcases hnext with h | ⟨hf, -⟩
    · exact h
    · exact absurd hf (calls op hop)

/-- The observer has followed the operation, or has lost sight of it. -/
def Follows (told : Told) (st : Phase) : Prop :=
  st = .idle ∨ st = .telling told ∨ st = .marked ∧ told = .nothing

theorem not_fails_of_publish {op : Op} (h : PublishCall op) : ¬ Fails r op := by
  unfold PublishCall at h
  split at h <;> first | exact id | exact h.elim

theorem follows_next {told : Told} {st st' : Phase} {op : Op} {a : Except Err op.Ans}
    (next : (failing env task r tenantId).next st op a st') (h : Follows told st)
    (hop : Reliable op) (notFails : ¬ Fails r op) :
    (∃ v, a = .ok v) ∧ Follows (told.hear op a) st' := by
  obtain ⟨-, -, answered, hnext⟩ := next
  refine ⟨answered hop, ?_⟩
  rcases hnext with h' | heard
  · exact .inl h'
  · rcases h with rfl | rfl | ⟨rfl, rfl⟩
    · exact absurd heard.1 notFails
    · exact .inr (.inl heard)
    · exact .inr (.inl heard.2)

theorem publishCall_reliable {op : Op} (h : PublishCall op) : Reliable op := by
  unfold PublishCall at h
  split at h <;> trivial

/-- The end of an operation that has marked the row: publish, then dead-letter. -/
theorem announce_failing {t : FileTransfer} (hid : t.id = r) (htenant : t.tenantId = tenantId)
    (message : String) {st : Phase} (start : Follows .nothing st) :
    Obeys (failing env task r tenantId) (fun st _ => Settled env r tenantId st) st
      ((publishTransferEvent env t .transferFailed (.failed message)).bind
        fun _ => toDeadLetter r message) := by
  have may : ∀ told st op, Follows told st → PublishCall op →
      (failing env task r tenantId).may st op := by
    rintro told st op - hop - rfl
    exact hop.elim
  have published := publish_told (m := failing env task r tenantId) (S := Follows) env t
    .transferFailed (.failed message) may
    (fun told st op a st' h hop hn =>
      follows_next hn h (publishCall_reliable hop) (not_fails_of_publish hop))
    start
  refine published.andThen ?_ fun _ _ h => (nomatch h.1)
  rintro st₁ _ ⟨-, told, hst, -, hpub⟩
  refine ⟨fun _ h => (nomatch h), fun a st₂ hn => ?_⟩
  obtain ⟨⟨v, rfl⟩, hst₂⟩ := follows_next hn hst trivial id
  have complete :
      Complete env r tenantId (told.hear (.queue (.addDeadLetter ⟨r, message⟩)) (.ok v)) := by
    refine ⟨⟨_, rfl, hid, htenant, hpub.le (told.hear_le _ _)⟩, ?_⟩
    exact ⟨⟨r, message⟩, List.mem_cons_self, rfl⟩
  rcases hst₂ with rfl | rfl | ⟨-, heq⟩
  · exact .inl rfl
  · exact .inr ⟨_, rfl, complete⟩
  · rw [heq] at complete
    obtain ⟨-, d, hd, -⟩ := complete
    cases hd

/-- The calls of `reject` for another row. -/
theorem reject_other {t : FileTransfer} (hid : t.id ≠ r) (message : String) :
    Within (fun op => ¬ Fails r op) Retryable AnyErr (reject env t (.nonRetryable message)) := by
  have any : ∀ e, Retryable e → AnyErr e := fun _ _ => trivial
  refine within_bind (within_call hid any) fun _ => within_bind ?_ fun _ => within_call id any
  exact (publish_within t _ _).mono (fun _ h => not_fails_of_publish h) any

/-- What a permanent problem ends with. -/
theorem reject_failing {t : FileTransfer} (htenant : t.id = r → t.tenantId = tenantId) (e : Err) :
    Obeys (failing env task r tenantId) (fun st _ => Settled env r tenantId st) .idle
      (reject env t e) := by
  cases e with
  | nonRetryable message =>
    by_cases hid : t.id = r
    · subst hid
      refine obeys_call (fun h => (nomatch h)) ?_ ?_
      · rintro _ st ⟨-, -, -, rfl | ⟨-, -, rfl⟩⟩
        · exact announce_failing rfl (htenant rfl) message (.inl rfl)
        · exact announce_failing rfl (htenant rfl) message (.inr (.inr ⟨rfl, rfl⟩))
      · rintro e st ⟨-, -, -, rfl | ⟨-, ⟨v, hv⟩, -⟩⟩
        · exact .inl rfl
        · cases hv
    · exact (failing_of_within (reject_other hid message) fun _ h => h).mono _ fun _ _ h => .inl h
  | _ => exact .inl rfl

/-- A call that does not mark the row, made by an idle operation. -/
theorem idle_next {op : Op} {a : Except Err op.Ans} {st : Phase}
    (next : (failing env task r tenantId).next .idle op a st) (notFails : ¬ Fails r op) :
    st = .idle := by
  rcases next.2.2.2 with h | ⟨h, -⟩
  · exact h
  · exact absurd h notFails

theorem runTransfer_failing (data : TransferJobData) :
    Obeys (failing env task r tenantId) (fun st _ => Settled env r tenantId st) .idle
      (runTransfer env data) := by
  refine obeys_call (fun h => (nomatch h)) ?_ fun e st hn => .inl (idle_next hn id)
  intro found st hn
  obtain rfl := idle_next hn id
  split
  · exact .inl rfl
  · rename_i t
    have htenant : t.id = r → t.tenantId = tenantId := hn.2.1
    split
    · exact .inl rfl
    · refine obeys_call (fun h => (nomatch h)) ?_ fun e st hn => .inl (idle_next hn id)
      intro _ st hn'
      obtain rfl := idle_next hn' id
      have any : ∀ e, Retryable e → AnyErr e := fun _ _ => trivial
      refine Obeys.orElse (q := fun st _ => st = .idle) ?_ (fun _ _ h => .inl h) ?_
      · refine failing_of_within (P := fun op => ¬ Fails r op) (E := AnyErr) ?_ fun _ h => h
        refine within_bind ((prepare_within t).mono (fun op h => ?_) fun _ h => h) fun u => ?_
        · unfold PrepareCall at h
          split at h <;> first | exact id | exact h.elim
        · refine within_bind (within_call id any) fun _ =>
            within_bind (within_call id any) fun _ => ?_
          exact (publish_within t _ _).mono (fun _ h => not_fails_of_publish h) any
      · rintro _ e rfl
        exact reject_failing htenant e

/-- The calls of the handler for another row. -/
theorem onFailed_other {job : Job} (hid : job.data.transferId ≠ r) (err : Err) :
    Within (fun op => ¬ Fails r op) Retryable Retryable (onFailed env job err) := by
  unfold onFailed
  split
  · exact within_pure ()
  refine within_bind (within_call hid fun _ h => h)
    fun _ => within_bind (within_call id fun _ h => h) ?_
  intro found
  refine within_bind ?_ fun _ => within_call id fun _ h => h
  split
  · exact within_pure ()
  · exact (publish_within _ _ _).mono (fun _ h => not_fails_of_publish h) fun _ h => h

/-- The handler marks the row, reads it for the event, publishes and dead-letters. -/
theorem onFailed_failing (job : Job) (err : Err) :
    Obeys (failing env (.onFailed job err) r tenantId) (fun st _ => Settled env r tenantId st) .idle
      (onFailed env job err) := by
  by_cases hid : job.data.transferId = r
  · subst hid
    unfold onFailed
    split
    · exact .inl rfl
    refine obeys_call (fun h => (nomatch h)) ?_ ?_
    · intro _ st hn
      have hst : st = .idle ∨ st = .marked := hn.2.2.2.imp_right fun h => h.2.2
      refine obeys_call (fun _ _ => ⟨job, err, rfl⟩) ?_ ?_
      · intro found st₁ hn'
        have follows : Follows .nothing st₁ ∧ (found = none → st₁ = .idle) := by
          rcases hn'.2.2.2 with rfl | heard
          · exact ⟨.inl rfl, fun _ => rfl⟩
          · rcases hst with rfl | rfl
            · exact absurd heard.1 id
            · refine ⟨.inr (.inl heard.2), fun hnone => ?_⟩
              subst hnone
              exact absurd rfl heard.1
        cases found with
        | none =>
          obtain rfl := follows.2 rfl
          refine (failing_of_within (P := fun op => ¬ Fails _ op) (E := Retryable) ?_
            fun _ h => h).mono _
            fun _ _ h => .inl h
          exact within_bind (within_pure _) fun _ => within_call id fun _ h => h
        | some t =>
          have hid : t.id = job.data.transferId := hn'.1.answered _ rfl t rfl
          exact announce_failing hid (hn'.2.1 hid) (exhausted job err) follows.1
      · rintro e st₁ ⟨-, -, answered, -⟩
        obtain ⟨v, hv⟩ := answered trivial
        cases hv
    · rintro e st ⟨-, -, -, rfl | ⟨-, ⟨v, hv⟩, -⟩⟩
      · exact .inl rfl
      · cases hv
  · exact (failing_of_within (onFailed_other hid err) fun _ h => h).mono _ fun _ _ h => .inl h

/-- With attempts left a stuck row is queued again. -/
theorem recover_failing {t : FileTransfer} (h : t.attempts < env.config.transferMaxAttempts) :
    Obeys (failing env task r tenantId) (fun st _ => st = .idle) .idle (recover env t) := by
  unfold recover
  rw [if_neg (Nat.not_le_of_lt h)]
  exact ⟨fun h => (nomatch h), fun a st hn => idle_next hn id⟩

theorem sweep_failing (replica : Nat) :
    Obeys (failing env task r tenantId) (fun st _ => st = Phase.idle) .idle
      (sweep env replica) := by
  refine sweep_obeys (I := fun st => st = Phase.idle)
    (J := fun rest st => st = Phase.idle ∧ ∀ t ∈ rest,
      t.attempts < env.config.transferMaxAttempts) replica
    ?_ ?_ ?_ (fun _ h => h.1) rfl
  · rintro _ h rfl
    exact ⟨fun h => (nomatch h), fun _ _ hn => idle_next hn id⟩
  · rintro _ stale limit rfl
    refine ⟨fun h => (nomatch h), fun found st hn => ?_⟩
    obtain rfl := idle_next hn id
    refine ⟨rfl, fun stuck answered => ⟨rfl, ?_⟩⟩
    subst answered
    exact hn.2.1
  · rintro _ t rest ⟨rfl, attempts⟩
    refine (recover_failing (attempts t List.mem_cons_self)).mono _ ?_
    rintro _ out rfl
    exact ⟨rfl, fun _ _ => ⟨rfl, fun t' ht => attempts t' (List.mem_cons_of_mem t ht)⟩⟩

theorem code_failing (task : Task) :
    Obeys (failing env task r tenantId) (fun st _ => Settled env r tenantId st) .idle
      (code env task) := by
  cases task with
  | process jobId data => exact (runTransfer_failing data).andThen (fun _ _ h => h) fun _ _ h => h
  | onFailed job err => exact (onFailed_failing job err).andThen (fun _ _ h => h) fun _ _ h => h
  | sweep replica =>
    exact (sweep_failing replica).andThen (fun _ _ h => .inl h) fun _ _ h => .inl h
  | _ =>
    refine (failing_of_within (code_within _) fun op call fails => ?_).mono _ fun _ _ h => .inl h
    unfold Fails at fails
    split at fails <;> first | exact call | exact fails

end Programs

section Runs
variable {env : Env} {r : Nat} {tenantId : String}

/-- Calls to the database, the queues and Kafka. -/
def backing : Op → Bool
  | .db _ => true
  | .queue _ => true
  | .kafkaSend _ _ => true
  | _ => false

/-- No call to the database, a queue or Kafka is rejected. -/
def Faultless (w : SysWorld) : SysAct → Prop
  | .resume pid c =>
    ∀ t ∈ w.threads, t.pid = pid → ∀ op, t.prog.head = some op → backing op = true →
      c.fault = none
  | _ => True

/-- A sweep finds only rows that have attempts left, and the purge spares the rows
that a `failed` handler is about to read. -/
def Spared (env : Env) (w : SysWorld) : Op → Prop
  | .db (.findStuck staleBefore limit) => ∀ row ∈ stuckRows w.store.db staleBefore limit,
      row.attempts < env.config.transferMaxAttempts
  | .db (.deleteTerminalOlderThan cutoff) => ∀ row ∈ w.store.db.transfers,
      Db.purgeable cutoff row = true → ∀ t ∈ w.threads, (∃ job err, t.task = .onFailed job err) →
        t.prog.head ≠ some (.db (.findOne .pool row.id))
  | _ => True

def Attended (env : Env) (w : SysWorld) (a : SysAct) : Prop :=
  Faultless w a ∧ ∀ pid c, a = .resume pid c → ∀ t ∈ w.threads, t.pid = pid → ∀ op,
    t.prog.head = some op → Spared env w op

/-- The row has this tenant, if it was ever committed. -/
def TenantOf (r : Nat) (tenantId : String) (db : Db) : Prop :=
  ∀ t ∈ db.inserted, t.id = r → t.tenantId = tenantId

/-- The operation would tell of a failure of the row that it made from now on. -/
def Watchful (env : Env) (r : Nat) (s : State) (t : SysThread) : Prop :=
  ∀ tenantId, TenantOf r tenantId s.db →
    Obeys (failing env t.task r tenantId) (fun st _ => Settled env r tenantId st) .idle t.prog

theorem Watchful.grow {s s' : State} {t : SysThread} (h : Watchful env r s t)
    (inserted : ∀ x ∈ s.db.inserted, x ∈ s'.db.inserted) : Watchful env r s' t :=
  fun tenantId htenant => h tenantId fun x hx => htenant x (inserted x hx)

theorem exec_reliable {pid : Nat} {c : Choice} {s s' : State} {op : Op} {a : Except Err op.Ans}
    (h : exec env pid op c s = some (a, s')) (reliable : Reliable op)
    (noFault : backing op = true → c.fault = none) : ∃ v, a = .ok v := by
  have tells : Tells op → backing op = true := by
    intro ht
    cases op with
    | db _ | queue _ | kafkaSend _ _ => rfl
    | _ => exact ht.elim
  by_cases ht : Tells op
  · exact exec_tells h ht (noFault (tells ht))
  · cases op with
    | db dbOp => cases dbOp with
      | findOne mgr id =>
        unfold exec at h
        rw [noFault rfl] at h
        cases h
        exact ⟨_, rfl⟩
      | _ => exact absurd reliable ht
    | _ => exact absurd reliable ht

/-- In attended runs reads answer what the observer expects. -/
theorem exec_expected {w : SysWorld} {pid : Nat} {c : Choice} {s' : State} {op : Op}
    {a : Except Err op.Ans} (hs : Sealed w.store) (htenant : TenantOf r tenantId w.store.db)
    (spared : Spared env w op) (h : exec env pid op c w.store = some (a, s')) :
    Expected env r tenantId op a := by
  unfold Expected
  split
  · rename_i id t
    intro hid
    rcases exec_db h with ⟨_, _, hr, -⟩ | ⟨db', ran, -⟩
    · cases hr
    · simp only [Db.exec, Option.some.injEq, Prod.mk.injEq, Except.ok.injEq] at ran
      obtain ⟨t', ht', same⟩ := hs.ledgered t (List.mem_of_find?_eq_some ran.1)
      obtain ⟨hid', -, htenant'⟩ := identity_eq same
      exact htenant'.symm.trans (htenant t' ht' (hid'.trans hid))
  · rename_i staleBefore limit rows
    exact fun t ht => spared t (findStuck_answer h ▸ ht)
  · trivial

theorem attended_answer {w : SysWorld} {pid : Nat} {c : Choice} {l l' : List SysThread}
    {t : SysThread} {op : Op} {k : Except Err op.Ans → Async Reply}
    (ok : Attended env w (.resume pid c)) (found : focus pid w.threads = some (l, t, l'))
    (at_call : t.prog = .await op k) :
    (backing op = true → c.fault = none) ∧ Spared env w op := by
  have head : t.prog.head = some op := by rw [at_call]; rfl
  have hmem := (mem_of_focus found).1
  have hpid := (focus_some found).2
  exact ⟨fun hb => ok.1 t hmem hpid op head hb, ok.2 pid c rfl t hmem hpid op head⟩

theorem watchful_threadwise (r : Nat) :
    Threadwise (machine env) (fun w a => Attended env w a ∧ Sealed w.store) (fun _ => True)
      (Watchful env r) where
  request w q s task _ _ hT entered := by
    have still := enter_still entered
    refine ⟨trivial, fun t ht => (hT t ht).grow fun x hx => still.db ▸ hx, fun n => ?_⟩
    exact fun tenantId _ => code_failing task
  resume w pid c l l' t op k a s ok _ hT _ found at_call step := by
    obtain ⟨hmem, hothers⟩ := mem_of_focus found
    have grows := (exec_advances step).inserted
    refine ⟨trivial, fun t' ht => (hT t' (hothers t' ht)).grow grows, fun tenantId htenant => ?_⟩
    obtain ⟨noFault, spared⟩ := attended_answer ok.1 found at_call
    have before : TenantOf r tenantId w.store.db := fun x hx => htenant x (grows x hx)
    have obeys := hT t hmem tenantId before
    rw [at_call] at obeys
    refine obeys.2 a .idle ⟨exec_sound step, exec_expected ok.2 before spared step, ?_, .inl rfl⟩
    exact fun reliable => exec_reliable step reliable noFault
  settle w pid l l' t out _ _ hT found ended := by
    have hdb : (finish env t.task out w.store).1.db = w.store.db := finish_db env t.task out w.store
    refine ⟨trivial, fun t' ht => ?_, fun n task _ => fun tenantId _ => code_failing task⟩
    exact (hT t' ((mem_of_focus found).2 t' ht)).grow fun x hx => hdb.symm ▸ hx
  crash w pid l l' t _ _ hT _ found := by
    exact ⟨trivial, fun t' ht => (hT t' ((mem_of_focus found).2 t' ht)).grow fun x hx => hx⟩
  outside w e s _ _ hT happened := by
    exact ⟨trivial, fun t ht => (hT t ht).grow fun x hx => (outside_still happened).db ▸ hx⟩

theorem attended_sealed {w₀ w : SysWorld} (start : Initial w₀)
    (path : Reach (machine env) (Attended env) w₀ w) : Sealed w.store :=
  (booked_invariant start (path.weaken fun _ _ _ => trivial)).1

theorem watchful_invariant {w₀ w : SysWorld} (start : Initial w₀)
    (path : Reach (machine env) (Attended env) w₀ w) (r : Nat) :
    ∀ t ∈ w.threads, Watchful env r w.store t :=
  ((watchful_threadwise r).holds (initial_numbered start) trivial (by simp [start.threads])
    (path.strengthen fun _ h => attended_sealed start h)).2

/-- Where an operation stands that has marked the row: it has told nothing yet, and
will find the row if it reads it now, or what it has told is in the logs. -/
def Telling (r : Nat) (s₀ s : State) (prog : Async Reply) (st : Phase) : Prop :=
  (st = .marked ∧ Extends s₀ s ∧
    (prog.head = some (.db (.findOne .pool r)) → ∃ row ∈ s.db.transfers, row.id = r)) ∨
    ∃ told, st = .telling told ∧ Recorded s₀ told s

/-- The operation `pid`, while it lasts, is on its way to telling of the failure. -/
structure Tracked (env : Env) (pid : Nat) (r : Nat) (tenantId : String) (s₀ : State)
    (w : SysWorld) : Prop where
  below : pid < w.nextPid
  owned : ∃ t ∈ w.store.db.inserted, t.id = r ∧ t.tenantId = tenantId
  thread : ∀ t ∈ w.threads, t.pid = pid → ∃ st, Telling r s₀ w.store t.prog st ∧
    Obeys (failing env t.task r tenantId) (fun st _ => Settled env r tenantId st) st t.prog

theorem tenantOf_of_mem {db : Db} (hc : Consistent db)
    (h : ∃ t ∈ db.inserted, t.id = r ∧ t.tenantId = tenantId) : TenantOf r tenantId db := by
  obtain ⟨t, ht, hid, htenant⟩ := h
  have ids := hc.historyIds
  rw [List.map_append] at ids
  intro t' ht' hid'
  rw [List.inj_on_of_nodup_map ids.of_append_left ht' ht (hid'.trans hid.symm)]
  exact htenant

/-- Another operation's step does not disturb the telling. -/
theorem Telling.other {w : SysWorld} {s₀ s' : State} {t : SysThread} {st : Phase} {pid : Nat}
    {c : Choice} {op : Op} {a : Except Err op.Ans} (h : Telling r s₀ w.store t.prog st)
    (handler : st = .marked → t.prog.head = some (.db (.findOne .pool r)) →
      ∃ job err, t.task = .onFailed job err)
    (ht : t ∈ w.threads) (spared : Spared env w op)
      (step : exec env pid op c w.store = some (a, s')) :
    Telling r s₀ s' t.prog st := by
  rcases h with ⟨hst, since, present⟩ | ⟨told, hst, recorded⟩
  · refine .inl ⟨hst, since.trans (exec_extends step), fun head => ?_⟩
    rcases exec_effect_db step with heq | ⟨dbOp, rfl, e⟩
    · exact heq.symm ▸ present head
    · rcases column_kept kept_id e (present head) with h | ⟨cutoff, rfl, row, hrow, hid, hp⟩
      · exact h
      · exact absurd (hid.symm ▸ head) (spared row hrow hp t ht (handler hst head))
  · exact .inr ⟨told, hst, recorded.extend (exec_extends step)⟩

/-- The operation's own step. -/
theorem Telling.own {w : SysWorld} {s₀ s' : State} {st : Phase} {pid : Nat}
    {task : Task} {c : Choice}
    {op : Op} {k : Except Err op.Ans → Async Reply} {a : Except Err op.Ans} (hs : Sealed w.store)
    (htenant : TenantOf r tenantId w.store.db) (noFault : backing op = true → c.fault = none)
    (spared : Spared env w op) (h : Telling r s₀ w.store (.await op k) st)
    (obeys : Obeys (failing env task r tenantId) (fun st _ => Settled env r tenantId st) st
      (.await op k))
    (step : exec env pid op c w.store = some (a, s')) :
    ∃ st', Telling r s₀ s' (k a) st' ∧
      Obeys (failing env task r tenantId) (fun st _ => Settled env r tenantId st) st' (k a) := by
  have next : ∀ st', Hears r st op a st' → (failing env task r tenantId).next st op a st' :=
    fun st' heard =>
    ⟨exec_sound step, exec_expected hs htenant spared step,
      fun reliable => exec_reliable step reliable noFault, .inr heard⟩
  rcases h with ⟨rfl, since, present⟩ | ⟨told, rfl, recorded⟩
  · have there : ¬ Missing r op a := by
      unfold Missing
      split
      · rintro rfl
        obtain ⟨row, hrow, hid⟩ := present rfl
        rcases exec_db step with ⟨_, _, hr, -⟩ | ⟨db', ran, -⟩
        · cases hr
        · simp only [Db.exec, Option.some.injEq, Prod.mk.injEq, Except.ok.injEq] at ran
          simpa [hid] using List.find?_eq_none.mp ran.1 row hrow
      · exact id
    exact ⟨_, .inr ⟨_, rfl, (Recorded.nothing since).hear step⟩, obeys.2 a _ (next _ ⟨there, rfl⟩)⟩
  · exact ⟨_, .inr ⟨_, rfl, recorded.hear step⟩, obeys.2 a _ (next _ rfl)⟩

theorem Telling.extend {s₀ s s' : State} {prog : Async Reply} {st : Phase}
    (h : Telling r s₀ s prog st) (ext : Extends s s') (rows : s'.db.transfers = s.db.transfers) :
    Telling r s₀ s' prog st := by
  rcases h with ⟨hst, since, present⟩ | ⟨told, hst, recorded⟩
  · exact .inl ⟨hst, since.trans ext, fun head => rows ▸ present head⟩
  · exact .inr ⟨told, hst, recorded.extend ext⟩

theorem tracked_step {w w' : SysWorld} {a : SysAct} {pid : Nat} {s₀ : State}
    (hs : Sealed w.store) (ok : Attended env w a) (move : (machine env).step w a = some w')
    (h : Tracked env pid r tenantId s₀ w) : Tracked env pid r tenantId s₀ w' := by
  obtain ⟨below, owned, thread⟩ := h
  have ext := step_extends move
  cases Machine.step_move move with
  | request s task entered eq =>
    subst eq
    have still := enter_still entered
    refine ⟨Nat.lt_succ_of_lt below, still.db.symm ▸ owned, fun t ht hpid => ?_⟩
    rcases List.mem_append.mp ht with ht | ht
    · obtain ⟨st, telling, obeys⟩ := thread t ht hpid
      exact ⟨st, telling.extend ext (congrArg Db.transfers still.db), obeys⟩
    · have := (mem_spawn ht).2.2
      omega
  | @resume pid' c l l' t' op k b s found at_call answered eq =>
    subst eq
    obtain ⟨hmem, hothers⟩ := mem_of_focus found
    obtain ⟨noFault, spared⟩ := attended_answer ok found at_call
    have grows := (exec_advances answered).inserted
    refine ⟨below, ?_, fun t ht hpid => ?_⟩
    · obtain ⟨x, hx, hid, htenant⟩ := owned
      exact ⟨x, grows x hx, hid, htenant⟩
    · rcases mem_middle.mp ht with rfl | ht
      · obtain ⟨st, telling, obeys⟩ := thread t' hmem hpid
        rw [at_call] at telling obeys
        exact telling.own hs (tenantOf_of_mem hs.consistent owned) noFault spared obeys answered
      · obtain ⟨st, telling, obeys⟩ := thread t (hothers t ht) hpid
        refine ⟨st, telling.other ?_ (hothers t ht) spared answered, obeys⟩
        intro hst head
        cases hprog : t.prog with
        | done out => rw [hprog] at head; cases head
        | await op' k' =>
          rw [hprog] at head obeys
          exact obeys.1 hst (Option.some.inj head)
  | settle l l' t' out found ended eq =>
    subst eq
    have hdb : (finish env t'.task out w.store).1.db = w.store.db :=
      finish_db env t'.task out w.store
    refine ⟨Nat.lt_add_right _ below, hdb.symm ▸ owned, fun t ht hpid => ?_⟩
    rcases List.mem_append.mp ht with ht | ht
    · obtain ⟨st, telling, obeys⟩ := thread t ((mem_of_focus found).2 t ht) hpid
      exact ⟨st, telling.extend ext (congrArg Db.transfers hdb), obeys⟩
    · have := (mem_spawn ht).2.2
      omega
  | crash l l' t' found eq =>
    subst eq
    refine ⟨below, owned, fun t ht hpid => ?_⟩
    obtain ⟨st, telling, obeys⟩ := thread t ((mem_of_focus found).2 t ht) hpid
    exact ⟨st, telling.extend ext rfl, obeys⟩
  | outside s happened eq =>
    subst eq
    have still := outside_still happened
    refine ⟨below, still.db.symm ▸ owned, fun t ht hpid => ?_⟩
    obtain ⟨st, telling, obeys⟩ := thread t ht hpid
    exact ⟨st, telling.extend ext (congrArg Db.transfers still.db), obeys⟩

/-- The failure of the row has been published and dead-lettered in `s`, after `s₀`. -/
def Noticed (env : Env) (s₀ s : State) (row : FileTransfer) : Prop :=
  (∃ event : TransferEvent, event.type = .transferFailed ∧ event.transferId = row.id ∧
    event.tenantId = row.tenantId ∧ Announced env s₀ s event) ∧
  ∃ d ∈ s.queues.deadLetters.drop s₀.queues.deadLetters.length, d.transferId = row.id

/-- A row turns FAILED by a `markFailed` that was answered. -/
theorem failed_new {pid : Nat} {c : Choice} {s s' : State} {op : Op} {a : Except Err op.Ans}
    (hc : Consistent s.db) (step : exec env pid op c s = some (a, s')) {row row' : FileTransfer}
    (hrow : row ∈ s.db.transfers) (hrow' : row' ∈ s'.db.transfers) (same : row'.id = row.id)
    (before : row.status ≠ .failed) (after : row'.status = .failed) :
    Fails row.id op ∧ ∃ v, a = .ok v := by
  have new : row' ∉ s.db.transfers := by
    intro h
    rw [row_unique hc h hrow same] at after
    exact before after
  cases exec_change step with
  | db dbOp a db' ran =>
    rcases status_origin hc (TableInvariants.exec_effect ran) hrow' (by rw [after]; decide) with
      h | ⟨t₀, -, p, names, rfl, -⟩
    · exact absurd h new
    · cases p with
      | markFailed message =>
        cases dbOp with
        | update id p =>
          cases names
          refine ⟨same, ?_⟩
          simp only [Db.exec, Db.updateRow] at ran
          split at ran <;> cases ran
          exact ⟨_, rfl⟩
        | resetForRetry mgr id => cases mgr <;> cases names
        | _ => cases names
      | _ => cases after
  | _ => exact absurd hrow' new

/-- In attended runs no failure is silent: when the operation that has marked a row
FAILED comes to its end, the failure is published and in the dead-letter queue. -/
theorem failure_is_noticed {w₀ w w' : SysWorld} {a : SysAct} (start : Initial w₀)
    (path : Reach (machine env) (Attended env) w₀ w) (ok : Attended env w a)
    (move : (machine env).step w a = some w') {row row' : FileTransfer}
    (hrow : row ∈ w.store.db.transfers) (hrow' : row' ∈ w'.store.db.transfers)
    (same : row'.id = row.id) (before : row.status ≠ .failed) (after : row'.status = .failed) :
    ∃ pid c, a = .resume pid c ∧ ∀ w'', Reach (machine env) (Attended env) w' w'' →
      ∀ t ∈ w''.threads, t.pid = pid → ∀ out, t.prog = .done out →
      Noticed env w.store w''.store row := by
  have hs := attended_sealed start path
  have kept : w'.store.db = w.store.db → False := by
    intro hdb
    rw [hdb] at hrow'
    rw [row_unique hs.consistent hrow' hrow same] at after
    exact before after
  cases Machine.step_move move with
  | request s task entered eq => subst eq; exact (kept (enter_still entered).db).elim
  | settle l l' t out found ended eq =>
    subst eq; exact (kept (finish_db env t.task out w.store)).elim
  | crash l l' t found eq =>
    subst eq
    have : row' = row := row_unique hs.consistent hrow' hrow same
    exact absurd (this ▸ after) before
  | outside s happened eq => subst eq; exact (kept (outside_still happened).db).elim
  | @resume pid c l l' t op k b s found at_call answered eq =>
    refine ⟨pid, c, rfl, fun w'' later t'' ht'' hpid'' out hout => ?_⟩
    obtain ⟨hmem, hothers⟩ := mem_of_focus found
    obtain ⟨hthreads, hpid⟩ := focus_some found
    have there : row' ∈ s.db.transfers := by rw [eq] at hrow'; exact hrow'
    obtain ⟨fails, v, rfl⟩ := failed_new hs.consistent answered hrow there same before after
    obtain ⟨x, hx, hidentity⟩ := hs.ledgered row hrow
    obtain ⟨hxid, -, hxtenant⟩ := identity_eq hidentity
    have owned : ∃ t ∈ w.store.db.inserted, t.id = row.id ∧ t.tenantId = row.tenantId :=
      ⟨x, hx, hxid, hxtenant⟩
    have htenant := tenantOf_of_mem hs.consistent owned
    obtain ⟨noFault, spared⟩ := attended_answer ok found at_call
    have num := (initial_numbered start).reach path
    have tracked : Tracked env pid row.id row.tenantId w.store w' := by
      subst eq
      refine ⟨hpid ▸ num.below t hmem, ?_, fun t' ht' hpid' => ?_⟩
      · exact ⟨x, (exec_advances answered).inserted x hx, hxid, hxtenant⟩
      · have own : t' = { t with prog := k (.ok v) } := by
          simp only [List.mem_append, List.mem_cons] at ht'
          rcases ht' with h | h | h
          · exact absurd hpid' (num.others_ne found t' (List.mem_append_left _ h))
          · exact h
          · exact absurd hpid' (num.others_ne found t' (List.mem_append_right _ h))
        subst own
        refine ⟨.marked, .inl ⟨rfl, exec_extends answered, fun _ => ⟨row', there, same⟩⟩, ?_⟩
        have obeys := watchful_invariant start path row.id t hmem row.tenantId htenant
        rw [at_call] at obeys
        refine obeys.2 _ _ ⟨exec_sound answered, exec_expected hs htenant spared answered, ?_, ?_⟩
        · exact fun _ => ⟨v, rfl⟩
        · exact .inr ⟨fails, ⟨v, rfl⟩, rfl⟩
    have whole : ∀ v, Reach (machine env) (Attended env) w' v →
        Reach (machine env) (Attended env) w₀ v :=
      fun v h => (Reach.step path ok move).trans h
    have final := later.invariant (I := Tracked env pid row.id row.tenantId w.store) tracked
      fun v v' a' hv ok' move' h => tracked_step (attended_sealed start (whole v hv)) ok' move' h
    obtain ⟨st, telling, obeys⟩ := final.thread t'' ht'' hpid''
    rw [hout] at obeys
    rcases obeys with rfl | ⟨told, rfl, ⟨event, htype, hid, htenant', published⟩, d, hd, hdid⟩
    · rcases telling with ⟨h, -⟩ | ⟨_, h, -⟩ <;> cases h
    · rcases telling with ⟨h, -⟩ | ⟨_, h, recorded⟩
      · cases h
      · cases h
        exact ⟨⟨event, htype, hid, htenant', recorded.announced published⟩, d,
          recorded.dead d hd, hdid⟩

/-- Enough for an attended step: no rejected call, no sweep and no purge. -/
def attended (w : SysWorld) : SysAct → Bool
  | .resume _ c => c.fault.isNone && w.threads.all fun t => match t.prog.head with
    | some (.db (.findStuck _ _)) => false
    | some (.db (.deleteTerminalOlderThan _)) => false
    | _ => true
  | _ => true

theorem attended_sound (env : Env) (w : SysWorld) (a : SysAct) (h : attended w a = true) :
    Attended env w a := by
  cases a with
  | resume pid c =>
    simp only [attended, Bool.and_eq_true, Option.isNone_iff_eq_none, List.all_eq_true] at h
    refine ⟨fun _ _ _ _ _ _ => h.1, fun pid' c' _ t ht _ op head => ?_⟩
    have := h.2 t ht
    rw [head] at this
    unfold Spared
    split
    · cases this
    · cases this
    · trivial
  | _ => exact ⟨trivial, fun _ _ h => nomatch h⟩

/-- An upload whose file is not there when it is processed. -/
def missingUpload : SftpgoWebhookDto := { sampleUpload with path := "/srv/sftpgo/data/alice/b.txt" }

/-- Webhook, relay, and the attempt up to the `markFailed`. -/
def missingAttempt : List SysAct :=
  .request (.webhook missingUpload []) :: answer 0 4 ++ .settle 0 :: sampleRelay 1 ++
    .request (.takeJob 0) :: answer 2 3

theorem failure_is_noticed_sample : ∃ w w' : SysWorld, ∃ row ∈ w.store.db.transfers,
    Reach (machine sampleEnv) (Attended sampleEnv) sampleWorld w' ∧
    Noticed sampleEnv w.store w'.store row := by
  have rows : ((machine sampleEnv).stepsIf attended sampleWorld missingAttempt).map
      (fun w => w.store.db.transfers.map fun t => (t.id, t.status)) = some [(0, .processing)] := by
    decide +kernel
  have rows' : ((machine sampleEnv).stepsIf attended sampleWorld (missingAttempt ++ answer 2 1)).map
      (fun w => w.store.db.transfers.map fun t => (t.id, t.status)) = some [(0, .failed)] := by
    decide +kernel
  have ends : ((machine sampleEnv).stepsIf attended sampleWorld
      ((missingAttempt ++ answer 2 1) ++ answer 2 2)).map
      (fun w => w.threads.map fun t => (t.pid, t.prog.head)) = some [(2, none)] := by decide +kernel
  obtain ⟨w'', run, hthreads⟩ := Option.map_eq_some_iff.mp ends
  obtain ⟨w', hw', tail⟩ := stepsIf_split _ _ run
  obtain ⟨w, hw, one⟩ := stepsIf_split _ _ hw'
  obtain ⟨hok, move⟩ := stepsIf_one one
  rw [hw] at rows
  rw [hw'] at rows'
  obtain ⟨row, hrow, heq⟩ := List.map_eq_singleton_iff.mp (Option.some.inj rows)
  obtain ⟨row', hrow', heq'⟩ := List.map_eq_singleton_iff.mp (Option.some.inj rows')
  obtain ⟨t, ht, hend⟩ := List.map_eq_singleton_iff.mp hthreads
  obtain ⟨hid, hs⟩ := Prod.mk.inj heq
  obtain ⟨hid', hs'⟩ := Prod.mk.inj heq'
  obtain ⟨hpid, head⟩ := Prod.mk.inj hend
  have path := reach_of_stepsIf (attended_sound sampleEnv) .start _ hw
  have later := reach_of_stepsIf (attended_sound sampleEnv) .start _ tail
  have ok := attended_sound sampleEnv _ _ hok
  have hmem : row ∈ w.store.db.transfers := by rw [hrow]; exact List.mem_singleton_self row
  obtain ⟨pid, c, hact, noticed⟩ := failure_is_noticed sample_initial path ok move hmem
    (by rw [hrow']; exact List.mem_singleton_self row') (hid'.trans hid.symm)
      (by rw [hs]; decide) hs'
  cases hact
  refine ⟨w, w'', row, hmem, (Reach.step path ok move).trans later, ?_⟩
  cases hprog : t.prog with
  | await op k => rw [hprog] at head; cases head
  | done out =>
    exact noticed w'' later t (by rw [ht]; exact List.mem_singleton_self t) hpid out hprog

/-- No call of the step is rejected. -/
def unrejected (_ : SysWorld) : SysAct → Bool
  | .resume _ c => c.fault.isNone
  | _ => true

theorem unrejected_faultless (w : SysWorld) (a : SysAct) (h : unrejected w a = true) :
    Faultless w a := by
  cases a with
  | resume pid c => exact fun _ _ _ _ _ _ => Option.isNone_iff_eq_none.mp h
  | _ => trivial

/-- A sweep that finds a stuck row without attempts left fails it silently. -/
theorem failure_is_not_noticed : ¬ ∀ (env : Env) (w₀ w w' w'' : SysWorld) (pid : Nat) (c : Choice)
    (row row' : FileTransfer), Initial w₀ → Reach (machine env) Faultless w₀ w →
    Faultless w (.resume pid c) → (machine env).step w (.resume pid c) = some w' →
    row ∈ w.store.db.transfers → row' ∈ w'.store.db.transfers → row'.id = row.id →
    row.status ≠ .failed → row'.status = .failed → Reach (machine env) Faultless w' w'' →
    ∀ t ∈ w''.threads, t.pid = pid → ∀ out, t.prog = .done out →
    Noticed env w.store w''.store row := by
  intro always
  have rows : ((machine onceEnv).stepsIf unrejected sampleWorld exhaustedSweep).map
      (fun w => w.store.db.transfers.map fun t => (t.id, t.status)) = some [(0, .processing)] := by
    decide +kernel
  have rows' : ((machine onceEnv).stepsIf unrejected sampleWorld (exhaustedSweep ++ answer 3 1)).map
      (fun w => w.store.db.transfers.map fun t => (t.id, t.status)) = some [(0, .failed)] := by
    decide +kernel
  have ends : ((machine onceEnv).stepsIf unrejected sampleWorld
      ((exhaustedSweep ++ answer 3 1) ++ answer 3 1)).map
      (fun w => (w.threads.map (fun t => (t.pid, t.prog.head)), w.store.queues.deadLetters)) =
      some ([(3, none)], []) := by decide +kernel
  obtain ⟨w'', run, hends⟩ := Option.map_eq_some_iff.mp ends
  obtain ⟨hthreads, hdead⟩ := Prod.mk.inj hends
  obtain ⟨w', hw', tail⟩ := stepsIf_split _ _ run
  obtain ⟨w, hw, one⟩ := stepsIf_split _ _ hw'
  obtain ⟨hok, move⟩ := stepsIf_one one
  rw [hw] at rows
  rw [hw'] at rows'
  obtain ⟨row, hrow, heq⟩ := List.map_eq_singleton_iff.mp (Option.some.inj rows)
  obtain ⟨row', hrow', heq'⟩ := List.map_eq_singleton_iff.mp (Option.some.inj rows')
  obtain ⟨t, ht, hend⟩ := List.map_eq_singleton_iff.mp hthreads
  obtain ⟨hid, hs⟩ := Prod.mk.inj heq
  obtain ⟨hid', hs'⟩ := Prod.mk.inj heq'
  obtain ⟨hpid, head⟩ := Prod.mk.inj hend
  cases hprog : t.prog with
  | await op k => rw [hprog] at head; cases head
  | done out =>
    have noticed := always onceEnv sampleWorld w w' w'' 3 .ok row row' sample_initial
      (reach_of_stepsIf unrejected_faultless .start _ hw) (unrejected_faultless _ _ hok) move
      (by rw [hrow]; exact List.mem_singleton_self row)
      (by rw [hrow']; exact List.mem_singleton_self row') (hid'.trans hid.symm)
        (by rw [hs]; decide) hs'
      (reach_of_stepsIf unrejected_faultless .start _ tail) t
      (by rw [ht]; exact List.mem_singleton_self t) hpid out hprog
    obtain ⟨-, d, hd, -⟩ := noticed
    rw [hdead, List.drop_nil] at hd
    cases hd

end Runs

end FailureNotices
