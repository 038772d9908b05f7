import SyncBridge.Downloads

/-!
# The key in the row and the object in the store

Each execution draws a data key, stores the object under it, and then records the wrapped
key in the row, in two calls. Executions of one transfer may overlap, so the last object
and the last recorded key can come from different ones. They fit when nobody records a
key after somebody else's object has been stored and settled, and no execution gives up
after it has replaced the object of a row that is SUCCESS already.
-/

namespace ObjectKeys

open AwaitPrograms ThreadPools EnvelopeCrypto Entities Database TableInvariants Calls Ingestion
open Worker Management Orchestrator Footprints Uploads

/-- A call that marks a row SUCCESS: the row, the place and the wrapped key. -/
def mark? : Op → Option (Nat × String × String × Option String)
  | .db (.update id (.markSuccess bucket key _ _ _ wrapped _)) => some (id, bucket, key, wrapped)
  | _ => none

/-- The execution stands between its upload and its `markSuccess` of the row. -/
def between (r : Nat) (t : SysThread) : Bool :=
  match t.prog.head.bind mark? with
  | some (id, _) => id = r
  | none => false

/-- The thread executes a job of the transfer. -/
def executes (r : Nat) (t : SysThread) : Bool :=
  match t.task with
  | .process _ data => data.transferId = r
  | _ => false

/-- The last completed write at a place. -/
def lastPut (s : State) (bucket key : String) : Option Put :=
  s.store.puts.find? fun p => p.bucket = bucket && p.key = key

/-- The wrapped key opens to this data key. -/
def Opens (env : Env) (wrapped : String) (dek : ChunkTransforms.Bytes) : Prop :=
  ∃ kek, env.config.crypto.kek = some kek ∧ unwrapDek env.crypto kek wrapped = .ok dek

/-- The last object at the place is one of an execution that has not marked the row yet. -/
def Unmarked (r : Nat) (bucket key : String) (w : SysWorld) : Prop :=
  ∃ p, lastPut w.store bucket key = some p ∧ ∃ t ∈ w.threads, t.pid = p.writer ∧ between r t = true

/-- Only executions of the transfer store objects at the place. -/
def Owned (r : Nat) (bucket key : String) (w : SysWorld) (a : SysAct) : Prop :=
  ∀ pid c t op body, a = .resume pid c → t ∈ w.threads → t.pid = pid → t.prog.head = some op →
    put? op = some (bucket, key, body) → executes r t = true

/-- Executions of a transfer that come out in order, at a place that is its own. -/
structure Ordered (r : Nat) (bucket key : String) (w : SysWorld) (a : SysAct) : Prop where
  owned : Owned r bucket key w a
  /-- The row is marked while the last object is one of an execution in flight. -/
  marks : ∀ pid c t op wrapped, a = .resume pid c → t ∈ w.threads → t.pid = pid →
    t.prog.head = some op →
    mark? op = some (r, bucket, key, wrapped) → c.fault = none → Unmarked r bucket key w
  /-- An execution whose object is the last one does not give up on a row that is SUCCESS. -/
  givesUp : ∀ t ∈ w.threads, between r t = true →
    (a = .crash t.pid ∨ ∃ c, a = .resume t.pid c ∧ c.fault ≠ none) →
    (∃ row ∈ w.store.db.transfers, row.id = r ∧ row.status = .success) →
    ∀ p, lastPut w.store bucket key = some p → p.writer ≠ t.pid

/-! ## Executions -/

/-- Where the object of an execution has just been stored, and its data key. -/
abbrev Pending := Option (String × String × Option Key)

/-- An execution stores its object and next records the key it is stored under. -/
def keying (env : Env) (task : Task) : Monitor Op Op.Ans Err Pending where
  may pending op := match pending with
    | none => mark? op = none
    | some (bucket, key, used) => ∃ jobId data wrapped dek, task = .process jobId data ∧
        mark? op = some (data.transferId, bucket, key, some wrapped) ∧ used = some dek ∧
        Opens env wrapped dek.1
  next pending op a pending' := Sound op a ∧ match pending with
    | some _ => pending' = none
    | none => (∀ bucket key body v, put? op = some (bucket, key, body) → a = .ok v →
        pending' = some (bucket, key, body.encryption.map (·.1))) ∧
      ((put? op = none ∨ ∃ e, a = .error e) → pending' = none)

section Programs
variable {env : Env} {task : Task}

/-- Calls that neither store an object nor mark a row. -/
def Aside (op : Op) : Prop := mark? op = none ∧ put? op = none

theorem aside_obeys {α : Type} {p : Async α} (calls : Within Aside AnyErr AnyErr p) :
    Obeys (keying env task) (fun pending _ => pending = none) none p := by
  refine (calls.obeys (I := fun pending => pending = none) ?_ ?_ rfl).mono p fun _ _ h => h.1
  · rintro _ op rfl hop
    exact hop.1
  · rintro _ op a pending rfl hop next
    exact ⟨next.2.2 (.inl hop.2), fun _ _ => trivial⟩

theorem prepareCall_unmarking {op : Op} (h : PrepareCall op) : mark? op = none := by
  unfold PrepareCall at h
  split at h <;> first | rfl | exact h.elim

theorem publishCall_aside (op : Op) (h : PublishCall op) : Aside op := by
  unfold PublishCall at h
  split at h <;> first | exact ⟨rfl, rfl⟩ | exact h.elim

theorem not_workerCall_aside {op : Op} (h : ¬ WorkerCall op) : Aside op := by
  constructor
  · unfold mark?
    split
    · exact (h trivial).elim
    · rfl
  · unfold put?
    split
    · exact (h trivial).elim
    · exact (h trivial).elim
    · rfl

/-- The observer of the upload of one file to one place. -/
theorem follows_keying (bucket key sourcePath : String) :
    Follows (keying env task) bucket key sourcePath (fun pending => pending = none)
      (fun body pending => pending = some (bucket, key, body.encryption.map (·.1)))
        fun _ => True where
  may _ op start call _ := by
    subst start
    exact prepareCall_unmarking call
  keep _ op r pending start _ plain next := by
    subst start
    exact next.2.2 (.inl plain)
  put _ op body r pending start hput next := by
    subst start
    refine ⟨fun v hv => ?_, fun e he => next.2.2 (.inr ⟨e, he⟩)⟩
    exact next.2.1 bucket key body v hput hv
  read _ _ _ _ _ := trivial

theorem complete_keying {jobId : Nat} {data : TransferJobData}
    (on : env.config.crypto.enabled = true)
    {t : FileTransfer} (target : t.id = data.transferId) {u : Uploaded} {pending : Pending}
    (stored : Stored env t (fun body pending => pending =
      some ((routeOf env t).bucket, (routeOf env t).key, body.encryption.map (·.1)))
        (fun _ => True) pending u) :
    Obeys (keying env (.process jobId data)) (fun pending _ => pending = none) pending
      (complete env t u) := by
  obtain ⟨hbucket, hkey, enc, content, sealing, hwrapped, -, -, rfl⟩ := stored
  cases enc with
  | none => cases on.symm.trans sealing
  | some e =>
    obtain ⟨kek, hkek, opens, -⟩ := sealing
    have may : (keying env (.process jobId data)).may
        (some ((routeOf env t).bucket, (routeOf env t).key, some e.dek))
          (.db (.update t.id u.patch)) := by
      refine ⟨jobId, data, e.wrappedDek, e.dek, rfl, ?_, rfl, kek, hkek, opens⟩
      rw [Uploaded.patch, mark?, hbucket, hkey, hwrapped, target]
      rfl
    refine obeys_call may ?_ fun _ _ next => next.2
    rintro _ _ ⟨-, rfl⟩
    refine aside_obeys (within_bind (within_call ⟨rfl, rfl⟩ fun _ h => h) fun _ => ?_)
    exact (publish_within t _ _).mono publishCall_aside fun _ h => h

theorem reject_keying (t : FileTransfer) (e : Err) :
    Obeys (keying env task) (fun pending _ => pending = none) none (reject env t e) := by
  unfold reject
  split
  · refine aside_obeys (within_bind (within_call ⟨rfl, rfl⟩ fun _ h => h) fun _ => within_bind
      ((publish_within t _ _).mono publishCall_aside fun _ h => h) fun _ => ?_)
    exact within_call ⟨rfl, rfl⟩ fun _ h => h
  · rfl

/-- Every operation: a stored object is followed by the mark that records its key. -/
theorem code_keying (on : env.config.crypto.enabled = true)
    (laws : env.crypto.Lawful) (task : Task) :
    Obeys (keying env task) (fun pending _ => pending = none) none (code env task) := by
  by_cases worker : ∃ jobId data, task = .process jobId data
  · obtain ⟨jobId, data, rfl⟩ := worker
    refine Obeys.andThen (q := fun pending _ => pending = none) ?_ (fun _ _ h => h) fun _ _ h => h
    refine obeys_call rfl ?_ fun _ _ next => next.2.2 (.inl rfl)
    rintro found pending ⟨sound, -, plain⟩
    obtain rfl := plain (.inl rfl)
    cases found with
    | none => rfl
    | some t =>
      have target : t.id = data.transferId := sound.answered _ rfl t rfl
      dsimp only
      split
      · rfl
      · refine obeys_call rfl ?_ fun _ _ next => next.2.2 (.inl rfl)
        rintro _ pending ⟨-, -, plain⟩
        obtain rfl := plain (.inl rfl)
        refine Obeys.orElse (q := fun pending _ => pending = none) ?_ (fun _ _ h => h) ?_
        · refine (prepare_obeys (follows_keying _ _ _) laws rfl).andThen ?_
            fun _ e h => (h.2 e rfl).2 on
          exact fun _ u stored => complete_keying on target (stored.1 u rfl)
        · rintro _ e rfl
          exact reject_keying t e
  · have other : ∀ jobId data, task ≠ .process jobId data :=
      fun jobId data h => worker ⟨jobId, data, h⟩
    refine aside_obeys ((code_within task).mono ?_ fun _ h => h)
    exact fun _ h => not_workerCall_aside (not_workerCall other h)

end Programs

/-! ## Threads -/

/-- The last completed write at a place by one thread. -/
def ownPut (s : State) (pid : Nat) (bucket key : String) : Option Put :=
  s.store.puts.find? fun p => p.bucket = bucket && p.key = key && p.writer = pid

/-- The thread follows the order of upload and mark, and the object it has just stored is
under the key it is about to record. -/
def Holds (env : Env) (s : State) (t : SysThread) : Prop :=
  ∃ pending, Obeys (keying env t.task) (fun pending _ => pending = none) pending t.prog ∧
    ∀ bucket key used, pending = some (bucket, key, used) →
      ∃ p, ownPut s t.pid bucket key = some p ∧ p.object.dek = used.map (·.1)

section Threads
variable {env : Env} {s s' : State} {t : SysThread}

theorem Holds.same (h : Holds env s t) (puts : s'.store.puts = s.store.puts) : Holds env s' t := by
  obtain ⟨pending, obeys, own⟩ := h
  refine ⟨pending, obeys, fun bucket key used heq => ?_⟩
  unfold ownPut
  rw [puts]
  exact own bucket key used heq

theorem Holds.other {pid : Nat} {op : Op} {c : Choice} {a : Except Err op.Ans} (h : Holds env s t)
    (step : exec env pid op c s = some (a, s')) (other : t.pid ≠ pid) : Holds env s' t := by
  rcases exec_puts step with ⟨-, same⟩ | ⟨_, _, _, _, _, -, -, -, front⟩
  · exact h.same same
  · obtain ⟨pending, obeys, own⟩ := h
    refine ⟨pending, obeys, fun bucket key used heq => ?_⟩
    obtain ⟨p, found, dek⟩ := own bucket key used heq
    refine ⟨p, ?_, dek⟩
    unfold ownPut at found ⊢
    rw [front, List.find?_cons_of_neg (by simp [other.symm]), found]

/-- What the observer of an execution makes of an answer. -/
theorem exec_keying (task : Task) {pid : Nat} {op : Op} {c : Choice} {a : Except Err op.Ans}
    (step : exec env pid op c s = some (a, s')) (pending : Pending) :
    ∃ pending', (keying env task).next pending op a pending' ∧ ∀ bucket key used,
      pending' = some (bucket, key, used) → ∃ p, ownPut s' pid bucket key = some p ∧
      p.object.dek = used.map (·.1) := by
  have sound := exec_sound step
  cases pending with
  | some x => exact ⟨none, ⟨sound, rfl⟩, fun _ _ _ h => (nomatch h)⟩
  | none =>
    rcases exec_puts step with ⟨plain, -⟩ | ⟨bucket, key, body, bytes, contentType, hput,
      ⟨v, rfl⟩, -, front⟩
    · refine ⟨none, ⟨sound, fun bucket key body v hput hv => ?_, fun _ => rfl⟩,
        fun _ _ _ h => (nomatch h)⟩
      subst hv
      rcases plain with none | ⟨e, he⟩
      · rw [none] at hput
        cases hput
      · cases he
    · refine ⟨some (bucket, key, body.encryption.map (·.1)), ⟨sound, ?_, ?_⟩, ?_⟩
      · intro b k body' v' hput' _
        rw [hput] at hput'
        cases hput'
        rfl
      · rintro (none | ⟨e, he⟩)
        · rw [none] at hput
          cases hput
        · cases he
      · rintro _ _ _ ⟨⟩
        refine ⟨_, by unfold ownPut; rw [front, List.find?_cons_of_pos (by simp)], ?_⟩
        rw [Option.map_map]
        rfl

theorem enter_puts {q : Request} {task : Task} (entered : enter q s = some (s', task)) :
    s'.store.puts = s.store.puts := by
  rcases enter_cases entered with ⟨rfl, -, -⟩ | ⟨_, _, -, -, -, rfl, -⟩ <;> rfl

theorem finish_puts (env : Env) (task : Task) (out : Except Err Reply) (s : State) :
    (finish env task out s).1.store.puts = s.store.puts := by
  rcases finish_cases env task out s with same | ⟨_, _, _, -, same⟩ | ⟨_, _, -, same⟩
  · rw [same]
  · rw [same]
  · rw [same]
    rfl

theorem outside_puts {e : Event} (happened : outside e s = some s') :
    s'.store.puts = s.store.puts := by
  rcases outside_cases happened with ⟨_, _, rfl⟩ | ⟨_, _, -, -, -, rfl⟩ <;> rfl

theorem holds_threadwise (on : env.config.crypto.enabled = true) (laws : env.crypto.Lawful)
    (allowed : SysWorld → SysAct → Prop) :
    Threadwise (machine env) allowed (fun s => Consistent s.db) (Holds env) where
  request w q s task _ hs hT entered :=
    ⟨(enter_db entered).1 ▸ hs, fun t ht => (hT t ht).same (enter_puts entered),
      fun _ => ⟨none, code_keying on laws task, fun _ _ _ h => (nomatch h)⟩⟩
  resume w pid c l r t op k a s _ hs hT others found at_call answered := by
    obtain ⟨hmem, hothers⟩ := mem_of_focus found
    refine ⟨exec_consistent answered hs, fun t' ht =>
      (hT t' (hothers t' ht)).other answered (others t' ht), ?_⟩
    obtain ⟨pending, obeys, -⟩ := hT t hmem
    rw [at_call] at obeys
    obtain ⟨pending', next, own⟩ := exec_keying t.task answered pending
    refine ⟨pending', obeys.2 a pending' next, ?_⟩
    rw [show ({ t with prog := k a } : SysThread).pid = pid from (focus_some found).2]
    exact own
  settle w pid l r t out _ hs hT found _ :=
    ⟨finish_db env t.task out w.store ▸ hs,
      fun t' ht => (hT t' ((mem_of_focus found).2 t' ht)).same (finish_puts env t.task out w.store),
      fun _ task _ => ⟨none, code_keying on laws task, fun _ _ _ h => (nomatch h)⟩⟩
  crash w pid l r t _ hs hT _ found :=
    ⟨dropTx_consistent hs pid, fun t' ht => (hT t' ((mem_of_focus found).2 t' ht)).same rfl⟩
  outside w e s _ hs hT happened :=
    ⟨outside_db happened ▸ hs, fun t ht => (hT t ht).same (outside_puts happened)⟩

end Threads

/-! ## The last object and the row -/

/-- The object last stored at the place is under the key that the row has wrapped. -/
def Matches (env : Env) (s : State) (row : FileTransfer) (bucket key : String) : Prop :=
  ∃ p wrapped dek, lastPut s bucket key = some p ∧ row.wrappedDek = some wrapped ∧
    p.object.dek = some dek ∧ Opens env wrapped dek

/-- A SUCCESS row at the place fits the object there, or an execution that has replaced
the object has yet to mark the row. -/
def Fits (env : Env) (r : Nat) (bucket key : String) (w : SysWorld) : Prop :=
  ∀ row ∈ w.store.db.transfers, row.id = r → row.status = .success → row.bucket = bucket →
    row.objectKey = some key → Matches env w.store row bucket key ∨ Unmarked r bucket key w

section Steps
variable {env : Env} {r : Nat} {bucket key : String} {w w' : SysWorld} {s s' : State}
  {t : SysThread}

theorem between_iff :
    between r t = true ↔ ∃ op place, t.prog.head = some op ∧ mark? op = some (r, place) := by
  unfold between
  cases t.prog.head with
  | none => simp
  | some op =>
    cases marked : mark? op with
    | none => simp [marked]
    | some x =>
      obtain ⟨id, b, k, wrapped⟩ := x
      simp [marked]

/-- An execution before its mark: the key it will record opens the object it has stored. -/
theorem Holds.recorded (h : Holds env s t) {op : Op} {id : Nat} {wrapped : Option String}
    (head : t.prog.head = some op) (marked : mark? op = some (id, bucket, key, wrapped)) :
    ∃ p text dek, wrapped = some text ∧ ownPut s t.pid bucket key = some p ∧
    p.object.dek = some dek ∧
      Opens env text dek := by
  obtain ⟨pending, obeys, own⟩ := h
  cases hp : t.prog with
  | done out =>
    rw [hp] at head
    cases head
  | await op' k =>
    rw [hp] at head obeys
    cases head
    cases pending with
    | none => cases marked.symm.trans obeys.1
    | some x =>
      obtain ⟨b, k, used⟩ := x
      obtain ⟨jobId, data, text, dek, -, hmark, rfl, opens⟩ := obeys.1
      obtain ⟨p, found, hdek⟩ := own _ _ _ rfl
      cases marked.symm.trans hmark
      exact ⟨p, text, dek.1, rfl, found, hdek, opens⟩

/-- An execution that has just stored its object stands before its mark. -/
theorem Holds.stored (h : Holds env s t) {op : Op} {k : Except Err op.Ans → Async Reply}
    {body : Body} {pid : Nat} {c : Choice} {v : op.Ans} (at_call : t.prog = .await op k)
    (put : put? op = some (bucket, key, body)) (answered : exec env pid op c s = some (.ok v, s'))
    (mine : executes r t = true) :
    between r { t with prog := k (.ok v) } = true := by
  obtain ⟨pending, obeys, -⟩ := h
  rw [at_call] at obeys
  cases pending with
  | some x =>
    obtain ⟨b, k', used⟩ := x
    obtain ⟨_, _, _, _, -, hmark, -⟩ := obeys.1
    unfold put? at put
    split at put
    · cases hmark
    · cases hmark
    · cases put
  | none =>
    have next : (keying env t.task).next none op (.ok v)
        (some (bucket, key, body.encryption.map (·.1))) := by
      refine ⟨exec_sound answered, fun b k' body' v' hput _ => ?_, ?_⟩
      · cases put.symm.trans hput
        rfl
      · rintro (none | ⟨e, he⟩)
        · cases put.symm.trans none
        · cases he
    have after := obeys.2 _ _ next
    cases hk : k (.ok v) with
    | done out =>
      rw [hk] at after
      cases after
    | await op' k' =>
      rw [hk] at after
      obtain ⟨jobId, data, wrapped, dek, htask, hmark, -⟩ := after.1
      have same : data.transferId = r := by simpa [executes, htask] using mine
      exact between_iff.mpr ⟨op', _, rfl, same ▸ hmark⟩

/-- A row is SUCCESS before a call, unless the call is the mark of it. -/
theorem success_before {pid : Nat} {op : Op} {c : Choice} {a : Except Err op.Ans}
    (hc : Consistent s.db) (step : exec env pid op c s = some (a, s')) {row : FileTransfer}
    (hr : row ∈ s'.db.transfers) (success : row.status = .success) :
    row ∈ s.db.transfers ∨ ∃ b k wrapped, mark? op = some (row.id, b, k, wrapped) ∧ row.bucket = b ∧
      row.objectKey = some k ∧ row.wrappedDek = wrapped := by
  rcases exec_effect_db step with same | ⟨dbOp, rfl, effect⟩
  · exact .inl (same ▸ hr)
  · rcases status_origin hc effect hr (by rw [success]; decide) with old | ⟨t₀, -, p, names, rfl, -⟩
    · exact .inl old
    · cases p with
      | markSuccess b k etag sha encrypted wrapped n =>
        unfold poolUpdate at names
        split at names
        · cases names
          exact .inr ⟨b, k, wrapped, rfl, rfl, rfl, rfl⟩
        · cases names
        · cases names
      | _ => cases success

/-- What a mark that was not rejected leaves in the row. -/
theorem row_marked {pid : Nat} {op : Op} {c : Choice} {a : Except Err op.Ans} {id : Nat}
    {wrapped : Option String} (marked : mark? op = some (id, bucket, key, wrapped))
    (fault : c.fault = none) (step : exec env pid op c s = some (a, s')) :
    ∀ row ∈ s'.db.transfers, row.id = id →
      row.bucket = bucket ∧ row.objectKey = some key ∧ row.wrappedDek = wrapped := by
  unfold mark? at marked
  split at marked
  · cases marked
    simp only [exec, fault, perform, Db.exec, Db.updateRow] at step
    split at step
    · cases step
    · rename_i ran
      split at ran
      · cases ran
      · cases ran
        cases step
        intro row hr hid
        obtain ⟨t₀, -, rfl⟩ := List.mem_map.mp hr
        split at hid
        · rw [if_pos ‹_›]
          exact ⟨rfl, rfl, rfl⟩
        · rename_i other
          exact absurd ⟨hid, rfl⟩ other
  · cases marked

theorem mark_rejected {pid : Nat} {op : Op} {c : Choice} {a : Except Err op.Ans}
    {place : Nat × String × String × Option String} (marked : mark? op = some place)
    (fault : c.fault ≠ none) (step : exec env pid op c s = some (a, s')) : s' = s := by
  obtain ⟨x, hx⟩ := Option.ne_none_iff_exists'.mp fault
  have mayFail : op.mayFail = true := by
    unfold mark? at marked
    split at marked
    · rfl
    · cases marked
  rw [exec, hx] at step
  simp only [mayFail, if_true] at step
  cases step
  rfl

theorem ownPut_of_last {p : Put} (last : lastPut s bucket key = some p) :
    ownPut s p.writer bucket key = some p := by
  obtain ⟨here, before, rest, puts, newer⟩ := List.find?_eq_some_iff_append.mp last
  refine List.find?_eq_some_iff_append.mpr ⟨by simpa using here, before, rest, puts, fun q hq => ?_⟩
  have := newer q hq
  simp only [Bool.not_eq_true', Bool.and_eq_false_iff] at this ⊢
  exact .inl this

/-- A step after which the rows marked SUCCESS, the last object and the execution it
belongs to are the same. -/
theorem Fits.carry (fits : Fits env r bucket key w)
    (rows : ∀ row ∈ w'.store.db.transfers, row.id = r → row.status = .success →
      row.bucket = bucket →
      row.objectKey = some key → row ∈ w.store.db.transfers)
    (last : lastPut w'.store bucket key = lastPut w.store bucket key)
    (kept : (∃ row ∈ w.store.db.transfers, row.id = r ∧ row.status = .success) → ∀ t ∈ w.threads,
      between r t = true → ∀ p, lastPut w.store bucket key = some p → p.writer = t.pid →
      t ∈ w'.threads) :
    Fits env r bucket key w' := by
  intro row hr hid success hb hk
  have old := rows row hr hid success hb hk
  rcases fits row old hid success hb hk with ⟨p, wrapped, dek, found, rest⟩ | ⟨p, found, t, ht,
    writer, hbetween⟩
  · exact .inl ⟨p, wrapped, dek, last.trans found, rest⟩
  · exact .inr ⟨p, last.trans found, t,
      kept ⟨row, old, hid, success⟩ t ht hbetween p found writer.symm, writer,
      hbetween⟩

theorem lastPut_same (puts : s'.store.puts = s.store.puts) :
    lastPut s' bucket key = lastPut s bucket key := by
  unfold lastPut
  rw [puts]

/-- A call of an execution that does not stand before its mark. -/
theorem fits_call {pid : Nat} {c : Choice} {l l' : List SysThread} {op : Op}
    {k : Except Err op.Ans → Async Reply} {a : Except Err op.Ans}
    (ok : Ordered r bucket key w (.resume pid c)) (hc : Consistent w.store.db)
    (holds : Holds env w.store t) (found : focus pid w.threads = some (l, t, l'))
    (at_call : t.prog = .await op k) (answered : exec env pid op c w.store = some (a, s))
    (away : between r t ≠ true) (fits : Fits env r bucket key w) :
    Fits env r bucket key ⟨s, l ++ { t with prog := k a } :: l', w.nextPid⟩ := by
  have hmem := (mem_of_focus found).1
  have head : t.prog.head = some op := by rw [at_call]; rfl
  have rows : ∀ row ∈ s.db.transfers, row.id = r → row.status = .success → row.bucket = bucket →
      row.objectKey = some key → row ∈ w.store.db.transfers := by
    intro row hr hid success _ _
    rcases success_before hc answered hr success with old | ⟨b, k', wrapped, marked, -⟩
    · exact old
    · exact absurd (between_iff.mpr ⟨op, _, head, hid ▸ marked⟩) away
  have kept : ∀ t' ∈ w.threads, between r t' = true → t' ∈ l ++ { t with prog := k a } :: l' := by
    intro t' ht hbetween
    exact mem_middle.mpr (.inr (mem_beside found ht fun heq => away (heq ▸ hbetween)))
  rcases exec_puts answered with ⟨-, same⟩ | ⟨b, k', body, bytes, contentType, hput,
    ⟨v, rfl⟩, -, front⟩
  · exact fits.carry rows (lastPut_same same) fun _ t' ht hbetween _ _ _ => kept t' ht hbetween
  · by_cases here : b = bucket ∧ k' = key
    · obtain ⟨rfl, rfl⟩ := here
      intro row _ _ _ _ _
      refine .inr ⟨_, by unfold lastPut; rw [front, List.find?_cons_of_pos (by simp)], _, ?_,
        (focus_some found).2, holds.stored at_call hput answered ?_⟩
      · simp
      · exact ok.owned pid c t op body rfl hmem (focus_some found).2 head hput
    · refine fits.carry rows ?_ fun _ t' ht hbetween _ _ _ => kept t' ht hbetween
      unfold lastPut
      rw [front, List.find?_cons_of_neg (by simpa using here)]

/-- The call with which an execution marks the row. -/
theorem fits_mark {pid : Nat} {c : Choice} {l l' : List SysThread} {op : Op}
    {k : Except Err op.Ans → Async Reply} {a : Except Err op.Ans}
    (ok : Ordered r bucket key w (.resume pid c)) (holds : Holds env w.store t)
    (found : focus pid w.threads = some (l, t, l')) (at_call : t.prog = .await op k)
    (answered : exec env pid op c w.store = some (a, s)) (standing : between r t = true)
    (fits : Fits env r bucket key w) :
    Fits env r bucket key ⟨s, l ++ { t with prog := k a } :: l', w.nextPid⟩ := by
  obtain ⟨hmem, hothers⟩ := mem_of_focus found
  obtain ⟨heq, rfl⟩ := focus_some found
  have head : t.prog.head = some op := by rw [at_call]; rfl
  obtain ⟨op', ⟨b, k', wrapped⟩, head', marked⟩ := between_iff.mp standing
  cases head.symm.trans head'
  have beside : ∀ t' ∈ w.threads, t' ≠ t → t' ∈ l ++ { t with prog := k a } :: l' :=
    fun t' ht other => mem_middle.mpr (.inr (mem_beside found ht other))
  have puts : s.store.puts = w.store.store.puts := by
    rcases exec_puts answered with ⟨-, same⟩ | ⟨_, _, _, _, _, hput, -⟩
    · exact same
    · unfold mark? at marked
      split at marked
      · cases hput
      · cases marked
  by_cases fault : c.fault = none
  · intro row hr hid success hb hk
    obtain ⟨rfl, hkey, hwrapped⟩ := row_marked marked fault answered row hr hid
    obtain rfl := hb
    obtain rfl := Option.some.inj (hkey.symm.trans hk)
    obtain ⟨p, last, t', ht, writer, hbetween⟩ :=
      ok.marks _ c t op wrapped rfl hmem rfl head marked fault
    by_cases own : t' = t
    · subst own
      obtain ⟨q, text, dek, rfl, mine, hdek, opens⟩ := holds.recorded head marked
      rw [writer, ownPut_of_last last] at mine
      cases mine
      exact .inl ⟨p, text, dek, (lastPut_same puts).trans last, hwrapped, hdek, opens⟩
    · exact .inr ⟨p, (lastPut_same puts).trans last, t', beside t' ht own, writer, hbetween⟩
  · obtain rfl := mark_rejected marked fault answered
    refine fits.carry (fun _ hr _ _ _ _ => hr) rfl
      fun success t' ht _ p last writer => beside t' ht ?_
    rintro rfl
    exact ok.givesUp t' hmem standing (.inr ⟨c, rfl, fault⟩) success p last writer

theorem fits_step {a : SysAct} (ok : Ordered r bucket key w a) (hc : Consistent w.store.db)
    (holds : ∀ t ∈ w.threads, Holds env w.store t) (move : (machine env).step w a = some w')
    (fits : Fits env r bucket key w) : Fits env r bucket key w' := by
  cases Machine.step_move move with
  | request s task admitted eq =>
    subst eq
    refine fits.carry ?_ (lastPut_same (enter_puts admitted))
      fun _ t ht _ _ _ _ => List.mem_append_left _ ht
    rw [(enter_db admitted).1]
    exact fun _ hr _ _ _ _ => hr
  | resume l l' t op k a s found at_call answered eq =>
    subst eq
    have hmem := holds t (mem_of_focus found).1
    by_cases standing : between r t = true
    · exact fits_mark ok hmem found at_call answered standing fits
    · exact fits_call ok hc hmem found at_call answered standing fits
  | settle l l' t out found ended eq =>
    subst eq
    refine fits.carry ?_ (lastPut_same (finish_puts env t.task out w.store))
      fun _ t' ht standing _ _ _ => ?_
    · intro row hr _ _ _ _
      rw [← finish_db env t.task out w.store]
      exact hr
    · refine List.mem_append_left _ (mem_beside found ht ?_)
      rintro rfl
      obtain ⟨op, _, head, -⟩ := between_iff.mp standing
      rw [ended] at head
      cases head
  | crash l l' t found eq =>
    subst eq
    obtain ⟨hmem, -⟩ := mem_of_focus found
    obtain rfl := (focus_some found).2
    refine fits.carry (fun _ hr _ _ _ _ => hr) (lastPut_same rfl)
      fun success t' ht standing p last writer => ?_
    refine mem_beside found ht ?_
    rintro rfl
    exact ok.givesUp t' hmem standing (.inl rfl) success p last writer
  | outside s happened eq =>
    subst eq
    refine fits.carry ?_ (lastPut_same (outside_puts happened)) fun _ _ ht _ _ _ _ => ht
    rw [outside_db happened]
    exact fun _ hr _ _ _ _ => hr

end Steps

/-- With encryption switched on, at a place that only executions of the transfer write to,
in every run whose executions come out in order: whenever the row is SUCCESS and no
execution stands between its upload and its mark, the row's wrapped key opens to the data
key of the object stored there. -/
theorem stored_key_opens {env : Env} (on : env.config.crypto.enabled = true)
    (laws : env.crypto.Lawful) {r : Nat} {bucket key : String} {w₀ w : SysWorld}
    (start : Initial w₀) (path : Reach (machine env) (Ordered r bucket key) w₀ w)
    (idle : ∀ t ∈ w.threads, between r t = false) {row : FileTransfer}
    (hr : row ∈ w.store.db.transfers) (hid : row.id = r) (success : row.status = .success)
    (hbucket : row.bucket = bucket) (hkey : row.objectKey = some key) :
    ∃ object wrapped dek, w.store.store.get bucket key = some object ∧ object.dek = some dek ∧
      row.wrappedDek = some wrapped ∧ Opens env wrapped dek := by
  have base : ∀ {w}, Reach (machine env) (Ordered r bucket key) w₀ w →
      Consistent w.store.db ∧ ∀ t ∈ w.threads, Holds env w.store t := by
    refine (holds_threadwise on laws _).holds (initial_numbered start) (initial_consistent start) ?_
    simp [start.threads]
  have fits : Fits env r bucket key w := by
    refine path.invariant ?_ fun w w' a before ok move fits =>
      fits_step ok (base before).1 (base before).2 move fits
    intro row hr
    rw [start.transfers] at hr
    cases hr
  rcases fits row hr hid success hbucket hkey with ⟨p, wrapped, dek, last, hwrapped, hdek,
    opens⟩ | ⟨_, _, t, ht, _, h⟩
  · refine ⟨p.object, wrapped, dek, ?_, hdek, hwrapped, opens⟩
    rw [Store.get, ← lastPut, last]
    rfl
  · cases (idle t ht).symm.trans h

/-! ## Two executions of the sample upload -/

def sealedEnv : Env := { sampleEnv with config := Downloads.cryptoConfig true }

def firstKey : Key := zeroKey

def secondKey : Key := ⟨List.replicate 32 1, rfl⟩

/-- The event is relayed twice. Worker 3 stores its object under the first key, then
worker 4 stores its own under the second. -/
def storedTwice : List SysAct :=
  sampleAccepted ++ .request (.relayTick 0) :: answer 1 3 ++ [.crash 1] ++ sampleRelay 2 ++
    [.request (.takeJob 0), .request (.takeJob 1)] ++ answer 3 9 ++ answer 4 5 ++
    [.resume 4 { key := secondKey }] ++ answer 4 3

/-- A test for `Owned`. -/
def storesOwn (r : Nat) (w : SysWorld) (_ : SysAct) : Bool :=
  w.threads.all fun t => (t.prog.head.bind put?).isNone || executes r t

theorem storesOwn_sound (r : Nat) (bucket key : String) (w : SysWorld) (a : SysAct)
    (h : storesOwn r w a = true) : Owned r bucket key w a := by
  intro pid c t op body _ ht _ head put
  have := List.all_eq_true.mp h t ht
  simpa [head, put] using this

/-- A test for `Ordered`. -/
def inOrder (r : Nat) (bucket key : String) (w : SysWorld) (a : SysAct) : Bool :=
  storesOwn r w a && match a with
    | .resume _ c => c.fault.isNone && ((w.threads.all fun t => !between r t) ||
        match lastPut w.store bucket key with
        | none => false
        | some p => w.threads.any fun t => t.pid = p.writer && between r t)
    | .crash _ => w.threads.all fun t => !between r t
    | _ => true

theorem inOrder_sound (r : Nat) (bucket key : String) (w : SysWorld) (a : SysAct)
    (h : inOrder r bucket key w a = true) : Ordered r bucket key w a := by
  obtain ⟨own, order⟩ := Bool.and_eq_true_iff.mp h
  refine ⟨storesOwn_sound r bucket key w a own, ?_, ?_⟩
  · rintro pid c t op wrapped rfl ht - head marked -
    have standing : between r t = true := between_iff.mpr ⟨op, _, head, marked⟩
    rcases Bool.or_eq_true_iff.mp (Bool.and_eq_true_iff.mp order).2 with none | some
    · have := List.all_eq_true.mp none t ht
      rw [standing] at this
      cases this
    · split at some
      · cases some
      · rename_i p last
        obtain ⟨t', ht', both⟩ := List.any_eq_true.mp some
        obtain ⟨writer, hbetween⟩ := Bool.and_eq_true_iff.mp both
        exact ⟨p, last, t', ht', of_decide_eq_true writer, hbetween⟩
  · rintro t ht standing (rfl | ⟨c, rfl, fault⟩)
    · have := List.all_eq_true.mp order t ht
      rw [standing] at this
      cases this
    · have := (Bool.and_eq_true_iff.mp order).1
      exact absurd (Option.isNone_iff_eq_none.mp this) fault

/-- The sample row is SUCCESS at its place, nobody stands between upload and mark, and
the object there is under this key. -/
def settledWith (dek : Key) (w : SysWorld) : Bool :=
  (w.threads.all fun t => !between 0 t) &&
    (w.store.store.get "syncbridge" "alice/a.txt").any (fun object => object.dek = some dek.1) &&
    w.store.db.transfers.any fun t => t.id = 0 && t.status = .success && t.bucket = "syncbridge" &&
      t.objectKey = some "alice/a.txt"

theorem settledWith_row {dek : Key} {w : SysWorld} (h : settledWith dek w = true) :
    (∀ t ∈ w.threads, between 0 t = false) ∧
      (∃ object, w.store.store.get "syncbridge" "alice/a.txt" = some object ∧
        object.dek = some dek.1) ∧
      ∃ row ∈ w.store.db.transfers, row.id = 0 ∧ row.status = .success ∧ row.bucket = "syncbridge" ∧
        row.objectKey = some "alice/a.txt" := by
  simpa [settledWith, Option.any_eq_true, and_assoc] using h

/-- Worker 3 marks the row while the object of worker 4 is the last one, and worker 4
marks it after. -/
theorem stored_key_opens_sample :
    ∃ (w : SysWorld) (row : FileTransfer) (object : StoredObject) (wrapped : String),
    row ∈ w.store.db.transfers ∧ row.status = .success ∧
    w.store.store.get "syncbridge" "alice/a.txt" = some object ∧ object.dek = some secondKey.1 ∧
    row.wrappedDek = some wrapped ∧ Opens sealedEnv wrapped secondKey.1 := by
  have ends : ((machine sealedEnv).stepsIf (inOrder 0 "syncbridge" "alice/a.txt") sampleWorld
      (storedTwice ++ answer 3 1 ++ answer 4 1)).any (settledWith secondKey) = true := by
        decide +kernel
  obtain ⟨w, run, settled⟩ := (Option.any_eq_true _ _).mp ends
  have path := reach_of_stepsIf (inOrder_sound 0 "syncbridge" "alice/a.txt") .start _ run
  obtain ⟨idle, ⟨object, found, hdek⟩, row, hr, hid, success, hbucket, hkey⟩ :=
    settledWith_row settled
  obtain ⟨object', wrapped, dek, found', hdek', hwrapped, opens⟩ :=
    stored_key_opens rfl GaloisCounter.node_lawful
    sample_initial path idle hr hid success hbucket hkey
  cases found.symm.trans found'
  cases hdek.symm.trans hdek'
  exact ⟨w, row, object, wrapped, hr, success, found, hdek, hwrapped, opens⟩

/-- Worker 3 is about to mark the sample row, and its own object is under this key. -/
def marksWith (dek : Key) (w : SysWorld) : Bool :=
  (ownPut w.store 3 "syncbridge" "alice/a.txt").any (fun p => p.object.dek = some dek.1) &&
    w.threads.all fun t => t.pid ≠ 3 || (t.prog.head.bind mark?).any fun m =>
      m.1 = 0 && m.2.1 = "syncbridge" && m.2.2.1 = "alice/a.txt"

/-- The key a row has from the mark of worker 3 is the one of its own object. -/
theorem marksWith_row {dek : Key} {w w' : SysWorld} (marks : marksWith dek w = true)
    (holds : ∀ t ∈ w.threads, Holds sealedEnv w.store t)
    (move : (machine sealedEnv).step w (.resume 3 .ok) = some w') :
    ∀ row ∈ w'.store.db.transfers, row.id = 0 → ∃ text, row.wrappedDek = some text ∧
    Opens sealedEnv text dek.1 := by
  obtain ⟨own, standing⟩ := Bool.and_eq_true_iff.mp marks
  obtain ⟨p, mine, hdek⟩ := (Option.any_eq_true _ _).mp own
  cases Machine.step_move move with
  | resume l l' t op k a s found at_call answered eq =>
    subst eq
    intro row hr hid
    have answered : exec sealedEnv 3 op .ok w.store = some (a, s) := answered
    obtain ⟨hmem, -⟩ := mem_of_focus found
    have head : t.prog.head = some op := by rw [at_call]; rfl
    have mark := List.all_eq_true.mp standing t hmem
    simp only [(focus_some found).2, head, Option.bind_some] at mark
    obtain ⟨⟨id, b, k', wrapped⟩, marked, here⟩ := (Option.any_eq_true _ _).mp mark
    simp only [Bool.and_eq_true, decide_eq_true_eq] at here
    obtain ⟨⟨rfl, rfl⟩, rfl⟩ := here
    obtain ⟨-, -, hwrapped⟩ := row_marked (c := .ok) marked rfl answered row hr hid
    obtain ⟨q, text, dek', rfl, own', hdek', opens⟩ := (holds t hmem).recorded head marked
    rw [(focus_some found).2, mine] at own'
    cases own'
    obtain rfl : dek.1 = dek' := Option.some.inj ((of_decide_eq_true hdek).symm.trans hdek')
    exact ⟨text, hwrapped, opens⟩

/-- Worker 4 marks the row first and worker 3 after it: the row has the key of worker 3,
the store the object of worker 4. -/
theorem stored_key_does_not_open :
    ¬ ∀ (env : Env), env.config.crypto.enabled = true → env.crypto.Lawful →
    ∀ (r : Nat) (bucket key : String) (w₀ w : SysWorld), Initial w₀ →
      Reach (machine env) (Owned r bucket key) w₀ w → (∀ t ∈ w.threads, between r t = false) →
      ∀ row ∈ w.store.db.transfers, row.id = r → row.status = .success → row.bucket = bucket →
        row.objectKey = some key → ∃ object wrapped dek,
        w.store.store.get bucket key = some object ∧
          object.dek = some dek ∧ row.wrappedDek = some wrapped ∧ Opens env wrapped dek := by
  intro always
  have stands : ((machine sealedEnv).stepsIf (storesOwn 0) sampleWorld
      (storedTwice ++ answer 4 1)).any (marksWith firstKey) = true := by decide +kernel
  have ends : ((machine sealedEnv).stepsIf (storesOwn 0) sampleWorld
      (storedTwice ++ answer 4 1 ++ [.resume 3 .ok])).any (settledWith secondKey) = true := by
        decide +kernel
  obtain ⟨w, run, settled⟩ := (Option.any_eq_true _ _).mp ends
  obtain ⟨v, before, last⟩ := stepsIf_split _ _ run
  rw [before] at stands
  have sound := storesOwn_sound 0 "syncbridge" "alice/a.txt"
  have holds :=
    ((holds_threadwise rfl GaloisCounter.node_lawful _).holds (initial_numbered sample_initial)
    (initial_consistent sample_initial) (fun _ h => (nomatch h))
      (reach_of_stepsIf sound .start _ before)).2
  obtain ⟨idle, ⟨object, found, hdek⟩, row, hr, hid, success, hbucket, hkey⟩ :=
    settledWith_row settled
  obtain ⟨text, hwrapped, kek, hkek, first⟩ :=
    marksWith_row stands holds (stepsIf_one last).2 row hr hid
  obtain ⟨object', wrapped, dek, found', hdek', hwrapped', kek', hkek', second⟩ :=
    always sealedEnv rfl
    GaloisCounter.node_lawful 0 _ _ sampleWorld w sample_initial
      (reach_of_stepsIf sound .start _ run) idle row hr
    hid success hbucket hkey
  cases found.symm.trans found'
  cases hdek.symm.trans hdek'
  cases hwrapped.symm.trans hwrapped'
  cases hkek.symm.trans hkek'
  exact absurd (Except.ok.inj (first.symm.trans second)) (by decide)

end ObjectKeys
