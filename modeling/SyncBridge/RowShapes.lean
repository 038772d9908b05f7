import SyncBridge.Downloads

/-!
# The shape of a row

Every status says which columns are set. The updates of the services write different
subsets of the columns and may meet the row in any status, so the shape is kept by
each of them on its own. The download and the recovery sweep rely on it: a SUCCESS
row always has a key to fetch, a stored wrapped key means an encrypted object, and a
row that was never attempted is not given up.
-/

namespace RowShapes

open AwaitPrograms ThreadPools EnvelopeCrypto Entities Database TableInvariants Calls Ingestion
open Worker Management Orchestrator Footprints SoloRuns Uploads

structure WellFormed (t : FileTransfer) : Prop where
  pending : t.status = .pending → t.attempts = 0 ∧ t.errorLog = none
  processing : t.status = .processing → 1 ≤ t.attempts ∧ t.errorLog = none
  failed : t.status = .failed → t.errorLog ≠ none
  success : t.status = .success → t.objectKey ≠ none ∧ t.checksumSha256 ≠ none ∧ t.errorLog = none
  encryption : t.encrypted = true ↔ t.wrappedDek ≠ none

/-- A well-formed row whose key is not empty and whose wrapped key is as given. -/
structure Shaped (Q : String → Prop) (t : FileTransfer) : Prop extends WellFormed t where
  key : t.objectKey ≠ some ""
  wrapped : ∀ d, t.wrappedDek = some d → Q d

/-- What `markSuccess` is called with. -/
def Shapely (Q : String → Prop) : Patch → Prop
  | .markSuccess _ key _ sha encrypted wrappedDek _ =>
    key ≠ "" ∧ sha ≠ none ∧ (encrypted = true ↔ wrappedDek ≠ none) ∧ ∀ d, wrappedDek = some d → Q d
  | _ => True

section Updates
variable {Q : String → Prop}

theorem row_shaped (input : CreatePendingInput) (id now : Nat) : Shaped Q (input.row id now) where
  pending _ := ⟨rfl, rfl⟩
  processing h := nomatch h
  failed h := nomatch h
  success h := nomatch h
  encryption := by simp [CreatePendingInput.row]
  key := by simp [CreatePendingInput.row]
  wrapped d h := nomatch h

/-- Each update gives its status the columns it needs, whatever the row was. -/
theorem apply_shaped (now : Nat) {t : FileTransfer} {p : Patch} (hp : Shapely Q p)
    (h : Shaped Q t) :
    Shaped Q (p.apply now t) := by
  cases p with
  | markProcessing =>
    exact ⟨⟨fun h => (nomatch h), fun _ => ⟨Nat.le_add_left 1 _, rfl⟩, fun h => (nomatch h),
      fun h => (nomatch h), h.encryption⟩, h.key, h.wrapped⟩
  | markSuccess bucket key etag sha encrypted wrappedDek bytes =>
    obtain ⟨hkey, hsha, hdek, hQ⟩ := hp
    refine ⟨⟨fun h => (nomatch h), fun h => (nomatch h), fun h => (nomatch h), fun _ => ?_, hdek⟩,
      ?_, hQ⟩
    · exact ⟨fun h => (nomatch h), hsha, rfl⟩
    · exact fun h => hkey (Option.some.inj h)
  | markFailed errorLog =>
    exact ⟨⟨fun h => (nomatch h), fun h => (nomatch h), fun _ h => (nomatch h),
      fun h => (nomatch h),
      h.encryption⟩, h.key, h.wrapped⟩
  | resetForRetry =>
    exact ⟨⟨fun _ => ⟨rfl, rfl⟩, fun h => (nomatch h), fun h => (nomatch h), fun h => (nomatch h),
      h.encryption⟩, h.key, h.wrapped⟩

end Updates

/-! ## Calls of the services -/

/-- The observer of updates. -/
def shaping (Q : String → Prop) : Monitor Op Op.Ans Err Unit where
  may _ op := ∀ id p, op = .db (.update id p) → Shapely Q p
  next _ _ _ _ := True

/-- The sweep gives up a row because it was among those it has read, with no attempt left. -/
def GivesUpRead (env : Env) (heard : List (Exchange Op Op.Ans Err)) (op : Op) : Prop :=
  ∀ id reason, op = .db (.update id (.markFailed reason)) → ∃ staleBefore limit rows,
    ⟨.db (.findStuck staleBefore limit), .ok rows⟩ ∈ heard ∧
    ∃ row ∈ rows, row.id = id ∧ env.config.transferMaxAttempts ≤ row.attempts ∧
    reason = interrupted row

section Operations
variable {env : Env} {Q : String → Prop}

/-- The call makes no `markSuccess`. -/
def Modest (op : Op) : Prop := ∀ id p, op = .db (.update id p) → ∀ Q, Shapely Q p

theorem shaping_of_within {α : Type} {P : Op → Prop} {E : Err → Prop} {p : Async α}
    (calls : Within P AnyErr E p) (modest : ∀ op, P op → Modest op) :
    Obeys (shaping Q) (fun _ _ => True) () p := by
  refine (calls.obeys (I := fun _ => True) ?_ ?_ trivial).mono p fun _ _ _ => trivial
  · exact fun _ op _ h id p hop => modest op h id p hop Q
  · exact fun _ _ _ _ _ _ _ => ⟨trivial, fun _ _ => trivial⟩

theorem publishCall_modest (op : Op) (h : PublishCall op) : Modest op := by
  rintro id p rfl
  cases h

theorem prepareCall_modest (op : Op) (h : PrepareCall op) : Modest op := by
  rintro id p rfl
  cases h

theorem onFailedCall_modest (op : Op) (h : OnFailedCall op) : Modest op := by
  rintro id p rfl
  unfold OnFailedCall PublishCall at h
  split at h
  · rename_i heq
    cases heq
    exact fun _ => trivial
  · rename_i heq
    cases heq
  · rename_i heq
    cases heq
  · cases h

/-- The wrapped keys that the encryption of an upload can return. -/
def Wraps (env : Env) (Q : String → Prop) : Prop :=
  ∀ kek dek iv wrapIv enc, createEncryptStream env.crypto kek dek iv wrapIv = .ok enc →
    Q enc.wrappedDek

theorem prepare_yields (wraps : Wraps env Q) (t : FileTransfer) :
    Yields (fun u => Shapely Q u.patch) (prepareAndUpload env t) := by
  refine yields_bind (yields_any _) fun stats _ => yields_bind (yields_any _) fun ctx _ =>
    yields_bind (yields_any _) fun checksums _ => ?_
  refine yields_bind drawEncryption_yields fun enc henc => yields_bind (yields_any _) fun etag _ =>
    yields_bind (yields_any _) fun _ _ => ?_
  refine ⟨Downloads.route_key_ne env t, fun h => (nomatch h), ?_, fun d hd => ?_⟩
  · cases enc <;> simp
  · obtain ⟨e, rfl, rfl⟩ := Option.map_eq_some_iff.mp hd
    obtain ⟨-, kek, wrapIv, stream, -, created, wrapped⟩ := henc
    exact wrapped ▸ wraps kek e.dek e.iv wrapIv stream created

theorem runTransfer_shaping (wraps : Wraps env Q) (data : TransferJobData) :
    Obeys (shaping Q) (fun _ _ => True) () (runTransfer env data) := by
  have publish : ∀ t type d,
      Obeys (shaping Q) (fun _ _ => True) () (publishTransferEvent env t type d) :=
    fun t type d => shaping_of_within (publish_within t type d) publishCall_modest
  refine obeys_call (fun _ _ h => nomatch h) (fun found _ _ => ?_) fun _ _ _ => trivial
  split
  · trivial
  rename_i transfer _
  split
  · trivial
  refine obeys_call (fun id p h => by cases h; trivial) (fun _ _ _ => ?_) fun _ _ _ => trivial
  refine Obeys.orElse (q := fun _ _ => True) ?_ (fun _ _ _ => trivial) ?_
  · have prepared : Obeys (shaping Q) (fun _ _ => True) () (prepareAndUpload env transfer) :=
      shaping_of_within (prepare_within transfer) prepareCall_modest
    refine (prepared.withValue (prepare_yields wraps transfer)).andThen (fun _ u hu => ?_)
      fun _ _ _ => trivial
    have shapely := hu.2 u rfl
    refine obeys_call (fun id p h => by cases h; exact shapely) (fun _ _ _ => ?_)
      fun _ _ _ => trivial
    refine obeys_call (fun _ _ h => nomatch h) (fun _ _ _ => ?_) fun _ _ _ => trivial
    exact publish _ _ _
  · intro _ e _
    unfold reject
    split
    · refine obeys_call (fun id p h => by cases h; trivial) (fun _ _ _ => ?_) fun _ _ _ => trivial
      refine (publish _ _ _).andThen (fun _ _ _ => ?_) fun _ _ _ => trivial
      exact ⟨fun _ _ h => (nomatch h), fun _ _ _ => trivial⟩
    · trivial

theorem code_shaping (wraps : Wraps env Q) (task : Task) :
    Obeys (shaping Q) (fun _ _ => True) () (code env task) := by
  cases task with
  | process jobId data =>
    exact (runTransfer_shaping wraps data).andThen (fun _ _ _ => trivial) fun _ _ _ => trivial
  | onFailed job err =>
    exact shaping_of_within (code_within (.onFailed job err)) onFailedCall_modest
  | sweep replica =>
    refine shaping_of_within (code_within (.sweep replica)) ?_
    rintro op call id p rfl
    cases p with
    | markFailed reason => exact fun _ => trivial
    | _ => cases call
  | _ =>
    refine shaping_of_within (code_within _) ?_
    rintro op call id p rfl
    cases call

/-- The rows still ahead in the loop of a sweep are among those it has read. -/
def Ahead (rest : List FileTransfer) (heard : List (Exchange Op Op.Ans Err)) : Prop :=
  ∀ t ∈ rest, ∃ staleBefore limit rows,
    ⟨.db (.findStuck staleBefore limit), .ok rows⟩ ∈ heard ∧ t ∈ rows

/-- A sweep gives up rows it has read and queues the others again. -/
theorem sweep_gives_up (replica : Nat) :
    Obeys (recording (GivesUpRead env)) (fun _ _ => True) [] (code env (.sweep replica)) := by
  have calls : ∀ heard op, (∀ id reason, op ≠ .db (.update id (.markFailed reason))) →
      GivesUpRead env heard op :=
    fun heard op other id reason same => absurd same (other id reason)
  have obeys : Obeys (recording (GivesUpRead env)) (fun _ _ => True) [] (sweep env replica) := by
    refine sweep_obeys (I := fun _ => True) (J := Ahead) replica ?_ ?_ ?_
      (fun _ _ => trivial) trivial
    · exact fun heard h _ => ⟨calls heard _ fun _ _ h => (nomatch h), fun _ _ _ => trivial⟩
    · intro heard staleBefore limit _
      refine ⟨calls heard _ fun _ _ h => (nomatch h),
        fun a heard' hn => ⟨trivial, fun rows ha t ht => ?_⟩⟩
      simp only [recording] at hn
      subst hn
      exact ⟨staleBefore, limit, rows, by simp [ha], ht⟩
    · intro heard t rest ahead
      have others : ∀ op a heard', (recording (GivesUpRead env)).next heard op a heard' →
          Ahead rest heard' := by
        rintro op a heard' rfl t' ht'
        obtain ⟨staleBefore, limit, rows, read, mem⟩ := ahead t' (List.mem_cons_of_mem t ht')
        exact ⟨staleBefore, limit, rows, List.mem_append_left _ read, mem⟩
      unfold recover
      split
      · rename_i exhausted
        refine ⟨?_, fun _ heard' hn => ⟨trivial, fun _ _ => others _ _ heard' hn⟩⟩
        intro id reason same
        cases same
        obtain ⟨staleBefore, limit, rows, read, mem⟩ := ahead t List.mem_cons_self
        exact ⟨staleBefore, limit, rows, read, t, mem, rfl, exhausted, rfl⟩
      · exact ⟨calls heard _ fun _ _ h => (nomatch h),
          fun _ heard' hn => ⟨trivial, fun _ _ => others _ _ heard' hn⟩⟩
  exact obeys.andThen (fun _ _ _ => trivial) fun _ _ _ => trivial

end Operations

section Tables
variable {env : Env} {Q : String → Prop}

/-- Every row, committed or not, has its shape. -/
def RowsShaped (Q : String → Prop) (db : Db) : Prop := ∀ t ∈ allRows db, Shaped Q t

theorem exec_shaped {pid : Nat} {op : Op} {c : Choice} {s s' : State} {a : Except Err op.Ans}
    (h : RowsShaped Q s.db) (may : (shaping Q).may () op)
    (step : exec env pid op c s = some (a, s')) :
    RowsShaped Q s'.db := by
  rcases exec_effect_db step with heq | ⟨dbOp, rfl, e⟩
  · rw [heq]
    exact h
  · refine effect_all e (fun input id startedAt _ => row_shaped input id startedAt) ?_
      (fun now t ht => apply_shaped now trivial ht) h
    intro id p t names _ ht
    refine apply_shaped _ ?_ ht
    unfold poolUpdate at names
    split at names
    · cases names
      exact may id p rfl
    · cases names
      trivial
    · cases names

theorem shaped_runs (wraps : Wraps env Q) {w₀ w : SysWorld} (start : Initial w₀)
    (path : Reach (machine env) anyStep w₀ w) : RowsShaped Q w.store.db := by
  refine (observed_runs (m := fun _ => shaping Q) (D := RowsShaped Q) (code_shaping wraps) ?_
    (fun pid db h => dropTx_all h)
    start ?_ path).1
  · exact fun task pid op c s a s' h may step => ⟨exec_shaped h may step, trivial⟩
  · intro t ht
    simp [allRows, buffered, start.transfers, start.openTxs] at ht

/-- The row that is given up was read by this sweep, in a state of the run in which it was
stored as PROCESSING. -/
def GivesUp (env : Env) (w₀ w : SysWorld) (t : SysThread) (op : Op) : Prop :=
  ∀ id reason, op = .db (.update id (.markFailed reason)) → ∃ v staleBefore limit rows,
    Answered (machine env) anyStep w₀ v w t (.db (.findStuck staleBefore limit)) (.ok rows) ∧
    ∃ row ∈ rows, row ∈ v.store.db.transfers ∧ row.id = id ∧ row.status = .processing ∧
      row.updatedAt < staleBefore ∧ env.config.transferMaxAttempts ≤ row.attempts ∧
      reason = interrupted row

/-- A row that was never attempted is not given up. -/
theorem gives_up {w₀ w : SysWorld} (start : Initial w₀) (path : Reach (machine env) anyStep w₀ w)
    (positive : 1 ≤ env.config.transferMaxAttempts) {t : SysThread} (ht : t ∈ w.threads)
    {replica : Nat} (task : t.task = .sweep replica) {op : Op} (head : t.prog.head = some op) :
    GivesUp env w₀ w t op := by
  obtain ⟨heard, obeys, answers⟩ := path.recalls start.threads ht (task ▸ sweep_gives_up replica)
  intro id reason same
  obtain ⟨staleBefore, limit, rows, read, row, mem, hid, exhausted, text⟩ :=
    may_at_head obeys head id reason same
  obtain ⟨v, answered⟩ := answers _ read
  obtain ⟨c, s, step⟩ := answered.answer
  obtain ⟨stored, status, stale⟩ := mem_stuckRows (findStuck_answer step ▸ mem)
  have anyKey : Wraps env fun _ => True := fun _ _ _ _ _ _ => trivial
  have shaped := shaped_runs anyKey start answered.before row (List.mem_append_left _ stored)
  refine ⟨v, staleBefore, limit, rows, answered, row, mem, stored, hid,
    status.resolve_left fun h => ?_,
    stale, exhausted, text⟩
  have := (shaped.pending h).1
  omega

end Tables

/-! ## The download of a row -/

section Download
variable {env : Env} {pid : Nat} {mayReject : Op → Bool} {x : Solo}

/-- No call is refused as a conflict. -/
theorem serve_error {op : Op} {e : Err} {y : Solo}
    (h : serve env pid mayReject x op = (.error e, y)) (message : String) :
    e ≠ .conflict message := by
  unfold serve at h
  dsimp only at h
  split at h
  · cases h
    exact fun h => nomatch h
  · rename_i a s' step
    cases h
    rcases callError_kind step with ⟨_, _, rfl⟩ | ⟨rfl, -⟩ <;> exact fun h => nomatch h

/-- What the read of a row says: it is one of these rows, and no failure is a conflict. -/
def Read (rows : List FileTransfer) (id : Nat) (_ : Solo) : Except Err (Option FileTransfer) → Prop
  | .ok row => ∀ t, row = some t → t ∈ rows ∧ t.id = id
  | .error e => ∀ message, e ≠ .conflict message

theorem pool_read (id : Nat) :
    Obeys (alone (serve env pid mayReject)) (Read x.state.db.transfers id) x
    (db (.findOne .pool id)) := by
  refine ⟨trivial, fun r y hn => ?_⟩
  cases r with
  | error e => exact fun message => serve_error hn message
  | ok row =>
    rintro t rfl
    obtain ⟨c, step⟩ := serve_ok hn
    rcases exec_db step with ⟨_, _, hr, -⟩ | ⟨db', ran, -⟩
    · cases hr
    · simp only [Db.exec, Db.rows, Option.some.injEq, Prod.mk.injEq, Except.ok.injEq] at ran
      exact ⟨List.mem_of_find?_eq_some ran.1, by simpa using List.find?_some ran.1⟩

/-- A transaction that only reads sees committed rows. -/
theorem tx_read (id : Nat) (u : Tx) (isOpen : x.state.db.tx pid = some u)
    (unwritten : u.writes = []) :
    Obeys (alone (serve env pid mayReject)) (Read x.state.db.transfers id) x
      (db (.findOne .tx id)) := by
  refine ⟨trivial, fun r y hn => ?_⟩
  cases r with
  | error e => exact fun message => serve_error hn message
  | ok row =>
    rintro t rfl
    obtain ⟨c, step⟩ := serve_ok hn
    rcases exec_db step with ⟨_, _, hr, -⟩ | ⟨db', ran, -⟩
    · cases hr
    · simp only [Db.exec, Db.rows, before_db, isOpen, Db.applyWrites, unwritten, List.foldl_nil,
        Option.some.injEq, Prod.mk.injEq, Except.ok.injEq] at ran
      have found := List.mem_of_find?_eq_some ran.1
      exact ⟨(List.mem_filter.mp found).1, by simpa using List.find?_some ran.1⟩

theorem scoped_read (id : Nat) (user : AuthUser) :
    Obeys (alone (serve env pid mayReject)) (Read x.state.db.transfers id) x
      (scopedTo user fun mgr => db (.findOne mgr id)) := by
  unfold scopedTo
  split
  · exact pool_read id
  refine obeys_call trivial (fun _ y hy => ?_) fun e y hn message => serve_error hn message
  obtain ⟨c, begun⟩ := serve_ok hy
  have opened :
      y.state.db = x.state.db.setTx pid ⟨((x.turns 0).before x.state).host.now, none, []⟩ := by
    rcases exec_db begun with ⟨_, _, hr, -⟩ | ⟨db', ran, hs⟩
    · cases hr
    · cases ran
      rw [hs]
      rfl
  refine Obeys.orElse (q := Read x.state.db.transfers id) ?_ (fun _ _ h => h) ?_
  · refine Obeys.andThen (q := Read x.state.db.transfers id) ?_ ?_ fun _ _ h => h
    · refine obeys_call trivial (fun _ z hz => ?_) fun e z hn message => serve_error hn message
      obtain ⟨c, set⟩ := serve_ok hz
      have ready : z.state.db.transfers = x.state.db.transfers ∧
          ∃ u, z.state.db.tx pid = some u ∧ u.writes = [] := by
        rcases exec_db set with ⟨_, _, hr, -⟩ | ⟨db', ran, hs⟩
        · cases hr
        · simp only [before_db, opened, Db.exec, tx_setTx, Option.some.injEq, Prod.mk.injEq] at ran
          rw [hs, ← ran.2]
          exact ⟨rfl, _, tx_setTx _ _ _, rfl⟩
      obtain ⟨rows, u, isOpen, unwritten⟩ := ready
      exact rows ▸ tx_read id u isOpen unwritten
    · intro z row hrow
      exact obeys_call trivial (fun _ _ _ => hrow) fun e y hn message => serve_error hn message
  · intro z e he
    exact obeys_call trivial (fun _ _ _ => he) fun e y hn message => serve_error hn message

/-- The outcome of a download of well-formed rows. -/
def Served (env : Env) (rows : List FileTransfer) (id : Nat) :
    Except Err (DownloadResult env.crypto) → Prop
  | .error e => ∀ message, e = .conflict message → ∃ row ∈ rows, row.id = id ∧ row.status ≠ .success
  | .ok d => ∃ row ∈ rows, row.id = id ∧ row.status = .success ∧
      (d.decryption.isSome = true ↔ row.encrypted = true)

theorem download_served (shaped : ∀ t ∈ x.state.db.transfers, Shaped (· ≠ "") t) (id : Nat)
    (user : AuthUser) : Served env x.state.db.transfers id
      (runAlone env pid mayReject (download env id user) x).1 := by
  have refused : ∀ {e : Err}, (∀ message, e ≠ .conflict message) →
      Served env x.state.db.transfers id (.error e) :=
    fun h message heq => absurd heq (h message)
  have obeys :
      Obeys (alone (serve env pid mayReject)) (fun _ => Served env x.state.db.transfers id) x
      (download env id user) := by
    refine Obeys.andThen (q := fun _ out => match out with
      | .ok t => t ∈ x.state.db.transfers ∧ t.id = id
      | .error e => ∀ message, e ≠ .conflict message) ?_ ?_ fun _ _ h => refused h
    · refine (scoped_read id user).andThen (fun _ row hrow => ?_) fun _ _ h => h
      cases row with
      | none => exact fun message h => nomatch h
      | some t => exact hrow t rfl
    · rintro y t ⟨hmem, hid⟩
      have shape := shaped t hmem
      dsimp only
      split
      · rename_i unfinished
        exact fun _ _ => ⟨t, hmem, hid, unfinished⟩
      rename_i status
      have done : t.status = .success := by simpa using status
      split
      · rename_i absent
        have key := (shape.success done).1
        obtain ⟨key, hkey⟩ := Option.ne_none_iff_exists'.mp key
        rw [hkey, Downloads.present_of_ne fun h => shape.key (h ▸ hkey)] at absent
        cases absent
      refine obeys_call trivial (fun obj z _ => ?_) fun e z hn => refused
        fun message => serve_error hn message
      split
      · rename_i hwrapped
        unfold decryption
        split
        · exact refused fun message h => nomatch h
        · split
          · exact refused fun message h => nomatch h
          · exact ⟨t, hmem, hid, done, by simp [*]⟩
      · rename_i plain
        refine ⟨t, hmem, hid, done, ?_⟩
        constructor
        · exact fun h => nomatch h
        · intro encrypted
          obtain ⟨d, hd⟩ := Option.ne_none_iff_exists'.mp (shape.encryption.mp encrypted)
          exact (plain d encrypted (hd ▸ Downloads.present_of_ne (shape.wrapped d hd))).elim
  exact (obeys_alone_iff _ _ x _).mp obeys

end Download

theorem wraps_nonempty {env : Env} (laws : env.crypto.Lawful)
    (empty : env.crypto.fromBase64 "" = []) :
    Wraps env (· ≠ "") := by
  intro kek dek iv wrapIv enc henc hne
  obtain ⟨-, b, hb, long⟩ := wrapped_base64 laws henc
  have : b = [] := by rw [← laws.base64 b, ← hb, hne, empty]
  rw [this] at long
  exact absurd long (by decide)

/-- In every run each row has the columns of its status. So a download of a SUCCESS row
is never refused for its row and decrypts exactly the encrypted ones, and a sweep gives up
only what it has read when it was stored as PROCESSING. -/
theorem rows_are_well_formed (env : Env) (w₀ w : SysWorld) (start : Initial w₀)
    (path : Reach (machine env) anyStep w₀ w) :
    (∀ row ∈ w.store.db.transfers, WellFormed row) ∧
    (env.crypto.Lawful → env.crypto.fromBase64 "" = [] → ∀ pid mayReject turns id user,
      Served env w.store.db.transfers id
        (runAlone env pid mayReject (download env id user) ⟨w.store, turns⟩).1) ∧
    (1 ≤ env.config.transferMaxAttempts → ∀ t ∈ w.threads, ∀ replica op, t.task = .sweep replica →
      t.prog.head = some op → GivesUp env w₀ w t op) := by
  have anyKey : Wraps env fun _ => True := fun _ _ _ _ _ _ => trivial
  have rows := shaped_runs anyKey start path
  refine ⟨fun row hrow => (rows row (List.mem_append_left _ hrow)).toWellFormed, ?_, ?_⟩
  · intro laws empty pid mayReject turns id user
    have rows := shaped_runs (wraps_nonempty laws empty) start path
    exact download_served (x := ⟨w.store, turns⟩)
      (fun t ht => rows t (List.mem_append_left _ ht)) id user
  · exact fun positive t ht replica op task head => gives_up start path positive ht task head

/-- The replica a sweep runs on. -/
def sweepOf : Task → Option Nat
  | .sweep replica => some replica
  | _ => none

theorem sweepOf_some {task : Task} {replica : Nat} (h : sweepOf task = some replica) :
    task = .sweep replica := by
  cases task with
  | sweep r => exact congrArg Task.sweep (Option.some.inj h)
  | _ => cases h

/-- The transfer that a thread is about to mark as FAILED. -/
def failing (t : SysThread) : Option (Nat × String) :=
  match t.prog.head with
  | some (.db (.update id (.markFailed reason))) => some (id, reason)
  | _ => none

theorem failing_some {t : SysThread} {id : Nat} {reason : String}
    (h : failing t = some (id, reason)) :
    t.prog.head = some (.db (.update id (.markFailed reason))) := by
  unfold failing at h
  split at h
  · rename_i head
    cases h
    exact head
  · cases h

def sampleViewer : AuthUser := ⟨1, "carol", [.viewer], "default"⟩

/-- The sample upload is SUCCESS and its download returns the plain object; where each
transfer has one attempt and its worker is lost, a sweep stands at `markFailed`. -/
theorem rows_are_well_formed_sample : Initial sampleWorld ∧
    (∃ w : SysWorld, Reach (machine sampleEnv) anyStep sampleWorld w ∧
      (∃ row ∈ w.store.db.transfers, row.status = .success ∧ WellFormed row) ∧
      Served sampleEnv w.store.db.transfers 0
        (runAlone sampleEnv 9 anyCall (download sampleEnv 0 sampleViewer)
          ⟨w.store, fun _ => {}⟩).1) ∧
    ∃ w : SysWorld, Reach (machine onceEnv) anyStep sampleWorld w ∧ ∃ t ∈ w.threads, ∃ reason,
      t.prog.head = some (.db (.update 0 (.markFailed reason))) ∧
      GivesUp onceEnv sampleWorld w t (.db (.update 0 (.markFailed reason))) := by
  refine ⟨sample_initial, ?_, ?_⟩
  · have run : ((machine sampleEnv).steps sampleWorld
        (sampleAccepted ++ sampleRelay 1 ++ .request (.takeJob 0) :: answer 2 9)).map
          (fun w => w.store.db.transfers.map (·.status)) = some [.success] := by decide +kernel
    obtain ⟨w, hw, hrows⟩ := Option.map_eq_some_iff.mp run
    obtain ⟨row, hrow, hstatus⟩ := List.map_eq_singleton_iff.mp hrows
    have path := reach_of_steps _ hw
    obtain ⟨rows, downloads, -⟩ := rows_are_well_formed sampleEnv sampleWorld w sample_initial path
    have hmem : row ∈ w.store.db.transfers := by rw [hrow]; exact List.mem_singleton_self row
    refine ⟨w, path, ⟨row, hmem, hstatus, rows row hmem⟩, ?_⟩
    exact downloads GaloisCounter.node_lawful (by decide +kernel) 9 anyCall
      (fun _ => {}) 0 sampleViewer
  · have run : ((machine onceEnv).steps sampleWorld exhaustedSweep).map
        (fun w => w.threads.map fun t => (sweepOf t.task, (failing t).map (·.1))) =
        some [(some 0, some 0)] := by decide +kernel
    obtain ⟨w, hw, hthreads⟩ := Option.map_eq_some_iff.mp run
    obtain ⟨t, ht, hseen⟩ := List.map_eq_singleton_iff.mp hthreads
    obtain ⟨hsweep, hfailing⟩ := Prod.mk.inj hseen
    obtain ⟨⟨id, reason⟩, hfail, hid⟩ := Option.map_eq_some_iff.mp hfailing
    obtain rfl : id = 0 := hid
    have path := reach_of_steps _ hw
    have htm : t ∈ w.threads := by rw [ht]; exact List.mem_singleton_self t
    refine ⟨w, path, t, htm, reason, failing_some hfail, ?_⟩
    exact (rows_are_well_formed onceEnv sampleWorld w sample_initial path).2.2 (by decide) t htm 0 _
      (sweepOf_some hsweep) (failing_some hfail)

end RowShapes
