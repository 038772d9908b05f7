import SyncBridge.ObjectKeys
import SyncBridge.StoredObjects

/-!
# What is in the objects

A worker uploads the file at the path its row was recorded with, and what it reads is a
content that the file has had, as long as nobody writes to the file while one call streams
it. Between calls it may be rewritten. With encryption on, the bytes that leave for the object
store are the envelope of that content under a data key, and never the content itself;
with encryption off they are the content. This holds of every object of every run, also
of those whose worker was lost before it could mark the row.
-/

namespace ObjectContents

open AwaitPrograms ThreadPools GrowingKnowledge EnvelopeCrypto Entities Database TableInvariants
open Calls Worker Orchestrator Footprints StoredObjects
open ObjectKeys (sealedEnv)

/-- The columns that decide what is read and where it goes. -/
def origin (t : FileTransfer) : String × ℕ × String × String × String := (t.sourcePath, address t)

theorem kept_origin : Kept origin := by
  intro now t p
  cases p <;> rfl

/-- A row with these columns was inserted. -/
def recorded (s : State) (t : FileTransfer) : Prop := ∃ row ∈ s.db.inserted, origin row = origin t

/-- An upload of the row's file: from its path, to its place, encrypted when that is on. -/
structure Uploads (env : Env) (t : FileTransfer) (bucket key : String) (body : Body) : Prop where
  bucket : bucket = (routeOf env t).bucket
  key : key = (routeOf env t).key
  source : body.sourcePath = t.sourcePath
  encryption : body.encryption.isSome = env.config.crypto.enabled

/-- The uploads of a call, if it is one. -/
def Permitted (ready : String → String → Body → Prop) : Op → Prop
  | .store (.putObject bucket key body _ _) => ready bucket key body
  | .store (.multipartUpload bucket key body _) => ready bucket key body
  | _ => True

def reading (env : Env) (F : FileTransfer → Prop) (_ : Task) : Monitor Op Op.Ans Err Unit where
  may _ op := Permitted (fun bucket key body => ∃ t, F t ∧ Uploads env t bucket key body) op
  next _ op a _ := match op, a with
    | .db (.findOne .pool _), .ok (some t) => F t
    | _, _ => True

/-! ## Operations -/

section Operations
variable {env : Env} {F : FileTransfer → Prop} {task : Task} {ready : String → String → Body → Prop}

theorem quiet_permitted (op : Op) (h : Quiet op) : Permitted ready op := by
  unfold Permitted
  split
  · exact h.elim
  · exact h.elim
  · trivial

theorem upload_permitted {t : FileTransfer} {ctx : ProcessingContext}
    (source : ctx.sourcePath = t.sourcePath) (checksums : FileChecksums) :
    Within (Permitted (Uploads env t)) AnyErr AnyErr (uploadFile env t ctx checksums) := by
  have enc :=
    (drawEncryption_within trivial trivial : Within Quiet AnyErr AnyErr (drawEncryption env))
  refine within_bind_yields (enc.mono quiet_permitted fun _ h => h) drawEncryption_yields
    fun enc drawn => ?_
  have encryption : (enc.map fun e => (e.dek, e.iv)).isSome = env.config.crypto.enabled := by
    cases enc with
    | none => exact Eq.symm drawn
    | some e => exact Eq.symm drawn.1
  refine within_bind ?_ fun etag => within_bind ?_ fun _ => within_pure _
  · exact uploadStream_within _ _ _ _ _ trivial trivial ⟨rfl, rfl, source, encryption⟩
      ⟨rfl, rfl, source, encryption⟩
  · split
    · exact within_pure _
    · exact (verifyIntegrity_within etag _ : Within Quiet AnyErr AnyErr _).mono quiet_permitted
        fun _ h => h

theorem prepare_permitted (t : FileTransfer) :
    Within (Permitted (Uploads env t)) AnyErr AnyErr (prepareAndUpload env t) := by
  have quiet {α : Type} {p : Async α} (h : Within Quiet AnyErr AnyErr p) :
      Within (Permitted (Uploads env t)) AnyErr AnyErr p := h.mono quiet_permitted fun _ h => h
  refine within_bind (quiet (sourceStats_within t trivial)) fun stats => ?_
  refine within_bind_yields (quiet (pipeline_within _ trivial trivial)) (pipeline_yields _)
    fun ctx handed => ?_
  refine within_bind (quiet (checksums_within _ trivial)) fun checksums => ?_
  exact upload_permitted handed.2.1 checksums

theorem publish_permitted (op : Op) (h : PublishCall op) : Permitted ready op := by
  unfold Permitted
  split
  · exact h.elim
  · exact h.elim
  · trivial

/-- An attempt, once it has read its row. -/
theorem attempt_permitted (t : FileTransfer) : Within (Permitted (Uploads env t)) AnyErr AnyErr
    ((db (.update t.id .markProcessing)).bind fun _ =>
      Prog.tryCatch ((prepareAndUpload env t).bind fun u => complete env t u) (reject env t)) := by
  have any : ∀ e, AnyErr e → AnyErr e := fun _ h => h
  have publish : ∀ type d, Within (Permitted (Uploads env t)) AnyErr AnyErr
      (publishTransferEvent env t type d) :=
    fun type d => (publish_within t type d).mono publish_permitted any
  refine within_bind (within_call trivial any) fun _ =>
    within_tryCatch (F := AnyErr) ?_ fun e _ => ?_
  · exact within_bind (prepare_permitted t) fun u => within_bind (within_call trivial any) fun _ =>
      within_bind (within_call trivial any) fun _ => publish _ _
  · unfold reject
    split
    · exact within_bind (within_call trivial any) fun _ => within_bind (publish _ _) fun _ =>
        within_call trivial any
    · trivial

theorem permitted_obeys {α : Type} {t : FileTransfer} (known : F t) {p : Async α}
    (h : Within (Permitted (Uploads env t)) AnyErr AnyErr p) :
    Obeys (reading env F task) AnyEnd () p := by
  refine (h.obeys (m := reading env F task) (I := fun _ => True) (fun _ op _ permitted => ?_)
    (fun _ _ _ _ _ _ _ => ⟨trivial, fun _ _ => trivial⟩) trivial).mono p fun _ _ _ => trivial
  show Permitted _ op
  unfold Permitted at permitted ⊢
  split
  · exact ⟨t, known, permitted⟩
  · exact ⟨t, known, permitted⟩
  · trivial

theorem code_reading (F : FileTransfer → Prop) (task : Task) :
    Obeys (reading env F task) AnyEnd () (code env task) := by
  cases task with
  | process jobId data =>
    refine Obeys.andThen (q := AnyEnd) ?_ (fun _ _ _ => trivial) fun _ _ _ => trivial
    refine obeys_call trivial ?_ fun _ _ _ => trivial
    intro found _ heard
    split
    · trivial
    rename_i t
    have known : F t := heard
    split
    · trivial
    · exact permitted_obeys known (attempt_permitted t)
  | _ =>
    refine (code_within _).obeys (m := reading env F _) (I := fun _ => True) ?_
      (fun _ _ _ _ _ _ _ => ⟨trivial, fun _ _ => trivial⟩) trivial |>.mono _ fun _ _ _ => trivial
    intro _ op _ call
    show Permitted _ op
    unfold Permitted
    split
    · exact call.elim
    · exact call.elim
    · trivial

end Operations

/-! ## Runs -/

/-- The object holds a content that the row's file has had. -/
def Holds (env : Env) (s : State) (p : Put) (row : FileTransfer)
    (content : ChunkTransforms.Bytes) : Prop :=
  (row.sourcePath, .file content) ∈ s.files ∧ p.bucket = (routeOf env row).bucket ∧
    p.key = (routeOf env row).key ∧
    match p.object.dek with
    | none => env.config.crypto.enabled = false ∧ p.object.body = content
    | some dek =>
      env.config.crypto.enabled = true ∧ openBuffer env.crypto dek p.object.body = .ok content ∧
        p.object.body.length = content.length + overheadBytes

/-- The objects in `old` were there before. -/
structure Held (env : Env) (old : List Put) (s : State) : Prop where
  rows : ∀ t ∈ s.db.transfers, recorded s t
  puts : ∀ p ∈ s.store.puts, p ∈ old ∨ ∃ row ∈ s.db.inserted, ∃ content, Holds env s p row content

section Steps
variable {env : Env} {old : List Put} {s s' : State} {pid : ℕ}

/-- Records and files stay, and so do the objects. -/
theorem Held.grow (h : Held env old s) (inserted : s.db.inserted <+: s'.db.inserted)
    (files : s.files <:+ s'.files) (rows : ∀ t ∈ s'.db.transfers, recorded s' t)
    (puts : s'.store.puts = s.store.puts) :
    Held env old s' := by
  refine ⟨rows, fun p hp => ?_⟩
  rw [puts] at hp
  refine (h.puts p hp).imp_right ?_
  rintro ⟨row, hrow, content, there, rest⟩
  exact ⟨row, inserted.subset hrow, content, files.subset there, rest⟩

theorem Held.same (h : Held env old s) (s' : State) (db : s'.db = s.db)
    (files : s.files <:+ s'.files) (puts : s'.store.puts = s.store.puts) :
    Held env old s' ∧ ∀ t, recorded s t → recorded s' t := by
  have kept : ∀ t, recorded s t → recorded s' t := by
    rintro t ⟨row, hrow, same⟩
    exact ⟨row, by rw [db]; exact hrow, same⟩
  refine ⟨h.grow (by rw [db]) files (fun t ht => ?_) puts, kept⟩
  rw [db] at ht
  exact kept t (h.rows t ht)

theorem lookupFile_mem {path : String} {entry : Entry} (found : lookupFile s path = some entry) :
    (path, entry) ∈ s.files := by
  unfold lookupFile at found
  obtain ⟨file, hfile, rfl⟩ := Option.map_eq_some_iff.mp found
  have same : file.1 = path := by simpa using List.find?_some hfile
  rw [← same]
  exact List.mem_of_find?_eq_some hfile

/-- The bytes of a body are the content of its file, or its envelope. -/
theorem body_read (laws : env.crypto.Lawful) {body : Body} {bytes : ChunkTransforms.Bytes}
    (read : body.read env s = some bytes) : ∃ content, (body.sourcePath, .file content) ∈ s.files ∧
      match body.encryption.map fun e => e.1.1 with
      | none => bytes = content
      | some dek =>
        openBuffer env.crypto dek bytes = .ok content ∧
          bytes.length = content.length + overheadBytes := by
  unfold Body.read at read
  split at read
  · rename_i content found
    refine ⟨content, lookupFile_mem found, ?_⟩
    unfold Body.bytes at read
    cases encryption : body.encryption with
    | none =>
      rw [encryption] at read
      exact (Option.some.inj read).symm
    | some pair =>
      obtain ⟨dek, iv⟩ := pair
      obtain ⟨c, cipher⟩ := laws.cipher_exists dek.1 iv.1 dek.2 iv.2
      obtain ⟨pushed, piped, flat⟩ := pipe_encrypt laws iv.1 c [content]
      simp only [encryption, cipher, piped] at read
      rw [List.flatten_cons, List.flatten_nil, List.append_nil] at flat
      rw [← Option.some.inj read, flat]
      exact ⟨openBuffer_sealed laws dek.2 iv cipher content, sealedObject_length laws iv c content⟩
  · cases read

theorem put_held (laws : env.crypto.Lawful) (h : Held env old s)
    {bucket key type : String} {body : Body}
    {bytes : ChunkTransforms.Bytes} (may : ∃ t, recorded s t ∧ Uploads env t bucket key body)
    (read : body.read env s = some bytes) :
    Held env old (putIn pid s bucket key body bytes type) := by
  refine ⟨h.rows, fun p hp => ?_⟩
  rcases List.mem_cons.mp hp with rfl | hp
  · right
    obtain ⟨t, ⟨row, hrow, same⟩, uploads⟩ := may
    obtain ⟨source, place⟩ := Prod.mk.inj same
    obtain ⟨content, there, opens⟩ := body_read laws read
    have targets := (address_route env place).1
    refine ⟨row, hrow, content, ?_, ?_, ?_, ?_⟩
    · rw [source, ← uploads.source]
      exact there
    · rw [targets]
      exact uploads.bucket
    · rw [targets]
      exact uploads.key
    · have enabled := uploads.encryption
      cases encryption : body.encryption with
      | none =>
        rw [encryption] at opens enabled
        exact ⟨enabled.symm, opens⟩
      | some pair =>
        rw [encryption] at opens enabled
        exact ⟨enabled.symm, opens⟩
  · exact h.puts p hp

/-- An object that is written, and everything else that happens to the object store. -/
theorem store_held (laws : env.crypto.Lawful) {op : StoreOp} {a : Except Err op.Ans} {task : Task}
    (h : Held env old s) (may : (reading env (recorded s) task).may () (.store op))
    (ran : execStore env pid s op = (a, s')) :
    Held env old s' ∧ ∀ t, recorded s t → recorded s' t := by
  cases op with
  | headBucket bucket =>
    simp only [execStore] at ran
    split at ran <;> cases ran <;> exact ⟨h, fun _ hk => hk⟩
  | createBucket bucket =>
    cases ran
    exact h.same _ rfl List.suffix_rfl rfl
  | putObject bucket key body n type =>
    simp only [execStore] at ran
    split at ran
    · cases ran
      exact ⟨h, fun _ hk => hk⟩
    · rename_i bytes read
      split at ran
      · cases ran
        exact ⟨put_held laws h may read, fun _ hk => hk⟩
      · cases ran
        exact ⟨h, fun _ hk => hk⟩
  | multipartUpload bucket key body type =>
    simp only [execStore] at ran
    split at ran
    · cases ran
      exact ⟨h, fun _ hk => hk⟩
    · rename_i bytes read
      cases ran
      exact ⟨put_held laws h may read, fun _ hk => hk⟩
  | getObject bucket key =>
    simp only [execStore] at ran
    split at ran <;> cases ran <;> exact ⟨h, fun _ hk => hk⟩

theorem db_held {op : DbOp} {a : Except Err op.Ans} {db' : Db} (h : Held env old s)
    (ran : s.db.exec s.host.now pid op = some (a, db')) :
    Held env old { s with db := db' } ∧ ∀ t, recorded s t → recorded { s with db := db' } t := by
  have effect := TableInvariants.exec_effect ran
  have inserted : s.db.inserted <+: db'.inserted := by
    rcases (EventPrivacy.effect_history effect).2 with same | ⟨x, -, same⟩
    · rw [same]
    · rw [same]
      exact List.prefix_append _ _
  refine ⟨h.grow inserted List.suffix_rfl
    (EventPrivacy.effect_committed kept_origin effect h.rows) rfl, ?_⟩
  rintro t ⟨row, hrow, same⟩
  exact ⟨row, inserted.subset hrow, same⟩

/-- What a call leaves, and what its answer tells. -/
theorem exec_held (laws : env.crypto.Lawful) {c : Choice} {op : Op} {a : Except Err op.Ans}
    {task : Task} (h : Held env old s) (may : (reading env (recorded s) task).may () op)
    (answered : exec env pid op c s = some (a, s')) :
    Held env old s' ∧ (∀ t, recorded s t → recorded s' t) ∧
    (reading env (recorded s') task).next () op a () := by
  cases exec_change answered with
  | rejected op name message =>
    refine ⟨h, fun _ hk => hk, ?_⟩
    unfold reading
    dsimp only
    split <;> trivial
  | db op a db' ran =>
    obtain ⟨held, grown⟩ := db_held h ran
    refine ⟨held, grown, ?_⟩
    cases op with
    | findOne mgr id =>
      cases mgr with
      | tx => trivial
      | pool =>
        cases ran
        cases found : s.db.transfers.find? fun t => t.id = id with
        | none => simp [reading, Db.rows, found]
        | some t =>
          simp only [reading, Db.rows, found]
          exact h.rows t (List.mem_of_find?_eq_some found)
    | _ => trivial
  | store o a objects ran =>
    obtain ⟨held, grown⟩ := store_held laws h may ran
    exact ⟨held, grown, trivial⟩
  | volume v => exact ⟨h, fun _ hk => hk, trivial⟩
  | queue q =>
    obtain ⟨held, grown⟩ := h.same { s with queues := s.queues.exec q } rfl List.suffix_rfl rfl
    exact ⟨held, grown, trivial⟩
  | kafka key event =>
    obtain ⟨held, grown⟩ :=
      h.same { s with kafka := s.kafka ++ [(key, event)] } rfl List.suffix_rfl rfl
    exact ⟨held, grown, trivial⟩
  | host o =>
    obtain ⟨held, grown⟩ :=
      h.same { s with host := (execHost c s.host o).2 } rfl List.suffix_rfl rfl
    exact ⟨held, grown, trivial⟩

theorem outside_files {e : Event} (happened : outside e s = some s') :
    s'.db = s.db ∧ s'.store = s.store ∧ s.files <:+ s'.files := by
  cases e with
  | clock ms =>
    cases happened
    exact ⟨rfl, rfl, List.suffix_rfl⟩
  | writeFile path entry =>
    cases happened
    exact ⟨rfl, rfl, List.suffix_cons _ _⟩
  | stalled jobId =>
    simp only [outside] at happened
    split at happened
    · cases happened
    · split at happened
      · cases happened
        exact ⟨rfl, rfl, List.suffix_rfl⟩
      · cases happened

end Steps

section Runs
variable {env : Env}

theorem holding (laws : env.crypto.Lawful) (old : List Put) :
    Knowing (machine env) anyStep recorded (reading env)
    (fun _ _ => True) (fun _ _ _ => True) (Held env old) where
  code F task _ := code_reading F task
  more _ _ _ _ _ := trivial
  request w q s task _ h entered := by
    have frame : s.db = w.store.db ∧ s.store = w.store.store ∧ s.files = w.store.files := by
      rcases enter_cases entered with ⟨rfl, -, -⟩ | ⟨_, _, -, -, -, rfl, -⟩ <;>
        exact ⟨rfl, rfl, rfl⟩
    obtain ⟨held, grown⟩ := h.same s frame.1 (by rw [frame.2.2]) (by rw [frame.2.1])
    exact ⟨held, grown, trivial⟩
  resume w pid c l r t op k a s _ h found at_call may answered := by
    obtain ⟨held, grown, heard⟩ := exec_held laws h may answered
    refine ⟨held, grown, fun F known => ?_⟩
    revert heard
    unfold reading
    dsimp only
    split
    · exact fun heard => known _ heard
    · exact fun heard => heard
  settle task out s h _ := by
    have frame : (finish env task out s).1.db = s.db ∧ (finish env task out s).1.store = s.store ∧
        (finish env task out s).1.files = s.files := by
      rcases finish_cases env task out s with same | ⟨_, _, _, -, same⟩ | ⟨_, _, -, same⟩ <;>
        rw [same] <;> exact ⟨rfl, rfl, rfl⟩
    obtain ⟨held, grown⟩ := h.same _ frame.1 (by rw [frame.2.2]) (by rw [frame.2.1])
    exact ⟨held, grown, fun _ _ => trivial⟩
  crash pid task s h := by
    have held : Held env old (drop pid task s) := h.grow List.prefix_rfl List.suffix_rfl h.rows rfl
    exact ⟨held, fun _ hk => hk⟩
  outside e s s' h happened := by
    have frame := outside_files happened
    exact h.same s' frame.1 frame.2.2 (by rw [frame.2.1])

/-- In every run, in which files change between calls, each new object holds a content that
the file of a recorded row has had, in the place the rules give it: as it is when
encryption is off, and as an envelope that opens to it under the object's data key when
encryption is on. -/
theorem objects_hold_uploads {w₀ w : SysWorld} (laws : env.crypto.Lawful) (start : Initial w₀)
    (path : Reach (machine env) anyStep w₀ w) {p : Put} (hp : p ∈ w.store.store.puts)
    (new : p ∉ w₀.store.store.puts) :
    ∃ row ∈ w.store.db.inserted, ∃ content, Holds env w.store p row content := by
  have first : Held env w₀.store.store.puts w₀.store := by
    refine ⟨?_, fun p hp => .inl hp⟩
    rw [start.transfers]
    exact fun t ht => by cases ht
  obtain ⟨held, -⟩ := (holding laws w₀.store.store.puts).holds start.threads first path
  exact (held.puts p hp).resolve_left new

theorem objects_hold_uploads_sample : ∃ (w : SysWorld) (p : Put) (row : FileTransfer)
    (content : ChunkTransforms.Bytes)
    (dek : ChunkTransforms.Bytes), sealedEnv.crypto.Lawful ∧ Initial sampleWorld ∧
    Reach (machine sealedEnv) anyStep sampleWorld w ∧ p ∈ w.store.store.puts ∧
    p ∉ sampleWorld.store.store.puts ∧
    row ∈ w.store.db.inserted ∧ (row.sourcePath, .file content) ∈ w.store.files ∧
    p.object.dek = some dek ∧
    openBuffer sealedEnv.crypto dek p.object.body = .ok content := by
  have run : ((machine sealedEnv).steps sampleWorld sampleArchived).map
      (fun w => w.store.store.puts.map fun p => p.object.dek.isSome) = some [true] := by
    decide +kernel
  obtain ⟨w, hw, puts⟩ := Option.map_eq_some_iff.mp run
  obtain ⟨p, only, sealed⟩ := List.map_eq_singleton_iff.mp puts
  obtain ⟨dek, hdek⟩ := Option.isSome_iff_exists.mp sealed
  have path := reach_of_steps _ hw
  have hp : p ∈ w.store.store.puts := by rw [only]; exact List.mem_singleton_self p
  have new : p ∉ sampleWorld.store.store.puts := List.not_mem_nil
  obtain ⟨row, hrow, content, there, -, -, opens⟩ :=
    objects_hold_uploads GaloisCounter.node_lawful sample_initial path hp new
  simp only [hdek] at opens
  exact ⟨w, p, row, content, dek, GaloisCounter.node_lawful, sample_initial, path, hp, new,
    hrow, there, hdek,
    opens.2.1⟩

end Runs

end ObjectContents
