import SyncBridge.EventPrivacy

/-!
# Where objects are stored

A worker writes an object where the routing rules send its row, into the default bucket
or into one that it has found or made, with the content type that the name of the file
gives; and a row is marked SUCCESS only after such a write. So in every run, with any
calls rejected and any workers lost, each SUCCESS row names its destination and an
object was stored there, and nothing is ever written anywhere else.

What a worker relies on between its calls stays true: rows keep the columns that decide
the destination, buckets are not removed, and the history of writes only grows.
-/

namespace StoredObjects

open AwaitPrograms ThreadPools GrowingKnowledge Entities Database TableInvariants Calls Worker
open Orchestrator Footprints

/-- The columns that decide where a file goes and as what. -/
def address (t : FileTransfer) : ℕ × String × String × String :=
  (t.id, t.username, t.filename, t.virtualPath)

theorem kept_address : Kept address := by
  intro now t p
  cases p <;> rfl

section Destination
variable (env : Env)

/-- The type `contentTypeStep` gives to the file. -/
def typeOf (t : FileTransfer) : String :=
  let ext := env.toLowerCase (String.ofList (PosixPaths.extname t.filename.toList))
  ((mimeByExt.find? fun e => e.1 = ext).map (·.2)).getD octetStream

theorem address_route {t t' : FileTransfer} (same : address t = address t') :
    routeOf env t = routeOf env t' ∧ typeOf env t = typeOf env t' := by
  obtain ⟨-, rest⟩ := Prod.mk.inj same
  obtain ⟨username, rest⟩ := Prod.mk.inj rest
  obtain ⟨filename, virtualPath⟩ := Prod.mk.inj rest
  constructor
  · have rules (r : RoutingRule) :
        Routing.matchesRule env.toLowerCase r t = Routing.matchesRule env.toLowerCase r t' := by
      simp only [Routing.matchesRule, username, filename, virtualPath]
    simp only [routeOf, Routing.resolve, rules, username, virtualPath]
  · simp only [typeOf, filename]

end Destination

/-! ## What workers rely on -/

inductive Fact where
  | row (t : FileTransfer)
  | bucket (name : String)
  | put (bucket key type : String) (encrypted : Bool)

/-- A row with this address was inserted; the bucket exists; such an object was written. -/
def know (s : State) : Fact → Prop
  | .row t => ∃ row ∈ s.db.inserted, address row = address t
  | .bucket name => name ∈ s.store.buckets
  | .put bucket key type encrypted => ∃ p ∈ s.store.puts, p.bucket = bucket ∧ p.key = key ∧
      p.object.contentType = type ∧ p.object.dek.isSome = encrypted

/-- The default bucket is taken for granted. -/
def Ready (env : Env) (F : Fact → Prop) (bucket : String) : Prop :=
  bucket = env.config.s3Bucket ∨ F (.bucket bucket)

/-- A write that the rules ask for. -/
def Placed (env : Env) (F : Fact → Prop) (bucket key type : String) : Prop :=
  ∃ t, F (.row t) ∧ bucket = (routeOf env t).bucket ∧ key = (routeOf env t).key ∧
    type = typeOf env t ∧
    Ready env F bucket

/-- The row may be marked as stored there. -/
def Completes (env : Env) (F : Fact → Prop) (id : ℕ) (bucket key : String)
    (encrypted : Bool) : Prop :=
  ∃ t, F (.row t) ∧ t.id = id ∧ bucket = (routeOf env t).bucket ∧ key = (routeOf env t).key ∧
    Ready env F bucket ∧ F (.put bucket key (typeOf env t) encrypted)

def storing (env : Env) (F : Fact → Prop) (_ : Task) : Monitor Op Op.Ans Err Unit where
  may _ op := match op with
    | .store (.putObject bucket key _ _ type) => Placed env F bucket key type
    | .store (.multipartUpload bucket key _ type) => Placed env F bucket key type
    | .db (.update id (.markSuccess bucket key _ _ encrypted _ _)) =>
      Completes env F id bucket key encrypted
    | _ => True
  next _ op a _ := match op, a with
    | .db (.findOne .pool _), .ok (some t) => F (.row t)
    | .store (.headBucket bucket), .ok _ => F (.bucket bucket)
    | .store (.createBucket bucket), .ok _ => F (.bucket bucket)
    | .store (.putObject bucket key body _ type), .ok _ =>
      F (.put bucket key type body.encryption.isSome)
    | .store (.multipartUpload bucket key body type), .ok _ =>
      F (.put bucket key type body.encryption.isSome)
    | _, _ => True

/-! ## Operations -/

section Operations
variable {env : Env} {F : Fact → Prop} {task : Task}

def AnyEnd {α : Type} (_ : Unit) (_ : Except Err α) : Prop := True

/-- Calls that neither write an object nor mark a row as stored. -/
def Idle (op : Op) : Prop :=
  (∀ bucket key body n type, op ≠ .store (.putObject bucket key body n type)) ∧
  (∀ bucket key body type, op ≠ .store (.multipartUpload bucket key body type)) ∧
  ∀ id bucket key etag sha encrypted wrappedDek bytes,
    op ≠ .db (.update id (.markSuccess bucket key etag sha encrypted wrappedDek bytes))

theorem idle_may {op : Op} (h : Idle op) : (storing env F task).may () op := by
  unfold storing
  dsimp only
  split
  · exact absurd rfl (h.1 _ _ _ _ _)
  · exact absurd rfl (h.2.1 _ _ _ _)
  · exact absurd rfl (h.2.2 _ _ _ _ _ _ _ _)
  · trivial

theorem idle_obeys {α : Type} {P : Op → Prop} {E : Err → Prop} {p : Async α}
    (h : Within P AnyErr E p) (idle : ∀ op, P op → Idle op) :
    Obeys (storing env F task) AnyEnd () p := by
  refine (h.obeys (I := fun _ => True) ?_ ?_ trivial).mono p fun _ _ _ => trivial
  · exact fun _ op _ hop => idle_may (idle op hop)
  · exact fun _ _ _ _ _ _ _ => ⟨trivial, fun _ _ => trivial⟩

end Operations

/-- Calls of an attempt before the upload. -/
def Quiet : Op → Prop
  | .volume _ => True
  | .host _ => True
  | .db (.findUsage _) => True
  | _ => False

theorem quiet_idle (op : Op) (h : Quiet op) : Idle op := by
  refine ⟨?_, ?_, ?_⟩
  all_goals
    intros
    rintro rfl
    exact h

section Attempt
variable {env : Env} {F : Fact → Prop} {task : Task}

/-- The pipeline knows the type of the file when it ends. -/
theorem pipeline_typed (ctx : ProcessingContext) :
    Yields (fun c => Handed ctx c ∧ c.contentType = some (typeOf env ctx.transfer))
      (runPipeline (processingSteps env) ctx) := by
  refine yields_bind (validation_yields ctx) fun c₁ h₁ => yields_bind (quota_yields c₁) fun c₂ h₂ =>
    yields_bind (antivirus_yields c₂) fun c₃ h₃ => ?_
  have handed := (h₁.trans h₂).trans h₃
  refine ⟨⟨handed.1, handed.2.1, handed.2.2⟩, ?_⟩
  rw [← handed.1]
  rfl

/-- After `ensureBucket` the bucket exists. -/
theorem ensureBucket_stores (bucket : String) :
    Obeys (storing env F task) (fun _ r => ∀ u, r = .ok u →
      F (.bucket bucket)) () (ensureBucket bucket) := by
  refine Obeys.orElse (q := fun _ r => ∀ u, r = .ok u →
    F (.bucket bucket)) ?_ (fun _ _ made => made) ?_
  · refine ⟨trivial, ?_⟩
    intro r _ heard u same
    subst same
    exact heard
  · intro _ e _
    split
    · split
      · refine ⟨trivial, ?_⟩
        intro r _ heard u same
        subst same
        exact heard
      · exact fun _ same => by cases same
    · exact fun _ same => by cases same

theorem uploadStream_stores {bucket key type : String} {body : Body} {n : ℕ}
    (placed : Ready env F bucket → Placed env F bucket key type) :
    Obeys (storing env F task) (fun _ r => ∀ etag, r = .ok etag → Ready env F bucket ∧
      F (.put bucket key type body.encryption.isSome)) ()
        (uploadStream env bucket key body n type) := by
  refine Obeys.andThen (q := fun _ r => ∀ u, r = .ok u → Ready env F bucket) ?_ ?_
    fun _ _ _ _ same => by cases same
  · split
    · rename_i default
      exact fun _ _ => .inl default
    · exact (ensureBucket_stores bucket).mono _ fun _ _ made u same => .inr (made u same)
  · intro _ u made
    have ready := made u rfl
    split
    · refine ⟨placed ready, ?_⟩
      intro r _ heard etag same
      subst same
      exact ⟨ready, heard⟩
    · refine ⟨placed ready, ?_⟩
      intro r _ heard etag same
      subst same
      exact ⟨ready, heard⟩

/-- What `prepareAndUpload` returns may be marked. -/
theorem prepare_stores {t : FileTransfer} (known : F (.row t)) :
    Obeys (storing env F task) (fun _ r => ∀ u, r = .ok u →
      Completes env F t.id u.bucket u.key u.wrappedDek.isSome) ()
      (prepareAndUpload env t) := by
  refine (idle_obeys (sourceStats_within t trivial) quiet_idle).andThen ?_
    fun _ _ _ _ same => by cases same
  intro _ stats _
  refine Obeys.andThen ((idle_obeys (pipeline_within _ trivial trivial) quiet_idle).withValue
    (pipeline_typed _)) ?_
    fun _ _ _ _ same => by cases same
  rintro _ ctx ⟨-, typed⟩
  obtain ⟨handed, contentType⟩ := typed ctx rfl
  refine (idle_obeys (checksums_within _ trivial) quiet_idle).andThen ?_
    fun _ _ _ _ same => by cases same
  intro _ checksums _
  refine (idle_obeys (drawEncryption_within trivial trivial) quiet_idle).andThen ?_
    fun _ _ _ _ same => by cases same
  intro _ enc _
  have type : ctx.contentType.getD octetStream = typeOf env t := by
    rw [contentType]
    rfl
  refine Obeys.andThen (uploadStream_stores ?_) ?_ fun _ _ _ _ same => by cases same
  · intro ready
    exact ⟨t, known, rfl, rfl, type, ready⟩
  · intro _ etag stored
    obtain ⟨ready, put⟩ := stored etag rfl
    refine Obeys.andThen (q := AnyEnd) ?_ ?_ fun _ _ _ _ same => by cases same
    · split
      · trivial
      · exact idle_obeys (verifyIntegrity_within etag _) quiet_idle
    · intro _ _ _ u same
      cases same
      refine ⟨t, known, rfl, rfl, rfl, ready, ?_⟩
      rw [type] at put
      cases enc <;> exact put

theorem publish_idle (op : Op) (h : PublishCall op) : Idle op := by
  refine ⟨?_, ?_, ?_⟩
  all_goals
    intros
    rintro rfl
    exact h

theorem runTransfer_stores (data : TransferJobData) :
    Obeys (storing env F task) AnyEnd () (runTransfer env data) := by
  refine obeys_call trivial ?_ fun _ _ _ => trivial
  intro found _ heard
  split
  · trivial
  rename_i t
  have known : F (.row t) := heard
  split
  · trivial
  refine obeys_call trivial ?_ fun _ _ _ => trivial
  intro _ _ _
  refine Obeys.orElse (q := AnyEnd) ?_ (fun _ _ _ => trivial) ?_
  · refine (prepare_stores known).andThen ?_ fun _ _ _ => trivial
    intro _ u completes
    refine obeys_call (completes u rfl) ?_ fun _ _ _ => trivial
    intro _ _ _
    refine obeys_call trivial ?_ fun _ _ _ => trivial
    intro _ _ _
    exact idle_obeys (publish_within _ _ _) publish_idle
  · intro _ e _
    unfold reject
    split
    · refine obeys_call trivial ?_ fun _ _ _ => trivial
      intro _ _ _
      refine (idle_obeys (publish_within _ _ _) publish_idle).andThen ?_ fun _ _ _ => trivial
      exact fun _ _ _ => ⟨trivial, fun _ _ _ => trivial⟩
    · trivial

theorem code_stores (F : Fact → Prop) (task : Task) :
    Obeys (storing env F task) AnyEnd () (code env task) := by
  cases task with
  | process jobId data =>
    exact (runTransfer_stores data).andThen (fun _ _ _ => trivial) fun _ _ _ => trivial
  | _ =>
    refine idle_obeys (code_within _) fun op call => ?_
    refine ⟨?_, ?_, ?_⟩
    all_goals
      intros
      rintro rfl
      exact call.elim

end Attempt

/-! ## Runs -/

/-- The row names its destination, and an object of its kind was stored there. -/
def Stored (env : Env) (F : Fact → Prop) (t : FileTransfer) : Prop :=
  t.bucket = (routeOf env t).bucket ∧ t.objectKey = some (routeOf env t).key ∧
    Ready env F t.bucket ∧
    F (.put (routeOf env t).bucket (routeOf env t).key (typeOf env t) t.encrypted)

/-- The objects in `old` were there before. -/
structure Housed (env : Env) (old : List Put) (s : State) : Prop where
  consistent : Consistent s.db
  rows : ∀ t ∈ s.db.transfers, know s (.row t)
  success : ∀ t ∈ s.db.transfers, t.status = .success → Stored env (know s) t
  puts : ∀ p ∈ s.store.puts, p ∈ old ∨ Placed env (know s) p.bucket p.key p.object.contentType

section Growth
variable {env : Env} {F F' : Fact → Prop}

theorem Ready.grow {bucket : String} (h : Ready env F bucket) (more : ∀ k, F k → F' k) :
    Ready env F' bucket :=
  h.imp_right (more _)

theorem Placed.grow {bucket key type : String} (h : Placed env F bucket key type)
    (more : ∀ k, F k → F' k) :
    Placed env F' bucket key type := by
  obtain ⟨t, known, h₁, h₂, h₃, ready⟩ := h
  exact ⟨t, more _ known, h₁, h₂, h₃, ready.grow more⟩

theorem Stored.grow {t : FileTransfer} (h : Stored env F t) (more : ∀ k, F k → F' k) :
    Stored env F' t :=
  ⟨h.1, h.2.1, h.2.2.1.grow more, more _ h.2.2.2⟩

/-- History and buckets only grow. -/
theorem know_grow {s s' : State} (inserted : s.db.inserted <+: s'.db.inserted)
    (buckets : s.store.buckets ⊆ s'.store.buckets) (puts : s.store.puts ⊆ s'.store.puts) (k : Fact)
    (h : know s k) : know s' k := by
  cases k with
  | row t =>
    obtain ⟨row, hrow, same⟩ := h
    exact ⟨row, inserted.subset hrow, same⟩
  | bucket name => exact buckets h
  | put bucket key type encrypted =>
    obtain ⟨p, hp, same⟩ := h
    exact ⟨p, puts hp, same⟩

/-- Two records of one number are one record. -/
theorem row_address {s : State} (h : Consistent s.db) {t t' : FileTransfer}
    (known : know s (.row t)) (known' : know s (.row t')) (same : t.id = t'.id) :
    address t = address t' := by
  obtain ⟨row, hrow, eq⟩ := known
  obtain ⟨row', hrow', eq'⟩ := known'
  have ids : row.id = row'.id :=
    (congrArg Prod.fst eq).trans (same.trans (congrArg Prod.fst eq').symm)
  have one : row = row' :=
    List.inj_on_of_nodup_map h.historyIds (List.mem_append_left _ hrow)
      (List.mem_append_left _ hrow') ids
  rw [← eq, one, eq']

end Growth

section Steps
variable {env : Env} {old : List Put} {s : State} {pid : ℕ}

/-- Steps that leave the tables and the object store alone. -/
theorem Housed.same (h : Housed env old s) (s' : State) (db : s'.db = s.db)
    (objects : s'.store = s.store) :
    Housed env old s' ∧ ∀ k, know s k → know s' k := by
  have facts : know s' = know s := by
    funext k
    cases k <;> simp only [know, db, objects]
  constructor
  · constructor
    · rw [db]
      exact h.consistent
    · rw [db, facts]
      exact h.rows
    · rw [db, facts]
      exact h.success
    · rw [objects, facts]
      exact h.puts
  · rw [facts]
    exact fun _ hk => hk

/-- A row becomes SUCCESS by an update that its worker was ready for. -/
theorem marked_stored {now : ℕ} {t : FileTransfer} {op : DbOp} {p : Patch} (h : Housed env old s)
    (ht : t ∈ s.db.transfers) (names : poolUpdate op = some (t.id, p))
    (success : (p.apply now t).status = .success) {task : Task}
    (may : (storing env (know s) task).may () (.db op)) :
    Stored env (know s) (p.apply now t) := by
  cases p with
  | markSuccess bucket key etag sha encrypted wrappedDek bytes =>
    have update :
        op = .update t.id (.markSuccess bucket key etag sha encrypted wrappedDek bytes) := by
      unfold poolUpdate at names
      split at names
      · cases names
        rfl
      · cases names
      · cases names
    subst update
    obtain ⟨t₁, known, same, hbucket, hkey, ready, put⟩ := may
    have address : address t₁ = address t := row_address h.consistent known (h.rows t ht) same
    obtain ⟨targets, types⟩ := address_route env address
    let p : Patch := .markSuccess bucket key etag sha encrypted wrappedDek bytes
    have patched : routeOf env (p.apply now t) = routeOf env t ∧
        typeOf env (p.apply now t) = typeOf env t :=
      address_route env (kept_address now t _)
    unfold Stored
    rw [patched.1, patched.2, ← targets, ← types, ← hbucket, ← hkey]
    exact ⟨rfl, rfl, ready, put⟩
  | _ => cases success

theorem db_housed {op : DbOp} {a : Except Err op.Ans} {db' : Db} {task : Task}
    (h : Housed env old s) (may : (storing env (know s) task).may () (.db op))
    (ran : s.db.exec s.host.now pid op = some (a, db')) :
    Housed env old { s with db := db' } ∧ ∀ k, know s k → know { s with db := db' } k := by
  have effect := TableInvariants.exec_effect ran
  have inserted : s.db.inserted <+: db'.inserted := by
    rcases (EventPrivacy.effect_history effect).2 with same | ⟨x, -, same⟩
    · rw [same]
    · rw [same]
      exact List.prefix_append _ _
  have grown : ∀ k, know s k → know { s with db := db' } k :=
    know_grow inserted (List.Subset.refl _) (List.Subset.refl _)
  refine ⟨⟨TableInvariants.exec_consistent h.consistent ran, ?_, ?_, fun p hp => ?_⟩, grown⟩
  · exact EventPrivacy.effect_committed kept_address effect h.rows
  · intro t ht success
    have moved : t.status ≠ .pending := by rw [success]; decide
    rcases status_origin h.consistent effect ht moved with before | ⟨t₀, ht₀, p, names, rfl, -, -⟩
    · exact (h.success t before success).grow grown
    · exact (marked_stored h ht₀ names success may).grow grown
  · exact (h.puts p hp).imp_right fun placed => placed.grow grown

/-- A new object, where it was meant to be. -/
theorem put_housed {bucket key type : String} {body : Body} {bytes : ChunkTransforms.Bytes}
    (h : Housed env old s) (placed : Placed env (know s) bucket key type) :
    Housed env old (putIn pid s bucket key body bytes type) ∧
      (∀ k, know s k → know (putIn pid s bucket key body bytes type) k) ∧
      know (putIn pid s bucket key body bytes type)
        (.put bucket key type body.encryption.isSome) := by
  have grown : ∀ k, know s k → know (putIn pid s bucket key body bytes type) k :=
    know_grow List.prefix_rfl (List.Subset.refl _) (List.subset_cons_self _ _)
  refine ⟨⟨h.consistent, fun t ht => grown _ (h.rows t ht),
    fun t ht success => (h.success t ht success).grow grown, ?_⟩,
    grown, _, List.mem_cons_self, rfl, rfl, rfl, by simp⟩
  intro p hp
  rcases List.mem_cons.mp hp with rfl | hp
  · exact .inr (placed.grow grown)
  · exact (h.puts p hp).imp_right fun placed => placed.grow grown

end Steps

section Runs
variable {env : Env} {old : List Put}

theorem store_housed {s s' : State} {pid : ℕ} {op : StoreOp} {a : Except Err op.Ans} {task : Task}
    (h : Housed env old s) (may : (storing env (know s) task).may () (.store op))
    (ran : execStore env pid s op = (a, s')) :
    Housed env old s' ∧ (∀ k, know s k → know s' k) ∧
    (storing env (know s') task).next () (.store op) a () := by
  cases op with
  | headBucket bucket =>
    simp only [execStore] at ran
    split at ran
    · rename_i present
      cases ran
      exact ⟨h, fun _ hk => hk, present⟩
    · cases ran
      exact ⟨h, fun _ hk => hk, trivial⟩
  | createBucket bucket =>
    cases ran
    have grown : ∀ k, know s k →
        know { s with store := { s.store with buckets := bucket :: s.store.buckets } } k :=
      know_grow List.prefix_rfl (List.subset_cons_self _ _) (List.Subset.refl _)
    refine ⟨⟨h.consistent, fun t ht => grown _ (h.rows t ht),
      fun t ht success => (h.success t ht success).grow grown, ?_⟩,
      grown, List.mem_cons_self⟩
    exact fun p hp => (h.puts p hp).imp_right fun placed => placed.grow grown
  | putObject bucket key body n type =>
    simp only [execStore] at ran
    split at ran
    · cases ran
      exact ⟨h, fun _ hk => hk, trivial⟩
    · split at ran
      · cases ran
        exact put_housed h may
      · cases ran
        exact ⟨h, fun _ hk => hk, trivial⟩
  | multipartUpload bucket key body type =>
    simp only [execStore] at ran
    split at ran
    · cases ran
      exact ⟨h, fun _ hk => hk, trivial⟩
    · cases ran
      exact put_housed h may
  | getObject bucket key =>
    simp only [execStore] at ran
    split at ran <;> cases ran <;> exact ⟨h, fun _ hk => hk, trivial⟩

/-- What a call leaves, and what its answer tells. -/
theorem exec_housed {s s' : State} {pid : ℕ} {c : Choice} {op : Op} {a : Except Err op.Ans}
    {task : Task} (h : Housed env old s) (may : (storing env (know s) task).may () op)
    (answered : exec env pid op c s = some (a, s')) :
    Housed env old s' ∧ (∀ k, know s k → know s' k) ∧
    (storing env (know s') task).next () op a () := by
  cases exec_change answered with
  | rejected op name message =>
    refine ⟨h, fun _ hk => hk, ?_⟩
    unfold storing
    dsimp only
    split <;> trivial
  | db op a db' ran =>
    obtain ⟨housed, grown⟩ := db_housed h may ran
    refine ⟨housed, grown, ?_⟩
    cases op with
    | findOne mgr id =>
      cases mgr with
      | tx => trivial
      | pool =>
        cases ran
        cases found : s.db.transfers.find? fun t => t.id = id with
        | none => simp [storing, Db.rows, found]
        | some t =>
          simp only [storing, Db.rows, found]
          exact h.rows t (List.mem_of_find?_eq_some found)
    | _ => trivial
  | queue q =>
    obtain ⟨housed, grown⟩ := h.same { s with queues := s.queues.exec q } rfl rfl
    exact ⟨housed, grown, trivial⟩
  | kafka key event =>
    obtain ⟨housed, grown⟩ := h.same { s with kafka := s.kafka ++ [(key, event)] } rfl rfl
    exact ⟨housed, grown, trivial⟩
  | volume v => exact ⟨h, fun _ hk => hk, trivial⟩
  | store o a objects ran => exact store_housed h may ran
  | host o =>
    obtain ⟨housed, grown⟩ := h.same { s with host := (execHost c s.host o).2 } rfl rfl
    exact ⟨housed, grown, trivial⟩

theorem keeping (env : Env) (old : List Put) :
    Knowing (machine env) anyStep know (storing env) (fun _ _ => True)
    (fun _ _ _ => True) (Housed env old) where
  code F task _ := code_stores F task
  more _ _ _ _ _ := trivial
  request w q s task _ h entered := by
    have frame : s.db = w.store.db ∧ s.store = w.store.store := by
      rcases enter_cases entered with ⟨rfl, -, -⟩ | ⟨_, _, -, -, -, rfl, -⟩ <;> exact ⟨rfl, rfl⟩
    obtain ⟨housed, grown⟩ := h.same s frame.1 frame.2
    exact ⟨housed, grown, trivial⟩
  resume w pid c l r t op k a s _ h found at_call may answered := by
    obtain ⟨housed, grown, heard⟩ := exec_housed h may answered
    refine ⟨housed, grown, fun F known => ?_⟩
    revert heard
    unfold storing
    dsimp only
    split <;> first | exact fun heard => known _ heard | exact fun heard => heard
  settle task out s h _ := by
    have frame : (finish env task out s).1.db = s.db ∧
        (finish env task out s).1.store = s.store := by
      rcases finish_cases env task out s with same | ⟨_, _, _, -, same⟩ | ⟨_, _, -, same⟩ <;>
        rw [same] <;> exact ⟨rfl, rfl⟩
    obtain ⟨housed, grown⟩ := h.same _ frame.1 frame.2
    exact ⟨housed, grown, fun _ _ => trivial⟩
  crash pid task s h := by
    have grown : ∀ k, know s k → know (drop pid task s) k := by
      refine know_grow ?_ ?_ ?_
      · exact List.prefix_rfl
      · exact List.Subset.refl _
      · exact List.Subset.refl _
    refine ⟨⟨dropTx_consistent h.consistent pid, fun t ht => grown _ (h.rows t ht), ?_, ?_⟩, grown⟩
    · exact fun t ht success => (h.success t ht success).grow grown
    · exact fun p hp => (h.puts p hp).imp_right fun placed => placed.grow grown
  outside e s s' h happened := by
    have frame : s'.db = s.db ∧ s'.store = s.store := by
      rcases outside_cases happened with ⟨_, _, rfl⟩ | ⟨_, _, -, -, -, rfl⟩ <;> exact ⟨rfl, rfl⟩
    exact h.same s' frame.1 frame.2

/-- In every run: a SUCCESS row names the bucket and key its rules give, the bucket is the
default one or exists, and an object with the type of its file was written there,
encrypted exactly if the row says so. Every object that was not there at the start was
written where the rules send a recorded row. -/
theorem objects_where_routed {w₀ w : SysWorld} (start : Initial w₀)
    (path : Reach (machine env) anyStep w₀ w) :
    (∀ t ∈ w.store.db.transfers, t.status = .success →
      t.bucket = (routeOf env t).bucket ∧ t.objectKey = some (routeOf env t).key ∧
      (t.bucket = env.config.s3Bucket ∨ t.bucket ∈ w.store.store.buckets) ∧
      ∃ p ∈ w.store.store.puts, p.bucket = (routeOf env t).bucket ∧ p.key = (routeOf env t).key ∧
        p.object.contentType = typeOf env t ∧ p.object.dek.isSome = t.encrypted) ∧
    ∀ p ∈ w.store.store.puts, p ∈ w₀.store.store.puts ∨ ∃ row ∈ w.store.db.inserted,
      p.bucket = (routeOf env row).bucket ∧ p.key = (routeOf env row).key ∧
      p.object.contentType = typeOf env row ∧
      (p.bucket = env.config.s3Bucket ∨ p.bucket ∈ w.store.store.buckets) := by
  have first : Housed env w₀.store.store.puts w₀.store := by
    refine ⟨initial_consistent start, ?_, ?_, fun p hp => .inl hp⟩
    · rw [start.transfers]
      exact fun t ht => by cases ht
    · rw [start.transfers]
      exact fun t ht => by cases ht
  obtain ⟨housed, -⟩ := (keeping env w₀.store.store.puts).holds start.threads first path
  refine ⟨housed.success, fun p hp => (housed.puts p hp).imp_right ?_⟩
  rintro ⟨t, ⟨row, hrow, same⟩, hbucket, hkey, type, ready⟩
  obtain ⟨targets, types⟩ := address_route env same
  exact ⟨row, hrow, by rw [hbucket, targets], by rw [hkey, targets], by rw [type, types], ready⟩

end Runs

/-- Text files go to a bucket of their own, which does not exist yet. -/
def archiveEnv : Env :=
  { sampleEnv with config := { sampleConfig with
      routingRules := [⟨none, some "txt", none, some "archive", some "in/"⟩] } }

/-- The sample upload is relayed, and a worker takes it to the end. -/
def sampleArchived : List SysAct :=
  sampleAccepted ++ sampleRelay 1 ++ .request (.takeJob 0) :: answer 2 11

theorem objects_where_routed_sample : ∃ (w : SysWorld) (t : FileTransfer), Initial sampleWorld ∧
    Reach (machine archiveEnv) anyStep sampleWorld w ∧ t ∈ w.store.db.transfers ∧
    t.status = .success ∧
    t.bucket = "archive" ∧ "archive" ∈ w.store.store.buckets ∧
    ∃ p ∈ w.store.store.puts, p.bucket = "archive" ∧ p.key = (routeOf archiveEnv t).key ∧
      p.object.contentType = typeOf archiveEnv t := by
  have run : ((machine archiveEnv).steps sampleWorld sampleArchived).map
      (fun w => w.store.db.transfers.map fun t => (t.status, t.bucket)) =
        some [(.success, "archive")] := by
    decide +kernel
  obtain ⟨w, hw, rows⟩ := Option.map_eq_some_iff.mp run
  obtain ⟨t, ht, columns⟩ := List.map_eq_singleton_iff.mp rows
  obtain ⟨success, bucket⟩ := Prod.mk.inj columns
  have path := reach_of_steps _ hw
  have hmem : t ∈ w.store.db.transfers := by rw [ht]; exact List.mem_singleton_self t
  obtain ⟨place, -, ready, p, hp, hbucket, key, type, -⟩ :=
    (objects_where_routed sample_initial path).1 t hmem success
  rw [bucket] at ready place
  refine ⟨w, t, sample_initial, path, hmem, success, bucket, ready.resolve_left ?_, p, hp,
    ?_, key, type⟩
  · decide
  · rw [hbucket, ← place]

end StoredObjects
