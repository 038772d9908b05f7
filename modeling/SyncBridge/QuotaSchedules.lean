import SyncBridge.QuotaBounds

/-!
# Schedules that overshoot a quota

Files are uploaded one after another until the next one would just fit, and then all `W`
slots check the quota before any of them records its file. The recorded usage then is the
limit and `W - 1` files more, so the bound cannot be improved.
-/

namespace QuotaSchedules

open AwaitPrograms ThreadPools Entities Database TableInvariants Calls Ingestion Worker Management
open Orchestrator Footprints Metering QuotaBounds

/-- The sample installation with a limit on files and a quota for every tenant. -/
def quotaEnv (maxFile maxBytes maxObjects : Nat) : Env :=
  { sampleEnv with config := { sampleConfig with
      maxFileSizeBytes := maxFile
      quotaDefaultMaxBytes := maxBytes
      quotaDefaultMaxObjects := maxObjects } }

/-- What is left of an execution that has passed the quota with a file of `n` bytes. -/
def admitted (env : Env) (t : FileTransfer) (n : Nat) : Async Reply :=
  finished (Prog.tryCatch
    (do
      let uploaded ← (do
        let ctx ← runPipeline [antivirusStep env, contentTypeStep env] ⟨t, t.sourcePath, n, none⟩
        let checksums ← computeFileChecksums env ctx.sourcePath
        uploadFile env t ctx checksums)
      complete env t uploaded)
    (reject env t))

/-- A file of `n` bytes, nobody subscribed, and no transaction open. -/
structure Stocked (n : Nat) (s : State) : Prop where
  idle : s.db.openTxs = []
  unsubscribed : s.db.subscriptions = []
  file : lookupFile s sampleFile = some (.file (List.replicate n 97))

/-- A row of the sample file that was not completed. -/
structure Fresh (t : FileTransfer) : Prop where
  unfinished : t.status ≠ .success
  source : t.sourcePath = sampleFile
  tenant : t.tenantId = "default"

/-- The state after an update of a row that nobody holds. -/
def updated (id : Nat) (p : Patch) (s : State) : State :=
  { s with db := { s.db with
      transfers := patchRow none s.host.now id p s.db.transfers
      completions := completed id p s.db.transfers ++ s.db.completions } }

section Execution
variable {F B M n pid : Nat} {s : State} {t : FileTransfer}

theorem update_answered (env : Env) (idle : s.db.openTxs = []) (id : Nat) (p : Patch) :
    exec env pid (.db (.update id p)) .ok s = some (.ok (), updated id p s) := by
  have free : s.db.locked Db.anyone id = false := by
    rw [Db.locked, idle]
    rfl
  simp only [exec, Choice.ok, perform, Db.exec, Db.updateRow, free]
  rfl

/-- The usage lets a file of `n` bytes pass. -/
structure Room (B M n : Nat) (usage : Nat × Nat) : Prop where
  bytes : 0 < B → usage.2 + n ≤ B
  objects : 0 < M → usage.1 + 1 ≤ M

theorem read_usage (db : Db) (tenantId : String) :
    ((db.usage.find? fun u => u.tenantId = tenantId).getD ⟨tenantId, 0, 0⟩).bytesStored =
      (usageOf db tenantId).2 ∧
    ((db.usage.find? fun u => u.tenantId = tenantId).getD ⟨tenantId, 0, 0⟩).objectCount =
      (usageOf db tenantId).1 := by
  unfold usageOf
  cases db.usage.find? fun u => u.tenantId = tenantId <;> exact ⟨rfl, rfl⟩

theorem quota_drives (fresh : Fresh t) (room : Room B M n (usageOf s.db "default")) :
    Drives (exec (quotaEnv F B M)) pid (quotaStep (quotaEnv F B M) ⟨t, t.sourcePath, n, none⟩) s
      (.done (.ok ⟨t, t.sourcePath, n, none⟩)) s := by
  obtain ⟨bytes, objects⟩ := read_usage s.db t.tenantId
  rw [fresh.tenant] at bytes objects
  have read : Drives (exec (quotaEnv F B M)) pid (getUsage t.tenantId) s
      (.done (.ok ((s.db.usage.find? fun u => u.tenantId = t.tenantId).getD
        ⟨t.tenantId, 0, 0⟩))) s :=
    Drives.seq (drives_call (c := .ok) rfl) (.here _ _)
  have passes :
      Drives (exec (quotaEnv F B M)) pid (assertWithinQuota (quotaEnv F B M) t.tenantId n) s
      (.done (.ok ())) s := by
    refine Drives.seq read ?_
    have quota : getQuota (quotaEnv F B M) t.tenantId = ⟨B, M⟩ := rfl
    have enough := room.bytes
    have free := room.objects
    rw [quota, fresh.tenant]
    dsimp only
    rw [bytes, objects, if_neg (by omega), if_neg (by omega)]
    exact .here _ _
  exact Drives.seq passes (.here _ _)

theorem checks_drive (fresh : Fresh t) (positive : 0 < n) (small : n ≤ F)
    (room : Room B M n (usageOf s.db "default")) :
    Drives (exec (quotaEnv F B M)) pid
      (runPipeline (processingSteps (quotaEnv F B M)) ⟨t, t.sourcePath, n, none⟩) s
      (runPipeline [antivirusStep (quotaEnv F B M), contentTypeStep (quotaEnv F B M)]
        ⟨t, t.sourcePath, n, none⟩) s := by
  have valid : Drives (exec (quotaEnv F B M)) pid
      (validationStep (quotaEnv F B M) ⟨t, t.sourcePath, n, none⟩) s
      (.done (.ok ⟨t, t.sourcePath, n, none⟩)) s := by
    have limit : (quotaEnv F B M).config.maxFileSizeBytes = F := rfl
    unfold validationStep
    rw [limit, if_neg (by simp only; omega), if_neg (by simp only; omega)]
    exact .here _ _
  exact Drives.seq valid (Drives.seq (quota_drives fresh room) (.here _ _))

theorem sourceStats_drives (env : Env) (stocked : Stocked n s) (fresh : Fresh t) :
    Drives (exec env) pid (sourceStats t) s (.done (.ok ⟨n, true⟩)) s := by
  have stat : exec env pid (.volume (.stat t.sourcePath)) .ok s = some (.ok ⟨n, true⟩, s) := by
    simp only [exec, Choice.ok, perform, execVolume, fresh.source, stocked.file, Entry.stats,
      List.length_replicate]
  have found : Drives (exec env) pid (Prog.tryCatch
      ((volume (.stat t.sourcePath)).bind fun stats => .done (.ok (some stats)))
        fun _ => .done (.ok none)) s
      (.done (.ok (some ⟨n, true⟩))) s :=
    Drives.tryCatch (Drives.seq (drives_call stat) (.here _ _)) _
  exact Drives.seq found (.here _ _)

/-- An execution reads its row, marks it and passes the checks. -/
theorem admit_drives (pid jobId : Nat) (data : TransferJobData) (stocked : Stocked n s)
    (fresh : Fresh t) (positive : 0 < n) (small : n ≤ F)
    (room : Room B M n (usageOf s.db "default"))
    (stored : s.db.transfers.find? (fun t => t.id = data.transferId) = some t) :
    Drives (exec (quotaEnv F B M)) pid (code (quotaEnv F B M) (.process jobId data)) s
      (admitted (quotaEnv F B M) t n) (updated t.id .markProcessing s) := by
  refine Drives.bind ?_ _
  have read : exec (quotaEnv F B M) pid (.db (.findOne .pool data.transferId)) .ok s =
      some (.ok (some t), s) := by
    simp only [exec, Choice.ok, perform, Db.exec, Db.rows, stored]
  refine Drives.seq (drives_call read) ?_
  dsimp only
  rw [if_neg fresh.unfinished]
  refine Drives.seq (drives_call (update_answered _ stocked.idle t.id .markProcessing)) ?_
  refine Drives.tryCatch (Drives.bind ?_ _) _
  have stocked' : Stocked n (updated t.id .markProcessing s) :=
    ⟨stocked.idle, stocked.unsubscribed, stocked.file⟩
  refine Drives.seq (sourceStats_drives _ stocked' fresh) ?_
  exact Drives.bind (checks_drive (s := updated t.id .markProcessing s) fresh positive small room) _

/-- What an execution that has passed the quota does to the state. -/
structure Recorded (n : Nat) (t : FileTransfer) (s s' : State) : Prop where
  stocked : Stocked n s'
  usage : usageOf s'.db "default" = usageOf s.db "default" + (1, n)
  others : ∀ id, id ≠ t.id → s'.db.transfers.find? (fun t => t.id = id) = s.db.transfers.find?
    fun t => t.id = id
  queues : s'.queues = s.queues

theorem uploadStream_drives (F B M pid : Nat) (stocked : Stocked n s) (key contentType : String) :
    ∃ etag objects, Drives (exec (quotaEnv F B M)) pid
        (uploadStream (quotaEnv F B M) (quotaEnv F B M).config.s3Bucket key
          ⟨sampleFile, none⟩ n contentType) s
        (.done (.ok etag)) { s with store := objects } ∧
      (etag = none ∨ etag = some ((quotaEnv F B M).md5 (List.replicate n 97))) := by
  have content : Body.read (quotaEnv F B M) s ⟨sampleFile, none⟩ = some (List.replicate n 97) := by
    simp only [Body.read, stocked.file, Body.bytes]
  let stored := putIn pid s (quotaEnv F B M).config.s3Bucket key ⟨sampleFile, none⟩
    (List.replicate n 97) contentType
  unfold uploadStream
  rw [if_pos rfl]
  by_cases single : 0 < n ∧ n ≤ (quotaEnv F B M).config.uploadPartSizeBytes
  · have put : exec (quotaEnv F B M) pid
        (.store (.putObject (quotaEnv F B M).config.s3Bucket key ⟨sampleFile, none⟩ n
        contentType)) .ok s = some
          (.ok (some ((quotaEnv F B M).md5 (List.replicate n 97))), stored) := by
      simp only [exec, Choice.ok, perform, execStore, content, List.length_replicate, if_true]
      rfl
    refine ⟨_, stored.store, Drives.seq (.here _ _) ?_, .inr rfl⟩
    rw [if_pos single]
    exact drives_call put
  · have put :
        exec (quotaEnv F B M) pid (.store (.multipartUpload (quotaEnv F B M).config.s3Bucket key
        ⟨sampleFile, none⟩ contentType)) .ok s = some (.ok none, stored) := by
      simp only [exec, Choice.ok, perform, execStore, content]
      rfl
    refine ⟨_, stored.store, Drives.seq (.here _ _) ?_, .inl rfl⟩
    rw [if_neg single]
    exact drives_call put

theorem verifyIntegrity_passes (env : Env) {etag : Option String} {md5 : String}
    (known : etag = none ∨ etag = some md5) : verifyIntegrity env etag md5 = .done (.ok ()) := by
  rcases known with rfl | rfl
  · rfl
  · have same : (singlePartEtag md5 && env.toLowerCase md5 != env.toLowerCase md5) = false := by
      simp
    simp only [verifyIntegrity, same]
    rfl

theorem upload_drives (stocked : Stocked n s) (ctx : ProcessingContext)
    (source : ctx.sourcePath = sampleFile) (size : ctx.sizeBytes = n) (sha : String) :
    ∃ u objects, Drives (exec (quotaEnv F B M)) pid
        (uploadFile (quotaEnv F B M) t ctx ⟨(quotaEnv F B M).md5 (List.replicate n 97), sha⟩) s
        (.done (.ok u)) { s with store := objects } ∧ u.sizeBytes = n := by
  let target := Routing.resolve (quotaEnv F B M).toLowerCase (quotaEnv F B M).config.s3Bucket [] t
  obtain ⟨etag, objects, stored, known⟩ := uploadStream_drives F B M pid stocked
    target.key (ctx.contentType.getD octetStream)
  rw [← size, ← source] at stored
  refine ⟨⟨target.bucket, target.key, etag, sha, none, ctx.sizeBytes⟩, objects, ?_, size⟩
  have draw :
      Drives (exec (quotaEnv F B M)) pid (drawEncryption (quotaEnv F B M)) s (.done (.ok none)) s :=
    .here _ _
  unfold uploadFile
  refine Drives.seq draw (Drives.seq stored ?_)
  have passes := verifyIntegrity_passes (quotaEnv F B M) known
  simp only [Option.isSome_none, Bool.false_eq_true, if_false, passes]
  exact .here _ _

theorem updated_other (id : Nat) (p : Patch) (s : State) {other : Nat} (ne : other ≠ id) :
    (updated id p s).db.transfers.find? (fun t => t.id = other) = s.db.transfers.find?
      fun t => t.id = other := by
  rw [← List.head?_filter, ← List.head?_filter]
  exact congrArg List.head? (patchRow_elsewhere ne.symm p s.db.transfers)

theorem complete_drives (F B M pid : Nat) (stocked : Stocked n s) (fresh : Fresh t) (u : Uploaded)
    (size : u.sizeBytes = n) :
    ∃ s', Drives (exec (quotaEnv F B M)) pid (complete (quotaEnv F B M) t u) s (.done (.ok ())) s' ∧
      Recorded n t s s' := by
  subst size
  let metered : State := { updated t.id u.patch s with db := { (updated t.id u.patch s).db with
    usage := Db.addUsage t.tenantId u.sizeBytes s.db.usage } }
  have stocked' : Stocked u.sizeBytes metered := ⟨stocked.idle, stocked.unsubscribed, stocked.file⟩
  have record : exec (quotaEnv F B M) pid (.db (.recordUsage t.tenantId u.sizeBytes)) .ok
      (updated t.id u.patch s) =
      some (.ok (), metered) := rfl
  have subscribed : exec (quotaEnv F B M) pid (.db (.findSubscriptions t.tenantId)) .ok metered =
      some (.ok [], metered) := by
    simp only [exec, Choice.ok, perform, Db.exec, stocked'.unsubscribed, List.filter_nil]
  have kafka : Drives (exec (quotaEnv F B M)) pid (kafkaPublish (quotaEnv F B M) t.tenantId
      (transferEvent t .transferCompleted u.event)) metered (.done (.ok ())) metered := .here _ _
  refine ⟨metered, ?_, stocked', ?_, fun id ne => updated_other t.id u.patch s ne, rfl⟩
  · refine Drives.seq (drives_call (update_answered _ stocked.idle t.id u.patch)) ?_
    refine Drives.seq (drives_call record) ?_
    unfold publishTransferEvent
    exact Drives.seq kafka (Drives.seq (drives_call subscribed) (.here _ _))
  · have usage := usageOf_addUsage (updated t.id u.patch s).db "default" t.tenantId u.sizeBytes
    rw [amount, if_pos fresh.tenant] at usage
    exact usage

/-- The rest of an admitted execution: the file is stored, and recorded at its size. -/
theorem finish_drives (F B M pid : Nat) (stocked : Stocked n s) (fresh : Fresh t) :
    ∃ s', Drives (exec (quotaEnv F B M)) pid (admitted (quotaEnv F B M) t n) s
      (.done (.ok .finished)) s' ∧
      Recorded n t s s' := by
  have enriched :
      ∃ ctx, Drives (exec (quotaEnv F B M)) pid (runPipeline [antivirusStep (quotaEnv F B M),
      contentTypeStep (quotaEnv F B M)] ⟨t, t.sourcePath, n, none⟩) s (.done (.ok ctx)) s ∧
      ctx.sourcePath = t.sourcePath ∧ ctx.sizeBytes = n := ⟨_, .here _ _, rfl, rfl⟩
  obtain ⟨ctx, pipeline, source, size⟩ := enriched
  rw [fresh.source] at source
  have read : exec (quotaEnv F B M) pid (.volume (.readFile ctx.sourcePath)) .ok s =
      some (.ok (List.replicate n 97), s) := by
    simp only [exec, Choice.ok, perform, execVolume, source, stocked.file]
  have checksums :
      Drives (exec (quotaEnv F B M)) pid (computeFileChecksums (quotaEnv F B M) ctx.sourcePath) s
      (.done (.ok ⟨(quotaEnv F B M).md5 (List.replicate n 97),
        (quotaEnv F B M).sha256 (List.replicate n 97)⟩)) s :=
    Drives.seq (drives_call read) (.here _ _)
  obtain ⟨u, objects, uploaded, usize⟩ :=
    upload_drives (t := t) (F := F) (B := B) (M := M) stocked ctx source size
    ((quotaEnv F B M).sha256 (List.replicate n 97))
  have stocked' : Stocked n { s with store := objects } :=
    ⟨stocked.idle, stocked.unsubscribed, stocked.file⟩
  obtain ⟨s', completed, recorded⟩ := complete_drives F B M pid stocked' fresh u usize
  refine ⟨s', ?_, recorded.stocked, recorded.usage, recorded.others, recorded.queues⟩
  refine Drives.seq (Drives.tryCatch (Drives.seq ?_ completed) _) (.here _ _)
  exact Drives.seq pipeline (Drives.seq checksums uploaded)

end Execution

/-! ## Batches of executions -/

/-- A usage after `k` more files of `n` bytes. -/
def grown (usage : Nat × Nat) (n k : Nat) : Nat × Nat := (usage.1 + k, usage.2 + k * n)

theorem grown_zero (usage : Nat × Nat) (n : Nat) : grown usage n 0 = usage := by
  simp [grown]

theorem grown_grown (usage : Nat × Nat) (n j k : Nat) :
    grown (grown usage n j) n k = grown usage n (j + k) := by
  simp [grown, Nat.add_mul, Nat.add_assoc]

/-- Rows and waiting jobs of transfers that can still be run. -/
structure Shelf (ids : List Nat) (s : State) : Prop where
  row : ∀ id ∈ ids, ∃ t, s.db.transfers.find? (fun t => t.id = id) = some t ∧ Fresh t
  job : ∀ id ∈ ids, ∃ job, findJob id s = some job ∧ job.state = .waiting ∧ job.data.transferId = id

/-- A thread that has passed the quota, for a transfer that is none of the others. -/
def Passed (env : Env) (n : Nat) (others : List Nat) (x : SysThread) : Prop :=
  ∃ t data, x.task = .process t.id data ∧ x.prog = admitted env t n ∧ Fresh t ∧ t.id ∉ others

section Batches
variable {F B M W n m : Nat} {s : State} {ts : List SysThread} {ids rest : List Nat}

theorem slotted_resume (W pid : Nat) (w : SysWorld) (c : Choice) :
    Slotted W w (.resume pid c) := trivial

theorem slotted_settle (W pid : Nat) (w : SysWorld) : Slotted W w (.settle pid) := trivial

/-- Rows and jobs with other numbers are where they were. -/
theorem Shelf.keep {s' : State} {f : Job → Job} {id : Nat} (h : Shelf ids s) (fresh : id ∉ ids)
    (keeps : ∀ j, (f j).id = j.id) (queues : s'.queues = (setJob f id s).queues)
    (others : ∀ r, r ≠ id → s'.db.transfers.find? (fun t => t.id = r) = s.db.transfers.find?
      fun t => t.id = r) :
    Shelf ids s' := by
  constructor
  · intro r hr
    rw [others r fun heq => fresh (heq ▸ hr)]
    exact h.row r hr
  · intro r hr
    obtain ⟨job, found, waiting⟩ := h.job r hr
    refine ⟨job, ?_, waiting⟩
    have same := findJob_other keeps (fun heq : r = id => fresh (heq ▸ hr)) s
    rw [findJob, queues]
    exact same.trans found

/-- A worker takes the next job and passes the quota. -/
theorem admit_one {id : Nat} (stocked : Stocked n s) (shelf : Shelf (id :: rest) s)
    (distinct : (id :: rest).Nodup) (positive : 0 < n) (small : n ≤ F)
    (room : Room B M n (usageOf s.db "default")) (slot : ts.countP (fun t => isWorker t.task) < W)
    (below : ∀ t ∈ ts, t.pid < m) :
    ∃ s' x, Reach (machine (quotaEnv F B M)) (Slotted W) ⟨s, ts, m⟩ ⟨s', ts ++ [x], m + 1⟩ ∧
      x.pid = m ∧ Passed (quotaEnv F B M) n rest x ∧ Stocked n s' ∧ Shelf rest s' ∧
      usageOf s'.db "default" = usageOf s.db "default" := by
  obtain ⟨fresh_id, -⟩ := List.nodup_cons.mp distinct
  obtain ⟨t, stored, fresh⟩ := shelf.row id List.mem_cons_self
  obtain ⟨job, found, waiting, target⟩ := shelf.job id List.mem_cons_self
  have number : t.id = id := by simpa using List.find?_some stored
  let taken := setJob (fun j => { j with state := .active }) id s
  have take : (machine (quotaEnv F B M)).step ⟨s, ts, m⟩ (.request (.takeJob id)) =
      some ⟨taken, ts ++ [⟨m, .process id job.data, code (quotaEnv F B M) (.process id job.data)⟩],
        m + 1⟩ := by
    simp only [Machine.step, machine, enter, takeJob, found, if_pos waiting]
    rfl
  have stocked' : Stocked n taken := ⟨stocked.idle, stocked.unsubscribed, stocked.file⟩
  have drives := admit_drives (s := taken) m id job.data stocked' fresh positive small room
      (target ▸ stored)
  refine ⟨updated t.id .markProcessing taken,
    ⟨m, .process id job.data, admitted (quotaEnv F B M) t n⟩,
    ?_, rfl, ⟨t, job.data, by rw [number], rfl, fresh, number ▸ fresh_id⟩, ?_, ?_, rfl⟩
  · refine (Reach.step .start ?_ take).trans ?_
    · exact slot
    · exact drives.reach (slotted_resume W m) ts [] (.process id job.data) (m + 1)
        fun t ht => Nat.ne_of_lt (below t ht)
  · exact ⟨stocked.idle, stocked.unsubscribed, stocked.file⟩
  · refine Shelf.keep (f := fun j => { j with state := .active })
      ⟨fun r hr => shelf.row r (List.mem_cons_of_mem _ hr),
        fun r hr => shelf.job r (List.mem_cons_of_mem _ hr)⟩
      fresh_id (fun _ => rfl) rfl fun r ne => ?_
    exact updated_other t.id .markProcessing taken (number ▸ ne)

theorem passed_mono {env : Env} {others others' : List Nat} (sub : others' ⊆ others) {x : SysThread}
    (h : Passed env n others x) : Passed env n others' x := by
  obtain ⟨t, data, task, prog, fresh, out⟩ := h
  exact ⟨t, data, task, prog, fresh, fun mem => out (sub mem)⟩

/-- All slots check the quota before any file is recorded. -/
theorem admit_all {t : List SysThread} (positive : 0 < n) (small : n ≤ F)
    (room : Room B M n (usageOf s.db "default")) (stocked : Stocked n s)
    (shelf : Shelf (ids ++ rest) s) (distinct : (ids ++ rest).Nodup)
    (slots : t.length + ids.length ≤ W) (below : ∀ x ∈ t, x.pid < m) :
    ∃ s' xs m', Reach (machine (quotaEnv F B M)) (Slotted W) ⟨s, t, m⟩ ⟨s', t ++ xs, m'⟩ ∧
      xs.length = ids.length ∧ (∀ x ∈ xs, Passed (quotaEnv F B M) n rest x) ∧ Stocked n s' ∧
      Shelf rest s' ∧
      usageOf s'.db "default" = usageOf s.db "default" := by
  induction ids generalizing s t m with
  | nil =>
    exact ⟨s, [], m, by rw [List.append_nil]; exact .start, rfl, fun x hx => (nomatch hx),
      stocked, shelf, rfl⟩
  | cons id ids ih =>
    rw [List.length_cons] at slots
    have free : t.countP (fun t => isWorker t.task) < W := by
      have := List.countP_le_length (l := t) (p := fun t => isWorker t.task)
      omega
    obtain ⟨s₁, x, path, number, passed, stocked₁, shelf₁, usage₁⟩ :=
      admit_one stocked shelf distinct positive small room free below
    have below₁ : ∀ y ∈ t ++ [x], y.pid < m + 1 := by
      intro y hy
      rcases List.mem_append.mp hy with hy | hy
      · exact Nat.lt_succ_of_lt (below y hy)
      · rw [List.mem_singleton.mp hy, number]
        exact Nat.lt_succ_self m
    obtain ⟨s₂, xs, m₂, path₂, len, all, stocked₂, shelf₂, usage₂⟩ :=
      ih (t := t ++ [x]) (usage₁ ▸ room) stocked₁
      shelf₁ distinct.of_cons (by rw [List.length_append, List.length_singleton]; omega) below₁
    rw [List.append_assoc, List.singleton_append] at path₂
    refine ⟨s₂, x :: xs, m₂, path.trans path₂, by rw [List.length_cons, List.length_cons, len], ?_,
      stocked₂, shelf₂,
      usage₂.trans usage₁⟩
    intro y hy
    rcases List.mem_cons.mp hy with rfl | hy
    · exact passed_mono (List.subset_append_right ids rest) passed
    · exact all y hy

/-- The first admitted execution runs to its end and its job is completed. -/
theorem finish_one {x : SysThread} (stocked : Stocked n s) (shelf : Shelf rest s)
    (passed : Passed (quotaEnv F B M) n rest x) :
    ∃ s', Reach (machine (quotaEnv F B M)) (Slotted W) ⟨s, x :: ts, m⟩ ⟨s', ts, m⟩ ∧
      Stocked n s' ∧ Shelf rest s' ∧
      usageOf s'.db "default" = grown (usageOf s.db "default") n 1 := by
  obtain ⟨pid, task, prog⟩ := x
  obtain ⟨t, data, rfl, rfl, fresh, out⟩ := passed
  obtain ⟨s₁, drives, recorded⟩ := finish_drives F B M pid stocked fresh
  have path := drives.reach (M := machine (quotaEnv F B M)) (slotted_resume W pid) [] ts
      (.process t.id data) m
    fun t ht => (nomatch ht)
  let ended := setJob (fun j => { j with state := .completed }) t.id s₁
  have settle : (machine (quotaEnv F B M)).step
      ⟨s₁, ⟨pid, .process t.id data, .done (.ok .finished)⟩ :: ts, m⟩
      (.settle pid) = some ⟨ended, ts, m⟩ := by
    have found : focus pid (⟨pid, .process t.id data, .done (.ok .finished)⟩ :: ts) =
        some (([] : List SysThread), ⟨pid, .process t.id data, .done (.ok .finished)⟩, ts) := by
      rw [focus, if_pos rfl]
    simp only [Machine.step, found, machine, finish, spawn, List.append_nil, List.nil_append,
      List.length_nil,
      Nat.add_zero]
    rfl
  refine ⟨ended, path.trans (.step .start (slotted_settle W pid _) settle), ?_, ?_, ?_⟩
  · exact ⟨recorded.stocked.idle, recorded.stocked.unsubscribed, recorded.stocked.file⟩
  · refine shelf.keep (f := fun j => { j with state := .completed }) out
      (fun _ => rfl) ?_ recorded.others
    simp only [ended, setJob, recorded.queues]
  · rw [grown, Nat.one_mul]
    exact recorded.usage

theorem finish_all (stocked : Stocked n s) (shelf : Shelf rest s)
    (passed : ∀ x ∈ ts, Passed (quotaEnv F B M) n rest x) :
    ∃ s', Reach (machine (quotaEnv F B M)) (Slotted W) ⟨s, ts, m⟩ ⟨s', [], m⟩ ∧
      Stocked n s' ∧ Shelf rest s' ∧
      usageOf s'.db "default" = grown (usageOf s.db "default") n ts.length := by
  induction ts generalizing s with
  | nil => exact ⟨s, .start, stocked, shelf, (grown_zero _ n).symm⟩
  | cons x ts ih =>
    obtain ⟨s₁, path₁, stocked₁, shelf₁, usage₁⟩ :=
      finish_one stocked shelf (passed x List.mem_cons_self)
    obtain ⟨s₂, path₂, stocked₂, shelf₂, usage₂⟩ :=
      ih stocked₁ shelf₁ fun y hy => passed y (List.mem_cons_of_mem _ hy)
    refine ⟨s₂, path₁.trans path₂, stocked₂, shelf₂, ?_⟩
    rw [usage₂, usage₁, grown_grown, List.length_cons, Nat.add_comm 1]

/-- A batch: at most `W` executions check the quota together, and then all record. -/
theorem batch (ids rest : List Nat) (positive : 0 < n) (small : n ≤ F)
    (room : Room B M n (usageOf s.db "default")) (stocked : Stocked n s)
    (shelf : Shelf (ids ++ rest) s) (distinct : (ids ++ rest).Nodup) (slots : ids.length ≤ W) :
    ∃ s' m', Reach (machine (quotaEnv F B M)) (Slotted W) ⟨s, [], m⟩ ⟨s', [], m'⟩ ∧ Stocked n s' ∧
    Shelf rest s' ∧
      usageOf s'.db "default" = grown (usageOf s.db "default") n ids.length := by
  obtain ⟨s₁, xs, m₁, path₁, len, passed, stocked₁, shelf₁, usage₁⟩ :=
    admit_all (t := []) (m := m) (W := W) positive small
    room stocked shelf distinct (by simpa using slots) fun t ht => (nomatch ht)
  obtain ⟨s₂, path₂, stocked₂, shelf₂, usage₂⟩ :=
    finish_all (W := W) (m := m₁) stocked₁ shelf₁ passed
  refine ⟨s₂, m₁, path₁.trans path₂, stocked₂, shelf₂, ?_⟩
  rw [usage₂, usage₁, len]

/-- Batches of one, as long as each of them finds room. -/
theorem one_by_one (positive : 0 < n) (small : n ≤ F) (slot : 0 < W)
    (room : ∀ i, i < ids.length → Room B M n (grown (usageOf s.db "default") n i))
    (stocked : Stocked n s) (shelf : Shelf (ids ++ rest) s) (distinct : (ids ++ rest).Nodup) :
    ∃ s' m', Reach (machine (quotaEnv F B M)) (Slotted W) ⟨s, [], m⟩ ⟨s', [], m'⟩ ∧ Stocked n s' ∧
    Shelf rest s' ∧
      usageOf s'.db "default" = grown (usageOf s.db "default") n ids.length := by
  induction ids generalizing s m with
  | nil => exact ⟨s, m, .start, stocked, shelf, (grown_zero _ n).symm⟩
  | cons id ids ih =>
    have first : Room B M n (usageOf s.db "default") :=
      grown_zero (usageOf s.db "default") n ▸ room 0 (Nat.succ_pos _)
    obtain ⟨s₁, m₁, path₁, stocked₁, shelf₁, usage₁⟩ := batch (W := W) (m := m) [id]
      (ids ++ rest) positive small first stocked shelf distinct slot
    have later : ∀ i, i < ids.length → Room B M n (grown (usageOf s₁.db "default") n i) := by
      intro i hi
      rw [usage₁, grown_grown, List.length_singleton, Nat.add_comm 1]
      exact room (i + 1) (Nat.succ_lt_succ hi)
    obtain ⟨s₂, m₂, path₂, stocked₂, shelf₂, usage₂⟩ := ih later stocked₁ shelf₁ distinct.of_cons
    refine ⟨s₂, m₂, path₁.trans path₂, stocked₂, shelf₂, ?_⟩
    rw [usage₂, usage₁, grown_grown, List.length_singleton, List.length_cons, Nat.add_comm 1]

end Batches

/-! ## The bound is reached -/

/-- Transfers of the sample file, accepted one after another. -/
def preparedRow (id : Nat) : FileTransfer :=
  { sampleRow with id := id, idempotencyKey := toString id }

/-- That many accepted transfers with their jobs, nothing stored yet, and a source of one byte. -/
def prepared (count : Nat) : State :=
  { sampleState with
    db := { sampleState.db with transfers := (List.range count).map preparedRow, nextId := count }
    queues := { sampleState.queues with
      jobs := (List.range count).map fun id => ⟨id, ⟨id, []⟩, 0, some 3, .waiting⟩ }
    files := [(sampleFile, .file [97])] }

theorem find_numbered {α : Type} (f : Nat → α) (number : α → Nat) (same : ∀ i, number (f i) = i)
    {i count : Nat} (below : i < count) :
    ((List.range count).map f).find? (fun x => number x = i) = some (f i) := by
  have numbers : ((List.range count).map f).map number = List.range count := by
    rw [List.map_map]
    exact (List.map_congr_left fun j _ => same j).trans (List.map_id _)
  have distinct : (((List.range count).map f).map number).Nodup := by
    rw [numbers]
    exact List.nodup_range
  have found := find_unique distinct (List.mem_map_of_mem (List.mem_range.mpr below))
  rw [same] at found
  exact found

theorem prepared_shelf (count : Nat) : Shelf (List.range count) (prepared count) := by
  constructor
  · intro id hid
    exact ⟨preparedRow id, find_numbered preparedRow (·.id) (fun _ => rfl) (List.mem_range.mp hid),
      fun h => (nomatch h), rfl, rfl⟩
  · intro id hid
    exact ⟨_, find_numbered (fun id => (⟨id, ⟨id, []⟩, 0, some 3, .waiting⟩ : Job)) (·.id)
      (fun _ => rfl)
      (List.mem_range.mp hid), rfl, rfl⟩

/-- `K` files of one byte one after another, and then `W` files of `n` bytes at once. -/
theorem schedule {F B M W K n : Nat} (slots : 1 ≤ W) (positive : 0 < n) (small : n ≤ F)
    (room : Room B M n (K, K)) :
    ∃ w, Reach (machine (quotaEnv F B M)) (Slotted W) ⟨prepared (K + W), [], 0⟩ w ∧
      usageOf w.store.db "default" = (K + W, K + W * n) := by
  have distinct : (List.range K ++ (List.range W).map (K + ·)).Nodup := by
    rw [← List.range_add]
    exact List.nodup_range
  have shelf : Shelf (List.range K ++ (List.range W).map (K + ·)) (prepared (K + W)) := by
    rw [← List.range_add]
    exact prepared_shelf (K + W)
  have first : ∀ i, i < (List.range K).length →
      Room B M 1 (grown (usageOf (prepared (K + W)).db "default") 1 i) := by
    intro i hi
    rw [List.length_range] at hi
    have bytes := room.bytes
    have objects := room.objects
    have usage : grown (usageOf (prepared (K + W)).db "default") 1 i = (i, i) := by
      simp [grown, usageOf, prepared, sampleState]
    rw [usage]
    constructor
    · simp only at bytes ⊢
      omega
    · simp only at objects ⊢
      omega
  obtain ⟨s₁, m₁, path₁, stocked₁, shelf₁, usage₁⟩ :=
    one_by_one (F := F) (m := 0) Nat.one_pos (by omega) slots first
    ⟨rfl, rfl, rfl⟩ shelf distinct
  rw [List.length_range] at usage₁
  let s₂ : State := { s₁ with files := (sampleFile, .file (List.replicate n 97)) :: s₁.files }
  have write : (machine (quotaEnv F B M)).step ⟨s₁, [], m₁⟩
      (.outside (.writeFile sampleFile (.file (List.replicate n 97)))) = some ⟨s₂, [], m₁⟩ := rfl
  have usage : usageOf s₂.db "default" = (K, K) := by
    change usageOf s₁.db "default" = (K, K)
    rw [usage₁]
    simp [grown, usageOf, prepared, sampleState]
  have stocked₂ : Stocked n s₂ := ⟨stocked₁.idle, stocked₁.unsubscribed, by simp [lookupFile, s₂]⟩
  obtain ⟨s₃, m₃, path₃, -, -, usage₃⟩ := batch (s := s₂) (W := W) (m := m₁)
    ((List.range W).map (K + ·)) [] positive small (usage ▸ room) stocked₂
      (by rw [List.append_nil]; exact ⟨shelf₁.row, shelf₁.job⟩)
    (by rw [List.append_nil]; exact distinct.of_append_right) (by simp)
  refine ⟨⟨s₃, [], m₃⟩,
    (path₁.trans (.step .start (show Slotted W _ (.outside _) from trivial) write)).trans path₃, ?_⟩
  rw [usage₃, usage, grown, List.length_map, List.length_range]

/-- With `W` worker slots a tenant that starts within its quota never has more than
`W - 1` largest files, or `W - 1` objects, above it; both overshoots occur. -/
theorem quota_overshoot (W : Nat) (slots : 1 ≤ W) :
    (∀ (env : Env) (tenantId : String) (w₀ w : SysWorld), w₀.threads = [] →
      0 < env.config.maxFileSizeBytes →
      Reach (machine env) (Slotted W) w₀ w →
      (0 < (getQuota env tenantId).maxBytes →
        (usageOf w₀.store.db tenantId).2 ≤ (getQuota env tenantId).maxBytes →
        (usageOf w.store.db tenantId).2 ≤
          (getQuota env tenantId).maxBytes + (W - 1) * env.config.maxFileSizeBytes) ∧
      (0 < (getQuota env tenantId).maxObjects →
        (usageOf w₀.store.db tenantId).1 ≤ (getQuota env tenantId).maxObjects →
        (usageOf w.store.db tenantId).1 ≤ (getQuota env tenantId).maxObjects + (W - 1))) ∧
    (∀ F B, 0 < F → F ≤ B → ∃ env w₀ w, env.config.maxFileSizeBytes = F ∧
      getQuota env "default" = ⟨B, 0⟩ ∧
      w₀.threads = [] ∧ usageOf w₀.store.db "default" = 0 ∧ Reach (machine env) (Slotted W) w₀ w ∧
      (usageOf w.store.db "default").2 = B + (W - 1) * F) ∧
    ∀ F M, 0 < F → 0 < M → ∃ env w₀ w, env.config.maxFileSizeBytes = F ∧
    getQuota env "default" = ⟨0, M⟩ ∧
      w₀.threads = [] ∧ usageOf w₀.store.db "default" = 0 ∧ Reach (machine env) (Slotted W) w₀ w ∧
      (usageOf w.store.db "default").1 = M + (W - 1) := by
  refine ⟨?_, ?_, ?_⟩
  · intro env tenantId w₀ w none sizes path
    constructor
    · intro limited start
      exact overshoot_bounded (bytesLimit_enforced sizes limited) none start path
    · intro limited start
      have bound := overshoot_bounded (objectLimit_enforced limited) none start path
      simpa [objectLimit] using bound
  · intro F B positive le
    obtain ⟨w, path, usage⟩ :=
      schedule (F := F) (B := B) (M := 0) (K := B - F) (n := F) slots positive le_rfl
      ⟨fun _ => by simp only; omega, fun h => absurd h (Nat.lt_irrefl 0)⟩
    refine ⟨quotaEnv F B 0, _, w, rfl, rfl, rfl, rfl, path, ?_⟩
    obtain ⟨k, rfl⟩ : ∃ k, W = k + 1 := ⟨W - 1, by omega⟩
    rw [usage]
    simp only [Nat.add_sub_cancel, Nat.add_mul, Nat.one_mul]
    omega
  · intro F M positive limited
    obtain ⟨w, path, usage⟩ :=
      schedule (F := F) (B := 0) (M := M) (K := M - 1) (n := 1) slots Nat.one_pos positive
      ⟨fun h => absurd h (Nat.lt_irrefl 0), fun _ => by simp only; omega⟩
    refine ⟨quotaEnv F 0 M, _, w, rfl, rfl, rfl, rfl, path, ?_⟩
    rw [usage]
    simp only
    omega

theorem quota_overshoot_two_slots :
    ∃ env w₀ w, env.config.maxFileSizeBytes = 5 ∧ getQuota env "default" = ⟨12, 0⟩ ∧
    w₀.threads = [] ∧ usageOf w₀.store.db "default" = 0 ∧ Reach (machine env) (Slotted 2) w₀ w ∧
    (usageOf w.store.db "default").2 = 17 :=
  (quota_overshoot 2 (by decide)).2.1 5 12 (by decide) (by decide)

end QuotaSchedules
