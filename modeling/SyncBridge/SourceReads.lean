import SyncBridge.Downloads

/-!
# The separate reads of one execution

An attempt reads its source four times: `stat`, the virus scan, the checksum pass and
the upload. Between two of its calls anything may happen to the state, so an execution
is replayed against any list of states, one for each call. From the log of its calls
one reads off which bytes were scanned, hashed and streamed, and what the row's
checksum says about them.
-/

namespace SourceReads

open AwaitPrograms ThreadPools ChunkTransforms Entities Database Calls Ingestion Worker Orchestrator
open Footprints Downloads

/-- An answered call and the state it was answered in. -/
structure Call where
  op : Op
  before : State
  answer : Except Err op.Ans

/-- Answer the calls of a program one after another, each in a state of its own. -/
def replay {α : Type} (env : Env) (pid : Nat) :
    List (State × Choice) → Async α → Option (List Call × Async α)
  | [], p => some ([], p)
  | _ :: _, .done _ => none
  | (s, c) :: rest, .await op k => match exec env pid op c s with
    | none => none
    | some (a, _) => match replay env pid rest (k a) with
      | none => none
      | some (log, p) => some (⟨op, s, a⟩ :: log, p)

/-- What an execution has read so far: its row, the size of `stat`, the bytes scanned and
whether they were clean, the bytes hashed, and the plaintext streamed to the object
store. The last three fields are the files as they were at these reads. -/
structure Reads where
  row : Option FileTransfer := none
  statted : Option Nat := none
  scanned : Option (Bytes × Bool) := none
  hashed : Option Bytes := none
  streamed : Option Bytes := none
  atScan : String → Option Bytes := fun _ => none
  atHash : String → Option Bytes := fun _ => none
  atUpload : String → Option Bytes := fun _ => none

def observe (r : Reads) (call : Call) : Reads :=
  match call with
  | ⟨.db (.findOne _ _), _, .ok found⟩ => { r with row := found }
  | ⟨.volume (.stat _), _, .ok stats⟩ => { r with statted := some stats.size }
  | ⟨.volume (.scan path), s, .ok result⟩ =>
    { r with scanned := (contentAt s path).map fun b => (b, result.clean), atScan := contentAt s }
  | ⟨.volume (.readFile _), s, .ok content⟩ =>
    { r with hashed := some content, atHash := contentAt s }
  | ⟨.store (.putObject _ _ body _ _), s, .ok _⟩ =>
    { r with streamed := contentAt s body.sourcePath, atUpload := contentAt s }
  | ⟨.store (.multipartUpload _ _ body _), s, .ok _⟩ =>
    { r with streamed := contentAt s body.sourcePath, atUpload := contentAt s }
  | _ => r

def reads (log : List Call) : Reads := log.foldl observe {}

/-- The checksum that a call marking a row SUCCESS writes. -/
def recordedChecksum : Op → Option String
  | .db (.update _ (.markSuccess _ _ _ sha _ _ _)) => sha
  | _ => none

/-- The scan, where it is enabled, was of the file at this path, and it was clean. -/
def Screened (env : Env) (path : String) (r : Reads) : Prop :=
  env.config.avEnabled = true →
    ∃ b, r.scanned = some (b, true) ∧ r.atScan path = some b ∧ (env.clamd b).clean = true

/-- What the reads of an attempt at a row are when the row is marked with the checksum `c`. -/
def Recorded (env : Env) (t : FileTransfer) (r : Reads) (c : String) : Prop :=
  Screened env t.sourcePath r ∧ ∃ size hashed streamed, r.statted = some size ∧
    r.hashed = some hashed ∧ r.atHash t.sourcePath = some hashed ∧
    r.streamed = some streamed ∧ r.atUpload t.sourcePath = some streamed ∧ c = env.sha256 hashed ∧
    (env.config.crypto.enabled = false → size ≤ env.config.uploadPartSizeBytes →
      singlePartEtag (env.md5 streamed) = true →
      env.toLowerCase (env.md5 streamed) = env.toLowerCase (env.md5 hashed))

/-! ## Observed executions -/

/-- The observer of the reads, which allows the mark only after the right ones. -/
def reading (env : Env) (pid : Nat) : Monitor Op Op.Ans Err Reads where
  may r op := ∀ c, recordedChecksum op = some c → ∃ t, r.row = some t ∧ Recorded env t r c
  next r op a r' := ∃ c s s', exec env pid op c s = some (a, s') ∧ r' = observe r ⟨op, s, a⟩

section Executions
variable {env : Env} {pid : Nat} {α : Type}

theorem replay_obeys {post : Reads → Except Err α → Prop} (script : List (State × Choice))
    {p p' : Async α} {log : List Call} {r : Reads} (run : replay env pid script p = some (log, p'))
    (h : Obeys (reading env pid) post r p) :
    Obeys (reading env pid) post (log.foldl observe r) p' := by
  induction script generalizing p log r with
  | nil =>
    cases run
    exact h
  | cons turn rest ih =>
    obtain ⟨s, c⟩ := turn
    cases p with
    | done out => cases run
    | await op k =>
      simp only [replay] at run
      split at run
      · cases run
      · rename_i a s' answered
        split at run
        · cases run
        · rename_i log' p'' rest_run
          cases run
          have next := ih rest_run (h.2 a (observe r ⟨op, s, a⟩) ⟨c, s, s', answered, rfl⟩)
          exact next

/-- Before its last call an execution stood at that call. -/
theorem replay_last (script : List (State × Choice)) {p p' : Async α} {log : List Call}
    {last : Call} (run : replay env pid script p = some (log ++ [last], p')) :
    ∃ script' k, replay env pid script' p = some (log, .await last.op k) := by
  induction script generalizing p log with
  | nil => simp [replay] at run
  | cons turn rest ih =>
    obtain ⟨s, c⟩ := turn
    cases p with
    | done out => cases run
    | await op k =>
      simp only [replay] at run
      split at run
      · cases run
      · rename_i a s' answered
        split at run
        · cases run
        · rename_i log' p'' rest_run
          simp only [Option.some.injEq, Prod.mk.injEq] at run
          obtain ⟨hlog, rfl⟩ := run
          cases log with
          | nil =>
            obtain ⟨rfl, rfl⟩ := List.cons.inj hlog
            exact ⟨[], k, rfl⟩
          | cons first log =>
            obtain ⟨rfl, rfl⟩ := List.cons.inj hlog
            obtain ⟨script', k', h⟩ := ih rest_run
            refine ⟨(s, c) :: script', k', ?_⟩
            simp only [replay, answered, h]

/-- The answer of one more call. -/
theorem replay_snoc (script : List (State × Choice)) {p : Async α} {log : List Call} {op : Op}
    {k : Except Err op.Ans → Async α} {s s' : State} {c : Choice} {a : Except Err op.Ans}
    (run : replay env pid script p = some (log, .await op k))
    (answered : exec env pid op c s = some (a, s')) :
    replay env pid (script ++ [(s, c)]) p = some (log ++ [⟨op, s, a⟩], k a) := by
  induction script generalizing p log with
  | nil =>
    cases run
    simp only [List.nil_append, replay, answered]
  | cons turn rest ih =>
    obtain ⟨s₁, c₁⟩ := turn
    cases p with
    | done out => cases run
    | await op₁ k₁ =>
      simp only [replay] at run
      split at run
      · cases run
      · rename_i a₁ s₁' answered₁
        split at run
        · cases run
        · rename_i log' p'' rest_run
          cases run
          simp only [List.cons_append, replay, answered₁, ih rest_run]

end Executions

/-! ## The reads of an attempt -/

/-- Calls that read neither the row nor the source and do not complete a row. -/
def Blind : Op → Prop
  | .db (.findOne _ _) => False
  | .volume _ => False
  | .store (.putObject _ _ _ _ _) => False
  | .store (.multipartUpload _ _ _ _) => False
  | .db (.update _ (.markSuccess _ _ _ _ _ _ _)) => False
  | _ => True

theorem observe_blind {call : Call} (h : Blind call.op) (r : Reads) : observe r call = r := by
  unfold observe
  split
  all_goals first | exact h.elim | rfl

theorem blind_unrecorded {op : Op} (h : Blind op) : recordedChecksum op = none := by
  unfold recordedChecksum
  split
  · exact h.elim
  · rfl

section Attempt
variable {env : Env} {pid : Nat} {r : Reads}

theorem blind_obeys {α : Type} {p : Async α} (calls : Within Blind AnyErr AnyErr p) :
    Obeys (reading env pid) (fun r' _ => r' = r) r p := by
  refine (calls.obeys (I := fun r' => r' = r) ?_ ?_ rfl).mono p fun r' _ h => h.1
  · intro r' op _ hop c records
    rw [blind_unrecorded hop] at records
    cases records
  · rintro r' op a _ rfl hop ⟨c, s, s', -, rfl⟩
    exact ⟨observe_blind hop r', fun _ _ => trivial⟩

/-- A read of the source, which completes no row. -/
theorem volume_obeys {α : Type} {op : VolumeOp} {f : op.Ans → Async α}
    {post : Reads → Except Err α → Prop}
    (answered : ∀ a s, execVolume env s op = .ok a →
      Obeys (reading env pid) post (observe r ⟨.volume op, s, .ok a⟩) (f a))
    (rejected : ∀ e s, post (observe r ⟨.volume op, s, .error e⟩) (.error e)) :
    Obeys (reading env pid) post r ((volume op).bind f) := by
  refine obeys_call (fun c h => (nomatch h)) ?_ ?_
  · rintro a _ ⟨c, s, s', hexec, rfl⟩
    refine answered a s ?_
    rcases exec_cases hexec with ⟨name, message, ha, -⟩ | done
    · cases ha
    · exact (Prod.mk.inj (Option.some.inj done)).1
  · rintro e _ ⟨c, s, s', -, rfl⟩
    exact rejected e s

theorem sourceStats_reads (t : FileTransfer) :
    Obeys (reading env pid) (fun r' out => ∀ stats, out = .ok stats →
      r' = { r with statted := some stats.size }) r (sourceStats t) := by
  unfold sourceStats
  refine Obeys.andThen (q := fun r' out => ∀ stats, out = .ok (some stats) →
    r' = { r with statted := some stats.size }) ?_ ?_ fun _ _ _ _ h => (nomatch h)
  · refine Obeys.orElse (q := fun r' out => ∀ stats, out = .ok (some stats) →
      r' = { r with statted := some stats.size }) ?_ (fun _ _ h => h) fun _ _ _ _ h => (nomatch h)
    refine volume_obeys (fun stats s _ => ?_) fun _ _ _ h => (nomatch h)
    intro stats' h
    cases h
    rfl
  · intro r' stats h
    split
    · exact fun _ h => (nomatch h)
    · rename_i stats'
      split
      · intro _ heq
        cases heq
        exact h stats' rfl
      · exact fun _ h => (nomatch h)

theorem antivirus_reads (ctx : ProcessingContext) :
    Obeys (reading env pid) (fun r' out => ∀ ctx', out = .ok ctx' →
      (r'.row = r.row ∧ r'.statted = r.statted) ∧ Screened env ctx.sourcePath r') r
        (antivirusStep env ctx) := by
  unfold antivirusStep
  split
  · refine volume_obeys (fun result s hscan => ?_) fun _ _ _ h => (by cases h)
    split
    · rename_i clean
      intro ctx' _
      refine ⟨⟨rfl, rfl⟩, fun _ => ?_⟩
      simp only [execVolume] at hscan
      split at hscan
      · rename_i content hfile
        cases hscan
        refine ⟨content, ?_, contentAt_file hfile, clean⟩
        simp only [observe, contentAt_file hfile, Option.map_some, clean]
      · cases hscan
    · exact fun _ h => (by cases h)
  · rename_i off
    exact fun _ _ => ⟨⟨rfl, rfl⟩, fun on => absurd on off⟩

theorem validation_reads (ctx : ProcessingContext) :
    Obeys (reading env pid) (fun r' out => r' = r ∧ ∀ c, out = .ok c → ctx.sizeBytes ≠ 0) r
      (validationStep env ctx) := by
  unfold validationStep
  split
  · exact ⟨rfl, fun _ h => (nomatch h)⟩
  · rename_i size
    split
    · exact ⟨rfl, fun _ h => (nomatch h)⟩
    · exact ⟨rfl, fun _ _ => size⟩

theorem quota_reads (ctx : ProcessingContext) :
    Obeys (reading env pid) (fun r' _ => r' = r) r (quotaStep env ctx) := by
  exact blind_obeys (quota_within ctx trivial)

theorem pipeline_reads (ctx : ProcessingContext) :
    Obeys (reading env pid) (fun r' out => ∀ ctx', out = .ok ctx' → Handed ctx ctx' ∧
      ctx.sizeBytes ≠ 0 ∧ (r'.row = r.row ∧ r'.statted = r.statted) ∧
      Screened env ctx.sourcePath r') r
      (runPipeline (processingSteps env) ctx) := by
  refine ((validation_reads ctx).withValue (validation_yields ctx)).andThen ?_
    fun _ _ _ _ h => (nomatch h)
  rintro r₁ c₁ ⟨⟨rfl, size⟩, h₁⟩
  refine ((quota_reads c₁).withValue (quota_yields c₁)).andThen ?_ fun _ _ _ _ h => (nomatch h)
  rintro r₂ c₂ ⟨rfl, h₂⟩
  refine ((antivirus_reads c₂).withValue (antivirus_yields c₂)).andThen ?_
    fun _ _ _ _ h => (nomatch h)
  rintro r₃ c₃ ⟨screened, h₃⟩ ctx' hout
  obtain rfl := Except.ok.inj hout
  have handed := (h₁ c₁ rfl).trans (h₂ c₂ rfl)
  obtain ⟨kept, screened⟩ := screened c₃ rfl
  exact ⟨handed.trans (h₃ c₃ rfl), size c₁ rfl, kept, handed.2.1 ▸ screened⟩

theorem checksums_reads (path : String) :
    Obeys (reading env pid) (fun r' out => ∀ c, out = .ok c → ∃ content files,
      r' = { r with hashed := some content, atHash := files } ∧ files path = some content ∧
        c = ⟨env.md5 content, env.sha256 content⟩) r (computeFileChecksums env path) := by
  refine volume_obeys (fun content s hread => ?_) fun _ _ _ h => (nomatch h)
  intro c h
  cases h
  refine ⟨content, contentAt s, rfl, ?_, rfl⟩
  simp only [execVolume] at hread
  split at hread
  · rename_i content' hfile
    cases hread
    exact contentAt_file hfile
  · cases hread

theorem drawEncryption_reads :
    Obeys (reading env pid) (fun r' out => r' = r ∧ ∀ enc, out = .ok enc →
      env.config.crypto.enabled = false → enc = none) r (drawEncryption env) := by
  refine ((blind_obeys (drawEncryption_within trivial trivial)).withValue
    drawEncryption_yields).mono _ ?_
  rintro r' out ⟨same, drawn⟩
  refine ⟨same, fun enc answered off => ?_⟩
  have := drawn enc answered
  cases enc with
  | none => rfl
  | some e => cases off.symm.trans this.1

/-- The plaintext of a completed upload, and its ETag where it is one plain part. -/
def Streamed (env : Env) (r : Reads) (body : Body) (n : Nat) (r' : Reads)
    (etag : Option String) : Prop :=
  ∃ content files, r' = { r with streamed := some content, atUpload := files } ∧
    files body.sourcePath = some content ∧
    (body.encryption = none → 0 < n → n ≤ env.config.uploadPartSizeBytes →
      etag = some (env.md5 content))

theorem read_content {s : State} {body : Body} {bytes : Bytes} (h : body.read env s = some bytes) :
    ∃ content, contentAt s body.sourcePath = some content ∧
    (body.encryption = none → bytes = content) := by
  unfold Body.read at h
  split at h
  · rename_i content hfile
    refine ⟨content, contentAt_file hfile, fun plain => ?_⟩
    simpa [Body.bytes, plain] using h.symm
  · cases h

theorem uploadStream_reads (bucket key : String) (body : Body) (n : Nat) (contentType : String) :
    Obeys (reading env pid) (fun r' out => ∀ etag, out = .ok etag → Streamed env r body n r' etag) r
      (uploadStream env bucket key body n contentType) := by
  refine Obeys.andThen (q := fun r' _ => r' = r) ?_ ?_ fun _ _ _ _ h => (by cases h)
  · split
    · rfl
    · exact blind_obeys (ensureBucket_within bucket trivial trivial)
  · rintro _ _ rfl
    split
    · refine ⟨fun c h => (by cases h), ?_⟩
      rintro out _ ⟨c, s, s', hexec, rfl⟩ etag rfl
      rcases exec_cases hexec with ⟨name, message, ha, -⟩ | done
      · cases ha
      · simp only [perform, execStore, Option.some.injEq] at done
        split at done
        · cases done
        · rename_i bytes hread
          split at done
          · obtain ⟨content, hcontent, plain⟩ := read_content hread
            have tag : some (env.md5 bytes) = etag := Except.ok.inj (Prod.mk.inj done).1
            refine ⟨content, contentAt s, by simp only [observe, hcontent], hcontent,
              fun none _ _ => ?_⟩
            rw [← tag, plain none]
          · cases done
    · rename_i multipart
      refine ⟨fun c h => (by cases h), ?_⟩
      rintro out _ ⟨c, s, s', hexec, rfl⟩ etag rfl
      rcases exec_cases hexec with ⟨name, message, ha, -⟩ | done
      · cases ha
      · simp only [perform, execStore, Option.some.injEq] at done
        split at done
        · cases done
        · rename_i bytes hread
          obtain ⟨content, hcontent, -⟩ := read_content hread
          refine ⟨content, contentAt s, by simp only [observe, hcontent], hcontent,
            fun _ positive small => ?_⟩
          exact absurd ⟨positive, small⟩ multipart

/-- The check that a returned upload has passed. -/
theorem verifyIntegrity_yields (etag : Option String) (expectedMd5 : String) :
    Yields (fun _ => ∀ e, etag = some e → singlePartEtag e = true →
      env.toLowerCase e = env.toLowerCase expectedMd5) (verifyIntegrity env etag expectedMd5) := by
  unfold verifyIntegrity
  split
  · exact fun _ h => nomatch h
  · rename_i etag
    split
    · trivial
    · rename_i passed
      rintro e ⟨⟩ single
      simpa [single] using passed

theorem prepare_reads (t : FileTransfer) :
    Obeys (reading env pid) (fun r' out => ∀ u, out = .ok u →
      r'.row = r.row ∧ Recorded env t r' u.checksumSha256) r (prepareAndUpload env t) := by
  refine (sourceStats_reads t).andThen ?_ fun _ _ _ _ h => (nomatch h)
  intro r₁ stats statted
  obtain rfl := statted stats rfl
  refine (pipeline_reads _).andThen ?_ fun _ _ _ _ h => (nomatch h)
  intro r₂ ctx screened
  obtain ⟨⟨-, hpath, hsize⟩, size, ⟨row, statted⟩, screened⟩ := screened ctx rfl
  have path : ctx.sourcePath = t.sourcePath := hpath
  refine (checksums_reads _).andThen ?_ fun _ _ _ _ h => (nomatch h)
  intro r₃ checksums hashed
  obtain ⟨content, atHash, rfl, hhash, rfl⟩ := hashed checksums rfl
  unfold uploadFile
  refine drawEncryption_reads.andThen ?_ fun _ _ _ _ h => (nomatch h)
  rintro r₄ enc ⟨rfl, plain⟩
  refine (uploadStream_reads _ _ _ _ _).andThen ?_ fun _ _ _ _ h => (nomatch h)
  intro r₅ etag streamed
  obtain ⟨bytes, atUpload, rfl, hupload, single⟩ := streamed etag rfl
  refine Obeys.andThen (q := fun r' out =>
    r' = { r₂ with
      hashed := some content, atHash := atHash, streamed := some bytes, atUpload := atUpload } ∧
    ∀ v, out = .ok v → enc = none → ∀ e, etag = some e → singlePartEtag e = true →
      env.toLowerCase e = env.toLowerCase (env.md5 content)) ?_ ?_ fun _ _ _ _ h => (nomatch h)
  · cases enc with
    | some e => exact ⟨rfl, fun _ _ none => (nomatch none)⟩
    | none =>
      refine ((blind_obeys (verifyIntegrity_within etag _)).withValue
        (verifyIntegrity_yields etag _)).mono _
        fun r' out h => ?_
      exact ⟨h.1, fun v hv _ => h.2 v hv⟩
  · rintro _ _ ⟨rfl, verified⟩ u hu
    cases hu
    refine ⟨row, screened, stats.size, content, bytes, statted, rfl, path ▸ hhash, rfl,
      path ▸ hupload, rfl, ?_⟩
    intro off small pattern
    obtain rfl := plain enc rfl off
    have positive : 0 < ctx.sizeBytes := by
      rw [hsize]
      exact Nat.pos_of_ne_zero size
    have tag : etag = some (env.md5 bytes) := single rfl positive (hsize ▸ small)
    exact verified () rfl rfl _ tag pattern

theorem runTransfer_reads (data : TransferJobData) :
    Obeys (reading env pid) (fun _ _ => True) r (runTransfer env data) := by
  have blind : ∀ {r : Reads} {α : Type} {p : Async α}, Within Blind AnyErr AnyErr p →
      Obeys (reading env pid) (fun _ _ => True) r p :=
    fun calls => (blind_obeys calls).mono _ fun _ _ _ => trivial
  have publish : ∀ t type d, Within Blind AnyErr AnyErr (publishTransferEvent env t type d) := by
    intro t type d
    refine (publish_within t type d).mono (fun op h => ?_) fun _ h => h
    unfold PublishCall at h
    split at h <;> trivial
  refine obeys_call (fun c h => (nomatch h)) ?_ fun _ _ _ => trivial
  rintro found _ ⟨c, s, s', -, rfl⟩
  split
  · trivial
  rename_i t
  split
  · trivial
  refine obeys_call (fun c h => (nomatch h)) ?_ fun _ _ _ => trivial
  rintro _ _ ⟨c, s, s', -, rfl⟩
  refine Obeys.orElse (q := fun _ _ => True) ?_ (fun _ _ _ => trivial) fun r' e _ => ?_
  · refine (prepare_reads t).andThen ?_ fun _ _ _ => trivial
    intro r' u prepared
    obtain ⟨row, recorded⟩ := prepared u rfl
    refine obeys_call ?_ ?_ fun _ _ _ => trivial
    · rintro c ⟨⟩
      exact ⟨t, row, recorded⟩
    · rintro _ _ -
      exact blind (within_bind (within_call trivial fun _ h => h) fun _ => publish _ _ _)
  · refine blind ?_
    unfold reject
    split
    · exact within_bind (within_call trivial fun _ h => h)
        fun _ => within_bind (publish _ _ _) fun _ =>
        within_call trivial fun _ h => h
    · trivial

end Attempt

/-! ## What the row says about the stored bytes -/

section Statements
variable {env : Env} {pid : Nat} {data : TransferJobData} {script : List (State × Choice)}
variable {log : List Call} {last : Call} {p : Async Unit} {c : String}

/-- The reads of an execution that has come to mark its row. -/
theorem marked_reads (run : replay env pid script (runTransfer env data) = some (log ++ [last], p))
    (marks : recordedChecksum last.op = some c) :
    ∃ t, (reads log).row = some t ∧ Recorded env t (reads log) c := by
  obtain ⟨script', k, before⟩ := replay_last script run
  have obeys := replay_obeys (r := {}) script' before (runTransfer_reads data)
  exact obeys.1 c marks

/-- The checksum of a row describes the plaintext that its execution streamed exactly when
the ETag was compared (a plain upload of one part) or the file was the same at the checksum
pass and at the upload. -/
theorem recorded_checksum_iff
    (run : replay env pid script (runTransfer env data) = some (log ++ [last], p))
    (marks : recordedChecksum last.op = some c) (digest : ∀ b, singlePartEtag (env.md5 b) = true)
    (lower : ∀ b, env.toLowerCase (env.md5 b) = env.md5 b)
    (md5Apart : ∀ b b', (reads log).hashed = some b → (reads log).streamed = some b' →
      env.md5 b = env.md5 b' → b = b')
    (sha256Apart : ∀ b b', (reads log).hashed = some b → (reads log).streamed = some b' →
      env.sha256 b = env.sha256 b' → b = b') :
    ∃ t size streamed, (reads log).row = some t ∧ (reads log).statted = some size ∧
      (reads log).streamed = some streamed ∧
      (c = env.sha256 streamed ↔
        env.config.crypto.enabled = false ∧ size ≤ env.config.uploadPartSizeBytes ∨
          (reads log).atHash t.sourcePath = (reads log).atUpload t.sourcePath) := by
  obtain ⟨t, row, -, size, hashed, streamed, statted, hhash, atHash, hstream,
    atUpload, rfl, checked⟩ :=
    marked_reads run marks
  refine ⟨t, size, streamed, row, statted, hstream, ?_⟩
  rw [atHash, atUpload]
  constructor
  · intro same
    exact .inr (congrArg some (sha256Apart hashed streamed hhash hstream same))
  · rintro (⟨off, small⟩ | same)
    · have tags := checked off small (digest streamed)
      rw [lower, lower] at tags
      rw [md5Apart hashed streamed hhash hstream tags.symm]
    · rw [Option.some.inj same]

/-- With the scan enabled, the bytes that an execution streamed are the bytes its scan
found clean exactly when the file was the same at the scan and at the upload. -/
theorem scanned_bytes_iff (av : env.config.avEnabled = true)
    (run : replay env pid script (runTransfer env data) = some (log ++ [last], p))
    (marks : recordedChecksum last.op = some c) :
    ∃ t streamed, (reads log).row = some t ∧ (reads log).streamed = some streamed ∧
      ((reads log).scanned = some (streamed, true) ↔
        (reads log).atScan t.sourcePath = (reads log).atUpload t.sourcePath) := by
  obtain ⟨t, row, screened, _, _, streamed, -, -, -, hstream, atUpload, -, -⟩ :=
    marked_reads run marks
  obtain ⟨b, scanned, atScan, -⟩ := screened av
  refine ⟨t, streamed, row, hstream, ?_⟩
  rw [scanned, atScan, atUpload]
  constructor
  · intro h
    cases h
    rfl
  · intro h
    cases h
    rfl

end Statements

/-! ## Threads of the machine -/

section Machine
variable {env : Env}

/-- A task that has not returned stands where its operation stands. -/
theorem replay_finished {α : Type} {pid : Nat} (script : List (State × Choice)) {p : Async α}
    {log : List Call} {op : Op} {k : Except Err op.Ans → Async Reply}
    (run : replay env pid script (finished p) = some (log, .await op k)) :
    ∃ k', replay env pid script p = some (log, .await op k') := by
  induction script generalizing p log with
  | nil =>
    cases p with
    | done out => cases out <;> cases run
    | await op' k' =>
      cases run
      exact ⟨k', rfl⟩
  | cons turn rest ih =>
    obtain ⟨s, c⟩ := turn
    cases p with
    | done out => cases out <;> cases run
    | await op' k' =>
      simp only [finished, Prog.bind, replay] at run ⊢
      split at run
      · cases run
      · rename_i a s' answered
        split at run
        · cases run
        · rename_i log' p'' rest_run
          cases run
          obtain ⟨k'', h⟩ := ih rest_run
          exact ⟨k'', by simp only [h]⟩

/-- Every thread of a run replays the code of its task. -/
theorem thread_replays (allowed : SysWorld → SysAct → Prop) :
    Threadwise (machine env) allowed (fun _ => True) fun _ t =>
      ∃ script log, replay env t.pid script (code env t.task) = some (log, t.prog) where
  request w q s task _ _ hT _ := ⟨trivial, hT, fun _ => ⟨[], [], rfl⟩⟩
  resume w pid c l r t op k a s _ _ hT _ found at_call answered := by
    obtain ⟨hmem, hothers⟩ := mem_of_focus found
    obtain ⟨script, log, run⟩ := hT t hmem
    rw [at_call] at run
    obtain rfl := (focus_some found).2
    exact ⟨trivial, fun t' ht => hT t' (hothers t' ht), _, _, replay_snoc script run answered⟩
  settle w pid l r t out _ _ hT found _ := by
    exact ⟨trivial, fun t' ht => hT t' ((mem_of_focus found).2 t' ht),
      fun _ task _ => ⟨[], [], rfl⟩⟩
  crash w pid l r t _ _ hT _ found := by
    exact ⟨trivial, fun t' ht => hT t' ((mem_of_focus found).2 t' ht)⟩
  outside w e s _ _ hT _ := ⟨trivial, hT⟩

/-- A worker of the running system that stands at a call is an execution of
`runTransfer` in the sense of this module. -/
theorem worker_execution {w₀ w : SysWorld} (start : w₀.threads = [])
    {allowed : SysWorld → SysAct → Prop} (num : Numbered w₀)
    (path : Reach (machine env) allowed w₀ w) {t : SysThread} (ht : t ∈ w.threads) {jobId : Nat}
    {data : TransferJobData} (task : t.task = .process jobId data) {op : Op}
    {k : Except Err op.Ans → Async Reply} (stands : t.prog = .await op k) :
    ∃ script log k', replay env t.pid script (runTransfer env data) = some (log, .await op k') := by
  have threads := (Threadwise.holds (thread_replays allowed) num trivial (by simp [start]) path).2
  obtain ⟨script, log, run⟩ := threads t ht
  rw [task, stands] at run
  obtain ⟨k', h⟩ := replay_finished script run
  exact ⟨script, log, k', h⟩

end Machine

/-! ## A file that changes between two reads -/

section Samples

/-- The sample row and its job, with the source holding these bytes. -/
def sourceHolds (content : Bytes) : State × Choice :=
  ({ sampleState with
      db := ⟨[sampleRow], [], [], [], [], 1, [], []⟩
      files := [(sampleFile, .file content)] }, .ok)

/-- An execution read off a run of `replay`. -/
theorem replay_marks (env : Env) (script : List (State × Choice))
    (data : TransferJobData) {c : String}
    {β : Type} {f : Reads → β} {v : β}
    (run : (replay env 0 script (runTransfer env data)).map (fun r =>
      (r.1.getLast?.map fun call => recordedChecksum call.op, f (reads r.1.dropLast))) =
        some (some (some c), v)) :
    ∃ log last p, replay env 0 script (runTransfer env data) = some (log ++ [last], p) ∧
      recordedChecksum last.op = some c ∧ f (reads log) = v := by
  obtain ⟨⟨log, p⟩, h, heq⟩ := Option.map_eq_some_iff.mp run
  obtain ⟨hlast, hreads⟩ := Prod.mk.inj heq
  obtain ⟨last, hl, hc⟩ := Option.map_eq_some_iff.mp hlast
  refine ⟨log.dropLast, last, p, ?_, hc, hreads⟩
  rw [List.dropLast_append_getLast? last hl]
  exact h

/-- The byte `b` is a virus, and a file is scanned. -/
def scanningEnv : Env := { secondEnv with
  clamd := fun b => if b = [98] then ⟨false, some "Eicar-Signature"⟩ else ⟨true, none⟩
  config := { sampleConfig with avEnabled := true } }

def encryptingEnv : Env := { secondEnv with config := cryptoConfig true }

theorem secondEnv_md5 (b : Bytes) : singlePartEtag (secondEnv.md5 b) = true ∧
    secondEnv.toLowerCase (secondEnv.md5 b) = secondEnv.md5 b := by
  have digests : ∀ d ∈ ["92eb5ffee6ae2fec3ad71c777531578f", "0cc175b9c0f1b6a831c399e269772661"],
      singlePartEtag d = true ∧ secondEnv.toLowerCase d = d := by decide +kernel
  apply digests
  change (if b = [98] then _ else _) ∈ _
  split
  · exact List.mem_cons_self
  · exact List.mem_cons_of_mem _ List.mem_cons_self

/-- Two digests are apart on the contents of one execution. -/
theorem apart {digest : Bytes → String} {r : Reads} {h s : Bytes} (hashed : r.hashed = some h)
    (streamed : r.streamed = some s) (differ : digest h = digest s → h = s) :
    ∀ b b', r.hashed = some b → r.streamed = some b' → digest b = digest b' → b = b' := by
  intro b b' hb hb'
  rw [hashed] at hb
  rw [streamed] at hb'
  cases hb
  cases hb'
  exact differ

/-- The file changes before the upload of an encrypted object, which nothing compares. -/
def changedAtUpload : List (State × Choice) :=
  List.replicate 8 (sourceHolds [97]) ++ List.replicate 2 (sourceHolds [98])

theorem recorded_checksum_differs : ¬ ∀ (env : Env) (data : TransferJobData)
    (script : List (State × Choice)) (log : List Call) (last : Call) (p : Async Unit) (c : String),
    replay env 0 script (runTransfer env data) = some (log ++ [last], p) →
    recordedChecksum last.op = some c → (∀ b, singlePartEtag (env.md5 b) = true) →
    (∀ b, env.toLowerCase (env.md5 b) = env.md5 b) →
    (∀ b b', (reads log).hashed = some b → (reads log).streamed = some b' →
      env.md5 b = env.md5 b' → b = b') →
    (∀ b b', (reads log).hashed = some b → (reads log).streamed = some b' →
      env.sha256 b = env.sha256 b' → b = b') →
    ∃ streamed, (reads log).streamed = some streamed ∧ c = env.sha256 streamed := by
  intro always
  obtain ⟨log, last, p, run, marks, hreads⟩ := replay_marks encryptingEnv changedAtUpload ⟨0, []⟩
    (c := "ca978112ca1bbdcafac231b39a23dc4da786eff8147c4e72b9807785afee48bb")
    (f := fun r => (r.hashed, r.streamed)) (v := (some [97], some [98])) (by decide +kernel)
  obtain ⟨hhash, hstream⟩ := Prod.mk.inj hreads
  obtain ⟨streamed, h, same⟩ := always encryptingEnv ⟨0, []⟩ changedAtUpload log last p _ run marks
    (fun b => (secondEnv_md5 b).1) (fun b => (secondEnv_md5 b).2)
    (apart hhash hstream (by decide +kernel)) (apart hhash hstream (by decide +kernel))
  rw [hstream] at h
  cases h
  exact absurd same (by decide +kernel)

theorem recorded_checksum_sample : ∃ log last p c t streamed,
    replay encryptingEnv 0 (List.replicate 10 (sourceHolds [97]))
      (runTransfer encryptingEnv ⟨0, []⟩) =
      some (log ++ [last], p) ∧ recordedChecksum last.op = some c ∧
    (reads log).row = some t ∧ (reads log).streamed = some streamed ∧
    (c = encryptingEnv.sha256 streamed ↔
      encryptingEnv.config.crypto.enabled = false ∧ 1 ≤ encryptingEnv.config.uploadPartSizeBytes ∨
        (reads log).atHash t.sourcePath = (reads log).atUpload t.sourcePath) := by
  obtain ⟨log, last, p, run, marks, hreads⟩ := replay_marks encryptingEnv
    (List.replicate 10 (sourceHolds [97])) ⟨0, []⟩
    (c := "ca978112ca1bbdcafac231b39a23dc4da786eff8147c4e72b9807785afee48bb")
    (f := fun r => (r.statted, r.hashed, r.streamed)) (v := (some 1, some [97], some [97]))
      (by decide +kernel)
  obtain ⟨hstat, hrest⟩ := Prod.mk.inj hreads
  obtain ⟨hhash, hstream⟩ := Prod.mk.inj hrest
  obtain ⟨t, size, streamed, row, statted, h, iff⟩ := recorded_checksum_iff run marks
    (fun b => (secondEnv_md5 b).1) (fun b => (secondEnv_md5 b).2) (apart hhash hstream fun _ => rfl)
    (apart hhash hstream fun _ => rfl)
  rw [hstat] at statted
  cases statted
  exact ⟨log, last, p, _, t, streamed, run, marks, row, h, iff⟩

/-- The scan sees the byte `a`; then the file is written again, with the virus. -/
def changedAfterScan : List (State × Choice) :=
  List.replicate 5 (sourceHolds [97]) ++ List.replicate 3 (sourceHolds [98])

theorem unscanned_bytes_are_stored : ¬ ∀ (env : Env) (data : TransferJobData)
    (script : List (State × Choice)) (log : List Call) (last : Call) (p : Async Unit) (c : String),
    env.config.avEnabled = true →
    replay env 0 script (runTransfer env data) = some (log ++ [last], p) →
    recordedChecksum last.op = some c → ∀ b, (reads log).streamed = some b →
    (reads log).scanned = some (b, true) := by
  intro always
  obtain ⟨log, last, p, run, marks, hreads⟩ := replay_marks scanningEnv changedAfterScan ⟨0, []⟩
    (c := "3e23e8160039594a33894f6564e1b1348bbd7a0088d42c4acb73eeaed59c009d")
    (f := fun r => (r.scanned, r.streamed)) (v := (some ([97], true), some [98]))
      (by decide +kernel)
  obtain ⟨hscan, hstream⟩ := Prod.mk.inj hreads
  have same := always scanningEnv ⟨0, []⟩ changedAfterScan log last p _ rfl run marks [98] hstream
  rw [hscan] at same
  cases same

theorem scanned_bytes_sample : ∃ log last p c t streamed,
    replay scanningEnv 0 (List.replicate 8 (sourceHolds [97])) (runTransfer scanningEnv ⟨0, []⟩) =
      some (log ++ [last], p) ∧ recordedChecksum last.op = some c ∧
    (reads log).row = some t ∧ (reads log).streamed = some streamed ∧
    ((reads log).scanned = some (streamed, true) ↔
      (reads log).atScan t.sourcePath = (reads log).atUpload t.sourcePath) := by
  obtain ⟨log, last, p, run, marks, -⟩ :=
    replay_marks scanningEnv (List.replicate 8 (sourceHolds [97])) ⟨0, []⟩
    (c := "ca978112ca1bbdcafac231b39a23dc4da786eff8147c4e72b9807785afee48bb")
    (f := fun r => r.scanned) (v := some ([97], true)) (by decide +kernel)
  obtain ⟨t, streamed, row, h, iff⟩ := scanned_bytes_iff rfl run marks
  exact ⟨log, last, p, _, t, streamed, run, marks, row, h, iff⟩

end Samples

end SourceReads
