import SyncBridge.Footprints

/-!
# The data root as a sandbox

`resolveWithinRoot` tests a relative path for two leading dots. Read segment by
segment it accepts exactly the absolute paths whose normal form is the root or lies
below it, the first segment below the root not starting with two dots. Rows are
inserted only with such a path and no update changes it, so the worker never
touches a file outside the root. Symbolic links play no part.
-/

namespace PathSandbox

open AwaitPrograms ThreadPools Entities Database TableInvariants Calls PosixPaths Ingestion Worker
open Management Orchestrator Footprints

section Check
variable (env : Env)

/-- The segments of the configured root. -/
def rootSegments : List Path := normalSegments (fromCwd env.cwd env.config.ingestionDataRoot.toList)

/-- The first segment of a normal form below the root. -/
def firstBelow (p : List Path) : Option Path := (p.drop (rootSegments env).length).head?

/-- An absolute path whose normal form is the root or lies below it. -/
def Confined (path : String) : Prop :=
  isAbsolute path.toList = true ∧ rootSegments env <+: normalSegments path.toList

variable {env}

theorem rootSegments_plain : ∀ s ∈ rootSegments env, Plain s := normalSegments_plain _

theorem relative_root (p : List Path) (plain : ∀ s ∈ p, Plain s) :
    relative env.cwd (resolve env.cwd env.config.ingestionDataRoot.toList) ('/' :: join p) =
      relativeResolved ('/' :: join (rootSegments env)) ('/' :: join p) := by
  have root : resolve env.cwd env.config.ingestionDataRoot.toList = '/' ::
      join (rootSegments env) := rfl
  rw [relative, root, resolve_join env.cwd rootSegments_plain, resolve_join env.cwd plain]
  split
  · rename_i same
    rw [relativeResolved, if_pos same]
  · rfl

variable (env) in
/-- The two tests on the relative path, read on segments. -/
theorem relative_accepted (p : List Path) (plain : ∀ s ∈ p, Plain s) :
    (['.', '.'].isPrefixOf (relativeResolved ('/' :: join (rootSegments env)) ('/' :: join p)) ||
      isAbsolute (relativeResolved ('/' :: join (rootSegments env)) ('/' :: join p))) = false ↔
    rootSegments env <+: p ∧ ∀ s, firstBelow env p = some s → ¬ ['.', '.'] <+: s := by
  by_cases inside : rootSegments env <+: p
  · obtain ⟨below, rfl⟩ := inside
    rw [relativeResolved_below plain]
    have rest : (rootSegments env ++ below).drop (rootSegments env).length = below := List.drop_left
    simp only [firstBelow, rest, List.prefix_append, true_and, Bool.or_eq_false_iff]
    cases below with
    | nil => simp [join, isAbsolute]
    | cons s ss =>
      have plainFirst := plain s (List.mem_append_right _ List.mem_cons_self)
      rw [join_relative plainFirst, ← Bool.not_eq_true, List.isPrefixOf_iff_prefix,
        dotdot_join plainFirst]
      simp
  · have up := relativeResolved_outside rootSegments_plain plain inside
    constructor
    · intro h
      rw [Bool.or_eq_false_iff, ← Bool.not_eq_true, List.isPrefixOf_iff_prefix] at h
      exact absurd up h.1
    · exact fun h => absurd h.1 inside

theorem resolveWithinRoot_iff (candidate v : String) :
    resolveWithinRoot env candidate = some v ↔ isAbsolute candidate.toList = true ∧
      rootSegments env <+: normalSegments candidate.toList ∧
      (∀ s, firstBelow env (normalSegments candidate.toList) = some s → ¬ ['.', '.'] <+: s) ∧
      v = String.ofList ('/' :: join (normalSegments candidate.toList)) := by
  unfold resolveWithinRoot
  by_cases absolute : isAbsolute candidate.toList = true
  · have nonempty : candidate ≠ "" := by
      rintro rfl
      cases absolute
    have normal : resolve env.cwd candidate.toList =
        '/' :: join (normalSegments candidate.toList) := by rw [resolve, if_pos absolute]
    have taken : ¬ (candidate = "" ∨ isAbsolute candidate.toList = false) := by
      rintro (h | h)
      · exact nonempty h
      · rw [absolute] at h
        cases h
    rw [if_neg taken]
    dsimp only
    rw [normal, relative_root _ (normalSegments_plain _)]
    have accepted := relative_accepted env (normalSegments candidate.toList)
        (normalSegments_plain _)
    split
    · rename_i refused
      rw [refused] at accepted
      constructor
      · intro h
        cases h
      · rintro ⟨-, hin, hfirst, -⟩
        cases accepted.mpr ⟨hin, hfirst⟩
    · rename_i passed
      obtain ⟨hin, hfirst⟩ := accepted.mp (Bool.not_eq_true _ ▸ passed)
      constructor
      · exact fun h => ⟨absolute, hin, hfirst, (Option.some.inj h).symm⟩
      · rintro ⟨-, -, -, hv⟩
        rw [hv]
  · rw [if_pos (.inr (by simpa using absolute))]
    constructor
    · intro h
      cases h
    · exact fun h => absurd h.1 absolute

theorem resolved_confined {candidate v : String} (h : resolveWithinRoot env candidate = some v) :
    Confined env v := by
  obtain ⟨-, inside, -, rfl⟩ := (resolveWithinRoot_iff candidate v).mp h
  refine ⟨by rw [String.toList_ofList]; rfl, ?_⟩
  rw [String.toList_ofList, normalSegments_join (normalSegments_plain _)]
  exact inside

end Check

/-! ## Paths in rows and calls -/

/-- The path a call reads from the volume or stores in a new row. -/
def touches : Op → Option String
  | .volume (.stat path) => some path
  | .volume (.readFile path) => some path
  | .volume (.scan path) => some path
  | .store (.putObject _ _ body _ _) => some body.sourcePath
  | .store (.multipartUpload _ _ body _) => some body.sourcePath
  | .db (.insertTransfer input) => some input.sourcePath
  | _ => none

/-- What a read of a row says about its path. -/
def ReadsConfined (env : Env) : (op : Op) → op.Ans → Prop
  | .db (.findOne _ _) => fun row => ∀ t, row = some t → Confined env t.sourcePath
  | _ => fun _ => True

/-- The observer of paths: rows are read with confined paths, and only such paths
are touched. -/
def confines (env : Env) : Monitor Op Op.Ans Err Unit where
  may _ op := ∀ path, touches op = some path → Confined env path
  next _ op a _ := ∀ v, a = .ok v → ReadsConfined env op v

section Operations
variable {env : Env}

theorem confines_of_within {α : Type} {P : Op → Prop} {E : Err → Prop} {p : Async α}
    (calls : Within P AnyErr E p)
    (harmless : ∀ op, P op → ∀ path, touches op = some path → Confined env path) :
    Obeys (confines env) (fun _ _ => True) () p := by
  refine (calls.obeys (I := fun _ => True) (fun _ op _ h => harmless op h) ?_ trivial).mono p
    fun _ _ _ => trivial
  exact fun _ _ _ _ _ _ _ => ⟨trivial, fun _ _ => trivial⟩

theorem accept_confines (p : SftpgoWebhookDto) (carrier : List (String × String)) :
    Obeys (confines env) (fun _ _ => True) () (accept env p carrier) := by
  unfold accept
  split
  · trivial
  split
  · trivial
  split
  · trivial
  rename_i sourcePath resolved
  refine confines_of_within (P := fun op => ∀ path, touches op = some path → path = sourcePath)
    (E := AnyErr) ?_ fun op h path hp => h path hp ▸ resolved_confined resolved
  have any : ∀ e, AnyErr e → AnyErr e := fun _ h => h
  have plain : ∀ path : String, none = some path → path = sourcePath := fun _ h => nomatch h
  refine within_bind (within_tryCatch (F := AnyErr) ?_ fun e _ => ?_) fun record => ?_
  · refine within_bind (transaction_within any ?_ plain plain plain) fun _ => within_pure _
    refine within_bind (within_call (fun path hp => (Option.some.inj hp).symm) any) fun saved => ?_
    exact within_bind (within_call plain any) fun _ => within_pure saved
  · split
    · exact within_pure _
    · trivial
  · split <;> exact within_pure _

/-- The call touches no file but this one. -/
def Touches (path : String) (op : Op) : Prop := ∀ p, touches op = some p → p = path

/-- An attempt before `markSuccess` touches the source file of its row only. -/
theorem prepare_touches (t : FileTransfer) :
    Within (Touches t.sourcePath) AnyErr AnyErr (prepareAndUpload env t) := by
  have none : ∀ op : Op, touches op = none → Touches t.sourcePath op :=
    fun _ h _ hp => nomatch h.symm.trans hp
  have source : ∀ op : Op, touches op = some t.sourcePath → Touches t.sourcePath op :=
    fun _ h _ hp => Option.some.inj (hp.symm.trans h)
  refine within_bind (sourceStats_within t (source _ rfl)) fun stats => ?_
  refine within_bind_yields (pipeline_within _ (none _ rfl) (source _ rfl)) (pipeline_yields _)
    fun ctx handed => ?_
  have same : ctx.sourcePath = t.sourcePath := handed.2.1
  refine within_bind (checksums_within _ (source _ (congrArg some same))) fun checksums => ?_
  exact uploadFile_within t ctx checksums (none _ rfl) (none _ rfl) (fun _ => none _ rfl)
    (fun _ => none _ rfl)
    (fun _ _ _ _ _ => source _ (congrArg some same)) fun _ _ _ _ => source _ (congrArg some same)

/-- The calls of an attempt that are no part of the upload touch no file. -/
theorem finish_touches {t : FileTransfer} :
    (∀ u, Within (fun op => touches op = none) AnyErr AnyErr (complete env t u)) ∧
      ∀ e, Within (fun op => touches op = none) AnyErr AnyErr (reject env t e) := by
  have any : ∀ e, AnyErr e → AnyErr e := fun _ h => h
  have publish : ∀ type d, Within (fun op => touches op = none) AnyErr AnyErr
      (publishTransferEvent env t type d) := by
    intro type d
    refine (publish_within t type d).mono (fun op h => ?_) any
    unfold PublishCall at h
    split at h <;> trivial
  constructor
  · intro u
    exact within_bind (within_call rfl any) fun _ => within_bind (within_call rfl any)
      fun _ => publish _ _
  · intro e
    unfold reject
    split
    · exact within_bind (within_call rfl any) fun _ => within_bind (publish _ _) fun _ =>
        within_call rfl any
    · trivial

theorem runTransfer_confines (data : TransferJobData) :
    Obeys (confines env) (fun _ _ => True) () (runTransfer env data) := by
  have none : ∀ op : Op, touches op = none → ∀ path, touches op = some path → Confined env path :=
    fun op h path hp => nomatch h.symm.trans hp
  refine obeys_call (none _ rfl) (fun found s' hn => ?_) fun _ _ _ => trivial
  have read := hn found rfl
  split
  · trivial
  · rename_i transfer
    have confined : Confined env transfer.sourcePath := read transfer rfl
    split
    · trivial
    refine obeys_call (none _ rfl) (fun _ _ _ => ?_) fun _ _ _ => trivial
    refine Obeys.orElse (q := fun _ _ => True) ?_ (fun _ _ _ => trivial) fun _ e _ =>
      confines_of_within (finish_touches.2 e) none
    refine Obeys.andThen (confines_of_within (prepare_touches transfer)
      fun op h path hp => h path hp ▸ confined) (fun _ u _ => ?_) fun _ _ _ => trivial
    exact confines_of_within (finish_touches.1 u) none

theorem code_confines (task : Task) :
    Obeys (confines env) (fun _ _ => True) () (code env task) := by
  cases task with
  | accept p carrier =>
    exact (accept_confines p carrier).andThen (fun _ _ _ => trivial) fun _ _ _ => trivial
  | process jobId data =>
    exact (runTransfer_confines data).andThen (fun _ _ _ => trivial) fun _ _ _ => trivial
  | _ =>
    refine confines_of_within (code_within _) fun op call path touched => ?_
    unfold touches at touched
    split at touched <;> first | exact call.elim | cases touched

end Operations

section Runs
variable {env : Env}

/-- Every row, committed or not, has a confined path. -/
def RowsConfined (env : Env) (db : Db) : Prop := ∀ t ∈ allRows db, Confined env t.sourcePath

theorem exec_confines {pid : Nat} {op : Op} {c : Choice} {s s' : State} {a : Except Err op.Ans}
    (h : RowsConfined env s.db) (may : (confines env).may () op)
    (step : exec env pid op c s = some (a, s')) :
    RowsConfined env s'.db ∧ (confines env).next () op a () := by
  have resets : ∀ now t, Confined env t.sourcePath →
      Confined env (Patch.resetForRetry.apply now t).sourcePath := fun _ _ h => h
  constructor
  · rcases exec_effect_db step with heq | ⟨dbOp, rfl, e⟩
    · rw [heq]
      exact h
    · refine effect_all (P := fun t => Confined env t.sourcePath) e ?_ ?_ resets h
      · rintro input id startedAt rfl
        exact may input.sourcePath rfl
      · intro id p t _ _ ht
        cases p <;> exact ht
  · rintro v rfl
    unfold ReadsConfined
    split
    · rintro t rfl
      rcases exec_db step with ⟨_, _, hr, -⟩ | ⟨db', ran, -⟩
      · cases hr
      · simp only [Db.exec, Option.some.injEq, Prod.mk.injEq, Except.ok.injEq] at ran
        exact rows_all (P := fun t => Confined env t.sourcePath) resets h _ t
          (List.mem_of_find?_eq_some ran.1)
    · trivial

/-- `resolveWithinRoot` accepts exactly the absolute paths whose normal form is the root
or lies below it, its first segment below the root not starting with two dots, and
answers the normal form. So in every run each row's source path lies within the root, and
so does each path at which a thread stands to read, scan or upload a file. -/
theorem path_sandbox (env : Env) :
    (∀ candidate v, resolveWithinRoot env candidate = some v ↔
      isAbsolute candidate.toList = true ∧
      rootSegments env <+: normalSegments candidate.toList ∧
      (∀ s, firstBelow env (normalSegments candidate.toList) = some s → ¬ ['.', '.'] <+: s) ∧
      v = String.ofList ('/' :: join (normalSegments candidate.toList))) ∧
    ∀ w₀ w : SysWorld, Initial w₀ → Reach (machine env) anyStep w₀ w →
      (∀ row ∈ w.store.db.transfers, Confined env row.sourcePath) ∧
      ∀ t ∈ w.threads, ∀ op path, t.prog.head = some op → touches op = some path →
        Confined env path := by
  refine ⟨resolveWithinRoot_iff, fun w₀ w start path => ?_⟩
  have empty : RowsConfined env w₀.store.db := by
    intro t ht
    simp [allRows, buffered, start.transfers, start.openTxs] at ht
  obtain ⟨rows, threads⟩ := observed_runs (m := fun _ => confines env) (D := RowsConfined env)
    code_confines (fun task pid op c s a s' h may step => exec_confines h may step)
    (fun pid db h => dropTx_all h) start empty path
  constructor
  · exact fun row hrow => rows row (List.mem_append_left _ hrow)
  · exact fun t ht op p hop hp => may_at_head (threads t ht) hop p hp

/-- A worker stands at the read of the sample upload. -/
theorem path_sandbox_sample : ∃ w : SysWorld, Initial sampleWorld ∧
    Reach (machine sampleEnv) anyStep sampleWorld w ∧
    (∃ row ∈ w.store.db.transfers, Confined sampleEnv row.sourcePath) ∧
    ∃ t ∈ w.threads, ∃ op, t.prog.head = some op ∧ touches op = some sampleFile ∧
      Confined sampleEnv sampleFile := by
  have run : ((machine sampleEnv).steps sampleWorld
      (sampleAccepted ++ sampleRelay 1 ++ .request (.takeJob 0) :: answer 2 2)).map
        (fun w => (w.store.db.transfers.map (·.id), w.threads.map fun t => t.prog.head)) =
      some ([0], [some (.volume (.stat sampleFile))]) := by decide +kernel
  obtain ⟨w, hw, seen⟩ := Option.map_eq_some_iff.mp run
  obtain ⟨hrows, hheads⟩ := Prod.mk.inj seen
  obtain ⟨row, hrow, -⟩ := List.map_eq_singleton_iff.mp hrows
  obtain ⟨t, ht, hhead⟩ := List.map_eq_singleton_iff.mp hheads
  have path := reach_of_steps _ hw
  obtain ⟨rows, threads⟩ := (path_sandbox sampleEnv).2 sampleWorld w sample_initial path
  have hmem : row ∈ w.store.db.transfers := by rw [hrow]; exact List.mem_singleton_self row
  have htm : t ∈ w.threads := by rw [ht]; exact List.mem_singleton_self t
  exact ⟨w, sample_initial, path, ⟨row, hmem, rows row hmem⟩, t, htm, _, hhead, rfl,
    threads t htm _ _ hhead rfl⟩

end Runs

end PathSandbox
