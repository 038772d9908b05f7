import SyncBridge.Metering

/-!
# How far a quota can be overshot

`assertWithinQuota` compares the recorded usage with the limit, and the usage is recorded
only after the upload. Between the two an execution holds its file's size without any
other execution seeing it. With `W` worker slots at most `W - 1` others can hold one, so
recorded usage and held sizes together stay within the limit and `W - 1` largest files.
The second half of the module builds schedules that come that far.
-/

namespace QuotaBounds

open AwaitPrograms ThreadPools Entities Database TableInvariants Calls Ingestion Worker Management
open Orchestrator Footprints Metering

def isWorker : Task → Bool
  | .process _ _ => true
  | _ => false

/-- The worker slots in use. -/
def busy (w : SysWorld) : Nat := w.threads.countP fun t => isWorker t.task

/-- A job is taken only while one of the `W` slots is free. -/
def Slotted (W : Nat) (w : SysWorld) : SysAct → Prop
  | .request (.takeJob _) => busy w < W
  | _ => True

/-- The size an execution was told by `stat`, and the objects and bytes it was admitted
with and has not recorded. -/
structure Admission where
  size : Nat
  held : Nat × Nat

/-- The file passes the size limit and the quota of its tenant. -/
def admits (env : Env) (owner : String) (size : Nat) (row : Option TenantUsage) : Bool :=
  let usage := row.getD ⟨owner, 0, 0⟩
  !decide (0 < env.config.maxFileSizeBytes ∧ env.config.maxFileSizeBytes < size) &&
    !decide (0 < (getQuota env owner).maxBytes ∧
      (getQuota env owner).maxBytes < usage.bytesStored + size) &&
    !decide (0 < (getQuota env owner).maxObjects ∧
      (getQuota env owner).maxObjects < usage.objectCount + 1)

/-- What an answer makes of it. -/
def Admission.after (env : Env) (tenantId : String) (v : Admission) :
    (op : Op) → Except Err op.Ans → Admission
  | .volume (.stat _), .ok stats => { v with size := stats.size }
  | .db (.findUsage owner), .ok row =>
    { v with held := if admits env owner v.size row then amount tenantId owner v.size else 0 }
  | .db (.recordUsage _ _), _ => { v with held := 0 }
  | _, _ => v

/-- Only workers look at the usage, and they record what they were admitted with. -/
def admitting (env : Env) (tenantId : String) (task : Task) : Monitor Op Op.Ans Err Admission where
  may v op := match op with
    | .db (.findUsage _) => isWorker task = true
    | .db (.recordUsage owner bytes) => amount tenantId owner bytes = v.held
    | _ => True
  next v op a v' := v' = v.after env tenantId op a

/-! ## Programs -/

/-- Calls that have nothing to do with sizes and usage. -/
def Quiet : Op → Prop
  | .volume (.stat _) => False
  | .db (.findUsage _) => False
  | .db (.recordUsage _ _) => False
  | _ => True

section Programs
variable {env : Env} {tenantId : String} {task : Task} {v : Admission}

theorem quiet_after {op : Op} (h : Quiet op) (a : Except Err op.Ans) :
    v.after env tenantId op a = v := by
  unfold Admission.after
  split <;> first | exact h.elim | rfl

theorem quiet_may {op : Op} (h : Quiet op) : (admitting env tenantId task).may v op := by
  simp only [admitting]
  split <;> first | exact h.elim | trivial

theorem quiet_obeys {α : Type} {p : Async α} (calls : Within Quiet AnyErr AnyErr p) :
    Obeys (admitting env tenantId task) (fun v' _ => v' = v) v p := by
  refine (calls.obeys (I := fun v' => v' = v) ?_ ?_ rfl).mono p fun _ _ h => h.1
  · exact fun _ _ _ hop => quiet_may hop
  · rintro v' op a _ rfl hop rfl
    exact ⟨quiet_after hop a, fun _ _ => trivial⟩

theorem not_workerCall_quiet {op : Op} (h : ¬ WorkerCall op) : Quiet op := by
  unfold Quiet
  split <;> first | exact (h trivial).elim | trivial

theorem publishCall_quiet (op : Op) (h : PublishCall op) : Quiet op := by
  unfold PublishCall at h
  split at h <;> trivial

theorem sourceStats_admitting (t : FileTransfer) :
    Obeys (admitting env tenantId task) (fun v' out => ∀ stats, out = .ok stats →
      v'.size = stats.size) v
      (sourceStats t) := by
  unfold sourceStats
  refine Obeys.andThen (q := fun v' out => ∀ stats, out = .ok (some stats) → v'.size = stats.size)
    ?_ ?_ fun _ _ _ _ h => (nomatch h)
  · refine Obeys.orElse (q := fun v' out => ∀ stats, out = .ok (some stats) → v'.size = stats.size)
      ?_ (fun _ _ h => h) fun _ _ _ _ h => (nomatch h)
    refine obeys_call trivial ?_ fun _ _ _ _ h => (nomatch h)
    rintro stats _ rfl stats' h
    cases h
    rfl
  · intro v' stats h
    split
    · exact fun _ h => (nomatch h)
    · rename_i stats'
      split
      · intro _ heq
        cases heq
        exact h stats' rfl
      · exact fun _ h => (nomatch h)

/-- A file within the size limit that passes the quota is held at its size. -/
theorem quota_admitting (worker : isWorker task = true) (ctx : ProcessingContext)
    (size : v.size = ctx.sizeBytes)
    (small : ¬ (0 < env.config.maxFileSizeBytes ∧ env.config.maxFileSizeBytes < ctx.sizeBytes)) :
    Obeys (admitting env tenantId task) (fun v' out => ∀ ctx', out = .ok ctx' →
      v'.held = amount tenantId ctx.transfer.tenantId ctx.sizeBytes) v (quotaStep env ctx) := by
  refine Obeys.andThen (q := fun v' out => out = .ok () →
    v'.held = amount tenantId ctx.transfer.tenantId ctx.sizeBytes) ?_ (fun _ _ h _ _ => h rfl)
    fun _ _ _ _ h => (nomatch h)
  refine Obeys.andThen (q := fun v' out => ∀ usage, out = .ok usage → ∃ row : Option TenantUsage,
    usage = row.getD ⟨ctx.transfer.tenantId, 0, 0⟩ ∧
    v' = v.after env tenantId (.db (.findUsage ctx.transfer.tenantId)) (.ok row)) ?_ ?_
      fun _ _ _ h => (nomatch h)
  · refine obeys_call worker ?_ fun _ _ _ _ h => (nomatch h)
    rintro row _ rfl usage h
    cases h
    exact ⟨row, rfl, rfl⟩
  · intro v' usage h
    obtain ⟨row, rfl, rfl⟩ := h usage rfl
    split
    · exact fun h => (nomatch h)
    · rename_i bytes
      split
      · exact fun h => (nomatch h)
      · rename_i objects
        intro _
        have passes : admits env ctx.transfer.tenantId v.size row = true := by
          simp only [admits, size, decide_eq_false small, decide_eq_false bytes,
            decide_eq_false objects]
          rfl
        rw [Admission.after, if_pos passes, size]

theorem pipeline_admitting (worker : isWorker task = true) (ctx : ProcessingContext)
    (size : v.size = ctx.sizeBytes) :
    Obeys (admitting env tenantId task) (fun v' out => ∀ ctx', out = .ok ctx' → Handed ctx ctx' ∧
      v'.held = amount tenantId ctx.transfer.tenantId ctx.sizeBytes) v
      (runPipeline (processingSteps env) ctx) := by
  have validated :
      Obeys (admitting env tenantId task) (fun v' out => v' = v ∧ ∀ ctx', out = .ok ctx' →
      ctx' = ctx ∧ ¬ (0 < env.config.maxFileSizeBytes ∧
        env.config.maxFileSizeBytes < ctx.sizeBytes)) v
      (validationStep env ctx) := by
    unfold validationStep
    split
    · exact ⟨rfl, fun _ h => (nomatch h)⟩
    · split
      · exact ⟨rfl, fun _ h => (nomatch h)⟩
      · rename_i small
        refine ⟨rfl, fun ctx' h => ?_⟩
        cases h
        exact ⟨rfl, small⟩
  refine validated.andThen ?_ fun _ _ _ _ h => (nomatch h)
  rintro _ c₁ ⟨rfl, passed⟩
  obtain ⟨rfl, small⟩ := passed c₁ rfl
  refine ((quota_admitting worker c₁ size small).withValue (quota_yields c₁)).andThen ?_
    fun _ _ _ _ h => (nomatch h)
  rintro v₂ c₂ ⟨held, handed⟩
  refine ((quiet_obeys (antivirus_within c₂ trivial)).withValue (antivirus_yields c₂)).andThen ?_
    fun _ _ _ _ h => (nomatch h)
  rintro _ c₃ ⟨rfl, handed'⟩ ctx' h
  cases h
  exact ⟨(handed c₂ rfl).trans (handed' c₃ rfl), held c₂ rfl⟩

/-- An upload that returns is held at the size it will be metered with. -/
theorem prepare_admitting (worker : isWorker task = true) (t : FileTransfer) :
    Obeys (admitting env tenantId task)
      (fun v' out => ∀ u, out = .ok u → v'.held = amount tenantId t.tenantId u.sizeBytes) v
      (prepareAndUpload env t) := by
  refine (sourceStats_admitting t).andThen ?_ fun _ _ _ _ h => (nomatch h)
  intro v₁ stats size
  refine (pipeline_admitting worker _ (size stats rfl)).andThen ?_ fun _ _ _ _ h => (nomatch h)
  intro v₂ ctx passed
  obtain ⟨handed, held⟩ := passed ctx rfl
  have rest : Within Quiet AnyErr AnyErr ((computeFileChecksums env ctx.sourcePath).bind
      (uploadFile env t ctx)) := by
    refine within_bind (checksums_within _ trivial) fun checksums => ?_
    exact uploadFile_within t ctx checksums trivial trivial (fun _ => trivial) (fun _ => trivial)
      (fun _ _ _ _ _ => trivial) fun _ _ _ _ => trivial
  have values : Yields (fun u => u.sizeBytes = ctx.sizeBytes)
      ((computeFileChecksums env ctx.sourcePath).bind (uploadFile env t ctx)) :=
    yields_bind (yields_any _) fun _ _ => yields_bind (yields_any _) fun _ _ =>
      yields_bind (yields_any _) fun _ _ => yields_bind (yields_any _) fun _ _ => rfl
  refine ((quiet_obeys rest).withValue values).mono _ ?_
  rintro _ out ⟨rfl, same⟩ u hout
  rw [held, same u hout, handed.2.2]

theorem complete_admitting (t : FileTransfer) (u : Uploaded)
    (held : v.held = amount tenantId t.tenantId u.sizeBytes) :
    Obeys (admitting env tenantId task) (fun _ _ => True) v (complete env t u) := by
  refine obeys_call trivial ?_ fun _ _ _ => trivial
  rintro _ _ rfl
  refine obeys_call held.symm ?_ fun _ _ _ => trivial
  rintro _ _ rfl
  exact (quiet_obeys ((publish_within t _ _).mono publishCall_quiet fun _ h => h)).mono _
    fun _ _ _ => trivial

theorem reject_admitting (t : FileTransfer) (e : Err) :
    Obeys (admitting env tenantId task) (fun _ _ => True) v (reject env t e) := by
  unfold reject
  split
  · refine (quiet_obeys ?_).mono _ fun _ _ _ => trivial
    exact within_bind (within_call trivial fun _ h => h) fun _ => within_bind
      ((publish_within t _ _).mono publishCall_quiet fun _ h => h)
        fun _ => within_call trivial fun _ h => h
  · trivial

theorem code_admitting (task : Task) :
    Obeys (admitting env tenantId task) (fun _ _ => True) ⟨0, 0⟩ (code env task) := by
  by_cases worker : ∃ jobId data, task = .process jobId data
  · obtain ⟨jobId, data, rfl⟩ := worker
    refine Obeys.andThen (q := fun _ _ => True) ?_ (fun _ _ _ => trivial) fun _ _ _ => trivial
    refine obeys_call trivial ?_ fun _ _ _ => trivial
    rintro found _ rfl
    cases found with
    | none => trivial
    | some t =>
      dsimp only
      split
      · trivial
      · refine obeys_call trivial ?_ fun _ _ _ => trivial
        rintro _ _ rfl
        refine Obeys.orElse (q := fun _ _ => True) ?_ (fun _ _ _ => trivial)
          fun _ e _ => reject_admitting t e
        exact (prepare_admitting rfl t).andThen (fun _ u held =>
          complete_admitting t u (held u rfl))
          fun _ _ _ => trivial
  · have other : ∀ jobId data, task ≠ .process jobId data :=
      fun jobId data h => worker ⟨jobId, data, h⟩
    refine (quiet_obeys ?_).mono _ fun _ _ _ => trivial
    exact (code_within task).mono (fun _ h => not_workerCall_quiet (not_workerCall other h))
      fun _ h => h

end Programs

/-! ## The bound -/

/-- One of the two limits of a quota: what it counts of a usage, the limit, and the most
that one file adds. -/
structure Limit where
  part : Nat × Nat → Nat
  most : Nat
  each : Nat

def bytesLimit (env : Env) (tenantId : String) : Limit :=
  ⟨Prod.snd, (getQuota env tenantId).maxBytes, env.config.maxFileSizeBytes⟩

def objectLimit (env : Env) (tenantId : String) : Limit :=
  ⟨Prod.fst, (getQuota env tenantId).maxObjects, 1⟩

/-- An admitted file fits under the limit, and is not larger than one file may be. -/
structure Limit.Enforced (k : Limit) (env : Env) (tenantId : String) : Prop where
  zero : k.part 0 = 0
  add : ∀ x y, k.part (x + y) = k.part x + k.part y
  admitted : ∀ (db : Db) size,
    admits env tenantId size (db.usage.find? fun u => u.tenantId = tenantId) = true →
    k.part (usageOf db tenantId) + k.part (1, size) ≤ k.most ∧ k.part (1, size) ≤ k.each

section Limits
variable {env : Env} {tenantId : String}

/-- What an admission says about the usage that was read. -/
theorem admits_usage {db : Db} {size : Nat}
    (h : admits env tenantId size (db.usage.find? fun u => u.tenantId = tenantId) = true) :
    ¬ (0 < env.config.maxFileSizeBytes ∧ env.config.maxFileSizeBytes < size) ∧
    ¬ (0 < (getQuota env tenantId).maxBytes ∧
      (getQuota env tenantId).maxBytes < (usageOf db tenantId).2 + size) ∧
    ¬ (0 < (getQuota env tenantId).maxObjects ∧
      (getQuota env tenantId).maxObjects < (usageOf db tenantId).1 + 1) := by
  simp only [admits, Bool.and_eq_true, Bool.not_eq_true', decide_eq_false_iff_not] at h
  obtain ⟨⟨small, bytes⟩, objects⟩ := h
  unfold usageOf
  cases found : db.usage.find? fun u => u.tenantId = tenantId with
  | none =>
    rw [found] at bytes objects
    exact ⟨small, bytes, objects⟩
  | some u =>
    rw [found] at bytes objects
    exact ⟨small, bytes, objects⟩

theorem bytesLimit_enforced (sizes : 0 < env.config.maxFileSizeBytes)
    (limited : 0 < (getQuota env tenantId).maxBytes) :
    (bytesLimit env tenantId).Enforced env tenantId where
  zero := rfl
  add _ _ := rfl
  admitted db size h := by
    obtain ⟨small, bytes, -⟩ := admits_usage h
    simp only [bytesLimit]
    omega

theorem objectLimit_enforced (limited : 0 < (getQuota env tenantId).maxObjects) :
    (objectLimit env tenantId).Enforced env tenantId where
  zero := rfl
  add _ _ := rfl
  admitted db size h := by
    obtain ⟨-, -, objects⟩ := admits_usage h
    simp only [objectLimit]
    omega

end Limits

def heldIn (k : Limit) (xs : List (Task × Admission)) : Nat := (xs.map fun x => k.part x.2.held).sum

/-- At most `W` workers, none holds more than one file, and recorded usage and held sizes
stay within the overshoot. -/
structure Budgeted (k : Limit) (tenantId : String) (W : Nat) (s : State)
    (xs : List (Task × Admission)) : Prop where
  slots : xs.countP (fun x => isWorker x.1) ≤ W
  small : ∀ x ∈ xs, k.part x.2.held ≤ if isWorker x.1 then k.each else 0
  total : k.part (usageOf s.db tenantId) + heldIn k xs ≤ k.most + (W - 1) * k.each

section Bound
variable {k : Limit} {env : Env} {tenantId : String} {W : Nat} {s s' : State}
variable {l r : List (Task × Admission)} {task : Task} {v v' : Admission}

theorem heldIn_append (k : Limit) (xs ys : List (Task × Admission)) :
    heldIn k (xs ++ ys) = heldIn k xs + heldIn k ys := by
  simp [heldIn]

theorem heldIn_cons (k : Limit) (x : Task × Admission) (xs : List (Task × Admission)) :
    heldIn k (x :: xs) = k.part x.2.held + heldIn k xs := by
  simp [heldIn]

/-- All workers together hold at most one largest file each. -/
theorem heldIn_le {xs : List (Task × Admission)}
    (small : ∀ x ∈ xs, k.part x.2.held ≤ if isWorker x.1 then k.each else 0) :
    heldIn k xs ≤ xs.countP (fun x => isWorker x.1) * k.each := by
  induction xs with
  | nil => exact Nat.zero_le _
  | cons x xs ih =>
    have first := small x List.mem_cons_self
    have rest := ih fun y hy => small y (List.mem_cons_of_mem _ hy)
    rw [heldIn_cons, List.countP_cons]
    by_cases worker : isWorker x.1 = true
    · rw [if_pos worker] at first
      rw [if_pos worker, Nat.add_mul, Nat.one_mul]
      omega
    · rw [if_neg worker] at first
      rw [if_neg worker, Nat.add_zero]
      omega

/-- A thread takes a step that leaves usage and its own share no larger than before. -/
theorem Budgeted.keep (h : Budgeted k tenantId W s (l ++ (task, v) :: r))
    (small : k.part v'.held ≤ if isWorker task then k.each else 0)
    (le : k.part (usageOf s'.db tenantId) + k.part v'.held ≤ k.part (usageOf s.db tenantId) +
      k.part v.held) :
    Budgeted k tenantId W s' (l ++ (task, v') :: r) where
  slots := by
    have slots := h.slots
    rw [List.countP_append, List.countP_cons] at slots ⊢
    exact slots
  small x hx := by
    simp only [List.mem_append, List.mem_cons] at hx
    rcases hx with hx | rfl | hx
    · exact h.small x (by simp [hx])
    · exact small
    · exact h.small x (by simp [hx])
  total := by
    have total := h.total
    rw [heldIn_append, heldIn_cons] at total ⊢
    simp only at total ⊢
    omega

/-- A worker is admitted: the others hold at most `W - 1` files. -/
theorem Budgeted.admit (h : Budgeted k tenantId W s (l ++ (task, v) :: r))
    (worker : isWorker task = true) (same : usageOf s'.db tenantId = usageOf s.db tenantId)
    (fits : k.part (usageOf s.db tenantId) + k.part v'.held ≤ k.most)
    (small : k.part v'.held ≤ k.each) :
    Budgeted k tenantId W s' (l ++ (task, v') :: r) where
  slots := by
    have slots := h.slots
    rw [List.countP_append, List.countP_cons] at slots ⊢
    exact slots
  small x hx := by
    simp only [List.mem_append, List.mem_cons] at hx
    rcases hx with hx | rfl | hx
    · exact h.small x (by simp [hx])
    · simpa [worker] using small
    · exact h.small x (by simp [hx])
  total := by
    have others : heldIn k (l ++ r) ≤ (l ++ r).countP (fun x => isWorker x.1) * k.each := by
      refine heldIn_le fun x hx => h.small x ?_
      rcases List.mem_append.mp hx with hx | hx <;> simp [hx]
    have slots := h.slots
    rw [List.countP_append, List.countP_cons] at slots
    simp only [worker, if_true] at slots
    rw [List.countP_append, heldIn_append] at others
    have free : (l.countP (fun x => isWorker x.1) + r.countP fun x => isWorker x.1) * k.each ≤
        (W - 1) * k.each :=
      Nat.mul_le_mul_right _ (by omega)
    rw [heldIn_append, heldIn_cons, same]
    simp only
    omega

theorem Budgeted.remove (h : Budgeted k tenantId W s (l ++ (task, v) :: r))
    (same : usageOf s'.db tenantId = usageOf s.db tenantId) :
    Budgeted k tenantId W s' (l ++ r) where
  slots := by
    have slots := h.slots
    rw [List.countP_append, List.countP_cons] at slots
    rw [List.countP_append]
    omega
  small x hx := h.small x (by rcases List.mem_append.mp hx with hx | hx <;> simp [hx])
  total := by
    have total := h.total
    rw [heldIn_append, heldIn_cons] at total
    rw [heldIn_append, same]
    omega

/-- New threads hold nothing. -/
theorem Budgeted.start {xs : List (Task × Admission)} (zero : k.part 0 = 0)
    (h : Budgeted k tenantId W s xs) (same : usageOf s'.db tenantId = usageOf s.db tenantId)
    (slot : isWorker task = true → xs.countP (fun x => isWorker x.1) < W) :
    Budgeted k tenantId W s' (xs ++ [(task, ⟨0, 0⟩)]) where
  slots := by
    have slots := h.slots
    rw [List.countP_append, List.countP_singleton]
    split
    · rename_i worker
      exact slot worker
    · exact slots
  small x hx := by
    rcases List.mem_append.mp hx with hx | hx
    · exact h.small x hx
    · rw [List.mem_singleton.mp hx]
      simp [zero]
  total := by
    have total := h.total
    rw [heldIn_append, same]
    simpa [heldIn, zero] using total

theorem Budgeted.start_all {xs : List (Task × Admission)} (zero : k.part 0 = 0)
    (h : Budgeted k tenantId W s xs) (tasks : List Task)
    (idle : ∀ task ∈ tasks, isWorker task = false) :
    Budgeted k tenantId W s (xs ++ tasks.map fun task => (task, ⟨0, 0⟩)) := by
  induction tasks generalizing xs with
  | nil => simpa using h
  | cons task tasks ih =>
    have one : Budgeted k tenantId W s (xs ++ [(task, ⟨0, 0⟩)]) := by
      refine h.start zero rfl fun worker => ?_
      rw [idle task List.mem_cons_self] at worker
      cases worker
    have rest := ih one fun task' mem => idle task' (List.mem_cons_of_mem _ mem)
    simpa using rest

end Bound

section Steps
variable {k : Limit} {env : Env} {tenantId : String} {W : Nat} {s s' : State} {pid : Nat}
  {op : Op} {c : Choice}
variable {a : Except Err op.Ans}

theorem effect_usage {now : Nat} {db db' : Db} {op : DbOp} (e : Effect now pid db op db') :
    db'.usage = db.usage ∨ ∃ owner bytes, op = .recordUsage owner bytes ∧
      db'.usage = Db.addUsage owner bytes db.usage := by
  cases e with
  | metered owner bytes => exact .inr ⟨owner, bytes, rfl, rfl⟩
  | committed t isOpen =>
    obtain ⟨-, -, -, -, usage, -⟩ := applyWrites_frame db t
    exact .inl usage
  | _ => exact .inl rfl

/-- The usage of a tenant changes when it is recorded. -/
theorem exec_usage (tenantId : String) (step : exec env pid op c s = some (a, s')) :
    usageOf s'.db tenantId = usageOf s.db tenantId ∨
    ∃ owner bytes, op = .db (.recordUsage owner bytes) ∧
      usageOf s'.db tenantId = usageOf s.db tenantId + amount tenantId owner bytes := by
  rcases exec_effect_db step with heq | ⟨dbOp, rfl, e⟩
  · exact .inl (by rw [heq])
  · rcases effect_usage e with same | ⟨owner, bytes, rfl, added⟩
    · exact .inl (by rw [usageOf, same, usageOf])
    · refine .inr ⟨owner, bytes, rfl, ?_⟩
      rw [← usageOf_addUsage, usageOf, added, usageOf]

theorem exec_findUsage {owner : String} {row : Option TenantUsage}
    (step : exec env pid (.db (.findUsage owner)) c s = some (.ok row, s')) :
    row = s.db.usage.find? fun u => u.tenantId = owner := by
  rcases exec_db step with ⟨_, _, h, -⟩ | ⟨db', ran, -⟩
  · cases h
  · exact (Except.ok.inj (Prod.mk.inj (Option.some.inj ran)).1).symm

theorem resume_budgeted (enforced : k.Enforced env tenantId) {task : Task} {v : Admission}
    {l r : List (Task × Admission)} (h : Budgeted k tenantId W s (l ++ (task, v) :: r))
    (may : (admitting env tenantId task).may v op) (step : exec env pid op c s = some (a, s')) :
    Budgeted k tenantId W s' (l ++ (task, v.after env tenantId op a) :: r) := by
  have own := h.small (task, v) (by simp)
  have usage := exec_usage tenantId step
  have released : ∀ size, usageOf s'.db tenantId = usageOf s.db tenantId →
      Budgeted k tenantId W s' (l ++ (task, ⟨size, 0⟩) :: r) := by
    intro size same
    refine h.keep ?_ ?_
    · simp [enforced.zero]
    · rw [same, enforced.zero]
      omega
  have unchanged : ∀ v' : Admission, v'.held = v.held →
      usageOf s'.db tenantId = usageOf s.db tenantId →
      Budgeted k tenantId W s' (l ++ (task, v') :: r) := by
    intro v' held same
    refine h.keep ?_ ?_
    · rw [held]
      exact own
    · rw [held, same]
  by_cases reads : ∃ owner, op = .db (.findUsage owner)
  · obtain ⟨owner, rfl⟩ := reads
    have same : usageOf s'.db tenantId = usageOf s.db tenantId := by
      rcases usage with same | ⟨_, _, h, -⟩
      · exact same
      · cases h
    cases a with
    | error e => exact unchanged _ rfl same
    | ok row =>
      obtain rfl := exec_findUsage step
      simp only [Admission.after]
      by_cases passes : admits env owner v.size (s.db.usage.find?
        fun u => u.tenantId = owner) = true
      · rw [if_pos passes]
        by_cases hown : owner = tenantId
        · subst hown
          obtain ⟨fits, small⟩ := enforced.admitted s.db v.size passes
          rw [amount, if_pos rfl]
          exact h.admit may same fits small
        · rw [amount, if_neg hown]
          exact released _ same
      · rw [if_neg passes]
        exact released _ same
  by_cases records : ∃ owner bytes, op = .db (.recordUsage owner bytes)
  · obtain ⟨owner, bytes, rfl⟩ := records
    have held : amount tenantId owner bytes = v.held := may
    rcases usage with same | ⟨_, _, heq, added⟩
    · exact released _ same
    · cases heq
      refine h.keep ?_ ?_
      · simp [Admission.after, enforced.zero]
      · rw [added, enforced.add, held]
        simp [Admission.after, enforced.zero]
  · have same : usageOf s'.db tenantId = usageOf s.db tenantId := by
      rcases usage with same | ⟨owner, bytes, h, -⟩
      · exact same
      · exact absurd ⟨owner, bytes, h⟩ records
    refine unchanged _ ?_ same
    unfold Admission.after
    split
    · rfl
    · exact absurd ⟨_, rfl⟩ reads
    · exact absurd ⟨_, _, rfl⟩ records
    · rfl

theorem usage_of_db (same : s'.db = s.db) :
    usageOf s'.db tenantId = usageOf s.db tenantId := by rw [same]

theorem countP_tasks {ts : List SysThread} {xs : List (Task × Admission)}
    (h : ts.map (·.task) = xs.map (·.1)) :
    xs.countP (fun x => isWorker x.1) = ts.countP fun t => isWorker t.task := by
  have := congrArg (List.countP isWorker) h
  rw [List.countP_map, List.countP_map] at this
  exact this.symm

theorem budgeted_accounted (enforced : k.Enforced env tenantId) :
    Accounted (machine env) (Slotted W) (admitting env tenantId) ⟨0, 0⟩
      (Budgeted k tenantId W) where
  code := code_admitting
  request w q s task xs ok tasks h entered := by
    refine h.start enforced.zero (usage_of_db (enter_db entered).1) fun worker => ?_
    rw [countP_tasks tasks]
    cases q with
    | takeJob jobId => exact ok
    | _ =>
      cases entered
      cases worker
  resume pid c s op a s' task v l r h may step := ⟨_, rfl, resume_budgeted enforced h may step⟩
  settle s task v out l r h := by
    have removed : Budgeted k tenantId W (finish env task out s).1 (l ++ r) :=
      h.remove (usage_of_db (finish_db env task out s))
    refine removed.start_all enforced.zero _ fun new hnew => ?_
    obtain ⟨_, _, _, _, -, -, -, rfl⟩ := finish_tasks hnew
    rfl
  crash pid s task v l r h := h.remove rfl
  outside e s s' xs h happened :=
    ⟨h.slots, h.small, by rw [usage_of_db (outside_db happened)]; exact h.total⟩

/-- No schedule with `W` worker slots overshoots a limit by more than `W - 1` files. -/
theorem overshoot_bounded (enforced : k.Enforced env tenantId) {w₀ w : SysWorld}
    (none : w₀.threads = []) (start : k.part (usageOf w₀.store.db tenantId) ≤ k.most)
    (path : Reach (machine env) (Slotted W) w₀ w) :
    k.part (usageOf w.store.db tenantId) ≤ k.most + (W - 1) * k.each := by
  have empty : Budgeted k tenantId W w₀.store [] := by
    refine ⟨Nat.zero_le _, fun x hx => (nomatch hx), ?_⟩
    simp only [heldIn, List.map_nil, List.sum_nil]
    omega
  obtain ⟨xs, -, h⟩ := (budgeted_accounted enforced).holds none empty path
  have := h.total
  omega

end Steps

end QuotaBounds
