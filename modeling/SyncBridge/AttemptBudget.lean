import SyncBridge.OutboxSafety

/-!
# The attempts of a transfer

Two counters say how often a transfer was tried: `attempts` of the row, which every
execution past `markProcessing` increments, and `attemptsMade` of each of its jobs. Only
the second one limits anything, and every job has an allowance of its own. The budget of
a transfer is what the row has counted, what running executions may still count, and
what its jobs may still run. Handing out a job raises it; nothing else does.
-/

namespace AttemptBudget

open AwaitPrograms ThreadPools Entities Database TableInvariants Calls Ingestion Worker Management
open Orchestrator Footprints

/-- How often the queue will still hand the job to a worker, if every run throws. -/
def due (j : Job) : Nat :=
  let runs := max (j.attempts.getD 0 - j.attemptsMade) 1
  match j.state with
  | .waiting => runs
  | .active => runs - 1
  | .completed => 0
  | .failed => 0

def dueFor (r : Nat) (j : Job) : Nat := if j.data.transferId = r then due j else 0

/-- The program has not passed `markProcessing`. -/
def unmarked (p : Async Reply) : Bool :=
  match p.head with
  | some (.db (.findOne _ _)) => true
  | some (.db (.update _ .markProcessing)) => true
  | _ => false

/-- The execution may still count an attempt of the row. -/
def owes (r : Nat) (t : SysThread) : Nat :=
  match t.task with
  | .process _ data => if data.transferId = r ∧ unmarked t.prog = true then 1 else 0
  | _ => 0

/-- Attempts that the jobs and the running executions of the transfer may still make. -/
def outstanding (r : Nat) (w : SysWorld) : Nat :=
  (w.threads.map (owes r)).sum + (w.store.queues.jobs.map (dueFor r)).sum

/-- The attempts the row has counted. -/
def spent (r : Nat) (db : Db) : Nat :=
  ((allRows db).filter fun t => t.id = r).foldr (fun t n => max t.attempts n) 0

/-- Runs of a job that the call adds. -/
def callGrant (r : Nat) : Op → Nat
  | .queue (.addTransfer data attempts) => dueFor r ⟨0, data, 0, attempts, .waiting⟩
  | _ => 0

/-- Runs that a step adds to those outstanding: a job is added, a job whose worker was lost
waits again, or a worker throws for a job that is no longer open. -/
def grant (r : Nat) (w : SysWorld) : SysAct → Nat
  | .resume pid _ => match focus pid w.threads with
    | none => 0
    | some (_, t, _) => match t.prog.head with
      | none => 0
      | some op => callGrant r op
  | .settle pid => match focus pid w.threads with
    | none => 0
    | some (_, t, _) => match t.task with
      | .process jobId _ => match findJob jobId w.store with
        | none => 0
        | some job =>
          if job.state = .waiting ∨ job.state = .active then 0 else dueFor r (failedRun job)
      | _ => 0
  | .outside (.stalled jobId) => match findJob jobId w.store with
    | none => 0
    | some job => if job.data.transferId = r then 1 else 0
  | _ => 0

/-- Runs are granted only within the budget. -/
def Thrifty (env : Env) (r : Nat) (w : SysWorld) (a : SysAct) : Prop :=
  grant r w a = 0 ∨
    spent r w.store.db + outstanding r w + grant r w a ≤ env.config.transferMaxAttempts

/-! ## Rows -/

section Rows
variable {r : Nat} {db db' : Db}

theorem spent_le {n : Nat} : spent r db ≤ n ↔ ∀ t ∈ allRows db, t.id = r → t.attempts ≤ n := by
  rw [spent]
  induction allRows db with
  | nil => simp
  | cons t rows ih =>
    by_cases hid : t.id = r
    · simp only [List.filter_cons, hid, decide_true, if_true, List.foldr_cons, List.mem_cons,
        forall_eq_or_imp, true_implies, ← ih]
      omega
    · simp only [List.filter_cons, hid, decide_false, Bool.false_eq_true, if_false, List.mem_cons,
        forall_eq_or_imp, false_implies, true_and, ← ih]

/-- Only `markProcessing` raises the count, and by one. -/
theorem effect_spent {now pid : Nat} {op : DbOp} (e : Effect now pid db op db') :
    spent r db' ≤ spent r db + if op = .update r .markProcessing then 1 else 0 := by
  by_cases marks : op = .update r .markProcessing
  · rw [if_pos marks]
    subst marks
    cases e with
    | unchanged => omega
    | updated id p names free =>
      obtain ⟨rfl, rfl⟩ := Prod.mk.inj (Option.some.inj names)
      rw [spent_le]
      intro t ht hid
      have old := spent_le.mp (Nat.le_refl (spent r db))
      rcases List.mem_append.mp ht with ht | ht
      · rcases mem_patchRow ht with ht | ⟨t₀, ht₀, hid₀, rfl⟩
        · have := old t (List.mem_append_left _ ht) hid
          omega
        · have := old t₀ (List.mem_append_left _ ht₀) hid₀
          simpa [Patch.apply] using this
      · have := old t (List.mem_append_right _ ht) hid
        omega
  · rw [if_neg marks, Nat.add_zero, spent_le]
    refine effect_all (P := fun t => t.id = r → t.attempts ≤ spent r db) e ?_ ?_ ?_ ?_
    · intro input id startedAt _ _
      exact Nat.zero_le _
    · intro id p t names hid ht heq
      simp only [Patch.apply_id] at heq
      cases p with
      | markProcessing =>
        refine absurd ?_ marks
        unfold poolUpdate at names
        split at names
        · cases names
          rw [← hid, heq]
        · cases names
        · cases names
      | markSuccess bucket key etag sha encrypted wrappedDek bytes => exact ht heq
      | markFailed message => exact ht heq
      | resetForRetry => exact Nat.zero_le _
    · intro now t ht _
      exact Nat.zero_le _
    · exact spent_le.mp (Nat.le_refl _)

end Rows

/-! ## Jobs -/

/-- Jobs are numbered in the order in which they were added. -/
def Listed (s : State) : Prop := s.queues.jobs.map (·.id) = List.range s.queues.jobs.length

section Jobs
variable {s s' : State} {jobs : List Job} {f : Job → Job} {jobId : Nat} {job : Job}

/-- Replacing one job changes a sum over the jobs by that job's part. -/
theorem sum_setJob (g : Job → Nat) (distinct : (jobs.map (·.id)).Nodup)
    (found : jobs.find? (fun j => j.id = jobId) = some job) :
    ((jobs.map fun j => if j.id = jobId then f j else j).map g).sum + g job =
      (jobs.map g).sum + g (f job) := by
  induction jobs with
  | nil => cases found
  | cons j jobs ih =>
    obtain ⟨fresh, distinct⟩ := List.nodup_cons.mp distinct
    by_cases hid : j.id = jobId
    · have others : (jobs.map fun j => if j.id = jobId then f j else j) = jobs := by
        refine (List.map_congr_left fun x hx => if_neg fun heq => fresh ?_).trans (List.map_id jobs)
        exact List.mem_map.mpr ⟨x, hx, heq.trans hid.symm⟩
      simp only [List.find?_cons, hid, decide_true, Option.some.injEq] at found
      subst found
      simp only [List.map_cons, hid, if_true, others, List.sum_cons]
      omega
    · simp only [List.find?_cons, hid, decide_false] at found
      have := ih distinct found
      simp only [List.map_cons, hid, if_false, List.sum_cons]
      omega

theorem sum_setJob_le (g : Job → Nat) (le : ∀ j, g (f j) ≤ g j) :
    ((jobs.map fun j => if j.id = jobId then f j else j).map g).sum ≤ (jobs.map g).sum := by
  induction jobs with
  | nil => exact Nat.le_refl _
  | cons j jobs ih =>
    simp only [List.map_cons, List.sum_cons]
    refine Nat.add_le_add ?_ ih
    split
    · exact le j
    · exact Nat.le_refl _

theorem Listed.distinct (h : Listed s) : (s.queues.jobs.map (·.id)).Nodup := by
  rw [h]
  exact List.nodup_range

theorem listed_setJob (h : Listed s) (keeps : ∀ j, (f j).id = j.id) :
    Listed (setJob f jobId s) := by
  have ids : (fun j : Job => (if j.id = jobId then f j else j).id) = fun j => j.id := by
    funext j
    split
    · exact keeps j
    · rfl
  unfold Listed setJob
  rw [List.map_map, List.length_map]
  exact (congrArg (List.map · s.queues.jobs) ids).trans h

theorem exec_listed {env : Env} {pid : Nat} {op : Op} {c : Choice} {a : Except Err op.Ans}
    (h : Listed s) (step : exec env pid op c s = some (a, s')) : Listed s' := by
  unfold Listed
  rcases exec_queues step with heq | ⟨q, -, heq⟩
  · rw [heq]
    exact h
  · rw [heq]
    cases q with
    | addTransfer data attempts =>
      simp only [Queues.exec, List.map_append, List.length_append, List.map_cons, List.map_nil,
        List.length_cons, List.length_nil, List.range_succ]
      exact congrArg (· ++ [s.queues.jobs.length]) h
    | _ => exact h

theorem enter_listed {q : Request} {task : Task} (h : Listed s)
    (entered : enter q s = some (s', task)) :
    Listed s' := by
  rcases enter_cases entered with ⟨rfl, -, -⟩ | ⟨_, _, -, -, -, rfl, -⟩
  · exact h
  · exact listed_setJob h fun _ => rfl

theorem finish_listed (env : Env) (task : Task) (out : Except Err Reply) (h : Listed s) :
    Listed (finish env task out s).1 := by
  rcases finish_cases env task out s with same | ⟨_, _, _, -, same⟩ | ⟨f, jobId, keeps, same⟩
  · rw [same]
    exact h
  · rw [same]
    exact h
  · rw [same]
    exact listed_setJob h fun j => (keeps j).1

theorem outside_listed {e : Event} (h : Listed s) (happened : outside e s = some s') :
    Listed s' := by
  rcases outside_cases happened with ⟨_, _, rfl⟩ | ⟨_, _, -, -, -, rfl⟩
  · exact h
  · exact listed_setJob h fun _ => rfl

end Jobs

/-! ## Executions -/

/-- Calls of an execution that has passed `markProcessing`. -/
def AfterMark : Op → Prop
  | .db (.findOne _ _) => False
  | .db (.update _ .markProcessing) => False
  | op => ProcessCall op

def Marked (p : Async Reply) : Prop := Within AfterMark AnyErr AnyErr p

/-- The stages of an execution: it reads its row, marks it, and has marked it. Other tasks
keep to their own calls. -/
def Staged (env : Env) (t : SysThread) : Prop :=
  match t.task with
  | .process _ data => t.prog = code env t.task ∨
      (∃ k, t.prog = .await (.db (.update data.transferId .markProcessing)) k ∧ ∀ a, Marked (k a)) ∨
      Marked t.prog
  | task => Within (CallOf task) AnyErr AnyErr t.prog

section Stages
variable {env : Env} {r : Nat}

theorem marked_head {p : Async Reply} (h : Marked p) : unmarked p = false := by
  cases p with
  | done out => rfl
  | await op k =>
    have call := h.1
    unfold AfterMark at call
    split at call
    · exact call.elim
    · exact call.elim
    · rename_i notRead notMark
      unfold unmarked
      split
      · rename_i heq
        cases heq
        exact absurd rfl (notRead _ _)
      · rename_i heq
        cases heq
        exact absurd rfl (notMark _)
      · rfl

theorem afterMark_prepare {op : Op} (h : PrepareCall op) : AfterMark op := by
  unfold PrepareCall at h
  split at h <;> trivial

theorem afterMark_publish {op : Op} (h : PublishCall op) : AfterMark op := by
  unfold PublishCall at h
  split at h <;> trivial

/-- What an attempt does once the row is marked. -/
theorem attempt_marked (t : FileTransfer) : Within AfterMark AnyErr AnyErr
    (Prog.tryCatch ((prepareAndUpload env t).bind fun u => complete env t u) (reject env t)) := by
  have publish : ∀ type d, Within AfterMark AnyErr AnyErr (publishTransferEvent env t type d) :=
    fun type d => (publish_within t type d).mono (fun _ => afterMark_publish) fun _ h => h
  refine within_tryCatch (F := AnyErr) ?_ fun e _ => ?_
  · refine within_bind ((prepare_within t).mono (fun _ => afterMark_prepare) fun _ h => h)
      fun u => ?_
    exact within_bind (within_call trivial fun _ h => h) fun _ =>
      within_bind (within_call trivial fun _ h => h) fun _ => publish _ _
  · unfold reject
    split
    · exact within_bind (within_call trivial fun _ h => h)
        fun _ => within_bind (publish _ _) fun _ =>
        within_call trivial fun _ h => h
    · trivial

/-- The answer to the first read: the execution ends or stands before its mark. -/
theorem staged_read {jobId : Nat} {data : TransferJobData} {op : Op}
    {k : Except Err op.Ans → Async Reply} (code_eq : code env (.process jobId data) = .await op k)
    {a : Except Err op.Ans} (sound : Sound op a) :
    (∃ k', k a = .await (.db (.update data.transferId .markProcessing)) k' ∧ ∀ b, Marked (k' b)) ∨
      Marked (k a) := by
  cases code_eq
  cases a with
  | error e => exact .inr trivial
  | ok found =>
    cases found with
    | none => exact .inr trivial
    | some t =>
      have hid : t.id = data.transferId := sound.answered _ rfl t rfl
      by_cases success : t.status = .success
      · refine .inr ?_
        simp only [Prog.bind, if_pos success]
        trivial
      · refine .inl ?_
        simp only [Prog.bind, if_neg success]
        rw [← hid]
        refine ⟨_, rfl, fun b => ?_⟩
        cases b with
        | error e => trivial
        | ok _ => exact within_bind (attempt_marked t) fun _ => trivial

theorem staged_new (pid : Nat) (task : Task) : Staged env ⟨pid, task, code env task⟩ := by
  cases task with
  | process jobId data => exact .inl rfl
  | _ => exact (code_within _ : Within _ AnyErr AnyErr (code env _))

theorem staged_step {t : SysThread} {op : Op} {k : Except Err op.Ans → Async Reply}
    {a : Except Err op.Ans} (h : Staged env t) (at_call : t.prog = .await op k)
    (sound : Sound op a) :
    Staged env { t with prog := k a } := by
  obtain ⟨pid, task, prog⟩ := t
  obtain rfl : prog = .await op k := at_call
  cases task with
  | process jobId data =>
    rcases h with start | ⟨k', mark, next⟩ | marked
    · exact .inr (staged_read start.symm sound)
    · cases mark
      exact .inr (.inr (next a))
    · exact .inr (.inr (marked.2 a fun _ _ => trivial))
  | _ => exact h.2 a fun _ _ => trivial

end Stages

/-! ## One step -/

section Steps
variable {env : Env} {r : Nat}

theorem owes_other {t : SysThread} (h : ∀ jobId data, t.task ≠ .process jobId data) :
    owes r t = 0 := by
  unfold owes
  split
  · rename_i jobId data heq
    exact absurd heq (h jobId data)
  · rfl

theorem owes_process (r pid jobId : Nat) (data : TransferJobData) (p : Async Reply) :
    owes r ⟨pid, .process jobId data, p⟩ = if data.transferId = r ∧
    unmarked p = true then 1 else 0 := rfl

theorem owes_le (t : SysThread) : owes r t ≤ 1 := by
  unfold owes
  split
  · split <;> omega
  · omega

theorem owes_marked {t : SysThread} (h : unmarked t.prog = false) : owes r t = 0 := by
  unfold owes
  split
  · simp [h]
  · rfl

/-- A call adds at most what it grants to the jobs. -/
theorem exec_due {pid : Nat} {op : Op} {c : Choice} {s s' : State} {a : Except Err op.Ans}
    (step : exec env pid op c s = some (a, s')) :
    (s'.queues.jobs.map (dueFor r)).sum ≤ (s.queues.jobs.map (dueFor r)).sum + callGrant r op := by
  rcases exec_queues step with heq | ⟨q, rfl, heq⟩
  · rw [heq]
    omega
  · rw [heq]
    cases q with
    | addTransfer data attempts =>
      simp only [Queues.exec, List.map_append, List.map_cons, List.map_nil, List.sum_append,
        List.sum_cons, List.sum_nil, callGrant]
      exact Nat.le_refl _
    | _ => exact Nat.le_add_right _ _

theorem exec_spent {pid : Nat} {op : Op} {c : Choice} {s s' : State} {a : Except Err op.Ans}
    (step : exec env pid op c s = some (a, s')) :
    spent r s'.db ≤ spent r s.db + if op = .db (.update r .markProcessing) then 1 else 0 := by
  rcases exec_effect_db step with heq | ⟨dbOp, rfl, e⟩
  · rw [heq]
    omega
  · have := effect_spent (r := r) e
    by_cases marks : dbOp = .update r .markProcessing
    · rwa [if_pos (by rw [marks]), ← if_pos (t := 1) (e := 0) marks]
    · rwa [if_neg (fun h => marks (Op.db.inj h)), ← if_neg (t := 1) (e := 0) marks]

theorem callOf_unmarking {task : Task} (h : ∀ jobId data, task ≠ .process jobId data) {op : Op}
    (call : CallOf task op) : op ≠ .db (.update r .markProcessing) := by
  rintro rfl
  cases task with
  | process jobId data => exact h jobId data rfl
  | _ => exact call

/-- The step of one thread: what the row counts and what the execution may still count. -/
theorem resume_spent {t : SysThread} {op : Op} {k : Except Err op.Ans → Async Reply} {pid : Nat}
    {c : Choice} {s s' : State} {a : Except Err op.Ans} (staged : Staged env t)
    (at_call : t.prog = .await op k) (step : exec env pid op c s = some (a, s')) :
    spent r s'.db + owes r { t with prog := k a } ≤ spent r s.db + owes r t := by
  have counted := exec_spent (r := r) step
  have next := staged_step staged at_call (exec_sound step)
  obtain ⟨n, task, prog⟩ := t
  obtain rfl : prog = .await op k := at_call
  by_cases process : ∃ jobId data, task = .process jobId data
  · obtain ⟨jobId, data, rfl⟩ := process
    rcases staged with start | ⟨k', mark, marked⟩ | marked
    · cases start
      rw [if_neg (fun h => nomatch h)] at counted
      by_cases own : data.transferId = r
      · have before : owes r ⟨n, .process jobId data, code env (.process jobId data)⟩ = 1 :=
          if_pos ⟨own, rfl⟩
        exact Nat.add_le_add counted ((owes_le _).trans (Nat.le_of_eq before.symm))
      · rw [owes_process, if_neg fun h => own h.1]
        exact counted.trans (Nat.le_add_right _ _)
    · cases mark
      rw [owes_marked (marked_head (marked a)), owes_process]
      by_cases own : data.transferId = r
      · rw [if_pos (by rw [own])] at counted
        rw [if_pos ⟨own, rfl⟩]
        exact counted
      · rw [if_neg (fun h => own (by cases h; rfl))] at counted
        rw [if_neg fun h => own h.1]
        exact counted
    · have unmarking : op ≠ .db (.update r .markProcessing) := by
        rintro rfl
        exact marked.1
      have rest : Marked (k a) := marked.2 a fun _ _ => trivial
      rw [if_neg unmarking] at counted
      rw [owes_marked (marked_head rest)]
      exact counted.trans (Nat.le_add_right _ _)
  · have other : ∀ jobId data, task ≠ .process jobId data :=
      fun jobId data h => process ⟨jobId, data, h⟩
    have call : CallOf task op := by
      cases task with
      | process jobId data => exact absurd rfl (other jobId data)
      | _ => exact staged.1
    rw [if_neg (callOf_unmarking other call)] at counted
    rw [owes_other other, owes_other other]
    exact counted

/-- A throwing run of a job that is still open leaves no more runs than before. -/
theorem due_failedRun {j : Job} (h : j.state = .waiting ∨ j.state = .active) :
    due (failedRun j) ≤ due j := by
  by_cases more : j.attemptsMade + 1 < j.attempts.getD 0
  · have again : due (failedRun j) = max (j.attempts.getD 0 - (j.attemptsMade + 1)) 1 := by
      simp [due, failedRun, more]
    rw [again]
    rcases h with h | h
    · simp only [due, h]
      omega
    · simp only [due, h]
      omega
  · have closed : due (failedRun j) = 0 := by simp [due, failedRun, more]
    omega

theorem sum_threads (r : Nat) (l ts : List SysThread) (t : SysThread) :
    ((l ++ t :: ts).map (owes r)).sum = ((l ++ ts).map (owes r)).sum + owes r t := by
  simp only [List.map_append, List.map_cons, List.sum_append, List.sum_cons]
  omega

theorem dueFor_le {r : Nat} {j j' : Job} (data : j'.data = j.data) (h : due j' ≤ due j) :
    dueFor r j' ≤ dueFor r j := by
  unfold dueFor
  rw [data]
  split
  · exact h
  · exact Nat.le_refl 0

theorem spent_dropTx (r pid : Nat) (db : Db) : spent r (db.dropTx pid) ≤ spent r db := by
  rw [spent_le]
  exact dropTx_all (spent_le.mp (Nat.le_refl _))

/-- The end of a task changes the jobs by at most what it grants. -/
theorem finish_due (env : Env) (out : Except Err Reply) {w : SysWorld} {pid : Nat}
    {l ts : List SysThread} {t : SysThread} (listed : Listed w.store)
    (found : focus pid w.threads = some (l, t, ts)) :
    ((finish env t.task out w.store).1.queues.jobs.map (dueFor r)).sum ≤
      (w.store.queues.jobs.map (dueFor r)).sum + grant r w (.settle pid) := by
  simp only [grant, found]
  cases t.task with
  | process jobId data =>
    cases out with
    | ok reply =>
      refine Nat.le_trans ?_ (Nat.le_add_right _ _)
      refine sum_setJob_le _ fun j => dueFor_le rfl ?_
      exact Nat.zero_le _
    | error e =>
      simp only [finish]
      cases hfind : findJob jobId w.store with
      | none => exact Nat.le_add_right _ _
      | some job =>
        have sum := sum_setJob (f := failedRun) (dueFor r) listed.distinct hfind
        by_cases isOpen : job.state = .waiting ∨ job.state = .active
        · have : dueFor r (failedRun job) ≤ dueFor r job := dueFor_le rfl (due_failedRun isOpen)
          simp only [if_pos isOpen, setJob]
          omega
        · simp only [if_neg isOpen, setJob]
          omega
  | accept p carrier => exact Nat.le_add_right _ _
  | _ => exact Nat.le_add_right _ _

/-- A job that is handed out moves one run from the queue to its execution. -/
theorem enter_due (env : Env) {q : Request} {s s' : State} {task : Task} (pid : Nat)
    (listed : Listed s) (entered : enter q s = some (s', task)) :
    owes r ⟨pid, task, code env task⟩ + (s'.queues.jobs.map (dueFor r)).sum ≤
      (s.queues.jobs.map (dueFor r)).sum := by
  rcases enter_cases entered with ⟨rfl, idle, -⟩ | ⟨jobId, job, -, hfind, waiting, rfl, rfl⟩
  · rw [owes_other (t := ⟨pid, task, code env task⟩) idle, Nat.zero_add]
  · have sum := sum_setJob (f := fun j => { j with state := .active })
        (dueFor r) listed.distinct hfind
    have run : owes r ⟨pid, .process jobId job.data, code env (.process jobId job.data)⟩ +
        dueFor r { job with state := .active } ≤ dueFor r job := by
      rw [owes_process]
      by_cases own : job.data.transferId = r
      · rw [if_pos ⟨own, rfl⟩]
        simp only [dueFor, own, if_true, due, waiting]
        omega
      · rw [if_neg fun h => own h.1]
        simp only [dueFor, own, if_false]
        omega
    simp only [setJob]
    omega

/-- Handlers of failed jobs count no attempt. -/
theorem spawned_owes (env : Env) (n : Nat) (task : Task) (out : Except Err Reply) (s : State) :
    ((spawn (code env) n (finish env task out s).2).map (owes r)).sum = 0 := by
  unfold finish
  split
  · rfl
  · rfl
  · split <;> rfl
  · rfl

theorem outside_due {w : SysWorld} {e : Event} {s : State} (listed : Listed w.store)
    (happened : outside e w.store = some s) :
    (s.queues.jobs.map (dueFor r)).sum ≤
      (w.store.queues.jobs.map (dueFor r)).sum + grant r w (.outside e) := by
  rcases outside_cases happened with ⟨_, _, rfl⟩ | ⟨jobId, job, rfl, hfind, active, rfl⟩
  · exact Nat.le_add_right _ _
  · have sum := sum_setJob (f := fun j => { j with state := .waiting })
        (dueFor r) listed.distinct hfind
    have again : dueFor r { job with state := .waiting } ≤
        dueFor r job + if job.data.transferId = r then 1 else 0 := by
      by_cases own : job.data.transferId = r
      · simp only [dueFor, own, if_true, due, active]
        omega
      · simp only [dueFor, own, if_false]
        omega
    simp only [grant, hfind, setJob]
    omega

/-- A step raises the budget by at most what it grants. -/
theorem step_budget {w w' : SysWorld} {a : SysAct} (listed : Listed w.store)
    (staged : ∀ t ∈ w.threads, Staged env t) (move : (machine env).step w a = some w') :
    spent r w'.store.db + outstanding r w' ≤ spent r w.store.db +
      outstanding r w + grant r w a := by
  unfold outstanding
  cases Machine.step_move move with
  | request s task admitted eq =>
    subst eq
    have db : s.db = w.store.db := (enter_db admitted).1
    have entered := enter_due (r := r) env w.nextPid listed admitted
    simp only [List.map_append, List.sum_append, spawn, List.map_cons, List.map_nil, List.sum_cons,
      List.sum_nil, db]
    change _ + (_ + (owes r ⟨_, _, code env task⟩ + 0) + _) ≤ _
    omega
  | resume l ts t op k b s found at_call answered eq =>
    rename_i pid c
    subst eq
    obtain ⟨hmem, -⟩ := mem_of_focus found
    have counted := resume_spent (r := r) (staged t hmem) at_call answered
    have added := exec_due (r := r) answered
    have granted : callGrant r op = grant r w (.resume pid c) := by
      simp only [grant, found, at_call, Prog.head]
    have before := sum_threads r l ts t
    have after := sum_threads r l ts { t with prog := k b }
    rw [(focus_some found).1]
    dsimp only
    omega
  | settle l ts t out found ended eq =>
    subst eq
    have settled := finish_due (r := r) env out listed found
    have spawned := spawned_owes (r := r) env w.nextPid t.task out w.store
    have db := finish_db env t.task out w.store
    have before := sum_threads r l ts t
    rw [(focus_some found).1]
    simp only [machine, List.map_append, List.sum_append, db] at *
    omega
  | crash l ts t found eq =>
    rename_i pid
    subst eq
    have dropped := spent_dropTx r pid w.store.db
    have before := sum_threads r l ts t
    rw [(focus_some found).1]
    simp only [machine, drop]
    omega
  | outside s happened eq =>
    subst eq
    have added := outside_due (r := r) listed happened
    have db : s.db = w.store.db := outside_db happened
    rw [db]
    dsimp only
    omega

end Steps

/-! ## Whole runs -/

section Runs
variable {env : Env} {r : Nat}

theorem staged_threadwise (allowed : SysWorld → SysAct → Prop) :
    Threadwise (machine env) allowed Listed fun _ t => Staged env t where
  request w q s task _ listed hT entered :=
    ⟨enter_listed listed entered, hT, fun _ => staged_new _ task⟩
  resume w pid c l r t op k a s _ listed hT _ found at_call answered := by
    obtain ⟨hmem, hothers⟩ := mem_of_focus found
    exact ⟨exec_listed listed answered, fun t' ht => hT t' (hothers t' ht),
      staged_step (hT t hmem) at_call (exec_sound answered)⟩
  settle w pid l r t out _ listed hT found _ :=
    ⟨finish_listed env t.task out listed, fun t' ht => hT t' ((mem_of_focus found).2 t' ht),
      fun _ task _ => staged_new _ task⟩
  crash w pid l r t _ listed hT _ found :=
    ⟨listed, fun t' ht => hT t' ((mem_of_focus found).2 t' ht)⟩
  outside w e s _ listed hT happened := ⟨outside_listed listed happened, hT⟩

/-- Along every run in which runs of a transfer are granted within its budget, the
budget holds. -/
theorem budget_kept {w₀ w : SysWorld} (start : Initial w₀)
    (path : Reach (machine env) (Thrifty env r) w₀ w) :
    spent r w.store.db + outstanding r w ≤ env.config.transferMaxAttempts := by
  have listed₀ : Listed w₀.store := by
    unfold Listed
    rw [start.jobs]
    rfl
  induction path with
  | start =>
    have none : spent r w₀.store.db = 0 := by
      simp [spent, allRows, buffered, start.transfers, start.openTxs]
    have nothing : outstanding r w₀ = 0 := by simp [outstanding, start.threads, start.jobs]
    omega
  | step path ok move ih =>
    obtain ⟨listed, staged⟩ := (staged_threadwise _).holds (initial_numbered start) listed₀
      (by simp [start.threads]) path
    have bound := step_budget (r := r) listed staged move
    rcases ok with nothing | within
    · omega
    · omega

/-- No row counts more than the configured attempts, in any run in which every job that
is handed out for it fits into what is left of them. -/
theorem attempts_bounded {w₀ w : SysWorld} (start : Initial w₀)
    (path : Reach (machine env) (Thrifty env r) w₀ w) :
    ∀ row ∈ w.store.db.transfers, row.id = r → row.attempts ≤ env.config.transferMaxAttempts := by
  intro row hrow hid
  have kept := budget_kept start path
  have counted := spent_le.mp (Nat.le_refl (spent r w.store.db)) row
      (List.mem_append_left _ hrow) hid
  omega

/-- The worker of the relay's job is lost after its mark; the queue hands the job out again
and the second attempt completes the row. -/
def lostWorker : List SysAct :=
  sampleAccepted ++ sampleRelay 1 ++ [.request (.takeJob 0)] ++ answer 2 2 ++
    [.crash 2, .outside (.stalled 0), .request (.takeJob 0)] ++ answer 3 7

def thrifty (env : Env) (r : Nat) (w : SysWorld) (a : SysAct) : Bool :=
  grant r w a == 0 ||
    decide (spent r w.store.db + outstanding r w + grant r w a ≤ env.config.transferMaxAttempts)

theorem attempts_bounded_sample :
    ∃ w row, Reach (machine sampleEnv) (Thrifty sampleEnv 0) sampleWorld w ∧
    row ∈ w.store.db.transfers ∧ row.id = 0 ∧ row.attempts = 2 ∧
    row.attempts ≤ sampleEnv.config.transferMaxAttempts := by
  have run : ((machine sampleEnv).stepsIf (thrifty sampleEnv 0) sampleWorld lostWorker).map
      (fun w => w.store.db.transfers.map fun t => (t.id, t.attempts)) = some [(0, 2)] := by
        decide +kernel
  obtain ⟨w, hw, heq⟩ := Option.map_eq_some_iff.mp run
  have sound : ∀ w a, thrifty sampleEnv 0 w a = true → Thrifty sampleEnv 0 w a := by
    intro w a h
    simpa [thrifty, Thrifty] using h
  have path := reach_of_stepsIf sound .start _ hw
  obtain ⟨row, hrows, hrow⟩ := List.map_eq_singleton_iff.mp heq
  obtain ⟨hid, hattempts⟩ := Prod.mk.inj hrow
  have mem : row ∈ w.store.db.transfers := by
    rw [hrows]
    exact List.mem_singleton_self row
  exact ⟨w, row, path, mem, hid, hattempts, attempts_bounded sample_initial path row mem hid⟩

/-- A run of the sample job's worker in which reading the usage is rejected. -/
def transientRun (pid : Nat) : List SysAct :=
  [.request (.takeJob 1)] ++ answer pid 3 ++
    [.resume pid (.rejected "QueryFailedError" "connection terminated"), .settle pid,
      .settle (pid + 1)]

/-- The worker of the relay's job is lost after its mark. Half an hour later the sweep
adds a job with three attempts of its own, and all of them meet transient errors. -/
def sweptRun : List SysAct :=
  sampleAccepted ++ sampleRelay 1 ++ [.request (.takeJob 0)] ++ answer 2 2 ++
    [.crash 2, .outside (.clock 1800000), .request (.sweepTick 0)] ++ answer 3 5 ++ [.settle 3] ++
    transientRun 4 ++ transientRun 6 ++ [.request (.takeJob 1)] ++ answer 8 2

/-- No manual retry is asked for. -/
def unattended (_ : SysWorld) : SysAct → Bool
  | .request (.retry _ _) => false
  | .request (.retryBatch _ _) => false
  | _ => true

theorem attempts_exceed_maximum : ∃ w row,
    Reach (machine sampleEnv) (fun w a => unattended w a = true) sampleWorld w ∧
    row ∈ w.store.db.transfers ∧ row.attempts = 4 ∧ sampleEnv.config.transferMaxAttempts = 3 := by
  have run : ((machine sampleEnv).stepsIf unattended sampleWorld sweptRun).map
      (fun w => w.store.db.transfers.map (·.attempts)) = some [4] := by decide +kernel
  obtain ⟨w, hw, heq⟩ := Option.map_eq_some_iff.mp run
  have path := reach_of_stepsIf (fun _ _ h => h) .start _ hw
  obtain ⟨row, hrows, hattempts⟩ := List.map_eq_singleton_iff.mp heq
  refine ⟨w, row, path, ?_, hattempts, rfl⟩
  rw [hrows]
  exact List.mem_singleton_self row

end Runs

end AttemptBudget
