import SyncBridge.AttemptBudget

/-!
# The recovery sweep and live jobs

A transfer is live while one of its jobs waits in the queue or a worker executes one.
The sweep looks at the age of the row only, so it may find live transfers. This module
says when it does not: no live transfer is among the rows a sweep reads, and nobody gives
a job to a transfer that a sweep has read and not yet come to. Then a sweep leaves every
live transfer alone, and sweeps that follow each other add at most one job to it.
-/

namespace RecoverySweep

open AwaitPrograms ThreadPools Entities Database TableInvariants Calls Ingestion Worker Management
open Orchestrator Footprints AttemptBudget

/-- A worker executes a job of the transfer. -/
def works (r : Nat) (t : SysThread) : Bool :=
  match t.task with
  | .process _ data => data.transferId = r
  | _ => false

/-- A job of the transfer is waiting, also for a retry, or being executed. -/
def live (r : Nat) (w : SysWorld) : Bool :=
  (w.store.queues.jobs.any fun j => j.data.transferId = r && j.state = .waiting) ||
    w.threads.any (works r)

def isSweep (t : SysThread) : Bool :=
  match t.task with
  | .sweep _ => true
  | _ => false

/-- The call adds a job for the transfer. -/
def adds (r : Nat) : Op → Bool
  | .queue (.addTransfer data _) => data.transferId = r
  | _ => false

/-- The call changes the row or adds a job for it. -/
def touches (r : Nat) : Op → Bool
  | .db (.update id _) => id = r
  | op => adds r op

/-- The observer of one transfer in a sweep: it may be touched once after each read that
has found it. -/
def touching (r : Nat) : Monitor Op Op.Ans Err Bool where
  may found op := touches r op = true → found = true
  next found op a found' := match op, a with
    | .db (.findStuck _ _), .ok rows =>
      (rows.map (·.id)).Nodup ∧ found' = decide (r ∈ rows.map (·.id))
    | op, _ => found' = (found && !touches r op)

/-- The program will not touch the transfer unless it reads it again. -/
def Spares (r : Nat) (p : Async Reply) : Prop := Obeys (touching r) (fun _ _ => True) false p

/-- The step adds a job for the transfer or makes a lost one wait again. -/
def revives (r : Nat) (w : SysWorld) : SysAct → Bool
  | .resume pid _ => match focus pid w.threads with
    | none => false
    | some (_, t, _) => match t.prog.head with
      | none => false
      | some op => adds r op
  | .outside (.stalled jobId) => match findJob jobId w.store with
    | none => false
    | some job => job.data.transferId = r
  | _ => false

/-- Sweeps read the transfer only when it is not live, and nobody revives it between
another sweep's read and the step at which that sweep comes to it. -/
structure Unhurried (r : Nat) (w : SysWorld) (a : SysAct) : Prop where
  reads : ∀ pid c t, a = .resume pid c → t ∈ w.threads → t.pid = pid → ∀ staleBefore limit,
    t.prog.head = some (.db (.findStuck staleBefore limit)) → live r w = true →
    ∀ row ∈ stuckRows w.store.db staleBefore limit, row.id ≠ r
  apart : revives r w a = true → ∀ t ∈ w.threads, isSweep t = true → (∀ c, a ≠ .resume t.pid c) →
    Spares r t.prog

/-! ## Programs -/

section Programs
variable {env : Env} {r : Nat}

theorem adds_of_untouched {op : Op} (h : touches r op = false) : adds r op = false := by
  unfold touches at h
  split at h
  · rfl
  · exact h

theorem touching_next {op : Op} {found found' : Bool} {a : Except Err op.Ans}
    (plain : ∀ stale limit, op ≠ .db (.findStuck stale limit))
    (next : (touching r).next found op a found') :
    found' = (found && !touches r op) := by
  simp only [touching] at next
  split at next
  · exact absurd rfl (plain _ _)
  · exact next

theorem recover_touching (t : FileTransfer) {found : Bool} (h : t.id = r → found = true) :
    Obeys (touching r) (fun found' _ => found' = (found && !decide (t.id = r))) found
      (recover env t) := by
  unfold recover
  split
  · exact ⟨fun touched => h (of_decide_eq_true touched),
      fun _ _ next => touching_next (by rintro _ _ ⟨⟩) next⟩
  · exact ⟨fun touched => h (of_decide_eq_true touched),
      fun _ _ next => touching_next (by rintro _ _ ⟨⟩) next⟩

/-- A sweep touches a transfer only after it has found it, and once. -/
theorem sweep_touching (replica : Nat) :
    Spares r (code env (.sweep replica)) := by
  refine Obeys.andThen (q := fun _ _ => True) ?_ (fun _ _ _ => trivial) fun _ _ _ => trivial
  refine sweep_obeys (I := fun _ => True)
    (J := fun rest found => (rest.map (·.id)).Nodup ∧ (r ∈ rest.map (·.id) → found = true))
    replica ?_ ?_ ?_ (fun _ _ => trivial) trivial
  · exact fun _ _ _ => ⟨fun h => (nomatch h), fun _ _ _ => trivial⟩
  · intro _ stale limit _
    refine ⟨fun h => (nomatch h), fun out found next => ⟨trivial, fun rows hout => ?_⟩⟩
    subst hout
    obtain ⟨distinct, rfl⟩ := next
    exact ⟨distinct, fun mem => decide_eq_true mem⟩
  · rintro found t rest ⟨distinct, known⟩
    obtain ⟨fresh, distinct⟩ := List.nodup_cons.mp distinct
    refine (recover_touching t fun hid => known (by simp [hid])).mono _ fun found' out hfound => ?_
    refine ⟨trivial, fun _ _ => ⟨distinct, fun mem => ?_⟩⟩
    have other : t.id ≠ r := by
      rintro rfl
      exact fresh mem
    rw [hfound, known (List.mem_cons_of_mem _ mem)]
    simp [other]

end Programs

/-! ## Jobs and workers -/

/-- A worker's job is in the queue, with the data the worker was given. -/
def Matched (s : State) (t : SysThread) : Prop :=
  ∀ jobId data, t.task = .process jobId data → ∃ job, findJob jobId s = some job ∧ job.data = data

/-- Jobs stay in the queue with their data. -/
def JobsStay (s s' : State) : Prop :=
  ∀ jobId job, findJob jobId s = some job → ∃ job', findJob jobId s' = some job' ∧
    job'.data = job.data

section Queue
variable {env : Env} {r : Nat} {s s' : State} {f : Job → Job} {jobId : Nat}

theorem Matched.stay {t : SysThread} (h : Matched s t) (stay : JobsStay s s') : Matched s' t := by
  intro jobId data task
  obtain ⟨job, found, rfl⟩ := h jobId data task
  exact stay jobId job found

theorem stay_refl (s : State) : JobsStay s s := fun _ job h => ⟨job, h, rfl⟩

theorem stay_setJob (id : ∀ j, (f j).id = j.id) (data : ∀ j, (f j).data = j.data) :
    JobsStay s (setJob f jobId s) := by
  intro n job found
  refine ⟨if job.id = jobId then f job else job, ?_, ?_⟩
  · rw [findJob_setJob id, found, Option.map_some]
  · split
    · exact data job
    · rfl

theorem exec_stay {pid : Nat} {op : Op} {c : Choice} {a : Except Err op.Ans}
    (step : exec env pid op c s = some (a, s')) : JobsStay s s' := by
  intro jobId job found
  refine ⟨job, ?_, rfl⟩
  unfold findJob at found ⊢
  rcases exec_queues step with heq | ⟨q, -, heq⟩
  · rw [heq]
    exact found
  · rw [heq]
    cases q with
    | addTransfer data attempts => simp only [Queues.exec, List.find?_append, found, Option.some_or]
    | _ => exact found

theorem enter_stay (env : Env) {q : Request} {task : Task} (entered : enter q s = some (s', task)) :
    JobsStay s s' ∧ ∀ n, Matched s' ⟨n, task, code env task⟩ := by
  rcases enter_cases entered with ⟨rfl, idle, -⟩ | ⟨jobId, job, -, found, -, rfl, rfl⟩
  · exact ⟨stay_refl _, fun n jobId data task => absurd task (idle jobId data)⟩
  · have stay : JobsStay s (setJob (fun j => { j with state := .active }) jobId s) :=
      stay_setJob (fun _ => rfl) fun _ => rfl
    refine ⟨stay, fun n jobId' data task => ?_⟩
    cases task
    exact stay jobId job found

theorem finish_stay (env : Env) (task : Task) (out : Except Err Reply) (s : State) :
    JobsStay s (finish env task out s).1 := by
  rcases finish_cases env task out s with same | ⟨_, _, _, -, same⟩ | ⟨f, jobId, keeps, same⟩
  · rw [same]
    exact stay_refl s
  · rw [same]
    exact stay_refl s
  · rw [same]
    exact stay_setJob (fun j => (keeps j).1) fun j => (keeps j).2

theorem outside_stay {e : Event} (happened : outside e s = some s') : JobsStay s s' := by
  rcases outside_cases happened with ⟨_, _, rfl⟩ | ⟨_, _, -, -, -, rfl⟩
  · exact stay_refl s
  · exact stay_setJob (fun _ => rfl) fun _ => rfl

theorem matched_threadwise (allowed : SysWorld → SysAct → Prop) :
    Threadwise (machine env) allowed (fun s => Listed s ∧ Consistent s.db) Matched where
  request w q s task _ hs hT entered := by
    obtain ⟨stay, new⟩ := enter_stay env entered
    exact ⟨⟨enter_listed hs.1 entered, (enter_db entered).1 ▸ hs.2⟩,
      fun t ht => (hT t ht).stay stay, new⟩
  resume w pid c l r t op k a s _ hs hT _ found at_call answered := by
    obtain ⟨hmem, hothers⟩ := mem_of_focus found
    have stay := exec_stay answered
    exact ⟨⟨exec_listed hs.1 answered, exec_consistent answered hs.2⟩,
      fun t' ht => (hT t' (hothers t' ht)).stay stay, (hT t hmem).stay stay⟩
  settle w pid l r t out _ hs hT found _ := by
    have stay := finish_stay env t.task out w.store
    refine ⟨⟨finish_listed env t.task out hs.1, finish_db env t.task out w.store ▸ hs.2⟩,
      fun t' ht => (hT t' ((mem_of_focus found).2 t' ht)).stay stay,
      fun n task new jobId data heq => ?_⟩
    obtain ⟨_, _, _, _, -, -, -, rfl⟩ := finish_tasks new
    cases heq
  crash w pid l r t _ hs hT _ found :=
    ⟨⟨hs.1, dropTx_consistent hs.2 pid⟩, fun t' ht => hT t' ((mem_of_focus found).2 t' ht)⟩
  outside w e s _ hs hT happened :=
    ⟨⟨outside_listed hs.1 happened, outside_db happened ▸ hs.2⟩,
      fun t ht => (hT t ht).stay (outside_stay happened)⟩

end Queue

/-! ## Liveness -/

/-- No job of the transfer is waiting. -/
def Unwaited (r : Nat) (s : State) : Prop :=
  ∀ j ∈ s.queues.jobs, j.data.transferId = r → j.state ≠ .waiting

section Liveness
variable {env : Env} {r : Nat} {w w' : SysWorld} {a : SysAct}

theorem dead_iff : live r w = false ↔ Unwaited r w.store ∧ ∀ t ∈ w.threads, works r t = false := by
  simp only [live, Bool.or_eq_false_iff, List.any_eq_false, Unwaited]
  constructor
  · rintro ⟨jobs, threads⟩
    exact ⟨fun j hj hr hs => jobs j hj (by simp [hr, hs]), fun t ht => by simpa using threads t ht⟩
  · rintro ⟨jobs, threads⟩
    exact ⟨fun j hj h => by simp at h; exact jobs j hj h.1 h.2, fun t ht => by simp [threads t ht]⟩

theorem unwaited_setJob {s : State} {f : Job → Job} {jobId : Nat} (h : Unwaited r s)
    (replaced : ∀ j ∈ s.queues.jobs, j.id = jobId → (f j).data.transferId = r →
      (f j).state ≠ .waiting) :
    Unwaited r (setJob f jobId s) := by
  intro j' hj'
  obtain ⟨j, hj, rfl⟩ := List.mem_map.mp hj'
  split
  · rename_i hid
    exact replaced j hj hid
  · exact h j hj

/-- The job with a number is the one that is found. -/
theorem job_unique {s : State} (listed : Listed s) {jobId : Nat} {job j : Job}
    (found : findJob jobId s = some job) (hj : j ∈ s.queues.jobs) (hid : j.id = jobId) :
    j = job := by
  refine List.inj_on_of_nodup_map listed.distinct hj (List.mem_of_find?_eq_some found) ?_
  rw [hid]
  exact (of_decide_eq_true (List.find?_some found : _)).symm

theorem enter_dead (env : Env) {q : Request} {s s' : State} {task : Task} (h : Unwaited r s)
    (entered : enter q s = some (s', task)) (n : Nat) :
    Unwaited r s' ∧ works r ⟨n, task, code env task⟩ = false := by
  rcases enter_cases entered with ⟨rfl, idle, -⟩ | ⟨jobId, job, -, found, waiting, rfl, rfl⟩
  · refine ⟨h, ?_⟩
    cases task with
    | process jobId data => exact absurd rfl (idle jobId data)
    | _ => rfl
  · refine ⟨unwaited_setJob h fun _ _ _ _ h => (nomatch h), decide_eq_false fun hr => ?_⟩
    exact h job (List.mem_of_find?_eq_some found) hr waiting

/-- A worker's end revives no other transfer than its own. -/
theorem finish_dead {s : State} {t : SysThread} (listed : Listed s) (matched : Matched s t)
    (h : Unwaited r s) (idle : works r t = false) (out : Except Err Reply) :
    Unwaited r (finish env t.task out s).1 := by
  cases task : t.task with
  | process jobId data =>
    obtain ⟨job, found, hdata⟩ := matched jobId data task
    cases out with
    | ok reply => exact unwaited_setJob h fun _ _ _ _ h => (nomatch h)
    | error err =>
      simp only [finish, found]
      refine unwaited_setJob h fun j hj hid hr => ?_
      rw [job_unique listed found hj hid] at hr
      rw [works, task] at idle
      refine absurd ?_ (of_decide_eq_false idle)
      rw [← hdata]
      exact hr
  | _ => exact h

/-- A transfer that is not live becomes live only by a step that revives it. -/
theorem dead_step (listed : Listed w.store) (matched : ∀ t ∈ w.threads, Matched w.store t)
    (dead : live r w = false) (quiet : revives r w a = false)
    (move : (machine env).step w a = some w') :
    live r w' = false := by
  obtain ⟨unwaited, idle⟩ := dead_iff.mp dead
  rw [dead_iff]
  cases Machine.step_move move with
  | request s task admitted eq =>
    subst eq
    obtain ⟨unwaited', new⟩ := enter_dead env unwaited admitted w.nextPid
    refine ⟨unwaited', fun t ht => ?_⟩
    rcases List.mem_append.mp ht with ht | ht
    · exact idle t ht
    · rw [spawn, spawn, List.mem_singleton] at ht
      exact ht ▸ new
  | resume l ts t op k b s found at_call answered eq =>
    subst eq
    obtain ⟨hmem, hothers⟩ := mem_of_focus found
    constructor
    · intro j hj hr
      have adds_none : adds r op = false := by
        simpa [revives, found, at_call, Prog.head] using quiet
      rcases exec_queues answered with heq | ⟨q, rfl, heq⟩
      · exact unwaited j (heq ▸ hj) hr
      · rw [heq] at hj
        cases q with
        | addTransfer data attempts =>
          rcases List.mem_append.mp hj with hj | hj
          · exact unwaited j hj hr
          · rw [List.mem_singleton.mp hj] at hr
            exact absurd hr (of_decide_eq_false adds_none)
        | _ => exact unwaited j hj hr
    · intro t' ht
      rcases mem_middle.mp ht with rfl | ht
      · exact idle t hmem
      · exact idle t' (hothers t' ht)
  | settle l ts t out found ended eq =>
    subst eq
    obtain ⟨hmem, hothers⟩ := mem_of_focus found
    constructor
    · exact finish_dead listed (matched t hmem) unwaited (idle t hmem) out
    · intro t' ht
      rcases List.mem_append.mp ht with ht | ht
      · exact idle t' (hothers t' ht)
      · obtain ⟨_, _, _, _, -, -, -, heq⟩ := finish_tasks (mem_spawn ht).1
        rw [works, heq]
  | crash l ts t found eq =>
    subst eq
    exact ⟨unwaited, fun t' ht => idle t' ((mem_of_focus found).2 t' ht)⟩
  | outside s happened eq =>
    subst eq
    refine ⟨?_, idle⟩
    rcases outside_cases happened with ⟨_, _, rfl⟩ | ⟨jobId, job, rfl, hfind, -, rfl⟩
    · exact unwaited
    · refine unwaited_setJob unwaited fun j hj hid hr => ?_
      rw [job_unique listed hfind hj hid] at hr
      simp only [revives, hfind] at quiet
      exact absurd hr (of_decide_eq_false quiet)

end Liveness

/-! ## Sweeps along a run -/

/-- A sweep that may still touch the transfer does so when it is not live. -/
def Watched (r : Nat) (w : SysWorld) : Prop :=
  ∀ t ∈ w.threads, isSweep t = true →
    ∃ found, Obeys (touching r) (fun _ _ => True) found t.prog ∧ (found = true → live r w = false)

section Sweeps
variable {env : Env} {r : Nat} {w w' : SysWorld} {a : SysAct}

theorem stuckRows_nodup {db : Db} (consistent : Consistent db) (staleBefore limit : Nat) :
    ((stuckRows db staleBefore limit).map (·.id)).Nodup := by
  have distinct := distinct_rows consistent
  refine List.Nodup.sublist ((List.take_sublist _ _).map _) ?_
  refine ((List.perm_insertionSort _ _).map _).nodup_iff.mpr ?_
  exact distinct.sublist (List.filter_sublist.map _)

/-- What the observer of a sweep makes of an answer. -/
theorem exec_touching {pid : Nat} {op : Op} {c : Choice} {s s' : State} {b : Except Err op.Ans}
    (consistent : Consistent s.db) (step : exec env pid op c s = some (b, s')) (found : Bool) :
    ∃ found', (touching r).next found op b found' ∧ (found' = true →
      (found = true ∧ touches r op = false) ∨ ∃ stale limit, op = .db (.findStuck stale limit) ∧
        ∃ row ∈ stuckRows s.db stale limit, row.id = r) := by
  by_cases read : ∃ stale limit, op = .db (.findStuck stale limit)
  · obtain ⟨stale, limit, rfl⟩ := read
    cases b with
    | error e =>
      refine ⟨found, ?_, fun h => .inl ⟨h, rfl⟩⟩
      exact (Bool.and_true found).symm
    | ok rows =>
      have answer := findStuck_answer step
      refine ⟨decide (r ∈ rows.map (·.id)),
        ⟨answer ▸ stuckRows_nodup consistent stale limit, rfl⟩, ?_⟩
      intro mem
      obtain ⟨row, hrow, hid⟩ := List.mem_map.mp (of_decide_eq_true mem)
      exact .inr ⟨stale, limit, rfl, row, answer ▸ hrow, hid⟩
  · refine ⟨found && !touches r op, ?_, fun h => .inl (by simpa using h)⟩
    simp only [touching]
    split
    · exact absurd ⟨_, _, rfl⟩ read
    · rfl

/-- The sweeps that do not take the step are watched after it too. -/
theorem watched_other (listed : Listed w.store) (matched : ∀ t ∈ w.threads, Matched w.store t)
    (watched : Watched r w) (ok : Unhurried r w a) (move : (machine env).step w a = some w')
    {t : SysThread} (ht : t ∈ w.threads) (isSweep : isSweep t = true)
    (other : ∀ c, a ≠ .resume t.pid c) :
    ∃ found, Obeys (touching r) (fun _ _ => True) found t.prog ∧
    (found = true → live r w' = false) := by
  by_cases revived : revives r w a = true
  · exact ⟨false, ok.apart revived t ht isSweep other, fun h => (by cases h)⟩
  · obtain ⟨found, obeys, dead⟩ := watched t ht isSweep
    refine ⟨found, obeys, fun h => ?_⟩
    exact dead_step listed matched (dead h) (by simpa using revived) move

theorem watched_step (num : Numbered w) (listed : Listed w.store)
    (consistent : Consistent w.store.db) (matched : ∀ t ∈ w.threads, Matched w.store t)
    (watched : Watched r w) (ok : Unhurried r w a) (move : (machine env).step w a = some w') :
    Watched r w' := by
  have other := fun {t} => watched_other (t := t) listed matched watched ok move
  intro t' ht' hsweep
  cases Machine.step_move move with
  | request s task admitted eq =>
    subst eq
    rcases List.mem_append.mp ht' with ht | ht
    · exact other ht hsweep fun _ h => (by cases h)
    · rw [spawn, spawn, List.mem_singleton] at ht
      subst ht
      cases task with
      | sweep replica => exact ⟨false, sweep_touching replica, fun h => (by cases h)⟩
      | _ => cases hsweep
  | resume l ts t op k b s found at_call answered eq =>
    rename_i pid c
    subst eq
    obtain ⟨hmem, hothers⟩ := mem_of_focus found
    have rest : ∀ t' ∈ l ++ ts, t'.pid ≠ pid := num.others_ne found
    rcases mem_middle.mp ht' with rfl | ht
    · obtain ⟨b₀, obeys, dead⟩ := watched t hmem hsweep
      rw [at_call] at obeys
      obtain ⟨b₁, next, why⟩ := exec_touching (r := r) consistent answered b₀
      refine ⟨b₁, obeys.2 b b₁ next, fun h => ?_⟩
      rcases why h with ⟨was, quiet⟩ | ⟨stale, limit, rfl, row, hrow, hid⟩
      · refine dead_step listed matched (dead was) ?_ move
        simp only [revives, found, at_call, Prog.head]
        exact adds_of_untouched quiet
      · refine dead_step listed matched ?_ ?_ move
        · by_contra alive
          exact ok.reads pid c t rfl hmem (focus_some found).2 stale limit (by rw [at_call]; rfl)
            (by simpa using alive) row hrow hid
        · simp [revives, found, at_call, Prog.head, adds]
    · refine other (hothers t' ht) hsweep fun c' h => ?_
      cases h
      exact rest t' ht rfl
  | settle l ts t out found ended eq =>
    subst eq
    rcases List.mem_append.mp ht' with ht | ht
    · exact other ((mem_of_focus found).2 t' ht) hsweep fun _ h => (by cases h)
    · obtain ⟨_, _, _, _, -, -, -, heq⟩ := finish_tasks (mem_spawn ht).1
      rw [isSweep, heq] at hsweep
      cases hsweep
  | crash l ts t found eq =>
    subst eq
    exact other ((mem_of_focus found).2 t' ht') hsweep fun _ h => (by cases h)
  | outside s happened eq =>
    subst eq
    exact other ht' hsweep fun _ h => (by cases h)

end Sweeps

/-! ## Whole runs -/

def rowsOf (r : Nat) (w : SysWorld) : List FileTransfer :=
  w.store.db.transfers.filter fun t => t.id = r

def jobsOf (r : Nat) (w : SysWorld) : List Job :=
  w.store.queues.jobs.filter fun j => j.data.transferId = r

/-- Steps while only sweeps run. -/
def sweeping (w : SysWorld) : SysAct → Bool
  | .request (.sweepTick _) => true
  | .request _ => false
  | .resume pid _ | .settle pid | .crash pid => match focus pid w.threads with
    | none => false
    | some (_, t, _) => isSweep t
  | .outside (.stalled _) => false
  | .outside _ => true

/-- What holds in every world of a run whose steps are unhurried. -/
structure Attended (env : Env) (r : Nat) (w : SysWorld) : Prop where
  numbered : Numbered w
  listed : Listed w.store
  consistent : Consistent w.store.db
  matched : ∀ t ∈ w.threads, Matched w.store t
  staged : ∀ t ∈ w.threads, Staged env t
  watched : Watched r w

section Runs
variable {env : Env} {r : Nat} {w₀ w w' : SysWorld} {a : SysAct}

theorem attended_start (start : Initial w₀) : Attended env r w₀ := by
  have listed : Listed w₀.store := by
    unfold Listed
    rw [start.jobs]
    rfl
  exact {
    numbered := initial_numbered start
    listed := listed
    consistent := initial_consistent start
    matched := by simp [start.threads]
    staged := by simp [start.threads]
    watched := by simp [Watched, start.threads] }

theorem attended_step (h : Attended env r w) (ok : Unhurried r w a)
    (move : (machine env).step w a = some w') : Attended env r w' := by
  obtain ⟨⟨listed, consistent⟩, matched⟩ :=
    (matched_threadwise anyStep).step trivial move h.numbered
    ⟨h.listed, h.consistent⟩ h.matched
  obtain ⟨-, staged⟩ := (staged_threadwise anyStep).step trivial move h.numbered h.listed h.staged
  exact {
    numbered := numbered_step h.numbered move
    listed := listed
    consistent := consistent
    matched := matched
    staged := staged
    watched := watched_step h.numbered h.listed h.consistent h.matched h.watched ok move }

theorem attended_run (h : Attended env r w) (path : Reach (machine env) (Unhurried r) w w') :
    Attended env r w' :=
  path.invariant h fun _ _ _ _ ok move h => attended_step h ok move

/-- A call of a sweep that does not touch the transfer leaves its row and its jobs. -/
theorem untouched_call {pid : Nat} {op : Op} {c : Choice} {s s' : State} {b : Except Err op.Ans}
    (call : SweepCall op) (untouched : touches r op = false)
    (step : exec env pid op c s = some (b, s')) :
    (s'.db.transfers.filter fun t => t.id = r) = (s.db.transfers.filter fun t => t.id = r) ∧
    (s'.queues.jobs.filter fun j => j.data.transferId = r) =
      s.queues.jobs.filter fun j => j.data.transferId = r := by
  constructor
  · rcases exec_effect_db step with heq | ⟨dbOp, rfl, e⟩
    · rw [heq]
    · generalize s'.db = db' at e
      cases e with
      | unchanged => rfl
      | updated id p names free =>
        cases dbOp with
        | update id' p' =>
          cases names
          exact patchRow_elsewhere (of_decide_eq_false untouched) p s.db.transfers
        | findStuck stale limit => cases names
        | _ => cases call
      | _ => cases call
  · rcases exec_queues step with heq | ⟨q, rfl, heq⟩
    · rw [heq]
    · rw [heq]
      cases q with
      | addTransfer data attempts =>
        have other : ¬ data.transferId = r := of_decide_eq_false untouched
        simp [Queues.exec, List.filter_append, other]
      | _ => cases call

theorem sweep_call (h : Attended env r w) {t : SysThread} (mem : t ∈ w.threads)
    (sweeps : isSweep t = true) {op : Op} {k : Except Err op.Ans → Async Reply}
    (at_call : t.prog = .await op k) :
    SweepCall op ∧ (live r w = true → touches r op = false) := by
  constructor
  · have staged := h.staged t mem
    unfold isSweep at sweeps
    split at sweeps
    · rename_i replica task
      unfold Staged at staged
      rw [task, at_call] at staged
      exact staged.1
    · cases sweeps
  · intro alive
    obtain ⟨found, obeys, dead⟩ := h.watched t mem sweeps
    rw [at_call] at obeys
    by_contra touched
    have := dead (obeys.1 (by simpa using touched))
    simp [alive] at this

/-- A step of a sweep leaves a live transfer alone. -/
theorem sweep_spares (h : Attended env r w) (alive : live r w = true) {pid : Nat} {c : Choice}
    (sweeps : sweeping w (.resume pid c) = true)
    (move : (machine env).step w (.resume pid c) = some w') :
    rowsOf r w' = rowsOf r w ∧ jobsOf r w' = jobsOf r w := by
  cases Machine.step_move move with
  | resume l ts t op k b s found at_call answered eq =>
    subst eq
    simp only [sweeping, found] at sweeps
    obtain ⟨call, untouched⟩ := sweep_call h (mem_of_focus found).1 sweeps at_call
    exact untouched_call call (untouched alive) answered

theorem live_iff : live r w = true ↔
    (∃ j ∈ jobsOf r w, j.state = .waiting) ∨ ∃ t ∈ w.threads, works r t = true := by
  simp only [live, jobsOf, Bool.or_eq_true, List.any_eq_true, List.mem_filter, Bool.and_eq_true,
    decide_eq_true_eq]
  constructor
  · rintro (⟨j, mem, own, waits⟩ | busy)
    · exact .inl ⟨j, ⟨mem, own⟩, waits⟩
    · exact .inr busy
  · rintro (⟨j, ⟨mem, own⟩, waits⟩ | busy)
    · exact .inl ⟨j, mem, own, waits⟩
    · exact .inr busy

/-- While only sweeps run, workers stay at their calls. -/
theorem sweeping_works (sweeps : sweeping w a = true) (move : (machine env).step w a = some w')
    {t : SysThread} (mem : t ∈ w.threads) (busy : works r t = true) :
    ∃ t' ∈ w'.threads, works r t' = true := by
  have kept : ∀ {pid l ts t₀}, focus pid w.threads = some (l, t₀, ts) →
      isSweep t₀ = true → t ∈ l ++ ts := by
    intro pid l ts t₀ found sweep
    refine mem_beside found mem ?_
    rintro rfl
    unfold isSweep at sweep
    split at sweep
    · rename_i task
      rw [works, task] at busy
      cases busy
    · cases sweep
  cases Machine.step_move move with
  | request s task admitted eq =>
    subst eq
    exact ⟨t, List.mem_append_left _ mem, busy⟩
  | resume l ts t₀ op k b s found at_call answered eq =>
    subst eq
    simp only [sweeping, found] at sweeps
    refine ⟨t, ?_, busy⟩
    rcases List.mem_append.mp (kept found sweeps) with mem | mem
    · exact List.mem_append_left _ mem
    · exact List.mem_append_right _ (List.mem_cons_of_mem _ mem)
  | settle l ts t₀ out found ended eq =>
    subst eq
    simp only [sweeping, found] at sweeps
    exact ⟨t, List.mem_append_left _ (kept found sweeps), busy⟩
  | crash l ts t₀ found eq =>
    subst eq
    simp only [sweeping, found] at sweeps
    exact ⟨t, kept found sweeps, busy⟩
  | outside s happened eq =>
    subst eq
    exact ⟨t, mem, busy⟩

/-- What one step of a sweep can do to the row and the jobs of a transfer. -/
theorem sweeping_step (h : Attended env r w) (sweeps : sweeping w a = true)
    (move : (machine env).step w a = some w') :
    (rowsOf r w' = rowsOf r w ∧ jobsOf r w' = jobsOf r w) ∨
      live r w = false ∧ (jobsOf r w' = jobsOf r w ∨
        ∃ j, jobsOf r w' = jobsOf r w ++ [j] ∧ j.state = .waiting) := by
  cases Machine.step_move move with
  | request s task admitted eq =>
    rename_i q
    subst eq
    cases q with
    | sweepTick replica =>
      cases admitted
      exact .inl ⟨rfl, rfl⟩
    | _ => cases sweeps
  | resume l ts t op k b s found at_call answered eq =>
    have spares := fun alive => sweep_spares h alive sweeps move
    subst eq
    simp only [sweeping, found] at sweeps
    cases alive : live r w with
    | true => exact .inl (spares alive)
    | false =>
      refine .inr ⟨rfl, ?_⟩
      rcases exec_queues answered with heq | ⟨q, rfl, heq⟩
      · exact .inl (by rw [jobsOf, heq, jobsOf])
      · cases q with
        | addTransfer data attempts =>
          by_cases own : data.transferId = r
          · refine .inr ⟨⟨w.store.queues.jobs.length, data, 0, attempts, .waiting⟩, ?_, rfl⟩
            rw [jobsOf, heq, Queues.exec, List.filter_append, jobsOf]
            simp [own]
          · refine .inl ?_
            rw [jobsOf, heq, Queues.exec, List.filter_append, jobsOf]
            simp [own]
        | _ => exact absurd (sweep_call h (mem_of_focus found).1 sweeps at_call).1 id
  | settle l ts t out found ended eq =>
    subst eq
    simp only [sweeping, found] at sweeps
    unfold isSweep at sweeps
    split at sweeps
    · rename_i task
      refine .inl ?_
      simp only [rowsOf, jobsOf, task]
      exact ⟨rfl, rfl⟩
    · cases sweeps
  | crash l ts t found eq =>
    subst eq
    exact .inl ⟨rfl, rfl⟩
  | outside s happened eq =>
    rename_i e
    subst eq
    cases e with
    | stalled jobId => cases sweeps
    | _ =>
      cases happened
      exact .inl ⟨rfl, rfl⟩

/-- A live transfer is left alone while only sweeps run, and stays live. -/
theorem sweeping_live (h : Attended env r w) (alive : live r w = true)
    (sweeps : sweeping w a = true) (move : (machine env).step w a = some w') :
    rowsOf r w' = rowsOf r w ∧ jobsOf r w' = jobsOf r w ∧ live r w' = true := by
  have same : rowsOf r w' = rowsOf r w ∧ jobsOf r w' = jobsOf r w := by
    rcases sweeping_step h sweeps move with same | ⟨dead, -⟩
    · exact same
    · simp [alive] at dead
  refine ⟨same.1, same.2, live_iff.mpr ?_⟩
  rw [same.2]
  rcases live_iff.mp alive with waits | ⟨t, mem, busy⟩
  · exact .inl waits
  · exact .inr (sweeping_works sweeps move mem busy)

theorem sweeps_live (h : Attended env r w) (alive : live r w = true)
    (path : Reach (machine env) (fun w a => Unhurried r w a ∧ sweeping w a = true) w w') :
    rowsOf r w' = rowsOf r w ∧ jobsOf r w' = jobsOf r w ∧ live r w' = true := by
  induction path with
  | start => exact ⟨rfl, rfl, alive⟩
  | step path ok move ih =>
    have between := attended_run h (path.weaken fun _ _ ok => ok.1)
    obtain ⟨rows, jobs, still⟩ := sweeping_live between ih.2.2 ok.2 move
    exact ⟨rows.trans ih.1, jobs.trans ih.2.1, still⟩

/-- Consecutive sweeps add no job, or one that then waits. -/
theorem sweeps_add (h : Attended env r w)
    (path : Reach (machine env) (fun w a => Unhurried r w a ∧ sweeping w a = true) w w') :
    jobsOf r w' = jobsOf r w ∨ (∃ j, jobsOf r w' = jobsOf r w ++ [j]) ∧ live r w' = true := by
  induction path with
  | start => exact .inl rfl
  | step path ok move ih =>
    have between := attended_run h (path.weaken fun _ _ ok => ok.1)
    rcases ih with same | ⟨⟨j, added⟩, alive⟩
    · rcases sweeping_step between ok.2 move with ⟨-, jobs⟩ | ⟨-, jobs | ⟨j, jobs, waits⟩⟩
      · exact .inl (jobs.trans same)
      · exact .inl (jobs.trans same)
      · rw [same] at jobs
        refine .inr ⟨⟨j, jobs⟩, live_iff.mpr (.inl ⟨j, ?_, waits⟩)⟩
        rw [jobs]
        exact List.mem_append_right _ (List.mem_singleton_self j)
    · obtain ⟨-, jobs, still⟩ := sweeping_live between alive ok.2 move
      exact .inr ⟨⟨j, jobs.trans added⟩, still⟩

/-- In every run in which sweeps read the transfer only when it is not live, and nobody
revives it before a sweep that has read it is done with it: no step of a sweep changes the
row or the jobs of the transfer while it is live, and sweeps that follow each other add at
most one job for it. -/
theorem sweeps_spare_live (start : Initial w₀) (path : Reach (machine env) (Unhurried r) w₀ w) :
    (live r w = true → ∀ pid c w', sweeping w (.resume pid c) = true →
      (machine env).step w (.resume pid c) = some w' →
      rowsOf r w' = rowsOf r w ∧ jobsOf r w' = jobsOf r w) ∧
    ∀ w', Reach (machine env) (fun w a => Unhurried r w a ∧ sweeping w a = true) w w' →
      (jobsOf r w').length ≤ (jobsOf r w).length + 1 ∧
      (live r w = true → rowsOf r w' = rowsOf r w ∧ jobsOf r w' = jobsOf r w) := by
  have attended := attended_run (attended_start start) path
  constructor
  · exact fun alive _ _ _ sweeps move => sweep_spares attended alive sweeps move
  · intro w' path
    constructor
    · rcases sweeps_add attended path with same | ⟨⟨j, added⟩, -⟩
      · rw [same]
        omega
      · rw [added, List.length_append, List.length_singleton]
    · intro alive
      obtain ⟨rows, jobs, -⟩ := sweeps_live attended alive path
      exact ⟨rows, jobs⟩

/-- A test for unhurried steps: the rows any thread is about to read are looked at, and
no second sweep is in flight when the transfer is revived. -/
def unhurried (r : Nat) (w : SysWorld) (a : SysAct) : Bool :=
  (w.threads.all fun t => match t.prog.head with
    | some (.db (.findStuck staleBefore limit)) =>
      !live r w || (stuckRows w.store.db staleBefore limit).all fun row => row.id ≠ r
    | _ => true) &&
  (!revives r w a || w.threads.all fun t => !isSweep t || match a with
    | .resume pid _ => t.pid = pid
    | _ => false)

theorem unhurried_sound (h : unhurried r w a = true) : Unhurried r w a := by
  obtain ⟨reads, apart⟩ := (Bool.and_eq_true _ _).mp h
  constructor
  · intro pid c t _ mem _ staleBefore limit head alive row hrow
    have := List.all_eq_true.mp reads t mem
    rw [head] at this
    simp only [alive, Bool.not_true, Bool.false_or, List.all_eq_true, decide_eq_true_eq] at this
    exact this row hrow
  · intro revived t mem sweeps other
    rw [revived, Bool.not_true, Bool.false_or] at apart
    have alone := List.all_eq_true.mp apart t mem
    rw [sweeps, Bool.not_true, Bool.false_or] at alone
    split at alone
    · rename_i pid c
      exact absurd (by rw [of_decide_eq_true alone]) (other c)
    · cases alone

/-- A sweep that finds one row, by this thread. -/
def sampleSweep (pid : Nat) : List SysAct :=
  .request (.sweepTick 0) :: answer pid 5 ++ [.settle pid]

/-- The worker of the relay's job is lost after its mark, and half an hour passes. -/
def abandoned : List SysAct :=
  sampleAccepted ++ sampleRelay 1 ++ [.request (.takeJob 0)] ++ answer 2 2 ++
    [.crash 2, .outside (.clock 1800000)]

theorem sweeps_spare_live_sample : ∃ w w', Reach (machine sampleEnv) (Unhurried 0) sampleWorld w ∧
    Reach (machine sampleEnv) (fun w a => Unhurried 0 w a ∧ sweeping w a = true) w w' ∧
    live 0 w = false ∧ (jobsOf 0 w).length = 1 ∧ (jobsOf 0 w').length = 2 ∧
    (jobsOf 0 w').length ≤ (jobsOf 0 w).length + 1 := by
  have run : ((machine sampleEnv).stepsIf (unhurried 0) sampleWorld abandoned).map
      (fun w => (live 0 w, (jobsOf 0 w).length, ((machine sampleEnv).stepsIf
        (fun w a => unhurried 0 w a && sweeping w a) w (sampleSweep 3)).map
        fun w' => (jobsOf 0 w').length)) = some (false, 1, some 2) := by decide +kernel
  obtain ⟨w, hw, heq⟩ := Option.map_eq_some_iff.mp run
  obtain ⟨dead, rest⟩ := Prod.mk.inj heq
  obtain ⟨before, sweep⟩ := Prod.mk.inj rest
  obtain ⟨w', hw', after⟩ := Option.map_eq_some_iff.mp sweep
  have path := reach_of_stepsIf (fun _ _ h => unhurried_sound h) .start _ hw
  have sound : ∀ w a, (unhurried 0 w a && sweeping w a) = true →
      Unhurried 0 w a ∧ sweeping w a = true := by
    intro w a h
    obtain ⟨ok, sweeps⟩ := (Bool.and_eq_true _ _).mp h
    exact ⟨unhurried_sound ok, sweeps⟩
  have swept := reach_of_stepsIf sound .start _ hw'
  exact ⟨w, w', path, swept, dead, before, after,
    ((sweeps_spare_live sample_initial path).2 w' swept).1⟩

/-- The relay's job waits for half an hour: the sweep takes its transfer for a lost one,
and so does the next sweep. -/
theorem sweeps_repeat_live_jobs : ∃ w w', Reach (machine sampleEnv) anyStep sampleWorld w ∧
    Reach (machine sampleEnv) (fun w a => sweeping w a = true) w w' ∧
    live 0 w = true ∧ (jobsOf 0 w).length = 1 ∧ (jobsOf 0 w').length = 3 := by
  have run : ((machine sampleEnv).steps sampleWorld
      (sampleAccepted ++ sampleRelay 1 ++ [.outside (.clock 1800000)])).map
      (fun w => (live 0 w, (jobsOf 0 w).length, ((machine sampleEnv).stepsIf sweeping w
        (sampleSweep 2 ++ sampleSweep 3)).map fun w' => (jobsOf 0 w').length)) =
      some (true, 1, some 3) := by decide +kernel
  obtain ⟨w, hw, heq⟩ := Option.map_eq_some_iff.mp run
  obtain ⟨alive, rest⟩ := Prod.mk.inj heq
  obtain ⟨before, sweep⟩ := Prod.mk.inj rest
  obtain ⟨w', hw', after⟩ := Option.map_eq_some_iff.mp sweep
  exact ⟨w, w', reach_of_steps _ hw, reach_of_stepsIf (fun _ _ h => h) .start _ hw', alive,
    before, after⟩

end Runs

end RecoverySweep
