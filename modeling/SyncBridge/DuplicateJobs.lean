import SyncBridge.JobOutcome

/-!
# Duplicate jobs

The relay, the sweep and a manual retry may each put another job of a transfer into the
queue. The jobs are run here one after another, each to its end. A run of a row that is
SUCCESS changes nothing. Every other row is attempted again, also a FAILED one, so a
duplicate is absorbed exactly when it finds the row SUCCESS.
-/

namespace DuplicateJobs

open AwaitPrograms Entities Database TableInvariants Calls Worker Orchestrator Footprints SoloRuns
open JobOutcome

/-- The jobs, one after another, each to its end. -/
def runJobs (env : Env) (pid fuel : Nat) : List Nat → Solo → Solo
  | [], x => x
  | jobId :: rest, x => runJobs env pid fuel rest (runJob env pid jobId fuel x).2

/-- A waiting job of the transfer, with at most this many attempts left. -/
structure Left (r fuel : Nat) (job : Job) : Prop where
  target : job.data.transferId = r
  waiting : job.state = .waiting
  enough : job.attempts.getD 0 ≤ job.attemptsMade + fuel

/-- One row, which no transaction holds, and waiting jobs for it. -/
structure Queued (r fuel : Nat) (ids : List Nat) (s : State) : Prop where
  idle : s.db.openTxs = []
  stored : ∃ row, s.db.transfers.filter (fun t => t.id = r) = [row]
  distinct : ids.Nodup
  left : ∀ n ∈ ids, ∃ job, findJob n s = some job ∧ Left r fuel job

/-- The row, the usage, the events and the dead letters are the same. -/
structure Same (v v' : View) : Prop where
  rows : v'.rows = v.rows
  usage : v'.usage = v.usage
  kafka : v'.kafka.Perm v.kafka
  deliveries : v'.deliveries.Perm v.deliveries
  deadLetters : v'.deadLetters.Perm v.deadLetters

/-- What runs of these jobs have done to the row. -/
structure Advanced (r : Nat) (ids : List Nat) (s s' : State) (t t' : FileTransfer) : Prop where
  idle : (view r s').openTxs = []
  stored : (view r s').rows = [t']
  others : ∀ n, n ∉ ids → findJob n s' = findJob n s
  absorbed : t.status = .success → view r s' = { view r s with jobs := (view r s').jobs }
  still : ids = [] → t' = t
  counted : ids ≠ [] → t.status ≠ .success → t.attempts < t'.attempts

section Relation
variable {r : Nat} {ids ids' : List Nat} {s s' s'' : State} {t t' t'' : FileTransfer}

theorem advanced_refl (idle : (view r s).openTxs = []) (stored : (view r s).rows = [t]) :
    Advanced r [] s s t t :=
  ⟨idle, stored, fun _ _ => rfl, fun _ => rfl, fun _ => rfl, fun h => absurd rfl h⟩

theorem Advanced.same_row (h : Advanced r ids s s' t t') (stored : (view r s).rows = [t])
    (success : t.status = .success) : t' = t := by
  have rows := congrArg View.rows (h.absorbed success)
  rw [h.stored] at rows
  have rows' : [t'] = [t] := rows.trans stored
  exact List.singleton_inj.mp rows'

theorem Advanced.same (h : Advanced r ids s s' t t') (success : t.status = .success) :
    Same (view r s) (view r s') := by
  have unchanged := h.absorbed success
  constructor
  · exact (congrArg View.rows unchanged).trans rfl
  · exact (congrArg View.usage unchanged).trans rfl
  · exact .of_eq ((congrArg View.kafka unchanged).trans rfl)
  · exact .of_eq ((congrArg View.deliveries unchanged).trans rfl)
  · exact .of_eq ((congrArg View.deadLetters unchanged).trans rfl)

theorem Advanced.grows (h : Advanced r ids s s' t t') (stored : (view r s).rows = [t]) :
    t.attempts ≤ t'.attempts := by
  by_cases none : ids = []
  · rw [h.still none]
  · by_cases success : t.status = .success
    · rw [h.same_row stored success]
    · exact Nat.le_of_lt (h.counted none success)

theorem Advanced.trans (h : Advanced r ids s s' t t') (stored : (view r s).rows = [t])
    (h' : Advanced r ids' s' s'' t' t'') : Advanced r (ids ++ ids') s s'' t t'' where
  idle := h'.idle
  stored := h'.stored
  others n out := by
    rw [h'.others n fun hn => out (List.mem_append_right _ hn),
      h.others n fun hn => out (List.mem_append_left _ hn)]
  absorbed success := by
    have same := h.same_row stored success
    subst same
    rw [h'.absorbed success, h.absorbed success]
  still none := by
    obtain ⟨first, second⟩ := List.append_eq_nil_iff.mp none
    rw [h'.still second, h.still first]
  counted some fails := by
    by_cases none : ids = []
    · subst none
      have same := h.still rfl
      subst same
      exact h'.counted (by simpa using some) fails
    · have := h.counted none fails
      have := h'.grows h.stored
      omega

/-- The jobs are a nonempty part of others. -/
theorem Advanced.within (h : Advanced r ids s s' t t') (some : ids ≠ []) (sub : ids ⊆ ids') :
    Advanced r ids' s s' t t' where
  idle := h.idle
  stored := h.stored
  others n out := h.others n fun hn => out (sub hn)
  absorbed := h.absorbed
  still none := by
    subst none
    exact absurd (List.subset_nil.mp sub) some
  counted _ := h.counted some

/-- Other jobs are where they were. -/
theorem Advanced.left_after {fuel first : Nat} {rest : List Nat} (h : Advanced r [first] s s' t t')
    (fresh : first ∉ rest) (left : ∀ n ∈ rest, ∃ job, findJob n s = some job ∧ Left r fuel job) :
    ∀ n ∈ rest, ∃ job, findJob n s' = some job ∧ Left r fuel job := by
  intro n hn
  have other : n ∉ [first] := by
    rintro h
    exact fresh (List.mem_singleton.mp h ▸ hn)
  rw [h.others n other]
  exact left n hn

end Relation

section Attempt
variable (env : Env) (pid : Nat) {r jobId : Nat} {x : Solo} {t : FileTransfer} {job : Job}

/-- A run of a row that is SUCCESS. -/
theorem success_served {data : TransferJobData} (stored : (view r x.state).rows = [t])
    (success : t.status = .success) (target : data.transferId = r) :
    ∃ y, (runTransfer env data).run (serve env pid preparing) x = (.ok (), y) ∧
      view r y.state = view r x.state := by
  obtain ⟨y, read, hview⟩ := findOne_served env pid stored
  refine ⟨y, ?_, hview⟩
  unfold runTransfer
  rw [target]
  refine (run_bind_ok (run_call read)).trans ?_
  dsimp only
  rw [if_pos success]
  rfl

theorem findJob_taken (found : findJob jobId x.state = some job) :
    jobIn jobId (view r (taken jobId x).state) = some { job with state := .active } :=
  jobIn_setJob (fun j => { j with state := .active }) (fun _ => rfl) found

theorem taken_other {n : Nat} (other : n ≠ jobId) (x : Solo) :
    findJob n (taken jobId x).state = findJob n x.state :=
  findJob_other (f := fun j => { j with state := .active }) (fun _ => rfl) other x.state

theorem attempted_advances {env : Env} {v v' : View} {o : Outcome} {out : Except Err Unit}
    (h : Attempted env t v o out v') : v'.openTxs = v.openTxs ∧ ∃ t', v'.rows = [t'] ∧
      t.attempts < t'.attempts ∧ ∀ err, out = .error err → t'.status ≠ .success := by
  cases h with
  | success u now now' => exact ⟨rfl, _, rfl, Nat.lt_succ_self _, fun _ h => (nomatch h)⟩
  | permanent message now now' => exact ⟨rfl, _, rfl, Nat.lt_succ_self _, fun _ h => (nomatch h)⟩
  | transient err now => exact ⟨rfl, _, rfl, Nat.lt_succ_self _, fun _ _ h => nomatch h⟩

/-- The row and the other jobs after a `failed` handler. -/
structure Handled (r jobId : Nat) (s s' : State) (t t' : FileTransfer) : Prop where
  idle : (view r s').openTxs = []
  stored : (view r s').rows = [t']
  others : ∀ n, n ∉ [jobId] → findJob n s' = findJob n s
  attempts : t'.attempts = t.attempts

/-- A thrown attempt is counted: the job waits while attempts are left, and else it is
over and the row is marked. -/
theorem handler_advances {fuel : Nat} (err : Err) (idle : (view r x.state).openTxs = [])
    (stored : (view r x.state).rows = [t]) (unfinished : t.status ≠ .success)
    (queued : findJob jobId x.state = some { job with state := .active })
    (left : Left r (fuel + 1) job) :
    ∃ t', Handled r jobId x.state
      (runTask env pid (.onFailed (failedRun { job with state := .active }) err)
        ⟨setJob failedRun jobId x.state, x.turns⟩).1.state t t' ∧
      (Over jobId (runTask env pid (.onFailed (failedRun { job with state := .active }) err)
        ⟨setJob failedRun jobId x.state, x.turns⟩).1.state ∨
        0 < fuel ∧ ∃ job', findJob jobId
          (runTask env pid (.onFailed (failedRun { job with state := .active }) err)
          ⟨setJob failedRun jobId x.state, x.turns⟩).1.state = some job' ∧ Left r fuel job') := by
  have failed : jobIn jobId (view r (setJob failedRun jobId x.state)) =
      some (failedRun { job with state := .active }) := jobIn_setJob failedRun (fun _ => rfl) queued
  have others : ∀ n, n ∉ [jobId] → findJob n (setJob failedRun jobId x.state) = findJob n x.state :=
    fun n out => findJob_other (f := failedRun) (fun _ => rfl) (by simpa using out) x.state
  by_cases more : job.attemptsMade + 1 < job.attempts.getD 0
  · have limit : job.attempts.getD 1 = job.attempts.getD 0 := by
      cases h : job.attempts with
      | none => simp [h] at more
      | some n => rfl
    rw [handler_early env pid (failedRun { job with state := .active }) limit more]
    have enough := left.enough
    refine ⟨t, ⟨idle, stored, others, rfl⟩,
      .inr ⟨by omega, _, failed, left.target, if_pos more, ?_⟩⟩
    change job.attempts.getD 0 ≤ job.attemptsMade + 1 + fuel
    omega
  · have used : job.attempts.getD 1 ≤ job.attemptsMade + 1 := by
      cases h : job.attempts with
      | none => simp
      | some n =>
        rw [h] at more
        simpa using more
    obtain ⟨now, hview⟩ := handler_last env pid (x := ⟨setJob failedRun jobId x.state, x.turns⟩)
      (failedRun { job with state := .active }) (t := t) (r := r)
        ⟨idle, stored, unfinished⟩ left.target rfl used err
    refine ⟨_, ⟨(congrArg View.openTxs hview).trans idle, congrArg View.rows hview,
      fun n out => ?_, rfl⟩,
      .inl ⟨failedRun { job with state := .active }, ?_, .inr (if_neg more)⟩⟩
    · rw [← others n out, ← jobIn_view (r := r), hview]
      rfl
    · rw [← jobIn_view (r := r), hview]
      exact failed

/-- One run of a waiting job: the row has advanced, and the job is over or waits with one
attempt less. -/
theorem attempt_advances {fuel : Nat} (idle : (view r x.state).openTxs = [])
    (stored : (view r x.state).rows = [t]) (found : findJob jobId x.state = some job)
    (left : Left r (fuel + 1) job) :
    ∃ t', Advanced r [jobId] x.state (attempt env pid jobId job.data (taken jobId x)).state t t' ∧
      (Over jobId (attempt env pid jobId job.data (taken jobId x)).state ∨
        0 < fuel ∧
        ∃ job', findJob jobId (attempt env pid jobId job.data (taken jobId x)).state = some job' ∧
          Left r fuel job') := by
  have queued := findJob_taken (r := r) found
  by_cases success : t.status = .success
  · obtain ⟨y, run, hview⟩ := success_served env pid (x := taken jobId x) stored success left.target
    obtain ⟨ended, hview', others⟩ := attempt_returned env pid (hview ▸ queued) run
    have unchanged : view r (attempt env pid jobId job.data (taken jobId x)).state =
        { view r x.state with
        jobs := (view r (attempt env pid jobId job.data (taken jobId x)).state).jobs } := by
      rw [hview', hview]
      rfl
    refine ⟨t, ⟨?_, ?_, fun n out => ?_, fun _ => unchanged, fun h => (nomatch h),
      fun _ h => absurd success h⟩,
      .inl ended⟩
    · rw [unchanged]
      exact idle
    · rw [unchanged]
      exact stored
    · have other : n ≠ jobId := by simpa using out
      rw [others n other, ← taken_other other x, ← jobIn_view (r := r), hview]
      rfl
  · obtain ⟨out, y, run, attempted⟩ := attempt_served env pid (x := taken jobId x)
      ⟨idle, stored, success⟩ left.target
    have kept : ∀ n, jobIn n (view r y.state) = jobIn n (view r (taken jobId x).state) := by
      intro n
      unfold jobIn
      rw [attempted.jobs]
    have queued' := (kept jobId).trans queued
    have others : ∀ n, n ≠ jobId → findJob n y.state = findJob n x.state := by
      intro n other
      rw [← taken_other other x]
      exact kept n
    obtain ⟨idle', t', stored', more, thrown⟩ := attempted_advances attempted
    cases out with
    | ok reply =>
      obtain ⟨ended, hview, rest⟩ := attempt_returned env pid queued' run
      refine ⟨t', ⟨?_, ?_, fun n out => ?_, fun h => absurd h success, fun h => (nomatch h),
        fun _ _ => more⟩,
        .inl ended⟩
      · rw [hview]
        exact idle'.trans idle
      · rw [hview]
        exact stored'
      · have other : n ≠ jobId := by simpa using out
        rw [rest n other, others n other]
    | error err =>
      rw [attempt_threw env pid queued' run]
      obtain ⟨t'', handled, ended⟩ :=
        handler_advances env pid err (idle'.trans idle) stored' (thrown err rfl)
        queued' left
      refine ⟨t'', ⟨handled.idle, handled.stored, fun n out => ?_, fun h => absurd h success,
        fun h => (nomatch h), fun _ _ => ?_⟩, ended⟩
      · have other : n ≠ jobId := by simpa using out
        rw [handled.others n out, others n other]
      · rw [handled.attempts]
        exact more

/-- A waiting job to its end. -/
theorem runJob_advances (fuel : Nat) (positive : 0 < fuel) (idle : (view r x.state).openTxs = [])
    (stored : (view r x.state).rows = [t]) (found : findJob jobId x.state = some job)
    (left : Left r fuel job) :
    ∃ t', Advanced r [jobId] x.state (runJob env pid jobId fuel x).2.state t t' ∧
      Over jobId (runJob env pid jobId fuel x).2.state := by
  induction fuel generalizing x t job with
  | zero => omega
  | succ fuel ih =>
    have took : takeJob jobId x.state =
        some (setJob (fun j => { j with state := .active }) jobId x.state,
          .process jobId job.data) := by
      unfold takeJob
      rw [found]
      exact if_pos left.waiting
    have step : (runJob env pid jobId (fuel + 1) x).2 =
        (runJob env pid jobId fuel (attempt env pid jobId job.data (taken jobId x))).2 := by
      simp only [runJob, took]
      rfl
    rw [step]
    obtain ⟨t₁, first, ended | ⟨again, job₁, found₁, left₁⟩⟩ :=
      attempt_advances env pid idle stored found left
    · rw [runJob_over env pid ended]
      exact ⟨t₁, first, ended⟩
    · obtain ⟨t₂, rest, ended⟩ := ih again first.idle first.stored found₁ left₁
      exact ⟨t₂, (first.trans stored rest).within (by simp) (by simp), ended⟩

theorem runJobs_advances (fuel : Nat) (positive : 0 < fuel) (ids : List Nat)
    (idle : (view r x.state).openTxs = []) (stored : (view r x.state).rows = [t])
    (distinct : ids.Nodup)
    (left : ∀ n ∈ ids, ∃ job, findJob n x.state = some job ∧ Left r fuel job) :
    ∃ t', Advanced r ids x.state (runJobs env pid fuel ids x).state t t' ∧
      ∀ n ∈ ids, Over n (runJobs env pid fuel ids x).state := by
  induction ids generalizing x t with
  | nil => exact ⟨t, advanced_refl idle stored, fun n hn => (nomatch hn)⟩
  | cons first rest ih =>
    obtain ⟨fresh, distinct⟩ := List.nodup_cons.mp distinct
    obtain ⟨job, found, able⟩ := left first List.mem_cons_self
    obtain ⟨t₁, one, ended⟩ := runJob_advances env pid fuel positive idle stored found able
    obtain ⟨t₂, others, overs⟩ := ih one.idle one.stored distinct
      (one.left_after fresh fun n hn => left n (List.mem_cons_of_mem _ hn))
    refine ⟨t₂, one.trans stored others, fun n hn => ?_⟩
    rcases List.mem_cons.mp hn with rfl | hn
    · obtain ⟨ended, found, state⟩ := ended
      exact ⟨ended, (others.others n fresh).trans found, state⟩
    · exact overs n hn

end Attempt

/-- The first job and its duplicates, each run to its end: the duplicates change nothing
exactly when there are none, or when they find the row SUCCESS. -/
theorem duplicates_absorbed_iff (env : Env) (pid fuel r first : Nat) (rest : List Nat) (x : Solo)
    (positive : 0 < fuel) (start : Queued r fuel (first :: rest) x.state) :
    (∀ n ∈ first :: rest, Over n (runJobs env pid fuel (first :: rest) x).state) ∧
    (Same (view r (runJobs env pid fuel [first] x).state)
        (view r (runJobs env pid fuel (first :: rest) x).state) ↔
      rest = [] ∨ ∀ row ∈ (view r (runJobs env pid fuel [first] x).state).rows,
      row.status = .success) := by
  obtain ⟨row, stored⟩ := start.stored
  constructor
  · obtain ⟨-, -, ended⟩ := runJobs_advances env pid fuel positive (first :: rest) start.idle stored
      start.distinct start.left
    exact ended
  obtain ⟨fresh, distinct⟩ := List.nodup_cons.mp start.distinct
  obtain ⟨job, found, able⟩ := start.left first List.mem_cons_self
  obtain ⟨t₁, one, -⟩ := runJob_advances env pid fuel positive start.idle stored found able
  obtain ⟨t₂, others, -⟩ := runJobs_advances env pid fuel positive rest one.idle one.stored distinct
    (one.left_after fresh fun n hn => start.left n (List.mem_cons_of_mem _ hn))
  have before : (view r (runJobs env pid fuel [first] x).state).rows = [t₁] := one.stored
  have after : (view r (runJobs env pid fuel (first :: rest) x).state).rows = [t₂] := others.stored
  constructor
  · intro same
    by_cases none : rest = []
    · exact .inl none
    · refine .inr fun row hrow => ?_
      rw [before, List.mem_singleton] at hrow
      subst hrow
      by_contra fails
      have more := others.counted none fails
      have rows := same.rows
      rw [before, after, List.singleton_inj] at rows
      rw [rows] at more
      exact absurd more (Nat.lt_irrefl _)
  · rintro (rfl | success)
    · exact ⟨rfl, rfl, .refl _, .refl _, .refl _⟩
    · exact others.same (success t₁ (by rw [before]; exact List.mem_singleton_self t₁))

/-- The sample upload with a job of the relay and one of the sweep; the content of the
source file is given. -/
def sampleTwice (content : List UInt8) : Solo where
  state := { sampleState with
    db := { sampleState.db with transfers := [sampleRow] }
    queues := { sampleState.queues with jobs := [⟨0, ⟨0, []⟩, 0, some 0, .waiting⟩,
      ⟨1, ⟨0, []⟩, 0, some 3, .waiting⟩] }
    files := [(sampleFile, .file content)] }
  turns _ := {}

theorem sampleTwice_queued (content : List UInt8) :
    Queued 0 3 [0, 1] (sampleTwice content).state := by
  refine ⟨rfl, ⟨sampleRow, rfl⟩, by decide, fun n hn => ?_⟩
  rcases List.mem_cons.mp hn with rfl | hn
  · exact ⟨_, rfl, rfl, rfl, by decide⟩
  · rw [List.mem_singleton.mp hn]
    exact ⟨_, rfl, rfl, rfl, by decide⟩

theorem duplicates_absorbed_sample :
    Same (view 0 (runJobs sampleEnv 1 3 [0] (sampleTwice [97])).state)
      (view 0 (runJobs sampleEnv 1 3 [0, 1] (sampleTwice [97])).state) := by
  refine (duplicates_absorbed_iff sampleEnv 1 3 0 0 [1] (sampleTwice [97]) (by decide)
    (sampleTwice_queued [97])).2.mpr (.inr ?_)
  have statuses : (view 0 (runJobs sampleEnv 1 3 [0] (sampleTwice [97])).state).rows.all
      (fun row => row.status = .success) = true := by decide +kernel
  simpa using statuses

/-- An empty file fails the row for good; the duplicate attempts the row once more and
leaves a second dead letter. -/
theorem duplicate_of_failed_runs_again : Queued 0 3 [0, 1] (sampleTwice []).state ∧
    (view 0 (runJobs sampleEnv 1 3 [0] (sampleTwice [])).state).deadLetters.length = 1 ∧
    (view 0 (runJobs sampleEnv 1 3 [0, 1] (sampleTwice [])).state).deadLetters.length = 2 ∧
    ¬ Same (view 0 (runJobs sampleEnv 1 3 [0] (sampleTwice [])).state)
      (view 0 (runJobs sampleEnv 1 3 [0, 1] (sampleTwice [])).state) := by
  have once :
      (view 0 (runJobs sampleEnv 1 3 [0] (sampleTwice [])).state).deadLetters.length = 1 := by
    decide +kernel
  have twice :
      (view 0 (runJobs sampleEnv 1 3 [0, 1] (sampleTwice [])).state).deadLetters.length = 2 := by
    decide +kernel
  refine ⟨sampleTwice_queued [], once, twice, fun same => ?_⟩
  have := same.deadLetters.length_eq
  omega

end DuplicateJobs
