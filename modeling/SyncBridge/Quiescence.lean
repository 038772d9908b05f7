import SyncBridge.DuplicateJobs
import SyncBridge.RestingRuns
import Mathlib.Algebra.Order.BigOperators.Group.List
import Mathlib.Algebra.Order.Group.Nat

/-!
# The system comes to rest

Whatever has happened before, the system can finish its work by itself. Every thread is
lost first; then the relay, the sweep and the workers take turns, and nobody helps them.
In each round a relay pass publishes the oldest events, a sweep goes over the oldest
stale rows, and the workers run every job that waits or was lost to its end. During an
upload any call may still be rejected, time passes and files change. After as many
rounds as the batches need, no event is left in the outbox, every job is over and every
row is SUCCESS or FAILED.
-/

namespace Quiescence

open AwaitPrograms ThreadPools Entities Database TableInvariants Calls Ingestion Worker Management
open Orchestrator Footprints SoloRuns JobOutcome AttemptBudget DuplicateJobs RestingRuns

/-- The row is SUCCESS or FAILED. -/
def terminal (t : FileTransfer) : Bool := t.status == .success || t.status == .failed

/-- The queue is done with the job. -/
def closed (job : Job) : Bool := job.state == .completed || job.state == .failed

/-- A job whose worker was lost waits again. -/
def reclaim (jobId : Nat) (x : Rest) : Rest :=
  match outside (.stalled jobId) x.solo.state with
  | none => x
  | some s => ⟨⟨s, x.solo.turns⟩, x.nextPid⟩

/-- More runs than the queue gives to the job. -/
def runsOf (jobId : Nat) (s : State) : Nat :=
  match findJob jobId s with
  | none => 0
  | some job => job.attempts.getD 0 + 1

/-- The workers run the job as often as it waits. -/
def work (env : Env) (x : Rest) (jobId : Nat) : Rest :=
  (Rest.request env (.takeJob jobId))^[runsOf jobId x.solo.state] (reclaim jobId x)

/-- The jobs of the queue, one after another. -/
def workAll (env : Env) (x : Rest) : Rest :=
  (x.solo.state.queues.jobs.map (·.id)).foldl (work env) x

def wait (ms : Nat) (x : Rest) : Rest :=
  ⟨⟨{ x.solo.state with host := { x.solo.state.host with now := x.solo.state.host.now + ms } },
    x.solo.turns⟩,
    x.nextPid⟩

/-- Long enough for every row to be stale. -/
def patience (env : Env) (s : State) : Nat :=
  env.config.recoveryStaleMs + 1 + (s.db.transfers.map (·.updatedAt)).sum

/-- A replica that has just been started, with its flags unset. -/
def newReplica (flags : List Nat) : Nat := flags.sum + 1

/-- A pass of the relay, a pass of the sweep once the rows are stale, and all the jobs. -/
def round (env : Env) (x : Rest) : Rest :=
  let x := x.request env (.relayTick (newReplica x.solo.state.host.relaying))
  let x := wait (patience env x.solo.state) x
  let x := x.request env (.sweepTick (newReplica x.solo.state.host.sweeping))
  workAll env x

/-! ## One job -/

/-- Calls that change no row but this one, no event and no transfer job. -/
def LocalCall (r : Nat) : Op → Prop
  | .db (.update id _) => id = r
  | .db (.findOne _ _) => True
  | .db (.findUsage _) => True
  | .db (.recordUsage _ _) => True
  | .db (.findSubscriptions _) => True
  | .db _ => False
  | .queue (.addTransfer _ _) => False
  | _ => True

/-- Only this row differs, and no event and no job. -/
structure Local (r : Nat) (s s' : State) : Prop where
  numbers : s'.db.transfers.map (·.id) = s.db.transfers.map (·.id)
  rows : ∀ t, t.id ≠ r → (t ∈ s'.db.transfers ↔ t ∈ s.db.transfers)
  outbox : s'.db.outbox = s.db.outbox
  jobs : s'.queues.jobs = s.queues.jobs

section Frames
variable {env : Env} {pid r : Nat} {s s' s'' : State}

theorem Local.refl (s : State) : Local r s s := ⟨rfl, fun _ _ => Iff.rfl, rfl, rfl⟩

theorem Local.trans (h : Local r s s') (h' : Local r s' s'') : Local r s s'' :=
  ⟨h'.numbers.trans h.numbers, fun t other => (h'.rows t other).trans (h.rows t other),
    h'.outbox.trans h.outbox,
    h'.jobs.trans h.jobs⟩

theorem mem_patchRow_other {now : Nat} {p : Patch} {rows : List FileTransfer} {t : FileTransfer}
    (other : t.id ≠ r) :
    t ∈ patchRow none now r p rows ↔ t ∈ rows := by
  constructor
  · intro ht
    rcases mem_patchRow ht with ht | ⟨t₀, -, same, rfl⟩
    · exact ht
    · exact absurd ((Patch.apply_id now t₀ p).trans same) other
  · intro ht
    refine List.mem_map.mpr ⟨t, ht, if_neg fun both => other both.1⟩

theorem patchRow_numbers (now : Nat) (p : Patch) (rows : List FileTransfer) :
    (patchRow none now r p rows).map (·.id) = rows.map (·.id) := by
  unfold patchRow
  rw [List.map_map]
  refine List.map_congr_left fun t _ => ?_
  simp only [Function.comp_apply]
  split
  · exact Patch.apply_id now t p
  · rfl

theorem exec_local {op : Op} {c : Choice} {a : Except Err op.Ans} (call : LocalCall r op)
    (h : exec env pid op c s = some (a, s')) : Local r s s' := by
  cases exec_change h with
  | db dbOp a db' ran =>
    cases dbOp with
    | update id p =>
      obtain rfl : id = r := call
      simp only [Db.exec, Db.updateRow] at ran
      split at ran
      · cases ran
      · cases ran
        exact ⟨patchRow_numbers _ p _, fun t other => mem_patchRow_other other, rfl, rfl⟩
    | findOne mgr id => cases ran; exact .refl _
    | findUsage tenantId => cases ran; exact .refl _
    | findSubscriptions tenantId => cases ran; exact .refl _
    | recordUsage tenantId bytes => cases ran; exact ⟨rfl, fun _ _ => Iff.rfl, rfl, rfl⟩
    | _ => exact call.elim
  | queue q =>
    cases q with
    | addTransfer data attempts => exact call.elim
    | _ => exact ⟨rfl, fun _ _ => Iff.rfl, rfl, rfl⟩
  | _ => exact ⟨rfl, fun _ _ => Iff.rfl, rfl, rfl⟩

end Frames

section Programs
variable {env : Env} {pid r : Nat} {R : Err → Prop}

theorem publishCall_local {op : Op} (call : PublishCall op) : LocalCall r op := by
  unfold PublishCall at call
  split at call <;> trivial

theorem prepareCall_local {op : Op} (call : PrepareCall op) : LocalCall r op := by
  unfold PrepareCall at call
  split at call <;> trivial

theorem publish_local (t : FileTransfer) (type : EventType) (data : EventData) :
    Within (LocalCall r) R AnyErr (publishTransferEvent env t type data) :=
  (publish_within t type data).mono (fun _ => publishCall_local) fun _ _ => trivial

/-- An attempt, once it has read its row. -/
theorem attempt_local (t : FileTransfer) : Within (LocalCall t.id) R AnyErr
    ((db (.update t.id .markProcessing)).bind fun _ =>
      Prog.tryCatch ((prepareAndUpload env t).bind fun u => complete env t u) (reject env t)) := by
  have any : ∀ e, R e → AnyErr e := fun _ _ => trivial
  refine within_bind (within_call rfl any) fun _ => within_tryCatch (F := AnyErr) ?_ fun e _ => ?_
  · refine within_bind ((prepare_within t).mono (fun _ => prepareCall_local) fun _ h => h)
      fun u => ?_
    exact within_bind (within_call rfl any) fun _ => within_bind (within_call trivial any) fun _ =>
      publish_local t _ _
  · unfold reject
    split
    · exact within_bind (within_call rfl any) fun _ => within_bind (publish_local t _ _) fun _ =>
        within_call trivial any
    · trivial

theorem onFailed_local (job : Job) (err : Err) :
    Within (LocalCall job.data.transferId) R AnyErr (onFailed env job err) := by
  have any : ∀ e, R e → AnyErr e := fun _ _ => trivial
  unfold onFailed
  split
  · exact within_pure ()
  refine within_bind (within_call rfl any) fun _ =>
    within_bind (within_call trivial any) fun found =>
    within_bind ?_ fun _ => within_call trivial any
  split
  · exact within_pure ()
  · exact publish_local _ _ _

theorem serve_local {x : Solo} {op : Op} {s : State} (h : Local r s x.state)
    (call : LocalCall r op) :
    Local r s (serve env pid preparing x op).2.state :=
  serve_keeps (I := Local r s) ⟨h.numbers, h.rows, h.outbox, h.jobs⟩ fun _ _ _ step =>
    have before : Local r s ((x.turns 0).before x.state) := ⟨h.numbers, h.rows, h.outbox, h.jobs⟩
    before.trans (exec_local call step)

theorem run_local {α : Type} {p : Async α} {E : Err → Prop}
    (calls : Within (LocalCall r) (fun _ => True) E p) (x : Solo) :
    Local r x.state (p.run (serve env pid preparing) x).2.state :=
  calls.run_keeps (I := fun y : Solo => Local r x.state y.state) (fun _ _ => serve_local) (.refl _)

/-- A worker's run changes no row but its own. -/
theorem runTransfer_local (env : Env) (pid : Nat) (data : TransferJobData) (x : Solo) :
    Local data.transferId x.state
      ((runTransfer env data).run (serve env pid preparing) x).2.state := by
  have first : Local data.transferId x.state
      (serve env pid preparing x (.db (.findOne .pool data.transferId))).2.state :=
        serve_local (.refl _) trivial
  generalize served : serve env pid preparing x (.db (.findOne .pool data.transferId)) =
    answer at first
  obtain ⟨a, y⟩ := answer
  cases a with
  | error e =>
    have run : (runTransfer env data).run (serve env pid preparing) x = (.error e, y) :=
      run_bind_error (run_call served)
    rw [run]
    exact first
  | ok found =>
    have run := run_bind_ok (run_call served) (f := fun found => match found with
      | none => return ()
      | some transfer => if transfer.status = .success then return () else do
          let _ ← db (.update transfer.id .markProcessing)
          Prog.tryCatch (do
            let uploaded ← prepareAndUpload env transfer
            complete env transfer uploaded) (reject env transfer))
    change (runTransfer env data).run (serve env pid preparing) x = _ at run
    rw [run]
    cases found with
    | none => exact first
    | some t =>
      obtain ⟨c, step⟩ := serve_ok served
      have number : t.id = data.transferId := (exec_sound step).answered _ rfl t rfl
      dsimp only
      split
      · exact first
      · refine first.trans ?_
        rw [← number]
        exact run_local (attempt_local t) y

end Programs

section Attempts
variable {env : Env} {pid r : Nat} {x : Solo}

/-- A row has its number alone. -/
theorem row_alone {s : State} (h : Consistent s.db) (r : Nat) :
    (view r s).rows = [] ∨ ∃ t, (view r s).rows = [t] := by
  have distinct : ((view r s).rows.map (·.id)).Nodup :=
    (distinct_rows h).sublist (List.filter_sublist.map _)
  have number : ∀ t ∈ (view r s).rows, t.id = r :=
    fun t ht => by simpa using (List.mem_filter.mp ht).2
  match rows : (view r s).rows with
  | [] => exact .inl rfl
  | [t] => exact .inr ⟨t, rfl⟩
  | t :: t' :: _ =>
    rw [rows] at distinct number
    have same : t.id = t'.id := (number t (by simp)).trans (number t' (by simp)).symm
    simp [same] at distinct

theorem terminal_of_view {s : State} {t : FileTransfer} (rows : (view r s).rows = [t])
    (final : terminal t = true) :
    ∀ t' ∈ s.db.transfers, t'.id = r → terminal t' = true := by
  intro t' ht' number
  have there : t' ∈ (view r s).rows := List.mem_filter.mpr ⟨ht', by simpa using number⟩
  rw [rows] at there
  rw [List.mem_singleton.mp there]
  exact final

/-- How a run of a job's code leaves the system. -/
structure Ended (r : Nat) (x : Solo) (out : Except Err Unit) (y : Solo) : Prop where
  idle : y.state.db.openTxs = []
  frame : Local r x.state y.state
  returned : out = .ok () → ∀ t ∈ y.state.db.transfers, t.id = r → terminal t = true
  threw : ∀ err, out = .error err → ∃ t, (view r y.state).rows = [t] ∧ t.status ≠ .success

theorem attempt_ended (env : Env) (pid : Nat) (consistent : Consistent x.state.db)
    (idle : x.state.db.openTxs = []) {data : TransferJobData} (target : data.transferId = r) :
    Ended r x ((runTransfer env data).run (serve env pid preparing) x).1
      ((runTransfer env data).run (serve env pid preparing) x).2 := by
  have frame := runTransfer_local env pid data x
  rw [target] at frame
  have calls : Within ProcessCall (fun _ => True) AnyErr (runTransfer env data) :=
    runTransfer_within data
  have still : ((runTransfer env data).run (serve env pid preparing) x).2.state.db.openTxs = [] :=
    calls.run_keeps (I := fun y : Solo => y.state.db.openTxs = [])
      (fun _ op h call => serve_stays_idle h
        (callOf_unbracketed (show Task.unbracketed (.process 0 data) = true from rfl) op call)) idle
  rcases row_alone consistent r with empty | ⟨t, one⟩
  · have gone : ∀ t ∈ x.state.db.transfers, t.id ≠ r := by
      intro t ht number
      have there : t ∈ (view r x.state).rows := List.mem_filter.mpr ⟨ht, by simpa using number⟩
      rw [empty] at there
      cases there
    have read : serve env pid preparing x (.db (.findOne .pool r)) =
        (.ok none, ⟨(x.turns 0).before x.state, fun n => x.turns (n + 1)⟩) := by
      refine serve_spared rfl ?_
      have absent : x.state.db.transfers.find? (fun t => t.id = r) = none :=
        List.find?_eq_none.mpr fun t ht => by simpa using gone t ht
      simp only [perform, Db.exec, Db.rows, before_db, absent]
      rfl
    have run : (runTransfer env data).run (serve env pid preparing) x =
        (.ok (), ⟨(x.turns 0).before x.state, fun n => x.turns (n + 1)⟩) := by
      unfold runTransfer
      rw [target]
      exact run_bind_ok (run_call read)
    rw [run] at frame still ⊢
    exact ⟨still, frame, fun _ t ht number => absurd number (gone t ht),
      fun _ thrown => by cases thrown⟩
  · by_cases success : t.status = .success
    · obtain ⟨y, run, same⟩ := success_served env pid one success target
      rw [run] at frame still ⊢
      refine ⟨still, frame, fun _ => terminal_of_view (same ▸ one) ?_,
        fun _ thrown => by cases thrown⟩
      unfold terminal
      rw [success]
      rfl
    · obtain ⟨out, y, run, attempted⟩ := attempt_served env pid ⟨idle, one, success⟩ target
      rw [run] at frame still ⊢
      generalize seen : view r y.state = v at attempted
      generalize outcomeOf env pid data x = o at attempted
      cases attempted with
      | success u now now' =>
        exact ⟨still, frame, fun _ => terminal_of_view (congrArg View.rows seen) rfl,
          fun _ thrown => by cases thrown⟩
      | permanent message now now' =>
        exact ⟨still, frame, fun _ => terminal_of_view (congrArg View.rows seen) rfl,
          fun _ thrown => by cases thrown⟩
      | transient err now =>
        refine ⟨still, frame, ?_, fun _ _ => ⟨_, congrArg View.rows seen, ?_⟩⟩
        · intro returned
          cases returned
        · intro success
          cases success

/-- The `failed` handler, and the row once no attempt is left. -/
theorem handler_ended (env : Env) (pid : Nat) (job : Job) (err : Err) {t : FileTransfer}
    (idle : x.state.db.openTxs = []) (one : (view r x.state).rows = [t])
    (unfinished : t.status ≠ .success) (target : job.data.transferId = r) :
    Local r x.state (runTask env pid (.onFailed job err) x).1.state ∧
      (job.attempts.getD 1 ≤ job.attemptsMade →
        ∀ t ∈ (runTask env pid (.onFailed job err) x).1.state.db.transfers, t.id = r →
        terminal t = true) := by
  constructor
  · have calls : Within (LocalCall r) (fun _ => True) AnyErr (code env (.onFailed job err)) := by
      rw [← target]
      exact within_bind (onFailed_local job err) fun _ => trivial
    exact run_local calls x
  · intro used
    obtain ⟨now, seen⟩ := handler_last env pid job ⟨idle, one, unfinished⟩ target rfl used err
    exact terminal_of_view (congrArg View.rows seen) rfl

end Attempts

/-- Only this row and this job differ, and no event. -/
structure Beside (r jobId : Nat) (s s' : State) : Prop where
  numbers : s'.db.transfers.map (·.id) = s.db.transfers.map (·.id)
  rows : ∀ t, t.id ≠ r → (t ∈ s'.db.transfers ↔ t ∈ s.db.transfers)
  outbox : s'.db.outbox = s.db.outbox
  listed : s'.queues.jobs.map (·.id) = s.queues.jobs.map (·.id)
  jobs : ∀ job, job.id ≠ jobId → (job ∈ s'.queues.jobs ↔ job ∈ s.queues.jobs)

section Jobs
variable {env : Env} {w₀ : SysWorld} {r jobId : Nat} {s s' s'' : State} {x : Rest} {job : Job}

theorem Beside.trans (h : Beside r jobId s s') (h' : Beside r jobId s' s'') :
    Beside r jobId s s'' :=
  ⟨h'.numbers.trans h.numbers, fun t other => (h'.rows t other).trans (h.rows t other),
    h'.outbox.trans h.outbox,
    h'.listed.trans h.listed, fun job other => (h'.jobs job other).trans (h.jobs job other)⟩

theorem Local.beside (h : Local r s s') : Beside r jobId s s' :=
  ⟨h.numbers, h.rows, h.outbox, congrArg _ h.jobs, fun job _ => by rw [h.jobs]⟩

theorem setJob_beside {f : Job → Job} (keeps : ∀ j, (f j).id = j.id) (s : State) :
    Beside r jobId s (setJob f jobId s) := by
  refine ⟨rfl, fun _ _ => Iff.rfl, rfl, ?_, fun job other => ⟨fun hj => ?_, fun hj => ?_⟩⟩
  · simp only [setJob, List.map_map]
    refine List.map_congr_left fun j _ => ?_
    simp only [Function.comp_apply]
    split
    · exact keeps j
    · rfl
  · obtain ⟨j, there, same⟩ := List.mem_map.mp hj
    split at same
    · rename_i number
      exact absurd (same ▸ (keeps j).trans number) other
    · exact same ▸ there
  · exact List.mem_map.mpr ⟨job, hj, if_neg other⟩

theorem findJob_self {f : Job → Job} (keeps : ∀ j, (f j).id = j.id)
    (found : findJob jobId s = some job) :
    findJob jobId (setJob f jobId s) = some (f job) := by
  rw [← jobIn_view (r := 0)]
  exact jobIn_setJob f keeps found

/-- The handler and the queue agree on whether attempts are left. -/
theorem failedRun_waits (job : Job) (more : job.attemptsMade + 1 < job.attempts.getD 0) :
    (failedRun job).attemptsMade < (failedRun job).attempts.getD 1 := by
  change job.attemptsMade + 1 < job.attempts.getD 1
  cases attempts : job.attempts with
  | none => simp [attempts] at more
  | some n => simpa [attempts] using more

theorem failedRun_used (job : Job) (last : ¬ job.attemptsMade + 1 < job.attempts.getD 0) :
    (failedRun job).attempts.getD 1 ≤ (failedRun job).attemptsMade := by
  change job.attempts.getD 1 ≤ job.attemptsMade + 1
  cases attempts : job.attempts with
  | none => simp
  | some n =>
    rw [attempts] at last
    simpa using last

/-- A taken job whose run returns is completed. -/
theorem take_returned {data : TransferJobData} {y : Solo}
    (entered : enter (.takeJob jobId) x.solo.state = some (s, .process jobId data))
    (run : (runTransfer env data).run (serve env x.nextPid preparing)
      ⟨s, x.solo.turns⟩ = (.ok (), y)) :
    x.request env (.takeJob jobId) =
      ⟨⟨setJob (fun j => { j with state := .completed }) jobId y.state, y.turns⟩,
        x.nextPid + 1⟩ := by
  have code_run :
      (code env (.process jobId data)).run (serve env x.nextPid preparing) ⟨s, x.solo.turns⟩ =
      (.ok .finished, y) := run_bind_ok run
  have task : runTask env x.nextPid (.process jobId data) ⟨s, x.solo.turns⟩ =
      (⟨setJob (fun j => { j with state := .completed }) jobId y.state, y.turns⟩, []) := by
    rw [runTask_eq env x.nextPid code_run]
    rfl
  unfold Rest.request
  rw [entered]
  simp only [Rest.serve, task, List.foldl_nil]

/-- One whose run throws is counted, and its handler is run. -/
theorem take_threw {data : TransferJobData} {y : Solo} {err : Err}
    (entered : enter (.takeJob jobId) x.solo.state = some (s, .process jobId data))
    (run : (runTransfer env data).run (serve env x.nextPid preparing) ⟨s, x.solo.turns⟩ =
      (.error err, y))
    (queued : findJob jobId y.state = some job) :
    x.request env (.takeJob jobId) = ⟨(runTask env (x.nextPid + 1) (.onFailed (failedRun job) err)
      ⟨setJob failedRun jobId y.state, y.turns⟩).1, x.nextPid + 1 + 1⟩ := by
  have code_run :
      (code env (.process jobId data)).run (serve env x.nextPid preparing) ⟨s, x.solo.turns⟩ =
      (.error err, y) := run_bind_error run
  have task : runTask env x.nextPid (.process jobId data) ⟨s, x.solo.turns⟩ =
      (⟨setJob failedRun jobId y.state, y.turns⟩, [.onFailed (failedRun job) err]) := by
    rw [runTask_eq env x.nextPid code_run]
    simp only [finish, queued]
  unfold Rest.request
  rw [entered]
  simp only [Rest.serve, task, List.foldl_cons, List.foldl_nil]

/-- A job after one of its runs: it is over and its row is final, or it waits for the
next of its attempts. -/
def Stepped (r : Nat) (job job' : Job) (s : State) : Prop :=
  (closed job' = true ∧ ∀ t ∈ s.db.transfers, t.id = r → terminal t = true) ∨
    job'.state = .waiting ∧ job'.data = job.data ∧ job'.attempts = job.attempts ∧
      job'.attemptsMade = job.attemptsMade + 1 ∧ job'.attemptsMade < job.attempts.getD 0

theorem job_step (h : Resting env w₀ x) (found : findJob jobId x.solo.state = some job)
    (waits : job.state = .waiting) :
    Beside job.data.transferId jobId x.solo.state (x.request env (.takeJob jobId)).solo.state ∧
      ∃ job', findJob jobId (x.request env (.takeJob jobId)).solo.state = some job' ∧
        Stepped job.data.transferId job job' (x.request env (.takeJob jobId)).solo.state := by
  let active : Job := { job with state := .active }
  let taken : Solo :=
    ⟨setJob (fun j => { j with state := .active }) jobId x.solo.state, x.solo.turns⟩
  have entered : enter (.takeJob jobId) x.solo.state =
      some (taken.state, .process jobId job.data) := by
    simp only [enter, takeJob, found, waits, if_true]
    rfl
  have ended := attempt_ended env x.nextPid (x := taken) h.consistent h.idle
    (rfl : job.data.transferId = job.data.transferId)
  generalize run : (runTransfer env job.data).run (serve env x.nextPid preparing) taken =
    result at ended
  obtain ⟨out, y⟩ := result
  have queued : findJob jobId y.state = some active := by
    unfold findJob
    rw [ended.frame.jobs]
    exact findJob_self (f := fun j => { j with state := .active }) (fun _ => rfl) found
  have before : Beside job.data.transferId jobId x.solo.state y.state :=
    (setJob_beside (f := fun j => { j with state := .active })
      (fun _ => rfl) _).trans ended.frame.beside
  cases out with
  | ok value =>
    rw [take_returned entered run]
    refine ⟨before.trans ?_, { active with state := .completed }, ?_, ?_⟩
    · exact setJob_beside (f := fun j => { j with state := .completed }) (fun _ => rfl) y.state
    · exact findJob_self (f := fun j => { j with state := .completed }) (fun _ => rfl) queued
    · exact .inl ⟨rfl, ended.returned rfl⟩
  | error err =>
    obtain ⟨t, one, unfinished⟩ := ended.threw err rfl
    rw [take_threw entered run queued]
    have counted := before.trans (setJob_beside (f := failedRun) (fun _ => rfl) y.state)
    have failed := findJob_self (f := failedRun) (fun _ => rfl) queued
    by_cases more : job.attemptsMade + 1 < job.attempts.getD 0
    · have idle : (runTask env (x.nextPid + 1) (.onFailed (failedRun active) err)
          ⟨setJob failedRun jobId y.state, y.turns⟩).1 =
            ⟨setJob failedRun jobId y.state, y.turns⟩ :=
        handler_early env (x.nextPid + 1) (failedRun active) rfl (failedRun_waits active more) err
      rw [idle]
      exact ⟨counted, failedRun active, failed, .inr ⟨if_pos more, rfl, rfl, rfl, more⟩⟩
    · obtain ⟨frame, final⟩ := handler_ended env (x.nextPid + 1) (failedRun active) err
        (x := ⟨setJob failedRun jobId y.state, y.turns⟩) ended.idle one unfinished rfl
      refine ⟨counted.trans frame.beside, failedRun active, ?_,
        .inl ⟨?_, final (failedRun_used active more)⟩⟩
      · unfold findJob
        rw [frame.jobs]
        exact failed
      · have state : (failedRun active).state = .failed := if_neg more
        unfold closed
        rw [state]
        rfl

end Jobs

/-! ## All jobs -/

/-- These jobs were run: they are over, and the rows of those that were not are final. -/
structure Served (ids : List Nat) (s s' : State) : Prop where
  numbers : s'.db.transfers.map (·.id) = s.db.transfers.map (·.id)
  outbox : s'.db.outbox = s.db.outbox
  listed : s'.queues.jobs.map (·.id) = s.queues.jobs.map (·.id)
  others : ∀ job, job.id ∉ ids → (job ∈ s'.queues.jobs ↔ job ∈ s.queues.jobs)
  done : ∀ job ∈ s'.queues.jobs, job.id ∈ ids → closed job = true
  rows : ∀ t ∈ s'.db.transfers, terminal t = false → t ∈ s.db.transfers ∧
    ∀ job ∈ s.queues.jobs, job.id ∈ ids → closed job = false → job.data.transferId ≠ t.id

section Queue
variable {env : Env} {w₀ : SysWorld} {jobId : Nat} {s s' s'' : State} {x : Rest} {job : Job}

/-- Nothing has to be done for jobs that are over. -/
theorem served_closed {ids : List Nat}
    (h : ∀ job ∈ s.queues.jobs, job.id ∈ ids → closed job = true) :
    Served ids s s := by
  refine ⟨rfl, rfl, rfl, fun _ _ => Iff.rfl, h, fun t ht _ => ⟨ht, fun job hjob hid opened => ?_⟩⟩
  rw [h job hjob hid] at opened
  cases opened

theorem Served.trans {ids ids' : List Nat} (h : Served ids s s') (h' : Served ids' s' s'')
    (apart : ∀ n ∈ ids', n ∉ ids) : Served (ids ++ ids') s s'' where
  numbers := h'.numbers.trans h.numbers
  outbox := h'.outbox.trans h.outbox
  listed := h'.listed.trans h.listed
  others job out := by
    have left : job.id ∉ ids := fun hn => out (List.mem_append_left _ hn)
    have right : job.id ∉ ids' := fun hn => out (List.mem_append_right _ hn)
    exact (h'.others job right).trans (h.others job left)
  done job hjob hid := by
    by_cases second : job.id ∈ ids'
    · exact h'.done job hjob second
    · have first : job.id ∈ ids := (List.mem_append.mp hid).resolve_right second
      exact h.done job ((h'.others job second).mp hjob) first
  rows t ht unfinished := by
    obtain ⟨ht', clear'⟩ := h'.rows t ht unfinished
    obtain ⟨ht₀, clear⟩ := h.rows t ht' unfinished
    refine ⟨ht₀, fun job hjob hid open' => ?_⟩
    rcases List.mem_append.mp hid with first | second
    · exact clear job hjob first open'
    · exact clear' job ((h.others job (apart _ second)).mpr hjob) second open'

/-- One job is over after its runs, and its row is final. -/
theorem Beside.served {job' : Job} (h : Beside job.data.transferId jobId s s') (listed : Listed s)
    (listed' : Listed s') (found : findJob jobId s = some job)
    (found' : findJob jobId s' = some job') (done : closed job' = true)
    (final : ∀ t ∈ s'.db.transfers, t.id = job.data.transferId → terminal t = true) :
    Served [jobId] s s' where
  numbers := h.numbers
  outbox := h.outbox
  listed := h.listed
  others j out := h.jobs j (by simpa using out)
  done j hj hid := by
    rw [RecoverySweep.job_unique listed' found' hj (List.mem_singleton.mp hid)]
    exact done
  rows t ht unfinished := by
    have other : t.id ≠ job.data.transferId := fun same => by
      rw [final t ht same] at unfinished
      cases unfinished
    refine ⟨(h.rows t other).mp ht, fun j hj hid _ same => ?_⟩
    rw [RecoverySweep.job_unique listed found hj (List.mem_singleton.mp hid)] at same
    exact other same.symm

theorem requests_reach (h : Resting env w₀ x) {q : Request} (own : Request.own q = true) (n : Nat) :
    Reach (machine env) Unaided x.world ((Rest.request env q)^[n] x).world := by
  induction n generalizing x with
  | zero => exact .start
  | succ n ih => exact (request_reach env own h.idle).trans (ih (h.request own))

/-- A job that is not waiting is not handed out. -/
theorem request_refused
    (refused : ∀ job, findJob jobId x.solo.state = some job → job.state ≠ .waiting) :
    x.request env (.takeJob jobId) = x := by
  have none : enter (.takeJob jobId) x.solo.state = none := by
    simp only [enter, takeJob]
    split
    · rfl
    · rename_i job found
      exact if_neg (refused job found)
  unfold Rest.request
  rw [none]

/-- The runs of a waiting job, one after another. -/
theorem runs_served (n : Nat) (h : Resting env w₀ x) (found : findJob jobId x.solo.state = some job)
    (waits : job.state = .waiting) (enough : job.attempts.getD 0 ≤ job.attemptsMade + n)
    (some : 0 < n) :
    Beside job.data.transferId jobId x.solo.state
      ((Rest.request env (.takeJob jobId))^[n] x).solo.state ∧
      ∃ job', findJob jobId ((Rest.request env (.takeJob jobId))^[n] x).solo.state = .some job' ∧
      closed job' = true ∧
        ∀ t ∈ ((Rest.request env (.takeJob jobId))^[n] x).solo.state.db.transfers,
          t.id = job.data.transferId → terminal t = true := by
  induction n generalizing x job with
  | zero => omega
  | succ n ih =>
    obtain ⟨beside, job', found', stepped⟩ := job_step h found waits
    rw [Function.iterate_succ_apply]
    rcases stepped with ⟨done, final⟩ | ⟨waits', data, attempts, made, left⟩
    · have still : x.request env (.takeJob jobId) = (Rest.request env (.takeJob jobId))^[n]
          (x.request env (.takeJob jobId)) := by
        refine (Function.iterate_fixed (request_refused fun other hother => ?_) n).symm
        rw [found'] at hother
        cases hother
        intro waiting
        simp [closed, waiting] at done
      rw [← still]
      exact ⟨beside, job', found', done, final⟩
    · obtain ⟨later, job'', found'', done, final⟩ :=
        ih (h.request (q := .takeJob jobId) rfl) found' waits'
        (by rw [attempts, made]; omega) (by omega)
      rw [data] at later final
      exact ⟨beside.trans later, job'', found'', done, final⟩

theorem reclaim_reach (env : Env) (jobId : Nat) (x : Rest) :
    Reach (machine env) Unaided x.world (reclaim jobId x).world := by
  unfold reclaim
  split
  · exact .start
  · rename_i s happened
    refine .step .start (a := .outside (.stalled jobId)) trivial ?_
    simp only [Machine.step, machine, Rest.world, happened]

/-- A job that is reclaimed is over or waits. -/
theorem reclaim_found (found : findJob jobId x.solo.state = some job) :
    (reclaim jobId x = x ∧ closed job = true) ∨
    ∃ job', findJob jobId (reclaim jobId x).solo.state = some job' ∧ job'.state = .waiting ∧
    job'.data = job.data ∧
      job'.attempts = job.attempts ∧
      Beside job.data.transferId jobId x.solo.state (reclaim jobId x).solo.state := by
  have same : job.state ≠ .active → reclaim jobId x = x := fun idle => by
    simp only [reclaim, outside, found, if_neg idle]
  cases state : job.state with
  | waiting =>
    right
    rw [same (by rw [state]; decide)]
    exact ⟨job, found, state, rfl, rfl, (Local.refl _).beside⟩
  | active =>
    right
    have lost : reclaim jobId x =
        ⟨⟨setJob (fun j => { j with state := .waiting }) jobId x.solo.state, x.solo.turns⟩,
          x.nextPid⟩ := by
      simp only [reclaim, outside, found, state, if_true]
    rw [lost]
    exact ⟨_, findJob_self (f := fun j => { j with state := .waiting }) (fun _ => rfl) found,
      rfl, rfl, rfl,
      setJob_beside (f := fun j => { j with state := .waiting }) (fun _ => rfl) _⟩
  | completed => exact .inl ⟨same (by rw [state]; decide), by rw [closed, state]; rfl⟩
  | failed => exact .inl ⟨same (by rw [state]; decide), by rw [closed, state]; rfl⟩

/-- A job is worked on until it is over. -/
theorem work_served (h : Resting env w₀ x) (jobId : Nat) :
    Reach (machine env) Unaided x.world (work env x jobId).world ∧
      Served [jobId] x.solo.state (work env x jobId).solo.state := by
  have lost := reclaim_reach env jobId x
  have resting := h.onward lost
  have path :=
    lost.trans (requests_reach resting (q := .takeJob jobId) rfl (runsOf jobId x.solo.state))
  refine ⟨path, ?_⟩
  cases found : findJob jobId x.solo.state with
  | none =>
    have same : work env x jobId = x := by
      simp only [work, runsOf, found, reclaim, outside, Function.iterate_zero, id_eq]
    rw [same]
    refine served_closed fun job hjob hid => ?_
    exact absurd (List.find?_eq_none.mp found job hjob) (by simpa using hid)
  | some job =>
    have runs : runsOf jobId x.solo.state = job.attempts.getD 0 + 1 := by
      simp only [runsOf, found]
    rcases reclaim_found found with ⟨same, done⟩ | ⟨job', found', waits, data, attempts, first⟩
    · have unmoved : work env x jobId = x := by
        rw [work, same]
        refine Function.iterate_fixed (request_refused fun other hother waits => ?_) _
        rw [found] at hother
        cases hother
        simp [closed, waits] at done
      rw [unmoved]
      refine served_closed fun j hj hid => ?_
      rw [RecoverySweep.job_unique h.listed found hj (List.mem_singleton.mp hid)]
      exact done
    · obtain ⟨beside, job'', found'', done, final⟩ :=
        runs_served (job.attempts.getD 0 + 1) resting found' waits
        (by rw [attempts]; omega) (by omega)
      rw [data] at beside final
      have listed : Listed (work env x jobId).solo.state := (h.onward path).listed
      rw [work, runs] at listed ⊢
      exact (first.trans beside).served h.listed listed found found'' done final

theorem works_served (ids : List Nat) (distinct : ids.Nodup) (h : Resting env w₀ x) :
    Reach (machine env) Unaided x.world (ids.foldl (work env) x).world ∧
      Served ids x.solo.state (ids.foldl (work env) x).solo.state := by
  induction ids generalizing x with
  | nil => exact ⟨.start, served_closed fun _ _ none => by cases none⟩
  | cons jobId ids ih =>
    obtain ⟨fresh, distinct⟩ := List.nodup_cons.mp distinct
    obtain ⟨path, served⟩ := work_served h jobId
    obtain ⟨path', served'⟩ := ih distinct (h.onward path)
    refine ⟨path.trans path', served.trans served' fun n hn first => ?_⟩
    rw [List.mem_singleton.mp first] at hn
    exact fresh hn

/-- After the jobs are worked on, all are over; a row that is not final had no job. -/
theorem workAll_served (h : Resting env w₀ x) :
    Reach (machine env) Unaided x.world (workAll env x).world ∧
      Served (x.solo.state.queues.jobs.map (·.id)) x.solo.state (workAll env x).solo.state :=
  works_served _ h.listed.distinct h

end Queue

/-! ## A pass of the relay -/

/-- Events that were not published yet. -/
def unsent (s : State) : List OutboxEvent := s.db.outbox.filter (·.status == .pending)

section Relay
variable {env : Env} {pid : Nat} {x : Solo}

/-- What is left of a list when the first of it in some order are taken out. -/
theorem length_left {α : Type} (key : α → Nat) (number : α → Nat) (n : Nat) (xs : List α) :
    (xs.filter fun a => decide (number a ∉ ((orderBy key xs).take n).map number)).length ≤
      xs.length - n := by
  have sorted : xs.Perm (orderBy key xs) := (List.perm_insertionSort _ xs).symm
  generalize orderBy key xs = ys at sorted
  rw [(sorted.filter _).length_eq, sorted.length_eq]
  have first : (ys.take n).filter (fun a => decide (number a ∉ (ys.take n).map number)) = [] := by
    refine List.filter_eq_nil_iff.mpr fun a ha => ?_
    have taken : number a ∈ (ys.take n).map number := List.mem_map_of_mem ha
    rw [decide_eq_true_eq]
    exact fun out => out taken
  calc (ys.filter fun a => decide (number a ∉ (ys.take n).map number)).length
      = ((ys.take n ++ ys.drop n).filter
        fun a => decide (number a ∉ (ys.take n).map number)).length := by
        rw [List.take_append_drop]
    _ = ((ys.drop n).filter fun a => decide (number a ∉ (ys.take n).map number)).length := by
        rw [List.filter_append, first, List.nil_append]
    _ ≤ (ys.drop n).length := List.length_filter_le _ _
    _ = ys.length - n := List.length_drop

theorem unset_newReplica (flags : List Nat) : newReplica flags ∉ flags := by
  intro hn
  have := List.le_sum_of_mem hn
  unfold newReplica at this
  omega

/-- Flags and the clock are read and set without fail. -/
theorem host_served (env : Env) (pid : Nat) (x : Solo) (o : HostOp) :
    ∃ c y, serve env pid preparing x (.host o) =
      (.ok (execHost c ((x.turns 0).before x.state).host o).1, y) ∧
    y.state.db = x.state.db ∧ y.state.queues = x.state.queues ∧
    x.state.host.now ≤ y.state.host.now := by
  let c := (x.turns 0).choiceFor preparing (.host o)
  let s := (x.turns 0).before x.state
  have clock : (execHost c s.host o).2.now = s.host.now := by
    cases o with
    | enterRelay replica => simp only [execHost]; split <;> rfl
    | enterSweep replica => simp only [execHost]; split <;> rfl
    | _ => rfl
  refine ⟨c, ⟨{ s with host := (execHost c s.host o).2 }, fun n => x.turns (n + 1)⟩,
    serve_eq ?_, rfl, rfl, ?_⟩
  · unfold exec
    split <;> rfl
  · exact (Nat.le_add_right _ _).trans_eq clock.symm

theorem publish_unsent (now id : Nat) (events : List OutboxEvent) :
    (events.map (Db.publish now id)).filter (·.status == .pending) =
      (events.filter (·.status == .pending)).filter fun e => decide (e.id ≠ id) := by
  induction events with
  | nil => rfl
  | cons e events ih =>
    by_cases same : e.id = id
    · cases status : e.status <;> simp [Db.publish, same, status, ih]
    · cases status : e.status <;> simp [Db.publish, same, status, ih]

/-- What a pass of the relay leaves. -/
structure Relayed (s s' : State) : Prop where
  transfers : s'.db.transfers = s.db.transfers
  jobs : ∀ job ∈ s.queues.jobs, job ∈ s'.queues.jobs
  unsent : (unsent s').length ≤ (unsent s).length - relayBatch

/-- The pass over these events, from the state `s`. -/
structure Relaying (s : State) (all rest : List OutboxEvent) (y : Solo) : Prop where
  transfers : y.state.db.transfers = s.db.transfers
  jobs : ∀ job ∈ s.queues.jobs, job ∈ y.state.queues.jobs
  left : (unsent y.state).filter (fun e => decide (e.id ∉ rest.map (·.id))) =
    (unsent s).filter fun e => decide (e.id ∉ all.map (·.id))

theorem relayOne_served {s : State} {all rest : List OutboxEvent} {evt : OutboxEvent} {y : Solo}
    (h : Relaying s all (evt :: rest) y) :
    ∃ z, (do
        let _ ← queue (.addTransfer evt.payload relayAttempts)
        let _ ← db (.markPublished evt.id)
        return () : Async Unit).run (serve env pid preparing) y = (.ok (), z) ∧
          Relaying s all rest z := by
  have added :
      serve env pid preparing y (.queue (.addTransfer evt.payload relayAttempts)) = (.ok (), _) :=
    serve_spared rfl rfl
  generalize queued : (⟨_, _⟩ : Solo) = y₁ at added
  have marked : serve env pid preparing y₁ (.db (.markPublished evt.id)) = (.ok (), _) :=
    serve_spared rfl rfl
  refine ⟨_, (run_bind_ok (run_call added)).trans ((run_bind_ok (run_call marked)).trans rfl), ?_⟩
  subst queued
  refine ⟨h.transfers, fun job hjob => List.mem_append_left _ (h.jobs job hjob), ?_⟩
  rw [← h.left]
  change List.filter _ ((y.state.db.outbox.map _).filter _) = _
  rw [publish_unsent, List.filter_filter]
  refine List.filter_congr fun e _ => ?_
  simp only [List.map_cons, List.mem_cons, not_or, Bool.decide_and, Bool.and_comm]

theorem relay_served (env : Env) (pid : Nat) {replica : Nat}
    (unset : replica ∉ x.state.host.relaying) :
    ∃ y, (relay replica).run (serve env pid preparing) x = (.ok (), y) ∧
    Relayed x.state y.state := by
  obtain ⟨c, x₁, flag, db₁, queues₁, -⟩ := host_served env pid x (.enterRelay replica)
  have entered : (execHost c ((x.turns 0).before x.state).host (.enterRelay replica)).1 = true := by
    have clear : replica ∉ ((x.turns 0).before x.state).host.relaying := unset
    simp only [execHost]
    rw [if_neg clear]
  rw [entered] at flag
  have read : serve env pid preparing x₁ (.db (.findPendingEvents relayBatch)) =
      (.ok ((orderBy (·.createdAt) (unsent x₁.state)).take relayBatch),
        ⟨(x₁.turns 0).before x₁.state, fun n => x₁.turns (n + 1)⟩) := serve_spared rfl rfl
  obtain ⟨x₃, published, ended⟩ := run_forEach (serve env pid preparing)
    (Relaying x₁.state ((orderBy (·.createdAt) (unsent x₁.state)).take relayBatch))
    (fun evt rest y h => relayOne_served h) _
      (s := ⟨(x₁.turns 0).before x₁.state, fun n => x₁.turns (n + 1)⟩)
    ⟨rfl, fun _ hjob => hjob, rfl⟩
  obtain ⟨c', y, returned, db', queues', -⟩ := host_served env pid x₃ (.leaveRelay replica)
  refine ⟨y, ?_, ?_, ?_, ?_⟩
  · refine (run_bind_ok (run_call flag)).trans ?_
    have body := (run_bind_ok (run_call read)).trans published
    refine (run_finallyDo (run_tryCatch_ok body)).trans ?_
    exact run_bind_ok (run_call returned)
  · rw [db', ended.transfers, db₁]
  · intro job hjob
    rw [queues']
    exact ended.jobs job (queues₁ ▸ hjob)
  · have left := ended.left
    simp only [List.map_nil, List.not_mem_nil, not_false_eq_true, decide_true,
      List.filter_true] at left
    have same : unsent y.state = unsent x₃.state := by
      unfold unsent
      rw [db']
    have same₁ : unsent x₁.state = unsent x.state := by
      unfold unsent
      rw [db₁]
    rw [same, left, same₁]
    exact length_left _ _ _ _

end Relay

/-! ## A pass of the sweep -/

/-- Rows that are neither SUCCESS nor FAILED. -/
def unfinished (s : State) : List FileTransfer := s.db.transfers.filter fun t => !terminal t

/-- The rows a pass of the sweep finds when all are stale. -/
def oldest (env : Env) (s : State) : List FileTransfer :=
  (orderBy (·.updatedAt) (unfinished s)).take env.config.recoveryBatchSize

/-- A waiting job of the transfer. -/
def Awaited (r : Nat) (s : State) : Prop :=
  ∃ job ∈ s.queues.jobs, job.state = .waiting ∧ job.data.transferId = r

section Sweep
variable {env : Env} {pid : Nat} {x : Solo}

/-- The pass over these rows, from the state `s`: a row it has come to is final or has a job. -/
structure Sweeping (s : State) (all rest : List FileTransfer) (y : Solo) : Prop where
  idle : y.state.db.openTxs = []
  numbers : y.state.db.transfers.map (·.id) = s.db.transfers.map (·.id)
  outbox : y.state.db.outbox = s.db.outbox
  jobs : ∀ job ∈ s.queues.jobs, job ∈ y.state.queues.jobs
  rows : ∀ t ∈ y.state.db.transfers, terminal t = false → t ∈ s.db.transfers ∧
    (t.id ∈ all.map (·.id) → t.id ∈ rest.map (·.id) ∨ Awaited t.id y.state)

theorem recover_served {s : State} {all rest : List FileTransfer} {row : FileTransfer} {y : Solo}
    (h : Sweeping s all (row :: rest) y) :
    ∃ z, (recover env row).run (serve env pid preparing) y = (.ok (), z) ∧
    Sweeping s all rest z := by
  unfold recover
  split
  · let p : Patch := .markFailed (interrupted row)
    have free : y.state.db.locked Db.anyone row.id = false := by
      unfold Db.locked
      rw [h.idle]
      rfl
    let s' := (y.turns 0).before y.state
    have marked : serve env pid preparing y (.db (.update row.id p)) =
        (.ok (), ⟨{ s' with db := { s'.db with
          transfers := patchRow none s'.host.now row.id p s'.db.transfers
          completions := completed row.id p s'.db.transfers ++ s'.db.completions } },
            fun n => y.turns (n + 1)⟩) := by
      refine serve_spared rfl ?_
      have free' : s'.db.locked Db.anyone row.id = false := free
      simp only [perform, Db.exec, Db.updateRow]
      rw [if_neg (by rw [free']; decide)]
    refine ⟨_, run_call marked, h.idle, (patchRow_numbers _ p _).trans h.numbers,
      h.outbox, h.jobs, ?_⟩
    intro t ht open'
    have other : t.id ≠ row.id := by
      intro same
      obtain ⟨t₀, -, rfl⟩ := List.mem_map.mp ht
      split at open'
      · cases open'
      · rename_i not
        rw [if_neg not] at same
        exact not ⟨same, rfl⟩
    obtain ⟨there, covered⟩ := h.rows t ((mem_patchRow_other other).mp ht) open'
    refine ⟨there, fun hid => (covered hid).imp_left fun next => ?_⟩
    rw [List.map_cons, List.mem_cons] at next
    exact next.resolve_left other
  · have added : serve env pid preparing y
        (.queue (.addTransfer ⟨row.id, []⟩ (some env.config.transferMaxAttempts))) =
        (.ok (), _) := serve_spared rfl rfl
    refine ⟨_, run_call added, h.idle, h.numbers, h.outbox,
      fun job hjob => List.mem_append_left _ (h.jobs job hjob), ?_⟩
    intro t ht open'
    obtain ⟨there, covered⟩ := h.rows t ht open'
    refine ⟨there, fun hid => ?_⟩
    by_cases own : t.id = row.id
    · exact .inr ⟨_, List.mem_append_right _ (List.mem_singleton.mpr rfl), rfl, own.symm⟩
    · rcases covered hid with next | ⟨job, hjob, waits, target⟩
      · rw [List.map_cons, List.mem_cons] at next
        exact .inl (next.resolve_left own)
      · exact .inr ⟨job, List.mem_append_left _ hjob, waits, target⟩

/-- The state after a pass of the sweep. -/
abbrev Swept (env : Env) (s s' : State) : Prop := ∃ turns, Sweeping s (oldest env s) [] ⟨s', turns⟩

/-- Once every row is stale, the pass goes over the oldest rows that are not final. -/
theorem sweep_served (pid : Nat) {replica : Nat} (enabled : env.config.recoveryEnabled = true)
    (unset : replica ∉ x.state.host.sweeping) (idle : x.state.db.openTxs = [])
    (stale : ∀ t ∈ x.state.db.transfers,
      t.updatedAt + env.config.recoveryStaleMs < x.state.host.now) :
    ∃ y, (sweep env replica).run (serve env pid preparing) x = (.ok (), y) ∧
    Swept env x.state y.state := by
  obtain ⟨c, x₁, flag, db₁, queues₁, clock₁⟩ := host_served env pid x (.enterSweep replica)
  have entered : (execHost c ((x.turns 0).before x.state).host (.enterSweep replica)).1 = true := by
    have clear : replica ∉ ((x.turns 0).before x.state).host.sweeping := unset
    simp only [execHost]
    rw [if_neg clear]
  rw [entered] at flag
  obtain ⟨c₂, x₂, time, db₂, queues₂, -⟩ := host_served env pid x₁ .now
  let now := ((x₁.turns 0).before x₁.state).host.now
  have late : x.state.host.now ≤ now := clock₁.trans (Nat.le_add_right _ _)
  have db : x₂.state.db = x.state.db := db₂.trans db₁
  have found : (orderBy (·.updatedAt) (x₂.state.db.transfers.filter fun t =>
      (t.status == .pending || t.status == .processing) &&
        decide (t.updatedAt < now - env.config.recoveryStaleMs))).take
          env.config.recoveryBatchSize =
      oldest env x.state := by
    unfold oldest unfinished
    rw [db]
    refine congrArg _ (congrArg _ (List.filter_congr fun t ht => ?_))
    have old := stale t ht
    have before : decide (t.updatedAt < now - env.config.recoveryStaleMs) = true :=
      decide_eq_true (by omega)
    rw [before]
    unfold terminal
    cases t.status <;> rfl
  have read : serve env pid preparing x₂
      (.db (.findStuck (now - env.config.recoveryStaleMs) env.config.recoveryBatchSize)) =
      (.ok (oldest env x.state), ⟨(x₂.turns 0).before x₂.state, fun n => x₂.turns (n + 1)⟩) := by
    refine serve_spared rfl ?_
    rw [← found]
    rfl
  obtain ⟨x₃, recovered, ended⟩ := run_forEach (serve env pid preparing)
    (Sweeping x.state (oldest env x.state)) (fun row rest y h => recover_served h)
    (oldest env x.state) (s := ⟨(x₂.turns 0).before x₂.state, fun n => x₂.turns (n + 1)⟩) (by
      refine ⟨?_, ?_, ?_, fun job hjob => ?_, fun t ht _ => ⟨?_, .inl⟩⟩
      · simpa only [before_db, db] using idle
      · simp only [before_db, db]
      · simp only [before_db, db]
      · simpa only [before_queues, queues₂, queues₁] using hjob
      · simpa only [before_db, db] using ht)
  obtain ⟨c', y, returned, db', queues', -⟩ := host_served env pid x₃ (.leaveSweep replica)
  refine ⟨y, ?_, y.turns, ?_⟩
  · unfold sweep
    rw [if_pos enabled]
    refine (run_bind_ok (run_call flag)).trans ?_
    refine (run_finallyDo (run_tryCatch_ok ((run_bind_ok (run_call time)).trans
      ((run_bind_ok (run_call read)).trans recovered)))).trans ?_
    exact run_bind_ok (run_call returned)
  · have awaited : ∀ r, Awaited r x₃.state → Awaited r y.state := by
      rintro r ⟨job, hjob, rest⟩
      exact ⟨job, queues' ▸ hjob, rest⟩
    refine ⟨db' ▸ ended.idle, db' ▸ ended.numbers, db' ▸ ended.outbox,
      fun job hjob => queues' ▸ ended.jobs job hjob,
      fun t ht open' => ?_⟩
    obtain ⟨there, covered⟩ := ended.rows t (db' ▸ ht) open'
    exact ⟨there, fun hid => (covered hid).imp_right (awaited _)⟩

end Sweep

/-! ## Rounds -/

section Rounds
variable {env : Env} {w₀ : SysWorld} {x : Rest}

/-- A tick whose task returns and starts nothing. -/
theorem tick_served {q : Request} {task : Task} {r : Reply} {y : Solo}
    (entered : enter q x.solo.state = some (x.solo.state, task))
    (run : (code env task).run (serve env x.nextPid preparing) x.solo = (.ok r, y))
    (ends : finish env task (.ok r) y.state = (y.state, [])) :
    x.request env q = ⟨y, x.nextPid + 1⟩ := by
  have done : runTask env x.nextPid task x.solo = (y, []) := by
    rw [runTask_eq env x.nextPid run, ends]
  unfold Rest.request
  rw [entered]
  simp only [Rest.serve, done, List.foldl_nil]

theorem relayTick_served (env : Env) (x : Rest) : Relayed x.solo.state
    (x.request env (.relayTick (newReplica x.solo.state.host.relaying))).solo.state := by
  obtain ⟨y, run, relayed⟩ := relay_served env x.nextPid (x := x.solo)
    (unset_newReplica x.solo.state.host.relaying)
  have tick := tick_served (x := x)
    (q := .relayTick (newReplica x.solo.state.host.relaying)) rfl (run_bind_ok run) rfl
  rw [tick]
  exact relayed

theorem sweepTick_served (h : Resting env w₀ x) (enabled : env.config.recoveryEnabled = true)
    (stale : ∀ t ∈ x.solo.state.db.transfers,
      t.updatedAt + env.config.recoveryStaleMs < x.solo.state.host.now) :
    Swept env x.solo.state
      (x.request env (.sweepTick (newReplica x.solo.state.host.sweeping))).solo.state := by
  obtain ⟨y, run, swept⟩ := sweep_served x.nextPid (x := x.solo) enabled
    (unset_newReplica x.solo.state.host.sweeping) h.idle stale
  have tick := tick_served (x := x)
    (q := .sweepTick (newReplica x.solo.state.host.sweeping)) rfl (run_bind_ok run) rfl
  rw [tick]
  exact swept

theorem wait_stale (env : Env) (x : Rest) :
    ∀ t ∈ (wait (patience env x.solo.state) x).solo.state.db.transfers,
    t.updatedAt + env.config.recoveryStaleMs <
      (wait (patience env x.solo.state) x).solo.state.host.now := by
  intro t ht
  have bound : t.updatedAt ≤ (x.solo.state.db.transfers.map (·.updatedAt)).sum :=
    List.le_sum_of_mem (List.mem_map_of_mem ht)
  change _ < x.solo.state.host.now + patience env x.solo.state
  unfold patience
  omega

/-- What a round does: its batches are gone from what was left, and every job is over. -/
structure Rounded (env : Env) (s s' : State) : Prop where
  numbers : s'.db.transfers.map (·.id) = s.db.transfers.map (·.id)
  unsent : (unsent s').length ≤ (unsent s).length - relayBatch
  unfinished : (unfinished s').length ≤ (unfinished s).length - env.config.recoveryBatchSize
  jobs : ∀ job ∈ s'.queues.jobs, closed job = true

theorem round_served (h : Resting env w₀ x) (enabled : env.config.recoveryEnabled = true) :
    Reach (machine env) Unaided x.world (round env x).world ∧
    Rounded env x.solo.state (round env x).solo.state := by
  have relayed := relayTick_served env x
  have path₁ := request_reach env (q := .relayTick (newReplica x.solo.state.host.relaying))
      (x := x) rfl h.idle
  have eq :
      round env x = workAll env (Rest.request env _ (wait _ (x.request env (.relayTick _)))) := rfl
  generalize x.request env (.relayTick (newReplica x.solo.state.host.relaying)) =
    x₁ at relayed path₁ eq
  have resting₁ := h.onward path₁
  have path₂ : Reach (machine env) Unaided x₁.world (wait (patience env x₁.solo.state) x₁).world :=
    .step .start (a := .outside (.clock (patience env x₁.solo.state))) trivial rfl
  have stale := wait_stale env x₁
  have still : (wait (patience env x₁.solo.state) x₁).solo.state.db = x₁.solo.state.db := rfl
  generalize wait (patience env x₁.solo.state) x₁ = x₂ at path₂ stale still eq
  have resting₂ := resting₁.onward path₂
  obtain ⟨turns, swept⟩ := sweepTick_served resting₂ enabled stale
  have path₃ := request_reach env
      (q := .sweepTick (newReplica x₂.solo.state.host.sweeping)) (x := x₂) rfl
    resting₂.idle
  generalize x₂.request env (.sweepTick (newReplica x₂.solo.state.host.sweeping)) =
    x₃ at swept path₃ eq
  obtain ⟨path₄, served⟩ := workAll_served (resting₂.onward path₃)
  rw [← eq] at path₄ served
  have path := ((path₁.trans path₂).trans path₃).trans path₄
  have rows : x₂.solo.state.db.transfers = x.solo.state.db.transfers :=
    (congrArg _ still).trans relayed.transfers
  refine ⟨path, ?_, ?_, ?_, ?_⟩
  · rw [served.numbers, swept.numbers, rows]
  · have same : unsent (round env x).solo.state = unsent x₁.solo.state := by
      unfold unsent
      rw [served.outbox, swept.outbox, still]
    rw [same]
    exact relayed.unsent
  · have distinct : (unfinished (round env x).solo.state).Nodup :=
      (List.Nodup.of_map _ (distinct_rows (h.onward path).consistent)).filter _
    have left : unfinished (round env x).solo.state ⊆ (unfinished x.solo.state).filter
        fun t => decide (t.id ∉ (oldest env x.solo.state).map (·.id)) := by
      intro t ht
      obtain ⟨ht, open'⟩ := List.mem_filter.mp ht
      have open' : terminal t = false := by simpa using open'
      obtain ⟨ht₃, jobless⟩ := served.rows t ht open'
      obtain ⟨ht₂, covered⟩ := swept.rows t ht₃ open'
      have same : oldest env x₂.solo.state = oldest env x.solo.state := by
        unfold oldest unfinished
        rw [rows]
      rw [same] at covered
      refine List.mem_filter.mpr ⟨List.mem_filter.mpr ⟨rows ▸ ht₂, by simpa using open'⟩,
        decide_eq_true fun hid => ?_⟩
      rcases covered hid with none | ⟨job, hjob, waits, target⟩
      · cases none
      · exact jobless job hjob (List.mem_map_of_mem hjob) (by simp [closed, waits]) target
    exact (List.subperm_of_subset distinct left).length_le.trans (length_left _ _ _ _)
  · intro job hjob
    refine served.done job hjob ?_
    rw [← served.listed]
    exact List.mem_map_of_mem hjob

theorem rounds_served (h : Resting env w₀ x)
    (enabled : env.config.recoveryEnabled = true) (k : Nat) :
    Reach (machine env) Unaided x.world ((round env)^[k] x).world ∧
      ((round env)^[k] x).solo.state.db.transfers.map (·.id) =
        x.solo.state.db.transfers.map (·.id) ∧
      (unsent ((round env)^[k] x).solo.state).length ≤
        (unsent x.solo.state).length - k * relayBatch ∧
      (unfinished ((round env)^[k] x).solo.state).length ≤
        (unfinished x.solo.state).length - k * env.config.recoveryBatchSize ∧
      (0 < k → ∀ job ∈ ((round env)^[k] x).solo.state.queues.jobs, closed job = true) := by
  induction k with
  | zero => simpa using Reach.start
  | succ k ih =>
    obtain ⟨path, numbers, sent, finished, -⟩ := ih
    rw [Function.iterate_succ_apply']
    obtain ⟨path', rounded⟩ := round_served (h.onward path) enabled
    refine ⟨path.trans path', rounded.numbers.trans numbers, ?_, ?_, fun _ => rounded.jobs⟩
    · rw [Nat.succ_mul, Nat.sub_add_eq]
      exact rounded.unsent.trans (Nat.sub_le_sub_right sent _)
    · rw [Nat.succ_mul, Nat.sub_add_eq]
      exact rounded.unfinished.trans (Nat.sub_le_sub_right finished _)

/-- Everything that was begun has been brought to an end. -/
structure Quiet (s : State) : Prop where
  rows : ∀ t ∈ s.db.transfers, t.status = .success ∨ t.status = .failed
  outbox : ∀ e ∈ s.db.outbox, e.status = .published
  jobs : ∀ job ∈ s.queues.jobs, job.state = .completed ∨ job.state = .failed

/-- From every state the system can reach, after a loss of all its threads and without
anybody's help: whatever happens during the calls, rounds of relay, sweep and workers
bring every row, event and job to its end, as soon as their batches cover what is left. -/
theorem comes_to_rest {w : SysWorld} (start : Initial w₀) (path : Reach (machine env) anyStep w₀ w)
    (enabled : env.config.recoveryEnabled = true) :
    ∃ s, Reach (machine env) Loses w ⟨s, [], w.nextPid⟩ ∧ ∀ turns k, 0 < k →
      (unfinished w.store).length ≤ k * env.config.recoveryBatchSize →
      (unsent w.store).length ≤ k * relayBatch →
      Reach (machine env) Unaided ⟨s, [], w.nextPid⟩
        ((round env)^[k] ⟨⟨s, turns⟩, w.nextPid⟩).world ∧
      Quiet ((round env)^[k] ⟨⟨s, turns⟩, w.nextPid⟩).solo.state ∧
      ((round env)^[k] ⟨⟨s, turns⟩, w.nextPid⟩).solo.state.db.transfers.map (·.id) =
        w.store.db.transfers.map (·.id) := by
  obtain ⟨s, lost, rows, outbox, -⟩ := restart_reach env w
  refine ⟨s, lost, fun turns k some few few' => ?_⟩
  have resting : Resting env w₀ ⟨⟨s, turns⟩, w.nextPid⟩ :=
    ⟨start, path.trans (lost.weaken fun _ _ _ => trivial)⟩
  obtain ⟨path', numbers, sent, finished, jobs⟩ := rounds_served resting enabled k
  have same : unfinished s = unfinished w.store := by
    unfold unfinished
    rw [rows]
  have same' : unsent s = unsent w.store := by
    unfold unsent
    rw [outbox]
  refine ⟨path', ⟨fun t ht => ?_, fun e he => ?_, fun job hjob => ?_⟩,
    numbers.trans (congrArg _ rows)⟩
  · have none : unfinished ((round env)^[k] ⟨⟨s, turns⟩, w.nextPid⟩).solo.state = [] := by
      apply List.eq_nil_of_length_eq_zero
      dsimp only at finished
      rw [same] at finished
      omega
    have final := List.filter_eq_nil_iff.mp none t ht
    have final : terminal t = true := by simpa using final
    simpa only [terminal, Bool.or_eq_true, beq_iff_eq] using final
  · have none : unsent ((round env)^[k] ⟨⟨s, turns⟩, w.nextPid⟩).solo.state = [] := by
      apply List.eq_nil_of_length_eq_zero
      dsimp only at sent
      rw [same'] at sent
      omega
    have final := List.filter_eq_nil_iff.mp none e he
    cases status : e.status with
    | pending => simp [status] at final
    | published => rfl
  · simpa [closed] using jobs some job hjob

end Rounds

/-- A relay pass is lost between `queue.add` and its mark, and the worker of the job
between its mark and the upload; one round is enough. -/
theorem comes_to_rest_sample :
    ∃ w s, Reach (machine sampleEnv) anyStep sampleWorld w ∧ w.threads.length = 2 ∧
    (unfinished w.store).length = 1 ∧ (unsent w.store).length = 1 ∧
    Reach (machine sampleEnv) Loses w ⟨s, [], w.nextPid⟩ ∧
    ∀ turns, Quiet (round sampleEnv ⟨⟨s, turns⟩, w.nextPid⟩).solo.state := by
  have run : ((machine sampleEnv).steps sampleWorld
      (sampleAccepted ++ .request (.relayTick 0) :: answer 1 3 ++
      .request (.takeJob 0) :: answer 2 2)).map (fun w =>
        (w.threads.length, (unfinished w.store).length, (unsent w.store).length)) =
          some (2, 1, 1) := by
    decide +kernel
  obtain ⟨w, hw, seen⟩ := Option.map_eq_some_iff.mp run
  obtain ⟨threads, rest⟩ := Prod.mk.inj seen
  obtain ⟨rows, events⟩ := Prod.mk.inj rest
  have path := reach_of_steps _ hw
  obtain ⟨s, lost, settles⟩ := comes_to_rest sample_initial path rfl
  refine ⟨w, s, path, threads, rows, events, lost, fun turns => ?_⟩
  exact (settles turns 1 (by decide) (by rw [rows]; decide) (by rw [events]; decide)).2.1

end Quiescence
