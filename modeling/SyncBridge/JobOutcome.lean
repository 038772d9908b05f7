import SyncBridge.SoloRuns

/-!
# One job and its attempts

A pending row and one job of `N` attempts, with nothing else at work on the row.
Any call between `markProcessing` and `markSuccess` may be rejected, time may pass
and the source file may change, so each attempt ends in one of three ways: it
uploads the file, it meets a permanent problem, or it throws something the queue
will retry. The finalising calls are answered.

The row, the usage and the logs are followed by `view`; whatever else a state
holds has no influence on them.
-/

namespace JobOutcome

open AwaitPrograms Entities Database TableInvariants Calls Worker Orchestrator Footprints SoloRuns

/-- The calls that may be rejected: those of the upload. -/
def preparing : Op → Bool
  | .volume _ => true
  | .store _ => true
  | .host _ => true
  | .db (.findUsage _) => true
  | _ => false

/-- How an attempt ends. It is skipped when the row is missing or already SUCCESS. -/
inductive Outcome where
  | success (u : Uploaded)
  | permanent (message : String)
  | transient (err : Err)
  | skipped

def Outcome.isTransient : Outcome → Bool
  | .transient _ => true
  | _ => false

/-- An attempt up to `markSuccess`. -/
def attemptUpload (env : Env) (data : TransferJobData) : Async (Option Uploaded) := do
  let found ← db (.findOne .pool data.transferId)
  match found with
  | none => return none
  | some transfer =>
    if transfer.status = .success then return none
    else do
      let _ ← db (.update transfer.id .markProcessing)
      let uploaded ← prepareAndUpload env transfer
      return some uploaded

def classify : Except Err (Option Uploaded) → Outcome
  | .ok (some u) => .success u
  | .ok none => .skipped
  | .error (.nonRetryable message) => .permanent message
  | .error e => .transient e

section Loop
variable (env : Env) (pid : Nat)

def outcomeOf (data : TransferJobData) (x : Solo) : Outcome :=
  classify (runAlone env pid preparing (attemptUpload env data) x).1

/-- A task from its start to its end, with the tasks its end starts. -/
def runTask (task : Task) (x : Solo) : Solo × List Task :=
  let (out, y) := runAlone env pid preparing (code env task) x
  let (s, tasks) := finish env task out y.state
  (⟨s, y.turns⟩, tasks)

/-- A worker's run of a taken job, with the `failed` handlers it fires. -/
def attempt (jobId : Nat) (data : TransferJobData) (x : Solo) : Solo :=
  let (y, handlers) := runTask env pid (.process jobId data) x
  handlers.foldl (fun y task => (runTask env pid task y).1) y

/-- The queue gives the job to a worker as long as it waits. The outcomes of the
attempts are listed beside the state. -/
def runJob (jobId : Nat) : Nat → Solo → List Outcome × Solo
  | 0, x => ([], x)
  | fuel + 1, x => match takeJob jobId x.state with
    | some (s, .process _ data) =>
      let rest := runJob jobId fuel (attempt env pid jobId data ⟨s, x.turns⟩)
      (outcomeOf env pid data ⟨s, x.turns⟩ :: rest.1, rest.2)
    | _ => ([], x)

end Loop

/-- The part of a state that the result is about. -/
structure View where
  openTxs : List (Nat × Tx)
  rows : List FileTransfer
  usage : List TenantUsage
  subscriptions : List EventSubscription
  jobs : List Job
  deadLetters : List DeadLetterJobData
  deliveries : List WebhookDeliveryJob
  kafka : List (String × TransferEvent)

def view (r : Nat) (s : State) : View where
  openTxs := s.db.openTxs
  rows := s.db.transfers.filter fun t => t.id = r
  usage := s.db.usage
  subscriptions := s.db.subscriptions
  jobs := s.queues.jobs
  deadLetters := s.queues.deadLetters
  deliveries := s.queues.deliveries
  kafka := s.kafka

/-- The logs after an event of the row was published once: one message when there is
a topic, and one delivery for every active subscription that asks for the type. -/
def View.announce (v : View) (env : Env) (event : TransferEvent) : View :=
  { v with
    kafka := v.kafka ++ (if env.config.kafkaEnabled then [(event.tenantId, event)] else [])
    deliveries := v.deliveries ++
      ((v.subscriptions.filter fun s => s.tenantId == event.tenantId && s.active).filter
        fun s => event.type ∈ s.events).map (deliveryJob event) }

section Calls
variable (env : Env) (pid : Nat) {r : Nat} {x : Solo}

@[simp] theorem view_before (turn : Turn) (s : State) : view r (turn.before s) = view r s := rfl

theorem patchRow_filter (now : Nat) (p : Patch) (rows : List FileTransfer) :
    (patchRow none now r p rows).filter (fun t => t.id = r) =
      (rows.filter fun t => t.id = r).map (p.apply now) := by
  unfold patchRow
  rw [List.filter_map]
  have same : ((fun t : FileTransfer => decide (t.id = r)) ∘ fun t =>
      if t.id = r ∧ tenantIsolation none t = true then p.apply now t else t) =
      fun t => decide (t.id = r) := by
    funext t
    simp only [Function.comp_apply]
    split <;> simp
  rw [same]
  refine List.map_congr_left fun t ht => ?_
  have hid : t.id = r := by simpa using (List.mem_filter.mp ht).2
  simp [hid, tenantIsolation]

theorem findOne_served {t : FileTransfer} (row : (view r x.state).rows = [t]) :
    ∃ y, serve env pid preparing x (.db (.findOne .pool r)) = (.ok (some t), y) ∧
      view r y.state = view r x.state := by
  have found : x.state.db.transfers.find? (fun t => t.id = r) = some t := by
    rw [← List.head?_filter]
    exact congrArg List.head? row
  refine ⟨_, serve_spared (y := (x.turns 0).before x.state) rfl ?_, rfl⟩
  simp only [perform, Db.exec, Db.rows, before_db, found]
  rfl

theorem update_served (idle : (view r x.state).openTxs = []) (p : Patch) :
    ∃ now y, serve env pid preparing x (.db (.update r p)) = (.ok (), y) ∧
      view r y.state = { view r x.state with rows := (view r x.state).rows.map (p.apply now) } := by
  let s := (x.turns 0).before x.state
  let db' : Db := { s.db with
    transfers := patchRow none s.host.now r p s.db.transfers
    completions := completed r p s.db.transfers ++ s.db.completions }
  refine ⟨s.host.now, ⟨{ s with db := db' }, fun n => x.turns (n + 1)⟩, serve_spared rfl ?_, ?_⟩
  · have free : s.db.locked Db.anyone r = false := by
      change List.any x.state.db.openTxs _ = false
      have : x.state.db.openTxs = [] := idle
      rw [this]
      rfl
    simp only [perform, Db.exec, Db.updateRow]
    rw [if_neg (by rw [free]; decide)]
  · have rows := patchRow_filter s.host.now p s.db.transfers (r := r)
    unfold view
    dsimp only [db']
    rw [rows]
    rfl

theorem recordUsage_served (tenantId : String) (bytes : Nat) :
    ∃ y, serve env pid preparing x (.db (.recordUsage tenantId bytes)) = (.ok (), y) ∧
      view r y.state = { view r x.state with
        usage := Db.addUsage tenantId bytes (view r x.state).usage } :=
  ⟨_, serve_spared rfl rfl, rfl⟩

theorem deadLetter_served (data : DeadLetterJobData) :
    ∃ y, serve env pid preparing x (.queue (.addDeadLetter data)) = (.ok (), y) ∧
      view r y.state = { view r x.state with
        deadLetters := (view r x.state).deadLetters ++ [data] } :=
  ⟨_, serve_spared rfl rfl, rfl⟩

/-- The delivery jobs of a list of subscriptions, one call each. -/
theorem deliveries_served (event : TransferEvent) (subs : List EventSubscription) :
    ∃ y, (Prog.forEach (fun s => queue (.addDelivery (deliveryJob event s))) subs).run
        (serve env pid preparing) x = (.ok (), y) ∧
      view r y.state = { view r x.state with
        deliveries := (view r x.state).deliveries ++ subs.map (deliveryJob event) } := by
  induction subs generalizing x with
  | nil => exact ⟨x, rfl, by simp⟩
  | cons s subs ih =>
    obtain ⟨y, hy, hview⟩ := ih
      (x := (serve env pid preparing x (.queue (.addDelivery (deliveryJob event s)))).2)
    have served : serve env pid preparing x (.queue (.addDelivery (deliveryJob event s))) =
        (.ok (), _) := serve_spared rfl rfl
    rw [served] at hy hview
    refine ⟨y, (run_bind_ok (run_call served)).trans hy, ?_⟩
    rw [hview]
    simp [view, Queues.exec]

theorem publish_served (t : FileTransfer) (type : EventType) (data : EventData) :
    ∃ y, (publishTransferEvent env t type data).run (serve env pid preparing) x = (.ok (), y) ∧
      view r y.state = (view r x.state).announce env (transferEvent t type data) := by
  have kafka : ∃ y, (kafkaPublish env t.tenantId (transferEvent t type data)).run
      (serve env pid preparing) x = (.ok (), y) ∧ view r y.state = { view r x.state with
        kafka := (view r x.state).kafka ++
          if env.config.kafkaEnabled then [(t.tenantId, transferEvent t type data)] else [] } := by
    unfold kafkaPublish
    split
    · have sent : serve env pid preparing x
          (.kafkaSend t.tenantId (transferEvent t type data)) = (.ok (), _) := serve_spared rfl rfl
      refine ⟨_, run_tryCatch_ok (run_call sent), ?_⟩
      simp [view]
    · exact ⟨x, rfl, by simp⟩
  obtain ⟨y, hy, hview⟩ := kafka
  have subs : serve env pid preparing y (.db (.findSubscriptions t.tenantId)) =
      (.ok (y.state.db.subscriptions.filter fun s => s.tenantId == t.tenantId && s.active),
        ⟨(y.turns 0).before y.state, fun n => y.turns (n + 1)⟩) := serve_spared rfl rfl
  obtain ⟨z, hz, hview'⟩ := deliveries_served env pid (r := r)
    (x := ⟨(y.turns 0).before y.state, fun n => y.turns (n + 1)⟩) (transferEvent t type data)
    ((y.state.db.subscriptions.filter fun s => s.tenantId == t.tenantId && s.active).filter
      fun s => type ∈ s.events)
  refine ⟨z, (run_bind_ok hy).trans ((run_bind_ok (run_call subs)).trans hz), ?_⟩
  have found : y.state.db.subscriptions = (view r x.state).subscriptions :=
    congrArg View.subscriptions hview
  rw [hview', found, view_before, hview]
  rfl

/-- The upload changes nothing of the view. -/
theorem prepare_view (t : FileTransfer) :
    view r ((prepareAndUpload env t).run (serve env pid preparing) x).2.state = view r x.state := by
  refine (prepare_within t).run_keeps (I := fun y : Solo => view r y.state = view r x.state) ?_ rfl
  intro y op hy hop
  unfold serve
  dsimp only
  split
  · exact hy
  · rename_i a s' step
    change view r s' = _
    rw [← hy, ← view_before (y.turns 0) y.state]
    cases exec_change step with
    | rejected => rfl
    | db op a db' ran =>
      unfold PrepareCall at hop
      split at hop
      · contradiction
      · contradiction
      · contradiction
      · rename_i h
        cases h
        cases ran
        rfl
      · cases hop
    | queue q => cases hop
    | kafka key event => cases hop
    | volume v => rfl
    | store o a objects ran => rfl
    | host o => rfl

end Calls

section Attempts
variable (env : Env) (pid : Nat) {r : Nat} {x : Solo} {t : FileTransfer} {data : TransferJobData}

/-- A pending or processing row that no transaction holds. -/
structure Ready (v : View) (t : FileTransfer) : Prop where
  idle : v.openTxs = []
  rows : v.rows = [t]
  unfinished : t.status ≠ .success

/-- The row has its number. -/
theorem Ready.id {s : State} (h : Ready (view r s) t) : t.id = r := by
  have hm : t ∈ s.db.transfers.filter fun t => t.id = r := by
    have : s.db.transfers.filter (fun t => t.id = r) = [t] := h.rows
    rw [this]
    exact List.mem_singleton_self t
  simpa using (List.mem_filter.mp hm).2

/-- The start of every attempt: the row is read and marked. -/
theorem attempt_start (ready : Ready (view r x.state) t)
    (target : data.transferId = r) :
    ∃ now y, view r y.state = { view r x.state with rows := [Patch.markProcessing.apply now t] } ∧
      ∀ {β : Type} (skip : Async β) (rest : FileTransfer → Async β),
        ((db (.findOne .pool data.transferId)).bind fun found => match found with
          | none => skip
          | some t => if t.status = .success then skip
            else (db (.update t.id .markProcessing)).bind fun _ => rest t).run
          (serve env pid preparing) x = (rest t).run (serve env pid preparing) y := by
  obtain ⟨x₁, read, hview₁⟩ := findOne_served env pid ready.rows
  have idle₁ : (view r x₁.state).openTxs = [] := hview₁ ▸ ready.idle
  obtain ⟨now, x₂, marked, hview₂⟩ := update_served env pid idle₁ .markProcessing
  refine ⟨now, x₂, ?_, fun skip rest => ?_⟩
  · rw [hview₂, hview₁, ready.rows]
    rfl
  · rw [target]
    refine (run_bind_ok (run_call read)).trans ?_
    dsimp only
    rw [if_neg ready.unfinished, ready.id]
    exact run_bind_ok (run_call marked)

/-- What an attempt does, by its outcome. -/
inductive Attempted (env : Env) (t : FileTransfer) (v : View) :
    Outcome → Except Err Unit → View → Prop where
  | success (u : Uploaded) (now now' : Nat) : Attempted env t v (.success u) (.ok ())
      ({ v with
        rows := [u.patch.apply now' (Patch.markProcessing.apply now t)]
        usage := Db.addUsage t.tenantId u.sizeBytes v.usage }.announce env
          (transferEvent t .transferCompleted u.event))
  | permanent (message : String) (now now' : Nat) : Attempted env t v (.permanent message) (.ok ())
      { ({ v with
          rows :=
            [(Patch.markFailed message).apply now' (Patch.markProcessing.apply now t)] }.announce
            env (transferEvent t .transferFailed (.failed message))) with
        deadLetters := v.deadLetters ++ [⟨t.id, message⟩] }
  | transient (err : Err) (now : Nat) : Attempted env t v (.transient err) (.error err)
      { v with rows := [Patch.markProcessing.apply now t] }

theorem Attempted.jobs {env : Env} {v v' : View} {o : Outcome} {out : Except Err Unit}
    (h : Attempted env t v o out v') : v'.jobs = v.jobs := by
  cases h <;> rfl

theorem complete_served (ready : Ready (view r x.state) t) {t₀ : FileTransfer} (same : t₀.id = r)
    (u : Uploaded) : ∃ now y, (complete env t₀ u).run (serve env pid preparing) x = (.ok (), y) ∧
      view r y.state = { view r x.state with
        rows := [u.patch.apply now t]
        usage := Db.addUsage t₀.tenantId u.sizeBytes (view r x.state).usage }.announce env
          (transferEvent t₀ .transferCompleted u.event) := by
  obtain ⟨now, x₁, marked, hview₁⟩ := update_served env pid ready.idle u.patch
  obtain ⟨x₂, metered, hview₂⟩ := recordUsage_served env pid (r := r) (x := x₁)
    t₀.tenantId u.sizeBytes
  obtain ⟨y, told, hview⟩ := publish_served env pid (r := r) (x := x₂) t₀
    .transferCompleted u.event
  refine ⟨now, y, ?_, ?_⟩
  · unfold complete
    rw [same]
    exact (run_bind_ok (run_call marked)).trans ((run_bind_ok (run_call metered)).trans told)
  · rw [hview, hview₂, hview₁, ready.rows]
    rfl

theorem reject_served (ready : Ready (view r x.state) t) {t₀ : FileTransfer} (same : t₀.id = r)
    (message : String) : ∃ now y,
      (reject env t₀ (.nonRetryable message)).run (serve env pid preparing) x = (.ok (), y) ∧
      view r y.state = { ({ view r x.state with
          rows := [(Patch.markFailed message).apply now t] }.announce env
            (transferEvent t₀ .transferFailed (.failed message))) with
        deadLetters := (view r x.state).deadLetters ++ [⟨t₀.id, message⟩] } := by
  obtain ⟨now, x₁, marked, hview₁⟩ := update_served env pid ready.idle
    (.markFailed message)
  obtain ⟨x₂, told, hview₂⟩ := publish_served env pid (r := r) (x := x₁) t₀
    .transferFailed (.failed message)
  obtain ⟨y, added, hview⟩ := deadLetter_served env pid (r := r) (x := x₂)
    ⟨t₀.id, message⟩
  refine ⟨now, y, ?_, ?_⟩
  · unfold reject
    rw [← same] at marked
    exact (run_bind_ok (run_call marked)).trans ((run_bind_ok told).trans (run_call added))
  · rw [hview, hview₂, hview₁, ready.rows]
    rfl

theorem attempt_served (ready : Ready (view r x.state) t) (target : data.transferId = r) :
    ∃ out y, (runTransfer env data).run (serve env pid preparing) x = (out, y) ∧
      Attempted env t (view r x.state) (outcomeOf env pid data x) out (view r y.state) := by
  obtain ⟨now, x₁, hview, starts⟩ := attempt_start env pid ready target
  have attempt := starts (Prog.done (.ok ())) fun t => Prog.tryCatch
    ((prepareAndUpload env t).bind fun u => complete env t u) (reject env t)
  have upload := starts (Prog.done (.ok none)) fun t =>
    (prepareAndUpload env t).bind fun u => Prog.done (.ok (some u))
  have ready₁ : Ready (view r x₁.state) (Patch.markProcessing.apply now t) := by
    rw [hview]
    exact ⟨ready.idle, rfl, fun h => nomatch h⟩
  have kept := prepare_view env pid (r := r) (x := x₁) t
  have run : ∃ res x₂, (prepareAndUpload env t).run (serve env pid preparing) x₁ = (res, x₂) :=
    ⟨_, _, rfl⟩
  obtain ⟨res, x₂, prepared⟩ := run
  rw [prepared] at kept
  have ready₂ : Ready (view r x₂.state) (Patch.markProcessing.apply now t) := kept ▸ ready₁
  cases res with
  | ok u =>
    obtain ⟨now', y, completed, hview'⟩ := complete_served env pid ready₂ ready.id u
    have outcome : outcomeOf env pid data x = .success u := by
      unfold outcomeOf runAlone
      rw [show (attemptUpload env data).run (serve env pid preparing) x = (.ok (some u), x₂) from
        upload.trans (run_bind_ok prepared)]
      rfl
    refine ⟨.ok (), y, attempt.trans (run_tryCatch_ok ((run_bind_ok prepared).trans completed)), ?_⟩
    rw [outcome, hview', kept, hview]
    exact .success u now now'
  | error e =>
    have outcome : outcomeOf env pid data x = classify (.error e) := by
      unfold outcomeOf runAlone
      rw [show (attemptUpload env data).run (serve env pid preparing) x = (.error e, x₂) from
        upload.trans (run_bind_error prepared)]
    have caught := attempt.trans (run_tryCatch_error (run_bind_error prepared))
    by_cases permanent : ∃ message, e = .nonRetryable message
    · obtain ⟨message, rfl⟩ := permanent
      obtain ⟨now', y, rejected, hview'⟩ := reject_served env pid ready₂ ready.id message
      refine ⟨.ok (), y, caught.trans rejected, ?_⟩
      rw [outcome, hview', kept, hview]
      exact .permanent message now now'
    · have thrown : reject env t e = Prog.throw e := by
        unfold reject
        split
        · exact absurd ⟨_, rfl⟩ permanent
        · rfl
      have kind : classify (.error e) = .transient e := by
        unfold classify
        split
        · rename_i h; cases h
        · rename_i h; cases h
        · rename_i h; cases h; exact absurd ⟨_, rfl⟩ permanent
        · rename_i h; cases h; rfl
      rw [thrown] at caught
      refine ⟨.error e, x₂, caught, ?_⟩
      rw [outcome, kind, kept, hview]
      exact .transient e now

end Attempts

/-! ## The loop -/

/-- The end of a job: the row, the usage, one published event and the dead letters. -/
structure Settled (env : Env) (v v' : View) (attempts : Nat) (status : TransferStatus)
    (usage : List TenantUsage) (event : TransferEvent) (dead : List DeadLetterJobData) : Prop where
  row : ∃ row, v'.rows = [row] ∧ row.status = status ∧ row.attempts = attempts
  usage : v'.usage = usage
  kafka : v'.kafka = (v.announce env event).kafka
  deliveries : v'.deliveries = (v.announce env event).deliveries
  deadLetters : v'.deadLetters = v.deadLetters ++ dead

/-- The reason the `failed` handler gives after the last of `N` attempts. -/
def exhaustedAfter (N : Nat) (err : Err) : String :=
  "Exhausted " ++ toString N ++ " attempts. Last error: " ++ err.message

/-- What the last attempt's outcome must have led to. -/
def Settles (env : Env) (row : FileTransfer) (N : Nat) (v v' : View) (attempts : Nat) :
    Outcome → Prop
  | .success u => Settled env v v' attempts .success (Db.addUsage row.tenantId u.sizeBytes v.usage)
      (transferEvent row .transferCompleted u.event) []
  | .permanent message => Settled env v v' attempts .failed v.usage
      (transferEvent row .transferFailed (.failed message)) [⟨row.id, message⟩]
  | .transient err => Settled env v v' attempts .failed v.usage
      (transferEvent row .transferFailed (.failed (exhaustedAfter N err)))
      [⟨row.id, exhaustedAfter N err⟩]
  | .skipped => False

/-- The row and the jobs at the start do not matter to it. -/
theorem Settles.earlier {env : Env} {t : FileTransfer} {N now attempts : Nat} {v v' : View}
    {rows : List FileTransfer} {jobs : List Job} {o : Outcome}
    (h : Settles env (Patch.markProcessing.apply now t) N { v with rows := rows, jobs := jobs } v'
      attempts o) : Settles env t N v v' attempts o := by
  cases o with
  | skipped => exact h
  | _ => exact ⟨h.row, h.usage, h.kafka, h.deliveries, h.deadLetters⟩

def jobIn (jobId : Nat) (v : View) : Option Job := v.jobs.find? fun j => j.id = jobId

/-- The job waits for its next attempt, `i` attempts are behind it. -/
structure Waiting (N i r jobId : Nat) (v : View) (t : FileTransfer) (job : Job) : Prop where
  ready : Ready v t
  attempts : t.attempts = i
  queued : jobIn jobId v = some job
  target : job.data.transferId = r
  limit : job.attempts = some N
  made : job.attemptsMade = i
  state : job.state = .waiting

section Queue
variable {r jobId : Nat} {s : State}

theorem jobIn_view (jobId : Nat) (s : State) : jobIn jobId (view r s) = findJob jobId s := rfl

theorem view_setJob (f : Job → Job) (s : State) :
    view r (setJob f jobId s) = { view r s with
      jobs := (view r s).jobs.map fun j => if j.id = jobId then f j else j } := rfl

theorem jobIn_setJob (f : Job → Job) (keeps : ∀ j, (f j).id = j.id) {job : Job}
    (h : jobIn jobId (view r s) = some job) :
    jobIn jobId (view r (setJob f jobId s)) = some (f job) := by
  have number : job.id = jobId := by simpa using List.find?_some h
  have found := findJob_setJob keeps jobId jobId s
  rw [show findJob jobId s = some job from h, Option.map_some, if_pos number] at found
  exact found

end Queue

section Handler
variable (env : Env) (pid : Nat) {r N : Nat} {x : Solo} {t : FileTransfer}

theorem runTask_eq {task : Task} {out : Except Err Reply} {y : Solo}
    (h : (code env task).run (serve env pid preparing) x = (out, y)) :
    runTask env pid task x =
      (⟨(finish env task out y.state).1, y.turns⟩, (finish env task out y.state).2) := by
  unfold runTask runAlone
  rw [h]

/-- While attempts are left the handler does nothing. -/
theorem handler_early (job : Job) (limit : job.attempts.getD 1 = N) (left : job.attemptsMade < N)
    (err : Err) :
    (runTask env pid (.onFailed job err) x).1 = x := by
  have idle : onFailed env job err = pure () := by
    unfold onFailed
    rw [limit, if_pos left]
  have run : (code env (.onFailed job err)).run (serve env pid preparing) x =
      (.ok .finished, x) := by
    unfold code finished
    dsimp only
    rw [idle]
    rfl
  rw [runTask_eq env pid run]
  rfl

theorem handler_last (job : Job) (ready : Ready (view r x.state) t)
    (target : job.data.transferId = r) (limit : job.attempts.getD 1 = N)
    (used : N ≤ job.attemptsMade) (err : Err) :
    ∃ now, view r (runTask env pid (.onFailed job err) x).1.state = { ({ view r x.state with
        rows := [(Patch.markFailed (exhaustedAfter N err)).apply now t] }.announce env
          (transferEvent t .transferFailed (.failed (exhaustedAfter N err)))) with
      deadLetters := (view r x.state).deadLetters ++ [⟨t.id, exhaustedAfter N err⟩] } := by
  have reason : exhausted job err = exhaustedAfter N err := by
    unfold exhausted exhaustedAfter
    rw [limit]
  obtain ⟨now, x₁, marked, hview₁⟩ :=
    update_served env pid ready.idle (.markFailed (exhaustedAfter N err))
  have rows₁ :
      (view r x₁.state).rows = [(Patch.markFailed (exhaustedAfter N err)).apply now t] := by
    rw [hview₁, ready.rows]
    rfl
  obtain ⟨x₂, read, hview₂⟩ := findOne_served env pid rows₁
  obtain ⟨x₃, told, hview₃⟩ := publish_served env pid (r := r) (x := x₂)
    ((Patch.markFailed (exhaustedAfter N err)).apply now t) .transferFailed
    (.failed (exhaustedAfter N err))
  obtain ⟨y, added, hview⟩ := deadLetter_served env pid (r := r) (x := x₃) ⟨r, exhaustedAfter N err⟩
  have run : (onFailed env job err).run (serve env pid preparing) x = (.ok (), y) := by
    unfold onFailed
    rw [limit, reason, target, if_neg (by omega)]
    refine (run_bind_ok (run_call marked)).trans ((run_bind_ok (run_call read)).trans ?_)
    exact (run_bind_ok told).trans (run_call added)
  refine ⟨now, ?_⟩
  have task : (runTask env pid (.onFailed job err) x).1 = y := by
    have ran : (code env (.onFailed job err)).run (serve env pid preparing) x =
        (.ok .finished, y) :=
      run_bind_ok run
    rw [runTask_eq env pid ran]
    rfl
  rw [task, hview, hview₃, hview₂, hview₁, ready.rows, ready.id]
  rfl

end Handler

section Runs
variable (env : Env) (pid : Nat) {r N i jobId : Nat} {x : Solo} {t : FileTransfer} {job : Job}

/-- The job is taken: it is active and nothing else has changed. -/
theorem takeJob_waiting (w : Waiting N i r jobId (view r x.state) t job) :
    takeJob jobId x.state =
      some (setJob (fun j => { j with state := .active }) jobId x.state,
        .process jobId job.data) := by
  have found : findJob jobId x.state = some job := w.queued
  unfold takeJob
  rw [found]
  exact if_pos w.state

/-- The taken job, at the start of its attempt. -/
def taken (jobId : Nat) (x : Solo) : Solo :=
  ⟨setJob (fun j => { j with state := .active }) jobId x.state, x.turns⟩

/-- The job is over in the queue. -/
def Over (jobId : Nat) (s : State) : Prop :=
  ∃ job, findJob jobId s = some job ∧ (job.state = .completed ∨ job.state = .failed)

theorem runJob_over (h : Over jobId x.state) (fuel : Nat) :
    runJob env pid jobId fuel x = ([], x) := by
  cases fuel with
  | zero => rfl
  | succ fuel =>
    obtain ⟨job, found, ended⟩ := h
    have refused : takeJob jobId x.state = none := by
      unfold takeJob
      rw [found]
      exact if_neg (by rcases ended with h | h <;> rw [h] <;> decide)
    simp only [runJob, refused]

/-- An attempt that returns completes its job. -/
theorem attempt_returned {data : TransferJobData} {y : Solo}
    (queued : jobIn jobId (view r y.state) = some job)
    (run : (runTransfer env data).run (serve env pid preparing) x = (.ok (), y)) :
    Over jobId (attempt env pid jobId data x).state ∧
      view r (attempt env pid jobId data x).state = { view r y.state with
        jobs := (view r (attempt env pid jobId data x).state).jobs } ∧
      ∀ n, n ≠ jobId → findJob n (attempt env pid jobId data x).state = findJob n y.state := by
  have ran : (code env (.process jobId data)).run (serve env pid preparing) x =
      (.ok .finished, y) :=
    run_bind_ok run
  have ended : attempt env pid jobId data x =
      ⟨setJob (fun j => { j with state := .completed }) jobId y.state, y.turns⟩ := by
    unfold attempt
    rw [runTask_eq env pid ran]
    rfl
  rw [ended]
  have done := jobIn_setJob (fun j => { j with state := .completed }) (fun _ => rfl) queued
  exact ⟨⟨_, done, .inl rfl⟩, rfl, fun n other =>
    findJob_other (f := fun j => { j with state := .completed }) (fun _ => rfl) other y.state⟩

/-- A throwing attempt is counted and its handler is run. -/
theorem attempt_threw {data : TransferJobData} {err : Err} {y : Solo}
    (queued : jobIn jobId (view r y.state) = some job)
    (run : (runTransfer env data).run (serve env pid preparing) x = (.error err, y)) :
    attempt env pid jobId data x =
      (runTask env pid (.onFailed (failedRun job) err)
        ⟨setJob failedRun jobId y.state, y.turns⟩).1 := by
  have ran : (code env (.process jobId data)).run (serve env pid preparing) x = (.error err, y) :=
    run_bind_error run
  have found : findJob jobId y.state = some job := queued
  unfold attempt
  rw [runTask_eq env pid ran]
  simp only [finish, found, List.foldl_cons, List.foldl_nil]

/-- The job after a failed run of one of its attempts. -/
theorem Waiting.failedRun {v : View} (w : Waiting N i r jobId v t job) :
    (failedRun { job with state := .active }).attemptsMade = i + 1 ∧
      (failedRun { job with state := .active }).attempts.getD 1 = N ∧
      (failedRun { job with state := .active }).state = if i + 1 <
        N then .waiting else .failed := by
  refine ⟨congrArg (· + 1) w.made, ?_, ?_⟩
  · change job.attempts.getD 1 = N
    rw [w.limit, Option.getD_some]
  · simp only [Orchestrator.failedRun, w.limit, w.made, Option.getD_some]

section Failed
variable {y : Solo} {err : Err} {now : Nat} (w : Waiting N i r jobId (view r x.state) t job)
  (queued : jobIn jobId (view r y.state) = some { job with state := .active })
  (hv : view r y.state =
    { view r (taken jobId x).state with rows := [Patch.markProcessing.apply now t] })
include w queued hv

/-- A transient failure before the last attempt: the job waits again. -/
theorem failed_waits (more : i + 1 < N) :
    (runTask env pid (.onFailed (failedRun { job with state := .active }) err)
        ⟨setJob failedRun jobId y.state, y.turns⟩).1 = ⟨setJob failedRun jobId y.state, y.turns⟩ ∧
      Waiting N (i + 1) r jobId (view r (setJob failedRun jobId y.state))
        (Patch.markProcessing.apply now t) (failedRun { job with state := .active }) := by
  obtain ⟨counted, limit, again⟩ := w.failedRun
  refine ⟨handler_early env pid _ limit (by rw [counted]; exact more) err, ?_⟩
  refine ⟨⟨?_, ?_, fun h => nomatch h⟩, congrArg (· + 1) w.attempts,
    jobIn_setJob failedRun (fun _ => rfl) queued, w.target, w.limit,
    counted, by rw [again, if_pos more]⟩
  · rw [view_setJob, hv]
    exact w.ready.idle
  · rw [view_setJob, hv]

/-- A transient failure of the last attempt: the job is over and the row FAILED. -/
theorem failed_settles (last : ¬ i + 1 < N) (left : i < N) :
    Over jobId (runTask env pid (.onFailed (failedRun { job with state := .active }) err)
        ⟨setJob failedRun jobId y.state, y.turns⟩).1.state ∧
      Settles env t N (view r x.state)
        (view r (runTask env pid (.onFailed (failedRun { job with state := .active }) err)
          ⟨setJob failedRun jobId y.state, y.turns⟩).1.state) (i + 1) (.transient err) := by
  obtain ⟨counted, limit, again⟩ := w.failedRun
  have ready :
      Ready (view r (setJob failedRun jobId y.state)) (Patch.markProcessing.apply now t) := by
    rw [view_setJob, hv]
    exact ⟨w.ready.idle, rfl, fun h => nomatch h⟩
  obtain ⟨now', hview⟩ := handler_last env pid (x := ⟨setJob failedRun jobId y.state, y.turns⟩)
    (failedRun { job with state := .active }) ready w.target limit (by rw [counted]; omega) err
  constructor
  · refine ⟨failedRun { job with state := .active }, ?_, .inr (by rw [again, if_neg last])⟩
    rw [← jobIn_view (r := r), hview]
    exact jobIn_setJob failedRun (fun _ => rfl) queued
  · rw [hview, view_setJob, hv]
    exact ⟨⟨_, rfl, rfl, congrArg (· + 1) w.attempts⟩, rfl, rfl, rfl, rfl⟩

end Failed

/-- One attempt of a waiting job: it settles the job, or the job waits again. -/
theorem attempt_ends (w : Waiting N i r jobId (view r x.state) t job) (left : i < N) :
    (Over jobId (attempt env pid jobId job.data (taken jobId x)).state ∧
      Settles env t N (view r x.state)
        (view r (attempt env pid jobId job.data (taken jobId x)).state)
        (i + 1) (outcomeOf env pid job.data (taken jobId x)) ∧
      ((outcomeOf env pid job.data (taken jobId x)).isTransient = true → N ≤ i + 1)) ∨
    (outcomeOf env pid job.data (taken jobId x)).isTransient = true ∧ i + 1 < N ∧
      ∃ now job', Waiting N (i + 1) r jobId
        (view r (attempt env pid jobId job.data (taken jobId x)).state)
        (Patch.markProcessing.apply now t) job' ∧
      view r (attempt env pid jobId job.data (taken jobId x)).state = { view r x.state with
        rows := [Patch.markProcessing.apply now t]
        jobs := (view r (attempt env pid jobId job.data (taken jobId x)).state).jobs } := by
  have queued : jobIn jobId (view r (taken jobId x).state) = some { job with state := .active } :=
    jobIn_setJob (fun j => { j with state := .active }) (fun _ => rfl) w.queued
  have ready : Ready (view r (taken jobId x).state) t :=
    ⟨w.ready.idle, w.ready.rows, w.ready.unfinished⟩
  obtain ⟨out, y, run, attempted⟩ := attempt_served env pid ready w.target
  have queued' : jobIn jobId (view r y.state) = some { job with state := .active } := by
    unfold jobIn at queued ⊢
    rw [attempted.jobs]
    exact queued
  generalize hv : view r y.state = v at attempted
  generalize outcomeOf env pid job.data (taken jobId x) = o at attempted ⊢
  cases attempted with
  | success u now now' =>
    obtain ⟨ended, hview, -⟩ := attempt_returned env pid queued' run
    refine .inl ⟨ended, ?_, fun h => nomatch h⟩
    rw [hview, hv]
    exact ⟨⟨_, rfl, rfl, congrArg (· + 1) w.attempts⟩, rfl, rfl, rfl, (List.append_nil _).symm⟩
  | permanent message now now' =>
    obtain ⟨ended, hview, -⟩ := attempt_returned env pid queued' run
    refine .inl ⟨ended, ?_, fun h => nomatch h⟩
    rw [hview, hv]
    exact ⟨⟨_, rfl, rfl, congrArg (· + 1) w.attempts⟩, rfl, rfl, rfl, rfl⟩
  | transient err now =>
    rw [attempt_threw env pid queued' run]
    by_cases more : i + 1 < N
    · obtain ⟨unmoved, waits⟩ := failed_waits env pid w queued' hv more
      rw [unmoved]
      refine .inr ⟨rfl, more, now, _, waits, ?_⟩
      rw [view_setJob, hv]
      rfl
    · obtain ⟨ended, settles⟩ := failed_settles env pid w queued' hv more left
      exact .inl ⟨ended, settles, fun _ => by omega⟩

/-- From any attempt on: the rest of the attempts, and how the job ends. -/
theorem runJob_settles (fuel : Nat) (w : Waiting N i r jobId (view r x.state) t job) (left : i < N)
    (enough : N ≤ fuel + i) :
    ∃ early last, (runJob env pid jobId fuel x).1 = early ++ [last] ∧
      (∀ o ∈ early, o.isTransient = true) ∧ i + early.length + 1 ≤ N ∧
      (i + early.length + 1 < N → last.isTransient = false) ∧
      Over jobId (runJob env pid jobId fuel x).2.state ∧
      Settles env t N (view r x.state) (view r (runJob env pid jobId fuel x).2.state)
        (i + early.length + 1) last := by
  induction fuel generalizing i x t job with
  | zero => omega
  | succ fuel ih =>
    have step : runJob env pid jobId (fuel + 1) x = (outcomeOf env pid job.data (taken jobId x) ::
        (runJob env pid jobId fuel (attempt env pid jobId job.data (taken jobId x))).1,
        (runJob env pid jobId fuel (attempt env pid jobId job.data (taken jobId x))).2) := by
      simp only [runJob, takeJob_waiting w]
      rfl
    rw [step]
    rcases attempt_ends env pid w left with ⟨ended, settles, last⟩ | ⟨again, more, now,
      job', w', hview⟩
    · rw [runJob_over env pid ended]
      refine ⟨[], _, rfl, fun o ho => (nomatch ho), left, fun more => ?_, ended, settles⟩
      by_contra transient
      have := last (by simpa using transient)
      simp only [List.length_nil] at more
      omega
    · obtain ⟨early, last, houtcomes, transient, within, ends, ended, settles⟩ :=
        ih w' more (by omega)
      refine ⟨outcomeOf env pid job.data (taken jobId x) :: early, last, ?_, ?_, ?_, ?_, ended, ?_⟩
      · dsimp only
        rw [houtcomes]
        rfl
      · intro o ho
        rcases List.mem_cons.mp ho with rfl | ho
        · exact again
        · exact transient o ho
      · simp only [List.length_cons]
        omega
      · intro less
        refine ends ?_
        simp only [List.length_cons] at less
        omega
      · -- only the row and the job differ from the state before the attempt
        rw [hview] at settles
        have count : i + (early.length + 1) + 1 = i + 1 + early.length + 1 := by omega
        simp only [List.length_cons, count]
        exact settles.earlier

/-- A pending row that was never attempted, and a waiting job of `N` attempts for it. -/
structure OneJob (N r jobId : Nat) (s : State) (row : FileTransfer) (job : Job) : Prop where
  idle : s.db.openTxs = []
  stored : s.db.transfers.filter (fun t => t.id = r) = [row]
  pending : row.status = .pending
  fresh : row.attempts = 0
  queued : findJob jobId s = some job
  target : job.data.transferId = r
  limit : job.attempts = some N
  unused : job.attemptsMade = 0
  waiting : job.state = .waiting

/-- Whatever happens to the attempts, the job stops at the first one that is not
transient, or after `N`; the row counts the attempts, and the last outcome alone
decides the row's status, the usage, the one event and the dead letters. -/
theorem job_settles (N r jobId : Nat) (x : Solo) (row : FileTransfer) (job : Job) (fuel : Nat)
    (start : OneJob N r jobId x.state row job) (positive : 1 ≤ N) (enough : N ≤ fuel) :
    ∃ early last, (runJob env pid jobId fuel x).1 = early ++ [last] ∧
      (∀ o ∈ early, o.isTransient = true) ∧ early.length + 1 ≤ N ∧
      (early.length + 1 < N → last.isTransient = false) ∧
      Over jobId (runJob env pid jobId fuel x).2.state ∧
      Settles env row N (view r x.state) (view r (runJob env pid jobId fuel x).2.state)
        (early.length + 1) last := by
  have w : Waiting N 0 r jobId (view r x.state) row job :=
    ⟨⟨start.idle, start.stored, by rw [start.pending]; decide⟩, start.fresh,
      start.queued, start.target,
      start.limit, start.unused, start.waiting⟩
  simpa using runJob_settles env pid fuel w positive enough

end Runs

def sampleJob : Job := ⟨0, ⟨0, []⟩, 0, some 3, .waiting⟩

/-- The sample upload in the queue; the read of the first attempt is rejected. -/
def sampleAttempts : Solo where
  state := { sampleState with
    db := { sampleState.db with transfers := [sampleRow] }
    queues := { sampleState.queues with jobs := [sampleJob] } }
  turns n := if n = 4 then { choice := .rejected "Error" "EIO" } else {}

theorem sampleAttempts_start : OneJob 3 0 0 sampleAttempts.state sampleRow sampleJob := by
  constructor <;> decide +kernel

theorem job_settles_sample : ∃ u, OneJob 3 0 0 sampleAttempts.state sampleRow sampleJob ∧
    (runJob sampleEnv 1 0 3 sampleAttempts).1.length = 2 ∧
    Settles sampleEnv sampleRow 3 (view 0 sampleAttempts.state)
      (view 0 (runJob sampleEnv 1 0 3 sampleAttempts).2.state) 2 (.success u) := by
  obtain ⟨early, last, outcomes, -, -, -, -, settles⟩ :=
    job_settles sampleEnv 1 3 0 0 sampleAttempts
    sampleRow sampleJob 3 sampleAttempts_start (by decide) (by decide)
  have kinds : (runJob sampleEnv 1 0 3 sampleAttempts).1.map (fun o => match o with
      | .success _ => true
      | _ => false) = [false, true] := by decide +kernel
  have two : (runJob sampleEnv 1 0 3 sampleAttempts).1.length = 2 := by
    simpa using congrArg List.length kinds
  rw [outcomes, List.length_append] at two
  have one : early.length + 1 = 2 := by simpa using two
  rw [outcomes, List.map_append] at kinds
  have final := congrArg List.getLast? kinds
  rw [one] at settles
  cases last with
  | success u =>
    refine ⟨u, sampleAttempts_start, ?_, settles⟩
    rw [outcomes, List.length_append]
    exact one
  | permanent message => simp at final
  | transient err => simp at final
  | skipped => simp at final

end JobOutcome
