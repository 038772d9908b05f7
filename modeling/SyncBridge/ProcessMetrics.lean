import SyncBridge.Instruments
import SyncBridge.ThreadLedgers

/-!
# What the metrics of a process say

The counters of a process against the updates that its workers have made: attempts
that were recorded as finished in a row are counted, at once or by a worker that is
still at it. The gauge of transfers in flight is raised before the row is marked and
lowered in a `finally` clause that the mark is not inside of, so that every mark the
database refuses leaves it one too high, for as long as the process lives.
-/

namespace ProcessMetrics

open AwaitPrograms CombinedCalls ThreadPools ThreadLedgers Entities Database Calls Worker
open Orchestrator Footprints Instruments

inductive Counter where
  | inFlight
  | succeeded
  | failed
  | durations
  deriving DecidableEq, Repr

def Counter.read (r : Registry) : Counter → Int
  | .inFlight => r.inFlight
  | .succeeded => r.succeeded
  | .failed => r.failed
  | .durations => r.durations

/-- A worker has updated a row, or the database has refused it. -/
structure Mark where
  process : Nat
  patch : Patch
  accepted : Bool
  deriving DecidableEq, Repr

/-- The marks a counter is about. -/
def Counter.counts : Counter → Patch → Bool → Bool
  | .inFlight, .markProcessing, accepted => !accepted
  | .durations, .markProcessing, accepted => accepted
  | .succeeded, .markSuccess _ _ _ _ _ _ _, accepted => accepted
  | .failed, .markFailed _, accepted => accepted
  | _, _, _ => false

def worker : Task → Bool
  | .process _ _ => true
  | .onFailed _ _ => true
  | _ => false

def markOf (n : Nat) : (op : Op ⊕ SideOp) → Bool → List Mark
  | .inl (.db (.update _ patch)), accepted => [⟨n, patch, accepted⟩]
  | _, _ => []

/-- The mark that a step is. -/
def marked (env : Env) (home : Nat → Nat) (w : SiteWorld) : SiteAct → List Mark
  | .resume pid c => match focus pid w.threads with
    | none => []
    | some (_, t, _) =>
      if worker t.task then match t.prog with
        | .done _ => []
        | .await op _ => match execSite env home pid op c w.store with
          | none => []
          | some (a, _) => markOf (home pid) op a.isOk
      else []
  | _ => []

/-- Marks of this process that the counter is about. -/
def counted (n : Nat) (counter : Counter) (log : List Mark) : Nat :=
  log.countP fun m => m.process = n && counter.counts m.patch m.accepted

/-- Workers at work in this process. -/
def workers (home : Nat → Nat) (n : Nat) (threads : List SiteThread) : Nat :=
  threads.countP fun t => home t.pid = n && worker t.task

/-- No thread of the process is lost; a process that dies takes its registry with it. -/
def Stays (home : Nat → Nat) (n : Nat) (_ : SiteWorld) : SiteAct → Prop
  | .crash pid => home pid ≠ n
  | _ => True

/-! ## Standing -/

/-- Where a worker stands between its marks and its metrics. -/
inductive Standing where
  | idle
  | raised
  | working
  | stored
  | rejected
  | lowered
  | failing
  deriving DecidableEq, Repr

/-- What the registry of its process still lacks, or has too much of. -/
def Standing.weight : Counter → Standing → Int
  | .inFlight, .raised => -1
  | .inFlight, .working => -1
  | .inFlight, .stored => -1
  | .inFlight, .rejected => -1
  | .durations, .working => 1
  | .durations, .stored => 1
  | .durations, .rejected => 1
  | .durations, .lowered => 1
  | .succeeded, .stored => 1
  | .failed, .rejected => 1
  | .failed, .failing => 1
  | _, _ => 0

/-- Marks and metrics have their order. -/
def inTurn (v : Standing) : Op ⊕ SideOp → Prop
  | .inl (.db (.update _ .markProcessing)) => v = .raised
  | .inl (.db (.update _ (.markSuccess _ _ _ _ _ _ _))) => v = .working
  | .inl (.db (.update _ (.markFailed _))) => v = .working ∨ v = .idle
  | .inr (.metric .incInFlight) => v = .idle
  | .inr (.metric .decInFlight) => v = .working
  | .inr (.metric .endTimer) => v = .lowered
  | .inr (.metric (.recordSuccess _)) => v = .stored
  | .inr (.metric .recordFailure) => v = .rejected ∨ v = .failing
  | _ => True

def advance (v : Standing) : Op ⊕ SideOp → Bool → Standing
  | .inl (.db (.update _ .markProcessing)), ok => if ok then .working else .idle
  | .inl (.db (.update _ (.markSuccess _ _ _ _ _ _ _))), ok => if ok then .stored else v
  | .inl (.db (.update _ (.markFailed _))), ok =>
    if ok then (if v = .working then .rejected else .failing) else v
  | .inr (.metric .incInFlight), _ => .raised
  | .inr (.metric .decInFlight), _ => .lowered
  | .inr (.metric .endTimer), _ => .idle
  | .inr (.metric (.recordSuccess _)), _ => .working
  | .inr (.metric .recordFailure), _ => if v = .rejected then .working else .idle
  | _, _ => v

/-- Counting cannot fail. -/
def Answers (op : Op ⊕ SideOp) (ok : Bool) : Prop :=
  match op with
  | .inr (.metric _) => ok = true
  | _ => True

def metered : Monitor (Op ⊕ SideOp) (Either Op.Ans SideOp.Ans) Err Standing where
  may := inTurn
  next v op a v' := Answers op a.isOk ∧ v' = advance v op a.isOk

/-- Other tasks have no metrics. -/
def unmetered : Monitor (Op ⊕ SideOp) (Either Op.Ans SideOp.Ans) Err Standing where
  may _ op := op.isLeft = true
  next v _ _ v' := v' = v

def metering (task : Task) : Monitor (Op ⊕ SideOp) (Either Op.Ans SideOp.Ans) Err Standing :=
  if worker task then metered else unmetered

section Programs
variable {env : Env} {α : Type} {v : Standing}

/-- A program that leaves the standing as it is. -/
abbrev Still (v : Standing) (p : SideAsync α) : Prop := Obeys metered (fun v' _ => v' = v) v p

/-- Calls other than updates. -/
def Unmarking : Op → Prop
  | .db (.update _ _) => False
  | _ => True

theorem unmarking_still {op : Op} (h : Unmarking op) (v : Standing) (ok : Bool) :
    inTurn v (.inl op) ∧ advance v (.inl op) ok = v := by
  cases op with
  | db op =>
    cases op with
    | update id patch => exact h.elim
    | _ => exact ⟨trivial, rfl⟩
  | _ => exact ⟨trivial, rfl⟩

theorem still_left {p : Async α} (calls : Within Unmarking AnyErr AnyErr p) : Still v (left p) := by
  induction p with
  | done r => exact rfl
  | await op k ih =>
    refine ⟨(unmarking_still calls.1 v true).1, fun a v' next => ?_⟩
    obtain ⟨-, same⟩ := next
    rw [(unmarking_still calls.1 v _).2] at same
    rw [same]
    exact ih a (calls.2 a fun _ _ => trivial)

theorem still_bind {β : Type} {p : SideAsync α} {f : α → SideAsync β} (first : Still v p)
    (rest : ∀ a, Still v (f a)) : Still v (p.bind f) := by
  refine first.andThen (fun v' a same => ?_) fun v' e same => same
  subst same
  exact rest a

/-- A call that does not count. -/
theorem still_side {op : SideOp} (uncounted : ∀ m, op ≠ .metric m) : Still v (side op) := by
  cases op with
  | metric m => exact (uncounted m rfl).elim
  | _ => exact ⟨trivial, fun _ _ next => next.2⟩

theorem publish_still (key : String) (event : TransferEvent) :
    Still v (KafkaProducerService.publish env key event) := by
  unfold KafkaProducerService.publish
  split
  · refine Obeys.orElse (q := fun v' _ => v' = v) ?_ (fun _ _ same => same) fun _ _ same => same
    refine still_bind (still_side (by simp)) fun ready => ?_
    split
    · exact still_side (by simp)
    · exact still_bind (still_side (by simp)) fun _ => still_bind (still_side (by simp))
        fun _ => still_side (by simp)
  · exact rfl

theorem publishTransferEvent_still (t : FileTransfer) (type : EventType) (data : EventData) :
    Still v (Instruments.publishTransferEvent env t type data) := by
  refine still_bind (publish_still _ _) fun _ => still_bind (still_left ?_)
    fun subs => still_left ?_
  · exact within_call trivial fun _ h => h
  · exact within_forEach fun s _ => within_call trivial fun _ h => h

theorem prepare_still (t : FileTransfer) : Still v (left (prepareAndUpload env t)) := by
  refine still_left ((prepare_within t).mono (fun op call => ?_) fun _ h => h)
  unfold PrepareCall at call
  split at call <;> trivial

/-- A metric in its turn. -/
theorem obeys_metric {post : Standing → Except Err α → Prop} {m : Metric} {f : Unit → SideAsync α}
    (turn : inTurn v (.inr (.metric m)))
    (rest : Obeys metered post (advance v (.inr (.metric m)) true) (f ())) :
    Obeys metered post v ((metric m).bind f) := by
  refine obeys_call turn (fun a v' next => ?_) fun e v' next => ?_
  · obtain ⟨-, rfl⟩ := next
    exact rest
  · cases next.1

/-- A mark in its turn. -/
theorem obeys_mark {post : Standing → Except Err α → Prop} {id : Nat} {patch : Patch}
    {f : Unit → SideAsync α} (turn : inTurn v (.inl (.db (.update id patch))))
    (accepted : Obeys metered post (advance v (.inl (.db (.update id patch))) true) (f ()))
    (refused : ∀ e, post (advance v (.inl (.db (.update id patch))) false) (.error e)) :
    Obeys metered post v ((left (db (.update id patch))).bind f) := by
  refine obeys_call turn (fun a v' next => ?_) fun e v' next => ?_
  · obtain ⟨-, rfl⟩ := next
    exact accepted
  · obtain ⟨-, rfl⟩ := next
    exact refused e

theorem toDeadLetter_still (id : Nat) (reason : String) : Still v (left (toDeadLetter id reason)) :=
  still_left (within_call trivial fun _ h => h)

theorem complete_still (t : FileTransfer) (u : Uploaded) :
    Still .working (Instruments.complete env t u) := by
  refine obeys_mark (by exact rfl) ?_ fun _ => rfl
  refine obeys_metric (by exact rfl) ?_
  exact still_bind (still_left (within_call trivial fun _ h => h))
    fun _ => publishTransferEvent_still _ _ _

theorem reject_still (t : FileTransfer) (err : Err) :
    Still .working (Instruments.reject env t err) := by
  unfold Instruments.reject
  split
  · refine obeys_mark (by exact .inl rfl) ?_ fun _ => rfl
    refine obeys_metric (by exact .inl rfl) ?_
    exact still_bind (publishTransferEvent_still _ _ _) fun _ => toDeadLetter_still _ _
  · exact rfl

theorem cleanup_metered (r : Except Err α) :
    Obeys metered (fun v _ => v = .idle) .working
      (((metric .decInFlight).bind fun _ => metric .endTimer).bind fun _ => .done r) := by
  refine Obeys.andThen (q := fun v r => v = Standing.idle ∧ r = .ok ()) ?_ (fun v _ h => h.1)
    fun v e h => ?_
  · refine obeys_metric rfl ⟨rfl, fun a v' next => ?_⟩
    obtain ⟨counted, same⟩ := next
    cases a with
    | ok a => exact ⟨same, rfl⟩
    | error e => cases counted
  · cases h.2

theorem runTransfer_still (data : TransferJobData) :
    Still .idle (Instruments.runTransfer env data) := by
  refine still_bind (still_left (within_call trivial fun _ h => h)) fun found => ?_
  split
  · exact rfl
  split
  · exact rfl
  rename_i transfer _
  refine obeys_metric (by trivial) (obeys_metric (by exact rfl) ?_)
  -- a refused mark ends the attempt with the gauge still up
  refine obeys_mark (by exact rfl) ?_ fun _ => rfl
  refine Obeys.finally (q := fun v _ => v = .working) ?_ fun v r same => ?_
  · refine Obeys.orElse (q := fun v _ => v = .working) ?_ (fun _ _ same => same) fun v e same => ?_
    · exact still_bind (prepare_still transfer) fun u => complete_still transfer u
    · subst same
      exact reject_still transfer e
  · subst same
    exact cleanup_metered r

theorem onFailed_still (job : Job) (err : Err) :
    Still .idle (Instruments.onFailed env job err) := by
  unfold Instruments.onFailed
  split
  · exact rfl
  refine obeys_mark (by exact .inr rfl) ?_ fun _ => rfl
  refine obeys_metric (by exact .inr rfl) ?_
  refine still_bind (still_left (within_call trivial fun _ h => h)) fun found => ?_
  refine still_bind ?_ fun _ => toDeadLetter_still _ _
  split
  · exact rfl
  · exact publishTransferEvent_still _ _ _

theorem unmetered_left (p : Async α) : Obeys unmetered (fun v _ => v = .idle) .idle (left p) := by
  induction p with
  | done r => exact rfl
  | await op k ih =>
    refine ⟨rfl, fun a v' same => ?_⟩
    obtain rfl : v' = .idle := same
    exact ih a

theorem code_metered (task : Task) :
    Obeys (metering task) (fun v _ => v = .idle) .idle (Instruments.code env task) := by
  cases task with
  | process jobId data => exact still_bind (runTransfer_still data) fun _ => rfl
  | onFailed job err => exact still_bind (onFailed_still job err) fun _ => rfl
  | _ => exact unmetered_left _

end Programs

/-! ## Balance -/

section Books
variable {env : Env} {home : Nat → Nat} {n : Nat} {counter : Counter}

def books (n : Nat) (counter : Counter) (s : Site) : Int := counter.read (s.processes n).metrics

def owes (home : Nat → Nat) (n : Nat) (counter : Counter) (pid : Nat) (task : Task) (v : Standing) :
    Int :=
  if home pid = n ∧ worker task = true then v.weight counter else 0

def due (n : Nat) (counter : Counter) (m : Mark) : Int :=
  if m.process = n ∧ counter.counts m.patch m.accepted = true then 1 else 0

theorem total_due (n : Nat) (counter : Counter) (log : List Mark) :
    total (due n counter) log = counted n counter log := by
  induction log with
  | nil => rfl
  | cons m log ih =>
    have tail : total (due n counter) (m :: log) = due n counter m + total (due n counter) log := by
      simp [total]
    rw [tail, ih, due, counted, counted, List.countP_cons]
    by_cases here : m.process = n ∧ counter.counts m.patch m.accepted = true
    · rw [if_pos here, if_pos (by simpa using here)]
      omega
    · rw [if_neg here, if_neg (by simpa using here)]
      omega

/-- A metric in its turn makes up for what its worker owes. -/
theorem record_balance {v : Standing} {m : Metric} (turn : inTurn v (.inr (.metric m)))
    (r : Registry) (counter : Counter) :
    counter.read (r.record m) + (advance v (.inr (.metric m)) true).weight counter =
      counter.read r + v.weight counter := by
  cases m with
  | startTimer => rfl
  | endTimer =>
    obtain rfl : v = .lowered := turn
    cases counter <;> simp [Counter.read, Registry.record, advance, Standing.weight]
  | incInFlight =>
    obtain rfl : v = .idle := turn
    cases counter <;> simp [Counter.read, Registry.record, advance, Standing.weight]
  | decInFlight =>
    obtain rfl : v = .working := turn
    cases counter with
    | inFlight =>
      show r.inFlight - 1 + 0 = r.inFlight + -1
      omega
    | _ => rfl
  | recordSuccess bytes =>
    obtain rfl : v = .stored := turn
    cases counter <;> simp [Counter.read, Registry.record, advance, Standing.weight]
  | recordFailure =>
    obtain rfl | rfl : v = .rejected ∨ v = .failing := turn <;>
      cases counter <;> simp [Counter.read, Registry.record, advance, Standing.weight]

/-- A mark in its turn makes its worker owe what is now due. -/
theorem mark_balance {v : Standing} {id : Nat} {patch : Patch}
    (turn : inTurn v (.inl (.db (.update id patch)))) (ok : Bool) (counter : Counter) :
    (advance v (.inl (.db (.update id patch))) ok).weight counter =
      v.weight counter + if counter.counts patch ok = true then 1 else 0 := by
  cases patch with
  | markProcessing =>
    obtain rfl : v = .raised := turn
    cases ok <;> cases counter <;> rfl
  | markSuccess _ _ _ _ _ _ _ =>
    obtain rfl : v = .working := turn
    cases ok <;> cases counter <;> rfl
  | markFailed _ =>
    obtain rfl | rfl : v = .working ∨ v = .idle := turn <;> cases ok <;> cases counter <;> rfl
  | resetForRetry => cases counter <;> exact (add_zero _).symm

/-- A process whose registry stays as it is. -/
theorem set_metrics (x : Site) (p : Nat) (q : Process) (same : q.metrics = (x.processes p).metrics)
    (n : Nat) :
    ((x.set p q).processes n).metrics = (x.processes n).metrics := by
  by_cases here : n = p
  · subst here
    rw [Site.set_same]
    exact same
  · rw [Site.set_other x q here]

theorem shutdown_metrics (env : Env) (c : Choice) (x : Site) (p n : Nat) :
    ((shutdown env c x p).processes n).metrics = (x.processes n).metrics := by
  rw [shutdown_eq]
  split
  · exact set_metrics x p { x.processes p with connected := false } rfl n
  · rfl

/-- Only metrics change a registry. -/
theorem execSide_metrics {op : SideOp} (uncounted : ∀ m, op ≠ .metric m) (p : Nat) (c : Choice)
    (x : Site) (n : Nat) :
    ((execSide p c x op).2.processes n).metrics = (x.processes n).metrics := by
  cases op with
  | ready => rfl
  | setReady => exact set_metrics x p { x.processes p with ready := true } rfl n
  | connect =>
    rw [execSide]
    split
    · rfl
    · exact set_metrics x p { x.processes p with connected := true } rfl n
  | disconnect =>
    rw [execSide]
    split <;> exact set_metrics x p { x.processes p with connected := false } rfl n
  | send key value =>
    rw [execSide]
    split
    · rfl
    · split <;> rfl
  | metric m => exact (uncounted m rfl).elim

theorem markOf_unmarking {op : Op} (h : Unmarking op) (p : Nat) (ok : Bool) :
    markOf p (.inl op) ok = [] := by
  cases op with
  | db op =>
    cases op with
    | update id patch => exact h.elim
    | _ => rfl
  | _ => rfl

/-- The calls of a worker keep the balance of its process. -/
theorem call_balance {pid : Nat} {c : Choice} {op : Op ⊕ SideOp} {x x' : Site}
    {a : Except Err (Either Op.Ans SideOp.Ans op)} {v : Standing} (turn : inTurn v op)
    (counter : Counter) (answered : execSite env home pid op c x = some (a, x')) :
    Answers op a.isOk ∧ books (home pid) counter x' + (advance v op a.isOk).weight counter =
      books (home pid) counter x + v.weight counter +
        total (due (home pid) counter) (markOf (home pid) op a.isOk) := by
  cases op with
  | inl op =>
    obtain ⟨core, -, rfl⟩ := execSite_left answered
    refine ⟨trivial, ?_⟩
    by_cases quiet : Unmarking op
    · rw [(unmarking_still quiet v _).2, markOf_unmarking quiet, total_nil, add_zero]
      rfl
    · obtain ⟨id, patch, rfl⟩ : ∃ id patch, op = .db (.update id patch) := by
        unfold Unmarking at quiet
        split at quiet
        · exact ⟨_, _, rfl⟩
        · exact absurd trivial quiet
      have one : total (due (home pid) counter) [⟨home pid, patch, a.isOk⟩] =
          if counter.counts patch a.isOk = true then 1 else 0 := by
        simp [total, due]
      rw [mark_balance turn, markOf, one, add_assoc]
      rfl
  | inr op =>
    have after := congrArg Prod.snd (Option.some.inj answered)
    have same (uncounted : ∀ m, op ≠ .metric m) :
        (x'.processes (home pid)).metrics = (x.processes (home pid)).metrics := by
      rw [← execSide_metrics uncounted (home pid) c x (home pid), after]
    cases op with
    | metric m =>
      have counted := congrArg Prod.fst (Option.some.inj answered)
      subst after counted
      refine ⟨rfl, ?_⟩
      have record := record_balance turn (x.processes (home pid)).metrics counter
      show counter.read ((x.set (home pid) _).processes (home pid)).metrics + _ = _
      rw [Site.set_same]
      exact record.trans (add_zero _).symm
    | _ =>
      refine ⟨trivial, ?_⟩
      rw [books, same (by simp)]
      exact (add_zero _).symm

theorem total_elsewhere {p : Nat} (here : p ≠ n) (op : Op ⊕ SideOp) (ok : Bool) :
    total (due n counter) (markOf p op ok) = 0 := by
  unfold markOf
  split
  · simp [total, due, here]
  · rfl

/-- Nothing else touches the registry. -/
theorem call_elsewhere {pid : Nat} {c : Choice} {op : Op ⊕ SideOp} {x x' : Site}
    {a : Except Err (Either Op.Ans SideOp.Ans op)} (elsewhere : op.isLeft = true ∨ n ≠ home pid)
    (counter : Counter) (answered : execSite env home pid op c x = some (a, x')) :
    books n counter x' = books n counter x := by
  cases op with
  | inl op =>
    obtain ⟨core, -, rfl⟩ := execSite_left answered
    rfl
  | inr op =>
    have other : n ≠ home pid := elsewhere.resolve_left (by simp)
    exact congrArg (fun p => counter.read p.metrics) (execSite_other other answered)

theorem owes_idle (pid : Nat) (task : Task) : owes home n counter pid task .idle = 0 := by
  unfold owes
  split
  · cases counter <;> rfl
  · rfl

theorem registry_balances (env : Env) (home : Nat → Nat) (n : Nat) (counter : Counter) :
    Balances (siteMachine env home) (Stays home n) (marked env home) metering
      (fun _ v _ => v = .idle) .idle
      (owes home n counter) (books n counter) (due n counter) where
  code task := code_metered task
  clear pid task := owes_idle pid task
  request w q s task entered := by
    obtain ⟨core, -, rfl⟩ := enterSite_some entered
    exact ⟨rfl, rfl⟩
  resume w pid c l t r op k a s v found at_call may answered := by
    have answered : execSite env home pid op c w.store = some (a, s) := answered
    have noted : marked env home w (.resume pid c) =
        if worker t.task = true then markOf (home pid) op a.isOk else [] := by
      simp only [marked, found, at_call, answered]
    rw [noted]
    by_cases working : worker t.task = true
    · rw [metering, if_pos working] at may ⊢
      rw [if_pos working]
      obtain ⟨answers, balance⟩ := call_balance may counter answered
      refine ⟨advance v op a.isOk, ⟨answers, rfl⟩, ?_⟩
      by_cases here : home pid = n
      · subst here
        rw [owes, owes, if_pos ⟨rfl, working⟩, if_pos ⟨rfl, working⟩]
        exact balance
      · rw [owes, owes, if_neg fun h => here h.1, if_neg fun h => here h.1, total_elsewhere here,
          call_elsewhere (.inr fun h => here h.symm) counter answered]
        exact (add_zero _).symm
    · rw [metering, if_neg working] at may ⊢
      rw [if_neg working, total_nil]
      refine ⟨v, rfl, ?_⟩
      rw [call_elsewhere (.inl may) counter answered, add_zero]
  settle w pid task v out idle := by
    subst idle
    exact ⟨owes_idle pid task, rfl, rfl⟩
  crash w pid task v elsewhere := ⟨if_neg fun here => elsewhere here.1, rfl, rfl⟩
  outside w e s happened := by
    cases e with
    | core e =>
      obtain ⟨core, -, rfl⟩ := outsideSite_core env happened
      exact ⟨rfl, rfl⟩
    | shutdown m c =>
      cases happened
      exact ⟨congrArg counter.read (shutdown_metrics env c w.store m n), rfl⟩

theorem weight_bounds (v : Standing) :
    (-1 ≤ v.weight .inFlight ∧ v.weight .inFlight ≤ 0) ∧
      ∀ counter, counter ≠ .inFlight → 0 ≤ v.weight counter ∧ v.weight counter ≤ 1 := by
  constructor
  · cases v <;> decide
  · intro counter other
    cases counter with
    | inFlight => exact (other rfl).elim
    | _ => cases v <;> decide

theorem workers_cons (t : SiteThread) (ts : List SiteThread) :
    workers home n (t :: ts) = workers home n ts + if home t.pid = n ∧
    worker t.task = true then 1 else 0 := by
  simp only [workers, List.countP_cons, Bool.and_eq_true, decide_eq_true_eq]

/-- Workers owe at most one each. -/
theorem owed_bounds (home : Nat → Nat) (n : Nat) (xs : List (SiteThread × Standing)) :
    (-(workers home n (xs.map (·.1)) : Int) ≤ owed (owes home n .inFlight) xs ∧
      owed (owes home n .inFlight) xs ≤ 0) ∧
    ∀ counter, counter ≠ .inFlight → 0 ≤ owed (owes home n counter) xs ∧
      owed (owes home n counter) xs ≤ workers home n (xs.map (·.1)) := by
  induction xs with
  | nil => exact ⟨⟨Int.le_refl 0, Int.le_refl 0⟩, fun _ _ => ⟨Int.le_refl 0, Int.le_refl 0⟩⟩
  | cons x xs ih =>
    obtain ⟨⟨low, high⟩, others⟩ := ih
    obtain ⟨gauge, counters⟩ := weight_bounds x.2
    rw [List.map_cons, workers_cons]
    refine ⟨?_, fun counter other => ?_⟩
    · rw [owed_cons, owes]
      split <;> constructor <;> omega
    · obtain ⟨low, high⟩ := others counter other
      obtain ⟨least, most⟩ := counters counter other
      rw [owed_cons, owes]
      split <;> constructor <;> omega

/-- The gauge of a process is up by one for every mark that was refused, and by one for
some of the workers that are at it; the counters lag behind their marks by at most the
workers that are at it. A process without workers has a gauge of exactly the refused
marks and exact counters. -/
theorem metrics_account (env : Env) (home : Nat → Nat) (n : Nat) {w₀ w : SiteWorld}
    {log : List Mark} (start : Started env w₀)
    (path : Traced (siteMachine env home) (Stays home n) (marked env home) w₀ w log) :
    (counted n .inFlight log ≤ Counter.inFlight.read (w.store.processes n).metrics ∧
      Counter.inFlight.read (w.store.processes n).metrics ≤ counted n .inFlight log +
        workers home n w.threads) ∧
    ∀ counter, counter ≠ .inFlight →
    counter.read (w.store.processes n).metrics ≤ counted n counter log ∧
      counted n counter log ≤ counter.read (w.store.processes n).metrics +
        workers home n w.threads := by
  have fresh (counter : Counter) : books n counter w₀.store = 0 := by
    obtain ⟨c, s, same⟩ := start.processes n
    rw [books, same, boot_process]
    split <;> cases counter <;> rfl
  have balance (counter : Counter) : ∃ xs : List (SiteThread × Standing), xs.map (·.1) = w.threads ∧
      counter.read (w.store.processes n).metrics + owed (owes home n counter) xs =
        counted n counter log := by
    obtain ⟨xs, kept, settled⟩ := (registry_balances env home n counter).holds start.threads path
    rw [fresh, zero_add, total_due] at settled
    exact ⟨xs, kept.threads, settled⟩
  constructor
  · obtain ⟨xs, threads, settled⟩ := balance .inFlight
    obtain ⟨low, high⟩ := (owed_bounds home n xs).1
    rw [threads] at low
    constructor <;> omega
  · intro counter other
    obtain ⟨xs, threads, settled⟩ := balance counter
    obtain ⟨low, high⟩ := (owed_bounds home n xs).2 counter other
    rw [threads] at high
    constructor <;> omega

/-- The database refuses the mark of worker 2, whose attempt ends with it. -/
def sampleRefused : List SiteAct :=
  (sampleAccepted ++ sampleRelay 1 ++ .request (.takeJob 0) :: answer 2 3).map onSite ++
    [.resume 2 (.rejected "QueryFailedError" "Connection terminated"), .settle 2]

/-- No thread is lost at all. -/
def stays : SiteAct → Bool
  | .crash _ => false
  | _ => true

theorem stays_sound (w : SiteWorld) (a : SiteAct) (h : stays a = true) : Stays home n w a := by
  cases a with
  | crash pid => cases h
  | _ => trivial

/-- The gauge is up, no worker is at it any more, and one mark was refused. -/
theorem metrics_account_sample : ∃ (w : SiteWorld) (log : List Mark), Started brokerEnv sampleSite ∧
    Traced (siteMachine brokerEnv id) (Stays id 2) (marked brokerEnv id) sampleSite w log ∧
    workers id 2 w.threads = 0 ∧
    (w.store.processes 2).metrics.inFlight = 1 ∧ counted 2 .inFlight log = 1 := by
  have run : ((siteMachine brokerEnv id).stepsIf (fun _ a => stays a) sampleSite sampleRefused).map
      (fun w => (workers id 2 w.threads, (w.store.processes 2).metrics.inFlight)) =
        some (0, 1) := by decide +kernel
  obtain ⟨w, hw, facts⟩ := Option.map_eq_some_iff.mp run
  obtain ⟨idle, up⟩ := Prod.mk.inj facts
  obtain ⟨log, traced⟩ := (reach_of_stepsIf stays_sound .start _ hw).traced (marked brokerEnv id)
  obtain ⟨⟨low, high⟩, -⟩ := metrics_account brokerEnv id 2 sample_started traced
  rw [idle] at high
  rw [Counter.read, up] at low high
  refine ⟨w, log, sample_started, traced, idle, up, ?_⟩
  omega

end Books

end ProcessMetrics
