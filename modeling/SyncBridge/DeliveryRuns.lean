import SyncBridge.EventPrivacy

/-!
# Deliveries and alerts are accounted for

The queue counts attempts, the wire carries requests, and the two are connected only by
workers, which may be lost between a request and the end of their run, or be slow and
report under a lock that another worker holds by now. Still the count never runs ahead
of the wire: a delivery job is completed only after its subscriber has accepted the
signed request, and it is given up only after five requests that were not accepted, or
because two workers were lost with it.

A dead letter is completed only when its alert is on the wire, if alerts are
configured. What becomes of the alert does not matter: a job of this queue fails only
when the lookup of its transfer does, or for its second lost worker.
-/

namespace DeliveryRuns

open AwaitPrograms CombinedCalls ThreadPools GrowingKnowledge Entities Database TableInvariants
open Calls Ingestion Orchestrator Footprints Announcements Outbound EventPrivacy

/-! ## A job under a lock -/

/-- The queue has given the job up because one worker too many was lost. -/
def Abandoned (run : Run) : Prop := run.stalls = maxStalledCount + 1

/-- The count of a job agrees with its history: `failures` requests were not accepted,
and `won` says that one was. Giving up for a lost worker counts as an attempt. -/
structure Balanced (limit failures : ℕ) (won : Prop) (run : Run) : Prop where
  counted : run.state ≠ .failed → run.attemptsMade ≤ failures
  lost : run.state ≠ .failed → run.stalls ≤ maxStalledCount
  pending : run.state = .waiting ∨ run.state = .active → run.attemptsMade < limit
  completed : run.state = .completed → won
  failed : run.state = .failed → run.attemptsMade = limit ∧ limit ≤ failures ∨
    Abandoned run ∧ run.attemptsMade ≤ failures + 1

/-- The state of a dead letter agrees with its alert. Under `attended` its own runs do not
fail. -/
structure Heeded (attended alerted : Prop) (run : Run) : Prop where
  lost : run.state ≠ .failed → run.stalls ≤ maxStalledCount
  completed : run.state = .completed → alerted
  failed : attended → run.state = .failed → Abandoned run

/-- The holder of this lock has a failure that is not counted yet. -/
structure Spent (lock failures : ℕ) (run : Run) : Prop where
  held : lock ≤ run.lock
  uncounted : run.lock = lock → run.state = .active → run.attemptsMade + 1 ≤ failures

section Runs
variable {limit failures lock : ℕ} {won attended alerted : Prop} {run : Run}

theorem Balanced.fresh (positive : 0 < limit) : Balanced limit 0 won Run.fresh where
  counted _ := Nat.le_refl _
  lost _ := Nat.zero_le _
  pending _ := positive
  completed same := by cases same
  failed same := by cases same

theorem Balanced.more (h : Balanced limit failures won run) {failures' : ℕ} {won' : Prop}
    (le : failures ≤ failures') (imp : won → won') : Balanced limit failures' won' run where
  counted going := (h.counted going).trans le
  lost := h.lost
  pending := h.pending
  completed same := imp (h.completed same)
  failed same := by
    rcases h.failed same with ⟨made, all⟩ | ⟨abandoned, made⟩
    · exact .inl ⟨made, all.trans le⟩
    · exact .inr ⟨abandoned, made.trans (Nat.succ_le_succ le)⟩

theorem Balanced.take (h : Balanced limit failures won run) (waiting : run.state = .waiting) :
    Balanced limit failures won run.take where
  counted _ := h.counted (by rw [waiting]; intro same; cases same)
  lost _ := h.lost (by rw [waiting]; intro same; cases same)
  pending _ := h.pending (.inl waiting)
  completed same := by cases same
  failed same := by cases same

/-- The second loss is one too many. -/
theorem abandoned_of_last (lost : run.stalls ≤ maxStalledCount)
    (last : ¬ run.stalls < maxStalledCount) :
    run.stalls + 1 = maxStalledCount + 1 :=
  congrArg Nat.succ (Nat.le_antisymm lost (Nat.le_of_not_lt last))

theorem active_going (active : run.state = .active) : run.state ≠ .failed := by
  rw [active]
  intro same
  cases same

theorem Balanced.stall (h : Balanced limit failures won run) (active : run.state = .active) :
    Balanced limit failures won run.stall := by
  have counted := h.counted (active_going active)
  have lost := h.lost (active_going active)
  unfold Run.stall
  split
  · rename_i again
    exact ⟨fun _ => counted, fun _ => again, fun _ => h.pending (.inr active),
      fun same => (by cases same),
      fun same => (by cases same)⟩
  · rename_i last
    refine ⟨fun same => absurd rfl same, fun same => absurd rfl same, fun same => ?_,
      fun same => (by cases same),
      fun _ => .inr ⟨abandoned_of_last lost last, Nat.succ_le_succ counted⟩⟩
    rcases same with same | same <;> cases same

theorem Balanced.settle (h : Balanced limit failures won run) (lock : ℕ) {out : Except Err Reply}
    (ok : ∀ a, out = .ok a → won) (error : ∀ e, out = .error e → Spent lock failures run) :
    Balanced limit failures won (run.settle limit lock out) := by
  unfold Run.settle
  split
  · rename_i holder
    have going := active_going holder.1
    have left := h.pending (.inr holder.1)
    cases out with
    | ok a =>
      refine ⟨fun _ => h.counted going, fun _ => h.lost going, fun same => ?_, fun _ => ok a rfl,
        fun same => (by cases same)⟩
      rcases same with same | same <;> cases same
    | error e =>
      have spent := (error e rfl).uncounted holder.2 holder.1
      by_cases more : run.attemptsMade + 1 < limit
      · simp only [Run.fail, if_pos more]
        exact ⟨fun _ => spent, fun _ => h.lost going, fun _ => more, fun same => (by cases same),
          fun same => (by cases same)⟩
      · have all : run.attemptsMade + 1 = limit := by omega
        simp only [Run.fail, if_neg more]
        refine ⟨fun same => absurd rfl same, fun same => absurd rfl same, fun same => ?_,
          fun same => (by cases same), fun _ => .inl ⟨all, all ▸ spent⟩⟩
        rcases same with same | same <;> cases same
  · exact h

theorem Heeded.fresh : Heeded attended alerted Run.fresh where
  lost _ := Nat.zero_le _
  completed same := by cases same
  failed _ same := by cases same

theorem Heeded.more (h : Heeded attended alerted run) {alerted' : Prop} (imp : alerted → alerted') :
    Heeded attended alerted' run :=
  ⟨h.lost, fun same => imp (h.completed same), h.failed⟩

theorem Heeded.take (h : Heeded attended alerted run) (waiting : run.state = .waiting) :
    Heeded attended alerted run.take where
  lost _ := h.lost (by rw [waiting]; intro same; cases same)
  completed same := by cases same
  failed _ same := by cases same

theorem Heeded.stall (h : Heeded attended alerted run) (active : run.state = .active) :
    Heeded attended alerted run.stall := by
  have lost := h.lost (active_going active)
  unfold Run.stall
  split
  · rename_i again
    exact ⟨fun _ => again, fun same => (by cases same), fun _ same => (by cases same)⟩
  · rename_i last
    exact ⟨fun same => absurd rfl same, fun same => (by cases same),
      fun _ _ => abandoned_of_last lost last⟩

theorem Heeded.settle (h : Heeded attended alerted run) (lock : ℕ) {out : Except Err Reply}
    (ok : ∀ a, out = .ok a → alerted) (error : ∀ e, out = .error e → ¬ attended) :
    Heeded attended alerted (run.settle limit lock out) := by
  unfold Run.settle
  split
  · rename_i holder
    have lost := h.lost (active_going holder.1)
    cases out with
    | ok a => exact ⟨fun _ => lost, fun _ => ok a rfl, fun _ same => (by cases same)⟩
    | error e =>
      refine ⟨fun _ => lost, fun same => ?_, fun careful => absurd careful (error e rfl)⟩
      simp only [Run.fail] at same
      split at same <;> cases same
  · exact h

theorem Spent.more (h : Spent lock failures run) {failures' : ℕ} (le : failures ≤ failures') :
    Spent lock failures' run :=
  ⟨h.held, fun same active => (h.uncounted same active).trans le⟩

theorem Spent.take (h : Spent lock failures run) : Spent lock failures run.take := by
  have low := h.held
  constructor
  · exact Nat.le_succ_of_le low
  · intro same
    simp only [Run.take] at same
    omega

theorem Spent.stall (h : Spent lock failures run) : Spent lock failures run.stall := by
  unfold Run.stall
  split <;> exact ⟨h.held, fun _ same => by cases same⟩

/-- Once the holder has reported, its failure is counted. -/
theorem Spent.settle (h : Spent lock failures run) (other : ℕ) (out : Except Err Reply) :
    Spent lock failures (run.settle limit other out) := by
  unfold Run.settle
  split
  · cases out with
    | ok a => exact ⟨h.held, fun _ same => by cases same⟩
    | error e =>
      refine ⟨h.held, fun _ same => ?_⟩
      simp only [Run.fail] at same
      split at same <;> cases same
  · exact h

theorem settle_lock (other : ℕ) (out : Except Err Reply) :
    (run.settle limit other out).lock = run.lock := by
  unfold Run.settle
  split
  · cases out <;> rfl
  · rfl

theorem stall_lock (run : Run) : run.stall.lock = run.lock := by
  unfold Run.stall
  split <;> rfl

end Runs

/-! ## Facts -/

/-- Requests of the job that were not accepted. -/
def failures (s : OutState) (jobId : ℕ) : ℕ :=
  s.sent.countP fun x => x.origin = .delivery jobId && !x.ok

/-- The subscriber has accepted the signed request of the job. -/
def Accepted (env : OutEnv) (s : OutState) (jobId : ℕ) : Prop :=
  ∃ job x, s.core.queues.deliveries[jobId]? = some job ∧ x ∈ s.sent ∧ x.origin = .delivery jobId ∧
    x.request = deliveryRequest env job ∧ x.ok = true

/-- The file of a transfer as an alert names it. -/
def Names (s : OutState) (transferId : ℕ) (filename : String) : Prop :=
  filename = "unknown" ∨ ∃ row ∈ s.core.db.inserted, row.id = transferId ∧ row.filename = filename

/-- The alert of the dead letter is on the wire, if it has where to go. -/
def Alerted (env : OutEnv) (s : OutState) (jobId : ℕ) : Prop :=
  ∀ url, alertUrl env = some url → ∃ data x filename,
    s.core.queues.deadLetters[jobId]? = some data ∧ x ∈ s.sent ∧
    x.origin = .alert jobId ∧
    x.request = alertRequest url ⟨data.transferId, filename, data.reason⟩ ∧
    Names s data.transferId filename

/-- What no step undoes. -/
inductive Note where
  | queued (jobId : ℕ) (job : WebhookDeliveryJob)
  | dead (jobId : ℕ) (data : DeadLetterJobData)
  | named (transferId : ℕ) (filename : String)
  | held (jobId lock : ℕ)
  | spent (jobId lock : ℕ)
  | accepted (jobId : ℕ)
  | alerted (jobId : ℕ)

def holds (env : OutEnv) (s : OutState) : Note → Prop
  | .queued jobId job => s.core.queues.deliveries[jobId]? = some job
  | .dead jobId data => s.core.queues.deadLetters[jobId]? = some data
  | .named transferId filename => Names s transferId filename
  | .held jobId lock => lock ≤ (s.deliveryRuns jobId).lock
  | .spent jobId lock => Spent lock (failures s jobId) (s.deliveryRuns jobId)
  | .accepted jobId => Accepted env s jobId
  | .alerted jobId => Alerted env s jobId

/-- The requests that a task may put on the wire. -/
def Sends (env : OutEnv) (F : Note → Prop) (task : OutTask) (request : HttpRequest) : Origin → Prop
  | .delivery jobId =>
    ∃ lock job, task = .deliver jobId lock job ∧ request = deliveryRequest env job ∧
      F (.queued jobId job) ∧ F (.held jobId lock)
  | .alert jobId =>
    ∃ lock data url filename, task = .deadLetter jobId lock data ∧ alertUrl env = some url ∧
      request = alertRequest url ⟨data.transferId, filename, data.reason⟩ ∧ F (.dead jobId data) ∧
      F (.named data.transferId filename)

/-- What the sender knows when its request has been answered. -/
def Answered (F : Note → Prop) (task : OutTask) (a : Except Err Response) : Origin → Prop
  | .delivery jobId => match a with
    | .ok res =>
      if res.ok then F (.accepted jobId)
      else ∀ lock job, task = .deliver jobId lock job → F (.spent jobId lock)
    | .error _ => ∀ lock job, task = .deliver jobId lock job → F (.spent jobId lock)
  | .alert jobId => F (.alerted jobId)

/-- What a lookup of a transfer says. Under `attended` it is not rejected. -/
def Looked (attended : Prop) (F : Note → Prop) (task : OutTask) :
    (op : Op) → Except Err op.Ans → Prop
  | .db (.findOne .pool id), .ok row => F (.named id ((row.map (·.filename)).getD "unknown"))
  | .db (.findOne .pool _), .error _ =>
    ∀ jobId lock data, task = .deadLetter jobId lock data → ¬ attended
  | _, _ => True

theorem Answered.grow {F F' : Note → Prop} {task : OutTask} {a : Except Err Response}
    {origin : Origin} (h : Answered F task a origin) (more : ∀ k, F k → F' k) :
    Answered F' task a origin := by
  cases origin with
  | alert jobId => exact more _ h
  | delivery jobId => cases a with
    | error e => exact fun lock job same => more _ (h lock job same)
    | ok res =>
      simp only [Answered] at h ⊢
      split
      · rename_i ok
        rw [if_pos ok] at h
        exact more _ h
      · rename_i bad
        rw [if_neg bad] at h
        exact fun lock job same => more _ (h lock job same)

section Operations
variable (attended : Prop) (env : OutEnv) (F : Note → Prop)

def ledger (task : OutTask) : Monitor (Op ⊕ NetOp) (Either Op.Ans NetOp.Ans) Err Unit where
  may _ op := match op with
    | .inr (.fetch request origin) => Sends env F task request origin
    | _ => True
  next _ op a _ := match op, a with
    | .inr (.fetch _ origin), a => Answered F task a origin
    | .inl op, a => Looked attended F task op a
    | .inr _, _ => True

def starts : OutTask → Prop
  | .deliver jobId lock job => F (.queued jobId job) ∧ F (.held jobId lock)
  | .deadLetter jobId _ data => F (.dead jobId data) ∧ (alertUrl env = none → F (.alerted jobId))
  | _ => True

/-- What the end of a run reports to the queue. -/
def reports : OutTask → Except Err Reply → Prop
  | .deliver jobId _ _, .ok _ => F (.accepted jobId)
  | .deliver jobId lock _, .error _ => F (.spent jobId lock)
  | .deadLetter jobId _ _, .ok _ => F (.alerted jobId)
  | .deadLetter _ _ _, .error _ => ¬ attended
  | _, _ => True

variable {attended env F}

theorem deliver_obeys {jobId lock : ℕ} {job : WebhookDeliveryJob} (queued : F (.queued jobId job))
    (held : F (.held jobId lock)) :
    Obeys (ledger attended env F (.deliver jobId lock job))
      (fun _ => reports attended F (.deliver jobId lock job)) ()
      (unwatched (deliver env jobId job)) := by
  refine ⟨⟨lock, job, rfl, rfl, queued, held⟩, ?_⟩
  intro a _ answered
  have heard : Answered F (.deliver jobId lock job) a (.delivery jobId) := answered
  cases a with
  | error e => exact heard lock job rfl
  | ok res =>
    show Obeys _ _ _ (Prog.bind (if res.ok then _ else _) _)
    simp only [Answered] at heard
    by_cases ok : res.ok = true
    · rw [if_pos ok] at heard ⊢
      exact heard
    · rw [if_neg ok] at heard ⊢
      exact heard lock job rfl

theorem notify_obeys {jobId lock : ℕ} {data : DeadLetterJobData} {filename : String}
    (dead : F (.dead jobId data)) (named : F (.named data.transferId filename))
    (silent : alertUrl env = none → F (.alerted jobId)) :
    Obeys (ledger attended env F (.deadLetter jobId lock data))
      (fun _ r => (∃ a, r = .ok a) ∧ F (.alerted jobId)) ()
      (notifyFailure env jobId ⟨data.transferId, filename, data.reason⟩) := by
  unfold notifyFailure
  split
  · rename_i off
    exact ⟨⟨_, rfl⟩, silent off⟩
  · rename_i url on
    refine ⟨⟨lock, data, url, filename, rfl, on, rfl, dead, named⟩, ?_⟩
    intro a _ answered
    have heard : F (.alerted jobId) := answered
    cases a with
    | ok res => exact ⟨⟨_, rfl⟩, heard⟩
    | error e => exact ⟨⟨_, rfl⟩, heard⟩

theorem deadLetter_obeys {jobId lock : ℕ} {data : DeadLetterJobData} (dead : F (.dead jobId data))
    (silent : alertUrl env = none → F (.alerted jobId)) :
    Obeys (ledger attended env F (.deadLetter jobId lock data))
      (fun _ => reports attended F (.deadLetter jobId lock data)) ()
      (unwatched (processDeadLetter env jobId data)) := by
  refine Obeys.andThen (q := fun _ r => match r with
    | .ok _ => F (.alerted jobId)
    | .error _ => ¬ attended) ?_ (fun _ _ heard => heard) fun _ _ heard => heard
  refine ⟨trivial, ?_⟩
  intro a _ answered
  have looked : Looked attended F (.deadLetter jobId lock data)
      (.db (.findOne .pool data.transferId)) a := answered
  cases a with
  | error e => exact looked jobId lock data rfl
  | ok row =>
    refine (notify_obeys dead looked silent).mono _ ?_
    rintro _ _ ⟨⟨a, rfl⟩, heard⟩
    exact heard

/-- Every task reports the truth. -/
theorem codeOut_reports (task : OutTask) (started : starts env F task) :
    Obeys (ledger attended env F task) (fun _ => reports attended F task) ()
      (codeOut env task) := by
  cases task with
  | core task => exact obeys_left_free (fun _ _ => trivial) (fun _ r => by cases r <;> trivial) _
  | createSubscription user dto =>
    show Obeys _ _ _ (unwatched (SubscriptionsService.create user dto))
    unfold SubscriptionsService.create
    cases dto.secret with
    | some secret => exact ⟨trivial, fun a _ _ => by cases a <;> trivial⟩
    | none =>
      refine ⟨trivial, fun a _ _ => ?_⟩
      cases a with
      | ok secret => exact ⟨trivial, fun a _ _ => by cases a <;> trivial⟩
      | error e => trivial
  | listSubscriptions user => exact ⟨trivial, fun a _ _ => by cases a <;> trivial⟩
  | removeSubscription user id =>
    refine ⟨trivial, fun a _ _ => ?_⟩
    cases a with
    | error e => trivial
    | ok sub => cases sub with
      | none => trivial
      | some sub => exact ⟨trivial, fun a _ _ => by cases a <;> trivial⟩
  | deliver jobId lock job => exact deliver_obeys started.1 started.2
  | deadLetter jobId lock data => exact deadLetter_obeys started.1 started.2

end Operations

/-! ## Growth -/

/-- Locks are only handed on. -/
structure Onward (run run' : Run) : Prop where
  lock : run.lock ≤ run'.lock
  spent : ∀ lock failures, Spent lock failures run → Spent lock failures run'

theorem Onward.refl (run : Run) : Onward run run := ⟨Nat.le_refl _, fun _ _ h => h⟩

theorem onward_take (run : Run) : Onward run run.take := ⟨Nat.le_succ _, fun _ _ h => h.take⟩

theorem onward_stall (run : Run) : Onward run run.stall :=
  ⟨Nat.le_of_eq (stall_lock run).symm, fun _ _ h => h.stall⟩

theorem onward_settle (limit lock : ℕ) (out : Except Err Reply) (run : Run) :
    Onward run (run.settle limit lock out) :=
  ⟨Nat.le_of_eq (settle_lock lock out).symm, fun _ _ h => h.settle lock out⟩

theorem setRun_onward {f : Run → Run} (onward : ∀ run, Onward run (f run)) (jobId : ℕ)
    (runs : ℕ → Run) (n : ℕ) :
    Onward (runs n) (setRun f jobId runs n) := by
  unfold setRun
  split
  · exact onward (runs n)
  · exact .refl _

/-- Queues, history and wire only grow. -/
structure Grows (s s' : OutState) : Prop where
  deliveries : s.core.queues.deliveries <+: s'.core.queues.deliveries
  deadLetters : s.core.queues.deadLetters <+: s'.core.queues.deadLetters
  inserted : s.core.db.inserted <+: s'.core.db.inserted
  sent : s.sent <+: s'.sent
  runs : ∀ jobId, Onward (s.deliveryRuns jobId) (s'.deliveryRuns jobId)

section Growth
variable {env : OutEnv} {s s' : OutState}

theorem getElem?_of_prefix {α : Type} {l l' : List α} (h : l <+: l') {i : ℕ} {a : α}
    (found : l[i]? = some a) :
    l'[i]? = some a := by
  obtain ⟨more, rfl⟩ := h
  rw [List.getElem?_append_left (List.getElem?_eq_some_iff.mp found).1]
  exact found

theorem Grows.failures (g : Grows s s') (jobId : ℕ) : failures s jobId ≤ failures s' jobId :=
  g.sent.sublist.countP_le

theorem Grows.names (g : Grows s s') {transferId : ℕ} {filename : String}
    (h : Names s transferId filename) :
    Names s' transferId filename := by
  rcases h with unknown | ⟨row, hrow, same⟩
  · exact .inl unknown
  · exact .inr ⟨row, g.inserted.subset hrow, same⟩

theorem Grows.accepted (g : Grows s s') {jobId : ℕ} (h : Accepted env s jobId) :
    Accepted env s' jobId := by
  obtain ⟨job, x, queued, onWire, rest⟩ := h
  exact ⟨job, x, getElem?_of_prefix g.deliveries queued, g.sent.subset onWire, rest⟩

theorem Grows.alerted (g : Grows s s') {jobId : ℕ} (h : Alerted env s jobId) :
    Alerted env s' jobId := by
  intro url on
  obtain ⟨data, x, filename, dead, onWire, origin, request, named⟩ := h url on
  exact ⟨data, x, filename, getElem?_of_prefix g.deadLetters dead, g.sent.subset onWire, origin,
    request, g.names named⟩

theorem Grows.holds (g : Grows s s') (k : Note) (h : holds env s k) : holds env s' k := by
  cases k with
  | queued jobId job => exact getElem?_of_prefix g.deliveries h
  | dead jobId data => exact getElem?_of_prefix g.deadLetters h
  | named transferId filename => exact g.names h
  | held jobId lock => exact Nat.le_trans h (g.runs jobId).lock
  | spent jobId lock => exact (((g.runs jobId).spent lock _ h).more (g.failures jobId))
  | accepted jobId => exact g.accepted h
  | alerted jobId => exact g.alerted h

end Growth

/-! ## The books -/

def fileOf (t : FileTransfer) : ℕ × String := (t.id, t.filename)

theorem kept_fileOf : Kept fileOf := by
  intro now t p
  cases p <;> rfl

structure Booked (attended : Prop) (env : OutEnv) (s : OutState) : Prop where
  deliveries : ∀ jobId, Balanced deliveryAttempts (failures s jobId) (Accepted env s jobId)
    (s.deliveryRuns jobId)
  alerts : ∀ jobId, Heeded attended (Alerted env s jobId) (s.alertRuns jobId)
  named : ∀ t ∈ s.core.db.transfers, ∃ row ∈ s.core.db.inserted, fileOf row = fileOf t

section Books
variable {attended : Prop} {env : OutEnv} {s s' : OutState}

/-- Growth that leaves the runs alone. -/
theorem Booked.grow (h : Booked attended env s) (g : Grows s s')
    (deliveryRuns : s'.deliveryRuns = s.deliveryRuns) (alertRuns : s'.alertRuns = s.alertRuns)
    (named : ∀ t ∈ s'.core.db.transfers, ∃ row ∈ s'.core.db.inserted, fileOf row = fileOf t) :
    Booked attended env s' := by
  constructor
  · intro jobId
    rw [deliveryRuns]
    exact (h.deliveries jobId).more (g.failures jobId) g.accepted
  · intro jobId
    rw [alertRuns]
    exact (h.alerts jobId).more g.alerted
  · exact named

/-- The tables and queues that the books are about stay as they are. -/
structure Still (s s' : OutState) : Prop where
  deliveries : s'.core.queues.deliveries = s.core.queues.deliveries
  deadLetters : s'.core.queues.deadLetters = s.core.queues.deadLetters
  transfers : s'.core.db.transfers = s.core.db.transfers
  inserted : s'.core.db.inserted = s.core.db.inserted
  sent : s'.sent = s.sent

theorem Still.grows (h : Still s s')
    (runs : ∀ jobId, Onward (s.deliveryRuns jobId) (s'.deliveryRuns jobId)) :
    Grows s s' :=
  ⟨h.deliveries ▸ List.prefix_rfl, h.deadLetters ▸ List.prefix_rfl, h.inserted ▸ List.prefix_rfl,
    h.sent ▸ List.prefix_rfl, runs⟩

theorem Still.named (still : Still s s') (h : Booked attended env s) :
    ∀ t ∈ s'.core.db.transfers, ∃ row ∈ s'.core.db.inserted, fileOf row = fileOf t := by
  rw [still.transfers, still.inserted]
  exact h.named

/-- A step of one delivery job. -/
theorem Booked.deliveryRun (h : Booked attended env s) {f : Run → Run}
    (onward : ∀ run, Onward run (f run))
    (jobId : ℕ) (kept : Balanced deliveryAttempts (failures s jobId) (Accepted env s jobId)
      (f (s.deliveryRuns jobId))) :
    Booked attended env { s with deliveryRuns := setRun f jobId s.deliveryRuns } ∧
      ∀ k, holds env s k →
      holds env { s with deliveryRuns := setRun f jobId s.deliveryRuns } k := by
  have g : Grows s { s with deliveryRuns := setRun f jobId s.deliveryRuns } :=
    Still.grows ⟨rfl, rfl, rfl, rfl, rfl⟩ (setRun_onward onward jobId _)
  refine ⟨⟨fun n => ?_, h.alerts, h.named⟩, g.holds⟩
  show Balanced _ _ _ (setRun f jobId s.deliveryRuns n)
  unfold setRun
  split
  · rename_i same
    subst same
    exact kept.more (Nat.le_refl _) g.accepted
  · exact (h.deliveries n).more (Nat.le_refl _) g.accepted

/-- A step of one dead letter. -/
theorem Booked.alertRun (h : Booked attended env s) {f : Run → Run} (jobId : ℕ)
    (kept : Heeded attended (Alerted env s jobId) (f (s.alertRuns jobId))) :
    Booked attended env { s with alertRuns := setRun f jobId s.alertRuns } ∧
      ∀ k, holds env s k → holds env { s with alertRuns := setRun f jobId s.alertRuns } k := by
  have g : Grows s { s with alertRuns := setRun f jobId s.alertRuns } :=
    Still.grows ⟨rfl, rfl, rfl, rfl, rfl⟩ fun _ => .refl _
  refine ⟨⟨h.deliveries, fun n => ?_, h.named⟩, g.holds⟩
  show Heeded _ _ (setRun f jobId s.alertRuns n)
  unfold setRun
  split
  · rename_i same
    subst same
    exact kept.more g.alerted
  · exact (h.alerts n).more g.alerted

/-- Steps that do nothing the books are about. -/
theorem Booked.still (h : Booked attended env s) (still : Still s s')
    (deliveryRuns : s'.deliveryRuns = s.deliveryRuns) (alertRuns : s'.alertRuns = s.alertRuns) :
    Booked attended env s' ∧ ∀ k, holds env s k → holds env s' k := by
  have g := still.grows fun jobId => by rw [deliveryRuns]; exact .refl _
  exact ⟨h.grow g deliveryRuns alertRuns (still.named h), g.holds⟩

end Books

/-! ## Steps -/

section Steps
variable {attended : Prop} {env : OutEnv} {s s' : OutState} {pid : ℕ} {c : OutChoice}

theorem core_step {op : Op} {core : State} {a : Except Err op.Ans} (h : Booked attended env s)
    (ran : exec env.core pid op c.core s.core = some (a, core)) :
    Booked attended env { s with core := core } ∧ ∀ k, holds env s k →
    holds env { s with core := core } k := by
  have logs := exec_extends ran
  have tables : s.core.db.inserted <+: core.db.inserted ∧
      ∀ t ∈ core.db.transfers, ∃ row ∈ core.db.inserted, fileOf row = fileOf t := by
    rcases exec_effect_db ran with same | ⟨dbOp, rfl, effect⟩
    · rw [same]
      exact ⟨List.prefix_rfl, h.named⟩
    · refine ⟨?_, effect_committed kept_fileOf effect h.named⟩
      rcases (effect_history effect).2 with same | ⟨x, -, same⟩
      · rw [same]
      · rw [same]
        exact List.prefix_append _ _
  have g : Grows s { s with core := core } :=
    ⟨logs.deliveries, logs.deadLetters, tables.1, List.prefix_rfl, fun _ => .refl _⟩
  exact ⟨h.grow g rfl rfl tables.2, g.holds⟩

/-- A lookup finds the row, whose file is on record, or nothing. -/
theorem lookup_heard {id : ℕ} {core : State} {a : Except Err (Option FileTransfer)}
    (h : Booked attended env s)
    (ran : exec env.core pid (.db (.findOne .pool id)) c.core s.core = some (a, core)) :
    (∀ row, a = .ok row → Names s id ((row.map (·.filename)).getD "unknown")) ∧
      ∀ e, a = .error e → c.core.fault ≠ none := by
  constructor
  · intro row answer
    rcases exec_db ran with ⟨_, _, rejected, -⟩ | ⟨db', read, -⟩
    · cases answer.symm.trans rejected
    · cases read
      cases answer
      cases found : s.core.db.transfers.find? (fun t => t.id = id) with
      | none =>
        left
        show ((s.core.db.transfers.find? fun t => t.id = id).map (·.filename)).getD "unknown" =
            "unknown"
        rw [found]
        rfl
      | some t =>
        right
        obtain ⟨row, hrow, same⟩ := h.named t (List.mem_of_find?_eq_some found)
        obtain ⟨sameId, sameFile⟩ := Prod.mk.inj same
        have named : t.id = id := by simpa using List.find?_some found
        refine ⟨row, hrow, sameId.trans named, ?_⟩
        show row.filename =
            ((s.core.db.transfers.find? fun t => t.id = id).map (·.filename)).getD "unknown"
        rw [found]
        exact sameFile
  · intro e answer none
    subst answer
    simp only [exec, none, perform] at ran
    cases ran

/-- A request and its answer are new on the wire. -/
theorem send_step {task : OutTask} {request : HttpRequest} {origin : Origin} {status : Option ℕ}
    (h : Booked attended env s) (may : Sends env (holds env s) task request origin)
    {a : Except Err Response} (ok : ∀ res, a = .ok res → status = some res.status)
    (error : ∀ e, a = .error e → status = none)
    (eq : s' = { s with sent := s.sent ++ [⟨origin, request, status⟩] }) :
    Booked attended env s' ∧ (∀ k, holds env s k → holds env s' k) ∧
    Answered (holds env s') task a origin := by
  subst eq
  have g : Grows s { s with sent := s.sent ++ [⟨origin, request, status⟩] } :=
    ⟨List.prefix_rfl, List.prefix_rfl, List.prefix_rfl, List.prefix_append _ _, fun _ => .refl _⟩
  refine ⟨h.grow g rfl rfl h.named, g.holds, ?_⟩
  have onWire : (⟨origin, request, status⟩ : Sent) ∈ s.sent ++ [⟨origin, request, status⟩] :=
    List.mem_append_right _ (List.mem_singleton_self _)
  cases origin with
  | alert jobId =>
    obtain ⟨lock, data, url, filename, rfl, on, rfl, dead, named⟩ := may
    intro url' on'
    cases on.symm.trans on'
    exact ⟨data, _, filename, dead, onWire, rfl, rfl, g.names named⟩
  | delivery jobId =>
    obtain ⟨lock, job, rfl, rfl, queued, held⟩ := may
    have counted : ∀ (status : Option ℕ),
        (Sent.mk (.delivery jobId) (deliveryRequest env job) status).ok = false →
        failures { s with sent := s.sent ++
          [⟨.delivery jobId, deliveryRequest env job, status⟩] } jobId =
          failures s jobId + 1 := by
      intro status bad
      simp [failures, List.countP_append, bad]
    have spent (bad : (Sent.mk (.delivery jobId) (deliveryRequest env job) status).ok = false) :
        Spent lock (failures { s with sent := s.sent ++
          [⟨.delivery jobId, deliveryRequest env job, status⟩] } jobId)
          (s.deliveryRuns jobId) := by
      refine ⟨held, fun _ active => ?_⟩
      have before := (h.deliveries jobId).counted (active_going active)
      rw [counted status bad]
      omega
    cases a with
    | error e =>
      cases error e rfl
      rintro _ _ ⟨⟩
      exact spent rfl
    | ok res =>
      cases ok res rfl
      unfold Answered
      simp only
      split
      · rename_i good
        exact ⟨job, _, queued, onWire, rfl, rfl, good⟩
      · rename_i bad
        rintro _ _ ⟨⟩
        exact spent (by simpa [Sent.ok] using bad)

theorem net_step {task : OutTask} {op : NetOp} {a : Except Err op.Ans} (h : Booked attended env s)
    (may : (ledger attended env (holds env s) task).may () (.inr op))
    (ran : execOut env pid (.inr op) c s = some (a, s')) :
    Booked attended env s' ∧ (∀ k, holds env s k → holds env s' k) ∧
      ∀ F, (∀ k, holds env s' k → F k) → (ledger attended env F task).next () (.inr op) a () := by
  cases op with
  | fetch request origin =>
    have step : Booked attended env s' ∧ (∀ k, holds env s k → holds env s' k) ∧
        Answered (holds env s') task a origin := by
      rcases net_cases ran with done | ⟨name, message, rejected⟩
      · cases done
        exact send_step h may (fun res same => by cases same; rfl) (fun e same => by cases same) rfl
      · cases rejected
        exact send_step h may (fun res same => by cases same) (fun e same => by cases same; rfl) rfl
    refine ⟨step.1, step.2.1, fun F known => ?_⟩
    exact step.2.2.grow known
  | _ =>
    have still : Still s s' ∧ s'.deliveryRuns = s.deliveryRuns ∧ s'.alertRuns = s.alertRuns := by
      rcases net_cases ran with done | ⟨name, message, rejected⟩
      · simp only [execNet] at done
        repeat' split at done
        all_goals
          cases done
          exact ⟨⟨rfl, rfl, rfl, rfl, rfl⟩, rfl, rfl⟩
      · cases rejected
        exact ⟨⟨rfl, rfl, rfl, rfl, rfl⟩, rfl, rfl⟩
    obtain ⟨hs, grown⟩ := h.still still.1 still.2.1 still.2.2
    exact ⟨hs, grown, fun _ _ => trivial⟩

theorem enter_booked {q : OutRequest} {task : OutTask} (h : Booked attended env s)
    (entered : enterOut env q s = some (s', task)) :
    Booked attended env s' ∧ (∀ k, holds env s k → holds env s' k) ∧
    starts env (holds env s') task := by
  cases q with
  | core q =>
    simp only [enterOut] at entered
    split at entered
    · cases entered
    · rename_i core task' ran
      cases entered
      have still : Still s { s with core := core } := by
        rcases enter_cases ran with ⟨rfl, -, -⟩ | ⟨_, _, -, -, -, rfl, -⟩ <;>
          exact ⟨rfl, rfl, rfl, rfl, rfl⟩
      obtain ⟨hs, grown⟩ := h.still still rfl rfl
      exact ⟨hs, grown, trivial⟩
  | takeDelivery jobId =>
    simp only [enterOut] at entered
    split at entered
    · cases entered
    rename_i job found
    split at entered
    · rename_i waiting
      cases entered
      obtain ⟨hs, grown⟩ := h.deliveryRun onward_take jobId ((h.deliveries jobId).take waiting)
      refine ⟨hs, grown, found, ?_⟩
      show _ ≤ (setRun Run.take jobId s.deliveryRuns jobId).lock
      simp [setRun, Run.take]
    · cases entered
  | takeDeadLetter jobId =>
    simp only [enterOut] at entered
    split at entered
    · cases entered
    rename_i data found
    split at entered
    · rename_i waiting
      cases entered
      obtain ⟨hs, grown⟩ := h.alertRun jobId ((h.alerts jobId).take waiting)
      refine ⟨hs, grown, found, ?_⟩
      intro off url on
      cases off.symm.trans on
    · cases entered
  | _ =>
    simp only [enterOut] at entered
    split at entered
    · cases entered
      refine ⟨⟨h.deliveries, h.alerts, h.named⟩, fun k hk => ?_, trivial⟩
      cases k <;> exact hk
    · cases entered

theorem finish_booked {task : OutTask} {out : Except Err Reply} (h : Booked attended env s)
    (truth : reports attended (holds env s) task out) :
    Booked attended env (finishOut env task out s).1 ∧
      (∀ k, holds env s k → holds env (finishOut env task out s).1 k) ∧
      ∀ new ∈ (finishOut env task out s).2,
      starts env (holds env (finishOut env task out s).1) new := by
  cases task with
  | core task =>
    have still : Still s { s with core := (finish env.core task out s.core).1 } := by
      have same : (finish env.core task out s.core).1.db = s.core.db ∧
          (finish env.core task out s.core).1.queues.deliveries = s.core.queues.deliveries ∧
          (finish env.core task out s.core).1.queues.deadLetters = s.core.queues.deadLetters := by
        rcases finish_cases env.core task out s.core with eq | ⟨_, _, _, -, eq⟩ | ⟨_, _, -, eq⟩ <;>
          rw [eq] <;> exact ⟨rfl, rfl, rfl⟩
      exact ⟨same.2.1, same.2.2, congrArg (·.transfers) same.1, congrArg (·.inserted) same.1, rfl⟩
    obtain ⟨hs, grown⟩ := h.still still rfl rfl
    refine ⟨hs, grown, ?_⟩
    intro new hnew
    obtain ⟨task, -, rfl⟩ := List.mem_map.mp hnew
    trivial
  | deliver jobId lock job =>
    have balanced : Balanced deliveryAttempts (failures s jobId) (Accepted env s jobId)
        ((s.deliveryRuns jobId).settle deliveryAttempts lock out) := by
      refine (h.deliveries jobId).settle lock ?_ ?_
      · rintro a rfl
        exact truth
      · rintro e rfl
        exact truth
    obtain ⟨hs, grown⟩ := h.deliveryRun (onward_settle deliveryAttempts lock out) jobId balanced
    exact ⟨hs, grown, fun _ new => by cases new⟩
  | deadLetter jobId lock data =>
    have heeded : Heeded attended (Alerted env s jobId)
        ((s.alertRuns jobId).settle deadLetterAttempts lock out) := by
      refine (h.alerts jobId).settle lock ?_ ?_
      · rintro a rfl
        exact truth
      · rintro e rfl
        exact truth
    obtain ⟨hs, grown⟩ := h.alertRun jobId heeded
    exact ⟨hs, grown, fun _ new => by cases new⟩
  | _ => exact ⟨h, fun _ hk => hk, fun _ new => by cases new⟩

theorem outside_booked {e : OutEvent} (h : Booked attended env s)
    (happened : outsideOut e s = some s') :
    Booked attended env s' ∧ ∀ k, holds env s k → holds env s' k := by
  cases e with
  | core e =>
    simp only [outsideOut] at happened
    split at happened
    · cases happened
    · rename_i core ran
      cases happened
      have still : Still s { s with core := core } := by
        rcases outside_cases ran with ⟨_, _, rfl⟩ | ⟨_, _, -, -, -, rfl⟩ <;>
          exact ⟨rfl, rfl, rfl, rfl, rfl⟩
      exact h.still still rfl rfl
  | stalledDelivery jobId =>
    simp only [outsideOut] at happened
    split at happened
    · rename_i active
      cases happened
      exact h.deliveryRun onward_stall jobId ((h.deliveries jobId).stall active)
    · cases happened
  | stalledDeadLetter jobId =>
    simp only [outsideOut] at happened
    split at happened
    · rename_i active
      cases happened
      exact h.alertRun jobId ((h.alerts jobId).stall active)
    · cases happened

end Steps

/-! ## Runs of the system -/

/-- The database answers when a worker looks up the transfer of a dead letter. -/
def LookupsAnswered (w : OutWorld) (act : OutAct) : Prop :=
  ∀ pid c l t r, act = .resume pid c → focus pid w.threads = some (l, t, r) →
    (∃ jobId lock data, t.task = .deadLetter jobId lock data) →
    (∃ op, t.prog.head = some (.inl op)) →
    c.core.fault = none

section System
variable {attended : Prop} {env : OutEnv}

theorem keeping (attended : Prop) (env : OutEnv) :
    Knowing (outMachine env) (fun w act => attended → LookupsAnswered w act) (holds env)
      (ledger attended env) (starts env) (reports attended) (Booked attended env) where
  code F task started := codeOut_reports task started
  more F F' task more started := by
    cases task with
    | deliver jobId lock job => exact ⟨more _ started.1, more _ started.2⟩
    | deadLetter jobId lock data => exact ⟨more _ started.1, fun off => more _ (started.2 off)⟩
    | _ => trivial
  request w q s task _ h entered := enter_booked h entered
  resume w pid c l r t op k a s ok h found at_call may ran := by
    cases op with
    | inr op => exact net_step h may ran
    | inl op =>
      obtain ⟨core, inner, rfl⟩ := core_cases ran
      obtain ⟨hs, grown⟩ := core_step h inner
      refine ⟨hs, grown, fun F known => ?_⟩
      show Looked attended F t.task op a
      unfold Looked
      split
      · exact known _ (grown _ ((lookup_heard h inner).1 _ rfl))
      · intro jobId lock data task careful
        apply (lookup_heard h inner).2 _ rfl
        exact ok careful pid c l t r rfl found ⟨jobId, lock, data, task⟩ ⟨_, by rw [at_call]; rfl⟩
      · trivial
  settle task out s h truth := finish_booked h truth
  crash pid task s h := by
    cases task with
    | core task => exact h.still ⟨rfl, rfl, rfl, rfl, rfl⟩ rfl rfl
    | _ => exact ⟨h, fun _ hk => hk⟩
  outside e s s' h happened := outside_booked h happened

end System

/-- The state of a delivery job agrees with the wire. -/
structure Accounted (env : OutEnv) (s : OutState) (jobId : ℕ)
    (job : WebhookDeliveryJob) : Prop where
  counted : (s.deliveryRuns jobId).state ≠ .failed →
    (s.deliveryRuns jobId).attemptsMade ≤ failures s jobId
  completed : (s.deliveryRuns jobId).state = .completed → ∃ x ∈ s.sent, x.origin = .delivery jobId ∧
    x.request = deliveryRequest env job ∧ x.ok = true
  failed : (s.deliveryRuns jobId).state = .failed →
    (s.deliveryRuns jobId).attemptsMade = 5 ∧ 5 ≤ failures s jobId ∨
    (s.deliveryRuns jobId).stalls = 2 ∧ (s.deliveryRuns jobId).attemptsMade ≤ failures s jobId + 1
  pending : (s.deliveryRuns jobId).state = .waiting ∨ (s.deliveryRuns jobId).state = .active →
    (s.deliveryRuns jobId).attemptsMade < 5 ∧ (s.deliveryRuns jobId).stalls ≤ 1

end DeliveryRuns
