import SyncBridge.Announcements
import SyncBridge.OutboxSafety
import Mathlib.Algebra.BigOperators.Group.List.Basic
import Mathlib.Algebra.Group.Prod
import Mathlib.Algebra.Group.Nat.Defs

/-!
# Usage and completion events

After `markSuccess` an attempt meters the upload and publishes
`transfer.completed`, each in a call of its own. What is in `tenant_usage`
together with what attempts in flight still owe is the total of the rows'
completions. When a call of that tail is rejected, or its worker is lost, the
next attempt finds the row SUCCESS and leaves both undone; a second completion
of a row is metered twice. Without either, the books balance whenever no worker
is running.
-/

namespace Metering

open AwaitPrograms ThreadPools Entities Database TableInvariants Calls Ingestion Worker Management
open Orchestrator Footprints Announcements OutboxSafety

/-- What one operation knows: nothing, a row it has read, a completion it must
meter, or a completion it has metered and is telling of. -/
inductive Phase where
  | plain
  | read (t : FileTransfer)
  | owing (x : Completion)
  | telling (x : Completion) (told : Told)

/-- Before a completion: only a worker marks SUCCESS, and a row that it has read. -/
def Ready (task : Task) (phase : Phase) : Op → Prop
  | .db (.recordUsage _ _) => False
  | .db (.update id (.markSuccess _ _ _ _ _ _ _)) =>
    (∃ jobId data, task = .process jobId data) ∧ ∃ t, phase = .read t ∧ t.id = id
  | _ => True

def May (task : Task) : Phase → Op → Prop
  | .owing x, op => op = .db (.recordUsage x.tenantId x.processedBytes)
  | .telling _ _, op => PublishCall op
  | phase, op => Ready task phase op

/-- Moves before a completion. -/
def Advance (phase : Phase) : (op : Op) → Except Err op.Ans → Phase → Prop
  | .db (.findOne .pool _), .ok (some t), phase' => phase' = .read t
  | .db (.update id (.markSuccess _ _ _ _ _ _ bytes)), .ok _, phase' =>
    ∃ t, phase = .read t ∧ phase' = .owing ⟨id, t.tenantId, bytes⟩
  | _, _, phase' => phase' = phase

/-- After a completion every call is answered. -/
def Moves : Phase → (op : Op) → Except Err op.Ans → Phase → Prop
  | .owing x, _, a, phase' => (∃ v, a = .ok v) ∧ phase' = .telling x .nothing
  | .telling x told, op, a, phase' => (∃ v, a = .ok v) ∧ phase' = .telling x (told.hear op a)
  | phase, op, a, phase' => Advance phase op a phase'

def metering (task : Task) : Monitor Op Op.Ans Err Phase where
  may := May task
  next phase op a phase' := Sound op a ∧ Moves phase op a phase'

/-- The completion of `x` was published. -/
def Completes (env : Env) (x : Completion) (told : Told) : Prop :=
  ∃ event : TransferEvent, event.type = .transferCompleted ∧ event.transferId = x.transferId ∧
    event.tenantId = x.tenantId ∧ told.Publishes env event

/-- How an operation may end. -/
def Balanced (env : Env) : Phase → Prop
  | .owing _ => False
  | .telling x told => Completes env x told
  | _ => True

/-- Phases before a completion. -/
def Early : Phase → Prop
  | .plain => True
  | .read _ => True
  | _ => False

section Programs
variable {env : Env} {task : Task}

/-- Calls that neither complete nor read a row. -/
def Dull : Op → Prop
  | .db (.recordUsage _ _) => False
  | .db (.update _ (.markSuccess _ _ _ _ _ _ _)) => False
  | .db (.findOne .pool _) => False
  | _ => True

theorem early_plain : Early .plain := trivial

theorem early_read (t : FileTransfer) : Early (.read t) := trivial

theorem early_may {phase : Phase} (h : Early phase) (op : Op) :
    (metering task).may phase op ↔ Ready task phase op := by
  cases phase <;> first | exact Iff.rfl | exact h.elim

theorem early_next {phase phase' : Phase} (h : Early phase) {op : Op} {a : Except Err op.Ans}
    (next : (metering task).next phase op a phase') : Advance phase op a phase' := by
  cases phase <;> first | exact next.2 | exact h.elim

theorem dull_ready {phase : Phase} {op : Op} (h : Dull op) : Ready task phase op := by
  unfold Ready
  unfold Dull at h
  split <;> first | exact h.elim | trivial

theorem dull_advance {phase phase' : Phase} {op : Op} (h : Dull op) {a : Except Err op.Ans}
    (adv : Advance phase op a phase') : phase' = phase := by
  unfold Advance at adv
  unfold Dull at h
  split at adv <;> first | exact h.elim | exact adv

/-- Dull calls leave an operation in its phase. -/
theorem metering_of_within {α : Type} {P : Op → Prop} {E : Err → Prop} {p : Async α} {phase : Phase}
    (h : Within P Retryable E p) (calls : ∀ op, P op → Dull op) (early : Early phase) :
    Obeys (metering task) (fun phase' out => phase' = phase ∧
      ∀ e, out = .error e → E e) phase p := by
  refine h.obeys (I := fun phase' => phase' = phase) ?_ ?_ rfl
  · rintro _ op rfl hop
    exact (early_may early op).mpr (dull_ready (calls op hop))
  · rintro _ op a phase' rfl hop next
    exact ⟨dull_advance (calls op hop) (early_next early next), next.1.rejected⟩

/-- Operations that complete no row. -/
theorem metering_of_calls {α : Type} {P : Op → Prop} {E : Err → Prop} {p : Async α} {phase : Phase}
    (h : Within P Retryable E p)
    (calls : ∀ op, P op → Dull op ∨ ∃ id, op = .db (.findOne .pool id)) (early : Early phase) :
    Obeys (metering task) (fun phase' _ => Early phase') phase p := by
  refine (h.obeys (I := Early) ?_ ?_ early).mono _ fun _ _ h => h.1
  · intro phase' op he hop
    rw [early_may he]
    rcases calls op hop with h | ⟨id, rfl⟩
    · exact dull_ready h
    · trivial
  · intro phase' op a phase'' he hop next
    refine ⟨?_, next.1.rejected⟩
    have adv := early_next he next
    rcases calls op hop with h | ⟨id, rfl⟩
    · exact dull_advance h adv ▸ he
    · unfold Advance at adv
      split at adv
      · rw [adv]; trivial
      · rename_i heq _
        cases heq
      · rw [adv]; exact he

theorem publishCall_dull (op : Op) (h : PublishCall op) : Dull op := by
  unfold PublishCall at h
  split at h <;> trivial

theorem prepareCall_dull (op : Op) (h : PrepareCall op) : Dull op := by
  unfold PrepareCall at h
  split at h <;> trivial

theorem publish_metering (t : FileTransfer) (data : EventData) (bytes : Nat) :
    Obeys (metering task) (fun phase out => out = .ok () ∧ Balanced env phase)
      (.telling ⟨t.id, t.tenantId, bytes⟩ .nothing)
        (publishTransferEvent env t .transferCompleted data) := by
  refine (publish_told (S := fun told phase => phase = .telling ⟨t.id, t.tenantId, bytes⟩ told)
    env t .transferCompleted data ?_ ?_ rfl).mono _ ?_
  · rintro told _ op rfl hop
    exact hop
  · rintro told _ op a phase rfl _ ⟨-, answered, rfl⟩
    exact ⟨answered, rfl⟩
  · rintro phase out ⟨hout, told, rfl, -, published⟩
    exact ⟨hout, _, rfl, rfl, rfl, published⟩

/-- From `markSuccess` to the last delivery. -/
theorem complete_metering {t : FileTransfer} (u : Uploaded)
    (worker : ∃ jobId data, task = .process jobId data) :
    Obeys (metering task) (fun phase out => phase = .read t ∧ (∀ e, out = .error e → Retryable e) ∨
      out = .ok () ∧ Balanced env phase) (.read t) (complete env t u) := by
  refine obeys_call ⟨worker, t, rfl, rfl⟩ ?_ ?_
  · rintro _ phase ⟨-, t', ht', rfl⟩
    cases ht'
    refine obeys_call rfl ?_ ?_
    · rintro _ phase ⟨-, -, rfl⟩
      exact (publish_metering t u.event u.sizeBytes).mono _ fun _ _ h => .inr h
    · rintro e phase ⟨-, ⟨v, hv⟩, -⟩
      cases hv
  · rintro e phase ⟨sound, adv⟩
    exact .inl ⟨adv, fun e' he => sound.rejected e' (by rw [he])⟩

theorem reject_metering {t : FileTransfer} (e : Err) :
    Obeys (metering task) (fun phase _ => Balanced env phase) (.read t) (reject env t e) := by
  cases e with
  | nonRetryable message =>
    have any : ∀ e, Retryable e → AnyErr e := fun _ _ => trivial
    have within : Within Dull Retryable AnyErr (reject env t (.nonRetryable message)) :=
      within_bind (within_call trivial any) fun _ => within_bind
        ((publish_within t _ _).mono publishCall_dull any) fun _ => within_call trivial any
    exact (metering_of_within within (fun _ h => h) (early_read t)).mono _
      fun _ _ h => by rw [h.1]; trivial
  | _ => trivial

theorem runTransfer_metering (data : TransferJobData)
    (worker : ∃ jobId data, task = .process jobId data) :
    Obeys (metering task) (fun phase _ => Balanced env phase) .plain (runTransfer env data) := by
  refine obeys_call trivial ?_ ?_
  · rintro found phase ⟨-, adv⟩
    cases found with
    | none =>
      cases adv
      trivial
    | some t =>
      cases adv
      dsimp only
      split
      · trivial
      · refine obeys_call trivial ?_ ?_
        · rintro _ phase ⟨-, rfl⟩
          refine Obeys.orElse (q := fun phase out => phase = .read t ∨ out = .ok () ∧
            Balanced env phase)
            ?_ ?_ ?_
          · refine (metering_of_within (prepare_within t) prepareCall_dull
              (early_read t)).andThen ?_ ?_
            · rintro _ u ⟨rfl, -⟩
              exact (complete_metering u worker).mono _ fun _ _ h => h.imp_left And.left
            · exact fun _ _ h => .inl h.1
          · rintro phase _ (rfl | ⟨-, h⟩)
            · trivial
            · exact h
          · rintro phase e (rfl | ⟨h, -⟩)
            · exact reject_metering e
            · cases h
        · rintro e phase ⟨-, rfl⟩
          trivial
  · rintro e phase ⟨-, rfl⟩
    trivial

theorem early_balanced {phase : Phase} (h : Early phase) : Balanced env phase := by
  cases phase <;> trivial

theorem not_workerCall_dull {op : Op} (h : ¬ WorkerCall op) :
    Dull op ∨ ∃ id, op = .db (.findOne .pool id) := by
  unfold Dull
  split
  · exact absurd trivial h
  · exact absurd trivial h
  · exact .inr ⟨_, rfl⟩
  · exact .inl trivial

theorem code_metering (task : Task) :
    Obeys (metering task) (fun phase _ => Balanced env phase) .plain (code env task) := by
  by_cases worker : ∃ jobId data, task = .process jobId data
  · obtain ⟨jobId, data, rfl⟩ := worker
    exact (runTransfer_metering data ⟨jobId, data, rfl⟩).andThen (fun _ _ h => h) fun _ _ h => h
  · have other : ∀ jobId data, task ≠ .process jobId data :=
      fun jobId data h => worker ⟨jobId, data, h⟩
    refine (metering_of_calls (code_within task) ?_ early_plain).mono _
      fun _ _ h => early_balanced h
    exact fun op h => not_workerCall_dull (not_workerCall other h)

end Programs

/-! ## The books -/

/-- Calls of the tail of an attempt. -/
def CompletionCall (op : Op) : Prop :=
  PublishCall op ∨ ∃ tenantId bytes, op = .db (.recordUsage tenantId bytes)

/-- The operation has calls ahead and, as long as they are answered, it only meters
and publishes. -/
def Owes (prog : Async Reply) : Prop :=
  prog.head ≠ none ∧ Within CompletionCall (fun _ => False) AnyErr prog

/-- The row a call marks SUCCESS. -/
def marked? : Op → Option Nat
  | .db (.update id (.markSuccess _ _ _ _ _ _ _)) => some id
  | _ => none

/-- An attempt that owes its metering or its event is not rejected and not lost, and
no row is completed again. -/
def Steady (w : SysWorld) : SysAct → Prop
  | .resume pid c => ∀ t ∈ w.threads, t.pid = pid → (Owes t.prog → c.fault = none) ∧
      ∀ op id, t.prog.head = some op → marked? op = some id → c.fault = none →
        ∀ x ∈ w.store.db.completions, x.transferId ≠ id
  | .crash pid => ∀ t ∈ w.threads, t.pid = pid → ¬ Owes t.prog
  | _ => True

/-- Objects and bytes of a tenant. -/
def usageOf (db : Db) (tenantId : String) : Nat × Nat :=
  match db.usage.find? fun u => u.tenantId = tenantId with
  | none => 0
  | some u => (u.objectCount, u.bytesStored)

/-- What one completed upload adds to a tenant's usage. -/
def amount (tenantId owner : String) (bytes : Nat) : Nat × Nat :=
  if owner = tenantId then (1, bytes) else 0

def completedBy (db : Db) (tenantId : String) : Nat × Nat :=
  (db.completions.map fun x => amount tenantId x.tenantId x.processedBytes).sum

/-- What a thread is about to add to a tenant's usage. -/
def due (tenantId : String) (t : SysThread) : Nat × Nat :=
  match t.prog.head with
  | some (.db (.recordUsage owner bytes)) => amount tenantId owner bytes
  | _ => 0

def Phase.due (tenantId : String) : Phase → Nat × Nat
  | .owing x => amount tenantId x.tenantId x.processedBytes
  | _ => 0

/-- The completion an operation has made. -/
def Phase.about : Phase → Option Completion
  | .owing x => some x
  | .telling x _ => some x
  | _ => none

/-- A column pair that no update changes. -/
def ownership (t : FileTransfer) : Nat × String := (t.id, t.tenantId)

theorem kept_ownership : Kept ownership := by
  intro now t p
  cases p <;> rfl

/-- What an operation knows is so. -/
def Holds (s₀ s : State) : Phase → Prop
  | .plain => True
  | .read t => ∃ t' ∈ s.db.transfers, ownership t' = ownership t
  | .owing _ => Extends s₀ s
  | .telling _ told => Recorded s₀ told s

section Books
variable {env : Env} {pid : Nat} {c : Choice} {s₀ s s' : State} {op : Op} {a : Except Err op.Ans}

theorem usageOf_addUsage (db : Db) (tenantId owner : String) (bytes : Nat) :
    usageOf { db with usage := Db.addUsage owner bytes db.usage } tenantId =
      usageOf db tenantId + amount tenantId owner bytes := by
  simp only [usageOf, amount]
  induction db.usage with
  | nil =>
    by_cases h : owner = tenantId
    · simp [Db.addUsage, h]
    · simp [Db.addUsage, h]
  | cons u us ih =>
    rw [Db.addUsage]
    by_cases hu : u.tenantId = owner
    · by_cases h : owner = tenantId
      · simp [hu, h]
      · simp [hu, h]
    · rw [if_neg hu]
      by_cases ht : u.tenantId = tenantId
      · have : ¬ owner = tenantId := fun h => hu (ht.trans h.symm)
        simp [ht, this]
      · simpa [ht] using ih

/-- The head of a program shows what its operation owes. -/
theorem due_of_obeys {task : Task} {phase : Phase} {t : SysThread}
    (h : Obeys (metering task) (fun phase _ => Balanced env phase) phase t.prog)
    (tenantId : String) :
    due tenantId t = phase.due tenantId := by
  unfold due
  cases hp : t.prog with
  | done out =>
    rw [hp] at h
    cases phase with
    | owing x => exact h.elim
    | _ => rfl
  | await op k =>
    rw [hp] at h
    have may := h.1
    cases phase with
    | owing x =>
      change op = _ at may
      subst may
      rfl
    | telling x told =>
      simp only [Prog.head, Phase.due]
      split
      · rename_i heq
        cases heq
        exact may.elim
      · rfl
    | plain | read t =>
      simp only [Prog.head, Phase.due]
      split
      · rename_i heq
        cases heq
        exact may.elim
      · rfl

/-- An operation that has made a completion owes, until it has ended. -/
theorem owes_of_about {task : Task} {phase : Phase} {prog : Async Reply} {x : Completion}
    (h : Obeys (metering task) (fun phase _ => Balanced env phase) phase prog)
    (about : phase.about = some x) : Within CompletionCall (fun _ => False) AnyErr prog := by
  induction prog generalizing phase with
  | done out => cases out <;> trivial
  | await op k ih =>
    have call : CompletionCall op := by
      cases phase with
      | owing y => exact .inr ⟨_, _, h.1⟩
      | telling y told => exact .inl h.1
      | _ => cases about
    refine ⟨call, fun r hr => ?_⟩
    cases r with
    | error e => exact (hr e rfl).elim
    | ok v =>
      have sound : Sound op (.ok v) := by
        refine ⟨fun _ h => (nomatch h), fun h => (nomatch h), fun v' _ => ?_⟩
        unfold Answers
        split
        · rcases call with hp | ⟨_, _, heq⟩
          · exact hp.elim
          · cases heq
        · rcases call with hp | ⟨_, _, heq⟩
          · exact hp.elim
          · cases heq
        · trivial
      cases phase with
      | owing y => exact ih (.ok v) (h.2 _ _ ⟨sound, ⟨v, rfl⟩, rfl⟩) about
      | telling y told => exact ih (.ok v) (h.2 _ _ ⟨sound, ⟨v, rfl⟩, rfl⟩) about
      | _ => cases about

theorem publishCall_db (step : exec env pid op c s = some (a, s')) (call : PublishCall op) :
    s'.db = s.db := by
  cases exec_change step with
  | db dbOp a db' ran =>
    cases dbOp with
    | findSubscriptions tenantId => cases ran; rfl
    | _ => exact call.elim
  | _ => rfl

/-- What is known stays known, as long as nothing is purged. -/
theorem Holds.exec {phase : Phase} (h : Holds s₀ s phase)
    (step : exec env pid op c s = some (a, s')) (unpurged : deletes op = false) :
    Holds s₀ s' phase := by
  have ext := exec_extends step
  cases phase with
  | plain => trivial
  | read t =>
    show ∃ t' ∈ s'.db.transfers, ownership t' = ownership t
    rcases exec_effect_db step with heq | ⟨dbOp, rfl, e⟩
    · rw [heq]; exact h
    · rcases column_kept kept_ownership e h with h | ⟨cutoff, rfl, -⟩
      · exact h
      · cases unpurged
  | owing x => exact h.trans ext
  | telling x told => exact h.extend ext

theorem Holds.extend {phase : Phase} (h : Holds s₀ s phase) (ext : Extends s s')
    (rows : s'.db.transfers = s.db.transfers) : Holds s₀ s' phase := by
  cases phase with
  | plain => trivial
  | read t =>
    show ∃ t' ∈ s'.db.transfers, ownership t' = ownership t
    rw [rows]
    exact h
  | owing x => exact h.trans ext
  | telling x told => exact Recorded.extend h ext

/-- A rejected call has a fault in it, unless it cannot fail. -/
theorem fault_of_answer (step : exec env pid op c s = some (a, s')) (mayFail : op.mayFail = true)
    (answered : ∃ v, a = .ok v) : c.fault = none := by
  obtain ⟨v, rfl⟩ := answered
  unfold exec at step
  split at step
  · assumption
  · rw [if_pos mayFail] at step
    cases step

/-- A row that is marked SUCCESS is completed once, for its tenant. -/
theorem completed_row {db : Db} (hc : Consistent db) {t : FileTransfer} (ht : t ∈ db.transfers)
    (bucket key : String) (etag sha : Option String) (encrypted : Bool) (wrappedDek : Option String)
    (bytes : Nat) :
    completed t.id (.markSuccess bucket key etag sha encrypted wrappedDek bytes) db.transfers =
      [⟨t.id, t.tenantId, bytes⟩] := by
  have ids := distinct_rows hc
  rw [completed]
  generalize db.transfers = rows at ht ids
  induction rows with
  | nil => cases ht
  | cons row rows ih =>
    rw [List.map_cons, List.nodup_cons] at ids
    rcases List.mem_cons.mp ht with rfl | ht
    · have others : rows.filter (fun r => r.id = t.id) = [] := by
        refine List.filter_eq_nil_iff.mpr fun r hr => ?_
        simpa using fun h : r.id = t.id => ids.1 (List.mem_map.mpr ⟨r, hr, h⟩)
      rw [List.filter_cons_of_pos (by simp), others]
      rfl
    · have hne : ¬ row.id = t.id := fun h => ids.1 (List.mem_map.mpr ⟨t, ht, h.symm⟩)
      rw [List.filter_cons_of_neg (by simpa using hne)]
      exact ih ht ids.2

/-- How a call of an operation in one phase changes the books. -/
structure Posted (s s' : State) (phase phase' : Phase) (op : Op) (c : Choice) : Prop where
  tally : ∀ tenantId, usageOf s'.db tenantId + phase'.due tenantId + completedBy s.db tenantId =
    usageOf s.db tenantId + phase.due tenantId + completedBy s'.db tenantId
  about : ∀ x, phase.about = some x → phase'.about = some x
  completions : s'.db.completions = s.db.completions ∨
    ∃ x row, s'.db.completions = x :: s.db.completions ∧
    phase'.about = some x ∧ marked? op = some x.transferId ∧ c.fault = none ∧ row ∈ s.db.transfers ∧
    ownership row = (x.transferId, x.tenantId)

theorem Posted.kept {phase phase' : Phase} (h : Posted s s' phase phase' op c) {x : Completion}
    (hx : x ∈ s.db.completions) : x ∈ s'.db.completions := by
  rcases h.completions with same | ⟨y, _, added, -⟩
  · rw [same]
    exact hx
  · rw [added]
    exact List.mem_cons_of_mem y hx

/-- A completion is an old one, or the one the execution is about from now on. -/
theorem Posted.origin {phase phase' : Phase} (h : Posted s s' phase phase' op c) {x : Completion}
    (hx : x ∈ s'.db.completions) : x ∈ s.db.completions ∨
      phase'.about = some x ∧ ∃ row ∈ s.db.transfers,
      ownership row = (x.transferId, x.tenantId) := by
  rcases h.completions with same | ⟨y, row, added, about, -, -, hrow, hown⟩
  · rw [same] at hx
    exact .inl hx
  · rw [added] at hx
    rcases List.mem_cons.mp hx with rfl | hx
    · exact .inr ⟨about, row, hrow, hown⟩
    · exact .inl hx

/-- A call that touches no books. -/
theorem posted_same {phase phase' : Phase} (usage : s'.db.usage = s.db.usage)
    (completions : s'.db.completions = s.db.completions)
    (due : ∀ tenantId, phase'.due tenantId = phase.due tenantId)
    (about : ∀ x, phase.about = some x → phase'.about = some x) :
    Posted s s' phase phase' op c := by
  refine ⟨fun tenantId => ?_, about, .inl completions⟩
  simp only [usageOf, completedBy, usage, completions, due]

/-- A call before a completion that neither meters nor completes. -/
theorem early_posted {phase : Phase} {task : Task} (step : exec env pid op c s = some (a, s'))
    (ready : Ready task phase op) (unmarked : marked? op = none) :
    s'.db.usage = s.db.usage ∧ s'.db.completions = s.db.completions := by
  rcases exec_effect_db step with heq | ⟨dbOp, rfl, e⟩
  · exact ⟨by rw [heq], by rw [heq]⟩
  · rcases effect_books e with same | ⟨_, _, rfl, -, -⟩ | ⟨id, p, names, hu, hcomp⟩
    · exact same
    · exact ready.elim
    · refine ⟨hu, ?_⟩
      cases dbOp with
      | update id' p' =>
        cases names
        cases p with
        | markSuccess => cases unmarked
        | _ => exact hcomp
      | resetForRetry mgr id' =>
        cases mgr with
        | pool => cases names; exact hcomp
        | tx => cases names
      | _ => cases names

/-- An operation before its completion answers a call that does not complete. -/
theorem exec_early {phase : Phase} {task : Task} (early : Early phase) (holds : Holds s₀ s phase)
    (step : exec env pid op c s = some (a, s')) (ready : Ready task phase op)
    (unmarked : marked? op = none) (unpurged : deletes op = false) :
    ∃ phase', Advance phase op a phase' ∧ Holds s₀ s' phase' ∧ Posted s s' phase phase' op c := by
  obtain ⟨hu, hcomp⟩ := early_posted step ready unmarked
  have about : phase.about = none := by
    cases phase <;> first | rfl | exact early.elim
  have nothing : ∀ phase' : Phase, ∀ x, phase.about = some x → phase'.about = some x := by
    intro phase' x hx
    rw [about] at hx
    cases hx
  have due : ∀ tenantId, phase.due tenantId = 0 := by
    intro tenantId
    cases phase <;> first | rfl | exact early.elim
  have kept : Advance phase op a phase → ∃ phase', Advance phase op a phase' ∧ Holds s₀ s' phase' ∧
      Posted s s' phase phase' op c := fun adv =>
    ⟨phase, adv, holds.exec step unpurged, posted_same hu hcomp (fun _ => rfl) (nothing phase)⟩
  cases op with
  | db dbOp =>
    cases dbOp with
    | findOne mgr id =>
      rcases exec_db step with ⟨_, _, rfl, rfl⟩ | ⟨db', ran, rfl⟩
      · cases mgr <;> exact kept rfl
      · cases mgr with
        | tx => cases ran; exact kept rfl
        | pool =>
          simp only [Db.exec, Option.some.injEq, Prod.mk.injEq] at ran
          obtain ⟨rfl, rfl⟩ := ran
          cases hfound : (s.db.rows pid .pool).find? fun t => t.id = id with
          | none => rw [hfound] at kept; exact kept rfl
          | some t =>
            refine ⟨.read t, rfl, ⟨t, List.mem_of_find?_eq_some hfound, rfl⟩, ?_⟩
            exact posted_same hu hcomp (fun tenantId => (due tenantId).symm) (nothing _)
    | update id p =>
      cases p with
      | markSuccess => cases unmarked
      | _ => exact kept rfl
    | _ => exact kept rfl
  | _ => exact kept rfl

/-- An answered `markSuccess` makes a completion. -/
theorem exec_completes {t : FileTransfer} {bucket key : String}
    {etag sha wrappedDek : Option String}
    {encrypted : Bool} {bytes : Nat} (hc : Consistent s.db) (holds : Holds s₀ s (.read t))
    (since : Extends s₀ s)
    {a : Except Err Unit} (step : exec env pid (.db (.update t.id
      (.markSuccess bucket key etag sha encrypted wrappedDek bytes))) c s = some (a, s')) :
    ∃ phase', Advance (.read t) (.db (.update t.id
      (.markSuccess bucket key etag sha encrypted wrappedDek bytes))) a phase' ∧
        Holds s₀ s' phase' ∧
      Posted s s' (.read t) phase' (.db (.update t.id
        (.markSuccess bucket key etag sha encrypted wrappedDek bytes))) c := by
  rcases exec_db step with ⟨_, _, rfl, rfl⟩ | ⟨db', ran, rfl⟩
  · exact ⟨.read t, rfl, holds, posted_same rfl rfl (fun _ => rfl) fun _ h => h⟩
  · simp only [Db.exec, Db.updateRow] at ran
    split at ran
    · cases ran
    · cases ran
      obtain ⟨row, hrow, hown⟩ := holds
      obtain ⟨hid, htenant⟩ : row.id = t.id ∧ row.tenantId = t.tenantId := Prod.mk.inj hown
      have hcompleted := completed_row hc hrow bucket key etag sha encrypted wrappedDek bytes
      rw [hid, htenant] at hcompleted
      refine ⟨_, ⟨t, rfl, rfl⟩, since.trans (exec_extends step), ?_,
        fun x h => (by cases h), .inr ?_⟩
      · intro tenantId
        simp only [usageOf, completedBy, hcompleted, Phase.due, List.singleton_append,
          List.map_cons,
          List.sum_cons, add_zero]
        rw [add_assoc]
      · refine ⟨_, row, by rw [hcompleted]; rfl, rfl, rfl, ?_,
          hrow, by rw [ownership, hid, htenant]⟩
        exact fault_of_answer step rfl ⟨(), rfl⟩

/-- One call of an operation, seen from its phase. -/
theorem exec_phase {phase : Phase} {task : Task} (hc : Consistent s.db) (since : Extends s₀ s)
    (holds : Holds s₀ s phase) (may : May task phase op) (step : exec env pid op c s = some (a, s'))
    (steady : ∀ x, phase.about = some x → c.fault = none) (unpurged : deletes op = false) :
    ∃ phase', Moves phase op a phase' ∧ Holds s₀ s' phase' ∧ Posted s s' phase phase' op c := by
  have early : Early phase → Ready task phase op → ∃ phase', Advance phase op a phase' ∧
      Holds s₀ s' phase' ∧ Posted s s' phase phase' op c := by
    intro early ready
    cases hm : marked? op with
    | none => exact exec_early early holds step ready hm unpurged
    | some id =>
      unfold marked? at hm
      split at hm
      · obtain ⟨-, t, rfl, rfl⟩ := ready
        exact exec_completes hc holds since step
      · cases hm
  cases phase with
  | plain => exact early trivial may
  | read t => exact early trivial may
  | owing x =>
    change op = _ at may
    subst may
    unfold exec at step
    rw [steady x rfl] at step
    cases step
    refine ⟨_, ⟨⟨(), rfl⟩, rfl⟩, .nothing (holds.trans (.same rfl rfl rfl rfl)), ?_,
      fun y h => h, .inl rfl⟩
    intro tenantId
    have := usageOf_addUsage s.db tenantId x.tenantId x.processedBytes
    simp only [completedBy, Phase.due, add_zero]
    rw [this]
  | telling x told =>
    have hdb := publishCall_db step may
    have tells : Tells op := by
      change PublishCall op at may
      unfold PublishCall at may
      split at may <;> trivial
    have answered := exec_tells step tells (steady x rfl)
    exact ⟨_, ⟨answered, rfl⟩, Recorded.hear holds step, posted_same (by rw [hdb]) (by rw [hdb])
      (fun _ => rfl) fun y h => h⟩

end Books

section Runs
variable {env : Env} {s₀ : State}

/-- The operation is in this phase; only workers make completions. -/
structure InPhase (env : Env) (s₀ s : State) (t : SysThread) (phase : Phase) : Prop where
  holds : Holds s₀ s phase
  obeys : Obeys (metering t.task) (fun phase _ => Balanced env phase) phase t.prog
  worker : ∀ x, phase.about = some x → ∃ jobId data, t.task = .process jobId data

theorem inPhase_new (s : State) {t : SysThread} (fresh : t.prog = code env t.task) :
    InPhase env s₀ s t .plain :=
  ⟨trivial, fresh ▸ code_metering t.task, fun _ h => nomatch h⟩

theorem InPhase.extend {s s' : State} {t : SysThread} {phase : Phase} (h : InPhase env s₀ s t phase)
    (ext : Extends s s') (rows : s'.db.transfers = s.db.transfers) : InPhase env s₀ s' t phase :=
  ⟨h.holds.extend ext rows, h.obeys, h.worker⟩

theorem marked_worker {task : Task} {phase : Phase} {op : Op} {id : Nat} (may : May task phase op)
    (hm : marked? op = some id) : ∃ jobId data, task = .process jobId data := by
  unfold marked? at hm
  split at hm
  · cases phase with
    | owing x => cases may
    | telling x told => exact may.elim
    | plain | read t => exact may.1
  · cases hm

theorem advance_about {phase phase' : Phase} {op : Op} {a : Except Err op.Ans} (early : Early phase)
    (adv : Advance phase op a phase') (unmarked : marked? op = none) : phase'.about = none := by
  unfold Advance at adv
  split at adv
  · rw [adv]; rfl
  · cases unmarked
  · rw [adv]
    cases phase <;> first | rfl | exact early.elim

/-- One answer to an operation in a phase. -/
theorem InPhase.resume {s s' : State} {t : SysThread} {phase : Phase} {op : Op} {c : Choice}
    {k : Except Err op.Ans → Async Reply} {a : Except Err op.Ans} (h : InPhase env s₀ s t phase)
    (hc : Consistent s.db) (since : Extends s₀ s) (at_call : t.prog = .await op k)
    (step : exec env t.pid op c s = some (a, s')) (steady : Owes t.prog → c.fault = none)
    (unpurged : deletes op = false) :
    ∃ phase', InPhase env s₀ s' { t with prog := k a } phase' ∧ Posted s s' phase phase' op c := by
  have obeys := h.obeys
  have owes : ∀ x, phase.about = some x → c.fault = none := fun x hx =>
    steady ⟨by rw [at_call]; exact fun h => (nomatch h), owes_of_about h.obeys hx⟩
  rw [at_call] at obeys
  obtain ⟨phase', moves, holds, posted⟩ := exec_phase hc since h.holds obeys.1 step owes unpurged
  refine ⟨phase', ⟨holds, obeys.2 a phase' ⟨exec_sound step, moves⟩, fun x hx => ?_⟩, posted⟩
  cases hm : marked? op with
  | some id => exact marked_worker obeys.1 hm
  | none =>
    cases phase with
    | owing y => exact h.worker y rfl
    | telling y told => exact h.worker y rfl
    | plain => rw [advance_about early_plain moves hm] at hx; cases hx
    | read t' => rw [advance_about (early_read t') moves hm] at hx; cases hx

/-- The completion has been published. -/
def Reported (env : Env) (s₀ s : State) (x : Completion) : Prop :=
  ∃ event : TransferEvent, event.type = .transferCompleted ∧ event.transferId = x.transferId ∧
    event.tenantId = x.tenantId ∧ Announced env s₀ s event

theorem Reported.extend {s s' : State} {x : Completion} (h : Reported env s₀ s x)
    (ext : Extends s s') :
    Reported env s₀ s' x := by
  obtain ⟨event, htype, hid, htenant, announced⟩ := h
  exact ⟨event, htype, hid, htenant, announced.extend ext⟩

structure Books (env : Env) (s₀ : State) (w : SysWorld) : Prop where
  since : Extends s₀ w.store
  phases : ∀ t ∈ w.threads, ∃ phase, InPhase env s₀ w.store t phase
  tally : ∀ tenantId, usageOf w.store.db tenantId + (w.threads.map (due tenantId)).sum =
    completedBy w.store.db tenantId
  once : (w.store.db.completions.map (·.transferId)).Nodup
  success : ∀ row ∈ w.store.db.transfers, row.status = .success →
    ∃ x ∈ w.store.db.completions, ownership row = (x.transferId, x.tenantId)
  rows : ∀ x ∈ w.store.db.completions,
    ∃ row ∈ w.store.db.transfers, ownership row = (x.transferId, x.tenantId)
  told : ∀ x ∈ w.store.db.completions, Reported env s₀ w.store x ∨
    ∃ t ∈ w.threads, ∃ phase, InPhase env s₀ w.store t phase ∧ phase.about = some x

/-- An operation that has ended has published its completion. -/
theorem reported_of_done {s : State} {t : SysThread} {phase : Phase} {out : Except Err Reply}
    {x : Completion} (h : InPhase env s₀ s t phase) (ended : t.prog = .done out)
    (about : phase.about = some x) : Reported env s₀ s x := by
  have balanced := h.obeys
  have holds := h.holds
  rw [ended, obeys_done] at balanced
  cases phase with
  | owing y => exact balanced.elim
  | telling y told =>
    cases about
    obtain ⟨event, htype, hid, htenant, published⟩ := balanced
    exact ⟨event, htype, hid, htenant, Recorded.announced holds published⟩
  | _ => cases about

theorem spawned_due (env : Env) (tenantId : String) (n : Nat) (tasks : List Task) :
    ((spawn (code env) n tasks).map (due tenantId)).sum = 0 := by
  have each : ∀ d ∈ (spawn (code env) n tasks).map (due tenantId), d = 0 := by
    intro d hd
    obtain ⟨t, ht, rfl⟩ := List.mem_map.mp hd
    have obeys : Obeys (metering t.task) (fun phase _ => Balanced env phase) .plain t.prog :=
      (mem_spawn ht).2.1 ▸ code_metering t.task
    exact due_of_obeys obeys tenantId
  exact List.sum_eq_zero each

theorem rebalance {u u' d d' c c' l r : Nat × Nat} (posted : u' + d' + c = u + d + c')
    (before : u + (l + (d + r)) = c) : u' + (l + (d' + r)) = c' := by
  have h₁ := congrArg Prod.fst posted
  have h₂ := congrArg Prod.snd posted
  have b₁ := congrArg Prod.fst before
  have b₂ := congrArg Prod.snd before
  simp only [Prod.fst_add, Prod.snd_add] at h₁ h₂ b₁ b₂
  ext
  · simp only [Prod.fst_add]; omega
  · simp only [Prod.snd_add]; omega

/-- A row that turns SUCCESS is completed in the same step. -/
theorem success_completed {pid : Nat} {c : Choice} {s s' : State} {op : Op} {a : Except Err op.Ans}
    (hc : Consistent s.db) (step : exec env pid op c s = some (a, s')) {row : FileTransfer}
    (hrow : row ∈ s'.db.transfers) (done : row.status = .success) :
    row ∈ s.db.transfers ∨ ∃ x ∈ s'.db.completions, ownership row = (x.transferId, x.tenantId) := by
  rcases exec_effect_db step with heq | ⟨dbOp, rfl, e⟩
  · exact .inl (heq ▸ hrow)
  · rcases status_origin hc e hrow (by rw [done]; decide) with h | ⟨t₀, ht₀, p, -, rfl, -, hcomp⟩
    · exact .inl h
    · right
      cases p with
      | markSuccess bucket key etag sha encrypted wrappedDek bytes =>
        rw [hcomp, completed_row hc ht₀ bucket key etag sha encrypted wrappedDek bytes]
        exact ⟨_, List.mem_append_left _ (List.mem_singleton_self _), rfl⟩
      | _ => cases done

theorem InPhase.owes {s : State} {t : SysThread} {phase : Phase} {x : Completion}
    (h : InPhase env s₀ s t phase) (about : phase.about = some x) :
    Owes t.prog ∨ Reported env s₀ s x := by
  cases hp : t.prog with
  | done out => exact .inr (reported_of_done h hp about)
  | await op k =>
    refine .inl ⟨fun h => (nomatch h), ?_⟩
    rw [← hp]
    exact owes_of_about h.obeys about

theorem due_of_not_owes {s : State} {t : SysThread} {phase : Phase} (h : InPhase env s₀ s t phase)
    (free : ¬ Owes t.prog) (tenantId : String) : due tenantId t = 0 := by
  rw [due_of_obeys h.obeys]
  cases phase with
  | owing x =>
    rcases h.owes rfl with owes | _
    · exact absurd owes free
    · cases hp : t.prog with
      | done out =>
        have balanced := h.obeys
        rw [hp] at balanced
        exact balanced.elim
      | await op k =>
        exact absurd ⟨by rw [hp]; exact fun h => (nomatch h), owes_of_about h.obeys rfl⟩ free
  | _ => rfl

/-- Steps that leave the tables alone: threads may come and may go when they owe nothing. -/
theorem books_still {w w' : SysWorld} (h : Books env s₀ w) (ext : Extends w.store w'.store)
    (transfers : w'.store.db.transfers = w.store.db.transfers)
    (usage : w'.store.db.usage = w.store.db.usage)
    (completions : w'.store.db.completions = w.store.db.completions)
    (phases : ∀ t ∈ w'.threads, t ∈ w.threads ∨ InPhase env s₀ w'.store t .plain)
    (dues : ∀ tenantId, (w'.threads.map (due tenantId)).sum = (w.threads.map (due tenantId)).sum)
    (gone : ∀ t ∈ w.threads, t ∈ w'.threads ∨ ¬ Owes t.prog) : Books env s₀ w' where
  since := h.since.trans ext
  phases t ht := by
    rcases phases t ht with ht | new
    · obtain ⟨phase, inPhase⟩ := h.phases t ht
      exact ⟨phase, inPhase.extend ext transfers⟩
    · exact ⟨.plain, new⟩
  tally tenantId := by
    rw [dues tenantId]
    simpa only [usageOf, completedBy, usage, completions] using h.tally tenantId
  once := completions ▸ h.once
  success row hrow done := by
    rw [completions]
    exact h.success row (transfers ▸ hrow) done
  rows x hx := by
    rw [transfers]
    exact h.rows x (completions ▸ hx)
  told x hx := by
    rcases h.told x (completions ▸ hx) with told | ⟨t, ht, phase, inPhase, about⟩
    · exact .inl (told.extend ext)
    · rcases gone t ht with ht' | free
      · exact .inr ⟨t, ht', phase, inPhase.extend ext transfers, about⟩
      · rcases inPhase.owes about with owes | reported
        · exact absurd owes free
        · exact .inl (reported.extend ext)

/-- An answered call keeps the books. -/
theorem books_resume {w : SysWorld} {pid : Nat} {c : Choice} {l l' : List SysThread} {t : SysThread}
    {op : Op} {k : Except Err op.Ans → Async Reply} {a : Except Err op.Ans} {s : State}
    (h : Books env s₀ w) (hc : Consistent w.store.db) (steady : Steady w (.resume pid c))
    (unpurged : Unpurged w (.resume pid c)) (found : focus pid w.threads = some (l, t, l'))
    (at_call : t.prog = .await op k) (step : exec env pid op c w.store = some (a, s)) :
    Books env s₀ ⟨s, l ++ { t with prog := k a } :: l', w.nextPid⟩ := by
  obtain ⟨hmem, hothers⟩ := mem_of_focus found
  obtain ⟨hthreads, rfl⟩ := focus_some found
  obtain ⟨owes, again⟩ := steady t hmem rfl
  have ext := exec_extends step
  have keeps : deletes op = false := by
    have := List.any_eq_false.mp unpurged t hmem
    simpa [at_call, Prog.head] using this
  have other : ∀ t' ∈ l ++ l', ∀ phase, InPhase env s₀ w.store t' phase →
      InPhase env s₀ s t' phase :=
    fun t' _ phase h => ⟨h.holds.exec step keeps, h.obeys, h.worker⟩
  obtain ⟨phase, inPhase⟩ := h.phases t hmem
  obtain ⟨phase', inPhase', posted⟩ := inPhase.resume hc h.since at_call step owes keeps
  constructor
  · exact h.since.trans ext
  · intro t' ht'
    rcases mem_middle.mp ht' with rfl | ht'
    · exact ⟨phase', inPhase'⟩
    · obtain ⟨phase, hp⟩ := h.phases t' (hothers t' ht')
      exact ⟨phase, other t' ht' phase hp⟩
  · intro tenantId
    have before := h.tally tenantId
    rw [hthreads, List.map_append, List.map_cons, List.sum_append, List.sum_cons,
      due_of_obeys inPhase.obeys] at before
    rw [List.map_append, List.map_cons, List.sum_append, List.sum_cons, due_of_obeys inPhase'.obeys]
    exact rebalance (posted.tally tenantId) before
  · rcases posted.completions with heq | ⟨x, row, heq, -, hm, noFault, -⟩
    · rw [heq]
      exact h.once
    · rw [heq, List.map_cons, List.nodup_cons]
      refine ⟨fun hx => ?_, h.once⟩
      obtain ⟨y, hy, hid⟩ := List.mem_map.mp hx
      exact again op x.transferId (by rw [at_call]; rfl) hm noFault y hy hid
  · intro row hrow done
    rcases success_completed hc step hrow done with hrow | new
    · obtain ⟨x, hx, hown⟩ := h.success row hrow done
      exact ⟨x, posted.kept hx, hown⟩
    · exact new
  · intro x hx
    have old : ∃ row ∈ w.store.db.transfers, ownership row = (x.transferId, x.tenantId) := by
      rcases posted.origin hx with hx | ⟨-, row⟩
      · exact h.rows x hx
      · exact row
    rcases exec_effect_db step with heq | ⟨dbOp, rfl, e⟩
    · rw [heq]
      exact old
    · rcases column_kept kept_ownership e old with h | ⟨cutoff, rfl, -⟩
      · exact h
      · cases keeps
  · intro x hx
    rcases posted.origin hx with hx | ⟨about, -⟩
    · rcases h.told x hx with told | ⟨t', ht', phase₁, hp, about⟩
      · exact .inl (told.extend ext)
      · right
        rw [hthreads] at ht'
        rcases mem_middle.mp ht' with rfl | ht'
        · obtain ⟨phase₂, hp₂, posted₂⟩ := hp.resume hc h.since at_call step owes keeps
          exact ⟨_, mem_middle.mpr (.inl rfl), phase₂, hp₂, posted₂.about x about⟩
        · exact ⟨t', mem_middle.mpr (.inr ht'), phase₁, other t' ht' phase₁ hp, about⟩
    · exact .inr ⟨_, mem_middle.mpr (.inl rfl), phase', inPhase', about⟩

theorem books_step {w w' : SysWorld} {act : SysAct} (h : Books env s₀ w)
    (hc : Consistent w.store.db) (steady : Steady w act) (unpurged : Unpurged w act)
    (move : (machine env).step w act = some w') :
    Books env s₀ w' := by
  have ext := step_extends move
  cases Machine.step_move move with
  | request s task entered eq =>
    subst eq
    have hdb := (enter_still entered).db
    refine books_still h ext (congrArg Db.transfers hdb) (congrArg Db.usage hdb)
      (congrArg Db.completions hdb) (fun t ht => ?_) (fun tenantId => ?_)
      (fun t ht => .inl (List.mem_append_left _ ht))
    · rcases List.mem_append.mp ht with ht | ht
      · exact .inl ht
      · exact .inr (inPhase_new s (mem_spawn ht).2.1)
    · have new := spawned_due env tenantId w.nextPid [task]
      show ((w.threads ++ spawn (code env) w.nextPid [task]).map (due tenantId)).sum = _
      rw [List.map_append, List.sum_append, new, add_zero]
  | resume l l' t op k a s found at_call answered eq =>
    subst eq
    exact books_resume h hc steady unpurged found at_call answered
  | settle l l' t out found ended eq =>
    subst eq
    have hdb : (finish env t.task out w.store).1.db = w.store.db := finish_db env t.task out w.store
    obtain ⟨hthreads, -⟩ := focus_some found
    obtain ⟨hmem, hothers⟩ := mem_of_focus found
    have free : ¬ Owes t.prog := fun h => h.1 (by rw [ended]; rfl)
    refine books_still h ext (congrArg Db.transfers hdb) (congrArg Db.usage hdb)
      (congrArg Db.completions hdb) (fun t' ht => ?_) (fun tenantId => ?_) (fun t' ht => ?_)
    · rcases List.mem_append.mp ht with ht | ht
      · exact .inl (hothers t' ht)
      · exact .inr (inPhase_new _ (mem_spawn ht).2.1)
    · obtain ⟨phase, inPhase⟩ := h.phases t hmem
      have new := spawned_due env tenantId w.nextPid (finish env t.task out w.store).2
      show ((l ++ l' ++ spawn (code env) w.nextPid (finish env t.task out w.store).2).map
        (due tenantId)).sum = _
      rw [List.map_append, List.sum_append, new, add_zero, hthreads, List.map_append,
        List.map_append,
        List.map_cons, List.sum_append, List.sum_append, List.sum_cons,
        due_of_not_owes inPhase free, zero_add]
    · rw [hthreads] at ht
      simp only [List.mem_append, List.mem_cons] at ht
      rcases ht with ht | rfl | ht
      · exact .inl (by simp [ht])
      · exact .inr free
      · exact .inl (by simp [ht])
  | crash l l' t found eq =>
    subst eq
    obtain ⟨hthreads, hpid⟩ := focus_some found
    obtain ⟨hmem, hothers⟩ := mem_of_focus found
    have free := steady t hmem hpid
    refine books_still h ext rfl rfl rfl (fun t' ht => .inl (hothers t' ht)) (fun tenantId => ?_)
      (fun t' ht => ?_)
    · obtain ⟨phase, inPhase⟩ := h.phases t hmem
      show ((l ++ l').map (due tenantId)).sum = _
      rw [hthreads, List.map_append, List.map_append, List.map_cons, List.sum_append,
        List.sum_append,
        List.sum_cons, due_of_not_owes inPhase free, zero_add]
    · rw [hthreads] at ht
      simp only [List.mem_append, List.mem_cons] at ht
      rcases ht with ht | rfl | ht
      · exact .inl (by simp [ht])
      · exact .inr free
      · exact .inl (by simp [ht])
  | outside s happened eq =>
    subst eq
    have hdb := (outside_still happened).db
    exact books_still h ext (congrArg Db.transfers hdb) (congrArg Db.usage hdb)
      (congrArg Db.completions hdb) (fun t ht => .inl ht) (fun _ => rfl) (fun t ht => .inl ht)

theorem initial_books {w₀ : SysWorld} (start : Initial w₀) : Books env w₀.store w₀ := by
  refine ⟨.refl _, ?_, ?_, ?_, ?_, ?_, ?_⟩
  · simp [start.threads]
  · intro tenantId
    simp [start.threads, usageOf, completedBy, start.usage, start.completions]
  · simp [start.completions]
  · simp [start.transfers]
  · simp [start.completions]
  · simp [start.completions]

/-- Usage and events agree with the rows that have reached SUCCESS. -/
structure Metered (env : Env) (s₀ s : State) : Prop where
  usage : ∀ tenantId, usageOf s.db tenantId = completedBy s.db tenantId
  once : (s.db.completions.map (·.transferId)).Nodup
  success : ∀ row ∈ s.db.transfers, row.status = .success →
    ∃ x ∈ s.db.completions, ownership row = (x.transferId, x.tenantId)
  rows : ∀ x ∈ s.db.completions, ∃ row ∈ s.db.transfers, ownership row = (x.transferId, x.tenantId)
  published : ∀ x ∈ s.db.completions, Reported env s₀ s x

/-- No worker is running. -/
def Resting (w : SysWorld) : Prop := ∀ t ∈ w.threads, ∀ jobId data, t.task ≠ .process jobId data

/-- In steady runs without purges, whenever no worker is running, each tenant's usage
is the number and the size of its completed transfers, each counted once and each
published. -/
theorem usage_is_exact {w₀ w : SysWorld} (start : Initial w₀)
    (path : Reach (machine env) (fun w a => Steady w a ∧ Unpurged w a) w₀ w) (resting : Resting w) :
    Metered env w₀.store w.store := by
  have books : Books env w₀.store w := by
    refine path.invariant (I := Books env w₀.store) (initial_books start) ?_
    intro v v' a hv ok move h
    have sealed' := (booked_invariant start (hv.weaken fun _ _ _ => trivial)).1
    exact books_step h sealed'.consistent ok.1 ok.2 move
  have early : ∀ t ∈ w.threads, ∀ phase x, InPhase env w₀.store w.store t phase →
      phase.about ≠ some x := by
    intro t ht phase x inPhase about
    obtain ⟨jobId, data, htask⟩ := inPhase.worker x about
    exact resting t ht jobId data htask
  refine ⟨fun tenantId => ?_, books.once, books.success, books.rows, fun x hx => ?_⟩
  · have none : (w.threads.map (due tenantId)).sum = 0 := by
      refine List.sum_eq_zero fun d hd => ?_
      obtain ⟨t, ht, rfl⟩ := List.mem_map.mp hd
      obtain ⟨phase, inPhase⟩ := books.phases t ht
      rw [due_of_obeys inPhase.obeys]
      cases phase with
      | owing x => exact absurd rfl (early t ht _ x inPhase)
      | _ => rfl
    have := books.tally tenantId
    rwa [none, add_zero] at this
  · rcases books.told x hx with told | ⟨t, ht, phase, inPhase, about⟩
    · exact told
    · exact absurd about (early t ht phase x inPhase)

/-- Enough for a steady step: no rejected call, no lost process, no purge, and no row
is marked SUCCESS after the first. -/
def steady (w : SysWorld) : SysAct → Bool
  | .resume pid c => c.fault.isNone && !purging w (.resume pid c) &&
      w.threads.all fun t => (t.prog.head.bind marked?).isNone || w.store.db.completions.isEmpty
  | .crash _ => false
  | _ => true

theorem steady_sound (w : SysWorld) (a : SysAct) (h : steady w a = true) :
    Steady w a ∧ Unpurged w a := by
  cases a with
  | resume pid c =>
    simp only [steady, Bool.and_eq_true, Option.isNone_iff_eq_none, List.all_eq_true,
      Bool.or_eq_true,
      Bool.not_eq_true', List.isEmpty_iff] at h
    obtain ⟨⟨noFault, unpurged⟩, marks⟩ := h
    refine ⟨fun t ht _ => ⟨fun _ => noFault, fun op id head hm _ x hx => ?_⟩, unpurged⟩
    rcases marks t ht with none | empty
    · rw [head] at none
      simp [hm] at none
    · rw [empty] at hx
      cases hx
  | crash pid => cases h
  | _ => exact ⟨trivial, rfl⟩

theorem usage_is_exact_sample : ∃ w : SysWorld,
    Reach (machine sampleEnv) (fun w a => Steady w a ∧ Unpurged w a) sampleWorld w ∧
    usageOf w.store.db "default" = (1, 1) ∧ Metered sampleEnv sampleWorld.store w.store := by
  have run : ((machine sampleEnv).stepsIf steady sampleWorld
      (sampleAccepted ++ sampleRelay 1 ++ .request (.takeJob 0) :: answer 2 9 ++ [.settle 2])).map
        (fun w => (w.threads.length, usageOf w.store.db "default")) = some (0, (1, 1)) := by
          decide +kernel
  obtain ⟨w, hw, heq⟩ := Option.map_eq_some_iff.mp run
  obtain ⟨hthreads, husage⟩ := Prod.mk.inj heq
  have path := reach_of_stepsIf steady_sound .start _ hw
  have resting : Resting w := by
    intro t ht
    rw [List.length_eq_zero_iff.mp hthreads] at ht
    cases ht
  exact ⟨w, path, husage, usage_is_exact sample_initial path resting⟩

def sampleAdmin : AuthUser := ⟨0, "admin", [.admin], "default"⟩

/-- An administrator has the sample upload queued with three attempts. In the first
the metering is rejected; the second finds the row SUCCESS and returns, and so does
the attempt of the job that the relay adds. -/
def unmeteredRun : List SysAct :=
  sampleAccepted ++ .request (.retry 0 sampleAdmin) :: answer 1 4 ++
    [.settle 1, .request (.takeJob 0)] ++ answer 2 7 ++
    [.resume 2 (.rejected "QueryFailedError" "connection terminated"), .settle 2, .settle 3,
      .request (.takeJob 0)] ++ answer 4 1 ++ .settle 4 :: sampleRelay 5 ++
    .request (.takeJob 1) :: answer 6 1 ++ [.settle 6]

/-- A rejected metering is never made up for. -/
theorem usage_is_not_exact : ¬ ∀ (env : Env) (w₀ w : SysWorld), Initial w₀ →
    Reach (machine env) Unpurged w₀ w → Resting w →
    (∀ j ∈ w.store.queues.jobs, j.state ≠ .waiting ∧ j.state ≠ .active) →
    Metered env w₀.store w.store := by
  intro always
  have run : ((machine sampleEnv).stepsIf (fun w a => !purging w a) sampleWorld unmeteredRun).map
      (fun w => (w.threads.length, w.store.queues.jobs.map (·.state), w.store.db.usage,
        w.store.db.completions.length)) = some (0, [.completed, .completed], [], 1) := by
    decide +kernel
  obtain ⟨w, hw, heq⟩ := Option.map_eq_some_iff.mp run
  simp only [Prod.mk.injEq] at heq
  obtain ⟨hthreads, hjobs, husage, hcompletions⟩ := heq
  have path : Reach (machine sampleEnv) Unpurged sampleWorld w :=
    reach_of_stepsIf (fun w a h => by simpa [Unpurged] using h) .start _ hw
  have metered := always sampleEnv sampleWorld w sample_initial path ?_ ?_
  · obtain ⟨x, hx⟩ := List.length_eq_one_iff.mp hcompletions
    have := metered.usage x.tenantId
    simp only [usageOf, husage, completedBy, hx, amount, List.find?_nil,
      List.map_cons, List.map_nil,
      List.sum_cons, List.sum_nil, if_true] at this
    exact absurd (congrArg Prod.fst this) (by simp)
  · intro t ht
    rw [List.length_eq_zero_iff.mp hthreads] at ht
    cases ht
  · intro j hj
    have := List.mem_map_of_mem (f := fun j : Job => j.state) hj
    rw [hjobs] at this
    have completed : j.state = .completed := by simpa using this
    rw [completed]
    decide

end Runs

end Metering
