import SyncBridge.Downloads
import SyncBridge.Metering
import Mathlib.Data.List.Induction

/-!
# Manual retries that fail on the way

`retry` and `retryBatch` reset rows first and queue their jobs afterwards. The resets
of an administrator take effect one by one, those of a tenant user together at the
commit; the jobs are added one by one in both cases. Any call may be rejected, and the
first rejection ends the operation. The result says for every matching row when it is
left reset without a job.
-/

namespace ManualRetry

open AwaitPrograms Entities Database TableInvariants Calls Ingestion Management Orchestrator
open Footprints SoloRuns
open Metering (sampleAdmin)

/-- The manual retries. -/
inductive Redrive where
  | one (id : Nat)
  | batch (dto : RetryBatchDto)

def Redrive.code (env : Env) (user : AuthUser) : Redrive → Async Unit
  | .one id => (retry env id user).bind fun _ => .done (.ok ())
  | .batch dto => (retryBatch env dto user).bind fun _ => .done (.ok ())

/-- The rows the user's manager sees. -/
def visible (user : AuthUser) (rows : List FileTransfer) : List FileTransfer :=
  if Role.admin ∈ user.roles then rows else rows.filter (tenantIsolation (some user.tenantId))

/-- The rows that a retry finds and will reset, in this order. -/
def Redrive.matching (user : AuthUser) (rows : List FileTransfer) : Redrive → List FileTransfer
  | .one id => match (visible user rows).find? fun t => t.id = id with
    | none => []
    | some t => if t.status = .success then [] else [t]
  | .batch dto =>
    if dto.status.getD .failed = .success then []
    else (orderBy (·.createdAt) ((visible user rows).filter
      fun t => t.status == dto.status.getD .failed &&
      (match dto.before with | none => true | some b => decide (t.updatedAt < b)))).take dto.limit

/-- How often the rows are read again after their reset. -/
def Redrive.rereads : Redrive → Nat
  | .one _ => 1
  | .batch _ => 0

/-- The operation has added a job for the row. -/
def Enqueued (s s' : State) (id : Nat) : Prop :=
  ∃ job ∈ s'.queues.jobs.drop s.queues.jobs.length, job.data.transferId = id

/-- Rows without a new job are as they were. -/
def AllOrQueued (s s' : State) : Prop :=
  ∀ row ∈ s.db.transfers, Enqueued s s' row.id ∨ row ∈ s'.db.transfers

/-- The call with this number is rejected. -/
def Rejected (x : Solo) (n : Nat) : Prop := (x.turns n).choice.fault ≠ none

/-- The clock at the call with this number. -/
def clockAt (x : Solo) (n : Nat) : Nat :=
  x.state.host.now + ((List.range (n + 1)).map fun j => (x.turns j).elapsed).sum

/-- A solo run some calls later: the turns are those still to come and the clock agrees. -/
def Later (x y : Solo) (c : Nat) : Prop :=
  y.turns = (fun n => x.turns (n + c)) ∧ ∀ n, clockAt y n = clockAt x (n + c)

section Calls
variable {env : Env} {pid : Nat} {x y : Solo} {op : Op}

theorem serve_answered (h : ¬ Rejected x 0) {a : Except Err op.Ans} {s' : State}
    (done : perform env pid (x.turns 0).choice ((x.turns 0).before x.state) op = some (a, s')) :
    serve env pid anyCall x op = (a, ⟨s', fun n => x.turns (n + 1)⟩) := by
  refine serve_eq ?_
  have fault : ((x.turns 0).choiceFor anyCall op).fault = none := not_not.mp h
  simp only [exec, fault]
  exact done

theorem Later.refl (x : Solo) : Later x x 0 := ⟨rfl, fun _ => rfl⟩

theorem Later.trans {z : Solo} {c d : Nat} (h : Later x y c) (h' : Later y z d) :
    Later x z (c + d) := by
  constructor
  · rw [h'.1, h.1]
    funext n
    exact congrArg x.turns (by omega)
  · intro n
    rw [h'.2, h.2, Nat.add_assoc, Nat.add_comm d c]

/-- A call moves to the next turn, when it leaves the clock alone. -/
theorem next_call {s' : State} (clock : s'.host.now = x.state.host.now + (x.turns 0).elapsed) :
    Later x ⟨s', fun n => x.turns (n + 1)⟩ 1 := by
  refine ⟨rfl, fun n => ?_⟩
  unfold clockAt
  have turns : List.range (n + 1 + 1) = 0 :: (List.range (n + 1)).map Nat.succ :=
    List.range_succ_eq_map
  rw [clock, turns, List.map_cons, List.map_map, List.sum_cons]
  exact Nat.add_assoc _ _ _

/-- A rejected call changes neither the rows nor the queues. -/
theorem call_rejected (env : Env) (pid : Nat) (op : Op) (may : op.mayFail = true)
    (h : Rejected x 0) :
    ∃ e z, (Prog.call op : Async op.Ans).run (serve env pid anyCall) x = (.error e, z) ∧
      z.state.db = x.state.db ∧ z.state.queues = x.state.queues := by
  obtain ⟨⟨name, message⟩, hf⟩ := Option.ne_none_iff_exists'.mp h
  have fault : ((x.turns 0).choiceFor anyCall op).fault = some (name, message) := hf
  have stopped : exec env pid op ((x.turns 0).choiceFor anyCall op) ((x.turns 0).before x.state) =
      some (.error (.other name message), (x.turns 0).before x.state) := by
    simp only [exec, fault, may, if_true]
  exact ⟨_, _, run_call (serve_eq stopped), rfl, rfl⟩

/-- A statement that only reads. -/
theorem read_answered (env : Env) (pid : Nat) {op : DbOp} {a : op.Ans}
    (reads : ∀ now, x.state.db.exec now pid op = some (.ok a, x.state.db)) (h : ¬ Rejected x 0) :
    ∃ z, (db op).run (serve env pid anyCall) x = (.ok a, z) ∧ Later x z 1 ∧
      z.state.db = x.state.db ∧ z.state.queues = x.state.queues := by
  have done : perform env pid (x.turns 0).choice ((x.turns 0).before x.state) (.db op) =
      some (.ok a, (x.turns 0).before x.state) := by
    simp only [perform, before_db, reads]
    rfl
  exact ⟨_, run_call (serve_answered h done), next_call rfl, rfl, rfl⟩

theorem Later.rejected {c : Nat} (h : Later x y c) (n : Nat) :
    Rejected y n ↔ Rejected x (n + c) := by
  unfold Rejected
  rw [h.1]

end Calls

/-! ## Rows and jobs after some resets -/

/-- The rows after the resets with these numbers and times. -/
structure Stamped (rows₀ : List FileTransfer) (stamps : List (Nat × Nat))
    (rows : List FileTransfer) : Prop where
  kept : ∀ t ∈ rows₀, t.id ∉ stamps.map (·.1) → t ∈ rows
  reset : ∀ t ∈ rows₀, ∀ now, (t.id, now) ∈ stamps → Patch.resetForRetry.apply now t ∈ rows
  columns : ∀ {β : Type} (f : FileTransfer → β), Kept f → rows.map f = rows₀.map f

/-- The state after the resets and after the jobs of these rows were added. -/
structure Redriven (s : State) (stamps : List (Nat × Nat)) (queued : List Nat)
    (s' : State) : Prop where
  rows : Stamped s.db.transfers stamps s'.db.transfers
  jobs : ∃ new, s'.queues.jobs = s.queues.jobs ++ new ∧ new.map (·.data.transferId) = queued

section Stamps
variable {rows₀ rows : List FileTransfer} {stamps : List (Nat × Nat)} {s s' : State}
  {queued : List Nat}

theorem stamped_none (rows : List FileTransfer) : Stamped rows [] rows :=
  ⟨fun _ h _ => h, fun _ _ _ h => (nomatch h), fun _ _ => rfl⟩

/-- One more row is reset, one that has not been reset before. -/
theorem Stamped.snoc (h : Stamped rows₀ stamps rows) (tenant : Option String) (now : Nat) {id : Nat}
    (new : id ∉ stamps.map (·.1))
    (seen : ∀ t ∈ rows₀, t.id = id → tenantIsolation tenant t = true) :
    Stamped rows₀ (stamps ++ [(id, now)]) (patchRow tenant now id .resetForRetry rows) := by
  refine ⟨fun t ht hid => ?_, fun t ht τ hstamp => ?_, fun f hf => ?_⟩
  · simp only [List.map_append, List.map_cons, List.map_nil, List.mem_append, List.mem_singleton,
      not_or] at hid
    exact mem_patchRow_of_ne _ (h.kept t ht hid.1) hid.2
  · rcases List.mem_append.mp hstamp with old | last
    · have other : t.id ≠ id := fun heq => new (heq ▸ List.mem_map_of_mem old)
      exact mem_patchRow_of_ne _ (h.reset t ht τ old) (by simpa using other)
    · obtain ⟨rfl, rfl⟩ := Prod.mk.inj (List.mem_singleton.mp last)
      exact List.mem_map.mpr ⟨t, h.kept t ht new, if_pos ⟨rfl, seen t ht rfl⟩⟩
  · rw [patchRow_map hf, h.columns f hf]

/-- Which rows lack a job can be read off the resets and the queue. -/
theorem allOrQueued_iff (distinct : (s.db.transfers.map (·.id)).Nodup)
    (h : Redriven s stamps queued s') : AllOrQueued s s' ↔ ∀ t ∈ s.db.transfers, ∀ now,
      (t.id, now) ∈ stamps → t.id ∈ queued ∨ Patch.resetForRetry.apply now t = t := by
  obtain ⟨new, jobs, hqueued⟩ := h.jobs
  have enqueued : ∀ id, Enqueued s s' id ↔ id ∈ queued := by
    intro id
    unfold Enqueued
    rw [jobs, List.drop_left, ← hqueued, List.mem_map]
  have ids : (s'.db.transfers.map (·.id)).Nodup := by
    rw [h.rows.columns _ kept_id]
    exact distinct
  constructor
  · intro all t ht now stamp
    rcases all t ht with job | same
    · exact .inl ((enqueued t.id).mp job)
    · exact .inr (List.inj_on_of_nodup_map ids (h.rows.reset t ht now stamp) same (by simp))
  · intro each t ht
    by_cases stamped : t.id ∈ stamps.map (·.1)
    · obtain ⟨⟨id, now⟩, stamp, hid⟩ := List.mem_map.mp stamped
      obtain rfl : id = t.id := hid
      rcases each t ht now stamp with job | same
      · exact .inl ((enqueued _).mpr job)
      · exact .inr (same ▸ h.rows.reset t ht now stamp)
    · exact .inr (h.rows.kept t ht stamped)

/-- Only the rows and the queues matter. -/
theorem Redriven.congr {s₁ : State} (h : Redriven s stamps queued s') (rows : s₁.db = s'.db)
    (queues : s₁.queues = s'.queues) : Redriven s stamps queued s₁ := by
  constructor
  · rw [rows]
    exact h.rows
  · rw [queues]
    exact h.jobs

theorem redriven_none (s : State) : Redriven s [] [] s :=
  ⟨stamped_none _, [], by simp, rfl⟩

end Stamps

/-! ## Loops that stop at the first rejection -/

section Loop
variable (env : Env) (pid : Nat) {x : Solo} {γ : Type} {f : γ → Async Unit}
variable {R : List γ → Solo → Prop} {E : List γ → State → Prop} {c : Nat}

/-- A loop of single calls over elements with different numbers: how far it comes is
decided by the first rejection. -/
theorem loop_served (g : γ → Nat)
    (later : ∀ pre y, R pre y → Later x y (c + pre.length))
    (pass : ∀ pre t y, R pre y → g t ∉ pre.map g → ¬ Rejected y 0 →
      ∃ y', (f t).run (serve env pid anyCall) y = (.ok (), y') ∧ R (pre ++ [t]) y')
    (stop : ∀ pre t y, R pre y → Rejected y 0 →
      ∃ e y', (f t).run (serve env pid anyCall) y = (.error e, y') ∧ E pre y'.state)
    (ts pre : List γ) (distinct : ((pre ++ ts).map g).Nodup) {y : Solo} (h : R pre y) :
    ∃ p z, p ≤ ts.length ∧ (∀ j < p, ¬ Rejected x (c + pre.length + j)) ∧
      ((p = ts.length ∧ (Prog.forEach f ts).run (serve env pid anyCall) y = (.ok (), z) ∧
          R (pre ++ ts) z) ∨
        (p < ts.length ∧ Rejected x (c + pre.length + p) ∧
          (∃ e, (Prog.forEach f ts).run (serve env pid anyCall) y = (.error e, z)) ∧
          E (pre ++ ts.take p) z.state)) := by
  induction ts generalizing pre y with
  | nil =>
    refine ⟨0, y, Nat.le_refl 0, fun j hj => absurd hj (Nat.not_lt_zero j), .inl ⟨rfl, rfl, ?_⟩⟩
    rw [List.append_nil]
    exact h
  | cons t ts ih =>
    have here := (later pre y h).rejected 0
    rw [Nat.zero_add] at here
    by_cases rejected : Rejected y 0
    · obtain ⟨e, y', run, ended⟩ := stop pre t y h rejected
      refine ⟨0, y', Nat.zero_le _, fun j hj => absurd hj (Nat.not_lt_zero j),
        .inr ⟨?_, ?_, ⟨e, ?_⟩, ?_⟩⟩
      · exact Nat.succ_pos _
      · exact here.mp rejected
      · exact run_bind_error run
      · simpa using ended
    · have fresh : g t ∉ pre.map g := by
        intro hmem
        rw [List.map_append] at distinct
        exact (List.disjoint_of_nodup_append distinct) hmem List.mem_cons_self
      obtain ⟨y', run, h'⟩ := pass pre t y h fresh rejected
      have again : ((pre ++ [t] ++ ts).map g).Nodup := by simpa using distinct
      obtain ⟨p, z, hp, clear, rest⟩ := ih (pre ++ [t]) again h'
      have length : (pre ++ [t]).length = pre.length + 1 := by simp
      rw [length] at clear rest
      have whole : (Prog.forEach f (t :: ts)).run (serve env pid anyCall) y =
          (Prog.forEach f ts).run (serve env pid anyCall) y' := run_bind_ok run
      refine ⟨p + 1, z, Nat.succ_le_succ hp, ?_, ?_⟩
      · intro j hj
        cases j with
        | zero => exact fun hr => rejected (here.mpr hr)
        | succ j =>
          have := clear j (by omega)
          rwa [show c + (pre.length + 1) + j = c + pre.length + (j + 1) by omega] at this
      · rcases rest with ⟨hp, run', ended⟩ | ⟨hp, hrej, ⟨e, run'⟩, ended⟩
        · refine .inl ⟨by simp [hp], whole.trans run', ?_⟩
          simpa using ended
        · refine .inr ⟨by simpa using hp, ?_, ⟨e, whole.trans run'⟩, ?_⟩
          · rwa [show c + (pre.length + 1) + p = c + pre.length + (p + 1) by omega] at hrej
          · simpa using ended

/-- How far the loop came, said for each position. -/
theorem reached_iff {n p b : Nat} (hp : p ≤ n) (clear : ∀ j < p, ¬ Rejected x (b + j))
    (stopped : p < n → Rejected x (b + p)) {i : Nat} (hi : i < n) :
    i < p ↔ ∀ j ≤ i, ¬ Rejected x (b + j) := by
  constructor
  · exact fun h j hj => clear j (by omega)
  · intro h
    by_contra hip
    exact h p (by omega) (stopped (by omega))

end Loop

/-! ## The resets -/

section Resets
variable {env : Env} {pid : Nat} {x y : Solo} {user : AuthUser}
  {found : List FileTransfer} {k i : Nat}

/-- The reset of this position takes effect: no call up to it is rejected, and in a
transaction none up to the commit. -/
def Lasting (x : Solo) (user : AuthUser) (n k i : Nat) : Prop :=
  if Role.admin ∈ user.roles then ∀ j ≤ i + 1, ¬ Rejected x j else ∀ j ≤ n + k + 3, ¬ Rejected x j

/-- The time a reset writes: its own, or that of the transaction. -/
def stampTime (x : Solo) (user : AuthUser) (i : Nat) : Nat :=
  if Role.admin ∈ user.roles then clockAt x (i + 1) else clockAt x 0

/-- The number of the call that adds the first job. -/
def firstJob (user : AuthUser) (n k : Nat) : Nat :=
  if Role.admin ∈ user.roles then n + k + 1 else n + k + 4

/-- What is left behind before the first job is added. -/
def FirstHalf (x : Solo) (user : AuthUser) (found : List FileTransfer) (k : Nat) (returned : Prop)
    (z : Solo) : Prop :=
  ∃ stamps, Redriven x.state stamps [] z.state ∧ (∀ e ∈ stamps, e.1 ∈ found.map (·.id)) ∧
    (∀ i t, found[i]? = some t → ∀ now, (t.id, now) ∈ stamps ↔
      Lasting x user found.length k i ∧ now = stampTime x user i) ∧
    (returned → Later x z (firstJob user found.length k) ∧
      ∀ j < firstJob user found.length k, ¬ Rejected x j) ∧
    (¬ returned → found = [] ∨ ∃ j < firstJob user found.length k, Rejected x j)

/-- A loop of resets, by the manager of the operation. -/
def resets (mgr : Manager) (found : List FileTransfer) : Async Unit :=
  Prog.forEach (fun t : FileTransfer => db (.resetForRetry mgr t.id)) found

/-- The resets of a list of rows, one call after another. -/
def stampsFrom (x : Solo) (c : Nat) (rows : List FileTransfer) : List (Nat × Nat) :=
  rows.zipIdx.map fun e => (e.1.id, clockAt x (c + e.2))

theorem stampsFrom_snoc (x : Solo) (c : Nat) (rows : List FileTransfer) (t : FileTransfer) :
    stampsFrom x c (rows ++ [t]) = stampsFrom x c rows ++
      [(t.id, clockAt x (c + rows.length))] := by
  simp [stampsFrom, List.zipIdx_append]

theorem stampsFrom_ids (x : Solo) (c : Nat) (rows : List FileTransfer) :
    (stampsFrom x c rows).map (·.1) = rows.map (·.id) := by
  simp only [stampsFrom, List.map_map]
  have :
      (fun e : Nat × Nat => e.1) ∘ (fun e : FileTransfer × Nat => (e.1.id, clockAt x (c + e.2))) =
      (fun t : FileTransfer => t.id) ∘ Prod.fst := rfl
  rw [this, ← List.map_map, List.zipIdx_map_fst]

theorem mem_stampsFrom {c p now : Nat} {t : FileTransfer} (distinct : (found.map (·.id)).Nodup)
    (ht : found[i]? = some t) :
    (t.id, now) ∈ stampsFrom x c (found.take p) ↔ i < p ∧ now = clockAt x (c + i) := by
  have hi : i < found.length := (List.getElem?_eq_some_iff.mp ht).1
  simp only [stampsFrom, List.mem_map, Prod.mk.injEq, Prod.exists, List.mem_zipIdx_iff_getElem?]
  constructor
  · rintro ⟨t', j, hj, hid, rfl⟩
    rw [List.getElem?_take] at hj
    split at hj
    · rename_i hjp
      have same : i = j := by
        refine (List.getElem?_inj (by simpa using hi) distinct).mp ?_
        rw [List.getElem?_map, List.getElem?_map, ht, hj, Option.map_some, Option.map_some, hid]
      subst same
      exact ⟨hjp, rfl⟩
    · cases hj
  · rintro ⟨hp, rfl⟩
    refine ⟨t, i, ?_, rfl, rfl⟩
    rw [List.getElem?_take, if_pos hp, ht]

theorem clockAt_zero (x : Solo) : clockAt x 0 = x.state.host.now + (x.turns 0).elapsed := by
  simp [clockAt]

/-- An administrator's reset. -/
theorem pool_reset (env : Env) (pid : Nat) (idle : y.state.db.openTxs = []) (h : ¬ Rejected y 0)
    (id : Nat) : ∃ z, (db (.resetForRetry .pool id)).run (serve env pid anyCall) y = (.ok (), z) ∧
      Later y z 1 ∧ z.state.db.openTxs = [] ∧ z.state.queues = y.state.queues ∧
      z.state.db.transfers = patchRow none
        (clockAt y 0) id .resetForRetry y.state.db.transfers := by
  let s := (y.turns 0).before y.state
  let db' : Db := { s.db with
    transfers := patchRow none s.host.now id .resetForRetry s.db.transfers
    completions := completed id .resetForRetry s.db.transfers ++ s.db.completions }
  refine ⟨⟨{ s with db := db' }, fun n => y.turns (n + 1)⟩, run_call (serve_answered h ?_),
    next_call rfl, idle, rfl, ?_⟩
  · have free : s.db.locked Db.anyone id = false := by
      change List.any y.state.db.openTxs _ = false
      rw [idle]
      rfl
    simp only [perform, Db.exec, Db.updateRow]
    rw [if_neg (by rw [free]; decide)]
  · rw [clockAt_zero]
    rfl

end Resets

section Pool
variable {x : Solo} {user : AuthUser} {found : List FileTransfer}

/-- Nothing was reset and nothing else will be done. -/
theorem firstHalf_none {k : Nat} {z : Solo} {returned : Prop}
    (same : Redriven x.state [] [] z.state) (stopped : ¬ returned)
    (why : found = [] ∨ ∃ j < firstJob user found.length k, Rejected x j)
    (none : ∀ i < found.length, ¬ Lasting x user found.length k i) :
    FirstHalf x user found k returned z := by
  refine ⟨[], same, fun _ h => (nomatch h), fun i t ht now => ?_,
    fun h => absurd h stopped, fun _ => why⟩
  constructor
  · exact fun h => nomatch h
  · exact fun h => absurd h.1 (none i (List.getElem?_eq_some_iff.mp ht).1)

theorem clear_succ {p : Nat} (first : ¬ Rejected x 0) (clear : ∀ j < p, ¬ Rejected x (1 + j)) :
    ∀ j < p + 1, ¬ Rejected x j := by
  intro j hj
  cases j with
  | zero => exact first
  | succ j =>
    rw [Nat.add_comm j 1]
    exact clear j (by omega)

/-- The loop of resets on the pool: each row passed is reset at its own time. -/
theorem pool_loop (env : Env) (pid : Nat) {y : Solo} (distinct : (found.map (·.id)).Nodup)
    (later : Later x y 1) (idle : y.state.db.openTxs = []) (same : Redriven x.state [] [] y.state) :
    ∃ p z, p ≤ found.length ∧ (∀ j < p, ¬ Rejected x (1 + j)) ∧
      ((p = found.length ∧ (resets .pool found).run (serve env pid anyCall) y = (.ok (), z) ∧
          Later x z (1 + found.length) ∧ Redriven x.state (stampsFrom x 1 found) [] z.state) ∨
        (p < found.length ∧ Rejected x (1 + p) ∧
          (∃ e, (resets .pool found).run (serve env pid anyCall) y = (.error e, z)) ∧
          Redriven x.state (stampsFrom x 1 (found.take p)) [] z.state)) := by
  obtain ⟨p, z, hp, clear, ended⟩ := loop_served env pid (x := x) (c := 1)
    (f := fun t : FileTransfer => db (.resetForRetry .pool t.id))
    (R := fun pre y => Later x y (1 + pre.length) ∧ y.state.db.openTxs = [] ∧
      Redriven x.state (stampsFrom x 1 pre) [] y.state)
    (E := fun pre s => Redriven x.state (stampsFrom x 1 pre) [] s) (·.id) (fun _ _ h => h.1)
    (by
      rintro pre t y ⟨later, idle, redriven⟩ fresh rejected
      obtain ⟨z, run, next, idle', queues, rows⟩ := pool_reset env pid idle rejected t.id
      refine ⟨z, run, ?_, idle', ?_, queues ▸ redriven.jobs⟩
      · rw [List.length_append, ← Nat.add_assoc]
        exact later.trans next
      · rw [rows, stampsFrom_snoc, later.2 0, Nat.zero_add]
        refine redriven.rows.snoc none _ ?_ fun _ _ _ => rfl
        rw [stampsFrom_ids]
        exact fresh)
    (by
      rintro pre t y ⟨-, -, redriven⟩ rejected
      obtain ⟨e, z, stopped, db, queues⟩ :=
        call_rejected env pid (.db (.resetForRetry .pool t.id)) rfl rejected
      exact ⟨e, z, stopped, redriven.congr db queues⟩)
    found [] (by simpa using distinct) ⟨later, idle, same⟩
  refine ⟨p, z, hp, by simpa using clear, ?_⟩
  rcases ended with ⟨whole, run, later', -, redriven⟩ | ⟨less, rejected, stopped, redriven⟩
  · exact .inl ⟨whole, run, later', redriven⟩
  · exact .inr ⟨less, by simpa using rejected, stopped, redriven⟩

/-- The loop of resets of an administrator. -/
theorem pool_resets (env : Env) (pid : Nat) {y : Solo} (admin : Role.admin ∈ user.roles)
    (distinct : (found.map (·.id)).Nodup) (later : Later x y 1) (idle : y.state.db.openTxs = [])
    (same : Redriven x.state [] [] y.state) (unrejected : ¬ Rejected x 0) :
    ∃ out z, (resets .pool found).run (serve env pid anyCall) y = (out, z) ∧
      FirstHalf x user found 0 (out = .ok ()) z := by
  have job : firstJob user found.length 0 = found.length + 1 := by simp [firstJob, admin]
  have last : ∀ i, Lasting x user found.length 0 i ↔ ∀ j ≤ i + 1, ¬ Rejected x j := by
    simp [Lasting, admin]
  have time : ∀ i, stampTime x user i = clockAt x (1 + i) := by
    intro i
    simp [stampTime, admin, Nat.add_comm]
  obtain ⟨p, z, hp, clear, ended⟩ := pool_loop env pid distinct later idle same
  have reached : ∀ i < found.length, (i < p ↔ Lasting x user found.length 0 i) := by
    intro i hi
    have stopped : p < found.length → Rejected x (1 + p) := by
      intro less
      rcases ended with ⟨whole, -⟩ | ⟨-, rejected, -⟩
      · omega
      · exact rejected
    rw [last, reached_iff hp clear stopped hi]
    constructor
    · intro h j hj
      exact clear_succ (p := i + 1) unrejected (fun j hj => h j (by omega)) j (by omega)
    · intro h j hj
      exact h (1 + j) (by omega)
  have stamps : ∀ i t, found[i]? = some t → ∀ now, (t.id, now) ∈ stampsFrom x 1 (found.take p) ↔
      Lasting x user found.length 0 i ∧ now = stampTime x user i := by
    intro i t ht now
    rw [mem_stampsFrom distinct ht, time, reached i (List.getElem?_eq_some_iff.mp ht).1]
  have listed : ∀ e ∈ stampsFrom x 1 (found.take p), e.1 ∈ found.map (·.id) := by
    intro e he
    have := List.mem_map_of_mem (f := Prod.fst) he
    rw [show (stampsFrom x 1 (found.take p)).map Prod.fst = _ from stampsFrom_ids x 1 _] at this
    exact ((List.take_sublist p found).map _).subset this
  rcases ended with ⟨rfl, run, later', redriven⟩ | ⟨less, rejected, ⟨e, run⟩, redriven⟩
  · rw [List.take_length] at stamps listed
    refine ⟨_, z, run, stampsFrom x 1 found, redriven, listed, stamps, fun _ => ⟨?_, ?_⟩,
      fun h => absurd rfl h⟩
    · rw [job, Nat.add_comm]
      exact later'
    · rw [job]
      exact clear_succ unrejected clear
  · refine ⟨_, z, run, stampsFrom x 1 (found.take p), redriven, listed, stamps,
      fun h => (nomatch h), fun _ => ?_⟩
    exact .inr ⟨1 + p, by omega, rejected⟩

end Pool

/-- The calls after the resets only read: there are `k` of them, and only a rejection
ends them early. -/
def Rereads {α : Type} (env : Env) (pid k : Nat) (ready : Db → Prop) (Q : α → Prop)
    (rest : Async α) : Prop :=
  ∀ y : Solo, ready y.state.db → ∃ out z, rest.run (serve env pid anyCall) y = (out, z) ∧
    z.state.db = y.state.db ∧ z.state.queues = y.state.queues ∧
    ((∃ v, out = .ok v ∧ Q v ∧ Later y z k ∧ ∀ j < k, ¬ Rejected y j) ∨
      ((∃ e, out = .error e) ∧ ∃ j < k, Rejected y j))

theorem rereads_none {α : Type} (env : Env) (pid : Nat) (ready : Db → Prop) {Q : α → Prop} {v : α}
    (h : Q v) : Rereads env pid 0 ready Q (.done (.ok v)) :=
  fun y _ => ⟨_, y, rfl, rfl, rfl,
    .inl ⟨v, rfl, h, Later.refl y, fun j hj => absurd hj (Nat.not_lt_zero j)⟩⟩

/-- The rows to reset are there for the manager. -/
def Ready (pid : Nat) (mgr : Manager) (found : List FileTransfer) (db : Db) : Prop :=
  ∀ t ∈ found, ∃ r ∈ db.rows pid mgr, r.id = t.id

/-- What follows the first read: resets and further reads, or an error when nothing
was found. -/
def Follows {α : Type} (env : Env) (pid : Nat) (mgr : Manager) (found : List FileTransfer) (k : Nat)
    (Q : α → Prop) (next : Async α) : Prop :=
  (found = [] ∧ ∃ e, next = Prog.throw e) ∨
    ∃ rest, next = (resets mgr found).bind (fun _ => rest) ∧
      Rereads env pid k (Ready pid mgr found) Q rest

section Pool
variable {env : Env} {pid : Nat} {x : Solo} {user : AuthUser} {found : List FileTransfer}

theorem pool_ready {s s' : State} {stamps : List (Nat × Nat)} {queued : List Nat}
    (h : Redriven s stamps queued s') (found_in : ∀ t ∈ found, t ∈ s.db.transfers) :
    Ready pid .pool found s'.db := by
  intro t ht
  have ids : t.id ∈ s'.db.transfers.map (·.id) := by
    rw [h.rows.columns _ kept_id]
    exact List.mem_map_of_mem (found_in t ht)
  exact List.mem_map.mp ids

/-- The resets of an administrator and the reads after them. -/
theorem pool_body {α : Type} {k : Nat} {Q : α → Prop} {rest : Async α} {y : Solo}
    (admin : Role.admin ∈ user.roles) (distinct : (found.map (·.id)).Nodup)
    (found_in : ∀ t ∈ found, t ∈ x.state.db.transfers) (later : Later x y 1)
    (idle : y.state.db.openTxs = []) (same : Redriven x.state [] [] y.state)
    (unrejected : ¬ Rejected x 0) (rereads : Rereads env pid k (Ready pid .pool found) Q rest) :
    ∃ out z, ((resets .pool found).bind fun _ => rest).run (serve env pid anyCall) y = (out, z) ∧
      FirstHalf x user found k (∃ v, out = .ok v) z ∧ ∀ v, out = .ok v → Q v := by
  have job : ∀ k, firstJob user found.length k = found.length + k + 1 := by simp [firstJob, admin]
  have last : ∀ i, Lasting x user found.length k i ↔ Lasting x user found.length 0 i := by
    simp [Lasting, admin]
  obtain ⟨out, z, loop, stamps, redriven, listed, each, returned, failed⟩ :=
    pool_resets env pid admin distinct later idle same unrejected
  have each' : ∀ i t, found[i]? = some t → ∀ now, (t.id, now) ∈ stamps ↔
      Lasting x user found.length k i ∧ now = stampTime x user i := by
    intro i t ht now
    rw [last]
    exact each i t ht now
  cases out with
  | error e =>
    refine ⟨.error e, z, run_bind_error loop, ⟨stamps, redriven, listed, each', ?_, ?_⟩,
      fun v hv => (nomatch hv)⟩
    · exact fun ⟨v, hv⟩ => (nomatch hv)
    · intro _
      refine (failed fun h => nomatch h).imp_right fun ⟨j, hj, hr⟩ => ⟨j, ?_, hr⟩
      rw [job] at hj ⊢
      omega
  | ok _ =>
    obtain ⟨later', clear⟩ := returned rfl
    rw [job, Nat.add_zero] at later' clear
    obtain ⟨out, z', run', db', queues', ended⟩ := rereads z (pool_ready redriven found_in)
    refine ⟨out, z', (run_bind_ok loop).trans run',
      ⟨stamps, redriven.congr db' queues', listed, each', ?_, ?_⟩, ?_⟩
    · rintro ⟨v, rfl⟩
      obtain ⟨_, _, _, later'', clear'⟩ | ⟨⟨_, h⟩, _⟩ := ended
      · constructor
        · rw [job, show found.length + k + 1 = found.length + 1 + k by omega]
          exact later'.trans later''
        · intro j hj
          rw [job] at hj
          by_cases early : j < found.length + 1
          · exact clear j early
          · have := clear' (j - (found.length + 1)) (by omega)
            rw [later'.rejected] at this
            rwa [show j - (found.length + 1) + (found.length + 1) = j by omega] at this
      · cases h
    · intro stopped
      obtain ⟨v, hv, -⟩ | ⟨-, j, hj, rejected'⟩ := ended
      · exact absurd ⟨v, hv⟩ stopped
      · refine .inr ⟨j + (found.length + 1), ?_, (later'.rejected j).mp rejected'⟩
        rw [job]
        omega
    · rintro v rfl
      obtain ⟨_, hv, hq, -⟩ | ⟨⟨_, h⟩, _⟩ := ended
      · cases hv
        exact hq
      · cases h

/-- An administrator's operation up to the first job. -/
theorem pool_half {α : Type} {k : Nat} {Q : α → Prop} {op : DbOp} {a : op.Ans}
    {f : op.Ans → Async α} (admin : Role.admin ∈ user.roles) (idle : x.state.db.openTxs = [])
    (reads : ∀ now, x.state.db.exec now pid op = some (.ok a, x.state.db))
    (may : (Op.db op).mayFail = true) (distinct : (found.map (·.id)).Nodup)
    (found_in : ∀ t ∈ found, t ∈ x.state.db.transfers)
    (next : Follows env pid .pool found k Q (f a)) :
    ∃ out z, ((db op).bind f).run (serve env pid anyCall) x = (out, z) ∧
      FirstHalf x user found k (∃ v, out = .ok v) z ∧ ∀ v, out = .ok v → Q v := by
  by_cases rejected : Rejected x 0
  · obtain ⟨e, z, run, db, queues⟩ := call_rejected env pid (.db op) may rejected
    refine ⟨_, z, run_bind_error run, ?_, fun v hv => (nomatch hv)⟩
    refine firstHalf_none ((redriven_none _).congr db queues) ?_ (.inr ⟨0, ?_, rejected⟩) ?_
    · rintro ⟨v, hv⟩
      cases hv
    · simp [firstJob, admin]
    · intro i _ lasting
      simp only [Lasting, admin, if_true] at lasting
      exact lasting 0 (Nat.zero_le _) rejected
  · obtain ⟨y, run, later, db, queues⟩ := read_answered env pid reads rejected
    have same : Redriven x.state [] [] y.state := (redriven_none _).congr db queues
    rcases next with ⟨none, e, throws⟩ | ⟨rest, goes, rereads⟩
    · refine ⟨.error e, y, (run_bind_ok run).trans (by rw [throws]; rfl), ?_,
        fun v hv => (nomatch hv)⟩
      refine firstHalf_none same (fun ⟨v, hv⟩ => (nomatch hv)) (.inl none) ?_
      intro i hi
      rw [none] at hi
      exact absurd hi (Nat.not_lt_zero i)
    · rw [run_bind_ok run, goes]
      exact pool_body admin distinct found_in later (db ▸ idle) same rejected rereads

end Pool

/-! ## The transaction of a tenant user -/

/-- The open transaction after these resets. -/
def openTx (x : Solo) (tenant : Option String) (pre : List FileTransfer) : Tx :=
  ⟨clockAt x 0, tenant, pre.map fun t => .reset t.id⟩

/-- Inside the transaction nothing has taken effect yet. -/
structure InTx (x : Solo) (pid : Nat) (tenant : Option String) (pre : List FileTransfer) (c : Nat)
    (y : Solo) : Prop where
  later : Later x y c
  transfers : y.state.db.transfers = x.state.db.transfers
  queues : y.state.queues = x.state.queues
  openTxs : y.state.db.openTxs = [(pid, openTx x tenant pre)]

section Transactions
variable {env : Env} {pid c : Nat} {x y : Solo} {user : AuthUser} {found pre : List FileTransfer}
variable {tenant : Option String}

theorem InTx.tx (h : InTx x pid tenant pre c y) :
    y.state.db.tx pid = some (openTx x tenant pre) := by
  simp [Db.tx, h.openTxs]

/-- The rows as the transaction will leave them. -/
theorem stamped_applyWrites (x : Solo) (tenant : Option String) (db : Db)
    (distinct : (db.transfers.map (·.id)).Nodup) (pre : List FileTransfer)
    (ids : (pre.map (·.id)).Nodup)
    (seen : ∀ t ∈ pre, t ∈ db.transfers ∧ tenantIsolation tenant t = true) :
    Stamped db.transfers (pre.map fun t => (t.id, clockAt x 0))
      (db.applyWrites (openTx x tenant pre)).transfers := by
  induction pre using List.reverseRecOn with
  | nil => exact stamped_none _
  | append_singleton pre t ih =>
    have before : (pre.map (·.id)).Nodup ∧ t.id ∉ pre.map (·.id) := by
      rw [List.map_append, List.nodup_append_comm] at ids
      exact (List.nodup_cons.mp ids).symm
    have last := ih before.1 fun r hr => seen r (List.mem_append_left _ hr)
    have writes : (db.applyWrites (openTx x tenant (pre ++ [t]))).transfers =
        patchRow tenant (clockAt x 0) t.id .resetForRetry
          (db.applyWrites (openTx x tenant pre)).transfers := by
      simp only [Db.applyWrites, openTx, List.map_append, List.foldl_append]
      rfl
    rw [writes, List.map_append]
    refine last.snoc tenant (clockAt x 0) (by simpa using before.2) fun r hr hid => ?_
    obtain ⟨mem, visible⟩ := seen t (by simp)
    rwa [List.inj_on_of_nodup_map distinct hr mem hid]

theorem InTx.stamped (h : InTx x pid tenant pre c y)
    (distinct : (x.state.db.transfers.map (·.id)).Nodup) (ids : (pre.map (·.id)).Nodup)
    (seen : ∀ t ∈ pre, t ∈ x.state.db.transfers ∧ tenantIsolation tenant t = true) :
    Stamped x.state.db.transfers (pre.map fun t => (t.id, clockAt x 0))
      (y.state.db.applyWrites (openTx x tenant pre)).transfers := by
  have := stamped_applyWrites x tenant y.state.db (h.transfers ▸ distinct) pre ids
      (h.transfers ▸ seen)
  rwa [h.transfers] at this

/-- A visible row stays visible for the transaction that resets it. -/
theorem InTx.sees (h : InTx x pid tenant pre c y)
    (distinct : (x.state.db.transfers.map (·.id)).Nodup) (ids : (pre.map (·.id)).Nodup)
    (seen : ∀ t ∈ pre, t ∈ x.state.db.transfers ∧ tenantIsolation tenant t = true)
    {t : FileTransfer} (ht : t ∈ x.state.db.transfers) (visible : tenantIsolation tenant t = true) :
    ∃ r ∈ y.state.db.rows pid .tx, r.id = t.id := by
  have stamped := h.stamped distinct ids seen
  have isolated : ∀ r : FileTransfer, r.tenantId = t.tenantId →
      tenantIsolation tenant r = true := by
    intro r hr
    unfold tenantIsolation at visible ⊢
    rw [hr]
    exact visible
  simp only [Db.rows, h.tx]
  by_cases reset : t.id ∈ pre.map (·.id)
  · obtain ⟨r, hr, hid⟩ := List.mem_map.mp reset
    have mem := stamped.reset t ht (clockAt x 0) (List.mem_map.mpr ⟨r, hr, by rw [hid]⟩)
    exact ⟨_, List.mem_filter.mpr ⟨mem, isolated _ (by simp)⟩, by simp⟩
  · have mem := stamped.kept t ht (by simpa using reset)
    exact ⟨t, List.mem_filter.mpr ⟨mem, visible⟩, rfl⟩

/-- A statement that only reads leaves the transaction as it is. -/
theorem InTx.read (h : InTx x pid tenant pre c y) {z : Solo} {d : Nat} (later : Later y z d)
    (db : z.state.db = y.state.db) (queues : z.state.queues = y.state.queues) :
    InTx x pid tenant pre (c + d) z :=
  ⟨h.later.trans later, db ▸ h.transfers, queues.trans h.queues, db ▸ h.openTxs⟩

/-- A write of the transaction is kept with it. -/
theorem InTx.write (h : InTx x pid tenant pre c y) {op : DbOp} {a : op.Ans}
    {tenant' : Option String}
    {pre' : List FileTransfer} (unrejected : ¬ Rejected y 0)
    (writes : ∀ now, y.state.db.exec now pid op =
      some (.ok a, y.state.db.setTx pid (openTx x tenant' pre'))) :
    ∃ z, (db op).run (serve env pid anyCall) y = (.ok a, z) ∧
    InTx x pid tenant' pre' (c + 1) z := by
  let s := (y.turns 0).before y.state
  have done : perform env pid (y.turns 0).choice s (.db op) =
      some (.ok a, { s with db := y.state.db.setTx pid (openTx x tenant' pre') }) := by
    simp only [perform]
    rw [show s.db = y.state.db from rfl, writes]
  refine ⟨_, run_call (serve_answered unrejected done), h.later.trans (next_call rfl), h.transfers,
    h.queues, ?_⟩
  simp [Db.setTx, h.openTxs]

/-- One reset inside the transaction. -/
theorem InTx.reset (h : InTx x pid tenant pre c y) (unrejected : ¬ Rejected y 0)
    (distinct : (x.state.db.transfers.map (·.id)).Nodup) (ids : (pre.map (·.id)).Nodup)
    (seen : ∀ t ∈ pre, t ∈ x.state.db.transfers ∧ tenantIsolation tenant t = true)
    {t : FileTransfer} (ht : t ∈ x.state.db.transfers) (visible : tenantIsolation tenant t = true) :
    ∃ z, (db (.resetForRetry .tx t.id)).run (serve env pid anyCall) y = (.ok (), z) ∧
      InTx x pid tenant (pre ++ [t]) (c + 1) z := by
  refine h.write unrejected fun now => ?_
  have found : ((y.state.db.rows pid .tx).any fun r => r.id = t.id) = true := by
    obtain ⟨r, hr, hid⟩ := h.sees distinct ids seen ht visible
    exact List.any_eq_true.mpr ⟨r, hr, by simpa using hid⟩
  have free : y.state.db.locked (· ≠ pid) t.id = false := by
    simp [Db.locked, h.openTxs]
  simp only [Db.exec, h.tx, found, if_true, free]
  simp [openTx]

theorem rollback_served (env : Env) (pid : Nat) (y : Solo) :
    ∃ z, (db .rollback).run (serve env pid anyCall) y = (.ok (), z) ∧
      z.state.db.transfers = y.state.db.transfers ∧ z.state.queues = y.state.queues := by
  let s := (y.turns 0).before y.state
  have done : exec env pid (.db .rollback) ((y.turns 0).choiceFor anyCall (.db .rollback)) s =
      some (.ok (), { s with db := s.db.dropTx pid }) := by
    unfold exec
    split
    · rfl
    · rfl
  exact ⟨_, run_call (serve_eq done), rfl, rfl⟩

theorem commit_served (h : InTx x pid tenant pre c y) (unrejected : ¬ Rejected y 0) :
    ∃ z, (db .commit).run (serve env pid anyCall) y = (.ok (), z) ∧ Later x z (c + 1) ∧
      z.state.db.transfers = (y.state.db.applyWrites (openTx x tenant pre)).transfers ∧
      z.state.queues = x.state.queues := by
  let s := (y.turns 0).before y.state
  have done : perform env pid (y.turns 0).choice s (.db .commit) =
      some
        (.ok (), { s with db := (y.state.db.applyWrites (openTx x tenant pre)).dropTx pid }) := by
    simp only [perform, Db.exec]
    rw [show s.db = y.state.db from rfl, h.tx]
  exact ⟨_, run_call (serve_answered unrejected done), h.later.trans (next_call rfl), rfl, h.queues⟩

end Transactions

/-- No call with a smaller number is rejected. -/
def Clear (x : Solo) (c : Nat) : Prop := ∀ j < c, ¬ Rejected x j

theorem Clear.next {x y : Solo} {c : Nat} (h : Clear x c) (later : Later x y c)
    (unrejected : ¬ Rejected y 0) : Clear x (c + 1) := by
  intro j hj
  by_cases here : j = c
  · rw [later.rejected, Nat.zero_add] at unrejected
    rwa [here]
  · exact h j (by omega)

/-- Part of a transaction: it returns, or it throws with nothing changed, because a
call before number `n` was rejected or nothing was found. -/
def Stops {α : Type} (env : Env) (pid : Nat) (x : Solo) (found : List FileTransfer) (n : Nat)
    (G : α → Solo → Prop) (p : Async α) (y : Solo) : Prop :=
  ∃ out z, p.run (serve env pid anyCall) y = (out, z) ∧
    ((∃ v, out = .ok v ∧ G v z) ∨ ((∃ e, out = .error e) ∧
      z.state.db.transfers = x.state.db.transfers ∧ z.state.queues = x.state.queues ∧
      (found = [] ∨ ∃ j < n, Rejected x j)))

section Parts
variable {env : Env} {pid c n : Nat} {x y : Solo} {user : AuthUser} {found pre : List FileTransfer}
variable {tenant : Option String} {α β : Type} {G : α → Solo → Prop} {G' : β → Solo → Prop}

theorem stops_bind {p : Async α} {f : α → Async β} (h : Stops env pid x found n G p y)
    (next : ∀ v z, G v z → Stops env pid x found n G' (f v) z) :
    Stops env pid x found n G' (p.bind f) y := by
  obtain ⟨out, z, run, ⟨v, rfl, good⟩ | ⟨⟨e, rfl⟩, same⟩⟩ := h
  · obtain ⟨out', z', run', ended⟩ := next v z good
    exact ⟨out', z', (run_bind_ok run).trans run', ended⟩
  · exact ⟨_, z, run_bind_error run, .inr ⟨⟨e, rfl⟩, same⟩⟩

/-- One statement of the transaction. -/
theorem stops_call (op : DbOp) {G : op.Ans → Solo → Prop} (h : InTx x pid tenant pre c y)
    (early : c < n) (may : (Op.db op).mayFail = true)
    (answered : ¬ Rejected y 0 →
      ∃ a z, (db op).run (serve env pid anyCall) y = (.ok a, z) ∧ G a z) :
    Stops env pid x found n G (db op) y := by
  by_cases rejected : Rejected y 0
  · obtain ⟨e, z, run, db, queues⟩ := call_rejected env pid (.db op) may rejected
    refine ⟨_, z, run, .inr ⟨⟨e, rfl⟩, db ▸ h.transfers, queues.trans h.queues,
      .inr ⟨c, early, ?_⟩⟩⟩
    rwa [h.later.rejected, Nat.zero_add] at rejected
  · obtain ⟨a, z, run, good⟩ := answered rejected
    exact ⟨_, z, run, .inl ⟨a, rfl, good⟩⟩

/-- The transaction with these resets, and no call rejected so far. -/
def Working (x : Solo) (pid : Nat) (tenant : Option String) (pre : List FileTransfer) (c : Nat)
    (y : Solo) : Prop :=
  InTx x pid tenant pre c y ∧ Clear x c

/-- The resets of the transaction. -/
theorem tx_resets (distinct : (x.state.db.transfers.map (·.id)).Nodup)
    (ids : (found.map (·.id)).Nodup)
    (seen : ∀ t ∈ found, t ∈ x.state.db.transfers ∧ tenantIsolation tenant t = true)
    (rest : List FileTransfer) (split : found = pre ++ rest) (room : found.length + 3 ≤ n)
    (h : Working x pid tenant pre (3 + pre.length) y) :
    Stops env pid x found n (fun _ z => Working x pid tenant found (3 + found.length) z)
      (resets .tx rest) y := by
  induction rest generalizing pre y with
  | nil =>
    rw [List.append_nil] at split
    exact ⟨.ok (), y, rfl, .inl ⟨(), rfl, split ▸ h⟩⟩
  | cons t rest ih =>
    have mem : t ∈ found := by simp [split]
    have before : pre.Sublist found := split ▸ List.sublist_append_left _ _
    have length : found.length = pre.length + (rest.length + 1) := by simp [split]
    refine stops_bind (G := fun _ z =>
      Working x pid tenant (pre ++ [t]) (3 + (pre ++ [t]).length) z) ?_ ?_
    · refine stops_call (.resetForRetry .tx t.id) h.1 (by omega) rfl fun unrejected => ?_
      obtain ⟨z, run, inTx⟩ := h.1.reset unrejected distinct (ids.sublist (before.map _))
        (fun r hr => seen r (before.subset hr)) (seen t mem).1 (seen t mem).2
      refine ⟨(), z, run, ?_⟩
      rw [List.length_append]
      exact ⟨inTx, h.2.next h.1.later unrejected⟩
    · intro _ z working
      exact ih (by simp [split]) working

end Parts

section Guest
variable {env : Env} {pid : Nat} {x y : Solo} {user : AuthUser} {found : List FileTransfer}
variable {α : Type} {k : Nat} {Q : α → Prop} {op : DbOp} {a : op.Ans} {f : op.Ans → Async α}

/-- The operation has been committed. -/
structure Committed (x : Solo) (found : List FileTransfer) (c : Nat) (z : Solo) : Prop where
  later : Later x z c
  clear : Clear x c
  rows : Stamped x.state.db.transfers (found.map fun t => (t.id, clockAt x 0)) z.state.db.transfers
  queues : z.state.queues = x.state.queues

/-- What `tx_half` assumes of the rows found: they are the user's own. -/
structure Seen (x : Solo) (user : AuthUser) (found : List FileTransfer) : Prop where
  distinct : (x.state.db.transfers.map (·.id)).Nodup
  ids : (found.map (·.id)).Nodup
  seen : ∀ t ∈ found, t ∈ x.state.db.transfers ∧ tenantIsolation (some user.tenantId) t = true

/-- The resets and the reads after them, inside the transaction. -/
theorem tx_body {rest : Async α} (h : Seen x user found)
    (working : Working x pid (some user.tenantId) [] 3 y)
    (rereads : Rereads env pid k (Ready pid .tx found) Q rest) :
    Stops env pid x found (found.length + k + 4)
      (fun v z => Q v ∧ Working x pid (some user.tenantId) found (found.length + k + 3) z)
      ((resets .tx found).bind fun _ => rest) y := by
  refine stops_bind (tx_resets h.distinct h.ids h.seen found rfl (by omega) working) ?_
  intro _ z working
  have ready : Ready pid .tx found z.state.db := fun t ht =>
    working.1.sees h.distinct h.ids h.seen (h.seen t ht).1 (h.seen t ht).2
  obtain ⟨out, z', run, db, queues, ended⟩ := rereads z ready
  refine ⟨out, z', run, ?_⟩
  rcases ended with ⟨v, hv, hq, later, clear⟩ | ⟨thrown, j, hj, rejected⟩
  · have length : found.length + k + 3 = 3 + found.length + k := by omega
    refine .inl ⟨v, hv, hq, length ▸ working.1.read later db queues, fun j hj => ?_⟩
    by_cases early : j < 3 + found.length
    · exact working.2 j early
    · have := clear (j - (3 + found.length)) (by omega)
      rw [working.1.later.rejected] at this
      rwa [show j - (3 + found.length) + (3 + found.length) = j by omega] at this
  · refine .inr ⟨thrown, db ▸ working.1.transfers, queues.trans working.1.queues, .inr ⟨_, ?_,
      (working.1.later.rejected j).mp rejected⟩⟩
    omega

/-- The transaction after `begin`, up to and with its commit. -/
theorem tx_inner (h : Seen x user found) (may : (Op.db op).mayFail = true)
    (reads : ∀ (now : Nat) (db : Db), db.transfers = x.state.db.transfers →
      db.openTxs = [(pid, openTx x (some user.tenantId) [])] →
      db.exec now pid op = some (.ok a, db))
    (next : Follows env pid .tx found k Q (f a)) (working : Working x pid none [] 1 y) :
    Stops env pid x found (found.length + k + 4)
      (fun v z => Q v ∧ Committed x found (found.length + k + 4) z)
      (((db (.setCurrentTenant user.tenantId)).bind fun _ => (db op).bind f).bind fun v =>
        (db .commit).bind fun _ => .done (.ok v)) y := by
  refine stops_bind (G := fun v z =>
    Q v ∧ Working x pid (some user.tenantId) found (found.length + k + 3) z) ?_ ?_
  · refine stops_bind (G := fun _ z => Working x pid (some user.tenantId) [] 2 z) ?_ ?_
    · refine stops_call (.setCurrentTenant user.tenantId) working.1 (by omega) rfl
        fun unrejected => ?_
      have writes : ∀ now, y.state.db.exec now pid (.setCurrentTenant user.tenantId) =
          some (.ok (), y.state.db.setTx pid (openTx x (some user.tenantId) [])) := by
        intro now
        simp only [Db.exec, working.1.tx]
        rfl
      obtain ⟨z, run, inTx⟩ := working.1.write unrejected writes
      exact ⟨(), z, run, inTx, working.2.next working.1.later unrejected⟩
    · intro _ y working
      refine stops_bind (G := fun v z => v = a ∧ Working x pid (some user.tenantId) [] 3 z) ?_ ?_
      · refine stops_call op working.1 (by omega) may fun unrejected => ?_
        obtain ⟨z, run, later, db, queues⟩ := read_answered env pid
          (fun now => reads now _ working.1.transfers working.1.openTxs) unrejected
        exact ⟨a, z, run, rfl, working.1.read later db queues,
          working.2.next working.1.later unrejected⟩
      · rintro _ y ⟨rfl, working⟩
        rcases next with ⟨none, e, throws⟩ | ⟨rest, goes, rereads⟩
        · exact ⟨.error e, y, by rw [throws]; rfl,
            .inr ⟨⟨e, rfl⟩, working.1.transfers, working.1.queues, .inl none⟩⟩
        · rw [goes]
          exact tx_body h working rereads
  · rintro v y ⟨hq, working⟩
    refine stops_bind (G := fun _ z => Committed x found (found.length + k + 4) z) ?_ ?_
    · refine stops_call .commit working.1 (by omega) rfl fun unrejected => ?_
      obtain ⟨z, run, later, rows, queues⟩ := commit_served working.1 unrejected
      exact ⟨(), z, run, later, working.2.next working.1.later unrejected,
        rows ▸ working.1.stamped h.distinct h.ids h.seen, queues⟩
    · intro _ z committed
      exact ⟨.ok v, z, rfl, .inl ⟨v, rfl, hq, committed⟩⟩

theorem begin_served (env : Env) (pid : Nat) (idle : x.state.db.openTxs = [])
    (unrejected : ¬ Rejected x 0) :
    ∃ z, (db .begin).run (serve env pid anyCall) x = (.ok (), z) ∧ Working x pid none [] 1 z := by
  let s := (x.turns 0).before x.state
  have done : perform env pid (x.turns 0).choice s (.db .begin) =
      some (.ok (), { s with db := s.db.setTx pid ⟨s.host.now, none, []⟩ }) := rfl
  refine ⟨_, run_call (serve_answered unrejected done), ⟨next_call rfl, rfl, rfl, ?_⟩, ?_⟩
  · change (pid, _) :: List.filter _ x.state.db.openTxs = _
    rw [idle, openTx, clockAt_zero]
    rfl
  · intro j hj
    rwa [show j = 0 by omega]

/-- A tenant user's operation up to the first job. -/
theorem tx_half (guest : Role.admin ∉ user.roles) (idle : x.state.db.openTxs = [])
    (h : Seen x user found) (may : (Op.db op).mayFail = true)
    (reads : ∀ (now : Nat) (db : Db), db.transfers = x.state.db.transfers →
      db.openTxs = [(pid, openTx x (some user.tenantId) [])] →
      db.exec now pid op = some (.ok a, db))
    (next : Follows env pid .tx found k Q (f a)) :
    ∃ out z, (transaction ((db (.setCurrentTenant user.tenantId)).bind fun _ => (db op).bind f)).run
        (serve env pid anyCall) x = (out, z) ∧
      FirstHalf x user found k (∃ v, out = .ok v) z ∧ ∀ v, out = .ok v → Q v := by
  have job : firstJob user found.length k = found.length + k + 4 := by simp [firstJob, guest]
  have last : ∀ i, Lasting x user found.length k i ↔ Clear x (found.length + k + 4) := by
    intro i
    simp only [Lasting, guest, if_false, Clear, Nat.lt_succ_iff]
  -- a rejection before the jobs undoes everything
  have undone : ∀ {z : Solo} {e : Err}, z.state.db.transfers = x.state.db.transfers →
      z.state.queues = x.state.queues → (found = [] ∨ ∃ j < found.length + k + 4, Rejected x j) →
      FirstHalf x user found k (∃ v, (.error e : Except Err α) = .ok v) z := by
    intro z e transfers queues why
    refine firstHalf_none ⟨transfers ▸ stamped_none _, [], by simp [queues], rfl⟩ ?_ (job ▸ why) ?_
    · exact fun ⟨v, hv⟩ => (nomatch hv)
    · intro i hi lasting
      rcases why with none | ⟨j, hj, rejected⟩
      · rw [none] at hi
        exact absurd hi (Nat.not_lt_zero i)
      · exact (last i).mp lasting j hj rejected
  by_cases rejected : Rejected x 0
  · obtain ⟨e, z, run, db, queues⟩ := call_rejected env pid (.db .begin) rfl rejected
    refine ⟨.error e, z, run_bind_error run, ?_, fun v hv => (nomatch hv)⟩
    exact undone (by rw [db]) queues (.inr ⟨0, by omega, rejected⟩)
  · obtain ⟨y, begun, working⟩ := begin_served env pid idle rejected
    obtain ⟨out, z, run, ⟨v, rfl, hq, committed⟩ | ⟨⟨e, rfl⟩, transfers, queues, why⟩⟩ :=
      tx_inner h may reads next working
    · refine ⟨.ok v, z, (run_bind_ok begun).trans (run_tryCatch_ok run),
        ⟨found.map fun t => (t.id, clockAt x 0), ⟨committed.rows, [], ?_, rfl⟩, ?_, ?_, ?_, ?_⟩, ?_⟩
      · rw [committed.queues, List.append_nil]
      · intro e he
        obtain ⟨t, ht, rfl⟩ := List.mem_map.mp he
        exact List.mem_map_of_mem ht
      · intro i t ht now
        have time : stampTime x user i = clockAt x 0 := by simp [stampTime, guest]
        rw [time, last]
        constructor
        · intro mem
          obtain ⟨_, _, heq⟩ := List.mem_map.mp mem
          exact ⟨committed.clear, (Prod.mk.inj heq).2.symm⟩
        · rintro ⟨-, rfl⟩
          exact List.mem_map.mpr ⟨t, List.mem_of_getElem? ht, rfl⟩
      · intro _
        rw [job]
        exact ⟨committed.later, committed.clear⟩
      · exact fun stopped => absurd ⟨v, rfl⟩ stopped
      · rintro _ ⟨⟩
        exact hq
    · obtain ⟨z', rolled, transfers', queues'⟩ := rollback_served env pid z
      refine ⟨.error e, z', ?_, undone (transfers'.trans transfers) (queues'.trans queues) why,
        fun v hv => (nomatch hv)⟩
      rw [transaction, Prog.bind_eq, run_bind_ok begun]
      exact (run_tryCatch_error run).trans (run_bind_ok rolled)

end Guest

/-! ## Both callers -/

section Callers
variable {env : Env} {pid : Nat} {x : Solo} {user : AuthUser} {found : List FileTransfer}

theorem visible_sublist (user : AuthUser) (rows : List FileTransfer) :
    (visible user rows).Sublist rows := by
  unfold visible
  split
  · exact List.Sublist.refl _
  · exact List.filter_sublist

theorem matching_visible {q : Redrive} {rows : List FileTransfer} {t : FileTransfer}
    (ht : t ∈ q.matching user rows) : t ∈ visible user rows := by
  cases q with
  | one id =>
    simp only [Redrive.matching] at ht
    split at ht
    · cases ht
    · rename_i found hfound
      split at ht
      · cases ht
      · obtain rfl := List.mem_singleton.mp ht
        exact List.mem_of_find?_eq_some hfound
  | batch dto =>
    simp only [Redrive.matching] at ht
    split at ht
    · cases ht
    · have mem := (List.perm_insertionSort _ _).subset (List.mem_of_mem_take ht)
      exact (List.mem_filter.mp mem).1

theorem matching_ids (user : AuthUser) (q : Redrive) {rows : List FileTransfer}
    (distinct : (rows.map (·.id)).Nodup) : ((q.matching user rows).map (·.id)).Nodup := by
  cases q with
  | one id =>
    simp only [Redrive.matching]
    split
    · exact List.nodup_nil
    · split
      · exact List.nodup_nil
      · exact List.nodup_singleton _
  | batch dto =>
    simp only [Redrive.matching]
    split
    · exact List.nodup_nil
    · refine List.Nodup.sublist ((List.take_sublist _ _).map _) ?_
      refine ((List.perm_insertionSort _ _).map _).nodup_iff.mpr ?_
      exact (distinct.sublist ((visible_sublist user rows).map (·.id))).sublist
        (List.filter_sublist.map _)

/-- An operation that reads, resets and reads again, in the caller's scope. -/
theorem scoped_half {α : Type} {k : Nat} {Q : α → Prop} {q : Manager → DbOp}
    {a : ∀ mgr, (q mgr).Ans}
    {f : ∀ mgr, (q mgr).Ans → Async α} (consistent : Consistent x.state.db)
    (idle : x.state.db.openTxs = []) (ids : (found.map (·.id)).Nodup)
    (seen : ∀ t ∈ found, t ∈ visible user x.state.db.transfers)
    (may : ∀ mgr, (Op.db (q mgr)).mayFail = true)
    (reads : ∀ (mgr : Manager) (now : Nat) (db : Db),
      db.rows pid mgr = visible user x.state.db.transfers →
      db.exec now pid (q mgr) = some (.ok (a mgr), db))
    (next : ∀ mgr, Follows env pid mgr found k Q (f mgr (a mgr))) :
    ∃ out z, (scopedTo user fun mgr => (db (q mgr)).bind (f mgr)).run
      (serve env pid anyCall) x = (out, z) ∧
      FirstHalf x user found k (∃ v, out = .ok v) z ∧ ∀ v, out = .ok v → Q v := by
  by_cases admin : Role.admin ∈ user.roles
  · rw [scopedTo, if_pos admin]
    refine pool_half admin idle (fun now => reads .pool now _ ?_) (may .pool) ids
      (fun t ht => (visible_sublist user _).subset (seen t ht)) (next .pool)
    simp [Db.rows, visible, admin]
  · rw [scopedTo, if_neg admin]
    simp only [visible, admin, if_false] at seen reads
    refine tx_half admin idle ⟨distinct_rows consistent, ids,
      fun t ht => List.mem_filter.mp (seen t ht)⟩ (may .tx)
      (fun now db transfers openTxs => reads .tx now db ?_) (next .tx)
    simp [Db.rows, Db.tx, openTxs, openTx, Db.applyWrites, transfers]

/-- `resetOne` reads the row again after its reset. -/
def readAgain (mgr : Manager) (id : Nat) : Async FileTransfer :=
  (db (.findOne mgr id)).bind fun again => match again with
    | none => Prog.throw (.other "EntityNotFoundError" "FileTransfer")
    | some transfer => pure transfer

theorem rereads_one (mgr : Manager) {t : FileTransfer} {id : Nat} (hid : t.id = id) :
    Rereads env pid 1 (Ready pid mgr [t]) (fun _ : FileTransfer => [t].map (·.id) = [id])
      (readAgain mgr id) := by
  intro y ready
  obtain ⟨r, hr, hrid⟩ := ready t List.mem_cons_self
  obtain ⟨row, hrow⟩ : ∃ row, (y.state.db.rows pid mgr).find? (fun t => t.id = id) = some row := by
    refine Option.isSome_iff_exists.mp (List.find?_isSome.mpr ⟨r, hr, ?_⟩)
    simp [hrid, hid]
  by_cases rejected : Rejected y 0
  · obtain ⟨e, z, run, db, queues⟩ := call_rejected env pid (.db (.findOne mgr id)) rfl rejected
    exact ⟨_, z, run_bind_error run, db, queues, .inr ⟨⟨e, rfl⟩, 0, by omega, rejected⟩⟩
  · have reads : ∀ now, y.state.db.exec now pid (.findOne mgr id) =
        some (.ok (some row), y.state.db) := by
      intro now
      simp only [Db.exec, hrow]
    obtain ⟨z, run, later, db, queues⟩ := read_answered env pid reads rejected
    refine ⟨.ok row, z, run_bind_ok run, db, queues,
      .inl ⟨row, rfl, by simp [hid], later, fun j hj => ?_⟩⟩
    rwa [show j = 0 by omega]

theorem resets_singleton (mgr : Manager) (t : FileTransfer) {α : Type} (rest : Async α) :
    (resets mgr [t]).bind (fun _ => rest) = (db (.resetForRetry mgr t.id)).bind fun _ => rest := by
  refine congrArg (Prog.await _) (funext fun r => ?_)
  cases r <;> rfl

/-- `retry` up to its job. -/
theorem one_half (env : Env) (pid : Nat) (user : AuthUser) (consistent : Consistent x.state.db)
    (idle : x.state.db.openTxs = []) (id : Nat) :
    ∃ out z, (scopedTo user (resetOne id)).run (serve env pid anyCall) x = (out, z) ∧
      FirstHalf x user ((Redrive.one id).matching user x.state.db.transfers) 1
        (∃ v, out = .ok v) z ∧
      ∀ v, out = .ok v →
      ((Redrive.one id).matching user x.state.db.transfers).map (·.id) = [id] := by
  refine scoped_half (q := fun mgr => .findOne mgr id)
    (a := fun _ => (visible user x.state.db.transfers).find? fun t => t.id = id)
    (Q := fun _ => ((Redrive.one id).matching user x.state.db.transfers).map (·.id) = [id])
    consistent idle (matching_ids user _ (distinct_rows consistent))
    (fun _ => matching_visible) (fun _ => rfl) ?_ ?_
  · intro mgr now db rows
    simp only [Db.exec, rows]
  · intro mgr
    simp only [Redrive.matching]
    cases hfind : (visible user x.state.db.transfers).find? fun t => t.id = id with
    | none => exact .inl ⟨rfl, notFound id, rfl⟩
    | some t =>
      have hid : t.id = id := by simpa using List.find?_some hfind
      by_cases success : t.status = .success
      · refine .inl ⟨by simp [success],
          .conflict ("Transfer " ++ toString id ++ " already succeeded; nothing to retry"), ?_⟩
        simp only [success, if_true]
      · refine .inr ⟨readAgain mgr id, ?_, ?_⟩
        · simp only [success, if_false, resets_singleton]
          subst hid
          refine congrArg (Prog.bind _) (funext fun _ =>
            congrArg (Prog.bind _) (funext fun again => ?_))
          cases again <;> rfl
        · simp only [success, if_false]
          exact rereads_one mgr hid

/-- `retryBatch` up to its jobs. -/
theorem batch_half (env : Env) (pid : Nat) (user : AuthUser) (consistent : Consistent x.state.db)
    (idle : x.state.db.openTxs = []) (dto : RetryBatchDto)
    (open_ : dto.status.getD .failed ≠ .success) :
    ∃ out z, (scopedTo user (resetMatching (dto.status.getD .failed) dto.before dto.limit)).run
        (serve env pid anyCall) x = (out, z) ∧
      FirstHalf x user ((Redrive.batch dto).matching user x.state.db.transfers) 0
        (∃ v, out = .ok v) z ∧
      ∀ v, out = .ok v →
      v = ((Redrive.batch dto).matching user x.state.db.transfers).map (·.id) := by
  refine scoped_half
    (q := fun mgr => .findForRetry mgr (dto.status.getD .failed) dto.before dto.limit)
    (a := fun _ => (Redrive.batch dto).matching user x.state.db.transfers)
    consistent idle (matching_ids user _ (distinct_rows consistent))
    (fun _ => matching_visible) (fun _ => rfl) ?_ ?_
  · intro mgr now db rows
    rw [Redrive.matching, if_neg open_, ← rows]
    rfl
  · exact fun mgr => .inr ⟨_, rfl, rereads_none env pid _ rfl⟩

end Callers

/-! ## The jobs -/

section Jobs
variable {env : Env} {pid : Nat} {x : Solo} {user : AuthUser} {found : List FileTransfer} {k : Nat}

/-- A row keeps its reset but gets no job, unless its job was added or the reset
changes nothing. -/
def Whole (x : Solo) (user : AuthUser) (found : List FileTransfer) (k : Nat) : Prop :=
  ∀ i t, found[i]? = some t → ¬ Lasting x user found.length k i ∨
    Clear x (firstJob user found.length k + i + 1) ∨
    Patch.resetForRetry.apply (stampTime x user i) t = t

theorem enqueue_served (env : Env) (pid : Nat) {y : Solo} (unrejected : ¬ Rejected y 0) (id : Nat) :
    ∃ z, (enqueue env id).run (serve env pid anyCall) y = (.ok (), z) ∧ Later y z 1 ∧
      z.state.db = y.state.db ∧ ∃ job, z.state.queues.jobs = y.state.queues.jobs ++ [job] ∧
        job.data.transferId = id := by
  let s := (y.turns 0).before y.state
  let added : QueueOp := .addTransfer ⟨id, []⟩ (some env.config.transferMaxAttempts)
  have done : perform env pid (y.turns 0).choice s (.queue added) =
      some (.ok (), { s with queues := s.queues.exec added }) := rfl
  exact ⟨_, run_call (serve_answered unrejected done), next_call rfl, rfl, _, rfl, rfl⟩

/-- The loop of jobs: the first rejection leaves the rest without one. -/
theorem jobs_served (env : Env) (pid : Nat) {stamps : List (Nat × Nat)} {y : Solo} {c : Nat}
    (ids : List Nat) (distinct : ids.Nodup) (later : Later x y c)
    (redriven : Redriven x.state stamps [] y.state) :
    ∃ out z p, (Prog.forEach (enqueue env) ids).run (serve env pid anyCall) y = (out, z) ∧
      Redriven x.state stamps (ids.take p) z.state ∧
      ∀ i < ids.length, (i < p ↔ ∀ j ≤ i, ¬ Rejected x (c + j)) := by
  obtain ⟨p, z, hp, clear, ended⟩ := loop_served env pid (x := x) (c := c) (f := enqueue env)
    (R := fun pre y => Later x y (c + pre.length) ∧ Redriven x.state stamps pre y.state)
    (E := fun pre s => Redriven x.state stamps pre s) id (fun _ _ h => h.1)
    (by
      rintro pre t y ⟨later, redriven⟩ _ unrejected
      obtain ⟨z, run, next, db, job, jobs, hid⟩ := enqueue_served env pid unrejected t
      refine ⟨z, run, ?_, db ▸ redriven.rows, ?_⟩
      · rw [List.length_append, ← Nat.add_assoc]
        exact later.trans next
      · obtain ⟨new, old, hnew⟩ := redriven.jobs
        exact ⟨new ++ [job], by rw [jobs, old, List.append_assoc], by simp [hnew, hid]⟩)
    (by
      rintro pre t y ⟨-, redriven⟩ rejected
      obtain ⟨e, z, run, db, queues⟩ := call_rejected env pid
        (.queue (.addTransfer ⟨t, []⟩ (some env.config.transferMaxAttempts))) rfl rejected
      exact ⟨e, z, run, redriven.congr db queues⟩)
    ids [] (by simpa using distinct) ⟨later, redriven⟩
  have reached : ∀ i < ids.length, (i < p ↔ ∀ j ≤ i, ¬ Rejected x (c + j)) := by
    intro i hi
    refine reached_iff hp (by simpa using clear) (fun hlt => ?_) hi
    rcases ended with ⟨hall, -⟩ | ⟨-, rejected, -⟩
    · omega
    · simpa using rejected
  rcases ended with ⟨hall, run, -, redriven⟩ | ⟨-, -, ⟨e, run⟩, redriven⟩
  · refine ⟨_, z, p, run, ?_, reached⟩
    rw [hall, List.take_length]
    exact redriven
  · exact ⟨_, z, p, run, redriven, reached⟩

/-- What the resets and the jobs say together. -/
theorem outcome_iff {stamps : List (Nat × Nat)} {queued : List Nat} {s' : State}
    (distinct : (x.state.db.transfers.map (·.id)).Nodup)
    (redriven : Redriven x.state stamps queued s')
    (found_in : ∀ t ∈ found, t ∈ x.state.db.transfers)
    (listed : ∀ e ∈ stamps, e.1 ∈ found.map (·.id))
    (each : ∀ i t, found[i]? = some t → ∀ now, (t.id, now) ∈ stamps ↔
      Lasting x user found.length k i ∧ now = stampTime x user i)
    (jobs : ∀ i t, found[i]? = some t → Lasting x user found.length k i →
      (t.id ∈ queued ↔ Clear x (firstJob user found.length k + i + 1))) :
    AllOrQueued x.state s' ↔ Whole x user found k := by
  rw [allOrQueued_iff distinct redriven]
  constructor
  · intro h i t ht
    by_cases lasting : Lasting x user found.length k i
    · have stamp := (each i t ht _).mpr ⟨lasting, rfl⟩
      refine .inr ((h t (found_in t (List.mem_of_getElem? ht)) _ stamp).imp_left fun queued => ?_)
      exact (jobs i t ht lasting).mp queued
    · exact .inl lasting
  · intro h t ht now stamp
    obtain ⟨r, hr, hid⟩ := List.mem_map.mp (listed _ stamp)
    obtain rfl : r = t := List.inj_on_of_nodup_map distinct (found_in r hr) ht hid
    obtain ⟨i, hi⟩ := List.mem_iff_getElem?.mp hr
    obtain ⟨lasting, rfl⟩ := (each i r hi now).mp stamp
    rcases h i r hi with not | queued | same
    · exact absurd lasting not
    · exact .inl ((jobs i r hi lasting).mpr queued)
    · exact .inr same

/-- The whole operation: the first half, and after it the jobs of the rows found. -/
theorem redrive_outcome {α : Type} {β : Type} {p : Async α} {f : α → Async β}
    (consistent : Consistent x.state.db)
    (ids : (found.map (·.id)).Nodup) (found_in : ∀ t ∈ found, t ∈ x.state.db.transfers)
    {out : Except Err α} {z : Solo} (run : p.run (serve env pid anyCall) x = (out, z))
    (half : FirstHalf x user found k (∃ v, out = .ok v) z)
    (jobs : ∀ v, out = .ok v → ((f v).run (serve env pid anyCall) z).2 =
      ((Prog.forEach (enqueue env) (found.map (·.id))).run (serve env pid anyCall) z).2) :
    AllOrQueued x.state ((p.bind f).run (serve env pid anyCall) x).2.state ↔
    Whole x user found k := by
  obtain ⟨stamps, redriven, listed, each, returned, failed⟩ := half
  have distinct := distinct_rows consistent
  cases out with
  | error e =>
    rw [run_bind_error run]
    refine outcome_iff distinct redriven found_in listed each fun i t ht lasting => ?_
    constructor
    · exact fun h => nomatch h
    · intro clear
      rcases failed fun ⟨v, hv⟩ => (nomatch hv) with none | ⟨j, hj, rejected⟩
      · rw [none] at ht
        cases ht
      · exact absurd rejected (clear j (by omega))
  | ok v =>
    obtain ⟨later, clear⟩ := returned ⟨v, rfl⟩
    obtain ⟨_, z', n, loop, redriven', reached⟩ :=
      jobs_served env pid (found.map (·.id)) ids later redriven
    rw [run_bind_ok run, jobs v rfl, loop]
    refine outcome_iff distinct redriven' found_in listed each fun i t ht lasting => ?_
    have hi : i < found.length := (List.getElem?_eq_some_iff.mp ht).1
    have position : t.id ∈ (found.map (·.id)).take n ↔ i < n := by
      have at_i : (found.map (·.id))[i]? = some t.id := by rw [List.getElem?_map, ht]; rfl
      obtain ⟨bound, eq⟩ := List.getElem?_eq_some_iff.mp at_i
      rw [List.mem_take_iff_idxOf_lt (List.mem_of_getElem? at_i), ← eq, ids.idxOf_getElem i bound]
    rw [position, reached i (by simpa using hi)]
    constructor
    · intro h j hj
      by_cases early : j < firstJob user found.length k
      · exact clear j early
      · have := h (j - firstJob user found.length k) (by omega)
        rwa [show firstJob user found.length k + (j - firstJob user found.length k) =
          j by omega] at this
    · exact fun h j hj => h _ (by omega)

end Jobs

section Statement
variable {env : Env} {pid : Nat} {x : Solo} {user : AuthUser}

/-- The end of a program that only returns after its last part. -/
theorem run_returns {α β : Type} (p : Async α) (g : α → β) (y : Solo) :
    ((p.bind fun v => .done (.ok (g v))).run (serve env pid anyCall) y).2 =
      (p.run (serve env pid anyCall) y).2 := by
  obtain ⟨out, z, h⟩ : ∃ out z, p.run (serve env pid anyCall) y = (out, z) := ⟨_, _, rfl⟩
  cases out with
  | ok v => rw [run_bind_ok h, h]; rfl
  | error e => rw [run_bind_error h, h]

/-- A manual retry, with any of its calls rejected, leaves no row reset without a job
exactly when for each matching row the reset does not take effect, or no call up to the
row's `queue.add` is rejected, or the reset writes nothing new. -/
theorem manual_retry_iff (env : Env) (pid : Nat) (user : AuthUser) (x : Solo) (q : Redrive)
    (consistent : Consistent x.state.db) (idle : x.state.db.openTxs = []) :
    AllOrQueued x.state (runAlone env pid anyCall (q.code env user) x).2.state ↔
      Whole x user (q.matching user x.state.db.transfers) q.rereads := by
  have ids := matching_ids user q (distinct_rows consistent)
  have subset : ∀ t ∈ q.matching user x.state.db.transfers, t ∈ x.state.db.transfers :=
    fun t ht => (visible_sublist user _).subset (matching_visible ht)
  cases q with
  | one id =>
    obtain ⟨out, z, run, half, single⟩ := one_half env pid user consistent idle id
    rw [runAlone, Redrive.code, run_returns, retry, Prog.bind_eq]
    refine redrive_outcome consistent ids subset run half fun v hv => ?_
    rw [single v hv]
    exact (run_returns _ _ _).trans (run_returns _ _ _).symm
  | batch dto =>
    rw [runAlone, Redrive.code, run_returns, retryBatch]
    by_cases closed : dto.status.getD .failed = .success
    · simp only [if_pos closed, Redrive.matching]
      constructor
      · exact fun _ i t ht => (nomatch ht)
      · exact fun _ row hrow => .inr hrow
    · obtain ⟨out, z, run, half, value⟩ := batch_half env pid user consistent idle dto closed
      simp only [if_neg closed]
      refine redrive_outcome consistent ids subset run half fun v hv => ?_
      obtain rfl := value v hv
      exact run_returns _ _ _

end Statement

/-! ## A queue that is down -/

/-- The sample row after its attempts were used up. -/
def exhaustedRow : FileTransfer :=
  { sampleRow with status := .failed, attempts := 3, errorLog := some "Exhausted 3 attempts" }

def exhaustedState : State := { sampleState with db := ⟨[exhaustedRow], [], [], [], [], 1, [], []⟩ }

/-- One call is rejected, the one with this number. -/
def rejecting (n : Nat) : Solo :=
  ⟨exhaustedState, fun j =>
    if j = n then { choice := .rejected "Error" "Connection is closed." } else {}⟩

theorem exhausted_consistent : Consistent exhaustedState.db := by
  constructor <;> decide

/-- The row is reset and `queue.add` is rejected: it is PENDING and has no job. -/
theorem manual_retry_loses_row : ¬ AllOrQueued (rejecting 3).state
    (runAlone sampleEnv 0 anyCall ((Redrive.one 0).code sampleEnv sampleAdmin)
      (rejecting 3)).2.state := by
  intro all
  rcases all exhaustedRow List.mem_cons_self with ⟨job, mem, -⟩ | same
  · cases mem
  · have reset : exhaustedRow = Patch.resetForRetry.apply 1720000000000 exhaustedRow :=
      List.mem_singleton.mp same
    exact absurd (congrArg FileTransfer.status reset) (by decide)

/-- The row is found but its reset is rejected: nothing has changed. -/
theorem manual_retry_sample : AllOrQueued (rejecting 1).state
    (runAlone sampleEnv 0 anyCall ((Redrive.one 0).code sampleEnv sampleAdmin)
      (rejecting 1)).2.state := by
  refine (manual_retry_iff sampleEnv 0 sampleAdmin (rejecting 1) (.one 0)
    exhausted_consistent rfl).mpr ?_
  intro i t ht
  refine .inl fun lasting => ?_
  have admin : Role.admin ∈ sampleAdmin.roles := by decide
  rw [Lasting, if_pos admin] at lasting
  exact lasting 1 (by omega) (Option.some_ne_none _)

end ManualRetry
