import SyncBridge.OutboxSafety

/-!
# One relay

With one replica a relay pass is alone: the flag is set from the tick that enters to the
end of the pass, and ticks in between leave at once. The events of a pass were pending and
unqueued when it read them, and they stay so until it comes to them. An event is therefore
queued at most once, and it is published exactly when it was queued and its update has run.
Passes are cut short by rejected reads and adds; updates are not rejected here, and the
process does not stop.
-/

namespace SingleRelay

open AwaitPrograms ThreadPools Entities Database TableInvariants Calls Ingestion Worker Management
open Orchestrator Footprints OutboxSafety

/-! ## Runs of one replica -/

/-- What a relay has done: queued a payload, marked an event. -/
inductive Note where
  | added (payload : TransferJobData)
  | updated (id : Nat)
  deriving DecidableEq, Repr

/-- What an answered call of a relay is noted as. -/
def noteOf (op : Op) (fault : Option (String × String)) : List Note :=
  match op with
  | .queue (.addTransfer data _) => if fault.isNone then [.added data] else []
  | .db (.markPublished id) => if fault.isNone then [.updated id] else []
  | _ => []

def note (w : SysWorld) : SysAct → List Note
  | .resume pid c => match focus pid w.threads with
    | none => []
    | some (_, t, _) => match t.task, t.prog.head with
      | .relay _, some op => noteOf op c.fault
      | _, _ => []
  | _ => []

/-- The ticks are those of one replica, the process of a relay is not lost, and its updates
are not rejected. -/
def oneReplica (w : SysWorld) : SysAct → Bool
  | .request (.relayTick replica) => replica = 0
  | .crash pid => match focus pid w.threads with
    | some (_, ⟨_, .relay _, _⟩, _) => false
    | _ => true
  | .resume pid c => match focus pid w.threads with
    | none => true
    | some (_, t, _) => match t.prog.head with
      | some (.db (.markPublished _)) => c.fault.isNone
      | _ => true
  | _ => true

def OneReplica (w : SysWorld) (a : SysAct) : Prop := oneReplica w a = true

/-- The thread has entered a pass and has not left it. -/
def inPass (t : SysThread) : Bool :=
  match t.task, t.prog.head with
  | .relay _, some (.host (.enterRelay _)) => false
  | .relay _, some _ => true
  | _, _ => false

/-! ## A pass -/

/-- Where a relay stands: before it enters, before its read, before the events still to be
queued, before the update of a queued one, and after it has left. -/
inductive Phase where
  | idle
  | reading
  | sending (rest : List OutboxEvent)
  | marking (e : OutboxEvent) (rest : List OutboxEvent)
  | left
  deriving DecidableEq

def Phase.inside : Phase → Bool
  | .idle | .left => false
  | _ => true

def MayRelay (replica : Nat) : Phase → Op → Prop
  | .idle, op => op = .host (.enterRelay replica)
  | .reading, op => op = .db (.findPendingEvents relayBatch)
  | .sending [], op => op = .host (.leaveRelay replica)
  | .sending (e :: _), op => op = .queue (.addTransfer e.payload relayAttempts)
  | .marking e _, op => op = .db (.markPublished e.id)
  | .left, _ => False

/-- A rejected call abandons the batch. -/
def NextRelay : Phase → (op : Op) → Except Err op.Ans → Phase → Prop
  | .idle, .host (.enterRelay _), a, v => v = match a with
    | .ok true => .reading
    | _ => .left
  | .reading, .db (.findPendingEvents _), a, v => v = match a with
    | .ok events => .sending events
    | .error _ => .sending []
  | .sending (e :: rest), .queue _, a, v => v = match a with
    | .ok _ => .marking e rest
    | .error _ => .sending []
  | .marking _ rest, .db (.markPublished _), a, v => v = match a with
    | .ok _ => .sending rest
    | .error _ => .sending []
  | .sending [], .host (.leaveRelay _), _, v => v = .left
  | _, _, _, _ => False

/-- Calls that touch neither the flag of the relay nor the status of an event. -/
def Aside : Op → Prop
  | .host (.enterRelay _) => False
  | .host (.leaveRelay _) => False
  | .db (.markPublished _) => False
  | _ => True

def relaying : Task → Monitor Op Op.Ans Err Phase
  | .relay replica => ⟨MayRelay replica, NextRelay⟩
  | _ => ⟨fun _ op => Aside op, fun v _ _ v' => v' = v⟩

/-- A relay ends outside its pass. -/
def Outside (_ : Task) (v : Phase) (_ : Except Err Reply) : Prop := v.inside = false

section Programs
variable {env : Env}

theorem relay_relaying (replica : Nat) :
    Obeys (relaying (.relay replica)) (fun v _ => v.inside = false) .idle (relay replica) := by
  refine obeys_call rfl ?_ ?_
  · rintro entered v hv
    cases entered with
    | false =>
      cases hv
      rfl
    | true =>
      obtain rfl : v = .reading := hv
      refine Obeys.finally (q := fun (v : Phase) _ => v = .sending []) ?_ ?_
      · refine Obeys.orElse (q := fun (v : Phase) _ => v = .sending []) ?_ (fun _ _ h => h)
          fun _ _ h => h
        refine obeys_call rfl ?_ fun e v hv => hv
        intro pending v hv
        refine obeys_forEach _ (fun rest (v : Phase) => v = .sending rest) pending hv
          (fun _ h => h) ?_
        rintro evt rest v rfl
        refine obeys_call rfl ?_ fun e v hv => hv
        rintro _ v hv
        obtain rfl : v = .marking evt rest := hv
        exact obeys_call rfl (fun _ v hv => hv) fun e v hv => hv
      · rintro v out rfl
        refine obeys_call rfl ?_ ?_
        · rintro _ v hv
          cases hv
          rfl
        · rintro e v hv
          cases hv
          rfl
  · rintro e v hv
    cases hv
    rfl

theorem code_aside {task : Task} (other : ∀ n, task ≠ .relay n) {R : Err → Prop} :
    Within Aside R AnyErr (code env task) := by
  have ends : ∀ {E : Err → Prop} {α : Type} {p : Async α} {f : α → Reply},
      Within Aside R E p → Within Aside R AnyErr (p.bind fun a => .done (.ok (f a))) := by
    intro E α p f hp
    exact within_bind (hp.mono (fun _ h => h) fun _ _ => trivial) fun _ => trivial
  cases task with
  | accept p carrier =>
    refine ends ((accept_within p carrier).mono (fun op h => ?_) fun _ h => h)
    unfold AcceptCall at h
    split at h <;> trivial
  | relay replica => exact absurd rfl (other replica)
  | process jobId data =>
    refine ends (runTransfer_covered data trivial trivial fun op h apart => ?_)
    unfold ProcessCall at h
    split at h <;> first | trivial | exact absurd rfl (apart _)
  | onFailed job err =>
    refine ends ((onFailed_within job err).mono (fun op h => ?_) fun _ h => h)
    unfold OnFailedCall PublishCall at h
    split at h <;> first | trivial | (split at h <;> trivial)
  | sweep replica =>
    refine ends (sweep_covered replica trivial trivial trivial fun op h apart => ?_)
    unfold SweepCall at h
    split at h <;> first | trivial | exact absurd rfl (apart _)
  | retry id user =>
    refine ends ((retry_within id user).mono (fun op h => ?_) fun _ h => h)
    unfold ManagementCall at h
    split at h <;> trivial
  | retryBatch dto user =>
    refine ends ((retryBatch_within dto user).mono (fun op h => ?_) fun _ h => h)
    unfold ManagementCall at h
    split at h <;> trivial
  | purge => exact ends (purge_covered trivial fun _ => trivial)

theorem code_relaying (task : Task) :
    Obeys (relaying task) (Outside task) .idle (code env task) := by
  by_cases relays : ∃ n, task = .relay n
  · obtain ⟨n, rfl⟩ := relays
    exact (relay_relaying n).andThen (fun _ _ h => h) fun _ _ h => h
  · have other : ∀ n, task ≠ .relay n := fun n h => relays ⟨n, h⟩
    have same : relaying task = ⟨fun _ op => Aside op, fun v _ _ v' => v' = v⟩ := by
      cases task with
      | relay n => exact absurd rfl (other n)
      | _ => rfl
    rw [same]
    refine ((code_aside (R := AnyErr) other).obeys (I := fun v => v = Phase.idle)
      (fun _ _ _ h => h) ?_ rfl).mono _ ?_
    · rintro v op r v' rfl - rfl
      exact ⟨rfl, fun _ _ => trivial⟩
    · rintro v out ⟨rfl, -⟩
      rfl

end Programs

/-! ## Events and the log -/

/-- Events are told apart by number and by payload. -/
structure Told (events : List OutboxEvent) : Prop where
  ids : (events.map (·.id)).Nodup
  payloads : (events.map (·.payload)).Nodup

theorem sealed_told {s : State} (hs : Sealed s) : Told s.db.outbox := by
  constructor
  · have ids := hs.consistent.eventIds
    rw [allEvents, List.map_append] at ids
    exact ids.of_append_left
  · have rows := hs.consistent.historyIds
    rw [List.map_append] at rows
    have same : s.db.outbox.map (fun e => e.payload.transferId) = s.db.inserted.map (·.id) := by
      have := congrArg (List.map Prod.snd) hs.paired
      simpa [List.map_map, Function.comp_def] using this
    have transfers := rows.of_append_left
    rw [← same] at transfers
    refine List.Nodup.of_map (fun p : TransferJobData => p.transferId) ?_
    rwa [List.map_map]

/-- The log against the events. -/
structure Noted (events : List OutboxEvent) (log : List Note) : Prop where
  added : ∀ p, .added p ∈ log → ∃ e ∈ events, e.payload = p
  updated : ∀ id, .updated id ∈ log → ∃ e ∈ events, e.id = id
  once : ∀ p, log.count (.added p) ≤ 1
  published : ∀ e ∈ events, e.status = .published ↔ .updated e.id ∈ log
  marked : ∀ e ∈ events, .updated e.id ∈ log → .added e.payload ∈ log

/-- No event is queued and still waits for its update. -/
def Settled (events : List OutboxEvent) (log : List Note) : Prop :=
  ∀ e ∈ events, .added e.payload ∈ log → .updated e.id ∈ log

/-- Different events of a batch, none of them queued yet. -/
def Fresh (events : List OutboxEvent) (log : List Note) (batch : List OutboxEvent) : Prop :=
  (batch.map (·.id)).Nodup ∧ ∀ e ∈ batch, (∃ e' ∈ events, e'.id = e.id ∧ e'.payload = e.payload) ∧
    .added e.payload ∉ log

/-- What holds at each point of a pass. -/
def InPass (events : List OutboxEvent) (log : List Note) : Phase → Prop
  | .reading => Settled events log
  | .sending rest => Settled events log ∧ Fresh events log rest
  | .marking e rest =>
    (∃ e' ∈ events, e'.id = e.id ∧ e'.payload = e.payload) ∧ .added e.payload ∈ log ∧
      (∀ e' ∈ events, e'.id ≠ e.id → .added e'.payload ∈ log → .updated e'.id ∈ log) ∧
      (∀ e' ∈ rest, e'.id ≠ e.id) ∧ Fresh events log rest
  | _ => False

section Logs
variable {events new : List OutboxEvent} {log : List Note}

theorem unnoted (told : Told (events ++ new)) (noted : Noted events log) {e : OutboxEvent}
    (he : e ∈ new) :
    .added e.payload ∉ log ∧ .updated e.id ∉ log := by
  obtain ⟨ids, payloads⟩ := told
  rw [List.map_append, List.nodup_append] at ids payloads
  constructor
  · intro h
    obtain ⟨e₀, he₀, same⟩ := noted.added _ h
    exact payloads.2.2 _ (List.mem_map_of_mem he₀) _ (List.mem_map_of_mem he) same
  · intro h
    obtain ⟨e₀, he₀, same⟩ := noted.updated _ h
    exact ids.2.2 _ (List.mem_map_of_mem he₀) _ (List.mem_map_of_mem he) same

/-- Committed events are pending, and nothing has been noted about them. -/
theorem Noted.grow (noted : Noted events log) (told : Told (events ++ new))
    (pending : ∀ e ∈ new, e.status = .pending) : Noted (events ++ new) log := by
  refine ⟨?_, ?_, noted.once, ?_, ?_⟩
  · intro p h
    obtain ⟨e, he, same⟩ := noted.added p h
    exact ⟨e, List.mem_append_left _ he, same⟩
  · intro id h
    obtain ⟨e, he, same⟩ := noted.updated id h
    exact ⟨e, List.mem_append_left _ he, same⟩
  · intro e he
    rcases List.mem_append.mp he with he | he
    · exact noted.published e he
    · refine iff_of_false ?_ (unnoted told noted he).2
      rw [pending e he]
      exact fun h => nomatch h
  · intro e he h
    rcases List.mem_append.mp he with he | he
    · exact noted.marked e he h
    · exact absurd h (unnoted told noted he).2

theorem Settled.grow (settled : Settled events log) (noted : Noted events log)
    (told : Told (events ++ new)) :
    Settled (events ++ new) log := by
  intro e he h
  rcases List.mem_append.mp he with he | he
  · exact settled e he h
  · exact absurd h (unnoted told noted he).1

theorem Fresh.grow {batch : List OutboxEvent} (fresh : Fresh events log batch) :
    Fresh (events ++ new) log batch := by
  refine ⟨fresh.1, fun e he => ⟨?_, (fresh.2 e he).2⟩⟩
  obtain ⟨e', he', same⟩ := (fresh.2 e he).1
  exact ⟨e', List.mem_append_left _ he', same⟩

theorem InPass.grow {v : Phase} (pass : InPass events log v) (noted : Noted events log)
    (told : Told (events ++ new)) : InPass (events ++ new) log v := by
  cases v with
  | reading => exact Settled.grow pass noted told
  | sending rest => exact ⟨pass.1.grow noted told, pass.2.grow⟩
  | marking e rest =>
    obtain ⟨⟨e', he', same⟩, queued, others, apart, fresh⟩ := pass
    refine ⟨⟨e', List.mem_append_left _ he', same⟩, queued, ?_, apart, fresh.grow⟩
    intro e₁ he₁ other h
    rcases List.mem_append.mp he₁ with he₁ | he₁
    · exact others e₁ he₁ other h
    · exact absurd h (unnoted told noted he₁).1
  | idle => exact pass.elim
  | left => exact pass.elim

/-- A batch read while every queued event is published. -/
theorem fresh_read (told : Told events) (noted : Noted events log) (settled : Settled events log)
    (n : Nat) :
    Fresh events log ((orderBy (·.createdAt) (events.filter (·.status == .pending))).take n) := by
  constructor
  · have sub :
        ((orderBy (·.createdAt) (events.filter (·.status == .pending))).take n).Subperm events :=
      (List.take_sublist n _).subperm.trans
        ((List.perm_insertionSort _ _).subperm.trans List.filter_sublist.subperm)
    obtain ⟨batch, perm, sublist⟩ := sub
    exact nodup_of_subperm ⟨_, perm.map _, sublist.map _⟩ told.ids
  · intro e he
    have mem := List.mem_filter.mp (mem_orderBy_take he)
    refine ⟨⟨e, mem.1, rfl, rfl⟩, fun queued => ?_⟩
    have published := (noted.published e mem.1).mpr (settled e mem.1 queued)
    have pending : e.status = .pending := by simpa using mem.2
    rw [pending] at published
    cases published

/-- The first event of the batch is queued. -/
theorem pass_added {e : OutboxEvent} {rest : List OutboxEvent} (told : Told events)
    (noted : Noted events log) (pass : InPass events log (.sending (e :: rest))) :
    Noted events (log ++ [.added e.payload]) ∧
      InPass events (log ++ [.added e.payload]) (.marking e rest) := by
  obtain ⟨settled, ids, fresh⟩ := pass
  obtain ⟨⟨e₀, he₀, sameId, samePayload⟩, unqueued⟩ := fresh e List.mem_cons_self
  rw [List.map_cons, List.nodup_cons] at ids
  have updates : ∀ id, .updated id ∈ log ++ [Note.added e.payload] ↔ .updated id ∈ log := by simp
  have adds : ∀ p, .added p ∈ log ++ [Note.added e.payload] ↔ .added p ∈ log ∨ p = e.payload := by
    simp
  -- another event has another payload
  have apart : ∀ e₁ ∈ events, e₁.id ≠ e.id → e₁.payload ≠ e.payload := by
    intro e₁ he₁ other same
    have := List.inj_on_of_nodup_map told.payloads he₁ he₀ (same.trans samePayload.symm)
    exact other (this ▸ sameId)
  refine ⟨⟨?_, ?_, ?_, ?_, ?_⟩, ⟨e₀, he₀, sameId, samePayload⟩, by simp, ?_, ?_, ids.2, ?_⟩
  · intro p h
    rcases (adds p).mp h with h | rfl
    · exact noted.added p h
    · exact ⟨e₀, he₀, samePayload⟩
  · exact fun id h => noted.updated id ((updates id).mp h)
  · intro p
    by_cases same : p = e.payload
    · subst same
      rw [List.count_append, List.count_eq_zero.mpr unqueued]
      simp
    · have other : [Note.added e.payload].count (.added p) = 0 :=
        List.count_eq_zero.mpr (by simpa using same)
      rw [List.count_append, other]
      exact noted.once p
  · exact fun e₁ he₁ => (noted.published e₁ he₁).trans (updates _).symm
  · exact fun e₁ he₁ h => (adds _).mpr (.inl (noted.marked e₁ he₁ ((updates _).mp h)))
  · intro e₁ he₁ other h
    rcases (adds _).mp h with h | same
    · exact (updates _).mpr (settled e₁ he₁ h)
    · exact absurd same (apart e₁ he₁ other)
  · exact fun e₁ he₁ same => ids.1 (same ▸ List.mem_map_of_mem he₁)
  · intro e₁ he₁
    obtain ⟨⟨e₂, he₂, sameId₂, samePayload₂⟩, unqueued₁⟩ := fresh e₁ (List.mem_cons_of_mem e he₁)
    refine ⟨⟨e₂, he₂, sameId₂, samePayload₂⟩, fun h => ?_⟩
    rcases (adds _).mp h with h | same
    · exact unqueued₁ h
    · refine apart e₂ he₂ (fun h => ids.1 ?_) (samePayload₂.trans same)
      rw [← h, sameId₂]
      exact List.mem_map_of_mem he₁

/-- The queued event is marked. -/
theorem pass_updated {e : OutboxEvent} {rest : List OutboxEvent} (told : Told events)
    (noted : Noted events log) (now : Nat) (pass : InPass events log (.marking e rest)) :
    Noted (events.map (Db.publish now e.id)) (log ++ [.updated e.id]) ∧
      InPass (events.map (Db.publish now e.id)) (log ++ [.updated e.id]) (.sending rest) := by
  obtain ⟨⟨e₀, he₀, sameId, samePayload⟩, queued, others, apart, ids, fresh⟩ := pass
  have updates : ∀ id, .updated id ∈ log ++ [Note.updated e.id] ↔
      .updated id ∈ log ∨ id = e.id := by simp
  have adds : ∀ p, .added p ∈ log ++ [Note.updated e.id] ↔ .added p ∈ log := by simp
  have kept : ∀ e₁ ∈ events, ∃ e₂ ∈ events.map (Db.publish now e.id),
      e₂.id = e₁.id ∧ e₂.payload = e₁.payload := fun e₁ he₁ =>
    ⟨_, List.mem_map_of_mem he₁, publish_id _ _ _, (publish_payload _ _ _).1⟩
  have settled : Settled (events.map (Db.publish now e.id)) (log ++ [.updated e.id]) := by
    intro _ he h
    obtain ⟨e₁, he₁, rfl⟩ := List.mem_map.mp he
    rw [publish_id, updates]
    rw [(publish_payload _ _ _).1, adds] at h
    by_cases same : e₁.id = e.id
    · exact .inr same
    · exact .inl (others e₁ he₁ same h)
  refine ⟨⟨?_, ?_, ?_, ?_, ?_⟩, settled, ids, ?_⟩
  · intro p h
    obtain ⟨e₁, he₁, rfl⟩ := noted.added p ((adds p).mp h)
    obtain ⟨e₂, he₂, -, same⟩ := kept e₁ he₁
    exact ⟨e₂, he₂, same⟩
  · intro id h
    rcases (updates id).mp h with h | rfl
    · obtain ⟨e₁, he₁, rfl⟩ := noted.updated id h
      obtain ⟨e₂, he₂, same, -⟩ := kept e₁ he₁
      exact ⟨e₂, he₂, same⟩
    · obtain ⟨e₂, he₂, same, -⟩ := kept e₀ he₀
      exact ⟨e₂, he₂, same.trans sameId⟩
  · intro p
    have none : [Note.updated e.id].count (.added p) = 0 := List.count_eq_zero.mpr (by simp)
    rw [List.count_append, none]
    exact noted.once p
  · intro _ he
    obtain ⟨e₁, he₁, rfl⟩ := List.mem_map.mp he
    rw [publish_id, updates, Db.publish]
    split
    · next same => exact iff_of_true rfl (.inr same)
    · next other => exact (noted.published e₁ he₁).trans (or_iff_left other).symm
  · intro _ he h
    obtain ⟨e₁, he₁, rfl⟩ := List.mem_map.mp he
    rw [(publish_payload _ _ _).1, adds]
    rw [publish_id, updates] at h
    rcases h with h | same
    · exact noted.marked e₁ he₁ h
    · obtain rfl := List.inj_on_of_nodup_map told.ids he₁ he₀ (same.trans sameId.symm)
      exact samePayload ▸ queued
  · intro e₁ he₁
    obtain ⟨⟨e₂, he₂, sameId₂, samePayload₂⟩, unqueued⟩ := fresh e₁ he₁
    obtain ⟨e₃, he₃, sameId₃, samePayload₃⟩ := kept e₂ he₂
    refine ⟨⟨e₃, he₃, sameId₃.trans sameId₂, samePayload₃.trans samePayload₂⟩, ?_⟩
    rw [adds]
    exact unqueued

end Logs

/-! ## All threads -/

/-- The passes that are going on. -/
def passes (xs : List (Task × Phase)) : List Phase := (xs.map (·.2)).filter Phase.inside

/-- Ticks are those of replica 0. Either nobody is in a pass and the flag is clear, or one
pass is going on under the flag. -/
structure Relayed (s : State) (xs : List (Task × Phase)) (log : List Note) : Prop where
  replica : ∀ n v, (Task.relay n, v) ∈ xs → n = 0
  others : ∀ task v, (task, v) ∈ xs → (∀ n, task ≠ .relay n) → v = .idle
  noted : Noted s.db.outbox log
  pass : (passes xs = [] ∧ 0 ∉ s.host.relaying ∧ Settled s.db.outbox log) ∨
    ∃ v, passes xs = [v] ∧ 0 ∈ s.host.relaying ∧ InPass s.db.outbox log v

section Pool
variable {env : Env} {s s' : State} {xs l r : List (Task × Phase)}
  {log log' : List Note} {task : Task}
variable {v v' : Phase}

theorem passes_append : passes (l ++ r) = passes l ++ passes r := by
  simp [passes]

theorem passes_outside (h : v.inside = false) : passes ((task, v) :: r) = passes r := by
  simp [passes, h]

theorem passes_inside (h : v.inside = true) : passes ((task, v) :: r) = v :: passes r := by
  simp [passes, h]

/-- A thread in a pass is the only one, and the pass is the one under the flag. -/
theorem Relayed.alone (h : Relayed s (l ++ (task, v) :: r) log) (inside : v.inside = true) :
    passes l = [] ∧ passes r = [] ∧ 0 ∈ s.host.relaying ∧ InPass s.db.outbox log v := by
  have shape : passes (l ++ (task, v) :: r) = passes l ++ v :: passes r := by
    rw [passes_append, passes_inside inside]
  rcases h.pass with ⟨none, -, -⟩ | ⟨u, one, flag, pass⟩
  · rw [shape] at none
    simp at none
  · rw [shape] at one
    rcases List.append_eq_singleton_iff.mp one with ⟨left, rest⟩ | ⟨-, rest⟩
    · obtain ⟨rfl, right⟩ := List.cons.inj rest
      exact ⟨left, right, flag, pass⟩
    · cases rest

/-- Threads outside of passes may come and go. -/
theorem Relayed.carry {ys : List (Task × Phase)} (h : Relayed s xs log)
    (outbox : s'.db.outbox = s.db.outbox) (flag : s'.host.relaying = s.host.relaying)
    (same : passes ys = passes xs) (replica : ∀ n v, (Task.relay n, v) ∈ ys → n = 0)
    (others : ∀ task v, (task, v) ∈ ys → (∀ n, task ≠ .relay n) → v = .idle) :
    Relayed s' ys log := by
  refine ⟨replica, others, outbox ▸ h.noted, ?_⟩
  rw [same, outbox, flag]
  exact h.pass

theorem mem_replaced {x : Task × Phase} (h : x ∈ l ++ (task, v') :: r) :
    x = (task, v') ∨ x ∈ l ++ (task, v) :: r := by
  rcases List.mem_append.mp h with h | h
  · exact .inr (List.mem_append_left _ h)
  · rcases List.mem_cons.mp h with rfl | h
    · exact .inl rfl
    · exact .inr (List.mem_append_right _ (List.mem_cons_of_mem _ h))

/-- A relay moves on; `pass` says where that leaves the events and the flag. -/
theorem Relayed.move {n : Nat} (h : Relayed s (l ++ (.relay n, v) :: r) log)
    (noted : Noted s'.db.outbox log')
    (pass : (passes (l ++ (.relay n, v') :: r) = [] ∧ 0 ∉ s'.host.relaying ∧
      Settled s'.db.outbox log') ∨
      ∃ u, passes (l ++ (.relay n, v') :: r) = [u] ∧ 0 ∈ s'.host.relaying ∧
      InPass s'.db.outbox log' u) :
    Relayed s' (l ++ (.relay n, v') :: r) log' := by
  refine ⟨fun m u hm => ?_, fun task u hm other => ?_, noted, pass⟩
  · rcases mem_replaced (v := v) hm with same | hm
    · cases same
      exact h.replica n v (List.mem_append_right _ List.mem_cons_self)
    · exact h.replica m u hm
  · rcases mem_replaced (v := v) hm with same | hm
    · cases same
      exact absurd rfl (other n)
    · exact h.others task u hm other

/-- A relay stays in its pass. -/
theorem Relayed.goesOn {n : Nat} (h : Relayed s (l ++ (.relay n, v) :: r) log)
    (inside : v.inside = true) (inside' : v'.inside = true)
    (flag : s'.host.relaying = s.host.relaying) (noted : Noted s'.db.outbox log')
    (pass : InPass s'.db.outbox log' v') : Relayed s' (l ++ (.relay n, v') :: r) log' := by
  obtain ⟨left, right, set, -⟩ := h.alone inside
  refine h.move noted (.inr ⟨v', ?_, flag ▸ set, pass⟩)
  rw [passes_append, passes_inside inside', left, right]
  rfl

/-- A rejected call of a pass that has queued everything it marked. -/
theorem Relayed.abandons {n : Nat} (h : Relayed s (l ++ (.relay n, v) :: r) log)
    (inside : v.inside = true) (settled : Settled s.db.outbox log) :
    Relayed s (l ++ (.relay n, .sending []) :: r) log :=
  h.goesOn inside rfl rfl h.noted ⟨settled, by simp, by simp⟩

theorem exec_host {pid : Nat} {c : Choice} {o : HostOp} {a : Except Err o.Ans}
    (h : exec env pid (.host o) c s = some (a, s')) :
    a = .ok (execHost c s.host o).1 ∧ s' = { s with host := (execHost c s.host o).2 } := by
  have ran : perform env pid c s (.host o) = some (a, s') := by
    rw [exec] at h
    split at h
    · exact h
    · exact h
  cases ran
  exact ⟨rfl, rfl⟩

/-- A tick that finds the flag leaves at once; one that finds it clear begins a pass. -/
theorem Relayed.enters {c : Choice} (h : Relayed s (l ++ (.relay 0, .idle) :: r) log) :
    ∃ v', NextRelay .idle (.host (.enterRelay 0)) (.ok (execHost c s.host (.enterRelay 0)).1) v' ∧
      Relayed { s with host := (execHost c s.host (.enterRelay 0)).2 }
        (l ++ (.relay 0, v') :: r) log := by
  have shape : passes (l ++ (.relay 0, .idle) :: r) = passes l ++ passes r := by
    rw [passes_append, passes_outside rfl]
  by_cases set : 0 ∈ s.host.relaying
  · have busy : execHost c s.host (.enterRelay 0) = (false, s.host) := by rw [execHost, if_pos set]
    rw [busy]
    refine ⟨.left, rfl, h.move h.noted ?_⟩
    rw [passes_append, passes_outside rfl, ← shape]
    exact h.pass
  · have free : execHost c s.host (.enterRelay 0) =
        (true, { s.host with relaying := 0 :: s.host.relaying }) := by rw [execHost, if_neg set]
    rw [free]
    rcases h.pass with ⟨none, -, settled⟩ | ⟨u, -, flag, -⟩
    · rw [shape, List.append_eq_nil_iff] at none
      refine ⟨.reading, rfl, h.move h.noted (.inr ⟨.reading, ?_, List.mem_cons_self, settled⟩)⟩
      rw [passes_append, passes_inside rfl, none.1, none.2]
      rfl
    · exact absurd flag set

/-- The end of a pass clears the flag. -/
theorem Relayed.leaves {c : Choice} (h : Relayed s (l ++ (.relay 0, .sending []) :: r) log) :
    Relayed { s with host := (execHost c s.host (.leaveRelay 0)).2 }
      (l ++ (.relay 0, .left) :: r) log := by
  obtain ⟨left, right, -, settled, -⟩ := h.alone rfl
  refine h.move h.noted (.inl ⟨?_, ?_, settled⟩)
  · rw [passes_append, passes_outside rfl, left, right]
    rfl
  · simp [execHost]

/-- One call of a relay. -/
theorem relay_step {pid n : Nat} {c : Choice} {op : Op} {a : Except Err op.Ans}
    (told : Told s.db.outbox) (h : Relayed s (l ++ (.relay n, v) :: r) log) (may : MayRelay n v op)
    (update : ∀ id, op = .db (.markPublished id) → c.fault = none)
    (answered : exec env pid op c s = some (a, s')) :
    ∃ v', NextRelay v op a v' ∧
    Relayed s' (l ++ (.relay n, v') :: r) (log ++ noteOf op c.fault) := by
  obtain rfl : n = 0 := h.replica n v (List.mem_append_right _ List.mem_cons_self)
  cases v with
  | idle =>
    obtain rfl : op = .host (.enterRelay 0) := may
    obtain ⟨rfl, rfl⟩ := exec_host answered
    exact (List.append_nil log).symm ▸ h.enters
  | reading =>
    obtain rfl : op = .db (.findPendingEvents relayBatch) := may
    obtain ⟨-, -, -, settled⟩ := h.alone rfl
    have quiet : log ++ noteOf (.db (.findPendingEvents relayBatch)) c.fault = log :=
      List.append_nil log
    rw [quiet]
    rcases exec_db answered with ⟨name, message, rfl, rfl⟩ | ⟨db', ran, rfl⟩
    · exact ⟨_, rfl, h.abandons rfl settled⟩
    · cases ran
      exact ⟨_, rfl, h.goesOn rfl rfl rfl h.noted ⟨settled,
        fresh_read told h.noted settled relayBatch⟩⟩
  | sending rest =>
    cases rest with
    | nil =>
      obtain rfl : op = .host (.leaveRelay 0) := may
      obtain ⟨rfl, rfl⟩ := exec_host answered
      exact ⟨.left, rfl, (List.append_nil log).symm ▸ h.leaves⟩
    | cons e rest =>
      obtain rfl : op = .queue (.addTransfer e.payload relayAttempts) := may
      obtain ⟨-, -, -, pass⟩ := h.alone rfl
      rw [exec] at answered
      split at answered
      · next unfaulted =>
        cases answered
        obtain ⟨noted, marking⟩ := pass_added told h.noted pass
        refine ⟨.marking e rest, rfl, ?_⟩
        rw [unfaulted]
        exact h.goesOn rfl rfl rfl noted marking
      · next name message faulted =>
        cases answered
        refine ⟨.sending [], rfl, ?_⟩
        have quiet : log ++ noteOf (.queue (.addTransfer e.payload relayAttempts))
            (some (name, message)) = log :=
          List.append_nil log
        rw [faulted, quiet]
        exact h.abandons rfl pass.1
  | marking e rest =>
    obtain rfl : op = .db (.markPublished e.id) := may
    obtain ⟨-, -, -, pass⟩ := h.alone rfl
    have unfaulted := update e.id rfl
    rw [exec, unfaulted] at answered
    cases answered
    obtain ⟨noted, sending⟩ := pass_updated told h.noted s.host.now pass
    refine ⟨.sending rest, rfl, ?_⟩
    rw [unfaulted]
    exact h.goesOn rfl rfl rfl noted sending
  | left => exact may.elim

end Pool

section Steps
variable {env : Env} {s s' : State} {xs l r : List (Task × Phase)} {log : List Note}
  {task : Task} {v : Phase}

theorem aside_flag {pid : Nat} {c : Choice} {op : Op} {a : Except Err op.Ans} (aside : Aside op)
    (answered : exec env pid op c s = some (a, s')) : s'.host.relaying = s.host.relaying := by
  cases exec_change answered with
  | host o => cases o <;> first | rfl | exact aside.elim | (simp only [execHost]; split <;> rfl)
  | _ => rfl

/-- Other calls leave the events alone or commit new ones. -/
theorem aside_outbox {pid : Nat} {c : Choice} {op : Op} {a : Except Err op.Ans} (known : Sealed s)
    (aside : Aside op) (answered : exec env pid op c s = some (a, s')) :
    ∃ new, s'.db.outbox = s.db.outbox ++ new ∧ ∀ e ∈ new, e.status = .pending := by
  rcases exec_effect_db answered with same | ⟨dbOp, rfl, eff⟩
  · exact ⟨[], by rw [same, List.append_nil], by simp⟩
  · rcases effect_outbox eff with ⟨same, -⟩ | ⟨id, rfl, -, -⟩ | ⟨x, rfl, isOpen, grown, -⟩
    · exact ⟨[], by rw [same, List.append_nil], by simp⟩
    · exact aside.elim
    · refine ⟨x.events, grown, fun e he => known.consistent.newEvents e ?_⟩
      exact (bufferedEvents_perm known.consistent isOpen).mem_iff.mpr (List.mem_append_left _ he)

theorem aside_step {pid : Nat} {c : Choice} {op : Op} {a : Except Err op.Ans} (known : Sealed s)
    (known' : Sealed s') (h : Relayed s xs log) (aside : Aside op)
    (answered : exec env pid op c s = some (a, s')) : Relayed s' xs log := by
  obtain ⟨new, grown, pending⟩ := aside_outbox known aside answered
  have told := sealed_told known'
  rw [grown] at told
  refine ⟨h.replica, h.others, grown ▸ h.noted.grow told pending, ?_⟩
  rw [grown, aside_flag aside answered]
  rcases h.pass with ⟨none, flag, settled⟩ | ⟨u, one, flag, pass⟩
  · exact .inl ⟨none, flag, settled.grow h.noted told⟩
  · exact .inr ⟨u, one, flag, pass.grow h.noted told⟩

theorem enter_frame {q : Request} (h : enter q s = some (s', task)) :
    s'.db = s.db ∧ s'.host = s.host ∧ ∀ n, task = .relay n → q = .relayTick n := by
  refine ⟨(enter_db h).1, ?_, fun n relay => ?_⟩
  · rcases enter_cases h with ⟨rfl, -⟩ | ⟨_, _, -, -, -, rfl, -⟩ <;> rfl
  · subst relay
    cases q with
    | relayTick m =>
      cases h
      rfl
    | takeJob jobId =>
      rcases enter_cases h with ⟨-, -, -⟩ | ⟨_, _, -, -, -, -, other⟩
      · simp only [enter, takeJob] at h
        split at h
        · cases h
        · split at h <;> cases h
      · cases other
    | _ => cases h

theorem finish_host (task : Task) (out : Except Err Reply) (s : State) :
    (finish env task out s).1.host = s.host := by
  rcases finish_cases env task out s with same | ⟨_, _, _, -, same⟩ | ⟨_, _, -, same⟩
  · rw [same]
  · rw [same]
  · rw [same]
    rfl

theorem outside_relaying {e : Event} (h : outside e s = some s') :
    s'.host.relaying = s.host.relaying := by
  cases e with
  | stalled jobId =>
    simp only [outside] at h
    split at h
    · cases h
    · split at h
      · cases h
        rfl
      · cases h
  | _ =>
    cases h
    rfl

theorem passes_idle (tasks : List Task) :
    passes (tasks.map fun task => (task, Phase.idle)) = [] := by
  simp [passes, Phase.inside]

/-- A thread outside of its pass goes away, and idle ones come. -/
theorem Relayed.settles {tasks : List Task} (h : Relayed s (l ++ (task, v) :: r) log)
    (outside : v.inside = false) (outbox : s'.db.outbox = s.db.outbox)
    (flag : s'.host.relaying = s.host.relaying) (others : ∀ new ∈ tasks, ∀ n, new ≠ .relay n) :
    Relayed s' (l ++ r ++ tasks.map fun new => (new, Phase.idle)) log := by
  have kept : ∀ x ∈ l ++ r, x ∈ l ++ (task, v) :: r := fun x hx => by
    rcases List.mem_append.mp hx with hx | hx
    · exact List.mem_append_left _ hx
    · exact List.mem_append_right _ (List.mem_cons_of_mem _ hx)
  refine h.carry outbox flag ?_ ?_ ?_
  · rw [passes_append, passes_append, passes_append, passes_outside outside, passes_idle,
      List.append_nil]
  · intro n u hm
    rcases List.mem_append.mp hm with hm | hm
    · exact h.replica n u (kept _ hm)
    · obtain ⟨new, hnew, same⟩ := List.mem_map.mp hm
      cases same
      exact absurd rfl (others _ hnew n)
  · intro task u hm other
    rcases List.mem_append.mp hm with hm | hm
    · exact h.others task u (kept _ hm) other
    · obtain ⟨new, -, same⟩ := List.mem_map.mp hm
      cases same
      rfl

theorem note_resume {w : SysWorld} {pid : Nat} {c : Choice} {ts us : List SysThread} {t : SysThread}
    {op : Op} {k : Except Err op.Ans → Async Reply} (found : focus pid w.threads = some (ts, t, us))
    (at_call : t.prog = .await op k) :
    note w (.resume pid c) = match t.task with
      | .relay _ => noteOf op c.fault
      | _ => [] := by
  simp only [note, found, at_call, Prog.head]
  cases t.task <;> rfl

theorem relay_logged :
    Logged (machine env) OneReplica note relaying Outside .idle Sealed Relayed where
  code := code_relaying
  request w q s task xs log ok _ h entered := by
    obtain ⟨db, host, relay⟩ := enter_frame entered
    have quiet : log ++ note w (.request q) = log := List.append_nil log
    rw [quiet]
    refine h.carry (by rw [db]) (by rw [host]) ?_ ?_ ?_
    · rw [passes_append, passes_outside rfl]
      exact List.append_nil _
    · intro n u hm
      rcases List.mem_append.mp hm with hm | hm
      · exact h.replica n u hm
      · cases List.mem_singleton.mp hm
        rw [relay n rfl] at ok
        simpa [OneReplica, oneReplica] using ok
    · intro task u hm other
      rcases List.mem_append.mp hm with hm | hm
      · exact h.others task u hm other
      · cases List.mem_singleton.mp hm
        rfl
  resume w pid c ts t us op k a s v l r log ok found at_call known known' h may answered := by
    rw [note_resume found at_call]
    by_cases relays : ∃ n, t.task = .relay n
    · obtain ⟨n, relay⟩ := relays
      rw [relay] at h may ⊢
      refine relay_step (sealed_told known) h may ?_ answered
      rintro id rfl
      simpa [OneReplica, oneReplica, found, at_call, Prog.head] using ok
    · have other : ∀ n, t.task ≠ .relay n := fun n same => relays ⟨n, same⟩
      have aside : Aside op ∧ ∀ v', v' = v → (relaying t.task).next v op a v' := by
        revert may other
        cases t.task with
        | relay n => exact fun _ other => absurd rfl (other n)
        | _ => exact fun may _ => ⟨may, fun _ h => h⟩
      have quiet : (match t.task with
          | .relay _ => noteOf op c.fault
          | _ => []) = [] := by
        revert other
        cases t.task with
        | relay n => exact fun other => absurd rfl (other n)
        | _ => exact fun _ => rfl
      rw [quiet, List.append_nil]
      exact ⟨v, aside.2 v rfl, aside_step known known' h aside.1 answered⟩
  settle w pid task v out l r log h ended := by
    have quiet : log ++ note w (.settle pid) = log := List.append_nil log
    rw [quiet]
    refine h.settles ended ?_ ?_ ?_
    · exact congrArg Db.outbox (finish_db env task out w.store)
    · exact congrArg Host.relaying (finish_host task out w.store)
    · intro new hnew n same
      obtain ⟨_, _, _, _, -, -, -, handler⟩ := finish_tasks hnew
      rw [same] at handler
      cases handler
  crash w pid ts t us v l r log ok found h := by
    have other : ∀ n, t.task ≠ .relay n := by
      intro n same
      obtain ⟨p, task, prog⟩ := t
      simp only at same
      subst same
      simp [OneReplica, oneReplica, found] at ok
    have idle := h.others t.task v (List.mem_append_right _ List.mem_cons_self) other
    subst idle
    have quiet : log ++ note w (.crash pid) = log := List.append_nil log
    have flag : (drop pid t.task w.store).host.relaying = w.store.host.relaying := by
      revert other
      cases t.task with
      | relay n => exact fun other => absurd rfl (other n)
      | _ => exact fun _ => rfl
    have gone :
        Relayed (drop pid t.task w.store) (l ++ r ++ [].map fun new => (new, Phase.idle)) log :=
      h.settles rfl rfl flag (by simp)
    rw [quiet]
    rwa [List.map_nil, List.append_nil] at gone
  outside w e s xs log h happened := by
    have quiet : log ++ note w (.outside e) = log := List.append_nil log
    rw [quiet]
    exact h.carry (congrArg Db.outbox (outside_db happened))
      (outside_relaying happened) rfl h.replica h.others

end Steps

/-! ## Exactly once -/

section Results
variable {env : Env} {w₀ w : SysWorld} {log : List Note}

theorem inPass_inside {t : SysThread} {x : Task × Phase} (kept : Keeps relaying Outside t x)
    (others : (∀ n, x.1 ≠ .relay n) → x.2 = .idle) : inPass t = x.2.inside := by
  obtain ⟨pid, task, prog⟩ := t
  obtain ⟨task', v⟩ := x
  obtain ⟨same, obeys⟩ := kept
  simp only at same obeys others ⊢
  subst same
  by_cases relays : ∃ n, task = .relay n
  · obtain ⟨n, rfl⟩ := relays
    cases prog with
    | done out => exact Eq.symm obeys
    | await op k =>
      have may : MayRelay n v op := obeys.1
      cases v with
      | idle =>
        obtain rfl : op = .host (.enterRelay n) := may
        rfl
      | reading =>
        obtain rfl : op = .db (.findPendingEvents relayBatch) := may
        rfl
      | sending rest =>
        cases rest with
        | nil =>
          obtain rfl : op = .host (.leaveRelay n) := may
          rfl
        | cons e rest =>
          obtain rfl : op = .queue (.addTransfer e.payload relayAttempts) := may
          rfl
      | marking e rest =>
        obtain rfl : op = .db (.markPublished e.id) := may
        rfl
      | left => exact may.elim
  · have other : ∀ n, task ≠ .relay n := fun n same => relays ⟨n, same⟩
    rw [others other]
    cases task with
    | relay n => exact absurd rfl (other n)
    | _ => rfl

/-- As many threads are in a pass as there are passes. -/
theorem count_passes {ts : List SysThread} {xs : List (Task × Phase)}
    (kept : List.Forall₂ (Keeps relaying Outside) ts xs)
    (others : ∀ task v, (task, v) ∈ xs → (∀ n, task ≠ .relay n) → v = .idle) :
    ts.countP inPass = (passes xs).length := by
  induction kept with
  | nil => rfl
  | @cons t x ts xs head tail ih =>
    have rest := ih fun task v h => others task v (List.mem_cons_of_mem x h)
    have here := inPass_inside head (others x.1 x.2 List.mem_cons_self)
    obtain ⟨task, v⟩ := x
    cases inside : v.inside with
    | true =>
      rw [List.countP_cons_of_pos (by rw [here]; exact inside), rest, passes_inside inside]; rfl
    | false =>
      rw [List.countP_cons_of_neg (by rw [here, inside]; simp), rest, passes_outside inside]

/-- What one replica guarantees about its events and its flag. -/
structure ExactlyOnce (env : Env) (w : SysWorld) (log : List Note) : Prop where
  once : ∀ e ∈ w.store.db.outbox, log.count (.added e.payload) ≤ 1
  published : ∀ e ∈ w.store.db.outbox,
    e.status = .published ↔ .added e.payload ∈ log ∧ .updated e.id ∈ log
  flag : 0 ∈ w.store.host.relaying ↔ ∃ t ∈ w.threads, inPass t = true
  ends : ∀ t ∈ w.threads, inPass t = true → ∀ c w', OneReplica w (.resume t.pid c) →
    (machine env).step w (.resume t.pid c) = some w' →
    (∀ t' ∈ w'.threads, t'.pid = t.pid → inPass t' = false) →
    0 ∉ w'.store.host.relaying ∧ ∀ c', (execHost c' w'.store.host (.enterRelay 0)).1 = true

theorem relayed_invariant (start : Initial w₀) (clear : w₀.store.host.relaying = [])
    (path : Traced (machine env) OneReplica note w₀ w log) :
    Noted w.store.db.outbox log ∧ w.threads.countP inPass ≤ 1 ∧
      (0 ∈ w.store.host.relaying ↔ ∃ t ∈ w.threads, inPass t = true) := by
  have known : ∀ w, Reach (machine env) OneReplica w₀ w → Sealed w.store := fun w path =>
    (booked_invariant start (path.weaken fun _ _ _ => trivial)).1
  have first : Relayed w₀.store [] [] := by
    refine ⟨by simp, by simp, ?_, .inl ⟨rfl, by simp [clear], ?_⟩⟩
    · constructor <;> simp [start.outbox]
    · simp [Settled, start.outbox]
  obtain ⟨xs, kept, h⟩ := relay_logged.holds start.threads known first path
  have count := count_passes kept h.others
  have some : (∃ t ∈ w.threads, inPass t = true) ↔ 0 < w.threads.countP inPass :=
    List.countP_pos_iff.symm
  rw [some, count]
  rcases h.pass with ⟨none, flag, -⟩ | ⟨v, one, flag, -⟩
  · rw [none]
    exact ⟨h.noted, by simp, by simp [flag]⟩
  · rw [one]
    exact ⟨h.noted, by simp, by simp [flag]⟩

/-- With one replica whose updates are not rejected and whose process is not lost, every
event is queued at most once by the relay, it is published exactly when it was queued and
its update has run, and the flag is set exactly during a pass. -/
theorem single_relay_exactly_once (start : Initial w₀) (clear : w₀.store.host.relaying = [])
    (path : Traced (machine env) OneReplica note w₀ w log) : ExactlyOnce env w log := by
  obtain ⟨noted, alone, flag⟩ := relayed_invariant start clear path
  refine ⟨fun e _ => noted.once e.payload, fun e he => ?_, flag, ?_⟩
  · rw [noted.published e he]
    exact ⟨fun updated => ⟨noted.marked e he updated, updated⟩, fun both => both.2⟩
  · intro t ht inside c w' ok move ended
    have clear' : 0 ∉ w'.store.host.relaying := by
      intro set
      obtain ⟨-, -, flag'⟩ := relayed_invariant start clear (.step path ok move)
      obtain ⟨t', ht', inside'⟩ := flag'.mp set
      have apart : t'.pid ≠ t.pid := by
        intro same
        rw [ended t' ht' same] at inside'
        cases inside'
      cases Machine.step_move move with
      | resume l r t₀ op k a s found at_call answered eq =>
        subst eq
        obtain ⟨shape, pid⟩ := focus_some found
        -- the thread that goes on was there before, beside the one that has ended
        rcases mem_middle.mp ht' with rfl | beside
        · exact apart pid
        · have num := (initial_numbered start).reach path.reach
          obtain rfl : t = t₀ := by
            rw [shape] at ht
            exact (mem_middle.mp ht).resolve_right fun other => num.others_ne found t other rfl
          have two : 0 < (l ++ r).countP inPass := List.countP_pos_iff.mpr ⟨t', beside, inside'⟩
          rw [shape, List.perm_middle.countP_eq, List.countP_cons_of_pos inside] at alone
          omega
    exact ⟨clear', fun c' => by simp [execHost, clear']⟩

/-- Two ticks overlap: the second finds the flag and leaves, the first publishes the event. -/
def overlappingTicks : List SysAct :=
  sampleAccepted ++ [.request (.relayTick 0), .request (.relayTick 0)] ++ answer 1 2 ++
    answer 2 1 ++ answer 1 3

theorem single_relay_exactly_once_sample :
    ∃ w log e, Traced (machine sampleEnv) OneReplica note sampleWorld w log ∧
    w.store.db.outbox = [e] ∧
      .added e.payload ∈ log ∧ ExactlyOnce sampleEnv w log := by
  have run : ((machine sampleEnv).stepsIf oneReplica sampleWorld overlappingTicks).map
      (fun w => w.store.db.outbox.map (·.status)) = some [.published] := by decide +kernel
  obtain ⟨w, hw, published⟩ := Option.map_eq_some_iff.mp run
  obtain ⟨e, one, status⟩ := List.map_eq_singleton_iff.mp published
  have reached : Reach (machine sampleEnv) OneReplica sampleWorld w :=
    reach_of_stepsIf (fun _ _ ok => ok) .start _ hw
  obtain ⟨log, traced⟩ := reached.traced note
  have exactly := single_relay_exactly_once sample_initial rfl traced
  have mem : e ∈ w.store.db.outbox := by rw [one]; exact List.mem_singleton_self e
  exact ⟨w, log, e, traced, one, ((exactly.published e mem).mp status).1, exactly⟩

end Results

end SingleRelay
