import SyncBridge.Footprints
import Mathlib.Data.List.Infix

/-!
# Publishing an event

An event counts as published when it was sent to the topic, if there is one, and
a delivery job was added for every active subscription of the tenant that asks
for its type. `Told` is what one operation has done to that end so far: the
messages it has sent, the subscriptions it has found, the deliveries and the dead
letters it has added. `Recorded` says that all of this is in the logs, after the
entries that were there at an earlier time. Logs are never shortened.
-/

namespace Announcements

open AwaitPrograms ThreadPools Entities Database TableInvariants Calls Worker Orchestrator
open Footprints

structure Told where
  sent : List (String × TransferEvent)
  found : List (String × List EventSubscription)
  delivered : List WebhookDeliveryJob
  dead : List DeadLetterJobData

def Told.nothing : Told := ⟨[], [], [], []⟩

def Told.hear (told : Told) : (op : Op) → Except Err op.Ans → Told
  | .kafkaSend key event, .ok _ => { told with sent := (key, event) :: told.sent }
  | .db (.findSubscriptions tenantId), .ok subs =>
    { told with found := (tenantId, subs) :: told.found }
  | .queue (.addDelivery job), .ok _ => { told with delivered := job :: told.delivered }
  | .queue (.addDeadLetter data), .ok _ => { told with dead := data :: told.dead }
  | _, _ => told

/-- Everything told before is still told. -/
structure Told.Le (told told' : Told) : Prop where
  sent : ∀ x ∈ told.sent, x ∈ told'.sent
  found : ∀ x ∈ told.found, x ∈ told'.found
  delivered : ∀ x ∈ told.delivered, x ∈ told'.delivered
  dead : ∀ x ∈ told.dead, x ∈ told'.dead

theorem Told.Le.refl (told : Told) : told.Le told :=
  ⟨fun _ h => h, fun _ h => h, fun _ h => h, fun _ h => h⟩

theorem Told.Le.trans {a b c : Told} (h : a.Le b) (h' : b.Le c) : a.Le c :=
  ⟨fun x hx => h'.sent x (h.sent x hx), fun x hx => h'.found x (h.found x hx),
    fun x hx => h'.delivered x (h.delivered x hx), fun x hx => h'.dead x (h.dead x hx)⟩

theorem Told.hear_le (told : Told) (op : Op) (a : Except Err op.Ans) :
    told.Le (told.hear op a) := by
  unfold Told.hear
  split <;> constructor <;> intro x hx <;> first | exact hx | exact List.mem_cons_of_mem _ hx

/-- The operation has published the event. -/
def Told.Publishes (env : Env) (event : TransferEvent) (told : Told) : Prop :=
  (env.config.kafkaEnabled = true → (event.tenantId, event) ∈ told.sent) ∧
    ∃ subs, (event.tenantId, subs) ∈ told.found ∧
      ∀ s ∈ subs, event.type ∈ s.events → deliveryJob event s ∈ told.delivered

theorem Told.Publishes.le {env : Env} {event : TransferEvent} {told told' : Told}
    (h : told.Publishes env event) (le : told.Le told') : told'.Publishes env event := by
  obtain ⟨hsent, subs, hfound, hdelivered⟩ := h
  exact ⟨fun hk => le.sent _ (hsent hk), subs, le.found _ hfound,
    fun s hs ht => le.delivered _ (hdelivered s hs ht)⟩

section Programs
variable {σ : Type} {m : Monitor Op Op.Ans Err σ} {S : Told → σ → Prop}

/-- The rule for `publishTransferEvent`: an observer that follows the operation
through calls that are all answered sees the event published. -/
theorem publish_told (env : Env) (t : FileTransfer) (type : EventType) (data : EventData)
    (may : ∀ told st op, S told st → PublishCall op → m.may st op)
    (next : ∀ told st op a st', S told st → PublishCall op → m.next st op a st' →
      (∃ v, a = .ok v) ∧ S (told.hear op a) st')
    {told : Told} {st : σ} (start : S told st) :
    Obeys m (fun st' out => out = .ok () ∧ ∃ told', S told' st' ∧ told.Le told' ∧
      told'.Publishes env (transferEvent t type data)) st
        (publishTransferEvent env t type data) := by
  have kafka : Obeys m (fun st' out => out = .ok () ∧ ∃ told', S told' st' ∧ told.Le told' ∧
      (env.config.kafkaEnabled = true → (t.tenantId, transferEvent t type data) ∈ told'.sent)) st
      (kafkaPublish env t.tenantId (transferEvent t type data)) := by
    unfold kafkaPublish
    split
    · refine ⟨may _ _ _ start trivial, fun a st' hn => ?_⟩
      obtain ⟨⟨v, rfl⟩, hS⟩ := next _ _ _ _ _ start (by trivial) hn
      exact ⟨rfl, _, hS, told.hear_le _ _, fun _ => List.mem_cons_self⟩
    · rename_i off
      exact ⟨rfl, told, start, .refl told, fun on => absurd on off⟩
  refine kafka.andThen ?_ fun _ _ h => (nomatch h.1)
  rintro st₁ _ ⟨-, told₁, hS₁, hle₁, hsent⟩
  refine ⟨may _ _ _ hS₁ trivial, fun a st₂ hn => ?_⟩
  obtain ⟨⟨subs, rfl⟩, hS₂⟩ := next _ _ _ _ _ hS₁ (by trivial) hn
  -- the loop has delivered to the subscriptions that are no longer ahead
  refine obeys_forEach _ (fun rest st' => ∃ told', S told' st' ∧
      (told₁.hear (.db (.findSubscriptions t.tenantId)) (.ok subs)).Le told' ∧
      ∀ s ∈ subs, type ∈ s.events → s ∈ rest ∨
        deliveryJob (transferEvent t type data) s ∈ told'.delivered) _ ?_ ?_ ?_
  · exact ⟨_, hS₂, .refl _, fun s hs ht => .inl (List.mem_filter.mpr ⟨hs, by simpa using ht⟩)⟩
  · rintro st' ⟨told', hS', hle, hrest⟩
    have hle' := hle₁.trans ((told₁.hear_le _ _).trans hle)
    refine ⟨rfl, told', hS', hle', fun hk => ?_, subs, ?_, fun s hs ht => ?_⟩
    · exact ((told₁.hear_le _ _).trans hle).sent _ (hsent hk)
    · exact hle.found _ List.mem_cons_self
    · exact (hrest s hs ht).resolve_left (by simp)
  · rintro s rest st' ⟨told', hS', hle, hrest⟩
    refine ⟨may _ _ _ hS' trivial, fun a st'' hn => ?_⟩
    obtain ⟨⟨v, rfl⟩, hS''⟩ := next _ _ _ _ _ hS' (by trivial) hn
    refine ⟨_, hS'', hle.trans (told'.hear_le _ _), fun x hx ht => ?_⟩
    rcases hrest x hx ht with h | h
    · rcases List.mem_cons.mp h with rfl | h
      · exact .inr List.mem_cons_self
      · exact .inl h
    · exact .inr (List.mem_cons_of_mem _ h)

end Programs

/-- The logs of one state continue those of another. -/
structure Extends (s s' : State) : Prop where
  kafka : s.kafka <+: s'.kafka
  deliveries : s.queues.deliveries <+: s'.queues.deliveries
  deadLetters : s.queues.deadLetters <+: s'.queues.deadLetters
  subscriptions : s'.db.subscriptions = s.db.subscriptions

/-- Steps that do not touch the logs. -/
theorem Extends.same {s s' : State} (kafka : s'.kafka = s.kafka)
    (deliveries : s'.queues.deliveries = s.queues.deliveries)
    (deadLetters : s'.queues.deadLetters = s.queues.deadLetters)
    (subscriptions : s'.db.subscriptions = s.db.subscriptions) : Extends s s' :=
  ⟨kafka ▸ List.prefix_rfl, deliveries ▸ List.prefix_rfl, deadLetters ▸ List.prefix_rfl,
    subscriptions⟩

theorem Extends.refl (s : State) : Extends s s := .same rfl rfl rfl rfl

theorem Extends.trans {a b c : State} (h : Extends a b) (h' : Extends b c) : Extends a c :=
  ⟨h.kafka.trans h'.kafka, h.deliveries.trans h'.deliveries, h.deadLetters.trans h'.deadLetters,
    h'.subscriptions.trans h.subscriptions⟩

section Logs
variable {env : Env} {pid : Nat} {c : Choice} {s s' : State}

theorem effect_subscriptions {now : Nat} {db db' : Db} {op : DbOp} (e : Effect now pid db op db') :
    db'.subscriptions = db.subscriptions := by
  cases e with
  | committed x isOpen =>
    obtain ⟨-, -, -, -, -, h, -⟩ := applyWrites_frame db x
    exact h
  | _ => rfl

theorem exec_extends {op : Op} {a : Except Err op.Ans} (h : exec env pid op c s = some (a, s')) :
    Extends s s' := by
  cases exec_change h with
  | db dbOp a db' ran =>
    exact .same rfl rfl rfl (effect_subscriptions (TableInvariants.exec_effect ran))
  | queue q =>
    cases q with
    | addTransfer data attempts => exact .same rfl rfl rfl rfl
    | addDeadLetter data => exact ⟨List.prefix_rfl, List.prefix_rfl, List.prefix_append _ _, rfl⟩
    | addDelivery job => exact ⟨List.prefix_rfl, List.prefix_append _ _, List.prefix_rfl, rfl⟩
  | kafka key event => exact ⟨List.prefix_append _ _, List.prefix_rfl, List.prefix_rfl, rfl⟩
  | _ => exact .same rfl rfl rfl rfl

theorem setJob_extends (f : Job → Job) (jobId : Nat) (s : State) : Extends s (setJob f jobId s) :=
  .same rfl rfl rfl rfl

theorem finish_extends (env : Env) (task : Task) (out : Except Err Reply) (s : State) :
    Extends s (finish env task out s).1 := by
  rcases finish_cases env task out s with same | ⟨_, _, _, -, same⟩ | ⟨f, jobId, -, same⟩
  · rw [same]
    exact .refl s
  · rw [same]
    exact .same rfl rfl rfl rfl
  · rw [same]
    exact setJob_extends f jobId s

theorem step_extends {w w' : SysWorld} {a : SysAct} (move : (machine env).step w a = some w') :
    Extends w.store w'.store := by
  cases Machine.step_move move with
  | @request q s task entered eq =>
    subst eq
    rcases enter_cases entered with ⟨rfl, -, -⟩ | ⟨_, _, -, -, -, rfl, -⟩
    · exact .refl _
    · exact setJob_extends _ _ _
  | resume l r t op k b s found at_call answered eq => subst eq; exact exec_extends answered
  | settle l r t out found ended eq => subst eq; exact finish_extends env t.task out w.store
  | crash l r t found eq => subst eq; exact .same rfl rfl rfl rfl
  | @outside e s happened eq =>
    subst eq
    rcases outside_cases happened with ⟨_, _, rfl⟩ | ⟨_, _, -, -, -, rfl⟩
    · exact .same rfl rfl rfl rfl
    · exact setJob_extends _ _ _

/-- What was told since `s₀` is in the logs of `s`, after the entries of `s₀`. -/
structure Recorded (s₀ : State) (told : Told) (s : State) : Prop where
  since : Extends s₀ s
  sent : ∀ x ∈ told.sent, x ∈ s.kafka.drop s₀.kafka.length
  found : ∀ x ∈ told.found, x.2 = s.db.subscriptions.filter fun u => u.tenantId == x.1 && u.active
  delivered : ∀ x ∈ told.delivered, x ∈ s.queues.deliveries.drop s₀.queues.deliveries.length
  dead : ∀ x ∈ told.dead, x ∈ s.queues.deadLetters.drop s₀.queues.deadLetters.length

theorem Recorded.nothing {s₀ : State} (h : Extends s₀ s) : Recorded s₀ .nothing s := by
  refine ⟨h, ?_, ?_, ?_, ?_⟩ <;> simp [Told.nothing]

theorem Recorded.extend {s₀ : State} {told : Told} (h : Recorded s₀ told s) (ext : Extends s s') :
    Recorded s₀ told s' where
  since := h.since.trans ext
  sent x hx := (ext.kafka.drop _).subset (h.sent x hx)
  found x hx := ext.subscriptions ▸ h.found x hx
  delivered x hx := (ext.deliveries.drop _).subset (h.delivered x hx)
  dead x hx := (ext.deadLetters.drop _).subset (h.dead x hx)

theorem mem_drop_append {α : Type} {l l' : List α} {x : α} (h : l <+: l') :
    x ∈ (l' ++ [x]).drop l.length := by
  rw [List.drop_append_of_le_length h.length_le]
  exact List.mem_append_right _ (List.mem_singleton_self x)

/-- What an operation hears is recorded. -/
theorem Recorded.hear {s₀ : State} {told : Told} (h : Recorded s₀ told s) {op : Op}
    {a : Except Err op.Ans} (step : exec env pid op c s = some (a, s')) :
    Recorded s₀ (told.hear op a) s' := by
  have kept := h.extend (exec_extends step)
  have since := h.since
  unfold Told.hear
  split
  · refine { kept with sent := fun x hx => ?_ }
    rcases List.mem_cons.mp hx with rfl | hx
    · cases exec_change step
      exact mem_drop_append since.kafka
    · exact kept.sent x hx
  · refine { kept with found := fun x hx => ?_ }
    rcases List.mem_cons.mp hx with rfl | hx
    · rcases exec_db step with ⟨_, _, hr, -⟩ | ⟨db', ran, rfl⟩
      · cases hr
      · cases ran; rfl
    · exact kept.found x hx
  · refine { kept with delivered := fun x hx => ?_ }
    rcases List.mem_cons.mp hx with rfl | hx
    · cases exec_change step
      exact mem_drop_append since.deliveries
    · exact kept.delivered x hx
  · refine { kept with dead := fun x hx => ?_ }
    rcases List.mem_cons.mp hx with rfl | hx
    · cases exec_change step
      exact mem_drop_append since.deadLetters
    · exact kept.dead x hx
  · exact kept

/-- The event has been published in `s`, after `s₀`. -/
def Announced (env : Env) (s₀ s : State) (event : TransferEvent) : Prop :=
  (env.config.kafkaEnabled = true → (event.tenantId, event) ∈ s.kafka.drop s₀.kafka.length) ∧
    ∀ sub ∈ s.db.subscriptions, sub.tenantId = event.tenantId → sub.active = true →
      event.type ∈ sub.events →
      deliveryJob event sub ∈ s.queues.deliveries.drop s₀.queues.deliveries.length

theorem Recorded.announced {s₀ : State} {told : Told} {event : TransferEvent}
    (h : Recorded s₀ told s) (published : told.Publishes env event) : Announced env s₀ s event := by
  obtain ⟨hsent, subs, hfound, hdelivered⟩ := published
  refine ⟨fun hk => h.sent _ (hsent hk), fun sub hsub htenant hactive htype => ?_⟩
  have heq : subs = s.db.subscriptions.filter fun u => u.tenantId == event.tenantId && u.active :=
    h.found _ hfound
  refine h.delivered _ (hdelivered sub ?_ htype)
  rw [heq]
  exact List.mem_filter.mpr ⟨hsub, by simp [htenant, hactive]⟩

theorem Announced.extend {s₀ : State} {event : TransferEvent} (h : Announced env s₀ s event)
    (ext : Extends s s') : Announced env s₀ s' event := by
  refine ⟨fun hk => (ext.kafka.drop _).subset (h.1 hk), fun sub hsub htenant hactive htype => ?_⟩
  exact (ext.deliveries.drop _).subset (h.2 sub (ext.subscriptions ▸ hsub) htenant hactive htype)

/-- The calls that tell others of an end; they fail only when they are rejected. -/
def Tells : Op → Prop
  | .queue (.addDeadLetter _) => True
  | op => PublishCall op

theorem exec_tells {op : Op} {a : Except Err op.Ans} (h : exec env pid op c s = some (a, s'))
    (tells : Tells op) (noFault : c.fault = none) : ∃ v, a = .ok v := by
  unfold exec at h
  rw [noFault] at h
  cases op with
  | db dbOp => cases dbOp with
    | findSubscriptions tenantId => cases h; exact ⟨_, rfl⟩
    | _ => exact tells.elim
  | queue q => cases h; exact ⟨_, rfl⟩
  | kafkaSend key event => cases h; exact ⟨_, rfl⟩
  | _ => exact tells.elim

end Logs

end Announcements
