import SyncBridge.RoleEnforcement

/-!
# Requests that are refused

A request that is answered with a status from 400 to 499 has changed nothing, at none of
its steps and whatever else was going on. Guards and pipes refuse before the handler
starts, and a handler looks before it writes; what it throws once it has written becomes
a 500. The drivers of the database, of the queues and of the object store reject with
errors of their own, never with the framework's.
-/

namespace Refusals

open AwaitPrograms CombinedCalls ThreadPools GrowingKnowledge Entities Database Calls Ingestion
open Management Orchestrator Footprints Outbound Authentication Accounts Gateway RoleEnforcement

/-- Errors that become a reply from 400 to 499. -/
def refuses : Err → Bool
  | .notFound _ => true
  | .conflict _ => true
  | .other name _ => name = "UnauthorizedException"
  | _ => false

abbrev Mild (e : Err) : Prop := refuses e = false

theorem mild_status {e : Err} (h : Mild e) (env : OutEnv) (url : String) :
    (refusal env url (thrownBy e)).status = 500 := by
  have internal : thrownBy e = .internal e := by
    unfold thrownBy
    split
    · cases h
    · cases h
    · cases h
    · rfl
  rw [internal]
  rfl

/-- A request looks at first, in a transaction of its own or not, and then may write. -/
inductive Phase where
  | looking (inTx : Bool)
  | wrote
  deriving DecidableEq, Repr

/-- Calls that write nothing; also those on the way to a user or a subscription. -/
def Looks (inTx : Bool) : AppOp → Prop
  | .inl (.inr (.findSubscription _ _)) => True
  | .inr (.exist _) => True
  | .inr (.hash _) => True
  | op => Reads inTx op

def Moves (op : AppOp) (a : Except Err (AppAns op)) : Phase → Phase → Prop
  | .wrote, phase => phase = .wrote
  | .looking inTx, phase =>
    (Looks inTx op ∧ phase = .looking (opens inTx op a)) ∨ (¬ Looks inTx op ∧ phase = .wrote)

/-- Nothing is forbidden; a rejection is mild. -/
def watch : Monitor AppOp AppAns Err Phase where
  may _ _ := True
  next phase op a phase' := (∀ e, a = .error e → Mild e) ∧ Moves op a phase phase'

/-- Once something was written, only mild errors are thrown. -/
def Fine {α : Type} (phase : Phase) (r : Except Err α) : Prop :=
  phase = .wrote → ∀ e, r = .error e → Mild e

/-! ## Handlers -/

def coreWatch : Monitor Op Op.Ans Err Phase := leftOf (leftOf watch)

section Handlers
variable {env : OutEnv} {accounts : AccountEnv} {user : AuthUser}

theorem looking_fine {α : Type} (inTx : Bool) (r : Except Err α) : Fine (.looking inTx) r :=
  fun wrote => nomatch wrote

theorem ok_fine {α : Type} (phase : Phase) (a : α) : Fine phase (.ok a : Except Err α) :=
  fun _ _ same => nomatch same

theorem mild_fine {α : Type} (phase : Phase) {e : Err} (h : Mild e) :
    Fine phase (.error e : Except Err α) := by
  rintro - e' same
  cases same
  exact h

theorem Fine.thrown {α β : Type} {phase : Phase} {e : Err}
    (h : Fine phase (.error e : Except Err α)) :
    Fine phase (.error e : Except Err β) := fun wrote => mild_fine phase (h wrote e rfl) wrote

theorem moves_looking {op : AppOp} {a : Except Err (AppAns op)} {inTx : Bool} {phase : Phase}
    (moved : Moves op a (.looking inTx) phase) (looks : Looks inTx op) :
    phase = .looking (opens inTx op a) :=
  moved.elim (·.2) fun h => absurd looks h.1

/-- Programs that throw mild errors only. -/
theorem within_fine {Op : Type} {Ans : Op → Type} {α : Type} (m : Monitor Op Ans Err Phase)
    {p : Prog Op Ans Err α} (free : ∀ phase op, m.may phase op)
    (mild : ∀ phase op a phase', m.next phase op a phase' → ∀ e, a = .error e → Mild e)
    (h : Within (fun _ => True) Mild Mild p) (phase : Phase) : Obeys m Fine phase p := by
  refine (h.obeys (I := fun _ => True) (fun s op _ _ => free s op)
    (fun s op a s' _ _ moved => ⟨trivial, ?_⟩)
    trivial).mono p fun _ _ ended _ => ended.2
  exact mild s op a s' moved

theorem core_fine {α : Type} {p : Async α} (h : Within (fun _ => True) Mild Mild p)
    (phase : Phase) :
    Obeys coreWatch Fine phase p :=
      within_fine coreWatch (fun _ _ => trivial) (fun _ _ _ _ moved => moved.1) h phase

/-- What only reads is still looking at its end. -/
theorem reads_fine {α : Type} {post : Bool → Except Err α → Prop} {inTx : Bool} {p : AppAsync α}
    (h : Obeys reader post inTx p) : Obeys watch Fine (.looking inTx) p := by
  induction p generalizing inTx with
  | done r => exact looking_fine inTx r
  | await op k ih =>
    refine ⟨trivial, fun a phase moved => ?_⟩
    have looks : Looks inTx op := by
      unfold Looks
      split
      · trivial
      · trivial
      · trivial
      · exact h.1
    rw [moves_looking moved.2 looks]
    exact ih a (h.2 a _ rfl)

theorem scopedTo_fine {α : Type} {work : Manager → Async α}
    (h : ∀ mgr inTx, Obeys coreWatch Fine (.looking inTx) (work mgr)) :
    Obeys coreWatch Fine (.looking false) (scopedTo user work) := by
  unfold scopedTo
  split
  · exact h .pool false
  refine obeys_call trivial ?_ fun e _ moved => mild_fine _ (moved.1 e rfl)
  intro _ phase began
  rw [moves_looking began.2 trivial]
  refine Obeys.orElse (q := Fine) ?_ (fun _ a _ => ok_fine _ a) ?_
  · refine Obeys.andThen (q := Fine) ?_ ?_ fun _ _ fine => fine.thrown
    · refine obeys_call trivial ?_ fun e _ moved => mild_fine _ (moved.1 e rfl)
      intro _ phase set
      rw [moves_looking set.2 trivial]
      exact h .tx _
    · intro phase a _
      exact obeys_call trivial (fun _ _ _ => ok_fine _ _)
        fun e _ moved => mild_fine _ (moved.1 e rfl)
  · intro phase e fine
    refine obeys_call trivial ?_ fun e _ moved => mild_fine _ (moved.1 e rfl)
    intro _ phase' rolled
    cases phase with
    | wrote => exact mild_fine _ (fine rfl e rfl)
    | looking inTx =>
      rw [moves_looking rolled.2 trivial]
      exact looking_fine _ _

theorem resetOne_fine (id : ℕ) (mgr : Manager) (inTx : Bool) :
    Obeys coreWatch Fine (.looking inTx) (resetOne id mgr) := by
  refine obeys_call trivial ?_ fun e _ moved => mild_fine _ (moved.1 e rfl)
  intro found phase moved
  rw [moves_looking moved.2 trivial]
  split
  · exact looking_fine _ _
  split
  · exact looking_fine _ _
  refine core_fine ?_ _
  refine within_bind (within_call trivial fun _ h => h) fun _ =>
    within_bind (within_call trivial fun _ h => h) fun again => ?_
  split
  · exact (within_throw _).mpr (by decide)
  · exact within_pure _

theorem retry_fine (id : ℕ) : Obeys coreWatch Fine (.looking false) (retry env.core id user) := by
  refine (scopedTo_fine (resetOne_fine id)).andThen ?_ fun _ _ fine => fine.thrown
  intro phase t _
  exact core_fine (within_bind (within_call trivial fun _ h => h) fun _ => within_pure _) phase

theorem retryBatch_fine (dto : RetryBatchDto) :
    Obeys coreWatch Fine (.looking false) (retryBatch env.core dto user) := by
  unfold retryBatch
  dsimp only
  split
  · exact looking_fine _ _
  have reset : ∀ mgr, Within (fun _ => True) Mild Mild
      (resetMatching (dto.status.getD .failed) dto.before dto.limit mgr) :=
    fun mgr => within_bind (within_call trivial fun _ h => h) fun found =>
      within_bind (within_forEach fun t _ => within_call trivial fun _ h => h)
        fun _ => within_pure _
  refine (scopedTo_fine fun mgr inTx => core_fine (reset mgr) _).andThen ?_
    fun _ _ fine => fine.thrown
  intro phase ids _
  refine core_fine ?_ phase
  exact within_bind (within_forEach fun id _ => within_call trivial fun _ h => h)
    fun _ => within_pure _

theorem createUser_fine (dto : CreateUserDto) :
    Obeys (rightOf watch) Fine (.looking false) (AuthService.createUser accounts dto) := by
  refine obeys_call trivial ?_ fun e _ moved => mild_fine _ (moved.1 e rfl)
  intro found phase moved
  rw [moves_looking moved.2 trivial]
  split
  · exact looking_fine _ _
  refine within_fine (rightOf watch) (fun _ _ => trivial) (fun _ _ _ _ moved => moved.1) ?_ _
  refine within_bind (within_call trivial fun _ h => h) fun _ => ?_
  exact within_bind (within_call trivial fun _ h => h) fun _ => within_pure _

theorem remove_fine (id : ℕ) :
    Obeys (leftOf watch) Fine (.looking false) (SubscriptionsService.remove user id) := by
  refine obeys_call trivial ?_ fun e _ moved => mild_fine _ (moved.1 e rfl)
  intro found phase moved
  rw [moves_looking moved.2 trivial]
  split
  · exact looking_fine _ _
  · exact within_fine (leftOf watch) (fun _ _ => trivial) (fun _ _ _ _ moved => moved.1)
      (within_call trivial fun _ h => h) _

theorem subscriptions_reads :
    Obeys reader (fun _ _ => True) false (fromOut (SubscriptionsService.list user)) :=
  ⟨trivial, fun _ _ _ => trivial⟩

theorem create_fine (dto : CreateSubscriptionDto) :
    Obeys (leftOf watch) Fine (.looking false) (SubscriptionsService.create user dto) := by
  refine within_fine (leftOf watch) (fun _ _ => trivial) (fun _ _ _ _ moved => moved.1) ?_ _
  unfold SubscriptionsService.create
  split
  · exact within_call trivial fun _ h => h
  · exact within_bind (within_call trivial fun _ h => h) fun _ => within_call trivial fun _ h => h

/-- What a request ends with is no refusal once something was written. -/
def Answered {L : NodeCrypto.Library} (phase : Phase) (r : Except Err (HttpReply L)) : Prop :=
  phase = .wrote → ∀ reply, r = .ok reply → ¬ (400 ≤ reply.status ∧ reply.status < 500)

/-- The handler's own reply is below 400. -/
def Handled {L : NodeCrypto.Library} (phase : Phase) (r : Except Err (HttpReply L)) : Prop :=
  Fine phase r ∧ ∀ reply, r = .ok reply → reply.status < 400

theorem handler_fine (carrier : List (String × String)) (route : Route) :
    Obeys watch Handled (.looking false) (handler env accounts user carrier route) := by
  have ends {α : Type} {p : AppAsync α} {status : ℕ} {body : α → ReplyBody env.core.crypto}
      (below : status < 400)
      (h : Obeys watch Fine (.looking false) p) :
      Obeys watch Handled (.looking false) (p.bind fun a => pure ⟨status, body a⟩) := by
    refine h.andThen (fun phase a _ => ⟨ok_fine _ _, ?_⟩)
      fun phase e fine => ⟨fine.thrown, fun _ same => nomatch same⟩
    rintro reply same
    cases same
    exact below
  have core {α : Type} {p : Async α} (h : Obeys coreWatch Fine (.looking false) p) :
      Obeys watch Fine (.looking false) (fromCore p) := (obeys_left _).mpr ((obeys_left _).mpr h)
  have reads {α : Type} {p : Async α} (h : Obeys coreReader (Level false) false p) :
      Obeys watch Fine (.looking false) (fromCore p) :=
        reads_fine ((obeys_left _).mpr ((obeys_left _).mpr h))
  cases route with
  | onUpload payload =>
    exact ends (by decide)
      (core (core_fine ((accept_within payload carrier).mono (fun _ _ => trivial) fun _ h => h) _))
  | login dto => exact ends (by decide) (reads_fine ((obeys_right _).mpr (login_reads dto)))
  | createUser dto => exact ends (by decide) ((obeys_right _).mpr (createUser_fine dto))
  | listTransfers query => exact ends (by decide) (reads (list_reads query))
  | getTransfer id => exact ends (by decide) (reads (getById_reads _))
  | download id =>
    refine (reads (download_reads _)).andThen ?_ fun phase e fine =>
      ⟨fine.thrown, fun _ same => nomatch same⟩
    refine fun phase d _ => sendFile_obeys ⟨ok_fine _ _, ?_⟩
      fun message => ⟨mild_fine _ rfl, fun _ same => nomatch same⟩
    rintro reply same
    cases same
    exact (by decide : 200 < 400)
  | retry id => exact ends (by decide) (core (retry_fine _))
  | retryBatch dto => exact ends (by decide) (core (retryBatch_fine dto))
  | createSubscription dto => exact ends (by decide) ((obeys_left _).mpr (create_fine dto))
  | listSubscriptions =>
    exact ends (by decide) (reads_fine subscriptions_reads)
  | removeSubscription id => exact ends (by decide) ((obeys_left _).mpr (remove_fine _))
  | usage tenant => exact ends (by decide) (reads (summary_reads _))

theorem handle_answered (secret : String) (who : Option AuthUser) (call : HttpCall) :
    Obeys watch Answered (.looking false) (handle env accounts secret who call) := by
  unfold handle
  split
  · exact fun wrote => nomatch wrote
  · refine Obeys.orElse (handler_fine call.carrier call.route) ?_ ?_
    · rintro phase reply ⟨-, below⟩ - reply' same
      cases same
      have := below reply rfl
      omega
    · rintro phase e ⟨fine, -⟩ wrote reply same
      cases same
      rw [mild_status (fine wrote e rfl)]
      omega

end Handlers

/-! ## Calls -/

/-- The rejections that the choice asks for are mild. -/
def Foreign (c : AppChoice) : Prop :=
  ∀ name message, c.out.core.fault = some (name, message) ∨ c.account.fault = some (name, message) →
    Mild (.other name message)

/-- Calls are rejected with foreign errors only. -/
def Driven {env : AppEnv} (_ : AppWorld env) : AppAct → Prop
  | .resume _ c => Foreign c
  | _ => True

section Calls
variable {env : AppEnv} {s s' : AppState} {pid : ℕ} {c : AppChoice}

/-- Looking changes nothing, and a transaction stays blank. -/
theorem look_step {op : AppOp} {inTx : Bool} {a : Except Err (AppAns op)} (looks : Looks inTx op)
    (blank : Blank pid s.out inTx) (ran : execApp env pid op c s = some (a, s')) :
    Unchanged s.out s'.out ∧ s'.accounts.users = s.accounts.users ∧
    Blank pid s'.out (opens inTx op a) := by
  unfold Looks at looks
  split at looks
  · obtain ⟨out, inner, rfl⟩ := out_cases ran
    rcases EventPrivacy.net_cases inner with done | ⟨name, message, rejected⟩
    · cases done
      exact ⟨.refl _, rfl, blank⟩
    · cases rejected
      exact ⟨.refl _, rfl, blank⟩
  · obtain ⟨accounts, inner, rfl⟩ := account_cases pid ran
    rcases AccountAuthority.execAccount_cases inner with done | ⟨e, -, rfl⟩
    · cases done
      exact ⟨.refl _, rfl, blank⟩
    · exact ⟨.refl _, rfl, blank⟩
  · obtain ⟨accounts, inner, rfl⟩ := account_cases pid ran
    rcases AccountAuthority.execAccount_cases inner with done | ⟨e, -, rfl⟩
    · cases done
      exact ⟨.refl _, rfl, blank⟩
    · exact ⟨.refl _, rfl, blank⟩
  · exact read_step looks blank ran

theorem db_mild {now : ℕ} {db db' : Db} {op : DbOp} {e : Err}
    (ran : db.exec now pid op = some (.error e, db')) :
    Mild e := by
  cases op with
  | resetForRetry mgr id =>
    cases mgr with
    | pool =>
      simp only [Db.exec, Db.updateRow] at ran
      split at ran <;> cases ran
    | tx =>
      simp only [Db.exec] at ran
      repeat' split at ran
      all_goals cases ran
      rfl
  | _ =>
    simp only [Db.exec, Db.updateRow] at ran
    repeat' split at ran
    all_goals cases ran
    all_goals rfl

theorem store_mild {env : Env} {s s' : State} {op : StoreOp} {e : Err}
    (ran : execStore env pid s op = (.error e, s')) : Mild e := by
  cases op <;> simp only [execStore] at ran
  all_goals repeat' split at ran
  all_goals cases ran
  all_goals rfl

theorem volume_mild {env : Env} {s : State} {op : VolumeOp} {e : Err}
    (ran : execVolume env s op = .error e) :
    Mild e := by
  cases op <;> simp only [execVolume] at ran
  all_goals repeat' split at ran
  all_goals cases ran
  all_goals rfl

/-- What the services call fails mildly, and so does what is asked to fail. -/
theorem core_mild {env : Env} {s s' : State} {op : Op} {c : Choice} {e : Err}
    (foreign : ∀ name message, c.fault = some (name, message) → Mild (.other name message))
    (ran : exec env pid op c s = some (.error e, s')) : Mild e := by
  have performed : perform env pid c s op = some (.error e, s') → Mild e := by
    intro done
    cases op with
    | db op =>
      simp only [perform] at done
      split at done
      · cases done
      · rename_i read
        cases done
        exact db_mild read
    | volume op =>
      simp only [perform, Option.some.injEq, Prod.mk.injEq] at done
      exact volume_mild done.1
    | store op => exact store_mild (Option.some.inj done)
    | _ => cases done
  rw [exec] at ran
  split at ran
  · exact performed ran
  · rename_i asked
    split at ran
    · cases ran
      exact foreign _ _ asked
    · exact performed ran

theorem net_mild {c : OutChoice} {s s' : OutState} {env : OutEnv} {op : NetOp} {e : Err}
    (foreign : ∀ name message, c.core.fault = some (name, message) → Mild (.other name message))
    (ran : execOut env pid (.inr op) c s = some (.error e, s')) : Mild e := by
  have performed : execNet c s op = (.error e, s') → Mild e := by
    intro done
    cases op <;> simp only [execNet] at done
    all_goals try split at done
    all_goals cases done
    rfl
  cases op with
  | randomSecret => cases ran
  | _ =>
    simp only [execOut] at ran
    split at ran
    · exact performed (Option.some.inj ran)
    · rename_i asked
      cases ran
      exact foreign _ _ asked

theorem account_mild {env : AccountEnv} {op : AccountOp} {c : AccountChoice} {s s' : AccountState}
    {e : Err}
    (foreign : ∀ name message, c.fault = some (name, message) → Mild (.other name message))
    (ran : execAccount env op c s = some (.error e, s')) : Mild e := by
  have performed : performAccount env c s op = (.error e, s') → Mild e := by
    intro done
    cases op with
    | save user =>
      simp only [performAccount, saveUser] at done
      repeat' split at done
      all_goals cases done
      all_goals rfl
    | _ => cases done
  unfold execAccount at ran
  split at ran
  · exact performed (Option.some.inj ran)
  · rename_i asked
    split at ran
    · cases ran
      exact foreign _ _ asked
    · exact performed (Option.some.inj ran)

theorem answer_mild {op : AppOp} {e : Err} (foreign : Foreign c)
    (ran : execApp env pid op c s = some (.error e, s')) : Mild e := by
  cases op with
  | inl op =>
    obtain ⟨out, inner, -⟩ := out_cases ran
    cases op with
    | inl op =>
      obtain ⟨core, inner', -⟩ := EventPrivacy.core_cases inner
      exact core_mild (fun name message asked => foreign name message (.inl asked)) inner'
    | inr op => exact net_mild (fun name message asked => foreign name message (.inl asked)) inner
  | inr op =>
    obtain ⟨accounts, inner, -⟩ := account_cases pid ran
    exact account_mild (fun name message asked => foreign name message (.inr asked)) inner

end Calls

/-! ## Runs -/

section Runs
variable {env : AppEnv} {s s' : AppState}

def End (env : AppEnv) (phase : Phase) (r : Except Err (AppReply env.out.core.crypto)) : Prop :=
  phase = .wrote → ∀ reply, r = .ok (.http reply) → ¬ (400 ≤ reply.status ∧ reply.status < 500)

/-- A request is in some phase, and while it is looking its transaction is blank. -/
def Watched (env : AppEnv) (s : AppState) (t : AppThread env) : Prop :=
  ∀ who call, t.task = .http who call → ∃ phase, Obeys watch (End env) phase t.prog ∧
    ∀ inTx, phase = .looking inTx → Blank t.pid s.out inTx

theorem Watched.keep {t : AppThread env} (h : Watched env s t)
    (same : s'.out.core.db.tx t.pid = s.out.core.db.tx t.pid) : Watched env s' t := by
  intro who call task
  obtain ⟨phase, obeys, blank⟩ := h who call task
  refine ⟨phase, obeys, fun inTx looking inside => ?_⟩
  rw [same]
  exact blank inTx looking inside

theorem watched_code (task : AppTask) (n : ℕ) (s : AppState) :
    Watched env s ⟨n, task, codeApp env task⟩ := by
  rintro who call rfl
  refine ⟨.looking false, ?_, fun inTx looking inside => ?_⟩
  · refine (handle_answered env.webhookSecret who call).andThen ?_
      fun phase e _ _ reply same => by cases same
    rintro phase reply answered wrote reply' same
    cases same
    exact answered wrote reply rfl
  · cases looking
    cases inside

/-- The answer of a call: it changed nothing, or the request has written from now on. -/
theorem watched_answer {t : AppThread env} {c : AppChoice} {op : AppOp}
    {k : Except Err (AppAns op) → AppAsync (AppReply env.out.core.crypto)}
    {a : Except Err (AppAns op)} (h : Watched env s t) (foreign : Foreign c)
    (at_call : t.prog = .await op k) (ran : execApp env t.pid op c s = some (a, s'))
    {who : Option AuthUser} {call : HttpCall} (task : t.task = .http who call) :
    Obeys watch (End env) .wrote (k a) ∨
    (Unchanged s.out s'.out ∧ s'.accounts.users = s.accounts.users ∧
      ∃ inTx, Obeys watch (End env) (.looking inTx) (k a) ∧ Blank t.pid s'.out inTx) := by
  obtain ⟨phase, obeys, blank⟩ := h who call task
  rw [at_call] at obeys
  have mild : ∀ e, a = .error e → Mild e := by
    rintro e rfl
    exact answer_mild foreign ran
  cases phase with
  | wrote => exact .inl (obeys.2 a .wrote ⟨mild, rfl⟩)
  | looking inTx =>
    by_cases looks : Looks inTx op
    · obtain ⟨same, users, blank'⟩ := look_step looks (blank inTx rfl) ran
      exact .inr ⟨same, users, opens inTx op a, obeys.2 a _ ⟨mild, .inl ⟨looks, rfl⟩⟩, blank'⟩
    · exact .inl (obeys.2 a .wrote ⟨mild, .inr ⟨looks, rfl⟩⟩)

theorem watched (env : AppEnv) :
    Threadwise (appMachine env) Driven (fun _ => True) (Watched env) where
  request w q s task _ _ hT entered := by
    have same : s.out.core.db = w.store.out.core.db := enterApp_db entered
    exact ⟨trivial, fun t ht => (hT t ht).keep (by rw [same]), fun n => watched_code task n s⟩
  resume w pid c l r t op k a s foreign _ hT apart found at_call answered := by
    obtain ⟨hmem, hothers⟩ := mem_of_focus found
    refine ⟨trivial, fun t' ht =>
      (hT t' (hothers t' ht)).keep (app_tx_other answered (apart t' ht)), ?_⟩
    intro who call task
    obtain ⟨-, rfl⟩ := focus_some found
    rcases watched_answer (hT t hmem) foreign at_call answered task with wrote | ⟨-, -,
      inTx, obeys, blank⟩
    · exact ⟨.wrote, wrote, fun _ looking => nomatch looking⟩
    · refine ⟨.looking inTx, obeys, fun inTx' looking => ?_⟩
      cases looking
      exact blank
  settle w pid l r t out _ _ hT found ended := by
    refine ⟨trivial, fun t' ht => (hT t' ((mem_of_focus found).2 t' ht)).keep ?_,
      fun n task _ => watched_code task n _⟩
    exact congrArg (·.tx t'.pid) (finishApp_db t.task out w.store)
  crash w pid l r t _ _ hT apart found := by
    refine ⟨trivial, fun t' ht => (hT t' ((mem_of_focus found).2 t' ht)).keep ?_⟩
    exact dropApp_tx_other t.task w.store (apart t' ht)
  outside w e s _ _ hT happened := by
    have same : s.out.core.db = w.store.out.core.db := outsideApp_db happened
    exact ⟨trivial, fun t ht => (hT t ht).keep (by rw [same])⟩

/-- Once a request has written, it has written for good. -/
theorem wrote_for_good {w w' : AppWorld env} (path : Reach (appMachine env) Driven w w') {pid : ℕ}
    (old : pid < w.nextPid)
    (here : ∀ t ∈ w.threads, t.pid = pid → Obeys watch (End env) .wrote t.prog) :
    ∀ t ∈ w'.threads, t.pid = pid → Obeys watch (End env) .wrote t.prog := by
  refine path.program_keeps old here ?_
  intro w c op k a s foreign answered obeys
  refine obeys.2 a .wrote ⟨?_, rfl⟩
  rintro e rfl
  exact answer_mild foreign answered

/-- A request that is answered with a status from 400 to 499, in any run of the
application: none of its steps changed rows, events, usage, subscriptions, queues,
objects, messages or users. -/
theorem refused_changes_nothing {w₀ w w' w'' : AppWorld env} (idle : w₀.threads = [])
    (path : Reach (appMachine env) Driven w₀ w) {pid : ℕ} {c : AppChoice} (foreign : Foreign c)
    (move : (appMachine env).step w (.resume pid c) = some w') {t : AppThread env}
    (ht : t ∈ w.threads) (hpid : t.pid = pid) {who : Option AuthUser} {call : HttpCall}
    (task : t.task = .http who call) (later : Reach (appMachine env) Driven w' w'')
    {t' : AppThread env} (ht' : t' ∈ w''.threads) (hpid' : t'.pid = pid)
    {reply : HttpReply env.out.core.crypto} (ended : t'.prog = .done (.ok (.http reply)))
    (refused : 400 ≤ reply.status ∧ reply.status < 500) :
    Unchanged w.store.out w'.store.out ∧ w'.store.accounts.users = w.store.accounts.users := by
  have numbered := (numbered_of_none idle).reach path
  obtain ⟨-, threads⟩ := (watched env).holds (numbered_of_none idle) trivial
    (by rw [idle]; intro t ht; cases ht) path
  cases Machine.step_move move with
  | resume l r t₀ op k a s found at_call answered eq =>
    obtain ⟨hmem, -⟩ := mem_of_focus found
    have same : t₀ = t :=
      List.inj_on_of_nodup_map numbered.distinct hmem ht ((focus_some found).2.trans hpid.symm)
    subst same hpid eq
    rcases watched_answer (threads t₀ ht) foreign at_call answered task with
      wrote | ⟨same, users, -⟩
    · exfalso
      have here : ∀ t ∈ l ++ { t₀ with prog := k a } :: r, t.pid = t₀.pid →
          Obeys watch (End env) .wrote t.prog := by
        intro t ht own
        rcases mem_middle.mp ht with rfl | ht
        · exact wrote
        · exact absurd own (numbered.others_ne found t ht)
      have still := wrote_for_good later (numbered.below t₀ hmem) here t' ht' hpid'
      rw [ended] at still
      exact still rfl reply rfl refused
    · exact ⟨same, users⟩

/-- A test for `Driven`: no call is asked to fail. -/
def unasked (_ : AppWorld env) : AppAct → Bool
  | .resume _ c => c.out.core.fault.isNone && c.account.fault.isNone
  | _ => true

theorem unasked_sound (w : AppWorld env) (a : AppAct) (h : unasked w a = true) : Driven w a := by
  cases a with
  | resume pid c =>
    obtain ⟨out, account⟩ := Bool.and_eq_true_iff.mp h
    rintro name message (asked | asked)
    · rw [asked] at out
      cases out
    · rw [asked] at account
      cases account
  | _ => trivial

def isHttp : AppTask → Bool
  | .service _ => false
  | .start => false
  | .http _ _ => true

/-- The status of a thread's reply, if it has one. -/
def statusOf (t : AppThread env) : Option ℕ :=
  match t.prog with
  | .done (.ok (.http reply)) => some reply.status
  | _ => none

theorem statusOf_reply {t : AppThread env} {status : ℕ} (h : statusOf t = some status) :
    ∃ reply, t.prog = .done (.ok (.http reply)) ∧ reply.status = status := by
  unfold statusOf at h
  split at h
  · rename_i reply ended
    exact ⟨reply, ended, Option.some.inj h⟩
  · cases h

/-- The seeded administrator logs in and asks for a user of the same name. -/
def sampleDuplicate : List AppAct :=
  [.request .start, .resume 0 {}, .resume 0 { account := { salt := "$" } }, .resume 0 {}, .settle 0,
    .request (.http (sampleCall (.login ⟨"admin", "change me soon"⟩) none)), .resume 1 {},
    .resume 1 {}, .resume 1 {}, .settle 1,
    .request
      (.http (sampleCall (.createUser ⟨"admin", "correct horse", [.viewer], none⟩) (some 0)))]

theorem refused_changes_nothing_sample :
    ∃ (w w' : AppWorld sampleApp) (t t' : AppThread sampleApp) (who : Option AuthUser)
    (call : HttpCall), Reach (appMachine sampleApp) Driven sampleAppWorld w ∧
    (appMachine sampleApp).step w (.resume 2 {}) = some w' ∧ t ∈ w.threads ∧ t.pid = 2 ∧
    t.task = .http who call ∧
    t' ∈ w'.threads ∧ t'.pid = 2 ∧ statusOf t' = some 409 ∧ Unchanged w.store.out w'.store.out ∧
    w'.store.accounts.users = w.store.accounts.users := by
  have run : ((appMachine sampleApp).stepsIf unasked sampleAppWorld sampleDuplicate).map (fun w =>
      (w.threads.map (fun t => (t.pid, isHttp t.task)),
        ((appMachine sampleApp).step w (.resume 2 {})).map fun w' => w'.threads.map
          fun t => (t.pid, statusOf t))) =
      some ([(2, true)], some [(2, some 409)]) := by decide +kernel
  obtain ⟨w, hw, seen⟩ := Option.map_eq_some_iff.mp run
  obtain ⟨before, after⟩ := Prod.mk.inj seen
  obtain ⟨w', move, replied⟩ := Option.map_eq_some_iff.mp after
  obtain ⟨t, ht, htask⟩ := List.map_eq_singleton_iff.mp before
  obtain ⟨t', ht', hreply⟩ := List.map_eq_singleton_iff.mp replied
  obtain ⟨hpid, http⟩ := Prod.mk.inj htask
  obtain ⟨hpid', status⟩ := Prod.mk.inj hreply
  have hmem : t ∈ w.threads := by rw [ht]; exact List.mem_singleton_self t
  have hmem' : t' ∈ w'.threads := by rw [ht']; exact List.mem_singleton_self t'
  obtain ⟨reply, ended, hstatus⟩ := statusOf_reply status
  have path := reach_of_stepsIf unasked_sound .start _ hw
  have foreign : Foreign {} := unasked_sound w (.resume 2 {}) rfl
  cases task : t.task with
  | http who call =>
    obtain ⟨same, users⟩ :=
      refused_changes_nothing rfl path foreign move hmem hpid task .start hmem' hpid' ended
      (by rw [hstatus]; decide)
    exact ⟨w, w', t, t', who, call, path, move, hmem, hpid, task, hmem', hpid', status, same, users⟩
  | _ =>
    rw [task] at http
    cases http

end Runs

end Refusals
