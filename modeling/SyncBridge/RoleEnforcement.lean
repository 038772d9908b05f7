import SyncBridge.AccountAuthority
import SyncBridge.EventPrivacy
import SyncBridge.Gateway
import SyncBridge.OutboxSafety

/-!
# What a request may change

Whatever else is going on, a step of an HTTP request changes stored data only when the
request came with the token of a stored user who is an operator or an administrator, or
with the webhook secret. Users are added on behalf of an administrator only. The handlers
of the other requests do open transactions, to set the tenant; nothing is written in
them, so their commit changes nothing either.
-/

namespace RoleEnforcement

open AwaitPrograms CombinedCalls ThreadPools GrowingKnowledge NodeCrypto Entities Database
open TableInvariants Calls Ingestion Management Worker Orchestrator Footprints Outbound
open Authentication Accounts Gateway

/-- An operator or administrator. -/
def Manages (who : Option AuthUser) : Prop := ∃ user, who = some user ∧ mayManage user = true

def Administers (who : Option AuthUser) : Prop := ∃ user, who = some user ∧ Role.admin ∈ user.roles

/-- An upload hook that knows the secret. -/
def Hooked (secret : String) (call : HttpCall) : Prop :=
  (∃ payload, call.route = .onUpload payload) ∧ webhookAllowed secret call = true

def Privileged (secret : String) (who : Option AuthUser) (call : HttpCall) : Prop :=
  Manages who ∨ Hooked secret call

/-- Rows, subscriptions, queues, objects and messages are as before. -/
structure Unchanged (s s' : OutState) : Prop where
  transfers : s'.core.db.transfers = s.core.db.transfers
  outbox : s'.core.db.outbox = s.core.db.outbox
  usage : s'.core.db.usage = s.core.db.usage
  subscriptions : s'.core.db.subscriptions = s.core.db.subscriptions
  queues : s'.core.queues = s.core.queues
  kafka : s'.core.kafka = s.core.kafka
  objects : s'.core.store = s.core.store
  sent : s'.sent = s.sent
  deliveryRuns : s'.deliveryRuns = s.deliveryRuns
  alertRuns : s'.alertRuns = s.alertRuns

theorem Unchanged.refl (s : OutState) : Unchanged s s :=
  ⟨rfl, rfl, rfl, rfl, rfl, rfl, rfl, rfl, rfl, rfl⟩

/-! ## Reading only -/

/-- Calls that write nothing; a commit is one of a transaction that was opened here. -/
def Reads (inTx : Bool) : AppOp → Prop
  | .inl (.inl (.db (.findOne _ _))) => True
  | .inl (.inl (.db (.findAndCount _ _ _ _))) => True
  | .inl (.inl (.db (.findUsage _))) => True
  | .inl (.inl (.db .begin)) => True
  | .inl (.inl (.db (.setCurrentTenant _))) => True
  | .inl (.inl (.db .commit)) => inTx = true
  | .inl (.inl (.db .rollback)) => True
  | .inl (.inl (.store (.getObject _ _))) => True
  | .inl (.inr (.listSubscriptions _)) => True
  | .inr (.findOne _) => True
  | .inr (.compare _ _) => True
  | .inr (.sign _) => True
  | _ => False

/-- Whether a transaction is open after a call. -/
def opens (inTx : Bool) : (op : AppOp) → Except Err (AppAns op) → Bool
  | .inl (.inl (.db .begin)), .ok _ => true
  | .inl (.inl (.db .commit)), .ok _ => false
  | .inl (.inl (.db .rollback)), _ => false
  | _, _ => inTx

def reader : Monitor AppOp AppAns Err Bool where
  may := Reads
  next inTx op a inTx' := inTx' = opens inTx op a

/-- The transaction of the thread has written nothing. -/
def Blank (pid : ℕ) (s : OutState) (inTx : Bool) : Prop :=
  inTx = true → ∃ tx, s.core.db.tx pid = some tx ∧ tx.writes = []

section Steps
variable {env : AppEnv} {s s' : AppState} {pid : ℕ} {c : AppChoice}

theorem out_cases {op : Op ⊕ NetOp} {a : Except Err (Either Op.Ans NetOp.Ans op)}
    (ran : execApp env pid (.inl op) c s = some (a, s')) :
    ∃ out, execOut env.out pid op c.out s.out = some (a, out) ∧ s' = { s with out := out } := by
  simp only [execApp] at ran
  split at ran
  · cases ran
  · rename_i out inner
    cases ran
    exact ⟨out, inner, rfl⟩

variable (pid) in
theorem account_cases {op : AccountOp} {a : Except Err op.Ans}
    (ran : execApp env pid (.inr op) c s = some (a, s')) :
    ∃ accounts, execAccount env.accounts op c.account s.accounts = some (a, accounts) ∧
      s' = { s with accounts := accounts } := by
  simp only [execApp] at ran
  split at ran
  · cases ran
  · rename_i accounts inner
    cases ran
    exact ⟨accounts, inner, rfl⟩

/-- Statements that write nothing, and the transaction they are in. -/
theorem db_read {now : ℕ} {db db' : Db} {op : DbOp} {inTx : Bool} {a : Except Err op.Ans}
    (reads : Reads inTx (.inl (.inl (.db op))))
    (blank : inTx = true → ∃ tx, db.tx pid = some tx ∧ tx.writes = [])
    (ran : db.exec now pid op = some (a, db')) :
    (db'.transfers = db.transfers ∧ db'.outbox = db.outbox ∧ db'.usage = db.usage ∧
      db'.subscriptions = db.subscriptions) ∧
    (opens inTx (.inl (.inl (.db op))) a = true → ∃ tx, db'.tx pid = some tx ∧ tx.writes = []) := by
  cases op with
  | findOne mgr id =>
    cases ran
    exact ⟨⟨rfl, rfl, rfl, rfl⟩, blank⟩
  | findAndCount mgr status limit offset =>
    cases ran
    exact ⟨⟨rfl, rfl, rfl, rfl⟩, blank⟩
  | findUsage tenantId =>
    cases ran
    exact ⟨⟨rfl, rfl, rfl, rfl⟩, blank⟩
  | begin =>
    cases ran
    exact ⟨⟨rfl, rfl, rfl, rfl⟩, fun _ => ⟨_, tx_setTx _ _ _, rfl⟩⟩
  | setCurrentTenant tenantId =>
    simp only [Db.exec] at ran
    split at ran
    · cases ran
      exact ⟨⟨rfl, rfl, rfl, rfl⟩, blank⟩
    · rename_i tx isOpen
      cases ran
      refine ⟨⟨rfl, rfl, rfl, rfl⟩, fun inside => ⟨_, tx_setTx _ _ _, ?_⟩⟩
      obtain ⟨tx', same, empty⟩ := blank inside
      cases isOpen.symm.trans same
      exact empty
  | commit =>
    obtain ⟨tx, isOpen, empty⟩ := blank reads
    simp only [Db.exec, isOpen] at ran
    cases ran
    have same : db.applyWrites tx = db := by rw [Db.applyWrites, empty]; rfl
    rw [same]
    exact ⟨⟨rfl, rfl, rfl, rfl⟩, fun inside => by cases inside⟩
  | rollback =>
    cases ran
    exact ⟨⟨rfl, rfl, rfl, rfl⟩, fun inside => by cases inside⟩
  | _ => exact reads.elim

theorem core_read {op : Op} {inTx : Bool} {out : OutState} {core : State} {a : Except Err op.Ans}
    {c : Choice} {env : Env} (reads : Reads inTx (.inl (.inl op))) (blank : Blank pid out inTx)
    (ran : exec env pid op c out.core = some (a, core)) :
    Unchanged out { out with core := core } ∧
      Blank pid { out with core := core } (opens inTx (.inl (.inl op)) a) := by
  cases op with
  | db op =>
    rcases exec_db ran with ⟨name, message, rfl, rfl⟩ | ⟨db', read, rfl⟩
    · refine ⟨.refl _, ?_⟩
      cases op with
      | rollback => exact fun inside => by cases inside
      | _ => exact blank
    · obtain ⟨⟨transfers, outbox, usage, subscriptions⟩, blank'⟩ := db_read reads blank read
      exact ⟨⟨transfers, outbox, usage, subscriptions, rfl, rfl, rfl, rfl, rfl, rfl⟩, blank'⟩
  | store op =>
    cases op with
    | getObject bucket key =>
      have same : core = out.core := by
        rcases exec_cases ran with ⟨_, _, _, rfl⟩ | performed
        · rfl
        · simp only [perform, execStore] at performed
          split at performed <;> cases performed <;> rfl
      subst same
      exact ⟨.refl _, blank⟩
    | _ => exact reads.elim
  | _ => exact reads.elim

theorem read_step {op : AppOp} {inTx : Bool} {a : Except Err (AppAns op)} (reads : Reads inTx op)
    (blank : Blank pid s.out inTx) (ran : execApp env pid op c s = some (a, s')) :
    Unchanged s.out s'.out ∧ s'.accounts.users = s.accounts.users ∧
    Blank pid s'.out (opens inTx op a) := by
  cases op with
  | inl op =>
    obtain ⟨out, inner, rfl⟩ := out_cases ran
    cases op with
    | inl op =>
      obtain ⟨core, inner', rfl⟩ := EventPrivacy.core_cases inner
      obtain ⟨same, blank'⟩ := core_read reads blank inner'
      exact ⟨same, rfl, blank'⟩
    | inr op =>
      cases op with
      | listSubscriptions tenantId =>
        rcases EventPrivacy.net_cases inner with done | ⟨name, message, rejected⟩
        · cases done
          exact ⟨.refl _, rfl, blank⟩
        · cases rejected
          exact ⟨.refl _, rfl, blank⟩
      | _ => exact reads.elim
  | inr op =>
    obtain ⟨accounts, inner, rfl⟩ := account_cases pid ran
    have same : accounts.users = s.accounts.users := by
      rcases AccountAuthority.execAccount_cases inner with done | ⟨e, -, rfl⟩
      · cases op with
        | findOne username => cases done; rfl
        | compare password passwordHash => cases done; rfl
        | sign payload => cases done; rfl
        | _ => exact reads.elim
      · rfl
    exact ⟨.refl _, same, blank⟩

/-- Users only change when one is saved. -/
theorem users_step {op : AppOp} {a : Except Err (AppAns op)}
    (ran : execApp env pid op c s = some (a, s')) :
    s'.accounts.users = s.accounts.users ∨ ∃ user, op = .inr (.save user) := by
  cases op with
  | inl op =>
    obtain ⟨out, -, rfl⟩ := out_cases ran
    exact .inl rfl
  | inr op =>
    obtain ⟨accounts, inner, rfl⟩ := account_cases pid ran
    rcases AccountAuthority.execAccount_cases inner with done | ⟨e, -, rfl⟩
    · cases op with
      | save user => exact .inr ⟨user, rfl⟩
      | _ => cases done; exact .inl rfl
    · exact .inl rfl

end Steps

/-! ## Handlers -/

/-- The observer as the services of the orchestrator see it. -/
def coreReader : Monitor Op Op.Ans Err Bool := leftOf (leftOf reader)

/-- The transaction is as open after the program as it was before. -/
def Level {α : Type} (inTx inTx' : Bool) (_ : Except Err α) : Prop := inTx' = inTx

section Handlers
variable {env : OutEnv} {accounts : AccountEnv} {user : AuthUser}

theorem scopedTo_reads {α : Type} (user : AuthUser) {work : Manager → Async α}
    (h : ∀ mgr inTx, Obeys coreReader (Level inTx) inTx (work mgr)) :
    Obeys coreReader (Level false) false (scopedTo user work) := by
  unfold scopedTo
  split
  · exact h .pool false
  refine obeys_call trivial ?_ fun _ _ next => next
  intro _ inTx began
  subst began
  refine Obeys.orElse (q := fun inTx r => ∀ a, r = .ok a →
    inTx = false) ?_ (fun _ a ended => ended a rfl) ?_
  · refine Obeys.andThen (q := Level true) ?_ ?_ fun _ _ _ a same => by cases same
    · refine obeys_call trivial ?_ fun _ _ next => next
      intro _ inTx next
      subst next
      exact h .tx true
    · intro inTx a level
      subst level
      refine obeys_call rfl ?_ fun _ _ _ a same => by cases same
      intro _ inTx next
      exact fun _ _ => next
  · intro _ e _
    refine obeys_call trivial ?_ fun _ _ next => next
    intro _ inTx next
    exact next

theorem list_reads (query : ListTransfersQueryDto) :
    Obeys coreReader (Level false) false (Management.list query user) := by
  apply scopedTo_reads
  intro mgr inTx
  refine Obeys.andThen (q := Level inTx) ?_ (fun _ _ level => level) fun _ _ level => level
  exact ⟨trivial, fun _ _ next => next⟩

theorem getById_reads (id : ℕ) :
    Obeys coreReader (Level false) false (Management.getById id user) := by
  refine Obeys.andThen (q := Level false) ?_ ?_ fun _ _ level => level
  · exact scopedTo_reads user fun mgr inTx => ⟨trivial, fun _ _ next => next⟩
  · intro inTx transfer level
    split <;> exact level

theorem download_reads (id : ℕ) :
    Obeys coreReader (Level false) false (Management.download env.core id user) := by
  refine (getById_reads id).andThen ?_ fun _ _ level => level
  intro inTx transfer level
  subst level
  dsimp only
  split
  · rfl
  split
  · rfl
  refine Obeys.andThen (q := Level false) ⟨trivial, fun _ _ next => next⟩ ?_ fun _ _ level => level
  intro inTx obj level
  subst level
  split
  · refine Obeys.andThen (q := Level false) ?_ (fun _ _ level => level) fun _ _ level => level
    unfold decryption
    split
    · rfl
    split <;> rfl
  · rfl

theorem summary_reads (tenantId : String) :
    Obeys coreReader (Level false) false (summary env.core tenantId) := by
  refine Obeys.andThen (q := Level false) ?_ (fun _ _ level => level) fun _ _ level => level
  refine Obeys.andThen (q := Level false) ?_ (fun _ _ level => level) fun _ _ level => level
  exact ⟨trivial, fun _ _ next => next⟩

theorem login_reads (dto : LoginDto) :
    Obeys (rightOf reader) (Level false) false
      (AuthService.login accounts dto.username dto.password) := by
  refine Obeys.andThen (q := Level false) ?_ ?_ fun _ _ level => level
  · refine obeys_call trivial ?_ fun _ _ next => next
    intro found inTx next
    subst next
    cases found with
    | none => rfl
    | some user =>
      refine obeys_call trivial ?_ fun _ _ next => next
      intro same inTx next
      subst next
      split <;> rfl
  · intro inTx user level
    subst level
    cases user with
    | none => rfl
    | some user => exact obeys_call trivial (fun _ _ next => next) fun _ _ next => next

end Handlers

/-- What a request may call: without privileges it reads, and users are saved for
administrators. -/
def caps (secret : String) (who : Option AuthUser) (call : HttpCall) :
    Monitor AppOp AppAns Err Bool where
  may inTx op := (¬ Privileged secret who call → Reads inTx op) ∧ ∀ user, op = .inr (.save user) →
    Administers who
  next inTx op a inTx' := inTx' = opens inTx op a

section Requests
variable {env : OutEnv} {accounts : AccountEnv} {secret : String} {who : Option AuthUser}
  {call : HttpCall}

theorem reads_caps {α : Type} {post : Bool → Except Err α → Prop} {inTx : Bool} {p : AppAsync α}
    (h : Obeys reader post inTx p) : Obeys (caps secret who call) post inTx p := by
  induction p generalizing inTx with
  | done r => exact h
  | await op k ih =>
    refine ⟨⟨fun _ => h.1, ?_⟩, fun a inTx' next => ih a (h.2 a inTx' next)⟩
    rintro user rfl
    exact h.1.elim

/-- Nothing but the user table is out of bounds for who has privileges. -/
theorem privileged_caps {α : Type} (privileged : Privileged secret who call) (p : OutAsync α)
    (inTx : Bool) :
    Obeys (caps secret who call) (fun _ _ => True) inTx (fromOut p) := by
  refine obeys_left_free ?_ (fun _ _ => trivial) p
  exact fun _ op => ⟨fun not => absurd privileged not, fun user same => by cases same⟩

theorem administers_manages (h : Administers who) : Manages who := by
  obtain ⟨user, rfl, admin⟩ := h
  exact ⟨user, rfl, by simp [mayManage, admin]⟩

/-- Past the guards of a route with these roles. -/
theorem guarded {required : List Role} (roles : call.route.roles = some required)
    (asked : required ≠ []) (passed : guards secret who call = none) :
    ∃ user, who = some user ∧ ∃ role ∈ required, role ∈ user.roles := by
  unfold guards at passed
  rw [roles] at passed
  cases who with
  | none => cases passed
  | some user =>
    simp only at passed
    split at passed
    · rename_i allowed
      refine ⟨user, rfl, ?_⟩
      have nonempty : required.isEmpty = false := by simpa using asked
      simpa [rolesAllow, nonempty] using allowed
    · cases passed

theorem guarded_manages (roles : call.route.roles = some [.operator, .admin])
    (passed : guards secret who call = none) : Manages who := by
  obtain ⟨user, same, role, required, has⟩ := guarded roles (by simp) passed
  refine ⟨user, same, ?_⟩
  rcases List.mem_cons.mp required with rfl | required
  · simp [mayManage, has]
  · rw [List.mem_singleton.mp required] at has
    simp [mayManage, has]

theorem guarded_administers (roles : call.route.roles = some [.admin])
    (passed : guards secret who call = none) : Administers who := by
  obtain ⟨user, same, role, required, has⟩ := guarded roles (by simp) passed
  rw [List.mem_singleton.mp required] at has
  exact ⟨user, same, has⟩

theorem guarded_hooked {payload : SftpgoWebhookDto} (route : call.route = .onUpload payload)
    (passed : guards secret who call = none) : Hooked secret call := by
  refine ⟨⟨payload, route⟩, ?_⟩
  unfold guards at passed
  simp only [route, Route.roles] at passed
  split at passed
  · assumption
  · cases passed

/-- A handler only gets to calls that its guards were meant for. -/
theorem handler_caps (user : AuthUser) (passed : guards secret who call = none) :
    Obeys (caps secret who call) (fun _ _ => True) false
      (handler env accounts user call.carrier call.route) := by
  have ends {α : Type} {p : AppAsync α} {f : α → HttpReply env.core.crypto}
      (h : Obeys (caps secret who call) (fun _ _ => True) false p) :
      Obeys (caps secret who call) (fun _ _ => True) false (p.bind fun a => pure (f a)) :=
    h.andThen (fun _ _ _ => trivial) fun _ _ _ => trivial
  have core {α : Type} {p : Async α} (h : Obeys coreReader (Level false) false p) :
      Obeys (caps secret who call) (fun _ _ => True) false (fromCore p) :=
    (reads_caps ((obeys_left _).mpr ((obeys_left _).mpr h))).mono _ fun _ _ _ => trivial
  cases route : call.route with
  | onUpload payload => exact ends (privileged_caps (.inr (guarded_hooked route passed)) _ _)
  | login dto =>
    exact ends ((reads_caps ((obeys_right _).mpr (login_reads dto))).mono _ fun _ _ _ => trivial)
  | createUser dto =>
    have admin := guarded_administers (by rw [route]; rfl) passed
    refine ends ((obeys_right _).mpr ?_)
    have any : ∀ inTx op, (rightOf (caps secret who call)).may inTx op := fun _ op =>
      ⟨fun not => absurd (.inl (administers_manages admin)) not, fun _ _ => admin⟩
    exact obeys_free any (fun _ _ => trivial) _
  | listTransfers query => exact ends (core (list_reads query))
  | getTransfer id => exact ends (core (getById_reads _))
  | download id =>
    exact (core (download_reads _)).andThen (fun _ _ _ => sendFile_obeys trivial fun _ => trivial)
      fun _ _ _ => trivial
  | retry id =>
    exact ends (privileged_caps (.inl (guarded_manages (by rw [route]; rfl) passed)) _ _)
  | retryBatch dto =>
    exact ends (privileged_caps (.inl (guarded_manages (by rw [route]; rfl) passed)) _ _)
  | createSubscription dto =>
    exact ends (privileged_caps (.inl (guarded_manages (by rw [route]; rfl) passed)) _ _)
  | listSubscriptions =>
    exact ends (reads_caps ⟨trivial, fun _ _ _ => trivial⟩)
  | removeSubscription id =>
    exact ends (privileged_caps (.inl (guarded_manages (by rw [route]; rfl) passed)) _ _)
  | usage tenant => exact ends (core (summary_reads _))

theorem handle_caps :
    Obeys (caps secret who call) (fun _ _ => True) false (handle env accounts secret who call) := by
  unfold handle
  split
  · trivial
  · rename_i allowed
    have passed : guards secret who call = none := (Option.or_eq_none_iff.mp allowed).1
    refine Obeys.orElse (handler_caps _ passed) (fun _ _ _ => trivial) fun _ _ _ => trivial

end Requests

/-! ## Who is asking -/

/-- The claims of a principal. -/
def claims (user : AuthUser) : JwtPayload := ⟨user.userId, user.username, user.roles, user.tenantId⟩

/-- What a task is among the accounts; most are nothing there, like a login. -/
def asAccount : AppTask → AccountTask
  | .start => .start
  | .http who call => match call.route with
    | .createUser dto => .createUser (claims (who.getD nobody)) dto
    | .login dto => .login dto.username dto.password
    | _ => .login "" ""
  | .service _ => .login "" ""

def accountWatch (env : AppEnv) (F : AccountAuthority.Fact → Prop) (task : AppTask) :
    Monitor AppOp AppAns Err Unit where
  may _ op := match op with
    | .inl _ => True
    | .inr op => (AccountAuthority.watch env.accounts F (asAccount task)).may () op
  next _ op a _ := match op, a with
    | .inl _, _ => True
    | .inr op, a => AccountAuthority.Heard env.accounts F op a

/-- A caller holds a token. -/
def holdsToken (F : AccountAuthority.Fact → Prop) : AppTask → Prop
  | .http who _ => ∀ user, who = some user → F (.signed (claims user))
  | _ => True

section Callers
variable {env : AppEnv} {F : AccountAuthority.Fact → Prop}

theorem objections_valid {out : OutEnv} {dto : CreateUserDto}
    (h : objections out (.createUser dto) = []) :
    dto.valid = true := by
  simp only [objections, notEmpty, List.append_eq_nil_iff] at h
  obtain ⟨⟨name, password⟩, roles⟩ := h
  have name' : dto.username ≠ "" := by
    intro empty
    rw [if_pos empty] at name
    cases name
  have password' : ¬ dto.password.length < 8 := by
    intro short
    rw [if_pos short] at password
    cases password
  have roles' : dto.roles.isEmpty ≠ true := by
    intro empty
    rw [if_pos empty] at roles
    cases roles
  simp only [CreateUserDto.valid, Bool.and_eq_true, decide_eq_true_eq, Bool.not_eq_true']
  exact ⟨⟨name', by omega⟩, by simpa using roles'⟩

theorem pipes_objections {out : OutEnv} {route : Route} (h : pipes out route = none) :
    objections out route = [] := by
  unfold pipes at h
  split at h
  · cases h
  · split at h
    · assumption
    · cases h

theorem handler_watched {who : Option AuthUser} {call : HttpCall}
    (token : holdsToken F (.http who call)) (passed : guards env.webhookSecret who call = none)
    (valid : pipes env.out call.route = none) :
    Obeys (accountWatch env F (.http who call)) (fun _ _ => True) ()
      (handler env.out env.accounts (who.getD nobody) call.carrier call.route) := by
  have ends {α : Type} {p : AppAsync α} {f : α → HttpReply env.out.core.crypto}
      (h : Obeys (accountWatch env F (.http who call)) (fun _ _ => True) () p) :
      Obeys (accountWatch env F (.http who call)) (fun _ _ => True) ()
        (p.bind fun a => pure (f a)) :=
    h.andThen (fun _ _ _ => trivial) fun _ _ _ => trivial
  have free {α : Type} (p : OutAsync α) :
      Obeys (accountWatch env F (.http who call)) (fun _ _ => True) () (fromOut p) :=
    obeys_left_free (fun _ _ => trivial) (fun _ _ => trivial) p
  have same (task : AccountTask) (is : asAccount (.http who call) = task) :
      rightOf (accountWatch env F (.http who call)) =
        AccountAuthority.watch env.accounts F task := by
    simp only [rightOf, accountWatch, is]
    rfl
  cases route : call.route with
  | login dto =>
    refine ends ((obeys_right _).mpr ?_)
    rw [same (.login dto.username dto.password) (by simp only [asAccount, route])]
    exact AccountAuthority.login_obeys dto.username dto.password
  | createUser dto =>
    obtain ⟨user, rfl, admin⟩ := guarded_administers (by rw [route]; rfl) passed
    refine ends ((obeys_right _).mpr ?_)
    rw [same (.createUser (claims user) dto) (by simp only [asAccount, route, Option.getD_some])]
    refine AccountAuthority.createUser_obeys (token user rfl) admin ?_
    rw [route] at valid
    exact objections_valid (pipes_objections valid)
  | download id =>
    exact (free _).andThen (fun _ _ _ => sendFile_obeys trivial fun _ => trivial)
      fun _ _ _ => trivial
  | _ => exact ends (free _)

theorem codeApp_watched (task : AppTask) (token : holdsToken F task) :
    Obeys (accountWatch env F task) (fun _ _ => True) () (codeApp env task) := by
  cases task with
  | service task =>
    refine Obeys.andThen (q := fun _ _ => True) ?_ (fun _ _ _ => trivial) fun _ _ _ => trivial
    exact obeys_left_free (fun _ _ => trivial) (fun _ _ => trivial) _
  | start =>
    refine Obeys.andThen (q := fun _ _ => True) ?_ (fun _ _ _ => trivial) fun _ _ _ => trivial
    refine (obeys_right _).mpr ?_
    exact AccountAuthority.start_obeys.mono _ fun _ _ _ => trivial
  | http who call =>
    refine Obeys.andThen (q := fun _ _ => True) ?_ (fun _ _ _ => trivial) fun _ _ _ => trivial
    unfold handle
    split
    · trivial
    · rename_i allowed
      obtain ⟨passed, valid⟩ := Option.or_eq_none_iff.mp allowed
      exact Obeys.orElse (handler_watched token passed valid) (fun _ _ _ => trivial)
        fun _ _ _ => trivial

end Callers

/-! ## Runs of the application -/

/-- The accounts of the application start empty; the rest may hold anything. -/
structure NoAccounts {env : AppEnv} (w : AppWorld env) : Prop where
  threads : w.threads = []
  users : w.store.accounts.users = []
  tokens : w.store.accounts.tokens = []

section Runs
variable {env : AppEnv} {s s' : AppState}

theorem callerOf_signed {call : HttpCall} {user : AuthUser} (h : callerOf s call = some user) :
    AccountAuthority.know s.accounts (.signed (claims user)) := by
  unfold callerOf at h
  split at h
  · cases h
  · rename_i token
    obtain ⟨payload, found, rfl⟩ := Option.map_eq_some_iff.mp h
    exact AccountAuthority.authenticate_signed found

/-- The accounts are sound while the application runs. -/
theorem accountable (env : AppEnv) :
    Knowing (appMachine env) anyStep (fun s => AccountAuthority.know s.accounts)
      (accountWatch env) holdsToken
      (fun _ _ _ => True) (fun s => AccountAuthority.Sound env.accounts s.accounts) where
  code F task token := codeApp_watched task token
  more F F' task more token := by
    cases task with
    | http who call => exact fun user same => more _ (token user same)
    | _ => trivial
  request w q s task _ h entered := by
    have entered' : enterApp env q w.store = some (s, task) := entered
    cases q with
    | service q =>
      simp only [enterApp] at entered'
      split at entered'
      · split at entered'
        · cases entered'
        · cases entered'
          exact ⟨h, fun _ hk => hk, trivial⟩
      · cases entered'
    | start =>
      cases entered'
      exact ⟨h, fun _ hk => hk, trivial⟩
    | http call =>
      cases entered'
      exact ⟨h, fun _ hk => hk, fun user same => callerOf_signed same⟩
  resume w pid c l r t op k a s _ h _ _ may ran := by
    cases op with
    | inl op =>
      obtain ⟨out, -, rfl⟩ := out_cases ran
      exact ⟨h, fun _ hk => hk, fun _ _ => trivial⟩
    | inr op =>
      obtain ⟨accounts, inner, rfl⟩ := account_cases pid ran
      obtain ⟨hs, heard⟩ := AccountAuthority.account_step h may inner
      exact ⟨hs, (AccountAuthority.exec_grows inner).know, fun F known => heard.grow known⟩
  settle task out s h _ := by
    cases task with
    | service task =>
      refine ⟨h, fun _ hk => hk, fun new hnew => ?_⟩
      obtain ⟨task, -, rfl⟩ := List.mem_map.mp hnew
      trivial
    | _ => exact ⟨h, fun _ hk => hk, fun _ new => by cases new⟩
  crash pid task s h := by
    cases task <;> exact ⟨h, fun _ hk => hk⟩
  outside e s s' h happened := by
    have happened' : outsideApp e s = some s' := happened
    cases e with
    | out e =>
      simp only [outsideApp] at happened'
      split at happened' <;> cases happened'
      exact ⟨h, fun _ hk => hk⟩
    | elapsed seconds =>
      cases happened'
      exact ⟨⟨h.names, h.below, h.tokens, h.origin⟩, fun k hk => by cases k <;> exact hk⟩

/-- A request keeps to its privileges, and without any its transaction is blank. -/
def Bounded (env : AppEnv) (s : AppState) (t : AppThread env) : Prop :=
  ∀ who call, t.task = .http who call → ∃ inTx,
    Obeys (caps env.webhookSecret who call) (fun _ _ => True) inTx t.prog ∧
    (¬ Privileged env.webhookSecret who call → Blank t.pid s.out inTx)

theorem Bounded.keep {t : AppThread env} (h : Bounded env s t)
    (same : s'.out.core.db.tx t.pid = s.out.core.db.tx t.pid) : Bounded env s' t := by
  intro who call task
  obtain ⟨inTx, obeys, blank⟩ := h who call task
  refine ⟨inTx, obeys, fun plain inside => ?_⟩
  rw [same]
  exact blank plain inside

theorem bounded_code (task : AppTask) (n : ℕ) (s : AppState) :
    Bounded env s ⟨n, task, codeApp env task⟩ := by
  rintro who call rfl
  refine ⟨false, ?_, fun _ inside => by cases inside⟩
  exact handle_caps.andThen (fun _ _ _ => trivial) fun _ _ _ => trivial

theorem out_tx_other {out out' : OutState} {pid other : ℕ} {c : OutChoice} {op : Op ⊕ NetOp}
    {a : Except Err (Either Op.Ans NetOp.Ans op)}
    (ran : execOut env.out pid op c out = some (a, out')) (ne : other ≠ pid) :
    out'.core.db.tx other = out.core.db.tx other := by
  cases op with
  | inl op =>
    obtain ⟨core, inner, rfl⟩ := EventPrivacy.core_cases ran
    exact OutboxSafety.exec_tx_other inner ne
  | inr op =>
    rcases EventPrivacy.net_cases ran with done | ⟨name, message, rejected⟩
    · cases op with
      | saveSubscription tenantId url events secret =>
        simp only [execNet] at done
        split at done <;> cases done <;> rfl
      | _ => cases done; rfl
    · cases op <;> cases rejected <;> rfl

theorem enterOut_db {out out' : OutState} {q : OutRequest} {task : OutTask}
    (entered : enterOut env.out q out = some (out', task)) : out'.core.db = out.core.db := by
  cases q with
  | core q =>
    simp only [enterOut] at entered
    split at entered
    · cases entered
    · rename_i ran
      cases entered
      rcases enter_cases ran with ⟨rfl, -, -⟩ | ⟨_, _, -, -, -, rfl, -⟩ <;> rfl
  | _ =>
    simp only [enterOut] at entered
    repeat' split at entered
    all_goals cases entered
    all_goals rfl

theorem finishOut_db (task : OutTask) (out : Except Err Reply) (o : OutState) :
    (finishOut env.out task out o).1.core.db = o.core.db := by
  cases task with
  | core task =>
    show (finish env.out.core task out o.core).1.db = o.core.db
    rcases finish_cases env.out.core task out o.core with same | ⟨_, _, _, -,
      same⟩ | ⟨_, _, -, same⟩
    · rw [same]
    · rw [same]
    · rw [same]
      rfl
  | _ => rfl

theorem outsideOut_db {e : OutEvent} {o o' : OutState} (happened : outsideOut e o = some o') :
    o'.core.db = o.core.db := by
  cases e with
  | core e =>
    simp only [outsideOut] at happened
    split at happened
    · cases happened
    · rename_i ran
      cases happened
      rcases outside_cases ran with ⟨_, _, rfl⟩ | ⟨_, _, -, -, -, rfl⟩ <;> rfl
  | _ =>
    simp only [outsideOut] at happened
    split at happened <;> cases happened
    rfl

theorem enterApp_db {q : AppRequest} {task : AppTask}
    (entered : enterApp env q s = some (s', task)) :
    s'.out.core.db = s.out.core.db := by
  cases q with
  | service q =>
    simp only [enterApp] at entered
    split at entered
    · split at entered
      · cases entered
      · rename_i ran
        cases entered
        exact enterOut_db ran
    · cases entered
  | _ =>
    cases entered
    rfl

theorem app_tx_other {op : AppOp} {pid other : ℕ} {c : AppChoice} {a : Except Err (AppAns op)}
    (ran : execApp env pid op c s = some (a, s')) (ne : other ≠ pid) :
    s'.out.core.db.tx other = s.out.core.db.tx other := by
  cases op with
  | inl op =>
    obtain ⟨out, inner, rfl⟩ := out_cases ran
    exact out_tx_other inner ne
  | inr op =>
    obtain ⟨accounts, -, rfl⟩ := account_cases pid ran
    rfl

theorem finishApp_db (task : AppTask) (out : Except Err (AppReply env.out.core.crypto))
    (s : AppState) :
    (finishApp env task out s).1.out.core.db = s.out.core.db := by
  cases task with
  | service task => exact finishOut_db task _ s.out
  | _ => rfl

/-- A lost task has at most its transaction rolled back. -/
theorem dropApp_db (pid : ℕ) (task : AppTask) (s : AppState) :
    (dropApp pid task s).out.core.db = s.out.core.db ∨
      (dropApp pid task s).out.core.db = s.out.core.db.dropTx pid := by
  cases task with
  | service task => cases task with
    | core task => exact .inr rfl
    | _ => exact .inl rfl
  | start => exact .inl rfl
  | http who call => exact .inr rfl

theorem dropApp_tx_other {pid other : ℕ} (task : AppTask) (s : AppState) (ne : other ≠ pid) :
    (dropApp pid task s).out.core.db.tx other = s.out.core.db.tx other := by
  rcases dropApp_db pid task s with same | dropped
  · rw [same]
  · rw [dropped]
    exact tx_dropTx_ne _ ne

theorem outsideApp_db {e : AppEvent} (happened : outsideApp e s = some s') :
    s'.out.core.db = s.out.core.db := by
  cases e with
  | out e =>
    simp only [outsideApp] at happened
    split at happened
    · cases happened
    · rename_i ran
      cases happened
      exact outsideOut_db ran
  | elapsed seconds =>
    cases happened
    rfl

theorem bounded_resume {w : AppWorld env} {pid : ℕ} {c : AppChoice} {t : AppThread env} {op : AppOp}
    {k : Except Err (AppAns op) → AppAsync (AppReply env.out.core.crypto)}
    {a : Except Err (AppAns op)} (h : Bounded env w.store t) (hpid : t.pid = pid)
    (at_call : t.prog = .await op k) (ran : execApp env pid op c w.store = some (a, s)) :
    Bounded env s { t with prog := k a } := by
  intro who call task
  obtain ⟨inTx, obeys, blank⟩ := h who call task
  rw [at_call] at obeys
  refine ⟨opens inTx op a, obeys.2 a _ rfl, fun plain => ?_⟩
  subst hpid
  exact (read_step (obeys.1.1 plain) (blank plain) ran).2.2

theorem bounded (env : AppEnv) :
    Threadwise (appMachine env) anyStep (fun _ => True) (Bounded env) where
  request w q s task _ _ hT entered := by
    have same : s.out.core.db = w.store.out.core.db := enterApp_db entered
    exact ⟨trivial, fun t ht => (hT t ht).keep (by rw [same]), fun n => bounded_code task n s⟩
  resume w pid c l r t op k a s _ _ hT apart found at_call answered := by
    obtain ⟨hmem, hothers⟩ := mem_of_focus found
    exact ⟨trivial, fun t' ht => (hT t' (hothers t' ht)).keep (app_tx_other answered (apart t' ht)),
      bounded_resume (hT t hmem) (focus_some found).2 at_call answered⟩
  settle w pid l r t out _ _ hT found ended := by
    refine ⟨trivial, fun t' ht => (hT t' ((mem_of_focus found).2 t' ht)).keep ?_,
      fun n task _ => bounded_code task n _⟩
    exact congrArg (·.tx t'.pid) (finishApp_db t.task out w.store)
  crash w pid l r t _ _ hT apart found := by
    refine ⟨trivial, fun t' ht => (hT t' ((mem_of_focus found).2 t' ht)).keep ?_⟩
    exact dropApp_tx_other t.task w.store (apart t' ht)
  outside w e s _ _ hT happened := by
    have same : s.out.core.db = w.store.out.core.db := outsideApp_db happened
    exact ⟨trivial, fun t ht => (hT t ht).keep (by rw [same])⟩

end Runs

/-- A stored user, as the token of a caller says it. -/
def Stored (s : AppState) (who : Option AuthUser) (user : User) : Prop :=
  user ∈ s.accounts.users ∧ who = some (AccountAuthority.payloadOf user).principal

/-- A step of a request, in any run of the application: if stored data changes, the
request is that of a stored operator or administrator, or of the upload hook with its
secret; if the users change, it is that of a stored administrator. -/
theorem request_changes {env : AppEnv} {w₀ w w' : AppWorld env} (empty : NoAccounts w₀)
    (path : Reach (appMachine env) anyStep w₀ w) {pid : ℕ} {c : AppChoice}
    (move : (appMachine env).step w (.resume pid c) = some w') {t : AppThread env}
    (ht : t ∈ w.threads) (hpid : t.pid = pid) {who : Option AuthUser} {call : HttpCall}
    (task : t.task = .http who call) :
    (Unchanged w.store.out w'.store.out ∨ Hooked env.webhookSecret call ∨
      ∃ user, Stored w.store who user ∧ (Role.operator ∈ user.roles ∨ Role.admin ∈ user.roles)) ∧
    (w'.store.accounts.users = w.store.accounts.users ∨
      ∃ user, Stored w.store who user ∧ Role.admin ∈ user.roles) := by
  have start : AccountAuthority.Sound env.accounts w₀.store.accounts := by
    constructor
    · simp [empty.users]
    · simp [empty.users]
    · simp [empty.tokens]
    · simp [empty.users]
  obtain ⟨sound, prepared⟩ := (accountable env).holds empty.threads start path
  obtain ⟨-, threads⟩ := (bounded env).holds (numbered_of_none empty.threads) trivial
    (by rw [empty.threads]; intro t ht; cases ht) path
  have known : ∀ user, who = some user → ∃ row, Stored w.store who row ∧
      row.roles = user.roles := by
    intro user same
    have token := (prepared t ht).2
    rw [task] at token
    obtain ⟨signed, hsigned, payload⟩ := token user same
    obtain ⟨row, stored, repeated, -⟩ := sound.tokens signed hsigned
    have both : claims user = AccountAuthority.payloadOf row := payload.symm.trans repeated
    refine ⟨row, ⟨stored, ?_⟩, (congrArg JwtPayload.roles both).symm⟩
    rw [same, ← both]
    rfl
  cases Machine.step_move move with
  | resume l r t' op k a s found at_call answered eq =>
    obtain ⟨hmem, -⟩ := mem_of_focus found
    have same : t' = t := by
      have distinct := ((numbered_of_none empty.threads).reach path).distinct
      exact List.inj_on_of_nodup_map distinct hmem ht ((focus_some found).2.trans hpid.symm)
    subst same
    obtain ⟨inTx, obeys, blank⟩ := threads t' ht who call task
    rw [at_call] at obeys
    subst eq hpid
    constructor
    · by_cases privileged : Privileged env.webhookSecret who call
      · right
        rcases privileged with ⟨user, same, manages⟩ | hooked
        · right
          obtain ⟨row, stored, roles⟩ := known user same
          refine ⟨row, stored, ?_⟩
          rw [roles]
          simpa [mayManage] using manages
        · exact .inl hooked
      · exact .inl (read_step (obeys.1.1 privileged) (blank privileged) answered).1
    · rcases users_step answered with unchanged | ⟨new, rfl⟩
      · exact .inl unchanged
      · right
        obtain ⟨user, same, admin⟩ := obeys.1.2 new rfl
        obtain ⟨row, stored, roles⟩ := known user same
        exact ⟨row, stored, roles ▸ admin⟩

def sampleApp : AppEnv := ⟨sampleOutEnv, AccountAuthority.sampleAccounts, "whsec-sftpgo"⟩

def sampleAppWorld : AppWorld sampleApp := ⟨⟨sampleOutWorld.store, ⟨[], 0, [], 1720000000⟩⟩, [], 0⟩

def sampleCall (route : Route) (bearer : Option ℕ) : HttpCall :=
  ⟨route, bearer, none, none, [], "/v1"⟩

/-- The seeded administrator logs in and asks for another user, who is saved in the last
step. -/
theorem request_changes_sample : ∃ w w' t who call, NoAccounts sampleAppWorld ∧
    Reach (appMachine sampleApp) anyStep sampleAppWorld w ∧
    (appMachine sampleApp).step w (.resume 2 {}) = some w' ∧ t ∈ w.threads ∧ t.pid = 2 ∧
    t.task = .http who call ∧ w'.store.accounts.users ≠ w.store.accounts.users ∧
    ∃ user, Stored w.store who user ∧ Role.admin ∈ user.roles := by
  have run : ((appMachine sampleApp).steps sampleAppWorld
      [.request .start, .resume 0 {}, .resume 0 { account := { salt := "$" } },
        .resume 0 {}, .settle 0,
        .request (.http (sampleCall (.login ⟨"admin", "change me soon"⟩) none)),
        .resume 1 {}, .resume 1 {},
        .resume 1 {}, .settle 1,
        .request
          (.http (sampleCall (.createUser ⟨"bob", "correct horse", [.viewer], none⟩) (some 0))),
        .resume 2 {}, .resume 2 { account := { salt := "$" } }]).map (fun w =>
        (w.threads.map (fun t => (t.pid, match t.task with | .http _ _ => true | _ => false)),
          w.store.accounts.users.length,
          ((appMachine sampleApp).step w (.resume 2 {})).map
            fun w' => w'.store.accounts.users.length)) =
      some ([(2, true)], 1, some 2) := by decide +kernel
  obtain ⟨w, hw, seen⟩ := Option.map_eq_some_iff.mp run
  obtain ⟨threads, rest⟩ := Prod.mk.inj seen
  obtain ⟨before, after⟩ := Prod.mk.inj rest
  obtain ⟨w', move, grown⟩ := Option.map_eq_some_iff.mp after
  obtain ⟨t, ht, htask⟩ := List.map_eq_singleton_iff.mp threads
  obtain ⟨hpid, isHttp⟩ := Prod.mk.inj htask
  have hmem : t ∈ w.threads := by rw [ht]; exact List.mem_singleton_self t
  have changed : w'.store.accounts.users ≠ w.store.accounts.users := by
    intro same
    rw [same, before] at grown
    cases grown
  have empty : NoAccounts sampleAppWorld := ⟨rfl, rfl, rfl⟩
  have path := reach_of_steps _ hw
  cases task : t.task with
  | http who call =>
    have result := (request_changes empty path move hmem hpid task).2
    exact ⟨w, w', t, who, call, empty, path, move, hmem, hpid, task, changed,
      result.resolve_left changed⟩
  | _ =>
    rw [task] at isHttp
    cases isHttp

end RoleEnforcement
