import SyncBridge.Accounts
import SyncBridge.GrowingKnowledge
import SyncBridge.Orchestrator

/-!
# Every account goes back to the first administrator

Replicas that start together, users created at the same time and logins in between never
make two users of one name. Each row is the seeded administrator or was asked for under
the token of an administrator who was there before, so that all authority can be
followed back to the password in the configuration. A token says what its user's row
says, since rows do not change.
-/

namespace AccountAuthority

open AwaitPrograms ThreadPools GrowingKnowledge Entities Authentication SimpleArrays Accounts

theorem roleNamed_roleName (role : Role) : roleNamed (roleName role) = some role := by
  cases role <;> decide

theorem roleName_solid (role : Role) :
    ',' ∉ (roleName role).toList ∧ (roleName role).toList ≠ [] := by
  cases role <;> decide

theorem storedRoles_eq (roles : List Role) : storedRoles roles = roles :=
  stored_eq roleNamed_roleName (fun role => (roleName_solid role).1)
    (fun role => (roleName_solid role).2) roles

/-- The claims of a token for this user. -/
def payloadOf (user : User) : JwtPayload := ⟨user.id, user.username, user.roles, user.tenantId⟩

/-- The seeded administrator. -/
structure Bootstrap (env : AccountEnv) (user : User) : Prop where
  username : user.username = env.adminUsername
  roles : user.roles = [.admin]
  tenant : user.tenantId = columnTenant
  password : ∃ salt, user.passwordHash = env.bcrypt.hash env.adminPassword salt

/-- The row that a valid request asks for. -/
structure Made (env : AccountEnv) (dto : CreateUserDto) (user : User) : Prop where
  valid : dto.valid = true
  username : user.username = dto.username
  roles : user.roles = dto.roles
  tenant : user.tenantId = storedTenant env.config dto
  password : ∃ salt, user.passwordHash = env.bcrypt.hash dto.password salt

/-- There is a token for this user. -/
def LoggedIn (s : AccountState) (user : User) : Prop :=
  ∃ token ∈ s.tokens, token.payload = payloadOf user

/-- A chain of administrators, each logged in, that starts with the seeded one. -/
inductive Authorised (env : AccountEnv) (s : AccountState) : User → Prop where
  | seeded {user : User} (stored : user ∈ s.users)
    (bootstrap : Bootstrap env user) : Authorised env s user
  | created {creator user : User} (dto : CreateUserDto) (stored : user ∈ s.users)
      (authorised : Authorised env s creator) (admin : Role.admin ∈ creator.roles)
      (loggedIn : LoggedIn s creator) (earlier : creator.id < user.id) (made : Made env dto user) :
      Authorised env s user

/-- Whoever makes this row: a start the administrator of the configuration, a request the
one it describes, if its sender is the administrator of a row that is itself authorised. -/
def Asked (env : AccountEnv) (s : AccountState) (user : User) : AccountTask → Prop
  | .start => Bootstrap env user
  | .login _ _ => False
  | .createUser creator dto => Made env dto user ∧ ∃ admin, Authorised env s admin ∧
      payloadOf admin = creator ∧ Role.admin ∈ admin.roles ∧ LoggedIn s admin

/-- A login with the name and the password of a stored user makes this token. -/
def Earned (env : AccountEnv) (s : AccountState) (token : SignedToken) : AccountTask → Prop
  | .login username password => ∃ user ∈ s.users, user.username = username ∧
      env.bcrypt.compare password user.passwordHash = true ∧
      token = ⟨payloadOf user, s.now + env.lifetime env.jwtExpiresIn⟩
  | _ => False

/-- What a step has added, which then is an answer to the thread it was added for. -/
structure Adds (env : AccountEnv) (w w' : AccountWorld)
    (act : Act AccountRequest AccountChoice Elapsed) : Prop where
  users : w'.store.users = w.store.users ∨ ∃ t ∈ w.threads, (∃ c, act = .resume t.pid c) ∧ ∃ user,
    w'.store.users = w.store.users ++ [user] ∧ Asked env w.store user t.task
  tokens : w'.store.tokens = w.store.tokens ∨ ∃ t ∈ w.threads,
    (∃ c, act = .resume t.pid c) ∧ ∃ token,
    w'.store.tokens = w.store.tokens ++ [token] ∧ Earned env w.store token t.task

/-! ## Facts and observers -/

inductive Fact where
  | row (user : User)
  | signed (payload : JwtPayload)
  | peopled

def know (s : AccountState) : Fact → Prop
  | .row user => user ∈ s.users
  | .signed payload => ∃ token ∈ s.tokens, token.payload = payload
  | .peopled => s.users ≠ []

/-- The inserts that a task may make. -/
def Inserts (env : AccountEnv) (F : Fact → Prop) (user : NewUser) : AccountTask → Prop
  | .start => ∃ salt, user = AuthService.bootstrapAdmin env (env.bcrypt.hash env.adminPassword salt)
  | .login _ _ => False
  | .createUser creator dto => F (.signed creator) ∧ Role.admin ∈ creator.roles ∧ dto.valid = true ∧
      ∃ salt, user = ⟨dto.username, env.bcrypt.hash dto.password salt, dto.roles,
        some (storedTenant env.config dto)⟩

def Heard (env : AccountEnv) (F : Fact → Prop) : (op : AccountOp) → Except Err op.Ans → Prop
  | .count, .ok n => 0 < n → F .peopled
  | .findOne username, .ok found =>
    ∀ user, found = some user → F (.row user) ∧ user.username = username
  | .save _, .ok _ => F .peopled
  | .hash password, .ok passwordHash => ∃ salt, passwordHash = env.bcrypt.hash password salt
  | .compare password passwordHash, .ok same => same = env.bcrypt.compare password passwordHash
  | _, _ => True

def watch (env : AccountEnv) (F : Fact → Prop) (task : AccountTask) :
    Monitor AccountOp AccountOp.Ans Err Unit where
  may _ op := match op with
    | .save user => Inserts env F user task
    | .sign payload => ∃ user password, task = .login user.username password ∧ F (.row user) ∧
        payload = payloadOf user ∧ env.bcrypt.compare password user.passwordHash = true
    | _ => True
  next _ op a _ := Heard env F op a

def admits (F : Fact → Prop) : AccountTask → Prop
  | .createUser creator dto => F (.signed creator) ∧ Role.admin ∈ creator.roles ∧ dto.valid = true
  | _ => True

/-- A replica that has started leaves somebody who can log in. -/
def ends (F : Fact → Prop) : AccountTask → Except Err Unit → Prop
  | .start, .ok _ => F .peopled
  | _, _ => True

section Operations
variable {env : AccountEnv} {F : Fact → Prop}

theorem start_obeys :
    Obeys (watch env F .start) (fun _ => ends F .start) () (AuthService.onModuleInit env) := by
  refine obeys_call trivial ?_ fun _ _ _ => trivial
  intro n _ heard
  split
  · rename_i some
    exact heard some
  refine obeys_call trivial ?_ fun _ _ _ => trivial
  rintro passwordHash _ ⟨salt, rfl⟩
  refine obeys_call ⟨salt, rfl⟩ ?_ fun _ _ _ => trivial
  exact fun _ _ heard => heard

theorem login_obeys (username password : String) :
    Obeys (watch env F (.login username password)) (fun _ _ => True) ()
      (AuthService.login env username password) := by
  refine Obeys.andThen (q := fun _ r => ∀ user, r = .ok (some user) → ∃ row, F (.row row) ∧
      row.username = username ∧ user = ⟨row.id, row.username, row.roles, row.tenantId⟩ ∧
      env.bcrypt.compare password row.passwordHash = true) ?_ ?_ fun _ _ _ => trivial
  · refine obeys_call trivial ?_ fun _ _ _ user same => by cases same
    intro found _ heard
    cases found with
    | none => exact fun user same => by cases same
    | some row =>
      refine obeys_call trivial ?_ fun _ _ _ user same => by cases same
      intro same _ compared
      split
      · rename_i yes
        rintro user ⟨⟩
        obtain ⟨stored, name⟩ := heard row rfl
        exact ⟨row, stored, name, rfl, compared.symm.trans yes⟩
      · exact fun user same => by cases same
  · intro _ user known
    cases user with
    | none => trivial
    | some user =>
      obtain ⟨row, stored, rfl, rfl, compared⟩ := known user rfl
      exact obeys_call ⟨row, password, rfl, stored, rfl, compared⟩ (fun _ _ _ => trivial)
        fun _ _ _ => trivial

theorem createUser_obeys {creator : JwtPayload} {dto : CreateUserDto} (signed : F (.signed creator))
    (admin : Role.admin ∈ creator.roles) (valid : dto.valid = true) :
    Obeys (watch env F (.createUser creator dto)) (fun _ _ => True) ()
      (AuthService.createUser env dto) := by
  refine obeys_call trivial ?_ fun _ _ _ => trivial
  intro exist _ _
  split
  · trivial
  refine obeys_call trivial ?_ fun _ _ _ => trivial
  rintro passwordHash _ ⟨salt, rfl⟩
  exact obeys_call ⟨signed, admin, valid, salt, rfl⟩ (fun _ _ _ => trivial) fun _ _ _ => trivial

theorem codeAccount_obeys (task : AccountTask) (admitted : admits F task) :
    Obeys (watch env F task) (fun _ => ends F task) () (codeAccount env task) := by
  cases task with
  | start => exact start_obeys
  | login username password =>
    exact (login_obeys username password).andThen (fun _ _ _ => trivial) fun _ _ _ => trivial
  | createUser creator dto =>
    exact (createUser_obeys admitted.1 admitted.2.1 admitted.2.2).andThen (fun _ _ _ => trivial)
      fun _ _ _ => trivial

end Operations

/-! ## Steps -/

structure Sound (env : AccountEnv) (s : AccountState) : Prop where
  names : (s.users.map (·.username)).Nodup
  below : ∀ user ∈ s.users, user.id < s.nextId
  tokens : ∀ token ∈ s.tokens, ∃ user ∈ s.users, token.payload = payloadOf user ∧
    ∃ password, env.bcrypt.compare password user.passwordHash = true
  origin : ∀ user ∈ s.users, Bootstrap env user ∨
    ∃ creator ∈ s.users, ∃ dto, Role.admin ∈ creator.roles ∧
    LoggedIn s creator ∧ creator.id < user.id ∧ Made env dto user

section Steps
variable {env : AccountEnv} {s s' : AccountState}

/-- Users and tokens are only added. -/
structure Grows (s s' : AccountState) : Prop where
  users : s.users <+: s'.users
  tokens : s.tokens <+: s'.tokens

theorem Grows.refl (s : AccountState) : Grows s s := ⟨List.prefix_rfl, List.prefix_rfl⟩

theorem Grows.know (g : Grows s s') (k : Fact) (h : know s k) : know s' k := by
  cases k with
  | row user => exact g.users.subset h
  | signed payload =>
    obtain ⟨token, ht, same⟩ := h
    exact ⟨token, g.tokens.subset ht, same⟩
  | peopled =>
    intro empty
    exact h (List.prefix_nil.mp (empty ▸ g.users))

theorem Grows.loggedIn (g : Grows s s') {user : User} (h : LoggedIn s user) : LoggedIn s' user := by
  obtain ⟨token, ht, same⟩ := h
  exact ⟨token, g.tokens.subset ht, same⟩

/-- By induction on the numbers of users: whoever asked for a row has a smaller one. -/
theorem Sound.authorised (h : Sound env s) :
    ∀ user ∈ s.users, Authorised env s user := by
  intro user
  induction user using (measure User.id).wf.induction with
  | _ user ih =>
    intro stored
    rcases h.origin user stored with seeded | ⟨creator, there, dto, admin, loggedIn, earlier, made⟩
    · exact .seeded stored seeded
    · exact .created dto stored (ih creator earlier there) admin loggedIn earlier made

theorem Authorised.stored {user : User} (h : Authorised env s user) : user ∈ s.users := by
  cases h <;> assumption

/-- A new row was asked for by an authorised administrator, or seeded. -/
theorem Sound.asked (h : Sound env s) {task : AccountTask} {user : NewUser}
    (may : Inserts env (know s) user task) : Asked env s (user.row s.nextId) task := by
  cases task with
  | start =>
    obtain ⟨salt, rfl⟩ := may
    exact ⟨rfl, storedRoles_eq _, rfl, salt, rfl⟩
  | login username password => exact may.elim
  | createUser creator dto =>
    obtain ⟨⟨token, ht, rfl⟩, admin, valid, salt, rfl⟩ := may
    obtain ⟨user, stored, same, -⟩ := h.tokens token ht
    refine ⟨⟨valid, rfl, storedRoles_eq _, rfl, salt, rfl⟩, user, h.authorised user stored,
      same.symm, ?_,
      token, ht, same⟩
    rw [same] at admin
    exact admin

theorem Sound.insert (h : Sound env s) {task : AccountTask} {user : NewUser}
    (may : Inserts env (know s) user task) (newName : ∀ u ∈ s.users, u.username ≠ user.username) :
    Sound env { s with users := s.users ++ [user.row s.nextId], nextId := s.nextId + 1 } := by
  have g : Grows s { s with users := s.users ++ [user.row s.nextId], nextId := s.nextId + 1 } :=
    ⟨List.prefix_append _ _, List.prefix_rfl⟩
  constructor
  · rw [List.map_append, List.nodup_append]
    refine ⟨h.names, by simp, ?_⟩
    intro name old name' new
    obtain ⟨u, hu, rfl⟩ := List.mem_map.mp old
    rw [List.map_singleton, List.mem_singleton] at new
    rw [new]
    exact newName u hu
  · intro u hu
    rcases List.mem_append.mp hu with old | new
    · exact Nat.lt_succ_of_lt (h.below u old)
    · rw [List.mem_singleton.mp new]
      exact Nat.lt_succ_self _
  · intro token ht
    obtain ⟨u, hu, rest⟩ := h.tokens token ht
    exact ⟨u, g.users.subset hu, rest⟩
  · intro u hu
    rcases List.mem_append.mp hu with old | new
    · rcases h.origin u old with seeded | ⟨creator, stored, dto, admin, loggedIn, rest⟩
      · exact .inl seeded
      · exact .inr ⟨creator, g.users.subset stored, dto, admin, g.loggedIn loggedIn, rest⟩
    · rw [List.mem_singleton.mp new]
      have asked := h.asked may
      cases task with
      | start => exact .inl asked
      | login username password => exact asked.elim
      | createUser payload dto =>
        obtain ⟨made, creator, authorised, -, admin, loggedIn⟩ := asked
        exact .inr ⟨creator, g.users.subset authorised.stored, dto, admin, g.loggedIn loggedIn,
          h.below creator authorised.stored, made⟩

theorem Sound.sign (h : Sound env s) {payload : JwtPayload} {user : User} {password : String}
    (stored : user ∈ s.users) (claims : payload = payloadOf user)
    (compared : env.bcrypt.compare password user.passwordHash = true) (expiresAt : ℕ) :
    Sound env { s with tokens := s.tokens ++ [⟨payload, expiresAt⟩] } := by
  have g : Grows s { s with tokens := s.tokens ++ [⟨payload, expiresAt⟩] } :=
    ⟨List.prefix_rfl, List.prefix_append _ _⟩
  refine ⟨h.names, h.below, ?_, ?_⟩
  · intro token ht
    rcases List.mem_append.mp ht with old | new
    · exact h.tokens token old
    · rw [List.mem_singleton.mp new]
      exact ⟨user, stored, claims, password, compared⟩
  · intro u hu
    rcases h.origin u hu with seeded | ⟨creator, stored, dto, admin, loggedIn, rest⟩
    · exact .inl seeded
    · exact .inr ⟨creator, stored, dto, admin, g.loggedIn loggedIn, rest⟩

/-- A call does what it says, or it is rejected. -/
theorem execAccount_cases {op : AccountOp} {c : AccountChoice} {a : Except Err op.Ans}
    (h : execAccount env op c s = some (a, s')) :
    performAccount env c s op = (a, s') ∨ ∃ e, a = .error e ∧ s' = s := by
  unfold execAccount at h
  split at h
  · exact .inl (Option.some.inj h)
  · split at h
    · cases h
      exact .inr ⟨_, rfl, rfl⟩
    · exact .inl (Option.some.inj h)

theorem heard_error (F : Fact → Prop) (op : AccountOp) (e : Err) : Heard env F op (.error e) := by
  cases op <;> trivial

/-- A user is saved under a new name, or nothing happens. -/
theorem saveUser_cases {user : NewUser} {a : Except Err User} (ran : saveUser s user = (a, s')) :
    (∃ e, a = .error e ∧ s' = s) ∨ (∀ u ∈ s.users, u.username ≠ user.username) ∧
    a = .ok (user.row s.nextId) ∧
      s' = { s with users := s.users ++ [user.row s.nextId], nextId := s.nextId + 1 } := by
  simp only [saveUser] at ran
  split at ran
  · cases ran
    exact .inl ⟨_, rfl, rfl⟩
  split at ran
  · cases ran
    exact .inl ⟨_, rfl, rfl⟩
  rename_i free
  cases ran
  refine .inr ⟨?_, rfl, rfl⟩
  intro u hu same
  exact free (List.any_eq_true.mpr ⟨u, hu, by simpa using same⟩)

theorem exec_grows {op : AccountOp} {c : AccountChoice} {a : Except Err op.Ans}
    (ran : execAccount env op c s = some (a, s')) : Grows s s' := by
  rcases execAccount_cases ran with done | ⟨e, rfl, rfl⟩
  · cases op with
    | save user =>
      rcases saveUser_cases done with ⟨_, -, rfl⟩ | ⟨-, -, rfl⟩
      · exact .refl s'
      · exact ⟨List.prefix_append _ _, List.prefix_rfl⟩
    | sign payload =>
      cases done
      exact ⟨List.prefix_rfl, List.prefix_append _ _⟩
    | _ =>
      cases done
      exact .refl s
  · exact .refl s'

theorem account_step {task : AccountTask} {op : AccountOp} {c : AccountChoice}
    {a : Except Err op.Ans} (h : Sound env s) (may : (watch env (know s) task).may () op)
    (ran : execAccount env op c s = some (a, s')) :
    Sound env s' ∧ Heard env (know s') op a := by
  rcases execAccount_cases ran with done | ⟨e, rfl, rfl⟩
  · cases op with
    | save user =>
      rcases saveUser_cases done with ⟨_, rfl, rfl⟩ | ⟨newName, rfl, rfl⟩
      · exact ⟨h, heard_error _ _ _⟩
      · refine ⟨h.insert may newName, ?_⟩
        show s.users ++ [_] ≠ []
        simp
    | sign payload =>
      cases done
      obtain ⟨user, password, -, stored, claims, compared⟩ := may
      exact ⟨h.sign stored claims compared _, trivial⟩
    | count =>
      cases done
      exact ⟨h, fun some => List.length_pos_iff.mp some⟩
    | exist username =>
      cases done
      exact ⟨h, trivial⟩
    | findOne username =>
      cases done
      exact ⟨h, fun user found =>
        ⟨List.mem_of_find?_eq_some found, by simpa using List.find?_some found⟩⟩
    | hash password =>
      cases done
      exact ⟨h, c.salt, rfl⟩
    | compare password passwordHash =>
      cases done
      exact ⟨h, rfl⟩
  · exact ⟨h, heard_error _ _ _⟩

theorem Heard.grow {F F' : Fact → Prop} {op : AccountOp} {a : Except Err op.Ans}
    (h : Heard env F op a) (more : ∀ k, F k → F' k) : Heard env F' op a := by
  unfold Heard at h ⊢
  split
  · exact fun some => more _ (h some)
  · exact fun user found => ⟨more _ (h user found).1, (h user found).2⟩
  · exact more _ h
  · exact h
  · exact h
  · trivial

/-- Whom a guard lets in holds a token. -/
theorem authenticate_signed {token : ℕ} {payload : JwtPayload}
    (h : authenticate s token = some payload) :
    know s (.signed payload) := by
  unfold authenticate at h
  split at h
  · cases h
  · rename_i signed found
    split at h
    · cases h
      exact ⟨signed, List.mem_of_getElem? found, rfl⟩
    · cases h

end Steps

/-- All steps of the replicas. -/
theorem knowing (env : AccountEnv) :
    Knowing (accountMachine env) anyStep know (watch env) admits ends (Sound env) where
  code F task admitted := codeAccount_obeys task admitted
  more F F' task more admitted := by
    cases task with
    | createUser creator dto => exact ⟨more _ admitted.1, admitted.2⟩
    | _ => trivial
  request w q s task _ h entered := by
    have entered' : enterAccount q w.store = some (s, task) := entered
    cases q with
    | start =>
      cases entered'
      exact ⟨h, fun _ hk => hk, trivial⟩
    | login username password =>
      simp only [enterAccount] at entered'
      split at entered'
      · cases entered'
        exact ⟨h, fun _ hk => hk, trivial⟩
      · cases entered'
    | createUser token dto =>
      simp only [enterAccount] at entered'
      split at entered'
      · cases entered'
      rename_i payload known
      split at entered'
      · rename_i allowed
        cases entered'
        exact ⟨h, fun _ hk => hk, authenticate_signed known, allowed⟩
      · cases entered'
  resume w pid c l r t op k a s _ h _ _ may ran := by
    obtain ⟨hs, heard⟩ := account_step h may ran
    exact ⟨hs, (exec_grows ran).know, fun F known => heard.grow known⟩
  settle task out s h _ := ⟨h, fun _ hk => hk, fun _ new => by cases new⟩
  crash pid task s h := ⟨h, fun _ hk => hk⟩
  outside e s s' h happened := by
    cases happened
    exact ⟨⟨h.names, h.below, h.tokens, h.origin⟩, fun k hk => by cases k <;> exact hk⟩

/-- Only an answered call changes the tables. -/
theorem step_same {env : AccountEnv} {w w' : AccountWorld}
    {act : Act AccountRequest AccountChoice Elapsed}
    (move : (accountMachine env).step w act = some w') (other : ∀ pid c, act ≠ .resume pid c) :
    w'.store.users = w.store.users ∧ w'.store.tokens = w.store.tokens := by
  cases Machine.step_move move with
  | request s task entered eq =>
    subst eq
    rename_i q
    have entered' : enterAccount q w.store = some (s, task) := entered
    have same : s = w.store := by
      cases q with
      | start => cases entered'; rfl
      | login username password =>
        simp only [enterAccount] at entered'
        split at entered' <;> cases entered'
        rfl
      | createUser token dto =>
        simp only [enterAccount] at entered'
        repeat' split at entered'
        all_goals cases entered'
        rfl
    rw [same]
    exact ⟨rfl, rfl⟩
  | resume l r t op k a s found at_call answered eq => exact absurd rfl (other _ _)
  | settle l r t out found ended eq => exact eq ▸ ⟨rfl, rfl⟩
  | crash l r t found eq => exact eq ▸ ⟨rfl, rfl⟩
  | outside s happened eq =>
    subst eq
    cases happened
    exact ⟨rfl, rfl⟩

theorem step_grows {env : AccountEnv} {w w' : AccountWorld}
    {act : Act AccountRequest AccountChoice Elapsed}
    (move : (accountMachine env).step w act = some w') : Grows w.store w'.store := by
  by_cases answer : ∃ pid c, act = .resume pid c
  · obtain ⟨pid, c, rfl⟩ := answer
    cases Machine.step_move move with
    | resume l r t op k a s found at_call answered eq =>
      subst eq
      exact exec_grows answered
  · obtain ⟨users, tokens⟩ := step_same move fun pid c same => answer ⟨pid, c, same⟩
    exact ⟨users ▸ List.prefix_rfl, tokens ▸ List.prefix_rfl⟩

theorem reach_users {env : AccountEnv} {w w' : AccountWorld}
    (path : Reach (accountMachine env) anyStep w w') :
    w.store.users <+: w'.store.users := by
  induction path with
  | start => exact List.prefix_rfl
  | step _ _ move before => exact before.trans (step_grows move).users

theorem step_adds {env : AccountEnv} {w w' : AccountWorld}
    {act : Act AccountRequest AccountChoice Elapsed} (sound : Sound env w.store)
    (safe : ∀ t ∈ w.threads, Safe know (watch env) ends w.store t)
    (move : (accountMachine env).step w act = some w') : Adds env w w' act := by
  by_cases answer : ∃ pid c, act = .resume pid c
  · obtain ⟨pid, c, rfl⟩ := answer
    cases Machine.step_move move with
    | resume l r t op k a s found at_call answered eq =>
      have hmem := (mem_of_focus found).1
      obtain rfl : t.pid = pid := (focus_some found).2
      have obeys := safe t hmem (know w.store) fun _ hk => hk
      rw [at_call] at obeys
      have may := obeys.1
      subst eq
      rcases execAccount_cases answered with done | ⟨e, -, rfl⟩
      · cases op with
        | save user =>
          rcases saveUser_cases done with ⟨_, -, rfl⟩ | ⟨-, -, rfl⟩
          · exact ⟨.inl rfl, .inl rfl⟩
          · exact ⟨.inr ⟨t, hmem, ⟨c, rfl⟩, _, rfl, sound.asked may⟩, .inl rfl⟩
        | sign payload =>
          cases done
          obtain ⟨user, password, task, stored, claims, compared⟩ := may
          refine ⟨.inl rfl, .inr ⟨t, hmem, ⟨c, rfl⟩, _, rfl, ?_⟩⟩
          rw [task, claims]
          exact ⟨user, stored, rfl, compared, rfl⟩
        | _ =>
          cases done
          exact ⟨.inl rfl, .inl rfl⟩
      · exact ⟨.inl rfl, .inl rfl⟩
  · obtain ⟨users, tokens⟩ := step_same move fun pid c same => answer ⟨pid, c, same⟩
    exact ⟨.inl users, .inl tokens⟩

/-- In every run of an installation that starts without users: names are unique, every
user goes back to the seeded administrator, every token repeats the row of a user whose
password was given, a replica is up only when somebody can log in, and rows stay as they
were made. A row is added by a start or for an administrator who is logged in, and a token
by a login with the password of its user. -/
theorem accounts_authorised {env : AccountEnv} {w₀ w : AccountWorld} (untouched : Untouched w₀)
    (path : Reach (accountMachine env) anyStep w₀ w) :
    (w.store.users.map (·.username)).Nodup ∧
    (∀ user ∈ w.store.users, Authorised env w.store user) ∧
    (∀ token ∈ w.store.tokens, ∃ user ∈ w.store.users, token.payload = payloadOf user ∧
      ∃ password, env.bcrypt.compare password user.passwordHash = true) ∧
    (∀ t ∈ w.threads, t.task = .start → t.prog = .done (.ok ()) → w.store.users ≠ []) ∧
    (∀ act w', (accountMachine env).step w act = some w' → Adds env w w' act) ∧
    ∀ w', Reach (accountMachine env) anyStep w w' → w.store.users <+: w'.store.users := by
  have start : Sound env w₀.store := by
    constructor
    · simp [untouched.users]
    · simp [untouched.users]
    · simp [untouched.tokens]
    · simp [untouched.users]
  obtain ⟨sound, safe⟩ := (knowing env).holds untouched.threads start path
  refine ⟨sound.names, sound.authorised, sound.tokens, ?_, ?_, fun w' later => reach_users later⟩
  · intro t ht task ended
    have here := (safe t ht).1 (know w.store) fun _ hk => hk
    rw [ended, task] at here
    exact here
  · exact fun act w' move => step_adds sound (fun t ht => (safe t ht).1) move

def sampleAccounts : AccountEnv where
  config := Orchestrator.sampleConfig
  bcrypt := ⟨fun password salt => salt ++ password,
    fun password passwordHash => passwordHash == "$" ++ password⟩
  lifetime _ := 3600
  jwtExpiresIn := "1h"
  adminUsername := "admin"
  adminPassword := "change me soon"

def emptyAccounts : AccountWorld := ⟨⟨[], 0, [], 1720000000⟩, [], 0⟩

/-- Two replicas start at once and one of them seeds the administrator, who logs in and
asks for a viewer. -/
def sampleCreation : List (Act AccountRequest AccountChoice Elapsed) :=
  [.request .start, .request .start, .resume 0 {}, .resume 1 {}, .resume 0 { salt := "$" },
    .resume 1 { salt := "$" }, .resume 0 {}, .resume 1 {}, .settle 0, .settle 1,
    .request (.login "admin" "change me soon"), .resume 2 {}, .resume 2 {}, .resume 2 {}, .settle 2,
    .request (.createUser 0 ⟨"bob", "correct horse", [.viewer], none⟩), .resume 3 {},
    .resume 3 { salt := "$" }]

/-- The row of the viewer is added for the administrator. -/
theorem accounts_authorised_sample : ∃ w w', Untouched emptyAccounts ∧
    Reach (accountMachine sampleAccounts) anyStep emptyAccounts w ∧
    (accountMachine sampleAccounts).step w (.resume 3 {}) = some w' ∧
    w.store.users.map (·.username) = ["admin"] ∧
    w'.store.users.map (·.username) = ["admin", "bob"] ∧
    (∀ user ∈ w.store.users, Authorised sampleAccounts w.store user) ∧
    Adds sampleAccounts w w' (.resume 3 {}) := by
  have before : ((accountMachine sampleAccounts).steps emptyAccounts sampleCreation).map
      (fun w => w.store.users.map (·.username)) = some ["admin"] := by decide +kernel
  have after :
      ((accountMachine sampleAccounts).steps emptyAccounts (sampleCreation ++ [.resume 3 {}])).map
      (fun w => w.store.users.map (·.username)) = some ["admin", "bob"] := by decide +kernel
  obtain ⟨w', run, names'⟩ := Option.map_eq_some_iff.mp after
  obtain ⟨w, hw, move⟩ := steps_snoc _ _ run
  rw [hw] at before
  have path := reach_of_steps _ hw
  obtain ⟨-, authorised, -, -, adds, -⟩ := accounts_authorised ⟨rfl, rfl, rfl⟩ path
  exact ⟨w, w', ⟨rfl, rfl, rfl⟩, path, move, Option.some.inj before, names', authorised,
    adds _ w' move⟩

/-! ## Without interference -/

section Alone
variable (env : AccountEnv) (s : AccountState) (pid : ℕ)

/-- The users after a sequential `createUser`. -/
def usersAfter (s : AccountState) : Except Err (User × List User) → List User
  | .ok (_, users) => users
  | .error _ => s.users

/-- Alone, `createUser` is the sequential one. -/
theorem createUser_alone (dto : CreateUserDto) (salt : String) :
    ∃ s', Drives (accountMachine env).exec pid (AuthService.createUser env dto) s
        (.done ((Authentication.createUser env.config env.bcrypt s.users dto s.nextId salt).map
          fun x => (payloadOf x.1).principal)) s' ∧
      s'.users = usersAfter s
        (Authentication.createUser env.config env.bcrypt s.users dto s.nextId salt) := by
  have checked : Drives (accountMachine env).exec pid (account (.exist dto.username)) s
      (.done (.ok (s.users.any fun u => u.username = dto.username))) s := drives_call (c := {}) rfl
  have hashed : Drives (accountMachine env).exec pid (account (.hash dto.password)) s
      (.done (.ok (env.bcrypt.hash dto.password salt))) s := drives_call (c := { salt := salt }) rfl
  let new : NewUser := ⟨dto.username, env.bcrypt.hash dto.password salt, dto.roles,
    some (storedTenant env.config dto)⟩
  have saved :
      Drives (accountMachine env).exec pid (account (.save new)) s (.done (saveUser s new).1)
      (saveUser s new).2 := drives_call (c := {}) rfl
  have row : new.row s.nextId =
      ⟨s.nextId, dto.username, env.bcrypt.hash dto.password salt,
        storedTenant env.config dto, dto.roles⟩ := by
    simp only [new, NewUser.row, storedRoles_eq, Option.getD_some]
  unfold Authentication.createUser
  by_cases taken : (s.users.any fun u => u.username = dto.username) = true
  · rw [if_pos taken]
    refine ⟨s, Drives.seq checked ?_, rfl⟩
    rw [if_pos taken]
    exact .here _ _
  · rw [if_neg taken]
    by_cases fitting : (fits nameColumn dto.username &&
      fits tenantColumn (storedTenant env.config dto) &&
        fits nameColumn (env.bcrypt.hash dto.password salt)) = true
    · have result : saveUser s new = (.ok (new.row s.nextId),
          { s with users := s.users ++ [new.row s.nextId], nextId := s.nextId + 1 }) := by
        simp only [saveUser, row, User.fitsTable, fitting, Bool.not_true,
          Bool.false_eq_true, if_false]
        exact if_neg taken
      rw [result] at saved
      simp only [if_pos fitting, ← row]
      refine ⟨{ s with users := s.users ++ [new.row s.nextId], nextId := s.nextId + 1 },
        Drives.seq checked ?_, rfl⟩
      rw [if_neg taken]
      exact Drives.seq hashed (Drives.seq saved (.here _ _))
    · have result : saveUser s new =
          (.error (.other "QueryFailedError" "value does not fit its column"), s) := by
        simp only [saveUser, row, User.fitsTable, Bool.not_eq_true _ ▸ fitting,
          Bool.not_false, if_true]
      rw [result] at saved
      simp only [if_neg fitting]
      refine ⟨s, Drives.seq checked ?_, rfl⟩
      rw [if_neg taken]
      exact Drives.seq hashed (saved.bind _)

/-- Alone, `login` is the sequential one, with a token for its payload. -/
theorem login_alone (username password : String) :
    ∃ s', Drives (accountMachine env).exec pid (AuthService.login env username password) s
        (.done ((Authentication.login env.bcrypt s.users username password).map
          fun payload => ⟨s.tokens.length, "Bearer", env.jwtExpiresIn, payload.roles⟩)) s' ∧
      s'.tokens.map (·.payload) = s.tokens.map (·.payload) ++
        (Authentication.login env.bcrypt s.users username password).toOption.toList := by
  have looked : Drives (accountMachine env).exec pid (account (.findOne username)) s
      (.done (.ok (s.users.find? fun u => u.username = username))) s := drives_call (c := {}) rfl
  unfold Authentication.login Authentication.validateUser
  cases found : s.users.find? (fun u => u.username = username) with
  | none =>
    rw [found] at looked
    refine ⟨s, Drives.seq (Drives.seq looked (.here _ _)) (.here _ _), ?_⟩
    simp
    rfl
  | some user =>
    rw [found] at looked
    have compared :
        Drives (accountMachine env).exec pid (account (.compare password user.passwordHash)) s
        (.done (.ok (env.bcrypt.compare password user.passwordHash))) s := drives_call (c := {}) rfl
    by_cases same : env.bcrypt.compare password user.passwordHash = true
    · rw [same] at compared
      have signed : Drives (accountMachine env).exec pid (account (.sign (payloadOf user))) s _ _ :=
        drives_call (c := {}) rfl
      simp only [if_pos same]
      refine ⟨_, Drives.seq (Drives.seq looked (Drives.seq compared (.here _ _)))
        (Drives.seq signed (.here _ _)), ?_⟩
      simp [payloadOf, Except.toOption]
    · simp only [Bool.not_eq_true] at same
      rw [same] at compared
      simp only [same, Bool.false_eq_true, if_false]
      refine ⟨s, Drives.seq (Drives.seq looked (Drives.seq compared (.here _ _))) (.here _ _), ?_⟩
      simp [Except.toOption]

end Alone

end AccountAuthority
