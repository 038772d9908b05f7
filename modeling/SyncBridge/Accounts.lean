import SyncBridge.Authentication
import SyncBridge.SimpleArrays
import SyncBridge.ThreadPools

/-!
# Accounts as the replicas keep them

`AuthService` once more, now with what it waits for: replicas start at the same time,
several users are created at once, and logins run in between. The first start seeds an
administrator. The table has a unique index on the name; the check that comes before an
insert does not exclude a race, the index does.

A token cannot be forged: it is the number of an entry in the list of signed payloads,
with the time it expires. Times are in seconds. Route guards are part of what lets a
request in. Rows are never updated or deleted.
-/

namespace Accounts

open AwaitPrograms ThreadPools Entities Authentication SimpleArrays

def roleName : Role → String
  | .admin => "admin"
  | .operator => "operator"
  | .viewer => "viewer"

def roleNamed (name : String) : Option Role :=
  if name = "admin" then some .admin
  else if name = "operator" then some .operator
  else if name = "viewer" then some .viewer
  else none

/-- The roles that a saved column gives back. -/
def storedRoles (roles : List Role) : List Role := stored roleName roleNamed roles

/-- What `repository.create` is given; the tenant has a default in the table. -/
structure NewUser where
  username : String
  passwordHash : String
  roles : List Role
  tenantId : Option String
  deriving DecidableEq, Repr

/-- The default of the column `tenant_id`. -/
def columnTenant : String := "default"

inductive AccountOp where
  | count
  | exist (username : String)
  | findOne (username : String)
  | save (user : NewUser)
  | hash (password : String)
  | compare (password passwordHash : String)
  | sign (payload : JwtPayload)
  deriving DecidableEq, Repr

@[reducible] def AccountOp.Ans : AccountOp → Type
  | .count => Nat
  | .exist _ => Bool
  | .findOne _ => Option User
  | .save _ => User
  | .hash _ => String
  | .compare _ _ => Bool
  | .sign _ => Nat

/-- Signing is local and cannot fail. -/
def AccountOp.mayFail : AccountOp → Bool
  | .sign _ => false
  | _ => true

structure SignedToken where
  payload : JwtPayload
  expiresAt : Nat
  deriving DecidableEq, Repr

structure AccountState where
  users : List User
  nextId : Nat
  tokens : List SignedToken
  now : Nat
  deriving DecidableEq, Repr

/-- `lifetime` reads a period such as `1h` as seconds. -/
structure AccountEnv where
  config : AppConfig
  bcrypt : Bcrypt
  lifetime : String → Nat
  jwtExpiresIn : String
  adminUsername : String
  adminPassword : String

/-- A rejection, and the salt that is drawn. -/
structure AccountChoice where
  fault : Option (String × String) := none
  salt : String := ""

section Calls
variable (env : AccountEnv)

/-- The row of a new user. -/
def NewUser.row (user : NewUser) (id : Nat) : User :=
  ⟨id, user.username, user.passwordHash, user.tenantId.getD columnTenant, storedRoles user.roles⟩

def User.fitsTable (user : User) : Bool :=
  fits nameColumn user.username && fits tenantColumn user.tenantId &&
    fits nameColumn user.passwordHash

def saveUser (s : AccountState) (user : NewUser) : Except Err User × AccountState :=
  let row := user.row s.nextId
  if !User.fitsTable row then
    (.error (.other "QueryFailedError" "value does not fit its column"), s)
  else if s.users.any fun u => u.username = user.username then (.error .uniqueViolation, s)
  else (.ok row, { s with users := s.users ++ [row], nextId := s.nextId + 1 })

def performAccount (c : AccountChoice) (s : AccountState) :
    (op : AccountOp) → Except Err op.Ans × AccountState
  | .count => (.ok s.users.length, s)
  | .exist username => (.ok (s.users.any fun u => u.username = username), s)
  | .findOne username => (.ok (s.users.find? fun u => u.username = username), s)
  | .save user => saveUser s user
  | .hash password => (.ok (env.bcrypt.hash password c.salt), s)
  | .compare password passwordHash => (.ok (env.bcrypt.compare password passwordHash), s)
  | .sign payload =>
    (.ok s.tokens.length,
      { s with tokens := s.tokens ++ [⟨payload, s.now + env.lifetime env.jwtExpiresIn⟩] })

def execAccount (op : AccountOp) (c : AccountChoice) (s : AccountState) :
    Option (Except Err op.Ans × AccountState) :=
  match c.fault with
  | none => some (performAccount env c s op)
  | some (name, message) =>
    if op.mayFail then some (.error (.other name message), s) else some (performAccount env c s op)

end Calls

abbrev AccountAsync (α : Type) := Prog AccountOp AccountOp.Ans Err α

def account (op : AccountOp) : AccountAsync op.Ans := Prog.call op

structure LoginResult where
  accessToken : Nat
  tokenType : String
  expiresIn : String
  roles : List Role
  deriving DecidableEq, Repr

namespace AuthService
variable (env : AccountEnv)

/-- The administrator of a fresh installation. -/
def bootstrapAdmin (passwordHash : String) : NewUser :=
  ⟨env.adminUsername, passwordHash, [.admin], none⟩

def onModuleInit : AccountAsync Unit := do
  let n ← account .count
  if 0 < n then return ()
  else do
    let passwordHash ← account (.hash env.adminPassword)
    let _ ← account (.save (bootstrapAdmin env passwordHash))
    return ()

def validateUser (username password : String) : AccountAsync (Option AuthUser) := do
  let user ← account (.findOne username)
  match user with
  | none => return none
  | some user => do
    let same ← account (.compare password user.passwordHash)
    if same then return some ⟨user.id, user.username, user.roles, user.tenantId⟩ else return none

def login (username password : String) : AccountAsync LoginResult := do
  let user ← validateUser username password
  match user with
  | none => Prog.throw (.other "UnauthorizedException" "Invalid credentials")
  | some user => do
    let token ← account (.sign ⟨user.userId, user.username, user.roles, user.tenantId⟩)
    return ⟨token, "Bearer", env.jwtExpiresIn, user.roles⟩

/-- The new row is returned without its hash. -/
def createUser (dto : CreateUserDto) : AccountAsync AuthUser := do
  let exist ← account (.exist dto.username)
  if exist then Prog.throw (.conflict ("User \"" ++ dto.username ++ "\" already exists"))
  else do
    let passwordHash ← account (.hash dto.password)
    let user ← account (.save ⟨dto.username, passwordHash, dto.roles,
      some (storedTenant env.config dto)⟩)
    return ⟨user.id, user.username, user.roles, user.tenantId⟩

end AuthService

/-! ## Replicas at work -/

inductive AccountTask where
  | start
  | login (username password : String)
  | createUser (creator : JwtPayload) (dto : CreateUserDto)

def unwatched {α : Type} (p : AccountAsync α) : AccountAsync Unit := p.bind fun _ => .done (.ok ())

def codeAccount (env : AccountEnv) : AccountTask → AccountAsync Unit
  | .start => AuthService.onModuleInit env
  | .login username password => unwatched (AuthService.login env username password)
  | .createUser _ dto => unwatched (AuthService.createUser env dto)

inductive AccountRequest where
  | start
  | login (username password : String)
  | createUser (token : Nat) (dto : CreateUserDto)

/-- `JwtAuthGuard`: the payload of a token that has been signed and has not expired. -/
def authenticate (s : AccountState) (token : Nat) : Option JwtPayload :=
  match s.tokens[token]? with
  | none => none
  | some signed => if s.now < signed.expiresAt then some signed.payload else none

/-- `LoginDto`, and `Roles(ADMIN)` with `CreateUserDto`. -/
def enterAccount : AccountRequest → AccountState → Option (AccountState × AccountTask)
  | .start, s => some (s, .start)
  | .login username password, s =>
    if username ≠ "" ∧ password ≠ "" then some (s, .login username password) else none
  | .createUser token dto, s => match authenticate s token with
    | none => none
    | some payload =>
      if Role.admin ∈ payload.roles ∧ dto.valid = true then some (s, .createUser payload dto)
      else none

/-- Time passes. -/
structure Elapsed where
  seconds : Nat

def accountMachine (env : AccountEnv) :
    Machine AccountState AccountTask AccountOp AccountOp.Ans Err Unit
    AccountRequest AccountChoice Elapsed where
  exec _ := execAccount env
  enter := enterAccount
  code := codeAccount env
  finish _ _ s := (s, [])
  drop _ _ s := s
  outside e s := some { s with now := s.now + e.seconds }

abbrev AccountWorld := World AccountState AccountTask AccountOp AccountOp.Ans Err Unit

/-- No users, no tokens, nothing running. -/
structure Untouched (w : AccountWorld) : Prop where
  threads : w.threads = []
  users : w.store.users = []
  tokens : w.store.tokens = []

end Accounts
