import SyncBridge.Entities

/-!
# Accounts and principals

`AuthService` with the validation of its input. A token stands for the payload
it carries: signing and checking it are left out, and so are the seeded first
administrator and the route guards. The hash of a password is a parameter.
-/

namespace Authentication

open Entities

/-- A row of `users`. -/
structure User where
  id : Nat
  username : String
  passwordHash : String
  tenantId : String
  roles : List Role
  deriving DecidableEq, Repr

/-- The request body after its transformation; an absent tenant and `null` are `none`. -/
structure CreateUserDto where
  username : String
  password : String
  roles : List Role
  tenantId : Option String
  deriving DecidableEq, Repr

/-- The decorators of `CreateUserDto`. The tenant is optional and any string will do. -/
def CreateUserDto.valid (dto : CreateUserDto) : Bool :=
  dto.username ≠ "" && 8 ≤ dto.password.length && !dto.roles.isEmpty

/-- `bcrypt` with the salt it draws. -/
structure Bcrypt where
  hash : String → String → String
  compare : String → String → Bool

structure JwtPayload where
  sub : Nat
  username : String
  roles : List Role
  tenantId : String
  deriving DecidableEq, Repr

/-- What `JwtStrategy.validate` attaches to a request. -/
def JwtPayload.principal (payload : JwtPayload) : AuthUser :=
  ⟨payload.sub, payload.username, payload.roles, payload.tenantId⟩

def tenantColumn : Nat := 100

def nameColumn : Nat := 255

/-- A text fits its column: no longer than declared, and without a zero character. -/
def fits (length : Nat) (text : String) : Bool :=
  text.length ≤ length && !text.toList.contains '\x00'

section Service
variable (config : AppConfig) (bcrypt : Bcrypt)

/-- The tenant stored for a new user. -/
def storedTenant (dto : CreateUserDto) : String := dto.tenantId.getD config.defaultTenant

/-- The saved user and the table that holds it. -/
def createUser (users : List User) (dto : CreateUserDto) (id : Nat) (salt : String) :
    Except Err (User × List User) :=
  if users.any fun u => u.username = dto.username then
    .error (.conflict ("User \"" ++ dto.username ++ "\" already exists"))
  else
    let user : User :=
      ⟨id, dto.username, bcrypt.hash dto.password salt, storedTenant config dto, dto.roles⟩
    if fits nameColumn user.username && fits tenantColumn user.tenantId &&
        fits nameColumn user.passwordHash then .ok (user, users ++ [user])
    else .error (.other "QueryFailedError" "value does not fit its column")

def validateUser (users : List User) (username password : String) : Option AuthUser :=
  match users.find? fun u => u.username = username with
  | none => none
  | some user =>
    if bcrypt.compare password user.passwordHash then
      some ⟨user.id, user.username, user.roles, user.tenantId⟩
    else none

def login (users : List User) (username password : String) : Except Err JwtPayload :=
  match validateUser bcrypt users username password with
  | none => .error (.other "UnauthorizedException" "Invalid credentials")
  | some user => .ok ⟨user.userId, user.username, user.roles, user.tenantId⟩

end Service

variable {config : AppConfig} {bcrypt : Bcrypt} {users users' : List User} {dto : CreateUserDto}

theorem createUser_ok {id : Nat} {salt : String} {user : User}
    (h : createUser config bcrypt users dto id salt = .ok (user, users')) :
    user = ⟨id, dto.username, bcrypt.hash dto.password salt, storedTenant config dto, dto.roles⟩ ∧
      users' = users ++ [user] := by
  unfold createUser at h
  split at h
  · cases h
  · dsimp only at h
    split at h
    · cases h
      exact ⟨rfl, rfl⟩
    · cases h

/-- Whoever logs in under a name is the one user of that name. -/
theorem login_principal {user : User} {password : String} {payload : JwtPayload}
    (unique : (users.map (·.username)).Nodup) (stored : user ∈ users)
    (h : login bcrypt users user.username password = .ok payload) :
    payload.principal = ⟨user.id, user.username, user.roles, user.tenantId⟩ := by
  have found : users.find? (fun u => u.username = user.username) = some user :=
    find_unique unique stored
  unfold login validateUser at h
  rw [found] at h
  dsimp only at h
  split at h
  · cases h
  · rename_i principal hp
    cases h
    split at hp
    · cases hp
      rfl
    · cases hp

end Authentication
