import SyncBridge.Accounts
import SyncBridge.DownloadHeaders
import SyncBridge.Outbound

/-!
# The application behind its routes

The controllers with their guards and pipes, `AllExceptionsFilter`, and the whole
application as one pool: HTTP requests, the workers and timers of the orchestrator, and
replicas that start. A request passes the guards before the pipes, and both before its
handler; whatever is thrown becomes a reply. A bearer token is looked up when the
request arrives.

A body is given after its transformation to the DTO. Properties of another type than
declared are left out, and so are the time stamp of an error, logging, the health and
metrics endpoints and the pages of the admin UI.
-/

namespace Gateway

open AwaitPrograms CombinedCalls ThreadPools NodeCrypto Entities Database Calls Ingestion Management
open Worker Orchestrator Outbound Authentication Accounts DownloadHeaders

/-! ## Routes -/

structure LoginDto where
  username : String
  password : String
  deriving DecidableEq, Repr

/-- A path parameter; `none` is no identifier. -/
abbrev IdParam := Option Nat

inductive Route where
  | onUpload (payload : SftpgoWebhookDto)
  | login (dto : LoginDto)
  | createUser (dto : CreateUserDto)
  | listTransfers (query : ListTransfersQueryDto)
  | getTransfer (id : IdParam)
  | download (id : IdParam)
  | retry (id : IdParam)
  | retryBatch (dto : RetryBatchDto)
  | createSubscription (dto : CreateSubscriptionDto)
  | listSubscriptions
  | removeSubscription (id : IdParam)
  | usage (tenant : Option String)

/-- A request: its tokens, and the URL that an error repeats. -/
structure HttpCall where
  route : Route
  bearer : Option Nat
  headerToken : Option String
  queryToken : Option String
  carrier : List (String × String)
  url : String

/-- The roles of a route behind `JwtAuthGuard`; the other routes have none. An empty list
asks for authentication only. -/
def Route.roles : Route → Option (List Role)
  | .onUpload _ => none
  | .login _ => none
  | .createUser _ => some [.admin]
  | .listTransfers _ => some [.viewer, .operator, .admin]
  | .getTransfer _ => some [.viewer, .operator, .admin]
  | .download _ => some [.viewer, .operator, .admin]
  | .retry _ => some [.operator, .admin]
  | .retryBatch _ => some [.operator, .admin]
  | .createSubscription _ => some [.operator, .admin]
  | .listSubscriptions => some [.viewer, .operator, .admin]
  | .removeSubscription _ => some [.operator, .admin]
  | .usage _ => some []

/-! ## Errors -/

inductive Message where
  | one (text : String)
  | many (texts : List String)
  deriving DecidableEq, Repr

/-- What a handler, a guard or a pipe throws. `error` is the field of the response, which
an exception without a message of its own does not have. -/
inductive Thrown where
  | http (name : String) (status : Nat) (error : Option String) (message : Message)
  | internal (err : Err)
  deriving DecidableEq, Repr

def thrownBy : Err → Thrown
  | .notFound message => .http "NotFoundException" 404 (some "Not Found") (.one message)
  | .conflict message => .http "ConflictException" 409 (some "Conflict") (.one message)
  | .other "UnauthorizedException" message =>
    .http "UnauthorizedException" 401 (some "Unauthorized") (.one message)
  | err => .internal err

structure ErrorBody where
  statusCode : Nat
  error : String
  message : Message
  path : String
  deriving DecidableEq, Repr

/-- `AllExceptionsFilter.catch`. -/
def catchAll (url : String) : Thrown → ErrorBody
  | .http name status error message => ⟨status, error.getD name, message, url⟩
  | .internal _ => ⟨500, "InternalServerError", .one "Internal server error", url⟩

/-! ## Guards and pipes -/

/-- `matches`: the bytes are compared after their length. -/
def tokenMatches (secret provided : String) : Bool :=
  (utf8 provided).length = (utf8 secret).length && utf8 provided = utf8 secret

/-- `WebhookAuthGuard.canActivate`: the header wins over the query, and an empty token is
none. -/
def webhookAllowed (secret : String) (call : HttpCall) : Bool :=
  match call.headerToken.or call.queryToken with
  | none => false
  | some provided => provided ≠ "" && tokenMatches secret provided

/-- `RolesGuard.canActivate`. -/
def rolesAllow (required : List Role) (user : AuthUser) : Bool :=
  required.isEmpty || required.any fun r => user.roles.contains r

def forbidden (required : List Role) : Thrown :=
  .http "ForbiddenException" 403 (some "Forbidden")
    (.one ("Requires one of roles: " ++ String.intercalate ", " (required.map roleName)))

/-- The guards of a route, before anything else. -/
def guards (secret : String) (who : Option AuthUser) (call : HttpCall) : Option Thrown :=
  match call.route.roles with
  | some required => match who with
    | none => some (.http "UnauthorizedException" 401 none (.one "Unauthorized"))
    | some user => if rolesAllow required user then none else some (forbidden required)
  | none => match call.route with
    | .onUpload _ =>
      if webhookAllowed secret call then none
      else some (.http "UnauthorizedException" 401 (some "Unauthorized")
        (.one "Invalid webhook token"))
    | _ => none

def notEmpty (field value : String) : List String :=
  if value = "" then [field ++ " should not be empty"] else []

def within (field : String) (least most value : Nat) : List String :=
  if value < least then [field ++ " must not be less than " ++ toString least]
  else if most < value then [field ++ " must not be greater than " ++ toString most]
  else []

section Application
variable (env : OutEnv)

/-- What the decorators of the DTO object to. -/
def objections : Route → List String
  | .onUpload p =>
    notEmpty "action" p.action ++ notEmpty "username" p.username ++ notEmpty "path" p.path ++
      notEmpty "virtual_path" p.virtualPath
  | .login dto => notEmpty "username" dto.username ++ notEmpty "password" dto.password
  | .createUser dto =>
    notEmpty "username" dto.username ++
      (if dto.password.length < 8 then ["password must be longer than or equal to 8 characters"]
        else []) ++
      (if dto.roles.isEmpty then ["roles should not be empty"] else [])
  | .listTransfers query => within "limit" 1 200 query.limit
  | .retryBatch dto => within "limit" 1 1000 dto.limit
  | .createSubscription dto =>
    (if env.isUrl dto.url then [] else ["url must be a URL address"]) ++
      (if dto.events.isEmpty then ["events should not be empty"] else [])
  | _ => []

/-- The identifier in the path, of the routes that have one. -/
def Route.idParam : Route → Option IdParam
  | .getTransfer id => some id
  | .download id => some id
  | .retry id => some id
  | .removeSubscription id => some id
  | _ => none

/-- `ParseUUIDPipe` and the global `ValidationPipe`. -/
def pipes (route : Route) : Option Thrown :=
  if route.idParam = some none then
    some (.http "BadRequestException" 400 (some "Bad Request")
      (.one "Validation failed (uuid is expected)"))
  else match objections env route with
    | [] => none
    | texts => some (.http "BadRequestException" 400 (some "Bad Request") (.many texts))

/-! ## Handlers -/

structure UsageSummary where
  tenantId : String
  objectCount : Nat
  bytesStored : Nat
  maxBytes : Nat
  maxObjects : Nat
  deriving DecidableEq, Repr

/-- `QuotaService.summary`. -/
def summary (env : Env) (tenantId : String) : Async UsageSummary := do
  let usage ← getUsage tenantId
  let quota := getQuota env tenantId
  return ⟨tenantId, usage.objectCount, usage.bytesStored, quota.maxBytes, quota.maxObjects⟩

/-- Only administrators may look at another tenant; an empty parameter counts as none. -/
def usageTarget (tenant : Option String) (user : AuthUser) : String :=
  match Routing.present tenant with
  | none => user.tenantId
  | some tenant => if user.roles.contains .admin then tenant else user.tenantId

inductive ReplyBody (L : Library) where
  | none
  | error (body : ErrorBody)
  | outcome (o : AcceptOutcome)
  | login (result : LoginResult)
  | user (user : AuthUser)
  | page (p : PaginatedTransfers)
  | transfer (t : FileTransfer)
  | file (headers : List (String × List Char)) (d : DownloadResult L)
  | requeued (r : RetryBatchResult)
  | subscription (s : EventSubscription)
  | subscriptions (s : List EventSubscription)
  | usage (u : UsageSummary)

structure HttpReply (L : Library) where
  status : Nat
  body : ReplyBody L

abbrev AppOp := (Op ⊕ NetOp) ⊕ AccountOp

@[reducible] def AppAns : AppOp → Type := Either (Either Op.Ans NetOp.Ans) AccountOp.Ans

abbrev AppAsync (α : Type) := Prog AppOp AppAns Err α

/-- A function of the services, of the subscription services, and of the accounts. -/
def fromCore {α : Type} (p : Async α) : AppAsync α := left (left p)

def fromOut {α : Type} (p : OutAsync α) : AppAsync α := left p

def fromAccounts {α : Type} (p : AccountAsync α) : AppAsync α := right p

/-- `res.set` and the file; the runtime refuses a header with a character it may not hold. -/
def sendFile {L : Library} (d : DownloadResult L) : AppAsync (HttpReply L) :=
  match (downloadHeaders d).find? fun h => HttpHeaders.checkInvalidHeaderChar h.2 with
  | some (name, _) =>
    Prog.throw (.other "TypeError" ("Invalid character in header content [\"" ++ name ++ "\"]"))
  | none => pure ⟨200, .file (downloadHeaders d) d⟩

theorem sendFile_obeys {L : Library} {d : DownloadResult L} {σ : Type}
    {m : Monitor AppOp AppAns Err σ} {q : σ → Except Err (HttpReply L) → Prop} {s : σ}
    (sent : q s (.ok ⟨200, .file (downloadHeaders d) d⟩))
    (refused : ∀ message, q s (.error (.other "TypeError" message))) :
    Obeys m q s (sendFile d) := by
  unfold sendFile
  split
  · exact refused _
  · exact sent

variable (accounts : AccountEnv)

/-- The handler of a route; the guards have seen to it that there is a user. -/
def handler (user : AuthUser) (carrier : List (String × String)) :
    Route → AppAsync (HttpReply env.core.crypto)
  | .onUpload payload =>
    (fromCore (accept env.core payload carrier)).bind fun o => pure ⟨200, .outcome o⟩
  | .login dto =>
    (fromAccounts (AuthService.login accounts dto.username dto.password)).bind fun r =>
      pure ⟨200, .login r⟩
  | .createUser dto =>
    (fromAccounts (AuthService.createUser accounts dto)).bind fun u => pure ⟨201, .user u⟩
  | .listTransfers query =>
    (fromCore (Management.list query user)).bind fun p => pure ⟨200, .page p⟩
  | .getTransfer id =>
    (fromCore (Management.getById (id.getD 0) user)).bind fun t => pure ⟨200, .transfer t⟩
  | .download id => (fromCore (Management.download env.core (id.getD 0) user)).bind sendFile
  | .retry id =>
    (fromCore (Management.retry env.core (id.getD 0) user)).bind fun t => pure ⟨200, .transfer t⟩
  | .retryBatch dto =>
    (fromCore (Management.retryBatch env.core dto user)).bind fun r => pure ⟨200, .requeued r⟩
  | .createSubscription dto => (fromOut (SubscriptionsService.create user dto)).bind fun s =>
      pure ⟨201, .subscription s⟩
  | .listSubscriptions =>
    (fromOut (SubscriptionsService.list user)).bind fun s => pure ⟨200, .subscriptions s⟩
  | .removeSubscription id => (fromOut (SubscriptionsService.remove user (id.getD 0))).bind fun _ =>
      pure ⟨204, .none⟩
  | .usage tenant =>
    (fromCore (summary env.core (usageTarget tenant user))).bind fun u => pure ⟨200, .usage u⟩

/-- The principal of a route without `JwtAuthGuard`, which no handler looks at. -/
def nobody : AuthUser := ⟨0, "", [], ""⟩

def refusal (url : String) (thrown : Thrown) : HttpReply env.core.crypto :=
  ⟨(catchAll url thrown).statusCode, .error (catchAll url thrown)⟩

def handle (secret : String) (who : Option AuthUser) (call : HttpCall) :
    AppAsync (HttpReply env.core.crypto) :=
  match (guards secret who call).or (pipes env call.route) with
  | some thrown => pure (refusal env call.url thrown)
  | none => Prog.tryCatch (handler env accounts (who.getD nobody) call.carrier call.route) fun e =>
      pure (refusal env call.url (thrownBy e))

end Application

/-! ## The running application -/

structure AppEnv where
  out : OutEnv
  accounts : AccountEnv
  webhookSecret : String

structure AppState where
  out : OutState
  accounts : AccountState

structure AppChoice where
  out : OutChoice := {}
  account : AccountChoice := {}

def execApp (env : AppEnv) (pid : Nat) : (op : AppOp) → AppChoice → AppState →
    Option (Except Err (AppAns op) × AppState)
  | .inl op, c, s => match execOut env.out pid op c.out s.out with
    | none => none
    | some (a, out) => some (a, { s with out := out })
  | .inr op, c, s => match execAccount env.accounts op c.account s.accounts with
    | none => none
    | some (a, accounts) => some (a, { s with accounts := accounts })

inductive AppTask where
  | service (task : OutTask)
  | start
  | http (who : Option AuthUser) (call : HttpCall)

/-- What a task ends with; a request ends with its reply. -/
inductive AppReply (L : Library) where
  | service (r : Reply)
  | http (r : HttpReply L)

/-- The end as the queues see it. -/
def AppReply.reply {L : Library} : AppReply L → Reply
  | .service r => r
  | .http _ => .finished

def codeApp (env : AppEnv) : AppTask → AppAsync (AppReply env.out.core.crypto)
  | .service task => (fromOut (codeOut env.out task)).bind fun r => pure (.service r)
  | .start =>
    (fromAccounts (AuthService.onModuleInit env.accounts)).bind fun _ => pure (.service .finished)
  | .http who call =>
    (handle env.out env.accounts env.webhookSecret who call).bind fun r => pure (.http r)

inductive AppRequest where
  | service (q : OutRequest)
  | start
  | http (call : HttpCall)

/-- Timers and queues; everything else comes over HTTP. -/
def background : OutRequest → Bool
  | .core (.relayTick _) => true
  | .core (.takeJob _) => true
  | .core (.sweepTick _) => true
  | .core .purgeTick => true
  | .takeDelivery _ => true
  | .takeDeadLetter _ => true
  | _ => false

/-- `JwtAuthGuard` with `JwtStrategy.validate`. -/
def callerOf (s : AppState) (call : HttpCall) : Option AuthUser :=
  match call.bearer with
  | none => none
  | some token => (authenticate s.accounts token).map JwtPayload.principal

def enterApp (env : AppEnv) : AppRequest → AppState → Option (AppState × AppTask)
  | .service q, s =>
    if background q then match enterOut env.out q s.out with
      | none => none
      | some (out, task) => some ({ s with out := out }, .service task)
    else none
  | .start, s => some (s, .start)
  | .http call, s => some (s, .http (callerOf s call) call)

def finishApp (env : AppEnv) :
    AppTask → Except Err (AppReply env.out.core.crypto) → AppState → AppState × List AppTask
  | .service task, out, s =>
    ({ s with out := (finishOut env.out task (out.map AppReply.reply) s.out).1 },
      (finishOut env.out task (out.map AppReply.reply) s.out).2.map .service)
  | _, _, s => (s, [])

/-- A request that is lost leaves its transaction to be rolled back. -/
def dropApp (pid : Nat) : AppTask → AppState → AppState
  | .service task, s => { s with out := dropOut pid task s.out }
  | .start, s => s
  | .http _ _, s =>
    { s with out := { s.out with core := { s.out.core with db := s.out.core.db.dropTx pid } } }

inductive AppEvent where
  | out (e : OutEvent)
  | elapsed (seconds : Nat)

def outsideApp : AppEvent → AppState → Option AppState
  | .out e, s => match outsideOut e s.out with
    | none => none
    | some out => some { s with out := out }
  | .elapsed seconds, s =>
    some { s with accounts := { s.accounts with now := s.accounts.now + seconds } }

def appMachine (env : AppEnv) :
    Machine AppState AppTask AppOp AppAns Err
      (AppReply env.out.core.crypto) AppRequest AppChoice AppEvent where
  exec := execApp env
  enter := enterApp env
  code := codeApp env
  finish := finishApp env
  drop := dropApp
  outside := outsideApp

abbrev AppWorld (env : AppEnv) :=
  World AppState AppTask AppOp AppAns Err (AppReply env.out.core.crypto)

abbrev AppThread (env : AppEnv) := Thread AppTask AppOp AppAns Err (AppReply env.out.core.crypto)

abbrev AppAct := Act AppRequest AppChoice AppEvent

end Gateway
