import Mathlib.Data.List.AList
import SyncBridge.JsValues
import SyncBridge.LossyUtf8

/-!
# The environment and its validation

`resolveFileSecrets` replaces variables by the contents of the files that other variables
name, in the order in which the variables stand. `validateEnv` then converts and checks the
variables declared in `EnvironmentVariables`. The configuration it is given was copied before
the files were read and wins over what they hold.
-/

namespace Environment

open ChunkTransforms JsValues LossyUtf8

abbrev Text := List Char

/-- `process.env` and its copies: the variables in their order, no name twice. -/
abbrev Environ := AList fun _ : String => Text

/-- What each path reads as, where it can be read. -/
abbrev Files := Text → Option Bytes

/-! ## Secrets in files -/

def fileSuffix : String := "_FILE"

/-- The operating system ends a value before its first NUL character. -/
def kept (value : Text) : Text := value.takeWhile (· ≠ '\x00')

/-- The secret at a path. An empty path and an unreadable file give none. -/
def readSecret (files : Files) (path : Text) : Option Text :=
  if path = [] then none else (files path).map fun content => kept (trim (decode content))

/-- One round of the loop of `resolveFileSecrets`. -/
def resolveKey (files : Files) (env : Environ) (key : String) : Environ :=
  if fileSuffix.toList.isSuffixOf key.toList then
    let base := String.ofList (key.toList.take (key.toList.length - fileSuffix.toList.length))
    match (env.lookup key).bind (readSecret files) with
    | some secret => env.insert base secret
    | none => env
  else env

def resolveFileSecrets (files : Files) (env : Environ) : Environ :=
  env.keys.foldl (resolveKey files) env

/-! ## Declared variables -/

/-- The values of the instance that is validated. -/
inductive Value where
  | undefined
  | number (x : JsNumber)
  | boolean (b : Bool)
  | string (s : Text)
deriving DecidableEq

/-- `['true', '1', 'yes', 'on'].includes(value.toLowerCase())`. -/
def spellsOn (value : Text) : Bool :=
  (["true", "1", "yes", "on"].map String.toList).contains (toLowerCase value)

def toBoolean (value : Text) : Bool := spellsOn (trim value)

/-- What a failed check is reported with. -/
inductive Constraint where
  | isInt
  | min (low : ℕ)
  | max (high : ℕ)
  | isBoolean
  | isString
  | isNotEmpty
  | isIn (allowed : List Text)
deriving DecidableEq

def Constraint.holds : Constraint → Value → Bool
  | isInt, .number x => x.isInteger
  | min low, .number x => x.atLeast low
  | max high, .number x => x.atMost high
  | isBoolean, .boolean _ => true
  | isString, .string _ => true
  | isNotEmpty, value => value ≠ .undefined && value ≠ .string []
  | isIn allowed, .string s => allowed.contains s
  | _, _ => false

def Constraint.message (property : String) : Constraint → String
  | isInt => property ++ " must be an integer number"
  | min low => property ++ " must not be less than " ++ toString low
  | max high => property ++ " must not be greater than " ++ toString high
  | isBoolean => property ++ " must be a boolean value"
  | isString => property ++ " must be a string"
  | isNotEmpty => property ++ " should not be empty"
  | isIn allowed =>
    property ++ " must be one of the following values: " ++
      ", ".intercalate (allowed.map String.ofList)

/-- The decorators a variable is declared with, and its initial value. -/
inductive Declaration where
  /-- `@Type(() => Number) @IsInt() @Min(low) @Max(high)`. -/
  | int (low : ℕ) (high : Option ℕ) (initial : ℕ)
  /-- `@Transform(toBoolean) @IsBoolean()`. -/
  | bool (initial : Bool)
  /-- `@IsString() @IsNotEmpty()`. -/
  | text (initial : Option Text)
  /-- `@IsString() @IsOptional()`. -/
  | optionalText
  /-- `@IsIn(allowed)`, and `@IsEnum` with `@IsOptional`, which an initial value makes idle. -/
  | oneOf (allowed : List Text) (initial : Text)

namespace Declaration

def convert : Declaration → Text → Value
  | int .., value => .number (JsValues.number value)
  | bool _, value => .boolean (toBoolean value)
  | _, value => .string value

def initial : Declaration → Value
  | int _ _ n => .number (.finite n)
  | bool b => .boolean b
  | text none => .undefined
  | text (some s) => .string s
  | optionalText => .undefined
  | oneOf _ s => .string s

/-- The checks in the order they are made: the lowest decorator first. -/
def constraints : Declaration → List Constraint
  | int low high _ => (high.map Constraint.max).toList ++ [.min low, .isInt]
  | bool _ => [.isBoolean]
  | text _ => [.isNotEmpty, .isString]
  | optionalText => [.isString]
  | oneOf allowed _ => [.isIn allowed]

def isOptional : Declaration → Bool
  | optionalText => true
  | _ => false

def failures (d : Declaration) (value : Value) : List Constraint :=
  if d.isOptional ∧ value = .undefined then [] else d.constraints.filter fun c => !c.holds value

end Declaration

inductive Variable where
  | NODE_ENV | APP_PORT | WEBHOOK_SECRET | JWT_SECRET | JWT_EXPIRES_IN | ADMIN_USERNAME
  | ADMIN_PASSWORD | LOG_LEVEL | LOG_PRETTY | TRANSFER_MAX_ATTEMPTS | TRANSFER_RETRY_BACKOFF_MS
  | INGESTION_DATA_ROOT | THROTTLE_TTL_MS | THROTTLE_LIMIT | MAX_PAYLOAD_SIZE_KB
  | WORKER_CONCURRENCY | MAX_FILE_SIZE_MB | AV_ENABLED | ENCRYPTION_ENABLED | ENCRYPTION_KEK
  | CLAMAV_HOST | CLAMAV_PORT | ALERTS_ENABLED | ALERT_WEBHOOK_URL | RECOVERY_ENABLED
  | RECOVERY_STALE_MS | RECOVERY_BATCH_SIZE | AUDIT_RETENTION_DAYS | REDIS_HOST | REDIS_PORT
  | REDIS_PASSWORD | POSTGRES_HOST | POSTGRES_PORT | POSTGRES_USER | POSTGRES_PASSWORD
  | POSTGRES_DB | DB_SYNCHRONIZE | DB_LOGGING | S3_ENDPOINT | S3_REGION | S3_BUCKET
  | S3_ACCESS_KEY_ID | S3_SECRET_ACCESS_KEY | S3_FORCE_PATH_STYLE | S3_UPLOAD_PART_SIZE_MB
  | S3_UPLOAD_CONCURRENCY
deriving DecidableEq

namespace Variable

def all : List Variable :=
  [NODE_ENV, APP_PORT, WEBHOOK_SECRET, JWT_SECRET, JWT_EXPIRES_IN, ADMIN_USERNAME,
    ADMIN_PASSWORD, LOG_LEVEL, LOG_PRETTY, TRANSFER_MAX_ATTEMPTS, TRANSFER_RETRY_BACKOFF_MS,
    INGESTION_DATA_ROOT, THROTTLE_TTL_MS, THROTTLE_LIMIT, MAX_PAYLOAD_SIZE_KB,
    WORKER_CONCURRENCY, MAX_FILE_SIZE_MB, AV_ENABLED, ENCRYPTION_ENABLED, ENCRYPTION_KEK,
    CLAMAV_HOST, CLAMAV_PORT, ALERTS_ENABLED, ALERT_WEBHOOK_URL, RECOVERY_ENABLED,
    RECOVERY_STALE_MS, RECOVERY_BATCH_SIZE, AUDIT_RETENTION_DAYS, REDIS_HOST, REDIS_PORT,
    REDIS_PASSWORD, POSTGRES_HOST, POSTGRES_PORT, POSTGRES_USER, POSTGRES_PASSWORD,
    POSTGRES_DB, DB_SYNCHRONIZE, DB_LOGGING, S3_ENDPOINT, S3_REGION, S3_BUCKET,
    S3_ACCESS_KEY_ID, S3_SECRET_ACCESS_KEY, S3_FORCE_PATH_STYLE, S3_UPLOAD_PART_SIZE_MB,
    S3_UPLOAD_CONCURRENCY]

def name : Variable → String
  | NODE_ENV => "NODE_ENV"
  | APP_PORT => "APP_PORT"
  | WEBHOOK_SECRET => "WEBHOOK_SECRET"
  | JWT_SECRET => "JWT_SECRET"
  | JWT_EXPIRES_IN => "JWT_EXPIRES_IN"
  | ADMIN_USERNAME => "ADMIN_USERNAME"
  | ADMIN_PASSWORD => "ADMIN_PASSWORD"
  | LOG_LEVEL => "LOG_LEVEL"
  | LOG_PRETTY => "LOG_PRETTY"
  | TRANSFER_MAX_ATTEMPTS => "TRANSFER_MAX_ATTEMPTS"
  | TRANSFER_RETRY_BACKOFF_MS => "TRANSFER_RETRY_BACKOFF_MS"
  | INGESTION_DATA_ROOT => "INGESTION_DATA_ROOT"
  | THROTTLE_TTL_MS => "THROTTLE_TTL_MS"
  | THROTTLE_LIMIT => "THROTTLE_LIMIT"
  | MAX_PAYLOAD_SIZE_KB => "MAX_PAYLOAD_SIZE_KB"
  | WORKER_CONCURRENCY => "WORKER_CONCURRENCY"
  | MAX_FILE_SIZE_MB => "MAX_FILE_SIZE_MB"
  | AV_ENABLED => "AV_ENABLED"
  | ENCRYPTION_ENABLED => "ENCRYPTION_ENABLED"
  | ENCRYPTION_KEK => "ENCRYPTION_KEK"
  | CLAMAV_HOST => "CLAMAV_HOST"
  | CLAMAV_PORT => "CLAMAV_PORT"
  | ALERTS_ENABLED => "ALERTS_ENABLED"
  | ALERT_WEBHOOK_URL => "ALERT_WEBHOOK_URL"
  | RECOVERY_ENABLED => "RECOVERY_ENABLED"
  | RECOVERY_STALE_MS => "RECOVERY_STALE_MS"
  | RECOVERY_BATCH_SIZE => "RECOVERY_BATCH_SIZE"
  | AUDIT_RETENTION_DAYS => "AUDIT_RETENTION_DAYS"
  | REDIS_HOST => "REDIS_HOST"
  | REDIS_PORT => "REDIS_PORT"
  | REDIS_PASSWORD => "REDIS_PASSWORD"
  | POSTGRES_HOST => "POSTGRES_HOST"
  | POSTGRES_PORT => "POSTGRES_PORT"
  | POSTGRES_USER => "POSTGRES_USER"
  | POSTGRES_PASSWORD => "POSTGRES_PASSWORD"
  | POSTGRES_DB => "POSTGRES_DB"
  | DB_SYNCHRONIZE => "DB_SYNCHRONIZE"
  | DB_LOGGING => "DB_LOGGING"
  | S3_ENDPOINT => "S3_ENDPOINT"
  | S3_REGION => "S3_REGION"
  | S3_BUCKET => "S3_BUCKET"
  | S3_ACCESS_KEY_ID => "S3_ACCESS_KEY_ID"
  | S3_SECRET_ACCESS_KEY => "S3_SECRET_ACCESS_KEY"
  | S3_FORCE_PATH_STYLE => "S3_FORCE_PATH_STYLE"
  | S3_UPLOAD_PART_SIZE_MB => "S3_UPLOAD_PART_SIZE_MB"
  | S3_UPLOAD_CONCURRENCY => "S3_UPLOAD_CONCURRENCY"

end Variable

def LOG_LEVELS : List Text :=
  ["fatal", "error", "warn", "info", "debug", "trace", "silent"].map String.toList

def NodeEnv : List Text := ["development", "production", "test"].map String.toList

/-- `EnvironmentVariables`, field by field. -/
def Variable.declaration : Variable → Declaration
  | NODE_ENV => .oneOf NodeEnv "development".toList
  | APP_PORT => .int 1 (some 65535) 3000
  | WEBHOOK_SECRET => .text none
  | JWT_SECRET => .text none
  | JWT_EXPIRES_IN => .text (some "1h".toList)
  | ADMIN_USERNAME => .text (some "admin".toList)
  | ADMIN_PASSWORD => .text none
  | LOG_LEVEL => .oneOf LOG_LEVELS "info".toList
  | LOG_PRETTY => .bool false
  | TRANSFER_MAX_ATTEMPTS => .int 1 (some 10) 3
  | TRANSFER_RETRY_BACKOFF_MS => .int 0 none 1000
  | INGESTION_DATA_ROOT => .text none
  | THROTTLE_TTL_MS => .int 1000 none 60000
  | THROTTLE_LIMIT => .int 1 none 100
  | MAX_PAYLOAD_SIZE_KB => .int 1 none 1024
  | WORKER_CONCURRENCY => .int 1 (some 256) 5
  | MAX_FILE_SIZE_MB => .int 0 none 1024
  | AV_ENABLED => .bool false
  | ENCRYPTION_ENABLED => .bool false
  | ENCRYPTION_KEK => .optionalText
  | CLAMAV_HOST => .text (some "clamav".toList)
  | CLAMAV_PORT => .int 1 (some 65535) 3310
  | ALERTS_ENABLED => .bool false
  | ALERT_WEBHOOK_URL => .optionalText
  | RECOVERY_ENABLED => .bool true
  | RECOVERY_STALE_MS => .int 1000 none 900000
  | RECOVERY_BATCH_SIZE => .int 1 (some 1000) 50
  | AUDIT_RETENTION_DAYS => .int 0 none 0
  | REDIS_HOST => .text none
  | REDIS_PORT => .int 1 (some 65535) 6379
  | REDIS_PASSWORD => .optionalText
  | POSTGRES_HOST => .text none
  | POSTGRES_PORT => .int 1 (some 65535) 5432
  | POSTGRES_USER => .text none
  | POSTGRES_PASSWORD => .text none
  | POSTGRES_DB => .text none
  | DB_SYNCHRONIZE => .bool false
  | DB_LOGGING => .bool false
  | S3_ENDPOINT => .optionalText
  | S3_REGION => .text none
  | S3_BUCKET => .text none
  | S3_ACCESS_KEY_ID => .text none
  | S3_SECRET_ACCESS_KEY => .text none
  | S3_FORCE_PATH_STYLE => .bool true
  | S3_UPLOAD_PART_SIZE_MB => .int 5 none 8
  | S3_UPLOAD_CONCURRENCY => .int 1 (some 64) 4

/-- An instance of `EnvironmentVariables`. -/
abbrev EnvironmentVariables := Variable → Value

/-! ## Validation -/

/-- A field without a variable keeps its initial value. -/
def plainToInstance (config : Environ) : EnvironmentVariables := fun v =>
  match config.lookup v.name with
  | some value => v.declaration.convert value
  | none => v.declaration.initial

def validateSync (validated : EnvironmentVariables) : List (Variable × List Constraint) :=
  (Variable.all.map fun v => (v, v.declaration.failures (validated v))).filter fun e => e.2 ≠ []

def errorText (errors : List (Variable × List Constraint)) : String :=
  "Invalid environment configuration:\n" ++
    "\n".intercalate (errors.map fun (v, failed) =>
      "  - " ++ v.name ++ ": " ++ ", ".intercalate (failed.map (Constraint.message v.name)))

/-- The validated instance or the error thrown, and `process.env` afterwards. -/
def validateEnv (files : Files) (config processEnv : Environ) :
    Except String EnvironmentVariables × Environ :=
  let processEnv := resolveFileSecrets files processEnv
  -- `{ ...process.env, ...config }`: of two values the one in `config` stays.
  let validated := plainToInstance (config ∪ processEnv)
  match validateSync validated with
  | [] => (.ok validated, processEnv)
  | errors => (.error (errorText errors), processEnv)

/-! ## What the files leave behind -/

/-- The secret a variable takes from its file, read off the variables in reverse order. The
path is the value of its `_FILE` variable, unless a variable before that one replaced it. -/
def secretFrom (files : Files) : List (Sigma fun _ : String => Text) → String → Option Text
  | [], _ => none
  | ⟨key, path⟩ :: earlier, name =>
    if key = name ++ fileSuffix then readSecret files ((secretFrom files earlier key).getD path)
    else secretFrom files earlier name

def secretFor (files : Files) (env : Environ) (name : String) : Option Text :=
  secretFrom files env.entries.reverse name

section Resolving
variable {files : Files} {env : Environ} {key name : String}

theorem secretFrom_none {entries : List (Sigma fun _ : String => Text)}
    (unnamed : ∀ e ∈ entries, e.1 ≠ name ++ fileSuffix) : secretFrom files entries name = none := by
  induction entries with
  | nil => rfl
  | cons e entries ih =>
    rw [secretFrom, if_neg (unnamed e (by simp))]
    exact ih fun e member => unnamed e (by simp [member])

/-- A round changes the variable its key is made of, and no other. -/
theorem resolveKey_lookup (env : Environ) (key name : String) :
    (resolveKey files env key).lookup name =
      if key = name ++ fileSuffix then
        ((env.lookup key).bind (readSecret files)).or (env.lookup name)
      else env.lookup name := by
  rw [resolveKey]
  split
  · next ends =>
    have whole := List.suffix_iff_eq_append.mp (List.isSuffixOf_iff_suffix.mp ends)
    have named : key = name ++ fileSuffix ↔
        name = String.ofList (key.toList.take (key.toList.length - fileSuffix.toList.length)) := by
      rw [← String.toList_inj, ← String.toList_inj, String.toList_append, String.toList_ofList]
      constructor
      · intro same
        exact List.append_cancel_right (same.symm.trans whole.symm)
      · intro same
        rw [same, whole]
    simp only [named]
    split
    · next secret found =>
      rw [found]
      split
      · next same => rw [same, AList.lookup_insert, Option.some_or]
      · next other => rw [AList.lookup_insert_ne other]
    · next missing => rw [missing, Option.none_or, ite_self]
  · next other =>
    have apart : key ≠ name ++ fileSuffix := by
      rintro rfl
      rw [String.toList_append] at other
      exact other (List.isSuffixOf_iff_suffix.mpr (List.suffix_append _ _))
    rw [if_neg apart]

/-- After the rounds of the first variables, a secret read so far stands before the first value. -/
theorem resolve_prefix (done : List (Sigma fun _ : String => Text))
    (started : done <+: env.entries) :
    ((done.map Sigma.fst).foldl (resolveKey files) env).lookup name =
      (secretFrom files done.reverse name).or (env.lookup name) := by
  induction done using List.reverseRecOn generalizing name with
  | nil => rfl
  | append_singleton done e ih =>
    have before (name : String) := @ih name ((List.prefix_append done [e]).trans started)
    have present : env.lookup e.1 = some e.2 :=
      AList.mem_lookup_iff.mpr (started.subset (by simp))
    have fresh : ∀ d ∈ done.reverse, d.1 ≠ e.1 := by
      have apart := List.nodupKeys_iff_pairwise.mp
          (List.NodupKeys.sublist started.sublist env.nodupKeys)
      intro d member
      exact (List.pairwise_append.mp apart).2.2 d (List.mem_reverse.mp member) e (by simp)
    rw [List.map_append, List.foldl_append, List.map_singleton, List.foldl_cons, List.foldl_nil,
      resolveKey_lookup, before, before, present, List.reverse_append, List.reverse_singleton,
      List.singleton_append, secretFrom]
    split
    · next same =>
      have unread : secretFrom files done.reverse name = none := secretFrom_none (same ▸ fresh)
      rw [unread, Option.none_or]
      cases secretFrom files done.reverse e.1 with
      | none => rfl
      | some path => rfl
    · rfl

/-- What the loop leaves: a variable's secret where it has one, and its first value otherwise. -/
theorem resolveFileSecrets_lookup (files : Files) (env : Environ) (name : String) :
    (resolveFileSecrets files env).lookup name = (secretFor files env name).or (env.lookup name) :=
  resolve_prefix env.entries (List.prefix_refl _)

end Resolving

/-- The text a variable is validated by: its own value, and its secret where it has none. -/
def checkedText (files : Files) (env : Environ) (name : String) : Option Text :=
  (env.lookup name).or (secretFor files env name)

theorem union_lookup (config env : Environ) (name : String) :
    (config ∪ env).lookup name = (config.lookup name).or (env.lookup name) := by
  by_cases present : name ∈ config
  · rw [AList.lookup_union_left present]
    obtain ⟨value, found⟩ := Option.isSome_iff_exists.mp (AList.lookup_isSome.mpr present)
    rw [found, Option.some_or]
  · rw [AList.lookup_union_right present, AList.lookup_eq_none.mpr present, Option.none_or]

theorem Variable.mem_all (v : Variable) : v ∈ all := by
  cases v <;> decide

theorem validateSync_nil {validated : EnvironmentVariables} (passed : validateSync validated = [])
    (v : Variable) : v.declaration.failures (validated v) = [] := by
  by_contra failed
  have reported : (v, v.declaration.failures (validated v)) ∈ validateSync validated :=
    List.mem_filter.mpr ⟨List.mem_map.mpr ⟨v, v.mem_all, rfl⟩, decide_eq_true failed⟩
  rw [passed] at reported
  cases reported

/-- What an accepted environment is validated as. -/
theorem validateEnv_ok {files : Files} {env after : Environ} {validated : EnvironmentVariables}
    (accepted : validateEnv files env env = (.ok validated, after)) :
    after = resolveFileSecrets files env ∧
      (∀ v : Variable, validated v =
        ((checkedText files env v.name).map v.declaration.convert).getD v.declaration.initial) ∧
      ∀ v : Variable, v.declaration.failures (validated v) = [] := by
  rw [validateEnv] at accepted
  split at accepted
  · next passed =>
    obtain ⟨same, rfl⟩ := Prod.mk.inj accepted
    obtain rfl := Except.ok.inj same
    refine ⟨rfl, fun v => ?_, validateSync_nil passed⟩
    have text : (env ∪ resolveFileSecrets files env).lookup v.name =
        checkedText files env v.name := by
      rw [union_lookup, resolveFileSecrets_lookup, checkedText]
      cases env.lookup v.name with
      | some value => rfl
      | none => rw [Option.none_or, Option.none_or, Option.or_none]
    rw [plainToInstance, text]
    cases checkedText files env v.name with
    | some value => rfl
    | none => rfl
  · exact absurd (Prod.mk.inj accepted).1 (by simp)

end Environment
