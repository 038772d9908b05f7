import SyncBridge.Environment

/-!
# What was validated and what runs

The configuration tree is built from `process.env`, by helpers of its own, after the files
have been read and the validated values of missing variables were written back. Where a
variable is set both directly and through a file, the direct value is validated and the file's
content runs; and a switch is validated with its white space trimmed and run with it.
-/

namespace Configuration

open JsValues Environment

/-! ## The factory -/

def bool (v : Option Text) (fallback : Bool) : Bool :=
  match v with
  | none => fallback
  | some v => spellsOn v

/-- `Number(undefined)` is not a number. -/
def int (v : Option Text) (fallback : ℕ) : JsNumber :=
  let n := (v.map number).getD .nan
  if n.isFinite then n else .finite fallback

/-- `v || undefined`. -/
def orUndefined (v : Option Text) : Option Text := v.filter (· ≠ [])

structure App where
  nodeEnv : Text
  port : JsNumber
  webhookSecret : Option Text
  logLevel : Text
  logPretty : Bool
  transferMaxAttempts : JsNumber
  transferRetryBackoffMs : JsNumber
  ingestionDataRoot : Option Text
  workerConcurrency : JsNumber
  maxPayloadBytes : JsNumber

structure Throttle where
  ttlMs : JsNumber
  limit : JsNumber

structure Auth where
  jwtSecret : Option Text
  jwtExpiresIn : Text
  adminUsername : Text
  adminPassword : Option Text

structure Alerts where
  enabled : Bool
  webhookUrl : Option Text

structure Recovery where
  enabled : Bool
  staleMs : JsNumber
  batchSize : JsNumber

structure Retention where
  auditDays : JsNumber

structure Redis where
  host : Option Text
  port : JsNumber
  password : Option Text

structure Database where
  host : Option Text
  port : JsNumber
  username : Option Text
  password : Option Text
  database : Option Text
  synchronize : Bool
  logging : Bool

structure S3 where
  endpoint : Option Text
  region : Option Text
  bucket : Option Text
  accessKeyId : Option Text
  secretAccessKey : Option Text
  forcePathStyle : Bool
  uploadPartSizeBytes : JsNumber
  uploadConcurrency : JsNumber

structure Pipeline where
  maxFileSizeBytes : JsNumber
  avEnabled : Bool
  clamavHost : Text
  clamavPort : JsNumber

structure Encryption where
  enabled : Bool
  kek : Option Text

/-- The parts of the tree that declared variables fill. -/
structure AppConfig where
  app : App
  throttle : Throttle
  auth : Auth
  alerts : Alerts
  recovery : Recovery
  retention : Retention
  redis : Redis
  database : Database
  s3 : S3
  pipeline : Pipeline
  encryption : Encryption

/-- A text that is only asserted to be there may be undefined. -/
def configuration (processEnv : Environ) : AppConfig :=
  let env (name : String) : Option Text := processEnv.lookup name
  { app :=
      { nodeEnv := (env "NODE_ENV").getD "development".toList
        port := int (env "APP_PORT") 3000
        webhookSecret := env "WEBHOOK_SECRET"
        logLevel := (env "LOG_LEVEL").getD "info".toList
        logPretty := bool (env "LOG_PRETTY") false
        transferMaxAttempts := int (env "TRANSFER_MAX_ATTEMPTS") 3
        transferRetryBackoffMs := int (env "TRANSFER_RETRY_BACKOFF_MS") 1000
        ingestionDataRoot := env "INGESTION_DATA_ROOT"
        workerConcurrency := int (env "WORKER_CONCURRENCY") 5
        maxPayloadBytes := (int (env "MAX_PAYLOAD_SIZE_KB") 1024).times 1024 }
    throttle :=
      { ttlMs := int (env "THROTTLE_TTL_MS") 60000
        limit := int (env "THROTTLE_LIMIT") 100 }
    auth :=
      { jwtSecret := env "JWT_SECRET"
        jwtExpiresIn := (env "JWT_EXPIRES_IN").getD "1h".toList
        adminUsername := (env "ADMIN_USERNAME").getD "admin".toList
        adminPassword := env "ADMIN_PASSWORD" }
    alerts :=
      { enabled := bool (env "ALERTS_ENABLED") false
        webhookUrl := orUndefined (env "ALERT_WEBHOOK_URL") }
    recovery :=
      { enabled := bool (env "RECOVERY_ENABLED") true
        staleMs := int (env "RECOVERY_STALE_MS") 900000
        batchSize := int (env "RECOVERY_BATCH_SIZE") 50 }
    retention :=
      { auditDays := int (env "AUDIT_RETENTION_DAYS") 0 }
    redis :=
      { host := env "REDIS_HOST"
        port := int (env "REDIS_PORT") 6379
        password := orUndefined (env "REDIS_PASSWORD") }
    database :=
      { host := env "POSTGRES_HOST"
        port := int (env "POSTGRES_PORT") 5432
        username := (orUndefined (env "APP_DB_USER")).or (env "POSTGRES_USER")
        password := env "POSTGRES_PASSWORD"
        database := env "POSTGRES_DB"
        synchronize := bool (env "DB_SYNCHRONIZE") false
        logging := bool (env "DB_LOGGING") false }
    s3 :=
      { endpoint := orUndefined (env "S3_ENDPOINT")
        region := env "S3_REGION"
        bucket := env "S3_BUCKET"
        accessKeyId := env "S3_ACCESS_KEY_ID"
        secretAccessKey := env "S3_SECRET_ACCESS_KEY"
        forcePathStyle := bool (env "S3_FORCE_PATH_STYLE") true
        uploadPartSizeBytes := ((int (env "S3_UPLOAD_PART_SIZE_MB") 8).times 1024).times 1024
        uploadConcurrency := int (env "S3_UPLOAD_CONCURRENCY") 4 }
    pipeline :=
      { maxFileSizeBytes := ((int (env "MAX_FILE_SIZE_MB") 1024).times 1024).times 1024
        avEnabled := bool (env "AV_ENABLED") false
        clamavHost := (env "CLAMAV_HOST").getD "clamav".toList
        clamavPort := int (env "CLAMAV_PORT") 3310 }
    encryption :=
      { enabled := bool (env "ENCRYPTION_ENABLED") false
        kek := orUndefined (env "ENCRYPTION_KEK") } }

/-! ## Starting the application -/

/-- A value as the text it is stored as. -/
def rendered : Value → Option Text
  | .undefined => none
  | .number x => numberToString x
  | .boolean b => some (if b then "true" else "false").toList
  | .string s => some s

/-- Validated values are written back for the names missing from `process.env`. -/
def assignVarsToProcessEnv (validated : EnvironmentVariables) (processEnv : Environ) : Environ :=
  (Variable.all.filter fun v => v.name ∉ processEnv).foldl
    (fun env v => ((rendered (validated v)).map fun text =>
      env.insert v.name text).getD env) processEnv

structure Boot where
  validated : EnvironmentVariables
  tree : AppConfig

/-- `ConfigModule.forRoot`: the configuration to validate is `process.env` as it is at first. -/
def forRoot (files : Files) (processEnv : Environ) : Except String Boot :=
  match validateEnv files processEnv processEnv with
  | (.error message, _) => .error message
  | (.ok validated, processEnv) =>
    .ok ⟨validated, configuration (assignVarsToProcessEnv validated processEnv)⟩

/-! ## Where a variable ends up -/

def ofText : Option Text → Value
  | none => .undefined
  | some s => .string s

/-- The place a variable has in the tree. -/
def AppConfig.leaf (tree : AppConfig) : Variable → Value
  | .NODE_ENV => .string tree.app.nodeEnv
  | .APP_PORT => .number tree.app.port
  | .WEBHOOK_SECRET => ofText tree.app.webhookSecret
  | .JWT_SECRET => ofText tree.auth.jwtSecret
  | .JWT_EXPIRES_IN => .string tree.auth.jwtExpiresIn
  | .ADMIN_USERNAME => .string tree.auth.adminUsername
  | .ADMIN_PASSWORD => ofText tree.auth.adminPassword
  | .LOG_LEVEL => .string tree.app.logLevel
  | .LOG_PRETTY => .boolean tree.app.logPretty
  | .TRANSFER_MAX_ATTEMPTS => .number tree.app.transferMaxAttempts
  | .TRANSFER_RETRY_BACKOFF_MS => .number tree.app.transferRetryBackoffMs
  | .INGESTION_DATA_ROOT => ofText tree.app.ingestionDataRoot
  | .THROTTLE_TTL_MS => .number tree.throttle.ttlMs
  | .THROTTLE_LIMIT => .number tree.throttle.limit
  | .MAX_PAYLOAD_SIZE_KB => .number tree.app.maxPayloadBytes
  | .WORKER_CONCURRENCY => .number tree.app.workerConcurrency
  | .MAX_FILE_SIZE_MB => .number tree.pipeline.maxFileSizeBytes
  | .AV_ENABLED => .boolean tree.pipeline.avEnabled
  | .ENCRYPTION_ENABLED => .boolean tree.encryption.enabled
  | .ENCRYPTION_KEK => ofText tree.encryption.kek
  | .CLAMAV_HOST => .string tree.pipeline.clamavHost
  | .CLAMAV_PORT => .number tree.pipeline.clamavPort
  | .ALERTS_ENABLED => .boolean tree.alerts.enabled
  | .ALERT_WEBHOOK_URL => ofText tree.alerts.webhookUrl
  | .RECOVERY_ENABLED => .boolean tree.recovery.enabled
  | .RECOVERY_STALE_MS => .number tree.recovery.staleMs
  | .RECOVERY_BATCH_SIZE => .number tree.recovery.batchSize
  | .AUDIT_RETENTION_DAYS => .number tree.retention.auditDays
  | .REDIS_HOST => ofText tree.redis.host
  | .REDIS_PORT => .number tree.redis.port
  | .REDIS_PASSWORD => ofText tree.redis.password
  | .POSTGRES_HOST => ofText tree.database.host
  | .POSTGRES_PORT => .number tree.database.port
  | .POSTGRES_USER => ofText tree.database.username
  | .POSTGRES_PASSWORD => ofText tree.database.password
  | .POSTGRES_DB => ofText tree.database.database
  | .DB_SYNCHRONIZE => .boolean tree.database.synchronize
  | .DB_LOGGING => .boolean tree.database.logging
  | .S3_ENDPOINT => ofText tree.s3.endpoint
  | .S3_REGION => ofText tree.s3.region
  | .S3_BUCKET => ofText tree.s3.bucket
  | .S3_ACCESS_KEY_ID => ofText tree.s3.accessKeyId
  | .S3_SECRET_ACCESS_KEY => ofText tree.s3.secretAccessKey
  | .S3_FORCE_PATH_STYLE => .boolean tree.s3.forcePathStyle
  | .S3_UPLOAD_PART_SIZE_MB => .number tree.s3.uploadPartSizeBytes
  | .S3_UPLOAD_CONCURRENCY => .number tree.s3.uploadConcurrency

/-- The factors that turn a variable's unit into bytes. -/
def units : Variable → List ℕ
  | .MAX_PAYLOAD_SIZE_KB => [1024]
  | .MAX_FILE_SIZE_MB => [1024, 1024]
  | .S3_UPLOAD_PART_SIZE_MB => [1024, 1024]
  | _ => []

def scaled (v : Variable) (x : JsNumber) : JsNumber := (units v).foldl JsNumber.times x

/-- A validated value as the tree should hold it: in bytes, and an empty optional text absent. -/
def configured (v : Variable) (value : Value) : Value :=
  match value with
  | .number x => .number (scaled v x)
  | .string s => if v.declaration.isOptional ∧ s = [] then .undefined else .string s
  | value => value

/-! ## Two texts for one variable -/

/-- What the factory makes of the secret is what the validation made of the direct value. -/
def ReadsAlike (v : Variable) (secret direct : Text) : Prop :=
  match v.declaration with
  | .int _ _ initial => scaled v (int (some secret) initial) = scaled v (number direct)
  | .bool _ => spellsOn secret = toBoolean direct
  | _ => secret = direct

/-- A switch that is on stands without white space around it. -/
def Plain (v : Variable) (text : Text) : Prop :=
  match v.declaration with
  | .bool _ => toBoolean text = true → trim text = text
  | _ => True

/-- No variable has a secret that reads differently from its direct value, and every switch
that is set in one of the two ways is plain. -/
structure Undivided (files : Files) (env : Environ) : Prop where
  overridden : ∀ v direct secret, v ≠ Variable.POSTGRES_USER → env.lookup v.name = some direct →
    secretFor files env v.name = some secret → ReadsAlike v secret direct
  plain : ∀ v text, v ≠ Variable.POSTGRES_USER →
    (env.lookup v.name = some text ∧ secretFor files env v.name = none ∨
      env.lookup v.name = none ∧ secretFor files env v.name = some text) → Plain v text

/-! ## Writing back -/

theorem name_injective : Function.Injective Variable.name := by
  have distinct : (Variable.all.map Variable.name).Nodup := by decide +kernel
  intro v w same
  exact List.inj_on_of_nodup_map distinct v.mem_all w.mem_all same

section WritingBack
variable {validated : EnvironmentVariables} {v : Variable}

/-- Writing one value back, where it has a text. -/
theorem write_lookup (env : Environ) (w : Variable) :
    (((rendered (validated w)).map fun text => env.insert w.name text).getD env).lookup v.name =
      if v = w then (rendered (validated v)).or (env.lookup v.name) else env.lookup v.name := by
  split
  · next same =>
    subst same
    cases rendered (validated v) with
    | none => rfl
    | some text => exact AList.lookup_insert env
  · next other =>
    cases rendered (validated w) with
    | none => rfl
    | some text => exact AList.lookup_insert_ne fun same => other (name_injective same)

theorem writes_lookup (env : Environ) (vs : List Variable) :
    (vs.foldl (fun env w => ((rendered (validated w)).map
      fun text => env.insert w.name text).getD env)
      env).lookup v.name =
      if v ∈ vs then (rendered (validated v)).or (env.lookup v.name) else env.lookup v.name := by
  induction vs generalizing env with
  | nil => rfl
  | cons w vs ih =>
    rw [List.foldl_cons, ih, write_lookup]
    by_cases first : v = w
    · simp only [first, List.mem_cons, true_or, if_true]
      split
      · rw [← Option.or_assoc, Option.or_self]
      · rfl
    · simp only [first, List.mem_cons, false_or, if_false]

/-- After the write-back a variable that was missing has the text of its validated value. -/
theorem assignVarsToProcessEnv_lookup (validated : EnvironmentVariables) (env : Environ)
    (v : Variable) :
    (assignVarsToProcessEnv validated env).lookup v.name =
      (env.lookup v.name).or (rendered (validated v)) := by
  rw [assignVarsToProcessEnv, writes_lookup]
  by_cases present : v.name ∈ env
  · obtain ⟨text, found⟩ := Option.isSome_iff_exists.mp (AList.lookup_isSome.mpr present)
    rw [if_neg (by simp [present]), found, Option.some_or]
  · rw [if_pos (by simp [present, v.mem_all]), AList.lookup_eq_none.mpr present, Option.or_none,
      Option.none_or]

end WritingBack

/-! ## The tree, variable by variable -/

/-- The factory's reading of a variable, from its declaration. -/
def read (v : Variable) (text : Option Text) : Value :=
  match v.declaration with
  | .int _ _ initial => .number (scaled v (int text initial))
  | .bool initial => .boolean (bool text initial)
  | .text none => ofText text
  | .text (some initial) => .string (text.getD initial)
  | .optionalText => ofText (orUndefined text)
  | .oneOf _ initial => .string (text.getD initial)

/-- The factory's fallbacks are the declared initial values. -/
theorem leaf_configuration (env : Environ) {v : Variable} (named : v ≠ .POSTGRES_USER) :
    (configuration env).leaf v = read v (env.lookup v.name) := by
  cases v <;> first | rfl | exact absurd rfl named

theorem forRoot_ok {files : Files} {env : Environ} {boot : Boot}
    (accepted : forRoot files env = .ok boot) :
    (∀ v : Variable, boot.validated v =
        ((checkedText files env v.name).map v.declaration.convert).getD v.declaration.initial) ∧
      (∀ v : Variable, v.declaration.failures (boot.validated v) = []) ∧
      ∀ v : Variable, v ≠ .POSTGRES_USER → boot.tree.leaf v =
        read v (((secretFor files env v.name).or (env.lookup v.name)).or
          (rendered (boot.validated v))) := by
  rw [forRoot] at accepted
  split at accepted
  · cases accepted
  · next validated after checked =>
    obtain rfl := Except.ok.inj accepted
    obtain ⟨rfl, values, passed⟩ := validateEnv_ok checked
    refine ⟨values, passed, fun v named => ?_⟩
    rw [leaf_configuration _ named, assignVarsToProcessEnv_lookup, resolveFileSecrets_lookup]

section Reading
variable {v : Variable} {text secret direct : Text}

theorem configured_string (v : Variable) (s : Text) (required : v.declaration.isOptional = false) :
    configured v (.string s) = .string s := by
  simp [configured, required]

theorem ofText_orUndefined (s : Text) :
    ofText (orUndefined (some s)) = if s = [] then .undefined else .string s := by
  rw [orUndefined, Option.filter_some]
  by_cases empty : s = []
  · simp [empty, ofText]
  · simp [empty, ofText]

theorem configured_optional (v : Variable) (s : Text) (optional : v.declaration.isOptional = true) :
    configured v (.string s) = ofText (orUndefined (some s)) := by
  rw [ofText_orUndefined]
  simp [configured, optional]

theorem ofText_orUndefined_inj :
    ofText (orUndefined (some secret)) = ofText (orUndefined (some direct)) ↔
    secret = direct := by
  rw [ofText_orUndefined, ofText_orUndefined]
  by_cases empty : secret = []
  · by_cases emptyDirect : direct = []
    · simp [empty, emptyDirect]
    · simp [empty, emptyDirect, Ne.symm emptyDirect]
  · by_cases emptyDirect : direct = []
    · simp [empty, emptyDirect]
    · simp [empty, emptyDirect]

/-- An on-word has no white space around it. -/
theorem trim_of_spellsOn (on : spellsOn text = true) : trim text = text := by
  apply trim_eq_self
  apply isSpace_of_mem_toLowerCase
  have solid : (["true", "1", "yes", "on"].map String.toList).all (·.all fun c => !isSpace c) := by
    decide +kernel
  have word := List.all_eq_true.mp solid _ (List.contains_iff_mem.mp on)
  simpa using word

theorem spellsOn_eq_toBoolean :
    spellsOn text = toBoolean text ↔ (toBoolean text = true → trim text = text) := by
  constructor
  · intro same on
    rw [← same] at on
    exact trim_of_spellsOn on
  · intro plain
    rw [Bool.eq_iff_iff]
    constructor
    · intro on
      rw [toBoolean, trim_of_spellsOn on, on]
    · intro on
      rw [toBoolean, plain on] at on
      exact on

theorem int_of_isInteger {initial : ℕ} (whole : (number text).isInteger = true) :
    int (some text) initial = number text := by
  have finite : (number text).isFinite = true := by
    cases h : number text with
    | finite q => rfl
    | nan => rw [h] at whole; cases whole
    | infinite negative => rw [h] at whole; cases whole
  exact if_pos finite

/-- A variable with a secret beside its direct value. -/
theorem read_secret : read v (some secret) = configured v (v.declaration.convert direct) ↔
    ReadsAlike v secret direct := by
  cases h : v.declaration with
  | int low high initial => simp [read, ReadsAlike, h, Declaration.convert, configured]
  | bool initial => simp [read, ReadsAlike, h, Declaration.convert, configured, bool]
  | text initial =>
    change _ = configured v (.string direct) ↔ _
    rw [configured_string v direct (by rw [h]; rfl)]
    cases initial <;> simp [read, ReadsAlike, h, ofText]
  | optionalText =>
    change _ = configured v (.string direct) ↔ _
    rw [configured_optional v direct (by rw [h]; rfl)]
    simp only [read, ReadsAlike, h, ofText_orUndefined_inj]
  | oneOf allowed initial =>
    change _ = configured v (.string direct) ↔ _
    rw [configured_string v direct (by rw [h]; rfl)]
    simp [read, ReadsAlike, h]

theorem holds_of_failures {d : Declaration} {value : Value} {c : Constraint}
    (required : d.isOptional = false)
    (passed : d.failures value = []) (checked : c ∈ d.constraints) : c.holds value = true := by
  rw [Declaration.failures, if_neg (by simp [required]), List.filter_eq_nil_iff] at passed
  simpa using passed c checked

/-- A variable with one text, read by the factory as it was validated. -/
theorem read_single (passed : v.declaration.failures (v.declaration.convert text) = []) :
    read v (some text) = configured v (v.declaration.convert text) ↔ Plain v text := by
  rw [read_secret]
  cases h : v.declaration with
  | int low high initial =>
    have whole : (number text).isInteger = true := by
      rw [h] at passed
      exact holds_of_failures (c := .isInt) rfl passed (by simp [Declaration.constraints])
    simp [ReadsAlike, Plain, h, int_of_isInteger whole]
  | bool initial =>
    simp only [ReadsAlike, Plain, h]
    exact spellsOn_eq_toBoolean
  | text initial => simp [ReadsAlike, Plain, h]
  | optionalText => simp [ReadsAlike, Plain, h]
  | oneOf allowed initial => simp [ReadsAlike, Plain, h]

theorem initial_small {low initial : ℕ} {high : Option ℕ}
    (declared : v.declaration = .int low high initial) :
    initial < 2 ^ 53 := by
  cases v <;> simp only [Variable.declaration, reduceCtorEq,
    Declaration.int.injEq] at declared <;> omega

/-- An initial value is written back as a text that is read as it. -/
theorem read_initial :
    read v (rendered v.declaration.initial) = configured v v.declaration.initial := by
  cases h : v.declaration with
  | int low high initial =>
    have small := initial_small h
    have readBack : int (some (Nat.toDigits 10 initial)) initial = .finite initial := by
      rw [int_of_isInteger] <;> rw [number_toDigits small]
      simp [JsNumber.isInteger]
    rw [Declaration.initial, rendered, numberToString_natCast (small.trans (by norm_num))]
    simp only [read, h, configured, readBack]
  | bool initial =>
    have written : spellsOn (if initial then "true" else "false").toList = initial := by
      cases initial <;> decide +kernel
    change _ = Value.boolean initial
    rw [read, h]
    exact congrArg Value.boolean written
  | text initial =>
    cases initial with
    | none => simp [read, h, Declaration.initial, rendered, configured, ofText]
    | some s =>
      rw [Declaration.initial, configured_string v s (by rw [h]; rfl)]
      simp [read, h, rendered]
  | optionalText => simp [read, h, Declaration.initial, rendered, configured, ofText, orUndefined]
  | oneOf allowed s =>
    rw [Declaration.initial, configured_string v s (by rw [h]; rfl)]
    simp [read, h, rendered]

end Reading

/-! ## The whole tree -/

section Boots
variable {files : Files} {env : Environ} {boot : Boot}

theorem leaf_agrees (accepted : forRoot files env = .ok boot) {v : Variable}
    (named : v ≠ .POSTGRES_USER) :
    boot.tree.leaf v = configured v (boot.validated v) ↔
      (∀ direct secret, env.lookup v.name = some direct → secretFor files env v.name = some secret →
        ReadsAlike v secret direct) ∧
      ∀ text, (env.lookup v.name = some text ∧ secretFor files env v.name = none ∨
        env.lookup v.name = none ∧ secretFor files env v.name = some text) → Plain v text := by
  obtain ⟨values, passed, leaves⟩ := forRoot_ok accepted
  have value := values v
  have checks := passed v
  rw [leaves v named]
  rw [checkedText] at value
  cases found : env.lookup v.name with
  | none =>
    cases secret : secretFor files env v.name with
    | none =>
      rw [found, secret] at value
      rw [value]
      simpa using read_initial
    | some text =>
      rw [found, secret] at value
      rw [value] at checks ⊢
      simpa using read_single checks
  | some direct =>
    cases secret : secretFor files env v.name with
    | none =>
      rw [found, secret] at value
      rw [value] at checks ⊢
      simpa using read_single checks
    | some text =>
      rw [found, secret] at value
      rw [value]
      simpa using read_secret

/-- The tree holds what was validated, for the environments where the direct value of a
variable and its secret do not part and a switch has no white space to trim. -/
theorem validated_values_run (files : Files) (env : Environ) (boot : Boot)
    (accepted : forRoot files env = .ok boot) :
    (∀ v, v ≠ Variable.POSTGRES_USER → boot.tree.leaf v = configured v (boot.validated v)) ↔
      Undivided files env := by
  constructor
  · intro agree
    refine ⟨fun v direct secret named => ?_, fun v text named => ?_⟩
    · exact ((leaf_agrees accepted named).mp (agree v named)).1 direct secret
    · exact ((leaf_agrees accepted named).mp (agree v named)).2 text
  · intro undivided v named
    apply (leaf_agrees accepted named).mpr
    exact ⟨fun direct secret => undivided.overridden v direct secret named,
      fun text => undivided.plain v text named⟩

end Boots

/-! ## Two environments -/

theorem forRoot_accepts {files : Files} {env : Environ}
    (passed : validateSync (plainToInstance (env ∪ resolveFileSecrets files env)) = []) :
    ∃ boot, forRoot files env = .ok boot := by
  simp only [forRoot, validateEnv, passed]
  exact ⟨_, rfl⟩

def environ (pairs : List (String × String)) : Environ :=
  (pairs.map fun (name, value) => (⟨name, value.toList⟩ : Sigma fun _ : String => Text)).toAList

/-- The variables that have no initial value, but for the token secret. -/
def requiredVariables : List (String × String) :=
  [("WEBHOOK_SECRET", "hook"), ("ADMIN_PASSWORD", "admin"), ("INGESTION_DATA_ROOT", "/data"),
    ("REDIS_HOST", "redis"), ("POSTGRES_HOST", "postgres"), ("POSTGRES_USER", "sync"),
    ("POSTGRES_PASSWORD", "sync"), ("POSTGRES_DB", "sync"), ("S3_REGION", "us-east-1"),
    ("S3_BUCKET", "uploads"), ("S3_ACCESS_KEY_ID", "id"), ("S3_SECRET_ACCESS_KEY", "key")]

/-- A file system whose one file holds `strong` and a line feed. -/
def secretFiles : Files := fun path =>
  if path = "/run/secrets/jwt_secret".toList then some [115, 116, 114, 111, 110, 103, 10] else none

/-- The token secret comes from its file and scanning is switched on. -/
def plainEnv : Environ :=
  environ (("JWT_SECRET_FILE", "/run/secrets/jwt_secret") :: ("AV_ENABLED", "TRUE") ::
    ("APP_PORT", " 8080") :: requiredVariables)

theorem plainEnv_undivided : Undivided secretFiles plainEnv := by
  have single : ∀ v ∈ Variable.all,
      plainEnv.lookup v.name = none ∨ secretFor secretFiles plainEnv v.name = none := by
    decide +kernel
  have plain : ∀ v ∈ Variable.all, ∀ text ∈ (plainEnv.lookup v.name).toList ++
      (secretFor secretFiles plainEnv v.name).toList, toBoolean text = true → trim text = text := by
    decide +kernel
  constructor
  · intro v direct secret _ found read
    rcases single v v.mem_all with missing | missing
    · rw [found] at missing
      cases missing
    · rw [read] at missing
      cases missing
  · intro v text _ set
    have trimmed : toBoolean text = true → trim text = text := by
      apply plain v v.mem_all
      rcases set with ⟨found, -⟩ | ⟨-, read⟩
      · simp [found]
      · simp [read]
    rw [Plain]
    split
    · exact trimmed
    · trivial

theorem validated_values_run_plain : ∃ boot, forRoot secretFiles plainEnv = .ok boot ∧
    boot.validated .JWT_SECRET = .string "strong".toList ∧
    ∀ v, v ≠ Variable.POSTGRES_USER → boot.tree.leaf v = configured v (boot.validated v) := by
  have passed :
      validateSync (plainToInstance (plainEnv ∪ resolveFileSecrets secretFiles plainEnv)) = [] := by
    decide +kernel
  obtain ⟨boot, accepted⟩ := forRoot_accepts passed
  refine ⟨boot, accepted, ?_, (validated_values_run _ _ boot accepted).mpr plainEnv_undivided⟩
  exact ((forRoot_ok accepted).1 .JWT_SECRET).trans (by decide +kernel)

/-- The token secret is set both ways, and scanning is switched on with a space at the end. -/
def dividedEnv : Environ :=
  environ (("JWT_SECRET", "weak") :: ("JWT_SECRET_FILE", "/run/secrets/jwt_secret") ::
    ("AV_ENABLED", "true ") :: requiredVariables)

/-- The direct secret is validated and the file's secret runs; scanning is validated as on
and runs off. -/
theorem validated_values_part : ∃ boot, forRoot secretFiles dividedEnv = .ok boot ∧
    boot.validated .JWT_SECRET = .string "weak".toList ∧
    boot.tree.leaf .JWT_SECRET = .string "strong".toList ∧
    boot.validated .AV_ENABLED = .boolean true ∧ boot.tree.leaf .AV_ENABLED = .boolean false ∧
    ¬ ∀ v, v ≠ Variable.POSTGRES_USER → boot.tree.leaf v = configured v (boot.validated v) := by
  have passed : validateSync
      (plainToInstance (dividedEnv ∪ resolveFileSecrets secretFiles dividedEnv)) = [] := by
    decide +kernel
  obtain ⟨boot, accepted⟩ := forRoot_accepts passed
  obtain ⟨values, -, leaves⟩ := forRoot_ok accepted
  have validated : boot.validated .JWT_SECRET = .string "weak".toList :=
    (values .JWT_SECRET).trans (by decide +kernel)
  have switch : boot.validated .AV_ENABLED = .boolean true :=
    (values .AV_ENABLED).trans (by decide +kernel)
  have running : boot.tree.leaf .JWT_SECRET = .string "strong".toList := by
    rw [leaves .JWT_SECRET (by decide), validated]
    decide +kernel
  have off : boot.tree.leaf .AV_ENABLED = .boolean false := by
    rw [leaves .AV_ENABLED (by decide), switch]
    decide +kernel
  refine ⟨boot, accepted, validated, running, switch, off, fun agree => ?_⟩
  have same := agree .AV_ENABLED (by decide)
  rw [off, switch] at same
  cases same

end Configuration
