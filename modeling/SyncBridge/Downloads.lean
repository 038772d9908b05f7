import SyncBridge.SoloRuns
import SyncBridge.Uploads

/-!
# Downloading what was uploaded

Webhooks and worker attempts that run one after another, each under a
configuration of its own: encryption may be switched and routing rules changed
in between, the master key stays. Any call may be rejected and files may be
written at any time, only not the source of the attempt that is running. Beside
the state, a history keeps the bytes that each attempt had as its source.

A SUCCESS row describes the object its attempt has stored. It keeps doing so as
long as no later attempt stores at the same bucket and key; the route of a row is
made of its username and virtual path, so a second upload to the same path does.
-/

namespace Downloads

open AwaitPrograms ChunkTransforms EnvelopeCrypto Entities Database TableInvariants Calls Ingestion
open Worker Management Orchestrator Footprints SoloRuns Uploads

def withConfig (env : Env) (config : AppConfig) : Env := { env with config := config }

/-- What happens next: a client writes a file, a webhook is accepted, a worker
attempts a transfer. -/
inductive Operation where
  | write (path : String) (entry : Entry)
  | accept (config : AppConfig) (p : SftpgoWebhookDto) (carrier : List (String × String))
      (turns : Nat → Turn)
  | process (config : AppConfig) (data : TransferJobData) (turns : Nat → Turn)

/-- A state, and the source bytes of the attempts so far, newest first. -/
structure History where
  state : State
  sources : List (Nat × Bytes)

/-- The row an attempt works on: it returns at once when there is none. -/
def workRow (s : State) (data : TransferJobData) : Option FileTransfer :=
  match s.db.transfers.find? fun t => t.id = data.transferId with
  | none => none
  | some t => if t.status = .success then none else some t

def contentAt (s : State) (path : String) : Option Bytes :=
  match lookupFile s path with
  | some (.file content) => some content
  | _ => none

/-- The source bytes of an attempt. -/
def sourceOf (s : State) (data : TransferJobData) : List (Nat × Bytes) :=
  match workRow s data with
  | none => []
  | some t => match contentAt s t.sourcePath with
    | none => []
    | some content => [(t.id, content)]

def History.after (env : Env) (pid : Nat) (h : History) : Operation → History
  | .write path entry =>
    { h with state := { h.state with files := (path, entry) :: h.state.files } }
  | .accept config p carrier turns =>
    { h with state := (runAlone (withConfig env config) pid anyCall
        (accept (withConfig env config) p carrier) ⟨h.state, turns⟩).2.state }
  | .process config data turns =>
    ⟨(runAlone (withConfig env config) pid anyCall
        (runTransfer (withConfig env config) data) ⟨h.state, turns⟩).2.state,
      sourceOf h.state data ++ h.sources⟩

/-- Histories whose operations satisfy a condition. -/
inductive Reached (env : Env) (pid : Nat) (allowed : History → Operation → Prop) (h₀ : History) :
    History → Prop where
  | start : Reached env pid allowed h₀ h₀
  | next {h : History} (path : Reached env pid allowed h₀ h) (op : Operation) (ok : allowed h op) :
      Reached env pid allowed h₀ (h.after env pid op)

/-- One master key throughout, and no attempt's source changes while it runs. -/
def Steady (kek : Key) (h : History) : Operation → Prop
  | .process config data turns => config.crypto.kek = some kek ∧
      ∀ t, workRow h.state data = some t → ∀ n, ∀ w ∈ (turns n).written, w.1 ≠ t.sourcePath
  | _ => True

/-- No row that is SUCCESS has its object where the attempt will store. -/
def Apart (env : Env) (h : History) : Operation → Prop
  | .process config data _ => ∀ t, workRow h.state data = some t → ∀ row ∈ h.state.db.transfers,
      row.status = .success → row.bucket = (routeOf (withConfig env config) t).bucket →
      row.objectKey ≠ some (routeOf (withConfig env config) t).key
  | _ => True

/-- No call of a download is rejected. -/
def noCall (_ : Op) : Bool := false

/-- The user may see the row: an administrator, or one of its tenant. -/
def MaySee (user : AuthUser) (row : FileTransfer) : Prop :=
  Role.admin ∈ user.roles ∨ user.tenantId = row.tenantId

/-- The download of the row, now or under another setting of the encryption, gives the
source bytes of its attempt, and their digest is the row's checksum. -/
def Restored (env : Env) (kek : Key) (h : History) (row : FileTransfer) : Prop :=
  ∃ content, h.sources.find? (fun e => e.1 = row.id) = some (row.id, content) ∧
    row.checksumSha256 = some (env.sha256 content) ∧
    ∀ (config : AppConfig) (user : AuthUser) (pid : Nat) (turns : Nat → Turn),
      config.crypto.kek = some kek → MaySee user row →
      ∃ d, (runAlone (withConfig env config) pid noCall
          (download (withConfig env config) row.id user) ⟨h.state, turns⟩).1 = .ok d ∧
        ∀ chunks, chunks.flatten = d.body →
          ∃ out, d.stream chunks = (out, .ok ()) ∧ out.flatten = content

section Objects
variable {L : NodeCrypto.Library}

/-- The bytes of an object open to the content with what the row says about them. -/
def Opens (L : NodeCrypto.Library) (kek : Key) (row : FileTransfer) (body content : Bytes) : Prop :=
  (row.encrypted = false ∧ body = content) ∨
    ∃ wrapped, ∃ dek : Key, ∃ iv : Iv, ∃ c, row.encrypted = true ∧ row.wrappedDek = some wrapped ∧
      wrapped ≠ "" ∧ unwrapDek L kek wrapped = .ok dek.1 ∧ L.createCipheriv dek.1 iv.1 = .ok c ∧
      body = sealedObject L iv.1 c content

/-- A stored object decrypts to its content however it is cut. -/
theorem decrypts (laws : L.Lawful) (kek dek : Key) {wrapped : String} (iv : Iv) {c : L.Cipher}
    (unwraps : unwrapDek L kek wrapped = .ok dek.1) (cipher : L.createCipheriv dek.1 iv.1 = .ok c)
    (content : Bytes) : ∃ T, createDecryptStream L kek wrapped = .ok T ∧
      ∀ chunks : List Bytes, chunks.flatten = sealedObject L iv.1 c content →
        ∃ out, T.pipe chunks = (out, .ok ()) ∧ out.flatten = content := by
  refine ⟨decryptTransform L dek.1, ?_, fun chunks cut => ?_⟩
  · simp [createDecryptStream, unwraps, bind, Except.bind, pure, Except.pure]
  · have opened := openBuffer_sealed laws dek.2 iv cipher content
    have long := (sealedObject_slices laws iv c content).1
    rw [← cut] at opened long
    obtain ⟨ends, out⟩ := pipe_decrypt_iff laws.toStreamLaws dek.1 chunks long
    exact ⟨_, Prod.ext rfl (ends.mpr ⟨content, opened⟩), out content opened⟩

end Objects

/-! ## An attempt -/

section Attempt
variable {env : Env} {kek : Key} {pid : Nat} {s₀ : State} {t : FileTransfer}

/-- What a state shares with the one before the attempt: no other row has become
SUCCESS, and objects outside the row's route are as they were. -/
structure Kept (env : Env) (s₀ : State) (t : FileTransfer) (s : State) : Prop where
  consistent : Consistent s.db
  rows : ∀ row ∈ s.db.transfers, row.status = .success → row ∈ s₀.db.transfers
  store : ∀ bucket key, ¬ ((routeOf env t).bucket = bucket ∧ (routeOf env t).key = key) →
    s.store.get bucket key = s₀.store.get bucket key

/-- A row marked SUCCESS by the attempt, with its object in place. -/
def Completed (env : Env) (kek : Key) (s₀ : State) (t : FileTransfer) (s : State)
    (row : FileTransfer) : Prop :=
  row.id = t.id ∧ row.bucket = (routeOf env t).bucket ∧ row.objectKey = some (routeOf env t).key ∧
    ∃ content obj, contentAt s₀ t.sourcePath = some content ∧
      row.checksumSha256 = some (env.sha256 content) ∧
      s.store.get (routeOf env t).bucket (routeOf env t).key = some obj ∧
      Opens env.crypto kek row obj.body content

/-- The end of an attempt: only its own row may have become SUCCESS. -/
structure Ended (env : Env) (kek : Key) (s₀ : State) (t : FileTransfer) (s : State) : Prop where
  consistent : Consistent s.db
  rows : ∀ row ∈ s.db.transfers, row.status = .success →
    row ∈ s₀.db.transfers ∨ Completed env kek s₀ t s row
  store : ∀ bucket key, ¬ ((routeOf env t).bucket = bucket ∧ (routeOf env t).key = key) →
    s.store.get bucket key = s₀.store.get bucket key

theorem Kept.ended {s : State} (h : Kept env s₀ t s) : Ended env kek s₀ t s :=
  ⟨h.consistent, fun row hrow done => .inl (h.rows row hrow done), h.store⟩

theorem Kept.before {s : State} (h : Kept env s₀ t s) (turn : Turn) :
    Kept env s₀ t (turn.before s) :=
  ⟨h.consistent, h.rows, h.store⟩

theorem Ended.before {s : State} (h : Ended env kek s₀ t s) (turn : Turn) :
    Ended env kek s₀ t (turn.before s) :=
  ⟨h.consistent, h.rows, h.store⟩

/-- The call does not mark a row SUCCESS. -/
def Unmarking (op : Op) : Prop :=
  ∀ id bucket key etag sha encrypted wrappedDek bytes,
    op ≠ .db (.update id (.markSuccess bucket key etag sha encrypted wrappedDek bytes))

/-- Rows become SUCCESS by `markSuccess` only. -/
theorem success_origin {op : Op} {c : Choice} {s s' : State} {a : Except Err op.Ans}
    (hc : Consistent s.db) (step : exec env pid op c s = some (a, s')) (unmarking : Unmarking op)
    {row : FileTransfer} (hrow : row ∈ s'.db.transfers) (done : row.status = .success) :
    row ∈ s.db.transfers := by
  rcases exec_effect_db step with same | ⟨dbOp, rfl, e⟩
  · rwa [same] at hrow
  · rcases status_origin hc e hrow (by rw [done]; decide) with h | ⟨t₀, -, p, named, rfl, -, -⟩
    · exact h
    · exfalso
      cases p with
      | markSuccess bucket key etag sha encrypted wrappedDek bytes =>
        cases dbOp with
        | update id q => cases named; exact unmarking _ _ _ _ _ _ _ _ rfl
        | resetForRetry mgr id => cases mgr <;> cases named
        | _ => cases named
      | _ => cases done

theorem exec_get {op : Op} {c : Choice} {s s' : State} {a : Except Err op.Ans}
    (step : exec env pid op c s = some (a, s')) (plain : put? op = none) (bucket key : String) :
    s'.store.get bucket key = s.store.get bucket key := by
  rcases exec_puts step with ⟨-, same⟩ | ⟨_, _, _, _, _, hput, -⟩
  · exact get_of_puts same bucket key
  · rw [plain] at hput
    cases hput

theorem Kept.exec {env' : Env} {op : Op} {c : Choice} {s s' : State} {a : Except Err op.Ans}
    (h : Kept env s₀ t s) (step : exec env' pid op c s = some (a, s')) (unmarking : Unmarking op)
    (plain : put? op = none) : Kept env s₀ t s' where
  consistent := exec_consistent step h.consistent
  rows row hrow done := h.rows row (success_origin h.consistent step unmarking hrow done) done
  store bucket key away := (exec_get step plain bucket key).trans (h.store bucket key away)

theorem Ended.exec {env' : Env} {op : Op} {c : Choice} {s s' : State} {a : Except Err op.Ans}
    (h : Ended env kek s₀ t s) (step : exec env' pid op c s = some (a, s'))
    (unmarking : Unmarking op) (plain : put? op = none) : Ended env kek s₀ t s' where
  consistent := exec_consistent step h.consistent
  rows row hrow done := by
    refine (h.rows row (success_origin h.consistent step unmarking hrow done) done).imp_right ?_
    rintro ⟨hid, hbucket, hkey, content, obj, source, sum, stored, opens⟩
    exact ⟨hid, hbucket, hkey, content, obj, source, sum,
      (exec_get step plain _ _).trans stored, opens⟩
  store bucket key away := (exec_get step plain bucket key).trans (h.store bucket key away)

/-- The attempt before `markSuccess`: its source is as it was. -/
structure Working (env : Env) (s₀ : State) (t : FileTransfer) (x : Solo) : Prop where
  kept : Kept env s₀ t x.state
  source : lookupFile x.state t.sourcePath = lookupFile s₀ t.sourcePath
  quiet : ∀ n, ∀ w ∈ (x.turns n).written, w.1 ≠ t.sourcePath

theorem lookup_before {turn : Turn} {path : String} (quiet : ∀ w ∈ turn.written, w.1 ≠ path)
    (s : State) : lookupFile (turn.before s) path = lookupFile s path := by
  unfold lookupFile Turn.before
  dsimp only
  have none : turn.written.find? (fun f => f.1 = path) = none := by
    rw [List.find?_eq_none]
    intro w hw
    simpa using quiet w hw
  rw [List.find?_append, none]
  rfl

/-- Files change from outside only. -/
theorem exec_files {op : Op} {c : Choice} {s s' : State} {a : Except Err op.Ans}
    (step : exec env pid op c s = some (a, s')) : s'.files = s.files := by
  cases exec_change step <;> rfl

/-- A turn keeps the source; what it does to rows and objects is for the caller to say. -/
theorem Working.turn {env' : Env} {op : Op} {x : Solo} (h : Working env s₀ t x)
    (kept : ∀ c a s', exec env' pid op c ((x.turns 0).before x.state) = some (a, s') →
      Kept env s₀ t s') : Working env s₀ t (serve env' pid anyCall x op).2 where
  kept := serve_keeps (h.kept.before _) kept
  source := by
    have same := lookup_before (h.quiet 0) x.state
    refine serve_keeps (I := fun s => lookupFile s t.sourcePath = lookupFile s₀ t.sourcePath)
      (same.trans h.source) fun c a s' step => ?_
    rw [← h.source, ← same]
    unfold lookupFile
    rw [exec_files step]
  quiet := by
    rw [serve_turns]
    exact fun n => h.quiet (n + 1)

/-- The object of a body is in place. -/
def Placed (env : Env) (s₀ : State) (t : FileTransfer) (body : Body) (x : Solo) : Prop :=
  Working env s₀ t x ∧ ∃ obj,
    x.state.store.get (routeOf env t).bucket (routeOf env t).key = some obj ∧
    (body.sourcePath = t.sourcePath → ∃ content, contentAt s₀ t.sourcePath = some content ∧
      body.bytes env content = some obj.body)

theorem prepareCall_unmarking {op : Op} (h : PrepareCall op) : Unmarking op := by
  rintro id bucket key etag sha encrypted wrappedDek bytes rfl
  cases h

theorem contentAt_file {s : State} {path : String} {content : Bytes}
    (h : lookupFile s path = some (.file content)) : contentAt s path = some content := by
  simp [contentAt, h]

/-- The attempt's own calls, for the rule of `prepareAndUpload`. -/
theorem follows_attempt : Follows (alone (serve env pid anyCall)) (routeOf env t).bucket
    (routeOf env t).key t.sourcePath (Working env s₀ t) (Placed env s₀ t)
    (fun content => contentAt s₀ t.sourcePath = some content) where
  may _ _ _ _ _ := trivial
  keep x op r y hx call plain hn := by
    have eq : (serve env pid anyCall x op).2 = y := by rw [hn]
    rw [← eq]
    exact hx.turn fun c a s' step =>
      (hx.kept.before _).exec step (prepareCall_unmarking call) plain
  put x op body r y hx hput hn := by
    have eq : (serve env pid anyCall x op).2 = y := by rw [hn]
    have call : Unmarking op := by
      rintro id bucket key etag sha encrypted wrappedDek bytes rfl
      cases hput
    -- whatever the answer, only the place of the route can have changed
    have working : Working env s₀ t y := by
      rw [← eq]
      refine hx.turn fun c a s' step => ?_
      have hk := hx.kept.before (x.turns 0)
      refine ⟨exec_consistent step hk.consistent, fun row hrow done => ?_, fun b k away => ?_⟩
      · exact hk.rows row (success_origin hk.consistent step call hrow done) done
      · rcases exec_puts step with ⟨-, same⟩ | ⟨b', k', body', bytes, ct, hput', -, -, same⟩
        · exact (get_of_puts same b k).trans (hk.store b k away)
        · rw [hput] at hput'
          cases hput'
          rw [← hk.store b k away, get_put same, if_neg away]
    refine ⟨fun v hr => ⟨working, ?_⟩, fun e hr => working⟩
    subst hr
    obtain ⟨c, step⟩ := serve_ok hn
    rcases exec_puts step with ⟨h | ⟨e, he⟩, -⟩ | ⟨b', k', body', bytes, ct, hput', -, hread, same⟩
    · rw [hput] at h
      cases h
    · cases he
    · rw [hput] at hput'
      cases hput'
      refine ⟨⟨bytes, ct, body.encryption.map fun e => e.1.1⟩, ?_, fun hpath => ?_⟩
      · rw [get_put same, if_pos ⟨rfl, rfl⟩]
      · have file := (lookup_before (hx.quiet 0) x.state).trans hx.source
        rw [← hpath] at file
        unfold Body.read at hread
        split at hread
        · rename_i content found
          rw [found] at file
          rw [hpath] at file
          exact ⟨content, contentAt_file file.symm, hread⟩
        · cases hread
  read x content y hx hn := by
    obtain ⟨c, step⟩ := serve_ok hn
    have file := (lookup_before (hx.quiet 0) x.state).trans hx.source
    rcases exec_cases step with ⟨_, _, h, -⟩ | hp
    · cases h
    · simp only [perform, execVolume, Option.some.injEq, Prod.mk.injEq] at hp
      have hp := hp.1
      split at hp
      · rename_i found
        cases hp
        rw [found] at file
        exact contentAt_file file.symm
      · cases hp

end Attempt

section Finish
variable {env : Env} {kek : Key} {pid : Nat} {s₀ : State} {t : FileTransfer} {x : Solo}

theorem Ended.turn (pid : Nat) (op : Op) (h : Ended env kek s₀ t x.state) (unmarking : Unmarking op)
    (plain : put? op = none) : Ended env kek s₀ t (serve env pid anyCall x op).2.state :=
  serve_keeps (h.before _) fun _ _ _ step => (h.before _).exec step unmarking plain

/-- The rest of an attempt changes no objects and makes no row SUCCESS. -/
theorem ended_within {α : Type} {P : Op → Prop} {E : Err → Prop} {p : Async α}
    (calls : Within P AnyErr E p) (harmless : ∀ op, P op → Unmarking op ∧ put? op = none)
    (h : Ended env kek s₀ t x.state) :
    Obeys (alone (serve env pid anyCall)) (fun y _ => Ended env kek s₀ t y.state) x p := by
  refine (calls.obeys (I := fun y : Solo => Ended env kek s₀ t y.state) ?_ ?_ h).mono p
    fun _ _ hy => hy.1
  · exact fun _ _ _ _ => trivial
  · intro y op r y' hy hop hn
    have eq : (serve env pid anyCall y op).2 = y' := by rw [hn]
    rw [← eq]
    exact ⟨hy.turn pid op (harmless op hop).1 (harmless op hop).2, fun _ _ => trivial⟩

theorem publishCall_harmless (op : Op) (h : PublishCall op) : Unmarking op ∧ put? op = none := by
  unfold PublishCall at h
  split at h
  · exact ⟨fun _ _ _ _ _ _ _ _ h => (nomatch h), rfl⟩
  · exact ⟨fun _ _ _ _ _ _ _ _ h => (nomatch h), rfl⟩
  · exact ⟨fun _ _ _ _ _ _ _ _ h => (nomatch h), rfl⟩
  · cases h

theorem publish_ended (tr : FileTransfer) (type : EventType) (data : EventData)
    (h : Ended env kek s₀ t x.state) :
    Obeys (alone (serve env pid anyCall)) (fun y _ => Ended env kek s₀ t y.state) x
      (publishTransferEvent env tr type data) :=
  ended_within (publish_within tr type data) publishCall_harmless h

/-- The bytes of a body open with what `markSuccess` writes beside them. -/
theorem opens_patch (laws : env.crypto.Lawful) (empty : env.crypto.fromBase64 "" = [])
    (hkek : env.config.crypto.kek = some kek) {enc : Option Encryption} (sealing : Sealing env enc)
    {path : String} {content bytes : Bytes}
    (hbytes : (bodyFor path enc).bytes env content = some bytes) {u : Uploaded}
    (wrapped : u.wrappedDek = enc.map (·.wrappedDek)) (now : Nat) (row : FileTransfer) :
    Opens env.crypto kek (u.patch.apply now row) bytes content := by
  cases enc with
  | none =>
    refine .inl ⟨?_, ?_⟩
    · change u.wrappedDek.isSome = false
      rw [wrapped]
      rfl
    · exact (Option.some.inj hbytes).symm
  | some e =>
    obtain ⟨kek', hkek', unwraps, b, hb, long⟩ := sealing
    obtain rfl : kek' = kek := Option.some.inj (hkek'.symm.trans hkek)
    obtain ⟨c, cipher⟩ := laws.cipher_exists e.dek.1 e.iv.1 e.dek.2 e.iv.2
    refine .inr ⟨e.wrappedDek, e.dek, e.iv, c, ?_, ?_, ?_, unwraps, cipher, ?_⟩
    · change u.wrappedDek.isSome = true
      rw [wrapped]
      rfl
    · change u.wrappedDek = some e.wrappedDek
      rw [wrapped]
      rfl
    · intro none
      rw [none] at hb
      have short : b = [] := by rw [← laws.base64 b, ← hb, empty]
      rw [short] at long
      exact absurd long (by decide)
    · obtain ⟨emitted, piped, flat⟩ := pipe_encrypt laws e.iv.1 c [content]
      simp only [Body.bytes, bodyFor, Option.map_some, cipher, piped, Option.some.injEq] at hbytes
      rw [← hbytes, flat]
      simp

theorem complete_ended (laws : env.crypto.Lawful) (empty : env.crypto.fromBase64 "" = [])
    (hkek : env.config.crypto.kek = some kek) {u : Uploaded}
    (stored : Stored env t (Placed env s₀ t) (fun content =>
      contentAt s₀ t.sourcePath = some content) x u) :
    Obeys (alone (serve env pid anyCall)) (fun y _ => Ended env kek s₀ t y.state) x
      (complete env t u) := by
  obtain ⟨hbucket, hkey, enc, content, sealing, wrapped, source, sum, working, obj, placed,
    bytes⟩ := stored
  obtain ⟨content', source', hbytes⟩ := bytes rfl
  obtain rfl : content' = content := Option.some.inj (source'.symm.trans source)
  have marked :
      Ended env kek s₀ t (serve env pid anyCall x (.db (.update t.id u.patch))).2.state := by
    refine serve_keeps (working.kept.before _).ended fun c a s' step => ?_
    have hk := working.kept.before (x.turns 0)
    refine ⟨exec_consistent step hk.consistent, fun row hrow done => ?_, fun b k away => ?_⟩
    · rcases exec_effect_db step with same | ⟨dbOp, hop, e⟩
      · exact .inl (hk.rows row (same ▸ hrow) done)
      · rcases status_origin hk.consistent e hrow (by rw [done]; decide) with h | ⟨t₀, -, p,
          named, rfl, -⟩
        · exact .inl (hk.rows row h done)
        · cases hop
          obtain ⟨hid, rfl⟩ : t.id = t₀.id ∧ u.patch = p := by simpa [poolUpdate] using named
          refine .inr ⟨(Patch.apply_id _ _ _).trans hid.symm, hbucket, congrArg some hkey,
            content', obj, source,
            congrArg some sum, (exec_get step rfl _ _).trans placed, ?_⟩
          exact opens_patch laws empty hkek sealing hbytes wrapped _ _
    · exact (exec_get step rfl b k).trans (hk.store b k away)
  refine ⟨trivial, fun r y hn => ?_⟩
  have eq : (serve env pid anyCall x (.db (.update t.id u.patch))).2 = y := by rw [hn]
  rw [eq] at marked
  cases r with
  | error e => exact marked
  | ok _ =>
    refine ⟨trivial, fun r' z hz => ?_⟩
    have eq' : (serve env pid anyCall y (.db (.recordUsage t.tenantId u.sizeBytes))).2 = z := by
      rw [hz]
    have metered := marked.turn pid (.db (.recordUsage t.tenantId u.sizeBytes))
      (fun _ _ _ _ _ _ _ _ h => nomatch h) rfl
    rw [eq'] at metered
    cases r' with
    | error e => exact metered
    | ok _ => exact publish_ended t _ _ metered

theorem reject_ended {tr : FileTransfer} (e : Err) (h : Ended env kek s₀ t x.state) :
    Obeys (alone (serve env pid anyCall)) (fun y _ => Ended env kek s₀ t y.state) x
      (reject env tr e) := by
  unfold reject
  split
  · rename_i message
    refine Obeys.andThen (q := fun y _ => Ended env kek s₀ t y.state) ?_ ?_ fun _ _ hy => hy
    · refine ended_within
        (within_call (P := fun op => op = .db (.update tr.id (.markFailed message)))
        (E := AnyErr) rfl fun _ h => h) ?_ h
      rintro op rfl
      exact ⟨fun _ _ _ _ _ _ _ _ h => (nomatch h), rfl⟩
    · intro y _ hy
      refine (publish_ended tr _ _ hy).andThen ?_ fun _ _ hz => hz
      intro z _ hz
      refine ended_within (within_call (P := fun op => ∃ d, op = .queue (.addDeadLetter d))
        (E := AnyErr) ⟨_, rfl⟩ fun _ h => h) ?_ hz
      rintro op ⟨d, rfl⟩
      exact ⟨fun _ _ _ _ _ _ _ _ h => (nomatch h), rfl⟩
  · exact h

end Finish

/-! ## Histories -/

section Histories
variable {env : Env} {kek : Key} {pid : Nat} {s₀ : State} {x : Solo}

/-- No row has become SUCCESS and no object has changed. -/
structure Same (s₀ s : State) : Prop where
  consistent : Consistent s.db
  rows : ∀ row ∈ s.db.transfers, row.status = .success → row ∈ s₀.db.transfers
  store : ∀ bucket key, s.store.get bucket key = s₀.store.get bucket key

theorem Same.turn (pid : Nat) (op : Op) (h : Same s₀ x.state) (unmarking : Unmarking op)
    (plain : put? op = none) : Same s₀ (serve env pid anyCall x op).2.state := by
  have hc : Consistent ((x.turns 0).before x.state).db := h.consistent
  refine serve_keeps ⟨h.consistent, h.rows, h.store⟩ fun c a s' step => ?_
  refine ⟨exec_consistent step hc, fun row hrow done => ?_, fun b k => ?_⟩
  · exact h.rows row (success_origin hc step unmarking hrow done) done
  · exact (exec_get step plain b k).trans (h.store b k)

theorem accept_same (h : Same s₀ x.state) (p : SftpgoWebhookDto)
    (carrier : List (String × String)) :
    Same s₀ ((accept env p carrier).run (serve env pid anyCall) x).2.state := by
  refine (accept_within p carrier).run_keeps (I := fun y : Solo => Same s₀ y.state) ?_ h
  intro y op hy call
  refine hy.turn pid op ?_ ?_
  · rintro id bucket key etag sha encrypted wrappedDek bytes rfl
    cases call
  · unfold AcceptCall at call
    split at call <;> first | rfl | cases call

/-- The first read of an attempt. -/
theorem findOne_answer {id : Nat} {a : Except Err (Option FileTransfer)} {y : Solo}
    (h : serve env pid anyCall x (.db (.findOne .pool id)) = (a, y)) :
    (∃ e, a = .error e) ∨ a = .ok (x.state.db.transfers.find? fun t => t.id = id) := by
  cases a with
  | error e => exact .inl ⟨e, rfl⟩
  | ok row =>
    obtain ⟨c, step⟩ := serve_ok h
    rcases exec_db step with ⟨_, _, h, -⟩ | ⟨db', ran, -⟩
    · cases h
    · cases ran
      exact .inr rfl

/-- An attempt without a row to work on does nothing. -/
theorem process_idle {data : TransferJobData} (h : Same s₀ x.state)
    (idle : workRow x.state data = none) :
    Same s₀ ((runTransfer env data).run (serve env pid anyCall) x).2.state := by
  refine (obeys_alone_iff _ (fun (y : Solo) (_ : Except Err Unit) => Same s₀ y.state) x _).mp ?_
  refine ⟨trivial, fun a y hn => ?_⟩
  have eq : (serve env pid anyCall x (.db (.findOne .pool data.transferId))).2 = y := by rw [hn]
  have same : Same s₀ y.state := by
    rw [← eq]
    exact h.turn pid _ (fun _ _ _ _ _ _ _ _ h => nomatch h) rfl
  rcases findOne_answer hn with ⟨e, rfl⟩ | rfl
  · exact same
  · unfold workRow at idle
    split at idle
    · rename_i found
      rw [found]
      exact same
    · rename_i t found
      split at idle
      · rename_i done
        rw [found]
        change Obeys _ _ y (if t.status = .success then _ else _)
        rw [if_pos done]
        exact same
      · cases idle

theorem process_ended (env : Env) (laws : env.crypto.Lawful) (empty : env.crypto.fromBase64 "" = [])
    (hkek : env.config.crypto.kek = some kek) {data : TransferJobData} {t : FileTransfer}
    (consistent : Consistent x.state.db) (found : workRow x.state data = some t)
    (quiet : ∀ n, ∀ w ∈ (x.turns n).written, w.1 ≠ t.sourcePath) :
    Ended env kek x.state t ((runTransfer env data).run (serve env pid anyCall) x).2.state := by
  have working : Working env x.state t x :=
    ⟨⟨consistent, fun _ h _ => h, fun _ _ _ => rfl⟩, rfl, quiet⟩
  have row : x.state.db.transfers.find? (fun t => t.id = data.transferId) = some t ∧
      t.status ≠ .success := by
    unfold workRow at found
    split at found
    · cases found
    · rename_i t' ht'
      split at found
      · cases found
      · rename_i unfinished
        cases found
        exact ⟨ht', unfinished⟩
  refine (obeys_alone_iff _ (fun (y : Solo) (_ : Except Err Unit) =>
    Ended env kek x.state t y.state)
    x _).mp ?_
  refine ⟨trivial, fun a y hn => ?_⟩
  have eq : (serve env pid anyCall x (.db (.findOne .pool data.transferId))).2 = y := by rw [hn]
  have working₁ : Working env x.state t y := by
    rw [← eq]
    exact working.turn fun c a s' step =>
      (working.kept.before _).exec step (fun _ _ _ _ _ _ _ _ h => nomatch h) rfl
  rcases findOne_answer hn with ⟨e, rfl⟩ | rfl
  · exact working₁.kept.ended
  rw [row.1]
  change Obeys _ _ y (if t.status = .success then _ else _)
  rw [if_neg row.2]
  refine ⟨trivial, fun a z hz => ?_⟩
  have eq' : (serve env pid anyCall y (.db (.update t.id .markProcessing))).2 = z := by rw [hz]
  have working₂ : Working env x.state t z := by
    rw [← eq']
    exact working₁.turn fun c a s' step =>
      (working₁.kept.before _).exec step (fun _ _ _ _ _ _ _ _ h => nomatch h) rfl
  cases a with
  | error e => exact working₂.kept.ended
  | ok _ =>
    refine Obeys.orElse (q := fun y _ => Ended env kek x.state t y.state) ?_ (fun _ _ hy => hy)
      fun _ e hy => reject_ended e hy
    refine (prepare_obeys follows_attempt laws working₂).andThen ?_ ?_
    · exact fun y u hy => complete_ended laws empty hkek (hy.1 u rfl)
    · intro y e hy
      rcases (hy.2 e rfl).1 with hw | ⟨body, hw, -⟩
      · exact hw.kept.ended
      · exact hw.kept.ended

/-- The row describes the stored object, and the object holds the source of its attempt. -/
def Intact (env : Env) (kek : Key) (h : History) (row : FileTransfer) : Prop :=
  ∃ content obj key, h.sources.find? (fun e => e.1 = row.id) = some (row.id, content) ∧
    row.checksumSha256 = some (env.sha256 content) ∧ row.objectKey = some key ∧ key ≠ "" ∧
    h.state.store.get row.bucket key = some obj ∧ Opens env.crypto kek row obj.body content

/-- Every SUCCESS row is intact. -/
structure Sound (env : Env) (kek : Key) (h : History) : Prop where
  consistent : Consistent h.state.db
  intact : ∀ row ∈ h.state.db.transfers, row.status = .success → Intact env kek h row

theorem route_key_ne (env : Env) (t : FileTransfer) : (routeOf env t).key ≠ "" := by
  intro h
  have := congrArg String.length h
  simp [routeOf, Routing.resolve, String.length_append] at this

theorem sound_same {h h' : History} (sound : Sound env kek h) (same : Same h.state h'.state)
    (sources : h'.sources = h.sources) : Sound env kek h' := by
  refine ⟨same.consistent, fun row hrow done => ?_⟩
  obtain ⟨content, obj, key, source, sum, hkey, ne, stored, opens⟩ :=
    sound.intact row (same.rows row hrow done) done
  exact ⟨content, obj, key, sources ▸ source, sum, hkey, ne, (same.store _ _).trans stored, opens⟩

theorem workRow_mem {s : State} {data : TransferJobData} {t : FileTransfer}
    (h : workRow s data = some t) : t ∈ s.db.transfers ∧ t.status ≠ .success := by
  unfold workRow at h
  split at h
  · cases h
  · rename_i t' found
    split at h
    · cases h
    · rename_i unfinished
      cases h
      exact ⟨List.mem_of_find?_eq_some found, unfinished⟩

/-- An attempt away from the objects of SUCCESS rows keeps them intact, and its own row
is intact when it has become SUCCESS. -/
theorem sound_ended {h h' : History} (sound : Sound env kek h) {config : AppConfig}
    {data : TransferJobData} {turns : Nat → Turn} {t : FileTransfer}
    (found : workRow h.state data = some t)
    (apart : Apart env h (.process config data turns))
    (ended : Ended (withConfig env config) kek h.state t h'.state)
    (sources : h'.sources = sourceOf h.state data ++ h.sources) : Sound env kek h' := by
  obtain ⟨ht, unfinished⟩ := workRow_mem found
  refine ⟨ended.consistent, fun row hrow done => ?_⟩
  rcases ended.rows row hrow done with old | ⟨hid, hbucket, hkey, content, obj, source, sum,
    stored, opens⟩
  · obtain ⟨content, obj, key, source, sum, hkey, ne, stored, opens⟩ := sound.intact row old done
    have other : t.id ≠ row.id := by
      intro same
      rw [row_unique sound.consistent ht old same] at unfinished
      exact unfinished done
    refine ⟨content, obj, key, ?_, sum, hkey, ne, ?_, opens⟩
    · rw [sources]
      unfold sourceOf
      rw [found]
      dsimp only
      split
      · exact source
      · rw [List.singleton_append, List.find?_cons_of_neg (by simpa using other)]
        exact source
    · rw [ended.store row.bucket key, stored]
      rintro ⟨same, same'⟩
      exact apart t found row old done same.symm (by rw [hkey, same'])
  · refine ⟨content, obj, _, ?_, sum, hkey, route_key_ne _ t, ?_, opens⟩
    · rw [sources]
      simp [sourceOf, found, source, hid]
    · rw [hbucket]
      exact stored

theorem sound_after (laws : env.crypto.Lawful) (empty : env.crypto.fromBase64 "" = []) {h : History}
    (sound : Sound env kek h) (op : Operation) (steady : Steady kek h op) (apart : Apart env h op) :
    Sound env kek (h.after env pid op) := by
  have start : Same h.state h.state := ⟨sound.consistent, fun _ h _ => h, fun _ _ => rfl⟩
  cases op with
  | write path entry => exact sound_same sound ⟨start.consistent, start.rows, start.store⟩ rfl
  | accept config p carrier turns =>
    refine sound_same sound ?_ rfl
    exact accept_same (x := ⟨h.state, turns⟩) start p carrier
  | process config data turns =>
    cases found : workRow h.state data with
    | none =>
      refine sound_same sound (process_idle (x := ⟨h.state, turns⟩) start found) ?_
      change sourceOf h.state data ++ h.sources = h.sources
      simp [sourceOf, found]
    | some t =>
      refine sound_ended sound found apart ?_ rfl
      exact process_ended (withConfig env config)
        (x := ⟨h.state, turns⟩) laws empty steady.1 sound.consistent found
        (steady.2 t found)

end Histories

/-! ## The download -/

section Download
variable {env : Env} {kek : Key} {pid : Nat} {x : Solo} {row : FileTransfer}

/-- The row is found by its number wherever it is visible. -/
theorem find_row {rows : List FileTransfer} (distinct : (rows.map (·.id)).Nodup) (hrow : row ∈ rows)
    (visible : FileTransfer → Bool) (sees : visible row = true) :
    (rows.filter visible).find? (fun t => t.id = row.id) = some row := by
  have sub : ((rows.filter visible).map (·.id)).Sublist (rows.map (·.id)) :=
    List.filter_sublist.map _
  exact find_unique (distinct.sublist sub) (List.mem_filter.mpr ⟨hrow, sees⟩)

/-- The read of `getById` finds the row, in the pool or in the tenant's transaction. -/
theorem scoped_find (env : Env) (pid : Nat) (consistent : Consistent x.state.db)
    (hrow : row ∈ x.state.db.transfers) {user : AuthUser} (sees : MaySee user row) :
    ∃ y, (scopedTo user fun mgr => db (.findOne mgr row.id)).run (serve env pid noCall) x =
      (.ok (some row), y) ∧ y.state.store = x.state.store := by
  unfold scopedTo
  have distinct := distinct_rows consistent
  split
  · have found : x.state.db.transfers.find? (fun t => t.id = row.id) = some row := by
      simpa using find_row distinct hrow (fun _ => true) rfl
    refine ⟨_, run_call (serve_spared (y := (x.turns 0).before x.state) rfl ?_), rfl⟩
    simp only [perform, Db.exec, Db.rows, before_db, found]
    rfl
  · rename_i notAdmin
    have tenant : user.tenantId = row.tenantId := sees.resolve_left notAdmin
    -- begin, set the tenant, read, commit
    have begun : serve env pid noCall x (.db .begin) = (.ok (), _) := serve_spared rfl rfl
    generalize hy : (⟨_, fun n => x.turns (n + 1)⟩ : Solo) = y at begun
    have rows₁ : y.state.db.transfers = x.state.db.transfers ∧ y.state.store = x.state.store ∧
        ∃ start, y.state.db.tx pid = some ⟨start, none, []⟩ := by
      subst hy
      exact ⟨rfl, rfl, _, tx_setTx _ _ _⟩
    obtain ⟨same₁, store₁, start, open₁⟩ := rows₁
    have set : serve env pid noCall y (.db (.setCurrentTenant user.tenantId)) = (.ok (), ⟨
        { (y.turns 0).before y.state with
          db := y.state.db.setTx pid ⟨start, some user.tenantId, []⟩ },
            fun n => y.turns (n + 1)⟩) := by
      refine serve_spared rfl ?_
      simp only [perform, Db.exec, before_db, open₁]
    generalize hz : (⟨_, fun n => y.turns (n + 1)⟩ : Solo) = z at set
    have rows₂ : z.state.db.transfers = x.state.db.transfers ∧ z.state.store = x.state.store ∧
        z.state.db.tx pid = some ⟨start, some user.tenantId, []⟩ := by
      subst hz
      exact ⟨same₁, store₁, tx_setTx _ _ _⟩
    obtain ⟨same₂, store₂, open₂⟩ := rows₂
    have read : serve env pid noCall z (.db (.findOne .tx row.id)) = (.ok (some row),
        ⟨(z.turns 0).before z.state, fun n => z.turns (n + 1)⟩) := by
      refine serve_spared rfl ?_
      have found := find_row distinct hrow (tenantIsolation (some user.tenantId)) (by
        simp [tenantIsolation, tenant])
      simp only [perform, Db.exec, Db.rows, before_db, open₂, Db.applyWrites,
        List.foldl_nil, same₂, found]
      rfl
    have committed :
        ∃ w, serve env pid noCall ⟨(z.turns 0).before z.state, fun n => z.turns (n + 1)⟩
        (.db .commit) = (.ok (), w) ∧ w.state.store = z.state.store := by
      refine ⟨_, serve_spared (y := { (z.turns 1).before ((z.turns 0).before z.state) with
        db := (z.state.db.applyWrites ⟨start, some user.tenantId, []⟩).dropTx pid }) rfl ?_, rfl⟩
      simp only [perform, Db.exec, before_db, open₂]
    obtain ⟨w, committed, store₃⟩ := committed
    refine ⟨w, ?_, store₃.trans store₂⟩
    refine (run_bind_ok (run_call begun)).trans (run_tryCatch_ok ?_)
    refine (run_bind_ok ((run_bind_ok (run_call set)).trans (run_call read))).trans ?_
    exact (run_bind_ok (run_call committed)).trans rfl

theorem present_of_ne {s : String} (h : s ≠ "") : Routing.present (some s) = some s := by
  simp [Routing.present, h]

/-- What `download` does with the object it has fetched. -/
def handOver (env : Env) (row : FileTransfer) (obj : StoredObject) :
    Async (DownloadResult env.crypto) :=
  match row.encrypted, Routing.present row.wrappedDek with
  | true, some wrappedDek => (decryption env wrappedDek).bind fun t =>
      Prog.done (.ok ⟨obj.body, some t, row.filename, obj.contentType⟩)
  | _, _ => Prog.done (.ok ⟨obj.body, none, row.filename, obj.contentType⟩)

/-- The download of an intact row. -/
theorem download_restores (env : Env) (laws : env.crypto.Lawful)
    (hkek : env.config.crypto.kek = some kek) (consistent : Consistent x.state.db)
    (hrow : row ∈ x.state.db.transfers) (done : row.status = .success) {key : String}
    (hkey : row.objectKey = some key) (ne : key ≠ "") {obj : StoredObject}
    (stored : x.state.store.get row.bucket key = some obj) {content : Bytes}
    (opens : Opens env.crypto kek row obj.body content) {user : AuthUser} (sees : MaySee user row) :
    ∃ d, (runAlone env pid noCall (download env row.id user) x).1 = .ok d ∧
      ∀ chunks, chunks.flatten = d.body →
        ∃ out, d.stream chunks = (out, .ok ()) ∧ out.flatten = content := by
  obtain ⟨y, found, store⟩ := scoped_find env pid consistent hrow sees
  have got : (getById row.id user).run (serve env pid noCall) x = (.ok row, y) :=
    (run_bind_ok found).trans rfl
  have fetched : serve env pid noCall y (.store (.getObject row.bucket key)) =
      (.ok obj, ⟨(y.turns 0).before y.state, fun n => y.turns (n + 1)⟩) := by
    refine serve_spared rfl ?_
    simp only [perform, execStore, before_store, store, stored]
  -- what is left after the object has been fetched
  have run : ∀ {d : DownloadResult env.crypto} {p : Async (DownloadResult env.crypto)},
      handOver env row obj = p →
      p = Prog.done (.ok d) → (runAlone env pid noCall (download env row.id user) x).1 = .ok d := by
    intro d p rest ends
    have ran : (download env row.id user).run (serve env pid noCall) x =
        (.ok d, ⟨(y.turns 0).before y.state, fun n => y.turns (n + 1)⟩) := by
      refine (run_bind_ok got).trans ?_
      simp only [done, ne_eq, not_true_eq_false, if_false, hkey, present_of_ne ne]
      refine (run_bind_ok (run_call fetched)).trans ?_
      refine (congrArg (fun q => Prog.run (serve env pid noCall) q _) (rest.trans ends)).trans rfl
    unfold runAlone
    rw [ran]
  rcases opens with ⟨plain, rfl⟩ | ⟨wrapped, dek, iv, c, enc, hwrapped, some_, unwraps,
    cipher, sealed_⟩
  · refine ⟨⟨obj.body, none, row.filename, obj.contentType⟩, run (by rw [handOver, plain]) rfl,
      fun chunks cut => ?_⟩
    exact ⟨chunks, rfl, cut⟩
  · obtain ⟨T, created, pipes⟩ := decrypts laws kek dek iv unwraps cipher content
    refine ⟨⟨obj.body, some T, row.filename, obj.contentType⟩, run (by
      rw [handOver, enc, hwrapped, present_of_ne some_]) ?_, fun chunks cut => ?_⟩
    · unfold decryption
      rw [hkek]
      dsimp only
      rw [created]
      rfl
    · exact pipes chunks (cut.trans sealed_)

theorem sound_reached (laws : env.crypto.Lawful) (empty : env.crypto.fromBase64 "" = [])
    {h₀ h : History} (start : Initial (⟨h₀.state, [], 0⟩ : SysWorld))
    (path : Reached env pid (fun h op => Steady kek h op ∧ Apart env h op) h₀ h) :
    Sound env kek h := by
  induction path with
  | start =>
    refine ⟨initial_consistent start, fun row hrow => ?_⟩
    rw [show h₀.state.db.transfers = [] from start.transfers] at hrow
    cases hrow
  | next _ op ok ih => exact sound_after laws empty ih op ok.1 ok.2

/-- Every SUCCESS row of a history stays downloadable as itself, as long as every
attempt stores away from the objects of SUCCESS rows. -/
theorem stays_downloadable (env : Env) (kek : Key) (pid : Nat) (laws : env.crypto.Lawful)
    (empty : env.crypto.fromBase64 "" = []) (h₀ h : History)
    (start : Initial (⟨h₀.state, [], 0⟩ : SysWorld))
    (path : Reached env pid (fun h op => Steady kek h op ∧ Apart env h op) h₀ h)
    (row : FileTransfer) (hrow : row ∈ h.state.db.transfers) (done : row.status = .success) :
    Restored env kek h row := by
  have sound := sound_reached laws empty start path
  obtain ⟨content, obj, key, source, sum, hkey, ne, stored, opens⟩ := sound.intact row hrow done
  refine ⟨content, source, sum, fun config user pid turns hkek sees => ?_⟩
  exact download_restores (withConfig env config)
    (x := ⟨h.state, turns⟩) laws hkek sound.consistent hrow done hkey ne stored
    opens sees

end Download

/-! ## Sample histories -/

/-- The sample installation with the master key, and encryption on or off. -/
def cryptoConfig (enabled : Bool) : AppConfig :=
  { sampleConfig with crypto := ⟨enabled, some sampleKey, fun _ => rfl⟩ }

def plainTurns (_ : Nat) : Turn := {}

def sampleHistory : History := ⟨sampleState, []⟩

theorem stays_downloadable_sample : ∃ h row, row ∈ h.state.db.transfers ∧ row.status = .success ∧
    row.encrypted = true ∧ Restored sampleEnv sampleKey h row := by
  let h₁ := sampleHistory.after sampleEnv 0 (.accept (cryptoConfig true) sampleUpload [] plainTurns)
  let h₂ := h₁.after sampleEnv 0 (.process (cryptoConfig true) ⟨0, []⟩ plainTurns)
  have pending : h₁.state.db.transfers.map (·.status) = [.pending] := by decide +kernel
  have done : h₂.state.db.transfers.map (fun t => (t.status, t.encrypted)) =
      [(.success, true)] := by
    decide +kernel
  have apart : Apart sampleEnv h₁ (.process (cryptoConfig true) ⟨0, []⟩ plainTurns) := by
    intro t _ row hrow success
    have := List.mem_map_of_mem (f := (·.status)) hrow
    rw [pending, List.mem_singleton, success] at this
    cases this
  have path : Reached sampleEnv 0 (fun h op => Steady sampleKey h op ∧ Apart sampleEnv h op)
      sampleHistory h₂ := by
    refine .next (.next .start _ ⟨trivial, trivial⟩) _ ⟨⟨rfl, fun t _ n w hw => ?_⟩, apart⟩
    cases hw
  obtain ⟨row, hrow, hstatus⟩ := List.map_eq_singleton_iff.mp done
  obtain ⟨hs, he⟩ := Prod.mk.inj hstatus
  have mem : row ∈ h₂.state.db.transfers := by rw [hrow]; exact List.mem_singleton_self row
  refine ⟨h₂, row, mem, hs, he, ?_⟩
  exact stays_downloadable sampleEnv sampleKey 0 GaloisCounter.node_lawful
    (by decide) sampleHistory h₂
    sample_initial path row mem hs

/-- The digests of a second upload of the same path a minute later, with the byte `b`. -/
def secondEnv : Env := { sampleEnv with
  md5 := fun b => if b = [98] then "92eb5ffee6ae2fec3ad71c777531578f" else sampleEnv.md5 b
  sha256 := fun b =>
    if b = [98] then "3e23e8160039594a33894f6564e1b1348bbd7a0088d42c4acb73eeaed59c009d"
    else if b = utf8 "alice|/a.txt|1|1720000060000|" then
      "3a4b32322fab365b196a8ed3bc17c86be29311d1c07cb4a58d52f7d238438f2a"
    else sampleEnv.sha256 b }

def secondUpload : SftpgoWebhookDto := { sampleUpload with timestamp := some 1720000060000 }

/-- The sample upload is stored as it is. Then encryption is switched on, the file is
written again, and the second upload is processed too. -/
def overwritten : List Operation :=
  [.accept (cryptoConfig false) sampleUpload [] plainTurns,
   .process (cryptoConfig false) ⟨0, []⟩ plainTurns, .write sampleFile (.file [98]),
   .accept (cryptoConfig true) secondUpload [] plainTurns,
   .process (cryptoConfig true) ⟨2, []⟩ plainTurns]

theorem reached_all {env : Env} {pid : Nat} {allowed : History → Operation → Prop} {h₀ : History}
    (ops : List Operation) (always : ∀ h, ∀ op ∈ ops, allowed h op) {h : History}
    (path : Reached env pid allowed h₀ h) :
    Reached env pid allowed h₀ (ops.foldl (fun h op => h.after env pid op) h) := by
  induction ops generalizing h with
  | nil => exact path
  | cons op ops ih =>
    refine ih (fun h op hop => always h op (List.mem_cons_of_mem _ hop)) ?_
    exact .next path op (always h op List.mem_cons_self)

/-- After a second upload to the same path the first row is still SUCCESS and not
encrypted, and its download gives the ciphertext of the second upload. -/
theorem does_not_stay_downloadable : ¬ ∀ (env : Env) (kek : Key) (pid : Nat) (h₀ h : History),
    env.crypto.Lawful → env.crypto.fromBase64 "" = [] → Initial (⟨h₀.state, [], 0⟩ : SysWorld) →
    Reached env pid (Steady kek) h₀ h → ∀ row ∈ h.state.db.transfers, row.status = .success →
    Restored env kek h row := by
  intro always
  let h := overwritten.foldl (fun h op => h.after secondEnv 0 op) sampleHistory
  let admin : AuthUser := ⟨0, "admin", [.admin], "default"⟩
  have steady : ∀ h, ∀ op ∈ overwritten, Steady sampleKey h op := by
    intro h op hop
    simp only [overwritten, List.mem_cons, List.not_mem_nil, or_false] at hop
    rcases hop with rfl | rfl | rfl | rfl | rfl
    · trivial
    · exact ⟨rfl, fun t _ n w hw => nomatch hw⟩
    · trivial
    · trivial
    · exact ⟨rfl, fun t _ n w hw => nomatch hw⟩
  have rows : h.state.db.transfers.map (fun t => (t.id, t.status)) =
      [(0, .success), (2, .success)] := by
    decide +kernel
  have source : h.sources.find? (fun e => e.1 = 0) = some (0, [97]) := by decide +kernel
  have given : (match (runAlone (withConfig secondEnv (cryptoConfig true)) 0 noCall
      (download (withConfig secondEnv (cryptoConfig true)) 0 admin) ⟨h.state, plainTurns⟩).1 with
      | .ok d => some (d.body.length, d.decryption.isNone)
      | .error _ => none) = some (29, true) := by decide +kernel
  obtain ⟨row, hrow, hid, hs⟩ : ∃ row ∈ h.state.db.transfers, row.id = 0 ∧
    row.status = .success := by
    have mem : (0, TransferStatus.success) ∈ h.state.db.transfers.map
        fun t => (t.id, t.status) := by
      rw [rows]
      exact List.mem_cons_self
    obtain ⟨row, hrow, heq⟩ := List.mem_map.mp mem
    exact ⟨row, hrow, (Prod.mk.inj heq).1, (Prod.mk.inj heq).2⟩
  obtain ⟨content, hsource, -, restores⟩ := always secondEnv sampleKey 0 sampleHistory h
    GaloisCounter.node_lawful (by decide) sample_initial (reached_all _ steady .start) row hrow hs
  rw [hid] at hsource restores
  obtain ⟨d, hd, streams⟩ := restores (cryptoConfig true) admin 0 plainTurns rfl (.inl (by decide))
  rw [hd] at given
  obtain ⟨long, plain⟩ := Prod.mk.inj (Option.some.inj given)
  obtain ⟨out, piped, flat⟩ := streams [d.body] (by simp)
  have same : out = [d.body] := by
    unfold DownloadResult.stream at piped
    split at piped
    · exact (Prod.mk.inj piped).1.symm
    · rename_i T hT
      rw [hT] at plain
      cases plain
  have one : content = [97] := (Prod.mk.inj (Option.some.inj (hsource.symm.trans source))).2
  rw [same, one, List.flatten_singleton] at flat
  rw [flat] at long
  cases long

end Downloads
