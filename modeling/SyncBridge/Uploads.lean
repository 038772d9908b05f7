import SyncBridge.Footprints

/-!
# What an attempt uploads

The calls of `prepareAndUpload` seen by an observer who knows two kinds of states:
nothing has been stored yet, and the object of one body has been stored. When the
function returns, the object was stored at the route of the row, its body is
encrypted under the key that the returned wrapped key opens to, and the returned
checksum is that of the bytes the source was read as.
-/

namespace Uploads

open AwaitPrograms ChunkTransforms EnvelopeCrypto Entities Database Calls Worker Footprints

/-- The place and the body of a call that stores an object. -/
def put? : Op → Option (String × String × Body)
  | .store (.putObject bucket key body _ _) => some (bucket, key, body)
  | .store (.multipartUpload bucket key body _) => some (bucket, key, body)
  | _ => none

section Objects
variable {env : Env} {pid : Nat} {op : Op} {c : Choice} {s s' : State} {a : Except Err op.Ans}

/-- What a call did to the stored objects: nothing, or it has put its bytes in front. -/
def Stores (env : Env) (pid : Nat) (s s' : State) (op : Op) (a : Except Err op.Ans) : Prop :=
  ((put? op = none ∨ ∃ e, a = .error e) ∧ s'.store.puts = s.store.puts) ∨
  ∃ bucket key body bytes contentType, put? op = some (bucket, key, body) ∧ (∃ v, a = .ok v) ∧
    body.read env s = some bytes ∧ s'.store.puts =
      ⟨bucket, key, ⟨bytes, contentType, body.encryption.map fun e => e.1.1⟩, pid⟩ :: s.store.puts

theorem execStore_puts {o : StoreOp} {a : Except Err o.Ans}
    (ran : execStore env pid s o = (a, s')) :
    Stores env pid s s' (.store o) a := by
  cases o with
  | headBucket bucket =>
    simp only [execStore] at ran
    split at ran <;> cases ran <;> exact .inl ⟨.inl rfl, rfl⟩
  | createBucket bucket => cases ran; exact .inl ⟨.inl rfl, rfl⟩
  | getObject bucket key =>
    simp only [execStore] at ran
    split at ran <;> cases ran <;> exact .inl ⟨.inl rfl, rfl⟩
  | putObject bucket key body contentLength contentType =>
    simp only [execStore] at ran
    split at ran
    · cases ran; exact .inl ⟨.inr ⟨_, rfl⟩, rfl⟩
    · rename_i bytes hread
      split at ran
      · cases ran; exact .inr ⟨bucket, key, body, bytes, contentType, rfl, ⟨_, rfl⟩, hread, rfl⟩
      · cases ran; exact .inl ⟨.inr ⟨_, rfl⟩, rfl⟩
  | multipartUpload bucket key body contentType =>
    simp only [execStore] at ran
    split at ran
    · cases ran; exact .inl ⟨.inr ⟨_, rfl⟩, rfl⟩
    · rename_i bytes hread
      cases ran; exact .inr ⟨bucket, key, body, bytes, contentType, rfl, ⟨_, rfl⟩, hread, rfl⟩

/-- An answered upload stores its bytes; no other call stores an object. -/
theorem exec_puts (h : exec env pid op c s = some (a, s')) : Stores env pid s s' op a := by
  cases exec_change h with
  | rejected op name message => exact .inl ⟨.inr ⟨_, rfl⟩, rfl⟩
  | store o a objects ran => exact execStore_puts ran
  | _ => exact .inl ⟨.inl rfl, rfl⟩

/-- The last write at a key is the one that counts. -/
theorem get_put {st st' : Store} {p : Put} (h : st'.puts = p :: st.puts) (bucket key : String) :
    st'.get bucket key = if p.bucket = bucket ∧
    p.key = key then some p.object else st.get bucket key := by
  unfold Store.get
  rw [h, List.find?_cons]
  by_cases here : p.bucket = bucket ∧ p.key = key
  · simp [here]
  · rw [if_neg here]
    have : (decide (p.bucket = bucket) && decide (p.key = key)) = false := by
      simpa using here
    simp [this]

theorem get_of_puts {st st' : Store} (h : st'.puts = st.puts) (bucket key : String) :
    st'.get bucket key = st.get bucket key := by
  unfold Store.get
  rw [h]

end Objects

/-- The encryption an upload was given: none when it is switched off, else one whose
wrapped key opens to its data key. -/
def Sealing (env : Env) : Option Encryption → Prop
  | none => env.config.crypto.enabled = false
  | some e => ∃ kek, env.config.crypto.kek = some kek ∧
      unwrapDek env.crypto kek e.wrappedDek = .ok e.dek.1 ∧
      ∃ b, e.wrappedDek = env.crypto.toBase64 b ∧ overheadBytes ≤ b.length

/-- The body of an upload of the file. -/
def bodyFor (sourcePath : String) (enc : Option Encryption) : Body :=
  ⟨sourcePath, enc.map fun e => (e.dek, e.iv)⟩

/-- An observer of the upload of one file to one place: `I` before an object was
stored, `U body` after, and `K` what is known of the bytes read from the source. -/
structure Follows {σ : Type} (m : Monitor Op Op.Ans Err σ) (bucket key sourcePath : String)
    (I : σ → Prop) (U : Body → σ → Prop) (K : Bytes → Prop) : Prop where
  may : ∀ s op, I s → PrepareCall op →
    (∀ b k body, put? op = some (b, k, body) → b = bucket ∧ k = key) → m.may s op
  keep : ∀ s op r s', I s → PrepareCall op → put? op = none → m.next s op r s' → I s'
  put : ∀ s op body r s', I s → put? op = some (bucket, key, body) → m.next s op r s' →
    (∀ v, r = .ok v → U body s') ∧ ∀ e, r = .error e → I s'
  read : ∀ s content s', I s →
    m.next s (.volume (.readFile sourcePath)) (.ok content) s' → K content

/-- What a returned upload says about the observer's state. -/
def Stored {σ : Type} (env : Env) (t : FileTransfer) (U : Body → σ → Prop) (K : Bytes → Prop)
    (s : σ) (u : Uploaded) : Prop :=
  u.bucket = (routeOf env t).bucket ∧ u.key = (routeOf env t).key ∧ ∃ enc content,
    Sealing env enc ∧ u.wrappedDek = enc.map (·.wrappedDek) ∧ K content ∧
      u.checksumSha256 = env.sha256 content ∧ U (bodyFor t.sourcePath enc) s

/-- Before an object is stored, or after. -/
def Uploading {σ : Type} (I : σ → Prop) (U : Body → σ → Prop) (s : σ) : Prop :=
  I s ∨ ∃ body, U body s

section Rules
variable {σ : Type} {m : Monitor Op Op.Ans Err σ} {bucket key sourcePath : String} {I : σ → Prop}
variable {U : Body → σ → Prop} {K : Bytes → Prop} {env : Env} {s : σ}

/-- Calls that store nothing leave the observer in its first state. -/
theorem Follows.of_within {α : Type} {P : Op → Prop} {E : Err → Prop} {p : Async α}
    (h : Follows m bucket key sourcePath I U K) (calls : Within P AnyErr E p)
    (plain : ∀ op, P op → PrepareCall op ∧ put? op = none) (start : I s) :
    Obeys m (fun s' _ => I s') s p := by
  refine (calls.obeys (I := I) ?_ ?_ start).mono p fun s' _ hs => hs.1
  · intro s' op hs hop
    refine h.may s' op hs (plain op hop).1 fun b k body hput => ?_
    rw [(plain op hop).2] at hput
    cases hput
  · exact fun s' op r s'' hs hop hn =>
      ⟨h.keep s' op r s'' hs (plain op hop).1 (plain op hop).2 hn, fun _ _ => trivial⟩

/-- A call that stores nothing. -/
theorem Follows.call {α : Type} {op : Op} {f : op.Ans → Async α} {post : σ → Except Err α → Prop}
    (h : Follows m bucket key sourcePath I U K) (start : I s) (call : PrepareCall op)
    (plain : put? op = none) (answered : ∀ v s', I s' → Obeys m post s' (f v))
    (rejected : ∀ e s', I s' → post s' (.error e)) : Obeys m post s ((Prog.call op).bind f) := by
  refine obeys_call (h.may s op start call fun b k body hput => ?_)
    (fun v s' hn => answered v s' (h.keep s op _ s' start call plain hn))
    fun e s' hn => rejected e s' (h.keep s op _ s' start call plain hn)
  rw [plain] at hput
  cases hput

theorem wrapped_base64 {L : NodeCrypto.Library} (laws : L.Lawful) {kek dek : Key} {iv wrapIv : Iv}
    {enc : EncryptStream L} (h : createEncryptStream L kek dek iv wrapIv = .ok enc) :
    unwrapDek L kek enc.wrappedDek = .ok dek.1 ∧
      ∃ b, enc.wrappedDek = L.toBase64 b ∧ overheadBytes ≤ b.length := by
  obtain ⟨c, wrapped, hc, hu, he⟩ := createEncryptStream_ok laws kek dek iv wrapIv
  rw [h] at he
  cases he
  refine ⟨hu, ?_⟩
  obtain ⟨w, hw⟩ := laws.cipher_exists kek.1 wrapIv.1 kek.2 wrapIv.2
  refine ⟨sealedObject L wrapIv.1 w dek.1, ?_, (sealedObject_slices laws wrapIv w dek.1).1⟩
  have wraps : wrapDek L kek wrapIv dek.1 = .ok (L.toBase64 (sealedObject L wrapIv.1 w dek.1)) := by
    simp [wrapDek, hw, bind, Except.bind, pure, Except.pure, laws.final_nil, sealedObject]
  simp only [createEncryptStream, hc, wraps, bind, Except.bind, pure, Except.pure,
    Except.ok.injEq, EncryptStream.mk.injEq] at h
  exact h.2.symm

theorem drawEncryption_obeys (h : Follows m bucket key sourcePath I U K) (laws : env.crypto.Lawful)
    (start : I s) : Obeys m (fun s' out => I s' ∧ ∀ enc, out = .ok enc → Sealing env enc) s
      (drawEncryption env) := by
  have calls : Obeys m (fun s' _ => I s') s (drawEncryption env) :=
    h.of_within (drawEncryption_within ⟨trivial, rfl⟩ ⟨trivial, rfl⟩) (fun _ h => h) start
  refine (calls.withValue drawEncryption_yields).mono _ ?_
  rintro s' out ⟨kept, drawn⟩
  refine ⟨kept, fun enc answered => ?_⟩
  have := drawn enc answered
  cases enc with
  | none => exact this
  | some e =>
    obtain ⟨-, kek, wrapIv, stream, hkek, created, wrapped⟩ := this
    obtain ⟨opens, long⟩ := wrapped_base64 laws created
    rw [← wrapped] at opens long
    exact ⟨kek, hkek, opens, long⟩

theorem uploadStream_obeys (h : Follows m bucket key sourcePath I U K) (body : Body) (n : Nat)
    (contentType : String) (start : I s) :
    Obeys m (fun s' out => (∀ v, out = .ok v → U body s') ∧ ∀ e, out = .error e → I s') s
      (uploadStream env bucket key body n contentType) := by
  refine Obeys.andThen (q := fun s' _ => I s') ?_ ?_
    fun s' e hs => ⟨fun _ h => (nomatch h), fun _ _ => hs⟩
  · split
    · exact start
    · exact h.of_within (ensureBucket_within bucket ⟨trivial, rfl⟩ ⟨trivial, rfl⟩)
        (fun _ h => h) start
  · intro s' _ hs
    have single : ∀ op : Op, PrepareCall op → put? op = some (bucket, key, body) → m.may s' op := by
      intro op call hput
      refine h.may s' op hs call fun b k b' hput' => ?_
      rw [hput] at hput'
      cases hput'
      exact ⟨rfl, rfl⟩
    split
    · exact ⟨single _ trivial rfl, fun r s'' hn => h.put s' _ body r s'' hs rfl hn⟩
    · exact ⟨single _ trivial rfl, fun r s'' hn => h.put s' _ body r s'' hs rfl hn⟩

end Rules

section Attempt
variable {σ : Type} {m : Monitor Op Op.Ans Err σ} {I : σ → Prop} {U : Body → σ → Prop}
variable {K : Bytes → Prop} {env : Env} {s : σ} {t : FileTransfer}

/-- The pipeline stores nothing and keeps the source path. -/
theorem pipeline_obeys {bucket key : String} (h : Follows m bucket key t.sourcePath I U K)
    (ctx : ProcessingContext) (start : I s) :
    Obeys m (fun s' out => I s' ∧ ∀ ctx', out = .ok ctx' → Handed ctx ctx') s
      (runPipeline (processingSteps env) ctx) :=
  (h.of_within (pipeline_within ctx ⟨trivial, rfl⟩ ⟨trivial, rfl⟩) (fun _ h => h) start).withValue
    (pipeline_yields ctx)

/-- The part of an attempt between `markProcessing` and `markSuccess`. -/
theorem prepare_obeys (h : Follows m (routeOf env t).bucket (routeOf env t).key t.sourcePath I U K)
    (laws : env.crypto.Lawful) (start : I s) :
    Obeys m (fun s' out => (∀ u, out = .ok u → Stored env t U K s' u) ∧
      ∀ e, out = .error e → Uploading I U s' ∧ (env.config.crypto.enabled = true → I s')) s
      (prepareAndUpload env t) := by
  have early : ∀ (e : Err) (s' : σ), I s' → (∀ u, Except.error e = .ok u → Stored env t U K s' u) ∧
      ∀ e', (Except.error e : Except Err Uploaded) = .error e' →
        Uploading I U s' ∧ (env.config.crypto.enabled = true → I s') :=
    fun e s' hs => ⟨fun _ h => (nomatch h), fun _ _ => ⟨.inl hs, fun _ => hs⟩⟩
  refine Obeys.andThen (q := fun s' _ => I s') ?_ ?_ fun s' e hs => early e s' hs
  · exact h.of_within (sourceStats_within t ⟨trivial, rfl⟩) (fun _ h => h) start
  intro s₁ stats h₁
  refine (pipeline_obeys h _ h₁).andThen ?_ fun s' e hs => early e s' hs.1
  rintro s₂ ctx ⟨h₂, handed⟩
  have hpath : ctx.sourcePath = t.sourcePath := (handed ctx rfl).2.1
  refine Obeys.andThen (q := fun s' out => I s' ∧ ∀ c : FileChecksums, out = .ok c →
    ∃ content, K content ∧ c = ⟨env.md5 content, env.sha256 content⟩) ?_ ?_
      fun s' e hs => early e s' hs.1
  · unfold computeFileChecksums
    rw [hpath]
    refine obeys_call ?_ ?_ ?_
    · exact h.may s₂ _ h₂ trivial fun b k body hput => nomatch hput
    · intro content s' hn
      refine ⟨h.keep s₂ _ _ s' h₂ (by trivial) rfl hn,
        fun c hc => ⟨content, h.read s₂ content s' h₂ hn, ?_⟩⟩
      exact (Except.ok.inj hc).symm
    · exact fun e s' hn => ⟨h.keep s₂ _ _ s' h₂ (by trivial) rfl hn, fun _ h => nomatch h⟩
  rintro s₃ checksums ⟨h₃, summed⟩
  obtain ⟨content, hK, rfl⟩ := summed checksums rfl
  unfold uploadFile
  refine (drawEncryption_obeys h laws h₃).andThen ?_ fun s' e hs => early e s' hs.1
  rintro s₄ enc ⟨h₄, sealing⟩
  dsimp only
  rw [hpath]
  refine (uploadStream_obeys h (bodyFor t.sourcePath enc) _ _ h₄).andThen ?_
    fun s' e hs => early e s' (hs.2 e rfl)
  intro s₅ etag h₅
  have stored := h₅.1 etag rfl
  -- with encryption the ETag is not compared, so nothing is thrown after the upload
  refine Obeys.andThen (q := fun s' out => s' = s₅ ∧ ∀ e, out = .error e → enc = none) ?_ ?_ ?_
  · cases enc with
    | some e => exact ⟨rfl, fun _ h => (nomatch h)⟩
    | none =>
      simp only [Option.isSome_none, Bool.false_eq_true, if_false]
      unfold verifyIntegrity
      split
      · exact ⟨rfl, fun _ _ => trivial⟩
      · split <;> exact ⟨rfl, fun _ _ => trivial⟩
  · rintro s' _ ⟨rfl, -⟩
    refine ⟨fun u hu => ?_, fun e he => (nomatch he)⟩
    cases hu
    exact ⟨rfl, rfl, enc, content, sealing enc rfl, rfl, hK, rfl, stored⟩
  · rintro s' e ⟨rfl, plain⟩
    refine ⟨fun _ h => (nomatch h), fun _ _ => ⟨.inr ⟨_, stored⟩, fun on => ?_⟩⟩
    have off : Sealing env enc := sealing enc rfl
    rw [plain e rfl] at off
    cases on.symm.trans off

end Attempt

end Uploads
