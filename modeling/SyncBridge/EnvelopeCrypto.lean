import SyncBridge.NodeCrypto
import SyncBridge.GaloisCounter

/-!
# Envelope encryption of stored objects

`CryptoService`: every object has its own data key, the data key is wrapped
under the master key, and the stored object is the initialisation vector, the
ciphertext and the tag. Both directions are transforms of chunked streams. The
random bytes drawn by the service are arguments here.
-/

namespace EnvelopeCrypto

open ChunkTransforms NodeCrypto

def ivLen : Nat := 12

def tagLen : Nat := 16

/-- Fixed overhead of an object over its plaintext. -/
def overheadBytes : Nat := ivLen + tagLen

abbrev Key := BytesOf 32

abbrev Iv := BytesOf 12

/-- The service once its configuration has been accepted: a master key that is
present has 32 bytes, and encryption is never on without one. -/
structure CryptoService where
  enabled : Bool
  kek : Option Key
  ready : enabled = true → kek.isSome = true

/-- The constructor: a key in the configuration is decoded and checked even when
encryption is off, since objects stored earlier must stay readable. -/
def CryptoService.ofConfig (L : Library) (enabled : Bool) (kek : Option String) :
    Except CipherError CryptoService :=
  match kek with
  | none =>
    if h : enabled = true then .error (.other "ENCRYPTION_ENABLED but ENCRYPTION_KEK is not set")
    else .ok ⟨enabled, none, fun e => absurd e h⟩
  | some text =>
    if h : (L.fromBase64 text).length =
      32 then .ok ⟨enabled, some ⟨L.fromBase64 text, h⟩, fun _ => rfl⟩
    else .error (.other "ENCRYPTION_KEK must decode to 32 bytes (base64)")

/-- An index of `Buffer.subarray`: a negative one counts from the end. -/
def bufferIndex (length : Nat) (i : Int) : Nat :=
  if i < 0 then (length + i).toNat else min i.toNat length

def subarray (b : Bytes) (start stop : Int) : Bytes :=
  (b.take (bufferIndex b.length stop)).drop (bufferIndex b.length start)

section Service
variable (L : Library)

/-- The data key under the master key: vector, ciphertext and tag in base64. -/
def wrapDek (kek : Key) (iv : Iv) (dek : Bytes) : Except CipherError String := do
  let cipher ← L.createCipheriv kek.1 iv.1
  let (body, cipher) := L.cipherUpdate cipher dek
  let (last, cipher) := L.cipherFinal cipher
  return L.toBase64 (iv.1 ++ (body ++ last) ++ L.getAuthTag cipher)

/-- The steps shared by `unwrapDek` and `decrypt`: cut the buffer, set the tag,
then decipher the body in one call. -/
def openBuffer (key buf : Bytes) : Except CipherError Bytes := do
  let iv := subarray buf 0 ivLen
  let tag := subarray buf (buf.length - tagLen) buf.length
  let enc := subarray buf ivLen (buf.length - tagLen)
  let decipher ← L.createDecipheriv key iv
  let decipher ← L.setAuthTag decipher tag
  let (body, decipher) := L.decipherUpdate decipher enc
  let last ← L.decipherFinal decipher
  return body ++ last

def unwrapDek (kek : Key) (wrapped : String) : Except CipherError Bytes :=
  openBuffer L kek.1 (L.fromBase64 wrapped)

structure EncryptState where
  cipher : L.Cipher
  ivEmitted : Bool

/-- The vector is pushed before the first chunk, or at the flush of an empty stream. -/
def encryptTransform (iv : Bytes) (cipher : L.Cipher) : Transform (EncryptState L) CipherError where
  start := ⟨cipher, false⟩
  transform s chunk :=
    let (out, cipher) := L.cipherUpdate s.cipher chunk
    ((if s.ivEmitted then [] else [iv]) ++ [out], .ok ⟨cipher, true⟩)
  flush s :=
    let (last, cipher) := L.cipherFinal s.cipher
    ((if s.ivEmitted then [] else [iv]) ++ [last ++ L.getAuthTag cipher], .ok ())

structure EncryptStream where
  stream : Transform (EncryptState L) CipherError
  wrappedDek : String

/-- `dek`, `iv` and `wrapIv` are the bytes the service draws. -/
def createEncryptStream (kek dek : Key) (iv wrapIv : Iv) :
    Except CipherError (EncryptStream L) := do
  let cipher ← L.createCipheriv dek.1 iv.1
  let wrappedDek ← wrapDek L kek wrapIv dek.1
  return ⟨encryptTransform L iv.1 cipher, wrappedDek⟩

structure DecryptState where
  decipher : Option L.Decipher
  buffered : Bytes

/-- Keep the last 16 bytes withheld, they may be the tag. -/
def withhold (decipher : L.Decipher) (buffered : Bytes) :
    List Bytes × Except CipherError (DecryptState L) :=
  if tagLen < buffered.length then
    let feed := buffered.take (buffered.length - tagLen)
    let (out, decipher) := L.decipherUpdate decipher feed
    ([out], .ok ⟨some decipher, buffered.drop (buffered.length - tagLen)⟩)
  else ([], .ok ⟨some decipher, buffered⟩)

def decryptTransform (dek : Bytes) : Transform (DecryptState L) CipherError where
  start := ⟨none, []⟩
  transform s chunk :=
    let buffered := s.buffered ++ chunk
    match s.decipher with
    | some decipher => withhold L decipher buffered
    | none =>
      if buffered.length < ivLen then ([], .ok ⟨none, buffered⟩)
      else match L.createDecipheriv dek (buffered.take ivLen) with
        | .error e => ([], .error e)
        | .ok decipher => withhold L decipher (buffered.drop ivLen)
  flush s := match s.decipher with
    | none => ([], .error (.other "ciphertext too short"))
    | some decipher => match L.setAuthTag decipher s.buffered with
      | .error e => ([], .error e)
      | .ok decipher => match L.decipherFinal decipher with
        | .error e => ([], .error e)
        | .ok last => ([last], .ok ())

def createDecryptStream (kek : Key) (wrappedDek : String) :
    Except CipherError (Transform (DecryptState L) CipherError) := do
  let dek ← unwrapDek L kek wrappedDek
  return decryptTransform L dek

/-- Whole-buffer decryption, used for verification. -/
def decrypt (kek : Key) (encrypted : Bytes) (wrappedDek : String) : Except CipherError Bytes := do
  let dek ← unwrapDek L kek wrappedDek
  openBuffer L dek encrypted

end Service

/-! ## Slices of an object -/

/-- The ciphertext of an object of at least 28 bytes. -/
def bodyOf (b : Bytes) : Bytes := (b.drop ivLen).take (b.length - overheadBytes)

/-- The trailing bytes of an object. -/
def trailOf (b : Bytes) : Bytes := (b.drop ivLen).drop (b.length - overheadBytes)

theorem subarray_nat (b : Bytes) (i j : Nat) : subarray b i j = (b.take j).drop i := by
  have hi : ¬ ((i : Int) < 0) := by omega
  have hj : ¬ ((j : Int) < 0) := by omega
  simp only [subarray, bufferIndex, if_neg hi, if_neg hj, Int.toNat_natCast]
  rw [← List.take_eq_take_min]
  by_cases h : i ≤ b.length
  · rw [Nat.min_eq_left h]
  · have short : (b.take j).length ≤ b.length := by rw [List.length_take]; omega
    rw [Nat.min_eq_right (by omega), List.drop_of_length_le short,
      List.drop_of_length_le (by omega)]

theorem slices {b : Bytes} (long : overheadBytes ≤ b.length) :
    subarray b 0 ivLen = b.take ivLen ∧
    subarray b (b.length - tagLen) b.length = trailOf b ∧
    subarray b ivLen (b.length - tagLen) = bodyOf b := by
  have h28 : 28 ≤ b.length := long
  have e : ((b.length : Int) - (tagLen : Nat)) = ((b.length - 16 : Nat) : Int) := by
    simp only [tagLen]; omega
  refine ⟨?_, ?_, ?_⟩
  · rw [show (0 : Int) = ((0 : Nat) : Int) from rfl, subarray_nat, List.drop_zero]
  · rw [e, subarray_nat, List.take_length, trailOf, List.drop_drop]
    congr 1
    simp only [ivLen, overheadBytes, tagLen]
    omega
  · rw [e, subarray_nat, bodyOf, List.drop_take]
    congr 1

theorem slice_append (iv body tag : Bytes) (hiv : iv.length = ivLen) (htag : tag.length = tagLen) :
    overheadBytes ≤ (iv ++ body ++ tag).length ∧ (iv ++ body ++ tag).take ivLen = iv ∧
    bodyOf (iv ++ body ++ tag) = body ∧ trailOf (iv ++ body ++ tag) = tag := by
  have hlen : (iv ++ body ++ tag).length - overheadBytes = body.length := by
    simp only [List.length_append, hiv, htag, overheadBytes]
    omega
  have hdrop : (iv ++ body ++ tag).drop ivLen = body ++ tag := by
    rw [List.append_assoc, ← hiv, List.drop_left]
  refine ⟨?_, ?_, ?_, ?_⟩
  · simp only [List.length_append, hiv, htag, overheadBytes]
    omega
  · rw [List.append_assoc, ← hiv, List.take_left]
  · rw [bodyOf, hlen, hdrop, List.take_left]
  · rw [trailOf, hlen, hdrop, List.drop_left]

/-! ## The decrypting transform, chunk by chunk -/

section Decrypting
variable {L : Library}

/-- One call of `withhold` after `whole` has passed the vector: everything but
the last 16 bytes has been fed, whether or not a chunk completes them. -/
theorem withhold_spec (laws : L.StreamLaws) (d : L.Decipher) (whole c : Bytes) :
    ∃ pushed, withhold L (L.decipherUpdate d (whole.take (whole.length - tagLen))).2
        (whole.drop (whole.length - tagLen) ++ c) =
      (pushed, .ok ⟨some (L.decipherUpdate d ((whole ++ c).take ((whole ++ c).length - tagLen))).2,
        (whole ++ c).drop ((whole ++ c).length - tagLen)⟩) ∧
      (L.decipherUpdate d (whole.take (whole.length - tagLen))).1 ++ pushed.flatten =
        (L.decipherUpdate d ((whole ++ c).take ((whole ++ c).length - tagLen))).1 := by
  have hle : whole.length - tagLen ≤ whole.length := Nat.sub_le _ _
  have hrest : whole.drop (whole.length - tagLen) ++ c =
      (whole ++ c).drop (whole.length - tagLen) := (List.drop_append_of_le_length hle).symm
  have hfed : whole.take (whole.length - tagLen) = (whole ++ c).take (whole.length - tagLen) :=
    (List.take_append_of_le_length hle).symm
  have hmono : whole.length - tagLen ≤ (whole ++ c).length - tagLen := by
    rw [List.length_append]; omega
  have hlen : ((whole ++ c).drop (whole.length - tagLen)).length =
      (whole ++ c).length - (whole.length - tagLen) := List.length_drop
  by_cases full : tagLen < ((whole ++ c).drop (whole.length - tagLen)).length
  · have hn : ((whole ++ c).drop (whole.length - tagLen)).length - tagLen =
        ((whole ++ c).length - tagLen) - (whole.length - tagLen) := by omega
    have hjoin : (whole ++ c).take (whole.length - tagLen) ++
        ((whole ++ c).drop (whole.length - tagLen)).take
          (((whole ++ c).length - tagLen) - (whole.length - tagLen)) =
        (whole ++ c).take ((whole ++ c).length - tagLen) := by
      rw [← List.take_add]
      congr 1
      omega
    have hup := laws.update_append d ((whole ++ c).take (whole.length - tagLen))
      (((whole ++ c).drop (whole.length - tagLen)).take
        (((whole ++ c).length - tagLen) - (whole.length - tagLen)))
    rw [hjoin] at hup
    have hcut :
        (whole.length - tagLen) + (((whole ++ c).length - tagLen) - (whole.length - tagLen)) =
        (whole ++ c).length - tagLen := by omega
    rw [hrest, hfed, withhold, if_pos full, hn, List.drop_drop, hcut]
    cases hq : L.decipherUpdate (L.decipherUpdate d ((whole ++ c).take (whole.length - tagLen))).2
        (((whole ++ c).drop (whole.length - tagLen)).take
          (((whole ++ c).length - tagLen) - (whole.length - tagLen))) with
    | mk pushed d' =>
      rw [hq] at hup
      exact ⟨[pushed], by simp only [hup, hq], by rw [hup]; simp⟩
  · have hsame : (whole ++ c).length - tagLen = whole.length - tagLen := by omega
    rw [hrest, hfed, withhold, if_neg full, hsame]
    exact ⟨[], rfl, by simp⟩

/-- What the transform has fed, pushed and kept back once `seen` has gone in. -/
def Withheld (L : Library) (dek seen out : Bytes) (s : DecryptState L) : Prop :=
  if seen.length < ivLen then s = ⟨none, seen⟩ ∧ out = []
  else ∃ d, L.createDecipheriv dek (seen.take ivLen) = .ok d ∧
    s = ⟨some (L.decipherUpdate d (bodyOf seen)).2, trailOf seen⟩ ∧
    out = (L.decipherUpdate d (bodyOf seen)).1

theorem bodyOf_eq (b : Bytes) :
    bodyOf b = (b.drop ivLen).take ((b.drop ivLen).length - tagLen) := by
  rw [bodyOf, List.length_drop, overheadBytes, Nat.sub_sub]

theorem trailOf_eq (b : Bytes) :
    trailOf b = (b.drop ivLen).drop ((b.drop ivLen).length - tagLen) := by
  rw [trailOf, List.length_drop, overheadBytes, Nat.sub_sub]

theorem transform_withheld (laws : L.StreamLaws) {dek total : Bytes}
    (opens : ivLen ≤ total.length → ∃ d, L.createDecipheriv dek (total.take ivLen) = .ok d)
    (seen out : Bytes) (s : DecryptState L) (c : Bytes) (inside : seen ++ c <+: total)
    (h : Withheld L dek seen out s) :
    ∃ pushed s', (decryptTransform L dek).transform s c = (pushed, .ok s') ∧
      Withheld L dek (seen ++ c) (out ++ pushed.flatten) s' := by
  by_cases hs : seen.length < ivLen
  · rw [Withheld, if_pos hs] at h
    obtain ⟨rfl, rfl⟩ := h
    by_cases hc : (seen ++ c).length < ivLen
    · refine ⟨[], ⟨none, seen ++ c⟩, by simp only [decryptTransform, if_pos hc], ?_⟩
      rw [Withheld, if_pos hc]
      exact ⟨rfl, rfl⟩
    · -- the chunk completes the vector, so the decipher is created here
      have htake : (seen ++ c).take ivLen = total.take ivLen := by
        obtain ⟨rest, rfl⟩ := inside
        exact (List.take_append_of_le_length (by omega)).symm
      obtain ⟨d, hd⟩ := opens (Nat.le_trans (by omega) inside.length_le)
      rw [← htake] at hd
      obtain ⟨pushed, hw, ho⟩ := withhold_spec laws d [] ((seen ++ c).drop ivLen)
      simp only [List.length_nil, Nat.zero_sub, List.take_nil, List.drop_nil, List.nil_append,
        laws.update_nil, ← bodyOf_eq, ← trailOf_eq] at hw ho
      have hstep : (decryptTransform L dek).transform ⟨none, seen⟩ c =
          withhold L d ((seen ++ c).drop ivLen) := by
        simp only [decryptTransform, if_neg hc, hd]
      refine ⟨pushed, _, hstep.trans hw, ?_⟩
      rw [Withheld, if_neg hc]
      exact ⟨d, hd, rfl, ho⟩
  · rw [Withheld, if_neg hs] at h
    obtain ⟨d, hd, rfl, rfl⟩ := h
    have hc : ¬ (seen ++ c).length < ivLen := by rw [List.length_append]; omega
    have htake : (seen ++ c).take ivLen = seen.take ivLen :=
      List.take_append_of_le_length (by omega)
    have hdrop : (seen ++ c).drop ivLen = seen.drop ivLen ++ c :=
      List.drop_append_of_le_length (by omega)
    obtain ⟨pushed, hw, ho⟩ := withhold_spec laws d (seen.drop ivLen) c
    simp only [← hdrop, ← bodyOf_eq, ← trailOf_eq] at hw ho
    refine ⟨pushed, _, hw, ?_⟩
    rw [Withheld, if_neg hc, htake]
    exact ⟨d, hd, rfl, ho⟩

/-- Feeding an object of at least 28 bytes, however it is cut. -/
theorem pipe_decrypt (laws : L.StreamLaws) {dek : Bytes} {chunks : List Bytes} {d : L.Decipher}
    (long : overheadBytes ≤ chunks.flatten.length)
    (opened : L.createDecipheriv dek (chunks.flatten.take ivLen) = .ok d) :
    ∃ pushed, pushed.flatten = (L.decipherUpdate d (bodyOf chunks.flatten)).1 ∧
      (decryptTransform L dek).pipe chunks =
        (pushed ++ ((decryptTransform L dek).flush
          ⟨some (L.decipherUpdate d (bodyOf chunks.flatten)).2, trailOf chunks.flatten⟩).1,
        ((decryptTransform L dek).flush
          ⟨some (L.decipherUpdate d (bodyOf chunks.flatten)).2, trailOf chunks.flatten⟩).2) := by
  have h12 : ¬ chunks.flatten.length < ivLen := by
    simp only [overheadBytes, ivLen, tagLen] at long ⊢
    omega
  obtain ⟨pushed, s, hI, hp⟩ := (decryptTransform L dek).pipe_invariant (Withheld L dek) chunks
    (transform_withheld laws fun _ => ⟨d, opened⟩)
    (by rw [Withheld, if_pos (by decide)]; exact ⟨rfl, rfl⟩)
  rw [Withheld, if_neg h12] at hI
  obtain ⟨d', hd, rfl, ho⟩ := hI
  rw [opened] at hd
  cases hd
  exact ⟨pushed, ho, hp⟩

/-- A key the runtime refuses ends the stream at the chunk that completes the vector. -/
theorem feed_decrypt_refused {dek : Bytes} {e : CipherError} (chunks : List Bytes) (seen : Bytes)
    (short : seen.length < ivLen) (long : ivLen ≤ (seen ++ chunks.flatten).length)
    (refused : L.createDecipheriv dek ((seen ++ chunks.flatten).take ivLen) = .error e) :
    ∃ out, (decryptTransform L dek).feed ⟨none, seen⟩ chunks = (out, .error e) := by
  induction chunks generalizing seen with
  | nil =>
    rw [List.flatten_nil, List.append_nil] at long
    omega
  | cons c cs ih =>
    rw [List.flatten_cons, ← List.append_assoc] at long refused
    by_cases hc : (seen ++ c).length < ivLen
    · obtain ⟨out, ho⟩ := ih (seen ++ c) hc long refused
      refine ⟨out, ?_⟩
      simp only [Transform.feed, decryptTransform, if_pos hc, List.nil_append] at ho ⊢
      rw [ho]
    · rw [List.take_append_of_le_length (by omega)] at refused
      refine ⟨[], ?_⟩
      simp only [Transform.feed, decryptTransform, if_neg hc, refused]

end Decrypting

/-! ## Sealing and opening -/

section RoundTrip
variable {L : Library}

/-- What the encrypting transform has pushed once `seen` has gone in. -/
def Sealing (L : Library) (iv : Bytes) (c : L.Cipher) (seen out : Bytes)
    (s : EncryptState L) : Prop :=
  if s.ivEmitted then out = iv ++ (L.cipherUpdate c seen).1 ∧ s.cipher = (L.cipherUpdate c seen).2
  else seen = [] ∧ out = [] ∧ s.cipher = c

/-- The object under a cipher object just created, as one byte string. -/
def sealedObject (L : Library) (iv : Bytes) (c : L.Cipher) (plain : Bytes) : Bytes :=
  iv ++ (L.cipherUpdate c plain).1 ++ L.getAuthTag (L.cipherFinal (L.cipherUpdate c plain).2).2

theorem transform_sealing (laws : L.Lawful) (iv : Bytes) (c : L.Cipher) (seen out : Bytes)
    (s : EncryptState L) (chunk : Bytes) (h : Sealing L iv c seen out s) :
    ∃ pushed s', (encryptTransform L iv c).transform s chunk = (pushed, .ok s') ∧
      Sealing L iv c (seen ++ chunk) (out ++ pushed.flatten) s' := by
  refine ⟨_, _, rfl, ?_⟩
  obtain ⟨cipher, emitted⟩ := s
  cases emitted with
  | true =>
    obtain ⟨rfl, rfl⟩ := h
    simp [Sealing, laws.cipher_append]
  | false =>
    obtain ⟨rfl, rfl, rfl⟩ := h
    simp [Sealing]

/-- However the plaintext is cut, the same object comes out and no error. -/
theorem pipe_encrypt (laws : L.Lawful) (iv : Bytes) (c : L.Cipher) (chunks : List Bytes) :
    ∃ pushed, (encryptTransform L iv c).pipe chunks = (pushed, .ok ()) ∧
      pushed.flatten = sealedObject L iv c chunks.flatten := by
  obtain ⟨pushed, s, hI, hp⟩ := (encryptTransform L iv c).pipe_invariant (Sealing L iv c) chunks
    (fun seen out s chunk _ => transform_sealing laws iv c seen out s chunk) ⟨rfl, rfl, rfl⟩
  refine ⟨_, hp, ?_⟩
  obtain ⟨cipher, emitted⟩ := s
  cases emitted with
  | true =>
    obtain ⟨ho, rfl⟩ := hI
    simp [encryptTransform, sealedObject, ho, laws.final_nil]
  | false =>
    obtain ⟨hs, ho, rfl⟩ := hI
    simp [encryptTransform, sealedObject, hs, ho, laws.final_nil, laws.cipher_nil]

theorem sealedObject_slices (laws : L.Lawful) (iv : Iv) (c : L.Cipher) (plain : Bytes) :
    overheadBytes ≤ (sealedObject L iv.1 c plain).length ∧
    (sealedObject L iv.1 c plain).take ivLen = iv.1 ∧
    bodyOf (sealedObject L iv.1 c plain) = (L.cipherUpdate c plain).1 ∧
    trailOf (sealedObject L iv.1 c plain) =
      L.getAuthTag (L.cipherFinal (L.cipherUpdate c plain).2).2 :=
  slice_append _ _ _ iv.2 (laws.tag_length _)

theorem sealedObject_length (laws : L.Lawful) (iv : Iv) (c : L.Cipher) (plain : Bytes) :
    (sealedObject L iv.1 c plain).length = plain.length + overheadBytes := by
  simp only [sealedObject, List.length_append, laws.cipher_length, laws.tag_length, iv.2,
    overheadBytes, ivLen, tagLen]
  omega

/-- On a long enough buffer, opening it whole reads the same three slices. -/
theorem openBuffer_eq {key buf : Bytes} (long : overheadBytes ≤ buf.length) :
    openBuffer L key buf = (do
      let d ← L.createDecipheriv key (buf.take ivLen)
      let d ← L.setAuthTag d (trailOf buf)
      let last ← L.decipherFinal (L.decipherUpdate d (bodyOf buf)).2
      return (L.decipherUpdate d (bodyOf buf)).1 ++ last) := by
  obtain ⟨hiv, htag, henc⟩ := slices long
  simp only [openBuffer, hiv, htag, henc]

/-- The tag may be set before or after the body has been deciphered. -/
theorem tag_first (laws : L.StreamLaws) {d d' : L.Decipher} {enc tag : Bytes}
    (h : L.setAuthTag (L.decipherUpdate d enc).2 tag = .ok d') :
    ∃ d₁, L.setAuthTag d tag = .ok d₁ ∧ (L.decipherUpdate d₁ enc).2 = d' ∧
      (L.decipherUpdate d₁ enc).1 = (L.decipherUpdate d enc).1 := by
  rw [laws.tag_late] at h
  cases ht : L.setAuthTag d tag with
  | error e => rw [ht] at h; cases h
  | ok d₁ =>
    rw [ht] at h
    exact ⟨d₁, rfl, Except.ok.inj h, laws.tag_silent d enc tag d₁ ht⟩

theorem openBuffer_sealed (laws : L.Lawful) {key : Bytes} (hkey : key.length = 32) (iv : Iv)
    {c : L.Cipher} (hc : L.createCipheriv key iv.1 = .ok c) (plain : Bytes) :
    openBuffer L key (sealedObject L iv.1 c plain) = .ok plain := by
  obtain ⟨long, hiv, hbody, htag⟩ := sealedObject_slices laws iv c plain
  obtain ⟨d, hd⟩ := laws.decipher_exists key iv.1 hkey iv.2
  obtain ⟨hplain, d', hset, hfinal⟩ := laws.undo key iv.1 c d plain hc hd
  obtain ⟨d₁, hset₁, rfl, hout⟩ := tag_first laws.toStreamLaws hset
  rw [openBuffer_eq long, hiv, hbody, htag]
  simp [hd, hset₁, hfinal, hout, hplain, bind, Except.bind, pure, Except.pure]

/-- A data key wrapped under the master key is unwrapped to itself. -/
theorem unwrap_wrap (laws : L.Lawful) (kek : Key) (iv : Iv) (dek : Bytes) :
    ∃ wrapped, wrapDek L kek iv dek = .ok wrapped ∧ unwrapDek L kek wrapped = .ok dek := by
  obtain ⟨c, hc⟩ := laws.cipher_exists kek.1 iv.1 kek.2 iv.2
  refine ⟨L.toBase64 (sealedObject L iv.1 c dek), ?_, ?_⟩
  · simp [wrapDek, hc, bind, Except.bind, pure, Except.pure, laws.final_nil, sealedObject]
  · rw [unwrapDek, laws.base64]
    exact openBuffer_sealed laws kek.2 iv hc dek

theorem createEncryptStream_ok (laws : L.Lawful) (kek dek : Key) (iv wrapIv : Iv) :
    ∃ c wrapped, L.createCipheriv dek.1 iv.1 = .ok c ∧ unwrapDek L kek wrapped = .ok dek.1 ∧
      createEncryptStream L kek dek iv wrapIv = .ok ⟨encryptTransform L iv.1 c, wrapped⟩ := by
  obtain ⟨c, hc⟩ := laws.cipher_exists dek.1 iv.1 dek.2 iv.2
  obtain ⟨wrapped, hw, hu⟩ := unwrap_wrap laws kek wrapIv dek.1
  refine ⟨c, wrapped, hc, hu, ?_⟩
  simp [createEncryptStream, hc, hw, bind, Except.bind, pure, Except.pure]

/-- Streaming decryption against whole-buffer decryption of the same bytes, for
bytes that may have been tampered with. -/
theorem pipe_decrypt_iff (laws : L.StreamLaws) (dek : Bytes) (chunks : List Bytes)
    (long : overheadBytes ≤ chunks.flatten.length) :
    (((decryptTransform L dek).pipe chunks).2 = .ok () ↔
      ∃ plain, openBuffer L dek chunks.flatten = .ok plain) ∧
    ∀ plain, openBuffer L dek chunks.flatten = .ok plain →
      ((decryptTransform L dek).pipe chunks).1.flatten = plain := by
  rw [openBuffer_eq long]
  cases hd : L.createDecipheriv dek (chunks.flatten.take ivLen) with
  | error e =>
    have hlong : ivLen ≤ chunks.flatten.length := Nat.le_trans (by decide) long
    obtain ⟨out, ho⟩ := feed_decrypt_refused chunks [] (by decide)
      (by simpa using hlong) (by simpa using hd)
    have hp : (decryptTransform L dek).pipe chunks = (out, .error e) := by
      have hstart : (decryptTransform L dek).start = ⟨none, []⟩ := rfl
      rw [Transform.pipe, hstart, ho]
    simp [hp, bind, Except.bind]
  | ok d =>
    obtain ⟨pushed, hout, hp⟩ := pipe_decrypt laws long hd
    have hlate := laws.tag_late d (bodyOf chunks.flatten) (trailOf chunks.flatten)
    rw [hp]
    cases ht : L.setAuthTag d (trailOf chunks.flatten) with
    | error e =>
      rw [ht] at hlate
      simp [decryptTransform, hlate, Except.map, ht, bind, Except.bind]
    | ok d' =>
      have hsilent := laws.tag_silent d (bodyOf chunks.flatten) _ d' ht
      rw [ht] at hlate
      cases hf : L.decipherFinal (L.decipherUpdate d' (bodyOf chunks.flatten)).2 with
      | error e =>
        simp [decryptTransform, hlate, Except.map, ht, hf, bind, Except.bind]
      | ok last =>
        simp [decryptTransform, hlate, Except.map, ht, hf, bind, Except.bind, pure, Except.pure,
          hout, hsilent]

/-- The object format. For fixed keys and vectors the emitted object depends only
on the plaintext and not on its chunks, it is the vector, a ciphertext of the
plaintext's length and a 16 byte tag, and any way of cutting it again decrypts. -/
theorem encrypted_object_round_trip (laws : L.Lawful) (kek dek : Key) (iv wrapIv : Iv) :
    ∃ enc, createEncryptStream L kek dek iv wrapIv = .ok enc ∧
      ∀ plain : Bytes, ∃ ciphertext tag : Bytes,
        iv.1.length = ivLen ∧ ciphertext.length = plain.length ∧ tag.length = tagLen ∧
        (∀ chunks : List Bytes, chunks.flatten = plain →
          ∃ emitted, enc.stream.pipe chunks = (emitted, .ok ()) ∧
            emitted.flatten = iv.1 ++ ciphertext ++ tag ∧
            emitted.flatten.length = plain.length + overheadBytes) ∧
        ∀ recut : List Bytes, recut.flatten = iv.1 ++ ciphertext ++ tag →
          ∃ T out, createDecryptStream L kek enc.wrappedDek = .ok T ∧
            T.pipe recut = (out, .ok ()) ∧ out.flatten = plain := by
  obtain ⟨c, wrapped, hc, hu, he⟩ := createEncryptStream_ok laws kek dek iv wrapIv
  refine ⟨_, he, fun plain => ⟨(L.cipherUpdate c plain).1,
    L.getAuthTag (L.cipherFinal (L.cipherUpdate c plain).2).2, iv.2, laws.cipher_length c plain,
    laws.tag_length _, ?_, ?_⟩⟩
  · rintro chunks rfl
    obtain ⟨emitted, hp, hflat⟩ := pipe_encrypt laws iv.1 c chunks
    exact ⟨emitted, hp, hflat, hflat ▸ sealedObject_length laws iv c chunks.flatten⟩
  · intro recut hcut
    have hobject : recut.flatten = sealedObject L iv.1 c plain := hcut
    have hopen := openBuffer_sealed laws dek.2 iv hc plain
    have long := (sealedObject_slices laws iv c plain).1
    rw [← hobject] at hopen long
    obtain ⟨hends, hout⟩ := pipe_decrypt_iff laws.toStreamLaws dek.1 recut long
    refine ⟨decryptTransform L dek.1, ((decryptTransform L dek.1).pipe recut).1, ?_, ?_,
      hout plain hopen⟩
    · simp [createDecryptStream, hu, bind, Except.bind, pure, Except.pure]
    · exact Prod.ext rfl (hends.mpr ⟨plain, hopen⟩)

/-- Streaming and whole-buffer decryption agree on any input of at least 28 bytes. -/
theorem streaming_decrypt_agrees (laws : L.StreamLaws) (kek : Key) (wrapped : String) (dek : Bytes)
    (unwraps : unwrapDek L kek wrapped = .ok dek) (input : Bytes) (long : 28 ≤ input.length)
    (chunks : List Bytes) (cut : chunks.flatten = input) :
    ∃ T, createDecryptStream L kek wrapped = .ok T ∧
      ((T.pipe chunks).2 = .ok () ↔ ∃ plain, decrypt L kek input wrapped = .ok plain) ∧
      ∀ plain, decrypt L kek input wrapped = .ok plain → (T.pipe chunks).1.flatten = plain := by
  subst cut
  have hdec : decrypt L kek chunks.flatten wrapped = openBuffer L dek chunks.flatten := by
    simp [decrypt, unwraps, bind, Except.bind]
  refine ⟨decryptTransform L dek, ?_, ?_⟩
  · simp [createDecryptStream, unwraps, bind, Except.bind, pure, Except.pure]
  · rw [hdec]
    exact pipe_decrypt_iff laws dek chunks long

end RoundTrip

/-! ## Truncated objects -/

section Truncated
open GaloisCounter
variable (m : Mode)

/-- A vector followed by the start of the tag of an empty file, cut at a length the
runtime still takes for a tag. -/
def TagCutShort (dek input : Bytes) : Prop :=
  dek.length = 32 ∧ (input.drop ivLen).length ∈ tagLengths ∧
    input.drop ivLen <+: (m.tag dek (input.take ivLen) []).1

/-- The runtime refuses a key only for its length, the vector being whole. -/
theorem createDecipheriv_whole (dek : Bytes) {iv : Bytes} (hiv : iv.length = ivLen) :
    (runtime m).createDecipheriv dek iv =
      if dek.length = 32 then .ok ⟨dek, iv, [], none⟩ else .error .invalidKey := by
  have nonempty : iv.length ≠ 0 := by rw [hiv]; decide
  simp [runtime, goodKey, nonempty]

/-- Flushing with nothing fed so far. -/
theorem flush_unfed (dek iv buffered : Bytes) :
    ((decryptTransform (runtime m) dek).flush ⟨some ⟨dek, iv, [], none⟩, buffered⟩).2 = .ok () ↔
      buffered.length ∈ tagLengths ∧ buffered <+: (m.tag dek iv []).1 := by
  by_cases accepted : buffered.length ∈ tagLengths
  · by_cases same : (m.tag dek iv []).1.take buffered.length = buffered
    · have starts : buffered <+: (m.tag dek iv []).1 := List.prefix_iff_eq_take.mpr same.symm
      simp [decryptTransform, runtime, Mode.final, accepted, same, starts]
    · have apart : ¬ buffered <+: (m.tag dek iv []).1 :=
        fun h => same (List.prefix_iff_eq_take.mp h).symm
      simp [decryptTransform, runtime, Mode.final, accepted, same, apart]
  · simp [decryptTransform, runtime, accepted]

/-- An input shorter than 28 bytes ends well exactly when it is a tag cut short. -/
theorem pipe_short (dek : Bytes) (chunks : List Bytes)
    (short : chunks.flatten.length < overheadBytes) :
    ((decryptTransform (runtime m) dek).pipe chunks).2 = .ok () ↔
    TagCutShort m dek chunks.flatten := by
  by_cases whole : chunks.flatten.length < ivLen
  · -- the vector never arrives
    obtain ⟨pushed, s, held, hp⟩ := (decryptTransform (runtime m) dek).pipe_invariant
      (Withheld (runtime m) dek) chunks (transform_withheld (runtime_streamLaws m)
        fun long => by omega)
      (by rw [Withheld, if_pos (by decide)]; exact ⟨rfl, rfl⟩)
    rw [Withheld, if_pos whole] at held
    obtain ⟨rfl, -⟩ := held
    have none_left : (chunks.flatten.drop ivLen).length = 0 := by rw [List.length_drop]; omega
    have refused : ¬ TagCutShort m dek chunks.flatten := by
      rintro ⟨-, taken, -⟩
      rw [none_left] at taken
      exact absurd taken (by decide)
    rw [hp]
    exact iff_of_false (by simp [decryptTransform]) refused
  · have vector : (chunks.flatten.take ivLen).length = ivLen := by rw [List.length_take]; omega
    have opening := createDecipheriv_whole m dek vector
    by_cases key : dek.length = 32
    · rw [if_pos key] at opening
      obtain ⟨pushed, s, held, hp⟩ := (decryptTransform (runtime m) dek).pipe_invariant
        (Withheld (runtime m) dek) chunks
        (transform_withheld (runtime_streamLaws m) fun _ => ⟨_, opening⟩)
        (by rw [Withheld, if_pos (by decide)]; exact ⟨rfl, rfl⟩)
      rw [Withheld, if_neg whole] at held
      obtain ⟨d, hd, rfl, -⟩ := held
      rw [opening] at hd
      cases hd
      have nothing : chunks.flatten.length - overheadBytes = 0 := by omega
      have unfed := (runtime_streamLaws m).update_nil ⟨dek, chunks.flatten.take ivLen, [], none⟩
      have flushed := flush_unfed m dek (chunks.flatten.take ivLen) (chunks.flatten.drop ivLen)
      simp only [bodyOf, trailOf, nothing, List.take_zero, List.drop_zero] at hp
      rw [hp, TagCutShort, unfed, flushed]
      exact (and_iff_right key).symm
    · rw [if_neg key] at opening
      obtain ⟨out, ho⟩ := feed_decrypt_refused chunks [] (by decide) (by simpa using whole)
        (by simpa using opening)
      have hp : (decryptTransform (runtime m) dek).pipe chunks = (out, .error .invalidKey) := by
        have start : (decryptTransform (runtime m) dek).start = ⟨none, []⟩ := rfl
        rw [Transform.pipe, start, ho]
      simp [hp, TagCutShort, key]

/-- A truncated object is refused exactly when it is not a tag cut short. -/
theorem truncated_ciphertext_refused (kek : Key) (wrapped : String) (dek : Bytes)
    (unwraps : unwrapDek (runtime m) kek wrapped = .ok dek) (input : Bytes)
    (short : input.length < 28) (chunks : List Bytes) (cut : chunks.flatten = input) :
    ∃ T, createDecryptStream (runtime m) kek wrapped = .ok T ∧
      ((∃ e, (T.pipe chunks).2 = .error e) ↔ ¬ TagCutShort m dek input) := by
  subst cut
  refine ⟨decryptTransform (runtime m) dek, ?_, ?_⟩
  · simp [createDecryptStream, unwraps, bind, Except.bind, pure, Except.pure]
  · rw [← pipe_short m dek chunks short]
    cases ((decryptTransform (runtime m) dek).pipe chunks).2 with
    | error e => simp
    | ok u => simp

end Truncated

section Reference
open GaloisCounter

def sampleKey : Key := ⟨List.replicate 32 7, rfl⟩

def sampleIv : Iv := ⟨List.replicate 12 9, rfl⟩

/-- Two bytes in three chunks, cut again inside the vector. -/
theorem encrypted_object_round_trip_sample :
    ∃ enc emitted T out, createEncryptStream node sampleKey sampleKey sampleIv sampleIv = .ok enc ∧
      enc.stream.pipe [[104], [], [105]] = (emitted, .ok ()) ∧ emitted.flatten.length = 30 ∧
      createDecryptStream node sampleKey enc.wrappedDek = .ok T ∧
      T.pipe [emitted.flatten.take 5, [], emitted.flatten.drop 5] = (out, .ok ()) ∧
      out.flatten = [104, 105] := by
  obtain ⟨enc, he, h⟩ :=
    encrypted_object_round_trip node_lawful sampleKey sampleKey sampleIv sampleIv
  obtain ⟨ciphertext, tag, -, -, -, hpipe, hback⟩ := h [104, 105]
  obtain ⟨emitted, hp, hflat, hlen⟩ := hpipe [[104], [], [105]] rfl
  obtain ⟨T, out, hT, hrun, hout⟩ := hback [emitted.flatten.take 5, [], emitted.flatten.drop 5]
    (by simp [hflat])
  exact ⟨enc, emitted, T, out, he, hp, hlen, hT, hrun, hout⟩

/-- Twenty-eight zero bytes, cut inside the vector and inside the tag. -/
theorem streaming_decrypt_agrees_sample :
    ∃ wrapped T, createDecryptStream node sampleKey wrapped = .ok T ∧
      ((T.pipe [List.replicate 5 0, List.replicate 20 0, List.replicate 3 0]).2 = .ok () ↔
        ∃ plain, decrypt node sampleKey (List.replicate 28 0) wrapped = .ok plain) := by
  obtain ⟨wrapped, -, hu⟩ := unwrap_wrap node_lawful sampleKey sampleIv sampleKey.1
  obtain ⟨T, hT, hiff, -⟩ := streaming_decrypt_agrees (runtime_streamLaws aesGcm) sampleKey wrapped
    sampleKey.1 hu (List.replicate 28 0) (by decide)
    [List.replicate 5 0, List.replicate 20 0, List.replicate 3 0] rfl
  exact ⟨wrapped, T, hT, hiff⟩

/-- A vector and one byte more, cut inside the vector. -/
theorem truncated_ciphertext_refused_sample :
    ∃ wrapped T e, createDecryptStream node sampleKey wrapped = .ok T ∧
      (T.pipe [List.replicate 5 0, List.replicate 8 0]).2 = .error e := by
  obtain ⟨wrapped, -, hu⟩ := unwrap_wrap node_lawful sampleKey sampleIv sampleKey.1
  obtain ⟨T, hT, hiff⟩ := truncated_ciphertext_refused aesGcm sampleKey wrapped sampleKey.1 hu
    (List.replicate 13 0) (by decide) [List.replicate 5 0, List.replicate 8 0] rfl
  have other : ¬ TagCutShort aesGcm sampleKey.1 (List.replicate 13 0) := by
    rintro ⟨-, taken, -⟩
    exact absurd taken (by decide)
  obtain ⟨e, he⟩ := hiff.mpr other
  exact ⟨wrapped, T, e, hT, he⟩

/-- The sample vector and the first four bytes of the tag of an empty file. -/
def cutObject : Bytes := sampleIv.1 ++ (aesGcm.tag sampleKey.1 sampleIv.1 []).1.take 4

theorem cutObject_length : cutObject.length = 16 := by
  have tag := (aesGcm.tag sampleKey.1 sampleIv.1 []).2
  rw [cutObject, List.length_append, List.length_take, tag, sampleIv.2]
  rfl

theorem cutObject_cut : TagCutShort aesGcm sampleKey.1 cutObject := by
  have vector : cutObject.take ivLen = sampleIv.1 := List.take_left' sampleIv.2
  have rest : cutObject.drop ivLen = (aesGcm.tag sampleKey.1 sampleIv.1 []).1.take 4 :=
    List.drop_left' sampleIv.2
  refine ⟨sampleKey.2, ?_, ?_⟩
  · rw [List.length_drop, cutObject_length]
    decide
  · rw [vector, rest]
    exact List.take_prefix 4 _

/-- The first 16 bytes of an encrypted empty file decrypt without an error. -/
theorem truncated_ciphertext_accepted :
    ¬ ∀ (kek : Key) (wrapped : String) (dek : Bytes), unwrapDek node kek wrapped = .ok dek →
      ∀ input : Bytes, input.length < 28 → ∀ chunks : List Bytes, chunks.flatten = input →
        ∀ T, createDecryptStream node kek wrapped = .ok T → ∃ e, (T.pipe chunks).2 = .error e := by
  intro refused
  obtain ⟨wrapped, -, hu⟩ := unwrap_wrap node_lawful sampleKey sampleIv sampleKey.1
  have short : cutObject.length < 28 := by rw [cutObject_length]; decide
  have one : [cutObject].flatten = cutObject := by simp
  have accepted := (pipe_short aesGcm sampleKey.1 [cutObject] (by rw [one]; exact short)).mpr
    (by rw [one]; exact cutObject_cut)
  obtain ⟨e, he⟩ := refused sampleKey wrapped sampleKey.1 hu cutObject short [cutObject] one
    (decryptTransform node sampleKey.1)
    (by simp [createDecryptStream, hu, bind, Except.bind, pure, Except.pure])
  have both := accepted.symm.trans he
  cases both

end Reference

end EnvelopeCrypto
