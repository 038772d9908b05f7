import SyncBridge.UserSeparation

/-!
# Reading an idempotency key back

The key hashes five fields joined with a separator. Only the virtual path may contain
the separator: the username is read off the front and the other three fields off the
back, and what is left between them is the path. Two payloads therefore share a key
exactly when they are the same event.
-/

namespace IdempotencyKeys

open ChunkTransforms Entities Calls PosixPaths Ingestion Orchestrator UserSeparation

section Texts

/-- The text after the last separator is read back. -/
theorem split_last {α : Type} {sep : α} {l l' r r' : List α} (hr : sep ∉ r) (hr' : sep ∉ r')
    (h : l ++ sep :: r = l' ++ sep :: r') : l = l' ∧ r = r' := by
  have turned := congrArg List.reverse h
  simp only [List.reverse_append, List.reverse_cons, List.append_assoc,
    List.singleton_append] at turned
  have back : sep ∉ r.reverse ∧ sep ∉ r'.reverse := by simp [hr, hr']
  obtain ⟨right, left⟩ := split_separator back.1 back.2 turned
  exact ⟨List.reverse_injective left, List.reverse_injective right⟩

theorem utf8_injective : Function.Injective utf8 := by
  intro s t h
  have encoded : s.toList.utf8Encode = t.toList.utf8Encode := congrArg List.toByteArray h
  rw [← String.toByteArray_ofList, ← String.toByteArray_ofList, String.toByteArray_inj] at encoded
  simpa using encoded

theorem decimal_digits {n : Nat} {c : Char} (h : c ∈ (toString n).toList) : c.isDigit := by
  rw [Nat.toString_eq_ofList_toDigits, String.toList_ofList] at h
  exact Nat.isDigit_of_mem_toDigits (by decide) (by decide) h

theorem decimal_injective : Function.Injective (fun n : Nat => (toString n).toList) := by
  intro m n h
  simp only [Nat.toString_eq_ofList_toDigits, String.toList_ofList] at h
  calc m = Nat.ofDigitChars 10 (Nat.toDigits 10 m) 0 := Nat.ofDigitChars_ten_toDigits.symm
    _ = Nat.ofDigitChars 10 (Nat.toDigits 10 n) 0 := by rw [h]
    _ = n := Nat.ofDigitChars_ten_toDigits

theorem signed_nonnegative {i : Int} (h : 0 ≤ i) : toString i = toString i.toNat := by
  rw [Int.toString_eq_repr, Int.repr_eq_if, if_pos h, Nat.toString_eq_repr]

theorem signed_negative {i : Int} (h : ¬ 0 ≤ i) :
    (toString i).toList = '-' :: (toString (-i).toNat).toList := by
  rw [Int.toString_eq_repr, Int.repr_eq_if, if_neg h, String.toList_append, Nat.toString_eq_repr]
  rfl

theorem signed_characters {i : Int} {c : Char} (h : c ∈ (toString i).toList) :
    c.isDigit ∨ c = '-' := by
  by_cases sign : 0 ≤ i
  · rw [signed_nonnegative sign] at h
    exact .inl (decimal_digits h)
  · rw [signed_negative sign] at h
    rcases List.mem_cons.mp h with rfl | h
    · exact .inr rfl
    · exact .inl (decimal_digits h)

theorem dash_not_decimal (m : Nat) (t : List Char) : (toString m).toList ≠ '-' :: t := by
  intro h
  have dash : '-' ∈ (toString m).toList := by rw [h]; exact List.mem_cons_self
  exact absurd (decimal_digits dash) (by decide)

theorem signed_injective : Function.Injective (fun i : Int => (toString i).toList) := by
  intro i j h
  simp only at h
  by_cases hi : 0 ≤ i <;> by_cases hj : 0 ≤ j
  · rw [signed_nonnegative hi, signed_nonnegative hj] at h
    have := decimal_injective h
    omega
  · rw [signed_nonnegative hi, signed_negative hj] at h
    exact absurd h (dash_not_decimal _ _)
  · rw [signed_negative hi, signed_nonnegative hj] at h
    exact absurd h.symm (dash_not_decimal _ _)
  · rw [signed_negative hi, signed_negative hj] at h
    have := decimal_injective (List.cons.inj h).2
    omega

end Texts

section Keys
variable (env : Env)

/-- The text that is hashed, field by field. -/
def keyText (p : SftpgoWebhookDto) : List Char :=
  p.username.toList ++ '|' ::
    (p.virtualPath.toList ++ '|' :: ((toString p.fileSize).toList ++ '|' ::
    (((p.timestamp.map toString).getD "").toList ++ '|' :: (p.sessionId.getD "").toList)))

theorem buildIdempotencyKey_eq (p : SftpgoWebhookDto) :
    buildIdempotencyKey env p = env.sha256 (utf8 (String.ofList (keyText p))) := by
  unfold buildIdempotencyKey
  congr 2
  apply String.toList_injective
  simp [joinFields, keyText]

theorem size_unseparated (n : Nat) : '|' ∉ (toString n).toList := fun h =>
  absurd (decimal_digits h) (by decide)

theorem timestamp_unseparated (t : Option Int) : '|' ∉ ((t.map toString).getD "").toList := by
  cases t with
  | none => simp
  | some i =>
    intro h
    rcases signed_characters h with digit | dash
    · exact absurd digit (by decide)
    · exact absurd dash (by decide)

theorem signed_nonempty (i : Int) : (toString i).toList ≠ [] := by
  by_cases sign : 0 ≤ i
  · rw [signed_nonnegative sign, Nat.toString_eq_ofList_toDigits, String.toList_ofList]
    exact Nat.toDigits_ne_nil
  · rw [signed_negative sign]
    exact List.cons_ne_nil _ _

/-- An absent timestamp is told from every present one. -/
theorem timestamp_injective :
    Function.Injective (fun t : Option Int => ((t.map toString).getD "").toList) := by
  intro t t' h
  cases t with
  | none =>
    cases t' with
    | none => rfl
    | some i => exact absurd h.symm (signed_nonempty i)
  | some i =>
    cases t' with
    | none => exact absurd h (signed_nonempty i)
    | some j => exact congrArg some (signed_injective h)

/-- Usernames come off the front, then session, timestamp and size off the back. -/
theorem keyText_reads {p q : SftpgoWebhookDto} (hp : '|' ∉ p.username.toList)
    (hq : '|' ∉ q.username.toList) (sp : '|' ∉ (p.sessionId.getD "").toList)
    (sq : '|' ∉ (q.sessionId.getD "").toList) (h : keyText p = keyText q) :
    p.username = q.username ∧ p.virtualPath = q.virtualPath ∧ p.fileSize = q.fileSize ∧
      p.timestamp = q.timestamp ∧ p.sessionId.getD "" = q.sessionId.getD "" := by
  obtain ⟨name, rest⟩ := split_separator hp hq h
  simp only [← List.cons_append, ← List.append_assoc] at rest
  obtain ⟨rest, session⟩ := split_last sp sq rest
  obtain ⟨rest, time⟩ := split_last (timestamp_unseparated _) (timestamp_unseparated _) rest
  obtain ⟨path, size⟩ := split_last (size_unseparated _) (size_unseparated _) rest
  exact ⟨String.toList_injective name, String.toList_injective path, decimal_injective size,
    timestamp_injective time, String.toList_injective session⟩

/-- Two payloads share an idempotency key exactly when they are the same event. -/
theorem idempotency_key_identifies (sha256Injective : Function.Injective env.sha256)
    (p q : SftpgoWebhookDto) (userP : '|' ∉ p.username.toList) (userQ : '|' ∉ q.username.toList)
    (sessionP : ∀ s, p.sessionId = some s → '|' ∉ s.toList)
    (sessionQ : ∀ s, q.sessionId = some s → '|' ∉ s.toList) :
    buildIdempotencyKey env p = buildIdempotencyKey env q ↔
      p.username = q.username ∧ p.virtualPath = q.virtualPath ∧ p.fileSize = q.fileSize ∧
        p.timestamp = q.timestamp ∧ p.sessionId.getD "" = q.sessionId.getD "" := by
  have session : ∀ o : Option String, (∀ s, o = some s → '|' ∉ s.toList) →
      '|' ∉ (o.getD "").toList := by
    intro o ho
    cases o with
    | none => simp
    | some s => exact ho s rfl
  rw [buildIdempotencyKey_eq, buildIdempotencyKey_eq]
  constructor
  · intro h
    have text := String.ofList_injective (utf8_injective (sha256Injective h))
    exact keyText_reads userP userQ (session _ sessionP) (session _ sessionQ) text
  · rintro ⟨name, path, size, time, sid⟩
    simp only [keyText, name, path, size, time, sid]

end Keys

/-- The sample digest, and other digests kept apart from it. -/
def apartEnv : Env := { sampleEnv with
  sha256 := fun b =>
    if b = utf8 "alice|/a.txt|1|1720000000000|" then
      "b6ea8e89e72c7363adf5367ff7888304377f7c4592bc0125e1fad4a34f7179f1"
    else String.ofList ('#' :: b.map Char.ofUInt8) }

theorem ofUInt8_injective : Function.Injective Char.ofUInt8 := by
  intro x y h
  exact UInt8.toUInt32_inj.mp (congrArg Char.val h)

theorem apartEnv_injective : Function.Injective apartEnv.sha256 := by
  have marked : ∀ l : List Char, String.ofList ('#' :: l) ≠
      "b6ea8e89e72c7363adf5367ff7888304377f7c4592bc0125e1fad4a34f7179f1" := by
    intro l h
    have first := congrArg (fun s => s.toList.head?) h
    simp at first
  intro b c h
  simp only [apartEnv] at h
  split at h
  next hb =>
    split at h
    next hc => rw [hb, hc]
    next hc => exact absurd h.symm (marked _)
  next hb =>
    split at h
    next hc => exact absurd h (marked _)
    next hc => exact List.map_injective_iff.mpr ofUInt8_injective (List.cons.inj
      (String.ofList_injective h)).2

/-- A redelivery of the sample upload that names an empty session from another path. -/
theorem idempotency_key_identifies_sample :
    buildIdempotencyKey apartEnv sampleUpload =
      buildIdempotencyKey apartEnv
        { sampleUpload with sessionId := some "", path := "/elsewhere" } ∧
    buildIdempotencyKey apartEnv sampleUpload ≠
      buildIdempotencyKey apartEnv { sampleUpload with virtualPath := "/a.txt|1" } := by
  constructor
  · rw [idempotency_key_identifies apartEnv apartEnv_injective] <;> decide
  · rw [ne_eq, idempotency_key_identifies apartEnv apartEnv_injective] <;> decide

end IdempotencyKeys
