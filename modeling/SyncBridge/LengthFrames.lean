import SyncBridge.ChunkTransforms

/-!
# Frames with a length in front

A stream of chunks, each after its length as four bytes, most significant first, ended by
the length zero. Reading goes by the lengths alone, so what the chunks hold is never taken
for a length or for the end.
-/

namespace LengthFrames

open ChunkTransforms

def be32 (n : Nat) : Bytes :=
  [UInt8.ofNat (n / 2 ^ 24), UInt8.ofNat (n / 2 ^ 16), UInt8.ofNat (n / 2 ^ 8), UInt8.ofNat n]

def ofBe32 (a b c d : UInt8) : Nat := ((a.toNat * 256 + b.toNat) * 256 + c.toNat) * 256 + d.toNat

def frame (chunk : Bytes) : Bytes := be32 chunk.length ++ chunk

/-- All frames and the end of the stream. -/
def frames (chunks : List Bytes) : Bytes := chunks.flatMap frame ++ be32 0

/-- The content of at most `n` frames up to the end, and the bytes after it. -/
def readFrames : Nat → Bytes → Option (Bytes × Bytes)
  | n + 1, a :: b :: c :: d :: rest =>
    if ofBe32 a b c d = 0 then some ([], rest)
    else if rest.length < ofBe32 a b c d then none
    else (readFrames n (rest.drop (ofBe32 a b c d))).map fun (content, after) =>
      (rest.take (ofBe32 a b c d) ++ content, after)
  | _, _ => none

theorem ofBe32_be32 {n : Nat} (bounded : n < 2 ^ 32) :
    ofBe32 (UInt8.ofNat (n / 2 ^ 24)) (UInt8.ofNat (n / 2 ^ 16)) (UInt8.ofNat (n / 2 ^ 8))
      (UInt8.ofNat n) = n := by
  simp only [ofBe32, UInt8.toNat_ofNat']
  omega

theorem readFrames_end (n : Nat) (after : Bytes) :
    readFrames (n + 1) (be32 0 ++ after) = some ([], after) := by
  have zero := ofBe32_be32 (n := 0) (by decide)
  simp only [be32, List.cons_append, List.nil_append, readFrames, zero, if_true]

theorem readFrames_frame (n : Nat) {chunk : Bytes} (nonempty : chunk ≠ [])
    (bounded : chunk.length < 2 ^ 32) (rest : Bytes) : readFrames (n + 1) (frame chunk ++ rest) =
      (readFrames n rest).map fun (content, after) => (chunk ++ content, after) := by
  have positive : chunk.length ≠ 0 := by simpa using nonempty
  simp only [frame, be32, List.cons_append, List.nil_append, readFrames, ofBe32_be32 bounded]
  rw [if_neg positive, if_neg (by simp), List.drop_left, List.take_left]

/-- Frames are read back whole, and reading stops where they end. -/
theorem readFrames_frames {chunks : List Bytes} (nonempty : ∀ c ∈ chunks, c ≠ [])
    (bounded : ∀ c ∈ chunks, c.length < 2 ^ 32) {n : Nat} (enough : chunks.length < n)
    (after : Bytes) :
    readFrames n (frames chunks ++ after) = some (chunks.flatten, after) := by
  induction chunks generalizing n with
  | nil =>
    obtain ⟨n, rfl⟩ := Nat.exists_eq_succ_of_ne_zero (Nat.ne_of_gt enough)
    exact readFrames_end n after
  | cons c chunks ih =>
    obtain ⟨n, rfl⟩ := Nat.exists_eq_succ_of_ne_zero (Nat.ne_zero_of_lt enough)
    have rest := ih (fun d hd => nonempty d (List.mem_cons_of_mem c hd))
      (fun d hd => bounded d (List.mem_cons_of_mem c hd)) (Nat.lt_of_succ_lt_succ enough)
    rw [frames] at rest
    rw [frames, List.flatMap_cons, List.append_assoc, List.append_assoc,
      readFrames_frame n (nonempty c List.mem_cons_self)
        (bounded c List.mem_cons_self), ← List.append_assoc, rest]
    rfl

/-- There are more bytes than frames. -/
theorem length_frames (chunks : List Bytes) : chunks.length < (frames chunks).length := by
  induction chunks with
  | nil => decide
  | cons c chunks ih =>
    simp only [frames, List.flatMap_cons, List.length_append, frame, be32, List.length_cons,
      List.length_nil] at ih ⊢
    omega

end LengthFrames
