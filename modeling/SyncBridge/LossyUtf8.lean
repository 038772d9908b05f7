import Mathlib.Tactic.Ring
import SyncBridge.ChunkTransforms

/-!
# Text from bytes, with replacement

Decoding UTF-8 the way a runtime does it for arbitrary bytes: every maximal start of a
character that does not go on becomes one replacement character. Bytes decoded piece by
piece may render a character that is cut in two differently, but an ASCII byte is always
rendered as itself and nothing else is rendered as ASCII, so an ASCII word occurs in the
text exactly when it occurs in the bytes.
-/

namespace LossyUtf8

open ChunkTransforms

def replacement : Char := '\uFFFD'

/-- A character begun: the bounds of the next byte, the bytes `left` after it, the bits so far. -/
structure Pending where
  lower : Nat
  upper : Nat
  left : Nat
  code : Nat

/-- A byte between characters. -/
def start (b : Nat) : Option Pending × List Char :=
  if b < 0x80 then (none, [Char.ofNat b])
  else if 0xC2 ≤ b ∧ b ≤ 0xDF then (some ⟨0x80, 0xBF, 0, b - 0xC0⟩, [])
  else if 0xE0 ≤ b ∧ b ≤ 0xEF then
    (some ⟨if b = 0xE0 then 0xA0 else 0x80, if b = 0xED then 0x9F else 0xBF, 1, b - 0xE0⟩, [])
  else if 0xF0 ≤ b ∧ b ≤ 0xF4 then
    (some ⟨if b = 0xF0 then 0x90 else 0x80, if b = 0xF4 then 0x8F else 0xBF, 2, b - 0xF0⟩, [])
  else (none, [replacement])

/-- A byte inside a character; one that does not continue it is read again between characters. -/
def continued (p : Pending) (b : Nat) : Option Pending × List Char :=
  if p.lower ≤ b ∧ b ≤ p.upper then
    match p.left with
    | 0 => (none, [Char.ofNat (p.code * 64 + (b - 0x80))])
    | k + 1 => (some ⟨0x80, 0xBF, k, p.code * 64 + (b - 0x80)⟩, [])
  else ((start b).1, replacement :: (start b).2)

def decodeFrom : Option Pending → Bytes → List Char
  | none, [] => []
  | some _, [] => [replacement]
  | none, b :: bs => (start b.toNat).2 ++ decodeFrom (start b.toNat).1 bs
  | some p, b :: bs => (continued p b.toNat).2 ++ decodeFrom (continued p b.toNat).1 bs

/-- The text of a buffer. -/
def decode (bs : Bytes) : List Char := decodeFrom none bs

/-- ASCII bytes as themselves, and every other character for some other bytes. -/
inductive Rendered : Bytes → List Char → Prop where
  | nil : Rendered [] []
  | ascii {b : UInt8} {bs : Bytes} {cs : List Char} (small : b.toNat < 0x80)
    (rest : Rendered bs cs) :
      Rendered (b :: bs) (Char.ofNat b.toNat :: cs)
  | other {block bs : Bytes} {c : Char} {cs : List Char} (some : block ≠ [])
      (large : ∀ b ∈ block, 0x80 ≤ b.toNat) (beyond : 0x80 ≤ c.toNat) (rest : Rendered bs cs) :
      Rendered (block ++ bs) (c :: cs)

theorem Rendered.append {a b : Bytes} {x y : List Char} (ha : Rendered a x) (hb : Rendered b y) :
    Rendered (a ++ b) (x ++ y) := by
  induction ha with
  | nil => exact hb
  | ascii small _ ih => exact .ascii small ih
  | other nonempty large beyond _ ih =>
    rw [List.append_assoc]
    exact .other nonempty large beyond ih

/-! ## Decoding renders -/

/-- What the begun character can still become lies beyond ASCII and among the characters. -/
structure Pending.Sound (p : Pending) : Prop where
  first : 0x80 ≤ p.lower
  least : 0x80 ≤ (p.code * 64 + (p.lower - 0x80)) * 64 ^ p.left
  valid : (p.code * 64 + (p.upper - 0x80) + 1) * 64 ^ p.left ≤ 0xD800 ∨
    0xE000 ≤ (p.code * 64 + (p.lower - 0x80)) * 64 ^ p.left ∧
      (p.code * 64 + (p.upper - 0x80) + 1) * 64 ^ p.left ≤ 0x110000

theorem start_cases {b : Nat} (byte : b < 256) :
    (b < 0x80 ∧ start b = (none, [Char.ofNat b])) ∨
    (0x80 ≤ b ∧ start b = (none, [replacement])) ∨
    (0x80 ≤ b ∧ ∃ p : Pending, p.Sound ∧ start b = (some p, [])) := by
  unfold start
  split
  next small => exact .inl ⟨small, rfl⟩
  next large =>
    have large : 0x80 ≤ b := by omega
    split
    next two =>
      refine .inr (.inr ⟨large, _, ⟨?_, ?_, ?_⟩, rfl⟩)
      · exact Nat.le_refl _
      · dsimp only
        omega
      · dsimp only
        omega
    next =>
      split
      next three =>
        refine .inr (.inr ⟨large, _, ⟨?_, ?_, ?_⟩, rfl⟩)
        · dsimp only
          split <;> omega
        · dsimp only
          split <;> omega
        · dsimp only
          split <;> split <;> omega
      next =>
        split
        next four =>
          refine .inr (.inr ⟨large, _, ⟨?_, ?_, ?_⟩, rfl⟩)
          · dsimp only
            split <;> omega
          · dsimp only
            split <;> omega
          · dsimp only
            split <;> split <;> omega
        next => exact .inr (.inl ⟨large, rfl⟩)

theorem toNat_ofNat {n : Nat} (valid : n < 0xD800 ∨ 0xE000 ≤ n ∧ n < 0x110000) :
    (Char.ofNat n).toNat = n := by
  have scalar : n.isValidChar := by
    rcases valid with low | ⟨low, high⟩
    · exact .inl low
    · exact .inr ⟨by omega, high⟩
  rw [Char.ofNat, dif_pos scalar]
  rfl

theorem continued_cases {p : Pending} (sound : p.Sound) (b : Nat) :
    (0x80 ≤ b ∧ ∃ c : Char, 0x80 ≤ c.toNat ∧ continued p b = (none, [c])) ∨
    (0x80 ≤ b ∧ ∃ q : Pending, q.Sound ∧ continued p b = (some q, [])) ∨
    continued p b = ((start b).1, replacement :: (start b).2) := by
  obtain ⟨first, least, valid⟩ := sound
  obtain ⟨lower, upper, left, code⟩ := p
  simp only at first least valid
  unfold continued
  split
  next inside =>
    simp only at inside
    have large : 0x80 ≤ b := by omega
    -- the bounds of the character narrow to those of the byte
    have below : (code * 64 + (lower - 0x80)) * 64 ^ left ≤ (code * 64 + (b - 0x80)) * 64 ^ left :=
      Nat.mul_le_mul_right _ (by omega)
    have above : (code * 64 + (b - 0x80) + 1) * 64 ^ left ≤
        (code * 64 + (upper - 0x80) + 1) * 64 ^ left :=
      Nat.mul_le_mul_right _ (by omega)
    cases left with
    | zero =>
      simp only [Nat.pow_zero, Nat.mul_one] at least valid below above
      have scalar := toNat_ofNat (n := code * 64 + (b - 0x80)) (by omega)
      exact .inl ⟨large, _, by rw [scalar]; omega, rfl⟩
    | succ k =>
      have bottom : ((code * 64 + (b - 0x80)) * 64 + (0x80 - 0x80)) * 64 ^ k =
          (code * 64 + (b - 0x80)) * 64 ^ (k + 1) := by ring
      have whole : ((code * 64 + (b - 0x80)) * 64 + (0xBF - 0x80) + 1) * 64 ^ k =
          (code * 64 + (b - 0x80) + 1) * 64 ^ (k + 1) := by ring
      refine .inr (.inl ⟨large, _, ⟨?_, ?_, ?_⟩, rfl⟩)
      · exact Nat.le_refl _
      · dsimp only
        rw [bottom]
        omega
      · dsimp only
        rw [whole, bottom]
        omega
  next => exact .inr (.inr rfl)

/-- Between characters the text renders the bytes, and inside one it renders them with the
bytes of that character in front. -/
theorem decodeFrom_rendered (bs : Bytes) :
    Rendered bs (decodeFrom none bs) ∧
      ∀ (p : Pending) (block : Bytes), p.Sound → block ≠ [] → (∀ b ∈ block, 0x80 ≤ b.toNat) →
        Rendered (block ++ bs) (decodeFrom (some p) bs) := by
  induction bs with
  | nil =>
    refine ⟨.nil, fun p block _ nonempty large => ?_⟩
    exact .other nonempty large (by decide) .nil
  | cons b bs ih =>
    have between : Rendered (b :: bs) (decodeFrom none (b :: bs)) := by
      rw [decodeFrom]
      rcases start_cases b.toNat_lt with ⟨small, h⟩ | ⟨large, h⟩ | ⟨large, p, sound, h⟩
      · rw [h]
        exact .ascii small ih.1
      · rw [h]
        have alone : ∀ x ∈ [b], 0x80 ≤ x.toNat := by simpa using large
        exact Rendered.other (List.cons_ne_nil b []) alone (by decide) ih.1
      · rw [h]
        exact ih.2 p [b] sound (by simp) (by simpa using large)
    refine ⟨between, fun p block sound nonempty large => ?_⟩
    have extended (more : 0x80 ≤ b.toNat) : ∀ x ∈ block ++ [b], 0x80 ≤ x.toNat := by
      intro x hx
      rcases List.mem_append.mp hx with hx | hx
      · exact large x hx
      · rw [List.mem_singleton.mp hx]
        exact more
    rw [decodeFrom]
    rcases continued_cases sound b.toNat with ⟨more, c, beyond, h⟩ | ⟨more, q, hq, h⟩ | h
    · rw [h, ← List.singleton_append, ← List.append_assoc]
      exact .other (by simp) (extended more) beyond ih.1
    · rw [h, ← List.singleton_append, ← List.append_assoc]
      exact ih.2 q (block ++ [b]) hq (by simp) (extended more)
    · rw [h]
      exact .other nonempty large (by decide) between

theorem decode_rendered (bs : Bytes) : Rendered bs (decode bs) := (decodeFrom_rendered bs).1

/-- Text put together from pieces renders the bytes put together. -/
theorem flatMap_decode_rendered (pieces : List Bytes) :
    Rendered pieces.flatten (pieces.flatMap decode) := by
  induction pieces with
  | nil => exact .nil
  | cons piece pieces ih => exact (decode_rendered piece).append ih

/-! ## Words -/

/-- The bytes of an ASCII word. -/
def asciiBytes (w : List Char) : Bytes := w.map fun c => UInt8.ofNat c.toNat

def Ascii (w : List Char) : Prop := ∀ c ∈ w, c.toNat < 0x80

theorem ascii_byte {c : Char} (h : c.toNat < 0x80) {b : UInt8} :
    UInt8.ofNat c.toNat = b ↔ b.toNat < 0x80 ∧ c = Char.ofNat b.toNat := by
  have back : (UInt8.ofNat c.toNat).toNat = c.toNat := by
    rw [UInt8.toNat_ofNat']
    omega
  constructor
  · rintro rfl
    rw [back]
    exact ⟨h, (Char.ofNat_toNat c).symm⟩
  · rintro ⟨small, hc⟩
    apply UInt8.toNat_inj.mp
    rw [back, hc, toNat_ofNat (by omega)]

/-- An ASCII word begins the bytes when it begins the text. -/
theorem Rendered.starts {w : List Char} (ascii : Ascii w) {bs : Bytes} {cs : List Char}
    (h : Rendered bs cs) : asciiBytes w <+: bs ↔ w <+: cs := by
  induction w generalizing bs cs with
  | nil => simp [asciiBytes]
  | cons c w ih =>
    have small := ascii c List.mem_cons_self
    have more : Ascii w := fun d hd => ascii d (List.mem_cons_of_mem c hd)
    cases h with
    | nil => simp [asciiBytes]
    | ascii hb rest =>
      simp only [asciiBytes, List.map_cons, List.cons_prefix_cons] at ih ⊢
      rw [ih more rest, ascii_byte small]
      simp [hb]
    | other nonempty large beyond rest =>
      rename_i block bs d cs
      obtain ⟨x, block, rfl⟩ := List.exists_cons_of_ne_nil nonempty
      have hx := large x List.mem_cons_self
      simp only [asciiBytes, List.map_cons, List.cons_append, List.cons_prefix_cons]
      constructor
      · rintro ⟨he, -⟩
        have := ((ascii_byte small).mp he).1
        omega
      · rintro ⟨rfl, -⟩
        omega

/-- An ASCII word that is not empty occurs in no bytes beyond ASCII. -/
theorem occurs_beyond {w : List Char} (ascii : Ascii w) (nonempty : w ≠ []) {block bs : Bytes}
    (large : ∀ b ∈ block, 0x80 ≤ b.toNat) :
    asciiBytes w <:+: block ++ bs ↔ asciiBytes w <:+: bs := by
  induction block with
  | nil => rfl
  | cons x block ih =>
    have apart : ¬ asciiBytes w <+: x :: (block ++ bs) := by
      obtain ⟨c, w, rfl⟩ := List.exists_cons_of_ne_nil nonempty
      simp only [asciiBytes, List.map_cons, List.cons_prefix_cons]
      rintro ⟨he, -⟩
      have small := ((ascii_byte (ascii c List.mem_cons_self)).mp he).1
      have := large x List.mem_cons_self
      omega
    rw [List.cons_append, List.infix_cons_iff, or_iff_right apart]
    exact ih fun b hb => large b (List.mem_cons_of_mem x hb)

/-- An ASCII word occurs in the text exactly when it occurs in the bytes. -/
theorem Rendered.occurs {w : List Char} (ascii : Ascii w) (nonempty : w ≠ []) {bs : Bytes}
    {cs : List Char} (h : Rendered bs cs) : asciiBytes w <:+: bs ↔ w <:+: cs := by
  induction h with
  | nil => simp [asciiBytes]
  | ascii small rest ih =>
    rw [List.infix_cons_iff, List.infix_cons_iff, ih, (Rendered.ascii small rest).starts ascii]
  | other some large beyond rest ih =>
    rw [occurs_beyond ascii nonempty large, List.infix_cons_iff, ih,
      ← (Rendered.other some large beyond rest).starts ascii]
    constructor
    · exact .inr
    · rintro (starts | inside)
      · exact ih.mp ((occurs_beyond ascii nonempty large).mp starts.isInfix)
      · exact inside

theorem Rendered.empty {bs : Bytes} {cs : List Char} (h : Rendered bs cs) (none : bs = []) :
    cs = [] := by
  cases h with
  | nil => rfl
  | ascii => cases none
  | other some => exact absurd (List.append_eq_nil_iff.mp none).1 some

/-- Bytes that end in ASCII give a text that ends in it. -/
theorem Rendered.ends {bs : Bytes} {cs : List Char} (h : Rendered bs cs) {b : UInt8}
    (small : b.toNat < 0x80) (last : bs.getLast? = some b) :
    cs.getLast? = some (Char.ofNat b.toNat) := by
  induction h with
  | nil => cases last
  | @ascii x bs cs hx rest ih =>
    cases bs with
    | nil =>
      rw [rest.empty rfl]
      cases last
      rfl
    | cons y bs =>
      rw [List.getLast?_cons_cons] at last
      have tail := ih last
      cases cs with
      | nil => cases tail
      | cons c cs => exact tail
  | @other block bs c cs some large beyond rest ih =>
    cases bs with
    | nil =>
      rw [List.append_nil] at last
      have := large b (List.mem_of_getLast? last)
      omega
    | cons y bs =>
      rw [List.getLast?_append_cons] at last
      have tail := ih last
      cases cs with
      | nil => cases tail
      | cons c cs => exact tail

end LossyUtf8
