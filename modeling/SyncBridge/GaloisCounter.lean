import SyncBridge.NodeCrypto
import Mathlib.Data.List.Basic

/-!
# A runtime that satisfies the cipher laws

AES-256 in Galois/counter mode and base64, written out as executable functions.
The laws are proved for every keystream and every tag function, since none of
them depends on the block cipher. The reference runtime shows that the laws can
be met and is the one at which hypotheses on the runtime are discharged. Nothing
about the secrecy of the mode is claimed.
-/

namespace GaloisCounter

open ChunkTransforms NodeCrypto

/-! ## Counter mode over any keystream -/

/-- Exclusive-or with the keystream from byte `n` on. -/
def mask (ks : Nat → UInt8) : Nat → Bytes → Bytes
  | _, [] => []
  | n, b :: bs => (b ^^^ ks n) :: mask ks (n + 1) bs

theorem mask_append (ks : Nat → UInt8) (n : Nat) (a b : Bytes) :
    mask ks n (a ++ b) = mask ks n a ++ mask ks (n + a.length) b := by
  induction a generalizing n with
  | nil => rfl
  | cons x xs ih =>
    have hn : n + (x :: xs).length = n + 1 + xs.length := by rw [List.length_cons]; omega
    rw [hn]
    exact congrArg (_ :: ·) (ih (n + 1))

theorem mask_length (ks : Nat → UInt8) (n : Nat) (a : Bytes) : (mask ks n a).length = a.length := by
  induction a generalizing n with
  | nil => rfl
  | cons x xs ih => rw [mask, List.length_cons, ih, List.length_cons]

theorem mask_mask (ks : Nat → UInt8) (n : Nat) (a : Bytes) : mask ks n (mask ks n a) = a := by
  induction a generalizing n with
  | nil => rfl
  | cons x xs ih =>
    rw [mask, mask, ih, UInt8.xor_assoc, UInt8.xor_self, UInt8.xor_zero]

/-- A keystream for each key and vector, and a tag for each ciphertext. -/
structure Mode where
  keystream : (key iv : Bytes) → Nat → UInt8
  tag : (key iv ciphertext : Bytes) → BytesOf 16

structure Cipher where
  key : Bytes
  iv : Bytes
  ciphertext : Bytes

structure Decipher where
  key : Bytes
  iv : Bytes
  ciphertext : Bytes
  tag : Option Bytes

/-- Tag lengths accepted when no `authTagLength` was given. -/
def tagLengths : List Nat := [4, 8, 12, 13, 14, 15, 16]

def goodKey (key iv : Bytes) : Bool := key.length == 32 && iv.length != 0

/-- `final` of a decipher compares as many bytes as the tag that was set has. -/
def Mode.final (m : Mode) (d : Decipher) : Except CipherError Bytes :=
  match d.tag with
  | none => .error .unauthenticated
  | some t =>
    if (m.tag d.key d.iv d.ciphertext).1.take t.length = t then .ok [] else .error .unauthenticated

/-! ## Base64 -/

def alphabet : List Char :=
  "ABCDEFGHIJKLMNOPQRSTUVWXYZabcdefghijklmnopqrstuvwxyz0123456789+/".toList

def sextetChar (n : Nat) : Char := alphabet.getD n '='

/-- The URL alphabet, whose last two characters differ, is read as well. -/
def charSextet (c : Char) : Option Nat :=
  if c = '-' then some 62 else if c = '_' then some 63 else alphabet.findIdx? (· == c)

def encodeBytes : Bytes → List Char
  | [] => []
  | [a] => [sextetChar (a.toNat / 4), sextetChar (a.toNat % 4 * 16), '=', '=']
  | [a, b] => [sextetChar (a.toNat / 4), sextetChar (a.toNat % 4 * 16 + b.toNat / 16),
      sextetChar (b.toNat % 16 * 4), '=']
  | a :: b :: c :: rest =>
    sextetChar (a.toNat / 4) :: sextetChar (a.toNat % 4 * 16 + b.toNat / 16) ::
      sextetChar (b.toNat % 16 * 4 + c.toNat / 64) :: sextetChar (c.toNat % 64) :: encodeBytes rest

/-- Bytes of the sextets read so far; a rest of fewer than eight bits is dropped. -/
def packSextets : List Nat → Bytes
  | a :: b :: c :: d :: rest => UInt8.ofNat (a * 4 + b / 16) :: UInt8.ofNat (b % 16 * 16 + c / 4) ::
      UInt8.ofNat (c % 4 * 64 + d) :: packSextets rest
  | [a, b, c] => [UInt8.ofNat (a * 4 + b / 16), UInt8.ofNat (b % 16 * 16 + c / 4)]
  | [a, b] => [UInt8.ofNat (a * 4 + b / 16)]
  | _ => []

/-- Decoding stops at the padding and skips characters outside the alphabet. -/
def decodeChars (cs : List Char) : Bytes :=
  packSextets ((cs.takeWhile (· ≠ '=')).filterMap charSextet)

theorem charSextet_sextetChar :
    ∀ n < 64, charSextet (sextetChar n) = some n ∧ sextetChar n ≠ '=' := by
  decide +kernel

theorem sextets_cons {n : Nat} (h : n < 64) (cs : List Char) :
    ((sextetChar n :: cs).takeWhile (· ≠ '=')).filterMap charSextet =
      n :: (cs.takeWhile (· ≠ '=')).filterMap charSextet := by
  obtain ⟨hs, hne⟩ := charSextet_sextetChar n h
  rw [List.takeWhile_cons_of_pos (by simpa using hne), List.filterMap_cons_some hs]

theorem byte_of_toNat {a : UInt8} {n : Nat} (h : n = a.toNat) : UInt8.ofNat n = a := by
  rw [h, UInt8.ofNat_toNat]

theorem decode_encode (b : Bytes) : decodeChars (encodeBytes b) = b := by
  have hlt : ∀ a : UInt8, a.toNat < 256 := fun a => a.toNat_lt
  induction b using encodeBytes.induct with
  | case1 => rfl
  | case2 a =>
    have ha := hlt a
    rw [encodeBytes, decodeChars, sextets_cons (by omega), sextets_cons (by omega),
      List.takeWhile_cons_of_neg (by simp)]
    simp only [List.filterMap_nil, packSextets]
    rw [byte_of_toNat (a := a) (by omega)]
  | case3 a b =>
    have ha := hlt a
    have hb := hlt b
    rw [encodeBytes, decodeChars, sextets_cons (by omega), sextets_cons (by omega),
      sextets_cons (by omega), List.takeWhile_cons_of_neg (by simp)]
    simp only [List.filterMap_nil, packSextets]
    rw [byte_of_toNat (a := a) (by omega), byte_of_toNat (a := b) (by omega)]
  | case4 a b c rest ih =>
    have ha := hlt a
    have hb := hlt b
    have hc := hlt c
    rw [decodeChars] at ih
    rw [encodeBytes, decodeChars, sextets_cons (by omega), sextets_cons (by omega),
      sextets_cons (by omega), sextets_cons (by omega)]
    simp only [packSextets, ih]
    rw [byte_of_toNat (a := a) (by omega), byte_of_toNat (a := b) (by omega),
      byte_of_toNat (a := c) (by omega)]

/-! ## The runtime of a mode -/

def runtime (m : Mode) : Library where
  Cipher := Cipher
  Decipher := Decipher
  createCipheriv key iv := if goodKey key iv then .ok ⟨key, iv, []⟩ else .error .invalidKey
  cipherUpdate c b :=
    let out := mask (m.keystream c.key c.iv) c.ciphertext.length b
    (out, { c with ciphertext := c.ciphertext ++ out })
  cipherFinal c := ([], c)
  getAuthTag c := (m.tag c.key c.iv c.ciphertext).1
  createDecipheriv key iv := if goodKey key iv then .ok ⟨key, iv, [], none⟩ else .error .invalidKey
  decipherUpdate d b :=
    (mask (m.keystream d.key d.iv) d.ciphertext.length b,
      { d with ciphertext := d.ciphertext ++ b })
  setAuthTag d t :=
    if t.length ∈ tagLengths then .ok { d with tag := some t } else .error .invalidAuthTag
  decipherFinal := m.final
  toBase64 b := String.ofList (encodeBytes b)
  fromBase64 s := decodeChars s.toList

theorem runtime_streamLaws (m : Mode) : (runtime m).StreamLaws where
  update_nil d := by
    change (([] : Bytes), ({ d with ciphertext := d.ciphertext ++ [] } : Decipher)) = ([], d)
    rw [List.append_nil]
    rfl
  update_append d a b := by simp [runtime, mask_append, List.append_assoc]
  tag_late d a tag := by
    simp only [runtime]
    split <;> rfl
  tag_silent d a tag d' h := by
    simp only [runtime] at h ⊢
    split at h
    · cases h
      rfl
    · cases h

theorem goodKey_of_lengths {key iv : Bytes} (hk : key.length = 32) (hi : iv.length = 12) :
    goodKey key iv = true := by simp [goodKey, hk, hi]

theorem runtime_lawful (m : Mode) : (runtime m).Lawful where
  toStreamLaws := runtime_streamLaws m
  cipher_exists key iv hk hi := ⟨⟨key, iv, []⟩, if_pos (goodKey_of_lengths hk hi)⟩
  decipher_exists key iv hk hi := ⟨⟨key, iv, [], none⟩, if_pos (goodKey_of_lengths hk hi)⟩
  cipher_nil c := by
    change (([] : Bytes), ({ c with ciphertext := c.ciphertext ++ [] } : Cipher)) = ([], c)
    rw [List.append_nil]
    rfl
  cipher_append c a b := by simp [runtime, mask_append, mask_length, List.append_assoc]
  cipher_length c a := mask_length _ _ _
  final_nil c := rfl
  tag_length c := (m.tag c.key c.iv c.ciphertext).2
  undo key iv c d plain hc hd := by
    by_cases good : goodKey key iv = true
    · simp only [runtime, if_pos good] at hc hd
      cases hc
      cases hd
      have h16 : ∀ t : BytesOf 16, t.1.length ∈ tagLengths := fun t => by rw [t.2]; decide
      refine ⟨mask_mask _ _ _, _, if_pos (h16 (m.tag key iv _)), ?_⟩
      have hfull : ∀ t : BytesOf 16, t.1.take t.1.length = t.1 := fun t => List.take_length
      exact if_pos (hfull (m.tag key iv _))
    · simp only [runtime, if_neg good] at hc
      cases hc
  base64 b := by
    change decodeChars (String.ofList (encodeBytes b)).toList = b
    rw [String.toList_ofList, decode_encode]

/-! ## AES-256 and the tag -/

/-- Product in the field of 256 elements with the AES polynomial. -/
def fieldMul (a b : UInt8) : UInt8 :=
  let double (x : UInt8) : UInt8 := (x <<< 1) ^^^ (if x &&& 0x80 = 0 then 0 else 0x1b)
  let rec go : Nat → UInt8 → UInt8 → UInt8 → UInt8
    | 0, _, _, acc => acc
    | n + 1, x, y, acc => go n (double x) (y >>> 1) (if y &&& 1 = 0 then acc else acc ^^^ x)
  go 8 a b 0

def fieldInv (a : UInt8) : UInt8 :=
  let a2 := fieldMul a a
  let a3 := fieldMul a2 a
  let a12 := (List.range 2).foldl (fun x _ => fieldMul x x) a3
  let a15 := fieldMul a12 a3
  let a240 := (List.range 4).foldl (fun x _ => fieldMul x x) a15
  fieldMul (fieldMul a240 a12) a2

def rotate (a : UInt8) (n : UInt8) : UInt8 := (a <<< n) ||| (a >>> (8 - n))

def subByte (a : UInt8) : UInt8 :=
  let b := fieldInv a
  b ^^^ rotate b 1 ^^^ rotate b 2 ^^^ rotate b 3 ^^^ rotate b 4 ^^^ 0x63

def xorBytes (a b : Bytes) : Bytes := List.zipWith (· ^^^ ·) a b

/-- The next word of the key schedule from all words so far, newest first. -/
def nextWord (rcon : UInt8) (i : Nat) (words : List Bytes) : Bytes :=
  let last := words.headD []
  let temp :=
    if i % 8 = 0 then xorBytes ((last.rotateLeft 1).map subByte) [rcon, 0, 0, 0]
    else if i % 8 = 4 then last.map subByte
    else last
  xorBytes (words.getD 7 []) temp

def expandKey : Nat → Nat → UInt8 → List Bytes → List Bytes
  | 0, _, _, words => words.reverse
  | n + 1, i, rcon, words =>
    expandKey n (i + 1) (if i % 8 = 0 then fieldMul rcon 2 else rcon)
      (nextWord rcon i words :: words)

def groupsOf (n : Nat) : Nat → Bytes → List Bytes
  | 0, _ => []
  | k + 1, b => b.take n :: groupsOf n k (b.drop n)

def roundKeys (key : Bytes) : List Bytes :=
  groupsOf 16 15 (expandKey 52 8 1 (groupsOf 4 8 key).reverse).flatten

def shiftRows (s : Bytes) : Bytes :=
  (List.range 16).map fun i => s.getD ((i + 4 * (i % 4)) % 16) 0

def mixColumn (c : Bytes) : Bytes :=
  (List.range 4).map fun i =>
    fieldMul (c.getD i 0) 2 ^^^ fieldMul (c.getD ((i + 1) % 4) 0) 3 ^^^
      c.getD ((i + 2) % 4) 0 ^^^ c.getD ((i + 3) % 4) 0

def encryptBlock (key block : Bytes) : Bytes :=
  let keys := roundKeys key
  let first := xorBytes block (keys.headD [])
  let middle := (keys.tail.take 13).foldl (fun s k =>
    xorBytes ((groupsOf 4 4 (shiftRows (s.map subByte))).map mixColumn).flatten k) first
  xorBytes (shiftRows (middle.map subByte)) (keys.getD 14 [])

def toBlockNat (b : Bytes) : Nat := b.foldl (fun n x => n * 256 + x.toNat) 0

def ofBlockNat (n : Nat) : BytesOf 16 :=
  ⟨(List.range 16).map fun i => UInt8.ofNat (n / 256 ^ (15 - i)), by simp⟩

/-- Product in the field of the tag, most significant bit first. -/
def ghashMul (x y : Nat) : Nat :=
  ((List.range 128).foldl (fun (z, v) i =>
    (if x.testBit (127 - i) then z ^^^ v else z,
      if v.testBit 0 then (v / 2) ^^^ (0xe1 * 2 ^ 120) else v / 2)) (0, y)).1

def padBlock (b : Bytes) : Bytes := b ++ List.replicate ((16 - b.length % 16) % 16) 0

def ghash (h : Nat) (b : Bytes) : Nat :=
  (groupsOf 16 (b.length / 16) b).foldl (fun y x => ghashMul (y ^^^ toBlockNat x) h) 0

/-- The counter block of vector `iv`: 12 bytes are used as they are. -/
def firstCounter (h : Nat) (iv : Bytes) : Nat :=
  if iv.length = 12 then toBlockNat iv * 2 ^ 32 + 1
  else ghash h (padBlock iv ++ (ofBlockNat (8 * iv.length)).1)

def counterAt (j n : Nat) : Nat := j / 2 ^ 32 * 2 ^ 32 + (j + n) % 2 ^ 32

def aesGcm : Mode where
  keystream key iv :=
    let h := toBlockNat (encryptBlock key (ofBlockNat 0).1)
    let j := firstCounter h iv
    fun n => (encryptBlock key (ofBlockNat (counterAt j (n / 16 + 1))).1).getD (n % 16) 0
  tag key iv ciphertext :=
    let h := toBlockNat (encryptBlock key (ofBlockNat 0).1)
    let j := firstCounter h iv
    ofBlockNat (ghash h (padBlock ciphertext ++ (ofBlockNat (8 * ciphertext.length)).1) ^^^
      toBlockNat (encryptBlock key (ofBlockNat j).1))

/-- The reference runtime. -/
def node : Library := runtime aesGcm

theorem node_lawful : node.Lawful := runtime_lawful aesGcm

end GaloisCounter
