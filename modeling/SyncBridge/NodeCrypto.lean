import SyncBridge.ChunkTransforms

/-!
# The cipher objects of the runtime

`createCipheriv` and `createDecipheriv` for `aes-256-gcm`, and the base64 codec
of `Buffer`, as an interface with opaque cipher objects. `Lawful` lists what is
relied upon: `update` is a length-preserving homomorphism of streams, `final` of
a cipher emits nothing, the tag can be set at any point before `final`, and a
decipher under the same key and initialisation vector undoes the cipher.
-/

namespace NodeCrypto

open ChunkTransforms

/-- Errors thrown by cipher objects and by the code that drives them. -/
inductive CipherError where
  | invalidKey
  | invalidAuthTag
  | unauthenticated
  | other (message : String)
  deriving DecidableEq, Repr

structure Library where
  Cipher : Type
  Decipher : Type
  createCipheriv : (key iv : Bytes) → Except CipherError Cipher
  cipherUpdate : Cipher → Bytes → Bytes × Cipher
  cipherFinal : Cipher → Bytes × Cipher
  getAuthTag : Cipher → Bytes
  createDecipheriv : (key iv : Bytes) → Except CipherError Decipher
  decipherUpdate : Decipher → Bytes → Bytes × Decipher
  setAuthTag : Decipher → Bytes → Except CipherError Decipher
  decipherFinal : Decipher → Except CipherError Bytes
  toBase64 : Bytes → String
  fromBase64 : String → Bytes

namespace Library
variable (L : Library)

/-- Deciphering is a stream homomorphism and the tag commutes with it. -/
structure StreamLaws : Prop where
  update_nil : ∀ d, L.decipherUpdate d [] = ([], d)
  update_append : ∀ d a b, L.decipherUpdate d (a ++ b) =
    ((L.decipherUpdate d a).1 ++ (L.decipherUpdate (L.decipherUpdate d a).2 b).1,
      (L.decipherUpdate (L.decipherUpdate d a).2 b).2)
  tag_late : ∀ d a tag, L.setAuthTag (L.decipherUpdate d a).2 tag =
    (L.setAuthTag d tag).map fun d' => (L.decipherUpdate d' a).2
  tag_silent : ∀ d a tag d', L.setAuthTag d tag = .ok d' →
    (L.decipherUpdate d' a).1 = (L.decipherUpdate d a).1

/-- Everything assumed of the runtime. -/
structure Lawful : Prop extends StreamLaws L where
  cipher_exists : ∀ key iv, key.length = 32 → iv.length = 12 → ∃ c, L.createCipheriv key iv = .ok c
  decipher_exists : ∀ key iv, key.length = 32 → iv.length = 12 →
    ∃ d, L.createDecipheriv key iv = .ok d
  cipher_nil : ∀ c, L.cipherUpdate c [] = ([], c)
  cipher_append : ∀ c a b, L.cipherUpdate c (a ++ b) =
    ((L.cipherUpdate c a).1 ++ (L.cipherUpdate (L.cipherUpdate c a).2 b).1,
      (L.cipherUpdate (L.cipherUpdate c a).2 b).2)
  cipher_length : ∀ c a, (L.cipherUpdate c a).1.length = a.length
  final_nil : ∀ c, (L.cipherFinal c).1 = []
  tag_length : ∀ c, (L.getAuthTag c).length = 16
  undo : ∀ key iv c d plain, L.createCipheriv key iv = .ok c → L.createDecipheriv key iv = .ok d →
    (L.decipherUpdate d (L.cipherUpdate c plain).1).1 = plain ∧
      ∃ d', L.setAuthTag (L.decipherUpdate d (L.cipherUpdate c plain).1).2
        (L.getAuthTag (L.cipherFinal (L.cipherUpdate c plain).2).2) = .ok d' ∧
        L.decipherFinal d' = .ok []
  base64 : ∀ b, L.fromBase64 (L.toBase64 b) = b

end Library

end NodeCrypto
