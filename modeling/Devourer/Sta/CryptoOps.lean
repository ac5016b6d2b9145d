-- The crypto primitives that the station code calls and does not
-- implement. Each call answers with its output buffer or fails.
import Devourer.Lib.Octets

namespace devourer.sta

/-- `struct CryptoOps`: deterministic functions that may fail. The lengths
are those of the buffers that the callers hand over. -/
structure CryptoOps where
  /-- `aes_ccm` with `encrypt` set: the ciphertext and the tag. -/
  aes_ccm_encrypt : (key : Octets 16) → (nonce : Octets 13) → (aad input : Bytes) →
    Option (Bytes × Octets 8)
  /-- `aes_ccm` with `encrypt` clear: the plaintext, when the tag verifies. -/
  aes_ccm_decrypt : (key : Octets 16) → (nonce : Octets 13) → (aad input : Bytes) →
    (tag : Octets 8) → Option Bytes
  hmac_sha1 : (key data : Bytes) → Option (Octets 20)
  pbkdf2_sha1 : (passphrase salt : Bytes) → (iterations out_len : Nat) → Option (Octets out_len)
  aes_key_unwrap : (kek input : Bytes) → Option Bytes
  encrypt_length : ∀ {key nonce aad input c t},
    aes_ccm_encrypt key nonce aad input = some (c, t) → c.length = input.length
  decrypt_length : ∀ {key nonce aad input tag p},
    aes_ccm_decrypt key nonce aad input tag = some p → p.length = input.length
  unwrap_length : ∀ {kek input p},
    aes_key_unwrap kek input = some p → p.length = input.length - 8

/-! ## A stand-in for concrete runs -/

namespace CryptoOps

/-- A checksum of a keyed message, stretched over 20 bytes. -/
def standInDigest (key data : Bytes) : Octets 20 :=
  let sum := (key ++ data).foldl (fun a b => (a * 31 + b.toNat + 1) % 65521) 7
  ⟨(List.range 20).map fun i => (sum * (i + 1) % 251).toUInt8, by simp⟩

def standInTag (key : Octets 16) (nonce : Octets 13) (aad input : Bytes) : Octets 8 :=
  Octets.slice (standInDigest key.val (nonce.val ++ aad ++ input)).val 0 8

/-- Keyed checksums in place of the ciphers: a tag or an integrity value that is not the
right one fails, as with the real primitives. -/
def standIn : CryptoOps where
  aes_ccm_encrypt key nonce aad input := some (input, standInTag key nonce aad input)
  aes_ccm_decrypt key nonce aad input tag :=
    if tag = standInTag key nonce aad input then some input else none
  hmac_sha1 key data := some (standInDigest key data)
  pbkdf2_sha1 passphrase salt _ out_len :=
    some (Octets.slice (standInDigest passphrase salt).val 0 out_len)
  aes_key_unwrap kek input :=
    if input.take 8 = (standInDigest kek (input.drop 8)).val.take 8 then some (input.drop 8)
    else none
  encrypt_length h := by
    simp only [Option.some.injEq, Prod.mk.injEq] at h
    rw [h.1]
  decrypt_length h := by
    split at h
    · simp only [Option.some.injEq] at h
      rw [h]
    · simp at h
  unwrap_length h := by
    split at h
    · simp only [Option.some.injEq] at h
      rw [← h, List.length_drop]
    · simp at h

/-- The wrapped form of key data that `standIn` unwraps again. -/
def standInWrap (kek plain : Bytes) : Bytes := (standInDigest kek plain).val.take 8 ++ plain

end CryptoOps

end devourer.sta
