/-
The FIPS encryptor (`fips_mode.py`): AES-256-GCM directly under the key, with the lengths of key and nonce checked first.

- `decrypt_ok_iff`: what it takes for a decryption to return.
-/
import AbirGuard.Core.Raise
import AbirGuard.Python.Lang

namespace AbirGuard.Python

open AbirGuard.Core Raise

structure FipsOperation where
  operation : String
  dataSize : ℕ
  timestamp : ℚ
  fipsMode : Bool
deriving DecidableEq

structure FIPSEncryptor where
  operationLog : List FipsOperation
deriving DecidableEq

structure FipsResult where
  nonce : Bytes
  ciphertext : Bytes
  authTag : Bytes
deriving DecidableEq

def MIN_AES_KEY_BITS : ℕ := 256

def REQUIRED_NONCE_BITS : ℕ := 96

def validateAesKey (key : Bytes) : Except Exc Unit :=
  if key.length * 8 < MIN_AES_KEY_BITS then
    .error ⟨.fipsModeError, s!"AES key too short: {key.length * 8} bits (minimum {MIN_AES_KEY_BITS})"⟩
  else .ok ()

def validateNonce (nonce : Bytes) : Except Exc Unit :=
  if nonce.length * 8 ≠ REQUIRED_NONCE_BITS then
    .error ⟨.fipsModeError, s!"Invalid nonce length: {nonce.length * 8} bits (required {REQUIRED_NONCE_BITS})"⟩
  else .ok ()

theorem validateAesKey_ok_iff {key : Bytes} {u : Unit} : validateAesKey key = .ok u ↔ 32 ≤ key.length := by
  unfold validateAesKey MIN_AES_KEY_BITS
  split_ifs with h
  · exact iff_of_false (fun he => by cases he) (by omega)
  · exact iff_of_true rfl (by omega)

theorem validateNonce_ok_iff {nonce : Bytes} {u : Unit} : validateNonce nonce = .ok u ↔ nonce.length = 12 := by
  unfold validateNonce REQUIRED_NONCE_BITS
  split_ifs with h
  · exact iff_of_false (fun he => by cases he) (by omega)
  · exact iff_of_true rfl (by omega)

namespace FIPSEncryptor

variable (l : Libs) (η : Host)

def new : FIPSEncryptor := ⟨[]⟩

def logOperation (operation : String) (dataSize : ℕ) : Raise Exc FIPSEncryptor Unit :=
  modify fun f => { f with operationLog := f.operationLog ++ [⟨operation, dataSize, η.clock .operation, true⟩] }

def encrypt (plaintext key : Bytes) : Raise Exc FIPSEncryptor FipsResult := do
  lift (validateAesKey key)
  let nonce := η.nonce.toList
  lift (validateNonce nonce)
  let ctAndTag ← lift (AESGCM.encrypt l key nonce plaintext)
  logOperation η "encrypt" plaintext.length
  return { nonce := nonce, ciphertext := ctAndTag.take (ctAndTag.length - 16), authTag := ctAndTag.drop (ctAndTag.length - 16) }

def decrypt (ciphertext authTag nonce key : Bytes) : Raise Exc FIPSEncryptor Bytes := do
  lift (validateAesKey key)
  lift (validateNonce nonce)
  let plaintext ← lift (AESGCM.decrypt l key nonce (ciphertext ++ authTag))
  logOperation η "decrypt" plaintext.length
  return plaintext

variable {l η}

/-- a decryption returns exactly on an authentic ciphertext under a key of 32 bytes and a nonce of 12 -/
theorem decrypt_ok_iff {ciphertext authTag nonce key p : Bytes} {f : FIPSEncryptor} :
    (run (decrypt l η ciphertext authTag nonce key) f).1 = .ok p ↔
      key.length = 32 ∧ nonce.length = 12 ∧ l.gcmDecrypt key nonce (ciphertext ++ authTag) = some p := by
  simp only [decrypt, lift_bind_ok_iff, validateAesKey_ok_iff, validateNonce_ok_iff, AESGCM.decrypt_ok_iff]
  constructor
  · rintro ⟨-, hk, -, hn, q, ⟨hsize, -, hq⟩, hr⟩
    cases hr
    exact ⟨by omega, hn, hq⟩
  · rintro ⟨hk, hn, hq⟩
    exact ⟨⟨⟩, by omega, ⟨⟩, hn, p, ⟨by omega, by omega, hq⟩, rfl⟩

end FIPSEncryptor

end AbirGuard.Python
