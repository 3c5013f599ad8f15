/-
The key list and the encryptor: `HybridEncryptor` and `Vault` of `src/quantum_kernel.rs`.

The crates the code calls are arguments, collected in `Crates`: base64, AES-256-GCM, HKDF and the encapsulation key of an
ML-KEM seed. What the machine supplies to a call (random bytes, elapsed time) is a `Draw`. A method of `Vault` returns its
outcome and the vault after the call, so that a panic inside a critical section leaves the poisoned lock behind.

- `store_of`, `retrieve_of_get`, `retrieve_of_none`: what the operations do to an unpoisoned key
  list, in terms of `Table`.
- `decrypt_encrypt`: the encryptor opens what it sealed; `decrypt_encrypt_ne`: under another key it reports an error.
- `decrypt_panics_iff`: `decrypt` panics exactly on a nonce that decodes to a number of bytes other than 12.
-/
import AbirGuard.Core.Aead
import AbirGuard.Core.Table

namespace AbirGuard.Rust

open AbirGuard.Core

/-! ## Model -/

structure KeyPair where
  publicKey : String
  secretKey : String
deriving DecidableEq, Repr

structure Ciphertext where
  nonce : String
  ciphertext : String
  keyId : String
deriving DecidableEq, Repr

/-- the crates that the kernel calls -/
structure Crates (Key : Type) where
  base64 : Codec Bytes String
  aead : Aead Key
  /-- HKDF with SHA3-256: salt, input key material, info -/
  hkdf : Bytes → Bytes → Bytes → Key
  /-- the bytes of the ML-KEM-1024 encapsulation key of a seed -/
  encapsulationKey : Bytes → Bytes

structure Crates.Correct {Key : Type} (c : Crates Key) : Prop where
  base64 : c.base64.Lawful
  aead : c.aead.Correct

/-- what the machine supplies to one call -/
structure Draw where
  /-- the seed of a new key pair -/
  seed : Bytes
  nonce : Nonce
  /-- milliseconds from the start of an encryption or a decryption to its end -/
  elapsed : ℕ

def DOMAIN : Bytes := utf8 "Abir-Guard-Hybrid-2026"

/-- security watchdog threshold -/
def HANDSHAKE_TIMEOUT_MS : ℕ := 200

/-- an entry of the key list: id, key pair in text form, secret -/
abbrev Entry := String × KeyPair × Bytes

structure Vault where
  keys : Mutex (List Entry)

def Vault.new : Vault := ⟨Mutex.new []⟩

/-- an unpoisoned vault -/
abbrev Vault.of (t : List Entry) : Vault := ⟨⟨t, false⟩⟩

section

variable {Key : Type} (c : Crates Key)

def keygen (seed : Bytes) : KeyPair × Bytes :=
  (⟨c.base64.encode (c.encapsulationKey seed), c.base64.encode seed⟩, seed)

/-- the AES key of a secret -/
def aesKey (secret : Bytes) : Key := c.hkdf DOMAIN secret (utf8 "aes-key")

def encrypt (δ : Draw) (plaintext secret : Bytes) : Outcome Ciphertext :=
  let ciphertext := c.aead.encrypt (aesKey c secret) δ.nonce plaintext
  if δ.elapsed > HANDSHAKE_TIMEOUT_MS then
    Outcome.panic s!"Security watchdog: encryption took {δ.elapsed}ms (threshold: {HANDSHAKE_TIMEOUT_MS}ms). Potential side-channel attack."
  else .ok ⟨c.base64.encode δ.nonce.toList, c.base64.encode ciphertext, ""⟩

def decrypt (elapsed : ℕ) (ct : Ciphertext) (secret : Bytes) : Outcome (Except String Bytes) :=
  match c.base64.decode ct.nonce with
  | .error e => .ok (.error e)
  | .ok nonce => do
    let nonce ← nonceFromSlice nonce
    match c.base64.decode ct.ciphertext with
    | .error e => .ok (.error e)
    | .ok ciphertext =>
      match c.aead.decrypt (aesKey c secret) nonce ciphertext with
      | none => .ok (.error "aead::Error")
      | some plaintext =>
        if elapsed > HANDSHAKE_TIMEOUT_MS then
          .ok (.error s!"Security watchdog: decryption took {elapsed}ms (threshold: {HANDSHAKE_TIMEOUT_MS}ms)")
        else .ok (.ok plaintext)

namespace Vault

/-- the first entry whose id has these bytes -/
def find (keys : List Entry) (keyId : Bytes) : Option Entry := keys.find? fun e => utf8 e.1 = keyId

/-- returns the public and the secret key, in text form -/
def generateKeypair (v : Vault) (keyId : String) (seed : Bytes) : Outcome (String × String) × Vault :=
  let (kp, sk) := keygen c seed
  match v.keys.lock with
  | .error p => (.error p, v)
  | .ok keys => (.ok (kp.publicKey, kp.secretKey), { v with keys := { v.keys with data := keys ++ [(keyId, kp, sk)] } })

def store (v : Vault) (keyId plaintext : Bytes) (δ : Draw) : Outcome (Except String Ciphertext) × Vault :=
  match fromUtf8 keyId with
  | none => (.ok (.error (utf8Error keyId)), v)
  | some keyIdStr =>
    match v.keys.lock with
    | .error p => (.error p, v)
    | .ok keys =>
      match find keys keyId with
      | some (_, _, sk) => (.ok <$> encrypt c δ plaintext sk, v)
      | none =>
        -- an unknown id gets a key of its own
        let (kp, sk) := keygen c δ.seed
        (.ok <$> encrypt c δ plaintext sk, { v with keys := { v.keys with data := keys ++ [(keyIdStr, kp, sk)] } })

/-- the lock is held over the decryption -/
def retrieve (v : Vault) (keyId : Bytes) (ct : Ciphertext) (elapsed : ℕ) : Outcome (Except String Bytes) × Vault :=
  match v.keys.lock with
  | .error p => (.error p, v)
  | .ok keys =>
    match find keys keyId with
    | none => (.ok (.error "Key not found"), v)
    | some (_, _, sk) =>
      let o := decrypt c elapsed ct sk
      (o, { v with keys := v.keys.release o })

def listKeypairs (v : Vault) : Outcome (List String) := (fun keys => keys.map fun e => e.1) <$> v.keys.lock

def removeKeypair (v : Vault) (keyId : String) : Outcome Unit × Vault :=
  match v.keys.lock with
  | .error p => (.error p, v)
  | .ok keys => (.ok (), { v with keys := { v.keys with data := keys.filter fun e => e.1 ≠ keyId } })

/-- id, public key and secret key of every entry -/
def exportKeys (v : Vault) : Outcome (List (String × String × String)) :=
  (fun keys => keys.map fun e => (e.1, e.2.1.publicKey, e.2.1.secretKey)) <$> v.keys.lock

/-- replaces the id if it exists -/
def importKey (v : Vault) (keyId publicKey secretKeyB64 : String) : Outcome (Except String Unit) × Vault :=
  match c.base64.decode secretKeyB64 with
  | .error e => (.ok (.error e), v)
  | .ok sk =>
    match v.keys.lock with
    | .error p => (.error p, v)
    | .ok keys =>
      (.ok (.ok ()), { v with
        keys := { v.keys with data := (keys.filter fun e => e.1 ≠ keyId) ++ [(keyId, ⟨publicKey, secretKeyB64⟩, sk)] } })

end Vault

/-! ## The encryptor -/

variable {c}

theorem encrypt_ok {δ : Draw} (h : δ.elapsed ≤ HANDSHAKE_TIMEOUT_MS) (plaintext secret : Bytes) :
    encrypt c δ plaintext secret = .ok ⟨c.base64.encode δ.nonce.toList,
      c.base64.encode (c.aead.encrypt (aesKey c secret) δ.nonce plaintext), ""⟩ :=
  if_neg (Nat.not_lt.2 h)

/-- an encryption returns if and only if the handshake is in time -/
theorem encrypt_ok_iff {δ : Draw} {plaintext secret : Bytes} {ct : Ciphertext} :
    encrypt c δ plaintext secret = .ok ct ↔ δ.elapsed ≤ HANDSHAKE_TIMEOUT_MS ∧ ct = ⟨c.base64.encode δ.nonce.toList,
      c.base64.encode (c.aead.encrypt (aesKey c secret) δ.nonce plaintext), ""⟩ := by
  by_cases hδ : δ.elapsed ≤ HANDSHAKE_TIMEOUT_MS
  · rw [encrypt_ok hδ, Except.ok.injEq, eq_comm, and_iff_right hδ]
  · rw [encrypt, if_pos (Nat.lt_of_not_le hδ)]
    exact iff_of_false (fun h => by cases h) fun h => hδ h.1

theorem decrypt_encrypt (hc : c.Correct) {δ : Draw} {plaintext secret : Bytes} {ct : Ciphertext}
    (h : encrypt c δ plaintext secret = .ok ct) {elapsed : ℕ} (he : elapsed ≤ HANDSHAKE_TIMEOUT_MS) (keyId : String) :
    decrypt c elapsed { ct with keyId := keyId } secret = .ok (.ok plaintext) := by
  obtain ⟨-, rfl⟩ := encrypt_ok_iff.1 h
  simp only [decrypt, hc.base64 _, nonceFromSlice_toList, Outcome.ok_bind, hc.aead.decrypt_encrypt,
    if_neg (Nat.not_lt.2 he)]

theorem decrypt_encrypt_ne (hc : c.Correct) (hk : c.aead.Committing) {δ : Draw} {plaintext secret secret' : Bytes}
    {ct : Ciphertext} (h : encrypt c δ plaintext secret = .ok ct) (hne : aesKey c secret ≠ aesKey c secret')
    (elapsed : ℕ) (keyId : String) : decrypt c elapsed { ct with keyId := keyId } secret' = .ok (.error "aead::Error") := by
  obtain ⟨-, rfl⟩ := encrypt_ok_iff.1 h
  simp only [decrypt, hc.base64 _, nonceFromSlice_toList, Outcome.ok_bind, hk _ _ δ.nonce plaintext hne]

theorem decrypt_panics_iff (elapsed : ℕ) (ct : Ciphertext) (secret : Bytes) :
    (∃ p, decrypt c elapsed ct secret = .error p) ↔ ∃ nonce, c.base64.decode ct.nonce = .ok nonce ∧ nonce.length ≠ 12 := by
  constructor
  · rintro ⟨p, hp⟩
    unfold decrypt at hp
    cases hn : c.base64.decode ct.nonce with
    | error e =>
      rw [hn] at hp
      cases hp
    | ok nonce =>
      refine ⟨nonce, rfl, fun hl => ?_⟩
      obtain ⟨n, hn'⟩ := nonceFromSlice_ok_iff.2 hl
      simp only [hn, hn', Outcome.ok_bind] at hp
      split at hp
      · cases hp
      · split at hp
        · cases hp
        · split at hp <;> cases hp
  · rintro ⟨nonce, hn, hl⟩
    refine ⟨⟨"assertion `left == right` failed"⟩, ?_⟩
    simp only [decrypt, hn, nonceFromSlice, dif_neg hl]
    rfl

/-! ## The key list -/

namespace Vault

/-- the key that an id has, or gets from a seed -/
def keyFor (c : Crates Key) (seed : Bytes) (t : List Entry) (id : String) : KeyPair × Bytes :=
  (Table.get id t).getD (keygen c seed)

/-- the key list in which an id has a key -/
def withKey (c : Crates Key) (seed : Bytes) (t : List Entry) (id : String) : List Entry :=
  if (Table.get id t).isSome then t else Table.add id (keygen c seed) t

theorem get_withKey_self (seed : Bytes) (t : List Entry) (id : String) :
    Table.get id (withKey c seed t id) = some (keyFor c seed t id) := by
  unfold withKey keyFor
  cases h : Table.get id t with
  | some b => simp [h]
  | none => simp [Table.get_add_self h]

theorem get_withKey_of_ne {id id' : String} (hne : id' ≠ id) (seed : Bytes) (t : List Entry) :
    Table.get id (withKey c seed t id') = Table.get id t := by
  unfold withKey
  split_ifs
  · rfl
  · exact Table.get_add_of_ne hne _ t

theorem unique_withKey {t : List Entry} (h : Table.Unique t) (seed : Bytes) (id : String) :
    Table.Unique (withKey c seed t id) := by
  unfold withKey
  split_ifs with hs
  · exact h
  · exact Table.unique_add h (by simpa using hs) _

theorem find_utf8 (keys : List Entry) (id : String) : find keys (utf8 id) = (Table.get id keys).map fun b => (id, b) := by
  have hf : find keys (utf8 id) = keys.find? fun e => e.1 = id := by simp [find, utf8_inj]
  rw [hf, Table.get, Option.map_map]
  cases h : keys.find? fun e => decide (e.1 = id) with
  | none => rfl
  | some e =>
    have : e.1 = id := by simpa using List.find?_some h
    simp [← this]

variable (t : List Entry) (id : String)

theorem generateKeypair_of (seed : Bytes) :
    (Vault.of t).generateKeypair c id seed =
      (.ok ((keygen c seed).1.publicKey, (keygen c seed).1.secretKey), .of (Table.add id (keygen c seed) t)) := rfl

variable {t id}

/-- storing uses the key of the id, or gives it one -/
theorem store_of (t : List Entry) (id : String) (plaintext : Bytes) (δ : Draw) :
    (Vault.of t).store c (utf8 id) plaintext δ =
      (.ok <$> encrypt c δ plaintext (keyFor c δ.seed t id).2, .of (withKey c δ.seed t id)) := by
  cases h : Table.get id t with
  | some b => simp [store, find_utf8, h, keyFor, withKey]
  | none => simp [store, find_utf8, h, keyFor, withKey, Table.add, keygen]

theorem retrieve_of_get {kp : KeyPair} {sk : Bytes} (h : Table.get id t = some (kp, sk)) (ct : Ciphertext) (elapsed : ℕ) :
    (Vault.of t).retrieve c (utf8 id) ct elapsed =
      (decrypt c elapsed ct sk, ⟨(Mutex.mk t false).release (decrypt c elapsed ct sk)⟩) := by
  simp [retrieve, find_utf8, h]

theorem retrieve_of_none (h : Table.get id t = none) (ct : Ciphertext) (elapsed : ℕ) :
    (Vault.of t).retrieve c (utf8 id) ct elapsed = (.ok (.error "Key not found"), .of t) := by
  simp [retrieve, find_utf8, h]

variable (t id)

theorem removeKeypair_of : (Vault.of t).removeKeypair id = (.ok (), .of (Table.remove id t)) := rfl

theorem importKey_of {secretKeyB64 : String} {sk : Bytes} (h : c.base64.decode secretKeyB64 = .ok sk)
    (publicKey : String) : (Vault.of t).importKey c id publicKey secretKeyB64 =
      (.ok (.ok ()), .of (Table.put id (⟨publicKey, secretKeyB64⟩, sk) t)) := by
  simp only [importKey, h, Mutex.lock_mk_false]
  rfl

theorem importKey_of_error {secretKeyB64 : String} {e : String} (h : c.base64.decode secretKeyB64 = .error e)
    (v : Vault) (publicKey : String) : v.importKey c id publicKey secretKeyB64 = (.ok (.error e), v) := by
  simp only [importKey, h]

end Vault

end

end AbirGuard.Rust
