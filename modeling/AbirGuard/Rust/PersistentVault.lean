/-
The encrypted key file: `src/persistent_vault.rs`, with `kdf::derive_key` and the parts of `src/ml_dsa.rs` it calls.

A file is missing, unreadable or present. Reading and writing are explicit: `getVault` takes the file as the command finds
it, `persist` returns the disk after the write, and what the machine supplies to a command (salts, nonces, the fate of its
write) is its `CmdDraw`. The crates below the file format (Argon2id, serde_json, ML-DSA) join those of the kernel in
`VaultCrates`.

- `unlock_sealBlob`: a blob opens under the passphrase it was written under; `unlock_sealBlob_ne`: it does not open under a
  passphrase that derives another key.
- `getVault_eq`: `getVault` always returns, and the key list it returns is `loaded`: the stored entries put one after
  another, or nothing where the file does not yield them.
- `unique_loaded`, `coherent_loaded`: a loaded list repeats no id, and every secret is the decoded form of its text.
- `loaded_keysBlob`: a persisted key list is loaded back entry after entry.
- `loadAdditionalKeys_of_loaded`: reading the same file again adds nothing.
-/
import AbirGuard.Rust.Kernel

namespace AbirGuard.Rust

open AbirGuard.Core

/-! ## Model -/

structure StoredKey where
  keyId : String
  publicKey : String
  secretKey : String
deriving DecidableEq, Repr

structure StoredMldsaKey where
  keyId : String
  signingKeyB64 : String
  verifyingKeyB64 : String
deriving DecidableEq, Repr

structure MldsaKeypair where
  signingKey : Bytes
  verifyingKey : Bytes
deriving DecidableEq, Repr

/-- the ML-DSA-65 crate, on key and signature bytes -/
structure Fips204 where
  /-- verifying key and signing key of a seed -/
  tryKeygen : Bytes → Except String (Bytes × Bytes)
  /-- whether the bytes are a signing key -/
  privateKeyFromBytes : Bytes → Except String Unit
  publicKeyFromBytes : Bytes → Except String Unit
  /-- signing key, randomness, data -/
  trySign : Bytes → Bytes → Bytes → Except String Bytes
  /-- verifying key, data, signature -/
  verify : Bytes → Bytes → Bytes → Bool

/-- the crates that the key files need besides those of the kernel -/
structure VaultCrates (Key : Type) extends Crates Key where
  /-- Argon2id with the parameters of `kdf.rs`: passphrase, salt -/
  argon2id : Bytes → Bytes → Key
  json : Codec (List StoredKey) Bytes
  mldsaJson : Codec (List StoredMldsaKey) Bytes
  fips204 : Fips204
  sha3_512 : Bytes → Bytes
  /-- the Unicode property behind `char::is_alphanumeric` -/
  isAlphanumeric : Char → Bool

structure VaultCrates.Correct {Key : Type} (c : VaultCrates Key) : Prop extends c.toCrates.Correct where
  json : c.json.Lawful
  mldsaJson : c.mldsaJson.Lawful

/-- a file as a command finds it -/
inductive File where
  | missing
  | unreadable (e : String)
  | present (blob : Bytes)
deriving DecidableEq, Repr

structure Disk where
  keys : File
  mldsaKeys : File
deriving DecidableEq, Repr

/-- what becomes of a write: done, or failed with whatever it leaves behind -/
inductive Write where
  | done
  | failed (e : String) (left : File)
deriving DecidableEq, Repr

/-- the file after a write -/
def Write.file (blob : Bytes) : Write → File
  | .done => .present blob
  | .failed _ left => left

/-- what the machine supplies to one command -/
structure CmdDraw extends Draw where
  salt : Vector UInt8 16
  /-- the nonce of the file -/
  fileNonce : Nonce
  write : Write
  mldsaSeed : Bytes
  signRandom : Bytes
  stdin : String
  /-- the coefficient bytes of `shamir::split` -/
  shamirRandom : ℕ → ℕ → UInt8

def SALT_LENGTH : ℕ := 16

section

variable {Key : Type} (c : VaultCrates Key)

def deriveKeyWithSalt (passphrase : String) (salt : Bytes) : Key := c.argon2id (utf8 passphrase) salt

/-- nonce and ciphertext -/
def encryptData (nonce : Nonce) (data : Bytes) (key : Key) : Bytes := nonce.toList ++ c.aead.encrypt key nonce data

def decryptData (blob : Bytes) (key : Key) : Outcome (Except String Bytes) :=
  if blob.length < 12 + 16 then .ok (.error "Encrypted blob too short")
  else do
    let nonce ← nonceFromSlice (blob.take 12)
    match c.aead.decrypt key nonce (blob.drop 12) with
    | none => .ok (.error "Decryption failed: aead::Error")
    | some data => .ok (.ok data)

/-- the part that the three loaders share: salt, nonce and ciphertext to the data -/
def unlock (passphrase : String) (blob : Bytes) : Outcome (Except String Bytes) :=
  if blob.length < SALT_LENGTH + 12 + 16 then .ok (.error "Encrypted blob too short")
  else decryptData c (blob.drop SALT_LENGTH) (deriveKeyWithSalt c passphrase (blob.take SALT_LENGTH))

/-- the part that the two writers share: data to salt, nonce and ciphertext -/
def sealBlob (passphrase : String) (δ : CmdDraw) (data : Bytes) : Bytes :=
  δ.salt.toList ++ encryptData c δ.fileNonce data (deriveKeyWithSalt c passphrase δ.salt.toList)

/-! ### The key file -/

/-- an import whose result is dropped -/
def importStored (v : Vault) (key : StoredKey) : Outcome Vault :=
  let (o, v') := v.importKey c.toCrates key.keyId key.publicKey key.secretKey
  (fun _ => v') <$> o

/-- every failure to read the keys gives the empty vault -/
def getVault (passphrase : String) (file : File) : Outcome Vault :=
  match file with
  | .missing => .ok .new
  | .unreadable _ => .ok .new
  | .present blob => do
    match ← unlock c passphrase blob with
    | .error _ => .ok .new
    | .ok data =>
      match c.json.decode data with
      | .error _ => .ok .new
      | .ok stored => stored.foldlM (importStored c) .new

def toStored (e : String × String × String) : StoredKey := ⟨e.1, e.2.1, e.2.2⟩

def persist (v : Vault) (passphrase : String) (δ : CmdDraw) (disk : Disk) : Outcome Disk := do
  let exported ← v.exportKeys
  let data := c.json.encode (exported.map toStored)
  .ok { disk with keys := δ.write.file (sealBlob c passphrase δ data) }

def storeEncrypted (v : Vault) (keyId : String) (plaintext : Bytes) (passphrase : String) (δ : CmdDraw) (disk : Disk) :
    Outcome (Except String Ciphertext × Disk) := do
  let (o, v') := v.store c.toCrates (utf8 keyId) plaintext δ.toDraw
  match ← o with
  | .error e => .ok (.error e, disk)
  | .ok ct => do
    let disk ← persist c v' passphrase δ disk
    .ok (.ok ct, disk)

/-- only ids that the vault does not have yet -/
def loadAdditionalKeys (v : Vault) (passphrase : String) (file : File) : Outcome Vault :=
  match file with
  | .missing => .ok v
  | .unreadable _ => .ok v
  | .present blob => do
    match ← unlock c passphrase blob with
    | .error _ => .ok v
    | .ok data =>
      match c.json.decode data with
      | .error _ => .ok v
      | .ok stored => do
        let existing ← v.listKeypairs
        stored.foldlM (fun v key => if key.keyId ∈ existing then .ok v else importStored c v key) v

def retrieveDecrypted (v : Vault) (keyId : String) (ct : Ciphertext) (passphrase : String) (elapsed : ℕ) (file : File) :
    Outcome (Except String Bytes) := do
  let v ← loadAdditionalKeys c v passphrase file
  (v.retrieve c.toCrates (utf8 keyId) ct elapsed).1

/-! ### The ML-DSA key file -/

def toStoredMldsa (e : String × MldsaKeypair) : StoredMldsaKey :=
  ⟨e.1, c.base64.encode e.2.signingKey, c.base64.encode e.2.verifyingKey⟩

def fromStoredMldsa (s : StoredMldsaKey) : Except String (String × MldsaKeypair) := do
  let signingKey ← c.base64.decode s.signingKeyB64
  let verifyingKey ← c.base64.decode s.verifyingKeyB64
  .ok (s.keyId, ⟨signingKey, verifyingKey⟩)

/-- the file is overwritten with exactly the given key pairs -/
def persistMldsaKeys (keypairs : List (String × MldsaKeypair)) (passphrase : String) (δ : CmdDraw) (disk : Disk) :
    Except String Unit × Disk :=
  let data := c.mldsaJson.encode (keypairs.map (toStoredMldsa c))
  let disk := { disk with mldsaKeys := δ.write.file (sealBlob c passphrase δ data) }
  match δ.write with
  | .done => (.ok (), disk)
  | .failed e _ => (.error e, disk)

def loadMldsaKeys (passphrase : String) (file : File) : Outcome (Except String (List (String × MldsaKeypair))) :=
  match file with
  | .missing => .ok (.error "ML-DSA keys file not found")
  | .unreadable e => .ok (.error e)
  | .present blob => do
    match ← unlock c passphrase blob with
    | .error e => .ok (.error e)
    | .ok data =>
      match c.mldsaJson.decode data with
      | .error e => .ok (.error s!"Failed to deserialize: {e}")
      | .ok stored => .ok (stored.mapM (fromStoredMldsa c))

/-- `ml_dsa::generate_keypair` -/
def mldsaGenerateKeypair (seed : Bytes) : Except String MldsaKeypair :=
  match c.fips204.tryKeygen seed with
  | .error e => .error s!"key generation failed: {e}"
  | .ok (pk, sk) => .ok ⟨sk, pk⟩

/-- `ml_dsa::sign` -/
def mldsaSign (random data signingKey : Bytes) : Except String Bytes :=
  if signingKey.length ≠ 4032 then .error "key deserialization failed: Invalid signing key length"
  else match c.fips204.privateKeyFromBytes signingKey with
    | .error e => .error s!"key deserialization failed: {e}"
    | .ok () =>
      match c.fips204.trySign signingKey random data with
      | .error e => .error s!"signing failed: {e}"
      | .ok sig => .ok sig

/-- `ml_dsa::verify` -/
def mldsaVerify (data signature verifyingKey : Bytes) : Except String Bool :=
  if verifyingKey.length ≠ 1952 then .error "key deserialization failed: Invalid verifying key length"
  else match c.fips204.publicKeyFromBytes verifyingKey with
    | .error e => .error s!"key deserialization failed: {e}"
    | .ok () =>
      if signature.length ≠ 3309 then .error "key deserialization failed: Invalid signature length"
      else .ok (c.fips204.verify verifyingKey data signature)

/-- the first key pair of an id -/
def findMldsa (keypairs : List (String × MldsaKeypair)) (keyId : String) : Except String MldsaKeypair :=
  match keypairs.find? fun e => e.1 = keyId with
  | none => .error s!"ML-DSA key '{keyId}' not found"
  | some e => .ok e.2

def signWithVault (keyId : String) (data : Bytes) (passphrase : String) (random : Bytes) (file : File) :
    Outcome (Except String Bytes) := do
  let loaded ← loadMldsaKeys c passphrase file
  .ok do
    let keypairs ← loaded
    let kp ← findMldsa keypairs keyId
    (mldsaSign c random data kp.signingKey).mapError fun e => s!"Signing failed: {e}"

def verifyWithVault (keyId : String) (data signature : Bytes) (passphrase : String) (file : File) :
    Outcome (Except String Bool) := do
  let loaded ← loadMldsaKeys c passphrase file
  .ok do
    let keypairs ← loaded
    let kp ← findMldsa keypairs keyId
    (mldsaVerify c data signature kp.verifyingKey).mapError fun e => s!"Verification failed: {e}"

def listMldsaKeys (passphrase : String) (file : File) : Outcome (Except String (List String)) := do
  let loaded ← loadMldsaKeys c passphrase file
  .ok (loaded.map fun keypairs => keypairs.map Prod.fst)

/-! ## Blobs -/

variable {c}

theorem unlock_ok (passphrase : String) (blob : Bytes) : ∃ o, unlock c passphrase blob = .ok o := by
  unfold unlock
  split_ifs with h
  · exact ⟨_, rfl⟩
  · unfold decryptData
    split_ifs with h'
    · exact ⟨_, rfl⟩
    · have hlen : ((blob.drop SALT_LENGTH).take 12).length = 12 := by
        simp only [List.length_take, List.length_drop] at h' ⊢
        omega
      obtain ⟨n, hn⟩ := nonceFromSlice_ok_iff.2 hlen
      rw [hn, Outcome.ok_bind]
      split <;> exact ⟨_, rfl⟩

/-- opening a blob comes down to opening its ciphertext -/
theorem unlock_sealBlob_eq (hc : c.Correct) (passphrase passphrase' : String) (δ : CmdDraw) (data : Bytes) :
    unlock c passphrase' (sealBlob c passphrase δ data) =
      match c.aead.decrypt (deriveKeyWithSalt c passphrase' δ.salt.toList) δ.fileNonce
        (c.aead.encrypt (deriveKeyWithSalt c passphrase δ.salt.toList) δ.fileNonce data) with
      | none => .ok (.error "Decryption failed: aead::Error")
      | some data => .ok (.ok data) := by
  have hs : δ.salt.toList.length = SALT_LENGTH := Vector.length_toList
  have hn : δ.fileNonce.toList.length = 12 := Vector.length_toList
  have hl := hc.aead.length_encrypt (deriveKeyWithSalt c passphrase δ.salt.toList) δ.fileNonce data
  have h1 : ¬ (sealBlob c passphrase δ data).length < SALT_LENGTH + 12 + 16 := by
    simp only [sealBlob, encryptData, List.length_append, hs, hn, hl]
    omega
  have h2 : ¬ (encryptData c δ.fileNonce data (deriveKeyWithSalt c passphrase δ.salt.toList)).length < 12 + 16 := by
    simp only [encryptData, List.length_append, hn, hl]
    omega
  rw [unlock, if_neg h1, sealBlob, List.drop_left' hs, List.take_left' hs, decryptData, if_neg h2, encryptData,
    List.take_left' hn, List.drop_left' hn, nonceFromSlice_toList, Outcome.ok_bind]

theorem unlock_sealBlob (hc : c.Correct) (passphrase : String) (δ : CmdDraw) (data : Bytes) :
    unlock c passphrase (sealBlob c passphrase δ data) = .ok (.ok data) := by
  rw [unlock_sealBlob_eq hc, hc.aead.decrypt_encrypt]

theorem unlock_sealBlob_ne (hc : c.Correct) (hk : c.aead.Committing) {passphrase passphrase' : String} {δ : CmdDraw}
    (hne : deriveKeyWithSalt c passphrase δ.salt.toList ≠ deriveKeyWithSalt c passphrase' δ.salt.toList) (data : Bytes) :
    unlock c passphrase' (sealBlob c passphrase δ data) = .ok (.error "Decryption failed: aead::Error") := by
  rw [unlock_sealBlob_eq hc, hk _ _ _ _ hne]

/-! ## What a key file holds -/

variable (c) in
/-- the keys that a file yields under a passphrase, none where it cannot be read -/
def recover (passphrase : String) (file : File) : Option (List StoredKey) :=
  match file with
  | .present blob =>
    match unlock c passphrase blob with
    | .ok (.ok data) => (c.json.decode data).toOption
    | _ => none
  | _ => none

variable (c) in
/-- a stored key whose secret decodes -/
def entryOf (s : StoredKey) : Option Entry :=
  (c.base64.decode s.secretKey).toOption.map fun sk => (s.keyId, ⟨s.publicKey, s.secretKey⟩, sk)

variable (c) in
/-- the key list that a file yields under a passphrase -/
def loaded (passphrase : String) (file : File) : List Entry :=
  Table.load (((recover c passphrase file).getD []).filterMap (entryOf c))

theorem importStored_of (t : List Entry) (s : StoredKey) :
    importStored c (.of t) s = .ok (.of (((entryOf c s).map fun e => Table.put e.1 e.2 t).getD t)) := by
  unfold importStored entryOf
  cases h : c.base64.decode s.secretKey with
  | error e => simp [Vault.importKey_of_error s.keyId h, Except.toOption]
  | ok sk => simp [Vault.importKey_of t s.keyId h, Except.toOption]

theorem foldlM_importStored (l : List StoredKey) (t : List Entry) :
    l.foldlM (importStored c) (Vault.of t) =
      .ok (.of ((l.filterMap (entryOf c)).foldl (fun t e => Table.put e.1 e.2 t) t)) := by
  induction l generalizing t with
  | nil => rfl
  | cons s l ih =>
    rw [List.foldlM_cons, importStored_of, Outcome.ok_bind, ih]
    cases h : entryOf c s with
    | none => rw [List.filterMap_cons_none h, Option.map_none, Option.getD_none]
    | some e => rw [List.filterMap_cons_some h, List.foldl_cons, Option.map_some, Option.getD_some]

/-- **Loading never panics**, and whatever the file is, the vault holds exactly the entries it yields. -/
theorem getVault_eq (passphrase : String) (file : File) :
    getVault c passphrase file = .ok (.of (loaded c passphrase file)) := by
  cases file with
  | missing => rfl
  | unreadable e => rfl
  | present blob =>
    obtain ⟨o, ho⟩ := unlock_ok (c := c) passphrase blob
    cases o with
    | error e =>
      simp only [getVault, ho, Outcome.ok_bind, loaded, recover]
      rfl
    | ok data =>
      cases hd : c.json.decode data with
      | error e =>
        simp only [getVault, ho, Outcome.ok_bind, loaded, recover, hd]
        rfl
      | ok stored =>
        simp only [getVault, ho, Outcome.ok_bind, loaded, recover, hd, Except.toOption, Option.getD_some]
        exact foldlM_importStored stored []

/-- every secret is what its text decodes to -/
def Coherent (c : VaultCrates Key) (t : List Entry) : Prop := ∀ e ∈ t, c.base64.decode e.2.1.secretKey = .ok e.2.2

theorem unique_loaded (passphrase : String) (file : File) : Table.Unique (loaded c passphrase file) :=
  Table.unique_load _

theorem coherent_loaded (passphrase : String) (file : File) : Coherent c (loaded c passphrase file) := by
  intro e he
  obtain ⟨s, -, hs⟩ := List.mem_filterMap.1 (Table.mem_of_mem_load he)
  unfold entryOf at hs
  cases h : c.base64.decode s.secretKey with
  | error e => simp [h, Except.toOption] at hs
  | ok sk =>
    simp only [h, Except.toOption, Option.map_some, Option.some.injEq] at hs
    rw [← hs, h]

theorem coherent_keygen (hc : c.Correct) (seed : Bytes) :
    c.base64.decode (keygen c.toCrates seed).1.secretKey = .ok (keygen c.toCrates seed).2 := hc.base64 seed

theorem coherent_add {t : List Entry} (h : Coherent c t) {id : String} {b : KeyPair × Bytes}
    (hb : c.base64.decode b.1.secretKey = .ok b.2) : Coherent c (Table.add id b t) := by
  intro e he
  rcases List.mem_append.1 he with he | he
  · exact h e he
  · rw [List.mem_singleton] at he
    rw [he]
    exact hb

theorem coherent_withKey (hc : c.Correct) {t : List Entry} (h : Coherent c t) (seed : Bytes) (id : String) :
    Coherent c (Vault.withKey c.toCrates seed t id) := by
  unfold Vault.withKey
  split_ifs
  · exact h
  · exact coherent_add h (coherent_keygen hc seed)

theorem coherent_remove {t : List Entry} (h : Coherent c t) (id : String) : Coherent c (Table.remove id t) :=
  fun e he => h e (List.mem_of_mem_filter he)

/-! ## Writing the key file -/

/-- the stored form of an entry -/
def storedOf (e : Entry) : StoredKey := ⟨e.1, e.2.1.publicKey, e.2.1.secretKey⟩

variable (c) in
/-- the key file of a key list -/
def keysBlob (passphrase : String) (δ : CmdDraw) (t : List Entry) : Bytes :=
  sealBlob c passphrase δ (c.json.encode (t.map storedOf))

theorem persist_of (t : List Entry) (passphrase : String) (δ : CmdDraw) (disk : Disk) :
    persist c (.of t) passphrase δ disk = .ok { disk with keys := δ.write.file (keysBlob c passphrase δ t) } := by
  simp only [persist, Vault.exportKeys, Mutex.lock_mk_false, Outcome.map_ok, Outcome.ok_bind, List.map_map]
  rfl

theorem recover_keysBlob (hc : c.Correct) (passphrase : String) (δ : CmdDraw) (t : List Entry) :
    recover c passphrase (.present (keysBlob c passphrase δ t)) = some (t.map storedOf) := by
  simp only [recover, keysBlob, unlock_sealBlob hc, hc.json _, Except.toOption]

theorem recover_keysBlob_ne (hc : c.Correct) (hk : c.aead.Committing) {passphrase passphrase' : String} {δ : CmdDraw}
    (hne : deriveKeyWithSalt c passphrase δ.salt.toList ≠ deriveKeyWithSalt c passphrase' δ.salt.toList)
    (t : List Entry) : recover c passphrase' (.present (keysBlob c passphrase δ t)) = none := by
  simp only [recover, keysBlob, unlock_sealBlob_ne hc hk hne]

theorem filterMap_entryOf_storedOf {t : List Entry} (h : Coherent c t) : (t.map storedOf).filterMap (entryOf c) = t := by
  rw [List.filterMap_map]
  refine (List.filterMap_congr fun e he => ?_).trans List.filterMap_some
  simp [storedOf, entryOf, h e he, Except.toOption]

/-- **A persisted key list is loaded back**, the last entry of an id winning. -/
theorem loaded_keysBlob (hc : c.Correct) {t : List Entry} (h : Coherent c t) (passphrase : String) (δ : CmdDraw) :
    loaded c passphrase (.present (keysBlob c passphrase δ t)) = Table.load t := by
  rw [loaded, recover_keysBlob hc, Option.getD_some, filterMap_entryOf_storedOf h]

theorem persistMldsaKeys_keys (keypairs : List (String × MldsaKeypair)) (passphrase : String) (δ : CmdDraw)
    (disk : Disk) : (persistMldsaKeys c keypairs passphrase δ disk).2.keys = disk.keys := by
  unfold persistMldsaKeys
  cases δ.write <;> rfl

/-! ## Loading twice -/

theorem foldlM_skip {existing : List String} {l : List StoredKey} (t : List Entry)
    (h : ∀ s ∈ l, s.keyId ∈ existing ∨ entryOf c s = none) :
    l.foldlM (fun v key => if key.keyId ∈ existing then .ok v else importStored c v key) (Vault.of t) =
      (.ok (.of t) : Outcome Vault) := by
  induction l with
  | nil => rfl
  | cons s l ih =>
    have hs : (if s.keyId ∈ existing then .ok (.of t) else importStored c (.of t) s : Outcome Vault) = .ok (.of t) := by
      by_cases hm : s.keyId ∈ existing
      · rw [if_pos hm]
      · rw [if_neg hm, importStored_of, (h s List.mem_cons_self).resolve_left hm]
        rfl
    rw [List.foldlM_cons, hs, Outcome.ok_bind, ih fun s hs => h s (List.mem_cons_of_mem _ hs)]

/-- every id of the file is loaded the first time, unless its secret does not decode -/
theorem loadAdditionalKeys_of_loaded (passphrase : String) (file : File) :
    loadAdditionalKeys c (.of (loaded c passphrase file)) passphrase file = .ok (.of (loaded c passphrase file)) := by
  cases file with
  | missing => rfl
  | unreadable e => rfl
  | present blob =>
    obtain ⟨o, ho⟩ := unlock_ok (c := c) passphrase blob
    cases o with
    | error e => simp only [loadAdditionalKeys, ho, Outcome.ok_bind]
    | ok data =>
      cases hd : c.json.decode data with
      | error e => simp only [loadAdditionalKeys, ho, Outcome.ok_bind, hd]
      | ok stored =>
        simp only [loadAdditionalKeys, ho, Outcome.ok_bind, hd, Vault.listKeypairs, Mutex.lock_mk_false, Outcome.map_ok]
        refine foldlM_skip _ fun s hs => ?_
        cases he : entryOf c s with
        | none => exact Or.inr rfl
        | some e =>
          have hid : e.1 = s.keyId := by
            obtain ⟨sk, -, rfl⟩ := Option.map_eq_some_iff.1 he
            rfl
          have hmem : e ∈ stored.filterMap (entryOf c) := List.mem_filterMap.2 ⟨s, hs, he⟩
          left
          rw [← hid, ← Table.get_isSome_iff, loaded, Table.get_load, recover]
          simp only [ho, hd, Except.toOption, Option.getD_some]
          rw [Table.get_isSome_iff, List.map_reverse, List.mem_reverse]
          exact List.mem_map_of_mem hmem

end

end AbirGuard.Rust
