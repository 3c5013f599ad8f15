/-
The Python vault: the audit log, the encryptor and the class `Vault` (`__init__.py`).

A method runs on the vault and may raise; what it changed before stays changed. `Session` is the vault together with the FIPS
switch of the ML-KEM class, which all vaults of a process share. Each method takes what the host answers during the call; of
a set of ids the order of insertion is kept. The entropy collector and the MCP server are left out.

- `decryptInMode_ok_iff`: what it takes for the decryptor of the current mode to return.
- `checkAttestation_run`: the attestation check of `retrieve` never raises and changes nothing but the audit log.
- `retrieve_ok_iff`: when `retrieve` returns a plaintext.
-/
import AbirGuard.Python.Attestation
import AbirGuard.Python.FipsMode
import AbirGuard.Python.Rotation

namespace AbirGuard.Python

open AbirGuard.Core Raise

/-! ## Validation -/

def MAX_KEY_ID_LENGTH : ℕ := 64

def MAX_DATA_SIZE : ℕ := 1024 * 1024

/-- `[a-zA-Z0-9_-]` -/
def isKeyIdChar (p : CodePoint) : Bool :=
  (97 ≤ p.val ∧ p.val ≤ 122) ∨ (65 ≤ p.val ∧ p.val ≤ 90) ∨ (48 ≤ p.val ∧ p.val ≤ 57) ∨ p.val = 95 ∨ p.val = 45

/-- `^[a-zA-Z0-9_-]+$`, where the dollar also matches before a line feed at the end -/
def keyIdPattern (keyId : Text) : Bool :=
  let body := if keyId.getLast? = some (CodePoint.ofChar '\n') then keyId.dropLast else keyId
  body ≠ [] ∧ body.all isKeyIdChar

def reserved (keyId : Text) : Bool := (Text.ofString "__").isPrefixOf keyId

def validateKeyId (keyId : Text) : Except Exc Text :=
  if keyId = [] then .error ⟨.valueError, "key_id cannot be empty"⟩
  else if MAX_KEY_ID_LENGTH < keyId.length then
    .error ⟨.valueError, s!"key_id too long (max {MAX_KEY_ID_LENGTH} chars)"⟩
  else if ¬ keyIdPattern keyId then
    .error ⟨.valueError, "key_id must be alphanumeric, hyphens, or underscores only"⟩
  else if reserved keyId then .error ⟨.valueError, "key_id cannot start with __ (reserved for system)"⟩
  else if (0 : CodePoint) ∈ keyId ∨ Text.ofString ".." <:+: keyId ∨ CodePoint.ofChar '/' ∈ keyId ∨
      CodePoint.ofChar '\\' ∈ keyId then
    .error ⟨.valueError, "key_id contains invalid characters"⟩
  else .ok keyId

def validateDataSize (data : Bytes) : Except Exc Unit :=
  if MAX_DATA_SIZE < data.length then .error ⟨.valueError, s!"Data too large (max {MAX_DATA_SIZE} bytes)"⟩ else .ok ()

/-- a valid id is returned as it is -/
theorem validateKeyId_eq {keyId keyId' : Text} (h : validateKeyId keyId = .ok keyId') : keyId' = keyId := by
  unfold validateKeyId at h
  split_ifs at h
  cases h
  rfl

/-! ## Audit log -/

/-- an entry is a dictionary, written as JSON to be hashed -/
abbrev AuditEntry : Type := Dict Text (Json ℚ)

namespace AuditLogger

variable (l : Libs)

/-- the hash of the text of an entry with its keys in order; the text always has an encoding -/
def hashEntry (entry : AuditEntry) : Text :=
  Text.hexdigest (l.sha256 ((Json.dumpsSorted l.float none (.obj entry.entries)).encode.getD [])).toList

/-- an entry before its hashes -/
def newEntry (η : Host) (action : String) (keyId : Text) (success : Bool) (details : Text) : AuditEntry where
  entries := Table.setAll ([("ts", .float (η.clock (.audit action))), ("action", .str action), ("key_id", .str keyId),
    ("ok", .bool success), ("details", .str details)] : List (Text × Json ℚ))
  unique := Table.unique_setAll _

def log (η : Host) (action : String) (keyId : Text) (success : Bool) (details : Text) (entries : List AuditEntry) :
    List AuditEntry :=
  let entry := newEntry η action keyId success details
  let entry := match entries.getLast? with
    | some prev => entry.set (Text.ofString "prev_hash") (Json.str (hashEntry l prev))
    | none => entry
  entries ++ [entry.set (Text.ofString "hash") (Json.str (hashEntry l entry))]

/-- the value under a key is this string -/
def hasString (key : String) (s : Text) (entry : AuditEntry) : Bool :=
  match entry.get (Text.ofString key) with
  | some (.str t) => t = s
  | _ => false

/-- the entries from one on, after the entry before them -/
def verifyFrom (prev : Option AuditEntry) : List AuditEntry → Bool
  | [] => true
  | entry :: entries =>
    (match prev with
      | none => !entry.contains (Text.ofString "prev_hash")
      | some prev => hasString "prev_hash" (hashEntry l prev) entry) &&
    hasString "hash" (hashEntry l (entry.erase (Text.ofString "hash"))) entry && verifyFrom (some entry) entries

def verifyIntegrity (entries : List AuditEntry) : Bool := verifyFrom l none entries

end AuditLogger

/-! ## Encryptor -/

structure KeyPair where
  publicKey : Text
  secretKey : Text
  shared : Bytes
deriving DecidableEq

structure Ciphertext where
  nonce : Text
  ciphertext : Text
  authTag : Text
deriving DecidableEq

def DOMAIN : Bytes := utf8 "Abir-Guard-Hybrid-2026"

namespace HybridEncryptor

variable (l : Libs)

def generateKeypair (η : Host) : KeyPair × Bytes :=
  let sharedSecret := η.secret.toList
  (⟨b64encode sharedSecret, b64encode sharedSecret, sharedSecret⟩, sharedSecret)

def aesKey (secret : Bytes) : Bytes := (l.hkdf DOMAIN (utf8 "aes-key") secret).toList

def encrypt (η : Host) (plaintext : Bytes) (publicKey : KeyPair) : Except Exc Ciphertext := do
  let nonce := η.nonce.toList
  let ciphertextAndTag ← AESGCM.encrypt l (aesKey l publicKey.shared) nonce plaintext
  .ok ⟨b64encode nonce, b64encode (ciphertextAndTag.take (ciphertextAndTag.length - 16)),
    b64encode (ciphertextAndTag.drop (ciphertextAndTag.length - 16))⟩

/-- the tag of a ciphertext; without one the tag is the end of the ciphertext itself -/
def tagBytes (ciphertext : Ciphertext) : Except Exc Bytes :=
  if ciphertext.authTag = [] then .ok [] else b64decode ciphertext.authTag

def decrypt (ciphertext : Ciphertext) (secretKey : Bytes) : Except Exc Bytes := do
  let nonce ← b64decode ciphertext.nonce
  let ct ← b64decode ciphertext.ciphertext
  let tag ← tagBytes ciphertext
  AESGCM.decrypt l (aesKey l secretKey) nonce (ct ++ tag)

end HybridEncryptor

/-! ## Vault -/

structure Vault where
  keypairs : Dict Text KeyPair
  secretKeys : Dict Text Bytes
  cache : Dict Text Bytes
  audit : List AuditEntry
  canaryIds : List Text
  fipsMode : Bool
  fipsEncryptor : Option FIPSEncryptor
  rotationMgr : Option KeyRotationManager
  attestationVerifier : Option AttestationVerifier
  integrityProof : IntegrityProof

/-- a vault, and the switch `MLKEM1024._FIPS_MODE` -/
structure Session where
  vault : Vault
  mlkemFips : Bool

abbrev VaultM (α : Type) : Type := Raise Exc Session α

namespace Vault

def new (η : Host) (fipsMode : Bool) : Vault where
  keypairs := .empty
  secretKeys := .empty
  cache := .empty
  audit := []
  canaryIds := []
  fipsMode := fipsMode
  fipsEncryptor := if fipsMode then some .new else none
  rotationMgr := some .new
  attestationVerifier := some .new
  integrityProof := .new η

/-- a change of the vault -/
def update (g : Vault → Vault) : VaultM Unit := modify fun s => { s with vault := g s.vault }

/-- a call of the FIPS encryptor -/
def withEncryptor {α : Type} (f : FIPSEncryptor) (x : Raise Exc FIPSEncryptor α) : VaultM α :=
  zoom (fun _ => f) (fun f s => { s with vault := { s.vault with fipsEncryptor := some f } }) x

variable (l : Libs) (η : Host)

def log (action : String) (keyId : Text) (success : Bool) (details : Text) : VaultM Unit :=
  update fun v => { v with audit := AuditLogger.log l η action keyId success details v.audit }

/-- a change of the rotation manager, if there is one -/
def rotation (g : KeyRotationManager → KeyRotationManager) : VaultM Unit :=
  update fun v => { v with rotationMgr := v.rotationMgr.map g }

def generateKeypair (keyId : Text) : VaultM (Text × Text) := do
  let keyId ← lift (validateKeyId keyId)
  let (kp, sk) := HybridEncryptor.generateKeypair η
  update fun v => { v with keypairs := v.keypairs.set keyId kp, secretKeys := v.secretKeys.set keyId sk }
  log l η "keygen" keyId true []
  rotation (·.registerKey η keyId none none)
  return (kp.publicKey, kp.secretKey)

def rotateKey (keyId : Text) : VaultM Unit := do
  let s ← get
  if keyId ∈ s.vault.canaryIds then return ()
  else do
    when (s.vault.secretKeys.get keyId ≠ none ∧ s.vault.secretKeys.get keyId ≠ some []) <|
      update fun v => { v with secretKeys := v.secretKeys.erase keyId }
    let _ ← generateKeypair l η keyId
    log l η "key_rotation" keyId true []

def enableFipsMode : VaultM Unit := do
  update fun v => { v with fipsMode := true, fipsEncryptor := some .new }
  modify fun s => { s with mlkemFips := true }
  log l η "fips_enabled" [] true []

def disableFipsMode : VaultM Unit := do
  update fun v => { v with fipsMode := false, fipsEncryptor := none }
  modify fun s => { s with mlkemFips := false }
  log l η "fips_disabled" [] true []

def verifyRuntimeIntegrity (challenge : Option Text) : VaultM Bool := do
  let s ← get
  match s.vault.attestationVerifier with
  | none => return true
  | some verifier => do
    let challenge := challenge.getD (Text.hexdigest η.runtimeChallenge.toList)
    let (result, proof) := s.vault.integrityProof.compute l η challenge []
    update fun v => { v with integrityProof := proof }
    lift result
    lift (verifier.verifyProof l η proof.toDict [])

def addCanary : VaultM Text := do
  let canaryId : Text := "__canary_" ++ Text.hexdigest η.canaryId.toList
  let (kp, sk) := HybridEncryptor.generateKeypair η
  update fun v => { v with
    keypairs := v.keypairs.set canaryId kp
    secretKeys := v.secretKeys.set canaryId sk
    canaryIds := if canaryId ∈ v.canaryIds then v.canaryIds else v.canaryIds ++ [canaryId] }
  log l η "canary_plant" canaryId true []
  return canaryId

def checkCanary : VaultM Bool := do
  let s ← get
  match s.vault.canaryIds.find? fun id => !s.vault.keypairs.contains id with
  | some canaryId => do
    log l η "canary_breach" canaryId false "Canary key removed — possible breach"
    return true
  | none => return false

def ofFipsResult (result : FipsResult) : Ciphertext :=
  ⟨b64encode result.nonce, b64encode result.ciphertext, b64encode result.authTag⟩

/-- `self.keypairs[key_id]` and the like -/
def lookup {α : Type} (keyId : Text) (d : Dict Text α) : Except Exc α :=
  match d.get keyId with
  | some a => .ok a
  | none => .error ⟨.keyError, "'" ++ keyId ++ "'"⟩

/-- encryption with the encryptor of the current mode; the FIPS mode neither logs nor counts -/
def encryptInMode (keyId : Text) (plaintext : Bytes) : VaultM Ciphertext := do
  let s ← get
  match s.vault.fipsMode, s.vault.fipsEncryptor with
  | true, some f => do
    let keyBytes ← lift (lookup keyId s.vault.secretKeys)
    let result ← withEncryptor f (FIPSEncryptor.encrypt l η plaintext keyBytes)
    return ofFipsResult result
  | _, _ => do
    let kp ← lift (lookup keyId s.vault.keypairs)
    let ct ← lift (HybridEncryptor.encrypt l η plaintext kp)
    log l η "encrypt" keyId true []
    rotation (·.recordUsage η keyId .encrypt)
    return ct

def store (ηRotate : Host) (keyId : Text) (plaintext : Bytes) : VaultM Ciphertext := do
  let keyId ← lift (validateKeyId keyId)
  lift (validateDataSize plaintext)
  let s ← get
  when (keyId ∈ s.vault.canaryIds) <| log l η "canary_access" keyId false "Attempted to store data in canary key"
  when (¬ s.vault.keypairs.contains keyId) do
    let _ ← generateKeypair l η keyId
  let s ← get
  when (s.vault.rotationMgr.any (·.needsRotation η keyId)) <| rotateKey l ηRotate keyId
  encryptInMode l η keyId plaintext

/-- the block of `retrieve` that verifies the attestation: its handler catches every exception, its own included -/
def checkAttestation (keyId : Text) : VaultM Unit := do
  let s ← get
  match s.vault.attestationVerifier with
  | none => return ()
  | some verifier =>
    tryCatch
      (do
        let valid ← lift (verifier.verifyProof l η s.vault.integrityProof.toDict [])
        when (¬ valid) do
          log l η "attestation_failed" keyId false "Runtime integrity check failed"
          throw ⟨.valueError, "Runtime integrity check failed — possible tampering detected"⟩)
      fun e => log l η "attestation_error" keyId false e.msg

/-- decryption with the encryptor of the current mode; the FIPS mode does not count -/
def decryptInMode (keyId : Text) (ciphertext : Ciphertext) : VaultM Bytes := do
  let s ← get
  let key ← lift (lookup keyId s.vault.secretKeys)
  match s.vault.fipsMode, s.vault.fipsEncryptor with
  | true, some f => do
    let ctBytes ← lift (b64decode ciphertext.ciphertext)
    let tagBytes ← lift (HybridEncryptor.tagBytes ciphertext)
    let nonceBytes ← lift (b64decode ciphertext.nonce)
    let plaintext ← withEncryptor f (FIPSEncryptor.decrypt l η ctBytes tagBytes nonceBytes key)
    log l η "decrypt" keyId true []
    return plaintext
  | _, _ => do
    let plaintext ← lift (HybridEncryptor.decrypt l ciphertext key)
    log l η "decrypt" keyId true []
    rotation (·.recordUsage η keyId .decrypt)
    return plaintext

def retrieve (keyId : Text) (ciphertext : Ciphertext) : VaultM Bytes := do
  let keyId ← lift (validateKeyId keyId)
  let s ← get
  if ¬ s.vault.secretKeys.contains keyId then do
    log l η "decrypt" keyId false "Key not found"
    throw ⟨.valueError, "No keypair for " ++ keyId⟩
  else do
    when (keyId ∈ s.vault.canaryIds) <|
      log l η "canary_breach" keyId false "Canary key accessed — breach detected!"
    checkAttestation l η keyId
    decryptInMode l η keyId ciphertext

/-- the ids of the vault without the canaries -/
def listKeypairs (v : Vault) : List Text := v.keypairs.keys.filter fun k => !reserved k

def removeKeypair (keyId : Text) : VaultM Unit := do
  let keyId ← lift (validateKeyId keyId)
  update fun v => { v with
    keypairs := v.keypairs.erase keyId
    secretKeys := v.secretKeys.erase keyId
    cache := v.cache.erase keyId }
  log l η "delete_key" keyId true []

def clearCache : VaultM Unit := do
  update fun v => { v with cache := .empty }
  log l η "clear_cache" [] true []

def verifyAuditIntegrity (v : Vault) : Bool := AuditLogger.verifyIntegrity l v.audit

end Vault

/-! ## What a retrieval takes -/

variable {l : Libs} {η : Host}

/-- the mode of the vault uses the FIPS encryptor -/
def Vault.usesFips (v : Vault) : Bool := v.fipsMode && v.fipsEncryptor.isSome

/-- the fields of a ciphertext decode, its nonce has an accepted length, and it opens under the key to a plaintext -/
def Ciphertext.Opens (l : Libs) (fips : Bool) (key : Bytes) (ct : Ciphertext) (p : Bytes) : Prop :=
  ∃ nonce c tag, b64decode ct.nonce = .ok nonce ∧ b64decode ct.ciphertext = .ok c ∧ HybridEncryptor.tagBytes ct = .ok tag ∧
    if fips then key.length = 32 ∧ nonce.length = 12 ∧ l.gcmDecrypt key nonce (c ++ tag) = some p
    else (8 ≤ nonce.length ∧ nonce.length ≤ 128) ∧ l.gcmDecrypt (HybridEncryptor.aesKey l key) nonce (c ++ tag) = some p

theorem HybridEncryptor.decrypt_ok_iff {ct : Ciphertext} {key p : Bytes} :
    HybridEncryptor.decrypt l ct key = .ok p ↔ ct.Opens l false key p := by
  have hkey : (HybridEncryptor.aesKey l key).length = 32 := (l.hkdf DOMAIN (utf8 "aes-key") key).length_toList
  constructor
  · intro h
    obtain ⟨nonce, hn, h⟩ := Outcome.bind_eq_ok h
    obtain ⟨c, hc, h⟩ := Outcome.bind_eq_ok h
    obtain ⟨tag, ht, h⟩ := Outcome.bind_eq_ok h
    obtain ⟨-, hlen, hd⟩ := AESGCM.decrypt_ok_iff.1 h
    exact ⟨nonce, c, tag, hn, hc, ht, hlen, hd⟩
  · rintro ⟨nonce, c, tag, hn, hc, ht, hlen, hd⟩
    rw [HybridEncryptor.decrypt, hn, Outcome.ok_bind, hc, Outcome.ok_bind, ht, Outcome.ok_bind]
    exact AESGCM.decrypt_ok_iff.2 ⟨by omega, hlen, hd⟩

namespace Vault

theorem lookup_ok_iff {α : Type} {keyId : Text} {d : Dict Text α} {a : α} : lookup keyId d = .ok a ↔ d.get keyId = some a := by
  unfold lookup
  cases d.get keyId <;> simp

theorem decryptInMode_ok_iff {keyId : Text} {ct : Ciphertext} {p : Bytes} {s : Session} :
    (run (decryptInMode l η keyId ct) s).1 = .ok p ↔
      ∃ key, s.vault.secretKeys.get keyId = some key ∧ ct.Opens l s.vault.usesFips key p := by
  rw [decryptInMode, run_get_bind, lift_bind_ok_iff]
  refine exists_congr fun key => ?_
  rw [lookup_ok_iff]
  refine and_congr_right fun _ => ?_
  have hplain : (run (do
      let plaintext ← lift (HybridEncryptor.decrypt l ct key)
      log l η "decrypt" keyId true []
      rotation (·.recordUsage η keyId .decrypt)
      return plaintext) s).1 = .ok p ↔ ct.Opens l false key p := by
    rw [lift_bind_ok_iff, ← HybridEncryptor.decrypt_ok_iff]
    constructor
    · rintro ⟨q, hq, hr⟩
      cases hr
      exact hq
    · intro h
      exact ⟨p, h, rfl⟩
  cases hmode : s.vault.fipsMode with
  | false =>
    rw [usesFips, hmode]
    exact hplain
  | true =>
    cases hf : s.vault.fipsEncryptor with
    | none =>
      rw [usesFips, hmode, hf]
      exact hplain
    | some f =>
      rw [usesFips, hmode, hf]
      dsimp only
      simp only [bind_ok_iff, withEncryptor, run_zoom, FIPSEncryptor.decrypt_ok_iff]
      constructor
      · rintro ⟨c, hc, tag, ht, nonce, hn, q, hq, u, -, hr⟩
        cases hr
        exact ⟨nonce, c, tag, hn, hc, ht, hq⟩
      · rintro ⟨nonce, c, tag, hn, hc, ht, hq⟩
        exact ⟨c, hc, tag, ht, nonce, hn, p, hq, ⟨⟩, rfl, rfl⟩

/-- **The attestation check of a retrieval** returns, whatever the verifier finds. -/
theorem checkAttestation_run (keyId : Text) (s : Session) :
    ∃ entries, run (checkAttestation l η keyId) s = (.ok (), { s with vault := { s.vault with audit := entries } }) := by
  rw [checkAttestation, run_get_bind]
  cases hv : s.vault.attestationVerifier with
  | none => exact ⟨s.vault.audit, rfl⟩
  | some verifier =>
    dsimp only
    rw [run_tryCatch, run_lift_bind]
    cases verifier.verifyProof l η s.vault.integrityProof.toDict [] with
    | error e => exact ⟨_, rfl⟩
    | ok valid =>
      cases valid with
      | true => exact ⟨s.vault.audit, rfl⟩
      | false => exact ⟨_, rfl⟩

/-- a call to the log changes nothing but the log -/
theorem run_when_log (q : Prop) [Decidable q] (action : String) (keyId : Text) (success : Bool) (details : Text) (s : Session) :
    ∃ entries, run (when q (log l η action keyId success details)) s =
      (.ok ⟨⟩, { s with vault := { s.vault with audit := entries } }) := by
  unfold when
  split_ifs
  · exact ⟨_, rfl⟩
  · exact ⟨s.vault.audit, rfl⟩

/-- **When a retrieval returns**: the attestation plays no part. -/
theorem retrieve_ok_iff {keyId : Text} {ct : Ciphertext} {p : Bytes} {s : Session} :
    (run (retrieve l η keyId ct) s).1 = .ok p ↔ validateKeyId keyId = .ok keyId ∧
      ∃ key, s.vault.secretKeys.get keyId = some key ∧ ct.Opens l s.vault.usesFips key p := by
  rw [retrieve, lift_bind_ok_iff]
  have hbody : ∀ id, (run (do
      let s ← get
      if ¬ s.vault.secretKeys.contains id then do
        log l η "decrypt" id false "Key not found"
        throw ⟨.valueError, "No keypair for " ++ id⟩
      else do
        when (id ∈ s.vault.canaryIds) <|
          log l η "canary_breach" id false "Canary key accessed — breach detected!"
        checkAttestation l η id
        decryptInMode l η id ct) s).1 = .ok p ↔
      ∃ key, s.vault.secretKeys.get id = some key ∧ ct.Opens l s.vault.usesFips key p := by
    intro id
    rw [run_get_bind, run_ite]
    by_cases hc : s.vault.secretKeys.contains id
    · rw [if_neg (not_not.2 hc)]
      obtain ⟨entries, hwhen⟩ := run_when_log (l := l) (η := η) (id ∈ s.vault.canaryIds) "canary_breach" id false
        "Canary key accessed — breach detected!" s
      obtain ⟨entries', hcheck⟩ := checkAttestation_run (l := l) (η := η) id
        { s with vault := { s.vault with audit := entries } }
      rw [run_bind_of_ok hwhen, run_bind_of_ok hcheck]
      exact decryptInMode_ok_iff
    · rw [if_pos hc]
      refine iff_of_false (fun h => by cases h) ?_
      rintro ⟨key, hk, -⟩
      exact hc (Dict.contains_iff.2 ⟨key, hk⟩)
  constructor
  · rintro ⟨id', hid, h⟩
    obtain rfl : id' = keyId := validateKeyId_eq hid
    exact ⟨hid, (hbody id').1 h⟩
  · rintro ⟨hid, h⟩
    exact ⟨keyId, hid, (hbody keyId).2 h⟩

end Vault

end AbirGuard.Python
