/-
The command line: the commands of `src/main.rs` that read or write the key files, and the two Shamir commands.

A command takes the disk and returns what it prints and the disk it leaves. Its passphrase is the one `get_passphrase`
finds. Every command that touches `keys.enc` is a load, `getVault`, followed by a body that may persist; `initBody`,
`encryptBody` and `deleteBody` are these bodies, so that other commands can be placed between the two. No command panics
after it has written, so a command that panics leaves the disk as it was.

- `initBody_of`, `encryptBody_of`, `deleteBody_of`: what the bodies print and write, given the key list they start from.
- `init_ok`, `encrypt_ok`, `deleteKey_ok`: a command whose arguments are accepted is its body on the loaded key list.
- `decrypt_of_get`: decryption with the key that the id has in the loaded list.
- `after_keys_of_persists`, `after_keys_of_not_persists`: which commands write the key file, and what the others leave alone.

The home directory is known, and removing the vault directory succeeds. The commands that only print fixed text and the
server mode are left out.
-/
import AbirGuard.Core.Run
import AbirGuard.Rust.PersistentVault
import AbirGuard.Rust.Shamir

namespace AbirGuard.Rust.Cli

open AbirGuard.Core AbirGuard.Rust

/-! ## Model -/

inductive Cmd where
  | init (keyId : String)
  | encrypt (keyId data : String)
  | decrypt (keyId ciphertext nonce : String)
  | listKeys
  | deleteKey (keyId : String)
  | clearCache
  | shamirSplit (secret : String) (threshold shares : ℕ)
  | shamirJoin (shares : List String)
  | mldsaInit (keyId : Option String)
  | mldsaSign (keyId : String) (data : Option String)
  | mldsaVerify (keyId data signature : String)
  | mldsaList
deriving DecidableEq, Repr

/-- what a command prints, one entry for each call of println or eprintln, and its exit code -/
structure Printed where
  stdout : List String
  stderr : List String
  code : ℕ
deriving DecidableEq, Repr

def Printed.ok (stdout : List String) : Printed := ⟨stdout, [], 0⟩

def Printed.fail (stderr : List String) : Printed := ⟨[], stderr, 1⟩

section

variable {Key : Type} (c : VaultCrates Key) (passphrase : String) (δ : CmdDraw) (disk : Disk)

/-- a key id starts with two underscores -/
def reserved (keyId : String) : Bool := ['_', '_'].isPrefixOf keyId.toList

/-- alphanumeric, hyphens, underscores only, max 64 chars -/
def validateKeyId (keyId : String) : Except String Unit :=
  if keyId = "" then .error "key_id cannot be empty"
  else if keyId.utf8ByteSize > 64 then .error s!"key_id too long (max 64 chars, got {keyId.utf8ByteSize})"
  else if keyId.toList.any fun ch => !c.isAlphanumeric ch && ch ≠ '-' && ch ≠ '_' then
    .error "key_id must be alphanumeric, hyphens, or underscores only"
  else if reserved keyId then .error "key_id cannot start with __ (reserved for system)"
  else .ok ()

def initBody (keyId : String) (vault : Vault) : Outcome (Printed × Disk) := do
  let (o, vault) := vault.generateKeypair c.toCrates keyId δ.seed
  let (pubKey, _) ← o
  let disk ← persist c vault passphrase δ disk
  .ok (.ok [s!"Generated keypair: {keyId}", s!"Public key: {pubKey}"], disk)

def init (keyId : String) : Outcome (Printed × Disk) :=
  match validateKeyId c keyId with
  | .error e => .ok (.fail [s!"Invalid key_id: {e}"], disk)
  | .ok () => do initBody c passphrase δ disk keyId (← getVault c passphrase disk.keys)

def encryptBody (keyId data : String) (vault : Vault) : Outcome (Printed × Disk) := do
  match ← storeEncrypted c vault keyId (utf8 data) passphrase δ disk with
  | (.error e, _) => Outcome.panic s!"Encryption failed (key may not exist - run 'init' first): {e.quote}"
  | (.ok ct, disk) => .ok (.ok [s!"Ciphertext: {ct.ciphertext}", s!"Nonce: {ct.nonce}"], disk)

def encrypt (keyId data : String) : Outcome (Printed × Disk) :=
  match validateKeyId c keyId with
  | .error e => .ok (.fail [s!"Invalid key_id: {e}"], disk)
  | .ok () =>
    if data.utf8ByteSize > 1024 * 1024 then .ok (.fail ["Data too large (max 1MB)"], disk)
    else do encryptBody c passphrase δ disk keyId data (← getVault c passphrase disk.keys)

def decrypt (keyId ciphertext nonce : String) : Outcome (Printed × Disk) :=
  match validateKeyId c keyId with
  | .error e => .ok (.fail [s!"Invalid key_id: {e}"], disk)
  | .ok () => do
    let vault ← getVault c passphrase disk.keys
    match ← retrieveDecrypted c vault keyId ⟨nonce, ciphertext, keyId⟩ passphrase δ.elapsed disk.keys with
    | .error e => .ok (.fail [s!"Decryption failed: {e}"], disk)
    | .ok plain => .ok (.ok [fromUtf8Lossy plain], disk)

def listKeys : Outcome (Printed × Disk) := do
  let vault ← getVault c passphrase disk.keys
  let keys ← vault.listKeypairs
  let userKeys := keys.filter fun k => !reserved k
  .ok (.ok (if userKeys.isEmpty then ["No keys stored"] else "Stored keys:" :: userKeys.map fun key => s!"  - {key}"), disk)

def deleteBody (keyId : String) (vault : Vault) : Outcome (Printed × Disk) := do
  let (o, vault) := vault.removeKeypair keyId
  o
  let disk ← persist c vault passphrase δ disk
  .ok (.ok [s!"Deleted key: {keyId}"], disk)

def deleteKey (keyId : String) : Outcome (Printed × Disk) :=
  match validateKeyId c keyId with
  | .error e => .ok (.fail [s!"Invalid key_id: {e}"], disk)
  | .ok () => do deleteBody c passphrase δ disk keyId (← getVault c passphrase disk.keys)

/-- the whole directory goes, with both key files -/
def clearCache : Outcome (Printed × Disk) := .ok (.ok ["Vault cleared (all keys removed)"], ⟨.missing, .missing⟩)

def shamirSplit (secret : String) (threshold shares : ℕ) : Outcome (Printed × Disk) :=
  if threshold < 2 then .ok (.fail ["Threshold must be >= 2"], disk)
  else if shares < threshold then .ok (.fail [s!"Shares ({shares}) must be >= threshold ({threshold})"], disk)
  else if shares > 255 then .ok (.fail ["Shares must be <= 255"], disk)
  else do
    let encoded := Shamir.encodeShares c.base64 (← Shamir.split δ.shamirRandom (utf8 secret) threshold shares)
    .ok (.ok ([s!"SHAMIR Secret Sharing ({threshold}, {shares})", s!"Secret length: {secret.utf8ByteSize} bytes", "",
      s!"Store each share separately. Any {threshold} shares can recover the secret.", ""] ++
      encoded.zipIdx.map fun s => s!"Share {s.2 + 1}: {s.1}"), disk)

def shamirJoin (shares : List String) : Outcome (Printed × Disk) :=
  if shares.length < 2 then .ok (.fail ["Need at least 2 shares to reconstruct"], disk)
  else match Shamir.decodeShares c.base64 shares with
    | .error e => .ok (.fail [s!"Invalid share format: {e}"], disk)
    | .ok decoded => do
      let recovered ← Shamir.reconstruct decoded
      .ok (.ok [match fromUtf8 recovered with
        | some s => s
        | none => c.base64.encode recovered], disk)

/-- `ml_dsa::serialize_keypair` -/
def serializeKeypair (kp : MldsaKeypair) : String :=
  "\x7b\"signing_key\":\"" ++ c.base64.encode kp.signingKey ++ "\",\"verifying_key\":\"" ++
    c.base64.encode kp.verifyingKey ++ "\"\x7d"

/-- the lines that every `mldsa-init` begins with -/
def mldsaHeader (keypair : MldsaKeypair) : List String :=
  ["ML-DSA-65 Keypair Generated", "Security Category: 3 (equivalent to AES-192)",
    s!"Signing Key Size: {keypair.signingKey.length} bytes",
    s!"Verifying Key Size: {keypair.verifyingKey.length} bytes", ""]

def mldsaInit (keyId : Option String) : Outcome (Printed × Disk) :=
  match mldsaGenerateKeypair c δ.mldsaSeed with
  | .error e => Outcome.panic s!"Key generation failed: {e}"
  | .ok keypair =>
    let json := serializeKeypair c keypair
    let header := mldsaHeader keypair
    match keyId with
    | some id =>
      match validateKeyId c id with
      | .error e => .ok (⟨header, [s!"Invalid key_id: {e}"], 1⟩, disk)
      | .ok () =>
        match persistMldsaKeys c [(id, keypair)] passphrase δ disk with
        | (.ok (), disk) => .ok (.ok (header ++ [s!"Stored in vault with key_id: {id}",
            s!"Verify Key: {c.base64.encode keypair.verifyingKey}"]), disk)
        | (.error e, disk) => .ok (⟨header ++ ["Exported as JSON for manual storage:", json],
            [s!"Failed to store in vault: {e}"], 0⟩, disk)
    | none => .ok (.ok (header ++ [s!"Sign Key: {c.base64.encode keypair.signingKey}", "",
        s!"Verify Key: {c.base64.encode keypair.verifyingKey}", "",
        "Store both keys securely. Never share the signing key.", "Exported as JSON for vault storage:", json, "",
        "To store in vault, run with --key-id <id>"]), disk)

def mldsaSignCmd (keyId : String) (data : Option String) : Outcome (Printed × Disk) :=
  match validateKeyId c keyId with
  | .error e => .ok (.fail [s!"Invalid key_id: {e}"], disk)
  | .ok () => do
    let dataBytes := utf8 (data.getD δ.stdin)
    match ← signWithVault c keyId dataBytes passphrase δ.signRandom disk.mldsaKeys with
    | .ok signature => .ok (.ok [s!"Data Hash (SHA3-512): {c.base64.encode (c.sha3_512 dataBytes)}",
        s!"Signature: {c.base64.encode signature}"], disk)
    | .error e => .ok (.fail [s!"Signing failed: {e}",
        s!"Ensure key '{keyId}' exists in vault (run 'mldsa-init --key-id {keyId}' first)"], disk)

def mldsaVerifyCmd (keyId data signature : String) : Outcome (Printed × Disk) :=
  match validateKeyId c keyId with
  | .error e => .ok (.fail [s!"Invalid key_id: {e}"], disk)
  | .ok () =>
    match c.base64.decode signature with
    | .error e => Outcome.panic s!"Invalid base64 signature: {e}"
    | .ok sigBytes => do
      match ← verifyWithVault c keyId (utf8 data) sigBytes passphrase disk.mldsaKeys with
      | .ok true => .ok (.ok ["Signature VALID"], disk)
      | .ok false => .ok (⟨["Signature INVALID"], [], 1⟩, disk)
      | .error e => .ok (.fail [s!"Verification error: {e}"], disk)

def mldsaListCmd : Outcome (Printed × Disk) := do
  match ← listMldsaKeys c passphrase disk.mldsaKeys with
  | .ok keys => .ok (.ok (if keys.isEmpty then ["No ML-DSA keys stored"]
      else "Stored ML-DSA keys:" :: keys.map fun key => s!"  - {key}"), disk)
  -- the only error that does not set the exit code
  | .error e => .ok (⟨[], [s!"Failed to load keys: {e}"], 0⟩, disk)

def exec : Cmd → Outcome (Printed × Disk)
  | .init keyId => init c passphrase δ disk keyId
  | .encrypt keyId data => encrypt c passphrase δ disk keyId data
  | .decrypt keyId ciphertext nonce => decrypt c passphrase δ disk keyId ciphertext nonce
  | .listKeys => listKeys c passphrase disk
  | .deleteKey keyId => deleteKey c passphrase δ disk keyId
  | .clearCache => clearCache
  | .shamirSplit secret threshold shares => shamirSplit c δ disk secret threshold shares
  | .shamirJoin shares => shamirJoin c disk shares
  | .mldsaInit keyId => mldsaInit c passphrase δ disk keyId
  | .mldsaSign keyId data => mldsaSignCmd c passphrase δ disk keyId data
  | .mldsaVerify keyId data signature => mldsaVerifyCmd c passphrase disk keyId data signature
  | .mldsaList => mldsaListCmd c passphrase disk

/-- the commands that get as far as writing `keys.enc` -/
def Cmd.Persists (δ : CmdDraw) : Cmd → Prop
  | .init keyId => validateKeyId c keyId = .ok ()
  | .encrypt keyId data =>
    validateKeyId c keyId = .ok () ∧ data.utf8ByteSize ≤ 1024 * 1024 ∧ δ.elapsed ≤ HANDSHAKE_TIMEOUT_MS
  | .deleteKey keyId => validateKeyId c keyId = .ok ()
  | _ => False

/-- what a command prints, or its panic -/
def output (cmd : Cmd) : Outcome Printed := Prod.fst <$> exec c passphrase δ disk cmd

/-- the disk after a command -/
def after (cmd : Cmd) : Disk :=
  match exec c passphrase δ disk cmd with
  | .ok r => r.2
  | .error _ => disk

end

/-- the disk after a sequence of commands -/
def afterAll {Key : Type} (c : VaultCrates Key) (passphrase : String) (disk : Disk) (run : List (Cmd × CmdDraw)) : Disk :=
  Run.after (fun disk r => after c passphrase r.2 disk r.1) disk run

/-! ## Commands in terms of the key list -/

section

variable {Key : Type} {c : VaultCrates Key} {passphrase : String} {δ : CmdDraw} {disk : Disk}

/-- the text of a new key -/
def printedKey (c : VaultCrates Key) (δ : CmdDraw) (keyId : String) : Printed :=
  .ok [s!"Generated keypair: {keyId}", s!"Public key: {(keygen c.toCrates δ.seed).1.publicKey}"]

/-- the text of a ciphertext -/
def printedCiphertext (ct : Ciphertext) : Printed := .ok [s!"Ciphertext: {ct.ciphertext}", s!"Nonce: {ct.nonce}"]

theorem initBody_of (keyId : String) (t : List Entry) :
    initBody c passphrase δ disk keyId (.of t) = .ok (printedKey c δ keyId,
      { disk with keys := δ.write.file (keysBlob c passphrase δ (Table.add keyId (keygen c.toCrates δ.seed) t)) }) := by
  simp only [initBody, Vault.generateKeypair_of, Outcome.ok_bind, persist_of]
  rfl

theorem encryptBody_of (keyId data : String) (t : List Entry) :
    encryptBody c passphrase δ disk keyId data (.of t) =
      (fun ct => (printedCiphertext ct,
        { disk with keys := δ.write.file (keysBlob c passphrase δ (Vault.withKey c.toCrates δ.seed t keyId)) })) <$>
        Rust.encrypt c.toCrates δ.toDraw (utf8 data) (Vault.keyFor c.toCrates δ.seed t keyId).2 := by
  simp only [encryptBody, storeEncrypted, Vault.store_of]
  cases Rust.encrypt c.toCrates δ.toDraw (utf8 data) (Vault.keyFor c.toCrates δ.seed t keyId).2 with
  | error p => rfl
  | ok ct =>
    simp only [Outcome.map_ok, Outcome.ok_bind, persist_of]
    rfl

theorem deleteBody_of (keyId : String) (t : List Entry) :
    deleteBody c passphrase δ disk keyId (.of t) = .ok (.ok [s!"Deleted key: {keyId}"],
      { disk with keys := δ.write.file (keysBlob c passphrase δ (Table.remove keyId t)) }) := by
  simp only [deleteBody, Vault.removeKeypair_of, Outcome.ok_bind, persist_of]

theorem init_ok {keyId : String} (hv : validateKeyId c keyId = .ok ()) :
    init c passphrase δ disk keyId = initBody c passphrase δ disk keyId (.of (loaded c passphrase disk.keys)) := by
  simp only [init, hv, getVault_eq, Outcome.ok_bind]

theorem encrypt_ok {keyId data : String} (hv : validateKeyId c keyId = .ok ())
    (hl : data.utf8ByteSize ≤ 1024 * 1024) : encrypt c passphrase δ disk keyId data =
      encryptBody c passphrase δ disk keyId data (.of (loaded c passphrase disk.keys)) := by
  simp only [encrypt, hv, if_neg (Nat.not_lt.2 hl), getVault_eq, Outcome.ok_bind]

theorem deleteKey_ok {keyId : String} (hv : validateKeyId c keyId = .ok ()) :
    deleteKey c passphrase δ disk keyId = deleteBody c passphrase δ disk keyId (.of (loaded c passphrase disk.keys)) := by
  simp only [deleteKey, hv, getVault_eq, Outcome.ok_bind]

/-- a decryption of what a key sealed, with the key that the id has now -/
theorem decrypt_of_get {keyId : String} (hv : validateKeyId c keyId = .ok ()) {kp : KeyPair} {sk : Bytes}
    (hg : Table.get keyId (loaded c passphrase disk.keys) = some (kp, sk)) (ciphertext nonce : String) :
    decrypt c passphrase δ disk keyId ciphertext nonce = (do
      match ← Rust.decrypt c.toCrates δ.elapsed ⟨nonce, ciphertext, keyId⟩ sk with
      | .error e => .ok (.fail [s!"Decryption failed: {e}"], disk)
      | .ok plain => .ok (.ok [fromUtf8Lossy plain], disk)) := by
  simp only [decrypt, hv, getVault_eq, Outcome.ok_bind, retrieveDecrypted, loadAdditionalKeys_of_loaded,
    Vault.retrieve_of_get hg]

/-! ## What a command leaves alone -/

variable {p : Printed} {disk' : Disk}

theorem decrypt_disk {keyId ciphertext nonce : String}
    (h : decrypt c passphrase δ disk keyId ciphertext nonce = .ok (p, disk')) : disk' = disk := by
  unfold decrypt at h
  split at h
  · cases h
    rfl
  · obtain ⟨vault, -, h⟩ := Outcome.bind_eq_ok h
    obtain ⟨r, -, h⟩ := Outcome.bind_eq_ok h
    split at h <;> cases h <;> rfl

theorem listKeys_disk (h : listKeys c passphrase disk = .ok (p, disk')) : disk' = disk := by
  obtain ⟨vault, -, h⟩ := Outcome.bind_eq_ok h
  obtain ⟨keys, -, h⟩ := Outcome.bind_eq_ok h
  cases h
  rfl

theorem shamirSplit_disk {secret : String} {threshold shares : ℕ}
    (h : shamirSplit c δ disk secret threshold shares = .ok (p, disk')) : disk' = disk := by
  unfold shamirSplit at h
  split_ifs at h
  · cases h; rfl
  · cases h; rfl
  · cases h; rfl
  · obtain ⟨r, -, h⟩ := Outcome.bind_eq_ok h
    cases h
    rfl

theorem shamirJoin_disk {shares : List String} (h : shamirJoin c disk shares = .ok (p, disk')) : disk' = disk := by
  unfold shamirJoin at h
  split_ifs at h
  · cases h; rfl
  · split at h
    · cases h; rfl
    · obtain ⟨r, -, h⟩ := Outcome.bind_eq_ok h
      cases h
      rfl

theorem mldsaInit_keys {keyId : Option String} (h : mldsaInit c passphrase δ disk keyId = .ok (p, disk')) :
    disk'.keys = disk.keys := by
  unfold mldsaInit at h
  split at h
  · cases h
  · dsimp only at h
    split at h
    · split at h
      · cases h; rfl
      · rename_i keypair _ _ id _ _
        have hk := persistMldsaKeys_keys (c := c) [(id, keypair)] passphrase δ disk
        split at h
        all_goals
          rename_i hp
          rw [hp] at hk
          cases h
          exact hk
    · cases h; rfl

theorem mldsaSign_disk {keyId : String} {data : Option String}
    (h : mldsaSignCmd c passphrase δ disk keyId data = .ok (p, disk')) : disk' = disk := by
  unfold mldsaSignCmd at h
  split at h
  · cases h; rfl
  · obtain ⟨r, -, h⟩ := Outcome.bind_eq_ok h
    split at h <;> cases h <;> rfl

theorem mldsaVerify_disk {keyId data signature : String}
    (h : mldsaVerifyCmd c passphrase disk keyId data signature = .ok (p, disk')) : disk' = disk := by
  unfold mldsaVerifyCmd at h
  split at h
  · cases h; rfl
  · split at h
    · cases h
    · obtain ⟨r, -, h⟩ := Outcome.bind_eq_ok h
      split at h <;> cases h <;> rfl

theorem mldsaList_disk (h : mldsaListCmd c passphrase disk = .ok (p, disk')) : disk' = disk := by
  obtain ⟨r, -, h⟩ := Outcome.bind_eq_ok h
  split at h <;> cases h <;> rfl

theorem validateKeyId_ok_or (keyId : String) : validateKeyId c keyId = .ok () ∨ ∃ e, validateKeyId c keyId = .error e := by
  cases validateKeyId c keyId with
  | ok u => exact Or.inl rfl
  | error e => exact Or.inr ⟨e, rfl⟩

theorem after_eq {cmd : Cmd} (h : exec c passphrase δ disk cmd = .ok (p, disk')) :
    after c passphrase δ disk cmd = disk' := by
  rw [after, h]

/-- what holds of the disk before a command and of every disk it returns holds after it -/
theorem after_of_exec {P : Disk → Prop} {cmd : Cmd} (h0 : P disk)
    (h : ∀ p disk', exec c passphrase δ disk cmd = .ok (p, disk') → P disk') : P (after c passphrase δ disk cmd) := by
  unfold after
  cases he : exec c passphrase δ disk cmd with
  | error e => exact h0
  | ok r => exact h r.1 r.2 he

/-- a rejected command, a panicking one and one that only reads leave the key file alone -/
theorem after_keys_of_not_persists {cmd : Cmd} (hcl : cmd ≠ .clearCache) (h : ¬ cmd.Persists c δ) :
    (after c passphrase δ disk cmd).keys = disk.keys := by
  have hread : (∀ p disk', exec c passphrase δ disk cmd = .ok (p, disk') → disk'.keys = disk.keys) →
      (after c passphrase δ disk cmd).keys = disk.keys := by
    exact after_of_exec (P := fun d => d.keys = disk.keys) rfl
  cases cmd with
  | init keyId =>
    obtain ⟨e, he⟩ := (validateKeyId_ok_or keyId).resolve_left h
    simp only [after, exec, init, he]
  | encrypt keyId data =>
    rcases validateKeyId_ok_or (c := c) keyId with hv | ⟨e, he⟩
    · by_cases hl : data.utf8ByteSize ≤ 1024 * 1024
      · have ht : δ.elapsed > HANDSHAKE_TIMEOUT_MS := Nat.lt_of_not_le fun ht => h ⟨hv, hl, ht⟩
        have hx : exec c passphrase δ disk (.encrypt keyId data) = _ := encrypt_ok hv hl
        rw [encryptBody_of, Rust.encrypt, if_pos ht] at hx
        rw [after, hx]
        rfl
      · simp only [after, exec, encrypt, hv, if_pos (Nat.lt_of_not_le hl)]
    · simp only [after, exec, encrypt, he]
  | deleteKey keyId =>
    obtain ⟨e, he⟩ := (validateKeyId_ok_or keyId).resolve_left h
    simp only [after, exec, deleteKey, he]
  | clearCache => exact absurd rfl hcl
  | decrypt keyId ciphertext nonce => exact hread fun p disk' h => congrArg Disk.keys (decrypt_disk h)
  | listKeys => exact hread fun p disk' h => congrArg Disk.keys (listKeys_disk h)
  | shamirSplit secret threshold shares => exact hread fun p disk' h => congrArg Disk.keys (shamirSplit_disk h)
  | shamirJoin shares => exact hread fun p disk' h => congrArg Disk.keys (shamirJoin_disk h)
  | mldsaInit keyId => exact hread fun p disk' h => mldsaInit_keys h
  | mldsaSign keyId data => exact hread fun p disk' h => congrArg Disk.keys (mldsaSign_disk h)
  | mldsaVerify keyId data signature => exact hread fun p disk' h => congrArg Disk.keys (mldsaVerify_disk h)
  | mldsaList => exact hread fun p disk' h => congrArg Disk.keys (mldsaList_disk h)

theorem init_mldsaKeys {keyId : String} (h : init c passphrase δ disk keyId = .ok (p, disk')) :
    disk'.mldsaKeys = disk.mldsaKeys := by
  rcases validateKeyId_ok_or (c := c) keyId with hv | ⟨e, he⟩
  · rw [init_ok hv, initBody_of] at h
    cases h
    rfl
  · rw [init, he] at h
    cases h
    rfl

theorem encrypt_mldsaKeys {keyId data : String} (h : encrypt c passphrase δ disk keyId data = .ok (p, disk')) :
    disk'.mldsaKeys = disk.mldsaKeys := by
  rcases validateKeyId_ok_or (c := c) keyId with hv | ⟨e, he⟩
  · by_cases hl : data.utf8ByteSize ≤ 1024 * 1024
    · rw [encrypt_ok hv hl, encryptBody_of] at h
      obtain ⟨ct, -, h⟩ := Outcome.map_eq_ok h
      cases h
      rfl
    · simp only [encrypt, hv, if_pos (Nat.lt_of_not_le hl)] at h
      cases h
      rfl
  · rw [encrypt, he] at h
    cases h
    rfl

theorem deleteKey_mldsaKeys {keyId : String} (h : deleteKey c passphrase δ disk keyId = .ok (p, disk')) :
    disk'.mldsaKeys = disk.mldsaKeys := by
  rcases validateKeyId_ok_or (c := c) keyId with hv | ⟨e, he⟩
  · rw [deleteKey_ok hv, deleteBody_of] at h
    cases h
    rfl
  · rw [deleteKey, he] at h
    cases h
    rfl

variable (passphrase disk) in
/-- a command that persists writes some key list under its own passphrase, whatever it loaded -/
theorem after_keys_of_persists {cmd : Cmd} (h : cmd.Persists c δ) :
    ∃ t, (after c passphrase δ disk cmd).keys = δ.write.file (keysBlob c passphrase δ t) := by
  cases cmd with
  | init keyId =>
    have hx : exec c passphrase δ disk (.init keyId) = _ := init_ok h
    rw [initBody_of] at hx
    exact ⟨_, congrArg Disk.keys (after_eq hx)⟩
  | encrypt keyId data =>
    have hx : exec c passphrase δ disk (.encrypt keyId data) = _ := encrypt_ok h.1 h.2.1
    rw [encryptBody_of, Rust.encrypt_ok h.2.2, Outcome.map_ok] at hx
    exact ⟨_, congrArg Disk.keys (after_eq hx)⟩
  | deleteKey keyId =>
    have hx : exec c passphrase δ disk (.deleteKey keyId) = _ := deleteKey_ok h
    rw [deleteBody_of] at hx
    exact ⟨_, congrArg Disk.keys (after_eq hx)⟩
  | clearCache => cases h
  | decrypt keyId ciphertext nonce => cases h
  | listKeys => cases h
  | shamirSplit secret threshold shares => cases h
  | shamirJoin shares => cases h
  | mldsaInit keyId => cases h
  | mldsaSign keyId data => cases h
  | mldsaVerify keyId data signature => cases h
  | mldsaList => cases h

end

end AbirGuard.Rust.Cli
