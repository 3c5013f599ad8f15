/-
The encrypted key file of the Python package: `EncryptedVault` and the migration to it (`crypto_store.py`).

Argon2id, the cipher and the MAC are parameters, and so is the type of floats. The key map is a JSON value, since `load` takes
whatever the file holds; what is no object can only be stored back. Calls on files are taken to succeed. The canary file and
the audit file, which no key depends on, are left out.

- `decryptBlob_encryptBlob`: a blob opens under its key, and under no other.
- `save_ok`, `load_saved`: what a save leaves, and what a fresh vault makes of it.
- `loads_iff`: when that is the key map that was saved.
-/
import AbirGuard.Core.Run
import AbirGuard.Python.Lang
import AbirGuard.Core.Raise

namespace AbirGuard.Python.CryptoStore

open AbirGuard.Core Raise

/-! ## Model -/

def SALT_SIZE : ℕ := 16

def NONCE_SIZE : ℕ := 12

def TAG_SIZE : ℕ := 32

abbrev Salt : Type := Vector UInt8 SALT_SIZE

/-- the primitives, and the texts of two exceptions of the standard library -/
structure Crates (F : Type) where
  /-- from passphrase and salt -/
  argon2id : Bytes → Salt → Digest
  gcm : Aead Digest
  /-- HMAC with SHA-256, from key and message -/
  hmac : Digest → Bytes → Digest
  float : FloatText F
  decodeError : Bytes → Text
  jsonError : Text → Text

/-- what the host answers during one call -/
structure Draw (F : Type) where
  salt : Salt
  nonce : Nonce
  time : F
  canaryId : Vector UInt8 8

variable {F : Type} (c : Crates F)

/-- the key for a salt -/
def deriveMasterKey (passphrase : Text) (salt : Salt) : Except Exc Digest := do
  .ok (c.argon2id (← encodeUtf8 passphrase) salt)

/-- nonce, ciphertext, tag of the cipher, MAC over nonce and ciphertext -/
def encryptBlob (nonce : Nonce) (data : Bytes) (key : Digest) : Except Exc Bytes :=
  if 2 ^ 31 - 1 < data.length then .error ⟨.overflowError, "Data or associated data too long. Max 2**31 - 1 bytes"⟩
  else
    let ctWithTag := c.gcm.encrypt key nonce data
    let gcmTag := ctWithTag.drop (ctWithTag.length - 16)
    let ciphertext := ctWithTag.take (ctWithTag.length - 16)
    .ok (nonce.toList ++ ciphertext ++ gcmTag ++ (c.hmac key (nonce.toList ++ ciphertext)).toList)

/-- `AESGCM(key).decrypt(nonce, data, None)` -/
def gcmOpen (key : Digest) (nonce data : Bytes) : Except Exc Bytes :=
  match nonceFromSlice nonce with
  | .error _ => .error ⟨.valueError, "Nonce must be between 8 and 128 bytes"⟩
  | .ok nonce =>
    match c.gcm.decrypt key nonce data with
    | some p => .ok p
    | none => .error ⟨.invalidTag, ""⟩

def decryptBlob (blob : Bytes) (key : Digest) : Except Exc Bytes :=
  if blob.length < NONCE_SIZE + TAG_SIZE + 16 then .error ⟨.valueError, "Blob too short to be valid encrypted data"⟩
  else
    let nonce := blob.take NONCE_SIZE
    let mac := blob.drop (blob.length - TAG_SIZE)
    let gcmTag := (blob.drop (blob.length - (TAG_SIZE + 16))).take 16
    let ciphertext := (blob.take (blob.length - (TAG_SIZE + 16))).drop NONCE_SIZE
    if (c.hmac key (nonce ++ ciphertext)).toList ≠ mac then
      .error ⟨.valueError, "Tamper detected: HMAC verification failed"⟩
    else gcmOpen c key nonce (ciphertext ++ gcmTag)

structure EncryptedVault (F : Type) where
  passphrase : Text
  keys : Json F
  salt : Option Salt
  masterKey : Option Digest

/-- `keys.enc`, and the old `keys.json` as it reads -/
structure Files where
  keysEnc : Option Bytes
  keysJson : Option Text

structure Store (F : Type) where
  files : Files
  vault : EncryptedVault F

abbrev StoreM (F α : Type) : Type := Raise Exc (Store F) α

namespace EncryptedVault

def new (passphrase : Text) : EncryptedVault F := ⟨passphrase, .obj [], none, none⟩

def update (g : EncryptedVault F → EncryptedVault F) : StoreM F Unit := modify fun s => { s with vault := g s.vault }

def getKey (δ : Draw F) : StoreM F Digest := do
  let s ← get
  match s.vault.masterKey with
  | some key => return key
  | none =>
    let salt := s.vault.salt.getD δ.salt
    let key ← lift (deriveMasterKey c s.vault.passphrase salt)
    update fun v => { v with salt := some salt, masterKey := some key }
    return key

/-- `_keys[key_id] = entry` and the like, on an object -/
def onObject (f : List (Text × Json F) → List (Text × Json F)) : Json F → Except Exc (Json F)
  | .obj l => .ok (.obj (f l))
  | _ => .error ⟨.typeError, "the key map is no object"⟩

def entry (δ : Draw F) (publicKey secretKey : Json F) : Json F :=
  .obj [("public_key", publicKey), ("secret_key", secretKey), ("created_at", .float δ.time)]

def storeKey (δ : Draw F) (keyId : Text) (publicKey secretKey : Json F) : StoreM F Unit := do
  let s ← get
  let keys ← lift (onObject (Table.set keyId (entry δ publicKey secretKey)) s.vault.keys)
  update fun v => { v with keys := keys }

def removeKey (keyId : Text) : StoreM F Unit := do
  let s ← get
  let keys ← lift (onObject (Table.remove keyId) s.vault.keys)
  update fun v => { v with keys := keys }

/-- the file that is written apart -/
def addCanary (δ : Draw F) : StoreM F Unit :=
  storeKey δ ("__canary_" ++ Text.hexdigest δ.canaryId.toList) (.str "canary-pub") (.str "canary-secret")

def save (δ : Draw F) : StoreM F Unit := do
  let masterKey ← getKey c δ
  let s ← get
  let data ← lift (encodeUtf8 (Json.dumps c.float (some 2) s.vault.keys))
  let encrypted ← lift (encryptBlob c δ.nonce data masterKey)
  modify fun s => { s with files := { s.files with keysEnc := some encrypted } }

/-- the bytes of a file as a JSON value -/
def parse (data : Bytes) : Except Exc (Json F) :=
  match Text.decode data with
  | none => .error ⟨.unicodeDecodeError, c.decodeError data⟩
  | some t =>
    match Json.loads c.float t with
    | none => .error ⟨.jsonDecodeError, c.jsonError t⟩
    | some v => .ok v

/-- errors of value are raised anew, every other exception is a `False` -/
def load (δ : Draw F) : StoreM F Bool := do
  let s ← get
  match s.files.keysEnc with
  | none => return false
  | some encrypted =>
    tryCatch
      (do
        let masterKey ← getKey c δ
        let data ← lift (decryptBlob c encrypted masterKey)
        let keys ← lift (parse c data)
        update fun v => { v with keys := keys }
        return true)
      fun e =>
        if e.type.isValueError then throw ⟨.valueError, "Vault load failed: " ++ e.msg⟩ else return false

end EncryptedVault

/-! ## Migration -/

/-- `for entry in old_data` -/
def items : Json F → Except Exc (List (Json F))
  | .arr l => .ok l
  | .obj l => .ok (l.map fun e => .str e.1)
  | .str t => .ok (t.map fun p => .str [p])
  | _ => .error ⟨.typeError, "object is not iterable"⟩

/-- `entry[name]` -/
def item (name : Text) : Json F → Except Exc (Json F)
  | .obj l =>
    match Table.get name l with
    | some v => .ok v
    | none => .error ⟨.keyError, "'" ++ name ++ "'"⟩
  | _ => .error ⟨.typeError, "entry is no object"⟩

/-- a key of the map, as it is written to JSON in the end -/
def dictKey : Json F → Except Exc Text
  | .str t => .ok t
  | .null => .ok "null"
  | .bool b => .ok (if b then "true" else "false")
  | .int n => .ok (Json.NumToken.ofInt n).text
  | .float x => .ok (c.float.token x).text
  | _ => .error ⟨.typeError, "unhashable type"⟩

/-- the entries of the old file, one after another; each has its own draw -/
def storeAll : List (Draw F × Json F) → StoreM F Unit
  | [] => return ()
  | (δ, e) :: rest => do
    let keyId ← lift (item "key_id" e)
    let publicKey ← lift (item "public_key" e)
    let secretKey ← lift (item "secret_key" e)
    let keyId ← lift (dictKey c keyId)
    EncryptedVault.storeKey δ keyId publicKey secretKey
    storeAll rest

/-- the body of the migration, on the vault that it builds; `δs` are the draws of the entries -/
def migrateBody (δ : Draw F) (δs : ℕ → Draw F) (old : Text) : StoreM F Unit := do
  let oldData ← lift (match Json.loads c.float old with
    | some v => .ok v
    | none => .error ⟨.jsonDecodeError, c.jsonError old⟩)
  let entries ← lift (items oldData)
  storeAll c (entries.zipIdx.map fun e => (δs e.2, e.1))
  EncryptedVault.save c δ
  modify fun s => { s with files := { s.files with keysJson := none } }

def migratePlaintextVault (δ : Draw F) (δs : ℕ → Draw F) (passphrase : Text) : Raise Exc Files Bool := do
  let files ← get
  match files.keysJson with
  | none => return false
  | some old =>
    tryCatch
      (do
        zoom (fun files => (⟨files, .new passphrase⟩ : Store F)) (fun s _ => s.files) (migrateBody c δ δs old)
        return true)
      fun _ => return false

/-! ## Blobs -/

section

variable {c}

/-- cutting a blob at the lengths of its parts -/
theorem split_parts {n x t m : Bytes} (hn : n.length = 12) (ht : t.length = 16) (hm : m.length = 32) :
    let b := n ++ x ++ t ++ m
    b.take NONCE_SIZE = n ∧ b.drop (b.length - TAG_SIZE) = m ∧
      (b.drop (b.length - (TAG_SIZE + 16))).take 16 = t ∧ (b.take (b.length - (TAG_SIZE + 16))).drop NONCE_SIZE = x := by
  have hlen : (n ++ x ++ t ++ m).length = x.length + 60 := by
    simp only [List.length_append, hn, ht, hm]
    omega
  have h12 : NONCE_SIZE = n.length := hn.symm
  have hmac : (n ++ x ++ t ++ m).length - TAG_SIZE = (n ++ x ++ t).length := by
    simp only [List.length_append, hn, ht, hm, TAG_SIZE]
    omega
  have htag : (n ++ x ++ t ++ m).length - (TAG_SIZE + 16) = (n ++ x).length := by
    simp only [List.length_append, hn, ht, hm, TAG_SIZE]
    omega
  dsimp only
  rw [hmac, htag]
  refine ⟨?_, List.drop_left, ?_, ?_⟩
  · rw [h12, List.append_assoc, List.append_assoc, List.take_left]
  · rw [List.append_assoc, List.drop_left, ← ht, List.take_left]
  · rw [List.append_assoc (n ++ x), List.take_left, h12, List.drop_left]

/-- **A blob opens under its key, and under no other.** -/
theorem decryptBlob_encryptBlob (hA : c.gcm.Correct) (hmac : ∀ m, Function.Injective fun k => c.hmac k m) {nonce : Nonce}
    {data b : Bytes} {key : Digest} (h : encryptBlob c nonce data key = .ok b) (key' : Digest) :
    decryptBlob c b key' = if key' = key then .ok data else .error ⟨.valueError, "Tamper detected: HMAC verification failed"⟩ := by
  unfold encryptBlob at h
  split_ifs at h with hsize
  cases h
  have hct := hA.length_encrypt key nonce data
  set ct := c.gcm.encrypt key nonce data with hdef
  have htag : (ct.drop (ct.length - 16)).length = 16 := by
    rw [List.length_drop]
    omega
  obtain ⟨h1, h2, h3, h4⟩ := split_parts (x := ct.take (ct.length - 16)) nonce.length_toList htag
    (c.hmac key (nonce.toList ++ ct.take (ct.length - 16))).length_toList
  have hlong : ¬ (nonce.toList ++ ct.take (ct.length - 16) ++ ct.drop (ct.length - 16) ++
      (c.hmac key (nonce.toList ++ ct.take (ct.length - 16))).toList).length < NONCE_SIZE + TAG_SIZE + 16 := by
    simp only [List.length_append, nonce.length_toList, htag, Vector.length_toList, NONCE_SIZE, TAG_SIZE]
    omega
  rw [decryptBlob, if_neg hlong]
  dsimp only at h1 h2 h3 h4 ⊢
  rw [h1, h2, h3, h4, List.take_append_drop]
  by_cases hkey : key' = key
  · rw [if_pos hkey, hkey, if_neg (not_not.2 rfl), gcmOpen, nonceFromSlice_toList]
    dsimp only
    rw [hdef, hA.decrypt_encrypt]
  · rw [if_neg hkey, if_pos]
    intro heq
    exact hkey (hmac _ (Vector.toList_inj.1 heq))

/-! ## Saving and loading -/

namespace EncryptedVault

/-- the master key is the one of the salt; there is one only with the other -/
def Coherent (c : Crates F) (v : EncryptedVault F) : Prop :=
  v.salt = none ∧ v.masterKey = none ∨
    ∃ salt p, v.salt = some salt ∧ v.passphrase.encode = some p ∧ v.masterKey = some (c.argon2id p salt)

/-- the vault once it has derived its key -/
def keyed (δ : Draw F) (key : Digest) (v : EncryptedVault F) : EncryptedVault F :=
  { v with salt := some (v.salt.getD δ.salt), masterKey := some key }

theorem coherent_new (passphrase : Text) : Coherent c (new passphrase) := Or.inl ⟨rfl, rfl⟩

theorem coherent_keyed {v : EncryptedVault F} (δ : Draw F) {p : Bytes} (hp : v.passphrase.encode = some p) :
    Coherent c (v.keyed δ (c.argon2id p (v.salt.getD δ.salt))) := Or.inr ⟨_, p, rfl, hp, rfl⟩

theorem run_getKey {δ : Draw F} {s : Store F} (h : s.vault.Coherent c) {p : Bytes} (hp : s.vault.passphrase.encode = some p) :
    run (getKey c δ) s = (.ok (c.argon2id p (s.vault.salt.getD δ.salt)),
      { s with vault := s.vault.keyed δ (c.argon2id p (s.vault.salt.getD δ.salt)) }) := by
  rw [getKey, run_get_bind]
  rcases h with ⟨hsalt, hkey⟩ | ⟨salt, p', hsalt, hp', hkey⟩
  · rw [hkey]
    dsimp only
    rw [run_lift_bind, deriveMasterKey, encodeUtf8_ok hp]
    rfl
  · rw [hp] at hp'
    cases hp'
    rw [hkey]
    dsimp only
    rw [hsalt, Option.getD_some, keyed, hsalt, ← hkey, Option.getD_some, ← hsalt]
    rfl

/-- without an encoding of the passphrase no key is derived -/
theorem run_getKey_error {δ : Draw F} {s : Store F} (h : s.vault.Coherent c) (hp : s.vault.passphrase.encode = none) :
    run (getKey c δ) s = (.error ⟨.unicodeEncodeError, surrogateError s.vault.passphrase⟩, s) := by
  rw [getKey, run_get_bind]
  rcases h with ⟨-, hkey⟩ | ⟨salt, p', -, hp', -⟩
  · rw [hkey]
    dsimp only
    rw [run_lift_bind, deriveMasterKey, encodeUtf8, hp]
    rfl
  · rw [hp] at hp'
    cases hp'

/-- **What a save leaves**: a blob of the key map under the key of the salt. -/
theorem save_ok {δ : Draw F} {s s' : Store F} {u : Unit} (h : s.vault.Coherent c) (hs : run (save c δ) s = (.ok u, s')) :
    ∃ p data b, s.vault.passphrase.encode = some p ∧ (Json.dumps c.float (some 2) s.vault.keys).encode = some data ∧
      encryptBlob c δ.nonce data (c.argon2id p (s.vault.salt.getD δ.salt)) = .ok b ∧
      s' = ⟨{ s.files with keysEnc := some b }, s.vault.keyed δ (c.argon2id p (s.vault.salt.getD δ.salt))⟩ := by
  cases hp : s.vault.passphrase.encode with
  | none =>
    rw [save, run_bind, run_getKey_error h hp] at hs
    cases hs
  | some p =>
    rw [save, run_bind, run_getKey h hp] at hs
    dsimp only at hs
    obtain ⟨data, hdata⟩ := Json.encode_dumps c.float (some 2) s.vault.keys
    rw [run_get_bind, run_lift_bind, keyed, encodeUtf8_ok hdata] at hs
    dsimp only at hs
    rw [run_lift_bind] at hs
    cases hb : encryptBlob c δ.nonce data (c.argon2id p (s.vault.salt.getD δ.salt)) with
    | error e =>
      rw [hb] at hs
      cases hs
    | ok b =>
      rw [hb] at hs
      cases hs
      exact ⟨p, data, b, rfl, hdata, hb, rfl⟩

/-- a fresh vault loads the file to this key map -/
def Loads (c : Crates F) (δ : Draw F) (files : Files) (passphrase : Text) (keys : Json F) : Prop :=
  ∃ s, run (load c δ) ⟨files, .new passphrase⟩ = (.ok true, s) ∧ s.vault.keys = keys

/-- what a fresh vault makes of a blob -/
theorem load_saved (hA : c.gcm.Correct) (hmac : ∀ m, Function.Injective fun k => c.hmac k m) (hT : c.float.Lawful)
    {δ δ' : Draw F} {passphrase : Text} {keys : Json F} {p data b : Bytes} {key : Digest} {files : Files}
    (hp : passphrase.encode = some p) (hdata : (Json.dumps c.float (some 2) keys).encode = some data)
    (hb : encryptBlob c δ.nonce data key = .ok b) (hfile : files.keysEnc = some b) :
    run (load c δ') ⟨files, .new passphrase⟩ =
      let v := (new passphrase).keyed δ' (c.argon2id p δ'.salt)
      if c.argon2id p δ'.salt = key then (.ok true, ⟨files, { v with keys := keys.normal }⟩)
      else (.error ⟨.valueError, "Vault load failed: " ++ "Tamper detected: HMAC verification failed"⟩, ⟨files, v⟩) := by
  have hkey : run (getKey c δ') ⟨files, .new passphrase⟩ =
      (.ok (c.argon2id p δ'.salt), ⟨files, (new passphrase).keyed δ' (c.argon2id p δ'.salt)⟩) :=
    run_getKey (coherent_new passphrase) hp
  have hparse : parse c data = .ok keys.normal := by
    rw [parse, Text.decode_encode hdata]
    dsimp only
    rw [Json.loads_dumps (some 2) hT]
  rw [load, run_get_bind, hfile]
  dsimp only
  rw [run_tryCatch, run_bind_of_ok hkey, run_lift_bind, decryptBlob_encryptBlob hA hmac hb]
  split_ifs
  · dsimp only
    rw [run_lift_bind, hparse]
    rfl
  · rfl

/-- **A fresh vault gets back what was saved** if and only if it derives the same key and no string of the key map changes in
JSON. -/
theorem loads_iff (hA : c.gcm.Correct) (hmac : ∀ m, Function.Injective fun k => c.hmac k m) (hT : c.float.Lawful)
    {δ δ' : Draw F} {passphrase : Text} {keys : Json F} {p data b : Bytes} {key : Digest} {files : Files}
    (hp : passphrase.encode = some p) (hdata : (Json.dumps c.float (some 2) keys).encode = some data)
    (hb : encryptBlob c δ.nonce data key = .ok b) (hfile : files.keysEnc = some b) :
    Loads c δ' files passphrase keys ↔ c.argon2id p δ'.salt = key ∧ keys.Clean := by
  rw [Loads, load_saved hA hmac hT hp hdata hb hfile, ← Json.normal_eq_self_iff]
  dsimp only
  split_ifs with hkey
  · constructor
    · rintro ⟨s, hs, hkeys⟩
      cases hs
      exact ⟨hkey, hkeys⟩
    · rintro ⟨-, hn⟩
      exact ⟨_, rfl, hn⟩
  · refine iff_of_false ?_ fun h => hkey h.1
    rintro ⟨s, hs, -⟩
    cases hs

end EncryptedVault

end

end AbirGuard.Python.CryptoStore
