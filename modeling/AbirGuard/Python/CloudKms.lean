/-
Envelope encryption behind a key management service, and the encryption of model files on top of it.

`CloudKmsEnvelope` encrypts with a fresh key that its backend wraps (`cloud_kms.py`); `ModelWeightEncryptor` writes such an
envelope to a file as JSON and restores it (`model_weight_encryption.py`). The two cloud clients, the AES-GCM of the library and
`str.lower` are parameters, so a backend may be anything that wraps and unwraps.

- `Content`: what a file is about, bytes or a bundle around another content, and `plainStep`: what the calls do to contents.
- `files_hold_contents`: the files of every run are the contents written out, and a bundle opens for exactly those whose
  provider has its name and whose backend gives back the key.
- `mock_opens_iff`: for the mock backends that is the hash of the key id, and not the key id that the file names.
- `pipeline_restores`: every artifact of a fine-tuning run comes back from under its own label.
-/
import AbirGuard.Core.Dict
import AbirGuard.Core.Raise
import AbirGuard.Core.Record
import AbirGuard.Core.Run
import AbirGuard.Python.JsonValue

namespace AbirGuard.Python.CloudKms

open AbirGuard.Core JsonValue

/-! ## Model -/

inductive Failure where
  | kmsError (msg : Text)
  | fileNotFound
  | osError
  | raised (e : Exc)
deriving DecidableEq

abbrev Files (π : Type) : Type := π → Option Bytes

structure AwsClient where
  encrypt : Text → Bytes → Except Text Bytes
  /-- the blob names its key -/
  decrypt : Bytes → Except Text Bytes

structure GcpClient where
  encrypt : Text → Bytes → Except Text Bytes
  decrypt : Text → Bytes → Except Text Bytes

/-- the libraries; a client is there if its package is -/
structure Env where
  gcmEncrypt : Bytes → Bytes → Bytes → Option Bytes → Bytes
  gcmDecrypt : Bytes → Bytes → Bytes → Option Bytes → Option Bytes
  sha256 : Bytes → Digest
  float : FloatText ℚ
  /-- `str.lower` -/
  lower : Text → Text
  /-- `format(v, "")` of a value that is no string -/
  repr : Json ℚ → Text
  decodeError : Bytes → Text
  jsonError : Text → Text
  boto3 : Option (Option Text → AwsClient)
  kmsV1 : Option GcpClient

structure KmsBackend where
  wrapKey : Bytes → Except Failure Bytes
  unwrapKey : Bytes → Except Failure Bytes

/-- the fields come from JSON and may be any value -/
structure EnvelopeCiphertext where
  wrappedKey : Json ℚ
  nonce : Json ℚ
  ciphertext : Json ℚ
  provider : Json ℚ
  keyId : Json ℚ

structure CloudKmsEnvelope where
  provider : Text
  keyId : Text
  backend : KmsBackend

/-- the random bytes of one encryption -/
structure Draw where
  dek : Vector UInt8 32
  nonce : Nonce

section Model

variable (env : Env)

def raised {α : Type} (x : Except Exc α) : Except Failure α := x.mapError .raised

def wrapped {α : Type} (what : String) (x : Except Text α) : Except Failure α :=
  x.mapError fun exc => .kmsError (Text.ofString what ++ exc)

def EnvelopeCiphertext.toDict (self : EnvelopeCiphertext) : Json ℚ :=
  .obj [("wrapped_key", self.wrappedKey), ("nonce", self.nonce), ("ciphertext", self.ciphertext),
    ("provider", self.provider), ("key_id", self.keyId)]

def EnvelopeCiphertext.fromDict (data : Json ℚ) : Except Exc EnvelopeCiphertext := do
  let wrappedKey ← getItem "wrapped_key" data
  let nonce ← getItem "nonce" data
  let ciphertext ← getItem "ciphertext" data
  let provider ← getItem "provider" data
  let keyId ← getItem "key_id" data
  return ⟨wrappedKey, nonce, ciphertext, provider, keyId⟩

/-- the xor with the wrapping key, repeated -/
def LocalMockKmsBackend.wrapKey (wrappingKey : Digest) (plaintextKey : Bytes) : Bytes :=
  plaintextKey.mapIdx fun i b => b ^^^ wrappingKey.toList.getD (i % wrappingKey.toList.length) 0

def LocalMockKmsBackend.new (keyId : Text) : Except Failure KmsBackend := do
  let name ← raised (encodeUtf8 keyId)
  let wrap := fun b => .ok (wrapKey (env.sha256 name) b)
  return ⟨wrap, wrap⟩

def AwsKmsBackend.new (keyId : Text) (region : Option Text) : Except Failure KmsBackend :=
  match env.boto3 with
  | none => .error (.kmsError "boto3 is required for AwsKmsBackend")
  | some client =>
    let client := client (region.filter (· ≠ []))
    .ok ⟨fun b => wrapped "AWS KMS encrypt failed: " (client.encrypt keyId b),
      fun b => wrapped "AWS KMS decrypt failed: " (client.decrypt b)⟩

def GcpKmsBackend.new (keyId : Text) : Except Failure KmsBackend :=
  match env.kmsV1 with
  | none => .error (.kmsError "google-cloud-kms is required for GcpKmsBackend")
  | some client =>
    .ok ⟨fun b => wrapped "GCP KMS encrypt failed: " (client.encrypt keyId b),
      fun b => wrapped "GCP KMS decrypt failed: " (client.decrypt keyId b)⟩

/-- `AESGCM(key).encrypt(nonce, data, aad)` -/
def gcmSeal (key nonce data : Bytes) (aad : Option Bytes) : Except Exc Bytes := do
  AESGCM.new key
  if 2 ^ 31 - 1 < data.length ∨ 2 ^ 31 - 1 < (aad.getD []).length then
    .error ⟨.overflowError, "Data or associated data too long. Max 2**31 - 1 bytes"⟩
  else do
    AESGCM.checkNonce nonce
    .ok (env.gcmEncrypt key nonce data aad)

/-- `AESGCM(key).decrypt(nonce, data, aad)` -/
def gcmOpen (key nonce data : Bytes) (aad : Option Bytes) : Except Exc Bytes := do
  AESGCM.new key
  AESGCM.checkNonce nonce
  match env.gcmDecrypt key nonce data aad with
  | some p => .ok p
  | none => .error ⟨.invalidTag, ""⟩

namespace CloudKmsEnvelope

def new (provider keyId : Text) (backend : Option KmsBackend) : Except Failure CloudKmsEnvelope :=
  let name := env.lower provider
  match backend with
  | some backend => .ok ⟨name, keyId, backend⟩
  | none =>
    if name = ("aws" : Text) then (⟨name, keyId, ·⟩) <$> AwsKmsBackend.new env keyId none
    else if name = ("gcp" : Text) then (⟨name, keyId, ·⟩) <$> GcpKmsBackend.new env keyId
    else if name = ("mock" : Text) then (⟨name, keyId, ·⟩) <$> LocalMockKmsBackend.new env keyId
    else .error (.kmsError ("Unsupported KMS provider: " ++ provider))

variable (self : CloudKmsEnvelope)

def encrypt (δ : Draw) (plaintext : Bytes) (aad : Option Bytes) : Except Failure EnvelopeCiphertext := do
  let ct ← raised (gcmSeal env δ.dek.toList δ.nonce.toList plaintext aad)
  let wrapped ← self.backend.wrapKey δ.dek.toList
  return ⟨.str (b64encode wrapped), .str (b64encode δ.nonce.toList), .str (b64encode ct), .str self.provider, .str self.keyId⟩

/-- a value in an f-string -/
def format : Json ℚ → Text
  | .str t => t
  | v => env.repr v

def sameText (t : Text) : Json ℚ → Bool
  | .str u => u = t
  | _ => false

/-- the key id of the payload is not looked at -/
def decrypt (payload : EnvelopeCiphertext) (aad : Option Bytes) : Except Failure Bytes := do
  if !sameText self.provider payload.provider then
    .error (.kmsError ("Provider mismatch: payload=" ++ format env payload.provider ++ ", configured=" ++ self.provider))
  else do
    let wrapped ← raised (JsonValue.b64decode payload.wrappedKey)
    let nonce ← raised (JsonValue.b64decode payload.nonce)
    let ct ← raised (JsonValue.b64decode payload.ciphertext)
    let dek ← self.backend.unwrapKey wrapped
    raised (gcmOpen env dek nonce ct aad)

end CloudKmsEnvelope

/-- the metadata as the pairs that a dictionary is filled with, in order -/
structure EncryptedModelBundle where
  artifact : EnvelopeCiphertext
  metadata : List (Json ℚ × Json ℚ)

/-- a key of a dictionary as `json.dumps` writes it; a key of another type cannot be there -/
def keyText : Json ℚ → Text
  | .str t => t
  | .bool true => "true"
  | .bool false => "false"
  | .int n => str n
  | .float x => (env.float.token x).text
  | _ => "null"

/-- the element of a sequence of pairs at a place -/
def pairAt (i : ℕ) : Json ℚ → Except Exc (Json ℚ × Json ℚ)
  | .arr [.arr _, _] => .error ⟨.typeError, "unhashable type: 'list'"⟩
  | .arr [.obj _, _] => .error ⟨.typeError, "unhashable type: 'dict'"⟩
  | .arr [k, v] => .ok (k, v)
  | .str [p, q] => .ok (.str [p], .str [q])
  | .obj [k, v] => .ok (.str k.1, .str v.1)
  | v =>
    match length? v with
    | some n => .error ⟨.valueError, s!"dictionary update sequence element #{i} has length {n}; 2 is required"⟩
    | none => .error ⟨.typeError, s!"cannot convert dictionary update sequence element #{i} to a sequence"⟩

/-- `dict(v)` -/
def dictOf : Json ℚ → Except Exc (List (Json ℚ × Json ℚ))
  | .obj members => .ok (members.map fun m => (.str m.1, m.2))
  | v => do
    let items ← iterate v
    items.zipIdx.mapM fun e => pairAt e.2 e.1

def EncryptedModelBundle.toDict (self : EncryptedModelBundle) : Json ℚ :=
  .obj [("artifact", self.artifact.toDict), ("metadata", .obj (self.metadata.map fun m => (keyText env m.1, m.2)))]

def EncryptedModelBundle.fromDict (data : Json ℚ) : Except Exc EncryptedModelBundle := do
  let artifact ← getItem "artifact" data
  let artifact ← EnvelopeCiphertext.fromDict artifact
  let metadata ← dictGet "metadata" (.obj []) data
  let metadata ← dictOf metadata
  return ⟨artifact, metadata⟩

def readBytes {π : Type} (path : π) : Raise Failure (Files π) Bytes := fun files =>
  match files path with
  | some b => (.ok b, files)
  | none => (.error .fileNotFound, files)

def writeBytes {π : Type} [DecidableEq π] (writable : π → Bool) (path : π) (content : Bytes) : Raise Failure (Files π) Unit :=
  fun files => if writable path then (.ok (), Function.update files path (some content)) else (.error .osError, files)

/-- `read_text` and `json.loads` -/
def parse (data : Bytes) : Except Exc (Json ℚ) :=
  match Text.decode data with
  | none => .error ⟨.unicodeDecodeError, env.decodeError data⟩
  | some t =>
    match Json.loads env.float t with
    | none => .error ⟨.jsonDecodeError, env.jsonError t⟩
    | some v => .ok v

/-- an encryptor is its envelope -/
structure ModelWeightEncryptor where
  envelope : CloudKmsEnvelope

namespace ModelWeightEncryptor

open Raise

variable (self : ModelWeightEncryptor)

def encryptBytes (δ : Draw) (data : Bytes) (metadata : Option (Dict Text Text)) : Except Failure EncryptedModelBundle := do
  let artifact ← self.envelope.encrypt env δ data none
  return ⟨artifact, (metadata.getD Dict.empty).entries.map fun m => (.str m.1, .str m.2)⟩

def decryptBytes (bundle : EncryptedModelBundle) : Except Failure Bytes := self.envelope.decrypt env bundle.artifact none

/-- what is written for a bundle -/
def bundleText (bundle : EncryptedModelBundle) : Text := Json.dumps env.float (some 2) (bundle.toDict env)

variable {π : Type} [DecidableEq π] (writable : π → Bool)

def encryptFile (δ : Draw) (sourcePath outputPath : π) (metadata : Option (Dict Text Text)) :
    Raise Failure (Files π) EncryptedModelBundle := do
  let payload ← readBytes sourcePath
  let bundle ← lift (self.encryptBytes env δ payload metadata)
  let content ← lift (raised (encodeUtf8 (bundleText env bundle)))
  writeBytes writable outputPath content
  return bundle

def restore (content : Bytes) : Except Failure Bytes := do
  let raw ← raised (parse env content)
  let bundle ← raised (EncryptedModelBundle.fromDict raw)
  self.decryptBytes env bundle

def decryptFile (encryptedBundlePath outputPath : π) : Raise Failure (Files π) Unit := do
  let content ← readBytes encryptedBundlePath
  let plaintext ← lift (self.restore env content)
  writeBytes writable outputPath plaintext

def label (runId : Text) (index : ℕ) : Text := runId ++ ":artifact:" ++ str index

def artifactMetadata (runId : Text) (index : ℕ) : Dict Text Text :=
  (Dict.empty.set (Text.ofString "run_id") runId).set (Text.ofString "index") (str index)

def secureFineTuningPipeline (draws : ℕ → Draw) (artifacts : List Bytes) (runId : Text) :
    Except Failure (Dict Text EncryptedModelBundle) :=
  artifacts.zipIdx.foldlM (fun result artifact => do
    let bundle ← self.encryptBytes env (draws artifact.2) artifact.1 (some (artifactMetadata runId artifact.2))
    return result.set (label runId artifact.2) bundle) Dict.empty

end ModelWeightEncryptor

end Model

/-! ## What the files are about -/

/-- bytes from anywhere, or what an encryptor made of another content -/
inductive Content where
  | raw (b : Bytes)
  | sealed (sealer : ModelWeightEncryptor) (δ : Draw) (wrappedKey : Bytes) (metadata : Option (Dict Text Text)) (inner : Content)

inductive Call (π : Type) where
  | encryptFile (self : ModelWeightEncryptor) (δ : Draw) (sourcePath outputPath : π) (metadata : Option (Dict Text Text))
  | decryptFile (self : ModelWeightEncryptor) (encryptedBundlePath outputPath : π)
  /-- by another program -/
  | write (path : π) (content : Bytes)
  | remove (path : π)

section Meaning

variable (env : Env)

def bundleOf (sealer : ModelWeightEncryptor) (δ : Draw) (wrappedKey : Bytes) (metadata : Option (Dict Text Text))
    (payload : Bytes) : EncryptedModelBundle :=
  ⟨⟨.str (b64encode wrappedKey), .str (b64encode δ.nonce.toList),
    .str (b64encode (env.gcmEncrypt δ.dek.toList δ.nonce.toList payload none)), .str sealer.envelope.provider,
    .str sealer.envelope.keyId⟩, (metadata.getD Dict.empty).entries.map fun m => (.str m.1, .str m.2)⟩

def bundleBytes (bundle : EncryptedModelBundle) : Bytes := (ModelWeightEncryptor.bundleText env bundle).encode.getD []

def Content.bytes : Content → Bytes
  | .raw b => b
  | .sealed sealer δ wrappedKey metadata inner => bundleBytes env (bundleOf env sealer δ wrappedKey metadata inner.bytes)

/-- the provider has the name that is read from the file, and the backend gives the key back -/
def Opens (self sealer : ModelWeightEncryptor) (δ : Draw) (wrappedKey : Bytes) : Prop :=
  Json.normalize sealer.envelope.provider = self.envelope.provider ∧
    self.envelope.backend.unwrapKey wrappedKey = .ok δ.dek.toList

instance (self sealer : ModelWeightEncryptor) (δ : Draw) (wrappedKey : Bytes) : Decidable (Opens self sealer δ wrappedKey) :=
  inferInstanceAs (Decidable (_ ∧ _))

variable {π : Type} [DecidableEq π] (writable : π → Bool)

def step (files : Files π) : Call π → Files π
  | .encryptFile self δ sourcePath outputPath metadata =>
    ((self.encryptFile env writable δ sourcePath outputPath metadata).run files).2
  | .decryptFile self path outputPath => ((self.decryptFile env writable path outputPath).run files).2
  | .write path content => Function.update files path (some content)
  | .remove path => Function.update files path none

def put (s : π → Option Content) (path : π) (c : Content) : π → Option Content :=
  if writable path then Function.update s path (some c) else s

/-- the calls on contents: a bundle is put around one, or taken off -/
def plainStep (s : π → Option Content) : Call π → π → Option Content
  | .encryptFile self δ sourcePath outputPath metadata =>
    match s sourcePath, self.envelope.backend.wrapKey δ.dek.toList with
    | some c, .ok wrappedKey =>
      if (c.bytes env).length ≤ 2 ^ 31 - 1 then put writable s outputPath (.sealed self δ wrappedKey metadata c) else s
    | _, _ => s
  | .decryptFile self path outputPath =>
    match s path with
    | some (.sealed sealer δ wrappedKey _ inner) => if Opens self sealer δ wrappedKey then put writable s outputPath inner else s
    | some (.raw b) =>
      match self.restore env b with
      | .ok plaintext => put writable s outputPath (.raw plaintext)
      | .error _ => s
    | none => s
  | .write path content => Function.update s path (some (.raw content))
  | .remove path => Function.update s path none

/-- the contents written out -/
def written (s : π → Option Content) : Files π := fun path => (s path).map (Content.bytes env)

end Meaning

/-- the cipher is correct and opens nothing under another key -/
structure Env.Sound (env : Env) : Prop where
  decrypt_encrypt : ∀ k n p a, env.gcmDecrypt k n (env.gcmEncrypt k n p a) a = some p
  committing : ∀ k k' n p a, k ≠ k' → env.gcmDecrypt k' n (env.gcmEncrypt k n p a) a = none
  float : env.float.Lawful

/-! ## A bundle comes back from its text -/

section Reading

variable {F : Type}

open Record

theorem normalMembers_present (members : List (String × Option (Json F))) :
    Json.normalMembers (present members) = present (members.map fun m => (m.1, m.2.map Json.normal)) := by
  induction members with
  | nil => rfl
  | cons m members ih =>
    obtain ⟨n, o⟩ := m
    cases o with
    | none => exact ih
    | some v =>
      have hkey : Json.normalize (Text.ofString n) = Text.ofString n :=
        Json.normalize_eq_self_iff.2 (Json.unpaired_ofString n)
      calc Json.normalMembers ((Text.ofString n, v) :: present members)
          = (Json.normalize (Text.ofString n), Json.normal v) :: Json.normalMembers (present members) := rfl
        _ = (Text.ofString n, Json.normal v) :: present (members.map fun m => (m.1, m.2.map Json.normal)) := by rw [hkey, ih]

/-- reading a record normalises its members one by one -/
theorem normal_record {members : List (String × Option (Json F))} (h : (members.map Prod.fst).Nodup) :
    Json.normal (record members) = record (members.map fun m => (m.1, m.2.map Json.normal)) := by
  have hnames : ((members.map fun m => (m.1, m.2.map Json.normal)).map Prod.fst).Nodup := by
    rwa [List.map_map]
  rw [record, Json.normal, normalMembers_present, Table.setAll_eq_self (unique_present hnames)]
  rfl

theorem getItem_record {members : List (String × Option (Json ℚ))} (h : (members.map Prod.fst).Nodup) {n : String} {v : Json ℚ}
    (hm : (n, some v) ∈ members) : getItem n (record members) = .ok v := by
  rw [record, getItem, get_present h hm]

end Reading

section Opening

variable {env : Env} (self : ModelWeightEncryptor)

theorem raised_ok {α : Type} (a : α) : raised (.ok a : Except Exc α) = .ok a := rfl

def EnvelopeCiphertext.members (self : EnvelopeCiphertext) : List (String × Option (Json ℚ)) :=
  [("wrapped_key", some self.wrappedKey), ("nonce", some self.nonce), ("ciphertext", some self.ciphertext),
    ("provider", some self.provider), ("key_id", some self.keyId)]

def EnvelopeCiphertext.normal (self : EnvelopeCiphertext) : EnvelopeCiphertext :=
  ⟨self.wrappedKey.normal, self.nonce.normal, self.ciphertext.normal, self.provider.normal, self.keyId.normal⟩

theorem normal_toDict (artifact : EnvelopeCiphertext) : Json.normal artifact.toDict = artifact.normal.toDict := by
  have hnodup : (artifact.members.map Prod.fst).Nodup := by
    change ["wrapped_key", "nonce", "ciphertext", "provider", "key_id"].Nodup
    decide
  exact normal_record hnodup

theorem fromDict_toDict (artifact : EnvelopeCiphertext) : EnvelopeCiphertext.fromDict artifact.toDict = .ok artifact := by
  have hnodup : (artifact.members.map Prod.fst).Nodup := by
    change ["wrapped_key", "nonce", "ciphertext", "provider", "key_id"].Nodup
    decide
  have hget : ∀ n v, (n, some v) ∈ artifact.members → getItem n artifact.toDict = .ok v := fun n v hm =>
    getItem_record hnodup hm
  rw [EnvelopeCiphertext.fromDict, hget "wrapped_key" artifact.wrappedKey (by simp [EnvelopeCiphertext.members]), Outcome.ok_bind,
    hget "nonce" artifact.nonce (by simp [EnvelopeCiphertext.members]), Outcome.ok_bind,
    hget "ciphertext" artifact.ciphertext (by simp [EnvelopeCiphertext.members]), Outcome.ok_bind,
    hget "provider" artifact.provider (by simp [EnvelopeCiphertext.members]), Outcome.ok_bind,
    hget "key_id" artifact.keyId (by simp [EnvelopeCiphertext.members]), Outcome.ok_bind]
  rfl

def bundleMembers (artifact metadata : Json ℚ) : List (String × Option (Json ℚ)) :=
  [("artifact", some artifact), ("metadata", some metadata)]

theorem nodup_bundleMembers (artifact metadata : Json ℚ) : ((bundleMembers artifact metadata).map Prod.fst).Nodup := by
  change ["artifact", "metadata"].Nodup
  decide

/-- a bundle is read back with its artifact normalised -/
theorem fromDict_normal (bundle : EncryptedModelBundle) :
    ∃ metadata, EncryptedModelBundle.fromDict (Json.normal (bundle.toDict env)) = .ok ⟨bundle.artifact.normal, metadata⟩ := by
  have hnormal : Json.normal (bundle.toDict env) = Record.record (bundleMembers bundle.artifact.normal.toDict
      (.obj (Table.setAll (Json.normalMembers (bundle.metadata.map fun m => (keyText env m.1, m.2)))))) := by
    have h := normal_record (nodup_bundleMembers bundle.artifact.toDict
      (.obj (bundle.metadata.map fun m => (keyText env m.1, m.2))))
    rw [bundleMembers, List.map_cons, List.map_cons, Option.map_some, Option.map_some, normal_toDict, Json.normal] at h
    exact h
  have hartifact : ∀ v, getItem "artifact" (Record.record (bundleMembers bundle.artifact.normal.toDict v)) =
      .ok bundle.artifact.normal.toDict := fun v =>
    getItem_record (nodup_bundleMembers _ v) List.mem_cons_self
  have hmetadata : ∀ v, dictGet "metadata" (.obj []) (Record.record (bundleMembers bundle.artifact.normal.toDict v)) = .ok v := by
    intro v
    have hmem : ("metadata", some v) ∈ bundleMembers bundle.artifact.normal.toDict v := by simp [bundleMembers]
    rw [Record.record, dictGet, Record.get_present (nodup_bundleMembers _ v) hmem, Option.getD_some]
  rw [hnormal, EncryptedModelBundle.fromDict, hartifact, Outcome.ok_bind, fromDict_toDict, Outcome.ok_bind, hmetadata,
    Outcome.ok_bind, dictOf, Outcome.ok_bind]
  exact ⟨_, rfl⟩

theorem normal_b64encode (b : Bytes) : Json.normal (.str (b64encode b) : Json ℚ) = .str (b64encode b) := by
  rw [Json.normal, b64encode, Json.normalize_eq_self_iff.2 (Json.unpaired_ofString _)]

theorem parse_bundleBytes (hfloat : env.float.Lawful) (bundle : EncryptedModelBundle) :
    parse env (bundleBytes env bundle) = .ok (Json.normal (bundle.toDict env)) := by
  obtain ⟨b, hb⟩ := Json.encode_dumps env.float (some 2) (bundle.toDict env)
  have hbytes : bundleBytes env bundle = b := by
    rw [bundleBytes, ModelWeightEncryptor.bundleText, hb, Option.getD_some]
  have hloads : Json.loads env.float (Json.dumps env.float (some 2) (bundle.toDict env)) =
      some (Json.normal (bundle.toDict env)) := Json.loads_dumps (some 2) hfloat _
  rw [hbytes, parse, Text.decode_encode hb]
  dsimp only
  rw [hloads]

/-- what decrypting the fields of an envelope comes down to -/
theorem decrypt_envelope (wrappedKey nonce ct : Bytes) (provider : Text) (keyId : Json ℚ) :
    self.envelope.decrypt env ⟨.str (b64encode wrappedKey), .str (b64encode nonce), .str (b64encode ct), .str provider, keyId⟩
        none =
      if provider = self.envelope.provider then do
        let dek ← self.envelope.backend.unwrapKey wrappedKey
        raised (gcmOpen env dek nonce ct none)
      else .error (.kmsError ("Provider mismatch: payload=" ++ provider ++ ", configured=" ++ self.envelope.provider)) := by
  have hdecode : ∀ b, raised (JsonValue.b64decode (.str (b64encode b))) = .ok b := by
    intro b
    rw [JsonValue.b64decode, b64decode_b64encode]
    rfl
  rw [CloudKmsEnvelope.decrypt]
  by_cases h : provider = self.envelope.provider
  · rw [if_pos h, hdecode, hdecode, hdecode]
    simp [CloudKmsEnvelope.sameText, h]
  · rw [if_neg h]
    simp [CloudKmsEnvelope.sameText, CloudKmsEnvelope.format, h]

theorem restore_bundle (hfloat : env.float.Lawful) (sealer : ModelWeightEncryptor) (δ : Draw) (wrappedKey : Bytes)
    (metadata : Option (Dict Text Text)) (payload : Bytes) :
    self.restore env (bundleBytes env (bundleOf env sealer δ wrappedKey metadata payload)) =
      self.envelope.decrypt env ⟨.str (b64encode wrappedKey), .str (b64encode δ.nonce.toList),
        .str (b64encode (env.gcmEncrypt δ.dek.toList δ.nonce.toList payload none)),
        .str (Json.normalize sealer.envelope.provider), .str (Json.normalize sealer.envelope.keyId)⟩ none := by
  obtain ⟨metadata', hread⟩ := @fromDict_normal env (bundleOf env sealer δ wrappedKey metadata payload)
  rw [ModelWeightEncryptor.restore, parse_bundleBytes hfloat, raised_ok, Outcome.ok_bind, hread, raised_ok, Outcome.ok_bind,
    ModelWeightEncryptor.decryptBytes]
  dsimp only [bundleOf, EnvelopeCiphertext.normal]
  rw [normal_b64encode, normal_b64encode, normal_b64encode, Json.normal, Json.normal]

/-- the cipher opens under the key of the encryption and no other -/
theorem gcmOpen_ok_iff (henv : env.Sound) (δ : Draw) (dek payload p : Bytes) :
    raised (gcmOpen env dek δ.nonce.toList (env.gcmEncrypt δ.dek.toList δ.nonce.toList payload none) none) = .ok p ↔
      dek = δ.dek.toList ∧ p = payload := by
  have hnonce : AESGCM.checkNonce δ.nonce.toList = .ok () := by
    rw [AESGCM.checkNonce, δ.nonce.length_toList]
    rfl
  by_cases hdek : dek = δ.dek.toList
  · subst hdek
    have hkey : AESGCM.new δ.dek.toList = .ok () := by
      rw [AESGCM.new, δ.dek.length_toList]
      rfl
    rw [gcmOpen, hkey, Outcome.ok_bind, hnonce, Outcome.ok_bind, henv.decrypt_encrypt]
    simp [raised, Except.mapError, eq_comm]
  · refine iff_of_false (fun h => ?_) fun h => hdek h.1
    rw [gcmOpen, hnonce, henv.committing _ _ _ _ _ (Ne.symm hdek)] at h
    rcases hkey : AESGCM.new dek with e | u
    all_goals
      rw [hkey] at h
      cases h

/-- **What restoring a bundle takes.** -/
theorem restore_ok_iff (henv : env.Sound) (sealer : ModelWeightEncryptor) (δ : Draw) (wrappedKey : Bytes)
    (metadata : Option (Dict Text Text)) (payload p : Bytes) :
    self.restore env (bundleBytes env (bundleOf env sealer δ wrappedKey metadata payload)) = .ok p ↔
      Opens self sealer δ wrappedKey ∧ p = payload := by
  rw [restore_bundle self henv.float, decrypt_envelope]
  by_cases hprovider : Json.normalize sealer.envelope.provider = self.envelope.provider
  · rw [if_pos hprovider]
    rcases hkey : self.envelope.backend.unwrapKey wrappedKey with e | dek
    · refine iff_of_false (fun h => by cases h) fun h => ?_
      rw [h.1.2] at hkey
      cases hkey
    · rw [Outcome.ok_bind, gcmOpen_ok_iff henv]
      simp [Opens, hprovider, hkey]
  · rw [if_neg hprovider]
    exact iff_of_false (fun h => by cases h) fun h => hprovider h.1.1

end Opening

/-! ## The files of a run -/

section Run

open Raise ModelWeightEncryptor

variable {env : Env} {π : Type}

theorem run_readBytes_bind {α : Type} (path : π) (f : Bytes → Raise Failure (Files π) α) (files : Files π) :
    (readBytes path >>= f).run files = match files path with
      | some b => (f b).run files
      | none => (.error .fileNotFound, files) := by
  rw [run_bind, run, readBytes]
  rcases files path with _ | b <;> rfl

variable [DecidableEq π] {writable : π → Bool}

theorem encryptBytes_eq (self : ModelWeightEncryptor) (δ : Draw) (payload : Bytes) (metadata : Option (Dict Text Text)) :
    self.encryptBytes env δ payload metadata =
      if payload.length ≤ 2 ^ 31 - 1 then
        (bundleOf env self δ · metadata payload) <$> self.envelope.backend.wrapKey δ.dek.toList
      else .error (.raised ⟨.overflowError, "Data or associated data too long. Max 2**31 - 1 bytes"⟩) := by
  have hkey : AESGCM.new δ.dek.toList = .ok () := by
    rw [AESGCM.new, δ.dek.length_toList]
    rfl
  have hnonce : AESGCM.checkNonce δ.nonce.toList = .ok () := by
    rw [AESGCM.checkNonce, δ.nonce.length_toList]
    rfl
  rw [encryptBytes, CloudKmsEnvelope.encrypt, gcmSeal, hkey, Outcome.ok_bind]
  by_cases hlen : payload.length ≤ 2 ^ 31 - 1
  · have hlong : ¬ (2 ^ 31 - 1 < payload.length ∨ 2 ^ 31 - 1 < ((none : Option Bytes).getD []).length) := by
      simpa using hlen
    rw [if_pos hlen, if_neg hlong, hnonce, Outcome.ok_bind, raised_ok, Outcome.ok_bind]
    rcases self.envelope.backend.wrapKey δ.dek.toList with e | wrappedKey <;> rfl
  · have hlong : 2 ^ 31 - 1 < payload.length ∨ 2 ^ 31 - 1 < ((none : Option Bytes).getD []).length :=
      Or.inl (Nat.lt_of_not_le hlen)
    rw [if_neg hlen, if_pos hlong]
    rfl

theorem run_writeBytes (path : π) (content : Bytes) (files : Files π) :
    ((writeBytes writable path content).run files).2 =
      if writable path then Function.update files path (some content) else files := by
  rw [run, writeBytes]
  split_ifs <;> rfl

theorem encodeUtf8_bundleText (bundle : EncryptedModelBundle) :
    encodeUtf8 (bundleText env bundle) = .ok (bundleBytes env bundle) := by
  obtain ⟨b, hb⟩ := Json.encode_dumps env.float (some 2) (bundle.toDict env)
  rw [bundleBytes, bundleText, hb, encodeUtf8_ok hb, Option.getD_some]

/-- what an encryption leaves -/
theorem step_encryptFile (self : ModelWeightEncryptor) (δ : Draw) (sourcePath outputPath : π)
    (metadata : Option (Dict Text Text)) (files : Files π) :
    step env writable files (.encryptFile self δ sourcePath outputPath metadata) =
      match files sourcePath, self.envelope.backend.wrapKey δ.dek.toList with
      | some payload, .ok wrappedKey =>
        if payload.length ≤ 2 ^ 31 - 1 then
          if writable outputPath then
            Function.update files outputPath (some (bundleBytes env (bundleOf env self δ wrappedKey metadata payload)))
          else files
        else files
      | _, _ => files := by
  rw [step, encryptFile, run_readBytes_bind]
  rcases files sourcePath with _ | payload
  · rfl
  dsimp only
  rw [run_lift_bind, encryptBytes_eq]
  rcases self.envelope.backend.wrapKey δ.dek.toList with e | wrappedKey
  · split_ifs <;> rfl
  dsimp only
  by_cases hlen : payload.length ≤ 2 ^ 31 - 1
  · rw [if_pos hlen, if_pos hlen, Outcome.map_ok]
    dsimp only
    rw [run_lift_bind, encodeUtf8_bundleText, raised_ok]
    dsimp only
    rw [state_bind fun _ _ => rfl, run_writeBytes]
  · rw [if_neg hlen, if_neg hlen]

/-- what a restoration leaves -/
theorem step_decryptFile (self : ModelWeightEncryptor) (path outputPath : π) (files : Files π) :
    step env writable files (.decryptFile self path outputPath) =
      match files path with
      | some content =>
        match self.restore env content with
        | .ok plaintext => if writable outputPath then Function.update files outputPath (some plaintext) else files
        | .error _ => files
      | none => files := by
  rw [step, decryptFile, run_readBytes_bind]
  rcases files path with _ | content
  · rfl
  dsimp only
  rw [run_lift_bind]
  rcases self.restore env content with e | plaintext
  · rfl
  · exact run_writeBytes outputPath plaintext files

theorem written_update (s : π → Option Content) (path : π) (c : Option Content) :
    written env (Function.update s path c) = Function.update (written env s) path (c.map (Content.bytes env)) := by
  funext q
  rw [written, Function.update_apply, Function.update_apply]
  split_ifs <;> rfl

theorem written_put (s : π → Option Content) (path : π) (c : Content) :
    written env (put writable s path c) =
      if writable path then Function.update (written env s) path (some (c.bytes env)) else written env s := by
  rw [put]
  split_ifs
  · exact written_update s path (some c)
  · rfl

/-- taking a bundle off -/
theorem plainStep_of_opens {s : π → Option Content} {path : π} {self sealer : ModelWeightEncryptor} {δ : Draw}
    {wrappedKey : Bytes} {metadata : Option (Dict Text Text)} {inner : Content}
    (hpath : s path = some (.sealed sealer δ wrappedKey metadata inner)) (hopens : Opens self sealer δ wrappedKey)
    (outputPath : π) : plainStep env writable s (.decryptFile self path outputPath) = put writable s outputPath inner := by
  rw [plainStep, hpath]
  exact if_pos hopens

/-- one call on the files is one on the contents -/
theorem written_step (henv : env.Sound) (s : π → Option Content) (call : Call π) :
    written env (plainStep env writable s call) = step env writable (written env s) call := by
  cases call with
  | write path content => exact written_update s path _
  | remove path => exact written_update s path none
  | encryptFile self δ sourcePath outputPath metadata =>
    rw [step_encryptFile, plainStep]
    rcases hsource : s sourcePath with _ | c
    · rw [written, hsource]
      rfl
    · have hfile : written env s sourcePath = some (c.bytes env) := by rw [written, hsource, Option.map_some]
      rw [hfile]
      rcases self.envelope.backend.wrapKey δ.dek.toList with e | wrappedKey
      · rfl
      · dsimp only
        split_ifs with hlen hw
        · rw [written_put, if_pos hw, Content.bytes]
        · rw [written_put, if_neg hw]
        · rfl
  | decryptFile self path outputPath =>
    rw [step_decryptFile, plainStep]
    rcases hpath : s path with _ | c
    · rw [written, hpath]
      rfl
    · have hfile : written env s path = some (c.bytes env) := by rw [written, hpath, Option.map_some]
      rw [hfile]
      cases c with
      | raw b =>
        dsimp only [Content.bytes]
        rcases self.restore env b with e | plaintext
        · rfl
        · exact written_put s outputPath (.raw plaintext)
      | sealed sealer δ wrappedKey metadata inner =>
        dsimp only [Content.bytes]
        by_cases hopens : Opens self sealer δ wrappedKey
        · rw [if_pos hopens, (restore_ok_iff self henv sealer δ wrappedKey metadata _ _).2 ⟨hopens, rfl⟩]
          exact written_put s outputPath inner
        · rw [if_neg hopens]
          rcases hrestore : self.restore env (bundleBytes env (bundleOf env sealer δ wrappedKey metadata (inner.bytes env)))
            with e | p
          · rfl
          · exact absurd ((restore_ok_iff self henv sealer δ wrappedKey metadata _ p).1 hrestore).1 hopens

theorem files_of_run (henv : env.Sound) (s : π → Option Content) (run : List (Call π)) :
    Run.after (step env writable) (written env s) run = written env (Run.after (plainStep env writable) s run) :=
  (Run.after_sim (written env) (fun call _ s => written_step henv s call) s).symm

end Run

/-! ## The mock backend -/

section Mock

variable {env : Env}

/-- wrapping twice gives the key back if and only if the two wrapping keys are the same -/
theorem wrapKey_wrapKey_iff (h h' : Digest) (dek : Vector UInt8 32) :
    LocalMockKmsBackend.wrapKey h' (LocalMockKmsBackend.wrapKey h dek.toList) = dek.toList ↔ h' = h := by
  have hlen : ∀ g : Digest, g.toList.length = 32 := fun g => g.length_toList
  have hget : ∀ (g : Digest) (i : ℕ) (hi : i < 32), g.toList.getD (i % g.toList.length) 0 = g[i] := by
    intro g i hi
    rw [hlen, Nat.mod_eq_of_lt hi, List.getD_eq_getElem _ _ (by rw [hlen]; exact hi), Vector.getElem_toList]
  constructor
  · intro heq
    refine Vector.ext fun i hi => ?_
    have hbyte := congrArg (fun l : Bytes => l[i]?) heq
    simp only [LocalMockKmsBackend.wrapKey, List.getElem?_mapIdx, hget _ i hi] at hbyte
    rw [List.getElem?_eq_getElem (by rw [dek.length_toList]; exact hi), Option.map_some, Option.map_some,
      Option.some_inj, UInt8.xor_assoc] at hbyte
    have hlength : i < dek.toList.length := dek.length_toList.symm ▸ hi
    have hzero : h[i] ^^^ h'[i] = 0 := by
      have h0 := congrArg (dek.toList[i] ^^^ ·) hbyte
      rwa [← UInt8.xor_assoc, UInt8.xor_self, UInt8.zero_xor] at h0
    exact (UInt8.xor_eq_zero_iff.1 hzero).symm
  · rintro rfl
    refine List.ext_getElem (by simp [LocalMockKmsBackend.wrapKey]) fun i hi hi' => ?_
    simp [LocalMockKmsBackend.wrapKey, UInt8.xor_assoc]

/-- an envelope of the mock provider, with its default backend -/
structure IsMock (env : Env) (e : ModelWeightEncryptor) (name : Bytes) : Prop where
  provider : e.envelope.provider = Text.ofString "mock"
  encode : e.envelope.keyId.encode = some name
  wrapKey : ∀ b, e.envelope.backend.wrapKey b = .ok (LocalMockKmsBackend.wrapKey (env.sha256 name) b)
  unwrapKey : ∀ b, e.envelope.backend.unwrapKey b = .ok (LocalMockKmsBackend.wrapKey (env.sha256 name) b)

def mockBackend (env : Env) (name : Bytes) : KmsBackend :=
  ⟨fun b => .ok (LocalMockKmsBackend.wrapKey (env.sha256 name) b), fun b => .ok (LocalMockKmsBackend.wrapKey (env.sha256 name) b)⟩

/-- whatever the case in which the provider is written -/
theorem isMock_new {provider keyId : Text} {name : Bytes} (hprovider : env.lower provider = Text.ofString "mock")
    (hname : keyId.encode = some name) :
    ∃ self, CloudKmsEnvelope.new env provider keyId none = .ok self ∧ IsMock env ⟨self⟩ name := by
  have haws : Text.ofString "mock" ≠ Text.ofString "aws" := fun h => absurd (Text.ofString_injective h) (by decide)
  have hgcp : Text.ofString "mock" ≠ Text.ofString "gcp" := fun h => absurd (Text.ofString_injective h) (by decide)
  have hbackend : LocalMockKmsBackend.new env keyId = .ok (mockBackend env name) := by
    rw [LocalMockKmsBackend.new, encodeUtf8_ok hname]
    rfl
  refine ⟨⟨Text.ofString "mock", keyId, mockBackend env name⟩, ?_, ⟨rfl, hname, fun _ => rfl, fun _ => rfl⟩⟩
  dsimp only [CloudKmsEnvelope.new]
  rw [hprovider, if_neg haws, if_neg hgcp, if_pos rfl, hbackend]
  rfl

/-- **A mock encryptor opens what another one made if and only if the hashes of their key ids are the same.** -/
theorem mock_opens_iff {self sealer : ModelWeightEncryptor} {name name' : Bytes} (hself : IsMock env self name')
    (hsealer : IsMock env sealer name) (δ : Draw) {wrappedKey : Bytes}
    (hwrap : sealer.envelope.backend.wrapKey δ.dek.toList = .ok wrappedKey) :
    Opens self sealer δ wrappedKey ↔ env.sha256 name' = env.sha256 name := by
  have hnormal : Json.normalize sealer.envelope.provider = self.envelope.provider := by
    rw [hsealer.provider, hself.provider, Json.normalize_eq_self_iff.2 (Json.unpaired_ofString _)]
  rw [hsealer.wrapKey] at hwrap
  cases hwrap
  rw [Opens, hself.unwrapKey, Except.ok.injEq, wrapKey_wrapKey_iff]
  exact and_iff_right hnormal

/-! A cipher that writes its key in front, and a hash that is the first byte. -/

def sampleEnv : Env where
  gcmEncrypt key _ data _ := frame key ++ data
  gcmDecrypt key _ data _ := (unframe data).bind fun r => if r.1 = key then some r.2 else none
  sha256 b := Vector.replicate 32 (b.headD 0)
  float := JsonValue.exactFloats
  lower t := t.map fun p => if 65 ≤ p.val ∧ p.val ≤ 90 then p + 32 else p
  repr _ := []
  decodeError _ := []
  jsonError _ := []
  boto3 := none
  kmsV1 := none

theorem sampleEnv_sound : sampleEnv.Sound where
  decrypt_encrypt k n p a := by simp [sampleEnv, unframe_frame]
  committing k k' n p a h := by simp [sampleEnv, unframe_frame, h]
  float := JsonValue.exactFloats_lawful

def mockEncryptor (keyId : String) : ModelWeightEncryptor :=
  ⟨⟨Text.ofString "mock", Text.ofString keyId, mockBackend sampleEnv (utf8 keyId)⟩⟩

theorem mockEncryptor_isMock (keyId : String) : IsMock sampleEnv (mockEncryptor keyId) (utf8 keyId) :=
  ⟨rfl, Text.encode_ofString keyId, fun _ => rfl, fun _ => rfl⟩

def zeroDraw : Draw := ⟨Vector.replicate 32 0, Vector.replicate 12 0⟩

def zeroWrapped (keyId : String) : Bytes :=
  LocalMockKmsBackend.wrapKey (sampleEnv.sha256 (utf8 keyId)) zeroDraw.dek.toList

/-- a file with one byte -/
def oneFile : ℕ → Option Content := fun path => if path = 0 then some (.raw [7]) else none

/-- its bundle, and other bytes in its place -/
def replaced : ℕ → Option Content :=
  Function.update (Function.update oneFile 1 (some (.sealed (mockEncryptor "k") zeroDraw (zeroWrapped "k") none (.raw [7])))) 0
    (some (.raw [8]))

end Mock

/-! ## A fine-tuning run -/

section Pipeline

open ModelWeightEncryptor

variable {env : Env} (self : ModelWeightEncryptor) (draws : ℕ → Draw) (runId : Text)

theorem label_injective : Function.Injective (label runId) := by
  intro i j h
  have hstr : str i = str j := List.append_cancel_left (h : runId ++ Text.ofString ":artifact:" ++ str i = _)
  have hok : parseInt (str i) = parseInt (str j) := congrArg parseInt hstr
  rw [parseInt_str, parseInt_str, Except.ok.injEq] at hok
  exact Int.ofNat.inj hok

/-- one artifact more -/
theorem pipeline_snoc (artifacts : List Bytes) (a : Bytes) :
    self.secureFineTuningPipeline env draws (artifacts ++ [a]) runId = do
      let result ← self.secureFineTuningPipeline env draws artifacts runId
      let bundle ← self.encryptBytes env (draws artifacts.length) a (some (artifactMetadata runId artifacts.length))
      return result.set (label runId artifacts.length) bundle := by
  rw [secureFineTuningPipeline, List.zipIdx_append, List.foldlM_append, ← secureFineTuningPipeline]
  refine bind_congr fun result => ?_
  rw [List.zipIdx_singleton, List.foldlM_cons, Nat.zero_add]
  simp

theorem getElem?_snoc_eq_some_iff {α : Type} {l : List α} {a b : α} {i : ℕ} :
    (l ++ [a])[i]? = some b ↔ l[i]? = some b ∨ i = l.length ∧ a = b := by
  rcases Nat.lt_trichotomy i l.length with h | h | h
  · rw [List.getElem?_append_left h]
    simp [h.ne]
  · subst h
    simp
  · rw [List.getElem?_eq_none (by simpa using h), List.getElem?_eq_none h.le]
    simp [h.ne']

variable {draws runId} {artifacts : List Bytes}

/-- the labels in order, and under each the bundle of its artifact -/
theorem pipeline_ok {result : Dict Text EncryptedModelBundle}
    (h : self.secureFineTuningPipeline env draws artifacts runId = .ok result) :
    result.keys = (List.range artifacts.length).map (label runId) ∧ ∀ i a, artifacts[i]? = some a →
      ∃ bundle, self.encryptBytes env (draws i) a (some (artifactMetadata runId i)) = .ok bundle ∧
        result.get (label runId i) = some bundle := by
  induction artifacts using List.reverseRecOn generalizing result with
  | nil =>
    cases h
    exact ⟨rfl, fun i a ha => by simp at ha⟩
  | append_singleton artifacts a ih =>
    rw [pipeline_snoc] at h
    obtain ⟨earlier, hearlier, h⟩ := Outcome.bind_eq_ok h
    obtain ⟨bundle, hbundle, h⟩ := Outcome.bind_eq_ok h
    cases h
    obtain ⟨hkeys, hget⟩ := ih hearlier
    have hnew : label runId artifacts.length ∉ earlier.keys := by
      rw [hkeys]
      intro hmem
      obtain ⟨i, hi, he⟩ := List.mem_map.1 hmem
      exact absurd (label_injective runId he) (List.mem_range.1 hi).ne
    constructor
    · have hset : (earlier.set (label runId artifacts.length) bundle).entries =
          Table.add (label runId artifacts.length) bundle earlier.entries :=
        Table.set_eq_add (Table.get_eq_none_iff.2 hnew) bundle
      rw [Dict.keys, hset, Table.add, List.map_append, ← Dict.keys, hkeys, List.length_append, List.length_singleton,
        List.range_succ, List.map_append]
      rfl
    · intro i b hb
      rcases getElem?_snoc_eq_some_iff.1 hb with hb | ⟨rfl, rfl⟩
      · obtain ⟨bundle', henc, hentry⟩ := hget i b hb
        have hne : label runId artifacts.length ≠ label runId i := fun he =>
          (List.getElem?_eq_some_iff.1 hb).1.ne (label_injective runId he).symm
        exact ⟨bundle', henc, by rw [Dict.get_set_of_ne hne, hentry]⟩
      · exact ⟨bundle, hbundle, Dict.get_set_self _ _ _⟩

theorem pipeline_ok_iff : (∃ result, self.secureFineTuningPipeline env draws artifacts runId = .ok result) ↔
    ∀ i a, artifacts[i]? = some a →
      ∃ bundle, self.encryptBytes env (draws i) a (some (artifactMetadata runId i)) = .ok bundle := by
  induction artifacts using List.reverseRecOn with
  | nil => exact iff_of_true ⟨_, rfl⟩ fun i a ha => by simp at ha
  | append_singleton artifacts a ih =>
    rw [pipeline_snoc]
    constructor
    · rintro ⟨result, h⟩ i b hb
      obtain ⟨earlier, hearlier, h⟩ := Outcome.bind_eq_ok h
      obtain ⟨bundle, hbundle, -⟩ := Outcome.bind_eq_ok h
      rcases getElem?_snoc_eq_some_iff.1 hb with hb | ⟨rfl, rfl⟩
      · exact ih.1 ⟨earlier, hearlier⟩ i b hb
      · exact ⟨bundle, hbundle⟩
    · intro h
      obtain ⟨earlier, hearlier⟩ := ih.2 fun i b hb => h i b (getElem?_snoc_eq_some_iff.2 (Or.inl hb))
      obtain ⟨bundle, hbundle⟩ := h artifacts.length a (getElem?_snoc_eq_some_iff.2 (Or.inr ⟨rfl, rfl⟩))
      rw [hearlier, Outcome.ok_bind, hbundle]
      exact ⟨_, rfl⟩

theorem encryptBytes_eq_ok_iff (δ : Draw) (payload : Bytes) (metadata : Option (Dict Text Text))
    (bundle : EncryptedModelBundle) : self.encryptBytes env δ payload metadata = .ok bundle ↔
      payload.length ≤ 2 ^ 31 - 1 ∧ ∃ wrappedKey, self.envelope.backend.wrapKey δ.dek.toList = .ok wrappedKey ∧
        bundleOf env self δ wrappedKey metadata payload = bundle := by
  rw [encryptBytes_eq]
  by_cases hlen : payload.length ≤ 2 ^ 31 - 1
  · rw [if_pos hlen, and_iff_right hlen]
    constructor
    · exact Outcome.map_eq_ok
    · rintro ⟨wrappedKey, hwrap, rfl⟩
      rw [hwrap, Outcome.map_ok]
  · rw [if_neg hlen]
    exact iff_of_false (fun h => by cases h) fun h => hlen h.1

/-- a bundle that never went through a file -/
theorem decryptBytes_ok_iff (henv : env.Sound) (reader : ModelWeightEncryptor) (δ : Draw) (wrappedKey payload p : Bytes)
    (metadata : Option (Dict Text Text)) :
    reader.decryptBytes env (bundleOf env self δ wrappedKey metadata payload) = .ok p ↔
      (self.envelope.provider = reader.envelope.provider ∧
        reader.envelope.backend.unwrapKey wrappedKey = .ok δ.dek.toList) ∧ p = payload := by
  rw [decryptBytes, bundleOf, decrypt_envelope]
  by_cases hprovider : self.envelope.provider = reader.envelope.provider
  · rw [if_pos hprovider]
    rcases hkey : reader.envelope.backend.unwrapKey wrappedKey with e | dek
    · exact iff_of_false (fun h => by cases h) fun h => by cases h.1.2
    · rw [Outcome.ok_bind, gcmOpen_ok_iff henv]
      simp [hprovider]
  · rw [if_neg hprovider]
    exact iff_of_false (fun h => by cases h) fun h => hprovider h.1.1

end Pipeline

end AbirGuard.Python.CloudKms
