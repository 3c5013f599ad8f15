/-
Keys of the hardware enclave and of the YubiKey manager: what opens what, over a whole run.

`HardwareEnclave` keeps its keys by id and seals with them; `YubiKeyManager` keeps keys of its own only where no device makes
them, beside the credentials (`hardware_enclave.py`, `yubikey_integration.py`). Both use AES-GCM with the tag apart, whose
checks are those of the library. A device is what its calls end with.

- `unseal_after_seal`: a sealed envelope opens under the id that it was sealed under, until that id gets a new key; the id and
  the platform that the envelope names are not looked at.
- `decrypt_after_encrypt`: so it is with the manager, where a key generated on the device changes nothing.
- `backed_run`, `no_key_without_fallback`: what the manager can encrypt with.
-/
import AbirGuard.Core.KeyStore
import AbirGuard.Python.Lang

namespace AbirGuard.Python.HardwareKeys

open AbirGuard.Core

/-! ## AES-GCM with the tag apart -/

/-- the cipher on keys and nonces that it takes -/
structure Gcm where
  encrypt : Bytes → Bytes → Bytes → Bytes × Vector UInt8 16
  decrypt : Bytes → Bytes → Bytes → Bytes → Option Bytes

/-- what was encrypted is opened by its key -/
structure Gcm.Correct (g : Gcm) : Prop where
  length_encrypt : ∀ k n p, (g.encrypt k n p).1.length = p.length
  decrypt_encrypt : ∀ k n p, g.decrypt k n (g.encrypt k n p).1 (g.encrypt k n p).2.toList = some p

/-- and by no other one of these keys; tags are too short for more -/
def Gcm.Separates (g : Gcm) (keys : List Bytes) : Prop :=
  ∀ k ∈ keys, ∀ k' ∈ keys, k' ≠ k → ∀ n p, g.decrypt k' n (g.encrypt k n p).1 (g.encrypt k n p).2.toList = none

/-- `algorithms.AES(key)` -/
def aes (key : Bytes) : Except Exc Unit :=
  if key.length = 16 ∨ key.length = 24 ∨ key.length = 32 then .ok ()
  else .error ⟨.valueError, s!"Invalid key size ({key.length * 8}) for AES."⟩

/-- `modes.GCM(nonce)` -/
def gcmMode (nonce : Bytes) : Except Exc Unit :=
  if nonce.length < 8 ∨ 128 < nonce.length then
    .error ⟨.valueError, "initialization_vector must be between 8 and 128 bytes (64 and 1024 bits)."⟩
  else .ok ()

def MAX_ENCRYPTED_BYTES : ℕ := 2 ^ 36 - 32

def overLimit : Exc := ⟨.valueError, s!"GCM has a maximum encrypted byte limit of {MAX_ENCRYPTED_BYTES}"⟩

/-- `encryptor.update(data) + encryptor.finalize()` and `encryptor.tag` -/
def encryptTagged (g : Gcm) (key nonce data : Bytes) : Except Exc (Bytes × Vector UInt8 16) := do
  aes key
  gcmMode nonce
  if MAX_ENCRYPTED_BYTES < data.length then .error overLimit else .ok (g.encrypt key nonce data)

/-- `decryptor.update(ct) + decryptor.finalize()`, for a tag of at most 16 bytes -/
def decryptTagged (g : Gcm) (key nonce ct tag : Bytes) : Except Exc Bytes := do
  aes key
  gcmMode nonce
  if tag.length < 16 then .error ⟨.valueError, "Authentication tag must be 16 bytes or longer."⟩
  else if MAX_ENCRYPTED_BYTES < ct.length then .error overLimit
  else match g.decrypt key nonce ct tag with
    | some p => .ok p
    | none => .error ⟨.invalidTag, ""⟩

def keyError (keyId : Text) : Exc := ⟨.keyError, "Key '" ++ keyId ++ "' not found"⟩

/-! ## Model of the enclave -/

inductive EnclavePlatform where
  | appleSecureEnclave
  | intelSgx
  | amdSev
  | tpm2
  | software
deriving DecidableEq

def EnclavePlatform.value : EnclavePlatform → String
  | .appleSecureEnclave => "apple_secure_enclave"
  | .intelSgx => "intel_sgx"
  | .amdSev => "amd_sev"
  | .tpm2 => "tpm2"
  | .software => "software"

structure SealedEnvelope where
  ciphertext : Bytes
  platform : Text
  keyId : Text
  /-- the one member of the metadata -/
  sealedAt : ℚ
deriving DecidableEq

structure HardwareEnclave where
  platform : EnclavePlatform
  keys : Dict Text Bytes

namespace HardwareEnclave

def new (platform : EnclavePlatform) : HardwareEnclave := ⟨platform, Dict.empty⟩

variable (self : HardwareEnclave)

/-- whatever the algorithm -/
def generateSeKey (keyId algorithm : Text) (δ : Vector UInt8 32) : HardwareEnclave :=
  let key := if algorithm = ("aes-256" : Text) then δ.toList else δ.toList
  { self with keys := self.keys.set keyId key }

def generateSgxKey (keyId algorithm : Text) (δ : Vector UInt8 32) : HardwareEnclave :=
  let key := if algorithm = ("aes-256" : Text) then δ.toList else δ.toList
  { self with keys := self.keys.set keyId key }

def generateSoftwareKey (keyId algorithm : Text) (δ : Vector UInt8 32) : HardwareEnclave :=
  let key := if algorithm = ("aes-256" : Text) then δ.toList else δ.toList
  { self with keys := self.keys.set keyId key }

def generateKey (keyId algorithm : Text) (δ : Vector UInt8 32) : HardwareEnclave :=
  if self.platform = .appleSecureEnclave then self.generateSeKey keyId algorithm δ
  else if self.platform = .intelSgx then self.generateSgxKey keyId algorithm δ
  else self.generateSoftwareKey keyId algorithm δ

def sealData (g : Gcm) (data : Bytes) (keyId : Text) (nonce : Nonce) (time : ℚ) : Except Exc SealedEnvelope :=
  match self.keys.get keyId with
  | none => .error (keyError keyId)
  | some key => do
    let r ← encryptTagged g key nonce.toList data
    return ⟨nonce.toList ++ r.1 ++ r.2.toList, self.platform.value, keyId, time⟩

def unsealData (g : Gcm) (sealed : SealedEnvelope) (keyId : Text) : Except Exc Bytes :=
  match self.keys.get keyId with
  | none => .error (keyError keyId)
  | some key =>
    let nonce := sealed.ciphertext.take 12
    let ct := (sealed.ciphertext.take (sealed.ciphertext.length - 16)).drop 12
    let tag := sealed.ciphertext.drop (sealed.ciphertext.length - 16)
    decryptTagged g key nonce ct tag

end HardwareEnclave

inductive EnclaveCall where
  | generateKey (keyId algorithm : Text) (δ : Vector UInt8 32)
  | sealData (data : Bytes) (keyId : Text) (nonce : Nonce) (time : ℚ)
  | unsealData (sealed : SealedEnvelope) (keyId : Text)

namespace EnclaveCall

def step (s : HardwareEnclave) : EnclaveCall → HardwareEnclave
  | .generateKey keyId algorithm δ => s.generateKey keyId algorithm δ
  | .sealData _ _ _ _ => s
  | .unsealData _ _ => s

/-- the key that the call draws -/
def drawn : EnclaveCall → Option Bytes
  | .generateKey _ _ δ => some δ.toList
  | _ => none

/-- the call generates a key under the id -/
def Generates (keyId : Text) : EnclaveCall → Prop
  | .generateKey keyId' _ _ => keyId' = keyId
  | _ => False

instance (keyId : Text) : (c : EnclaveCall) → Decidable (c.Generates keyId)
  | .generateKey keyId' _ _ => inferInstanceAs (Decidable (keyId' = keyId))
  | .sealData _ _ _ _ => inferInstanceAs (Decidable False)
  | .unsealData _ _ => inferInstanceAs (Decidable False)

end EnclaveCall

/-! ## Model of the manager -/

structure YubiKeyCredential where
  credentialId : Text
  keyId : Text
  algorithm : Text
  createdAt : ℚ
  pinProtected : Bool
deriving DecidableEq

inductive YubiKeyFailure where
  | notFound (msg : Text)
  | notConfigured (msg : Text)
  | yubiKeyError (msg : Text)
deriving DecidableEq

/-- how calls of the device end that do not return -/
inductive DeviceFailure where
  | importError
  | other (text : Text)

/-- what the device answers: to connecting, to making a key in its slot, to closing -/
structure Device where
  connect : Option DeviceFailure
  generate : Option DeviceFailure
  close : Option DeviceFailure

structure YubiKeyManager where
  /-- some device was found by the scan -/
  available : Bool
  pivAvailable : Bool
  credentials : Dict Text YubiKeyCredential
  keyStore : Dict Text Bytes

namespace YubiKeyManager

def new (available pivAvailable : Bool) : YubiKeyManager := ⟨available, pivAvailable, Dict.empty, Dict.empty⟩

variable (self : YubiKeyManager)

def generateFailure : DeviceFailure → YubiKeyFailure
  | .importError => .notConfigured "yubikey-manager not installed. Run: pip install yubikey-manager"
  | .other text => .yubiKeyError ("Failed to generate key on YubiKey: " ++ text)

def slotMap : List String := ["ed25519", "eccp256", "rsa2048"]

/-- a failure to close the device comes after the credential was kept -/
def generateKey (keyId algorithm : Text) (device : Device) (credentialId : Text) (time : ℚ) :
    Except YubiKeyFailure Text × YubiKeyManager :=
  if !self.available then (.error (.notFound "No YubiKey device found. Connect a YubiKey and try again."), self)
  else if !self.pivAvailable then
    (.error (.notConfigured "PIV interface not available. Install yubikey-manager: pip install yubikey-manager"), self)
  else match device.connect with
    | some e => (.error (generateFailure e), self)
    | none =>
      if algorithm ∉ slotMap.map Text.ofString then
        (.error (generateFailure (.other ("Unsupported algorithm: " ++ algorithm))), self)
      else match device.generate with
        | some e => (.error (generateFailure e), self)
        | none =>
          let kept := { self with credentials := self.credentials.set keyId ⟨credentialId, keyId, algorithm, time, true⟩ }
          match device.close with
          | some e => (.error (generateFailure e), kept)
          | none => (.ok credentialId, kept)

def generateSoftwareFallback (keyId algorithm credentialId : Text) (time : ℚ) (δ : Vector UInt8 32) : YubiKeyManager :=
  let keyMaterial := if algorithm = ("ed25519" : Text) then δ.toList else δ.toList
  { self with
    credentials := self.credentials.set keyId ⟨credentialId, keyId, algorithm, time, false⟩
    keyStore := self.keyStore.set keyId keyMaterial }

def encryptWithYubikey (g : Gcm) (keyId : Text) (plaintext : Bytes) (nonce : Nonce) : Except Exc (Bytes × Bytes) :=
  match self.keyStore.get keyId with
  | none => .error (keyError keyId)
  | some key => do
    let r ← encryptTagged g (key.take 32) nonce.toList plaintext
    return (r.1 ++ r.2.toList, nonce.toList)

def decryptWithYubikey (g : Gcm) (keyId : Text) (ciphertext nonce : Bytes) : Except Exc Bytes :=
  match self.keyStore.get keyId with
  | none => .error (keyError keyId)
  | some key =>
    let ct := ciphertext.take (ciphertext.length - 16)
    let tag := ciphertext.drop (ciphertext.length - 16)
    decryptTagged g (key.take 32) nonce ct tag

def reset : Except YubiKeyFailure Unit × YubiKeyManager :=
  if !self.available then (.error (.notFound "No YubiKey device found"), self)
  else (.ok (), { self with credentials := Dict.empty, keyStore := Dict.empty })

def deleteCredential (keyId : Text) : YubiKeyManager :=
  { self with credentials := self.credentials.erase keyId, keyStore := self.keyStore.erase keyId }

end YubiKeyManager

inductive YubiKeyCall where
  | generateKey (keyId algorithm : Text) (device : Device) (credentialId : Text) (time : ℚ)
  | generateSoftwareFallback (keyId algorithm credentialId : Text) (time : ℚ) (δ : Vector UInt8 32)
  | encryptWithYubikey (keyId : Text) (plaintext : Bytes) (nonce : Nonce)
  | decryptWithYubikey (keyId : Text) (ciphertext nonce : Bytes)
  | reset
  | deleteCredential (keyId : Text)

namespace YubiKeyCall

def step (s : YubiKeyManager) : YubiKeyCall → YubiKeyManager
  | .generateKey keyId algorithm device credentialId time => (s.generateKey keyId algorithm device credentialId time).2
  | .generateSoftwareFallback keyId algorithm credentialId time δ =>
    s.generateSoftwareFallback keyId algorithm credentialId time δ
  | .encryptWithYubikey _ _ _ => s
  | .decryptWithYubikey _ _ _ => s
  | .reset => s.reset.2
  | .deleteCredential keyId => s.deleteCredential keyId

/-- the key that the call draws -/
def drawn : YubiKeyCall → Option Bytes
  | .generateSoftwareFallback _ _ _ _ δ => some δ.toList
  | _ => none

/-- the call bears on the key of an id, where a device was found or not -/
def Touches (available : Bool) (keyId : Text) : YubiKeyCall → Prop
  | .generateSoftwareFallback keyId' _ _ _ _ => keyId' = keyId
  | .deleteCredential keyId' => keyId' = keyId
  | .reset => available
  | _ => False

end YubiKeyCall

/-! ## What opens -/

section Opening

variable {g : Gcm} {key data : Bytes} {nonce : Nonce}

theorem aes_of_length (h : key.length = 32) : aes key = .ok () := by
  rw [aes, h]
  rfl

theorem gcmMode_nonce (nonce : Nonce) : gcmMode nonce.toList = .ok () := by
  rw [gcmMode, nonce.length_toList]
  rfl

theorem encryptTagged_ok {r : Bytes × Vector UInt8 16} (h : encryptTagged g key nonce.toList data = .ok r) :
    data.length ≤ MAX_ENCRYPTED_BYTES ∧ g.encrypt key nonce.toList data = r := by
  obtain ⟨-, -, h⟩ := Outcome.bind_eq_ok h
  rw [gcmMode_nonce, Outcome.ok_bind] at h
  split_ifs at h with hlong
  exact ⟨Nat.le_of_not_lt hlong, Except.ok.inj h⟩

/-- a key opens what it encrypted, and another one does not -/
theorem decryptTagged_eq (hg : g.Correct) {keys : List Bytes} (hsep : g.Separates keys) {key' : Bytes} (hkey : key ∈ keys)
    (hkey' : key' ∈ keys) (hlen : key'.length = 32) (hdata : data.length ≤ MAX_ENCRYPTED_BYTES) :
    decryptTagged g key' nonce.toList (g.encrypt key nonce.toList data).1 (g.encrypt key nonce.toList data).2.toList =
      if key' = key then .ok data else .error ⟨.invalidTag, ""⟩ := by
  have htag : ¬ (g.encrypt key nonce.toList data).2.toList.length < 16 := by
    rw [Vector.length_toList]
    exact Nat.lt_irrefl 16
  have hct : ¬ MAX_ENCRYPTED_BYTES < (g.encrypt key nonce.toList data).1.length := by
    rw [hg.length_encrypt]
    exact Nat.not_lt.2 hdata
  rw [decryptTagged, aes_of_length hlen, Outcome.ok_bind, gcmMode_nonce, Outcome.ok_bind, if_neg htag, if_neg hct]
  by_cases hsame : key' = key
  · rw [hsame, hg.decrypt_encrypt, if_pos rfl]
  · rw [hsep key hkey key' hkey' hsame, if_neg hsame]

/-- text and tag are cut apart again -/
theorem cut_tag (ct : Bytes) (tag : Vector UInt8 16) :
    (ct ++ tag.toList).take ((ct ++ tag.toList).length - 16) = ct ∧
      (ct ++ tag.toList).drop ((ct ++ tag.toList).length - 16) = tag.toList := by
  have hlen : (ct ++ tag.toList).length - 16 = ct.length := by
    rw [List.length_append, tag.length_toList, Nat.add_sub_cancel]
  rw [hlen]
  exact ⟨List.take_left, List.drop_left⟩

end Opening

/-! ## The enclave -/

namespace EnclaveCall

open KeyStore

variable {g : Gcm} {platform : EnclavePlatform} {pre post : List EnclaveCall}

def effect : EnclaveCall → Option (Effect Text Bytes)
  | .generateKey keyId _ δ => some (.put keyId δ.toList)
  | _ => none

/-- the platforms differ in name -/
theorem generateKey_eq (s : HardwareEnclave) (keyId algorithm : Text) (δ : Vector UInt8 32) :
    s.generateKey keyId algorithm δ = { s with keys := s.keys.set keyId δ.toList } := by
  simp [HardwareEnclave.generateKey, HardwareEnclave.generateSeKey, HardwareEnclave.generateSgxKey,
    HardwareEnclave.generateSoftwareKey]

theorem keys_run (platform : EnclavePlatform) (run : List EnclaveCall) :
    (Run.after step (.new platform) run).keys = Run.after apply Dict.empty (run.filterMap effect) := by
  have hstep : ∀ (s : HardwareEnclave) (c : EnclaveCall), True →
      (step s c).keys = (effect c).elim s.keys (apply s.keys) := by
    intro s c _
    cases c with
    | generateKey keyId algorithm δ => exact congrArg HardwareEnclave.keys (generateKey_eq s keyId algorithm δ)
    | sealData data keyId nonce time => rfl
    | unsealData sealed keyId => rfl
  exact keys_after (fun _ => True) (fun _ _ _ => trivial) hstep trivial run

theorem puts_effects (run : List EnclaveCall) : puts (run.filterMap effect) = run.filterMap drawn := by
  rw [puts, List.filterMap_filterMap]
  refine congrArg (run.filterMap ·) (funext fun c => ?_)
  cases c <;> rfl

/-- every key of the enclave is one that it drew -/
theorem mem_drawn {run : List EnclaveCall} {keyId : Text} {key : Bytes}
    (h : (Run.after step (.new platform) run).keys.get keyId = some key) : key ∈ run.filterMap drawn := by
  rw [keys_run] at h
  rw [← puts_effects]
  exact mem_puts_of_get h

theorem length_of_mem_drawn {run : List EnclaveCall} {key : Bytes} (h : key ∈ run.filterMap drawn) : key.length = 32 := by
  obtain ⟨c, -, hc⟩ := List.mem_filterMap.1 h
  cases c with
  | generateKey keyId algorithm δ =>
    cases hc
    exact δ.length_toList
  | sealData data keyId nonce time => cases hc
  | unsealData sealed keyId => cases hc

theorem not_touches_effect_iff {keyId : Text} (run : List EnclaveCall) :
    (∀ e ∈ run.filterMap effect, ¬ e.Touches keyId) ↔ ∀ c ∈ run, ¬ c.Generates keyId := by
  constructor
  · intro h c hc hgen
    cases c with
    | generateKey keyId' algorithm δ => exact h _ (List.mem_filterMap.2 ⟨_, hc, rfl⟩) hgen
    | sealData data keyId' nonce time => exact hgen
    | unsealData sealed keyId' => exact hgen
  · intro h e he ht
    obtain ⟨c, hc, hce⟩ := List.mem_filterMap.1 he
    cases c with
    | generateKey keyId' algorithm δ =>
      cases hce
      exact h _ hc ht
    | sealData data keyId' nonce time => cases hce
    | unsealData sealed keyId' => cases hce

/-- an id has a key once one was generated under it -/
theorem get_eq_none_iff {keyId : Text} (platform : EnclavePlatform) (run : List EnclaveCall) :
    (Run.after step (.new platform) run).keys.get keyId = none ↔ ∀ c ∈ run, ¬ c.Generates keyId := by
  induction run using List.reverseRecOn with
  | nil => exact iff_of_true rfl fun c hc => by cases hc
  | append_singleton run c ih =>
    rw [Run.after_append, Run.after_cons, Run.after_nil, List.forall_mem_append, List.forall_mem_singleton, ← ih]
    cases c with
    | generateKey keyId' algorithm δ =>
      rw [step, generateKey_eq]
      by_cases hid : keyId' = keyId
      · subst hid
        rw [Dict.get_set_self]
        exact iff_of_false (fun h => by cases h) fun h => h.2 rfl
      · rw [Dict.get_set_of_ne hid]
        exact (and_iff_left hid).symm
    | sealData data keyId' nonce time => exact (and_iff_left id).symm
    | unsealData sealed keyId' => exact (and_iff_left id).symm

theorem sealData_eq_ok {s : HardwareEnclave} {data : Bytes} {keyId : Text} {nonce : Nonce} {time : ℚ}
    {sealed : SealedEnvelope} (h : s.sealData g data keyId nonce time = .ok sealed) :
    ∃ key, s.keys.get keyId = some key ∧ data.length ≤ MAX_ENCRYPTED_BYTES ∧ sealed.ciphertext =
      nonce.toList ++ (g.encrypt key nonce.toList data).1 ++ (g.encrypt key nonce.toList data).2.toList := by
  rw [HardwareEnclave.sealData] at h
  rcases hkey : s.keys.get keyId with _ | key
  all_goals rw [hkey] at h
  · cases h
  · obtain ⟨r, hr, h⟩ := Outcome.bind_eq_ok h
    obtain ⟨hlen, rfl⟩ := encryptTagged_ok hr
    cases h
    exact ⟨key, rfl, hlen, rfl⟩

/-- opening the bytes of an envelope -/
theorem unsealData_eq (hg : g.Correct) {keys : List Bytes} (hsep : g.Separates keys) {s : HardwareEnclave} {keyId : Text}
    {key key' data : Bytes} (hmem : key ∈ keys) (hmem' : key' ∈ keys) {nonce : Nonce} {sealed : SealedEnvelope}
    (hdata : data.length ≤ MAX_ENCRYPTED_BYTES) (hsealed : sealed.ciphertext =
      nonce.toList ++ (g.encrypt key nonce.toList data).1 ++ (g.encrypt key nonce.toList data).2.toList)
    (hkey : s.keys.get keyId = some key') (hlen : key'.length = 32) :
    s.unsealData g sealed keyId = if key' = key then .ok data else .error ⟨.invalidTag, ""⟩ := by
  obtain ⟨htake, hdrop⟩ := cut_tag (nonce.toList ++ (g.encrypt key nonce.toList data).1) (g.encrypt key nonce.toList data).2
  have hnonce : (nonce.toList ++ (g.encrypt key nonce.toList data).1 ++ (g.encrypt key nonce.toList data).2.toList).take 12 =
      nonce.toList := by
    rw [List.append_assoc]
    exact List.take_left' nonce.length_toList
  rw [HardwareEnclave.unsealData, hkey]
  dsimp only
  rw [hsealed, htake, hdrop, hnonce, List.drop_left' nonce.length_toList]
  exact decryptTagged_eq hg hsep hmem hmem' hlen hdata

/-- **What a sealed envelope opens to**, at any later time: the keys drawn are all different, and only the bytes of the
envelope count. -/
theorem unseal_after_seal (hg : g.Correct) (platform : EnclavePlatform) (pre post : List EnclaveCall)
    (hdrawn : ((pre ++ post).filterMap drawn).Nodup) (hsep : g.Separates ((pre ++ post).filterMap drawn))
    {data : Bytes} {keyId : Text} {nonce : Nonce} {time : ℚ}
    {sealed : SealedEnvelope} (hseal : (Run.after step (.new platform) pre).sealData g data keyId nonce time = .ok sealed)
    (keyId' : Text) (sealed' : SealedEnvelope) (hbytes : sealed'.ciphertext = sealed.ciphertext) :
    (Run.after step (.new platform) (pre ++ post)).unsealData g sealed' keyId' =
      if ∀ c ∈ pre ++ post, ¬ c.Generates keyId' then .error (keyError keyId')
      else if keyId' = keyId ∧ ∀ c ∈ post, ¬ c.Generates keyId then .ok data
      else .error ⟨.invalidTag, ""⟩ := by
  obtain ⟨key, hkey, hdata, hct⟩ := sealData_eq_ok hseal
  by_cases hnone : ∀ c ∈ pre ++ post, ¬ c.Generates keyId'
  · rw [if_pos hnone, HardwareEnclave.unsealData, (get_eq_none_iff platform _).2 hnone]
  rw [if_neg hnone]
  obtain ⟨key', hkey'⟩ := Option.ne_none_iff_exists'.1 (mt (get_eq_none_iff platform _).1 hnone)
  have hsame : key' = key ↔ keyId' = keyId ∧ ∀ c ∈ post, ¬ c.Generates keyId := by
    have hnodup : (puts (pre.filterMap effect ++ post.filterMap effect)).Nodup := by
      rwa [← List.filterMap_append, puts_effects]
    have hput : (Run.after apply Dict.empty (pre.filterMap effect)).get keyId = some key := by rwa [← keys_run platform]
    rw [← not_touches_effect_iff, ← get_after_iff hnodup hput, ← List.filterMap_append, ← keys_run platform, hkey',
      Option.some_inj]
  have hmem : key ∈ (pre ++ post).filterMap drawn := by
    rw [List.filterMap_append]
    exact List.mem_append_left _ (mem_drawn hkey)
  have hmem' : key' ∈ (pre ++ post).filterMap drawn := mem_drawn hkey'
  rw [unsealData_eq hg hsep hmem hmem' hdata (hbytes.trans hct) hkey' (length_of_mem_drawn hmem')]
  exact if_congr hsame rfl rfl

/-! A cipher that encrypts to the text itself and to the start of the key as its tag, and two keys. -/

def sampleTag (key : Bytes) : Vector UInt8 16 := Vector.ofFn fun i => key.getD i 0

def sampleGcm : Gcm where
  encrypt key _ data := (data, sampleTag key)
  decrypt key _ ct tag := if tag = (sampleTag key).toList then some ct else none

theorem sampleGcm_correct : sampleGcm.Correct where
  length_encrypt _ _ _ := rfl
  decrypt_encrypt k n p := by simp [sampleGcm]

def ones : Vector UInt8 32 := Vector.replicate 32 1

def twos : Vector UInt8 32 := Vector.replicate 32 2

theorem sampleGcm_separates : sampleGcm.Separates [ones.toList, twos.toList] := by
  have hne : (sampleTag ones.toList).toList ≠ (sampleTag twos.toList).toList := by decide
  intro k hk k' hk' hdiff n p
  rcases List.mem_pair.1 hk with rfl | rfl
  all_goals rcases List.mem_pair.1 hk' with rfl | rfl
  · exact absurd rfl hdiff
  · simp [sampleGcm, hne]
  · simp [sampleGcm, hne.symm]
  · exact absurd rfl hdiff

def generateA : EnclaveCall := .generateKey (Text.ofString "a") (Text.ofString "aes-256") ones

def generateB : EnclaveCall := .generateKey (Text.ofString "b") (Text.ofString "aes-256") twos

def zeroNonce : Nonce := Vector.replicate 12 0

def sealedA : SealedEnvelope :=
  ⟨zeroNonce.toList ++ [7] ++ (sampleTag ones.toList).toList, Text.ofString "software", Text.ofString "a", 0⟩

/-- an envelope that names another id opens under its own, and not under the one that it names -/
theorem unseal_after_seal_one :
    let last := Run.after step (.new .software) [generateA, generateB]
    last.unsealData sampleGcm { sealedA with keyId := Text.ofString "b" } (Text.ofString "a") = .ok [7] ∧
    last.unsealData sampleGcm { sealedA with keyId := Text.ofString "b" } (Text.ofString "b") =
      .error ⟨.invalidTag, ""⟩ := by
  have hseal : (Run.after step (.new .software) [generateA]).sealData sampleGcm [7] (Text.ofString "a") zeroNonce 0 =
      .ok sealedA := by decide +kernel
  have hnodup : (([generateA] ++ [generateB]).filterMap drawn).Nodup := by decide +kernel
  have h := fun keyId' => unseal_after_seal sampleGcm_correct .software [generateA] [generateB] hnodup sampleGcm_separates hseal
    keyId' { sealedA with keyId := Text.ofString "b" } rfl
  constructor
  · exact (h (Text.ofString "a")).trans (by decide +kernel)
  · exact (h (Text.ofString "b")).trans (by decide +kernel)

end EnclaveCall

/-! ## The manager -/

namespace YubiKeyCall

open KeyStore

variable {g : Gcm} {available pivAvailable : Bool} {pre post : List YubiKeyCall}

def effect (available : Bool) : YubiKeyCall → Option (Effect Text Bytes)
  | .generateSoftwareFallback keyId _ _ _ δ => some (.put keyId δ.toList)
  | .deleteCredential keyId => some (.delete keyId)
  | .reset => if available then some .clear else none
  | _ => none

/-- a key made on the device leaves the keys of the manager as they are -/
theorem keyStore_generateKey (s : YubiKeyManager) (keyId algorithm : Text) (device : Device) (credentialId : Text) (time : ℚ) :
    (s.generateKey keyId algorithm device credentialId time).2.keyStore = s.keyStore ∧
      (s.generateKey keyId algorithm device credentialId time).2.available = s.available := by
  unfold YubiKeyManager.generateKey
  rcases device.connect with _ | e
  · rcases device.generate with _ | e
    · rcases device.close with _ | e
      all_goals split_ifs <;> exact ⟨rfl, rfl⟩
    · split_ifs <;> exact ⟨rfl, rfl⟩
  · split_ifs <;> exact ⟨rfl, rfl⟩

theorem reset_eq (s : YubiKeyManager) :
    s.reset.2 = if s.available then { s with credentials := Dict.empty, keyStore := Dict.empty } else s := by
  unfold YubiKeyManager.reset
  cases s.available <;> rfl

theorem available_step (s : YubiKeyManager) (c : YubiKeyCall) : (step s c).available = s.available := by
  cases c with
  | generateKey keyId algorithm device credentialId time => exact (keyStore_generateKey s _ _ _ _ _).2
  | generateSoftwareFallback keyId algorithm credentialId time δ => rfl
  | encryptWithYubikey keyId plaintext nonce => rfl
  | decryptWithYubikey keyId ciphertext nonce => rfl
  | reset =>
    rw [step, reset_eq]
    split_ifs <;> rfl
  | deleteCredential keyId => rfl

theorem keyStore_run (available pivAvailable : Bool) (run : List YubiKeyCall) :
    (Run.after step (.new available pivAvailable) run).keyStore =
      Run.after apply Dict.empty (run.filterMap (effect available)) := by
  have hstep : ∀ (s : YubiKeyManager) (c : YubiKeyCall), s.available = available →
      (step s c).keyStore = (effect available c).elim s.keyStore (apply s.keyStore) := by
    intro s c hs
    cases c with
    | generateKey keyId algorithm device credentialId time => exact (keyStore_generateKey s _ _ _ _ _).1
    | generateSoftwareFallback keyId algorithm credentialId time δ =>
      simp [step, YubiKeyManager.generateSoftwareFallback, effect, apply]
    | encryptWithYubikey keyId plaintext nonce => rfl
    | decryptWithYubikey keyId ciphertext nonce => rfl
    | reset =>
      rw [step, reset_eq, hs, effect]
      cases available <;> rfl
    | deleteCredential keyId => rfl
  exact keys_after (fun s => s.available = available) (fun s c hs => (available_step s c).trans hs) hstep rfl run

theorem puts_effects (run : List YubiKeyCall) : puts (run.filterMap (effect available)) = run.filterMap drawn := by
  rw [puts, List.filterMap_filterMap]
  refine congrArg (run.filterMap ·) (funext fun c => ?_)
  cases c with
  | reset => cases available <;> rfl
  | _ => rfl

theorem not_touches_effect_iff {keyId : Text} (run : List YubiKeyCall) :
    (∀ e ∈ run.filterMap (effect available), ¬ e.Touches keyId) ↔ ∀ c ∈ run, ¬ c.Touches available keyId := by
  have hcall : ∀ c : YubiKeyCall, c.Touches available keyId ↔ ∃ e, effect available c = some e ∧ e.Touches keyId := by
    intro c
    cases c with
    | reset => cases available <;> simp [Touches, effect, Effect.Touches]
    | _ => simp [Touches, effect, Effect.Touches]
  constructor
  · intro h c hc ht
    obtain ⟨e, he, ht⟩ := (hcall c).1 ht
    exact h e (List.mem_filterMap.2 ⟨c, hc, he⟩) ht
  · intro h e he ht
    obtain ⟨c, hc, hce⟩ := List.mem_filterMap.1 he
    exact h c hc ((hcall c).2 ⟨e, hce, ht⟩)

theorem mem_drawn {run : List YubiKeyCall} {keyId : Text} {key : Bytes}
    (h : (Run.after step (.new available pivAvailable) run).keyStore.get keyId = some key) : key ∈ run.filterMap drawn := by
  rw [keyStore_run] at h
  rw [← @puts_effects available]
  exact mem_puts_of_get h

theorem length_of_mem_drawn {run : List YubiKeyCall} {key : Bytes} (h : key ∈ run.filterMap drawn) : key.length = 32 := by
  obtain ⟨c, -, hc⟩ := List.mem_filterMap.1 h
  cases c with
  | generateSoftwareFallback keyId algorithm credentialId time δ =>
    cases hc
    exact δ.length_toList
  | _ => cases hc

theorem encryptWithYubikey_eq_ok {s : YubiKeyManager} {keyId : Text} {plaintext : Bytes} {nonce : Nonce}
    {r : Bytes × Bytes} (h : s.encryptWithYubikey g keyId plaintext nonce = .ok r) :
    ∃ key, s.keyStore.get keyId = some key ∧ plaintext.length ≤ MAX_ENCRYPTED_BYTES ∧
      r = ((g.encrypt (key.take 32) nonce.toList plaintext).1 ++ (g.encrypt (key.take 32) nonce.toList plaintext).2.toList,
        nonce.toList) := by
  rw [YubiKeyManager.encryptWithYubikey] at h
  rcases hkey : s.keyStore.get keyId with _ | key
  all_goals rw [hkey] at h
  · cases h
  · obtain ⟨r', hr, h⟩ := Outcome.bind_eq_ok h
    obtain ⟨hlen, rfl⟩ := encryptTagged_ok hr
    cases h
    exact ⟨key, rfl, hlen, rfl⟩

/-- **What the manager decrypts**, at any later time: a key made on the device under the same id does not take the place of
the one in software. -/
theorem decrypt_after_encrypt (hg : g.Correct) (available pivAvailable : Bool) (pre post : List YubiKeyCall)
    (hdrawn : ((pre ++ post).filterMap drawn).Nodup) (hsep : g.Separates ((pre ++ post).filterMap drawn))
    {plaintext : Bytes} {keyId : Text} {nonce : Nonce} {r : Bytes × Bytes}
    (henc : (Run.after step (.new available pivAvailable) pre).encryptWithYubikey g keyId plaintext nonce = .ok r)
    (keyId' : Text) (p : Bytes) :
    let last := Run.after step (.new available pivAvailable) (pre ++ post)
    (last.decryptWithYubikey g keyId' r.1 r.2 = .ok p ↔
      (keyId' = keyId ∧ ∀ c ∈ post, ¬ c.Touches available keyId) ∧ p = plaintext) ∧
    (last.decryptWithYubikey g keyId' r.1 r.2 = .error (keyError keyId') ↔ last.keyStore.get keyId' = none) := by
  intro last
  obtain ⟨key, hkey, hlen, rfl⟩ := encryptWithYubikey_eq_ok henc
  have hmem : key ∈ (pre ++ post).filterMap drawn := by
    rw [List.filterMap_append]
    exact List.mem_append_left _ (mem_drawn hkey)
  have htake : ∀ {k : Bytes}, k ∈ (pre ++ post).filterMap drawn → k.take 32 = k := fun hk =>
    List.take_of_length_le (length_of_mem_drawn hk).le
  have hput : (Run.after apply Dict.empty (pre.filterMap (effect available))).get keyId = some key := by
    rwa [← keyStore_run available pivAvailable]
  have hnodup : (puts (pre.filterMap (effect available) ++ post.filterMap (effect available))).Nodup := by
    rwa [← List.filterMap_append, puts_effects]
  have hthere : last.keyStore.get keyId' = some key ↔ keyId' = keyId ∧ ∀ c ∈ post, ¬ c.Touches available keyId := by
    rw [← not_touches_effect_iff, ← get_after_iff hnodup hput, ← List.filterMap_append, ← keyStore_run available pivAvailable]
  rw [← hthere, YubiKeyManager.decryptWithYubikey]
  rcases hkey' : last.keyStore.get keyId' with _ | key'
  · simp
  · have hcut := cut_tag (g.encrypt key nonce.toList plaintext).1 (g.encrypt key nonce.toList plaintext).2
    have hmem' : key' ∈ (pre ++ post).filterMap drawn := mem_drawn hkey'
    dsimp only
    rw [htake hmem, htake hmem', hcut.1, hcut.2,
      decryptTagged_eq hg hsep hmem hmem' (length_of_mem_drawn hmem') hlen]
    by_cases hsame : key' = key
    · rw [if_pos hsame]
      simp [hsame, eq_comm]
    · rw [if_neg hsame]
      simp [hsame, keyError]

/-- a key in software, and a device on which a key is made under the same id -/
def fallbackA : YubiKeyCall :=
  .generateSoftwareFallback (Text.ofString "a") (Text.ofString "ed25519") (Text.ofString "c1") 0 EnclaveCall.ones

def deviceA : YubiKeyCall :=
  .generateKey (Text.ofString "a") (Text.ofString "ed25519") ⟨none, none, none⟩ (Text.ofString "c2") 1

/-- the text is decrypted after the key was made on the device, and no more after it was deleted -/
theorem decrypt_after_encrypt_one :
    let r := ([7] ++ (EnclaveCall.sampleTag EnclaveCall.ones.toList).toList, EnclaveCall.zeroNonce.toList)
    (Run.after step (.new true true) [fallbackA, deviceA]).decryptWithYubikey EnclaveCall.sampleGcm (Text.ofString "a") r.1 r.2 =
      .ok [7] ∧
    (Run.after step (.new true true) [fallbackA, .deleteCredential (Text.ofString "a")]).decryptWithYubikey
      EnclaveCall.sampleGcm (Text.ofString "a") r.1 r.2 ≠ .ok [7] := by
  intro r
  have henc : (Run.after step (.new true true) [fallbackA]).encryptWithYubikey EnclaveCall.sampleGcm (Text.ofString "a") [7]
      EnclaveCall.zeroNonce = .ok r := by decide +kernel
  have hsep : EnclaveCall.sampleGcm.Separates [EnclaveCall.ones.toList] := fun k hk k' hk' hne =>
    absurd ((List.mem_singleton.1 hk').trans (List.mem_singleton.1 hk).symm) hne
  have h := fun post hnodup hsep =>
    decrypt_after_encrypt EnclaveCall.sampleGcm_correct true true [fallbackA] post hnodup hsep henc (Text.ofString "a") [7]
  constructor
  · refine (h [deviceA] (List.nodup_singleton _) hsep).1.2 ⟨⟨rfl, ?_⟩, rfl⟩
    exact fun c hc => List.mem_singleton.1 hc ▸ id
  · intro hok
    have hpost := ((h [.deleteCredential (Text.ofString "a")] (List.nodup_singleton _) hsep).1.1 hok).1.2
    exact hpost _ (List.mem_singleton_self _) rfl

/-- a key of the manager has a credential -/
def Backed (s : YubiKeyManager) : Prop := ∀ keyId, s.keyStore.contains keyId → s.credentials.contains keyId

theorem contains_set_iff {β : Type} (d : Dict Text β) (k k' : Text) (b : β) :
    (d.set k b).contains k' ↔ k = k' ∨ d.contains k' := by
  by_cases hk : k = k'
  · subst hk
    simp [Dict.contains]
  · simp [Dict.contains, Dict.get_set_of_ne hk, hk]

theorem contains_erase_iff {β : Type} (d : Dict Text β) (k k' : Text) :
    (d.erase k).contains k' ↔ k ≠ k' ∧ d.contains k' := by
  by_cases hk : k = k'
  · subst hk
    simp [Dict.contains]
  · simp [Dict.contains, Dict.get_erase_of_ne hk, hk]

theorem credentials_generateKey (s : YubiKeyManager) (keyId algorithm : Text) (device : Device) (credentialId : Text) (time : ℚ)
    {keyId' : Text} (h : s.credentials.contains keyId') :
    (s.generateKey keyId algorithm device credentialId time).2.credentials.contains keyId' := by
  have hset : (s.credentials.set keyId ⟨credentialId, keyId, algorithm, time, true⟩).contains keyId' :=
    (contains_set_iff _ _ _ _).2 (Or.inr h)
  unfold YubiKeyManager.generateKey
  rcases device.connect with _ | e
  · rcases device.generate with _ | e
    · rcases device.close with _ | e
      all_goals split_ifs <;> first | exact h | exact hset
    · split_ifs <;> exact h
  · split_ifs <;> exact h

theorem backed_step (s : YubiKeyManager) (c : YubiKeyCall) (hs : Backed s) : Backed (step s c) := by
  intro keyId h
  cases c with
  | generateKey keyId' algorithm device credentialId time =>
    rw [step, (keyStore_generateKey s _ _ _ _ _).1] at h
    exact credentials_generateKey s _ _ _ _ _ (hs keyId h)
  | generateSoftwareFallback keyId' algorithm credentialId time δ =>
    exact (contains_set_iff _ _ _ _).2 (((contains_set_iff _ _ _ _).1 h).imp_right (hs keyId))
  | encryptWithYubikey keyId' plaintext nonce => exact hs keyId h
  | decryptWithYubikey keyId' ciphertext nonce => exact hs keyId h
  | reset =>
    rw [step, reset_eq] at h ⊢
    split_ifs at h ⊢
    · exact h
    · exact hs keyId h
  | deleteCredential keyId' => exact (contains_erase_iff _ _ _).2 (((contains_erase_iff _ _ _).1 h).imp_right (hs keyId))

theorem backed_run (run : List YubiKeyCall) : Backed (Run.after step (.new available pivAvailable) run) :=
  Run.after_inv (fun c _ s hs => backed_step s c hs) fun _ h => h

/-- keys come from the fallback alone -/
theorem no_key_without_fallback {run : List YubiKeyCall} (h : run.filterMap drawn = []) (keyId : Text) :
    (Run.after step (.new available pivAvailable) run).keyStore.get keyId = none := by
  refine Option.eq_none_iff_forall_ne_some.2 fun key hkey => ?_
  have hmem := mem_drawn hkey
  rw [h] at hmem
  cases hmem

end YubiKeyCall

end AbirGuard.Python.HardwareKeys
