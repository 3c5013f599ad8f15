/-
The keys of a Python vault, apart from everything that does not decide which ciphertexts it can read.

`KeyState` keeps the key maps, the rotation policies and the modes of a session, and `KeyState.apply` says what a call does to
them, as a plain function; the audit log, the attestation and the log of the FIPS encryptor are dropped.

- `keyState_step`: a call on the vault is followed by `apply` on its keys, whether it returns or raises.
- `store_ok_iff`: when a store returns, and the ciphertext that it returns.
-/
import AbirGuard.Python.AttestationGate

namespace AbirGuard.Python.Vault

open AbirGuard.Core Raise

/-! ## The abstract state -/

structure KeyState where
  keypairs : Dict Text KeyPair
  secretKeys : Dict Text Bytes
  canaryIds : List Text
  rotationMgr : Option KeyRotationManager
  fipsMode : Bool
  /-- there is a FIPS encryptor -/
  encryptor : Bool
  mlkemFips : Bool

/-- a call that switches the mode -/
def Call.Switches (c : Call) : Prop := c = .enableFipsMode ∨ c = .disableFipsMode

def keyState (s : Session) : KeyState where
  keypairs := s.vault.keypairs
  secretKeys := s.vault.secretKeys
  canaryIds := s.vault.canaryIds
  rotationMgr := s.vault.rotationMgr
  fipsMode := s.vault.fipsMode
  encryptor := s.vault.fipsEncryptor.isSome
  mlkemFips := s.mlkemFips

namespace KeyState

def usesFips (w : KeyState) : Bool := w.fipsMode && w.encryptor

section

variable (η : Host)

/-- a new key pair for an id, with default policies -/
def newKey (keyId : Text) (w : KeyState) : KeyState :=
  { w with
    keypairs := w.keypairs.set keyId (HybridEncryptor.generateKeypair η).1
    secretKeys := w.secretKeys.set keyId (HybridEncryptor.generateKeypair η).2
    rotationMgr := w.rotationMgr.map (·.registerKey η keyId none none) }

def generate (keyId : Text) (w : KeyState) : KeyState :=
  match validateKeyId keyId with
  | .ok keyId => w.newKey η keyId
  | .error _ => w

def dropSecret (keyId : Text) (w : KeyState) : KeyState :=
  if w.secretKeys.get keyId ≠ none ∧ w.secretKeys.get keyId ≠ some [] then
    { w with secretKeys := w.secretKeys.erase keyId }
  else w

def rotate (keyId : Text) (w : KeyState) : KeyState :=
  if keyId ∈ w.canaryIds then w else (w.dropSecret keyId).generate η keyId

/-- a use of a key is counted -/
def record (operation : Operation) (keyId : Text) (w : KeyState) : KeyState :=
  { w with rotationMgr := w.rotationMgr.map (·.recordUsage η keyId operation) }

def needsRotation (keyId : Text) (w : KeyState) : Bool := w.rotationMgr.any (·.needsRotation η keyId)

/-- what happens before an encryption: an unknown id gets a key, and one whose policy says so is rotated -/
def prepare (ηRotate : Host) (keyId : Text) (w : KeyState) : KeyState :=
  let w := if w.keypairs.contains keyId then w else w.generate η keyId
  if w.needsRotation η keyId then w.rotate ηRotate keyId else w

/-- only the mode that is not FIPS counts -/
def encrypted (keyId : Text) (w : KeyState) : KeyState :=
  if w.usesFips then w else if w.keypairs.contains keyId then w.record η .encrypt keyId else w

def store (ηRotate : Host) (keyId : Text) (plaintext : Bytes) (w : KeyState) : KeyState :=
  match validateKeyId keyId, validateDataSize plaintext with
  | .ok keyId, .ok _ => (w.prepare η ηRotate keyId).encrypted η keyId
  | _, _ => w

def retrieve (l : Libs) (keyId : Text) (ct : Ciphertext) (w : KeyState) : KeyState :=
  match validateKeyId keyId with
  | .error _ => w
  | .ok keyId =>
    match w.secretKeys.get keyId with
    | none => w
    | some key =>
      if w.usesFips then w
      else match HybridEncryptor.decrypt l ct key with
        | .ok _ => w.record η .decrypt keyId
        | .error _ => w

def remove (keyId : Text) (w : KeyState) : KeyState :=
  match validateKeyId keyId with
  | .ok keyId => { w with keypairs := w.keypairs.erase keyId, secretKeys := w.secretKeys.erase keyId }
  | .error _ => w

def canaryId : Text := "__canary_" ++ Text.hexdigest η.canaryId.toList

def addCanary (w : KeyState) : KeyState :=
  { w with
    keypairs := w.keypairs.set (canaryId η) (HybridEncryptor.generateKeypair η).1
    secretKeys := w.secretKeys.set (canaryId η) (HybridEncryptor.generateKeypair η).2
    canaryIds := if canaryId η ∈ w.canaryIds then w.canaryIds else w.canaryIds ++ [canaryId η] }

def switchFips (on : Bool) (w : KeyState) : KeyState := { w with fipsMode := on, encryptor := on, mlkemFips := on }

def apply (l : Libs) : Call → KeyState → KeyState
  | .generateKeypair keyId => generate η keyId
  | .store ηRotate keyId plaintext => store η ηRotate keyId plaintext
  | .retrieve keyId ct => retrieve η l keyId ct
  | .removeKeypair keyId => remove keyId
  | .rotateKey keyId => rotate η keyId
  | .registerKey keyId maxLifetime maxOperations => fun w =>
    { w with rotationMgr := w.rotationMgr.map (·.registerKey η keyId maxLifetime maxOperations) }
  | .addCanary => addCanary η
  | .enableFipsMode => switchFips true
  | .disableFipsMode => switchFips false
  | .clearCache | .checkCanary | .verifyRuntimeIntegrity _ | .computeProof _ _ | .generateChallenge | .registerBinary _ _ => id

/-! ### The modes and the canaries -/

variable (w : KeyState) (keyId : Text)

/-- the mode of the vault, whether it has an encryptor for it, and the switch of the ML-KEM class -/
def modes (w : KeyState) : Bool × Bool × Bool := (w.fipsMode, w.encryptor, w.mlkemFips)

/-- the modes and the canaries: what calls that have nothing to do with them keep -/
def settings (w : KeyState) : (Bool × Bool × Bool) × List Text := (w.modes, w.canaryIds)

@[simp] theorem settings_generate : (w.generate η keyId).settings = w.settings := by
  rw [generate]
  split <;> rfl

@[simp] theorem settings_rotate : (w.rotate η keyId).settings = w.settings := by
  rw [rotate]
  split_ifs
  · rfl
  · rw [settings_generate, dropSecret]
    split_ifs <;> rfl

@[simp] theorem settings_prepare (ηRotate : Host) : (w.prepare η ηRotate keyId).settings = w.settings := by
  rw [prepare]
  split_ifs <;> simp

@[simp] theorem settings_encrypted : (w.encrypted η keyId).settings = w.settings := by
  rw [encrypted]
  split_ifs <;> rfl

/-- calls that switch no mode and plant no canary keep both -/
theorem settings_apply (l : Libs) {c : Call} (hswitch : ¬ c.Switches) (hplant : c ≠ .addCanary) :
    (KeyState.apply η l c w).settings = w.settings := by
  cases c with
  | generateKeypair keyId => exact settings_generate η w keyId
  | store ηRotate keyId p =>
    rw [apply, store]
    split
    · rw [settings_encrypted, settings_prepare]
    · rfl
  | retrieve keyId ct =>
    rw [apply, retrieve]
    repeat' split
    all_goals rfl
  | removeKeypair keyId =>
    rw [apply, remove]
    split <;> rfl
  | rotateKey keyId => exact settings_rotate η w keyId
  | addCanary => exact absurd rfl hplant
  | enableFipsMode => exact absurd (Or.inl rfl) hswitch
  | disableFipsMode => exact absurd (Or.inr rfl) hswitch
  | _ => rfl

theorem modes_prepare (ηRotate : Host) : (w.prepare η ηRotate keyId).modes = w.modes :=
  congrArg Prod.fst (settings_prepare η w keyId ηRotate)

/-- calls that are no switches keep them -/
theorem modes_apply (l : Libs) {c : Call} (hc : ¬ c.Switches) : (KeyState.apply η l c w).modes = w.modes := by
  by_cases hplant : c = .addCanary
  · rw [hplant]
    rfl
  · exact congrArg Prod.fst (settings_apply η w l hc hplant)

theorem mem_addCanary (id : Text) : id ∈ (w.addCanary η).canaryIds ↔ id ∈ w.canaryIds ∨ id = canaryId η := by
  rw [KeyState.addCanary]
  dsimp only
  split_ifs with hc
  · exact ⟨Or.inl, fun hi => hi.elim (fun hi => hi) fun he => he ▸ hc⟩
  · rw [List.mem_append, List.mem_singleton]

/-- only `add_canary` plants -/
theorem mem_canaryIds_apply (l : Libs) (c : Call) (id : Text) :
    id ∈ (KeyState.apply η l c w).canaryIds ↔ id ∈ w.canaryIds ∨ c = .addCanary ∧ id = canaryId η := by
  by_cases hplant : c = .addCanary
  · rw [hplant, apply, mem_addCanary]
    simp
  · have hkept : (KeyState.apply η l c w).canaryIds = w.canaryIds := by
      by_cases hswitch : c.Switches
      · rcases hswitch with rfl | rfl <;> rfl
      · exact congrArg Prod.snd (settings_apply η w l hswitch hplant)
    simp [hkept, hplant]

end

end KeyState

/-! ## Parts of the calls -/

/-- what `store` does before its encryption -/
def prepareKey (l : Libs) (η ηRotate : Host) (keyId : Text) : VaultM Unit := do
  let s ← get
  when (keyId ∈ s.vault.canaryIds) <| log l η "canary_access" keyId false "Attempted to store data in canary key"
  when (¬ s.vault.keypairs.contains keyId) do
    let _ ← generateKeypair l η keyId
  let s ← get
  when (s.vault.rotationMgr.any (·.needsRotation η keyId)) <| rotateKey l ηRotate keyId

/-- what `retrieve` does before its decryption, for an id with a key -/
def checkAccess (l : Libs) (η : Host) (keyId : Text) : VaultM Unit := do
  let s ← get
  when (keyId ∈ s.vault.canaryIds) <| log l η "canary_breach" keyId false "Canary key accessed — breach detected!"
  checkAttestation l η keyId

section

variable {R : Session → Session → Prop} {actions : String → Prop} {l : Libs} {η : Host}

theorem moves_prepareKey (h : Allows l R actions) (haccess : actions "canary_access") (hkeygen : actions "keygen")
    (hrotation : actions "key_rotation") (ηRotate : Host) (keyId : Text) : Moves R (prepareKey l η ηRotate keyId) := by
  refine moves_bind h.trans (moves_get h) fun s => ?_
  refine moves_bind h.trans (moves_when h.refl (moves_log h haccess _ _ _)) fun _ => ?_
  refine moves_bind h.trans (moves_when h.refl ?_) fun _ => ?_
  · exact moves_bind h.trans (moves_generateKeypair h hkeygen _) fun _ => moves_pure h _
  · exact moves_bind h.trans (moves_get h) fun s => moves_when h.refl (moves_rotateKey h hkeygen hrotation _)

theorem moves_checkAccess (h : Allows l R actions) (hbreach : actions "canary_breach") (hfailed : actions "attestation_failed")
    (herror : actions "attestation_error") (keyId : Text) : Moves R (checkAccess l η keyId) := by
  refine moves_bind h.trans (moves_get h) fun s => ?_
  refine moves_bind h.trans (moves_when h.refl (moves_log h hbreach _ _ _)) fun _ => ?_
  exact moves_checkAttestation h hfailed herror _

end

/-! ## The key of an encryption -/

/-- the ciphertext of a plaintext under an AES key -/
def sealed (l : Libs) (η : Host) (key plaintext : Bytes) : Ciphertext :=
  let c := l.gcmEncrypt key η.nonce.toList plaintext
  ⟨b64encode η.nonce.toList, b64encode (c.take (c.length - 16)), b64encode (c.drop (c.length - 16))⟩

/-- the AES key that the current mode encrypts with: the secret itself, or a key derived from the shared secret -/
def KeyState.encryptionKey (l : Libs) (keyId : Text) (w : KeyState) : Option Bytes :=
  if w.usesFips then w.secretKeys.get keyId
  else (w.keypairs.get keyId).map fun kp => HybridEncryptor.aesKey l kp.shared

variable {l : Libs} {η : Host}

theorem validateDataSize_ok_iff {p : Bytes} {u : Unit} : validateDataSize p = .ok u ↔ p.length ≤ MAX_DATA_SIZE := by
  unfold validateDataSize
  split_ifs with h
  · exact iff_of_false (fun he => by cases he) (Nat.not_le.2 h)
  · exact iff_of_true rfl (Nat.le_of_not_lt h)

theorem aesgcm_encrypt_ok_iff {key p c : Bytes} (hp : p.length ≤ MAX_DATA_SIZE) :
    AESGCM.encrypt l key η.nonce.toList p = .ok c ↔
      (key.length = 16 ∨ key.length = 24 ∨ key.length = 32) ∧ c = l.gcmEncrypt key η.nonce.toList p := by
  have hnonce : AESGCM.checkNonce η.nonce.toList = .ok () := if_pos (by rw [η.nonce.length_toList]; decide)
  have hsize : ¬ 2 ^ 31 - 1 < p.length := by
    rw [MAX_DATA_SIZE] at hp
    omega
  rw [AESGCM.encrypt, AESGCM.new]
  by_cases hk : key.length = 16 ∨ key.length = 24 ∨ key.length = 32
  · rw [if_pos hk, Outcome.ok_bind, if_neg hsize, hnonce, Outcome.ok_bind, Except.ok.injEq]
    exact ⟨fun h => ⟨hk, h.symm⟩, fun h => h.2.symm⟩
  · rw [if_neg hk]
    exact iff_of_false (fun h => by cases h) fun h => hk h.1

theorem hybrid_encrypt {p : Bytes} (hp : p.length ≤ MAX_DATA_SIZE) (kp : KeyPair) :
    HybridEncryptor.encrypt l η p kp = .ok (sealed l η (HybridEncryptor.aesKey l kp.shared) p) := by
  have hlen : (HybridEncryptor.aesKey l kp.shared).length = 32 :=
    (l.hkdf DOMAIN (utf8 "aes-key") kp.shared).length_toList
  rw [HybridEncryptor.encrypt, (aesgcm_encrypt_ok_iff hp).2 ⟨Or.inr (Or.inr hlen), rfl⟩]
  rfl

/-- the FIPS encryptor seals under a key of 32 bytes, and raises without a trace under another one -/
theorem fips_encrypt {p : Bytes} (hp : p.length ≤ MAX_DATA_SIZE) (key : Bytes) (f : FIPSEncryptor) :
    (key.length = 32 ∧ ∃ r f', run (FIPSEncryptor.encrypt l η p key) f = (.ok r, f') ∧ ofFipsResult r = sealed l η key p) ∨
      key.length ≠ 32 ∧ ∃ e, run (FIPSEncryptor.encrypt l η p key) f = (.error e, f) := by
  have hnonce : validateNonce η.nonce.toList = .ok () := validateNonce_ok_iff.2 η.nonce.length_toList
  rw [FIPSEncryptor.encrypt, run_lift_bind]
  cases hkey : validateAesKey key with
  | error e =>
    refine Or.inr ⟨fun hl => ?_, e, rfl⟩
    have hok : validateAesKey key = .ok () := validateAesKey_ok_iff.2 (by omega)
    rw [hok] at hkey
    cases hkey
  | ok u =>
    have hlong : 32 ≤ key.length := validateAesKey_ok_iff.1 hkey
    dsimp only
    rw [run_lift_bind, hnonce]
    dsimp only
    rw [run_lift_bind]
    cases henc : AESGCM.encrypt l key η.nonce.toList p with
    | error e =>
      refine Or.inr ⟨fun hl => ?_, e, rfl⟩
      rw [(aesgcm_encrypt_ok_iff hp).2 ⟨Or.inr (Or.inr hl), rfl⟩] at henc
      cases henc
    | ok c =>
      obtain ⟨hl, rfl⟩ := (aesgcm_encrypt_ok_iff hp).1 henc
      exact Or.inl ⟨by omega, _, _, rfl, rfl⟩

/-! ## What each call does to the keys -/

theorem keyState_generateKeypair (keyId : Text) (s : Session) :
    keyState (run (generateKeypair l η keyId) s).2 = (keyState s).generate η keyId := by
  rw [generateKeypair, run_lift_bind, KeyState.generate]
  cases validateKeyId keyId <;> rfl

theorem keyState_rotateKey (keyId : Text) (s : Session) :
    keyState (run (rotateKey l η keyId) s).2 = (keyState s).rotate η keyId := by
  rw [rotateKey, run_get_bind, run_ite, KeyState.rotate]
  by_cases hc : keyId ∈ s.vault.canaryIds
  · rw [if_pos hc, if_pos (show keyId ∈ (keyState s).canaryIds from hc)]
    rfl
  · rw [if_neg hc, if_neg (show keyId ∉ (keyState s).canaryIds from hc)]
    have hdrop : ∃ t, run (when (s.vault.secretKeys.get keyId ≠ none ∧ s.vault.secretKeys.get keyId ≠ some [])
        (update fun v => { v with secretKeys := v.secretKeys.erase keyId })) s = (.ok ⟨⟩, t) ∧
        keyState t = (keyState s).dropSecret keyId := by
      unfold when KeyState.dropSecret
      by_cases hsecret : s.vault.secretKeys.get keyId ≠ none ∧ s.vault.secretKeys.get keyId ≠ some []
      · rw [if_pos hsecret]
        exact ⟨_, rfl, (if_pos hsecret).symm⟩
      · rw [if_neg hsecret]
        exact ⟨_, rfl, (if_neg hsecret).symm⟩
    obtain ⟨t, ht, hview⟩ := hdrop
    rw [run_bind_of_ok ht, ← hview, ← keyState_generateKeypair (l := l), run_bind]
    rcases run (generateKeypair l η keyId) t with ⟨e | a, u⟩ <;> rfl

/-! ## Encryption and decryption -/

theorem usesFips_iff {v : Vault} : v.usesFips = true ↔ v.fipsMode = true ∧ ∃ f, v.fipsEncryptor = some f := by
  rw [usesFips, Bool.and_eq_true, Option.isSome_iff_exists]

theorem not_usesFips_iff {v : Vault} : v.usesFips = false ↔ v.fipsMode = false ∨ v.fipsMode = true ∧ v.fipsEncryptor = none := by
  rw [usesFips]
  cases v.fipsMode <;> simp

/-- in FIPS mode nothing but the log of the FIPS encryptor changes -/
theorem encryptInMode_fips {s : Session} (h : s.vault.usesFips = true) (keyId : Text) {p : Bytes}
    (hp : p.length ≤ MAX_DATA_SIZE) :
    (∃ f, (run (encryptInMode l η keyId p) s).2 = { s with vault := { s.vault with fipsEncryptor := some f } }) ∧
    ∀ ct, (run (encryptInMode l η keyId p) s).1 = .ok ct ↔
      ∃ key, s.vault.secretKeys.get keyId = some key ∧ key.length = 32 ∧ ct = sealed l η key p := by
  obtain ⟨hm, f, hf⟩ := usesFips_iff.1 h
  have hsame : s = { s with vault := { s.vault with fipsEncryptor := some f } } := by rw [← hf]
  rw [encryptInMode, run_get_bind, hm, hf]
  dsimp only
  rw [run_lift_bind]
  cases hkey : lookup keyId s.vault.secretKeys with
  | error e =>
    refine ⟨⟨f, hsame⟩, fun ct => iff_of_false (fun he => by cases he) ?_⟩
    rintro ⟨key, hk, -⟩
    rw [lookup_ok_iff.2 hk] at hkey
    cases hkey
  | ok key =>
    have hget := lookup_ok_iff.1 hkey
    rcases fips_encrypt (l := l) (η := η) hp key f with ⟨hlen, r, f', hrun, hr⟩ | ⟨hlen, e, hrun⟩
    · simp only [run_bind, withEncryptor, run_zoom, hrun, run_pure]
      refine ⟨⟨f', rfl⟩, fun ct => ?_⟩
      rw [Except.ok.injEq, hr]
      constructor
      · rintro rfl
        exact ⟨key, hget, hlen, rfl⟩
      · rintro ⟨key', hk', -, rfl⟩
        obtain rfl : key = key' := Option.some.inj (hget.symm.trans hk')
        rfl
    · simp only [run_bind, withEncryptor, run_zoom, hrun]
      refine ⟨⟨f, rfl⟩, fun ct => iff_of_false (fun he => by cases he) ?_⟩
      rintro ⟨key', hk', hlen', -⟩
      obtain rfl : key = key' := Option.some.inj (hget.symm.trans hk')
      exact hlen hlen'

/-- in the other mode an encryption is logged and counted -/
theorem encryptInMode_plain {s : Session} (h : s.vault.usesFips = false) (keyId : Text) {p : Bytes}
    (hp : p.length ≤ MAX_DATA_SIZE) :
    (∃ kp, s.vault.keypairs.get keyId = some kp ∧ run (encryptInMode l η keyId p) s =
      (.ok (sealed l η (HybridEncryptor.aesKey l kp.shared) p), { s with vault := { s.vault with
        audit := AuditLogger.log l η "encrypt" keyId true [] s.vault.audit
        rotationMgr := s.vault.rotationMgr.map (·.recordUsage η keyId .encrypt) } })) ∨
    s.vault.keypairs.get keyId = none ∧ ∃ e, run (encryptInMode l η keyId p) s = (.error e, s) := by
  have hbranch : run (encryptInMode l η keyId p) s = run (lift (lookup keyId s.vault.keypairs) >>= fun kp =>
      lift (HybridEncryptor.encrypt l η p kp) >>= fun ct => log l η "encrypt" keyId true [] >>= fun _ =>
        rotation (·.recordUsage η keyId .encrypt) >>= fun _ => pure ct) s := by
    rw [encryptInMode, run_get_bind]
    rcases not_usesFips_iff.1 h with hm | ⟨hm, hf⟩
    · rw [hm]
    · rw [hm, hf]
  rw [hbranch, run_lift_bind]
  cases hkey : lookup keyId s.vault.keypairs with
  | error e =>
    refine Or.inr ⟨?_, e, rfl⟩
    cases hget : s.vault.keypairs.get keyId with
    | none => rfl
    | some kp =>
      rw [lookup_ok_iff.2 hget] at hkey
      cases hkey
  | ok kp =>
    refine Or.inl ⟨kp, lookup_ok_iff.1 hkey, ?_⟩
    dsimp only
    rw [run_lift_bind, hybrid_encrypt hp]
    rfl

theorem keyState_usesFips (s : Session) : (keyState s).usesFips = s.vault.usesFips := rfl

theorem keyState_encryptInMode (keyId : Text) {p : Bytes} (hp : p.length ≤ MAX_DATA_SIZE) (s : Session) :
    keyState (run (encryptInMode l η keyId p) s).2 = (keyState s).encrypted η keyId := by
  rw [KeyState.encrypted, keyState_usesFips]
  cases h : s.vault.usesFips with
  | true =>
    obtain ⟨⟨f, hs⟩, -⟩ := encryptInMode_fips (l := l) (η := η) h keyId hp
    obtain ⟨-, f₀, hf₀⟩ := usesFips_iff.1 h
    rw [hs, if_pos rfl, keyState, keyState, hf₀]
    rfl
  | false =>
    rw [if_neg Bool.false_ne_true]
    rcases encryptInMode_plain (l := l) (η := η) h keyId hp with ⟨kp, hkp, hrun⟩ | ⟨hnone, e, hrun⟩
    · have hc : (keyState s).keypairs.contains keyId := Dict.contains_iff.2 ⟨kp, hkp⟩
      rw [hrun, if_pos hc]
      rfl
    · have hc : ¬ (keyState s).keypairs.contains keyId := fun hc => by
        obtain ⟨kp, hkp⟩ := Dict.contains_iff.1 hc
        exact absurd (hnone.symm.trans hkp) (by simp)
      rw [hrun, if_neg hc]

theorem encryptInMode_ok_iff (keyId : Text) {p : Bytes} (hp : p.length ≤ MAX_DATA_SIZE) (s : Session) (ct : Ciphertext) :
    (run (encryptInMode l η keyId p) s).1 = .ok ct ↔
      ∃ key, (keyState s).encryptionKey l keyId = some key ∧ key.length = 32 ∧ ct = sealed l η key p := by
  rw [KeyState.encryptionKey, keyState_usesFips]
  cases h : s.vault.usesFips with
  | true =>
    rw [if_pos rfl]
    exact (encryptInMode_fips h keyId hp).2 ct
  | false =>
    rw [if_neg Bool.false_ne_true]
    rcases encryptInMode_plain (l := l) (η := η) h keyId hp with ⟨kp, hkp, hrun⟩ | ⟨hnone, e, hrun⟩
    · have hlen : (HybridEncryptor.aesKey l kp.shared).length = 32 :=
        (l.hkdf DOMAIN (utf8 "aes-key") kp.shared).length_toList
      rw [hrun, show (keyState s).keypairs.get keyId = some kp from hkp, Option.map_some, Except.ok.injEq]
      constructor
      · rintro rfl
        exact ⟨_, rfl, hlen, rfl⟩
      · rintro ⟨key, hkey, -, rfl⟩
        rw [Option.some.inj hkey]
    · rw [hrun, show (keyState s).keypairs.get keyId = none from hnone]
      refine iff_of_false (fun he => by cases he) ?_
      rintro ⟨key, hkey, -⟩
      cases hkey

theorem keyState_audit (s : Session) (entries : List AuditEntry) :
    keyState { s with vault := { s.vault with audit := entries } } = keyState s := rfl

/-- a valid id is never refused by the calls inside a call -/
theorem run_generateKeypair {keyId : Text} (h : validateKeyId keyId = .ok keyId) (s : Session) :
    ∃ t, (∃ r, run (generateKeypair l η keyId) s = (.ok r, t)) ∧ keyState t = (keyState s).newKey η keyId := by
  rw [generateKeypair, run_lift_bind, h]
  exact ⟨_, ⟨_, rfl⟩, rfl⟩

theorem run_rotateKey {keyId : Text} (h : validateKeyId keyId = .ok keyId) (s : Session) :
    ∃ t, run (rotateKey l η keyId) s = (.ok (), t) ∧ keyState t = (keyState s).rotate η keyId := by
  refine ⟨(run (rotateKey l η keyId) s).2, Prod.ext ?_ rfl, keyState_rotateKey keyId s⟩
  rw [rotateKey, run_get_bind, run_ite]
  split_ifs
  · rfl
  · obtain ⟨t, ht⟩ : ∃ t, run (when (s.vault.secretKeys.get keyId ≠ none ∧ s.vault.secretKeys.get keyId ≠ some [])
        (update fun v => { v with secretKeys := v.secretKeys.erase keyId })) s = (.ok ⟨⟩, t) := by
      unfold when
      split_ifs <;> exact ⟨_, rfl⟩
    obtain ⟨u, ⟨r, hu⟩, -⟩ := run_generateKeypair (l := l) (η := η) h t
    rw [run_bind_of_ok ht, run_bind_of_ok hu]
    rfl

/-- the preparation of a valid id never raises -/
theorem run_prepareKey (ηRotate : Host) {keyId : Text} (hid : validateKeyId keyId = .ok keyId) (s : Session) :
    ∃ t, run (prepareKey l η ηRotate keyId) s = (.ok ⟨⟩, t) ∧ keyState t = (keyState s).prepare η ηRotate keyId := by
  rw [prepareKey, run_get_bind]
  obtain ⟨entries, hlog⟩ := run_when_log (l := l) (η := η) (keyId ∈ s.vault.canaryIds) "canary_access" keyId false
    "Attempted to store data in canary key" s
  rw [run_bind_of_ok hlog]
  -- the id has a key afterwards
  obtain ⟨t, ht, hkeys⟩ : ∃ t, run (when (¬ s.vault.keypairs.contains keyId) (generateKeypair l η keyId >>= fun _ => pure ⟨⟩))
      { s with vault := { s.vault with audit := entries } } = (.ok ⟨⟩, t) ∧
      keyState t = if (keyState s).keypairs.contains keyId then keyState s else (keyState s).generate η keyId := by
    unfold when
    by_cases hc : s.vault.keypairs.contains keyId
    · rw [if_neg (not_not.2 hc), if_pos (show (keyState s).keypairs.contains keyId from hc)]
      exact ⟨_, rfl, keyState_audit s entries⟩
    · rw [if_pos hc, if_neg (show ¬ (keyState s).keypairs.contains keyId from hc)]
      obtain ⟨t, ⟨r, ht⟩, hview⟩ := run_generateKeypair (l := l) (η := η) hid
        { s with vault := { s.vault with audit := entries } }
      refine ⟨t, by rw [run_bind_of_ok ht]; rfl, ?_⟩
      rw [hview, keyState_audit, KeyState.generate, hid]
  rw [run_bind_of_ok ht, run_get_bind]
  rw [KeyState.prepare, ← hkeys]
  unfold when
  by_cases hneeds : t.vault.rotationMgr.any (·.needsRotation η keyId)
  · rw [if_pos hneeds, if_pos (show (keyState t).needsRotation η keyId from hneeds)]
    obtain ⟨u, hu, hview⟩ := run_rotateKey (l := l) (η := ηRotate) hid t
    exact ⟨u, hu, hview⟩
  · rw [if_neg hneeds, if_neg (show ¬ (keyState t).needsRotation η keyId from hneeds)]
    exact ⟨t, rfl, rfl⟩

/-- **A store of an admissible text** prepares its id and encrypts. -/
theorem run_store (ηRotate : Host) {keyId : Text} {p : Bytes} (hid : validateKeyId keyId = .ok keyId)
    (hp : p.length ≤ MAX_DATA_SIZE) (s : Session) :
    run (store l η ηRotate keyId p) s = run (prepareKey l η ηRotate keyId >>= fun _ => encryptInMode l η keyId p) s := by
  rw [store, run_lift_bind, hid]
  dsimp only
  rw [run_lift_bind, (validateDataSize_ok_iff (u := ())).2 hp]
  simp only [prepareKey, bind_assoc]

theorem validateKeyId_cases (keyId : Text) : validateKeyId keyId = .ok keyId ∨ ∃ e, validateKeyId keyId = .error e := by
  cases h : validateKeyId keyId with
  | error e => exact Or.inr ⟨e, rfl⟩
  | ok id => exact Or.inl (by rw [validateKeyId_eq h])

/-- a store that is refused for its arguments changes nothing -/
theorem run_store_refused (ηRotate : Host) {keyId : Text} {p : Bytes}
    (h : ¬ (validateKeyId keyId = .ok keyId ∧ p.length ≤ MAX_DATA_SIZE)) (s : Session) :
    ∃ e, run (store l η ηRotate keyId p) s = (.error e, s) := by
  rw [store, run_lift_bind]
  rcases validateKeyId_cases keyId with hid | ⟨e, he⟩
  · rw [hid]
    dsimp only
    rw [run_lift_bind]
    cases hsize : validateDataSize p with
    | error e => exact ⟨e, rfl⟩
    | ok u => exact absurd ⟨hid, validateDataSize_ok_iff.1 hsize⟩ h
  · rw [he]
    exact ⟨e, rfl⟩

theorem keyState_store (ηRotate : Host) (keyId : Text) (p : Bytes) (s : Session) :
    keyState (run (store l η ηRotate keyId p) s).2 = (keyState s).store η ηRotate keyId p := by
  rw [KeyState.store]
  by_cases h : validateKeyId keyId = .ok keyId ∧ p.length ≤ MAX_DATA_SIZE
  · obtain ⟨t, ht, hview⟩ := run_prepareKey (l := l) (η := η) ηRotate h.1 s
    rw [run_store ηRotate h.1 h.2, run_bind_of_ok ht, keyState_encryptInMode keyId h.2, hview, h.1,
      (validateDataSize_ok_iff (u := ())).2 h.2]
  · obtain ⟨e, he⟩ := run_store_refused (l := l) (η := η) ηRotate h s
    rw [he]
    rcases validateKeyId_cases keyId with hid | ⟨e, hid⟩
    · rw [hid]
      cases hsize : validateDataSize p with
      | error e => rfl
      | ok u => exact absurd ⟨hid, validateDataSize_ok_iff.1 hsize⟩ h
    · rw [hid]

/-- **When a store returns**, and the ciphertext that it returns. -/
theorem store_ok_iff {ηRotate : Host} {keyId : Text} {p : Bytes} {s : Session} {ct : Ciphertext} :
    (run (store l η ηRotate keyId p) s).1 = .ok ct ↔ (validateKeyId keyId = .ok keyId ∧ p.length ≤ MAX_DATA_SIZE) ∧
      ∃ key, ((keyState s).prepare η ηRotate keyId).encryptionKey l keyId = some key ∧ key.length = 32 ∧
        ct = sealed l η key p := by
  by_cases h : validateKeyId keyId = .ok keyId ∧ p.length ≤ MAX_DATA_SIZE
  · obtain ⟨t, ht, hview⟩ := run_prepareKey (l := l) (η := η) ηRotate h.1 s
    rw [run_store ηRotate h.1 h.2, run_bind_of_ok ht, encryptInMode_ok_iff keyId h.2, hview]
    exact ⟨fun hk => ⟨h, hk⟩, fun hk => hk.2⟩
  · obtain ⟨e, he⟩ := run_store_refused (l := l) (η := η) ηRotate h s
    rw [he]
    exact iff_of_false (fun hr => by cases hr) fun hr => h hr.1

/-- in FIPS mode a decryption is logged and not counted -/
theorem decryptInMode_fips {s : Session} (h : s.vault.usesFips = true) (keyId : Text) (ct : Ciphertext) :
    ∃ f entries, (run (decryptInMode l η keyId ct) s).2 =
        { s with vault := { s.vault with fipsEncryptor := some f, audit := entries } } ∧
      ∀ p, (run (decryptInMode l η keyId ct) s).1 = .ok p →
        entries = AuditLogger.log l η "decrypt" keyId true [] s.vault.audit := by
  obtain ⟨hm, f, hf⟩ := usesFips_iff.1 h
  have hsame : s = { s with vault := { s.vault with fipsEncryptor := some f, audit := s.vault.audit } } := by rw [← hf]
  rw [decryptInMode, run_get_bind, run_lift_bind]
  cases lookup keyId s.vault.secretKeys with
  | error e => exact ⟨f, _, hsame, fun p hp => by cases hp⟩
  | ok key =>
    rw [hm, hf]
    dsimp only
    rw [run_lift_bind]
    cases b64decode ct.ciphertext with
    | error e => exact ⟨f, _, hsame, fun p hp => by cases hp⟩
    | ok c =>
      dsimp only
      rw [run_lift_bind]
      cases HybridEncryptor.tagBytes ct with
      | error e => exact ⟨f, _, hsame, fun p hp => by cases hp⟩
      | ok tag =>
        dsimp only
        rw [run_lift_bind]
        cases b64decode ct.nonce with
        | error e => exact ⟨f, _, hsame, fun p hp => by cases hp⟩
        | ok nonce =>
          dsimp only
          rw [run_bind, withEncryptor, run_zoom]
          rcases run (FIPSEncryptor.decrypt l η c tag nonce key) f with ⟨e | p, f'⟩
          · exact ⟨f', _, rfl, fun p hp => by cases hp⟩
          · exact ⟨f', _, rfl, fun q _ => rfl⟩

/-- in the other mode it is logged and counted -/
theorem decryptInMode_plain {s : Session} (h : s.vault.usesFips = false) {keyId : Text} {key : Bytes}
    (hkey : s.vault.secretKeys.get keyId = some key) (ct : Ciphertext) :
    run (decryptInMode l η keyId ct) s = match HybridEncryptor.decrypt l ct key with
      | .ok p => (.ok p, { s with vault := { s.vault with
          audit := AuditLogger.log l η "decrypt" keyId true [] s.vault.audit
          rotationMgr := s.vault.rotationMgr.map (·.recordUsage η keyId .decrypt) } })
      | .error e => (.error e, s) := by
  have hbranch : run (decryptInMode l η keyId ct) s = run (lift (HybridEncryptor.decrypt l ct key) >>= fun p =>
      log l η "decrypt" keyId true [] >>= fun _ => rotation (·.recordUsage η keyId .decrypt) >>= fun _ => pure p) s := by
    rw [decryptInMode, run_get_bind, run_lift_bind, lookup_ok_iff.2 hkey]
    rcases not_usesFips_iff.1 h with hm | ⟨hm, hf⟩
    · rw [hm]
    · rw [hm, hf]
  rw [hbranch, run_lift_bind]
  cases HybridEncryptor.decrypt l ct key <;> rfl

/-- the checks before a decryption never raise, and change only the audit log -/
theorem run_checkAccess (keyId : Text) (s : Session) :
    ∃ entries, run (checkAccess l η keyId) s = (.ok ⟨⟩, { s with vault := { s.vault with audit := entries } }) := by
  obtain ⟨entries, hlog⟩ := run_when_log (l := l) (η := η) (keyId ∈ s.vault.canaryIds) "canary_breach" keyId false
    "Canary key accessed — breach detected!" s
  rw [checkAccess, run_get_bind, run_bind_of_ok hlog]
  exact checkAttestation_run keyId { s with vault := { s.vault with audit := entries } }

/-- **A retrieval for an id with a key** checks the access and decrypts. -/
theorem run_retrieve {keyId : Text} (hid : validateKeyId keyId = .ok keyId) {s : Session} {key : Bytes}
    (hkey : s.vault.secretKeys.get keyId = some key) (ct : Ciphertext) :
    run (retrieve l η keyId ct) s = run (checkAccess l η keyId >>= fun _ => decryptInMode l η keyId ct) s := by
  have hc : s.vault.secretKeys.contains keyId := Dict.contains_iff.2 ⟨key, hkey⟩
  rw [retrieve, run_lift_bind, hid]
  dsimp only
  rw [run_get_bind, run_ite, if_neg (not_not.2 hc), checkAccess, bind_assoc, run_get_bind, bind_assoc]

theorem keyState_retrieve (keyId : Text) (ct : Ciphertext) (s : Session) :
    keyState (run (retrieve l η keyId ct) s).2 = (keyState s).retrieve η l keyId ct := by
  rw [KeyState.retrieve]
  rcases validateKeyId_cases keyId with hid | ⟨e, he⟩
  · rw [hid]
    dsimp only
    cases hkey : s.vault.secretKeys.get keyId with
    | none =>
      have hc : ¬ s.vault.secretKeys.contains keyId := fun hc => by
        obtain ⟨key, hk⟩ := Dict.contains_iff.1 hc
        exact absurd (hkey.symm.trans hk) (by simp)
      rw [show (keyState s).secretKeys.get keyId = none from hkey, retrieve, run_lift_bind, hid]
      dsimp only
      rw [run_get_bind, run_ite, if_pos hc]
      rfl
    | some key =>
      obtain ⟨entries, hcheck⟩ := run_checkAccess (l := l) (η := η) keyId s
      rw [show (keyState s).secretKeys.get keyId = some key from hkey, run_retrieve hid hkey, run_bind_of_ok hcheck]
      dsimp only
      rw [keyState_usesFips]
      cases h : s.vault.usesFips with
      | true =>
        obtain ⟨f, entries', hs, -⟩ := decryptInMode_fips (l := l) (η := η)
          (s := { s with vault := { s.vault with audit := entries } }) h keyId ct
        obtain ⟨-, f₀, hf₀⟩ := usesFips_iff.1 h
        rw [hs, if_pos rfl, keyState, keyState, hf₀]
        rfl
      | false =>
        rw [decryptInMode_plain (s := { s with vault := { s.vault with audit := entries } }) h hkey,
          if_neg Bool.false_ne_true]
        cases HybridEncryptor.decrypt l ct key <;> rfl
  · rw [retrieve, run_lift_bind, he]

theorem keyState_removeKeypair (keyId : Text) (s : Session) :
    keyState (run (removeKeypair l η keyId) s).2 = (keyState s).remove keyId := by
  rw [removeKeypair, run_lift_bind, KeyState.remove]
  cases validateKeyId keyId <;> rfl

/-- what a call returns plays no part in the state that it leaves -/
theorem run_ignore {α : Type} (x : VaultM α) (s : Session) : (run (ignore x) s).2 = (run x s).2 := by
  rw [ignore, run_bind]
  rcases run x s with ⟨e | a, t⟩ <;> rfl

theorem keyState_verifyRuntimeIntegrity (challenge : Option Text) (s : Session) :
    keyState (run (verifyRuntimeIntegrity l η challenge) s).2 = keyState s := by
  rw [verifyRuntimeIntegrity, run_get_bind]
  cases s.vault.attestationVerifier with
  | none => rfl
  | some a =>
    dsimp only
    rw [update, run_modify_bind, run_lift_bind]
    cases (s.vault.integrityProof.compute l η (challenge.getD (Text.hexdigest η.runtimeChallenge.toList)) []).1 with
    | error e => rfl
    | ok u =>
      dsimp only
      rw [run_lift]
      rfl

theorem keyState_checkCanary (s : Session) : keyState (run (checkCanary l η) s).2 = keyState s := by
  rw [checkCanary, run_get_bind]
  split <;> rfl

/-- **The keys follow the calls.** -/
theorem keyState_step (s : Session) (c : Host × Call) : keyState (step l s c) = (keyState s).apply c.1 l c.2 := by
  obtain ⟨η, c⟩ := c
  cases c with
  | generateKeypair keyId => exact (congrArg keyState (run_ignore _ s)).trans (keyState_generateKeypair keyId s)
  | store ηRotate keyId p => exact (congrArg keyState (run_ignore _ s)).trans (keyState_store ηRotate keyId p s)
  | retrieve keyId ct => exact (congrArg keyState (run_ignore _ s)).trans (keyState_retrieve keyId ct s)
  | removeKeypair keyId => exact keyState_removeKeypair keyId s
  | clearCache => rfl
  | rotateKey keyId => exact keyState_rotateKey keyId s
  | registerKey keyId maxLifetime maxOperations => rfl
  | addCanary => rfl
  | checkCanary => exact (congrArg keyState (run_ignore _ s)).trans (keyState_checkCanary s)
  | enableFipsMode => rfl
  | disableFipsMode => rfl
  | verifyRuntimeIntegrity challenge =>
    exact (congrArg keyState (run_ignore _ s)).trans (keyState_verifyRuntimeIntegrity challenge s)
  | computeProof challenge expected =>
    dsimp only [step, Call.run]
    rw [computeProof, run_get_bind]
    rcases s.vault.integrityProof.compute l η challenge expected with ⟨result, proof⟩
    rfl
  | generateChallenge => rfl
  | registerBinary name sha256Hash => rfl

end AbirGuard.Python.Vault
