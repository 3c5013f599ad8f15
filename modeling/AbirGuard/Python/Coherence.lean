/-
The two maps that hold the keys of a Python vault agree.

A key has a key pair to encrypt with and a secret to decrypt with, in two maps that generation, rotation and removal update
one after the other. `Coherent` says that after every call they agree; `KeyState.change` says which id got a new secret or
lost its own.

- `KeyState.Coherent.apply`: every call keeps the maps coherent.
- `KeyState.Coherent.get_apply`: what a call does to the secret of each id.
- `KeyState.metadata_record`: what a logged use does to the counts of each id.
-/
import AbirGuard.Python.KeyState

namespace AbirGuard.Python.Vault

open AbirGuard.Core Raise

/-! ## Coherence -/

structure KeyState.Coherent (w : KeyState) : Prop where
  agree : ∀ id, (w.keypairs.get id).map KeyPair.shared = w.secretKeys.get id
  known : ∀ id σ, w.secretKeys.get id = some σ → validateKeyId id = .ok id ∨ id ∈ w.canaryIds
  planted : ∀ id ∈ w.canaryIds, reserved id
  size : ∀ id σ, w.secretKeys.get id = some σ → σ.length = 32
  mode : w.encryptor = w.fipsMode
  /-- the vault was built with a manager without limits of its own, and valid ids with a key are tracked -/
  tracked : ∃ m, w.rotationMgr = some m ∧ m.defaultMaxLifetime = 0 ∧ m.defaultMaxOperations = 0 ∧
    ∀ id σ, validateKeyId id = .ok id → w.secretKeys.get id = some σ → ∃ data, m.metadata.get id = some data

/-- the id whose secret a call changes, and the new one if there is one -/
def KeyState.change (η : Host) (w : KeyState) : Call → Option (Text × Option Bytes)
  | .generateKeypair keyId => if validateKeyId keyId = .ok keyId then some (keyId, some η.secret.toList) else none
  | .store ηRotate keyId plaintext =>
    if validateKeyId keyId = .ok keyId ∧ plaintext.length ≤ MAX_DATA_SIZE then
      if ¬ w.keypairs.contains keyId then some (keyId, some η.secret.toList)
      else if w.needsRotation η keyId then some (keyId, some ηRotate.secret.toList)
      else none
    else none
  | .rotateKey keyId => if validateKeyId keyId = .ok keyId then some (keyId, some η.secret.toList) else none
  | .removeKeypair keyId => if validateKeyId keyId = .ok keyId then some (keyId, none) else none
  | .addCanary => some (KeyState.canaryId η, some η.secret.toList)
  | _ => none

/-- a key is removed, regenerated or rotated, by a call of its own or inside a store -/
def Ends (keyId : Text) (s : Session) (c : Host × Call) : Prop := ∃ σ, (keyState s).change c.1 c.2 = some (keyId, σ)

instance (keyId : Text) (s : Session) (c : Host × Call) : Decidable (Ends keyId s c) :=
  decidable_of_iff (((keyState s).change c.1 c.2).map Prod.fst = some keyId) (by simp [Ends])

/-- the AES key that a mode makes of a secret -/
def modeKey (l : Libs) (fips : Bool) (σ : Bytes) : Bytes := if fips then σ else HybridEncryptor.aesKey l σ

variable {l : Libs} {η : Host} {w : KeyState}

theorem not_reserved {keyId : Text} (h : validateKeyId keyId = .ok keyId) : ¬ reserved keyId := by
  intro hr
  rw [validateKeyId] at h
  split_ifs at h

theorem reserved_canaryId (η : Host) : reserved (KeyState.canaryId η) := by
  rw [reserved, KeyState.canaryId, List.isPrefixOf_iff_prefix]
  exact ⟨Text.ofString "canary_" ++ Text.hexdigest η.canaryId.toList, rfl⟩

namespace KeyState

theorem Coherent.not_canary (h : w.Coherent) {keyId : Text} (hid : validateKeyId keyId = .ok keyId) :
    keyId ∉ w.canaryIds := fun hc => not_reserved hid (h.planted keyId hc)

theorem Coherent.contains_iff (h : w.Coherent) {keyId : Text} :
    w.keypairs.contains keyId ↔ ∃ σ, w.secretKeys.get keyId = some σ := by
  rw [Dict.contains_iff, ← h.agree]
  simp

/-- a store of an admissible text -/
theorem store_eq {ηRotate : Host} {keyId : Text} {p : Bytes} (hid : validateKeyId keyId = .ok keyId)
    (hp : p.length ≤ MAX_DATA_SIZE) : w.store η ηRotate keyId p = (w.prepare η ηRotate keyId).encrypted η keyId := by
  rw [KeyState.store, hid, (validateDataSize_ok_iff (u := ())).2 hp]

/-! ## Coherence is kept -/

/-- the maps of `w'` are those of `w`, up to the key of one id -/
structure Changes (keyId : Text) (σ : Option Bytes) (w w' : KeyState) : Prop where
  keypair : (w'.keypairs.get keyId).map KeyPair.shared = σ
  secret : w'.secretKeys.get keyId = σ
  keypairs : ∀ id, keyId ≠ id → w'.keypairs.get id = w.keypairs.get id
  secretKeys : ∀ id, keyId ≠ id → w'.secretKeys.get id = w.secretKeys.get id

section Changes

variable {keyId : Text} {σ : Option Bytes} {w' : KeyState}

theorem Changes.get (hc : Changes keyId σ w w') (id : Text) :
    w'.secretKeys.get id = if keyId = id then σ else w.secretKeys.get id := by
  split_ifs with hid
  · rw [← hid, hc.secret]
  · exact hc.secretKeys id hid

theorem Changes.agree (hc : Changes keyId σ w w') (h : w.Coherent) (id : Text) :
    (w'.keypairs.get id).map KeyPair.shared = w'.secretKeys.get id := by
  by_cases hid : keyId = id
  · rw [← hid, hc.keypair, hc.secret]
  · rw [hc.keypairs id hid, hc.secretKeys id hid, h.agree]

/-- a secret after the change is the new one or one of before -/
theorem Changes.get_eq_some (hc : Changes keyId σ w w') {id : Text} {k : Bytes} (hk : w'.secretKeys.get id = some k) :
    keyId = id ∧ σ = some k ∨ keyId ≠ id ∧ w.secretKeys.get id = some k := by
  by_cases hid : keyId = id
  · exact Or.inl ⟨hid, by rw [← hc.secret, hid, hk]⟩
  · exact Or.inr ⟨hid, by rw [← hc.secretKeys id hid, hk]⟩

/-- a change that keeps the mode keeps the maps coherent where the new secret is a key of a tracked id or of a canary -/
theorem Coherent.of_changes (h : w.Coherent) (hc : Changes keyId σ w w')
    (hsize : ∀ k, σ = some k → k.length = 32)
    (hknown : ∀ k, σ = some k → validateKeyId keyId = .ok keyId ∨ keyId ∈ w'.canaryIds)
    (hcanaries : ∀ id ∈ w.canaryIds, id ∈ w'.canaryIds) (hplanted : ∀ id ∈ w'.canaryIds, id ∈ w.canaryIds ∨ reserved id)
    (hmode : w'.encryptor = w'.fipsMode)
    (htracked : ∀ m, w.rotationMgr = some m → ∃ m', w'.rotationMgr = some m' ∧
      m'.defaultMaxLifetime = m.defaultMaxLifetime ∧ m'.defaultMaxOperations = m.defaultMaxOperations ∧
      (∀ k, σ = some k → validateKeyId keyId = .ok keyId → ∃ data, m'.metadata.get keyId = some data) ∧
      ∀ id, keyId ≠ id → m'.metadata.get id = m.metadata.get id) : w'.Coherent where
  agree := hc.agree h
  known id k hk := by
    rcases hc.get_eq_some hk with ⟨rfl, hσ⟩ | ⟨-, hk⟩
    · exact hknown k hσ
    · exact (h.known id k hk).imp_right (hcanaries id)
  planted id hi := (hplanted id hi).elim (h.planted id) fun hr => hr
  size id k hk := by
    rcases hc.get_eq_some hk with ⟨-, hσ⟩ | ⟨-, hk⟩
    · exact hsize k hσ
    · exact h.size id k hk
  mode := hmode
  tracked := by
    obtain ⟨m, hm, hlife, hops, hold⟩ := h.tracked
    obtain ⟨m', hm', hlife', hops', hnew, hkeep⟩ := htracked m hm
    refine ⟨m', hm', hlife'.trans hlife, hops'.trans hops, ?_⟩
    intro id k hv hk
    rcases hc.get_eq_some hk with ⟨rfl, hσ⟩ | ⟨hne, hk⟩
    · exact hnew k hσ hv
    · rw [hkeep id hne]
      exact hold id k hv hk

end Changes

theorem length_secret {k : Bytes} (hk : some η.secret.toList = some k) : k.length = 32 := by
  rw [← Option.some.inj hk, Vector.length_toList]

/-- a new key, where its old secret may have been dropped before -/
theorem changes_newKey {secrets : Dict Text Bytes} {keyId : Text}
    (hs : ∀ id, keyId ≠ id → secrets.get id = w.secretKeys.get id) :
    Changes keyId (some η.secret.toList) w (KeyState.newKey η keyId { w with secretKeys := secrets }) where
  keypair := congrArg _ (Dict.get_set_self ..)
  secret := Dict.get_set_self ..
  keypairs _ hid := Dict.get_set_of_ne hid ..
  secretKeys id hid := (Dict.get_set_of_ne hid ..).trans (hs id hid)

theorem changes_erase (keyId : Text) :
    Changes keyId none w { w with keypairs := w.keypairs.erase keyId, secretKeys := w.secretKeys.erase keyId } where
  keypair := congrArg _ (Dict.get_erase_self ..)
  secret := Dict.get_erase_self ..
  keypairs _ hid := Dict.get_erase_of_ne hid ..
  secretKeys _ hid := Dict.get_erase_of_ne hid ..

theorem changes_addCanary : Changes (canaryId η) (some η.secret.toList) w (w.addCanary η) where
  keypair := congrArg _ (Dict.get_set_self ..)
  secret := Dict.get_set_self ..
  keypairs _ hid := Dict.get_set_of_ne hid ..
  secretKeys _ hid := Dict.get_set_of_ne hid ..

theorem Coherent.newKey (h : w.Coherent) {keyId : Text} (hid : validateKeyId keyId = .ok keyId) {secrets : Dict Text Bytes}
    (hs : ∀ id, keyId ≠ id → secrets.get id = w.secretKeys.get id) :
    (KeyState.newKey η keyId { w with secretKeys := secrets }).Coherent := by
  refine h.of_changes (changes_newKey hs) (fun _ => length_secret) (fun _ _ => Or.inl hid) (fun _ hi => hi)
    (fun _ hi => Or.inl hi) h.mode fun m hm => ?_
  refine ⟨_, congrArg (Option.map _) hm, rfl, rfl, fun _ _ _ => ⟨_, Dict.get_set_self ..⟩, ?_⟩
  intro id hne
  exact Dict.get_set_of_ne hne ..

/-- a rotation under a valid id is a new key -/
theorem Coherent.rotate_eq (h : w.Coherent) {keyId : Text} (hid : validateKeyId keyId = .ok keyId) :
    ∃ secrets : Dict Text Bytes, (∀ id, keyId ≠ id → secrets.get id = w.secretKeys.get id) ∧
      w.rotate η keyId = KeyState.newKey η keyId { w with secretKeys := secrets } := by
  rw [rotate, if_neg (h.not_canary hid), generate, hid, dropSecret]
  split_ifs
  · exact ⟨_, fun id hne => Dict.get_erase_of_ne hne _, rfl⟩
  · exact ⟨w.secretKeys, fun id _ => rfl, rfl⟩

/-- under another id it changes nothing -/
theorem Coherent.rotate_of_invalid (h : w.Coherent) {keyId : Text} (hid : validateKeyId keyId ≠ .ok keyId) :
    w.rotate η keyId = w := by
  rw [rotate]
  split_ifs with hc
  · rfl
  · have hnone : w.secretKeys.get keyId = none := by
      rw [Option.eq_none_iff_forall_ne_some]
      intro σ hσ
      exact (h.known keyId σ hσ).elim hid hc
    obtain ⟨e, he⟩ := (validateKeyId_cases keyId).resolve_left hid
    rw [dropSecret, hnone, if_neg fun hn => hn.1 rfl, generate, he]

theorem not_needsRotation_newKey (h : w.Coherent) (keyId : Text) : (KeyState.newKey η keyId w).needsRotation η keyId = false := by
  obtain ⟨m, hm, hlife, hops, -⟩ := h.tracked
  rw [needsRotation, KeyState.newKey, hm]
  simp [KeyRotationManager.needsRotation, KeyRotationManager.registerKey, KeyMetadata.shouldExpire, hlife, hops]

/-- **Before an encryption** a key is kept, created or rotated. -/
theorem Coherent.prepare_cases (h : w.Coherent) {keyId : Text} (hid : validateKeyId keyId = .ok keyId) (ηRotate : Host) :
    (w.keypairs.contains keyId ∧ ¬ w.needsRotation η keyId ∧ w.prepare η ηRotate keyId = w) ∨
    (¬ w.keypairs.contains keyId ∧ w.prepare η ηRotate keyId = KeyState.newKey η keyId w) ∨
    w.keypairs.contains keyId ∧ w.needsRotation η keyId ∧
      ∃ secrets : Dict Text Bytes, (∀ id, keyId ≠ id → secrets.get id = w.secretKeys.get id) ∧
        w.prepare η ηRotate keyId = KeyState.newKey ηRotate keyId { w with secretKeys := secrets } := by
  rw [prepare]
  by_cases hc : w.keypairs.contains keyId
  · rw [if_pos hc]
    by_cases hn : w.needsRotation η keyId
    · exact Or.inr (Or.inr ⟨hc, hn, by rw [if_pos hn]; exact h.rotate_eq hid⟩)
    · exact Or.inl ⟨hc, hn, if_neg hn⟩
  · rw [if_neg hc, generate, hid, if_neg (by rw [not_needsRotation_newKey h]; exact Bool.false_ne_true)]
    exact Or.inr (Or.inl ⟨hc, rfl⟩)

theorem Coherent.prepare (h : w.Coherent) {keyId : Text} (hid : validateKeyId keyId = .ok keyId) (ηRotate : Host) :
    (w.prepare η ηRotate keyId).Coherent := by
  rcases h.prepare_cases (η := η) hid ηRotate with ⟨-, -, he⟩ | ⟨-, he⟩ | ⟨-, -, secrets, hs, he⟩
  all_goals rw [he]
  · exact h
  · exact h.newKey hid fun _ _ => rfl
  · exact h.newKey hid hs

/-- a change of the policies that forgets no id -/
theorem Coherent.policies (h : w.Coherent) {g : KeyRotationManager → KeyRotationManager}
    (hlife : ∀ m, (g m).defaultMaxLifetime = m.defaultMaxLifetime) (hops : ∀ m, (g m).defaultMaxOperations = m.defaultMaxOperations)
    (hkeep : ∀ m id data, m.metadata.get id = some data → ∃ data, (g m).metadata.get id = some data) :
    KeyState.Coherent { w with rotationMgr := w.rotationMgr.map g } := by
  obtain ⟨m, hm, hl, ho, htracked⟩ := h.tracked
  refine ⟨h.agree, h.known, h.planted, h.size, h.mode, g m, congrArg (Option.map g) hm, (hlife m).trans hl, (hops m).trans ho, ?_⟩
  intro id σ hv hσ
  obtain ⟨data, hdata⟩ := htracked id σ hv hσ
  exact hkeep m id data hdata

theorem get_metadata_set {id keyId : Text} (data data' : KeyMetadata) (d : Dict Text KeyMetadata) (h : d.get id = some data) :
    ∃ data, (d.set keyId data').get id = some data := by
  by_cases hne : keyId = id
  · subst hne
    exact ⟨data', Dict.get_set_self ..⟩
  · exact ⟨data, (Dict.get_set_of_ne hne ..).trans h⟩

theorem Coherent.record (h : w.Coherent) (operation : Operation) (keyId : Text) : (w.record η operation keyId).Coherent := by
  have hrecord : ∀ m : KeyRotationManager, m.recordUsage η keyId operation = m ∨
      ∃ data, m.recordUsage η keyId operation = { m with metadata := m.metadata.set keyId data } := by
    intro m
    rw [KeyRotationManager.recordUsage]
    cases m.metadata.get keyId with
    | none => exact Or.inl rfl
    | some data => cases operation <;> exact Or.inr ⟨_, rfl⟩
  refine h.policies (fun m => ?_) (fun m => ?_) fun m id data hdata => ?_
  all_goals rcases hrecord m with he | ⟨data', he⟩
  all_goals rw [he]
  · exact ⟨data, hdata⟩
  · exact get_metadata_set data data' _ hdata

theorem Coherent.register (h : w.Coherent) (keyId : Text) (maxLifetime : Option ℚ) (maxOperations : Option ℤ) :
    KeyState.Coherent { w with rotationMgr := w.rotationMgr.map (·.registerKey η keyId maxLifetime maxOperations) } :=
  h.policies (fun _ => rfl) (fun _ => rfl) fun m _ data hdata => get_metadata_set data _ m.metadata hdata

theorem Coherent.encrypted (h : w.Coherent) (keyId : Text) : (w.encrypted η keyId).Coherent := by
  rw [KeyState.encrypted]
  split_ifs
  · exact h
  · exact h.record _ _
  · exact h

theorem Coherent.remove (h : w.Coherent) (keyId : Text) : (w.remove keyId).Coherent := by
  rw [KeyState.remove]
  split
  next id _ =>
    refine h.of_changes (changes_erase id) (by simp) (by simp) (fun _ hi => hi) (fun _ hi => Or.inl hi) h.mode fun m hm => ?_
    exact ⟨m, hm, rfl, rfl, by simp, fun _ _ => rfl⟩
  · exact h

theorem Coherent.addCanary (h : w.Coherent) : (w.addCanary η).Coherent := by
  refine h.of_changes changes_addCanary (fun _ => length_secret) (fun _ _ => ?_) (fun id hi => ?_) (fun id hi => ?_) h.mode ?_
  · exact Or.inr ((mem_addCanary η w _).2 (Or.inr rfl))
  · exact (mem_addCanary η w id).2 (Or.inl hi)
  · rcases (mem_addCanary η w id).1 hi with hi | rfl
    · exact Or.inl hi
    · exact Or.inr (reserved_canaryId η)
  · intro m hm
    exact ⟨m, hm, rfl, rfl, fun _ _ hv => absurd (reserved_canaryId η) (not_reserved hv), fun _ _ => rfl⟩

theorem Coherent.switchFips (h : w.Coherent) (on : Bool) : (w.switchFips on).Coherent :=
  ⟨h.agree, h.known, h.planted, h.size, rfl, h.tracked⟩

/-- **Every call keeps the maps coherent.** -/
theorem Coherent.apply (h : w.Coherent) (c : Call) : (KeyState.apply η l c w).Coherent := by
  cases c with
  | generateKeypair keyId =>
    rw [KeyState.apply, generate]
    rcases validateKeyId_cases keyId with hid | ⟨e, he⟩
    · rw [hid]
      exact h.newKey hid fun _ _ => rfl
    · rw [he]
      exact h
  | store ηRotate keyId p =>
    rw [KeyState.apply, KeyState.store]
    split
    next id _ hid _ =>
      obtain rfl := validateKeyId_eq hid
      exact (h.prepare hid ηRotate).encrypted _
    · exact h
  | retrieve keyId ct =>
    rw [KeyState.apply, KeyState.retrieve]
    repeat' split
    all_goals first
      | exact h
      | exact h.record _ _
  | removeKeypair keyId => exact h.remove keyId
  | rotateKey keyId =>
    by_cases hid : validateKeyId keyId = .ok keyId
    · obtain ⟨secrets, hs, he⟩ := h.rotate_eq (η := η) hid
      rw [KeyState.apply, he]
      exact h.newKey hid hs
    · rw [KeyState.apply, h.rotate_of_invalid hid]
      exact h
  | registerKey keyId maxLifetime maxOperations => exact h.register keyId maxLifetime maxOperations
  | addCanary => exact h.addCanary
  | enableFipsMode => exact h.switchFips true
  | disableFipsMode => exact h.switchFips false
  | _ => exact h

/-! ## The secrets after a call -/

theorem secretKeys_encrypted (keyId : Text) (w : KeyState) : (w.encrypted η keyId).secretKeys = w.secretKeys := by
  rw [KeyState.encrypted]
  split_ifs <;> rfl

/-- what a change makes of the secret of an id -/
def changed (change : Option (Text × Option Bytes)) (w : KeyState) (id : Text) : Option Bytes :=
  match change with
  | none => w.secretKeys.get id
  | some (keyId, σ) => if keyId = id then σ else w.secretKeys.get id

/-- **The secrets after a call** are those before it up to its change. -/
theorem Coherent.get_apply (h : w.Coherent) (c : Call) (id : Text) :
    (KeyState.apply η l c w).secretKeys.get id = changed (w.change η c) w id := by
  cases c with
  | generateKeypair keyId =>
    rw [KeyState.apply, generate, change]
    rcases validateKeyId_cases keyId with hid | ⟨e, he⟩
    · rw [hid, if_pos rfl]
      exact (changes_newKey fun _ _ => rfl).get id
    · rw [he, if_neg (by simp)]
      rfl
  | store ηRotate keyId p =>
    rw [KeyState.apply, change]
    by_cases hok : validateKeyId keyId = .ok keyId ∧ p.length ≤ MAX_DATA_SIZE
    · rw [store_eq hok.1 hok.2, if_pos hok, secretKeys_encrypted]
      rcases h.prepare_cases (η := η) hok.1 ηRotate with ⟨hc, hn, he⟩ | ⟨hc, he⟩ | ⟨hc, hn, secrets, hs, he⟩
      · rw [he, if_neg (not_not.2 hc), if_neg hn]
        rfl
      · rw [he, if_pos hc]
        exact (changes_newKey fun _ _ => rfl).get id
      · rw [he, if_neg (not_not.2 hc), if_pos hn]
        exact (changes_newKey hs).get id
    · rw [if_neg hok, KeyState.store]
      split
      next id' _ hid hp =>
        obtain rfl := validateKeyId_eq hid
        exact absurd ⟨hid, validateDataSize_ok_iff.1 hp⟩ hok
      · rfl
  | retrieve keyId ct =>
    rw [KeyState.apply, KeyState.retrieve]
    repeat' split
    all_goals rfl
  | removeKeypair keyId =>
    rw [KeyState.apply, KeyState.remove, change]
    rcases validateKeyId_cases keyId with hid | ⟨e, he⟩
    · rw [hid, if_pos rfl]
      exact (changes_erase keyId).get id
    · rw [he, if_neg (by simp)]
      rfl
  | rotateKey keyId =>
    rw [KeyState.apply, change]
    by_cases hid : validateKeyId keyId = .ok keyId
    · obtain ⟨secrets, hs, he⟩ := h.rotate_eq (η := η) hid
      rw [he, if_pos hid]
      exact (changes_newKey hs).get id
    · rw [h.rotate_of_invalid hid, if_neg hid]
      rfl
  | addCanary => exact changes_addCanary.get id
  | _ => rfl

/-- the key that an encryption uses is the one that a decryption in the same mode uses -/
theorem Coherent.encryptionKey_eq (h : w.Coherent) (keyId : Text) :
    w.encryptionKey l keyId = (w.secretKeys.get keyId).map (modeKey l w.fipsMode) := by
  rw [encryptionKey, usesFips, h.mode, Bool.and_self, ← h.agree, Option.map_map]
  cases w.fipsMode with
  | true => rw [if_pos rfl]; rfl
  | false => rw [if_neg Bool.false_ne_true]; rfl

/-! ## The usage counts -/

/-- what the rotation manager tracks of an id -/
def metadata (w : KeyState) (keyId : Text) : Option KeyMetadata := w.rotationMgr.bind (·.metadata.get keyId)

/-- the record of a key that was just generated -/
def newMetadata (η : Host) (keyId : Text) : KeyMetadata where
  keyId := keyId
  createdAt := η.clock .register
  lastUsedAt := 0
  encryptCount := 0
  decryptCount := 0
  maxLifetimeSeconds := 0
  maxOperations := 0
  isExpired := false
  rotatedTo := []

/-- one use more -/
def used (η : Host) (operation : Operation) (data : KeyMetadata) : KeyMetadata :=
  match operation with
  | .encrypt => data.recordEncrypt η
  | .decrypt => data.recordDecrypt η

theorem Coherent.metadata_isSome (h : w.Coherent) {keyId : Text} (hid : validateKeyId keyId = .ok keyId) {σ : Bytes}
    (hσ : w.secretKeys.get keyId = some σ) : ∃ data, w.metadata keyId = some data := by
  obtain ⟨m, hm, -, -, htracked⟩ := h.tracked
  obtain ⟨data, hdata⟩ := htracked keyId σ hid hσ
  exact ⟨data, by rw [metadata, hm, Option.bind_some, hdata]⟩

/-- a new key starts without limits, whatever the limits of the old one were -/
theorem Coherent.metadata_newKey (h : w.Coherent) (keyId : Text) (secrets : Dict Text Bytes) :
    (KeyState.newKey η keyId { w with secretKeys := secrets }).metadata keyId = some (newMetadata η keyId) := by
  obtain ⟨m, hm, hlife, hops, -⟩ := h.tracked
  rw [metadata, KeyState.newKey, hm, Option.map_some, Option.bind_some]
  refine (Dict.get_set_self ..).trans ?_
  rw [hlife, hops]
  rfl

theorem metadata_record (operation : Operation) (keyId : Text) (w : KeyState) :
    (w.record η operation keyId).metadata keyId = (w.metadata keyId).map (used η operation) := by
  rw [metadata, metadata, record]
  cases w.rotationMgr with
  | none => rfl
  | some m =>
    dsimp only [Option.map_some, Option.bind_some]
    rw [KeyRotationManager.recordUsage]
    cases hm : m.metadata.get keyId with
    | none => exact hm
    | some data => cases operation <;> exact Dict.get_set_self ..

/-- the key that a store prepares -/
theorem Coherent.get_prepare (h : w.Coherent) {keyId : Text} (hid : validateKeyId keyId = .ok keyId) (ηRotate : Host) :
    ∃ σ, (w.prepare η ηRotate keyId).secretKeys.get keyId = some σ := by
  rcases h.prepare_cases (η := η) hid ηRotate with ⟨hc, -, he⟩ | ⟨-, he⟩ | ⟨-, -, secrets, hs, he⟩
  all_goals rw [he]
  · exact h.contains_iff.1 hc
  · exact ⟨_, Dict.get_set_self ..⟩
  · exact ⟨_, Dict.get_set_self ..⟩

end KeyState

end AbirGuard.Python.Vault
