/-
Which secret a Python vault holds for which id, over its runs.

- `opens_sealed_iff`: which secret opens a ciphertext of a store.
- `coherent_after`: the maps agree all along every run.
- `kept_iff`: over a run that does not draw it again, an id keeps its secret if and only if no step changes it.
- `distinct_after`: where the secrets that a run draws differ, no two ids share one.
-/
import AbirGuard.Python.Coherence

namespace AbirGuard.Python.Vault

open AbirGuard.Core Raise

variable {l : Libs} {η : Host}

/-! ## Ciphertexts -/

/-- a text sealed under the key of one of these secrets opens under it to the text, and under the keys of the others not at all -/
def Binds (l : Libs) (key : Bytes → Bytes) (secrets : List Bytes) (nonce p : Bytes) : Prop :=
  ∀ σ ∈ secrets, ∀ σ' ∈ secrets, l.gcmDecrypt (key σ') nonce (l.gcmEncrypt (key σ) nonce p) = if σ' = σ then some p else none

instance (key : Bytes → Bytes) (secrets : List Bytes) (nonce p : Bytes) : Decidable (Binds l key secrets nonce p) :=
  inferInstanceAs (Decidable (∀ σ ∈ secrets, ∀ σ' ∈ secrets,
    l.gcmDecrypt (key σ') nonce (l.gcmEncrypt (key σ) nonce p) = if σ' = σ then some p else none))

theorem b64encode_eq_nil {b : Bytes} (h : b64encode b = []) : b = [] := by
  have hb := b64decode_b64encode b
  rw [h, show b64decode [] = .ok [] from rfl, Except.ok.injEq] at hb
  exact hb.symm

/-- what it takes to open a ciphertext of a vault -/
theorem opens_sealed_iff {fips : Bool} {key σ p q : Bytes} (hσ : σ.length = 32) :
    (sealed l η key p).Opens l fips σ q ↔
      l.gcmDecrypt (modeKey l fips σ) η.nonce.toList (l.gcmEncrypt key η.nonce.toList p) = some q := by
  have hnonce : η.nonce.toList.length = 12 := η.nonce.length_toList
  have htag : HybridEncryptor.tagBytes (sealed l η key p) = .ok ((l.gcmEncrypt key η.nonce.toList p).drop
      ((l.gcmEncrypt key η.nonce.toList p).length - 16)) := by
    rw [HybridEncryptor.tagBytes]
    split_ifs with hnil
    · rw [b64encode_eq_nil hnil]
    · exact b64decode_b64encode _
  have hkey : ∀ c, (if fips then σ.length = 32 ∧ η.nonce.toList.length = 12 ∧ l.gcmDecrypt σ η.nonce.toList c = some q
      else (8 ≤ η.nonce.toList.length ∧ η.nonce.toList.length ≤ 128) ∧
        l.gcmDecrypt (HybridEncryptor.aesKey l σ) η.nonce.toList c = some q) ↔
      l.gcmDecrypt (modeKey l fips σ) η.nonce.toList c = some q := by
    intro c
    rw [hnonce, modeKey]
    cases fips with
    | true => simp [hσ]
    | false => simp
  constructor
  · rintro ⟨nonce, c, tag, hn, hc, ht, hopen⟩
    rw [sealed, b64decode_b64encode, Except.ok.injEq] at hn hc
    rw [htag, Except.ok.injEq] at ht
    subst hn hc ht
    rwa [List.take_append_drop, hkey] at hopen
  · intro hopen
    refine ⟨_, _, _, b64decode_b64encode _, b64decode_b64encode _, htag, ?_⟩
    rwa [List.take_append_drop, hkey]

/-- **A store that returns** has sealed its text under the secret that its id has afterwards. -/
theorem store_sealed {s : Session} (h : (keyState s).Coherent) {ηRotate : Host} {keyId : Text} {p : Bytes} {ct : Ciphertext}
    (hct : (run (store l η ηRotate keyId p) s).1 = .ok ct) :
    validateKeyId keyId = .ok keyId ∧ ∃ σ, (step l s (η, .store ηRotate keyId p)).vault.secretKeys.get keyId = some σ ∧
      ct = sealed l η (modeKey l s.vault.fipsMode σ) p := by
  obtain ⟨⟨hid, hp⟩, key, hkey, -, rfl⟩ := store_ok_iff.1 hct
  have hstep : keyState (step l s (η, .store ηRotate keyId p)) = ((keyState s).prepare η ηRotate keyId).encrypted η keyId :=
    (keyState_step s _).trans (KeyState.store_eq hid hp)
  have hmode : ((keyState s).prepare η ηRotate keyId).fipsMode = s.vault.fipsMode :=
    congrArg Prod.fst (KeyState.modes_prepare η (keyState s) keyId ηRotate)
  rw [(h.prepare hid ηRotate).encryptionKey_eq, hmode, Option.map_eq_some_iff] at hkey
  obtain ⟨σ, hσ, rfl⟩ := hkey
  refine ⟨hid, σ, ?_, rfl⟩
  rw [← hσ, ← KeyState.secretKeys_encrypted (η := η) keyId, ← hstep]
  exact rfl

theorem length_modeKey {fips : Bool} {σ : Bytes} (hσ : σ.length = 32) : (modeKey l fips σ).length = 32 := by
  rw [modeKey]
  split_ifs
  · exact hσ
  · exact (l.hkdf DOMAIN (utf8 "aes-key") σ).length_toList

/-- every store of an admissible text returns -/
theorem store_returns {s : Session} (h : (keyState s).Coherent) (ηRotate : Host) {keyId : Text} {p : Bytes}
    (hid : validateKeyId keyId = .ok keyId) (hp : p.length ≤ MAX_DATA_SIZE) :
    ∃ ct, (run (store l η ηRotate keyId p) s).1 = .ok ct := by
  obtain ⟨σ, hσ⟩ := h.get_prepare (η := η) hid ηRotate
  have hprepared := h.prepare (η := η) hid ηRotate
  have hkey := hprepared.encryptionKey_eq (l := l) keyId
  rw [hσ, Option.map_some] at hkey
  exact ⟨_, store_ok_iff.2 ⟨⟨hid, hp⟩, _, hkey, length_modeKey (hprepared.size keyId σ hσ), rfl⟩⟩

theorem usesFips_eq {s : Session} (h : (keyState s).Coherent) : s.vault.usesFips = s.vault.fipsMode := by
  rw [usesFips, show s.vault.fipsEncryptor.isSome = s.vault.fipsMode from h.mode, Bool.and_self]

/-- the record of a prepared key is new exactly if the store created or rotated it -/
theorem metadata_prepare {s : Session} (h : (keyState s).Coherent) (ηRotate : Host) {keyId : Text} {p : Bytes}
    (hid : validateKeyId keyId = .ok keyId) (hp : p.length ≤ MAX_DATA_SIZE) :
    ∃ data, ((keyState s).prepare η ηRotate keyId).metadata keyId = some data ∧
      (Ends keyId s (η, .store ηRotate keyId p) ∧ (∃ η', data = KeyState.newMetadata η' keyId) ∨
        ¬ Ends keyId s (η, .store ηRotate keyId p) ∧ (keyState s).metadata keyId = some data) := by
  rw [Ends, KeyState.change, if_pos ⟨hid, hp⟩]
  rcases h.prepare_cases (η := η) hid ηRotate with ⟨hc, hn, he⟩ | ⟨hc, he⟩ | ⟨hc, hn, secrets, -, he⟩
  all_goals rw [he]
  · obtain ⟨σ, hσ⟩ := h.contains_iff.1 hc
    obtain ⟨data, hdata⟩ := h.metadata_isSome hid hσ
    rw [if_neg (not_not.2 hc), if_neg hn]
    exact ⟨data, hdata, Or.inr ⟨by simp, hdata⟩⟩
  · rw [if_pos hc]
    exact ⟨_, h.metadata_newKey keyId _, Or.inl ⟨⟨_, rfl⟩, _, rfl⟩⟩
  · rw [if_neg (not_not.2 hc), if_pos hn]
    exact ⟨_, h.metadata_newKey keyId secrets, Or.inl ⟨⟨_, rfl⟩, _, rfl⟩⟩

theorem step_store (ηRotate : Host) (keyId : Text) (p : Bytes) (s : Session) :
    step l s (η, .store ηRotate keyId p) = (run (store l η ηRotate keyId p) s).2 := run_ignore _ s

theorem step_retrieve (keyId : Text) (ct : Ciphertext) (s : Session) :
    step l s (η, .retrieve keyId ct) = (run (retrieve l η keyId ct) s).2 := run_ignore _ s

/-- the record of an id after a store: counted if the vault is not in FIPS mode -/
theorem metadata_store {s : Session} (h : (keyState s).Coherent) (ηRotate : Host) {keyId : Text} {p : Bytes}
    (hid : validateKeyId keyId = .ok keyId) (hp : p.length ≤ MAX_DATA_SIZE) :
    (keyState (step l s (η, .store ηRotate keyId p))).metadata keyId =
      (((keyState s).prepare η ηRotate keyId).metadata keyId).map fun data =>
        if s.vault.fipsMode then data else data.recordEncrypt η := by
  have hprepared := h.prepare (η := η) hid ηRotate
  have hmodes := KeyState.modes_prepare η (keyState s) keyId ηRotate
  have hfips : ((keyState s).prepare η ηRotate keyId).usesFips = s.vault.fipsMode := by
    rw [KeyState.usesFips, hprepared.mode, Bool.and_self]
    exact congrArg Prod.fst hmodes
  rw [keyState_step, KeyState.apply, KeyState.store_eq hid hp, KeyState.encrypted, hfips,
    if_pos (hprepared.contains_iff.2 (h.get_prepare hid ηRotate))]
  cases s.vault.fipsMode with
  | true =>
    simp
  | false =>
    rw [if_neg Bool.false_ne_true, KeyState.metadata_record]
    rfl

/-- after a retrieval at most the count of decryptions has changed -/
theorem metadata_retrieve (s : Session) (keyId : Text) (ct : Ciphertext) {data : KeyMetadata}
    (hdata : (keyState s).metadata keyId = some data) :
    ∃ data', (keyState (step l s (η, .retrieve keyId ct))).metadata keyId = some data' ∧
      (data' = data ∨ data' = data.recordDecrypt η) := by
  rw [keyState_step, KeyState.apply, KeyState.retrieve]
  rcases validateKeyId_cases keyId with hid | ⟨e, he⟩
  · rw [hid]
    dsimp only
    cases (keyState s).secretKeys.get keyId with
    | none => exact ⟨data, hdata, Or.inl rfl⟩
    | some key =>
      dsimp only
      split_ifs
      · exact ⟨data, hdata, Or.inl rfl⟩
      · cases HybridEncryptor.decrypt l ct key with
        | error e => exact ⟨data, hdata, Or.inl rfl⟩
        | ok p => exact ⟨_, by rw [KeyState.metadata_record, hdata]; rfl, Or.inr rfl⟩
  · rw [he]
    exact ⟨data, hdata, Or.inl rfl⟩

/-- a retrieval by the mode and the secrets of the vault -/
theorem retrieve_eq_ok_iff {s : Session} (h : (keyState s).Coherent) {keyId : Text} {ct : Ciphertext} {p : Bytes} :
    (run (retrieve l η keyId ct) s).1 = .ok p ↔ validateKeyId keyId = .ok keyId ∧
      ∃ σ, s.vault.secretKeys.get keyId = some σ ∧ ct.Opens l s.vault.fipsMode σ p := by
  rw [retrieve_ok_iff, usesFips_eq h]

/-! ## Runs -/

theorem coherent_start (fipsMode mlkemFips : Bool) : (keyState (start η fipsMode mlkemFips)).Coherent where
  agree _ := rfl
  known id σ h := by cases h
  planted id h := by cases h
  size id σ h := by cases h
  mode := by cases fipsMode <;> rfl
  tracked := ⟨.new, rfl, rfl, rfl, fun id σ _ h => by cases h⟩

theorem coherent_step {s : Session} (h : (keyState s).Coherent) (c : Host × Call) : (keyState (step l s c)).Coherent := by
  rw [keyState_step]
  exact h.apply c.2

/-- **In every run the maps stay coherent.** -/
theorem coherent_after {s : Session} (h : (keyState s).Coherent) (run : List (Host × Call)) :
    (keyState (Run.after (step l) s run)).Coherent := by
  have hstep : ∀ c ∈ run, ∀ s, (keyState s).Coherent → (keyState (step l s c)).Coherent := fun c _ s h => coherent_step h c
  exact Run.after_inv hstep h

/-- the secret of an id after a call -/
theorem get_step {s : Session} (h : (keyState s).Coherent) (c : Host × Call) (id : Text) :
    (step l s c).vault.secretKeys.get id = (keyState s).changed ((keyState s).change c.1 c.2) id := by
  rw [← h.get_apply (l := l), ← keyState_step]
  rfl

/-- the secret that a call draws -/
def draw (s : Session) (c : Host × Call) : Option Bytes := ((keyState s).change c.1 c.2).bind Prod.snd

/-- the secrets that a run draws -/
def drawn (l : Libs) (s : Session) : List (Host × Call) → List Bytes
  | [] => []
  | c :: run => (draw s c).toList ++ drawn l (step l s c) run

theorem drawn_append (s : Session) (run run' : List (Host × Call)) :
    drawn l s (run ++ run') = drawn l s run ++ drawn l (Run.after (step l) s run) run' := by
  induction run generalizing s with
  | nil => rfl
  | cons c run ih => rw [List.cons_append, drawn, drawn, ih, Run.after_cons, List.append_assoc]

/-- a secret is held before a call already, or drawn by it -/
theorem held_step {s : Session} (h : (keyState s).Coherent) {c : Host × Call} {id : Text} {σ : Bytes}
    (hσ : (step l s c).vault.secretKeys.get id = some σ) :
    s.vault.secretKeys.get id = some σ ∧ ¬ Ends id s c ∨ draw s c = some σ ∧ Ends id s c := by
  rw [get_step h] at hσ
  rw [draw, Ends]
  rcases hchange : (keyState s).change c.1 c.2 with _ | ⟨keyId, σ'⟩
  all_goals rw [hchange] at hσ
  · exact Or.inl ⟨hσ, by simp⟩
  · dsimp only [KeyState.changed] at hσ
    split_ifs at hσ with hid
    · subst hid
      exact Or.inr ⟨hσ, σ', rfl⟩
    · exact Or.inl ⟨hσ, by simp [hid]⟩

theorem kept_step {s : Session} (h : (keyState s).Coherent) {c : Host × Call} {id : Text} (hc : ¬ Ends id s c) :
    (step l s c).vault.secretKeys.get id = s.vault.secretKeys.get id := by
  rw [get_step h]
  rcases hchange : (keyState s).change c.1 c.2 with _ | ⟨keyId, σ⟩
  · rfl
  · exact if_neg fun he => hc ⟨σ, by rw [hchange, he]⟩

theorem kept_after {s : Session} (h : (keyState s).Coherent) {run : List (Host × Call)} {id : Text}
    (hrun : Run.EachStep (step l) (fun s c => ¬ Ends id s c) s run) :
    (Run.after (step l) s run).vault.secretKeys.get id = s.vault.secretKeys.get id := by
  induction run generalizing s with
  | nil => rfl
  | cons c run ih =>
    obtain ⟨hc, hrun⟩ := Run.eachStep_cons.1 hrun
    exact (ih (coherent_step h c) hrun).trans (kept_step h hc)

/-- a secret that a run does not draw was held before it -/
theorem held_after {s : Session} (h : (keyState s).Coherent) {run : List (Host × Call)} {id : Text} {σ : Bytes}
    (hnew : σ ∉ drawn l s run) (hσ : (Run.after (step l) s run).vault.secretKeys.get id = some σ) :
    s.vault.secretKeys.get id = some σ := by
  induction run generalizing s with
  | nil => exact hσ
  | cons c run ih =>
    rw [drawn, List.mem_append, not_or] at hnew
    have hstep := ih (coherent_step h c) hnew.2 hσ
    rcases held_step h hstep with ⟨hold, -⟩ | ⟨hdraw, -⟩
    · exact hold
    · exact absurd (by rw [hdraw]; exact List.mem_singleton_self σ) hnew.1

/-- **An id keeps its secret** if and only if no step of the run ends it. -/
theorem kept_iff {s : Session} (h : (keyState s).Coherent) {run : List (Host × Call)} {id : Text} {σ : Bytes}
    (hσ : s.vault.secretKeys.get id = some σ) (hnew : σ ∉ drawn l s run) :
    (Run.after (step l) s run).vault.secretKeys.get id = some σ ↔ Run.EachStep (step l) (fun s c => ¬ Ends id s c) s run := by
  refine ⟨fun hlast => ?_, fun hrun => (kept_after h hrun).trans hσ⟩
  induction run generalizing s with
  | nil => exact Run.eachStep_nil s
  | cons c run ih =>
    rw [drawn, List.mem_append, not_or] at hnew
    have hnext := held_after (coherent_step h c) hnew.2 hlast
    rcases held_step h hnext with ⟨-, hc⟩ | ⟨hdraw, -⟩
    · exact Run.eachStep_cons.2 ⟨hc, ih (coherent_step h c) hnext hnew.2 hlast⟩
    · exact absurd (by rw [hdraw]; exact List.mem_singleton_self σ) hnew.1

/-- the secrets of the vault are among these, and no two ids share one -/
structure Distinct (used : List Bytes) (s : Session) : Prop where
  held : ∀ id σ, s.vault.secretKeys.get id = some σ → σ ∈ used
  unique : ∀ id id' σ, s.vault.secretKeys.get id = some σ → s.vault.secretKeys.get id' = some σ → id = id'

theorem distinct_start (fipsMode mlkemFips : Bool) : Distinct [] (start η fipsMode mlkemFips) :=
  ⟨fun _ _ h => (by cases h), fun _ _ _ h => (by cases h)⟩

theorem distinct_step {s : Session} (h : (keyState s).Coherent) {used : List Bytes} (hd : Distinct used s) {c : Host × Call}
    (hnew : ∀ σ, draw s c = some σ → σ ∉ used) : Distinct (used ++ (draw s c).toList) (step l s c) := by
  constructor
  · intro id σ hσ
    rcases held_step h hσ with ⟨hold, -⟩ | ⟨hdraw, -⟩
    · exact List.mem_append_left _ (hd.held id σ hold)
    · exact List.mem_append_right _ (by rw [hdraw]; exact List.mem_singleton_self σ)
  · intro id id' σ hσ hσ'
    rcases held_step h hσ with ⟨hold, -⟩ | ⟨hdraw, σ₁, hends⟩
    · rcases held_step h hσ' with ⟨hold', -⟩ | ⟨hdraw', -⟩
      · exact hd.unique id id' σ hold hold'
      · exact absurd (hd.held id σ hold) (hnew σ hdraw')
    · rcases held_step h hσ' with ⟨hold', -⟩ | ⟨-, σ₂, hends'⟩
      · exact absurd (hd.held id' σ hold') (hnew σ hdraw)
      · rw [hends, Option.some.injEq, Prod.mk.injEq] at hends'
        exact hends'.1

/-- **Distinct secrets stay apart.** -/
theorem distinct_after {s : Session} (h : (keyState s).Coherent) {used : List Bytes} (hd : Distinct used s)
    {run : List (Host × Call)} (hnew : (used ++ drawn l s run).Nodup) :
    Distinct (used ++ drawn l s run) (Run.after (step l) s run) := by
  induction run generalizing s used with
  | nil =>
    rw [drawn, List.append_nil]
    exact hd
  | cons c run ih =>
    rw [drawn, ← List.append_assoc] at hnew ⊢
    refine ih (coherent_step h c) (distinct_step h hd fun σ hdraw hused => ?_) hnew
    rw [hdraw] at hnew
    exact (List.nodup_append.1 (List.nodup_append.1 hnew).1).2.2 σ hused σ (List.mem_singleton_self σ) rfl

/-- in the middle of a run that draws distinct secrets, each one held is its own and is not drawn again -/
theorem held_between {fipsMode mlkemFips : Bool} {run later : List (Host × Call)}
    (hnew : (drawn l (start η fipsMode mlkemFips) (run ++ later)).Nodup) {id : Text} {σ : Bytes}
    (hσ : (Run.after (step l) (start η fipsMode mlkemFips) run).vault.secretKeys.get id = some σ) :
    σ ∈ drawn l (start η fipsMode mlkemFips) (run ++ later) ∧
      σ ∉ drawn l (Run.after (step l) (start η fipsMode mlkemFips) run) later ∧
      ∀ id', (Run.after (step l) (start η fipsMode mlkemFips) run).vault.secretKeys.get id' = some σ → id' = id := by
  rw [drawn_append, List.nodup_append] at hnew
  have hd := distinct_after (coherent_start fipsMode mlkemFips) (distinct_start fipsMode mlkemFips) hnew.1
  have hmem : σ ∈ drawn l (start η fipsMode mlkemFips) run := hd.held id σ hσ
  rw [drawn_append]
  exact ⟨List.mem_append_left _ hmem, fun hlate => hnew.2.2 σ hmem σ hlate rfl, fun id' h' => hd.unique id' id σ h' hσ⟩

/-! ## The mode -/

/-- only a switch changes the mode -/
theorem fipsMode_step (s : Session) {c : Host × Call} (hc : ¬ c.2.Switches) :
    (step l s c).vault.fipsMode = s.vault.fipsMode := by
  have hmodes := KeyState.modes_apply c.1 (keyState s) l hc
  rw [← keyState_step] at hmodes
  exact congrArg Prod.fst hmodes

/-- a run without switches stays in its mode -/
theorem fipsMode_after (s : Session) {run : List (Host × Call)} (hrun : ∀ c ∈ run, ¬ c.2.Switches) :
    (Run.after (step l) s run).vault.fipsMode = s.vault.fipsMode := by
  induction run generalizing s with
  | nil => rfl
  | cons c run ih =>
    rw [Run.after_cons, ih _ fun d hd => hrun d (List.mem_cons_of_mem _ hd)]
    exact fipsMode_step s (hrun c List.mem_cons_self)

end AbirGuard.Python.Vault
