/-
Does the usage limit of a key of the Python vault hold across rotations?

A store finds the key due once its operations have reached the limit, and rotates it before the encryption. The rotation
registers the new secret with the defaults of the manager, which are no limits, so the limit ends with the first secret; and
encryptions in FIPS mode are not counted.

- `usedSecrets`: the secrets that the stores of a run encrypt with.
- `usage_limit_iff`: over every run of stores and retrievals for a registered key, no secret is used more than M times if and
  only if at most M stores come before the first one that renews the key, and at most M from there on.
- `first_secret_limited`: without FIPS mode the limit holds up to there.
-/
import AbirGuard.Python.LiveKeys

namespace AbirGuard.Python.Vault

open AbirGuard.Core Raise

/-! ## Model -/

/-- a store or retrieval for this id, or a switch of the mode -/
def Call.IsUse (keyId : Text) : Call → Prop
  | .store _ keyId' _ => keyId' = keyId
  | .retrieve keyId' _ => keyId' = keyId
  | .enableFipsMode | .disableFipsMode => True
  | _ => False

/-- the secret that a call encrypts with: if it is a store for this id that returns, the one that the id then has -/
def encryptionSecret (l : Libs) (keyId : Text) (s : Session) (c : Host × Call) : Option Bytes :=
  match c.2 with
  | .store ηRotate keyId' p =>
    match (Raise.run (store l c.1 ηRotate keyId' p) s).1 with
    | .ok _ => if keyId' = keyId then (step l s c).vault.secretKeys.get keyId else none
    | .error _ => none
  | _ => none

/-- the secrets of the encryptions of a run, one after another -/
def usedSecrets (l : Libs) (keyId : Text) (s : Session) : List (Host × Call) → List Bytes
  | [] => []
  | c :: run => (encryptionSecret l keyId s c).toList ++ usedSecrets l keyId (step l s c) run

/-- a store for this id with admissible arguments -/
def isStore (keyId : Text) (c : Host × Call) : Bool :=
  match c.2 with
  | .store _ keyId' p => keyId' = keyId ∧ validateKeyId keyId = .ok keyId ∧ p.length ≤ MAX_DATA_SIZE
  | _ => false

def storesOf (keyId : Text) (run : List (Host × Call)) : ℕ := run.countP (isStore keyId)

variable {l : Libs} {η : Host} {keyId : Text}

/-! ## Encryptions of a run -/

theorem isStore_iff {c : Host × Call} : isStore keyId c = true ↔ validateKeyId keyId = .ok keyId ∧
    ∃ ηRotate p, c.2 = .store ηRotate keyId p ∧ p.length ≤ MAX_DATA_SIZE := by
  obtain ⟨η, c⟩ := c
  cases c with
  | store ηRotate keyId' p =>
    rw [isStore, decide_eq_true_eq]
    constructor
    · rintro ⟨rfl, hid, hp⟩
      exact ⟨hid, ηRotate, p, rfl, hp⟩
    · rintro ⟨hid, ηRotate', p', he, hp⟩
      cases he
      exact ⟨rfl, hid, hp⟩
  | _ => simp [isStore]

/-- what every admissible store encrypts with, and nothing else does -/
theorem encryptionSecret_eq {s : Session} (h : (keyState s).Coherent) (c : Host × Call) :
    encryptionSecret l keyId s c = if isStore keyId c then (step l s c).vault.secretKeys.get keyId else none := by
  obtain ⟨η, c⟩ := c
  cases c with
  | store ηRotate keyId' p =>
    rw [encryptionSecret]
    dsimp only
    by_cases hok : validateKeyId keyId' = .ok keyId' ∧ p.length ≤ MAX_DATA_SIZE
    · obtain ⟨ct, hct⟩ := store_returns (l := l) (η := η) h ηRotate hok.1 hok.2
      rw [hct]
      by_cases hkey : keyId' = keyId
      · subst hkey
        rw [if_pos (isStore_iff.2 ⟨hok.1, ηRotate, p, rfl, hok.2⟩)]
        exact if_pos rfl
      · have hs : isStore keyId (η, .store ηRotate keyId' p) = false := decide_eq_false fun hs => hkey hs.1
        rw [hs, if_neg Bool.false_ne_true]
        exact if_neg hkey
    · obtain ⟨e, he⟩ := run_store_refused (l := l) (η := η) ηRotate hok s
      have hs : isStore keyId (η, .store ηRotate keyId' p) = false :=
        decide_eq_false fun ⟨hkey, hid, hp⟩ => hok ⟨hkey ▸ hid, hp⟩
      rw [he, hs, if_neg Bool.false_ne_true]
  | _ => rfl

/-- a store that renews nothing finds a key -/
theorem get_of_isStore {s : Session} {c : Host × Call} (hs : isStore keyId c) (hc : ¬ Ends keyId s c) :
    (keyState s).keypairs.contains keyId ∧ (keyState s).needsRotation c.1 keyId = false := by
  obtain ⟨hid, ηRotate, p, he, hp⟩ := isStore_iff.1 hs
  rw [Ends, he, KeyState.change, if_pos ⟨hid, hp⟩] at hc
  have hcontains : (keyState s).keypairs.contains keyId := by
    by_contra hno
    exact hc ⟨_, if_pos hno⟩
  rw [if_neg (not_not.2 hcontains)] at hc
  refine ⟨hcontains, ?_⟩
  by_contra hneeds
  exact hc ⟨_, if_pos (by simpa using hneeds)⟩

theorem storesOf_cons (c : Host × Call) (run : List (Host × Call)) :
    storesOf keyId (c :: run) = storesOf keyId run + if isStore keyId c then 1 else 0 := List.countP_cons ..

theorem storesOf_append (run run' : List (Host × Call)) :
    storesOf keyId (run ++ run') = storesOf keyId run + storesOf keyId run' := List.countP_append ..

/-- **As long as nothing renews the key, its stores encrypt with one secret.** -/
theorem used_kept {s : Session} (h : (keyState s).Coherent) {run : List (Host × Call)}
    (hrun : Run.EachStep (step l) (fun s c => ¬ Ends keyId s c) s run) :
    usedSecrets l keyId s run = List.replicate (storesOf keyId run) ((s.vault.secretKeys.get keyId).getD []) ∧
      (storesOf keyId run = 0 ∨ ∃ σ, s.vault.secretKeys.get keyId = some σ) := by
  induction run generalizing s with
  | nil => exact ⟨rfl, Or.inl rfl⟩
  | cons c run ih =>
    obtain ⟨hc, hrun⟩ := Run.eachStep_cons.1 hrun
    obtain ⟨hused, hkey⟩ := ih (coherent_step h c) hrun
    rw [kept_step h hc] at hused hkey
    rw [usedSecrets, encryptionSecret_eq h, hused, storesOf_cons]
    split_ifs with hs
    · obtain ⟨σ, hσ⟩ := h.contains_iff.1 (get_of_isStore hs hc).1
      have hget : s.vault.secretKeys.get keyId = some σ := hσ
      rw [kept_step h hc, hget, Option.toList_some, Option.getD_some, List.replicate_succ]
      exact ⟨rfl, Or.inr ⟨σ, rfl⟩⟩
    · exact ⟨rfl, hkey⟩

/-! ## After the first renewal -/

/-- a key without limits -/
def Unlimited (keyId : Text) (s : Session) : Prop := (∃ σ, s.vault.secretKeys.get keyId = some σ) ∧
  ∃ data, (keyState s).metadata keyId = some data ∧ data.maxLifetimeSeconds = 0 ∧ data.maxOperations = 0

theorem Unlimited.not_ends {s : Session} (h : (keyState s).Coherent) (hu : Unlimited keyId s) {c : Host × Call}
    (hc : c.2.IsUse keyId) : ¬ Ends keyId s c := by
  obtain ⟨hkey, data, hdata, hlife, hops⟩ := hu
  have hneeds : ∀ η, (keyState s).needsRotation η keyId = false := by
    intro η
    rw [KeyState.metadata, Option.bind_eq_some_iff] at hdata
    obtain ⟨m, hm, hget⟩ := hdata
    simp [KeyState.needsRotation, hm, KeyRotationManager.needsRotation, hget, KeyMetadata.shouldExpire, hlife, hops]
  rintro ⟨σ, hchange⟩
  obtain ⟨η, c⟩ := c
  cases c with
  | store ηRotate keyId' p =>
    obtain rfl : keyId' = keyId := hc
    dsimp only [KeyState.change] at hchange
    rw [if_neg (not_not.2 (h.contains_iff.2 hkey)), hneeds, if_neg Bool.false_ne_true, ite_self] at hchange
    cases hchange
  | generateKeypair keyId' => exact hc
  | removeKeypair keyId' => exact hc
  | rotateKey keyId' => exact hc
  | addCanary => exact hc
  | _ => cases hchange

/-- a renewal leaves no limits -/
theorem unlimited_of_ends {s : Session} (h : (keyState s).Coherent) {c : Host × Call} (hc : c.2.IsUse keyId)
    (hends : Ends keyId s c) : Unlimited keyId (step l s c) := by
  obtain ⟨η, c⟩ := c
  cases c with
  | store ηRotate keyId' p =>
    obtain rfl : keyId' = keyId := hc
    have hok : validateKeyId keyId' = .ok keyId' ∧ p.length ≤ MAX_DATA_SIZE := by
      by_contra hno
      obtain ⟨σ, hσ⟩ := hends
      dsimp only [KeyState.change] at hσ
      rw [if_neg hno] at hσ
      cases hσ
    obtain ⟨ct, hct⟩ := store_returns (l := l) (η := η) h ηRotate hok.1 hok.2
    obtain ⟨-, σ, hσ, -⟩ := store_sealed h hct
    obtain ⟨data, hdata, hbase⟩ := metadata_prepare (η := η) h ηRotate hok.1 hok.2
    obtain ⟨-, η', rfl⟩ := hbase.resolve_right fun hno => hno.1 hends
    refine ⟨⟨σ, hσ⟩, _, by rw [metadata_store h ηRotate hok.1 hok.2, hdata, Option.map_some], ?_⟩
    cases s.vault.fipsMode <;> exact ⟨rfl, rfl⟩
  | generateKeypair keyId' => exact hc.elim
  | removeKeypair keyId' => exact hc.elim
  | rotateKey keyId' => exact hc.elim
  | addCanary => exact hc.elim
  | _ =>
    obtain ⟨σ, hσ⟩ := hends
    cases hσ

/-- a use that renews nothing keeps the limits, and counts as an encryption if it is a store outside FIPS mode -/
theorem metadata_use {s : Session} (h : (keyState s).Coherent) {c : Host × Call} (hc : c.2.IsUse keyId)
    (hkept : ¬ Ends keyId s c) {data : KeyMetadata} (hdata : (keyState s).metadata keyId = some data) :
    ∃ data', (keyState (step l s c)).metadata keyId = some data' ∧
      data'.maxLifetimeSeconds = data.maxLifetimeSeconds ∧ data'.maxOperations = data.maxOperations ∧
      data'.encryptCount = data.encryptCount + if isStore keyId c ∧ s.vault.fipsMode = false then 1 else 0 := by
  obtain ⟨η, c⟩ := c
  cases c with
  | store ηRotate keyId' p =>
    obtain rfl : keyId' = keyId := hc
    by_cases hok : validateKeyId keyId' = .ok keyId' ∧ p.length ≤ MAX_DATA_SIZE
    · have hs : isStore keyId' (η, .store ηRotate keyId' p) := isStore_iff.2 ⟨hok.1, ηRotate, p, rfl, hok.2⟩
      obtain ⟨data', hdata', hbase⟩ := metadata_prepare (η := η) h ηRotate hok.1 hok.2
      obtain ⟨-, hold⟩ := hbase.resolve_left fun hends => hkept hends.1
      obtain rfl := Option.some.inj (hdata.symm.trans hold)
      refine ⟨_, by rw [metadata_store h ηRotate hok.1 hok.2, hdata', Option.map_some], ?_⟩
      rw [hs]
      cases s.vault.fipsMode <;> exact ⟨rfl, rfl, rfl⟩
    · have hs : isStore keyId' (η, .store ηRotate keyId' p) = false := decide_eq_false fun hs => hok hs.2
      obtain ⟨e, he⟩ := run_store_refused (l := l) (η := η) ηRotate hok s
      rw [step_store, he, hs]
      exact ⟨data, hdata, rfl, rfl, by simp⟩
  | retrieve keyId' ct =>
    obtain rfl : keyId' = keyId := hc
    obtain ⟨data', hdata', hsame⟩ := metadata_retrieve (l := l) (η := η) s keyId' ct hdata
    refine ⟨data', hdata', ?_⟩
    rcases hsame with rfl | rfl <;> exact ⟨rfl, rfl, by simp [isStore, KeyMetadata.recordDecrypt]⟩
  | enableFipsMode => exact ⟨data, hdata, rfl, rfl, by simp [isStore]⟩
  | disableFipsMode => exact ⟨data, hdata, rfl, rfl, by simp [isStore]⟩
  | _ => exact hc.elim

theorem unlimited_step {s : Session} (h : (keyState s).Coherent) (hu : Unlimited keyId s) {c : Host × Call}
    (hc : c.2.IsUse keyId) : Unlimited keyId (step l s c) := by
  have hkept := hu.not_ends h hc
  obtain ⟨⟨σ, hσ⟩, data, hdata, hlife, hops⟩ := hu
  obtain ⟨data', hdata', hlife', hops', -⟩ := metadata_use (l := l) h hc hkept hdata
  exact ⟨⟨σ, (kept_step h hkept).trans hσ⟩, data', hdata', hlife'.trans hlife, hops'.trans hops⟩

/-- nothing renews a key without limits -/
theorem kept_of_unlimited {s : Session} (h : (keyState s).Coherent) (hu : Unlimited keyId s) {run : List (Host × Call)}
    (huse : ∀ c ∈ run, c.2.IsUse keyId) : Run.EachStep (step l) (fun s c => ¬ Ends keyId s c) s run := by
  induction run generalizing s with
  | nil => exact Run.eachStep_nil s
  | cons c run ih =>
    have hc := huse c List.mem_cons_self
    refine Run.eachStep_cons.2 ⟨hu.not_ends h hc, ?_⟩
    exact ih (coherent_step h c) (unlimited_step h hu hc) fun d hd => huse d (List.mem_cons_of_mem _ hd)

/-! ## The limit -/

theorem usedSecrets_append (s : Session) (run run' : List (Host × Call)) :
    usedSecrets l keyId s (run ++ run') = usedSecrets l keyId s run ++ usedSecrets l keyId (Run.after (step l) s run) run' := by
  induction run generalizing s with
  | nil => rfl
  | cons c run ih => rw [List.cons_append, usedSecrets, usedSecrets, ih, Run.after_cons, List.append_assoc]

/-- a renewal, and what follows it, encrypts with the new secret -/
theorem used_renewed {s : Session} (h : (keyState s).Coherent) {c : Host × Call} {run : List (Host × Call)}
    (huse : ∀ d ∈ c :: run, d.2.IsUse keyId) (hends : Ends keyId s c) :
    ∃ σ, usedSecrets l keyId s (c :: run) = List.replicate (storesOf keyId (c :: run)) σ ∧
      (Run.after (step l) s (c :: run)).vault.secretKeys.get keyId = some σ := by
  have hnext := coherent_step (l := l) h c
  have hu := unlimited_of_ends (l := l) h (huse c List.mem_cons_self) hends
  have hkept := kept_of_unlimited (l := l) hnext hu fun d hd => huse d (List.mem_cons_of_mem _ hd)
  obtain ⟨⟨σ, hσ⟩, -⟩ := hu
  obtain ⟨hused, -⟩ := used_kept hnext hkept
  rw [hσ, Option.getD_some] at hused
  refine ⟨σ, ?_, (kept_after hnext hkept).trans hσ⟩
  rw [usedSecrets, encryptionSecret_eq h, hused, storesOf_cons]
  split_ifs with hs
  · rw [hσ, Option.toList_some, List.replicate_succ]
    rfl
  · rfl

theorem count_replicates_le_iff {a b : ℕ} {σ τ : Bytes} {M : ℤ} :
    (∀ ρ, ((List.replicate a σ ++ List.replicate b τ).count ρ : ℤ) ≤ M) ↔
      (a : ℤ) ≤ M ∧ (b : ℤ) ≤ M ∧ (σ = τ → ((a + b : ℕ) : ℤ) ≤ M) := by
  simp only [List.count_append, List.count_replicate, beq_iff_eq]
  constructor
  · intro h
    have hσ := h σ
    have hτ := h τ
    rw [if_pos rfl] at hσ hτ
    refine ⟨by omega, by omega, ?_⟩
    rintro rfl
    rwa [if_pos rfl] at hσ
  · rintro ⟨ha, hb, hab⟩ ρ
    split_ifs with h h'
    · exact hab (h.trans h'.symm)
    all_goals omega

/-- a run encrypts with one secret up to its first renewal, and with one from there on -/
theorem used_split {s : Session} (h : (keyState s).Coherent) {first later : List (Host × Call)}
    (huse : ∀ c ∈ first ++ later, c.2.IsUse keyId) (hfirst : Run.EachStep (step l) (fun s c => ¬ Ends keyId s c) s first)
    (hlater : ∀ c rest, later = c :: rest → Ends keyId (Run.after (step l) s first) c) :
    ∃ σ τ, usedSecrets l keyId s (first ++ later) =
        List.replicate (storesOf keyId first) σ ++ List.replicate (storesOf keyId later) τ ∧
      (storesOf keyId first = 0 ∨ s.vault.secretKeys.get keyId = some σ) ∧
      (storesOf keyId later = 0 ∨ (Run.after (step l) s (first ++ later)).vault.secretKeys.get keyId = some τ) := by
  obtain ⟨hused, hkey⟩ := used_kept h hfirst
  have hone : storesOf keyId first = 0 ∨ s.vault.secretKeys.get keyId = some ((s.vault.secretKeys.get keyId).getD []) := by
    rcases hkey with hzero | ⟨σ, hσ⟩
    · exact Or.inl hzero
    · exact Or.inr (by rw [hσ, Option.getD_some])
  rw [usedSecrets_append, hused, Run.after_append]
  cases later with
  | nil => exact ⟨_, [], rfl, hone, Or.inl rfl⟩
  | cons c rest =>
    obtain ⟨τ, hτ, hlast⟩ := used_renewed (coherent_after h first)
      (fun d hd => huse d (List.mem_append_right _ hd)) (hlater c rest rfl)
    exact ⟨_, τ, by rw [hτ], hone, Or.inr hlast⟩

/-- **No secret exceeds the limit if and only if** at most M stores come before the first renewal and at most M from it on, and at
most M altogether where the last secret is the first one. -/
theorem usage_limit_iff {fipsMode mlkemFips : Bool} {η₀ ηRegister : Host} {before run : List (Host × Call)}
    {maxLifetime : Option ℚ} {M : ℤ} (huse : ∀ c ∈ run, c.2.IsUse keyId) :
    let s := Run.after (step l) (start η₀ fipsMode mlkemFips) (before ++ [(ηRegister, .registerKey keyId maxLifetime (some M))])
    (∀ σ, ((usedSecrets l keyId s run).count σ : ℤ) ≤ M) ↔
      ∀ first later, run = first ++ later → Run.EachStep (step l) (fun s c => ¬ Ends keyId s c) s first →
        (∀ c rest, later = c :: rest → Ends keyId (Run.after (step l) s first) c) →
        (storesOf keyId first : ℤ) ≤ M ∧ (storesOf keyId later : ℤ) ≤ M ∧
          ((Run.after (step l) s run).vault.secretKeys.get keyId = s.vault.secretKeys.get keyId → (storesOf keyId run : ℤ) ≤ M) := by
  intro s
  have hs : (keyState s).Coherent := coherent_after (coherent_start fipsMode mlkemFips) _
  constructor
  · rintro hcount first later rfl hfirst hlater
    obtain ⟨σ, τ, hused, hσ, hτ⟩ := used_split hs huse hfirst hlater
    rw [hused, count_replicates_le_iff] at hcount
    obtain ⟨ha, hb, hab⟩ := hcount
    refine ⟨ha, hb, fun hsame => ?_⟩
    rw [storesOf_append]
    rcases hσ with hzero | hσ
    · omega
    · rcases hτ with hzero | hτ
      · omega
      · exact hab (Option.some.inj (hσ.symm.trans (hsame.symm.trans hτ)))
  · intro hcond
    obtain ⟨first, later, rfl, hfirst, hlater⟩ := Run.exists_first (step l) (fun s c => Ends keyId s c) s run
    obtain ⟨σ, τ, hused, hσ, hτ⟩ := used_split hs huse hfirst hlater
    obtain ⟨ha, hb, hab⟩ := hcond first later rfl hfirst hlater
    rw [hused, count_replicates_le_iff]
    refine ⟨ha, hb, fun hsame => ?_⟩
    rw [storesOf_append] at hab
    rcases hσ with hzero | hσ
    · omega
    · rcases hτ with hzero | hτ
      · omega
      · exact hab (hτ.trans (hsame ▸ hσ.symm))

/-- stores outside FIPS mode that renew nothing stay within the limit, together with those that were counted before -/
theorem stores_within_limit {s : Session} (h : (keyState s).Coherent) {M : ℤ} (hM : 0 < M) {n : ℕ} {data : KeyMetadata}
    (hdata : (keyState s).metadata keyId = some data) (hlimit : data.maxOperations = M) (hn : n ≤ data.encryptCount)
    (hle : (n : ℤ) ≤ M) {run : List (Host × Call)} (huse : ∀ c ∈ run, c.2.IsUse keyId)
    (hrun : Run.EachStep (step l) (fun s c => ¬ Ends keyId s c) s run)
    (hplain : Run.EachStep (step l) (fun s c => isStore keyId c → s.vault.fipsMode = false) s run) :
    ((n + storesOf keyId run : ℕ) : ℤ) ≤ M := by
  induction run generalizing s n data with
  | nil => exact hle
  | cons c run ih =>
    obtain ⟨hc, hrun⟩ := Run.eachStep_cons.1 hrun
    obtain ⟨hmode, hplain⟩ := Run.eachStep_cons.1 hplain
    obtain ⟨data', hdata', -, hlimit', hcount⟩ := metadata_use (l := l) h (huse c List.mem_cons_self) hc hdata
    have htail : ∀ d ∈ run, d.2.IsUse keyId := fun d hd => huse d (List.mem_cons_of_mem _ hd)
    rw [storesOf_cons]
    split_ifs with hs
    · -- a store that is not due finds less than M operations
      have hless : (data.encryptCount : ℤ) < M := by
        have hneeds := (get_of_isStore hs hc).2
        rw [KeyState.metadata, Option.bind_eq_some_iff] at hdata
        obtain ⟨m, hm, hget⟩ := hdata
        simp only [KeyState.needsRotation, hm, Option.any_some, KeyRotationManager.needsRotation, hget,
          KeyMetadata.shouldExpire, hlimit, KeyMetadata.totalOperations, decide_eq_false_iff_not, not_or, not_and] at hneeds
        have hnotdue := hneeds.2 hM
        push_cast at hnotdue
        omega
      rw [if_pos ⟨hs, hmode hs⟩] at hcount
      have hnext := ih (coherent_step h c) hdata' (hlimit'.trans hlimit) (n := n + 1) (by omega) (by omega) htail hrun hplain
      rwa [Nat.add_assoc, Nat.add_comm 1] at hnext
    · exact ih (coherent_step h c) hdata' (hlimit'.trans hlimit) (by omega) hle htail hrun hplain

/-- a registration starts the counts anew -/
theorem metadata_registerKey {s : Session} (h : (keyState s).Coherent) (keyId : Text) (maxLifetime : Option ℚ) (M : ℤ) :
    ∃ data, (keyState (step l s (η, .registerKey keyId maxLifetime (some M)))).metadata keyId = some data ∧
      data.maxOperations = M ∧ data.encryptCount = 0 := by
  obtain ⟨m, hm, -⟩ := h.tracked
  rw [keyState_step, KeyState.metadata, KeyState.apply]
  dsimp only
  rw [hm, Option.map_some, Option.bind_some]
  exact ⟨_, Dict.get_set_self .., rfl, rfl⟩

/-- **The first secret keeps to the limit** where none of its stores is in FIPS mode. -/
theorem first_secret_limited {fipsMode mlkemFips : Bool} {η₀ ηRegister : Host} {before run : List (Host × Call)}
    {maxLifetime : Option ℚ} {M : ℤ} (hM : 0 < M) (huse : ∀ c ∈ run, c.2.IsUse keyId) :
    let s := Run.after (step l) (start η₀ fipsMode mlkemFips) (before ++ [(ηRegister, .registerKey keyId maxLifetime (some M))])
    Run.EachStep (step l) (fun s c => ¬ Ends keyId s c) s run →
      Run.EachStep (step l) (fun s c => isStore keyId c → s.vault.fipsMode = false) s run → (storesOf keyId run : ℤ) ≤ M := by
  intro s hrun hplain
  have hs : (keyState s).Coherent := coherent_after (coherent_start fipsMode mlkemFips) _
  have hbefore := coherent_after (l := l) (coherent_start (η := η₀) fipsMode mlkemFips) before
  obtain ⟨data, hdata, hlimit, hcount⟩ := metadata_registerKey (l := l) (η := ηRegister) hbefore keyId maxLifetime M
  rw [← show s = step l _ _ from Run.after_append ..] at hdata
  have hbound := stores_within_limit hs hM hdata hlimit (n := 0) (Nat.zero_le _) (by omega) huse hrun hplain
  rwa [Nat.zero_add] at hbound

/-! ## A limit of one -/

/-- a vault whose key a may be used once -/
def limited (fipsMode : Bool) : Session :=
  Run.after (step zeroLibs) (start zeroHost fipsMode false)
    ([(hostWithSecret 1, .generateKeypair "a")] ++ [(zeroHost, .registerKey "a" none (some 1))])

def storeAgain : Host × Call := (zeroHost, .store (hostWithSecret 2) "a" [7])

/-- two stores use two secrets, each once -/
theorem usage_limit_two_stores : storesOf "a" [storeAgain, storeAgain] = 2 ∧
    ∀ σ, ((usedSecrets zeroLibs "a" (limited false) [storeAgain, storeAgain]).count σ : ℤ) ≤ 1 := by
  have huse : ∀ c ∈ [storeAgain, storeAgain], c.2.IsUse "a" := by simp [storeAgain, Call.IsUse]
  refine ⟨by decide +kernel, (usage_limit_iff huse).2 fun first later hsplit hfirst hlater => ?_⟩
  have hkept : ¬ Ends "a" (limited false) storeAgain := by decide +kernel
  have hrenewed : Ends "a" (step zeroLibs (limited false) storeAgain) storeAgain := by decide +kernel
  rcases first with _ | ⟨c, _ | ⟨d, first⟩⟩
  · exact absurd (hlater storeAgain [storeAgain] hsplit.symm) hkept
  · cases hsplit
    refine ⟨by decide +kernel, by decide +kernel, fun hsame => absurd hsame (by decide +kernel)⟩
  · rw [List.cons_append, List.cons_append, List.cons.injEq, List.cons.injEq] at hsplit
    obtain ⟨rfl, rfl, -⟩ := hsplit
    exact absurd hrenewed (Run.eachStep_cons.1 (Run.eachStep_cons.1 hfirst).2).1

/-- the second secret is used twice, and in FIPS mode the first one is -/
theorem limit_exceeded :
    usedSecrets zeroLibs "a" (limited false) [storeAgain, storeAgain, storeAgain] =
      [List.replicate 32 1, List.replicate 32 2, List.replicate 32 2] ∧
    usedSecrets zeroLibs "a" (limited true) [storeAgain, storeAgain] = [List.replicate 32 1, List.replicate 32 1] ∧
    (¬ ∀ σ, ((usedSecrets zeroLibs "a" (limited false) [storeAgain, storeAgain, storeAgain]).count σ : ℤ) ≤ 1) ∧
    ¬ ∀ σ, ((usedSecrets zeroLibs "a" (limited true) [storeAgain, storeAgain]).count σ : ℤ) ≤ 1 := by
  have hplain : usedSecrets zeroLibs "a" (limited false) [storeAgain, storeAgain, storeAgain] =
      [List.replicate 32 1, List.replicate 32 2, List.replicate 32 2] := by decide +kernel
  have hfips : usedSecrets zeroLibs "a" (limited true) [storeAgain, storeAgain] =
      [List.replicate 32 1, List.replicate 32 1] := by decide +kernel
  refine ⟨hplain, hfips, fun h => ?_, fun h => ?_⟩
  · have htwo := h (List.replicate 32 2)
    rw [hplain] at htwo
    exact absurd htwo (by decide +kernel)
  · have hone := h (List.replicate 32 1)
    rw [hfips] at hone
    exact absurd hone (by decide +kernel)

end AbirGuard.Python.Vault
