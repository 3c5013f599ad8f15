/-
What a failed `reshare_for_participants` leaves behind.

The thresholds are checked before the epoch is advanced, the shares after it, one by one in the loop that refreshes them.

- `reshare_cases`: a call is refused by the threshold check with nothing changed, or it advances the epoch and then succeeds
  or stops at an empty share. The other two errors of the function are never returned.
- `failed_unchanged_iff`: a failed call leaves the refresher as it was, so that a retry continues from the same epoch, exactly
  when the thresholds are refused, or no share that the roster uses is empty, or the epoch is already the largest u64.
-/
import AbirGuard.Rust.AdvancedSharing

namespace AbirGuard.Rust.ReshareFailure

open AbirGuard.Core AbirGuard.Rust.AdvancedSharing

variable (sha256 : Bytes → Digest)

/-- the thresholds pass `validate_thresholds` -/
def Valid (oldParties newParties oldThreshold newThreshold : ℕ) : Prop :=
  (1 ≤ oldThreshold ∧ oldThreshold ≤ oldParties) ∧ 1 ≤ newThreshold ∧ newThreshold ≤ newParties

instance (oldParties newParties oldThreshold newThreshold : ℕ) :
    Decidable (Valid oldParties newParties oldThreshold newThreshold) := by unfold Valid; infer_instance

/-- some share that n next participants are given a copy of is empty -/
def EmptySource (current : List ParticipantShare) (n : ℕ) : Prop := ∃ s ∈ current.take n, s.share = []

instance (current : List ParticipantShare) (n : ℕ) : Decidable (EmptySource current n) := by
  unfold EmptySource; infer_instance

theorem validateThresholds_eq (oldParties newParties oldThreshold newThreshold : ℕ) :
    validateThresholds oldParties newParties oldThreshold newThreshold =
      if Valid oldParties newParties oldThreshold newThreshold then .ok () else .error .invalidThreshold := by
  by_cases h : Valid oldParties newParties oldThreshold newThreshold
  · rw [if_pos h]
    unfold Valid at h
    rw [validateThresholds, if_neg (by omega), if_neg (by omega)]
  · rw [if_neg h]
    unfold Valid at h
    by_cases hold : oldThreshold = 0 ∨ oldThreshold > oldParties
    · rw [validateThresholds, if_pos hold]
    · rw [validateThresholds, if_neg hold, if_pos (by omega)]

/-- the source of a participant is not empty -/
theorem refreshFor_returns_iff (r : ProactiveRefresher) (current : List ParticipantShare) (seed : Bytes) (p : String × ℕ) :
    (∃ s, refreshFor sha256 r current seed p = .ok s) ↔ (current.getD (p.2 % current.length) ⟨"", []⟩).share ≠ [] := by
  rw [refreshFor, ProactiveRefresher.refreshShare]
  cases h : (current.getD (p.2 % current.length) ⟨"", []⟩).share with
  | nil => simp [Except.map]
  | cons b bs => simp [Except.map]

theorem refreshFor_error {r : ProactiveRefresher} {current : List ParticipantShare} {seed : Bytes} {p : String × ℕ}
    {e : AdvancedSharingError} (h : refreshFor sha256 r current seed p = .error e) : e = .invalidShareLength := by
  rw [refreshFor, ProactiveRefresher.refreshShare] at h
  split_ifs at h
  · cases h
    rfl
  · cases h

/-- the sources of n participants are the first n shares, round robin -/
theorem sources_iff {current : List ParticipantShare} (hne : current ≠ []) (nextParticipants : List String)
    (P : ParticipantShare → Prop) :
    (∀ p ∈ nextParticipants.zipIdx, P (current.getD (p.2 % current.length) ⟨"", []⟩)) ↔
      ∀ s ∈ current.take nextParticipants.length, P s := by
  have hpos : 0 < current.length := List.length_pos_iff.2 hne
  constructor
  · intro h s hs
    obtain ⟨i, hi, rfl⟩ := List.getElem_of_mem hs
    have hlt : i < nextParticipants.length ∧ i < current.length := by simpa using hi
    have hp := h (nextParticipants[i], i) (List.mem_zipIdx_iff_getElem?.2 (by simp [hlt.1]))
    rw [Nat.mod_eq_of_lt hlt.2, List.getD_eq_getElem _ _ hlt.2] at hp
    rwa [List.getElem_take]
  · intro h p hp
    have hi : p.2 < nextParticipants.length := (List.getElem?_eq_some_iff.1 (List.mem_zipIdx_iff_getElem?.1 hp)).1
    have hmod : p.2 % current.length < current.length := Nat.mod_lt _ hpos
    have hlt : p.2 % current.length < (current.take nextParticipants.length).length := by
      rw [List.length_take]
      exact lt_min ((Nat.mod_le _ _).trans_lt hi) hmod
    rw [List.getD_eq_getElem _ _ hmod, ← List.getElem_take (h := hlt)]
    exact h _ (List.getElem_mem hlt)

section Call

variable {r : ProactiveRefresher} {current : List ParticipantShare} {nextParticipants : List String}
  {oldThreshold newThreshold : ℕ} {seed : Bytes}

/-- refused thresholds end the call before it has changed anything -/
theorem reshare_refused (h : ¬ Valid current.length nextParticipants.length oldThreshold newThreshold) :
    r.reshareForParticipants sha256 current nextParticipants oldThreshold newThreshold seed =
      (.error .invalidThreshold, r) := by
  rw [ProactiveRefresher.reshareForParticipants, validateThresholds_eq, if_neg h]

theorem ne_nil_of_valid (h : Valid current.length nextParticipants.length oldThreshold newThreshold) :
    current ≠ [] ∧ nextParticipants ≠ [] := by
  unfold Valid at h
  constructor
  · rintro rfl
    simp only [List.length_nil] at h
    omega
  · rintro rfl
    simp only [List.length_nil] at h
    omega

/-- the loop over the roster returns where no share it reads is empty -/
theorem loop_returns_iff (r : ProactiveRefresher) (seed : Bytes)
    (h : Valid current.length nextParticipants.length oldThreshold newThreshold) :
    (∃ l, nextParticipants.zipIdx.mapM (refreshFor sha256 r.advanceEpoch current seed) = .ok l) ↔
      ¬ EmptySource current nextParticipants.length := by
  rw [Outcome.mapM_returns_iff]
  simp only [refreshFor_returns_iff]
  rw [sources_iff (ne_nil_of_valid h).1 nextParticipants fun s => s.share ≠ []]
  simp [EmptySource]

/-- what the loop returned names the roster in order -/
theorem map_participantId {l : List ParticipantShare}
    (h : nextParticipants.zipIdx.mapM (refreshFor sha256 r.advanceEpoch current seed) = .ok l) :
    l.map ParticipantShare.participantId = nextParticipants := by
  have hF : List.Forall₂ (fun (p : String × ℕ) s => p.1 = s.participantId) nextParticipants.zipIdx l :=
    (Outcome.mapM_forall₂ h).imp fun p s hp => by
      obtain ⟨b, _, rfl⟩ := Outcome.map_eq_ok hp
      rfl
  rw [← List.forall₂_map_right_iff, ← List.forall₂_map_left_iff, List.forall₂_eq_eq_eq, List.zipIdx_map_fst] at hF
  exact hF.symm

/-- **How a call ends.** -/
theorem reshare_cases (h : Valid current.length nextParticipants.length oldThreshold newThreshold) :
    (EmptySource current nextParticipants.length ∧
      r.reshareForParticipants sha256 current nextParticipants oldThreshold newThreshold seed =
        (.error .invalidShareLength, r.advanceEpoch)) ∨
    (¬ EmptySource current nextParticipants.length ∧ ∃ plan, plan.oldEpoch = r.epoch ∧
      r.reshareForParticipants sha256 current nextParticipants oldThreshold newThreshold seed =
        (.ok plan, r.advanceEpoch)) := by
  have hne := ne_nil_of_valid h
  have hemp : ¬ (current.isEmpty = true ∨ nextParticipants.isEmpty = true) := by simpa using hne
  have hloop := loop_returns_iff sha256 r seed h
  unfold ProactiveRefresher.reshareForParticipants
  simp only [validateThresholds_eq, if_pos h, if_neg hemp]
  cases hmap : nextParticipants.zipIdx.mapM (refreshFor sha256 r.advanceEpoch current seed) with
  | error e =>
    left
    rw [hmap] at hloop
    have hsource : EmptySource current nextParticipants.length := by
      by_contra hno
      obtain ⟨l, hl⟩ := hloop.2 hno
      cases hl
    obtain ⟨p, _, hp⟩ := Outcome.exists_of_mapM_error hmap
    refine ⟨hsource, ?_⟩
    rw [refreshFor_error sha256 hp]
  | ok l =>
    right
    rw [hmap] at hloop
    have hver := verifyResharePlan_self sha256 r r.advanceEpoch oldThreshold newThreshold l
    rw [map_participantId sha256 hmap] at hver
    refine ⟨hloop.1 ⟨l, rfl⟩, ⟨oldThreshold, newThreshold, r.epoch, r.advanceEpoch.epoch, l,
      buildRefreshProof sha256 r.epoch r.advanceEpoch.epoch oldThreshold newThreshold nextParticipants l⟩, rfl, ?_⟩
    simp only [hver, Bool.not_true, Bool.false_eq_true, if_false]

/-- a plan starts from the epoch of the refresher it was made with -/
theorem oldEpoch_of_ok {plan : ResharePlan}
    (h : (r.reshareForParticipants sha256 current nextParticipants oldThreshold newThreshold seed).1 = .ok plan) :
    plan.oldEpoch = r.epoch := by
  by_cases hv : Valid current.length nextParticipants.length oldThreshold newThreshold
  · rcases reshare_cases sha256 (r := r) hv with ⟨_, heq⟩ | ⟨_, plan', hold, heq⟩
    · rw [heq] at h
      cases h
    · rw [heq] at h
      cases h
      exact hold
  · rw [reshare_refused sha256 hv] at h
    cases h

end Call

theorem advanceEpoch_eq_iff (r : ProactiveRefresher) : r.advanceEpoch.epoch = r.epoch ↔ r.epoch.toNat = 2 ^ 64 - 1 := by
  rw [ProactiveRefresher.advanceEpoch]
  split_ifs with h
  · simp [h]
  · simp only [h, iff_false]
    intro e
    have := congrArg UInt64.toNat e
    have hlt := r.epoch.toNat_lt
    rw [UInt64.toNat_add] at this
    simp only [UInt64.toNat_one] at this
    omega

/-- **When a failed call leaves no trace.** If the call returns an error, then the epoch is unchanged and every later call
that succeeds starts from the epoch before the failed one: this holds exactly when the thresholds are refused, or no share
that the roster uses is empty, or the epoch is already the largest u64. -/
theorem failed_unchanged_iff (r : ProactiveRefresher) (current : List ParticipantShare) (nextParticipants : List String)
    (oldThreshold newThreshold : ℕ) (seed : Bytes) :
    let after := r.reshareForParticipants sha256 current nextParticipants oldThreshold newThreshold seed
    (∀ e, after.1 = .error e → after.2.epoch = r.epoch ∧
      ∀ current' next' old' new' seed' plan,
        (after.2.reshareForParticipants sha256 current' next' old' new' seed').1 = .ok plan → plan.oldEpoch = r.epoch) ↔
      ¬ Valid current.length nextParticipants.length oldThreshold newThreshold ∨
        ¬ EmptySource current nextParticipants.length ∨ r.epoch.toNat = 2 ^ 64 - 1 := by
  intro after
  have hretry : ∀ r' : ProactiveRefresher, (r'.epoch = r.epoch ∧ ∀ current' next' old' new' seed' plan,
      (r'.reshareForParticipants sha256 current' next' old' new' seed').1 = .ok plan → plan.oldEpoch = r.epoch) ↔
      r'.epoch = r.epoch := by
    intro r'
    exact ⟨fun h => h.1, fun h => ⟨h, fun _ _ _ _ _ _ hok => (oldEpoch_of_ok sha256 hok).trans h⟩⟩
  simp only [hretry]
  by_cases hv : Valid current.length nextParticipants.length oldThreshold newThreshold
  · rcases reshare_cases sha256 hv with ⟨hempty, heq⟩ | ⟨hempty, plan, _, heq⟩
    · have hafter : after = (.error .invalidShareLength, r.advanceEpoch) := heq
      simp [hafter, hv, hempty, advanceEpoch_eq_iff]
    · have hafter : after = (.ok plan, r.advanceEpoch) := heq
      simp [hafter, hempty]
  · have hafter : after = (.error .invalidThreshold, r) := reshare_refused sha256 hv
    simp [hafter, hv]

/-- One participant holds the empty share: the call fails with the epoch advanced from 1 to 2. -/
theorem failed_advances :
    ¬ ∀ (r : ProactiveRefresher) (current : List ParticipantShare) (nextParticipants : List String)
      (oldThreshold newThreshold : ℕ) (seed : Bytes) (e : AdvancedSharingError),
      (r.reshareForParticipants Core.sha256 current nextParticipants oldThreshold newThreshold seed).1 = .error e →
      (r.reshareForParticipants Core.sha256 current nextParticipants oldThreshold newThreshold seed).2.epoch = r.epoch := by
  intro h
  have hrun : ProactiveRefresher.new.reshareForParticipants Core.sha256 [⟨"p1", []⟩] ["p1"] 1 1 [] =
      (.error .invalidShareLength, ⟨2⟩) := by decide +kernel
  have hsame := h ProactiveRefresher.new [⟨"p1", []⟩] ["p1"] 1 1 [] .invalidShareLength (by rw [hrun])
  rw [hrun] at hsame
  exact absurd hsame (by decide)

end AbirGuard.Rust.ReshareFailure
