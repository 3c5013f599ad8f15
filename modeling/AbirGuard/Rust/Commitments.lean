/-
Share commitments: `create_commitments` and `verify_share` of `src/advanced_secret_sharing.rs`.

The commitment of a share hashes the share behind its position, and the position is narrowed to a byte.

- `verifyShare_at`: against the commitment of position i, exactly the share of that position is accepted, at any position.
- `commitment_eq_iff`: two commitments are equal exactly when the shares are and the positions leave the same remainder
  modulo 256.
- `identifies_iff`: the commitments of a list identify the positions of its shares exactly when there are at most 256.

The hash does not collide on the strings hashed: the positions of the list, each in front of a share or of another byte
string under test.
-/
import AbirGuard.Rust.AdvancedSharing

namespace AbirGuard.Rust.Commitments

open AbirGuard.Core AbirGuard.Rust.AdvancedSharing

/-! ## Model -/

/-- share index in the share set and hash commitment bytes -/
structure VssCommitment where
  index : UInt8
  commitment : Bytes
deriving DecidableEq, Repr

structure VerifiedShare where
  index : UInt8
  share : Bytes
deriving DecidableEq, Repr

section

variable (sha256 : Bytes → Digest)

def createCommitments (shares : List Bytes) : List VssCommitment :=
  shares.zipIdx.map fun s => ⟨UInt8.ofNat s.2, commitmentHash sha256 (UInt8.ofNat s.2) s.1⟩

def verifyShare (share : Bytes) (commitment : VssCommitment) : Except AdvancedSharingError VerifiedShare :=
  if commitmentHash sha256 commitment.index share ≠ commitment.commitment then .error .verificationFailed
  else .ok ⟨commitment.index, share⟩

/-- what is hashed for a list and some other byte strings -/
def hashed (shares : List Bytes) (others : Set Bytes) : Set Bytes :=
  {m | ∃ i < shares.length, ∃ s, (s ∈ shares ∨ s ∈ others) ∧ m = UInt8.ofNat i :: s}

/-- the commitments identify the positions: the one of position i accepts the share of that position and no other string,
reports position i, and is no other position's commitment -/
def Identifies (shares : List Bytes) (others : Set Bytes) : Prop :=
  ∀ i share c, shares[i]? = some share → (createCommitments sha256 shares)[i]? = some c →
    (∀ s, s ∈ shares ∨ s ∈ others → ((∃ v, verifyShare sha256 s c = .ok v) ↔ s = share) ∧
      ∀ v, verifyShare sha256 s c = .ok v → v.index.toNat = i ∧ v.share = s) ∧
    ∀ j c', j ≠ i → (createCommitments sha256 shares)[j]? = some c' → c ≠ c'

end

/-! ## Commitments by position -/

section

variable {sha256 : Bytes → Digest} {shares : List Bytes} {others : Set Bytes}

theorem createCommitments_getElem? (sha256 : Bytes → Digest) (shares : List Bytes) (i : ℕ) :
    (createCommitments sha256 shares)[i]? =
      shares[i]?.map fun s => ⟨UInt8.ofNat i, commitmentHash sha256 (UInt8.ofNat i) s⟩ := by
  rw [createCommitments, List.getElem?_map, List.getElem?_zipIdx]
  cases shares[i]? <;> simp

theorem verifyShare_ok_iff {s : Bytes} {c : VssCommitment} {v : VerifiedShare} :
    verifyShare sha256 s c = .ok v ↔ commitmentHash sha256 c.index s = c.commitment ∧ v = ⟨c.index, s⟩ := by
  rw [verifyShare]
  split_ifs with h
  · simp [h]
  · rw [ne_eq, not_not] at h
    simp [h, eq_comm]

/-- without a collision a commitment determines its byte and its share -/
theorem commitmentHash_inj (hinj : Set.InjOn sha256 (hashed shares others)) {i j : ℕ} (hi : i < shares.length)
    (hj : j < shares.length) {s t : Bytes} (hs : s ∈ shares ∨ s ∈ others) (ht : t ∈ shares ∨ t ∈ others)
    (h : commitmentHash sha256 (UInt8.ofNat i) s = commitmentHash sha256 (UInt8.ofNat j) t) :
    UInt8.ofNat i = UInt8.ofNat j ∧ s = t := by
  have hm := hinj ⟨i, hi, s, hs, rfl⟩ ⟨j, hj, t, ht, rfl⟩ (Vector.toList_inj.1 h)
  exact List.cons_eq_cons.1 hm

theorem ofNat_eq_iff (i j : ℕ) : UInt8.ofNat i = UInt8.ofNat j ↔ i % 256 = j % 256 := by
  rw [← UInt8.toNat_inj, UInt8.toNat_ofNat', UInt8.toNat_ofNat']

/-- **What a commitment accepts.** -/
theorem verifyShare_at (hinj : Set.InjOn sha256 (hashed shares others)) {i : ℕ} {share s : Bytes} {c : VssCommitment}
    (hshare : shares[i]? = some share) (hc : (createCommitments sha256 shares)[i]? = some c)
    (hs : s ∈ shares ∨ s ∈ others) {v : VerifiedShare} :
    verifyShare sha256 s c = .ok v ↔ s = share ∧ v = ⟨UInt8.ofNat i, s⟩ := by
  have hi : i < shares.length := (List.getElem?_eq_some_iff.1 hshare).1
  rw [createCommitments_getElem?, hshare, Option.map_some, Option.some.injEq] at hc
  subst hc
  rw [verifyShare_ok_iff]
  constructor
  · intro ⟨h, hv⟩
    exact ⟨(commitmentHash_inj hinj hi hi hs (.inl (List.mem_of_getElem? hshare)) h).2, hv⟩
  · intro ⟨h, hv⟩
    exact ⟨by rw [h], hv⟩

/-- **When two commitments are equal.** -/
theorem commitment_eq_iff (hinj : Set.InjOn sha256 (hashed shares others)) {i j : ℕ} {s t : Bytes} {c c' : VssCommitment}
    (hs : shares[i]? = some s) (ht : shares[j]? = some t) (hc : (createCommitments sha256 shares)[i]? = some c)
    (hc' : (createCommitments sha256 shares)[j]? = some c') : c = c' ↔ i % 256 = j % 256 ∧ s = t := by
  have hi : i < shares.length := (List.getElem?_eq_some_iff.1 hs).1
  have hj : j < shares.length := (List.getElem?_eq_some_iff.1 ht).1
  rw [createCommitments_getElem?, hs, Option.map_some, Option.some.injEq] at hc
  rw [createCommitments_getElem?, ht, Option.map_some, Option.some.injEq] at hc'
  subst hc hc'
  rw [VssCommitment.mk.injEq, ← ofNat_eq_iff]
  constructor
  · intro h
    exact commitmentHash_inj hinj hi hj (.inl (List.mem_of_getElem? hs)) (.inl (List.mem_of_getElem? ht)) h.2
  · intro h
    exact ⟨h.1, by rw [h.1, h.2]⟩

/-- position 256 is reported as position 0, whatever the hash -/
theorem length_le_of_identifies (h : Identifies sha256 shares others) : shares.length ≤ 256 := by
  by_contra hlong
  have hlt : 256 < shares.length := by omega
  have hshare : shares[256]? = some shares[256] := List.getElem?_eq_getElem hlt
  have hc := createCommitments_getElem? sha256 shares 256
  rw [hshare, Option.map_some] at hc
  have hok : verifyShare sha256 shares[256] ⟨UInt8.ofNat 256, commitmentHash sha256 (UInt8.ofNat 256) shares[256]⟩ =
      .ok ⟨UInt8.ofNat 256, shares[256]⟩ := verifyShare_ok_iff.2 ⟨rfl, rfl⟩
  have hindex : (UInt8.ofNat 256).toNat = 256 := (((h 256 _ _ hshare hc).1 _ (.inl (List.getElem_mem hlt))).2 _ hok).1
  exact absurd hindex (by decide)

/-- **When commitments identify positions.** The commitments of a list identify the positions of its shares, against every
string for which the hash has no collision, if and only if the list has at most 256 shares. -/
theorem identifies_iff (hinj : Set.InjOn sha256 (hashed shares others)) :
    Identifies sha256 shares others ↔ shares.length ≤ 256 := by
  constructor
  · intro h
    exact length_le_of_identifies h
  · intro hlen i share c hshare hc
    have hi : i < shares.length := (List.getElem?_eq_some_iff.1 hshare).1
    refine ⟨fun s hs => ⟨?_, fun v hv => ?_⟩, fun j c' hj hc' e => ?_⟩
    · simp [verifyShare_at hinj hshare hc hs]
    · obtain ⟨-, rfl⟩ := (verifyShare_at hinj hshare hc hs).1 hv
      refine ⟨?_, rfl⟩
      rw [UInt8.toNat_ofNat']
      omega
    · obtain ⟨t, ht⟩ : ∃ t, shares[j]? = some t := by
        rw [createCommitments_getElem?, Option.map_eq_some_iff] at hc'
        exact hc'.imp fun t ht => ht.1
      have hjl : j < shares.length := (List.getElem?_eq_some_iff.1 ht).1
      have := ((commitment_eq_iff hinj hshare ht hc hc').1 e).1
      omega

end

theorem injOn_pair : Set.InjOn Core.sha256 (hashed [[7]] {[8]}) := by
  have hne : Core.sha256 [0, 7] ≠ Core.sha256 [0, 8] := by decide +kernel
  have hmem : ∀ m ∈ hashed [[7]] {[8]}, m = [0, 7] ∨ m = [0, 8] := by
    intro m ⟨i, hi, s, hs, hm⟩
    have h0 : i = 0 := by simpa using hi
    subst h0 hm
    simpa using hs
  intro m hm m' hm' e
  rcases hmem m hm with rfl | rfl <;> rcases hmem m' hm' with rfl | rfl
  · rfl
  · exact absurd e hne
  · exact absurd e.symm hne
  · rfl

theorem identifies_iff_pair : Identifies Core.sha256 [[7]] {[8]} ↔ [[(7 : UInt8)]].length ≤ 256 :=
  identifies_iff injOn_pair

/-- a hash without a collision among the strings of one byte -/
def padded (m : Bytes) : Digest := Vector.replicate 32 (m.headD 0)

/-- Of 257 empty shares the last is reported at position 0. -/
theorem position_256_reported_as_0 :
    ¬ ∀ (sha256 : Bytes → Digest) (shares : List Bytes) (others : Set Bytes), Set.InjOn sha256 (hashed shares others) →
      Identifies sha256 shares others := by
  intro h
  have hinj : Set.InjOn padded (hashed (List.replicate 257 []) ∅) := by
    have hmem : ∀ m ∈ hashed (List.replicate 257 []) ∅, ∃ b, m = [b] := by
      intro m ⟨i, _, s, hs, hm⟩
      have hnil : s = [] := hs.elim List.eq_of_mem_replicate fun hs => absurd hs (Set.notMem_empty s)
      exact ⟨UInt8.ofNat i, by rw [hm, hnil]⟩
    intro m hm m' hm' e
    obtain ⟨b, rfl⟩ := hmem m hm
    obtain ⟨b', rfl⟩ := hmem m' hm'
    have hb : b = b' := by simpa [padded] using congrArg (fun d : Digest => d.toList.headD 0) e
    rw [hb]
  have hlen := length_le_of_identifies (h padded _ ∅ hinj)
  rw [List.length_replicate] at hlen
  omega

end AbirGuard.Rust.Commitments
