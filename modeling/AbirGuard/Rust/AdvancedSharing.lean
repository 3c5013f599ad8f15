/-
Proactive re-sharing: `ProactiveRefresher`, `ResharePlan` and their helpers of `src/advanced_secret_sharing.rs`.

SHA-256 is an argument, a function from byte strings to 32 bytes. A method that takes `&mut self` returns the refresher
after the call next to its result, so that what an error leaves behind is visible.

- `length_mask`: the mask is as long as asked.
- `verifyResharePlan_self`: a plan carries the transcript that its own check recomputes, so the last check of
  `reshareForParticipants` never fails.
- `reshare_ok`, `reshare_empty`: re-sharing to the same roster succeeds with every share refreshed in place, unless a share
  is empty.
-/
import AbirGuard.Core.Sha256
import AbirGuard.Rust.Shamir

namespace AbirGuard.Rust.AdvancedSharing

open AbirGuard.Core

/-! ## Model -/

inductive AdvancedSharingError where
  | indexOutOfBounds
  | verificationFailed
  | invalidShareLength
  | invalidThreshold
  | participantMismatch
  | proofVerificationFailed
  | macAuthenticationFailed
  | emptyMacKey
deriving DecidableEq, Repr

/-- the text of an error -/
def AdvancedSharingError.display : AdvancedSharingError → String
  | .indexOutOfBounds => "share index out of bounds"
  | .verificationFailed => "commitment verification failed"
  | .invalidShareLength => "invalid share length"
  | .invalidThreshold => "invalid threshold configuration"
  | .participantMismatch => "participant mismatch between shares and roster"
  | .proofVerificationFailed => "refresh proof verification failed"
  | .macAuthenticationFailed => "participant MAC authentication failed"
  | .emptyMacKey => "MAC key must not be empty"

/-- share bound to a participant identifier -/
structure ParticipantShare where
  participantId : String
  share : Bytes
deriving DecidableEq, Repr

structure RefreshProof where
  transcriptHash : Bytes
deriving DecidableEq, Repr

/-- result of a proactive re-sharing operation -/
structure ResharePlan where
  oldThreshold : ℕ
  newThreshold : ℕ
  oldEpoch : UInt64
  newEpoch : UInt64
  refreshed : List ParticipantShare
  proof : RefreshProof
deriving DecidableEq, Repr

structure ProactiveRefresher where
  epoch : UInt64
deriving DecidableEq, Repr

/-- the default epoch is 1 -/
def ProactiveRefresher.new : ProactiveRefresher := ⟨1⟩

/-- `saturating_add(1)` -/
def ProactiveRefresher.advanceEpoch (r : ProactiveRefresher) : ProactiveRefresher :=
  ⟨if r.epoch.toNat = 2 ^ 64 - 1 then r.epoch else r.epoch + 1⟩

def validateThresholds (oldParties newParties oldThreshold newThreshold : ℕ) : Except AdvancedSharingError Unit :=
  if oldThreshold = 0 ∨ oldThreshold > oldParties then .error .invalidThreshold
  else if newThreshold = 0 ∨ newThreshold > newParties then .error .invalidThreshold
  else .ok ()

section

variable (sha256 : Bytes → Digest)

/-- one block of mask material -/
def maskBlock (seed : Bytes) (epoch : UInt64) (counter : ℕ) : Bytes :=
  (sha256 (seed ++ leBytes 8 epoch.toNat ++ leBytes 8 counter)).toList

/-- the loop of `mask`: append blocks until the output is long enough -/
def maskLoop (seed : Bytes) (epoch : UInt64) (len counter : ℕ) (output : Bytes) : Bytes :=
  if output.length < len then
    maskLoop seed epoch len (min (counter + 1) (2 ^ 64 - 1)) (output ++ maskBlock sha256 seed epoch counter)
  else output
termination_by len - output.length
decreasing_by
  simp only [maskBlock, List.length_append, Vector.length_toList]
  omega

def ProactiveRefresher.mask (r : ProactiveRefresher) (seed : Bytes) (len : ℕ) : Bytes :=
  (maskLoop sha256 seed r.epoch len 0 []).take len

/-- refresh a share with the mask material of this epoch -/
def ProactiveRefresher.refreshShare (r : ProactiveRefresher) (share seed : Bytes) : Except AdvancedSharingError Bytes :=
  if share.isEmpty then .error .invalidShareLength
  else .ok (List.zipWith (fun value noise => value ^^^ noise) share (r.mask sha256 seed share.length))

def commitmentHash (index : UInt8) (share : Bytes) : Bytes := (sha256 (index :: share)).toList

def buildRefreshProof (oldEpoch newEpoch : UInt64) (oldThreshold newThreshold : ℕ) (participants : List String)
    (refreshed : List ParticipantShare) : RefreshProof :=
  ⟨(sha256 (leBytes 8 oldEpoch.toNat ++ leBytes 8 newEpoch.toNat ++ leBytes 8 oldThreshold ++ leBytes 8 newThreshold ++
    participants.flatMap utf8 ++
    refreshed.flatMap fun item => utf8 item.participantId ++ commitmentHash sha256 0 item.share)).toList⟩

def verifyResharePlan (plan : ResharePlan) : Bool :=
  let participants := plan.refreshed.map ParticipantShare.participantId
  buildRefreshProof sha256 plan.oldEpoch plan.newEpoch plan.oldThreshold plan.newThreshold participants plan.refreshed
    = plan.proof

/-- the seed of one participant -/
def ctxSeed (seed : Bytes) (participantId : String) (idx : ℕ) : Bytes := seed ++ utf8 participantId ++ leBytes 8 idx

/-- the body of the loop over the next roster -/
def refreshFor (r : ProactiveRefresher) (current : List ParticipantShare) (seed : Bytes) (p : String × ℕ) :
    Except AdvancedSharingError ParticipantShare :=
  let sourceShare := (current.getD (p.2 % current.length) ⟨"", []⟩).share
  (r.refreshShare sha256 sourceShare (ctxSeed seed p.1 p.2)).map fun nextShare => ⟨p.1, nextShare⟩

/-- the result, and the refresher after the call: an error after the epoch was advanced leaves it advanced -/
def ProactiveRefresher.reshareForParticipants (r : ProactiveRefresher) (current : List ParticipantShare)
    (nextParticipants : List String) (oldThreshold newThreshold : ℕ) (seed : Bytes) :
    Except AdvancedSharingError ResharePlan × ProactiveRefresher :=
  match validateThresholds current.length nextParticipants.length oldThreshold newThreshold with
  | .error e => (.error e, r)
  | .ok () =>
    if current.isEmpty ∨ nextParticipants.isEmpty then (.error .participantMismatch, r)
    else
      let r' := r.advanceEpoch
      match nextParticipants.zipIdx.mapM (refreshFor sha256 r' current seed) with
      | .error e => (.error e, r')
      | .ok refreshed =>
        let proof := buildRefreshProof sha256 r.epoch r'.epoch oldThreshold newThreshold nextParticipants refreshed
        let plan : ResharePlan := ⟨oldThreshold, newThreshold, r.epoch, r'.epoch, refreshed, proof⟩
        if !verifyResharePlan sha256 plan then (.error .proofVerificationFailed, r') else (.ok plan, r')

/-! ## Masks -/

theorem length_maskBlock (seed : Bytes) (epoch : UInt64) (counter : ℕ) :
    (maskBlock sha256 seed epoch counter).length = 32 := by
  rw [maskBlock, Vector.length_toList]

theorem le_length_maskLoop (seed : Bytes) (epoch : UInt64) (len counter : ℕ) (output : Bytes) :
    len ≤ (maskLoop sha256 seed epoch len counter output).length := by
  induction counter, output using maskLoop.induct sha256 seed epoch len with
  | case1 counter output h ih =>
    rw [maskLoop, if_pos h]
    exact ih
  | case2 counter output h =>
    rw [maskLoop, if_neg h]
    exact Nat.le_of_not_lt h

theorem length_mask (r : ProactiveRefresher) (seed : Bytes) (len : ℕ) : (r.mask sha256 seed len).length = len := by
  rw [ProactiveRefresher.mask, List.length_take]
  exact Nat.min_eq_left (le_length_maskLoop sha256 _ _ _ _ _)

/-- one block is enough for a share of at most 32 bytes -/
theorem mask_of_le (r : ProactiveRefresher) (seed : Bytes) {len : ℕ} (h0 : 0 < len) (h : len ≤ 32) :
    r.mask sha256 seed len = (maskBlock sha256 seed r.epoch 0).take len := by
  have hb := length_maskBlock sha256 seed r.epoch 0
  rw [ProactiveRefresher.mask, maskLoop, if_pos (by simpa using h0), maskLoop, if_neg (by simp [hb]; omega),
    List.nil_append]

/-! ## Plans -/

theorem verifyResharePlan_self (r r' : ProactiveRefresher) (oldThreshold newThreshold : ℕ)
    (refreshed : List ParticipantShare) :
    verifyResharePlan sha256 ⟨oldThreshold, newThreshold, r.epoch, r'.epoch, refreshed,
      buildRefreshProof sha256 r.epoch r'.epoch oldThreshold newThreshold (refreshed.map ParticipantShare.participantId)
        refreshed⟩ = true := by
  simp [verifyResharePlan]

/-- a share with the mask of its holder xored in -/
def refreshed (r : ProactiveRefresher) (share seed : Bytes) : Bytes :=
  List.zipWith (fun value noise => value ^^^ noise) share (r.mask sha256 seed share.length)

theorem length_refreshed (r : ProactiveRefresher) (share seed : Bytes) :
    (refreshed sha256 r share seed).length = share.length := by
  rw [refreshed, List.length_zipWith, length_mask, Nat.min_self]

theorem getD_refreshed (r : ProactiveRefresher) (share seed : Bytes) {b : ℕ} (hb : b < share.length) :
    (refreshed sha256 r share seed).getD b 0 = share.getD b 0 ^^^ (r.mask sha256 seed share.length).getD b 0 := by
  have hm : b < (r.mask sha256 seed share.length).length := by rwa [length_mask]
  have hr : b < (refreshed sha256 r share seed).length := by rwa [length_refreshed]
  rw [List.getD_eq_getElem _ _ hb, List.getD_eq_getElem _ _ hm, List.getD_eq_getElem _ _ hr]
  simp only [refreshed, List.getElem_zipWith]

/-- the payloads of a roster -/
def holders (ids : List String) (payloads : List Bytes) : List ParticipantShare :=
  List.zipWith ParticipantShare.mk ids payloads

/-- the refreshed payloads of a roster, every one in its place -/
def refreshedHolders (r : ProactiveRefresher) (ids : List String) (payloads : List Bytes) (seed : Bytes) :
    List ParticipantShare :=
  ids.zipIdx.map fun p => ⟨p.1, refreshed sha256 r (payloads.getD p.2 []) (ctxSeed seed p.1 p.2)⟩

section SameRoster

variable {ids : List String} {payloads : List Bytes} {t : ℕ} (hlen : ids.length = payloads.length) (ht : 1 ≤ t)
  (htn : t ≤ ids.length)
include hlen

theorem length_holders : (holders ids payloads).length = ids.length := by
  rw [holders, List.length_zipWith, hlen, Nat.min_self]

theorem getD_holders {i : ℕ} (hi : i < ids.length) :
    ((holders ids payloads).getD (i % (holders ids payloads).length) ⟨"", []⟩).share = payloads.getD i [] := by
  have hi' : i < (holders ids payloads).length := by rwa [length_holders hlen]
  rw [Nat.mod_eq_of_lt hi', List.getD_eq_getElem _ _ hi', List.getD_eq_getElem _ _ (by omega)]
  simp only [holders, List.getElem_zipWith]

include ht htn

/-- **Re-sharing to the same roster.** With one threshold and no empty payload it succeeds, and payload i of the plan is
payload i before with the mask of participant i xored in. -/
theorem reshare_ok (r : ProactiveRefresher) (seed : Bytes) (hne : ∀ p ∈ payloads, p ≠ []) :
    ∃ plan, (r.reshareForParticipants sha256 (holders ids payloads) ids t t seed).1 = .ok plan ∧
      plan.refreshed = refreshedHolders sha256 r.advanceEpoch ids payloads seed := by
  have hmap : ids.zipIdx.mapM (refreshFor sha256 r.advanceEpoch (holders ids payloads) seed) =
      .ok (refreshedHolders sha256 r.advanceEpoch ids payloads seed) := by
    apply Outcome.mapM_ok
    rintro ⟨id, i⟩ hp
    obtain ⟨hi, -⟩ := List.getElem?_eq_some_iff.1 (List.mem_zipIdx_iff_getElem?.1 hp)
    have hmem : payloads.getD i [] ∈ payloads := by
      rw [List.getD_eq_getElem _ _ (by simp only at hi; omega)]
      exact List.getElem_mem _
    have hemp : (payloads.getD i []).isEmpty = false := by simpa using hne _ hmem
    rw [refreshFor, getD_holders hlen hi, ProactiveRefresher.refreshShare, hemp]
    rfl
  have hids : (refreshedHolders sha256 r.advanceEpoch ids payloads seed).map ParticipantShare.participantId = ids := by
    rw [refreshedHolders, List.map_map]
    exact List.zipIdx_map_fst 0 ids
  have hver := verifyResharePlan_self sha256 r r.advanceEpoch t t
    (refreshedHolders sha256 r.advanceEpoch ids payloads seed)
  rw [hids] at hver
  have hval : validateThresholds (holders ids payloads).length ids.length t t = .ok () := by
    rw [validateThresholds, length_holders hlen, if_neg (by omega), if_neg (by omega)]
  have hemp : ¬ ((holders ids payloads).isEmpty = true ∨ ids.isEmpty = true) := by
    rw [List.isEmpty_iff_length_eq_zero, List.isEmpty_iff_length_eq_zero, length_holders hlen]
    omega
  refine ⟨⟨t, t, r.epoch, r.advanceEpoch.epoch, refreshedHolders sha256 r.advanceEpoch ids payloads seed,
    buildRefreshProof sha256 r.epoch r.advanceEpoch.epoch t t ids
      (refreshedHolders sha256 r.advanceEpoch ids payloads seed)⟩, ?_, rfl⟩
  unfold ProactiveRefresher.reshareForParticipants
  simp only [hval, if_neg hemp, hmap, hver, Bool.not_true, Bool.false_eq_true, if_false]

/-- an empty first payload is refused -/
theorem reshare_empty (r : ProactiveRefresher) (seed : Bytes) (h0 : payloads.getD 0 [] = []) :
    (r.reshareForParticipants sha256 (holders ids payloads) ids t t seed).1 = .error .invalidShareLength := by
  have hval : validateThresholds (holders ids payloads).length ids.length t t = .ok () := by
    rw [validateThresholds, length_holders hlen, if_neg (by omega), if_neg (by omega)]
  have hemp : ¬ ((holders ids payloads).isEmpty = true ∨ ids.isEmpty = true) := by
    rw [List.isEmpty_iff_length_eq_zero, List.isEmpty_iff_length_eq_zero, length_holders hlen]
    omega
  have hmap : ids.zipIdx.mapM (refreshFor sha256 r.advanceEpoch (holders ids payloads) seed) =
      .error .invalidShareLength := by
    obtain ⟨id, rest, rfl⟩ := List.exists_cons_of_ne_nil (l := ids) (by rintro rfl; simp at htn; omega)
    rw [List.zipIdx_cons]
    apply Outcome.mapM_error
    rw [refreshFor, getD_holders hlen (by simp), h0]
    rfl
  unfold ProactiveRefresher.reshareForParticipants
  simp only [hval, if_neg hemp, hmap]

end SameRoster

end

end AbirGuard.Rust.AdvancedSharing
