/-
Shares with an authenticity tag: `authenticate_share` and `verify_authenticated_share` of `src/advanced_secret_sharing.rs`.

The tag covers participant id, share, epoch and context one after another, without a length in front of any of them. The
epoch has eight bytes and the context is the same on both sides, but where the id ends and the share begins is not covered.

- `shareMessage_inj`: two shares have the same message if and only if their epochs are equal and their ids and payloads,
  written one after another, are the same bytes.
- `share_binding_iff`: when an accepted share must be one that was authenticated.
- `moved_boundary`: a share of one participant is accepted as a share of another one.
-/
import AbirGuard.Core.Authentication
import AbirGuard.Rust.AdvancedSharing

namespace AbirGuard.Rust.AdvancedSharing

open AbirGuard.Core Authentication

/-! ## Model -/

/-- participant id, payload and epoch: what the tag is there to bind -/
structure ShareFields where
  participantId : String
  shareBytes : Bytes
  epoch : UInt64
deriving DecidableEq, Repr

structure AuthenticatedShare extends ShareFields where
  mac : Bytes
deriving DecidableEq, Repr

/-- what `compute_mac` feeds to the MAC -/
def shareMessage (context : Bytes) (f : ShareFields) : Bytes :=
  utf8 f.participantId ++ f.shareBytes ++ leBytes 8 f.epoch.toNat ++ context

section

variable (hmac : Bytes → Bytes → Digest)

def computeMac (f : ShareFields) (context key : Bytes) : Bytes := (hmac key (shareMessage context f)).toList

def authenticateShare (f : ShareFields) (context key : Bytes) : Except AdvancedSharingError AuthenticatedShare :=
  if key.isEmpty then .error .emptyMacKey
  else .ok { f with mac := computeMac hmac f context key }

def verifyAuthenticatedShare (a : AuthenticatedShare) (context key : Bytes) : Except AdvancedSharingError Unit :=
  if key.isEmpty then .error .emptyMacKey
  else if computeMac hmac a.toShareFields context key ≠ a.mac then .error .macAuthenticationFailed
  else .ok ()

end

/-! ## What the tag binds -/

variable {hmac : Bytes → Bytes → Digest} {context key : Bytes}

theorem verifyAuthenticatedShare_ok_iff {a : AuthenticatedShare} : verifyAuthenticatedShare hmac a context key = .ok () ↔
    key ≠ [] ∧ computeMac hmac a.toShareFields context key = a.mac := by
  rw [verifyAuthenticatedShare]
  split_ifs <;> simp_all

/-- what was authenticated is accepted -/
theorem verify_authenticateShare {f : ShareFields} {a : AuthenticatedShare}
    (h : authenticateShare hmac f context key = .ok a) : verifyAuthenticatedShare hmac a context key = .ok () := by
  rw [authenticateShare] at h
  split_ifs at h with hkey
  cases h
  exact verifyAuthenticatedShare_ok_iff.2 ⟨by simpa using hkey, rfl⟩

theorem shareMessage_inj {f g : ShareFields} : shareMessage context f = shareMessage context g ↔
    f.epoch = g.epoch ∧ utf8 f.participantId ++ f.shareBytes = utf8 g.participantId ++ g.shareBytes := by
  rw [shareMessage, shareMessage, List.append_cancel_right_eq]
  constructor
  · intro h
    obtain ⟨hjoined, hepoch⟩ := List.append_inj' h (by simp)
    exact ⟨UInt64.toNat_inj.1 (leBytes_inj f.epoch.toNat_lt g.epoch.toNat_lt hepoch), hjoined⟩
  · intro ⟨hepoch, hjoined⟩
    rw [hepoch, hjoined]

/-- **Which shares are bound.** Under an unforgeable MAC, an accepted share is one that was authenticated, whatever its tag,
if and only if the key is empty, or no authenticated share of the same epoch has an id and a payload that join up to the same
bytes, or this very share was authenticated. -/
theorem share_binding_iff (hmac : Bytes → Bytes → Digest) (key context : Bytes) (calls : Set ShareFields) (f : ShareFields) :
    (∀ mac, Unforgeable (fun m => (hmac key m).toList) (shareMessage context) calls f mac →
        verifyAuthenticatedShare hmac { f with mac := mac } context key = .ok () → f ∈ calls) ↔
      key = [] ∨ ((∃ g ∈ calls, g.epoch = f.epoch ∧
        utf8 g.participantId ++ g.shareBytes = utf8 f.participantId ++ f.shareBytes) → f ∈ calls) := by
  simp only [verifyAuthenticatedShare_ok_iff]
  by_cases hkey : key = []
  · simp [hkey]
  · have hiff : (∀ mac, Unforgeable (fun m => (hmac key m).toList) (shareMessage context) calls f mac →
        (hmac key (shareMessage context f)).toList = mac → f ∈ calls) ↔ _ := accepts_only_issued_iff
    simp only [shareMessage_inj] at hiff
    rw [or_iff_right hkey, ← hiff]
    simp only [ne_eq, hkey, not_false_eq_true, true_and]
    rfl

/-- the share of `alice` -/
def aliceShare : ShareFields := ⟨"alice", [1, 2, 3], 7⟩

/-- the same bytes, as a share of `ali` -/
def aliShare : ShareFields := ⟨"ali", [99, 101, 1, 2, 3], 7⟩

/-- **A share of `alice` is accepted as a share of `ali`**, with the tag that was issued for `alice`. -/
theorem moved_boundary : ∃ a, authenticateShare hmacSha256 aliceShare [9] [1] = .ok a ∧
    Unforgeable (fun m => (hmacSha256 [1] m).toList) (shareMessage [9]) {aliceShare} aliShare a.mac ∧
    verifyAuthenticatedShare hmacSha256 { aliShare with mac := a.mac } [9] [1] = .ok () ∧ aliShare ∉ ({aliceShare} : Set _) := by
  have hsame : shareMessage [9] aliceShare = shareMessage [9] aliShare := by decide +kernel
  refine ⟨_, rfl, unforgeable_of_issued (Set.mem_singleton _) hsame _, ?_, ?_⟩
  · exact verifyAuthenticatedShare_ok_iff.2 ⟨by simp, by rw [computeMac, computeMac, ← hsame]⟩
  · intro h
    have heq : aliShare = aliceShare := h
    exact absurd heq (by decide)

end AbirGuard.Rust.AdvancedSharing
