/-
The revocation list (`revocation.rs`): entries, an index by key id, and a digest over the revocation key and the entries.

The digest covers the key id, the reason and the timestamp of one entry after another. Who revoked and the details are not
covered, nor is where a key id ends and a reason begins.

- `isRevoked_revoked_iff`: the index names exactly the key ids of the entries.
- `tampering_detected_iff`: which changes of the entries are detected while key and digest are kept.
- `unsigned_fields_undetected`: changing who revoked, or the details, is never detected.
- `moved_boundary_undetected`: the key id of the only entry is changed, and the list still verifies.
-/
import AbirGuard.Core.Bytes
import AbirGuard.Core.Run
import AbirGuard.Core.Sha256
import Mathlib.Data.Finmap

namespace AbirGuard.Rust.Revocation

open AbirGuard.Core

/-! ## Model -/

inductive RevocationReason where
  | compromised
  | rotated
  | retired
  | policy
deriving DecidableEq, Repr

/-- the text of a reason -/
def RevocationReason.display : RevocationReason → String
  | .compromised => "compromised"
  | .rotated => "rotated"
  | .retired => "retired"
  | .policy => "policy"

structure RevocationEntry where
  keyId : String
  reason : String
  timestamp : UInt64
  revokedBy : String
  details : String
deriving DecidableEq, Repr

structure RevocationList where
  revocationKey : Bytes
  entries : List RevocationEntry
  /-- `HashMap<String, usize>` -/
  revokedIds : Finmap fun _ : String => ℕ
  signature : Bytes

/-- the arguments of a call of `revoke`, and what the clock reads then -/
structure Revoke where
  keyId : String
  reason : RevocationReason
  revokedBy : String
  details : String
  now : UInt64
deriving DecidableEq, Repr

/-- what the digest covers of the entries -/
def covered (entries : List RevocationEntry) : Bytes :=
  entries.flatMap fun entry => utf8 entry.keyId ++ utf8 entry.reason ++ leBytes 8 entry.timestamp.toNat

namespace RevocationList

/-- `with_key`; `new` does so with a random key of 32 bytes -/
def withKey (key : Bytes) : RevocationList := ⟨key, [], ∅, []⟩

variable (sha256 : Bytes → Digest)

def computeSignature (l : RevocationList) : Bytes := (sha256 (l.revocationKey ++ covered l.entries)).toList

def revoke (l : RevocationList) (r : Revoke) : RevocationList :=
  let l' : RevocationList :=
    { l with
      entries := l.entries ++ [⟨r.keyId, r.reason.display, r.now, r.revokedBy, r.details⟩]
      revokedIds := l.revokedIds.insert r.keyId l.entries.length }
  { l' with signature := l'.computeSignature sha256 }

def isRevoked (l : RevocationList) (keyId : String) : Bool := keyId ∈ l.revokedIds

def getEntry (l : RevocationList) (keyId : String) : Option RevocationEntry :=
  (l.revokedIds.lookup keyId).bind fun idx => l.entries[idx]?

def listRevoked (l : RevocationList) : List RevocationEntry := l.entries

def verifyIntegrity (l : RevocationList) : Bool :=
  if l.signature.isEmpty then true else l.computeSignature sha256 = l.signature

/-! ## Lists reached by revocations -/

/-- the list after some revocations -/
def revoked (key : Bytes) (calls : List Revoke) : RevocationList := Run.after (revoke sha256) (withKey key) calls

variable {sha256} {key : Bytes}

theorem revoked_snoc (calls : List Revoke) (r : Revoke) :
    revoked sha256 key (calls ++ [r]) = (revoked sha256 key calls).revoke sha256 r := Run.after_append _ calls [r]

theorem revocationKey_revoked (calls : List Revoke) : (revoked sha256 key calls).revocationKey = key := by
  induction calls using List.reverseRecOn with
  | nil => rfl
  | append_singleton calls r ih =>
    rw [revoked_snoc]
    exact ih

/-- the signature of a list is empty, or that of its entries -/
theorem signature_revoked (calls : List Revoke) :
    (revoked sha256 key calls).signature = if calls = [] then [] else (revoked sha256 key calls).computeSignature sha256 := by
  cases calls using List.reverseRecOn with
  | nil => rfl
  | append_singleton calls r =>
    rw [revoked_snoc, if_neg (by simp)]
    rfl

/-- a list verifies as it was left -/
theorem verifyIntegrity_revoked (calls : List Revoke) : (revoked sha256 key calls).verifyIntegrity sha256 = true := by
  rw [verifyIntegrity, signature_revoked]
  split_ifs <;> simp_all

theorem entries_revoked (calls : List Revoke) : (revoked sha256 key calls).entries =
    calls.map fun r => ⟨r.keyId, r.reason.display, r.now, r.revokedBy, r.details⟩ := by
  induction calls using List.reverseRecOn with
  | nil => rfl
  | append_singleton calls r ih =>
    rw [revoked_snoc, List.map_append, ← ih]
    rfl

theorem isRevoked_revoked_iff (calls : List Revoke) (keyId : String) :
    (revoked sha256 key calls).isRevoked keyId = true ↔ ∃ entry ∈ (revoked sha256 key calls).listRevoked, entry.keyId = keyId := by
  rw [listRevoked, entries_revoked, isRevoked, decide_eq_true_eq]
  induction calls using List.reverseRecOn with
  | nil => simp [revoked, withKey, Finmap.notMem_empty]
  | append_singleton calls r ih =>
    rw [revoked_snoc, revoke]
    simp only [Finmap.mem_insert, ih, List.map_append, List.mem_append, List.map_cons, List.map_nil, List.mem_singleton]
    aesop

/-! ## What the signature detects -/

/-- with a signature that is not empty, what is compared is the bytes that are covered -/
theorem verifyIntegrity_kept {l t : RevocationList} (hkey : t.revocationKey = l.revocationKey)
    (hsig : t.signature = l.signature) (hl : l.signature = l.computeSignature sha256) (hne : l.signature ≠ [])
    (hcol : sha256 (t.revocationKey ++ covered t.entries) = sha256 (l.revocationKey ++ covered l.entries) →
      t.revocationKey ++ covered t.entries = l.revocationKey ++ covered l.entries) :
    t.verifyIntegrity sha256 = true ↔ covered t.entries = covered l.entries := by
  have hempty : t.signature.isEmpty = false := by simpa [hsig] using hne
  rw [verifyIntegrity, hempty, if_neg (by simp), decide_eq_true_eq, hsig, hl, computeSignature, computeSignature,
    Vector.toList_inj]
  constructor
  · intro h
    have hbytes := hcol h
    rwa [hkey, List.append_cancel_left_eq] at hbytes
  · intro h
    rw [hkey, h]

/-- **Which changes are detected.** Let the entries of a list made by revocations be changed in any way, with the key and the
non-empty signature kept. The change is detected if and only if the key ids, reasons and timestamps, one entry after another, are
not the same bytes as those signed, or nothing was changed. -/
theorem tampering_detected_iff (sha256 : Bytes → Digest) (key : Bytes) (calls : List Revoke) (t : RevocationList)
    (hkey : t.revocationKey = (revoked sha256 key calls).revocationKey)
    (hsig : t.signature = (revoked sha256 key calls).signature) (hne : t.signature ≠ [])
    (hcol : sha256 (key ++ covered t.entries) = sha256 (key ++ covered (revoked sha256 key calls).entries) →
      key ++ covered t.entries = key ++ covered (revoked sha256 key calls).entries) :
    (t.entries ≠ (revoked sha256 key calls).entries → t.verifyIntegrity sha256 = false) ↔
      (covered t.entries ≠ covered (revoked sha256 key calls).entries ∨ t.entries = (revoked sha256 key calls).entries) := by
  have hcalls : calls ≠ [] := by
    rintro rfl
    exact hne hsig
  have hl : (revoked sha256 key calls).signature = (revoked sha256 key calls).computeSignature sha256 := by
    rw [signature_revoked, if_neg hcalls]
  have hverify : t.verifyIntegrity sha256 = true ↔ covered t.entries = covered (revoked sha256 key calls).entries := by
    apply verifyIntegrity_kept hkey hsig hl (hsig ▸ hne)
    rw [hkey, revocationKey_revoked]
    exact hcol
  rw [← Bool.not_eq_true, hverify]
  tauto

/-- a list of one key revoked -/
def exampleCall : Revoke := ⟨"agent-1", .compromised, "admin", "Key leaked", 1700000000⟩

def exampleList : RevocationList := revoked Core.sha256 [1] [exampleCall]

/-- the example with another entry -/
def exampleList.withEntry (entry : RevocationEntry) : RevocationList := { exampleList with entries := [entry] }

/-- an entry for another key is detected -/
theorem tampering_detected_other_key :
    (exampleList.withEntry ⟨"agent-2", "compromised", 1700000000, "admin", "Key leaked"⟩).verifyIntegrity Core.sha256
      = false := by
  have hchanged : covered (exampleList.withEntry ⟨"agent-2", "compromised", 1700000000, "admin", "Key leaked"⟩).entries ≠
      covered exampleList.entries := by decide +kernel
  have hcollision : ¬ Core.sha256 ([1] ++ covered (exampleList.withEntry
      ⟨"agent-2", "compromised", 1700000000, "admin", "Key leaked"⟩).entries) =
      Core.sha256 ([1] ++ covered exampleList.entries) := by decide +kernel
  exact (tampering_detected_iff Core.sha256 [1] [exampleCall]
    (exampleList.withEntry ⟨"agent-2", "compromised", 1700000000, "admin", "Key leaked"⟩) rfl rfl (by decide +kernel)
    (fun h => absurd h hcollision)).2 (Or.inl hchanged) (by decide +kernel)

/-- **The key id of the only entry is changed**, its last character moved to the reason, **and the list still verifies.** -/
theorem moved_boundary_undetected :
    (exampleList.withEntry ⟨"agent-", "1compromised", 1700000000, "admin", "Key leaked"⟩).entries ≠ exampleList.entries ∧
    (exampleList.withEntry ⟨"agent-", "1compromised", 1700000000, "admin", "Key leaked"⟩).signature ≠ [] ∧
    (exampleList.withEntry ⟨"agent-", "1compromised", 1700000000, "admin", "Key leaked"⟩).verifyIntegrity Core.sha256
      = true := by
  decide +kernel

/-- **Who revoked and the details are not signed**: a list with any of them changed still verifies. -/
theorem unsigned_fields_undetected (sha256 : Bytes → Digest) (key : Bytes) (calls : List Revoke)
    (f : RevocationEntry → RevocationEntry)
    (hf : ∀ e, (f e).keyId = e.keyId ∧ (f e).reason = e.reason ∧ (f e).timestamp = e.timestamp) :
    verifyIntegrity sha256 { revoked sha256 key calls with entries := (revoked sha256 key calls).entries.map f } = true := by
  have hcovered : covered ((revoked sha256 key calls).entries.map f) = covered (revoked sha256 key calls).entries := by
    rw [covered, covered, List.flatMap_map]
    simp only [(hf _).1, (hf _).2.1, (hf _).2.2]
  have hkept : (revoked sha256 key calls).verifyIntegrity sha256 = true := verifyIntegrity_revoked calls
  rw [← hkept, verifyIntegrity, verifyIntegrity, computeSignature, computeSignature]
  simp only [hcovered]

end RevocationList

end AbirGuard.Rust.Revocation
