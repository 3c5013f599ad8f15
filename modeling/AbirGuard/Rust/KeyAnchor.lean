/-
The registry of key anchors (`blockchain/key_anchor.rs`): each key hash is bound once to an owner, who may revoke it.

SHA-256 is any function to 32 bytes; nothing below asks anything of it.

- `run_register`, `run_revoke`: every way the two operations can end, as one equation.
- `register_ok_iff`, `revoke_ok_iff`: when they succeed, and what they change.
-/
import AbirGuard.Core.Raise
import AbirGuard.Core.Sha256
import AbirGuard.Core.Text
import Mathlib.Data.Finmap

namespace AbirGuard.Rust

open AbirGuard.Core Raise

inductive KeyAnchorError where
  | alreadyAnchored
  | notFound
  | revoked
  | ownerMismatch (expected got : String)
  | emptyPublicKey
deriving DecidableEq, Repr

/-- the text of an error, up to how unusual characters of an owner are escaped -/
def KeyAnchorError.message : KeyAnchorError → String
  | .alreadyAnchored => "anchor already exists for key hash"
  | .notFound => "anchor not found"
  | .revoked => "anchor has been revoked"
  | .ownerMismatch expected got => s!"owner mismatch: expected {expected.quote}, got {got.quote}"
  | .emptyPublicKey => "public key bytes must not be empty"

structure KeyAnchor where
  anchorId : String
  keyHash : Bytes
  ownerId : String
  timestamp : UInt64
  revoked : Bool
deriving DecidableEq, Repr

variable (sha256 : Bytes → Digest)

def hexEncode (bytes : Bytes) : String := Text.hexdigest bytes

/-- the id of the anchor of a key: its hash in hex -/
def anchorIdOf (publicKey : Bytes) : String := hexEncode (sha256 publicKey).toList

def KeyAnchor.new (publicKey : Bytes) (ownerId : String) (timestamp : UInt64) : KeyAnchor where
  anchorId := anchorIdOf sha256 publicKey
  keyHash := (sha256 publicKey).toList
  ownerId := ownerId
  timestamp := timestamp
  revoked := false

structure AnchorRegistry where
  anchors : Finmap fun _ : String => KeyAnchor
deriving DecidableEq

namespace AnchorRegistry

def new : AnchorRegistry := ⟨∅⟩

def register (publicKey : Bytes) (ownerId : String) (timestamp : UInt64) : Raise KeyAnchorError AnchorRegistry KeyAnchor := do
  if publicKey = [] then throw .emptyPublicKey
  else do
    let anchor := KeyAnchor.new sha256 publicKey ownerId timestamp
    let r ← get
    if anchor.anchorId ∈ r.anchors then throw .alreadyAnchored
    else do
      set (⟨r.anchors.insert anchor.anchorId anchor⟩ : AnchorRegistry)
      return anchor

def revoke (anchorId requestingOwner : String) : Raise KeyAnchorError AnchorRegistry Unit := do
  let r ← get
  match r.anchors.lookup anchorId with
  | none => throw .notFound
  | some anchor =>
    if anchor.ownerId ≠ requestingOwner then throw (.ownerMismatch anchor.ownerId requestingOwner)
    else set (⟨r.anchors.insert anchorId { anchor with revoked := true }⟩ : AnchorRegistry)

def lookup (anchorId : String) (r : AnchorRegistry) : Option KeyAnchor := r.anchors.lookup anchorId

def verifyAnchorById (anchorId : String) (r : AnchorRegistry) : Except KeyAnchorError KeyAnchor :=
  match r.anchors.lookup anchorId with
  | none => .error .notFound
  | some anchor => if anchor.revoked then .error .revoked else .ok anchor

/-! ## Every way an operation can end -/

variable {sha256} {r r' : AnchorRegistry}

/-- the registry with one anchor put in -/
def put (r : AnchorRegistry) (anchorId : String) (anchor : KeyAnchor) : AnchorRegistry := ⟨r.anchors.insert anchorId anchor⟩

@[simp] theorem lookup_put_self (r : AnchorRegistry) (anchorId : String) (anchor : KeyAnchor) :
    (r.put anchorId anchor).lookup anchorId = some anchor := Finmap.lookup_insert _

theorem lookup_put_of_ne {anchorId anchorId' : String} (h : anchorId' ≠ anchorId) (r : AnchorRegistry) (anchor : KeyAnchor) :
    (r.put anchorId anchor).lookup anchorId' = r.lookup anchorId' := Finmap.lookup_insert_of_ne _ h

theorem lookup_eq_none_iff {anchorId : String} : r.lookup anchorId = none ↔ anchorId ∉ r.anchors := Finmap.lookup_eq_none

theorem run_register (publicKey : Bytes) (ownerId : String) (timestamp : UInt64) (r : AnchorRegistry) :
    run (register sha256 publicKey ownerId timestamp) r =
      if publicKey = [] then (.error .emptyPublicKey, r)
      else if anchorIdOf sha256 publicKey ∈ r.anchors then (.error .alreadyAnchored, r)
      else (.ok (.new sha256 publicKey ownerId timestamp),
        r.put (anchorIdOf sha256 publicKey) (.new sha256 publicKey ownerId timestamp)) := by
  rw [register, run_ite]
  dsimp only
  rw [run_get_bind, run_ite]
  rfl

theorem run_revoke (anchorId requestingOwner : String) (r : AnchorRegistry) :
    run (revoke anchorId requestingOwner) r =
      match r.lookup anchorId with
      | none => (.error .notFound, r)
      | some anchor =>
        if anchor.ownerId ≠ requestingOwner then (.error (.ownerMismatch anchor.ownerId requestingOwner), r)
        else (.ok (), r.put anchorId { anchor with revoked := true }) := by
  rw [revoke, run_get_bind, lookup]
  cases r.anchors.lookup anchorId with
  | none => rfl
  | some anchor =>
    dsimp only
    rw [run_ite]
    rfl

theorem register_ok_iff {publicKey : Bytes} {ownerId : String} {timestamp : UInt64} {anchor : KeyAnchor} :
    run (register sha256 publicKey ownerId timestamp) r = (.ok anchor, r') ↔
      publicKey ≠ [] ∧ r.lookup (anchorIdOf sha256 publicKey) = none ∧ anchor = .new sha256 publicKey ownerId timestamp ∧
        r' = r.put (anchorIdOf sha256 publicKey) anchor := by
  rw [run_register, lookup_eq_none_iff]
  split_ifs with hnil hmem
  · simp [hnil]
  · simp [hmem]
  · constructor
    · intro h
      cases h
      exact ⟨hnil, hmem, rfl, rfl⟩
    · rintro ⟨-, -, rfl, rfl⟩
      rfl

theorem revoke_ok_iff {anchorId requestingOwner : String} : run (revoke anchorId requestingOwner) r = (.ok (), r') ↔
    ∃ anchor, r.lookup anchorId = some anchor ∧ anchor.ownerId = requestingOwner ∧
      r' = r.put anchorId { anchor with revoked := true } := by
  rw [run_revoke]
  cases r.lookup anchorId with
  | none => simp
  | some anchor =>
    dsimp only
    split_ifs with hne
    · simp [hne]
    · rw [not_not] at hne
      simp [hne, eq_comm]

theorem verifyAnchorById_ok_iff {anchorId : String} {anchor : KeyAnchor} :
    r.verifyAnchorById anchorId = .ok anchor ↔ r.lookup anchorId = some anchor ∧ anchor.revoked = false := by
  rw [verifyAnchorById, lookup]
  cases r.anchors.lookup anchorId with
  | none => simp
  | some a =>
    dsimp only
    split_ifs with hrev
    · refine iff_of_false (fun h => by cases h) ?_
      rintro ⟨h, hfalse⟩
      cases h
      rw [hrev] at hfalse
      cases hfalse
    · constructor
      · intro h
        cases h
        exact ⟨rfl, by simpa using hrev⟩
      · rintro ⟨h, -⟩
        cases h
        rfl

end AnchorRegistry

end AbirGuard.Rust
