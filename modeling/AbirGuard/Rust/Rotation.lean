/-
Key rotation policies in Rust (`rotation.rs`): how old a key may get, and how often it may be used.

Times are whole seconds since the epoch, and everything is counted in 64 bits, where the release build wraps around.

- `shouldExpire_iff`: when a key is to be rotated, in numbers.
-/
import AbirGuard.Core.Dict
import Mathlib.Data.Rat.Floor

namespace AbirGuard.Rust.Rotation

open AbirGuard.Core

structure KeyMetadata where
  keyId : String
  createdAt : UInt64
  lastUsedAt : UInt64
  encryptCount : UInt64
  decryptCount : UInt64
  /-- 0 is no limit -/
  maxLifetimeSeconds : UInt64
  /-- 0 is no limit -/
  maxOperations : UInt64
  isExpired : Bool
  rotatedTo : String
deriving DecidableEq

/-- the seconds since the epoch; before it there are none -/
def seconds (now : ℚ) : UInt64 := UInt64.ofNat ⌊now⌋.toNat

def saturatingSub (a b : UInt64) : UInt64 := if b ≤ a then a - b else 0

namespace KeyMetadata

def totalOperations (m : KeyMetadata) : UInt64 := m.encryptCount + m.decryptCount

def ageSeconds (now : ℚ) (m : KeyMetadata) : UInt64 := saturatingSub (seconds now) m.createdAt

def shouldExpire (now : ℚ) (m : KeyMetadata) : Bool :=
  if 0 < m.maxLifetimeSeconds ∧ m.maxLifetimeSeconds < m.ageSeconds now then true
  else if 0 < m.maxOperations ∧ m.maxOperations ≤ m.totalOperations then true
  else false

def recordEncrypt (now : ℚ) (m : KeyMetadata) : KeyMetadata :=
  { m with encryptCount := m.encryptCount + 1, lastUsedAt := seconds now }

def recordDecrypt (now : ℚ) (m : KeyMetadata) : KeyMetadata :=
  { m with decryptCount := m.decryptCount + 1, lastUsedAt := seconds now }

end KeyMetadata

structure KeyRotationManager where
  metadata : Dict String KeyMetadata
  defaultMaxLifetime : UInt64
  defaultMaxOperations : UInt64

namespace KeyRotationManager

def new (defaultMaxLifetime defaultMaxOperations : UInt64) : KeyRotationManager :=
  ⟨.empty, defaultMaxLifetime, defaultMaxOperations⟩

def registerKey (now : ℚ) (keyId : String) (maxLifetime maxOperations : Option UInt64) (m : KeyRotationManager) :
    KeyRotationManager :=
  let data : KeyMetadata :=
    { keyId := keyId
      createdAt := seconds now
      lastUsedAt := seconds now
      encryptCount := 0
      decryptCount := 0
      maxLifetimeSeconds := maxLifetime.getD m.defaultMaxLifetime
      maxOperations := maxOperations.getD m.defaultMaxOperations
      isExpired := false
      rotatedTo := "" }
  { m with metadata := m.metadata.set keyId data }

/-- `get_mut` of a key, if it is there -/
def modify (keyId : String) (f : KeyMetadata → KeyMetadata) (m : KeyRotationManager) : KeyRotationManager :=
  match m.metadata.get keyId with
  | none => m
  | some data => { m with metadata := m.metadata.set keyId (f data) }

def recordUsage (now : ℚ) (keyId : String) (isEncrypt : Bool) (m : KeyRotationManager) : KeyRotationManager :=
  m.modify keyId fun data => if isEncrypt then data.recordEncrypt now else data.recordDecrypt now

def needsRotation (now : ℚ) (keyId : String) (m : KeyRotationManager) : Bool :=
  ((m.metadata.get keyId).map (·.shouldExpire now)).getD false

def expireKey (keyId rotatedTo : String) (m : KeyRotationManager) : KeyRotationManager :=
  m.modify keyId fun data => { data with isExpired := true, rotatedTo := rotatedTo }

def getMetadata (keyId : String) (m : KeyRotationManager) : Option KeyMetadata := m.metadata.get keyId

end KeyRotationManager

/-! ## Numbers -/

theorem toNat_seconds {now : ℚ} (h : now < 2 ^ 64) : (seconds now).toNat = ⌊now⌋.toNat := by
  have hfloor : ⌊now⌋ < 2 ^ 64 := Int.floor_lt.2 (by exact_mod_cast h)
  rw [seconds, UInt64.toNat_ofNat']
  exact Nat.mod_eq_of_lt (by omega)

theorem toNat_saturatingSub (a b : UInt64) : (saturatingSub a b).toNat = a.toNat - b.toNat := by
  unfold saturatingSub
  split_ifs with h
  · exact UInt64.toNat_sub_of_le _ _ h
  · have hlt : a.toNat < b.toNat := UInt64.lt_iff_toNat_lt.1 (UInt64.not_le.1 h)
    rw [Nat.sub_eq_zero_of_le hlt.le]
    rfl

/-- a key is to be rotated where its whole seconds exceed the lifetime, or its uses reach the limit -/
theorem KeyMetadata.shouldExpire_iff {now : ℚ} (hnow : now < 2 ^ 64) {m : KeyMetadata}
    (hcount : m.encryptCount.toNat + m.decryptCount.toNat < 2 ^ 64) : m.shouldExpire now = true ↔
      0 < m.maxLifetimeSeconds.toNat ∧ m.createdAt.toNat + m.maxLifetimeSeconds.toNat < ⌊now⌋.toNat ∨
        0 < m.maxOperations.toNat ∧ m.maxOperations.toNat ≤ m.encryptCount.toNat + m.decryptCount.toNat := by
  have hage : (m.ageSeconds now).toNat = ⌊now⌋.toNat - m.createdAt.toNat := by
    rw [ageSeconds, toNat_saturatingSub, toNat_seconds hnow]
  have htotal : m.totalOperations.toNat = m.encryptCount.toNat + m.decryptCount.toNat := by
    rw [totalOperations, UInt64.toNat_add, Nat.mod_eq_of_lt hcount]
  have hzero : (0 : UInt64).toNat = 0 := rfl
  rw [shouldExpire]
  simp only [UInt64.lt_iff_toNat_lt, UInt64.le_iff_toNat_le, hage, htotal, hzero]
  split_ifs with hlife hops
  · exact iff_of_true rfl (Or.inl ⟨hlife.1, by omega⟩)
  · exact iff_of_true rfl (Or.inr hops)
  · refine iff_of_false not_false ?_
    rintro (h | h)
    · exact hlife ⟨h.1, by omega⟩
    · exact hops h

end AbirGuard.Rust.Rotation
