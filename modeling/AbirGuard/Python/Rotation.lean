/-
Key rotation policies (`rotation.py`): how old a key may get, and how often it may be used.
-/
import AbirGuard.Core.Dict
import AbirGuard.Python.Lang

namespace AbirGuard.Python

open AbirGuard.Core

structure KeyMetadata where
  keyId : Text
  createdAt : ℚ
  lastUsedAt : ℚ
  encryptCount : ℕ
  decryptCount : ℕ
  /-- 0 is no limit -/
  maxLifetimeSeconds : ℚ
  /-- 0 is no limit -/
  maxOperations : ℤ
  isExpired : Bool
  rotatedTo : Text
deriving DecidableEq

inductive Operation where
  | encrypt
  | decrypt
deriving DecidableEq, Repr

namespace KeyMetadata

def recordEncrypt (η : Host) (m : KeyMetadata) : KeyMetadata :=
  { m with encryptCount := m.encryptCount + 1, lastUsedAt := η.clock .usage }

def recordDecrypt (η : Host) (m : KeyMetadata) : KeyMetadata :=
  { m with decryptCount := m.decryptCount + 1, lastUsedAt := η.clock .usage }

def totalOperations (m : KeyMetadata) : ℕ := m.encryptCount + m.decryptCount

def ageSeconds (η : Host) (m : KeyMetadata) : ℚ := η.clock .expiry - m.createdAt

def shouldExpire (η : Host) (m : KeyMetadata) : Bool :=
  (0 < m.maxLifetimeSeconds ∧ m.maxLifetimeSeconds < m.ageSeconds η) ∨
    (0 < m.maxOperations ∧ m.maxOperations ≤ m.totalOperations)

end KeyMetadata

structure KeyRotationManager where
  metadata : Dict Text KeyMetadata
  defaultMaxLifetime : ℚ
  defaultMaxOperations : ℤ

namespace KeyRotationManager

def new : KeyRotationManager := ⟨.empty, 0, 0⟩

def registerKey (η : Host) (keyId : Text) (maxLifetime : Option ℚ) (maxOperations : Option ℤ) (m : KeyRotationManager) :
    KeyRotationManager :=
  let data : KeyMetadata :=
    { keyId := keyId
      createdAt := η.clock .register
      lastUsedAt := 0
      encryptCount := 0
      decryptCount := 0
      maxLifetimeSeconds := maxLifetime.getD m.defaultMaxLifetime
      maxOperations := maxOperations.getD m.defaultMaxOperations
      isExpired := false
      rotatedTo := [] }
  { m with metadata := m.metadata.set keyId data }

/-- an unknown key is not tracked -/
def recordUsage (η : Host) (keyId : Text) (operation : Operation) (m : KeyRotationManager) : KeyRotationManager :=
  match m.metadata.get keyId with
  | none => m
  | some data =>
    match operation with
    | .encrypt => { m with metadata := m.metadata.set keyId (data.recordEncrypt η) }
    | .decrypt => { m with metadata := m.metadata.set keyId (data.recordDecrypt η) }

def needsRotation (η : Host) (keyId : Text) (m : KeyRotationManager) : Bool :=
  match m.metadata.get keyId with
  | none => false
  | some data => data.shouldExpire η

end KeyRotationManager

end AbirGuard.Python
