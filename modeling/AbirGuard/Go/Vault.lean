/-
The vault of the Go SDK, one section under its mutex after another.

A call takes the mutex once, except that Encrypt for a missing key and RotateKey give it up, call GenerateKeypair and take
it again. The vault keeps four maps and a log; a pointer to an entry is the entry. Where the code dereferences the entry of
a missing key it panics.

- `nextSection`: the sections of every call, for threads that interleave; `callOf`: each call without interruption.
- `generateKeypair_cases`, `encryptBegin_cases`, `encryptResume_cases`, `decrypt_cases`, `revokeKey_cases`, `rotateBegin_cases`:
  when each section fails, when it panics, and what it does to the maps otherwise.
-/
import AbirGuard.Core.Threads
import AbirGuard.Go.Lang
import Mathlib.Data.Finmap

namespace AbirGuard.Go

open AbirGuard.Core Raise

/-! ## Model -/

structure Ciphertext where
  nonce : GoString
  ciphertext : GoString
  authTag : GoString
deriving DecidableEq

structure KeyPair where
  publicKey : GoString
  secretKey : GoString
  sharedKey : Bytes
deriving DecidableEq

structure KeyMetadata where
  keyID : GoString
  createdAt : Time
  lastUsedAt : Time
  encryptCount : Int64
  decryptCount : Int64
  maxLifetime : Int64
  maxOperations : Int64
  isExpired : Bool
  rotatedTo : GoString
deriving DecidableEq

structure RevocationEntry where
  keyID : GoString
  reason : GoString
  timestamp : Time
  revokedBy : GoString
  details : GoString
deriving DecidableEq

structure AuditEntry where
  timestamp : Time
  action : GoString
  keyID : GoString
  success : Bool
  details : GoString
deriving DecidableEq

/-- the maps of a vault -/
structure Keys where
  keypairs : Finmap fun _ : GoString => KeyPair
  secretKeys : Finmap fun _ : GoString => Bytes
  metadata : Finmap fun _ : GoString => KeyMetadata
  revoked : Finmap fun _ : GoString => RevocationEntry

structure Vault extends Keys where
  auditLog : List AuditEntry

def Vault.new : Vault := ⟨⟨∅, ∅, ∅, ∅⟩, []⟩

def domain : Bytes := utf8 "Abir-Guard-Hybrid-2026"

/-- what a reading of the clock is for -/
inductive Reading where
  | created
  | used
  | revoked
  | rotated
  | log (action : GoString)
deriving DecidableEq

/-- what the host answers during a call: the clock, and random bytes, which may fail -/
structure Host where
  clock : Reading → Time
  secret : Except GoString (Vector UInt8 32)
  nonce : Except GoString Nonce

structure Libs where
  sha256 : Bytes → Digest
  aead : Aead Digest

abbrev VaultM := Raise Fault Vault

def Fault.errorf {α : Type} (msg : GoString) : VaultM α := throw (.error msg)

/-- letters, digits, hyphen and underscore; no byte of a character outside ASCII is one of these -/
def isKeyIDChar (c : UInt8) : Bool :=
  (97 ≤ c ∧ c ≤ 122) ∨ (65 ≤ c ∧ c ≤ 90) ∨ (48 ≤ c ∧ c ≤ 57) ∨ c = 45 ∨ c = 95

def validateKeyID (keyID : GoString) : Except GoString Unit :=
  if keyID = [] then .error "key_id cannot be empty"
  else if 64 < keyID.length then .error "key_id too long (max 64 chars)"
  else if keyID.any fun c => ¬ isKeyIDChar c then
    .error "key_id must be alphanumeric, hyphens, or underscores only"
  else if keyID.take 2 = [95, 95] then .error "key_id cannot start with __ (reserved for system)"
  else .ok ()

variable (l : Libs) (η : Host)

def deriveKey (sharedSecret : Bytes) : Digest := l.sha256 (domain ++ sharedSecret ++ utf8 "aes-key")

def Vault.isRevoked (v : Vault) (keyID : GoString) : Bool := (v.revoked.lookup keyID).isSome

def log (action keyID : GoString) (success : Bool) (details : GoString) : VaultM PUnit :=
  modify fun v => { v with auditLog := v.auditLog ++ [⟨η.clock (.log action), action, keyID, success, details⟩] }

def checkKeyID (keyID : GoString) : VaultM Unit := lift ((validateKeyID keyID).mapError .error)

def generateKeypair (keyID : GoString) : VaultM KeyPair := do
  checkKeyID keyID
  let v ← get
  when (v.isRevoked keyID) (Fault.errorf ("key " ++ keyID ++ " is revoked"))
  let sharedSecret ← lift (η.secret.mapError fun e => .error ("failed to generate random bytes: " ++ e))
  let kp : KeyPair := ⟨stdEncode sharedSecret.toList, stdEncode sharedSecret.toList, sharedSecret.toList⟩
  modify fun v => { v with
    keypairs := v.keypairs.insert keyID kp
    secretKeys := v.secretKeys.insert keyID sharedSecret.toList
    metadata := v.metadata.insert keyID ⟨keyID, η.clock .created, .zero, 0, 0, 0, 0, false, ""⟩ }
  log η "keygen" keyID true ""
  pure kp

/-- count a use of a key, if it has metadata -/
def countUse (keyID : GoString) (count : KeyMetadata → KeyMetadata) : VaultM PUnit :=
  modify fun v =>
    match v.metadata.lookup keyID with
    | some m => { v with metadata := v.metadata.insert keyID { count m with lastUsedAt := η.clock .used } }
    | none => v

/-- the ciphertext as it is handed out -/
def packed (nonce : Nonce) (sealed : Bytes) : Ciphertext :=
  ⟨stdEncode nonce.toList, stdEncode (sealed.take (sealed.length - 16)), stdEncode (sealed.drop (sealed.length - 16))⟩

/-- the last section of Encrypt, from the derivation of the key on -/
def encryptResume (keyID : GoString) (plaintext : Bytes) : VaultM Ciphertext := do
  let v ← get
  let kp ← lift (match v.keypairs.lookup keyID with
    | some kp => .ok kp
    | none => .error (.panic "runtime error: invalid memory address or nil pointer dereference"))
  let nonce ← lift (η.nonce.mapError fun e => .error ("failed to generate nonce: " ++ e))
  let sealed ← lift (gcmSeal l.aead (deriveKey l kp.sharedKey) nonce plaintext)
  countUse η keyID fun m => { m with encryptCount := m.encryptCount + 1 }
  log η "encrypt" keyID true ""
  pure (packed nonce sealed)

/-- the first section of Encrypt, which gives up the mutex if the key is missing -/
def encryptBegin (keyID : GoString) (plaintext : Bytes) : VaultM (Option Ciphertext) := do
  checkKeyID keyID
  let v ← get
  when (v.isRevoked keyID) (Fault.errorf ("key " ++ keyID ++ " is revoked"))
  if keyID ∈ v.keypairs then some <$> encryptResume l η keyID plaintext
  else pure none

def encrypt (keyID : GoString) (plaintext : Bytes) : VaultM Ciphertext := do
  match ← encryptBegin l η keyID plaintext with
  | some ct => pure ct
  | none => do
    let _ ← generateKeypair η keyID
    encryptResume l η keyID plaintext

def decodeField (name s : GoString) : Except Fault Bytes :=
  (stdDecode s).mapError fun e => .error ("invalid " ++ name ++ ": " ++ e)

def decrypt (keyID : GoString) (ct : Ciphertext) : VaultM Bytes := do
  checkKeyID keyID
  let v ← get
  let secretKey ← lift (match v.secretKeys.lookup keyID with
    | some secretKey => .ok secretKey
    | none => .error (.error ("no keypair for " ++ keyID)))
  when (v.isRevoked keyID) (Fault.errorf ("key " ++ keyID ++ " is revoked"))
  let nonce ← lift (decodeField "nonce" ct.nonce)
  let ciphertext ← lift (decodeField "ciphertext" ct.ciphertext)
  let authTag ← lift (decodeField "auth tag" ct.authTag)
  let plaintext ← lift (match gcmOpen l.aead (deriveKey l secretKey) nonce (ciphertext ++ authTag) with
    | .error (.error e) => .error (.error ("decryption failed: " ++ e))
    | r => r)
  countUse η keyID fun m => { m with decryptCount := m.decryptCount + 1 }
  log η "decrypt" keyID true ""
  pure plaintext

def revokeKey (keyID reason revokedBy details : GoString) : VaultM PUnit := do
  let v ← get
  when (keyID ∉ v.keypairs) (Fault.errorf ("key " ++ keyID ++ " not found"))
  modify fun v => { v with revoked := v.revoked.insert keyID ⟨keyID, reason, η.clock .revoked, revokedBy, details⟩ }
  log η "revoke" keyID true reason

/-- the id that a rotation gives to the new key -/
def newID (keyID : GoString) : GoString := keyID ++ "_rotated_" ++ (η.clock .rotated).format

/-- the first section of RotateKey, which gives up the mutex to generate the new key -/
def rotateBegin (keyID : GoString) : VaultM GoString := do
  let v ← get
  when (keyID ∉ v.keypairs) (Fault.errorf ("key " ++ keyID ++ " not found"))
  modify fun v =>
    match v.metadata.lookup keyID with
    | some m => { v with metadata := v.metadata.insert keyID { m with isExpired := true, rotatedTo := newID η keyID } }
    | none => v
  pure (newID η keyID)

/-- the last section of RotateKey -/
def rotateLog (keyID newID : GoString) : VaultM PUnit := log η "rotate" keyID true ("rotated to " ++ newID)

def rotateKey (keyID : GoString) : VaultM PUnit := do
  let newID ← rotateBegin η keyID
  let _ ← generateKeypair η newID
  rotateLog η keyID newID

/-- the ids, which the code lists in no particular order -/
def Vault.listKeys (v : Vault) : Finset GoString :=
  v.keypairs.keys.filter fun keyID => keyID ∉ v.revoked ∧ ∀ m ∈ v.metadata.lookup keyID, m.isExpired = false

def removeKeypair (keyID : GoString) : VaultM PUnit := do
  modify fun v => { v with
    keypairs := v.keypairs.erase keyID
    secretKeys := v.secretKeys.erase keyID
    metadata := v.metadata.erase keyID }
  log η "delete_key" keyID true ""

/-! ## Calls and their sections -/

inductive Op where
  | generateKeypair (keyID : GoString)
  | encrypt (keyID : GoString) (plaintext : Bytes)
  | decrypt (keyID : GoString) (ct : Ciphertext)
  | revokeKey (keyID reason revokedBy details : GoString)
  | isRevoked (keyID : GoString)
  | rotateKey (keyID : GoString)
  | listKeys
  | removeKeypair (keyID : GoString)
deriving DecidableEq

inductive Value where
  | keypair (kp : KeyPair)
  | ciphertext (ct : Ciphertext)
  | plaintext (p : Bytes)
  | nil
  | bool (b : Bool)
  | keys (keyIDs : Finset GoString)
deriving DecidableEq

/-- a call without interruption -/
def callOf : Op → VaultM Value
  | .generateKeypair keyID => .keypair <$> generateKeypair η keyID
  | .encrypt keyID plaintext => .ciphertext <$> encrypt l η keyID plaintext
  | .decrypt keyID ct => .plaintext <$> decrypt l η keyID ct
  | .revokeKey keyID reason revokedBy details => (fun _ => .nil) <$> revokeKey η keyID reason revokedBy details
  | .isRevoked keyID => (fun v => .bool (v.isRevoked keyID)) <$> get
  | .rotateKey keyID => (fun _ => .nil) <$> rotateKey η keyID
  | .listKeys => (fun v => .keys v.listKeys) <$> get
  | .removeKeypair keyID => (fun _ => .nil) <$> removeKeypair η keyID

/-- the vault after a call, whatever it ends with -/
def callStep (v : Vault) (c : Host × Op) : Vault := (Raise.run (callOf l c.1 c.2) v).2

/-- where a call is: before its first section, between two sections, or ended -/
inductive Pc where
  | start
  /-- Encrypt gave up the mutex and is about to generate the key -/
  | generate
  /-- Encrypt is about to take the mutex again -/
  | resume
  | rotateGenerate (newID : GoString)
  | rotateLog (newID : GoString)
  | ended (r : Except Fault Value)
deriving DecidableEq

structure Thread where
  op : Op
  pc : Pc
deriving DecidableEq

/-- run a section: it leads to the next one, or to the end of the call if it raises -/
def goes {α : Type} (x : VaultM α) (next : α → Pc) (v : Vault) : Pc × Vault :=
  (match (Raise.run x v).1 with
    | .ok a => next a
    | .error f => .ended (.error f), (Raise.run x v).2)

def ends {α : Type} (x : VaultM α) (value : α → Value) (v : Vault) : Pc × Vault := goes x (fun a => .ended (.ok (value a))) v

def afterBegin : Option Ciphertext → Pc
  | some ct => .ended (.ok (.ciphertext ct))
  | none => .generate

def firstSection (v : Vault) : Op → Pc × Vault
  | .encrypt keyID plaintext => goes (encryptBegin l η keyID plaintext) afterBegin v
  | .rotateKey keyID => goes (rotateBegin η keyID) .rotateGenerate v
  | op => ends (callOf l η op) id v

/-- the next section of a call -/
def nextSection (v : Vault) (op : Op) : Pc → Pc × Vault
  | .start => firstSection l η v op
  | .generate =>
    match op with
    | .encrypt keyID _ => goes (generateKeypair η keyID) (fun _ => .resume) v
    | _ => (.generate, v)
  | .resume =>
    match op with
    | .encrypt keyID plaintext => ends (encryptResume l η keyID plaintext) .ciphertext v
    | _ => (.resume, v)
  | .rotateGenerate newID =>
    match op with
    | .rotateKey _ => goes (generateKeypair η newID) (fun _ => .rotateLog newID) v
    | _ => (.rotateGenerate newID, v)
  | .rotateLog newID =>
    match op with
    | .rotateKey keyID => ends (rotateLog η keyID newID) (fun _ => .nil) v
    | _ => (.rotateLog newID, v)
  | .ended r => (.ended r, v)

/-- a thread makes one call -/
def exec (v : Vault) (t : Thread) : Thread × Vault :=
  let (pc, v) := nextSection l η v t.op t.pc
  (⟨t.op, pc⟩, v)

abbrev Sys (τ : Type) := Threads.Sys Vault Thread τ

/-- a vault and the calls about to be made on it -/
def Sys.start {τ : Type} (v : Vault) (ops : τ → Op) : Sys τ := ⟨v, fun i => ⟨ops i, .start⟩⟩


/-! ## What a section may do to the maps -/

namespace Keys

variable (u : Keys) (keyID : GoString)

def install (secret : Vector UInt8 32) (createdAt : Time) : Keys :=
  { u with
    keypairs := u.keypairs.insert keyID ⟨stdEncode secret.toList, stdEncode secret.toList, secret.toList⟩
    secretKeys := u.secretKeys.insert keyID secret.toList
    metadata := u.metadata.insert keyID ⟨keyID, createdAt, .zero, 0, 0, 0, 0, false, ""⟩ }

/-- change the metadata of a key that has some -/
def touch (f : KeyMetadata → KeyMetadata) : Keys :=
  match u.metadata.lookup keyID with
  | some m => { u with metadata := u.metadata.insert keyID (f m) }
  | none => u

def revoke (entry : RevocationEntry) : Keys := { u with revoked := u.revoked.insert keyID entry }

def remove : Keys :=
  { u with
    keypairs := u.keypairs.erase keyID
    secretKeys := u.secretKeys.erase keyID
    metadata := u.metadata.erase keyID }

end Keys

/-- a count of a use keeps what a rotation marks -/
def KeepsMark (f : KeyMetadata → KeyMetadata) : Prop := ∀ m, (f m).isExpired = m.isExpired ∧ (f m).rotatedTo = m.rotatedTo

/-- the id is valid and not revoked, and there are random bytes for it -/
def CanGenerate (u : Keys) (keyID : GoString) : Prop :=
  validateKeyID keyID = .ok () ∧ keyID ∉ u.revoked ∧ ∃ s, η.secret = .ok s

variable {l η}

theorem isRevoked_iff {v : Vault} {keyID : GoString} : v.isRevoked keyID ↔ keyID ∈ v.revoked := by
  rw [Vault.isRevoked, Finmap.lookup_isSome]

theorem generateKeypair_cases (keyID : GoString) (v : Vault) :
    (¬ CanGenerate η v.toKeys keyID ∧ ∃ msg, Raise.run (generateKeypair η keyID) v = (.error (.error msg), v)) ∨
      ∃ s, CanGenerate η v.toKeys keyID ∧ η.secret = .ok s ∧
        (∃ kp, (Raise.run (generateKeypair η keyID) v).1 = .ok kp) ∧
        (Raise.run (generateKeypair η keyID) v).2.toKeys = v.toKeys.install keyID s (η.clock .created) := by
  unfold CanGenerate generateKeypair checkKeyID
  rw [run_lift_bind]
  cases validateKeyID keyID with
  | error e => exact Or.inl ⟨by simp, e, rfl⟩
  | ok u =>
    dsimp only [Except.mapError]
    rw [run_get_bind]
    by_cases hrevoked : v.isRevoked keyID
    · refine Or.inl ⟨fun h => h.2.1 (isRevoked_iff.1 hrevoked), "key " ++ keyID ++ " is revoked", ?_⟩
      rw [run_bind, when, if_pos hrevoked]
      rfl
    · rw [run_bind_of_ok (run_when_of_not hrevoked _ v), run_lift_bind]
      cases η.secret with
      | error e => exact Or.inl ⟨by simp, "failed to generate random bytes: " ++ e, rfl⟩
      | ok s => exact Or.inr ⟨s, ⟨rfl, fun h => hrevoked (isRevoked_iff.2 h), s, rfl⟩, rfl, ⟨_, rfl⟩, rfl⟩

theorem run_countUse_toKeys (keyID : GoString) (count : KeyMetadata → KeyMetadata) (v : Vault) :
    (Raise.run (countUse η keyID count) v).2.toKeys =
      v.toKeys.touch keyID fun m => { count m with lastUsedAt := η.clock .used } := by
  rw [countUse, run_modify, Keys.touch]
  dsimp only
  cases v.metadata.lookup keyID <;> rfl

/-- whether the last section of Encrypt gives a ciphertext depends on the key, the random bytes and the length of the text -/
theorem encryptResume_cases (keyID : GoString) (plaintext : Bytes) (v : Vault) :
    (v.keypairs.lookup keyID = none ∧ ∃ msg, Raise.run (encryptResume l η keyID plaintext) v = (.error (.panic msg), v)) ∨
      ∃ kp, v.keypairs.lookup keyID = some kp ∧
        ((∃ e msg, η.nonce = .error e ∧ Raise.run (encryptResume l η keyID plaintext) v = (.error (.error msg), v)) ∨
          ∃ nonce, η.nonce = .ok nonce ∧
            ((gcmMaxText < plaintext.length ∧
                ∃ msg, Raise.run (encryptResume l η keyID plaintext) v = (.error (.panic msg), v)) ∨
              plaintext.length ≤ gcmMaxText ∧
                (Raise.run (encryptResume l η keyID plaintext) v).1 =
                  .ok (packed nonce (l.aead.encrypt (deriveKey l kp.sharedKey) nonce plaintext)) ∧
                ∃ f, KeepsMark f ∧ (Raise.run (encryptResume l η keyID plaintext) v).2.toKeys = v.toKeys.touch keyID f)) := by
  unfold encryptResume
  rw [run_get_bind, run_lift_bind]
  cases v.keypairs.lookup keyID with
  | none => exact Or.inl ⟨rfl, _, rfl⟩
  | some kp =>
    refine Or.inr ⟨kp, rfl, ?_⟩
    dsimp only
    rw [run_lift_bind]
    cases η.nonce with
    | error e => exact Or.inl ⟨e, _, rfl, rfl⟩
    | ok nonce =>
      refine Or.inr ⟨nonce, rfl, ?_⟩
      dsimp only [Except.mapError]
      rw [run_lift_bind, gcmSeal]
      by_cases hlong : gcmMaxText < plaintext.length
      · rw [if_pos hlong]
        exact Or.inl ⟨hlong, _, rfl⟩
      · rw [if_neg hlong]
        refine Or.inr ⟨Nat.le_of_not_lt hlong, rfl, _, ?_, run_countUse_toKeys (η := η) keyID
          (fun m => { m with encryptCount := m.encryptCount + 1 }) v⟩
        intro m
        exact ⟨rfl, rfl⟩

/-- there are no random bytes for a nonce, or the text is too long for the cipher -/
def CannotSeal (η : Host) (plaintext : Bytes) : Prop := (∃ e, η.nonce = .error e) ∨ gcmMaxText < plaintext.length

/-- the last section of Encrypt returns a ciphertext only of a key that is there, and leaves the secrets alone -/
theorem encryptResume_ok {keyID : GoString} {plaintext : Bytes} {v : Vault} {ct : Ciphertext}
    (h : (Raise.run (encryptResume l η keyID plaintext) v).1 = .ok ct) : ¬ CannotSeal η plaintext ∧
      (∃ kp nonce, v.keypairs.lookup keyID = some kp ∧
        ct = packed nonce (l.aead.encrypt (deriveKey l kp.sharedKey) nonce plaintext)) ∧
      ∃ f, (Raise.run (encryptResume l η keyID plaintext) v).2.toKeys = v.toKeys.touch keyID f := by
  unfold CannotSeal
  rcases encryptResume_cases (l := l) (η := η) keyID plaintext v with
    ⟨-, msg, hrun⟩ | ⟨kp, hkp, ⟨e, msg, -, hrun⟩ | ⟨nonce, hnonce, ⟨-, msg, hrun⟩ | ⟨hshort, hok, f, -, hkeys⟩⟩⟩
  · rw [hrun] at h
    cases h
  · rw [hrun] at h
    cases h
  · rw [hrun] at h
    cases h
  · cases hok.symm.trans h
    refine ⟨?_, ⟨kp, nonce, hkp, rfl⟩, f, hkeys⟩
    rintro (⟨e, he⟩ | hlong)
    · rw [hnonce] at he
      cases he
    · omega

/-- Encrypt refuses an invalid id and a revoked key; otherwise it ends in its first section if and only if the key is there -/
theorem encryptBegin_cases (keyID : GoString) (plaintext : Bytes) (v : Vault) :
    (¬ (validateKeyID keyID = .ok () ∧ keyID ∉ v.revoked) ∧
        ∃ msg, Raise.run (encryptBegin l η keyID plaintext) v = (.error (.error msg), v)) ∨
      validateKeyID keyID = .ok () ∧ keyID ∉ v.revoked ∧
        Raise.run (encryptBegin l η keyID plaintext) v =
          if keyID ∈ v.keypairs then Raise.run (some <$> encryptResume l η keyID plaintext) v else (.ok none, v) := by
  unfold encryptBegin checkKeyID
  rw [run_lift_bind]
  cases validateKeyID keyID with
  | error e => exact Or.inl ⟨by simp, e, rfl⟩
  | ok u =>
    dsimp only [Except.mapError]
    rw [run_get_bind]
    by_cases hrevoked : v.isRevoked keyID
    · refine Or.inl ⟨fun h => h.2 (isRevoked_iff.1 hrevoked), "key " ++ keyID ++ " is revoked", ?_⟩
      rw [run_bind, when, if_pos hrevoked]
      rfl
    · rw [run_bind_of_ok (run_when_of_not hrevoked _ v), run_ite]
      exact Or.inr ⟨rfl, fun h => hrevoked (isRevoked_iff.2 h), rfl⟩

/-- a call of Decrypt reaches the cipher with this secret, nonce and text -/
structure ReachesOpen (u : Keys) (keyID : GoString) (ct : Ciphertext) (secret nonce sealed : Bytes) : Prop where
  valid : validateKeyID keyID = .ok ()
  present : u.secretKeys.lookup keyID = some secret
  unrevoked : keyID ∉ u.revoked
  nonce : stdDecode ct.nonce = .ok nonce
  sealed : ∃ c tag, stdDecode ct.ciphertext = .ok c ∧ stdDecode ct.authTag = .ok tag ∧ sealed = c ++ tag

theorem decrypt_cases (keyID : GoString) (ct : Ciphertext) (v : Vault) :
    ((¬ ∃ secret nonce sealed, ReachesOpen v.toKeys keyID ct secret nonce sealed) ∧
        ∃ msg, Raise.run (decrypt l η keyID ct) v = (.error (.error msg), v)) ∨
      ∃ secret nonce sealed, ReachesOpen v.toKeys keyID ct secret nonce sealed ∧
        ((∃ p, gcmOpen l.aead (deriveKey l secret) nonce sealed = .ok p ∧ (Raise.run (decrypt l η keyID ct) v).1 = .ok p ∧
            ∃ f, KeepsMark f ∧ (Raise.run (decrypt l η keyID ct) v).2.toKeys = v.toKeys.touch keyID f) ∨
          (∃ e msg, gcmOpen l.aead (deriveKey l secret) nonce sealed = .error (.error e) ∧
            Raise.run (decrypt l η keyID ct) v = (.error (.error msg), v)) ∨
          ∃ msg, gcmOpen l.aead (deriveKey l secret) nonce sealed = .error (.panic msg) ∧
            Raise.run (decrypt l η keyID ct) v = (.error (.panic msg), v)) := by
  unfold decrypt checkKeyID decodeField
  rw [run_lift_bind]
  cases hvalid : validateKeyID keyID with
  | error e =>
    refine Or.inl ⟨?_, e, rfl⟩
    rintro ⟨_, _, _, h⟩
    cases hvalid.symm.trans h.valid
  | ok u =>
    dsimp only [Except.mapError]
    rw [run_get_bind, run_lift_bind]
    cases hsecret : v.secretKeys.lookup keyID with
    | none =>
      refine Or.inl ⟨?_, _, rfl⟩
      rintro ⟨_, _, _, h⟩
      cases hsecret.symm.trans h.present
    | some secret =>
      dsimp only
      by_cases hrevoked : v.isRevoked keyID
      · refine Or.inl ⟨?_, "key " ++ keyID ++ " is revoked", ?_⟩
        · rintro ⟨_, _, _, h⟩
          exact h.unrevoked (isRevoked_iff.1 hrevoked)
        · rw [run_bind, when, if_pos hrevoked]
          rfl
      · rw [run_bind_of_ok (run_when_of_not hrevoked _ v), run_lift_bind]
        have hunrevoked : keyID ∉ v.revoked := fun h => hrevoked (isRevoked_iff.2 h)
        cases hnonce : stdDecode ct.nonce with
        | error e =>
          refine Or.inl ⟨?_, _, rfl⟩
          rintro ⟨_, _, _, h⟩
          cases hnonce.symm.trans h.nonce
        | ok nonce =>
          dsimp only
          rw [run_lift_bind]
          cases hciphertext : stdDecode ct.ciphertext with
          | error e =>
            refine Or.inl ⟨?_, _, rfl⟩
            rintro ⟨_, _, _, h⟩
            obtain ⟨c, tag, hc, -⟩ := h.sealed
            cases hciphertext.symm.trans hc
          | ok c =>
            dsimp only
            rw [run_lift_bind]
            cases htag : stdDecode ct.authTag with
            | error e =>
              refine Or.inl ⟨?_, _, rfl⟩
              rintro ⟨_, _, _, h⟩
              obtain ⟨c, tag, -, ht, -⟩ := h.sealed
              cases htag.symm.trans ht
            | ok tag =>
              refine Or.inr ⟨secret, nonce, c ++ tag, ⟨hvalid, hsecret, hunrevoked, hnonce, c, tag, hciphertext, htag, rfl⟩, ?_⟩
              dsimp only
              rw [run_lift_bind]
              cases hopen : gcmOpen l.aead (deriveKey l secret) nonce (c ++ tag) with
              | ok p =>
                refine Or.inl ⟨p, rfl, rfl, _, ?_, run_countUse_toKeys (η := η) keyID
                  (fun m => { m with decryptCount := m.decryptCount + 1 }) v⟩
                intro m
                exact ⟨rfl, rfl⟩
              | error f =>
                cases f with
                | error e => exact Or.inr (Or.inl ⟨e, _, rfl, rfl⟩)
                | panic msg => exact Or.inr (Or.inr ⟨msg, rfl, rfl⟩)

theorem ReachesOpen.unique {u : Keys} {keyID : GoString} {ct : Ciphertext} {secret nonce sealed secret' nonce' sealed' : Bytes}
    (h : ReachesOpen u keyID ct secret nonce sealed) (h' : ReachesOpen u keyID ct secret' nonce' sealed') :
    secret = secret' ∧ nonce = nonce' ∧ sealed = sealed' := by
  obtain ⟨c, tag, hc, htag, rfl⟩ := h.sealed
  obtain ⟨c', tag', hc', htag', rfl⟩ := h'.sealed
  cases h.present.symm.trans h'.present
  cases h.nonce.symm.trans h'.nonce
  cases hc.symm.trans hc'
  cases htag.symm.trans htag'
  exact ⟨rfl, rfl, rfl⟩

/-- Decrypt returns a plaintext if and only if it reaches the cipher and the cipher does -/
theorem decrypt_ok_iff {keyID : GoString} {ct : Ciphertext} {v : Vault} {p : Bytes} :
    (Raise.run (decrypt l η keyID ct) v).1 = .ok p ↔ ∃ secret nonce sealed,
      ReachesOpen v.toKeys keyID ct secret nonce sealed ∧ gcmOpen l.aead (deriveKey l secret) nonce sealed = .ok p := by
  rcases decrypt_cases (l := l) (η := η) keyID ct v with
    ⟨hno, msg, hrun⟩ | ⟨secret, nonce, sealed, hreach, ⟨p', hopen, hok, -⟩ | ⟨e, msg, hopen, hrun⟩ | ⟨msg, hopen, hrun⟩⟩
  · rw [hrun]
    refine iff_of_false (by simp) ?_
    rintro ⟨secret, nonce, sealed, hreach, -⟩
    exact hno ⟨secret, nonce, sealed, hreach⟩
  · rw [hok]
    constructor
    · rintro ⟨⟩
      exact ⟨secret, nonce, sealed, hreach, hopen⟩
    · rintro ⟨secret', nonce', sealed', hreach', hopen'⟩
      obtain ⟨rfl, rfl, rfl⟩ := hreach.unique hreach'
      exact hopen.symm.trans hopen'
  all_goals
    rw [hrun]
    refine iff_of_false (by simp) ?_
    rintro ⟨secret', nonce', sealed', hreach', hopen'⟩
    obtain ⟨rfl, rfl, rfl⟩ := hreach.unique hreach'
    cases hopen.symm.trans hopen'

theorem revokeKey_cases (keyID reason revokedBy details : GoString) (v : Vault) :
    (keyID ∉ v.keypairs ∧ ∃ msg, Raise.run (revokeKey η keyID reason revokedBy details) v = (.error (.error msg), v)) ∨
      keyID ∈ v.keypairs ∧ (Raise.run (revokeKey η keyID reason revokedBy details) v).1 = .ok ⟨⟩ ∧
        (Raise.run (revokeKey η keyID reason revokedBy details) v).2.toKeys =
          v.toKeys.revoke keyID ⟨keyID, reason, η.clock .revoked, revokedBy, details⟩ := by
  unfold revokeKey
  rw [run_get_bind]
  by_cases hkey : keyID ∉ v.keypairs
  · refine Or.inl ⟨hkey, "key " ++ keyID ++ " not found", ?_⟩
    rw [run_bind, when, if_pos hkey]
    rfl
  · rw [run_bind_of_ok (run_when_of_not hkey _ v)]
    exact Or.inr ⟨not_not.1 hkey, rfl, rfl⟩

/-- what RotateKey does to the metadata of the old key -/
def markRotated (newID : GoString) (m : KeyMetadata) : KeyMetadata := { m with isExpired := true, rotatedTo := newID }

theorem rotateBegin_cases (keyID : GoString) (v : Vault) :
    (keyID ∉ v.keypairs ∧ ∃ msg, Raise.run (rotateBegin η keyID) v = (.error (.error msg), v)) ∨
      keyID ∈ v.keypairs ∧ (Raise.run (rotateBegin η keyID) v).1 = .ok (newID η keyID) ∧
        (Raise.run (rotateBegin η keyID) v).2 =
          { v with toKeys := v.toKeys.touch keyID (markRotated (newID η keyID)) } := by
  unfold rotateBegin
  rw [run_get_bind]
  by_cases hkey : keyID ∉ v.keypairs
  · refine Or.inl ⟨hkey, "key " ++ keyID ++ " not found", ?_⟩
    rw [run_bind, when, if_pos hkey]
    rfl
  · rw [run_bind_of_ok (run_when_of_not hkey _ v), run_modify_bind, Keys.touch]
    refine Or.inr ⟨not_not.1 hkey, rfl, ?_⟩
    rw [run_pure]
    dsimp only
    cases v.metadata.lookup keyID <;> rfl

end AbirGuard.Go
