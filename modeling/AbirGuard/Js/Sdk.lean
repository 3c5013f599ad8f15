/-
The vault class of the JavaScript SDK, one step of the event loop after another.

The code between two awaits runs without interruption. `generateKeyPair`, `rotateKey` and `deleteKey` have no await before
their last effect, so each is one step; `encrypt` suspends after the generation of a missing key, after the derivation of the
AES key, and after each promise of WebCrypto, and writes the cache at its end. It keeps the key data that it read.

- `nextStep`: the steps of each call; a throw ends the call, and what it had changed stays changed.
- `fromB64_toB64`: the decoder of `Buffer`, which skips what is not in either alphabet, inverts the encoder.
-/
import AbirGuard.Core.Aead
import AbirGuard.Core.Base64
import AbirGuard.Core.Raise
import AbirGuard.Core.Sha256
import AbirGuard.Core.Threads
import Mathlib.Data.Finmap

namespace AbirGuard.Js

open AbirGuard.Core Raise

/-! ## Buffers -/

/-- `Buffer.from(bytes).toString('base64')` -/
def toB64 (bytes : Bytes) : String := base64.encode bytes

/-- the value of a symbol of the standard or of the URL-safe alphabet -/
def unbase64 (c : Char) : Option ℕ := if c = '-' then some 62 else if c = '_' then some 63 else sextet? c

/-- the bytes of a list of sextets; bits left over are dropped -/
def sextetBytes : List ℕ → Bytes
  | w :: x :: y :: z :: rest =>
    UInt8.ofNat (w * 4 + x / 16) :: UInt8.ofNat (x % 16 * 16 + y / 4) :: UInt8.ofNat (y % 4 * 64 + z) :: sextetBytes rest
  | [w, x, y] => [UInt8.ofNat (w * 4 + x / 16), UInt8.ofNat (x % 16 * 16 + y / 4)]
  | [w, x] => [UInt8.ofNat (w * 4 + x / 16)]
  | _ => []

/-- `Buffer.from(value, 'base64')` -/
def fromB64 (value : String) : Bytes := sextetBytes (value.toList.filterMap unbase64)

theorem unbase64_sextet {n : ℕ} (h : n < 64) : unbase64 (sextet n) = some n := by
  have hall : ∀ n : Fin 64, unbase64 (sextet n) = some n.val := by decide +kernel
  exact hall ⟨n, h⟩

/-- decoding inverts encoding -/
theorem fromB64_toB64 (bytes : Bytes) : fromB64 (toB64 bytes) = bytes := by
  have hpad : unbase64 '=' = none := by decide +kernel
  have hdecode : sextetBytes ((base64Encode bytes).filterMap unbase64) = bytes := by
    induction bytes using base64Encode.induct with
    | case1 => rfl
    | case2 a =>
      have ha := a.toNat_lt
      simp only [base64Encode, List.filterMap_cons, unbase64_sextet (show a.toNat / 4 < 64 by omega),
        unbase64_sextet (show a.toNat % 4 * 16 < 64 by omega), hpad, List.filterMap_nil, sextetBytes]
      rw [ofNat_eq_of_toNat (a := a) (by omega)]
    | case3 a b =>
      have ha := a.toNat_lt
      have hb := b.toNat_lt
      simp only [base64Encode, List.filterMap_cons, unbase64_sextet (show a.toNat / 4 < 64 by omega),
        unbase64_sextet (show a.toNat % 4 * 16 + b.toNat / 16 < 64 by omega),
        unbase64_sextet (show b.toNat % 16 * 4 < 64 by omega), hpad, List.filterMap_nil, sextetBytes]
      rw [ofNat_eq_of_toNat (a := a) (by omega), ofNat_eq_of_toNat (a := b) (by omega)]
    | case4 a b c rest ih =>
      have ha := a.toNat_lt
      have hb := b.toNat_lt
      have hc := c.toNat_lt
      simp only [base64Encode, List.filterMap_cons, unbase64_sextet (show a.toNat / 4 < 64 by omega),
        unbase64_sextet (show a.toNat % 4 * 16 + b.toNat / 16 < 64 by omega),
        unbase64_sextet (show b.toNat % 16 * 4 + c.toNat / 64 < 64 by omega),
        unbase64_sextet (show c.toNat % 64 < 64 by omega), sextetBytes, ih]
      rw [ofNat_eq_of_toNat (a := a) (by omega), ofNat_eq_of_toNat (a := b) (by omega), ofNat_eq_of_toNat (a := c) (by omega)]
  rw [fromB64, toB64, base64, String.toList_ofList, hdecode]

/-! ## Model -/

structure JsError where
  name : String
  message : String
deriving DecidableEq, Repr

structure Libs where
  sha256 : Bytes → Digest
  aead : Aead Digest

/-- what the host answers during a step: random bytes, which may throw; whether there is WebCrypto; and what becomes of the
promise that the step resumes from, or of the cipher of Node that it calls -/
structure Host where
  secret : Except JsError (Vector UInt8 32)
  nonce : Except JsError Nonce
  subtle : Bool
  crypto : Except JsError Unit

structure KeyData where
  publicKey : Digest
  secret : Vector UInt8 32
deriving DecidableEq

/-- ids are keys of a `Map`: any values that can be told apart -/
structure KeyPair (κ : Type) where
  keyId : κ
  publicKey : String
  secret : String
deriving DecidableEq

structure Encrypted (κ : Type) where
  keyId : κ
  nonce : String
  ciphertext : String
  authTag : String
deriving DecidableEq

/-- the class `AbirGuard` -/
structure Vault (κ : Type) where
  keys : Finmap fun _ : κ => KeyData
  cache : Finmap fun _ : κ => Encrypted κ

def Vault.new {κ : Type} : Vault κ := ⟨∅, ∅⟩

variable {κ : Type} [DecidableEq κ]

abbrev VaultM (κ : Type) := Raise JsError (Vault κ)

variable (l : Libs) (η : Host)

def generateKeyPair (keyId : κ) : VaultM κ (KeyPair κ) := do
  let secret ← lift η.secret
  let publicKey := l.sha256 secret.toList
  modify fun g => { g with keys := g.keys.insert keyId ⟨publicKey, secret⟩ }
  pure ⟨keyId, toB64 publicKey.toList, toB64 secret.toList⟩

def deriveAesKey (secret : Vector UInt8 32) : Digest := l.sha256 (secret.toList ++ utf8 "Abir-Guard-PQC-2026")

/-- the result of `encrypt`: WebCrypto returns ciphertext and tag in one buffer, the tag in its last 16 bytes -/
def result (keyId : κ) (nonce : Nonce) (encrypted : Bytes) : Encrypted κ where
  keyId := keyId
  nonce := toB64 nonce.toList
  ciphertext := toB64 (encrypted.take (encrypted.length - 16))
  authTag := toB64 (encrypted.drop (encrypted.length - 16))

/-- the local variables of `encrypt` over an await: the key data that was read, the nonce, and the derived key -/
structure Locals where
  keyData : KeyData
  nonce : Nonce
  aesKey : Digest
deriving DecidableEq

/-- `encrypt` up to its first await, from the look-up of the key; none if the key was missing and is generated -/
def encryptBegin (keyId : κ) : VaultM κ (Option Locals) := do
  let g ← get
  match g.keys.lookup keyId with
  | some keyData => do
    let nonce ← lift η.nonce
    pure (some ⟨keyData, nonce, deriveAesKey l keyData.secret⟩)
  | none => do
    let _ ← generateKeyPair l η keyId
    pure none

/-- `encrypt` after the generation of a missing key, up to the next await -/
def encryptGenerated (keyId : κ) : VaultM κ Locals := do
  let g ← get
  let nonce ← lift η.nonce
  match g.keys.lookup keyId with
  | some keyData => pure ⟨keyData, nonce, deriveAesKey l keyData.secret⟩
  | none => throw ⟨"TypeError", "Cannot read properties of undefined (reading 'secret')"⟩

/-- the end of `encrypt` -/
def encryptEnd (keyId : κ) (nonce : Nonce) (encrypted : Bytes) : VaultM κ (Encrypted κ) := do
  let r := result keyId nonce encrypted
  modify fun g => { g with cache := g.cache.insert keyId r }
  pure r

/-- the cipher of Node, which encrypts in one step -/
def encryptNode (keyId : κ) (data : Except JsError Bytes) (locals : Locals) : VaultM κ (Encrypted κ) := do
  lift η.crypto
  let bytes ← lift data
  encryptEnd keyId locals.nonce (l.aead.encrypt locals.aesKey locals.nonce bytes)

/-- the call of `subtle.encrypt`, whose promise is for this buffer -/
def encryptSubtle (data : Except JsError Bytes) (locals : Locals) : VaultM κ Bytes := do
  lift η.crypto
  let bytes ← lift data
  pure (l.aead.encrypt locals.aesKey locals.nonce bytes)

def rotateKey (keyId : κ) : VaultM κ (KeyPair κ) := do
  modify fun g => { g with keys := g.keys.erase keyId }
  modify fun g => { g with cache := g.cache.erase keyId }
  generateKeyPair l η keyId

def deleteKey (keyId : κ) : VaultM κ PUnit := do
  modify fun g => { g with keys := g.keys.erase keyId }
  modify fun g => { g with cache := g.cache.erase keyId }

/-! ## Calls and their steps -/

/-- a call; the data of an encryption is what `Buffer.from` makes of it, which may throw -/
inductive Op (κ : Type) where
  | generateKeyPair (keyId : κ)
  | encrypt (keyId : κ) (data : Except JsError Bytes)
  | rotateKey (keyId : κ)
  | deleteKey (keyId : κ)

inductive Value (κ : Type) where
  | keyPair (kp : KeyPair κ)
  | encrypted (e : Encrypted κ)
  | undefined
deriving DecidableEq

/-- where a call is: before its first step, at an await, or settled -/
inductive Pc (κ : Type) where
  | start
  /-- after `await this.generateKeyPair(keyId)` -/
  | generated
  /-- after `await this._deriveAesKey(..)` -/
  | derived (locals : Locals)
  /-- after `await subtle.importKey(..)` -/
  | imported (locals : Locals)
  /-- after `await subtle.encrypt(..)`, which gives this buffer -/
  | sealed (locals : Locals) (encrypted : Bytes)
  | settled (r : Except JsError (Value κ))
deriving DecidableEq

structure Task (κ : Type) where
  op : Op κ
  pc : Pc κ

def afterBegin : Option Locals → Pc κ
  | some locals => .derived locals
  | none => .generated

/-- run a step: it leads to the next await, or settles the call if it throws -/
def goes {α : Type} (x : VaultM κ α) (next : α → Pc κ) (g : Vault κ) : Pc κ × Vault κ :=
  (match (Raise.run x g).1 with
    | .ok a => next a
    | .error e => .settled (.error e), (Raise.run x g).2)

def settles {α : Type} (x : VaultM κ α) (value : α → Value κ) (g : Vault κ) : Pc κ × Vault κ :=
  goes x (fun a => .settled (.ok (value a))) g

def firstStep (g : Vault κ) : Op κ → Pc κ × Vault κ
  | .generateKeyPair keyId => settles (generateKeyPair l η keyId) .keyPair g
  | .encrypt keyId _ => goes (encryptBegin l η keyId) afterBegin g
  | .rotateKey keyId => settles (rotateKey l η keyId) .keyPair g
  | .deleteKey keyId => settles (deleteKey keyId) (fun _ => .undefined) g

/-- a step of `encrypt` after an await -/
def encryptStep (g : Vault κ) (keyId : κ) (data : Except JsError Bytes) : Pc κ → Pc κ × Vault κ
  | .generated => goes (encryptGenerated l η keyId) .derived g
  | .derived locals =>
    if η.subtle then (.imported locals, g) else settles (encryptNode l η keyId data locals) .encrypted g
  | .imported locals => goes (encryptSubtle l η data locals) (.sealed locals) g
  | .sealed locals encrypted =>
    settles (do lift η.crypto; encryptEnd keyId locals.nonce encrypted) .encrypted g
  | pc => (pc, g)

def nextStep (g : Vault κ) (op : Op κ) : Pc κ → Pc κ × Vault κ
  | .start => firstStep l η g op
  | pc =>
    match op with
    | .encrypt keyId data => encryptStep l η g keyId data pc
    | _ => (pc, g)

/-- a task is one call -/
def exec (g : Vault κ) (t : Task κ) : Task κ × Vault κ :=
  let (pc, g) := nextStep l η g t.op t.pc
  (⟨t.op, pc⟩, g)

/-- the decryption of a ciphertext under a secret gives these bytes -/
def Decrypts (secret : Vector UInt8 32) (e : Encrypted κ) (bytes : Bytes) : Prop :=
  ∃ nonce : Nonce, fromB64 e.nonce = nonce.toList ∧
    l.aead.decrypt (deriveAesKey l secret) nonce (fromB64 e.ciphertext ++ fromB64 e.authTag) = some bytes

end AbirGuard.Js
