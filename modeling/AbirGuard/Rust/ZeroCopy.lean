/-
The key map and its cache: `ZeroCopyVault` of `src/zero_copy.rs`.

A map replaces what an id had: of several key pairs generated for an id the latest stays. The lock is held over every
encryption and decryption, so that a panic in one of them poisons the map. The iteration order of a hash map is not
determined; what its first key is comes with the call.

- `generateKeypair_secret`: what an id has after a generation.
- `store_ok_iff`, `store_data`, `store_poisoned`: what a store returns and leaves.
- `retrieve_ok_iff`, `retrieve_data`, `retrieve_poisoned`: the same for a retrieval.
-/
import AbirGuard.Rust.Kernel
import Mathlib.Data.Finmap

namespace AbirGuard.Rust

open AbirGuard.Core

/-! ## Model -/

def MAX_CACHE_ENTRIES : ℕ := 100

structure ZeroCopyVault where
  /-- secret key in text form, and secret -/
  keys : Mutex (Finmap fun _ : String => String × Bytes)
  cache : Mutex (Finmap fun _ : String => Bytes)

namespace ZeroCopyVault

def new : ZeroCopyVault := ⟨Mutex.new ∅, Mutex.new ∅⟩

section

variable {Key : Type} (c : Crates Key)

/-- returns the public key -/
def generateKeypair (v : ZeroCopyVault) (keyId : String) (seed : Bytes) : Outcome String × ZeroCopyVault :=
  let (kp, sk) := keygen c seed
  match v.keys.lock with
  | .error p => (.error p, v)
  | .ok keys => (.ok kp.publicKey, { v with keys := { v.keys with data := keys.insert keyId (kp.secretKey, sk) } })

def store (v : ZeroCopyVault) (keyId : String) (plaintext : Bytes) (δ : Draw) :
    Outcome (Except String Ciphertext) × ZeroCopyVault :=
  match v.keys.lock with
  | .error p => (.error p, v)
  | .ok keys =>
    match keys.lookup keyId with
    | none => (.ok (.error "Key not found"), v)
    | some (_, sk) =>
      let o := encrypt c δ plaintext sk
      (.ok <$> o, { v with keys := v.keys.release o })

def retrieve (v : ZeroCopyVault) (keyId : String) (ct : Ciphertext) (elapsed : ℕ) :
    Outcome (Except String Bytes) × ZeroCopyVault :=
  match v.keys.lock with
  | .error p => (.error p, v)
  | .ok keys =>
    match keys.lookup keyId with
    | none => (.ok (.error "Key not found"), v)
    | some (_, sk) =>
      let o := decrypt c elapsed ct sk
      (o, { v with keys := v.keys.release o })

end

/-- `firstKey` is what `keys().next()` returns on the cache -/
def cacheWrite (v : ZeroCopyVault) (keyId : String) (data : Bytes) (firstKey : Option String) : Outcome Unit × ZeroCopyVault :=
  match v.cache.lock with
  | .error p => (.error p, v)
  | .ok cache =>
    let cache :=
      if cache.keys.card ≥ MAX_CACHE_ENTRIES then
        match firstKey with
        | some key => cache.erase key
        | none => cache
      else cache
    (.ok (), { v with cache := { v.cache with data := cache.insert keyId data } })

def cacheRead (v : ZeroCopyVault) (keyId : String) : Outcome (Option Bytes) := (fun cache => cache.lookup keyId) <$> v.cache.lock

def clearCache (v : ZeroCopyVault) : Outcome Unit × ZeroCopyVault :=
  match v.cache.lock with
  | .error p => (.error p, v)
  | .ok _ => (.ok (), { v with cache := { v.cache with data := ∅ } })

/-! ## What the calls do -/

/-- the secret of an id -/
def secret (v : ZeroCopyVault) (keyId : String) : Option Bytes := (v.keys.data.lookup keyId).map Prod.snd

variable {Key : Type} {c : Crates Key}

theorem generateKeypair_ok_iff (v : ZeroCopyVault) (keyId : String) (seed : Bytes) (publicKey : String) :
    (v.generateKeypair c keyId seed).1 = .ok publicKey ↔
      v.keys.poisoned = false ∧ publicKey = (keygen c seed).1.publicKey := by
  cases hp : v.keys.poisoned with
  | true =>
    obtain ⟨p, hlock⟩ := Mutex.lock_poisoned hp
    simp [generateKeypair, hlock]
  | false => simp [generateKeypair, Mutex.lock_of hp, keygen, eq_comm]

theorem generateKeypair_poisoned (v : ZeroCopyVault) (keyId : String) (seed : Bytes) :
    (v.generateKeypair c keyId seed).2.keys.poisoned = v.keys.poisoned := by
  cases hp : v.keys.poisoned with
  | true =>
    obtain ⟨p, hlock⟩ := Mutex.lock_poisoned hp
    simp [generateKeypair, hlock, hp]
  | false => simp [generateKeypair, Mutex.lock_of hp, hp]

/-- the latest secret of an id replaces the one it had -/
theorem generateKeypair_secret {v : ZeroCopyVault} (h : v.keys.poisoned = false) (keyId id : String) (seed : Bytes) :
    (v.generateKeypair c keyId seed).2.secret id = if keyId = id then some seed else v.secret id := by
  simp only [generateKeypair, Mutex.lock_of h, secret, keygen]
  split_ifs with hid
  · rw [hid, Finmap.lookup_insert, Option.map_some]
  · rw [Finmap.lookup_insert_of_ne _ (Ne.symm hid)]

/-- what a store returns -/
theorem store_ok_iff (v : ZeroCopyVault) (keyId : String) (plaintext : Bytes) (δ : Draw) (ct : Ciphertext) :
    (v.store c keyId plaintext δ).1 = .ok (.ok ct) ↔
      v.keys.poisoned = false ∧ ∃ sk, v.secret keyId = some sk ∧ encrypt c δ plaintext sk = .ok ct := by
  cases hp : v.keys.poisoned with
  | true =>
    obtain ⟨p, hlock⟩ := Mutex.lock_poisoned hp
    simp [store, hlock]
  | false =>
    simp only [store, Mutex.lock_of hp, secret]
    cases v.keys.data.lookup keyId with
    | none => simp
    | some e => cases he : encrypt c δ plaintext e.2 <;> simp [he]

/-- a store changes no key -/
theorem store_data (v : ZeroCopyVault) (keyId : String) (plaintext : Bytes) (δ : Draw) :
    (v.store c keyId plaintext δ).2.keys.data = v.keys.data := by
  unfold store
  cases v.keys.lock with
  | error p => rfl
  | ok keys =>
    dsimp only
    cases keys.lookup keyId <;> simp

/-- a store that panics leaves the lock poisoned -/
theorem store_poisoned (v : ZeroCopyVault) (keyId : String) (plaintext : Bytes) (δ : Draw) :
    (v.store c keyId plaintext δ).2.keys.poisoned = true ↔
      v.keys.poisoned = true ∨ ∃ sk p, v.secret keyId = some sk ∧ encrypt c δ plaintext sk = .error p := by
  cases hp : v.keys.poisoned with
  | true =>
    obtain ⟨p, hlock⟩ := Mutex.lock_poisoned hp
    simp [store, hlock, hp]
  | false =>
    simp only [store, Mutex.lock_of hp, secret]
    cases v.keys.data.lookup keyId with
    | none => simp [hp]
    | some e => simp [hp]

/-- what a retrieval returns -/
theorem retrieve_ok_iff (v : ZeroCopyVault) (keyId : String) (ct : Ciphertext) (elapsed : ℕ) (plaintext : Bytes) :
    (v.retrieve c keyId ct elapsed).1 = .ok (.ok plaintext) ↔
      v.keys.poisoned = false ∧ ∃ sk, v.secret keyId = some sk ∧ decrypt c elapsed ct sk = .ok (.ok plaintext) := by
  cases hp : v.keys.poisoned with
  | true =>
    obtain ⟨p, hlock⟩ := Mutex.lock_poisoned hp
    simp [retrieve, hlock]
  | false =>
    simp only [retrieve, Mutex.lock_of hp, secret]
    cases v.keys.data.lookup keyId <;> simp

/-- a retrieval changes no key -/
theorem retrieve_data (v : ZeroCopyVault) (keyId : String) (ct : Ciphertext) (elapsed : ℕ) :
    (v.retrieve c keyId ct elapsed).2.keys.data = v.keys.data := by
  unfold retrieve
  cases v.keys.lock with
  | error p => rfl
  | ok keys =>
    dsimp only
    cases keys.lookup keyId <;> simp

/-- a retrieval that panics leaves the lock poisoned -/
theorem retrieve_poisoned (v : ZeroCopyVault) (keyId : String) (ct : Ciphertext) (elapsed : ℕ) :
    (v.retrieve c keyId ct elapsed).2.keys.poisoned = true ↔
      v.keys.poisoned = true ∨ ∃ sk p, v.secret keyId = some sk ∧ decrypt c elapsed ct sk = .error p := by
  cases hp : v.keys.poisoned with
  | true =>
    obtain ⟨p, hlock⟩ := Mutex.lock_poisoned hp
    simp [retrieve, hlock, hp]
  | false =>
    simp only [retrieve, Mutex.lock_of hp, secret]
    cases v.keys.data.lookup keyId with
    | none => simp [hp]
    | some e => simp [hp]

end ZeroCopyVault

end AbirGuard.Rust
