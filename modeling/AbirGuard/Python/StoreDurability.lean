/-
Do keys survive from one `EncryptedVault` to the next?

Every vault draws a salt of its own and none is written to the file, so a fresh vault derives another key and takes the
file for tampered with.

- `durable_iff`: a fresh vault gets back what any reachable vault saved, and what a migration stored, if and only if its salt
  happens to be the same and no string of the key map changes in JSON.
- `salt_is_lost`: two salts, and neither the saved key nor the migrated one is ever read again.
-/
import AbirGuard.Python.CryptoStore

namespace AbirGuard.Python.CryptoStore

open AbirGuard.Core Raise EncryptedVault

variable {F : Type} {c : Crates F}

/-! ## Runs of a vault -/

inductive Call (F : Type) where
  | storeKey (keyId : Text) (publicKey secretKey : Json F)
  | removeKey (keyId : Text)
  | addCanary
  | save
  | load
  /-- another process has changed the files -/
  | others (files : Files)

/-- the state after a call, which may have raised -/
def step (c : Crates F) (s : Store F) (call : Draw F × Call F) : Store F :=
  match call.2 with
  | .storeKey keyId publicKey secretKey => (run (storeKey call.1 keyId publicKey secretKey) s).2
  | .removeKey keyId => (run (removeKey keyId) s).2
  | .addCanary => (run (addCanary call.1) s).2
  | .save => (run (save c call.1) s).2
  | .load => (run (load c call.1) s).2
  | .others files => { s with files := files }

/-- what the key of a vault comes from -/
def source (s : Store F) : Text × Option Salt × Option Digest := (s.vault.passphrase, s.vault.salt, s.vault.masterKey)

theorem coherent_of_source {s t : Store F} (h : s.vault.Coherent c) (heq : source t = source s) : t.vault.Coherent c := by
  simp only [source, Prod.mk.injEq] at heq
  rw [Coherent, heq.1, heq.2.1, heq.2.2]
  exact h

theorem leaves_onObject (f : List (Text × Json F) → List (Text × Json F)) : Leaves source (do
    let s ← get
    let keys ← lift (onObject f s.vault.keys)
    update fun v => { v with keys := keys } : StoreM F Unit) :=
  leaves_bind leaves_get fun _ => leaves_bind (leaves_lift _) fun _ => leaves_modify fun _ => rfl

theorem leaves_storeKey (δ : Draw F) (keyId : Text) (publicKey secretKey : Json F) :
    Leaves source (storeKey δ keyId publicKey secretKey) := leaves_onObject _

/-- a program that derives the key first and then changes nothing that the key comes from -/
theorem coherent_getKey {α : Type} {δ : Draw F} {k : Digest → StoreM F α} (hk : ∀ key, Leaves source (k key)) {s : Store F}
    (h : s.vault.Coherent c) :
    (run (getKey c δ >>= k) s).2.vault.Coherent c ∧ (run (getKey c δ >>= k) s).2.vault.passphrase = s.vault.passphrase := by
  cases hp : s.vault.passphrase.encode with
  | none =>
    rw [run_bind, run_getKey_error h hp]
    exact ⟨h, rfl⟩
  | some p =>
    rw [run_bind_of_ok (run_getKey h hp)]
    have hsrc := hk (c.argon2id p (s.vault.salt.getD δ.salt))
      { s with vault := s.vault.keyed δ (c.argon2id p (s.vault.salt.getD δ.salt)) }
    exact ⟨coherent_of_source (coherent_keyed δ hp) hsrc, congrArg Prod.fst hsrc⟩

/-- the key of the vault is coherent, and its passphrase is this one -/
def Keeps (c : Crates F) (passphrase : Text) (s : Store F) : Prop := s.vault.Coherent c ∧ s.vault.passphrase = passphrase

theorem keeps_of_leaves {passphrase : Text} {s : Store F} {x : StoreM F Unit} (h : Keeps c passphrase s)
    (hx : Leaves source x) : Keeps c passphrase (run x s).2 :=
  ⟨coherent_of_source h.1 (hx s), (congrArg Prod.fst (hx s)).trans h.2⟩

theorem keeps_save {passphrase : Text} {s : Store F} (δ : Draw F) (h : Keeps c passphrase s) :
    Keeps c passphrase (run (save c δ) s).2 := by
  have hrest : ∀ key, Leaves source (do
      let s ← get
      let data ← lift (encodeUtf8 (Json.dumps c.float (some 2) s.vault.keys))
      let encrypted ← lift (encryptBlob c δ.nonce data key)
      modify fun s => { s with files := { s.files with keysEnc := some encrypted } } : StoreM F Unit) := fun key =>
    leaves_bind leaves_get fun _ => leaves_bind (leaves_lift _) fun _ => leaves_bind (leaves_lift _) fun _ =>
      leaves_modify fun _ => rfl
  obtain ⟨hcoh, hpass⟩ := coherent_getKey (δ := δ) hrest h.1
  exact ⟨hcoh, hpass.trans h.2⟩

theorem keeps_load {passphrase : Text} {s : Store F} (δ : Draw F) (h : Keeps c passphrase s) :
    Keeps c passphrase (run (load c δ) s).2 := by
  rw [load, run_get_bind]
  cases s.files.keysEnc with
  | none => exact h
  | some encrypted =>
    have hrest : ∀ key, Leaves source (do
        let data ← lift (decryptBlob c encrypted key)
        let keys ← lift (parse c data)
        update fun v => { v with keys := keys }
        return true : StoreM F Bool) := fun key =>
      leaves_bind (leaves_lift _) fun _ => leaves_bind (leaves_lift _) fun _ =>
        leaves_bind (leaves_modify fun _ => rfl) fun _ => leaves_pure _
    obtain ⟨hcoh, hpass⟩ := coherent_getKey (δ := δ) hrest h.1
    have hkeep := And.intro hcoh (hpass.trans h.2)
    dsimp only
    rw [run_tryCatch]
    revert hkeep
    rcases run (getKey c δ >>= fun key => (do
        let data ← lift (decryptBlob c encrypted key)
        let keys ← lift (parse c data)
        update fun v => { v with keys := keys }
        return true : StoreM F Bool)) s with ⟨e | b, t⟩
    · intro hkeep
      dsimp only
      rw [run_ite]
      split_ifs
      · exact hkeep
      · exact hkeep
    · exact id

theorem keeps_step {passphrase : Text} {s : Store F} (call : Draw F × Call F) (h : Keeps c passphrase s) :
    Keeps c passphrase (step c s call) := by
  obtain ⟨δ, call⟩ := call
  cases call with
  | storeKey keyId publicKey secretKey => exact keeps_of_leaves h (leaves_storeKey δ keyId publicKey secretKey)
  | removeKey keyId => exact keeps_of_leaves h (leaves_onObject _)
  | addCanary => exact keeps_of_leaves h (leaves_storeKey δ _ _ _)
  | save => exact keeps_save δ h
  | load => exact keeps_load δ h
  | others files => exact h

/-- a process that has just built its vault -/
def start (files : Files) (passphrase : Text) : Store F := ⟨files, .new passphrase⟩

theorem keeps_run (files : Files) (passphrase : Text) (calls : List (Draw F × Call F)) :
    Keeps c passphrase (Run.after (step c) (start files passphrase) calls) :=
  Run.after_inv (fun call _ _ h => keeps_step call h) ⟨coherent_new passphrase, rfl⟩

/-! ## The vault of a migration -/

theorem leaves_storeAll (entries : List (Draw F × Json F)) :
    Leaves (fun s => (source s, s.files)) (storeAll c entries) := by
  induction entries with
  | nil => exact leaves_pure _
  | cons e rest ih =>
    refine leaves_bind (leaves_lift _) fun _ => leaves_bind (leaves_lift _) fun _ => leaves_bind (leaves_lift _) fun _ => ?_
    refine leaves_bind (leaves_lift _) fun _ => leaves_bind ?_ fun _ => ih
    exact leaves_bind leaves_get fun _ => leaves_bind (leaves_lift _) fun _ => leaves_modify fun _ => rfl

/-- the key map that the entries of the old file make up -/
def Migrated (c : Crates F) (δs : ℕ → Draw F) (files : Files) (passphrase : Text) (keys : Json F) : Prop :=
  ∃ old v entries t, files.keysJson = some old ∧ Json.loads c.float old = some v ∧ items v = .ok entries ∧
    run (storeAll c (entries.zipIdx.map fun e => (δs e.2, e.1))) (start files passphrase) = (.ok (), t) ∧ t.vault.keys = keys

/-- **What a migration that succeeds leaves**: a blob of the migrated key map, and no plaintext file. -/
theorem migrate_ok {δ : Draw F} {δs : ℕ → Draw F} {passphrase : Text} {files files' : Files}
    (h : run (migratePlaintextVault c δ δs passphrase) files = (.ok true, files')) :
    ∃ keys p data b, Migrated c δs files passphrase keys ∧ passphrase.encode = some p ∧
      (Json.dumps c.float (some 2) keys).encode = some data ∧
      encryptBlob c δ.nonce data (c.argon2id p δ.salt) = .ok b ∧ files' = ⟨some b, none⟩ := by
  rw [migratePlaintextVault, run_get_bind] at h
  cases hold : files.keysJson with
  | none =>
    rw [hold] at h
    cases h
  | some old =>
    rw [hold] at h
    dsimp only at h
    rw [run_tryCatch, run_bind, run_zoom] at h
    rcases hbody : run (migrateBody c δ δs old) ⟨files, .new passphrase⟩ with ⟨e | u, s'⟩
    all_goals rw [hbody] at h
    · cases h
    · cases h
      rw [migrateBody] at hbody
      obtain ⟨v, hv, hbody⟩ := run_lift_bind_eq_ok hbody
      obtain ⟨entries, hitems, hbody⟩ := run_lift_bind_eq_ok hbody
      obtain ⟨u₁, t, hstore, hbody⟩ := run_bind_eq_ok hbody
      obtain ⟨u₂, t', hsave, hbody⟩ := run_bind_eq_ok hbody
      cases hbody
      have hleaves := leaves_storeAll (c := c) (entries.zipIdx.map fun e => (δs e.2, e.1)) ⟨files, .new passphrase⟩
      rw [hstore] at hleaves
      have hcoh : t.vault.Coherent c := coherent_of_source (coherent_new passphrase) (congrArg Prod.fst hleaves)
      have hpass : t.vault.passphrase = passphrase := congrArg (fun x => x.1.1) hleaves
      have hsalt : t.vault.salt = none := congrArg (fun x => x.1.2.1) hleaves
      obtain ⟨p, data, b, hp, hdata, hb, rfl⟩ := save_ok hcoh hsave
      rw [hsalt, Option.getD_none] at hb
      have hparse : Json.loads c.float old = some v := by
        cases hl : Json.loads c.float old with
        | none =>
          rw [hl] at hv
          cases hv
        | some v' =>
          rw [hl] at hv
          cases hv
          rfl
      exact ⟨t.vault.keys, p, data, b, ⟨old, v, entries, t, hold, hparse, hitems, hstore, rfl⟩, hpass ▸ hp, hdata, hb, rfl⟩

/-! ## What a fresh vault gets back -/

/-- **A fresh vault gets back what was saved or migrated** if and only if it draws the salt of the vault that wrote the file
and no string of the key map changes in JSON. -/
theorem durable_iff (c : Crates F) (hA : c.gcm.Correct) (hmac : ∀ m, Function.Injective fun k => c.hmac k m)
    (hkdf : ∀ p, Function.Injective (c.argon2id p)) (hT : c.float.Lawful) (files : Files) (passphrase : Text) :
    (∀ calls δ s', run (save c δ) (Run.after (step c) (start files passphrase) calls) = (.ok (), s') →
      ∀ δ', Loads c δ' s'.files passphrase s'.vault.keys ↔
        (Run.after (step c) (start files passphrase) calls).vault.salt.getD δ.salt = δ'.salt ∧
        (Run.after (step c) (start files passphrase) calls).vault.keys.Clean) ∧
    (∀ δ δs files', run (migratePlaintextVault c δ δs passphrase) files = (.ok true, files') →
      files'.keysJson = none ∧ ∃ keys, Migrated c δs files passphrase keys ∧
        ∀ δ', Loads c δ' files' passphrase keys ↔ δ.salt = δ'.salt ∧ keys.Clean) := by
  constructor
  · intro calls δ s' hs δ'
    obtain ⟨hcoh, hpass⟩ := keeps_run (c := c) files passphrase calls
    obtain ⟨p, data, b, hp, hdata, hb, rfl⟩ := save_ok hcoh hs
    rw [hpass] at hp
    have hfile : ({ (Run.after (step c) (start files passphrase) calls).files with keysEnc := some b } : Files).keysEnc =
        some b := rfl
    exact (loads_iff hA hmac hT hp hdata hb hfile).trans (and_congr_left' ((hkdf p).eq_iff.trans eq_comm))
  · intro δ δs files' h
    obtain ⟨keys, p, data, b, hmig, hp, hdata, hb, rfl⟩ := migrate_ok h
    refine ⟨rfl, keys, hmig, fun δ' => ?_⟩
    have hfile : (⟨some b, none⟩ : Files).keysEnc = some b := rfl
    exact (loads_iff hA hmac hT hp hdata hb hfile).trans (and_congr_left' ((hkdf p).eq_iff.trans eq_comm))

/-! ## Two salts -/

/-- the salt and sixteen zeros, MACs that are the key, floats of one value; the cipher appends sixteen zeros -/
def saltCrates : Crates Unit where
  argon2id _ salt := Vector.append salt (Vector.replicate 16 0)
  gcm :=
    { encrypt _ _ p := p ++ List.replicate 16 0
      decrypt _ _ b := some (b.take (b.length - 16)) }
  hmac key _ := key
  float := ⟨fun _ => ⟨false, [0], some [0], none⟩, fun _ => ()⟩
  decodeError _ := []
  jsonError _ := []

theorem saltCrates_gcm : saltCrates.gcm.Correct where
  decrypt_encrypt k n p := by simp [saltCrates]
  length_encrypt k n p := by simp [saltCrates]

theorem saltCrates_hmac (m : Bytes) : Function.Injective fun k => saltCrates.hmac k m := fun _ _ h => h

theorem saltCrates_argon2id (p : Bytes) : Function.Injective (saltCrates.argon2id p) := by
  intro salt salt' h
  exact (Vector.append_left_inj (Vector.replicate 16 0)).1 h

theorem saltCrates_float : saltCrates.float.Lawful where
  valid _ := ⟨Or.inl rfl, by simp [saltCrates], by simp [saltCrates]⟩
  isFloat _ := Or.inl rfl
  ofToken_token _ := rfl

/-- a draw whose salt repeats one byte -/
def saltDraw (b : UInt8) : Draw Unit := ⟨Vector.replicate 16 b, Vector.replicate 12 0, (), Vector.replicate 8 0⟩

def noFiles : Files := ⟨none, none⟩

/-- an old file with one entry -/
def oldFiles : Files := ⟨none, some "[\x7b\"key_id\": \"a\", \"public_key\": \"p\", \"secret_key\": \"s\"\x7d]"⟩

def oneKey : List (Draw Unit × Call Unit) := [(saltDraw 0, .storeKey "a" (.str "p") (.str "s"))]

def savedStore : Store Unit := (run (save saltCrates (saltDraw 0)) (Run.after (step saltCrates) (start noFiles "pw") oneKey)).2

def migratedFiles : Files := (run (migratePlaintextVault saltCrates (saltDraw 0) (fun _ => saltDraw 0) "pw") oldFiles).2

theorem eq_of_fst {α β : Type} {x : α × β} {a : α} (h : x.1 = a) : x = (a, x.2) := Prod.ext h rfl

theorem saved : run (save saltCrates (saltDraw 0)) (Run.after (step saltCrates) (start noFiles "pw") oneKey) =
    (.ok (), savedStore) := eq_of_fst (by decide +kernel)

theorem migrated : run (migratePlaintextVault saltCrates (saltDraw 0) (fun _ => saltDraw 0) "pw") oldFiles =
    (.ok true, migratedFiles) := eq_of_fst (by decide +kernel)

theorem durable_iff_same_salt :
    (Loads saltCrates (saltDraw 0) savedStore.files "pw" savedStore.vault.keys ↔
      (Run.after (step saltCrates) (start noFiles "pw") oneKey).vault.salt.getD (saltDraw 0).salt = (saltDraw 0).salt ∧
      (Run.after (step saltCrates) (start noFiles "pw") oneKey).vault.keys.Clean) ∧
    migratedFiles.keysJson = none ∧ ∃ keys, Migrated saltCrates (fun _ => saltDraw 0) oldFiles "pw" keys ∧
      (Loads saltCrates (saltDraw 0) migratedFiles "pw" keys ↔ (saltDraw 0).salt = (saltDraw 0).salt ∧ keys.Clean) := by
  refine ⟨?_, ?_⟩
  · exact (durable_iff saltCrates saltCrates_gcm saltCrates_hmac saltCrates_argon2id saltCrates_float noFiles "pw").1
      oneKey (saltDraw 0) savedStore saved (saltDraw 0)
  · obtain ⟨hnone, keys, hkeys, hiff⟩ := (durable_iff saltCrates saltCrates_gcm saltCrates_hmac saltCrates_argon2id
      saltCrates_float oldFiles "pw").2 (saltDraw 0) (fun _ => saltDraw 0) migratedFiles migrated
    exact ⟨hnone, keys, hkeys, hiff (saltDraw 0)⟩

/-- what a vault with another salt makes of a file -/
def otherSalt (files : Files) : Except Exc Bool := (run (load saltCrates (saltDraw 1)) (start files "pw")).1

theorem salt_is_lost :
    run (save saltCrates (saltDraw 0)) (Run.after (step saltCrates) (start noFiles "pw") oneKey) = (.ok (), savedStore) ∧
    otherSalt savedStore.files = .error ⟨.valueError, "Vault load failed: Tamper detected: HMAC verification failed"⟩ ∧
    run (migratePlaintextVault saltCrates (saltDraw 0) (fun _ => saltDraw 0) "pw") oldFiles = (.ok true, migratedFiles) ∧
    migratedFiles.keysJson = none ∧
    otherSalt migratedFiles = .error ⟨.valueError, "Vault load failed: Tamper detected: HMAC verification failed"⟩ :=
  ⟨saved, by decide +kernel, migrated, by decide +kernel, by decide +kernel⟩

end AbirGuard.Python.CryptoStore
