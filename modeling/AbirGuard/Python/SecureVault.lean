/-
The vault with a hardware key store (`abir_hsm.py`): what the copies in the store are good for.

`SecureVault` puts the secret key of each key pair that it generates into an `HSMKeyStore`. The vault replaces keys without it,
where a policy says so or a call of the vault itself does, and generates keys for unknown ids; the store is not told.

- `retrieve_storeSecret`, `retrieve_deleteSecret`: what the store gives after a store and after a deletion.
- `copied_iff`: the copy of an id is its live secret exactly if the id was generated through `SecureVault`, and neither replaced
  in the vault nor deleted in the store since.
- `copy_opens_iff`: so the copy at the end of a run opens a ciphertext exactly if its key was copied when it was made, and the
  copy was not touched after that, whatever became of the key in the vault.
-/
import AbirGuard.Core.Utf8Lossy
import AbirGuard.Python.HsmKeyStore
import AbirGuard.Python.McpRoundTrip

namespace AbirGuard.Python.HsmKeyStore

open AbirGuard.Core

/-! ## Deletion -/

section

variable {π : Type} [DecidableEq π]

def Store.unlink (st : Store π) (path : π) : Store π := { st with files := Function.update st.files path none }

def Store.deletePassword (st : Store π) (account : Text) : Store π :=
  { st with keyring := Function.update st.keyring account none }

namespace HSMKeyStore

variable (env : Env π) (self : HSMKeyStore)

/-- a password that is not there raises, and so does the import of a module that is not there -/
def deleteKeychain (keyId : Text) (st : Store π) : Bool × Store π :=
  if env.keyringModule ∧ (st.keyring keyId).isSome then (true, st.deletePassword keyId) else (false, st)

def deleteFile (keyId : Text) (st : Store π) : Bool × Store π :=
  match env.resolve keyId with
  | some path => if (st.files path).isSome then (true, st.unlink path) else (false, st)
  | none => (false, st)

def deleteCredential (keyId : Text) (st : Store π) : Bool × Store π := deleteFile env keyId st

def deleteSecret (keyId : Text) (st : Store π) : Bool × Store π :=
  if self.backend = ("keychain" : Text) then deleteKeychain env keyId st
  else if self.backend = ("credential_manager" : Text) then deleteCredential env keyId st
  else if self.backend = ("file" : Text) then deleteFile env keyId st
  else (false, st)

theorem deleteSecret_eq (keyId : Text) (st : Store π) : deleteSecret env self keyId st =
    match route env self with
    | .keyring => deleteKeychain env keyId st
    | .files => deleteFile env keyId st
    | .fallback | .nowhere => (false, st) := by
  unfold deleteSecret route deleteCredential
  split_ifs <;> simp_all [deleteKeychain]

end HSMKeyStore

end

/-! ## What is in the store -/

namespace HSMKeyStore

section

variable {π : Type} {env : Env π} {self : HSMKeyStore} {keyId keyId' : Text}

/-- where a secret is looked for: under an account of the keyring, or in a file -/
def slot (env : Env π) (self : HSMKeyStore) (keyId : Text) : Option (Text ⊕ π) :=
  match route env self with
  | .keyring => some (.inl keyId)
  | .files => (env.resolve keyId).map .inr
  | .fallback | .nowhere => none

/-- the content of a slot -/
def read (env : Env π) (st : Store π) : Text ⊕ π → Option Bytes
  | .inl account => retrieveKeychain env account st
  | .inr path => ((st.files path).bind b64decodeBytes).map (protect (getMachineId env))

theorem retrieveSecret_eq_read (keyId : Text) (st : Store π) :
    retrieveSecret env self keyId st = (slot env self keyId).bind (read env st) := by
  rw [retrieveSecret_eq, slot]
  cases route env self with
  | keyring => rfl
  | fallback => rfl
  | nowhere => rfl
  | files =>
    cases hpath : env.resolve keyId with
    | none => simp [retrieveFile, hpath]
    | some path =>
      simp only [retrieveFile, hpath, Option.map_some, Option.bind_some, read, Option.bind_eq_bind]
      cases st.files path with
      | none => rfl
      | some content =>
        rw [Option.bind_some, Option.bind_some]
        cases b64decodeBytes content <;> rfl

theorem read_deleteKeychain (st : Store π) (account : Text) : read env (deleteKeychain env keyId st).2 (.inl account) =
    if keyId = account then none else read env st (.inl account) := by
  unfold deleteKeychain read retrieveKeychain
  by_cases hmodule : env.keyringModule = true
  · by_cases hsame : keyId = account
    · subst hsame
      cases hpassword : st.keyring keyId <;> simp [hmodule, hpassword, Store.deletePassword]
    · rw [if_neg hsame]
      split_ifs
      · simp only [Store.deletePassword, Function.update_of_ne (Ne.symm hsame)]
      · rfl
  · simp [hmodule]

variable [DecidableEq π]

theorem read_deleteFile (st : Store π) (path : π) : read env (deleteFile env keyId st).2 (.inr path) =
    if env.resolve keyId = some path then none else read env st (.inr path) := by
  unfold deleteFile read
  cases hpath : env.resolve keyId with
  | none => rfl
  | some path' =>
    dsimp only
    by_cases hsame : path' = path
    · subst hsame
      rw [if_pos rfl]
      cases hfile : st.files path' <;> simp [hfile, Store.unlink]
    · rw [if_neg fun h => hsame (Option.some.inj h)]
      split_ifs
      · simp only [Store.unlink, Function.update_of_ne (Ne.symm hsame)]
      · rfl

/-- a deletion empties a slot, and no other -/
theorem read_deleteSecret (st : Store π) {a : Text ⊕ π} (ha : slot env self keyId' = some a) :
    read env (deleteSecret env self keyId st).2 a = if slot env self keyId = some a then none else read env st a := by
  rw [deleteSecret_eq]
  unfold slot at ha ⊢
  cases hroute : route env self with
  | fallback =>
    rw [hroute] at ha
    cases ha
  | nowhere =>
    rw [hroute] at ha
    cases ha
  | keyring =>
    rw [hroute] at ha
    obtain rfl := Option.some.inj ha
    simpa using @read_deleteKeychain π env keyId st keyId'
  | files =>
    rw [hroute] at ha
    obtain ⟨path, -, rfl⟩ := Option.map_eq_some_iff.1 ha
    simpa using @read_deleteFile π env keyId _ st path

theorem read_storeFile (hdir : env.mkdirOk) (hmachine : getMachineId env ≠ []) (secret : Bytes) (st : Store π) (path : π) :
    read env (storeFile env keyId secret st).2 (.inr path) =
      if env.resolve keyId = some path then some secret else read env st (.inr path) := by
  unfold storeFile read
  cases hpath : env.resolve keyId with
  | none => simp [hdir]
  | some path' =>
    by_cases hsame : path' = path
    · subst hsame
      have hself := protect_protect (getMachineId env) secret
      rw [if_neg hmachine] at hself
      simp [hdir, Store.writeBytes, b64decodeBytes_b64encodeBytes, hself]
    · rw [if_neg fun h => hsame (Option.some.inj h)]
      simp [hdir, Store.writeBytes, Function.update_of_ne (Ne.symm hsame)]

/-- a store that can succeed fills a slot, and no other -/
theorem read_storeSecret (hfiles : route env self = .files → env.mkdirOk ∧ getMachineId env ≠ []) {secret : Bytes}
    (hsecret : secret ≠ []) (st : Store π) {a : Text ⊕ π} (ha : slot env self keyId' = some a) :
    read env (storeSecret env self keyId secret st).2 a =
      if slot env self keyId = some a then some secret else read env st a := by
  rw [storeSecret_eq]
  unfold slot at ha ⊢
  cases hroute : route env self with
  | fallback =>
    rw [hroute] at ha
    cases ha
  | nowhere =>
    rw [hroute] at ha
    cases ha
  | keyring =>
    rw [hroute] at ha
    obtain rfl := Option.some.inj ha
    have hmodule : env.keyringModule := by
      unfold route at hroute
      split_ifs at hroute with _ h
      exact h
    dsimp only
    by_cases hsame : keyId = keyId'
    · subst hsame
      rw [if_pos rfl, read, retrieveKeychain_stored hmodule, if_neg hsecret]
    · rw [if_neg fun h => hsame (by simpa using h), read, retrieveKeychain_other (Ne.symm hsame)]
      rfl
  | files =>
    rw [hroute] at ha
    obtain ⟨path, -, rfl⟩ := Option.map_eq_some_iff.1 ha
    obtain ⟨hdir, hmachine⟩ := hfiles hroute
    simpa using read_storeFile hdir hmachine secret st path

end

end HSMKeyStore

end AbirGuard.Python.HsmKeyStore

namespace AbirGuard.Python

open AbirGuard.Core Raise
open HsmKeyStore (Env Store HSMKeyStore)
open HsmKeyStore.HSMKeyStore (storeSecret retrieveSecret deleteSecret slot read route getMachineId)
open Vault (drawn draw)

/-! ## The vault and the store -/

structure SecureVault (π : Type) where
  vault : Session
  hsm : Option HSMKeyStore
  /-- files and keyring of the user -/
  machine : Store π

namespace SecureVault

variable {π : Type} [DecidableEq π]

section Model

variable (l : Libs) (env : Env π) (η : Host)

def new (mlkemFips : Bool) (useHsm : Bool) (hsmBackend : Text) (machine : Store π) : SecureVault π where
  vault := Vault.start η false mlkemFips
  hsm := if useHsm then some (HSMKeyStore.new env hsmBackend) else none
  machine := machine

/-- a method of the vault in it -/
def onVault {α : Type} (x : VaultM α) : Raise Exc (SecureVault π) α := zoom vault (fun v s => { s with vault := v }) x

/-- nothing looks at what the store answers -/
def generateKeypair (keyId : Text) : Raise Exc (SecureVault π) (Text × Text) := do
  let (pub, sec) ← onVault (Vault.generateKeypair l η keyId)
  let s ← get
  match s.hsm with
  | some hsm => do
    let secret ← lift (encodeUtf8 sec)
    modify fun s => { s with machine := (storeSecret env hsm keyId secret s.machine).2 }
    return (pub, sec)
  | none => return (pub, sec)

def store (ηRotate : Host) (keyId : Text) (data : Bytes) : Raise Exc (SecureVault π) Ciphertext :=
  onVault (Vault.store l η ηRotate keyId data)

def retrieve (keyId : Text) (ciphertext : Ciphertext) : Raise Exc (SecureVault π) Bytes :=
  onVault (Vault.retrieve l η keyId ciphertext)

end Model

/-- calls of the vault with the store, of the vault in it, and deletions in the store -/
inductive Call where
  | generateKeypair (keyId : Text)
  | store (ηRotate : Host) (keyId : Text) (data : Bytes)
  | retrieve (keyId : Text) (ciphertext : Ciphertext)
  | onVault (call : Vault.Call)
  | deleteSecret (keyId : Text)

def step (l : Libs) (env : Env π) (s : SecureVault π) : Host × Call → SecureVault π
  | (η, .generateKeypair keyId) => (run (generateKeypair l env η keyId) s).2
  | (η, .store ηRotate keyId data) => (run (store l η ηRotate keyId data) s).2
  | (η, .retrieve keyId ciphertext) => (run (retrieve l η keyId ciphertext) s).2
  | (η, .onVault call) => { s with vault := Vault.step l s.vault (η, call) }
  | (_, .deleteSecret keyId) =>
    match s.hsm with
    | some hsm => { s with machine := (deleteSecret env hsm keyId s.machine).2 }
    | none => s

/-- the call of the vault that a call makes -/
def vaultCall : Host × Call → Option (Host × Vault.Call)
  | (η, .generateKeypair keyId) => some (η, .generateKeypair keyId)
  | (η, .store ηRotate keyId data) => some (η, .store ηRotate keyId data)
  | (η, .retrieve keyId ciphertext) => some (η, .retrieve keyId ciphertext)
  | (η, .onVault call) => some (η, call)
  | (_, .deleteSecret _) => none

/-- what the store has of an id -/
def copy (env : Env π) (s : SecureVault π) (keyId : Text) : Option Bytes :=
  s.hsm.bind fun hsm => retrieveSecret env hsm keyId s.machine

variable {l : Libs} {env : Env π}

/-- the secret as the store gets it -/
def encoded (secret : Bytes) : Bytes := utf8 (base64.encode secret)

theorem run_generateKeypair (η : Host) (keyId : Text) (s : SecureVault π) : (run (generateKeypair l env η keyId) s).2 =
    if validateKeyId keyId = .ok keyId then
      { s with
        vault := Vault.step l s.vault (η, .generateKeypair keyId)
        machine := s.hsm.elim s.machine fun hsm => (storeSecret env hsm keyId (encoded η.secret.toList) s.machine).2 }
    else s := by
  have hencoded : encodeUtf8 (b64encode η.secret.toList) = .ok (encoded η.secret.toList) :=
    encodeUtf8_ok (Text.encode_ofString _)
  have hstep : Vault.step l s.vault (η, .generateKeypair keyId) = (run (Vault.generateKeypair l η keyId) s.vault).2 :=
    Vault.run_ignore _ _
  rw [generateKeypair, run_bind, onVault, run_zoom]
  rcases Vault.validateKeyId_cases keyId with hid | ⟨e, he⟩
  · have hresult : (run (Vault.generateKeypair l η keyId) s.vault).1 =
        .ok (b64encode η.secret.toList, b64encode η.secret.toList) := by
      rw [Vault.generateKeypair, run_lift_bind, hid]
      rfl
    rw [hresult, if_pos hid, hstep]
    dsimp only
    rw [run_get_bind]
    cases s.hsm with
    | none => rfl
    | some hsm =>
      dsimp only
      rw [run_lift_bind, hencoded]
      rfl
  · have hresult : run (Vault.generateKeypair l η keyId) s.vault = (.error e, s.vault) := by
      rw [Vault.generateKeypair, run_lift_bind, he]
    rw [hresult, if_neg fun h => by rw [he] at h; cases h]

/-! ## Steps -/

/-- the vault in it follows its own calls -/
theorem vault_step (s : SecureVault π) (c : Host × Call) :
    (step l env s c).vault = (vaultCall c).elim s.vault (Vault.step l s.vault) := by
  obtain ⟨η, keyId | ⟨ηRotate, keyId, data⟩ | ⟨keyId, ct⟩ | call | keyId⟩ := c
  · rw [step, run_generateKeypair]
    split_ifs with hid
    · rfl
    · obtain ⟨e, he⟩ := (Vault.validateKeyId_cases keyId).resolve_left hid
      have hsame : (run (Vault.generateKeypair l η keyId) s.vault).2 = s.vault := by
        rw [Vault.generateKeypair, run_lift_bind, he]
      exact (hsame.symm.trans (Vault.run_ignore _ _).symm)
  · exact (Vault.run_ignore _ _).symm
  · exact (Vault.run_ignore _ _).symm
  · rfl
  · rw [step]
    cases s.hsm <;> rfl

theorem hsm_step (s : SecureVault π) (c : Host × Call) : (step l env s c).hsm = s.hsm := by
  obtain ⟨η, keyId | ⟨ηRotate, keyId, data⟩ | ⟨keyId, ct⟩ | call | keyId⟩ := c
  · rw [step, run_generateKeypair]
    split_ifs <;> rfl
  · rfl
  · rfl
  · rfl
  · rw [step]
    cases h : s.hsm with
    | none => exact h
    | some hsm => rfl

theorem hsm_after (s : SecureVault π) (calls : List (Host × Call)) : (Run.after (step l env) s calls).hsm = s.hsm := by
  have hkeep : ∀ c ∈ calls, ∀ t : SecureVault π, t.hsm = s.hsm → (step l env t c).hsm = s.hsm :=
    fun c _ t ht => (hsm_step t c).trans ht
  exact Run.after_inv hkeep rfl

theorem vault_after (s : SecureVault π) (calls : List (Host × Call)) :
    (Run.after (step l env) s calls).vault = Run.after (Vault.step l) s.vault (calls.filterMap vaultCall) := by
  induction calls generalizing s with
  | nil => rfl
  | cons c calls ih =>
    rw [Run.after_cons, ih, vault_step, List.filterMap_cons]
    cases vaultCall c <;> rfl

/-! ## Copies -/

/-- each valid id has a place of its own, and what is written there can be read -/
structure OwnSlots (env : Env π) (hsm : HSMKeyStore) : Prop where
  readable : route env hsm = .files → env.mkdirOk ∧ getMachineId env ≠ []
  own : ∀ id id' a, validateKeyId id = .ok id → validateKeyId id' = .ok id' → slot env hsm id = some a →
    slot env hsm id' = some a → id = id'

/-- the id is deleted in the store, by itself or by another text that names its file -/
def Deletes (env : Env π) (hsm : HSMKeyStore) (keyId : Text) (c : Host × Call) : Prop :=
  ∃ keyId', c.2 = .deleteSecret keyId' ∧ slot env hsm keyId' = slot env hsm keyId

def Generates (keyId : Text) (c : Host × Call) : Prop := c.2 = .generateKeypair keyId

theorem encoded_inj {σ σ' : Bytes} (h : encoded σ = encoded σ') : σ = σ' := by
  have hdecoded := congrArg base64.decode (utf8_inj.1 h)
  rwa [base64_lawful, base64_lawful, Except.ok.injEq] at hdecoded

theorem encoded_ne_nil {secret : Bytes} (h : secret ≠ []) : encoded secret ≠ [] := by
  have hnil : encoded [] = [] := rfl
  exact fun hempty => h (encoded_inj (hempty.trans hnil.symm))

section

variable {hsm : HSMKeyStore} {keyId : Text} {a : Text ⊕ π} {s : SecureVault π}

/-- what a call does to the copy of an id -/
theorem copy_step (hown : OwnSlots env hsm) (hs : s.hsm = some hsm) (hid : validateKeyId keyId = .ok keyId)
    (ha : slot env hsm keyId = some a) (c : Host × Call) :
    Generates keyId c ∧ copy env (step l env s c) keyId = some (encoded c.1.secret.toList) ∨
      Deletes env hsm keyId c ∧ copy env (step l env s c) keyId = none ∨
      ¬ Generates keyId c ∧ ¬ Deletes env hsm keyId c ∧ copy env (step l env s c) keyId = copy env s keyId := by
  have hcopy : ∀ t : SecureVault π, t.hsm = some hsm → copy env t keyId = read env t.machine a := by
    intro t ht
    rw [copy, ht, Option.bind_some, HSMKeyStore.retrieveSecret_eq_read, ha, Option.bind_some]
  rw [hcopy s hs, hcopy _ ((hsm_step s c).trans hs)]
  obtain ⟨η, keyId' | ⟨ηRotate, keyId', data⟩ | ⟨keyId', ct⟩ | call | keyId'⟩ := c
  · rw [step, run_generateKeypair]
    by_cases hid' : validateKeyId keyId' = .ok keyId'
    · have hsecret : encoded η.secret.toList ≠ [] := by
        refine encoded_ne_nil fun h => ?_
        have hlen := η.secret.length_toList
        rw [h] at hlen
        cases hlen
      rw [if_pos hid', hs, Option.elim_some, HSMKeyStore.read_storeSecret hown.readable hsecret _ ha]
      by_cases hsame : keyId' = keyId
      · subst hsame
        rw [if_pos ha]
        exact Or.inl ⟨rfl, rfl⟩
      · rw [if_neg fun h => hsame (hown.own _ _ _ hid' hid h ha)]
        refine Or.inr (Or.inr ⟨fun h => ?_, ?_, rfl⟩)
        · cases h
          exact hsame rfl
        · rintro ⟨_, h, -⟩
          cases h
    · rw [if_neg hid']
      refine Or.inr (Or.inr ⟨fun h => ?_, ?_, rfl⟩)
      · cases h
        exact hid' hid
      · rintro ⟨_, h, -⟩
        cases h
  · refine Or.inr (Or.inr ⟨(fun h => by cases h), ?_, rfl⟩)
    rintro ⟨_, h, -⟩
    cases h
  · refine Or.inr (Or.inr ⟨(fun h => by cases h), ?_, rfl⟩)
    rintro ⟨_, h, -⟩
    cases h
  · refine Or.inr (Or.inr ⟨(fun h => by cases h), ?_, rfl⟩)
    rintro ⟨_, h, -⟩
    cases h
  · rw [step, hs]
    dsimp only
    rw [HSMKeyStore.read_deleteSecret _ ha]
    by_cases hsame : slot env hsm keyId' = some a
    · rw [if_pos hsame]
      exact Or.inr (Or.inl ⟨⟨keyId', rfl, hsame.trans ha.symm⟩, rfl⟩)
    · rw [if_neg hsame]
      refine Or.inr (Or.inr ⟨(fun h => by cases h), ?_, rfl⟩)
      rintro ⟨_, h, hslot⟩
      cases h
      exact hsame (hslot.trans ha)

/-! ## Runs -/

/-- the secrets that a run draws -/
def drawnBy (l : Libs) (s : SecureVault π) (calls : List (Host × Call)) : List Bytes :=
  drawn l s.vault (calls.filterMap vaultCall)

omit [DecidableEq π] in
theorem drawnBy_append (calls calls' : List (Host × Call)) : drawnBy l s (calls ++ calls') =
    drawnBy l s calls ++ drawn l (Run.after (Vault.step l) s.vault (calls.filterMap vaultCall)) (calls'.filterMap vaultCall) := by
  rw [drawnBy, List.filterMap_append, Vault.drawn_append]
  rfl

theorem drawnBy_cons (env : Env π) (c : Host × Call) (calls : List (Host × Call)) : drawnBy l s (c :: calls) =
    ((vaultCall c).bind (draw s.vault)).toList ++ drawnBy l (step l env s c) calls := by
  rw [drawnBy, drawnBy, vault_step, List.filterMap_cons]
  cases vaultCall c <;> rfl

theorem draw_generate {η : Host} {v : Session} (hid : validateKeyId keyId = .ok keyId) :
    draw v (η, .generateKeypair keyId) = some η.secret.toList := by
  rw [draw, Vault.KeyState.change, if_pos hid]
  rfl

/-- every copy was drawn -/
theorem copy_drawn (hown : OwnSlots env hsm) (hs : s.hsm = some hsm) (hid : validateKeyId keyId = .ok keyId)
    (ha : slot env hsm keyId = some a) (hnone : copy env s keyId = none) (calls : List (Host × Call)) {b : Bytes}
    (hb : copy env (Run.after (step l env) s calls) keyId = some b) : ∃ σ ∈ drawnBy l s calls, b = encoded σ := by
  induction calls using List.reverseRecOn with
  | nil =>
    rw [Run.after_nil, hnone] at hb
    cases hb
  | append_singleton calls c ih =>
    rw [Run.after_append, Run.after_cons, Run.after_nil] at hb
    rw [drawnBy_append]
    rcases copy_step (l := l) hown ((hsm_after s calls).trans hs) hid ha c with ⟨hc, hcopy⟩ | ⟨-, hcopy⟩ | ⟨-, -, hcopy⟩
    · rw [hcopy, Option.some.injEq] at hb
      refine ⟨c.1.secret.toList, List.mem_append_right _ ?_, hb.symm⟩
      obtain ⟨η, c⟩ := c
      obtain rfl : c = .generateKeypair keyId := hc
      rw [List.filterMap_cons, vaultCall, List.filterMap_nil, drawn, draw_generate hid]
      exact List.mem_append_left _ (List.mem_singleton_self _)
    · rw [hcopy] at hb
      cases hb
    · obtain ⟨σ, hσ, rfl⟩ := ih (hcopy.symm.trans hb)
      exact ⟨σ, List.mem_append_left _ hσ, rfl⟩

/-- the copy of an id is its live secret -/
def Copied (env : Env π) (keyId : Text) (s : SecureVault π) : Prop :=
  ∃ σ, s.vault.vault.secretKeys.get keyId = some σ ∧ copy env s keyId = some (encoded σ)

/-- the vault ends the key of the id -/
def Replaces (keyId : Text) (s : SecureVault π) (c : Host × Call) : Prop :=
  ∃ call, vaultCall c = some call ∧ Vault.Ends keyId s.vault call

theorem coherent_after (hcoherent : (Vault.keyState s.vault).Coherent) (calls : List (Host × Call)) :
    (Vault.keyState (Run.after (step l env) s calls).vault).Coherent := by
  rw [vault_after]
  exact Vault.coherent_after hcoherent _

/-- **The store has the live secret of an id** if and only if the id was generated through this vault, and neither was its key
ended in the vault nor its copy deleted since. -/
theorem copied_iff (hown : OwnSlots env hsm) (hs : s.hsm = some hsm) (hid : validateKeyId keyId = .ok keyId)
    (ha : slot env hsm keyId = some a) (hnone : copy env s keyId = none) (hcoherent : (Vault.keyState s.vault).Coherent)
    {calls : List (Host × Call)} (hfresh : (drawnBy l s calls).Nodup) :
    Copied env keyId (Run.after (step l env) s calls) ↔ Run.Since (step l env) (fun _ c => Generates keyId c)
      (fun s c => Replaces keyId s c ∨ Deletes env hsm keyId c) s calls := by
  induction calls using List.reverseRecOn with
  | nil =>
    refine iff_of_false ?_ ?_
    · rintro ⟨σ, -, hcopy⟩
      rw [Run.after_nil, hnone] at hcopy
      cases hcopy
    · rintro ⟨pre, c, post, h, -⟩
      simp at h
  | append_singleton calls c ih =>
    have hprefix := hfresh
    rw [drawnBy_append, List.nodup_append] at hprefix
    have ht : (Vault.keyState (Run.after (step l env) s calls).vault).Coherent := coherent_after hcoherent calls
    have hvault : (step l env _ c).vault = _ := vault_step (Run.after (step l env) s calls) c
    rw [Run.since_snoc, ← ih hprefix.1, Run.after_append, Run.after_cons, Run.after_nil]
    rcases copy_step (l := l) hown ((hsm_after s calls).trans hs) hid ha c with ⟨hc, hcopy⟩ | ⟨hc, hcopy⟩ | ⟨hg, hd, hcopy⟩
    · -- a new key, and its copy
      refine iff_of_true ⟨c.1.secret.toList, ?_, hcopy⟩ (Or.inl hc)
      obtain ⟨η, call⟩ := c
      obtain rfl : call = .generateKeypair keyId := hc
      rw [hvault, vaultCall, Option.elim_some, Vault.get_step ht, Vault.KeyState.change, if_pos hid]
      exact if_pos rfl
    · -- no copy
      refine iff_of_false ?_ ?_
      · rintro ⟨σ, -, hcopied⟩
        rw [hcopy] at hcopied
        cases hcopied
      · rintro (hg | ⟨-, hb⟩)
        · obtain ⟨keyId', hc, -⟩ := hc
          rw [Generates, hc] at hg
          cases hg
        · exact hb (Or.inr hc)
    · by_cases hends : Replaces keyId (Run.after (step l env) s calls) c
      · -- a new key, and the copy of an older one
        refine iff_of_false ?_ fun h => h.elim hg fun h => h.2 (Or.inl hends)
        rintro ⟨σ, hσ, hcopied⟩
        obtain ⟨call, hcall, hends⟩ := hends
        rw [hvault, hcall, Option.elim_some] at hσ
        rw [hcopy] at hcopied
        obtain ⟨σ', hold, hsame⟩ := copy_drawn hown hs hid ha hnone calls hcopied
        obtain rfl := encoded_inj hsame
        rcases Vault.held_step ht hσ with ⟨-, hkept⟩ | ⟨hdraw, -⟩
        · exact hkept hends
        · refine hprefix.2.2 σ hold σ ?_ rfl
          rw [List.filterMap_cons, hcall, List.filterMap_nil, drawn, ← vault_after, hdraw]
          exact List.mem_append_left _ (List.mem_singleton_self σ)
      · have hget : (step l env (Run.after (step l env) s calls) c).vault.vault.secretKeys.get keyId =
            (Run.after (step l env) s calls).vault.vault.secretKeys.get keyId := by
          rw [hvault]
          cases hcall : vaultCall c with
          | none => rfl
          | some call => exact Vault.kept_step ht fun h => hends ⟨call, hcall, h⟩
        rw [Copied, hget, hcopy]
        constructor
        · exact fun h => Or.inr ⟨h, fun h => h.elim hends hd⟩
        · exact fun h => h.elim (fun h => absurd h hg) And.left

/-- a copy that a run does not make anew is there after it if and only if it was there before and the run does not touch it -/
theorem copy_kept_iff (hown : OwnSlots env hsm) (hs : s.hsm = some hsm) (hid : validateKeyId keyId = .ok keyId)
    (ha : slot env hsm keyId = some a) {σ : Bytes} {calls : List (Host × Call)} (hnew : σ ∉ drawnBy l s calls) :
    copy env (Run.after (step l env) s calls) keyId = some (encoded σ) ↔
      copy env s keyId = some (encoded σ) ∧ ∀ c ∈ calls, ¬ (Generates keyId c ∨ Deletes env hsm keyId c) := by
  induction calls generalizing s with
  | nil => simp
  | cons c calls ih =>
    rw [drawnBy_cons env, List.mem_append, not_or] at hnew
    obtain ⟨hdrawn, hrest⟩ := hnew
    rw [Run.after_cons, ih ((hsm_step s c).trans hs) hrest, List.forall_mem_cons]
    rcases copy_step (l := l) hown hs hid ha c with ⟨hc, hcopy⟩ | ⟨hc, hcopy⟩ | ⟨hg, hd, hcopy⟩
    · refine iff_of_false ?_ fun h => h.2.1 (Or.inl hc)
      rintro ⟨hσ, -⟩
      rw [hcopy, Option.some.injEq] at hσ
      obtain rfl := encoded_inj hσ
      obtain ⟨η, call⟩ := c
      obtain rfl : call = .generateKeypair keyId := hc
      refine absurd ?_ hdrawn
      rw [vaultCall, Option.bind_some, draw_generate hid]
      exact List.mem_singleton_self _
    · refine iff_of_false ?_ fun h => h.2.1 (Or.inr hc)
      rintro ⟨hσ, -⟩
      rw [hcopy] at hσ
      cases hσ
    · rw [hcopy, and_iff_right (not_or.2 ⟨hg, hd⟩)]

theorem length_drawn {v : Session} {calls : List (Host × Vault.Call)} {σ : Bytes} (h : σ ∈ drawn l v calls) : σ.length = 32 := by
  induction calls generalizing v with
  | nil => cases h
  | cons c calls ih =>
    rw [drawn, List.mem_append, Option.mem_toList, draw, Option.bind_eq_some_iff] at h
    rcases h with ⟨⟨keyId, σ'⟩, hchange, rfl⟩ | h
    · obtain ⟨η, call⟩ := c
      -- a secret comes from the host of the call, or from that of the rotation inside it
      cases call <;> simp only [Vault.KeyState.change] at hchange <;> (try split_ifs at hchange) <;> cases hchange <;>
        exact Vector.length_toList
    · exact ih h

/-- the secret that is read out of the copy of an id -/
def restored (env : Env π) (s : SecureVault π) (keyId : Text) : Option Bytes :=
  (copy env s keyId).bind HsmKeyStore.b64decodeBytes

theorem decode_encoded (secret : Bytes) : HsmKeyStore.b64decodeBytes (encoded secret) = some secret := by
  have hbytes : encoded secret = HsmKeyStore.b64encodeBytes secret := by
    rw [encoded, base64, utf8_of_ascii (by simpa using base64Encode_ascii secret), String.toList_ofList]
    rfl
  rw [hbytes, HSMKeyStore.b64decodeBytes_b64encodeBytes]

end

/-! ## A key that only the store has -/

/-- Linux without a display, where each id has a file -/
def ownEnv : Env Text := { HSMKeyStore.fileEnv with resolve := some }

theorem ownSlots_ownEnv : OwnSlots ownEnv (HSMKeyStore.new ownEnv "auto") where
  readable _ := by decide +kernel
  own id id' a _ _ h h' := by
    have hslot : ∀ id, slot ownEnv (HSMKeyStore.new ownEnv "auto") id = some (.inr id) := fun id => rfl
    rw [hslot] at h h'
    cases h
    cases h'
    rfl

def firstState : SecureVault Text := new ownEnv Vault.zeroHost false true "auto" HSMKeyStore.emptyStore

def generateCall : Host × Call := (Vault.hostWithSecret 1, .generateKeypair "a")

def storeCall : Host × Call := (Vault.zeroHost, .store Vault.zeroHost "a" [7])

/-- the key is rotated in the vault -/
def rotateCall : Host × Call := (Vault.hostWithSecret 2, .onVault (.rotateKey "a"))

def ciphertextA : Ciphertext := Vault.sealed Vault.switchLibs Vault.zeroHost (List.replicate 32 2) [7]

end SecureVault

end AbirGuard.Python
