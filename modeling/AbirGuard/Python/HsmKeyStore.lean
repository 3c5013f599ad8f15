/-
Which secrets does the hardware key store give back?

`HSMKeyStore` keeps a secret in the keyring of the system or in a file of its own, xored with an identifier of the machine
(`abir_hsm.py`). The environment is fixed along a run: the platform, whether there is a keyring module, what `/etc/machine-id`
holds, and which path a key id resolves to. Files and keyring are maps, and every exception is caught where the code catches it.

- `protect_protect`: the xor undoes itself unless the identifier is empty, and then nothing is left of a secret.
- `storeSecret_eq`: what a store answers and leaves.
- `faithful_step_iff`: what a call must be like for each id still to give its latest secret.
- `faithful_iff`: every state of a run is so if and only if each of its stores is clean.
-/
import AbirGuard.Core.Run
import AbirGuard.Python.Lang

namespace AbirGuard.Python.HsmKeyStore

open AbirGuard.Core

/-! ## Model -/

/-- the environment; π is the type of paths -/
structure Env (π : Type) where
  /-- `sys.platform` -/
  platform : Text
  /-- `DISPLAY` is set and not empty -/
  display : Bool
  /-- there is a module `keyring` -/
  keyringModule : Bool
  /-- the content of `/etc/machine-id`, if it can be read -/
  machineIdFile : Option Bytes
  /-- the directory of the files is there or can be made -/
  mkdirOk : Bool
  /-- the path that `~/.abir_guard/{key_id}.key` resolves to, if there can be a file -/
  resolve : Text → Option π

structure Store (π : Type) where
  files : π → Option Bytes
  /-- the passwords of the service `abir_guard`, by account -/
  keyring : Text → Option Text

def Store.writeBytes {π : Type} [DecidableEq π] (st : Store π) (path : π) (content : Bytes) : Store π :=
  { st with files := Function.update st.files path (some content) }

def Store.setPassword {π : Type} (st : Store π) (account password : Text) : Store π :=
  { st with keyring := Function.update st.keyring account (some password) }

def isAsciiSpace (b : UInt8) : Bool := b = 32 ∨ 9 ≤ b ∧ b ≤ 13

/-- `b.strip()` -/
def strip (b : Bytes) : Bytes := (b.dropWhile isAsciiSpace).rdropWhile isAsciiSpace

/-- `base64.b64encode(b)` -/
def b64encodeBytes (b : Bytes) : Bytes := (base64Encode b).map fun c => UInt8.ofNat c.toNat

/-- `base64.b64decode(b)`, if it does not raise -/
def b64decodeBytes (b : Bytes) : Option Bytes := (a2bBase64 (b.map fun x => Char.ofNat x.toNat)).toOption

/-- the xor with the identifier, repeated -/
def protect (machineId secret : Bytes) : Bytes :=
  List.zipWith (· ^^^ ·) secret ((List.replicate secret.length machineId).flatten.take secret.length)

structure HSMKeyStore where
  backend : Text
deriving DecidableEq

namespace HSMKeyStore

section Model

variable {π : Type} [DecidableEq π] (env : Env π) (self : HSMKeyStore)

def detectBackend (backend : Text) : Text :=
  if backend ≠ ("auto" : Text) then backend
  else if env.platform = ("darwin" : Text) then "keychain"
  else if env.platform = ("win32" : Text) then "credential_manager"
  else if env.platform = ("linux" : Text) then if env.display then "secret_service" else "file"
  else "file"

def new (backend : Text) : HSMKeyStore := ⟨detectBackend env backend⟩

def getMachineId : Bytes :=
  if env.platform = ("darwin" : Text) then utf8 "abir_guard_mac"
  else if env.platform = ("win32" : Text) then utf8 "abir_guard_windows"
  else match env.machineIdFile with
    | some content => strip content
    | none => utf8 "abir_guard_linux"

def storeFile (keyId : Text) (secret : Bytes) (st : Store π) : Bool × Store π :=
  if !env.mkdirOk then (false, st)
  else match env.resolve keyId with
    | some path => (true, st.writeBytes path (b64encodeBytes (protect (getMachineId env) secret)))
    | none => (false, st)

def retrieveFile (keyId : Text) (st : Store π) : Option Bytes := do
  let path ← env.resolve keyId
  let content ← st.files path
  let protectedBytes ← b64decodeBytes content
  return protect (getMachineId env) protectedBytes

def storeKeychain (keyId : Text) (secret : Bytes) (st : Store π) : Bool × Store π :=
  if env.keyringModule then (true, st.setPassword keyId (b64encode secret))
  -- `except ImportError`
  else storeFile env keyId secret st

def retrieveKeychain (keyId : Text) (st : Store π) : Option Bytes :=
  if env.keyringModule then
    match st.keyring keyId with
    | some data => if data = [] then none else (b64decode data).toOption
    | none => none
  -- no such fallback here
  else none

def storeCredential (keyId : Text) (secret : Bytes) (st : Store π) : Bool × Store π := storeFile env keyId secret st

def retrieveCredential (keyId : Text) (st : Store π) : Option Bytes := retrieveFile env keyId st

def storeSecret (keyId : Text) (secret : Bytes) (st : Store π) : Bool × Store π :=
  if self.backend = ("keychain" : Text) then storeKeychain env keyId secret st
  else if self.backend = ("credential_manager" : Text) then storeCredential env keyId secret st
  else if self.backend = ("file" : Text) then storeFile env keyId secret st
  else (false, st)

def retrieveSecret (keyId : Text) (st : Store π) : Option Bytes :=
  if self.backend = ("keychain" : Text) then retrieveKeychain env keyId st
  else if self.backend = ("credential_manager" : Text) then retrieveCredential env keyId st
  else if self.backend = ("file" : Text) then retrieveFile env keyId st
  else none

inductive Call where
  | store (keyId : Text) (secret : Bytes)
  | retrieve (keyId : Text)

/-- files and keyring, and for each id the secret of the latest store that returned `True` -/
structure Session (π : Type) where
  store : Store π
  latest : Text → Option Bytes

def step (s : Session π) : Call → Session π
  | .store keyId secret =>
    let (ok, st) := storeSecret env self keyId secret s.store
    ⟨st, if ok then Function.update s.latest keyId (some secret) else s.latest⟩
  | .retrieve _ => s

def start (st : Store π) : Session π := ⟨st, fun _ => none⟩

end Model

/-! ## What is read back -/

theorem b64decodeBytes_b64encodeBytes (b : Bytes) : b64decodeBytes (b64encodeBytes b) = some b := by
  have hchars : (b64encodeBytes b).map (fun x => Char.ofNat x.toNat) = base64Encode b := by
    rw [b64encodeBytes, List.map_map]
    refine (List.map_congr_left fun c hc => ?_).trans (List.map_id _)
    have hsmall : c.toNat < 256 := (base64Encode_ascii b c hc).trans (by decide)
    simp [Nat.mod_eq_of_lt hsmall]
  rw [b64decodeBytes, hchars, a2bBase64_encode]
  rfl

theorem b64encode_ne_nil {b : Bytes} (h : b ≠ []) : b64encode b ≠ [] := by
  rcases b with _ | ⟨x, _ | ⟨y, _ | ⟨z, rest⟩⟩⟩
  · exact absurd rfl h
  all_goals simp [b64encode, base64, base64Encode, Text.ofString]

theorem protect_nil (secret : Bytes) : protect [] secret = [] := by
  have hempty : (List.replicate secret.length ([] : Bytes)).flatten = [] := by simp
  rw [protect, hempty, List.take_nil, List.zipWith_nil_right]

theorem zipWith_xor_twice {secret pad : Bytes} (h : secret.length ≤ pad.length) :
    List.zipWith (· ^^^ ·) (List.zipWith (· ^^^ ·) secret pad) pad = secret := by
  induction secret generalizing pad with
  | nil => rfl
  | cons x secret ih =>
    cases pad with
    | nil => simp at h
    | cons y pad =>
      have hx : x ^^^ y ^^^ y = x := by rw [UInt8.xor_assoc, UInt8.xor_self, UInt8.xor_zero]
      rw [List.zipWith_cons_cons, List.zipWith_cons_cons, hx, ih (by simpa using h)]

/-- the xor undoes itself, unless there is nothing to xor with: then nothing is left -/
theorem protect_protect (machineId secret : Bytes) :
    protect machineId (protect machineId secret) = if machineId = [] then [] else secret := by
  split_ifs with h
  · rw [h, protect_nil]
  · have hone : 1 ≤ machineId.length := List.length_pos_iff.2 h
    have hpad : secret.length ≤ ((List.replicate secret.length machineId).flatten.take secret.length).length := by
      simp
      nlinarith
    have hlength : (protect machineId secret).length = secret.length := by
      rw [protect, List.length_zipWith]
      omega
    rw [protect, hlength, protect, zipWith_xor_twice hpad]

section Routes

variable {π : Type} {env : Env π}

/-- what a file gives back that was stored -/
def recovered (env : Env π) (secret : Bytes) : Bytes := if getMachineId env = [] then [] else secret

theorem recovered_eq_iff {secret : Bytes} : recovered env secret = secret ↔ getMachineId env ≠ [] ∨ secret = [] := by
  unfold recovered
  split_ifs with h
  · simp [h, eq_comm]
  · simp [h]

/-- where secrets go -/
inductive Route where
  | keyring
  /-- into a file, for want of a keyring; but they are looked for in the keyring -/
  | fallback
  | files
  | nowhere
deriving DecidableEq

def route (env : Env π) (self : HSMKeyStore) : Route :=
  if self.backend = ("keychain" : Text) then if env.keyringModule then .keyring else .fallback
  else if self.backend = ("credential_manager" : Text) ∨ self.backend = ("file" : Text) then .files
  else .nowhere

theorem retrieveSecret_eq (self : HSMKeyStore) (keyId : Text) (st : Store π) : retrieveSecret env self keyId st =
    match route env self with
    | .keyring => retrieveKeychain env keyId st
    | .files => retrieveFile env keyId st
    | .fallback | .nowhere => none := by
  unfold retrieveSecret route retrieveCredential
  split_ifs <;> simp_all [retrieveKeychain]

variable [DecidableEq π]

theorem storeSecret_eq (env : Env π) (self : HSMKeyStore) (keyId : Text) (secret : Bytes) (st : Store π) :
    storeSecret env self keyId secret st =
    match route env self with
    | .keyring => (true, st.setPassword keyId (b64encode secret))
    | .fallback | .files => storeFile env keyId secret st
    | .nowhere => (false, st) := by
  unfold storeSecret route storeKeychain storeCredential
  split_ifs <;> simp_all

theorem retrieveFile_stored {keyId : Text} {path : π} (hpath : env.resolve keyId = some path) (secret : Bytes) (st : Store π) :
    retrieveFile env keyId (st.writeBytes path (b64encodeBytes (protect (getMachineId env) secret))) =
      some (recovered env secret) := by
  simp only [retrieveFile, Store.writeBytes, hpath, Function.update_self, b64decodeBytes_b64encodeBytes, Option.bind_eq_bind,
    Option.bind_some, recovered, ← protect_protect]
  rfl

theorem retrieveFile_other {keyId : Text} {path : π} (hne : env.resolve keyId ≠ some path) (content : Bytes) (st : Store π) :
    retrieveFile env keyId (st.writeBytes path content) = retrieveFile env keyId st := by
  unfold retrieveFile
  cases hpath : env.resolve keyId with
  | none => rfl
  | some path' =>
    have hother : path' ≠ path := by
      intro h
      rw [hpath, h] at hne
      exact hne rfl
    simp only [Store.writeBytes, Option.bind_eq_bind, Option.bind_some, Function.update_of_ne hother]

/-- a store into a file succeeds -/
def HasFile (env : Env π) (keyId : Text) : Prop := env.mkdirOk ∧ ∃ path, env.resolve keyId = some path

theorem storeFile_of_hasFile {keyId : Text} (hdir : env.mkdirOk) {path : π} (hpath : env.resolve keyId = some path)
    (secret : Bytes) (st : Store π) :
    storeFile env keyId secret st = (true, st.writeBytes path (b64encodeBytes (protect (getMachineId env) secret))) := by
  simp [storeFile, hdir, hpath]

theorem storeFile_of_not {keyId : Text} (h : ¬ HasFile env keyId) (secret : Bytes) (st : Store π) :
    storeFile env keyId secret st = (false, st) := by
  unfold storeFile
  split_ifs with hdir
  · rfl
  · cases hpath : env.resolve keyId with
    | none => rfl
    | some path => exact absurd ⟨by simpa using hdir, path, hpath⟩ h

end Routes

/-! ## Steps -/

section Steps

variable {π : Type}

/-- each id gives the secret of its latest store that returned `True` -/
def Faithful (env : Env π) (self : HSMKeyStore) (s : Session π) : Prop :=
  ∀ keyId secret, s.latest keyId = some secret → retrieveSecret env self keyId s.store = some secret

/-- a call that loses nothing -/
def Clean (env : Env π) (self : HSMKeyStore) (s : Session π) : Call → Prop
  | .store keyId secret =>
    match route env self with
    | .keyring => secret ≠ []
    | .fallback => ¬ HasFile env keyId
    | .files => HasFile env keyId → (getMachineId env ≠ [] ∨ secret = []) ∧
        -- no other id has another secret in the same file
        ∀ keyId', keyId' ≠ keyId → env.resolve keyId' = env.resolve keyId → ∀ secret', s.latest keyId' = some secret' →
          secret' = secret
    | .nowhere => True
  | .retrieve _ => True

variable {env : Env π} {self : HSMKeyStore}

/-- what a session is to give after a store that succeeded: the new secret, and under the other ids what they gave -/
theorem faithful_update_iff {keyId : Text} {secret : Bytes} {latest : Text → Option Bytes} {st : Store π} :
    Faithful env self ⟨st, Function.update latest keyId (some secret)⟩ ↔ retrieveSecret env self keyId st = some secret ∧
      ∀ keyId', keyId' ≠ keyId → ∀ secret', latest keyId' = some secret' → retrieveSecret env self keyId' st = some secret' := by
  constructor
  · intro h
    refine ⟨h keyId secret (Function.update_self ..), fun keyId' hne secret' hlatest => ?_⟩
    exact h keyId' secret' ((Function.update_of_ne hne ..).trans hlatest)
  · intro h keyId' secret' hlatest
    change Function.update latest keyId (some secret) keyId' = some secret' at hlatest
    by_cases hkey : keyId' = keyId
    · subst hkey
      rw [Function.update_self, Option.some.injEq] at hlatest
      rw [← hlatest, h.1]
    · rw [Function.update_of_ne hkey] at hlatest
      exact h.2 keyId' hkey secret' hlatest

theorem retrieveKeychain_stored (hmodule : env.keyringModule) (keyId : Text) (secret : Bytes) (st : Store π) :
    retrieveKeychain env keyId (st.setPassword keyId (b64encode secret)) = if secret = [] then none else some secret := by
  simp only [retrieveKeychain, Store.setPassword, if_pos hmodule, Function.update_self]
  by_cases h : secret = []
  · subst h
    rfl
  · simp [h, b64encode_ne_nil h, b64decode_b64encode, Except.toOption]

theorem retrieveKeychain_other {keyId keyId' : Text} (hne : keyId' ≠ keyId) (password : Text) (st : Store π) :
    retrieveKeychain env keyId' (st.setPassword keyId password) = retrieveKeychain env keyId' st := by
  simp only [retrieveKeychain, Store.setPassword, Function.update_of_ne hne]

variable [DecidableEq π]

/-- a store that does not succeed changes nothing -/
theorem step_store_false {keyId : Text} {secret : Bytes} {s : Session π}
    (h : storeSecret env self keyId secret s.store = (false, s.store)) : step env self s (.store keyId secret) = s := by
  simp [step, h]

theorem step_store_true {keyId : Text} {secret : Bytes} {s : Session π} {st : Store π}
    (h : storeSecret env self keyId secret s.store = (true, st)) :
    step env self s (.store keyId secret) = ⟨st, Function.update s.latest keyId (some secret)⟩ := by
  simp [step, h]

theorem faithful_keyring_iff {s : Session π} (hs : Faithful env self s) (hroute : route env self = .keyring) (keyId : Text)
    (secret : Bytes) : Faithful env self (step env self s (.store keyId secret)) ↔ secret ≠ [] := by
  have hmodule : env.keyringModule := by
    unfold route at hroute
    split_ifs at hroute with _ h
    exact h
  have hstore := storeSecret_eq env self keyId secret s.store
  rw [hroute] at hstore
  rw [step_store_true hstore, faithful_update_iff]
  simp only [retrieveSecret_eq, hroute, retrieveKeychain_stored hmodule]
  constructor
  · intro h hempty
    rw [if_pos hempty] at h
    cases h.1
  · intro h
    refine ⟨if_neg h, fun keyId' hne secret' hlatest => ?_⟩
    have hold := hs keyId' secret' hlatest
    simp only [retrieveSecret_eq, hroute] at hold
    rw [retrieveKeychain_other hne, hold]

/-- what was stored without a keyring is not found -/
theorem faithful_fallback_iff {s : Session π} (hs : Faithful env self s) (hroute : route env self = .fallback) (keyId : Text)
    (secret : Bytes) : Faithful env self (step env self s (.store keyId secret)) ↔ ¬ HasFile env keyId := by
  have hstore := storeSecret_eq env self keyId secret s.store
  rw [hroute] at hstore
  by_cases hfile : HasFile env keyId
  · obtain ⟨hdir, path, hpath⟩ := hfile
    rw [step_store_true (hstore.trans (storeFile_of_hasFile hdir hpath secret s.store)), faithful_update_iff, retrieveSecret_eq,
      hroute]
    exact iff_of_false (fun h => by cases h.1) (not_not_intro ⟨hdir, path, hpath⟩)
  · rw [step_store_false (hstore.trans (storeFile_of_not hfile secret s.store))]
    exact iff_of_true hs hfile

theorem faithful_files_iff {s : Session π} (hs : Faithful env self s) (hroute : route env self = .files) (keyId : Text)
    (secret : Bytes) : Faithful env self (step env self s (.store keyId secret)) ↔
      (HasFile env keyId → (getMachineId env ≠ [] ∨ secret = []) ∧
        ∀ keyId', keyId' ≠ keyId → env.resolve keyId' = env.resolve keyId → ∀ secret', s.latest keyId' = some secret' →
          secret' = secret) := by
  have hstore := storeSecret_eq env self keyId secret s.store
  rw [hroute] at hstore
  by_cases hfile : HasFile env keyId
  · obtain ⟨hdir, path, hpath⟩ := hfile
    rw [step_store_true (hstore.trans (storeFile_of_hasFile hdir hpath secret s.store)), faithful_update_iff]
    simp only [retrieveSecret_eq, hroute, retrieveFile_stored hpath, Option.some.injEq, recovered_eq_iff]
    rw [forall_prop_of_true ⟨hdir, path, hpath⟩]
    refine and_congr_right fun hrec => forall₂_congr fun keyId' hne => ?_
    have hgives := recovered_eq_iff.2 hrec
    constructor
    · intro h hsame secret' hlatest
      have hread := h secret' hlatest
      rw [retrieveFile_stored (hsame.trans hpath), hgives, Option.some.injEq] at hread
      exact hread.symm
    · intro h secret' hlatest
      by_cases hsame : env.resolve keyId' = some path
      · rw [retrieveFile_stored hsame, hgives, h (hsame.trans hpath.symm) secret' hlatest]
      · have hold := hs keyId' secret' hlatest
        simp only [retrieveSecret_eq, hroute] at hold
        rw [retrieveFile_other hsame, hold]
  · rw [step_store_false (hstore.trans (storeFile_of_not hfile secret s.store))]
    exact iff_of_true hs fun h => absurd h hfile

/-- what a call must be like -/
theorem faithful_step_iff {s : Session π} (hs : Faithful env self s) (c : Call) :
    Faithful env self (step env self s c) ↔ Clean env self s c := by
  cases c with
  | retrieve keyId => exact iff_of_true hs trivial
  | store keyId secret =>
    rw [Clean]
    cases hroute : route env self with
    | nowhere =>
      have hstore := storeSecret_eq env self keyId secret s.store
      rw [hroute] at hstore
      rw [step_store_false hstore]
      exact iff_of_true hs trivial
    | keyring => exact faithful_keyring_iff hs hroute keyId secret
    | fallback => exact faithful_fallback_iff hs hroute keyId secret
    | files => exact faithful_files_iff hs hroute keyId secret

end Steps

/-! ## Runs -/

section Runs

variable {π : Type} [DecidableEq π]

/-- **A run loses no secret if and only if each of its stores is clean.** In every state of the run, each id gives the secret of
the latest store under it that returned `True`. -/
theorem faithful_iff (env : Env π) (self : HSMKeyStore) (st : Store π) (run : List Call) :
    (∀ pre post, run = pre ++ post → Faithful env self (Run.after (step env self) (start st) pre)) ↔
      Run.EachStep (step env self) (Clean env self) (start st) run := by
  have hstart : Faithful env self (start st) := fun _ _ h => by cases h
  rw [Run.always_iff, and_iff_right hstart]
  exact Run.eachStep_iff (Faithful env self) (fun c _ s hs => faithful_step_iff hs c)
    (fun c _ s hs hclean => (faithful_step_iff hs c).2 hclean) hstart

end Runs

/-! ## Secrets that are lost -/

/-- Linux without a keyring module; an id that starts with `./` names the file of the rest -/
def fileEnv : Env Text where
  platform := "linux"
  display := false
  keyringModule := false
  machineIdFile := some (utf8 "7f")
  mkdirOk := true
  resolve keyId := some (if keyId.take 2 = ("./" : Text) then keyId.drop 2 else keyId)

def emptyStore : Store Text := ⟨fun _ => none, fun _ => none⟩

/-- stored into a file and looked for in the keyring; xored with an identifier that is blank; overwritten under another id;
empty in the keyring -/
theorem secrets_lost :
    (storeSecret fileEnv ⟨"keychain"⟩ "a" [1] emptyStore).1 = true ∧
    retrieveSecret fileEnv ⟨"keychain"⟩ "a" (storeSecret fileEnv ⟨"keychain"⟩ "a" [1] emptyStore).2 = none ∧
    (let env : Env Text := { fileEnv with machineIdFile := some (utf8 "\n") };
      (storeSecret env ⟨"file"⟩ "a" [1] emptyStore).1 = true ∧
      retrieveSecret env ⟨"file"⟩ "a" (storeSecret env ⟨"file"⟩ "a" [1] emptyStore).2 = some []) ∧
    (let st := (storeSecret fileEnv ⟨"file"⟩ "a" [1] emptyStore).2;
      (storeSecret fileEnv ⟨"file"⟩ "./a" [2] st).1 = true ∧
      retrieveSecret fileEnv ⟨"file"⟩ "a" (storeSecret fileEnv ⟨"file"⟩ "./a" [2] st).2 = some [2]) ∧
    (let env : Env Text := { fileEnv with keyringModule := true };
      (storeSecret env ⟨"keychain"⟩ "a" [] emptyStore).1 = true ∧
      retrieveSecret env ⟨"keychain"⟩ "a" (storeSecret env ⟨"keychain"⟩ "a" [] emptyStore).2 = none) := by
  decide +kernel

end HSMKeyStore

end AbirGuard.Python.HsmKeyStore
