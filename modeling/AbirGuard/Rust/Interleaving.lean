/-
Concurrent commands on one key file.

Any number of init and encrypt commands run under one passphrase on one home directory. Each is a load (`getVault`) followed
later by a body that persists; the steps of different commands interleave arbitrarily, and nothing locks the file. A step of
a process is a step of the system (`step`); a schedule is the list of the processes that move.

- `alone`: the two steps of a command with nothing between them are the command of the sequential model.
- `Consistent`: every loaded vault still is what the file holds. `consistent_step` keeps it as long as no command that adds
  a key persists while another one is between its load and its persist (`Exclusive`).
- `no_lost_update`: under such schedules every id that a command reports stays in the file, and a printed ciphertext
  decrypts, provided the inits of its id had finished when the encryption loaded.
- `overlapping_inits`: load, load, persist, persist of two inits, and the file holds one key.
-/
import AbirGuard.Rust.CliDurability

namespace AbirGuard.Rust.Interleaving

open AbirGuard.Core AbirGuard.Rust AbirGuard.Rust.Cli

/-! ## Model -/

inductive Job where
  | init (keyId : String)
  | encrypt (keyId data : String)
deriving DecidableEq, Repr

def Job.cmd : Job → Cmd
  | .init keyId => .init keyId
  | .encrypt keyId data => .encrypt keyId data

def Job.keyId : Job → String
  | .init keyId => keyId
  | .encrypt keyId _ => keyId

/-- a process: not started, between its load and its persist, or ended -/
inductive Proc where
  | ready
  | loaded (v : Vault)
  | finished (o : Outcome Printed)

structure Sys (n : ℕ) where
  disk : Disk
  procs : Fin n → Proc

section

variable {Key : Type} (c : VaultCrates Key) (passphrase : String) {n : ℕ} (jobs : Fin n → Job × CmdDraw)

/-- what a command prints if it is rejected before it loads -/
def Job.check : Job → Option Printed
  | .init keyId =>
    match validateKeyId c keyId with
    | .error e => some (.fail [s!"Invalid key_id: {e}"])
    | .ok () => none
  | .encrypt keyId data =>
    match validateKeyId c keyId with
    | .error e => some (.fail [s!"Invalid key_id: {e}"])
    | .ok () => if data.utf8ByteSize > 1024 * 1024 then some (.fail ["Data too large (max 1MB)"]) else none

/-- what a command does with the vault that it loaded, up to its persist -/
def Job.body (δ : CmdDraw) (disk : Disk) (v : Vault) : Job → Outcome (Printed × Disk)
  | .init keyId => initBody c passphrase δ disk keyId v
  | .encrypt keyId data => encryptBody c passphrase δ disk keyId data v

def step (s : Sys n) (i : Fin n) : Sys n :=
  let (job, δ) := jobs i
  match s.procs i with
  | .ready =>
    match job.check c with
    | some p => { s with procs := Function.update s.procs i (.finished (.ok p)) }
    | none =>
      match getVault c passphrase s.disk.keys with
      | .ok v => { s with procs := Function.update s.procs i (.loaded v) }
      | .error p => { s with procs := Function.update s.procs i (.finished (.error p)) }
  | .loaded v =>
    match job.body c passphrase δ s.disk v with
    | .ok (p, disk) => ⟨disk, Function.update s.procs i (.finished (.ok p))⟩
    | .error p => { s with procs := Function.update s.procs i (.finished (.error p)) }
  | .finished _ => s

/-- every process is yet to start -/
def boot (disk : Disk) : Sys n := ⟨disk, fun _ => .ready⟩

/-- the state after a schedule -/
def runFrom (disk : Disk) (schedule : List (Fin n)) : Sys n := Run.after (step c passphrase jobs) (boot disk) schedule

/-- the command adds a key to the vault that it loaded -/
def Job.Adds (v : Vault) : Job → Prop
  | .init _ => True
  | .encrypt keyId _ => Table.get keyId v.keys.data = none

/-- if the step is a persist that adds a key, no other command is between its load and its persist -/
def Exclusive (s : Sys n) (i : Fin n) : Prop :=
  ∀ v, s.procs i = .loaded v → (jobs i).1.Adds v → ∀ j, j ≠ i → ∀ v', s.procs j ≠ .loaded v'

variable {c passphrase jobs}

/-! ## Steps -/

variable (passphrase) in
theorem exec_of_check_some {job : Job} (δ : CmdDraw) (disk : Disk) {p : Printed} (h : job.check c = some p) :
    exec c passphrase δ disk job.cmd = .ok (p, disk) ∧ p.code = 1 := by
  cases job with
  | init keyId =>
    simp only [Job.check] at h
    split at h
    · rename_i e he
      cases h
      simp only [Job.cmd, exec, init, he]
      exact ⟨trivial, rfl⟩
    · cases h
  | encrypt keyId data =>
    simp only [Job.check] at h
    split at h
    · rename_i e he
      cases h
      simp only [Job.cmd, exec, Cli.encrypt, he]
      exact ⟨trivial, rfl⟩
    · rename_i hv
      split_ifs at h with hl
      cases h
      simp only [Job.cmd, exec, Cli.encrypt, hv, if_pos hl]
      exact ⟨trivial, rfl⟩

theorem exec_of_check_none {job : Job} (δ : CmdDraw) (disk : Disk) (h : job.check c = none) :
    exec c passphrase δ disk job.cmd = job.body c passphrase δ disk (.of (loaded c passphrase disk.keys)) := by
  cases job with
  | init keyId =>
    simp only [Job.check] at h
    split at h
    · cases h
    · rename_i hv
      exact init_ok hv
  | encrypt keyId data =>
    simp only [Job.check] at h
    split at h
    · cases h
    · rename_i hv
      split_ifs at h with hl
      exact Cli.encrypt_ok hv (Nat.le_of_not_lt hl)

/-- an accepted command returns -/
theorem exec_returns {job : Job} {δ : CmdDraw} (hs : Smooth δ) (disk : Disk) (h : job.check c = none) :
    ∃ p, exec c passphrase δ disk job.cmd = .ok (p, after c passphrase δ disk job.cmd) := by
  have hx : ∃ p disk', exec c passphrase δ disk job.cmd = .ok (p, disk') := by
    rw [exec_of_check_none δ disk h]
    cases job with
    | init keyId => exact ⟨_, _, initBody_of keyId _⟩
    | encrypt keyId data =>
      rw [Job.body, encryptBody_of, Rust.encrypt_ok hs.elapsed]
      exact ⟨_, _, rfl⟩
  obtain ⟨p, disk', hx⟩ := hx
  exact ⟨p, by rw [after_eq hx, hx]⟩

theorem step_finished {s : Sys n} {i : Fin n} {o : Outcome Printed} (h : s.procs i = .finished o) :
    step c passphrase jobs s i = s := by
  simp only [step, h]

theorem step_rejected {s : Sys n} {i : Fin n} {p : Printed} (h : s.procs i = .ready) (hc : (jobs i).1.check c = some p) :
    step c passphrase jobs s i = { s with procs := Function.update s.procs i (.finished (.ok p)) } := by
  simp only [step, h, hc]

variable (passphrase) in
theorem step_load {s : Sys n} {i : Fin n} (h : s.procs i = .ready) (hc : (jobs i).1.check c = none) :
    step c passphrase jobs s i =
      { s with procs := Function.update s.procs i (.loaded (.of (loaded c passphrase s.disk.keys))) } := by
  simp only [step, h, hc, getVault_eq]

/-- persisting a vault that the file still holds is the whole command at once -/
theorem step_persist {s : Sys n} {i : Fin n} (hs : Smooth (jobs i).2)
    (h : s.procs i = .loaded (.of (loaded c passphrase s.disk.keys))) (hc : (jobs i).1.check c = none) :
    ∃ p, output c passphrase (jobs i).2 s.disk (jobs i).1.cmd = .ok p ∧ step c passphrase jobs s i =
      ⟨after c passphrase (jobs i).2 s.disk (jobs i).1.cmd, Function.update s.procs i (.finished (.ok p))⟩ := by
  obtain ⟨p, hp⟩ : ∃ p, exec c passphrase (jobs i).2 s.disk (jobs i).1.cmd = .ok (p, _) := exec_returns hs s.disk hc
  refine ⟨p, by rw [output, hp]; rfl, ?_⟩
  rw [exec_of_check_none _ _ hc] at hp
  simp only [step, h, hp]

/-- an init persists what it loaded, with its key, whatever the file holds now -/
theorem step_persist_init {s : Sys n} {i : Fin n} {keyId : String} {t : List Entry} (h : s.procs i = .loaded (.of t))
    (hj : (jobs i).1 = .init keyId) (hs : Smooth (jobs i).2) : step c passphrase jobs s i =
      ⟨{ s.disk with keys := .present (keysBlob c passphrase (jobs i).2
          (Table.add keyId (keygen c.toCrates (jobs i).2.seed) t)) },
        Function.update s.procs i (.finished (.ok (printedKey c (jobs i).2 keyId)))⟩ := by
  simp only [step, h, hj, Job.body, initBody_of, hs.write, Write.file]

/-- **Alone**, the two steps of a process are the sequential command. -/
theorem alone {s : Sys n} {i : Fin n} (hs : Smooth (jobs i).2) (h : s.procs i = .ready) (hc : (jobs i).1.check c = none) :
    (Run.after (step c passphrase jobs) s [i, i]).disk = after c passphrase (jobs i).2 s.disk (jobs i).1.cmd := by
  rw [Run.after_cons, step_load passphrase h hc, Run.after_cons, Run.after_nil]
  have hload : (⟨s.disk, Function.update s.procs i (.loaded (.of (loaded c passphrase s.disk.keys)))⟩ : Sys n).procs i =
      .loaded (.of (loaded c passphrase s.disk.keys)) := Function.update_self ..
  obtain ⟨p, -, hp⟩ := step_persist hs hload hc
  rw [hp]

/-! ## The invariant -/

/-- every vault that was loaded and not yet persisted is what the file holds now -/
def Consistent (c : VaultCrates Key) (passphrase : String) (jobs : Fin n → Job × CmdDraw) (s : Sys n) : Prop :=
  ∀ i v, s.procs i = .loaded v → v = .of (loaded c passphrase s.disk.keys) ∧ (jobs i).1.check c = none

theorem consistent_boot (disk : Disk) : Consistent c passphrase jobs (boot disk) := by
  intro i v h
  cases h

/-- an encryption under an existing key writes back what it loaded -/
theorem loaded_after_encrypt (hc : c.Correct) {δ : CmdDraw} (hs : Smooth δ) {disk : Disk} {keyId data : String}
    (h : (Job.encrypt keyId data).check c = none)
    (hg : Table.get keyId (loaded c passphrase disk.keys) ≠ none) :
    loaded c passphrase (after c passphrase δ disk (.encrypt keyId data)).keys = loaded c passphrase disk.keys := by
  have hx : exec c passphrase δ disk (.encrypt keyId data) = _ := exec_of_check_none δ disk h
  rw [Job.body, encryptBody_of, Rust.encrypt_ok hs.elapsed, Outcome.map_ok] at hx
  have hw : Vault.withKey c.toCrates δ.seed (loaded c passphrase disk.keys) keyId = loaded c passphrase disk.keys :=
    if_pos (Option.isSome_iff_ne_none.2 hg)
  rw [after_eq hx, hw, hs.write, Write.file, loaded_keysBlob hc (coherent_loaded passphrase disk.keys),
    Table.load_eq_self (unique_loaded passphrase disk.keys)]

/-- one turn of process i: the state it is in afterwards, and the disk -/
inductive Turn (c : VaultCrates Key) (passphrase : String) (jobs : Fin n → Job × CmdDraw) (s : Sys n) (i : Fin n) :
    Proc → Disk → Prop where
  | stop {o : Outcome Printed} (h : s.procs i = .finished o) : Turn c passphrase jobs s i (.finished o) s.disk
  | reject {p : Printed} (h : s.procs i = .ready) (hck : (jobs i).1.check c = some p) :
    Turn c passphrase jobs s i (.finished (.ok p)) s.disk
  | load (h : s.procs i = .ready) (hck : (jobs i).1.check c = none) :
    Turn c passphrase jobs s i (.loaded (.of (loaded c passphrase s.disk.keys))) s.disk
  | persist {p : Printed} (h : s.procs i = .loaded (.of (loaded c passphrase s.disk.keys))) (hck : (jobs i).1.check c = none)
    (ho : output c passphrase (jobs i).2 s.disk (jobs i).1.cmd = .ok p) :
    Turn c passphrase jobs s i (.finished (.ok p)) (after c passphrase (jobs i).2 s.disk (jobs i).1.cmd)

/-- **What a step does** where every loaded vault still is what the file holds. -/
theorem step_turn (hs : ∀ i, Smooth (jobs i).2) {s : Sys n} (hcon : Consistent c passphrase jobs s) (i : Fin n) :
    ∃ p disk, Turn c passphrase jobs s i p disk ∧ step c passphrase jobs s i = ⟨disk, Function.update s.procs i p⟩ := by
  cases hp : s.procs i with
  | finished o => exact ⟨_, _, .stop hp, by rw [step_finished hp, ← hp, Function.update_eq_self]⟩
  | ready =>
    cases hck : (jobs i).1.check c with
    | some p => exact ⟨_, _, .reject hp hck, step_rejected hp hck⟩
    | none => exact ⟨_, _, .load hp hck, step_load passphrase hp hck⟩
  | loaded v =>
    obtain ⟨rfl, hck⟩ := hcon i v hp
    obtain ⟨p, ho, hstep⟩ := step_persist (hs i) hp hck
    exact ⟨_, _, .persist hp hck ho, hstep⟩

/-- **The step lemma**: the invariant survives every step that is exclusive. -/
theorem consistent_step (hc : c.Correct) (hs : ∀ i, Smooth (jobs i).2) {s : Sys n} {i : Fin n}
    (hinv : Consistent c passphrase jobs s) (hex : Exclusive jobs s i) :
    Consistent c passphrase jobs (step c passphrase jobs s i) := by
  obtain ⟨p, disk, hturn, hstep⟩ := step_turn hs hinv i
  rw [hstep]
  intro j v hj
  by_cases hji : j = i
  · subst hji
    simp only [Function.update_self] at hj
    cases hturn with
    | load h hck =>
      cases hj
      exact ⟨rfl, hck⟩
    | stop h => cases hj
    | reject h hck => cases hj
    | persist h hck ho => cases hj
  · simp only [Function.update_of_ne hji] at hj
    obtain ⟨rfl, hckj⟩ := hinv j v hj
    refine ⟨?_, hckj⟩
    cases hturn with
    | persist h hck ho =>
      by_cases hadds : (jobs i).1.Adds (.of (loaded c passphrase s.disk.keys))
      · exact absurd hj (hex _ h hadds j hji _)
      · cases hjob : (jobs i).1 with
        | init keyId =>
          rw [hjob] at hadds
          exact absurd trivial hadds
        | encrypt keyId data =>
          rw [hjob] at hadds hck
          exact congrArg _ (loaded_after_encrypt hc (hs i) hck hadds).symm
    | stop h => rfl
    | reject h hck => rfl
    | load h hck => rfl

/-! ## What the commands report -/

/-- a command that reports success leaves a key under its id -/
theorem keyring_of_reported (hc : c.Correct) {job : Job} {δ : CmdDraw} (hs : Smooth δ) {disk : Disk}
    (h : job.check c = none) : keyring c passphrase (after c passphrase δ disk job.cmd) job.keyId ≠ none := by
  rw [keyring_after hc hs]
  cases job with
  | init keyId =>
    have hv : validateKeyId c keyId = .ok () := by
      rcases validateKeyId_ok_or (c := c) keyId with hv | ⟨e, he⟩
      · exact hv
      · simp [Job.check, he] at h
    simp [Job.cmd, Job.keyId, Keyring.step, hv]
  | encrypt keyId data =>
    have hv : validateKeyId c keyId = .ok () ∧ data.utf8ByteSize ≤ 1024 * 1024 := by
      rcases validateKeyId_ok_or (c := c) keyId with hv | ⟨e, he⟩
      · refine ⟨hv, Nat.le_of_not_lt fun hl => ?_⟩
        simp [Job.check, hv, hl] at h
      · simp [Job.check, he] at h
    simp [Job.cmd, Job.keyId, Keyring.step, hv]

theorem update_ne_none {K : Keyring} {k id : String} {b : KeyPair × Bytes} (h : K id ≠ none) :
    Function.update K k (some b) id ≠ none := by
  by_cases hid : id = k
  · simp [hid]
  · rwa [Function.update_of_ne hid]

/-- no command of this kind takes a key away -/
theorem keyring_step_ne_none {δ : CmdDraw} {K : Keyring} {id : String} (job : Job) (h : K id ≠ none) :
    K.step c δ job.cmd id ≠ none := by
  cases job with
  | init keyId =>
    simp only [Job.cmd, Keyring.step]
    split_ifs
    · exact update_ne_none h
    · exact h
  | encrypt keyId data =>
    simp only [Job.cmd, Keyring.step]
    split_ifs
    · exact update_ne_none h
    · exact h

/-- every reported id has a key in the file -/
def Reported (c : VaultCrates Key) (passphrase : String) (jobs : Fin n → Job × CmdDraw) (s : Sys n) : Prop :=
  ∀ i p, s.procs i = .finished (.ok p) → p.code = 0 → keyring c passphrase s.disk (jobs i).1.keyId ≠ none

theorem reported_step (hc : c.Correct) (hs : ∀ i, Smooth (jobs i).2) {s : Sys n} {i : Fin n}
    (hcon : Consistent c passphrase jobs s) (hinv : Reported c passphrase jobs s) :
    Reported c passphrase jobs (step c passphrase jobs s i) := by
  obtain ⟨p, disk, hturn, hstep⟩ := step_turn hs hcon i
  rw [hstep]
  intro j q hj hq
  by_cases hji : j = i
  · subst hji
    simp only [Function.update_self] at hj
    cases hturn with
    | stop h => exact hinv j q (h.trans hj) hq
    | reject h hck =>
      cases hj
      exact absurd hq (by simp [(exec_of_check_some passphrase (jobs j).2 s.disk hck).2])
    | load h hck => cases hj
    | persist h hck ho => exact keyring_of_reported hc (hs j) hck
  · simp only [Function.update_of_ne hji] at hj
    have hkey := hinv j q hj hq
    cases hturn with
    | persist h hck ho =>
      rw [keyring_after hc (hs i)]
      exact keyring_step_ne_none _ hkey
    | stop h => exact hkey
    | reject h hck => exact hkey
    | load h hck => exact hkey

/-! ## What the commands print -/

/-- the inits of an id have ended -/
def InitsDone (jobs : Fin n → Job × CmdDraw) (s : Sys n) (k : String) : Prop :=
  ∀ j, (jobs j).1 = .init k → ∃ o, s.procs j = .finished o

/-- once process i has loaded, the inits of its id have ended, and what it prints is sealed with the key in the file -/
def Sealed (c : VaultCrates Key) (passphrase : String) (jobs : Fin n → Job × CmdDraw) (i : Fin n) (k d : String)
    (s : Sys n) : Prop :=
  s.procs i ≠ .ready → InitsDone jobs s k ∧
    ∀ ct nonce, s.procs i = .finished (.ok (printedCiphertext ⟨nonce, ct, ""⟩)) →
      validateKeyId c k = .ok () ∧ ∃ kp sk, keyring c passphrase s.disk k = some (kp, sk) ∧
        Rust.encrypt c.toCrates (jobs i).2.toDraw (utf8 d) sk = .ok ⟨nonce, ct, ""⟩

theorem Job.cmd_ne {job : Job} {k : String} (h : job ≠ .init k) :
    job.cmd ≠ .init k ∧ job.cmd ≠ .deleteKey k ∧ job.cmd ≠ .clearCache := by
  cases job with
  | init keyId =>
    refine ⟨fun e => h ?_, by simp [Job.cmd], by simp [Job.cmd]⟩
    cases e
    rfl
  | encrypt keyId data => exact ⟨by simp [Job.cmd], by simp [Job.cmd], by simp [Job.cmd]⟩

theorem initsDone_update {s : Sys n} {k : String} {i : Fin n} {p : Proc} (h : InitsDone jobs s k)
    (hp : (jobs i).1 = .init k → ∃ o, p = .finished o) (disk : Disk) :
    InitsDone jobs ⟨disk, Function.update s.procs i p⟩ k := by
  intro j hj
  by_cases hji : j = i
  · subst hji
    simpa only [Function.update_self] using hp hj
  · simpa only [Function.update_of_ne hji] using h j hj

theorem sealed_step (hc : c.Correct) (hs : ∀ i, Smooth (jobs i).2) {s : Sys n} {i i₀ : Fin n} {k d : String}
    (hjob : (jobs i₀).1 = .encrypt k d) (hcon : Consistent c passphrase jobs s)
    (hload : i = i₀ → s.procs i₀ = .ready → InitsDone jobs s k) (hinv : Sealed c passphrase jobs i₀ k d s) :
    Sealed c passphrase jobs i₀ k d (step c passphrase jobs s i) := by
  obtain ⟨p, disk, hturn, hstep⟩ := step_turn hs hcon i
  rw [hstep]
  intro h0
  by_cases hi : i = i₀
  · subst hi
    -- the inits had ended before its turn, and it is no init itself
    have hdone : InitsDone jobs s k := by
      by_cases hready : s.procs i = .ready
      · exact hload rfl hready
      · exact (hinv hready).1
    refine ⟨initsDone_update hdone (fun he => ?_) _, fun ct nonce hf => ?_⟩
    · rw [hjob] at he
      cases he
    · simp only [Function.update_self] at hf
      cases hturn with
      | stop h => exact (hinv (by simp [h])).2 ct nonce (h.trans hf)
      | reject h hck =>
        cases hf
        have hcode := (exec_of_check_some passphrase (jobs i).2 s.disk hck).2
        cases hcode
      | load h hck => cases hf
      | persist h hck ho =>
        cases hf
        rw [hjob] at ho ⊢
        exact encrypt_key hc (hs i) ho
  · simp only [Function.update_of_ne (Ne.symm hi)] at h0
    obtain ⟨hdone, hsealed⟩ := hinv h0
    -- whoever has not ended yet is no init of k
    have hne : (∀ o, s.procs i ≠ .finished o) → (jobs i).1 ≠ .init k := by
      intro hrunning he
      obtain ⟨o, ho⟩ := hdone i he
      exact hrunning o ho
    refine ⟨initsDone_update hdone (fun he => ?_) _, fun ct nonce hf => ?_⟩
    · cases hturn with
      | load h hck => exact absurd he (hne fun o => by simp [h])
      | stop h => exact ⟨_, rfl⟩
      | reject h hck => exact ⟨_, rfl⟩
      | persist h hck ho => exact ⟨_, rfl⟩
    · simp only [Function.update_of_ne (Ne.symm hi)] at hf
      obtain ⟨hv, kp, sk, hkey, henc⟩ := hsealed ct nonce hf
      refine ⟨hv, kp, sk, ?_, henc⟩
      cases hturn with
      | persist h hck ho =>
        obtain ⟨hi', hd, hcl⟩ := Job.cmd_ne (hne fun o => by simp [h])
        rw [keyring_after hc (hs i)]
        exact Keyring.step_keep hkey hi' hd hcl
      | stop h => exact hkey
      | reject h hck => exact hkey
      | load h hck => exact hkey

/-! ## The main result -/

/-- **No lost update without overlap.** Where no command that adds a key persists between another command's load and persist,
the file holds a key for every id that a command reported, and a printed ciphertext decrypts if the inits of its id had ended
when the encryption loaded. -/
theorem no_lost_update (hc : c.Correct) (hs : ∀ i, Smooth (jobs i).2) (disk : Disk) (schedule : List (Fin n))
    (hex : ∀ pre i post, schedule = pre ++ i :: post → Exclusive jobs (runFrom c passphrase jobs disk pre) i) :
    let final := runFrom c passphrase jobs disk schedule
    (∀ i p, final.procs i = .finished (.ok p) → p.code = 0 →
      (jobs i).1.keyId ∈ (loaded c passphrase final.disk.keys).map Prod.fst) ∧
    ∀ i k d ct nonce, (jobs i).1 = .encrypt k d →
      final.procs i = .finished (.ok (.ok [s!"Ciphertext: {ct}", s!"Nonce: {nonce}"])) →
      (∀ pre post, schedule = pre ++ i :: post → (runFrom c passphrase jobs disk pre).procs i = .ready →
        InitsDone jobs (runFrom c passphrase jobs disk pre) k) →
      ∀ δ, Smooth δ → output c passphrase δ final.disk (.decrypt k ct nonce) = .ok (.ok [d]) := by
  intro final
  refine ⟨fun i p hp hcode => ?_, fun i k d ct nonce hjob hp hload δ hδ => ?_⟩
  · have hinv : Consistent c passphrase jobs final ∧ Reported c passphrase jobs final :=
      Run.EachStep.after (P := Exclusive jobs) (fun s => Consistent c passphrase jobs s ∧ Reported c passphrase jobs s)
        (fun s j hinv hexc => ⟨consistent_step hc hs hinv.1 hexc, reported_step hc hs hinv.1 hinv.2⟩)
        ⟨consistent_boot disk, fun j q hj => by cases hj⟩ hex
    have hne := hinv.2 i p hp hcode
    rw [← Table.get_isSome_iff]
    exact Option.isSome_iff_ne_none.2 hne
  · have hinv : Consistent c passphrase jobs final ∧ Sealed c passphrase jobs i k d final :=
      Run.EachStep.after (P := fun s j => Exclusive jobs s j ∧ (j = i → s.procs i = .ready → InitsDone jobs s k))
        (fun s => Consistent c passphrase jobs s ∧ Sealed c passphrase jobs i k d s)
        (fun s j hinv hexc => ⟨consistent_step hc hs hinv.1 hexc.1, sealed_step hc hs hjob hinv.1 hexc.2 hinv.2⟩)
        ⟨consistent_boot disk, fun h0 => absurd rfl h0⟩
        (fun pre j post hpre => ⟨hex pre j post hpre, fun hj => by subst hj; exact hload pre post hpre⟩)
    obtain ⟨hv, kp, sk, hkey, henc⟩ := (hinv.2 (by rw [hp]; simp)).2 ct nonce hp
    exact output_decrypt_same hc hδ hv hkey henc

end

/-- two inits -/
def twoInits : Fin 2 → Job × CmdDraw := ![(.init "a", tinyDraw [1]), (.init "b", tinyDraw [2])]

theorem smooth_twoInits (i : Fin 2) : Smooth (twoInits i).2 := by
  fin_cases i <;> exact smooth_tinyDraw _

theorem check_twoInits (i : Fin 2) : (twoInits i).1.check tiny = none := by
  fin_cases i
  · simp [twoInits, Job.check, valid_a]
  · simp [twoInits, Job.check, valid_b]

/-- the two inits one after the other -/
theorem exclusive_serial :
    Run.EachStep (step tiny "p" twoInits) (Exclusive twoInits) (boot ⟨.missing, .missing⟩) [0, 0, 1, 1] := by
  have h0 := step_load "p" (s := boot ⟨.missing, .missing⟩) rfl (check_twoInits 0)
  rw [Run.eachStep_cons, h0, Run.eachStep_cons, step_persist_init (t := loaded tiny "p" .missing) rfl rfl (smooth_twoInits 0),
    Run.eachStep_cons, step_load "p" rfl (check_twoInits 1), Run.eachStep_cons]
  refine ⟨?_, ?_, ?_, ?_, Run.eachStep_nil _⟩
  all_goals
    intro v hv hadds j hj v' hv'
    fin_cases j
    all_goals simp [boot] at *

theorem no_lost_update_serial :
    let final := runFrom tiny "p" twoInits ⟨.missing, .missing⟩ [0, 0, 1, 1]
    (∀ i p, final.procs i = .finished (.ok p) → p.code = 0 →
      (twoInits i).1.keyId ∈ (loaded tiny "p" final.disk.keys).map Prod.fst) ∧
    ∀ i k d ct nonce, (twoInits i).1 = .encrypt k d →
      final.procs i = .finished (.ok (.ok [s!"Ciphertext: {ct}", s!"Nonce: {nonce}"])) →
      (∀ pre post, [0, 0, 1, 1] = pre ++ i :: post →
        (runFrom tiny "p" twoInits ⟨.missing, .missing⟩ pre).procs i = .ready →
        InitsDone twoInits (runFrom tiny "p" twoInits ⟨.missing, .missing⟩ pre) k) →
      ∀ δ, Smooth δ → output tiny "p" δ final.disk (.decrypt k ct nonce) = .ok (.ok [d]) :=
  no_lost_update tiny_correct smooth_twoInits _ _ exclusive_serial

/-- Both inits load the empty file, and the one that persists last overwrites the other's key. -/
theorem overlapping_inits :
    let final := runFrom tiny "p" twoInits ⟨.missing, .missing⟩ [0, 1, 0, 1]
    final.procs 0 = .finished (.ok (printedKey tiny (tinyDraw [1]) "a")) ∧
    final.procs 1 = .finished (.ok (printedKey tiny (tinyDraw [2]) "b")) ∧
    (loaded tiny "p" final.disk.keys).map Prod.fst = ["b"] := by
  have h0 := step_load "p" (s := boot ⟨.missing, .missing⟩) rfl (check_twoInits 0)
  rw [runFrom, Run.after_cons, h0, Run.after_cons, step_load "p" rfl (check_twoInits 1), Run.after_cons,
    step_persist_init (t := loaded tiny "p" .missing) rfl rfl (smooth_twoInits 0), Run.after_cons,
    step_persist_init (t := loaded tiny "p" .missing) rfl rfl (smooth_twoInits 1), Run.after_nil]
  refine ⟨rfl, rfl, ?_⟩
  have hcoh : Coherent tiny (Table.add "b" (keygen tiny.toCrates [2]) (loaded tiny "p" .missing)) :=
    coherent_add (coherent_loaded "p" .missing) (coherent_keygen tiny_correct [2])
  exact congrArg (List.map Prod.fst) (loaded_keysBlob tiny_correct hcoh "p" (tinyDraw [2]))

end AbirGuard.Rust.Interleaving
