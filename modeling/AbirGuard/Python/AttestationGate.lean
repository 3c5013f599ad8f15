/-
Does attestation gate decryption in the Python vault?

The check of `retrieve` raises inside a `try` whose handler catches every exception, its own included, so a proof that fails
to verify is logged and the decryption goes on. What is left of the gate is what the proof and the ciphertext happen to be.

- `run_gated_iff`: over the runs of a vault, in either mode, a retrieval whose attestation fails raises at every step if and
  only if at every retrieval the proof verifies or there is nothing to return.
- `ungated_retrieval`: a fresh vault, whose proof was never computed, returns the plaintext.
-/
import AbirGuard.Core.Run
import AbirGuard.Python.VaultFrames

namespace AbirGuard.Python.Vault

open AbirGuard.Core Raise

/-! ## Model -/

/-- what can be called on a vault, its verifier, its rotation manager and its proof -/
inductive Call where
  | generateKeypair (keyId : Text)
  | store (ηRotate : Host) (keyId : Text) (plaintext : Bytes)
  | retrieve (keyId : Text) (ciphertext : Ciphertext)
  | removeKeypair (keyId : Text)
  | clearCache
  | rotateKey (keyId : Text)
  | registerKey (keyId : Text) (maxLifetime : Option ℚ) (maxOperations : Option ℤ)
  | addCanary
  | checkCanary
  | enableFipsMode
  | disableFipsMode
  | verifyRuntimeIntegrity (challenge : Option Text)
  | computeProof (challenge expectedBinaryHash : Text)
  | generateChallenge
  | registerBinary (name sha256Hash : Text)

/-- `vault.integrity_proof.compute(challenge, expected_binary_hash)` -/
def computeProof (l : Libs) (η : Host) (challenge expectedBinaryHash : Text) : VaultM Unit := do
  let s ← get
  let (result, proof) := s.vault.integrityProof.compute l η challenge expectedBinaryHash
  update fun v => { v with integrityProof := proof }
  lift result

/-- a call on the verifier -/
def verifier (g : AttestationVerifier → AttestationVerifier) : VaultM Unit :=
  update fun v => { v with attestationVerifier := v.attestationVerifier.map g }

/-- what a call returns is dropped -/
def ignore {α : Type} (x : VaultM α) : VaultM Unit := do
  let _ ← x
  return ()

def Call.run (l : Libs) (η : Host) : Call → VaultM Unit
  | .generateKeypair keyId => ignore (Vault.generateKeypair l η keyId)
  | .store ηRotate keyId plaintext => ignore (Vault.store l η ηRotate keyId plaintext)
  | .retrieve keyId ciphertext => ignore (Vault.retrieve l η keyId ciphertext)
  | .removeKeypair keyId => Vault.removeKeypair l η keyId
  | .clearCache => Vault.clearCache l η
  | .rotateKey keyId => Vault.rotateKey l η keyId
  | .registerKey keyId maxLifetime maxOperations => rotation (·.registerKey η keyId maxLifetime maxOperations)
  | .addCanary => ignore (Vault.addCanary l η)
  | .checkCanary => ignore (Vault.checkCanary l η)
  | .enableFipsMode => Vault.enableFipsMode l η
  | .disableFipsMode => Vault.disableFipsMode l η
  | .verifyRuntimeIntegrity challenge => ignore (Vault.verifyRuntimeIntegrity l η challenge)
  | .computeProof challenge expectedBinaryHash => Vault.computeProof l η challenge expectedBinaryHash
  | .generateChallenge => verifier fun a => (a.generateChallenge η).2
  | .registerBinary name sha256Hash => verifier (·.registerBinary name sha256Hash)

/-- the session after a call, which may have raised -/
def step (l : Libs) (s : Session) (c : Host × Call) : Session := (Raise.run (c.2.run l c.1) s).2

/-- a process that has just built its vault -/
def start (η : Host) (fipsMode mlkemFips : Bool) : Session := ⟨.new η fipsMode, mlkemFips⟩

/-- `verify_proof` of the vault's verifier, on the vault's own proof -/
def verifyOwnProof (l : Libs) (η : Host) (v : Vault) : Except Exc Bool :=
  match v.attestationVerifier with
  | some a => a.verifyProof l η v.integrityProof.toDict []
  | none => .ok true

/-- if this is a retrieval and the vault's own proof does not verify, it raises -/
def Gated (l : Libs) (s : Session) (c : Host × Call) : Prop :=
  ∀ keyId ct, c.2 = .retrieve keyId ct → verifyOwnProof l c.1 s.vault ≠ .ok true →
    ∃ e, (Raise.run (retrieve l c.1 keyId ct) s).1 = .error e

/-- the proof was computed, for a challenge with an encoding that was not issued more than five minutes ago -/
def Attested (l : Libs) (η : Host) (v : Vault) : Prop :=
  v.integrityProof.signature ≠ .str "" ∧ (v.integrityProof.challenge.format l).encode.isSome ∧
    ∀ a, v.attestationVerifier = some a → a.stale η v.integrityProof.challenge = false

/-- the id is valid and has a key under which the ciphertext opens in the mode of the vault -/
def Readable (l : Libs) (v : Vault) (keyId : Text) (ct : Ciphertext) : Prop :=
  validateKeyId keyId = .ok keyId ∧ ∃ key p, v.secretKeys.get keyId = some key ∧ ct.Opens l v.usesFips key p

/-- a retrieval finds an attested proof or nothing to return -/
def Covered (l : Libs) (s : Session) (c : Host × Call) : Prop :=
  ∀ keyId ct, c.2 = .retrieve keyId ct → Attested l c.1 s.vault ∨ ¬ Readable l s.vault keyId ct

variable {l : Libs} {η : Host}

/-! ## The gate -/

/-- whatever a program logs, it leaves the attestation alone -/
theorem allows_trust : Allows l (fun s t => trust t = trust s) fun _ => True where
  silent _ _ _ h := h
  logged _ _ _ _ _ _ _ := rfl
  trans _ _ _ h h' := h'.trans h

theorem moves_ignore {R : Session → Session → Prop} {actions : String → Prop} (h : Allows l R actions) {α : Type} {x : VaultM α}
    (hx : Moves R x) : Moves R (ignore x) := moves_bind h.trans hx fun _ => moves_pure h _

/-- the vault has a verifier, and nothing but `compute` was called on its proof -/
def Tracked (l : Libs) (s : Session) : Prop := s.vault.attestationVerifier.isSome ∧ s.vault.integrityProof.Genuine l

theorem tracked_start (fipsMode mlkemFips : Bool) : Tracked l (start η fipsMode mlkemFips) :=
  ⟨rfl, IntegrityProof.genuine_new η⟩

theorem Tracked.of_moves {x : VaultM Unit} (hx : Moves (fun s t => trust t = trust s) x) {s : Session} (h : Tracked l s) :
    Tracked l (Raise.run x s).2 := by
  have htrust : trust (Raise.run x s).2 = trust s := hx s
  rw [trust, trust, Prod.mk.injEq] at htrust
  rw [Tracked, htrust.1, htrust.2]
  exact h

theorem step_verifyRuntimeIntegrity (challenge : Option Text) {s : Session} (h : Tracked l s) :
    Tracked l (Raise.run (ignore (verifyRuntimeIntegrity l η challenge)) s).2 := by
  obtain ⟨a, ha⟩ := Option.isSome_iff_exists.1 h.1
  have hgen := IntegrityProof.genuine_compute η (challenge.getD (Text.hexdigest η.runtimeChallenge.toList)) [] h.2
  have hs : (Raise.run (ignore (verifyRuntimeIntegrity l η challenge)) s).2.vault =
      { s.vault with integrityProof :=
        (s.vault.integrityProof.compute l η (challenge.getD (Text.hexdigest η.runtimeChallenge.toList)) []).2 } := by
    rw [ignore, verifyRuntimeIntegrity, run_bind, run_get_bind, ha]
    dsimp only
    rw [update, run_modify_bind, run_lift_bind]
    cases (s.vault.integrityProof.compute l η (challenge.getD (Text.hexdigest η.runtimeChallenge.toList)) []).1 with
    | error e => rfl
    | ok u =>
      dsimp only
      rw [run_lift]
      cases a.verifyProof l η (s.vault.integrityProof.compute l η
        (challenge.getD (Text.hexdigest η.runtimeChallenge.toList)) []).2.toDict [] <;> rfl
  rw [Tracked, hs]
  exact ⟨h.1, hgen⟩

theorem vault_computeProof (challenge expected : Text) (s : Session) :
    (Raise.run (computeProof l η challenge expected) s).2.vault =
      { s.vault with integrityProof := (s.vault.integrityProof.compute l η challenge expected).2 } := by
  rw [computeProof, run_get_bind]
  rcases s.vault.integrityProof.compute l η challenge expected with ⟨result, proof⟩
  rfl

theorem step_computeProof (challenge expected : Text) {s : Session} (h : Tracked l s) :
    Tracked l (Raise.run (computeProof l η challenge expected) s).2 := by
  rw [Tracked, vault_computeProof]
  exact ⟨h.1, IntegrityProof.genuine_compute η challenge expected h.2⟩

theorem step_verifier (g : AttestationVerifier → AttestationVerifier) {s : Session} (h : Tracked l s) :
    Tracked l (Raise.run (verifier g) s).2 := by
  obtain ⟨a, ha⟩ := Option.isSome_iff_exists.1 h.1
  refine ⟨?_, h.2⟩
  rw [verifier, update, run_modify, ha]
  rfl

theorem tracked_step {s : Session} (c : Host × Call) (h : Tracked l s) : Tracked l (step l s c) := by
  obtain ⟨η, c⟩ := c
  have ha := allows_trust (l := l)
  cases c with
  | generateKeypair keyId => exact h.of_moves (moves_ignore ha (moves_generateKeypair ha trivial keyId))
  | store ηRotate keyId plaintext =>
    exact h.of_moves (moves_ignore ha (moves_store ha trivial trivial trivial trivial ηRotate keyId plaintext))
  | retrieve keyId ct =>
    exact h.of_moves (moves_ignore ha (moves_retrieve ha trivial trivial trivial trivial keyId ct))
  | removeKeypair keyId => exact h.of_moves (moves_removeKeypair ha trivial keyId)
  | clearCache => exact h.of_moves (moves_clearCache ha trivial)
  | rotateKey keyId => exact h.of_moves (moves_rotateKey ha trivial trivial keyId)
  | registerKey keyId maxLifetime maxOperations => exact h.of_moves (moves_rotation ha _)
  | addCanary => exact h.of_moves (moves_ignore ha (moves_addCanary ha trivial))
  | checkCanary => exact h.of_moves (moves_ignore ha (moves_checkCanary ha trivial))
  | enableFipsMode => exact h.of_moves (moves_enableFipsMode ha trivial)
  | disableFipsMode => exact h.of_moves (moves_disableFipsMode ha trivial)
  | verifyRuntimeIntegrity challenge => exact step_verifyRuntimeIntegrity challenge h
  | computeProof challenge expected => exact step_computeProof challenge expected h
  | generateChallenge => exact step_verifier _ h
  | registerBinary name sha256Hash => exact step_verifier _ h

/-- the own proof of a vault verifies if and only if it is attested -/
theorem verifyOwnProof_iff {s : Session} (h : Tracked l s) :
    verifyOwnProof l η s.vault = .ok true ↔ Attested l η s.vault := by
  obtain ⟨a, ha⟩ := Option.isSome_iff_exists.1 h.1
  rw [verifyOwnProof, ha, Attested, ha]
  dsimp only
  rw [IntegrityProof.verifyProof_genuine_iff h.2]
  simp

theorem retrieve_error_iff {keyId : Text} {ct : Ciphertext} {s : Session} :
    (∃ e, (Raise.run (retrieve l η keyId ct) s).1 = .error e) ↔ ¬ Readable l s.vault keyId ct := by
  have hok : (∃ p, (Raise.run (retrieve l η keyId ct) s).1 = .ok p) ↔ Readable l s.vault keyId ct := by
    simp only [retrieve_ok_iff, exists_and_left, Readable]
    refine and_congr_right fun _ => ?_
    constructor
    · rintro ⟨p, key, hk, ho⟩
      exact ⟨key, hk, p, ho⟩
    · rintro ⟨key, hk, p, ho⟩
      exact ⟨p, key, hk, ho⟩
  rw [← hok]
  cases (Raise.run (retrieve l η keyId ct) s).1 with
  | error e => simp
  | ok p => simp

theorem gated_iff_covered {s : Session} (h : Tracked l s) (c : Host × Call) : Gated l s c ↔ Covered l s c := by
  refine forall_congr' fun keyId => forall_congr' fun ct => forall_congr' fun _ => ?_
  rw [Ne, verifyOwnProof_iff h, retrieve_error_iff, or_iff_not_imp_left]

/-- **Attestation gates the retrievals of a run if and only if each one finds an attested proof or nothing to return.** -/
theorem run_gated_iff (l : Libs) (η : Host) (fipsMode mlkemFips : Bool) (run : List (Host × Call)) :
    Run.EachStep (step l) (Gated l) (start η fipsMode mlkemFips) run ↔
      Run.EachStep (step l) (Covered l) (start η fipsMode mlkemFips) run :=
  Run.eachStep_iff (Tracked l) (fun c _ _ h => gated_iff_covered h c) (fun c _ _ h _ => tracked_step c h)
    (tracked_start fipsMode mlkemFips)

/-! ## A fresh vault -/

/-- keys and hashes are zeros, and the cipher appends a tag of zeros -/
def zeroLibs : Libs where
  hkdf _ _ _ := Vector.replicate 32 0
  gcmEncrypt _ _ p := p ++ List.replicate 16 0
  gcmDecrypt _ _ c := some (c.take (c.length - 16))
  sha256 _ := Vector.replicate 32 0
  sha3_256 _ := Vector.replicate 32 0
  float := ⟨fun _ => ⟨false, [0], some [0], none⟩, fun _ => 0⟩
  itemsRepr _ := "[]"

def zeroHost : Host where
  clock _ := 0
  secret := Vector.replicate 32 0
  nonce := Vector.replicate 12 0
  canaryId := Vector.replicate 8 0
  memoryCanary := Vector.replicate 16 0
  challenge := Vector.replicate 32 0
  runtimeChallenge := Vector.replicate 16 0
  binary := none
  environ := []
  pid := 1

def hostWithSecret (b : UInt8) : Host := { zeroHost with secret := Vector.replicate 32 b }

/-- one byte is stored under the id a, and its ciphertext retrieved -/
def storeRun : List (Host × Call) := [(zeroHost, .store zeroHost "a" [7])]

def storedCiphertext : Ciphertext := ⟨b64encode (List.replicate 12 0), b64encode [7], b64encode (List.replicate 16 0)⟩

def stored (fipsMode : Bool) : Session := Run.after (step zeroLibs) (start zeroHost fipsMode false) storeRun

theorem retrieval_of_stored (fipsMode : Bool) :
    verifyOwnProof zeroLibs zeroHost (stored fipsMode).vault = .ok false ∧
    (Raise.run (store zeroLibs zeroHost zeroHost "a" [7]) (start zeroHost fipsMode false)).1 = .ok storedCiphertext ∧
    (Raise.run (retrieve zeroLibs zeroHost "a" storedCiphertext) (stored fipsMode)).1 = .ok [7] ∧
    ¬ Run.EachStep (step zeroLibs) (Gated zeroLibs) (start zeroHost fipsMode false)
      (storeRun ++ [(zeroHost, .retrieve "a" storedCiphertext)]) := by
  have hverify : verifyOwnProof zeroLibs zeroHost (stored fipsMode).vault = .ok false := by
    revert fipsMode
    decide +kernel
  have hstore : (Raise.run (store zeroLibs zeroHost zeroHost "a" [7]) (start zeroHost fipsMode false)).1 =
      .ok storedCiphertext := by
    revert fipsMode
    decide +kernel
  have hretrieve : (Raise.run (retrieve zeroLibs zeroHost "a" storedCiphertext) (stored fipsMode)).1 = .ok [7] := by
    revert fipsMode
    decide +kernel
  refine ⟨hverify, hstore, hretrieve, fun hgated => ?_⟩
  obtain ⟨e, he⟩ := hgated storeRun _ [] rfl "a" storedCiphertext rfl (by
    rw [← stored, hverify]
    simp)
  rw [← stored] at he
  exact absurd (hretrieve.symm.trans he) (by simp)

theorem ungated_retrieval :
    verifyOwnProof zeroLibs zeroHost (stored true).vault = .ok false ∧
    (Raise.run (store zeroLibs zeroHost zeroHost "a" [7]) (start zeroHost true false)).1 = .ok storedCiphertext ∧
    (Raise.run (retrieve zeroLibs zeroHost "a" storedCiphertext) (stored true)).1 = .ok [7] ∧
    ¬ Run.EachStep (step zeroLibs) (Gated zeroLibs) (start zeroHost true false)
      (storeRun ++ [(zeroHost, .retrieve "a" storedCiphertext)]) := retrieval_of_stored true

end AbirGuard.Python.Vault
