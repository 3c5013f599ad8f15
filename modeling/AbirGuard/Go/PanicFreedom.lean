/-
Which interleavings of calls on the Go vault panic?

Encrypt gives up the mutex to generate a missing key and dereferences the key afterwards without looking again, and Decrypt
hands the cipher whatever nonce it is given.

- `panics_iff`: the sections that end in a panic, by the state before them.
- `never_panics_iff`: no call of a run panics if and only if none of its steps is such a section.
-/
import AbirGuard.Go.Calls

namespace AbirGuard.Go

open AbirGuard.Core Raise

variable {l : Libs} {η : Host} {v : Vault} {op : Op} {pc : Pc}

/-- the section dereferences the entry of a missing key, or calls the cipher with a nonce that has not 12 bytes or with a text
that is too long -/
def Panics (η : Host) (u : Keys) (op : Op) (pc : Pc) : Prop :=
  match pc, op with
  | .start, .decrypt keyID ct => ∃ secret nonce sealed, ReachesOpen u keyID ct secret nonce sealed ∧ nonce.length ≠ 12
  | .start, .encrypt keyID plaintext =>
    (validateKeyID keyID = .ok () ∧ keyID ∉ u.revoked) ∧ keyID ∈ u.keypairs ∧
      (∃ nonce, η.nonce = .ok nonce) ∧ gcmMaxText < plaintext.length
  | .resume, .encrypt keyID plaintext =>
    keyID ∉ u.keypairs ∨ (∃ nonce, η.nonce = .ok nonce) ∧ gcmMaxText < plaintext.length
  | _, _ => False

/-- where a panic leads -/
def Pc.Panicked (pc : Pc) : Prop := ∃ msg, pc = .ended (.error (.panic msg))

theorem ends_panicked_iff {α : Type} (x : VaultM α) (value : α → Value) :
    (ends x value v).1.Panicked ↔ ∃ msg, (Raise.run x v).1 = .error (.panic msg) := by
  rw [ends_eq]
  unfold Pc.Panicked
  cases (Raise.run x v).1 <;> simp [Except.map]

theorem goes_panicked_iff {α : Type} (x : VaultM α) {next : α → Pc} (hnext : ∀ a, ¬ (next a).Panicked) :
    (goes x next v).1.Panicked ↔ ∃ msg, (Raise.run x v).1 = .error (.panic msg) := by
  rw [goes]
  cases (Raise.run x v).1 with
  | ok a => simp [hnext a]
  | error f => simp [Pc.Panicked]

theorem not_panics_generateKeypair (keyID : GoString) :
    ¬ ∃ msg, (Raise.run (generateKeypair η keyID) v).1 = .error (.panic msg) := by
  rintro ⟨msg, h⟩
  rcases generateKeypair_cases (η := η) keyID v with ⟨-, msg', hrun⟩ | ⟨s, -, -, ⟨kp, hkp⟩, -⟩
  · rw [hrun] at h
    cases h
  · cases hkp.symm.trans h

theorem encryptResume_panics_iff (keyID : GoString) (plaintext : Bytes) :
    (∃ msg, (Raise.run (encryptResume l η keyID plaintext) v).1 = .error (.panic msg)) ↔
      keyID ∉ v.keypairs ∨ (∃ nonce, η.nonce = .ok nonce) ∧ gcmMaxText < plaintext.length := by
  rw [← Finmap.lookup_eq_none]
  rcases encryptResume_cases (l := l) (η := η) keyID plaintext v with
    ⟨hno, msg, hrun⟩ | ⟨kp, hkp, ⟨e, msg, hnonce, hrun⟩ | ⟨nonce, hnonce, ⟨hlong, msg, hrun⟩ | ⟨hshort, hok, -⟩⟩⟩
  · rw [hrun]
    exact iff_of_true ⟨msg, rfl⟩ (Or.inl hno)
  · rw [hrun, hkp, hnonce]
    simp
  · rw [hrun]
    exact iff_of_true ⟨msg, rfl⟩ (Or.inr ⟨⟨nonce, hnonce⟩, hlong⟩)
  · rw [hok, hkp]
    simp [Nat.not_lt.2 hshort]

theorem encryptBegin_panics_iff (keyID : GoString) (plaintext : Bytes) :
    (∃ msg, (Raise.run (encryptBegin l η keyID plaintext) v).1 = .error (.panic msg)) ↔
      (validateKeyID keyID = .ok () ∧ keyID ∉ v.revoked) ∧ keyID ∈ v.keypairs ∧
        (∃ nonce, η.nonce = .ok nonce) ∧ gcmMaxText < plaintext.length := by
  rcases encryptBegin_cases (l := l) (η := η) keyID plaintext v with ⟨hno, msg, hrun⟩ | ⟨hvalid, hrevoked, hrun⟩
  · rw [hrun]
    simp [hno]
  · rw [hrun]
    by_cases hkey : keyID ∈ v.keypairs
    · have hresume := encryptResume_panics_iff (l := l) (η := η) (v := v) keyID plaintext
      rw [if_pos hkey, run_map]
      simp only [hvalid, hrevoked, hkey, not_true, false_or, not_false_iff, true_and] at hresume ⊢
      rw [← hresume]
      cases (Raise.run (encryptResume l η keyID plaintext) v).1 <;> simp [Except.map]
    · rw [if_neg hkey]
      simp [hkey]

theorem decrypt_panics_iff (keyID : GoString) (ct : Ciphertext) :
    (∃ msg, (Raise.run (decrypt l η keyID ct) v).1 = .error (.panic msg)) ↔
      ∃ secret nonce sealed, ReachesOpen v.toKeys keyID ct secret nonce sealed ∧ nonce.length ≠ 12 := by
  rcases decrypt_cases (l := l) (η := η) keyID ct v with
    ⟨hno, msg, hrun⟩ | ⟨secret, nonce, sealed, hreach, hopen⟩
  · rw [hrun]
    refine iff_of_false (by simp) ?_
    rintro ⟨secret, nonce, sealed, hreach, -⟩
    exact hno ⟨secret, nonce, sealed, hreach⟩
  · have hnonce : (∃ secret nonce sealed, ReachesOpen v.toKeys keyID ct secret nonce sealed ∧ nonce.length ≠ 12) ↔
        ∃ msg, gcmOpen l.aead (deriveKey l secret) nonce sealed = .error (.panic msg) := by
      rw [gcmOpen_panics_iff]
      constructor
      · rintro ⟨secret', nonce', sealed', hreach', hlength⟩
        obtain ⟨rfl, rfl, rfl⟩ := hreach.unique hreach'
        exact hlength
      · intro hlength
        exact ⟨secret, nonce, sealed, hreach, hlength⟩
    rw [hnonce]
    rcases hopen with ⟨p, hopen, hok, -⟩ | ⟨e, msg, hopen, hrun⟩ | ⟨msg, hopen, hrun⟩
    · rw [hok, hopen]
    · rw [hrun, hopen]
      simp
    · rw [hrun, hopen]

theorem not_panicked_afterBegin (ct : Option Ciphertext) : ¬ (afterBegin ct).Panicked := by
  cases ct <;> simp [afterBegin, Pc.Panicked]

/-- the sections that end in a panic -/
theorem panics_iff (hpc : ¬ pc.Panicked) : (nextSection l η v op pc).1.Panicked ↔ Panics η v.toKeys op pc := by
  cases pc with
  | start =>
    cases op with
    | encrypt keyID plaintext =>
      exact (goes_panicked_iff _ not_panicked_afterBegin).trans (encryptBegin_panics_iff keyID plaintext)
    | decrypt keyID ct =>
      refine (ends_panicked_iff _ _).trans ?_
      rw [callOf, run_map, Panics, ← decrypt_panics_iff (l := l) (η := η)]
      cases (Raise.run (decrypt l η keyID ct) v).1 <;> simp [Except.map]
    | rotateKey keyID =>
      refine iff_of_false ?_ id
      rw [nextSection, firstSection, goes_panicked_iff _ (by simp [Pc.Panicked])]
      rcases rotateBegin_cases (η := η) keyID v with ⟨-, msg, hrun⟩ | ⟨-, hok, -⟩
      · simp [hrun]
      · simp [hok]
    | generateKeypair keyID =>
      refine iff_of_false ?_ id
      change ¬ (ends (callOf l η _) id v).1.Panicked
      rw [ends_panicked_iff, callOf, run_map]
      have hno := not_panics_generateKeypair (η := η) (v := v) keyID
      revert hno
      cases (Raise.run (generateKeypair η keyID) v).1 <;> simp [Except.map]
    | revokeKey keyID reason revokedBy details =>
      refine iff_of_false ?_ id
      change ¬ (ends (callOf l η _) id v).1.Panicked
      rw [ends_panicked_iff, callOf, run_map]
      rcases revokeKey_cases (η := η) keyID reason revokedBy details v with ⟨-, msg, hrun⟩ | ⟨-, hok, -⟩
      · simp [hrun, Except.map]
      · simp [hok, Except.map]
    | isRevoked keyID => exact iff_of_false (by rintro ⟨msg, h⟩; cases h) id
    | listKeys => exact iff_of_false (by rintro ⟨msg, h⟩; cases h) id
    | removeKeypair keyID => exact iff_of_false (by rintro ⟨msg, h⟩; cases h) id
  | generate =>
    cases op with
    | encrypt keyID plaintext =>
      refine iff_of_false ?_ id
      rw [nextSection, goes_panicked_iff _ (by simp [Pc.Panicked])]
      exact not_panics_generateKeypair keyID
    | _ => exact iff_of_false hpc id
  | resume =>
    cases op with
    | encrypt keyID plaintext => exact (ends_panicked_iff _ _).trans (encryptResume_panics_iff keyID plaintext)
    | _ => exact iff_of_false hpc id
  | rotateGenerate newID =>
    cases op with
    | rotateKey keyID =>
      refine iff_of_false ?_ id
      rw [nextSection, goes_panicked_iff _ (by simp [Pc.Panicked])]
      exact not_panics_generateKeypair newID
    | _ => exact iff_of_false hpc id
  | rotateLog newID =>
    cases op with
    | rotateKey keyID => exact iff_of_false (by rintro ⟨msg, h⟩; cases h) id
    | _ => exact iff_of_false hpc id
  | ended r => exact iff_of_false hpc (by cases op <;> exact id)

/-! ## Runs -/

variable {τ : Type} [DecidableEq τ]

def NoPanic (s : Sys τ) : Prop := ∀ i, ¬ (s.threads i).pc.Panicked

theorem noPanic_step_iff {s : Sys τ} (h : NoPanic s) (a : τ × Host) :
    NoPanic (Threads.step (exec l) s a) ↔ ¬ Panics a.2 s.shared.toKeys (s.threads a.1).op (s.threads a.1).pc := by
  have hself : ((Threads.step (exec l) s a).threads a.1).pc =
      (nextSection l a.2 s.shared (s.threads a.1).op (s.threads a.1).pc).1 := by
    rw [Threads.step_self]
    rfl
  rw [← panics_iff (l := l) (h a.1)]
  constructor
  · intro hnext
    rw [← hself]
    exact hnext a.1
  · intro hno j
    by_cases hj : j = a.1
    · rw [hj, hself]
      exact hno
    · rw [Threads.step_other hj]
      exact h j

/-- **No call of a run panics if and only if none of its sections dereferences a missing key or hands the cipher a nonce or a
text that it does not take.** -/
theorem never_panics_iff (l : Libs) (v : Vault) (ops : τ → Op) (run : List (τ × Host)) :
    (∀ pre post, run = pre ++ post → ∀ i msg,
        ((Run.after (Threads.step (exec l)) (Sys.start v ops) pre).threads i).pc ≠ .ended (.error (.panic msg))) ↔
      Run.EachStep (Threads.step (exec l))
        (fun s a => ¬ Panics a.2 s.shared.toKeys (s.threads a.1).op (s.threads a.1).pc) (Sys.start v ops) run := by
  have hstart : NoPanic (Sys.start v ops) := by
    rintro i ⟨msg, h⟩
    cases h
  have halways : (∀ pre post, run = pre ++ post → ∀ i msg,
        ((Run.after (Threads.step (exec l)) (Sys.start v ops) pre).threads i).pc ≠ .ended (.error (.panic msg))) ↔
      ∀ pre post, run = pre ++ post → NoPanic (Run.after (Threads.step (exec l)) (Sys.start v ops) pre) := by
    simp only [NoPanic, Pc.Panicked, not_exists, ne_eq]
  rw [halways, Run.always_iff, and_iff_right hstart]
  refine Run.eachStep_iff NoPanic ?_ ?_ hstart
  · intro a _ s hs
    exact noPanic_step_iff hs a
  · intro a _ s hs hno
    exact (noPanic_step_iff hs a).2 hno

/-- a generation, a decryption, an encryption and a removal of one key -/
def fourOps : Fin 4 → Op
  | 0 => .generateKeypair (utf8 "k")
  | 1 => .decrypt (utf8 "k") ⟨[], [], []⟩
  | 2 => .encrypt (utf8 "k") []
  | 3 => .removeKeypair (utf8 "k")

/-- a ciphertext without a nonce reaches the cipher; and a key that Encrypt generated is removed before it resumes -/
theorem calls_panic :
    ((Run.after (Threads.step (exec sumLibs)) (Sys.start Vault.new fourOps)
        [(0, constHost 1), (1, constHost 1)]).threads 1).pc =
      .ended (.error (.panic (utf8 "crypto/cipher: incorrect nonce length given to GCM"))) ∧
    ((Run.after (Threads.step (exec sumLibs)) (Sys.start Vault.new fourOps)
        [(2, constHost 1), (2, constHost 1), (3, constHost 1), (2, constHost 1)]).threads 2).pc =
      .ended (.error (.panic (utf8 "runtime error: invalid memory address or nil pointer dereference"))) := by
  decide +kernel

end AbirGuard.Go
