/-
Concurrent encryptions on the Go vault.

Encrypt for a missing key checks the revocation in its first section, gives up the mutex, generates the key, and seals in a
third section without looking at either again. Two such calls for one id both generate, and the second key takes the place of
the first.

- `Assertion`: what holds of the vault for a thread that has ended: the ciphertext it returned is under the key of its id, the
  key it revoked is revoked.
- `inv_step`: a section keeps the assertions of all threads unless it overwrites a key that a ciphertext was returned for.
- `ciphertexts_open`: in a run without such sections, and without a last section for a key revoked meanwhile, every ciphertext
  opens while its key is not revoked, and no encryption succeeds after a revocation.
-/
import AbirGuard.Go.Revocation

namespace AbirGuard.Go

open AbirGuard.Core Raise

variable {l : Libs} {τ : Type} [DecidableEq τ]

/-- encryptions, decryptions, revocations and listings -/
def Op.IsMixed : Op → Prop
  | .encrypt .. | .decrypt .. | .revokeKey .. | .listKeys => True
  | _ => False

/-- the thread has returned this ciphertext of an encryption for the key -/
def Thread.Issued (t : Thread) (keyID : GoString) (plaintext : Bytes) (ct : Ciphertext) : Prop :=
  t = ⟨.encrypt keyID plaintext, .ended (.ok (.ciphertext ct))⟩

/-- the thread has revoked the key -/
def Thread.Revoked (t : Thread) (keyID : GoString) : Prop :=
  ∃ reason revokedBy details, t = ⟨.revokeKey keyID reason revokedBy details, .ended (.ok .nil)⟩

/-- the section generates a key for an id that a ciphertext was returned for -/
def Overwrites (s : Sys τ) (a : τ × Host) : Prop :=
  ∃ keyID plaintext, s.threads a.1 = ⟨.encrypt keyID plaintext, .generate⟩ ∧ CanGenerate a.2 s.shared.toKeys keyID ∧
    ∃ j plaintext' ct, (s.threads j).Issued keyID plaintext' ct

/-- the section is the last one of an encryption whose key was revoked meanwhile, and can seal -/
def ResumesRevoked (s : Sys τ) (a : τ × Host) : Prop :=
  ∃ keyID plaintext, s.threads a.1 = ⟨.encrypt keyID plaintext, .resume⟩ ∧ keyID ∈ s.shared.revoked ∧
    ¬ CannotSeal a.2 plaintext

/-! ## The assertions of the threads -/

/-- the ciphertext is one of this text under the key of the id -/
def OpensUnder (l : Libs) (u : Keys) (keyID : GoString) (plaintext : Bytes) (ct : Ciphertext) : Prop :=
  validateKeyID keyID = .ok () ∧ plaintext.length ≤ gcmMaxText ∧ ∃ secret nonce, u.secretKeys.lookup keyID = some secret ∧
    ct = packed nonce (l.aead.encrypt (deriveKey l secret) nonce plaintext)

structure Assertion (l : Libs) (v : Vault) (t : Thread) : Prop where
  mixed : t.op.IsMixed
  issued : ∀ keyID plaintext ct, t.Issued keyID plaintext ct → OpensUnder l v.toKeys keyID plaintext ct
  revoked : ∀ keyID, t.Revoked keyID → keyID ∈ v.revoked

abbrev Inv (l : Libs) : Sys τ → Prop := Threads.Inv (fun v => Coherent v.toKeys) fun _ => Assertion l

theorem stable_opensUnder (keyID : GoString) (plaintext : Bytes) (ct : Ciphertext) :
    Stable (fun u => OpensUnder l u keyID plaintext ct) (· ≠ keyID) (· ≠ keyID) where
  install u k s t hk _ _ h := by
    obtain ⟨hvalid, hshort, secret, nonce, hsecret, hct⟩ := h
    refine ⟨hvalid, hshort, secret, nonce, ?_, hct⟩
    rw [Keys.install, Finmap.lookup_insert_of_ne _ (Ne.symm hk)]
    exact hsecret
  touch u k f _ h := by
    unfold OpensUnder
    rw [(touch_keypairs u k f).2.1]
    exact h
  revoke u k entry h := h
  remove u k hk h := by
    obtain ⟨hvalid, hshort, secret, nonce, hsecret, hct⟩ := h
    refine ⟨hvalid, hshort, secret, nonce, ?_, hct⟩
    rw [Keys.remove, Finmap.lookup_erase_ne (Ne.symm hk)]
    exact hsecret

/-- an encryption ends with a ciphertext in its first section, for a key that is not revoked, or in its last one -/
theorem issued_section {η : Host} {v : Vault} {keyID : GoString} {plaintext : Bytes} {pc : Pc} {ct : Ciphertext}
    (hpc : ∀ r, pc ≠ .ended r)
    (h : (nextSection l η v (.encrypt keyID plaintext) pc).1 = .ended (.ok (.ciphertext ct))) :
    (pc = .start ∧ keyID ∉ v.revoked ∨ pc = .resume) ∧ ¬ CannotSeal η plaintext ∧
      (∃ kp nonce, v.keypairs.lookup keyID = some kp ∧
        ct = packed nonce (l.aead.encrypt (deriveKey l kp.sharedKey) nonce plaintext)) ∧
      (nextSection l η v (.encrypt keyID plaintext) pc).2.secretKeys = v.secretKeys := by
  have hresume : ∀ ct', (Raise.run (encryptResume l η keyID plaintext) v).1 = .ok ct' → ct' = ct →
      ¬ CannotSeal η plaintext ∧ (∃ kp nonce, v.keypairs.lookup keyID = some kp ∧
        ct = packed nonce (l.aead.encrypt (deriveKey l kp.sharedKey) nonce plaintext)) ∧
      (Raise.run (encryptResume l η keyID plaintext) v).2.secretKeys = v.secretKeys := by
    rintro _ hok rfl
    obtain ⟨hseal, hct, f, hkeys⟩ := encryptResume_ok hok
    rw [hkeys]
    exact ⟨hseal, hct, (touch_keypairs v.toKeys keyID f).2.1⟩
  cases pc with
  | start =>
    rw [nextSection, firstSection, goes] at h ⊢
    rcases encryptBegin_cases (l := l) (η := η) keyID plaintext v with ⟨-, msg, hrun⟩ | ⟨-, hrevoked, hrun⟩
    · rw [hrun] at h
      cases h
    · rw [hrun] at h ⊢
      split_ifs at h ⊢ with hkey
      · rw [run_map] at h ⊢
        dsimp only at h ⊢
        cases hok : (Raise.run (encryptResume l η keyID plaintext) v).1 with
        | error f =>
          rw [hok] at h
          cases h
        | ok ct' =>
          rw [hok] at h
          cases h
          exact ⟨Or.inl ⟨rfl, hrevoked⟩, hresume ct hok rfl⟩
      · cases h
  | generate =>
    rw [nextSection, goes] at h
    cases hgen : (Raise.run (generateKeypair η keyID) v).1 <;> rw [hgen] at h <;> cases h
  | resume =>
    rw [nextSection, ends_eq] at h ⊢
    dsimp only at h ⊢
    cases hok : (Raise.run (encryptResume l η keyID plaintext) v).1 with
    | error f =>
      rw [hok] at h
      cases h
    | ok ct' =>
      rw [hok] at h
      cases h
      exact ⟨Or.inr rfl, hresume ct hok rfl⟩
  | rotateGenerate newID => cases h
  | rotateLog newID => cases h
  | ended r => exact absurd rfl (hpc r)

/-- a revocation that ends without an error has revoked its key -/
theorem revoked_section {η : Host} {v : Vault} {keyID reason revokedBy details : GoString} {pc : Pc} (hpc : ∀ r, pc ≠ .ended r)
    (h : (nextSection l η v (.revokeKey keyID reason revokedBy details) pc).1 = .ended (.ok .nil)) :
    keyID ∈ (nextSection l η v (.revokeKey keyID reason revokedBy details) pc).2.revoked := by
  cases pc with
  | start =>
    change (ends (callOf l η _) id v).1 = _ at h
    change keyID ∈ (ends (callOf l η _) id v).2.revoked
    rw [ends_eq, callOf, run_map] at h ⊢
    rcases revokeKey_cases (η := η) keyID reason revokedBy details v with ⟨-, msg, hrun⟩ | ⟨-, -, hkeys⟩
    · rw [hrun] at h
      cases h
    · dsimp only
      rw [hkeys]
      exact Finmap.mem_insert.2 (Or.inl rfl)
  | ended r => exact absurd rfl (hpc r)
  | _ => cases h

/-- the assertion of a thread survives a section of another one -/
theorem Assertion.keep {v : Vault} {t : Thread} (h : Assertion l v t) {η : Host} {op : Op} {pc : Pc} (hop : op.IsMixed)
    (hno : ∀ keyID plaintext ct, t.Issued keyID plaintext ct → ∀ plaintext', op = .encrypt keyID plaintext' → pc = .generate →
      ¬ CanGenerate η v.toKeys keyID) : Assertion l (nextSection l η v op pc).2 t where
  mixed := h.mixed
  issued keyID plaintext ct hissued := by
    refine (stable_opensUnder keyID plaintext ct).nextSection ?_ ?_ (h.issued keyID plaintext ct hissued)
    · rintro k hgen hcan rfl
      cases pc with
      | start =>
        rw [Generates] at hgen
        rw [hgen] at hop
        exact hop
      | generate =>
        obtain ⟨plaintext', hgen⟩ := hgen
        exact hno k plaintext ct hissued plaintext' hgen rfl hcan
      | rotateGenerate newID =>
        obtain ⟨-, k', hgen⟩ := hgen
        rw [hgen] at hop
        exact hop
      | _ => exact hgen
    · rintro k hremove -
      rw [hremove] at hop
      exact hop
  revoked keyID hrevoked := by
    have hstable : Stable (fun u => keyID ∈ u.revoked) (fun _ => True) (fun _ => True) := stable_revoked keyID
    exact hstable.nextSection (fun _ _ _ => trivial) (fun _ _ => trivial) (h.revoked keyID hrevoked)

theorem CannotSeal.not_iff {η : Host} {plaintext : Bytes} :
    ¬ CannotSeal η plaintext ↔ (∃ nonce, η.nonce = .ok nonce) ∧ plaintext.length ≤ gcmMaxText := by
  unfold CannotSeal
  cases η.nonce <;> simp

/-- a thread establishes its own assertion -/
theorem Assertion.own {v : Vault} {t : Thread} (hv : Coherent v.toKeys) (h : Assertion l v t) (η : Host) :
    Assertion l (exec l η v t).2 (exec l η v t).1 := by
  obtain ⟨op, pc⟩ := t
  by_cases hpc : ∃ r, pc = .ended r
  · obtain ⟨r, rfl⟩ := hpc
    exact h
  · have hrunning : ∀ r, pc ≠ .ended r := by
      intro r hr
      exact hpc ⟨r, hr⟩
    refine ⟨h.mixed, ?_, ?_⟩
    · intro keyID plaintext ct hissued
      obtain ⟨hop, hended⟩ := Thread.mk.inj hissued
      obtain rfl : op = .encrypt keyID plaintext := hop
      obtain ⟨-, hseal, ⟨kp, nonce, hkp, hct⟩, hsecrets⟩ := issued_section hrunning hended
      refine ⟨hv.valid keyID (Finmap.mem_of_lookup_eq_some hkp), (CannotSeal.not_iff.1 hseal).2, kp.sharedKey, nonce, ?_, hct⟩
      rw [exec]
      dsimp only
      rw [hsecrets, hv.secret, hkp]
      rfl
    · rintro keyID ⟨reason, revokedBy, details, hrevoked⟩
      obtain ⟨hop, hended⟩ := Thread.mk.inj hrevoked
      obtain rfl : op = .revokeKey keyID reason revokedBy details := hop
      exact revoked_section hrunning hended

/-- **A section that does not overwrite a key in use keeps the assertions of all threads.** -/
theorem inv_step {s : Sys τ} (h : Inv l s) {a : τ × Host} (hno : ¬ Overwrites s a) : Inv l (Threads.step (exec l) s a) := by
  have hself := (h.thread a.1).own h.shared a.2
  refine Threads.inv_step ?_ ?_ ?_
  · exact stable_coherent.nextSection (fun _ _ _ => trivial) (fun _ _ => trivial) h.shared
  · rw [Threads.step_self]
    exact hself
  · intro j _
    refine (h.thread j).keep (h.thread a.1).mixed ?_
    intro keyID plaintext ct hissued plaintext' hop hpc hcan
    exact hno ⟨keyID, plaintext', by rw [← hop, ← hpc], hcan, j, plaintext, ct, hissued⟩

/-! ## What the assertions give -/

/-- a ciphertext under the key of its id opens while the id is not revoked -/
theorem decrypt_of_opensUnder (hl : l.aead.Correct) {v : Vault} {keyID : GoString} {plaintext : Bytes} {ct : Ciphertext}
    (h : OpensUnder l v.toKeys keyID plaintext ct) (hrevoked : keyID ∉ v.revoked) (η : Host) :
    (Raise.run (callOf l η (.decrypt keyID ct)) v).1 = .ok (.plaintext plaintext) := by
  obtain ⟨hvalid, hshort, secret, nonce, hsecret, rfl⟩ := h
  have hreach : ReachesOpen v.toKeys keyID (packed nonce (l.aead.encrypt (deriveKey l secret) nonce plaintext)) secret
      nonce.toList (l.aead.encrypt (deriveKey l secret) nonce plaintext) :=
    ⟨hvalid, hsecret, hrevoked, stdDecode_encode _, _, _, stdDecode_encode _, stdDecode_encode _, (List.take_append_drop ..).symm⟩
  rw [callOf, run_map]
  dsimp only
  rw [decrypt_ok_iff.2 ⟨_, _, _, hreach, gcmOpen_seal hl hshort⟩]
  rfl

omit [DecidableEq τ] in
theorem inv_start {v : Vault} (hv : Reached l v) {ops : τ → Op} (hops : ∀ i, (ops i).IsMixed) : Inv l (Sys.start v ops) := by
  refine ⟨coherent_reached hv, fun i => ⟨hops i, ?_, ?_⟩⟩
  · intro keyID plaintext ct h
    cases (Thread.mk.inj h).2
  · rintro keyID ⟨reason, revokedBy, details, h⟩
    cases (Thread.mk.inj h).2

/-- **In a run of encryptions, decryptions, revocations and listings in which no section generates a key that a ciphertext was
returned for, and none seals for a key that was revoked since the first section of its call, every ciphertext opens as long as
its key is not revoked, and no encryption ends with a ciphertext after its key was revoked.** -/
theorem ciphertexts_open (hl : l.aead.Correct) {v : Vault} (hv : Reached l v) {ops : τ → Op} (hops : ∀ i, (ops i).IsMixed)
    {run : List (τ × Host)}
    (hrun : Run.EachStep (Threads.step (exec l)) (fun s a => ¬ Overwrites s a ∧ ¬ ResumesRevoked s a) (Sys.start v ops) run) :
    (∀ pre post, run = pre ++ post → ∀ i keyID plaintext ct,
        ((Run.after (Threads.step (exec l)) (Sys.start v ops) pre).threads i).Issued keyID plaintext ct →
        keyID ∉ (Run.after (Threads.step (exec l)) (Sys.start v ops) pre).shared.revoked →
        ∀ η, (Raise.run (callOf l η (.decrypt keyID ct)) (Run.after (Threads.step (exec l)) (Sys.start v ops) pre).shared).1 =
          .ok (.plaintext plaintext)) ∧
      Run.EachStep (Threads.step (exec l)) (fun s a => ∀ keyID plaintext ct, ¬ (s.threads a.1).Issued keyID plaintext ct →
          ((Threads.step (exec l) s a).threads a.1).Issued keyID plaintext ct → ∀ j, ¬ (s.threads j).Revoked keyID)
        (Sys.start v ops) run := by
  have hinv : ∀ pre post, run = pre ++ post → Inv l (Run.after (Threads.step (exec l)) (Sys.start v ops) pre) := by
    intro pre post hsplit
    have hstep : ∀ (s : Sys τ) a, Inv l s → ¬ Overwrites s a ∧ ¬ ResumesRevoked s a → Inv l (Threads.step (exec l) s a) :=
      fun s a h hno => inv_step h hno.1
    exact Run.EachStep.after _ hstep (inv_start hv hops) (hsplit ▸ hrun).left
  refine ⟨?_, ?_⟩
  · intro pre post hsplit i keyID plaintext ct hissued hrevoked η
    exact decrypt_of_opensUnder hl (((hinv pre post hsplit).thread i).issued keyID plaintext ct hissued) hrevoked η
  · intro pre a post hsplit keyID plaintext ct hbefore hafter j hrevoked
    have hrevoked := ((hinv pre _ hsplit).thread j).revoked keyID hrevoked
    have hno := (hrun pre a post hsplit).2
    generalize Run.after (Threads.step (exec l)) (Sys.start v ops) pre = s at hbefore hafter hrevoked hno
    rw [Threads.step_self] at hafter
    rcases hthread : s.threads a.1 with ⟨op, pc⟩
    rw [hthread] at hbefore hafter
    obtain ⟨hop, hended⟩ := Thread.mk.inj hafter
    obtain rfl : op = .encrypt keyID plaintext := hop
    by_cases hpc : ∃ r, pc = .ended r
    · obtain ⟨r, rfl⟩ := hpc
      exact hbefore hafter
    · have hrunning : ∀ r, pc ≠ .ended r := by
        intro r hr
        exact hpc ⟨r, hr⟩
      obtain ⟨⟨-, hnot⟩ | rfl, hseal, -⟩ := issued_section hrunning hended
      · exact hnot hrevoked
      · exact hno ⟨keyID, plaintext, hthread, hrevoked, hseal⟩

/-- the plaintext 9 under the secret of 32 ones -/
def racingCiphertext : Ciphertext := ⟨stdEncode (List.replicate 12 3), stdEncode [9], stdEncode (List.replicate 16 243)⟩

theorem ciphertexts_open_k :
    (Raise.run (callOf sumLibs (constHost 4) (.decrypt (utf8 "k") racingCiphertext))
      (Run.after (Threads.step (exec sumLibs))
        (Sys.start (callStep sumLibs Vault.new (constHost 1, .generateKeypair (utf8 "k")))
          fun _ : Unit => .encrypt (utf8 "k") [9])
        [((), constHost 3)]).shared).1 = .ok (.plaintext [9]) := by
  have hrun : Run.EachStep (Threads.step (exec sumLibs)) (fun s a => ¬ Overwrites s a ∧ ¬ ResumesRevoked s a)
      (Sys.start (callStep sumLibs Vault.new (constHost 1, .generateKeypair (utf8 "k"))) fun _ : Unit => .encrypt (utf8 "k") [9])
      [((), constHost 3)] := by
    refine Run.eachStep_cons.2 ⟨⟨?_, ?_⟩, Run.eachStep_nil _⟩
    · rintro ⟨keyID, plaintext, hthread, -⟩
      cases (Thread.mk.inj hthread).2
    · rintro ⟨keyID, plaintext, hthread, -⟩
      cases (Thread.mk.inj hthread).2
  have hops : ∀ _ : Unit, (Op.encrypt (utf8 "k") [9]).IsMixed := fun _ => trivial
  exact (ciphertexts_open sumLibs_correct ⟨[_], rfl⟩ hops hrun).1 _ [] rfl () (utf8 "k") [9] racingCiphertext
    (by unfold Thread.Issued; decide +kernel) (by decide +kernel) (constHost 4)

/-- two encryptions for one id, and a revocation of it -/
def racingOps : Fin 3 → Op
  | 0 => .encrypt (utf8 "k") [9]
  | 1 => .encrypt (utf8 "k") [9]
  | 2 => .revokeKey (utf8 "k") [] [] []

/-- the first ciphertext does not open after the second generation; and an encryption succeeds after a revocation that came
between its sections -/
theorem racing_encrypts :
    (((Run.after (Threads.step (exec sumLibs)) (Sys.start Vault.new racingOps)
          [(0, constHost 1), (1, constHost 1), (0, constHost 1), (0, constHost 3), (1, constHost 2)]).threads 0).Issued
        (utf8 "k") [9] racingCiphertext ∧
      utf8 "k" ∉ (Run.after (Threads.step (exec sumLibs)) (Sys.start Vault.new racingOps)
        [(0, constHost 1), (1, constHost 1), (0, constHost 1), (0, constHost 3), (1, constHost 2)]).shared.revoked ∧
      (Raise.run (callOf sumLibs (constHost 4) (.decrypt (utf8 "k") racingCiphertext))
        (Run.after (Threads.step (exec sumLibs)) (Sys.start Vault.new racingOps)
          [(0, constHost 1), (1, constHost 1), (0, constHost 1), (0, constHost 3), (1, constHost 2)]).shared).1 =
        .error (.error (utf8 "decryption failed: cipher: message authentication failed"))) ∧
    ((Run.after (Threads.step (exec sumLibs)) (Sys.start Vault.new racingOps)
        [(0, constHost 1), (0, constHost 1), (2, constHost 2)]).threads 2).Revoked (utf8 "k") ∧
    ((Run.after (Threads.step (exec sumLibs)) (Sys.start Vault.new racingOps)
        [(0, constHost 1), (0, constHost 1), (2, constHost 2), (0, constHost 3)]).threads 0).Issued
      (utf8 "k") [9] racingCiphertext := by
  unfold Thread.Issued Thread.Revoked
  refine ⟨by decide +kernel, ⟨[], [], [], ?_⟩, ?_⟩
  · decide +kernel
  · decide +kernel

end AbirGuard.Go
