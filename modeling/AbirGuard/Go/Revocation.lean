/-
Is a revocation of the Go vault permanent?

Revocations are never deleted, and GenerateKeypair, Encrypt and Decrypt look at them before anything else. So no removal,
regeneration or rotation brings a revoked id back.

- `stable_revoked`: a revoked id stays revoked, whatever is called.
- `revoked_forever`: after a successful revocation every later call of the three fails, and the id is not listed.
-/
import AbirGuard.Go.Calls

namespace AbirGuard.Go

open AbirGuard.Core Raise

variable {l : Libs} {keyID : GoString}

theorem stable_revoked (keyID : GoString) : Stable (fun u => keyID ∈ u.revoked) (fun _ => True) (fun _ => True) where
  install u k s t _ _ _ h := h
  touch u k f _ h := by
    rw [(touch_keypairs u k f).2.2]
    exact h
  revoke u k entry h := Finmap.mem_insert.2 (Or.inr h)
  remove u k _ h := h

theorem revoked_callStep {v : Vault} (h : keyID ∈ v.revoked) (c : Host × Op) : keyID ∈ (callStep l v c).revoked :=
  (stable_revoked keyID).callStep (fun _ _ _ => trivial) (fun _ _ => trivial) h

theorem revoked_after {v : Vault} (h : keyID ∈ v.revoked) (run : List (Host × Op)) :
    keyID ∈ (Run.after (callStep l) v run).revoked := by
  have hstep : ∀ c ∈ run, ∀ v : Vault, keyID ∈ v.revoked → keyID ∈ (callStep l v c).revoked := by
    intro c _ v hv
    exact revoked_callStep hv c
  exact Run.after_inv hstep h

/-- a call for a revoked id fails, with an error -/
theorem fails_of_revoked {v : Vault} (h : keyID ∈ v.revoked) (η : Host) {op : Op}
    (hop : op = .generateKeypair keyID ∨ (∃ p, op = .encrypt keyID p) ∨ ∃ ct, op = .decrypt keyID ct) :
    ∃ msg, (Raise.run (callOf l η op) v).1 = .error (.error msg) := by
  rcases hop with rfl | ⟨p, rfl⟩ | ⟨ct, rfl⟩
  all_goals rw [callOf, run_map]
  · rcases generateKeypair_cases (η := η) keyID v with ⟨-, msg, hrun⟩ | ⟨s, hcan, -⟩
    · exact ⟨msg, by rw [hrun]; rfl⟩
    · exact absurd h hcan.2.1
  · obtain ⟨msg, hrun⟩ := encrypt_refused (l := l) (η := η) (fun hok => hok.2 h) p
    exact ⟨msg, by rw [hrun]; rfl⟩
  · rcases decrypt_cases (l := l) (η := η) keyID ct v with ⟨-, msg, hrun⟩ | ⟨_, _, _, hreach, -⟩
    · exact ⟨msg, by rw [hrun]; rfl⟩
    · exact absurd h hreach.unrevoked

theorem notMem_listKeys_of_revoked {v : Vault} (h : keyID ∈ v.revoked) : keyID ∉ v.listKeys := by
  intro hlisted
  exact (Finset.mem_filter.1 hlisted).2.1 h

/-- **After a successful revocation, whatever is called, generation, encryption and decryption under the id fail and it is not
listed.** -/
theorem revoked_forever {v : Vault} {η : Host} {reason revokedBy details : GoString}
    (hok : (Raise.run (callOf l η (.revokeKey keyID reason revokedBy details)) v).1 = .ok .nil) (later : List (Host × Op)) :
    let w := Run.after (callStep l) (callStep l v (η, .revokeKey keyID reason revokedBy details)) later
    (∀ η, ∃ msg, (Raise.run (callOf l η (.generateKeypair keyID)) w).1 = .error (.error msg)) ∧
      (∀ η p, ∃ msg, (Raise.run (callOf l η (.encrypt keyID p)) w).1 = .error (.error msg)) ∧
      (∀ η ct, ∃ msg, (Raise.run (callOf l η (.decrypt keyID ct)) w).1 = .error (.error msg)) ∧
      (∀ η, (Raise.run (callOf l η (.isRevoked keyID)) w).1 = .ok (.bool true)) ∧
      ∀ η, ∃ keyIDs, (Raise.run (callOf l η .listKeys) w).1 = .ok (.keys keyIDs) ∧ keyID ∉ keyIDs := by
  intro w
  have hnow : keyID ∈ (callStep l v (η, .revokeKey keyID reason revokedBy details)).revoked := by
    unfold callStep
    rw [callOf, run_map] at hok ⊢
    rcases revokeKey_cases (η := η) keyID reason revokedBy details v with ⟨-, msg, hrun⟩ | ⟨-, -, hkeys⟩
    · rw [hrun] at hok
      cases hok
    · dsimp only
      rw [hkeys]
      exact Finmap.mem_insert.2 (Or.inl rfl)
  have hw : keyID ∈ w.revoked := revoked_after hnow later
  refine ⟨?_, ?_, ?_, ?_, ?_⟩
  · intro η
    exact fails_of_revoked hw η (Or.inl rfl)
  · intro η p
    exact fails_of_revoked hw η (Or.inr (Or.inl ⟨p, rfl⟩))
  · intro η ct
    exact fails_of_revoked hw η (Or.inr (Or.inr ⟨ct, rfl⟩))
  · intro η
    rw [callOf, run_map]
    exact congrArg (fun b => Except.ok (Value.bool b)) (isRevoked_iff.2 hw)
  · intro η
    exact ⟨w.listKeys, rfl, notMem_listKeys_of_revoked hw⟩

theorem revoked_forever_k : ∃ msg, (Raise.run (callOf sumLibs (constHost 2) (.encrypt (utf8 "k") []))
    (Run.after (callStep sumLibs) Vault.new
      [(constHost 1, .generateKeypair (utf8 "k")), (constHost 1, .revokeKey (utf8 "k") [] [] []),
        (constHost 1, .removeKeypair (utf8 "k"))])).1 = .error (.error msg) := by
  have hok : (Raise.run (callOf sumLibs (constHost 1) (.revokeKey (utf8 "k") [] [] []))
      (callStep sumLibs Vault.new (constHost 1, .generateKeypair (utf8 "k")))).1 = .ok .nil := by decide +kernel
  exact (revoked_forever hok [(constHost 1, .removeKeypair (utf8 "k"))]).2.1 (constHost 2) []

end AbirGuard.Go
