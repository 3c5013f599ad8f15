/-
Sequential calls of the Go vault, and what they keep.

- `rotateKey_cases`, `encrypt_of_present`, `encrypt_of_missing`: the calls of more than one section.
- `Stable`: a property of the maps that every change keeps, but for the keys that are generated and removed;
  `Stable.nextSection` and `Stable.callStep`: sections and calls keep it.
- `Coherent`: what holds of the maps of every reachable vault (`coherent_reached`).
- `alone_call`: the sections of a call with nothing between them are the sequential call.
-/
import AbirGuard.Go.Vault

namespace AbirGuard.Go

open AbirGuard.Core Raise

variable {l : Libs} {η : Host}

/-! ## Sequential calls -/

theorem run_map {α β : Type} (f : α → β) (x : VaultM α) (v : Vault) :
    Raise.run (f <$> x) v = ((Raise.run x v).1.map f, (Raise.run x v).2) := by
  rw [map_eq_pure_bind, run_bind]
  rcases Raise.run x v with ⟨e | a, t⟩ <;> rfl

/-- Encrypt with a key that is there is one section -/
theorem encrypt_of_present {keyID : GoString} {v : Vault} (hvalid : validateKeyID keyID = .ok ()) (hrevoked : keyID ∉ v.revoked)
    (hkey : keyID ∈ v.keypairs) (plaintext : Bytes) :
    Raise.run (encrypt l η keyID plaintext) v = Raise.run (encryptResume l η keyID plaintext) v := by
  rcases encryptBegin_cases (l := l) (η := η) keyID plaintext v with ⟨hno, -⟩ | ⟨-, -, hbegin⟩
  · exact absurd ⟨hvalid, hrevoked⟩ hno
  · rw [if_pos hkey, run_map] at hbegin
    rw [encrypt, run_bind, hbegin]
    rcases Raise.run (encryptResume l η keyID plaintext) v with ⟨e | ct, t⟩ <;> rfl

theorem encrypt_of_missing {keyID : GoString} {v : Vault} (hvalid : validateKeyID keyID = .ok ()) (hrevoked : keyID ∉ v.revoked)
    (hkey : keyID ∉ v.keypairs) (plaintext : Bytes) :
    Raise.run (encrypt l η keyID plaintext) v =
      Raise.run (generateKeypair η keyID >>= fun _ => encryptResume l η keyID plaintext) v := by
  rcases encryptBegin_cases (l := l) (η := η) keyID plaintext v with ⟨hno, -⟩ | ⟨-, -, hbegin⟩
  · exact absurd ⟨hvalid, hrevoked⟩ hno
  · rw [if_neg hkey] at hbegin
    rw [encrypt, run_bind_of_ok hbegin]

theorem encrypt_refused {keyID : GoString} {v : Vault} (h : ¬ (validateKeyID keyID = .ok () ∧ keyID ∉ v.revoked))
    (plaintext : Bytes) : ∃ msg, Raise.run (encrypt l η keyID plaintext) v = (.error (.error msg), v) := by
  rcases encryptBegin_cases (l := l) (η := η) keyID plaintext v with ⟨-, msg, hbegin⟩ | ⟨hvalid, hrevoked, -⟩
  · exact ⟨msg, by rw [encrypt, run_bind, hbegin]⟩
  · exact absurd ⟨hvalid, hrevoked⟩ h

theorem touch_keypairs (u : Keys) (keyID : GoString) (f : KeyMetadata → KeyMetadata) :
    (u.touch keyID f).keypairs = u.keypairs ∧ (u.touch keyID f).secretKeys = u.secretKeys ∧
      (u.touch keyID f).revoked = u.revoked := by
  rw [Keys.touch]
  cases u.metadata.lookup keyID <;> exact ⟨rfl, rfl, rfl⟩

theorem canGenerate_touch {u : Keys} {keyID k : GoString} {f : KeyMetadata → KeyMetadata} :
    CanGenerate η (u.touch keyID f) k ↔ CanGenerate η u k := by
  rw [CanGenerate, CanGenerate, (touch_keypairs u keyID f).2.2]

/-- a rotation of a missing key, one that fails afterwards, and one that succeeds -/
theorem rotateKey_cases (keyID : GoString) (v : Vault) :
    let marked : Vault := { v with toKeys := v.toKeys.touch keyID (markRotated (newID η keyID)) }
    (keyID ∉ v.keypairs ∧ ∃ msg, Raise.run (rotateKey η keyID) v = (.error (.error msg), v)) ∨
      (keyID ∈ v.keypairs ∧ ¬ CanGenerate η v.toKeys (newID η keyID) ∧
        ∃ msg, Raise.run (rotateKey η keyID) v = (.error (.error msg), marked)) ∨
      keyID ∈ v.keypairs ∧ ∃ s, CanGenerate η v.toKeys (newID η keyID) ∧ η.secret = .ok s ∧
        (Raise.run (rotateKey η keyID) v).1 = .ok ⟨⟩ ∧
        (Raise.run (rotateKey η keyID) v).2.toKeys = marked.toKeys.install (newID η keyID) s (η.clock .created) := by
  intro marked
  rcases rotateBegin_cases (η := η) keyID v with ⟨hkey, msg, hbegin⟩ | ⟨hkey, hok, hstate⟩
  · exact Or.inl ⟨hkey, msg, by rw [rotateKey, run_bind, hbegin]⟩
  · have hbegin : Raise.run (rotateBegin η keyID) v = (.ok (newID η keyID), marked) := Prod.ext hok hstate
    rw [rotateKey, run_bind_of_ok hbegin]
    rcases generateKeypair_cases (η := η) (newID η keyID) marked with ⟨hno, msg, hrun⟩ | ⟨s, hcan, hs, ⟨kp, hkp⟩, hkeys⟩
    · exact Or.inr (Or.inl ⟨hkey, mt canGenerate_touch.2 hno, msg, by rw [run_bind, hrun]⟩)
    · have hrun : Raise.run (generateKeypair η (newID η keyID)) marked = (.ok kp, _) := Prod.ext hkp rfl
      rw [run_bind_of_ok hrun]
      exact Or.inr (Or.inr ⟨hkey, s, canGenerate_touch.1 hcan, hs, rfl, hkeys⟩)

/-! ## Properties of the maps that calls keep -/

/-- a property of the maps survives every change, but for the keys that are generated and removed -/
structure Stable (P : Keys → Prop) (generated removed : GoString → Prop) : Prop where
  install : ∀ u keyID s t, generated keyID → validateKeyID keyID = .ok () → keyID ∉ u.revoked → P u → P (u.install keyID s t)
  touch : ∀ u keyID f, (KeepsMark f ∨ ∃ newID, f = markRotated newID) → P u → P (u.touch keyID f)
  revoke : ∀ u keyID entry, P u → P (u.revoke keyID entry)
  remove : ∀ u keyID, removed keyID → P u → P (u.remove keyID)

/-- the section generates this key, unless it fails -/
def Generates (op : Op) (pc : Pc) (keyID : GoString) : Prop :=
  match pc with
  | .start => op = .generateKeypair keyID
  | .generate => ∃ plaintext, op = .encrypt keyID plaintext
  | .rotateGenerate newID => newID = keyID ∧ ∃ keyID', op = .rotateKey keyID'
  | _ => False

/-- the call generates this key, unless it fails -/
def MayGenerate (u : Keys) (c : Host × Op) (keyID : GoString) : Prop :=
  match c.2 with
  | .generateKeypair keyID' => keyID' = keyID
  | .encrypt keyID' _ => keyID' = keyID ∧ keyID ∉ u.keypairs
  | .rotateKey keyID' => keyID' ∈ u.keypairs ∧ newID c.1 keyID' = keyID
  | _ => False

namespace Stable

variable {P : Keys → Prop} {generated removed : GoString → Prop} {v : Vault} {keyID : GoString}

theorem generateKeypair (h : Stable P generated removed) (hgen : CanGenerate η v.toKeys keyID → generated keyID)
    (hv : P v.toKeys) :
    P (Raise.run (Go.generateKeypair η keyID) v).2.toKeys := by
  rcases generateKeypair_cases (η := η) keyID v with ⟨-, msg, hrun⟩ | ⟨s, hcan, -, -, hkeys⟩
  · rw [hrun]
    exact hv
  · rw [hkeys]
    exact h.install _ _ _ _ (hgen hcan) hcan.1 hcan.2.1 hv

theorem encryptResume (h : Stable P generated removed) (plaintext : Bytes) (hv : P v.toKeys) :
    P (Raise.run (Go.encryptResume l η keyID plaintext) v).2.toKeys := by
  rcases encryptResume_cases (l := l) (η := η) keyID plaintext v with
    ⟨-, msg, hrun⟩ | ⟨kp, -, ⟨e, msg, -, hrun⟩ | ⟨nonce, -, ⟨-, msg, hrun⟩ | ⟨-, -, f, hf, hkeys⟩⟩⟩
  · rw [hrun]
    exact hv
  · rw [hrun]
    exact hv
  · rw [hrun]
    exact hv
  · rw [hkeys]
    exact h.touch _ _ _ (Or.inl hf) hv

theorem encryptBegin (h : Stable P generated removed) (plaintext : Bytes) (hv : P v.toKeys) :
    P (Raise.run (Go.encryptBegin l η keyID plaintext) v).2.toKeys := by
  rcases encryptBegin_cases (l := l) (η := η) keyID plaintext v with ⟨-, msg, hrun⟩ | ⟨-, -, hrun⟩
  · rw [hrun]
    exact hv
  · rw [hrun]
    split_ifs
    · rw [run_map]
      exact h.encryptResume plaintext hv
    · exact hv

theorem decrypt (h : Stable P generated removed) (ct : Ciphertext) (hv : P v.toKeys) :
    P (Raise.run (Go.decrypt l η keyID ct) v).2.toKeys := by
  rcases decrypt_cases (l := l) (η := η) keyID ct v with
    ⟨-, msg, hrun⟩ | ⟨_, _, _, -, ⟨p, -, -, f, hf, hkeys⟩ | ⟨e, msg, -, hrun⟩ | ⟨msg, -, hrun⟩⟩
  · rw [hrun]
    exact hv
  · rw [hkeys]
    exact h.touch _ _ _ (Or.inl hf) hv
  · rw [hrun]
    exact hv
  · rw [hrun]
    exact hv

theorem revokeKey (h : Stable P generated removed) (reason revokedBy details : GoString) (hv : P v.toKeys) :
    P (Raise.run (Go.revokeKey η keyID reason revokedBy details) v).2.toKeys := by
  rcases revokeKey_cases (η := η) keyID reason revokedBy details v with ⟨-, msg, hrun⟩ | ⟨-, -, hkeys⟩
  · rw [hrun]
    exact hv
  · rw [hkeys]
    exact h.revoke _ _ _ hv

theorem rotateBegin (h : Stable P generated removed) (hv : P v.toKeys) :
    P (Raise.run (Go.rotateBegin η keyID) v).2.toKeys := by
  rcases rotateBegin_cases (η := η) keyID v with ⟨-, msg, hrun⟩ | ⟨-, -, hstate⟩
  · rw [hrun]
    exact hv
  · rw [hstate]
    exact h.touch _ _ _ (Or.inr ⟨_, rfl⟩) hv

theorem removeKeypair (h : Stable P generated removed) (hrem : removed keyID) (hv : P v.toKeys) :
    P (Raise.run (Go.removeKeypair η keyID) v).2.toKeys := h.remove _ _ hrem hv

/-- a section keeps such a property unless it generates or removes a key that the property is about -/
theorem nextSection (h : Stable P generated removed) {op : Op} {pc : Pc}
    (hgen : ∀ keyID, Generates op pc keyID → CanGenerate η v.toKeys keyID → generated keyID)
    (hrem : ∀ keyID, op = .removeKeypair keyID → removed keyID) (hv : P v.toKeys) :
    P (Go.nextSection l η v op pc).2.toKeys := by
  cases pc with
  | start =>
    cases op with
    | generateKeypair keyID =>
      change P (Raise.run (_ <$> _) v).2.toKeys
      rw [run_map]
      exact h.generateKeypair (hgen keyID rfl) hv
    | encrypt keyID plaintext => exact h.encryptBegin plaintext hv
    | decrypt keyID ct =>
      change P (Raise.run (_ <$> _) v).2.toKeys
      rw [run_map]
      exact h.decrypt ct hv
    | revokeKey keyID reason revokedBy details =>
      change P (Raise.run (_ <$> _) v).2.toKeys
      rw [run_map]
      exact h.revokeKey reason revokedBy details hv
    | isRevoked keyID => exact hv
    | rotateKey keyID => exact h.rotateBegin hv
    | listKeys => exact hv
    | removeKeypair keyID => exact h.removeKeypair (η := η) (hrem keyID rfl) hv
  | generate =>
    cases op with
    | encrypt keyID plaintext => exact h.generateKeypair (hgen keyID ⟨plaintext, rfl⟩) hv
    | _ => exact hv
  | resume =>
    cases op with
    | encrypt keyID plaintext => exact h.encryptResume plaintext hv
    | _ => exact hv
  | rotateGenerate newID =>
    cases op with
    | rotateKey keyID => exact h.generateKeypair (hgen newID ⟨rfl, keyID, rfl⟩) hv
    | _ => exact hv
  | rotateLog newID => cases op <;> exact hv
  | ended r => exact hv

/-- and so does a call, which generates a missing key and the key of a rotation, too -/
theorem callStep (h : Stable P generated removed) {c : Host × Op}
    (hgen : ∀ keyID, MayGenerate v.toKeys c keyID → CanGenerate c.1 v.toKeys keyID → generated keyID)
    (hrem : ∀ keyID, c.2 = .removeKeypair keyID → removed keyID) (hv : P v.toKeys) : P (Go.callStep l v c).toKeys := by
  obtain ⟨η, op⟩ := c
  unfold Go.callStep
  cases op with
  | generateKeypair keyID =>
    rw [callOf, run_map]
    exact h.generateKeypair (hgen keyID rfl) hv
  | encrypt keyID plaintext =>
    rw [callOf, run_map]
    dsimp only
    by_cases hok : validateKeyID keyID = .ok () ∧ keyID ∉ v.revoked
    · by_cases hkey : keyID ∈ v.keypairs
      · rw [encrypt_of_present hok.1 hok.2 hkey]
        exact h.encryptResume plaintext hv
      · rw [encrypt_of_missing hok.1 hok.2 hkey, run_bind]
        have hnext := h.generateKeypair (η := η) (hgen keyID ⟨rfl, hkey⟩) hv
        rcases hrun : Raise.run (Go.generateKeypair η keyID) v with ⟨e | kp, t⟩
        all_goals rw [hrun] at hnext
        · exact hnext
        · exact h.encryptResume plaintext hnext
    · obtain ⟨msg, hrun⟩ := encrypt_refused (l := l) (η := η) hok plaintext
      rw [hrun]
      exact hv
  | decrypt keyID ct =>
    rw [callOf, run_map]
    exact h.decrypt ct hv
  | revokeKey keyID reason revokedBy details =>
    rw [callOf, run_map]
    exact h.revokeKey reason revokedBy details hv
  | isRevoked keyID => exact hv
  | rotateKey keyID =>
    rw [callOf, run_map]
    have hmarked : P (v.toKeys.touch keyID (markRotated (newID η keyID))) := h.touch _ _ _ (Or.inr ⟨_, rfl⟩) hv
    rcases rotateKey_cases (η := η) keyID v with ⟨-, msg, hrun⟩ | ⟨-, -, msg, hrun⟩ | ⟨hkey, s, hcan, -, -, hkeys⟩
    · rw [hrun]
      exact hv
    · rw [hrun]
      exact hmarked
    · rw [hkeys]
      exact h.install _ _ _ _ (hgen _ ⟨hkey, rfl⟩ hcan) hcan.1 (canGenerate_touch.2 hcan).2.1 hmarked
  | listKeys => exact hv
  | removeKeypair keyID =>
    rw [callOf, run_map]
    exact h.removeKeypair (η := η) (hrem keyID rfl) hv

end Stable

/-! ## Reachable vaults -/

/-- a history of calls leads from the new vault to this one -/
def Reached (l : Libs) (v : Vault) : Prop := ∃ history : List (Host × Op), v = Run.after (callStep l) Vault.new history

/-- the maps agree on which keys there are and on their secrets, and every id is valid -/
structure Coherent (u : Keys) : Prop where
  secret : ∀ keyID, u.secretKeys.lookup keyID = (u.keypairs.lookup keyID).map KeyPair.sharedKey
  metadata : ∀ keyID, keyID ∈ u.metadata ↔ keyID ∈ u.keypairs
  valid : ∀ keyID ∈ u.keypairs, validateKeyID keyID = .ok ()

theorem lookup_touch (u : Keys) (keyID : GoString) (f : KeyMetadata → KeyMetadata) (k : GoString) :
    (u.touch keyID f).metadata.lookup k = if k = keyID then (u.metadata.lookup k).map f else u.metadata.lookup k := by
  rw [Keys.touch]
  by_cases hk : k = keyID
  · subst hk
    cases hm : u.metadata.lookup k with
    | none => simp [hm]
    | some m => simp
  · cases u.metadata.lookup keyID with
    | none => simp [hk]
    | some m => simp [hk, Finmap.lookup_insert_of_ne]

theorem stable_coherent : Stable Coherent (fun _ => True) (fun _ => True) where
  install u keyID s t _ hvalid _ h := by
    refine ⟨fun k => ?_, fun k => ?_, fun k hk => ?_⟩
    · by_cases hk : k = keyID
      · subst hk
        simp [Keys.install]
      · simp [Keys.install, Finmap.lookup_insert_of_ne _ hk, h.secret]
    · simp [Keys.install, Finmap.mem_insert, h.metadata]
    · rcases Finmap.mem_insert.1 hk with rfl | hk
      · exact hvalid
      · exact h.valid k hk
  touch u keyID f _ h := by
    obtain ⟨hkeypairs, hsecret, -⟩ := touch_keypairs u keyID f
    refine ⟨by rw [hkeypairs, hsecret]; exact h.secret, fun k => ?_, by rw [hkeypairs]; exact h.valid⟩
    rw [hkeypairs, ← h.metadata, ← Finmap.lookup_isSome, ← Finmap.lookup_isSome, lookup_touch]
    split_ifs <;> simp
  revoke u keyID entry h := ⟨h.secret, h.metadata, h.valid⟩
  remove u keyID _ h := by
    refine ⟨fun k => ?_, fun k => ?_, fun k hk => h.valid k (Finmap.mem_erase.1 hk).2⟩
    · by_cases hk : k = keyID
      · subst hk
        simp [Keys.remove]
      · simp [Keys.remove, Finmap.lookup_erase_ne hk, h.secret]
    · simp [Keys.remove, Finmap.mem_erase, h.metadata]

theorem coherent_new : Coherent Vault.new.toKeys :=
  ⟨fun _ => rfl, fun _ => iff_of_false Finmap.notMem_empty Finmap.notMem_empty, fun _ hk => absurd hk Finmap.notMem_empty⟩

theorem coherent_reached {v : Vault} (h : Reached l v) : Coherent v.toKeys := by
  obtain ⟨history, rfl⟩ := h
  have hstep : ∀ c ∈ history, ∀ v : Vault, Coherent v.toKeys → Coherent (callStep l v c).toKeys := by
    intro c _ v hv
    exact stable_coherent.callStep (fun _ _ _ => trivial) (fun _ _ => trivial) hv
  exact Run.after_inv hstep coherent_new

/-! ## A call alone -/

theorem exec_ended (r : Except Fault Value) (v : Vault) (op : Op) : exec l η v ⟨op, .ended r⟩ = (⟨op, .ended r⟩, v) := rfl

/-- a section that ends its call ends it with what it returns or raises -/
theorem ends_eq {α : Type} (x : VaultM α) (value : α → Value) (v : Vault) :
    ends x value v = (.ended ((Raise.run x v).1.map value), (Raise.run x v).2) := by
  rw [ends, goes]
  cases (Raise.run x v).1 <;> rfl

theorem alone_of_ends {op : Op} {pc : Pc} {v : Vault} {r : Except Fault Value} {t : Vault}
    (h : nextSection l η v op pc = (.ended r, t)) (n : ℕ) :
    Threads.alone (exec l) η (n + 1) (⟨op, pc⟩, v) = (⟨op, .ended r⟩, t) := by
  have hexec : exec l η v ⟨op, pc⟩ = (⟨op, .ended r⟩, t) := by rw [exec, h]
  rw [Threads.alone, hexec]
  exact Threads.alone_of_fixed (fun v => exec_ended r v op) n t

theorem alone_of_goes {op : Op} {pc next : Pc} {v t : Vault} (h : nextSection l η v op pc = (next, t)) (n : ℕ) :
    Threads.alone (exec l) η (n + 1) (⟨op, pc⟩, v) = Threads.alone (exec l) η n (⟨op, next⟩, t) := by
  rw [Threads.alone, exec, h]

/-- **The sections of a call, with nothing between them, are the call.** -/
theorem alone_call (η : Host) (v : Vault) (op : Op) :
    Threads.alone (exec l) η 3 (⟨op, .start⟩, v) =
      (⟨op, .ended (Raise.run (callOf l η op) v).1⟩, (Raise.run (callOf l η op) v).2) := by
  have hone : ∀ op, firstSection l η v op = ends (callOf l η op) id v →
      Threads.alone (exec l) η 3 (⟨op, .start⟩, v) =
        (⟨op, .ended (Raise.run (callOf l η op) v).1⟩, (Raise.run (callOf l η op) v).2) := by
    intro op hop
    refine alone_of_ends ?_ 2
    rw [nextSection, hop, ends_eq, Except.map_id]
    rfl
  cases op with
  | encrypt keyID plaintext =>
    rw [callOf, run_map, encrypt, run_bind]
    rcases hbegin : Raise.run (encryptBegin l η keyID plaintext) v with ⟨f | _ | ct, t⟩
    · exact alone_of_ends (by rw [nextSection, firstSection, goes, hbegin]; rfl) 2
    · have hnext : nextSection l η v (.encrypt keyID plaintext) .start = (.generate, t) := by
        rw [nextSection, firstSection, goes, hbegin]
        rfl
      rw [alone_of_goes hnext]
      dsimp only
      rw [run_bind]
      rcases hgen : Raise.run (generateKeypair η keyID) t with ⟨f | kp, u⟩
      · exact alone_of_ends (by rw [nextSection, goes, hgen]; rfl) 1
      · have hnext : nextSection l η t (.encrypt keyID plaintext) .generate = (.resume, u) := by
          rw [nextSection, goes, hgen]
        rw [alone_of_goes hnext]
        exact alone_of_ends (by rw [nextSection, ends_eq]) 0
    · exact alone_of_ends (by rw [nextSection, firstSection, goes, hbegin]; rfl) 2
  | rotateKey keyID =>
    rw [callOf, run_map, rotateKey, run_bind]
    rcases hbegin : Raise.run (rotateBegin η keyID) v with ⟨f | newID, t⟩
    · exact alone_of_ends (by rw [nextSection, firstSection, goes, hbegin]; rfl) 2
    · have hnext : nextSection l η v (.rotateKey keyID) .start = (.rotateGenerate newID, t) := by
        rw [nextSection, firstSection, goes, hbegin]
      rw [alone_of_goes hnext]
      dsimp only
      rw [run_bind]
      rcases hgen : Raise.run (generateKeypair η newID) t with ⟨f | kp, u⟩
      · exact alone_of_ends (by rw [nextSection, goes, hgen]; rfl) 1
      · have hnext : nextSection l η t (.rotateKey keyID) (.rotateGenerate newID) = (.rotateLog newID, u) := by
          rw [nextSection, goes, hgen]
        rw [alone_of_goes hnext]
        exact alone_of_ends (by rw [nextSection, ends_eq]) 0
  | generateKeypair keyID => exact hone _ rfl
  | decrypt keyID ct => exact hone _ rfl
  | revokeKey keyID reason revokedBy details => exact hone _ rfl
  | isRevoked keyID => exact hone _ rfl
  | listKeys => exact hone _ rfl
  | removeKeypair keyID => exact hone _ rfl

/-! ## A host and libraries to try calls with -/

/-- the sum of the bytes for a hash, and a cipher whose tag is the key -/
def sumLibs : Libs where
  sha256 b := Vector.replicate 32 (b.foldl (· + ·) 0)
  aead := Aead.tagged.comap fun d => d[0]

theorem sumLibs_correct : sumLibs.aead.Correct := Aead.tagged_correct.comap _

/-- random bytes that are all the same, and a clock that stands -/
def constHost (b : UInt8) : Host where
  clock _ := ⟨2026, 1, 1, 0, 0, 0, 0⟩
  secret := .ok (Vector.replicate 32 b)
  nonce := .ok (Vector.replicate 12 b)

end AbirGuard.Go
