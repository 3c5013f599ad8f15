/-
What does a rotation of the Go vault leave of the old key, of other keys, and of itself when it fails?

RotateKey marks the metadata of the old key as expired, and then generates a key under an id made of the old one and the time
in seconds. ListKeys looks at the mark and Encrypt does not. The new id may be in use, may be too long or may be revoked, and
nothing takes the mark back.

- `retired_iff`: after a rotation no encryption uses the old secret if and only if every later encryption for the id finds it
  revoked, gets no random bytes or has too long a text; the id is not listed, in any case.
- `rotation_preserves_iff`: a rotation gives a new id and keeps every key and every ciphertext if and only if its id was free.
- `rotation_atomic_iff`: a rotation that fails leaves the vault as it was if and only if the key is missing, or the new key can
  be generated (it does not fail then), or the key is already marked with the same new id.
-/
import AbirGuard.Go.Calls

namespace AbirGuard.Go

open AbirGuard.Core Raise

variable {l : Libs} {η : Host} {keyID : GoString} {v : Vault}

/-! ## When a rotation fails -/

/-- the metadata of the key says that it was rotated to this id -/
def MarkedAs (u : Keys) (keyID newID : GoString) : Prop :=
  ∃ m, u.metadata.lookup keyID = some m ∧ m.isExpired = true ∧ m.rotatedTo = newID

theorem touch_eq_self_iff {u : Keys} {newID : GoString} (h : Coherent u) (hkey : keyID ∈ u.keypairs) :
    u.touch keyID (markRotated newID) = u ↔ MarkedAs u keyID newID := by
  obtain ⟨m, hm⟩ := Finmap.mem_iff.1 ((h.metadata keyID).2 hkey)
  unfold MarkedAs
  rw [Keys.touch, hm]
  constructor
  · intro heq
    have hlookup := congrArg (fun u : Keys => u.metadata.lookup keyID) heq
    simp only [Finmap.lookup_insert, hm, Option.some.injEq] at hlookup
    refine ⟨m, rfl, ?_, ?_⟩
    · rw [← hlookup]
      rfl
    · rw [← hlookup]
      rfl
  · rintro ⟨m', hm', hexpired, hto⟩
    obtain rfl := Option.some.inj hm'
    have hmark : markRotated newID m = m := by
      rw [markRotated, ← hexpired, ← hto]
    have hinsert : u.metadata.insert keyID m = u.metadata := by
      refine Finmap.ext_lookup fun k => ?_
      by_cases hk : k = keyID
      · rw [hk, Finmap.lookup_insert, hm]
      · rw [Finmap.lookup_insert_of_ne _ hk]
    dsimp only
    rw [hmark, hinsert]

/-- **A rotation that fails leaves the vault as it was, but for a key that is there and not yet marked with an id under which
no key can be generated.** -/
theorem rotation_atomic_iff (hv : Reached l v) (η : Host) (keyID : GoString) :
    ((∃ f, (Raise.run (callOf l η (.rotateKey keyID)) v).1 = .error f) → callStep l v (η, .rotateKey keyID) = v) ↔
      keyID ∉ v.keypairs ∨ CanGenerate η v.toKeys (newID η keyID) ∨ MarkedAs v.toKeys keyID (newID η keyID) := by
  have hcoherent := coherent_reached hv
  unfold callStep
  rw [callOf, run_map]
  rcases rotateKey_cases (η := η) keyID v with ⟨hkey, msg, hrun⟩ | ⟨hkey, hno, msg, hrun⟩ | ⟨hkey, s, hcan, -, hok, -⟩
  · rw [hrun]
    simp [hkey]
  · rw [hrun]
    have hsame : ({ v with toKeys := v.toKeys.touch keyID (markRotated (newID η keyID)) } : Vault) = v ↔
        MarkedAs v.toKeys keyID (newID η keyID) := by
      rw [← touch_eq_self_iff hcoherent hkey]
      constructor
      · intro h
        exact congrArg Vault.toKeys h
      · intro h
        rw [h]
    dsimp only
    rw [hsame]
    constructor
    · intro h
      exact Or.inr (Or.inr (h ⟨_, rfl⟩))
    · intro h _
      exact (h.resolve_left (not_not.2 hkey)).resolve_left hno
  · rw [hok]
    simp [hcan, Except.map]

/-- 42 letters: an id of that length is valid, and 23 bytes more are too many -/
def longID : GoString := List.replicate 42 97

/-- a vault with a key under it -/
def longIDVault : Vault := callStep sumLibs Vault.new (constHost 1, .generateKeypair longID)

theorem reached_longIDVault : Reached sumLibs longIDVault := ⟨[(constHost 1, .generateKeypair longID)], rfl⟩

theorem rotation_atomic_iff_long :
    ((∃ f, (Raise.run (callOf sumLibs (constHost 2) (.rotateKey longID)) longIDVault).1 = .error f) →
        callStep sumLibs longIDVault (constHost 2, .rotateKey longID) = longIDVault) ↔
      longID ∉ longIDVault.keypairs ∨ CanGenerate (constHost 2) longIDVault.toKeys (newID (constHost 2) longID) ∨
        MarkedAs longIDVault.toKeys longID (newID (constHost 2) longID) :=
  rotation_atomic_iff reached_longIDVault (constHost 2) longID

/-- the rotation fails, and the key is not listed any more -/
theorem rotation_not_atomic : Reached sumLibs longIDVault ∧
    (Raise.run (callOf sumLibs (constHost 2) (.rotateKey longID)) longIDVault).1 =
        .error (.error (utf8 "key_id too long (max 64 chars)")) ∧
      longIDVault.listKeys = {longID} ∧ (callStep sumLibs longIDVault (constHost 2, .rotateKey longID)).listKeys = ∅ := by
  refine ⟨reached_longIDVault, ?_⟩
  decide +kernel

/-! ## What a rotation does to other keys -/

theorem lookup_install (u : Keys) (keyID : GoString) (s : Vector UInt8 32) (t : Time) {k : GoString} (hk : k ≠ keyID) :
    (u.install keyID s t).keypairs.lookup k = u.keypairs.lookup k ∧
      (u.install keyID s t).secretKeys.lookup k = u.secretKeys.lookup k := by
  simp [Keys.install, Finmap.lookup_insert_of_ne _ hk]

/-- a ciphertext that opens goes on to open while its key has its secret and is not revoked -/
theorem decrypt_kept {w : Vault} {id : GoString} (hsecret : w.secretKeys.lookup id = v.secretKeys.lookup id)
    (hrevoked : w.revoked = v.revoked) {ct : Ciphertext} {p : Bytes}
    (h : (Raise.run (callOf l η (.decrypt id ct)) v).1 = .ok (.plaintext p)) :
    (Raise.run (callOf l η (.decrypt id ct)) w).1 = .ok (.plaintext p) := by
  rw [callOf, run_map] at h ⊢
  obtain ⟨p', hp', hvalue⟩ := Outcome.map_eq_ok h
  cases hvalue
  obtain ⟨secret, nonce, sealed, hreach, hopen⟩ := decrypt_ok_iff.1 hp'
  have hreach' : ReachesOpen w.toKeys id ct secret nonce sealed :=
    { hreach with
      present := hsecret.trans hreach.present
      unrevoked := by
        rw [hrevoked]
        exact hreach.unrevoked }
  dsimp only
  rw [decrypt_ok_iff.2 ⟨secret, nonce, sealed, hreach', hopen⟩]
  rfl

/-- the maps after a rotation that succeeds -/
theorem rotate_ok (hok : (Raise.run (callOf l η (.rotateKey keyID)) v).1 = .ok .nil) :
    ∃ s, CanGenerate η v.toKeys (newID η keyID) ∧ (callStep l v (η, .rotateKey keyID)).toKeys =
      (v.toKeys.touch keyID (markRotated (newID η keyID))).install (newID η keyID) s (η.clock .created) := by
  unfold callStep
  rw [callOf, run_map] at hok ⊢
  rcases rotateKey_cases (η := η) keyID v with ⟨-, msg, hrun⟩ | ⟨-, -, msg, hrun⟩ | ⟨-, s, hcan, -, -, hkeys⟩
  · rw [hrun] at hok
    cases hok
  · rw [hrun] at hok
    cases hok
  · exact ⟨s, hcan, hkeys⟩

/-- a rotation that succeeds changes the key under its id, and no other -/
theorem rotate_keys (hok : (Raise.run (callOf l η (.rotateKey keyID)) v).1 = .ok .nil) :
    newID η keyID ∈ (callStep l v (η, .rotateKey keyID)).keypairs ∧
      (callStep l v (η, .rotateKey keyID)).revoked = v.revoked ∧
      ∀ id, id ≠ newID η keyID → (callStep l v (η, .rotateKey keyID)).keypairs.lookup id = v.keypairs.lookup id ∧
        (callStep l v (η, .rotateKey keyID)).secretKeys.lookup id = v.secretKeys.lookup id := by
  obtain ⟨s, -, hkeys⟩ := rotate_ok hok
  obtain ⟨hkeypairs, hsecrets, hrevoked⟩ := touch_keypairs v.toKeys keyID (markRotated (newID η keyID))
  rw [hkeys]
  refine ⟨Finmap.mem_insert.2 (Or.inl rfl), hrevoked, ?_⟩
  intro id hid
  rw [← hkeypairs, ← hsecrets]
  exact lookup_install _ _ s (η.clock .created) hid

/-- **A rotation that succeeds gives a key under a new id and keeps every key and every ciphertext if and only if its id was
free.** -/
theorem rotation_preserves_iff (hv : Reached l v) (hok : (Raise.run (callOf l η (.rotateKey keyID)) v).1 = .ok .nil) :
    ((∃ id, id ∉ v.keypairs ∧ id ∈ (callStep l v (η, .rotateKey keyID)).keypairs) ∧
        (∀ id ∈ v.keypairs, (callStep l v (η, .rotateKey keyID)).keypairs.lookup id = v.keypairs.lookup id ∧
          (callStep l v (η, .rotateKey keyID)).secretKeys.lookup id = v.secretKeys.lookup id) ∧
        ∀ η' id ct p, (Raise.run (callOf l η' (.decrypt id ct)) v).1 = .ok (.plaintext p) →
          (Raise.run (callOf l η' (.decrypt id ct)) (callStep l v (η, .rotateKey keyID))).1 = .ok (.plaintext p)) ↔
      newID η keyID ∉ v.keypairs := by
  obtain ⟨hnew, hrevoked, hother⟩ := rotate_keys hok
  constructor
  · rintro ⟨⟨id, hid, hid'⟩, -⟩ hin
    -- every id that is there now is the new one or was there before
    by_cases hne : id = newID η keyID
    · exact hid (hne ▸ hin)
    · rw [← Finmap.lookup_isSome, (hother id hne).1, Finmap.lookup_isSome] at hid'
      exact hid hid'
  · intro hfree
    have hne : ∀ id ∈ v.keypairs, id ≠ newID η keyID := by
      rintro id hid rfl
      exact hfree hid
    refine ⟨⟨_, hfree, hnew⟩, ?_, ?_⟩
    · intro id hid
      exact hother id (hne id hid)
    · intro η' id ct p h
      -- what opens has a key, which is not the new one
      have hid : id ∈ v.keypairs := by
        rw [callOf, run_map] at h
        obtain ⟨p', hp', -⟩ := Outcome.map_eq_ok h
        obtain ⟨secret, _, _, hreach, -⟩ := decrypt_ok_iff.1 hp'
        have hsecret := (coherent_reached hv).secret id
        rw [hreach.present] at hsecret
        exact Finmap.mem_of_lookup_eq_some (Option.map_eq_some_iff.1 hsecret.symm).choose_spec.1
      exact decrypt_kept (hother id (hne id hid)).2 hrevoked h

/-- a vault with one key -/
def kVault : Vault := callStep sumLibs Vault.new (constHost 1, .generateKeypair (utf8 "k"))

theorem reached_kVault : Reached sumLibs kVault := ⟨[(constHost 1, .generateKeypair (utf8 "k"))], rfl⟩

/-- the history of a key that was rotated, and whose new key encrypted something -/
def rotatedHistory : List (Host × Op) :=
  [(constHost 1, .generateKeypair (utf8 "k")), (constHost 2, .rotateKey (utf8 "k")),
    (constHost 3, .encrypt (newID (constHost 2) (utf8 "k")) [9])]

def rotatedVault : Vault := Run.after (callStep sumLibs) Vault.new rotatedHistory

/-- what it encrypted -/
def rotatedCiphertext : Ciphertext :=
  ⟨stdEncode (List.replicate 12 3), stdEncode [9], stdEncode (List.replicate 16 19)⟩

theorem rotation_preserves_iff_k :
    (Raise.run (callOf sumLibs (constHost 5) (.decrypt (newID (constHost 2) (utf8 "k")) rotatedCiphertext))
      (callStep sumLibs rotatedVault (constHost 6, .rotateKey (newID (constHost 2) (utf8 "k"))))).1 = .ok (.plaintext [9]) := by
  have hreached : Reached sumLibs rotatedVault := ⟨rotatedHistory, rfl⟩
  have hok : (Raise.run (callOf sumLibs (constHost 6) (.rotateKey (newID (constHost 2) (utf8 "k")))) rotatedVault).1 =
      .ok .nil := by decide +kernel
  have hfree : newID (constHost 6) (newID (constHost 2) (utf8 "k")) ∉ rotatedVault.keypairs := by decide +kernel
  exact ((rotation_preserves_iff hreached hok).2 hfree).2.2 (constHost 5) _ _ _ (by decide +kernel)

/-- a second rotation in the same second: the key of the first one is gone, and what it encrypted does not open -/
theorem rotation_overwrites : Reached sumLibs rotatedVault ∧
    (Raise.run (callOf sumLibs (constHost 3) (.encrypt (newID (constHost 2) (utf8 "k")) [9]))
        (Run.after (callStep sumLibs) Vault.new (rotatedHistory.take 2))).1 = .ok (.ciphertext rotatedCiphertext) ∧
      (Raise.run (callOf sumLibs (constHost 5) (.decrypt (newID (constHost 2) (utf8 "k")) rotatedCiphertext)) rotatedVault).1 =
        .ok (.plaintext [9]) ∧
      (Raise.run (callOf sumLibs (constHost 4) (.rotateKey (utf8 "k"))) rotatedVault).1 = .ok .nil ∧
      (Raise.run (callOf sumLibs (constHost 5) (.decrypt (newID (constHost 2) (utf8 "k")) rotatedCiphertext))
          (callStep sumLibs rotatedVault (constHost 4, .rotateKey (utf8 "k")))).1 =
        .error (.error (utf8 "decryption failed: cipher: message authentication failed")) := by
  refine ⟨⟨rotatedHistory, rfl⟩, ?_⟩
  decide +kernel

/-! ## What a rotation leaves of the old key -/

/-- the key has this secret and is marked as expired -/
structure Retired (keyID : GoString) (secret : Bytes) (u : Keys) : Prop where
  keypair : ∃ kp, u.keypairs.lookup keyID = some kp ∧ kp.sharedKey = secret
  marked : ∃ m, u.metadata.lookup keyID = some m ∧ m.isExpired = true

/-- the call removes the key, or generates it again -/
def Renews (keyID : GoString) (w : Vault) (c : Host × Op) : Prop :=
  c.2 = .removeKeypair keyID ∨ MayGenerate w.toKeys c keyID ∧ CanGenerate c.1 w.toKeys keyID

/-- an encryption of this text under this secret, with some nonce -/
def SealedWith (l : Libs) (secret plaintext : Bytes) (ct : Ciphertext) : Prop :=
  ∃ nonce, ct = packed nonce (l.aead.encrypt (deriveKey l secret) nonce plaintext)

variable {secret : Bytes}

theorem newID_ne (η : Host) (keyID : GoString) : newID η keyID ≠ keyID := by
  intro h
  have hlength := congrArg List.length h
  have hpos : 0 < (utf8 "_rotated_").length := by decide +kernel
  simp only [newID, List.length_append] at hlength
  omega

theorem stable_retired (keyID : GoString) (secret : Bytes) : Stable (Retired keyID secret) (· ≠ keyID) (· ≠ keyID) where
  install u k s t hk _ _ h := by
    refine ⟨?_, ?_⟩
    · rw [(lookup_install u k s t (Ne.symm hk)).1]
      exact h.keypair
    · rw [Keys.install, Finmap.lookup_insert_of_ne _ (Ne.symm hk)]
      exact h.marked
  touch u k f hf h := by
    refine ⟨by rw [(touch_keypairs u k f).1]; exact h.keypair, ?_⟩
    obtain ⟨m, hm, hexpired⟩ := h.marked
    rw [lookup_touch, hm]
    split_ifs
    · refine ⟨f m, rfl, ?_⟩
      rcases hf with hf | ⟨newID, rfl⟩
      · exact (hf m).1.trans hexpired
      · rfl
    · exact ⟨m, rfl, hexpired⟩
  revoke u k entry h := ⟨h.keypair, h.marked⟩
  remove u k hk h := by
    refine ⟨?_, ?_⟩
    · rw [Keys.remove, Finmap.lookup_erase_ne (Ne.symm hk)]
      exact h.keypair
    · rw [Keys.remove, Finmap.lookup_erase_ne (Ne.symm hk)]
      exact h.marked

theorem retired_callStep {w : Vault} (h : Retired keyID secret w.toKeys) {c : Host × Op} (hc : ¬ Renews keyID w c) :
    Retired keyID secret (callStep l w c).toKeys := by
  refine (stable_retired keyID secret).callStep ?_ ?_ h
  · rintro _ hmay hcan rfl
    exact hc (Or.inr ⟨hmay, hcan⟩)
  · rintro _ hremove rfl
    exact hc (Or.inl hremove)

theorem retired_of_rotate (hv : Reached l v) (hok : (Raise.run (callOf l η (.rotateKey keyID)) v).1 = .ok .nil)
    (hsecret : v.secretKeys.lookup keyID = some secret) : Retired keyID secret (callStep l v (η, .rotateKey keyID)).toKeys := by
  have hcoherent := coherent_reached hv
  obtain ⟨kp, hkp, hkps⟩ := Option.map_eq_some_iff.1 ((hcoherent.secret keyID).symm.trans hsecret)
  obtain ⟨m, hm⟩ := Finmap.mem_iff.1 ((hcoherent.metadata keyID).2 (Finmap.mem_of_lookup_eq_some hkp))
  have hmarked : Retired keyID secret (v.toKeys.touch keyID (markRotated (newID η keyID))) := by
    refine ⟨?_, markRotated (newID η keyID) m, ?_, rfl⟩
    · rw [(touch_keypairs _ _ _).1]
      exact ⟨kp, hkp, hkps⟩
    · rw [lookup_touch, if_pos rfl, hm]
      rfl
  obtain ⟨s, hcan, hkeys⟩ := rotate_ok hok
  rw [hkeys]
  exact (stable_retired keyID secret).install _ _ _ _ (newID_ne η keyID) hcan.1 (canGenerate_touch.2 hcan).2.1 hmarked

theorem Retired.notMem_listKeys {w : Vault} (h : Retired keyID secret w.toKeys) : keyID ∉ w.listKeys := by
  obtain ⟨m, hm, hexpired⟩ := h.marked
  intro hlisted
  have hno := (Finset.mem_filter.1 hlisted).2.2 m hm
  rw [hexpired] at hno
  cases hno

/-- Encrypt does not look at the mark -/
theorem Retired.encrypt_iff {w : Vault} (h : Retired keyID secret w.toKeys) (hvalid : validateKeyID keyID = .ok ())
    (plaintext : Bytes) :
    (∃ ct, (Raise.run (callOf l η (.encrypt keyID plaintext)) w).1 = .ok (.ciphertext ct) ∧ SealedWith l secret plaintext ct) ↔
      ¬ (keyID ∈ w.revoked ∨ CannotSeal η plaintext) := by
  obtain ⟨kp, hkp, hsecret⟩ := h.keypair
  rw [callOf, run_map]
  unfold CannotSeal
  by_cases hrevoked : keyID ∈ w.revoked
  · obtain ⟨msg, hrun⟩ := encrypt_refused (l := l) (η := η) (fun hok => hok.2 hrevoked) plaintext
    rw [hrun]
    refine iff_of_false ?_ (not_not.2 (Or.inl hrevoked))
    rintro ⟨ct, hct, -⟩
    cases hct
  · rw [encrypt_of_present hvalid hrevoked (Finmap.mem_of_lookup_eq_some hkp)]
    rcases encryptResume_cases (l := l) (η := η) keyID plaintext w with
      ⟨hno, -⟩ | ⟨kp', hkp', ⟨e, msg, hnonce, hrun⟩ | ⟨nonce, hnonce, ⟨hlong, msg, hrun⟩ | ⟨hshort, hok, -⟩⟩⟩
    · cases hno.symm.trans hkp
    · rw [hrun]
      refine iff_of_false ?_ (not_not.2 (Or.inr (Or.inl ⟨e, hnonce⟩)))
      rintro ⟨ct, hct, -⟩
      cases hct
    · rw [hrun]
      refine iff_of_false ?_ (not_not.2 (Or.inr (Or.inr hlong)))
      rintro ⟨ct, hct, -⟩
      cases hct
    · obtain rfl := Option.some.inj (hkp.symm.trans hkp')
      rw [hok]
      refine iff_of_true ⟨_, rfl, nonce, by rw [hsecret]⟩ ?_
      rintro (hin | ⟨e, he⟩ | hlong)
      · exact hrevoked hin
      · rw [hnonce] at he
        cases he
      · omega

/-- **After a rotation, as long as the old key is neither removed nor generated again, it is not listed; and no encryption
succeeds with its secret if and only if every encryption for it finds it revoked or cannot seal.** -/
theorem retired_iff (hv : Reached l v) (hok : (Raise.run (callOf l η (.rotateKey keyID)) v).1 = .ok .nil)
    (hsecret : v.secretKeys.lookup keyID = some secret) {later : List (Host × Op)}
    (hlater : Run.EachStep (callStep l) (fun w c => ¬ Renews keyID w c) (callStep l v (η, .rotateKey keyID)) later) :
    (Run.EachStep (callStep l) (fun w c => ∀ plaintext ct, c.2 = .encrypt keyID plaintext →
          (Raise.run (callOf l c.1 c.2) w).1 = .ok (.ciphertext ct) → ¬ SealedWith l secret plaintext ct)
        (callStep l v (η, .rotateKey keyID)) later ∧
      ∀ pre post, later = pre ++ post → keyID ∉ (Run.after (callStep l) (callStep l v (η, .rotateKey keyID)) pre).listKeys) ↔
    Run.EachStep (callStep l) (fun w c => ∀ plaintext, c.2 = .encrypt keyID plaintext →
        keyID ∈ w.revoked ∨ CannotSeal c.1 plaintext) (callStep l v (η, .rotateKey keyID)) later := by
  have hcoherent := coherent_reached hv
  have hvalid : validateKeyID keyID = .ok () := by
    obtain ⟨kp, hkp, -⟩ := Option.map_eq_some_iff.1 ((hcoherent.secret keyID).symm.trans hsecret)
    exact hcoherent.valid keyID (Finmap.mem_of_lookup_eq_some hkp)
  have hretired : ∀ pre post, later = pre ++ post →
      Retired keyID secret (Run.after (callStep l) (callStep l v (η, .rotateKey keyID)) pre).toKeys := by
    intro pre post hsplit
    have hstep : ∀ (w : Vault) c, Retired keyID secret w.toKeys → ¬ Renews keyID w c →
        Retired keyID secret (callStep l w c).toKeys := fun w c h hc => retired_callStep h hc
    exact Run.EachStep.after _ hstep (retired_of_rotate hv hok hsecret) (hsplit ▸ hlater).left
  constructor
  · rintro ⟨hnone, -⟩ pre c post hsplit plaintext hop
    by_contra hcan
    obtain ⟨ct, hct, hsealed⟩ := ((hretired pre _ hsplit).encrypt_iff hvalid plaintext).2 hcan
    exact hnone pre c post hsplit plaintext ct hop (hop ▸ hct) hsealed
  · intro hcannot
    refine ⟨?_, fun pre post hsplit => (hretired pre post hsplit).notMem_listKeys⟩
    intro pre c post hsplit plaintext ct hop hct hsealed
    have hcannot := hcannot pre c post hsplit plaintext hop
    exact ((hretired pre _ hsplit).encrypt_iff hvalid plaintext).1 ⟨ct, hop ▸ hct, hsealed⟩ hcannot

theorem retired_iff_k : utf8 "k" ∉
    (Run.after (callStep sumLibs) (callStep sumLibs kVault (constHost 2, .rotateKey (utf8 "k")))
      [(constHost 3, .decrypt (utf8 "k") rotatedCiphertext)]).listKeys := by
  have hok : (Raise.run (callOf sumLibs (constHost 2) (.rotateKey (utf8 "k"))) kVault).1 = .ok .nil := by decide +kernel
  have hsecret : kVault.secretKeys.lookup (utf8 "k") = some (List.replicate 32 1) := by decide +kernel
  have hlater : Run.EachStep (callStep sumLibs) (fun w c => ¬ Renews (utf8 "k") w c)
      (callStep sumLibs kVault (constHost 2, .rotateKey (utf8 "k")))
      [(constHost 3, .decrypt (utf8 "k") rotatedCiphertext)] :=
    Run.eachStep_cons.2 ⟨by simp [Renews, MayGenerate], Run.eachStep_nil _⟩
  refine ((retired_iff reached_kVault hok hsecret hlater).2 ?_).2 _ [] rfl
  exact Run.eachStep_cons.2 ⟨by simp, Run.eachStep_nil _⟩

/-- the rotation succeeds, and the next encryption for the old id uses the old secret -/
theorem rotated_key_encrypts : Reached sumLibs kVault ∧
    (Raise.run (callOf sumLibs (constHost 2) (.rotateKey (utf8 "k"))) kVault).1 = .ok .nil ∧
    kVault.secretKeys.lookup (utf8 "k") = some (List.replicate 32 1) ∧
    (Raise.run (callOf sumLibs (constHost 3) (.encrypt (utf8 "k") [9]))
        (callStep sumLibs kVault (constHost 2, .rotateKey (utf8 "k")))).1 =
      .ok (.ciphertext (packed (Vector.replicate 12 3)
        (sumLibs.aead.encrypt (deriveKey sumLibs (List.replicate 32 1)) (Vector.replicate 12 3) [9]))) := by
  refine ⟨reached_kVault, ?_⟩
  decide +kernel

end AbirGuard.Go
