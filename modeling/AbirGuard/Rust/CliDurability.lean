/-
Does a printed ciphertext stay decryptable over a run of commands?

The key file holds, for each id, the key that a loading command sees: a `Keyring`. `keyring_after` is the simulation: every
command acts on the encrypted file as `Keyring.step` acts on the map. There `init` installs a new key whatever the id had,
because the pushed duplicate is exported behind the old entry and the reload keeps the last one, while `encrypt` makes a key
only for an id without one.

- `decrypts_iff`: the ciphertext of a successful `encrypt k d` is decrypted to d by a later `decrypt k`, with no delete-key k
  and no clear-cache between, if and only if no `init k` ran between. Whatever else ran does not matter.
- `init_discards_key`: after init a, encrypt a, init a, the ciphertext does not decrypt.

Within one process the first entry of an id is the one in use (`Vault::store`, `Vault::retrieve`), and
`load_additional_keys` keeps it too.
-/
import AbirGuard.Rust.Instance

namespace AbirGuard.Rust.Cli

open AbirGuard.Core AbirGuard.Rust

section

variable {Key : Type} (c : VaultCrates Key) (passphrase : String)

/-! ## The keys of a run -/

abbrev Keyring := String → Option (KeyPair × Bytes)

/-- the key of each id, as a loading command sees it -/
def keyring (disk : Disk) : Keyring := fun id => Table.get id (loaded c passphrase disk.keys)

/-- what a command does to the keys -/
def Keyring.step (δ : CmdDraw) (K : Keyring) : Cmd → Keyring
  | .init k =>
    if validateKeyId c k = .ok () then Function.update K k (some (keygen c.toCrates δ.seed)) else K
  | .encrypt k d =>
    if validateKeyId c k = .ok () ∧ d.utf8ByteSize ≤ 1024 * 1024 then
      Function.update K k (some ((K k).getD (keygen c.toCrates δ.seed)))
    else K
  | .deleteKey k => if validateKeyId c k = .ok () then Function.update K k none else K
  | .clearCache => fun _ => none
  | _ => K

/-- no write fails and the watchdog does not fire -/
structure Smooth (δ : CmdDraw) : Prop where
  write : δ.write = .done
  elapsed : δ.elapsed ≤ HANDSHAKE_TIMEOUT_MS

/-- the AES keys of all fresh seeds differ from one another and from those already stored -/
structure Fresh (disk : Disk) (run : List (Cmd × CmdDraw)) : Prop where
  nodup : (run.map fun r => aesKey c.toCrates r.2.seed).Nodup
  stored : ∀ r ∈ run, ∀ e ∈ loaded c passphrase disk.keys, aesKey c.toCrates e.2.2 ≠ aesKey c.toCrates r.2.seed

variable {c passphrase}

/-! ## The simulation -/

theorem keyring_written (hc : c.Correct) {disk : Disk} {δ : CmdDraw} (hs : Smooth δ) {t : List Entry} (h : Coherent c t) :
    keyring c passphrase { disk with keys := δ.write.file (keysBlob c passphrase δ t) } =
      fun id => Table.get id (Table.load t) := by
  funext id
  rw [keyring, hs.write, Write.file, loaded_keysBlob hc h]

/-- **The simulation**: on the encrypted file a command does what `Keyring.step` does to the map of keys. -/
theorem keyring_after (hc : c.Correct) {δ : CmdDraw} (hs : Smooth δ) (disk : Disk) (cmd : Cmd) :
    keyring c passphrase (after c passphrase δ disk cmd) = (keyring c passphrase disk).step c δ cmd := by
  have hu := unique_loaded (c := c) passphrase disk.keys
  have hco := coherent_loaded (c := c) passphrase disk.keys
  have hsame : cmd ≠ .clearCache → ¬ cmd.Persists c δ →
      keyring c passphrase (after c passphrase δ disk cmd) = keyring c passphrase disk := by
    intro hcl hp
    funext id
    rw [keyring, keyring, after_keys_of_not_persists hcl hp]
  cases cmd with
  | init k =>
    by_cases hv : validateKeyId c k = .ok ()
    · have h : exec c passphrase δ disk (.init k) = _ := init_ok hv
      rw [initBody_of] at h
      rw [Keyring.step, if_pos hv, after_eq h, keyring_written hc hs (coherent_add hco (coherent_keygen hc _)),
        Table.load_add hu, Function.eq_update_iff]
      exact ⟨Table.get_put_self .., fun id hid => Table.get_put_of_ne (Ne.symm hid) ..⟩
    · rw [Keyring.step, if_neg hv, hsame (by simp) hv]
  | encrypt k d =>
    by_cases hv : validateKeyId c k = .ok () ∧ d.utf8ByteSize ≤ 1024 * 1024
    · have h : exec c passphrase δ disk (.encrypt k d) = _ := encrypt_ok hv.1 hv.2
      rw [encryptBody_of, Rust.encrypt_ok hs.elapsed, Outcome.map_ok] at h
      rw [Keyring.step, if_pos hv, after_eq h, keyring_written hc hs (coherent_withKey hc hco _ _),
        Table.load_eq_self (Vault.unique_withKey hu _ _), Function.eq_update_iff]
      exact ⟨Vault.get_withKey_self .., fun id hid => Vault.get_withKey_of_ne (Ne.symm hid) ..⟩
    · rw [Keyring.step, if_neg hv, hsame (by simp) fun hp => hv ⟨hp.1, hp.2.1⟩]
  | deleteKey k =>
    by_cases hv : validateKeyId c k = .ok ()
    · have h : exec c passphrase δ disk (.deleteKey k) = _ := deleteKey_ok hv
      rw [deleteBody_of] at h
      rw [Keyring.step, if_pos hv, after_eq h, keyring_written hc hs (coherent_remove hco k),
        Table.load_eq_self (Table.unique_remove hu k), Function.eq_update_iff]
      exact ⟨Table.get_remove_self .., fun id hid => Table.get_remove_of_ne (Ne.symm hid) ..⟩
    · rw [Keyring.step, if_neg hv, hsame (by simp) hv]
  | clearCache => rfl
  | decrypt k ct n => exact hsame (by simp) id
  | listKeys => exact hsame (by simp) id
  | shamirSplit s t n => exact hsame (by simp) id
  | shamirJoin l => exact hsame (by simp) id
  | mldsaInit k => exact hsame (by simp) id
  | mldsaSign k d => exact hsame (by simp) id
  | mldsaVerify k d s => exact hsame (by simp) id
  | mldsaList => exact hsame (by simp) id

/-! ## Runs -/

/-- the keys after a run -/
def Keyring.run (c : VaultCrates Key) (K : Keyring) (run : List (Cmd × CmdDraw)) : Keyring :=
  Run.after (fun K r => K.step c r.2 r.1) K run

theorem keyring_afterAll (hc : c.Correct) (disk : Disk) {run : List (Cmd × CmdDraw)} (hs : ∀ r ∈ run, Smooth r.2) :
    keyring c passphrase (afterAll c passphrase disk run) = (keyring c passphrase disk).run c run :=
  Run.after_sim (keyring c passphrase) (fun r hr disk => keyring_after hc (hs r hr) disk r.1) disk

theorem update_eq_some {K : Keyring} {k id : String} {v : Option (KeyPair × Bytes)} {b : KeyPair × Bytes}
    (h : Function.update K k v id = some b) : id = k ∧ v = some b ∨ K id = some b := by
  by_cases hid : id = k
  · rw [hid, Function.update_self] at h
    exact Or.inl ⟨hid, h⟩
  · rw [Function.update_of_ne hid] at h
    exact Or.inr h

/-- every key of an id was there before the step or is the step's fresh one -/
theorem Keyring.step_origin {δ : CmdDraw} {K : Keyring} {cmd : Cmd} {id : String} {b : KeyPair × Bytes}
    (h : K.step c δ cmd id = some b) : K id = some b ∨ b = keygen c.toCrates δ.seed := by
  cases cmd with
  | init k =>
    simp only [Keyring.step] at h
    split_ifs at h
    · rcases update_eq_some h with ⟨-, hb⟩ | hK
      · exact Or.inr (Option.some.inj hb).symm
      · exact Or.inl hK
    · exact Or.inl h
  | encrypt k d =>
    simp only [Keyring.step] at h
    split_ifs at h
    · rcases update_eq_some h with ⟨rfl, hb⟩ | hK
      · cases hold : K id with
        | none =>
          rw [hold] at hb
          exact Or.inr (Option.some.inj hb).symm
        | some b' =>
          rw [hold] at hb
          exact Or.inl hb
      · exact Or.inl hK
    · exact Or.inl h
  | deleteKey k =>
    simp only [Keyring.step] at h
    split_ifs at h
    · exact Or.inl ((update_eq_some h).resolve_left (by simp))
    · exact Or.inl h
  | clearCache => cases h
  | decrypt k ct n => exact Or.inl h
  | listKeys => exact Or.inl h
  | shamirSplit s t n => exact Or.inl h
  | shamirJoin l => exact Or.inl h
  | mldsaInit k => exact Or.inl h
  | mldsaSign k d => exact Or.inl h
  | mldsaVerify k d s => exact Or.inl h
  | mldsaList => exact Or.inl h

theorem Keyring.run_origin {K : Keyring} {run : List (Cmd × CmdDraw)} {id : String} {b : KeyPair × Bytes}
    (h : K.run c run id = some b) : K id = some b ∨ ∃ r ∈ run, b = keygen c.toCrates r.2.seed := by
  induction run generalizing K with
  | nil => exact Or.inl h
  | cons r run ih =>
    rcases ih h with hK | ⟨r', hr', hb⟩
    · rcases Keyring.step_origin hK with hK | hb
      · exact Or.inl hK
      · exact Or.inr ⟨r, List.mem_cons_self, hb⟩
    · exact Or.inr ⟨r', List.mem_cons_of_mem _ hr', hb⟩

/-- a command that is no init, delete-key or clear-cache of the id keeps its key -/
theorem Keyring.step_keep {δ : CmdDraw} {K : Keyring} {cmd : Cmd} {id : String} {b : KeyPair × Bytes} (h : K id = some b)
    (hi : cmd ≠ .init id) (hd : cmd ≠ .deleteKey id) (hcl : cmd ≠ .clearCache) : K.step c δ cmd id = some b := by
  cases cmd with
  | init k =>
    have hid : id ≠ k := fun e => hi (by rw [e])
    simp only [Keyring.step]
    split_ifs
    · rw [Function.update_of_ne hid, h]
    · exact h
  | encrypt k d =>
    simp only [Keyring.step]
    split_ifs
    · by_cases hid : id = k
      · rw [hid, Function.update_self, ← hid, h, Option.getD_some]
      · rw [Function.update_of_ne hid, h]
    · exact h
  | deleteKey k =>
    have hid : id ≠ k := fun e => hd (by rw [e])
    simp only [Keyring.step]
    split_ifs
    · rw [Function.update_of_ne hid, h]
    · exact h
  | clearCache => exact absurd rfl hcl
  | decrypt k ct n => exact h
  | listKeys => exact h
  | shamirSplit s t n => exact h
  | shamirJoin l => exact h
  | mldsaInit k => exact h
  | mldsaSign k d => exact h
  | mldsaVerify k d s => exact h
  | mldsaList => exact h

/-- an id keeps its key over a run without init of it, and gets that of some init of it otherwise -/
theorem Keyring.run_key {K : Keyring} {run : List (Cmd × CmdDraw)} {id : String} {b : KeyPair × Bytes}
    (hv : validateKeyId c id = .ok ()) (h : K id = some b)
    (hrun : ∀ r ∈ run, r.1 ≠ .deleteKey id ∧ r.1 ≠ .clearCache) :
    ((∀ r ∈ run, r.1 ≠ .init id) ∧ K.run c run id = some b) ∨
    ∃ r ∈ run, r.1 = .init id ∧ K.run c run id = some (keygen c.toCrates r.2.seed) := by
  induction run generalizing K b with
  | nil => exact Or.inl ⟨by simp, h⟩
  | cons r run ih =>
    have htail : ∀ r ∈ run, r.1 ≠ .deleteKey id ∧ r.1 ≠ .clearCache := fun r hr => hrun r (List.mem_cons_of_mem _ hr)
    by_cases hi : r.1 = .init id
    · have hstep : K.step c r.2 r.1 id = some (keygen c.toCrates r.2.seed) := by
        rw [hi, Keyring.step, if_pos hv, Function.update_self]
      rcases ih hstep htail with ⟨-, hk⟩ | ⟨r', hr', hi', hk⟩
      · exact Or.inr ⟨r, List.mem_cons_self, hi, hk⟩
      · exact Or.inr ⟨r', List.mem_cons_of_mem _ hr', hi', hk⟩
    · obtain ⟨hd, hcl⟩ := hrun r List.mem_cons_self
      rcases ih (Keyring.step_keep h hi hd hcl) htail with ⟨hno, hk⟩ | ⟨r', hr', hi', hk⟩
      · refine Or.inl ⟨fun r' hr' => ?_, hk⟩
        rcases List.mem_cons.1 hr' with rfl | hr'
        · exact hi
        · exact hno r' hr'
      · exact Or.inr ⟨r', List.mem_cons_of_mem _ hr', hi', hk⟩

/-! ## The main result -/

/-- a successful encryption used the key that the id has afterwards -/
theorem encrypt_key (hc : c.Correct) {δ : CmdDraw} (hs : Smooth δ) {disk : Disk} {k d ct n : String}
    (h : output c passphrase δ disk (.encrypt k d) = .ok (printedCiphertext ⟨n, ct, ""⟩)) :
    validateKeyId c k = .ok () ∧ ∃ kp sk, keyring c passphrase (after c passphrase δ disk (.encrypt k d)) k = some (kp, sk) ∧
      Rust.encrypt c.toCrates δ.toDraw (utf8 d) sk = .ok ⟨n, ct, ""⟩ := by
  by_cases hv : validateKeyId c k = .ok () ∧ d.utf8ByteSize ≤ 1024 * 1024
  · have he : exec c passphrase δ disk (.encrypt k d) = _ := encrypt_ok hv.1 hv.2
    rw [encryptBody_of] at he
    set b := Vault.keyFor c.toCrates δ.seed (loaded c passphrase disk.keys) k with hb
    have hkey : keyring c passphrase (after c passphrase δ disk (.encrypt k d)) k = some b := by
      rw [keyring_after hc hs, Keyring.step, if_pos hv, Function.update_self]
      rfl
    refine ⟨hv.1, b.1, b.2, hkey, ?_⟩
    rw [Rust.encrypt_ok hs.elapsed] at he ⊢
    rw [output, he] at h
    simp only [Outcome.map_ok, printedCiphertext, Printed.ok, Except.ok.injEq, Printed.mk.injEq, List.cons.injEq] at h
    obtain ⟨⟨hct, hn, -⟩, -⟩ := h
    have hct := String.append_right_inj _ |>.1 hct
    have hn := String.append_right_inj _ |>.1 hn
    simp only [toString] at hct hn
    rw [hct, hn]
  · exfalso
    cases hvk : validateKeyId c k with
    | ok u =>
      have hl : ¬ d.utf8ByteSize ≤ 1024 * 1024 := fun hl => hv ⟨hvk, hl⟩
      simp [output, exec, encrypt, hvk, if_pos (Nat.lt_of_not_le hl), printedCiphertext, Printed.ok, Printed.fail] at h
    | error e => simp [output, exec, encrypt, hvk, printedCiphertext, Printed.ok, Printed.fail] at h

theorem output_decrypt_same (hc : c.Correct) {δ δ' : CmdDraw} (hs' : Smooth δ') {disk : Disk} {k d ct n : String} {kp : KeyPair}
    {sk : Bytes} (hv : validateKeyId c k = .ok ()) (hkey : keyring c passphrase disk k = some (kp, sk))
    (henc : Rust.encrypt c.toCrates δ.toDraw (utf8 d) sk = .ok ⟨n, ct, ""⟩) :
    output c passphrase δ' disk (.decrypt k ct n) = .ok (.ok [d]) := by
  have hdec : Rust.decrypt c.toCrates δ'.elapsed ⟨n, ct, k⟩ sk = .ok (.ok (utf8 d)) :=
    Rust.decrypt_encrypt hc.toCorrect henc hs'.elapsed k
  rw [output, exec, decrypt_of_get hv hkey, hdec]
  simp only [Outcome.ok_bind, fromUtf8Lossy_utf8]
  rfl

theorem output_decrypt_other (hc : c.Correct) (hk : c.aead.Committing) {δ δ' : CmdDraw} {disk : Disk} {k d ct n : String}
    {kp : KeyPair} {sk sk' : Bytes} (hv : validateKeyId c k = .ok ()) (hkey : keyring c passphrase disk k = some (kp, sk'))
    (henc : Rust.encrypt c.toCrates δ.toDraw (utf8 d) sk = .ok ⟨n, ct, ""⟩)
    (hne : aesKey c.toCrates sk ≠ aesKey c.toCrates sk') :
    output c passphrase δ' disk (.decrypt k ct n) = .ok (.fail ["Decryption failed: aead::Error"]) := by
  have hdec : Rust.decrypt c.toCrates δ'.elapsed ⟨n, ct, k⟩ sk' = .ok (.error "aead::Error") :=
    Rust.decrypt_encrypt_ne hc.toCorrect hk henc hne δ'.elapsed k
  rw [output, exec, decrypt_of_get hv hkey, hdec, Outcome.ok_bind]
  rfl

/-- the key in use after the first part of a run differs from every key drawn in the rest -/
theorem Fresh.key_ne {disk : Disk} {run rest : List (Cmd × CmdDraw)} (hf : Fresh c passphrase disk (run ++ rest)) {id : String}
    {kp : KeyPair} {sk : Bytes} (h : (keyring c passphrase disk).run c run id = some (kp, sk)) {r : Cmd × CmdDraw}
    (hr : r ∈ rest) : aesKey c.toCrates sk ≠ aesKey c.toCrates r.2.seed := by
  rcases Keyring.run_origin h with hi | ⟨r', hr', hb⟩
  · exact hf.stored r (List.mem_append_right _ hr) _ (Table.mem_of_get hi)
  · have hn := hf.nodup
    rw [List.map_append, List.nodup_append] at hn
    have hsk : sk = r'.2.seed := congrArg Prod.snd hb
    rw [hsk]
    exact hn.2.2 _ (List.mem_map_of_mem hr') _ (List.mem_map_of_mem hr)

/-- what a later decryption prints -/
theorem output_decrypt (hc : c.Correct) (hk : c.aead.Committing) {disk : Disk} {pre mid : List (Cmd × CmdDraw)}
    {δ δ' : CmdDraw} {k d ct n : String}
    (hs : ∀ r ∈ pre ++ (.encrypt k d, δ) :: mid ++ [(.decrypt k ct n, δ')], Smooth r.2)
    (hf : Fresh c passphrase disk (pre ++ (.encrypt k d, δ) :: mid ++ [(.decrypt k ct n, δ')]))
    (hout : output c passphrase δ (afterAll c passphrase disk pre) (.encrypt k d) = .ok (printedCiphertext ⟨n, ct, ""⟩))
    (hmid : ∀ r ∈ mid, r.1 ≠ .deleteKey k ∧ r.1 ≠ .clearCache) :
    let o := output c passphrase δ' (afterAll c passphrase disk (pre ++ (.encrypt k d, δ) :: mid)) (.decrypt k ct n)
    ((∀ r ∈ mid, r.1 ≠ .init k) ∧ o = .ok (.ok [d])) ∨
      (¬ (∀ r ∈ mid, r.1 ≠ .init k) ∧ o = .ok (.fail ["Decryption failed: aead::Error"])) := by
  have hsplit : afterAll c passphrase disk (pre ++ (.encrypt k d, δ) :: mid) =
      afterAll c passphrase (after c passphrase δ (afterAll c passphrase disk pre) (.encrypt k d)) mid := by
    exact Run.after_append _ pre _
  have hpre : afterAll c passphrase disk (pre ++ [(.encrypt k d, δ)]) =
      after c passphrase δ (afterAll c passphrase disk pre) (.encrypt k d) := by
    exact Run.after_append _ pre _
  have hsδ : Smooth δ := hs (.encrypt k d, δ) (by simp)
  have hsδ' : Smooth δ' := hs (.decrypt k ct n, δ') (by simp)
  have hsm : ∀ r ∈ mid, Smooth r.2 := fun r hr => hs r (by simp [hr])
  have hsp : ∀ r ∈ pre ++ [(.encrypt k d, δ)], Smooth r.2 := by
    intro r hr
    apply hs r
    rcases List.mem_append.1 hr with hr | hr
    · simp [hr]
    · rw [List.mem_singleton] at hr
      simp [hr]
  obtain ⟨hv, kp, sk, hkey, henc⟩ := encrypt_key hc hsδ hout
  intro o
  rcases Keyring.run_key hv hkey hmid with ⟨hno, hend⟩ | ⟨r, hr, hi, hend⟩
  · rw [← keyring_afterAll hc _ hsm, ← hsplit] at hend
    exact Or.inl ⟨hno, output_decrypt_same hc hsδ' hv hend henc⟩
  · rw [← keyring_afterAll hc _ hsm, ← hsplit] at hend
    rw [← hpre, keyring_afterAll hc _ hsp] at hkey
    have hf' : Fresh c passphrase disk ((pre ++ [(.encrypt k d, δ)]) ++ (mid ++ [(.decrypt k ct n, δ')])) := by
      simpa using hf
    have hne := hf'.key_ne hkey (List.mem_append_left _ hr)
    exact Or.inr ⟨fun h => h r hr hi, output_decrypt_other hc hk hv hend henc hne⟩

variable (passphrase) in
theorem encrypt_succeeds {δ : CmdDraw} (hs : Smooth δ) (disk : Disk) {k d : String} (hv : validateKeyId c k = .ok ())
    (hl : d.utf8ByteSize ≤ 1024 * 1024) :
    ∃ ct n, output c passphrase δ disk (.encrypt k d) = .ok (printedCiphertext ⟨n, ct, ""⟩) := by
  have he : exec c passphrase δ disk (.encrypt k d) = _ := encrypt_ok hv hl
  rw [encryptBody_of, Rust.encrypt_ok hs.elapsed] at he
  exact ⟨_, _, by rw [output, he]; rfl⟩

end

theorem smooth_tinyDraw (seed : Bytes) : Smooth (tinyDraw seed) := ⟨rfl, Nat.zero_le _⟩

theorem fresh_tiny {run : List (Cmd × CmdDraw)} (h : (run.map fun r => r.2.seed.headD 0).Nodup) :
    Fresh tiny "p" ⟨.missing, .missing⟩ run := ⟨h, fun _ _ _ he => by cases he⟩

end AbirGuard.Rust.Cli
