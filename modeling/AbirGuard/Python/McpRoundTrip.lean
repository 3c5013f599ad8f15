/-
A ciphertext that the MCP server of the Python vault returned, decrypted through the server.

- `retrieve_of_stored_iff`: over every run of the vault, with any switches of its mode, a retrieval returns exactly the text of
  the store, and exactly if the id is that of the store, its key is live and the mode is the one of the store.
- `agree_after_requests`: requests leave the keys as the calls of the vault do that they make.
- `result_decrypt_iff`: what a decryption through the server answers to a ciphertext of the vault.
-/
import AbirGuard.Python.CanaryDetection

namespace AbirGuard.Python

open AbirGuard.Core JsonValue Raise

namespace Vault

variable {l : Libs}

/-! ## Retrievals after a store -/

/-- the AES keys that the two modes make of secrets -/
def modeKeys (l : Libs) (secrets : List Bytes) : List Bytes := secrets.flatMap fun σ => [σ, HybridEncryptor.aesKey l σ]

theorem modeKey_mem {secrets : List Bytes} (fips : Bool) {σ : Bytes} (hσ : σ ∈ secrets) :
    modeKey l fips σ ∈ modeKeys l secrets :=
  List.mem_flatMap.2 ⟨σ, hσ, mem_modeKeys fips σ⟩

theorem nodup_of_modeKeys {secrets : List Bytes} (h : (modeKeys l secrets).Nodup) : secrets.Nodup := by
  refine (List.nodup_flatMap.1 h).2.imp fun hdisjoint heq => ?_
  subst heq
  exact hdisjoint List.mem_cons_self List.mem_cons_self

/-- where the keys differ, one tells the secret and the mode -/
theorem modeKey_inj {secrets : List Bytes} (h : (modeKeys l secrets).Nodup) {fips fips' : Bool} {σ σ' : Bytes}
    (hσ : σ ∈ secrets) (hσ' : σ' ∈ secrets) : modeKey l fips σ = modeKey l fips' σ' ↔ fips = fips' ∧ σ = σ' := by
  obtain ⟨hself, hpairs⟩ := List.nodup_flatMap.1 h
  constructor
  · intro heq
    have hsecret : σ = σ' := by
      by_contra hne
      have : Std.Symm (Function.onFun List.Disjoint fun σ : Bytes => [σ, HybridEncryptor.aesKey l σ]) := ⟨fun _ _ hd => hd.symm⟩
      have hdisjoint : List.Disjoint _ _ := hpairs.forall hσ hσ' hne
      exact hdisjoint (mem_modeKeys fips σ) (heq ▸ mem_modeKeys fips' σ')
    subst hsecret
    refine ⟨(modeKey_eq_iff.1 heq).resolve_right fun hsame => ?_, rfl⟩
    have hpair : ([σ, HybridEncryptor.aesKey l σ] : List Bytes).Nodup := hself σ hσ
    rw [hsame] at hpair
    exact (List.nodup_cons.1 hpair).1 List.mem_cons_self
  · rintro ⟨rfl, rfl⟩
    rfl

/-- **A retrieval returns the text of the store**, exactly if its id, its key and its mode are still those of the store. -/
theorem retrieve_of_stored_iff {fips mlkemFips : Bool} {η₀ : Host} {before later : List (Host × Call)} {η ηRotate : Host}
    {keyId : Text} {p : Bytes} {ct : Ciphertext}
    (hfresh : (modeKeys l (drawn l (start η₀ fips mlkemFips) (before ++ (η, .store ηRotate keyId p) :: later))).Nodup)
    (hbinds : Binds l id (modeKeys l (drawn l (start η₀ fips mlkemFips) (before ++ (η, .store ηRotate keyId p) :: later)))
      η.nonce.toList p)
    (hct : (run (store l η ηRotate keyId p) (Run.after (step l) (start η₀ fips mlkemFips) before)).1 = .ok ct)
    (η' : Host) (keyId' : Text) (q : Bytes) :
    let stored := Run.after (step l) (start η₀ fips mlkemFips) (before ++ [(η, .store ηRotate keyId p)])
    let last := Run.after (step l) stored later
    (run (retrieve l η' keyId' ct) last).1 = .ok q ↔
      (keyId' = keyId ∧ Run.EachStep (step l) (fun s c => ¬ Ends keyId s c) stored later ∧
        last.vault.fipsMode = stored.vault.fipsMode) ∧ q = p := by
  intro stored last
  have hsplit : before ++ (η, .store ηRotate keyId p) :: later = before ++ [(η, .store ηRotate keyId p)] ++ later := by
    rw [List.append_assoc]
    rfl
  have hbefore := coherent_after (l := l) (coherent_start (η := η₀) fips mlkemFips) before
  have hstored := coherent_after (l := l) (coherent_start (η := η₀) fips mlkemFips) (before ++ [(η, .store ηRotate keyId p)])
  have hlater := coherent_after (l := l) hstored later
  have hstep : stored = step l (Run.after (step l) (start η₀ fips mlkemFips) before) (η, .store ηRotate keyId p) :=
    Run.after_append ..
  obtain ⟨hid, σ, hσ, hsealed⟩ := store_sealed hbefore hct
  rw [← hstep] at hσ
  have hmode : stored.vault.fipsMode = (Run.after (step l) (start η₀ fips mlkemFips) before).vault.fipsMode := by
    rw [hstep]
    exact fipsMode_step _ (by simp [Call.Switches])
  rw [← hmode] at hsealed
  -- the secret of the store is one of the run, and is not drawn again
  rw [hsplit] at hfresh hbinds
  obtain ⟨hmem, hnew, hunique⟩ := held_between (nodup_of_modeKeys hfresh) hσ
  have hlast := distinct_after (coherent_start fips mlkemFips) (distinct_start fips mlkemFips) (l := l)
    (nodup_of_modeKeys hfresh)
  rw [List.nil_append, Run.after_append] at hlast
  have hopens : ∀ fips' σ', σ' ∈ drawn l (start η₀ fips mlkemFips) (before ++ [(η, .store ηRotate keyId p)] ++ later) →
      σ'.length = 32 → (ct.Opens l fips' σ' q ↔ (fips' = stored.vault.fipsMode ∧ σ' = σ) ∧ q = p) := by
    intro fips' σ' hσ' hsize
    rw [hsealed, opens_sealed_iff hsize]
    have hkeys := hbinds _ (modeKey_mem stored.vault.fipsMode hmem) _ (modeKey_mem fips' hσ')
    rw [id_eq, id_eq] at hkeys
    rw [hkeys]
    split_ifs with heq
    · rw [Option.some.injEq, and_iff_right ((modeKey_inj hfresh hσ' hmem).1 heq), eq_comm]
    · exact iff_of_false (fun h => by cases h) fun h => heq ((modeKey_inj hfresh hσ' hmem).2 h.1)
  rw [retrieve_eq_ok_iff hlater]
  constructor
  · rintro ⟨-, σ', hσ', hopen⟩
    obtain ⟨⟨hfips, rfl⟩, rfl⟩ := (hopens _ _ (hlast.held keyId' σ' hσ') (hlater.size keyId' σ' hσ')).1 hopen
    obtain rfl := hunique keyId' (held_after hstored hnew hσ')
    exact ⟨⟨rfl, (kept_iff hstored hσ hnew).1 hσ', hfips⟩, rfl⟩
  · rintro ⟨⟨rfl, hkept, hfips⟩, rfl⟩
    have hkey := (kept_iff hstored hσ hnew).2 hkept
    exact ⟨hid, σ, hkey, (hopens _ _ hmem (hlater.size _ _ hkey)).2 ⟨⟨hfips, rfl⟩, rfl⟩⟩

end Vault

/-- a ciphertext whose fields are strings -/
def Ciphertext.values (ct : Ciphertext) : CiphertextValue := ⟨.str ct.nonce, .str ct.ciphertext, .str ct.authTag⟩

namespace McpServer

open Vault

variable {l : McpLibs} {η ηRotate : Host}

/-! ## Ciphertexts that a client sends back -/

theorem tagBytes_values (ct : Ciphertext) : tagBytes ct.values = HybridEncryptor.tagBytes ct := by
  rw [tagBytes, HybridEncryptor.tagBytes]
  by_cases hempty : ct.authTag = []
  · rw [if_pos hempty, if_neg (by simp [Ciphertext.values, truthy, hempty])]
  · rw [if_neg hempty, if_pos (by simp [Ciphertext.values, truthy, hempty])]
    rfl

theorem retrieveValue_values (keyId : Text) (ct : Ciphertext) :
    retrieveValue l η keyId ct.values = retrieve l.toLibs η keyId ct := by
  have hmode : ∀ id, decryptInModeValue l η id ct.values = decryptInMode l.toLibs η id ct := by
    intro id
    unfold decryptInModeValue decryptInMode HybridEncryptor.decrypt
    rw [tagBytes_values]
    rfl
  unfold retrieveValue retrieve
  simp only [hmode]

theorem ciphertextOf_asdict (keyId : Json ℚ) (ct : Ciphertext) :
    ciphertextOf (.obj [("key_id", keyId), ("ciphertext", ct.asdict)]) = .ok ct.values := rfl

theorem keyIdOf_ok_iff {keyId : Text} {v : Json ℚ} {members : List (Text × Json ℚ)} :
    keyIdOf (.obj (("key_id", v) :: members)) = .ok keyId ↔ v = .str keyId ∧ validateKeyId keyId = .ok keyId := by
  have hitem : keyIdOf (.obj (("key_id", v) :: members)) = validateKeyIdValue v := rfl
  rw [hitem]
  constructor
  · intro h
    cases v with
    | str t =>
      obtain rfl := validateKeyId_eq h
      exact ⟨rfl, h⟩
    | _ =>
      -- every other type is refused
      simp only [validateKeyIdValue, length?] at h
      split_ifs at h
  · rintro ⟨rfl, h⟩
    exact h

/-- what an encryption through the server returns -/
theorem run_encrypt_ok_iff {params v : Json ℚ} {s : Session} :
    (run (encrypt l η ηRotate params) s).1 = .ok v ↔ ∃ keyId p ct, keyIdOf params = .ok keyId ∧ dataOf params = .ok p ∧
      (run (store l.toLibs η ηRotate keyId p) s).1 = .ok ct ∧ v = ct.asdict := by
  rw [encrypt, lift_bind_ok_iff]
  constructor
  · rintro ⟨keyId, hkey, h⟩
    obtain ⟨p, hdata, h⟩ := lift_bind_ok_iff.1 h
    obtain ⟨_, -, h⟩ := lift_bind_ok_iff.1 h
    obtain ⟨ct, hct, h⟩ := bind_ok_iff.1 h
    exact ⟨keyId, p, ct, hkey, hdata, hct, (Except.ok.inj h).symm⟩
  · rintro ⟨keyId, p, ct, hkey, hdata, hct, rfl⟩
    refine ⟨keyId, hkey, lift_bind_ok_iff.2 ⟨p, hdata, lift_bind_ok_iff.2 ⟨(), ?_, bind_ok_iff.2 ⟨ct, hct, rfl⟩⟩⟩⟩
    exact validateDataSize_ok_iff.2 (store_ok_iff.1 hct).1.2

theorem decodeUtf8_ok_iff {data : Bytes} {t : Text} : decodeUtf8 l data = .ok t ↔ Text.decode data = some t := by
  rw [decodeUtf8]
  cases Text.decode data with
  | none => exact iff_of_false (fun h => by cases h) fun h => by cases h
  | some u => rw [Except.ok.injEq, Option.some.injEq]

/-- what a decryption of a ciphertext of the vault returns -/
theorem run_decrypt_ok_iff {keyId v : Json ℚ} {ct : Ciphertext} {s : Session} :
    (run (decrypt l η (.obj [("key_id", keyId), ("ciphertext", ct.asdict)])) s).1 = .ok v ↔ ∃ id p t, keyId = .str id ∧
      (run (retrieve l.toLibs η id ct) s).1 = .ok p ∧ Text.decode p = some t ∧ v = .obj [("plaintext", .str t)] := by
  rw [decrypt, lift_bind_ok_iff]
  constructor
  · rintro ⟨id, hkey, h⟩
    obtain ⟨fields, hct, h⟩ := lift_bind_ok_iff.1 h
    rw [ciphertextOf_asdict, Except.ok.injEq] at hct
    subst hct
    obtain ⟨p, hp, h⟩ := bind_ok_iff.1 h
    obtain ⟨t, ht, h⟩ := lift_bind_ok_iff.1 h
    rw [retrieveValue_values] at hp
    refine ⟨id, p, t, (keyIdOf_ok_iff.1 hkey).1, hp, decodeUtf8_ok_iff.1 ht, (Except.ok.inj h).symm⟩
  · rintro ⟨id, p, t, rfl, hp, ht, rfl⟩
    refine ⟨id, keyIdOf_ok_iff.2 ⟨rfl, (retrieve_ok_iff.1 hp).1⟩, lift_bind_ok_iff.2 ⟨_, ciphertextOf_asdict _ ct, ?_⟩⟩
    rw [← retrieveValue_values] at hp
    exact bind_ok_iff.2 ⟨p, hp, lift_bind_ok_iff.2 ⟨t, decodeUtf8_ok_iff.2 ht, rfl⟩⟩

/-! ## Requests and the calls they make -/

/-- the call of the vault that a request makes, if it makes one -/
def made (c : Host × Host × Dict Text (Json ℚ)) : Option (Host × Call) :=
  (callOf c.2.1 (methodOf c.2.2) (paramsOf c.2.2)).map fun call => (c.1, call)

theorem keyState_made (c : Host × Host × Dict Text (Json ℚ)) (s : Session) :
    keyState (handleStep l s c) = (made c).elim (keyState s) fun call => (keyState s).apply call.1 l.toLibs call.2 := by
  obtain ⟨η, ηRotate, request⟩ := c
  rw [keyState_handleStep, made]
  cases callOf ηRotate (methodOf request) (paramsOf request) with
  | none => rfl
  | some call => exact keyState_step s (η, call)

/-- **Requests leave the keys as their calls do.** -/
theorem agree_after_requests {s t : Session} (h : keyState s = keyState t) (requests : List (Host × Host × Dict Text (Json ℚ))) :
    keyState (Run.after (handleStep l) s requests) = keyState (Run.after (step l.toLibs) t (requests.filterMap made)) := by
  induction requests generalizing s t with
  | nil => exact h
  | cons c requests ih =>
    rw [Run.after_cons, List.filterMap_cons]
    have hstep := keyState_made (l := l) c s
    cases hmade : made c with
    | none =>
      rw [hmade] at hstep
      exact ih (hstep.trans h)
    | some call =>
      rw [hmade, Option.elim_some, h, ← keyState_step] at hstep
      exact ih hstep

/-- what a request is answered with as its result -/
def resultOf (l : McpLibs) (s : Session) (c : Host × Host × Dict Text (Json ℚ)) : Option (Json ℚ) :=
  (run (handle l c.1 c.2.1 c.2.2) s).1.toOption.bind fun r => r.get (Text.ofString "result")

theorem resultOf_eq (c : Host × Host × Dict Text (Json ℚ)) (s : Session) :
    resultOf l s c = (run (dispatch l c.1 c.2.1 (methodOf c.2.2) (paramsOf c.2.2)) s).1.toOption := by
  rw [resultOf, handle, run_tryCatch, run_bind]
  rcases run (dispatch l c.1 c.2.1 (methodOf c.2.2) (paramsOf c.2.2)) s with ⟨e | result, t⟩
  · rfl
  · exact Dict.get_set_self _ _ _

theorem toOption_eq_some_iff {ε α : Type} {x : Except ε α} {a : α} : x.toOption = some a ↔ x = .ok a := by
  cases x with
  | error e => exact iff_of_false (fun h => by cases h) fun h => by cases h
  | ok b => rw [Except.toOption, Option.some.injEq, Except.ok.injEq]

theorem resultOf_method {name : String} {method : Json ℚ → VaultM (Json ℚ)} {c : Host × Host × Dict Text (Json ℚ)}
    (hm : (name, method) ∈ methods l c.1 c.2.1) (hname : methodOf c.2.2 = .str name) {s : Session} {v : Json ℚ} :
    resultOf l s c = some v ↔ (run (method (paramsOf c.2.2)) s).1 = .ok v := by
  rw [resultOf_eq, hname, dispatch_method hm, toOption_eq_some_iff]

/-- an encryption that is answered with a ciphertext -/
theorem encrypted {c : Host × Host × Dict Text (Json ℚ)} {keyId data : Text} {s : Session} {r : Json ℚ}
    (hname : methodOf c.2.2 = .str "encrypt") (hparams : paramsOf c.2.2 = .obj [("key_id", .str keyId), ("data", .str data)])
    (hr : resultOf l s c = some r) : ∃ p ct, data.encode = some p ∧ made c = some (c.1, .store c.2.1 keyId p) ∧
      (run (store l.toLibs c.1 c.2.1 keyId p) s).1 = .ok ct ∧ r = ct.asdict := by
  have hm : ("encrypt", encrypt l c.1 c.2.1) ∈ methods l c.1 c.2.1 := by simp [methods]
  rw [resultOf_method hm hname, hparams, run_encrypt_ok_iff] at hr
  obtain ⟨id, p, ct, hid, hdata, hct, rfl⟩ := hr
  obtain ⟨hkey, hvalid⟩ := keyIdOf_ok_iff.1 hid
  cases hkey
  have hencoded : encodeUtf8 data = .ok p := hdata
  refine ⟨p, ct, ?_, ?_, hct, rfl⟩
  · obtain ⟨b, hb⟩ := Option.isSome_iff_exists.1 (encodeUtf8_ok_iff.1 ⟨p, hencoded⟩)
    rwa [encodeUtf8_ok hb, Except.ok.injEq, ← Option.some.injEq, ← hb] at hencoded
  · have hcall : callOf c.2.1 (.str "encrypt") (.obj [("key_id", .str keyId), ("data", .str data)]) = _ :=
      callOf_method (List.mem_cons_of_mem _ List.mem_cons_self) _
    rw [made, hname, hparams, hcall, hid, hdata]
    rfl

theorem store_ok_congr {s t : Session} (h : keyState s = keyState t) {keyId : Text} {p : Bytes} {ct : Ciphertext} :
    (run (store l.toLibs η ηRotate keyId p) s).1 = .ok ct ↔ (run (store l.toLibs η ηRotate keyId p) t).1 = .ok ct := by
  rw [store_ok_iff, store_ok_iff, h]

theorem retrieve_ok_congr {s t : Session} (h : keyState s = keyState t) {keyId : Text} {ct : Ciphertext} {p : Bytes} :
    (run (retrieve l.toLibs η keyId ct) s).1 = .ok p ↔ (run (retrieve l.toLibs η keyId ct) t).1 = .ok p := by
  have hkeys : s.vault.secretKeys = t.vault.secretKeys := congrArg KeyState.secretKeys h
  have hmode : s.vault.usesFips = t.vault.usesFips := by rw [← keyState_usesFips, h, keyState_usesFips]
  rw [retrieve_ok_iff, retrieve_ok_iff, hkeys, hmode]

/--
**The server gives back what it was given, under the key and in the mode in which it was given.**

Take any run of requests, with an encryption in it that is answered with a ciphertext. A decryption of this ciphertext after the
run has a result if and only if it names the same id, no later request ended its key, and the mode is that of the encryption
again; the result is the text. The secrets that the run draws and the keys that HKDF makes of them differ, and what is sealed
under one of these keys opens under no other.
-/
theorem result_decrypt_iff {fips mlkemFips : Bool} {η₀ : Host} {before later : List (Host × Host × Dict Text (Json ℚ))}
    {c c' : Host × Host × Dict Text (Json ℚ)} {keyId data : Text} {keyId' r v : Json ℚ}
    (hname : methodOf c.2.2 = .str "encrypt") (hparams : paramsOf c.2.2 = .obj [("key_id", .str keyId), ("data", .str data)])
    (hname' : methodOf c'.2.2 = .str "decrypt") (hparams' : paramsOf c'.2.2 = .obj [("key_id", keyId'), ("ciphertext", r)])
    (hfresh : (modeKeys l.toLibs (drawn l.toLibs (start η₀ fips mlkemFips) ((before ++ c :: later).filterMap made))).Nodup)
    (hbinds : ∀ p, data.encode = some p → Binds l.toLibs id
      (modeKeys l.toLibs (drawn l.toLibs (start η₀ fips mlkemFips) ((before ++ c :: later).filterMap made))) c.1.nonce.toList p)
    (hr : resultOf l (Run.after (handleStep l) (start η₀ fips mlkemFips) before) c = some r) :
    let stored := Run.after (step l.toLibs) (start η₀ fips mlkemFips) ((before ++ [c]).filterMap made)
    resultOf l (Run.after (handleStep l) (start η₀ fips mlkemFips) (before ++ c :: later)) c' = some v ↔
      (keyId' = .str keyId ∧ Run.EachStep (step l.toLibs) (fun s c => ¬ Vault.Ends keyId s c) stored (later.filterMap made) ∧
        (Run.after (step l.toLibs) stored (later.filterMap made)).vault.fipsMode = stored.vault.fipsMode) ∧
        v = .obj [("plaintext", .str data)] := by
  intro stored
  obtain ⟨p, ct, hp, hmade, hct, rfl⟩ := encrypted hname hparams hr
  have hcalls : (before ++ c :: later).filterMap made =
      before.filterMap made ++ (c.1, .store c.2.1 keyId p) :: later.filterMap made := by
    rw [List.filterMap_append, List.filterMap_cons, hmade]
  have hcall : (before ++ [c]).filterMap made = before.filterMap made ++ [(c.1, .store c.2.1 keyId p)] := by
    rw [List.filterMap_append, List.filterMap_cons, hmade, List.filterMap_nil]
  rw [store_ok_congr (agree_after_requests rfl before)] at hct
  rw [hcalls] at hfresh hbinds
  have hretrieve := retrieve_of_stored_iff hfresh (hbinds p hp) hct c'.1
  rw [← hcall] at hretrieve
  have hlast : keyState (Run.after (handleStep l) (start η₀ fips mlkemFips) (before ++ c :: later)) =
      keyState (Run.after (step l.toLibs) stored (later.filterMap made)) := by
    rw [agree_after_requests rfl, hcalls, List.append_cons, Run.after_append, ← hcall]
  have hm : ("decrypt", decrypt l c'.1) ∈ methods l c'.1 c'.2.1 := by simp [methods]
  rw [resultOf_method hm hname', hparams', run_decrypt_ok_iff]
  constructor
  · rintro ⟨id, q, t, rfl, hq, ht, rfl⟩
    rw [retrieve_ok_congr hlast] at hq
    obtain ⟨⟨rfl, hkept, hmode⟩, rfl⟩ := (hretrieve id q).1 hq
    rw [Text.decode_encode hp, Option.some.injEq] at ht
    exact ⟨⟨rfl, hkept, hmode⟩, ht ▸ rfl⟩
  · rintro ⟨⟨rfl, hkept, hmode⟩, rfl⟩
    refine ⟨keyId, p, data, rfl, ?_, Text.decode_encode hp, rfl⟩
    rw [retrieve_ok_congr hlast]
    exact (hretrieve keyId p).2 ⟨⟨rfl, hkept, hmode⟩, rfl⟩

end McpServer

end AbirGuard.Python
