/-
Does an ML-DSA key survive the initialisation of other keys?

`mldsa-init` persists the key pair it generated and nothing else, so the file always holds the pair of the last
initialisation that succeeded (`load_afterAll`), whatever ids were stored before.

- `mldsa_durable_iff`: after an mldsa-init of k, k is listed at a later point if and only if the last initialisation that
  succeeded since is not of another id; and a signature made for k since then verifies under k at a later point, k itself
  not initialised again, if and only if no other id was initialised between the signature and the verification.
- `second_init_drops_first`: mldsa-init a, mldsa-init b, and only b is listed.

The KEM keys are stored otherwise: `persist` exports the whole vault.
-/
import AbirGuard.Rust.Instance

namespace AbirGuard.Rust.Mldsa

open AbirGuard.Core AbirGuard.Rust AbirGuard.Rust.Cli

/-- what the commands rely on: generated keys are well formed and their signatures verify -/
structure Fips204Correct (f : Fips204) : Prop where
  keys : ∀ seed pk sk, f.tryKeygen seed = .ok (pk, sk) → sk.length = 4032 ∧ pk.length = 1952 ∧
    f.privateKeyFromBytes sk = .ok () ∧ f.publicKeyFromBytes pk = .ok ()
  verify_sign : ∀ seed pk sk random data sig, f.tryKeygen seed = .ok (pk, sk) → f.trySign sk random data = .ok sig →
    sig.length = 3309 ∧ f.verify pk data sig = true

section

variable {Key : Type} (c : VaultCrates Key) (passphrase : String)

/-- the key pair that an mldsa-init stores, if it gets as far as storing one -/
def initialises (δ : CmdDraw) : Cmd → Option (String × MldsaKeypair)
  | .mldsaInit (some id) =>
    match validateKeyId c id, mldsaGenerateKeypair c δ.mldsaSeed with
    | .ok (), .ok kp => some (id, kp)
    | _, _ => none
  | _ => none

/-- the last key pair stored by a run -/
def lastInitialised (run : List (Cmd × CmdDraw)) : Option (String × MldsaKeypair) :=
  (run.filterMap fun r => initialises c r.2 r.1).getLast?

variable {c passphrase}

/-! ## One command -/

theorem initialises_some {δ : CmdDraw} {cmd : Cmd} {x : String × MldsaKeypair} (h : initialises c δ cmd = some x) :
    cmd = .mldsaInit (some x.1) ∧ validateKeyId c x.1 = .ok () ∧ mldsaGenerateKeypair c δ.mldsaSeed = .ok x.2 := by
  unfold initialises at h
  split at h
  · split at h
    · rename_i hv hk
      cases h
      exact ⟨rfl, hv, hk⟩
    · cases h
  · cases h

theorem mldsaGenerateKeypair_ok {seed : Bytes} {kp : MldsaKeypair} (h : mldsaGenerateKeypair c seed = .ok kp) :
    ∃ pk sk, c.fips204.tryKeygen seed = .ok (pk, sk) ∧ kp = ⟨sk, pk⟩ := by
  unfold mldsaGenerateKeypair at h
  split at h
  · cases h
  · rename_i pk sk hk
    cases h
    exact ⟨pk, sk, hk, rfl⟩

/-- the file holds exactly one pair -/
def Holds (c : VaultCrates Key) (passphrase : String) (disk : Disk) (x : String × MldsaKeypair) : Prop :=
  loadMldsaKeys c passphrase disk.mldsaKeys = .ok (.ok [x])

theorem loadMldsaKeys_sealed (hc : c.Correct) (δ : CmdDraw) (x : String × MldsaKeypair) :
    loadMldsaKeys c passphrase (.present (sealBlob c passphrase δ (c.mldsaJson.encode [toStoredMldsa c x]))) =
      .ok (.ok [x]) := by
  simp only [loadMldsaKeys, unlock_sealBlob hc, Outcome.ok_bind, hc.mldsaJson _, List.mapM_cons, List.mapM_nil,
    fromStoredMldsa, toStoredMldsa, hc.base64 _]
  rfl

theorem holds_of_initialises (hc : c.Correct) {δ : CmdDraw} (hw : δ.write = .done) (disk : Disk) {cmd : Cmd}
    {x : String × MldsaKeypair} (h : initialises c δ cmd = some x) :
    Holds c passphrase (after c passphrase δ disk cmd) x := by
  obtain ⟨rfl, hv, hk⟩ := initialises_some h
  have hx : (after c passphrase δ disk (.mldsaInit (some x.1))).mldsaKeys =
      .present (sealBlob c passphrase δ (c.mldsaJson.encode [toStoredMldsa c x])) := by
    simp only [after, exec, mldsaInit, hk, hv, persistMldsaKeys, hw, Write.file]
    rfl
  rw [Holds, hx, loadMldsaKeys_sealed hc]

theorem mldsaKeys_of_not_initialises {δ : CmdDraw} {disk : Disk} {cmd : Cmd} (h : initialises c δ cmd = none)
    (hcl : cmd ≠ .clearCache) : (after c passphrase δ disk cmd).mldsaKeys = disk.mldsaKeys := by
  refine after_of_exec (P := fun d => d.mldsaKeys = disk.mldsaKeys) rfl fun p disk' he => ?_
  cases cmd with
  | init keyId => exact init_mldsaKeys he
  | encrypt keyId data => exact encrypt_mldsaKeys he
  | deleteKey keyId => exact deleteKey_mldsaKeys he
  | clearCache => exact absurd rfl hcl
  | decrypt keyId ciphertext nonce => exact congrArg Disk.mldsaKeys (decrypt_disk he)
  | listKeys => exact congrArg Disk.mldsaKeys (listKeys_disk he)
  | shamirSplit secret threshold shares => exact congrArg Disk.mldsaKeys (shamirSplit_disk he)
  | shamirJoin shares => exact congrArg Disk.mldsaKeys (shamirJoin_disk he)
  | mldsaSign keyId data => exact congrArg Disk.mldsaKeys (mldsaSign_disk he)
  | mldsaVerify keyId data signature => exact congrArg Disk.mldsaKeys (mldsaVerify_disk he)
  | mldsaList => exact congrArg Disk.mldsaKeys (mldsaList_disk he)
  | mldsaInit keyId =>
    cases hk : mldsaGenerateKeypair c δ.mldsaSeed with
    | error e =>
      simp only [exec, mldsaInit, hk] at he
      cases he
    | ok kp =>
      cases keyId with
      | none =>
        simp only [exec, mldsaInit, hk] at he
        cases he
        rfl
      | some id =>
        cases hv : validateKeyId c id with
        | ok u => simp [initialises, hv, hk] at h
        | error e =>
          simp only [exec, mldsaInit, hk, hv] at he
          cases he
          rfl

/-! ## Runs -/

theorem afterAll_append (disk : Disk) (run run' : List (Cmd × CmdDraw)) :
    afterAll c passphrase disk (run ++ run') = afterAll c passphrase (afterAll c passphrase disk run) run' :=
  Run.after_append disk run run'

theorem lastInitialised_append (run : List (Cmd × CmdDraw)) (r : Cmd × CmdDraw) :
    lastInitialised c (run ++ [r]) = (initialises c r.2 r.1).or (lastInitialised c run) := by
  unfold lastInitialised
  rw [List.filterMap_append, List.getLast?_append]
  cases h : initialises c r.2 r.1 <;> simp [h]

theorem lastInitialised_mem {run : List (Cmd × CmdDraw)} {x : String × MldsaKeypair} (h : lastInitialised c run = some x) :
    ∃ r ∈ run, initialises c r.2 r.1 = some x :=
  List.mem_filterMap.1 (List.mem_of_getLast? h)

theorem lastInitialised_append_of_none {run : List (Cmd × CmdDraw)} (h : lastInitialised c run = none)
    (run' : List (Cmd × CmdDraw)) : lastInitialised c (run ++ run') = lastInitialised c run' := by
  rw [lastInitialised, List.filterMap_append, List.getLast?_eq_none_iff.1 h, List.nil_append, lastInitialised]

theorem lastInitialised_eq_none_iff {run : List (Cmd × CmdDraw)} :
    lastInitialised c run = none ↔ ∀ r ∈ run, initialises c r.2 r.1 = none := by
  rw [lastInitialised, List.getLast?_eq_none_iff, List.filterMap_eq_nil_iff]

/-- **The file holds the pair of the last initialisation.** -/
theorem holds_afterAll (hc : c.Correct) {disk : Disk} {x : String × MldsaKeypair} (h : Holds c passphrase disk x)
    {run : List (Cmd × CmdDraw)} (hrun : ∀ r ∈ run, r.2.write = .done ∧ r.1 ≠ .clearCache) :
    Holds c passphrase (afterAll c passphrase disk run) ((lastInitialised c run).getD x) := by
  induction run using List.reverseRecOn with
  | nil => exact h
  | append_singleton run r ih =>
    have hr := hrun r (by simp)
    have hrest := ih fun r' hr' => hrun r' (List.mem_append_left _ hr')
    rw [afterAll_append, lastInitialised_append]
    cases hi : initialises c r.2 r.1 with
    | some y => exact holds_of_initialises hc hr.1 _ hi
    | none =>
      rw [Option.none_or, Holds]
      have hk : (after c passphrase r.2 (afterAll c passphrase disk run) r.1).mldsaKeys = _ :=
        mldsaKeys_of_not_initialises hi hr.2
      exact (congrArg (loadMldsaKeys c passphrase) hk).trans hrest

/-- what an initialisation stored is in the file until the next one -/
theorem holds_after_init (hc : c.Correct) {δ : CmdDraw} (hw : δ.write = .done) (disk : Disk) (pre : List (Cmd × CmdDraw))
    {cmd : Cmd} {x : String × MldsaKeypair} (h : initialises c δ cmd = some x) {run : List (Cmd × CmdDraw)}
    (hrun : ∀ r ∈ run, r.2.write = .done ∧ r.1 ≠ .clearCache) :
    Holds c passphrase (afterAll c passphrase disk (pre ++ (cmd, δ) :: run)) ((lastInitialised c run).getD x) := by
  rw [afterAll_append]
  exact holds_afterAll hc (holds_of_initialises hc hw _ h) hrun

/-- without an mldsa-init of an id, the last pair is that of another -/
theorem lastInitialised_ne {run : List (Cmd × CmdDraw)} {k : String} (hno : ∀ r ∈ run, r.1 ≠ .mldsaInit (some k))
    {x : String × MldsaKeypair} (h : lastInitialised c run = some x) : x.1 ≠ k := by
  intro he
  obtain ⟨r, hr, hi⟩ := lastInitialised_mem h
  exact hno r hr (he ▸ (initialises_some hi).1)

/-! ## What the commands print -/

theorem output_list {δ : CmdDraw} {disk : Disk} {x : String × MldsaKeypair} (h : Holds c passphrase disk x) :
    output c passphrase δ disk .mldsaList = .ok (.ok ["Stored ML-DSA keys:", s!"  - {x.1}"]) := by
  simp only [output, exec, mldsaListCmd, listMldsaKeys, show loadMldsaKeys c passphrase disk.mldsaKeys = _ from h,
    Outcome.ok_bind]
  rfl

/-- the list shows the id of the pair in the file, and no other -/
theorem listed_iff {δ : CmdDraw} {disk : Disk} {x : String × MldsaKeypair} {k : String} (h : Holds c passphrase disk x) :
    (∃ ids : List String, k ∈ ids ∧ output c passphrase δ disk .mldsaList =
      .ok (.ok ("Stored ML-DSA keys:" :: ids.map fun id => s!"  - {id}"))) ↔ x.1 = k := by
  rw [output_list h]
  constructor
  · rintro ⟨ids, hk, he⟩
    simp only [Printed.ok, Except.ok.injEq, Printed.mk.injEq, List.cons.injEq, true_and, and_true] at he
    have hmem : s!"  - {k}" ∈ ids.map fun id => s!"  - {id}" := List.mem_map_of_mem hk
    rw [← he, List.mem_singleton] at hmem
    exact (String.append_right_inj _ |>.1 hmem).symm
  · intro hx
    exact ⟨[k], List.mem_singleton_self k, by rw [hx]; rfl⟩

theorem output_init {δ : CmdDraw} {disk : Disk} {k vk : String} {header : List String}
    (h : output c passphrase δ disk (.mldsaInit (some k)) =
      .ok (.ok (header ++ [s!"Stored in vault with key_id: {k}", s!"Verify Key: {vk}"]))) :
    ∃ kp, initialises c δ (.mldsaInit (some k)) = some (k, kp) := by
  obtain ⟨r, he, hp⟩ := Outcome.map_eq_ok h
  cases hk : mldsaGenerateKeypair c δ.mldsaSeed with
  | error e =>
    simp only [exec, mldsaInit, hk] at he
    cases he
  | ok kp =>
    cases hv : validateKeyId c k with
    | ok u => exact ⟨kp, by simp [initialises, hv, hk]⟩
    | error e =>
      simp only [exec, mldsaInit, hk, hv] at he
      cases he
      simp [Printed.ok] at hp

theorem output_init_of_initialises {δ : CmdDraw} (hw : δ.write = .done) (disk : Disk) {k : String} {kp : MldsaKeypair}
    (h : initialises c δ (.mldsaInit (some k)) = some (k, kp)) :
    ∃ (vk : String) (header : List String), output c passphrase δ disk (.mldsaInit (some k)) =
      .ok (.ok (header ++ [s!"Stored in vault with key_id: {k}", s!"Verify Key: {vk}"])) := by
  obtain ⟨-, hv, hk⟩ := initialises_some h
  refine ⟨c.base64.encode kp.verifyingKey, mldsaHeader kp, ?_⟩
  simp only [output, exec, mldsaInit, hk, hv, persistMldsaKeys, hw]
  rfl

theorem findMldsa_self (k : String) (kp : MldsaKeypair) : findMldsa [(k, kp)] k = .ok kp := by simp [findMldsa]

theorem findMldsa_ne {k : String} {x : String × MldsaKeypair} (h : x.1 ≠ k) :
    findMldsa [x] k = .error s!"ML-DSA key '{k}' not found" := by simp [findMldsa, h]

theorem mldsaSign_ok {random data sk bytes : Bytes} (h : mldsaSign c random data sk = .ok bytes) :
    c.fips204.trySign sk random data = .ok bytes := by
  unfold mldsaSign at h
  split_ifs at h
  split at h
  · cases h
  · split at h
    · cases h
    · rename_i bytes' hb
      cases h
      exact hb

/-- a signature is made with the pair of the file, which is that of the id -/
theorem output_sign {δ : CmdDraw} {disk : Disk} {x : String × MldsaKeypair} {k hash sig : String} {data : Option String}
    (h : Holds c passphrase disk x)
    (ho : output c passphrase δ disk (.mldsaSign k data) =
      .ok (.ok [s!"Data Hash (SHA3-512): {hash}", s!"Signature: {sig}"])) :
    validateKeyId c k = .ok () ∧ x.1 = k ∧ ∃ bytes,
      c.fips204.trySign x.2.signingKey δ.signRandom (utf8 (data.getD δ.stdin)) = .ok bytes ∧ sig = c.base64.encode bytes := by
  obtain ⟨r, he, hp⟩ := Outcome.map_eq_ok ho
  have hload : loadMldsaKeys c passphrase disk.mldsaKeys = .ok (.ok [x]) := h
  cases hv : validateKeyId c k with
  | error e =>
    simp only [exec, mldsaSignCmd, hv] at he
    cases he
    simp [Printed.ok, Printed.fail] at hp
  | ok u =>
    simp only [exec, mldsaSignCmd, hv, signWithVault, hload, Outcome.ok_bind] at he
    by_cases hx : x.1 = k
    · obtain ⟨id, kp⟩ := x
      cases hx
      simp only [findMldsa_self, Outcome.ok_bind] at he
      cases hsig : mldsaSign c δ.signRandom (utf8 (data.getD δ.stdin)) kp.signingKey with
      | error e =>
        simp only [hsig, Except.mapError] at he
        cases he
        simp [Printed.ok, Printed.fail] at hp
      | ok bytes =>
        simp only [hsig, Except.mapError] at he
        cases he
        simp only [Printed.ok, Printed.mk.injEq, List.cons.injEq] at hp
        exact ⟨rfl, rfl, bytes, mldsaSign_ok hsig, (String.append_right_inj _ |>.1 hp.1.2.1).symm⟩
    · simp only [findMldsa_ne hx] at he
      cases he
      simp [Printed.ok, Printed.fail] at hp

theorem output_verify_self (hc : c.Correct) {δ : CmdDraw} {disk : Disk} {k data : String} {kp : MldsaKeypair} {bytes : Bytes}
    (hv : validateKeyId c k = .ok ()) (h : Holds c passphrase disk (k, kp)) (hl : kp.verifyingKey.length = 1952)
    (hk : c.fips204.publicKeyFromBytes kp.verifyingKey = .ok ()) (hs : bytes.length = 3309)
    (hver : c.fips204.verify kp.verifyingKey (utf8 data) bytes = true) :
    output c passphrase δ disk (.mldsaVerify k data (c.base64.encode bytes)) = .ok (.ok ["Signature VALID"]) := by
  have hload : loadMldsaKeys c passphrase disk.mldsaKeys = .ok (.ok [(k, kp)]) := h
  have hverify : mldsaVerify c (utf8 data) bytes kp.verifyingKey = .ok true := by
    simp [mldsaVerify, hl, hk, hs, hver]
  simp only [output, exec, mldsaVerifyCmd, hv, hc.base64 bytes, verifyWithVault, hload, Outcome.ok_bind, findMldsa_self,
    hverify]
  rfl

theorem output_verify_other (hc : c.Correct) {δ : CmdDraw} {disk : Disk} {k data : String} {x : String × MldsaKeypair}
    {bytes : Bytes} (hv : validateKeyId c k = .ok ()) (h : Holds c passphrase disk x) (hx : x.1 ≠ k) :
    output c passphrase δ disk (.mldsaVerify k data (c.base64.encode bytes)) =
      .ok (.fail [s!"Verification error: ML-DSA key '{k}' not found"]) := by
  have hload : loadMldsaKeys c passphrase disk.mldsaKeys = .ok (.ok [x]) := h
  simp only [output, exec, mldsaVerifyCmd, hv, hc.base64 bytes, verifyWithVault, hload, Outcome.ok_bind, findMldsa_ne hx]
  rfl

/-- **A signature made with the pair of an id** is valid as long as the file holds that pair. -/
theorem verify_signed_iff (hc : c.Correct) (hf : Fips204Correct c.fips204) {δ : CmdDraw} {disk : Disk} {k data : String}
    {kp : MldsaKeypair} {seed random bytes : Bytes} (hv : validateKeyId c k = .ok ())
    (hgen : mldsaGenerateKeypair c seed = .ok kp)
    (hsign : c.fips204.trySign kp.signingKey random (utf8 data) = .ok bytes) {last : Option (String × MldsaKeypair)}
    (h : Holds c passphrase disk (last.getD (k, kp))) (hne : ∀ x, last = some x → x.1 ≠ k) :
    output c passphrase δ disk (.mldsaVerify k data (c.base64.encode bytes)) = .ok (.ok ["Signature VALID"]) ↔ last = none := by
  obtain ⟨pk, sk, hkeygen, rfl⟩ := mldsaGenerateKeypair_ok hgen
  obtain ⟨-, hpl, -, hpk⟩ := hf.keys _ _ _ hkeygen
  obtain ⟨hsl, hver⟩ := hf.verify_sign _ _ _ _ _ _ hkeygen hsign
  cases last with
  | none => exact iff_of_true (output_verify_self hc hv h hpl hpk hsl hver) rfl
  | some x =>
    rw [output_verify_other hc hv h (hne x rfl)]
    exact iff_of_false (fun e => by simp [Printed.ok, Printed.fail] at e) (by simp)

/-! ## The main result -/

/-- **An ML-DSA key lasts exactly until another id is initialised.** -/
theorem mldsa_durable_iff (hc : c.Correct) (hf : Fips204Correct c.fips204) {disk : Disk} {pre mid : List (Cmd × CmdDraw)}
    {δ : CmdDraw} {k vk : String} {header : List String}
    (hrun : ∀ r ∈ pre ++ (.mldsaInit (some k), δ) :: mid, r.2.write = .done ∧ r.1 ≠ .clearCache)
    (hinit : output c passphrase δ (afterAll c passphrase disk pre) (.mldsaInit (some k)) =
      .ok (.ok (header ++ [s!"Stored in vault with key_id: {k}", s!"Verify Key: {vk}"]))) :
    let state := fun l => afterAll c passphrase disk (pre ++ (.mldsaInit (some k), δ) :: l)
    (∀ δl, (∃ ids : List String, k ∈ ids ∧ output c passphrase δl (state mid) .mldsaList =
        .ok (.ok ("Stored ML-DSA keys:" :: ids.map fun id => s!"  - {id}"))) ↔
      ∀ x, lastInitialised c mid = some x → x.1 = k) ∧
    ∀ (mid₁ mid₂ : List (Cmd × CmdDraw)) (data : Option String) (δs δv : CmdDraw) (hash sig : String), mid = mid₁ ++ (.mldsaSign k data, δs) :: mid₂ →
      (∀ r ∈ mid, r.1 ≠ .mldsaInit (some k)) →
      output c passphrase δs (state mid₁) (.mldsaSign k data) =
        .ok (.ok [s!"Data Hash (SHA3-512): {hash}", s!"Signature: {sig}"]) →
      (output c passphrase δv (state mid) (.mldsaVerify k (data.getD δs.stdin) sig) = .ok (.ok ["Signature VALID"]) ↔
        ∀ r ∈ mid₂, initialises c r.2 r.1 = none) := by
  intro state
  obtain ⟨kp, hkp⟩ := output_init hinit
  have hδ := hrun (.mldsaInit (some k), δ) (by simp)
  have hmid : ∀ r ∈ mid, r.2.write = .done ∧ r.1 ≠ .clearCache := fun r hr => hrun r (by simp [hr])
  refine ⟨fun δl => ?_, ?_⟩
  · rw [listed_iff (holds_after_init hc hδ.1 disk pre hkp hmid)]
    cases lastInitialised c mid with
    | none => exact iff_of_true rfl (by simp)
    | some x => simp
  · intro mid₁ mid₂ data δs δv hash sig he hno hsign
    subst he
    -- the signature is made with the pair of `k`, for no other was stored before
    have h1 : Holds c passphrase (state mid₁) ((lastInitialised c mid₁).getD (k, kp)) :=
      holds_after_init hc hδ.1 disk pre hkp fun r hr => hmid r (List.mem_append_left _ hr)
    obtain ⟨hv, hx, bytes, hb, rfl⟩ := output_sign h1 hsign
    have hlast1 : lastInitialised c mid₁ = none := by
      cases hl : lastInitialised c mid₁ with
      | none => rfl
      | some x =>
        rw [hl] at hx
        exact absurd hx (lastInitialised_ne (fun r hr => hno r (List.mem_append_left _ hr)) hl)
    rw [hlast1, Option.getD_none] at hb
    -- and the file holds at the end what was stored after it
    have hlast : lastInitialised c (mid₁ ++ (.mldsaSign k data, δs) :: mid₂) = lastInitialised c mid₂ :=
      lastInitialised_append_of_none hlast1 _
    have h2 : Holds c passphrase (state (mid₁ ++ (.mldsaSign k data, δs) :: mid₂))
        ((lastInitialised c (mid₁ ++ (.mldsaSign k data, δs) :: mid₂)).getD (k, kp)) :=
      holds_after_init hc hδ.1 disk pre hkp hmid
    rw [hlast] at h2
    rw [← lastInitialised_eq_none_iff]
    exact verify_signed_iff hc hf hv (initialises_some hkp).2.2 hb h2 fun x hl =>
      lastInitialised_ne (fun r hr => hno r (by simp [hr])) hl

end

theorem headD_replicate {n : ℕ} (h : n ≠ 0) (a b : UInt8) : (List.replicate n a).headD b = a := by
  obtain ⟨m, rfl⟩ := Nat.exists_eq_succ_of_ne_zero h
  rfl

theorem tinyMldsa_correct : Fips204Correct tiny.fips204 where
  keys seed pk sk h := by
    cases h
    exact ⟨List.length_replicate, List.length_replicate, rfl, rfl⟩
  verify_sign seed pk sk random data sig h hs := by
    cases h
    cases hs
    have hhead : (List.replicate 4032 (seed.headD 0)).headD 0 = (List.replicate 1952 (seed.headD 0)).headD 0 := by
      rw [headD_replicate (by decide), headD_replicate (by decide)]
    exact ⟨List.length_replicate, decide_eq_true (congrArg (List.replicate 3309) hhead)⟩

theorem tiny_initialises {k : String} (hv : validateKeyId tiny k = .ok ()) (seed : Bytes) :
    ∃ kp, initialises tiny (tinyDraw seed) (.mldsaInit (some k)) = some (k, kp) := by
  refine ⟨⟨List.replicate 4032 (seed.headD 0), List.replicate 1952 (seed.headD 0)⟩, ?_⟩
  rw [initialises, hv]
  rfl

theorem mldsa_durable_iff_sign :
    (∃ ids : List String, "a" ∈ ids ∧ output tiny "p" (tinyDraw [3]) (afterAll tiny "p" ⟨.missing, .missing⟩
        ([] ++ (.mldsaInit (some "a"), tinyDraw [1]) :: [(.mldsaSign "a" (some "x"), tinyDraw [2])])) .mldsaList =
      .ok (.ok ("Stored ML-DSA keys:" :: ids.map fun id => s!"  - {id}"))) ↔
    ∀ x, lastInitialised tiny [(.mldsaSign "a" (some "x"), tinyDraw [2])] = some x → x.1 = "a" := by
  obtain ⟨kp, hkp⟩ := tiny_initialises valid_a [1]
  obtain ⟨vk, header, hout⟩ := output_init_of_initialises (c := tiny) rfl ⟨.missing, .missing⟩ hkp
  exact (mldsa_durable_iff tiny_correct tinyMldsa_correct (by simp [tinyDraw]) hout).1 _

/-- Initialising b overwrites the pair of a. -/
theorem second_init_drops_first :
    (∃ (vk : String) (header : List String), output tiny "p" (tinyDraw [1]) ⟨.missing, .missing⟩ (.mldsaInit (some "a")) =
      .ok (.ok (header ++ ["Stored in vault with key_id: a", s!"Verify Key: {vk}"]))) ∧
    output tiny "p" (tinyDraw [3]) (afterAll tiny "p" ⟨.missing, .missing⟩
      [(.mldsaInit (some "a"), tinyDraw [1]), (.mldsaInit (some "b"), tinyDraw [2])]) .mldsaList =
      .ok (.ok ["Stored ML-DSA keys:", "  - b"]) := by
  obtain ⟨kp, hkp⟩ := tiny_initialises valid_a [1]
  obtain ⟨kp', hkp'⟩ := tiny_initialises valid_b [2]
  exact ⟨output_init_of_initialises rfl _ hkp, output_list (holds_of_initialises tiny_correct rfl _ hkp')⟩

end AbirGuard.Rust.Mldsa
