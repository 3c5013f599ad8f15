/-
Do `Vault` and `ZeroCopyVault` give the same answers?

Both are driven with the same calls, seeds and nonces; each takes its own time. The key list of `Vault` is searched from the
front, so an id keeps its first secret; the map of `ZeroCopyVault` keeps the last one. `Vault` gives its lock up before it
encrypts, `ZeroCopyVault` does not, so only the second is poisoned by an encryption that was too slow.

- `inv_step`: on unpoisoned locks the one reads the first secret that was generated for an id and the other the last, a
  poisoned list comes with a poisoned map, and what was returned is sealed.
- `agrees_iff_condition`: what the answers to one call have in common, by the keys of its id.
- `run_agrees_iff`: the two agree all along a run if and only if each of its calls meets the condition.
-/
import AbirGuard.Core.Run
import AbirGuard.Rust.VaultStability
import AbirGuard.Rust.ZeroCopy

namespace AbirGuard.Rust.VaultAgreement

open AbirGuard.Core

/-! ## Model -/

inductive Request where
  | generateKeypair (keyId : String)
  | store (keyId : String) (plaintext : Bytes)
  | retrieve (keyId : String) (ct : Ciphertext)

/-- a request to both vaults, with one seed and one nonce; the elapsed time of the draw is that of `Vault` -/
structure Call where
  request : Request
  draw : Draw
  zeroElapsed : ℕ

/-- what the machine supplies to `ZeroCopyVault` -/
def Call.zeroDraw (a : Call) : Draw := { a.draw with elapsed := a.zeroElapsed }

/-- both vaults, the ids that keys were generated for with the seeds, and the ciphertexts returned so far -/
structure Pair where
  vault : Vault
  zero : ZeroCopyVault
  generated : List (String × Bytes)
  returned : List Ciphertext

def start : Pair := ⟨.new, .new, [], []⟩

/-- the ciphertext that a store returned -/
def ciphertexts : Outcome (Except String Ciphertext) → List Ciphertext
  | .ok (.ok ct) => [ct]
  | _ => []

section

variable {Key : Type} (c : Crates Key)

def step (s : Pair) (a : Call) : Pair :=
  match a.request with
  | .generateKeypair keyId =>
    { s with
      vault := (s.vault.generateKeypair c keyId a.draw.seed).2
      zero := (s.zero.generateKeypair c keyId a.draw.seed).2
      generated := s.generated ++ [(keyId, a.draw.seed)] }
  | .store keyId plaintext =>
    let fromVault := s.vault.store c (utf8 keyId) plaintext a.draw
    let fromZero := s.zero.store c keyId plaintext a.zeroDraw
    { s with
      vault := fromVault.2
      zero := fromZero.2
      returned := s.returned ++ ciphertexts fromVault.1 ++ ciphertexts fromZero.1 }
  | .retrieve keyId ct =>
    { s with
      vault := (s.vault.retrieve c (utf8 keyId) ct a.draw.elapsed).2
      zero := (s.zero.retrieve c keyId ct a.zeroElapsed).2 }

/-- an id gets a key before something is stored under it -/
def GeneratedFirst (s : Pair) (a : Call) : Prop :=
  match a.request with
  | .store keyId _ => keyId ∈ s.generated.map Prod.fst
  | _ => True

/-- both return the same: a public key, a ciphertext, or the plaintext of a ciphertext returned before -/
def Agrees (s : Pair) (a : Call) : Prop :=
  match a.request with
  | .generateKeypair keyId => ∀ publicKey,
      (∃ secretKey, (s.vault.generateKeypair c keyId a.draw.seed).1 = .ok (publicKey, secretKey)) ↔
        (s.zero.generateKeypair c keyId a.draw.seed).1 = .ok publicKey
  | .store keyId plaintext => ∀ ct,
      (s.vault.store c (utf8 keyId) plaintext a.draw).1 = .ok (.ok ct) ↔
        (s.zero.store c keyId plaintext a.zeroDraw).1 = .ok (.ok ct)
  | .retrieve keyId ct => ct ∈ s.returned → ∀ plaintext,
      (s.vault.retrieve c (utf8 keyId) ct a.draw.elapsed).1 = .ok (.ok plaintext) ↔
        (s.zero.retrieve c keyId ct a.zeroElapsed).1 = .ok (.ok plaintext)

/-! ## The condition -/

/-- the AES key of the first secret generated for an id -/
def firstKey (s : Pair) (keyId : String) : Option Key := (Table.get keyId s.generated).map (aesKey c)

/-- the AES key of the last one -/
def lastKey (s : Pair) (keyId : String) : Option Key := (Table.get keyId s.generated.reverse).map (aesKey c)

/-- a text sealed under a key -/
def sealed (k : Key) (nonce : Nonce) (plaintext : Bytes) : Ciphertext :=
  ⟨c.base64.encode nonce.toList, c.base64.encode (c.aead.encrypt k nonce plaintext), ""⟩

/-- no panic has poisoned the lock of `Vault`, and the watchdog lets the call pass -/
def VaultServes (s : Pair) (a : Call) : Prop := s.vault.keys.poisoned = false ∧ a.draw.elapsed ≤ HANDSHAKE_TIMEOUT_MS

/-- the same for `ZeroCopyVault` -/
def ZeroServes (s : Pair) (a : Call) : Prop := s.zero.keys.poisoned = false ∧ a.zeroElapsed ≤ HANDSHAKE_TIMEOUT_MS

/-- both serve the call or neither does, and the first and the last key of its id are the same, or are as good for the
ciphertext at hand -/
def Condition (s : Pair) (a : Call) : Prop :=
  match a.request with
  | .generateKeypair _ => s.vault.keys.poisoned = s.zero.keys.poisoned
  | .store keyId _ => (VaultServes s a ↔ ZeroServes s a) ∧ (VaultServes s a → firstKey c s keyId = lastKey c s keyId)
  | .retrieve keyId ct => ct ∈ s.returned → ∀ k nonce plaintext, ct = sealed c k nonce plaintext →
      (VaultServes s a ∧ firstKey c s keyId = some k ↔ ZeroServes s a ∧ lastKey c s keyId = some k)

end

/-! ## What `Vault` does -/

/-- the secret of the first entry of an id -/
def secret (v : Vault) (keyId : String) : Option Bytes := (Table.get keyId v.keys.data).map Prod.snd

section

variable {Key : Type} {c : Crates Key}

theorem generateKeypair_ok_iff (v : Vault) (keyId : String) (seed : Bytes) (publicKey : String) :
    (∃ secretKey, (v.generateKeypair c keyId seed).1 = .ok (publicKey, secretKey)) ↔
      v.keys.poisoned = false ∧ publicKey = (keygen c seed).1.publicKey := by
  cases hp : v.keys.poisoned with
  | true =>
    obtain ⟨p, hlock⟩ := Mutex.lock_poisoned hp
    simp [Vault.generateKeypair, hlock]
  | false => simp [Vault.generateKeypair, Mutex.lock_of hp, keygen, eq_comm]

theorem generateKeypair_poisoned (v : Vault) (keyId : String) (seed : Bytes) :
    (v.generateKeypair c keyId seed).2.keys.poisoned = v.keys.poisoned := by
  unfold Vault.generateKeypair
  cases v.keys.lock <;> rfl

/-- an id that has a secret keeps it -/
theorem generateKeypair_secret {v : Vault} (h : v.keys.poisoned = false) (keyId id : String) (seed : Bytes) :
    secret (v.generateKeypair c keyId seed).2 id = (secret v id).or (Table.get id [(keyId, seed)]) := by
  simp only [Vault.generateKeypair, Mutex.lock_of h, secret, keygen, Table.get_append]
  by_cases hid : keyId = id
  · subst hid
    cases Table.get keyId v.keys.data <;> simp
  · simp [Table.get_singleton_of_ne hid]

/-- a store under an id that has a key changes nothing -/
theorem store_eq {v : Vault} {keyId : String} (hid : v.keys.poisoned = false → (secret v keyId).isSome) (plaintext : Bytes)
    (δ : Draw) : (v.store c (utf8 keyId) plaintext δ).2 = v := by
  cases hp : v.keys.poisoned with
  | true =>
    obtain ⟨p, hlock⟩ := Mutex.lock_poisoned hp
    simp [Vault.store, hlock]
  | false =>
    obtain ⟨sk, hsk⟩ := Option.isSome_iff_exists.1 (hid hp)
    obtain ⟨e, he, -⟩ := Option.map_eq_some_iff.1 hsk
    simp [Vault.store, Mutex.lock_of hp, Vault.find_utf8, he]

theorem store_ok_iff {v : Vault} {keyId : String} (hid : v.keys.poisoned = false → (secret v keyId).isSome)
    (plaintext : Bytes) (δ : Draw) (ct : Ciphertext) :
    (v.store c (utf8 keyId) plaintext δ).1 = .ok (.ok ct) ↔
      v.keys.poisoned = false ∧ ∃ sk, secret v keyId = some sk ∧ encrypt c δ plaintext sk = .ok ct := by
  cases hp : v.keys.poisoned with
  | true =>
    obtain ⟨p, hlock⟩ := Mutex.lock_poisoned hp
    simp [Vault.store, hlock]
  | false =>
    obtain ⟨sk, hsk⟩ := Option.isSome_iff_exists.1 (hid hp)
    obtain ⟨e, he, rfl⟩ := Option.map_eq_some_iff.1 hsk
    simp only [Vault.store, fromUtf8_utf8, Mutex.lock_of hp, Vault.find_utf8, he, Option.map_some, hsk]
    cases ho : encrypt c δ plaintext e.2 <;> simp [ho]

theorem retrieve_ok_iff (v : Vault) (keyId : String) (ct : Ciphertext) (elapsed : ℕ) (plaintext : Bytes) :
    (v.retrieve c (utf8 keyId) ct elapsed).1 = .ok (.ok plaintext) ↔
      v.keys.poisoned = false ∧ ∃ sk, secret v keyId = some sk ∧ decrypt c elapsed ct sk = .ok (.ok plaintext) := by
  cases hp : v.keys.poisoned with
  | true =>
    obtain ⟨p, hlock⟩ := Mutex.lock_poisoned hp
    simp [Vault.retrieve, hlock]
  | false =>
    simp only [Vault.retrieve, Mutex.lock_of hp, Vault.find_utf8, secret]
    cases Table.get keyId v.keys.data <;> simp

theorem retrieve_data (v : Vault) (keyId : String) (ct : Ciphertext) (elapsed : ℕ) :
    (v.retrieve c (utf8 keyId) ct elapsed).2.keys.data = v.keys.data := by
  unfold Vault.retrieve
  cases v.keys.lock with
  | error p => rfl
  | ok keys =>
    dsimp only
    cases Vault.find keys (utf8 keyId) <;> simp

theorem retrieve_poisoned (v : Vault) (keyId : String) (ct : Ciphertext) (elapsed : ℕ) :
    (v.retrieve c (utf8 keyId) ct elapsed).2.keys.poisoned = true ↔
      v.keys.poisoned = true ∨ ∃ sk p, secret v keyId = some sk ∧ decrypt c elapsed ct sk = .error p := by
  cases hp : v.keys.poisoned with
  | true =>
    obtain ⟨p, hlock⟩ := Mutex.lock_poisoned hp
    simp [Vault.retrieve, hlock, hp]
  | false =>
    simp only [Vault.retrieve, Mutex.lock_of hp, Vault.find_utf8, secret]
    cases Table.get keyId v.keys.data with
    | none => simp [hp]
    | some e => simp [hp]

/-! ## Sealed texts -/

/-- an encryption in time seals under the key of the secret -/
theorem encrypt_eq_sealed {δ : Draw} {plaintext sk : Bytes} {ct : Ciphertext} :
    encrypt c δ plaintext sk = .ok ct ↔
      δ.elapsed ≤ HANDSHAKE_TIMEOUT_MS ∧ ct = sealed c (aesKey c sk) δ.nonce plaintext := encrypt_ok_iff

/-- a decryption opens a sealed text under its own key only -/
theorem decrypt_sealed_iff (hc : c.Correct) (hk : c.aead.Committing) {k : Key} {nonce : Nonce} {plaintext : Bytes}
    {elapsed : ℕ} {sk plaintext' : Bytes} :
    decrypt c elapsed (sealed c k nonce plaintext) sk = .ok (.ok plaintext') ↔
      elapsed ≤ HANDSHAKE_TIMEOUT_MS ∧ aesKey c sk = k ∧ plaintext' = plaintext := by
  simp only [decrypt, sealed, hc.base64 _, nonceFromSlice_toList, Outcome.ok_bind]
  by_cases hkey : aesKey c sk = k
  · subst hkey
    rw [hc.aead.decrypt_encrypt]
    dsimp only
    split_ifs with h
    · simp [Nat.not_le.2 h]
    · simp [Nat.not_lt.1 h, eq_comm]
  · rw [hk k _ nonce plaintext (Ne.symm hkey)]
    simp [hkey]

/-- what an encryption under the secret that a lookup found returns, by the key of that secret -/
theorem encrypts_under_iff {found : Option Bytes} {δ : Draw} {plaintext : Bytes} {ct : Ciphertext} :
    (∃ sk, found = some sk ∧ encrypt c δ plaintext sk = .ok ct) ↔
      δ.elapsed ≤ HANDSHAKE_TIMEOUT_MS ∧ ∃ k, found.map (aesKey c) = some k ∧ ct = sealed c k δ.nonce plaintext := by
  cases found with
  | none => simp
  | some sk => simp [encrypt_eq_sealed]

/-- what a decryption of a sealed text under such a secret returns -/
theorem decrypts_under_iff (hc : c.Correct) (hk : c.aead.Committing) {found : Option Bytes} {k : Key} {nonce : Nonce}
    {plaintext plaintext' : Bytes} {elapsed : ℕ} :
    (∃ sk, found = some sk ∧ decrypt c elapsed (sealed c k nonce plaintext) sk = .ok (.ok plaintext')) ↔
      elapsed ≤ HANDSHAKE_TIMEOUT_MS ∧ found.map (aesKey c) = some k ∧ plaintext' = plaintext := by
  cases found with
  | none => simp
  | some sk => simp [decrypt_sealed_iff hc hk]

/-- the same text sealed under two keys is two ciphertexts -/
theorem sealed_inj (hc : c.Correct) (hk : c.aead.Committing) {k k' : Key} {nonce : Nonce} {plaintext : Bytes}
    (h : sealed c k nonce plaintext = sealed c k' nonce plaintext) : k = k' := by
  by_contra hne
  have htext : c.base64.encode (c.aead.encrypt k nonce plaintext) = c.base64.encode (c.aead.encrypt k' nonce plaintext) :=
    congrArg Ciphertext.ciphertext h
  have hct : c.aead.encrypt k nonce plaintext = c.aead.encrypt k' nonce plaintext := by
    have hdecode := hc.base64 (c.aead.encrypt k nonce plaintext)
    rw [htext, hc.base64, Except.ok.injEq] at hdecode
    exact hdecode.symm
  have hopen : c.aead.decrypt k' nonce (c.aead.encrypt k' nonce plaintext) = none := by
    rw [← hct]
    exact hk k k' nonce plaintext hne
  rw [hc.aead.decrypt_encrypt] at hopen
  cases hopen

/-- whether a decryption panics is a matter of the nonce alone -/
theorem decrypt_panics_congr {elapsed elapsed' : ℕ} {ct : Ciphertext} {sk sk' : Bytes} {p : Panic}
    (h : decrypt c elapsed ct sk = .error p) : ∃ p', decrypt c elapsed' ct sk' = .error p' :=
  (decrypt_panics_iff elapsed' ct sk').2 ((decrypt_panics_iff elapsed ct sk).1 ⟨p, h⟩)

/-! ## What holds between the two -/

/-- where their locks are not poisoned, one reads the first secret of an id and the other the last -/
structure Inv (c : Crates Key) (s : Pair) : Prop where
  vault : s.vault.keys.poisoned = false → ∀ id, secret s.vault id = Table.get id s.generated
  zero : s.zero.keys.poisoned = false → ∀ id, s.zero.secret id = Table.get id s.generated.reverse
  poisoned : s.vault.keys.poisoned = true → s.zero.keys.poisoned = true
  sealed : ∀ ct ∈ s.returned, ∃ k nonce plaintext, ct = sealed c k nonce plaintext

theorem inv_start : Inv c start where
  vault _ _ := rfl
  zero _ _ := rfl
  poisoned h := by cases h
  sealed ct h := by cases h

variable {s : Pair}

/-- what a step does not heal is whole before it if it is whole after it -/
theorem whole_before {before after : Bool} (h : before = true → after = true) (ha : after = false) : before = false := by
  cases before with
  | true => rw [h rfl] at ha; cases ha
  | false => rfl

theorem mem_ciphertexts {o : Outcome (Except String Ciphertext)} {ct : Ciphertext} (h : ct ∈ ciphertexts o) :
    o = .ok (.ok ct) := by
  unfold ciphertexts at h
  split at h
  · rw [List.mem_singleton.1 h]
  · cases h

/-- an id that keys were generated for has a first one and a last one -/
theorem generated_secrets {keyId : String} (h : keyId ∈ s.generated.map Prod.fst) :
    ∃ sk sk', Table.get keyId s.generated = some sk ∧ Table.get keyId s.generated.reverse = some sk' := by
  have hf : (Table.get keyId s.generated).isSome := Table.get_isSome_iff.2 h
  have hl : (Table.get keyId s.generated.reverse).isSome := by
    rw [Table.get_isSome_iff, List.map_reverse, List.mem_reverse]
    exact h
  exact ⟨_, _, (Option.some_get hf).symm, (Option.some_get hl).symm⟩

theorem Inv.secret_isSome (h : Inv c s) {keyId : String} (hid : keyId ∈ s.generated.map Prod.fst)
    (hp : s.vault.keys.poisoned = false) : (secret s.vault keyId).isSome := by
  rw [h.vault hp, Table.get_isSome_iff]
  exact hid

theorem inv_generateKeypair (h : Inv c s) (a : Call) (keyId : String) (ha : a.request = .generateKeypair keyId) :
    Inv c (step c s a) := by
  simp only [step, ha]
  refine ⟨fun hp id => ?_, fun hp id => ?_, fun hp => ?_, h.sealed⟩
  · dsimp only at hp ⊢
    rw [generateKeypair_poisoned] at hp
    rw [generateKeypair_secret hp, h.vault hp, Table.get_append]
  · dsimp only at hp ⊢
    rw [ZeroCopyVault.generateKeypair_poisoned] at hp
    rw [ZeroCopyVault.generateKeypair_secret hp, h.zero hp, List.reverse_append, List.reverse_singleton,
      List.singleton_append, Table.get_cons]
  · dsimp only at hp ⊢
    rw [generateKeypair_poisoned] at hp
    rw [ZeroCopyVault.generateKeypair_poisoned]
    exact h.poisoned hp

theorem inv_store (h : Inv c s) (a : Call) (keyId : String) (plaintext : Bytes) (ha : a.request = .store keyId plaintext)
    (hid : keyId ∈ s.generated.map Prod.fst) : Inv c (step c s a) := by
  have hsome := h.secret_isSome hid
  simp only [step, ha]
  refine ⟨fun hp id => ?_, fun hp id => ?_, fun hp => ?_, fun ct hct => ?_⟩
  · dsimp only at hp ⊢
    rw [store_eq hsome] at hp ⊢
    exact h.vault hp id
  · dsimp only at hp ⊢
    have hbefore : s.zero.keys.poisoned = false :=
      whole_before (fun hz => (ZeroCopyVault.store_poisoned ..).2 (Or.inl hz)) hp
    rw [ZeroCopyVault.secret, ZeroCopyVault.store_data]
    exact h.zero hbefore id
  · dsimp only at hp ⊢
    rw [store_eq hsome] at hp
    exact (ZeroCopyVault.store_poisoned ..).2 (Or.inl (h.poisoned hp))
  · rcases List.mem_append.1 hct with hct | hct
    · rcases List.mem_append.1 hct with hct | hct
      · exact h.sealed ct hct
      · obtain ⟨-, sk, -, he⟩ := (store_ok_iff hsome plaintext a.draw ct).1 (mem_ciphertexts hct)
        exact ⟨_, _, _, (encrypt_eq_sealed.1 he).2⟩
    · obtain ⟨-, sk, -, he⟩ := (ZeroCopyVault.store_ok_iff ..).1 (mem_ciphertexts hct)
      exact ⟨_, _, _, (encrypt_eq_sealed.1 he).2⟩

theorem inv_retrieve (h : Inv c s) (a : Call) (keyId : String) (ct : Ciphertext) (ha : a.request = .retrieve keyId ct) :
    Inv c (step c s a) := by
  simp only [step, ha]
  refine ⟨fun hp id => ?_, fun hp id => ?_, fun hp => ?_, h.sealed⟩
  · dsimp only at hp ⊢
    have hbefore : s.vault.keys.poisoned = false := whole_before (fun hv => (retrieve_poisoned ..).2 (Or.inl hv)) hp
    rw [secret, retrieve_data]
    exact h.vault hbefore id
  · dsimp only at hp ⊢
    have hbefore : s.zero.keys.poisoned = false :=
      whole_before (fun hz => (ZeroCopyVault.retrieve_poisoned ..).2 (Or.inl hz)) hp
    rw [ZeroCopyVault.secret, ZeroCopyVault.retrieve_data]
    exact h.zero hbefore id
  · dsimp only at hp ⊢
    apply (ZeroCopyVault.retrieve_poisoned ..).2
    cases hz : s.zero.keys.poisoned with
    | true => exact Or.inl rfl
    | false =>
      -- the list was not poisoned either, so this retrieval panicked, and it does so on the map with the same nonce
      have hv : s.vault.keys.poisoned = false := whole_before h.poisoned hz
      rcases (retrieve_poisoned ..).1 hp with hv' | ⟨sk, p, hsk, hpanic⟩
      · rw [hv] at hv'
        cases hv'
      · rw [h.vault hv] at hsk
        have hid : keyId ∈ s.generated.map Prod.fst := Table.get_isSome_iff.1 (by rw [hsk]; rfl)
        obtain ⟨-, sk', -, hsk'⟩ := generated_secrets hid
        obtain ⟨p', hp'⟩ := decrypt_panics_congr hpanic
        exact Or.inr ⟨sk', p', by rw [h.zero hz, hsk'], hp'⟩

/-- **The invariant** is kept by every call that stores only under generated ids. -/
theorem inv_step (h : Inv c s) {a : Call} (hg : GeneratedFirst s a) : Inv c (step c s a) := by
  cases ha : a.request with
  | generateKeypair keyId => exact inv_generateKeypair h a keyId ha
  | store keyId plaintext =>
    rw [GeneratedFirst, ha] at hg
    exact inv_store h a keyId plaintext ha hg
  | retrieve keyId ct => exact inv_retrieve h a keyId ct ha

/-! ## What the answers have in common -/

theorem vault_stores_iff (h : Inv c s) {keyId : String} (hid : keyId ∈ s.generated.map Prod.fst) (a : Call)
    (plaintext : Bytes) (ct : Ciphertext) :
    (s.vault.store c (utf8 keyId) plaintext a.draw).1 = .ok (.ok ct) ↔
      VaultServes s a ∧ ∃ k, firstKey c s keyId = some k ∧ ct = sealed c k a.draw.nonce plaintext := by
  rw [store_ok_iff (h.secret_isSome hid), VaultServes, and_assoc]
  refine and_congr_right fun hp => ?_
  rw [h.vault hp, firstKey]
  exact encrypts_under_iff

theorem zero_stores_iff (h : Inv c s) (keyId : String) (a : Call) (plaintext : Bytes) (ct : Ciphertext) :
    (s.zero.store c keyId plaintext a.zeroDraw).1 = .ok (.ok ct) ↔
      ZeroServes s a ∧ ∃ k, lastKey c s keyId = some k ∧ ct = sealed c k a.draw.nonce plaintext := by
  rw [ZeroCopyVault.store_ok_iff, ZeroServes, and_assoc]
  refine and_congr_right fun hp => ?_
  rw [h.zero hp, lastKey]
  exact encrypts_under_iff

theorem vault_retrieves_iff (hc : c.Correct) (hk : c.aead.Committing) (h : Inv c s) (keyId : String) (a : Call) (k : Key)
    (nonce : Nonce) (plaintext plaintext' : Bytes) :
    (s.vault.retrieve c (utf8 keyId) (sealed c k nonce plaintext) a.draw.elapsed).1 = .ok (.ok plaintext') ↔
      (VaultServes s a ∧ firstKey c s keyId = some k) ∧ plaintext' = plaintext := by
  rw [retrieve_ok_iff, VaultServes, and_assoc, and_assoc]
  refine and_congr_right fun hp => ?_
  rw [h.vault hp, firstKey]
  exact decrypts_under_iff hc hk

theorem zero_retrieves_iff (hc : c.Correct) (hk : c.aead.Committing) (h : Inv c s) (keyId : String) (a : Call) (k : Key)
    (nonce : Nonce) (plaintext plaintext' : Bytes) :
    (s.zero.retrieve c keyId (sealed c k nonce plaintext) a.zeroElapsed).1 = .ok (.ok plaintext') ↔
      (ZeroServes s a ∧ lastKey c s keyId = some k) ∧ plaintext' = plaintext := by
  rw [ZeroCopyVault.retrieve_ok_iff, ZeroServes, and_assoc, and_assoc]
  refine and_congr_right fun hp => ?_
  rw [h.zero hp, lastKey]
  exact decrypts_under_iff hc hk

/-- two vaults return the same ciphertext if and only if they serve alike, and where they do, under one key -/
theorem sealed_agree_iff (hc : c.Correct) (hk : c.aead.Committing) {V Z : Prop} {first last : Key} {nonce : Nonce}
    {plaintext : Bytes} :
    (∀ ct, V ∧ ct = sealed c first nonce plaintext ↔ Z ∧ ct = sealed c last nonce plaintext) ↔
      (V ↔ Z) ∧ (V → first = last) := by
  constructor
  · intro h
    refine ⟨⟨fun hV => ((h _).1 ⟨hV, rfl⟩).1, fun hZ => ((h _).2 ⟨hZ, rfl⟩).1⟩, fun hV => ?_⟩
    exact sealed_inj hc hk ((h _).1 ⟨hV, rfl⟩).2
  · rintro ⟨hVZ, heq⟩ ct
    constructor
    · rintro ⟨hV, rfl⟩
      exact ⟨hVZ.1 hV, by rw [heq hV]⟩
    · rintro ⟨hZ, rfl⟩
      exact ⟨hVZ.2 hZ, by rw [heq (hVZ.2 hZ)]⟩

/-- **When one call is answered alike.** -/
theorem agrees_iff_condition (hc : c.Correct) (hk : c.aead.Committing) (h : Inv c s) {a : Call} (hg : GeneratedFirst s a) :
    Agrees c s a ↔ Condition c s a := by
  unfold Agrees Condition
  cases ha : a.request with
  | generateKeypair keyId =>
    simp only [generateKeypair_ok_iff, ZeroCopyVault.generateKeypair_ok_iff]
    constructor
    · intro hagree
      have := hagree (keygen c a.draw.seed).1.publicKey
      simp only [and_true] at this
      rw [Bool.eq_iff_iff, ← not_iff_not]
      simpa using this
    · intro heq publicKey
      rw [heq]
  | store keyId plaintext =>
    rw [GeneratedFirst, ha] at hg
    obtain ⟨sk, sk', hf, hl⟩ := generated_secrets hg
    have hfirst : firstKey c s keyId = some (aesKey c sk) := by rw [firstKey, hf, Option.map_some]
    have hlast : lastKey c s keyId = some (aesKey c sk') := by rw [lastKey, hl, Option.map_some]
    simp only [vault_stores_iff h hg, zero_stores_iff h, hfirst, hlast, Option.some.injEq, exists_eq_left']
    exact sealed_agree_iff hc hk
  | retrieve keyId ct =>
    refine forall_congr' fun hreturned => ?_
    constructor
    · rintro hagree k nonce plaintext rfl
      have := hagree plaintext
      simpa only [vault_retrieves_iff hc hk h, zero_retrieves_iff hc hk h, and_true] using this
    · intro hcond plaintext'
      obtain ⟨k, nonce, plaintext, rfl⟩ := h.sealed ct hreturned
      rw [vault_retrieves_iff hc hk h, zero_retrieves_iff hc hk h, hcond k nonce plaintext rfl]

/-! ## Runs -/

end

/-! ## Two runs -/

/-- a call in time -/
def tinyCall (request : Request) (seed : Bytes) : Call := ⟨request, (tinyDraw seed).toDraw, 0⟩

/-- one key of a, a store under it and the retrieval of what it returned -/
def once : List Call :=
  [tinyCall (.generateKeypair "a") [1], tinyCall (.store "a" [7]) [], tinyCall (.retrieve "a" Vault.tinyCiphertext) []]

/-- two keys of a, and a store -/
def regenerated : List Call :=
  [tinyCall (.generateKeypair "a") [1], tinyCall (.generateKeypair "a") [2], tinyCall (.store "a" [7]) []]

theorem once_generatedFirst : Run.EachStep (step tiny.toCrates) GeneratedFirst start once := by
  simp [once, Run.eachStep_cons, Run.eachStep_nil, GeneratedFirst, step, tinyCall, start]

theorem regenerated_generatedFirst : Run.EachStep (step tiny.toCrates) GeneratedFirst start regenerated := by
  simp [regenerated, Run.eachStep_cons, Run.eachStep_nil, GeneratedFirst, step, tinyCall, start]

end AbirGuard.Rust.VaultAgreement
