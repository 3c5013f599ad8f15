/-
Does a vault keep giving back what was stored in it?

The key list may hold several entries of an id, and the first one is used. A later entry is appended, and a removal takes the
entries of its own id only, so the first entry of an id stays first. What does end it is a panic: a retrieval of any existing
key with a nonce that does not decode to 12 bytes panics while the list is locked, and no later call gets the lock.

- `get_step`: an operation that neither replaces an id nor panics leaves its first entry where it is.
- `retrieve_stored_iff`: after a run without a removal or an import of its id, a stored text is retrieved if and only if no
  retrieval of the run was a bad nonce.
-/
import AbirGuard.Core.Run
import AbirGuard.Rust.Instance

namespace AbirGuard.Rust.Vault

open AbirGuard.Core

/-! ## Model -/

inductive Operation where
  | generateKeypair (keyId : String)
  | store (keyId plaintext : Bytes)
  | retrieve (keyId : Bytes) (ct : Ciphertext)
  | importKey (keyId publicKey secretKeyB64 : String)
  | removeKeypair (keyId : String)
  | listKeypairs
deriving DecidableEq

/-- the operation drops the entries of the id -/
def Operation.Replaces (keyId : Bytes) : Operation → Prop
  | .importKey id _ _ => utf8 id = keyId
  | .removeKeypair id => utf8 id = keyId
  | _ => False

section

variable {Key : Type} (c : Crates Key)

/-- the vault after an operation, which may have panicked -/
def step (v : Vault) (r : Operation × Draw) : Vault :=
  match r.1 with
  | .generateKeypair keyId => (v.generateKeypair c keyId r.2.seed).2
  | .store keyId plaintext => (v.store c keyId plaintext r.2).2
  | .retrieve keyId ct => (v.retrieve c keyId ct r.2.elapsed).2
  | .importKey keyId publicKey secretKeyB64 => (v.importKey c keyId publicKey secretKeyB64).2
  | .removeKeypair keyId => (v.removeKeypair keyId).2
  | .listKeypairs => v

/-- a retrieval with an existing key, whose nonce does not decode to 12 bytes -/
def BadNonce (v : Vault) (r : Operation × Draw) : Prop :=
  ∃ keyId ct nonce, r.1 = .retrieve keyId ct ∧ (find v.keys.data keyId).isSome ∧ c.base64.decode ct.nonce = .ok nonce ∧
    nonce.length ≠ 12

/-! ## One operation -/

variable {c}

/-- a retrieval leaves the list as it is, and poisons the lock if and only if it panics -/
theorem retrieve_of (t : List Entry) (keyId : Bytes) (ct : Ciphertext) (elapsed : ℕ) :
    ((Vault.of t).retrieve c keyId ct elapsed).2 = ⟨(Mutex.mk t false).release ((Vault.of t).retrieve c keyId ct elapsed).1⟩ := by
  unfold retrieve
  rw [Mutex.lock_mk_false]
  dsimp only
  cases find t keyId <;> rfl

theorem retrieve_panics_iff (t : List Entry) (keyId : Bytes) (ct : Ciphertext) (δ : Draw) :
    (∃ p, ((Vault.of t).retrieve c keyId ct δ.elapsed).1 = .error p) ↔ BadNonce c (.of t) (.retrieve keyId ct, δ) := by
  have hbad : BadNonce c (.of t) (.retrieve keyId ct, δ) ↔
      (find t keyId).isSome ∧ ∃ nonce, c.base64.decode ct.nonce = .ok nonce ∧ nonce.length ≠ 12 := by
    constructor
    · rintro ⟨_, _, nonce, heq, hf, hn⟩
      cases heq
      exact ⟨hf, nonce, hn⟩
    · rintro ⟨hf, nonce, hn⟩
      exact ⟨keyId, ct, nonce, rfl, hf, hn⟩
  rw [hbad, retrieve, Mutex.lock_mk_false]
  dsimp only
  cases hf : find t keyId with
  | none =>
    refine iff_of_false ?_ fun h => by simp at h
    rintro ⟨p, hp⟩
    cases hp
  | some e =>
    rw [Option.isSome_some, decrypt_panics_iff]
    exact ⟨fun h => ⟨rfl, h⟩, fun h => h.2⟩

theorem step_store (t : List Entry) (keyId plaintext : Bytes) (δ : Draw) :
    step c (.of t) (.store keyId plaintext, δ) =
      match fromUtf8 keyId with
      | some id => .of (withKey c δ.seed t id)
      | none => .of t := by
  dsimp only [step]
  cases hid : fromUtf8 keyId with
  | none => simp only [store, hid]
  | some id =>
    rw [← utf8_of_fromUtf8 hid, store_of]

/-- **The first entry of an id** survives every operation that neither replaces the id nor panics. -/
theorem get_step {id : String} {t : List Entry} {b : KeyPair × Bytes} (h : Table.get id t = some b) {r : Operation × Draw}
    (hr : ¬ r.1.Replaces (utf8 id)) (hbad : ¬ BadNonce c (.of t) r) :
    ∃ t', step c (.of t) r = .of t' ∧ Table.get id t' = some b := by
  obtain ⟨o, δ⟩ := r
  cases o with
  | generateKeypair id' => exact ⟨_, rfl, Table.get_add_of_get h id' _⟩
  | store keyId plaintext =>
    rw [step_store]
    cases fromUtf8 keyId with
    | none => exact ⟨t, rfl, h⟩
    | some id' =>
      refine ⟨_, rfl, ?_⟩
      unfold withKey
      split_ifs
      · exact h
      · exact Table.get_add_of_get h id' _
  | retrieve keyId ct =>
    refine ⟨t, ?_, h⟩
    dsimp only [step]
    rw [retrieve_of]
    cases ho : ((Vault.of t).retrieve c keyId ct δ.elapsed).1 with
    | ok r => rfl
    | error p => exact absurd ((retrieve_panics_iff t keyId ct δ).1 ⟨p, ho⟩) hbad
  | importKey id' publicKey secretKeyB64 =>
    have hne : id' ≠ id := fun he => hr (congrArg utf8 he)
    dsimp only [step]
    cases hd : c.base64.decode secretKeyB64 with
    | error e =>
      rw [importKey_of_error _ hd]
      exact ⟨t, rfl, h⟩
    | ok sk =>
      rw [importKey_of _ _ hd]
      exact ⟨_, rfl, (Table.get_put_of_ne hne _ t).trans h⟩
  | removeKeypair id' =>
    have hne : id' ≠ id := fun he => hr (congrArg utf8 he)
    exact ⟨_, rfl, (Table.get_remove_of_ne hne t).trans h⟩
  | listKeypairs => exact ⟨t, rfl, h⟩

/-- a poisoned lock stays poisoned, and nothing is retrieved -/
theorem step_poisoned {v : Vault} (h : v.keys.poisoned = true) (r : Operation × Draw) : step c v r = v := by
  obtain ⟨p, hlock⟩ := Mutex.lock_poisoned h
  obtain ⟨o, δ⟩ := r
  cases o with
  | generateKeypair _ => simp only [step, generateKeypair, hlock]
  | store keyId _ =>
    simp only [step, store, hlock]
    cases fromUtf8 keyId <;> rfl
  | retrieve _ _ => simp only [step, retrieve, hlock]
  | importKey _ _ secretKeyB64 =>
    simp only [step, importKey, hlock]
    cases c.base64.decode secretKeyB64 <;> rfl
  | removeKeypair _ => simp only [step, removeKeypair, hlock]
  | listKeypairs => rfl

theorem step_badNonce {t : List Entry} {r : Operation × Draw} (h : BadNonce c (.of t) r) :
    (step c (.of t) r).keys.poisoned = true := by
  obtain ⟨o, δ⟩ := r
  obtain ⟨keyId, ct, nonce, rfl, hrest⟩ := h
  obtain ⟨p, hp⟩ := (retrieve_panics_iff t keyId ct δ).2 ⟨keyId, ct, nonce, rfl, hrest⟩
  simp only [step, retrieve_of, hp]
  rfl

/-! ## Runs -/

/-- an unpoisoned vault in which this is the first entry of the id -/
def Holds (id : String) (b : KeyPair × Bytes) (v : Vault) : Prop := ∃ t, v = .of t ∧ Table.get id t = some b

/-- after a run that does not replace the id, its entry is still first, or there was a bad nonce -/
theorem after_cases {id : String} {b : KeyPair × Bytes} {run : List (Operation × Draw)}
    (hrun : ∀ r ∈ run, ¬ r.1.Replaces (utf8 id)) {v : Vault} (h : Holds id b v) :
    Holds id b (Run.after (step c) v run) ∧ Run.EachStep (step c) (fun v r => ¬ BadNonce c v r) v run ∨
      (Run.after (step c) v run).keys.poisoned = true ∧ ¬ Run.EachStep (step c) (fun v r => ¬ BadNonce c v r) v run := by
  refine @Run.good_or_dead _ _ (step c) (BadNonce c) (Holds id b) (fun v => v.keys.poisoned = true) run ?_ ?_ ?_ v h
  · rintro r hr _ ⟨t, rfl, hg⟩ hbad
    exact get_step hg (hrun r hr) hbad
  · rintro r - _ ⟨t, rfl, -⟩ hbad
    exact step_badNonce hbad
  · intro r _ v hv
    rw [step_poisoned hv r]
    exact hv

/-- a store that returned found an unpoisoned list, and left it with the entry that it used -/
theorem store_ok_cases {v : Vault} {keyId plaintext : Bytes} {δ : Draw} {ct : Ciphertext}
    (h : (v.store c keyId plaintext δ).1 = .ok (.ok ct)) :
    ∃ t id b, keyId = utf8 id ∧ (v.store c keyId plaintext δ).2 = .of t ∧ Table.get id t = some b ∧
      encrypt c δ plaintext b.2 = .ok ct := by
  cases hid : fromUtf8 keyId with
  | none =>
    simp only [store, hid] at h
    cases h
  | some id =>
    obtain rfl := utf8_of_fromUtf8 hid
    obtain ⟨⟨t, p⟩⟩ := v
    cases p with
    | true =>
      simp only [store, hid, Mutex.lock, if_true] at h
      cases h
    | false =>
      have hstore := store_of (c := c) t id plaintext δ
      rw [hstore] at h ⊢
      obtain ⟨ct', hct, he⟩ := Outcome.map_eq_ok h
      cases he
      exact ⟨_, id, _, rfl, rfl, get_withKey_self δ.seed t id, hct⟩

/-- **What was stored is retrieved, whatever keys were added, if and only if no retrieval panicked.** -/
theorem retrieve_stored_iff (hc : c.Correct) {pre post : List (Operation × Draw)} {keyId plaintext : Bytes} {δ : Draw}
    {ct : Ciphertext} (hstore : ((Run.after (step c) .new pre).store c keyId plaintext δ).1 = .ok (.ok ct))
    (hpost : ∀ r ∈ post, ¬ r.1.Replaces keyId) {elapsed : ℕ} (he : elapsed ≤ HANDSHAKE_TIMEOUT_MS) :
    ((Run.after (step c) .new (pre ++ (.store keyId plaintext, δ) :: post)).retrieve c keyId ct elapsed).1 =
        .ok (.ok plaintext) ↔
      Run.EachStep (step c) (fun v r => ¬ BadNonce c v r)
        (Run.after (step c) .new (pre ++ [(.store keyId plaintext, δ)])) post := by
  obtain ⟨t, id, b, rfl, ht, hg, hct⟩ := store_ok_cases hstore
  have hstored : step c (Run.after (step c) .new pre) (.store (utf8 id) plaintext, δ) = .of t := ht
  rw [Run.after_append, Run.after_append, Run.after_cons, Run.after_cons, Run.after_nil, hstored]
  rcases after_cases hpost ⟨t, rfl, hg⟩ with ⟨⟨t', ht', hg'⟩, hn⟩ | ⟨hp, hn⟩
  · refine iff_of_true ?_ hn
    rw [ht', retrieve_of_get hg']
    exact decrypt_encrypt hc hct he ct.keyId
  · refine iff_of_false (fun hok => ?_) hn
    obtain ⟨p, hlock⟩ := Mutex.lock_poisoned hp
    simp only [retrieve, hlock] at hok
    cases hok

end

/-! ## Two runs -/

/-- what the store of the byte 7 under a returns -/
def tinyCiphertext : Ciphertext :=
  ⟨base64.encode (List.replicate 12 0), base64.encode (7 :: List.replicate 16 1), ""⟩

/-- The text under a comes back after a further key of a and the removal of another id. -/
theorem retrieve_stored_tiny :
    ((Run.after (step tiny.toCrates) .new ([] ++ (.store (utf8 "a") [7], (tinyDraw [1]).toDraw) ::
      [(.generateKeypair "a", (tinyDraw [2]).toDraw), (.removeKeypair "b", (tinyDraw [3]).toDraw)])).retrieve tiny.toCrates
        (utf8 "a") tinyCiphertext 0).1 = .ok (.ok [7]) ↔
    Run.EachStep (step tiny.toCrates) (fun v r => ¬ BadNonce tiny.toCrates v r)
      (Run.after (step tiny.toCrates) .new ([] ++ [(.store (utf8 "a") [7], (tinyDraw [1]).toDraw)]))
      [(.generateKeypair "a", (tinyDraw [2]).toDraw), (.removeKeypair "b", (tinyDraw [3]).toDraw)] :=
  retrieve_stored_iff tiny_correct.toCorrect (by decide +kernel) (by simp [Operation.Replaces]) (by decide)

/-- After a retrieval of another text without a nonce, it does not. -/
theorem bad_nonce_ends :
    ((Vault.new).store tiny.toCrates (utf8 "a") [7] (tinyDraw [1]).toDraw).1 = .ok (.ok tinyCiphertext) ∧
    ∃ p, ((Run.after (step tiny.toCrates) .new [(.store (utf8 "a") [7], (tinyDraw [1]).toDraw),
      (.retrieve (utf8 "a") ⟨"", "", ""⟩, (tinyDraw [2]).toDraw)]).retrieve tiny.toCrates (utf8 "a") tinyCiphertext 0).1 =
        .error p := by
  exact ⟨by decide +kernel, _, rfl⟩

end AbirGuard.Rust.Vault
