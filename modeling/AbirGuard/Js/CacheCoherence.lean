/-
Is the cache of the JavaScript SDK coherent with its keys?

`rotateKey` and `deleteKey` delete the cache entry together with the key. `generateKeyPair` does not, though it replaces a key
that is there; and `encrypt` writes the cache after its awaits, whatever became of the key that it read before them.

- `Change`: what one step does to the two maps, and when (`change_nextStep`).
- `Prepared`: what holds of a suspended `encrypt`: the AES key is derived from the key data that it read.
- `cache_coherent`: on every schedule, the entry of a key decrypts under the current secret, unless since the last step that
  repairs it the key was replaced, or an entry was written for a key that had changed.
- `stale_entries`: two schedules after which no call is in progress and an entry is of no use.
-/
import AbirGuard.Js.Sdk

namespace AbirGuard.Js

open AbirGuard.Core Raise

variable {κ τ : Type} [DecidableEq κ] [DecidableEq τ] {l : Libs} {η : Host}

/-! ## What a step does to the maps -/

def Vault.install (l : Libs) (g : Vault κ) (k : κ) (secret : Vector UInt8 32) : Vault κ :=
  { g with keys := g.keys.insert k ⟨l.sha256 secret.toList, secret⟩ }

def Vault.clear (g : Vault κ) (k : κ) : Vault κ := ⟨g.keys.erase k, g.cache.erase k⟩

def Vault.store (g : Vault κ) (k : κ) (e : Encrypted κ) : Vault κ := { g with cache := g.cache.insert k e }

def Op.keyId : Op κ → κ
  | .generateKeyPair k => k
  | .encrypt k _ => k
  | .rotateKey k => k
  | .deleteKey k => k

/-- the changes that a step can make -/
inductive Change (l : Libs) (η : Host) (g : Vault κ) : Op κ → Pc κ → Vault κ → Prop
  | stays (op : Op κ) (pc : Pc κ) : Change l η g op pc g
  | regenerates (k secret) (h : η.secret = .ok secret) : Change l η g (.generateKeyPair k) .start (g.install l k secret)
  | generates (k data secret) (h : η.secret = .ok secret) (hk : g.keys.lookup k = none) :
    Change l η g (.encrypt k data) .start (g.install l k secret)
  | seals (k bytes locals) (hsubtle : η.subtle = false) (h : η.crypto = .ok ⟨⟩) :
    Change l η g (.encrypt k (.ok bytes)) (.derived locals)
      (g.store k (result k locals.nonce (l.aead.encrypt locals.aesKey locals.nonce bytes)))
  | stores (k data locals encrypted) (h : η.crypto = .ok ⟨⟩) :
    Change l η g (.encrypt k data) (.sealed locals encrypted) (g.store k (result k locals.nonce encrypted))
  | rotates (k secret) (h : η.secret = .ok secret) : Change l η g (.rotateKey k) .start ((g.clear k).install l k secret)
  | rotationFails (k e) (h : η.secret = .error e) : Change l η g (.rotateKey k) .start (g.clear k)
  | deletes (k : κ) : Change l η g (.deleteKey k) .start (g.clear k)

theorem run_generateKeyPair (g : Vault κ) (k : κ) :
    (Raise.run (generateKeyPair l η k) g).2 = match η.secret with
      | .ok secret => g.install l k secret
      | .error _ => g := by
  rw [generateKeyPair, run_lift_bind]
  cases η.secret <;> rfl

theorem change_firstStep (g : Vault κ) (op : Op κ) : Change l η g op .start (firstStep l η g op).2 := by
  cases op with
  | generateKeyPair k =>
    change Change l η g _ _ (Raise.run (generateKeyPair l η k) g).2
    rw [run_generateKeyPair]
    cases h : η.secret with
    | ok secret => exact .regenerates k secret h
    | error e => exact .stays ..
  | encrypt k data =>
    change Change l η g _ _ (Raise.run (encryptBegin l η k) g).2
    unfold encryptBegin
    rw [run_get_bind]
    cases hk : g.keys.lookup k with
    | some keyData =>
      dsimp only
      rw [run_lift_bind]
      cases η.nonce <;> exact .stays ..
    | none =>
      dsimp only
      rw [state_bind (fun _ _ => rfl), run_generateKeyPair]
      cases h : η.secret with
      | ok secret => exact .generates k data secret h hk
      | error e => exact .stays ..
  | rotateKey k =>
    change Change l η g _ _ (Raise.run (generateKeyPair l η k) (g.clear k)).2
    rw [run_generateKeyPair]
    cases h : η.secret with
    | ok secret => exact .rotates k secret h
    | error e => exact .rotationFails k e h
  | deleteKey k => exact .deletes k

theorem change_encryptStep (g : Vault κ) (k : κ) (data : Except JsError Bytes) (pc : Pc κ) :
    Change l η g (.encrypt k data) pc (encryptStep l η g k data pc).2 := by
  cases pc with
  | start => exact .stays ..
  | generated =>
    change Change l η g _ _ (Raise.run (encryptGenerated l η k) g).2
    unfold encryptGenerated
    rw [run_get_bind, run_lift_bind]
    cases η.nonce with
    | error e => exact .stays ..
    | ok nonce =>
      dsimp only
      cases g.keys.lookup k <;> exact .stays ..
  | derived locals =>
    unfold encryptStep
    dsimp only
    split_ifs with hsubtle
    · exact .stays ..
    · change Change l η g _ _ (Raise.run (encryptNode l η k data locals) g).2
      unfold encryptNode
      rw [run_lift_bind]
      cases hcrypto : η.crypto with
      | error e => exact .stays ..
      | ok _ =>
        dsimp only
        rw [run_lift_bind]
        cases data with
        | error e => exact .stays ..
        | ok bytes => exact .seals k bytes locals (by simpa using hsubtle) hcrypto
  | imported locals =>
    change Change l η g _ _ (Raise.run (encryptSubtle l η data locals) g).2
    unfold encryptSubtle
    rw [run_lift_bind]
    cases η.crypto with
    | error e => exact .stays ..
    | ok _ => cases data <;> exact .stays ..
  | sealed locals encrypted =>
    change Change l η g _ _ (Raise.run (do lift η.crypto; encryptEnd k locals.nonce encrypted) g).2
    rw [run_lift_bind]
    cases hcrypto : η.crypto with
    | error e => exact .stays ..
    | ok _ => exact .stores k data locals encrypted hcrypto
  | settled r => exact .stays ..

theorem change_nextStep (g : Vault κ) (op : Op κ) (pc : Pc κ) : Change l η g op pc (nextStep l η g op pc).2 := by
  cases pc with
  | start => exact change_firstStep g op
  | _ =>
    cases op with
    | encrypt k data => exact change_encryptStep g k data _
    | _ => exact .stays ..

/-- a step changes nothing for other keys than that of its call -/
theorem Change.lookup_of_ne {g g' : Vault κ} {op : Op κ} {pc : Pc κ} (h : Change l η g op pc g') {k : κ} (hk : op.keyId ≠ k) :
    g'.cache.lookup k = g.cache.lookup k ∧ g'.keys.lookup k = g.keys.lookup k := by
  cases h with
  | stays => exact ⟨rfl, rfl⟩
  | regenerates k' secret => exact ⟨rfl, Finmap.lookup_insert_of_ne _ (Ne.symm hk)⟩
  | generates k' data secret => exact ⟨rfl, Finmap.lookup_insert_of_ne _ (Ne.symm hk)⟩
  | seals k' bytes locals => exact ⟨Finmap.lookup_insert_of_ne _ (Ne.symm hk), rfl⟩
  | stores k' data locals encrypted => exact ⟨Finmap.lookup_insert_of_ne _ (Ne.symm hk), rfl⟩
  | rotates k' secret =>
    refine ⟨Finmap.lookup_erase_ne (Ne.symm hk), ?_⟩
    exact (Finmap.lookup_insert_of_ne _ (Ne.symm hk)).trans (Finmap.lookup_erase_ne (Ne.symm hk))
  | rotationFails k' => exact ⟨Finmap.lookup_erase_ne (Ne.symm hk), Finmap.lookup_erase_ne (Ne.symm hk)⟩
  | deletes k' => exact ⟨Finmap.lookup_erase_ne (Ne.symm hk), Finmap.lookup_erase_ne (Ne.symm hk)⟩

/-! ## Coherence -/

/-- the entry of the key, if any, belongs to it and decrypts under its current secret -/
def Coherent (l : Libs) (k : κ) (g : Vault κ) : Prop :=
  ∀ e, g.cache.lookup k = some e →
    ∃ keyData, g.keys.lookup k = some keyData ∧ e.keyId = k ∧ ∃ bytes, Decrypts l keyData.secret e bytes

/-- what holds of a suspended encryption -/
def Prepared (l : Libs) : Pc κ → Prop
  | .derived locals => locals.aesKey = deriveAesKey l locals.keyData.secret
  | .imported locals => locals.aesKey = deriveAesKey l locals.keyData.secret
  | .sealed locals encrypted => ∃ bytes, encrypted = l.aead.encrypt (deriveAesKey l locals.keyData.secret) locals.nonce bytes
  | _ => True

/-- the step writes the result of an encryption of these locals to the cache -/
def Writes (η : Host) (t : Task κ) (k : κ) (locals : Locals) : Prop :=
  η.crypto = .ok ⟨⟩ ∧ ((∃ data encrypted, t = ⟨.encrypt k data, .sealed locals encrypted⟩) ∨
    η.subtle = false ∧ ∃ bytes, t = ⟨.encrypt k (.ok bytes), .derived locals⟩)

/-- the secret that was read is still that of the key -/
def Current (g : Vault κ) (k : κ) (locals : Locals) : Prop :=
  ∃ keyData, g.keys.lookup k = some keyData ∧ keyData.secret = locals.keyData.secret

/-- a key with a cache entry is replaced by another one -/
def Regenerates (η : Host) (g : Vault κ) (t : Task κ) (k : κ) : Prop :=
  t = ⟨.generateKeyPair k, .start⟩ ∧ k ∈ g.cache ∧
    ∃ secret, η.secret = .ok secret ∧ ∀ keyData, g.keys.lookup k = some keyData → keyData.secret ≠ secret

/-- the steps that make the entry of a key stale -/
def Spoils (η : Host) (g : Vault κ) (t : Task κ) (k : κ) : Prop :=
  Regenerates η g t k ∨ ∃ locals, Writes η t k locals ∧ ¬ Current g k locals

/-- the steps that delete the entry of a key, or write one that decrypts -/
def Repairs (η : Host) (g : Vault κ) (t : Task κ) (k : κ) : Prop :=
  t = ⟨.rotateKey k, .start⟩ ∨ t = ⟨.deleteKey k, .start⟩ ∨ ∃ locals, Writes η t k locals ∧ Current g k locals

omit [DecidableEq κ] in
/-- a result decrypts under the secret that it was encrypted for -/
theorem decrypts_result (hl : l.aead.Correct) (k : κ) (secret : Vector UInt8 32) (nonce : Nonce) (bytes : Bytes) :
    Decrypts l secret (result k nonce (l.aead.encrypt (deriveAesKey l secret) nonce bytes)) bytes := by
  refine ⟨nonce, fromB64_toB64 _, ?_⟩
  dsimp only [result]
  rw [fromB64_toB64, fromB64_toB64, List.take_append_drop]
  exact hl.decrypt_encrypt _ nonce bytes

theorem coherent_store (hl : l.aead.Correct) {g : Vault κ} {k : κ} {locals : Locals} (h : Current g k locals) {encrypted : Bytes}
    (hencrypted : Prepared l (.sealed locals encrypted : Pc κ)) :
    Coherent l k (g.store k (result k locals.nonce encrypted)) := by
  obtain ⟨keyData, hkey, hsecret⟩ := h
  obtain ⟨bytes, rfl⟩ := hencrypted
  intro e he
  rw [Vault.store, Finmap.lookup_insert, Option.some.injEq] at he
  refine ⟨keyData, hkey, ?_, bytes, ?_⟩
  · rw [← he]
    rfl
  · rw [← he, hsecret]
    exact decrypts_result hl ..

theorem coherent_of_missing {g : Vault κ} {k : κ} (h : g.cache.lookup k = none) : Coherent l k g := by
  intro e he
  rw [h] at he
  cases he

/-- what happens to other keys does not matter -/
theorem Coherent.frame {g g' : Vault κ} {k : κ} (h : Coherent l k g) (hcache : g'.cache.lookup k = g.cache.lookup k)
    (hkeys : g'.keys.lookup k = g.keys.lookup k) : Coherent l k g' := by
  intro e he
  rw [hcache] at he
  rw [hkeys]
  exact h e he

theorem coherent_clear (l : Libs) (g : Vault κ) (k : κ) : Coherent l k (g.clear k) :=
  coherent_of_missing (Finmap.lookup_erase k g.cache)

theorem coherent_clear_install (l : Libs) (g : Vault κ) (k : κ) (secret : Vector UInt8 32) :
    Coherent l k ((g.clear k).install l k secret) := coherent_of_missing (Finmap.lookup_erase k g.cache)

/-- a key with the secret it had, or without an entry, may be replaced -/
theorem coherent_install {g : Vault κ} {k : κ} (h : Coherent l k g) {secret : Vector UInt8 32}
    (hsame : k ∈ g.cache → ∃ keyData, g.keys.lookup k = some keyData ∧ keyData.secret = secret) :
    Coherent l k (g.install l k secret) := by
  intro e he
  obtain ⟨keyData, hkey, hid, hdecrypts⟩ := h e he
  obtain ⟨keyData', hkey', hsecret⟩ := hsame (Finmap.mem_of_lookup_eq_some he)
  rw [hkey, Option.some.injEq] at hkey'
  refine ⟨⟨l.sha256 secret.toList, secret⟩, Finmap.lookup_insert _, hid, ?_⟩
  rw [← hsecret, ← hkey']
  exact hdecrypts

/-- a step that does not spoil the entry of a key keeps it coherent -/
theorem Coherent.keep (hl : l.aead.Correct) {g : Vault κ} {k : κ} (h : Coherent l k g) {op : Op κ} {pc : Pc κ}
    (hpc : Prepared l pc) (hno : ¬ Spoils η g ⟨op, pc⟩ k) : Coherent l k (nextStep l η g op pc).2 := by
  have hwrite : ∀ locals, Writes η ⟨op, pc⟩ k locals → Current g k locals := by
    intro locals hw
    by_contra hcurrent
    exact hno (Or.inr ⟨locals, hw, hcurrent⟩)
  have hchange := change_nextStep (l := l) (η := η) g op pc
  generalize (nextStep l η g op pc).2 = g' at hchange ⊢
  by_cases hk : op.keyId = k
  · subst hk
    cases hchange with
    | stays => exact h
    | regenerates k secret hsecret =>
      refine coherent_install h fun hentry => ?_
      by_contra hother
      refine hno (Or.inl ⟨rfl, hentry, secret, hsecret, fun keyData hkey hsame => ?_⟩)
      exact hother ⟨keyData, hkey, hsame⟩
    | generates k data secret _ hmissing =>
      refine coherent_install h fun hentry => ?_
      -- a coherent entry has a key
      obtain ⟨e, he⟩ := Finmap.mem_iff.1 hentry
      obtain ⟨keyData, hkey, -⟩ := h e he
      cases hmissing.symm.trans hkey
    | seals k bytes locals hsubtle hcrypto =>
      refine coherent_store hl (hwrite locals ⟨hcrypto, Or.inr ⟨hsubtle, bytes, rfl⟩⟩) ⟨bytes, ?_⟩
      rw [show locals.aesKey = _ from hpc]
    | stores k data locals encrypted hcrypto =>
      exact coherent_store hl (hwrite locals ⟨hcrypto, Or.inl ⟨data, encrypted, rfl⟩⟩) hpc
    | rotates k secret => exact coherent_clear_install l g k secret
    | rotationFails k => exact coherent_clear l g k
    | deletes k => exact coherent_clear l g k
  · obtain ⟨hcache, hkeys⟩ := hchange.lookup_of_ne hk
    exact h.frame hcache hkeys

/-- a step that repairs the entry of a key makes it coherent, whatever it was -/
theorem coherent_of_repairs (hl : l.aead.Correct) {g : Vault κ} {k : κ} {op : Op κ} {pc : Pc κ} (hpc : Prepared l pc)
    (h : Repairs η g ⟨op, pc⟩ k) : Coherent l k (nextStep l η g op pc).2 := by
  rcases h with ht | ht | ⟨locals, ⟨hcrypto, ⟨data, encrypted, ht⟩ | ⟨hsubtle, bytes, ht⟩⟩, hcurrent⟩
  all_goals cases ht
  · change Coherent l k (Raise.run (generateKeyPair l η k) (g.clear k)).2
    rw [run_generateKeyPair]
    cases η.secret with
    | ok secret => exact coherent_clear_install l g k secret
    | error e => exact coherent_clear l g k
  · exact coherent_clear l g k
  · change Coherent l k (Raise.run (do lift η.crypto; encryptEnd k locals.nonce encrypted) g).2
    rw [run_lift_bind, hcrypto]
    exact coherent_store hl hcurrent hpc
  · change Coherent l k (encryptStep l η g k (.ok bytes) (.derived locals)).2
    unfold encryptStep
    dsimp only
    rw [hsubtle]
    change Coherent l k (Raise.run (encryptNode l η k (.ok bytes) locals) g).2
    unfold encryptNode
    rw [run_lift_bind, hcrypto]
    refine coherent_store hl hcurrent ⟨bytes, ?_⟩
    rw [show locals.aesKey = _ from hpc]

omit [DecidableEq κ] in
/-- an encryption that suspends is prepared for its next step -/
theorem prepared_goes {α : Type} {x : VaultM κ α} {next : α → Pc κ} {g : Vault κ}
    (h : ∀ a, (Raise.run x g).1 = .ok a → Prepared l (next a)) : Prepared l (goes x next g).1 := by
  unfold goes
  cases hx : (Raise.run x g).1 with
  | ok a => exact h a hx
  | error e => exact trivial

theorem prepared_nextStep {g : Vault κ} {op : Op κ} {pc : Pc κ} (h : Prepared l pc) : Prepared l (nextStep l η g op pc).1 := by
  have hsettles : ∀ {α : Type} (x : VaultM κ α) (value : α → Value κ), Prepared l (settles x value g).1 :=
    fun x value => prepared_goes fun _ _ => trivial
  cases pc with
  | start =>
    cases op with
    | encrypt k data =>
      refine prepared_goes fun a ha => ?_
      unfold encryptBegin at ha
      rw [run_get_bind] at ha
      cases hk : g.keys.lookup k with
      | some keyData =>
        simp only [hk, lift_bind_ok_iff, run_pure, Except.ok.injEq] at ha
        obtain ⟨nonce, -, rfl⟩ := ha
        rfl
      | none =>
        simp only [hk, bind_ok_iff, run_pure, Except.ok.injEq] at ha
        obtain ⟨-, -, rfl⟩ := ha
        exact trivial
    | _ => exact hsettles ..
  | generated =>
    cases op with
    | encrypt k data =>
      refine prepared_goes fun locals hlocals => ?_
      unfold encryptGenerated at hlocals
      rw [run_get_bind, lift_bind_ok_iff] at hlocals
      obtain ⟨nonce, -, hlocals⟩ := hlocals
      cases hk : g.keys.lookup k with
      | some keyData =>
        rw [hk] at hlocals
        cases hlocals
        rfl
      | none =>
        rw [hk] at hlocals
        cases hlocals
    | _ => exact trivial
  | derived locals =>
    cases op with
    | encrypt k data =>
      change Prepared l (encryptStep l η g k data (.derived locals)).1
      unfold encryptStep
      dsimp only
      split_ifs
      · exact h
      · exact hsettles ..
    | _ => exact h
  | imported locals =>
    cases op with
    | encrypt k data =>
      refine prepared_goes fun encrypted hencrypted => ?_
      unfold encryptSubtle at hencrypted
      simp only [lift_bind_ok_iff, run_pure, Except.ok.injEq] at hencrypted
      obtain ⟨-, -, bytes, -, rfl⟩ := hencrypted
      exact ⟨bytes, by rw [show locals.aesKey = _ from h]⟩
    | _ => exact h
  | sealed locals encrypted =>
    cases op with
    | encrypt k data => exact hsettles ..
    | _ => exact h
  | settled r => cases op <;> exact trivial

/-! ## Schedules -/

abbrev Sys (κ τ : Type) := Threads.Sys (Vault κ) (Task κ) τ

def Sys.start (ops : τ → Op κ) : Sys κ τ := ⟨Vault.new, fun i => ⟨ops i, .start⟩⟩

/-- no call is in progress -/
def Quiet (s : Sys κ τ) : Prop := ∀ i, (s.threads i).pc = .start ∨ ∃ r, (s.threads i).pc = .settled r

/-- **On every schedule of any calls, at every moment, the cache entry of a key decrypts under the current secret of the key,
unless a step has spoilt it and none has repaired it since.** -/
theorem cache_coherent (hl : l.aead.Correct) (ops : τ → Op κ) (run : List (τ × Host)) (k : κ)
    (h : ¬ Run.Since (Threads.step (exec l)) (fun s a => Spoils a.2 s.shared (s.threads a.1) k)
      (fun s a => Repairs a.2 s.shared (s.threads a.1) k) (Sys.start ops) run) :
    Coherent l k (Run.after (Threads.step (exec l)) (Sys.start ops) run).shared := by
  have hinv : ∀ (s : Sys κ τ) (a : τ × Host), (∀ i, Prepared l (s.threads i).pc) →
      ∀ i, Prepared l ((Threads.step (exec l) s a).threads i).pc := by
    intro s a hs i
    by_cases hi : i = a.1
    · rw [hi, Threads.step_self]
      exact prepared_nextStep (hs a.1)
    · rw [Threads.step_other hi]
      exact hs i
  have hstart : ∀ i, Prepared l ((Sys.start ops).threads i).pc := fun _ => trivial
  have hempty : Coherent l k (Sys.start ops).shared := coherent_of_missing rfl
  refine Run.of_not_since (fun s : Sys κ τ => ∀ i, Prepared l (s.threads i).pc) (fun s => Coherent l k s.shared) hinv ?_ ?_
    hstart hempty h
  · intro s a hs hcoherent hno
    exact hcoherent.keep hl (hs a.1) hno
  · intro s a hs hrepairs _
    exact coherent_of_repairs hl (hs a.1) hrepairs

/-- a checksum and a cipher that shows its key -/
def sumLibs : Libs where
  sha256 b := Vector.replicate 32 (b.foldl (· + ·) 0)
  aead := Aead.tagged.comap fun d => d.toList.headD 0

theorem sumLibs_correct : sumLibs.aead.Correct := Aead.tagged_correct.comap _

/-- random bytes that are all the same, and no WebCrypto -/
def constHost (b : UInt8) : Host := ⟨.ok (Vector.replicate 32 b), .ok (Vector.replicate 12 b), false, .ok ⟨⟩⟩

/-- the cache entry of 9 under the secret of 32 ones -/
def staleEntry : Encrypted String :=
  result "k" (Vector.replicate 12 1)
    (sumLibs.aead.encrypt (deriveAesKey sumLibs (Vector.replicate 32 1)) (Vector.replicate 12 1) [9])

theorem cache_coherent_k : ∃ e, (Run.after (Threads.step (exec sumLibs)) (Sys.start fun _ : Unit => Op.encrypt "k" (.ok [9]))
    [((), constHost 1), ((), constHost 1), ((), constHost 1)]).shared.cache.lookup "k" = some e ∧
      ∃ bytes, Decrypts sumLibs (Vector.replicate 32 1) e bytes := by
  have hrun : Run.EachStep (Threads.step (exec sumLibs)) (fun s a => ¬ Spoils a.2 s.shared (s.threads a.1) "k")
      (Sys.start fun _ : Unit => Op.encrypt "k" (.ok [9])) [((), constHost 1), ((), constHost 1), ((), constHost 1)] := by
    refine Run.eachStep_cons.2 ⟨?_, Run.eachStep_cons.2 ⟨?_, Run.eachStep_cons.2 ⟨?_, Run.eachStep_nil _⟩⟩⟩
    all_goals
      intro h
      rcases h with ⟨ht, -⟩ | ⟨locals, ⟨-, ⟨data, encrypted, ht⟩ | ⟨-, bytes, ht⟩⟩, hno⟩
    all_goals try cases (Task.mk.inj ht).1
    all_goals try cases (Task.mk.inj ht).2
    exact hno ⟨⟨Vector.replicate 32 32, Vector.replicate 32 1⟩, by decide +kernel, rfl⟩
  have hentry : (Run.after (Threads.step (exec sumLibs)) (Sys.start fun _ : Unit => Op.encrypt "k" (.ok [9]))
      [((), constHost 1), ((), constHost 1), ((), constHost 1)]).shared.cache.lookup "k" = some staleEntry := by decide +kernel
  have hkey : (Run.after (Threads.step (exec sumLibs)) (Sys.start fun _ : Unit => Op.encrypt "k" (.ok [9]))
      [((), constHost 1), ((), constHost 1), ((), constHost 1)]).shared.keys.lookup "k" =
        some ⟨Vector.replicate 32 32, Vector.replicate 32 1⟩ := by decide +kernel
  obtain ⟨keyData, hkey', -, hdecrypts⟩ := cache_coherent sumLibs_correct _ _ "k" hrun.not_since staleEntry hentry
  rw [hkey, Option.some.injEq] at hkey'
  rw [← hkey'] at hdecrypts
  exact ⟨staleEntry, hentry, hdecrypts⟩

/-- an encryption, and a call that changes its key -/
def staleOps (op : Op String) : Bool → Op String
  | false => .encrypt "k" (.ok [9])
  | true => op

/-- an encryption, then a generation of its key -/
def regenerated : Sys String Bool :=
  Run.after (Threads.step (exec sumLibs)) (Sys.start (staleOps (.generateKeyPair "k")))
    [(false, constHost 1), (false, constHost 1), (false, constHost 1), (true, constHost 2)]

/-- a deletion of the key before the last step of an encryption -/
def deletedMeanwhile : Sys String Bool :=
  Run.after (Threads.step (exec sumLibs)) (Sys.start (staleOps (.deleteKey "k")))
    [(false, constHost 1), (false, constHost 1), (true, constHost 2), (false, constHost 1)]

/-- in the first state the entry does not decrypt, in the second it has no key -/
theorem stale_entries :
    (Quiet regenerated ∧ ¬ Coherent sumLibs "k" regenerated.shared) ∧
      Quiet deletedMeanwhile ∧ ¬ Coherent sumLibs "k" deletedMeanwhile.shared := by
  refine ⟨⟨?_, ?_⟩, ?_, ?_⟩
  · intro i
    refine Or.inr ?_
    cases i
    · exact ⟨.ok (.encrypted staleEntry), by decide +kernel⟩
    · exact ⟨.ok (.keyPair ⟨"k", toB64 (List.replicate 32 64), toB64 (List.replicate 32 2)⟩), by decide +kernel⟩
  · intro h
    obtain ⟨keyData, hkey, -, bytes, nonce, -, hdecrypt⟩ := h staleEntry (by decide +kernel)
    have hkey' : regenerated.shared.keys.lookup "k" = some ⟨Vector.replicate 32 64, Vector.replicate 32 2⟩ := by decide +kernel
    rw [hkey', Option.some.injEq] at hkey
    rw [← hkey] at hdecrypt
    -- the cipher does not look at the nonce
    have hnone : sumLibs.aead.decrypt (deriveAesKey sumLibs (Vector.replicate 32 2)) (Vector.replicate 12 0)
        (fromB64 staleEntry.ciphertext ++ fromB64 staleEntry.authTag) = none := by decide +kernel
    cases hdecrypt.symm.trans hnone
  · intro i
    refine Or.inr ?_
    cases i
    · exact ⟨.ok (.encrypted staleEntry), by decide +kernel⟩
    · exact ⟨.ok .undefined, by decide +kernel⟩
  · intro h
    obtain ⟨keyData, hkey, -⟩ := h staleEntry (by decide +kernel)
    have hmissing : deletedMeanwhile.shared.keys.lookup "k" = none := by decide +kernel
    cases hkey.symm.trans hmissing

end AbirGuard.Js
