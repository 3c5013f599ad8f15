/-
Sealed storage of SGX (`sgx/sealed_storage.rs`, with the registers of `sgx/mod.rs`): what opens after restarts.

A blob carries the registers that it asks for; the storage has those of the running enclave, which change when it is restarted
with another configuration. Sealing is not implemented: a blob has the bytes as they are, and nothing in it is authenticated.

- `matchesPolicy_iff`: what a policy asks for.
- `sealed_blob_opens`: a blob that was sealed at any time and written to a file opens at any later time, in any storage, if and
  only if the registers set last are those that it asks for; a changed policy takes its place.
- `get_cached_iff`: the cache has the blob that was put under an id last.
-/
import AbirGuard.Core.KeyStore
import AbirGuard.Core.Serde

namespace AbirGuard.Rust.Sgx

open AbirGuard.Core Serde

/-! ## Model -/

inductive EnclaveError where
  | sealedStorageError (reason : String)
deriving DecidableEq, Repr

abbrev Register := Vector UInt8 32

structure PcrValues where
  pcr0 : Register
  pcr1 : Register
  pcr2 : Register
deriving DecidableEq, Repr

structure PcrPolicy where
  pcr0 : Option Register
  pcr1 : Option Register
  pcr2 : Option Register
deriving DecidableEq, Repr

def PcrPolicy.any : PcrPolicy := ⟨none, none, none⟩

def PcrPolicy.strict (pcr0 pcr1 pcr2 : Register) : PcrPolicy := ⟨some pcr0, some pcr1, some pcr2⟩

def PcrValues.matchesPolicy (self : PcrValues) (policy : PcrPolicy) : Bool :=
  if policy.pcr0.any fun expected => self.pcr0 ≠ expected then false
  else if policy.pcr1.any fun expected => self.pcr1 ≠ expected then false
  else if policy.pcr2.any fun expected => self.pcr2 ≠ expected then false
  else true

structure SealedDataBlob where
  nonce : Bytes
  ciphertext : Bytes
  authTag : Bytes
  pcrPolicy : PcrPolicy
  aad : Option Bytes
deriving DecidableEq, Repr

namespace SealedDataBlob

def NONCE_SIZE : ℕ := 12

def AUTH_TAG_SIZE : ℕ := 16

def new (nonce ciphertext authTag : Bytes) (pcrPolicy : PcrPolicy) : SealedDataBlob :=
  ⟨nonce, ciphertext, authTag, pcrPolicy, none⟩

def withAad (self : SealedDataBlob) (aad : Bytes) : SealedDataBlob := { self with aad := some aad }

end SealedDataBlob

/-! ### JSON -/

section Json

variable {F : Type}

theorem list_write_ne_null {α : Type} (f : Format F α) (l : List α) : f.list.write l ≠ .null := nofun

theorem vector_write_ne_null {α : Type} {n : ℕ} (f : Format F α) (v : Vector α n) : (Format.vector n f).write v ≠ .null := nofun

def policyFields : Fields F (Option Register × Option Register × Option Register) :=
  (Fields.optionField "pcr0" (.vector 32 .uint8) (vector_write_ne_null _)).and
    ((Fields.optionField "pcr1" (.vector 32 .uint8) (vector_write_ne_null _)).and
      (.optionField "pcr2" (.vector 32 .uint8) (vector_write_ne_null _)))

theorem nodup_policyFields : (policyFields : Fields F _).names.Nodup := by
  have hnames : ["pcr0", "pcr1", "pcr2"].Nodup := by decide
  exact hnames

def policyFormat : Format F PcrPolicy :=
  (policyFields.record nodup_policyFields).represent (fun p => ⟨p.1, p.2.1, p.2.2⟩) (fun p => (p.pcr0, p.pcr1, p.pcr2))
    fun _ => rfl

def blobFields : Fields F (Bytes × Bytes × Bytes × PcrPolicy × Option Bytes) :=
  (Fields.field "nonce" .bytes).and ((Fields.field "ciphertext" .bytes).and ((Fields.field "auth_tag" .bytes).and
    ((Fields.field "pcr_policy" policyFormat).and (.optionField "aad" .bytes (list_write_ne_null _)))))

theorem nodup_blobFields : (blobFields : Fields F _).names.Nodup := by
  have hnames : ["nonce", "ciphertext", "auth_tag", "pcr_policy", "aad"].Nodup := by decide
  exact hnames

def blobFormat : Format F SealedDataBlob :=
  (blobFields.record nodup_blobFields).represent (fun p => ⟨p.1, p.2.1, p.2.2.1, p.2.2.2.1, p.2.2.2.2⟩)
    (fun b => (b.nonce, b.ciphertext, b.authTag, b.pcrPolicy, b.aad)) fun _ => rfl

variable (w : Wire F)

/-- the error of writing is one that no blob has -/
def SealedDataBlob.toBytes (self : SealedDataBlob) : Except EnclaveError Bytes := .ok (Serde.toBytes w blobFormat self)

def SealedDataBlob.fromBytes (data : Bytes) : Except EnclaveError SealedDataBlob :=
  (Serde.fromBytes w blobFormat data).mapError fun e => .sealedStorageError s!"Deserialization failed: {e}"

end Json

/-! ### The storage -/

structure SealedStorage where
  cache : Dict String SealedDataBlob
  currentPcr : PcrValues

namespace SealedStorage

def new (pcrValues : PcrValues) : SealedStorage := ⟨Dict.empty, pcrValues⟩

variable (self : SealedStorage)

def sealKey (keyId : String) (plaintext : Bytes) (pcrPolicy : PcrPolicy) : Except EnclaveError SealedDataBlob × SealedStorage :=
  let blob := SealedDataBlob.new (List.replicate SealedDataBlob.NONCE_SIZE 0) plaintext
    (List.replicate SealedDataBlob.AUTH_TAG_SIZE 0) pcrPolicy
  (.ok blob, { self with cache := self.cache.set keyId blob })

def unsealBlob (blob : SealedDataBlob) : Except EnclaveError Bytes :=
  if !self.currentPcr.matchesPolicy blob.pcrPolicy then
    .error (.sealedStorageError "Current PCR values don't match sealing policy")
  else .ok blob.ciphertext

def cacheBlob (keyId : String) (blob : SealedDataBlob) : SealedStorage := { self with cache := self.cache.set keyId blob }

def getCached (keyId : String) : Option SealedDataBlob := self.cache.get keyId

def clearCache : SealedStorage := { self with cache := Dict.empty }

def cacheSize : ℕ := self.cache.keys.length

def updatePcr (newPcr : PcrValues) : SealedStorage := { self with currentPcr := newPcr }

end SealedStorage

/-- a store of keys is a storage -/
structure SealedKeyStore where
  storage : SealedStorage

namespace SealedKeyStore

def new (pcrValues : PcrValues) : SealedKeyStore := ⟨.new pcrValues⟩

variable (self : SealedKeyStore)

def storePrivateKey (keyId : String) (privateKeyBytes : Bytes) (pcrPolicy : Option PcrPolicy) :
    Except EnclaveError SealedDataBlob × SealedKeyStore :=
  let policy := pcrPolicy.getD .any
  let r := self.storage.sealKey keyId privateKeyBytes policy
  (r.1, ⟨r.2⟩)

def retrievePrivateKey (blob : SealedDataBlob) : Except EnclaveError Bytes := self.storage.unsealBlob blob

def canRetrieve (blob : SealedDataBlob) : Bool := self.storage.currentPcr.matchesPolicy blob.pcrPolicy

end SealedKeyStore

inductive Call where
  | sealKey (keyId : String) (plaintext : Bytes) (pcrPolicy : PcrPolicy)
  | unsealBlob (blob : SealedDataBlob)
  | cacheBlob (keyId : String) (blob : SealedDataBlob)
  | clearCache
  | updatePcr (newPcr : PcrValues)

def step (s : SealedStorage) : Call → SealedStorage
  | .sealKey keyId plaintext pcrPolicy => (s.sealKey keyId plaintext pcrPolicy).2
  | .unsealBlob _ => s
  | .cacheBlob keyId blob => s.cacheBlob keyId blob
  | .clearCache => s.clearCache
  | .updatePcr newPcr => s.updatePcr newPcr

/-! ## Policies -/

/-- a register that is named is as expected -/
def Agrees (expected : Option Register) (value : Register) : Prop := ∀ v ∈ expected, v = value

instance (expected : Option Register) (value : Register) : Decidable (Agrees expected value) :=
  inferInstanceAs (Decidable (∀ v ∈ expected, v = value))

/-- every register that the policy names is as expected -/
structure Allows (policy : PcrPolicy) (values : PcrValues) : Prop where
  pcr0 : Agrees policy.pcr0 values.pcr0
  pcr1 : Agrees policy.pcr1 values.pcr1
  pcr2 : Agrees policy.pcr2 values.pcr2

theorem any_ne_eq_false_iff {expected : Option Register} {value : Register} :
    (expected.any fun v => decide (value ≠ v)) = false ↔ Agrees expected value := by
  cases expected with
  | none => exact iff_of_true rfl fun v hv => by cases hv
  | some v =>
    rw [Option.any_some, decide_eq_false_iff_not, not_not, Agrees]
    exact ⟨fun h w hw => by cases hw; exact h.symm, fun h => (h v rfl).symm⟩

theorem allows_iff {policy : PcrPolicy} {values : PcrValues} : Allows policy values ↔
    Agrees policy.pcr0 values.pcr0 ∧ Agrees policy.pcr1 values.pcr1 ∧ Agrees policy.pcr2 values.pcr2 :=
  ⟨fun h => ⟨h.pcr0, h.pcr1, h.pcr2⟩, fun h => ⟨h.1, h.2.1, h.2.2⟩⟩

instance (policy : PcrPolicy) (values : PcrValues) : Decidable (Allows policy values) :=
  decidable_of_iff _ allows_iff.symm

theorem matchesPolicy_iff {values : PcrValues} {policy : PcrPolicy} :
    values.matchesPolicy policy = true ↔ Allows policy values := by
  rw [allows_iff, ← any_ne_eq_false_iff, ← any_ne_eq_false_iff, ← any_ne_eq_false_iff, PcrValues.matchesPolicy]
  generalize (policy.pcr0.any fun v => decide (values.pcr0 ≠ v)) = b0
  generalize (policy.pcr1.any fun v => decide (values.pcr1 ≠ v)) = b1
  generalize (policy.pcr2.any fun v => decide (values.pcr2 ≠ v)) = b2
  cases b0 <;> cases b1 <;> cases b2 <;> simp

theorem agrees_none (value : Register) : Agrees none value := fun _ h => by cases h

theorem allows_any (values : PcrValues) : Allows .any values := ⟨agrees_none _, agrees_none _, agrees_none _⟩

/-- what unsealing gives, by the policy of the blob -/
theorem unsealBlob_eq (s : SealedStorage) (blob : SealedDataBlob) :
    s.unsealBlob blob = if Allows blob.pcrPolicy s.currentPcr then .ok blob.ciphertext
      else .error (.sealedStorageError "Current PCR values don't match sealing policy") := by
  by_cases h : Allows blob.pcrPolicy s.currentPcr
  · rw [if_pos h, SealedStorage.unsealBlob, matchesPolicy_iff.2 h]
    rfl
  · have hmatch := (Bool.not_eq_true _).mp fun hm => h (matchesPolicy_iff.1 hm)
    rw [if_neg h, SealedStorage.unsealBlob, hmatch]
    rfl

/-! ## Runs -/

/-- the blob of a sealed key: its bytes as they are -/
def sealedBlob (plaintext : Bytes) (policy : PcrPolicy) : SealedDataBlob :=
  ⟨List.replicate 12 0, plaintext, List.replicate 16 0, policy, none⟩

def Call.newPcr? : Call → Option PcrValues
  | .updatePcr newPcr => some newPcr
  | _ => none

/-- the registers set last -/
def lastPcr (start : PcrValues) (calls : List Call) : PcrValues := ((calls.filterMap Call.newPcr?).getLast?).getD start

/-- what a call does to the cache -/
def Call.effect : Call → Option (KeyStore.Effect String SealedDataBlob)
  | .sealKey keyId plaintext pcrPolicy => some (.put keyId (sealedBlob plaintext pcrPolicy))
  | .cacheBlob keyId blob => some (.put keyId blob)
  | .clearCache => some .clear
  | .unsealBlob _ => none
  | .updatePcr _ => none

def Call.Touches (keyId : String) (c : Call) : Prop := ∃ e ∈ c.effect, e.Touches keyId

theorem currentPcr_step (s : SealedStorage) (c : Call) : (step s c).currentPcr = c.newPcr?.getD s.currentPcr := by
  cases c <;> rfl

theorem lastPcr_snoc (start : PcrValues) (calls : List Call) (c : Call) :
    lastPcr start (calls ++ [c]) = c.newPcr?.getD (lastPcr start calls) := by
  rw [lastPcr, List.filterMap_append]
  cases hc : c.newPcr? with
  | none => rw [List.filterMap_cons_none hc, List.filterMap_nil, List.append_nil, Option.getD_none, lastPcr]
  | some v =>
    rw [List.filterMap_cons_some hc, List.filterMap_nil, List.getLast?_append, List.getLast?_singleton, Option.some_or]
    rfl

theorem currentPcr_after (s : SealedStorage) (calls : List Call) :
    (Run.after step s calls).currentPcr = lastPcr s.currentPcr calls := by
  induction calls using List.reverseRecOn with
  | nil => rfl
  | append_singleton calls c ih =>
    rw [Run.after_append, Run.after_cons, Run.after_nil, currentPcr_step, lastPcr_snoc, ih]

theorem cache_step (s : SealedStorage) (c : Call) : (step s c).cache = c.effect.elim s.cache (KeyStore.apply s.cache) := by
  cases c <;> rfl

/-- the cache has under an id what the last call that touched the id put there -/
theorem cache_after_snoc (s : SealedStorage) (calls later : List Call) {c : Call} {keyId : String} (hc : c.Touches keyId)
    (hlater : ∀ c' ∈ later, ¬ c'.Touches keyId) :
    (Run.after step s (calls ++ c :: later)).getCached keyId = c.effect.bind KeyStore.Effect.key? := by
  induction later using List.reverseRecOn with
  | nil =>
    rw [Run.after_append, Run.after_cons, Run.after_nil, SealedStorage.getCached, cache_step]
    obtain ⟨e, he, ht⟩ := hc
    obtain he := Option.mem_def.1 he
    rw [he, Option.elim_some, Option.bind_some]
    exact KeyStore.get_apply_of_touches ht
  | append_singleton later c' ih =>
    have hkeep := ih fun c hc => hlater c (List.mem_append_left _ hc)
    have hc' := hlater c' (List.mem_append_right _ (List.mem_singleton_self c'))
    rw [← List.cons_append, ← List.append_assoc, Run.after_append, Run.after_cons, Run.after_nil, SealedStorage.getCached,
      cache_step]
    cases he : c'.effect with
    | none => exact hkeep
    | some e =>
      have ht : ¬ e.Touches keyId := fun ht => hc' ⟨e, he, ht⟩
      rw [Option.elim_some, KeyStore.get_apply_of_not_touches ht]
      exact hkeep

/-! ## What opens -/

/-- what a blob gives where the registers were last set to `values` -/
def opened (policy : PcrPolicy) (values : PcrValues) (plaintext : Bytes) : Except EnclaveError Bytes :=
  if Allows policy values then .ok plaintext
  else .error (.sealedStorageError "Current PCR values don't match sealing policy")

theorem sealKey_fst (s : SealedStorage) (keyId : String) (plaintext : Bytes) (policy : PcrPolicy) :
    (s.sealKey keyId plaintext policy).1 = .ok (sealedBlob plaintext policy) := rfl

theorem unsealBlob_after (values : PcrValues) (calls : List Call) (blob : SealedDataBlob) :
    (Run.after step (.new values) calls).unsealBlob blob = opened blob.pcrPolicy (lastPcr values calls) blob.ciphertext := by
  rw [unsealBlob_eq, currentPcr_after]
  rfl

/-- a store of keys says beforehand what it can retrieve -/
theorem canRetrieve_iff {store : SealedKeyStore} {blob : SealedDataBlob} :
    store.canRetrieve blob = true ↔ store.retrievePrivateKey blob = .ok blob.ciphertext := by
  rw [SealedKeyStore.canRetrieve, matchesPolicy_iff, SealedKeyStore.retrievePrivateKey, unsealBlob_eq]
  constructor
  · exact fun h => if_pos h
  · intro h
    by_contra hnot
    rw [if_neg hnot] at h
    cases h

/-- a key that is stored without a policy is retrieved by every store -/
theorem retrieve_of_store_without_policy (store store' : SealedKeyStore) (keyId : String) (key : Bytes) :
    (store.storePrivateKey keyId key none).1.bind store'.retrievePrivateKey = .ok key := by
  have hseal : (store.storePrivateKey keyId key none).1 = .ok (sealedBlob key .any) := rfl
  rw [hseal, Except.bind, SealedKeyStore.retrievePrivateKey, unsealBlob_eq]
  exact if_pos (allows_any _)

variable {F : Type} {w : Wire F}

theorem fromBytes_toBytes (hw : w.ReadsBack blobFormat) (blob : SealedDataBlob) :
    (blob.toBytes w).bind (SealedDataBlob.fromBytes w) = .ok blob := by
  rw [SealedDataBlob.toBytes, Except.bind, SealedDataBlob.fromBytes, Serde.fromBytes_toBytes hw]
  rfl

/--
**What is sealed opens where the registers are those it asks for, whatever happened since, and only the blob says which they
are.**

A key is sealed in some state of a storage. Its file opens in every storage, after every run, if and only if the registers set
last there are those that its policy names; the cache has it for as long as no later call seals or caches under its id or empties
the cache, and then it opens by the same rule. A file whose policy was replaced opens by the policy that is in it now.
-/
theorem sealed_opens_iff (hw : w.ReadsBack blobFormat) (values values' : PcrValues) (before later later' : List Call)
    (keyId : String) (plaintext : Bytes) (policy policy' : PcrPolicy) :
    ∃ blob, ((Run.after step (.new values) before).sealKey keyId plaintext policy).1 = .ok blob ∧
      ((blob.toBytes w).bind (SealedDataBlob.fromBytes w)).bind (Run.after step (.new values') later').unsealBlob =
        opened policy (lastPcr values' later') plaintext ∧
      (((({ blob with pcrPolicy := policy' } : SealedDataBlob).toBytes w).bind (SealedDataBlob.fromBytes w)).bind
        (Run.after step (.new values') later').unsealBlob = opened policy' (lastPcr values' later') plaintext) ∧
      ((∀ c ∈ later, ¬ c.Touches keyId) →
        let s := Run.after step (.new values) (before ++ .sealKey keyId plaintext policy :: later)
        s.getCached keyId = some blob ∧ s.unsealBlob blob = opened policy (lastPcr values (before ++ later)) plaintext) := by
  refine ⟨sealedBlob plaintext policy, sealKey_fst _ _ _ _, ?_, ?_, fun hlater => ⟨?_, ?_⟩⟩
  · rw [fromBytes_toBytes hw, Except.bind, unsealBlob_after]
    rfl
  · rw [fromBytes_toBytes hw, Except.bind, unsealBlob_after]
    rfl
  · exact cache_after_snoc _ _ _ ⟨_, rfl, rfl⟩ hlater
  · rw [unsealBlob_after]
    have hlast : lastPcr values (before ++ .sealKey keyId plaintext policy :: later) = lastPcr values (before ++ later) := by
      rw [lastPcr, lastPcr, List.filterMap_append, List.filterMap_append, List.filterMap_cons_none rfl]
    rw [hlast]
    rfl

/-- a restart with another configuration, where the file of the key still opens if its policy is dropped -/
theorem sealed_opens_iff_restarted :
    let zero : Register := Vector.replicate 32 0
    let one : Register := Vector.replicate 32 1
    let old : PcrValues := ⟨zero, zero, zero⟩
    let changed : PcrValues := ⟨one, zero, zero⟩
    ∃ blob, ((SealedStorage.new old).sealKey "k" [1, 2, 3] (.strict zero zero zero)).1 = .ok blob ∧
      ((blob.toBytes (textWire noFloats)).bind (SealedDataBlob.fromBytes (textWire noFloats))).bind
          (Run.after step (.new old) [.updatePcr changed]).unsealBlob =
        .error (.sealedStorageError "Current PCR values don't match sealing policy") ∧
      (((({ blob with pcrPolicy := .any } : SealedDataBlob).toBytes (textWire noFloats)).bind
          (SealedDataBlob.fromBytes (textWire noFloats))).bind
          (Run.after step (.new old) [.updatePcr changed]).unsealBlob = .ok [1, 2, 3]) := by
  intro zero one old changed
  obtain ⟨blob, hseal, hfile, hdropped, -⟩ := sealed_opens_iff (readsBack_textWire noFloats_lawful blobFormat) old old [] []
    [.updatePcr changed] "k" [1, 2, 3] (.strict zero zero zero) .any
  refine ⟨blob, hseal, hfile.trans ?_, hdropped.trans ?_⟩
  · exact if_neg fun h => absurd (h.pcr0 zero rfl) (by decide)
  · exact if_pos (allows_any _)

end AbirGuard.Rust.Sgx
