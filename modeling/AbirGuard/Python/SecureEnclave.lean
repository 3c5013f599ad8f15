/-
What does accepted evidence say about the model that runs in an enclave?

The measurement is the digest of the vendor's root, the model hash and the nonce, one behind the other
(`secure_enclave_llm.py`). The verifier computes it again with the constructor of evidence, which refuses unknown vendors.

- `verifyEvidence_createEvidence`: one's own evidence is accepted while it is not too old.
- `verifyEvidence_true_iff`: what is accepted.
- `verifyEvidence_sound_iff`: when evidence is fresh, names one model and is verified without an exception.
- `ambiguous_evidence`: evidence from the future, evidence for two models, an unknown vendor.
-/
import AbirGuard.Core.Dict
import AbirGuard.Python.Lang
import Mathlib.Tactic.Linarith

namespace AbirGuard.Python.SecureEnclave

open AbirGuard.Core

/-! ## Model -/

/-- a float that a peer may send -/
inductive PyFloat where
  | finite (x : ℚ)
  | posInf
  | negInf
  | nan
deriving DecidableEq

/-- `now - x` -/
def PyFloat.subFrom (now : ℚ) : PyFloat → PyFloat
  | .finite x => .finite (now - x)
  | .posInf => .negInf
  | .negInf => .posInf
  | .nan => .nan

/-- `x > n` -/
def PyFloat.exceeds (n : ℤ) : PyFloat → Bool
  | .finite x => decide ((n : ℚ) < x)
  | .posInf => true
  | .negInf => false
  | .nan => false

structure AttestationEvidence where
  provider : Text
  measurement : Text
  nonce : Text
  issuedAt : PyFloat
deriving DecidableEq

structure SecureEnclaveLLM where
  maxAgeSeconds : ℤ := 300

/-- `self._providers`: each vendor with its root -/
def providers : Dict Text String :=
  (Dict.empty.set (Text.ofString "intel-tdx") "intel-tdx-root").set (Text.ofString "amd-sev-snp") "amd-sev-snp-root"

variable (sha256 : Bytes → Digest)

/-- `create_evidence`, at the time now -/
def createEvidence (now : ℚ) (provider modelHash nonce : Text) : Except Exc AttestationEvidence :=
  match providers.get provider with
  | none => .error ⟨.valueError, "unsupported provider: " ++ provider⟩
  | some root => do
    let root ← encodeUtf8 root
    let modelBytes ← encodeUtf8 modelHash
    let nonceBytes ← encodeUtf8 nonce
    pure ⟨provider, Text.hexdigest (sha256 (root ++ modelBytes ++ nonceBytes)).toList, nonce, .finite now⟩

/-- `verify_evidence`; the clock is read again, later, for the evidence that is expected -/
def verifyEvidence (s : SecureEnclaveLLM) (now later : ℚ) (evidence : AttestationEvidence) (modelHash : Text) : Except Exc Bool :=
  let age := evidence.issuedAt.subFrom now
  if age.exceeds s.maxAgeSeconds then .ok false
  else do
    let expected ← createEvidence sha256 later evidence.provider modelHash evidence.nonce
    pure (decide (expected.measurement = evidence.measurement))

/-! ## What is accepted -/

/-- older than the window -/
def Stale (s : SecureEnclaveLLM) (now : ℚ) (e : AttestationEvidence) : Prop :=
  (e.issuedAt.subFrom now).exceeds s.maxAgeSeconds = true

/-- issued at a time, and not after now -/
def IssuedBefore (now : ℚ) (e : AttestationEvidence) : Prop := ∃ t, e.issuedAt = .finite t ∧ t ≤ now

/-- issued at a time within the window -/
def Fresh (s : SecureEnclaveLLM) (now : ℚ) (e : AttestationEvidence) : Prop :=
  ∃ t, e.issuedAt = .finite t ∧ now - s.maxAgeSeconds ≤ t ∧ t ≤ now

/-- the measurement is the digest of the root and the text -/
def Measures (root : String) (measurement text : Text) : Prop :=
  ∃ b, text.encode = some b ∧ Text.hexdigest (sha256 (utf8 root ++ b)).toList = measurement

variable {sha256} {s : SecureEnclaveLLM} {now later : ℚ} {e : AttestationEvidence} {m : Text}

/-- evidence that is not too old is fresh, unless it comes from the future or from no time -/
theorem fresh_iff (hstale : ¬ Stale s now e) : Fresh s now e ↔ IssuedBefore now e := by
  refine ⟨fun ⟨t, ht, _, hle⟩ => ⟨t, ht, hle⟩, fun ⟨t, ht, hle⟩ => ⟨t, ht, ?_, hle⟩⟩
  rw [Stale, ht, PyFloat.subFrom, PyFloat.exceeds, decide_eq_true_iff, not_lt] at hstale
  linarith

theorem createEvidence_unknown {provider : Text} (h : providers.get provider = none) (nonce : Text) :
    createEvidence sha256 now provider m nonce = .error ⟨.valueError, "unsupported provider: " ++ provider⟩ := by
  unfold createEvidence
  rw [h]

/-- model hash and nonce go into the measurement as one text -/
theorem measurement_createEvidence (now : ℚ) {provider nonce measurement : Text} {root : String}
    (h : providers.get provider = some root) :
    (∃ c, createEvidence sha256 now provider m nonce = .ok c ∧ c.measurement = measurement) ↔
      Measures sha256 root measurement (m ++ nonce) := by
  unfold createEvidence
  rw [h, Measures, Text.encode_append]
  simp only [encodeUtf8, Text.encode_ofString]
  cases m.encode with
  | none => simp [Outcome.error_bind]
  | some a =>
    cases nonce.encode with
    | none => simp [Outcome.error_bind]
    | some b => simp [List.append_assoc]

/-- evidence is accepted if it is not too old, its vendor is known, and its measurement is that of model hash and nonce -/
theorem verifyEvidence_true_iff : verifyEvidence sha256 s now later e m = .ok true ↔
    ¬ Stale s now e ∧ ∃ root, providers.get e.provider = some root ∧ Measures sha256 root e.measurement (m ++ e.nonce) := by
  rw [verifyEvidence, Stale]
  split_ifs with hstale
  · exact iff_of_false (fun h => by cases h) fun h => h.1 hstale
  · rw [and_iff_right hstale]
    cases hroot : providers.get e.provider with
    | none =>
      rw [createEvidence_unknown hroot]
      exact iff_of_false (fun h => by cases h) fun ⟨root, h, _⟩ => by cases h
    | some root =>
      simp only [Option.some.injEq, exists_eq_left', ← measurement_createEvidence later hroot]
      cases createEvidence sha256 later e.provider m e.nonce <;> simp [Outcome.error_bind]

/-- evidence is accepted for the model that it was made for, while it is not too old -/
theorem verifyEvidence_createEvidence {issued : ℚ} {provider nonce : Text}
    (h : createEvidence sha256 issued provider m nonce = .ok e) (hage : now - issued ≤ s.maxAgeSeconds) :
    verifyEvidence sha256 s now later e m = .ok true := by
  cases hroot : providers.get provider with
  | none =>
    rw [createEvidence_unknown hroot] at h
    cases h
  | some root =>
    have hmeasures := (measurement_createEvidence issued hroot).1 ⟨e, h, rfl⟩
    -- the constructor keeps the vendor, the nonce and the time
    have hfields : e.provider = provider ∧ e.nonce = nonce ∧ e.issuedAt = .finite issued := by
      unfold createEvidence at h
      rw [hroot] at h
      obtain ⟨_, -, h⟩ := Outcome.bind_eq_ok h
      obtain ⟨_, -, h⟩ := Outcome.bind_eq_ok h
      obtain ⟨_, -, h⟩ := Outcome.bind_eq_ok h
      cases h
      exact ⟨rfl, rfl, rfl⟩
    obtain ⟨hprovider, hnonce, hissued⟩ := hfields
    refine verifyEvidence_true_iff.2 ⟨?_, root, hprovider ▸ hroot, hnonce ▸ hmeasures⟩
    simpa [Stale, hissued, PyFloat.subFrom, PyFloat.exceeds] using hage

/-- too old evidence is refused, whoever issued it -/
theorem verifyEvidence_stale (h : Stale s now e) : verifyEvidence sha256 s now later e m = .ok false := if_pos h

/-- an unknown vendor is an exception -/
theorem verifyEvidence_unknown (h : ¬ Stale s now e) (hprovider : providers.get e.provider = none) :
    verifyEvidence sha256 s now later e m = .error ⟨.valueError, "unsupported provider: " ++ e.provider⟩ := by
  rw [verifyEvidence, createEvidence_unknown hprovider]
  exact if_neg h

/-! ## Freshness and binding -/

/-- no other model hash passes with this measurement if and only if there is nothing to divide between the hash and the nonce -/
theorem names_one_model_iff {root : String} {measurement nonce : Text} (h : Measures sha256 root measurement (m ++ nonce))
    (hinj : InjAt sha256 (utf8 root)) :
    (∀ m' nonce', Measures sha256 root measurement (m' ++ nonce') → m' = m) ↔ m = [] ∧ nonce = [] := by
  constructor
  · intro hone
    -- all of it as the nonce, and all of it as the model hash
    have hm : [] = m := hone [] (m ++ nonce) h
    have happend : m ++ nonce = m := hone (m ++ nonce) [] (by rwa [List.append_nil])
    exact ⟨hm.symm, List.append_right_eq_self.1 happend⟩
  · intro ⟨hm, hnonce⟩ m' nonce' h'
    subst hm hnonce
    obtain ⟨b, hb, hdigest⟩ := h
    obtain ⟨b', hb', hdigest'⟩ := h'
    cases (show some [] = some b from hb)
    rw [List.append_nil] at hdigest
    have hsame : sha256 (utf8 root ++ b') = sha256 (utf8 root) :=
      Vector.toList_inj.1 (Text.hexdigest_injective (Text.ofString_injective (hdigest'.trans hdigest.symm)))
    have hnil : b' = [] := List.append_right_eq_self.1 (hinj _ hsame)
    have htext : m' ++ nonce' = [] := Text.encode_inj hb' (hnil ▸ rfl)
    exact (List.append_eq_nil_iff.1 htext).1

/-- **Verification gives no more than fresh evidence about one model, and no exception for an unknown vendor, if and only if the
evidence is too old, or its vendor is known and either the measurement is another one or it was issued before now with an empty
model hash and nonce.** -/
theorem verifyEvidence_sound_iff (hinj : ∀ root, providers.get e.provider = some root → InjAt sha256 (utf8 root)) :
    ((verifyEvidence sha256 s now later e m = .ok true → Fresh s now e ∧
        ∀ m' nonce', verifyEvidence sha256 s now later { e with nonce := nonce' } m' = .ok true → m' = m) ∧
      (providers.get e.provider = none → verifyEvidence sha256 s now later e m = .ok false)) ↔
    Stale s now e ∨ ∃ root, providers.get e.provider = some root ∧
      (¬ Measures sha256 root e.measurement (m ++ e.nonce) ∨ IssuedBefore now e ∧ m = [] ∧ e.nonce = []) := by
  by_cases hstale : Stale s now e
  · refine iff_of_true ⟨fun h => ?_, fun _ => verifyEvidence_stale hstale⟩ (Or.inl hstale)
    exact absurd hstale (verifyEvidence_true_iff.1 h).1
  rw [or_iff_right hstale]
  cases hroot : providers.get e.provider with
  | none =>
    refine iff_of_false (fun ⟨_, h⟩ => ?_) fun ⟨root, h, _⟩ => by cases h
    cases (verifyEvidence_unknown hstale hroot).symm.trans (h rfl)
  | some root =>
    -- what is accepted depends on the measurement only
    have haccepts : ∀ m' nonce', verifyEvidence sha256 s now later { e with nonce := nonce' } m' = .ok true ↔
        Measures sha256 root e.measurement (m' ++ nonce') := by
      intro m' nonce'
      rw [verifyEvidence_true_iff, and_iff_right (show ¬ Stale s now { e with nonce := nonce' } from hstale)]
      simp [hroot]
    rw [haccepts m e.nonce, fresh_iff hstale]
    simp only [haccepts, reduceCtorEq, false_imp_iff, and_true, Option.some.injEq, exists_eq_left']
    by_cases hmeasures : Measures sha256 root e.measurement (m ++ e.nonce)
    · simp only [hmeasures, true_imp_iff, not_true, false_or, names_one_model_iff hmeasures (hinj root hroot)]
    · exact iff_of_true (fun h => absurd h hmeasures) (Or.inl hmeasures)

theorem get_tdx : providers.get (Text.ofString "intel-tdx") = some "intel-tdx-root" := by
  rw [providers, Dict.get_set_of_ne (by decide), Dict.get_set_self]

/-- the roots of the vendors, as bytes -/
def roots : List Bytes := [utf8 "intel-tdx-root", utf8 "amd-sev-snp-root"]

theorem root_mem {provider : Text} {root : String} (h : providers.get provider = some root) : utf8 root ∈ roots := by
  rw [providers] at h
  by_cases hamd : Text.ofString "amd-sev-snp" = provider
  · rw [hamd, Dict.get_set_self] at h
    cases h
    simp [roots]
  · rw [Dict.get_set_of_ne hamd] at h
    by_cases htdx : Text.ofString "intel-tdx" = provider
    · rw [htdx, Dict.get_set_self] at h
      cases h
      simp [roots]
    · rw [Dict.get_set_of_ne htdx, Dict.get_empty] at h
      cases h

/-- evidence about an empty model hash with an empty nonce -/
def emptyEvidence : AttestationEvidence :=
  ⟨"intel-tdx", Text.hexdigest (sha256On roots (utf8 "intel-tdx-root")).toList, [], .finite 100⟩

theorem verifyEvidence_sound_iff_empty :
    (verifyEvidence (sha256On roots) ⟨300⟩ 200 201 emptyEvidence [] = .ok true → Fresh ⟨300⟩ 200 emptyEvidence ∧
      ∀ m' nonce', verifyEvidence (sha256On roots) ⟨300⟩ 200 201 { emptyEvidence with nonce := nonce' } m' = .ok true → m' = []) ∧
    (providers.get emptyEvidence.provider = none →
      verifyEvidence (sha256On roots) ⟨300⟩ 200 201 emptyEvidence [] = .ok false) := by
  have hinj : ∀ root, providers.get emptyEvidence.provider = some root → InjAt (sha256On roots) (utf8 root) :=
    fun root h => injAt_sha256On (by decide +kernel) (by decide +kernel) (root_mem h)
  have hissued : IssuedBefore 200 emptyEvidence := ⟨100, rfl, by norm_num⟩
  exact (verifyEvidence_sound_iff hinj).2 (Or.inr ⟨"intel-tdx-root", get_tdx, Or.inr ⟨hissued, rfl, rfl⟩⟩)

/-- evidence is accepted for every model hash that its text begins with, if the nonce is the rest -/
theorem verifyEvidence_of_split {root text : String} (hstale : ¬ Stale s now e) (hroot : providers.get e.provider = some root)
    (hmeasurement : e.measurement = Text.ofString (Text.hexdigest (sha256 (utf8 root ++ utf8 text)).toList))
    (hsplit : m ++ e.nonce = Text.ofString text) : verifyEvidence sha256 s now later e m = .ok true := by
  refine verifyEvidence_true_iff.2 ⟨hstale, root, hroot, utf8 text, ?_, hmeasurement.symm⟩
  rw [hsplit, Text.encode_ofString]

/-- evidence about the text "abc" with a nonce, issued at the time 1000 -/
def futureEvidence (nonce : Text) : AttestationEvidence :=
  ⟨"intel-tdx", Text.hexdigest (Core.sha256 (utf8 "intel-tdx-root" ++ utf8 "abc")).toList, nonce, .finite 1000⟩

/-- at the time 0 it is accepted for "ab" with the nonce "c", and for "a" with "bc"; with another vendor the verifier raises -/
theorem ambiguous_evidence :
    verifyEvidence Core.sha256 ⟨300⟩ 0 0 (futureEvidence "c") "ab" = .ok true ∧ ¬ Fresh ⟨300⟩ 0 (futureEvidence "c") ∧
    verifyEvidence Core.sha256 ⟨300⟩ 0 0 { futureEvidence "c" with nonce := "bc" } "a" = .ok true ∧
    verifyEvidence Core.sha256 ⟨300⟩ 0 0 { futureEvidence "c" with provider := "sgx" } "ab" =
      .error ⟨.valueError, "unsupported provider: sgx"⟩ := by
  have hstale (nonce : Text) : ¬ Stale ⟨300⟩ 0 (futureEvidence nonce) := by
    simp [Stale, futureEvidence, PyFloat.subFrom, PyFloat.exceeds]
    norm_num
  have hmeasurement (nonce : Text) : (futureEvidence nonce).measurement =
      Text.ofString (Text.hexdigest (Core.sha256 (utf8 "intel-tdx-root" ++ utf8 "abc")).toList) := by
    rw [futureEvidence]
  have hab : Text.ofString "ab" ++ Text.ofString "c" = Text.ofString "abc" := by decide
  have hbc : Text.ofString "a" ++ Text.ofString "bc" = Text.ofString "abc" := by decide
  have hsgx : providers.get (Text.ofString "sgx") = none := by
    rw [providers, Dict.get_set_of_ne (by decide), Dict.get_set_of_ne (by decide), Dict.get_empty]
  refine ⟨?_, ?_, ?_, ?_⟩
  · exact verifyEvidence_of_split (hstale "c") get_tdx (hmeasurement "c") hab
  · intro ⟨t, ht, _, hle⟩
    cases ht
    norm_num at hle
  · have hnonce : ({ futureEvidence "c" with nonce := "bc" } : AttestationEvidence) = futureEvidence "bc" := by
      rw [futureEvidence, futureEvidence]
    rw [hnonce]
    exact verifyEvidence_of_split (hstale "bc") get_tdx (hmeasurement "bc") hbc
  · have hmsg : Text.ofString "unsupported provider: " ++ Text.ofString "sgx" = Text.ofString "unsupported provider: sgx" :=
      (Text.ofString_append _ _).symm
    rw [← hmsg]
    exact verifyEvidence_unknown (e := { futureEvidence "c" with provider := "sgx" }) (hstale "c") hsgx

end AbirGuard.Python.SecureEnclave
