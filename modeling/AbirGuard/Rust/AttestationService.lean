/-
The attestation service (`attestation_service/mod.rs`) over the verifiers of SGX quotes (`sgx/quote_verifier.rs`) and of
TrustZone reports (`trustzone/attestation.rs`).

Each verifier reads the clock once; `now` is what it reads, in seconds. An age is a saturating difference: evidence with a
timestamp after `now` has age 0.

- `verifySgxQuote_ok_iff`, `verifyTrustzoneReport_ok_iff`: when evidence is accepted, and with which result.
- `accepted_admitted`: accepted evidence is of an allowed kind and sufficient trust, was valid and fresh to its own verifier,
  and is no older than either of the two limits on its age.
- `future_accepted`: evidence from the future is accepted.
- `verifyReportsBatch_counts`: passed and failed items of a batch add up to all.
-/
import AbirGuard.Core.Bytes
import AbirGuard.Core.Outcome

namespace AbirGuard.Rust.Attestation

open AbirGuard.Core

/-! ## Model -/

inductive TeeType where
  | sgx
  | trustZone
  | amdSev
  | intelTdx
deriving DecidableEq, Repr

def TeeType.debug : TeeType → String
  | .sgx => "SGX"
  | .trustZone => "TrustZone"
  | .amdSev => "AmdSev"
  | .intelTdx => "IntelTdx"

structure TeeAttestationReport where
  teeType : TeeType
  attestationData : Bytes
  timestamp : UInt64
deriving DecidableEq, Repr

/-- the part of a quote that verification reads -/
structure Quote where
  signature : Bytes
  certChain : Bytes
  timestamp : UInt64
deriving DecidableEq, Repr

structure SecurityAdvisory where
  id : String
  affectedCpus : List String
  description : String
  severity : String
  issued : String
deriving DecidableEq, Repr

structure QuoteValidationPolicy where
  maxAgeSeconds : UInt64
  requirePatchedCpu : Bool
deriving DecidableEq, Repr

structure QuoteVerificationResult where
  isValid : Bool
  signatureValid : Bool
  certChainValid : Bool
  isFresh : Bool
  cpuPatched : Bool
  advisories : List SecurityAdvisory
  verifiedAt : UInt64
  quoteAgeSeconds : UInt64
deriving DecidableEq, Repr

structure TrustZoneAttestationPolicy where
  maxAgeSeconds : UInt64
  requireFormatMarker : Bool
deriving DecidableEq, Repr

structure TrustZoneVerificationResult where
  isValid : Bool
  isFresh : Bool
  hasExpectedFormat : Bool
  reportAgeSeconds : UInt64
  verifiedAt : UInt64
deriving DecidableEq, Repr

/-- the one error of the two verifiers, with its text -/
inductive VerifierError where
  | attestationFailed (reason : String)
deriving DecidableEq, Repr

def VerifierError.display : VerifierError → String
  | .attestationFailed reason => s!"Attestation failed: {reason}"

inductive AttestationServiceError where
  | sgxVerification (reason : String)
  | trustZoneVerification (reason : String)
  | unsupportedTee (tee : TeeType)
  | policyRejected (reason : String)
deriving DecidableEq, Repr

def AttestationServiceError.display : AttestationServiceError → String
  | .sgxVerification reason => s!"sgx verification failed: {reason}"
  | .trustZoneVerification reason => s!"trustzone verification failed: {reason}"
  | .unsupportedTee tee => s!"unsupported tee type for report: {tee.debug}"
  | .policyRejected reason => s!"policy rejected attestation: {reason}"

inductive TrustLevel where
  | low
  | medium
  | high
deriving DecidableEq, Repr

def TrustLevel.debug : TrustLevel → String
  | .low => "Low"
  | .medium => "Medium"
  | .high => "High"

def TrustLevel.rank : TrustLevel → ℕ
  | .low => 1
  | .medium => 2
  | .high => 3

def TrustLevel.meetsMinimum (l minimum : TrustLevel) : Bool := minimum.rank ≤ l.rank

structure AttestationRoutingPolicy where
  allowedTees : List TeeType
  maxSgxAgeSeconds : UInt64
  maxTrustzoneAgeSeconds : UInt64
  minimumTrustLevel : TrustLevel
deriving DecidableEq, Repr

structure UnifiedAttestationResult where
  teeType : TeeType
  isValid : Bool
  isFresh : Bool
  evidenceAgeSeconds : UInt64
  trustLevel : TrustLevel
  summary : String
deriving DecidableEq, Repr

structure AttestationService where
  tzPolicy : TrustZoneAttestationPolicy
  routingPolicy : AttestationRoutingPolicy
deriving DecidableEq, Repr

/-- `now.saturating_sub(timestamp)` -/
def age (now timestamp : UInt64) : UInt64 := if timestamp ≤ now then now - timestamp else 0

/-! ### The verifier of quotes -/

def QuoteValidationPolicy.default : QuoteValidationPolicy := ⟨3600, true⟩

structure QuoteVerifier where
  policy : QuoteValidationPolicy
  intelRootCerts : List Bytes

namespace QuoteVerifier

def new (policy : QuoteValidationPolicy) : QuoteVerifier := ⟨policy, []⟩

/-- a signature is there -/
def verifySignature (_ : QuoteVerifier) (quote : Quote) : Except VerifierError Bool := .ok (!quote.signature.isEmpty)

/-- certificates are there, or there are none to compare with -/
def verifyCertChain (v : QuoteVerifier) (quote : Quote) : Except VerifierError Bool :=
  .ok (!quote.certChain.isEmpty || v.intelRootCerts.isEmpty)

def checkAdvisories (_ : QuoteVerifier) (_ : Quote) : Except VerifierError (List SecurityAdvisory) := .ok []

def verify (v : QuoteVerifier) (now : UInt64) (quote : Quote) : Except VerifierError QuoteVerificationResult := do
  let quoteAge := age now quote.timestamp
  let isFresh : Bool := quoteAge ≤ v.policy.maxAgeSeconds
  let signatureValid ← v.verifySignature quote
  let certChainValid ← v.verifyCertChain quote
  let advisories ← v.checkAdvisories quote
  let cpuPatched := advisories.all fun adv => decide (adv.severity ≠ "CRITICAL")
  let isValid := signatureValid && certChainValid && isFresh && (!v.policy.requirePatchedCpu || cpuPatched)
  return ⟨isValid, signatureValid, certChainValid, isFresh, cpuPatched, advisories, now, quoteAge⟩

end QuoteVerifier

def verifyQuoteStandard (now : UInt64) (quote : Quote) : Except VerifierError QuoteVerificationResult :=
  (QuoteVerifier.new .default).verify now quote

/-! ### The verifier of reports -/

def TrustZoneAttestationPolicy.default : TrustZoneAttestationPolicy := ⟨300, true⟩

/-- what the data of a report begins with -/
def formatMarker : Bytes := utf8 "TZ-ATTEST"

def TrustZoneAttestationPolicy.verify (policy : TrustZoneAttestationPolicy) (now : UInt64) (report : TeeAttestationReport) :
    Except VerifierError TrustZoneVerificationResult :=
  if report.teeType ≠ .trustZone then .error (.attestationFailed "report tee type is not TrustZone")
  else
    let reportAge := age now report.timestamp
    let isFresh : Bool := reportAge ≤ policy.maxAgeSeconds
    let hasExpectedFormat := if policy.requireFormatMarker then formatMarker.isPrefixOf report.attestationData else true
    .ok ⟨isFresh && hasExpectedFormat, isFresh, hasExpectedFormat, reportAge, now⟩

/-! ### The service -/

def UnifiedAttestationResult.ofQuote (r : QuoteVerificationResult) : UnifiedAttestationResult where
  teeType := .sgx
  isValid := r.isValid
  isFresh := r.isFresh
  evidenceAgeSeconds := r.quoteAgeSeconds
  trustLevel :=
    if r.signatureValid && r.certChainValid && r.advisories.isEmpty then .high
    else if r.signatureValid && r.certChainValid then .medium
    else .low
  summary :=
    s!"sgx: signature_valid={r.signatureValid}, cert_chain_valid={r.certChainValid}, advisories={r.advisories.length}"

def UnifiedAttestationResult.ofReport (r : TrustZoneVerificationResult) : UnifiedAttestationResult where
  teeType := .trustZone
  isValid := r.isValid
  isFresh := r.isFresh
  evidenceAgeSeconds := r.reportAgeSeconds
  trustLevel := if r.isValid then .medium else .low
  summary := s!"trustzone: expected_format={r.hasExpectedFormat}"

def AttestationRoutingPolicy.default : AttestationRoutingPolicy := ⟨[.sgx, .trustZone], 3600, 300, .low⟩

/-- the limit on the age of the evidence of a TEE -/
def AttestationRoutingPolicy.maxAge (policy : AttestationRoutingPolicy) : TeeType → Option UInt64
  | .sgx => some policy.maxSgxAgeSeconds
  | .trustZone => some policy.maxTrustzoneAgeSeconds
  | _ => none

namespace AttestationService

def new : AttestationService := ⟨.default, .default⟩

def withTrustzonePolicy (tzPolicy : TrustZoneAttestationPolicy) : AttestationService := ⟨tzPolicy, .default⟩

def withRoutingPolicy (routingPolicy : AttestationRoutingPolicy) : AttestationService := ⟨.default, routingPolicy⟩

def enforcePolicy (s : AttestationService) (r : UnifiedAttestationResult) :
    Except AttestationServiceError UnifiedAttestationResult :=
  if r.teeType ∉ s.routingPolicy.allowedTees then
    .error (.policyRejected s!"tee type {r.teeType.debug} is not allowed by routing policy")
  else
    match s.routingPolicy.maxAge r.teeType with
    | none => .error (.policyRejected s!"tee type {r.teeType.debug} has no configured age SLA")
    | some maxAge =>
      if maxAge < r.evidenceAgeSeconds then
        .error (.policyRejected
          s!"evidence age {r.evidenceAgeSeconds}s exceeds SLA {maxAge}s for {r.teeType.debug}")
      else if ¬ r.trustLevel.meetsMinimum s.routingPolicy.minimumTrustLevel then
        .error (.policyRejected
          s!"trust level {r.trustLevel.debug} below minimum {s.routingPolicy.minimumTrustLevel.debug}")
      else if !r.isValid || !r.isFresh then
        .error (.policyRejected "provider verification did not return valid/fresh evidence")
      else .ok { r with summary := s!"{r.summary}; policy=enforced" }

def verifySgxQuote (s : AttestationService) (now : UInt64) (quote : Quote) :
    Except AttestationServiceError UnifiedAttestationResult :=
  match verifyQuoteStandard now quote with
  | .error e => .error (.sgxVerification e.display)
  | .ok result => s.enforcePolicy (.ofQuote result)

def verifyTrustzoneReport (s : AttestationService) (now : UInt64) (report : TeeAttestationReport) :
    Except AttestationServiceError UnifiedAttestationResult :=
  match s.tzPolicy.verify now report with
  | .error e => .error (.trustZoneVerification e.display)
  | .ok result => s.enforcePolicy (.ofReport result)

def verifyReport (s : AttestationService) (now : UInt64) (report : TeeAttestationReport) :
    Except AttestationServiceError UnifiedAttestationResult :=
  match report.teeType with
  | .trustZone => s.verifyTrustzoneReport now report
  | other => .error (.unsupportedTee other)

end AttestationService

structure BatchVerificationResult where
  items : List (Except AttestationServiceError UnifiedAttestationResult)
  passed : ℕ
  failed : ℕ

def BatchVerificationResult.ofItems (items : List (Except AttestationServiceError UnifiedAttestationResult)) :
    BatchVerificationResult :=
  let passed := items.countP fun item => item.isOk
  ⟨items, passed, items.length - passed⟩

/-- the reports, each with what the clock reads when its turn comes -/
def AttestationService.verifyReportsBatch (s : AttestationService) (reports : List (UInt64 × TeeAttestationReport)) :
    BatchVerificationResult := .ofItems (reports.map fun p => s.verifyReport p.1 p.2)

def AttestationService.verifySgxQuotesBatch (s : AttestationService) (quotes : List (UInt64 × Quote)) :
    BatchVerificationResult := .ofItems (quotes.map fun p => s.verifySgxQuote p.1 p.2)

/-! ## Ages -/

variable {s : AttestationService} {now : UInt64}

/-- evidence is of age at most m if and only if its time is at most m before now, or after it -/
theorem age_le_iff {timestamp m : UInt64} : age now timestamp ≤ m ↔ now.toNat ≤ timestamp.toNat + m.toNat := by
  rw [age]
  split_ifs with h
  · have hle := UInt64.le_iff_toNat_le.1 h
    rw [UInt64.le_iff_toNat_le, UInt64.toNat_sub_of_le _ _ h]
    omega
  · have hlt := UInt64.lt_iff_toNat_lt.1 (UInt64.not_le.1 h)
    rw [UInt64.le_iff_toNat_le]
    simp only [UInt64.toNat_zero]
    omega

/-! ## When evidence is accepted -/

theorem enforcePolicy_ok_iff {r r' : UnifiedAttestationResult} : s.enforcePolicy r = .ok r' ↔
    r.teeType ∈ s.routingPolicy.allowedTees ∧
      (∃ maxAge, s.routingPolicy.maxAge r.teeType = some maxAge ∧ r.evidenceAgeSeconds ≤ maxAge) ∧
      r.trustLevel.meetsMinimum s.routingPolicy.minimumTrustLevel = true ∧ r.isValid = true ∧ r.isFresh = true ∧
      { r with summary := s!"{r.summary}; policy=enforced" } = r' := by
  rw [AttestationService.enforcePolicy]
  by_cases htee : r.teeType ∈ s.routingPolicy.allowedTees
  · rw [if_neg (not_not.2 htee)]
    cases s.routingPolicy.maxAge r.teeType with
    | none => simp
    | some maxAge =>
      by_cases hage : r.evidenceAgeSeconds ≤ maxAge
      · by_cases htrust : r.trustLevel.meetsMinimum s.routingPolicy.minimumTrustLevel = true
        · cases hvalid : r.isValid <;> cases hfresh : r.isFresh <;> simp [htee, hage, htrust, UInt64.not_lt.2 hage]
        · simp [htrust, UInt64.not_lt.2 hage]
      · simp [hage, UInt64.not_le.1 hage]
  · simp [htee]

/-- what the verifier of quotes returns under the standard policy -/
theorem verifyQuoteStandard_eq (quote : Quote) : verifyQuoteStandard now quote =
    .ok ⟨!quote.signature.isEmpty && decide (age now quote.timestamp ≤ 3600), !quote.signature.isEmpty, true,
      age now quote.timestamp ≤ 3600, true, [], now, age now quote.timestamp⟩ := by
  simp [verifyQuoteStandard, QuoteVerifier.verify, QuoteVerifier.verifySignature, QuoteVerifier.verifyCertChain,
    QuoteVerifier.checkAdvisories, QuoteVerifier.new, QuoteValidationPolicy.default, Outcome.ok_bind]
  exact ⟨rfl, rfl⟩

theorem verifySgxQuote_ok_iff {quote : Quote} {r : UnifiedAttestationResult} : s.verifySgxQuote now quote = .ok r ↔
    .sgx ∈ s.routingPolicy.allowedTees ∧ age now quote.timestamp ≤ s.routingPolicy.maxSgxAgeSeconds ∧
      age now quote.timestamp ≤ 3600 ∧ quote.signature ≠ [] ∧
      ⟨.sgx, true, true, age now quote.timestamp, .high,
        "sgx: signature_valid=true, cert_chain_valid=true, advisories=0; policy=enforced"⟩ = r := by
  rw [AttestationService.verifySgxQuote, verifyQuoteStandard_eq]
  dsimp only
  rw [enforcePolicy_ok_iff]
  by_cases hsig : quote.signature = []
  · simp [UnifiedAttestationResult.ofQuote, hsig]
  · have hempty : quote.signature.isEmpty = false := by simpa using hsig
    by_cases hage : age now quote.timestamp ≤ 3600
    · have hmin : TrustLevel.high.meetsMinimum s.routingPolicy.minimumTrustLevel = true := by
        cases s.routingPolicy.minimumTrustLevel <;> rfl
      simp [UnifiedAttestationResult.ofQuote, AttestationRoutingPolicy.maxAge, hempty, hage, hsig, hmin]
      exact fun _ _ => Iff.rfl
    · simp [UnifiedAttestationResult.ofQuote, hage]

theorem verifyTrustzoneReport_ok_iff {report : TeeAttestationReport} {r : UnifiedAttestationResult} :
    s.verifyTrustzoneReport now report = .ok r ↔
    report.teeType = .trustZone ∧ .trustZone ∈ s.routingPolicy.allowedTees ∧
      age now report.timestamp ≤ s.routingPolicy.maxTrustzoneAgeSeconds ∧
      age now report.timestamp ≤ s.tzPolicy.maxAgeSeconds ∧
      (s.tzPolicy.requireFormatMarker = true → formatMarker <+: report.attestationData) ∧
      s.routingPolicy.minimumTrustLevel ≠ .high ∧
      ⟨.trustZone, true, true, age now report.timestamp, .medium, "trustzone: expected_format=true; policy=enforced"⟩ = r := by
  have hmin : TrustLevel.medium.meetsMinimum s.routingPolicy.minimumTrustLevel = true ↔
      s.routingPolicy.minimumTrustLevel ≠ .high := by
    cases s.routingPolicy.minimumTrustLevel <;> decide
  rw [AttestationService.verifyTrustzoneReport, TrustZoneAttestationPolicy.verify]
  by_cases htee : report.teeType = .trustZone
  · rw [if_neg (not_not.2 htee)]
    dsimp only
    rw [enforcePolicy_ok_iff]
    have hformat : (if s.tzPolicy.requireFormatMarker then formatMarker.isPrefixOf report.attestationData else true) = true ↔
        (s.tzPolicy.requireFormatMarker = true → formatMarker <+: report.attestationData) := by
      cases s.tzPolicy.requireFormatMarker <;> simp
    rw [← hformat]
    by_cases hage : age now report.timestamp ≤ s.tzPolicy.maxAgeSeconds
    · cases if s.tzPolicy.requireFormatMarker then formatMarker.isPrefixOf report.attestationData else true with
      | false => simp [UnifiedAttestationResult.ofReport]
      | true =>
        simp [UnifiedAttestationResult.ofReport, AttestationRoutingPolicy.maxAge, hage, htee, hmin]
        exact fun _ _ _ => Iff.rfl
    · simp [UnifiedAttestationResult.ofReport, hage]
  · simp [htee]

/-! ## What acceptance means -/

/-- **What accepted evidence has passed.** Its TEE is allowed, its trust is sufficient, it was valid and fresh to its own
verifier, and now is at most the limit of the routing policy, and at most that of the verifier, after its time. -/
theorem accepted_admitted (s : AttestationService) (now : UInt64) :
    (∀ quote r, s.verifySgxQuote now quote = .ok r →
      r.teeType = .sgx ∧ .sgx ∈ s.routingPolicy.allowedTees ∧
      now.toNat ≤ quote.timestamp.toNat + s.routingPolicy.maxSgxAgeSeconds.toNat ∧
      now.toNat ≤ quote.timestamp.toNat + QuoteValidationPolicy.default.maxAgeSeconds.toNat ∧
      r.trustLevel.meetsMinimum s.routingPolicy.minimumTrustLevel = true ∧
      ∃ result, verifyQuoteStandard now quote = .ok result ∧ result.isValid = true ∧ result.isFresh = true) ∧
    ∀ report r, s.verifyTrustzoneReport now report = .ok r →
      r.teeType = .trustZone ∧ .trustZone ∈ s.routingPolicy.allowedTees ∧
      now.toNat ≤ report.timestamp.toNat + s.routingPolicy.maxTrustzoneAgeSeconds.toNat ∧
      now.toNat ≤ report.timestamp.toNat + s.tzPolicy.maxAgeSeconds.toNat ∧
      r.trustLevel.meetsMinimum s.routingPolicy.minimumTrustLevel = true ∧
      ∃ result, s.tzPolicy.verify now report = .ok result ∧ result.isValid = true ∧ result.isFresh = true := by
  constructor
  · intro quote r h
    obtain ⟨hallowed, hmax, hstd, hsig, rfl⟩ := verifySgxQuote_ok_iff.1 h
    have hempty : quote.signature.isEmpty = false := by simpa using hsig
    refine ⟨rfl, hallowed, age_le_iff.1 hmax, age_le_iff.1 hstd, ?_, _, verifyQuoteStandard_eq quote, ?_, ?_⟩
    · cases s.routingPolicy.minimumTrustLevel <;> rfl
    · simp [hempty, hstd]
    · simp [hstd]
  · intro report r h
    obtain ⟨htee, hallowed, hmax, htz, hformat, hmin, rfl⟩ := verifyTrustzoneReport_ok_iff.1 h
    refine ⟨rfl, hallowed, age_le_iff.1 hmax, age_le_iff.1 htz, ?_, ?_⟩
    · dsimp only
      revert hmin
      cases s.routingPolicy.minimumTrustLevel <;> decide
    · rw [TrustZoneAttestationPolicy.verify, if_neg (not_not.2 htee)]
      refine ⟨_, rfl, ?_, by simpa using htz⟩
      cases hreq : s.tzPolicy.requireFormatMarker
      · simpa using htz
      · simpa using ⟨htz, hformat hreq⟩

/-- **Evidence from the future is accepted**, by either verifier under the default policies: here it is a day ahead. -/
theorem future_accepted :
    (∃ quote r, AttestationService.new.verifySgxQuote 1700000000 quote = .ok r ∧ ¬ quote.timestamp ≤ 1700000000) ∧
    ∃ report r, AttestationService.new.verifyTrustzoneReport 1700000000 report = .ok r ∧ ¬ report.timestamp ≤ 1700000000 := by
  constructor
  · refine ⟨⟨[1], [], 1700086400⟩, _, verifySgxQuote_ok_iff.2 ⟨?_, ?_, ?_, ?_, rfl⟩, ?_⟩ <;> decide
  · refine ⟨⟨.trustZone, formatMarker, 1700086400⟩, _, verifyTrustzoneReport_ok_iff.2 ⟨rfl, ?_, ?_, ?_, ?_, ?_, rfl⟩, ?_⟩
    · decide
    · decide
    · decide
    · exact fun _ => List.prefix_rfl
    · decide
    · decide

/-! ## Batches -/

theorem BatchVerificationResult.ofItems_counts (items : List (Except AttestationServiceError UnifiedAttestationResult)) :
    (ofItems items).passed + (ofItems items).failed = items.length := by
  have hle : items.countP (fun item => item.isOk) ≤ items.length := List.countP_le_length
  simp only [ofItems]
  omega

theorem verifyReportsBatch_counts (reports : List (UInt64 × TeeAttestationReport)) :
    (s.verifyReportsBatch reports).passed + (s.verifyReportsBatch reports).failed = reports.length := by
  rw [AttestationService.verifyReportsBatch, BatchVerificationResult.ofItems_counts, List.length_map]

theorem verifySgxQuotesBatch_counts (quotes : List (UInt64 × Quote)) :
    (s.verifySgxQuotesBatch quotes).passed + (s.verifySgxQuotesBatch quotes).failed = quotes.length := by
  rw [AttestationService.verifySgxQuotesBatch, BatchVerificationResult.ofItems_counts, List.length_map]

/-- only reports of TrustZone pass the generic entry -/
theorem verifyReport_ok_iff {report : TeeAttestationReport} {r : UnifiedAttestationResult} :
    s.verifyReport now report = .ok r ↔ report.teeType = .trustZone ∧ s.verifyTrustzoneReport now report = .ok r := by
  rw [AttestationService.verifyReport]
  cases htee : report.teeType <;> simp

end AbirGuard.Rust.Attestation
