/-
The simulated contract (`blockchain/smart_contract.rs`): the key anchors, behind a counter of the blocks mined.

- `step_cases`: a call registers a new anchor, or revokes one for its owner, or changes nothing.
- `held_iff`: an anchor is in force if and only if its owner submitted it and did not revoke it since.
- `blockHeight_eq`: the height counts the calls that changed something.
- `ledger`: what holds of every run.
-/
import AbirGuard.Core.Run
import AbirGuard.Rust.KeyAnchor

namespace AbirGuard.Rust

open AbirGuard.Core Raise

/-! ## Model -/

inductive ContractError where
  | submissionFailed (reason : String)
  | verificationFailed (reason : String)
  | revocationFailed (reason : String)
  | anchorError (e : KeyAnchorError)
deriving DecidableEq, Repr

/-- the text of an error -/
def ContractError.message : ContractError → String
  | .submissionFailed reason => s!"anchor submission failed: {reason}"
  | .verificationFailed reason => s!"on-chain verification failed: {reason}"
  | .revocationFailed reason => s!"revocation transaction failed: {reason}"
  | .anchorError e => s!"underlying anchor error: {e.message}"

structure OnChainVerificationResult where
  valid : Bool
  blockHeight : UInt64
  anchorId : String
deriving DecidableEq, Repr

structure SimulatedContractAnchor where
  registry : AnchorRegistry
  blockHeight : UInt64
deriving DecidableEq

/-- `saturating_add` on 64 bits -/
def saturatingAdd (a b : UInt64) : UInt64 := UInt64.ofNat (min (a.toNat + b.toNat) (2 ^ 64 - 1))

theorem toNat_saturatingAdd (a b : UInt64) : (saturatingAdd a b).toNat = min (a.toNat + b.toNat) (2 ^ 64 - 1) := by
  rw [saturatingAdd, UInt64.toNat_ofNat']
  exact Nat.mod_eq_of_lt (by omega)

namespace SimulatedContractAnchor

variable (sha256 : Bytes → Digest)

def new : SimulatedContractAnchor := ⟨.new, 0⟩

/-- a call on the registry, with `map_err` and `?` on its result -/
def onRegistry {α : Type} (x : Raise KeyAnchorError AnchorRegistry α) : Raise ContractError SimulatedContractAnchor α :=
  call .anchorError SimulatedContractAnchor.registry (fun registry s => { s with registry := registry }) x

def submitAnchor (publicKey : Bytes) (ownerId : String) (timestamp : UInt64) :
    Raise ContractError SimulatedContractAnchor String := do
  let anchor ← onRegistry (AnchorRegistry.register sha256 publicKey ownerId timestamp)
  modify fun s => { s with blockHeight := saturatingAdd s.blockHeight 1 }
  return anchor.anchorId

def verifyOnChain (anchorId : String) (s : SimulatedContractAnchor) : Except ContractError OnChainVerificationResult :=
  match s.registry.lookup anchorId with
  | none => .error (.verificationFailed s!"anchor {anchorId} not found")
  | some anchor => .ok { valid := !anchor.revoked, blockHeight := s.blockHeight, anchorId := anchorId }

def revokeAnchor (anchorId requestingOwner : String) : Raise ContractError SimulatedContractAnchor Unit := do
  onRegistry (AnchorRegistry.revoke anchorId requestingOwner)
  modify fun s => { s with blockHeight := saturatingAdd s.blockHeight 1 }

/-! ## Runs -/

inductive Call where
  | submitAnchor (publicKey : Bytes) (ownerId : String) (timestamp : UInt64)
  | revokeAnchor (anchorId requestingOwner : String)
  | verifyOnChain (anchorId : String)
deriving DecidableEq

/-- the contract after a call, which may have failed -/
def step (s : SimulatedContractAnchor) : Call → SimulatedContractAnchor
  | .submitAnchor publicKey ownerId timestamp => (run (submitAnchor sha256 publicKey ownerId timestamp) s).2
  | .revokeAnchor anchorId requestingOwner => (run (revokeAnchor anchorId requestingOwner) s).2
  | .verifyOnChain _ => s

def after (calls : List Call) : SimulatedContractAnchor := Run.after (step sha256) new calls

/-- the call returns without an error -/
def succeeds (s : SimulatedContractAnchor) : Call → Bool
  | .submitAnchor publicKey ownerId timestamp => (run (submitAnchor sha256 publicKey ownerId timestamp) s).1.isOk
  | .revokeAnchor anchorId requestingOwner => (run (revokeAnchor anchorId requestingOwner) s).1.isOk
  | .verifyOnChain anchorId => (s.verifyOnChain anchorId).isOk

/-- the call is of a kind that changes the contract -/
def Call.mutating : Call → Bool
  | .submitAnchor .. => true
  | .revokeAnchor .. => true
  | .verifyOnChain _ => false

/-- who makes the call, of those that say so -/
def Call.owner : Call → Option String
  | .submitAnchor _ ownerId _ => some ownerId
  | .revokeAnchor _ requestingOwner => some requestingOwner
  | .verifyOnChain _ => none

/-- how many mutating calls of a run succeed -/
def mutations : SimulatedContractAnchor → List Call → ℕ
  | _, [] => 0
  | s, c :: calls => (if c.mutating && succeeds sha256 s c then 1 else 0) + mutations (step sha256 s c) calls

/-- the call submits the anchor for this owner -/
def Submitted (anchorId owner : String) (s : SimulatedContractAnchor) (c : Call) : Prop :=
  ∃ publicKey timestamp, c = .submitAnchor publicKey owner timestamp ∧
    (run (submitAnchor sha256 publicKey owner timestamp) s).1 = .ok anchorId

/-- the call revokes the anchor for this owner -/
def Revoked (anchorId owner : String) (s : SimulatedContractAnchor) (c : Call) : Prop :=
  c = .revokeAnchor anchorId owner ∧ (run (revokeAnchor anchorId owner) s).1 = .ok ()

/-! ## Every way a call can end -/

variable {sha256} {s : SimulatedContractAnchor}

/-- the contract with one anchor put in, one block later -/
def mine (s : SimulatedContractAnchor) (anchorId : String) (anchor : KeyAnchor) : SimulatedContractAnchor :=
  ⟨s.registry.put anchorId anchor, saturatingAdd s.blockHeight 1⟩

theorem run_submitAnchor (publicKey : Bytes) (ownerId : String) (timestamp : UInt64) (s : SimulatedContractAnchor) :
    run (submitAnchor sha256 publicKey ownerId timestamp) s =
      if publicKey = [] then (.error (.anchorError .emptyPublicKey), s)
      else if anchorIdOf sha256 publicKey ∈ s.registry.anchors then (.error (.anchorError .alreadyAnchored), s)
      else (.ok (anchorIdOf sha256 publicKey),
        s.mine (anchorIdOf sha256 publicKey) (.new sha256 publicKey ownerId timestamp)) := by
  rw [submitAnchor, run_bind, onRegistry, run_call, AnchorRegistry.run_register]
  split_ifs <;> rfl

theorem run_revokeAnchor (anchorId requestingOwner : String) (s : SimulatedContractAnchor) :
    run (revokeAnchor anchorId requestingOwner) s =
      match s.registry.lookup anchorId with
      | none => (.error (.anchorError .notFound), s)
      | some anchor =>
        if anchor.ownerId ≠ requestingOwner then
          (.error (.anchorError (.ownerMismatch anchor.ownerId requestingOwner)), s)
        else (.ok (), s.mine anchorId { anchor with revoked := true }) := by
  rw [revokeAnchor, run_bind, onRegistry, run_call, AnchorRegistry.run_revoke]
  cases s.registry.lookup anchorId with
  | none => rfl
  | some anchor =>
    dsimp only
    split_ifs <;> rfl

theorem submitAnchor_ok_iff {publicKey : Bytes} {ownerId anchorId : String} {timestamp : UInt64} :
    (run (submitAnchor sha256 publicKey ownerId timestamp) s).1 = .ok anchorId ↔
      publicKey ≠ [] ∧ s.registry.lookup anchorId = none ∧ anchorId = anchorIdOf sha256 publicKey := by
  rw [run_submitAnchor, AnchorRegistry.lookup_eq_none_iff]
  split_ifs with hnil hmem
  · simp [hnil]
  · refine iff_of_false (fun h => by cases h) ?_
    rintro ⟨-, hfresh, rfl⟩
    exact hfresh hmem
  · constructor
    · intro h
      cases h
      exact ⟨hnil, hmem, rfl⟩
    · rintro ⟨-, -, rfl⟩
      rfl

theorem revokeAnchor_ok_iff {anchorId requestingOwner : String} :
    (run (revokeAnchor anchorId requestingOwner) s).1 = .ok () ↔
      ∃ anchor, s.registry.lookup anchorId = some anchor ∧ anchor.ownerId = requestingOwner := by
  rw [run_revokeAnchor]
  cases s.registry.lookup anchorId with
  | none => simp
  | some anchor =>
    dsimp only
    split_ifs with hne
    · simp [hne]
    · rw [not_not] at hne
      simp [hne]

/-- **What a call does**: it registers a new anchor, or revokes one for its owner, or changes nothing. -/
theorem step_cases (sha256 : Bytes → Digest) (s : SimulatedContractAnchor) (c : Call) :
    (∃ publicKey ownerId timestamp, c = .submitAnchor publicKey ownerId timestamp ∧ publicKey ≠ [] ∧
      s.registry.lookup (anchorIdOf sha256 publicKey) = none ∧ succeeds sha256 s c = true ∧
      step sha256 s c = s.mine (anchorIdOf sha256 publicKey) (.new sha256 publicKey ownerId timestamp)) ∨
    (∃ anchorId anchor, c = .revokeAnchor anchorId anchor.ownerId ∧ s.registry.lookup anchorId = some anchor ∧
      succeeds sha256 s c = true ∧ step sha256 s c = s.mine anchorId { anchor with revoked := true }) ∨
    (c.mutating && succeeds sha256 s c) = false ∧ step sha256 s c = s := by
  cases c with
  | submitAnchor publicKey ownerId timestamp =>
    rw [step, succeeds, run_submitAnchor]
    split_ifs with hnil hmem
    · exact Or.inr (Or.inr ⟨rfl, rfl⟩)
    · exact Or.inr (Or.inr ⟨rfl, rfl⟩)
    · exact Or.inl ⟨publicKey, ownerId, timestamp, rfl, hnil, AnchorRegistry.lookup_eq_none_iff.2 hmem, rfl, rfl⟩
  | revokeAnchor anchorId requestingOwner =>
    rw [step, succeeds, run_revokeAnchor]
    cases hl : s.registry.lookup anchorId with
    | none => exact Or.inr (Or.inr ⟨rfl, rfl⟩)
    | some anchor =>
      dsimp only
      split_ifs with hne
      · exact Or.inr (Or.inr ⟨rfl, rfl⟩)
      · rw [not_not] at hne
        exact Or.inr (Or.inl ⟨anchorId, anchor, by rw [hne], hl, rfl, rfl⟩)
  | verifyOnChain anchorId => exact Or.inr (Or.inr ⟨rfl, rfl⟩)

theorem Submitted.succeeds {anchorId owner : String} {c : Call} (h : Submitted sha256 anchorId owner s c) :
    (c.mutating && succeeds sha256 s c) = true := by
  obtain ⟨publicKey, timestamp, rfl, hok⟩ := h
  rw [SimulatedContractAnchor.succeeds, hok]
  rfl

theorem Revoked.succeeds {anchorId owner : String} {c : Call} (h : Revoked anchorId owner s c) :
    (c.mutating && SimulatedContractAnchor.succeeds sha256 s c) = true := by
  obtain ⟨rfl, hok⟩ := h
  rw [SimulatedContractAnchor.succeeds, hok]
  rfl

/-! ## Anchors in force -/

/-- the anchor is there, under this owner, and is not revoked -/
def Held (anchorId owner : String) (s : SimulatedContractAnchor) : Prop :=
  ∃ anchor, s.registry.lookup anchorId = some anchor ∧ anchor.ownerId = owner ∧ anchor.revoked = false

theorem verifyOnChain_valid_iff {anchorId : String} :
    (∃ result, s.verifyOnChain anchorId = .ok result ∧ result.valid = true) ↔ ∃ owner, Held anchorId owner s := by
  simp only [verifyOnChain, Held]
  cases s.registry.lookup anchorId with
  | none => simp
  | some anchor => simp

theorem held_mine_self {anchorId owner : String} {anchor : KeyAnchor} :
    Held anchorId owner (s.mine anchorId anchor) ↔ anchor.ownerId = owner ∧ anchor.revoked = false := by
  rw [Held, mine, AnchorRegistry.lookup_put_self]
  simp

theorem held_mine_of_ne {anchorId anchorId' : String} (h : anchorId ≠ anchorId') (owner : String) (anchor : KeyAnchor) :
    Held anchorId owner (s.mine anchorId' anchor) ↔ Held anchorId owner s := by
  rw [Held, mine, AnchorRegistry.lookup_put_of_ne h, Held]

/-- **A call and an anchor in force**: a submission brings it about, and only its owner's revocation ends it. -/
theorem held_step_iff (anchorId owner : String) (s : SimulatedContractAnchor) (c : Call) :
    Held anchorId owner (step sha256 s c) ↔
      Submitted sha256 anchorId owner s c ∨ Held anchorId owner s ∧ ¬ Revoked anchorId owner s c := by
  obtain ⟨publicKey, ownerId, timestamp, rfl, hnil, hfresh, -, hstep⟩ | ⟨anchorId', anchor, rfl, hl, -, hstep⟩ |
    ⟨hfails, hstep⟩ := step_cases sha256 s c
  · have hrevoked : ¬ Revoked anchorId owner s (.submitAnchor publicKey ownerId timestamp) := fun h => by cases h.1
    rw [hstep, and_iff_left hrevoked]
    by_cases hid : anchorId = anchorIdOf sha256 publicKey
    · -- the anchor was not there before
      have hheld : ¬ Held anchorId owner s := by
        rintro ⟨anchor, ha, -⟩
        rw [hid, hfresh] at ha
        cases ha
      rw [or_iff_left hheld, hid, held_mine_self]
      constructor
      · rintro ⟨rfl, -⟩
        exact ⟨publicKey, timestamp, rfl, submitAnchor_ok_iff.2 ⟨hnil, hfresh, rfl⟩⟩
      · rintro ⟨_, _, hc, -⟩
        cases hc
        exact ⟨rfl, rfl⟩
    · have hsubmitted : ¬ Submitted sha256 anchorId owner s (.submitAnchor publicKey ownerId timestamp) := by
        rintro ⟨_, _, hc, hok⟩
        cases hc
        exact hid (submitAnchor_ok_iff.1 hok).2.2
      rw [or_iff_right hsubmitted, held_mine_of_ne hid]
  · have hsubmitted : ¬ Submitted sha256 anchorId owner s (.revokeAnchor anchorId' anchor.ownerId) :=
      fun ⟨_, _, hc, _⟩ => by cases hc
    rw [hstep, or_iff_right hsubmitted]
    by_cases hid : anchorId = anchorId'
    · rw [hid, held_mine_self]
      refine iff_of_false (fun h => by cases h.2) ?_
      rintro ⟨⟨anchor', ha, howner, -⟩, hrevoked⟩
      rw [hl] at ha
      cases ha
      exact hrevoked ⟨by rw [howner], revokeAnchor_ok_iff.2 ⟨anchor, hl, howner⟩⟩
    · rw [held_mine_of_ne hid]
      refine (and_iff_left ?_).symm
      rintro ⟨hc, -⟩
      cases hc
      exact hid rfl
  · have hsubmitted : ¬ Submitted sha256 anchorId owner s c := fun h => by
      rw [h.succeeds] at hfails
      cases hfails
    have hrevoked : ¬ Revoked anchorId owner s c := fun h => by
      rw [h.succeeds] at hfails
      cases hfails
    rw [hstep, or_iff_right hsubmitted, and_iff_left hrevoked]

/-- **An anchor is in force** if and only if its owner submitted it and did not revoke it since. -/
theorem held_iff (sha256 : Bytes → Digest) (calls : List Call) (anchorId owner : String) :
    Held anchorId owner (after sha256 calls) ↔
      Run.Since (step sha256) (Submitted sha256 anchorId owner) (Revoked anchorId owner) new calls := by
  have hnew : ¬ Held anchorId owner new := by
    rintro ⟨anchor, ha, -⟩
    rw [new, AnchorRegistry.lookup, AnchorRegistry.new, Finmap.lookup_empty] at ha
    cases ha
  exact Run.since_iff (fun _ => True) (Held anchorId owner) (fun _ _ _ => trivial)
    (fun s c _ => held_step_iff anchorId owner s c) trivial hnew calls

/-! ## Strangers, failures and the height -/

/-- a call by somebody else leaves an anchor as it is -/
theorem lookup_step_of_ne {anchorId : String} {anchor : KeyAnchor} (ha : s.registry.lookup anchorId = some anchor) {c : Call}
    (hc : c.owner ≠ some anchor.ownerId) : (step sha256 s c).registry.lookup anchorId = some anchor := by
  obtain ⟨publicKey, ownerId, timestamp, rfl, -, hfresh, -, hstep⟩ | ⟨anchorId', anchor', rfl, hl, -, hstep⟩ |
    ⟨-, hstep⟩ := step_cases sha256 s c
  · have hne : anchorId ≠ anchorIdOf sha256 publicKey := by
      rintro rfl
      rw [hfresh] at ha
      cases ha
    rw [hstep, mine, AnchorRegistry.lookup_put_of_ne hne, ha]
  · have hne : anchorId ≠ anchorId' := by
      rintro rfl
      rw [hl] at ha
      cases ha
      exact hc rfl
    rw [hstep, mine, AnchorRegistry.lookup_put_of_ne hne, ha]
  · rw [hstep, ha]

theorem lookup_after_of_ne {anchorId : String} {anchor : KeyAnchor} (ha : s.registry.lookup anchorId = some anchor)
    {calls : List Call} (hcalls : ∀ c ∈ calls, c.owner ≠ some anchor.ownerId) :
    (Run.after (step sha256) s calls).registry.lookup anchorId = some anchor := by
  have hstep : ∀ c ∈ calls, ∀ s : SimulatedContractAnchor, s.registry.lookup anchorId = some anchor →
      (step sha256 s c).registry.lookup anchorId = some anchor := fun c hc s hs => lookup_step_of_ne hs (hcalls c hc)
  exact Run.after_inv hstep ha

/-- a call that fails changes nothing -/
theorem step_of_fails {c : Call} (h : succeeds sha256 s c = false) : step sha256 s c = s := by
  obtain ⟨_, _, _, _, _, _, hok, _⟩ | ⟨_, _, _, _, hok, _⟩ | ⟨-, hstep⟩ := step_cases sha256 s c
  · rw [h] at hok
    cases hok
  · rw [h] at hok
    cases hok
  · exact hstep

theorem blockHeight_step (s : SimulatedContractAnchor) (c : Call) : (step sha256 s c).blockHeight.toNat =
    min (s.blockHeight.toNat + if c.mutating && succeeds sha256 s c then 1 else 0) (2 ^ 64 - 1) := by
  obtain ⟨_, _, _, rfl, _, _, hok, hstep⟩ | ⟨_, _, rfl, _, hok, hstep⟩ | ⟨hfails, hstep⟩ := step_cases sha256 s c
  · rw [hstep, hok]
    exact toNat_saturatingAdd _ _
  · rw [hstep, hok]
    exact toNat_saturatingAdd _ _
  · have hlt := s.blockHeight.toNat_lt
    rw [hstep, hfails, if_neg Bool.false_ne_true]
    omega

/-- the height counts the calls that changed something, up to its largest value -/
theorem blockHeight_eq (s : SimulatedContractAnchor) (calls : List Call) : (Run.after (step sha256) s calls).blockHeight.toNat =
    min (s.blockHeight.toNat + mutations sha256 s calls) (2 ^ 64 - 1) := by
  induction calls generalizing s with
  | nil =>
    have hlt := s.blockHeight.toNat_lt
    rw [Run.after_nil, mutations]
    omega
  | cons c calls ih =>
    rw [Run.after_cons, ih, blockHeight_step, mutations]
    omega

/-! ## The ledger -/

/-- what holds of a run -/
structure Ledger (sha256 : Bytes → Digest) (calls : List Call) : Prop where
  /-- an anchor is reported valid if some owner submitted it and did not revoke it since -/
  valid : ∀ anchorId, (∃ result, (after sha256 calls).verifyOnChain anchorId = .ok result ∧ result.valid = true) ↔
    ∃ owner, Run.Since (step sha256) (Submitted sha256 anchorId owner) (Revoked anchorId owner) new calls
  /-- calls by others change neither the owner nor the validity of an anchor, nor the rest of it -/
  strangers : ∀ anchorId anchor, (after sha256 calls).registry.lookup anchorId = some anchor →
    ∀ others : List Call, (∀ c ∈ others, c.owner ≠ some anchor.ownerId) →
      (after sha256 (calls ++ others)).registry.lookup anchorId = some anchor
  /-- a call that fails changes neither the registry nor the height -/
  failed : ∀ c, succeeds sha256 (after sha256 calls) c = false → step sha256 (after sha256 calls) c = after sha256 calls
  /-- the height is the number of mutating calls that succeeded, as long as that fits -/
  height : mutations sha256 new calls < 2 ^ 64 → (after sha256 calls).blockHeight.toNat = mutations sha256 new calls

/-- **The contract is a ledger**, over every run from the empty one. -/
theorem ledger (sha256 : Bytes → Digest) (calls : List Call) : Ledger sha256 calls where
  valid anchorId := by
    rw [verifyOnChain_valid_iff]
    exact exists_congr (held_iff sha256 calls anchorId)
  strangers anchorId anchor ha others hothers := by
    rw [after, Run.after_append]
    exact lookup_after_of_ne ha hothers
  failed c h := step_of_fails h
  height h := by
    rw [after, blockHeight_eq]
    have hnew : new.blockHeight.toNat = 0 := rfl
    omega

end SimulatedContractAnchor

end AbirGuard.Rust
