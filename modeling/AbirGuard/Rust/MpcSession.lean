/-
Sessions of a multi-party computation (`confidential_computing/mpc/mod.rs`): parties commit to their shares and reveal them.

An operation may fail after it has changed the session, and the change stays. Hash maps and sets have no order; where one is
iterated, the order is an argument (`Lists`). SHA-256 is any function to 32 bytes.

- `submitShare_ok_iff`, `submitCommit_ok_iff`, `submitReveal_ok_iff`: when a message is accepted, and what it then changes.
- `run_submitShare` and so on: every way an operation can end, as one equation.
- `finalizeDigest_lists`: the digest does not depend on the order in which the map is iterated.
-/
import AbirGuard.Core.Bytes
import AbirGuard.Core.Raise
import AbirGuard.Core.Run
import AbirGuard.Core.Sha256
import Mathlib.Data.Finmap
import Mathlib.Data.String.Basic

namespace AbirGuard.Rust.Mpc

open AbirGuard.Core Raise

/-! ## Model -/

inductive MpcError where
  | invalidPolicy (reason : String)
  | duplicateParty (partyId : String)
  | unknownParty (partyId : String)
  | duplicateShare (partyId : String)
  | duplicateCommitment (partyId : String)
  | insufficientShares
  | roundMismatch (expected received : UInt32)
  | unknownCommitment (partyId : String)
  | invalidCommitment (partyId : String)
  | replayDetected (nonce : UInt64)
  | aggregateMismatch
deriving DecidableEq, Repr

/-- the text of an error -/
def MpcError.message : MpcError → String
  | .invalidPolicy reason => s!"invalid policy: {reason}"
  | .duplicateParty partyId => s!"party already registered: {partyId}"
  | .unknownParty partyId => s!"party is not registered: {partyId}"
  | .duplicateShare partyId => s!"share already submitted for party: {partyId}"
  | .duplicateCommitment partyId => s!"commitment already submitted for party: {partyId}"
  | .insufficientShares => "not enough shares to finalize"
  | .roundMismatch expected received => s!"round mismatch: expected {expected}, got {received}"
  | .unknownCommitment partyId => s!"no commitment found for party: {partyId}"
  | .invalidCommitment partyId => s!"invalid commitment for party: {partyId}"
  | .replayDetected nonce => s!"nonce replay detected: {nonce}"
  | .aggregateMismatch => "aggregate digest does not match local digest"

/-- the counts are of type `usize`, taken to have 64 bits -/
structure MpcPolicy where
  totalParties : UInt64
  threshold : UInt64
  maxRounds : UInt32
deriving DecidableEq, Repr

def MpcPolicy.new (totalParties threshold : UInt64) (maxRounds : UInt32) : Except MpcError MpcPolicy :=
  if totalParties = 0 then .error (.invalidPolicy "total_parties must be greater than zero")
  else if threshold = 0 ∨ totalParties < threshold then
    .error (.invalidPolicy "threshold must be between 1 and total_parties")
  else if maxRounds = 0 then .error (.invalidPolicy "max_rounds must be greater than zero")
  else .ok ⟨totalParties, threshold, maxRounds⟩

structure ShareSubmission where
  partyId : String
  share : Bytes
deriving DecidableEq, Repr

structure CommitSubmission where
  partyId : String
  commitment : Bytes
  nonce : UInt64
  round : UInt32
deriving DecidableEq, Repr

structure RevealSubmission where
  partyId : String
  share : Bytes
  nonce : UInt64
  round : UInt32
deriving DecidableEq, Repr

structure AggregateMessage where
  round : UInt32
  nonce : UInt64
  digest : Bytes
deriving DecidableEq, Repr

/-- `HashMap<String, Vec<u8>>` -/
abbrev ByteMap : Type := Finmap fun _ : String => Bytes

structure MpcSession where
  policy : MpcPolicy
  parties : Finset String
  commitments : ByteMap
  shares : ByteMap
  seenNonces : Finset UInt64
  sessionNonce : UInt64
  round : UInt32
deriving DecidableEq

abbrev SessionM (α : Type) : Type := Raise MpcError MpcSession α

/-- the keys of a map in some order: what `keys()` iterates -/
def Lists (keys : List String) (m : ByteMap) : Prop := keys.Nodup ∧ ∀ p, p ∈ keys ↔ p ∈ m

variable (sha256 : Bytes → Digest)

def commitmentFor (share : Bytes) : Bytes := (sha256 share).toList

namespace MpcSession

def new (policy : MpcPolicy) : MpcSession where
  policy := policy
  parties := ∅
  commitments := ∅
  shares := ∅
  seenNonces := ∅
  sessionNonce := policy.totalParties <<< 32 ^^^ policy.threshold <<< 16 ^^^ policy.maxRounds.toUInt64
  round := 1

def registerParty (partyId : String) : SessionM Unit := do
  let s ← get
  if partyId ∈ s.parties then throw (.duplicateParty partyId)
  else set { s with parties := insert partyId s.parties }

def ensureRound (received : UInt32) : SessionM Unit := do
  let s ← get
  if received ≠ s.round then throw (.roundMismatch s.round received) else return ()

def registerNonce (nonce : UInt64) : SessionM Unit := do
  let s ← get
  if nonce ∈ s.seenNonces then throw (.replayDetected nonce)
  else set { s with seenNonces := insert nonce s.seenNonces }

def submitShare (m : ShareSubmission) : SessionM Unit := do
  let s ← get
  if m.partyId ∉ s.parties then throw (.unknownParty m.partyId)
  else if m.partyId ∈ s.shares then throw (.duplicateShare m.partyId)
  else set { s with shares := s.shares.insert m.partyId m.share }

def submitCommit (m : CommitSubmission) : SessionM Unit := do
  ensureRound m.round
  registerNonce m.nonce
  let s ← get
  if m.partyId ∉ s.parties then throw (.unknownParty m.partyId)
  else if m.partyId ∈ s.commitments then throw (.duplicateCommitment m.partyId)
  else set { s with commitments := s.commitments.insert m.partyId m.commitment }

def submitReveal (m : RevealSubmission) : SessionM Unit := do
  ensureRound m.round
  registerNonce m.nonce
  let s ← get
  if m.partyId ∉ s.parties then throw (.unknownParty m.partyId)
  else if m.partyId ∈ s.shares then throw (.duplicateShare m.partyId)
  else
    match s.commitments.lookup m.partyId with
    | none => throw (.unknownCommitment m.partyId)
    | some expected =>
      if expected ≠ commitmentFor sha256 m.share then throw (.invalidCommitment m.partyId)
      else set { s with shares := s.shares.insert m.partyId m.share }

def advanceRound : SessionM Unit :=
  modify fun s => if s.round < s.policy.maxRounds then { s with round := s.round + 1 } else s

def canFinalize (s : MpcSession) : Bool := s.policy.threshold.toNat ≤ s.shares.keys.card

/-- what is hashed for one party after another, in the lexicographic order of their ids -/
def digestMessage (keys : List String) (shares : ByteMap) : Bytes :=
  (keys.mergeSort fun p q => decide (p ≤ q)).flatMap fun p => utf8 p ++ (shares.lookup p).getD []

def finalizeDigest (keys : List String) (s : MpcSession) : Except MpcError Bytes :=
  if ¬ s.canFinalize then .error .insufficientShares else .ok (sha256 (digestMessage keys s.shares)).toList

def applyAggregate (keys : List String) (m : AggregateMessage) : SessionM Unit := do
  ensureRound m.round
  registerNonce m.nonce
  let s ← get
  let digest ← lift (s.finalizeDigest sha256 keys)
  if digest ≠ m.digest then throw .aggregateMismatch else return ()

/-! ## Every way an operation can end -/

variable {sha256} {s s' : MpcSession}

/-- the session with a nonce used up -/
def burn (s : MpcSession) (nonce : UInt64) : MpcSession := { s with seenNonces := insert nonce s.seenNonces }

theorem run_registerParty (p : String) (s : MpcSession) : run (registerParty p) s =
    if p ∈ s.parties then (.error (.duplicateParty p), s) else (.ok (), { s with parties := insert p s.parties }) := by
  rw [registerParty, run_get_bind, run_ite]
  rfl

/-- the checks of the round and of the nonce, in front of the rest of an operation -/
theorem run_checked {α : Type} (round : UInt32) (nonce : UInt64) (x : SessionM α) (s : MpcSession) :
    run (do
      ensureRound round
      registerNonce nonce
      x) s =
      if round ≠ s.round then (.error (.roundMismatch s.round round), s)
      else if nonce ∈ s.seenNonces then (.error (.replayDetected nonce), s)
      else run x (s.burn nonce) := by
  have hround : run (ensureRound round) s =
      if round ≠ s.round then (.error (.roundMismatch s.round round), s) else (.ok (), s) := by
    rw [ensureRound, run_get_bind, run_ite]
    rfl
  have hnonce : run (registerNonce nonce) s =
      if nonce ∈ s.seenNonces then (.error (.replayDetected nonce), s) else (.ok (), s.burn nonce) := by
    rw [registerNonce, run_get_bind, run_ite]
    rfl
  rw [run_bind, hround]
  split_ifs
  · rfl
  · dsimp only
    rw [run_bind, hnonce, if_pos ‹_›]
  · dsimp only
    rw [run_bind, hnonce, if_neg ‹_›]

theorem run_submitShare (m : ShareSubmission) (s : MpcSession) : run (submitShare m) s =
    if m.partyId ∉ s.parties then (.error (.unknownParty m.partyId), s)
    else if m.partyId ∈ s.shares then (.error (.duplicateShare m.partyId), s)
    else (.ok (), { s with shares := s.shares.insert m.partyId m.share }) := by
  rw [submitShare, run_get_bind, run_ite, run_ite]
  rfl

theorem run_submitCommit (m : CommitSubmission) (s : MpcSession) : run (submitCommit m) s =
    if m.round ≠ s.round then (.error (.roundMismatch s.round m.round), s)
    else if m.nonce ∈ s.seenNonces then (.error (.replayDetected m.nonce), s)
    else if m.partyId ∉ s.parties then (.error (.unknownParty m.partyId), s.burn m.nonce)
    else if m.partyId ∈ s.commitments then (.error (.duplicateCommitment m.partyId), s.burn m.nonce)
    else (.ok (), { s.burn m.nonce with commitments := s.commitments.insert m.partyId m.commitment }) := by
  rw [submitCommit, run_checked]
  simp only [run_get_bind, run_ite]
  rfl

theorem run_submitReveal (m : RevealSubmission) (s : MpcSession) : run (submitReveal sha256 m) s =
    if m.round ≠ s.round then (.error (.roundMismatch s.round m.round), s)
    else if m.nonce ∈ s.seenNonces then (.error (.replayDetected m.nonce), s)
    else if m.partyId ∉ s.parties then (.error (.unknownParty m.partyId), s.burn m.nonce)
    else if m.partyId ∈ s.shares then (.error (.duplicateShare m.partyId), s.burn m.nonce)
    else
      match s.commitments.lookup m.partyId with
      | none => (.error (.unknownCommitment m.partyId), s.burn m.nonce)
      | some expected =>
        if expected ≠ commitmentFor sha256 m.share then (.error (.invalidCommitment m.partyId), s.burn m.nonce)
        else (.ok (), { s.burn m.nonce with shares := s.shares.insert m.partyId m.share }) := by
  rw [submitReveal, run_checked]
  simp only [run_get_bind, run_ite, burn]
  cases s.commitments.lookup m.partyId with
  | none => rfl
  | some expected =>
    dsimp only
    rw [run_ite]
    rfl

theorem run_applyAggregate (keys : List String) (m : AggregateMessage) (s : MpcSession) :
    run (applyAggregate sha256 keys m) s =
    if m.round ≠ s.round then (.error (.roundMismatch s.round m.round), s)
    else if m.nonce ∈ s.seenNonces then (.error (.replayDetected m.nonce), s)
    else
      match s.finalizeDigest sha256 keys with
      | .error e => (.error e, s.burn m.nonce)
      | .ok digest => if digest ≠ m.digest then (.error .aggregateMismatch, s.burn m.nonce) else (.ok (), s.burn m.nonce) := by
  rw [applyAggregate, run_checked]
  have hdigest : (s.burn m.nonce).finalizeDigest sha256 keys = s.finalizeDigest sha256 keys := rfl
  simp only [run_get_bind, run_lift_bind, hdigest]
  cases s.finalizeDigest sha256 keys with
  | error e => rfl
  | ok digest =>
    dsimp only
    rw [run_ite]
    rfl

theorem run_advanceRound (s : MpcSession) : run advanceRound s =
    (.ok (), if s.round < s.policy.maxRounds then { s with round := s.round + 1 } else s) := rfl

/-! ## When a message is accepted -/

theorem submitShare_ok_iff {m : ShareSubmission} : run (submitShare m) s = (.ok (), s') ↔
    m.partyId ∈ s.parties ∧ m.partyId ∉ s.shares ∧ s' = { s with shares := s.shares.insert m.partyId m.share } := by
  rw [run_submitShare]
  split_ifs <;> simp_all [eq_comm]

theorem submitCommit_ok_iff {m : CommitSubmission} : run (submitCommit m) s = (.ok (), s') ↔
    m.round = s.round ∧ m.nonce ∉ s.seenNonces ∧ m.partyId ∈ s.parties ∧ m.partyId ∉ s.commitments ∧
      s' = { s.burn m.nonce with commitments := s.commitments.insert m.partyId m.commitment } := by
  rw [run_submitCommit]
  split_ifs <;> simp_all [eq_comm]

theorem submitReveal_ok_iff {m : RevealSubmission} : run (submitReveal sha256 m) s = (.ok (), s') ↔
    m.round = s.round ∧ m.nonce ∉ s.seenNonces ∧ m.partyId ∈ s.parties ∧ m.partyId ∉ s.shares ∧
      s.commitments.lookup m.partyId = some (commitmentFor sha256 m.share) ∧
      s' = { s.burn m.nonce with shares := s.shares.insert m.partyId m.share } := by
  rw [run_submitReveal]
  cases s.commitments.lookup m.partyId with
  | none => split_ifs <;> simp_all
  | some expected =>
    dsimp only
    by_cases hc : expected = commitmentFor sha256 m.share
    · rw [if_neg (not_not.2 hc), hc]
      split_ifs <;> simp_all [eq_comm]
    · rw [if_pos hc]
      split_ifs <;> simp_all

theorem applyAggregate_ok_iff {keys : List String} {m : AggregateMessage} :
    run (applyAggregate sha256 keys m) s = (.ok (), s') ↔
    m.round = s.round ∧ m.nonce ∉ s.seenNonces ∧ s.finalizeDigest sha256 keys = .ok m.digest ∧ s' = s.burn m.nonce := by
  rw [run_applyAggregate]
  cases s.finalizeDigest sha256 keys with
  | error e => split_ifs <;> simp_all
  | ok digest =>
    dsimp only
    split_ifs <;> simp_all [eq_comm]

/-! ## The digest -/

/-- sorting forgets the order in which a map is iterated -/
theorem digestMessage_lists {keys keys' : List String} {m : ByteMap} (h : Lists keys m) (h' : Lists keys' m) :
    digestMessage keys m = digestMessage keys' m := by
  have hperm : keys.Perm keys' := (List.perm_ext_iff_of_nodup h.1 h'.1).2 fun p => (h.2 p).trans (h'.2 p).symm
  have hsorted : ∀ l : List String, (l.mergeSort fun p q => decide (p ≤ q)).Pairwise (· ≤ ·) := by
    intro l
    have hpair : (l.mergeSort fun p q => decide (p ≤ q)).Pairwise fun p q => decide (p ≤ q) = true := by
      refine List.pairwise_mergeSort (fun a b c hab hbc => ?_) (fun a b => by simpa using le_total a b) l
      simp only [decide_eq_true_eq] at *
      exact hab.trans hbc
    exact hpair.imp fun h => by simpa using h
  have heq : (keys.mergeSort fun p q => decide (p ≤ q)) = keys'.mergeSort fun p q => decide (p ≤ q) :=
    List.Perm.eq_of_pairwise' (hsorted keys) (hsorted keys')
      (((List.mergeSort_perm _ _).trans hperm).trans (List.mergeSort_perm _ _).symm)
  rw [digestMessage, digestMessage, heq]

theorem finalizeDigest_lists {keys keys' : List String} (h : Lists keys s.shares) (h' : Lists keys' s.shares) :
    s.finalizeDigest sha256 keys = s.finalizeDigest sha256 keys' := by
  rw [finalizeDigest, finalizeDigest, digestMessage_lists h h']

end MpcSession

end AbirGuard.Rust.Mpc
