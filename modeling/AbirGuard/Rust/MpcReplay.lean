/-
Replay protection of MPC sessions: commits, reveals and aggregates share one set of used nonces.

The set is kept across rounds. A nonce is used up when the round of its message is the current one, whether or not the message
is then accepted.

- `run_replayed`: what a message with a used nonce comes to.
- `replay_protection`: the accepted nonces are pairwise distinct, each message was accepted in its round, and once accepted it
  is refused at every later point of the run.
-/
import AbirGuard.Rust.MpcBinding

namespace AbirGuard.Rust.Mpc

open AbirGuard.Core Raise MpcSession

variable {sha256 : Bytes → Digest} {s : MpcSession}

/-- the nonce and the round of a commit, a reveal or an aggregate -/
def Call.stamp : Call → Option (UInt64 × UInt32)
  | .submitCommit m => some (m.nonce, m.round)
  | .submitReveal m => some (m.nonce, m.round)
  | .applyAggregate _ m => some (m.nonce, m.round)
  | .registerParty _ | .submitShare _ | .advanceRound => none

/-- the nonce that an accepted message takes -/
def acceptedNonce (sha256 : Bytes → Digest) (s : MpcSession) (c : Call) : Option UInt64 :=
  if Accepted sha256 s c then c.stamp.map Prod.fst else none

/-- the nonces of all messages accepted in a run, in order -/
def acceptedNonces (sha256 : Bytes → Digest) (s : MpcSession) (calls : List Call) : List UInt64 :=
  Run.tokens (step sha256) (acceptedNonce sha256) s calls

/-! ## One call -/

/-- an accepted message is of this round, and its nonce is new and then used up -/
theorem accepted_stamped {c : Call} {nonce : UInt64} {round : UInt32} (hc : c.stamp = some (nonce, round))
    (hacc : Accepted sha256 s c) :
    round = s.round ∧ nonce ∉ s.seenNonces ∧ nonce ∈ (step sha256 s c).seenNonces := by
  have hrun := hacc.run_eq
  cases c with
  | submitCommit m =>
    cases hc
    obtain ⟨hround, hnonce, -, -, heq⟩ := submitCommit_ok_iff.1 hrun
    rw [heq]
    exact ⟨hround, hnonce, Finset.mem_insert_self _ _⟩
  | submitReveal m =>
    cases hc
    obtain ⟨hround, hnonce, -, -, -, heq⟩ := submitReveal_ok_iff.1 hrun
    rw [heq]
    exact ⟨hround, hnonce, Finset.mem_insert_self _ _⟩
  | applyAggregate keys m =>
    cases hc
    obtain ⟨hround, hnonce, -, heq⟩ := applyAggregate_ok_iff.1 hrun
    rw [heq]
    exact ⟨hround, hnonce, Finset.mem_insert_self _ _⟩
  | registerParty partyId => cases hc
  | submitShare m => cases hc
  | advanceRound => cases hc

/-- a message with a used nonce fails, for its round or for the nonce, and leaves the session as it was -/
theorem run_replayed {c : Call} {nonce : UInt64} {round : UInt32} (hc : c.stamp = some (nonce, round))
    (hseen : nonce ∈ s.seenNonces) : run (c.exec sha256) s =
      (.error (if round ≠ s.round then .roundMismatch s.round round else .replayDetected nonce), s) := by
  cases c with
  | submitCommit m =>
    cases hc
    rw [Call.exec, submitCommit, run_checked, if_pos hseen]
    split_ifs <;> rfl
  | submitReveal m =>
    cases hc
    rw [Call.exec, submitReveal, run_checked, if_pos hseen]
    split_ifs <;> rfl
  | applyAggregate keys m =>
    cases hc
    rw [Call.exec, applyAggregate, run_checked, if_pos hseen]
    split_ifs <;> rfl
  | registerParty partyId => cases hc
  | submitShare m => cases hc
  | advanceRound => cases hc

theorem acceptedNonce_iff {c : Call} {nonce : UInt64} : acceptedNonce sha256 s c = some nonce ↔
    Accepted sha256 s c ∧ ∃ round, c.stamp = some (nonce, round) := by
  rw [acceptedNonce]
  split_ifs with hacc <;> simp [hacc]

/-! ## Runs -/

variable (sha256) in
/-- a session takes each nonce at most once -/
theorem takesOnce : Run.TakesOnce (step sha256) (acceptedNonce sha256) fun s => {nonce | nonce ∈ s.seenNonces} where
  fresh := by
    intro s c nonce h
    obtain ⟨hacc, round, hc⟩ := acceptedNonce_iff.1 h
    exact (accepted_stamped hc hacc).2.1
  marked := by
    intro s c nonce h
    obtain ⟨hacc, round, hc⟩ := acceptedNonce_iff.1 h
    exact (accepted_stamped hc hacc).2.2
  kept := fun s c nonce h => seenNonces_step s c h

/-- **Replay protection.** In every run the nonces of the accepted commits, reveals and aggregates are pairwise distinct.
Each of these messages was accepted in its own round. At every later point its nonce is refused, in a message of any kind, and
the session stays as it is. -/
theorem replay_protection (sha256 : Bytes → Digest) (policy : MpcPolicy) (calls : List Call) :
    (acceptedNonces sha256 (.new policy) calls).Nodup ∧
    ∀ pre (c : Call) post nonce round, calls = pre ++ c :: post → c.stamp = some (nonce, round) →
      Accepted sha256 (Run.after (step sha256) (.new policy) pre) c →
      round = (Run.after (step sha256) (.new policy) pre).round ∧
      ∀ mid rest (c' : Call) round', post = mid ++ rest → c'.stamp = some (nonce, round') →
        ∃ error, run (c'.exec sha256) (Run.after (step sha256) (.new policy) (pre ++ c :: mid)) =
          (.error error, Run.after (step sha256) (.new policy) (pre ++ c :: mid)) := by
  refine ⟨(takesOnce sha256).tokens_nodup _ _, ?_⟩
  intro pre c post nonce round _ hc hacc
  obtain ⟨hround, -, hmarked⟩ := accepted_stamped hc hacc
  refine ⟨hround, ?_⟩
  intro mid rest c' round' _ hc'
  rw [Run.after_append, Run.after_cons]
  have hseen := (takesOnce sha256).kept_run (step sha256 (Run.after (step sha256) (.new policy) pre) c) mid hmarked
  exact ⟨_, run_replayed hc' hseen⟩

-- the same commit again, and a reveal with the nonce of the commit
example : ¬ Accepted Core.sha256 oneCommitted
      (.submitCommit ⟨"p1", commitmentFor Core.sha256 [1], 11, 1⟩) ∧
    ¬ Accepted Core.sha256 oneCommitted (.submitReveal ⟨"p1", [1], 11, 1⟩) := by
  decide +kernel

end AbirGuard.Rust.Mpc
