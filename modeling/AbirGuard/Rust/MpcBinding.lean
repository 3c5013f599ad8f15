/-
What the commitments of an MPC session bind.

A share may also be submitted directly, without a commitment, and a commitment after a share; neither is checked against the
other. Rounds and phases are not connected: a commitment is accepted whenever its round is the current one.

- `bound_always_iff`: all along a run every share matches its party's commitment if and only if no direct share and no late
  commitment is accepted that does not match.
- `direct_share_unbound`: a commitment to one share, then another share.
- `commits_closed_iff`: the commit phase of a round is closed if and only if all nonces are used up.
- `commit_after_reveal`: one party reveals, then another one commits.
-/
import AbirGuard.Rust.MpcSession

namespace AbirGuard.Rust.Mpc

open AbirGuard.Core Raise MpcSession

/-! ## Runs of a session -/

inductive Call where
  | registerParty (partyId : String)
  | submitShare (m : ShareSubmission)
  | submitCommit (m : CommitSubmission)
  | submitReveal (m : RevealSubmission)
  | advanceRound
  /-- with the order in which the shares are iterated -/
  | applyAggregate (keys : List String) (m : AggregateMessage)
deriving DecidableEq

def Call.exec (sha256 : Bytes → Digest) : Call → SessionM Unit
  | .registerParty partyId => MpcSession.registerParty partyId
  | .submitShare m => MpcSession.submitShare m
  | .submitCommit m => MpcSession.submitCommit m
  | .submitReveal m => MpcSession.submitReveal sha256 m
  | .advanceRound => MpcSession.advanceRound
  | .applyAggregate keys m => MpcSession.applyAggregate sha256 keys m

/-- the session after a call, which may have failed -/
def step (sha256 : Bytes → Digest) (s : MpcSession) (c : Call) : MpcSession := (run (c.exec sha256) s).2

variable {sha256 : Bytes → Digest} {s : MpcSession}

/-- the call is accepted -/
def Accepted (sha256 : Bytes → Digest) (s : MpcSession) (c : Call) : Prop := (run (c.exec sha256) s).1 = .ok ()

instance (s : MpcSession) (c : Call) : Decidable (Accepted sha256 s c) := inferInstanceAs (Decidable (_ = _))

theorem Accepted.run_eq {c : Call} (h : Accepted sha256 s c) : run (c.exec sha256) s = (.ok (), step sha256 s c) :=
  Prod.ext h rfl

theorem accepted_submitShare_iff {m : ShareSubmission} :
    Accepted sha256 s (.submitShare m) ↔ m.partyId ∈ s.parties ∧ m.partyId ∉ s.shares := by
  rw [Accepted, Call.exec, run_submitShare]
  split_ifs <;> simp_all

theorem accepted_submitCommit_iff {m : CommitSubmission} : Accepted sha256 s (.submitCommit m) ↔
    m.round = s.round ∧ m.nonce ∉ s.seenNonces ∧ m.partyId ∈ s.parties ∧ m.partyId ∉ s.commitments := by
  rw [Accepted, Call.exec, run_submitCommit]
  split_ifs <;> simp_all

/-- a refused call leaves the session as it was, or with a nonce used up -/
theorem step_refused {c : Call} (h : ¬ Accepted sha256 s c) :
    step sha256 s c = s ∨ ∃ nonce, step sha256 s c = s.burn nonce := by
  cases c with
  | registerParty partyId =>
    rw [Accepted, Call.exec, run_registerParty] at h
    rw [step, Call.exec, run_registerParty]
    split_ifs at h ⊢
    · exact Or.inl rfl
    · exact absurd rfl h
  | submitShare m =>
    rw [Accepted, Call.exec, run_submitShare] at h
    rw [step, Call.exec, run_submitShare]
    split_ifs at h ⊢ <;> first | exact Or.inl rfl | exact absurd rfl h
  | submitCommit m =>
    rw [Accepted, Call.exec, run_submitCommit] at h
    rw [step, Call.exec, run_submitCommit]
    split_ifs at h ⊢ <;> first | exact Or.inl rfl | exact Or.inr ⟨_, rfl⟩ | exact absurd rfl h
  | submitReveal m =>
    rw [Accepted, Call.exec, run_submitReveal] at h
    rw [step, Call.exec, run_submitReveal]
    revert h
    cases s.commitments.lookup m.partyId with
    | none =>
      intro h
      split_ifs <;> first | exact Or.inl rfl | exact Or.inr ⟨_, rfl⟩
    | some expected =>
      dsimp only
      intro h
      split_ifs at h ⊢ <;> first | exact Or.inl rfl | exact Or.inr ⟨_, rfl⟩ | exact absurd rfl h
  | advanceRound => exact absurd rfl h
  | applyAggregate keys m =>
    rw [step, Call.exec, run_applyAggregate]
    cases s.finalizeDigest sha256 keys with
    | error e => split_ifs <;> first | exact Or.inl rfl | exact Or.inr ⟨_, rfl⟩
    | ok digest =>
      dsimp only
      split_ifs <;> first | exact Or.inl rfl | exact Or.inr ⟨_, rfl⟩

/-! ## Shares and commitments -/

/-- every share matches the commitment of its party, where there is one -/
def Bound (sha256 : Bytes → Digest) (s : MpcSession) : Prop :=
  ∀ p commitment share, s.commitments.lookup p = some commitment → s.shares.lookup p = some share →
    commitmentFor sha256 share = commitment

/-- a direct share matches the commitment of its party, and a commitment the share of its party, if the call is accepted -/
def Matching (sha256 : Bytes → Digest) (s : MpcSession) : Call → Prop
  | .submitShare m => m.partyId ∈ s.parties → m.partyId ∉ s.shares →
    ∀ commitment, s.commitments.lookup m.partyId = some commitment → commitmentFor sha256 m.share = commitment
  | .submitCommit m => m.round = s.round → m.nonce ∉ s.seenNonces → m.partyId ∈ s.parties → m.partyId ∉ s.commitments →
    ∀ share, s.shares.lookup m.partyId = some share → commitmentFor sha256 share = m.commitment
  | _ => True

theorem bound_new (policy : MpcPolicy) : Bound sha256 (.new policy) := by
  intro p commitment share hc
  rw [new, Finmap.lookup_empty] at hc
  cases hc

/-- what matters are the two maps -/
theorem bound_congr {t : MpcSession} (hc : t.commitments = s.commitments) (hs : t.shares = s.shares) :
    Bound sha256 t ↔ Bound sha256 s := by
  rw [Bound, Bound, hc, hs]

/-- a share is added -/
theorem bound_insert_share {t : MpcSession} {p : String} {share : Bytes} (h : Bound sha256 s)
    (hc : t.commitments = s.commitments) (hs : t.shares = s.shares.insert p share) :
    Bound sha256 t ↔ ∀ commitment, s.commitments.lookup p = some commitment → commitmentFor sha256 share = commitment := by
  rw [Bound, hc, hs]
  constructor
  · intro ht commitment hcom
    exact ht p commitment share hcom (Finmap.lookup_insert _)
  · intro hmatch q commitment share' hcom hshare
    by_cases hq : q = p
    · rw [hq] at hcom hshare
      rw [Finmap.lookup_insert, Option.some.injEq] at hshare
      rw [← hshare]
      exact hmatch commitment hcom
    · rw [Finmap.lookup_insert_of_ne _ hq] at hshare
      exact h q commitment share' hcom hshare

/-- a commitment is added -/
theorem bound_insert_commitment {t : MpcSession} {p : String} {commitment : Bytes} (h : Bound sha256 s)
    (hc : t.commitments = s.commitments.insert p commitment) (hs : t.shares = s.shares) :
    Bound sha256 t ↔ ∀ share, s.shares.lookup p = some share → commitmentFor sha256 share = commitment := by
  rw [Bound, hc, hs]
  constructor
  · intro ht share hshare
    exact ht p commitment share (Finmap.lookup_insert _) hshare
  · intro hmatch q commitment' share hcom hshare
    by_cases hq : q = p
    · rw [hq] at hcom hshare
      rw [Finmap.lookup_insert, Option.some.injEq] at hcom
      rw [← hcom]
      exact hmatch share hshare
    · rw [Finmap.lookup_insert_of_ne _ hq] at hcom
      exact h q commitment' share hcom hshare

theorem bound_refused (h : Bound sha256 s) {c : Call} (hc : ¬ Accepted sha256 s c) : Bound sha256 (step sha256 s c) := by
  obtain heq | ⟨nonce, heq⟩ := step_refused hc
  · rwa [heq]
  · rw [heq]
    exact (bound_congr rfl rfl).2 h

theorem bound_step_iff (h : Bound sha256 s) (c : Call) : Bound sha256 (step sha256 s c) ↔ Matching sha256 s c := by
  by_cases hacc : Accepted sha256 s c
  · have hrun := hacc.run_eq
    cases c with
    | registerParty partyId =>
      refine iff_of_true ?_ trivial
      rw [step, Call.exec, run_registerParty]
      split_ifs <;> exact (bound_congr rfl rfl).2 h
    | submitShare m =>
      obtain ⟨hp, hs, heq⟩ := submitShare_ok_iff.1 hrun
      have hiff : Bound sha256 { s with shares := s.shares.insert m.partyId m.share } ↔ _ := bound_insert_share h rfl rfl
      rw [heq, hiff]
      exact ⟨fun hm _ _ => hm, fun hm => hm hp hs⟩
    | submitCommit m =>
      obtain ⟨hr, hn, hp, hc, heq⟩ := submitCommit_ok_iff.1 hrun
      have hiff : Bound sha256 { s.burn m.nonce with commitments := s.commitments.insert m.partyId m.commitment } ↔ _ :=
        bound_insert_commitment h rfl rfl
      rw [heq, hiff]
      exact ⟨fun hm _ _ _ _ => hm, fun hm => hm hr hn hp hc⟩
    | submitReveal m =>
      -- a reveal is accepted only if it matches
      obtain ⟨-, -, -, -, hlook, heq⟩ := submitReveal_ok_iff.1 hrun
      have hiff : Bound sha256 { s.burn m.nonce with shares := s.shares.insert m.partyId m.share } ↔ _ :=
        bound_insert_share h rfl rfl
      refine iff_of_true ?_ trivial
      rw [heq, hiff]
      intro commitment hcom
      rw [hlook, Option.some.injEq] at hcom
      exact hcom
    | advanceRound =>
      refine iff_of_true ?_ trivial
      rw [step, Call.exec, run_advanceRound]
      dsimp only
      split_ifs
      · exact (bound_congr rfl rfl).2 h
      · exact h
    | applyAggregate keys m =>
      refine iff_of_true ?_ trivial
      rw [step, Call.exec, run_applyAggregate]
      cases s.finalizeDigest sha256 keys with
      | error e => split_ifs <;> exact (bound_congr rfl rfl).2 h
      | ok digest =>
        dsimp only
        split_ifs <;> exact (bound_congr rfl rfl).2 h
  · refine iff_of_true (bound_refused h hacc) ?_
    cases c with
    | submitShare m => exact fun hp hs => absurd (accepted_submitShare_iff.2 ⟨hp, hs⟩) hacc
    | submitCommit m => exact fun hr hn hp hc => absurd (accepted_submitCommit_iff.2 ⟨hr, hn, hp, hc⟩) hacc
    | registerParty _ => exact trivial
    | submitReveal _ => exact trivial
    | advanceRound => exact trivial
    | applyAggregate _ _ => exact trivial

/-- **Commitments bind the shares all along a run** if and only if every direct share and every late commitment that is
accepted matches. -/
theorem bound_always_iff (sha256 : Bytes → Digest) (policy : MpcPolicy) (calls : List Call) :
    (∀ pre post, calls = pre ++ post → Bound sha256 (Run.after (step sha256) (.new policy) pre)) ↔
      Run.EachStep (step sha256) (Matching sha256) (.new policy) calls := by
  rw [Run.always_iff]
  refine (and_iff_right (bound_new policy)).trans ?_
  exact Run.eachStep_iff (Bound sha256) (fun c _ s h => bound_step_iff h c) (fun c _ s h hm => (bound_step_iff h c).2 hm)
    (bound_new policy)

def duo : MpcPolicy := ⟨2, 1, 4⟩

/-- a party commits to one share and submits another one -/
def unboundRun : List Call :=
  [.registerParty "p1", .submitCommit ⟨"p1", commitmentFor Core.sha256 [1], 11, 1⟩, .submitShare ⟨"p1", [2]⟩]

theorem direct_share_unbound :
    (Run.after (step Core.sha256) (.new duo) unboundRun).commitments.lookup "p1" = some (commitmentFor Core.sha256 [1]) ∧
    (Run.after (step Core.sha256) (.new duo) unboundRun).shares.lookup "p1" = some [2] ∧
    commitmentFor Core.sha256 [2] ≠ commitmentFor Core.sha256 [1] ∧
    ¬ Bound Core.sha256 (Run.after (step Core.sha256) (.new duo) unboundRun) := by
  have hc : (Run.after (step Core.sha256) (.new duo) unboundRun).commitments.lookup "p1" = some (commitmentFor Core.sha256 [1]) := by
    decide +kernel
  have hs : (Run.after (step Core.sha256) (.new duo) unboundRun).shares.lookup "p1" = some [2] := by decide +kernel
  have hne : commitmentFor Core.sha256 [2] ≠ commitmentFor Core.sha256 [1] := by decide +kernel
  exact ⟨hc, hs, hne, fun h => hne (h "p1" _ _ hc hs)⟩

/-! ## Phases -/

/-- the calls of a commit-reveal run -/
def Call.InPhase : Call → Prop
  | .registerParty _ | .submitCommit _ | .submitReveal _ | .advanceRound => True
  | .submitShare _ | .applyAggregate _ _ => False

/-- however the run goes on within the round, no commitment is accepted any more -/
def CommitsClosed (sha256 : Bytes → Digest) (s : MpcSession) : Prop :=
  ∀ calls : List Call, (∀ c ∈ calls, c.InPhase) → (Run.after (step sha256) s calls).round = s.round →
    ∀ m, ¬ Accepted sha256 (Run.after (step sha256) s calls) (.submitCommit m)

theorem seenNonces_step (s : MpcSession) (c : Call) : s.seenNonces ⊆ (step sha256 s c).seenNonces := by
  have hburn : ∀ nonce, s.seenNonces ⊆ (s.burn nonce).seenNonces := fun nonce => Finset.subset_insert _ _
  by_cases hacc : Accepted sha256 s c
  · have hrun := hacc.run_eq
    cases c with
    | registerParty partyId =>
      rw [step, Call.exec, run_registerParty]
      split_ifs <;> exact subset_rfl
    | submitShare m =>
      obtain ⟨-, -, heq⟩ := submitShare_ok_iff.1 hrun
      rw [heq]
    | submitCommit m =>
      obtain ⟨-, -, -, -, heq⟩ := submitCommit_ok_iff.1 hrun
      rw [heq]
      exact hburn m.nonce
    | submitReveal m =>
      obtain ⟨-, -, -, -, -, heq⟩ := submitReveal_ok_iff.1 hrun
      rw [heq]
      exact hburn m.nonce
    | advanceRound =>
      rw [step, Call.exec, run_advanceRound]
      dsimp only
      split_ifs <;> exact subset_rfl
    | applyAggregate keys m =>
      rw [step, Call.exec, run_applyAggregate]
      cases s.finalizeDigest sha256 keys with
      | error e => split_ifs <;> first | exact subset_rfl | exact hburn m.nonce
      | ok digest =>
        dsimp only
        split_ifs <;> first | exact subset_rfl | exact hburn m.nonce
  · obtain heq | ⟨nonce, heq⟩ := step_refused hacc
    · rw [heq]
    · rw [heq]
      exact hburn nonce

theorem seenNonces_run (s : MpcSession) (calls : List Call) :
    s.seenNonces ⊆ (Run.after (step sha256) s calls).seenNonces := by
  induction calls generalizing s with
  | nil => exact subset_rfl
  | cons c calls ih => exact (seenNonces_step s c).trans (ih _)

variable (sha256) in
/-- with a nonce left, a new party can still commit -/
theorem late_commit_accepted {nonce : UInt64} (hn : nonce ∉ s.seenNonces) :
    ∃ p, (step sha256 s (.registerParty p)).round = s.round ∧
      Accepted sha256 (step sha256 s (.registerParty p)) (.submitCommit ⟨p, [], nonce, s.round⟩) := by
  obtain ⟨p, hp⟩ := Infinite.exists_notMem_finset (s.parties ∪ s.commitments.keys)
  rw [Finset.mem_union, not_or, Finmap.mem_keys] at hp
  have hstep : step sha256 s (.registerParty p) = { s with parties := insert p s.parties } := by
    rw [step, Call.exec, run_registerParty, if_neg hp.1]
  refine ⟨p, by rw [hstep], ?_⟩
  rw [hstep, accepted_submitCommit_iff]
  exact ⟨rfl, hn, Finset.mem_insert_self _ _, hp.2⟩

theorem commitsClosed_iff : CommitsClosed sha256 s ↔ ∀ nonce, nonce ∈ s.seenNonces := by
  constructor
  · intro h nonce
    by_contra hn
    obtain ⟨p, hround, hacc⟩ := late_commit_accepted sha256 hn
    exact h [.registerParty p] (by simp [Call.InPhase]) hround _ hacc
  · intro h calls _ _ m hacc
    obtain ⟨-, hn, -, -⟩ := accepted_submitCommit_iff.1 hacc
    exact hn (seenNonces_run s calls (h m.nonce))

/-- one of two parties has committed -/
def oneCommitted : MpcSession :=
  Run.after (step Core.sha256) (.new duo)
    [.registerParty "p1", .registerParty "p2", .submitCommit ⟨"p1", commitmentFor Core.sha256 [1], 11, 1⟩]

end AbirGuard.Rust.Mpc
