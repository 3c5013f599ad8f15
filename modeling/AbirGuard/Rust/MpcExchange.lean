/-
A whole exchange of an MPC session: does it come to an end, and do its replicas agree?

In an exchange every party commits to its share and then reveals it, with nonces of their own. The messages reach each replica of
the session in some order, and other messages in between: of unknown parties, and aggregates, with nonces that the parties do not
use. Only the order of the two messages of a party is kept.

- `Taken`: what a session has taken in after a part of its schedule.
- `taken_commit`, `taken_reveal`, `taken_foreign`: one more message.
- `taken_after`: all along a schedule; each message of a party is accepted.
- `exchange_agrees`: replicas that have had all messages have the same digest, and accept it from each other.
-/
import AbirGuard.Rust.MpcBinding

namespace AbirGuard.Rust.Mpc

open AbirGuard.Core Raise MpcSession

/-! ## Exchanges -/

/-- the parties, their shares and the nonces of their messages, which all differ -/
structure Exchange where
  parties : Finset String
  share : String → Bytes
  commitNonce : String → UInt64
  revealNonce : String → UInt64
  round : UInt32
  commitNonce_inj : ∀ p ∈ parties, ∀ q ∈ parties, commitNonce p = commitNonce q → p = q
  revealNonce_inj : ∀ p ∈ parties, ∀ q ∈ parties, revealNonce p = revealNonce q → p = q
  nonces_disjoint : ∀ p ∈ parties, ∀ q ∈ parties, commitNonce p ≠ revealNonce q

namespace Exchange

variable (sha256 : Bytes → Digest) (x : Exchange)

def commit (p : String) : Call := .submitCommit ⟨p, commitmentFor sha256 (x.share p), x.commitNonce p, x.round⟩

def reveal (p : String) : Call := .submitReveal ⟨p, x.share p, x.revealNonce p, x.round⟩

/-- no party uses the nonce -/
def Spare (nonce : UInt64) : Prop := ∀ p ∈ x.parties, nonce ≠ x.commitNonce p ∧ nonce ≠ x.revealNonce p

/-- a message of somebody else -/
def Foreign : Call → Prop
  | .registerParty p => p ∈ x.parties
  | .submitShare m => m.partyId ∉ x.parties
  | .submitCommit m => m.partyId ∉ x.parties ∧ x.Spare m.nonce
  | .submitReveal m => m.partyId ∉ x.parties ∧ x.Spare m.nonce
  | .applyAggregate _ m => x.Spare m.nonce
  | .advanceRound => False

/-- what may come next after some calls -/
def Next (before : List Call) (c : Call) : Prop :=
  (∃ p ∈ x.parties, c = x.commit sha256 p ∧ x.commit sha256 p ∉ before) ∨
  (∃ p ∈ x.parties, c = x.reveal p ∧ x.reveal p ∉ before ∧ x.commit sha256 p ∈ before) ∨ x.Foreign c

/-- an order of delivery: each message of a party at most once, a reveal after the commitment, and anything of somebody else -/
def Schedule (calls : List Call) : Prop := ∀ pre c post, calls = pre ++ c :: post → x.Next sha256 pre c

/-- all messages of the parties are delivered -/
def Complete (calls : List Call) : Prop := ∀ p ∈ x.parties, x.reveal p ∈ calls

/-- a session before the exchange -/
structure Opens (s : MpcSession) : Prop where
  parties : s.parties = x.parties
  round : s.round = x.round
  commitments : s.commitments = ∅
  shares : s.shares = ∅
  unused : ∀ nonce ∈ s.seenNonces, x.Spare nonce

/-- what a session has taken in after some calls -/
structure Taken (calls : List Call) (s : MpcSession) : Prop where
  parties : s.parties = x.parties
  round : s.round = x.round
  commitments : ∀ p b, s.commitments.lookup p = some b ↔
    p ∈ x.parties ∧ x.commit sha256 p ∈ calls ∧ b = commitmentFor sha256 (x.share p)
  shares : ∀ p b, s.shares.lookup p = some b ↔ p ∈ x.parties ∧ x.reveal p ∈ calls ∧ b = x.share p
  commitNonces : ∀ p ∈ x.parties, x.commitNonce p ∈ s.seenNonces ↔ x.commit sha256 p ∈ calls
  revealNonces : ∀ p ∈ x.parties, x.revealNonce p ∈ s.seenNonces ↔ x.reveal p ∈ calls

variable {sha256 x} {s : MpcSession} {calls : List Call} {p q : String}

theorem commit_inj : x.commit sha256 p = x.commit sha256 q ↔ p = q := by
  refine ⟨fun h => ?_, fun h => h ▸ rfl⟩
  rw [commit, commit, Call.submitCommit.injEq, CommitSubmission.mk.injEq] at h
  exact h.1

theorem reveal_inj : x.reveal p = x.reveal q ↔ p = q := by
  refine ⟨fun h => ?_, fun h => h ▸ rfl⟩
  rw [reveal, reveal, Call.submitReveal.injEq, RevealSubmission.mk.injEq] at h
  exact h.1

theorem commit_ne_reveal : x.commit sha256 p ≠ x.reveal q := fun h => by cases h

theorem mem_snoc_commit : x.commit sha256 p ∈ calls ++ [x.commit sha256 q] ↔ x.commit sha256 p ∈ calls ∨ p = q := by
  rw [List.mem_append, List.mem_singleton, commit_inj]

theorem mem_snoc_reveal : x.reveal p ∈ calls ++ [x.reveal q] ↔ x.reveal p ∈ calls ∨ p = q := by
  rw [List.mem_append, List.mem_singleton, reveal_inj]

theorem mem_snoc_of_ne {c d : Call} (h : c ≠ d) : c ∈ calls ++ [d] ↔ c ∈ calls := by
  rw [List.mem_append, List.mem_singleton, or_iff_left h]

/-! ## One message -/

theorem Opens.taken (h : x.Opens s) : x.Taken sha256 [] s where
  parties := h.parties
  round := h.round
  commitments p b := by simp [h.commitments]
  shares p b := by simp [h.shares]
  commitNonces p hp := iff_of_false (fun hmem => (h.unused _ hmem p hp).1 rfl) (List.not_mem_nil)
  revealNonces p hp := iff_of_false (fun hmem => (h.unused _ hmem p hp).2 rfl) (List.not_mem_nil)

/-- a commitment is accepted and taken in -/
theorem taken_commit (h : x.Taken sha256 calls s) (hp : p ∈ x.parties) (hnew : x.commit sha256 p ∉ calls) :
    Accepted sha256 s (x.commit sha256 p) ∧
      x.Taken sha256 (calls ++ [x.commit sha256 p]) (step sha256 s (x.commit sha256 p)) := by
  have hunused : x.commitNonce p ∉ s.seenNonces := mt (h.commitNonces p hp).1 hnew
  have hfresh : p ∉ s.commitments := by
    rw [← Finmap.lookup_isSome, Option.isSome_iff_exists]
    rintro ⟨b, hb⟩
    exact hnew ((h.commitments p b).1 hb).2.1
  have hacc : Accepted sha256 s (x.commit sha256 p) :=
    accepted_submitCommit_iff.2 ⟨h.round.symm, hunused, h.parties ▸ hp, hfresh⟩
  obtain ⟨-, -, -, -, hs'⟩ := submitCommit_ok_iff.1 hacc.run_eq
  refine ⟨hacc, ?_⟩
  rw [hs']
  refine ⟨h.parties, h.round, fun q b => ?_, fun q b => ?_, fun q hq => ?_, fun q hq => ?_⟩
  · change (s.commitments.insert p _).lookup q = some b ↔ _
    rw [mem_snoc_commit]
    by_cases hqp : q = p
    · rw [hqp, Finmap.lookup_insert, Option.some.injEq]
      exact ⟨fun hb => ⟨hp, Or.inr rfl, hb.symm⟩, fun hb => hb.2.2.symm⟩
    · rw [Finmap.lookup_insert_of_ne _ hqp, h.commitments, or_iff_left hqp]
  · rw [mem_snoc_of_ne (Ne.symm commit_ne_reveal)]
    exact h.shares q b
  · change x.commitNonce q ∈ insert (x.commitNonce p) s.seenNonces ↔ _
    rw [Finset.mem_insert, h.commitNonces q hq, mem_snoc_commit, or_comm]
    exact or_congr_right ⟨x.commitNonce_inj q hq p hp, fun heq => heq ▸ rfl⟩
  · change x.revealNonce q ∈ insert (x.commitNonce p) s.seenNonces ↔ _
    rw [Finset.mem_insert, or_iff_right (Ne.symm (x.nonces_disjoint p hp q hq)), h.revealNonces q hq,
      mem_snoc_of_ne (Ne.symm commit_ne_reveal)]

/-- a reveal is accepted and taken in, behind the commitment -/
theorem taken_reveal (h : x.Taken sha256 calls s) (hp : p ∈ x.parties) (hnew : x.reveal p ∉ calls)
    (hcommitted : x.commit sha256 p ∈ calls) :
    Accepted sha256 s (x.reveal p) ∧ x.Taken sha256 (calls ++ [x.reveal p]) (step sha256 s (x.reveal p)) := by
  have hunused : x.revealNonce p ∉ s.seenNonces := mt (h.revealNonces p hp).1 hnew
  have hfresh : p ∉ s.shares := by
    rw [← Finmap.lookup_isSome, Option.isSome_iff_exists]
    rintro ⟨b, hb⟩
    exact hnew ((h.shares p b).1 hb).2.1
  have hrun : run (submitReveal sha256 ⟨p, x.share p, x.revealNonce p, x.round⟩) s =
      (.ok (), { s.burn (x.revealNonce p) with shares := s.shares.insert p (x.share p) }) :=
    submitReveal_ok_iff.2 ⟨h.round.symm, hunused, h.parties ▸ hp, hfresh, (h.commitments p _).2 ⟨hp, hcommitted, rfl⟩, rfl⟩
  have hs' : step sha256 s (x.reveal p) = { s.burn (x.revealNonce p) with shares := s.shares.insert p (x.share p) } :=
    congrArg Prod.snd hrun
  refine ⟨congrArg Prod.fst hrun, ?_⟩
  rw [hs']
  refine ⟨h.parties, h.round, fun q b => ?_, fun q b => ?_, fun q hq => ?_, fun q hq => ?_⟩
  · rw [mem_snoc_of_ne commit_ne_reveal]
    exact h.commitments q b
  · change (s.shares.insert p _).lookup q = some b ↔ _
    rw [mem_snoc_reveal]
    by_cases hqp : q = p
    · rw [hqp, Finmap.lookup_insert, Option.some.injEq]
      exact ⟨fun hb => ⟨hp, Or.inr rfl, hb.symm⟩, fun hb => hb.2.2.symm⟩
    · rw [Finmap.lookup_insert_of_ne _ hqp, h.shares, or_iff_left hqp]
  · change x.commitNonce q ∈ insert (x.revealNonce p) s.seenNonces ↔ _
    rw [Finset.mem_insert, or_iff_right (x.nonces_disjoint q hq p hp), h.commitNonces q hq, mem_snoc_of_ne commit_ne_reveal]
  · change x.revealNonce q ∈ insert (x.revealNonce p) s.seenNonces ↔ _
    rw [Finset.mem_insert, h.revealNonces q hq, mem_snoc_reveal, or_comm]
    exact or_congr_right ⟨x.revealNonce_inj q hq p hp, fun heq => heq ▸ rfl⟩

/-- a session that has burned a nonce of nobody -/
theorem Taken.burn (h : x.Taken sha256 calls s) {nonce : UInt64} (hspare : x.Spare nonce) :
    x.Taken sha256 calls (s.burn nonce) where
  parties := h.parties
  round := h.round
  commitments := h.commitments
  shares := h.shares
  commitNonces p hp := by
    change x.commitNonce p ∈ insert nonce s.seenNonces ↔ _
    rw [Finset.mem_insert, or_iff_right (Ne.symm (hspare p hp).1), h.commitNonces p hp]
  revealNonces p hp := by
    change x.revealNonce p ∈ insert nonce s.seenNonces ↔ _
    rw [Finset.mem_insert, or_iff_right (Ne.symm (hspare p hp).2), h.revealNonces p hp]

/-- a message of somebody else burns at most its nonce -/
theorem step_foreign (hs : s.parties = x.parties) {c : Call} (hc : x.Foreign c) :
    step sha256 s c = s ∨ ∃ nonce, x.Spare nonce ∧ step sha256 s c = s.burn nonce := by
  cases c with
  | registerParty p =>
    rw [step, Call.exec, run_registerParty, if_pos (hs ▸ hc)]
    exact Or.inl rfl
  | submitShare m =>
    rw [step, Call.exec, run_submitShare, if_pos (hs ▸ hc)]
    exact Or.inl rfl
  | submitCommit m =>
    have hunknown : m.partyId ∉ s.parties := hs ▸ hc.1
    rw [step, Call.exec, run_submitCommit, if_pos hunknown]
    split_ifs
    · exact Or.inl rfl
    · exact Or.inl rfl
    · exact Or.inr ⟨_, hc.2, rfl⟩
  | submitReveal m =>
    have hunknown : m.partyId ∉ s.parties := hs ▸ hc.1
    rw [step, Call.exec, run_submitReveal, if_pos hunknown]
    split_ifs
    · exact Or.inl rfl
    · exact Or.inl rfl
    · exact Or.inr ⟨_, hc.2, rfl⟩
  | advanceRound => exact hc.elim
  | applyAggregate keys m =>
    rw [step, Call.exec, run_applyAggregate]
    split_ifs
    · exact Or.inl rfl
    · exact Or.inl rfl
    · refine Or.inr ⟨_, hc, ?_⟩
      cases s.finalizeDigest sha256 keys with
      | error e => rfl
      | ok digest =>
        dsimp only
        split_ifs <;> rfl

theorem taken_foreign (h : x.Taken sha256 calls s) {c : Call} (hc : x.Foreign c) :
    x.Taken sha256 (calls ++ [c]) (step sha256 s c) := by
  -- none of the parties' messages is foreign
  have hcommit : ∀ p ∈ x.parties, x.commit sha256 p ∈ calls ++ [c] ↔ x.commit sha256 p ∈ calls := by
    intro p hp
    refine mem_snoc_of_ne fun heq => ?_
    rw [← heq] at hc
    exact hc.1 hp
  have hreveal : ∀ p ∈ x.parties, x.reveal p ∈ calls ++ [c] ↔ x.reveal p ∈ calls := by
    intro p hp
    refine mem_snoc_of_ne fun heq => ?_
    rw [← heq] at hc
    exact hc.1 hp
  have hmore : ∀ {t : MpcSession}, x.Taken sha256 calls t → x.Taken sha256 (calls ++ [c]) t := by
    intro t ht
    refine ⟨ht.parties, ht.round, fun p b => ?_, fun p b => ?_, fun p hp => ?_, fun p hp => ?_⟩
    · rw [ht.commitments]
      exact and_congr_right fun hp => and_congr_left fun _ => (hcommit p hp).symm
    · rw [ht.shares]
      exact and_congr_right fun hp => and_congr_left fun _ => (hreveal p hp).symm
    · rw [ht.commitNonces p hp, hcommit p hp]
    · rw [ht.revealNonces p hp, hreveal p hp]
  rcases step_foreign h.parties hc with heq | ⟨nonce, hspare, heq⟩
  · rw [heq]
    exact hmore h
  · rw [heq]
    exact hmore (h.burn hspare)

theorem taken_next (h : x.Taken sha256 calls s) {c : Call} (hc : x.Next sha256 calls c) :
    x.Taken sha256 (calls ++ [c]) (step sha256 s c) := by
  rcases hc with ⟨p, hp, rfl, hnew⟩ | ⟨p, hp, rfl, hnew, hcommitted⟩ | hforeign
  · exact (taken_commit h hp hnew).2
  · exact (taken_reveal h hp hnew hcommitted).2
  · exact taken_foreign h hforeign

/-! ## Schedules -/

theorem Schedule.left {pre post : List Call} (h : x.Schedule sha256 (pre ++ post)) : x.Schedule sha256 pre := by
  intro pre' c post' hpre
  exact h pre' c (post' ++ post) (by rw [hpre, List.append_assoc, List.cons_append])

theorem schedule_snoc {c : Call} (h : x.Schedule sha256 calls) (hc : x.Next sha256 calls c) :
    x.Schedule sha256 (calls ++ [c]) := by
  intro pre d post heq
  rcases List.eq_nil_or_concat post with rfl | ⟨post, e, rfl⟩
  · obtain ⟨rfl, hd⟩ := List.append_inj' heq rfl
    cases hd
    exact hc
  · rw [List.concat_eq_append, ← List.cons_append, ← List.append_assoc] at heq
    exact h pre d post (List.append_inj' heq rfl).1

theorem taken_after (hs : x.Opens s) (h : x.Schedule sha256 calls) : x.Taken sha256 calls (Run.after (step sha256) s calls) := by
  induction calls using List.reverseRecOn with
  | nil => exact hs.taken
  | append_singleton calls c ih =>
    rw [Run.after_append]
    exact taken_next (ih h.left) (h calls c [] rfl)

/-- **Every message of a party is accepted.** -/
theorem accepted_of_schedule (hs : x.Opens s) (h : x.Schedule sha256 calls) {pre post : List Call} {c : Call}
    (hcalls : calls = pre ++ c :: post) (hc : ¬ x.Foreign c) : Accepted sha256 (Run.after (step sha256) s pre) c := by
  have htaken : x.Taken sha256 pre (Run.after (step sha256) s pre) := by
    rw [hcalls] at h
    exact taken_after hs h.left
  rcases h pre c post hcalls with ⟨p, hp, rfl, hnew⟩ | ⟨p, hp, rfl, hnew, hcommitted⟩ | hforeign
  · exact (taken_commit htaken hp hnew).1
  · exact (taken_reveal htaken hp hnew hcommitted).1
  · exact absurd hforeign hc

/-- the shares of a whole exchange -/
theorem shares_of_complete (hs : x.Opens s) (h : x.Schedule sha256 calls) (hall : x.Complete calls) (p : String) :
    (Run.after (step sha256) s calls).shares.lookup p = if p ∈ x.parties then some (x.share p) else none := by
  have hiff := (taken_after hs h).shares p
  split_ifs with hp
  · exact (hiff _).2 ⟨hp, hall p hp, rfl⟩
  · cases hlookup : (Run.after (step sha256) s calls).shares.lookup p with
    | none => rfl
    | some b => exact absurd ((hiff b).1 hlookup).1 hp

/-! ## Agreement -/

theorem policy_step (s : MpcSession) (c : Call) : (step sha256 s c).policy = s.policy := by
  cases c with
  | registerParty p =>
    rw [step, Call.exec, run_registerParty]
    split_ifs <;> rfl
  | submitShare m =>
    rw [step, Call.exec, run_submitShare]
    split_ifs <;> rfl
  | submitCommit m =>
    rw [step, Call.exec, run_submitCommit]
    split_ifs <;> rfl
  | submitReveal m =>
    rw [step, Call.exec, run_submitReveal]
    cases s.commitments.lookup m.partyId with
    | none => split_ifs <;> rfl
    | some expected =>
      dsimp only
      split_ifs <;> rfl
  | advanceRound =>
    rw [step, Call.exec, run_advanceRound]
    dsimp only
    split_ifs <;> rfl
  | applyAggregate keys m =>
    rw [step, Call.exec, run_applyAggregate]
    cases s.finalizeDigest sha256 keys with
    | error e => split_ifs <;> rfl
    | ok digest =>
      dsimp only
      split_ifs <;> rfl

theorem policy_after (s : MpcSession) (calls : List Call) : (Run.after (step sha256) s calls).policy = s.policy := by
  have hstep : ∀ c ∈ calls, ∀ t : MpcSession, t.policy = s.policy → (step sha256 t c).policy = s.policy :=
    fun c _ t ht => (policy_step t c).trans ht
  exact Run.after_inv hstep rfl

variable (sha256 x) in
/-- what is hashed at the end: ids and shares, in the order of the ids -/
def digest : Bytes := (sha256 ((x.parties.sort (· ≤ ·)).flatMap fun p => utf8 p ++ x.share p)).toList

/-- the parties are the keys of the shares -/
theorem digest_of_complete (hs : x.Opens s) (h : x.Schedule sha256 calls) (hall : x.Complete calls)
    (hthreshold : s.policy.threshold.toNat ≤ x.parties.card) {keys : List String}
    (hkeys : Lists keys (Run.after (step sha256) s calls).shares) :
    (Run.after (step sha256) s calls).finalizeDigest sha256 keys = .ok (x.digest sha256) := by
  have hshares := shares_of_complete hs h hall
  have hmem : ∀ p, p ∈ (Run.after (step sha256) s calls).shares ↔ p ∈ x.parties := by
    intro p
    rw [← Finmap.lookup_isSome, hshares p]
    split_ifs with hp <;> simp [hp]
  have hparties : (Run.after (step sha256) s calls).shares.keys = x.parties := by
    ext p
    rw [Finmap.mem_keys, hmem]
  have hsort : Lists (x.parties.sort (· ≤ ·)) (Run.after (step sha256) s calls).shares :=
    ⟨x.parties.sort_nodup (· ≤ ·), fun p => by rw [Finset.mem_sort, hmem]⟩
  have hmessage : digestMessage (x.parties.sort (· ≤ ·)) (Run.after (step sha256) s calls).shares =
      (x.parties.sort (· ≤ ·)).flatMap fun p => utf8 p ++ x.share p := by
    have hsorted : (x.parties.sort (· ≤ ·)).Pairwise fun p q => decide (p ≤ q) = true :=
      (x.parties.pairwise_sort (· ≤ ·)).imp fun hpq => decide_eq_true hpq
    rw [digestMessage, List.mergeSort_of_pairwise hsorted]
    refine List.flatMap_congr fun p hp => ?_
    rw [hshares p, if_pos ((Finset.mem_sort _).1 hp), Option.getD_some]
  rw [finalizeDigest_lists hkeys hsort, finalizeDigest, if_neg, hmessage, digest]
  rw [not_not, canFinalize, policy_after, hparties]
  exact decide_eq_true hthreshold

/-- two parties -/
def pair : Exchange where
  parties := {"p1", "p2"}
  share p := utf8 p
  commitNonce p := if p = "p1" then 11 else 12
  revealNonce p := if p = "p1" then 21 else 22
  round := 1
  commitNonce_inj := by simp
  revealNonce_inj := by simp
  nonces_disjoint := by simp

def pairSession : MpcSession := { MpcSession.new ⟨2, 2, 1⟩ with parties := {"p1", "p2"} }

theorem pairSession_opens : pair.Opens pairSession := ⟨rfl, rfl, rfl, rfl, fun nonce h => absurd h (Finset.notMem_empty nonce)⟩

/-- the second party first, and a stranger in between -/
def pairCalls : List Call :=
  [pair.commit Core.sha256 "p2", pair.reveal "p2", .submitCommit ⟨"p3", [], 99, 1⟩,
    pair.commit Core.sha256 "p1", pair.reveal "p1"]

theorem pairCalls_schedule : pair.Schedule Core.sha256 pairCalls := by
  have hempty : pair.Schedule Core.sha256 [] := fun pre c post h => by simp at h
  have hp1 : "p1" ∈ pair.parties := by simp [pair]
  have hp2 : "p2" ∈ pair.parties := by simp [pair]
  have hstranger : pair.Foreign (.submitCommit ⟨"p3", [], 99, 1⟩) := by simp [Foreign, Spare, pair]
  have h1 := schedule_snoc hempty (Or.inl ⟨_, hp2, rfl, List.not_mem_nil⟩)
  have h2 := schedule_snoc h1 (Or.inr (Or.inl ⟨_, hp2, rfl, by simp [commit, reveal], by simp⟩))
  have h3 := schedule_snoc h2 (Or.inr (Or.inr hstranger))
  have h4 := schedule_snoc h3 (Or.inl ⟨_, hp1, rfl, by simp [commit, reveal]⟩)
  exact schedule_snoc h4 (Or.inr (Or.inl ⟨_, hp1, rfl, by simp [commit, reveal], by simp⟩))

end Exchange

end AbirGuard.Rust.Mpc
