/-
Deliveries to an MPC session: the order of messages, and what a refused message leaves behind.

- `delivery_order_irrelevant`: two orders in which all messages of a multiset are accepted lead to the same session and the
  same digest.
- `refused_atomic_iff`: a refused message leaves the session as it was if and only if it fails before its nonce is registered.
- `outsider_blocks_party`: a message of an unknown party uses up the nonce of a registered one.
-/
import AbirGuard.Rust.MpcSession

namespace AbirGuard.Rust.Mpc

open AbirGuard.Core Raise MpcSession

variable {sha256 : Bytes → Digest} {s t : MpcSession}

/-! ## The order of messages -/

inductive Message where
  | commit (m : CommitSubmission)
  | reveal (m : RevealSubmission)
deriving DecidableEq

def Message.nonce : Message → UInt64
  | .commit m => m.nonce
  | .reveal m => m.nonce

def submit (sha256 : Bytes → Digest) : Message → SessionM Unit
  | .commit m => submitCommit m
  | .reveal m => submitReveal sha256 m

/-- one message after another, as long as they are accepted -/
def deliver (sha256 : Bytes → Digest) : List Message → SessionM Unit
  | [] => return ()
  | m :: rest => do
    submit sha256 m
    deliver sha256 rest

/-- t is s with these messages taken in; nothing here depends on their order -/
structure Absorbed (s t : MpcSession) (messages : List Message) : Prop where
  frame : t = { s with commitments := t.commitments, shares := t.shares, seenNonces := t.seenNonces }
  seenNonces : ∀ n, n ∈ t.seenNonces ↔ n ∈ s.seenNonces ∨ ∃ m ∈ messages, m.nonce = n
  commitments : ∀ p c, t.commitments.lookup p = some c ↔
    s.commitments.lookup p = some c ∨ ∃ m, .commit m ∈ messages ∧ m.partyId = p ∧ m.commitment = c
  shares : ∀ p x, t.shares.lookup p = some x ↔
    s.shares.lookup p = some x ∨ ∃ m, .reveal m ∈ messages ∧ m.partyId = p ∧ m.share = x

theorem lookup_insert_iff {m : ByteMap} {p q : String} {b c : Bytes} (hp : p ∉ m) :
    (m.insert p b).lookup q = some c ↔ m.lookup q = some c ∨ p = q ∧ b = c := by
  by_cases hq : q = p
  · rw [hq, Finmap.lookup_insert, Finmap.lookup_eq_none.2 hp]
    simp
  · rw [Finmap.lookup_insert_of_ne _ hq]
    simp [Ne.symm hq]

/-- what one accepted message does -/
theorem absorbed_submit {m : Message} (h : run (submit sha256 m) s = (.ok (), t)) : Absorbed s t [m] := by
  cases m with
  | commit m =>
    obtain ⟨-, -, -, hfresh, rfl⟩ := submitCommit_ok_iff.1 h
    refine ⟨rfl, fun n => ?_, fun p c => ?_, fun p x => ?_⟩
    · simp [burn, Message.nonce, or_comm, eq_comm]
    · rw [lookup_insert_iff hfresh]
      simp
    · simp [burn]
  | reveal m =>
    obtain ⟨-, -, -, hfresh, -, rfl⟩ := submitReveal_ok_iff.1 h
    refine ⟨rfl, fun n => ?_, fun p c => ?_, fun p x => ?_⟩
    · simp [burn, Message.nonce, or_comm, eq_comm]
    · simp [burn]
    · rw [lookup_insert_iff hfresh]
      simp

theorem Absorbed.trans {u : MpcSession} {l l' : List Message} (h : Absorbed s t l) (h' : Absorbed t u l') :
    Absorbed s u (l ++ l') := by
  refine ⟨?_, fun n => ?_, fun p c => ?_, fun p x => ?_⟩
  · rw [h'.frame, h.frame]
  · rw [h'.seenNonces, h.seenNonces, or_assoc]
    simp [or_and_right, exists_or]
  · rw [h'.commitments, h.commitments, or_assoc]
    simp [or_and_right, exists_or]
  · rw [h'.shares, h.shares, or_assoc]
    simp [or_and_right, exists_or]

theorem absorbed_deliver {messages : List Message} (h : run (deliver sha256 messages) s = (.ok (), t)) :
    Absorbed s t messages := by
  induction messages generalizing s with
  | nil =>
    cases h
    exact ⟨rfl, by simp, by simp, by simp⟩
  | cons m rest ih =>
    obtain ⟨_, u, hm, hrest⟩ := run_bind_eq_ok h
    exact (absorbed_submit hm).trans (ih hrest)

/-- the session that takes in the messages is determined by which ones they are -/
theorem Absorbed.unique {t' : MpcSession} {l l' : List Message} (h : Absorbed s t l) (h' : Absorbed s t' l')
    (hmem : ∀ m, m ∈ l ↔ m ∈ l') : t = t' := by
  have hseen : t.seenNonces = t'.seenNonces := by
    ext n
    rw [h.seenNonces, h'.seenNonces]
    simp only [hmem]
  have hcom : t.commitments = t'.commitments := by
    refine Finmap.ext_lookup fun p => Option.ext fun c => ?_
    rw [h.commitments, h'.commitments]
    simp only [hmem]
  have hshares : t.shares = t'.shares := by
    refine Finmap.ext_lookup fun p => Option.ext fun x => ?_
    rw [h.shares, h'.shares]
    simp only [hmem]
  rw [h.frame, h'.frame, hseen, hcom, hshares]

/-- **The order of delivery does not matter** to the session or, in whatever order its map is iterated, to the digest. -/
theorem delivery_order_irrelevant (sha256 : Bytes → Digest) (s : MpcSession) {l l' : List Message} (hperm : l.Perm l')
    {t t' : MpcSession} (h : run (deliver sha256 l) s = (.ok (), t)) (h' : run (deliver sha256 l') s = (.ok (), t')) :
    t = t' ∧ ∀ keys keys', Lists keys t.shares → Lists keys' t'.shares →
      t.finalizeDigest sha256 keys = t'.finalizeDigest sha256 keys' := by
  obtain rfl : t = t' := (absorbed_deliver h).unique (absorbed_deliver h') fun m => hperm.mem_iff
  exact ⟨rfl, fun keys keys' hkeys hkeys' => finalizeDigest_lists hkeys hkeys'⟩

/-- a session of two parties -/
def duoSession : MpcSession := { MpcSession.new ⟨2, 2, 1⟩ with parties := {"p1", "p2"} }

/-- two commitments and two reveals -/
def exchange : List Message :=
  [.commit ⟨"p1", commitmentFor Core.sha256 [1], 11, 1⟩, .commit ⟨"p2", commitmentFor Core.sha256 [2], 12, 1⟩,
    .reveal ⟨"p1", [1], 21, 1⟩, .reveal ⟨"p2", [2], 22, 1⟩]

/-- each party reveals right after it has committed, the second one first -/
def otherExchange : List Message :=
  [.commit ⟨"p2", commitmentFor Core.sha256 [2], 12, 1⟩, .reveal ⟨"p2", [2], 22, 1⟩,
    .commit ⟨"p1", commitmentFor Core.sha256 [1], 11, 1⟩, .reveal ⟨"p1", [1], 21, 1⟩]

theorem delivered {messages : List Message} (h : (run (deliver sha256 messages) s).1 = .ok ()) :
    run (deliver sha256 messages) s = (.ok (), (run (deliver sha256 messages) s).2) := Prod.ext h rfl

theorem delivery_order_irrelevant_duo :
    (run (deliver Core.sha256 exchange) duoSession).2 = (run (deliver Core.sha256 otherExchange) duoSession).2 ∧
    ∀ keys keys', Lists keys (run (deliver Core.sha256 exchange) duoSession).2.shares →
      Lists keys' (run (deliver Core.sha256 otherExchange) duoSession).2.shares →
      (run (deliver Core.sha256 exchange) duoSession).2.finalizeDigest Core.sha256 keys =
        (run (deliver Core.sha256 otherExchange) duoSession).2.finalizeDigest Core.sha256 keys' :=
  delivery_order_irrelevant Core.sha256 duoSession (by decide +kernel) (delivered (by decide +kernel))
    (delivered (by decide +kernel))

/-! ## What a refused message leaves behind -/

inductive Request where
  | share (m : ShareSubmission)
  | commit (m : CommitSubmission)
  | reveal (m : RevealSubmission)
  /-- with the order in which the shares are iterated -/
  | aggregate (keys : List String) (m : AggregateMessage)
deriving DecidableEq

def Request.exec (sha256 : Bytes → Digest) : Request → SessionM Unit
  | .share m => submitShare m
  | .commit m => submitCommit m
  | .reveal m => submitReveal sha256 m
  | .aggregate keys m => applyAggregate sha256 keys m

/-- the request fails with an error only without any change -/
def Atomic (sha256 : Bytes → Digest) (s : MpcSession) (r : Request) : Prop :=
  ∀ e, (run (r.exec sha256) s).1 = .error e → (run (r.exec sha256) s).2 = s

/-- a request that passes the checks of round and nonce passes the later ones, too -/
def NotLate (sha256 : Bytes → Digest) (s : MpcSession) : Request → Prop
  | .share _ => True
  | .commit m => m.round = s.round → m.nonce ∉ s.seenNonces → m.partyId ∈ s.parties ∧ m.partyId ∉ s.commitments
  | .reveal m => m.round = s.round → m.nonce ∉ s.seenNonces → m.partyId ∈ s.parties ∧ m.partyId ∉ s.shares ∧
    s.commitments.lookup m.partyId = some (commitmentFor sha256 m.share)
  | .aggregate keys m => m.round = s.round → m.nonce ∉ s.seenNonces → s.finalizeDigest sha256 keys = .ok m.digest

/-- a new nonce is a change -/
theorem burn_ne {nonce : UInt64} (h : nonce ∉ s.seenNonces) : s.burn nonce ≠ s := by
  intro heq
  have hseen := congrArg MpcSession.seenNonces heq
  exact h (Finset.insert_eq_self.1 hseen)

/-- behind the checks of round and nonce, a program that changes nothing when it fails: an error there is a change -/
theorem atomic_checked_iff {round : UInt32} {nonce : UInt64} {x : SessionM Unit}
    (hx : ∀ u e, (run x u).1 = .error e → (run x u).2 = u) :
    (∀ e, (run (do
        ensureRound round
        registerNonce nonce
        x) s).1 = .error e → (run (do
        ensureRound round
        registerNonce nonce
        x) s).2 = s) ↔
      (round = s.round → nonce ∉ s.seenNonces → ∃ s', run (do
        ensureRound round
        registerNonce nonce
        x) s = (.ok (), s')) := by
  rw [run_checked]
  by_cases hr : round = s.round
  · rw [if_neg (not_not.2 hr)]
    by_cases hn : nonce ∈ s.seenNonces
    · rw [if_pos hn]
      exact iff_of_true (fun _ _ => rfl) fun _ hn' => absurd hn hn'
    · rw [if_neg hn]
      have hfail := hx (s.burn nonce)
      revert hfail
      rcases run x (s.burn nonce) with ⟨e | u, t⟩
      · -- the error comes too late
        intro hfail
        obtain rfl : t = s.burn nonce := hfail e rfl
        refine iff_of_false (fun h => burn_ne hn (h e rfl)) fun h => ?_
        obtain ⟨s', hs'⟩ := h hr hn
        cases hs'
      · exact fun _ => iff_of_true (fun e he => by cases he) fun _ _ => ⟨t, rfl⟩
  · rw [if_pos hr]
    exact iff_of_true (fun _ _ => rfl) fun hr' => absurd hr' hr

theorem atomic_share (m : ShareSubmission) : Atomic sha256 s (.share m) := by
  intro e
  rw [Request.exec, run_submitShare]
  split_ifs <;> intro he <;> first | rfl | cases he

theorem atomic_commit_iff (m : CommitSubmission) : Atomic sha256 s (.commit m) ↔ NotLate sha256 s (.commit m) := by
  have hiff : Atomic sha256 s (.commit m) ↔ (m.round = s.round → m.nonce ∉ s.seenNonces →
      ∃ s', run (submitCommit m) s = (.ok (), s')) := by
    refine atomic_checked_iff fun u e => ?_
    rw [run_get_bind, run_ite, run_ite]
    split_ifs <;> intro he <;> first | rfl | cases he
  rw [hiff]
  refine forall_congr' fun hr => forall_congr' fun hn => ?_
  simp only [submitCommit_ok_iff, exists_and_left, exists_eq, and_true]
  exact ⟨fun h => h.2.2, fun h => ⟨hr, hn, h⟩⟩

theorem atomic_reveal_iff (m : RevealSubmission) : Atomic sha256 s (.reveal m) ↔ NotLate sha256 s (.reveal m) := by
  have hiff : Atomic sha256 s (.reveal m) ↔ (m.round = s.round → m.nonce ∉ s.seenNonces →
      ∃ s', run (submitReveal sha256 m) s = (.ok (), s')) := by
    refine atomic_checked_iff fun u e => ?_
    rw [run_get_bind, run_ite, run_ite]
    cases u.commitments.lookup m.partyId with
    | none => split_ifs <;> exact fun _ => rfl
    | some expected =>
      dsimp only
      rw [run_ite]
      split_ifs <;> intro he <;> first | rfl | cases he
  rw [hiff]
  refine forall_congr' fun hr => forall_congr' fun hn => ?_
  simp only [submitReveal_ok_iff, exists_and_left, exists_eq, and_true]
  exact ⟨fun h => h.2.2, fun h => ⟨hr, hn, h⟩⟩

theorem atomic_aggregate_iff (keys : List String) (m : AggregateMessage) :
    Atomic sha256 s (.aggregate keys m) ↔ NotLate sha256 s (.aggregate keys m) := by
  have hiff : Atomic sha256 s (.aggregate keys m) ↔ (m.round = s.round → m.nonce ∉ s.seenNonces →
      ∃ s', run (applyAggregate sha256 keys m) s = (.ok (), s')) := by
    refine atomic_checked_iff fun u e => ?_
    rw [run_get_bind, run_lift_bind]
    cases u.finalizeDigest sha256 keys with
    | error e' => exact fun _ => rfl
    | ok digest =>
      dsimp only
      rw [run_ite]
      split_ifs <;> exact fun _ => rfl
  rw [hiff]
  refine forall_congr' fun hr => forall_congr' fun hn => ?_
  rw [run_applyAggregate, if_neg (not_not.2 hr), if_neg hn]
  cases s.finalizeDigest sha256 keys with
  | error e => exact iff_of_false (fun ⟨_, h⟩ => by cases h) fun h => by cases h
  | ok digest =>
    dsimp only
    rw [Except.ok.injEq]
    split_ifs with hd
    · exact iff_of_false (fun ⟨_, h⟩ => by cases h) hd
    · exact iff_of_true ⟨_, rfl⟩ (not_not.1 hd)

/-- **A refused request leaves the session as it was** if and only if it does not fail after its nonce was registered. -/
theorem refused_atomic_iff (sha256 : Bytes → Digest) (s : MpcSession) (r : Request) :
    Atomic sha256 s r ↔ NotLate sha256 s r := by
  cases r with
  | share m => exact iff_of_true (atomic_share m) trivial
  | commit m => exact atomic_commit_iff m
  | reveal m => exact atomic_reveal_iff m
  | aggregate keys m => exact atomic_aggregate_iff keys m

/-- an outsider uses the nonce that a party is about to use -/
def outsiderCommit : CommitSubmission := ⟨"mallory", [], 11, 1⟩

def partyCommit : CommitSubmission := ⟨"p1", commitmentFor Core.sha256 [1], 11, 1⟩

theorem outsider_blocks_party :
    (run (submitCommit outsiderCommit) duoSession).1 = .error (.unknownParty "mallory") ∧
    (run (submitCommit outsiderCommit) duoSession).2 ≠ duoSession ∧
    (run (submitCommit partyCommit) duoSession).1 = .ok () ∧
    (run (submitCommit partyCommit) (run (submitCommit outsiderCommit) duoSession).2).1 = .error (.replayDetected 11) := by
  decide +kernel

end AbirGuard.Rust.Mpc
