/-
Does the digest of a session determine its shares?

The digest is taken of ids and shares, one after another in the order of the ids, with nothing between them that tells where an
id or a share ends. A coordinator's message is accepted if its digest is that of the own session (`apply_aggregate`).

- `digest_binds_iff`: another session has other shares and the same digest, except where the only id is empty and its share is
  not, and has no character in it.
- `digest_binds_of_lengths`: among sessions of the same parties with shares of the same lengths the digest determines them.
- `split_moves`: what is moved from an id to its share does not show.
-/
import AbirGuard.Rust.MpcSession

namespace AbirGuard.Rust.Mpc

open AbirGuard.Core Raise

namespace MpcSession

/-! ## What is hashed -/

/-- keys that are in order already -/
theorem digestMessage_sorted {keys : List String} (h : keys.Pairwise (· ≤ ·)) (m : ByteMap) :
    digestMessage keys m = keys.flatMap fun p => utf8 p ++ (m.lookup p).getD [] := by
  have hsorted : keys.Pairwise fun p q => decide (p ≤ q) = true := h.imp fun hpq => decide_eq_true hpq
  rw [digestMessage, List.mergeSort_of_pairwise hsorted]

theorem empty_le (s : String) : "" ≤ s := by
  rw [← not_lt, String.lt_iff_toList_lt]
  exact List.not_lt_nil _

theorem lists_empty : Lists [] ∅ := ⟨List.nodup_nil, fun p => by simp [Finmap.notMem_empty]⟩

theorem lists_singleton (p : String) (share : Bytes) : Lists [p] (Finmap.singleton p share) :=
  ⟨List.nodup_singleton p, fun q => by rw [List.mem_singleton, Finmap.mem_singleton]⟩

theorem digestMessage_nil (m : ByteMap) : digestMessage [] m = [] := by
  rw [digestMessage_sorted List.Pairwise.nil, List.flatMap_nil]

/-- an empty id adds nothing to its share -/
theorem digestMessage_singleton (share : Bytes) : digestMessage [""] (Finmap.singleton "" share) = share := by
  rw [digestMessage_sorted (List.pairwise_singleton ..), List.flatMap_singleton, Finmap.lookup_singleton_eq]
  rfl

/-- the shares of the empty id and of an id of one character -/
def pair (c : Char) (u v : Bytes) : ByteMap := (Finmap.singleton "" u).insert (String.singleton c) v

theorem singleton_ne (c : Char) : String.singleton c ≠ "" := by
  intro h
  simpa using congrArg String.toList h

theorem lists_pair (c : Char) (u v : Bytes) : Lists ["", String.singleton c] (pair c u v) := by
  refine ⟨by simp [(singleton_ne c).symm], fun p => ?_⟩
  rw [pair, Finmap.mem_insert, Finmap.mem_singleton, List.mem_cons, List.mem_singleton, or_comm]

/-- behind the share of the empty id, the other id reads as a part of it -/
theorem digestMessage_pair (c : Char) (u v : Bytes) :
    digestMessage ["", String.singleton c] (pair c u v) = u ++ String.utf8EncodeChar c ++ v := by
  have hempty : (pair c u v).lookup "" = some u := by
    rw [pair, Finmap.lookup_insert_of_ne _ (singleton_ne c).symm, Finmap.lookup_singleton_eq]
  have hchar : (pair c u v).lookup (String.singleton c) = some v := Finmap.lookup_insert _
  have hutf8 : utf8 (String.singleton c) = String.utf8EncodeChar c := by
    rw [utf8_eq_flatMap]
    simp
  rw [digestMessage_sorted (List.pairwise_pair.2 (empty_le _)), List.flatMap_cons, List.flatMap_singleton, hempty, hchar, hutf8,
    Option.getD_some, Option.getD_some, ← List.append_assoc]
  rfl

/-- an id that is not empty puts the encoding of a character into the message -/
theorem infix_digestMessage {keys : List String} {m : ByteMap} {p : String} (hp : p ∈ keys) (hne : p ≠ "") :
    ∃ c, String.utf8EncodeChar c <:+: digestMessage keys m := by
  cases hchars : p.toList with
  | nil => exact absurd (String.toList_eq_nil_iff.1 hchars) hne
  | cons c cs =>
    refine ⟨c, ?_⟩
    have hblock : utf8 p ++ (m.lookup p).getD [] <:+: digestMessage keys m := by
      rw [digestMessage, List.flatMap_def]
      exact List.infix_of_mem_flatten (List.mem_map_of_mem (List.mem_mergeSort.2 hp))
    have hutf8 : utf8 p = String.utf8EncodeChar c ++ cs.flatMap String.utf8EncodeChar := by
      rw [utf8_eq_flatMap, hchars, List.flatMap_cons]
    rw [hutf8, List.append_assoc] at hblock
    exact (List.prefix_append _ _).isInfix.trans hblock

/-- a message that is not empty and in which no character is encoded is that of one share of the empty id -/
theorem shares_of_bare {keys : List String} {m : ByteMap} (hkeys : Lists keys m) (hne : digestMessage keys m ≠ [])
    (hbare : ∀ c, ¬ String.utf8EncodeChar c <:+: digestMessage keys m) :
    m = Finmap.singleton "" (digestMessage keys m) := by
  -- no id puts a character into the message
  have hempty : ∀ p ∈ m, p = "" := by
    intro p hp
    by_contra hp'
    obtain ⟨c, hc⟩ := infix_digestMessage (m := m) ((hkeys.2 p).2 hp) hp'
    exact hbare c hc
  have hmem : "" ∈ m := by
    by_contra hmem
    have hnil : keys = [] := List.eq_nil_iff_forall_not_mem.2 fun p hp =>
      hmem (hempty p ((hkeys.2 p).1 hp) ▸ (hkeys.2 p).1 hp)
    rw [hnil, digestMessage_nil] at hne
    exact hne rfl
  obtain ⟨share, hlook⟩ := Finmap.mem_iff.1 hmem
  have hsingle : m = Finmap.singleton "" share := by
    refine Finmap.ext_lookup fun p => ?_
    by_cases hp : p = ""
    · rw [hp, hlook, Finmap.lookup_singleton_eq]
    · rw [Finmap.lookup_eq_none.2 fun hin => hp (hempty p hin),
        Finmap.lookup_eq_none.2 fun hin => hp ((Finmap.mem_singleton ..).1 hin)]
  have hmsg : digestMessage keys m = share := by
    rw [hsingle] at hkeys ⊢
    rw [digestMessage_lists hkeys (lists_singleton "" share), digestMessage_singleton]
  rw [hmsg, hsingle]

/-! ## When the digest binds -/

variable {sha256 : Bytes → Digest} {s s' : MpcSession} {keys keys' : List String}

theorem finalizeDigest_ok_iff {d : Bytes} : s.finalizeDigest sha256 keys = .ok d ↔
    s.canFinalize = true ∧ d = (sha256 (digestMessage keys s.shares)).toList := by
  rw [finalizeDigest]
  split_ifs with h
  · rw [Except.ok.injEq, and_iff_right h, eq_comm]
  · exact iff_of_false (fun hd => by cases hd) fun hd => h hd.1

/-- without a collision sessions have the same digest if they hash the same message -/
theorem digestMessage_eq (hinj : InjAt sha256 (digestMessage keys s.shares)) {d : Bytes}
    (h : s.finalizeDigest sha256 keys = .ok d) (h' : s'.finalizeDigest sha256 keys' = .ok d) :
    digestMessage keys' s'.shares = digestMessage keys s.shares := by
  have hd := (finalizeDigest_ok_iff.1 h).2
  rw [(finalizeDigest_ok_iff.1 h').2] at hd
  exact hinj _ (Vector.toList_inj.1 hd)

/-- a session that holds these shares and needs one -/
def holding (shares : ByteMap) : MpcSession := { MpcSession.new ⟨1, 1, 1⟩ with parties := shares.keys, shares := shares }

/-- a session that needs none -/
def idle : MpcSession := MpcSession.new ⟨0, 0, 1⟩

theorem holding_canFinalize {shares : ByteMap} {p : String} (hp : p ∈ shares) : (holding shares).canFinalize = true := by
  refine decide_eq_true ?_
  exact Finset.card_pos.2 ⟨p, Finmap.mem_keys.2 hp⟩

/-- a session with the same message has the same digest -/
theorem finalizeDigest_of_message {d : Bytes} (h : s.finalizeDigest sha256 keys = .ok d) (hcan : s'.canFinalize = true)
    (hmsg : digestMessage keys' s'.shares = digestMessage keys s.shares) : s'.finalizeDigest sha256 keys' = .ok d :=
  finalizeDigest_ok_iff.2 ⟨hcan, hmsg ▸ (finalizeDigest_ok_iff.1 h).2⟩

/-- there is a single share, of the empty id, which is not empty and in which no character is encoded -/
def OneBareShare (shares : ByteMap) : Prop :=
  ∃ share, shares = Finmap.singleton "" share ∧ share ≠ [] ∧ ∀ c, ¬ String.utf8EncodeChar c <:+: share

/-- **A digest determines the shares if and only if there is one share only, of the empty id, which is not empty and in which no
character is encoded.** -/
theorem digest_binds_iff (hkeys : Lists keys s.shares) (hinj : InjAt sha256 (digestMessage keys s.shares)) {d : Bytes}
    (h : s.finalizeDigest sha256 keys = .ok d) :
    (∀ (s' : MpcSession) (keys' : List String), Lists keys' s'.shares → s'.finalizeDigest sha256 keys' = .ok d →
      s'.shares = s.shares) ↔ OneBareShare s.shares := by
  constructor
  · intro hbinds
    -- all that is hashed may be the share of the empty id
    have hsingle : s.shares = Finmap.singleton "" (digestMessage keys s.shares) := by
      refine (hbinds (holding _) [""] (lists_singleton "" _) (finalizeDigest_of_message h ?_ ?_)).symm
      · exact holding_canFinalize (Finmap.mem_singleton .. |>.2 rfl)
      · exact digestMessage_singleton _
    refine ⟨digestMessage keys s.shares, hsingle, fun hnil => ?_, fun c hc => ?_⟩
    · -- nothing may come from no shares
      have hidle := hbinds idle [] lists_empty (finalizeDigest_of_message h rfl (hnil ▸ digestMessage_nil _))
      rw [hsingle] at hidle
      exact Finmap.notMem_empty (hidle ▸ (Finmap.mem_singleton ..).2 rfl)
    · -- a character may be an id
      obtain ⟨u, v, huv⟩ := hc
      have hpair : (holding (pair c u v)).shares = s.shares := by
        refine hbinds (holding (pair c u v)) _ (lists_pair c u v) (finalizeDigest_of_message h ?_ ?_)
        · exact holding_canFinalize ((lists_pair c u v).2 "" |>.1 List.mem_cons_self)
        · exact (digestMessage_pair c u v).trans huv
      have hmem : String.singleton c ∈ s.shares := hpair ▸ ((lists_pair c u v).2 _).1 (by simp)
      rw [hsingle, Finmap.mem_singleton] at hmem
      exact singleton_ne c hmem
  · intro ⟨share, hshare, hne, hbare⟩ s' keys' hkeys' h'
    have hmsg : digestMessage keys s.shares = share := by
      rw [hshare] at hkeys ⊢
      rw [digestMessage_lists hkeys (lists_singleton "" share), digestMessage_singleton]
    have hmsg' : digestMessage keys' s'.shares = share := (digestMessage_eq hinj h h').trans hmsg
    have hsingle := shares_of_bare hkeys' (hmsg' ▸ hne) (hmsg' ▸ hbare)
    rw [hsingle, hmsg', hshare]

/-- a message of the only share is not hashed for any other shares -/
theorem digest_binds_iff_bare :
    (∀ (s' : MpcSession) (keys' : List String), Lists keys' s'.shares →
      s'.finalizeDigest (sha256On [[255]]) keys' = .ok (Core.sha256 [255]).toList → s'.shares = Finmap.singleton "" [255]) ↔
    OneBareShare (Finmap.singleton "" [255]) := by
  have hmsg : digestMessage [""] (Finmap.singleton "" [255]) = [255] := digestMessage_singleton [255]
  have hinj : InjAt (sha256On [[255]]) (digestMessage [""] (holding (Finmap.singleton "" [255])).shares) := by
    rw [show digestMessage [""] (holding (Finmap.singleton "" [255])).shares = [255] from hmsg]
    exact injAt_sha256On (by simp) (by decide +kernel) List.mem_cons_self
  have hdigest : (holding (Finmap.singleton "" [255])).finalizeDigest (sha256On [[255]]) [""] =
      .ok (Core.sha256 [255]).toList := by
    refine finalizeDigest_ok_iff.2 ⟨holding_canFinalize ((Finmap.mem_singleton ..).2 rfl), ?_⟩
    rw [show digestMessage [""] (holding (Finmap.singleton "" [255])).shares = [255] from hmsg, sha256On, if_pos (by simp)]
  exact digest_binds_iff (s := holding (Finmap.singleton "" [255])) (lists_singleton "" [255]) hinj hdigest

/-- two sessions of one party each, whose ids are "a" and "ab" -/
theorem split_moves : ∃ s s' d,
    run (do registerParty "a"; submitShare ⟨"a", utf8 "bc"⟩) (.new ⟨1, 1, 1⟩) = (.ok (), s) ∧
    run (do registerParty "ab"; submitShare ⟨"ab", utf8 "c"⟩) (.new ⟨1, 1, 1⟩) = (.ok (), s') ∧
    s.finalizeDigest Core.sha256 ["a"] = .ok d ∧ s'.finalizeDigest Core.sha256 ["ab"] = .ok d ∧ s.shares ≠ s'.shares := by
  refine ⟨_, _, (Core.sha256 (utf8 "abc")).toList, rfl, rfl, ?_, ?_, ?_⟩
  all_goals decide +kernel

/-! ## Shares of known lengths -/

/-- blocks of the same lengths can be told apart -/
theorem flatMap_blocks {l : List String} {f g : String → Bytes} (hlen : ∀ p ∈ l, (f p).length = (g p).length)
    (h : l.flatMap f = l.flatMap g) : ∀ p ∈ l, f p = g p := by
  induction l with
  | nil => simp
  | cons q l ih =>
    rw [List.flatMap_cons, List.flatMap_cons] at h
    obtain ⟨hhead, htail⟩ := List.append_inj h (hlen q List.mem_cons_self)
    intro p hp
    rcases List.mem_cons.1 hp with rfl | hp
    · exact hhead
    · exact ih (fun p hp => hlen p (List.mem_cons_of_mem _ hp)) htail p hp

/-- **Among sessions of the same parties with shares of the same lengths, a digest determines the shares.** -/
theorem digest_binds_of_lengths (hkeys : Lists keys s.shares) (hkeys' : Lists keys s'.shares)
    (hlen : ∀ p ∈ keys, ((s.shares.lookup p).getD []).length = ((s'.shares.lookup p).getD []).length)
    (hinj : InjAt sha256 (digestMessage keys s.shares)) {d : Bytes} (h : s.finalizeDigest sha256 keys = .ok d)
    (h' : s'.finalizeDigest sha256 keys = .ok d) : s'.shares = s.shares := by
  have hmsg := digestMessage_eq hinj h h'
  rw [digestMessage, digestMessage] at hmsg
  have hblocks := flatMap_blocks (fun p hp => by
    rw [List.length_append, List.length_append, hlen p (List.mem_mergeSort.1 hp)]) hmsg
  refine Finmap.ext_lookup fun p => ?_
  by_cases hp : p ∈ keys
  · have hshare := List.append_cancel_left (hblocks p (List.mem_mergeSort.2 hp))
    obtain ⟨share, hlook⟩ := Finmap.mem_iff.1 ((hkeys.2 p).1 hp)
    obtain ⟨share', hlook'⟩ := Finmap.mem_iff.1 ((hkeys'.2 p).1 hp)
    rw [hlook, hlook', Option.getD_some, Option.getD_some] at hshare
    rw [hlook, hlook', hshare]
  · rw [Finmap.lookup_eq_none.2 fun hin => hp ((hkeys.2 p).2 hin), Finmap.lookup_eq_none.2 fun hin => hp ((hkeys'.2 p).2 hin)]

end MpcSession

end AbirGuard.Rust.Mpc
