/-
A mesh of federated vault nodes that share a key, over every run: local writes at readings of the clock that need not grow,
exports, and deltas that are delivered late, twice, in any order or never, or are made up.

- `step_cases`: an event makes one node hear one record, or changes nothing.
- `inv_run`: what a node holds under a key is the latest of the records for it that it authored or received, and its clock has
  seen all that it heard, also what it did not adopt.
- `causal`: what a node holds only advances; what was replaced never comes back, and a local write is later than all that its
  node heard. This holds whatever is delivered.
- `converges`: in a mesh in which MACs are not forged, two nodes that heard the same records for a key hold the same record.
- `trusted_of_genuine`: a network that delivers nothing but what was exported forges no MAC.
-/
import AbirGuard.Core.Run
import AbirGuard.Python.FederatedVault

namespace AbirGuard.Python.Mesh

open AbirGuard.Core AbirGuard.Core.Raise FederatedVaultNode LastWriter

/-! ## Nodes and events -/

/-- the nodes of a mesh: names of their own and one key -/
structure Cluster (ι : Type) where
  nodeId : ι → Text
  clusterKey : Bytes
  distinct : Function.Injective nodeId
  named : ∀ i, nodeId i ≠ []
  keyed : clusterKey ≠ []

variable {ι : Type}

def Cluster.start (c : Cluster ι) (i : ι) : FederatedVaultNode := ⟨c.nodeId i, c.clusterKey, 0, .empty⟩

theorem Cluster.new_eq_start (c : Cluster ι) (i : ι) : FederatedVaultNode.new (c.nodeId i) c.clusterKey = .ok (c.start i) := by
  rw [FederatedVaultNode.new, if_neg (c.named i), if_neg c.keyed]
  rfl

inductive Event (ι : Type) where
  | put (i : ι) (now : ℤ) (keyId valueB64 : Text)
  | delete (i : ι) (now : ℤ) (keyId : Text)
  | exportDelta (i : ι) (keyId : Text)
  | applyDelta (i : ι) (payload : Dict Text Text)

variable {hmac : Bytes → Bytes → Digest} {nodes : ι → FederatedVaultNode}

/-- the event is a local write of this record -/
def Authors (i : ι) (r : CrdtRecord) (nodes : ι → FederatedVaultNode) (e : Event ι) : Prop :=
  (∃ now keyId valueB64, e = .put i now keyId valueB64 ∧ (run (put now keyId valueB64) (nodes i)).1 = .ok r) ∨
    ∃ now keyId, e = .delete i now keyId ∧ (run (delete now keyId) (nodes i)).1 = .ok r

/-- the event brings a delta of this record that is accepted, whether or not the record wins -/
def Receives (hmac : Bytes → Bytes → Digest) (i : ι) (r : CrdtRecord) (nodes : ι → FederatedVaultNode) (e : Event ι) : Prop :=
  ∃ payload, e = .applyDelta i payload ∧ (nodes i).incoming hmac payload = .ok r

/-- the node authors or receives the record -/
def Hears (hmac : Bytes → Bytes → Digest) (i : ι) (r : CrdtRecord) (nodes : ι → FederatedVaultNode) (e : Event ι) : Prop :=
  Authors i r nodes e ∨ Receives hmac i r nodes e

/-- the event exports these fields -/
def Exports (p : Signed) (nodes : ι → FederatedVaultNode) (e : Event ι) : Prop :=
  ∃ i keyId r, e = .exportDelta i keyId ∧ r ∈ (nodes i).state.get keyId ∧ p = Signed.ofRecord r

/-- the event exports these fields, or brings them in a delta -/
def Presents (p : Signed) (nodes : ι → FederatedVaultNode) (e : Event ι) : Prop :=
  Exports p nodes e ∨ ∃ i payload mac, e = .applyDelta i payload ∧ Signed.parse payload = some (p, mac)

theorem hears_put (i : ι) (now : ℤ) (keyId valueB64 : Text) (nodes : ι → FederatedVaultNode) (j : ι) (x : CrdtRecord) :
    Hears hmac j x nodes (.put i now keyId valueB64) ↔ j = i ∧ x = (nodes i).written now keyId valueB64 false := by
  constructor
  · rintro ((⟨_, _, _, he, hr⟩ | ⟨_, _, he, -⟩) | ⟨_, he, -⟩)
    · cases he
      exact ⟨rfl, (Except.ok.inj hr).symm⟩
    · cases he
    · cases he
  · rintro ⟨rfl, rfl⟩
    exact Or.inl (Or.inl ⟨now, keyId, valueB64, rfl, rfl⟩)

theorem hears_delete (i : ι) (now : ℤ) (keyId : Text) (nodes : ι → FederatedVaultNode) (j : ι) (x : CrdtRecord) :
    Hears hmac j x nodes (.delete i now keyId) ↔ j = i ∧ x = (nodes i).written now keyId "" true := by
  constructor
  · rintro ((⟨_, _, _, he, -⟩ | ⟨_, _, he, hr⟩) | ⟨_, he, -⟩)
    · cases he
    · cases he
      exact ⟨rfl, (Except.ok.inj hr).symm⟩
    · cases he
  · rintro ⟨rfl, rfl⟩
    exact Or.inl (Or.inr ⟨now, keyId, rfl, rfl⟩)

theorem hears_applyDelta (i : ι) (payload : Dict Text Text) (nodes : ι → FederatedVaultNode) (j : ι) (x : CrdtRecord) :
    Hears hmac j x nodes (.applyDelta i payload) ↔ j = i ∧ (nodes i).incoming hmac payload = .ok x := by
  constructor
  · rintro ((⟨_, _, _, he, -⟩ | ⟨_, _, he, -⟩) | ⟨_, he, hr⟩)
    · cases he
    · cases he
    · cases he
      exact ⟨rfl, hr⟩
  · rintro ⟨rfl, hr⟩
    exact Or.inr ⟨payload, rfl, hr⟩

/-- a local write is later than all that the clock has seen, and names its node -/
theorem Authors.spec {i : ι} {r : CrdtRecord} {e : Event ι} (h : Authors i r nodes e) :
    (nodes i).clock < r.logicalTs ∧ r.nodeId = (nodes i).nodeId := by
  obtain ⟨now, keyId, valueB64, -, hr⟩ | ⟨now, keyId, -, hr⟩ := h
  · obtain rfl := Except.ok.inj hr
    exact ⟨clock_lt_written _ _ _ _ _, rfl⟩
  · obtain rfl := Except.ok.inj hr
    exact ⟨clock_lt_written _ _ _ _ _, rfl⟩

theorem exports_of_exportDelta {e : Event ι} {j : ι} {keyId : Text} {payload : Dict Text Text} (he : e = .exportDelta j keyId)
    (h : (nodes j).exportDelta hmac keyId = .ok payload) :
    ∃ p mac, Signed.parse payload = some (p, mac) ∧ Exports p nodes e := by
  rw [exportDelta] at h
  cases hr : (nodes j).state.get keyId with
  | none =>
    rw [hr] at h
    cases h
  | some r =>
    rw [hr] at h
    obtain ⟨mac, -, h⟩ := Outcome.bind_eq_ok h
    cases h
    exact ⟨_, mac, Signed.parse_payload _ _, j, keyId, r, he, hr, rfl⟩

/-! ## Runs -/

variable [DecidableEq ι] (hmac) (c : Cluster ι)

/-- the nodes after an event, in which the node may have raised -/
def step (nodes : ι → FederatedVaultNode) : Event ι → ι → FederatedVaultNode
  | .put i now keyId valueB64 => Function.update nodes i (run (put now keyId valueB64) (nodes i)).2
  | .delete i now keyId => Function.update nodes i (run (delete now keyId) (nodes i)).2
  | .exportDelta _ _ => nodes
  | .applyDelta i payload => Function.update nodes i (run (applyDelta hmac payload) (nodes i)).2

def after (events : List (Event ι)) : ι → FederatedVaultNode := Run.after (step hmac) c.start events

/-- the record was heard by the node in the run -/
def Heard (i : ι) (r : CrdtRecord) (events : List (Event ι)) : Prop := Run.Once (step hmac) (Hears hmac i r) c.start events

/-- the record was authored by the node in the run -/
def Authored (i : ι) (r : CrdtRecord) (events : List (Event ι)) : Prop := Run.Once (step hmac) (Authors i r) c.start events

variable {hmac c}

/-- **What an event does**: it makes one node hear one record, or nobody hears anything and nothing changes. -/
theorem step_cases (hmac : Bytes → Bytes → Digest) (hb : ∀ i, Bounded (nodes i)) (e : Event ι) :
    (∃ i r, Adopts (nodes i) r (step hmac nodes e i) ∧ (∀ j ≠ i, step hmac nodes e j = nodes j) ∧
      ∀ j x, Hears hmac j x nodes e ↔ j = i ∧ x = r) ∨
    step hmac nodes e = nodes ∧ ∀ j x, ¬ Hears hmac j x nodes e := by
  cases e with
  | put i now keyId valueB64 =>
    refine Or.inl ⟨i, _, ?_, fun j hj => Function.update_of_ne hj _ _, hears_put i now keyId valueB64 nodes⟩
    rw [step, Function.update_self]
    exact adopts_write (hb i) now keyId valueB64 false
  | delete i now keyId =>
    refine Or.inl ⟨i, _, ?_, fun j hj => Function.update_of_ne hj _ _, hears_delete i now keyId nodes⟩
    rw [step, Function.update_self]
    exact adopts_write (hb i) now keyId "" true
  | exportDelta i keyId =>
    refine Or.inr ⟨rfl, ?_⟩
    rintro j x ((⟨_, _, _, he, -⟩ | ⟨_, _, he, -⟩) | ⟨_, he, -⟩) <;> cases he
  | applyDelta i payload =>
    cases hr : (nodes i).incoming hmac payload with
    | error err =>
      refine Or.inr ⟨?_, fun j x h => ?_⟩
      · rw [step, applyDelta_error hr]
        exact Function.update_eq_self i nodes
      · rw [hears_applyDelta, hr] at h
        cases h.2
    | ok r =>
      refine Or.inl ⟨i, r, ?_, fun j hj => Function.update_of_ne hj _ _, fun j x => ?_⟩
      · rw [step, Function.update_self]
        exact adopts_applyDelta (hb i) hr
      · rw [hears_applyDelta, hr, Except.ok.injEq, eq_comm (a := r)]

/-! ## The invariant -/

variable (hmac c) in
/-- the records for a key that the node heard -/
def heardFor (events : List (Event ι)) (i : ι) (keyId : Text) : Set CrdtRecord :=
  { r | Heard hmac c i r events ∧ r.keyId = keyId }

variable (hmac c) in
/-- what holds after a run -/
structure Inv (events : List (Event ι)) : Prop where
  nodeId : ∀ i, (after hmac c events i).nodeId = c.nodeId i
  clusterKey : ∀ i, (after hmac c events i).clusterKey = c.clusterKey
  /-- the clock has seen all that the node heard -/
  clock : ∀ i r, Heard hmac c i r events → r.logicalTs ≤ (after hmac c events i).clock
  /-- the node holds the latest of the records that it heard -/
  latest : ∀ i keyId, Latest CrdtRecord.stamp (heardFor hmac c events i keyId) ((after hmac c events i).state.get keyId)

theorem Inv.bounded {events : List (Event ι)} (h : Inv hmac c events) (i : ι) : Bounded (after hmac c events i) :=
  fun keyId r hr => h.clock i r ((h.latest i keyId).mem r hr).1

theorem after_snoc (events : List (Event ι)) (e : Event ι) :
    after hmac c (events ++ [e]) = step hmac (after hmac c events) e := by
  rw [after, Run.after_append]
  rfl

theorem heard_snoc {i : ι} {r : CrdtRecord} {events : List (Event ι)} {e : Event ι} :
    Heard hmac c i r (events ++ [e]) ↔ Heard hmac c i r events ∨ Hears hmac i r (after hmac c events) e := Run.once_snoc

/-- the records heard after an event that makes a node hear one record -/
theorem heardFor_snoc {events : List (Event ι)} {e : Event ι} {i : ι} {r : CrdtRecord}
    (h : ∀ j x, Hears hmac j x (after hmac c events) e ↔ j = i ∧ x = r) :
    heardFor hmac c (events ++ [e]) i r.keyId = insert r (heardFor hmac c events i r.keyId) ∧
      ∀ j keyId, ¬ (j = i ∧ keyId = r.keyId) → heardFor hmac c (events ++ [e]) j keyId = heardFor hmac c events j keyId := by
  constructor
  · ext x
    simp only [heardFor, Set.mem_ofPred_eq, Set.mem_insert_iff, heard_snoc, h, true_and]
    constructor
    · rintro ⟨hx | rfl, hk⟩
      · exact Or.inr ⟨hx, hk⟩
      · exact Or.inl rfl
    · rintro (rfl | ⟨hx, hk⟩)
      · exact ⟨Or.inr rfl, rfl⟩
      · exact ⟨Or.inl hx, hk⟩
  · intro j keyId hne
    ext x
    simp only [heardFor, Set.mem_ofPred_eq, heard_snoc, h]
    refine and_congr_left fun hk => or_iff_left ?_
    rintro ⟨rfl, rfl⟩
    exact hne ⟨rfl, hk.symm⟩

theorem inv_snoc {events : List (Event ι)} (h : Inv hmac c events) (e : Event ι) : Inv hmac c (events ++ [e]) := by
  obtain ⟨i, r, hadopts, hothers, hhears⟩ | ⟨hsame, hnone⟩ := step_cases hmac h.bounded e
  · obtain ⟨hself, hother⟩ := heardFor_snoc hhears
    refine ⟨fun j => ?_, fun j => ?_, fun j x hx => ?_, fun j keyId => ?_⟩
    all_goals rw [after_snoc]
    all_goals by_cases hj : j = i
    · rw [hj, hadopts.nodeId, h.nodeId]
    · rw [hothers j hj, h.nodeId]
    · rw [hj, hadopts.clusterKey, h.clusterKey]
    · rw [hothers j hj, h.clusterKey]
    · rw [heard_snoc, hhears] at hx
      rw [hj] at hx ⊢
      rcases hx with hx | ⟨-, rfl⟩
      · exact (h.clock i x hx).trans hadopts.clock
      · exact hadopts.seen
    · rw [heard_snoc, hhears, or_iff_left fun hx => hj hx.1] at hx
      rw [hothers j hj]
      exact h.clock j x hx
    · rw [hj]
      by_cases hk : keyId = r.keyId
      · rw [hk, hself, hadopts.self]
        exact (h.latest i r.keyId).adopt r
      · rw [hother i keyId fun hx => hk hx.2, hadopts.other keyId hk]
        exact h.latest i keyId
    · rw [hother j keyId fun hx => hj hx.1, hothers j hj]
      exact h.latest j keyId
  · have hheard : ∀ j x, Heard hmac c j x (events ++ [e]) ↔ Heard hmac c j x events := fun j x => by
      rw [heard_snoc, or_iff_left (hnone j x)]
    have hfor : heardFor hmac c (events ++ [e]) = heardFor hmac c events := by
      funext j keyId
      simp only [heardFor, hheard]
    refine ⟨fun j => ?_, fun j => ?_, fun j x hx => ?_, fun j keyId => ?_⟩
    all_goals rw [after_snoc, hsame]
    · exact h.nodeId j
    · exact h.clusterKey j
    · exact h.clock j x ((hheard j x).1 hx)
    · rw [hfor]
      exact h.latest j keyId

/-- **After every run** each node holds the latest of the records that it heard. -/
theorem inv_run (hmac : Bytes → Bytes → Digest) (c : Cluster ι) (events : List (Event ι)) : Inv hmac c events := by
  induction events using List.reverseRecOn with
  | nil =>
    have hnone : ∀ i r, ¬ Heard hmac c i r [] := fun _ _ => Run.not_once_nil _
    refine ⟨fun _ => rfl, fun _ => rfl, fun i r hr => absurd hr (hnone i r), fun i keyId => ?_⟩
    have hempty : heardFor hmac c [] i keyId = ∅ := Set.eq_empty_of_forall_notMem fun r hr => hnone i r hr.1
    rw [hempty]
    exact latest_empty
  | append_singleton events e ih => exact inv_snoc ih e

/-! ## Causality -/

/-- an event only advances what a node holds -/
theorem advances_step (hb : ∀ i, Bounded (nodes i)) (e : Event ι) (i : ι) (keyId : Text) :
    Advances CrdtRecord.stamp ((nodes i).state.get keyId) ((step hmac nodes e i).state.get keyId) := by
  obtain ⟨j, r, hadopts, hothers, -⟩ | ⟨hsame, -⟩ := step_cases hmac hb e
  · by_cases hj : i = j
    · rw [hj]
      by_cases hk : keyId = r.keyId
      · rw [hk, hadopts.self]
        exact advances_adopt _ r
      · rw [hadopts.other keyId hk]
        exact Advances.refl _
    · rw [hothers i hj]
      exact Advances.refl _
  · rw [hsame]
    exact Advances.refl _

theorem advances_run (hmac : Bytes → Bytes → Digest) (c : Cluster ι) (pre post : List (Event ι)) (i : ι) (keyId : Text) :
    Advances CrdtRecord.stamp ((after hmac c pre i).state.get keyId) ((after hmac c (pre ++ post) i).state.get keyId) := by
  induction post using List.reverseRecOn with
  | nil =>
    rw [List.append_nil]
    exact Advances.refl _
  | append_singleton post e ih =>
    rw [← List.append_assoc, after_snoc]
    exact ih.trans (advances_step (inv_run hmac c (pre ++ post)).bounded e i keyId)

/-- a local write is later than all that its node heard before -/
theorem lt_of_authors {events : List (Event ι)} {e : Event ι} {i : ι} {r x : CrdtRecord}
    (h : Authors i r (after hmac c events) e) (hx : Heard hmac c i x events) : x.logicalTs < r.logicalTs :=
  ((inv_run hmac c events).clock i x hx).trans_lt h.spec.1

variable (hmac c) in
/-- what holds of a run, whatever is delivered -/
structure Causal (events : List (Event ι)) : Prop where
  /-- the stamp of the record that a node holds under a key never decreases -/
  grows : ∀ pre mid post, events = pre ++ mid ++ post → ∀ i keyId, ∀ r ∈ (after hmac c pre i).state.get keyId,
    ∃ r' ∈ (after hmac c (pre ++ mid) i).state.get keyId, r.stamp ≤ r'.stamp
  /-- a record that was overwritten or deleted is never held again -/
  gone : ∀ pre mid post, events = pre ++ mid ++ post → ∀ i keyId, ∀ r ∈ (after hmac c pre i).state.get keyId,
    r ∉ (after hmac c (pre ++ mid) i).state.get keyId → r ∉ (after hmac c events i).state.get keyId
  /-- nor is a record that is older than one which the node held -/
  older : ∀ pre post, events = pre ++ post → ∀ i keyId, ∀ x ∈ (after hmac c pre i).state.get keyId,
    ∀ r : CrdtRecord, r.stamp < x.stamp → r ∉ (after hmac c events i).state.get keyId
  /-- a record that the node heard before changes nothing when it is delivered again -/
  replayed : ∀ i r, Heard hmac c i r events → ∀ payload, (after hmac c events i).incoming hmac payload = .ok r →
    run (applyDelta hmac payload) (after hmac c events i) = (.ok false, after hmac c events i)
  /-- a local write is later than all that its node authored or received before -/
  later : ∀ pre e post, events = pre ++ e :: post → ∀ i r, Authors i r (after hmac c pre) e →
    ∀ x, Heard hmac c i x pre → x.logicalTs < r.logicalTs

/-- **Causality**, over every run and whatever is delivered. -/
theorem causal (hmac : Bytes → Bytes → Digest) (c : Cluster ι) (events : List (Event ι)) : Causal hmac c events where
  grows pre mid post _ i keyId r hr := (advances_run hmac c pre mid i keyId).le hr
  gone pre mid post hevents i keyId r hr hr' := by
    have hlast := advances_run hmac c (pre ++ mid) post i keyId
    rw [← hevents] at hlast
    exact (advances_run hmac c pre mid i keyId).gone hlast hr hr'
  older pre post hevents i keyId x hx r hlt hr := by
    have hlast := advances_run hmac c pre post i keyId
    rw [← hevents] at hlast
    obtain ⟨y, hy, hle⟩ := hlast.le hx
    obtain rfl := Option.mem_unique hr hy
    exact absurd hle (not_le.2 hlt)
  replayed i r hr payload hpayload := by
    obtain ⟨x, hx, hle⟩ := ((inv_run hmac c events).latest i r.keyId).le r ⟨hr, rfl⟩
    exact applyDelta_of_le hpayload hx hle
  later pre e post _ i r hr x hx := lt_of_authors hr hx

/-! ## Convergence -/

variable (hmac c) in
/-- what is taken for granted of a run: no MAC is forged, and no two texts of fields that occur in it are the same -/
structure Trusted (events : List (Event ι)) : Prop where
  /-- where a delta has the right MAC, its message was exported before -/
  unforgeable : ∀ pre i payload post p mac, events = pre ++ .applyDelta i payload :: post →
    Signed.parse payload = some (p, mac) → p.mac hmac c.clusterKey = .ok mac →
    ∃ q, Run.Once (step hmac) (Exports q) c.start pre ∧ q.message = p.message
  /-- the fields are read off the message -/
  injective : Set.InjOn Signed.message { p | Run.Once (step hmac) (Presents p) c.start events }

theorem Trusted.prefix {events post : List (Event ι)} (h : Trusted hmac c (events ++ post)) : Trusted hmac c events where
  unforgeable pre i payload post' p mac hevents :=
    h.unforgeable pre i payload (post' ++ post) p mac (by rw [hevents, List.append_assoc]; rfl)
  injective := h.injective.mono fun _ hp => hp.append post

/-- every record that is heard was authored by a node of the mesh -/
theorem authored_of_heard {events : List (Event ι)} (h : Trusted hmac c events) {i : ι} {r : CrdtRecord}
    (hr : Heard hmac c i r events) : ∃ j, Authored hmac c j r events := by
  induction events using List.reverseRecOn generalizing i with
  | nil => exact absurd hr (Run.not_once_nil _)
  | append_singleton events e ih =>
    rcases heard_snoc.1 hr with hbefore | hauthors | ⟨payload, rfl, hin⟩
    · obtain ⟨j, hj⟩ := ih h.prefix hbefore
      exact ⟨j, hj.append [e]⟩
    · exact ⟨i, Run.once_snoc.2 (Or.inr hauthors)⟩
    · obtain ⟨p, mac, hp, hm, hrecord⟩ := incoming_ok_iff.1 hin
      rw [(inv_run hmac c events).clusterKey i] at hm
      obtain ⟨q, hq, hmessage⟩ := h.unforgeable events i payload [] p mac rfl hp hm
      -- the fields are those that were exported
      have hpq : q = p := by
        refine h.injective ?_ ?_ hmessage
        · obtain ⟨pre, a, post, rfl, ha⟩ := hq
          exact Run.Once.append ⟨pre, a, post, rfl, Or.inl ha⟩ _
        · exact Run.once_snoc.2 (Or.inr (Or.inr ⟨i, payload, mac, rfl, hp⟩))
      obtain ⟨pre, a, post, hevents, j, keyId, r', -, hheld, rfl⟩ := hq
      rw [← hpq, Signed.record_ofRecord, Except.ok.injEq] at hrecord
      rw [hrecord] at hheld
      have hheard : Heard hmac c j r pre := (((inv_run hmac c pre).latest j keyId).mem r hheld).1
      obtain ⟨k, hk⟩ := ih h.prefix (hevents ▸ hheard.append (a :: post))
      exact ⟨k, hk.append _⟩

theorem Authored.heard {events : List (Event ι)} {i : ι} {r : CrdtRecord} (h : Authored hmac c i r events) :
    Heard hmac c i r events := by
  obtain ⟨pre, a, post, hevents, ha⟩ := h
  exact ⟨pre, a, post, hevents, Or.inl ha⟩

theorem Authored.nodeId {events : List (Event ι)} {i : ι} {r : CrdtRecord} (h : Authored hmac c i r events) :
    r.nodeId = c.nodeId i := by
  obtain ⟨pre, a, post, -, ha⟩ := h
  exact ha.spec.2.trans ((inv_run hmac c pre).nodeId i)

/-- no two records of the mesh have the same stamp -/
theorem stamp_injective {events : List (Event ι)} {i j : ι} {r x : CrdtRecord} (hr : Authored hmac c i r events)
    (hx : Authored hmac c j x events) (h : r.stamp = x.stamp) : r = x := by
  have hts : r.logicalTs = x.logicalTs ∧ r.nodeId = x.nodeId := Prod.ext_iff.1 (toLex.injective h)
  have hij : i = j := c.distinct (by rw [← hr.nodeId, ← hx.nodeId, hts.2])
  induction events using List.reverseRecOn with
  | nil => exact absurd hr (Run.not_once_nil _)
  | append_singleton events e ih =>
    rcases Run.once_snoc.1 hr with hr | hr <;> rcases Run.once_snoc.1 hx with hx | hx
    · exact ih hr hx
    · have hlt := lt_of_authors hx (hij ▸ Authored.heard hr)
      exact absurd hts.1 hlt.ne
    · have hlt := lt_of_authors hr (hij ▸ Authored.heard hx)
      exact absurd hts.1 hlt.ne'
    · obtain ⟨k, y, -, -, hhears⟩ | ⟨-, hnone⟩ := step_cases hmac (inv_run hmac c events).bounded e
      · exact ((hhears i r).1 (Or.inl hr)).2.trans ((hhears j x).1 (Or.inl hx)).2.symm
      · exact absurd (Or.inl hr) (hnone i r)

variable (hmac c) in
/-- what holds of a run, at every moment of it -/
structure Converges (events : List (Event ι)) : Prop where
  /-- a node holds the latest of the records for a key that it authored or received -/
  latest : ∀ pre post, events = pre ++ post → ∀ i keyId,
    Latest CrdtRecord.stamp (heardFor hmac c pre i keyId) ((after hmac c pre i).state.get keyId)
  /-- two nodes that authored or received the same records for a key hold the same one, also at different moments -/
  agree : ∀ pre post pre' post', events = pre ++ post → events = pre' ++ post' → ∀ i j keyId,
    heardFor hmac c pre i keyId = heardFor hmac c pre' j keyId →
      (after hmac c pre i).state.get keyId = (after hmac c pre' j).state.get keyId

/-- **Convergence**, over every run in which no MAC is forged. -/
theorem converges (hmac : Bytes → Bytes → Digest) (c : Cluster ι) (events : List (Event ι)) (h : Trusted hmac c events) :
    Converges hmac c events where
  latest pre _ _ := (inv_run hmac c pre).latest
  agree pre post pre' post' hpre hpre' i j keyId hsame := by
    have hi := (inv_run hmac c pre).latest i keyId
    have hj := (inv_run hmac c pre').latest j keyId
    rw [← hsame] at hj
    refine hi.unique hj fun r hr x hx hstamp => ?_
    rw [hpre] at h
    obtain ⟨k, hk⟩ := authored_of_heard h.prefix hr.1
    obtain ⟨l, hl⟩ := authored_of_heard h.prefix hx.1
    exact stamp_injective hk hl hstamp

/-! ## Networks that deliver what was exported -/

variable (hmac c) in
/-- every delta that is delivered was exported before -/
def Genuine (events : List (Event ι)) : Prop := ∀ pre i payload post, events = pre ++ .applyDelta i payload :: post →
  Run.Once (step hmac) (fun nodes e => ∃ j keyId, e = .exportDelta j keyId ∧ (nodes j).exportDelta hmac keyId = .ok payload)
    c.start pre

/-- **A network that delivers what was exported** forges no MAC. -/
theorem trusted_of_genuine {events : List (Event ι)} (h : Genuine hmac c events)
    (hclean : ∀ p, Run.Once (step hmac) (Exports p) c.start events → p.Unpaired) : Trusted hmac c events := by
  have hexported : ∀ pre i payload post p mac, events = pre ++ .applyDelta i payload :: post →
      Signed.parse payload = some (p, mac) → Run.Once (step hmac) (Exports p) c.start pre := by
    intro pre i payload post p mac hevents hp
    obtain ⟨pre', a, post', hpre, j, keyId, ha, hpayload⟩ := h pre i payload post hevents
    obtain ⟨q, mac', hq, hexports⟩ := exports_of_exportDelta ha hpayload
    rw [hp] at hq
    cases hq
    exact ⟨pre', a, post', hpre, hexports⟩
  have hpresented : ∀ p, Run.Once (step hmac) (Presents p) c.start events → p.Unpaired := by
    rintro p ⟨pre, a, post, hevents, hp | ⟨i, payload, mac, rfl, hp⟩⟩
    · exact hclean p ⟨pre, a, post, hevents, hp⟩
    · rw [hevents] at hclean
      exact hclean p ((hexported pre i payload post p mac hevents hp).append _)
  refine ⟨fun pre i payload post p mac hevents hp _ => ⟨p, hexported pre i payload post p mac hevents hp, rfl⟩, ?_⟩
  exact fun p hp q hq => Signed.message_inj (hpresented p hp) (hpresented q hq)

/-! ## A run -/

def pair : Cluster (Fin 2) where
  nodeId i := Text.ofString (if i = 0 then "a" else "b")
  clusterKey := [1]
  distinct := by decide
  named := by decide
  keyed := by decide

/-- one node writes and exports, and the delta reaches the other -/
def pairRun (payload : Dict Text Text) : List (Event (Fin 2)) :=
  [.put 0 5 "k" "dg==", .exportDelta 0 "k", .applyDelta 1 payload]

def pairRecord : CrdtRecord := ⟨"k", "dg==", 5, "a", false⟩

theorem pair_put : (after hmacSha256 pair [.put 0 5 "k" "dg=="] 0).state.get (Text.ofString "k") = some pairRecord := by decide +kernel

theorem pair_trusted {payload : Dict Text Text}
    (h : (after hmacSha256 pair [.put 0 5 "k" "dg=="] 0).exportDelta hmacSha256 "k" = .ok payload) :
    Trusted hmacSha256 pair (pairRun payload) := by
  refine trusted_of_genuine ?_ ?_
  · intro pre i payload' post hrun
    obtain ⟨rfl, rfl⟩ : pre = [.put 0 5 "k" "dg==", .exportDelta 0 "k"] ∧ payload' = payload := by
      rcases pre with _ | ⟨_, _ | ⟨_, _ | ⟨_, pre⟩⟩⟩ <;> simp_all [pairRun]
    exact ⟨[.put 0 5 "k" "dg=="], .exportDelta 0 "k", [], rfl, 0, "k", rfl, h⟩
  · intro p hp
    rw [pairRun, Run.once_cons, Run.once_cons, Run.once_cons] at hp
    rcases hp with ⟨_, _, _, he, -⟩ | ⟨i, keyId, r, he, hr, rfl⟩ | ⟨_, _, _, he, -⟩ | hp
    · cases he
    · cases he
      obtain rfl : pairRecord = r := Option.some.inj (pair_put.symm.trans hr)
      rw [Signed.Unpaired]
      simp only [Json.Unpaired]
      decide +kernel
    · cases he
    · exact absurd hp (Run.not_once_nil _)

theorem pair_converges : ∃ payload,
    (after hmacSha256 pair [.put 0 5 "k" "dg=="] 0).exportDelta hmacSha256 "k" = .ok payload ∧
      Converges hmacSha256 pair (pairRun payload) := by
  obtain ⟨m, hm⟩ := (Signed.ofRecord pairRecord).message_ok
  have hexport : (after hmacSha256 pair [.put 0 5 "k" "dg=="] 0).exportDelta hmacSha256 "k" =
      .ok ((Signed.ofRecord pairRecord).payload (Text.hexdigest (hmacSha256 [1] m).toList)) := by
    rw [exportDelta, pair_put]
    dsimp only
    rw [Signed.mac, hm]
    rfl
  exact ⟨_, hexport, converges hmacSha256 pair _ (pair_trusted hexport)⟩

end AbirGuard.Python.Mesh
