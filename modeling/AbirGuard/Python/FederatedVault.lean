/-
A node of the federated vault (`federated_vault.py`): records under keys, stamped with a logical clock, exchanged as deltas
that carry a MAC.

- `Signed.message_inj`: what the MAC is over determines the five signed fields, if their texts hold no pair of surrogates.
- `incoming_exportDelta`: what a node exports, a node with the same key accepts as the same record.
- `adopts_write`, `adopts_applyDelta`: in a node whose clock has seen all that it holds, a local write and a delta that is
  accepted both adopt a record, as in a register in which the last writer wins, and the clock sees it.
-/
import AbirGuard.Core.Dict
import AbirGuard.Core.LastWriter
import AbirGuard.Core.Raise
import AbirGuard.Python.Lang
import Mathlib.Data.Prod.Lex

namespace AbirGuard.Python

open AbirGuard.Core Raise

/-! ## Model -/

structure CrdtRecord where
  keyId : Text
  valueB64 : Text
  logicalTs : ℤ
  nodeId : Text
  tombstone : Bool
deriving DecidableEq

/-- the fields of a delta that its MAC is over -/
structure Signed where
  keyId : Text
  valueB64 : Text
  logicalTs : Text
  nodeId : Text
  tombstone : Text
deriving DecidableEq

namespace Signed

/-- a delta holds no float -/
def noFloats : FloatText Unit where
  token _ := ⟨false, [0], some [0], none⟩
  ofToken _ := ()

def members (p : Signed) : List (Text × Text) :=
  [("key_id", p.keyId), ("value_b64", p.valueB64), ("logical_ts", p.logicalTs), ("node_id", p.nodeId),
    ("tombstone", p.tombstone)]

/-- `json.dumps(signed, sort_keys=True).encode("utf-8")` -/
def message (p : Signed) : Except Exc Bytes :=
  encodeUtf8 (Json.dumpsSorted noFloats none (.obj (p.members.map fun m => (m.1, .str m.2))))

def mac (hmac : Bytes → Bytes → Digest) (clusterKey : Bytes) (p : Signed) : Except Exc Text := do
  .ok (Text.hexdigest (hmac clusterKey (← p.message)).toList)

/-- the dictionary of a delta -/
def payload (p : Signed) (mac : Text) : Dict Text Text :=
  (p.members ++ [(("mac" : Text), mac)]).foldl (fun d m => d.set m.1 m.2) .empty

/-- the required fields of a dictionary: the signed ones and the MAC -/
def parse (payload : Dict Text Text) : Option (Signed × Text) := do
  let field (name : Text) := payload.get name
  some (⟨← field "key_id", ← field "value_b64", ← field "logical_ts", ← field "node_id", ← field "tombstone"⟩, ← field "mac")

def ofRecord (r : CrdtRecord) : Signed where
  keyId := r.keyId
  valueB64 := r.valueB64
  logicalTs := str r.logicalTs
  nodeId := r.nodeId
  tombstone := if r.tombstone then "1" else "0"

def record (p : Signed) : Except Exc CrdtRecord := do
  .ok
    { keyId := p.keyId
      valueB64 := p.valueB64
      logicalTs := ← parseInt p.logicalTs
      nodeId := p.nodeId
      tombstone := decide (p.tombstone = "1") }

end Signed

structure FederatedVaultNode where
  nodeId : Text
  clusterKey : Bytes
  clock : ℤ
  state : Dict Text CrdtRecord
deriving DecidableEq

namespace FederatedVaultNode

def new (nodeId : Text) (clusterKey : Bytes) : Except Exc FederatedVaultNode :=
  if nodeId = [] then .error ⟨.valueError, "node_id cannot be empty"⟩
  else if clusterKey = [] then .error ⟨.valueError, "cluster_key cannot be empty"⟩
  else .ok ⟨nodeId, clusterKey, 0, .empty⟩

/-- the clock moves on, at least to what `time_ns` says -/
def tick (now : ℤ) : Raise Exc FederatedVaultNode ℤ := do
  modify fun n => { n with clock := max (n.clock + 1) now }
  return (← get).clock

/-- a new record of this node -/
def write (now : ℤ) (keyId valueB64 : Text) (tombstone : Bool) : Raise Exc FederatedVaultNode CrdtRecord := do
  let ts ← tick now
  let n ← get
  let record : CrdtRecord :=
    { keyId := keyId, valueB64 := valueB64, logicalTs := ts, nodeId := n.nodeId, tombstone := tombstone }
  set { n with state := n.state.set keyId record }
  return record

def put (now : ℤ) (keyId valueB64 : Text) : Raise Exc FederatedVaultNode CrdtRecord := write now keyId valueB64 false

def delete (now : ℤ) (keyId : Text) : Raise Exc FederatedVaultNode CrdtRecord := write now keyId "" true

def exportDelta (hmac : Bytes → Bytes → Digest) (keyId : Text) (n : FederatedVaultNode) : Except Exc (Dict Text Text) :=
  match n.state.get keyId with
  | none => .error ⟨.keyError, "'" ++ keyId ++ "'"⟩
  | some r => do
    let signed := Signed.ofRecord r
    .ok (signed.payload (← signed.mac hmac n.clusterKey))

/-- the record of a delta, once its fields and its MAC are checked -/
def incoming (hmac : Bytes → Bytes → Digest) (payload : Dict Text Text) (n : FederatedVaultNode) : Except Exc CrdtRecord :=
  match Signed.parse payload with
  | none => .error ⟨.federationError, "delta missing required fields"⟩
  | some (signed, mac) => do
    let equal ← compareDigest (← signed.mac hmac n.clusterKey) mac
    if equal then signed.record else .error ⟨.federationError, "delta MAC verification failed"⟩

def wins (a b : CrdtRecord) : Bool :=
  if a.logicalTs ≠ b.logicalTs then decide (b.logicalTs < a.logicalTs) else decide (b.nodeId < a.nodeId)

def applyDelta (hmac : Bytes → Bytes → Digest) (payload : Dict Text Text) : Raise Exc FederatedVaultNode Bool := do
  let n ← get
  let r ← lift (n.incoming hmac payload)
  if (n.state.get r.keyId).all fun current => wins r current then do
    set { n with state := n.state.set r.keyId r, clock := max n.clock r.logicalTs }
    return true
  else return false

end FederatedVaultNode

/-! ## Deltas -/

namespace Signed

theorem parse_payload (p : Signed) (mac : Text) : parse (p.payload mac) = some (p, mac) := by
  have hne : ∀ s t : String, s ≠ t → Text.ofString s ≠ Text.ofString t := fun s t h he => h (Text.ofString_inj.1 he)
  simp only [parse, payload, members, List.cons_append, List.nil_append, List.foldl_cons, List.foldl_nil]
  simp [Dict.get_set_of_ne, hne]

theorem record_ofRecord (r : CrdtRecord) : (ofRecord r).record = .ok r := by
  rw [record, ofRecord]
  dsimp only
  rw [parseInt_str]
  cases r with
  | mk keyId valueB64 logicalTs nodeId tombstone => cases tombstone <;> rfl

theorem noFloats_lawful : noFloats.Lawful where
  valid _ := ⟨Or.inl rfl, by simp [noFloats], fun _ h => by cases h⟩
  isFloat _ := Or.inl rfl
  ofToken_token _ := rfl

/-- the message always has an encoding -/
theorem message_ok (p : Signed) : ∃ m, p.message = .ok m := by
  obtain ⟨m, hm⟩ := Json.encode_dumps noFloats none (Json.sortKeys (.obj (p.members.map fun m => (m.1, .str m.2))))
  exact ⟨m, encodeUtf8_ok hm⟩

/-- no text holds a pair of surrogates, which JSON would join -/
def Unpaired (p : Signed) : Prop := ∀ m ∈ p.members, Json.Unpaired m.2

/-- the message determines the fields -/
theorem message_inj {p q : Signed} (hp : p.Unpaired) (hq : q.Unpaired) (h : p.message = q.message) : p = q := by
  have hkeys : ∀ p : Signed, p.members.map Prod.fst = ["key_id", "value_b64", "logical_ts", "node_id", "tombstone"].map
      Text.ofString := fun _ => rfl
  have hunique : ∀ p : Signed, Table.Unique p.members := by
    intro p
    rw [Table.Unique, hkeys, List.nodup_map_iff Text.ofString_injective]
    decide
  have hclean : ∀ p : Signed, p.Unpaired → ∀ m ∈ p.members, Json.Unpaired m.1 ∧ Json.Unpaired m.2 := by
    intro p hp m hm
    have hkey := List.mem_map_of_mem (f := Prod.fst) hm
    rw [hkeys] at hkey
    obtain ⟨s, -, hs⟩ := List.mem_map.1 hkey
    exact ⟨hs ▸ Json.unpaired_ofString s, hp m hm⟩
  have htext : Json.dumpsSorted noFloats none (.obj (p.members.map fun m => (m.1, .str m.2))) =
      Json.dumpsSorted noFloats none (.obj (q.members.map fun m => (m.1, .str m.2))) := by
    obtain ⟨b, hb⟩ := Json.encode_dumps noFloats none (Json.sortKeys (.obj (p.members.map fun m => (m.1, .str m.2))))
    obtain ⟨b', hb'⟩ := Json.encode_dumps noFloats none (Json.sortKeys (.obj (q.members.map fun m => (m.1, .str m.2))))
    rw [← Json.dumpsSorted] at hb hb'
    rw [message, message, encodeUtf8_ok hb, encodeUtf8_ok hb', Except.ok.injEq] at h
    rw [← h] at hb'
    exact Text.encode_inj hb hb'
  have hperm := Json.perm_of_dumpsSorted_eq noFloats_lawful (hunique p) (hunique q) (hclean p hp) (hclean q hq) htext
  have hmem : ∀ m ∈ p.members, m ∈ q.members := fun m hm => hperm.mem_iff.1 hm
  cases p
  cases q
  simpa [members] using hmem

end Signed

/-! ## Stamps -/

/-- what records are compared by -/
def CrdtRecord.stamp (r : CrdtRecord) : ℤ ×ₗ Text := toLex (r.logicalTs, r.nodeId)

theorem CrdtRecord.stamp_lt_of_lt {a b : CrdtRecord} (h : a.logicalTs < b.logicalTs) : a.stamp < b.stamp :=
  Prod.Lex.toLex_lt_toLex.2 (Or.inl h)

theorem CrdtRecord.logicalTs_le_of_le {a b : CrdtRecord} (h : a.stamp ≤ b.stamp) : a.logicalTs ≤ b.logicalTs := by
  rcases Prod.Lex.toLex_le_toLex.1 h with hlt | ⟨heq, -⟩
  · exact hlt.le
  · exact heq.le

namespace FederatedVaultNode

open LastWriter (adopt)

theorem wins_iff {a b : CrdtRecord} : wins a b = true ↔ b.stamp < a.stamp := by
  rw [wins, CrdtRecord.stamp, CrdtRecord.stamp, Prod.Lex.toLex_lt_toLex]
  dsimp only
  split_ifs with h
  · simp [Ne.symm h]
  · rw [not_not] at h
    simp [h]

/-! ## A node and one record -/

variable {n n' : FederatedVaultNode} {r : CrdtRecord}

/-- the clock has seen all that the node holds -/
def Bounded (n : FederatedVaultNode) : Prop := ∀ keyId, ∀ r ∈ n.state.get keyId, r.logicalTs ≤ n.clock

/-- the node adopts a record under its key, and its clock has seen it -/
structure Adopts (n : FederatedVaultNode) (r : CrdtRecord) (n' : FederatedVaultNode) : Prop where
  nodeId : n'.nodeId = n.nodeId
  clusterKey : n'.clusterKey = n.clusterKey
  clock : n.clock ≤ n'.clock
  seen : r.logicalTs ≤ n'.clock
  self : n'.state.get r.keyId = adopt CrdtRecord.stamp (n.state.get r.keyId) r
  other : ∀ keyId ≠ r.keyId, n'.state.get keyId = n.state.get keyId

/-- the record of a local write -/
def written (now : ℤ) (keyId valueB64 : Text) (tombstone : Bool) (n : FederatedVaultNode) : CrdtRecord :=
  ⟨keyId, valueB64, max (n.clock + 1) now, n.nodeId, tombstone⟩

theorem run_write (now : ℤ) (keyId valueB64 : Text) (tombstone : Bool) (n : FederatedVaultNode) :
    run (write now keyId valueB64 tombstone) n =
      (.ok (n.written now keyId valueB64 tombstone),
        { n with
          clock := max (n.clock + 1) now
          state := n.state.set keyId (n.written now keyId valueB64 tombstone) }) := rfl

/-- a local write is later than all that the clock has seen -/
theorem clock_lt_written (now : ℤ) (keyId valueB64 : Text) (tombstone : Bool) (n : FederatedVaultNode) :
    n.clock < (n.written now keyId valueB64 tombstone).logicalTs := (Int.lt_add_one_iff.2 le_rfl).trans_le (le_max_left _ _)

theorem adopts_write (hb : Bounded n) (now : ℤ) (keyId valueB64 : Text) (tombstone : Bool) :
    Adopts n (n.written now keyId valueB64 tombstone) (run (write now keyId valueB64 tombstone) n).2 := by
  have hlt := clock_lt_written now keyId valueB64 tombstone n
  rw [run_write]
  refine ⟨rfl, rfl, hlt.le, le_refl _, ?_, fun k hk => Dict.get_set_of_ne (Ne.symm hk) _ _⟩
  rw [LastWriter.adopt_of_lt]
  · exact Dict.get_set_self _ _ _
  · exact fun x hx => CrdtRecord.stamp_lt_of_lt ((hb _ x hx).trans_lt hlt)

variable {hmac : Bytes → Bytes → Digest} {payload : Dict Text Text}

theorem run_applyDelta (hr : n.incoming hmac payload = .ok r) : run (applyDelta hmac payload) n =
    if ∀ x ∈ n.state.get r.keyId, x.stamp < r.stamp then
      (.ok true, { n with state := n.state.set r.keyId r, clock := max n.clock r.logicalTs })
    else (.ok false, n) := by
  have hall : ((n.state.get r.keyId).all fun current => wins r current) = true ↔
      ∀ x ∈ n.state.get r.keyId, x.stamp < r.stamp := by
    simp only [Option.all_eq_true, wins_iff, Option.mem_def]
  rw [applyDelta, run_get_bind, run_lift_bind, hr]
  dsimp only
  rw [run_ite]
  exact if_congr hall rfl rfl

/-- a delta that is refused changes nothing -/
theorem applyDelta_error {e : Exc} (hr : n.incoming hmac payload = .error e) :
    run (applyDelta hmac payload) n = (.error e, n) := by
  rw [applyDelta, run_get_bind, run_lift_bind, hr]

theorem adopts_applyDelta (hb : Bounded n) (hr : n.incoming hmac payload = .ok r) :
    Adopts n r (run (applyDelta hmac payload) n).2 := by
  rw [run_applyDelta hr]
  split_ifs with hlt
  · refine ⟨rfl, rfl, le_max_left _ _, le_max_right _ _, ?_, fun k hk => Dict.get_set_of_ne (Ne.symm hk) _ _⟩
    rw [LastWriter.adopt_of_lt hlt]
    exact Dict.get_set_self _ _ _
  · -- what the node holds is as late as the record, so the clock has seen that too
    push Not at hlt
    obtain ⟨x, hx, hle⟩ := hlt
    refine ⟨rfl, rfl, le_refl _, (CrdtRecord.logicalTs_le_of_le hle).trans (hb _ x hx), ?_, fun _ _ => rfl⟩
    rw [LastWriter.adopt_of_le hx hle]

/-- a delta of a record that is not later than what the node holds changes nothing -/
theorem applyDelta_of_le {x : CrdtRecord} (hr : n.incoming hmac payload = .ok r) (hx : x ∈ n.state.get r.keyId)
    (hle : r.stamp ≤ x.stamp) : run (applyDelta hmac payload) n = (.ok false, n) := by
  rw [run_applyDelta hr, if_neg]
  exact fun h => absurd (h x hx) (not_lt.2 hle)

/-! ## Deltas between nodes -/

/-- a delta is accepted if and only if its MAC is the one of its fields, and then it carries their record -/
theorem incoming_ok_iff : n.incoming hmac payload = .ok r ↔
    ∃ signed mac, Signed.parse payload = some (signed, mac) ∧ signed.mac hmac n.clusterKey = .ok mac ∧
      signed.record = .ok r := by
  rw [incoming]
  cases hp : Signed.parse payload with
  | none => simp
  | some p =>
    obtain ⟨signed, mac⟩ := p
    obtain ⟨m, hm⟩ := signed.message_ok
    have hexpected : signed.mac hmac n.clusterKey = .ok (Text.hexdigest (hmac n.clusterKey m).toList) := by
      rw [Signed.mac, hm]
      rfl
    have hcompare : compareDigest (Text.hexdigest (hmac n.clusterKey m).toList) mac = .ok true ↔
        Text.ofString (Text.hexdigest (hmac n.clusterKey m).toList) = mac := compareDigest_true_iff (hexdigest_ascii _)
    dsimp only
    rw [hexpected, Outcome.ok_bind]
    constructor
    · intro h
      obtain ⟨equal, hequal, h⟩ := Outcome.bind_eq_ok h
      cases equal with
      | false => cases h
      | true => exact ⟨signed, mac, rfl, hexpected.trans (congrArg Except.ok (hcompare.1 hequal)), h⟩
    · rintro ⟨signed', mac', hpair, hmac', hrecord⟩
      cases hpair
      rw [hexpected, Except.ok.injEq] at hmac'
      rw [hcompare.2 hmac']
      exact hrecord

/-- what a node exports, a node with the same key accepts as the same record -/
theorem incoming_exportDelta {m : FederatedVaultNode} (hkey : m.clusterKey = n.clusterKey) {keyId : Text}
    (hr : n.state.get keyId = some r) (hp : n.exportDelta hmac keyId = .ok payload) : m.incoming hmac payload = .ok r := by
  rw [exportDelta, hr] at hp
  obtain ⟨mac, hm, hp⟩ := Outcome.bind_eq_ok hp
  cases hp
  exact incoming_ok_iff.2 ⟨_, mac, Signed.parse_payload _ _, hkey ▸ hm, Signed.record_ofRecord r⟩

end FederatedVaultNode

end AbirGuard.Python
