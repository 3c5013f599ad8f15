/-
Attestation: integrity proofs and their verifier (`attestation.py`).

A proof is an object with seven attributes, sent as a dictionary. The verifier sets the entries of a dictionary on a fresh
proof, so its attributes may be of any type that a dictionary carries; a name that is none of the seven sets an attribute
that nothing reads, except that `verify` hides the method. The names `__class__` and `__dict__` are left out.

- `ofDict_toDict`: the verifier gets back the proof whose dictionary it is given.
- `Genuine`: a proof on which nothing but `compute` was called (`genuine_new`, `genuine_compute`).
- `verifyProof_true_iff`: when a dictionary verifies.
- `verifyProof_genuine_iff`: such a proof verifies if and only if it was computed, for a challenge that has an encoding and is
  not stale.
-/
import AbirGuard.Core.Dict
import AbirGuard.Python.Lang

namespace AbirGuard.Python

open AbirGuard.Core

/-! ## Model -/

/-- a value of a proof dictionary -/
inductive Value where
  | str (t : Text)
  | float (x : ℚ)
  | int (n : ℤ)
  /-- any other object: its type, its text, and whether it may be a key of a dictionary -/
  | other (type : String) (text : Text) (hashable : Bool)
deriving DecidableEq

/-- the value in an f-string -/
def Value.format (l : Libs) : Value → Text
  | .str t => t
  | .float x => l.floatRepr x
  | .int n => toString n
  | .other _ text _ => text

/-- `type(v).__name__` -/
def Value.typeName : Value → String
  | .str _ => "str"
  | .float _ => "float"
  | .int _ => "int"
  | .other type _ _ => type

def Value.hashable : Value → Bool
  | .other _ _ hashable => hashable
  | _ => true

structure IntegrityProof where
  timestamp : Value
  challenge : Value
  binaryHash : Value
  environmentHash : Value
  memoryCanary : Value
  processId : Value
  signature : Value
deriving DecidableEq

namespace IntegrityProof

def new (η : Host) : IntegrityProof where
  timestamp := .float (η.clock .proof)
  challenge := .str ""
  binaryHash := .str ""
  environmentHash := .str ""
  memoryCanary := .str ""
  processId := .int η.pid
  signature := .str ""

variable (l : Libs)

def hashBinary (η : Host) : String :=
  match η.binary with
  | some b => Text.hexdigest (l.sha256 b).toList
  | none => "unavailable"

def criticalVars : List Text :=
  ["LD_PRELOAD", "LD_LIBRARY_PATH", "PYTHONPATH", "PYTHONINSPECT", "ABIR_GUARD_KEY", "PATH", "HOME", "USER"]

def hashEnvironment (η : Host) : String :=
  let vars := η.environ.filter fun e => e.1 ∈ criticalVars
  let sorted := vars.mergeSort fun e e' => e.1 < e'.1 ∨ e.1 = e'.1 ∧ e.2 ≤ e'.2
  Text.hexdigest (l.sha256 (utf8 (l.itemsRepr sorted))).toList

/-- what the signature is over -/
def proofData (p : IntegrityProof) : Text :=
  p.timestamp.format l ++ ":" ++ p.challenge.format l ++ ":" ++ p.binaryHash.format l ++ ":" ++
    p.environmentHash.format l ++ ":" ++ p.memoryCanary.format l ++ ":" ++ p.processId.format l

/-- the signature that belongs to the other attributes -/
def expectedSig (p : IntegrityProof) : Except Exc Text := do
  .ok (Text.hexdigest (l.sha3_256 (← encodeUtf8 (p.proofData l))).toList)

/-- the result and the object that it leaves: an exception leaves the attributes set so far -/
def compute (η : Host) (challenge expectedBinaryHash : Text) (p : IntegrityProof) : Except Exc Unit × IntegrityProof :=
  let p := { p with
    challenge := .str challenge
    binaryHash := .str (hashBinary l η)
    environmentHash := .str (hashEnvironment l η)
    memoryCanary := .str (Text.hexdigest η.memoryCanary.toList) }
  match p.expectedSig l with
  | .error e => (.error e, p)
  | .ok sig =>
    let p := { p with signature := .str sig }
    if expectedBinaryHash ≠ [] ∧ p.binaryHash ≠ .str expectedBinaryHash then
      (.error ⟨.attestationError, "Binary hash mismatch! Expected: " ++ expectedBinaryHash.take 16 ++ "..., Got: " ++
        (p.binaryHash.format l).take 16 ++ "..."⟩, p)
    else (.ok (), p)

def verify (expectedBinaryHash : Text) (p : IntegrityProof) : Except Exc Bool :=
  if expectedBinaryHash ≠ [] ∧ p.binaryHash ≠ .str expectedBinaryHash then .ok false
  else do .ok (decide (p.signature = .str (← p.expectedSig l)))

def toDict (p : IntegrityProof) : List (Text × Value) :=
  [("timestamp", p.timestamp), ("challenge", p.challenge), ("binary_hash", p.binaryHash),
    ("environment_hash", p.environmentHash), ("memory_canary", p.memoryCanary), ("process_id", p.processId),
    ("signature", p.signature)]

/-- `setattr(proof, key, value)` -/
def setattr (p : IntegrityProof) (key : Text) (v : Value) : IntegrityProof :=
  if key = "timestamp" then { p with timestamp := v }
  else if key = "challenge" then { p with challenge := v }
  else if key = "binary_hash" then { p with binaryHash := v }
  else if key = "environment_hash" then { p with environmentHash := v }
  else if key = "memory_canary" then { p with memoryCanary := v }
  else if key = "process_id" then { p with processId := v }
  else if key = "signature" then { p with signature := v }
  else p

/-- a fresh proof with the entries of a dictionary set on it -/
def ofDict (η : Host) (proofDict : List (Text × Value)) : IntegrityProof :=
  proofDict.foldl (fun p e => setattr p e.1 e.2) (new η)

end IntegrityProof

structure AttestationVerifier where
  knownHashes : Dict Text Text
  challenges : Dict Text ℚ

namespace AttestationVerifier

def new : AttestationVerifier := ⟨.empty, .empty⟩

def registerBinary (name sha256Hash : Text) (a : AttestationVerifier) : AttestationVerifier :=
  { a with knownHashes := a.knownHashes.set name sha256Hash }

def generateChallenge (η : Host) (a : AttestationVerifier) : Text × AttestationVerifier :=
  let challenge : Text := Text.hexdigest η.challenge.toList
  (challenge, { a with challenges := a.challenges.set challenge (η.clock .challenge) })

/-- the challenge was issued here, more than five minutes ago -/
def stale (η : Host) (challenge : Value) (a : AttestationVerifier) : Bool :=
  match challenge with
  | .str t =>
    match a.challenges.get t with
    | some issued => η.clock .freshness - issued > 300
    | none => false
  | _ => false

/-- the binary is registered, with another hash -/
def mismatch (expectedBinary : Text) (binaryHash : Value) (a : AttestationVerifier) : Bool :=
  match a.knownHashes.get expectedBinary with
  | some h => h ≠ [] ∧ binaryHash ≠ .str h
  | none => false

def verifyProof (l : Libs) (η : Host) (proofDict : List (Text × Value)) (expectedBinary : Text)
    (a : AttestationVerifier) : Except Exc Bool := do
  let proof := IntegrityProof.ofDict η proofDict
  match proofDict.find? fun e => decide (e.1 = Text.ofString "verify") with
  | some e => .error ⟨.typeError, s!"'{e.2.typeName}' object is not callable"⟩
  | none =>
    let valid ← proof.verify l []
    if ¬ valid then .ok false
    else if expectedBinary ≠ [] ∧ a.mismatch expectedBinary proof.binaryHash then .ok false
    else if ¬ proof.challenge.hashable then .error ⟨.typeError, s!"unhashable type: '{proof.challenge.typeName}'"⟩
    else .ok !a.stale η proof.challenge

end AttestationVerifier

/-! ## Proofs and dictionaries -/

variable {l : Libs}

namespace IntegrityProof

theorem ofDict_toDict (η : Host) (p : IntegrityProof) : ofDict η p.toDict = p := by
  simp [ofDict, toDict, setattr]

/-- the signature is the one that belongs to the other attributes -/
def WellSigned (l : Libs) (p : IntegrityProof) : Prop := ∃ sig, p.expectedSig l = .ok sig ∧ p.signature = .str sig

theorem verify_true_iff {p : IntegrityProof} : p.verify l [] = .ok true ↔ p.WellSigned l := by
  rw [verify, if_neg (by simp), WellSigned]
  cases p.expectedSig l with
  | error e => exact iff_of_false (fun h => by cases h) fun ⟨_, h, _⟩ => by cases h
  | ok sig => simp

/-- the checks of the verifier: no entry hides the method, the proof is well signed, it has the hash of the binary if there is
one and neither it nor the name is empty, and its challenge may be looked up and is not stale -/
structure Passes (l : Libs) (η : Host) (proofDict : List (Text × Value)) (name : Text) (a : AttestationVerifier) : Prop where
  callable : ∀ e ∈ proofDict, e.1 ≠ Text.ofString "verify"
  signed : (ofDict η proofDict).WellSigned l
  hash : name ≠ [] → ∀ h, a.knownHashes.get name = some h → h ≠ [] → (ofDict η proofDict).binaryHash = .str h
  hashable : (ofDict η proofDict).challenge.hashable = true
  fresh : a.stale η (ofDict η proofDict).challenge = false

theorem passes_iff {η : Host} {proofDict : List (Text × Value)} {name : Text} {a : AttestationVerifier} :
    Passes l η proofDict name a ↔
      (∀ e ∈ proofDict, e.1 ≠ Text.ofString "verify") ∧ (ofDict η proofDict).WellSigned l ∧
      (name ≠ [] → ∀ h, a.knownHashes.get name = some h → h ≠ [] → (ofDict η proofDict).binaryHash = .str h) ∧
      (ofDict η proofDict).challenge.hashable = true ∧ a.stale η (ofDict η proofDict).challenge = false :=
  ⟨fun h => ⟨h.callable, h.signed, h.hash, h.hashable, h.fresh⟩, fun h => ⟨h.1, h.2.1, h.2.2.1, h.2.2.2.1, h.2.2.2.2⟩⟩

/-- **When a dictionary verifies.** -/
theorem verifyProof_true_iff {η : Host} {proofDict : List (Text × Value)} {name : Text} {a : AttestationVerifier} :
    a.verifyProof l η proofDict name = .ok true ↔ Passes l η proofDict name a := by
  have hmismatch : (name ≠ [] → ∀ h, a.knownHashes.get name = some h → h ≠ [] → (ofDict η proofDict).binaryHash = .str h) ↔
      ¬ (name ≠ [] ∧ a.mismatch name (ofDict η proofDict).binaryHash = true) := by
    rw [AttestationVerifier.mismatch, not_and]
    refine imp_congr_right fun _ => ?_
    cases a.knownHashes.get name <;> simp
  rw [passes_iff, AttestationVerifier.verifyProof, hmismatch, ← verify_true_iff]
  cases hverify : proofDict.find? fun e => decide (e.1 = Text.ofString "verify") with
  | some e =>
    refine iff_of_false (fun h => by cases h) fun h => ?_
    exact h.1 e (List.mem_of_find?_eq_some hverify) (by simpa using List.find?_some hverify)
  | none =>
    refine Iff.trans ?_ (and_iff_right (by simpa using List.find?_eq_none.1 hverify)).symm
    dsimp only
    cases (ofDict η proofDict).verify l [] with
    | error e => exact iff_of_false (fun h => by cases h) fun h => by cases h.1
    | ok valid =>
      rw [Outcome.ok_bind]
      by_cases hm : name ≠ [] ∧ a.mismatch name (ofDict η proofDict).binaryHash = true
      · cases valid <;> simp [hm]
      · cases valid <;> cases (ofDict η proofDict).challenge.hashable <;> simp [hm]

/-- the dictionary of a proof verifies if and only if its signature is the right one and its challenge is not stale -/
theorem verifyProof_toDict (η : Host) {p : IntegrityProof} (hc : p.challenge.hashable = true) (a : AttestationVerifier) :
    a.verifyProof l η p.toDict [] = .ok true ↔ p.WellSigned l ∧ a.stale η p.challenge = false := by
  have hkeys : ∀ e ∈ p.toDict, e.1 ≠ Text.ofString "verify" := by
    intro e he
    have hkey : e.1 ∈ p.toDict.map Prod.fst := List.mem_map_of_mem he
    have hall : ∀ k ∈ p.toDict.map Prod.fst, k ≠ Text.ofString "verify" := by
      simp only [toDict, List.map_cons, List.map_nil]
      decide
    exact hall _ hkey
  rw [verifyProof_true_iff, passes_iff, ofDict_toDict, and_iff_right hkeys]
  simp [hc]

/-- a proof on which nothing but `compute` was called -/
structure Genuine (l : Libs) (p : IntegrityProof) : Prop where
  timestamp : ∃ x, p.timestamp = .float x
  challenge : ∃ t, p.challenge = .str t
  binaryHash : ∃ s : String, p.binaryHash = .str s
  environmentHash : ∃ s : String, p.environmentHash = .str s
  memoryCanary : ∃ s : String, p.memoryCanary = .str s
  processId : ∃ n, p.processId = .int n
  signature : p.signature = .str "" ∨ ∀ sig, p.expectedSig l = .ok sig → p.signature = .str sig

theorem genuine_new (η : Host) : Genuine l (new η) where
  timestamp := ⟨_, rfl⟩
  challenge := ⟨_, rfl⟩
  binaryHash := ⟨"", rfl⟩
  environmentHash := ⟨"", rfl⟩
  memoryCanary := ⟨"", rfl⟩
  processId := ⟨_, rfl⟩
  signature := Or.inl rfl

theorem genuine_compute (η : Host) (challenge expected : Text) {p : IntegrityProof} (h : Genuine l p) :
    Genuine l (p.compute l η challenge expected).2 := by
  unfold compute
  dsimp only
  split
  · rename_i e he
    refine ⟨h.timestamp, ⟨_, rfl⟩, ⟨_, rfl⟩, ⟨_, rfl⟩, ⟨_, rfl⟩, h.processId, Or.inr fun sig hsig => ?_⟩
    rw [he] at hsig
    cases hsig
  · rename_i sig hsig
    have hgen : ∀ p' : IntegrityProof, p' = { p with
        challenge := .str challenge
        binaryHash := .str (hashBinary l η)
        environmentHash := .str (hashEnvironment l η)
        memoryCanary := .str (Text.hexdigest η.memoryCanary.toList)
        signature := .str sig } → Genuine l p' := by
      rintro p' rfl
      refine ⟨h.timestamp, ⟨_, rfl⟩, ⟨_, rfl⟩, ⟨_, rfl⟩, ⟨_, rfl⟩, h.processId, Or.inr fun sig' hsig' => ?_⟩
      have heq : (Except.ok sig : Except Exc Text) = .ok sig' := hsig.symm.trans hsig'
      cases heq
      rfl
    split <;> exact hgen _ rfl

/-- the data of a genuine proof can be encoded if its challenge can -/
theorem proofData_isSome_iff {p : IntegrityProof} (h : Genuine l p) :
    (p.proofData l).encode.isSome ↔ (p.challenge.format l).encode.isSome := by
  obtain ⟨x, hx⟩ := h.timestamp
  obtain ⟨b, hb⟩ := h.binaryHash
  obtain ⟨e, he⟩ := h.environmentHash
  obtain ⟨m, hm⟩ := h.memoryCanary
  obtain ⟨n, hn⟩ := h.processId
  simp only [proofData, Text.encode_isSome_append, hx, hb, he, hm, hn, Value.format, Text.encode_isSome_ofString,
    l.floatRepr_encode, true_and, and_true]

theorem expectedSig_ok_iff {p : IntegrityProof} (h : Genuine l p) :
    (∃ sig, p.expectedSig l = .ok sig) ↔ (p.challenge.format l).encode.isSome := by
  rw [← proofData_isSome_iff h, ← encodeUtf8_ok_iff, expectedSig]
  cases encodeUtf8 (p.proofData l) with
  | error e => exact iff_of_false (fun ⟨_, h⟩ => by cases h) (fun ⟨_, h⟩ => by cases h)
  | ok b => exact iff_of_true ⟨_, rfl⟩ ⟨_, rfl⟩

/-- a signature is not empty -/
theorem expectedSig_ne_nil {p : IntegrityProof} {sig : Text} (h : p.expectedSig l = .ok sig) : sig ≠ [] := by
  obtain ⟨b, -, h⟩ := Outcome.bind_eq_ok h
  cases h
  have hlen := Text.hexdigest_length (l.sha3_256 b).toList
  intro hnil
  rw [Text.ofString, List.map_eq_nil_iff] at hnil
  rw [hnil, (l.sha3_256 b).length_toList] at hlen
  cases hlen

/-- **When the vault's own proof verifies.** -/
theorem verifyProof_genuine_iff {p : IntegrityProof} (h : Genuine l p) (η : Host) (a : AttestationVerifier) :
    a.verifyProof l η p.toDict [] = .ok true ↔
      p.signature ≠ .str "" ∧ (p.challenge.format l).encode.isSome ∧ a.stale η p.challenge = false := by
  have hhash : p.challenge.hashable = true := by
    obtain ⟨t, ht⟩ := h.challenge
    rw [ht]
    rfl
  rw [verifyProof_toDict η hhash, ← expectedSig_ok_iff h, WellSigned]
  cases hsig : p.expectedSig l with
  | error e => simp
  | ok sig =>
    have hne : sig ≠ [] := expectedSig_ne_nil hsig
    have hiff : p.signature = .str sig ↔ p.signature ≠ .str "" := by
      constructor
      · intro hp hempty
        rw [hp, Value.str.injEq] at hempty
        exact hne hempty
      · intro hp
        exact (h.signature.resolve_left hp) sig hsig
    simp [hiff]

end IntegrityProof

end AbirGuard.Python
