/-
DID documents: `src/interop/did.rs`.

A document holds verification methods, and three lists of references to them by id. A method that changes the document
returns its result together with the document after the call.

- `Integrity`: ids are set and do not repeat, and every reference resolves to exactly one method.
- `referential_integrity`: it holds after every run of edits; a removed method is referred to no more, and an edit that
  fails changes nothing.
-/
import AbirGuard.Core.Run
import AbirGuard.Rust.Jwk

namespace AbirGuard.Rust

open AbirGuard.Core Record

/-! ## Model -/

inductive DidError where
  | duplicateVerificationMethod (id : String)
  | verificationMethodNotFound (id : String)
  | emptyDid
  | emptyMethodId
deriving DecidableEq, Repr

inductive VerificationRelationship where
  | authentication
  | assertionMethod
  | keyAgreement
  | capabilityInvocation
  | capabilityDelegation
deriving DecidableEq, Repr

structure VerificationMethod where
  id : String
  methodType : String
  controller : String
  publicKeyJwk : PqcJwk
deriving DecidableEq, Repr

def VerificationMethod.new (id controller : String) (jwk : PqcJwk) : VerificationMethod where
  id := id
  methodType := "JsonWebKey2020"
  controller := controller
  publicKeyJwk := jwk

structure DidDocument where
  context : List String
  id : String
  verificationMethods : List VerificationMethod
  authentication : List String
  assertionMethod : List String
  keyAgreement : List String
deriving DecidableEq, Repr

namespace DidDocument

def new (did : String) : Except DidError DidDocument :=
  if did = "" then .error .emptyDid
  else .ok
    { context := ["https://www.w3.org/ns/did/v1", "https://w3id.org/security/suites/jws-2020/v1"]
      id := did
      verificationMethods := []
      authentication := []
      assertionMethod := []
      keyAgreement := [] }

/-- one round of the loop over the relationships of an added method -/
def addReference (methodId : String) (d : DidDocument) : VerificationRelationship → DidDocument
  | .authentication => { d with authentication := d.authentication ++ [methodId] }
  | .assertionMethod => { d with assertionMethod := d.assertionMethod ++ [methodId] }
  | .keyAgreement => { d with keyAgreement := d.keyAgreement ++ [methodId] }
  | .capabilityInvocation | .capabilityDelegation => d

def addVerificationMethod (d : DidDocument) (method : VerificationMethod) (relationships : List VerificationRelationship) :
    Except DidError Unit × DidDocument :=
  if method.id = "" then (.error .emptyMethodId, d)
  else if d.verificationMethods.any fun m => m.id = method.id then (.error (.duplicateVerificationMethod method.id), d)
  else (.ok (), relationships.foldl (addReference method.id)
    { d with verificationMethods := d.verificationMethods ++ [method] })

def getMethod (d : DidDocument) (methodId : String) : Except DidError VerificationMethod :=
  match d.verificationMethods.find? fun m => m.id = methodId with
  | some m => .ok m
  | none => .error (.verificationMethodNotFound methodId)

/-- the methods are filtered before it is known whether there was one to remove -/
def removeMethod (d : DidDocument) (methodId : String) : Except DidError Unit × DidDocument :=
  let before := d.verificationMethods.length
  let d := { d with verificationMethods := d.verificationMethods.filter fun m => m.id ≠ methodId }
  if d.verificationMethods.length = before then (.error (.verificationMethodNotFound methodId), d)
  else (.ok (), { d with
    authentication := d.authentication.filter fun id => id ≠ methodId
    assertionMethod := d.assertionMethod.filter fun id => id ≠ methodId
    keyAgreement := d.keyAgreement.filter fun id => id ≠ methodId })

end DidDocument

/-! ## Runs -/

namespace DidDocument

inductive Edit where
  | add (method : VerificationMethod) (relationships : List VerificationRelationship)
  | remove (methodId : String)
deriving DecidableEq

def Edit.apply (d : DidDocument) : Edit → Except DidError Unit × DidDocument
  | .add method relationships => d.addVerificationMethod method relationships
  | .remove methodId => d.removeMethod methodId

/-- the document after an edit, which may have failed -/
def step (d : DidDocument) (e : Edit) : DidDocument := (e.apply d).2

def ids (d : DidDocument) : List String := d.verificationMethods.map (·.id)

/-- the ids in the three lists -/
def references (d : DidDocument) : List String := d.authentication ++ d.assertionMethod ++ d.keyAgreement

structure Integrity (d : DidDocument) : Prop where
  nonempty : ∀ m ∈ d.verificationMethods, m.id ≠ ""
  distinct : d.ids.Nodup
  resolves : ∀ id ∈ d.references, ∃ m, d.getMethod id = .ok m ∧ m ∈ d.verificationMethods ∧ m.id = id ∧
    ∀ m' ∈ d.verificationMethods, m'.id = id → m' = m

/-! ## One edit -/

variable {d : DidDocument}

theorem getMethod_of_mem {m : VerificationMethod} (hd : d.ids.Nodup) (hm : m ∈ d.verificationMethods) :
    d.getMethod m.id = .ok m := by
  rw [getMethod]
  cases hf : d.verificationMethods.find? fun m' => decide (m'.id = m.id) with
  | none =>
    rw [List.find?_eq_none] at hf
    exact absurd (decide_eq_true rfl) (hf m hm)
  | some m' =>
    have hid : m'.id = m.id := by simpa using List.find?_some hf
    rw [List.inj_on_of_nodup_map hd (List.mem_of_find?_eq_some hf) hm hid]

/-- integrity, with the references as a subset of the ids -/
theorem integrity_iff : Integrity d ↔
    (∀ m ∈ d.verificationMethods, m.id ≠ "") ∧ d.ids.Nodup ∧ ∀ id ∈ d.references, id ∈ d.ids := by
  constructor
  · rintro ⟨h1, h2, h3⟩
    refine ⟨h1, h2, fun id hid => ?_⟩
    obtain ⟨m, -, hm, rfl, -⟩ := h3 id hid
    exact List.mem_map_of_mem hm
  · rintro ⟨h1, h2, h3⟩
    refine ⟨h1, h2, fun id hid => ?_⟩
    obtain ⟨m, hm, rfl⟩ := List.mem_map.1 (h3 id hid)
    exact ⟨m, getMethod_of_mem h2 hm, hm, rfl, fun m' hm' he => List.inj_on_of_nodup_map h2 hm' hm he⟩

theorem addReference_methods (methodId : String) (rel : VerificationRelationship) :
    (d.addReference methodId rel).verificationMethods = d.verificationMethods := by
  cases rel <;> rfl

theorem mem_references_addReference {methodId id : String} {rel : VerificationRelationship}
    (h : id ∈ (d.addReference methodId rel).references) : id = methodId ∨ id ∈ d.references := by
  cases rel with
  | authentication | assertionMethod | keyAgreement =>
    simp only [addReference, references, List.mem_append, List.mem_singleton] at h ⊢
    tauto
  | capabilityInvocation | capabilityDelegation => exact Or.inr h

theorem foldl_addReference (methodId : String) (relationships : List VerificationRelationship) (d : DidDocument) :
    (relationships.foldl (addReference methodId) d).verificationMethods = d.verificationMethods ∧
      ∀ id ∈ (relationships.foldl (addReference methodId) d).references, id = methodId ∨ id ∈ d.references := by
  induction relationships generalizing d with
  | nil => exact ⟨rfl, fun id h => Or.inr h⟩
  | cons rel relationships ih =>
    obtain ⟨hm, hr⟩ := ih (d.addReference methodId rel)
    refine ⟨hm.trans (addReference_methods methodId rel), fun id hid => ?_⟩
    rcases hr id hid with h | h
    · exact Or.inl h
    · exact mem_references_addReference h

/-- **What adding a method does**: it is refused and changes nothing, or appends a method with a new id. -/
theorem add_cases (d : DidDocument) (method : VerificationMethod) (relationships : List VerificationRelationship) :
    ((∃ e, (d.addVerificationMethod method relationships).1 = .error e) ∧ (method.id = "" ∨ method.id ∈ d.ids) ∧
      (d.addVerificationMethod method relationships).2 = d) ∨
    ((d.addVerificationMethod method relationships).1 = .ok () ∧ method.id ≠ "" ∧ method.id ∉ d.ids ∧
      (d.addVerificationMethod method relationships).2.verificationMethods = d.verificationMethods ++ [method] ∧
      ∀ id ∈ (d.addVerificationMethod method relationships).2.references, id = method.id ∨ id ∈ d.references) := by
  have hany : (d.verificationMethods.any fun m => m.id = method.id) = true ↔ method.id ∈ d.ids := by
    simp [ids]
  rw [addVerificationMethod]
  split_ifs with hempty hdup
  · exact Or.inl ⟨⟨_, rfl⟩, Or.inl hempty, rfl⟩
  · exact Or.inl ⟨⟨_, rfl⟩, Or.inr (hany.1 hdup), rfl⟩
  · obtain ⟨hm, hr⟩ := foldl_addReference method.id relationships
      { d with verificationMethods := d.verificationMethods ++ [method] }
    exact Or.inr ⟨rfl, hempty, fun h => hdup (hany.2 h), hm, hr⟩

/-- **What removing a method does**: it is refused and changes nothing, or filters all four lists. -/
theorem remove_cases (d : DidDocument) (methodId : String) :
    ((∃ e, (d.removeMethod methodId).1 = .error e) ∧ (d.removeMethod methodId).2 = d) ∨
    ((d.removeMethod methodId).1 = .ok () ∧
      (d.removeMethod methodId).2.verificationMethods = d.verificationMethods.filter (fun m => m.id ≠ methodId) ∧
      (d.removeMethod methodId).2.references = d.references.filter fun id => id ≠ methodId) := by
  rw [removeMethod]
  dsimp only
  split_ifs with hlen
  · have hsame : d.verificationMethods.filter (fun m => decide (m.id ≠ methodId)) = d.verificationMethods :=
      List.filter_sublist.eq_of_length hlen
    refine Or.inl ⟨⟨_, rfl⟩, ?_⟩
    dsimp only
    rw [hsame]
  · refine Or.inr ⟨rfl, rfl, ?_⟩
    simp only [references, List.filter_append]

theorem integrity_step (e : Edit) (h : Integrity d) : Integrity (step d e) := by
  obtain ⟨h1, h2, h3⟩ := integrity_iff.1 h
  rw [integrity_iff]
  cases e with
  | add method relationships =>
    rw [step, Edit.apply]
    rcases add_cases d method relationships with ⟨-, -, hs⟩ | ⟨-, hne, hnew, hm, hr⟩
    · rw [hs]
      exact ⟨h1, h2, h3⟩
    · have hids : (d.addVerificationMethod method relationships).2.ids = d.ids ++ [method.id] := by
        rw [ids, hm, List.map_append]
        rfl
      rw [hm, hids]
      refine ⟨List.forall_mem_append.2 ⟨h1, by simpa using hne⟩, ?_, fun id hid => ?_⟩
      · exact List.nodup_append.2 ⟨h2, List.nodup_singleton _, fun a ha b hb hab => by
          rw [List.mem_singleton.1 hb] at hab
          exact hnew (hab ▸ ha)⟩
      · rcases hr id hid with rfl | hid
        · exact List.mem_append_right _ (List.mem_singleton_self _)
        · exact List.mem_append_left _ (h3 id hid)
  | remove methodId =>
    rw [step, Edit.apply]
    rcases remove_cases d methodId with ⟨-, hs⟩ | ⟨-, hm, hr⟩
    · rw [hs]
      exact ⟨h1, h2, h3⟩
    · rw [ids, hm, hr]
      refine ⟨fun m hmem => h1 m (List.mem_of_mem_filter hmem), ?_, fun id hid => ?_⟩
      · exact h2.sublist (List.filter_sublist.map _)
      · obtain ⟨hid, hne⟩ := List.mem_filter.1 hid
        obtain ⟨m, hmem, rfl⟩ := List.mem_map.1 (h3 id hid)
        exact List.mem_map_of_mem (List.mem_filter.2 ⟨hmem, hne⟩)

theorem integrity_new {did : String} (h : new did = .ok d) : Integrity d := by
  unfold new at h
  split_ifs at h
  cases h
  exact integrity_iff.2 ⟨by simp, List.nodup_nil, by simp [references]⟩

/-- **Referential integrity.** It holds after every run of edits. Whatever edit comes next, a method that it removes is found
in no list, and if it fails the document is as before. -/
theorem referential_integrity {did : String} {d₀ : DidDocument} (h : new did = .ok d₀) (run : List Edit) :
    Integrity (Run.after step d₀ run) ∧
    (∀ id, ((Run.after step d₀ run).removeMethod id).1 = .ok () →
      id ∉ ((Run.after step d₀ run).removeMethod id).2.references ∧ id ∉ ((Run.after step d₀ run).removeMethod id).2.ids) ∧
    ∀ (e : Edit) err, (e.apply (Run.after step d₀ run)).1 = .error err → step (Run.after step d₀ run) e = Run.after step d₀ run := by
  have hstep : ∀ e ∈ run, ∀ d, Integrity d → Integrity (step d e) := fun e _ _ => integrity_step e
  refine ⟨Run.after_inv hstep (integrity_new h), fun id hok => ?_, fun e err herr => ?_⟩
  · rcases remove_cases (Run.after step d₀ run) id with ⟨⟨e, he⟩, -⟩ | ⟨-, hm, hr⟩
    · rw [he] at hok
      cases hok
    · rw [hr, ids, hm]
      exact ⟨fun hid => absurd rfl (of_decide_eq_true (List.mem_filter.1 hid).2), fun hid => by
        obtain ⟨m, hmem, rfl⟩ := List.mem_map.1 hid
        exact absurd rfl (of_decide_eq_true (List.mem_filter.1 hmem).2)⟩
  · cases e with
    | add method relationships =>
      rcases add_cases (Run.after step d₀ run) method relationships with ⟨-, -, hs⟩ | ⟨hok, -⟩
      · exact hs
      · rw [Edit.apply, hok] at herr
        cases herr
    | remove methodId =>
      rcases remove_cases (Run.after step d₀ run) methodId with ⟨-, hs⟩ | ⟨hok, -⟩
      · exact hs
      · rw [Edit.apply, hok] at herr
        cases herr

theorem integrity_alice :
    Integrity (Run.after step ⟨["https://www.w3.org/ns/did/v1", "https://w3id.org/security/suites/jws-2020/v1"],
      "did:example:alice", [], [], [], []⟩ [.remove "did:example:alice#key-1"]) :=
  (referential_integrity (show new "did:example:alice" = .ok _ from rfl) _).1

end DidDocument

end AbirGuard.Rust
