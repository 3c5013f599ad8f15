/-
The JSON of DID documents: does it come back, and what does it show?

The three lists of references are left out when they are empty, but their fields have no default, so they are required when
the JSON is read. A method embeds its whole JWK, with the private key if the JWK was made from a key pair.

The text of a JSON value (`serde_json`) is an argument; `ReadsBack` says that it is read back as the value.

- `fromJson_toJson_iff`: a document comes back if and only if none of its three lists is empty.
- `toJson_independent_iff`: over the runs that build a document from keys, its JSON does not depend on the private keys if and
  only if no key pair gets into it.
-/
import AbirGuard.Core.Base64
import AbirGuard.Rust.DidDocument

namespace AbirGuard.Rust

open AbirGuard.Core Record

/-! ## Model -/

variable {F : Type}

namespace VerificationMethod

def members (m : VerificationMethod) : List (String × Option (Json F)) :=
  [("id", some (ofStr m.id)), ("type", some (ofStr m.methodType)), ("controller", some (ofStr m.controller)),
    ("publicKeyJwk", some m.publicKeyJwk.serialize)]

def serialize (m : VerificationMethod) : Json F := record m.members

def deserialize (v : Json F) : Option VerificationMethod :=
  match slots ["id", "type", "controller", "publicKeyJwk"] v with
  | some [id, type, controller, publicKeyJwk] => do
    some
      { id := ← required asStr id
        methodType := ← required asStr type
        controller := ← required asStr controller
        publicKeyJwk := ← required PqcJwk.deserialize publicKeyJwk }
  | _ => none

end VerificationMethod

namespace DidDocument

/-- `skip_serializing_if = "Vec::is_empty"` -/
def unlessEmpty (l : List String) : Option (Json F) := if l = [] then none else some (ofStrs l)

def members (d : DidDocument) : List (String × Option (Json F)) :=
  [("@context", some (ofStrs d.context)), ("id", some (ofStr d.id)),
    ("verificationMethod", some (.arr (d.verificationMethods.map VerificationMethod.serialize))),
    ("authentication", unlessEmpty d.authentication), ("assertionMethod", unlessEmpty d.assertionMethod),
    ("keyAgreement", unlessEmpty d.keyAgreement)]

def serialize (d : DidDocument) : Json F := record d.members

def deserialize (v : Json F) : Option DidDocument :=
  match slots ["@context", "id", "verificationMethod", "authentication", "assertionMethod", "keyAgreement"] v with
  | some [context, id, verificationMethods, authentication, assertionMethod, keyAgreement] => do
    some
      { context := ← required (asList asStr) context
        id := ← required asStr id
        verificationMethods := ← required (asList VerificationMethod.deserialize) verificationMethods
        -- no default: a list that was left out is missed here
        authentication := ← required (asList asStr) authentication
        assertionMethod := ← required (asList asStr) assertionMethod
        keyAgreement := ← required (asList asStr) keyAgreement }
  | _ => none

def toJson (json : Codec (Json F) String) (d : DidDocument) : String := json.encode d.serialize

/-- every error of the reader is reported as an empty DID -/
def fromJson (json : Codec (Json F) String) (s : String) : Except DidError DidDocument :=
  match json.decode s with
  | .error _ => .error .emptyDid
  | .ok v =>
    match deserialize v with
    | some d => .ok d
    | none => .error .emptyDid

/-- the text of a document's JSON value is read back as the value -/
def ReadsBack (json : Codec (Json F) String) : Prop :=
  ∀ d : DidDocument, json.decode (json.encode d.serialize) = .ok d.serialize

end DidDocument

/-! ## The round trip -/

namespace VerificationMethod

theorem nodup_members (m : VerificationMethod) : ((m.members : List (String × Option (Json F))).map Prod.fst).Nodup := by
  have hnames : ["id", "type", "controller", "publicKeyJwk"].Nodup := by decide
  exact hnames

theorem deserialize_serialize (m : VerificationMethod) : deserialize (m.serialize : Json F) = some m := by
  have hslots : slots ["id", "type", "controller", "publicKeyJwk"] (m.serialize : Json F) =
      some (m.members.map Prod.snd) := slots_record m.nodup_members
  rw [deserialize, hslots]
  simp [members, required, PqcJwk.deserialize_serialize]

theorem clean_serialize (m : VerificationMethod) : (m.serialize : Json F).Clean := by
  refine clean_record m.nodup_members fun n v hm => ?_
  simp only [members, List.mem_cons, Prod.mk.injEq, Option.some.injEq, List.not_mem_nil, or_false] at hm
  rcases hm with ⟨-, rfl⟩ | ⟨-, rfl⟩ | ⟨-, rfl⟩ | ⟨-, rfl⟩
  · exact clean_ofStr _
  · exact clean_ofStr _
  · exact clean_ofStr _
  · exact PqcJwk.clean_serialize _

theorem serialize_injective : Function.Injective (serialize : VerificationMethod → Json F) := fun m m' h => by
  have hread := congrArg deserialize h
  rwa [deserialize_serialize, deserialize_serialize, Option.some.injEq] at hread

end VerificationMethod

namespace DidDocument

variable (d : DidDocument)

theorem nodup_members : ((d.members : List (String × Option (Json F))).map Prod.fst).Nodup := by
  have hnames : ["@context", "id", "verificationMethod", "authentication", "assertionMethod", "keyAgreement"].Nodup := by decide
  exact hnames

theorem slots_serialize : slots ["@context", "id", "verificationMethod", "authentication", "assertionMethod", "keyAgreement"]
    (d.serialize : Json F) = some (d.members.map Prod.snd) := slots_record d.nodup_members

/-- a required list that may have been left out -/
theorem required_unlessEmpty (l : List String) :
    required (asList asStr) (unlessEmpty l : Option (Json F)) = if l = [] then none else some l := by
  unfold unlessEmpty
  split_ifs
  · rfl
  · exact asList_ofStrs l

theorem deserialize_serialize : deserialize (d.serialize : Json F) =
    if d.authentication = [] ∨ d.assertionMethod = [] ∨ d.keyAgreement = [] then none else some d := by
  have hmethods : asList VerificationMethod.deserialize
      (.arr (d.verificationMethods.map VerificationMethod.serialize) : Json F) = some d.verificationMethods :=
    asList_map VerificationMethod.deserialize_serialize _
  rw [deserialize, slots_serialize]
  simp only [members, List.map_cons, List.map_nil, required_unlessEmpty]
  simp only [required, Option.bind_some, asList_ofStrs, asStr_ofStr, hmethods, Option.bind_eq_bind]
  split_ifs <;> simp_all

variable {json : Codec (Json F) String}

theorem fromJson_toJson (hjson : ReadsBack json) : fromJson json (toJson json d) =
    if d.authentication = [] ∨ d.assertionMethod = [] ∨ d.keyAgreement = [] then .error .emptyDid else .ok d := by
  simp only [fromJson, toJson, hjson d, deserialize_serialize]
  split_ifs <;> rfl

/-- **The round trip.** A document, however it was made, comes back if and only if none of its three lists is empty. -/
theorem fromJson_toJson_iff (hjson : ReadsBack json) : fromJson json (toJson json d) = .ok d ↔
    d.authentication ≠ [] ∧ d.assertionMethod ≠ [] ∧ d.keyAgreement ≠ [] := by
  rw [fromJson_toJson d hjson]
  split_ifs with h
  · exact iff_of_false (fun he => by cases he) (by tauto)
  · exact iff_of_true rfl (by tauto)

/-! ## What the JSON shows -/

/-- what a JWK is made from: a public key, or a key pair -/
structure KeySpec where
  algorithm : PqcAlgorithm
  publicKey : Bytes
  privateKey : Option Bytes
  kid : Option String
deriving DecidableEq

def KeySpec.jwk (base64url : Codec Bytes String) (k : KeySpec) : Except JwkError PqcJwk :=
  match k.privateKey with
  | none => PqcJwk.fromPublic base64url k.algorithm k.publicKey k.kid
  | some privateKey => PqcJwk.fromKeypair base64url k.algorithm k.publicKey privateKey k.kid

/-- a method that is added, with the JWK that was produced for it -/
structure Addition (base64url : Codec Bytes String) where
  id : String
  controller : String
  key : KeySpec
  jwk : PqcJwk
  produced : key.jwk base64url = .ok jwk
  relationships : List VerificationRelationship

section

variable {base64url : Codec Bytes String}

def Addition.method (a : Addition base64url) : VerificationMethod := .new a.id a.controller a.jwk

def build (d : DidDocument) (a : Addition base64url) : DidDocument := (d.addVerificationMethod a.method a.relationships).2

/-- an addition but for the bytes of its private key -/
def Addition.public (a : Addition base64url) : String × String × KeySpec × List VerificationRelationship :=
  (a.id, a.controller, { a.key with privateKey := a.key.privateKey.map fun _ => [] }, a.relationships)

/-- the addition puts a key pair into the document -/
def Exposes (d : DidDocument) (a : Addition base64url) : Prop := a.key.privateKey ≠ none ∧ a.id ≠ "" ∧ a.id ∉ d.ids

/-- the JSON that a run leads to is that of every run that differs from it in private keys only -/
def Independent (json : Codec (Json F) String) (d : DidDocument) (run : List (Addition base64url)) : Prop :=
  ∀ run' : List (Addition base64url), run'.map Addition.public = run.map Addition.public →
    toJson json (Run.after build d run') = toJson json (Run.after build d run)

variable {d : DidDocument} {a a' : Addition base64url}

/-- without a private key, the JWK is determined by the rest -/
theorem jwk_eq_of_public (h : a'.public = a.public) (hk : a.key.privateKey = none) : a'.jwk = a.jwk := by
  have hkey : a'.key = a.key := by
    simp only [Addition.public, Prod.mk.injEq, KeySpec.mk.injEq] at h
    obtain ⟨-, -, ⟨h1, h2, h3, h4⟩, -⟩ := h
    rw [hk, Option.map_none, Option.map_eq_none_iff] at h3
    have hext : ∀ k k' : KeySpec, k.algorithm = k'.algorithm → k.publicKey = k'.publicKey →
        k.privateKey = k'.privateKey → k.kid = k'.kid → k = k' := by
      rintro ⟨⟩ ⟨⟩ rfl rfl rfl rfl
      rfl
    exact hext _ _ h1 h2 (h3.trans hk.symm) h4
  have hp := a'.produced
  rw [hkey, a.produced] at hp
  exact (Except.ok.inj hp).symm

/-- an addition that puts no key pair into the document has the effect that its public part determines -/
theorem build_eq_of_public (h : a'.public = a.public) (hd : ¬ Exposes d a) : build d a' = build d a := by
  have hid : a'.id = a.id ∧ a'.controller = a.controller ∧ a'.relationships = a.relationships := by
    simp only [Addition.public, Prod.mk.injEq] at h
    exact ⟨h.1, h.2.1, h.2.2.2⟩
  by_cases hk : a.key.privateKey = none
  · rw [build, build, Addition.method, Addition.method, jwk_eq_of_public h hk, hid.1, hid.2.1, hid.2.2]
  · -- both are refused
    have hrefused : ∀ b : Addition base64url, b.id = a.id → build d b = d := by
      intro b hb
      rcases add_cases d b.method b.relationships with ⟨-, -, hs⟩ | ⟨-, hne, hnew, -⟩
      · exact hs
      · have hbm : b.method.id = a.id := hb
        rw [hbm] at hne hnew
        exact absurd ⟨hk, hne, hnew⟩ hd
    rw [hrefused a' hid.1, hrefused a rfl]

theorem after_eq_of_public {run run' : List (Addition base64url)} (h : run'.map Addition.public = run.map Addition.public)
    (hd : Run.EachStep build (fun d a => ¬ Exposes d a) d run) : Run.after build d run' = Run.after build d run := by
  induction run generalizing d run' with
  | nil =>
    rw [List.map_nil, List.map_eq_nil_iff] at h
    rw [h]
  | cons a run ih =>
    cases run' with
    | nil => cases h
    | cons a' run' =>
      rw [List.map_cons, List.map_cons, List.cons.injEq] at h
      obtain ⟨ha, hd⟩ := Run.eachStep_cons.1 hd
      rw [Run.after_cons, Run.after_cons, build_eq_of_public h.1 ha]
      exact ih h.2 hd

theorem distinct_build (a : Addition base64url) (h : d.ids.Nodup) : (build d a).ids.Nodup := by
  rcases add_cases d a.method a.relationships with ⟨-, -, hs⟩ | ⟨-, -, hnew, hm, -⟩
  · rwa [build, hs]
  · rw [build, ids, hm, List.map_append]
    refine List.nodup_append.2 ⟨h, List.nodup_singleton _, fun b hb c hc hbc => ?_⟩
    rw [List.map_singleton, List.mem_singleton] at hc
    exact hnew (hc ▸ hbc ▸ hb)

theorem mem_build {m : VerificationMethod} (a : Addition base64url) (h : m ∈ d.verificationMethods) :
    m ∈ (build d a).verificationMethods := by
  rcases add_cases d a.method a.relationships with ⟨-, -, hs⟩ | ⟨-, -, -, hm, -⟩
  · rwa [build, hs]
  · rw [build, hm]
    exact List.mem_append_left _ h

/-- an exposed key pair stays in the document -/
theorem mem_after {pre post : List (Addition base64url)} (h : Exposes (Run.after build d pre) a) :
    a.method ∈ (Run.after build d (pre ++ a :: post)).verificationMethods := by
  rw [Run.after_append, Run.after_cons]
  have hkeep : ∀ b ∈ post, ∀ d : DidDocument, a.method ∈ d.verificationMethods → a.method ∈ (build d b).verificationMethods :=
    fun b _ _ hm => mem_build b hm
  refine Run.after_inv hkeep ?_
  rcases add_cases (Run.after build d pre) a.method a.relationships with ⟨-, hbad, -⟩ | ⟨-, -, -, hm, -⟩
  · exact absurd hbad (not_or.2 ⟨h.2.1, h.2.2⟩)
  · rw [build, hm]
    exact List.mem_append_right _ (List.mem_singleton_self _)

/-- the JSON determines the methods -/
theorem methods_eq_of_toJson_eq {json : Codec (Json F) String} (hjson : ReadsBack json) {d d' : DidDocument}
    (h : toJson json d = toJson json d') : d.verificationMethods = d'.verificationMethods := by
  have hvalue : (d.serialize : Json F) = d'.serialize := by
    have hread := congrArg json.decode h
    rw [toJson, toJson, hjson, hjson] at hread
    exact Except.ok.inj hread
  have hslots := congrArg (slots ["@context", "id", "verificationMethod", "authentication", "assertionMethod",
    "keyAgreement"]) hvalue
  rw [slots_serialize, slots_serialize] at hslots
  simp only [members, List.map_cons, Option.some.injEq, List.cons.injEq, Json.arr.injEq] at hslots
  exact List.map_injective_iff.2 VerificationMethod.serialize_injective hslots.2.2.1

/-- the addition with another private key -/
def Addition.withPrivateKey (a : Addition base64url) (privateKey : Bytes) (jwk : PqcJwk)
    (h : PqcJwk.fromKeypair base64url a.key.algorithm a.key.publicKey privateKey a.key.kid = .ok jwk) :
    Addition base64url where
  id := a.id
  controller := a.controller
  key := { a.key with privateKey := some privateKey }
  jwk := jwk
  produced := h
  relationships := a.relationships

/-- a key pair can be given another private key, and its JWK tells the two apart -/
theorem exists_other_privateKey (hb : base64url.Lawful) (a : Addition base64url) (hpriv : a.key.privateKey ≠ none) :
    ∃ a' : Addition base64url, a'.public = a.public ∧ a'.key.privateKey ≠ none ∧ a'.jwk ≠ a.jwk := by
  obtain ⟨sk, hsk⟩ := Option.ne_none_iff_exists'.1 hpriv
  have hprod := a.produced
  simp only [KeySpec.jwk, hsk] at hprod
  have hne : a.key.publicKey ≠ [] := by
    intro he
    rw [PqcJwk.fromKeypair, if_pos (Or.inl he)] at hprod
    cases hprod
  obtain ⟨jwk, hjwk⟩ : ∃ jwk, PqcJwk.fromKeypair base64url a.key.algorithm a.key.publicKey (0 :: sk) a.key.kid = .ok jwk :=
    ⟨_, if_neg (not_or.2 ⟨hne, List.cons_ne_nil _ _⟩)⟩
  refine ⟨a.withPrivateKey (0 :: sk) jwk hjwk, ?_, by simp [Addition.withPrivateKey], fun hsame => ?_⟩
  · simp only [Addition.withPrivateKey, Addition.public, hsk, Option.map_some]
  · have hjwks : jwk = a.jwk := hsame
    have hd := PqcJwk.decodePrivateKey_fromKeypair hb hjwk
    rw [hjwks, PqcJwk.decodePrivateKey_fromKeypair hb hprod] at hd
    simp at hd

theorem nodup_after {did : String} {d₀ : DidDocument} (h : new did = .ok d₀) (run : List (Addition base64url)) :
    (Run.after build d₀ run).ids.Nodup := by
  have hstep : ∀ b ∈ run, ∀ d : DidDocument, d.ids.Nodup → (build d b).ids.Nodup := fun b _ _ => distinct_build b
  exact Run.after_inv hstep (integrity_new h).distinct

/-- **A run shows no private key if and only if it puts no key pair into its document.** -/
theorem toJson_independent_iff (hb : base64url.Lawful) {json : Codec (Json F) String} (hjson : ReadsBack json) {did : String}
    {d₀ : DidDocument} (h : new did = .ok d₀) (run : List (Addition base64url)) :
    Independent json d₀ run ↔ Run.EachStep build (fun d a => ¬ Exposes d a) d₀ run := by
  constructor
  · intro hind pre a post hrun hexp
    subst hrun
    -- the same run with another private key for this method
    obtain ⟨a', hpub, hpriv, hjwk⟩ := exists_other_privateKey hb a hexp.1
    have hid : a'.id = a.id := congrArg Prod.fst hpub
    have hsame := methods_eq_of_toJson_eq hjson (hind (pre ++ a' :: post) (by
      rw [List.map_append, List.map_append, List.map_cons, List.map_cons, hpub]))
    have hmem : a.method ∈ (Run.after build d₀ (pre ++ a :: post)).verificationMethods := mem_after hexp
    have hmem' : a'.method ∈ (Run.after build d₀ (pre ++ a' :: post)).verificationMethods :=
      mem_after ⟨hpriv, hid ▸ hexp.2.1, hid ▸ hexp.2.2⟩
    rw [hsame] at hmem'
    have hmethod : a'.method = a.method := List.inj_on_of_nodup_map (nodup_after h _) hmem' hmem hid
    exact hjwk (congrArg VerificationMethod.publicKeyJwk hmethod)
  · intro hd run' hrun'
    rw [after_eq_of_public hrun' hd]

end

/-! ## JSON text -/

/-- a document holds no float -/
def floatless : FloatText Unit where
  token _ := ⟨false, [0], some [0], none⟩
  ofToken _ := ()

theorem floatless_lawful : floatless.Lawful where
  valid _ := ⟨Or.inl rfl, by simp [floatless], fun _ h => by cases h⟩
  isFloat _ := Or.inl rfl
  ofToken_token _ := rfl

theorem clean_serialize (d : DidDocument) : (d.serialize : Json F).Clean := by
  have hlist : ∀ {l : List String} {v : Json F}, unlessEmpty l = some v → v.Clean := by
    intro l v h
    unfold unlessEmpty at h
    split_ifs at h
    cases h
    exact clean_ofStrs l
  refine clean_record d.nodup_members fun n v hm => ?_
  simp only [members, List.mem_cons, Prod.mk.injEq, Option.some.injEq, List.not_mem_nil, or_false] at hm
  rcases hm with ⟨-, rfl⟩ | ⟨-, rfl⟩ | ⟨-, rfl⟩ | ⟨-, h⟩ | ⟨-, h⟩ | ⟨-, h⟩
  · exact clean_ofStrs _
  · exact clean_ofStr _
  · exact cleanItems_map VerificationMethod.clean_serialize _
  · exact hlist h.symm
  · exact hlist h.symm
  · exact hlist h.symm

theorem readsBack_text : ReadsBack (text floatless) := fun d => text_decode_encode floatless_lawful d.clean_serialize

/-! ## Two documents -/

def alice : DidDocument where
  context := ["https://www.w3.org/ns/did/v1", "https://w3id.org/security/suites/jws-2020/v1"]
  id := "did:example:alice"
  verificationMethods := []
  authentication := []
  assertionMethod := []
  keyAgreement := []

/-- a method with the key pair of these bytes -/
def keyPairAddition (privateKey : Bytes) (h : privateKey ≠ []) : Addition base64 where
  id := "did:example:alice#key-1"
  controller := "did:example:alice"
  key := ⟨.mlDsa65, [1, 2, 3], some privateKey, none⟩
  jwk := ⟨"OKP", "ML-DSA-65", "ML-DSA-65", base64.encode [1, 2, 3], some (base64.encode privateKey), none⟩
  produced := if_neg (by simp [h])
  relationships := [.authentication, .assertionMethod, .keyAgreement]

/-- A new document does not come back. -/
theorem document_lost : new "did:example:alice" = .ok alice ∧
    fromJson (text floatless) (toJson (text floatless) alice) = .error .emptyDid := by
  refine ⟨rfl, ?_⟩
  rw [fromJson_toJson alice readsBack_text]
  rfl

theorem document_back : fromJson (text floatless)
    (toJson (text floatless) (build alice (keyPairAddition [4, 5, 6] (List.cons_ne_nil _ _)))) =
      .ok (build alice (keyPairAddition [4, 5, 6] (List.cons_ne_nil _ _))) :=
  (fromJson_toJson_iff _ readsBack_text).2 (by decide +kernel)

/-- Two runs that differ in one private key lead to different JSON. -/
theorem private_key_shown :
    [keyPairAddition [7, 8, 9] (List.cons_ne_nil _ _)].map Addition.public =
      [keyPairAddition [4, 5, 6] (List.cons_ne_nil _ _)].map Addition.public ∧
    toJson (text floatless) (Run.after build alice [keyPairAddition [7, 8, 9] (List.cons_ne_nil _ _)]) ≠
      toJson (text floatless) (Run.after build alice [keyPairAddition [4, 5, 6] (List.cons_ne_nil _ _)]) := by
  refine ⟨rfl, fun h => ?_⟩
  exact absurd (methods_eq_of_toJson_eq readsBack_text h) (by decide +kernel)

theorem independent_iff_alice : Independent (text floatless) alice [keyPairAddition [4, 5, 6] (List.cons_ne_nil _ _)] ↔
    Run.EachStep build (fun d a => ¬ Exposes d a) alice [keyPairAddition [4, 5, 6] (List.cons_ne_nil _ _)] :=
  toJson_independent_iff base64_lawful readsBack_text (show new "did:example:alice" = .ok alice from rfl) _

end DidDocument

end AbirGuard.Rust
