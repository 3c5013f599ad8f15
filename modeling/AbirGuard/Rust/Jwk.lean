/-
JSON Web Keys of the post-quantum algorithms: `src/interop/jwk.rs`.

The base64url engine without padding is an argument.

- `decodePrivateKey_fromKeypair`: a key made from a key pair holds the private key.
- `deserialize_serialize`: the JSON of a key is read back as the key.
-/
import AbirGuard.Core.Record

namespace AbirGuard.Rust

open AbirGuard.Core Record

/-! ## Model -/

inductive JwkError where
  | unsupportedKeyType (s : String)
  | missingField (s : String)
  | decodeError (s : String)
  | emptyKey
deriving DecidableEq, Repr

inductive PqcAlgorithm where
  | mlDsa65
  | mlKem1024
deriving DecidableEq, Repr

def PqcAlgorithm.algStr : PqcAlgorithm → String
  | .mlDsa65 => "ML-DSA-65"
  | .mlKem1024 => "ML-KEM-1024"

def PqcAlgorithm.fromStr (s : String) : Except JwkError PqcAlgorithm :=
  if s = "ML-DSA-65" then .ok .mlDsa65
  else if s = "ML-KEM-1024" then .ok .mlKem1024
  else .error (.unsupportedKeyType s)

structure PqcJwk where
  kty : String
  alg : String
  crv : String
  /-- the public key -/
  x : String
  /-- the private key; none for a public key alone -/
  d : Option String
  kid : Option String
deriving DecidableEq, Repr

namespace PqcJwk

section

variable (base64url : Codec Bytes String)

def fromPublic (algorithm : PqcAlgorithm) (publicKey : Bytes) (kid : Option String) : Except JwkError PqcJwk :=
  if publicKey = [] then .error .emptyKey
  else .ok
    { kty := "OKP"
      alg := algorithm.algStr
      crv := algorithm.algStr
      x := base64url.encode publicKey
      d := none
      kid := kid }

def fromKeypair (algorithm : PqcAlgorithm) (publicKey privateKey : Bytes) (kid : Option String) : Except JwkError PqcJwk :=
  if publicKey = [] ∨ privateKey = [] then .error .emptyKey
  else .ok
    { kty := "OKP"
      alg := algorithm.algStr
      crv := algorithm.algStr
      x := base64url.encode publicKey
      d := some (base64url.encode privateKey)
      kid := kid }

def decodePublicKey (jwk : PqcJwk) : Except JwkError Bytes := (base64url.decode jwk.x).mapError .decodeError

def decodePrivateKey (jwk : PqcJwk) : Except JwkError (Option Bytes) :=
  match jwk.d with
  | none => .ok none
  | some d => some <$> (base64url.decode d).mapError .decodeError

end

def algorithm (jwk : PqcJwk) : Except JwkError PqcAlgorithm := PqcAlgorithm.fromStr jwk.alg

variable {F : Type}

def members (jwk : PqcJwk) : List (String × Option (Json F)) :=
  [("kty", some (ofStr jwk.kty)), ("alg", some (ofStr jwk.alg)), ("crv", some (ofStr jwk.crv)), ("x", some (ofStr jwk.x)),
    -- left out if there is none
    ("d", jwk.d.map ofStr), ("kid", jwk.kid.map ofStr)]

def serialize (jwk : PqcJwk) : Json F := record jwk.members

def deserialize (v : Json F) : Option PqcJwk :=
  match slots ["kty", "alg", "crv", "x", "d", "kid"] v with
  | some [kty, alg, crv, x, d, kid] => do
    some
      { kty := ← required asStr kty
        alg := ← required asStr alg
        crv := ← required asStr crv
        x := ← required asStr x
        d := ← optional asStr d
        kid := ← optional asStr kid }
  | _ => none

/-! ## Round trips -/

theorem nodup_members (jwk : PqcJwk) : ((jwk.members : List (String × Option (Json F))).map Prod.fst).Nodup := by
  have hnames : ["kty", "alg", "crv", "x", "d", "kid"].Nodup := by decide
  exact hnames

theorem deserialize_serialize (jwk : PqcJwk) : deserialize (jwk.serialize : Json F) = some jwk := by
  have hslots : slots ["kty", "alg", "crv", "x", "d", "kid"] (jwk.serialize : Json F) =
      some (jwk.members.map Prod.snd) := slots_record jwk.nodup_members
  rw [deserialize, hslots]
  simp [members, required]

theorem clean_serialize (jwk : PqcJwk) : (jwk.serialize : Json F).Clean := by
  refine clean_record jwk.nodup_members fun n v hm => ?_
  have hstr : ∃ s, v = ofStr s := by
    simp only [members, List.mem_cons, Prod.mk.injEq, Option.some.injEq, List.not_mem_nil, or_false] at hm
    rcases hm with ⟨-, h⟩ | ⟨-, h⟩ | ⟨-, h⟩ | ⟨-, h⟩ | ⟨-, h⟩ | ⟨-, h⟩
    · exact ⟨_, h⟩
    · exact ⟨_, h⟩
    · exact ⟨_, h⟩
    · exact ⟨_, h⟩
    · obtain ⟨s, -, hs⟩ := Option.map_eq_some_iff.1 h.symm
      exact ⟨s, hs.symm⟩
    · obtain ⟨s, -, hs⟩ := Option.map_eq_some_iff.1 h.symm
      exact ⟨s, hs.symm⟩
  obtain ⟨s, rfl⟩ := hstr
  exact clean_ofStr s

variable {base64url : Codec Bytes String}

theorem decodePrivateKey_fromKeypair (hb : base64url.Lawful) {algorithm : PqcAlgorithm} {publicKey privateKey : Bytes}
    {kid : Option String} {jwk : PqcJwk} (h : fromKeypair base64url algorithm publicKey privateKey kid = .ok jwk) :
    jwk.decodePrivateKey base64url = .ok (some privateKey) := by
  unfold fromKeypair at h
  split_ifs at h
  cases h
  simp only [decodePrivateKey, hb privateKey]
  rfl

end PqcJwk

end AbirGuard.Rust
