/-
The Python revocation list and its signed export (`revocation.py`).

A list carries the HMAC of its entries. Loading one checks the signature only where there is one: the empty string, and every
other false value, passes for any entries. The entries come from JSON, so their fields may be of any type.

- `load_ok_iff`: which documents load.
- `load_authentic_iff`: which documents load nothing but what was signed.
- `unsigned_document_loads`: an exported list with its reason changed and its signature taken out.
- `sameEntries_of_signedData`: what is signed determines the entries, where no string has a high surrogate directly before a
  low one.
-/
import AbirGuard.Core.Authentication
import AbirGuard.Python.AttestationGate
import AbirGuard.Python.JsonValue

namespace AbirGuard.Python

open AbirGuard.Core JsonValue Authentication
open Vault (zeroLibs)

/-! ## Model -/

inductive RevocationReason where
  | compromised
  | rotated
  | retired
  | policy
deriving DecidableEq, Repr

def RevocationReason.value : RevocationReason → String
  | .compromised => "compromised"
  | .rotated => "rotated"
  | .retired => "retired"
  | .policy => "policy"

/-- an entry, whose fields may be of any type -/
structure RevocationEntry where
  keyId : Json ℚ
  reason : Json ℚ
  timestamp : Json ℚ
  revokedBy : Json ℚ
  details : Json ℚ

def RevocationEntry.members (e : RevocationEntry) : List (Text × Json ℚ) :=
  [("key_id", e.keyId), ("reason", e.reason), ("timestamp", e.timestamp), ("revoked_by", e.revokedBy),
    ("details", e.details)]

def RevocationEntry.asdict (e : RevocationEntry) : Json ℚ := .obj e.members

/-- `entry.key_id == key_id` for a string -/
def RevocationEntry.hasKeyId (e : RevocationEntry) (keyId : Text) : Bool :=
  match e.keyId with
  | .str t => t = keyId
  | _ => false

/-- `RevocationEntry(**args)` -/
def RevocationEntry.ofArgs (args : List (Text × Json ℚ)) : Except Exc RevocationEntry := do
  let field ← bindArgs "RevocationEntry" [("key_id", none), ("reason", none), ("timestamp", none),
    ("revoked_by", some (.str "")), ("details", some (.str ""))] args
  .ok ⟨field "key_id", field "reason", field "timestamp", field "revoked_by", field "details"⟩

structure RevocationList where
  revocationKey : Bytes
  entries : List RevocationEntry
  signature : Json ℚ

namespace RevocationList

/-- the key is random where none is given, or an empty one -/
def new (revocationKey : Option Bytes) (random : Bytes) : RevocationList :=
  ⟨if revocationKey.getD [] = [] then random else revocationKey.getD [], [], .str ""⟩

def isRevoked (crl : RevocationList) (keyId : Text) : Bool := crl.entries.any fun e => e.hasKeyId keyId

def getEntry (crl : RevocationList) (keyId : Text) : Option RevocationEntry := crl.entries.find? fun e => e.hasKeyId keyId

variable (T : FloatText ℚ) (hmac : Bytes → Bytes → Digest)

/-- the text that is signed; it always has an encoding -/
def signedData (entries : List RevocationEntry) : Text := Json.dumpsSorted T none (.arr (entries.map (·.asdict)))

/-- the signature of a text -/
def sign (revocationKey : Bytes) (data : Text) : Text :=
  Text.hexdigest (hmac revocationKey (data.encode.getD [])).toList

def computeSignature (crl : RevocationList) : Text := sign hmac crl.revocationKey (signedData T crl.entries)

def verifyIntegrity (crl : RevocationList) : Except Exc Bool :=
  if ¬ truthy crl.signature then .ok true
  else
    match crl.signature with
    | .str t => compareDigest t (crl.computeSignature T hmac)
    | v => .error ⟨.typeError, s!"unsupported operand types(s) or combination of types: '{typeName v}' and 'str'"⟩

def revoke (now : ℚ) (keyId : Text) (reason : RevocationReason) (revokedBy details : Text) (crl : RevocationList) :
    RevocationList :=
  let entry : RevocationEntry := ⟨.str keyId, .str reason.value, .float now, .str revokedBy, .str details⟩
  let crl := { crl with entries := crl.entries ++ [entry] }
  { crl with signature := .str (crl.computeSignature T hmac) }

def exportCrl (now : ℚ) (crl : RevocationList) : Text :=
  Json.dumps T (some 2) (.obj [("version", .int 1), ("entries", .arr (crl.entries.map (·.asdict))),
    ("signature", crl.signature), ("exported_at", .float now)])

variable (jsonError : Text → Text)

/-- the entries and the signature of a document -/
def document (crlJson : Text) : Except Exc (List RevocationEntry × Json ℚ) := do
  let data ← match Json.loads T crlJson with
    | some v => .ok v
    | none => .error ⟨.jsonDecodeError, jsonError crlJson⟩
  let items ← iterate (← getItem "entries" data)
  let entries ← items.mapM fun e => do
    RevocationEntry.ofArgs (← mapping "abir_guard.revocation.RevocationEntry" e)
  .ok (entries, ← getItem "signature" data)

def load (random : Bytes) (crlJson : Text) (revocationKey : Bytes) : Except Exc RevocationList := do
  let (entries, signature) ← document T jsonError crlJson
  let crl : RevocationList := { new (some revocationKey) random with entries, signature }
  let valid ← crl.verifyIntegrity T hmac
  if ¬ valid then
    .error ⟨.valueError, "CRL integrity check failed — tampering detected"⟩
  else .ok crl

/-! ## What a list holding a key can sign -/

/-- a list that holds the key -/
inductive Holds (key : Bytes) : RevocationList → Prop
  | new (revocationKey : Option Bytes) (random : Bytes) (h : (new revocationKey random).revocationKey = key) :
      Holds key (new revocationKey random)
  | load (random : Bytes) (crlJson : Text) (revocationKey : Bytes) (crl : RevocationList)
      (h : load T hmac jsonError random crlJson revocationKey = .ok crl) (hkey : crl.revocationKey = key) : Holds key crl
  | revoke (now : ℚ) (keyId : Text) (reason : RevocationReason) (revokedBy details : Text) (crl : RevocationList)
      (h : Holds key crl) : Holds key (crl.revoke T hmac now keyId reason revokedBy details)

/-- the entries for which a list that holds the key may come to compute its signature: those after a revocation -/
def Signable (key : Bytes) : Set (List RevocationEntry) :=
  {entries | ∃ crl now keyId reason revokedBy details, Holds T hmac jsonError key crl ∧
    (crl.revoke T hmac now keyId reason revokedBy details).entries = entries}

/-- equal entry by entry, as dictionaries -/
def SameEntries (entries entries' : List RevocationEntry) : Prop :=
  List.Forall₂ (fun e e' => Json.Same e.asdict e'.asdict) entries entries'

/-- whatever was signed under the key of the list, if the document is no forgery it loads no entries or some that were
signed -/
def Authentic (random : Bytes) (crlJson : Text) (revocationKey : Bytes) : Prop :=
  ∀ crl, load T hmac jsonError random crlJson revocationKey = .ok crl →
    ∀ issued ⊆ Signable T hmac jsonError crl.revocationKey,
      Unforgeable (fun data => .str (sign hmac crl.revocationKey data)) (signedData T) issued crl.entries crl.signature →
      crl.entries = [] ∨ ∃ entries ∈ issued, SameEntries entries crl.entries

/-- the document has no entries, or a true value for a signature; and if this is the right one, no other entries that may be
signed have the same text -/
def Guarded (random : Bytes) (crlJson : Text) (revocationKey : Bytes) : Prop :=
  ∀ entries signature, document T jsonError crlJson = .ok (entries, signature) →
    entries = [] ∨ truthy signature = true ∧
      (signature = .str (sign hmac (new (some revocationKey) random).revocationKey (signedData T entries)) →
        ∀ entries' ∈ Signable T hmac jsonError (new (some revocationKey) random).revocationKey,
          signedData T entries' = signedData T entries → SameEntries entries' entries)

variable {T hmac jsonError} {random : Bytes} {crlJson : Text} {revocationKey : Bytes}

/-! ## What is signed and exported -/

theorem clean_entries {entries : List RevocationEntry} (h : ∀ e ∈ entries, Json.Clean e.asdict) :
    Json.Clean (.arr (entries.map (·.asdict))) := by
  rw [Json.Clean, Json.cleanItems_iff]
  simpa using h

/-- **What is signed determines the entries**, where no string has a high surrogate directly before a low one. -/
theorem sameEntries_of_signedData (hT : T.Lawful) {entries entries' : List RevocationEntry}
    (h : ∀ e ∈ entries, Json.Clean e.asdict) (h' : ∀ e ∈ entries', Json.Clean e.asdict)
    (hdata : signedData T entries = signedData T entries') : SameEntries entries entries' := by
  have hsame := Json.same_of_dumpsSorted_eq hT (clean_entries h) (clean_entries h') hdata
  rwa [Json.same_arr_iff, List.forall₂_map_left_iff, List.forall₂_map_right_iff] at hsame

theorem ofArgs_members (e : RevocationEntry) : RevocationEntry.ofArgs e.members = .ok e := rfl

/-- a list that is exported comes back with its entries and its signature -/
theorem document_exportCrl (hT : T.Lawful) (now : ℚ) {crl : RevocationList} (h : ∀ e ∈ crl.entries, Json.Clean e.asdict)
    (hsig : Json.Clean crl.signature) :
    document T jsonError (crl.exportCrl T now) = .ok (crl.entries, crl.signature) := by
  have hentries : (crl.entries.map (·.asdict)).mapM (fun e => do
      RevocationEntry.ofArgs (← mapping "abir_guard.revocation.RevocationEntry" e)) = .ok crl.entries := by
    clear h
    induction crl.entries with
    | nil => rfl
    | cons e entries ih =>
      rw [List.map_cons, List.mapM_cons, RevocationEntry.asdict, mapping, Outcome.ok_bind, ofArgs_members, Outcome.ok_bind, ih]
      rfl
  have hkeys : (["version", "entries", "signature", "exported_at"].map Text.ofString).Nodup := by decide
  have hclean : Json.Clean (.obj [("version", .int 1), ("entries", .arr (crl.entries.map (·.asdict))),
      ("signature", crl.signature), ("exported_at", .float now)]) := by
    refine ⟨hkeys, ?_⟩
    simp only [Json.CleanMembers, Json.unpaired_ofString, clean_entries h, hsig, and_true, true_and]
    exact ⟨trivial, trivial⟩
  rw [document, exportCrl, Json.loads_dumps (some 2) hT, (Json.normal_eq_self_iff _).2 hclean]
  dsimp only
  rw [Outcome.ok_bind]
  show (do
    let entries ← (crl.entries.map RevocationEntry.asdict).mapM fun e => do
      RevocationEntry.ofArgs (← mapping "abir_guard.revocation.RevocationEntry" e)
    (.ok (entries, crl.signature) : Except Exc (List RevocationEntry × Json ℚ))) = _
  rw [hentries, Outcome.ok_bind]

/-! ## What loads -/

theorem truthy_sign (key : Bytes) (data : Text) : truthy (.str (sign hmac key data)) = true := by
  have hlen := Text.hexdigest_length (hmac key (data.encode.getD [])).toList
  rw [Vector.length_toList] at hlen
  have hne : sign hmac key data ≠ [] := by
    intro h
    rw [sign, Text.ofString, List.map_eq_nil_iff] at h
    rw [h] at hlen
    simp at hlen
  simp [truthy, hne]

theorem verifyIntegrity_true_iff {crl : RevocationList} : crl.verifyIntegrity T hmac = .ok true ↔
    truthy crl.signature = false ∨ crl.signature = .str (crl.computeSignature T hmac) := by
  rw [verifyIntegrity]
  by_cases htrue : truthy crl.signature = true
  · rw [if_neg (by simpa using htrue)]
    cases hsig : crl.signature with
    | str t =>
      rw [hsig] at htrue
      simp only [htrue, Bool.true_eq_false, false_or, Json.str.injEq]
      rw [compareDigest_comm, computeSignature, sign, compareDigest_true_iff (hexdigest_ascii _), eq_comm]
    | _ =>
      rw [hsig] at htrue
      simp [htrue]
  · rw [if_pos htrue]
    simp [htrue]

theorem load_ok_iff {crl : RevocationList} : load T hmac jsonError random crlJson revocationKey = .ok crl ↔
    document T jsonError crlJson = .ok (crl.entries, crl.signature) ∧
      crl.revocationKey = (new (some revocationKey) random).revocationKey ∧
      (truthy crl.signature = false ∨ crl.signature = .str (crl.computeSignature T hmac)) := by
  rw [load]
  cases hdoc : document T jsonError crlJson with
  | error e => exact iff_of_false (fun h => by cases h) fun h => by cases h.1
  | ok doc =>
    obtain ⟨entries, signature⟩ := doc
    rw [Outcome.ok_bind]
    dsimp only
    constructor
    · intro h
      obtain ⟨valid, hvalid, h⟩ := Outcome.bind_eq_ok h
      cases valid with
      | false => cases h
      | true =>
        cases h
        exact ⟨rfl, rfl, verifyIntegrity_true_iff.1 hvalid⟩
    · intro ⟨hsame, hkey, hsig⟩
      obtain ⟨key, entries', signature'⟩ := crl
      obtain rfl : key = _ := hkey
      cases hsame
      have hvalid := verifyIntegrity_true_iff.2 hsig
      rw [hvalid]
      rfl

/-- a false value for a signature is the tag of nothing -/
theorem unforgeable_of_falsy {key : Bytes} {entries : List RevocationEntry} {signature : Json ℚ}
    (h : truthy signature = false) (issued : Set (List RevocationEntry)) :
    Unforgeable (fun data => .str (sign hmac key data)) (signedData T) issued entries signature := by
  intro htag
  rw [← htag, truthy_sign] at h
  cases h

/-- what the claim about a document says of its entries and signature -/
theorem authentic_iff {entries : List RevocationEntry} {signature : Json ℚ}
    (hdoc : document T jsonError crlJson = .ok (entries, signature)) {key : Bytes}
    (hkey : (new (some revocationKey) random).revocationKey = key) :
    Authentic T hmac jsonError random crlJson revocationKey ↔
      (truthy signature = false ∨ signature = .str (sign hmac key (signedData T entries)) →
        ∀ issued ⊆ Signable T hmac jsonError key,
          Unforgeable (fun data => .str (sign hmac key data)) (signedData T) issued entries signature →
          entries = [] ∨ ∃ entries' ∈ issued, SameEntries entries' entries) := by
  constructor
  · intro h hsig
    exact h ⟨key, entries, signature⟩ (load_ok_iff.2 ⟨hdoc, hkey.symm, hsig⟩)
  · intro h crl hload
    obtain ⟨hdoc', hkey', hsig⟩ := load_ok_iff.1 hload
    obtain ⟨key', entries', signature'⟩ := crl
    rw [hdoc, Except.ok.injEq, Prod.mk.injEq] at hdoc'
    obtain ⟨rfl, rfl⟩ := hdoc'
    rw [hkey] at hkey'
    subst hkey'
    exact h hsig

/-- and what guards it -/
theorem guarded_iff {entries : List RevocationEntry} {signature : Json ℚ}
    (hdoc : document T jsonError crlJson = .ok (entries, signature)) {key : Bytes}
    (hkey : (new (some revocationKey) random).revocationKey = key) :
    Guarded T hmac jsonError random crlJson revocationKey ↔ entries = [] ∨ truthy signature = true ∧
      (signature = .str (sign hmac key (signedData T entries)) →
        ∀ entries' ∈ Signable T hmac jsonError key,
          signedData T entries' = signedData T entries → SameEntries entries' entries) := by
  rw [Guarded, hkey]
  constructor
  · intro h
    exact h entries signature hdoc
  · intro h entries' signature' hdoc'
    rw [hdoc, Except.ok.injEq, Prod.mk.injEq] at hdoc'
    obtain ⟨rfl, rfl⟩ := hdoc'
    exact h

/-- **A document loads nothing but what was signed, if and only if it is guarded.** -/
theorem load_authentic_iff (T : FloatText ℚ) (hmac : Bytes → Bytes → Digest) (jsonError : Text → Text)
    (random : Bytes) (crlJson : Text) (revocationKey : Bytes) :
    Authentic T hmac jsonError random crlJson revocationKey ↔
      Guarded T hmac jsonError random crlJson revocationKey := by
  cases hdoc : document T jsonError crlJson with
  | error e =>
    refine iff_of_true (fun crl h => ?_) fun entries signature h => ?_
    · rw [load_ok_iff, hdoc] at h
      cases h.1
    · rw [hdoc] at h
      cases h
  | ok doc =>
    obtain ⟨entries, signature⟩ := doc
    obtain ⟨key, hkey⟩ : ∃ key, (new (some revocationKey) random).revocationKey = key := ⟨_, rfl⟩
    rw [authentic_iff hdoc hkey, guarded_iff hdoc hkey]
    by_cases hempty : entries = []
    · simp [hempty]
    · simp only [hempty, false_or]
      cases htrue : truthy signature with
      | false =>
        -- it loads although nothing was signed
        refine iff_of_false (fun h => ?_) fun h => by simp at h
        obtain ⟨entries', hissued, -⟩ := h (Or.inl rfl) ∅ (Set.empty_subset _) (unforgeable_of_falsy htrue ∅)
        exact hissued
      | true =>
        have hgenuine : (∀ issued ⊆ Signable T hmac jsonError key,
            Unforgeable (fun data => .str (sign hmac key data)) (signedData T) issued entries signature →
              .str (sign hmac key (signedData T entries)) = signature →
              ∃ entries' ∈ issued, SameEntries entries' entries) ↔
            (.str (sign hmac key (signedData T entries)) = signature →
              ∀ entries' ∈ Signable T hmac jsonError key,
                signedData T entries' = signedData T entries → SameEntries entries' entries) := genuine_iff
        simp only [Bool.true_eq_false, false_or, true_and]
        rw [eq_comm, ← hgenuine]
        constructor
        · intro h issued hissued hun hsig
          exact h hsig issued hissued hun
        · intro h hsig issued hissued hun
          exact h issued hissued hun hsig

/-! ## An unsigned document -/

/-- the export of a list with one key revoked as compromised, with the reason changed and the signature taken out -/
def strippedJson : Text :=
  "\x7b\"version\": 1, \"entries\": [\x7b\"key_id\": \"k\", \"reason\": \"retired\", \"timestamp\": 0.0, " ++
    "\"revoked_by\": \"\", \"details\": \"\"\x7d], \"signature\": \"\", \"exported_at\": 0.0\x7d"

/-- the list that was exported -/
def victimList : RevocationList := (new (some [1]) []).revoke zeroLibs.float hmacSha256 0 "k" .compromised "" ""

def loaded : Except Exc RevocationList := load zeroLibs.float hmacSha256 id [] strippedJson [1]

/-- what loads is a list with a false value for its signature, and one entry with this reason -/
def isUnsigned (reason : Text) : Except Exc RevocationList → Bool
  | .ok ⟨_, [⟨_, .str t, _, _, _⟩], signature⟩ => !truthy signature && decide (t = reason)
  | _ => false

theorem isUnsigned_iff {reason : Text} {r : Except Exc RevocationList} (h : isUnsigned reason r = true) :
    ∃ crl e, r = .ok crl ∧ crl.entries = [e] ∧ e.reason = .str reason ∧ truthy crl.signature = false := by
  rw [isUnsigned.eq_def] at h
  split at h
  · rw [Bool.and_eq_true, decide_eq_true_eq] at h
    exact ⟨_, _, rfl, rfl, congrArg Json.str h.2, by simpa using h.1⟩
  · cases h

theorem unique_members (e : RevocationEntry) : Table.Unique e.members := by
  have hkeys : (["key_id", "reason", "timestamp", "revoked_by", "details"].map Text.ofString).Nodup := by decide
  exact hkeys

theorem reason_of_same {e e' : RevocationEntry} (h : Json.Same e.asdict e'.asdict) {t : Text} :
    e.reason = .str t ↔ e'.reason = .str t := by
  have hget := (Json.same_obj_iff (unique_members e) (unique_members e')).1 h (Text.ofString "reason")
  have hreason : Json.sortKeys e.reason = Json.sortKeys e'.reason := Option.some.inj hget
  rw [← Json.sortKeys_eq_str_iff, hreason, Json.sortKeys_eq_str_iff]

/-- **A modified list without a signature loads.** -/
theorem unsigned_document_loads : (∃ crl, loaded = .ok crl ∧ crl.entries ≠ []) ∧
    ¬ Authentic zeroLibs.float hmacSha256 id [] strippedJson [1] := by
  have hloads : isUnsigned "retired" loaded = true := by decide +kernel
  obtain ⟨crl, e, hcrl, he, hreason, hfalsy⟩ := isUnsigned_iff hloads
  refine ⟨⟨crl, hcrl, by simp [he]⟩, fun hauth => ?_⟩
  have hkey : crl.revocationKey = [1] := (load_ok_iff.1 hcrl).2.1
  -- only the list as it was exported was signed
  have hissued : {victimList.entries} ⊆ Signable zeroLibs.float hmacSha256 id crl.revocationKey := by
    rw [hkey, Set.singleton_subset_iff]
    exact ⟨_, _, _, _, _, _, Holds.new (some [1]) [] rfl, rfl⟩
  rcases hauth crl hcrl _ hissued (unforgeable_of_falsy hfalsy _) with hempty | ⟨entries, hentries, hsame⟩
  · rw [he] at hempty
    cases hempty
  · rw [Set.mem_singleton_iff.1 hentries, he] at hsame
    cases hsame with
    | cons hfirst _ =>
      have hcompromised := (reason_of_same hfirst).2 hreason
      cases hcompromised

end RevocationList

end AbirGuard.Python
