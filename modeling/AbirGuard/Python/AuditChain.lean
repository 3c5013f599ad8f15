/-
The hash chain of the Python audit log: what `verify_integrity` accepts, and what the last entry says about the others.

An entry carries the hash of its own other members, and every entry but the first the hash of the whole entry before it.

- `verifyIntegrity_iff`: a log is accepted if and only if every entry is sealed and links to the one before it.
- `verifyIntegrity_append`: a call of the log keeps it accepted, whatever values the call is given.
- `chain_commits`: every log that calls make is accepted, and two accepted logs with the same last entry are the same.
- `same_of_hashed`: for entries that JSON text determines, what is assumed of `json.dumps` holds.
-/
import AbirGuard.Core.HashChain
import AbirGuard.Python.AttestationGate

namespace AbirGuard.Python.AuditLogger

open AbirGuard.Core HashChain
open Vault (zeroLibs)

/-! ## Model -/

/-- what a call of the log is given: values of any kind, and the time -/
structure LogCall where
  ts : ℚ
  action : Json ℚ
  keyId : Json ℚ
  success : Json ℚ
  details : Json ℚ

/-- the entry before its hashes -/
def LogCall.entry (c : LogCall) : AuditEntry where
  entries := Table.setAll ([("ts", .float c.ts), ("action", c.action), ("key_id", c.keyId), ("ok", c.success),
    ("details", c.details)] : List (Text × Json ℚ))
  unique := Table.unique_setAll _

variable (l : Libs)

/-- the log after a call -/
def append (entries : List AuditEntry) (c : LogCall) : List AuditEntry :=
  let entry := match entries.getLast? with
    | some prev => c.entry.set (Text.ofString "prev_hash") (Json.str (hashEntry l prev))
    | none => c.entry
  entries ++ [entry.set (Text.ofString "hash") (Json.str (hashEntry l entry))]

/-- the log that some calls make -/
def logged (calls : List LogCall) : List AuditEntry := calls.foldl (append l) []

/-- the bytes of which an entry's hash is taken -/
def hashed (e : AuditEntry) : Bytes := (Json.dumpsSorted l.float none (.obj e.entries)).encode.getD []

/-- equal as dictionaries -/
def SameEntry (e e' : AuditEntry) : Prop := Json.Same (.obj e.entries) (.obj e'.entries)

/-- the entry has the hash of its other members -/
def Sealed (e : AuditEntry) : Prop := hasString "hash" (hashEntry l (e.erase (Text.ofString "hash"))) e = true

/-- the hash of the entry before, if there is one -/
def prevHash (e : AuditEntry) : Option (Json ℚ) := (e.get (Text.ofString "prev_hash")).map Json.sortKeys

/-- the value by which the next entry names this one -/
def name (e : AuditEntry) : Json ℚ := .str (hashEntry l e)

variable {l}

/-- a call with a string for an id -/
theorem log_eq_append (η : Host) (action : String) (keyId : Text) (success : Bool) (details : Text)
    (entries : List AuditEntry) : log l η action keyId success details entries =
      append l entries ⟨η.clock (.audit action), .str action, .str keyId, .bool success, .str details⟩ := rfl

/-! ## What is accepted -/

theorem hasString_iff {key : String} {s : Text} {e : AuditEntry} :
    hasString key s e = true ↔ (e.get (Text.ofString key)).map Json.sortKeys = some (.str s) := by
  rw [hasString]
  cases e.get (Text.ofString key) with
  | none => simp
  | some v => cases v <;> simp [Json.sortKeys]

theorem verifyFrom_iff {prev : Option AuditEntry} {entries : List AuditEntry} :
    verifyFrom l prev entries = true ↔
      (∀ e ∈ entries, Sealed l e) ∧ Linked prevHash (name l) (prev.map (name l)) entries := by
  induction entries generalizing prev with
  | nil => simp [verifyFrom, Linked]
  | cons e entries ih =>
    have hcons : verifyFrom l prev (e :: entries) = true ↔
        (prevHash e = prev.map (name l) ∧ Sealed l e) ∧ verifyFrom l (some e) entries = true := by
      cases prev with
      | none => simp [verifyFrom, Dict.contains, prevHash, Sealed]
      | some d =>
        rw [verifyFrom, Bool.and_eq_true, Bool.and_eq_true, hasString_iff]
        rfl
    rw [hcons, ih, List.forall_mem_cons, Linked, Option.map_some]
    tauto

/-- **What is accepted.** -/
theorem verifyIntegrity_iff {entries : List AuditEntry} : verifyIntegrity l entries = true ↔
    (∀ e ∈ entries, Sealed l e) ∧ Linked prevHash (name l) none entries := verifyFrom_iff

/-! ## What calls make -/

/-- setting the hash seals an entry without one -/
theorem sealed_set {e : AuditEntry} (h : e.get (Text.ofString "hash") = none) :
    Sealed l (e.set (Text.ofString "hash") (Json.str (hashEntry l e))) := by
  rw [Sealed, Dict.erase_set_self h, hasString_iff, Dict.get_set_self]
  rfl

theorem prevHash_set_hash (e : AuditEntry) (v : Json ℚ) : prevHash (e.set (Text.ofString "hash") v) = prevHash e :=
 by
  rw [prevHash, prevHash, Dict.get_set_of_ne (by decide +kernel)]

theorem get_set_hashes (e : AuditEntry) (v : Json ℚ) {key : String} (hkey : key = "action" ∨ key = "key_id") :
    (e.set (Text.ofString "hash") v).get (Text.ofString key) = e.get (Text.ofString key) ∧
      (e.set (Text.ofString "prev_hash") v).get (Text.ofString key) = e.get (Text.ofString key) := by
  rcases hkey with rfl | rfl
  all_goals exact ⟨Dict.get_set_of_ne (by decide +kernel) .., Dict.get_set_of_ne (by decide +kernel) ..⟩

/-- a call appends an entry with its action and id, sealed and linked to the last one -/
theorem append_eq (entries : List AuditEntry) (c : LogCall) : ∃ e, append l entries c = entries ++ [e] ∧
    (Sealed l e ∧ prevHash e = lastName (name l) none entries) ∧
    e.get (Text.ofString "action") = some c.action ∧ e.get (Text.ofString "key_id") = some c.keyId := by
  have hnew : c.entry.get (Text.ofString "hash") = none := rfl
  rw [lastName_none]
  refine ⟨_, rfl, ?_⟩
  rw [prevHash_set_hash, (get_set_hashes _ _ (Or.inl rfl)).1, (get_set_hashes _ _ (Or.inr rfl)).1]
  cases entries.getLast? with
  | none => exact ⟨⟨sealed_set hnew, rfl⟩, rfl, rfl⟩
  | some prev =>
    dsimp only
    rw [(get_set_hashes _ _ (Or.inl rfl)).2, (get_set_hashes _ _ (Or.inr rfl)).2]
    refine ⟨⟨sealed_set ((Dict.get_set_of_ne (by decide +kernel) _ _).trans hnew), ?_⟩, rfl, rfl⟩
    rw [prevHash, Dict.get_set_self]
    rfl

/-- a call keeps a log accepted -/
theorem verifyIntegrity_append {entries : List AuditEntry} (h : verifyIntegrity l entries = true) (c : LogCall) :
    verifyIntegrity l (append l entries c) = true := by
  rw [verifyIntegrity_iff] at h ⊢
  obtain ⟨e, heq, ⟨hsealed, hlink⟩, -⟩ := append_eq (l := l) entries c
  rw [heq, linked_snoc, List.forall_mem_append, List.forall_mem_singleton]
  exact ⟨⟨h.1, hsealed⟩, h.2, hlink⟩

theorem verifyIntegrity_logged (calls : List LogCall) : verifyIntegrity l (logged l calls) = true := by
  rw [logged]
  induction calls using List.reverseRecOn with
  | nil => rfl
  | append_singleton calls c ih =>
    rw [List.foldl_append]
    exact verifyIntegrity_append ih c

/-! ## What the last entry determines -/

theorem hashEntry_inj {e e' : AuditEntry} : hashEntry l e = hashEntry l e' ↔ l.sha256 (hashed l e) = l.sha256 (hashed l e') := by
  rw [hashEntry, hashEntry, Text.ofString_inj, Text.hexdigest_injective.eq_iff, Vector.toList_inj]
  rfl

theorem SameEntry.prevHash {e e' : AuditEntry} (h : SameEntry e e') : prevHash e = prevHash e' :=
  (Json.same_obj_iff e.unique e'.unique).1 h _

/-- entries with the same text are the same, where no string has a high surrogate directly before a low one -/
theorem same_of_hashed (hfloat : l.float.Lawful) {e e' : AuditEntry} (h : Json.Clean (.obj e.entries))
    (h' : Json.Clean (.obj e'.entries))
    (hdumps : Json.dumpsSorted l.float none (.obj e.entries) = Json.dumpsSorted l.float none (.obj e'.entries)) :
    SameEntry e e' := Json.same_of_dumpsSorted_eq hfloat h h' hdumps

/-- **The chain commits to the whole log.** Whatever the calls, the log is accepted; and two accepted logs with the same last
entry are the same entry by entry, if the sorted text of their entries determines them and SHA-256 is injective on these
texts. -/
theorem chain_commits (l : Libs) :
    (∀ calls, verifyIntegrity l (logged l calls) = true) ∧
    ∀ entries entries' e e', entries.getLast? = some e → entries'.getLast? = some e' → SameEntry e e' →
      (∀ a ∈ entries, ∀ b ∈ entries',
        Json.dumpsSorted l.float none (.obj a.entries) = Json.dumpsSorted l.float none (.obj b.entries) → SameEntry a b) →
      Set.InjOn l.sha256 {m | ∃ a ∈ entries ++ entries', m = hashed l a} →
      verifyIntegrity l entries = true → verifyIntegrity l entries' = true → List.Forall₂ SameEntry entries entries' := by
  refine ⟨verifyIntegrity_logged, fun entries entries' e e' he he' hsame hdumps hsha hentries hentries' => ?_⟩
  obtain ⟨before, rfl⟩ := List.getLast?_eq_some_iff.1 he
  obtain ⟨before', rfl⟩ := List.getLast?_eq_some_iff.1 he'
  refine linked_eq_of_last (verifyIntegrity_iff.1 hentries).2 (verifyIntegrity_iff.1 hentries').2
    (fun a b hab => hab.prevHash) (fun a ha b hb hname => ?_) hsame
  rw [name, name, Json.str.injEq, hashEntry_inj] at hname
  have ha' := List.mem_append_left [e] ha
  have hb' := List.mem_append_left [e'] hb
  have htext : hashed l a = hashed l b :=
    hsha ⟨a, List.mem_append_left _ ha', rfl⟩ ⟨b, List.mem_append_right _ hb', rfl⟩ hname
  -- the text always has an encoding, which determines it
  obtain ⟨m, hm⟩ := Json.encode_dumps l.float none (Json.sortKeys (.obj a.entries))
  obtain ⟨m', hm'⟩ := Json.encode_dumps l.float none (Json.sortKeys (.obj b.entries))
  rw [hashed, hashed, Json.dumpsSorted, Json.dumpsSorted, hm, hm', Option.getD_some, Option.getD_some] at htext
  rw [htext] at hm
  exact hdumps a ha' b hb' (Text.encode_inj hm hm')

/-- a hash is 32 times the sum of the bytes -/
def sumLibs : Libs := { zeroLibs with sha256 := fun m => Vector.replicate 32 (m.foldl UInt8.add 0) }

def sumText (b : UInt8) : Text := Text.hexdigest (List.replicate 32 b)

/-- two entries of a log, with their hashes -/
def firstEntry : AuditEntry where
  entries := [("action", .str "a"), ("hash", .str (sumText 0xb9))]
  unique := by
    rw [Table.Unique]
    decide

def secondEntry : AuditEntry where
  entries := [("action", .str "b"), ("hash", .str (sumText 0x88)), ("prev_hash", .str (sumText 0xeb))]
  unique := by
    rw [Table.Unique]
    decide

/-- an entry without objects in it whose keys are in order is written as it is -/
theorem dumpsSorted_of_sorted {e : AuditEntry} (h : (e.entries.map Prod.fst).Pairwise (· ≤ ·))
    (hv : Json.sortMembers e.entries = e.entries) :
    Json.dumpsSorted l.float none (.obj e.entries) = Json.dumps l.float none (.obj e.entries) := by
  rw [Json.dumpsSorted, Json.sortKeys, hv, List.mergeSort_of_pairwise]
  simpa [List.pairwise_map] using h

theorem chain_commits_two : verifyIntegrity sumLibs [firstEntry, secondEntry] = true ∧
    List.Forall₂ SameEntry [firstEntry, secondEntry] [firstEntry, secondEntry] := by
  have hkeys : ∀ e ∈ [firstEntry, secondEntry], (e.entries.map Prod.fst).Pairwise (· ≤ ·) ∧
      ((e.erase (Text.ofString "hash")).entries.map Prod.fst).Pairwise (· ≤ ·) := by decide +kernel
  have hfirst : Json.dumpsSorted sumLibs.float none (.obj firstEntry.entries) =
      Json.dumps sumLibs.float none (.obj firstEntry.entries) := dumpsSorted_of_sorted (hkeys _ (by simp)).1 rfl
  have hsecond : Json.dumpsSorted sumLibs.float none (.obj secondEntry.entries) =
      Json.dumps sumLibs.float none (.obj secondEntry.entries) := dumpsSorted_of_sorted (hkeys _ (by simp)).1 rfl
  have hverify : verifyIntegrity sumLibs [firstEntry, secondEntry] = true := by
    rw [verifyIntegrity, verifyFrom, verifyFrom, verifyFrom, hashEntry, hashEntry, hashEntry, hfirst,
      dumpsSorted_of_sorted (hkeys firstEntry (by simp)).2 rfl, dumpsSorted_of_sorted (hkeys secondEntry (by simp)).2 rfl]
    decide +kernel
  -- the hashes of the two texts differ, and so do the texts
  have hhash : sumLibs.sha256 (hashed sumLibs firstEntry) ≠ sumLibs.sha256 (hashed sumLibs secondEntry) := by
    rw [hashed, hashed, hfirst, hsecond]
    decide +kernel
  have hdumps : ∀ a ∈ [firstEntry, secondEntry], ∀ b ∈ [firstEntry, secondEntry],
      sumLibs.sha256 (hashed sumLibs a) = sumLibs.sha256 (hashed sumLibs b) → a = b := by
    simp [hhash, hhash.symm]
  refine ⟨hverify, (chain_commits sumLibs).2 _ _ secondEntry secondEntry rfl rfl (Json.same_refl _) ?_ ?_ hverify hverify⟩
  · intro a ha b hb htext
    rw [hdumps a ha b hb (by rw [hashed, htext, hashed])]
    exact Json.same_refl _
  · intro m ⟨a, ha, hm⟩ m' ⟨b, hb, hm'⟩ heq
    rw [hm, hm'] at heq ⊢
    have htwo : ∀ c, c ∈ [firstEntry, secondEntry] ++ [firstEntry, secondEntry] → c ∈ [firstEntry, secondEntry] := by simp
    rw [hdumps a (htwo a ha) b (htwo b hb) heq]

end AbirGuard.Python.AuditLogger
