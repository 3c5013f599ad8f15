/-
Do the revocation lists of `revocation.rs` and `revocation.py` answer alike?

Both append an entry for every revocation. The Rust list keeps an index from key id to position, which a second revocation of
a key overwrites; the Python list scans its entries from the front. So Rust reports the last revocation of a key, and Python
the first.

- `isRevoked_agree`: after any revocations the two lists name the same keys.
- `rust_getEntry`, `python_getEntry`: the entry each returns, by the calls made.
- `lists_agree_iff`: the reported reasons are the same for every revoked key exactly when the first and the last revocation of
  every key give the same reason.

Key ids are strings without surrogates, those of both languages.
-/
import AbirGuard.Python.Revocation
import AbirGuard.Rust.Revocation

namespace AbirGuard.RevocationAgreement

open AbirGuard.Core
open AbirGuard.Rust.Revocation (RevocationReason Revoke)

/-! ## Model -/

/-- a revocation as both programs see it; each has its own clock -/
structure Call where
  revoke : Revoke
  time : ℚ

/-- the reason of the other language -/
def toPython : RevocationReason → Python.RevocationReason
  | .compromised => .compromised
  | .rotated => .rotated
  | .retired => .retired
  | .policy => .policy

theorem display_injective {r r' : RevocationReason} (h : r.display = r'.display) : r = r' := by
  cases r <;> cases r' <;> first | rfl | exact absurd h (by decide)

theorem value_toPython (r : RevocationReason) : (toPython r).value = r.display := by cases r <;> rfl

section

variable (sha256 : Bytes → Digest) (T : FloatText ℚ) (hmac : Bytes → Bytes → Digest)

/-- the Rust list after the calls -/
def rustList (key : Bytes) (calls : List Call) : Rust.Revocation.RevocationList :=
  .revoked sha256 key (calls.map Call.revoke)

/-- one call of the Python list -/
def pythonStep (crl : Python.RevocationList) (call : Call) : Python.RevocationList :=
  crl.revoke T hmac call.time call.revoke.keyId (toPython call.revoke.reason) call.revoke.revokedBy call.revoke.details

/-- the Python list after the calls -/
def pythonList (revocationKey : Option Bytes) (random : Bytes) (calls : List Call) : Python.RevocationList :=
  Run.after (pythonStep T hmac) (.new revocationKey random) calls

end

/-! ## The entries of both lists -/

/-- the first call for a key -/
def first (keyId : String) (calls : List Call) : Option Call := calls.find? fun call => call.revoke.keyId = keyId

/-- the last call for a key -/
def last (keyId : String) (calls : List Call) : Option Call := calls.reverse.find? fun call => call.revoke.keyId = keyId

/-- the entry of a call in the Rust list -/
def rustEntry (call : Call) : Rust.Revocation.RevocationEntry :=
  ⟨call.revoke.keyId, call.revoke.reason.display, call.revoke.now, call.revoke.revokedBy, call.revoke.details⟩

/-- the entry of a call in the Python list -/
def pythonEntry (call : Call) : Python.RevocationEntry :=
  ⟨.str call.revoke.keyId, .str (toPython call.revoke.reason).value, .float call.time, .str call.revoke.revokedBy,
    .str call.revoke.details⟩

section

variable {sha256 : Bytes → Digest} {T : FloatText ℚ} {hmac : Bytes → Bytes → Digest}

theorem rustList_snoc (key : Bytes) (calls : List Call) (call : Call) :
    rustList sha256 key (calls ++ [call]) = (rustList sha256 key calls).revoke sha256 call.revoke := by
  rw [rustList, List.map_append, List.map_singleton, Rust.Revocation.RevocationList.revoked_snoc]
  rfl

theorem pythonList_snoc (revocationKey : Option Bytes) (random : Bytes) (calls : List Call) (call : Call) :
    pythonList T hmac revocationKey random (calls ++ [call]) =
      pythonStep T hmac (pythonList T hmac revocationKey random calls) call := Run.after_append _ calls [call]

theorem entries_rustList (key : Bytes) (calls : List Call) : (rustList sha256 key calls).entries = calls.map rustEntry := by
  rw [rustList, Rust.Revocation.RevocationList.entries_revoked, List.map_map]
  rfl

theorem entries_pythonList (revocationKey : Option Bytes) (random : Bytes) (calls : List Call) :
    (pythonList T hmac revocationKey random calls).entries = calls.map pythonEntry := by
  induction calls using List.reverseRecOn with
  | nil => rfl
  | append_singleton calls call ih =>
    rw [pythonList_snoc, List.map_append, ← ih]
    rfl

theorem last_snoc (keyId : String) (calls : List Call) (call : Call) :
    last keyId (calls ++ [call]) = if call.revoke.keyId = keyId then some call else last keyId calls := by
  rw [last, List.reverse_append, List.reverse_singleton, List.singleton_append, List.find?_cons]
  split_ifs with h <;> simp [h, last]

/-- the index holds the position of the last entry of a key -/
theorem index_rustList (key : Bytes) (calls : List Call) (keyId : String) :
    ((rustList sha256 key calls).revokedIds.lookup keyId).bind (fun idx => calls[idx]?) = last keyId calls ∧
      ∀ idx, (rustList sha256 key calls).revokedIds.lookup keyId = some idx → idx < calls.length := by
  induction calls using List.reverseRecOn with
  | nil => simp [rustList, Rust.Revocation.RevocationList.revoked, Rust.Revocation.RevocationList.withKey, last]
  | append_singleton calls call ih =>
    obtain ⟨ih, hlt⟩ := ih
    have hlen : (rustList sha256 key calls).entries.length = calls.length := by rw [entries_rustList, List.length_map]
    rw [rustList_snoc, last_snoc]
    simp only [Rust.Revocation.RevocationList.revoke, hlen]
    by_cases hk : call.revoke.keyId = keyId
    · subst hk
      simp
    · rw [Finmap.lookup_insert_of_ne _ (Ne.symm hk), if_neg hk, ← ih]
      cases hl : (rustList sha256 key calls).revokedIds.lookup keyId with
      | none => simp
      | some idx =>
        have := hlt idx hl
        simp only [Option.bind_some, List.getElem?_append_left this, Option.some.injEq, List.length_append,
          List.length_singleton, forall_eq', true_and]
        omega

/-- **What the Rust list returns**: the entry of the last call. -/
theorem rust_getEntry (key : Bytes) (calls : List Call) (keyId : String) :
    (rustList sha256 key calls).getEntry keyId = (last keyId calls).map rustEntry := by
  have hlast : ((rustList sha256 key calls).revokedIds.lookup keyId).bind (fun idx => calls[idx]?) = last keyId calls :=
    (index_rustList key calls keyId).1
  rw [Rust.Revocation.RevocationList.getEntry, entries_rustList, ← hlast]
  simp only [List.getElem?_map, Option.map_bind]
  rfl

theorem hasKeyId_pythonEntry (call : Call) (keyId : String) :
    (pythonEntry call).hasKeyId keyId = decide (call.revoke.keyId = keyId) := by
  simp [pythonEntry, Python.RevocationEntry.hasKeyId, Text.ofString_injective.eq_iff]

/-- **What the Python list returns**: the entry of the first call. -/
theorem python_getEntry (revocationKey : Option Bytes) (random : Bytes) (calls : List Call) (keyId : String) :
    (pythonList T hmac revocationKey random calls).getEntry keyId = (first keyId calls).map pythonEntry := by
  rw [Python.RevocationList.getEntry, entries_pythonList, List.find?_map, first]
  simp only [Function.comp_def, hasKeyId_pythonEntry]

/-! ## Where the answers differ -/

theorem rust_isRevoked_iff (key : Bytes) (calls : List Call) (keyId : String) :
    (rustList sha256 key calls).isRevoked keyId = true ↔ ∃ call ∈ calls, call.revoke.keyId = keyId := by
  rw [rustList, Rust.Revocation.RevocationList.isRevoked_revoked_iff, Rust.Revocation.RevocationList.listRevoked,
    Rust.Revocation.RevocationList.entries_revoked]
  simp

theorem python_isRevoked_iff (revocationKey : Option Bytes) (random : Bytes) (calls : List Call) (keyId : String) :
    (pythonList T hmac revocationKey random calls).isRevoked keyId = true ↔ ∃ call ∈ calls, call.revoke.keyId = keyId := by
  rw [Python.RevocationList.isRevoked, entries_pythonList, List.any_map]
  simp [hasKeyId_pythonEntry]

/-- **The same keys are revoked** in both lists after the same calls. -/
theorem isRevoked_agree (key : Bytes) (revocationKey : Option Bytes) (random : Bytes) (calls : List Call) (keyId : String) :
    (pythonList T hmac revocationKey random calls).isRevoked keyId = (rustList sha256 key calls).isRevoked keyId := by
  rw [Bool.eq_iff_iff, python_isRevoked_iff, rust_isRevoked_iff]

/-- a key with a call has a first one and a last one -/
theorem first_last_some {calls : List Call} {keyId : String} (h : ∃ call ∈ calls, call.revoke.keyId = keyId) :
    ∃ f l, first keyId calls = some f ∧ last keyId calls = some l := by
  obtain ⟨call, hmem, hkey⟩ := h
  have hf : (first keyId calls).isSome := List.find?_isSome.2 ⟨call, hmem, by simpa using hkey⟩
  have hl : (last keyId calls).isSome := List.find?_isSome.2 ⟨call, List.mem_reverse.2 hmem, by simpa using hkey⟩
  exact ⟨_, _, (Option.some_get hf).symm, (Option.some_get hl).symm⟩

/-- a key without a call has neither -/
theorem first_last_none {calls : List Call} {keyId : String} (h : ¬∃ call ∈ calls, call.revoke.keyId = keyId) :
    first keyId calls = none ∧ last keyId calls = none := by
  push Not at h
  exact ⟨List.find?_eq_none.2 (by simpa using h), List.find?_eq_none.2 (by simpa using h)⟩

theorem sameReason_iff (f l : Call) :
    (pythonEntry f).reason = .str (Text.ofString (rustEntry l).reason) ↔ f.revoke.reason = l.revoke.reason := by
  rw [pythonEntry, rustEntry, value_toPython, Json.str.injEq, Text.ofString_injective.eq_iff]
  exact ⟨display_injective, congrArg _⟩

/-- the first and the last call for any key give the same reason -/
def SameEnds (calls : List Call) : Prop :=
  ∀ keyId, (first keyId calls).map (·.revoke.reason) = (last keyId calls).map (·.revoke.reason)

/-- **When the two lists answer alike**: the first and the last revocation of every key give the same reason. -/
theorem lists_agree_iff (sha256 : Bytes → Digest) (T : FloatText ℚ) (hmac : Bytes → Bytes → Digest) (key : Bytes)
    (revocationKey : Option Bytes) (random : Bytes) (calls : List Call) :
    ((∀ keyId : String,
        (pythonList T hmac revocationKey random calls).isRevoked keyId = (rustList sha256 key calls).isRevoked keyId) ∧
      ∀ keyId : String, (rustList sha256 key calls).isRevoked keyId = true →
        ∃ e e', (rustList sha256 key calls).getEntry keyId = some e ∧
          (pythonList T hmac revocationKey random calls).getEntry keyId = some e' ∧
          e'.reason = .str (Text.ofString e.reason)) ↔
    SameEnds calls := by
  constructor
  · rintro ⟨_, hreason⟩ keyId
    by_cases hkey : ∃ call ∈ calls, call.revoke.keyId = keyId
    · obtain ⟨e, e', he, he', heq⟩ := hreason keyId ((rust_isRevoked_iff key calls keyId).2 hkey)
      obtain ⟨f, l, hf, hl⟩ := first_last_some hkey
      rw [rust_getEntry, hl, Option.map_some, Option.some.injEq] at he
      rw [python_getEntry, hf, Option.map_some, Option.some.injEq] at he'
      subst he he'
      rw [hf, hl, Option.map_some, Option.map_some, (sameReason_iff f l).1 heq]
    · obtain ⟨hf, hl⟩ := first_last_none hkey
      rw [hf, hl]
  · intro hends
    refine ⟨isRevoked_agree key revocationKey random calls, fun keyId hrevoked => ?_⟩
    obtain ⟨f, l, hf, hl⟩ := first_last_some ((rust_isRevoked_iff key calls keyId).1 hrevoked)
    have hfl : f.revoke.reason = l.revoke.reason := by
      have h := hends keyId
      rw [hf, hl] at h
      exact Option.some.inj h
    exact ⟨rustEntry l, pythonEntry f, by rw [rust_getEntry, hl]; rfl, by rw [python_getEntry, hf]; rfl,
      (sameReason_iff f l).2 hfl⟩

end

/-- `"k"` is rotated, and later found compromised: Rust reports the second, Python the first -/
def twice : List Call := [⟨⟨"k", .rotated, "", "", 1⟩, 1⟩, ⟨⟨"k", .compromised, "", "", 2⟩, 2⟩]

/-- **The reported reasons differ** for a key revoked twice. -/
theorem reason_differs :
    ¬∀ (sha256 : Bytes → Digest) (T : FloatText ℚ) (hmac : Bytes → Bytes → Digest) (key : Bytes)
      (revocationKey : Option Bytes) (random : Bytes) (calls : List Call) (keyId : String),
      (rustList sha256 key calls).isRevoked keyId = true →
        ∃ e e', (rustList sha256 key calls).getEntry keyId = some e ∧
          (pythonList T hmac revocationKey random calls).getEntry keyId = some e' ∧
          e'.reason = .str (Text.ofString e.reason) := by
  intro h
  have hrevoked : (rustList sha256 [] twice).isRevoked "k" = true :=
    (rust_isRevoked_iff [] twice "k").2 ⟨_, List.mem_cons_self, rfl⟩
  obtain ⟨e, e', he, he', heq⟩ :=
    h sha256 ⟨fun _ => ⟨false, [], none, none⟩, fun _ => 0⟩ hmacSha256 [] none [] twice "k" hrevoked
  rw [rust_getEntry] at he
  rw [python_getEntry] at he'
  have hl : last "k" twice = some ⟨⟨"k", .compromised, "", "", 2⟩, 2⟩ := by simp [last, twice]
  have hf : first "k" twice = some ⟨⟨"k", .rotated, "", "", 1⟩, 1⟩ := by simp [first, twice]
  rw [hl, Option.map_some, Option.some.injEq] at he
  rw [hf, Option.map_some, Option.some.injEq] at he'
  subst he he'
  have := (sameReason_iff _ _).1 heq
  contradiction

end AbirGuard.RevocationAgreement
