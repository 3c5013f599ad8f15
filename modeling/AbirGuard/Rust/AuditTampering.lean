/-
What `verify_chain` detects: changes inside the entries of a log, and changes of the list of entries.

- `retouched_detected_iff`: with the hashes kept, a change is detected if and only if it touches a timestamp or the text that
  actor, action and detail make up together.
- `severity_not_covered`: index and severity are not hashed, nor where one field ends and the next one begins.
- `verifyChain_rearranged_iff`: of the lists made of entries of a log, exactly the non-empty prefixes verify.
-/
import AbirGuard.Rust.AuditLog

namespace AbirGuard.Rust.Audit

open AbirGuard.Core HashChain

/-! ## Changes inside the entries -/

theorem map_ne_map_iff {α β : Type} (f : α → β) {l l' : List α} (hlen : l'.length = l.length) :
    l'.map f ≠ l.map f ↔ ∃ (i : ℕ) (e e' : α), l[i]? = some e ∧ l'[i]? = some e' ∧ f e' ≠ f e := by
  induction l generalizing l' with
  | nil =>
    rw [List.length_nil, List.length_eq_zero_iff] at hlen
    rw [hlen]
    simp
  | cons a l ih =>
    cases l' with
    | nil => cases hlen
    | cons a' l' =>
      have hrest := ih (Nat.succ.inj hlen)
      rw [List.map_cons, List.map_cons, Ne, List.cons.injEq, not_and_or]
      constructor
      · rintro (ha | hl)
        · exact ⟨0, a, a', rfl, rfl, ha⟩
        · obtain ⟨i, e, e', he, he', hne⟩ := hrest.1 hl
          exact ⟨i + 1, e, e', he, he', hne⟩
      · rintro ⟨i, e, e', he, he', hne⟩
        cases i with
        | zero =>
          cases he
          cases he'
          exact Or.inl hne
        | succ i => exact Or.inr (hrest.2 ⟨i, e, e', he, he', hne⟩)

/-- **A change of entries that keeps their hashes is detected** if and only if at some entry it touches the timestamp or the
text of actor, action and detail. -/
theorem retouched_detected_iff (sha256 : Bytes → Digest) (events : List Event) (l' : List AuditEntry)
    (hkept : l'.map AuditEntry.entryHash = (built sha256 events).entries.map AuditEntry.entryHash)
    (hchanged : l' ≠ (built sha256 events).entries) (hcol : NoCollision sha256 (built sha256 events).entries l') :
    (∃ err, (AuditLog.mk l').verifyChain sha256 = .error err) ↔
      ∃ (i : ℕ) (e e' : AuditEntry), (built sha256 events).entries[i]? = some e ∧ l'[i]? = some e' ∧
        (e'.timestamp ≠ e.timestamp ∨ e'.text ≠ e.text) := by
  have hchain := chained_built sha256 events
  have hlen : l'.length = (built sha256 events).entries.length := by simpa using congrArg List.length hkept
  have hnil : l' ≠ [] := by
    rintro rfl
    exact hchanged (List.length_eq_zero_iff.1 hlen.symm).symm
  -- the hashes of the changed log are those of the old one
  have hlen' : ∀ e ∈ l', e.entryHash.length = 32 := by
    intro e he
    obtain ⟨e', he', heq⟩ := List.mem_map.1 (hkept ▸ List.mem_map_of_mem he)
    rw [← heq]
    exact length_entryHash hchain e' he'
  have hinj := hcol.link_injOn (length_entryHash hchain) hlen'
  have hok : (AuditLog.mk l').verifyChain sha256 = .ok () ↔ IsChain sha256 l' :=
    verifyChain_ok_iff.trans (and_iff_right hnil)
  have herr : (∃ err, (AuditLog.mk l').verifyChain sha256 = .error err) ↔ ¬ IsChain sha256 l' := by
    rw [← hok]
    cases (AuditLog.mk l').verifyChain sha256 with
    | ok u => exact iff_of_false (fun ⟨_, h⟩ => by cases h) fun h => h rfl
    | error err => exact iff_of_true ⟨err, rfl⟩ fun h => by cases h
  have hiff : IsChain sha256 l' ↔ l'.map AuditEntry.covered = (built sha256 events).entries.map AuditEntry.covered :=
    chained_retouched_iff hchain hkept hinj
  rw [herr, hiff, ← Ne, map_ne_map_iff _ hlen]
  refine exists_congr fun i => exists_congr fun e => exists_congr fun e' => and_congr_right fun _ => and_congr_right fun _ => ?_
  rw [AuditEntry.covered, AuditEntry.covered, Ne, Prod.mk.injEq, not_and_or]

/-- a revocation, marked critical -/
def revocation : Event := ⟨1002, "bob", "key.revoke", none, .critical⟩

def revocationLog : List AuditEntry := (built sha256 [revocation]).entries

theorem retouched_detected_iff_timestamp :
    (∃ err, (AuditLog.mk (revocationLog.map fun e => { e with timestamp := 1003 })).verifyChain sha256 = .error err) ↔
      ∃ (i : ℕ) (e e' : AuditEntry), revocationLog[i]? = some e ∧
        (revocationLog.map fun e => { e with timestamp := 1003 })[i]? = some e' ∧ (e'.timestamp ≠ e.timestamp ∨ e'.text ≠ e.text) := by
  refine retouched_detected_iff sha256 [revocation] _ rfl (by decide +kernel) ?_
  have hsep : ∀ m ∈ hashed revocationLog ++ hashed (revocationLog.map fun e => { e with timestamp := 1003 }),
      ∀ m' ∈ hashed revocationLog ++ hashed (revocationLog.map fun e => { e with timestamp := 1003 }),
        sha256 m = sha256 m' → m = m' := by
    decide +kernel
  intro m hm m' hm' h
  exact hsep m (List.mem_append.2 hm) m' (List.mem_append.2 hm') h

/-- the severity lowered; the index changed; actor, action and detail cut elsewhere -/
def retouchings : List (AuditEntry → AuditEntry) :=
  [fun e => { e with severity := .info }, fun e => { e with index := 7 }, fun e => { e with detail := some "" },
    fun e => { e with actor := "bobkey", action := ".revoke" }]

theorem retouchings_unseen : ∀ f ∈ retouchings,
    (revocationLog.map f).map AuditEntry.entryHash = revocationLog.map AuditEntry.entryHash ∧
    revocationLog.map f ≠ revocationLog ∧ (AuditLog.mk (revocationLog.map f)).verifyChain sha256 = .ok () := by
  decide +kernel

theorem severity_not_covered :
    (revocationLog.map fun e => { e with severity := .info }).map AuditEntry.entryHash =
      revocationLog.map AuditEntry.entryHash ∧
    (revocationLog.map fun e => { e with severity := .info }) ≠ revocationLog ∧
    (AuditLog.mk (revocationLog.map fun e => { e with severity := .info })).verifyChain sha256 = .ok () :=
  retouchings_unseen _ List.mem_cons_self

/-! ## Changes of the list -/

/-- **Deleting, repeating and reordering entries** leaves a log that verifies if and only if it is a non-empty prefix. -/
theorem verifyChain_rearranged_iff (sha256 : Bytes → Digest) (events : List Event) (l' : List AuditEntry)
    (hmem : ∀ e ∈ l', e ∈ (built sha256 events).entries) (hcol : NoCollision sha256 (built sha256 events).entries l')
    (hzero : ∀ m ∈ hashed (built sha256 events).entries, (sha256 m).toList ≠ zeroHash) :
    (AuditLog.mk l').verifyChain sha256 = .ok () ↔ l' ≠ [] ∧ l' <+: (built sha256 events).entries := by
  have hchain := chained_built sha256 events
  have hlen := length_entryHash hchain
  have hinj := hcol.link_injOn hlen fun e he => hlen e (hmem e he)
  have hz : ∀ p ∈ hashedPairs (built sha256 events).entries, link sha256 p.1 p.2 ≠ zeroHash := fun p hp =>
    hzero _ (List.mem_map.2 ⟨p, hp, rfl⟩)
  rw [verifyChain_ok_iff]
  exact and_congr_right fun _ => chained_rearranged_iff hchain (hinj.mono fun p hp => Or.inl hp) hz hmem hinj

/-- a key is made and revoked -/
def lifecycleLog : List AuditEntry := (built sha256 [⟨1000, "alice", "key.generate", none, .info⟩, revocation]).entries

theorem verifyChain_rearranged_iff_reversed :
    (AuditLog.mk lifecycleLog.reverse).verifyChain sha256 = .ok () ↔
      lifecycleLog.reverse ≠ [] ∧ lifecycleLog.reverse <+: lifecycleLog := by
  refine verifyChain_rearranged_iff sha256 [⟨1000, "alice", "key.generate", none, .info⟩, revocation] _
    (fun e he => List.mem_reverse.1 he) ?_ (by decide +kernel)
  have hsep : ∀ m ∈ hashed lifecycleLog ++ hashed lifecycleLog.reverse,
      ∀ m' ∈ hashed lifecycleLog ++ hashed lifecycleLog.reverse, sha256 m = sha256 m' → m = m' := by
    decide +kernel
  intro m hm m' hm' h
  exact hsep m (List.mem_append.2 hm) m' (List.mem_append.2 hm') h

end AbirGuard.Rust.Audit
