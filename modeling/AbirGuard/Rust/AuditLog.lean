/-
The audit log of the Rust crate (`audit/audit_log.rs`), as a hash chain.

SHA-256 is any function to 32 bytes; what is asked of it concerns the messages that are hashed along the logs in question.

- `verifyChain_ok_iff`: a log verifies if and only if it has an entry and its entries are a hash chain from 32 zeros.
- `chained_built`: a log built by `append` is such a chain.
- `NoCollision.link_injOn`: without a collision among the messages, hash and content are determined by the next hash.
-/
import AbirGuard.Core.Bytes
import AbirGuard.Core.HashChain
import AbirGuard.Core.Sha256

namespace AbirGuard.Rust.Audit

open AbirGuard.Core HashChain

/-! ## Model -/

inductive AuditError where
  | emptyActor
  | emptyAction
  | chainBroken (index : ℕ)
  | emptyLog
deriving DecidableEq, Repr

/-- the text of an error -/
def AuditError.message : AuditError → String
  | .emptyActor => "actor must not be empty"
  | .emptyAction => "action must not be empty"
  | .chainBroken index => s!"chain integrity check failed at entry index {index}"
  | .emptyLog => "log is empty"

inductive Severity where
  | info
  | warning
  | critical
deriving DecidableEq, Repr

structure AuditEntry where
  index : ℕ
  timestamp : UInt64
  actor : String
  action : String
  detail : Option String
  severity : Severity
  entryHash : Bytes
deriving DecidableEq, Repr

structure AuditLog where
  entries : List AuditEntry
deriving DecidableEq, Repr

/-- `vec![0u8; 32]` -/
def zeroHash : Bytes := List.replicate 32 0

/-- what is fed to the hasher -/
def hashedMessage (prevHash : Bytes) (timestamp : UInt64) (actor action detail : String) : Bytes :=
  prevHash ++ leBytes 8 timestamp.toNat ++ utf8 actor ++ utf8 action ++ utf8 detail

variable (sha256 : Bytes → Digest)

def computeEntryHash (prevHash : Bytes) (timestamp : UInt64) (actor action detail : String) : Bytes :=
  (sha256 (hashedMessage prevHash timestamp actor action detail)).toList

namespace AuditLog

def new : AuditLog := ⟨[]⟩

/-- the log after the call, and its result -/
def append (log : AuditLog) (timestamp : UInt64) (actor action : String) (detail : Option String) (severity : Severity) :
    AuditLog × Except AuditError AuditEntry :=
  if actor = "" then (log, .error .emptyActor)
  else if action = "" then (log, .error .emptyAction)
  else
    let prevHash := (log.entries.getLast?.map AuditEntry.entryHash).getD zeroHash
    let entry : AuditEntry :=
      { index := log.entries.length
        timestamp := timestamp
        actor := actor
        action := action
        detail := detail
        severity := severity
        entryHash := computeEntryHash sha256 prevHash timestamp actor action (detail.getD "") }
    (⟨log.entries ++ [entry]⟩, .ok entry)

/-- the loop of `verify_chain`, from entry i on -/
def verifyFrom (prevHash : Bytes) (i : ℕ) : List AuditEntry → Except AuditError Unit
  | [] => .ok ()
  | entry :: entries =>
    let expected := computeEntryHash sha256 prevHash entry.timestamp entry.actor entry.action (entry.detail.getD "")
    if expected ≠ entry.entryHash then .error (.chainBroken i) else verifyFrom entry.entryHash (i + 1) entries

def verifyChain (log : AuditLog) : Except AuditError Unit :=
  if log.entries = [] then .error .emptyLog else verifyFrom sha256 zeroHash 0 log.entries

end AuditLog

/-- the arguments of a call of `append` -/
structure Event where
  timestamp : UInt64
  actor : String
  action : String
  detail : Option String
  severity : Severity
deriving DecidableEq, Repr

/-- the log built by these calls, of which some may have failed -/
def built (events : List Event) : AuditLog :=
  events.foldl (fun log e => (log.append sha256 e.timestamp e.actor e.action e.detail e.severity).1) .new

/-! ## The log as a hash chain -/

/-- actor, action and detail, as they are hashed: one after another -/
def AuditEntry.text (e : AuditEntry) : String := e.actor ++ e.action ++ e.detail.getD ""

/-- what the hash of an entry covers besides the hash before it -/
def AuditEntry.covered (e : AuditEntry) : UInt64 × String := (e.timestamp, e.text)

def link (prevHash : Bytes) (p : UInt64 × String) : Bytes :=
  (sha256 (prevHash ++ leBytes 8 p.1.toNat ++ utf8 p.2)).toList

/-- the pairs of hash and content that are hashed along a log -/
def hashedPairs (entries : List AuditEntry) : List (Bytes × (UInt64 × String)) :=
  inputs AuditEntry.covered AuditEntry.entryHash zeroHash entries

/-- the messages that are hashed along a log -/
def hashed (entries : List AuditEntry) : List Bytes :=
  (hashedPairs entries).map fun p => p.1 ++ leBytes 8 p.2.1.toNat ++ utf8 p.2.2

abbrev IsChain (entries : List AuditEntry) : Prop :=
  Chained AuditEntry.covered AuditEntry.entryHash (link sha256) zeroHash entries

variable {sha256}

theorem computeEntryHash_eq (prevHash : Bytes) (e : AuditEntry) :
    computeEntryHash sha256 prevHash e.timestamp e.actor e.action (e.detail.getD "") = link sha256 prevHash e.covered := by
  simp only [computeEntryHash, hashedMessage, link, AuditEntry.covered, AuditEntry.text, utf8_append, List.append_assoc]

theorem length_link (prevHash : Bytes) (p : UInt64 × String) : (link sha256 prevHash p).length = 32 :=
  Vector.length_toList

theorem verifyFrom_ok_iff {prevHash : Bytes} {i : ℕ} {entries : List AuditEntry} :
    AuditLog.verifyFrom sha256 prevHash i entries = .ok () ↔
      Chained AuditEntry.covered AuditEntry.entryHash (link sha256) prevHash entries := by
  induction entries generalizing prevHash i with
  | nil => exact iff_of_true rfl trivial
  | cons e entries ih =>
    rw [AuditLog.verifyFrom, computeEntryHash_eq]
    split_ifs with hne
    · exact iff_of_false (fun h => by cases h) fun h => hne h.1.symm
    · exact ih.trans (and_iff_right (not_not.1 hne).symm).symm

theorem verifyChain_ok_iff {log : AuditLog} :
    log.verifyChain sha256 = .ok () ↔ log.entries ≠ [] ∧ IsChain sha256 log.entries := by
  rw [AuditLog.verifyChain]
  split_ifs with hnil
  · exact iff_of_false (fun h => by cases h) fun h => h.1 hnil
  · exact verifyFrom_ok_iff.trans (and_iff_right hnil).symm

/-- the hash that a new entry is chained to -/
theorem tip_entries (entries : List AuditEntry) :
    tip AuditEntry.entryHash zeroHash entries = (entries.getLast?.map AuditEntry.entryHash).getD zeroHash := by
  induction entries using List.reverseRecOn with
  | nil => rfl
  | append_singleton entries e _ => simp

theorem chained_append_event {log : AuditLog} (h : IsChain sha256 log.entries) (e : Event) :
    IsChain sha256 (log.append sha256 e.timestamp e.actor e.action e.detail e.severity).1.entries := by
  rw [AuditLog.append]
  split_ifs
  · exact h
  · exact h
  · refine chained_snoc.2 ⟨h, ?_⟩
    rw [tip_entries]
    exact computeEntryHash_eq _ ⟨_, e.timestamp, e.actor, e.action, e.detail, e.severity, _⟩

variable (sha256) in
theorem chained_built (events : List Event) : IsChain sha256 (built sha256 events).entries := by
  induction events using List.reverseRecOn with
  | nil => trivial
  | append_singleton events e ih =>
    rw [built, List.foldl_append]
    exact chained_append_event ih e

/-- the hashes of a built log are 32 bytes long -/
theorem length_entryHash {z : Bytes} {entries : List AuditEntry}
    (h : Chained AuditEntry.covered AuditEntry.entryHash (link sha256) z entries) : ∀ e ∈ entries, e.entryHash.length = 32 := by
  induction entries generalizing z with
  | nil => simp
  | cons e entries ih =>
    rintro e' (_ | ⟨_, he'⟩)
    · rw [h.1, length_link]
    · exact ih h.2 e' he'

/-- the first parts of the hashed pairs are the start and the hashes of the entries -/
theorem mem_of_mem_inputs {z : Bytes} {entries : List AuditEntry} {p : Bytes × (UInt64 × String)}
    (hp : p ∈ inputs AuditEntry.covered AuditEntry.entryHash z entries) :
    p.1 = z ∨ p.1 ∈ entries.map AuditEntry.entryHash := by
  induction entries generalizing z with
  | nil => cases hp
  | cons e entries ih =>
    rcases hp with _ | ⟨_, hp⟩
    · exact Or.inl rfl
    · rcases ih hp with h | h
      · exact Or.inr (h ▸ List.mem_cons_self)
      · exact Or.inr (List.mem_cons_of_mem _ h)

theorem leBytes_timestamp_inj {t t' : UInt64} (h : leBytes 8 t.toNat = leBytes 8 t'.toNat) : t = t' :=
  UInt64.toNat_inj.1 (leBytes_inj t.toNat_lt t'.toNat_lt h)

/-- behind hashes of one length, the message determines hash and content -/
theorem message_inj {z z' : Bytes} {p p' : UInt64 × String} (hlen : z.length = z'.length)
    (h : z ++ leBytes 8 p.1.toNat ++ utf8 p.2 = z' ++ leBytes 8 p'.1.toNat ++ utf8 p'.2) : (z, p) = (z', p') := by
  rw [List.append_assoc, List.append_assoc] at h
  obtain ⟨hz, h⟩ := List.append_inj h hlen
  obtain ⟨ht, hs⟩ := List.append_inj h (by rw [length_leBytes, length_leBytes])
  exact Prod.ext hz (Prod.ext (leBytes_timestamp_inj ht) (utf8_injective hs))

/-- without a collision among the messages, hash and content are determined by the next hash -/
theorem link_injOn {S : Set (Bytes × (UInt64 × String))} (hlen : ∀ p ∈ S, p.1.length = 32)
    (hinj : Set.InjOn sha256 {m | ∃ p ∈ S, m = p.1 ++ leBytes 8 p.2.1.toNat ++ utf8 p.2.2}) :
    Set.InjOn (fun p => link sha256 p.1 p.2) S := by
  intro p hp p' hp' h
  have hmsg := hinj ⟨p, hp, rfl⟩ ⟨p', hp', rfl⟩ (Vector.toList_inj.1 h)
  exact message_inj ((hlen p hp).trans (hlen p' hp').symm) hmsg

/-- the pairs hashed along a log whose hashes all have 32 bytes -/
theorem length_hashedPairs {entries : List AuditEntry} (h : ∀ e ∈ entries, e.entryHash.length = 32) :
    ∀ p ∈ hashedPairs entries, p.1.length = 32 := by
  intro p hp
  rcases mem_of_mem_inputs hp with hz | hmem
  · rw [hz, zeroHash, List.length_replicate]
  · obtain ⟨e, he, hpe⟩ := List.mem_map.1 hmem
    rw [← hpe]
    exact h e he

/-- no two messages hashed along the two logs collide -/
def NoCollision (sha256 : Bytes → Digest) (l l' : List AuditEntry) : Prop :=
  Set.InjOn sha256 {m | m ∈ hashed l ∨ m ∈ hashed l'}

theorem NoCollision.link_injOn {l l' : List AuditEntry} (h : NoCollision sha256 l l')
    (hl : ∀ e ∈ l, e.entryHash.length = 32) (hl' : ∀ e ∈ l', e.entryHash.length = 32) :
    Set.InjOn (fun p => link sha256 p.1 p.2) {p | p ∈ hashedPairs l ∨ p ∈ hashedPairs l'} := by
  refine Audit.link_injOn ?_ (Set.InjOn.mono ?_ h)
  · rintro p (hp | hp)
    · exact length_hashedPairs hl p hp
    · exact length_hashedPairs hl' p hp
  · rintro m ⟨p, hp | hp, rfl⟩
    · exact Or.inl (List.mem_map.2 ⟨p, hp, rfl⟩)
    · exact Or.inr (List.mem_map.2 ⟨p, hp, rfl⟩)

end AbirGuard.Rust.Audit
