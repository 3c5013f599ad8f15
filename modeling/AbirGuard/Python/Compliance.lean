/-
The records of the compliance manager and its audit log, over whole runs (`compliance.py`).

A record is deleted when its subject asks for it or when its time is over; every call writes to the audit log, which is
exported as JSON and as CSV. Times are rational numbers.

- `record_after_iff`: which record is under an id at the end of a run.
- `exports_replay`: either export is enough to find the ids of the records there are, in their order.
-/
import AbirGuard.Core.Csv
import AbirGuard.Core.Dict
import AbirGuard.Core.Record
import AbirGuard.Core.Run
import AbirGuard.Python.JsonValue

namespace AbirGuard.Python.Compliance

open AbirGuard.Core

/-! ## Model -/

structure ComplianceRecord where
  recordId : Text
  subjectId : Text
  payload : Text
  purpose : Text
  createdAt : ℚ
  retentionDays : ℤ
  tags : List Text
deriving DecidableEq

inductive AuditEvent where
  | addRecord (recordId : Text) (ts : ℚ)
  | eraseRecord (recordId subjectId : Text) (ts : ℚ)
  | retentionPurge (recordId : Text) (ts : ℚ)
deriving DecidableEq

namespace AuditEvent

def event : AuditEvent → Text
  | .addRecord _ _ => "add_record"
  | .eraseRecord _ _ _ => "erase_record"
  | .retentionPurge _ _ => "retention_purge"

def recordId : AuditEvent → Text
  | .addRecord recordId _ => recordId
  | .eraseRecord recordId _ _ => recordId
  | .retentionPurge recordId _ => recordId

/-- `evt.get("subject_id", "")` -/
def subjectId : AuditEvent → Text
  | .eraseRecord _ subjectId _ => subjectId
  | _ => []

def ts : AuditEvent → ℚ
  | .addRecord _ ts => ts
  | .eraseRecord _ _ ts => ts
  | .retentionPurge _ ts => ts

def asdict : AuditEvent → Json ℚ
  | .eraseRecord recordId subjectId ts =>
    .obj [("event", .str "erase_record"), ("record_id", .str recordId), ("subject_id", .str subjectId), ("ts", .float ts)]
  | e => .obj [("event", .str e.event), ("record_id", .str e.recordId), ("ts", .float e.ts)]

end AuditEvent

structure ComplianceManager where
  records : Dict Text ComplianceRecord
  auditEvents : List AuditEvent

namespace ComplianceManager

def new : ComplianceManager := ⟨Dict.empty, []⟩

variable (self : ComplianceManager)

def addRecord (recordId subjectId payload purpose : Text) (retentionDays : ℤ) (tags : Option (List Text)) (time : ℚ) :
    ComplianceManager :=
  let rec_ : ComplianceRecord := ⟨recordId, subjectId, payload, purpose, time, retentionDays, tags.getD []⟩
  ⟨self.records.set recordId rec_, self.auditEvents ++ [.addRecord recordId rec_.createdAt]⟩

/-- the ids of the records that a condition holds of -/
def selected (p : ComplianceRecord → Bool) : List Text := (self.records.entries.filter fun e => p e.2).map Prod.fst

/-- one record after the other, each with its event -/
def deleteAll (event : Text → AuditEvent) (rids : List Text) : ComplianceManager :=
  rids.foldl (fun s rid => ⟨s.records.erase rid, s.auditEvents ++ [event rid]⟩) self

def rightToErasure (subjectId : Text) (times : Text → ℚ) : ℕ × ComplianceManager :=
  let toDelete := self.selected fun r => r.subjectId = subjectId
  (toDelete.length, self.deleteAll (fun rid => .eraseRecord rid subjectId (times rid)) toDelete)

def purgeExpired (now : Option ℚ) (time : ℚ) : ℕ × ComplianceManager :=
  let current := now.getD time
  let expired := self.selected fun r => r.createdAt + r.retentionDays * 86400 ≤ current
  (expired.length, self.deleteAll (fun rid => .retentionPurge rid current) expired)

def exportAuditJson (l : Libs) : Text := Json.dumps l.float (some 2) (.arr (self.auditEvents.map AuditEvent.asdict))

def header : List Text := ["event", "record_id", "subject_id", "ts"].map Text.ofString

def row (l : Libs) (e : AuditEvent) : List Text := [e.event, e.recordId, e.subjectId, l.floatRepr e.ts]

def exportAuditCsv (l : Libs) : Text := Csv.write (header :: self.auditEvents.map (row l))

end ComplianceManager

inductive Call where
  | addRecord (recordId subjectId payload purpose : Text) (retentionDays : ℤ) (tags : Option (List Text)) (time : ℚ)
  | rightToErasure (subjectId : Text) (times : Text → ℚ)
  | purgeExpired (now : Option ℚ) (time : ℚ)

def step (s : ComplianceManager) : Call → ComplianceManager
  | .addRecord recordId subjectId payload purpose retentionDays tags time =>
    s.addRecord recordId subjectId payload purpose retentionDays tags time
  | .rightToErasure subjectId times => (s.rightToErasure subjectId times).2
  | .purgeExpired now time => (s.purgeExpired now time).2

/-! ## What a call does to a record -/

/-- the record that a call adds under an id -/
def Call.adds (recordId : Text) : Call → Option ComplianceRecord
  | .addRecord recordId' subjectId payload purpose retentionDays tags time =>
    if recordId' = recordId then some ⟨recordId', subjectId, payload, purpose, time, retentionDays, tags.getD []⟩ else none
  | _ => none

/-- the call deletes a record: its subject asks for it, or its time is over -/
def Call.Removes (r : ComplianceRecord) : Call → Prop
  | .addRecord _ _ _ _ _ _ _ => False
  | .rightToErasure subjectId _ => r.subjectId = subjectId
  | .purgeExpired now time => r.createdAt + r.retentionDays * 86400 ≤ now.getD time

instance (r : ComplianceRecord) : (c : Call) → Decidable (c.Removes r)
  | .addRecord _ _ _ _ _ _ _ => inferInstanceAs (Decidable False)
  | .rightToErasure subjectId _ => inferInstanceAs (Decidable (r.subjectId = subjectId))
  | .purgeExpired now time => inferInstanceAs (Decidable (r.createdAt + r.retentionDays * 86400 ≤ now.getD time))

section Deleting

variable (s : ComplianceManager) {event : Text → AuditEvent} {rids : List Text} {recordId : Text}

theorem get_deleteAll : (s.deleteAll event rids).records.get recordId =
    if recordId ∈ rids then none else s.records.get recordId := by
  induction rids generalizing s with
  | nil => rfl
  | cons rid rids ih =>
    have hcons : s.deleteAll event (rid :: rids) =
        (⟨s.records.erase rid, s.auditEvents ++ [event rid]⟩ : ComplianceManager).deleteAll event rids := rfl
    rw [hcons, ih]
    by_cases hid : recordId = rid
    · subst hid
      simp
    · simp [hid, Dict.get_erase_of_ne (Ne.symm hid)]

theorem mem_selected_iff {p : ComplianceRecord → Bool} :
    recordId ∈ s.selected p ↔ ∃ r, s.records.get recordId = some r ∧ p r = true := by
  rw [ComplianceManager.selected, List.mem_map]
  constructor
  · rintro ⟨⟨rid, r⟩, hmem, rfl⟩
    obtain ⟨hentry, hp⟩ := List.mem_filter.1 hmem
    exact ⟨r, (Table.mem_iff_get s.records.unique).1 hentry, hp⟩
  · rintro ⟨r, hget, hp⟩
    exact ⟨(recordId, r), List.mem_filter.2 ⟨(Table.mem_iff_get s.records.unique).2 hget, hp⟩, rfl⟩

theorem get_deleteAll_selected (p : ComplianceRecord → Bool) :
    (s.deleteAll event (s.selected p)).records.get recordId = (s.records.get recordId).filter fun r => !p r := by
  rw [get_deleteAll]
  rcases hget : s.records.get recordId with _ | r
  · rw [ite_self]
    rfl
  · have hmem : recordId ∈ s.selected p ↔ p r = true := by
      rw [mem_selected_iff, hget]
      simp
    rw [Option.filter_some]
    rcases hp : p r with _ | _ <;> simp [hmem, hp]

end Deleting

/-- the record under an id after one call: the one that it adds, or the old one unless it deletes that -/
theorem get_step (s : ComplianceManager) (c : Call) (recordId : Text) : (step s c).records.get recordId =
    (c.adds recordId).or ((s.records.get recordId).filter fun r => !decide (c.Removes r)) := by
  cases c with
  | addRecord recordId' subjectId payload purpose retentionDays tags time =>
    rw [step, ComplianceManager.addRecord, Call.adds]
    by_cases hid : recordId' = recordId
    · subst hid
      rw [Dict.get_set_self, if_pos rfl, Option.some_or]
    · rw [Dict.get_set_of_ne hid, if_neg hid, Option.none_or]
      rcases s.records.get recordId with _ | r <;> rfl
  | rightToErasure subjectId times => exact get_deleteAll_selected s fun r => decide (r.subjectId = subjectId)
  | purgeExpired now time =>
    exact get_deleteAll_selected s fun r => decide (r.createdAt + r.retentionDays * 86400 ≤ now.getD time)

theorem get_snoc_iff {run : List Call} {c : Call} {recordId : Text} {r : ComplianceRecord} :
    (Run.after step .new (run ++ [c])).records.get recordId = some r ↔ c.adds recordId = some r ∨
      c.adds recordId = none ∧ (Run.after step .new run).records.get recordId = some r ∧ ¬ c.Removes r := by
  rw [Run.after_append, Run.after_cons, Run.after_nil, get_step, Option.or_eq_some_iff, Option.filter_eq_some_iff,
    Bool.not_eq_true', decide_eq_false_iff_not]

/-- **Which records there are**: those that were added, whose id was not used again, and that no later call deletes. -/
theorem record_after_iff (run : List Call) (recordId : Text) (r : ComplianceRecord) :
    (Run.after step .new run).records.get recordId = some r ↔ ∃ pre c post, run = pre ++ c :: post ∧
      c.adds recordId = some r ∧ ∀ c' ∈ post, c'.adds recordId = none ∧ ¬ c'.Removes r := by
  induction run using List.reverseRecOn with
  | nil =>
    refine iff_of_false (fun h => by cases h) ?_
    rintro ⟨pre, c, post, h, -⟩
    simp at h
  | append_singleton run c ih =>
    rw [get_snoc_iff, ih]
    constructor
    · rintro (hadds | ⟨hnone, ⟨pre, c', post, rfl, hadds, hpost⟩, hkeep⟩)
      · exact ⟨run, c, [], rfl, hadds, fun c' hc' => by cases hc'⟩
      · refine ⟨pre, c', post ++ [c], by rw [List.append_assoc, List.cons_append], hadds, fun c'' hc'' => ?_⟩
        rcases List.mem_append.1 hc'' with hc'' | hc''
        · exact hpost c'' hc''
        · obtain rfl := List.mem_singleton.1 hc''
          exact ⟨hnone, hkeep⟩
    · rintro ⟨pre, c', post, heq, hadds, hpost⟩
      rcases List.eq_nil_or_concat post with rfl | ⟨post, e, rfl⟩
      · obtain ⟨rfl, hc⟩ := List.append_inj' heq rfl
        cases hc
        exact Or.inl hadds
      · rw [List.concat_eq_append, ← List.cons_append, ← List.append_assoc] at heq
        obtain ⟨rfl, hc⟩ := List.append_inj' heq rfl
        cases hc
        have hlast := hpost c (by simp)
        exact Or.inr ⟨hlast.1, ⟨pre, c', post, rfl, hadds, fun c'' hc'' => hpost c'' (by simp [hc''])⟩, hlast.2⟩

/-! ## The ids of the records, from the audit log -/

/-- what an event says about the ids -/
def replay (ids : List Text) (event recordId : Text) : List Text :=
  if event = Text.ofString "add_record" then if recordId ∈ ids then ids else ids ++ [recordId]
  else ids.filter (· ≠ recordId)

/-- the ids, from the rows of the exported table -/
def replayCsv (t : Text) : Option (List Text) := do
  let _ :: rows ← Csv.read t | none
  rows.foldlM (fun ids row =>
    match row with
    | event :: recordId :: _ => some (replay ids event recordId)
    | _ => none) []

/-- the ids, from the exported JSON -/
def replayJson (l : Libs) (t : Text) : Option (List Text) := do
  let .arr items ← Json.loads l.float t | none
  items.foldlM (fun ids item =>
    match item with
    | .obj members =>
      match Table.get (Text.ofString "event") members, Table.get (Text.ofString "record_id") members with
      | some (.str event), some (.str recordId) => some (replay ids event recordId)
      | _, _ => none
    | _ => none) []

def replayAll (events : List AuditEvent) : List Text := events.foldl (fun ids e => replay ids e.event e.recordId) []

theorem replayAll_append (events : List AuditEvent) (e : AuditEvent) :
    replayAll (events ++ [e]) = replay (replayAll events) e.event e.recordId := List.foldl_concat ..

theorem map_fst_set (k : Text) (r : ComplianceRecord) (entries : List (Text × ComplianceRecord)) :
    (Table.set k r entries).map Prod.fst =
      if k ∈ entries.map Prod.fst then entries.map Prod.fst else entries.map Prod.fst ++ [k] := by
  induction entries with
  | nil => rfl
  | cons e entries ih =>
    rw [Table.set]
    by_cases he : e.1 = k
    · subst he
      simp
    · have hmem : k ∈ (e :: entries).map Prod.fst ↔ k ∈ entries.map Prod.fst := by
        simp [Ne.symm he]
      rw [if_neg he, List.map_cons, ih, if_congr hmem rfl rfl, List.map_cons]
      split_ifs <;> rfl

theorem keys_set (d : Dict Text ComplianceRecord) (k : Text) (r : ComplianceRecord) :
    (d.set k r).keys = if k ∈ d.keys then d.keys else d.keys ++ [k] := map_fst_set k r d.entries

theorem keys_erase (d : Dict Text ComplianceRecord) (k : Text) : (d.erase k).keys = d.keys.filter (· ≠ k) := by
  rw [Dict.keys, Dict.keys, List.filter_map]
  rfl

/-- the log gives the ids -/
def Replayable (s : ComplianceManager) : Prop := replayAll s.auditEvents = s.records.keys

theorem replayable_deleteAll {event : Text → AuditEvent} (hevent : ∀ rid, (event rid).event ≠ Text.ofString "add_record")
    (hid : ∀ rid, (event rid).recordId = rid) {s : ComplianceManager} (hs : Replayable s) (rids : List Text) :
    Replayable (s.deleteAll event rids) := by
  induction rids generalizing s with
  | nil => exact hs
  | cons rid rids ih =>
    refine ih ?_
    calc replayAll (s.auditEvents ++ [event rid]) = replay (replayAll s.auditEvents) (event rid).event (event rid).recordId :=
          replayAll_append _ _
      _ = s.records.keys.filter (· ≠ rid) := by rw [replay, if_neg (hevent rid), hid, hs]
      _ = (s.records.erase rid).keys := (keys_erase _ _).symm

theorem replayable_step (s : ComplianceManager) (c : Call) (hs : Replayable s) : Replayable (step s c) := by
  have herase : Text.ofString "erase_record" ≠ Text.ofString "add_record" := fun h =>
    absurd (Text.ofString_injective h) (by decide)
  have hpurge : Text.ofString "retention_purge" ≠ Text.ofString "add_record" := fun h =>
    absurd (Text.ofString_injective h) (by decide)
  cases c with
  | addRecord recordId subjectId payload purpose retentionDays tags time =>
    calc replayAll (s.auditEvents ++ [.addRecord recordId time])
        = replay (replayAll s.auditEvents) (Text.ofString "add_record") recordId := replayAll_append _ _
      _ = (s.records.set recordId _).keys := by rw [replay, if_pos rfl, hs, keys_set]
  | rightToErasure subjectId times =>
    exact @replayable_deleteAll (fun rid => .eraseRecord rid subjectId (times rid)) (fun _ => herase) (fun _ => rfl) s hs _
  | purgeExpired now time =>
    exact @replayable_deleteAll (fun rid => .retentionPurge rid (now.getD time)) (fun _ => hpurge) (fun _ => rfl) s hs _

theorem replayable_run (run : List Call) : Replayable (Run.after step .new run) :=
  Run.after_inv (fun c _ s hs => replayable_step s c hs) rfl

/-! ## Reading the exports -/

section Exports

variable {l : Libs} (s : ComplianceManager)

theorem replayCsv_exportAuditCsv : replayCsv (s.exportAuditCsv l) = some (replayAll s.auditEvents) := by
  rw [replayCsv, ComplianceManager.exportAuditCsv, Csv.read_write]
  have hrows : ∀ (events : List AuditEvent) (ids : List Text), (events.map (ComplianceManager.row l)).foldlM
      (fun ids row => match row with
        | event :: recordId :: _ => some (replay ids event recordId)
        | _ => none) ids = some (events.foldl (fun ids e => replay ids e.event e.recordId) ids) := by
    intro events
    induction events with
    | nil => exact fun ids => rfl
    | cons e events ih => exact fun ids => ih _
  exact hrows s.auditEvents []

/-- a text of JSON that comes back as it was -/
def Plain (e : AuditEvent) : Prop := Json.Unpaired e.recordId ∧ Json.Unpaired e.subjectId

/-- an erasure names its subject -/
def subject? : AuditEvent → Option Text
  | .eraseRecord _ subjectId _ => some subjectId
  | _ => none

def members (e : AuditEvent) : List (String × Option (Json ℚ)) :=
  [("event", some (.str e.event)), ("record_id", some (.str e.recordId)), ("subject_id", (subject? e).map Json.str),
    ("ts", some (.float e.ts))]

theorem asdict_eq (e : AuditEvent) : e.asdict = Record.record (members e) := by
  cases e <;> rfl

theorem nodup_members (e : AuditEvent) : ((members e).map Prod.fst).Nodup := by
  change ["event", "record_id", "subject_id", "ts"].Nodup
  decide

theorem unpaired_event (e : AuditEvent) : Json.Unpaired e.event := by
  cases e <;> exact Json.unpaired_ofString _

theorem clean_asdict {e : AuditEvent} (h : Plain e) : Json.Clean e.asdict := by
  rw [asdict_eq]
  refine Record.clean_record (nodup_members e) fun n v hm => ?_
  have hsubject : ∀ v : Json ℚ, (subject? e).map Json.str = some v → Json.Clean v := by
    intro v hv
    cases e with
    | eraseRecord recordId subjectId ts =>
      cases hv
      exact h.2
    | _ => cases hv
  simp only [members, List.mem_cons, Prod.mk.injEq, List.not_mem_nil, or_false] at hm
  rcases hm with ⟨-, hv⟩ | ⟨-, hv⟩ | ⟨-, hv⟩ | ⟨-, hv⟩
  · cases hv
    exact unpaired_event e
  · cases hv
    exact h.1
  · exact hsubject v hv.symm
  · cases hv
    trivial

theorem replayJson_exportAuditJson (hT : l.float.Lawful) (hplain : ∀ e ∈ s.auditEvents, Plain e) :
    replayJson l (s.exportAuditJson l) = some (replayAll s.auditEvents) := by
  have hclean : Json.Clean (.arr (s.auditEvents.map AuditEvent.asdict)) := by
    refine Json.cleanItems_iff.2 fun v hv => ?_
    obtain ⟨e, he, rfl⟩ := List.mem_map.1 hv
    exact clean_asdict (hplain e he)
  have hloads : Json.loads l.float (s.exportAuditJson l) = some (.arr (s.auditEvents.map AuditEvent.asdict)) := by
    rw [ComplianceManager.exportAuditJson, Json.loads_dumps (some 2) hT, (Json.normal_eq_self_iff _).2 hclean]
  have hitems : ∀ (events : List AuditEvent) (ids : List Text), (events.map AuditEvent.asdict).foldlM
      (fun ids item => match item with
        | .obj members =>
          match Table.get (Text.ofString "event") members, Table.get (Text.ofString "record_id") members with
          | some (.str event), some (.str recordId) => some (replay ids event recordId)
          | _, _ => none
        | _ => none) ids = some (events.foldl (fun ids e => replay ids e.event e.recordId) ids) := by
    intro events
    induction events with
    | nil => exact fun ids => rfl
    | cons e events ih =>
      intro ids
      have hevent : Table.get (Text.ofString "event") (Record.present (members e)) = some (.str e.event) :=
        Record.get_present (nodup_members e) List.mem_cons_self
      have hrecord : Table.get (Text.ofString "record_id") (Record.present (members e)) = some (.str e.recordId) :=
        Record.get_present (nodup_members e) (by simp [members])
      rw [List.map_cons, List.foldlM_cons, asdict_eq, Record.record]
      dsimp only
      rw [hevent, hrecord]
      exact ih _
  rw [replayJson, hloads]
  exact hitems s.auditEvents []

/-- **Either export gives the ids of the records there are**, in their order; the JSON if no text in it has a high surrogate
directly before a low one. -/
theorem exports_replay (l : Libs) (run : List Call) :
    let s := Run.after step .new run
    replayCsv (s.exportAuditCsv l) = some s.records.keys ∧
      (l.float.Lawful → (∀ e ∈ s.auditEvents, Plain e) → replayJson l (s.exportAuditJson l) = some s.records.keys) := by
  intro s
  have hkeys : replayAll s.auditEvents = s.records.keys := replayable_run run
  constructor
  · rw [replayCsv_exportAuditCsv, hkeys]
  · intro hT hplain
    rw [replayJson_exportAuditJson s hT hplain, hkeys]

def sampleLibs : Libs where
  hkdf _ _ _ := Vector.replicate 32 0
  gcmEncrypt _ _ p := p
  gcmDecrypt _ _ c := some c
  sha256 _ := Vector.replicate 32 0
  sha3_256 _ := Vector.replicate 32 0
  float := JsonValue.exactFloats
  itemsRepr _ := "[]"

/-- an id with a comma and quotes in it -/
def oddId : Text := Text.ofString "a,\"b\""

/-- two records of one subject, who has them erased, and one of another -/
def sampleRun : List Call :=
  [.addRecord (Text.ofString "r1") (Text.ofString "u") [] [] 30 none 0, .addRecord oddId (Text.ofString "v") [] [] 30 none 1,
    .addRecord (Text.ofString "r2") (Text.ofString "u") [] [] 30 none 2, .rightToErasure (Text.ofString "u") fun _ => 3]

theorem exports_replay_sample :
    let s := Run.after step .new sampleRun
    replayCsv (s.exportAuditCsv sampleLibs) = some [oddId] ∧
      replayJson sampleLibs (s.exportAuditJson sampleLibs) = some [oddId] := by
  intro s
  have hkeys : s.records.keys = [oddId] := by decide +kernel
  have hevents : s.auditEvents = [.addRecord (Text.ofString "r1") 0, .addRecord oddId 1, .addRecord (Text.ofString "r2") 2,
      .eraseRecord (Text.ofString "r1") (Text.ofString "u") 3, .eraseRecord (Text.ofString "r2") (Text.ofString "u") 3] := by
    decide +kernel
  have hplain : ∀ e ∈ s.auditEvents, Plain e := by
    rw [hevents]
    have hname : ∀ n : String, Json.Unpaired (Text.ofString n) := Json.unpaired_ofString
    have hempty : Json.Unpaired [] := hname ""
    simp only [List.forall_mem_cons, Plain, AuditEvent.recordId, AuditEvent.subjectId, oddId, hname, hempty, and_self, true_and]
    exact fun e he => by cases he
  obtain ⟨hcsv, hjson⟩ := exports_replay sampleLibs sampleRun
  exact ⟨hcsv.trans (congrArg some hkeys), (hjson JsonValue.exactFloats_lawful hplain).trans (congrArg some hkeys)⟩

end Exports

end AbirGuard.Python.Compliance
