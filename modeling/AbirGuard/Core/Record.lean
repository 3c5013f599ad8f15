/-
Records as JSON objects: what a derived serialiser writes and a derived deserialiser reads.

The writer may leave a member out. The reader skips members it does not know, refuses one that it knows and that repeats, and
takes an array of all the fields as well. A required field must have its member; an optional one is none without it. So what
comes back from a member that was left out is decided by the kind of its field, not by the reason for leaving it out.

- `slots_record`: every field finds the member that was written for it, or nothing.
- `asList_map`, `optional_map`: lists and optional values come back if their parts do.
- `clean_record`, `text_decode_encode`: such an object has a text that is read back as it is.
-/
import AbirGuard.Core.Json

namespace AbirGuard.Core.Record

variable {F α : Type}

/-! ## Writing -/

def ofStr (s : String) : Json F := .str (Text.ofString s)

def ofStrs (l : List String) : Json F := .arr (l.map ofStr)

/-- the members that are there -/
def present (members : List (String × Option (Json F))) : List (Text × Json F) :=
  members.filterMap fun m => m.2.map fun v => (Text.ofString m.1, v)

def record (members : List (String × Option (Json F))) : Json F := .obj (present members)

/-! ## Reading -/

/-- the value of each field of a record, nothing where its member is missing -/
def slots (names : List String) : Json F → Option (List (Option (Json F)))
  | .obj m =>
    if ∀ n ∈ names, (m.map Prod.fst).count (Text.ofString n) ≤ 1 then
      some (names.map fun n => Table.get (Text.ofString n) m)
    else none
  | .arr l => if l.length = names.length then some (l.map some) else none
  | _ => none

def required (read : Json F → Option α) (slot : Option (Json F)) : Option α := slot.bind read

/-- null is none, and so is a missing member -/
def optional (read : Json F → Option α) : Option (Json F) → Option (Option α)
  | none => some none
  | some .null => some none
  | some v => (read v).map some

def asStr : Json F → Option String
  | .str t => t.toChars?.map String.ofList
  | _ => none

def asList (read : Json F → Option α) : Json F → Option (List α)
  | .arr l => l.mapM read
  | _ => none

/-! ## Reading what was written -/

@[simp] theorem asStr_ofStr (s : String) : asStr (ofStr s : Json F) = some s := by
  simp [asStr, ofStr]

theorem asList_map {read : Json F → Option α} {write : α → Json F} (h : ∀ a, read (write a) = some a) (l : List α) :
    asList read (.arr (l.map write)) = some l := by
  rw [asList]
  induction l with
  | nil => rfl
  | cons a l ih =>
    rw [List.map_cons, List.mapM_cons, h, ih]
    rfl

@[simp] theorem asList_ofStrs (l : List String) : asList asStr (ofStrs l : Json F) = some l := asList_map asStr_ofStr l

@[simp] theorem optional_map_ofStr (o : Option String) : optional asStr (o.map ofStr : Option (Json F)) = some o := by
  cases o with
  | none => rfl
  | some s => exact congrArg (Option.map some) (asStr_ofStr s)

variable {members : List (String × Option (Json F))}

theorem mem_present {k : Text} {v : Json F} :
    (k, v) ∈ present members ↔ ∃ n, (n, some v) ∈ members ∧ Text.ofString n = k := by
  rw [present, List.mem_filterMap]
  constructor
  · rintro ⟨⟨n, o⟩, hm, h⟩
    obtain ⟨w, rfl, he⟩ := Option.map_eq_some_iff.1 h
    cases he
    exact ⟨n, hm, rfl⟩
  · rintro ⟨n, hm, rfl⟩
    exact ⟨(n, some v), hm, rfl⟩

theorem keys_present_sublist (members : List (String × Option (Json F))) :
    ((present members).map Prod.fst).Sublist (members.map fun m => Text.ofString m.1) := by
  induction members with
  | nil => exact .slnil
  | cons m members ih =>
    obtain ⟨n, o⟩ := m
    cases o with
    | none => exact .cons _ ih
    | some v => exact .cons_cons _ ih

theorem unique_present (h : (members.map Prod.fst).Nodup) : Table.Unique (present members) := by
  have hnames := h.map Text.ofString_injective
  rw [List.map_map] at hnames
  exact hnames.sublist (keys_present_sublist members)

theorem get_present (h : (members.map Prod.fst).Nodup) {n : String} {o : Option (Json F)} (hm : (n, o) ∈ members) :
    Table.get (Text.ofString n) (present members) = o := by
  cases o with
  | some v => exact Table.get_of_mem (unique_present h) (mem_present.2 ⟨n, hm, rfl⟩)
  | none =>
    rw [Table.get_eq_none_iff]
    rintro hk
    obtain ⟨⟨k, v⟩, he, rfl⟩ := List.mem_map.1 hk
    obtain ⟨n', hn', hkey⟩ := mem_present.1 he
    obtain rfl : n' = n := Text.ofString_injective hkey
    exact absurd (congrArg Prod.snd (List.inj_on_of_nodup_map h hn' hm rfl)) (by simp)

/-- **Every field finds the member that was written for it, or nothing.** -/
theorem slots_record (h : (members.map Prod.fst).Nodup) :
    slots (members.map Prod.fst) (record members) = some (members.map Prod.snd) := by
  have hcount : ∀ n ∈ members.map Prod.fst, ((present members).map Prod.fst).count (Text.ofString n) ≤ 1 := fun n _ =>
    List.nodup_iff_count_le_one.1 (unique_present h) _
  rw [record, slots, if_pos hcount, List.map_map]
  exact congrArg some (List.map_congr_left fun m hm => get_present h hm)

/-! ## Text -/

open Json

theorem clean_ofStr (s : String) : Clean (ofStr s : Json F) := unpaired_ofString s

theorem cleanItems_map {write : α → Json F} (h : ∀ a, Clean (write a)) (l : List α) : CleanItems (l.map write) := by
  induction l with
  | nil => trivial
  | cons a l ih => exact ⟨h a, ih⟩

theorem clean_ofStrs (l : List String) : Clean (ofStrs l : Json F) := cleanItems_map clean_ofStr l

theorem clean_record (h : (members.map Prod.fst).Nodup) (hv : ∀ n v, (n, some v) ∈ members → Clean v) :
    Clean (record members) := by
  refine ⟨unique_present h, cleanMembers_iff.2 ?_⟩
  rintro ⟨k, v⟩ he
  obtain ⟨n, hm, rfl⟩ := mem_present.1 he
  exact ⟨unpaired_ofString n, hv n v hm⟩

/-- JSON text, on one line -/
def text (T : FloatText F) : Codec (Json F) String where
  encode v := String.ofList ((dumps T none v).toChars?.getD [])
  decode s := match loads T (Text.ofString s) with
    | some v => .ok v
    | none => .error "expected value"

theorem text_decode_encode {T : FloatText F} (hT : T.Lawful) {v : Json F} (h : Clean v) :
    (text T).decode ((text T).encode v) = .ok v := by
  obtain ⟨b, hb⟩ := encode_dumps T none v
  obtain ⟨cs, hcs, -⟩ := Option.map_eq_some_iff.1 hb
  have htext : Text.ofString (String.ofList cs) = dumps T none v := by
    rw [Text.ofString, String.toList_ofList, Text.map_ofChar_of_toChars? hcs]
  simp only [text, hcs, Option.getD_some, htext, loads_dumps none hT, (normal_eq_self_iff v).2 h]

end AbirGuard.Core.Record
