/-
Formats: how a type is written as JSON and read.

A format carries the proof that it reads what it writes, so a format that is put together from formats needs no other. A struct is
a record of its fields; an enumeration is the name of its variant.

- `Format.uint8`, `uint64`, `str`, `list`, `vector`, `option`, `variants`: the formats of the types that records have.
- `Fields`: the fields of a record, put together by `field`, `optionField` and `and`; `Fields.record` is its format.
- `fromBytes_toBytes`: what is sent in a format is received, over a wire that reads back its values.
- `readsBack_textWire`: JSON text is such a wire for every format.
-/
import AbirGuard.Core.Record

namespace AbirGuard.Core.Serde

open Record Json

variable {F α β : Type}

/-- how a type is written and read, and that it comes back -/
structure Format (F α : Type) where
  write : α → Json F
  read : Json F → Option α
  read_write : ∀ a, read (write a) = some a
  clean : ∀ a, (write a).Clean

namespace Format

/-! ## Values -/

def bool : Format F Bool where
  write b := .bool b
  read v := match v with
    | .bool b => some b
    | _ => none
  read_write _ := rfl
  clean _ := trivial

def str : Format F String := ⟨ofStr, asStr, asStr_ofStr, clean_ofStr⟩

/-- an integer within a bound -/
def readBelow (bound : ℕ) : Json F → Option ℕ
  | .int n => if 0 ≤ n ∧ n < bound then some n.toNat else none
  | _ => none

theorem readBelow_int {bound n : ℕ} (h : n < bound) : readBelow bound (.int n : Json F) = some n := by
  rw [readBelow, if_pos ⟨Int.natCast_nonneg n, Int.ofNat_lt.2 h⟩, Int.toNat_natCast]

def uint8 : Format F UInt8 where
  write x := .int x.toNat
  read v := (readBelow (2 ^ 8) v).map UInt8.ofNat
  read_write x := by rw [readBelow_int x.toNat_lt, Option.map_some, UInt8.ofNat_toNat]
  clean _ := trivial

def uint64 : Format F UInt64 where
  write x := .int x.toNat
  read v := (readBelow (2 ^ 64) v).map UInt64.ofNat
  read_write x := by rw [readBelow_int x.toNat_lt, Option.map_some, UInt64.ofNat_toNat]
  clean _ := trivial

def list (f : Format F α) : Format F (List α) where
  write l := .arr (l.map f.write)
  read := asList f.read
  read_write := asList_map f.read_write
  clean := cleanItems_map f.clean

/-- `Vec<u8>`: an array of numbers -/
def bytes : Format F Bytes := list uint8

/-- `[T; n]`: an array of this length -/
def readVector (n : ℕ) (f : Format F α) (v : Json F) : Option (Vector α n) :=
  (f.list.read v).bind fun l => if h : l.length = n then some ⟨l.toArray, h⟩ else none

def vector (n : ℕ) (f : Format F α) : Format F (Vector α n) where
  write v := f.list.write v.toList
  read := readVector n f
  read_write v := by
    rw [readVector, f.list.read_write, Option.bind_some, dif_pos v.length_toList]
    exact congrArg some (Vector.toList_inj.1 rfl)
  clean v := f.list.clean v.toList

/-- null for none, where no value is written as null -/
def option (f : Format F α) (hf : ∀ a, f.write a ≠ .null) : Format F (Option α) where
  write o := match o with
    | none => .null
    | some a => f.write a
  read v := match v with
    | .null => some none
    | v => (f.read v).map some
  read_write o := by
    cases o with
    | none => rfl
    | some a =>
      have hread := f.read_write a
      dsimp only
      split
      · next heq => exact absurd heq (hf a)
      · rw [hread, Option.map_some]
  clean o := by
    cases o with
    | none => trivial
    | some a => exact f.clean a

/-- a variant without data: its name, or an object of one member with null -/
def variantName : Json F → Option String
  | .obj [(k, .null)] => k.toChars?.map String.ofList
  | v => asStr v

/-- an enumeration by the names of its variants -/
def variants (name : α → String) (all : List α) (hall : ∀ a, a ∈ all) (hname : Function.Injective name) :
    Format F α where
  write a := ofStr (name a)
  read v := (variantName v).bind fun s => all.find? fun a => name a = s
  read_write a := by
    have hread : variantName (ofStr (name a) : Json F) = some (name a) := asStr_ofStr (F := F) (name a)
    rw [hread, Option.bind_some]
    cases hfind : all.find? fun b => name b = name a with
    | none =>
      have hother := List.find?_eq_none.1 hfind a (hall a)
      simp at hother
    | some b =>
      have hsame : name b = name a := by simpa using List.find?_some hfind
      exact congrArg some (hname hsame)
  clean a := clean_ofStr (name a)

/-- a format for a type that another one represents -/
def represent (f : Format F α) (build : α → β) (parts : β → α) (h : ∀ b, build (parts b) = b) : Format F β where
  write b := f.write (parts b)
  read v := (f.read v).map build
  read_write b := by rw [f.read_write, Option.map_some, h]
  clean b := f.clean (parts b)

end Format

/-! ## Records -/

/-- the fields of a record, in the order of their names -/
structure Fields (F α : Type) where
  names : List String
  write : α → List (Json F)
  read : List (Option (Json F)) → Option α
  length_write : ∀ a, (write a).length = names.length
  read_write : ∀ a, read ((write a).map some) = some a
  clean : ∀ a, ∀ v ∈ write a, v.Clean

namespace Fields

/-- a field that must be there -/
def field (name : String) (f : Format F α) : Fields F α where
  names := [name]
  write a := [f.write a]
  read slots := match slots with
    | [slot] => required f.read slot
    | _ => none
  length_write _ := rfl
  read_write := f.read_write
  clean a _ hv := List.mem_singleton.1 hv ▸ f.clean a

/-- a field of type `Option`: none without its member -/
def optionField (name : String) (f : Format F α) (hf : ∀ a, f.write a ≠ .null) : Fields F (Option α) where
  names := [name]
  write o := [(f.option hf).write o]
  read slots := match slots with
    | [none] => some none
    | [some v] => (f.option hf).read v
    | _ => none
  length_write _ := rfl
  read_write := (f.option hf).read_write
  clean o _ hv := List.mem_singleton.1 hv ▸ (f.option hf).clean o

def and (f : Fields F α) (g : Fields F β) : Fields F (α × β) where
  names := f.names ++ g.names
  write p := f.write p.1 ++ g.write p.2
  read slots := do
    let a ← f.read (slots.take f.names.length)
    let b ← g.read (slots.drop f.names.length)
    some (a, b)
  length_write p := by rw [List.length_append, List.length_append, f.length_write, g.length_write]
  read_write p := by
    have hlength : ((f.write p.1).map some).length = f.names.length := by rw [List.length_map, f.length_write]
    rw [List.map_append, ← hlength, List.take_left, List.drop_left, f.read_write, g.read_write]
    rfl
  clean p v hv := by
    rcases List.mem_append.1 hv with hv | hv
    · exact f.clean p.1 v hv
    · exact g.clean p.2 v hv

/-- the members of a record -/
def members (f : Fields F α) (a : α) : List (String × Option (Json F)) := f.names.zip ((f.write a).map some)

theorem map_fst_members (f : Fields F α) (a : α) : (f.members a).map Prod.fst = f.names := by
  rw [members, List.map_fst_zip]
  rw [List.length_map, f.length_write]

theorem map_snd_members (f : Fields F α) (a : α) : (f.members a).map Prod.snd = (f.write a).map some := by
  rw [members, List.map_snd_zip]
  rw [List.length_map, f.length_write]

/-- a struct: an object with these members -/
def record (f : Fields F α) (h : f.names.Nodup) : Format F α where
  write a := Record.record (f.members a)
  read v := (slots f.names v).bind f.read
  read_write a := by
    have hnodup : ((f.members a).map Prod.fst).Nodup := by
      rw [f.map_fst_members]
      exact h
    have hslots := slots_record hnodup
    rw [f.map_fst_members, f.map_snd_members] at hslots
    rw [hslots, Option.bind_some, f.read_write]
  clean a := by
    refine clean_record (by rw [f.map_fst_members]; exact h) fun n v hm => ?_
    have hv : some v ∈ (f.members a).map Prod.snd := List.mem_map_of_mem hm
    rw [f.map_snd_members] at hv
    obtain ⟨w, hw, hwv⟩ := List.mem_map.1 hv
    exact Option.some.inj hwv ▸ f.clean a w hw

end Fields

/-! ## Transport -/

/-- how JSON values are sent, and what the reader says about a value of another shape -/
structure Wire (F : Type) where
  encode : Json F → Bytes
  decode : Bytes → Except String (Json F)
  mismatch : Json F → String

def toBytes (w : Wire F) (f : Format F α) (a : α) : Bytes := w.encode (f.write a)

def fromBytes (w : Wire F) (f : Format F α) (b : Bytes) : Except String α :=
  match w.decode b with
  | .error e => .error e
  | .ok v =>
    match f.read v with
    | some a => .ok a
    | none => .error (w.mismatch v)

/-- the values that a format writes are read back -/
def Wire.ReadsBack (w : Wire F) (f : Format F α) : Prop := ∀ a, w.decode (w.encode (f.write a)) = .ok (f.write a)

/-- **What is sent is received.** -/
theorem fromBytes_toBytes {w : Wire F} {f : Format F α} (h : w.ReadsBack f) (a : α) : fromBytes w f (toBytes w f a) = .ok a := by
  rw [fromBytes, toBytes, h a]
  dsimp only
  rw [f.read_write]

/-- the wire of JSON text -/
def textWire (T : FloatText F) : Wire F where
  encode v := utf8 ((text T).encode v)
  decode b := match fromUtf8 b with
    | none => .error "invalid unicode code point"
    | some s => (text T).decode s
  mismatch _ := "invalid type"

theorem readsBack_textWire {T : FloatText F} (hT : T.Lawful) (f : Format F α) : (textWire T).ReadsBack f := by
  intro a
  have hdecode := text_decode_encode hT (f.clean a)
  simp only [textWire, fromUtf8_utf8, hdecode]

/-- text without floats -/
def noFloats : FloatText Unit where
  token _ := ⟨false, [0], some [0], none⟩
  ofToken _ := ⟨⟩

theorem noFloats_lawful : noFloats.Lawful where
  valid _ := ⟨Or.inl rfl, by simp [noFloats], by simp [noFloats]⟩
  isFloat _ := Or.inl rfl
  ofToken_token _ := rfl

end AbirGuard.Core.Serde
