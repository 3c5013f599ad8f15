/-
Dictionaries: finite maps that keep the order in which their keys were first set. That no key repeats is part of the type.

- `get_set_self`, `get_set_of_ne`, `get_erase_self`, `get_erase_of_ne`: reading after writing.
- `setdefault`: a value that is created on demand and changed in place.
- `erase_set_self`: taking out a key that was not there before.
- `contains_iff`: a key is in the dictionary if and only if reading it gives a value.
-/
import AbirGuard.Core.Table

namespace AbirGuard.Core

structure Dict (α β : Type) where
  entries : List (α × β)
  unique : Table.Unique entries

variable {α β : Type}

namespace Dict

@[ext] theorem ext {d d' : Dict α β} (h : d.entries = d'.entries) : d = d' := by
  cases d
  cases d'
  cases h
  rfl

instance [DecidableEq α] [DecidableEq β] : DecidableEq (Dict α β) := fun _ _ => decidable_of_iff _ Dict.ext_iff.symm

def empty : Dict α β := ⟨[], List.nodup_nil⟩

def keys (d : Dict α β) : List α := d.entries.map Prod.fst

variable [DecidableEq α]

def get (k : α) (d : Dict α β) : Option β := Table.get k d.entries

/-- `d[k] = b` -/
def set (k : α) (b : β) (d : Dict α β) : Dict α β := ⟨Table.set k b d.entries, Table.unique_set d.unique k b⟩

/-- `del d[k]` where k is a key; otherwise nothing -/
def erase (k : α) (d : Dict α β) : Dict α β := ⟨Table.remove k d.entries, Table.unique_remove d.unique k⟩

/-- change in place what `d.setdefault(k, b)` gives -/
def setdefault (k : α) (b : β) (f : β → β) (d : Dict α β) : Dict α β := d.set k (f ((d.get k).getD b))

/-- `k in d` -/
def contains (k : α) (d : Dict α β) : Bool := (d.get k).isSome

@[simp] theorem get_empty (k : α) : (empty : Dict α β).get k = none := rfl

@[simp] theorem contains_empty (k : α) : (empty : Dict α β).contains k = false := rfl

@[simp] theorem get_set_self (k : α) (b : β) (d : Dict α β) : (d.set k b).get k = some b := Table.get_set_self k b d.entries

theorem get_set_of_ne {k k' : α} (h : k' ≠ k) (b : β) (d : Dict α β) : (d.set k' b).get k = d.get k :=
  Table.get_set_of_ne h b d.entries

@[simp] theorem get_erase_self (k : α) (d : Dict α β) : (d.erase k).get k = none := Table.get_remove_self k d.entries

theorem get_erase_of_ne {k k' : α} (h : k' ≠ k) (d : Dict α β) : (d.erase k').get k = d.get k :=
  Table.get_remove_of_ne h d.entries

@[simp] theorem getD_setdefault_self (k : α) (b : β) (f : β → β) (d : Dict α β) :
    ((d.setdefault k b f).get k).getD b = f ((d.get k).getD b) := by
  rw [setdefault, get_set_self, Option.getD_some]

theorem get_setdefault_of_ne {k k' : α} (h : k' ≠ k) (b : β) (f : β → β) (d : Dict α β) :
    (d.setdefault k' b f).get k = d.get k := get_set_of_ne h _ d

theorem erase_set_self {k : α} {d : Dict α β} (h : d.get k = none) (b : β) : (d.set k b).erase k = d :=
  Dict.ext ((congrArg (Table.remove k) (Table.set_eq_add h b)).trans (Table.remove_add_self h b))

theorem contains_iff {k : α} {d : Dict α β} : d.contains k ↔ ∃ b, d.get k = some b := Option.isSome_iff_exists

end Dict

end AbirGuard.Core
