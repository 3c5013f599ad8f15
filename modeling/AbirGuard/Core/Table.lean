/-
Keyed lists: entries under keys that may repeat, kept in a list in order of insertion.

A program that keeps its records in a vector reads and writes them in ways that disagree once a key repeats:
- `get` takes the first entry of a key, `add` appends without looking, so an entry added under a present key is not
  seen;
- `put` drops every entry of the key and appends, so the new one is the only one;
- `load` puts the entries of a list one after another, so of each key the last one stays (`get_load`);
- `set` overwrites the first entry of a key where it stands, and appends only if there is none.
On a table without repeated keys the three agree, and `load` returns the list it is given (`load_eq_self`).

All are over arbitrary types of keys and values.
-/
import Mathlib.Tactic

namespace AbirGuard.Core

variable {α β : Type} [DecidableEq α]

namespace Table

/-- the first entry of a key -/
def get (k : α) (t : List (α × β)) : Option β := (t.find? fun e => e.1 = k).map Prod.snd

/-- the table without a key -/
def remove (k : α) (t : List (α × β)) : List (α × β) := t.filter fun e => e.1 ≠ k

/-- append under a key, whatever the table has -/
def add (k : α) (b : β) (t : List (α × β)) : List (α × β) := t ++ [(k, b)]

/-- replace a key, or append it -/
def put (k : α) (b : β) (t : List (α × β)) : List (α × β) := add k b (remove k t)

/-- overwrite the first entry of a key in its place, or append it -/
def set (k : α) (b : β) : List (α × β) → List (α × β)
  | [] => [(k, b)]
  | e :: t => if e.1 = k then (k, b) :: t else e :: set k b t

/-- set a list of entries in the empty table -/
def setAll (l : List (α × β)) : List (α × β) := l.foldl (fun t e => set e.1 e.2 t) []

/-- put a list of entries into the empty table -/
def load (l : List (α × β)) : List (α × β) := l.foldl (fun t e => put e.1 e.2 t) []

/-- no key repeats -/
def Unique (t : List (α × β)) : Prop := (t.map Prod.fst).Nodup

/-! ## Reading -/

@[simp] theorem get_nil (k : α) : get k ([] : List (α × β)) = none := rfl

theorem get_append (k : α) (t u : List (α × β)) : get k (t ++ u) = (get k t).or (get k u) := by
  rw [get, get, get, List.find?_append]
  cases t.find? fun e => decide (e.1 = k) <;> rfl

@[simp] theorem get_singleton_self (k : α) (b : β) : get k [(k, b)] = some b := by simp [get]

theorem get_singleton_of_ne {k k' : α} (h : k' ≠ k) (b : β) : get k [(k', b)] = none := by simp [get, h]

theorem get_eq_none_iff {k : α} {t : List (α × β)} : get k t = none ↔ k ∉ t.map Prod.fst := by
  simp only [get, Option.map_eq_none_iff, List.find?_eq_none, decide_eq_true_eq, List.mem_map, not_exists, not_and]

theorem mem_of_get {k : α} {b : β} {t : List (α × β)} (h : get k t = some b) : (k, b) ∈ t := by
  obtain ⟨e, he, rfl⟩ := Option.map_eq_some_iff.1 h
  have hk : e.1 = k := by simpa using List.find?_some he
  rw [← hk]
  exact List.mem_of_find?_eq_some he

theorem get_isSome_iff {k : α} {t : List (α × β)} : (get k t).isSome ↔ k ∈ t.map Prod.fst := by
  rw [← not_iff_not, Bool.not_eq_true, Option.isSome_eq_false_iff, Option.isNone_iff_eq_none, get_eq_none_iff]

/-! ## Writing -/

theorem get_remove_self (k : α) (t : List (α × β)) : get k (remove k t) = none := by
  rw [get_eq_none_iff]
  simp [remove]

theorem get_remove_of_ne {k k' : α} (h : k' ≠ k) (t : List (α × β)) : get k (remove k' t) = get k t := by
  induction t with
  | nil => rfl
  | cons e t ih =>
    have hcons : ∀ u : List (α × β), get k (e :: u) = (get k [e]).or (get k u) := fun u => get_append k [e] u
    by_cases he : e.1 = k'
    · have hn : get k [e] = none := get_singleton_of_ne (by rwa [he]) e.2
      have hr : remove k' (e :: t) = remove k' t := by simp [remove, he]
      rw [hr, ih, hcons, hn, Option.none_or]
    · have hr : remove k' (e :: t) = e :: remove k' t := by simp [remove, he]
      rw [hr, hcons (remove k' t), hcons t, ih]

theorem get_add_self {k : α} {t : List (α × β)} (h : get k t = none) (b : β) : get k (add k b t) = some b := by
  rw [add, get_append, h, Option.none_or, get_singleton_self]

theorem get_add_of_ne {k k' : α} (h : k' ≠ k) (b : β) (t : List (α × β)) : get k (add k' b t) = get k t := by
  rw [add, get_append, get_singleton_of_ne h, Option.or_none]

/-- an entry that is added does not hide one that is there -/
theorem get_add_of_get {k : α} {b : β} {t : List (α × β)} (h : get k t = some b) (k' : α) (b' : β) :
    get k (add k' b' t) = some b := by
  rw [add, get_append, h, Option.some_or]

theorem get_put_self (k : α) (b : β) (t : List (α × β)) : get k (put k b t) = some b :=
  get_add_self (get_remove_self k t) b

theorem get_put_of_ne {k k' : α} (h : k' ≠ k) (b : β) (t : List (α × β)) : get k (put k' b t) = get k t := by
  rw [put, get_add_of_ne h, get_remove_of_ne h]

theorem get_cons (k : α) (e : α × β) (t : List (α × β)) : get k (e :: t) = if e.1 = k then some e.2 else get k t := by
  simp only [get, List.find?_cons]
  split_ifs with h <;> simp [h]

theorem get_set_self (k : α) (b : β) (t : List (α × β)) : get k (set k b t) = some b := by
  induction t with
  | nil => exact get_singleton_self k b
  | cons e t ih =>
    rw [set]
    split_ifs with h
    · rw [get_cons, if_pos rfl]
    · rw [get_cons, if_neg h, ih]

theorem get_set_of_ne {k k' : α} (h : k' ≠ k) (b : β) (t : List (α × β)) : get k (set k' b t) = get k t := by
  induction t with
  | nil => exact get_singleton_of_ne h b
  | cons e t ih =>
    rw [set]
    split_ifs with he
    · rw [get_cons, if_neg h, get_cons, if_neg (he ▸ h)]
    · rw [get_cons, get_cons, ih]

/-- setting a key that the table does not have appends it -/
theorem set_eq_add {k : α} {t : List (α × β)} (h : get k t = none) (b : β) : set k b t = add k b t := by
  induction t with
  | nil => rfl
  | cons e t ih =>
    rw [get_cons] at h
    split_ifs at h with he
    rw [set, if_neg he, ih h]
    rfl

theorem mem_keys_set {k k' : α} {b : β} {t : List (α × β)} :
    k ∈ (set k' b t).map Prod.fst ↔ k = k' ∨ k ∈ t.map Prod.fst := by
  rw [← get_isSome_iff, ← get_isSome_iff]
  by_cases h : k = k'
  · simp [h, get_set_self]
  · simp [h, get_set_of_ne (Ne.symm h)]

/-! ## Tables without repeated keys -/

theorem unique_remove {t : List (α × β)} (h : Unique t) (k : α) : Unique (remove k t) :=
  h.sublist (List.filter_sublist.map Prod.fst)

theorem unique_add {t : List (α × β)} (h : Unique t) {k : α} (hk : get k t = none) (b : β) : Unique (add k b t) := by
  rw [Unique, add, List.map_append, List.nodup_append]
  refine ⟨h, List.nodup_singleton _, fun a ha c hc => ?_⟩
  rw [List.map_singleton, List.mem_singleton] at hc
  intro hac
  rw [hac, hc] at ha
  exact get_eq_none_iff.1 hk ha

theorem unique_snoc {t : List (α × β)} {e : α × β} (h : Unique (t ++ [e])) : Unique t ∧ get e.1 t = none := by
  rw [Unique, List.map_append, List.nodup_append] at h
  refine ⟨h.1, get_eq_none_iff.2 fun hm => ?_⟩
  exact h.2.2 _ hm _ (by simp) rfl

theorem unique_put {t : List (α × β)} (h : Unique t) (k : α) (b : β) : Unique (put k b t) :=
  unique_add (unique_remove h k) (get_remove_self k t) b

theorem unique_set {t : List (α × β)} (h : Unique t) (k : α) (b : β) : Unique (set k b t) := by
  induction t with
  | nil => exact List.nodup_singleton k
  | cons e t ih =>
    rw [Unique, List.map_cons, List.nodup_cons] at h
    rw [set]
    split_ifs with he
    · rw [Unique, List.map_cons, List.nodup_cons]
      exact ⟨he ▸ h.1, h.2⟩
    · rw [Unique, List.map_cons, List.nodup_cons, mem_keys_set]
      refine ⟨?_, ih h.2⟩
      rintro (hk | hk)
      · exact he hk
      · exact h.1 hk

theorem get_of_mem {t : List (α × β)} (h : Unique t) {k : α} {b : β} (hm : (k, b) ∈ t) : get k t = some b := by
  induction t with
  | nil => simp at hm
  | cons e t ih =>
    have hcons : get k (e :: t) = (get k [e]).or (get k t) := get_append k [e] t
    rw [Unique, List.map_cons, List.nodup_cons] at h
    rcases List.mem_cons.1 hm with rfl | hm
    · rw [hcons, get_singleton_self, Option.some_or]
    · have hne : e.1 ≠ k := fun he => h.1 (he ▸ List.mem_map_of_mem hm)
      rw [hcons, get_singleton_of_ne hne, Option.none_or, ih h.2 hm]

theorem mem_iff_get {t : List (α × β)} (h : Unique t) {e : α × β} : e ∈ t ↔ get e.1 t = some e.2 :=
  ⟨fun hm => get_of_mem h hm, mem_of_get⟩

/-- two such tables have the same entries if and only if they read the same -/
theorem perm_iff {t u : List (α × β)} (h : Unique t) (h' : Unique u) : t.Perm u ↔ ∀ k, get k t = get k u := by
  rw [List.perm_ext_iff_of_nodup h.of_map h'.of_map]
  refine ⟨fun hmem k => Option.ext fun b => ?_, fun hget e => ?_⟩
  · rw [← mem_iff_get h (e := (k, b))]
    exact (hmem (k, b)).trans (mem_iff_get h')
  · rw [mem_iff_get h, mem_iff_get h', hget]

/-! ## Setting a list of entries -/

theorem setAll_append (l : List (α × β)) (e : α × β) : setAll (l ++ [e]) = set e.1 e.2 (setAll l) := by
  rw [setAll, List.foldl_append]
  rfl

theorem unique_setAll (l : List (α × β)) : Unique (setAll l) := by
  induction l using List.reverseRecOn with
  | nil => exact List.nodup_nil
  | append_singleton l e ih =>
    rw [setAll_append]
    exact unique_set ih e.1 e.2

theorem setAll_eq_self {t : List (α × β)} (h : Unique t) : setAll t = t := by
  induction t using List.reverseRecOn with
  | nil => rfl
  | append_singleton t e ih =>
    obtain ⟨ht, hk⟩ := unique_snoc h
    rw [setAll_append, ih ht, set_eq_add hk, add]

theorem length_set (k : α) (b : β) (t : List (α × β)) :
    (set k b t).length = if (get k t).isSome then t.length else t.length + 1 := by
  induction t with
  | nil => rfl
  | cons e t ih =>
    rw [set, get_cons]
    by_cases he : e.1 = k
    · rw [if_pos he, if_pos he]
      rfl
    · rw [if_neg he, if_neg he, List.length_cons, ih, List.length_cons]
      split_ifs <;> rfl

/-- setting a list keeps its length only if no key repeats, and then it changes nothing -/
theorem setAll_eq_self_of_length {l : List (α × β)} (h : (setAll l).length = l.length) : setAll l = l := by
  have hle : ∀ l : List (α × β), (setAll l).length ≤ l.length := by
    intro l
    induction l using List.reverseRecOn with
    | nil => exact le_refl _
    | append_singleton l e ih =>
      rw [setAll_append, length_set, List.length_append, List.length_singleton]
      split_ifs <;> omega
  induction l using List.reverseRecOn with
  | nil => rfl
  | append_singleton l e ih =>
    have hl := hle l
    rw [setAll_append, length_set, List.length_append, List.length_singleton] at h
    split_ifs at h with hg
    · omega
    · have hself : setAll l = l := ih (by omega)
      have hnone : get e.1 l = none := by
        rw [← hself]
        simpa using hg
      rw [setAll_append, hself, set_eq_add hnone, add]

/-! ## Loading -/

theorem load_append (l : List (α × β)) (e : α × β) : load (l ++ [e]) = put e.1 e.2 (load l) := by
  rw [load, List.foldl_append]
  rfl

theorem unique_load (l : List (α × β)) : Unique (load l) := by
  induction l using List.reverseRecOn with
  | nil => exact List.nodup_nil
  | append_singleton l e ih =>
    rw [load_append]
    exact unique_put ih e.1 e.2

/-- **The last entry of a key wins.** -/
theorem get_load (k : α) (l : List (α × β)) : get k (load l) = get k l.reverse := by
  induction l using List.reverseRecOn with
  | nil => rfl
  | append_singleton l e ih =>
    rw [load_append, List.reverse_append, List.reverse_singleton, List.singleton_append]
    have hcons : get k (e :: l.reverse) = (get k [e]).or (get k l.reverse) := get_append k [e] l.reverse
    by_cases he : e.1 = k
    · subst he
      rw [get_put_self, hcons, get_singleton_self, Option.some_or]
    · rw [get_put_of_ne he, hcons, get_singleton_of_ne he, Option.none_or, ih]

theorem remove_eq_self {k : α} {t : List (α × β)} (h : get k t = none) : remove k t = t := by
  refine List.filter_eq_self.2 fun e he => ?_
  rw [decide_eq_true_eq]
  rintro rfl
  exact get_eq_none_iff.1 h (List.mem_map_of_mem he)

/-- removing a key that was just added -/
theorem remove_add_self {k : α} {t : List (α × β)} (h : get k t = none) (b : β) : remove k (add k b t) = t := by
  rw [add, remove, List.filter_append, ← remove, remove_eq_self h]
  simp

/-- loading the entries of a table gives the table back -/
theorem load_eq_self {t : List (α × β)} (h : Unique t) : load t = t := by
  induction t using List.reverseRecOn with
  | nil => rfl
  | append_singleton t e ih =>
    obtain ⟨ht, hk⟩ := unique_snoc h
    rw [load_append, ih ht, put, remove_eq_self hk, add]

/-- loading a table to which an entry was added under any key: the added entry replaces the old one -/
theorem load_add {t : List (α × β)} (h : Unique t) (k : α) (b : β) : load (add k b t) = put k b t := by
  rw [add, load_append, load_eq_self h]

theorem mem_of_mem_load {e : α × β} {l : List (α × β)} (h : e ∈ load l) : e ∈ l := by
  have hg : get e.1 l.reverse = some e.2 := by
    rw [← get_load]
    exact get_of_mem (unique_load l) h
  simpa using mem_of_get hg

end Table

end AbirGuard.Core
