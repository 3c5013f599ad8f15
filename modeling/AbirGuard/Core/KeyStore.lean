/-
Stores of keys by id, and what becomes of a key that was once in one.

A run puts keys in, takes single ones out, or empties the store; a put replaces the key that its id had.

- `mem_puts_of_get`: every key of a store was put in.
- `eq_of_get`: where no key is put in twice, no two ids have the same key.
- `get_after_iff`: then a key is under an id at the end of a run if and only if it was under that id before and no step has
  touched the id since.
- `keys_after`: a program whose calls bear on its keys as such steps, or not at all.
-/
import AbirGuard.Core.Dict
import AbirGuard.Core.Run

namespace AbirGuard.Core.KeyStore

variable {κ K : Type}

inductive Effect (κ K : Type) where
  | put (k : κ) (key : K)
  | delete (k : κ)
  | clear

/-- the step bears on what is under an id -/
def Effect.Touches (k : κ) : Effect κ K → Prop
  | .put k' _ => k' = k
  | .delete k' => k' = k
  | .clear => True

def Effect.key? : Effect κ K → Option K
  | .put _ key => some key
  | _ => none

/-- the keys that a run puts in, in order -/
def puts (run : List (Effect κ K)) : List K := run.filterMap Effect.key?

theorem puts_append (run run' : List (Effect κ K)) : puts (run ++ run') = puts run ++ puts run' := List.filterMap_append

variable [DecidableEq κ]

def apply (d : Dict κ K) : Effect κ K → Dict κ K
  | .put k key => d.set k key
  | .delete k => d.erase k
  | .clear => Dict.empty

variable {d : Dict κ K} {e : Effect κ K} {run pre post : List (Effect κ K)} {k k' : κ} {key : K}

theorem get_apply_of_not_touches (h : ¬ e.Touches k) : (apply d e).get k = d.get k := by
  cases e with
  | put k' key => exact Dict.get_set_of_ne h key d
  | delete k' => exact Dict.get_erase_of_ne h d
  | clear => exact absurd trivial h

/-- what a step leaves under an id that it touches -/
theorem get_apply_of_touches (h : e.Touches k) : (apply d e).get k = e.key? := by
  cases e with
  | put k' key =>
    obtain rfl := h
    exact Dict.get_set_self _ key d
  | delete k' =>
    obtain rfl := h
    exact Dict.get_erase_self _ d
  | clear => rfl

theorem mem_puts_of_get (h : (Run.after apply Dict.empty run).get k = some key) : key ∈ puts run := by
  induction run using List.reverseRecOn generalizing k with
  | nil => cases h
  | append_singleton run e ih =>
    rw [Run.after_append, Run.after_cons, Run.after_nil] at h
    rw [puts_append, List.mem_append]
    by_cases ht : e.Touches k
    · rw [get_apply_of_touches ht] at h
      right
      exact List.mem_filterMap.2 ⟨e, List.mem_singleton_self e, h⟩
    · rw [get_apply_of_not_touches ht] at h
      exact Or.inl (ih h)

/-- a step that puts in no key of the run's leaves under every id the key it had, or another one, or nothing -/
theorem get_after_snoc_iff (hnew : e.key? ≠ some key) :
    (Run.after apply d (run ++ [e])).get k = some key ↔ (Run.after apply d run).get k = some key ∧ ¬ e.Touches k := by
  rw [Run.after_append, Run.after_cons, Run.after_nil]
  by_cases ht : e.Touches k
  · rw [get_apply_of_touches ht]
    exact iff_of_false hnew fun h => h.2 ht
  · rw [get_apply_of_not_touches ht]
    exact (and_iff_left ht).symm

/-- no two ids have the same key -/
theorem eq_of_get (hnodup : (puts run).Nodup) (h : (Run.after apply Dict.empty run).get k = some key)
    (h' : (Run.after apply Dict.empty run).get k' = some key) : k' = k := by
  induction run using List.reverseRecOn generalizing k k' with
  | nil => cases h
  | append_singleton run e ih =>
    rw [puts_append, List.nodup_append] at hnodup
    by_cases hkey : e.key? = some key
    · -- the key was just put in, and no id had it before
      have hfresh : key ∉ puts run := fun hmem =>
        hnodup.2.2 key hmem key (List.mem_filterMap.2 ⟨e, List.mem_singleton_self e, hkey⟩) rfl
      have htouched : ∀ {k}, (Run.after apply Dict.empty (run ++ [e])).get k = some key → e.Touches k := by
        intro k hk
        by_contra ht
        rw [Run.after_append, Run.after_cons, Run.after_nil, get_apply_of_not_touches ht] at hk
        exact hfresh (mem_puts_of_get hk)
      cases e with
      | put k₀ key₀ => exact (htouched h').symm.trans (htouched h)
      | delete k₀ => cases hkey
      | clear => cases hkey
    · exact ih hnodup.1 ((get_after_snoc_iff hkey).1 h).1 ((get_after_snoc_iff hkey).1 h').1

/-- **A key is still there if and only if its id has not been touched.** -/
theorem get_after_iff (hnodup : (puts (pre ++ post)).Nodup) (h : (Run.after apply Dict.empty pre).get k = some key) :
    (Run.after apply Dict.empty (pre ++ post)).get k' = some key ↔ k' = k ∧ ∀ e ∈ post, ¬ e.Touches k := by
  induction post using List.reverseRecOn with
  | nil =>
    rw [List.append_nil] at hnodup ⊢
    constructor
    · exact fun h' => ⟨eq_of_get hnodup h h', fun e he => by cases he⟩
    · rintro ⟨rfl, -⟩
      exact h
  | append_singleton post e ih =>
    rw [← List.append_assoc, puts_append, List.nodup_append] at hnodup
    have hnew : e.key? ≠ some key := by
      intro hkey
      have hmem : key ∈ puts (pre ++ post) := by
        rw [puts_append]
        exact List.mem_append_left _ (mem_puts_of_get h)
      exact hnodup.2.2 key hmem key (List.mem_filterMap.2 ⟨e, List.mem_singleton_self e, hkey⟩) rfl
    rw [← List.append_assoc, get_after_snoc_iff hnew, ih hnodup.1]
    constructor
    · rintro ⟨⟨rfl, hpost⟩, ht⟩
      refine ⟨rfl, fun e' he' => ?_⟩
      rcases List.mem_append.1 he' with he' | he'
      · exact hpost e' he'
      · obtain rfl := List.mem_singleton.1 he'
        exact ht
    · rintro ⟨rfl, hpost⟩
      exact ⟨⟨rfl, fun e' he' => hpost e' (List.mem_append_left _ he')⟩,
        hpost e (List.mem_append_right _ (List.mem_singleton_self e))⟩

/-! ## Programs with such a store -/

section Program

variable {σ α : Type} {step : σ → α → σ} {keys : σ → Dict κ K} {effect : α → Option (Effect κ K)}

/-- the store of a program follows the effects of its calls, in states that keep an invariant -/
theorem keys_after (Inv : σ → Prop) (hinv : ∀ s a, Inv s → Inv (step s a))
    (h : ∀ s a, Inv s → keys (step s a) = (effect a).elim (keys s) (apply (keys s))) {s : σ}
    (hs : Inv s) (calls : List α) : keys (Run.after step s calls) = Run.after apply (keys s) (calls.filterMap effect) := by
  induction calls generalizing s with
  | nil => rfl
  | cons a calls ih =>
    rw [Run.after_cons, ih (hinv s a hs), h s a hs]
    rcases he : effect a with _ | e
    · rw [List.filterMap_cons_none he, Option.elim_none]
    · rw [List.filterMap_cons_some he, Option.elim_some, Run.after_cons]

end Program

end AbirGuard.Core.KeyStore
