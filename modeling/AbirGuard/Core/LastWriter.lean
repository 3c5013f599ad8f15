/-
Registers in which the last writer wins: of the records that reach a holder it keeps the one with the greatest stamp.

- `Latest heard held`: what is held is the latest of the records heard. `Latest.adopt` is its rule for one
  more record; `Latest.unique` says that records with stamps of their own leave no choice.
- `Advances`: what is held is kept or replaced by a later record; nothing that was replaced comes back (`Advances.gone`).

Records and stamps are of arbitrary types, the stamps in a linear order.
-/
import Mathlib.Order.Lattice
import Mathlib.Data.Set.Function
import Mathlib.Tactic

namespace AbirGuard.Core.LastWriter

variable {ρ σ : Type} [LinearOrder σ] (stamp : ρ → σ)

/-- the record replaces an earlier one, or nothing -/
def adopt (held : Option ρ) (r : ρ) : Option ρ :=
  match held with
  | none => some r
  | some x => if stamp x < stamp r then some r else some x

/-- what is held is one of the records heard, and none of them is later -/
structure Latest (heard : Set ρ) (held : Option ρ) : Prop where
  mem : ∀ r ∈ held, r ∈ heard
  le : ∀ x ∈ heard, ∃ r ∈ held, stamp x ≤ stamp r

/-- what is held is still held, or replaced by a later record -/
def Advances (held held' : Option ρ) : Prop := ∀ r ∈ held, ∃ r' ∈ held', r' = r ∨ stamp r < stamp r'

variable {stamp} {heard : Set ρ} {held held' held'' : Option ρ} {r x : ρ}

theorem adopt_of_lt (h : ∀ x ∈ held, stamp x < stamp r) : adopt stamp held r = some r := by
  cases held with
  | none => rfl
  | some x => exact if_pos (h x rfl)

theorem adopt_of_le (hx : x ∈ held) (h : stamp r ≤ stamp x) : adopt stamp held r = held := by
  obtain rfl := Option.mem_def.1 hx
  exact if_neg (not_lt.2 h)

/-! ## The latest record heard -/

theorem latest_empty : Latest stamp ∅ none where
  mem r h := by cases h
  le x h := by cases h

/-- one more record -/
theorem Latest.adopt (h : Latest stamp heard held) (r : ρ) : Latest stamp (insert r heard) (adopt stamp held r) := by
  by_cases hlt : ∀ x ∈ held, stamp x < stamp r
  · rw [adopt_of_lt hlt]
    refine ⟨fun x hx => ?_, fun x hx => ⟨r, rfl, ?_⟩⟩
    · obtain rfl := Option.some.inj hx
      exact Set.mem_insert _ _
    · rcases Set.mem_insert_iff.1 hx with rfl | hx
      · exact le_refl _
      · obtain ⟨y, hy, hxy⟩ := h.le x hx
        exact hxy.trans (hlt y hy).le
  · push Not at hlt
    obtain ⟨x, hx, hle⟩ := hlt
    rw [adopt_of_le hx hle]
    refine ⟨fun y hy => Set.mem_insert_of_mem _ (h.mem y hy), fun y hy => ?_⟩
    rcases Set.mem_insert_iff.1 hy with rfl | hy
    · exact ⟨x, hx, hle⟩
    · exact h.le y hy

/-- records with stamps of their own have one latest -/
theorem Latest.unique (h : Latest stamp heard held) (h' : Latest stamp heard held') (hinj : Set.InjOn stamp heard) :
    held = held' := by
  have hsub : ∀ {a b : Option ρ}, Latest stamp heard a → Latest stamp heard b → ∀ r ∈ a, r ∈ b := by
    intro a b ha hb r hr
    obtain ⟨x, hx, hrx⟩ := hb.le r (ha.mem r hr)
    obtain ⟨y, hy, hxy⟩ := ha.le x (hb.mem x hx)
    obtain rfl := Option.mem_unique hr hy
    rwa [hinj (ha.mem r hr) (hb.mem x hx) (le_antisymm hrx hxy)]
  exact Option.ext fun r => ⟨hsub h h' r, hsub h' h r⟩

/-! ## What is replaced does not come back -/

theorem Advances.refl (held : Option ρ) : Advances stamp held held := fun r hr => ⟨r, hr, Or.inl rfl⟩

theorem Advances.trans (h : Advances stamp held held') (h' : Advances stamp held' held'') : Advances stamp held held'' := by
  intro r hr
  obtain ⟨r', hr', h1⟩ := h r hr
  obtain ⟨r'', hr'', h2⟩ := h' r' hr'
  refine ⟨r'', hr'', ?_⟩
  rcases h1 with rfl | h1
  · exact h2
  · rcases h2 with rfl | h2
    · exact Or.inr h1
    · exact Or.inr (h1.trans h2)

theorem advances_adopt (held : Option ρ) (r : ρ) : Advances stamp held (adopt stamp held r) := by
  intro x hx
  by_cases hlt : stamp x < stamp r
  · refine ⟨r, ?_, Or.inr hlt⟩
    obtain rfl := Option.mem_def.1 hx
    exact if_pos hlt
  · rw [adopt_of_le hx (not_lt.1 hlt)]
    exact ⟨x, hx, Or.inl rfl⟩

/-- the stamp of what is held never decreases -/
theorem Advances.le (h : Advances stamp held held') (hr : r ∈ held) : ∃ r' ∈ held', stamp r ≤ stamp r' := by
  obtain ⟨r', hr', rfl | hlt⟩ := h r hr
  · exact ⟨r', hr', le_refl _⟩
  · exact ⟨r', hr', hlt.le⟩

/-- a record that was replaced is not held again -/
theorem Advances.gone (h : Advances stamp held held') (h' : Advances stamp held' held'') (hr : r ∈ held) (hr' : r ∉ held') :
    r ∉ held'' := by
  obtain ⟨x, hx, hne⟩ := h r hr
  have hlt : stamp r < stamp x := hne.resolve_left fun he => hr' (he ▸ hx)
  obtain ⟨y, hy, hxy⟩ := h'.le hx
  intro hr''
  obtain rfl := Option.mem_unique hr'' hy
  exact absurd hxy (not_le.2 hlt)

end AbirGuard.Core.LastWriter
