/-
The maximal runs of entries with a property, as positions in a list.

- `runs`: the runs, collected in one pass with the current one as an accumulator.
- `mem_runs_iff`: they are the maximal runs, each given by its first position and its length.
- `runs_sorted`: they come in order, each behind the end of the one before it.
-/
import Mathlib.Tactic.Common

namespace AbirGuard.Core.MaximalRuns

variable {α : Type} (p : α → Prop)

/-- there is an entry with the property at position i -/
def Holds (l : List α) (i : ℕ) : Prop := ∃ a, l[i]? = some a ∧ p a

/-- the entries from `start` on have the property for `len` positions, and neither neighbour has it -/
structure IsRun (l : List α) (start len : ℕ) : Prop where
  pos : 0 < len
  inside : ∀ i, start ≤ i → i < start + len → Holds p l i
  before : ∀ i, i + 1 = start → ¬ Holds p l i
  behind : ¬ Holds p l (start + len)

variable {p}

theorem Holds.lt {l : List α} {i : ℕ} (h : Holds p l i) : i < l.length := by
  obtain ⟨a, ha, -⟩ := h
  exact (List.getElem?_eq_some_iff.1 ha).1

/-- the positions of a run are positions of the list -/
theorem IsRun.le {l : List α} {start len : ℕ} (h : IsRun p l start len) : start + len ≤ l.length := by
  have hlast := (h.inside (start + len - 1) (by have := h.pos; omega) (by have := h.pos; omega)).lt
  have := h.pos
  omega

/-- runs that meet are one run -/
theorem IsRun.unique {l : List α} {start len start' len' : ℕ} (h : IsRun p l start len) (h' : IsRun p l start' len')
    (hle : start ≤ start') (hlt : start' ≤ start + len) : start' = start ∧ len' = len := by
  have hpos := h.pos
  have hpos' := h'.pos
  have hstart : start' = start := by
    rcases Nat.lt_trichotomy start' (start + len) with hin | heq | hgt
    · -- otherwise the position before the second run is in the first
      by_contra hne
      exact h'.before (start' - 1) (by omega) (h.inside (start' - 1) (by omega) (by omega))
    · exact absurd (heq ▸ h'.inside start' (Nat.le_refl _) (by omega)) h.behind
    · omega
  subst hstart
  refine ⟨rfl, ?_⟩
  rcases Nat.lt_trichotomy len' len with hlt | heq | hgt
  · exact absurd (h.inside (start' + len') (by omega) (by omega)) h'.behind
  · exact heq
  · exact absurd (h'.inside (start' + len) (by omega) (by omega)) h.behind

section

variable (p) [DecidablePred p]

/-- a run that has ended -/
def ended (start len : ℕ) : List (ℕ × ℕ) := if len = 0 then [] else [(start, len)]

/-- the runs of what comes behind the current one -/
def runsFrom (start len : ℕ) : List α → List (ℕ × ℕ)
  | [] => ended start len
  | a :: l => if p a then runsFrom start (len + 1) l else ended start len ++ runsFrom (start + len + 1) 0 l

def runs (l : List α) : List (ℕ × ℕ) := runsFrom p 0 0 l

end

section

variable {l : List α}

/-- the current run, when it ends: there is no other one between its start and its end -/
theorem mem_ended_iff {start len s n : ℕ} (hin : ∀ i, start ≤ i → i < start + len → Holds p l i)
    (hbefore : ∀ i, i + 1 = start → ¬ Holds p l i) (hend : ¬ Holds p l (start + len)) :
    (s, n) ∈ ended start len ↔ IsRun p l s n ∧ start ≤ s ∧ s ≤ start + len := by
  rw [ended]
  split_ifs with hlen
  · subst hlen
    refine iff_of_false List.not_mem_nil ?_
    intro ⟨h, hle, hle'⟩
    obtain rfl : s = start := Nat.le_antisymm hle' hle
    exact hend (h.inside s (Nat.le_refl _) (Nat.lt_add_of_pos_right h.pos))
  · have hrun : IsRun p l start len := ⟨Nat.pos_of_ne_zero hlen, hin, hbefore, hend⟩
    rw [List.mem_singleton, Prod.mk.injEq]
    constructor
    · intro h
      rcases h with ⟨rfl, rfl⟩
      exact ⟨hrun, Nat.le_refl _, Nat.le_add_right ..⟩
    · intro ⟨h, hle, hle'⟩
      exact hrun.unique h hle hle'

theorem fst_of_mem_ended {start len : ℕ} {r : ℕ × ℕ} (h : r ∈ ended start len) : r.1 = start := by
  rw [ended] at h
  split_ifs at h
  · cases h
  · exact congrArg Prod.fst (List.mem_singleton.1 h)

theorem holds_append_singleton {a : α} {l' : List α} : Holds p (l ++ a :: l') l.length ↔ p a := by
  simp [Holds]

variable [DecidablePred p]

/-- **The pass finds the runs that start no earlier than the current one**, which ends where the pass has come to. -/
theorem mem_runsFrom_iff {l' : List α} {start len s n : ℕ} (hlen : l.length = start + len)
    (hin : ∀ i, start ≤ i → i < start + len → Holds p (l ++ l') i) (hbefore : ∀ i, i + 1 = start → ¬ Holds p (l ++ l') i) :
    (s, n) ∈ runsFrom p start len l' ↔ IsRun p (l ++ l') s n ∧ start ≤ s := by
  induction l' generalizing l start len with
  | nil =>
    rw [List.append_nil] at hin hbefore ⊢
    have hend : ¬ Holds p l (start + len) := fun h => absurd h.lt (by omega)
    rw [runsFrom, mem_ended_iff hin hbefore hend]
    refine and_congr_right fun h => and_iff_left_of_imp fun hs => ?_
    have := h.le
    omega
  | cons a l' ih =>
    have hsplit : l ++ a :: l' = l ++ [a] ++ l' := by rw [List.append_assoc, List.singleton_append]
    have hlen' : (l ++ [a]).length = start + len + 1 := by rw [List.length_append, hlen, List.length_singleton]
    have hhere : Holds p (l ++ a :: l') (start + len) ↔ p a := hlen ▸ holds_append_singleton
    rw [runsFrom]
    split_ifs with ha
    · rw [hsplit] at hin hbefore hhere ⊢
      refine ih (by rw [hlen', Nat.add_assoc]) (fun i hi hi' => ?_) hbefore
      rcases Nat.lt_or_ge i (start + len) with hlt | hge
      · exact hin i hi hlt
      · obtain rfl : i = start + len := by omega
        exact hhere.2 ha
    · have hend := mt hhere.1 ha
      rw [List.mem_append, mem_ended_iff hin hbefore hend]
      rw [hsplit] at hend ⊢
      rw [ih (by rw [hlen', Nat.add_zero]) (fun i hi hi' => absurd hi (by omega)) fun i hi => by
        obtain rfl : i = start + len := by omega
        exact hend]
      constructor
      · intro h
        rcases h with ⟨h, hs, -⟩ | ⟨h, hs⟩
        · exact ⟨h, hs⟩
        · exact ⟨h, by omega⟩
      · intro ⟨h, hs⟩
        rcases Nat.lt_or_ge (start + len) s with hlt | hge
        · exact Or.inr ⟨h, hlt⟩
        · exact Or.inl ⟨h, hs, hge⟩

theorem mem_runs_iff {start len : ℕ} : (start, len) ∈ runs p l ↔ IsRun p l start len := by
  have h : (start, len) ∈ runsFrom p 0 0 l ↔ IsRun p ([] ++ l) start len ∧ 0 ≤ start :=
    mem_runsFrom_iff rfl (fun i _ hi => absurd hi (Nat.not_lt_zero i)) fun i hi => absurd hi (Nat.succ_ne_zero i)
  rw [runs, h]
  exact and_iff_left (Nat.zero_le start)

theorem le_of_mem_runsFrom {start len : ℕ} {r : ℕ × ℕ} (h : r ∈ runsFrom p start len l) : start ≤ r.1 := by
  induction l generalizing start len with
  | nil => exact Nat.le_of_eq (fst_of_mem_ended h).symm
  | cons a l ih =>
    rw [runsFrom] at h
    split_ifs at h with ha
    · exact ih h
    · rcases List.mem_append.1 h with h | h
      · exact Nat.le_of_eq (fst_of_mem_ended h).symm
      · have := ih h
        omega

theorem runsFrom_sorted {start len : ℕ} : (runsFrom p start len l).Pairwise fun r r' => r.1 + r.2 < r'.1 := by
  induction l generalizing start len with
  | nil =>
    rw [runsFrom, ended]
    split_ifs
    · exact List.Pairwise.nil
    · exact List.pairwise_singleton ..
  | cons a l ih =>
    rw [runsFrom]
    split_ifs with ha
    · exact ih
    · rw [ended]
      split_ifs with hlen
      · exact ih
      · rw [List.singleton_append, List.pairwise_cons]
        exact ⟨fun r hr => Nat.lt_of_succ_le (le_of_mem_runsFrom hr), ih⟩

theorem runs_sorted (l : List α) : (runs p l).Pairwise fun r r' => r.1 + r.2 < r'.1 := runsFrom_sorted

end

end AbirGuard.Core.MaximalRuns
