/-
Walking round a list for ever.

A wheel is a list and a position. Its user takes items one after another, or looks for the next item that it accepts and
gives up after a number of probes.

- `visits_period`: as many steps as the list is long pass each item as often as the list has it, from any position.
- `find_spec`: a search passes one accepted item if it finds one, and none otherwise.
- `finds_spec`: what a number of searches find is what they passed of the accepted items, and they pass at least one item each.
- `count_le_finds`, `finds_of_accepts`: as many searches as the list is long find each accepted item at least as often as the
  list has it, and exactly that often where every item is accepted.
-/
import Mathlib.Data.Nat.Count
import Mathlib.Tactic

namespace AbirGuard.Core

structure Wheel (α : Type) where
  items : List α
  nonempty : items ≠ []
  position : ℕ

namespace Wheel

variable {α : Type}

/-- the item n places ahead -/
def peek (w : Wheel α) (n : ℕ) : α :=
  w.items.get ⟨(w.position + n) % w.items.length, Nat.mod_lt _ (List.length_pos_iff.2 w.nonempty)⟩

def skip (w : Wheel α) (n : ℕ) : Wheel α := { w with position := w.position + n }

/-- the item that comes next, and the wheel after it -/
def next (w : Wheel α) : α × Wheel α := (w.peek 0, w.skip 1)

/-- the first item accepted among the next k -/
def find (p : α → Bool) : ℕ → Wheel α → Option α × Wheel α
  | 0, w => (none, w)
  | k + 1, w =>
    let (a, w) := w.next
    if p a then (some a, w) else find p k w

/-- n searches, one after another -/
def finds (p : α → Bool) (k : ℕ) : ℕ → Wheel α → List (Option α) × Wheel α
  | 0, w => ([], w)
  | n + 1, w =>
    let (found, w) := w.find p k
    let (rest, w) := finds p k n w
    (found :: rest, w)

@[simp] theorem skip_items (w : Wheel α) (n : ℕ) : (w.skip n).items = w.items := rfl

@[simp] theorem skip_zero (w : Wheel α) : w.skip 0 = w := rfl

@[simp] theorem skip_skip (w : Wheel α) (m n : ℕ) : (w.skip m).skip n = w.skip (m + n) := by
  simp [skip, Nat.add_assoc]

theorem peek_skip (w : Wheel α) (m n : ℕ) : (w.skip m).peek n = w.peek (m + n) := by
  simp [peek, skip, Nat.add_assoc]

theorem peek_mem (w : Wheel α) (n : ℕ) : w.peek n ∈ w.items := List.get_mem ..

@[simp] theorem find_items (p : α → Bool) (k : ℕ) (w : Wheel α) : (w.find p k).2.items = w.items := by
  induction k generalizing w with
  | zero => rfl
  | succ k ih =>
    by_cases hp : p (w.peek 0)
    · simp [find, next, hp]
    · simp [find, next, hp, ih]

/-- from its first item on, a round lists the items -/
theorem map_peek_start (w : Wheel α) :
    (List.range w.items.length).map (fun i => (⟨w.items, w.nonempty, 0⟩ : Wheel α).peek i) = w.items := by
  refine List.ext_getElem (by simp) fun i hi hi' => ?_
  simp [peek, Nat.mod_eq_of_lt hi']

theorem find_of_accepts {p : α → Bool} {w : Wheel α} (h : ∀ a ∈ w.items, p a) {k : ℕ} (hk : 0 < k) :
    w.find p k = (some (w.peek 0), w.skip 1) := by
  obtain ⟨k, rfl⟩ := Nat.exists_eq_succ_of_ne_zero hk.ne'
  simp [find, next, h _ (w.peek_mem 0)]

/-- where every item is accepted, searches take the items as they come -/
theorem finds_of_accepts {p : α → Bool} {w : Wheel α} (h : ∀ a ∈ w.items, p a) {k : ℕ} (hk : 0 < k) (n : ℕ) :
    (w.finds p k n).1 = (List.range n).map fun i => some (w.peek i) := by
  induction n generalizing w with
  | zero => rfl
  | succ n ih =>
    have hfinds : w.finds p k (n + 1) =
        (some (w.peek 0) :: ((w.skip 1).finds p k n).1, ((w.skip 1).finds p k n).2) := by
      rw [finds, find_of_accepts h hk]
    rw [hfinds, List.range_succ_eq_map, List.map_cons, List.map_map]
    refine congrArg (some (w.peek 0) :: ·) ?_
    rw [ih (by simpa using h)]
    refine List.map_congr_left fun i _ => ?_
    simp [peek_skip, Nat.add_comm]

/-! ## What a walk passes -/

variable [DecidableEq α]

/-- how often an item is among the next n -/
def visits (w : Wheel α) (n : ℕ) (a : α) : ℕ := Nat.count (fun i => w.peek i = a) n

@[simp] theorem visits_zero (w : Wheel α) (a : α) : w.visits 0 a = 0 := rfl

theorem visits_add (w : Wheel α) (m n : ℕ) (a : α) : w.visits (m + n) a = w.visits m a + (w.skip m).visits n a := by
  unfold visits
  rw [Nat.count_add]
  simp only [peek_skip]

theorem visits_one (w : Wheel α) (a : α) : w.visits 1 a = if w.peek 0 = a then 1 else 0 := by
  simp [visits, Nat.count_succ]

theorem visits_mono (w : Wheel α) {m n : ℕ} (h : m ≤ n) (a : α) : w.visits m a ≤ w.visits n a := Nat.count_monotone _ h

theorem count_map_range (f : ℕ → α) (n : ℕ) (a : α) : ((List.range n).map f).count a = Nat.count (fun i => f i = a) n := by
  induction n with
  | zero => rfl
  | succ n ih =>
    rw [List.range_succ, List.map_append, List.count_append, ih, Nat.count_succ]
    simp [List.count_cons]

/-- once round passes each item as often as the list has it -/
theorem visits_period (w : Wheel α) (a : α) : w.visits w.items.length a = w.items.count a := by
  -- both ways to walk from the first item to one round past this position
  let start : Wheel α := ⟨w.items, w.nonempty, 0⟩
  have hhere : start.skip w.position = w := by simp [start, skip]
  have hround : ∀ n, (start.skip w.items.length).visits n a = start.visits n a := by
    intro n
    simp [visits, peek, start, skip]
  have hfirst : start.visits w.items.length a = w.items.count a := by
    have hcount := count_map_range start.peek w.items.length a
    rwa [w.map_peek_start, eq_comm] at hcount
  have hways := start.visits_add w.position w.items.length a
  rw [Nat.add_comm, visits_add, hhere, hround, hfirst] at hways
  omega

/-! ## Searches -/

variable {p : α → Bool}

/-- what a search finds is what it passed of the accepted items -/
theorem find_spec (p : α → Bool) (k : ℕ) (w : Wheel α) : ∃ j, (w.find p k).2 = w.skip j ∧ (0 < k → 0 < j) ∧
    (∀ a, (w.find p k).1 = some a → p a ∧ a ∈ w.items) ∧
    ∀ a, p a → w.visits j a = if (w.find p k).1 = some a then 1 else 0 := by
  induction k generalizing w with
  | zero => exact ⟨0, rfl, by simp, by simp [find], by simp [find]⟩
  | succ k ih =>
    by_cases hp : p (w.peek 0)
    · have hfind : w.find p (k + 1) = (some (w.peek 0), w.skip 1) := by simp [find, next, hp]
      rw [hfind]
      refine ⟨1, rfl, by simp, ?_, ?_⟩
      · intro a ha
        obtain rfl := Option.some.inj ha
        exact ⟨hp, w.peek_mem 0⟩
      · intro a _
        simp [visits_one]
    · have hfind : w.find p (k + 1) = (w.skip 1).find p k := by simp [find, next, hp]
      obtain ⟨j, hj, -, hmem, hvisits⟩ := ih (w.skip 1)
      rw [hfind]
      refine ⟨1 + j, by rw [hj, skip_skip], by omega, hmem, ?_⟩
      intro a ha
      have hne : w.peek 0 ≠ a := by
        intro h
        exact hp (h ▸ ha)
      rw [visits_add, visits_one, if_neg hne, hvisits a ha, Nat.zero_add]

/-- what a number of searches find is what they passed of the accepted items; each passes at least one item -/
theorem finds_spec (p : α → Bool) {k : ℕ} (hk : 0 < k) (n : ℕ) (w : Wheel α) : ∃ j, (w.finds p k n).2 = w.skip j ∧ n ≤ j ∧
    ∀ a, p a → (w.finds p k n).1.count (some a) = w.visits j a := by
  induction n generalizing w with
  | zero => exact ⟨0, rfl, le_rfl, by simp [finds]⟩
  | succ n ih =>
    obtain ⟨i, hi, hpos, -, hvisits⟩ := find_spec p k w
    obtain ⟨j, hj, hle, hcount⟩ := ih (w.skip i)
    have hpos := hpos hk
    have hfinds : w.finds p k (n + 1) =
        ((w.find p k).1 :: ((w.skip i).finds p k n).1, ((w.skip i).finds p k n).2) := by rw [← hi]; rfl
    rw [hfinds]
    refine ⟨i + j, by rw [hj, skip_skip], by omega, ?_⟩
    intro a ha
    rw [List.count_cons, hcount a ha, visits_add, hvisits a ha, Nat.add_comm]
    simp

/-- **As many searches as the list is long find each accepted item at least as often as the list has it.** -/
theorem count_le_finds (p : α → Bool) {k : ℕ} (hk : 0 < k) (w : Wheel α) {a : α} (ha : p a) :
    w.items.count a ≤ (w.finds p k w.items.length).1.count (some a) := by
  obtain ⟨j, -, hle, hcount⟩ := finds_spec p hk w.items.length w
  calc
    w.items.count a = w.visits w.items.length a := (w.visits_period a).symm
    _ ≤ w.visits j a := w.visits_mono hle a
    _ = (w.finds p k w.items.length).1.count (some a) := (hcount a ha).symm

end Wheel

end AbirGuard.Core
