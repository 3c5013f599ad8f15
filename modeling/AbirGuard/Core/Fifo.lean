/-
A bounded map that evicts its oldest entry: a finite map together with a queue of its keys.

- `Tracks`: the queue holds every key of the map once and no other key; one lemma for each way to change both.
- `card_of_tracks`: the map has as many entries as the queue.
- `Aged`: along the queue, keys are in the order of their latest insertion, read off the list of all insertions so far.
- `Aged.head_oldest`: the key at the head of the queue was inserted before every other key in it.
-/
import Mathlib.Data.Finmap
import Mathlib.Tactic.Common

namespace AbirGuard.Core.Fifo

variable {κ ν : Type}

/-! ## Queue and map -/

structure Tracks (order : List κ) (m : Finmap fun _ : κ => ν) : Prop where
  nodup : order.Nodup
  mem_iff : ∀ k, k ∈ order ↔ k ∈ m

variable {order : List κ} {m : Finmap fun _ : κ => ν} {k : κ} {v : ν}

theorem tracks_empty : Tracks ([] : List κ) (∅ : Finmap fun _ : κ => ν) := ⟨List.nodup_nil, by simp [Finmap.notMem_empty]⟩

variable [DecidableEq κ]

theorem card_of_tracks (h : Tracks order m) : m.keys.card = order.length := by
  have hkeys : m.keys = order.toFinset := by
    ext k
    rw [Finmap.mem_keys, List.mem_toFinset, h.mem_iff]
  rw [hkeys, List.toFinset_card_of_nodup h.nodup]

/-- a present key is given another value -/
theorem Tracks.update (h : Tracks order m) (hk : k ∈ m) : Tracks order (m.insert k v) := by
  refine ⟨h.nodup, fun k' => ?_⟩
  rw [h.mem_iff, Finmap.mem_insert]
  constructor
  · exact Or.inr
  · rintro (rfl | hk')
    · exact hk
    · exact hk'

/-- a new key goes to the back -/
theorem Tracks.push (h : Tracks order m) (hk : k ∉ m) : Tracks (order ++ [k]) (m.insert k v) := by
  have hnew : k ∉ order := fun hin => hk ((h.mem_iff k).1 hin)
  refine ⟨?_, fun k' => ?_⟩
  · simpa [List.nodup_append, h.nodup] using fun a ha => ne_of_mem_of_not_mem ha hnew
  · rw [List.mem_append, List.mem_singleton, h.mem_iff, Finmap.mem_insert, or_comm]

/-- the key at the front goes -/
theorem Tracks.pop (h : Tracks (k :: order) m) : Tracks order (m.erase k) := by
  obtain ⟨hnew, hnodup⟩ := List.nodup_cons.1 h.nodup
  refine ⟨hnodup, fun k' => ?_⟩
  rw [Finmap.mem_erase, ← h.mem_iff, List.mem_cons]
  constructor
  · intro hk'
    exact ⟨ne_of_mem_of_not_mem hk' hnew, Or.inr hk'⟩
  · rintro ⟨hne, rfl | hk'⟩
    · exact absurd rfl hne
    · exact hk'

/-- a key goes, wherever it is -/
theorem Tracks.remove (h : Tracks order m) : Tracks (order.filter (· ≠ k)) (m.erase k) := by
  refine ⟨h.nodup.filter _, fun k' => ?_⟩
  simp [Finmap.mem_erase, ← h.mem_iff, and_comm]

/-! ## Age -/

/-- every key of the queue was inserted, and each later than the one before it. The history lists all insertions, the latest
first: the larger the index of a key in it, the longer ago it was inserted. -/
structure Aged (history order : List κ) : Prop where
  inserted : ∀ k ∈ order, k ∈ history
  sorted : order.Pairwise fun k k' => history.idxOf k' < history.idxOf k

variable {history : List κ}

theorem aged_nil : Aged history ([] : List κ) := ⟨by simp, List.Pairwise.nil⟩

theorem Aged.sublist {order' : List κ} (h : Aged history order) (hs : List.Sublist order' order) : Aged history order' :=
  ⟨fun k hk => h.inserted k (hs.subset hk), h.sorted.sublist hs⟩

/-- a new key at the back is the latest insertion -/
theorem Aged.push (h : Aged history order) (hk : k ∉ order) : Aged (k :: history) (order ++ [k]) := by
  have hlater : ∀ a ∈ order, (k :: history).idxOf a = history.idxOf a + 1 := fun a ha =>
    List.idxOf_cons_ne _ (ne_of_mem_of_not_mem ha hk).symm
  refine ⟨fun a ha => ?_, ?_⟩
  · rw [List.mem_append, List.mem_singleton] at ha
    rcases ha with ha | rfl
    · exact List.mem_cons_of_mem _ (h.inserted a ha)
    · exact List.mem_cons_self
  · rw [List.pairwise_append]
    refine ⟨?_, List.pairwise_singleton _ _, fun a ha b hb => ?_⟩
    · refine h.sorted.imp_of_mem fun {a b} ha hb hlt => ?_
      rw [hlater a ha, hlater b hb]
      omega
    · rw [List.mem_singleton.1 hb, hlater a ha, List.idxOf_cons_self]
      omega

theorem Aged.head_oldest (h : Aged history (k :: order)) {k' : κ} (hk' : k' ∈ k :: order) (hne : k' ≠ k) :
    history.idxOf k' < history.idxOf k := by
  rcases List.mem_cons.1 hk' with rfl | hk'
  · exact absurd rfl hne
  · exact (List.pairwise_cons.1 h.sorted).1 k' hk'

end AbirGuard.Core.Fifo
