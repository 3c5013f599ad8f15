/-
A limit on how many times in a window are admitted.

The log holds admitted times. An arrival drops the ones that have left the window, is refused if as many as the limit are left,
and is logged otherwise.

- `live_after`: for readings that do not decrease, the log tells at each later time which admitted times are in the window.
- `countP_admitted_le`: no set of times that lie less than a window apart holds more admitted times than the limit.
- `refused_iff`: a refusal comes with exactly as many in the window before it.
-/
import Mathlib.Algebra.Order.Group.Defs
import Mathlib.Data.List.Induction
import Mathlib.Order.Lattice
import Mathlib.Tactic.Abel
import Mathlib.Tactic.Common

namespace AbirGuard.Core.SlidingWindow

/-! ## Admission -/

section Model

variable {T : Type} [LinearOrder T] [AddCommGroup T] (w : T) (limit : ℕ)

/-- the logged times that are still in the window -/
def live (now : T) (log : List T) : List T := log.filter fun t => now - w < t

/-- whether an arrival is admitted, and the log after it -/
def arrive (log : List T) (now : T) : Bool × List T :=
  if limit ≤ (live w now log).length then (false, live w now log) else (true, live w now log ++ [now])

def after (log times : List T) : List T := times.foldl (fun log now => (arrive w limit log now).2) log

/-- the times that are admitted -/
def admitted (log : List T) : List T → List T
  | [] => []
  | now :: times => (if (arrive w limit log now).1 then [now] else []) ++ admitted (arrive w limit log now).2 times

end Model

variable {T : Type} [LinearOrder T] [AddCommGroup T] {w : T} {limit : ℕ}

theorem after_snoc (log times : List T) (now : T) :
    after w limit log (times ++ [now]) = (arrive w limit (after w limit log times) now).2 := by
  rw [after, List.foldl_append]
  rfl

theorem admitted_append (log times times' : List T) : admitted w limit log (times ++ times') =
    admitted w limit log times ++ admitted w limit (after w limit log times) times' := by
  induction times generalizing log with
  | nil => rfl
  | cons now times ih => rw [List.cons_append, admitted, admitted, ih, List.append_assoc]; rfl

theorem admitted_snoc (log times : List T) (now : T) : admitted w limit log (times ++ [now]) =
    admitted w limit log times ++ if (arrive w limit (after w limit log times) now).1 then [now] else [] := by
  rw [admitted_append, admitted, admitted, List.append_nil]

/-- what an arrival does to the log: it is pruned, and the arrival is added if it is admitted -/
theorem arrive_snd (log : List T) (now : T) : (arrive w limit log now).2 =
    live w now log ++ if (arrive w limit log now).1 then [now] else [] := by
  rw [arrive]
  split_ifs <;> simp_all

theorem arrive_fst_iff {log : List T} {now : T} : (arrive w limit log now).1 = true ↔ (live w now log).length < limit := by
  rw [arrive]
  split_ifs with h
  · simp [h]
  · simp [Nat.lt_of_not_le h]

theorem length_live_le (now : T) (log : List T) : (live w now log).length ≤ log.length := List.length_filter_le _ _

theorem length_after_le (times : List T) : (after w limit [] times).length ≤ times.length := by
  induction times using List.reverseRecOn with
  | nil => exact Nat.zero_le _
  | append_singleton times now ih =>
    have hlive : (live w now (after w limit [] times)).length ≤ times.length := (length_live_le _ _).trans ih
    rw [after_snoc, arrive_snd, List.length_append, List.length_append]
    split_ifs
    · exact Nat.add_le_add_right hlive 1
    · exact Nat.add_le_add hlive (Nat.zero_le _)

/-- fewer arrivals than the limit are admitted, whenever they come -/
theorem admitted_of_few {times : List T} (h : times.length < limit) (now : T) :
    (arrive w limit (after w limit [] times) now).1 = true :=
  arrive_fst_iff.2 (((length_live_le _ _).trans (length_after_le times)).trans_lt h)

theorem mem_of_mem_admitted {log times : List T} {t : T} (h : t ∈ admitted w limit log times) : t ∈ times := by
  induction times generalizing log with
  | nil => cases h
  | cons now times ih =>
    rw [admitted, List.mem_append] at h
    rcases h with h | h
    · split_ifs at h
      · rw [List.mem_singleton.1 h]
        exact List.mem_cons_self
      · cases h
    · exact List.mem_cons_of_mem _ (ih h)

/-! ## Readings that do not decrease -/

variable [IsOrderedAddMonoid T]

/-- what is pruned now is out of every later window -/
theorem live_live {now later : T} (h : now ≤ later) (log : List T) : live w later (live w now log) = live w later log := by
  rw [live, live, live, List.filter_filter]
  refine List.filter_congr fun t _ => ?_
  have hcut : later - w < t → now - w < t := (sub_le_sub_right h w).trans_lt
  by_cases hlate : later - w < t
  · simp [hlate, hcut hlate]
  · simp [hlate]

/-- the log of a run tells which admitted times are in the window, at every time from its last reading on -/
theorem live_after {times : List T} (hsorted : times.Pairwise (· ≤ ·)) {now : T} (hnow : ∀ t ∈ times, t ≤ now) :
    live w now (after w limit [] times) = live w now (admitted w limit [] times) := by
  induction times using List.reverseRecOn generalizing now with
  | nil => rfl
  | append_singleton times last ih =>
    obtain ⟨hbefore, -, hlast⟩ := List.pairwise_append.1 hsorted
    have hle : last ≤ now := hnow last (by simp)
    have hkept : live w now (after w limit [] times) = live w now (admitted w limit [] times) :=
      ih hbefore fun t ht => hnow t (List.mem_append_left _ ht)
    rw [after_snoc, arrive_snd, admitted_snoc, live, List.filter_append, ← live, live_live hle, hkept, live, live,
      List.filter_append]

/-- **No set of times less than a window apart holds more admitted times than the limit.** -/
theorem countP_admitted_le {times : List T} (hsorted : times.Pairwise (· ≤ ·)) {I : T → Bool}
    (hshort : ∀ s t, I s → I t → t - w < s) : (admitted w limit [] times).countP I ≤ limit := by
  induction times using List.reverseRecOn with
  | nil => exact Nat.zero_le _
  | append_singleton times now ih =>
    obtain ⟨hbefore, -, hlast⟩ := List.pairwise_append.1 hsorted
    have hnow : ∀ t ∈ times, t ≤ now := fun t ht => hlast t ht now List.mem_cons_self
    rw [admitted_snoc]
    by_cases hnew : (arrive w limit (after w limit [] times) now).1 = true ∧ I now = true
    · -- those in the set are in the window of the new one, and there is room in it
      have hroom : (live w now (admitted w limit [] times)).length < limit := by
        rw [← live_after hbefore hnow]
        exact arrive_fst_iff.1 hnew.1
      have hcount : (admitted w limit [] times).countP I ≤ (live w now (admitted w limit [] times)).length := by
        rw [live, ← List.countP_eq_length_filter]
        exact List.countP_mono_left fun t _ ht => decide_eq_true (hshort t now ht hnew.2)
      rw [if_pos hnew.1, List.countP_append, List.countP_singleton, if_pos hnew.2]
      omega
    · have hnone : (if (arrive w limit (after w limit [] times) now).1 then [now] else []).countP I = 0 := by
        split_ifs with h
        · rw [List.countP_singleton, if_neg fun hI => hnew ⟨h, hI⟩]
        · rfl
      rw [List.countP_append, hnone, Nat.add_zero]
      exact ih hbefore

/-- the window before a time, that time included -/
def within (w now : T) (t : T) : Bool := now - w < t ∧ t ≤ now

theorem within_short (now : T) (s t : T) (hs : within w now s) (ht : within w now t) : t - w < s := by
  simp only [within, decide_eq_true_eq] at hs ht
  exact (sub_le_sub_right ht.2 w).trans_lt hs.1

/-- an interval as long as the window, without its right end -/
theorem ico_short (a s t : T) (hs : decide (a ≤ s ∧ s < a + w) = true) (ht : decide (a ≤ t ∧ t < a + w) = true) :
    t - w < s := by
  simp only [decide_eq_true_eq] at hs ht
  calc t - w < a := sub_lt_iff_lt_add.2 ht.2
    _ ≤ s := hs.1

/-- an interval as long as the window, without its left end -/
theorem ioc_short (a s t : T) (hs : decide (a < s ∧ s ≤ a + w) = true) (ht : decide (a < t ∧ t ≤ a + w) = true) :
    t - w < s := by
  simp only [decide_eq_true_eq] at hs ht
  calc t - w ≤ a := sub_le_iff_le_add.2 ht.2
    _ < s := hs.1

/-- **A refusal comes with a full window.** -/
theorem refused_iff {times : List T} {now : T} (hsorted : (times ++ [now]).Pairwise (· ≤ ·)) :
    (arrive w limit (after w limit [] times) now).1 = false ↔ (admitted w limit [] times).countP (within w now) = limit := by
  obtain ⟨hbefore, -, hlast⟩ := List.pairwise_append.1 hsorted
  have hnow : ∀ t ∈ times, t ≤ now := fun t ht => hlast t ht now List.mem_cons_self
  have hcount : (admitted w limit [] times).countP (within w now) = (live w now (after w limit [] times)).length := by
    rw [live_after hbefore hnow, live, ← List.countP_eq_length_filter]
    refine List.countP_congr fun t ht => ?_
    simp [within, hnow t (mem_of_mem_admitted ht)]
  have hle : (admitted w limit [] times).countP (within w now) ≤ limit := countP_admitted_le hbefore (within_short now)
  rw [← Bool.not_eq_true, arrive_fst_iff, ← hcount]
  omega

end AbirGuard.Core.SlidingWindow
