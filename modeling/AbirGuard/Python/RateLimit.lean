/-
How many requests does the rate limiter let through?

`RateLimiter.is_allowed` keeps for each address the times of the requests that it allowed in the last window. A run is a list of
calls, each with the reading of the clock and the address; the readings do not decrease, and nothing is reset.

- `log_after`, `allowed_eq`: for each address the limiter is a sliding window over the calls for that address.
- `countP_allowed_le`, `not_isAllowed_iff`, `answers_filter`: the bound, the refusals, and the independence of other addresses.
- `isAllowed_of_few`: fewer calls than the limit are allowed, whenever they come.
- `rate_limit_exact`: the three together, for every limit, window and run.
-/
import AbirGuard.Core.Run
import AbirGuard.Core.SlidingWindow
import AbirGuard.Python.McpHttp
import Mathlib.Tactic.Linarith

namespace AbirGuard.Python.RateLimiter

open AbirGuard.Core

/-! ## Runs -/

/-- a call: the reading of the clock, and the address -/
abbrev Arrival : Type := ℚ × Text

def step (r : RateLimiter) (c : Arrival) : RateLimiter := (r.isAllowed c.1 c.2).2

/-- the times of the calls for an address that a run allows -/
def allowed (ip : Text) (r : RateLimiter) : List Arrival → List ℚ
  | [] => []
  | c :: run => (if c.2 = ip ∧ (r.isAllowed c.1 c.2).1.1 then [c.1] else []) ++ allowed ip (step r c) run

/-- what a run answers to the calls for an address -/
def answers (ip : Text) (r : RateLimiter) : List Arrival → List (Bool × ℤ)
  | [] => []
  | c :: run => (if c.2 = ip then [(r.isAllowed c.1 c.2).1] else []) ++ answers ip (step r c) run

/-- the readings of the clock do not decrease -/
def Clocked (run : List Arrival) : Prop := (run.map Prod.fst).Pairwise (· ≤ ·)

/-- the readings for an address -/
def timesOf (ip : Text) (run : List Arrival) : List ℚ := (run.filter fun c => c.2 = ip).map Prod.fst

/-! ## One address -/

/-- the times that are kept for an address -/
def log (r : RateLimiter) (ip : Text) : List ℚ := (r.requests.get ip).getD []

/-- the limit, as a number of calls -/
def limit (r : RateLimiter) : ℕ := r.maxRequests.toNat

/-- the check of the count, where a limit below zero counts as zero -/
theorem maxRequests_le_iff (r : RateLimiter) (n : ℕ) : r.maxRequests ≤ n ↔ r.limit ≤ n := Int.toNat_le.symm

/-- a call is an arrival in the sliding window of its address -/
theorem isAllowed_eq (now : ℚ) (ip : Text) (r : RateLimiter) : r.isAllowed now ip =
    (if (SlidingWindow.arrive (r.window : ℚ) r.limit (r.log ip) now).1 then
      (true, r.maxRequests - (SlidingWindow.live (r.window : ℚ) now (r.log ip)).length - 1)
    else (false, 0),
    { r with requests := r.requests.set ip (SlidingWindow.arrive (r.window : ℚ) r.limit (r.log ip) now).2 }) := by
  have hkept : ((r.requests.get ip).getD []).filter (fun t => now - (r.window : ℚ) < t) =
      SlidingWindow.live (r.window : ℚ) now (r.log ip) := rfl
  simp only [isAllowed, SlidingWindow.arrive, maxRequests_le_iff, hkept]
  by_cases hfull : r.limit ≤ (SlidingWindow.live (r.window : ℚ) now (r.log ip)).length
  · simp [hfull]
  · simp [hfull]

theorem isAllowed_iff (now : ℚ) (ip : Text) (r : RateLimiter) :
    (r.isAllowed now ip).1.1 = (SlidingWindow.arrive (r.window : ℚ) r.limit (r.log ip) now).1 := by
  rw [isAllowed_eq]
  split_ifs with h
  · exact h.symm
  · exact (Bool.eq_false_of_not_eq_true h).symm

theorem step_eq (r : RateLimiter) (c : Arrival) : step r c =
    { r with requests := r.requests.set c.2 (SlidingWindow.arrive (r.window : ℚ) r.limit (r.log c.2) c.1).2 } := by
  rw [step, isAllowed_eq]

/-- a call changes the log of its own address only -/
theorem log_step (r : RateLimiter) (c : Arrival) (ip : Text) : (step r c).log ip =
    if c.2 = ip then (SlidingWindow.arrive (r.window : ℚ) r.limit (r.log ip) c.1).2 else r.log ip := by
  rw [step_eq, log]
  split_ifs with h
  · rw [← h, Dict.get_set_self]
    rfl
  · rw [Dict.get_set_of_ne h]
    rfl

@[simp] theorem window_step (r : RateLimiter) (c : Arrival) : (step r c).window = r.window := by rw [step_eq]

@[simp] theorem limit_step (r : RateLimiter) (c : Arrival) : (step r c).limit = r.limit := by
  rw [step_eq]
  rfl

@[simp] theorem maxRequests_step (r : RateLimiter) (c : Arrival) : (step r c).maxRequests = r.maxRequests := by rw [step_eq]

/-! ## Runs as sliding windows -/

theorem timesOf_cons (ip : Text) (c : Arrival) (run : List Arrival) :
    timesOf ip (c :: run) = if c.2 = ip then c.1 :: timesOf ip run else timesOf ip run := by
  rw [timesOf, List.filter_cons]
  split_ifs <;> simp_all [timesOf]

theorem window_after (r : RateLimiter) (run : List Arrival) : (Run.after step r run).window = r.window :=
  Run.after_inv (fun c _ s h => (window_step s c).trans h) rfl

theorem limit_after (r : RateLimiter) (run : List Arrival) : (Run.after step r run).limit = r.limit :=
  Run.after_inv (fun c _ s h => (limit_step s c).trans h) rfl

theorem log_after (r : RateLimiter) (run : List Arrival) (ip : Text) : (Run.after step r run).log ip =
    SlidingWindow.after (r.window : ℚ) r.limit (r.log ip) (timesOf ip run) := by
  induction run generalizing r with
  | nil => rfl
  | cons c run ih =>
    rw [Run.after_cons, ih, window_step, limit_step, log_step, timesOf_cons]
    split_ifs <;> rfl

theorem allowed_eq (r : RateLimiter) (run : List Arrival) (ip : Text) : allowed ip r run =
    SlidingWindow.admitted (r.window : ℚ) r.limit (r.log ip) (timesOf ip run) := by
  induction run generalizing r with
  | nil => rfl
  | cons c run ih =>
    rw [allowed, ih, window_step, limit_step, log_step, timesOf_cons]
    by_cases hip : c.2 = ip
    · rw [if_pos hip, if_pos hip, SlidingWindow.admitted, isAllowed_iff, hip]
      simp
    · rw [if_neg hip, if_neg hip, if_neg fun h => hip h.1, List.nil_append]

theorem Clocked.left {run run' : List Arrival} (h : Clocked (run ++ run')) : Clocked run := by
  rw [Clocked, List.map_append] at h
  exact (List.pairwise_append.1 h).1

/-- the readings for an address do not decrease either -/
theorem Clocked.timesOf {run : List Arrival} (h : Clocked run) (ip : Text) : (timesOf ip run).Pairwise (· ≤ ·) :=
  h.sublist (List.filter_sublist.map Prod.fst)

theorem timesOf_append (ip : Text) (run run' : List Arrival) : timesOf ip (run ++ run') = timesOf ip run ++ timesOf ip run' := by
  rw [timesOf, List.filter_append, List.map_append]
  rfl

theorem length_timesOf_le (ip : Text) (run : List Arrival) : (timesOf ip run).length ≤ run.length := by
  rw [timesOf, List.length_map]
  exact List.length_filter_le _ _

theorem timesOf_eq_nil {ip : Text} {run : List Arrival} (h : ∀ c ∈ run, c.2 ≠ ip) : timesOf ip run = [] := by
  rw [timesOf, List.filter_eq_nil_iff.2 fun c hc => by simpa using h c hc]
  rfl

/-! ## The limit -/

variable (maxRequests window : ℤ)

theorem log_new (ip : Text) : (new maxRequests window).log ip = [] := rfl

theorem limit_new : ((new maxRequests window).limit : ℤ) = max maxRequests 0 := Int.toNat_eq_max maxRequests

/-- no set of times less than a window apart holds more allowed calls for an address than the limit -/
theorem countP_allowed_le {run : List Arrival} (hclock : Clocked run) (ip : Text) {I : ℚ → Bool}
    (hshort : ∀ s t, I s → I t → t - window < s) :
    (((allowed ip (new maxRequests window) run).countP I : ℕ) : ℤ) ≤ max maxRequests 0 := by
  rw [← limit_new maxRequests window, allowed_eq, log_new]
  exact Int.ofNat_le.2 (SlidingWindow.countP_admitted_le (hclock.timesOf ip) hshort)

/-- a call is refused if and only if as many calls as the limit were allowed in the window before it -/
theorem not_isAllowed_iff {pre : List Arrival} {now : ℚ} {ip : Text} (hclock : Clocked (pre ++ [(now, ip)])) :
    ((Run.after step (new maxRequests window) pre).isAllowed now ip).1.1 = false ↔
      (((allowed ip (new maxRequests window) pre).countP fun t => now - window < t ∧ t ≤ now : ℕ) : ℤ) = max maxRequests 0 := by
  have hsorted : (timesOf ip pre ++ [now]).Pairwise (· ≤ ·) := by
    have h := hclock.timesOf ip
    rwa [timesOf_append, timesOf_cons, if_pos rfl] at h
  rw [isAllowed_iff, window_after, limit_after, log_after, allowed_eq, log_new, ← limit_new maxRequests window, Int.ofNat_inj]
  exact SlidingWindow.refused_iff hsorted

/-- a call for an address that fewer calls than the limit were for is allowed -/
theorem isAllowed_of_few {pre : List Arrival} {ip : Text} (h : ((timesOf ip pre).length : ℤ) < maxRequests) (now : ℚ) :
    ((Run.after step (new maxRequests window) pre).isAllowed now ip).1.1 = true := by
  rw [isAllowed_iff, window_after, limit_after, log_after, log_new]
  exact SlidingWindow.admitted_of_few (Int.lt_toNat.2 h) now

/-- a limiter with no limit above zero allows nothing -/
theorem isAllowed_of_nonpos {r : RateLimiter} (h : r.maxRequests ≤ 0) (now : ℚ) (ip : Text) :
    (r.isAllowed now ip).1.1 = false := by
  rw [isAllowed_iff, ← Bool.not_eq_true, SlidingWindow.arrive_fst_iff, limit, Int.toNat_of_nonpos h]
  exact Nat.not_lt_zero _

/-! ## Other addresses -/

theorem isAllowed_congr {r r' : RateLimiter} {ip : Text} (hlog : r.log ip = r'.log ip) (hmax : r.maxRequests = r'.maxRequests)
    (hwindow : r.window = r'.window) (now : ℚ) : (r.isAllowed now ip).1 = (r'.isAllowed now ip).1 := by
  rw [isAllowed_eq, isAllowed_eq, limit, limit, hlog, hmax, hwindow]

theorem answers_filter (ip : Text) (r : RateLimiter) (run : List Arrival) :
    answers ip r run = answers ip r (run.filter fun c => c.2 = ip) := by
  suffices h : ∀ r' : RateLimiter, r.log ip = r'.log ip → r.maxRequests = r'.maxRequests → r.window = r'.window →
      answers ip r run = answers ip r' (run.filter fun c => c.2 = ip) from h r rfl rfl rfl
  induction run generalizing r with
  | nil =>
    intro r' _ _ _
    rfl
  | cons c run ih =>
    intro r' hlog hmax hwindow
    by_cases hip : c.2 = ip
    · have hkeep : (c :: run).filter (fun c => c.2 = ip) = c :: run.filter fun c => c.2 = ip :=
        List.filter_cons_of_pos (decide_eq_true hip)
      rw [hkeep, answers, answers, if_pos hip, if_pos hip, hip, isAllowed_congr hlog hmax hwindow]
      refine congrArg _ (ih _ _ ?_ ?_ ?_)
      · rw [log_step, log_step, if_pos hip, if_pos hip, limit, limit, hlog, hmax, hwindow]
      · rw [maxRequests_step, maxRequests_step, hmax]
      · rw [window_step, window_step, hwindow]
    · have hdrop : (c :: run).filter (fun c => c.2 = ip) = run.filter fun c => c.2 = ip :=
        List.filter_cons_of_neg (by simpa using hip)
      rw [hdrop, answers, if_neg hip, List.nil_append]
      refine ih _ _ ?_ ?_ ?_
      · rw [log_step, if_neg hip, hlog]
      · rw [maxRequests_step, hmax]
      · rw [window_step, hwindow]

/-! ## The result -/

/-- **Rate limiting is exact for each address**: in no half-open interval as long as the window are more calls allowed than the
limit, where a limit below zero counts as zero; a call is refused if and only if that many were allowed in the window before it;
and the answers for an address are those of the run that has its calls alone. -/
theorem rate_limit_exact (maxRequests window : ℤ) (run : List Arrival) (hclock : Clocked run) :
    (∀ (ip : Text) (a : ℚ),
      (((allowed ip (new maxRequests window) run).countP fun t => a ≤ t ∧ t < a + window : ℕ) : ℤ) ≤ max maxRequests 0 ∧
      (((allowed ip (new maxRequests window) run).countP fun t => a < t ∧ t ≤ a + window : ℕ) : ℤ) ≤ max maxRequests 0) ∧
    (∀ pre now ip post, run = pre ++ (now, ip) :: post →
      (((Run.after step (new maxRequests window) pre).isAllowed now ip).1.1 = false ↔
        (((allowed ip (new maxRequests window) pre).countP fun t => now - window < t ∧ t ≤ now : ℕ) : ℤ) =
          max maxRequests 0)) ∧
    ∀ ip, answers ip (new maxRequests window) run = answers ip (new maxRequests window) (run.filter fun c => c.2 = ip) := by
  refine ⟨fun ip a => ⟨?_, ?_⟩, fun pre now ip post hrun => ?_, fun ip => answers_filter ip _ run⟩
  · exact countP_allowed_le maxRequests window hclock ip (SlidingWindow.ico_short a)
  · exact countP_allowed_le maxRequests window hclock ip (SlidingWindow.ioc_short a)
  · apply not_isAllowed_iff
    rw [hrun, ← List.singleton_append, ← List.append_assoc] at hclock
    exact hclock.left

theorem rate_limit_exact_twice :
    ((Run.after step (new 1 60) [(0, "::1")]).isAllowed 30 "::1").1.1 = false ∧
    (((allowed "::1" (new 1 60) [(0, "::1"), (30, "::1")]).countP fun t => 0 ≤ t ∧ t < 0 + ((60 : ℤ) : ℚ) : ℕ) : ℤ) ≤ 1 := by
  have hexact := rate_limit_exact 1 60 [(0, "::1"), (30, "::1")] (by simp [Clocked])
  exact ⟨(hexact.2.1 [(0, "::1")] 30 "::1" [] rfl).2 (by decide +kernel), (hexact.1 "::1" 0).1⟩

/-- a limiter with the limit −1 allows no call, which is one more than −1 -/
theorem negative_limit :
    ¬ (((allowed "::1" (new (-1) 60) [(0, "::1")]).countP fun t => 0 ≤ t ∧ t < 0 + ((60 : ℤ) : ℚ) : ℕ) : ℤ) ≤ -1 := by
  intro h
  exact absurd (Int.natCast_nonneg _) (not_le_of_gt (lt_of_le_of_lt h (by decide)))

end AbirGuard.Python.RateLimiter
