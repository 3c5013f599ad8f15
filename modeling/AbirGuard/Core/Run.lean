/-
Runs of a deterministic machine: a step function, applied to the inputs of a list one after another.

- `after_sim`: a machine that follows another one through an abstraction of its states does so over every run.
- `EachStep`: a property of every step of a run, read at the state before the step.
- `always_iff`: what holds all along a run holds at its start and after each step.
- `EachStep.after`: what every good step keeps holds after a run of good steps.
- `good_or_dead`: where a bad step ends what every other step keeps, for good, the end of a run tells whether one was bad.
- `exists_first`: where a run first has a step with a property.
- `Once`: a property of some step of a run, read at the state before the step (`once_snoc`).
- `since_iff`: what a kind of step brings about and only another kind ends holds if and only if there was one of the first and
  none of the second since.
- `of_not_since`: what only one kind of step ends, and another kind brings about whenever it is not of the first, holds unless
  there was one of the first and none of the second since.
- `eachStep_iff`: two properties that agree under an invariant agree over runs, where the invariant need only survive the
  steps that have the property: up to the first bad step the invariant holds, and there both fail.
- `tokens_nodup`: where a step takes only a token not seen before and marks it as seen for good, no token is taken twice in a
  run.
-/
import Mathlib.Tactic

namespace AbirGuard.Core.Run

variable {σ α τ : Type} {step : σ → α → σ}

/-- the state after a run -/
def after (step : σ → α → σ) (s : σ) (run : List α) : σ := run.foldl step s

@[simp] theorem after_nil (s : σ) : after step s [] = s := rfl

@[simp] theorem after_cons (s : σ) (a : α) (run : List α) : after step s (a :: run) = after step (step s a) run := rfl

theorem after_append (s : σ) (run run' : List α) :
    after step s (run ++ run') = after step (after step s run) run' := List.foldl_append ..

/-- a simulation of steps is one of runs, over inputs for which the steps are simulated -/
theorem after_sim {step' : τ → α → τ} (φ : σ → τ) {run : List α}
    (h : ∀ a ∈ run, ∀ s, φ (step s a) = step' (φ s) a) (s : σ) : φ (after step s run) = after step' (φ s) run := by
  induction run generalizing s with
  | nil => rfl
  | cons a run ih =>
    rw [after_cons, after_cons, ih fun a ha => h a (List.mem_cons_of_mem _ ha), h a List.mem_cons_self]

/-- what each step of a run keeps, it keeps -/
theorem after_inv {Inv : σ → Prop} {run : List α} (h : ∀ a ∈ run, ∀ s, Inv s → Inv (step s a)) {s : σ} (hs : Inv s) :
    Inv (after step s run) := by
  induction run generalizing s with
  | nil => exact hs
  | cons a run ih => exact ih (fun a ha => h a (List.mem_cons_of_mem _ ha)) (h a List.mem_cons_self s hs)

/-- a property of every step of a run and the state before it -/
def EachStep (step : σ → α → σ) (P : σ → α → Prop) (s : σ) (run : List α) : Prop :=
  ∀ pre a post, run = pre ++ a :: post → P (after step s pre) a

variable {P Q : σ → α → Prop}

theorem eachStep_nil (s : σ) : EachStep step P s [] := by
  intro pre a post h
  simp at h

theorem eachStep_cons {s : σ} {a : α} {run : List α} :
    EachStep step P s (a :: run) ↔ P s a ∧ EachStep step P (step s a) run := by
  constructor
  · intro h
    refine ⟨h [] a run rfl, fun pre b post hrun => ?_⟩
    exact h (a :: pre) b post (by rw [hrun, List.cons_append])
  · rintro ⟨ha, h⟩ pre b post hrun
    cases pre with
    | nil =>
      rw [List.nil_append, List.cons.injEq] at hrun
      rw [← hrun.1]
      exact ha
    | cons c pre =>
      rw [List.cons_append, List.cons.injEq] at hrun
      rw [← hrun.1]
      exact h pre b post hrun.2

theorem eachStep_append {s : σ} {run run' : List α} :
    EachStep step P s (run ++ run') ↔ EachStep step P s run ∧ EachStep step P (after step s run) run' := by
  induction run generalizing s with
  | nil => exact (and_iff_right (eachStep_nil s)).symm
  | cons a run ih => rw [List.cons_append, eachStep_cons, eachStep_cons, ih, and_assoc, after_cons]

/-- a property holds all along a run if and only if it holds at its start and after each of its steps -/
theorem always_iff {I : σ → Prop} {s : σ} {run : List α} :
    (∀ pre post, run = pre ++ post → I (after step s pre)) ↔ I s ∧ EachStep step (fun s a => I (step s a)) s run := by
  constructor
  · intro h
    refine ⟨h [] run rfl, fun pre a post hrun => ?_⟩
    have hnext := h (pre ++ [a]) post (by rw [hrun, List.append_assoc]; rfl)
    rwa [after_append] at hnext
  · rintro ⟨hs, h⟩ pre post hrun
    induction pre using List.reverseRecOn generalizing post with
    | nil => exact hs
    | append_singleton pre a _ =>
      rw [after_append]
      exact h pre a post (by rw [hrun, List.append_assoc]; rfl)

/-- the steps of the beginning of a run are steps of the run -/
theorem EachStep.left {s : σ} {run run' : List α} (h : EachStep step P s (run ++ run')) : EachStep step P s run := by
  intro pre a post hrun
  exact h pre a (post ++ run') (by rw [hrun, List.append_assoc, List.cons_append])

theorem EachStep.after (Inv : σ → Prop) (hstep : ∀ s a, Inv s → P s a → Inv (step s a)) {s : σ} (hs : Inv s) {run : List α}
    (h : EachStep step P s run) : Inv (after step s run) := by
  induction run generalizing s with
  | nil => exact hs
  | cons a run ih =>
    obtain ⟨ha, h⟩ := eachStep_cons.1 h
    exact ih (hstep s a hs ha) h

theorem eachStep_iff (Inv : σ → Prop) {run : List α} (hPQ : ∀ a ∈ run, ∀ s, Inv s → (P s a ↔ Q s a))
    (hstep : ∀ a ∈ run, ∀ s, Inv s → Q s a → Inv (step s a)) {s : σ} (hs : Inv s) :
    EachStep step P s run ↔ EachStep step Q s run := by
  induction run generalizing s with
  | nil => exact iff_of_true (eachStep_nil s) (eachStep_nil s)
  | cons a run ih =>
    rw [eachStep_cons, eachStep_cons, hPQ a List.mem_cons_self s hs]
    refine and_congr_right fun hq => ?_
    exact ih (fun a ha => hPQ a (List.mem_cons_of_mem _ ha)) (fun a ha => hstep a (List.mem_cons_of_mem _ ha))
      (hstep a List.mem_cons_self s hs hq)

/-- a state is good until the first bad step, and dead from then on -/
theorem good_or_dead {Good Dead : σ → Prop} {run : List α} (hkeep : ∀ a ∈ run, ∀ s, Good s → ¬ P s a → Good (step s a))
    (hkill : ∀ a ∈ run, ∀ s, Good s → P s a → Dead (step s a)) (hdead : ∀ a ∈ run, ∀ s, Dead s → Dead (step s a)) {s : σ}
    (hs : Good s) : Good (after step s run) ∧ EachStep step (fun s a => ¬ P s a) s run ∨
      Dead (after step s run) ∧ ¬ EachStep step (fun s a => ¬ P s a) s run := by
  induction run generalizing s with
  | nil => exact Or.inl ⟨hs, eachStep_nil s⟩
  | cons a run ih =>
    have htail : ∀ b ∈ run, b ∈ a :: run := fun b hb => List.mem_cons_of_mem _ hb
    rw [after_cons, eachStep_cons]
    by_cases ha : P s a
    · refine Or.inr ⟨?_, fun h => h.1 ha⟩
      exact after_inv (fun b hb => hdead b (htail b hb)) (hkill a List.mem_cons_self s hs ha)
    · rcases ih (fun b hb => hkeep b (htail b hb)) (fun b hb => hkill b (htail b hb)) (fun b hb => hdead b (htail b hb))
        (hkeep a List.mem_cons_self s hs ha) with ⟨hgood, h⟩ | ⟨hdead, h⟩
      · exact Or.inl ⟨hgood, ha, h⟩
      · exact Or.inr ⟨hdead, fun h' => h h'.2⟩

/-- a run up to its first step with a property, and from it on -/
theorem exists_first (step : σ → α → σ) (P : σ → α → Prop) (s : σ) (run : List α) :
    ∃ first later, run = first ++ later ∧ EachStep step (fun s a => ¬ P s a) s first ∧
      ∀ a rest, later = a :: rest → P (after step s first) a := by
  induction run generalizing s with
  | nil => exact ⟨[], [], rfl, eachStep_nil s, fun a rest h => by cases h⟩
  | cons a run ih =>
    by_cases ha : P s a
    · refine ⟨[], a :: run, rfl, eachStep_nil s, fun b rest h => ?_⟩
      cases h
      exact ha
    · obtain ⟨first, later, rfl, hfirst, hlater⟩ := ih (step s a)
      exact ⟨a :: first, later, rfl, eachStep_cons.2 ⟨ha, hfirst⟩, hlater⟩

/-- a property of some step of a run and the state before it -/
def Once (step : σ → α → σ) (P : σ → α → Prop) (s : σ) (run : List α) : Prop :=
  ∃ pre a post, run = pre ++ a :: post ∧ P (after step s pre) a

theorem not_once_nil (s : σ) : ¬ Once step P s [] := by
  rintro ⟨pre, a, post, h, -⟩
  simp at h

theorem once_cons {s : σ} {a : α} {run : List α} : Once step P s (a :: run) ↔ P s a ∨ Once step P (step s a) run := by
  constructor
  · rintro ⟨pre, b, post, hrun, hP⟩
    cases pre with
    | nil =>
      cases hrun
      exact Or.inl hP
    | cons c pre =>
      cases hrun
      exact Or.inr ⟨pre, b, post, rfl, hP⟩
  · rintro (hP | ⟨pre, b, post, rfl, hP⟩)
    · exact ⟨[], a, run, rfl, hP⟩
    · exact ⟨a :: pre, b, post, rfl, hP⟩

theorem once_snoc {s : σ} {run : List α} {a : α} :
    Once step P s (run ++ [a]) ↔ Once step P s run ∨ P (after step s run) a := by
  constructor
  · rintro ⟨pre, c, post, hrun, hP⟩
    rcases List.eq_nil_or_concat post with rfl | ⟨post, d, rfl⟩
    · obtain ⟨rfl, hca⟩ := List.append_inj' hrun rfl
      cases hca
      exact Or.inr hP
    · rw [List.concat_eq_append, ← List.cons_append, ← List.append_assoc] at hrun
      obtain ⟨rfl, -⟩ := List.append_inj' hrun rfl
      exact Or.inl ⟨pre, c, post, rfl, hP⟩
  · rintro (⟨pre, c, post, rfl, hP⟩ | hP)
    · exact ⟨pre, c, post ++ [a], by rw [List.append_assoc]; rfl, hP⟩
    · exact ⟨run, a, [], rfl, hP⟩

theorem Once.append {s : σ} {run : List α} (h : Once step P s run) (run' : List α) : Once step P s (run ++ run') := by
  obtain ⟨pre, a, post, rfl, hP⟩ := h
  exact ⟨pre, a, post ++ run', by rw [List.append_assoc]; rfl, hP⟩

/-- some step of a run was an A, and no later one was a B -/
def Since (step : σ → α → σ) (A B : σ → α → Prop) (s : σ) (run : List α) : Prop :=
  ∃ pre a post, run = pre ++ a :: post ∧ A (after step s pre) a ∧
    ∀ mid b post', post = mid ++ b :: post' → ¬ B (after step s (pre ++ a :: mid)) b

variable {A B : σ → α → Prop}

theorem EachStep.not_since {s : σ} {run : List α} (h : EachStep step (fun s a => ¬ A s a) s run) : ¬ Since step A B s run := by
  intro ⟨pre, a, post, hrun, hA, _⟩
  exact h pre a post hrun hA

theorem since_snoc {s : σ} {run : List α} {a : α} :
    Since step A B s (run ++ [a]) ↔ A (after step s run) a ∨ Since step A B s run ∧ ¬ B (after step s run) a := by
  constructor
  · rintro ⟨pre, c, post, hrun, hA, hB⟩
    rcases List.eq_nil_or_concat post with rfl | ⟨post, d, rfl⟩
    · obtain ⟨rfl, hca⟩ := List.append_inj' hrun rfl
      cases hca
      exact Or.inl hA
    · rw [List.concat_eq_append, ← List.cons_append, ← List.append_assoc] at hrun
      obtain ⟨rfl, had⟩ := List.append_inj' hrun rfl
      cases had
      rw [List.concat_eq_append] at hB
      exact Or.inr ⟨⟨pre, c, post, rfl, hA, fun mid b post' h => hB mid b (post' ++ [a]) (by rw [h, List.append_assoc]; rfl)⟩,
        hB post a [] rfl⟩
  · rintro (hA | ⟨⟨pre, c, post, rfl, hA, hB⟩, hlast⟩)
    · exact ⟨run, a, [], rfl, hA, fun mid b post' h => by simp at h⟩
    · refine ⟨pre, c, post ++ [a], by rw [List.append_assoc]; rfl, hA, fun mid b post' h => ?_⟩
      rcases List.eq_nil_or_concat post' with rfl | ⟨post', d, rfl⟩
      · obtain ⟨rfl, hab⟩ := List.append_inj' h rfl
        cases hab
        exact hlast
      · rw [List.concat_eq_append, ← List.cons_append, ← List.append_assoc] at h
        obtain ⟨rfl, -⟩ := List.append_inj' h rfl
        exact hB mid b post' rfl

/-- a property that an A brings about and only a B ends holds after a run if and only if there was an A and no B since -/
theorem since_iff (Inv P : σ → Prop) (hinv : ∀ s a, Inv s → Inv (step s a))
    (hstep : ∀ s a, Inv s → (P (step s a) ↔ A s a ∨ P s ∧ ¬ B s a)) {s : σ} (hs : Inv s) (hP : ¬ P s) (run : List α) :
    P (after step s run) ↔ Since step A B s run := by
  induction run using List.reverseRecOn with
  | nil =>
    refine iff_of_false hP ?_
    rintro ⟨pre, a, post, h, -⟩
    simp at h
  | append_singleton run a ih =>
    have hrun : Inv (after step s run) := after_inv (fun a _ s => hinv s a) hs
    rw [since_snoc, after_append, ← ih]
    exact hstep _ a hrun

/-- a property that only an A ends, and that a B which is no A brings about, holds after a run with no A since the last B -/
theorem of_not_since (Inv P : σ → Prop) (hinv : ∀ s a, Inv s → Inv (step s a))
    (hkeep : ∀ s a, Inv s → P s → ¬ A s a → P (step s a)) (hrepair : ∀ s a, Inv s → B s a → ¬ A s a → P (step s a)) {s : σ}
    (hs : Inv s) (hP : P s) {run : List α} (h : ¬ Since step A B s run) : P (after step s run) := by
  induction run using List.reverseRecOn with
  | nil => exact hP
  | append_singleton run a ih =>
    have hrun : Inv (after step s run) := after_inv (fun a _ s => hinv s a) hs
    rw [since_snoc, not_or] at h
    obtain ⟨hA, hsince⟩ := h
    rw [after_append]
    by_cases hB : B (after step s run) a
    · exact hrepair _ a hrun hB hA
    · exact hkeep _ a hrun (ih fun h => hsince ⟨h, hB⟩) hA

/-! ## Tokens that are taken once -/

variable {κ : Type}

/-- the tokens that the steps of a run take, in order -/
def tokens (step : σ → α → σ) (token : σ → α → Option κ) (s : σ) : List α → List κ
  | [] => []
  | a :: run => (token s a).toList ++ tokens step token (step s a) run

theorem tokens_snoc {token : σ → α → Option κ} (s : σ) (run : List α) (a : α) :
    tokens step token s (run ++ [a]) = tokens step token s run ++ (token (after step s run) a).toList := by
  induction run generalizing s with
  | nil => simp [tokens]
  | cons b run ih => rw [List.cons_append, tokens, tokens, ih, after_cons, List.append_assoc]

/-- a step takes only a token not seen before, and what it has seen a machine never forgets -/
structure TakesOnce (step : σ → α → σ) (token : σ → α → Option κ) (seen : σ → Set κ) : Prop where
  fresh : ∀ s a k, token s a = some k → k ∉ seen s
  marked : ∀ s a k, token s a = some k → k ∈ seen (step s a)
  kept : ∀ s a, seen s ⊆ seen (step s a)

variable {token : σ → α → Option κ} {seen : σ → Set κ}

theorem TakesOnce.kept_run (h : TakesOnce step token seen) (s : σ) (run : List α) : seen s ⊆ seen (after step s run) := by
  induction run generalizing s with
  | nil => exact subset_rfl
  | cons a run ih => exact (h.kept s a).trans (ih (step s a))

theorem TakesOnce.tokens_fresh (h : TakesOnce step token seen) {s : σ} {run : List α} {k : κ}
    (hk : k ∈ tokens step token s run) : k ∉ seen s := by
  induction run generalizing s with
  | nil => simp [tokens] at hk
  | cons a run ih =>
    rw [tokens, List.mem_append, Option.mem_toList] at hk
    rcases hk with hk | hk
    · exact h.fresh s a k hk
    · exact fun hs => ih hk (h.kept s a hs)

theorem TakesOnce.tokens_nodup (h : TakesOnce step token seen) (s : σ) (run : List α) : (tokens step token s run).Nodup := by
  induction run generalizing s with
  | nil => simp [tokens]
  | cons a run ih =>
    rw [tokens]
    cases ha : token s a with
    | none => exact ih (step s a)
    | some k =>
      -- the token just taken is seen from here on, and what follows takes only unseen ones
      refine List.nodup_cons.2 ⟨fun hk => ?_, ih (step s a)⟩
      exact h.tokens_fresh hk (h.marked s a k ha)

end AbirGuard.Core.Run
