/-
Threads over a shared state, one atomic section at a time.

A thread that moves reads and writes the shared state and its own; a schedule is a list of the threads that move, each with
what its environment answers meanwhile. What a thread does alone and what it does among others are two readings of one
function (`exec`).

- `step_self`, `step_other`: a section changes its own thread and the shared state, and no other thread.
- `inv_step`: an invariant of the shared state together with assertions of the threads about it is kept by a section that
  keeps the first, establishes its own assertion, and does not interfere with those of the others.
- `alone_of_fixed`: a thread that has ended stays where it is.
-/
import AbirGuard.Core.Run

namespace AbirGuard.Core.Threads

variable {σ θ η τ : Type}

structure Sys (σ θ τ : Type) where
  shared : σ
  threads : τ → θ

variable (exec : η → σ → θ → θ × σ)

/-- n sections of one thread with nothing between them -/
def alone (a : η) : ℕ → θ × σ → θ × σ
  | 0, x => x
  | n + 1, x => alone a n (exec a x.2 x.1)

theorem alone_of_fixed {exec : η → σ → θ → θ × σ} {a : η} {t : θ} (h : ∀ v, exec a v t = (t, v)) (n : ℕ) (v : σ) :
    alone exec a n (t, v) = (t, v) := by
  induction n with
  | zero => rfl
  | succ n ih => rw [alone, h, ih]

variable [DecidableEq τ]

/-- the next section of a thread -/
def step (s : Sys σ θ τ) (a : τ × η) : Sys σ θ τ :=
  let (t, v) := exec a.2 s.shared (s.threads a.1)
  ⟨v, Function.update s.threads a.1 t⟩

variable {exec} {s : Sys σ θ τ} {a : τ × η}

@[simp] theorem step_shared : (step exec s a).shared = (exec a.2 s.shared (s.threads a.1)).2 := rfl

@[simp] theorem step_self : (step exec s a).threads a.1 = (exec a.2 s.shared (s.threads a.1)).1 := Function.update_self ..

theorem step_other {j : τ} (h : j ≠ a.1) : (step exec s a).threads j = s.threads j := Function.update_of_ne h ..

/-- the shared state is as it should be, and every thread's assertion about it holds -/
structure Inv (G : σ → Prop) (L : τ → σ → θ → Prop) (s : Sys σ θ τ) : Prop where
  shared : G s.shared
  thread : ∀ i, L i s.shared (s.threads i)

variable {G : σ → Prop} {L : τ → σ → θ → Prop}

theorem inv_step (hshared : G (step exec s a).shared) (hself : L a.1 (step exec s a).shared ((step exec s a).threads a.1))
    (hothers : ∀ j, j ≠ a.1 → L j (step exec s a).shared (s.threads j)) : Inv G L (step exec s a) := by
  refine ⟨hshared, fun j => ?_⟩
  by_cases h : j = a.1
  · rw [h]
    exact hself
  · rw [step_other h]
    exact hothers j h

end AbirGuard.Core.Threads
