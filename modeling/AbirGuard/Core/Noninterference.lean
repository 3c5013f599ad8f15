/-
Inputs that nobody notices.

Of the inputs of a machine some are hidden. A relation between states says that they are alike for whoever gives the others and
sees what those are answered.

- `Unwinding`: a hidden input of the one machine keeps the states alike; another input, given to both, does too, and gets the same
  answer.
- `Unwinding.after`, `Unwinding.outputs`: then a run and the run without its hidden inputs end alike, and the other inputs get the
  same answers in both.
- `outputs_sim`: a machine that simulates another one gives the same answers in every run.
- `Alike R x`: from states that are alike the program x ends in the same way and leaves states that are alike; one rule for each
  way to build a program.
-/
import AbirGuard.Core.Raise
import AbirGuard.Core.Run

namespace AbirGuard.Core

/-! ## Runs -/

section Unwinding

variable {σ α o : Type} (step : σ → α → σ) (out : σ → α → o) (visible : α → Bool)

/-- what the visible inputs of a run are answered -/
def outputs (s : σ) : List α → List o
  | [] => []
  | a :: run => (if visible a then [out s a] else []) ++ outputs (step s a) run

/-- for inputs of a kind: hidden ones keep states alike, and visible ones do so and are answered alike -/
structure Unwinding (kind : α → Prop) (R : σ → σ → Prop) : Prop where
  hidden : ∀ s t a, kind a → visible a = false → R s t → R (step s a) t
  visible : ∀ s t a, visible a = true → R s t → out s a = out t a ∧ R (step s a) (step t a)

namespace Unwinding

variable {step out visible} {kind : α → Prop} {R : σ → σ → Prop}

theorem after (h : Unwinding step out visible kind R) {run : List α} (hkind : ∀ a ∈ run, kind a) {s t : σ} (hst : R s t) :
    R (Run.after step s run) (Run.after step t (run.filter visible)) := by
  induction run generalizing s t with
  | nil => exact hst
  | cons a run ih =>
    have hrest : ∀ b ∈ run, kind b := fun b hb => hkind b (List.mem_cons_of_mem _ hb)
    cases ha : visible a with
    | false =>
      rw [List.filter_cons_of_neg (by simp [ha])]
      exact ih hrest (h.hidden s t a (hkind a List.mem_cons_self) ha hst)
    | true =>
      rw [List.filter_cons_of_pos ha]
      exact ih hrest (h.visible s t a ha hst).2

theorem outputs (h : Unwinding step out visible kind R) {run : List α} (hkind : ∀ a ∈ run, kind a) {s t : σ} (hst : R s t) :
    Core.outputs step out visible s run = Core.outputs step out visible t (run.filter visible) := by
  induction run generalizing s t with
  | nil => rfl
  | cons a run ih =>
    have hrest : ∀ b ∈ run, kind b := fun b hb => hkind b (List.mem_cons_of_mem _ hb)
    cases ha : visible a with
    | false =>
      rw [List.filter_cons_of_neg (by simp [ha]), Core.outputs, ha]
      exact ih hrest (h.hidden s t a (hkind a List.mem_cons_self) ha hst)
    | true =>
      obtain ⟨hout, hnext⟩ := h.visible s t a ha hst
      rw [List.filter_cons_of_pos ha, Core.outputs, Core.outputs, hout, ih hrest hnext]

end Unwinding

end Unwinding

section Simulation

variable {σ τ α o : Type} {step : σ → α → σ} {out : σ → α → o} {step' : τ → α → τ} {out' : τ → α → o}

/-- two machines whose states stay related give the same answers, and end in related states -/
theorem outputs_sim {R : σ → τ → Prop} {visible : α → Bool} {run : List α}
    (h : ∀ a ∈ run, ∀ s t, R s t → out s a = out' t a ∧ R (step s a) (step' t a)) {s : σ} {t : τ} (hst : R s t) :
    outputs step out visible s run = outputs step' out' visible t run ∧ R (Run.after step s run) (Run.after step' t run) := by
  induction run generalizing s t with
  | nil => exact ⟨rfl, hst⟩
  | cons a run ih =>
    obtain ⟨hout, hnext⟩ := h a List.mem_cons_self s t hst
    obtain ⟨houts, hafter⟩ := ih (fun b hb => h b (List.mem_cons_of_mem _ hb)) hnext
    refine ⟨?_, hafter⟩
    rw [outputs, outputs, hout, houts]

end Simulation

/-! ## Programs -/

namespace Raise

variable {ε σ τ α β : Type} {R : σ → σ → Prop}

/-- a program ends in the same way from states that are alike, and leaves them alike -/
def Alike (R : σ → σ → Prop) (x : Raise ε σ α) : Prop :=
  ∀ s t, R s t → (run x s).1 = (run x t).1 ∧ R (run x s).2 (run x t).2

theorem alike_pure (a : α) : Alike R (pure a : Raise ε σ α) := fun _ _ h => ⟨rfl, h⟩

theorem alike_throw (e : ε) : Alike R (throw e : Raise ε σ α) := fun _ _ h => ⟨rfl, h⟩

theorem alike_lift (x : Except ε α) : Alike R (lift x) := fun _ _ h => ⟨rfl, h⟩

theorem alike_modify {g : σ → σ} (hg : ∀ s t, R s t → R (g s) (g t)) : Alike R (modify g : Raise ε σ PUnit) :=
  fun s t h => ⟨rfl, hg s t h⟩

theorem alike_bind {x : Raise ε σ α} {k : α → Raise ε σ β} (hx : Alike R x) (hk : ∀ a, Alike R (k a)) :
    Alike R (x >>= k) := by
  intro s t h
  obtain ⟨hresult, hstate⟩ := hx s t h
  rw [run_bind, run_bind]
  rcases hs : run x s with ⟨r, s'⟩
  rcases ht : run x t with ⟨r', t'⟩
  rw [hs, ht] at hresult hstate
  obtain rfl : r = r' := hresult
  cases r with
  | error e => exact ⟨rfl, hstate⟩
  | ok a => exact hk a s' t' hstate

theorem alike_tryCatch {x : Raise ε σ α} {handler : ε → Raise ε σ α} (hx : Alike R x) (hh : ∀ e, Alike R (handler e)) :
    Alike R (tryCatch x handler) := by
  intro s t h
  obtain ⟨hresult, hstate⟩ := hx s t h
  rw [run_tryCatch, run_tryCatch]
  rcases hs : run x s with ⟨r, s'⟩
  rcases ht : run x t with ⟨r', t'⟩
  rw [hs, ht] at hresult hstate
  obtain rfl : r = r' := hresult
  cases r with
  | error e => exact hh e s' t' hstate
  | ok a => exact ⟨rfl, hstate⟩

/-- a program that reads the state goes on in the same way in states that are alike -/
theorem alike_get_bind {k : σ → Raise ε σ β} (hsame : ∀ s t, R s t → k s = k t) (hk : ∀ s, Alike R (k s)) :
    Alike R (get >>= k) := by
  intro s t h
  rw [run_get_bind, run_get_bind, ← hsame s t h]
  exact hk s s t h

end Raise

end AbirGuard.Core
