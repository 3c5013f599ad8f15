/-
Programs that change a state and may raise. What was changed before an exception stays changed, so a program is a function
from states to a result together with a state, whatever the result.

- `run_bind` and the simp lemmas after it: how each way to build a program runs.
- `bind_ok_iff`: when a sequence returns.
- `Moves R x`: the program x takes every state to one that the relation R allows, whether it returns or raises; one rule for
  each way to build a program.
- `Leaves f x`: the program x does not change the part f of the state.
-/
import AbirGuard.Core.Outcome

namespace AbirGuard.Core

def Raise (ε σ α : Type) : Type := σ → Except ε α × σ

namespace Raise

variable {ε σ τ α β : Type}

/-- what the program ends with, and the state it leaves -/
def run (x : Raise ε σ α) (s : σ) : Except ε α × σ := x s

instance : Monad (Raise ε σ) where
  pure a := fun s => (.ok a, s)
  bind x f := fun s =>
    match x s with
    | (.ok a, s') => f a s'
    | (.error e, s') => (.error e, s')

instance : MonadStateOf σ (Raise ε σ) where
  get := fun s => (.ok s, s)
  set s' := fun _ => (.ok ⟨⟩, s')
  modifyGet g := fun s => (.ok (g s).1, (g s).2)

instance : MonadExceptOf ε (Raise ε σ) where
  throw e := fun s => (.error e, s)
  tryCatch x handler := fun s =>
    match x s with
    | (.ok a, s') => (.ok a, s')
    | (.error e, s') => handler e s'

instance : LawfulMonad (Raise ε σ) := by
  refine LawfulMonad.mk' _ (fun x => ?_) (fun _ _ => rfl) fun x f g => ?_
  · funext s
    change (match x s with | (.ok a, s') => _ | (.error e, s') => _) = x s
    rcases x s with ⟨e | a, t⟩ <;> rfl
  · funext s
    change (match (match x s with | (.ok a, s') => f a s' | (.error e, s') => (.error e, s')) with
      | (.ok b, s') => g b s' | (.error e, s') => (.error e, s')) = _
    rcases hx : x s with ⟨e | a, t⟩ <;> simp [bind, hx]

/-- a call that may raise and does not look at the state -/
def lift (x : Except ε α) : Raise ε σ α := fun s => (x, s)

/-- a statement under a condition -/
def when (p : Prop) [Decidable p] (x : Raise ε σ PUnit) : Raise ε σ PUnit := if p then x else pure ⟨⟩

/-- a call on a part of the state -/
def zoom (get : σ → τ) (set : τ → σ → σ) (x : Raise ε τ α) : Raise ε σ α := fun s =>
  ((x.run (get s)).1, set (x.run (get s)).2 s)

/-- a call on a part of the state whose exceptions are wrapped -/
def call {ε' : Type} (wrap : ε' → ε) (get : σ → τ) (set : τ → σ → σ) (x : Raise ε' τ α) : Raise ε σ α := fun s =>
  ((x.run (get s)).1.mapError wrap, set (x.run (get s)).2 s)

/-! ## Running -/

theorem run_bind (x : Raise ε σ α) (f : α → Raise ε σ β) (s : σ) :
    run (x >>= f) s = match run x s with
      | (.ok a, s') => run (f a) s'
      | (.error e, s') => (.error e, s') := rfl

theorem run_bind_of_ok {x : Raise ε σ α} {s s' : σ} {a : α} (h : run x s = (.ok a, s')) (f : α → Raise ε σ β) :
    run (x >>= f) s = run (f a) s' := by rw [run_bind, h]

@[simp] theorem run_pure (a : α) (s : σ) : run (pure a : Raise ε σ α) s = (.ok a, s) := rfl

@[simp] theorem run_throw (e : ε) (s : σ) : run (throw e : Raise ε σ α) s = (.error e, s) := rfl

@[simp] theorem run_lift (x : Except ε α) (s : σ) : run (lift x) s = (x, s) := rfl

@[simp] theorem run_zoom (get : σ → τ) (set : τ → σ → σ) (x : Raise ε τ α) (s : σ) :
    run (zoom get set x) s = ((run x (get s)).1, set (run x (get s)).2 s) := rfl

@[simp] theorem run_call {ε' : Type} (wrap : ε' → ε) (get : σ → τ) (set : τ → σ → σ) (x : Raise ε' τ α) (s : σ) :
    run (call wrap get set x) s = ((run x (get s)).1.mapError wrap, set (run x (get s)).2 s) := rfl

@[simp] theorem run_pure_bind (a : α) (f : α → Raise ε σ β) (s : σ) : run (pure a >>= f) s = run (f a) s := rfl

@[simp] theorem run_get_bind (f : σ → Raise ε σ β) (s : σ) : run (get >>= f) s = run (f s) s := rfl

@[simp] theorem run_modify (g : σ → σ) (s : σ) : run (modify g : Raise ε σ PUnit) s = (.ok ⟨⟩, g s) := rfl

@[simp] theorem run_modify_bind (g : σ → σ) (f : PUnit → Raise ε σ β) (s : σ) :
    run ((modify g : Raise ε σ PUnit) >>= f) s = run (f ⟨⟩) (g s) := rfl

@[simp] theorem run_set_bind (t : σ) (f : PUnit → Raise ε σ β) (s : σ) :
    run ((set t : Raise ε σ PUnit) >>= f) s = run (f ⟨⟩) t := rfl

@[simp] theorem run_lift_bind (x : Except ε α) (f : α → Raise ε σ β) (s : σ) :
    run (lift x >>= f) s = match x with
      | .ok a => run (f a) s
      | .error e => (.error e, s) := by
  cases x <;> rfl

theorem run_tryCatch (x : Raise ε σ α) (handler : ε → Raise ε σ α) (s : σ) :
    run (tryCatch x handler) s = match run x s with
      | (.ok a, s') => (.ok a, s')
      | (.error e, s') => run (handler e) s' := rfl

theorem run_ite (p : Prop) [Decidable p] (x y : Raise ε σ α) (s : σ) :
    run (if p then x else y) s = if p then run x s else run y s := by
  split_ifs <;> rfl

theorem run_when_of_not {p : Prop} [Decidable p] (hp : ¬ p) (x : Raise ε σ PUnit) (s : σ) : run (when p x) s = (.ok ⟨⟩, s) := by
  rw [when, if_neg hp]
  rfl

/-- what comes after may raise, but leaves the state as it is -/
theorem state_bind {x : Raise ε σ α} {f : α → Raise ε σ β} (h : ∀ a t, (run (f a) t).2 = t) (s : σ) :
    (run (x >>= f) s).2 = (run x s).2 := by
  rw [run_bind]
  rcases run x s with ⟨e | a, t⟩
  · rfl
  · exact h a t

/-- a sequence returns if and only if its parts do -/
theorem bind_ok_iff {x : Raise ε σ α} {f : α → Raise ε σ β} {s : σ} {b : β} :
    (run (x >>= f) s).1 = .ok b ↔ ∃ a, (run x s).1 = .ok a ∧ (run (f a) (run x s).2).1 = .ok b := by
  rw [run_bind]
  rcases run x s with ⟨e | a, t⟩
  · simp
  · simp

theorem lift_bind_ok_iff {x : Except ε α} {f : α → Raise ε σ β} {s : σ} {b : β} :
    (run (lift x >>= f) s).1 = .ok b ↔ ∃ a, x = .ok a ∧ (run (f a) s).1 = .ok b := bind_ok_iff

/-- the state in between, too -/
theorem run_bind_eq_ok {x : Raise ε σ α} {f : α → Raise ε σ β} {s u : σ} {b : β} (h : run (x >>= f) s = (.ok b, u)) :
    ∃ a t, run x s = (.ok a, t) ∧ run (f a) t = (.ok b, u) := by
  rw [run_bind] at h
  rcases hx : run x s with ⟨e | a, t⟩
  all_goals rw [hx] at h
  · cases h
  · exact ⟨a, t, rfl, h⟩

theorem run_lift_bind_eq_ok {x : Except ε α} {f : α → Raise ε σ β} {s u : σ} {b : β}
    (h : run (lift x >>= f) s = (.ok b, u)) : ∃ a, x = .ok a ∧ run (f a) s = (.ok b, u) := by
  obtain ⟨a, t, ha, h⟩ := run_bind_eq_ok h
  cases ha
  exact ⟨a, rfl, h⟩

/-- behind a check that raises -/
theorem run_check_bind_eq_ok {p : Prop} [Decidable p] {e : ε} {f : PUnit → Raise ε σ β} {s u : σ} {b : β}
    (h : run (when p (throw e) >>= f) s = (.ok b, u)) : ¬ p ∧ run (f ⟨⟩) s = (.ok b, u) := by
  obtain ⟨a, t, ha, h⟩ := run_bind_eq_ok h
  by_cases hp : p
  · rw [when, if_pos hp] at ha
    cases ha
  · rw [run_when_of_not hp] at ha
    cases ha
    exact ⟨hp, h⟩

/-! ## How a program moves the state -/

/-- the state before a program and the one that it leaves are related, whether it returns or raises -/
def Moves (R : σ → σ → Prop) (x : Raise ε σ α) : Prop := ∀ s, R s (run x s).2

section Moves

variable {R : σ → σ → Prop}

theorem moves_of_eq (hrefl : ∀ s, R s s) {x : Raise ε σ α} (h : ∀ s, (run x s).2 = s) : Moves R x := by
  intro s
  rw [h s]
  exact hrefl s

theorem moves_modify {g : σ → σ} (h : ∀ s, R s (g s)) : Moves R (modify g : Raise ε σ PUnit) := h

theorem moves_bind (htrans : ∀ s t u, R s t → R t u → R s u) {x : Raise ε σ α} {k : α → Raise ε σ β} (hx : Moves R x)
    (hk : ∀ a, Moves R (k a)) : Moves R (x >>= k) := by
  intro s
  have hs := hx s
  rw [run_bind]
  rcases hr : run x s with ⟨e | a, t⟩
  all_goals rw [hr] at hs
  · exact hs
  · exact htrans _ _ _ hs (hk a t)

theorem moves_tryCatch (htrans : ∀ s t u, R s t → R t u → R s u) {x : Raise ε σ α} {handler : ε → Raise ε σ α}
    (hx : Moves R x) (hh : ∀ e, Moves R (handler e)) : Moves R (tryCatch x handler) := by
  intro s
  have hs := hx s
  rw [run_tryCatch]
  rcases hr : run x s with ⟨e | a, t⟩
  all_goals rw [hr] at hs
  · exact htrans _ _ _ hs (hh e t)
  · exact hs

theorem moves_when (hrefl : ∀ s, R s s) {p : Prop} [Decidable p] {x : Raise ε σ PUnit} (hx : Moves R x) :
    Moves R (when p x) := by
  unfold when
  split_ifs
  · exact hx
  · exact hrefl

end Moves

/-! ## What a program leaves alone -/

/-- a part of the state is the same before and after -/
def Leaves (f : σ → τ) (x : Raise ε σ α) : Prop := ∀ s, f (run x s).2 = f s

variable {f : σ → τ}

theorem leaves_pure (a : α) : Leaves f (pure a : Raise ε σ α) := fun _ => rfl

theorem leaves_lift (x : Except ε α) : Leaves f (lift x) := fun _ => rfl

theorem leaves_get : Leaves f (get : Raise ε σ σ) := fun _ => rfl

theorem leaves_modify {g : σ → σ} (h : ∀ s, f (g s) = f s) : Leaves f (modify g : Raise ε σ PUnit) := h

theorem leaves_bind {x : Raise ε σ α} {k : α → Raise ε σ β} (hx : Leaves f x) (hk : ∀ a, Leaves f (k a)) :
    Leaves f (x >>= k) :=
  moves_bind (R := fun s t => f t = f s) (fun _ _ _ hs ht => ht.trans hs) hx hk

end Raise

end AbirGuard.Core
