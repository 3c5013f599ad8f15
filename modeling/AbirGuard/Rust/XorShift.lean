/-
The generator of the simulator's tests: can its state collapse?

`XorShift64` of `qkd/mod.rs` replaces its word by three shifts of it, each xored in, and gives the new word out. A word of zeros
would stay one, so `from_seed` puts a constant in the place of the seed 0.

- `update_bijective`: each of the three steps can be undone, so the update can.
- `run_draws`: what n calls give out and leave behind.
- `state_never_collapses`: the state is never 0, states never merge, and every state lies on the cycle that it runs in.
-/
import AbirGuard.Core.XorShift
import AbirGuard.Rust.Bb84
import Mathlib.Dynamics.PeriodicPts.Lemmas

namespace AbirGuard.Rust.Qkd

open AbirGuard.Core Raise

/-! ## Model -/

@[ext] structure XorShift64 where
  state : UInt64
deriving DecidableEq, Repr

namespace XorShift64

def fromSeed (seed : UInt64) : XorShift64 :=
  -- the word of zeros would never change
  let state := if seed == 0 then 0x9E3779B97F4A7C15 else seed
  ⟨state⟩

/-- what a call makes of the word -/
def update (x : UInt64) : UInt64 :=
  let x := x ^^^ x <<< 13
  let x := x ^^^ x >>> 7
  x ^^^ x <<< 17

def nextU64 : Raise QkdError XorShift64 UInt64 := do
  let self ← get
  let x := update self.state
  set { self with state := x }
  pure x

/-- the generator as a source of entropy -/
def source {F : Type} (f : F64 F) : EntropySource F XorShift64 := .ofNextU64 f nextU64

/-- n calls -/
def draws : ℕ → Raise QkdError XorShift64 (List UInt64)
  | 0 => pure []
  | n + 1 => do
    let x ← nextU64
    let xs ← draws n
    pure (x :: xs)

/-! ## The update -/

theorem toBitVec_update (x : UInt64) :
    (update x).toBitVec = XorShift.xorShl 17 (XorShift.xorShr 7 (XorShift.xorShl 13 x.toBitVec)) := rfl

theorem update_bijective : Function.Bijective update := by
  have hword : Function.Bijective UInt64.toBitVec :=
    ⟨fun _ _ => UInt64.toBitVec_inj.1, fun b => ⟨⟨b⟩, rfl⟩⟩
  have hsteps : Function.Bijective (UInt64.toBitVec ∘ update) := by
    have hcomp : UInt64.toBitVec ∘ update = XorShift.xorShl 17 ∘ XorShift.xorShr 7 ∘ XorShift.xorShl 13 ∘ UInt64.toBitVec :=
      funext toBitVec_update
    rw [hcomp]
    exact (XorShift.xorShl_bijective (by decide)).comp
      ((XorShift.xorShr_bijective (by decide)).comp ((XorShift.xorShl_bijective (by decide)).comp hword))
  exact (Function.Bijective.of_comp_iff' hword update).1 hsteps

/-- there are finitely many words, so a bijection brings each of them back -/
theorem update_returns (x : UInt64) : ∃ p > 0, update^[p] x = x := by
  have : Finite UInt64 := .of_injective UInt64.toFin fun _ _ => UInt64.toFin_inj.1
  exact Function.mem_periodicPts.1 (update_bijective.injective.mem_periodicPts x)

theorem update_zero : update 0 = 0 := by decide

/-- only 0 becomes 0 -/
theorem iterate_update_ne_zero {x : UInt64} (hx : x ≠ 0) (n : ℕ) : update^[n] x ≠ 0 := by
  intro h
  have hzero : update^[n] 0 = 0 := Function.iterate_fixed update_zero n
  exact hx (update_bijective.injective.iterate n (h.trans hzero.symm))

/-! ## Calls -/

theorem run_nextU64 (s : XorShift64) : run nextU64 s = (.ok (update s.state), ⟨update s.state⟩) := rfl

/-- a call never fails, and gives out the word that it leaves -/
theorem run_draws (n : ℕ) (s : XorShift64) :
    run (draws n) s = (.ok ((List.range n).map fun i => update^[i + 1] s.state), ⟨update^[n] s.state⟩) := by
  induction n generalizing s with
  | zero => rfl
  | succ n ih =>
    rw [draws, run_bind_of_ok (run_nextU64 s), run_bind_of_ok (ih _), run_pure, List.range_succ_eq_map, List.map_cons,
      List.map_map]
    rfl

theorem fromSeed_ne_zero (seed : UInt64) : (fromSeed seed).state ≠ 0 := by
  by_cases h : seed = 0
  · subst h
    decide
  · simp [fromSeed, h]

/-- **The state never collapses.** Whatever the seed and however many calls are made, the state is not 0. The update is a
bijection on words, so states that differ stay different, every state comes back, and a run that comes back to a state it had
after m calls has come back to its first state as soon. -/
theorem state_never_collapses :
    (∀ seed n, (run (draws n) (fromSeed seed)).2.state ≠ 0) ∧ Function.Bijective update ∧
      (∀ (s t : XorShift64) n, s ≠ t → (run (draws n) s).2 ≠ (run (draws n) t).2) ∧
      (∀ s : XorShift64, ∃ p > 0, (run (draws p) s).2 = s) ∧
      ∀ (s : XorShift64) m p, (run (draws (m + p)) s).2 = (run (draws m) s).2 → (run (draws p) s).2 = s := by
  refine ⟨?_, update_bijective, ?_, ?_, ?_⟩
  · intro seed n
    rw [run_draws]
    exact iterate_update_ne_zero (fromSeed_ne_zero seed) n
  · intro s t n hne heq
    rw [run_draws, run_draws, XorShift64.mk.injEq] at heq
    apply hne
    rw [XorShift64.ext_iff]
    exact update_bijective.injective.iterate n heq
  · intro s
    obtain ⟨p, hp, hback⟩ := update_returns s.state
    refine ⟨p, hp, ?_⟩
    rw [run_draws, hback]
  · intro s m p heq
    rw [run_draws, run_draws, XorShift64.mk.injEq, Function.iterate_add_apply] at heq
    rw [run_draws, update_bijective.injective.iterate m heq]

end XorShift64

end AbirGuard.Rust.Qkd
