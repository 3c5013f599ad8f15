/-
Words that are xored with a shift of themselves.

Done twice, the step shifts twice as far; so done often enough it shifts everything out and gives the word back.

- `bijective_of_doubling`: the argument, for any family of steps.
- `xorShl_bijective`, `xorShr_bijective`: a step that shifts at all is a bijection.
-/
import Mathlib.Algebra.Order.Ring.Nat
import Mathlib.Logic.Function.Iterate
import Mathlib.Tactic.Common

namespace AbirGuard.Core.XorShift

/-! ## Steps -/

variable {w : ℕ}

def xorShl (k : ℕ) (x : BitVec w) : BitVec w := x ^^^ x <<< k

def xorShr (k : ℕ) (x : BitVec w) : BitVec w := x ^^^ x >>> k

theorem xorShl_twice (k : ℕ) (x : BitVec w) : xorShl k (xorShl k x) = xorShl (k + k) x := by
  rw [xorShl, xorShl, BitVec.shiftLeft_xor_distrib, ← BitVec.shiftLeft_add, BitVec.xor_assoc, ← BitVec.xor_assoc (x <<< k),
    BitVec.xor_self, BitVec.zero_xor, xorShl]

theorem xorShr_twice (k : ℕ) (x : BitVec w) : xorShr k (xorShr k x) = xorShr (k + k) x := by
  rw [xorShr, xorShr, BitVec.ushiftRight_xor_distrib, ← BitVec.shiftRight_add, BitVec.xor_assoc, ← BitVec.xor_assoc (x >>> k),
    BitVec.xor_self, BitVec.zero_xor, xorShr]

theorem xorShl_of_le {k : ℕ} (h : w ≤ k) (x : BitVec w) : xorShl k x = x := by
  rw [xorShl, BitVec.shiftLeft_eq_zero h, BitVec.xor_zero]

theorem xorShr_of_le {k : ℕ} (h : w ≤ k) (x : BitVec w) : xorShr k x = x := by
  rw [xorShr, BitVec.ushiftRight_eq_zero h, BitVec.xor_zero]

section Doubling

variable {α : Type} {f : ℕ → α → α}

/-- steps that double when they are repeated, repeated a power of two times -/
theorem iterate_two_pow (h : ∀ k x, f k (f k x) = f (k + k) x) (m k : ℕ) (x : α) : (f k)^[2 ^ m] x = f (2 ^ m * k) x := by
  induction m generalizing k x with
  | zero => rw [pow_zero, Function.iterate_one, Nat.one_mul]
  | succ m ih =>
    have hdouble : (f k)^[2] = f (k + k) := funext fun x => h k x
    calc (f k)^[2 ^ (m + 1)] x = ((f k)^[2])^[2 ^ m] x := by rw [← Function.iterate_mul, pow_succ']
      _ = f (2 ^ m * (k + k)) x := by rw [hdouble, ih]
      _ = f (2 ^ (m + 1) * k) x := by rw [← Nat.two_mul, ← Nat.mul_assoc, ← pow_succ]

/-- if the large ones do nothing, each of the others is a bijection: some power of it does nothing -/
theorem bijective_of_doubling (h : ∀ k x, f k (f k x) = f (k + k) x) (hlarge : ∀ k, w ≤ k → ∀ x, f k x = x) {k : ℕ}
    (hk : 0 < k) : Function.Bijective (f k) := by
  have hw : w ≤ 2 ^ w * k := Nat.lt_two_pow_self.le.trans (Nat.le_mul_of_pos_right _ hk)
  have hid : (f k)^[2 ^ w - 1 + 1] = id := by
    rw [Nat.sub_add_cancel Nat.one_le_two_pow]
    exact funext fun x => (iterate_two_pow h w k x).trans (hlarge _ hw x)
  refine Function.bijective_iff_has_inverse.2 ⟨(f k)^[2 ^ w - 1], fun x => ?_, fun x => ?_⟩
  · exact (Function.iterate_succ_apply (f k) _ x).symm.trans (congrFun hid x)
  · exact (Function.iterate_succ_apply' (f k) _ x).symm.trans (congrFun hid x)

end Doubling

theorem xorShl_bijective {k : ℕ} (hk : 0 < k) : Function.Bijective (xorShl k : BitVec w → BitVec w) :=
  bijective_of_doubling xorShl_twice (fun _ h => xorShl_of_le h) hk

theorem xorShr_bijective {k : ℕ} (hk : 0 < k) : Function.Bijective (xorShr k : BitVec w → BitVec w) :=
  bijective_of_doubling xorShr_twice (fun _ h => xorShr_of_le h) hk

end AbirGuard.Core.XorShift
