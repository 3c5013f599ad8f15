/-
Threshold sharing over a field: a secret is the constant term of a polynomial, a share is its value at a nonzero point.

Nothing here names a program. A polynomial is given by its coefficient list (constant term first), and a set of shares
by a list of points (x, y), so that a program that keeps arrays of bytes can use the results at its own field.

- `atZero_eq`: interpolation at 0 through enough points of a polynomial returns its constant term, for any order of
  the points and any number of points beyond the degree.
- `refit_unique`: through t - 1 points and a chosen constant term there is exactly one polynomial of degree below t. It is
  the old one shifted by a multiple of `vanish`, the polynomial that is 1 at 0 and 0 at the points.
- `atZero_one_fewer`: through one point fewer than its coefficients a polynomial misses its constant term by the top
  coefficient over that of `vanish`, so it misses it whenever the top coefficient is not zero (`atZero_ne`).
- `atZero_add`: interpolation at 0 is additive in the values.
- `zeroSharing_iff`: values at n points interpolate to 0 over every t of them exactly when they are themselves the
  values of one polynomial of degree below t with constant term 0.
-/
import Mathlib.Data.List.GetD
import Mathlib.LinearAlgebra.Lagrange
import Mathlib.Tactic

namespace AbirGuard.Core.Threshold

open Polynomial

variable {F : Type*} [Field F]

/-! ## Polynomials by their coefficients -/

/-- the polynomial with coefficients cs, constant term first -/
noncomputable def poly (cs : List F) : F[X] := cs.foldr (fun c p => C c + X * p) 0

@[simp] theorem poly_nil : poly ([] : List F) = 0 := rfl

@[simp] theorem poly_cons (c : F) (cs : List F) : poly (c :: cs) = C c + X * poly cs := rfl

theorem coeff_poly (cs : List F) (i : ℕ) : (poly cs).coeff i = cs.getD i 0 := by
  induction cs generalizing i with
  | nil => simp
  | cons c cs ih =>
    cases i with
    | zero => simp
    | succ i => simp [ih]

theorem degree_poly_lt (cs : List F) : (poly cs).degree < cs.length := by
  rw [degree_lt_iff_coeff_zero]
  intro m hm
  rw [coeff_poly, List.getD_eq_default _ _ hm]

/-! ## Interpolation at zero -/

/-- the weight of point i in the interpolation at 0: the product of (0 - xj) / (xi - xj) over the other points -/
def weight (xs : List F) (i : Fin xs.length) : F :=
  ∏ j ∈ Finset.univ.erase i, (0 - xs[j]) / (xs[i] - xs[j])

/-- the value at 0 of the polynomial that takes the value y x at each point x -/
def atZero (xs : List F) (y : F → F) : F := ∑ i, weight xs i * y xs[i]

omit [Field F] in
theorem get_injOn {xs : List F} (h : xs.Nodup) :
    Set.InjOn (fun i : Fin xs.length => xs[i]) (Finset.univ : Finset (Fin xs.length)) :=
  fun _ _ _ _ hij => Fin.ext ((List.Nodup.getElem_inj_iff h).1 hij)

/-- **Enough points determine the constant term.** -/
theorem atZero_eq {xs : List F} (hx : xs.Nodup) {p : F[X]} (hp : p.degree < xs.length) :
    atZero xs (fun x => p.eval x) = p.eval 0 := by
  have hint := Lagrange.eq_interpolate (s := Finset.univ) (v := fun i : Fin xs.length => xs[i]) (f := p) (get_injOn hx)
    (by simpa using hp)
  conv_rhs => rw [hint, Lagrange.interpolate_apply, eval_finsetSum]
  refine Finset.sum_congr rfl fun i _ => ?_
  rw [eval_mul, eval_C, mul_comm]
  congr 1
  rw [Lagrange.basis, eval_prod]
  refine Finset.prod_congr rfl fun j _ => ?_
  rw [Lagrange.basisDivisor, eval_mul, eval_C, eval_sub, eval_X, eval_C, div_eq_mul_inv, mul_comm]

theorem atZero_add (xs : List F) (y z : F → F) : atZero xs (fun x => y x + z x) = atZero xs y + atZero xs z := by
  simp only [atZero, mul_add, Finset.sum_add_distrib]

theorem atZero_congr {xs : List F} {y z : F → F} (h : ∀ x ∈ xs, y x = z x) : atZero xs y = atZero xs z :=
  Finset.sum_congr rfl fun i _ => by rw [h xs[i] (List.getElem_mem _)]

/-! ## Loops over an enumerated list -/

theorem zipIdx_map_eq_ofFn {α β : Type*} (l : List α) (h : α × ℕ → β) :
    l.zipIdx.map h = List.ofFn fun i : Fin l.length => h (l[i], i) := by
  apply List.ext_getElem
  · simp
  · intro i h1 h2
    simp

/-- adding up a term for every entry -/
theorem foldl_zipIdx_add {α M : Type*} [AddCommMonoid M] (l : List α) (h : α × ℕ → M) (m : M) :
    l.zipIdx.foldl (fun acc p => acc + h p) m = m + ∑ i : Fin l.length, h (l[i], i) := by
  rw [← List.sum_ofFn, ← zipIdx_map_eq_ofFn]
  induction l.zipIdx generalizing m with
  | nil => simp
  | cons p ps ih => rw [List.foldl_cons, ih, List.map_cons, List.sum_cons, add_assoc]

/-- multiplying the factors of all entries but the i-th -/
theorem foldl_zipIdx_skip {α M : Type*} [CommMonoid M] (l : List α) (i : Fin l.length) (f : α → M) (m : M) :
    l.zipIdx.foldl (fun acc p => if i.val = p.2 then acc else acc * f p.1) m = m * ∏ j ∈ Finset.univ.erase i, f l[j] := by
  have hprod : ∏ j ∈ Finset.univ.erase i, f l[j] = (l.zipIdx.map fun p => if i.val = p.2 then 1 else f p.1).prod := by
    rw [zipIdx_map_eq_ofFn, List.prod_ofFn,
      ← Finset.prod_erase Finset.univ (a := i) (f := fun j => if i.val = j.val then 1 else f l[j]) (by simp)]
    refine Finset.prod_congr rfl fun j hj => ?_
    rw [if_neg fun e => (Finset.mem_erase.1 hj).1 (Fin.ext e).symm]
  rw [hprod]
  induction l.zipIdx generalizing m with
  | nil => simp
  | cons p ps ih =>
    rw [List.foldl_cons, ih, List.map_cons, List.prod_cons]
    split_ifs
    · rw [one_mul]
    · rw [mul_assoc]

/-! ## Lists whose entries carry a point -/

section Entries

variable {α : Type*} (x : α → F)

/-- the weight of entry i among the points of all entries; where another entry has the same point it is 0 -/
def weightAt (l : List α) (i : Fin l.length) : F := ∏ j ∈ Finset.univ.erase i, (0 - x l[j]) / (x l[i] - x l[j])

theorem atZero_map (l : List α) (y : F → F) : atZero (l.map x) y = ∑ i, weightAt x l i * y (x l[i]) := by
  refine Fintype.sum_equiv (finCongr (List.length_map x)) _ _ fun i => ?_
  have hw : weight (l.map x) i = weightAt x l (finCongr (List.length_map x) i) := by
    refine Finset.prod_equiv (finCongr (List.length_map x)) (fun j => ?_) (fun j _ => ?_)
    · simp
    · simp
  rw [hw]
  simp

theorem weightAt_eq_zero {l : List α} {i j : Fin l.length} (hij : i ≠ j) (h : x l[i] = x l[j]) : weightAt x l i = 0 := by
  apply Finset.prod_eq_zero (Finset.mem_erase.2 ⟨hij.symm, Finset.mem_univ j⟩)
  rw [h, sub_self, div_zero]

end Entries

/-- adding up c * x ^ i over the coefficients evaluates their polynomial -/
theorem foldl_eval_poly (cs : List F) (x y : F) :
    cs.zipIdx.foldl (fun acc c => acc + c.1 * x ^ c.2) y = y + (poly cs).eval x := by
  -- the induction moves the first power along
  have key : ∀ (cs : List F) (k : ℕ) (y : F),
      (cs.zipIdx k).foldl (fun acc c => acc + c.1 * x ^ c.2) y = y + x ^ k * (poly cs).eval x := by
    intro cs
    induction cs with
    | nil => simp
    | cons c cs ih =>
      intro k y
      rw [List.zipIdx_cons, List.foldl_cons, ih, poly_cons, eval_add, eval_mul, eval_C, eval_X, pow_succ]
      ring
  simpa using key cs 0 y

/-! ## One point fewer -/

/-- the polynomial that is 1 at 0 and vanishes at the points: the product of (1 - X / x) -/
noncomputable def vanish (xs : List F) : F[X] := (xs.map fun x => 1 - C x⁻¹ * X).prod

theorem vanish_eval_zero (xs : List F) : (vanish xs).eval 0 = 1 := by
  induction xs with
  | nil => simp [vanish]
  | cons x xs ih => simpa [vanish] using ih

theorem vanish_eval {xs : List F} {x : F} (hx : x ∈ xs) (h0 : x ≠ 0) : (vanish xs).eval x = 0 := by
  induction xs with
  | nil => simp at hx
  | cons a xs ih =>
    simp only [vanish, List.map_cons, List.prod_cons, eval_mul]
    rcases List.mem_cons.1 hx with rfl | hx
    · simp [h0]
    · rw [show eval x (List.map (fun x => 1 - C x⁻¹ * X) xs).prod = 0 from ih hx, mul_zero]

theorem degree_vanish_le (xs : List F) : (vanish xs).degree ≤ xs.length := by
  induction xs with
  | nil => simp [vanish]
  | cons x xs ih =>
    simp only [vanish, List.map_cons, List.prod_cons, List.length_cons, Nat.cast_add, Nat.cast_one]
    have h1 : (1 - C x⁻¹ * X : F[X]).degree ≤ 1 :=
      (degree_sub_le _ _).trans (max_le (degree_one_le.trans zero_le_one) (degree_C_mul_X_le _))
    rw [add_comm]
    exact degree_mul_le_of_le h1 ih

/-- the top coefficient of the product: the product of the -1 / x -/
theorem coeff_vanish (xs : List F) : (vanish xs).coeff xs.length = (xs.map fun x => -x⁻¹).prod := by
  induction xs with
  | nil => simp [vanish]
  | cons x xs ih =>
    have hstep : vanish (x :: xs) = vanish xs - C x⁻¹ * (X * vanish xs) := by
      simp only [vanish, List.map_cons, List.prod_cons]
      ring
    have htop : (vanish xs).coeff (xs.length + 1) = 0 := by
      apply coeff_eq_zero_of_degree_lt
      exact (degree_vanish_le xs).trans_lt (by exact_mod_cast Nat.lt_succ_self _)
    rw [hstep, List.length_cons, coeff_sub, coeff_C_mul, coeff_X_mul, htop, ih, List.map_cons, List.prod_cons]
    ring

theorem coeff_vanish_ne_zero {xs : List F} (h0 : ∀ x ∈ xs, x ≠ 0) : (vanish xs).coeff xs.length ≠ 0 := by
  rw [coeff_vanish]
  apply List.prod_ne_zero
  intro h
  obtain ⟨x, hx, e⟩ := List.mem_map.1 h
  exact h0 x hx (by simpa using e)

/-- the old polynomial with its constant term moved by d and its values at the points kept -/
noncomputable def refit (p : F[X]) (xs : List F) (d : F) : F[X] := p + C d * vanish xs

theorem refit_eval_zero (p : F[X]) (xs : List F) (d : F) : (refit p xs d).eval 0 = p.eval 0 + d := by
  simp [refit, vanish_eval_zero]

theorem refit_eval {xs : List F} {x : F} (p : F[X]) (d : F) (hx : x ∈ xs) (h0 : x ≠ 0) :
    (refit p xs d).eval x = p.eval x := by
  simp [refit, vanish_eval hx h0]

theorem degree_refit_lt {p : F[X]} {xs : List F} (d : F) (hp : p.degree < (xs.length + 1 : ℕ)) :
    (refit p xs d).degree < (xs.length + 1 : ℕ) := by
  refine (degree_add_le _ _).trans_lt (max_lt hp ?_)
  calc (C d * vanish xs).degree ≤ 0 + xs.length := degree_mul_le_of_le degree_C_le (degree_vanish_le xs)
    _ < (xs.length + 1 : ℕ) := by rw [zero_add]; exact_mod_cast Nat.lt_succ_self _

/-- **One polynomial per secret.** A polynomial of degree below t that agrees with p at t - 1 nonzero points is p
refitted to its own constant term. -/
theorem refit_unique {p q : F[X]} {xs : List F} (hx : xs.Nodup) (h0 : ∀ x ∈ xs, x ≠ 0)
    (hp : p.degree < (xs.length + 1 : ℕ)) (hq : q.degree < (xs.length + 1 : ℕ)) (heq : ∀ x ∈ xs, q.eval x = p.eval x) :
    q = refit p xs (q.eval 0 - p.eval 0) := by
  classical
  have hnd : (0 :: xs).Nodup := List.nodup_cons.2 ⟨fun h => h0 0 h rfl, hx⟩
  have hcard : ((0 :: xs).toFinset).card = xs.length + 1 := by
    rw [List.toFinset_card_of_nodup hnd, List.length_cons]
  refine eq_of_degrees_lt_of_eval_finset_eq (0 :: xs).toFinset (by rwa [hcard])
    (by rw [hcard]; exact degree_refit_lt _ hp) fun x hxm => ?_
  rcases List.mem_cons.1 (List.mem_toFinset.1 hxm) with rfl | hxm
  · rw [refit_eval_zero]; ring
  · rw [refit_eval p _ hxm (h0 x hxm)]; exact heq x hxm

/-- the interpolant through one point fewer is the polynomial refitted so that its top coefficient goes away -/
theorem atZero_one_fewer {p : F[X]} {xs : List F} (hx : xs.Nodup) (h0 : ∀ x ∈ xs, x ≠ 0)
    (hp : p.degree < (xs.length + 1 : ℕ)) :
    atZero xs (fun x => p.eval x) = p.eval 0 - p.coeff xs.length / (vanish xs).coeff xs.length := by
  have htop := coeff_vanish_ne_zero h0
  set d := -(p.coeff xs.length / (vanish xs).coeff xs.length)
  have hlt := degree_refit_lt d hp
  have hdeg : (refit p xs d).degree < xs.length := by
    rw [degree_lt_iff_coeff_zero]
    intro m hm
    rcases Nat.eq_or_lt_of_le hm with rfl | hm
    · rw [refit, coeff_add, coeff_C_mul, neg_mul, div_mul_cancel₀ _ htop, add_neg_cancel]
    · exact coeff_eq_zero_of_degree_lt (hlt.trans_le (by exact_mod_cast hm))
  calc atZero xs (fun x => p.eval x) = atZero xs (fun x => (refit p xs d).eval x) :=
        atZero_congr fun x hxm => (refit_eval p d hxm (h0 x hxm)).symm
    _ = (refit p xs d).eval 0 := atZero_eq hx hdeg
    _ = p.eval 0 - p.coeff xs.length / (vanish xs).coeff xs.length := by rw [refit_eval_zero, sub_eq_add_neg]

/-- **One point fewer always misses.** The interpolant through t - 1 nonzero points of a polynomial whose coefficient of
degree t - 1 is not zero takes another value at 0. -/
theorem atZero_ne {p : F[X]} {xs : List F} (hx : xs.Nodup) (h0 : ∀ x ∈ xs, x ≠ 0)
    (hp : p.degree < (xs.length + 1 : ℕ)) (htop : p.coeff xs.length ≠ 0) :
    atZero xs (fun x => p.eval x) ≠ p.eval 0 := by
  rw [atZero_one_fewer hx h0 hp]
  intro e
  exact div_ne_zero htop (coeff_vanish_ne_zero h0) (sub_eq_self.1 e)

/-! ## Sharings of zero -/

/-- some polynomial of degree below the number of points takes the values y at the points -/
theorem exists_interpolant {xs : List F} (hx : xs.Nodup) (y : F → F) :
    ∃ p : F[X], p.degree < xs.length ∧ ∀ x ∈ xs, p.eval x = y x := by
  classical
  have hinj : Set.InjOn (id : F → F) xs.toFinset := Function.injective_id.injOn
  refine ⟨Lagrange.interpolate xs.toFinset id y, ?_, fun x hxm => ?_⟩
  · have := Lagrange.degree_interpolate_lt (r := y) hinj
    rwa [List.toFinset_card_of_nodup hx] at this
  · exact Lagrange.eval_interpolate_at_node (r := y) hinj (List.mem_toFinset.2 hxm)

/-- **Sharings of zero.** Values at n nonzero points interpolate to 0 over every t of the points if and only if they are
the values of one polynomial of degree below t with constant term 0. -/
theorem zeroSharing_iff {pts : List F} (hnd : pts.Nodup) (h0 : ∀ x ∈ pts, x ≠ 0) {t : ℕ} (ht : 0 < t)
    (htn : t ≤ pts.length) (y : F → F) :
    (∀ xs : List F, xs.Nodup → (∀ x ∈ xs, x ∈ pts) → xs.length = t → atZero xs y = 0) ↔
      ∃ p : F[X], p.degree < t ∧ p.eval 0 = 0 ∧ ∀ x ∈ pts, p.eval x = y x := by
  constructor
  · intro hall
    -- the candidate runs through (0, 0) and the first t - 1 points; any further point joins by its own t-set
    set base := pts.take (t - 1)
    have hbl : base.length = t - 1 := by simp only [base, List.length_take]; omega
    have hbn : base.Nodup := hnd.sublist (List.take_sublist _ _)
    have hbm : ∀ x ∈ base, x ∈ pts := fun x hx => List.mem_of_mem_take hx
    have hzn : (0 :: base).Nodup := List.nodup_cons.2 ⟨fun h => h0 0 (hbm 0 h) rfl, hbn⟩
    have hzl : (0 :: base).length = t := by rw [List.length_cons, hbl]; omega
    classical
    obtain ⟨p, hpd, hp⟩ := exists_interpolant hzn (fun x => if x = 0 then 0 else y x)
    rw [hzl] at hpd
    have hpb : ∀ x ∈ base, p.eval x = y x := fun x hx => by
      rw [hp x (List.mem_cons_of_mem _ hx), if_neg (h0 x (hbm x hx))]
    refine ⟨p, hpd, by simpa using hp 0 List.mem_cons_self, fun x hx => ?_⟩
    by_cases hxb : x ∈ base
    · exact hpb x hxb
    have hxn : (x :: base).Nodup := List.nodup_cons.2 ⟨hxb, hbn⟩
    have hxl : (x :: base).length = t := by rw [List.length_cons, hbl]; omega
    obtain ⟨q, hqd, hq⟩ := exists_interpolant hxn y
    have hq0 : q.eval 0 = 0 := by
      rw [← atZero_eq hxn hqd, atZero_congr hq]
      refine hall _ hxn (fun z hz => ?_) hxl
      rcases List.mem_cons.1 hz with rfl | hz
      · exact hx
      · exact hbm z hz
    rw [hxl] at hqd
    have hpq : p = q := by
      have hcard : (0 :: base).toFinset.card = t := by rw [List.toFinset_card_of_nodup hzn, hzl]
      refine eq_of_degrees_lt_of_eval_finset_eq (0 :: base).toFinset (by rwa [hcard]) (by rwa [hcard]) fun z hz => ?_
      rcases List.mem_cons.1 (List.mem_toFinset.1 hz) with rfl | hz
      · rw [hq0]; simpa using hp 0 List.mem_cons_self
      · rw [hpb z hz, hq z (List.mem_cons_of_mem _ hz)]
    rw [hpq]
    exact hq x List.mem_cons_self
  · rintro ⟨p, hpd, hp0, hp⟩ xs hxn hxm hxl
    rw [← atZero_congr (fun x hx => hp x (hxm x hx)), atZero_eq hxn (by rwa [hxl]), hp0]

end AbirGuard.Core.Threshold
