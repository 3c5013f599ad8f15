/-
Shamir secret sharing over GF(251): `split`, `reconstruct`, `encode_shares` and `decode_shares` of `src/shamir.rs`.

The u16 arithmetic is checked: a multiplication or addition that leaves 16 bits, a subtraction below zero, an index out
of range and `gf_inv(0)` are panics. The random bytes of `split` are an argument: `rand i j` is byte j of the buffer drawn
for byte i of the secret. base64 is a codec given as a parameter.

What the loops compute, over the field with 251 elements:
- `gfInv_spec`: Fermat inversion returns a^249 for every nonzero byte a, and no intermediate product overflows;
- `evalAt_spec`: a share byte is the value of the coefficient polynomial at the share's index;
- `lagrangeByte_spec`: a reconstructed byte is the interpolation at 0 of the share bytes, for shares with pairwise
  distinct indices between 1 and 250.
-/
import AbirGuard.Core.Bytes
import AbirGuard.Core.Outcome
import AbirGuard.Core.Threshold
import Mathlib.Algebra.Field.ZMod
import Mathlib.FieldTheory.Finite.Basic

namespace AbirGuard.Rust.Shamir

open AbirGuard.Core AbirGuard.Core.Threshold

/-! ## Model -/

/-- the prime 251 -/
abbrev PRIME : ℕ := 251

/-- (x-coordinate, y-byte-array) -/
structure Share where
  index : UInt8
  data : Bytes
deriving DecidableEq, Repr

/-- the square-and-multiply loop: a u16 exponent is halved at most 16 times -/
def gfInvLoop : ℕ → ℕ → ℕ → ℕ → Outcome ℕ
  | 0, result, _, _ => .ok result
  | fuel + 1, result, base, exp =>
    if exp > 0 then do
      let result ← if exp % 2 = 1 then (· % PRIME) <$> Outcome.mul 16 result base else .ok result
      let base ← (· % PRIME) <$> Outcome.mul 16 base base
      gfInvLoop fuel result base (exp / 2)
    else .ok result

/-- modular inverse by Fermat's little theorem: a^(p-2) mod p -/
def gfInv (a : UInt8) : Outcome UInt8 :=
  if a = 0 then Outcome.panic "Cannot invert zero in GF(251)"
  else UInt8.ofNat <$> gfInvLoop 16 1 a.toNat (PRIME - 2)

/-- the coefficients of one byte's polynomial: the byte, then each random byte folded into 1..250 -/
def coeffs (threshold : ℕ) (rand : ℕ → UInt8) (secretByte : UInt8) : List UInt8 :=
  secretByte :: (List.range (threshold - 1)).map fun i => rand i % (UInt8.ofNat PRIME - 1) + 1

/-- one pass of the evaluation loop: (y, x_pow) -/
def evalStep (x : ℕ) (acc : ℕ × ℕ) (coeff : UInt8) : Outcome (ℕ × ℕ) := do
  let term ← (· % PRIME) <$> Outcome.mul 16 coeff.toNat acc.2
  let y ← (· % PRIME) <$> Outcome.add 16 acc.1 term
  let xPow ← (· % PRIME) <$> Outcome.mul 16 acc.2 x
  return (y, xPow)

def evalAt (cs : List UInt8) (x : ℕ) : Outcome ℕ := Prod.fst <$> cs.foldlM (evalStep x) (0, 1)

/-- the body of the loop over secret bytes: byte b of every share -/
def splitByte (threshold : ℕ) (rand : ℕ → ℕ → UInt8) (shares : List Share) (b : UInt8 × ℕ) : Outcome (List Share) :=
  shares.mapM fun share => do
    let y ← evalAt (coeffs threshold (rand b.2) b.1) share.index.toNat
    let data ← Outcome.setIndex share.data b.2 (UInt8.ofNat y)
    return { share with data := data }

def split (rand : ℕ → ℕ → UInt8) (secret : Bytes) (threshold numShares : ℕ) : Outcome (List Share) := do
  Outcome.assert (threshold ≥ 2) "Threshold must be >= 2"
  Outcome.assert (numShares ≥ threshold) "Shares must be >= threshold"
  Outcome.assert (numShares ≤ 250) "Shares must be <= 250 in GF(251)"
  Outcome.assert (secret.all fun b => b.toNat < PRIME) <|
    "Secret bytes must all be < 251 (GF(251) field limit). " ++
    "For arbitrary binary data, split into ASCII-safe chunks first."
  let shares := (List.range numShares).map fun i => ⟨UInt8.ofNat (i + 1), List.replicate secret.length 0⟩
  secret.zipIdx.foldlM (splitByte threshold rand) shares

/-- one pass of the inner loop: (numerator, denominator) of the Lagrange basis polynomial of share i at 0 -/
def basisStep (i xi : ℕ) (acc : ℕ × ℕ) (sj : Share × ℕ) : Outcome (ℕ × ℕ) :=
  if i = sj.2 then .ok acc else do
    let xj := sj.1.index.toNat
    let neg ← Outcome.sub PRIME xj
    let numerator ← (· % PRIME) <$> Outcome.mul 16 acc.1 (neg % PRIME)
    let sum ← Outcome.add 16 xi PRIME
    let diff ← Outcome.sub sum xj
    let denominator ← (· % PRIME) <$> Outcome.mul 16 acc.2 (diff % PRIME)
    return (numerator, denominator)

/-- one pass of the outer loop: add the term of share i to the result -/
def termStep (shares : List Share) (byteIdx : ℕ) (result : ℕ) (si : Share × ℕ) : Outcome ℕ := do
  let xi := si.1.index.toNat
  let yi ← Outcome.index si.1.data byteIdx
  let nd ← shares.zipIdx.foldlM (basisStep si.2 xi) (1, 1)
  let inv ← gfInv (UInt8.ofNat nd.2)
  let coef ← (· % PRIME) <$> Outcome.mul 16 nd.1 inv.toNat
  let term ← (· % PRIME) <$> Outcome.mul 16 coef yi.toNat
  (· % PRIME) <$> Outcome.add 16 result term

def lagrangeByte (shares : List Share) (byteIdx : ℕ) : Outcome ℕ :=
  shares.zipIdx.foldlM (termStep shares byteIdx) 0

def reconstruct (shares : List Share) : Outcome Bytes := do
  Outcome.assert (!shares.isEmpty) "Need at least one share"
  let first ← Outcome.index shares 0
  (List.range first.data.length).mapM fun byteIdx => UInt8.ofNat <$> lagrangeByte shares byteIdx

/-- "index:base64data" -/
def encodeShare (base64 : Codec Bytes String) (s : Share) : String :=
  toString s.index.toNat ++ String.singleton ':' ++ base64.encode s.data

def encodeShares (base64 : Codec Bytes String) (shares : List Share) : List String := shares.map (encodeShare base64)

def decodeShare (base64 : Codec Bytes String) (s : String) : Except String Share :=
  match splitn2 s ':' with
  | [p0, p1] => do
    let index ← (parseU8 p0).mapError fun e => s!"Invalid index: {e}"
    let data ← (base64.decode p1).mapError fun e => s!"Invalid base64: {e}"
    return ⟨index, data⟩
  | _ => .error s!"Invalid share format: {s}"

/-- all shares, or the first error -/
def decodeShares (base64 : Codec Bytes String) (encoded : List String) : Except String (List Share) :=
  encoded.mapM (decodeShare base64)

/-! ## The field -/

/-- the field with 251 elements -/
abbrev Gf : Type := ZMod PRIME

instance : Fact (Nat.Prime PRIME) := ⟨by norm_num⟩

theorem cast_inj_of_lt {a b : ℕ} (ha : a < PRIME) (hb : b < PRIME) (h : (a : Gf) = b) : a = b := by
  rw [ZMod.natCast_eq_natCast_iff'] at h
  rwa [Nat.mod_eq_of_lt ha, Nat.mod_eq_of_lt hb] at h

theorem pow_249 (a : Gf) : a ^ 249 = a⁻¹ := by
  by_cases h : a = 0
  · rw [h]; simp
  · apply eq_inv_of_mul_eq_one_left
    rw [← pow_succ]
    exact ZMod.pow_card_sub_one_eq_one h

theorem mod_lt (a : ℕ) : a % PRIME < PRIME := Nat.mod_lt _ (by norm_num)

theorem ofNat_toNat {a : ℕ} (h : a < PRIME) : (UInt8.ofNat a).toNat = a := by
  rw [UInt8.toNat_ofNat']
  exact Nat.mod_eq_of_lt (h.trans (by norm_num))

theorem mul16_ok {a b : ℕ} (ha : a < PRIME) (hb : b < 256) : Outcome.mul 16 a b = .ok (a * b) := by
  apply Outcome.mul_ok
  have := Nat.mul_le_mul (Nat.le_of_lt_succ ha) (Nat.le_of_lt_succ hb)
  omega

theorem add16_ok {a b : ℕ} (ha : a < PRIME) (hb : b < PRIME) : Outcome.add 16 a b = .ok (a + b) := by
  apply Outcome.add_ok
  unfold PRIME at ha hb
  omega

/-! ## Fermat inversion -/

theorem gfInvLoop_spec (fuel result base exp : ℕ) (hr : result < PRIME) (hb : base < 256) (he : exp < 2 ^ fuel) :
    gfInvLoop fuel result base exp = .ok (result * base ^ exp % PRIME) := by
  induction fuel generalizing result base exp with
  | zero =>
    have : exp = 0 := by omega
    simp [gfInvLoop, this, Nat.mod_eq_of_lt hr]
  | succ fuel ih =>
    rw [gfInvLoop]
    split_ifs with h0 hodd
    · have hbb : Outcome.mul 16 base base = .ok (base * base) := by
        apply Outcome.mul_ok
        have := Nat.mul_le_mul (Nat.le_of_lt_succ hb) (Nat.le_of_lt_succ hb)
        omega
      have hexp : base ^ exp = base * (base * base) ^ (exp / 2) := by
        conv_lhs => rw [← Nat.div_add_mod exp 2, hodd, pow_add, pow_mul, pow_one, sq, mul_comm]
      simp only [mul16_ok hr hb, hbb, Outcome.map_ok, Outcome.ok_bind]
      rw [ih _ _ _ (mod_lt _) ((mod_lt _).trans (by norm_num)) (by omega), hexp, ← mul_assoc]
      congr 1
      exact ((Nat.mod_modEq _ _).mul ((Nat.mod_modEq _ _).pow _))
    · have hbb : Outcome.mul 16 base base = .ok (base * base) := by
        apply Outcome.mul_ok
        have := Nat.mul_le_mul (Nat.le_of_lt_succ hb) (Nat.le_of_lt_succ hb)
        omega
      have hexp : base ^ exp = (base * base) ^ (exp / 2) := by
        have h2 : exp % 2 = 0 := by omega
        conv_lhs => rw [← Nat.div_add_mod exp 2, h2, add_zero, pow_mul, sq]
      simp only [hbb, Outcome.map_ok, Outcome.ok_bind]
      rw [ih _ _ _ hr ((mod_lt _).trans (by norm_num)) (by omega), hexp]
      congr 1
      exact (Nat.ModEq.refl _).mul ((Nat.mod_modEq _ _).pow _)
    · have : exp = 0 := by omega
      simp [this, Nat.mod_eq_of_lt hr]

theorem gfInv_spec {a : UInt8} (h : a ≠ 0) : gfInv a = .ok (UInt8.ofNat (a.toNat ^ 249 % PRIME)) := by
  rw [gfInv, if_neg h, gfInvLoop_spec 16 1 a.toNat (PRIME - 2) (by norm_num) a.toNat_lt (by norm_num), one_mul]
  rfl

/-! ## Evaluation -/

theorem evalStep_spec {x : ℕ} (hx : x < 256) {acc : ℕ × ℕ} (h1 : acc.1 < PRIME) (h2 : acc.2 < PRIME) {c : UInt8}
    (hc : c.toNat < PRIME) :
    evalStep x acc c = .ok ((acc.1 + c.toNat * acc.2 % PRIME) % PRIME, acc.2 * x % PRIME) := by
  rw [evalStep, mul16_ok hc (h2.trans (by norm_num)), mul16_ok h2 hx]
  simp only [Outcome.map_ok, Outcome.ok_bind, add16_ok h1 (mod_lt _), Outcome.pure_eq]

/-- the polynomial of a coefficient list -/
noncomputable def polyOf (cs : List UInt8) : Polynomial Gf := poly (cs.map fun c => (c.toNat : Gf))

theorem foldl_eval (cs : List UInt8) (x y p : Gf) :
    (cs.foldl (fun (acc : Gf × Gf) (c : UInt8) => (acc.1 + (c.toNat : Gf) * acc.2, acc.2 * x)) (y, p)).1 =
      y + p * (polyOf cs).eval x := by
  induction cs generalizing y p with
  | nil => simp [polyOf]
  | cons c cs ih =>
    rw [List.foldl_cons, ih]
    simp only [polyOf, List.map_cons, poly_cons, Polynomial.eval_add, Polynomial.eval_C, Polynomial.eval_mul,
      Polynomial.eval_X]
    ring

/-- a share byte is the value of the coefficient polynomial at the share's index -/
theorem evalAt_spec {cs : List UInt8} {x : ℕ} (hx : x < 256) (hcs : ∀ c ∈ cs, c.toNat < PRIME) :
    ∃ y, evalAt cs x = .ok y ∧ y < PRIME ∧ (y : Gf) = (polyOf cs).eval (x : Gf) := by
  obtain ⟨r, hr, hinv, hφ⟩ := Outcome.foldlM_sim (f := evalStep x)
    (g := fun (acc : Gf × Gf) (c : UInt8) => (acc.1 + (c.toNat : Gf) * acc.2, acc.2 * (x : Gf)))
    (fun acc => ((acc.1 : Gf), (acc.2 : Gf))) (fun acc => acc.1 < PRIME ∧ acc.2 < PRIME) (l := cs)
    (fun acc hacc c hc => ⟨_, evalStep_spec hx hacc.1 hacc.2 (hcs c hc), ⟨mod_lt _, mod_lt _⟩, by simp⟩)
    (b := (0, 1)) ⟨by norm_num, by norm_num⟩
  refine ⟨r.1, ?_, hinv.1, ?_⟩
  · rw [evalAt, hr, Outcome.map_ok]
  · have h1 : ((r.1 : ℕ) : Gf) = _ := congrArg Prod.fst hφ
    rw [h1]
    simpa using foldl_eval cs x 0 1

/-! ## Interpolation -/

/-- the point of a share -/
def pt (s : Share) : Gf := (s.index.toNat : Gf)

/-- what `split` gives and the interpolation needs: pairwise distinct indices from 1 to 250 -/
structure Distinct (shares : List Share) : Prop where
  nodup : (shares.map Share.index).Nodup
  pos : ∀ s ∈ shares, 1 ≤ s.index.toNat
  le : ∀ s ∈ shares, s.index.toNat ≤ 250

theorem pt_ne_zero {s : Share} (h1 : 1 ≤ s.index.toNat) (h2 : s.index.toNat ≤ 250) : pt s ≠ 0 := by
  intro h
  have : s.index.toNat = 0 := cast_inj_of_lt (by unfold PRIME; omega) (by norm_num) (by simpa [pt] using h)
  omega

theorem pt_inj {s s' : Share} (h : s.index.toNat ≤ 250) (h' : s'.index.toNat ≤ 250) (e : pt s = pt s') :
    s.index = s'.index :=
  UInt8.toNat_inj.1 (cast_inj_of_lt (by unfold PRIME; omega) (by unfold PRIME; omega) e)

theorem Distinct.pts_nodup {shares : List Share} (h : Distinct shares) : (shares.map pt).Nodup := by
  have hn : shares.Nodup := List.Nodup.of_map _ h.nodup
  have hinj := (List.nodup_map_iff_inj_on hn).1 h.nodup
  rw [List.nodup_map_iff_inj_on hn]
  intro s hs s' hs' e
  exact hinj s hs s' hs' (pt_inj (h.le s hs) (h.le s' hs') e)

/-- what the loops need of the indices: no subtraction goes below zero, and no denominator is zero -/
structure Spaced (shares : List Share) : Prop where
  nodup : (shares.map pt).Nodup
  le : ∀ s ∈ shares, s.index.toNat ≤ PRIME

theorem Distinct.spaced {shares : List Share} (h : Distinct shares) : Spaced shares :=
  ⟨h.pts_nodup, fun s hs => (h.le s hs).trans (by norm_num)⟩

/-- the plain inner step: the factors of the Lagrange basis polynomial at 0 -/
def basisFactor (i : ℕ) (xi : Gf) (acc : Gf × Gf) (sj : Share × ℕ) : Gf × Gf :=
  if i = sj.2 then acc else acc * (0 - pt sj.1, xi - pt sj.1)

theorem basisStep_spec {i xi : ℕ} (hxi : xi < 256) {acc : ℕ × ℕ} (h1 : acc.1 < PRIME) (h2 : acc.2 < PRIME)
    {sj : Share × ℕ} (hj : sj.1.index.toNat ≤ PRIME) :
    ∃ acc', basisStep i xi acc sj = .ok acc' ∧ (acc'.1 < PRIME ∧ acc'.2 < PRIME) ∧
      (((acc'.1 : ℕ) : Gf), ((acc'.2 : ℕ) : Gf)) = basisFactor i xi ((acc.1 : Gf), (acc.2 : Gf)) sj := by
  by_cases h : i = sj.2
  · exact ⟨acc, by simp [basisStep, h], ⟨h1, h2⟩, by simp [basisFactor, h]⟩
  have hneg : Outcome.sub PRIME sj.1.index.toNat = .ok (PRIME - sj.1.index.toNat) :=
    Outcome.sub_ok hj
  have hsum : Outcome.add 16 xi PRIME = .ok (xi + PRIME) := Outcome.add_ok (by unfold PRIME; omega)
  have hdiff : Outcome.sub (xi + PRIME) sj.1.index.toNat = .ok (xi + PRIME - sj.1.index.toNat) :=
    Outcome.sub_ok (hj.trans (Nat.le_add_left _ _))
  refine ⟨(acc.1 * ((PRIME - sj.1.index.toNat) % PRIME) % PRIME,
    acc.2 * ((xi + PRIME - sj.1.index.toNat) % PRIME) % PRIME), ?_, ⟨mod_lt _, mod_lt _⟩, ?_⟩
  · simp only [basisStep, if_neg h, hneg, hsum, hdiff, Outcome.ok_bind, Outcome.map_ok, Outcome.pure_eq,
      mul16_ok h1 ((mod_lt _).trans (by norm_num)), mul16_ok h2 ((mod_lt _).trans (by norm_num))]
  · have hle' : sj.1.index.toNat ≤ xi + PRIME := hj.trans (Nat.le_add_left _ _)
    have h0 : ((251 : ℕ) : Gf) = 0 := ZMod.natCast_self PRIME
    simp only [basisFactor, if_neg h, ZMod.natCast_mod, Nat.cast_mul, Nat.cast_sub hj, Nat.cast_sub hle', Nat.cast_add,
      pt, Prod.mk_mul_mk]
    rw [h0]
    simp

/-- the inner loop over all shares: the numerator and denominator products of share i -/
theorem basis_spec {shares : List Share} (h : ∀ s ∈ shares, s.index.toNat ≤ PRIME) (i : Fin shares.length) :
    ∃ nd : ℕ × ℕ, shares.zipIdx.foldlM (basisStep i shares[i].index.toNat) (1, 1) = .ok nd ∧
      (nd.1 < PRIME ∧ nd.2 < PRIME) ∧ ((nd.1 : ℕ) : Gf) = ∏ j ∈ Finset.univ.erase i, (0 - pt shares[j]) ∧
      ((nd.2 : ℕ) : Gf) = ∏ j ∈ Finset.univ.erase i, (pt shares[i] - pt shares[j]) := by
  obtain ⟨nd, hnd, hinv, hφ⟩ := Outcome.foldlM_sim (f := basisStep i shares[i].index.toNat)
    (g := basisFactor i (pt shares[i])) (fun acc => ((acc.1 : Gf), (acc.2 : Gf)))
    (fun acc => acc.1 < PRIME ∧ acc.2 < PRIME) (l := shares.zipIdx)
    (fun acc hacc sj hsj => basisStep_spec shares[i].index.toNat_lt hacc.1 hacc.2 (h _ (List.fst_mem_of_mem_zipIdx hsj)))
    (b := (1, 1)) ⟨by norm_num, by norm_num⟩
  have hprod : (((nd.1 : ℕ) : Gf), ((nd.2 : ℕ) : Gf)) =
      ∏ j ∈ Finset.univ.erase i, (0 - pt shares[j], pt shares[i] - pt shares[j]) := by
    simp only [Nat.cast_one] at hφ
    rw [hφ]
    exact (foldl_zipIdx_skip shares i (fun s => (0 - pt s, pt shares[i] - pt s)) 1).trans (one_mul _)
  refine ⟨nd, hnd, hinv, ?_, ?_⟩
  · have h1 := congrArg Prod.fst hprod
    rwa [Prod.fst_prod] at h1
  · have h2 := congrArg Prod.snd hprod
    rwa [Prod.snd_prod] at h2

/-- no share's denominator is zero exactly when the points are pairwise distinct -/
theorem denominator_ne_zero_iff (shares : List Share) :
    (∀ i : Fin shares.length, ∏ j ∈ Finset.univ.erase i, (pt shares[i] - pt shares[j]) ≠ 0) ↔ (shares.map pt).Nodup := by
  rw [List.nodup_iff_injective_get]
  constructor
  · intro h i j e
    by_contra hij
    have hne := Finset.prod_ne_zero_iff.1 (h (Fin.cast (List.length_map _) i)) (Fin.cast (List.length_map _) j)
      (Finset.mem_erase.2 ⟨fun e => hij (by simpa [Fin.ext_iff] using e.symm), Finset.mem_univ _⟩)
    rw [sub_ne_zero] at hne
    exact hne (by simpa using e)
  · intro h i
    rw [Finset.prod_ne_zero_iff]
    intro j hj
    rw [sub_ne_zero]
    intro e
    have hij := @h (Fin.cast (List.length_map _).symm i) (Fin.cast (List.length_map _).symm j) (by simpa using e)
    exact (Finset.mem_erase.1 hj).1 (by simpa [Fin.ext_iff] using hij.symm)

/-- the term of share i: its Lagrange weight times its byte -/
theorem termStep_spec {shares : List Share} (h : Spaced shares) {byteIdx : ℕ}
    (hlen : ∀ s ∈ shares, byteIdx < s.data.length) {y : Gf → Gf}
    (hy : ∀ s ∈ shares, y (pt s) = ((s.data.getD byteIdx 0).toNat : Gf)) (i : Fin shares.length) {result : ℕ}
    (hr : result < PRIME) :
    ∃ r, termStep shares byteIdx result (shares[i], i.val) = .ok r ∧ r < PRIME ∧
      (r : Gf) = result + weightAt pt shares i * y (pt shares[i]) := by
  have hmem : shares[i] ∈ shares := List.getElem_mem _
  obtain ⟨nd, hnd, ⟨h1, h2⟩, hnum, hden⟩ := basis_spec h.le i
  -- the denominator is a product of differences of distinct points
  have hden0 : ((nd.2 : ℕ) : Gf) ≠ 0 := by
    rw [hden]
    exact (denominator_ne_zero_iff shares).2 h.nodup i
  have hdne : UInt8.ofNat nd.2 ≠ 0 := by
    intro e
    apply hden0
    rw [← ofNat_toNat h2, e]
    simp
  have hidx : Outcome.index shares[i].data byteIdx = .ok (shares[i].data.getD byteIdx 0) := by
    rw [Outcome.index_ok (hlen _ hmem), List.getD_eq_getElem _ _ (hlen _ hmem)]
  set v := shares[i].data.getD byteIdx 0
  set inv := nd.2 ^ 249 % PRIME
  have hinv : inv < PRIME := mod_lt _
  have hgf : gfInv (UInt8.ofNat nd.2) = .ok (UInt8.ofNat inv) := by
    rw [gfInv_spec hdne, ofNat_toNat h2]
  refine ⟨(result + nd.1 * inv % PRIME * v.toNat % PRIME) % PRIME, ?_, mod_lt _, ?_⟩
  · simp only [termStep, hidx, hnd, hgf, Outcome.ok_bind, ofNat_toNat hinv,
      mul16_ok h1 (hinv.trans (by norm_num)), Outcome.map_ok, mul16_ok (mod_lt _) v.toNat_lt, add16_ok hr (mod_lt _)]
  · have hinvc : ((inv : ℕ) : Gf) = ((nd.2 : ℕ) : Gf)⁻¹ := by
      rw [← pow_249]; simp [inv]
    have hw : weightAt pt shares i = ((nd.1 : ℕ) : Gf) * ((nd.2 : ℕ) : Gf)⁻¹ := by
      rw [hnum, hden, weightAt, Finset.prod_div_distrib, div_eq_mul_inv]
    rw [hw, hy _ hmem]
    simp [hinvc, v]

/-- a reconstructed byte is the interpolation at 0 of the share bytes -/
theorem lagrangeByte_spec {shares : List Share} (h : Spaced shares) {byteIdx : ℕ}
    (hlen : ∀ s ∈ shares, byteIdx < s.data.length) {y : Gf → Gf}
    (hy : ∀ s ∈ shares, y (pt s) = ((s.data.getD byteIdx 0).toNat : Gf)) :
    ∃ r, lagrangeByte shares byteIdx = .ok r ∧ r < PRIME ∧ (r : Gf) = atZero (shares.map pt) y := by
  have hstep : ∀ b, b < PRIME → ∀ si ∈ shares.zipIdx, ∃ r, termStep shares byteIdx b si = .ok r ∧ r < PRIME ∧
      (r : Gf) = b + (if hi : si.2 < shares.length then weightAt pt shares ⟨si.2, hi⟩ else 0) * y (pt si.1) := by
    rintro b hb ⟨s, i⟩ hsi
    obtain ⟨hi, hs⟩ := List.getElem?_eq_some_iff.1 (List.mem_zipIdx_iff_getElem?.1 hsi)
    obtain ⟨r, hr, hlt, hc⟩ := termStep_spec h hlen hy ⟨i, hi⟩ hb
    simp only [Fin.getElem_fin, hs] at hr hc
    refine ⟨r, hr, hlt, ?_⟩
    rw [hc, dif_pos hi]
  obtain ⟨r, hr, hlt, hc⟩ := Outcome.foldlM_sim (f := termStep shares byteIdx)
    (g := fun (acc : Gf) (si : Share × ℕ) =>
      acc + (if hi : si.2 < shares.length then weightAt pt shares ⟨si.2, hi⟩ else 0) * y (pt si.1))
    (fun r => (r : Gf)) (fun r => r < PRIME) (l := shares.zipIdx) hstep (b := 0) (by norm_num)
  refine ⟨r, hr, hlt, ?_⟩
  rw [hc, foldl_zipIdx_add, Nat.cast_zero, zero_add, atZero_map]
  refine Finset.sum_congr rfl fun i _ => ?_
  rw [dif_pos i.isLt]

/-! ## The two operations -/

/-- the byte at position b of a share -/
def byteAt (s : Share) (b : ℕ) : Gf := ((s.data.getD b 0).toNat : Gf)

/-- what `reconstruct` returns: byte by byte the interpolation at 0 -/
theorem reconstruct_spec {shares : List Share} (hne : shares ≠ []) (h : Distinct shares) {m : ℕ}
    (hlen : ∀ s ∈ shares, s.data.length = m) {y : ℕ → Gf → Gf} (hy : ∀ b < m, ∀ s ∈ shares, y b (pt s) = byteAt s b) :
    ∃ out : Bytes, reconstruct shares = .ok out ∧ out.length = m ∧
      ∀ b < m, (out.getD b 0).toNat < PRIME ∧ ((out.getD b 0).toNat : Gf) = atZero (shares.map pt) (y b) := by
  obtain ⟨first, rest, rfl⟩ := List.exists_cons_of_ne_nil hne
  have hfirst : first.data.length = m := hlen first List.mem_cons_self
  obtain ⟨out, hout, hF⟩ := Outcome.mapM_spec
    (f := fun byteIdx => UInt8.ofNat <$> lagrangeByte (first :: rest) byteIdx)
    (fun b o => o.toNat < PRIME ∧ (o.toNat : Gf) = atZero ((first :: rest).map pt) (y b)) (l := List.range m)
    (fun b hb => by
      have hbm : b < m := List.mem_range.1 hb
      obtain ⟨r, hr, hlt, hc⟩ := lagrangeByte_spec h.spaced (fun s hs => by rw [hlen s hs]; exact hbm) (hy b hbm)
      refine ⟨UInt8.ofNat r, ?_, ?_, ?_⟩
      · rw [hr, Outcome.map_ok]
      · rwa [ofNat_toNat hlt]
      · rwa [ofNat_toNat hlt])
  have hol : out.length = m := by simpa using hF.length_eq.symm
  refine ⟨out, ?_, hol, fun b hb => ?_⟩
  · simp only [reconstruct, List.isEmpty_cons, Bool.not_false, Outcome.assert_true, Outcome.ok_bind,
      Outcome.index_ok (l := first :: rest) (i := 0) (by simp), List.getElem_cons_zero, hfirst]
    exact hout
  · rw [List.getD_eq_getElem _ _ (by omega)]
    have := (List.forall₂_iff_get.1 hF).2 b (by simpa using hb) (by omega)
    simpa using this

/-- the preconditions that `split` asserts -/
structure Accepts (secret : Bytes) (threshold numShares : ℕ) : Prop where
  two_le : 2 ≤ threshold
  le_shares : threshold ≤ numShares
  shares_le : numShares ≤ 250
  bytes_lt : ∀ b ∈ secret, b.toNat < PRIME

/-- the polynomial that hides byte b of the secret -/
noncomputable def secretPoly (rand : ℕ → ℕ → UInt8) (secret : Bytes) (threshold b : ℕ) : Polynomial Gf :=
  polyOf (coeffs threshold (rand b) (secret.getD b 0))

/-- the sampled coefficients are 1 to 250, never 0 -/
theorem sampled_range (r : UInt8) :
    1 ≤ (r % (UInt8.ofNat PRIME - 1) + 1).toNat ∧ (r % (UInt8.ofNat PRIME - 1) + 1).toNat < PRIME := by
  have h : ∀ n : Fin 256, 1 ≤ (UInt8.ofNat n % (UInt8.ofNat PRIME - 1) + 1).toNat ∧
      (UInt8.ofNat n % (UInt8.ofNat PRIME - 1) + 1).toNat < PRIME := by decide +kernel
  simpa using h ⟨r.toNat, r.toNat_lt⟩

theorem coeffs_lt (threshold : ℕ) (rand : ℕ → UInt8) {b : UInt8} (hb : b.toNat < PRIME) :
    ∀ c ∈ coeffs threshold rand b, c.toNat < PRIME := by
  intro c hc
  rcases List.mem_cons.1 hc with rfl | hc
  · exact hb
  · obtain ⟨i, _, rfl⟩ := List.mem_map.1 hc
    exact (sampled_range _).2

theorem getD_lt {secret : Bytes} (h : ∀ b ∈ secret, b.toNat < PRIME) (i : ℕ) : (secret.getD i 0).toNat < PRIME := by
  by_cases hi : i < secret.length
  · rw [List.getD_eq_getElem _ _ hi]
    exact h _ (List.getElem_mem _)
  · rw [List.getD_eq_default _ _ (by omega)]
    norm_num

/-- a share of the secret: every byte is the value of that byte's polynomial at the share's index -/
structure IsShare (rand : ℕ → ℕ → UInt8) (secret : Bytes) (threshold : ℕ) (s : Share) : Prop where
  len : s.data.length = secret.length
  byte : ∀ b < secret.length, (s.data.getD b 0).toNat < PRIME ∧ byteAt s b = (secretPoly rand secret threshold b).eval (pt s)

/-- the first k bytes of the share are set -/
structure IsShareTo (rand : ℕ → ℕ → UInt8) (secret : Bytes) (threshold k : ℕ) (s : Share) : Prop where
  len : s.data.length = secret.length
  byte : ∀ b < k, (s.data.getD b 0).toNat < PRIME ∧ byteAt s b = (secretPoly rand secret threshold b).eval (pt s)

section

variable {secret : Bytes} {threshold numShares : ℕ}

/-- one byte more of one share -/
theorem shareByte_spec (h : Accepts secret threshold numShares) (rand : ℕ → ℕ → UInt8) {k : ℕ} (hk : k < secret.length)
    {s : Share} (hs : IsShareTo rand secret threshold k s) :
    ∃ y, evalAt (coeffs threshold (rand k) secret[k]) s.index.toNat = .ok y ∧
      IsShareTo rand secret threshold (k + 1) { s with data := s.data.set k (UInt8.ofNat y) } := by
  obtain ⟨y, hy, hlt, hc⟩ := evalAt_spec (x := s.index.toNat) s.index.toNat_lt
    (coeffs_lt threshold (rand k) (h.bytes_lt _ (List.getElem_mem hk)))
  have hks : k < s.data.length := by rwa [hs.len]
  have hself : (s.data.set k (UInt8.ofNat y)).getD k 0 = UInt8.ofNat y := by
    rw [List.getD_eq_getElem _ _ (by simpa using hks), List.getElem_set_self]
  have hother : ∀ b, b ≠ k → (s.data.set k (UInt8.ofNat y)).getD b 0 = s.data.getD b 0 := by
    intro b hb
    simp [List.getD, List.getElem?_set_ne (Ne.symm hb)]
  refine ⟨y, hy, by simpa using hs.len, fun b hb => ?_⟩
  by_cases hbk : b = k
  · subst hbk
    refine ⟨by rwa [hself, ofNat_toNat hlt], ?_⟩
    rw [byteAt, hself, ofNat_toNat hlt, hc, secretPoly, List.getD_eq_getElem _ _ hk]
    rfl
  · rw [byteAt, hother b hbk]
    exact hs.byte b (by omega)

/-- one byte more of every share -/
theorem splitByte_spec (h : Accepts secret threshold numShares) (rand : ℕ → ℕ → UInt8) {k : ℕ} (hk : k < secret.length)
    {shares : List Share} (hshares : ∀ s ∈ shares, IsShareTo rand secret threshold k s) :
    ∃ shares', splitByte threshold rand shares (secret[k], k) = .ok shares' ∧
      shares'.map Share.index = shares.map Share.index ∧ ∀ s ∈ shares', IsShareTo rand secret threshold (k + 1) s := by
  have hone : ∀ s ∈ shares, ∃ s', (do
      let y ← evalAt (coeffs threshold (rand k) secret[k]) s.index.toNat
      let data ← Outcome.setIndex s.data k (UInt8.ofNat y)
      return { s with data := data } : Outcome Share) = .ok s' ∧
      IsShareTo rand secret threshold (k + 1) s' ∧ s'.index = s.index := by
    intro s hs
    obtain ⟨y, hy, hs'⟩ := shareByte_spec h rand hk (hshares s hs)
    have hks : k < s.data.length := by rwa [(hshares s hs).len]
    exact ⟨_, by simp only [hy, Outcome.setIndex_ok hks, Outcome.ok_bind, Outcome.pure_eq], hs', rfl⟩
  obtain ⟨shares', hmap, hF⟩ := Outcome.mapM_spec
    (fun s s' : Share => IsShareTo rand secret threshold (k + 1) s' ∧ s'.index = s.index) hone
  obtain ⟨hset, hidx⟩ := (List.forall₂_and_left shares' shares).1 hF.flip
  refine ⟨shares', hmap, ?_, hset⟩
  rw [← List.forall₂_eq_eq_eq, List.forall₂_map_left_iff, List.forall₂_map_right_iff]
  exact hidx

/-- **What `split` returns**: without a panic, n shares with the indices 1 to n in order, each a share of the secret. -/
theorem split_spec (h : Accepts secret threshold numShares) (rand : ℕ → ℕ → UInt8) :
    ∃ shares, split rand secret threshold numShares = .ok shares ∧
      shares.map Share.index = (List.range numShares).map (fun i => UInt8.ofNat (i + 1)) ∧
      ∀ s ∈ shares, IsShare rand secret threshold s := by
  -- after k bytes every share is set up to its byte k
  obtain ⟨shares, hr, hidx, hshares⟩ := Outcome.foldlM_zipIdx (f := splitByte threshold rand) (l := secret)
    (fun k shares => shares.map Share.index = (List.range numShares).map (fun i => UInt8.ofNat (i + 1)) ∧
      ∀ s ∈ shares, IsShareTo rand secret threshold k s)
    (fun k hk shares hinv => by
      obtain ⟨shares', hsplit, hsame, hset⟩ := splitByte_spec h rand hk hinv.2
      exact ⟨shares', hsplit, hsame.trans hinv.1, hset⟩)
    (b := (List.range numShares).map fun i => ⟨UInt8.ofNat (i + 1), List.replicate secret.length 0⟩)
    (by
      refine ⟨by simp, fun s hs => ?_⟩
      obtain ⟨i, _, rfl⟩ := List.mem_map.1 hs
      exact ⟨List.length_replicate, fun b hb => absurd hb (by omega)⟩)
  refine ⟨shares, ?_, hidx, fun s hs => ⟨(hshares s hs).len, (hshares s hs).byte⟩⟩
  have hall : (secret.all fun b => decide (b.toNat < PRIME)) = true := by simpa using h.bytes_lt
  have h1 := h.two_le
  have h2 := h.le_shares
  have h3 := h.shares_le
  simp only [split, ge_iff_le, h1, h2, h3, hall, decide_true, Outcome.assert_true, Outcome.ok_bind]
  exact hr

end

/-! ## The shares of one split -/

theorem length_coeffs {threshold : ℕ} (h : 2 ≤ threshold) (rand : ℕ → UInt8) (b : UInt8) :
    (coeffs threshold rand b).length = threshold := by
  simp only [coeffs, List.length_cons, List.length_map, List.length_range]
  omega

theorem coeff_secretPoly (rand : ℕ → ℕ → UInt8) (secret : Bytes) (threshold b j : ℕ) :
    (secretPoly rand secret threshold b).coeff j =
      (((coeffs threshold (rand b) (secret.getD b 0)).getD j 0).toNat : Gf) := by
  rw [secretPoly, polyOf, coeff_poly]
  generalize coeffs threshold (rand b) (secret.getD b 0) = cs
  rw [List.getD_eq_getElem?_getD, List.getElem?_map, List.getD_eq_getElem?_getD]
  cases cs[j]? with
  | none => simp
  | some c => rfl

/-- a sampled coefficient is never zero -/
theorem coeff_secretPoly_ne_zero (rand : ℕ → ℕ → UInt8) (secret : Bytes) {threshold : ℕ} (b : ℕ) {j : ℕ} (h1 : 1 ≤ j)
    (h2 : j < threshold) : (secretPoly rand secret threshold b).coeff j ≠ 0 := by
  obtain ⟨i, rfl⟩ := Nat.exists_eq_add_of_le' h1
  have hi : i < threshold - 1 := by omega
  rw [coeff_secretPoly, coeffs, List.getD_cons_succ, List.getD_eq_getElem?_getD, List.getElem?_map,
    List.getElem?_range hi, Option.map_some, Option.getD_some]
  obtain ⟨hlo, hlt⟩ := sampled_range (rand b i)
  intro e
  have := cast_inj_of_lt hlt (by norm_num) (by simpa using e : ((_ : ℕ) : Gf) = ((0 : ℕ) : Gf))
  omega

theorem secretPoly_eval_zero (rand : ℕ → ℕ → UInt8) (secret : Bytes) (threshold b : ℕ) :
    (secretPoly rand secret threshold b).eval 0 = ((secret.getD b 0).toNat : Gf) := by
  rw [← Polynomial.coeff_zero_eq_eval_zero, coeff_secretPoly]
  rfl

theorem degree_secretPoly_lt {threshold : ℕ} (h : 2 ≤ threshold) (rand : ℕ → ℕ → UInt8) (secret : Bytes) (b : ℕ) :
    (secretPoly rand secret threshold b).degree < threshold := by
  have := degree_poly_lt ((coeffs threshold (rand b) (secret.getD b 0)).map fun c => (c.toNat : Gf))
  rwa [List.length_map, length_coeffs h] at this

theorem index_range {shares : List Share} {numShares : ℕ} (hn : numShares ≤ 250)
    (hidx : shares.map Share.index = (List.range numShares).map fun i => UInt8.ofNat (i + 1)) {s : Share}
    (hs : s ∈ shares) : 1 ≤ s.index.toNat ∧ s.index.toNat ≤ numShares := by
  have hm : s.index ∈ shares.map Share.index := List.mem_map_of_mem hs
  rw [hidx] at hm
  obtain ⟨i, hi, he⟩ := List.mem_map.1 hm
  have hin : i < numShares := List.mem_range.1 hi
  rw [← he, ofNat_toNat (by unfold PRIME; omega)]
  omega

theorem nodup_index {shares : List Share} {numShares : ℕ} (hn : numShares ≤ 250)
    (hidx : shares.map Share.index = (List.range numShares).map fun i => UInt8.ofNat (i + 1)) :
    (shares.map Share.index).Nodup := by
  rw [hidx]
  refine List.Nodup.map_on (fun i hi j hj e => ?_) List.nodup_range
  rw [List.mem_range] at hi hj
  have he := congrArg UInt8.toNat e
  rw [ofNat_toNat (by unfold PRIME; omega), ofNat_toNat (by unfold PRIME; omega)] at he
  exact Nat.succ_injective he

theorem exists_share {shares : List Share} {numShares : ℕ}
    (hidx : shares.map Share.index = (List.range numShares).map fun i => UInt8.ofNat (i + 1)) {x : UInt8}
    (h1 : 1 ≤ x.toNat) (h2 : x.toNat ≤ numShares) : ∃ s ∈ shares, s.index = x := by
  have hm : x ∈ shares.map Share.index := by
    rw [hidx, List.mem_map]
    refine ⟨x.toNat - 1, List.mem_range.2 (by omega), ?_⟩
    rw [Nat.sub_add_cancel h1, UInt8.ofNat_toNat]
  obtain ⟨s, hs, he⟩ := List.mem_map.1 hm
  exact ⟨s, hs, he⟩

/-- a list of shares of one split with pairwise distinct indices -/
theorem distinct_of_split {shares l : List Share} {numShares : ℕ} (hn : numShares ≤ 250)
    (hidx : shares.map Share.index = (List.range numShares).map fun i => UInt8.ofNat (i + 1))
    (hl : ∀ s ∈ l, s ∈ shares) (hnd : (l.map Share.index).Nodup) : Distinct l :=
  ⟨hnd, fun s hs => (index_range hn hidx (hl s hs)).1, fun s hs => (index_range hn hidx (hl s hs)).2.trans hn⟩

/-! ## The text form -/

theorem decodeShare_encodeShare {base64 : Codec Bytes String} (hb : base64.Lawful) (s : Share) :
    decodeShare base64 (encodeShare base64 s) = .ok s := by
  have hcolon : ':' ∉ (toString s.index.toNat).toList := by
    intro hm
    have hd : (':' : Char).isDigit = true :=
      Nat.isDigit_of_mem_toDigits (b := 10) (n := s.index.toNat) (by norm_num) le_rfl (by simpa [Nat.repr] using hm)
    exact absurd hd (by decide)
  rw [decodeShare, encodeShare, splitn2_append hcolon]
  simp only [parseU8_digits, hb s.data]
  rfl

theorem decodeShares_encodeShares {base64 : Codec Bytes String} (hb : base64.Lawful) (l : List Share) :
    decodeShares base64 (encodeShares base64 l) = .ok l := by
  induction l with
  | nil => rfl
  | cons s l ih =>
    simp only [decodeShares, encodeShares, List.map_cons, List.mapM_cons] at ih ⊢
    rw [decodeShare_encodeShare hb, ih]
    rfl

end AbirGuard.Rust.Shamir
