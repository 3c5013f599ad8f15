/-
The threshold property of `src/shamir.rs`.

- `reconstruct_split`: any list of at least t shares of one split, with pairwise distinct indices and in any order, taken
  directly or through its text form, reconstructs the secret. Both programs return, so no intermediate product leaves 16
  bits, no subtraction goes below zero and zero is never inverted.
- `reconstruct_one_fewer`: t - 1 shares reconstruct something else at every byte, since the sampled coefficient of degree
  t - 1 is never zero.
- `same_shares_iff`: which secrets t - 1 shares leave possible. `split` samples its coefficients from 1 to 250 and never
  draws a zero, so t - 1 shares rule out every secret whose polynomial through them would need one. The other secrets all
  remain possible.
- `no_second_secret`: with two shares and threshold 2, share 1 of the secret 0 under the coefficient 1 is the byte 1, and no
  random byte gives that share to the secret 1.

Premise: base64 decoding inverts encoding.
-/
import AbirGuard.Core.Base64
import AbirGuard.Rust.Shamir

namespace AbirGuard.Rust.ShamirThreshold

open AbirGuard.Core AbirGuard.Core.Threshold AbirGuard.Rust.Shamir

/-! ## Enough shares -/

/-- interpolation at 0 of enough shares of a byte gives the byte -/
theorem atZero_shares {rand : ℕ → ℕ → UInt8} {secret : Bytes} {threshold : ℕ} (h2 : 2 ≤ threshold) {l : List Share}
    (hl : Distinct l) (hlen : threshold ≤ l.length) (b : ℕ) :
    atZero (l.map pt) (fun x => (secretPoly rand secret threshold b).eval x) = ((secret.getD b 0).toNat : Gf) := by
  have hdeg : (secretPoly rand secret threshold b).degree < (l.map pt).length := by
    refine (degree_secretPoly_lt h2 rand secret b).trans_le ?_
    rw [List.length_map]
    exact_mod_cast hlen
  rw [atZero_eq hl.pts_nodup hdeg, secretPoly_eval_zero]

theorem reconstruct_shares {rand : ℕ → ℕ → UInt8} {secret : Bytes} {threshold numShares : ℕ}
    (h : Accepts secret threshold numShares) {l : List Share} (hl : Distinct l) (hlen : threshold ≤ l.length)
    (hs : ∀ s ∈ l, IsShare rand secret threshold s) : reconstruct l = .ok secret := by
  have hne : l ≠ [] := by
    intro e
    have := h.two_le
    rw [e, List.length_nil] at hlen
    omega
  obtain ⟨out, hout, hol, hbytes⟩ := reconstruct_spec hne hl (fun s hm => (hs s hm).len)
    (y := fun b x => (secretPoly rand secret threshold b).eval x)
    (fun b hb s hm => ((hs s hm).byte b hb).2.symm)
  rw [hout]
  congr 1
  apply List.ext_getElem hol
  intro i hi hi'
  obtain ⟨hlt, hc⟩ := hbytes i hi'
  rw [atZero_shares h.two_le hl hlen] at hc
  have hb := cast_inj_of_lt hlt (getD_lt h.bytes_lt i) hc
  rw [List.getD_eq_getElem _ _ hi, List.getD_eq_getElem _ _ hi'] at hb
  exact UInt8.toNat_inj.1 hb

/-- **Any t shares reconstruct.** -/
theorem reconstruct_split {secret : Bytes} {threshold numShares : ℕ} (h : Accepts secret threshold numShares)
    (rand : ℕ → ℕ → UInt8) {base64 : Codec Bytes String} (hb : base64.Lawful) :
    ∃ shares, split rand secret threshold numShares = .ok shares ∧
      ∀ l : List Share, (∀ s ∈ l, s ∈ shares) → (l.map Share.index).Nodup → threshold ≤ l.length →
        reconstruct l = .ok secret ∧
        ∃ l', decodeShares base64 (encodeShares base64 l) = .ok l' ∧ reconstruct l' = .ok secret := by
  obtain ⟨shares, hsplit, hidx, hshares⟩ := split_spec h rand
  refine ⟨shares, hsplit, fun l hl hnd hlen => ?_⟩
  have hrec : reconstruct l = .ok secret :=
    reconstruct_shares h (distinct_of_split h.shares_le hidx hl hnd) hlen fun s hs => hshares s (hl s hs)
  exact ⟨hrec, l, decodeShares_encodeShares hb l, hrec⟩

theorem accepts_hi : Accepts [104, 105] 2 3 :=
  ⟨le_rfl, by norm_num, by norm_num, by simp [PRIME]⟩

theorem reconstruct_split_hi :
    ∃ shares, split (fun i j => UInt8.ofNat (7 * i + j)) [104, 105] 2 3 = .ok shares ∧
      ∀ l : List Share, (∀ s ∈ l, s ∈ shares) → (l.map Share.index).Nodup → 2 ≤ l.length →
        reconstruct l = .ok [104, 105] ∧
        ∃ l', decodeShares base64 (encodeShares base64 l) = .ok l' ∧ reconstruct l' = .ok [104, 105] :=
  reconstruct_split accepts_hi _ base64_lawful

/-! ## One share fewer -/

/-- interpolation at 0 of one share fewer misses the byte -/
theorem atZero_shares_ne {rand : ℕ → ℕ → UInt8} {secret : Bytes} {threshold : ℕ} (h2 : 2 ≤ threshold) {l : List Share}
    (hl : Distinct l) (hlen : l.length + 1 = threshold) (b : ℕ) :
    atZero (l.map pt) (fun x => (secretPoly rand secret threshold b).eval x) ≠ ((secret.getD b 0).toNat : Gf) := by
  have h0 : ∀ x ∈ l.map pt, x ≠ 0 := by
    intro x hx
    obtain ⟨s, hs, rfl⟩ := List.mem_map.1 hx
    exact pt_ne_zero (hl.pos s hs) (hl.le s hs)
  have hpts : (l.map pt).length + 1 = threshold := by rw [List.length_map, hlen]
  have hdeg : (secretPoly rand secret threshold b).degree < ((l.map pt).length + 1 : ℕ) := by
    rw [hpts]
    exact degree_secretPoly_lt h2 rand secret b
  have htop : (secretPoly rand secret threshold b).coeff (l.map pt).length ≠ 0 :=
    coeff_secretPoly_ne_zero rand secret b (by omega) (by omega)
  rw [← secretPoly_eval_zero rand secret threshold b]
  exact atZero_ne hl.pts_nodup h0 hdeg htop

/-- **t - 1 shares always miss.** -/
theorem reconstruct_one_fewer {secret : Bytes} {threshold numShares : ℕ} (h : Accepts secret threshold numShares)
    (rand : ℕ → ℕ → UInt8) :
    ∃ shares, split rand secret threshold numShares = .ok shares ∧
      ∀ l : List Share, (∀ s ∈ l, s ∈ shares) → (l.map Share.index).Nodup → l.length + 1 = threshold →
        ∃ out, reconstruct l = .ok out ∧ out.length = secret.length ∧
          ∀ b < secret.length, out.getD b 0 ≠ secret.getD b 0 := by
  obtain ⟨shares, hsplit, hidx, hshares⟩ := split_spec h rand
  refine ⟨shares, hsplit, fun l hl hnd hlen => ?_⟩
  have hD := distinct_of_split h.shares_le hidx hl hnd
  have hne : l ≠ [] := by
    intro e
    have := h.two_le
    rw [e, List.length_nil] at hlen
    omega
  obtain ⟨out, hout, hol, hbytes⟩ := reconstruct_spec hne hD (fun s hm => (hshares s (hl s hm)).len)
    (y := fun b x => (secretPoly rand secret threshold b).eval x)
    (fun b hb s hm => ((hshares s (hl s hm)).byte b hb).2.symm)
  refine ⟨out, hout, hol, fun b hb e => ?_⟩
  have hmiss : atZero (l.map pt) (fun x => (secretPoly rand secret threshold b).eval x) ≠ ((secret.getD b 0).toNat : Gf) :=
    atZero_shares_ne h.two_le hD hlen b
  apply hmiss
  rw [← (hbytes b hb).2, e]

theorem reconstruct_one_fewer_hi :
    ∃ shares, split (fun i j => UInt8.ofNat (7 * i + j)) [104, 105] 2 3 = .ok shares ∧
      ∀ l : List Share, (∀ s ∈ l, s ∈ shares) → (l.map Share.index).Nodup → l.length + 1 = 2 →
        ∃ out, reconstruct l = .ok out ∧ out.length = [(104 : UInt8), 105].length ∧
          ∀ b < [(104 : UInt8), 105].length, out.getD b 0 ≠ [(104 : UInt8), 105].getD b 0 :=
  reconstruct_one_fewer accepts_hi _

/-- the shares at chosen indices -/
def sharesAt (xs : List UInt8) (shares : List Share) : List Share := shares.filter fun s => s.index ∈ xs

/-- the points of chosen indices -/
def pts (xs : List UInt8) : List Gf := xs.map fun x => (x.toNat : Gf)

/-- the coefficient of degree j of the polynomial that puts the other secret byte under the same t - 1 shares: the sampled
one, moved by the difference of the two bytes times the coefficient of the product of (1 - X / x) over the indices -/
noncomputable def refitCoeff (rand : ℕ → ℕ → UInt8) (secret secret' : Bytes) (threshold : ℕ) (xs : List UInt8) (b j : ℕ) : Gf :=
  (((coeffs threshold (rand b) (secret.getD b 0)).getD j 0).toNat : Gf) +
    (((secret'.getD b 0).toNat : Gf) - ((secret.getD b 0).toNat : Gf)) * (vanish (pts xs)).coeff j

section Secrecy

variable {secret secret' : Bytes} {threshold numShares : ℕ} {xs : List UInt8}

theorem pts_nodup (hle : ∀ x ∈ xs, x.toNat ≤ 250) (hnd : xs.Nodup) : (pts xs).Nodup := by
  rw [pts, List.nodup_map_iff_inj_on hnd]
  intro x hx x' hx' e
  have h1 := hle x hx
  have h2 := hle x' hx'
  exact UInt8.toNat_inj.1 (cast_inj_of_lt (by unfold PRIME; omega) (by unfold PRIME; omega) e)

theorem pts_ne_zero (hpos : ∀ x ∈ xs, 1 ≤ x.toNat) (hle : ∀ x ∈ xs, x.toNat ≤ 250) : ∀ p ∈ pts xs, p ≠ 0 := by
  intro p hp e
  obtain ⟨x, hx, rfl⟩ := List.mem_map.1 hp
  have h1 := hpos x hx
  have h2 := hle x hx
  have : x.toNat = 0 := cast_inj_of_lt (by unfold PRIME; omega) (by norm_num) (by simpa using e)
  omega

/-- the polynomial of the refitted coefficients -/
theorem refit_coeff (rand : ℕ → ℕ → UInt8) (b j : ℕ) :
    (refit (secretPoly rand secret threshold b) (pts xs)
      (((secret'.getD b 0).toNat : Gf) - ((secret.getD b 0).toNat : Gf))).coeff j =
      refitCoeff rand secret secret' threshold xs b j := by
  rw [refit, Polynomial.coeff_add, Polynomial.coeff_C_mul, coeff_secretPoly, refitCoeff]

/-- equal shares at t - 1 indices leave one polynomial per secret byte: the refitted one -/
theorem secretPoly_of_sharesAt (h : Accepts secret threshold numShares) (h' : Accepts secret' threshold numShares)
    (hlen : secret.length = secret'.length) (hnd : xs.Nodup) (hpos : ∀ x ∈ xs, 1 ≤ x.toNat)
    (hle : ∀ x ∈ xs, x.toNat ≤ numShares) (hcard : xs.length + 1 = threshold) {rand rand' : ℕ → ℕ → UInt8}
    {shares shares' : List Share} (hs : split rand secret threshold numShares = .ok shares)
    (hs' : split rand' secret' threshold numShares = .ok shares') (heq : sharesAt xs shares = sharesAt xs shares')
    {b : ℕ} (hb : b < secret.length) :
    secretPoly rand' secret' threshold b = refit (secretPoly rand secret threshold b) (pts xs)
      (((secret'.getD b 0).toNat : Gf) - ((secret.getD b 0).toNat : Gf)) := by
  obtain ⟨_, e, hidx, hsh⟩ := split_spec h rand
  cases hs.symm.trans e
  obtain ⟨_, e', _, hsh'⟩ := split_spec h' rand'
  cases hs'.symm.trans e'
  have h250 : ∀ x ∈ xs, x.toNat ≤ 250 := fun x hx => (hle x hx).trans h.shares_le
  have hl : (pts xs).length + 1 = threshold := by rw [pts, List.length_map]; exact hcard
  rw [← secretPoly_eval_zero rand' secret' threshold b, ← secretPoly_eval_zero rand secret threshold b]
  refine refit_unique (pts_nodup h250 hnd) (pts_ne_zero hpos h250) ?_ ?_ fun p hp => ?_
  · rw [hl]; exact degree_secretPoly_lt h.two_le _ _ _
  · rw [hl]; exact degree_secretPoly_lt h'.two_le _ _ _
  · -- the share at this index belongs to both runs
    obtain ⟨x, hx, rfl⟩ := List.mem_map.1 hp
    obtain ⟨s, hsm, rfl⟩ := exists_share hidx (hpos x hx) (hle x hx)
    have hin : s ∈ sharesAt xs shares := List.mem_filter.2 ⟨hsm, by simpa using hx⟩
    rw [heq] at hin
    have h1 := ((hsh s hsm).byte b hb).2
    have h2 := ((hsh' s (List.mem_filter.1 hin).1).byte b (hlen ▸ hb)).2
    exact h2.symm.trans h1

/-- two sharings whose polynomials agree at the chosen indices give the same shares there -/
theorem sharesAt_eq (h : Accepts secret threshold numShares) (h' : Accepts secret' threshold numShares)
    (hlen : secret.length = secret'.length) {rand rand' : ℕ → ℕ → UInt8} {shares shares' : List Share}
    (hs : split rand secret threshold numShares = .ok shares)
    (hs' : split rand' secret' threshold numShares = .ok shares')
    (heval : ∀ b < secret.length, ∀ x ∈ xs, (secretPoly rand' secret' threshold b).eval (x.toNat : Gf) =
      (secretPoly rand secret threshold b).eval (x.toNat : Gf)) :
    sharesAt xs shares = sharesAt xs shares' := by
  obtain ⟨_, e, hidx, hsh⟩ := split_spec h rand
  cases hs.symm.trans e
  obtain ⟨_, e', hidx', hsh'⟩ := split_spec h' rand'
  cases hs'.symm.trans e'
  have hF : List.Forall₂ (fun s s' => s.index = s'.index) shares shares' := by
    have : List.Forall₂ (· = ·) (shares.map Share.index) (shares'.map Share.index) := by
      rw [hidx, hidx', List.forall₂_eq_eq_eq]
    exact List.forall₂_map_left_iff.1 (List.forall₂_map_right_iff.1 this)
  -- at a chosen index the two shares agree byte by byte
  have hsame : ∀ s ∈ shares, ∀ s' ∈ shares', s.index = s'.index → s.index ∈ xs → s = s' := by
    intro s hsm s' hsm' hi hx
    have hdata : s.data = s'.data := by
      apply List.ext_getElem
      · rw [(hsh s hsm).len, (hsh' s' hsm').len, hlen]
      · intro b hb hb'
        have hbl : b < secret.length := by rw [← (hsh s hsm).len]; exact hb
        obtain ⟨hlt, hc⟩ := (hsh s hsm).byte b hbl
        obtain ⟨hlt', hc'⟩ := (hsh' s' hsm').byte b (hlen ▸ hbl)
        have hpt : pt s' = pt s := by rw [pt, pt, hi]
        have heq : ((s.data.getD b 0).toNat : Gf) = ((s'.data.getD b 0).toNat : Gf) := by
          have h1 := heval b hbl _ hx
          rw [byteAt] at hc hc'
          rw [hc, hc', hpt]
          exact h1.symm
        have := cast_inj_of_lt hlt hlt' heq
        rw [List.getD_eq_getElem _ _ hb, List.getD_eq_getElem _ _ hb'] at this
        exact UInt8.toNat_inj.1 this
    cases s; cases s'; simp_all
  unfold sharesAt
  clear hidx hidx' hs hs' e e' hsh hsh'
  induction hF with
  | nil => rfl
  | @cons s s' l l' hi _ ih =>
    have ih' := ih fun a ha a' ha' => hsame a (List.mem_cons_of_mem _ ha) a' (List.mem_cons_of_mem _ ha')
    by_cases hx : s.index ∈ xs
    · have := hsame s List.mem_cons_self s' List.mem_cons_self hi hx
      subst this
      simp [hx, ih']
    · have hx' : s'.index ∉ xs := by rwa [← hi]
      simp [hx, hx', ih']

theorem sampled_of_val {v : Gf} (hv : v ≠ 0) :
    (UInt8.ofNat (v.val - 1) % (UInt8.ofNat PRIME - 1) + 1).toNat = v.val := by
  have hall : ∀ n : Fin 251, n.val ≠ 0 → (UInt8.ofNat (n.val - 1) % (UInt8.ofNat PRIME - 1) + 1).toNat = n.val := by
    decide +kernel
  exact hall ⟨v.val, v.val_lt⟩ ((ZMod.val_ne_zero v).2 hv)

/-- random bytes that sample given nonzero coefficients -/
def randFor (c : ℕ → ℕ → Gf) (b i : ℕ) : UInt8 := UInt8.ofNat ((c b (i + 1)).val - 1)

theorem coeff_randFor {c : ℕ → ℕ → Gf} {b j : ℕ} (h1 : 1 ≤ j) (h2 : j < threshold) (hc : c b j ≠ 0) :
    (secretPoly (randFor c) secret threshold b).coeff j = c b j := by
  obtain ⟨i, rfl⟩ := Nat.exists_eq_add_of_le' h1
  have hi : i < threshold - 1 := by omega
  rw [coeff_secretPoly, coeffs, List.getD_cons_succ, List.getD_eq_getElem?_getD, List.getElem?_map,
    List.getElem?_range hi, Option.map_some, Option.getD_some, randFor, sampled_of_val hc, ZMod.natCast_zmod_val]

/-- **What t - 1 shares leave open.** Some random bytes give the second secret the same shares at t - 1 indices as the
first one has if and only if no refitted coefficient of degree 1 to t - 1 is zero, at any byte. -/
theorem same_shares_iff (h : Accepts secret threshold numShares) (h' : Accepts secret' threshold numShares)
    (hlen : secret.length = secret'.length) (hnd : xs.Nodup) (hpos : ∀ x ∈ xs, 1 ≤ x.toNat)
    (hle : ∀ x ∈ xs, x.toNat ≤ numShares) (hcard : xs.length + 1 = threshold) (rand : ℕ → ℕ → UInt8) :
    (∃ rand' shares shares', split rand secret threshold numShares = .ok shares ∧
      split rand' secret' threshold numShares = .ok shares' ∧ sharesAt xs shares = sharesAt xs shares') ↔
    ∀ b < secret.length, ∀ j, 1 ≤ j → j < threshold → refitCoeff rand secret secret' threshold xs b j ≠ 0 := by
  constructor
  · rintro ⟨rand', shares, shares', hs, hs', heq⟩ b hb j h1 h2
    have hpoly := secretPoly_of_sharesAt h h' hlen hnd hpos hle hcard hs hs' heq hb
    rw [← refit_coeff, ← hpoly]
    exact coeff_secretPoly_ne_zero rand' secret' b h1 h2
  · intro hne
    obtain ⟨shares, hs, _⟩ := split_spec h rand
    let rand' := randFor (refitCoeff rand secret secret' threshold xs)
    obtain ⟨shares', hs', _⟩ := split_spec h' rand'
    have h250 : ∀ x ∈ xs, x.toNat ≤ 250 := fun x hx => (hle x hx).trans h.shares_le
    have hdeg : ∀ b, (refit (secretPoly rand secret threshold b) (pts xs)
        (((secret'.getD b 0).toNat : Gf) - ((secret.getD b 0).toNat : Gf))).degree < threshold := by
      intro b
      have hl : (pts xs).length + 1 = threshold := by rw [pts, List.length_map]; exact hcard
      have := degree_refit_lt (((secret'.getD b 0).toNat : Gf) - ((secret.getD b 0).toNat : Gf))
        (show (secretPoly rand secret threshold b).degree < ((pts xs).length + 1 : ℕ) by
          rw [hl]; exact degree_secretPoly_lt h.two_le _ _ _)
      rwa [hl] at this
    have hpoly : ∀ b < secret.length, secretPoly rand' secret' threshold b =
        refit (secretPoly rand secret threshold b) (pts xs)
          (((secret'.getD b 0).toNat : Gf) - ((secret.getD b 0).toNat : Gf)) := by
      intro b hb
      ext j
      by_cases hj : j < threshold
      · rcases Nat.eq_zero_or_pos j with rfl | hpos'
        · rw [Polynomial.coeff_zero_eq_eval_zero, Polynomial.coeff_zero_eq_eval_zero, secretPoly_eval_zero,
            refit_eval_zero, secretPoly_eval_zero]
          ring
        · rw [refit_coeff, coeff_randFor hpos' hj (hne b hb j hpos' hj)]
      · have hj' : (threshold : WithBot ℕ) ≤ (j : ℕ) := by exact_mod_cast Nat.le_of_not_lt hj
        rw [Polynomial.coeff_eq_zero_of_degree_lt ((degree_secretPoly_lt h'.two_le _ _ _).trans_le hj'),
          Polynomial.coeff_eq_zero_of_degree_lt ((hdeg b).trans_le hj')]
    refine ⟨rand', shares, shares', hs, hs', sharesAt_eq h h' hlen hs hs' fun b hb x hx => ?_⟩
    have hx0 : (x.toNat : Gf) ∈ pts xs := List.mem_map_of_mem hx
    rw [hpoly b hb, refit_eval _ _ hx0 (pts_ne_zero hpos h250 _ hx0)]

end Secrecy

theorem accepts_one (b : UInt8) (hb : b.toNat < PRIME) : Accepts [b] 2 2 :=
  ⟨le_rfl, le_rfl, by norm_num, by simpa using hb⟩

theorem same_shares_iff_seven :
    (∃ rand' shares shares', split (fun _ _ => 4) [7] 2 2 = .ok shares ∧ split rand' [9] 2 2 = .ok shares' ∧
      sharesAt [1] shares = sharesAt [1] shares') ↔
    ∀ b < [(7 : UInt8)].length, ∀ j, 1 ≤ j → j < 2 → refitCoeff (fun _ _ => 4) [7] [9] 2 [1] b j ≠ 0 :=
  same_shares_iff (accepts_one 7 (by decide)) (accepts_one 9 (by decide)) rfl (by decide) (by simp) (by simp) rfl _

/-- Under the coefficient 1 the secret 0 has the byte 1 in share 1; the secret 1 would need the coefficient 0 there, and
`split` never samples it. -/
theorem no_second_secret :
    ¬ ∃ rand' shares shares', split (fun _ _ => 0) [0] 2 2 = .ok shares ∧ split rand' [1] 2 2 = .ok shares' ∧
      sharesAt [1] shares = sharesAt [1] shares' := by
  rintro ⟨rand', shares, shares', hs, hs', heq⟩
  have hpoly := secretPoly_of_sharesAt (accepts_one 0 (by decide)) (accepts_one 1 (by decide)) rfl (by decide)
    (by simp) (by simp) rfl hs hs' heq (b := 0) (by decide)
  apply coeff_secretPoly_ne_zero rand' [1] 0 le_rfl (by norm_num : 1 < 2)
  rw [hpoly, refit_coeff, refitCoeff]
  have hv : (vanish (pts [1])).coeff 1 = -1 := by
    simp [vanish, pts, Polynomial.coeff_one]
  rw [hv]
  decide

end AbirGuard.Rust.ShamirThreshold
