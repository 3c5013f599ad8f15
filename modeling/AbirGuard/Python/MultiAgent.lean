/-
Threshold key sharing for agent swarms: `MultiAgentKeySharing` of `multi_agent_key_sharing.py`.

A secret of any length is read as one big-endian number and shared modulo the Mersenne prime 2^521 - 1. `recover`
interpolates at 0 over the first `threshold` shares it is given and writes the number back at the requested length. Inverses
are powers by Fermat, so the inverse of a zero denominator is zero.

- `recover_split`: enough distinct shares of one split, in any order, give the secret's number modulo the prime, written at
  the secret's length.
- `recover_split_iff`: so they give the secret exactly when its number is below the prime. `split` does not check that.
- `recover_raises_iff`: `recover` raises `ValueError` exactly when it is given fewer shares than the threshold, or a negative
  length. It counts shares and not their points.
- `recover_repeated`: where every point among the shares used stands there twice, the key is all zero bytes.

The random coefficients are an argument. A list holds at most `sys.maxsize` entries.
-/
import AbirGuard.Core.Threshold
import AbirGuard.Python.Lang
import Mathlib.Algebra.Field.ZMod
import Mathlib.FieldTheory.Finite.Basic
import Mathlib.NumberTheory.LucasLehmer

namespace AbirGuard.Python.MultiAgent

open AbirGuard.Core AbirGuard.Core.Threshold

/-! ## Model -/

/-- a prime larger than 2^256 -/
@[irreducible] def PRIME : ℕ := 2 ^ 521 - 1

structure AgentShare where
  agentId : Text
  x : ℤ
  y : ℤ
deriving DecidableEq, Repr

structure QuorumPolicy where
  threshold : ℤ
  totalAgents : ℤ
deriving DecidableEq, Repr

structure MultiAgentKeySharing where
  policy : QuorumPolicy
  two_le : 2 ≤ policy.threshold
  le_total : policy.threshold ≤ policy.totalAgents

/-- `sys.maxsize` -/
def maxsize : ℕ := 2 ^ 63 - 1

/-- `list(agent_ids)` -/
structure AgentIds where
  ids : List Text
  len_le : ids.length ≤ maxsize

def toInt (secret : Bytes) : ℕ := ofBeBytes secret

namespace MultiAgentKeySharing

def new (policy : QuorumPolicy) : Except Exc MultiAgentKeySharing :=
  if h : 2 ≤ policy.threshold then
    if h' : policy.threshold ≤ policy.totalAgents then .ok ⟨policy, h, h'⟩
    else .error ⟨.valueError, "threshold cannot exceed total_agents"⟩
  else .error ⟨.valueError, "threshold must be >= 2"⟩

variable (self : MultiAgentKeySharing)

/-- the secret's number, then a draw from 1 to PRIME - 1 for each further coefficient -/
def coeffs (rand : ℕ → ℕ) (secret : Bytes) : List ℤ :=
  (toInt secret : ℤ) :: (List.range (self.policy.threshold - 1).toNat).map fun i => (rand i : ℤ) + 1

/-- one pass of the loop over the powers -/
def evalStep (idx : ℤ) (y : ℤ) (coeff : ℤ × ℕ) : ℤ := (y + coeff.1 * powMod idx coeff.2 PRIME) % PRIME

def evalAt (cs : List ℤ) (idx : ℤ) : ℤ := cs.zipIdx.foldl (evalStep idx) 0

/-- `rand i` is what the i-th call of randbelow(PRIME - 1) returns -/
def split (rand : ℕ → ℕ) (secret : Bytes) (agentIds : AgentIds) : Except Exc (List AgentShare) :=
  if (agentIds.ids.length : ℤ) ≠ self.policy.totalAgents then .error ⟨.valueError, "agent count mismatch"⟩
  else .ok <| (agentIds.ids.zipIdx 1).map fun a => ⟨a.1, a.2, evalAt (self.coeffs rand secret) a.2⟩

/-- one pass of the inner loop: numerator and denominator -/
def basisStep (si : AgentShare × ℕ) (acc : ℤ × ℤ) (sj : AgentShare × ℕ) : ℤ × ℤ :=
  if si.2 = sj.2 then acc else (acc.1 * -sj.1.x % PRIME, acc.2 * (si.1.x - sj.1.x) % PRIME)

/-- one pass of the outer loop -/
def termStep (subset : List AgentShare) (secret : ℤ) (si : AgentShare × ℕ) : ℤ :=
  let nd := subset.zipIdx.foldl (basisStep si) (1, 1)
  let lagrange := nd.1 * powMod nd.2 (PRIME - 2) PRIME % PRIME
  (secret + si.1.y * lagrange) % PRIME

def interpolate (subset : List AgentShare) : ℤ := subset.zipIdx.foldl (termStep subset) 0

def recover (shares : List AgentShare) (outputLen : ℤ := 32) : Except Exc Bytes :=
  if (shares.length : ℤ) < self.policy.threshold then .error ⟨.valueError, "insufficient quorum"⟩
  else toBytes (interpolate (shares.take self.policy.threshold.toNat)).toNat outputLen

/-- `len(set(active_agent_ids)) >= threshold` -/
def quorumAuthorized (activeAgentIds : List Text) : Bool := self.policy.threshold ≤ activeAgentIds.dedup.length

end MultiAgentKeySharing

/-! ## The field -/

theorem prime_PRIME : Nat.Prime PRIME := by
  unfold PRIME
  exact lucas_lehmer_sufficiency 521 (by norm_num) (by norm_num)

instance : Fact (Nat.Prime PRIME) := ⟨prime_PRIME⟩

/-- the field with 2^521 - 1 elements -/
abbrev Gf : Type := ZMod PRIME

theorem PRIME_pos : (0 : ℤ) < PRIME := by exact_mod_cast prime_PRIME.pos

theorem two_pow_pred_lt {m n : ℕ} (h : m < n) : 2 ^ m - 1 < 2 ^ n - 1 :=
  Nat.sub_lt_sub_right Nat.one_le_two_pow (Nat.pow_lt_pow_right one_lt_two h)

theorem maxsize_lt_PRIME : maxsize < PRIME := by
  unfold maxsize PRIME
  exact two_pow_pred_lt (by norm_num)

@[simp] theorem cast_mod (a : ℤ) : ((a % (PRIME : ℤ) : ℤ) : Gf) = a := ZMod.intCast_mod a PRIME

/-- residues are determined by their classes -/
theorem eq_of_cast {a b : ℤ} (ha : 0 ≤ a ∧ a < PRIME) (hb : 0 ≤ b ∧ b < PRIME) (h : (a : Gf) = b) : a = b := by
  rw [ZMod.intCast_eq_intCast_iff', Int.emod_eq_of_lt ha.1 ha.2, Int.emod_eq_of_lt hb.1 hb.2] at h
  exact h

theorem mod_range (a : ℤ) : 0 ≤ a % (PRIME : ℤ) ∧ a % (PRIME : ℤ) < PRIME :=
  ⟨Int.emod_nonneg _ PRIME_pos.ne', Int.emod_lt_of_pos _ PRIME_pos⟩

/-- the power by Fermat is the inverse, and the one of zero is zero -/
theorem cast_powMod_inv (a : ℤ) : ((powMod a (PRIME - 2) PRIME : ℤ) : Gf) = (a : Gf)⁻¹ := by
  have h2 : 2 < PRIME := by
    have := maxsize_lt_PRIME
    unfold maxsize at this
    omega
  rw [powMod_eq, cast_mod, Int.cast_pow]
  by_cases h : (a : Gf) = 0
  · rw [h, inv_zero, zero_pow (by omega)]
  · apply eq_inv_of_mul_eq_one_left
    rw [← pow_succ, show PRIME - 2 + 1 = PRIME - 1 by omega]
    exact ZMod.pow_card_sub_one_eq_one h

namespace MultiAgentKeySharing

/-! ## What the loops compute -/

/-- the point of a share -/
noncomputable def pt (s : AgentShare) : Gf := s.x

/-- the polynomial that hides the secret -/
noncomputable def secretPoly (sharing : MultiAgentKeySharing) (rand : ℕ → ℕ) (secret : Bytes) : Polynomial Gf :=
  poly ((sharing.coeffs rand secret).map (Int.cast : ℤ → Gf))

theorem cast_evalAt (cs : List ℤ) (idx : ℤ) :
    ((evalAt cs idx : ℤ) : Gf) = (poly (cs.map (Int.cast : ℤ → Gf))).eval (idx : Gf) := by
  have hstep : ∀ (y : ℤ) (c : ℤ × ℕ), (y : Gf) + (c.1 : Gf) * (idx : Gf) ^ c.2 = ((evalStep idx y c : ℤ) : Gf) := by
    intro y c
    rw [evalStep, powMod_eq, cast_mod, Int.cast_add, Int.cast_mul, cast_mod, Int.cast_pow]
  have hloop : cs.zipIdx.foldl (fun (y : Gf) (c : ℤ × ℕ) => y + (c.1 : Gf) * (idx : Gf) ^ c.2) ((0 : ℤ) : Gf) =
      ((evalAt cs idx : ℤ) : Gf) := List.foldl_hom (fun y : ℤ => (y : Gf)) hstep
  have hpoly := foldl_eval_poly (cs.map (Int.cast : ℤ → Gf)) (idx : Gf) 0
  rw [List.zipIdx_map, List.foldl_map, zero_add] at hpoly
  rw [← hloop, ← hpoly, Int.cast_zero]
  rfl

/-- the plain inner step: the factors of the Lagrange basis polynomial at 0 -/
noncomputable def basisFactor (i : ℕ) (xi : Gf) (acc : Gf × Gf) (sj : AgentShare × ℕ) : Gf × Gf :=
  if i = sj.2 then acc else acc * (0 - pt sj.1, xi - pt sj.1)

theorem cast_basisStep (si : AgentShare × ℕ) (acc : ℤ × ℤ) (sj : AgentShare × ℕ) :
    basisFactor si.2 (pt si.1) ((acc.1 : Gf), (acc.2 : Gf)) sj = (((basisStep si acc sj).1 : Gf), ((basisStep si acc sj).2 : Gf)) := by
  rw [basisFactor, basisStep]
  split_ifs
  · rfl
  · simp [pt, Prod.mk_mul_mk]

/-- the term of share i: numerator times inverse denominator times value -/
noncomputable def term (l : List AgentShare) (si : AgentShare × ℕ) : Gf :=
  (((l.zipIdx.foldl (basisStep si) (1, 1)).1 : ℤ) : Gf) * (((l.zipIdx.foldl (basisStep si) (1, 1)).2 : ℤ) : Gf)⁻¹ * (si.1.y : Gf)

theorem cast_termStep (l : List AgentShare) (acc : ℤ) (si : AgentShare × ℕ) :
    (acc : Gf) + term l si = ((termStep l acc si : ℤ) : Gf) := by
  simp only [term, termStep, cast_mod, Int.cast_add, Int.cast_mul, cast_powMod_inv]
  ring

theorem term_eq (l : List AgentShare) (i : Fin l.length) : term l (l[i], i.val) = weightAt pt l i * ((l[i].y : ℤ) : Gf) := by
  have hloop := @List.foldl_hom _ _ _ (fun acc : ℤ × ℤ => ((acc.1 : Gf), (acc.2 : Gf))) (basisStep (l[i], i.val))
    (basisFactor i.val (pt l[i])) l.zipIdx (1, 1) (cast_basisStep (l[i], i.val))
  unfold basisFactor at hloop
  rw [foldl_zipIdx_skip l i (fun s => (0 - pt s, pt l[i] - pt s))] at hloop
  have h1 := congrArg Prod.fst hloop
  have h2 := congrArg Prod.snd hloop
  simp only [Int.cast_one, Prod.fst_mul, Prod.snd_mul, Prod.fst_prod, Prod.snd_prod, one_mul] at h1 h2
  rw [term, weightAt, Finset.prod_div_distrib, h1, h2, div_eq_mul_inv]

/-- **What the interpolation computes**, for any shares: also where points are equal, or multiples of the prime. -/
theorem cast_interpolate (l : List AgentShare) :
    ((interpolate l : ℤ) : Gf) = ∑ i, weightAt pt l i * ((l[i].y : ℤ) : Gf) := by
  have hloop := @List.foldl_hom _ _ _ (fun acc : ℤ => (acc : Gf)) (termStep l) (fun acc si => acc + term l si) l.zipIdx 0
    (cast_termStep l)
  rw [interpolate, ← hloop, foldl_zipIdx_add, Int.cast_zero, zero_add]
  exact Finset.sum_congr rfl fun i _ => term_eq l i

theorem interpolate_range (l : List AgentShare) : 0 ≤ interpolate l ∧ interpolate l < PRIME := by
  rw [interpolate]
  induction l.zipIdx using List.reverseRecOn with
  | nil => exact ⟨le_rfl, PRIME_pos⟩
  | append_singleton init si _ =>
    rw [List.foldl_append]
    exact mod_range _

/-! ## The shares of one split -/

variable {sharing : MultiAgentKeySharing} {rand : ℕ → ℕ} {secret : Bytes} {agentIds : AgentIds} {shares : List AgentShare}

/-- a share of the secret: its point is its place among the agents, its value that of the polynomial -/
structure IsShare (sharing : MultiAgentKeySharing) (rand : ℕ → ℕ) (secret : Bytes) (agentIds : AgentIds) (s : AgentShare) :
    Prop where
  pos : 0 < s.x
  lt : s.x < PRIME
  agent : agentIds.ids[s.x.toNat - 1]? = some s.agentId
  value : s.y = evalAt (sharing.coeffs rand secret) s.x

theorem isShare_of_split (h : sharing.split rand secret agentIds = .ok shares) :
    (shares.length : ℤ) = sharing.policy.totalAgents ∧ ∀ s ∈ shares, IsShare sharing rand secret agentIds s := by
  rw [split] at h
  split_ifs at h with hlen
  cases h
  refine ⟨by simpa using hlen, fun s hs => ?_⟩
  obtain ⟨a, ha, rfl⟩ := List.mem_map.1 hs
  obtain ⟨hge, hget⟩ := List.mem_zipIdx_iff_le_and_getElem?_sub.1 ha
  have hlt : a.2 - 1 < agentIds.ids.length := (List.getElem?_eq_some_iff.1 hget).1
  have hmax := agentIds.len_le
  have hprime := maxsize_lt_PRIME
  refine ⟨?_, ?_, by simpa using hget, rfl⟩
  · exact Int.natCast_pos.2 hge
  · exact Int.ofNat_lt.2 (by omega)

theorem IsShare.ext {s s' : AgentShare} (hs : IsShare sharing rand secret agentIds s) (hs' : IsShare sharing rand secret agentIds s')
    (h : pt s = pt s') : s = s' := by
  have hx : s.x = s'.x := eq_of_cast ⟨hs.pos.le, hs.lt⟩ ⟨hs'.pos.le, hs'.lt⟩ h
  have ha : s.agentId = s'.agentId := by
    have := hs.agent.symm.trans (hx ▸ hs'.agent)
    exact Option.some.inj this
  have hy : s.y = s'.y := by rw [hs.value, hs'.value, hx]
  cases s
  cases s'
  simp_all

theorem IsShare.eval {s : AgentShare} (hs : IsShare sharing rand secret agentIds s) :
    ((s.y : ℤ) : Gf) = (secretPoly sharing rand secret).eval (pt s) := by
  rw [hs.value, cast_evalAt]
  rfl

theorem length_coeffs (sharing : MultiAgentKeySharing) (rand : ℕ → ℕ) (secret : Bytes) :
    (sharing.coeffs rand secret).length = sharing.policy.threshold.toNat := by
  have := sharing.two_le
  simp only [coeffs, List.length_cons, List.length_map, List.length_range]
  omega

theorem degree_secretPoly_lt (sharing : MultiAgentKeySharing) (rand : ℕ → ℕ) (secret : Bytes) :
    (secretPoly sharing rand secret).degree < sharing.policy.threshold.toNat := by
  have h := degree_poly_lt ((sharing.coeffs rand secret).map (Int.cast : ℤ → Gf))
  rwa [List.length_map, length_coeffs] at h

theorem secretPoly_eval_zero (sharing : MultiAgentKeySharing) (rand : ℕ → ℕ) (secret : Bytes) :
    (secretPoly sharing rand secret).eval 0 = ((toInt secret : ℤ) : Gf) := by
  simp [secretPoly, coeffs]

/-- as many distinct shares as the threshold interpolate to the secret's number modulo the prime -/
theorem interpolate_shares {l : List AgentShare} (hl : ∀ s ∈ l, IsShare sharing rand secret agentIds s) (hnd : l.Nodup)
    (hlen : l.length = sharing.policy.threshold.toNat) : interpolate l = toInt secret % (PRIME : ℤ) := by
  have hpts : (l.map pt).Nodup := by
    rw [List.nodup_map_iff_inj_on hnd]
    intro s hs s' hs' e
    exact (hl s hs).ext (hl s' hs') e
  have hdeg : (secretPoly sharing rand secret).degree < (l.map pt).length := by
    rw [List.length_map, hlen]
    exact degree_secretPoly_lt sharing rand secret
  apply eq_of_cast (interpolate_range l) (mod_range _)
  rw [cast_mod, ← secretPoly_eval_zero sharing rand secret, ← atZero_eq hpts hdeg, atZero_map, cast_interpolate]
  refine Finset.sum_congr rfl fun i _ => ?_
  rw [(hl l[i] (List.getElem_mem _)).eval]

theorem toBytes_ok {n w : ℕ} (h : n < 256 ^ w) : toBytes n w = .ok (beBytes w n) := by
  rw [toBytes, if_neg (by omega), Int.toNat_natCast, if_neg (by omega)]

/-- **What a quorum recovers**: the secret's number modulo the prime, at the secret's length. -/
theorem recover_split (h : sharing.split rand secret agentIds = .ok shares) {l : List AgentShare} (hl : ∀ s ∈ l, s ∈ shares)
    (hnd : l.Nodup) (hlen : sharing.policy.threshold ≤ l.length) :
    sharing.recover l secret.length = .ok (beBytes secret.length (toInt secret % PRIME)) := by
  obtain ⟨_, hshares⟩ := isShare_of_split h
  have h2 := sharing.two_le
  have htake : interpolate (l.take sharing.policy.threshold.toNat) = toInt secret % (PRIME : ℤ) := by
    refine interpolate_shares (fun s hs => hshares s (hl s (List.mem_of_mem_take hs)))
      (hnd.sublist (List.take_sublist _ _)) ?_
    rw [List.length_take]
    omega
  have hlt : toInt secret % PRIME < 256 ^ secret.length := (Nat.mod_le _ _).trans_lt (ofBeBytes_lt secret)
  rw [recover, if_neg (by omega), htake, ← Int.natCast_mod, Int.toNat_natCast, toBytes_ok hlt]

/-- **When a quorum recovers the secret.** Any list of at least `threshold` distinct shares of one split, in any order, gives
the secret back if and only if the secret's number is below 2^521 - 1. -/
theorem recover_split_iff (h : sharing.split rand secret agentIds = .ok shares) {l : List AgentShare} (hl : ∀ s ∈ l, s ∈ shares)
    (hnd : l.Nodup) (hlen : sharing.policy.threshold ≤ l.length) :
    sharing.recover l secret.length = .ok secret ↔ toInt secret < PRIME := by
  have hlt := ofBeBytes_lt secret
  have hround : beBytes secret.length (toInt secret) = secret := beBytes_ofBeBytes secret
  rw [recover_split h hl hnd hlen, Except.ok.injEq]
  constructor
  · intro e
    have hmod : toInt secret % PRIME = toInt secret :=
      beBytes_inj ((Nat.mod_le _ _).trans_lt hlt) hlt (e.trans hround.symm)
    rw [← hmod]
    exact Nat.mod_lt _ prime_PRIME.pos
  · intro hsmall
    rw [Nat.mod_eq_of_lt hsmall, hround]

/-- two of two -/
def two : MultiAgentKeySharing := ⟨⟨2, 2⟩, le_rfl, le_rfl⟩

theorem two_le_maxsize : (["a", "b"] : List Text).length ≤ maxsize := by decide +kernel

def ab : AgentIds := ⟨["a", "b"], two_le_maxsize⟩

/-- the shares of the secret 0, 7 when the draw is 0 -/
def sharesOfSeven : List AgentShare := [⟨"a", 1, 8⟩, ⟨"b", 2, 9⟩]

theorem split_seven : two.split (fun _ => 0) [0, 7] ab = .ok sharesOfSeven := by decide +kernel

theorem recover_split_iff_seven :
    two.recover sharesOfSeven.reverse [(0 : UInt8), 7].length = .ok [0, 7] ↔ toInt [0, 7] < PRIME :=
  recover_split_iff split_seven (fun _ hs => List.mem_reverse.1 hs) (by decide +kernel) (by decide +kernel)

/-- the bytes of the prime itself -/
def primeBytes : Bytes := 1 :: List.replicate 65 255

/-- The prime as a secret of 66 bytes comes back as 66 zero bytes. -/
theorem recover_prime :
    ¬ ∀ (sharing : MultiAgentKeySharing) (rand : ℕ → ℕ) (secret : Bytes) (agentIds : AgentIds) (shares l : List AgentShare),
      sharing.split rand secret agentIds = .ok shares → (∀ s ∈ l, s ∈ shares) → l.Nodup →
      sharing.policy.threshold ≤ l.length → sharing.recover l secret.length = .ok secret := by
  intro h
  have hsplit : two.split (fun _ => 0) primeBytes ab = .ok [⟨"a", 1, 1⟩, ⟨"b", 2, 2⟩] := by decide +kernel
  have hback : two.recover [⟨"a", 1, 1⟩, ⟨"b", 2, 2⟩] primeBytes.length = .ok (List.replicate 66 0) := by decide +kernel
  have hsame := h two _ primeBytes ab _ [⟨"a", 1, 1⟩, ⟨"b", 2, 2⟩] hsplit (fun _ hs => hs) (by decide +kernel) le_rfl
  rw [hback] at hsame
  exact absurd hsame (by decide +kernel)

/-! ## Too few points -/

/-- **When `recover` refuses.** It raises `ValueError` exactly for fewer shares than the threshold or a negative length,
however few different points the shares have. -/
theorem recover_raises_iff (sharing : MultiAgentKeySharing) (l : List AgentShare) (outputLen : ℤ) :
    (∃ msg, sharing.recover l outputLen = .error ⟨.valueError, msg⟩) ↔
      (l.length : ℤ) < sharing.policy.threshold ∨ outputLen < 0 := by
  rw [recover]
  by_cases hfew : (l.length : ℤ) < sharing.policy.threshold
  · rw [if_pos hfew]
    exact ⟨fun _ => .inl hfew, fun _ => ⟨_, rfl⟩⟩
  · rw [if_neg hfew, toBytes]
    by_cases hneg : outputLen < 0
    · rw [if_pos hneg]
      exact ⟨fun _ => .inr hneg, fun _ => ⟨_, rfl⟩⟩
    · rw [if_neg hneg]
      split_ifs <;> simp [hfew, hneg]

/-- one share of the threshold two, given twice -/
def twice : List AgentShare := [⟨"a", 1, 8⟩, ⟨"a", 1, 8⟩]

/-- One share given twice passes the quorum test, and the key is 32 zero bytes. -/
theorem recover_twice :
    ¬ ∀ (sharing : MultiAgentKeySharing) (l : List AgentShare) (outputLen : ℤ),
      ((l.map AgentShare.x).dedup.length : ℤ) < sharing.policy.threshold →
      ∃ msg, sharing.recover l outputLen = .error ⟨.valueError, msg⟩ := by
  intro h
  obtain ⟨msg, hmsg⟩ := h two twice 32 (by decide +kernel)
  have hzero : two.recover twice 32 = .ok (List.replicate 32 0) := by decide +kernel
  rw [hzero] at hmsg
  cases hmsg

theorem leBytes_zero (w : ℕ) : leBytes w 0 = List.replicate w 0 := by
  simp [leBytes, List.map_const']

/-- **The key of repeated shares.** Where each of the shares used has a point that another of them has too, the key is all
zero bytes, whatever the values. -/
theorem recover_repeated {sharing : MultiAgentKeySharing} {l : List AgentShare} (hlen : sharing.policy.threshold ≤ l.length)
    (hrep : ∀ i : Fin (l.take sharing.policy.threshold.toNat).length, ∃ j, i ≠ j ∧
      (l.take sharing.policy.threshold.toNat)[i].x = (l.take sharing.policy.threshold.toNat)[j].x) (w : ℕ) :
    sharing.recover l w = .ok (List.replicate w 0) := by
  have hzero : interpolate (l.take sharing.policy.threshold.toNat) = 0 := by
    apply eq_of_cast (interpolate_range _) ⟨le_rfl, PRIME_pos⟩
    rw [cast_interpolate, Int.cast_zero]
    refine Finset.sum_eq_zero fun i _ => ?_
    obtain ⟨j, hij, hx⟩ := hrep i
    rw [weightAt_eq_zero pt hij (congrArg Int.cast hx), zero_mul]
  rw [recover, if_neg (by omega), hzero, Int.toNat_zero, toBytes_ok (Nat.pow_pos (by norm_num)), beBytes, leBytes_zero,
    List.reverse_replicate]

end MultiAgentKeySharing

end AbirGuard.Python.MultiAgent
