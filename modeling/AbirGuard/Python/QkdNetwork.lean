/-
The BB84 simulation of `qkd_network.py`: what its session key is made of.

A session draws Alice's bits, both parties' bases, the bits of the rounds whose bases differ, and the channel's noise. Where
the bases agree the round is sifted. The key is the hash of the XOR of Alice's and Bob's sifted bits, and that XOR is 1
exactly where the channel flipped the bit.

- `runSession_eq`: a session, its key, its error rate and its acceptance, as a function of the sifted rounds and the flips
  alone.
- `key_ignores_bits`: two sessions with the same bases and flips have the same key, whatever Alice sent; the claim that the
  key carries Alice's bits holds on no input.
- `siftedKey_eq_iff`: for an injective hash, two sessions have the same key exactly when they have the same flips in their
  sifted rounds.

The draws are arguments. Rates are rational numbers; the product and the quotient of floats are parameters.
-/
import AbirGuard.Core.Bytes

namespace AbirGuard.Python.Qkd

open AbirGuard.Core

/-! ## Model -/

inductive Failure where
  | valueError (msg : String)
  | qkdNetworkError (msg : String)
deriving DecidableEq, Repr

structure QkdSession where
  siftedKey : Bytes
  qber : ℚ
  accepted : Bool
  rounds : ℤ
deriving DecidableEq, Repr

/-- the two float operations of a session -/
structure Floats where
  /-- int(x * 10_000) -/
  perTenThousand : ℚ → ℤ
  /-- m / n -/
  div : ℕ → ℕ → ℚ

structure Bb84Network where
  noiseRate : ℚ
  acceptanceQber : ℚ
  noise_range : 0 ≤ noiseRate ∧ noiseRate < 1
  acceptance_range : 0 < acceptanceQber ∧ acceptanceQber < 1

def Bb84Network.new (noiseRate acceptanceQber : ℚ) : Except Failure Bb84Network :=
  if h : 0 ≤ noiseRate ∧ noiseRate < 1 then
    if h' : 0 < acceptanceQber ∧ acceptanceQber < 1 then .ok ⟨noiseRate, acceptanceQber, h, h'⟩
    else .error (.valueError "acceptance_qber must be in (0,1)")
  else .error (.valueError "noise_rate must be in [0,1)")

/-- what one session draws, round by round -/
structure Draws where
  aliceBits : ℕ → Bool
  aliceBasis : ℕ → Bool
  bobBasis : ℕ → Bool
  /-- Bob's bit where the bases differ -/
  guess : ℕ → Bool
  /-- randbelow(10_000) -/
  noise : ℕ → ℕ
  noise_lt : ∀ i, noise i < 10000

/-- the rounds with equal bases -/
def Draws.sifted (d : Draws) (rounds : ℕ) : List ℕ := (List.range rounds).filter fun i => d.aliceBasis i = d.bobBasis i

section

variable (sha256 : Bytes → Bytes) (f : Floats) (net : Bb84Network) (d : Draws)

/-- the channel flips the bit of round i -/
def flips (i : ℕ) : Bool := (d.noise i : ℤ) < f.perTenThousand net.noiseRate

def bobBit (i : ℕ) : Bool :=
  let bit := if d.aliceBasis i = d.bobBasis i then d.aliceBits i else d.guess i
  if flips f net d i then !bit else bit

def runSession (rounds : ℤ) : Except Failure QkdSession :=
  if rounds ≤ 0 then .error (.valueError "rounds must be > 0")
  else
    let siftedAlice := (d.sifted rounds.toNat).map d.aliceBits
    let siftedBob := (d.sifted rounds.toNat).map (bobBit f net d)
    if siftedAlice = [] then .error (.qkdNetworkError "no sifted bits; retry with more rounds")
    else
      let mismatches := (siftedAlice.zip siftedBob).countP fun p => p.1 ≠ p.2
      let qber := f.div mismatches siftedAlice.length
      let corrected := (siftedAlice.zip siftedBob).map fun p => (p.1 ^^ p.2).toUInt8
      .ok ⟨sha256 corrected, qber, qber ≤ net.acceptanceQber, rounds⟩

def deriveTransportKey (qkdKey context : Bytes) : Except Failure Bytes :=
  if qkdKey = [] then .error (.valueError "qkd_key cannot be empty") else .ok (sha256 (qkdKey ++ context))

end

/-! ## The key is made of the flips -/

variable {sha256 : Bytes → Bytes} {f : Floats} {net net' : Bb84Network} {d d' : Draws} {rounds : ℤ}

/-- the flips of the sifted rounds -/
def siftedFlips (f : Floats) (net : Bb84Network) (d : Draws) (rounds : ℤ) : List Bool :=
  (d.sifted rounds.toNat).map (flips f net d)

/-- in a sifted round the two bits differ exactly by the flip -/
theorem xor_bobBit {i : ℕ} (h : d.aliceBasis i = d.bobBasis i) : (d.aliceBits i ^^ bobBit f net d i) = flips f net d i := by
  rw [bobBit, if_pos h]
  cases flips f net d i <;> simp

theorem mem_sifted {n i : ℕ} : i ∈ d.sifted n ↔ i < n ∧ d.aliceBasis i = d.bobBasis i := by
  simp [Draws.sifted]

/-- Alice's and Bob's sifted bits side by side -/
def siftedPairs (f : Floats) (net : Bb84Network) (d : Draws) (n : ℕ) : List (Bool × Bool) :=
  ((d.sifted n).map d.aliceBits).zip ((d.sifted n).map (bobBit f net d))

theorem xor_siftedPairs (n : ℕ) :
    (siftedPairs f net d n).map (fun p => p.1 ^^ p.2) = (d.sifted n).map (flips f net d) := by
  rw [siftedPairs, List.zip_map', List.map_map]
  apply List.map_congr_left
  intro i hi
  exact xor_bobBit (mem_sifted.1 hi).2

theorem mismatches_eq (l : List (Bool × Bool)) :
    (l.countP fun p => p.1 ≠ p.2) = (l.map fun p => p.1 ^^ p.2).count true := by
  rw [List.count, List.countP_map]
  congr 1
  funext p
  rcases p with ⟨a, b⟩
  cases a <;> cases b <;> rfl

/-- **A session is a function of its flips.** Alice's bits have dropped out. -/
theorem runSession_eq (hpos : 0 < rounds) (hne : siftedFlips f net d rounds ≠ []) :
    runSession sha256 f net d rounds = .ok
      { siftedKey := sha256 ((siftedFlips f net d rounds).map Bool.toUInt8)
        qber := f.div ((siftedFlips f net d rounds).count true) (siftedFlips f net d rounds).length
        accepted := f.div ((siftedFlips f net d rounds).count true) (siftedFlips f net d rounds).length ≤ net.acceptanceQber
        rounds := rounds } := by
  have hcount : (siftedPairs f net d rounds.toNat).countP (fun p => p.1 ≠ p.2) = (siftedFlips f net d rounds).count true := by
    rw [mismatches_eq, xor_siftedPairs, siftedFlips]
  have hbytes : (siftedPairs f net d rounds.toNat).map (fun p => (p.1 ^^ p.2).toUInt8) =
      (siftedFlips f net d rounds).map Bool.toUInt8 := by
    rw [siftedFlips, ← xor_siftedPairs, List.map_map]
    rfl
  have hlen : ((d.sifted rounds.toNat).map d.aliceBits).length = (siftedFlips f net d rounds).length := by
    simp [siftedFlips]
  have hne' : (d.sifted rounds.toNat).map d.aliceBits ≠ [] := by simpa [siftedFlips] using hne
  rw [← hcount, ← hbytes, ← hlen, runSession, if_neg (by omega)]
  exact if_neg hne'

theorem siftedKey_of_ok {s : QkdSession} (h : runSession sha256 f net d rounds = .ok s) :
    s.siftedKey = sha256 ((siftedFlips f net d rounds).map Bool.toUInt8) := by
  have hpos : 0 < rounds := by
    by_contra hle
    rw [runSession, if_pos (by omega)] at h
    cases h
  have hne : siftedFlips f net d rounds ≠ [] := by
    intro e
    have hnone : (d.sifted rounds.toNat).map d.aliceBits = [] := by simpa [siftedFlips] using e
    rw [runSession, if_neg (by omega)] at h
    simp only [if_pos hnone] at h
    cases h
  rw [runSession_eq hpos hne, Except.ok.injEq] at h
  rw [← h]

/-- equal bases and flips in every round leave the same flips after sifting -/
theorem siftedFlips_congr (hbases : ∀ i < rounds.toNat, d.aliceBasis i = d'.aliceBasis i ∧ d.bobBasis i = d'.bobBasis i)
    (hflips : ∀ i < rounds.toNat, flips f net d i = flips f net' d' i) :
    siftedFlips f net d rounds = siftedFlips f net' d' rounds := by
  have hsifted : d.sifted rounds.toNat = d'.sifted rounds.toNat := by
    apply List.filter_congr
    intro i hi
    obtain ⟨ha, hb⟩ := hbases i (List.mem_range.1 hi)
    rw [ha, hb]
  rw [siftedFlips, siftedFlips, hsifted]
  apply List.map_congr_left
  intro i hi
  exact hflips i (mem_sifted.1 hi).1

/-- **The key does not carry Alice's bits.** Two sessions that agree on the bases and the flips return the same key, and
transport keys derived from it, also where Alice sent different bits in the sifted rounds. -/
theorem key_ignores_bits (sha256 : Bytes → Bytes) (f : Floats) (net net' : Bb84Network) {d d' : Draws} {rounds : ℤ}
    (hbases : ∀ i < rounds.toNat, d.aliceBasis i = d'.aliceBasis i ∧ d.bobBasis i = d'.bobBasis i)
    (hflips : ∀ i < rounds.toNat, flips f net d i = flips f net' d' i)
    (hdiffer : ∃ i < rounds.toNat, d.aliceBasis i = d.bobBasis i ∧ d.aliceBits i ≠ d'.aliceBits i) :
    ∃ s s', runSession sha256 f net d rounds = .ok s ∧ runSession sha256 f net' d' rounds = .ok s' ∧
      s.siftedKey = s'.siftedKey ∧
      ∀ context, deriveTransportKey sha256 s.siftedKey context = deriveTransportKey sha256 s'.siftedKey context := by
  have hsame := siftedFlips_congr hbases hflips
  obtain ⟨i, hi, hsift, _⟩ := hdiffer
  have hpos : 0 < rounds := by omega
  have hne : siftedFlips f net d rounds ≠ [] := List.ne_nil_of_mem (List.mem_map_of_mem (mem_sifted.2 ⟨hi, hsift⟩))
  have hkey : sha256 ((siftedFlips f net d rounds).map Bool.toUInt8) =
      sha256 ((siftedFlips f net' d' rounds).map Bool.toUInt8) := by rw [hsame]
  refine ⟨_, _, runSession_eq hpos hne, runSession_eq hpos (hsame ▸ hne), hkey, fun context => ?_⟩
  simp only [hkey]

/-- exact arithmetic -/
def exactFloats : Floats := ⟨fun x => ⌊x * 10000⌋, fun m n => m / n⟩

theorem zero_mem_rates : (0 : ℚ) ≤ 0 ∧ (0 : ℚ) < 1 := ⟨le_rfl, one_pos⟩

theorem half_mem_rates : (0 : ℚ) < 1 / 2 ∧ (1 / 2 : ℚ) < 1 := ⟨by norm_num, by norm_num⟩

/-- a channel without noise -/
def quiet : Bb84Network := ⟨0, 1 / 2, zero_mem_rates, half_mem_rates⟩

theorem zero_lt_noise (_ : ℕ) : 0 < 10000 := by norm_num

/-- all bases equal, and Alice sends the same bit in every round -/
def constant (bit : Bool) : Draws :=
  ⟨fun _ => bit, fun _ => false, fun _ => false, fun _ => false, fun _ => 0, zero_lt_noise⟩

theorem flips_quiet (d : Draws) (i : ℕ) : flips exactFloats quiet d i = false := by
  simp [flips, exactFloats, quiet]

theorem key_ignores_bits_constant :
    ∃ s s', runSession id exactFloats quiet (constant false) 8 = .ok s ∧ runSession id exactFloats quiet (constant true) 8 = .ok s' ∧
      s.siftedKey = s'.siftedKey ∧ ∀ context, deriveTransportKey id s.siftedKey context = deriveTransportKey id s'.siftedKey context :=
  key_ignores_bits id exactFloats quiet quiet (fun _ _ => ⟨rfl, rfl⟩)
    (fun i _ => (flips_quiet _ i).trans (flips_quiet _ i).symm) ⟨0, by decide, rfl, by decide⟩

/-- With an injective hash, no noise and one round: Alice sends 0 or 1, and the key is the hash of the byte 0. -/
theorem same_key_for_other_bit :
    ¬ ∀ (sha256 : Bytes → Bytes) (d d' : Draws) (rounds : ℤ) (s s' : QkdSession), Function.Injective sha256 →
      (∀ i < rounds.toNat, d.aliceBasis i = d'.aliceBasis i ∧ d.bobBasis i = d'.bobBasis i) →
      (∀ i < rounds.toNat, flips exactFloats quiet d i = flips exactFloats quiet d' i) →
      (∃ i < rounds.toNat, d.aliceBasis i = d.bobBasis i ∧ d.aliceBits i ≠ d'.aliceBits i) →
      runSession sha256 exactFloats quiet d rounds = .ok s → runSession sha256 exactFloats quiet d' rounds = .ok s' →
      s.siftedKey ≠ s'.siftedKey := by
  intro h
  have hflips : ∀ bit, siftedFlips exactFloats quiet (constant bit) 1 = [false] := by
    intro bit
    have hone : (constant bit).sifted (1 : ℤ).toNat = [0] := by rfl
    rw [siftedFlips, hone, List.map_singleton, flips_quiet]
  have hrun : ∀ bit, ∃ s, runSession id exactFloats quiet (constant bit) 1 = .ok s ∧ s.siftedKey = [0] := by
    intro bit
    refine ⟨_, runSession_eq one_pos (by rw [hflips]; simp), ?_⟩
    simp only [hflips]
    rfl
  obtain ⟨s, hs, hk⟩ := hrun false
  obtain ⟨s', hs', hk'⟩ := hrun true
  exact h id (constant false) (constant true) 1 s s' (fun _ _ e => e) (fun _ _ => ⟨rfl, rfl⟩)
    (fun i _ => (flips_quiet _ i).trans (flips_quiet _ i).symm) ⟨0, by decide, rfl, by decide⟩ hs hs' (hk.trans hk'.symm)

/-- **What the key carries.** For an injective hash, two sessions have the same key exactly when they have the same flips in
their sifted rounds. -/
theorem siftedKey_eq_iff (hinj : Function.Injective sha256) {rounds' : ℤ} {s s' : QkdSession}
    (hs : runSession sha256 f net d rounds = .ok s) (hs' : runSession sha256 f net' d' rounds' = .ok s') :
    s.siftedKey = s'.siftedKey ↔ siftedFlips f net d rounds = siftedFlips f net' d' rounds' := by
  have hbytes : Function.Injective Bool.toUInt8 := by decide
  rw [siftedKey_of_ok hs, siftedKey_of_ok hs', hinj.eq_iff, (List.map_injective_iff.2 hbytes).eq_iff]

end AbirGuard.Python.Qkd
