/-
What does a session of the BB84 simulator keep, and what does it compare?

The simulator of `qkd/mod.rs` sifts the bits that both sides read in the same basis, shuffles their positions, compares the bits
at the first of them and keeps the others. The source of entropy is any implementation of the trait: a state and three methods
that may fail. Floating-point numbers are a parameter. A run ends with a report, an error or a panic, and an index that is out
of range is a panic.

- `shuffle_perm`: whatever is drawn, the shuffle stays within its list and permutes it.
- `sift_lengths`, `sift_quiet`: both sides sift the same number of bits, and the same bits if none is flipped.
- `run_exact`: a run never panics, and what its report says of the sample, the mismatches and the key.
-/
import AbirGuard.Core.Raise

namespace AbirGuard.Rust.Qkd

open AbirGuard.Core Raise

/-! ## Model -/

inductive QkdError where
  | emptyTransmission
  | invalidSampleSize
  | invalidNoiseProbability
  | invalidMaxQber
  | insufficientSiftedBits
  | entropyExhausted
deriving DecidableEq, Repr

/-- the text of an error -/
def QkdError.message : QkdError → String
  | .emptyTransmission => "qubit_count must be greater than zero"
  | .invalidSampleSize => "sample_size must be greater than zero"
  | .invalidNoiseProbability => "bit_flip_probability must be in [0.0, 1.0]"
  | .invalidMaxQber => "max_qber must be in [0.0, 1.0]"
  | .insufficientSiftedBits => "not enough sifted bits for requested sample size"
  | .entropyExhausted => "entropy source exhausted"

/-- what ends a run: an error that it returns, or a panic -/
inductive Stop where
  | error (e : QkdError)
  | panic (p : Panic)
deriving DecidableEq, Repr

/-- the operations on `f64` -/
structure F64 (F : Type) where
  ofNat : ℕ → F
  add : F → F → F
  div : F → F → F
  lt : F → F → Bool
  le : F → F → Bool

/-- an implementation of the trait, over the states of the source -/
structure EntropySource (F σ : Type) where
  nextU64 : Raise QkdError σ UInt64
  nextBit : Raise QkdError σ UInt8
  nextUnitF64 : Raise QkdError σ F

section Model

variable {F σ : Type} (f : F64 F)

/-- `(0.0..=1.0).contains(&x)` -/
def F64.inUnit (x : F) : Bool := f.le (f.ofNat 0) x && f.le x (f.ofNat 1)

/-- the methods that the trait itself defines -/
def EntropySource.ofNextU64 (nextU64 : Raise QkdError σ UInt64) : EntropySource F σ where
  nextU64 := nextU64
  nextBit := do
    let x ← nextU64
    pure (x &&& 1).toUInt8
  nextUnitF64 := do
    let x ← nextU64
    pure (f.div (f.ofNat x.toNat) (f.add (f.ofNat (2 ^ 64 - 1)) (f.ofNat 1)))

inductive Basis where
  | rectilinear
  | diagonal
deriving DecidableEq, Repr

structure QuantumChannel (F : Type) where
  bitFlipProbability : F

def QuantumChannel.new (bitFlipProbability : F) : Except QkdError (QuantumChannel F) :=
  if f.inUnit bitFlipProbability then .ok ⟨bitFlipProbability⟩ else .error .invalidNoiseProbability

structure QkdParameters (F : Type) where
  qubitCount : ℕ
  sampleSize : ℕ
  maxQber : F

structure QkdSessionReport (F : Type) where
  rawBits : ℕ
  siftedBits : ℕ
  sampledBits : ℕ
  mismatches : ℕ
  qber : F
  accepted : Bool
  finalKeyBits : List UInt8

structure Bb84Simulator (F : Type) where
  params : QkdParameters F
  channel : QuantumChannel F

def Bb84Simulator.new (params : QkdParameters F) (channel : QuantumChannel F) : Except QkdError (Bb84Simulator F) :=
  if params.qubitCount = 0 then .error .emptyTransmission
  else if params.sampleSize = 0 then .error .invalidSampleSize
  else if f.inUnit params.maxQber = false then .error .invalidMaxQber
  else .ok ⟨params, channel⟩

variable (entropy : EntropySource F σ)

def Basis.random : Raise QkdError σ Basis := do
  let bit ← entropy.nextBit
  pure (if bit = 0 then .rectilinear else .diagonal)

def QuantumChannel.maybeFlip (channel : QuantumChannel F) (bit : UInt8) : Raise QkdError σ UInt8 := do
  let draw ← entropy.nextUnitF64
  pure (if f.lt draw channel.bitFlipProbability then bit ^^^ 1 else bit)

/-- a qubit that was sent, up to the channel -/
structure Qubit where
  aliceBit : UInt8
  aliceBasis : Basis
  bobBasis : Basis
  idealBobBit : UInt8

/-- the body of the loop before the channel -/
def transmit : Raise QkdError σ Qubit := do
  let aliceBit ← entropy.nextBit
  let aliceBasis ← Basis.random entropy
  let bobBasis ← Basis.random entropy
  let idealBobBit ← (if aliceBasis = bobBasis then pure aliceBit else entropy.nextBit : Raise QkdError σ UInt8)
  pure ⟨aliceBit, aliceBasis, bobBasis, idealBobBit⟩

/-- the bits of Alice and of Bob that are kept of a qubit -/
def keep (q : Qubit) (bobBit : UInt8) (sifted : List UInt8 × List UInt8) : List UInt8 × List UInt8 :=
  if q.aliceBasis = q.bobBasis then (sifted.1 ++ [q.aliceBit], sifted.2 ++ [bobBit]) else sifted

/-- the loop over the qubits, on the sifted bits of Alice and of Bob -/
def sift (channel : QuantumChannel F) : ℕ → List UInt8 × List UInt8 → Raise QkdError σ (List UInt8 × List UInt8)
  | 0, sifted => pure sifted
  | n + 1, sifted => do
    let q ← transmit entropy
    let bobBit ← channel.maybeFlip f entropy q.idealBobBit
    sift channel n (keep q bobBit sifted)

/-- a call of the source, whose error is returned -/
def ask {α : Type} (x : Raise QkdError σ α) : Raise Stop σ α := call Stop.error id (fun t _ => t) x

/-- an operation that may panic -/
def check {α : Type} (x : Outcome α) : Raise Stop σ α := lift (x.mapError Stop.panic)

/-- `swap` of a slice -/
def swap (idx : List ℕ) (i j : ℕ) : Outcome (List ℕ) := do
  let a ← Outcome.index idx i
  let b ← Outcome.index idx j
  let idx ← Outcome.setIndex idx i b
  Outcome.setIndex idx j a

/-- the loop of the shuffle, from position i down to 1 -/
def shuffle : ℕ → List ℕ → Raise Stop σ (List ℕ)
  | 0, idx => pure idx
  | i + 1, idx => do
    let r ← ask entropy.nextU64
    let idx ← check (swap idx (i + 1) (r.toNat % (i + 1 + 1)))
    shuffle i idx

def randomUniqueIndices (len sampleSize : ℕ) : Raise Stop σ (List ℕ) := do
  let idx ← shuffle entropy (len - 1) (List.range len)
  pure (idx.take sampleSize)

/-- `is_sample` -/
def markSamples (len : ℕ) (sampleIndices : List ℕ) : Outcome (List Bool) :=
  sampleIndices.foldlM (fun isSample idx => Outcome.setIndex isSample idx true) (List.replicate len false)

/-- the number of sampled positions where the bits differ -/
def countMismatches (siftedAlice siftedBob : List UInt8) : List ℕ → Outcome ℕ
  | [] => .ok 0
  | i :: sampleIndices => do
    let a ← Outcome.index siftedAlice i
    let b ← Outcome.index siftedBob i
    let n ← countMismatches siftedAlice siftedBob sampleIndices
    pure (if a ≠ b then n + 1 else n)

/-- the bits that were not sampled, from position i on -/
def unsampledFrom (isSample : List Bool) (i : ℕ) : List UInt8 → Outcome (List UInt8)
  | [] => .ok []
  | bit :: siftedAlice => do
    let sampled ← Outcome.index isSample i
    let rest ← unsampledFrom isSample (i + 1) siftedAlice
    pure (if sampled then rest else bit :: rest)

def Bb84Simulator.run (sim : Bb84Simulator F) : Raise Stop σ (QkdSessionReport F) := do
  let sifted ← ask (sift f entropy sim.channel sim.params.qubitCount ([], []))
  Raise.when (sifted.1.length < sim.params.sampleSize) (throw (.error .insufficientSiftedBits))
  let sampleIndices ← randomUniqueIndices entropy sifted.1.length sim.params.sampleSize
  let isSample ← check (markSamples sifted.1.length sampleIndices)
  let mismatches ← check (countMismatches sifted.1 sifted.2 sampleIndices)
  let qber := f.div (f.ofNat mismatches) (f.ofNat sim.params.sampleSize)
  let finalKeyBits ← check (unsampledFrom isSample 0 sifted.1)
  pure
    { rawBits := sim.params.qubitCount
      siftedBits := sifted.1.length
      sampledBits := sim.params.sampleSize
      mismatches := mismatches
      qber := qber
      accepted := f.le qber sim.params.maxQber
      finalKeyBits := finalKeyBits }

end Model

variable {F σ : Type} {f : F64 F} {entropy : EntropySource F σ}

/-! ## Programs that do not panic -/

/-- the program does not panic, and what it returns has the property, with the state that it leaves -/
def Ends {α : Type} (P : α → σ → Prop) (x : Raise Stop σ α) (s : σ) : Prop :=
  (∀ p, (run x s).1 ≠ .error (.panic p)) ∧ ∀ a t, run x s = (.ok a, t) → P a t

section Ends

variable {α β : Type} {P : α → σ → Prop} {Q : β → σ → Prop} {s : σ}

theorem ends_pure {a : α} (h : P a s) : Ends P (pure a) s := by
  refine ⟨fun p hp => ?_, fun b t hb => ?_⟩
  · cases hp
  · cases hb
    exact h

theorem ends_bind {x : Raise Stop σ α} {g : α → Raise Stop σ β} (hx : Ends P x s) (hg : ∀ a t, P a t → Ends Q (g a) t) :
    Ends Q (x >>= g) s := by
  obtain ⟨hpanic, hok⟩ := hx
  rw [Ends, run_bind]
  rcases hrun : run x s with ⟨e | a, t⟩
  · refine ⟨fun p hp => hpanic p ?_, fun b u hb => ?_⟩
    · rw [hrun]
      dsimp only at hp
      exact congrArg Except.error (Except.error.inj hp)
    · cases hb
  · exact hg a t (hok a t hrun)

/-- a call of the source does not panic -/
theorem ends_ask (x : Raise QkdError σ α) : Ends (fun a t => run x s = (.ok a, t)) (ask x) s := by
  rw [Ends, ask, run_call]
  dsimp only [id]
  rcases run x s with ⟨e | a, t⟩
  · refine ⟨fun p hp => ?_, fun b u hb => ?_⟩
    · cases hp
    · cases hb
  · refine ⟨fun p hp => ?_, fun b u hb => ?_⟩
    · cases hp
    · cases hb
      rfl

theorem ends_check {x : Outcome α} {a : α} (hx : x = .ok a) (h : P a s) : Ends P (check x) s := by
  rw [hx]
  exact ends_pure h

/-- behind a check that returns an error -/
theorem ends_when {c : Prop} [Decidable c] {e : QkdError} {g : PUnit → Raise Stop σ β} (h : ¬ c → Ends Q (g ⟨⟩) s) :
    Ends Q (Raise.when c (throw (.error e)) >>= g) s := by
  by_cases hc : c
  · rw [Raise.when, if_pos hc]
    refine ⟨fun p hp => ?_, fun b t hb => ?_⟩
    · cases hp
    · cases hb
  · rw [Ends, run_bind_of_ok (run_when_of_not hc ..)]
    exact h hc

end Ends

/-! ## The shuffle -/

/-- an exchange within the list permutes it -/
theorem swap_ok {idx : List ℕ} {i j : ℕ} (hi : i < idx.length) (hj : j < idx.length) :
    ∃ idx', swap idx i j = .ok idx' ∧ idx'.Perm idx := by
  refine ⟨(idx.set i idx[j]).set j idx[i], ?_, List.set_set_perm hi hj⟩
  rw [swap, Outcome.index_ok hi, Outcome.ok_bind, Outcome.index_ok hj, Outcome.ok_bind, Outcome.setIndex_ok hi, Outcome.ok_bind,
    Outcome.setIndex_ok (by rwa [List.length_set])]

/-- **Whatever is drawn, the shuffle stays within its list and permutes it.** -/
theorem shuffle_perm {i : ℕ} {idx : List ℕ} (h : i = 0 ∨ i < idx.length) (s : σ) :
    Ends (fun idx' _ => idx'.Perm idx) (shuffle entropy i idx) s := by
  induction i generalizing idx s with
  | zero => exact ends_pure (List.Perm.refl idx)
  | succ i ih =>
    have hi : i + 1 < idx.length := h.resolve_left (Nat.succ_ne_zero i)
    rw [shuffle]
    refine ends_bind (ends_ask entropy.nextU64) fun r t _ => ?_
    have hj : r.toNat % (i + 1 + 1) < idx.length := (Nat.mod_lt _ (Nat.succ_pos _)).trans_le hi
    obtain ⟨idx', hswap, hperm⟩ := swap_ok hi hj
    refine ends_bind (P := fun a _ => a = idx') (ends_check hswap rfl) fun a u ha => ?_
    subst ha
    obtain ⟨hpanic, hok⟩ := ih (Or.inr (by rw [hperm.length_eq]; omega)) u
    exact ⟨hpanic, fun idx'' v hrun => (hok idx'' v hrun).trans hperm⟩

/-- the indices of a sample: different ones, in range, as many as asked for -/
structure IsSample (len sampleSize : ℕ) (indices : List ℕ) : Prop where
  nodup : indices.Nodup
  inRange : ∀ i ∈ indices, i < len
  length_eq : indices.length = sampleSize

theorem randomUniqueIndices_spec {len sampleSize : ℕ} (h : sampleSize ≤ len) (s : σ) :
    Ends (fun indices t => IsSample len sampleSize indices ∧
      run (randomUniqueIndices entropy len sampleSize) s = (.ok indices, t)) (randomUniqueIndices entropy len sampleSize) s := by
  have hlen : len - 1 = 0 ∨ len - 1 < (List.range len).length := by
    rw [List.length_range]
    omega
  have hsample : Ends (fun indices _ => IsSample len sampleSize indices) (randomUniqueIndices entropy len sampleSize) s := by
    refine ends_bind (shuffle_perm hlen s) fun idx t hperm => ends_pure ?_
    refine ⟨(hperm.nodup_iff.2 List.nodup_range).sublist (List.take_sublist _ _), fun i hi => ?_, ?_⟩
    · exact List.mem_range.1 (hperm.mem_iff.1 (List.mem_of_mem_take hi))
    · rw [List.length_take, hperm.length_eq, List.length_range, Nat.min_eq_left h]
  exact ⟨hsample.1, fun indices t hrun => ⟨hsample.2 indices t hrun, hrun⟩⟩

/-! ## The sample -/

/-- the marks after the loop: those set before, and the sampled ones -/
theorem foldlM_setIndex {indices : List ℕ} {marks : List Bool} (h : ∀ i ∈ indices, i < marks.length) :
    ∃ isSample, indices.foldlM (fun isSample idx => Outcome.setIndex isSample idx true) marks = .ok isSample ∧
      ∀ i < marks.length, isSample[i]? = some (decide (i ∈ indices) || marks[i]?.getD false) := by
  induction indices generalizing marks with
  | nil =>
    refine ⟨marks, rfl, fun i hi => ?_⟩
    rw [List.getElem?_eq_getElem hi]
    simp
  | cons j indices ih =>
    have hj := h j List.mem_cons_self
    have hset : ∀ i ∈ indices, i < (marks.set j true).length := by
      intro i hi
      rw [List.length_set]
      exact h i (List.mem_cons_of_mem _ hi)
    obtain ⟨isSample, hfold, hmarks⟩ := ih hset
    refine ⟨isSample, ?_, fun i hi => ?_⟩
    · rw [List.foldlM_cons, Outcome.setIndex_ok hj, Outcome.ok_bind]
      exact hfold
    · rw [hmarks i (by rwa [List.length_set]), List.getElem?_set]
      by_cases hij : j = i
      · subst hij
        simp [hj]
      · simp [hij, Ne.symm hij]

/-- an index is marked if and only if it is sampled -/
theorem markSamples_ok {len : ℕ} {indices : List ℕ} (h : ∀ i ∈ indices, i < len) :
    ∃ isSample, markSamples len indices = .ok isSample ∧
      ∀ i < len, Outcome.index isSample i = .ok (decide (i ∈ indices)) := by
  have hrange : ∀ i ∈ indices, i < (List.replicate len false).length := by simpa using h
  obtain ⟨isSample, hfold, hmarks⟩ := foldlM_setIndex hrange
  refine ⟨isSample, hfold, fun i hi => ?_⟩
  rw [Outcome.index, hmarks i (by rwa [List.length_replicate])]
  simp [hi]

theorem countMismatches_ok {alice bob : List UInt8} {indices : List ℕ} (ha : ∀ i ∈ indices, i < alice.length)
    (hb : ∀ i ∈ indices, i < bob.length) :
    countMismatches alice bob indices = .ok (indices.countP fun i => alice[i]? ≠ bob[i]?) := by
  induction indices with
  | nil => rfl
  | cons i indices ih =>
    have hi := ha i List.mem_cons_self
    have hi' := hb i List.mem_cons_self
    rw [countMismatches, Outcome.index_ok hi, Outcome.ok_bind, Outcome.index_ok hi', Outcome.ok_bind,
      ih (fun j hj => ha j (List.mem_cons_of_mem _ hj)) fun j hj => hb j (List.mem_cons_of_mem _ hj), Outcome.ok_bind,
      List.countP_cons, List.getElem?_eq_getElem hi, List.getElem?_eq_getElem hi']
    by_cases hbit : alice[i] = bob[i] <;> simp [hbit]

/-- the bits at positions that are not sampled, in order -/
def unsampled (alice : List UInt8) (indices : List ℕ) : List UInt8 :=
  (alice.zipIdx.filter fun p => p.2 ∉ indices).map Prod.fst

theorem unsampledFrom_ok {isSample : List Bool} {indices : List ℕ} {alice : List UInt8} {i : ℕ}
    (h : ∀ j < i + alice.length, Outcome.index isSample j = .ok (decide (j ∈ indices))) :
    unsampledFrom isSample i alice = .ok (((alice.zipIdx i).filter fun p => p.2 ∉ indices).map Prod.fst) := by
  induction alice generalizing i with
  | nil => rfl
  | cons bit alice ih =>
    rw [List.length_cons] at h
    rw [unsampledFrom, h i (by omega), Outcome.ok_bind, ih fun j hj => h j (by omega), Outcome.ok_bind, List.zipIdx_cons]
    by_cases hi : i ∈ indices <;> simp [hi]

theorem unsampled_sublist (alice : List UInt8) (indices : List ℕ) : List.Sublist (unsampled alice indices) alice := by
  have hfst : alice.zipIdx.map Prod.fst = alice := List.zipIdx_map_fst 0 alice
  calc List.Sublist ((alice.zipIdx.filter fun p => p.2 ∉ indices).map Prod.fst) (alice.zipIdx.map Prod.fst) :=
        List.filter_sublist.map Prod.fst
    _ = alice := hfst

theorem length_unsampled {alice : List UInt8} {indices : List ℕ} {sampleSize : ℕ}
    (h : IsSample alice.length sampleSize indices) : (unsampled alice indices).length = alice.length - sampleSize := by
  have hsnd : alice.zipIdx.map Prod.snd = List.range alice.length := by
    rw [List.zipIdx_map_snd, List.range_eq_range']
  have hcount : (unsampled alice indices).length = (List.range alice.length).countP fun i => i ∉ indices := by
    rw [unsampled, List.length_map, ← List.countP_eq_length_filter, ← hsnd, List.countP_map]
    rfl
  have hperm : ((List.range alice.length).filter fun i => i ∈ indices).Perm indices := by
    rw [List.perm_ext_iff_of_nodup (List.nodup_range.filter _) h.nodup]
    intro i
    rw [List.mem_filter, List.mem_range, decide_eq_true_iff]
    exact and_iff_right_of_imp (h.inRange i)
  have hsum := List.length_eq_countP_add_countP (fun i => decide (i ∈ indices)) (l := List.range alice.length)
  rw [List.countP_eq_length_filter, hperm.length_eq, h.length_eq, List.length_range] at hsum
  rw [hcount]
  simp only [decide_eq_true_iff, decide_not] at hsum ⊢
  omega

/-! ## Sifting -/

/-- in the same basis Bob reads what Alice sent -/
theorem transmit_same {q : Qubit} {s t : σ} (h : run (transmit entropy) s = (.ok q, t)) (hbasis : q.aliceBasis = q.bobBasis) :
    q.idealBobBit = q.aliceBit := by
  obtain ⟨aliceBit, s₁, -, h⟩ := run_bind_eq_ok h
  obtain ⟨aliceBasis, s₂, -, h⟩ := run_bind_eq_ok h
  obtain ⟨bobBasis, s₃, -, h⟩ := run_bind_eq_ok h
  obtain ⟨idealBobBit, s₄, hideal, h⟩ := run_bind_eq_ok h
  cases h
  rw [if_pos hbasis] at hideal
  cases hideal
  rfl

/-- both sides sift the same number of bits -/
theorem sift_lengths {channel : QuantumChannel F} {n : ℕ} {sifted r : List UInt8 × List UInt8} {s t : σ}
    (h : run (sift f entropy channel n sifted) s = (.ok r, t)) (hlen : sifted.1.length = sifted.2.length) :
    r.1.length = r.2.length := by
  induction n generalizing sifted s with
  | zero =>
    cases h
    exact hlen
  | succ n ih =>
    obtain ⟨q, s₁, -, h⟩ := run_bind_eq_ok h
    obtain ⟨bobBit, s₂, -, h⟩ := run_bind_eq_ok h
    refine ih h ?_
    rw [keep]
    split_ifs
    · simp [hlen]
    · exact hlen

/-- the channel flips none of the next n bits -/
def Quiet (f : F64 F) (entropy : EntropySource F σ) (channel : QuantumChannel F) : ℕ → σ → Prop
  | 0, _ => True
  | n + 1, s => ∀ q s₁ bobBit s₂, run (transmit entropy) s = (.ok q, s₁) →
      run (channel.maybeFlip f entropy q.idealBobBit) s₁ = (.ok bobBit, s₂) →
        bobBit = q.idealBobBit ∧ Quiet f entropy channel n s₂

/-- both sides sift the same bits if none is flipped -/
theorem sift_quiet {channel : QuantumChannel F} {n : ℕ} {sifted r : List UInt8 × List UInt8} {s t : σ}
    (h : run (sift f entropy channel n sifted) s = (.ok r, t)) (hquiet : Quiet f entropy channel n s)
    (hsame : sifted.1 = sifted.2) : r.1 = r.2 := by
  induction n generalizing sifted s with
  | zero =>
    cases h
    exact hsame
  | succ n ih =>
    obtain ⟨q, s₁, hq, h⟩ := run_bind_eq_ok h
    obtain ⟨bobBit, s₂, hflip, h⟩ := run_bind_eq_ok h
    obtain ⟨rfl, hquiet⟩ := hquiet q s₁ bobBit s₂ hq hflip
    refine ih h hquiet ?_
    rw [keep]
    split_ifs with hbasis
    · rw [hsame, transmit_same hq hbasis]
    · exact hsame

/-- a channel of probability 0 flips nothing where a random number is never below 0 -/
theorem quiet_of_zero {channel : QuantumChannel F}
    (hzero : ∀ s x t, run entropy.nextUnitF64 s = (.ok x, t) → f.lt x channel.bitFlipProbability = false) (n : ℕ) (s : σ) :
    Quiet f entropy channel n s := by
  induction n generalizing s with
  | zero => trivial
  | succ n ih =>
    intro q s₁ bobBit s₂ _ hflip
    obtain ⟨x, s₃, hx, hflip⟩ := run_bind_eq_ok hflip
    cases hflip
    rw [hzero s₁ x _ hx]
    exact ⟨rfl, ih _⟩

/-! ## A session -/

theorem new_ok_iff {params : QkdParameters F} {channel : QuantumChannel F} {sim : Bb84Simulator F} :
    Bb84Simulator.new f params channel = .ok sim ↔
      0 < params.qubitCount ∧ 0 < params.sampleSize ∧ f.inUnit params.maxQber = true ∧ sim = ⟨params, channel⟩ := by
  rw [Bb84Simulator.new]
  split_ifs with h1 h2 h3
  · simp [h1]
  · simp [h2]
  · simp [h3]
  · simp [h3, Nat.pos_of_ne_zero h1, Nat.pos_of_ne_zero h2, eq_comm]

/-- what a report says of the sifted bits and the sampled positions -/
structure Reports (sim : Bb84Simulator F) (alice bob : List UInt8) (indices : List ℕ) (report : QkdSessionReport F) : Prop where
  lengths : alice.length = bob.length
  sample : IsSample alice.length sim.params.sampleSize indices
  siftedBits : report.siftedBits = alice.length
  sampledBits : report.sampledBits = sim.params.sampleSize
  mismatches : report.mismatches = indices.countP fun i => alice[i]? ≠ bob[i]?
  bounded : report.mismatches ≤ sim.params.sampleSize
  finalKeyBits : report.finalKeyBits = unsampled alice indices
  subsequence : List.Sublist report.finalKeyBits alice
  keyLength : report.finalKeyBits.length = report.siftedBits - report.sampledBits

/-- **A run never panics, whatever the source; what it reports is the sample, its mismatches and the bits outside of it**, and
without a flipped bit it is accepted. -/
theorem run_exact {params : QkdParameters F} {channel : QuantumChannel F} {sim : Bb84Simulator F}
    (hnew : Bb84Simulator.new f params channel = .ok sim)
    (hdiv : ∀ n, 0 < n → f.div (f.ofNat 0) (f.ofNat n) = f.ofNat 0) (entropy : EntropySource F σ) (s : σ) :
    Ends (fun report _ => ∃ alice bob indices t u,
      run (sift f entropy sim.channel sim.params.qubitCount ([], [])) s = (.ok (alice, bob), t) ∧
      run (randomUniqueIndices entropy alice.length sim.params.sampleSize) t = (.ok indices, u) ∧
      Reports sim alice bob indices report ∧
      (Quiet f entropy sim.channel sim.params.qubitCount s → report.mismatches = 0 ∧ report.accepted = true))
    (sim.run f entropy) s := by
  obtain ⟨-, hpos, hqber, rfl⟩ := new_ok_iff.1 hnew
  refine ends_bind (ends_ask _) fun sifted t hsift => ends_when fun henough => ?_
  obtain ⟨alice, bob⟩ := sifted
  have hlengths : alice.length = bob.length := sift_lengths hsift rfl
  refine ends_bind (randomUniqueIndices_spec (Nat.le_of_not_lt henough) t) fun indices u hindices => ?_
  obtain ⟨hsample, hdraw⟩ := hindices
  obtain ⟨isSample, hmark, hmarked⟩ := markSamples_ok hsample.inRange
  have hcount : countMismatches alice bob indices = .ok (indices.countP fun i => alice[i]? ≠ bob[i]?) :=
    countMismatches_ok hsample.inRange (hlengths ▸ hsample.inRange)
  have hkey : unsampledFrom isSample 0 alice = .ok (unsampled alice indices) :=
    unsampledFrom_ok fun j hj => hmarked j (by rwa [Nat.zero_add] at hj)
  refine ends_bind (P := fun a _ => a = isSample) (ends_check hmark rfl) fun a v ha => ?_
  subst ha
  refine ends_bind (P := fun n _ => n = indices.countP fun i => alice[i]? ≠ bob[i]?) (ends_check hcount rfl) fun n v hn => ?_
  subst hn
  refine ends_bind (P := fun key _ => key = unsampled alice indices) (ends_check hkey rfl) fun key v hkeys => ?_
  subst hkeys
  have hbound : (indices.countP fun i => alice[i]? ≠ bob[i]?) ≤ params.sampleSize :=
    List.countP_le_length.trans_eq hsample.length_eq
  refine ends_pure ⟨alice, bob, indices, t, u, hsift, hdraw, ?_, fun hquiet => ?_⟩
  · exact ⟨hlengths, hsample, rfl, rfl, rfl, hbound, rfl, unsampled_sublist alice indices, length_unsampled hsample⟩
  · obtain rfl : alice = bob := sift_quiet hsift hquiet rfl
    have hzero : (indices.countP fun i => alice[i]? ≠ alice[i]?) = 0 := by simp
    refine ⟨hzero, ?_⟩
    dsimp only
    rw [hzero, hdiv _ hpos]
    exact (Bool.and_eq_true_iff.1 hqber).1

/-- exact arithmetic -/
def rationals : F64 ℚ where
  ofNat n := n
  add := (· + ·)
  div := (· / ·)
  lt x y := decide (x < y)
  le x y := decide (x ≤ y)

/-- a source of fixed words -/
def fixedEntropy : EntropySource ℚ (List UInt64) :=
  .ofNextU64 rationals fun values =>
    match values with
    | [] => (.error .entropyExhausted, [])
    | x :: values => (.ok x, values)

/-- its random numbers are not below 0, so that a channel of probability 0 flips no bit -/
theorem fixedEntropy_quiet (n : ℕ) (values : List UInt64) : Quiet rationals fixedEntropy ⟨0⟩ n values := by
  refine quiet_of_zero (fun s x t h => ?_) n values
  obtain ⟨word, s', -, h⟩ := run_bind_eq_ok h
  cases h
  refine decide_eq_false (not_lt.2 ?_)
  exact div_nonneg (Nat.cast_nonneg _) (add_nonneg (Nat.cast_nonneg _) (Nat.cast_nonneg _))

/-- three qubits, of which two are read in the same basis and one of those is compared -/
theorem run_exact_fixed : ∃ report t,
    run (Bb84Simulator.run rationals fixedEntropy ⟨⟨3, 1, 1⟩, ⟨0⟩⟩) [1, 1, 1, 5, 0, 0, 1, 1, 7, 1, 0, 0, 9, 2] = (.ok report, t) ∧
      report.siftedBits = 2 ∧ report.finalKeyBits.length = report.siftedBits - report.sampledBits ∧ report.mismatches = 0 ∧
      report.accepted = true := by
  have hnew : Bb84Simulator.new rationals ⟨3, 1, 1⟩ ⟨0⟩ = .ok ⟨⟨3, 1, 1⟩, ⟨0⟩⟩ :=
    new_ok_iff.2 ⟨by decide, by decide, by norm_num [F64.inUnit, rationals], rfl⟩
  have hdiv : ∀ n, 0 < n → rationals.div (rationals.ofNat 0) (rationals.ofNat n) = rationals.ofNat 0 := by
    intro n _
    simp [rationals]
  obtain ⟨-, hok⟩ := run_exact hnew hdiv fixedEntropy [1, 1, 1, 5, 0, 0, 1, 1, 7, 1, 0, 0, 9, 2]
  refine ⟨_, _, rfl, rfl, ?_⟩
  obtain ⟨alice, bob, indices, t, u, -, -, hreports, hquiet⟩ := hok _ _ rfl
  exact ⟨hreports.keyLength, hquiet (fixedEntropy_quiet 3 _)⟩

end AbirGuard.Rust.Qkd
