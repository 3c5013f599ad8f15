/-
The pool of timing jitter: how much does it hold, and how much of it reaches the seed?

`EntropyCollector` of `entropy_inject.rs` times a short loop ten times and puts the ten values into a buffer, with the number of
values and the number of samples so far behind them. Then it drops one value if the buffer holds more than the pool size. A seed
has 32 bytes, to which the bytes of the buffer are added from the front until the seed is used up.

- `run_collect`: what a call adds and what it drops.
- `collects_ok_iff`, `length_buffer`: how long a run can be, and how full its pool is.
- `getSeed_eq`: a byte of the seed is one byte of the pool and, in front, one of the count.
- `pool_exact`: the bound holds up to 21 calls, and only the four oldest values count.
-/
import AbirGuard.Core.Bytes
import AbirGuard.Core.Outcome
import Mathlib.Data.List.GetD

namespace AbirGuard.Rust.Entropy

open AbirGuard.Core

/-! ## Model -/

def entropyPoolSize : ℕ := 256

def minEntropyBits : ℕ := 256

structure EntropyCollector where
  /-- a queue, front first -/
  buffer : List UInt64
  sampleCount : ℕ
deriving DecidableEq, Repr

namespace EntropyCollector

def new : EntropyCollector := ⟨[], 0⟩

/-- a turn of the loop; `nanos i` is what turn i measures -/
def sample (nanos : ℕ → ℕ) (st : List UInt64 × ℕ) (i : ℕ) : List UInt64 × ℕ :=
  (st.1 ++ [UInt64.ofNat (nanos i)], st.2 + 1)

def collect (nanos : ℕ → ℕ) (self : EntropyCollector) : Outcome (ℕ × EntropyCollector) := do
  let (buffer, collected) := (List.range 10).foldl (sample nanos) (self.buffer, 0)
  let buffer := buffer ++ [UInt64.ofNat collected]
  let buffer := buffer ++ [UInt64.ofNat self.sampleCount]
  let sampleCount ← Outcome.add 64 self.sampleCount collected
  -- one value goes, however many came
  let buffer := if buffer.length > entropyPoolSize then buffer.tail else buffer
  return (collected, ⟨buffer, sampleCount⟩)

def isReady (self : EntropyCollector) : Bool := self.sampleCount ≥ minEntropyBits / 8

/-- a turn of the inner loop, on the seed and the number of bytes mixed in; after its `break` nothing changes -/
def mixByte (st : Bytes × ℕ) (b : UInt8) : Bytes × ℕ :=
  if st.2 ≥ 32 then st else (st.1.modify st.2 (· + b), st.2 + 1)

/-- a turn of the outer loop -/
def mixValue (st : Bytes × ℕ) (val : UInt64) : Bytes × ℕ :=
  if st.2 ≥ 32 then st else (leBytes 8 val.toNat).foldl mixByte st

/-- a turn of a loop over numbered bytes that skips the places from a limit on -/
def mixBelow (limit : ℕ) (seed : Bytes) (e : UInt8 × ℕ) : Bytes :=
  if e.2 < limit then seed.modify e.2 (· + e.1) else seed

def mixCount : Bytes → UInt8 × ℕ → Bytes := mixBelow 4

def getSeed (self : EntropyCollector) : Bytes :=
  let (seed, _) := self.buffer.foldl mixValue (List.replicate 32 0, 0)
  let cnt := leBytes 8 self.sampleCount
  cnt.zipIdx.foldl mixCount seed

/-- calls one after another, each with its own timings -/
def collects (timings : List (ℕ → ℕ)) : Outcome EntropyCollector :=
  timings.foldlM (fun self nanos => Prod.snd <$> collect nanos self) new

/-! ## Calls -/

/-- the twelve values of a call -/
def added (nanos : ℕ → ℕ) (count : ℕ) : List UInt64 :=
  (List.range 10).map (fun i => UInt64.ofNat (nanos i)) ++ [10, UInt64.ofNat count]

theorem length_added (nanos : ℕ → ℕ) (count : ℕ) : (added nanos count).length = 12 := by simp [added]

theorem foldl_sample (nanos : ℕ → ℕ) (buffer : List UInt64) (n : ℕ) :
    (List.range n).foldl (sample nanos) (buffer, 0) = (buffer ++ (List.range n).map fun i => UInt64.ofNat (nanos i), n) := by
  induction n with
  | zero => simp
  | succ n ih => simp [List.range_succ, List.foldl_append, ih, sample]

/-- what a call adds and what it drops -/
theorem run_collect (nanos : ℕ → ℕ) (self : EntropyCollector) (h : self.sampleCount + 10 < 2 ^ 64) :
    collect nanos self = .ok (10, ⟨if 244 < self.buffer.length then (self.buffer ++ added nanos self.sampleCount).tail
      else self.buffer ++ added nanos self.sampleCount, self.sampleCount + 10⟩) := by
  have hbuffer : self.buffer ++ (List.range 10).map (fun i => UInt64.ofNat (nanos i)) ++ [UInt64.ofNat 10] ++
      [UInt64.ofNat self.sampleCount] = self.buffer ++ added nanos self.sampleCount := by
    simp only [added, List.append_assoc, List.singleton_append]
    rfl
  have hfull : (self.buffer ++ added nanos self.sampleCount).length > entropyPoolSize ↔ 244 < self.buffer.length := by
    rw [List.length_append, length_added, entropyPoolSize]
    omega
  simp only [collect, foldl_sample, hbuffer, hfull, Outcome.add_ok h, Outcome.ok_bind]
  rfl

theorem collect_panics (nanos : ℕ → ℕ) (self : EntropyCollector) (h : ¬ self.sampleCount + 10 < 2 ^ 64) :
    collect nanos self = Outcome.panic "attempt to add with overflow" := by
  simp only [collect, foldl_sample, Outcome.add, if_neg h, Outcome.panic, Outcome.error_bind]

/-- how many values n calls leave: up to the 21st they fit, and from then on each call adds eleven -/
def held (n : ℕ) : ℕ := if n ≤ 21 then 12 * n else 11 * n + 21

theorem held_le_iff (n : ℕ) : held n ≤ entropyPoolSize ↔ n ≤ 21 := by
  unfold held entropyPoolSize
  split_ifs with h
  · omega
  · omega

/-- a run returns unless the count of samples overflows, and says how many values it leaves -/
theorem collects_spec (timings : List (ℕ → ℕ)) :
    (∃ pool, collects timings = .ok pool ∧ pool.buffer.length = held timings.length ∧ pool.sampleCount = 10 * timings.length) ∨
      (collects timings = Outcome.panic "attempt to add with overflow" ∧ 2 ^ 64 ≤ 10 * timings.length) := by
  induction timings using List.reverseRecOn with
  | nil => exact .inl ⟨new, rfl, rfl, rfl⟩
  | append_singleton timings nanos ih =>
    rw [collects, List.foldlM_append, ← collects, List.length_append, List.length_singleton]
    rcases ih with ⟨pool, hpool, hlen, hcount⟩ | ⟨hpanic, hover⟩
    · rw [hpool, Outcome.ok_bind, List.foldlM_cons]
      by_cases h : pool.sampleCount + 10 < 2 ^ 64
      · refine .inl ⟨_, by rw [run_collect nanos pool h, Outcome.map_ok, Outcome.ok_bind]; rfl, ?_, ?_⟩
        · rw [held] at hlen ⊢
          split_ifs at hlen ⊢ <;> simp [length_added] <;> omega
        · show pool.sampleCount + 10 = _
          omega
      · refine .inr ⟨?_, by omega⟩
        rw [collect_panics nanos pool h]
        rfl
    · refine .inr ⟨?_, by omega⟩
      rw [hpanic]
      rfl

/-- a run that returns, and what it leaves -/
theorem of_collects {timings : List (ℕ → ℕ)} {pool : EntropyCollector} (h : collects timings = .ok pool) :
    pool.buffer.length = held timings.length ∧ pool.sampleCount = 10 * timings.length := by
  rcases collects_spec timings with ⟨p, hp, hlen, hcount⟩ | ⟨hpanic, -⟩
  · rw [hp, Except.ok.injEq] at h
    rw [← h]
    exact ⟨hlen, hcount⟩
  · rw [hpanic] at h
    cases h

/-- four calls make the pool ready -/
theorem isReady_iff {timings : List (ℕ → ℕ)} {pool : EntropyCollector} (h : collects timings = .ok pool) :
    isReady pool ↔ 4 ≤ timings.length := by
  rw [isReady, decide_eq_true_iff, (of_collects h).2, minEntropyBits]
  omega

/-! ## The seed -/

/-- the bytes of the buffer in the order in which they are mixed in -/
def poolBytes (buffer : List UInt64) : Bytes := buffer.flatMap fun val => leBytes 8 val.toNat

theorem poolBytes_cons (val : UInt64) (buffer : List UInt64) :
    poolBytes (val :: buffer) = leBytes 8 val.toNat ++ poolBytes buffer := List.flatMap_cons

/-- byte r of value k stands at place 8 k + r -/
theorem poolBytes_getD (buffer : List UInt64) (k : ℕ) {r : ℕ} (hr : r < 8) :
    (poolBytes buffer).getD (8 * k + r) 0 = UInt8.ofNat ((buffer.getD k 0).toNat / 256 ^ r) := by
  induction buffer generalizing k with
  | nil => simp [poolBytes]
  | cons val buffer ih =>
    rw [poolBytes_cons]
    cases k with
    | zero =>
      rw [Nat.mul_zero, Nat.zero_add, List.getD_append _ _ _ _ (by simpa using hr), List.getD_cons_zero]
      simp [leBytes, hr]
    | succ k =>
      rw [List.getD_append_right _ _ _ _ (by simp; omega), length_leBytes, List.getD_cons_succ, ← ih k]
      congr 1
      omega

/-- the turn of the loop over `cnt`, for any limit -/
theorem foldl_mixBelow (limit : ℕ) (bs seed : Bytes) (i j : ℕ) :
    ((bs.zipIdx i).foldl (mixBelow limit) seed)[j]? =
      seed[j]?.map (· + if i ≤ j ∧ j < limit then bs.getD (j - i) 0 else 0) := by
  induction bs generalizing seed i with
  | nil => cases h : seed[j]? <;> simp [h]
  | cons b bs ih =>
    rw [List.zipIdx_cons, List.foldl_cons, ih, mixBelow]
    rcases eq_or_ne i j with rfl | hne
    · by_cases h : i < limit
      · cases hs : seed[i]? <;> simp [h, hs]
      · cases hs : seed[i]? <;> simp [h, hs]
    · -- another place: this turn does not touch it
      have hsame : (if i < limit then seed.modify i (· + b) else seed)[j]? = seed[j]? := by
        split_ifs
        · rw [List.getElem?_modify_ne _ _ hne]
        · rfl
      have hnext : (if i + 1 ≤ j ∧ j < limit then bs.getD (j - (i + 1)) 0 else 0) =
          if i ≤ j ∧ j < limit then (b :: bs).getD (j - i) 0 else 0 := by
        by_cases hlt : i < j
        · simp only [show i + 1 ≤ j from hlt, hlt.le, show j - i = j - (i + 1) + 1 by omega, List.getD_cons_succ]
        · rw [if_neg (by omega), if_neg (by omega)]
      rw [hsame, hnext]

theorem foldl_mixByte_full {st : Bytes × ℕ} (h : 32 ≤ st.2) (bs : Bytes) : bs.foldl mixByte st = st := by
  induction bs with
  | nil => rfl
  | cons b bs ih => rw [List.foldl_cons, mixByte, if_pos h, ih]

/-- the loop that stops at 32 does what a loop to the end does that skips the places from 32 on -/
theorem foldl_mixByte (bs seed : Bytes) (i : ℕ) :
    (bs.foldl mixByte (seed, i)).1 = (bs.zipIdx i).foldl (mixBelow 32) seed := by
  induction bs generalizing seed i with
  | nil => rfl
  | cons b bs ih =>
    by_cases hi : 32 ≤ i
    · rw [foldl_mixByte_full hi]
      apply List.ext_getElem?
      intro j
      rw [foldl_mixBelow, if_neg (by omega)]
      simp
    · rw [List.foldl_cons, mixByte, if_neg hi, ih, List.zipIdx_cons, List.foldl_cons, mixBelow, if_pos (Nat.lt_of_not_le hi)]

theorem foldl_mixValue (buffer : List UInt64) (st : Bytes × ℕ) :
    buffer.foldl mixValue st = (poolBytes buffer).foldl mixByte st := by
  have hvalue : mixValue = fun st val => (leBytes 8 val.toNat).foldl mixByte st := by
    funext st val
    rw [mixValue]
    split_ifs with h
    · rw [foldl_mixByte_full h]
    · rfl
  rw [poolBytes, List.foldl_flatMap, hvalue]

/-- the byte of the seed at place j -/
def seedByte (self : EntropyCollector) (j : ℕ) : UInt8 :=
  (poolBytes self.buffer).getD j 0 + if j < 4 then (leBytes 8 self.sampleCount).getD j 0 else 0

theorem getSeed_eq (self : EntropyCollector) : getSeed self = (List.range 32).map (seedByte self) := by
  apply List.ext_getElem?
  intro j
  simp only [getSeed, foldl_mixValue, foldl_mixByte, mixCount, foldl_mixBelow]
  by_cases hj : j < 32
  · simp [hj, seedByte, -List.reduceReplicate]
  · simp [hj]

/-- two pools give one seed if and only if its bytes agree -/
theorem getSeed_eq_iff {self other : EntropyCollector} :
    getSeed self = getSeed other ↔ ∀ j < 32, seedByte self j = seedByte other j := by
  rw [getSeed_eq, getSeed_eq, List.map_inj_left]
  simp only [List.mem_range]

theorem toUInt8_succ_ne (v : UInt64) : (v + 1).toUInt8 ≠ v.toUInt8 := by
  rw [UInt64.toUInt8_add]
  simp

/-- **What a buffered value is worth.** Some other value in its place changes the seed if and only if it is one of the first
four: they fill the seed. -/
theorem counts_iff (self : EntropyCollector) {k : ℕ} (hk : k < self.buffer.length) :
    (∃ v, getSeed { self with buffer := self.buffer.set k v } ≠ getSeed self) ↔ k < 4 := by
  constructor
  · intro hv
    obtain ⟨v, hv⟩ := hv
    by_contra hge
    apply hv
    rw [getSeed_eq_iff]
    intro j hj
    have hplace : k ≠ j / 8 := by omega
    rw [seedByte, seedByte, ← Nat.div_add_mod j 8, poolBytes_getD _ _ (Nat.mod_lt _ (by decide)),
      poolBytes_getD _ _ (Nat.mod_lt _ (by decide)), List.getD_eq_getElem?_getD, List.getElem?_set_ne hplace,
      ← List.getD_eq_getElem?_getD]
  · intro h4
    -- one more makes its lowest byte another one
    refine ⟨self.buffer[k] + 1, fun heq => ?_⟩
    have hbyte := getSeed_eq_iff.1 heq (8 * k + 0) (by omega)
    rw [seedByte, seedByte, poolBytes_getD _ _ (by decide), poolBytes_getD _ _ (by decide)] at hbyte
    have hlow := (UInt8.add_left_inj _).1 hbyte
    rw [List.getD_eq_getElem _ _ (by simpa using hk), List.getElem_set_self, List.getD_eq_getElem _ _ hk, pow_zero, Nat.div_one,
      Nat.div_one] at hlow
    exact toUInt8_succ_ne _ hlow

/-! ## Runs -/

/-- every buffered value changes the seed, for some value in its place -/
def Counts (self : EntropyCollector) : Prop :=
  ∀ k < self.buffer.length, ∃ v, getSeed { self with buffer := self.buffer.set k v } ≠ getSeed self

theorem counts_iff_length (self : EntropyCollector) : Counts self ↔ self.buffer.length ≤ 4 := by
  constructor
  · intro h
    by_contra hlong
    exact absurd ((counts_iff self (by omega)).1 (h 4 (by omega))) (lt_irrefl 4)
  · intro h k hk
    exact (counts_iff self hk).2 (by omega)

/-- **The pool, exactly.** After a run of calls the buffer is within the pool size if and only if there were at most 21 of them.
A buffered value counts for the seed if and only if it is one of the first four, so all of them count only while no call was
made; and both hold in every state of a run if and only if it has no call. -/
theorem pool_exact (timings : List (ℕ → ℕ)) (pool : EntropyCollector) (h : collects timings = .ok pool) :
    (pool.buffer.length ≤ entropyPoolSize ↔ timings.length ≤ 21) ∧
      (∀ k (_ : k < pool.buffer.length),
        (∃ v, getSeed { pool with buffer := pool.buffer.set k v } ≠ getSeed pool) ↔ k < 4) ∧
      ((∀ pre post p, timings = pre ++ post → collects pre = .ok p → p.buffer.length ≤ entropyPoolSize ∧ Counts p) ↔
        timings = []) := by
  refine ⟨?_, fun k hk => counts_iff pool hk, ?_⟩
  · rw [(of_collects h).1]
    exact held_le_iff _
  · constructor
    · intro hall
      cases timings with
      | nil => rfl
      | cons nanos timings =>
        -- the first call leaves twelve values
        rcases collects_spec [nanos] with ⟨p, hp, hlen, -⟩ | ⟨-, hover⟩
        · have hshort := (counts_iff_length p).1 (hall [nanos] timings p rfl hp).2
          rw [hlen] at hshort
          simp [held] at hshort
        · rw [List.length_singleton] at hover
          omega
    · intro hnil pre post p hrun hp
      obtain ⟨rfl, -⟩ := List.append_eq_nil_iff.1 (hrun.symm.trans hnil)
      cases hp
      exact ⟨Nat.zero_le _, (counts_iff_length new).2 (Nat.zero_le _)⟩

/-- one call that measures nothing -/
theorem pool_exact_one :
    collects [fun _ => 0] = .ok ⟨List.replicate 10 0 ++ [10, 0], 10⟩ ∧
      ¬ ∀ pre post p, [fun _ => 0] = pre ++ post → collects pre = .ok p → p.buffer.length ≤ entropyPoolSize ∧ Counts p :=
  ⟨rfl, fun hall => List.cons_ne_nil _ _ ((pool_exact [fun _ => 0] _ rfl).2.2.1 hall)⟩

/-- 22 calls leave 263 values, and the fifth of them is not in the seed -/
theorem pool_overfull : ∃ pool, collects (List.replicate 22 fun _ => 0) = .ok pool ∧ pool.buffer.length = 263 ∧
    ∀ v, getSeed { pool with buffer := pool.buffer.set 4 v } = getSeed pool := by
  rcases collects_spec (List.replicate 22 fun _ => 0) with ⟨pool, hpool, hlen, -⟩ | ⟨-, hover⟩
  · refine ⟨pool, hpool, hlen, fun v => ?_⟩
    by_contra hne
    have hlong : 4 < pool.buffer.length := by
      rw [hlen]
      decide
    exact absurd ((counts_iff pool hlong).1 ⟨v, hne⟩) (lt_irrefl 4)
  · exact absurd hover (by decide)

end EntropyCollector

end AbirGuard.Rust.Entropy
