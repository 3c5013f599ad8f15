/-
The cache of derived keys (`performance/key_cache.rs`) over Argon2id key derivation (`kdf.rs`).

An entry is found by the digests of password and salt and by the length asked. Argon2id is a partial function of password and
salt, with its cost parameters fixed; where it fails, the call panics. Passwords are made text first, with invalid UTF-8
replaced. Counters saturate.

- `getOrDerive_hit`, `getOrDerive_miss`: what a call returns and leaves, found or derived.
- `Sound`: queue and map hold the same keys, the queue is in the order of insertion, there are at most `capacity` entries, and
  each holds the key that is derived from its password and salt. `sound_step` keeps it.
- `cache_refines_derivation`: over every run, what is returned is what would be derived, and what is evicted is the oldest.
-/
import AbirGuard.Core.Bytes
import AbirGuard.Core.Fifo
import AbirGuard.Core.Outcome
import AbirGuard.Core.Run
import AbirGuard.Core.Sha256

namespace AbirGuard.Rust.KeyCache

open AbirGuard.Core Fifo

/-! ## Model -/

inductive CacheError where
  | invalidOutputLength
  | invalidCapacity
  | derivationFailed (reason : String)
deriving DecidableEq, Repr

/-- the text of an error -/
def CacheError.display : CacheError → String
  | .invalidOutputLength => "output length must be between 1 and 64 bytes"
  | .invalidCapacity => "cache capacity must be at least 1"
  | .derivationFailed reason => s!"key derivation failed: {reason}"

structure CacheStats where
  size : ℕ
  capacity : ℕ
  totalHits : ℕ
  totalMisses : ℕ
deriving DecidableEq, Repr

structure CacheKey where
  passwordHash : Bytes
  saltHash : Bytes
  outputLen : ℕ
deriving DecidableEq, Repr

structure CacheEntry where
  keyBytes : Bytes
  hits : ℕ
deriving DecidableEq, Repr

structure DerivedKeyCache where
  capacity : ℕ
  entries : Finmap fun _ : CacheKey => CacheEntry
  order : List CacheKey
  totalHits : ℕ
  totalMisses : ℕ

/-- `saturating_add(1)` on 64 bits -/
def saturatingSucc (n : ℕ) : ℕ := min (n + 1) (2 ^ 64 - 1)

section

variable (argon2id : Bytes → Bytes → Option Digest) (sha256 : Bytes → Digest)

/-- `derive_key` with a given salt -/
def deriveKey (passphrase : String) (salt : Bytes) : Outcome (Digest × Bytes) :=
  match argon2id (utf8 passphrase) salt with
  | some key => .ok (key, salt)
  | none => Outcome.panic "Argon2id derivation failed"

/-- `full_key[..output_len]` -/
def truncate (key : Digest) (outputLen : ℕ) : Outcome Bytes :=
  if outputLen ≤ 32 then .ok (key.toList.take outputLen)
  else Outcome.panic s!"range end index {outputLen} out of range for slice of length 32"

def CacheKey.new (password salt : Bytes) (outputLen : ℕ) : CacheKey :=
  ⟨(sha256 password).toList, (sha256 salt).toList, outputLen⟩

namespace DerivedKeyCache

def new (capacity : ℕ) : Except CacheError DerivedKeyCache :=
  if capacity = 0 then .error .invalidCapacity else .ok ⟨capacity, ∅, [], 0, 0⟩

def len (c : DerivedKeyCache) : ℕ := c.entries.keys.card

def isEmpty (c : DerivedKeyCache) : Bool := c.entries.keys.card = 0

def stats (c : DerivedKeyCache) : CacheStats := ⟨c.len, c.capacity, c.totalHits, c.totalMisses⟩

/-- drop the oldest entry if the cache is full -/
def evict (c : DerivedKeyCache) : DerivedKeyCache :=
  if c.capacity ≤ c.len then
    match c.order with
    | [] => c
    | oldest :: order => { c with order := order, entries := c.entries.erase oldest }
  else c

/-- the outcome, and the cache after the call: a panic leaves the miss counted -/
def getOrDerive (c : DerivedKeyCache) (password salt : Bytes) (outputLen : ℕ) :
    Outcome (Except CacheError Bytes) × DerivedKeyCache :=
  if outputLen = 0 ∨ 64 < outputLen then (.ok (.error .invalidOutputLength), c)
  else
    let cacheKey := CacheKey.new sha256 password salt outputLen
    match c.entries.lookup cacheKey with
    | some entry =>
      (.ok (.ok entry.keyBytes),
        { c with
          entries := c.entries.insert cacheKey { entry with hits := saturatingSucc entry.hits }
          totalHits := saturatingSucc c.totalHits })
    | none =>
      let missed := { c with totalMisses := saturatingSucc c.totalMisses }
      match deriveKey argon2id (fromUtf8Lossy password) salt with
      | .error panic => (.error panic, missed)
      | .ok (fullKey, _) =>
        match truncate fullKey outputLen with
        | .error panic => (.error panic, missed)
        | .ok keyBytes =>
          let evicted := missed.evict
          (.ok (.ok keyBytes),
            { evicted with
              entries := evicted.entries.insert cacheKey ⟨keyBytes, 0⟩
              order := evicted.order ++ [cacheKey] })

def invalidate (c : DerivedKeyCache) (password salt : Bytes) (outputLen : ℕ) : Bool × DerivedKeyCache :=
  let key := CacheKey.new sha256 password salt outputLen
  if key ∈ c.entries then
    (true, { c with entries := c.entries.erase key, order := c.order.filter (· ≠ key) })
  else (false, c)

def clear (c : DerivedKeyCache) : DerivedKeyCache := { c with entries := ∅, order := [] }

end DerivedKeyCache

/-! ## Runs -/

inductive Call where
  | getOrDerive (password salt : Bytes) (outputLen : ℕ)
  | invalidate (password salt : Bytes) (outputLen : ℕ)
  | clear
deriving DecidableEq

/-- the cache after a call -/
def step (c : DerivedKeyCache) : Call → DerivedKeyCache
  | .getOrDerive password salt outputLen => (c.getOrDerive argon2id sha256 password salt outputLen).2
  | .invalidate password salt outputLen => (c.invalidate sha256 password salt outputLen).2
  | .clear => c.clear

/-- the key that a call inserts -/
def insertedKey (c : DerivedKeyCache) : Call → Option CacheKey
  | .getOrDerive password salt outputLen =>
    if CacheKey.new sha256 password salt outputLen ∈ c.entries then none
    else some (CacheKey.new sha256 password salt outputLen)
  | .invalidate _ _ _ | .clear => none

/-- the keys inserted in a run, the latest first -/
def insertions (c : DerivedKeyCache) (calls : List Call) : List CacheKey :=
  (Run.tokens (step argon2id sha256) (insertedKey sha256) c calls).reverse

/-- the length asked is from 1 to 32 and Argon2id accepts the password and the salt -/
def Call.Valid : Call → Prop
  | .getOrDerive password salt outputLen =>
    1 ≤ outputLen ∧ outputLen ≤ 32 ∧ (argon2id (utf8 (fromUtf8Lossy password)) salt).isSome
  | .invalidate _ _ _ | .clear => True

/-- what a call hashes -/
def Call.hashed : Call → List Bytes
  | .getOrDerive password salt _ | .invalidate password salt _ => [password, salt]
  | .clear => []

def Call.isGet : Call → Bool
  | .getOrDerive _ _ _ => true
  | .invalidate _ _ _ | .clear => false

end

/-! ## One call -/

variable {argon2id : Bytes → Bytes → Option Digest} {sha256 : Bytes → Digest} {c : DerivedKeyCache}

namespace DerivedKeyCache

theorem new_ok_iff {capacity : ℕ} : new capacity = .ok c ↔ capacity ≠ 0 ∧ c = ⟨capacity, ∅, [], 0, 0⟩ := by
  rw [new]
  split_ifs with h <;> simp [h, eq_comm]

/-- a cache below its capacity evicts nothing -/
theorem evict_of_lt (h : c.len < c.capacity) : c.evict = c := if_neg (Nat.not_le.2 h)

/-- a full cache evicts the key at the front -/
theorem evict_of_le {oldest : CacheKey} {order : List CacheKey} (h : c.capacity ≤ c.len) (ho : c.order = oldest :: order) :
    c.evict = { c with order := order, entries := c.entries.erase oldest } := by
  rw [evict, if_pos h]
  simp only [ho]

/-- counting a miss has nothing to do with evicting -/
theorem evict_missed (n : ℕ) : evict { c with totalMisses := n } = { c.evict with totalMisses := n } := by
  rcases Nat.lt_or_ge c.len c.capacity with h | h
  · have hmissed : evict { c with totalMisses := n } = { c with totalMisses := n } := evict_of_lt h
    rw [hmissed, evict_of_lt h]
  · have hfull : c.capacity ≤ ({ c with totalMisses := n } : DerivedKeyCache).len := h
    rw [evict, evict, if_pos h, if_pos hfull]
    obtain ⟨capacity, entries, order, hits, misses⟩ := c
    cases order <;> rfl

theorem getOrDerive_hit {password salt : Bytes} {outputLen : ℕ} {entry : CacheEntry} (h1 : 1 ≤ outputLen)
    (h64 : outputLen ≤ 64) (h : c.entries.lookup (CacheKey.new sha256 password salt outputLen) = some entry) :
    c.getOrDerive argon2id sha256 password salt outputLen = (.ok (.ok entry.keyBytes),
      { c with
        entries := c.entries.insert (CacheKey.new sha256 password salt outputLen)
          { entry with hits := saturatingSucc entry.hits }
        totalHits := saturatingSucc c.totalHits }) := by
  rw [getOrDerive, if_neg (by omega)]
  simp only [h]

theorem getOrDerive_miss {password salt : Bytes} {outputLen : ℕ} {key : Digest} (h1 : 1 ≤ outputLen)
    (h32 : outputLen ≤ 32) (h : c.entries.lookup (CacheKey.new sha256 password salt outputLen) = none)
    (hkey : argon2id (utf8 (fromUtf8Lossy password)) salt = some key) :
    c.getOrDerive argon2id sha256 password salt outputLen = (.ok (.ok (key.toList.take outputLen)),
      { c.evict with
        entries := c.evict.entries.insert (CacheKey.new sha256 password salt outputLen) ⟨key.toList.take outputLen, 0⟩
        order := c.evict.order ++ [CacheKey.new sha256 password salt outputLen]
        totalMisses := saturatingSucc c.totalMisses }) := by
  rw [getOrDerive, if_neg (by omega)]
  simp only [h, deriveKey, hkey, truncate, if_pos h32, evict_missed]

end DerivedKeyCache

/-! ## The invariant -/

/-- what holds of a cache after some of the calls, given the history of insertions -/
structure Sound (argon2id : Bytes → Bytes → Option Digest) (sha256 : Bytes → Digest) (calls : List Call)
    (history : List CacheKey) (c : DerivedKeyCache) : Prop where
  positive : 1 ≤ c.capacity
  tracks : Tracks c.order c.entries
  bounded : c.order.length ≤ c.capacity
  aged : Aged history c.order
  values : ∀ k entry, c.entries.lookup k = some entry → ∃ password salt outputLen key,
    .getOrDerive password salt outputLen ∈ calls ∧ k = CacheKey.new sha256 password salt outputLen ∧
      argon2id (utf8 (fromUtf8Lossy password)) salt = some key ∧ entry.keyBytes = key.toList.take outputLen

variable {calls : List Call} {history : List CacheKey}

theorem Sound.len_eq (h : Sound argon2id sha256 calls history c) : c.len = c.order.length := card_of_tracks h.tracks

theorem sound_new {capacity : ℕ} (h : DerivedKeyCache.new capacity = .ok c) : Sound argon2id sha256 calls [] c := by
  obtain ⟨h0, rfl⟩ := DerivedKeyCache.new_ok_iff.1 h
  exact ⟨Nat.one_le_iff_ne_zero.2 h0, tracks_empty, by simp, aged_nil, by simp⟩

section Values

variable {P : CacheKey → CacheEntry → Prop} {entries : Finmap fun _ : CacheKey => CacheEntry}

/-- what holds of the entries and of a new one holds with the new one among them -/
theorem values_insert (h : ∀ k entry, entries.lookup k = some entry → P k entry) {key : CacheKey} {new : CacheEntry}
    (hnew : P key new) : ∀ k entry, (entries.insert key new).lookup k = some entry → P k entry := by
  intro k entry hk
  by_cases hkk : k = key
  · rw [hkk, Finmap.lookup_insert, Option.some.injEq] at hk
    rwa [hkk, ← hk]
  · rw [Finmap.lookup_insert_of_ne _ hkk] at hk
    exact h k entry hk

theorem values_erase (h : ∀ k entry, entries.lookup k = some entry → P k entry) (key : CacheKey) :
    ∀ k entry, (entries.erase key).lookup k = some entry → P k entry := by
  intro k entry hk
  have hne : k ≠ key := by
    rintro rfl
    simp [Finmap.lookup_erase] at hk
  rw [Finmap.lookup_erase_ne hne] at hk
  exact h k entry hk

end Values

/-- evicting leaves room for one more -/
theorem sound_evict (h : Sound argon2id sha256 calls history c) :
    Sound argon2id sha256 calls history c.evict ∧ c.evict.order.length + 1 ≤ c.evict.capacity ∧
      (∀ k, k ∉ c.entries → k ∉ c.evict.entries) := by
  rcases Nat.lt_or_ge c.len c.capacity with hlt | hge
  · rw [DerivedKeyCache.evict_of_lt hlt]
    exact ⟨h, h.len_eq ▸ hlt, fun k hk => hk⟩
  · cases ho : c.order with
    | nil =>
      have hlen := h.len_eq
      rw [ho, List.length_nil] at hlen
      have hpos := h.positive
      omega
    | cons oldest order =>
      have htracks : Tracks (oldest :: order) c.entries := ho ▸ h.tracks
      have hbound : order.length + 1 ≤ c.capacity := by simpa [ho] using h.bounded
      rw [DerivedKeyCache.evict_of_le hge ho]
      refine ⟨⟨h.positive, htracks.pop, by dsimp only; omega, ?_, values_erase h.values oldest⟩, hbound, ?_⟩
      · exact (ho ▸ h.aged).sublist (List.sublist_cons_self oldest order)
      · intro k hk hin
        exact hk (Finmap.mem_erase.1 hin).2

/-- **One call keeps the invariant**, with the key that it inserts put in front of the history. -/
theorem sound_step (h : Sound argon2id sha256 calls history c) {call : Call} (hmem : call ∈ calls)
    (hvalid : call.Valid argon2id) :
    Sound argon2id sha256 calls ((insertedKey sha256 c call).toList ++ history) (step argon2id sha256 c call) := by
  cases call with
  | getOrDerive password salt outputLen =>
    obtain ⟨h1, h32, hsome⟩ := hvalid
    obtain ⟨key, hkey⟩ := Option.isSome_iff_exists.1 hsome
    rw [step, insertedKey]
    cases hlook : c.entries.lookup (CacheKey.new sha256 password salt outputLen) with
    | some entry =>
      have hin := Finmap.mem_of_lookup_eq_some hlook
      rw [DerivedKeyCache.getOrDerive_hit h1 (by omega) hlook, if_pos hin]
      refine ⟨h.positive, h.tracks.update hin, h.bounded, h.aged, values_insert h.values ?_⟩
      exact h.values _ entry hlook
    | none =>
      have hout := Finmap.lookup_eq_none.1 hlook
      obtain ⟨hsound, hroom, hfresh⟩ := sound_evict h
      have hout' := hfresh _ hout
      rw [DerivedKeyCache.getOrDerive_miss h1 h32 hlook hkey, if_neg hout]
      refine ⟨hsound.positive, hsound.tracks.push hout', ?_, ?_, values_insert hsound.values ?_⟩
      · simpa using hroom
      · exact hsound.aged.push fun hin => hout' ((hsound.tracks.mem_iff _).1 hin)
      · exact ⟨password, salt, outputLen, key, hmem, rfl, hkey, rfl⟩
  | invalidate password salt outputLen =>
    rw [step, insertedKey, DerivedKeyCache.invalidate]
    split_ifs with hin
    · refine ⟨h.positive, h.tracks.remove, ?_, h.aged.sublist List.filter_sublist, values_erase h.values _⟩
      exact (List.length_filter_le _ _).trans h.bounded
    · exact h
  | clear => exact ⟨h.positive, tracks_empty, Nat.zero_le _, aged_nil, by simp [step, DerivedKeyCache.clear]⟩

/-! ## What a call returns and evicts -/

/-- the passwords and salts of the calls that SHA-256 is applied to -/
def hashedBytes (calls : List Call) : Set Bytes := {b | ∃ call ∈ calls, b ∈ call.hashed}

/-- found or derived, the key returned is the one that is derived from the password and the salt -/
theorem getOrDerive_derived (h : Sound argon2id sha256 calls history c) (hsha : Set.InjOn sha256 (hashedBytes calls))
    {password salt : Bytes} {outputLen : ℕ} (hmem : Call.getOrDerive password salt outputLen ∈ calls)
    (hvalid : (Call.getOrDerive password salt outputLen).Valid argon2id) :
    ∃ key, deriveKey argon2id (fromUtf8Lossy password) salt = .ok (key, salt) ∧
      (c.getOrDerive argon2id sha256 password salt outputLen).1 = .ok (.ok (key.toList.take outputLen)) := by
  obtain ⟨h1, h32, hsome⟩ := hvalid
  obtain ⟨key, hkey⟩ := Option.isSome_iff_exists.1 hsome
  refine ⟨key, by rw [deriveKey, hkey], ?_⟩
  cases hlook : c.entries.lookup (CacheKey.new sha256 password salt outputLen) with
  | some entry =>
    -- the entry was made for a password and a salt with the same digests, hence for these
    obtain ⟨password', salt', outputLen', key', hmem', hk, hkey', hbytes⟩ := h.values _ _ hlook
    have hin : ∀ b ∈ [password, salt], b ∈ hashedBytes calls := fun b hb => ⟨_, hmem, hb⟩
    have hin' : ∀ b ∈ [password', salt'], b ∈ hashedBytes calls := fun b hb => ⟨_, hmem', hb⟩
    simp only [CacheKey.new, CacheKey.mk.injEq, Vector.toList_inj] at hk
    obtain ⟨hpassword, hsalt, rfl⟩ := hk
    obtain rfl := hsha (hin _ (by simp)) (hin' _ (by simp)) hpassword
    obtain rfl := hsha (hin _ (by simp)) (hin' _ (by simp)) hsalt
    rw [hkey, Option.some.injEq] at hkey'
    rw [DerivedKeyCache.getOrDerive_hit h1 (by omega) hlook, hbytes, hkey']
  | none => rw [DerivedKeyCache.getOrDerive_miss h1 h32 hlook hkey]

/-- how a call for key k leaves the entries: a key that is present stays, with all others; a new one is added, and if the cache
was full, the entry goes whose latest insertion is the oldest -/
def Replaces (history : List CacheKey) (c c' : DerivedKeyCache) (k : CacheKey) : Prop :=
  (k ∈ c.entries → ∀ k', k' ∈ c'.entries ↔ k' ∈ c.entries) ∧
  (k ∉ c.entries → c.len < c.capacity → ∃ entry, c'.entries = c.entries.insert k entry) ∧
  (k ∉ c.entries → c.capacity ≤ c.len → ∃ oldest ∈ c.entries,
    (∀ k' ∈ c.entries, k' ≠ oldest → history.idxOf k' < history.idxOf oldest) ∧
      ∃ entry, c'.entries = (c.entries.erase oldest).insert k entry)

theorem getOrDerive_replaces (h : Sound argon2id sha256 calls history c) {password salt : Bytes} {outputLen : ℕ}
    (hvalid : (Call.getOrDerive password salt outputLen).Valid argon2id) :
    Replaces history c (c.getOrDerive argon2id sha256 password salt outputLen).2
      (CacheKey.new sha256 password salt outputLen) := by
  obtain ⟨h1, h32, hsome⟩ := hvalid
  obtain ⟨key, hkey⟩ := Option.isSome_iff_exists.1 hsome
  refine ⟨fun hin k' => ?_, fun hout hlt => ?_, fun hout hge => ?_⟩
  · obtain ⟨entry, hlook⟩ := Finmap.mem_iff.1 hin
    rw [DerivedKeyCache.getOrDerive_hit h1 (by omega) hlook, Finmap.mem_insert]
    constructor
    · rintro (rfl | hk')
      · exact hin
      · exact hk'
    · exact Or.inr
  · rw [DerivedKeyCache.getOrDerive_miss h1 h32 (Finmap.lookup_eq_none.2 hout) hkey, DerivedKeyCache.evict_of_lt hlt]
    exact ⟨_, rfl⟩
  · cases ho : c.order with
    | nil =>
      have hlen := h.len_eq
      rw [ho, List.length_nil] at hlen
      have hpos := h.positive
      omega
    | cons oldest order =>
      have haged : Aged history (oldest :: order) := ho ▸ h.aged
      have hmem : ∀ k, k ∈ oldest :: order ↔ k ∈ c.entries := ho ▸ h.tracks.mem_iff
      rw [DerivedKeyCache.getOrDerive_miss h1 h32 (Finmap.lookup_eq_none.2 hout) hkey, DerivedKeyCache.evict_of_le hge ho]
      refine ⟨oldest, (hmem oldest).1 List.mem_cons_self, fun k' hk' hne => ?_, _, rfl⟩
      exact haged.head_oldest ((hmem k').2 hk') hne

/-! ## The counters -/

theorem saturatingSucc_eq {n : ℕ} (h : n + 1 < 2 ^ 64) : saturatingSucc n = n + 1 := by
  rw [saturatingSucc]
  omega

theorem evict_counters (c : DerivedKeyCache) :
    c.evict.totalHits = c.totalHits ∧ c.evict.totalMisses = c.totalMisses ∧ c.evict.capacity = c.capacity := by
  rw [DerivedKeyCache.evict]
  split_ifs
  · cases c.order <;> exact ⟨rfl, rfl, rfl⟩
  · exact ⟨rfl, rfl, rfl⟩

/-- a call of `get_or_derive` is counted once, as a hit or as a miss, and no other call is -/
theorem counters_step {call : Call} (hvalid : call.Valid argon2id)
    (hsmall : c.totalHits + c.totalMisses + (if call.isGet then 1 else 0) < 2 ^ 64) :
    (step argon2id sha256 c call).totalHits + (step argon2id sha256 c call).totalMisses =
      c.totalHits + c.totalMisses + if call.isGet then 1 else 0 := by
  cases call with
  | getOrDerive password salt outputLen =>
    obtain ⟨h1, h32, hsome⟩ := hvalid
    obtain ⟨key, hkey⟩ := Option.isSome_iff_exists.1 hsome
    rw [Call.isGet, if_pos rfl] at hsmall
    rw [step]
    cases hlook : c.entries.lookup (CacheKey.new sha256 password salt outputLen) with
    | some entry =>
      rw [DerivedKeyCache.getOrDerive_hit h1 (by omega) hlook]
      simp only [saturatingSucc_eq (show c.totalHits + 1 < 2 ^ 64 by omega), Call.isGet, if_true]
      omega
    | none =>
      rw [DerivedKeyCache.getOrDerive_miss h1 h32 hlook hkey]
      simp only [saturatingSucc_eq (show c.totalMisses + 1 < 2 ^ 64 by omega), (evict_counters c).1, Call.isGet, if_true]
      omega
  | invalidate password salt outputLen =>
    rw [step, DerivedKeyCache.invalidate]
    by_cases hin : CacheKey.new sha256 password salt outputLen ∈ c.entries
    · simp only [if_pos hin]
      rfl
    · simp only [if_neg hin]
      rfl
  | clear => rfl

/-! ## Runs of calls -/

theorem capacity_step (c : DerivedKeyCache) (call : Call) : (step argon2id sha256 c call).capacity = c.capacity := by
  cases call with
  | getOrDerive password salt outputLen =>
    rw [step, DerivedKeyCache.getOrDerive]
    split_ifs
    · rfl
    · dsimp only
      cases c.entries.lookup (CacheKey.new sha256 password salt outputLen) with
      | some entry => rfl
      | none =>
        dsimp only
        cases deriveKey argon2id (fromUtf8Lossy password) salt with
        | error panic => rfl
        | ok fullKey =>
          dsimp only
          cases truncate fullKey.1 outputLen with
          | error panic => rfl
          | ok keyBytes => exact (evict_counters _).2.2
  | invalidate password salt outputLen =>
    rw [step, DerivedKeyCache.invalidate]
    split_ifs <;> rfl
  | clear => rfl

variable (argon2id sha256) in
theorem capacity_run {capacity : ℕ} {c₀ : DerivedKeyCache} (hnew : DerivedKeyCache.new capacity = .ok c₀) (calls : List Call) :
    (Run.after (step argon2id sha256) c₀ calls).capacity = capacity := by
  induction calls using List.reverseRecOn with
  | nil =>
    obtain ⟨-, rfl⟩ := DerivedKeyCache.new_ok_iff.1 hnew
    rfl
  | append_singleton calls call ih =>
    rw [Run.after_append, ← ih]
    exact capacity_step _ call

theorem sound_run {capacity : ℕ} {c₀ : DerivedKeyCache} (hnew : DerivedKeyCache.new capacity = .ok c₀) {pre : List Call}
    (hmem : ∀ call ∈ pre, call ∈ calls) (hvalid : ∀ call ∈ pre, call.Valid argon2id) :
    Sound argon2id sha256 calls (insertions argon2id sha256 c₀ pre) (Run.after (step argon2id sha256) c₀ pre) := by
  induction pre using List.reverseRecOn with
  | nil => exact sound_new hnew
  | append_singleton pre call ih =>
    have hlast := List.mem_append_right pre (List.mem_singleton_self call)
    have hsound := ih (fun b hb => hmem b (List.mem_append_left _ hb)) fun b hb => hvalid b (List.mem_append_left _ hb)
    have hstep := sound_step hsound (hmem call hlast) (hvalid call hlast)
    rw [insertions, Run.tokens_snoc, List.reverse_append, Run.after_append]
    cases hins : insertedKey sha256 (Run.after (step argon2id sha256) c₀ pre) call <;> rwa [hins] at hstep

theorem counters_run {capacity : ℕ} {c₀ : DerivedKeyCache} (hnew : DerivedKeyCache.new capacity = .ok c₀) {pre : List Call}
    (hvalid : ∀ call ∈ pre, call.Valid argon2id) (hsmall : pre.countP Call.isGet < 2 ^ 64) :
    (Run.after (step argon2id sha256) c₀ pre).totalHits + (Run.after (step argon2id sha256) c₀ pre).totalMisses =
      pre.countP Call.isGet := by
  induction pre using List.reverseRecOn with
  | nil =>
    obtain ⟨-, rfl⟩ := DerivedKeyCache.new_ok_iff.1 hnew
    rfl
  | append_singleton pre call ih =>
    have hcount : (pre ++ [call]).countP Call.isGet = pre.countP Call.isGet + if call.isGet then 1 else 0 := by
      rw [List.countP_append, List.countP_singleton]
    rw [hcount] at hsmall ⊢
    have hpre := ih (fun b hb => hvalid b (List.mem_append_left _ hb)) (by omega)
    rw [Run.after_append, ← hpre]
    refine counters_step (hvalid call (List.mem_append_right pre (List.mem_singleton_self call))) ?_
    rwa [hpre]

/-- **The cache refines plain derivation.** Let SHA-256 be injective on the passwords and salts of a run. After the run the
queue holds each key of the map once and no other, there are at most `capacity` entries, and hits and misses add up to the
calls. At each call for a key, whatever came before, what is returned is `derive_key` of its password and salt shortened to the
length asked, and if an entry is evicted it is the one inserted earliest among those present. -/
theorem cache_refines_derivation (argon2id : Bytes → Bytes → Option Digest) (sha256 : Bytes → Digest) {capacity : ℕ}
    {c₀ : DerivedKeyCache} (hnew : DerivedKeyCache.new capacity = .ok c₀) (calls : List Call)
    (hvalid : ∀ call ∈ calls, call.Valid argon2id) (hsha : Set.InjOn sha256 (hashedBytes calls)) :
    (Run.after (step argon2id sha256) c₀ calls).order.Nodup ∧
    (∀ k, k ∈ (Run.after (step argon2id sha256) c₀ calls).order ↔ k ∈ (Run.after (step argon2id sha256) c₀ calls).entries) ∧
    (Run.after (step argon2id sha256) c₀ calls).len ≤ capacity ∧
    (calls.countP Call.isGet < 2 ^ 64 →
      (Run.after (step argon2id sha256) c₀ calls).totalHits + (Run.after (step argon2id sha256) c₀ calls).totalMisses =
        calls.countP Call.isGet) ∧
    ∀ pre password salt outputLen post, calls = pre ++ .getOrDerive password salt outputLen :: post →
      let c := Run.after (step argon2id sha256) c₀ pre
      (∃ key, deriveKey argon2id (fromUtf8Lossy password) salt = .ok (key, salt) ∧
        (c.getOrDerive argon2id sha256 password salt outputLen).1 = .ok (.ok (key.toList.take outputLen))) ∧
      Replaces (insertions argon2id sha256 c₀ pre) c (c.getOrDerive argon2id sha256 password salt outputLen).2
        (CacheKey.new sha256 password salt outputLen) := by
  have hsound : Sound argon2id sha256 calls _ (Run.after (step argon2id sha256) c₀ calls) :=
    sound_run hnew (fun call h => h) hvalid
  have hcapacity := capacity_run argon2id sha256 hnew calls
  refine ⟨hsound.tracks.nodup, hsound.tracks.mem_iff, ?_, fun hsmall => counters_run hnew hvalid hsmall, ?_⟩
  · rw [hsound.len_eq, ← hcapacity]
    exact hsound.bounded
  · intro pre password salt outputLen post hcalls
    have hmem : Call.getOrDerive password salt outputLen ∈ calls := by simp [hcalls]
    have hpre : ∀ call ∈ pre, call ∈ calls := fun call h => by simp [hcalls, h]
    have hsound' : Sound argon2id sha256 calls _ (Run.after (step argon2id sha256) c₀ pre) :=
      sound_run hnew hpre fun call h => hvalid call (hpre call h)
    exact ⟨getOrDerive_derived hsound' hsha hmem (hvalid _ hmem), getOrDerive_replaces hsound' (hvalid _ hmem)⟩

/-- what Argon2id accepts, with another function in its place -/
def standIn (password salt : Bytes) : Option Digest :=
  if 8 ≤ salt.length then some (Core.sha256 (password ++ salt)) else none

/-- a key is asked for, pushed out of a cache of one entry by another one, and asked for again -/
def evictingRun : List Call :=
  [.getOrDerive [1] [0, 0, 0, 0, 0, 0, 0, 0] 16, .getOrDerive [2] [0, 0, 0, 0, 0, 0, 0, 0] 32,
   .getOrDerive [1] [0, 0, 0, 0, 0, 0, 0, 0] 16]

theorem cache_refines_derivation_evicting :
    (Run.after (step standIn Core.sha256) ⟨1, ∅, [], 0, 0⟩ evictingRun).len ≤ 1 ∧
    (Run.after (step standIn Core.sha256) ⟨1, ∅, [], 0, 0⟩ evictingRun).totalHits +
      (Run.after (step standIn Core.sha256) ⟨1, ∅, [], 0, 0⟩ evictingRun).totalMisses = 3 := by
  have hnew : DerivedKeyCache.new 1 = .ok ⟨1, ∅, [], 0, 0⟩ := rfl
  have hsha : Set.InjOn Core.sha256 (hashedBytes evictingRun) := by
    have hall : ∀ a ∈ evictingRun.flatMap Call.hashed, ∀ b ∈ evictingRun.flatMap Call.hashed,
        Core.sha256 a = Core.sha256 b → a = b := by
      decide +kernel
    intro a ha b hb
    exact hall a (List.mem_flatMap.2 ha) b (List.mem_flatMap.2 hb)
  have hvalid : ∀ call ∈ evictingRun, call.Valid standIn := by
    intro call hcall
    simp only [evictingRun, List.mem_cons, List.not_mem_nil, or_false] at hcall
    rcases hcall with rfl | rfl | rfl <;> exact ⟨by decide, by decide, rfl⟩
  obtain ⟨-, -, hlen, hcounters, -⟩ := cache_refines_derivation standIn Core.sha256 hnew evictingRun hvalid hsha
  exact ⟨hlen, hcounters (by decide)⟩

end AbirGuard.Rust.KeyCache
