/-
Does the cache of `ZeroCopyVault` evict its oldest entry?

A write into a full cache first removes the key that comes first in the iteration of the hash map, whether the key to be
written is present or not. Which key comes first is not determined: a run says it for each call. A key is inserted by a write
that does not find it; the history lists the insertions, the latest first.

- `sound_step`: a cache never holds more than 100 entries.
- `exists_oldest`: one of the keys present was inserted before all others.
- `oldestFirst_iff`: a run meets the description of an oldest-first cache if and only if each write into a full cache finds
  its own key first if that key is present, and else the oldest one.
- `overwrite_evicts`: a run in which a write to a present key removes another entry.
-/
import AbirGuard.Core.Run
import AbirGuard.Rust.ZeroCopy

namespace AbirGuard.Rust.ZeroCopyVault

open AbirGuard.Core Run

/-! ## Runs -/

inductive CacheCall where
  | cacheWrite (keyId : String) (data : Bytes)
  | cacheRead (keyId : String)
  | clearCache

/-- a vault, and the keys that were inserted so far -/
structure CacheState where
  vault : ZeroCopyVault
  history : List String

namespace CacheState

/-- the entries of the cache -/
def cache (s : CacheState) : Finmap fun _ : String => Bytes := s.vault.cache.data

def start : CacheState := ⟨.new, []⟩

/-- a call, with the key that iteration of the cache gives first -/
def step (s : CacheState) : CacheCall × Option String → CacheState
  | (.cacheWrite keyId data, firstKey) =>
    ⟨(s.vault.cacheWrite keyId data firstKey).2, if keyId ∈ s.cache then s.history else keyId :: s.history⟩
  | (.cacheRead _, _) => s
  | (.clearCache, _) => ⟨s.vault.clearCache.2, s.history⟩

/-- iteration gives some key that is present, and none if there is none -/
def Iterates (s : CacheState) (c : CacheCall × Option String) : Prop :=
  match c.2 with
  | none => s.cache = ∅
  | some key => key ∈ s.cache

/-- of the keys present it was inserted first -/
def Oldest (s : CacheState) (key : String) : Prop :=
  key ∈ s.cache ∧ ∀ k ∈ s.cache, k ≠ key → s.history.idxOf k < s.history.idxOf key

/-- what a call does to a bounded cache that evicts its oldest entry -/
structure OldestFirst (s : CacheState) (c : CacheCall × Option String) : Prop where
  bounded : (s.step c).cache.keys.card ≤ MAX_CACHE_ENTRIES
  written : ∀ keyId data, c.1 = .cacheWrite keyId data → (s.step c).vault.cacheRead keyId = .ok (some data)
  overwritten : ∀ keyId data, c.1 = .cacheWrite keyId data → keyId ∈ s.cache →
    ∀ k ≠ keyId, (s.step c).cache.lookup k = s.cache.lookup k
  evicted : ∀ keyId data, c.1 = .cacheWrite keyId data → keyId ∉ s.cache → MAX_CACHE_ENTRIES ≤ s.cache.keys.card →
    ∃ oldest, s.Oldest oldest ∧ (s.step c).cache = (s.cache.erase oldest).insert keyId data

/-- what comes first in a full cache: the key to be written, or else the oldest one -/
def FindsOldest (s : CacheState) (c : CacheCall × Option String) : Prop :=
  ∀ keyId data, c.1 = .cacheWrite keyId data → MAX_CACHE_ENTRIES ≤ s.cache.keys.card →
    (keyId ∈ s.cache → c.2 = some keyId) ∧ (keyId ∉ s.cache → ∃ oldest, s.Oldest oldest ∧ c.2 = some oldest)

/-! ## One call -/

/-- what holds after every call -/
structure Sound (s : CacheState) : Prop where
  unpoisoned : s.vault.cache.poisoned = false
  bounded : s.cache.keys.card ≤ MAX_CACHE_ENTRIES
  inserted : ∀ k ∈ s.cache, k ∈ s.history

theorem sound_start : Sound start := ⟨rfl, Nat.zero_le _, fun _ hk => absurd hk Finmap.notMem_empty⟩

variable {s : CacheState} {keyId : String} {data : Bytes} {firstKey : Option String}

/-- a write below the limit removes nothing -/
theorem write_of_lt (hs : Sound s) (hlt : s.cache.keys.card < MAX_CACHE_ENTRIES) :
    (s.step (.cacheWrite keyId data, firstKey)).vault.cache = ⟨s.cache.insert keyId data, false⟩ := by
  have hnot : ¬ s.vault.cache.data.keys.card ≥ MAX_CACHE_ENTRIES := Nat.not_le.2 hlt
  rw [step, cacheWrite, Mutex.lock_of hs.unpoisoned]
  dsimp only
  rw [if_neg hnot, hs.unpoisoned]
  rfl

/-- a write into a full cache removes the key that comes first -/
theorem write_of_le (hs : Sound s) (hfull : MAX_CACHE_ENTRIES ≤ s.cache.keys.card) (first : String) :
    (s.step (.cacheWrite keyId data, some first)).vault.cache = ⟨(s.cache.erase first).insert keyId data, false⟩ := by
  have hge : s.vault.cache.data.keys.card ≥ MAX_CACHE_ENTRIES := hfull
  rw [step, cacheWrite, Mutex.lock_of hs.unpoisoned]
  dsimp only
  rw [if_pos hge, hs.unpoisoned]
  rfl

/-- in a full cache some key comes first -/
theorem Iterates.exists_first {c : CacheCall × Option String} (h : s.Iterates c)
    (hfull : MAX_CACHE_ENTRIES ≤ s.cache.keys.card) : ∃ first ∈ s.cache, c.2 = some first := by
  obtain ⟨call, firstKey⟩ := c
  cases firstKey with
  | none =>
    rw [show s.cache = ∅ from h] at hfull
    exact absurd hfull (by decide)
  | some first => exact ⟨first, h, rfl⟩

/-- what is written is in the cache, and is read back -/
theorem written_of {m : Finmap fun _ : String => Bytes} {c : CacheCall × Option String}
    (hstep : (s.step c).vault.cache = ⟨m.insert keyId data, false⟩) :
    (s.step c).cache = m.insert keyId data ∧ (s.step c).vault.cacheRead keyId = .ok (some data) := by
  refine ⟨congrArg Mutex.data hstep, ?_⟩
  rw [cacheRead, hstep, Mutex.lock_of rfl]
  exact congrArg Except.ok (Finmap.lookup_insert m)

theorem keys_insert (m : Finmap fun _ : String => Bytes) (k : String) (b : Bytes) :
    (m.insert k b).keys = insert k m.keys := by
  ext k'
  rw [Finmap.mem_keys, Finmap.mem_insert, Finset.mem_insert, Finmap.mem_keys]

/-- the entries after a write are the written one and entries from before, and the cache is not over its limit -/
theorem write_cache (hs : Sound s) {c : CacheCall × Option String} (hc : s.Iterates c) (hwrite : c.1 = .cacheWrite keyId data) :
    ∃ m : Finmap fun _ : String => Bytes, (s.step c).vault.cache = ⟨m.insert keyId data, false⟩ ∧ (∀ k ∈ m, k ∈ s.cache) ∧
      m.keys.card + 1 ≤ MAX_CACHE_ENTRIES := by
  obtain ⟨call, firstKey⟩ := c
  obtain rfl : call = .cacheWrite keyId data := hwrite
  rcases Nat.lt_or_ge s.cache.keys.card MAX_CACHE_ENTRIES with hlt | hfull
  · exact ⟨s.cache, write_of_lt hs hlt, fun k hk => hk, hlt⟩
  · obtain ⟨first, hfirst, rfl : firstKey = some first⟩ := hc.exists_first hfull
    refine ⟨s.cache.erase first, write_of_le hs hfull first, fun k hk => (Finmap.mem_erase.1 hk).2, ?_⟩
    rw [Finmap.keys_erase, Finset.card_erase_add_one (Finmap.mem_keys.2 hfirst)]
    exact hs.bounded

/-- **A call keeps the bound**, whichever key comes first. -/
theorem sound_step (hs : Sound s) {c : CacheCall × Option String} (hc : s.Iterates c) : Sound (s.step c) := by
  obtain ⟨call, firstKey⟩ := c
  cases call with
  | cacheRead k => exact hs
  | clearCache =>
    rw [step, clearCache, Mutex.lock_of hs.unpoisoned]
    exact ⟨hs.unpoisoned, Nat.zero_le _, fun k hk => absurd hk Finmap.notMem_empty⟩
  | cacheWrite k b =>
    obtain ⟨m, hstep, hsub, hroom⟩ := write_cache hs hc rfl
    have hcache := (written_of hstep).1
    refine ⟨by rw [hstep], ?_, fun k' hk' => ?_⟩
    · rw [hcache, keys_insert]
      exact (Finset.card_insert_le k m.keys).trans hroom
    · have hin : k' = k ∨ k' ∈ s.cache := (Finmap.mem_insert.1 (hcache ▸ hk')).imp_right (hsub k')
      change k' ∈ if k ∈ s.cache then s.history else k :: s.history
      split_ifs with hk
      · rcases hin with rfl | hin
        · exact hs.inserted k' hk
        · exact hs.inserted k' hin
      · rcases hin with rfl | hin
        · exact List.mem_cons_self
        · exact List.mem_cons_of_mem _ (hs.inserted k' hin)

/-- in a cache with entries, one was inserted before all others -/
theorem exists_oldest (hs : Sound s) (hne : s.cache.keys.Nonempty) : ∃! k, s.Oldest k := by
  obtain ⟨oldest, hmem, hmax⟩ := s.cache.keys.exists_max_image (fun k => s.history.idxOf k) hne
  have hin := Finmap.mem_keys.1 hmem
  refine ⟨oldest, ⟨hin, fun k hk hk' => ?_⟩, fun k hk => ?_⟩
  · refine Nat.lt_of_le_of_ne (hmax k (Finmap.mem_keys.2 hk)) fun heq => hk' ?_
    exact (List.idxOf_inj (hs.inserted k hk)).1 heq
  · by_contra hne
    have hle := hmax k (Finmap.mem_keys.2 hk.1)
    exact absurd (hk.2 oldest hin (Ne.symm hne)) (Nat.not_lt.2 hle)

/-- which entry a write into a full cache removes can be told from what is left -/
theorem erase_insert_inj {m : Finmap fun _ : String => Bytes} {k k' key : String} {b : Bytes} (hk : k ∈ m) (hkey : key ∉ m)
    (h : (m.erase k).insert key b = (m.erase k').insert key b) : k = k' := by
  by_contra hne
  have hlookup := congrArg (Finmap.lookup k) h
  have hkk : k ≠ key := ne_of_mem_of_not_mem hk hkey
  rw [Finmap.lookup_insert_of_ne _ hkk, Finmap.lookup_erase, Finmap.lookup_insert_of_ne _ hkk,
    Finmap.lookup_erase_ne hne] at hlookup
  exact Finmap.lookup_eq_none.1 hlookup.symm hk

/-- **A call does what an oldest-first cache does if and only if it finds the right key first.** -/
theorem oldestFirst_call_iff (hs : Sound s) {c : CacheCall × Option String} (hc : s.Iterates c) :
    s.OldestFirst c ↔ s.FindsOldest c := by
  constructor
  · intro h keyId data hwrite hfull
    obtain ⟨call, firstKey⟩ := c
    obtain rfl : call = .cacheWrite keyId data := hwrite
    obtain ⟨first, hfirst, rfl : firstKey = some first⟩ := hc.exists_first hfull
    have hcache := congrArg Mutex.data (@write_of_le s keyId data hs hfull first)
    refine ⟨fun hin => ?_, fun hnew => ?_⟩
    · -- any other first key would be gone
      by_contra hne
      have hne : first ≠ keyId := fun heq => hne (congrArg some heq)
      have hkept := h.overwritten keyId data rfl hin first hne
      rw [cache, hcache, Finmap.lookup_insert_of_ne _ hne, Finmap.lookup_erase] at hkept
      exact Finmap.lookup_eq_none.1 hkept.symm hfirst
    · obtain ⟨oldest, hold, heq⟩ := h.evicted keyId data rfl hnew hfull
      refine ⟨oldest, hold, congrArg some ?_⟩
      exact erase_insert_inj hfirst hnew (hcache.symm.trans heq)
  · intro h
    refine ⟨(sound_step hs hc).bounded, fun keyId data hwrite => ?_, fun keyId data hwrite hin k hk => ?_,
      fun keyId data hwrite hnew hfull => ?_⟩
    · obtain ⟨m, hstep, -⟩ := write_cache hs hc hwrite
      exact (written_of hstep).2
    · obtain ⟨call, firstKey⟩ := c
      obtain rfl : call = .cacheWrite keyId data := hwrite
      rcases Nat.lt_or_ge s.cache.keys.card MAX_CACHE_ENTRIES with hlt | hfull
      · rw [(written_of (write_of_lt hs hlt)).1, Finmap.lookup_insert_of_ne _ hk]
      · obtain rfl : firstKey = some keyId := (h keyId data rfl hfull).1 hin
        rw [(written_of (write_of_le hs hfull keyId)).1, Finmap.lookup_insert_of_ne _ hk, Finmap.lookup_erase_ne hk]
    · obtain ⟨call, firstKey⟩ := c
      obtain rfl : call = .cacheWrite keyId data := hwrite
      obtain ⟨oldest, hold, rfl : firstKey = some oldest⟩ := (h keyId data rfl hfull).2 hnew
      exact ⟨oldest, hold, (written_of (write_of_le hs hfull oldest)).1⟩

/-! ## Runs of calls -/

/-- **Every call of a run does what an oldest-first cache does if and only if each write into a full cache finds first its own
key, if that key is present, and else the oldest one.** -/
theorem oldestFirst_iff {run : List (CacheCall × Option String)} (hrun : EachStep step Iterates start run) :
    EachStep step OldestFirst start run ↔ EachStep step FindsOldest start run := by
  have hcall : ∀ pre c post, run = pre ++ c :: post →
      ((after step start pre).OldestFirst c ↔ (after step start pre).FindsOldest c) := by
    intro pre c post hsplit
    rw [hsplit] at hrun
    have hs : Sound (after step start pre) := hrun.left.after Sound (fun s c hs hc => sound_step hs hc) sound_start
    exact oldestFirst_call_iff hs (hrun pre c post rfl)
  constructor
  · intro h pre c post hsplit
    exact (hcall pre c post hsplit).1 (h pre c post hsplit)
  · intro h pre c post hsplit
    exact (hcall pre c post hsplit).2 (h pre c post hsplit)

/-! ## A full cache -/

/-- writes of empty data, with the same key first each time -/
def writes (first : String) (keys : List String) : List (CacheCall × Option String) :=
  keys.map fun k => (.cacheWrite k [], some first)

/-- new keys that fit in are all kept -/
theorem after_writes {first : String} {keys : List String} {s : CacheState} (hs : Sound s) (hfirst : first ∈ s.cache)
    (hnodup : keys.Nodup) (hnew : ∀ k ∈ keys, k ∉ s.cache) (hroom : s.cache.keys.card + keys.length ≤ MAX_CACHE_ENTRIES) :
    EachStep step Iterates s (writes first keys) ∧
      (after step s (writes first keys)).cache.keys.card = s.cache.keys.card + keys.length ∧
      ∀ k, k ∈ s.cache ∨ k ∈ keys → k ∈ (after step s (writes first keys)).cache := by
  induction keys generalizing s with
  | nil => exact ⟨eachStep_nil s, rfl, fun k hk => hk.resolve_right List.not_mem_nil⟩
  | cons key keys ih =>
    obtain ⟨hkey, hnodup⟩ := List.nodup_cons.1 hnodup
    rw [List.length_cons] at hroom ⊢
    have hiter : s.Iterates (.cacheWrite key [], some first) := hfirst
    obtain ⟨hcache, -⟩ := written_of (@write_of_lt s key [] (some first) hs (by omega))
    have hcard : (s.step (.cacheWrite key [], some first)).cache.keys.card = s.cache.keys.card + 1 := by
      rw [hcache, keys_insert, Finset.card_insert_of_notMem]
      exact fun hin => hnew key List.mem_cons_self (Finmap.mem_keys.1 hin)
    have hmem : ∀ k, k ∈ (s.step (.cacheWrite key [], some first)).cache ↔ k = key ∨ k ∈ s.cache := by
      intro k
      rw [hcache, Finmap.mem_insert]
    obtain ⟨hsteps, hlast, hkept⟩ := ih (sound_step hs hiter) ((hmem first).2 (Or.inr hfirst)) hnodup
      (fun k hk hin => by
        rcases (hmem k).1 hin with rfl | hin
        · exact hkey hk
        · exact hnew k (List.mem_cons_of_mem _ hk) hin)
      (by omega)
    refine ⟨eachStep_cons.2 ⟨hiter, hsteps⟩, ?_, fun k hk => ?_⟩
    · rw [writes, List.map_cons, after_cons]
      exact hlast.trans (by omega)
    · apply hkept k
      rcases hk with hk | hk
      · exact Or.inl ((hmem k).2 (Or.inr hk))
      · rcases List.mem_cons.1 hk with rfl | hk
        · exact Or.inl ((hmem k).2 (Or.inl rfl))
        · exact Or.inr hk

/-- the cache is filled, and then a key is written again while another one comes first -/
def overwrite (first : String) (keys : List String) (again : String) : List (CacheCall × Option String) :=
  (.cacheWrite first [], none) :: writes first keys ++ [(.cacheWrite again [], some first)]

theorem overwrite_spec {first again : String} {keys : List String} (hnodup : (first :: keys).Nodup) (hagain : again ∈ keys)
    (hlen : keys.length + 1 = MAX_CACHE_ENTRIES) : EachStep step Iterates start (overwrite first keys again) ∧
      ¬ EachStep step OldestFirst start (overwrite first keys again) := by
  obtain ⟨hfirst, hnodup⟩ := List.nodup_cons.1 hnodup
  have hiter : start.Iterates (.cacheWrite first [], none) := rfl
  have hs := sound_step sound_start hiter
  obtain ⟨hcache, -⟩ := written_of (@write_of_lt start first [] none sound_start (by decide))
  have hmem : ∀ k, k ∈ (start.step (.cacheWrite first [], none)).cache ↔ k = first := by
    intro k
    rw [hcache, Finmap.mem_insert]
    exact or_iff_left Finmap.notMem_empty
  have hcard : (start.step (.cacheWrite first [], none)).cache.keys.card = 1 := by
    rw [hcache]
    rfl
  have hnew : ∀ k ∈ keys, k ∉ (start.step (.cacheWrite first [], none)).cache := by
    intro k hk hin
    exact hfirst ((hmem k).1 hin ▸ hk)
  obtain ⟨hsteps, hfull, hkept⟩ := after_writes hs ((hmem first).2 rfl) hnodup hnew (by omega)
  have hfill : EachStep step Iterates start ((.cacheWrite first [], none) :: writes first keys) :=
    eachStep_cons.2 ⟨hiter, hsteps⟩
  have hsound : Sound (after step start ((.cacheWrite first [], none) :: writes first keys)) :=
    hfill.after Sound (fun s c hs hc => sound_step hs hc) sound_start
  have hlast : (after step start ((.cacheWrite first [], none) :: writes first keys)).Iterates
      (.cacheWrite again [], some first) := hkept first (Or.inl ((hmem first).2 rfl))
  refine ⟨eachStep_append.2 ⟨hfill, eachStep_cons.2 ⟨hlast, eachStep_nil _⟩⟩, fun h => ?_⟩
  have hcall := (eachStep_cons.1 (eachStep_append.1 h).2).1
  have hfinds := (oldestFirst_call_iff hsound hlast).1 hcall again [] rfl (by rw [after_cons]; omega)
  have hsame := hfinds.1 (hkept again (Or.inr hagain))
  exact hfirst (Option.some.inj hsame ▸ hagain)

def key (i : ℕ) : String := String.ofList (List.replicate i 'k')

theorem key_injective : Function.Injective key := by
  intro i j h
  simpa using congrArg List.length (String.ofList_injective h)

def laterKeys : List String := (List.range' 1 99).map key

theorem keys_nodup : (key 0 :: laterKeys).Nodup := (List.nodup_range' (s := 0) (n := 100)).map key_injective

theorem key_one_mem : key 1 ∈ laterKeys := List.mem_map_of_mem (List.mem_range'_1.2 ⟨le_rfl, by decide⟩)

theorem laterKeys_length : laterKeys.length + 1 = MAX_CACHE_ENTRIES := by
  rw [laterKeys, List.length_map, List.length_range']
  rfl

/-- 100 different keys, of which the second is written again -/
def overwriteRun : List (CacheCall × Option String) := overwrite (key 0) laterKeys (key 1)

theorem oldestFirst_iff_overwriteRun :
    EachStep step OldestFirst start overwriteRun ↔ EachStep step FindsOldest start overwriteRun :=
  oldestFirst_iff (overwrite_spec keys_nodup key_one_mem laterKeys_length).1

/-- a write to a present key removes another entry -/
theorem overwrite_evicts : EachStep step Iterates start overwriteRun ∧ ¬ EachStep step OldestFirst start overwriteRun :=
  overwrite_spec keys_nodup key_one_mem laterKeys_length

end CacheState

end AbirGuard.Rust.ZeroCopyVault
