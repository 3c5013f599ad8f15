/-
What `get_or_derive` (`performance/key_cache.rs`) asks of `derive_key` (`kdf.rs`).

The cache admits lengths up to 64, the derived key has 32 bytes; `derive_key` panics where Argon2id refuses, and never returns
an error. The cache tells passwords apart by their bytes, `derive_key` gets them as text, in which all that is no UTF-8 is one
and the same character.

- `sized_after`: a cached key is as long as was asked, and no longer than 32 bytes.
- `derive_total_iff`: where a call is total, for every cache that calls have left, also those that panicked.
- `getOrDerive_congr`: Argon2id is asked for `passwordInput` and the salt, and nothing else.
- `input_unique_iff`: which passwords share their input with no other password.
-/
import AbirGuard.Core.Utf8Lossy
import AbirGuard.Rust.KeyCache

namespace AbirGuard.Rust.KeyDerivation

open AbirGuard.Core KeyCache

variable {argon2id : Bytes → Bytes → Option Digest} {sha256 : Bytes → Digest}

/-! ## Lengths -/

/-- a cached key has the length asked for, which is that of a prefix of a derived key -/
def Sized (c : DerivedKeyCache) : Prop :=
  ∀ k entry, c.entries.lookup k = some entry → entry.keyBytes.length = k.outputLen ∧ k.outputLen ≤ 32

theorem sized_new {capacity : ℕ} {c : DerivedKeyCache} (h : DerivedKeyCache.new capacity = .ok c) : Sized c := by
  obtain ⟨-, rfl⟩ := DerivedKeyCache.new_ok_iff.1 h
  intro k entry hk
  simp at hk

theorem sized_evict {c : DerivedKeyCache} (h : Sized c) : Sized c.evict := by
  unfold DerivedKeyCache.evict
  split_ifs
  · cases c.order with
    | nil => exact h
    | cons oldest order => exact values_erase h oldest
  · exact h

/-- what a truncation that returned was given -/
theorem truncate_ok {key : Digest} {outputLen : ℕ} {b : Bytes} (h : truncate key outputLen = .ok b) :
    outputLen ≤ 32 ∧ b.length = outputLen := by
  unfold truncate at h
  split_ifs at h with hle
  · cases h
    exact ⟨hle, by simp [hle]⟩
  · cases h

theorem sized_getOrDerive {c : DerivedKeyCache} (h : Sized c) (password salt : Bytes) (outputLen : ℕ) :
    Sized (c.getOrDerive argon2id sha256 password salt outputLen).2 := by
  unfold DerivedKeyCache.getOrDerive
  split_ifs
  · exact h
  · dsimp only
    cases hlook : c.entries.lookup (CacheKey.new sha256 password salt outputLen) with
    | some entry => exact values_insert h (h _ entry hlook)
    | none =>
      dsimp only
      cases deriveKey argon2id (fromUtf8Lossy password) salt with
      | error panic => exact h
      | ok fullKey =>
        dsimp only
        cases ht : truncate fullKey.1 outputLen with
        | error panic => exact h
        | ok keyBytes =>
          obtain ⟨hle, hlen⟩ := truncate_ok ht
          have hevicted : Sized (DerivedKeyCache.evict { c with totalMisses := saturatingSucc c.totalMisses }) := sized_evict h
          exact values_insert hevicted ⟨hlen, hle⟩

theorem sized_step {c : DerivedKeyCache} (h : Sized c) (call : Call) : Sized (step argon2id sha256 c call) := by
  cases call with
  | getOrDerive password salt outputLen => exact sized_getOrDerive h password salt outputLen
  | invalidate password salt outputLen =>
    rw [step, DerivedKeyCache.invalidate]
    split_ifs
    · exact values_erase h _
    · exact h
  | clear =>
    intro k entry hk
    simp [step, DerivedKeyCache.clear] at hk

theorem sized_after {capacity : ℕ} {c : DerivedKeyCache} (hnew : DerivedKeyCache.new capacity = .ok c) (calls : List Call) :
    Sized (Run.after (step argon2id sha256) c calls) :=
  @Run.after_inv _ _ _ Sized calls (fun call _ _ hs => sized_step hs call) c (sized_new hnew)

/-! ## Where a call is total -/

/-- a call refuses the lengths 0 and above 64; for the others it returns a key of the length or an error; it never panics, and
with an error it leaves the entries as they are -/
structure Total (argon2id : Bytes → Bytes → Option Digest) (sha256 : Bytes → Digest) (c : DerivedKeyCache)
    (password salt : Bytes) (outputLen : ℕ) : Prop where
  refuses : outputLen = 0 ∨ 64 < outputLen →
    (c.getOrDerive argon2id sha256 password salt outputLen).1 = .ok (.error .invalidOutputLength)
  returns : ¬ (outputLen = 0 ∨ 64 < outputLen) →
    (∃ key, (c.getOrDerive argon2id sha256 password salt outputLen).1 = .ok (.ok key) ∧ key.length = outputLen) ∨
      ∃ e, (c.getOrDerive argon2id sha256 password salt outputLen).1 = .ok (.error e)
  panics : ∀ p, (c.getOrDerive argon2id sha256 password salt outputLen).1 ≠ .error p
  unchanged : ∀ e, (c.getOrDerive argon2id sha256 password salt outputLen).1 = .ok (.error e) →
    (c.getOrDerive argon2id sha256 password salt outputLen).2.entries = c.entries

/-- a call for a length that is not admitted -/
theorem total_refused (c : DerivedKeyCache) (password salt : Bytes) {outputLen : ℕ} (h : outputLen = 0 ∨ 64 < outputLen) :
    Total argon2id sha256 c password salt outputLen := by
  have hcall : c.getOrDerive argon2id sha256 password salt outputLen = (.ok (.error .invalidOutputLength), c) := if_pos h
  refine ⟨fun _ => by rw [hcall], fun hno => absurd h hno, fun p hp => ?_, fun e _ => by rw [hcall]⟩
  rw [hcall] at hp
  cases hp

/-- a call that returns a key of the length -/
theorem total_returned {c c' : DerivedKeyCache} {password salt key : Bytes} {outputLen : ℕ}
    (hlen : ¬ (outputLen = 0 ∨ 64 < outputLen)) (hkey : key.length = outputLen)
    (h : c.getOrDerive argon2id sha256 password salt outputLen = (.ok (.ok key), c')) :
    Total argon2id sha256 c password salt outputLen := by
  refine ⟨fun hno => absurd hno hlen, fun _ => Or.inl ⟨key, by rw [h], hkey⟩, fun p hp => ?_, fun e he => ?_⟩
  · rw [h] at hp
    cases hp
  · rw [h] at he
    cases he

/-- a miss panics where Argon2id refuses the input, or the length is above that of a derived key -/
theorem getOrDerive_panics {c : DerivedKeyCache} {password salt : Bytes} {outputLen : ℕ}
    (hlen : ¬ (outputLen = 0 ∨ 64 < outputLen))
    (hlook : c.entries.lookup (CacheKey.new sha256 password salt outputLen) = none)
    (h : ¬ (outputLen ≤ 32 ∧ (argon2id (utf8 (fromUtf8Lossy password)) salt).isSome)) :
    ∃ p, (c.getOrDerive argon2id sha256 password salt outputLen).1 = .error p := by
  rw [DerivedKeyCache.getOrDerive, if_neg hlen]
  simp only [hlook, deriveKey]
  cases hkey : argon2id (utf8 (fromUtf8Lossy password)) salt with
  | none => exact ⟨_, rfl⟩
  | some key =>
    have hlong : ¬ outputLen ≤ 32 := fun hle => h ⟨hle, by rw [hkey]; rfl⟩
    simp only [truncate, if_neg hlong]
    exact ⟨_, rfl⟩

/-- **Where a call is total.** After any calls: exactly for a length that is refused, and for a length up to 32 where the key is
cached or Argon2id accepts password and salt. -/
theorem derive_total_iff (argon2id : Bytes → Bytes → Option Digest) (sha256 : Bytes → Digest) {capacity : ℕ}
    {c₀ : DerivedKeyCache} (hnew : DerivedKeyCache.new capacity = .ok c₀) (calls : List Call) (password salt : Bytes)
    (outputLen : ℕ) :
    Total argon2id sha256 (Run.after (step argon2id sha256) c₀ calls) password salt outputLen ↔
      outputLen = 0 ∨ 64 < outputLen ∨ outputLen ≤ 32 ∧
        (CacheKey.new sha256 password salt outputLen ∈ (Run.after (step argon2id sha256) c₀ calls).entries ∨
          (argon2id (utf8 (fromUtf8Lossy password)) salt).isSome) := by
  have hsized : Sized (Run.after (step argon2id sha256) c₀ calls) := sized_after hnew calls
  generalize Run.after (step argon2id sha256) c₀ calls = c at hsized ⊢
  by_cases hlen : outputLen = 0 ∨ 64 < outputLen
  · exact iff_of_true (total_refused c password salt hlen) (or_assoc.1 (Or.inl hlen))
  · rw [← or_assoc, or_iff_right hlen]
    cases hlook : c.entries.lookup (CacheKey.new sha256 password salt outputLen) with
    | some entry =>
      have hin := Finmap.mem_of_lookup_eq_some hlook
      obtain ⟨hkey, hle⟩ := hsized _ entry hlook
      have h1 : 1 ≤ outputLen := by omega
      refine iff_of_true ?_ ⟨hle, Or.inl hin⟩
      exact total_returned hlen hkey (DerivedKeyCache.getOrDerive_hit h1 (by omega) hlook)
    | none =>
      have hout := Finmap.lookup_eq_none.1 hlook
      by_cases h : outputLen ≤ 32 ∧ (argon2id (utf8 (fromUtf8Lossy password)) salt).isSome
      · obtain ⟨key, hkey⟩ := Option.isSome_iff_exists.1 h.2
        refine iff_of_true ?_ ⟨h.1, Or.inr h.2⟩
        exact total_returned hlen (by simp [h.1]) (DerivedKeyCache.getOrDerive_miss (by omega) h.1 hlook hkey)
      · refine iff_of_false (fun htotal => ?_) ?_
        · obtain ⟨p, hp⟩ := getOrDerive_panics hlen hlook h
          exact htotal.panics p hp
        · intro ⟨hle, hor⟩
          rcases hor with hin | hsome
          · exact hout hin
          · exact h ⟨hle, hsome⟩

theorem derive_total_iff_empty :
    Total standIn Core.sha256 (Run.after (step standIn Core.sha256) ⟨4, ∅, [], 0, 0⟩ []) [1] [0, 0, 0, 0, 0, 0, 0, 0] 32 ↔
      32 = 0 ∨ 64 < 32 ∨ 32 ≤ 32 ∧
        (CacheKey.new Core.sha256 [1] [0, 0, 0, 0, 0, 0, 0, 0] 32 ∈
            (Run.after (step standIn Core.sha256) ⟨4, ∅, [], 0, 0⟩ []).entries ∨
          (standIn (utf8 (fromUtf8Lossy [1])) [0, 0, 0, 0, 0, 0, 0, 0]).isSome) :=
  derive_total_iff standIn Core.sha256 (show DerivedKeyCache.new 4 = _ from rfl) [] [1] [0, 0, 0, 0, 0, 0, 0, 0] 32

/-- **The admitted length 64 panics** on a miss, where a key has 32 bytes. -/
theorem length_64_panics :
    ¬ ∀ (argon2id : Bytes → Bytes → Option Digest) (sha256 : Bytes → Digest),
      (∀ password salt, salt.length < 8 → argon2id password salt = none) → ∀ (capacity : ℕ) (c₀ : DerivedKeyCache),
      DerivedKeyCache.new capacity = .ok c₀ → ∀ (calls : List Call) (password salt : Bytes) (outputLen : ℕ),
      Total argon2id sha256 (Run.after (step argon2id sha256) c₀ calls) password salt outputLen := by
  intro h
  have hshort : ∀ password salt : Bytes, salt.length < 8 → standIn password salt = none := fun password salt hlt =>
    if_neg (Nat.not_le.2 hlt)
  have htotal := h standIn Core.sha256 hshort 4 ⟨4, ∅, [], 0, 0⟩ rfl [] [1] [0, 0, 0, 0, 0, 0, 0, 0] 64
  have hlook : (∅ : Finmap fun _ : CacheKey => CacheEntry).lookup (CacheKey.new Core.sha256 [1] [0, 0, 0, 0, 0, 0, 0, 0] 64) =
    none := Finmap.lookup_empty _
  obtain ⟨p, hp⟩ := @getOrDerive_panics standIn Core.sha256 ⟨4, ∅, [], 0, 0⟩ [1] [0, 0, 0, 0, 0, 0, 0, 0] 64 (by decide) hlook
    fun hle => absurd hle.1 (by decide)
  exact htotal.panics p hp

/-! ## Which passwords meet at one input -/

/-- the password as Argon2id gets it -/
def passwordInput (password : Bytes) : Bytes := utf8 (fromUtf8Lossy password)

/-- a call depends on Argon2id at this input and the salt only -/
theorem getOrDerive_congr {argon2id' : Bytes → Bytes → Option Digest} {password salt : Bytes}
    (h : argon2id (passwordInput password) salt = argon2id' (passwordInput password) salt) (c : DerivedKeyCache)
    (outputLen : ℕ) : c.getOrDerive argon2id sha256 password salt outputLen =
      c.getOrDerive argon2id' sha256 password salt outputLen := by
  have hderive : deriveKey argon2id (fromUtf8Lossy password) salt = deriveKey argon2id' (fromUtf8Lossy password) salt := by
    rw [passwordInput] at h
    rw [deriveKey, deriveKey, h]
  rw [DerivedKeyCache.getOrDerive, DerivedKeyCache.getOrDerive, hderive]

/-- **Which passwords have an input of their own**: the texts without U+FFFD. -/
theorem input_unique_iff (password : Bytes) :
    (∀ password' ≠ password, passwordInput password' ≠ passwordInput password) ↔
      ∃ s, password = utf8 s ∧ replacement ∉ s.toList := by
  constructor
  · intro h
    cases hp : fromUtf8 password with
    | none =>
      -- the text that the password is read as has the same input
      have hne : utf8 (fromUtf8Lossy password) ≠ password := by
        intro heq
        rw [← heq, fromUtf8_utf8] at hp
        cases hp
      exact absurd (by rw [passwordInput, fromUtf8Lossy_utf8, passwordInput]) (h _ hne)
    | some s =>
      obtain rfl := utf8_of_fromUtf8 hp
      refine ⟨s, rfl, fun hmem => ?_⟩
      obtain ⟨l, l', hsplit⟩ := List.append_of_mem hmem
      have hs : String.ofList ((String.ofList l).toList ++ replacement :: (String.ofList l').toList) = s := by
        rw [String.toList_ofList, String.toList_ofList, ← hsplit, String.ofList_toList]
      have hne : utf8 (String.ofList l) ++ 0xFF :: utf8 (String.ofList l') ≠ utf8 s := by
        intro heq
        have hinvalid := fromUtf8_invalid_byte (utf8 (String.ofList l)) (utf8 (String.ofList l'))
        rw [heq, fromUtf8_utf8] at hinvalid
        cases hinvalid
      refine h _ hne ?_
      rw [passwordInput, fromUtf8Lossy_replaces, hs, passwordInput, fromUtf8Lossy_utf8]
  · intro ⟨s, htext, hs⟩ password' hne heq
    subst htext
    rw [passwordInput, passwordInput, fromUtf8Lossy_utf8, utf8_inj] at heq
    cases hp : fromUtf8 password' with
    | none =>
      have hmem := fromUtf8Lossy_invalid hp
      rw [heq] at hmem
      exact hs hmem
    | some s' =>
      obtain rfl := utf8_of_fromUtf8 hp
      rw [fromUtf8Lossy_utf8] at heq
      exact hne (congrArg utf8 heq)

/-- **Two binary passwords with one input**: each is a byte that is no text. -/
theorem bytes_share_input :
    ¬ ∀ password password' : Bytes, password ≠ password' → passwordInput password ≠ passwordInput password' := by
  intro h
  exact h [0xFF] [0xFE] (by decide) (by decide +kernel)

end AbirGuard.Rust.KeyDerivation
