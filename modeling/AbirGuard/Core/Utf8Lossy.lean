/-
What the lossy decoder of UTF-8 (`fromUtf8Lossy`) makes of a byte string.

- `Complete`: a lead byte and the bytes that complete its sequence. `complete_encode` and `encode_complete`: these are exactly
  the encodings of characters.
- `forall_mem_utf8_iff`, `utf8_of_ascii`: the bytes of a text whose characters are ASCII.
- `fromUtf8Lossy_invalid`: where a byte string is no text, U+FFFD stands in what is decoded.
- `fromUtf8Lossy_replaces`: every text with a U+FFFD is also decoded from a byte string that is no text.
-/
import AbirGuard.Core.Bytes

namespace AbirGuard.Core

/-! ## Sequences -/

/-- a lead byte with the bytes that complete its sequence -/
def Complete (b : UInt8) (tail : Bytes) : Prop :=
  seqLen b.toNat = tail.length + 1 ∧ continues (secondOk b.toNat) tail.length tail = tail.length

theorem continues_append (ok : ℕ → Bool) (tail rest : Bytes) :
    continues ok tail.length (tail ++ rest) = continues ok tail.length tail := by
  induction tail generalizing ok with
  | nil => cases rest <;> rfl
  | cons b tail ih => simp only [List.cons_append, List.length_cons, continues, ih]

/-- a sequence is complete where its second byte may follow the first, and the others are continuation bytes -/
theorem continues_full_iff (ok : ℕ → Bool) (b : UInt8) (tail : Bytes) :
    continues ok (b :: tail).length (b :: tail) = (b :: tail).length ↔
      ok b.toNat = true ∧ ∀ t ∈ tail, 0x80 ≤ t.toNat ∧ t.toNat ≤ 0xBF := by
  induction tail generalizing ok b with
  | nil => simp [continues]
  | cons b' tail ih =>
    have hih := ih (fun t => 0x80 ≤ t ∧ t ≤ 0xBF) b'
    rw [decide_eq_true_eq] at hih
    rw [List.length_cons, continues]
    split_ifs with hok
    · rw [Nat.add_right_cancel_iff, hih, List.forall_mem_cons, and_iff_right hok]
    · simp [hok]

theorem continues_le (ok : ℕ → Bool) (n : ℕ) (bs : Bytes) : continues ok n bs ≤ bs.length := by
  induction bs generalizing ok n with
  | nil => cases n <;> exact le_rfl
  | cons b bs ih =>
    cases n with
    | zero => exact Nat.zero_le _
    | succ n =>
      rw [continues]
      split_ifs
      · exact Nat.succ_le_succ (ih _ n)
      · exact Nat.zero_le _

theorem lossyChars_complete {b : UInt8} {tail : Bytes} (h : Complete b tail) (rest : Bytes) (fuel : ℕ) :
    lossyChars (fuel + 1) (b :: tail ++ rest) = Char.ofNat (codePoint b.toNat tail) :: lossyChars fuel rest := by
  have hlen : seqLen b.toNat - 1 = tail.length := by rw [h.1, Nat.add_sub_cancel]
  have hne : seqLen b.toNat ≠ 0 := by rw [h.1]; omega
  rw [List.cons_append, lossyChars]
  simp only [hlen, continues_append, h.2, hne, ne_eq, not_false_eq_true, and_self, if_true, List.take_left, List.drop_left]

theorem toNat_lt (c : Char) : c.toNat < 0x110000 ∧ (c.toNat < 0xD800 ∨ 0xDFFF < c.toNat) := by
  rcases c.valid with h | h
  · have : c.toNat < 0xD800 := h
    omega
  · exact ⟨h.2, Or.inr h.1⟩

/-- the encoding of a character by its code point -/
def encodePoint (v : ℕ) : Bytes :=
  if v ≤ 0x7f then [UInt8.ofNat v]
  else if v ≤ 0x7ff then [UInt8.ofNat (v / 64 % 0x20 + 0xc0), UInt8.ofNat (v % 0x40 + 0x80)]
  else if v ≤ 0xffff then
    [UInt8.ofNat (v / 4096 % 0x10 + 0xe0), UInt8.ofNat (v / 64 % 0x40 + 0x80), UInt8.ofNat (v % 0x40 + 0x80)]
  else
    [UInt8.ofNat (v / 262144 % 0x08 + 0xf0), UInt8.ofNat (v / 4096 % 0x40 + 0x80), UInt8.ofNat (v / 64 % 0x40 + 0x80),
      UInt8.ofNat (v % 0x40 + 0x80)]

theorem utf8EncodeChar_eq (c : Char) : String.utf8EncodeChar c = encodePoint c.toNat := rfl

/-- a character is written as a complete sequence -/
theorem complete_encode (c : Char) : ∃ b tail, String.utf8EncodeChar c = b :: tail ∧ Complete b tail ∧
    codePoint b.toNat tail = c.toNat := by
  obtain ⟨hlt, hsur⟩ := toNat_lt c
  rw [utf8EncodeChar_eq, encodePoint]
  generalize c.toNat = v at *
  split_ifs with h1 h2 h3
  · refine ⟨_, _, rfl, ⟨?_, rfl⟩, ?_⟩
    · simp only [seqLen, UInt8.toNat_ofNat', List.length_nil]
      split_ifs <;> omega
    · simp [codePoint]
      omega
  · refine ⟨_, _, rfl, ⟨?_, (continues_full_iff ..).2 ⟨?_, ?_⟩⟩, ?_⟩
    · simp only [seqLen, UInt8.toNat_ofNat', List.length_cons, List.length_nil]
      split_ifs <;> omega
    · simp only [secondOk, UInt8.toNat_ofNat']
      split_ifs <;> simp <;> omega
    · simp
    · simp [codePoint]
      omega
  · refine ⟨_, _, rfl, ⟨?_, (continues_full_iff ..).2 ⟨?_, ?_⟩⟩, ?_⟩
    · simp only [seqLen, UInt8.toNat_ofNat', List.length_cons, List.length_nil]
      split_ifs <;> omega
    · simp only [secondOk, UInt8.toNat_ofNat']
      split_ifs <;> simp <;> omega
    · simp
      omega
    · simp [codePoint]
      omega
  · refine ⟨_, _, rfl, ⟨?_, (continues_full_iff ..).2 ⟨?_, ?_⟩⟩, ?_⟩
    · simp only [seqLen, UInt8.toNat_ofNat', List.length_cons, List.length_nil]
      split_ifs <;> omega
    · simp only [secondOk, UInt8.toNat_ofNat']
      split_ifs <;> simp <;> omega
    · simp
      omega
    · simp [codePoint]
      omega

/-- a character is written with one byte if it is ASCII, and with none that is ASCII otherwise -/
theorem utf8EncodeChar_ascii {c : Char} (h : c.toNat < 128) : String.utf8EncodeChar c = [UInt8.ofNat c.toNat] := by
  rw [utf8EncodeChar_eq, encodePoint, if_pos (by omega)]

theorem utf8EncodeChar_not_ascii {c : Char} (h : ¬ c.toNat < 128) : ∃ b ∈ String.utf8EncodeChar c, ¬ b.toNat < 128 := by
  rw [utf8EncodeChar_eq, encodePoint, if_neg (by omega)]
  split_ifs
  all_goals
    refine ⟨_, List.mem_cons_self, ?_⟩
    rw [UInt8.toNat_ofNat']
    omega

/-- what holds of ASCII bytes only holds of all bytes of a text if and only if its characters are ASCII and it holds of theirs -/
theorem forall_mem_utf8_iff {p : UInt8 → Prop} (hp : ∀ b, p b → b.toNat < 128) (s : String) :
    (∀ b ∈ utf8 s, p b) ↔ ∀ c ∈ s.toList, c.toNat < 128 ∧ p (UInt8.ofNat c.toNat) := by
  simp only [utf8_eq_flatMap, List.mem_flatMap, forall_exists_index, and_imp]
  constructor
  · intro h c hc
    by_cases hascii : c.toNat < 128
    · exact ⟨hascii, h _ c hc (by rw [utf8EncodeChar_ascii hascii]; exact List.mem_cons_self)⟩
    · obtain ⟨b, hb, hge⟩ := utf8EncodeChar_not_ascii hascii
      exact absurd (hp b (h b c hc hb)) hge
  · intro h b c hc hb
    rw [utf8EncodeChar_ascii (h c hc).1, List.mem_singleton] at hb
    rw [hb]
    exact (h c hc).2

theorem utf8_of_ascii {s : String} (h : ∀ c ∈ s.toList, c.toNat < 128) : utf8 s = s.toList.map fun c => UInt8.ofNat c.toNat := by
  rw [utf8_eq_flatMap]
  generalize s.toList = cs at h ⊢
  induction cs with
  | nil => rfl
  | cons c cs ih =>
    rw [List.flatMap_cons, List.map_cons, utf8EncodeChar_ascii (h c List.mem_cons_self),
      ih fun d hd => h d (List.mem_cons_of_mem _ hd)]
    rfl

theorem toNat_ofNat_of_lt {v : ℕ} (h : v < 0xD800 ∨ 0xDFFF < v ∧ v < 0x110000) : (Char.ofNat v).toNat = v := by
  have hv : v.isValidChar := h
  rw [Char.ofNat, dif_pos hv]
  rfl

theorem ofNat_eq_of_mod {n : ℕ} {b : UInt8} (h : n % 256 = b.toNat) : UInt8.ofNat n = b :=
  UInt8.toNat_inj.1 (by simpa using h)

/-- what a second byte that may follow is, by the first -/
theorem secondOk_range {lead b : ℕ} (h : secondOk lead b = true) :
    0x80 ≤ b ∧ b ≤ 0xBF ∧ (lead = 0xE0 → 0xA0 ≤ b) ∧ (lead = 0xED → b ≤ 0x9F) ∧ (lead = 0xF0 → 0x90 ≤ b) ∧
      (lead = 0xF4 → b ≤ 0x8F) := by
  simp only [secondOk] at h
  split_ifs at h <;> simp at h <;> omega

theorem seqLen_range {b n : ℕ} (h : seqLen b = n + 1) :
    n = 0 ∧ b < 0x80 ∨ n = 1 ∧ 0xC2 ≤ b ∧ b ≤ 0xDF ∨ n = 2 ∧ 0xE0 ≤ b ∧ b ≤ 0xEF ∨ n = 3 ∧ 0xF0 ≤ b ∧ b ≤ 0xF4 := by
  simp only [seqLen] at h
  split_ifs at h <;> omega

/-- a complete sequence is the encoding of its code point -/
theorem encode_complete {b : UInt8} {tail : Bytes} (h : Complete b tail) :
    String.utf8EncodeChar (Char.ofNat (codePoint b.toNat tail)) = b :: tail := by
  obtain ⟨hlen, hcont⟩ := h
  have hlead := seqLen_range hlen
  rw [utf8EncodeChar_eq]
  match tail with
  | [] =>
    have hlt : b.toNat < 0x80 := by simpa using hlead
    have hv : codePoint b.toNat [] = b.toNat := rfl
    rw [hv, toNat_ofNat_of_lt (by omega), encodePoint, if_pos (by omega)]
    simp
  | [b1] =>
    have hl : 0xC2 ≤ b.toNat ∧ b.toNat ≤ 0xDF := by simpa using hlead
    have h1 := secondOk_range ((continues_full_iff ..).1 hcont).1
    have hv : codePoint b.toNat [b1] = b.toNat % 32 * 64 + b1.toNat % 64 := rfl
    rw [hv, toNat_ofNat_of_lt (by omega), encodePoint, if_neg (by omega), if_pos (by omega)]
    congr 2 <;> exact ofNat_eq_of_mod (by omega)
  | [b1, b2] =>
    have hl : 0xE0 ≤ b.toNat ∧ b.toNat ≤ 0xEF := by simpa using hlead
    obtain ⟨hok, htail⟩ := (continues_full_iff ..).1 hcont
    have h1 := secondOk_range hok
    have h2 := htail b2 (by simp)
    have hv : codePoint b.toNat [b1, b2] = (b.toNat % 16 * 64 + b1.toNat % 64) * 64 + b2.toNat % 64 := rfl
    rw [hv, toNat_ofNat_of_lt (by omega), encodePoint, if_neg (by omega), if_neg (by omega), if_pos (by omega)]
    congr 3 <;> exact ofNat_eq_of_mod (by omega)
  | [b1, b2, b3] =>
    have hl : 0xF0 ≤ b.toNat ∧ b.toNat ≤ 0xF4 := by simpa using hlead
    obtain ⟨hok, htail⟩ := (continues_full_iff ..).1 hcont
    have h1 := secondOk_range hok
    have h2 := htail b2 (by simp)
    have h3 := htail b3 (by simp)
    have hv : codePoint b.toNat [b1, b2, b3] =
      ((b.toNat % 8 * 64 + b1.toNat % 64) * 64 + b2.toNat % 64) * 64 + b3.toNat % 64 := rfl
    rw [hv, toNat_ofNat_of_lt (by omega), encodePoint, if_neg (by omega), if_neg (by omega), if_neg (by omega)]
    congr 4 <;> exact ofNat_eq_of_mod (by omega)
  | _ :: _ :: _ :: _ :: _ =>
    simp only [List.length_cons] at hlead
    omega

/-! ## The decoder -/

/-- U+FFFD -/
def replacement : Char := Char.ofNat 0xFFFD

/-- fuel beyond the length changes nothing -/
theorem lossyChars_fuel {fuel fuel' : ℕ} {b : Bytes} (h : b.length ≤ fuel) (h' : b.length ≤ fuel') :
    lossyChars fuel b = lossyChars fuel' b := by
  induction fuel generalizing fuel' b with
  | zero =>
    obtain rfl := List.length_eq_zero_iff.1 (Nat.le_zero.1 h)
    cases fuel' <;> rfl
  | succ fuel ih =>
    cases b with
    | nil => cases fuel' <;> rfl
    | cons b bs =>
      rw [List.length_cons] at h h'
      obtain ⟨fuel', rfl⟩ : ∃ n, fuel' = n + 1 := ⟨fuel' - 1, by omega⟩
      rw [lossyChars, lossyChars]
      refine congrArg _ (ih ?_ ?_) <;> rw [List.length_drop] <;> omega

/-- a text is decoded, and decoding goes on behind it -/
theorem lossyChars_utf8 (s : String) (rest : Bytes) :
    lossyChars (utf8 s ++ rest).length (utf8 s ++ rest) = s.toList ++ lossyChars rest.length rest := by
  rw [utf8_eq_flatMap]
  induction s.toList with
  | nil => rfl
  | cons c cs ih =>
    obtain ⟨b, tail, henc, hcomplete, hpoint⟩ := complete_encode c
    rw [List.flatMap_cons, List.append_assoc, henc]
    generalize cs.flatMap String.utf8EncodeChar ++ rest = more at ih ⊢
    have hlen : (b :: tail ++ more).length = (tail ++ more).length + 1 := rfl
    have hfuel : lossyChars (tail ++ more).length more = lossyChars more.length more :=
      lossyChars_fuel (by rw [List.length_append]; omega) le_rfl
    rw [hlen, lossyChars_complete hcomplete, hpoint, Char.ofNat_toNat, hfuel, ih]
    rfl

/-- the decoder puts U+FFFD only for what is no sequence: without it, the bytes are the encoding of what is decoded -/
theorem utf8_of_lossyChars {fuel : ℕ} {b : Bytes} (hfuel : b.length ≤ fuel) (h : replacement ∉ lossyChars fuel b) :
    (lossyChars fuel b).flatMap String.utf8EncodeChar = b := by
  induction fuel generalizing b with
  | zero =>
    obtain rfl := List.length_eq_zero_iff.1 (Nat.le_zero.1 hfuel)
    rfl
  | succ fuel ih =>
    cases b with
    | nil => rfl
    | cons b bs =>
      rw [lossyChars] at h ⊢
      set k := continues (secondOk b.toNat) (seqLen b.toNat - 1) bs with hk
      rw [List.mem_cons, not_or] at h
      obtain ⟨hhead, htail⟩ := h
      have hseq : seqLen b.toNat ≠ 0 ∧ k = seqLen b.toNat - 1 := by
        by_contra hno
        rw [if_neg hno] at hhead
        exact hhead rfl
      have hkle : k ≤ bs.length := hk ▸ continues_le ..
      have hcomplete : Complete b (bs.take k) := by
        refine ⟨by rw [List.length_take]; omega, ?_⟩
        have happ := continues_append (secondOk b.toNat) (bs.take k) (bs.drop k)
        rw [List.take_append_drop, List.length_take, Nat.min_eq_left hkle] at happ
        rw [List.length_take, Nat.min_eq_left hkle, ← happ, hseq.2, ← hk]
        exact hseq.2
      rw [if_pos hseq, List.flatMap_cons, encode_complete hcomplete, ih (by
        rw [List.length_cons] at hfuel
        rw [List.length_drop]
        omega) htail, List.cons_append, List.take_append_drop]

/-- **Invalid bytes show**: what is decoded from a byte string that is no text has a U+FFFD. -/
theorem fromUtf8Lossy_invalid {b : Bytes} (h : fromUtf8 b = none) : replacement ∈ (fromUtf8Lossy b).toList := by
  rw [fromUtf8Lossy, h, String.toList_ofList]
  by_contra hno
  have hb : utf8 (String.ofList (lossyChars b.length b)) = b := by
    rw [utf8_eq_flatMap, String.toList_ofList]
    exact utf8_of_lossyChars le_rfl hno
  rw [← hb, fromUtf8_utf8] at h
  cases h

/-- no text has the byte 0xFF -/
theorem fromUtf8_invalid_byte (b b' : Bytes) : fromUtf8 (b ++ 0xFF :: b') = none := by
  cases h : fromUtf8 (b ++ 0xFF :: b') with
  | none => rfl
  | some s =>
    have hmem : (0xFF : UInt8) ∈ utf8 s := by
      rw [utf8_of_fromUtf8 h]
      simp
    exact absurd (utf8_lt hmem) (by decide)

/-- **A U+FFFD hides a byte**: it is also decoded from the byte 0xFF, which stands in no text. -/
theorem fromUtf8Lossy_replaces (s t : String) :
    fromUtf8Lossy (utf8 s ++ 0xFF :: utf8 t) = String.ofList (s.toList ++ replacement :: t.toList) := by
  have hbyte : lossyChars (0xFF :: utf8 t).length (0xFF :: utf8 t) = replacement :: t.toList := by
    have ht := lossyChars_utf8 t []
    rw [List.append_nil] at ht
    rw [List.length_cons, lossyChars]
    simp only [List.length_nil, lossyChars, List.append_nil] at ht
    exact congrArg _ ht
  rw [fromUtf8Lossy, fromUtf8_invalid_byte]
  dsimp only
  rw [lossyChars_utf8, hbyte]

end AbirGuard.Core
