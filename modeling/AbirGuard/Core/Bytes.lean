/-
Bytes and text as a program sees them: UTF-8, little-endian words, decimal numbers, and codecs.

- `utf8` and `fromUtf8` are the two directions of the encoding (`fromUtf8_utf8`); `fromUtf8Lossy` is the decoder that
  replaces every maximal invalid piece by U+FFFD and is the identity on valid input (`fromUtf8Lossy_utf8`).
- `parseU8` reads a decimal byte with the standard library's errors and inverts the decimal format (`parseU8_digits`).
- `splitn2` cuts a string at the first occurrence of a separator.
- `Codec` is a serialiser together with its parser; `Codec.Lawful` is the round trip. `framed` is one such codec, of
  lists of byte strings: it shows that the round trip can be had for every value.
-/
import Mathlib.Tactic

namespace AbirGuard.Core

abbrev Bytes := List UInt8

/-! ## UTF-8 -/

def utf8 (s : String) : Bytes := s.toByteArray.data.toList

def fromUtf8 (b : Bytes) : Option String := String.fromUTF8? ⟨b.toArray⟩

@[simp] theorem fromUtf8_utf8 (s : String) : fromUtf8 (utf8 s) = some s := by
  simp [fromUtf8, utf8, String.fromUTF8?, s.isValidUTF8, String.fromUTF8]

theorem utf8_of_fromUtf8 {b : Bytes} {s : String} (h : fromUtf8 b = some s) : utf8 s = b := by
  unfold fromUtf8 String.fromUTF8? at h
  split_ifs at h with hv
  cases h
  simp [utf8, String.fromUTF8]

theorem utf8_injective : Function.Injective utf8 := fun s t h => by
  simpa using congrArg fromUtf8 h

@[simp] theorem utf8_inj {s t : String} : utf8 s = utf8 t ↔ s = t := utf8_injective.eq_iff

/-- the bytes of a text, character by character -/
theorem utf8_eq_flatMap (s : String) : utf8 s = s.toList.flatMap String.utf8EncodeChar := by
  rw [utf8, ← String.utf8Encode_toList, List.utf8Encode]
  simp

/-- no byte of a text is above 0xF7 -/
theorem utf8_lt {s : String} {b : UInt8} (h : b ∈ utf8 s) : b.toNat < 0xF8 := by
  rw [utf8_eq_flatMap] at h
  obtain ⟨c, _, hb⟩ := List.mem_flatMap.1 h
  -- one case for each length of the sequence
  have hall : ∀ b ∈ String.utf8EncodeChar c, b.toNat < 0xF8 := by
    simp only [String.utf8EncodeChar]
    split_ifs <;>
      simp only [List.forall_mem_cons, List.not_mem_nil, IsEmpty.forall_iff, implies_true, and_true, UInt8.toNat_ofNat'] <;>
      omega
  exact hall b hb

theorem utf8_append (s t : String) : utf8 (s ++ t) = utf8 s ++ utf8 t := by simp [utf8]

/-- the length of the sequence that a lead byte announces, 0 if no sequence starts with it -/
def seqLen (b : ℕ) : ℕ :=
  if b < 0x80 then 1 else if 0xC2 ≤ b ∧ b ≤ 0xDF then 2 else if 0xE0 ≤ b ∧ b ≤ 0xEF then 3
  else if 0xF0 ≤ b ∧ b ≤ 0xF4 then 4 else 0

/-- whether b may follow the lead byte: overlong forms, surrogates and values past U+10FFFF are excluded -/
def secondOk (lead b : ℕ) : Bool :=
  if lead = 0xE0 then 0xA0 ≤ b ∧ b ≤ 0xBF else if lead = 0xED then 0x80 ≤ b ∧ b ≤ 0x9F
  else if lead = 0xF0 then 0x90 ≤ b ∧ b ≤ 0xBF else if lead = 0xF4 then 0x80 ≤ b ∧ b ≤ 0x8F
  else 0x80 ≤ b ∧ b ≤ 0xBF

/-- how many of the next n bytes continue a sequence -/
def continues (ok : ℕ → Bool) : ℕ → Bytes → ℕ
  | 0, _ => 0
  | _, [] => 0
  | n + 1, b :: bs => if ok b.toNat then continues (fun b => 0x80 ≤ b ∧ b ≤ 0xBF) n bs + 1 else 0

/-- the code point of a complete sequence -/
def codePoint (lead : ℕ) (rest : Bytes) : ℕ :=
  let top := if rest.length = 0 then lead else lead % 2 ^ (6 - rest.length)
  rest.foldl (fun acc b => acc * 64 + b.toNat % 64) top

/-- decode from a byte string with at most `fuel` bytes -/
def lossyChars : ℕ → Bytes → List Char
  | 0, _ => []
  | _, [] => []
  | fuel + 1, b :: bs =>
    let n := seqLen b.toNat
    let k := continues (secondOk b.toNat) (n - 1) bs
    let c := if n ≠ 0 ∧ k = n - 1 then Char.ofNat (codePoint b.toNat (bs.take k)) else Char.ofNat 0xFFFD
    c :: lossyChars fuel (bs.drop k)

/-- `String::from_utf8_lossy` -/
def fromUtf8Lossy (b : Bytes) : String :=
  match fromUtf8 b with
  | some s => s
  | none => String.ofList (lossyChars b.length b)

/-- the text of the error that `String::from_utf8` returns for an invalid byte string, of which i bytes were read -/
def utf8ErrorAt : ℕ → ℕ → Bytes → String
  | 0, i, _ => s!"incomplete utf-8 byte sequence from index {i}"
  | _, i, [] => s!"incomplete utf-8 byte sequence from index {i}"
  | fuel + 1, i, b :: bs =>
    let n := seqLen b.toNat
    let k := continues (secondOk b.toNat) (n - 1) bs
    if n ≠ 0 ∧ k = n - 1 then utf8ErrorAt fuel (i + n) (bs.drop k)
    else if n ≠ 0 ∧ k = bs.length then s!"incomplete utf-8 byte sequence from index {i}"
    else s!"invalid utf-8 sequence of {k + 1} bytes from index {i}"

def utf8Error (b : Bytes) : String := utf8ErrorAt b.length 0 b

@[simp] theorem fromUtf8Lossy_utf8 (s : String) : fromUtf8Lossy (utf8 s) = s := by simp [fromUtf8Lossy]

/-! ## Numbers -/

/-- the w low bytes of n, least significant first -/
def leBytes (w n : ℕ) : Bytes := (List.range w).map fun i => UInt8.ofNat (n / 256 ^ i)

@[simp] theorem length_leBytes (w n : ℕ) : (leBytes w n).length = w := by simp [leBytes]

theorem leBytes_succ (w n : ℕ) : leBytes (w + 1) n = UInt8.ofNat n :: leBytes w (n / 256) := by
  rw [leBytes, List.range_succ_eq_map, List.map_cons, List.map_map, pow_zero, Nat.div_one, leBytes]
  refine congrArg _ (List.map_congr_left fun i _ => ?_)
  rw [Function.comp_apply, pow_succ', Nat.div_div_eq_div_mul]

/-- numbers below the bound are determined by their bytes -/
theorem leBytes_inj {w n m : ℕ} (hn : n < 256 ^ w) (hm : m < 256 ^ w) (h : leBytes w n = leBytes w m) : n = m := by
  induction w generalizing n m with
  | zero => omega
  | succ w ih =>
    rw [leBytes_succ, leBytes_succ, List.cons.injEq] at h
    have hlow : n % 256 = m % 256 := by simpa using congrArg UInt8.toNat h.1
    have hhigh : n / 256 = m / 256 := ih (by omega) (by omega) h.2
    omega

/-- the w low bytes of n, most significant first -/
def beBytes (w n : ℕ) : Bytes := (leBytes w n).reverse

/-- the number that the bytes write, most significant first -/
def ofBeBytes (b : Bytes) : ℕ := b.foldl (fun n x => n * 256 + x.toNat) 0

theorem ofBeBytes_concat (b : Bytes) (x : UInt8) : ofBeBytes (b ++ [x]) = ofBeBytes b * 256 + x.toNat := by
  simp [ofBeBytes]

theorem ofBeBytes_lt (b : Bytes) : ofBeBytes b < 256 ^ b.length := by
  induction b using List.reverseRecOn with
  | nil => simp [ofBeBytes]
  | append_singleton b x ih =>
    have := x.toNat_lt
    rw [ofBeBytes_concat, List.length_append, List.length_singleton, pow_succ]
    omega

theorem beBytes_inj {w n m : ℕ} (hn : n < 256 ^ w) (hm : m < 256 ^ w) (h : beBytes w n = beBytes w m) : n = m :=
  leBytes_inj hn hm (List.reverse_injective h)

/-- a byte string is written back from its number at its own length, leading zeros included -/
theorem beBytes_ofBeBytes (b : Bytes) : beBytes b.length (ofBeBytes b) = b := by
  induction b using List.reverseRecOn with
  | nil => rfl
  | append_singleton b x ih =>
    have hlow : UInt8.ofNat (ofBeBytes b * 256 + x.toNat) = x := by
      apply UInt8.toNat_inj.1
      have := x.toNat_lt
      rw [UInt8.toNat_ofNat']
      omega
    have hhigh : (ofBeBytes b * 256 + x.toNat) / 256 = ofBeBytes b := by
      have := x.toNat_lt
      omega
    rw [ofBeBytes_concat, List.length_append, List.length_singleton, beBytes, leBytes_succ, hlow, hhigh, List.reverse_cons]
    rw [beBytes] at ih
    rw [ih]

/-- the loop of `u8::from_str` over the digits -/
def parseU8Loop (acc : ℕ) : List Char → Except String ℕ
  | [] => .ok acc
  | c :: cs =>
    if ¬ c.isDigit then .error "invalid digit found in string"
    else if 255 < acc * 10 then .error "number too large to fit in target type"
    else if 255 < acc * 10 + (c.toNat - 48) then .error "number too large to fit in target type"
    else parseU8Loop (acc * 10 + (c.toNat - 48)) cs

/-- `str::parse::<u8>`: a leading plus sign is allowed -/
def parseU8 (s : String) : Except String UInt8 :=
  match s.toList with
  | [] => .error "cannot parse integer from empty string"
  | ['+'] => .error "invalid digit found in string"
  | ['-'] => .error "invalid digit found in string"
  | '+' :: cs => (parseU8Loop 0 cs).map UInt8.ofNat
  | cs => (parseU8Loop 0 cs).map UInt8.ofNat

theorem parseU8_digits (b : UInt8) : parseU8 (toString b.toNat) = .ok b := by
  have h : ∀ n : Fin 256, parseU8 (toString n.val) = .ok (UInt8.ofNat n.val) := by decide +kernel
  simpa using h ⟨b.toNat, b.toNat_lt⟩

/-- `splitn(2, c)`: the pieces before and after the first c, or the whole string -/
def splitn2 (s : String) (c : Char) : List String :=
  match s.toList.dropWhile (· ≠ c) with
  | [] => [s]
  | _ :: after => [String.ofList (s.toList.takeWhile (· ≠ c)), String.ofList after]

theorem splitn2_append {a b : String} {c : Char} (h : c ∉ a.toList) :
    splitn2 (a ++ String.singleton c ++ b) c = [a, b] := by
  have ha : ∀ x ∈ a.toList, decide (x ≠ c) = true := fun x hx => decide_eq_true fun e => h (e ▸ hx)
  have hl : (a ++ String.singleton c ++ b).toList = a.toList ++ c :: b.toList := by simp
  rw [splitn2, hl, List.dropWhile_append_of_pos ha, List.takeWhile_append_of_pos ha]
  simp

/-! ## Codecs -/

/-- a serialiser and its parser -/
structure Codec (α β : Type) where
  encode : α → β
  decode : β → Except String α

/-- decoding inverts encoding -/
def Codec.Lawful {α β : Type} (c : Codec α β) : Prop := ∀ a, c.decode (c.encode a) = .ok a

/-- one byte string, ended by a zero mark -/
def frame (b : Bytes) : Bytes := b.flatMap (fun x => [1, x]) ++ [0]

def unframe : Bytes → Option (Bytes × Bytes)
  | 1 :: x :: bs => (unframe bs).map fun p => (x :: p.1, p.2)
  | 0 :: bs => some ([], bs)
  | _ => none

theorem unframe_frame (b rest : Bytes) : unframe (frame b ++ rest) = some (b, rest) := by
  induction b with
  | nil => simp [frame, unframe]
  | cons x b ih => simpa [frame, unframe] using ih

/-- the frames up to the end of the input, at most `fuel` of them -/
def unframeAll : ℕ → Bytes → Option (List Bytes)
  | _, [] => some []
  | 0, _ => none
  | fuel + 1, bs => (unframe bs).bind fun p => (unframeAll fuel p.2).map (p.1 :: ·)

theorem unframeAll_frames (l : List Bytes) (fuel : ℕ) (h : l.length ≤ fuel) :
    unframeAll fuel (l.flatMap frame) = some l := by
  induction l generalizing fuel with
  | nil => cases fuel <;> rfl
  | cons b l ih =>
    obtain ⟨fuel, rfl⟩ := Nat.exists_eq_add_one_of_ne_zero (by simp at h; omega : fuel ≠ 0)
    have hne : ∃ x xs, frame b ++ l.flatMap frame = x :: xs := by
      cases hb : frame b ++ l.flatMap frame with
      | nil => simp [frame] at hb
      | cons x xs => exact ⟨x, xs, rfl⟩
    obtain ⟨x, xs, hx⟩ := hne
    rw [List.flatMap_cons, hx, unframeAll, ← hx, unframe_frame, Option.bind_some,
      ih fuel (by simp at h; omega), Option.map_some]
    exact fun hn => by cases hn

/-- lists of byte strings as one byte string -/
def framed : Codec (List Bytes) Bytes where
  encode l := l.flatMap frame
  decode b := match unframeAll b.length b with
    | some l => .ok l
    | none => .error "invalid frame"

theorem length_le_frames (l : List Bytes) : l.length ≤ (l.flatMap frame).length := by
  induction l with
  | nil => simp
  | cons b l ih => simp [frame] at ih ⊢; omega

theorem framed_lawful : framed.Lawful := fun l => by
  simp only [framed, unframeAll_frames l _ (length_le_frames l)]

end AbirGuard.Core
