/-
Base64 with the standard alphabet and canonical padding, as a codec of byte strings.

Three bytes become four symbols of six bits; a last group of one or two bytes is padded with `=`. The decoder rejects a
symbol outside the alphabet, a length that is not a multiple of four, padding anywhere but at the end, and nonzero bits
under the padding. `base64_lawful` is the round trip.

`a2bBase64` is the lenient decoder: it skips what is not in the alphabet, stops at complete padding and ignores what comes
after it. On encoded bytes the two agree (`a2bBase64_encode`).
-/
import AbirGuard.Core.Outcome
import AbirGuard.Core.Bytes

namespace AbirGuard.Core

def base64Alphabet : List Char :=
  "ABCDEFGHIJKLMNOPQRSTUVWXYZabcdefghijklmnopqrstuvwxyz0123456789+/".toList

/-- the symbol of a six-bit value -/
def sextet (n : ℕ) : Char := base64Alphabet.getD n '='

/-- the six-bit value of a symbol -/
def sextet? (c : Char) : Option ℕ := base64Alphabet.idxOf? c

theorem sextet?_sextet {n : ℕ} (h : n < 64) : sextet? (sextet n) = some n := by
  have hall : ∀ n : Fin 64, sextet? (sextet n) = some n.val := by decide +kernel
  exact hall ⟨n, h⟩

theorem sextet_ne_pad {n : ℕ} (h : n < 64) : sextet n ≠ '=' := by
  have hall : ∀ n : Fin 64, sextet n ≠ '=' := by decide +kernel
  exact hall ⟨n, h⟩

def base64Encode : Bytes → List Char
  | [] => []
  | [a] => [sextet (a.toNat / 4), sextet (a.toNat % 4 * 16), '=', '=']
  | [a, b] => [sextet (a.toNat / 4), sextet (a.toNat % 4 * 16 + b.toNat / 16), sextet (b.toNat % 16 * 4), '=']
  | a :: b :: c :: rest =>
    sextet (a.toNat / 4) :: sextet (a.toNat % 4 * 16 + b.toNat / 16) :: sextet (b.toNat % 16 * 4 + c.toNat / 64) ::
      sextet (c.toNat % 64) :: base64Encode rest

def base64Decode : List Char → Option Bytes
  | [] => some []
  | c0 :: c1 :: c2 :: c3 :: rest => do
    let w ← sextet? c0
    let x ← sextet? c1
    if c3 = '=' then
      if ¬ rest.isEmpty then none
      else if c2 = '=' then
        if x % 16 = 0 then some [UInt8.ofNat (w * 4 + x / 16)] else none
      else do
        let y ← sextet? c2
        if y % 4 = 0 then some [UInt8.ofNat (w * 4 + x / 16), UInt8.ofNat (x % 16 * 16 + y / 4)] else none
    else do
      let y ← sextet? c2
      let z ← sextet? c3
      let bs ← base64Decode rest
      some (UInt8.ofNat (w * 4 + x / 16) :: UInt8.ofNat (x % 16 * 16 + y / 4) :: UInt8.ofNat (y % 4 * 64 + z) :: bs)
  | _ => none

theorem ofNat_eq_of_toNat {a : UInt8} {n : ℕ} (h : n = a.toNat) : UInt8.ofNat n = a := by
  rw [h, UInt8.ofNat_toNat]

theorem base64Decode_encode (b : Bytes) : base64Decode (base64Encode b) = some b := by
  induction b using base64Encode.induct with
  | case1 => rfl
  | case2 a =>
    have ha := a.toNat_lt
    rw [base64Encode, base64Decode]
    simp only [sextet?_sextet (show a.toNat / 4 < 64 by omega), sextet?_sextet (show a.toNat % 4 * 16 < 64 by omega),
      Option.bind_eq_bind, Option.bind_some, List.isEmpty_nil, not_true, if_true, if_false]
    rw [if_pos (by omega), ofNat_eq_of_toNat (a := a) (by omega)]
  | case3 a b =>
    have ha := a.toNat_lt
    have hb := b.toNat_lt
    rw [base64Encode, base64Decode]
    simp only [sextet?_sextet (show a.toNat / 4 < 64 by omega),
      sextet?_sextet (show a.toNat % 4 * 16 + b.toNat / 16 < 64 by omega),
      sextet?_sextet (show b.toNat % 16 * 4 < 64 by omega), sextet_ne_pad (show b.toNat % 16 * 4 < 64 by omega),
      Option.bind_eq_bind, Option.bind_some, List.isEmpty_nil, not_true, if_true, if_false]
    rw [if_pos (by omega), ofNat_eq_of_toNat (a := a) (by omega), ofNat_eq_of_toNat (a := b) (by omega)]
  | case4 a b c rest ih =>
    have ha := a.toNat_lt
    have hb := b.toNat_lt
    have hc := c.toNat_lt
    rw [base64Encode, base64Decode]
    simp only [sextet?_sextet (show a.toNat / 4 < 64 by omega),
      sextet?_sextet (show a.toNat % 4 * 16 + b.toNat / 16 < 64 by omega),
      sextet?_sextet (show b.toNat % 16 * 4 + c.toNat / 64 < 64 by omega),
      sextet?_sextet (show c.toNat % 64 < 64 by omega), sextet_ne_pad (show c.toNat % 64 < 64 by omega),
      Option.bind_eq_bind, Option.bind_some, if_false, ih]
    rw [ofNat_eq_of_toNat (a := a) (by omega), ofNat_eq_of_toNat (a := b) (by omega),
      ofNat_eq_of_toNat (a := c) (by omega)]

def base64 : Codec Bytes String where
  encode b := String.ofList (base64Encode b)
  decode s := match base64Decode s.toList with
    | some b => .ok b
    | none => .error "Invalid symbol or padding."

theorem base64_lawful : base64.Lawful := fun b => by
  simp only [base64, String.toList_ofList, base64Decode_encode]

/-! ## The lenient decoder -/

/-- the loop of `binascii.a2b_base64`: n symbols were read, `left` holds the bits of the last one that are not yet output,
`pads` counts the padding since then -/
def a2bLoop (n left pads : ℕ) : List Char → Except String Bytes
  | [] =>
    if n % 4 = 0 then .ok []
    else if n % 4 = 1 then
      .error s!"Invalid base64-encoded string: number of data characters ({n}) cannot be 1 more than a multiple of 4"
    else .error "Incorrect padding"
  | c :: cs =>
    if c = '=' then
      if n % 4 < 2 then a2bLoop n left pads cs
      else if 4 ≤ n % 4 + (pads + 1) then .ok []
      else a2bLoop n left (pads + 1) cs
    else match sextet? c with
      | none => a2bLoop n left pads cs
      | some v =>
        if n % 4 = 0 then a2bLoop (n + 1) v 0 cs
        else if n % 4 = 1 then do .ok (UInt8.ofNat (left * 4 + v / 16) :: (← a2bLoop (n + 1) (v % 16) 0 cs))
        else if n % 4 = 2 then do .ok (UInt8.ofNat (left * 16 + v / 4) :: (← a2bLoop (n + 1) (v % 4) 0 cs))
        else do .ok (UInt8.ofNat (left * 64 + v) :: (← a2bLoop (n + 1) 0 0 cs))

def a2bBase64 (cs : List Char) : Except String Bytes := a2bLoop 0 0 0 cs

theorem a2bLoop_sextet {v : ℕ} (hv : v < 64) (n left pads : ℕ) (cs : List Char) :
    a2bLoop n left pads (sextet v :: cs) =
      if n % 4 = 0 then a2bLoop (n + 1) v 0 cs
      else if n % 4 = 1 then (UInt8.ofNat (left * 4 + v / 16) :: ·) <$> a2bLoop (n + 1) (v % 16) 0 cs
      else if n % 4 = 2 then (UInt8.ofNat (left * 16 + v / 4) :: ·) <$> a2bLoop (n + 1) (v % 4) 0 cs
      else (UInt8.ofNat (left * 64 + v) :: ·) <$> a2bLoop (n + 1) 0 0 cs := by
  rw [a2bLoop, if_neg (sextet_ne_pad hv), sextet?_sextet hv]
  rfl

theorem a2bLoop_first {n : ℕ} (hn : n % 4 = 0) {v : ℕ} (hv : v < 64) (left pads : ℕ) (cs : List Char) :
    a2bLoop n left pads (sextet v :: cs) = a2bLoop (n + 1) v 0 cs := by
  rw [a2bLoop_sextet hv, if_pos hn]

theorem a2bLoop_second {n : ℕ} (hn : n % 4 = 1) {v : ℕ} (hv : v < 64) (left pads : ℕ) (cs : List Char) :
    a2bLoop n left pads (sextet v :: cs) =
      (UInt8.ofNat (left * 4 + v / 16) :: ·) <$> a2bLoop (n + 1) (v % 16) 0 cs := by
  rw [a2bLoop_sextet hv]
  simp only [hn, one_ne_zero, if_true, if_false]

theorem a2bLoop_third {n : ℕ} (hn : n % 4 = 2) {v : ℕ} (hv : v < 64) (left pads : ℕ) (cs : List Char) :
    a2bLoop n left pads (sextet v :: cs) =
      (UInt8.ofNat (left * 16 + v / 4) :: ·) <$> a2bLoop (n + 1) (v % 4) 0 cs := by
  rw [a2bLoop_sextet hv]
  simp only [hn, OfNat.ofNat_ne_zero, OfNat.ofNat_ne_one, if_true, if_false]

theorem a2bLoop_fourth {n : ℕ} (hn : n % 4 = 3) {v : ℕ} (hv : v < 64) (left pads : ℕ) (cs : List Char) :
    a2bLoop n left pads (sextet v :: cs) = (UInt8.ofNat (left * 64 + v) :: ·) <$> a2bLoop (n + 1) 0 0 cs := by
  rw [a2bLoop_sextet hv]
  simp only [hn, OfNat.ofNat_ne_zero, OfNat.ofNat_ne_one, Nat.reduceEqDiff, if_false]

theorem a2bLoop_equals (n left pads : ℕ) (cs : List Char) :
    a2bLoop n left pads ('=' :: cs) =
      if n % 4 < 2 then a2bLoop n left pads cs
      else if 4 ≤ n % 4 + (pads + 1) then .ok []
      else a2bLoop n left (pads + 1) cs := by
  rw [a2bLoop, if_pos rfl]

theorem a2bLoop_pad {n : ℕ} (hn : n % 4 = 3) (left : ℕ) (cs : List Char) : a2bLoop n left 0 ('=' :: cs) = .ok [] := by
  simp [a2bLoop_equals, hn]

theorem a2bLoop_pad_pad {n : ℕ} (hn : n % 4 = 2) (left : ℕ) (cs : List Char) :
    a2bLoop n left 0 ('=' :: '=' :: cs) = .ok [] := by
  simp [a2bLoop_equals, hn]

theorem a2bLoop_encode (b : Bytes) {n : ℕ} (hn : n % 4 = 0) : a2bLoop n 0 0 (base64Encode b) = .ok b := by
  induction b using base64Encode.induct generalizing n with
  | case1 => rw [base64Encode, a2bLoop, if_pos hn]
  | case2 a =>
    have ha := a.toNat_lt
    rw [base64Encode, a2bLoop_first hn (by omega), a2bLoop_second (by omega) (by omega), a2bLoop_pad_pad (by omega),
      Outcome.map_ok, ofNat_eq_of_toNat (a := a) (by omega)]
  | case3 a b =>
    have ha := a.toNat_lt
    have hb := b.toNat_lt
    rw [base64Encode, a2bLoop_first hn (by omega), a2bLoop_second (by omega) (by omega),
      a2bLoop_third (by omega) (by omega), a2bLoop_pad (by omega), Outcome.map_ok, Outcome.map_ok,
      ofNat_eq_of_toNat (a := a) (by omega), ofNat_eq_of_toNat (a := b) (by omega)]
  | case4 a b c rest ih =>
    have ha := a.toNat_lt
    have hb := b.toNat_lt
    have hc := c.toNat_lt
    rw [base64Encode, a2bLoop_first hn (by omega), a2bLoop_second (by omega) (by omega),
      a2bLoop_third (by omega) (by omega), a2bLoop_fourth (by omega) (by omega), ih (by omega), Outcome.map_ok,
      Outcome.map_ok, Outcome.map_ok, ofNat_eq_of_toNat (a := a) (by omega), ofNat_eq_of_toNat (a := b) (by omega),
      ofNat_eq_of_toNat (a := c) (by omega)]

/-- the lenient decoder inverts the encoder too -/
theorem a2bBase64_encode (b : Bytes) : a2bBase64 (base64Encode b) = .ok b := a2bLoop_encode b rfl

example : base64.encode [77, 97, 110, 33] = "TWFuIQ==" := by decide +kernel

end AbirGuard.Core
