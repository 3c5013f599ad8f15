/-
Text as a language has it whose strings are sequences of code points, surrogates included.

Such a string need not have a UTF-8 encoding, so `encode` is partial. `decode` gives strings without surrogates.
- `encode_ofString`, `encode_isSome_append`, `encode_isSome_of_ascii`: what can be encoded.
- `decode_encode`: decoding inverts encoding.
- `hexdigest`: bytes in lower-case hexadecimal, two digits each (`hexdigest_length`), which tell the bytes (`hexdigest_injective`).
-/
import AbirGuard.Core.Bytes

namespace AbirGuard.Core

abbrev CodePoint := Fin 0x110000

abbrev Text := List CodePoint

instance neZero_codePoint : NeZero 0x110000 := ⟨by decide⟩

instance lawfulBEq_codePoint : LawfulBEq CodePoint := inferInstance

instance lawfulBEq_text : LawfulBEq Text := inferInstance

namespace CodePoint

def ofChar (c : Char) : CodePoint := ⟨c.toNat, by
  rcases c.valid with h | ⟨-, h⟩
  · exact Nat.lt_trans h (by decide)
  · exact h⟩

def IsSurrogate (p : CodePoint) : Prop := 0xD800 ≤ p.val ∧ p.val ≤ 0xDFFF

instance (p : CodePoint) : Decidable (IsSurrogate p) := inferInstanceAs (Decidable (_ ∧ _))

/-- the character of a code point that is no surrogate -/
def toChar? (p : CodePoint) : Option Char := if p.IsSurrogate then none else some (Char.ofNat p.val)

theorem not_isSurrogate_ofChar (c : Char) : ¬ (ofChar c).IsSurrogate := by
  rintro ⟨h1, h2⟩
  rcases c.valid with h | ⟨h, -⟩
  · exact absurd h1 (Nat.not_le.2 h)
  · exact absurd h2 (Nat.not_le.2 h)

@[simp] theorem toChar?_ofChar (c : Char) : toChar? (ofChar c) = some c := by
  rw [toChar?, if_neg (not_isSurrogate_ofChar c)]
  exact congrArg some (Char.ofNat_toNat c)

theorem ofChar_of_toChar? {p : CodePoint} {c : Char} (h : toChar? p = some c) : ofChar c = p := by
  rw [toChar?] at h
  split_ifs at h with hs
  cases h
  refine Fin.ext ?_
  have hv : p.val.isValidChar := by
    have hp := p.isLt
    by_cases hlt : p.val < 0xD800
    · exact Or.inl hlt
    · exact Or.inr ⟨by simp only [IsSurrogate] at hs; omega, hp⟩
  show (Char.ofNat p.val).toNat = p.val
  rw [Char.ofNat, dif_pos hv]
  rfl

theorem ofChar_injective : Function.Injective ofChar := fun c d h => by
  simpa using congrArg toChar? h

end CodePoint

namespace Text

def ofString (s : String) : Text := s.toList.map CodePoint.ofChar

instance : Coe String Text := ⟨ofString⟩

/-- the characters, if none is a surrogate -/
def toChars? (t : Text) : Option (List Char) := t.mapM CodePoint.toChar?

/-- `encode("utf-8")` -/
def encode (t : Text) : Option Bytes := t.toChars?.map fun cs => utf8 (String.ofList cs)

/-- `decode("utf-8")` -/
def decode (b : Bytes) : Option Text := (fromUtf8 b).map ofString

def hexDigit (n : ℕ) : Char := "0123456789abcdef".toList.getD n '0'

/-- `hexdigest()`, `hex()` -/
def hexdigest (b : Bytes) : String := String.ofList (b.flatMap fun x => [hexDigit (x.toNat / 16), hexDigit (x.toNat % 16)])

/-! ## Encoding -/

theorem ofString_injective : Function.Injective ofString := fun _ _ h =>
  String.toList_injective (List.map_injective_iff.2 CodePoint.ofChar_injective h)

@[simp] theorem ofString_inj {s t : String} : ofString s = ofString t ↔ s = t := ofString_injective.eq_iff

@[simp] theorem ofString_append (s t : String) : ofString (s ++ t) = ofString s ++ ofString t := by
  simp [ofString]

theorem toChars?_map_ofChar (cs : List Char) : toChars? (cs.map CodePoint.ofChar) = some cs := by
  induction cs with
  | nil => rfl
  | cons c cs ih =>
    rw [toChars?] at ih
    rw [List.map_cons, toChars?, List.mapM_cons, CodePoint.toChar?_ofChar, ih]
    rfl

@[simp] theorem toChars?_ofString (s : String) : toChars? (ofString s) = some s.toList := toChars?_map_ofChar _

theorem map_ofChar_of_toChars? {t : Text} {cs : List Char} (h : t.toChars? = some cs) :
    cs.map CodePoint.ofChar = t := by
  induction t generalizing cs with
  | nil =>
    cases h
    rfl
  | cons p t ih =>
    rw [toChars?, List.mapM_cons, Option.bind_eq_bind, Option.bind_eq_some_iff] at h
    obtain ⟨c, hc, h⟩ := h
    rw [Option.bind_eq_bind, Option.bind_eq_some_iff] at h
    obtain ⟨cs', hcs, h⟩ := h
    cases h
    rw [List.map_cons, CodePoint.ofChar_of_toChar? hc, ih hcs]

@[simp] theorem encode_ofString (s : String) : encode (ofString s) = some (utf8 s) := by
  simp [encode]

theorem decode_encode {t : Text} {b : Bytes} (h : encode t = some b) : decode b = some t := by
  obtain ⟨cs, hcs, rfl⟩ := Option.map_eq_some_iff.1 h
  rw [decode, fromUtf8_utf8, Option.map_some, ofString, String.toList_ofList, map_ofChar_of_toChars? hcs]

/-- no two texts have the same encoding -/
theorem encode_inj {t u : Text} {b : Bytes} (ht : encode t = some b) (hu : encode u = some b) : t = u :=
  Option.some.inj ((decode_encode ht).symm.trans (decode_encode hu))

theorem toChars?_append (t u : Text) :
    toChars? (t ++ u) = t.toChars?.bind fun cs => u.toChars?.map (cs ++ ·) := by
  rw [toChars?, List.mapM_append]
  cases h : List.mapM CodePoint.toChar? t with
  | none => simp [toChars?, h]
  | some cs =>
    cases h' : List.mapM CodePoint.toChar? u with
    | none => simp [toChars?, h, h']
    | some ds => simp [toChars?, h, h']

theorem encode_append (t u : Text) : encode (t ++ u) = t.encode.bind fun b => u.encode.map (b ++ ·) := by
  rw [encode, encode, encode, toChars?_append]
  cases t.toChars? with
  | none => rfl
  | some cs =>
    cases u.toChars? with
    | none => rfl
    | some ds => simp [String.ofList_append, utf8_append]

/-- a text can be encoded if and only if its parts can -/
theorem encode_isSome_append {t u : Text} : (encode (t ++ u)).isSome ↔ (encode t).isSome ∧ (encode u).isSome := by
  rw [encode_append]
  cases encode t <;> simp

theorem encode_isSome_ofString (s : String) : (encode (ofString s)).isSome := by simp

theorem encode_isSome_iff {t : Text} : (encode t).isSome ↔ ∀ p ∈ t, ¬ p.IsSurrogate := by
  rw [encode, Option.isSome_map]
  induction t with
  | nil => simp [toChars?]
  | cons p t ih =>
    rw [toChars?] at ih
    rw [toChars?, List.mapM_cons, List.forall_mem_cons, ← ih, CodePoint.toChar?]
    split_ifs with h
    · simp [h]
    · cases List.mapM CodePoint.toChar? t <;> simp [h]

theorem encode_isSome_of_ascii {t : Text} (h : ∀ p ∈ t, p.val < 128) : (encode t).isSome := by
  rw [encode_isSome_iff]
  intro p hp hs
  have hlt := h p hp
  have hge := hs.1
  omega

/-! ## Hexadecimal -/

theorem hexdigest_length (b : Bytes) : (hexdigest b).toList.length = 2 * b.length := by
  rw [hexdigest, String.toList_ofList]
  induction b with
  | nil => rfl
  | cons x b ih =>
    simp only [List.flatMap_cons, List.length_append, ih, List.length_cons, List.length_nil]
    omega

theorem hexDigit_inj : ∀ m < 16, ∀ n < 16, hexDigit m = hexDigit n → m = n := by decide

theorem hexdigest_injective : Function.Injective hexdigest := by
  intro b c h
  rw [hexdigest, hexdigest, String.ofList_inj] at h
  induction b generalizing c with
  | nil =>
    cases c with
    | nil => rfl
    | cons y c => simp at h
  | cons x b ih =>
    cases c with
    | nil => simp at h
    | cons y c =>
      simp only [List.flatMap_cons, List.cons_append, List.nil_append, List.cons.injEq] at h
      have hx := x.toNat_lt
      have hy := y.toNat_lt
      have hhigh := hexDigit_inj _ (by omega) _ (by omega) h.1
      have hlow := hexDigit_inj _ (by omega) _ (by omega) h.2.1
      have hxy : x = y := UInt8.toNat_inj.1 (by omega)
      rw [hxy, ih h.2.2]

end Text

end AbirGuard.Core
