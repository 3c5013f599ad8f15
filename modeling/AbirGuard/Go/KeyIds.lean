/-
Which key ids do the command line and the Go module agree on?

Both refuse the empty id, ids of more than 64 bytes and ids that start with two underscores, with the same texts. Of characters
the Go module takes the letters and digits of ASCII (`validateKeyID`), and the command line what `char::is_alphanumeric` takes
(`validate_key_id`), which is a parameter here: letters and numbers of all scripts.

- `validateKeyID_ok_iff`, `validateKeyId_ok_iff`: what each of the two accepts, character by character.
- `validators_agree_iff`: they agree unless an id is in order for the command line and has a character that is not ASCII.
-/
import AbirGuard.Core.Utf8Lossy
import AbirGuard.Go.Vault
import AbirGuard.Rust.Instance

namespace AbirGuard.Go

open AbirGuard.Core AbirGuard.Rust

/-! ## Characters -/

/-- what the command line takes of characters, given which ones are alphanumeric -/
def IsIdChar (isAlphanumeric : Char → Bool) (ch : Char) : Prop := isAlphanumeric ch ∨ ch = '-' ∨ ch = '_'

instance (isAlphanumeric : Char → Bool) (ch : Char) : Decidable (IsIdChar isAlphanumeric ch) :=
  inferInstanceAs (Decidable (_ ∨ _))

theorem isKeyIDChar_lt {b : UInt8} (h : isKeyIDChar b) : b.toNat < 128 := by
  simp only [isKeyIDChar, decide_eq_true_eq, UInt8.le_iff_toNat_le, ← UInt8.toNat_inj] at h
  simp at h
  omega

/-- on ASCII the Go module takes what is alphanumeric there -/
theorem isKeyIDChar_ofNat {ch : Char} (h : ch.toNat < 128) :
    isKeyIDChar (UInt8.ofNat ch.toNat) ↔ IsIdChar Char.isAlphanum ch := by
  have hall : ∀ n : Fin 128, isKeyIDChar (UInt8.ofNat n.val) ↔ IsIdChar Char.isAlphanum (Char.ofNat n.val) := by decide +kernel
  have hch := hall ⟨ch.toNat, h⟩
  rwa [Char.ofNat_toNat] at hch

theorem ofNat_eq_underscore {ch : Char} (h : ch.toNat < 128) : UInt8.ofNat ch.toNat = 95 ↔ ch = '_' := by
  have hall : ∀ n : Fin 128, UInt8.ofNat n.val = 95 ↔ Char.ofNat n.val = '_' := by decide +kernel
  have hch := hall ⟨ch.toNat, h⟩
  rwa [Char.ofNat_toNat] at hch

theorem utf8_take_two {keyId : String} (h : ∀ ch ∈ keyId.toList, ch.toNat < 128) :
    (utf8 keyId).take 2 = [95, 95] ↔ Cli.reserved keyId := by
  rw [utf8_of_ascii h, Cli.reserved]
  rcases hchars : keyId.toList with _ | ⟨a, _ | ⟨b, rest⟩⟩
  · simp
  · simp
  · have ha := ofNat_eq_underscore (h a (by simp [hchars]))
    have hb := ofNat_eq_underscore (h b (by simp [hchars]))
    simp [ha, hb, eq_comm (a := '_')]

/-! ## The two validators -/

/-- what both ask of an id as a whole -/
def IsKeyIdShape (keyId : String) : Prop := keyId ≠ "" ∧ keyId.utf8ByteSize ≤ 64 ∧ ¬ Cli.reserved keyId

section Validators

variable {Key : Type} {c : VaultCrates Key}

theorem validateKeyId_ok_iff {keyId : String} : Cli.validateKeyId c keyId = .ok () ↔
    IsKeyIdShape keyId ∧ ∀ ch ∈ keyId.toList, IsIdChar c.isAlphanumeric ch := by
  unfold Cli.validateKeyId IsKeyIdShape IsIdChar
  split_ifs with hempty hlong hchar hreserved
  · simp [hempty]
  · simp [Nat.not_le.2 hlong]
  · -- some character is refused
    obtain ⟨ch, hch, hbad⟩ := List.any_eq_true.1 hchar
    refine iff_of_false (fun h => by cases h) fun h => ?_
    have hgood := h.2 ch hch
    simp_all
  · simp [hreserved]
  · refine iff_of_true rfl ⟨⟨hempty, Nat.not_lt.1 hlong, hreserved⟩, fun ch hch => ?_⟩
    by_contra hbad
    apply hchar
    refine List.any_eq_true.2 ⟨ch, hch, ?_⟩
    simpa [not_or, and_assoc] using hbad

theorem validateKeyID_bytes {keyID : GoString} : validateKeyID keyID = .ok () ↔
    keyID ≠ [] ∧ keyID.length ≤ 64 ∧ (∀ b ∈ keyID, isKeyIDChar b) ∧ keyID.take 2 ≠ [95, 95] := by
  unfold validateKeyID
  split_ifs with hempty hlong hchar hreserved
  · simp [hempty]
  · simp [Nat.not_le.2 hlong]
  · obtain ⟨b, hb, hbad⟩ := List.any_eq_true.1 hchar
    refine iff_of_false (fun h => by cases h) fun h => ?_
    simp [h.2.2.1 b hb] at hbad
  · simp [hreserved]
  · refine iff_of_true rfl ⟨hempty, Nat.not_lt.1 hlong, fun b hb => ?_, hreserved⟩
    by_contra hbad
    exact hchar (List.any_eq_true.2 ⟨b, hb, decide_eq_true hbad⟩)

theorem validateKeyID_ok_iff {keyId : String} : validateKeyID (utf8 keyId) = .ok () ↔
    IsKeyIdShape keyId ∧ ∀ ch ∈ keyId.toList, ch.toNat < 128 ∧ IsIdChar Char.isAlphanum ch := by
  have hsize : (utf8 keyId).length = keyId.utf8ByteSize := by
    simp [utf8]
  have hnil : utf8 keyId ≠ [] ↔ keyId ≠ "" := by
    rw [ne_eq, ne_eq, not_iff_not]
    exact utf8_inj (t := "")
  have hbytes : (∀ b ∈ utf8 keyId, isKeyIDChar b) ↔ ∀ ch ∈ keyId.toList, ch.toNat < 128 ∧ IsIdChar Char.isAlphanum ch := by
    rw [forall_mem_utf8_iff fun b hb => isKeyIDChar_lt hb]
    exact forall₂_congr fun ch _ => and_congr_right fun hch => isKeyIDChar_ofNat hch
  rw [validateKeyID_bytes, hsize, hnil, hbytes, IsKeyIdShape]
  constructor
  · rintro ⟨hempty, hlong, hchars, hreserved⟩
    rw [ne_eq, utf8_take_two fun ch hch => (hchars ch hch).1] at hreserved
    exact ⟨⟨hempty, hlong, hreserved⟩, hchars⟩
  · rintro ⟨⟨hempty, hlong, hreserved⟩, hchars⟩
    rw [← utf8_take_two fun ch hch => (hchars ch hch).1] at hreserved
    exact ⟨hempty, hlong, hchars, hreserved⟩

/-- **When the two agree.** They give the same answer on an id, unless it is in order for the command line (not empty, at most 64
bytes, no two underscores in front, alphanumeric up to hyphens and underscores) and has a character that is not ASCII: then only
the command line accepts it. -/
theorem validators_agree_iff (hascii : ∀ ch : Char, ch.toNat < 128 → c.isAlphanumeric ch = ch.isAlphanum) (keyId : String) :
    (Cli.validateKeyId c keyId = .ok () ↔ validateKeyID (utf8 keyId) = .ok ()) ↔
      ¬ (IsKeyIdShape keyId ∧ (∀ ch ∈ keyId.toList, IsIdChar c.isAlphanumeric ch) ∧ ∃ ch ∈ keyId.toList, ¬ ch.toNat < 128) := by
  -- on ASCII characters the two classes are one
  have hsame : ∀ ch : Char, ch.toNat < 128 → (IsIdChar c.isAlphanumeric ch ↔ IsIdChar Char.isAlphanum ch) := by
    intro ch hch
    rw [IsIdChar, IsIdChar, hascii ch hch]
  rw [validateKeyId_ok_iff, validateKeyID_ok_iff]
  constructor
  · rintro h ⟨hshape, hchars, ch, hch, hwide⟩
    exact hwide ((h.1 ⟨hshape, hchars⟩).2 ch hch).1
  · intro h
    refine and_congr_right fun hshape => ⟨fun hchars ch hch => ?_, fun hchars ch hch => ?_⟩
    · have hnarrow : ch.toNat < 128 := by
        by_contra hwide
        exact h ⟨hshape, hchars, ch, hch, hwide⟩
      exact ⟨hnarrow, (hsame ch hnarrow).1 (hchars ch hch)⟩
    · obtain ⟨hnarrow, hgood⟩ := hchars ch hch
      exact (hsame ch hnarrow).2 hgood

end Validators

/-! ## Latin letters -/

/-- what is alphanumeric up to U+00FF: beside ASCII the two ordinals, the micro sign, three superscripts, three fractions and the
letters from U+00C0 on, without the signs for times and division -/
def latinAlphanumeric (ch : Char) : Bool :=
  ch.isAlphanum || ['ª', '²', '³', 'µ', '¹', 'º', '¼', '½', '¾'].contains ch ||
    (0xC0 ≤ ch.toNat && ch.toNat ≤ 0xFF && ch ≠ '×' && ch ≠ '÷')

def latin : VaultCrates UInt8 := { tiny with isAlphanumeric := latinAlphanumeric }

theorem latin_ascii (ch : Char) (h : ch.toNat < 128) : latin.isAlphanumeric ch = ch.isAlphanum := by
  have hall : ∀ n : Fin 128, latinAlphanumeric (Char.ofNat n.val) = (Char.ofNat n.val).isAlphanum := by decide +kernel
  have hch := hall ⟨ch.toNat, h⟩
  rwa [Char.ofNat_toNat] at hch

/-- an id of letters that both accept -/
theorem validators_agree_a : Cli.validateKeyId latin "a" = .ok () ↔ validateKeyID (utf8 "a") = .ok () := by
  refine (validators_agree_iff latin_ascii "a").2 fun h => ?_
  obtain ⟨ch, hch, hwide⟩ := h.2.2
  simp at hch
  subst hch
  exact hwide (by decide)

/-- only the command line takes an é -/
theorem accent_disagrees : Cli.validateKeyId latin "é" = .ok () ∧
    validateKeyID (utf8 "é") = .error (utf8 "key_id must be alphanumeric, hyphens, or underscores only") := by
  decide +kernel

end AbirGuard.Go
