/-
JSON numbers, as they are written.

A number is read as its token: the digits of its parts. What the token means as a float is left to the caller; a token without
fraction and exponent is an integer.
- `scanNumber_text`: reading a written number gives the number, if what follows does not continue it.
- `NumToken.toInt_ofInt`: the token of an integer means that integer.
-/
import AbirGuard.Core.Text

namespace AbirGuard.Core

namespace Json

open CodePoint

instance neZero_digit : NeZero 10 := ⟨by decide⟩

/-- a number as it is written: sign, integer part, fraction, exponent with its sign (true for plus) -/
structure NumToken where
  neg : Bool
  int : List (Fin 10)
  frac : Option (List (Fin 10))
  exp : Option (Option Bool × List (Fin 10))
deriving DecidableEq

/-- the grammar: no leading zero, no empty part -/
structure NumToken.Valid (n : NumToken) : Prop where
  int : n.int = [0] ∨ ∃ d ds, n.int = d :: ds ∧ d ≠ 0
  frac : n.frac ≠ some []
  exp : ∀ sign, n.exp ≠ some (sign, [])

def digitPoint (d : Fin 10) : CodePoint := ⟨48 + d.val, by omega⟩

def digits (ds : List (Fin 10)) : Text := ds.map digitPoint

def signText : Option Bool → Text
  | some true => [ofChar '+']
  | some false => [ofChar '-']
  | none => []

def fracText : Option (List (Fin 10)) → Text
  | some ds => ofChar '.' :: digits ds
  | none => []

def expText : Option (Option Bool × List (Fin 10)) → Text
  | some (sign, ds) => ofChar 'e' :: signText sign ++ digits ds
  | none => []

def NumToken.text (n : NumToken) : Text :=
  (if n.neg then [ofChar '-'] else []) ++ digits n.int ++ fracText n.frac ++ expText n.exp

def digit? (p : CodePoint) : Option (Fin 10) :=
  if h : 48 ≤ p.val ∧ p.val ≤ 57 then some ⟨p.val - 48, by omega⟩ else none

/-- the longest run of digits -/
def scanDigits : Text → List (Fin 10) × Text
  | [] => ([], [])
  | p :: t =>
    match digit? p with
    | some d => (d :: (scanDigits t).1, (scanDigits t).2)
    | none => ([], p :: t)

def scanInt : Text → Option (List (Fin 10) × Text)
  | [] => none
  | p :: t =>
    match digit? p with
    | some 0 => some ([0], t)
    | some d => some (d :: (scanDigits t).1, (scanDigits t).2)
    | none => none

/-- a fraction, or nothing if no digit follows the point -/
def scanFrac : Text → Option (List (Fin 10)) × Text
  | [] => (none, [])
  | p :: t =>
    if p = ofChar '.' ∧ (scanDigits t).1 ≠ [] then (some (scanDigits t).1, (scanDigits t).2) else (none, p :: t)

def scanSign : Text → Option Bool × Text
  | [] => (none, [])
  | p :: t => if p = ofChar '+' then (some true, t) else if p = ofChar '-' then (some false, t) else (none, p :: t)

def scanExp : Text → Option (Option Bool × List (Fin 10)) × Text
  | [] => (none, [])
  | p :: t =>
    let r := scanDigits (scanSign t).2
    if (p = ofChar 'e' ∨ p = ofChar 'E') ∧ r.1 ≠ [] then (some ((scanSign t).1, r.1), r.2) else (none, p :: t)

def scanMinus : Text → Bool × Text
  | [] => (false, [])
  | p :: t => if p = ofChar '-' then (true, t) else (false, p :: t)

/-- the longest number at the start of a text -/
def scanNumber (t : Text) : Option (NumToken × Text) :=
  (scanInt (scanMinus t).2).map fun i =>
    let f := scanFrac i.2
    let e := scanExp f.2
    (⟨(scanMinus t).1, i.1, f.1, e.1⟩, e.2)

/-- the text is not continued by a digit, a fraction or an exponent -/
def Stops (t : Text) : Prop := ∀ p t', t = p :: t' → digit? p = none ∧ p ≠ ofChar '.' ∧ p ≠ ofChar 'e' ∧ p ≠ ofChar 'E'

def NoDigit (t : Text) : Prop := ∀ p t', t = p :: t' → digit? p = none

theorem Stops.noDigit {t : Text} (h : Stops t) : NoDigit t := fun p t' ht => (h p t' ht).1

theorem digit?_digitPoint (d : Fin 10) : digit? (digitPoint d) = some d := by
  revert d
  decide +kernel

theorem digitPoint_ne (d : Fin 10) : digitPoint d ≠ ofChar '-' ∧ digitPoint d ≠ ofChar '+' := by
  revert d
  decide +kernel

theorem scanDigits_digits (ds : List (Fin 10)) {rest : Text} (h : NoDigit rest) :
    scanDigits (digits ds ++ rest) = (ds, rest) := by
  induction ds with
  | nil =>
    cases rest with
    | nil => rfl
    | cons p t => simp [digits, scanDigits, h p t rfl]
  | cons d ds ih => simp [digits, scanDigits, digit?_digitPoint] at ih ⊢; simp [ih]

theorem scanInt_digits {ds : List (Fin 10)} (hds : ds = [0] ∨ ∃ d ds', ds = d :: ds' ∧ d ≠ 0) {rest : Text}
    (h : NoDigit rest) : scanInt (digits ds ++ rest) = some (ds, rest) := by
  rcases hds with rfl | ⟨d, ds, rfl, hd⟩
  · rfl
  · have hr := scanDigits_digits ds h
    rw [digits] at hr
    rw [digits, List.map_cons, List.cons_append, scanInt, digit?_digitPoint, hr]
    split
    · rename_i h0
      exact absurd (Option.some.inj h0) hd
    · rename_i h0
      cases h0
      rfl
    · rename_i h0
      cases h0

theorem scanSign_text (sign : Option Bool) {ds : List (Fin 10)} (hds : ds ≠ []) (rest : Text) :
    scanSign (signText sign ++ digits ds ++ rest) = (sign, digits ds ++ rest) := by
  rcases sign with _ | _ | _
  · cases ds with
    | nil => exact absurd rfl hds
    | cons d ds =>
      rw [signText, List.nil_append, digits, List.map_cons, List.cons_append, scanSign, if_neg (digitPoint_ne d).2,
        if_neg (digitPoint_ne d).1]
  · rfl
  · rfl

theorem scanExp_expText {e : Option (Option Bool × List (Fin 10))} (he : ∀ sign, e ≠ some (sign, [])) {rest : Text}
    (h : Stops rest) : scanExp (expText e ++ rest) = (e, rest) := by
  rcases e with _ | ⟨sign, ds⟩
  · cases rest with
    | nil => rfl
    | cons p t =>
      obtain ⟨-, -, h1, h2⟩ := h p t rfl
      rw [expText, List.nil_append, scanExp]
      exact if_neg fun hp => hp.1.elim h1 h2
  · have hds : ds ≠ [] := fun hd => he sign (hd ▸ rfl)
    rw [expText, List.cons_append, List.cons_append, scanExp, scanSign_text sign hds, scanDigits_digits ds h.noDigit]
    exact if_pos ⟨Or.inl rfl, hds⟩

/-- the exponent of a number and what follows it begin with no digit and no point -/
theorem expText_head (e : Option (Option Bool × List (Fin 10))) {rest : Text} (h : Stops rest) :
    ∀ p t, expText e ++ rest = p :: t → digit? p = none ∧ p ≠ ofChar '.' := by
  intro p t hp
  rcases e with _ | ⟨sign, ds⟩
  · exact ⟨(h p t hp).1, (h p t hp).2.1⟩
  · rw [expText, List.cons_append, List.cons_append, List.cons.injEq] at hp
    rw [← hp.1]
    decide

theorem scanFrac_fracText {f : Option (List (Fin 10))} (hf : f ≠ some []) {rest : Text}
    (h : ∀ p t, rest = p :: t → digit? p = none ∧ p ≠ ofChar '.') : scanFrac (fracText f ++ rest) = (f, rest) := by
  cases f with
  | none =>
    cases rest with
    | nil => rfl
    | cons p t =>
      rw [fracText, List.nil_append, scanFrac]
      exact if_neg fun hp => (h p t rfl).2 hp.1
  | some ds =>
    have hds : ds ≠ [] := fun hd => hf (hd ▸ rfl)
    rw [fracText, List.cons_append, scanFrac, scanDigits_digits ds fun p t hp => (h p t hp).1]
    exact if_pos ⟨rfl, hds⟩

theorem scanMinus_digits {ds : List (Fin 10)} (hds : ds ≠ []) (rest : Text) :
    scanMinus (digits ds ++ rest) = (false, digits ds ++ rest) := by
  cases ds with
  | nil => exact absurd rfl hds
  | cons d ds => rw [digits, List.map_cons, List.cons_append, scanMinus, if_neg (digitPoint_ne d).1]

/-- **Reading a written number** gives it back. -/
theorem scanNumber_text {n : NumToken} (hn : n.Valid) {rest : Text} (h : Stops rest) :
    scanNumber (n.text ++ rest) = some (n, rest) := by
  have hint : n.int ≠ [] := by
    rcases hn.int with hi | ⟨d, ds, hi, -⟩ <;> rw [hi] <;> exact List.cons_ne_nil _ _
  have hminus : scanMinus (n.text ++ rest) =
      (n.neg, digits n.int ++ (fracText n.frac ++ (expText n.exp ++ rest))) := by
    have htext : n.text ++ rest =
        (if n.neg then [ofChar '-'] else []) ++ (digits n.int ++ (fracText n.frac ++ (expText n.exp ++ rest))) := by
      simp only [NumToken.text, List.append_assoc]
    rw [htext]
    cases n.neg with
    | true => rfl
    | false => exact scanMinus_digits hint _
  have hfrac : NoDigit (fracText n.frac ++ (expText n.exp ++ rest)) := by
    intro p t hp
    cases hf : n.frac with
    | none =>
      rw [hf] at hp
      exact (expText_head n.exp h p t hp).1
    | some ds =>
      rw [hf, fracText, List.cons_append, List.cons.injEq] at hp
      rw [← hp.1]
      decide
  rw [scanNumber, hminus, scanInt_digits hn.int hfrac, Option.map_some]
  simp only [scanFrac_fracText hn.frac (expText_head n.exp h), scanExp_expText hn.exp h]

/-- a number is written in ASCII -/
theorem text_ascii (n : NumToken) : ∀ p ∈ n.text, p.val < 128 := by
  have hdigits : ∀ ds : List (Fin 10), ∀ p ∈ digits ds, p.val < 128 := by
    intro ds p hp
    obtain ⟨d, -, rfl⟩ := List.mem_map.1 hp
    have hd := d.isLt
    simp only [digitPoint]
    omega
  have hsign : ∀ sign, ∀ p ∈ signText sign, p.val < 128 := by
    intro sign
    rcases sign with _ | _ | _ <;> simp [signText, ofChar]
  intro p hp
  simp only [NumToken.text, List.mem_append] at hp
  rcases hp with ((hp | hp) | hp) | hp
  · cases hn : n.neg <;> simp [hn] at hp
    rw [hp]
    decide
  · exact hdigits _ p hp
  · cases hf : n.frac with
    | none =>
      rw [hf] at hp
      cases hp
    | some ds =>
      rw [hf] at hp
      rcases List.mem_cons.1 hp with rfl | hp
      · decide
      · exact hdigits ds p hp
  · rcases he : n.exp with _ | ⟨sign, ds⟩
    · rw [he] at hp
      cases hp
    · rw [he] at hp
      rcases List.mem_append.1 hp with hp | hp
      · rcases List.mem_cons.1 hp with rfl | hp
        · decide
        · exact hsign sign p hp
      · exact hdigits ds p hp

/-! ## Integers -/

def natOfDigits (ds : List (Fin 10)) : ℕ := Nat.ofDigits 10 (ds.reverse.map Fin.val)

def digitsOfNat (m : ℕ) : List (Fin 10) := if m = 0 then [0] else ((Nat.digits 10 m).map (Fin.ofNat 10)).reverse

theorem natOfDigits_digitsOfNat (m : ℕ) : natOfDigits (digitsOfNat m) = m := by
  unfold digitsOfNat
  split_ifs with h
  · rw [h]
    rfl
  · have hmap : (Nat.digits 10 m).map (Fin.val ∘ Fin.ofNat 10) = Nat.digits 10 m := by
      refine (List.map_congr_left fun d hd => ?_).trans (List.map_id _)
      exact Nat.mod_eq_of_lt (Nat.digits_lt_base (by decide) hd)
    rw [natOfDigits, List.reverse_reverse, List.map_map, hmap, Nat.ofDigits_digits]

theorem digitsOfNat_valid (m : ℕ) : digitsOfNat m = [0] ∨ ∃ d ds, digitsOfNat m = d :: ds ∧ d ≠ 0 := by
  unfold digitsOfNat
  split_ifs with h
  · exact Or.inl rfl
  · refine Or.inr ?_
    have hne : Nat.digits 10 m ≠ [] := Nat.digits_ne_nil_iff_ne_zero.2 h
    have hlast : (Nat.digits 10 m).getLast hne ≠ 0 := Nat.getLast_digit_ne_zero 10 h
    have hlt : (Nat.digits 10 m).getLast hne < 10 := Nat.digits_lt_base (by decide) (List.getLast_mem hne)
    rw [← List.dropLast_append_getLast hne, List.map_append, List.reverse_append]
    refine ⟨Fin.ofNat 10 ((Nat.digits 10 m).getLast hne), _, rfl, fun h0 => hlast ?_⟩
    have hv : (Fin.ofNat 10 ((Nat.digits 10 m).getLast hne)).val = 0 := congrArg Fin.val h0
    rwa [Fin.val_ofNat, Nat.mod_eq_of_lt hlt] at hv

def NumToken.ofInt (n : ℤ) : NumToken := ⟨decide (n < 0), digitsOfNat n.natAbs, none, none⟩

/-- the value of a token without fraction and exponent -/
def NumToken.toInt (n : NumToken) : ℤ := if n.neg then -natOfDigits n.int else natOfDigits n.int

theorem NumToken.valid_ofInt (n : ℤ) : (NumToken.ofInt n).Valid where
  int := digitsOfNat_valid _
  frac := by simp [NumToken.ofInt]
  exp := by simp [NumToken.ofInt]

theorem NumToken.toInt_ofInt (n : ℤ) : (NumToken.ofInt n).toInt = n := by
  simp only [NumToken.toInt, NumToken.ofInt, natOfDigits_digitsOfNat, decide_eq_true_eq]
  split_ifs <;> omega

end Json

end AbirGuard.Core
