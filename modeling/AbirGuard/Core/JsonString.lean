/-
JSON string literals.

A literal is written in ASCII: a character outside it becomes a `\u` escape, and one past U+FFFF a pair of escapes of
surrogates. The reader joins such a pair again. A string that holds the two surrogates as separate code points is written in
the same way, so it comes back as the one character: `normalize` says what comes back.
- `scanString_escape`: reading a written literal gives the normalised string.
- `escape_ascii`: what is written is ASCII.
- `normalize_eq_self_iff`: exactly the strings with no high surrogate directly before a low one come back unchanged.
-/
import AbirGuard.Core.Text
import Mathlib.Data.List.GetD

namespace AbirGuard.Core

namespace CodePoint

def IsHigh (n : ℕ) : Prop := 0xD800 ≤ n ∧ n ≤ 0xDBFF

def IsLow (n : ℕ) : Prop := 0xDC00 ≤ n ∧ n ≤ 0xDFFF

instance (n : ℕ) : Decidable (IsHigh n) := inferInstanceAs (Decidable (_ ∧ _))

instance (n : ℕ) : Decidable (IsLow n) := inferInstanceAs (Decidable (_ ∧ _))

/-- the code point of a pair of surrogates -/
def join (high low : ℕ) : CodePoint := Fin.ofNat 0x110000 (0x10000 + (high - 0xD800) * 0x400 + (low - 0xDC00))

end CodePoint

namespace Json

open CodePoint

/-- a piece of a string literal: a character, or the value of a `\u` escape -/
inductive StrUnit where
  | raw (p : CodePoint)
  | esc (n : Fin 0x10000)
deriving DecidableEq

/-- the letter of a short escape -/
def shortEscape? (p : CodePoint) : Option CodePoint :=
  match p.val with
  | 34 => some (ofChar '"')
  | 92 => some (ofChar '\\')
  | 10 => some (ofChar 'n')
  | 13 => some (ofChar 'r')
  | 9 => some (ofChar 't')
  | 12 => some (ofChar 'f')
  | 8 => some (ofChar 'b')
  | _ => none

def unescape? (e : CodePoint) : Option CodePoint :=
  match e.val with
  | 34 => some 34
  | 92 => some 92
  | 47 => some 47
  | 98 => some 8
  | 102 => some 12
  | 110 => some 10
  | 114 => some 13
  | 116 => some 9
  | _ => none

/-- the pieces that a code point is written as -/
def unitsOf (p : CodePoint) : List StrUnit :=
  if (shortEscape? p).isSome ∨ 32 ≤ p.val ∧ p.val ≤ 126 then [.raw p]
  else if p.val < 0x10000 then [.esc (Fin.ofNat 0x10000 p.val)]
  else [.esc (Fin.ofNat 0x10000 (0xD800 + (p.val - 0x10000) / 0x400)),
    .esc (Fin.ofNat 0x10000 (0xDC00 + (p.val - 0x10000) % 0x400))]

def hexPoint (n : ℕ) : CodePoint := ofChar (Text.hexDigit n)

def escapeUnit : StrUnit → Text
  | .raw p =>
    match shortEscape? p with
    | some e => [ofChar '\\', e]
    | none => [p]
  | .esc n => [ofChar '\\', ofChar 'u', hexPoint (n.val / 4096), hexPoint (n.val / 256 % 16), hexPoint (n.val / 16 % 16),
      hexPoint (n.val % 16)]

/-- what stands between the quotes -/
def escape (s : Text) : Text := (s.flatMap unitsOf).flatMap escapeUnit

def hexVal? (p : CodePoint) : Option ℕ :=
  if 48 ≤ p.val ∧ p.val ≤ 57 then some (p.val - 48)
  else if 97 ≤ p.val ∧ p.val ≤ 102 then some (p.val - 87)
  else if 65 ≤ p.val ∧ p.val ≤ 70 then some (p.val - 55)
  else none

def hex4? (a b c d : CodePoint) : Option (Fin 0x10000) := do
  some (Fin.ofNat 0x10000 (((← hexVal? a) * 4096 + (← hexVal? b) * 256) + (← hexVal? c) * 16 + (← hexVal? d)))

/-- the pieces up to the closing quote, and what follows it -/
def scanUnits : Text → Option (List StrUnit × Text)
  | [] => none
  | p :: t =>
    if p = ofChar '"' then some ([], t)
    else if p = ofChar '\\' then
      match t with
      | [] => none
      | e :: t =>
        if e = ofChar 'u' then
          match t with
          | a :: b :: c :: d :: t => (hex4? a b c d).bind fun n => (scanUnits t).map fun r => (.esc n :: r.1, r.2)
          | _ => none
        else (unescape? e).bind fun q => (scanUnits t).map fun r => (.raw q :: r.1, r.2)
    else if p.val < 32 then none
    else (scanUnits t).map fun r => (.raw p :: r.1, r.2)

/-- the string of the pieces: an escaped high surrogate directly before an escaped low one makes one code point -/
def joinUnits : List StrUnit → Text
  | [] => []
  | .raw p :: us => p :: joinUnits us
  | .esc n :: .esc m :: us =>
    if IsHigh n ∧ IsLow m then join n m :: joinUnits us else n.castLE (by decide) :: joinUnits (.esc m :: us)
  | .esc n :: us => n.castLE (by decide) :: joinUnits us

/-- a literal after its opening quote -/
def scanString (t : Text) : Option (Text × Text) := (scanUnits t).map fun r => (joinUnits r.1, r.2)

/-- every high surrogate that stands directly before a low one joined with it, from the left -/
def normalize : Text → Text
  | [] => []
  | [p] => [p]
  | p :: q :: t => if IsHigh p ∧ IsLow q then join p q :: normalize t else p :: normalize (q :: t)

/-- no high surrogate stands directly before a low one -/
def Unpaired (s : Text) : Prop := s.IsChain fun p q : CodePoint => ¬ (IsHigh p ∧ IsLow q)

/-! ## Reading what was written -/

theorem hexVal?_hexPoint {n : ℕ} (h : n < 16) : hexVal? (hexPoint n) = some n := by
  have hall : ∀ n : Fin 16, hexVal? (hexPoint n.val) = some n.val := by decide +kernel
  exact hall ⟨n, h⟩

theorem hex4?_hexPoint (n : Fin 0x10000) :
    hex4? (hexPoint (n.val / 4096)) (hexPoint (n.val / 256 % 16)) (hexPoint (n.val / 16 % 16)) (hexPoint (n.val % 16)) =
      some n := by
  have hn := n.isLt
  simp only [hex4?, hexVal?_hexPoint (show n.val / 4096 < 16 by omega), hexVal?_hexPoint (Nat.mod_lt _ (by decide : 0 < 16)),
    Option.bind_eq_bind, Option.bind_some, Option.some.injEq]
  refine Fin.ext ?_
  rw [Fin.val_ofNat]
  omega

/-- a piece that a code point is written as -/
def StrUnit.Written : StrUnit → Prop
  | .raw p => (shortEscape? p).isSome ∨ 32 ≤ p.val ∧ p.val ≤ 126
  | .esc _ => True

theorem written_of_mem {p : CodePoint} {u : StrUnit} (h : u ∈ unitsOf p) : u.Written := by
  unfold unitsOf at h
  split_ifs at h with h1 h2
  · rw [List.mem_singleton] at h
    subst h
    exact h1
  · rw [List.mem_singleton] at h
    subst h
    trivial
  · rcases List.mem_pair.1 h with rfl | rfl <;> trivial

theorem unescape?_shortEscape? {p e : CodePoint} (h : shortEscape? p = some e) :
    unescape? e = some p ∧ e ≠ ofChar 'u' := by
  unfold shortEscape? at h
  split at h
  on_goal 8 => cases h
  all_goals
    rename_i hp
    cases h
    refine ⟨?_, by decide⟩
    obtain ⟨n, hn⟩ := p
    cases hp
    rfl

theorem scanUnits_quote (t : Text) : scanUnits (ofChar '"' :: t) = some ([], t) := by
  rw [scanUnits.eq_def]
  exact if_pos rfl

theorem scanUnits_escapeUnit {u : StrUnit} (h : u.Written) (t : Text) :
    scanUnits (escapeUnit u ++ t) = (scanUnits t).map fun r => (u :: r.1, r.2) := by
  cases u with
  | esc n =>
    rw [escapeUnit, List.cons_append, List.cons_append, scanUnits.eq_def]
    dsimp only [List.cons_append, List.nil_append]
    rw [if_neg (by decide), if_pos rfl, if_pos rfl, hex4?_hexPoint, Option.bind_some]
  | raw p =>
    cases hs : shortEscape? p with
    | some e =>
      obtain ⟨hu, hne⟩ := unescape?_shortEscape? hs
      simp only [escapeUnit, hs, List.cons_append, List.nil_append]
      rw [scanUnits.eq_def]
      dsimp only
      rw [if_neg (by decide), if_pos rfl, if_neg hne, hu, Option.bind_some]
    | none =>
      have hp : 32 ≤ p.val ∧ p.val ≤ 126 := by simpa [StrUnit.Written, hs] using h
      have hquote : p ≠ ofChar '"' := by
        rintro rfl
        exact absurd hs (by decide)
      have hslash : p ≠ ofChar '\\' := by
        rintro rfl
        exact absurd hs (by decide)
      simp only [escapeUnit, hs, List.cons_append, List.nil_append]
      rw [scanUnits.eq_def]
      dsimp only
      rw [if_neg hquote, if_neg hslash, if_neg (Nat.not_lt.2 hp.1)]

theorem scanUnits_escape {us : List StrUnit} (h : ∀ u ∈ us, u.Written) (rest : Text) :
    scanUnits (us.flatMap escapeUnit ++ ofChar '"' :: rest) = some (us, rest) := by
  induction us with
  | nil => exact scanUnits_quote rest
  | cons u us ih =>
    rw [List.flatMap_cons, List.append_assoc, scanUnits_escapeUnit (h u List.mem_cons_self),
      ih fun u hu => h u (List.mem_cons_of_mem _ hu), Option.map_some]

/-! ## What is written is ASCII -/

theorem hexPoint_ascii (n : ℕ) : (hexPoint n).val < 128 := by
  rw [hexPoint, Text.hexDigit]
  rcases Nat.lt_or_ge n "0123456789abcdef".toList.length with h | h
  · have hall : "0123456789abcdef".toList.all (fun c => decide ((ofChar c).val < 128)) = true := by decide +kernel
    rw [List.getD_eq_getElem _ _ h]
    exact of_decide_eq_true (List.all_eq_true.1 hall _ (List.getElem_mem h))
  · rw [List.getD_eq_default _ _ h]
    decide

theorem escapeUnit_ascii {u : StrUnit} (h : u.Written) : ∀ p ∈ escapeUnit u, p.val < 128 := by
  have hslash : (ofChar '\\').val < 128 := by decide
  cases u with
  | esc n =>
    have hu : (ofChar 'u').val < 128 := by decide
    simp [escapeUnit, hexPoint_ascii, hslash, hu]
  | raw p =>
    cases hs : shortEscape? p with
    | some e =>
      have he : e.val < 128 := by
        unfold shortEscape? at hs
        split at hs
        on_goal 8 => cases hs
        all_goals
          cases hs
          decide
      simp [escapeUnit, hs, hslash, he]
    | none =>
      have hp : 32 ≤ p.val ∧ p.val ≤ 126 := by simpa [StrUnit.Written, hs] using h
      simp only [escapeUnit, hs, List.mem_singleton, forall_eq]
      omega

theorem escape_ascii (s : Text) : ∀ p ∈ escape s, p.val < 128 := by
  intro p hp
  obtain ⟨u, hu, hp⟩ := List.mem_flatMap.1 hp
  obtain ⟨q, -, hu⟩ := List.mem_flatMap.1 hu
  exact escapeUnit_ascii (written_of_mem hu) p hp

/-! ## Surrogates -/

theorem castLE_ofNat {p : CodePoint} (h : p.val < 0x10000) : (Fin.ofNat 0x10000 p.val).castLE (by decide) = p :=
  Fin.ext (Nat.mod_eq_of_lt h)

theorem unitsOf_surrogate {p : CodePoint} (h : IsHigh p ∨ IsLow p) : unitsOf p = [.esc (Fin.ofNat 0x10000 p.val)] := by
  have hs : 0xD800 ≤ p.val ∧ p.val ≤ 0xDFFF := by
    simp only [IsHigh, IsLow] at h
    omega
  have hnone : shortEscape? p = none := by
    unfold shortEscape?
    split
    on_goal 8 => rfl
    all_goals omega
  rw [unitsOf, hnone, if_neg (by simp; omega), if_pos (by omega)]

theorem joinUnits_of_not_high {n : Fin 0x10000} (h : ¬ IsHigh n) (us : List StrUnit) :
    joinUnits (.esc n :: us) = n.castLE (by decide) :: joinUnits us := by
  cases us with
  | nil => rfl
  | cons u us =>
    cases u with
    | raw p => rfl
    | esc m => rw [joinUnits, if_neg fun hm => h hm.1]

/-- what does not begin with an escaped low surrogate is not joined with what stands before it -/
theorem joinUnits_of_not_low (n : Fin 0x10000) {us : List StrUnit} (h : ∀ m us', us = .esc m :: us' → ¬ IsLow m) :
    joinUnits (.esc n :: us) = n.castLE (by decide) :: joinUnits us := by
  cases us with
  | nil => rfl
  | cons u us =>
    cases u with
    | raw p => rfl
    | esc m => rw [joinUnits, if_neg fun hm => h m us rfl hm.2]

theorem head_unitsOf {q : CodePoint} (h : ¬ IsLow q) (us : List StrUnit) :
    ∀ m us', unitsOf q ++ us = .esc m :: us' → ¬ IsLow m := by
  intro m us' he
  have hq := q.isLt
  unfold unitsOf at he
  split_ifs at he with h1 h2
  · cases he
  · rw [List.cons_append, List.cons.injEq, StrUnit.esc.injEq] at he
    rw [← he.1, Fin.val_ofNat, Nat.mod_eq_of_lt h2]
    exact h
  · rw [List.cons_append, List.cons.injEq, StrUnit.esc.injEq] at he
    rw [← he.1, Fin.val_ofNat, IsLow]
    omega

theorem joinUnits_unitsOf {p : CodePoint} (h : ¬ IsHigh p) (us : List StrUnit) :
    joinUnits (unitsOf p ++ us) = p :: joinUnits us := by
  have hp := p.isLt
  unfold unitsOf
  split_ifs with h1 h2
  · rfl
  · rw [List.cons_append, List.nil_append, joinUnits_of_not_high, castLE_ofNat h2]
    rwa [Fin.val_ofNat, Nat.mod_eq_of_lt h2]
  · -- the two halves of a code point past U+FFFF
    have hhigh : (Fin.ofNat 0x10000 (0xD800 + (p.val - 0x10000) / 0x400)).val = 0xD800 + (p.val - 0x10000) / 0x400 :=
      Nat.mod_eq_of_lt (by omega)
    have hlow : (Fin.ofNat 0x10000 (0xDC00 + (p.val - 0x10000) % 0x400)).val = 0xDC00 + (p.val - 0x10000) % 0x400 :=
      Nat.mod_eq_of_lt (by omega)
    rw [List.cons_append, List.cons_append, List.nil_append, joinUnits, hhigh, hlow,
      if_pos ⟨⟨by omega, by omega⟩, by omega, by omega⟩, List.cons.injEq]
    refine ⟨Fin.ext ?_, rfl⟩
    rw [join, Fin.val_ofNat]
    omega

theorem joinUnits_flatMap (s : Text) : joinUnits (s.flatMap unitsOf) = normalize s := by
  have hsingle : ∀ {p : CodePoint}, IsHigh p → ∀ us, unitsOf p ++ us = .esc (Fin.ofNat 0x10000 p.val) :: us := by
    intro p hp us
    rw [unitsOf_surrogate (Or.inl hp)]
    rfl
  have hval : ∀ {p : CodePoint}, IsHigh p ∨ IsLow p → (Fin.ofNat 0x10000 p.val).val = p.val := by
    intro p hp
    simp only [IsHigh, IsLow] at hp
    exact Nat.mod_eq_of_lt (by omega)
  have hcast : ∀ {p : CodePoint}, IsHigh p → (Fin.ofNat 0x10000 p.val).castLE (by decide) = p := by
    intro p hp
    simp only [IsHigh] at hp
    exact castLE_ofNat (by omega)
  induction s using normalize.induct with
  | case1 => rfl
  | case2 p =>
    by_cases hp : IsHigh p
    · rw [List.flatMap_cons, hsingle hp, List.flatMap_nil, joinUnits_of_not_low _ (by simp), hcast hp]
      rfl
    · rw [List.flatMap_cons, joinUnits_unitsOf hp]
      rfl
  | case3 p q t hpq ih =>
    rw [List.flatMap_cons, List.flatMap_cons, hsingle hpq.1, unitsOf_surrogate (Or.inr hpq.2), List.cons_append,
      List.nil_append, joinUnits, hval (Or.inl hpq.1), hval (Or.inr hpq.2), if_pos hpq, ih, normalize, if_pos hpq]
  | case4 p q t hpq ih =>
    rw [normalize, if_neg hpq, ← ih, List.flatMap_cons]
    by_cases hp : IsHigh p
    · have hq : ¬ IsLow q := fun hq => hpq ⟨hp, hq⟩
      rw [hsingle hp, joinUnits_of_not_low, hcast hp]
      rw [List.flatMap_cons]
      exact head_unitsOf hq _
    · rw [joinUnits_unitsOf hp]

/-- **Reading a written literal** gives the normalised string. -/
theorem scanString_escape (s rest : Text) :
    scanString (escape s ++ ofChar '"' :: rest) = some (normalize s, rest) := by
  have hw : ∀ u ∈ s.flatMap unitsOf, u.Written := by
    intro u hu
    obtain ⟨p, -, hp⟩ := List.mem_flatMap.1 hu
    exact written_of_mem hp
  rw [scanString, escape, scanUnits_escape hw, Option.map_some, joinUnits_flatMap]

theorem join_ne {p q : CodePoint} (h : IsHigh p) (h' : IsLow q) : join p q ≠ p := by
  intro he
  have hv : (join p q).val = p.val := congrArg Fin.val he
  simp only [IsHigh, IsLow] at h h'
  rw [join, Fin.val_ofNat, Nat.mod_eq_of_lt (by omega)] at hv
  omega

theorem normalize_eq_self_iff {s : Text} : normalize s = s ↔ Unpaired s := by
  induction s using normalize.induct with
  | case1 => exact iff_of_true rfl .nil
  | case2 p => exact iff_of_true rfl (.singleton p)
  | case3 p q t hpq ih =>
    rw [normalize, if_pos hpq]
    refine iff_of_false (fun he => ?_) fun hu => ?_
    · exact join_ne hpq.1 hpq.2 (List.cons.inj he).1
    · exact (List.isChain_cons_cons.1 hu).1 hpq
  | case4 p q t hpq ih =>
    rw [normalize, if_neg hpq, List.cons.injEq, ih, Unpaired, Unpaired, List.isChain_cons_cons]
    exact ⟨fun h => ⟨hpq, h.2⟩, fun h => ⟨rfl, h.2⟩⟩

theorem unpaired_ofString (s : String) : Unpaired (Text.ofString s) := by
  have hall : ∀ p ∈ Text.ofString s, ¬ IsHigh p := by
    intro p hp hh
    obtain ⟨c, -, rfl⟩ := List.mem_map.1 hp
    refine not_isSurrogate_ofChar c ⟨hh.1, ?_⟩
    have := hh.2
    omega
  generalize Text.ofString s = t at hall
  induction t with
  | nil => exact .nil
  | cons p t ih =>
    cases t with
    | nil => exact .singleton p
    | cons q t =>
      refine List.isChain_cons_cons.2 ⟨fun h => hall p List.mem_cons_self h.1, ih fun r hr => ?_⟩
      exact hall r (List.mem_cons_of_mem _ hr)

end Json

end AbirGuard.Core
