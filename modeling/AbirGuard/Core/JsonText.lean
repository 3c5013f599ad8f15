/-
Texts of JSON values, however they are written.

A text reads as a value if the reader takes just it from the front of every text that goes on with no part of a number. Such
texts are put together as values are, so a writer is right if its pieces are.

- `reads_str`, `reads_arr`, `reads_obj`: texts of strings, arrays and objects, from those of their parts.
- `loads_of_reads`: what such a text is read as.
- `stringify`: the writer of JavaScript, without spaces and with characters as they are; only control characters and single
  surrogates are escaped.
- `loads_stringify`: what it writes is read back; `encode_stringify`: and it has an encoding.
-/
import AbirGuard.Core.Json

namespace AbirGuard.Core.Json

open CodePoint

variable {F : Type} {T : FloatText F}

/-! ## Pieces -/

/-- the text of a string after its opening quote, closing quote included -/
def Literal (t s : Text) : Prop := ∀ rest, scanString (t ++ rest) = some (s, rest)

variable (T) in
structure Reads (t : Text) (v : Json F) : Prop where
  starts : Starts t
  scan : ∀ fuel rest, 2 * t.length ≤ fuel → Stops rest → scanValue T fuel (t ++ rest) = some (v, rest)

/-- the items after the first, and the closing bracket -/
def tailText (close : CodePoint) : List Text → Text
  | [] => [close]
  | t :: l => ofChar ',' :: (t ++ tailText close l)

def listText (left right : CodePoint) : List Text → Text
  | [] => [left, right]
  | t :: l => left :: (t ++ tailText right l)

/-- the text of a key is that of a string -/
def memberText (m : Text × Text) : Text := ofChar '"' :: (m.1 ++ ofChar ':' :: m.2)

theorem Reads.of_pos {t : Text} {v : Json F} (hstarts : Starts t)
    (h : ∀ fuel rest, 2 * t.length ≤ fuel + 1 → Stops rest → scanValue T (fuel + 1) (t ++ rest) = some (v, rest)) :
    Reads T t v where
  starts := hstarts
  scan fuel rest hfuel hrest := by
    obtain ⟨p, u, rfl, -⟩ := hstarts
    obtain ⟨fuel, rfl⟩ := Nat.exists_eq_add_one_of_ne_zero (n := fuel) (by rw [List.length_cons] at hfuel; omega)
    exact h fuel rest hfuel hrest

/-- a written number is read as a number -/
theorem reads_number {n : NumToken} (hn : n.Valid) : Reads T n.text (ofNumber T n) :=
  .of_pos (starts_text hn) fun fuel _ _ hrest => scanValue_number hn fuel hrest

theorem reads_str {t s : Text} (h : Literal t s) : Reads T (ofChar '"' :: t) (.str s) :=
  .of_pos (starts_cons (by decide)) fun fuel rest _ _ => by
    rw [List.cons_append, scanValue, if_pos rfl, h rest, Option.map_some]

theorem stops_tailText {close : CodePoint} (h : Stops [close]) (l : List Text) (rest : Text) :
    Stops (tailText close l ++ rest) := by
  cases l with
  | nil =>
    obtain ⟨h0, h1, h2, h3⟩ := h close [] rfl
    exact stops_cons h0 h1 h2 h3
  | cons t l => exact stops_comma _

theorem stops_bracket : Stops [ofChar ']'] := stops_cons (by decide) (by decide) (by decide) (by decide)

theorem stops_brace : Stops [ofChar '\x7d'] := stops_cons (by decide) (by decide) (by decide) (by decide)

theorem scanNext_last {close : CodePoint} (h : isSpace close = false) (hc : close ≠ ofChar ',') (rest : Text) :
    scanNext close (tailText close [] ++ rest) = some (false, rest) := by
  rw [tailText, List.singleton_append, scanNext, skipSpace_cons h]
  simp only [if_neg hc, if_true]

theorem scanNext_more (close : CodePoint) {t : Text} (h : Starts t) (l : List Text) (rest : Text) :
    scanNext close (tailText close (t :: l) ++ rest) = some (true, t ++ (tailText close l ++ rest)) := by
  rw [tailText, List.cons_append, List.append_assoc, scanNext, skipSpace_cons (by decide)]
  simp only [if_true]
  rw [skipSpace_starts (starts_append h _)]

/-! ### Arrays -/

theorem scanItems_texts {l : List Text} {vs : List (Json F)} (h : List.Forall₂ (Reads T) l vs) {t : Text} {v : Json F}
    (ht : Reads T t v) {fuel : ℕ} {rest : Text} (hfuel : 2 * (t ++ tailText (ofChar ']') l).length ≤ fuel) :
    scanItems T fuel (t ++ (tailText (ofChar ']') l ++ rest)) = some (v :: vs, rest) := by
  induction h generalizing t v fuel with
  | nil =>
    rw [tailText, List.length_append, List.length_singleton] at hfuel
    obtain ⟨fuel, rfl⟩ := Nat.exists_eq_add_one_of_ne_zero (by omega : fuel ≠ 0)
    rw [scanItems_cons (ht.scan _ _ (by omega) (stops_tailText stops_bracket _ _))
      (scanNext_last (by decide) (by decide) rest)]
    rfl
  | @cons u w l vs hu hl ih =>
    rw [tailText, List.length_append, List.length_cons, List.length_append] at hfuel
    obtain ⟨fuel, rfl⟩ := Nat.exists_eq_add_one_of_ne_zero (by omega : fuel ≠ 0)
    have hrest : scanItems T fuel (u ++ (tailText (ofChar ']') l ++ rest)) = some (w :: vs, rest) :=
      ih hu (by rw [List.length_append]; omega)
    rw [scanItems_cons (ht.scan _ _ (by omega) (stops_tailText stops_bracket _ _)) (scanNext_more _ hu.starts l rest),
      if_pos rfl, hrest, Option.map_some]

theorem reads_arr {l : List Text} {vs : List (Json F)} (h : List.Forall₂ (Reads T) l vs) :
    Reads T (listText (ofChar '[') (ofChar ']') l) (.arr vs) := by
  cases h with
  | nil => exact .of_pos (starts_cons (by decide)) fun _ _ _ _ => rfl
  | @cons t v l vs ht hl =>
    refine .of_pos (starts_cons (by decide)) fun fuel rest hfuel _ => ?_
    rw [listText, List.length_cons] at hfuel
    rw [listText, List.cons_append, List.append_assoc, scanValue, if_neg (by decide), if_pos rfl,
      skipSpace_starts (starts_append ht.starts _), if_neg (head?_starts (starts_append ht.starts _)),
      scanItems_texts hl ht (by omega), Option.map_some]

/-! ### Objects -/

/-- the text of a key and that of its value -/
def ReadsMember (T : FloatText F) (m : Text × Text) (e : Text × Json F) : Prop := Literal m.1 e.1 ∧ Reads T m.2 e.2

theorem scanKey_memberText {m : Text × Text} {e : Text × Json F} (h : ReadsMember T m e) (rest : Text) :
    scanKey (memberText m ++ rest) = some (e.1, m.2 ++ rest) := by
  rw [memberText, List.cons_append, List.append_assoc, scanKey, if_pos rfl, h.1, Option.bind_some, List.cons_append,
    skipSpace_cons (by decide)]
  simp only [if_true]
  rw [skipSpace_starts (starts_append h.2.starts rest)]

theorem starts_memberText (m : Text × Text) : Starts (memberText m) := starts_cons (by decide)

theorem scanMembers_texts {l : List (Text × Text)} {es : List (Text × Json F)} (h : List.Forall₂ (ReadsMember T) l es)
    {m : Text × Text} {e : Text × Json F} (hm : ReadsMember T m e) {fuel : ℕ} {rest : Text}
    (hfuel : 2 * (memberText m ++ tailText (ofChar '\x7d') (l.map memberText)).length ≤ fuel) :
    scanMembers T fuel (memberText m ++ (tailText (ofChar '\x7d') (l.map memberText) ++ rest)) = some (e :: es, rest) := by
  have hlength : ∀ m : Text × Text, m.2.length + 2 ≤ (memberText m).length := by
    intro m
    rw [memberText, List.length_cons, List.length_append, List.length_cons]
    omega
  have hm' := hlength m
  induction h generalizing m e fuel with
  | nil =>
    rw [List.map_nil, tailText, List.length_append, List.length_singleton] at hfuel
    obtain ⟨fuel, rfl⟩ := Nat.exists_eq_add_one_of_ne_zero (by omega : fuel ≠ 0)
    rw [scanMembers, scanKey_memberText hm, Option.bind_some, List.map_nil,
      hm.2.scan _ _ (by omega) (stops_tailText stops_brace _ _), Option.bind_some,
      scanNext_last (by decide) (by decide) rest]
    rfl
  | @cons m' e' l es hm₂ hl ih =>
    rw [List.map_cons, tailText, List.length_append, List.length_cons, List.length_append] at hfuel
    obtain ⟨fuel, rfl⟩ := Nat.exists_eq_add_one_of_ne_zero (by omega : fuel ≠ 0)
    have hrest : scanMembers T fuel (memberText m' ++ (tailText (ofChar '\x7d') (l.map memberText) ++ rest)) =
        some (e' :: es, rest) := ih hm₂ (by rw [List.length_append]; omega) (hlength m')
    rw [scanMembers, scanKey_memberText hm, Option.bind_some, List.map_cons,
      hm.2.scan _ _ (by omega) (stops_tailText stops_brace _ _), Option.bind_some,
      scanNext_more _ (starts_memberText m') _ rest, Option.bind_some, if_pos rfl, hrest, Option.map_some]

theorem reads_obj {l : List (Text × Text)} {es : List (Text × Json F)} (h : List.Forall₂ (ReadsMember T) l es) :
    Reads T (listText (ofChar '\x7b') (ofChar '\x7d') (l.map memberText)) (.obj (Table.setAll es)) := by
  cases h with
  | nil => exact .of_pos (starts_cons (by decide)) fun _ _ _ _ => rfl
  | @cons m e l es hm hl =>
    refine .of_pos (starts_cons (by decide)) fun fuel rest hfuel _ => ?_
    rw [List.map_cons, listText, List.length_cons] at hfuel
    rw [List.map_cons, listText, List.cons_append, List.append_assoc, scanValue, if_neg (by decide), if_neg (by decide),
      if_pos rfl, skipSpace_starts (starts_append (starts_memberText m) _), if_neg, scanMembers_texts hl hm (by omega),
      Option.map_some]
    exact fun he => absurd (Option.some.inj he) (by decide)

/-- **A text that reads as a value is read as it.** -/
theorem loads_of_reads {t : Text} {v : Json F} (h : Reads T t v) : loads T t = some v := by
  have hbom : t.head? ≠ some (0xFEFF : CodePoint) := by
    obtain ⟨p, u, rfl, -, -, hp⟩ := h.starts
    exact fun he => hp (Option.some.inj he)
  have hscan : scanValue T (2 * t.length + 2) (t ++ []) = some (v, []) :=
    h.scan _ _ (by omega) fun p u hu => by cases hu
  rw [List.append_nil] at hscan
  rw [loads, if_neg hbom, skipSpace_starts h.starts, hscan, Option.bind_some]
  rfl

/-! ## The writer of JavaScript -/

theorem neZero_units : NeZero 0x10000 := ⟨by decide⟩

/-- the piece that a code point is written as: control characters and surrogates are escaped -/
def unitOf (p : CodePoint) : StrUnit :=
  if (shortEscape? p).isNone ∧ (p.val < 32 ∨ p.IsSurrogate) then .esc (@Fin.ofNat 0x10000 neZero_units p.val) else .raw p

/-- what stands after the opening quote -/
def quoteTail (s : Text) : Text := (s.map unitOf).flatMap escapeUnit ++ [ofChar '"']

def quote (s : Text) : Text := ofChar '"' :: quoteTail s

variable (T) in
mutual

/-- `JSON.stringify` -/
def stringify : Json F → Text
  | .null => Text.ofString "null"
  | .bool true => Text.ofString "true"
  | .bool false => Text.ofString "false"
  | .int n => (NumToken.ofInt n).text
  | .float x => (T.token x).text
  | .str s => quote s
  | .arr l => listText (ofChar '[') (ofChar ']') (stringifyItems l)
  | .obj l => listText (ofChar '\x7b') (ofChar '\x7d') ((stringifyMembers l).map memberText)

def stringifyItems : List (Json F) → List Text
  | [] => []
  | v :: l => stringify v :: stringifyItems l

def stringifyMembers : List (Text × Json F) → List (Text × Text)
  | [] => []
  | (k, v) :: l => (quoteTail k, stringify v) :: stringifyMembers l

end

/-! ### Strings -/

theorem scanUnits_unitOf (p : CodePoint) (t : Text) :
    scanUnits (escapeUnit (unitOf p) ++ t) = (scanUnits t).map fun r => (unitOf p :: r.1, r.2) := by
  unfold unitOf
  split_ifs with h
  · exact scanUnits_escapeUnit (u := .esc _) trivial t
  · cases hs : shortEscape? p with
    | some e => exact scanUnits_escapeUnit (u := .raw p) (Or.inl (by rw [hs]; rfl)) t
    | none =>
      have hp : 32 ≤ p.val := by
        by_contra hlt
        exact h ⟨by rw [hs]; rfl, Or.inl (by omega)⟩
      have hquote : p ≠ ofChar '"' := by
        rintro rfl
        exact absurd hs (by decide)
      have hslash : p ≠ ofChar '\\' := by
        rintro rfl
        exact absurd hs (by decide)
      rw [escapeUnit, hs, List.singleton_append, scanUnits.eq_def]
      dsimp only
      rw [if_neg hquote, if_neg hslash, if_neg (Nat.not_lt.2 hp)]

theorem scanUnits_quoteTail (s rest : Text) : scanUnits (quoteTail s ++ rest) = some (s.map unitOf, rest) := by
  induction s with
  | nil => exact scanUnits_quote rest
  | cons p s ih =>
    rw [quoteTail, List.append_assoc] at ih
    rw [quoteTail, List.map_cons, List.flatMap_cons, List.append_assoc, List.append_assoc, scanUnits_unitOf, ih, Option.map_some]

theorem joinUnits_map {s : Text} (h : Unpaired s) : joinUnits (s.map unitOf) = s := by
  induction s with
  | nil => rfl
  | cons p s ih =>
    have htail := ih (List.IsChain.of_cons h)
    rw [List.map_cons]
    by_cases hesc : (shortEscape? p).isNone ∧ (p.val < 32 ∨ p.IsSurrogate)
    · have hsmall : p.val < 0x10000 := by
        rcases hesc.2 with hp | hp
        · omega
        · exact lt_of_le_of_lt hp.2 (by decide)
      rw [unitOf, if_pos hesc]
      by_cases hhigh : IsHigh p
      · -- the next code point is no low surrogate, or the two were a pair
        rw [joinUnits_of_not_low, castLE_ofNat hsmall, htail]
        intro m us hus hm
        cases s with
        | nil => cases hus
        | cons q s =>
          rw [List.map_cons, List.cons.injEq, unitOf] at hus
          split_ifs at hus with hq
          · have hqsmall : q.val < 0x10000 := by
              rcases hq.2 with hq | hq
              · omega
              · exact lt_of_le_of_lt hq.2 (by decide)
            rw [← StrUnit.esc.inj hus.1, Fin.val_ofNat, Nat.mod_eq_of_lt hqsmall] at hm
            exact (List.isChain_cons_cons.1 h).1 ⟨hhigh, hm⟩
          · cases hus.1
      · rw [joinUnits_of_not_high, castLE_ofNat hsmall, htail]
        rwa [Fin.val_ofNat, Nat.mod_eq_of_lt hsmall]
    · rw [unitOf, if_neg hesc, joinUnits, htail]

/-- a string without a split pair is read as it was -/
theorem literal_quoteTail {s : Text} (h : Unpaired s) : Literal (quoteTail s) s := by
  intro rest
  rw [scanString, scanUnits_quoteTail, Option.map_some, joinUnits_map h]

/-! ### Values -/

mutual

theorem reads_stringify (hT : T.Lawful) : ∀ v : Json F, Clean v → Reads T (stringify T v) v
  | .null, _ => .of_pos (starts_cons (by decide)) fun _ _ _ _ => rfl
  | .bool true, _ => .of_pos (starts_cons (by decide)) fun _ _ _ _ => rfl
  | .bool false, _ => .of_pos (starts_cons (by decide)) fun _ _ _ _ => rfl
  | .int n, _ => by
    have hint : ofNumber T (NumToken.ofInt n) = .int n := congrArg Json.int (NumToken.toInt_ofInt n)
    rw [stringify, ← hint]
    exact reads_number (NumToken.valid_ofInt n)
  | .float x, _ => by
    have hfloat : ofNumber T (T.token x) = .float x := by rw [ofNumber, if_pos (hT.isFloat x), hT.ofToken_token]
    have hreads : Reads T (T.token x).text (ofNumber T (T.token x)) := reads_number (hT.valid x)
    rw [hfloat] at hreads
    exact hreads
  | .str s, h => reads_str (literal_quoteTail h)
  | .arr l, h => reads_arr (reads_stringifyItems hT l h)
  | .obj l, h => by
    have hreads := reads_obj (reads_stringifyMembers hT l h.2)
    rw [Table.setAll_eq_self h.1] at hreads
    exact hreads

theorem reads_stringifyItems (hT : T.Lawful) : ∀ l : List (Json F), CleanItems l →
    List.Forall₂ (Reads T) (stringifyItems T l) l
  | [], _ => .nil
  | v :: l, h => .cons (reads_stringify hT v h.1) (reads_stringifyItems hT l h.2)

theorem reads_stringifyMembers (hT : T.Lawful) : ∀ l : List (Text × Json F), CleanMembers l →
    List.Forall₂ (ReadsMember T) (stringifyMembers T l) l
  | [], _ => .nil
  | (_, v) :: l, h => .cons ⟨literal_quoteTail h.1.1, reads_stringify hT v h.1.2⟩ (reads_stringifyMembers hT l h.2)

end

/-- **What is written is read back.** -/
theorem loads_stringify (hT : T.Lawful) {v : Json F} (h : Clean v) : loads T (stringify T v) = some v :=
  loads_of_reads (reads_stringify hT v h)

/-! ### Encoding -/

def NoSurrogate (t : Text) : Prop := ∀ p ∈ t, ¬ p.IsSurrogate

theorem noSurrogate_append {t u : Text} (ht : NoSurrogate t) (hu : NoSurrogate u) : NoSurrogate (t ++ u) := by
  intro p hp
  rcases List.mem_append.1 hp with hp | hp
  · exact ht p hp
  · exact hu p hp

theorem noSurrogate_cons {p : CodePoint} {t : Text} (hp : ¬ p.IsSurrogate) (ht : NoSurrogate t) : NoSurrogate (p :: t) :=
  List.forall_mem_cons.2 ⟨hp, ht⟩

theorem noSurrogate_of_ascii {t : Text} (h : ∀ p ∈ t, p.val < 128) : NoSurrogate t := by
  intro p hp hs
  have hlt := h p hp
  have hle := hs.1
  omega

theorem noSurrogate_quoteTail (s : Text) : NoSurrogate (quoteTail s) := by
  refine noSurrogate_append ?_ (noSurrogate_cons (by decide) fun p hp => by cases hp)
  intro q hq
  obtain ⟨u, hu, hq⟩ := List.mem_flatMap.1 hq
  obtain ⟨p, -, rfl⟩ := List.mem_map.1 hu
  unfold unitOf at hq
  split_ifs at hq with h
  · exact noSurrogate_of_ascii (escapeUnit_ascii (u := .esc _) trivial) q hq
  · cases hs : shortEscape? p with
    | some e => exact noSurrogate_of_ascii (escapeUnit_ascii (u := .raw p) (Or.inl (by rw [hs]; rfl))) q hq
    | none =>
      rw [escapeUnit, hs, List.mem_singleton] at hq
      rw [hq]
      exact fun hp => h ⟨by rw [hs]; rfl, Or.inr hp⟩

theorem noSurrogate_tailText {close : CodePoint} (hc : ¬ close.IsSurrogate) {l : List Text} (h : ∀ t ∈ l, NoSurrogate t) :
    NoSurrogate (tailText close l) := by
  induction l with
  | nil => exact noSurrogate_cons hc fun p hp => by cases hp
  | cons t l ih =>
    rw [List.forall_mem_cons] at h
    exact noSurrogate_cons (by decide) (noSurrogate_append h.1 (ih h.2))

theorem noSurrogate_listText {left right : CodePoint} (hl : ¬ left.IsSurrogate) (hr : ¬ right.IsSurrogate) {l : List Text}
    (h : ∀ t ∈ l, NoSurrogate t) : NoSurrogate (listText left right l) := by
  cases l with
  | nil => exact noSurrogate_cons hl (noSurrogate_cons hr fun p hp => by cases hp)
  | cons t l =>
    rw [List.forall_mem_cons] at h
    exact noSurrogate_cons hl (noSurrogate_append h.1 (noSurrogate_tailText hr h.2))

mutual

theorem noSurrogate_stringify : ∀ v : Json F, NoSurrogate (stringify T v)
  | .null => noSurrogate_of_ascii ascii_words.1
  | .bool true => noSurrogate_of_ascii ascii_words.2.1
  | .bool false => noSurrogate_of_ascii ascii_words.2.2
  | .int n => noSurrogate_of_ascii (text_ascii _)
  | .float x => noSurrogate_of_ascii (text_ascii _)
  | .str s => noSurrogate_cons (by decide) (noSurrogate_quoteTail s)
  | .arr l => noSurrogate_listText (by decide) (by decide) (noSurrogate_stringifyItems l)
  | .obj l => noSurrogate_listText (by decide) (by decide) (noSurrogate_stringifyMembers l)

theorem noSurrogate_stringifyItems : ∀ l : List (Json F), ∀ t ∈ stringifyItems T l, NoSurrogate t
  | [] => fun t ht => by cases ht
  | v :: l => List.forall_mem_cons.2 ⟨noSurrogate_stringify v, noSurrogate_stringifyItems l⟩

theorem noSurrogate_stringifyMembers : ∀ l : List (Text × Json F), ∀ t ∈ (stringifyMembers T l).map memberText, NoSurrogate t
  | [] => fun t ht => by cases ht
  | (k, v) :: l => List.forall_mem_cons.2
    ⟨noSurrogate_cons (by decide) (noSurrogate_append (noSurrogate_quoteTail k)
      (noSurrogate_cons (by decide) (noSurrogate_stringify v))), noSurrogate_stringifyMembers l⟩

end

theorem encode_stringify (v : Json F) : ∃ b, (stringify T v).encode = some b :=
  Option.isSome_iff_exists.1 (Text.encode_isSome_iff.2 (noSurrogate_stringify v))

end AbirGuard.Core.Json
