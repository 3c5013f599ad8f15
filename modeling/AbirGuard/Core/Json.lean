/-
JSON values, their text and its reader.

Floats are of an arbitrary type; `FloatText` says how one is written as a number and what a number means, and
`FloatText.Lawful` that writing and reading a float gives it back. NaN and the infinities, which some readers accept, are no
JSON and are not read.

- `loads_dumps`: reading what was written gives the value with its strings normalised and its keys set one after another.
- `normal_eq_self_iff`: exactly the values in which no key repeats and no high surrogate stands directly before a low one come
  back unchanged (`Clean`).

- `perm_of_dumpsSorted_eq`: with sorted keys, the text of an object of such strings determines its members.
- `same_obj_iff`: two objects are the same up to the order of their keys (`Same`) if and only if they have the same value under
  every key; `same_arr_iff` is for arrays.
- `same_of_dumpsSorted_eq`: with sorted keys, the text of such a value determines it up to the order of keys.

The text may be written on one line, or indented; it is ASCII (`encode_dumps`).
-/
import AbirGuard.Core.JsonNumber
import AbirGuard.Core.JsonString
import AbirGuard.Core.Table

namespace AbirGuard.Core

inductive Json (F : Type) where
  | null
  | bool (b : Bool)
  | int (n : ℤ)
  | float (x : F)
  | str (t : Text)
  | arr (l : List (Json F))
  | obj (l : List (Text × Json F))

/-- how a float is written, and what a number with a fraction or an exponent means -/
structure FloatText (F : Type) where
  token : F → Json.NumToken
  ofToken : Json.NumToken → F

structure FloatText.Lawful {F : Type} (T : FloatText F) : Prop where
  valid : ∀ x, (T.token x).Valid
  isFloat : ∀ x, (T.token x).frac.isSome ∨ (T.token x).exp.isSome
  ofToken_token : ∀ x, T.ofToken (T.token x) = x

namespace Json

open CodePoint

variable {F : Type}

section

variable (T : FloatText F) (indent : Option ℕ)

/-! ## Writing -/

/-- the line break before an item at a level; nothing on one line -/
def newline (level : ℕ) : Text :=
  match indent with
  | some k => ofChar '\n' :: List.replicate (k * level) (ofChar ' ')
  | none => []

/-- what follows the comma between two items -/
def gap (level : ℕ) : Text :=
  match indent with
  | some _ => newline indent level
  | none => [ofChar ' ']

def writeKey (k : Text) : Text := ofChar '"' :: (escape k ++ [ofChar '"', ofChar ':', ofChar ' '])

mutual

def write : Json F → ℕ → Text
  | .null, _ => Text.ofString "null"
  | .bool true, _ => Text.ofString "true"
  | .bool false, _ => Text.ofString "false"
  | .int n, _ => (NumToken.ofInt n).text
  | .float x, _ => (T.token x).text
  | .str s, _ => ofChar '"' :: (escape s ++ [ofChar '"'])
  | .arr [], _ => Text.ofString "[]"
  | .arr (v :: l), level =>
    ofChar '[' :: (newline indent (level + 1) ++ (write v (level + 1) ++ writeItems l (level + 1) (newline indent level)))
  | .obj [], _ => [ofChar '\x7b', ofChar '\x7d']
  | .obj ((k, v) :: l), level =>
    ofChar '\x7b' :: (newline indent (level + 1) ++ (writeKey k ++ (write v (level + 1) ++
      writeMembers l (level + 1) (newline indent level))))

/-- the items after the first, and the closing bracket on its own line -/
def writeItems : List (Json F) → ℕ → Text → Text
  | [], _, close => close ++ [ofChar ']']
  | v :: l, level, close => ofChar ',' :: (gap indent level ++ (write v level ++ writeItems l level close))

def writeMembers : List (Text × Json F) → ℕ → Text → Text
  | [], _, close => close ++ [ofChar '\x7d']
  | (k, v) :: l, level, close =>
    ofChar ',' :: (gap indent level ++ (writeKey k ++ (write v level ++ writeMembers l level close)))

end

/-- `json.dumps` -/
def dumps (v : Json F) : Text := write T indent v 0

mutual

/-- the keys of every object in order -/
def sortKeys : Json F → Json F
  | .arr l => .arr (sortItems l)
  | .obj l => .obj ((sortMembers l).mergeSort fun e e' => decide (e.1 ≤ e'.1))
  | v => v

def sortItems : List (Json F) → List (Json F)
  | [] => []
  | v :: l => sortKeys v :: sortItems l

def sortMembers : List (Text × Json F) → List (Text × Json F)
  | [] => []
  | (k, v) :: l => (k, sortKeys v) :: sortMembers l

end

/-- `json.dumps(v, sort_keys=True)` -/
def dumpsSorted (v : Json F) : Text := dumps T indent (sortKeys v)

/-! ## Reading -/

def isSpace (p : CodePoint) : Bool := p = ofChar ' ' ∨ p = ofChar '\t' ∨ p = ofChar '\n' ∨ p = ofChar '\r'

def skipSpace (t : Text) : Text := t.dropWhile isSpace

/-- the three words -/
def scanWord (t : Text) : Option (Json F × Text) :=
  if (Text.ofString "null").isPrefixOf t then some (.null, t.drop 4)
  else if (Text.ofString "true").isPrefixOf t then some (.bool true, t.drop 4)
  else if (Text.ofString "false").isPrefixOf t then some (.bool false, t.drop 5)
  else none

def ofNumber (n : NumToken) : Json F := if n.frac.isSome ∨ n.exp.isSome then .float (T.ofToken n) else .int n.toInt

/-- after an item: a comma (true) or the closing bracket, and the text from the next item on -/
def scanNext (close : CodePoint) (t : Text) : Option (Bool × Text) :=
  match skipSpace t with
  | [] => none
  | p :: t => if p = ofChar ',' then some (true, skipSpace t) else if p = close then some (false, t) else none

/-- a key and the colon after it -/
def scanKey : Text → Option (Text × Text)
  | [] => none
  | p :: t =>
    if p = ofChar '"' then
      (scanString t).bind fun k =>
        match skipSpace k.2 with
        | [] => none
        | q :: t => if q = ofChar ':' then some (k.1, skipSpace t) else none
    else none

mutual

/-- the value at the start of a text -/
def scanValue : ℕ → Text → Option (Json F × Text)
  | 0, _ => none
  | _, [] => none
  | fuel + 1, p :: t =>
    if p = ofChar '"' then (scanString t).map fun r => (.str r.1, r.2)
    else if p = ofChar '[' then
      if (skipSpace t).head? = some (ofChar ']') then some (.arr [], (skipSpace t).tail)
      else (scanItems fuel (skipSpace t)).map fun r => (.arr r.1, r.2)
    else if p = ofChar '\x7b' then
      if (skipSpace t).head? = some (ofChar '\x7d') then some (.obj [], (skipSpace t).tail)
      else (scanMembers fuel (skipSpace t)).map fun r => (.obj (Table.setAll r.1), r.2)
    else (scanWord (p :: t)).or ((scanNumber (p :: t)).map fun r => (ofNumber T r.1, r.2))

def scanItems : ℕ → Text → Option (List (Json F) × Text)
  | 0, _ => none
  | fuel + 1, t =>
    (scanValue fuel t).bind fun v => (scanNext (ofChar ']') v.2).bind fun s =>
      if s.1 then (scanItems fuel s.2).map fun r => (v.1 :: r.1, r.2) else some ([v.1], s.2)

def scanMembers : ℕ → Text → Option (List (Text × Json F) × Text)
  | 0, _ => none
  | fuel + 1, t =>
    (scanKey t).bind fun k => (scanValue fuel k.2).bind fun v => (scanNext (ofChar '\x7d') v.2).bind fun s =>
      if s.1 then (scanMembers fuel s.2).map fun r => ((k.1, v.1) :: r.1, r.2) else some ([(k.1, v.1)], s.2)

end

/-- `json.loads`; a byte order mark is refused. Every value and every separator takes a character. -/
def loads (t : Text) : Option (Json F) :=
  if t.head? = some (0xFEFF : CodePoint) then none
  else (scanValue T (2 * t.length + 2) (skipSpace t)).bind fun r => if skipSpace r.2 = [] then some r.1 else none

end

/-! ## What comes back -/

mutual

/-- strings normalised, keys set one after another -/
def normal : Json F → Json F
  | .null => .null
  | .bool b => .bool b
  | .int n => .int n
  | .float x => .float x
  | .str s => .str (normalize s)
  | .arr l => .arr (normalItems l)
  | .obj l => .obj (Table.setAll (normalMembers l))

def normalItems : List (Json F) → List (Json F)
  | [] => []
  | v :: l => normal v :: normalItems l

def normalMembers : List (Text × Json F) → List (Text × Json F)
  | [] => []
  | (k, v) :: l => (normalize k, normal v) :: normalMembers l

end

mutual

/-- no key repeats, and no string has a high surrogate directly before a low one -/
def Clean : Json F → Prop
  | .null => True
  | .bool _ => True
  | .int _ => True
  | .float _ => True
  | .str s => Unpaired s
  | .arr l => CleanItems l
  | .obj l => Table.Unique l ∧ CleanMembers l

def CleanItems : List (Json F) → Prop
  | [] => True
  | v :: l => Clean v ∧ CleanItems l

def CleanMembers : List (Text × Json F) → Prop
  | [] => True
  | (k, v) :: l => (Unpaired k ∧ Clean v) ∧ CleanMembers l

end

theorem length_normalMembers (l : List (Text × Json F)) : (normalMembers l).length = l.length := by
  induction l with
  | nil => rfl
  | cons e l ih =>
    obtain ⟨k, v⟩ := e
    rw [normalMembers, List.length_cons, List.length_cons, ih]

mutual

theorem normal_eq_self_iff : ∀ v : Json F, normal v = v ↔ Clean v
  | .null => iff_of_true rfl trivial
  | .bool _ => iff_of_true rfl trivial
  | .int _ => iff_of_true rfl trivial
  | .float _ => iff_of_true rfl trivial
  | .str s => by rw [normal, Clean, Json.str.injEq, normalize_eq_self_iff]
  | .arr l => by rw [normal, Clean, Json.arr.injEq, normalItems_eq_self_iff l]
  | .obj l => by
    rw [normal, Clean, Json.obj.injEq]
    have hmem := normalMembers_eq_self_iff l
    constructor
    · intro h
      have hlen : (Table.setAll (normalMembers l)).length = (normalMembers l).length := by
        rw [h, length_normalMembers]
      have hself : normalMembers l = l := (Table.setAll_eq_self_of_length hlen).symm.trans h
      have huniq : Table.Unique l := by
        rw [← h]
        exact Table.unique_setAll _
      exact ⟨huniq, hmem.1 hself⟩
    · rintro ⟨huniq, hclean⟩
      rw [hmem.2 hclean, Table.setAll_eq_self huniq]

theorem normalItems_eq_self_iff : ∀ l : List (Json F), normalItems l = l ↔ CleanItems l
  | [] => iff_of_true rfl trivial
  | v :: l => by
    rw [normalItems, CleanItems, List.cons.injEq, normal_eq_self_iff v, normalItems_eq_self_iff l]

theorem normalMembers_eq_self_iff : ∀ l : List (Text × Json F), normalMembers l = l ↔ CleanMembers l
  | [] => iff_of_true rfl trivial
  | (k, v) :: l => by
    rw [normalMembers, CleanMembers, List.cons.injEq, Prod.mk.injEq, normalize_eq_self_iff, normal_eq_self_iff v,
      normalMembers_eq_self_iff l]

end

/-! ## Reading what was written -/

variable {T : FloatText F} {indent : Option ℕ}

/-- a character that no number continues with and no value begins with -/
theorem stops_cons {p : CodePoint} {t : Text} (h : digit? p = none) (h1 : p ≠ ofChar '.') (h2 : p ≠ ofChar 'e')
    (h3 : p ≠ ofChar 'E') : Stops (p :: t) := by
  intro q t' hq
  cases hq
  exact ⟨h, h1, h2, h3⟩

theorem stops_newline (level : ℕ) {close : CodePoint} (h : Stops [close]) (rest : Text) :
    Stops (newline indent level ++ [close] ++ rest) := by
  cases indent with
  | some k => exact stops_cons (by decide) (by decide) (by decide) (by decide)
  | none =>
    obtain ⟨h0, h1, h2, h3⟩ := h close [] rfl
    exact stops_cons h0 h1 h2 h3

theorem stops_comma (t : Text) : Stops (ofChar ',' :: t) := stops_cons (by decide) (by decide) (by decide) (by decide)

theorem stops_writeItems (l : List (Json F)) (level level' : ℕ) (rest : Text) :
    Stops (writeItems T indent l level (newline indent level') ++ rest) := by
  cases l with
  | nil => exact stops_newline level' (stops_cons (by decide) (by decide) (by decide) (by decide)) rest
  | cons v l => exact stops_comma _

theorem stops_writeMembers (l : List (Text × Json F)) (level level' : ℕ) (rest : Text) :
    Stops (writeMembers T indent l level (newline indent level') ++ rest) := by
  cases l with
  | nil => exact stops_newline level' (stops_cons (by decide) (by decide) (by decide) (by decide)) rest
  | cons e l => exact stops_comma _

theorem skipSpace_append {w : Text} (h : ∀ p ∈ w, isSpace p = true) (t : Text) : skipSpace (w ++ t) = skipSpace t :=
  List.dropWhile_append_of_pos h

theorem skipSpace_newline (level : ℕ) (t : Text) : skipSpace (newline indent level ++ t) = skipSpace t := by
  refine skipSpace_append (fun p hp => ?_) t
  cases indent with
  | none => cases hp
  | some k =>
    rcases List.mem_cons.1 hp with rfl | hp
    · decide
    · rw [List.eq_of_mem_replicate hp]
      decide

theorem skipSpace_blank (t : Text) : skipSpace (ofChar ' ' :: t) = skipSpace t :=
  List.dropWhile_cons_of_pos (by decide)

theorem skipSpace_gap (level : ℕ) (t : Text) : skipSpace (gap indent level ++ t) = skipSpace t := by
  cases indent with
  | none => exact skipSpace_blank t
  | some k =>
    have h : skipSpace (newline (some k) level ++ t) = skipSpace t := skipSpace_newline level t
    exact h

theorem skipSpace_cons {p : CodePoint} (h : isSpace p = false) (t : Text) : skipSpace (p :: t) = p :: t :=
  List.dropWhile_cons_of_neg (by rw [h]; exact Bool.false_ne_true)

/-- the first character of a written value -/
def Starts (t : Text) : Prop := ∃ p t', t = p :: t' ∧ isSpace p = false ∧ p ≠ ofChar ']' ∧ p ≠ (0xFEFF : CodePoint)

theorem starts_cons {p : CodePoint} {t : Text} (h : isSpace p = false ∧ p ≠ ofChar ']' ∧ p ≠ (0xFEFF : CodePoint)) :
    Starts (p :: t) := ⟨p, t, rfl, h⟩

theorem starts_append {t : Text} (h : Starts t) (rest : Text) : Starts (t ++ rest) := by
  obtain ⟨p, t', rfl, hp⟩ := h
  exact ⟨p, t' ++ rest, rfl, hp⟩

theorem skipSpace_starts {t : Text} (h : Starts t) : skipSpace t = t := by
  obtain ⟨p, t', rfl, hp, -⟩ := h
  exact skipSpace_cons hp t'

/-- the first character of a written number -/
theorem text_head {n : NumToken} (hn : n.Valid) : ∃ p t, n.text = p :: t ∧ (p = ofChar '-' ∨ ∃ d, p = digitPoint d) := by
  have hint : ∃ d ds, n.int = d :: ds := by
    rcases hn.int with hi | ⟨d, ds, hi, -⟩
    · exact ⟨0, [], hi⟩
    · exact ⟨d, ds, hi⟩
  obtain ⟨d, ds, hi⟩ := hint
  cases hneg : n.neg with
  | true =>
    refine ⟨ofChar '-', digits n.int ++ fracText n.frac ++ expText n.exp, ?_, Or.inl rfl⟩
    rw [NumToken.text, hneg]
    rfl
  | false =>
    refine ⟨digitPoint d, digits ds ++ fracText n.frac ++ expText n.exp, ?_, Or.inr ⟨d, rfl⟩⟩
    rw [NumToken.text, hneg, hi]
    rfl

theorem digitPoint_starts (d : Fin 10) :
    isSpace (digitPoint d) = false ∧ digitPoint d ≠ ofChar ']' ∧ digitPoint d ≠ (0xFEFF : CodePoint) := by
  revert d
  decide +kernel

theorem digitPoint_plain (d : Fin 10) : digitPoint d ≠ ofChar '"' ∧ digitPoint d ≠ ofChar '[' ∧
    digitPoint d ≠ ofChar '\x7b' ∧ digitPoint d ≠ ofChar 'n' ∧ digitPoint d ≠ ofChar 't' ∧ digitPoint d ≠ ofChar 'f' := by
  revert d
  decide +kernel

theorem starts_text {n : NumToken} (hn : n.Valid) : Starts n.text := by
  obtain ⟨p, t, ht, hp⟩ := text_head hn
  rw [ht]
  refine starts_cons ?_
  rcases hp with rfl | ⟨d, rfl⟩
  · decide
  · exact digitPoint_starts d

theorem starts_write (hT : T.Lawful) (v : Json F) (level : ℕ) : Starts (write T indent v level) := by
  cases v with
  | null => exact starts_cons (by decide)
  | bool b => cases b <;> exact starts_cons (by decide)
  | int n => exact starts_text (NumToken.valid_ofInt n)
  | float x => exact starts_text (hT.valid x)
  | str s => exact starts_cons (by decide)
  | arr l => cases l <;> exact starts_cons (by decide)
  | obj l => cases l <;> exact starts_cons (by decide)

/-- a number is read as a number -/
theorem scanValue_number {n : NumToken} (hn : n.Valid) (fuel : ℕ) {rest : Text} (h : Stops rest) :
    scanValue T (fuel + 1) (n.text ++ rest) = some (ofNumber T n, rest) := by
  have hscan := scanNumber_text hn h
  obtain ⟨p, t, ht, hp⟩ := text_head hn
  rw [ht, List.cons_append] at hscan
  rw [ht, List.cons_append]
  have hne : p ≠ ofChar '"' ∧ p ≠ ofChar '[' ∧ p ≠ ofChar '\x7b' ∧ p ≠ ofChar 'n' ∧ p ≠ ofChar 't' ∧ p ≠ ofChar 'f' := by
    rcases hp with rfl | ⟨d, rfl⟩
    · decide
    · exact digitPoint_plain d
  obtain ⟨h1, h2, h3, h4, h5, h6⟩ := hne
  have hword : scanWord (p :: (t ++ rest)) = (none : Option (Json F × Text)) := by
    have hno : ∀ q u, p ≠ q → (q :: u : Text).isPrefixOf (p :: (t ++ rest)) = false := by
      intro q u hq
      simp [List.isPrefixOf, Ne.symm hq]
    have hn' : (Text.ofString "null").isPrefixOf (p :: (t ++ rest)) = false := hno _ _ h4
    have ht' : (Text.ofString "true").isPrefixOf (p :: (t ++ rest)) = false := hno _ _ h5
    have hf' : (Text.ofString "false").isPrefixOf (p :: (t ++ rest)) = false := hno _ _ h6
    rw [scanWord, hn', ht', hf']
    rfl
  rw [scanValue, if_neg h1, if_neg h2, if_neg h3, hword, Option.none_or, hscan, Option.map_some]

theorem scanNext_close {close : CodePoint} (h : isSpace close = false) (hc : close ≠ ofChar ',') (level : ℕ) (rest : Text) :
    scanNext close (newline indent level ++ [close] ++ rest) = some (false, rest) := by
  rw [scanNext, List.append_assoc, skipSpace_newline, List.singleton_append, skipSpace_cons h]
  simp only [if_neg hc, if_true]

theorem scanNext_comma (close : CodePoint) (level : ℕ) {t : Text} (h : Starts t) :
    scanNext close (ofChar ',' :: (gap indent level ++ t)) = some (true, t) := by
  rw [scanNext, skipSpace_cons (by decide)]
  simp only [if_true]
  rw [skipSpace_gap, skipSpace_starts h]

theorem scanKey_writeKey (k : Text) {t : Text} (h : Starts t) : scanKey (writeKey k ++ t) = some (normalize k, t) := by
  have hstr : writeKey k ++ t = ofChar '"' :: (escape k ++ ofChar '"' :: ofChar ':' :: ofChar ' ' :: t) := by
    simp [writeKey]
  have hspace : skipSpace (ofChar ' ' :: t) = t := (skipSpace_blank t).trans (skipSpace_starts h)
  rw [hstr, scanKey, if_pos rfl, scanString_escape, Option.bind_some, skipSpace_cons (by decide)]
  simp only [if_true, hspace]

mutual

/-- the fuel that a value takes -/
def size : Json F → ℕ
  | .arr l => 1 + sizeItems l
  | .obj l => 1 + sizeMembers l
  | _ => 1

def sizeItems : List (Json F) → ℕ
  | [] => 0
  | v :: l => 1 + (size v + sizeItems l)

def sizeMembers : List (Text × Json F) → ℕ
  | [] => 0
  | (_, v) :: l => 1 + (size v + sizeMembers l)

end

theorem head?_starts {t : Text} (h : Starts t) : t.head? ≠ some (ofChar ']') := by
  obtain ⟨p, t', rfl, -, hp, -⟩ := h
  exact fun he => hp (Option.some.inj he)

theorem scanValue_string (s : Text) (fuel : ℕ) (rest : Text) :
    scanValue T (fuel + 1) (ofChar '"' :: (escape s ++ ofChar '"' :: rest)) = some (.str (normalize s), rest) := by
  rw [scanValue, if_pos rfl, scanString_escape, Option.map_some]

theorem scanValue_arr {t : Text} (h : Starts t) (level fuel : ℕ) :
    scanValue T (fuel + 1) (ofChar '[' :: (newline indent level ++ t)) =
      (scanItems T fuel t).map fun r => (.arr r.1, r.2) := by
  rw [scanValue, if_neg (by decide), if_pos rfl, skipSpace_newline, skipSpace_starts h, if_neg (head?_starts h)]

theorem scanValue_obj (k : Text) (t : Text) (level fuel : ℕ) :
    scanValue T (fuel + 1) (ofChar '\x7b' :: (newline indent level ++ (writeKey k ++ t))) =
      (scanMembers T fuel (writeKey k ++ t)).map fun r => (.obj (Table.setAll r.1), r.2) := by
  have hkey : Starts (writeKey k ++ t) := starts_cons (by decide)
  rw [scanValue, if_neg (by decide), if_neg (by decide), if_pos rfl, skipSpace_newline, skipSpace_starts hkey]
  exact if_neg fun he => absurd (Option.some.inj he) (by decide)

/-- the reader of items, where the text of the first value is t and the rest is left to the reader of the next ones -/
theorem scanItems_cons {a : Json F} {t : Text} {fuel : ℕ} {b : Bool} {u v : Text}
    (hv : scanValue T fuel t = some (a, u)) (hs : scanNext (ofChar ']') u = some (b, v)) :
    scanItems T (fuel + 1) t =
      if b then (scanItems T fuel v).map fun r => (a :: r.1, r.2) else some ([a], v) := by
  rw [scanItems, hv, Option.bind_some, hs, Option.bind_some]

theorem scanMembers_cons {k : Text} {a : Json F} {t : Text} (ht : Starts t) {fuel : ℕ} {b : Bool} {u v : Text}
    (hv : scanValue T fuel t = some (a, u)) (hs : scanNext (ofChar '\x7d') u = some (b, v)) :
    scanMembers T (fuel + 1) (writeKey k ++ t) =
      if b then (scanMembers T fuel v).map fun r => ((normalize k, a) :: r.1, r.2) else some ([(normalize k, a)], v) := by
  rw [scanMembers, scanKey_writeKey k ht, Option.bind_some, hv, Option.bind_some, hs, Option.bind_some]

mutual

theorem scanValue_write (hT : T.Lawful) : ∀ (v : Json F) (level fuel : ℕ) (rest : Text), size v ≤ fuel → Stops rest →
    scanValue T fuel (write T indent v level ++ rest) = some (normal v, rest)
  | v, _, 0, _, hf, _ => by
    have hpos : 0 < size v := by cases v <;> simp [size]
    omega
  | .null, _, fuel + 1, rest, _, _ => rfl
  | .bool true, _, fuel + 1, rest, _, _ => rfl
  | .bool false, _, fuel + 1, rest, _, _ => rfl
  | .int n, _, fuel + 1, rest, _, h => by
    have hint : ofNumber T (NumToken.ofInt n) = .int n := congrArg Json.int (NumToken.toInt_ofInt n)
    rw [write, scanValue_number (NumToken.valid_ofInt n) fuel h, hint, normal]
  | .float x, _, fuel + 1, rest, _, h => by
    rw [write, scanValue_number (hT.valid x) fuel h, ofNumber, if_pos (hT.isFloat x), hT.ofToken_token, normal]
  | .str s, level, fuel + 1, rest, _, _ => by
    have hstr : write T indent (.str s) level ++ rest = ofChar '"' :: (escape s ++ ofChar '"' :: rest) := by
      simp [write]
    rw [hstr, scanValue_string, normal]
  | .arr [], _, fuel + 1, rest, _, _ => rfl
  | .arr (v :: l), level, fuel + 1, rest, hf, h => by
    simp only [size, sizeItems] at hf
    obtain ⟨fuel, rfl⟩ := Nat.exists_eq_add_one_of_ne_zero (by omega : fuel ≠ 0)
    have hv := scanValue_write hT v (level + 1) fuel
      (writeItems T indent l (level + 1) (newline indent level) ++ rest) (by omega) (stops_writeItems l _ _ rest)
    have hl := scanItems_write hT l v (level + 1) level fuel rest (by omega) hv
    rw [write, List.cons_append, List.append_assoc, List.append_assoc,
      scanValue_arr (starts_append (starts_write hT v _) _), hl, Option.map_some, normal, normalItems]
  | .obj [], _, fuel + 1, rest, _, _ => rfl
  | .obj ((k, v) :: l), level, fuel + 1, rest, hf, h => by
    simp only [size, sizeMembers] at hf
    obtain ⟨fuel, rfl⟩ := Nat.exists_eq_add_one_of_ne_zero (by omega : fuel ≠ 0)
    have hv := scanValue_write hT v (level + 1) fuel
      (writeMembers T indent l (level + 1) (newline indent level) ++ rest) (by omega) (stops_writeMembers l _ _ rest)
    have hl := scanMembers_write hT l k v (level + 1) level fuel rest (by omega) hv
    rw [write, List.cons_append, List.append_assoc, List.append_assoc, List.append_assoc, scanValue_obj, hl,
      Option.map_some, normal, normalMembers]

/-- the items that follow a value which is read -/
theorem scanItems_write (hT : T.Lawful) : ∀ (l : List (Json F)) (v : Json F) (level level' fuel : ℕ) (rest : Text),
    sizeItems l ≤ fuel →
    scanValue T fuel (write T indent v level ++ (writeItems T indent l level (newline indent level') ++ rest)) =
      some (normal v, writeItems T indent l level (newline indent level') ++ rest) →
    scanItems T (fuel + 1) (write T indent v level ++ (writeItems T indent l level (newline indent level') ++ rest)) =
      some (normal v :: normalItems l, rest)
  | [], v, level, level', fuel, rest, _, hv => by
    rw [scanItems_cons hv (scanNext_close (by decide) (by decide) level' rest)]
    rfl
  | w :: l, v, level, level', fuel, rest, hf, hv => by
    simp only [sizeItems] at hf
    obtain ⟨fuel, rfl⟩ := Nat.exists_eq_add_one_of_ne_zero (by omega : fuel ≠ 0)
    have hw := scanValue_write hT w level fuel
      (writeItems T indent l level (newline indent level') ++ rest) (by omega) (stops_writeItems l _ _ rest)
    have hl := scanItems_write hT l w level level' fuel rest (by omega) hw
    have hnext : scanNext (ofChar ']') (writeItems T indent (w :: l) level (newline indent level') ++ rest) =
        some (true, write T indent w level ++ (writeItems T indent l level (newline indent level') ++ rest)) := by
      rw [writeItems, List.cons_append, List.append_assoc, List.append_assoc]
      exact scanNext_comma _ level (starts_append (starts_write hT w level) _)
    rw [scanItems_cons hv hnext, if_pos rfl, hl, Option.map_some, normalItems]

/-- the members that follow one whose value is read -/
theorem scanMembers_write (hT : T.Lawful) : ∀ (l : List (Text × Json F)) (k : Text) (v : Json F) (level level' fuel : ℕ)
    (rest : Text), sizeMembers l ≤ fuel →
    scanValue T fuel (write T indent v level ++ (writeMembers T indent l level (newline indent level') ++ rest)) =
      some (normal v, writeMembers T indent l level (newline indent level') ++ rest) →
    scanMembers T (fuel + 1)
      (writeKey k ++ (write T indent v level ++ (writeMembers T indent l level (newline indent level') ++ rest))) =
      some ((normalize k, normal v) :: normalMembers l, rest)
  | [], k, v, level, level', fuel, rest, _, hv => by
    rw [scanMembers_cons (starts_append (starts_write hT v level) _) hv
      (scanNext_close (by decide) (by decide) level' rest)]
    rfl
  | (k', w) :: l, k, v, level, level', fuel, rest, hf, hv => by
    simp only [sizeMembers] at hf
    obtain ⟨fuel, rfl⟩ := Nat.exists_eq_add_one_of_ne_zero (by omega : fuel ≠ 0)
    have hw := scanValue_write hT w level fuel
      (writeMembers T indent l level (newline indent level') ++ rest) (by omega) (stops_writeMembers l _ _ rest)
    have hl := scanMembers_write hT l k' w level level' fuel rest (by omega) hw
    have hnext : scanNext (ofChar '\x7d') (writeMembers T indent ((k', w) :: l) level (newline indent level') ++ rest) =
        some (true, writeKey k' ++
          (write T indent w level ++ (writeMembers T indent l level (newline indent level') ++ rest))) := by
      rw [writeMembers, List.cons_append, List.append_assoc, List.append_assoc, List.append_assoc]
      exact scanNext_comma _ level (starts_cons (by decide))
    rw [scanMembers_cons (starts_append (starts_write hT v level) _) hv hnext, if_pos rfl, hl, Option.map_some,
      normalMembers]

end

/-! ## What is written is ASCII -/

/-- all code points are ASCII -/
def Ascii (t : Text) : Prop := ∀ p ∈ t, p.val < 128

theorem ascii_nil : Ascii [] := fun _ hp => by cases hp

theorem ascii_cons {p : CodePoint} {t : Text} (hp : p.val < 128) (ht : Ascii t) : Ascii (p :: t) :=
  List.forall_mem_cons.2 ⟨hp, ht⟩

theorem ascii_append {t u : Text} (ht : Ascii t) (hu : Ascii u) : Ascii (t ++ u) :=
  List.forall_mem_append.2 ⟨ht, hu⟩

theorem ascii_newline (level : ℕ) : Ascii (newline indent level) := by
  cases indent with
  | none => exact ascii_nil
  | some k =>
    refine ascii_cons (by decide) fun p hp => ?_
    rw [List.eq_of_mem_replicate hp]
    decide

theorem ascii_gap (level : ℕ) : Ascii (gap indent level) := by
  cases indent with
  | none => exact ascii_cons (by decide) ascii_nil
  | some k =>
    have h : Ascii (newline (some k) level) := ascii_newline level
    exact h

/-- the three words -/
theorem ascii_words : Ascii (Text.ofString "null") ∧ Ascii (Text.ofString "true") ∧ Ascii (Text.ofString "false") := by
  have hchars : ∀ s : String, s.toList.all (fun c => decide (c.toNat < 128)) = true → Ascii (Text.ofString s) := by
    intro s h p hp
    obtain ⟨c, hc, rfl⟩ := List.mem_map.1 hp
    exact of_decide_eq_true (List.all_eq_true.1 h c hc)
  exact ⟨hchars _ (by decide +kernel), hchars _ (by decide +kernel), hchars _ (by decide +kernel)⟩

theorem ascii_writeKey (k : Text) : Ascii (writeKey k) :=
  ascii_cons (by decide) (ascii_append (escape_ascii k)
    (ascii_cons (by decide) (ascii_cons (by decide) (ascii_cons (by decide) ascii_nil))))

mutual

theorem ascii_write : ∀ (v : Json F) (level : ℕ), Ascii (write T indent v level)
  | .null, _ => ascii_words.1
  | .bool true, _ => ascii_words.2.1
  | .bool false, _ => ascii_words.2.2
  | .int n, _ => text_ascii _
  | .float x, _ => text_ascii _
  | .str s, _ => ascii_cons (by decide) (ascii_append (escape_ascii s) (ascii_cons (by decide) ascii_nil))
  | .arr [], _ => ascii_cons (by decide) (ascii_cons (by decide) ascii_nil)
  | .arr (v :: l), level => ascii_cons (by decide) (ascii_append (ascii_newline _)
      (ascii_append (ascii_write v _) (ascii_writeItems l _ (ascii_newline _))))
  | .obj [], _ => ascii_cons (by decide) (ascii_cons (by decide) ascii_nil)
  | .obj ((k, v) :: l), level => ascii_cons (by decide) (ascii_append (ascii_newline _)
      (ascii_append (ascii_writeKey k) (ascii_append (ascii_write v _) (ascii_writeMembers l _ (ascii_newline _)))))

theorem ascii_writeItems : ∀ (l : List (Json F)) (level : ℕ) {close : Text}, Ascii close →
    Ascii (writeItems T indent l level close)
  | [], _, _, h => ascii_append h (ascii_cons (by decide) ascii_nil)
  | v :: l, level, _, h => ascii_cons (by decide)
      (ascii_append (ascii_gap level) (ascii_append (ascii_write v level) (ascii_writeItems l level h)))

theorem ascii_writeMembers : ∀ (l : List (Text × Json F)) (level : ℕ) {close : Text}, Ascii close →
    Ascii (writeMembers T indent l level close)
  | [], _, _, h => ascii_append h (ascii_cons (by decide) ascii_nil)
  | (k, v) :: l, level, _, h => ascii_cons (by decide) (ascii_append (ascii_gap level)
      (ascii_append (ascii_writeKey k) (ascii_append (ascii_write v level) (ascii_writeMembers l level h))))

end

variable (T indent) in
/-- the text of a value always has an encoding -/
theorem encode_dumps (v : Json F) : ∃ b, (dumps T indent v).encode = some b :=
  Option.isSome_iff_exists.1 (Text.encode_isSome_of_ascii (ascii_write v 0))

/-! ## The round trip -/

theorem length_write_pos (hT : T.Lawful) (v : Json F) (level : ℕ) : 0 < (write T indent v level).length := by
  obtain ⟨p, t, ht, -⟩ : Starts (write T indent v level) := starts_write hT v level
  rw [ht]
  exact Nat.succ_pos _

mutual

theorem size_le_length (hT : T.Lawful) : ∀ (v : Json F) (level : ℕ), size v ≤ 2 * (write T indent v level).length
  | .arr [], _ => by simp [size, sizeItems, write, Text.ofString]
  | .arr (v :: l), level => by
    have hv := size_le_length hT v (level + 1)
    have hl := sizeItems_le_length hT l (level + 1) (newline indent level)
    simp only [size, sizeItems, write, List.length_cons, List.length_append]
    omega
  | .obj [], _ => by simp [size, sizeMembers, write]
  | .obj ((k, v) :: l), level => by
    have hv := size_le_length hT v (level + 1)
    have hl := sizeMembers_le_length hT l (level + 1) (newline indent level)
    simp only [size, sizeMembers, write, List.length_cons, List.length_append]
    omega
  | .null, level => by
    have hpos : 0 < (write T indent (.null : Json F) level).length := length_write_pos hT _ level
    simp only [size]
    omega
  | .bool b, level => by
    have hpos : 0 < (write T indent (.bool b : Json F) level).length := length_write_pos hT _ level
    simp only [size]
    omega
  | .int n, level => by
    have hpos : 0 < (write T indent (.int n : Json F) level).length := length_write_pos hT _ level
    simp only [size]
    omega
  | .float x, level => by
    have hpos : 0 < (write T indent (.float x) level).length := length_write_pos hT _ level
    simp only [size]
    omega
  | .str s, level => by
    have hpos : 0 < (write T indent (.str s : Json F) level).length := length_write_pos hT _ level
    simp only [size]
    omega

theorem sizeItems_le_length (hT : T.Lawful) : ∀ (l : List (Json F)) (level : ℕ) (close : Text),
    sizeItems l ≤ 2 * (writeItems T indent l level close).length
  | [], _, _ => Nat.zero_le _
  | v :: l, level, close => by
    have hv := size_le_length hT v level
    have hl := sizeItems_le_length hT l level close
    simp only [sizeItems, writeItems, List.length_cons, List.length_append]
    omega

theorem sizeMembers_le_length (hT : T.Lawful) : ∀ (l : List (Text × Json F)) (level : ℕ) (close : Text),
    sizeMembers l ≤ 2 * (writeMembers T indent l level close).length
  | [], _, _ => Nat.zero_le _
  | (k, v) :: l, level, close => by
    have hv := size_le_length hT v level
    have hl := sizeMembers_le_length hT l level close
    simp only [sizeMembers, writeMembers, List.length_cons, List.length_append]
    omega

end

variable (indent) in
/-- **The round trip**, up to normalisation. -/
theorem loads_dumps (hT : T.Lawful) (v : Json F) : loads T (dumps T indent v) = some (normal v) := by
  have hstarts : Starts (dumps T indent v) := starts_write hT v 0
  have hbom : (dumps T indent v).head? ≠ some (0xFEFF : CodePoint) := by
    obtain ⟨p, t, ht, -, -, hp⟩ := hstarts
    rw [ht]
    exact fun he => hp (Option.some.inj he)
  have hfuel : size v ≤ 2 * (dumps T indent v).length + 2 := by
    have hle : size v ≤ 2 * (write T indent v 0).length := size_le_length hT v 0
    rw [dumps]
    omega
  have hscan : scanValue T (2 * (dumps T indent v).length + 2) (dumps T indent v) = some (normal v, []) := by
    have h : scanValue T _ (write T indent v 0 ++ []) = some (normal v, []) :=
      scanValue_write hT v 0 _ [] hfuel fun p t ht => by cases ht
    rwa [List.append_nil] at h
  rw [loads, if_neg hbom, skipSpace_starts hstarts, hscan, Option.bind_some]
  rfl

/-! ## The order of keys -/

/-- equal up to the order of keys in every object -/
def Same (v w : Json F) : Prop := sortKeys v = sortKeys w

theorem same_refl (v : Json F) : Same v v := rfl

theorem sortKeys_eq_str_iff {v : Json F} {s : Text} : sortKeys v = .str s ↔ v = .str s := by
  cases v <;> simp [sortKeys]

theorem sortMembers_eq_map (l : List (Text × Json F)) : sortMembers l = l.map fun m => (m.1, sortKeys m.2) := by
  induction l with
  | nil => rfl
  | cons m l ih => rw [List.map_cons, sortMembers, ih]

theorem get_sortMembers (k : Text) (l : List (Text × Json F)) : Table.get k (sortMembers l) = (Table.get k l).map sortKeys := by
  induction l with
  | nil => rfl
  | cons m l ih =>
    rw [sortMembers, Table.get_cons, Table.get_cons, ih]
    split_ifs <;> rfl

theorem unique_sortMembers {l : List (Text × Json F)} (h : Table.Unique l) : Table.Unique (sortMembers l) := by
  rw [Table.Unique, sortMembers_eq_map, List.map_map]
  exact h

theorem mergeSort_eq_iff {l l' : List (Text × Json F)} (h : Table.Unique l) :
    (l.mergeSort fun e e' => decide (e.1 ≤ e'.1)) = (l'.mergeSort fun e e' => decide (e.1 ≤ e'.1)) ↔ l.Perm l' := by
  have hsorted : ∀ l : List (Text × Json F),
      (l.mergeSort fun e e' => decide (e.1 ≤ e'.1)).Pairwise fun e e' => e.1 ≤ e'.1 := by
    intro l
    have hdecide : (l.mergeSort fun e e' => decide (e.1 ≤ e'.1)).Pairwise fun e e' => decide (e.1 ≤ e'.1) = true :=
      List.pairwise_mergeSort (fun a b c hab hbc => by simpa using le_trans (of_decide_eq_true hab) (of_decide_eq_true hbc))
        (fun a b => by simpa using le_total a.1 b.1) l
    simpa using hdecide
  refine ⟨fun heq => ?_, fun hperm => ?_⟩
  · exact (List.mergeSort_perm l _).symm.trans (heq ▸ List.mergeSort_perm l' _)
  · have hperm' := (List.mergeSort_perm l fun e e' => decide (e.1 ≤ e'.1)).trans
      (hperm.trans (List.mergeSort_perm l' fun e e' => decide (e.1 ≤ e'.1)).symm)
    refine hperm'.eq_of_pairwise (fun a b ha hb hab hba => ?_) (hsorted l) (hsorted l')
    have hkey : a.1 = b.1 := le_antisymm hab hba
    have hga := Table.get_of_mem h ((List.mergeSort_perm l _).mem_iff.1 ha)
    have hgb := Table.get_of_mem h (hperm.mem_iff.2 ((List.mergeSort_perm l' _).mem_iff.1 hb))
    rw [hkey, hgb, Option.some.injEq] at hga
    exact Prod.ext hkey hga.symm

theorem same_obj_iff {l l' : List (Text × Json F)} (h : Table.Unique l) (h' : Table.Unique l') :
    Same (.obj l) (.obj l') ↔ ∀ k, (Table.get k l).map sortKeys = (Table.get k l').map sortKeys := by
  have hs := unique_sortMembers h
  have hs' := unique_sortMembers h'
  rw [Same, sortKeys, sortKeys, Json.obj.injEq, mergeSort_eq_iff hs]
  simp only [← get_sortMembers]
  exact Table.perm_iff hs hs'

theorem cleanMembers_iff {l : List (Text × Json F)} : CleanMembers l ↔ ∀ e ∈ l, Unpaired e.1 ∧ Clean e.2 := by
  induction l with
  | nil => exact iff_of_true trivial fun e he => by cases he
  | cons e l ih =>
    obtain ⟨k, v⟩ := e
    rw [CleanMembers, List.forall_mem_cons, ih]

theorem cleanItems_iff {l : List (Json F)} : CleanItems l ↔ ∀ v ∈ l, Clean v := by
  induction l with
  | nil => exact iff_of_true trivial fun v hv => by cases hv
  | cons v l ih => rw [CleanItems, List.forall_mem_cons, ih]

theorem same_arr_iff {l l' : List (Json F)} : Same (.arr l) (.arr l') ↔ List.Forall₂ Same l l' := by
  have hitems : ∀ l : List (Json F), sortItems l = l.map sortKeys := by
    intro l
    induction l with
    | nil => rfl
    | cons v l ih => rw [sortItems, ih, List.map_cons]
  rw [Same, sortKeys, sortKeys, Json.arr.injEq, hitems, hitems, ← List.forall₂_eq_eq_eq, List.forall₂_map_left_iff,
    List.forall₂_map_right_iff]
  rfl

mutual

theorem clean_sortKeys : ∀ v : Json F, Clean v → Clean (sortKeys v)
  | .null, h => h
  | .bool _, h => h
  | .int _, h => h
  | .float _, h => h
  | .str _, h => h
  | .arr l, h => clean_sortItems l h
  | .obj l, h => by
    have hperm := List.mergeSort_perm (sortMembers l) fun e e' => decide (e.1 ≤ e'.1)
    rw [sortKeys, Clean, Table.Unique, (hperm.map Prod.fst).nodup_iff, cleanMembers_iff]
    refine ⟨unique_sortMembers h.1, fun e he => ?_⟩
    exact cleanMembers_iff.1 (clean_sortMembers l h.2) e (hperm.mem_iff.1 he)

theorem clean_sortItems : ∀ l : List (Json F), CleanItems l → CleanItems (sortItems l)
  | [], h => h
  | v :: l, h => ⟨clean_sortKeys v h.1, clean_sortItems l h.2⟩

theorem clean_sortMembers : ∀ l : List (Text × Json F), CleanMembers l → CleanMembers (sortMembers l)
  | [], h => h
  | (_, v) :: l, h => ⟨⟨h.1.1, clean_sortKeys v h.1.2⟩, clean_sortMembers l h.2⟩

end

/-- **The sorted text of a value determines it**, up to the order of keys. -/
theorem same_of_dumpsSorted_eq (hT : T.Lawful) {v w : Json F} (hv : Clean v) (hw : Clean w)
    (h : dumpsSorted T indent v = dumpsSorted T indent w) : Same v w := by
  have hload := loads_dumps indent hT (sortKeys v)
  rw [← dumpsSorted, h, dumpsSorted, loads_dumps indent hT, (normal_eq_self_iff _).2 (clean_sortKeys v hv),
    (normal_eq_self_iff _).2 (clean_sortKeys w hw), Option.some.injEq] at hload
  exact hload.symm

/-! ## Objects of strings -/

theorem sortMembers_str (l : List (Text × Text)) :
    sortMembers (l.map fun m => (m.1, (.str m.2 : Json F))) = l.map fun m => (m.1, .str m.2) := by
  induction l with
  | nil => rfl
  | cons m l ih =>
    rw [List.map_cons, sortMembers, ih]
    rfl

theorem unique_map_str {l : List (Text × Text)} (h : Table.Unique l) :
    Table.Unique (l.map fun m => (m.1, (.str m.2 : Json F))) := by
  rw [Table.Unique, List.map_map]
  exact h

/-- the sorted text of an object of strings determines its members, up to their order -/
theorem perm_of_dumpsSorted_eq (hT : T.Lawful) {l l' : List (Text × Text)} (hu : Table.Unique l) (hu' : Table.Unique l')
    (hl : ∀ m ∈ l, Unpaired m.1 ∧ Unpaired m.2) (hl' : ∀ m ∈ l', Unpaired m.1 ∧ Unpaired m.2)
    (h : dumpsSorted T indent (.obj (l.map fun m => (m.1, .str m.2))) =
      dumpsSorted T indent (.obj (l'.map fun m => (m.1, .str m.2)))) : l.Perm l' := by
  have hclean : ∀ {l : List (Text × Text)}, Table.Unique l → (∀ m ∈ l, Unpaired m.1 ∧ Unpaired m.2) →
      Clean (.obj (l.map fun m => (m.1, (.str m.2 : Json F)))) := by
    intro l hu hl
    rw [Clean, cleanMembers_iff]
    refine ⟨unique_map_str hu, fun e he => ?_⟩
    obtain ⟨m, hm, rfl⟩ := List.mem_map.1 he
    exact hl m hm
  have hinj : Function.Injective fun m : Text × Text => (m.1, (.str m.2 : Json F)) := by
    intro ⟨k, v⟩ ⟨k', v'⟩ he
    simpa using he
  have hsame := same_of_dumpsSorted_eq hT (hclean hu hl) (hclean hu' hl') h
  rw [Same, sortKeys, sortKeys, sortMembers_str, sortMembers_str, Json.obj.injEq, mergeSort_eq_iff (unique_map_str hu)] at hsame
  exact (List.map_perm_map_iff hinj).1 hsame

end Json

end AbirGuard.Core
