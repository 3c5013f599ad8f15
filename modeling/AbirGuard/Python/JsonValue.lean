/-
JSON values as Python objects: what the language does with a value of any type where the code expects a particular one.

An object is a dictionary with the members in their order; a float is a rational number.

- `getItem`, `dictGet`, `iterate`, `mapping` and others: subscripts, methods, `for` loops and `**` arguments, with their
  exceptions.
- `bindArgs`: how the constructor of a dataclass takes its keyword arguments.
- `exactFloats`: rational numbers have a text that is read back.
-/
import AbirGuard.Python.Lang

namespace AbirGuard.Python.JsonValue

open AbirGuard.Core

/-! ## Model -/

/-- `type(v).__name__` -/
def typeName : Json ℚ → String
  | .null => "NoneType"
  | .bool _ => "bool"
  | .int _ => "int"
  | .float _ => "float"
  | .str _ => "str"
  | .arr _ => "list"
  | .obj _ => "dict"

/-- the truth value of a JSON value -/
def truthy : Json ℚ → Bool
  | .null => false
  | .bool b => b
  | .int n => n ≠ 0
  | .float x => x ≠ 0
  | .str t => t ≠ []
  | .arr items => !items.isEmpty
  | .obj members => !members.isEmpty

/-- `v == s` for a string s -/
def isStr (s : String) : Json ℚ → Bool
  | .str t => t = Text.ofString s
  | _ => false

/-- `len(v)`, where the type has it -/
def length? : Json ℚ → Option ℕ
  | .str t => some t.length
  | .arr items => some items.length
  | .obj members => some members.length
  | _ => none

/-- `v[key]` -/
def getItem (key : String) : Json ℚ → Except Exc (Json ℚ)
  | .obj members =>
    match Table.get (Text.ofString key) members with
    | some v => .ok v
    | none => .error ⟨.keyError, s!"'{key}'"⟩
  | .arr _ => .error ⟨.typeError, "list indices must be integers or slices, not str"⟩
  | .str _ => .error ⟨.typeError, "string indices must be integers, not 'str'"⟩
  | v => .error ⟨.typeError, s!"'{typeName v}' object is not subscriptable"⟩

/-- a method that the type of the value does not have -/
def noAttribute (name : String) (v : Json ℚ) : Exc := ⟨.attributeError, s!"'{typeName v}' object has no attribute '{name}'"⟩

/-- `v.get(key, default)` -/
def dictGet (key : String) (default : Json ℚ) : Json ℚ → Except Exc (Json ℚ)
  | .obj members => .ok ((Table.get (Text.ofString key) members).getD default)
  | v => .error (noAttribute "get" v)

/-- `v.encode()` -/
def encode : Json ℚ → Except Exc Bytes
  | .str t => encodeUtf8 t
  | v => .error (noAttribute "encode" v)

/-- `base64.b64decode(v)` -/
def b64decode : Json ℚ → Except Exc Bytes
  | .str t => Python.b64decode t
  | v => .error ⟨.typeError, s!"argument should be a bytes-like object or ASCII string, not '{typeName v}'"⟩

/-- what `for e in v` goes through: of a dictionary the keys, of a string the characters -/
def iterate : Json ℚ → Except Exc (List (Json ℚ))
  | .arr items => .ok items
  | .obj members => .ok (members.map fun m => .str m.1)
  | .str t => .ok (t.map fun p => .str [p])
  | v => .error ⟨.typeError, s!"'{typeName v}' object is not iterable"⟩

/-- the keyword arguments of `callee(**v)` -/
def mapping (callee : String) : Json ℚ → Except Exc (List (Text × Json ℚ))
  | .obj members => .ok members
  | v => .error ⟨.typeError, s!"{callee}() argument after ** must be a mapping, not {typeName v}"⟩

/-- names in a message -/
def listNames (names : List String) : String :=
  match names.map fun name => s!"'{name}'" with
  | [a] => a
  | [a, b] => s!"{a} and {b}"
  | quoted => String.intercalate ", " quoted.dropLast ++ ", and " ++ quoted.getLast?.getD ""

/-- the arguments of a dataclass by name: each parameter with its default, if it has one -/
def bindArgs (cls : String) (params : List (String × Option (Json ℚ))) (args : List (Text × Json ℚ)) :
    Except Exc (String → Json ℚ) :=
  match args.find? fun e => e.1 ∉ params.map fun p => Text.ofString p.1 with
  | some e =>
    .error ⟨.typeError, s!"{cls}.__init__() got " ++
      (if e.1 = Text.ofString "self" then "multiple values for argument" else "an unexpected keyword argument") ++
      " '" ++ e.1 ++ "'"⟩
  | none =>
    match (params.filter fun p => p.2.isNone ∧ (Table.get (Text.ofString p.1) args).isNone).map Prod.fst with
    | [] => .ok fun name => (Table.get (Text.ofString name) args).getD ((Table.get name params).join.getD .null)
    | missing =>
      .error ⟨.typeError, s!"{cls}.__init__() missing {missing.length} required positional argument" ++
        (if missing.length = 1 then ": " else "s: ") ++ listNames missing⟩

/-! ## Floats -/

/-- a float written as two numbers, with a point in between -/
def exactFloats : FloatText ℚ where
  token x := ⟨decide (x < 0), Json.digitsOfNat x.num.natAbs, some (Json.digitsOfNat x.den), none⟩
  ofToken n := (if n.neg then -1 else 1) * (Json.natOfDigits n.int : ℚ) / (Json.natOfDigits (n.frac.getD []) : ℚ)

theorem exactFloats_lawful : exactFloats.Lawful where
  valid x := ⟨Json.digitsOfNat_valid _, fun h => digitsOfNat_ne_nil _ (Option.some.inj h), fun _ h => by cases h⟩
  isFloat _ := Or.inl rfl
  ofToken_token x := by
    have hsign : (if x < 0 then -1 else 1 : ℚ) * (x.num.natAbs : ℚ) = x.num := by
      split_ifs with hneg
      · have h : ((x.num.natAbs : ℤ) : ℚ) = -x.num := by
          rw [Int.ofNat_natAbs_of_nonpos (Rat.num_nonpos.2 hneg.le), Int.cast_neg]
        rw [Int.cast_natCast] at h
        rw [h]
        ring
      · have h : ((x.num.natAbs : ℤ) : ℚ) = x.num := by
          rw [Int.natAbs_of_nonneg (Rat.num_nonneg.2 (not_lt.1 hneg))]
        rw [Int.cast_natCast] at h
        rw [h, one_mul]
    simp only [exactFloats, Option.getD_some, Json.natOfDigits_digitsOfNat, decide_eq_true_eq]
    rw [hsign, Rat.num_div_den]

end AbirGuard.Python.JsonValue
