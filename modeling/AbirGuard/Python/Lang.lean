/-
What the Python modules use of their language and its libraries: exceptions, `encode`, `b64decode`, `int`, AES-GCM, hashes.

Strings are lists of code points and may hold surrogates. Readings of the clock are rational numbers; how a float is printed
is a parameter. The ciphers and hashes are parameters too (`Libs`), behind the checks that the library makes on the lengths
of its arguments.

- `encodeUtf8_ok_iff`: which strings have an encoding.
- `b64decode_b64encode`, `parseInt_str`: round trips.
- `AESGCM.decrypt_ok_iff`: what opening a ciphertext takes.
-/
import AbirGuard.Core.Aead
import AbirGuard.Core.Base64
import AbirGuard.Core.Json
import AbirGuard.Core.Outcome
import AbirGuard.Core.Sha256
import Mathlib.Data.List.DropRight
import Mathlib.Data.List.GetD

namespace AbirGuard.Python

open AbirGuard.Core

/-! ## Exceptions -/

inductive ExcType where
  | valueError
  | typeError
  | keyError
  | attributeError
  | overflowError
  | unicodeEncodeError
  | unicodeDecodeError
  | binasciiError
  | jsonDecodeError
  | invalidTag
  | fipsModeError
  | attestationError
  | federationError
deriving DecidableEq, Repr

structure Exc where
  type : ExcType
  msg : Text
deriving DecidableEq, Repr

/-- the class is `ValueError` or derives from it -/
def ExcType.isValueError : ExcType → Bool
  | .valueError | .unicodeEncodeError | .unicodeDecodeError | .binasciiError | .jsonDecodeError => true
  | _ => false

/-! ## Strings -/

/-- the text of the error of `encode("utf-8")`, which names the first run of surrogates -/
def surrogateError (t : Text) : Text :=
  let start := t.findIdx fun p => decide p.IsSurrogate
  let run := (t.drop start).takeWhile fun p => decide p.IsSurrogate
  match run with
  | [p] => "'utf-8' codec can't encode character '\\u" ++
      Text.hexdigest [UInt8.ofNat (p.val / 256), UInt8.ofNat (p.val % 256)] ++
      s!"' in position {start}: surrogates not allowed"
  | _ => s!"'utf-8' codec can't encode characters in position {start}-{start + run.length - 1}: surrogates not allowed"

/-- `t.encode()` -/
def encodeUtf8 (t : Text) : Except Exc Bytes :=
  match t.encode with
  | some b => .ok b
  | none => .error ⟨.unicodeEncodeError, surrogateError t⟩

theorem encodeUtf8_ok {t : Text} {b : Bytes} (h : t.encode = some b) : encodeUtf8 t = .ok b := by
  rw [encodeUtf8, h]

theorem encodeUtf8_ok_iff {t : Text} : (∃ b, encodeUtf8 t = .ok b) ↔ t.encode.isSome := by
  rw [encodeUtf8]
  cases t.encode <;> simp

/-- `base64.b64encode(b).decode()` -/
def b64encode (b : Bytes) : Text := base64.encode b

/-- `base64.b64decode(t)` -/
def b64decode (t : Text) : Except Exc Bytes :=
  if t.any fun p => 128 ≤ p.val then .error ⟨.valueError, "string argument should contain only ASCII characters"⟩
  else match a2bBase64 (t.map fun p => Char.ofNat p.val) with
    | .ok b => .ok b
    | .error e => .error ⟨.binasciiError, e⟩

theorem sextet_ascii (n : ℕ) : (sextet n).toNat < 128 := by
  rw [sextet]
  rcases Nat.lt_or_ge n base64Alphabet.length with h | h
  · have hall : base64Alphabet.all (fun c => decide (c.toNat < 128)) = true := by decide +kernel
    rw [List.getD_eq_getElem _ _ h]
    exact of_decide_eq_true (List.all_eq_true.1 hall _ (List.getElem_mem h))
  · rw [List.getD_eq_default _ _ h]
    decide

theorem base64Encode_ascii (b : Bytes) : ∀ c ∈ base64Encode b, c.toNat < 128 := by
  induction b using base64Encode.induct with
  | case1 => simp [base64Encode]
  | case2 a => simp [base64Encode, sextet_ascii]
  | case3 a b => simp [base64Encode, sextet_ascii]
  | case4 a b c rest ih => simpa [base64Encode, sextet_ascii] using ih

theorem b64decode_b64encode (b : Bytes) : b64decode (b64encode b) = .ok b := by
  have hascii : ∀ p ∈ b64encode b, ¬ 128 ≤ p.val := by
    intro p hp
    obtain ⟨c, hc, rfl⟩ := List.mem_map.1 hp
    rw [base64, String.toList_ofList] at hc
    exact Nat.not_le.2 (base64Encode_ascii b c hc)
  have hchars : (b64encode b).map (fun p => Char.ofNat p.val) = base64Encode b := by
    rw [b64encode, Text.ofString, List.map_map]
    simp [base64, Function.comp_def, CodePoint.ofChar]
  rw [b64decode, if_neg (by simpa using hascii), hchars, a2bBase64_encode]

/-! ## Integers -/

/-- `str(n)` -/
def str (n : ℤ) : Text := (Json.NumToken.ofInt n).text

/-- white space in the sense of `str.isspace` -/
def isWhitespace (p : CodePoint) : Bool :=
  9 ≤ p.val ∧ p.val ≤ 13 ∨ 28 ≤ p.val ∧ p.val ≤ 32 ∨ p.val = 0x85 ∨ p.val = 0xA0 ∨ p.val = 0x1680 ∨
    0x2000 ≤ p.val ∧ p.val ≤ 0x200A ∨ p.val = 0x2028 ∨ p.val = 0x2029 ∨ p.val = 0x202F ∨ p.val = 0x205F ∨ p.val = 0x3000

/-- white space that `int` skips: not the four separators of ASCII -/
def isIntSpace (p : CodePoint) : Bool := isWhitespace p && !(28 ≤ p.val && p.val ≤ 31)

/-- digits, with single underscores between them -/
def groupedDigits : Text → Option (List (Fin 10))
  | [] => none
  | [p] => (Json.digit? p).map fun d => [d]
  | p :: q :: t => (Json.digit? p).bind fun d =>
      if q = CodePoint.ofChar '_' then (groupedDigits t).map (d :: ·) else (groupedDigits (q :: t)).map (d :: ·)

/-- `int(t)`, for the digits of ASCII; the text of the error up to how unusual characters are escaped -/
def parseInt (t : Text) : Except Exc ℤ :=
  let stripped := (t.dropWhile isIntSpace).rdropWhile isIntSpace
  let sign := Json.scanSign stripped
  match groupedDigits sign.2 with
  | some ds => .ok (if sign.1 = some false then -Json.natOfDigits ds else Json.natOfDigits ds)
  | none => .error ⟨.valueError, "invalid literal for int() with base 10: '" ++ t ++ "'"⟩

theorem groupedDigits_digits {ds : List (Fin 10)} (h : ds ≠ []) : groupedDigits (Json.digits ds) = some ds := by
  have hne : ∀ d, Json.digitPoint d ≠ CodePoint.ofChar '_' := by decide +kernel
  induction ds with
  | nil => exact absurd rfl h
  | cons d ds ih =>
    cases ds with
    | nil => exact congrArg (Option.map fun d => [d]) (Json.digit?_digitPoint d)
    | cons e ds =>
      have hrest := ih (List.cons_ne_nil e ds)
      rw [Json.digits, List.map_cons] at hrest
      rw [Json.digits, List.map_cons, List.map_cons, groupedDigits, Json.digit?_digitPoint, Option.bind_some,
        if_neg (hne e), hrest]
      rfl

theorem digitsOfNat_ne_nil (m : ℕ) : Json.digitsOfNat m ≠ [] := by
  rcases Json.digitsOfNat_valid m with h | ⟨d, ds, h, -⟩ <;> rw [h] <;> exact List.cons_ne_nil _ _

/-- the text of an integer is its sign and its digits -/
theorem str_eq (n : ℤ) : str n =
    Json.signText (if n < 0 then some false else none) ++ Json.digits (Json.digitsOfNat n.natAbs) := by
  simp only [str, Json.NumToken.text, Json.NumToken.ofInt, Json.fracText, Json.expText, List.append_nil, decide_eq_true_eq]
  split_ifs <;> rfl

theorem not_isIntSpace_str (n : ℤ) : ∀ p ∈ str n, ¬ isIntSpace p := by
  have hdigit : ∀ d, ¬ isIntSpace (Json.digitPoint d) := by decide +kernel
  have hminus : ¬ isIntSpace (CodePoint.ofChar '-') := by decide +kernel
  intro p hp
  rw [str_eq, List.mem_append] at hp
  rcases hp with hp | hp
  · split_ifs at hp
    · rw [List.mem_singleton.1 hp]
      exact hminus
    · cases hp
  · obtain ⟨d, -, rfl⟩ := List.mem_map.1 hp
    exact hdigit d

/-- an integer is read back from its text -/
theorem parseInt_str (n : ℤ) : parseInt (str n) = .ok n := by
  have hspace := not_isIntSpace_str n
  have hleft : (str n).dropWhile isIntSpace = str n :=
    List.dropWhile_eq_self_iff.2 fun h => hspace _ (List.getElem_mem h)
  have hright : (str n).rdropWhile isIntSpace = str n :=
    List.rdropWhile_eq_self_iff.2 fun h => hspace _ (List.getLast_mem h)
  have hsign : Json.scanSign (str n) =
      (if n < 0 then some false else none, Json.digits (Json.digitsOfNat n.natAbs)) := by
    have h := Json.scanSign_text (if n < 0 then some false else none) (digitsOfNat_ne_nil n.natAbs) []
    rwa [List.append_nil, List.append_nil, ← str_eq] at h
  rw [parseInt, hleft, hright, hsign]
  dsimp only
  rw [groupedDigits_digits (digitsOfNat_ne_nil _)]
  dsimp only
  rw [Json.natOfDigits_digitsOfNat]
  refine congrArg Except.ok ?_
  split_ifs with hneg h' h'
  · omega
  · exact absurd rfl h'
  · cases h'
  · omega

/-- square and multiply over the bits of the exponent -/
def powModLoop (m : ℕ) : ℕ → ℤ → ℤ → ℕ → ℤ
  | 0, result, _, _ => result
  | fuel + 1, result, base, e =>
    if e = 0 then result
    else powModLoop m fuel (if e % 2 = 1 then result * base % m else result) (base * base % m) (e / 2)

/-- `pow(a, e, m)` -/
def powMod (a : ℤ) (e m : ℕ) : ℤ := powModLoop m (e.log2 + 1) (1 % m) (a % m) e

theorem powModLoop_eq {m fuel : ℕ} {result base : ℤ} {e : ℕ} (hr : result % m = result) (he : e < 2 ^ fuel) :
    powModLoop m fuel result base e = result * base ^ e % m := by
  induction fuel generalizing result base e with
  | zero =>
    have : e = 0 := by omega
    rw [powModLoop, this, pow_zero, mul_one, hr]
  | succ fuel ih =>
    rw [powModLoop]
    split_ifs with h0 hodd
    · rw [h0, pow_zero, mul_one, hr]
    · have hexp : base ^ e = base * (base * base) ^ (e / 2) := by
        conv_lhs => rw [← Nat.div_add_mod e 2, hodd, pow_add, pow_mul, pow_one, sq, mul_comm]
      rw [ih (Int.emod_emod_of_dvd _ dvd_rfl) (by omega), hexp, ← mul_assoc]
      exact (Int.mod_modEq _ _).mul ((Int.mod_modEq _ _).pow _)
    · have hexp : base ^ e = (base * base) ^ (e / 2) := by
        have h2 : e % 2 = 0 := by omega
        conv_lhs => rw [← Nat.div_add_mod e 2, h2, add_zero, pow_mul, sq]
      rw [ih hr (by omega), hexp]
      exact (Int.ModEq.refl _).mul ((Int.mod_modEq _ _).pow _)

theorem powMod_eq (a : ℤ) (e m : ℕ) : powMod a e m = a ^ e % m := by
  rw [powMod, powModLoop_eq (Int.emod_emod_of_dvd _ dvd_rfl) Nat.lt_log2_self]
  have h : (1 % (m : ℤ)) * (a % m) ^ e ≡ 1 * a ^ e [ZMOD m] := (Int.mod_modEq _ _).mul ((Int.mod_modEq _ _).pow _)
  rwa [one_mul] at h

/-- `n.to_bytes(length, "big")` for a number that is not negative -/
def toBytes (n : ℕ) (length : ℤ) : Except Exc Bytes :=
  if length < 0 then .error ⟨.valueError, "length argument must be non-negative"⟩
  else if 256 ^ length.toNat ≤ n then .error ⟨.overflowError, "int too big to convert"⟩
  else .ok (beBytes length.toNat n)

/-! ## Comparing digests -/

/-- `hmac.compare_digest(a, b)` of strings -/
def compareDigest (a b : Text) : Except Exc Bool :=
  if (a ++ b).any fun p => 128 ≤ p.val then
    .error ⟨.typeError, "comparing strings with non-ASCII characters is not supported"⟩
  else .ok (decide (a = b))

theorem compareDigest_true_iff {a b : Text} (ha : ∀ p ∈ a, p.val < 128) : compareDigest a b = .ok true ↔ a = b := by
  rw [compareDigest]
  split_ifs with h
  · refine iff_of_false (fun h => by cases h) ?_
    rintro rfl
    obtain ⟨p, hp, hge⟩ := List.any_eq_true.1 h
    rw [List.mem_append, or_self] at hp
    exact absurd (ha p hp) (Nat.not_lt.2 (by simpa using hge))
  · rw [Except.ok.injEq, decide_eq_true_eq]

theorem compareDigest_comm (a b : Text) : compareDigest a b = compareDigest b a := by
  rw [compareDigest, compareDigest, List.any_append, List.any_append, Bool.or_comm, decide_eq_decide.2 (eq_comm (a := a))]

theorem hexdigest_ascii (b : Bytes) : ∀ p ∈ Text.ofString (Text.hexdigest b), p.val < 128 := by
  intro p hp
  rw [Text.ofString, Text.hexdigest, String.toList_ofList, List.map_flatMap] at hp
  obtain ⟨x, -, hp⟩ := List.mem_flatMap.1 hp
  rcases List.mem_pair.1 hp with rfl | rfl <;> exact Json.hexPoint_ascii _

/-! ## Libraries and host -/

/-- the ciphers and hashes, and how a float is printed -/
structure Libs where
  /-- HKDF with SHA-256 and an output of 32 bytes, from salt, info and key material -/
  hkdf : Bytes → Bytes → Bytes → Digest
  /-- AES-GCM without associated data, from key, nonce and text; the tag is the last 16 bytes of the ciphertext -/
  gcmEncrypt : Bytes → Bytes → Bytes → Bytes
  gcmDecrypt : Bytes → Bytes → Bytes → Option Bytes
  sha256 : Bytes → Digest
  sha3_256 : Bytes → Digest
  /-- how a float is written -/
  float : FloatText ℚ
  /-- `repr` of a list of pairs of strings, which is free of surrogates -/
  itemsRepr : List (Text × Text) → String

/-- `repr` of a float -/
def Libs.floatRepr (l : Libs) (x : ℚ) : Text := (l.float.token x).text

theorem Libs.floatRepr_encode (l : Libs) (x : ℚ) : (l.floatRepr x).encode.isSome :=
  Text.encode_isSome_of_ascii (Json.text_ascii _)

/-- what a reading of the clock is for -/
inductive Reading where
  | audit (action : String)
  | register
  | expiry
  | usage
  | operation
  | proof
  | freshness
  | challenge
deriving DecidableEq, Repr

/-- what the host answers during one call: the clock, random bytes, the script file (none if it cannot be read), the
environment, the process -/
structure Host where
  clock : Reading → ℚ
  secret : Digest
  nonce : Nonce
  canaryId : Vector UInt8 8
  memoryCanary : Vector UInt8 16
  challenge : Vector UInt8 32
  runtimeChallenge : Vector UInt8 16
  binary : Option Bytes
  environ : List (Text × Text)
  pid : ℕ

namespace AESGCM

variable (l : Libs)

/-- `AESGCM(key)` -/
def new (key : Bytes) : Except Exc Unit :=
  if key.length = 16 ∨ key.length = 24 ∨ key.length = 32 then .ok ()
  else .error ⟨.valueError, "AESGCM key must be 128, 192, or 256 bits."⟩

def checkNonce (nonce : Bytes) : Except Exc Unit :=
  if 8 ≤ nonce.length ∧ nonce.length ≤ 128 then .ok ()
  else .error ⟨.valueError, "Nonce must be between 8 and 128 bytes"⟩

/-- `AESGCM(key).encrypt(nonce, data, None)` -/
def encrypt (key nonce data : Bytes) : Except Exc Bytes := do
  new key
  if 2 ^ 31 - 1 < data.length then .error ⟨.overflowError, "Data or associated data too long. Max 2**31 - 1 bytes"⟩
  else do
    checkNonce nonce
    .ok (l.gcmEncrypt key nonce data)

/-- `AESGCM(key).decrypt(nonce, data, None)`; the exception of a failed authentication has no text -/
def decrypt (key nonce data : Bytes) : Except Exc Bytes := do
  new key
  checkNonce nonce
  match l.gcmDecrypt key nonce data with
  | some p => .ok p
  | none => .error ⟨.invalidTag, ""⟩

variable {l}

theorem decrypt_ok_iff {key nonce data p : Bytes} : decrypt l key nonce data = .ok p ↔
    (key.length = 16 ∨ key.length = 24 ∨ key.length = 32) ∧ (8 ≤ nonce.length ∧ nonce.length ≤ 128) ∧
      l.gcmDecrypt key nonce data = some p := by
  rw [decrypt, new, checkNonce]
  by_cases hk : key.length = 16 ∨ key.length = 24 ∨ key.length = 32
  · rw [if_pos hk, Outcome.ok_bind]
    by_cases hn : 8 ≤ nonce.length ∧ nonce.length ≤ 128
    · rw [if_pos hn, Outcome.ok_bind]
      cases l.gcmDecrypt key nonce data <;> simp [hk, hn]
    · rw [if_neg hn]
      exact iff_of_false (fun h => by cases h) fun h => hn h.2.1
  · rw [if_neg hk]
    exact iff_of_false (fun h => by cases h) fun h => hk h.1

end AESGCM

end AbirGuard.Python
