/-
What the Go module uses of its language and standard library: strings, errors and panics, the clock, base64, AES-GCM.

A Go string is a sequence of bytes. A call ends with a value, with an error, which is its text, or with a panic.

- `stdDecode_encode`: the decoder of `base64.StdEncoding`, which skips line breaks and ignores the bits under the padding,
  inverts the encoder.
- `gcmOpen_seal`: what GCM seals it opens under the same key and nonce.
- `gcmOpen_panics_iff`: the arguments that opening panics on.
-/
import AbirGuard.Core.Aead
import AbirGuard.Core.Base64
import AbirGuard.Core.Raise
import AbirGuard.Core.Sha256

namespace AbirGuard.Go

open AbirGuard.Core

/-! ## Strings, errors and panics -/

abbrev GoString := Bytes

instance : Coe String GoString := ⟨utf8⟩

inductive Fault where
  | error (msg : GoString)
  | panic (msg : GoString)
deriving DecidableEq

/-! ## The clock -/

/-- a reading of the wall clock in the local zone -/
structure Time where
  year : ℕ
  month : ℕ
  day : ℕ
  hour : ℕ
  minute : ℕ
  second : ℕ
  nanosecond : ℕ
deriving DecidableEq, Repr

/-- the zero value of `time.Time` -/
def Time.zero : Time := ⟨1, 1, 1, 0, 0, 0, 0⟩

/-- a number in decimal with at least w digits -/
def decimal (w n : ℕ) : GoString := ((Nat.toDigits 10 n).leftpad w '0').map fun c => UInt8.ofNat c.toNat

/-- `t.Format("20060102150405")` -/
def Time.format (t : Time) : GoString :=
  decimal 4 t.year ++ decimal 2 t.month ++ decimal 2 t.day ++ decimal 2 t.hour ++ decimal 2 t.minute ++ decimal 2 t.second

/-! ## Base64 -/

/-- the bytes of a string as the characters with these numbers -/
def chars (s : GoString) : List Char := s.map fun b => Char.ofNat b.toNat

def stdEncode (b : Bytes) : GoString := (base64Encode b).map fun c => UInt8.ofNat c.toNat

def isNewline (c : Char) : Bool := c = '\n' ∨ c = '\r'

/-- the bytes of a group of two, three or four sextets; the bits left over are dropped -/
def groupBytes : List ℕ → Bytes
  | [w, x] => [UInt8.ofNat (w * 4 + x / 16)]
  | [w, x, y] => [UInt8.ofNat (w * 4 + x / 16), UInt8.ofNat (x % 16 * 16 + y / 4)]
  | [w, x, y, z] => [UInt8.ofNat (w * 4 + x / 16), UInt8.ofNat (x % 16 * 16 + y / 4), UInt8.ofNat (y % 4 * 64 + z)]
  | _ => []

/-- the end of the text, from position si on: nothing but line breaks -/
def endOfText (si : ℕ) (group : List ℕ) (rest : List Char) : Except ℕ Bytes :=
  if (rest.dropWhile isNewline).isEmpty then .ok (groupBytes group) else .error (si + (rest.takeWhile isNewline).length)

/-- what follows a first pad at position si -/
def padding (si : ℕ) (group : List ℕ) (rest : List Char) : Except ℕ Bytes :=
  if group.length < 2 then .error si
  else if group.length = 2 then
    -- a second pad is expected
    let skipped := (rest.takeWhile isNewline).length
    match rest.dropWhile isNewline with
    | [] => .error (si + 1 + rest.length)
    | c :: rest => if c ≠ '=' then .error (si + skipped) else endOfText (si + 2 + skipped) group rest
  else endOfText (si + 1) group rest

/-- `Decode`, from position si on with the sextets of the current group; an error is the position of a corrupt byte -/
def decodeFrom (si : ℕ) (group : List ℕ) : List Char → Except ℕ Bytes
  | [] => if group.isEmpty then .ok [] else .error (si - group.length)
  | c :: rest =>
    match sextet? c with
    | some v =>
      if group.length = 3 then (groupBytes (group ++ [v]) ++ ·) <$> decodeFrom (si + 1) [] rest
      else decodeFrom (si + 1) (group ++ [v]) rest
    | none =>
      if isNewline c then decodeFrom (si + 1) group rest
      else if c ≠ '=' then .error si
      else padding si group rest

/-- `base64.StdEncoding.DecodeString(s)` -/
def stdDecode (s : GoString) : Except GoString Bytes :=
  (decodeFrom 0 [] (chars s)).mapError fun pos => "illegal base64 data at input byte " ++ decimal 1 pos

theorem ofNat_toNat_of_ascii {c : Char} (h : c.toNat < 128) : Char.ofNat (UInt8.ofNat c.toNat).toNat = c := by
  have hsize : c.toNat < UInt8.size := by
    rw [UInt8.size]
    omega
  rw [UInt8.toNat_ofNat_of_lt' hsize]
  exact Char.ofNat_toNat c

theorem sextet_ascii (n : ℕ) : (sextet n).toNat < 128 := by
  by_cases h : n < 64
  · have hall : ∀ n : Fin 64, (sextet n).toNat < 128 := by decide +kernel
    exact hall ⟨n, h⟩
  · have hlength : base64Alphabet.length = 64 := by decide +kernel
    rw [sextet, List.getD_eq_getElem?_getD, List.getElem?_eq_none (by omega)]
    decide

theorem chars_stdEncode (b : Bytes) : chars (stdEncode b) = base64Encode b := by
  have hall : ∀ c ∈ base64Encode b, c.toNat < 128 := by
    induction b using base64Encode.induct with
    | case1 => simp [base64Encode]
    | case2 a => simp [base64Encode, sextet_ascii]
    | case3 a b => simp [base64Encode, sextet_ascii]
    | case4 a b c rest ih => simpa [base64Encode, sextet_ascii] using ih
  rw [chars, stdEncode, List.map_map]
  refine (List.map_congr_left fun c hc => ?_).trans (List.map_id _)
  exact ofNat_toNat_of_ascii (hall c hc)

theorem decodeFrom_sextet {group : List ℕ} (hgroup : group.length ≠ 3) {v : ℕ} (hv : v < 64) (si : ℕ) (rest : List Char) :
    decodeFrom si group (sextet v :: rest) = decodeFrom (si + 1) (group ++ [v]) rest := by
  rw [decodeFrom, sextet?_sextet hv]
  exact if_neg hgroup

theorem decodeFrom_group {group : List ℕ} (hgroup : group.length = 3) {v : ℕ} (hv : v < 64) (si : ℕ) (rest : List Char) :
    decodeFrom si group (sextet v :: rest) = (groupBytes (group ++ [v]) ++ ·) <$> decodeFrom (si + 1) [] rest := by
  rw [decodeFrom, sextet?_sextet hv]
  exact if_pos hgroup

theorem decodeFrom_pad (si : ℕ) (group : List ℕ) (rest : List Char) :
    decodeFrom si group ('=' :: rest) = padding si group rest := by
  have hpad : sextet? '=' = none := by decide +kernel
  rw [decodeFrom, hpad]
  rfl

theorem decodeFrom_encode (b : Bytes) (si : ℕ) : decodeFrom si [] (base64Encode b) = .ok b := by
  induction b using base64Encode.induct generalizing si with
  | case1 => rfl
  | case2 a =>
    have ha := a.toNat_lt
    rw [base64Encode, decodeFrom_sextet (by simp) (by omega), decodeFrom_sextet (by simp) (by omega), decodeFrom_pad]
    change Except.ok [UInt8.ofNat _] = _
    rw [ofNat_eq_of_toNat (a := a) (by omega)]
  | case3 a b =>
    have ha := a.toNat_lt
    have hb := b.toNat_lt
    rw [base64Encode, decodeFrom_sextet (by simp) (by omega), decodeFrom_sextet (by simp) (by omega),
      decodeFrom_sextet (by simp) (by omega), decodeFrom_pad]
    change Except.ok [UInt8.ofNat _, UInt8.ofNat _] = _
    rw [ofNat_eq_of_toNat (a := a) (by omega), ofNat_eq_of_toNat (a := b) (by omega)]
  | case4 a b c rest ih =>
    have ha := a.toNat_lt
    have hb := b.toNat_lt
    have hc := c.toNat_lt
    rw [base64Encode, decodeFrom_sextet (by simp) (by omega), decodeFrom_sextet (by simp) (by omega),
      decodeFrom_sextet (by simp) (by omega), decodeFrom_group (by simp) (by omega), ih, Outcome.map_ok]
    change Except.ok ([UInt8.ofNat _, UInt8.ofNat _, UInt8.ofNat _] ++ rest) = _
    rw [ofNat_eq_of_toNat (a := a) (by omega), ofNat_eq_of_toNat (a := b) (by omega), ofNat_eq_of_toNat (a := c) (by omega)]
    rfl

/-- decoding inverts encoding -/
theorem stdDecode_encode (b : Bytes) : stdDecode (stdEncode b) = .ok b := by
  rw [stdDecode, chars_stdEncode, decodeFrom_encode]
  rfl

/-! ## AES-GCM -/

/-- the longest plaintext of one nonce -/
def gcmMaxText : ℕ := (2 ^ 32 - 2) * 16

/-- `aesGCM.Seal(nil, nonce, plaintext, nil)` -/
def gcmSeal (aead : Aead Digest) (key : Digest) (nonce : Nonce) (plaintext : Bytes) : Except Fault Bytes :=
  if gcmMaxText < plaintext.length then .error (.panic "crypto/cipher: message too large for GCM")
  else .ok (aead.encrypt key nonce plaintext)

/-- `aesGCM.Open(nil, nonce, sealed, nil)` -/
def gcmOpen (aead : Aead Digest) (key : Digest) (nonce sealed : Bytes) : Except Fault Bytes :=
  if h : nonce.length = 12 then
    if sealed.length < 16 ∨ gcmMaxText + 16 < sealed.length then .error (.error "cipher: message authentication failed")
    else match aead.decrypt key ⟨nonce.toArray, h⟩ sealed with
      | some plaintext => .ok plaintext
      | none => .error (.error "cipher: message authentication failed")
  else .error (.panic "crypto/cipher: incorrect nonce length given to GCM")

variable {aead : Aead Digest} {key : Digest}

/-- what is sealed opens under the same key and nonce -/
theorem gcmOpen_seal (haead : aead.Correct) {nonce : Nonce} {plaintext : Bytes} (h : plaintext.length ≤ gcmMaxText) :
    gcmOpen aead key nonce.toList (aead.encrypt key nonce plaintext) = .ok plaintext := by
  have hlength := haead.length_encrypt key nonce plaintext
  rw [gcmOpen, dif_pos nonce.length_toList, if_neg (by omega)]
  have hnonce : (⟨nonce.toList.toArray, by simp⟩ : Nonce) = nonce := rfl
  rw [hnonce, haead.decrypt_encrypt]

theorem gcmOpen_panics_iff {nonce sealed : Bytes} :
    (∃ msg, gcmOpen aead key nonce sealed = .error (.panic msg)) ↔ nonce.length ≠ 12 := by
  rw [gcmOpen]
  split_ifs with h hlength
  · simp [h]
  · cases aead.decrypt key ⟨nonce.toArray, h⟩ sealed <;> simp [h]
  · simp [h]

end AbirGuard.Go
