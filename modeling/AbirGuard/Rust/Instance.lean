/-
One lawful set of crates: `tiny`. Keys are single bytes, the cipher tags a text with its key, the derivations keep the
first byte of their input, and a record is stored as a frame of its fields. It hides nothing; it shows that what the results
ask of the crates can be had together, and it lets a run be computed.
-/
import AbirGuard.Core.Base64
import AbirGuard.Rust.Cli

namespace AbirGuard.Rust

open AbirGuard.Core

/-- lists of records, each a list of fields -/
def records {α : Type} (fields : α → List Bytes) (ofFields : List Bytes → Except String α) : Codec (List α) Bytes where
  encode l := framed.encode (l.map fun a => framed.encode (fields a))
  decode b := do (← framed.decode b).mapM fun r => do ofFields (← framed.decode r)

theorem records_lawful {α : Type} {fields : α → List Bytes} {ofFields : List Bytes → Except String α}
    (h : ∀ a, ofFields (fields a) = .ok a) : (records fields ofFields).Lawful := by
  intro l
  simp only [records, framed_lawful _, Outcome.ok_bind]
  induction l with
  | nil => rfl
  | cons a l ih =>
    rw [List.map_cons, List.mapM_cons, framed_lawful, Outcome.ok_bind, h, Outcome.ok_bind, ih]
    rfl

def textOf (b : Bytes) : Except String String :=
  match fromUtf8 b with
  | some s => .ok s
  | none => .error (utf8Error b)

@[simp] theorem textOf_utf8 (s : String) : textOf (utf8 s) = .ok s := by simp [textOf]

def storedKeys : Codec (List StoredKey) Bytes :=
  records (fun s => [utf8 s.keyId, utf8 s.publicKey, utf8 s.secretKey]) fun
    | [id, pk, sk] => do .ok ⟨← textOf id, ← textOf pk, ← textOf sk⟩
    | _ => .error "invalid record"

def storedMldsaKeys : Codec (List StoredMldsaKey) Bytes :=
  records (fun s => [utf8 s.keyId, utf8 s.signingKeyB64, utf8 s.verifyingKeyB64]) fun
    | [id, sk, vk] => do .ok ⟨← textOf id, ← textOf sk, ← textOf vk⟩
    | _ => .error "invalid record"

/-- signing keys of 4032 and verifying keys of 1952 copies of one byte; a signature is 3309 copies of it -/
def tinyMldsa : Fips204 where
  tryKeygen seed := .ok (List.replicate 1952 (seed.headD 0), List.replicate 4032 (seed.headD 0))
  privateKeyFromBytes _ := .ok ()
  publicKeyFromBytes _ := .ok ()
  trySign sk _ _ := .ok (List.replicate 3309 (sk.headD 0))
  verify pk _ sig := sig = List.replicate 3309 (pk.headD 0)

def tiny : VaultCrates UInt8 where
  base64 := base64
  aead := Aead.tagged
  hkdf _ ikm _ := ikm.headD 0
  encapsulationKey seed := seed
  argon2id passphrase _ := passphrase.headD 0
  json := storedKeys
  mldsaJson := storedMldsaKeys
  fips204 := tinyMldsa
  sha3_512 data := data
  isAlphanumeric := Char.isAlphanum

theorem tiny_correct : tiny.Correct where
  base64 := base64_lawful
  aead := Aead.tagged_correct
  json := records_lawful fun s => by simp
  mldsaJson := records_lawful fun s => by simp

theorem valid_a : Cli.validateKeyId tiny "a" = .ok () := by decide +kernel

theorem valid_b : Cli.validateKeyId tiny "b" = .ok () := by decide +kernel

/-- a draw with given seeds, everything else zero -/
def tinyDraw (seed : Bytes) : CmdDraw where
  seed := seed
  nonce := Vector.replicate 12 0
  elapsed := 0
  salt := Vector.replicate 16 0
  fileNonce := Vector.replicate 12 0
  write := .done
  mldsaSeed := seed
  signRandom := []
  stdin := ""
  shamirRandom _ _ := 0

end AbirGuard.Rust
