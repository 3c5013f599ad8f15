/-
Does decapsulation give back the secret of an encapsulation under the hybrid KEM?

Keys and ciphertexts are those of ML-KEM with 32 bytes of X25519 behind them, and both sides cut at the last 32 bytes, but only
an input that is longer than that. The backend is `pqcrypto`, the object of `liboqs`, which keeps a state, or X25519 itself;
the libraries are parameters. What goes wrong in the X25519 part of a call is replaced by random bytes, or by zeros.

- `send_receive`: both sides of an X25519 agreement derive the same secret.
- `mlKem_decapsulate`: every backend takes back what it encapsulates, under the watchdog and whatever the mode.
- `hybrid_decapsulate`: so does the hybrid KEM, without any substitute, where no key or ciphertext of the backend is empty.
- `empty_parts`: a part of length 0 is not cut off, and the secrets differ.
-/
import AbirGuard.Core.Raise
import AbirGuard.Python.FipsEnforcement

namespace AbirGuard.Python.HybridKem

open AbirGuard.Core Raise

/-! ## X25519 -/

/-- the 32 raw bytes of a key -/
abbrev Key : Type := {b : Bytes // b.length = 32}

/-- `SecurityException`, or what the libraries raise -/
inductive KemExc where
  | securityException (msg : Text)
  | exc (e : Exc)
deriving DecidableEq, Repr

/-- X25519 and HKDF of the library, and how a float is printed with three decimals -/
structure Primitives where
  publicKey : Key → Key
  exchange : Key → Key → Except KemExc Bytes
  /-- HKDF with SHA-256 and an output of 32 bytes, from salt, info and key material -/
  hkdf : Bytes → Bytes → Bytes → Bytes
  seconds : ℚ → Text

/-- the agreement is commutative, and a secret comes of it -/
def Primitives.Agrees (p : Primitives) : Prop :=
  ∀ a b, ∃ shared, p.exchange a (p.publicKey b) = .ok shared ∧ p.exchange b (p.publicKey a) = .ok shared

/-- `X25519PublicKey.from_public_bytes` -/
def fromPublicBytes (data : Bytes) : Except KemExc Key :=
  if h : data.length = 32 then .ok ⟨data, h⟩ else .error (.exc ⟨.valueError, "An X25519 public key is 32 bytes long"⟩)

/-- `X25519PrivateKey.from_private_bytes` -/
def fromPrivateBytes (data : Bytes) : Except KemExc Key :=
  if h : data.length = 32 then .ok ⟨data, h⟩ else .error (.exc ⟨.valueError, "An X25519 private key is 32 bytes long"⟩)

/-- salt and info of a derived secret -/
structure Label where
  salt : Bytes
  info : Bytes

def kemLabel : Label := ⟨utf8 "Abir-Guard-PQC-2026", utf8 "kem-shared-secret"⟩

def hybridLabel : Label := ⟨utf8 "Abir-Guard-Hybrid-X25519-2026", utf8 "hybrid-kem-x25519"⟩

variable (p : Primitives)

/-- the side that generates an ephemeral key: its public bytes and the derived secret -/
def send (label : Label) (ephemeral : Key) (publicKeyBytes : Bytes) : Except KemExc (Bytes × Bytes) := do
  let recipient ← fromPublicBytes publicKeyBytes
  let shared ← p.exchange ephemeral recipient
  pure ((p.publicKey ephemeral).val, p.hkdf label.salt label.info shared)

/-- the side that receives them -/
def receive (label : Label) (ciphertext secretKeyBytes : Bytes) : Except KemExc Bytes := do
  let sk ← fromPrivateBytes secretKeyBytes
  let ephemeral ← fromPublicBytes ciphertext
  let shared ← p.exchange sk ephemeral
  pure (p.hkdf label.salt label.info shared)

variable {p}

theorem fromPublicBytes_val (k : Key) : fromPublicBytes k.val = .ok k := dif_pos k.property

theorem fromPrivateBytes_val (k : Key) : fromPrivateBytes k.val = .ok k := dif_pos k.property

/-- the two sides derive one secret, and none of their steps raises -/
theorem send_receive (h : p.Agrees) (label : Label) (ephemeral sk : Key) :
    ∃ ss, send p label ephemeral (p.publicKey sk).val = .ok ((p.publicKey ephemeral).val, ss) ∧
      receive p label (p.publicKey ephemeral).val sk.val = .ok ss := by
  obtain ⟨shared, hsend, hreceive⟩ := h ephemeral sk
  refine ⟨p.hkdf label.salt label.info shared, ?_, ?_⟩
  · rw [send, fromPublicBytes_val]
    simp only [bind, Except.bind, hsend, pure, Except.pure]
  · rw [receive, fromPrivateBytes_val, fromPublicBytes_val]
    simp only [bind, Except.bind, hreceive, pure, Except.pure]

/-! ## ML-KEM -/

section MLKEM1024

variable {σ ρ : Type}

/-- what `pqcrypto` exports; the coins that a call draws are an argument -/
structure Pqcrypto (ρ : Type) where
  generateKeypair : ρ → Except KemExc (Bytes × Bytes)
  encrypt : ρ → Bytes → Except KemExc (Bytes × Bytes)
  decrypt : Bytes → Bytes → Except KemExc Bytes

/-- the object of `liboqs`, which keeps the secret key and the shared secret that it exports -/
structure Liboqs (σ ρ : Type) where
  generateKeypair : ρ → Raise KemExc σ Bytes
  exportSecretKey : Raise KemExc σ Bytes
  encapsulate : ρ → Bytes → Raise KemExc σ Bytes
  exportSharedSecret : Raise KemExc σ Bytes
  decapsulate : Bytes → Bytes → Raise KemExc σ Bytes

/-- `_backend` and `_kem` -/
inductive MLKEM1024 (σ ρ : Type) where
  | pqcrypto (kem : Pqcrypto ρ)
  | liboqs (kem : Liboqs σ ρ)
  | x25519

/-- `HANDSHAKE_TIMEOUT` -/
def HANDSHAKE_TIMEOUT : ℚ := 1 / 5

/-- what `keygen` draws: the coins of the backend, or the key of the fallback -/
structure KeyDraw (ρ : Type) where
  coins : ρ
  sk : Key

/-- what `encapsulate` draws and reads: the switch of the class, and the time that passes -/
structure Draw (ρ : Type) where
  fipsMode : Bool
  coins : ρ
  ephemeral : Key
  elapsed : ℚ

namespace MLKEM1024

variable (p)

def backend : MLKEM1024 σ ρ → Python.MLKEM1024.Backend
  | .pqcrypto _ => .pqcrypto
  | .liboqs _ => .liboqs
  | .x25519 => .x25519

def keygen (d : KeyDraw ρ) : MLKEM1024 σ ρ → Raise KemExc σ (Bytes × Bytes)
  | .pqcrypto kem => lift (kem.generateKeypair d.coins)
  | .liboqs kem => do
    let pk ← kem.generateKeypair d.coins
    let sk ← kem.exportSecretKey
    pure (pk, sk)
  | .x25519 => pure ((p.publicKey d.sk).val, d.sk.val)

/-- the call of the backend in `encapsulate` -/
def encrypt (d : Draw ρ) (publicKey : Bytes) : MLKEM1024 σ ρ → Raise KemExc σ (Bytes × Bytes)
  | .pqcrypto kem => lift (kem.encrypt d.coins publicKey)
  | .liboqs kem => do
    let ct ← kem.encapsulate d.coins publicKey
    let ss ← kem.exportSharedSecret
    pure (ct, ss)
  | .x25519 => lift (send p kemLabel d.ephemeral publicKey)

def encapsulate (kem : MLKEM1024 σ ρ) (d : Draw ρ) (publicKey : Bytes) : Raise KemExc σ (Bytes × Bytes) := do
  Raise.when (kem.backend = .x25519 ∧ d.fipsMode = true) (throw (.exc Python.MLKEM1024.fallbackBlocked))
  let result ← kem.encrypt p d publicKey
  Raise.when (HANDSHAKE_TIMEOUT < d.elapsed) (throw (.securityException
    ("Latency Anomaly: " ++ p.seconds d.elapsed ++ "s (expected <0.2s). Potential entropy injection attack.")))
  pure result

def decapsulate (ciphertext secretKey : Bytes) : MLKEM1024 σ ρ → Raise KemExc σ Bytes
  | .pqcrypto kem => lift (kem.decrypt secretKey ciphertext)
  | .liboqs kem => kem.decapsulate ciphertext secretKey
  | .x25519 => lift (receive p kemLabel ciphertext secretKey)

end MLKEM1024

/-! ## The hybrid -/

/-- what `HybridKem.keygen` draws -/
structure HybridKeyDraw (ρ : Type) where
  mlKem : KeyDraw ρ
  sk : Key

/-- what `HybridKem.encapsulate` draws and reads -/
structure HybridDraw (ρ : Type) where
  mlKem : Draw ρ
  ephemeral : Key
  /-- the two draws of `secrets.token_bytes(32)` -/
  randomSecret : Bytes
  randomCiphertext : Bytes
  elapsed : ℚ

/-- `b[:-32]` -/
def butLast32 (b : Bytes) : Bytes := b.take (b.length - 32)

/-- `b[-32:]` -/
def last32 (b : Bytes) : Bytes := b.drop (b.length - 32)

/-- `b[:-32] if len(b) > 32 else b` -/
def mlPart (b : Bytes) : Bytes := if 32 < b.length then butLast32 b else b

variable (p)

/-- `HybridKem.keygen` -/
def keygen (kem : MLKEM1024 σ ρ) (d : HybridKeyDraw ρ) : Raise KemExc σ (Bytes × Bytes) := do
  let ml ← kem.keygen p d.mlKem
  pure (ml.1 ++ (p.publicKey d.sk).val, ml.2 ++ d.sk.val)

/-- what `HybridKem.encapsulate` tries: the ephemeral public key and the derived secret -/
def trySend (ephemeral : Key) (publicKey : Bytes) : Except KemExc (Bytes × Bytes) :=
  send p hybridLabel ephemeral (last32 publicKey)

/-- `HybridKem.encapsulate` -/
def encapsulate (kem : MLKEM1024 σ ρ) (d : HybridDraw ρ) (publicKey : Bytes) : Raise KemExc σ (Bytes × Bytes) := do
  let ml ← kem.encapsulate p d.mlKem (mlPart publicKey)
  let x ← tryCatch (lift (trySend p d.ephemeral publicKey)) fun _ => pure (d.randomCiphertext, d.randomSecret)
  Raise.when (HANDSHAKE_TIMEOUT < d.elapsed)
    (throw (.securityException ("Hybrid handshake latency anomaly: " ++ p.seconds d.elapsed ++ "s")))
  pure (ml.1 ++ x.1, (sha256 (ml.2 ++ x.2)).toList)

/-- what `HybridKem.decapsulate` tries -/
def tryReceive (ciphertext secretKey : Bytes) : Except KemExc Bytes :=
  receive p hybridLabel (last32 ciphertext) (if 32 < secretKey.length then last32 secretKey else secretKey)

/-- `HybridKem.decapsulate` -/
def decapsulate (kem : MLKEM1024 σ ρ) (ciphertext secretKey : Bytes) : Raise KemExc σ Bytes := do
  let mlSs ← kem.decapsulate p (mlPart ciphertext) (mlPart secretKey)
  let xSs ← tryCatch (lift (tryReceive p ciphertext secretKey)) fun _ => pure (List.replicate 32 0)
  pure (sha256 (mlSs ++ xSs)).toList

variable {p}

/-! ## What the libraries promise -/

/-- decapsulation inverts encapsulation -/
def Pqcrypto.Inverts (kem : Pqcrypto ρ) : Prop :=
  ∀ coins pk sk, kem.generateKeypair coins = .ok (pk, sk) →
    ∀ coins' ct ss, kem.encrypt coins' pk = .ok (ct, ss) → kem.decrypt sk ct = .ok ss

/-- decapsulation inverts encapsulation, whatever the object did in between -/
def Liboqs.Inverts (kem : Liboqs σ ρ) : Prop :=
  ∀ coins s pk s₁ sk s₂, run (kem.generateKeypair coins) s = (.ok pk, s₁) → run kem.exportSecretKey s₁ = (.ok sk, s₂) →
    ∀ coins' t ct t₁ ss t₂, run (kem.encapsulate coins' pk) t = (.ok ct, t₁) →
      run kem.exportSharedSecret t₁ = (.ok ss, t₂) → ∀ u, (run (kem.decapsulate ct sk) u).1 = .ok ss

/-- the fallback has nothing of its own to promise -/
def MLKEM1024.Inverts : MLKEM1024 σ ρ → Prop
  | .pqcrypto kem => kem.Inverts
  | .liboqs kem => kem.Inverts
  | .x25519 => True

/-- the lengths of public keys, secret keys and ciphertexts -/
structure Lengths where
  pk : ℕ
  sk : ℕ
  ct : ℕ

def Pqcrypto.Sized (kem : Pqcrypto ρ) (n : Lengths) : Prop :=
  ∀ coins pk sk, kem.generateKeypair coins = .ok (pk, sk) → pk.length = n.pk ∧ sk.length = n.sk ∧
    ∀ coins' ct ss, kem.encrypt coins' pk = .ok (ct, ss) → ct.length = n.ct

def Liboqs.Sized (kem : Liboqs σ ρ) (n : Lengths) : Prop :=
  ∀ coins s pk s₁ sk s₂, run (kem.generateKeypair coins) s = (.ok pk, s₁) → run kem.exportSecretKey s₁ = (.ok sk, s₂) →
    pk.length = n.pk ∧ sk.length = n.sk ∧
    ∀ coins' t ct t₁, run (kem.encapsulate coins' pk) t = (.ok ct, t₁) → ct.length = n.ct

/-- the keys and ciphertexts of the backend have these lengths -/
def MLKEM1024.Sized (n : Lengths) : MLKEM1024 σ ρ → Prop
  | .pqcrypto kem => kem.Sized n
  | .liboqs kem => kem.Sized n
  | .x25519 => n = ⟨32, 32, 32⟩

/-- none of the lengths is 0 -/
def Lengths.Positive (n : Lengths) : Prop := 0 < n.pk ∧ 0 < n.sk ∧ 0 < n.ct

/-! ## Round trips -/

variable {kem : MLKEM1024 σ ρ}

/-- behind its checks `encapsulate` returns what the backend returned -/
theorem encrypt_of_encapsulate {d : Draw ρ} {pk : Bytes} {s s' : σ} {result : Bytes × Bytes}
    (h : run (kem.encapsulate p d pk) s = (.ok result, s')) : run (kem.encrypt p d pk) s = (.ok result, s') := by
  obtain ⟨-, h⟩ := run_check_bind_eq_ok h
  obtain ⟨result', t, henc, h⟩ := run_bind_eq_ok h
  obtain ⟨-, h⟩ := run_check_bind_eq_ok h
  cases h
  exact henc

/-- **Every backend takes back what it encapsulates**, the fallback because X25519 agrees. -/
theorem mlKem_decapsulate (hp : p.Agrees) (hinv : kem.Inverts) {d : KeyDraw ρ} {pk sk : Bytes} {s s' : σ}
    (hkeys : run (kem.keygen p d) s = (.ok (pk, sk), s')) {e : Draw ρ} {ct ss : Bytes} {t t' : σ}
    (henc : run (kem.encapsulate p e pk) t = (.ok (ct, ss), t')) (u : σ) : (run (kem.decapsulate p ct sk) u).1 = .ok ss := by
  have henc := encrypt_of_encapsulate henc
  cases kem with
  | pqcrypto lib =>
    obtain ⟨hkeys, -⟩ := Prod.mk.inj hkeys
    obtain ⟨henc, -⟩ := Prod.mk.inj henc
    exact hinv _ _ _ hkeys _ _ _ henc
  | liboqs lib =>
    obtain ⟨pk', s₁, hpk, hkeys⟩ := run_bind_eq_ok hkeys
    obtain ⟨sk', s₂, hsk, hkeys⟩ := run_bind_eq_ok hkeys
    obtain ⟨ct', t₁, hct, henc⟩ := run_bind_eq_ok henc
    obtain ⟨ss', t₂, hss, henc⟩ := run_bind_eq_ok henc
    cases hkeys
    cases henc
    exact hinv _ _ _ _ _ _ hpk hsk _ _ _ _ _ _ hct hss u
  | x25519 =>
    obtain ⟨ss', hsend, hreceive⟩ := send_receive hp kemLabel e.ephemeral d.sk
    cases hkeys
    obtain ⟨henc, -⟩ := Prod.mk.inj henc
    rw [hsend] at henc
    cases henc
    exact hreceive

/-- the lengths of the keys that a backend generates, and of what it encapsulates for them -/
theorem mlKem_lengths (hp : p.Agrees) {n : Lengths} (hsize : kem.Sized n) {d : KeyDraw ρ} {pk sk : Bytes} {s s' : σ}
    (hkeys : run (kem.keygen p d) s = (.ok (pk, sk), s')) :
    pk.length = n.pk ∧ sk.length = n.sk ∧ ∀ (e : Draw ρ) (ct ss : Bytes) (t t' : σ),
      run (kem.encapsulate p e pk) t = (.ok (ct, ss), t') → ct.length = n.ct := by
  cases kem with
  | pqcrypto lib =>
    obtain ⟨hkeys, -⟩ := Prod.mk.inj hkeys
    obtain ⟨hpk, hsk, hct⟩ := hsize _ _ _ hkeys
    refine ⟨hpk, hsk, fun e ct ss t t' henc => ?_⟩
    obtain ⟨henc, -⟩ := Prod.mk.inj (encrypt_of_encapsulate henc)
    exact hct _ _ _ henc
  | liboqs lib =>
    obtain ⟨pk', s₁, hpk, hkeys⟩ := run_bind_eq_ok hkeys
    obtain ⟨sk', s₂, hsk, hkeys⟩ := run_bind_eq_ok hkeys
    cases hkeys
    obtain ⟨hpk, hsk, hct⟩ := hsize _ _ _ _ _ _ hpk hsk
    refine ⟨hpk, hsk, fun e ct ss t t' henc => ?_⟩
    obtain ⟨ct', t₁, hct', henc⟩ := run_bind_eq_ok (encrypt_of_encapsulate henc)
    obtain ⟨ss', t₂, -, henc⟩ := run_bind_eq_ok henc
    cases henc
    exact hct _ _ _ _ hct'
  | x25519 =>
    cases hsize
    cases hkeys
    refine ⟨(p.publicKey d.sk).property, d.sk.property, fun e ct ss t t' henc => ?_⟩
    obtain ⟨ss', hsend, -⟩ := send_receive hp kemLabel e.ephemeral d.sk
    obtain ⟨henc, -⟩ := Prod.mk.inj (encrypt_of_encapsulate henc)
    rw [hsend] at henc
    cases henc
    exact (p.publicKey e.ephemeral).property

/-- a cut at the last 32 bytes takes a concatenation apart -/
theorem parts_append {ml : Bytes} (hml : 0 < ml.length) (x : Key) :
    mlPart (ml ++ x.val) = ml ∧ last32 (ml ++ x.val) = x.val := by
  have hlen : (ml ++ x.val).length = ml.length + 32 := by rw [List.length_append, x.property]
  constructor
  · rw [mlPart, if_pos (by omega), butLast32, hlen, Nat.add_sub_cancel, List.take_left]
  · rw [last32, hlen, Nat.add_sub_cancel, List.drop_left]

/-- the parts of a hybrid key pair -/
theorem keygen_eq_ok {d : HybridKeyDraw ρ} {pk sk : Bytes} {s s' : σ} (h : run (keygen p kem d) s = (.ok (pk, sk), s')) :
    ∃ mlPk mlSk, run (kem.keygen p d.mlKem) s = (.ok (mlPk, mlSk), s') ∧ pk = mlPk ++ (p.publicKey d.sk).val ∧
      sk = mlSk ++ d.sk.val := by
  obtain ⟨⟨mlPk, mlSk⟩, t, hml, h⟩ := run_bind_eq_ok h
  cases h
  exact ⟨mlPk, mlSk, hml, rfl, rfl⟩

/-- the parts of a hybrid ciphertext, where the X25519 part does not raise -/
theorem encapsulate_eq_ok {d : HybridDraw ρ} {pk ct ss xCt xSs : Bytes} (hx : trySend p d.ephemeral pk = .ok (xCt, xSs))
    {s s' : σ} (h : run (encapsulate p kem d pk) s = (.ok (ct, ss), s')) :
    ∃ mlCt mlSs, run (kem.encapsulate p d.mlKem (mlPart pk)) s = (.ok (mlCt, mlSs), s') ∧ ct = mlCt ++ xCt ∧
      ss = (sha256 (mlSs ++ xSs)).toList := by
  obtain ⟨⟨mlCt, mlSs⟩, t, hml, h⟩ := run_bind_eq_ok h
  rw [hx] at h
  obtain ⟨-, h⟩ := run_check_bind_eq_ok h
  cases h
  exact ⟨mlCt, mlSs, hml, rfl, rfl⟩

/-- **Decapsulation gives back the secret of an encapsulation, and neither side puts a substitute in its place**, where no key
or ciphertext of the backend is empty. -/
theorem hybrid_decapsulate (hp : p.Agrees) (hinv : kem.Inverts) {n : Lengths} (hpos : n.Positive) (hsize : kem.Sized n)
    {d : HybridKeyDraw ρ} {pk sk : Bytes} {s s' : σ} (hkeys : run (keygen p kem d) s = (.ok (pk, sk), s'))
    {e : HybridDraw ρ} {ct ss : Bytes} {t t' : σ} (henc : run (encapsulate p kem e pk) t = (.ok (ct, ss), t')) (u : σ) :
    (run (decapsulate p kem ct sk) u).1 = .ok ss ∧
      (∃ x, trySend p e.ephemeral pk = .ok x) ∧ ∃ x, tryReceive p ct sk = .ok x := by
  obtain ⟨mlPk, mlSk, hml, rfl, rfl⟩ := keygen_eq_ok hkeys
  obtain ⟨hpk, hsk, hct⟩ := mlKem_lengths hp hsize hml
  obtain ⟨xSs, hsend, hreceive⟩ := send_receive hp hybridLabel e.ephemeral d.sk
  -- the public key is cut where `keygen` put it together
  obtain ⟨hmlPk, hxPk⟩ := parts_append (hpk ▸ hpos.1) (p.publicKey d.sk)
  have htry : trySend p e.ephemeral (mlPk ++ (p.publicKey d.sk).val) = .ok ((p.publicKey e.ephemeral).val, xSs) := by
    rw [trySend, hxPk, hsend]
  obtain ⟨mlCt, mlSs, hmlEnc, rfl, rfl⟩ := encapsulate_eq_ok htry henc
  rw [hmlPk] at hmlEnc
  -- so are the ciphertext and the secret key
  obtain ⟨hmlCt, hxCt⟩ := parts_append (hct _ _ _ _ _ hmlEnc ▸ hpos.2.2) (p.publicKey e.ephemeral)
  obtain ⟨hmlSk, hxSk⟩ := parts_append (hsk ▸ hpos.2.1) d.sk
  have hlong : 32 < (mlSk ++ d.sk.val).length := by
    rw [List.length_append, d.sk.property, hsk]
    exact Nat.lt_add_of_pos_left hpos.2.1
  have htry' : tryReceive p (mlCt ++ (p.publicKey e.ephemeral).val) (mlSk ++ d.sk.val) = .ok xSs := by
    rw [tryReceive, hxCt, if_pos hlong, hxSk, hreceive]
  refine ⟨?_, ⟨_, htry⟩, ⟨_, htry'⟩⟩
  rw [decapsulate, bind_ok_iff, hmlCt, hmlSk]
  exact ⟨mlSs, mlKem_decapsulate hp hinv hml hmlEnc u, by rw [htry']; rfl⟩

end MLKEM1024

/-! ## A backend of one key pair -/

/-- an agreement by bytewise sums, under which a key is its own public key -/
def sums : Primitives where
  publicKey a := a
  exchange a b := .ok (List.zipWith (· + ·) a.val b.val)
  hkdf _ info shared := info.take 8 ++ shared
  seconds _ := "0.250"

theorem sums_agrees : sums.Agrees := by
  intro a b
  refine ⟨List.zipWith (· + ·) a.val b.val, rfl, congrArg Except.ok ?_⟩
  exact List.zipWith_comm_of_comm UInt8.add_comm

/-- the secret is all that a call was given, together with what was generated -/
def echo (pk sk ct : Bytes) : Pqcrypto Unit where
  generateKeypair _ := .ok (pk, sk)
  encrypt _ publicKey := .ok (ct, publicKey ++ sk ++ ct)
  decrypt secretKey ciphertext := .ok (pk ++ secretKey ++ ciphertext)

theorem echo_inverts (pk sk ct : Bytes) : (echo pk sk ct).Inverts := by
  intro coins pk' sk' hkeys coins' ct' ss henc
  cases hkeys
  cases henc
  rfl

theorem echo_sized (pk sk ct : Bytes) : (echo pk sk ct).Sized ⟨pk.length, sk.length, ct.length⟩ := by
  intro coins pk' sk' hkeys
  cases hkeys
  refine ⟨rfl, rfl, fun coins' ct' ss henc => ?_⟩
  cases henc
  rfl

def zeroKey : Key := ⟨List.replicate 32 0, List.length_replicate⟩

def keyDraw : HybridKeyDraw Unit := ⟨⟨(), zeroKey⟩, zeroKey⟩

def draw : HybridDraw Unit := ⟨⟨false, (), zeroKey, 0⟩, zeroKey, [], [], 0⟩

/-- what its key pair and its ciphertext become in the hybrid -/
theorem run_encapsulate_echo {pk sk ct key xCt xSs : Bytes} (hx : trySend sums zeroKey key = .ok (xCt, xSs)) :
    run (encapsulate sums (.pqcrypto (echo pk sk ct)) draw key) () =
      (.ok (ct ++ xCt, (sha256 (mlPart key ++ sk ++ ct ++ xSs)).toList), ()) := by
  have htime : ¬ HANDSHAKE_TIMEOUT < 0 := by norm_num [HANDSHAKE_TIMEOUT]
  have hmode : ¬ (Python.MLKEM1024.Backend.pqcrypto = .x25519 ∧ false = true) := by decide
  have henc : run (MLKEM1024.encrypt sums draw.mlKem (mlPart key) (.pqcrypto (echo pk sk ct))) () =
      (.ok (ct, mlPart key ++ sk ++ ct), ()) := rfl
  have hml : run (MLKEM1024.encapsulate sums (.pqcrypto (echo pk sk ct)) draw.mlKem (mlPart key)) () =
      (.ok (ct, mlPart key ++ sk ++ ct), ()) :=
    (run_bind_of_ok (run_when_of_not hmode ..) _).trans
      ((run_bind_of_ok henc _).trans (run_bind_of_ok (run_when_of_not htime ..) _))
  have hparts : run (tryCatch (lift (trySend sums zeroKey key)) fun _ => pure ([], []) : Raise KemExc Unit _) () =
      (.ok (xCt, xSs), ()) := by
    rw [hx]
    rfl
  calc run (encapsulate sums (.pqcrypto (echo pk sk ct)) draw key) ()
      = _ := run_bind_of_ok hml _
    _ = _ := run_bind_of_ok hparts _
    _ = _ := run_bind_of_ok (run_when_of_not htime ..) _

theorem hybrid_decapsulate_echo : ∃ pk sk ct ss,
    run (keygen sums (.pqcrypto (echo [1] [2] [3])) keyDraw) () = (.ok (pk, sk), ()) ∧
    run (encapsulate sums (.pqcrypto (echo [1] [2] [3])) draw pk) () = (.ok (ct, ss), ()) ∧
    (run (decapsulate sums (.pqcrypto (echo [1] [2] [3])) ct sk) ()).1 = .ok ss := by
  have hinv : @MLKEM1024.Inverts Unit Unit (.pqcrypto (echo [1] [2] [3])) := echo_inverts [1] [2] [3]
  have hsize : @MLKEM1024.Sized Unit Unit ⟨1, 1, 1⟩ (.pqcrypto (echo [1] [2] [3])) := echo_sized [1] [2] [3]
  have hpos : Lengths.Positive ⟨1, 1, 1⟩ := ⟨Nat.one_pos, Nat.one_pos, Nat.one_pos⟩
  have henc := @run_encapsulate_echo [1] [2] [3] ([1] ++ zeroKey.val) _ _ rfl
  refine ⟨_, _, _, _, rfl, henc, ?_⟩
  exact (hybrid_decapsulate sums_agrees hinv hpos hsize (d := keyDraw) (s := ()) rfl (e := draw) henc ()).1

/-- the property of `hybrid_decapsulate`, for one backend -/
def RoundTrips (p : Primitives) {σ ρ : Type} (kem : MLKEM1024 σ ρ) : Prop :=
  ∀ (d : HybridKeyDraw ρ) (pk sk : Bytes) (s s' : σ), run (keygen p kem d) s = (.ok (pk, sk), s') →
    ∀ (e : HybridDraw ρ) (ct ss : Bytes) (t t' : σ), run (encapsulate p kem e pk) t = (.ok (ct, ss), t') →
      ∀ u, (run (decapsulate p kem ct sk) u).1 = .ok ss

/-- a backend that keeps its promises, and a hybrid that does not -/
def Breaks (n : Lengths) (kem : MLKEM1024 Unit Unit) : Prop := kem.Inverts ∧ kem.Sized n ∧ ¬ RoundTrips sums kem

/-- where the public key, the secret key or the ciphertext of the backend is empty, the X25519 part is passed in its place -/
theorem empty_parts : sums.Agrees ∧ Breaks ⟨0, 1, 1⟩ (.pqcrypto (echo [] [2] [3])) ∧
    Breaks ⟨1, 0, 1⟩ (.pqcrypto (echo [1] [] [3])) ∧ Breaks ⟨1, 1, 0⟩ (.pqcrypto (echo [1] [2] [])) := by
  refine ⟨sums_agrees, ⟨echo_inverts _ _ _, echo_sized [] [2] [3], fun h => ?_⟩,
    ⟨echo_inverts _ _ _, echo_sized [1] [] [3], fun h => ?_⟩, ⟨echo_inverts _ _ _, echo_sized [1] [2] [], fun h => ?_⟩⟩
  all_goals
    have hrun := h keyDraw _ _ () () rfl draw _ _ () () (run_encapsulate_echo rfl) ()
    revert hrun
    decide +kernel

end AbirGuard.Python.HybridKem
