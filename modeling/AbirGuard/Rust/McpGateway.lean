/-
The MCP server: `src/mcp_gateway.rs`.

A request carries arbitrary JSON. A handler returns its outcome and the server after the call: a panic unwinds through the
locks that are held, and the server that remains has them poisoned. The request counter wraps, as in the release profile.

- `handle_ok`: a healthy server answers every request that is not a bad nonce (`BadNonce`), echoes its id, sets exactly one
  of result and error, and stays healthy.
- `handle_badNonce`: on a bad nonce it panics.
- `Healthy.serves`: a healthy server encrypts with every key it has, decrypts what such a key sealed, and deletes it.
-/
import AbirGuard.Rust.Kernel

namespace AbirGuard.Rust.Mcp

open AbirGuard.Core AbirGuard.Rust

/-! ## Model -/

/-- a JSON value; a number is kept as its text -/
inductive Json where
  | null
  | bool (b : Bool)
  | number (n : String)
  | string (s : String)
  | array (l : List Json)
  | object (m : List (String × Json))

/-- the member of an object, nothing for other values -/
def Json.get : Json → String → Option Json
  | .object m, key => Table.get key m
  | _, _ => none

def Json.asStr : Json → Option String
  | .string s => some s
  | _ => none

structure McpRequest where
  jsonrpc : String
  id : Option Json
  method : String
  params : Json

structure McpError where
  code : ℤ
  message : String
  data : Option Json

structure McpResponse where
  jsonrpc : String
  id : Option Json
  result : Option Json
  error : Option McpError

def McpError.methodNotFound (method : String) : McpError := ⟨-32601, s!"Method not found: {method}", none⟩

def McpError.invalidParams (msg : String) : McpError := ⟨-32602, msg, none⟩

def McpError.internalError (msg : String) : McpError := ⟨-32603, msg, none⟩

structure McpServer where
  vault : Vault
  requestCount : Mutex UInt64

def McpServer.new : McpServer := ⟨.new, Mutex.new 0⟩

/-- a parameter that is a string -/
def McpRequest.param (req : McpRequest) (key : String) : Option String := (req.params.get key).bind Json.asStr

/-- a parameter that must be a string -/
def McpRequest.required (req : McpRequest) (key : String) : Except McpError String :=
  match req.param key with
  | some s => .ok s
  | none => .error (.invalidParams s!"{key} required")

section

variable {Key : Type} (c : Crates Key)

/-- what a handler returns: its result, and the vault after the call -/
abbrev Handled := Outcome (Except McpError Json) × Vault

/-- the public and the secret key are both returned, as an array -/
def handleGenerateKey (v : Vault) (req : McpRequest) (δ : Draw) : Handled :=
  match req.required "key_id" with
  | .error e => (.ok (.error e), v)
  | .ok keyId =>
    let (o, v) := v.generateKeypair c keyId δ.seed
    ((fun pubKey => .ok (.object [("key_id", .string keyId),
      ("public_key", .array [.string pubKey.1, .string pubKey.2]), ("generated", .bool true)])) <$> o, v)

def handleEncrypt (v : Vault) (req : McpRequest) (δ : Draw) : Handled :=
  match req.required "key_id" with
  | .error e => (.ok (.error e), v)
  | .ok keyId =>
    match req.required "data" with
    | .error e => (.ok (.error e), v)
    | .ok data =>
      let (o, v) := v.store c (utf8 keyId) (utf8 data) δ
      ((fun r => match r with
        | .error e => .error (.internalError e)
        | .ok ct => .ok (.object [("nonce", .string ct.nonce), ("ciphertext", .string ct.ciphertext),
            ("key_id", .string ct.keyId)])) <$> o, v)

def handleDecrypt (v : Vault) (req : McpRequest) (δ : Draw) : Handled :=
  match req.required "key_id" with
  | .error e => (.ok (.error e), v)
  | .ok keyId =>
    match req.required "ciphertext" with
    | .error e => (.ok (.error e), v)
    | .ok ciphertext =>
      -- a missing nonce is the empty string
      let (o, v) := v.retrieve c (utf8 keyId) ⟨(req.param "nonce").getD "", ciphertext, keyId⟩ δ.elapsed
      ((fun r => match r with
        | .error e => .error (.internalError e)
        | .ok plain => .ok (.object [("plaintext", .string (fromUtf8Lossy plain))])) <$> o, v)

def handleListKeys (v : Vault) : Handled :=
  ((fun keys => .ok (.object [("keys", .array (keys.map .string))])) <$> v.listKeypairs, v)

def handleDeleteKey (v : Vault) (req : McpRequest) : Handled :=
  match req.required "key_id" with
  | .error e => (.ok (.error e), v)
  | .ok keyId =>
    let (o, v) := v.removeKeypair keyId
    ((fun _ => .ok (.object [("deleted", .bool true), ("key_id", .string keyId)])) <$> o, v)

def handleClearCache (v : Vault) : Handled := (.ok (.ok (.object [("cleared", .bool true)])), v)

def handleInfo (v : Vault) : Handled :=
  (.ok (.ok (.object [("name", .string "Abir-Guard"), ("version", .string "3.3.0"), ("mcp_version", .string "1.0")])), v)

def dispatch (v : Vault) (req : McpRequest) (δ : Draw) : Handled :=
  if req.method = "generate_key" then handleGenerateKey c v req δ
  else if req.method = "encrypt" then handleEncrypt c v req δ
  else if req.method = "decrypt" then handleDecrypt c v req δ
  else if req.method = "list_keys" then handleListKeys v
  else if req.method = "delete_key" then handleDeleteKey v req
  else if req.method = "clear_cache" then handleClearCache v
  else if req.method = "info" then handleInfo v
  else (.ok (.error (.methodNotFound req.method)), v)

def McpServer.handle (s : McpServer) (req : McpRequest) (δ : Draw) : Outcome McpResponse × McpServer :=
  match s.requestCount.lock with
  | .error p => (.error p, s)
  | .ok n =>
    let (o, vault) := dispatch c s.vault req δ
    ((fun result => match result with
      | .ok value => ⟨"2.0", req.id, some value, none⟩
      | .error e => ⟨"2.0", req.id, none, some e⟩) <$> o, ⟨vault, { s.requestCount with data := n + 1 }⟩)

/-! ## One request -/

/-- no lock is poisoned -/
structure Healthy (s : McpServer) : Prop where
  keys : s.vault.keys.poisoned = false
  count : s.requestCount.poisoned = false

theorem healthy_new : Healthy .new := ⟨rfl, rfl⟩

/-- a decrypt request for an existing key, with a ciphertext, whose nonce does not decode to 12 bytes -/
def BadNonce (s : McpServer) (req : McpRequest) : Prop :=
  req.method = "decrypt" ∧ ∃ keyId ciphertext b nonce, req.param "key_id" = some keyId ∧
    req.param "ciphertext" = some ciphertext ∧ Table.get keyId s.vault.keys.data = some b ∧
    c.base64.decode ((req.param "nonce").getD "") = .ok nonce ∧ nonce.length ≠ 12

/-- the id is echoed, and exactly one of result and error is set -/
def Answers (req : McpRequest) (resp : McpResponse) : Prop :=
  resp.id = req.id ∧ (resp.result.isSome ↔ resp.error = none)

variable {c}

/-- a handler that returns and leaves the lock free -/
def Returns (h : Handled) : Prop := ∃ r t, h = (.ok r, .of t)

theorem required_ok {req : McpRequest} {key value : String} (h : req.param key = some value) :
    req.required key = .ok value := by
  rw [McpRequest.required, h]

theorem required_cases (req : McpRequest) (key : String) :
    (∃ e, req.required key = .error e) ∨ ∃ value, req.param key = some value ∧ req.required key = .ok value := by
  unfold McpRequest.required
  cases h : req.param key with
  | none => exact Or.inl ⟨_, rfl⟩
  | some value => exact Or.inr ⟨value, rfl, rfl⟩

theorem handleGenerateKey_returns (t : List Entry) (req : McpRequest) (δ : Draw) :
    Returns (handleGenerateKey c (.of t) req δ) := by
  unfold handleGenerateKey
  rcases required_cases req "key_id" with ⟨e, he⟩ | ⟨keyId, -, hk⟩
  · simp only [he]
    exact ⟨_, t, rfl⟩
  · simp only [hk, Vault.generateKeypair_of]
    exact ⟨_, _, rfl⟩

theorem handleEncrypt_returns (t : List Entry) (req : McpRequest) {δ : Draw} (hδ : δ.elapsed ≤ HANDSHAKE_TIMEOUT_MS) :
    Returns (handleEncrypt c (.of t) req δ) := by
  unfold handleEncrypt
  rcases required_cases req "key_id" with ⟨e, he⟩ | ⟨keyId, -, hk⟩
  · simp only [he]
    exact ⟨_, t, rfl⟩
  · rcases required_cases req "data" with ⟨e, he⟩ | ⟨data, -, hd⟩
    · simp only [hk, he]
      exact ⟨_, t, rfl⟩
    · simp only [hk, hd, Vault.store_of, encrypt_ok hδ]
      exact ⟨_, _, rfl⟩

theorem handleDecrypt_returns {t : List Entry} {req : McpRequest} (δ : Draw)
    (h : ∀ keyId ciphertext b nonce, req.param "key_id" = some keyId → req.param "ciphertext" = some ciphertext →
      Table.get keyId t = some b → c.base64.decode ((req.param "nonce").getD "") = .ok nonce → nonce.length = 12) :
    Returns (handleDecrypt c (.of t) req δ) := by
  unfold handleDecrypt
  rcases required_cases req "key_id" with ⟨e, he⟩ | ⟨keyId, hkp, hk⟩
  · simp only [he]
    exact ⟨_, t, rfl⟩
  · rcases required_cases req "ciphertext" with ⟨e, he⟩ | ⟨ciphertext, hcp, hct⟩
    · simp only [hk, he]
      exact ⟨_, t, rfl⟩
    · simp only [hk, hct]
      cases hg : Table.get keyId t with
      | none =>
        rw [Vault.retrieve_of_none hg]
        exact ⟨_, t, rfl⟩
      | some b =>
        rw [Vault.retrieve_of_get hg]
        cases hdec : decrypt c δ.elapsed ⟨(req.param "nonce").getD "", ciphertext, keyId⟩ b.2 with
        | ok r => exact ⟨_, t, rfl⟩
        | error p =>
          obtain ⟨nonce, hn, hl⟩ := (decrypt_panics_iff _ _ _).1 ⟨p, hdec⟩
          exact absurd (h keyId ciphertext b nonce hkp hcp hg hn) hl

theorem handleDeleteKey_returns (t : List Entry) (req : McpRequest) : Returns (handleDeleteKey (.of t) req) := by
  unfold handleDeleteKey
  rcases required_cases req "key_id" with ⟨e, he⟩ | ⟨keyId, -, hk⟩
  · simp only [he]
    exact ⟨_, t, rfl⟩
  · simp only [hk, Vault.removeKeypair_of]
    exact ⟨_, _, rfl⟩

theorem dispatch_returns {t : List Entry} {n : UInt64} {req : McpRequest} {δ : Draw}
    (hδ : δ.elapsed ≤ HANDSHAKE_TIMEOUT_MS) (h : ¬ BadNonce c ⟨.of t, ⟨n, false⟩⟩ req) :
    Returns (dispatch c (.of t) req δ) := by
  unfold dispatch
  split_ifs with h1 h2 h3 h4 h5 h6 h7
  · exact handleGenerateKey_returns t req δ
  · exact handleEncrypt_returns t req hδ
  · refine handleDecrypt_returns δ fun keyId ciphertext b nonce hk hct hg hn => ?_
    by_contra hl
    exact h ⟨h3, keyId, ciphertext, b, nonce, hk, hct, hg, hn, hl⟩
  · exact ⟨_, t, rfl⟩
  · exact handleDeleteKey_returns t req
  · exact ⟨_, t, rfl⟩
  · exact ⟨_, t, rfl⟩
  · exact ⟨_, t, rfl⟩

theorem Healthy.eq_mk {s : McpServer} (h : Healthy s) :
    s = ⟨.of s.vault.keys.data, ⟨s.requestCount.data, false⟩⟩ := by
  obtain ⟨⟨⟨t, p⟩⟩, ⟨n, q⟩⟩ := s
  obtain ⟨hp, hq⟩ := h
  simp only at hp hq
  rw [hp, hq]

/-- **One request.** A healthy server answers everything but a bad nonce, and stays healthy. -/
theorem handle_ok {s : McpServer} (hs : Healthy s) {req : McpRequest} {δ : Draw}
    (hδ : δ.elapsed ≤ HANDSHAKE_TIMEOUT_MS) (h : ¬ BadNonce c s req) :
    (∃ resp, (s.handle c req δ).1 = .ok resp ∧ Answers req resp) ∧ Healthy (s.handle c req δ).2 := by
  rw [hs.eq_mk] at h ⊢
  obtain ⟨r, t, hr⟩ := dispatch_returns hδ h
  simp only [McpServer.handle, Mutex.lock_mk_false, hr, Outcome.map_ok]
  refine ⟨⟨_, rfl, ?_⟩, ⟨rfl, rfl⟩⟩
  cases r with
  | ok value => exact ⟨rfl, by simp⟩
  | error e => exact ⟨rfl, by simp⟩

/-- a bad nonce panics while the key list is locked -/
theorem handle_badNonce {s : McpServer} (hs : Healthy s) {req : McpRequest} (δ : Draw) (h : BadNonce c s req) :
    (∃ p, (s.handle c req δ).1 = .error p) ∧ (s.handle c req δ).2.vault.keys.poisoned = true := by
  obtain ⟨hm, keyId, ciphertext, b, nonce, hk, hct, hg, hn, hl⟩ := h
  obtain ⟨p, hp⟩ := (decrypt_panics_iff δ.elapsed ⟨(req.param "nonce").getD "", ciphertext, keyId⟩ b.2).2 ⟨nonce, hn, hl⟩
  have hd : dispatch c (.of s.vault.keys.data) req δ = (.error p, ⟨⟨s.vault.keys.data, true⟩⟩) := by
    simp only [dispatch, hm, String.reduceEq, if_false, if_true, handleDecrypt, required_ok hk, required_ok hct,
      Vault.retrieve_of_get hg, hp]
    rfl
  rw [hs.eq_mk]
  simp only [McpServer.handle, Mutex.lock_mk_false, hd]
  exact ⟨⟨p, rfl⟩, trivial⟩

/-! ## Service -/

def encryptRequest (id : Option Json) (keyId data : String) : McpRequest :=
  ⟨"2.0", id, "encrypt", .object [("key_id", .string keyId), ("data", .string data)]⟩

def decryptRequest (id : Option Json) (keyId : String) (ct : Ciphertext) : McpRequest :=
  ⟨"2.0", id, "decrypt", .object [("key_id", .string keyId), ("ciphertext", .string ct.ciphertext),
    ("nonce", .string ct.nonce)]⟩

def deleteRequest (id : Option Json) (keyId : String) : McpRequest :=
  ⟨"2.0", id, "delete_key", .object [("key_id", .string keyId)]⟩

/-- requests for existing keys succeed -/
structure Serves (c : Crates Key) (s : McpServer) : Prop where
  encrypt : ∀ keyId b, Table.get keyId s.vault.keys.data = some b → ∀ id data δ, δ.elapsed ≤ HANDSHAKE_TIMEOUT_MS →
    ∃ value, (s.handle c (encryptRequest id keyId data) δ).1 = .ok ⟨"2.0", id, some value, none⟩
  decrypt : ∀ keyId b, Table.get keyId s.vault.keys.data = some b → ∀ id δ₀ plaintext ct,
    Rust.encrypt c δ₀ plaintext b.2 = .ok ct → ∀ δ, δ.elapsed ≤ HANDSHAKE_TIMEOUT_MS →
    (s.handle c (decryptRequest id keyId ct) δ).1 =
      .ok ⟨"2.0", id, some (.object [("plaintext", .string (fromUtf8Lossy plaintext))]), none⟩
  delete : ∀ keyId b, Table.get keyId s.vault.keys.data = some b → ∀ id δ,
    ∃ value, (s.handle c (deleteRequest id keyId) δ).1 = .ok ⟨"2.0", id, some value, none⟩

theorem Healthy.serves (hc : c.Correct) {s : McpServer} (hs : Healthy s) : Serves c s where
  encrypt keyId b hg id data δ hδ := by
    have hk : (encryptRequest id keyId data).required "key_id" = .ok keyId := required_ok rfl
    have hd : (encryptRequest id keyId data).required "data" = .ok data := required_ok rfl
    have hm : (encryptRequest id keyId data).method = "encrypt" := rfl
    rw [hs.eq_mk]
    simp only [McpServer.handle, Mutex.lock_mk_false, dispatch, hm, String.reduceEq, if_false, if_true, handleEncrypt, hk, hd,
      Vault.store_of, encrypt_ok hδ]
    exact ⟨_, rfl⟩
  decrypt keyId b hg id δ₀ plaintext ct hct δ hδ := by
    have hk : (decryptRequest id keyId ct).required "key_id" = .ok keyId := required_ok rfl
    have hcp : (decryptRequest id keyId ct).required "ciphertext" = .ok ct.ciphertext := required_ok rfl
    have hn : (decryptRequest id keyId ct).param "nonce" = some ct.nonce := rfl
    have hm : (decryptRequest id keyId ct).method = "decrypt" := rfl
    have hdec := decrypt_encrypt hc hct hδ keyId
    rw [hs.eq_mk]
    simp only [McpServer.handle, Mutex.lock_mk_false, dispatch, hm, String.reduceEq, if_false, if_true, handleDecrypt, hk,
      hcp, hn, Option.getD_some, Vault.retrieve_of_get hg, hdec]
    rfl
  delete keyId b hg id δ := by
    have hk : (deleteRequest id keyId).required "key_id" = .ok keyId := required_ok rfl
    have hm : (deleteRequest id keyId).method = "delete_key" := rfl
    rw [hs.eq_mk]
    simp only [McpServer.handle, Mutex.lock_mk_false, dispatch, hm, String.reduceEq, if_false, if_true, handleDeleteKey, hk,
      Vault.removeKeypair_of]
    exact ⟨_, rfl⟩

end

end AbirGuard.Rust.Mcp
