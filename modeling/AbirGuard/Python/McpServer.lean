/-
The MCP server of the Python vault (`__init__.py`).

A request is a dictionary whose values may be of any type. Every method takes what it needs out of the parameters, and calls the
vault; an exception of any kind becomes an error response.

- `state_dispatch`: a dispatch leaves the vault as the call leaves it that the parameters make (`callOf`), if they make one.
- `handle_total`: every request of a run is answered, logged once, and leaves a log that verifies.
- `handle_fipsMode`: the method that switches the mode.
-/
import AbirGuard.Python.Accounting
import AbirGuard.Python.FipsSwitching

namespace AbirGuard.Python

open AbirGuard.Core JsonValue Raise

/-! ## Model -/

def VERSION : String := "3.3.0"

/-- the libraries, and two texts that only messages show -/
structure McpLibs extends Libs where
  /-- `str` of a list or a dictionary -/
  containerStr : Json ℚ → Text
  /-- the message of a `UnicodeDecodeError` -/
  decodeError : Bytes → Text

/-- a ciphertext whose fields may be of any type -/
structure CiphertextValue where
  nonce : Json ℚ
  ciphertext : Json ℚ
  authTag : Json ℚ

def Ciphertext.asdict (ct : Ciphertext) : Json ℚ :=
  .obj [("nonce", .str ct.nonce), ("ciphertext", .str ct.ciphertext), ("auth_tag", .str ct.authTag)]

namespace McpServer

open Vault

/-- `Ciphertext(**args)` -/
def ciphertextOfArgs (args : List (Text × Json ℚ)) : Except Exc CiphertextValue := do
  let field ← bindArgs "Ciphertext" [("nonce", none), ("ciphertext", none), ("auth_tag", some (.str ""))] args
  .ok ⟨field "nonce", field "ciphertext", field "auth_tag"⟩

/-- `validate_key_id` of a value of any type -/
def validateKeyIdValue (keyId : Json ℚ) : Except Exc Text :=
  match keyId with
  | .str t => validateKeyId t
  | v =>
    if ¬ truthy v then .error ⟨.valueError, "key_id cannot be empty"⟩
    else
      match length? v with
      | none => .error ⟨.typeError, s!"object of type '{typeName v}' has no len()"⟩
      | some n =>
        if MAX_KEY_ID_LENGTH < n then .error ⟨.valueError, s!"key_id too long (max {MAX_KEY_ID_LENGTH} chars)"⟩
        else .error ⟨.typeError, s!"expected string or bytes-like object, got '{typeName v}'"⟩

def tagBytes (ciphertext : CiphertextValue) : Except Exc Bytes :=
  if truthy ciphertext.authTag then JsonValue.b64decode ciphertext.authTag else .ok []

/-- `self._entries[-limit:]` -/
def getEntries (limit : Json ℚ) (entries : List AuditEntry) : Except Exc (List AuditEntry) :=
  let slice (start : ℤ) := if start < 0 then entries.drop (entries.length + start).toNat else entries.drop start.toNat
  match limit with
  | .int n => .ok (slice (-n))
  | .bool b => .ok (slice (if b then -1 else 0))
  | .float _ => .error ⟨.typeError, "slice indices must be integers or None or have an __index__ method"⟩
  | v => .error ⟨.typeError, s!"bad operand type for unary -: '{typeName v}'"⟩

variable (l : McpLibs)

/-- `str(v)` -/
def strOf : Json ℚ → Text
  | .null => "None"
  | .bool b => if b then "True" else "False"
  | .int n => str n
  | .float x => l.floatRepr x
  | .str t => t
  | v => l.containerStr v

/-- `data.decode()` -/
def decodeUtf8 (data : Bytes) : Except Exc Text :=
  match Text.decode data with
  | some t => .ok t
  | none => .error ⟨.unicodeDecodeError, l.decodeError data⟩

variable (η ηRotate : Host)

/-- `decryptInMode` for a ciphertext with fields of any type -/
def decryptInModeValue (keyId : Text) (ciphertext : CiphertextValue) : VaultM Bytes := do
  let s ← get
  let key ← lift (lookup keyId s.vault.secretKeys)
  match s.vault.fipsMode, s.vault.fipsEncryptor with
  | true, some f => do
    let ctBytes ← lift (JsonValue.b64decode ciphertext.ciphertext)
    let tagBytes ← lift (tagBytes ciphertext)
    let nonceBytes ← lift (JsonValue.b64decode ciphertext.nonce)
    let plaintext ← withEncryptor f (FIPSEncryptor.decrypt l.toLibs η ctBytes tagBytes nonceBytes key)
    log l.toLibs η "decrypt" keyId true []
    return plaintext
  | _, _ => do
    let plaintext ← lift do
      let nonce ← JsonValue.b64decode ciphertext.nonce
      let ct ← JsonValue.b64decode ciphertext.ciphertext
      let tag ← tagBytes ciphertext
      AESGCM.decrypt l.toLibs (HybridEncryptor.aesKey l.toLibs key) nonce (ct ++ tag)
    log l.toLibs η "decrypt" keyId true []
    rotation (·.recordUsage η keyId .decrypt)
    return plaintext

/-- `Vault.retrieve` for such a ciphertext -/
def retrieveValue (keyId : Text) (ciphertext : CiphertextValue) : VaultM Bytes := do
  let keyId ← lift (validateKeyId keyId)
  let s ← get
  if ¬ s.vault.secretKeys.contains keyId then do
    log l.toLibs η "decrypt" keyId false "Key not found"
    throw ⟨.valueError, "No keypair for " ++ keyId⟩
  else do
    when (keyId ∈ s.vault.canaryIds) <|
      log l.toLibs η "canary_breach" keyId false "Canary key accessed — breach detected!"
    checkAttestation l.toLibs η keyId
    decryptInModeValue l η keyId ciphertext

/-! ### The methods -/

/-- `validate_key_id(params["key_id"])` -/
def keyIdOf (params : Json ℚ) : Except Exc Text := do
  validateKeyIdValue (← getItem "key_id" params)

/-- `params["data"].encode()` -/
def dataOf (params : Json ℚ) : Except Exc Bytes := do
  JsonValue.encode (← getItem "data" params)

/-- `Ciphertext(**params["ciphertext"])` -/
def ciphertextOf (params : Json ℚ) : Except Exc CiphertextValue := do
  ciphertextOfArgs (← mapping "abir_guard.Ciphertext" (← getItem "ciphertext" params))

def generateKey (params : Json ℚ) : VaultM (Json ℚ) := do
  let keyId ← lift (keyIdOf params)
  let _ ← generateKeypair l.toLibs η keyId
  return .obj [("key_id", .str keyId), ("generated", .bool true)]

def encrypt (params : Json ℚ) : VaultM (Json ℚ) := do
  let keyId ← lift (keyIdOf params)
  let data ← lift (dataOf params)
  lift (validateDataSize data)
  let ct ← store l.toLibs η ηRotate keyId data
  return ct.asdict

def decrypt (params : Json ℚ) : VaultM (Json ℚ) := do
  let keyId ← lift (keyIdOf params)
  let ct ← lift (ciphertextOf params)
  let data ← retrieveValue l η keyId ct
  let plaintext ← lift (decodeUtf8 l data)
  return .obj [("plaintext", .str plaintext)]

def listKeys (_ : Json ℚ) : VaultM (Json ℚ) := do
  let s ← get
  return .obj [("keys", .arr ((listKeypairs s.vault).map .str))]

def deleteKey (params : Json ℚ) : VaultM (Json ℚ) := do
  let keyId ← lift (keyIdOf params)
  removeKeypair l.toLibs η keyId
  return .obj [("deleted", .bool true), ("key_id", .str keyId)]

def clearCache (_ : Json ℚ) : VaultM (Json ℚ) := do
  Vault.clearCache l.toLibs η
  return .obj [("cleared", .bool true)]

def addCanary (_ : Json ℚ) : VaultM (Json ℚ) := do
  let canaryId ← Vault.addCanary l.toLibs η
  return .obj [("canary_id", .str canaryId)]

def checkCanary (_ : Json ℚ) : VaultM (Json ℚ) := do
  let breached ← Vault.checkCanary l.toLibs η
  return .obj [("breach_detected", .bool breached)]

def auditLog (params : Json ℚ) : VaultM (Json ℚ) := do
  let limit ← lift (dictGet "limit" (.int 100) params)
  let s ← get
  let entries ← lift (getEntries limit s.vault.audit)
  return .obj [("entries", .arr (entries.map fun e => .obj e.entries))]

def info (_ : Json ℚ) : VaultM (Json ℚ) := do
  let s ← get
  return .obj [("name", .str "Abir-Guard"), ("version", .str VERSION), ("mcp_version", .str "1.0"),
    ("fips_mode", .bool s.vault.fipsMode)]

def rotateKey (params : Json ℚ) : VaultM (Json ℚ) := do
  let keyId ← lift (keyIdOf params)
  Vault.rotateKey l.toLibs η keyId
  return .obj [("key_id", .str keyId), ("rotated", .bool true)]

def verifyIntegrity (_ : Json ℚ) : VaultM (Json ℚ) := do
  let result ← verifyRuntimeIntegrity l.toLibs η none
  return .obj [("integrity_ok", .bool result)]

def fipsMode (params : Json ℚ) : VaultM (Json ℚ) := do
  let enable ← lift (dictGet "enable" (.bool false) params)
  if truthy enable then enableFipsMode l.toLibs η else disableFipsMode l.toLibs η
  let s ← get
  return .obj [("fips_mode", .bool s.vault.fipsMode)]

/-- the methods in the order in which they are tried -/
def methods : List (String × (Json ℚ → VaultM (Json ℚ))) :=
  [("generate_key", generateKey l η), ("encrypt", encrypt l η ηRotate), ("decrypt", decrypt l η), ("list_keys", listKeys),
    ("delete_key", deleteKey l η), ("clear_cache", clearCache l η), ("add_canary", addCanary l η),
    ("check_canary", checkCanary l η), ("audit_log", auditLog), ("info", info), ("rotate_key", rotateKey l η),
    ("verify_integrity", verifyIntegrity l η), ("fips_mode", fipsMode l η)]

/-- `_dispatch` -/
def dispatch (method params : Json ℚ) : VaultM (Json ℚ) :=
  match (methods l η ηRotate).find? fun m => isStr m.1 method with
  | some m => m.2 params
  | none => throw ⟨.valueError, "Unknown method: " ++ strOf l method⟩

/-- `self.vault.audit.log("mcp", method, success, details)` -/
def logMcp (method : Json ℚ) (success : Bool) (details : Text) : VaultM Unit :=
  update fun v => { v with
    audit := AuditLogger.append l.toLibs v.audit
      ⟨η.clock (.audit "mcp"), .str "mcp", method, .bool success, .str details⟩ }

/-- a response under the id of its request -/
def response (request : Dict Text (Json ℚ)) (key : String) (v : Json ℚ) : Dict Text (Json ℚ) :=
  ((Dict.empty.set (Text.ofString "jsonrpc") (.str "2.0")).set (Text.ofString "id")
    ((request.get (Text.ofString "id")).getD .null)).set (Text.ofString key) v

def methodOf (request : Dict Text (Json ℚ)) : Json ℚ := (request.get (Text.ofString "method")).getD (.str "")

def paramsOf (request : Dict Text (Json ℚ)) : Json ℚ := (request.get (Text.ofString "params")).getD (.obj [])

def handle (request : Dict Text (Json ℚ)) : VaultM (Dict Text (Json ℚ)) :=
  tryCatch
    (do
      let result ← dispatch l η ηRotate (methodOf request) (paramsOf request)
      logMcp l η (methodOf request) true []
      return response request "result" result)
    fun e => do
      logMcp l η (methodOf request) false e.msg
      return response request "error" (.obj [("code", .int (-32603)), ("message", .str e.msg)])

/-! ## The call that a request makes -/

/-- a string that is not base64 -/
def undecodable : Text := [0xE9]

/-- a string that decodes to the same bytes, if the value decodes -/
def textField : Json ℚ → Text
  | .str t => t
  | _ => undecodable

def textOf (ct : CiphertextValue) : Ciphertext :=
  ⟨textField ct.nonce, textField ct.ciphertext, if truthy ct.authTag then textField ct.authTag else []⟩

/-- the call of each method, if its parameters are what it needs -/
def calls (ηRotate : Host) : List (String × (Json ℚ → Option Call)) :=
  [("generate_key", fun params => (keyIdOf params).toOption.map .generateKeypair),
    ("encrypt", fun params => do return .store ηRotate (← (keyIdOf params).toOption) (← (dataOf params).toOption)),
    ("decrypt", fun params => do return .retrieve (← (keyIdOf params).toOption) (textOf (← (ciphertextOf params).toOption))),
    ("list_keys", fun _ => none),
    ("delete_key", fun params => (keyIdOf params).toOption.map .removeKeypair),
    ("clear_cache", fun _ => some .clearCache),
    ("add_canary", fun _ => some .addCanary),
    ("check_canary", fun _ => some .checkCanary),
    ("audit_log", fun _ => none),
    ("info", fun _ => none),
    ("rotate_key", fun params => (keyIdOf params).toOption.map .rotateKey),
    ("verify_integrity", fun _ => some (.verifyRuntimeIntegrity none)),
    ("fips_mode", fun params => (dictGet "enable" (.bool false) params).toOption.map fun enable =>
      if truthy enable then .enableFipsMode else .disableFipsMode)]

def callOf (ηRotate : Host) (method params : Json ℚ) : Option Call :=
  ((calls ηRotate).find? fun c => isStr c.1 method).bind fun c => c.2 params

/-- the state after a call, if there is one -/
def after (s : Session) (c : Option Call) : Session := c.elim s fun c => step l.toLibs s (η, c)

variable {l η ηRotate}

/-! ### Ciphertexts -/

theorem toOption_b64decode (v : Json ℚ) :
    (JsonValue.b64decode v).toOption = (Python.b64decode (textField v)).toOption := by
  cases v <;> rfl

theorem textField_ne_nil {v : Json ℚ} (h : truthy v = true) : textField v ≠ [] := by
  cases v with
  | str t => simpa [truthy, textField] using h
  | _ => exact List.cons_ne_nil _ _

theorem toOption_tagBytes (ct : CiphertextValue) :
    (tagBytes ct).toOption = (HybridEncryptor.tagBytes (textOf ct)).toOption := by
  rw [tagBytes, HybridEncryptor.tagBytes, textOf]
  dsimp only
  by_cases htrue : truthy ct.authTag = true
  · rw [if_pos htrue, if_pos htrue, if_neg (textField_ne_nil htrue), toOption_b64decode]
  · rw [if_neg htrue, if_neg htrue, if_pos rfl]

theorem toOption_bind {α β : Type} {x y : Except Exc α} (h : x.toOption = y.toOption) {f g : α → Except Exc β}
    (hfg : ∀ a, (f a).toOption = (g a).toOption) : (x >>= f).toOption = (y >>= g).toOption := by
  cases x with
  | error e =>
    cases y with
    | error e' => rfl
    | ok b => cases h
  | ok a =>
    cases y with
    | error e' => cases h
    | ok b =>
      obtain rfl : a = b := Option.some.inj h
      exact hfg a

/-- a decoding and the rest of the program leave the same state after any error -/
theorem run_lift_congr {α β : Type} {x y : Except Exc α} (h : x.toOption = y.toOption) {f g : α → VaultM β}
    (hfg : ∀ a s, (run (f a) s).2 = (run (g a) s).2) (s : Session) :
    (run (lift x >>= f) s).2 = (run (lift y >>= g) s).2 := by
  rw [run_lift_bind, run_lift_bind]
  cases x with
  | error e =>
    cases y with
    | error e' => rfl
    | ok b => cases h
  | ok a =>
    cases y with
    | error e' => cases h
    | ok b =>
      obtain rfl : a = b := Option.some.inj h
      exact hfg a s

theorem state_decryptInModeValue (keyId : Text) (ct : CiphertextValue) (s : Session) :
    (run (decryptInModeValue l η keyId ct) s).2 = (run (decryptInMode l.toLibs η keyId (textOf ct)) s).2 := by
  rw [decryptInModeValue, decryptInMode, run_get_bind, run_get_bind]
  refine run_lift_congr rfl (fun key s' => ?_) s
  have hplain : ∀ t, (run (lift (do
        let nonce ← JsonValue.b64decode ct.nonce
        let c ← JsonValue.b64decode ct.ciphertext
        let tag ← tagBytes ct
        AESGCM.decrypt l.toLibs (HybridEncryptor.aesKey l.toLibs key) nonce (c ++ tag)) >>= fun plaintext => do
          log l.toLibs η "decrypt" keyId true []
          rotation (·.recordUsage η keyId .decrypt)
          return plaintext) t).2 = (run (lift (HybridEncryptor.decrypt l.toLibs (textOf ct) key) >>= fun plaintext => do
          log l.toLibs η "decrypt" keyId true []
          rotation (·.recordUsage η keyId .decrypt)
          return plaintext) t).2 := by
    refine fun t => run_lift_congr ?_ (fun plaintext t => rfl) t
    refine toOption_bind (toOption_b64decode _) fun nonce => toOption_bind (toOption_b64decode _) fun c => ?_
    exact toOption_bind (toOption_tagBytes ct) fun tag => rfl
  cases s.vault.fipsMode with
  | false => exact hplain s'
  | true =>
    cases s.vault.fipsEncryptor with
    | none => exact hplain s'
    | some f =>
      refine run_lift_congr (toOption_b64decode _) (fun c s' => ?_) s'
      refine run_lift_congr (toOption_tagBytes ct) (fun tag s' => ?_) s'
      exact run_lift_congr (toOption_b64decode _) (fun nonce s' => rfl) s'

theorem state_retrieveValue (keyId : Text) (ct : CiphertextValue) (s : Session) :
    (run (retrieveValue l η keyId ct) s).2 = (run (retrieve l.toLibs η keyId (textOf ct)) s).2 := by
  rw [retrieveValue, retrieve]
  refine run_lift_congr rfl (fun id s' => ?_) s
  rw [run_get_bind, run_get_bind]
  by_cases hkey : s'.vault.secretKeys.contains id = true
  · rw [if_neg (not_not.2 hkey), if_neg (not_not.2 hkey), run_bind, run_bind]
    rcases run (when _ _) s' with ⟨e | u, t⟩
    · rfl
    · dsimp only
      rw [run_bind, run_bind]
      rcases run (checkAttestation l.toLibs η id) t with ⟨e | u, t⟩
      · rfl
      · exact state_decryptInModeValue id ct t
  · rw [if_pos hkey, if_pos hkey]

/-! ### Methods -/

/-- a method leaves the vault as the call leaves it that its parameters make -/
def Follows (l : McpLibs) (η : Host) (method : Json ℚ → VaultM (Json ℚ)) (call : Json ℚ → Option Call) : Prop :=
  ∀ params s, (run (method params) s).2 = after l η s (call params)

/-- a method that reads an id and makes one call for it -/
theorem follows_keyed {α : Type} {x : Text → VaultM α} {call : Text → Call} (result : Text → Json ℚ)
    (hx : ∀ keyId s, (run (x keyId) s).2 = step l.toLibs s (η, call keyId)) :
    Follows l η (fun params => lift (keyIdOf params) >>= fun keyId => x keyId >>= fun _ => pure (result keyId))
      fun params => (keyIdOf params).toOption.map call := by
  intro params s
  beta_reduce
  rw [run_lift_bind]
  cases keyIdOf params with
  | error e => rfl
  | ok keyId => exact (state_bind (fun _ _ => rfl) s).trans (hx keyId s)

theorem follows_generateKey : Follows l η (generateKey l η) fun params => (keyIdOf params).toOption.map .generateKeypair :=
  follows_keyed _ fun _ s => (run_ignore _ s).symm

theorem follows_encrypt : Follows l η (encrypt l η ηRotate) fun params => do
    return .store ηRotate (← (keyIdOf params).toOption) (← (dataOf params).toOption) := by
  intro params s
  rw [encrypt, run_lift_bind]
  beta_reduce
  cases keyIdOf params with
  | error e => rfl
  | ok keyId =>
    dsimp only
    rw [run_lift_bind]
    cases dataOf params with
    | error e => rfl
    | ok data =>
      dsimp only
      rw [run_lift_bind]
      cases hsize : validateDataSize data with
      | error e =>
        -- the store refuses it, too
        have hlong : ¬ (validateKeyId keyId = .ok keyId ∧ data.length ≤ MAX_DATA_SIZE) := by
          intro h
          rw [(validateDataSize_ok_iff (u := ())).2 h.2] at hsize
          cases hsize
        obtain ⟨e', he⟩ := run_store_refused (l := l.toLibs) (η := η) ηRotate hlong s
        exact (congrArg Prod.snd he).symm.trans (run_ignore _ s).symm
      | ok u => exact (state_bind (fun _ _ => rfl) s).trans (run_ignore _ s).symm

theorem follows_decrypt : Follows l η (decrypt l η) fun params => do
    return .retrieve (← (keyIdOf params).toOption) (textOf (← (ciphertextOf params).toOption)) := by
  intro params s
  rw [decrypt, run_lift_bind]
  beta_reduce
  cases keyIdOf params with
  | error e => rfl
  | ok keyId =>
    dsimp only
    rw [run_lift_bind]
    cases ciphertextOf params with
    | error e => rfl
    | ok ct =>
      calc (run (retrieveValue l η keyId ct >>= fun data => lift (decodeUtf8 l data) >>= fun plaintext =>
              pure (Json.obj [("plaintext", .str plaintext)])) s).2
          = (run (retrieveValue l η keyId ct) s).2 := state_bind (fun data t => state_bind (fun _ _ => rfl) t) s
        _ = (run (retrieve l.toLibs η keyId (textOf ct)) s).2 := state_retrieveValue keyId ct s
        _ = after l η s (some (.retrieve keyId (textOf ct))) := (run_ignore _ s).symm

theorem follows_deleteKey : Follows l η (deleteKey l η) fun params => (keyIdOf params).toOption.map .removeKeypair :=
  follows_keyed _ fun _ _ => rfl

theorem follows_rotateKey : Follows l η (rotateKey l η) fun params => (keyIdOf params).toOption.map .rotateKey :=
  follows_keyed _ fun _ _ => rfl

theorem follows_auditLog : Follows l η auditLog fun _ => none := by
  intro params s
  rw [auditLog, run_lift_bind]
  cases dictGet "limit" (.int 100) params with
  | error e => rfl
  | ok limit =>
    dsimp only
    rw [run_get_bind]
    exact state_bind (fun _ _ => rfl) s

theorem follows_fipsMode : Follows l η (fipsMode l η) fun params =>
    (dictGet "enable" (.bool false) params).toOption.map fun enable =>
      if truthy enable then .enableFipsMode else .disableFipsMode := by
  intro params s
  rw [fipsMode, run_lift_bind]
  beta_reduce
  cases dictGet "enable" (.bool false) params with
  | error e => rfl
  | ok enable =>
    change _ = after l η s (some (if truthy enable then .enableFipsMode else .disableFipsMode))
    dsimp only
    by_cases htrue : truthy enable = true
    · rw [if_pos htrue, if_pos htrue]
      exact state_bind (fun _ _ => rfl) s
    · rw [if_neg htrue, if_neg htrue]
      exact state_bind (fun _ _ => rfl) s

theorem follows_methods :
    List.Forall₂ (fun m c => m.1 = c.1 ∧ Follows l η m.2 c.2) (methods l η ηRotate) (calls ηRotate) := by
  refine .cons ⟨rfl, follows_generateKey⟩ <| .cons ⟨rfl, follows_encrypt⟩ <| .cons ⟨rfl, follows_decrypt⟩ <|
    .cons ⟨rfl, fun _ _ => rfl⟩ <| .cons ⟨rfl, follows_deleteKey⟩ <| .cons ⟨rfl, ?_⟩ <| .cons ⟨rfl, ?_⟩ <|
    .cons ⟨rfl, ?_⟩ <| .cons ⟨rfl, follows_auditLog⟩ <| .cons ⟨rfl, fun _ _ => rfl⟩ <| .cons ⟨rfl, follows_rotateKey⟩ <|
    .cons ⟨rfl, ?_⟩ <| .cons ⟨rfl, follows_fipsMode⟩ .nil
  · exact fun _ s => state_bind (fun _ _ => rfl) s
  all_goals exact fun _ s => (state_bind (fun _ _ => rfl) s).trans (run_ignore _ s).symm

/-- **A dispatch leaves the vault as the call of its parameters does**, or as it was. -/
theorem state_dispatch (method params : Json ℚ) (s : Session) :
    (run (dispatch l η ηRotate method params) s).2 = after l η s (callOf ηRotate method params) := by
  rw [dispatch, callOf]
  have hmethods : List.Forall₂ (fun m c => m.1 = c.1 ∧ Follows l η m.2 c.2) (methods l η ηRotate) (calls ηRotate) :=
    follows_methods
  generalize methods l η ηRotate = ms at hmethods ⊢
  generalize calls ηRotate = cs at hmethods ⊢
  induction hmethods with
  | nil => rfl
  | @cons m c _ _ h _ ih =>
    obtain ⟨hname, hfollows⟩ := h
    rw [List.find?_cons, List.find?_cons, hname]
    cases isStr c.1 method with
    | false => exact ih
    | true => exact hfollows params s

/-! ## Every request is answered -/

/-- an entry of the server -/
def isMcp (e : AuditEntry) : Bool := AuditLogger.hasString "action" "mcp" e

/-- the session after a request, made at one time of the host, and another where the key is rotated -/
def handleStep (l : McpLibs) (s : Session) (c : Host × Host × Dict Text (Json ℚ)) : Session :=
  (run (handle l c.1 c.2.1 c.2.2) s).2

/-- the request is answered under its id with either a result or an error, logged once, and the log verifies afterwards -/
def Answered (l : McpLibs) (s : Session) (c : Host × Host × Dict Text (Json ℚ)) : Prop :=
  (∃ r, (run (handle l c.1 c.2.1 c.2.2) s).1 = .ok r ∧
    r.get (Text.ofString "id") = some ((c.2.2.get (Text.ofString "id")).getD .null) ∧
    Xor (r.contains (Text.ofString "result") = true) (r.contains (Text.ofString "error") = true)) ∧
  (∃ added, (handleStep l s c).vault.audit = s.vault.audit ++ added ∧ added.countP isMcp = 1) ∧
  verifyAuditIntegrity l.toLibs (handleStep l s c).vault = true

/-- the log is extended, by entries of the vault, and still verifies -/
structure Quiet (l : Libs) (s t : Session) : Prop where
  grows : ∃ added, t.vault.audit = s.vault.audit ++ added ∧ ∀ e ∈ added, isMcp e = false
  verified : verifyAuditIntegrity l s.vault = true → verifyAuditIntegrity l t.vault = true

theorem quiet_of_audit {l : Libs} {s t : Session} (h : t.vault.audit = s.vault.audit) : Quiet l s t where
  grows := ⟨[], by rw [h, List.append_nil], fun e he => by cases he⟩
  verified hs := by
    rw [verifyAuditIntegrity, h]
    exact hs

theorem allows_quiet (l : Libs) : Allows l (Quiet l) fun action => action ≠ "mcp" where
  silent s t h _ := quiet_of_audit h
  logged η action keyId success details s h := by
    obtain ⟨e, heq, haction, -⟩ := AuditLogger.log_eq (l := l) (η := η) action keyId success details s.vault.audit
    refine ⟨⟨[e], heq, ?_⟩, fun hs => ?_⟩
    · intro e' he'
      rw [List.mem_singleton.1 he', isMcp, AuditLogger.hasString, haction]
      simpa using h
    · rw [verifyAuditIntegrity, AuditLogger.log_eq_append]
      exact AuditLogger.verifyIntegrity_append hs _
  trans s t u h h' := by
    obtain ⟨added, heq, hadded⟩ := h.grows
    obtain ⟨added', heq', hadded'⟩ := h'.grows
    refine ⟨⟨added ++ added', by rw [heq', heq, List.append_assoc], ?_⟩, fun hs => h'.verified (h.verified hs)⟩
    intro e he
    exact (List.mem_append.1 he).elim (hadded e) (hadded' e)

theorem quiet_after (s : Session) (c : Option Call) : Quiet l.toLibs s (after l η s c) := by
  cases c with
  | none => exact quiet_of_audit rfl
  | some c =>
    have hactions : ∀ action ∈ c.actions, action ≠ "mcp" := by cases c <;> simp [Call.actions]
    exact moves_call (allows_quiet l.toLibs) (fun s t h => quiet_of_audit h) c hactions s

/-- a request is dispatched, and logged as what came of it -/
theorem run_handle (request : Dict Text (Json ℚ)) (s : Session) :
    ∃ key v success details, (key = "result" ∨ key = "error") ∧ run (handle l η ηRotate request) s =
      (.ok (response request key v), (run (logMcp l η (methodOf request) success details)
        (after l η s (callOf ηRotate (methodOf request) (paramsOf request)))).2) := by
  rw [← state_dispatch, handle, run_tryCatch, run_bind]
  rcases run (dispatch l η ηRotate (methodOf request) (paramsOf request)) s with ⟨e | result, t⟩
  · exact ⟨"error", _, false, e.msg, Or.inr rfl, rfl⟩
  · exact ⟨"result", result, true, [], Or.inl rfl, rfl⟩

theorem get_response_id (request : Dict Text (Json ℚ)) {key : String} (hkey : key = "result" ∨ key = "error") (v : Json ℚ) :
    (response request key v).get (Text.ofString "id") = some ((request.get (Text.ofString "id")).getD .null) := by
  rcases hkey with rfl | rfl
  all_goals rw [response, Dict.get_set_of_ne (by decide +kernel), Dict.get_set_self]

theorem contains_response (request : Dict Text (Json ℚ)) {key : String} (hkey : key = "result" ∨ key = "error") (v : Json ℚ) :
    Xor ((response request key v).contains (Text.ofString "result") = true)
      ((response request key v).contains (Text.ofString "error") = true) := by
  rcases hkey with rfl | rfl
  · exact Or.inl ⟨rfl, Bool.false_ne_true⟩
  · exact Or.inr ⟨rfl, Bool.false_ne_true⟩

theorem answered {s : Session} (hs : verifyAuditIntegrity l.toLibs s.vault = true) (c : Host × Host × Dict Text (Json ℚ)) :
    Answered l s c := by
  obtain ⟨η, ηRotate, request⟩ := c
  obtain ⟨key, v, success, details, hkey, hrun⟩ := run_handle (l := l) request s
  have hquiet := quiet_after (l := l) (η := η) s (callOf ηRotate (methodOf request) (paramsOf request))
  obtain ⟨added, hadded, hnone⟩ := hquiet.grows
  rw [Answered, handleStep, hrun]
  refine ⟨⟨_, rfl, get_response_id request hkey v, contains_response request hkey v⟩, ?_, ?_⟩
  · obtain ⟨e, heq, -, haction, -⟩ := AuditLogger.append_eq (l := l.toLibs)
      (after l η s (callOf ηRotate (methodOf request) (paramsOf request))).vault.audit
      ⟨η.clock (.audit "mcp"), .str "mcp", methodOf request, .bool success, .str details⟩
    refine ⟨added ++ [e], ?_, ?_⟩
    · rw [← List.append_assoc, ← hadded]
      exact heq
    · have hcount : added.countP isMcp = 0 := by simpa [List.countP_eq_zero] using hnone
      rw [List.countP_append, hcount, List.countP_singleton, isMcp, AuditLogger.hasString, haction]
      simp
  · exact AuditLogger.verifyIntegrity_append (hquiet.verified hs) _

theorem isStr_iff {name : String} {v : Json ℚ} : isStr name v = true ↔ v = .str name := by
  cases v <;> simp [isStr]

theorem unique_names : ["generate_key", "encrypt", "decrypt", "list_keys", "delete_key", "clear_cache", "add_canary",
    "check_canary", "audit_log", "info", "rotate_key", "verify_integrity", "fips_mode"].Nodup := by
  decide

/-- each name is found in a table -/
theorem find_isStr {α : Type} {table : List (String × α)} (hnames : Table.Unique table) {name : String} {a : α}
    (ha : (name, a) ∈ table) : table.find? (fun m => isStr m.1 (.str name)) = some (name, a) := by
  have hsame : (fun m : String × α => isStr m.1 (.str name)) = fun m => decide (m.1 = name) := by
    funext m
    simp [isStr, eq_comm]
  have hget := Table.get_of_mem hnames ha
  rw [Table.get, Option.map_eq_some_iff] at hget
  obtain ⟨⟨name', a'⟩, hfound, rfl⟩ := hget
  have hname : name' = name := by simpa using List.find?_some hfound
  rw [hsame, hfound, hname]

theorem dispatch_method {name : String} {method : Json ℚ → VaultM (Json ℚ)} (hm : (name, method) ∈ methods l η ηRotate)
    (params : Json ℚ) : dispatch l η ηRotate (.str name) params = method params := by
  have hnames : Table.Unique (methods l η ηRotate) := unique_names
  rw [dispatch, find_isStr hnames hm]

theorem callOf_method {name : String} {call : Json ℚ → Option Call} (hc : (name, call) ∈ calls ηRotate) (params : Json ℚ) :
    callOf ηRotate (.str name) params = call params := by
  have hnames : Table.Unique (calls ηRotate) := unique_names
  rw [callOf, find_isStr hnames hc]
  rfl

theorem fipsMode_obj (params : Dict Text (Json ℚ)) : fipsMode l η (.obj params.entries) =
    dispatchFipsMode l.toLibs η params >>= fun on => pure (.obj [("fips_mode", .bool on)]) := by
  have hget : fipsMode l η (.obj params.entries) = ((if truthy ((params.get (Text.ofString "enable")).getD (.bool false)) then
      enableFipsMode l.toLibs η else disableFipsMode l.toLibs η) >>= fun _ => get >>= fun s =>
        pure (.obj [("fips_mode", .bool s.vault.fipsMode)])) := by
    change (if truthy ((params.get (Text.ofString "enable")).getD (.bool false)) then _ else _) = _
    cases truthy ((params.get (Text.ofString "enable")).getD (.bool false)) <;> rfl
  rw [hget, dispatchFipsMode]
  cases truthy ((params.get (Text.ofString "enable")).getD (.bool false)) <;> rfl

/-- a request that switches the mode -/
theorem handle_fipsMode {request : Dict Text (Json ℚ)} {params : Dict Text (Json ℚ)}
    (hmethod : request.get (Text.ofString "method") = some (.str "fips_mode"))
    (hparams : request.get (Text.ofString "params") = some (.obj params.entries)) (s : Session) :
    (run (handle l η ηRotate request) s).2 = (run (handleFipsMode l.toLibs η params) s).2 := by
  have hdispatch : dispatch l η ηRotate (.str "fips_mode") (.obj params.entries) = fipsMode l η (.obj params.entries) :=
    dispatch_method (by simp [methods]) _
  have hswitch : ∃ on t, run (dispatchFipsMode l.toLibs η params) s = (.ok on, t) := by
    rw [dispatchFipsMode]
    cases truthy ((params.get (Text.ofString "enable")).getD (.bool false)) <;> exact ⟨_, _, rfl⟩
  obtain ⟨on, t, hswitch⟩ := hswitch
  rw [handle, methodOf, paramsOf, hmethod, hparams, Option.getD_some, Option.getD_some, hdispatch, fipsMode_obj, handleFipsMode,
    run_tryCatch, run_bind, run_bind, run_bind, hswitch]
  rfl

end McpServer

end AbirGuard.Python
