/-
The HTTP gateway of the MCP server (`mcp_http.py`): one POST request.

`do_POST` asks the rate limiter, compares the API key, checks the announced size, reads and parses the body, and hands what it
parsed to the server. What a request does is recorded as a list of events: the bytes read from the body, the calls of the
server, and the responses sent.

- `RateLimiter.isAllowed`, `AuthValidator.validate`: the two checks before the body.
- `doPost`: the handler. Only a `JSONDecodeError` is caught.
-/
import AbirGuard.Python.McpServer

namespace AbirGuard.Python

open AbirGuard.Core JsonValue Raise

/-! ## Model -/

def MAX_BODY_SIZE : ℤ := 1024 * 1024

def DEFAULT_RATE_LIMIT : ℤ := 100

def RATE_WINDOW : ℤ := 60

structure RateLimiter where
  maxRequests : ℤ
  window : ℤ
  requests : Dict Text (List ℚ)

namespace RateLimiter

def new (maxRequests : ℤ := DEFAULT_RATE_LIMIT) (window : ℤ := RATE_WINDOW) : RateLimiter := ⟨maxRequests, window, .empty⟩

/-- whether the request is allowed, how many remain, and the limiter after it -/
def isAllowed (now : ℚ) (ip : Text) (r : RateLimiter) : (Bool × ℤ) × RateLimiter :=
  let cutoff := now - r.window
  let kept := ((r.requests.get ip).getD []).filter fun t => cutoff < t
  if r.maxRequests ≤ kept.length then ((false, 0), { r with requests := r.requests.set ip kept })
  else ((true, r.maxRequests - kept.length - 1), { r with requests := r.requests.set ip (kept ++ [now]) })

end RateLimiter

/-- the valid keys are a set; the list has them in the order of its iteration -/
structure AuthValidator where
  validKeys : List Text

namespace AuthValidator

def new (apiKey : Option Text) : AuthValidator :=
  match apiKey with
  | none => ⟨[]⟩
  | some key => ⟨if key = [] then [] else [key]⟩

def validate (a : AuthValidator) (providedKey : Option Text) : Except Exc Bool :=
  if a.validKeys = [] then .ok true
  else
    match providedKey with
    | none => .ok false
    | some key => if key = [] then .ok false else a.validKeys.anyM fun k => compareDigest key k

end AuthValidator

/-! ### Requests -/

/-- bytes decoded as ISO 8859-1 -/
def latin1 (b : Bytes) : Text := b.map fun x => ⟨x.toNat, Nat.lt_trans x.toNat_lt (by decide)⟩

/-- `lower` of a character of ISO 8859-1 -/
def lowerPoint (p : CodePoint) : CodePoint :=
  if 0x41 ≤ p.val ∧ p.val ≤ 0x5A ∨ 0xC0 ≤ p.val ∧ p.val ≤ 0xDE ∧ p.val ≠ 0xD7 then p + 32 else p

abbrev Headers := List (Bytes × Bytes)

/-- `headers.get(name)`: the first header of the name, without regard to case -/
def Headers.get (name : String) (headers : Headers) : Option Text :=
  (headers.find? fun h => (latin1 h.1).map lowerPoint = (Text.ofString name).map lowerPoint).map fun h => latin1 h.2

/-- a request: the address of the peer, the headers, and all that comes after them on the connection -/
structure Request where
  clientAddress : Text
  headers : Headers
  body : Bytes

/-- the libraries; `json.loads` may return any value and raise any exception -/
structure HttpLibs extends McpLibs where
  loads : Bytes → Except Exc (Json ℚ)
  /-- `ipaddress.ip_address(t)` returns; it raises a `ValueError` otherwise -/
  isIpAddress : Text → Bool
  /-- `sys.get_int_max_str_digits()`, 0 for no limit -/
  maxStrDigits : ℕ

/-- the readings of the clock by the rate limiter and by the log, and what the vault is given during the call of the server -/
structure HttpHost where
  limiterTime : ℚ
  auditTime : ℚ
  vault : Host
  rotate : Host

/-- the attributes of the handler and of its server that a request does not change -/
structure Config where
  auth : Option AuthValidator
  maxBodySize : ℤ := MAX_BODY_SIZE
  trustedProxyIps : List Text

structure Response where
  code : ℕ
  headers : List (String × Text)
  body : Bytes
deriving DecidableEq

/-- what a request does: bytes read from the body, calls of the server, responses -/
inductive Event where
  | read (n : ℕ)
  | handle (request : Json ℚ)
  | send (response : Response)

/-- what the requests change, and the events so far -/
structure Gateway where
  serverInstance : Option Session
  rateLimiter : Option RateLimiter
  auditLog : List AuditEntry
  events : List Event

abbrev GatewayM (α : Type) : Type := Raise Exc Gateway α

def emit (e : Event) : GatewayM Unit := modify fun g => { g with events := g.events ++ [e] }

namespace McpHttpHandler

/-- `int(t)` with the limit on the number of digits -/
def int (maxStrDigits : ℕ) (t : Text) : Except Exc ℤ := do
  let n ← parseInt t
  let digits := t.countP fun p => (Json.digit? p).isSome
  if maxStrDigits ≠ 0 ∧ maxStrDigits < digits then
    .error ⟨.valueError, s!"Exceeds the limit ({maxStrDigits} digits) for integer string conversion: " ++
      s!"value has {digits} digits; use sys.set_int_max_str_digits() to increase the limit"⟩
  else .ok n

variable (l : HttpLibs) (cfg : Config) (req : Request) (η : HttpHost)

/-- the first of the addresses in `X-Forwarded-For` -/
def candidateIp (forwarded : Text) : Text :=
  let first := forwarded.takeWhile fun p => p ≠ CodePoint.ofChar ','
  (first.dropWhile isWhitespace).rdropWhile isWhitespace

def getClientIp : Text :=
  if req.clientAddress ∈ cfg.trustedProxyIps then
    let forwarded := (req.headers.get "X-Forwarded-For").getD []
    if forwarded ≠ [] ∧ l.isIpAddress (candidateIp forwarded) then candidateIp forwarded else req.clientAddress
  else req.clientAddress

def newEntry (time : ℚ) (action : String) (ip : Text) (success : Bool) (details : Json ℚ) : AuditEntry where
  entries := Table.setAll ([("timestamp", .float time), ("action", .str action), ("ip", .str ip), ("success", .bool success),
    ("details", details)] : List (Text × Json ℚ))
  unique := Table.unique_setAll _

def logAudit (action : String) (success : Bool) (details : Json ℚ) : GatewayM Unit :=
  modify fun g =>
    let entry := newEntry η.auditTime action (getClientIp l cfg req) success details
    let entry := match g.auditLog.getLast? with
      | some prev => entry.set (Text.ofString "prev_hash") (Json.str (AuditLogger.hashEntry l.toLibs prev))
      | none => entry
    { g with auditLog := g.auditLog ++ [entry.set (Text.ofString "hash") (Json.str (AuditLogger.hashEntry l.toLibs entry))] }

/-- `json.dumps(v).encode()`; the text is of ASCII characters -/
def body (v : Json ℚ) : Bytes := (Json.dumps l.float none v).encode.getD []

/-- the responses to requests that are not let in -/
def sendRefusal (code : ℕ) (headers : List (String × Text)) (message : String) : GatewayM Unit :=
  emit (.send ⟨code, ("Content-Type", "application/json") :: headers,
    body l (.obj [("error", .obj [("code", .int code), ("message", .str message)])])⟩)

def sendJson (data : Json ℚ) : GatewayM Unit :=
  let response := body l data
  emit (.send ⟨200, [("Content-Type", "application/json"), ("Content-Length", str response.length),
    ("X-Content-Type-Options", "nosniff"), ("X-Frame-Options", "DENY"), ("Cache-Control", "no-store")], response⟩)

def sendJsonError (code : ℤ) (message : Text) : GatewayM Unit :=
  sendJson l (.obj [("jsonrpc", .str "2.0"), ("id", .null), ("error", .obj [("code", .int code), ("message", .str message)])])

/-- a response with the number of requests that remain -/
def sendLimited (remaining : ℤ) (data : Json ℚ) : GatewayM Unit :=
  let response := body l data
  emit (.send ⟨200, [("Content-Type", "application/json"), ("X-RateLimit-Remaining", str remaining),
    ("X-Content-Type-Options", "nosniff"), ("X-Frame-Options", "DENY"), ("Cache-Control", "no-store"),
    ("Content-Length", str response.length)], response⟩)

/-! ### The checks -/

/-- whether the request is within the rate; without a limiter it is, and no number remains -/
def checkRate : GatewayM (Bool × Option ℤ) := do
  let g ← get
  match g.rateLimiter with
  | none => pure (true, none)
  | some r => do
    let ((allowed, remaining), r) := r.isAllowed η.limiterTime (getClientIp l cfg req)
    set { g with rateLimiter := some r }
    pure (allowed, some remaining)

/-- the API key in the headers -/
def presentedKey (headers : Headers) : Option Text :=
  let authHeader := (headers.get "Authorization").getD []
  if (Text.ofString "Bearer ").isPrefixOf authHeader then some (authHeader.drop 7)
  else if (Text.ofString "X-Api-Key: ").isPrefixOf authHeader then some (authHeader.drop 11)
  else headers.get "X-Api-Key"

/-- the check of the key; without a validator there is none -/
def checkKey : Except Exc Bool :=
  match cfg.auth with
  | none => .ok true
  | some auth => auth.validate (presentedKey req.headers)

/-- `int(self.headers.get("Content-Length", 0))` -/
def contentLength : Except Exc ℤ :=
  match req.headers.get "Content-Length" with
  | none => .ok 0
  | some t => int l.maxStrDigits t

/-- `self.rfile.read(n)` of a buffered reader, where -1 reads up to the end -/
def read (n : ℤ) : GatewayM Bytes :=
  if n < -2 ^ 63 ∨ 2 ^ 63 ≤ n then throw ⟨.overflowError, "cannot fit 'int' into an index-sized integer"⟩
  else if n < -1 then throw ⟨.valueError, "read length must be non-negative or -1"⟩
  else do
    let data := if n = -1 then req.body else req.body.take n.toNat
    emit (.read data.length)
    pure data

/-- read and parse the body; none if it is no JSON, which is answered -/
def readRequest (n : ℤ) : GatewayM (Option (Json ℚ)) :=
  tryCatch
    (do
      let body ← read req n
      let request ← lift (l.loads body)
      pure (some request))
    fun e =>
      if e.type = .jsonDecodeError then do
        logAudit l cfg req η "parse_error" false (.str e.msg)
        sendJsonError l (-32700) ("Parse error: " ++ e.msg)
        pure none
      else throw e

/-- `self.server_instance.handle(request)` -/
def callServer (s : Session) (request : Json ℚ) : GatewayM (Dict Text (Json ℚ)) := do
  emit (.handle request)
  match request with
  | .obj members =>
    zoom (fun _ => s) (fun s g => { g with serverInstance := some s })
      (McpServer.handle l.toMcpLibs η.vault η.rotate ⟨Table.setAll members, Table.unique_setAll members⟩)
  | v => throw (noAttribute "get" v)

/-- hand the request to the server, if there is one, and answer -/
def dispatch (remaining : Option ℤ) (request : Json ℚ) : GatewayM Unit := do
  let g ← get
  match g.serverInstance with
  | none => do
    logAudit l cfg req η "server_error" false (.str [])
    sendJsonError l (-32603) "Server not initialized"
  | some s => do
    let response ← callServer l η s request
    let method ← lift (dictGet "method" (.str "unknown") request)
    logAudit l cfg req η "mcp_request" (!response.contains (Text.ofString "error")) method
    match remaining with
    | some n => sendLimited l n (.obj response.entries)
    | none => sendJson l (.obj response.entries)

/-- `do_POST` from the reading of the body on -/
def postBody (remaining : Option ℤ) (n : ℤ) : GatewayM Unit := do
  match ← readRequest l cfg req η n with
  | none => pure ()
  | some request => dispatch l cfg req η remaining request

/-- `do_POST` from the size check on -/
def postSized (remaining : Option ℤ) : GatewayM Unit := do
  let n ← lift (contentLength l req)
  if cfg.maxBodySize < n then do
    logAudit l cfg req η "body_too_large" false (.str ("size=" ++ str n))
    sendRefusal l 413 [] "Request body too large (max 1MB)"
  else postBody l cfg req η remaining n

/-- `do_POST` from the authentication on -/
def postAuthenticated (remaining : Option ℤ) : GatewayM Unit := do
  let valid ← lift (checkKey cfg req)
  if ¬ valid then do
    logAudit l cfg req η "auth_failure" false (.str [])
    sendRefusal l 401 [] "Unauthorized"
  else postSized l cfg req η remaining

/-- `do_POST` -/
def doPost : GatewayM Unit := do
  let (allowed, remaining) ← checkRate l cfg req η
  if ¬ allowed then do
    logAudit l cfg req η "rate_limit_exceeded" false (.str [])
    sendRefusal l 429 [("Retry-After", str RATE_WINDOW)] "Rate limit exceeded"
  else postAuthenticated l cfg req η remaining

end McpHttpHandler

end AbirGuard.Python
