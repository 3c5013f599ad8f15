/-
The MCP client of the JavaScript SDK against the HTTP gateway in Python: what a promise of the client is fulfilled with.

The client writes the method and its parameters as JSON and posts them, without a key and without an id; the gateway checks,
parses and hands them to its server, and the client parses the text of the answer. Both sides are modelled down to the text.

- `loads_body`: the gateway's reader gets back the message that the client wrote, whatever the parameters.
- `clients_refine`: between the two, nothing is lost: over any run of calls, a request does what a direct call of the server
  does, or is refused by the one of the three checks that comes first.
- `direct_closed_run`: a gateway with a key never serves this client.
-/
import AbirGuard.Core.JsonText
import AbirGuard.Python.HttpAudit

namespace AbirGuard.Js.McpClient

open AbirGuard.Core Raise
open AbirGuard.Python AbirGuard.Python.McpHttpHandler AbirGuard.Python.JsonValue

/-! ## Model -/

/-- the members of a message, in the order in which the client writes them -/
def message (method : Text) (params : Json ℚ) : List (Text × Json ℚ) :=
  [("jsonrpc", .str "2.0"), ("method", .str method), ("params", params)]

def generateKeyPair (keyId : Json ℚ) : Text × Json ℚ := ("generate_key", .obj [("key_id", keyId)])

def encrypt (keyId data : Json ℚ) : Text × Json ℚ := ("encrypt", .obj [("key_id", keyId), ("data", data)])

def decrypt (keyId ciphertext : Json ℚ) : Text × Json ℚ := ("decrypt", .obj [("key_id", keyId), ("ciphertext", ciphertext)])

/-- the connection: the address the gateway sees, and the headers that `fetch` sets by itself -/
structure Connection where
  clientAddress : Text
  headers : Headers

/-- none of the headers is one that the gateway asks for -/
structure Connection.Plain (c : Connection) : Prop where
  authorization : c.headers.get "Authorization" = none
  apiKey : c.headers.get "X-Api-Key" = none

def asciiBytes (t : Text) : Bytes := t.map fun p => UInt8.ofNat p.val

/-- the request of `fetch` -/
def post (c : Connection) (body : Bytes) : Request :=
  ⟨c.clientAddress, (utf8 "Content-Length", asciiBytes (str body.length)) ::
    (utf8 "Content-Type", utf8 "application/json") :: c.headers, body⟩

/-- `JSON.stringify` and the encoding of the text; it always has one -/
def bodyOf (js : FloatText ℚ) (method : Text) (params : Json ℚ) : Bytes :=
  (Json.stringify js (.obj (message method params))).encode.getD []

/-- the response among the events of a request -/
def responseTo (before after : Gateway) : Option Response :=
  (after.events.drop before.events.length).findSome? Event.response

/-- `response.json()`; none is a promise that is rejected -/
def parsed (l : HttpLibs) (response : Option Response) : Option (Json ℚ) :=
  response.bind fun r => (Text.decode r.body).bind (Json.loads l.float)

/-- a call: what the gateway is given while it handles it, the connection, and the arguments of `request` -/
structure Call where
  host : HttpHost
  connection : Connection
  method : Text
  params : Json ℚ

def Call.body (js : FloatText ℚ) (x : Call) : Bytes := bodyOf js x.method x.params

def Call.post (js : FloatText ℚ) (x : Call) : Request := McpClient.post x.connection (x.body js)

/-- the gateway after a call -/
def step (js : FloatText ℚ) (l : HttpLibs) (cfg : Config) (g : Gateway) (x : Call) : Gateway :=
  (run (doPost l cfg (x.post js) x.host) g).2

/-- `request`: what its promise is fulfilled with -/
def request (js : FloatText ℚ) (l : HttpLibs) (cfg : Config) (g : Gateway) (x : Call) : Option (Json ℚ) :=
  parsed l (responseTo g (step js l cfg g x))

/-! ## Direct calls -/

/-- a server and the limiter before it -/
structure Direct where
  server : Session
  limiter : Option RateLimiter

namespace Direct

def refusal (code : ℤ) (text : String) : Json ℚ := .obj [("error", .obj [("code", .int code), ("message", .str text)])]

/-- the gateway has no key -/
def isOpen (cfg : Config) : Bool := cfg.auth.all fun a => a.validKeys.isEmpty

theorem unique_message (method : Text) (params : Json ℚ) : Table.Unique (message method params) := by
  have hkeys : ([Text.ofString "jsonrpc", "method", "params"] : List Text).Nodup := by decide +kernel
  exact hkeys

/-- the server called with the method and the parameters -/
def called (l : HttpLibs) (s : Session) (x : Call) : Except Exc (Dict Text (Json ℚ)) × Session :=
  run (McpServer.handle l.toMcpLibs x.host.vault x.host.rotate ⟨message x.method x.params, unique_message x.method x.params⟩) s

/-- the answer of the server, as JSON brings it over -/
def answered (l : HttpLibs) (s : Session) (x : Call) : Option (Json ℚ) :=
  (called l s x).1.toOption.map fun response => (Json.obj response.entries).normal

variable (js : FloatText ℚ) (l : HttpLibs) (cfg : Config) (d : Direct) (x : Call)

/-- what the limiter says of the address, and the limiter after that -/
def limited : Bool × Option RateLimiter :=
  match d.limiter with
  | none => (true, none)
  | some r => ((r.isAllowed x.host.limiterTime (getClientIp l cfg (x.post js))).1.1,
      some (r.isAllowed x.host.limiterTime (getClientIp l cfg (x.post js))).2)

/-- the first refusal, if any -/
def refused : Option (Json ℚ) :=
  if ¬ (d.limited js l cfg x).1 then some (refusal 429 "Rate limit exceeded")
  else if ¬ isOpen cfg then some (refusal 401 "Unauthorized")
  else if cfg.maxBodySize < (x.body js).length then some (refusal 413 "Request body too large (max 1MB)")
  else none

/-- the answer to a call, or the first refusal -/
def request : Option (Json ℚ) := (d.refused js l cfg x).elim (answered l d.server x) some

def step : Direct :=
  ⟨(d.refused js l cfg x).elim (called l d.server x).2 fun _ => d.server, (d.limited js l cfg x).2⟩

end Direct

open Direct

/-! ## The request -/

variable {js : FloatText ℚ} {l : HttpLibs} {cfg : Config} {η : HttpHost} {c : Connection}

theorem latin1_asciiBytes {t : Text} (h : ∀ p ∈ t, p.val < 128) : latin1 (asciiBytes t) = t := by
  rw [latin1, asciiBytes, List.map_map]
  refine (List.map_congr_left fun p hp => Fin.ext ?_).trans (List.map_id t)
  have hp := h p hp
  change (UInt8.ofNat p.val).toNat = p.val
  rw [UInt8.toNat_ofNat']
  exact Nat.mod_eq_of_lt (by omega)

theorem str_ascii (n : ℤ) : ∀ p ∈ str n, p.val < 128 := Json.text_ascii _

/-- the names are the same, without regard to case -/
def SameName (name : String) (n : Bytes) : Prop := (latin1 n).map lowerPoint = (Text.ofString name).map lowerPoint

instance (name : String) (n : Bytes) : Decidable (SameName name n) := inferInstanceAs (Decidable (_ = _))

theorem get_cons_of_not {name : String} {n : Bytes} (h : ¬ SameName name n) (v : Bytes) (headers : Headers) :
    Headers.get name ((n, v) :: headers) = Headers.get name headers := by
  rw [Headers.get, Headers.get, List.find?_cons_of_neg (by simpa [SameName] using h)]

theorem get_cons_self {name : String} {n : Bytes} (h : SameName name n) (v : Bytes) (headers : Headers) :
    Headers.get name ((n, v) :: headers) = some (latin1 v) := by
  rw [Headers.get, List.find?_cons_of_pos (by simpa [SameName] using h), Option.map_some]

/-- the headers that the gateway reads of a request -/
theorem get_post (hc : c.Plain) (body : Bytes) : (post c body).headers.get "Authorization" = none ∧
    (post c body).headers.get "X-Api-Key" = none ∧ (post c body).headers.get "Content-Length" = some (str body.length) := by
  refine ⟨?_, ?_, ?_⟩
  · rw [post, get_cons_of_not (by decide +kernel), get_cons_of_not (by decide +kernel), hc.authorization]
  · rw [post, get_cons_of_not (by decide +kernel), get_cons_of_not (by decide +kernel), hc.apiKey]
  · rw [post, get_cons_self (by decide +kernel), latin1_asciiBytes (str_ascii _)]

theorem checkKey_post (hc : c.Plain) (body : Bytes) : checkKey cfg (post c body) = .ok (isOpen cfg) := by
  obtain ⟨hauth, hkey, -⟩ := get_post hc body
  have hpresented : presentedKey (post c body).headers = none := by
    rw [presentedKey, hauth, hkey]
    rfl
  rw [checkKey, isOpen]
  cases cfg.auth with
  | none => rfl
  | some auth =>
    rw [Option.all_some]
    dsimp only
    rw [hpresented, AuthValidator.validate]
    cases auth.validKeys <;> rfl

/-- a length has no more digits than the smallest limit that can be set -/
theorem length_str_le {n : ℕ} (h : n < 2 ^ 63) : (str n).length ≤ 640 := by
  have hdigits : (Json.digitsOfNat n).length ≤ 19 := by
    rw [Json.digitsOfNat]
    split_ifs with h0
    · decide
    · rw [List.length_reverse, List.length_map]
      exact (Nat.digits_length_le_iff (by decide) n).2 (by omega)
  rw [str_eq, if_neg (by omega), Json.signText, List.nil_append, Json.digits, List.length_map, Int.natAbs_natCast]
  omega

theorem contentLength_post (hc : c.Plain) (hdigits : l.maxStrDigits = 0 ∨ 640 ≤ l.maxStrDigits) {body : Bytes}
    (hbody : body.length < 2 ^ 63) : contentLength l (post c body) = .ok body.length := by
  rw [contentLength, (get_post hc body).2.2]
  dsimp only
  rw [McpHttpHandler.int, parseInt_str]
  have hcount : (str body.length).countP (fun p => (Json.digit? p).isSome) ≤ 640 :=
    (List.countP_le_length).trans (length_str_le hbody)
  have hlimit : ¬ (l.maxStrDigits ≠ 0 ∧ l.maxStrDigits < (str body.length).countP fun p => (Json.digit? p).isSome) := by
    rintro ⟨h0, hlt⟩
    rcases hdigits with hd | hd
    · exact h0 hd
    · omega
  exact if_neg hlimit

/-! ## The answer -/

/-- the text of a response is that of the value -/
theorem parsed_body (hl : l.float.Lawful) (v : Json ℚ) :
    (Text.decode (McpHttpHandler.body l v)).bind (Json.loads l.float) = some v.normal := by
  obtain ⟨b, hb⟩ := Json.encode_dumps l.float none v
  rw [McpHttpHandler.body, hb, Option.getD_some, Text.decode_encode hb, Option.bind_some, Json.loads_dumps none hl v]

/-- the program ends with a response of this value after other events, and leaves this server and this limiter -/
structure Finishes (l : HttpLibs) (x : GatewayM Unit) (g : Gateway) (v : Json ℚ) (d : Direct) : Prop where
  events : ∃ new response, (run x g).2.events = g.events ++ new ++ [.send response] ∧ new.filterMap Event.response = [] ∧
    response.body = McpHttpHandler.body l v
  server : (run x g).2.serverInstance = some d.server
  limiter : (run x g).2.rateLimiter = d.limiter

theorem Finishes.bind {α : Type} {x : GatewayM α} {f : α → GatewayM Unit} {g g' : Gateway} {a : α} {before : List Event}
    {v : Json ℚ} {d : Direct} (hx : run x g = (.ok a, g')) (hevents : g'.events = g.events ++ before)
    (hbefore : before.filterMap Event.response = []) (h : Finishes l (f a) g' v d) : Finishes l (x >>= f) g v d := by
  obtain ⟨⟨new, response, hnew, hnone, hbody⟩, hserver, hlimiter⟩ := h
  rw [hevents] at hnew
  refine ⟨⟨before ++ new, response, ?_, ?_, hbody⟩, ?_, ?_⟩
  · rw [run_bind_of_ok hx, hnew, List.append_assoc g.events]
  · rw [List.filterMap_append, hbefore, hnone, List.append_nil]
  · rw [run_bind_of_ok hx, hserver]
  · rw [run_bind_of_ok hx, hlimiter]

theorem Finishes.lift_bind {α : Type} {x : Except Exc α} {f : α → GatewayM Unit} {g : Gateway} {a : α} {v : Json ℚ} {d : Direct}
    (hx : x = .ok a) (h : Finishes l (f a) g v d) : Finishes l (lift x >>= f) g v d := by
  rw [hx]
  exact h

/-- then the client is given the value -/
theorem Finishes.parsed (hl : l.float.Lawful) {x : GatewayM Unit} {g : Gateway} {v : Json ℚ} {d : Direct}
    (h : Finishes l x g v d) : parsed l (responseTo g (run x g).2) = some v.normal := by
  obtain ⟨new, response, hnew, hnone, hbody⟩ := h.events
  have hresponse : responseTo g (run x g).2 = some response := by
    rw [responseTo, hnew, List.append_assoc, List.drop_left, List.findSome?_append]
    have hnew : new.findSome? Event.response = none := by
      rw [← List.head?_filterMap, hnone]
      rfl
    rw [hnew, Option.none_or]
    rfl
  rw [McpClient.parsed, hresponse, Option.bind_some, hbody, parsed_body hl]

/-- the gateway has this server and this limiter -/
structure Simulates (g : Gateway) (d : Direct) : Prop where
  server : g.serverInstance = some d.server
  limiter : g.rateLimiter = d.limiter

variable {g : Gateway} {d : Direct}

theorem finishes_refusal (hg : Simulates g d) (req : Request) (η : HttpHost) (action : String) (details : Json ℚ) (code : ℕ)
    (headers : List (String × Text)) (text : String) :
    Finishes l (do logAudit l cfg req η action false details; sendRefusal l code headers text) g (refusal code text) d where
  events := by
    refine ⟨[], ⟨code, ("Content-Type", "application/json") :: headers, McpHttpHandler.body l (refusal code text)⟩, ?_, rfl, rfl⟩
    rw [List.append_nil]
    rfl
  server := hg.server
  limiter := hg.limiter

/-- what the server is called with is what was sent -/
theorem run_callServer_message (x : Call) (s : Session) (g : Gateway) :
    run (callServer l x.host s (.obj (message x.method x.params))) g = ((called l s x).1, { g with
      events := g.events ++ [.handle (.obj (message x.method x.params))], serverInstance := some (called l s x).2 }) := by
  have hdict : (⟨Table.setAll (message x.method x.params), Table.unique_setAll _⟩ : Dict Text (Json ℚ)) =
      ⟨message x.method x.params, unique_message x.method x.params⟩ := by
    congr 1
  rw [callServer, emit, run_modify_bind, run_zoom, hdict]
  rfl

theorem returns_called (s : Session) (x : Call) : ∃ response, (called l s x).1 = .ok response := by
  obtain ⟨key, v, success, details, -, hrun⟩ := @McpServer.run_handle l.toMcpLibs x.host.vault x.host.rotate
    ⟨message x.method x.params, unique_message x.method x.params⟩ s
  exact ⟨_, congrArg Prod.fst hrun⟩

/-- the server's answer is the last event -/
theorem finishes_dispatch (hg : Simulates g d) (req : Request) (x : Call) (remaining : Option ℤ)
    {response : Dict Text (Json ℚ)} (hresponse : (called l d.server x).1 = .ok response) :
    Finishes l (dispatch l cfg req x.host remaining (.obj (message x.method x.params))) g (.obj response.entries)
      { d with server := (called l d.server x).2 } := by
  have hcall := run_callServer_message (l := l) x d.server g
  rw [hresponse] at hcall
  have hget : run (get : GatewayM Gateway) g = (.ok g, g) := rfl
  refine Finishes.bind hget (List.append_nil _).symm rfl ?_
  rw [hg.server]
  refine Finishes.bind hcall rfl rfl ?_
  cases remaining with
  | none => exact ⟨⟨[], _, by rw [List.append_nil]; rfl, rfl, rfl⟩, rfl, hg.limiter⟩
  | some n => exact ⟨⟨[], _, by rw [List.append_nil]; rfl, rfl, rfl⟩, rfl, hg.limiter⟩

/-! ## Stages -/

/-- the bytes of a text in UTF-8 that starts with a brace are read as JSON -/
def ReadsText (js : FloatText ℚ) (l : HttpLibs) : Prop :=
  ∀ t b v, t.encode = some b → t.head? = some (CodePoint.ofChar '\x7b') → Json.loads js t = some v → l.loads b = .ok v

/-- a call that JavaScript can make: its strings are sequences of UTF-16, and its body is no longer than an array can be -/
structure Call.Valid (js : FloatText ℚ) (x : Call) : Prop where
  plain : x.connection.Plain
  method : Json.Unpaired x.method
  params : x.params.Clean
  body : (x.body js).length < 2 ^ 63

/-- the body is read as what was sent -/
theorem loads_body (hjs : js.Lawful) (hloads : ReadsText js l) {x : Call} (hx : x.Valid js) :
    l.loads (x.body js) = .ok (.obj (message x.method x.params)) := by
  obtain ⟨b, hb⟩ := Json.encode_stringify (T := js) (.obj (message x.method x.params))
  have hclean : (Json.obj (message x.method x.params)).Clean := by
    refine ⟨unique_message x.method x.params, ⟨?_, ?_⟩, ⟨?_, hx.method⟩, ⟨?_, hx.params⟩, trivial⟩
    all_goals exact Json.unpaired_ofString _
  rw [Call.body, bodyOf, hb, Option.getD_some]
  exact hloads _ b _ hb rfl (Json.loads_stringify hjs hclean)

theorem normal_refusal (code : ℤ) (text : String) : (refusal code text).normal = refusal code text := by
  refine (Json.normal_eq_self_iff _).2 ⟨List.nodup_singleton _, ⟨Json.unpaired_ofString _, ?_⟩, trivial⟩
  have hkeys : ([Text.ofString "code", "message"] : List Text).Nodup := by decide +kernel
  exact ⟨hkeys, ⟨Json.unpaired_ofString _, trivial⟩, ⟨Json.unpaired_ofString _, Json.unpaired_ofString _⟩, trivial⟩

/-- the body is read and handed to the server -/
theorem finishes_postBody {x : Call} (hx : x.Valid js) (hread : l.loads (x.body js) = .ok (.obj (message x.method x.params)))
    (hg : Simulates g d) (remaining : Option ℤ) {response : Dict Text (Json ℚ)}
    (hresponse : (called l d.server x).1 = .ok response) :
    Finishes l (postBody l cfg (x.post js) x.host remaining (x.body js).length) g (.obj response.entries)
      { d with server := (called l d.server x).2 } := by
  have hrun := run_read (x.post js) (n := (x.body js).length) (Or.inl ⟨by omega, by have := hx.body; omega⟩) g
  have hbytes : bodyRead (x.post js) (x.body js).length = x.body js := by
    rw [bodyRead, if_neg (by omega), Int.toNat_natCast]
    exact List.take_length
  rw [hbytes] at hrun
  have hrequest : run (readRequest l cfg (x.post js) x.host (x.body js).length) g =
      (.ok (some (.obj (message x.method x.params))), { g with events := g.events ++ [.read (x.body js).length] }) := by
    rw [readRequest, run_tryCatch, run_bind_of_ok hrun, run_lift_bind, hread]
    rfl
  have hg' : Simulates { g with events := g.events ++ [.read (x.body js).length] } d := ⟨hg.server, hg.limiter⟩
  exact Finishes.bind hrequest rfl rfl (finishes_dispatch hg' (x.post js) x remaining hresponse)

theorem run_checkRate (hg : Simulates g d) (x : Call) : ∃ remaining,
    run (checkRate l cfg (x.post js) x.host) g =
      (.ok ((d.limited js l cfg x).1, remaining), { g with rateLimiter := (d.limited js l cfg x).2 }) := by
  unfold limited
  cases hlimiter : d.limiter with
  | none =>
    have hnone : g.rateLimiter = none := hg.limiter.trans hlimiter
    have hself : { g with rateLimiter := none } = g := by rw [← hnone]
    exact ⟨none, (run_checkRate_none _ _ hnone).trans (congrArg (Prod.mk _) hself.symm)⟩
  | some r => exact ⟨_, run_checkRate_some _ _ (hg.limiter.trans hlimiter)⟩

theorem finishes_postSized {x : Call} (hx : x.Valid js) (hlength : contentLength l (x.post js) = .ok (x.body js).length)
    (hread : l.loads (x.body js) = .ok (.obj (message x.method x.params))) (hg : Simulates g d) (remaining : Option ℤ)
    {response : Dict Text (Json ℚ)} (hresponse : (called l d.server x).1 = .ok response) :
    if cfg.maxBodySize < (x.body js).length then
      Finishes l (postSized l cfg (x.post js) x.host remaining) g (refusal 413 "Request body too large (max 1MB)") d
    else Finishes l (postSized l cfg (x.post js) x.host remaining) g (.obj response.entries)
      { d with server := (called l d.server x).2 } := by
  split_ifs with hmax
  · refine Finishes.lift_bind hlength ?_
    rw [if_pos hmax]
    exact finishes_refusal hg _ _ _ _ _ _ _
  · refine Finishes.lift_bind hlength ?_
    rw [if_neg hmax]
    exact finishes_postBody hx hread hg remaining hresponse

theorem finishes_postAuthenticated {x : Call} (hx : x.Valid js) {remaining : Option ℤ} {v : Json ℚ} {d' : Direct}
    (h : Finishes l (if ¬ isOpen cfg then do
        logAudit l cfg (x.post js) x.host "auth_failure" false (.str [])
        sendRefusal l 401 [] "Unauthorized"
      else postSized l cfg (x.post js) x.host remaining) g v d') :
    Finishes l (postAuthenticated l cfg (x.post js) x.host remaining) g v d' :=
  Finishes.lift_bind (checkKey_post hx.plain _) h

/-- what comes after the limiter -/
theorem finishes_limited (hg : Simulates g d) {x : Call} {v : Json ℚ} {d' : Direct}
    (h : ∀ g' remaining, Simulates g' ⟨d.server, (d.limited js l cfg x).2⟩ →
      Finishes l (if ¬ (d.limited js l cfg x).1 then do
          logAudit l cfg (x.post js) x.host "rate_limit_exceeded" false (.str [])
          sendRefusal l 429 [("Retry-After", str RATE_WINDOW)] "Rate limit exceeded"
        else postAuthenticated l cfg (x.post js) x.host remaining) g' v d') :
    Finishes l (doPost l cfg (x.post js) x.host) g v d' := by
  obtain ⟨remaining, hrate⟩ := @run_checkRate js l cfg g d hg x
  exact Finishes.bind hrate (List.append_nil _).symm rfl (h _ remaining ⟨hg.server, rfl⟩)

/-- the checks one after another, as in a direct call -/
theorem finishes_doPost {x : Call} (hx : x.Valid js) (hlength : contentLength l (x.post js) = .ok (x.body js).length)
    (hread : l.loads (x.body js) = .ok (.obj (message x.method x.params))) (hg : Simulates g d) :
    ∃ v, Finishes l (doPost l cfg (x.post js) x.host) g v (d.step js l cfg x) ∧ d.request js l cfg x = some v.normal := by
  obtain ⟨response, hresponse⟩ := returns_called (l := l) d.server x
  unfold Direct.request Direct.step refused
  by_cases hallowed : (d.limited js l cfg x).1 = true
  · rw [if_neg (not_not.2 hallowed)]
    by_cases hopen : isOpen cfg = true
    · rw [if_neg (not_not.2 hopen)]
      have hsized := fun g' remaining hg' =>
        @finishes_postSized js l cfg g' ⟨d.server, (d.limited js l cfg x).2⟩ x hx hlength hread hg' remaining response hresponse
      split_ifs at hsized ⊢ with hmax
      · refine ⟨_, finishes_limited hg fun g' remaining hg' => ?_, congrArg some (normal_refusal _ _).symm⟩
        rw [if_neg (not_not.2 hallowed)]
        apply finishes_postAuthenticated hx
        rw [if_neg (not_not.2 hopen)]
        exact hsized g' remaining hg'
      · refine ⟨.obj response.entries, finishes_limited hg fun g' remaining hg' => ?_, ?_⟩
        · rw [if_neg (not_not.2 hallowed)]
          apply finishes_postAuthenticated hx
          rw [if_neg (not_not.2 hopen)]
          exact hsized g' remaining hg'
        · rw [Option.elim_none, answered, hresponse]
          rfl
    · rw [if_pos hopen]
      refine ⟨_, finishes_limited hg fun g' remaining hg' => ?_, congrArg some (normal_refusal _ _).symm⟩
      rw [if_neg (not_not.2 hallowed)]
      apply finishes_postAuthenticated hx
      rw [if_pos hopen]
      exact finishes_refusal hg' _ _ _ _ _ _ _
  · rw [if_pos hallowed]
    refine ⟨_, finishes_limited hg fun g' remaining hg' => ?_, congrArg some (normal_refusal _ _).symm⟩
    rw [if_pos hallowed]
    exact finishes_refusal hg' _ _ _ _ _ _ _

theorem simulates_step (hl : l.float.Lawful) (hjs : js.Lawful) (hloads : ReadsText js l)
    (hdigits : l.maxStrDigits = 0 ∨ 640 ≤ l.maxStrDigits) {x : Call} (hx : x.Valid js) (hg : Simulates g d) :
    request js l cfg g x = d.request js l cfg x ∧ Simulates (step js l cfg g x) (d.step js l cfg x) := by
  have hlength : contentLength l (x.post js) = .ok (x.body js).length := contentLength_post hx.plain hdigits hx.body
  obtain ⟨v, hfinishes, hv⟩ := finishes_doPost hx hlength (loads_body hjs hloads hx) hg
  exact ⟨(hfinishes.parsed hl).trans hv.symm, hfinishes.server, hfinishes.limiter⟩

/-! ## Runs -/

/-- behind a key nothing but refusals comes back, and the server stays as it was -/
theorem direct_closed (hclosed : isOpen cfg = false) (x : Call) :
    (d.request js l cfg x = some (refusal 401 "Unauthorized") ∨ d.request js l cfg x = some (refusal 429 "Rate limit exceeded")) ∧
      (d.step js l cfg x).server = d.server := by
  unfold Direct.request Direct.step refused
  rw [hclosed]
  by_cases h : (d.limited js l cfg x).1 = true
  · rw [if_neg (not_not.2 h), if_pos Bool.false_ne_true]
    exact ⟨Or.inl rfl, rfl⟩
  · rw [if_pos h]
    exact ⟨Or.inr rfl, rfl⟩

theorem direct_closed_run (hclosed : isOpen cfg = false) (calls : List Call) :
    (∀ answer ∈ outputs (Direct.step js l cfg) (Direct.request js l cfg) (fun _ => true) d calls,
      answer = some (refusal 401 "Unauthorized") ∨ answer = some (refusal 429 "Rate limit exceeded")) ∧
      (Run.after (Direct.step js l cfg) d calls).server = d.server := by
  induction calls generalizing d with
  | nil => exact ⟨fun _ h => absurd h List.not_mem_nil, rfl⟩
  | cons x calls ih =>
    obtain ⟨hanswer, hserver⟩ := @direct_closed js l cfg d hclosed x
    obtain ⟨hanswers, hafter⟩ := ih (d := d.step js l cfg x)
    exact ⟨List.forall_mem_cons.2 ⟨hanswer, hanswers⟩, hafter.trans hserver⟩

/--
**A request of the client is a direct call of the server.**

Take a gateway with a server and any run of calls, from any connections that carry no key. Each promise is fulfilled, with what
the server answers to the same method and parameters as JSON brings it over, or with the first refusal: of the rate, of the key
or of the size. The server and the limiter are left as these calls leave them. So behind a key every answer is a refusal, and no
call reaches the server.
-/
theorem clients_refine (hl : l.float.Lawful) (hjs : js.Lawful) (hloads : ReadsText js l)
    (hdigits : l.maxStrDigits = 0 ∨ 640 ≤ l.maxStrDigits) (hg : Simulates g d) {calls : List Call}
    (hcalls : ∀ x ∈ calls, x.Valid js) :
    outputs (step js l cfg) (request js l cfg) (fun _ => true) g calls =
        outputs (Direct.step js l cfg) (Direct.request js l cfg) (fun _ => true) d calls ∧
      Simulates (Run.after (step js l cfg) g calls) (Run.after (Direct.step js l cfg) d calls) ∧
      (isOpen cfg = false →
        (∀ answer ∈ outputs (step js l cfg) (request js l cfg) (fun _ => true) g calls,
          answer = some (refusal 401 "Unauthorized") ∨ answer = some (refusal 429 "Rate limit exceeded")) ∧
          (Run.after (step js l cfg) g calls).serverInstance = some d.server) := by
  have hstep : ∀ x ∈ calls, ∀ g d, Simulates g d →
      request js l cfg g x = d.request js l cfg x ∧ Simulates (step js l cfg g x) (d.step js l cfg x) :=
    fun x hx g d hg => simulates_step hl hjs hloads hdigits (hcalls x hx) hg
  have hrun := @outputs_sim _ _ _ _ (step js l cfg) (request js l cfg) (Direct.step js l cfg) (Direct.request js l cfg) Simulates
    (fun _ => true) calls hstep g d hg
  obtain ⟨houts, hafter⟩ := hrun
  refine ⟨houts, hafter, fun hclosed => ?_⟩
  obtain ⟨hanswers, hserver⟩ := @direct_closed_run js l cfg d hclosed calls
  rw [houts]
  exact ⟨hanswers, hafter.server.trans (congrArg some hserver)⟩

/-- a reader of UTF-8 -/
def textLibs : HttpLibs :=
  { sampleLibs with
    float := exactFloats
    loads := fun b => match (Text.decode b).bind (Json.loads exactFloats) with
      | some v => .ok v
      | none => .error ⟨.jsonDecodeError, "Expecting value: line 1 column 1 (char 0)"⟩ }

theorem readsText_textLibs : ReadsText exactFloats textLibs := by
  intro t b v hb _ hv
  have hdecode : (Text.decode b).bind (Json.loads exactFloats) = some v := by
    rw [Text.decode_encode hb, Option.bind_some, hv]
  simp only [textLibs, hdecode]

def encryptCall : Call := ⟨sampleHost, ⟨"127.0.0.1", []⟩, "encrypt", (encrypt (.str "k") (.str "x")).2⟩

theorem valid_encryptCall : encryptCall.Valid exactFloats where
  plain := ⟨rfl, rfl⟩
  method := Json.unpaired_ofString _
  params := by
    have hkeys : ([Text.ofString "key_id", "data"] : List Text).Nodup := by decide +kernel
    exact ⟨hkeys, ⟨Json.unpaired_ofString _, Json.unpaired_ofString _⟩, ⟨Json.unpaired_ofString _, Json.unpaired_ofString _⟩,
      trivial⟩
  body := by decide +kernel

/-- two calls of a gateway that has a key -/
theorem clients_refine_keyed :
    (∀ answer ∈ outputs (step exactFloats textLibs sampleConfig) (request exactFloats textLibs sampleConfig) (fun _ => true)
        sampleGateway [encryptCall, encryptCall],
      answer = some (refusal 401 "Unauthorized") ∨ answer = some (refusal 429 "Rate limit exceeded")) ∧
      (Run.after (step exactFloats textLibs sampleConfig) sampleGateway [encryptCall, encryptCall]).serverInstance =
        some (Vault.start Vault.zeroHost false false) :=
  (clients_refine (d := ⟨Vault.start Vault.zeroHost false false, some .new⟩) exactFloats_lawful exactFloats_lawful
    readsText_textLibs (Or.inr (by decide)) ⟨rfl, rfl⟩
    (List.forall_mem_cons.2 ⟨valid_encryptCall, List.forall_mem_singleton.2 valid_encryptCall⟩)).2.2 rfl

end AbirGuard.Js.McpClient
