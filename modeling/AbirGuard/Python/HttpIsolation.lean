/-
What can those without a key do to the others?

A request without a valid key is counted by the rate limiter, logged and refused. The limiter counts by address, and nothing in an
answer comes from the log. So addresses from which no valid key ever comes have no influence on what the others get.

- `Stranger`: a request from such an address, without a valid key.
- `alike_doPost`: gateways that are alike for the others answer a request of theirs alike, and stay alike.
- `unnoticed_stranger`: the request of a stranger keeps a gateway as it is for the others.
- `strangers_unnoticed`: leaving all such requests out of a run changes no other answer, nor the server.
-/
import AbirGuard.Core.Noninterference
import AbirGuard.Python.HttpRobustness
import AbirGuard.Python.RateLimit

namespace AbirGuard.Python.McpHttpHandler

open AbirGuard.Core JsonValue Raise

/-! ## Runs of the gateway -/

variable (l : HttpLibs) (cfg : Config)

/-- the gateway after a request -/
def post (g : Gateway) (x : Request × HttpHost) : Gateway := (run (doPost l cfg x.1 x.2) g).2

/-- how a request ends, and what it makes the gateway do -/
def answer (g : Gateway) (x : Request × HttpHost) : Except Exc Unit × List Event :=
  ((run (doPost l cfg x.1 x.2) g).1, (post l cfg g x).events.drop g.events.length)

/-- the requests of the others, where a set of addresses is left out -/
def fromOthers (strange : Text → Bool) (x : Request × HttpHost) : Bool := !strange (getClientIp l cfg x.1)

/-- a request from one of the addresses comes without a valid key -/
def Stranger (strange : Text → Bool) (x : Request × HttpHost) : Prop :=
  strange (getClientIp l cfg x.1) = true → checkKey cfg x.1 ≠ .ok true

/-! ## Gateways that are alike for the others -/

/-- limiters with the same limit, and the same times for all other addresses -/
structure SameLimiter (strange : Text → Bool) (r r' : RateLimiter) : Prop where
  maxRequests : r.maxRequests = r'.maxRequests
  window : r.window = r'.window
  log : ∀ ip, strange ip = false → r.log ip = r'.log ip

/-- the same server, limiters of that kind or none, and the same events since two beginnings -/
structure SameForOthers (strange : Text → Bool) (since since' : List Event) (g g' : Gateway) : Prop where
  server : g.serverInstance = g'.serverInstance
  limiter : Option.Rel (SameLimiter strange) g.rateLimiter g'.rateLimiter
  events : ∃ new, g.events = since ++ new ∧ g'.events = since' ++ new

variable {l cfg} {strange : Text → Bool} {since since' : List Event}

/-- the call for an address leaves the times of the others -/
theorem SameLimiter.hidden {r r' : RateLimiter} (h : SameLimiter strange r r') {c : RateLimiter.Arrival}
    (hstrange : strange c.2 = true) : SameLimiter strange (r.step c) r' where
  maxRequests := (RateLimiter.maxRequests_step r c).trans h.maxRequests
  window := (RateLimiter.window_step r c).trans h.window
  log ip hip := by
    have hne : ¬ c.2 = ip := by
      intro heq
      rw [heq, hip] at hstrange
      cases hstrange
    rw [RateLimiter.log_step, if_neg hne]
    exact h.log ip hip

theorem SameLimiter.visible {r r' : RateLimiter} (h : SameLimiter strange r r') {c : RateLimiter.Arrival}
    (hother : strange c.2 = false) :
    (r.isAllowed c.1 c.2).1 = (r'.isAllowed c.1 c.2).1 ∧ SameLimiter strange (r.step c) (r'.step c) := by
  refine ⟨RateLimiter.isAllowed_congr (h.log _ hother) h.maxRequests h.window c.1, ?_, ?_, fun ip hip => ?_⟩
  · rw [RateLimiter.maxRequests_step, RateLimiter.maxRequests_step, h.maxRequests]
  · rw [RateLimiter.window_step, RateLimiter.window_step, h.window]
  · rw [RateLimiter.log_step, RateLimiter.log_step, RateLimiter.limit, RateLimiter.limit, h.maxRequests, h.window, h.log ip hip]

theorem limiter_cases {o o' : Option RateLimiter} (h : Option.Rel (SameLimiter strange) o o') :
    (o = none ∧ o' = none) ∨ ∃ r r', o = some r ∧ o' = some r' ∧ SameLimiter strange r r' := by
  cases h with
  | none => exact Or.inl ⟨rfl, rfl⟩
  | some hsame => exact Or.inr ⟨_, _, rfl, rfl, hsame⟩

theorem SameForOthers.emit {g g' : Gateway} (h : SameForOthers strange since since' g g') (new : List Event) :
    SameForOthers strange since since' { g with events := g.events ++ new } { g' with events := g'.events ++ new } := by
  obtain ⟨before, hg, hg'⟩ := h.events
  refine ⟨h.server, h.limiter, before ++ new, ?_, ?_⟩
  · rw [hg, List.append_assoc]
  · rw [hg', List.append_assoc]

section Alike

variable (req : Request) (η : HttpHost)

theorem alike_emit (e : Event) : Alike (SameForOthers strange since since') (emit e) := alike_modify fun _ _ h => h.emit [e]

theorem alike_logAudit (action : String) (success : Bool) (details : Json ℚ) :
    Alike (SameForOthers strange since since') (logAudit l cfg req η action success details) :=
  alike_modify fun _ _ h => ⟨h.server, h.limiter, h.events⟩

theorem alike_read (n : ℤ) : Alike (SameForOthers strange since since') (read req n) := by
  unfold McpHttpHandler.read
  dsimp only
  split_ifs
  · exact alike_throw _
  · exact alike_throw _
  · exact alike_bind (alike_emit _) fun _ => alike_pure _
  · exact alike_bind (alike_emit _) fun _ => alike_pure _

theorem alike_readRequest (n : ℤ) : Alike (SameForOthers strange since since') (readRequest l cfg req η n) := by
  refine alike_tryCatch ?_ fun e => ?_
  · apply alike_bind (alike_read req n)
    intro bytes
    exact alike_bind (alike_lift _) fun _ => alike_pure _
  · split_ifs
    · apply alike_bind (alike_logAudit req η _ _ _)
      intro _
      exact alike_bind (alike_emit _) fun _ => alike_pure _
    · exact alike_throw _

theorem alike_callServer (s : Session) (request : Json ℚ) :
    Alike (SameForOthers strange since since') (callServer l η s request) := by
  apply alike_bind (alike_emit _)
  intro _
  cases request with
  | obj members => exact fun g g' h => ⟨rfl, rfl, h.limiter, h.events⟩
  | _ => exact alike_throw _

theorem alike_dispatch (remaining : Option ℤ) (request : Json ℚ) :
    Alike (SameForOthers strange since since') (dispatch l cfg req η remaining request) := by
  refine alike_get_bind (fun g g' h => ?_) fun g => ?_
  · rw [h.server]
  · cases g.serverInstance with
    | none => exact alike_bind (alike_logAudit req η _ _ _) fun _ => alike_emit _
    | some s =>
      apply alike_bind (alike_callServer η s request)
      intro response
      apply alike_bind (alike_lift _)
      intro method
      apply alike_bind (alike_logAudit req η _ _ _)
      intro _
      cases remaining with
      | none => exact alike_emit _
      | some n => exact alike_emit _

theorem alike_postAuthenticated (remaining : Option ℤ) :
    Alike (SameForOthers strange since since') (postAuthenticated l cfg req η remaining) := by
  apply alike_bind (alike_lift _)
  intro valid
  cases valid with
  | false => exact alike_bind (alike_logAudit req η _ _ _) fun _ => alike_emit _
  | true =>
    apply alike_bind (alike_lift _)
    intro n
    split_ifs
    · exact alike_bind (alike_logAudit req η _ _ _) fun _ => alike_emit _
    · apply alike_bind (alike_readRequest req η n)
      intro request
      cases request with
      | none => exact alike_pure _
      | some request => exact alike_dispatch req η remaining request

theorem run_checkRate_none {g : Gateway} (hg : g.rateLimiter = none) : run (checkRate l cfg req η) g = (.ok (true, none), g) := by
  rw [checkRate, run_get_bind, hg]
  rfl

theorem run_checkRate_some {g : Gateway} {r : RateLimiter} (hg : g.rateLimiter = some r) :
    run (checkRate l cfg req η) g =
      (.ok ((r.isAllowed η.limiterTime (getClientIp l cfg req)).1.1,
        some (r.isAllowed η.limiterTime (getClientIp l cfg req)).1.2),
        { g with rateLimiter := some (r.step (η.limiterTime, getClientIp l cfg req)) }) := by
  rw [checkRate, run_get_bind, hg]
  rfl

/-- the limiter looks at the times of the one address -/
theorem alike_checkRate (hother : strange (getClientIp l cfg req) = false) :
    Alike (SameForOthers strange since since') (checkRate l cfg req η) := by
  intro g g' h
  rcases limiter_cases h.limiter with ⟨hg, hg'⟩ | ⟨r, r', hg, hg', hsame⟩
  · rw [run_checkRate_none req η hg, run_checkRate_none req η hg']
    exact ⟨rfl, h⟩
  · obtain ⟨hanswer, hnext⟩ := hsame.visible (c := (η.limiterTime, getClientIp l cfg req)) hother
    rw [run_checkRate_some req η hg, run_checkRate_some req η hg']
    exact ⟨by rw [hanswer], h.server, .some hnext, h.events⟩

/-- **A request of the others is answered alike.** -/
theorem alike_doPost (hother : strange (getClientIp l cfg req) = false) :
    Alike (SameForOthers strange since since') (doPost l cfg req η) := by
  apply alike_bind (alike_checkRate req η hother)
  intro ⟨allowed, remaining⟩
  cases allowed with
  | false => exact alike_bind (alike_logAudit req η _ _ _) fun _ => alike_emit _
  | true => exact alike_postAuthenticated req η remaining

end Alike

/-! ## Strangers -/

/-- the same server, and limiters of that kind or none; the events may differ -/
def Unnoticed (strange : Text → Bool) (g g' : Gateway) : Prop :=
  g.serverInstance = g'.serverInstance ∧ Option.Rel (SameLimiter strange) g.rateLimiter g'.rateLimiter

theorem Unnoticed.refl (g : Gateway) : Unnoticed strange g g := by
  refine ⟨rfl, ?_⟩
  cases g.rateLimiter with
  | none => exact .none
  | some r => exact .some ⟨rfl, rfl, fun _ _ => rfl⟩

/-- behind the limiter, a request without a valid key is refused -/
theorem unnoticed_refused {req : Request} (hkey : checkKey cfg req ≠ .ok true) (η : HttpHost) (remaining : Option ℤ)
    {g g' : Gateway} (h : Unnoticed strange g g') : Unnoticed strange (run (postAuthenticated l cfg req η remaining) g).2 g' := by
  rw [postAuthenticated, run_lift_bind]
  cases hvalid : checkKey cfg req with
  | error e => exact h
  | ok valid =>
    cases valid with
    | false => exact h
    | true => exact absurd hvalid hkey

/-- **The request of a stranger is not noticed by the others.** -/
theorem unnoticed_stranger {x : Request × HttpHost} (hstranger : Stranger l cfg strange x)
    (hstrange : strange (getClientIp l cfg x.1) = true) {g g' : Gateway} (h : Unnoticed strange g g') :
    Unnoticed strange (post l cfg g x) g' := by
  have hrefused := hstranger hstrange
  rcases limiter_cases h.2 with ⟨hg, -⟩ | ⟨r, r', hg, hg', hsame⟩
  · rw [post, doPost, run_bind_of_ok (run_checkRate_none x.1 x.2 hg)]
    exact unnoticed_refused hrefused x.2 none h
  · have hnext : Unnoticed strange { g with rateLimiter := some (r.step (x.2.limiterTime, getClientIp l cfg x.1)) } g' := by
      refine ⟨h.1, ?_⟩
      rw [hg']
      exact .some (hsame.hidden hstrange)
    rw [post, doPost, run_bind_of_ok (run_checkRate_some x.1 x.2 hg)]
    cases hallowed : (r.isAllowed x.2.limiterTime (getClientIp l cfg x.1)).1.1 with
    | false => exact hnext
    | true => exact unnoticed_refused hrefused x.2 _ hnext

/-- the two relations fit: a step of the others is answered alike and not noticed -/
theorem answer_alike {x : Request × HttpHost} (hother : strange (getClientIp l cfg x.1) = false) {g g' : Gateway}
    (h : Unnoticed strange g g') :
    answer l cfg g x = answer l cfg g' x ∧ Unnoticed strange (post l cfg g x) (post l cfg g' x) := by
  have hsame : SameForOthers strange g.events g'.events g g' :=
    ⟨h.1, h.2, [], (List.append_nil _).symm, (List.append_nil _).symm⟩
  obtain ⟨hresult, hstate⟩ := alike_doPost x.1 x.2 hother g g' hsame
  refine ⟨?_, hstate.server, hstate.limiter⟩
  obtain ⟨new, hnew, hnew'⟩ := hstate.events
  rw [answer, answer, hresult, post, post, hnew, hnew', List.drop_left, List.drop_left]

theorem unwinding (strange : Text → Bool) :
    Unwinding (post l cfg) (answer l cfg) (fromOthers l cfg strange) (Stranger l cfg strange) (Unnoticed strange) where
  hidden g g' x hstranger hhidden h := unnoticed_stranger hstranger (by simpa [fromOthers] using hhidden) h
  visible g g' x hvisible h := answer_alike (by simpa [fromOthers] using hvisible) h

/-- **Those without a key are not noticed.** Take any set of addresses from which no request of a run comes with a valid key. The
other requests are answered as if those had not been made, with the same reads, calls of the server, responses and exceptions,
and the server ends in the same state. -/
theorem strangers_unnoticed (l : HttpLibs) (cfg : Config) (strange : Text → Bool) (g : Gateway) (xs : List (Request × HttpHost))
    (hstrangers : ∀ x ∈ xs, Stranger l cfg strange x) :
    outputs (post l cfg) (answer l cfg) (fromOthers l cfg strange) g xs =
      outputs (post l cfg) (answer l cfg) (fromOthers l cfg strange) g (xs.filter (fromOthers l cfg strange)) ∧
    (Run.after (post l cfg) g xs).serverInstance =
      (Run.after (post l cfg) g (xs.filter (fromOthers l cfg strange))).serverInstance :=
  ⟨(unwinding strange).outputs hstrangers (Unnoticed.refl g), ((unwinding strange).after hstrangers (Unnoticed.refl g)).1⟩

/-- a request from another address with a wrong key -/
def strangeRequest : Request := ⟨"10.0.0.9", [(utf8 "X-Api-Key", utf8 "guess"), (utf8 "Content-Length", utf8 "0")], []⟩

theorem strangers_unnoticed_one :
    outputs (post sampleLibs sampleConfig) (answer sampleLibs sampleConfig)
        (fromOthers sampleLibs sampleConfig fun ip => ip = Text.ofString "10.0.0.9") sampleGateway
        [(strangeRequest, sampleHost), (sampleRequest (utf8 "k") (utf8 "2") (utf8 "[]"), sampleHost)] =
      outputs (post sampleLibs sampleConfig) (answer sampleLibs sampleConfig)
        (fromOthers sampleLibs sampleConfig fun ip => ip = Text.ofString "10.0.0.9") sampleGateway
        [(sampleRequest (utf8 "k") (utf8 "2") (utf8 "[]"), sampleHost)] := by
  have hstrangers : ∀ x ∈ [(strangeRequest, sampleHost), (sampleRequest (utf8 "k") (utf8 "2") (utf8 "[]"), sampleHost)],
      Stranger sampleLibs sampleConfig (fun ip => ip = Text.ofString "10.0.0.9") x := by
    intro x hx hstrange
    rcases List.mem_pair.1 hx with rfl | rfl
    · have hkey : checkKey sampleConfig strangeRequest = .ok false := by decide +kernel
      rw [hkey]
      exact fun h => by cases h
    · exact absurd hstrange (by decide +kernel)
  exact (strangers_unnoticed sampleLibs sampleConfig _ sampleGateway _ hstrangers).1

end AbirGuard.Python.McpHttpHandler
