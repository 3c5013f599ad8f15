/-
May a client choose its own rate-limit bucket?

A trusted proxy sends on what the client has in `X-Forwarded-For`, with the address of the client after it. `_get_client_ip`
takes the first address of the header, which is then the client's own choice.

- `ip_eq_iff`: the IP that the rate limiter is asked for is the address of the client, unless the client sent a value whose
  first element is another address, or is none while the proxy is not the client.
- `step_limiter`, `turnedAway_iff`: what a POST request does to the limiter and what comes of its answer.
- `countP_letIn_le`, `exceeds`, `within_iff`: the limit holds for a client whose requests are all harmless; one other breaks it.
- `doPost_congr`: what the handler looks at; for a direct connection the header is not among it.
- `client_ip_exact`: the three together.
-/
import AbirGuard.Python.RateLimit

namespace AbirGuard.Python.McpHttpHandler

open AbirGuard.Core JsonValue Raise

/-! ## Requests of clients -/

/-- an IP address, written so that it stands for itself in a list of addresses -/
structure IsAddress (l : HttpLibs) (c : Text) : Prop where
  valid : l.isIpAddress c = true
  nonempty : c ≠ []
  alone : candidateIp c = c

/-- how a client sends a request: on a connection of its own, or through a proxy, with a value of `X-Forwarded-For` or none -/
inductive Origin where
  | direct
  | proxied (sent : Option Text)
deriving DecidableEq

/-- the value that a proxy sends on for a client -/
def forwarded (sent : Option Text) (c : Text) : Text :=
  match sent with
  | none => c
  | some v => v ++ Text.ofString ", " ++ c

/-- a request comes from a client in this way: from an address that is not trusted, or from a trusted proxy -/
def Origin.Brings (cfg : Config) (c : Text) (req : Request) : Origin → Prop
  | .direct => req.clientAddress = c ∧ c ∉ cfg.trustedProxyIps
  | .proxied sent => req.clientAddress ∈ cfg.trustedProxyIps ∧ req.headers.get "X-Forwarded-For" = some (forwarded sent c)

structure Arrival (l : HttpLibs) (cfg : Config) where
  client : Text
  origin : Origin
  request : Request
  address : IsAddress l client
  brought : origin.Brings cfg client request

variable {l : HttpLibs} {cfg : Config}

/-- the IP that the rate limiter is asked for -/
def Arrival.ip (a : Arrival l cfg) : Text := getClientIp l cfg a.request

/-- the client leaves the choice alone: if it sent a value, the first element is its own address; or it is no address, and the
proxy has the address of the client -/
def Arrival.Harmless (a : Arrival l cfg) : Prop :=
  ∀ v, a.origin = .proxied (some v) →
    candidateIp v = a.client ∨ l.isIpAddress (candidateIp v) = false ∧ a.request.clientAddress = a.client

/-! ## The IP -/

/-- what the proxy adds is not in the first element -/
theorem candidateIp_append (v c : Text) : candidateIp (v ++ Text.ofString ", " ++ c) = candidateIp v := by
  have hcomma : Text.ofString ", " ++ c = CodePoint.ofChar ',' :: (Text.ofString " " ++ c) := rfl
  have htake : (v ++ Text.ofString ", " ++ c).takeWhile (fun p => p ≠ CodePoint.ofChar ',') =
      v.takeWhile fun p => p ≠ CodePoint.ofChar ',' := by
    rw [List.append_assoc, hcomma, List.takeWhile_append]
    split_ifs with hall
    · rw [List.takeWhile_cons_of_neg (by simp), List.append_nil]
      exact ((List.takeWhile_prefix _).eq_of_length hall).symm
    · rfl
  rw [candidateIp, candidateIp, htake]

theorem ip_direct {a : Arrival l cfg} (h : a.origin = .direct) : a.ip = a.client := by
  have hbrought := a.brought
  rw [h] at hbrought
  obtain ⟨hclient, huntrusted⟩ := hbrought
  rw [Arrival.ip, getClientIp, if_neg (hclient ▸ huntrusted), hclient]

theorem ip_proxied_none {a : Arrival l cfg} (h : a.origin = .proxied none) : a.ip = a.client := by
  have hbrought := a.brought
  rw [h] at hbrought
  obtain ⟨htrusted, hheader⟩ := hbrought
  rw [Arrival.ip, getClientIp, if_pos htrusted, hheader]
  change (if a.client ≠ [] ∧ l.isIpAddress (candidateIp a.client) then candidateIp a.client else _) = a.client
  rw [a.address.alone, if_pos ⟨a.address.nonempty, a.address.valid⟩]

/-- behind a proxy the first element of what the client sent decides -/
theorem ip_proxied_some {a : Arrival l cfg} {v : Text} (h : a.origin = .proxied (some v)) :
    a.ip = if l.isIpAddress (candidateIp v) then candidateIp v else a.request.clientAddress := by
  have hbrought := a.brought
  rw [h] at hbrought
  obtain ⟨htrusted, hheader⟩ := hbrought
  have hfilled : forwarded (some v) a.client ≠ [] := by simp [forwarded, a.address.nonempty]
  rw [Arrival.ip, getClientIp, if_pos htrusted, hheader, Option.getD_some]
  dsimp only
  rw [forwarded, candidateIp_append]
  simp only [forwarded] at hfilled
  simp only [ne_eq, hfilled, not_false_eq_true, true_and]

theorem ip_eq_iff (a : Arrival l cfg) : a.ip = a.client ↔ a.Harmless := by
  unfold Arrival.Harmless
  cases horigin : a.origin with
  | direct => exact iff_of_true (ip_direct horigin) fun v hv => by cases hv
  | proxied sent =>
    cases sent with
    | none => exact iff_of_true (ip_proxied_none horigin) fun v hv => by cases hv
    | some v =>
      simp only [ip_proxied_some horigin, Origin.proxied.injEq, Option.some.injEq, forall_eq']
      have hown : candidateIp v = a.client → l.isIpAddress (candidateIp v) = true := fun h => h.symm ▸ a.address.valid
      by_cases hvalid : l.isIpAddress (candidateIp v) = true
      · simp [hvalid]
      · simp [hvalid, mt hown hvalid]

/-! ## The handler and the limiter -/

abbrev Call (l : HttpLibs) (cfg : Config) : Type := Arrival l cfg × HttpHost

/-- the gateway after a request -/
def step (g : Gateway) (x : Call l cfg) : Gateway := (run (doPost l cfg x.1.request x.2) g).2

/-- the answer to requests beyond the limit -/
def isLimitAnswer : Event → Bool
  | .send response => response.code = 429
  | _ => false

/-- a request is answered as one beyond the limit -/
def turnedAway (g : Gateway) (x : Call l cfg) : Bool := ((step g x).events.drop g.events.length).any isLimitAnswer

/-- the limiter is left alone, and nothing is answered as beyond the limit -/
def Unlimited (g g' : Gateway) : Prop :=
  g'.rateLimiter = g.rateLimiter ∧ ∃ new, g'.events = g.events ++ new ∧ new.any isLimitAnswer = false

theorem Unlimited.refl (g : Gateway) : Unlimited g g := ⟨rfl, [], (List.append_nil _).symm, rfl⟩

theorem Unlimited.trans (g g' g'' : Gateway) (h : Unlimited g g') (h' : Unlimited g' g'') : Unlimited g g'' := by
  obtain ⟨hlimiter, new, hnew, hnone⟩ := h
  obtain ⟨hlimiter', new', hnew', hnone'⟩ := h'
  refine ⟨hlimiter'.trans hlimiter, new ++ new', ?_, ?_⟩
  · rw [hnew', hnew, List.append_assoc]
  · rw [List.any_append, hnone, hnone']
    rfl

section Unlimited

variable (req : Request) (η : HttpHost)

theorem moves_emit {e : Event} (he : isLimitAnswer e = false) : Moves Unlimited (emit e) :=
  moves_modify fun _ => ⟨rfl, [e], rfl, by simp [he]⟩

theorem moves_logAudit (action : String) (success : Bool) (details : Json ℚ) :
    Moves Unlimited (logAudit l cfg req η action success details) :=
  moves_modify fun _ => ⟨rfl, [], (List.append_nil _).symm, rfl⟩

theorem moves_lift {α : Type} (x : Except Exc α) : Moves Unlimited (lift x : GatewayM α) :=
  moves_of_eq Unlimited.refl fun _ => rfl

theorem moves_pure {α : Type} (a : α) : Moves Unlimited (pure a : GatewayM α) := moves_of_eq Unlimited.refl fun _ => rfl

theorem moves_throw {α : Type} (e : Exc) : Moves Unlimited (throw e : GatewayM α) := moves_of_eq Unlimited.refl fun _ => rfl

theorem moves_read (n : ℤ) : Moves Unlimited (read req n) := by
  unfold McpHttpHandler.read
  dsimp only
  split_ifs
  · exact moves_throw _
  · exact moves_throw _
  · exact moves_bind Unlimited.trans (moves_emit rfl) fun _ => moves_pure _
  · exact moves_bind Unlimited.trans (moves_emit rfl) fun _ => moves_pure _

theorem moves_readRequest (n : ℤ) : Moves Unlimited (readRequest l cfg req η n) := by
  refine moves_tryCatch Unlimited.trans ?_ fun e => ?_
  · apply moves_bind Unlimited.trans (moves_read req n)
    intro bytes
    exact moves_bind Unlimited.trans (moves_lift _) fun _ => moves_pure _
  · split_ifs
    · apply moves_bind Unlimited.trans (moves_logAudit req η _ _ _)
      intro _
      exact moves_bind Unlimited.trans (moves_emit rfl) fun _ => moves_pure _
    · exact moves_throw _

theorem moves_callServer (s : Session) (request : Json ℚ) : Moves Unlimited (callServer l η s request) := by
  apply moves_bind Unlimited.trans (moves_emit rfl)
  intro _
  cases request with
  | obj members => exact fun _ => ⟨rfl, [], (List.append_nil _).symm, rfl⟩
  | _ => exact moves_throw _

theorem moves_dispatch (remaining : Option ℤ) (request : Json ℚ) :
    Moves Unlimited (dispatch l cfg req η remaining request) := by
  refine moves_bind Unlimited.trans (moves_of_eq Unlimited.refl fun _ => rfl) fun g => ?_
  cases g.serverInstance with
  | none => exact moves_bind Unlimited.trans (moves_logAudit req η _ _ _) fun _ => moves_emit rfl
  | some s =>
    apply moves_bind Unlimited.trans (moves_callServer η s request)
    intro response
    apply moves_bind Unlimited.trans (moves_lift _)
    intro method
    apply moves_bind Unlimited.trans (moves_logAudit req η _ _ _)
    intro _
    cases remaining with
    | none => exact moves_emit rfl
    | some n => exact moves_emit rfl

/-- behind the limiter -/
theorem moves_postAuthenticated (remaining : Option ℤ) : Moves Unlimited (postAuthenticated l cfg req η remaining) := by
  apply moves_bind Unlimited.trans (moves_lift _)
  intro valid
  cases valid with
  | false => exact moves_bind Unlimited.trans (moves_logAudit req η _ _ _) fun _ => moves_emit rfl
  | true =>
    apply moves_bind Unlimited.trans (moves_lift _)
    intro n
    split_ifs
    · exact moves_bind Unlimited.trans (moves_logAudit req η _ _ _) fun _ => moves_emit rfl
    · apply moves_bind Unlimited.trans (moves_readRequest req η n)
      intro request
      cases request with
      | none => exact moves_pure _
      | some request => exact moves_dispatch req η remaining request

end Unlimited

/-- the call of the limiter for a request -/
def asked (x : Call l cfg) : RateLimiter.Arrival := (x.2.limiterTime, x.1.ip)

/-- what a request does to the limiter, and what it is answered -/
theorem step_limiter {g : Gateway} {r : RateLimiter} (hlimiter : g.rateLimiter = some r) (x : Call l cfg) :
    (step g x).rateLimiter = some (RateLimiter.step r (asked x)) ∧ ∃ new, (step g x).events = g.events ++ new ∧
      new.any isLimitAnswer = !(r.isAllowed (asked x).1 (asked x).2).1.1 := by
  have hrate : run (checkRate l cfg x.1.request x.2) g =
      (.ok ((r.isAllowed (asked x).1 (asked x).2).1.1, some (r.isAllowed (asked x).1 (asked x).2).1.2),
        { g with rateLimiter := some (RateLimiter.step r (asked x)) }) := by
    rw [checkRate, run_get_bind, hlimiter]
    rfl
  rw [step, doPost, run_bind_of_ok hrate]
  dsimp only
  cases hallowed : (r.isAllowed (asked x).1 (asked x).2).1.1 with
  | true =>
    exact moves_postAuthenticated x.1.request x.2 _ { g with rateLimiter := some (RateLimiter.step r (asked x)) }
  | false => exact ⟨rfl, _, rfl, rfl⟩

theorem turnedAway_iff {g : Gateway} {r : RateLimiter} (hlimiter : g.rateLimiter = some r) (x : Call l cfg) :
    turnedAway g x = !(r.isAllowed (asked x).1 (asked x).2).1.1 := by
  obtain ⟨-, new, hnew, hanswer⟩ := step_limiter hlimiter x
  rw [turnedAway, hnew, List.drop_left, hanswer]

/-! ## Runs -/

/-- the readings of the limiter's clock at the requests of a client that are let in -/
def letIn (c : Text) (g : Gateway) : List (Call l cfg) → List ℚ
  | [] => []
  | x :: run => (if x.1.client = c ∧ turnedAway g x = false then [x.2.limiterTime] else []) ++ letIn c (step g x) run

theorem letIn_append (c : Text) (g : Gateway) (xs ys : List (Call l cfg)) :
    letIn c g (xs ++ ys) = letIn c g xs ++ letIn c (Run.after step g xs) ys := by
  induction xs generalizing g with
  | nil => rfl
  | cons x xs ih =>
    rw [List.cons_append, letIn, letIn, ih, List.append_assoc]
    rfl

/-- the limiter goes through the calls for the requests -/
theorem rateLimiter_after {g : Gateway} {r : RateLimiter} (hlimiter : g.rateLimiter = some r) (xs : List (Call l cfg)) :
    (Run.after step g xs).rateLimiter = some (Run.after RateLimiter.step r (xs.map asked)) := by
  induction xs generalizing g r with
  | nil => exact hlimiter
  | cons x xs ih => exact ih (step_limiter hlimiter x).1

/-- the requests of a client are among the calls for an address, if that is its IP in each of them -/
theorem letIn_sublist {c ip : Text} {g : Gateway} {r : RateLimiter} (hlimiter : g.rateLimiter = some r) {xs : List (Call l cfg)}
    (h : ∀ x ∈ xs, x.1.client = c → x.1.ip = ip) :
    (letIn c g xs).Sublist (RateLimiter.allowed ip r (xs.map asked)) := by
  induction xs generalizing g r with
  | nil => exact List.Sublist.slnil
  | cons x xs ih =>
    rw [letIn, List.map_cons, RateLimiter.allowed, turnedAway_iff hlimiter]
    apply List.Sublist.append
    · split_ifs with hmine hcalled
      · exact List.Sublist.refl _
      · refine absurd ⟨h x List.mem_cons_self hmine.1, ?_⟩ hcalled
        simpa using hmine.2
      · exact List.nil_sublist _
      · exact List.nil_sublist _
    · exact ih (step_limiter hlimiter x).1 fun y hy => h y (List.mem_cons_of_mem _ hy)

/-! ## The limit on a client -/

section Limit

variable {c : Text} {g : Gateway} {maxRequests window : ℤ}

/-- the limit holds for a client whose requests are harmless, whatever the others send -/
theorem countP_letIn_le (hlimiter : g.rateLimiter = some (.new maxRequests window)) {xs : List (Call l cfg)}
    (hclock : RateLimiter.Clocked (xs.map asked)) (hharmless : ∀ x ∈ xs, x.1.client = c → x.1.Harmless) {I : ℚ → Bool}
    (hshort : ∀ s t, I s → I t → t - window < s) : (((letIn c g xs).countP I : ℕ) : ℤ) ≤ max maxRequests 0 := by
  have hip : ∀ x ∈ xs, x.1.client = c → x.1.ip = c := fun x hx hc => hc ▸ (ip_eq_iff x.1).2 (hharmless x hx hc)
  have hcount := (letIn_sublist hlimiter hip).countP_le (p := I)
  calc (((letIn c g xs).countP I : ℕ) : ℤ) ≤ (RateLimiter.allowed c (.new maxRequests window) (xs.map asked)).countP I :=
        Int.ofNat_le.2 hcount
    _ ≤ max maxRequests 0 := RateLimiter.countP_allowed_le maxRequests window hclock c hshort

theorem letIn_of_nonpos {r : RateLimiter} (hlimiter : g.rateLimiter = some r) (hmax : r.maxRequests ≤ 0)
    (xs : List (Call l cfg)) : letIn c g xs = [] := by
  induction xs generalizing g r with
  | nil => rfl
  | cons x xs ih =>
    rw [letIn, turnedAway_iff hlimiter, RateLimiter.isAllowed_of_nonpos hmax, if_neg (by simp), List.nil_append]
    exact ih (step_limiter hlimiter x).1 ((RateLimiter.maxRequests_step r _).trans_le hmax)

/-- a request whose IP had fewer requests than the limit is let in -/
theorem letIn_snoc (hlimiter : g.rateLimiter = some (.new maxRequests window)) {xs : List (Call l cfg)} {x : Call l cfg}
    (hmine : x.1.client = c) (hfew : ((RateLimiter.timesOf x.1.ip (xs.map asked)).length : ℤ) < maxRequests) :
    letIn c g (xs ++ [x]) = letIn c g xs ++ [x.2.limiterTime] := by
  have hin : turnedAway (Run.after step g xs) x = false := by
    rw [turnedAway_iff (rateLimiter_after hlimiter xs)]
    exact congrArg not (RateLimiter.isAllowed_of_few maxRequests window hfew x.2.limiterTime)
  rw [letIn_append, letIn, letIn, if_pos ⟨hmine, hin⟩, List.append_nil]

/-- as many requests as the limit are let in -/
theorem letIn_replicate (hlimiter : g.rateLimiter = some (.new maxRequests window)) {x : Call l cfg} (hmine : x.1.client = c)
    {k : ℕ} (hk : (k : ℤ) ≤ maxRequests) : letIn c g (List.replicate k x) = List.replicate k x.2.limiterTime := by
  induction k with
  | zero => rfl
  | succ k ih =>
    have hfew := RateLimiter.length_timesOf_le x.1.ip ((List.replicate k x).map asked)
    rw [List.length_map, List.length_replicate] at hfew
    rw [List.replicate_succ', List.replicate_succ', letIn_snoc hlimiter hmine (by omega), ih (by omega)]

/-- and one more, for which the limiter is asked for another IP -/
theorem letIn_other (hlimiter : g.rateLimiter = some (.new maxRequests window)) (hmax : 0 < maxRequests) {x y : Call l cfg}
    (hx : x.1.client = c) (hy : y.1.client = c) (hip : y.1.ip ≠ x.1.ip) :
    letIn c g (List.replicate maxRequests.toNat x ++ [y]) =
      List.replicate maxRequests.toNat x.2.limiterTime ++ [y.2.limiterTime] := by
  have hnone : RateLimiter.timesOf y.1.ip ((List.replicate maxRequests.toNat x).map asked) = [] := by
    refine RateLimiter.timesOf_eq_nil fun call hcall => ?_
    rw [List.map_replicate] at hcall
    rw [List.eq_of_mem_replicate hcall]
    exact hip.symm
  rw [letIn_snoc hlimiter hy (by rw [hnone]; exact hmax), letIn_replicate hlimiter hx (by omega)]

/-- the requests that a client may make: in every run in which it makes no others, it stays within the limit -/
def Within (c : Text) (S : Set (Arrival l cfg)) (g : Gateway) (maxRequests window : ℤ) : Prop :=
  ∀ xs : List (Call l cfg), (∀ x ∈ xs, x.1.client = c → x.1 ∈ S) → RateLimiter.Clocked (xs.map asked) → ∀ t : ℚ,
    (((letIn c g xs).countP fun s => t ≤ s ∧ s < t + window : ℕ) : ℤ) ≤ max maxRequests 0 ∧
      (((letIn c g xs).countP fun s => t < s ∧ s ≤ t + window : ℕ) : ℤ) ≤ max maxRequests 0

/-- two requests of a client for which the limiter is asked for different IPs take it over the limit -/
theorem exceeds {S : Set (Arrival l cfg)} (hlimiter : g.rateLimiter = some (.new maxRequests window)) (hmax : 0 < maxRequests)
    (hwindow : 0 < window) {a b : Arrival l cfg} (ha : a ∈ S) (hb : b ∈ S) (hac : a.client = c) (hbc : b.client = c)
    (hip : b.ip ≠ a.ip) (host : HttpHost) : ¬ Within c S g maxRequests window := by
  -- all of them at one time
  have hall := letIn_other hlimiter hmax (x := (a, host)) (y := (b, host)) hac hbc hip
  have hmem : ∀ x ∈ List.replicate maxRequests.toNat (a, host) ++ [(b, host)], x = (a, host) ∨ x = (b, host) := by
    intro x hx
    rcases List.mem_append.1 hx with hx | hx
    · exact Or.inl (List.eq_of_mem_replicate hx)
    · exact Or.inr (List.mem_singleton.1 hx)
  have htimes : ((List.replicate maxRequests.toNat (a, host) ++ [(b, host)]).map asked).map Prod.fst =
      List.replicate (maxRequests.toNat + 1) host.limiterTime := by
    rw [List.replicate_succ', List.map_append, List.map_append, List.map_replicate, List.map_replicate]
    rfl
  have hclock : RateLimiter.Clocked ((List.replicate maxRequests.toNat (a, host) ++ [(b, host)]).map asked) := by
    rw [RateLimiter.Clocked, htimes]
    exact List.pairwise_replicate.2 (Or.inr le_rfl)
  intro hwithin
  have hcount := (hwithin _ (fun x hx _ => ?_) hclock host.limiterTime).1
  · have hin : host.limiterTime ≤ host.limiterTime ∧ host.limiterTime < host.limiterTime + window :=
      ⟨le_rfl, lt_add_of_pos_right _ (Int.cast_pos.2 hwindow)⟩
    rw [hall, List.countP_append, List.countP_replicate, List.countP_singleton, if_pos (decide_eq_true hin),
      if_pos (decide_eq_true hin)] at hcount
    omega
  · rcases hmem x hx with rfl | rfl
    · exact ha
    · exact hb

def quietHost : HttpHost := ⟨0, 0, Vault.zeroHost, Vault.zeroHost⟩

/-- **A client stays within the limit if and only if all its requests are harmless**, where it may make one for which the limiter
is asked for its own address, and where the limiter lets something through at all -/
theorem within_iff {S : Set (Arrival l cfg)} (hlimiter : g.rateLimiter = some (.new maxRequests window)) {a : Arrival l cfg}
    (ha : a ∈ S) (hac : a.client = c) (hip : a.Harmless) :
    Within c S g maxRequests window ↔ maxRequests ≤ 0 ∨ window ≤ 0 ∨ ∀ b ∈ S, b.client = c → b.Harmless := by
  constructor
  · intro hwithin
    by_contra! h
    obtain ⟨hmax, hwindow, b, hb, hbc, hharmful⟩ := h
    have hother : b.ip ≠ a.ip := by
      rw [(ip_eq_iff a).2 hip, hac, ← hbc]
      exact mt (ip_eq_iff b).1 hharmful
    exact exceeds hlimiter hmax hwindow ha hb hac hbc hother quietHost hwithin
  · intro h xs hmine hclock t
    rcases h with hmax | hwindow | hharmless
    · rw [letIn_of_nonpos hlimiter hmax]
      exact ⟨le_max_right _ _, le_max_right _ _⟩
    · have hempty : ∀ s : ℚ, ¬ s - window < s := fun s h => (sub_lt_self_iff s).1 h |>.not_ge (Int.cast_nonpos.2 hwindow)
      rw [List.countP_eq_zero.2, List.countP_eq_zero.2]
      · exact ⟨le_max_right _ _, le_max_right _ _⟩
      · exact fun s _ hs => hempty s (SlidingWindow.ioc_short t s s hs hs)
      · exact fun s _ hs => hempty s (SlidingWindow.ico_short t s s hs hs)
    · have hall : ∀ x ∈ xs, x.1.client = c → x.1.Harmless := fun x hx hc => hharmless _ (hmine x hx hc) hc
      exact ⟨countP_letIn_le hlimiter hclock hall (SlidingWindow.ico_short t),
        countP_letIn_le hlimiter hclock hall (SlidingWindow.ioc_short t)⟩

end Limit

/-! ## Direct connections -/

/-- the headers but for `X-Forwarded-For` -/
def otherHeaders (headers : Headers) : Headers :=
  headers.filter fun h => (latin1 h.1).map lowerPoint ≠ (Text.ofString "X-Forwarded-For").map lowerPoint

theorem get_otherHeaders {name : String}
    (h : (Text.ofString name).map lowerPoint ≠ (Text.ofString "X-Forwarded-For").map lowerPoint) (headers : Headers) :
    (otherHeaders headers).get name = headers.get name := by
  unfold Headers.get otherHeaders
  rw [List.find?_filter]
  refine congrArg _ (congrArg (List.find? · headers) (funext fun x => ?_))
  by_cases hx : (latin1 x.1).map lowerPoint = (Text.ofString name).map lowerPoint
  · simp [hx, h]
  · simp [hx]

section Direct

variable {req req' : Request} (η : HttpHost)

theorem get_congr (hother : otherHeaders req.headers = otherHeaders req'.headers) {name : String}
    (h : (Text.ofString name).map lowerPoint ≠ (Text.ofString "X-Forwarded-For").map lowerPoint) :
    req.headers.get name = req'.headers.get name := by
  rw [← get_otherHeaders h, hother, get_otherHeaders h]

theorem presentedKey_congr (hother : otherHeaders req.headers = otherHeaders req'.headers) :
    presentedKey req.headers = presentedKey req'.headers := by
  rw [presentedKey, presentedKey, get_congr hother (by decide +kernel), get_congr hother (by decide +kernel)]

theorem contentLength_congr (hother : otherHeaders req.headers = otherHeaders req'.headers) :
    contentLength l req = contentLength l req' := by
  rw [contentLength, contentLength, get_congr hother (by decide +kernel)]

/-- a direct connection is known by its own address -/
theorem getClientIp_of_untrusted (h : req.clientAddress ∉ cfg.trustedProxyIps) : getClientIp l cfg req = req.clientAddress :=
  if_neg h

theorem logAudit_congr (hip : getClientIp l cfg req = getClientIp l cfg req') (action : String) (success : Bool)
    (details : Json ℚ) : logAudit l cfg req η action success details = logAudit l cfg req' η action success details := by
  rw [logAudit, logAudit, hip]

/-- the handler looks at the IP, the other headers and the body -/
theorem doPost_congr (hip : getClientIp l cfg req = getClientIp l cfg req')
    (hother : otherHeaders req.headers = otherHeaders req'.headers) (hbody : req.body = req'.body) :
    doPost l cfg req η = doPost l cfg req' η := by
  have hlog : ∀ action success details, logAudit l cfg req η action success details =
      logAudit l cfg req' η action success details := logAudit_congr η hip
  have hkey : checkKey cfg req = checkKey cfg req' := by rw [checkKey, checkKey, presentedKey_congr hother]
  simp only [doPost, checkRate, postAuthenticated, postSized, postBody, readRequest, dispatch, McpHttpHandler.read, hip, hkey,
    hbody, hlog, contentLength_congr hother]

end Direct

/-! ## A client behind a proxy -/

/-- a number from 0 to 255 in decimal digits, without a zero in front -/
def isOctet (t : Text) : Bool :=
  t ≠ [] ∧ t.length ≤ 3 ∧ (t.all fun p => 48 ≤ p.val ∧ p.val ≤ 57) ∧ (t.head? = some (CodePoint.ofChar '0') → t.length = 1) ∧
    (t.foldl (fun n p => 10 * n + (p.val - 48)) 0) ≤ 255

/-- `ipaddress.ip_address` on addresses of version 4 -/
def isIPv4 (t : Text) : Bool :=
  let parts := t.splitOn (CodePoint.ofChar '.')
  parts.length = 4 ∧ parts.all isOctet

def ipv4Libs : HttpLibs :=
  { Vault.zeroLibs with containerStr := fun _ => [], decodeError := fun _ => [], loads := fun _ => .ok .null,
                        isIpAddress := isIPv4, maxStrDigits := 4300 }

def proxyConfig : Config := ⟨none, MAX_BODY_SIZE, ["10.0.0.1"]⟩

/-- a request of the client 203.0.113.9 through the proxy 10.0.0.1 -/
def proxiedRequest (header : Bytes) : Request := ⟨"10.0.0.1", [(utf8 "X-Forwarded-For", header)], []⟩

theorem isAddress_client : IsAddress ipv4Libs "203.0.113.9" where
  valid := by decide +kernel
  nonempty := by decide +kernel
  alone := by decide +kernel

/-- without a value -/
def plainArrival : Arrival ipv4Libs proxyConfig where
  client := "203.0.113.9"
  origin := .proxied none
  request := proxiedRequest (utf8 "203.0.113.9")
  address := isAddress_client
  brought := ⟨by decide +kernel, by decide +kernel⟩

/-- with its own address -/
def honestArrival : Arrival ipv4Libs proxyConfig where
  client := "203.0.113.9"
  origin := .proxied (some "203.0.113.9")
  request := proxiedRequest (utf8 "203.0.113.9, 203.0.113.9")
  address := isAddress_client
  brought := ⟨by decide +kernel, by decide +kernel⟩

/-- with the address of another -/
def spoofedArrival : Arrival ipv4Libs proxyConfig where
  client := "203.0.113.9"
  origin := .proxied (some "198.51.100.7")
  request := proxiedRequest (utf8 "198.51.100.7, 203.0.113.9")
  address := isAddress_client
  brought := ⟨by decide +kernel, by decide +kernel⟩

/-- a direct connection of the client -/
def directRequest (headers : Headers) : Request := ⟨"203.0.113.9", headers, []⟩

def limitedGateway : Gateway := ⟨none, some .new, [], []⟩

/-! ## The result -/

/-- **A client cannot choose its bucket if and only if what it sends is harmless.** The limiter is asked for the same IP as
without a value exactly then; a client that may make a harmless request stays within a limit above zero, over a window above
zero, in every run of its requests and those of others if and only if all that it may make are harmless; and on a direct
connection from an address that is not trusted the header changes nothing. -/
theorem client_ip_exact (l : HttpLibs) (cfg : Config) :
    (∀ a b : Arrival l cfg, b.client = a.client → b.origin = .proxied none → (a.ip = b.ip ↔ a.Harmless)) ∧
    (∀ (g : Gateway) (maxRequests window : ℤ), g.rateLimiter = some (.new maxRequests window) →
      ∀ (c : Text) (S : Set (Arrival l cfg)) (a : Arrival l cfg), a ∈ S → a.client = c → a.Harmless →
        (Within c S g maxRequests window ↔ maxRequests ≤ 0 ∨ window ≤ 0 ∨ ∀ b ∈ S, b.client = c → b.Harmless)) ∧
    ∀ (req req' : Request) (η : HttpHost), req.clientAddress ∉ cfg.trustedProxyIps → req'.clientAddress = req.clientAddress →
      otherHeaders req'.headers = otherHeaders req.headers → req'.body = req.body →
      doPost l cfg req' η = doPost l cfg req η := by
  refine ⟨fun a b hclient hnone => ?_, fun g maxRequests window hlimiter c S a ha hac hharmless => ?_, ?_⟩
  · rw [ip_proxied_none hnone, hclient]
    exact ip_eq_iff a
  · exact within_iff hlimiter ha hac hharmless
  · intro req req' η huntrusted haddress hother hbody
    apply doPost_congr η _ hother hbody
    rw [getClientIp_of_untrusted huntrusted, getClientIp_of_untrusted (haddress ▸ huntrusted), haddress]

theorem client_ip_exact_own :
    honestArrival.ip = plainArrival.ip ∧
    Within "203.0.113.9" {plainArrival, honestArrival} limitedGateway DEFAULT_RATE_LIMIT RATE_WINDOW ∧
    doPost ipv4Libs proxyConfig (directRequest [(utf8 "X-Forwarded-For", utf8 "198.51.100.7")]) quietHost =
      doPost ipv4Libs proxyConfig (directRequest []) quietHost := by
  obtain ⟨hip, hwithin, hdirect⟩ := client_ip_exact ipv4Libs proxyConfig
  have hplain : plainArrival.Harmless := by
    intro v hv
    cases hv
  have hhonest : honestArrival.Harmless := by
    intro v hv
    cases hv
    exact Or.inl (by decide +kernel)
  refine ⟨(hip honestArrival plainArrival rfl rfl).2 hhonest, ?_, hdirect _ _ _ (by decide +kernel) rfl (by decide +kernel) rfl⟩
  refine (hwithin limitedGateway _ _ rfl _ _ plainArrival (Or.inl rfl) rfl hplain).2 (Or.inr (Or.inr fun b hb _ => ?_))
  rcases hb with rfl | rfl
  · exact hplain
  · exact hhonest

/-- with the address of another the client has another bucket, and exceeds the limit -/
theorem spoofed_bucket :
    spoofedArrival.client = plainArrival.client ∧ spoofedArrival.ip ≠ plainArrival.ip ∧
      ¬ Within "203.0.113.9" {plainArrival, spoofedArrival} limitedGateway DEFAULT_RATE_LIMIT RATE_WINDOW := by
  have hip : spoofedArrival.ip ≠ plainArrival.ip := by decide +kernel
  refine ⟨rfl, hip, ?_⟩
  exact exceeds rfl (by decide) (by decide) (Or.inl rfl) (Or.inr rfl) rfl rfl hip quietHost

end AbirGuard.Python.McpHttpHandler
