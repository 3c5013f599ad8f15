/-
Is every POST request answered, and answered once?

The checks before the body end a request that they refuse. Beyond them the handler catches one class of exceptions only: a key
that is not ASCII, a size that is no number or is negative, a body that is not text, and a JSON value that is no object each
raise another one; and the size -1 reads the body up to its end, however long it is.

- `Robust`: one response, no exception, no more of the body than allowed, and the server called only after the three checks.
- `Ends`, `Good`: what a part of the handler ends with, and whether that is as it should be.
- `good_postBody`, `good_postSized`, `good_postAuthenticated`: one stage after another.
- `robust_iff`: the requests that are handled robustly are the well-formed ones.
- `validate_raises_iff`: the keys whose comparison raises.
-/
import AbirGuard.Python.McpHttp

namespace AbirGuard.Python

open AbirGuard.Core JsonValue Raise McpHttpHandler
open Vault (start zeroHost zeroLibs)

/-! ## Robustness -/

def Event.isSend : Event → Bool
  | .send _ => true
  | _ => false

variable (l : HttpLibs) (cfg : Config) (req : Request) (η : HttpHost) (g : Gateway)

/-- the rate limiter lets the request pass -/
def RatePasses : Prop :=
  ∀ r, g.rateLimiter = some r → (r.isAllowed η.limiterTime (getClientIp l cfg req)).1.1 = true

/-- the API key is accepted -/
def KeyPasses : Prop := checkKey cfg req = .ok true

/-- the announced size is within the limit -/
def SizePasses : Prop := ∃ n, contentLength l req = .ok n ∧ n ≤ cfg.maxBodySize

/-- the three checks have passed -/
def Checked : Prop := RatePasses l cfg req η g ∧ KeyPasses cfg req ∧ SizePasses l cfg req

/-- what a part of the handler may end with and have done -/
structure Good (r : Except Exc Unit) (new : List Event) : Prop where
  returns : r = .ok ⟨⟩
  once : new.countP Event.isSend = 1
  reads : ∀ n, Event.read n ∈ new → (n : ℤ) ≤ cfg.maxBodySize
  handles : ∀ request, Event.handle request ∈ new → Checked l cfg req η g

/-- the request is answered once, without an exception, and reads and calls only what it may -/
def Robust : Prop :=
  ∃ new, (run (doPost l cfg req η) g).2.events = g.events ++ new ∧ Good l cfg req η g (run (doPost l cfg req η) g).1 new

/-! ## Well-formed requests -/

/-- the bytes that a read gives -/
def bodyRead (n : ℤ) : Bytes := if n = -1 then req.body else req.body.take n.toNat

/-- a size that can be read and does not exceed the limit on the body -/
def Readable (n : ℤ) : Prop := 0 ≤ n ∧ n < 2 ^ 63 ∨ n = -1 ∧ (req.body.length : ℤ) ≤ cfg.maxBodySize

/-- the bytes are an object, or any JSON if there is no server, or raise the exception that is caught -/
def Understood (bytes : Bytes) : Prop :=
  (∃ v, l.loads bytes = .ok v ∧ (g.serverInstance.isSome → ∃ members, v = .obj members)) ∨
    ∃ e, l.loads bytes = .error e ∧ e.type = .jsonDecodeError

/-- a request that the rate limiter refuses; or whose key is refused; or whose key is accepted and whose size is a number, too
large or of a body that can be read -/
def WellFormed : Prop :=
  RatePasses l cfg req η g → (∃ b, checkKey cfg req = .ok b) ∧
    (KeyPasses cfg req → ∃ n, contentLength l req = .ok n ∧
      (n ≤ cfg.maxBodySize → Readable cfg req n ∧ Understood l g (bodyRead req n)))

variable {l cfg req η g}

/-! ## Parts of the handler -/

/-- a part of the handler ends with this, after these events -/
def Ends (x : GatewayM Unit) (g : Gateway) (r : Except Exc Unit) (new : List Event) : Prop :=
  (run x g).1 = r ∧ (run x g).2.events = g.events ++ new

theorem Ends.bind {α : Type} {x : GatewayM α} {f : α → GatewayM Unit} {g g' : Gateway} {a : α} {before new : List Event}
    {r : Except Exc Unit} (hx : run x g = (.ok a, g')) (hevents : g'.events = g.events ++ before) (hf : Ends (f a) g' r new) :
    Ends (x >>= f) g r (before ++ new) := by
  unfold Ends
  rw [run_bind_of_ok hx]
  refine ⟨hf.1, ?_⟩
  rw [hf.2, hevents, List.append_assoc]

theorem ends_raise {α : Type} {x : GatewayM α} {g g' : Gateway} {e : Exc} {new : List Event} (hx : run x g = (.error e, g'))
    (hevents : g'.events = g.events ++ new) (f : α → GatewayM Unit) : Ends (x >>= f) g (.error e) new := by
  unfold Ends
  rw [run_bind, hx]
  exact ⟨rfl, hevents⟩

theorem ends_refusal (l : HttpLibs) (cfg : Config) (req : Request) (η : HttpHost) (g : Gateway) (action : String)
    (details : Json ℚ) (code : ℕ) (headers : List (String × Text)) (message : String) : ∃ response,
    Ends (do logAudit l cfg req η action false details; sendRefusal l code headers message) g (.ok ⟨⟩)
      [.send response] := ⟨_, rfl, rfl⟩

theorem good_send (response : Response) : Good l cfg req η g (.ok ⟨⟩) [.send response] where
  returns := rfl
  once := rfl
  reads n hn := by simp at hn
  handles request h := by simp at h

theorem not_good_error {e : Exc} {new : List Event} : ¬ Good l cfg req η g (.error e) new := by
  intro h
  cases h.returns

/-! ### The body -/

theorem run_read (req : Request) {n : ℤ} (h : 0 ≤ n ∧ n < 2 ^ 63 ∨ n = -1) (g : Gateway) :
    run (McpHttpHandler.read req n) g =
      (.ok (bodyRead req n), { g with events := g.events ++ [.read (bodyRead req n).length] }) := by
  rw [McpHttpHandler.read, if_neg (by omega), if_neg (by omega)]
  rfl

theorem run_read_error (req : Request) {n : ℤ} (h : ¬ (0 ≤ n ∧ n < 2 ^ 63 ∨ n = -1)) (g : Gateway) :
    ∃ e, run (McpHttpHandler.read req n) g = (.error e, g) ∧ e.type ≠ .jsonDecodeError := by
  by_cases hword : n < -2 ^ 63 ∨ 2 ^ 63 ≤ n
  · rw [McpHttpHandler.read, if_pos hword]
    exact ⟨_, rfl, ExcType.noConfusion⟩
  · rw [McpHttpHandler.read, if_neg hword, if_pos (by omega)]
    exact ⟨_, rfl, ExcType.noConfusion⟩

/-- a read of a size within the limit reads no more than the limit -/
theorem length_bodyRead (req : Request) {n : ℤ} (hn : n ≤ cfg.maxBodySize) (hword : 0 ≤ n ∧ n < 2 ^ 63 ∨ n = -1) :
    ((bodyRead req n).length : ℤ) ≤ cfg.maxBodySize ↔ Readable cfg req n := by
  unfold bodyRead Readable
  rcases hword with ⟨h0, hlt⟩ | rfl
  · rw [if_neg (by omega)]
    refine iff_of_true ?_ (Or.inl ⟨h0, hlt⟩)
    calc ((req.body.take n.toNat).length : ℤ) ≤ n.toNat := by exact_mod_cast List.length_take_le ..
      _ = n := Int.toNat_of_nonneg h0
      _ ≤ cfg.maxBodySize := hn
  · simp

/-- a body that raises another exception than the one that is caught ends the handler -/
theorem ends_readRequest_error {n : ℤ} {e : Exc} {g' : Gateway} {new : List Event} (he : e.type ≠ .jsonDecodeError)
    (hread : run (do let body ← McpHttpHandler.read req n; let request ← lift (l.loads body); pure (some request)) g =
      (.error e, g')) (hevents : g'.events = g.events ++ new) (remaining : Option ℤ) :
    Ends (postBody l cfg req η remaining n) g (.error e) new := by
  have hraise : run (readRequest l cfg req η n) g = (.error e, g') := by
    rw [readRequest, run_tryCatch, hread]
    dsimp only
    rw [if_neg he, run_throw]
  exact ends_raise hraise hevents _

/-! ### The server -/

/-- an object is handed to the server, which answers it -/
theorem run_callServer (s : Session) (members : List (Text × Json ℚ)) (g : Gateway) : ∃ response g',
    run (callServer l η s (.obj members)) g = (.ok response, g') ∧ g'.events = g.events ++ [.handle (.obj members)] := by
  obtain ⟨key, v, success, details, -, hrun⟩ := @McpServer.run_handle l.toMcpLibs η.vault η.rotate
    ⟨Table.setAll members, Table.unique_setAll members⟩ s
  unfold callServer
  rw [emit, run_modify_bind, run_zoom, hrun]
  exact ⟨_, _, rfl, rfl⟩

/-- another value has no method `get` -/
theorem run_callServer_error {request : Json ℚ} (h : ¬ ∃ members, request = .obj members) (s : Session) (g : Gateway) :
    ∃ e, run (callServer l η s request) g = (.error e, { g with events := g.events ++ [.handle request] }) := by
  cases request with
  | obj members => exact absurd ⟨members, rfl⟩ h
  | _ => exact ⟨_, rfl⟩

theorem ends_dispatch (cfg : Config) (req : Request) (remaining : Option ℤ) (request : Json ℚ) (g : Gateway) :
    (g.serverInstance = none ∧ ∃ response, Ends (dispatch l cfg req η remaining request) g (.ok ⟨⟩) [.send response]) ∨
      ((∃ members, request = .obj members) ∧
        ∃ response, Ends (dispatch l cfg req η remaining request) g (.ok ⟨⟩) [.handle request, .send response]) ∨
      (g.serverInstance.isSome ∧ ¬ (∃ members, request = .obj members) ∧
        ∃ e, Ends (dispatch l cfg req η remaining request) g (.error e) [.handle request]) := by
  cases hserver : g.serverInstance with
  | none =>
    refine Or.inl ⟨rfl, ?_⟩
    unfold Ends
    rw [dispatch, run_get_bind, hserver]
    exact ⟨_, rfl, rfl⟩
  | some s =>
    refine Or.inr ?_
    unfold Ends
    rw [dispatch, run_get_bind, hserver]
    by_cases h : ∃ members, request = .obj members
    · refine Or.inl ⟨h, ?_⟩
      obtain ⟨members, rfl⟩ := h
      obtain ⟨response, g', hcall, hevents⟩ := run_callServer (l := l) (η := η) s members g
      cases remaining with
      | none => exact ⟨_, Ends.bind hcall hevents ⟨rfl, rfl⟩⟩
      | some n => exact ⟨_, Ends.bind hcall hevents ⟨rfl, rfl⟩⟩
    · refine Or.inr ⟨rfl, h, ?_⟩
      obtain ⟨e, hcall⟩ := run_callServer_error (l := l) (η := η) h s g
      exact ⟨e, ends_raise hcall rfl _⟩

/-! ## The stages -/

/-- an answer after a read, and perhaps a call of the server -/
theorem good_answer_iff {len : ℕ} {calls : List Event} (hcalls : ∀ e ∈ calls, ∃ request, e = .handle request)
    (hchecked : Checked l cfg req η g) (response : Response) :
    Good l cfg req η g (.ok ⟨⟩) (.read len :: (calls ++ [.send response])) ↔ (len : ℤ) ≤ cfg.maxBodySize := by
  refine ⟨fun h => h.reads len List.mem_cons_self, fun hlen => ⟨rfl, ?_, ?_, fun _ _ => hchecked⟩⟩
  · have hnone : calls.countP Event.isSend = 0 := by
      refine List.countP_eq_zero.2 fun e he => ?_
      obtain ⟨request, rfl⟩ := hcalls e he
      exact Bool.false_ne_true
    rw [List.countP_cons_of_neg Bool.false_ne_true, List.countP_append, hnone]
    rfl
  · intro n hn
    rcases List.mem_cons.1 hn with h | h
    · cases h
      exact hlen
    · rcases List.mem_append.1 h with h | h
      · obtain ⟨request, h⟩ := hcalls _ h
        cases h
      · cases List.mem_singleton.1 h

/-- from the reading of the body on, once the three checks have passed -/
theorem good_postBody {n : ℤ} (hn : n ≤ cfg.maxBodySize) (hchecked : Checked l cfg req η g) {g' : Gateway}
    (hserver : g'.serverInstance = g.serverInstance) (remaining : Option ℤ) :
    ∃ r new, Ends (postBody l cfg req η remaining n) g' r new ∧
      (Good l cfg req η g r new ↔ Readable cfg req n ∧ Understood l g (bodyRead req n)) := by
  by_cases hword : 0 ≤ n ∧ n < 2 ^ 63 ∨ n = -1
  · have hread := run_read req hword g'
    have hlength := length_bodyRead req hn hword
    cases hloads : l.loads (bodyRead req n) with
    | ok v =>
      have hrequest : run (readRequest l cfg req η n) g' =
          (.ok (some v), { g' with events := g'.events ++ [.read (bodyRead req n).length] }) := by
        rw [readRequest, run_tryCatch, run_bind_of_ok hread, run_lift_bind, hloads]
        rfl
      rcases ends_dispatch (l := l) (η := η) cfg req remaining v
        { g' with events := g'.events ++ [.read (bodyRead req n).length] } with
        ⟨hnone, response, hends⟩ | ⟨hobj, response, hends⟩ | ⟨hsome, hobj, e, hends⟩
      · refine ⟨_, _, Ends.bind hrequest rfl hends, ?_⟩
        have hunderstood : Understood l g (bodyRead req n) := by
          refine Or.inl ⟨v, hloads, fun hsome => ?_⟩
          rw [← hserver, show g'.serverInstance = none from hnone] at hsome
          cases hsome
        calc Good l cfg req η g (.ok ⟨⟩) _ ↔ ((bodyRead req n).length : ℤ) ≤ cfg.maxBodySize :=
              good_answer_iff (List.forall_mem_nil _) hchecked response
          _ ↔ Readable cfg req n ∧ Understood l g (bodyRead req n) := hlength.trans (and_iff_left hunderstood).symm
      · refine ⟨_, _, Ends.bind hrequest rfl hends, ?_⟩
        have hcalls : ∀ e ∈ [Event.handle v], ∃ request, e = .handle request := by simp
        calc Good l cfg req η g (.ok ⟨⟩) _ ↔ ((bodyRead req n).length : ℤ) ≤ cfg.maxBodySize :=
              good_answer_iff hcalls hchecked response
          _ ↔ Readable cfg req n ∧ Understood l g (bodyRead req n) :=
              hlength.trans (and_iff_left (Or.inl ⟨v, hloads, fun _ => hobj⟩)).symm
      · refine ⟨_, _, Ends.bind hrequest rfl hends, iff_of_false not_good_error ?_⟩
        intro ⟨_, hunderstood⟩
        rcases hunderstood with ⟨v', hloads', hobj'⟩ | ⟨e', hloads', -⟩
        all_goals rw [hloads] at hloads'
        · cases hloads'
          exact hobj (hobj' (hserver ▸ hsome))
        · cases hloads'
    | error e =>
      by_cases he : e.type = .jsonDecodeError
      · have hrequest : ∃ g'' response, run (readRequest l cfg req η n) g' = (.ok none, g'') ∧
            g''.events = g'.events ++ [.read (bodyRead req n).length, .send response] := by
          rw [readRequest, run_tryCatch, run_bind_of_ok hread, run_lift_bind, hloads]
          dsimp only
          rw [if_pos he]
          exact ⟨_, _, rfl, List.append_assoc ..⟩
        obtain ⟨g'', response, hrequest, hevents⟩ := hrequest
        refine ⟨_, _, Ends.bind hrequest hevents ⟨rfl, (List.append_nil _).symm⟩, ?_⟩
        calc Good l cfg req η g (.ok ⟨⟩) _ ↔ ((bodyRead req n).length : ℤ) ≤ cfg.maxBodySize :=
              good_answer_iff (List.forall_mem_nil _) hchecked response
          _ ↔ Readable cfg req n ∧ Understood l g (bodyRead req n) :=
              hlength.trans (and_iff_left (Or.inr ⟨e, hloads, he⟩)).symm
      · refine ⟨_, _, ends_readRequest_error he (by rw [run_bind_of_ok hread, run_lift_bind, hloads]) rfl remaining, ?_⟩
        refine iff_of_false not_good_error ?_
        intro ⟨_, hunderstood⟩
        rcases hunderstood with ⟨v', hloads', -⟩ | ⟨e', hloads', he'⟩
        all_goals rw [hloads] at hloads'
        · cases hloads'
        · cases hloads'
          exact he he'
  · obtain ⟨e, hread, he⟩ := run_read_error req hword g'
    refine ⟨_, _, ends_readRequest_error he (by rw [run_bind, hread]) (List.append_nil _).symm remaining, ?_⟩
    refine iff_of_false not_good_error ?_
    intro ⟨hreadable, _⟩
    exact hword (hreadable.imp_right And.left)

theorem good_postSized (hrate : RatePasses l cfg req η g) (hkey : KeyPasses cfg req) {g' : Gateway}
    (hserver : g'.serverInstance = g.serverInstance) (remaining : Option ℤ) :
    ∃ r new, Ends (postSized l cfg req η remaining) g' r new ∧
      (Good l cfg req η g r new ↔ ∃ n, contentLength l req = .ok n ∧
        (n ≤ cfg.maxBodySize → Readable cfg req n ∧ Understood l g (bodyRead req n))) := by
  unfold Ends
  rw [postSized, run_lift_bind]
  cases hlength : contentLength l req with
  | error e =>
    refine ⟨_, _, ⟨rfl, (List.append_nil _).symm⟩, iff_of_false not_good_error ?_⟩
    intro ⟨n, hn, _⟩
    cases hn
  | ok n =>
    dsimp only
    split_ifs with hsize
    · obtain ⟨response, hends⟩ := ends_refusal l cfg req η g' "body_too_large"
        (.str ("size=" ++ str n)) 413 [] "Request body too large (max 1MB)"
      refine ⟨_, _, hends, iff_of_true (good_send response) ⟨n, rfl, fun hle => ?_⟩⟩
      exact absurd hle (not_le.2 hsize)
    · obtain ⟨r, new, hends, hgood⟩ := good_postBody (not_lt.1 hsize) ⟨hrate, hkey, n, hlength, not_lt.1 hsize⟩ hserver remaining
      refine ⟨r, new, hends, hgood.trans ⟨fun h => ⟨n, rfl, fun _ => h⟩, ?_⟩⟩
      intro ⟨n', hn', h⟩
      cases hn'
      exact h (not_lt.1 hsize)

theorem good_postAuthenticated (hrate : RatePasses l cfg req η g) {g' : Gateway}
    (hserver : g'.serverInstance = g.serverInstance) (remaining : Option ℤ) :
    ∃ r new, Ends (postAuthenticated l cfg req η remaining) g' r new ∧
      (Good l cfg req η g r new ↔ (∃ b, checkKey cfg req = .ok b) ∧
        (KeyPasses cfg req → ∃ n, contentLength l req = .ok n ∧
          (n ≤ cfg.maxBodySize → Readable cfg req n ∧ Understood l g (bodyRead req n)))) := by
  unfold Ends
  rw [postAuthenticated, run_lift_bind]
  cases hkey : checkKey cfg req with
  | error e =>
    refine ⟨_, _, ⟨rfl, (List.append_nil _).symm⟩, iff_of_false not_good_error ?_⟩
    intro ⟨⟨b, hb⟩, _⟩
    cases hb
  | ok valid =>
    dsimp only
    cases valid with
    | false =>
      obtain ⟨response, hends⟩ := ends_refusal l cfg req η g' "auth_failure" (.str [])
        401 [] "Unauthorized"
      refine ⟨_, _, hends, iff_of_true (good_send response) ⟨⟨false, rfl⟩, fun hpasses => ?_⟩⟩
      cases hkey.symm.trans hpasses
    | true =>
      obtain ⟨r, new, hends, hgood⟩ := good_postSized hrate hkey hserver remaining
      refine ⟨r, new, hends, hgood.trans ⟨fun h => ⟨⟨true, rfl⟩, fun _ => h⟩, ?_⟩⟩
      intro ⟨_, h⟩
      exact h hkey

/-- what the rate limiter answers, and what it leaves as it was -/
theorem run_checkRate (l : HttpLibs) (cfg : Config) (req : Request) (η : HttpHost) (g : Gateway) : ∃ allowed remaining g',
    run (checkRate l cfg req η) g = (.ok (allowed, remaining), g') ∧ (allowed = true ↔ RatePasses l cfg req η g) ∧
      g'.events = g.events ∧ g'.serverInstance = g.serverInstance := by
  unfold RatePasses
  rw [checkRate, run_get_bind]
  cases hlimiter : g.rateLimiter with
  | none => exact ⟨true, none, g, rfl, by simp, rfl, rfl⟩
  | some r =>
    refine ⟨(r.isAllowed η.limiterTime (getClientIp l cfg req)).1.1, _, _, rfl, ⟨fun h r' hr => ?_, fun h => h r rfl⟩, rfl, rfl⟩
    cases hr
    exact h

/-- **A POST request is answered once, without an exception, reads no more than it may and reaches the server only after the
three checks, if and only if it is well-formed.** -/
theorem robust_iff (l : HttpLibs) (cfg : Config) (req : Request) (η : HttpHost) (g : Gateway) :
    Robust l cfg req η g ↔ WellFormed l cfg req η g := by
  have hends : ∀ {r new}, Ends (doPost l cfg req η) g r new → (Robust l cfg req η g ↔ Good l cfg req η g r new) := by
    intro r new ⟨hr, hnew⟩
    refine ⟨fun ⟨new', hnew', hgood⟩ => ?_, fun hgood => ⟨new, hnew, hr ▸ hgood⟩⟩
    rw [hnew, List.append_cancel_left_eq] at hnew'
    rw [← hr, hnew']
    exact hgood
  obtain ⟨allowed, remaining, g', hrate, hallowed, hevents, hserver⟩ := run_checkRate l cfg req η g
  have hsame : g'.events = g.events ++ [] := by rw [hevents, List.append_nil]
  unfold WellFormed
  cases allowed with
  | false =>
    obtain ⟨response, hrefusal⟩ := ends_refusal l cfg req η g' "rate_limit_exceeded"
      (.str []) 429 [("Retry-After", str RATE_WINDOW)] "Rate limit exceeded"
    rw [hends (Ends.bind hrate hsame hrefusal)]
    refine iff_of_true (good_send response) fun hpasses => ?_
    cases hallowed.2 hpasses
  | true =>
    have hpasses := hallowed.1 rfl
    obtain ⟨r, new, hrest, hgood⟩ := good_postAuthenticated hpasses hserver remaining
    calc Robust l cfg req η g ↔ Good l cfg req η g r new := hends (Ends.bind hrate hsame hrest)
      _ ↔ _ := hgood
      _ ↔ _ := ⟨fun h _ => h, fun h => h hpasses⟩

/-! ## Keys that are not ASCII -/

/-- with keys of ASCII characters, the comparison raises for every key presented that is not ASCII, and for no other -/
theorem validate_raises_iff {a : AuthValidator} (ha : ∀ k ∈ a.validKeys, ∀ p ∈ k, p.val < 128) (key : Option Text) :
    (∃ e, a.validate key = .error e) ↔ a.validKeys ≠ [] ∧ ∃ t, key = some t ∧ ∃ p ∈ t, 128 ≤ p.val := by
  unfold AuthValidator.validate
  by_cases hnone : a.validKeys = []
  · simp [hnone]
  · rw [if_neg hnone]
    cases key with
    | none => simp
    | some t =>
      by_cases ht : t = []
      · simp [ht]
      · simp only [if_neg ht, ne_eq, hnone, not_false_eq_true, true_and, Option.some.injEq, exists_eq_left']
        by_cases hascii : ∃ p ∈ t, 128 ≤ p.val
        · -- the first comparison raises
          obtain ⟨k, keys, hkeys⟩ := List.exists_cons_of_ne_nil hnone
          have hraise : compareDigest t k = .error
              ⟨.typeError, "comparing strings with non-ASCII characters is not supported"⟩ := by
            rw [compareDigest, if_pos (List.any_eq_true.2 ?_)]
            obtain ⟨p, hp, hge⟩ := hascii
            exact ⟨p, List.mem_append_left k hp, by simpa using hge⟩
          refine iff_of_true ?_ hascii
          rw [hkeys, List.anyM, hraise]
          exact ⟨_, rfl⟩
        · refine iff_of_false ?_ hascii
          have hok : ∀ keys : List Text, (∀ k ∈ keys, ∀ p ∈ k, p.val < 128) →
              ∃ b, (keys.anyM fun k => compareDigest t k) = .ok b := by
            intro keys hkeys
            induction keys with
            | nil => exact ⟨false, rfl⟩
            | cons k keys ih =>
              obtain ⟨b, hb⟩ := ih fun k' hk' => hkeys k' (List.mem_cons_of_mem _ hk')
              have hcompare : compareDigest t k = .ok (decide (t = k)) := by
                rw [compareDigest, if_neg]
                intro hany
                obtain ⟨p, hp, hge⟩ := List.any_eq_true.1 hany
                rcases List.mem_append.1 hp with hp | hp
                · exact hascii ⟨p, hp, by simpa using hge⟩
                · exact absurd (hkeys k List.mem_cons_self p hp) (by simpa using hge)
              rw [List.anyM, hcompare]
              by_cases htk : t = k
              · exact ⟨true, by rw [decide_eq_true htk]; rfl⟩
              · exact ⟨b, by rw [decide_eq_false htk]; exact hb⟩
          rintro ⟨e, he⟩
          obtain ⟨b, hb⟩ := hok a.validKeys ha
          cases hb.symm.trans he

/-! ## Requests that are not well-formed -/

/-- `json.loads` on the bodies below -/
def sampleLoads (b : Bytes) : Except Exc (Json ℚ) :=
  if b = utf8 "[]" then .ok (.arr [])
  else if b = [0xFF] then
    .error ⟨.unicodeDecodeError, "'utf-8' codec can't decode byte 0xff in position 0: invalid start byte"⟩
  else .error ⟨.jsonDecodeError, "Expecting value: line 1 column 1 (char 0)"⟩

def sampleLibs : HttpLibs :=
  { zeroLibs with containerStr := fun _ => [], decodeError := fun _ => [], loads := sampleLoads, isIpAddress := fun _ => false,
                  maxStrDigits := 4300 }

def sampleHost : HttpHost := ⟨0, 0, zeroHost, zeroHost⟩

/-- a gateway with one key and a small limit on the body -/
def sampleConfig : Config := ⟨some ⟨["k"]⟩, 2, []⟩

def sampleGateway : Gateway := ⟨some (start zeroHost false false), some .new, [], []⟩

/-- a request with this key, this size and this body -/
def sampleRequest (key size : Bytes) (body : Bytes) : Request :=
  ⟨"127.0.0.1", [(utf8 "X-Api-Key", key), (utf8 "Content-Length", size)], body⟩

/-- a key that is not ASCII, a size that is no number, the size -2, an array and bytes that are not UTF-8 each end the handler
with an exception; the size -1 reads the whole body -/
theorem requests_escape :
    ¬ Robust sampleLibs sampleConfig (sampleRequest [0xE9] (utf8 "0") []) sampleHost sampleGateway ∧
      ¬ Robust sampleLibs sampleConfig (sampleRequest (utf8 "k") (utf8 "x") []) sampleHost sampleGateway ∧
      ¬ Robust sampleLibs sampleConfig (sampleRequest (utf8 "k") (utf8 "-2") []) sampleHost sampleGateway ∧
      ¬ Robust sampleLibs sampleConfig (sampleRequest (utf8 "k") (utf8 "2") (utf8 "[]")) sampleHost sampleGateway ∧
      ¬ Robust sampleLibs sampleConfig (sampleRequest (utf8 "k") (utf8 "1") [0xFF]) sampleHost sampleGateway ∧
      ¬ Robust sampleLibs sampleConfig (sampleRequest (utf8 "k") (utf8 "-1") (utf8 "!!!")) sampleHost sampleGateway := by
  have hescapes : ∀ req, (run (doPost sampleLibs sampleConfig req sampleHost) sampleGateway).1.isOk = false →
      ¬ Robust sampleLibs sampleConfig req sampleHost sampleGateway := by
    intro req herror ⟨new, _, hgood⟩
    rw [hgood.returns] at herror
    cases herror
  refine ⟨hescapes _ ?_, hescapes _ ?_, hescapes _ ?_, hescapes _ ?_, hescapes _ ?_, ?_⟩
  · decide +kernel
  · decide +kernel
  · decide +kernel
  · decide +kernel
  · decide +kernel
  · intro ⟨new, hnew, hgood⟩
    have hread : (run (doPost sampleLibs sampleConfig (sampleRequest (utf8 "k") (utf8 "-1") (utf8 "!!!")) sampleHost)
        sampleGateway).2.events.head? = some (.read 3) := rfl
    rw [hnew] at hread
    have hle := hgood.reads 3 (List.mem_of_head? hread)
    exact absurd hle (by decide)

end AbirGuard.Python
