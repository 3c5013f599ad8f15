/-
The audit log of the HTTP gateway: is every answer in it, and can it be checked?

`_log_audit` hashes its entries as the log of the vault does: an entry has the hash of its other members, and every entry but the
first the hash of the whole entry before it. The handler writes one before each response, and none otherwise.

- `run_logAudit`: an entry is sealed, linked to the one before it, and has the action and the address.
- `Recorded`: the new entries tell the new responses one by one, behind the old ones, in a log that stays accepted.
- `recorded_answer`: an entry and the response after it.
- `recorded_doPost`: so it is for one request, whether it is answered or ends with an exception.
- `answers_recorded`: and for every run of requests.
-/
import AbirGuard.Python.AuditChain
import AbirGuard.Python.HttpIsolation

namespace AbirGuard.Python.McpHttpHandler

open AbirGuard.Core HashChain JsonValue Raise
open AuditLogger (verifyIntegrity verifyIntegrity_iff Sealed sealed_set prevHash prevHash_set_hash)

variable {l : HttpLibs} {cfg : Config}

/-! ## One entry -/

/-- the code of the response that an action stands for -/
def codeOf (action : String) : ℕ :=
  if action = "rate_limit_exceeded" then 429
  else if action = "auth_failure" then 401
  else if action = "body_too_large" then 413
  else 200

/-- an entry has the action of a response -/
def Tells (e : AuditEntry) (response : Response) : Prop :=
  ∃ action, e.get (Text.ofString "action") = some (.str (Text.ofString action)) ∧ response.code = codeOf action

theorem get_newEntry (time : ℚ) (action : String) (ip : Text) (success : Bool) (details : Json ℚ) :
    (newEntry time action ip success details).get (Text.ofString "hash") = none ∧
      (newEntry time action ip success details).get (Text.ofString "action") = some (.str (Text.ofString action)) := ⟨rfl, rfl⟩

/-- the entry that is logged -/
theorem run_logAudit (req : Request) (η : HttpHost) (action : String) (success : Bool) (details : Json ℚ) (g : Gateway) :
    ∃ e, run (logAudit l cfg req η action success details) g = (.ok ⟨⟩, { g with auditLog := g.auditLog ++ [e] }) ∧
      (Sealed l.toLibs e ∧ prevHash e = lastName (AuditLogger.name l.toLibs) none g.auditLog) ∧
      e.get (Text.ofString "action") = some (.str (Text.ofString action)) := by
  obtain ⟨hhash, haction⟩ := get_newEntry η.auditTime action (getClientIp l cfg req) success details
  rw [lastName_none]
  refine ⟨_, rfl, ?_⟩
  rw [prevHash_set_hash, (AuditLogger.get_set_hashes _ _ (Or.inl rfl)).1]
  cases g.auditLog.getLast? with
  | none => exact ⟨⟨sealed_set hhash, rfl⟩, haction⟩
  | some prev =>
    dsimp only
    rw [(AuditLogger.get_set_hashes _ _ (Or.inl rfl)).2]
    refine ⟨⟨sealed_set ((Dict.get_set_of_ne (by decide +kernel) _ _).trans hhash), ?_⟩, haction⟩
    rw [prevHash, Dict.get_set_self]
    rfl

/-! ## What is recorded -/

def Event.response : Event → Option Response
  | .send response => some response
  | _ => none

/-- the new entries tell the new responses one by one; and if the log was accepted, it still is -/
structure Recorded (l : HttpLibs) (g g' : Gateway) : Prop where
  told : ∃ entries new, g'.auditLog = g.auditLog ++ entries ∧ g'.events = g.events ++ new ∧
    List.Forall₂ Tells entries (new.filterMap Event.response)
  accepted : verifyIntegrity l.toLibs g.auditLog = true → verifyIntegrity l.toLibs g'.auditLog = true

theorem Recorded.refl (g : Gateway) : Recorded l g g :=
  ⟨⟨[], [], (List.append_nil _).symm, (List.append_nil _).symm, .nil⟩, id⟩

theorem Recorded.trans (g g' g'' : Gateway) (h : Recorded l g g') (h' : Recorded l g' g'') : Recorded l g g'' := by
  obtain ⟨entries, new, hlog, hevents, htells⟩ := h.told
  obtain ⟨entries', new', hlog', hevents', htells'⟩ := h'.told
  refine ⟨⟨entries ++ entries', new ++ new', ?_, ?_, ?_⟩, fun haccepted => h'.accepted (h.accepted haccepted)⟩
  · rw [hlog', hlog, List.append_assoc]
  · rw [hevents', hevents, List.append_assoc]
  · rw [List.filterMap_append]
    exact List.rel_append htells htells'

section Parts

variable (req : Request) (η : HttpHost)

/-- what only changes the server and the limiter, or is an event other than a response -/
theorem recorded_quiet {α : Type} {x : GatewayM α}
    (h : ∀ g, (run x g).2.auditLog = g.auditLog ∧
      ∃ new, (run x g).2.events = g.events ++ new ∧ new.filterMap Event.response = []) :
    Moves (Recorded l) x := by
  intro g
  obtain ⟨hlog, new, hevents, hnone⟩ := h g
  refine ⟨⟨[], new, ?_, hevents, ?_⟩, ?_⟩
  · rw [hlog, List.append_nil]
  · rw [hnone]
    exact .nil
  · rw [hlog]
    exact id

theorem recorded_same {α : Type} {x : GatewayM α} (h : ∀ g, (run x g).2 = g) : Moves (Recorded l) x := moves_of_eq Recorded.refl h

/-- **An entry and the response after it.** -/
theorem recorded_answer (action : String) (success : Bool) (details : Json ℚ) {response : Response}
    (hcode : response.code = codeOf action) :
    Moves (Recorded l) (logAudit l cfg req η action success details >>= fun _ => emit (.send response)) := by
  intro g
  obtain ⟨e, hrun, hsealed, haction⟩ := @run_logAudit l cfg req η action success details g
  rw [run_bind_of_ok hrun]
  refine ⟨⟨[e], [.send response], rfl, rfl, .cons ⟨action, haction, hcode⟩ .nil⟩, fun haccepted => ?_⟩
  rw [verifyIntegrity_iff] at haccepted ⊢
  change (∀ e' ∈ g.auditLog ++ [e], Sealed l.toLibs e') ∧ Linked _ _ none (g.auditLog ++ [e])
  rw [linked_snoc, List.forall_mem_append, List.forall_mem_singleton]
  exact ⟨⟨haccepted.1, hsealed.1⟩, haccepted.2, hsealed.2⟩

theorem recorded_read (n : ℤ) : Moves (Recorded l) (read req n) := by
  unfold McpHttpHandler.read
  dsimp only
  split_ifs
  · exact recorded_same fun _ => rfl
  · exact recorded_same fun _ => rfl
  · exact recorded_quiet fun g => ⟨rfl, _, rfl, rfl⟩
  · exact recorded_quiet fun g => ⟨rfl, _, rfl, rfl⟩

theorem recorded_readRequest (n : ℤ) : Moves (Recorded l) (readRequest l cfg req η n) := by
  apply moves_tryCatch Recorded.trans
  · apply moves_bind Recorded.trans (recorded_read req n)
    intro bytes
    exact recorded_same fun g => by cases l.loads bytes <;> rfl
  · intro e
    split_ifs
    · intro g
      rw [← bind_assoc]
      exact moves_bind Recorded.trans (recorded_answer req η _ _ _ rfl) (fun _ => recorded_same fun _ => rfl) g
    · exact recorded_same fun _ => rfl

theorem recorded_callServer (s : Session) (request : Json ℚ) : Moves (Recorded l) (callServer l η s request) := by
  cases request with
  | obj members => exact recorded_quiet fun g => ⟨rfl, [_], rfl, rfl⟩
  | _ => exact recorded_quiet fun g => ⟨rfl, [_], rfl, rfl⟩

theorem recorded_dispatch (remaining : Option ℤ) (request : Json ℚ) :
    Moves (Recorded l) (dispatch l cfg req η remaining request) := by
  apply moves_bind Recorded.trans (recorded_same fun _ => rfl)
  intro g
  cases g.serverInstance with
  | none => exact recorded_answer req η _ _ _ rfl
  | some s =>
    apply moves_bind Recorded.trans (recorded_callServer η s request)
    intro response
    apply moves_bind Recorded.trans (recorded_same fun _ => rfl)
    intro method
    cases remaining with
    | none => exact recorded_answer req η _ _ _ rfl
    | some n => exact recorded_answer req η _ _ _ rfl

theorem recorded_postAuthenticated (remaining : Option ℤ) :
    Moves (Recorded l) (postAuthenticated l cfg req η remaining) := by
  apply moves_bind Recorded.trans (recorded_same fun _ => rfl)
  intro valid
  cases valid with
  | false => exact recorded_answer req η _ _ _ rfl
  | true =>
    apply moves_bind Recorded.trans (recorded_same fun _ => rfl)
    intro n
    split_ifs
    · exact recorded_answer req η _ _ _ rfl
    · apply moves_bind Recorded.trans (recorded_readRequest req η n)
      intro request
      cases request with
      | none => exact recorded_same fun _ => rfl
      | some request => exact recorded_dispatch req η remaining request

theorem recorded_checkRate : Moves (Recorded l) (checkRate l cfg req η) := by
  apply recorded_quiet
  intro g
  cases hlimiter : g.rateLimiter with
  | none =>
    rw [run_checkRate_none req η hlimiter]
    exact ⟨rfl, [], (List.append_nil _).symm, rfl⟩
  | some r =>
    rw [run_checkRate_some req η hlimiter]
    exact ⟨rfl, [], (List.append_nil _).symm, rfl⟩

theorem recorded_doPost : Moves (Recorded l) (doPost l cfg req η) := by
  apply moves_bind Recorded.trans (recorded_checkRate req η)
  intro ⟨allowed, remaining⟩
  cases allowed with
  | false => exact recorded_answer req η _ _ _ rfl
  | true => exact recorded_postAuthenticated req η remaining

end Parts

/-! ## Runs -/

/-- **Every answer is recorded.** In every run of requests, also of ones that end with an exception, the entries that are added
to the log of the handler tell the responses one by one and in their order, each by the action of its response. The old
entries stay, and if `verify_integrity` accepted the log, it accepts it afterwards. -/
theorem answers_recorded (l : HttpLibs) (cfg : Config) (g : Gateway) (xs : List (Request × HttpHost)) :
    (∃ entries new, (Run.after (post l cfg) g xs).auditLog = g.auditLog ++ entries ∧
      (Run.after (post l cfg) g xs).events = g.events ++ new ∧
      List.Forall₂ Tells entries (new.filterMap Event.response)) ∧
    (verifyIntegrity l.toLibs g.auditLog = true → verifyIntegrity l.toLibs (Run.after (post l cfg) g xs).auditLog = true) := by
  have hrun : Recorded l g (Run.after (post l cfg) g xs) := by
    induction xs generalizing g with
    | nil => exact Recorded.refl g
    | cons x xs ih => exact Recorded.trans _ _ _ (recorded_doPost x.1 x.2 g) (ih _)
  exact ⟨hrun.told, hrun.accepted⟩

end AbirGuard.Python.McpHttpHandler
