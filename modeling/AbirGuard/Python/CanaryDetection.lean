/-
Does the Python vault notice that a canary is used?

The id of a canary starts with `__`. Every call that takes an id refuses such a one before it looks for canaries, so the
branches of `store` and `retrieve` that log a breach are never taken, and no removal takes a canary out of the maps.

- `run_of_names`, `dispatch_of_names`: a call or a request that names a canary raises, and leaves no trace of its own.
- `undetected_after`: in no state of a run is a canary missing or named by an entry of a breach.
- `planted_iff`: the canaries are the ids that `add_canary` has returned.
- `always_detected_iff`: every use of a canary is detected if and only if the run has none.
- `canary_retrieved`: the retrieval for a canary that nothing detects.
-/
import AbirGuard.Python.McpServer

namespace AbirGuard.Python

open AbirGuard.Core JsonValue Raise

namespace Vault

open AuditLogger

variable {l : Libs} {η : Host} {w : KeyState}

/-! ## The canaries after a call -/

/-- a call that takes a key away takes one with a valid id -/
theorem KeyState.change_eq_none {c : Call} {keyId : Text} (h : w.change η c = some (keyId, none)) :
    validateKeyId keyId = .ok keyId := by
  cases c with
  | removeKeypair id =>
    rw [KeyState.change] at h
    split_ifs at h with hid
    cases h
    exact hid
  | _ =>
    rw [KeyState.change] at h
    try split_ifs at h
    all_goals cases h

theorem mem_canaryIds_step {s : Session} (c : Host × Call) (id : Text) :
    id ∈ (step l s c).vault.canaryIds ↔ id ∈ s.vault.canaryIds ∨ c.2 = .addCanary ∧ id = KeyState.canaryId c.1 := by
  have hstep := KeyState.mem_canaryIds_apply c.1 (keyState s) l c.2 id
  rw [← keyState_step] at hstep
  exact hstep

/-- the ids of the canaries are refused, their keys are there, and no entry tells of their use -/
structure Unseen (s : Session) : Prop where
  coherent : (keyState s).Coherent
  present : ∀ id ∈ s.vault.canaryIds, s.vault.keypairs.contains id = true
  unlogged : ∀ action, action = "canary_access" ∨ action = "canary_breach" → ∀ id, entriesOf (Text.ofString action) id s = 0

theorem unseen_start (fipsMode mlkemFips : Bool) : Unseen (start η fipsMode mlkemFips) where
  coherent := coherent_start fipsMode mlkemFips
  present id h := by cases h
  unlogged action _ id := rfl

/-- a canary has a secret -/
theorem Unseen.secret {s : Session} (h : Unseen s) {id : Text} (hid : id ∈ s.vault.canaryIds) :
    ∃ σ, s.vault.secretKeys.get id = some σ := h.coherent.contains_iff.1 (h.present id hid)

/-- a valid id is no canary -/
theorem Unseen.not_canary {s : Session} (h : Unseen s) {keyId : Text} (hid : validateKeyId keyId = .ok keyId) :
    keyId ∉ s.vault.canaryIds := h.coherent.not_canary hid

theorem Unseen.checkCanary {s : Session} (h : Unseen s) : run (checkCanary l η) s = (.ok false, s) := by
  have hfind : s.vault.canaryIds.find? (fun id => !s.vault.keypairs.contains id) = none := by
    apply List.find?_eq_none.2
    intro id hid
    simp [h.present id hid]
  rw [Vault.checkCanary, run_get_bind, hfind]
  rfl

/-! ## The id of a canary -/

theorem isKeyIdChar_hexdigest {b : Bytes} {p : CodePoint} (hp : p ∈ Text.ofString (Text.hexdigest b)) : isKeyIdChar p = true := by
  have hdigit : ∀ n < 16, isKeyIdChar (CodePoint.ofChar (Text.hexDigit n)) = true := by decide
  rw [Text.ofString, Text.hexdigest, String.toList_ofList, List.mem_map] at hp
  obtain ⟨c, hc, rfl⟩ := hp
  obtain ⟨x, -, hx⟩ := List.mem_flatMap.1 hc
  have hx256 : x.toNat < 256 := x.toNat_lt
  simp only [List.mem_cons, List.not_mem_nil, or_false] at hx
  rcases hx with rfl | rfl
  · exact hdigit _ (by omega)
  · exact hdigit _ (by omega)

theorem canaryId_eq (η : Host) :
    KeyState.canaryId η = Text.ofString "__canary_" ++ Text.ofString (Text.hexdigest η.canaryId.toList) := rfl

theorem length_canaryId (η : Host) : (KeyState.canaryId η).length = 25 := by
  rw [canaryId_eq, List.length_append, Text.ofString, Text.ofString, List.length_map, List.length_map, Text.hexdigest_length,
    Vector.length_toList]
  rfl

theorem canaryId_ne_nil (η : Host) : KeyState.canaryId η ≠ [] := by
  intro h
  have hlength := length_canaryId η
  rw [h] at hlength
  cases hlength

theorem keyIdPattern_canaryId (η : Host) : keyIdPattern (KeyState.canaryId η) = true := by
  have hstart : (Text.ofString "__canary_").all isKeyIdChar = true := by decide +kernel
  have hchars : ∀ p ∈ KeyState.canaryId η, isKeyIdChar p = true := by
    intro p hp
    rw [canaryId_eq, List.mem_append] at hp
    rcases hp with hp | hp
    · exact List.all_eq_true.1 hstart p hp
    · exact isKeyIdChar_hexdigest hp
  have hlast : (KeyState.canaryId η).getLast? ≠ some (CodePoint.ofChar '\n') := by
    intro h
    exact absurd (hchars _ (List.mem_of_getLast? h)) (by decide)
  rw [keyIdPattern, if_neg hlast]
  exact decide_eq_true ⟨canaryId_ne_nil η, List.all_eq_true.2 hchars⟩

/-- **The id of a canary is refused**, and for nothing but its prefix. -/
theorem validateKeyId_canaryId (η : Host) : validateKeyId (KeyState.canaryId η) =
    .error ⟨.valueError, "key_id cannot start with __ (reserved for system)"⟩ := by
  have hshort : ¬ MAX_KEY_ID_LENGTH < (KeyState.canaryId η).length := by
    rw [length_canaryId, MAX_KEY_ID_LENGTH]
    decide
  rw [validateKeyId, if_neg (canaryId_ne_nil η), if_neg hshort, if_neg (not_not.2 (keyIdPattern_canaryId η)),
    if_pos (reserved_canaryId η)]

/-! ## No call removes a canary -/

theorem Unseen.present_step {s : Session} (h : Unseen s) (c : Host × Call) {id : Text}
    (hid : id ∈ (step l s c).vault.canaryIds) : (step l s c).vault.keypairs.contains id = true := by
  have hsecret : ∃ σ, (step l s c).vault.secretKeys.get id = some σ := by
    rcases (mem_canaryIds_step c id).1 hid with hold | ⟨hplant, rfl⟩
    · obtain ⟨σ, hσ⟩ := h.secret hold
      rw [get_step h.coherent]
      rcases hchange : (keyState s).change c.1 c.2 with _ | ⟨keyId, _ | σ'⟩
      · exact ⟨σ, hσ⟩
      · have hne : keyId ≠ id := by
          intro he
          exact h.not_canary (KeyState.change_eq_none hchange) (he ▸ hold)
        exact ⟨σ, (if_neg hne).trans hσ⟩
      · dsimp only [KeyState.changed]
        split_ifs
        · exact ⟨σ', rfl⟩
        · exact ⟨σ, hσ⟩
    · refine ⟨c.1.secret.toList, ?_⟩
      rw [get_step h.coherent, hplant]
      exact if_pos rfl
  exact (coherent_step h.coherent c).contains_iff.2 hsecret

/-! ## No call logs the use of a canary -/

variable {R : Session → Session → Prop} {actions : String → Prop}

/-- a store under an id that is no canary's does not log an access -/
theorem store_of_not_canary (h : Allows l R actions) (hkeygen : actions "keygen") (hrotation : actions "key_rotation")
    (hencrypt : actions "encrypt") (ηRotate : Host) {keyId : Text} (p : Bytes) {s : Session}
    (hs : validateKeyId keyId = .ok keyId → keyId ∉ s.vault.canaryIds) :
    R s (run (store l η ηRotate keyId p) s).2 := by
  by_cases hok : validateKeyId keyId = .ok keyId ∧ p.length ≤ MAX_DATA_SIZE
  · rw [run_store ηRotate hok.1 hok.2, prepareKey, bind_assoc, run_get_bind, bind_assoc,
      run_bind_of_ok (run_when_of_not (hs hok.1) _ s)]
    -- the rest logs a new key, its rotation and the encryption
    have hgenerate : Moves R (generateKeypair l η keyId >>= fun _ => (pure ⟨⟩ : VaultM Unit)) :=
      moves_bind h.trans (moves_generateKeypair h hkeygen _) fun _ => moves_pure h _
    have hrotate : ∀ t : Session, Moves R
        (when (t.vault.rotationMgr.any (·.needsRotation η keyId)) (rotateKey l ηRotate keyId)) :=
      fun t => moves_when h.refl (moves_rotateKey h hkeygen hrotation _)
    refine moves_bind h.trans ?_ (fun _ => moves_encryptInMode h hencrypt keyId p) s
    exact moves_bind h.trans (moves_when h.refl hgenerate) fun _ => moves_bind h.trans (moves_get h) hrotate
  · obtain ⟨e, he⟩ := run_store_refused (l := l) (η := η) ηRotate hok s
    rw [he]
    exact h.refl s

/-- a retrieval for an id that is no canary's does not log a breach -/
theorem retrieve_of_not_canary (h : Allows l R actions) (hfailed : actions "attestation_failed")
    (herror : actions "attestation_error") (hdecrypt : actions "decrypt") {keyId : Text} (ct : Ciphertext) {s : Session}
    (hs : validateKeyId keyId = .ok keyId → keyId ∉ s.vault.canaryIds) :
    R s (run (retrieve l η keyId ct) s).2 := by
  rw [retrieve, run_lift_bind]
  rcases validateKeyId_cases keyId with hid | ⟨e, he⟩
  · rw [hid]
    dsimp only
    rw [run_get_bind, run_ite]
    split_ifs
    · rw [run_bind_of_ok (run_when_of_not (hs hid) _ s)]
      exact moves_bind h.trans (moves_checkAttestation h hfailed herror _) (fun _ => moves_decryptInMode h hdecrypt _ _) s
    · exact moves_bind h.trans (moves_log h hdecrypt _ _ _) (fun _ => moves_throw h _) s
  · rw [he]
    exact h.refl s

/-- **No call in an unseen state logs the use of a canary.** -/
theorem Unseen.entriesOf_step {s : Session} (h : Unseen s) (c : Host × Call) {action : String}
    (haction : action = "canary_access" ∨ action = "canary_breach") (id : Text) :
    entriesOf (Text.ofString action) id (step l s c) = entriesOf (Text.ofString action) id s := by
  have hallows : Allows l (fun s t => entriesOf (Text.ofString action) id t = entriesOf (Text.ofString action) id s)
      fun action' => Text.ofString action' ≠ Text.ofString action := allows_entriesOf (Text.ofString action) id
  have hother : ∀ action' : String, action' ≠ "canary_access" → action' ≠ "canary_breach" →
      Text.ofString action' ≠ Text.ofString action := by
    intro action' haccess hbreach he
    rw [Text.ofString_inj] at he
    rcases haction with rfl | rfl
    · exact haccess he
    · exact hbreach he
  have hfree : ∀ c : Call, (∀ action' ∈ c.actions, action' ≠ "canary_access" ∧ action' ≠ "canary_breach") → ∀ η,
      entriesOf (Text.ofString action) id (step l s (η, c)) = entriesOf (Text.ofString action) id s := by
    intro c hc η
    refine moves_call hallows (fun s t ht => congrArg (countOf (Text.ofString action) id) ht) c (fun action' ha => ?_) s
    exact hother action' (hc action' ha).1 (hc action' ha).2
  obtain ⟨η, c⟩ := c
  cases c with
  | store ηRotate keyId p =>
    rw [step_store]
    exact store_of_not_canary hallows (hother _ (by decide) (by decide)) (hother _ (by decide) (by decide))
      (hother _ (by decide) (by decide)) ηRotate p fun hid => h.not_canary hid
  | retrieve keyId ct =>
    rw [step_retrieve]
    exact retrieve_of_not_canary hallows (hother _ (by decide) (by decide)) (hother _ (by decide) (by decide))
      (hother _ (by decide) (by decide)) ct fun hid => h.not_canary hid
  | checkCanary =>
    rw [show step l s (η, .checkCanary) = (run (Vault.checkCanary l η) s).2 from run_ignore _ s, h.checkCanary]
  | _ => exact hfree _ (by simp [Call.actions]) η

theorem Unseen.step {s : Session} (h : Unseen s) (c : Host × Call) : Unseen (step l s c) where
  coherent := coherent_step h.coherent c
  present _ hid := h.present_step c hid
  unlogged action haction id := (h.entriesOf_step c haction id).trans (h.unlogged action haction id)

end Vault

namespace McpServer

open Vault

/-! ## Model -/

/-- what can happen to a vault and its server: a call, or a request, with the host at the time when a key is rotated -/
inductive Use where
  | call (c : Call)
  | request (ηRotate : Host) (request : Dict Text (Json ℚ))

def useStep (l : McpLibs) (s : Session) : Host × Use → Session
  | (η, .call c) => step l.toLibs s (η, c)
  | (η, .request ηRotate request) => handleStep l s (η, ηRotate, request)

/-- a store, a retrieval or a removal that names the id, or a request for one -/
def Use.Names (id : Text) : Use → Prop
  | .call (.store _ keyId _) => keyId = id
  | .call (.retrieve keyId _) => keyId = id
  | .call (.removeKeypair keyId) => keyId = id
  | .call _ => False
  | .request _ r => (isStr "encrypt" (methodOf r) = true ∨ isStr "decrypt" (methodOf r) = true ∨
      isStr "delete_key" (methodOf r) = true) ∧ getItem "key_id" (paramsOf r) = .ok (.str id)

/-- `add_canary` returns the id, to its caller or in a response -/
def Returned (l : McpLibs) (id : Text) (s : Session) : Host × Use → Prop
  | (η, .call c) => c = .addCanary ∧ (run (Vault.addCanary l.toLibs η) s).1 = .ok id
  | (η, .request ηRotate request) => isStr "add_canary" (methodOf request) = true ∧
      ∃ r, (run (handle l η ηRotate request) s).1 = .ok r ∧
        r.get (Text.ofString "result") = some (.obj [("canary_id", .str id)])

/-- `check_canary` returns `True`, or an entry tells of a use of the id -/
def Detected (l : McpLibs) (id : Text) (s : Session) : Prop :=
  (∃ η, (run (Vault.checkCanary l.toLibs η) s).1 = .ok true) ∨ 0 < entriesOf "canary_access" id s ∨
    0 < entriesOf "canary_breach" id s

/-- from the use of an id that was returned before it on, the use is detected -/
def AlwaysDetected (l : McpLibs) (s : Session) (run : List (Host × Use)) : Prop :=
  ∀ id pre c mid post, run = pre ++ c :: (mid ++ post) → Run.Once (useStep l) (Returned l id) s pre → c.2.Names id →
    Detected l id (Run.after (useStep l) s (pre ++ c :: mid))

/-- no canary of the vault is named -/
def Spared (s : Session) (c : Host × Use) : Prop := ∀ id ∈ s.vault.canaryIds, ¬ c.2.Names id

variable {l : McpLibs} {η ηRotate : Host}

/-! ## The canaries are the ids that were returned -/

/-- only one method plants -/
theorem name_of_addCanary : ∀ c ∈ calls ηRotate, ∀ params, c.2 params = some .addCanary → c.1 = "add_canary" := by
  have hfips : ∀ enable, (if truthy enable = true then Call.enableFipsMode else Call.disableFipsMode) ≠ .addCanary := by
    intro enable
    split_ifs <;> simp
  rw [calls]
  simp [hfips, Option.bind_eq_some_iff]

theorem callOf_addCanary {method params : Json ℚ} :
    callOf ηRotate method params = some .addCanary ↔ isStr "add_canary" method = true := by
  constructor
  · intro h
    rw [callOf, Option.bind_eq_some_iff] at h
    obtain ⟨c, hfind, hcall⟩ := h
    have hname : isStr c.1 method = true :=
      List.find?_some (p := fun c : String × (Json ℚ → Option Call) => isStr c.1 method) hfind
    rwa [name_of_addCanary c (List.mem_of_find?_eq_some hfind) params hcall] at hname
  · intro h
    have hmem : ("add_canary", fun _ => some .addCanary) ∈ calls ηRotate := by simp [calls]
    rw [isStr_iff.1 h]
    exact callOf_method hmem params

/-- a request for a canary is answered with its id -/
theorem run_handle_addCanary {request : Dict Text (Json ℚ)} (h : isStr "add_canary" (methodOf request) = true) (s : Session) :
    (run (handle l η ηRotate request) s).1 =
      .ok (response request "result" (.obj [("canary_id", .str (KeyState.canaryId η))])) := by
  have hdispatch : ∀ params, dispatch l η ηRotate (.str "add_canary") params = addCanary l η params :=
    fun params => dispatch_method (by simp [methods]) params
  rw [handle, isStr_iff.1 h, hdispatch]
  rfl


theorem returned_request_iff {id : Text} {s : Session} {request : Dict Text (Json ℚ)} :
    Returned l id s (η, .request ηRotate request) ↔ isStr "add_canary" (methodOf request) = true ∧ id = KeyState.canaryId η := by
  rw [Returned]
  refine and_congr_right fun h => ?_
  have hresult : ∀ v, (response request "result" v).get (Text.ofString "result") = some v := fun v => Dict.get_set_self ..
  rw [run_handle_addCanary h]
  simp [hresult, eq_comm]

/-- the keys after a request are those after its call -/
theorem keyState_handleStep (s : Session) (request : Dict Text (Json ℚ)) : keyState (handleStep l s (η, ηRotate, request)) =
    keyState (after l η s (callOf ηRotate (methodOf request) (paramsOf request))) := by
  obtain ⟨key, v, success, details, -, hrun⟩ := run_handle (l := l) request s
  rw [handleStep, hrun]
  rfl

theorem mem_canaryIds_useStep {s : Session} (c : Host × Use) (id : Text) :
    id ∈ (useStep l s c).vault.canaryIds ↔ id ∈ s.vault.canaryIds ∨ Returned l id s c := by
  obtain ⟨η, c | ⟨ηRotate, request⟩⟩ := c
  · have hreturned : Returned l id s (η, .call c) ↔ c = .addCanary ∧ id = KeyState.canaryId η := by
      rw [Returned]
      exact and_congr_right fun _ => ⟨fun h => (Except.ok.inj h).symm, fun h => congrArg Except.ok h.symm⟩
    rw [hreturned]
    exact mem_canaryIds_step (η, c) id
  · have hcall : callOf ηRotate (methodOf request) (paramsOf request) = some .addCanary ↔
        isStr "add_canary" (methodOf request) = true := callOf_addCanary
    rw [returned_request_iff, ← hcall]
    change id ∈ (keyState (handleStep l s (η, ηRotate, request))).canaryIds ↔ _
    rw [keyState_handleStep]
    cases callOf ηRotate (methodOf request) (paramsOf request) with
    | none => simp [after, keyState]
    | some c =>
      rw [Option.some.injEq]
      exact mem_canaryIds_step (η, c) id

/-- **The canaries are the ids that were returned.** -/
theorem planted_iff (fipsMode mlkemFips : Bool) (uses : List (Host × Use)) (id : Text) :
    id ∈ (Run.after (useStep l) (start η fipsMode mlkemFips) uses).vault.canaryIds ↔
      Run.Once (useStep l) (Returned l id) (start η fipsMode mlkemFips) uses := by
  induction uses using List.reverseRecOn with
  | nil => exact iff_of_false (fun h => by cases h) (Run.not_once_nil _)
  | append_singleton uses c ih =>
    rw [Run.after_append, Run.once_snoc, ← ih]
    exact mem_canaryIds_useStep c id

/-! ## Nothing is detected -/

theorem unseen_after {s : Session} (h : Unseen s) (c : Option Call) : Unseen (after l η s c) := by
  cases c with
  | none => exact h
  | some c => exact h.step (η, c)

/-- an entry of the server tells of no use -/
theorem unseen_useStep {s : Session} (h : Unseen s) (c : Host × Use) : Unseen (useStep l s c) := by
  obtain ⟨η, c | ⟨ηRotate, request⟩⟩ := c
  · exact h.step (η, c)
  · obtain ⟨key, v, success, details, -, hrun⟩ := run_handle (l := l) request s
    have hafter : Unseen (after l η s (callOf ηRotate (methodOf request) (paramsOf request))) := unseen_after h _
    obtain ⟨e, heq, -, haction, -⟩ := AuditLogger.append_eq (l := l.toLibs)
      (after l η s (callOf ηRotate (methodOf request) (paramsOf request))).vault.audit
      ⟨η.clock (.audit "mcp"), .str "mcp", methodOf request, .bool success, .str details⟩
    rw [useStep, handleStep, hrun]
    refine ⟨hafter.coherent, hafter.present, fun action hcanary id => ?_⟩
    have hlogged : entriesOf (Text.ofString action) id _ = 0 := hafter.unlogged action hcanary id
    have hnew : AuditLogger.hasString "action" (Text.ofString action) e = false := by
      rw [AuditLogger.hasString, haction]
      rcases hcanary with rfl | rfl <;> simp
    change AuditLogger.countOf (Text.ofString action) id (AuditLogger.append l.toLibs _ _) = 0
    rw [heq, AuditLogger.countOf, List.countP_append, List.countP_singleton, hnew]
    exact hlogged

/-- **In no state of a run is the use of any canary detected.** -/
theorem undetected_after (fipsMode mlkemFips : Bool) (uses : List (Host × Use)) (id : Text) :
    ¬ Detected l id (Run.after (useStep l) (start η fipsMode mlkemFips) uses) := by
  have hstep : ∀ c ∈ uses, ∀ s : Session, Unseen s → Unseen (useStep l s c) := fun c _ s hs => unseen_useStep hs c
  have hunseen : Unseen (Run.after (useStep l) (start η fipsMode mlkemFips) uses) :=
    Run.after_inv hstep (unseen_start fipsMode mlkemFips)
  rintro (⟨η', hcheck⟩ | haccess | hbreach)
  · rw [hunseen.checkCanary] at hcheck
    cases hcheck
  · exact haccess.ne' (hunseen.unlogged "canary_access" (Or.inl rfl) id)
  · exact hbreach.ne' (hunseen.unlogged "canary_breach" (Or.inr rfl) id)

/-- a call that names a canary raises, and leaves no trace -/
theorem run_of_names {c : Call} {η' : Host} (h : (Use.call c).Names (KeyState.canaryId η')) (s : Session) :
    run (c.run l.toLibs η) s = (.error ⟨.valueError, "key_id cannot start with __ (reserved for system)"⟩, s) := by
  have hrefused := validateKeyId_canaryId η'
  cases c with
  | store ηRotate keyId p =>
    obtain rfl : keyId = KeyState.canaryId η' := h
    rw [Call.run, Vault.ignore, store, bind_assoc, run_lift_bind, hrefused]
  | retrieve keyId ct =>
    obtain rfl : keyId = KeyState.canaryId η' := h
    rw [Call.run, Vault.ignore, retrieve, bind_assoc, run_lift_bind, hrefused]
  | removeKeypair keyId =>
    obtain rfl : keyId = KeyState.canaryId η' := h
    rw [Call.run, removeKeypair, run_lift_bind, hrefused]
  | _ => exact absurd h id

/-- a request that names a canary is answered with the error -/
theorem dispatch_of_names {request : Dict Text (Json ℚ)} {η' : Host}
    (h : (Use.request ηRotate request).Names (KeyState.canaryId η')) (s : Session) :
    run (dispatch l η ηRotate (methodOf request) (paramsOf request)) s =
      (.error ⟨.valueError, "key_id cannot start with __ (reserved for system)"⟩, s) := by
  obtain ⟨hmethod, hid⟩ := h
  have hrefused : keyIdOf (paramsOf request) = .error ⟨.valueError, "key_id cannot start with __ (reserved for system)"⟩ := by
    rw [keyIdOf, hid]
    exact validateKeyId_canaryId η'
  rcases hmethod with hname | hname | hname
  all_goals rw [isStr_iff.1 hname]
  · have hdispatch : dispatch l η ηRotate (.str "encrypt") (paramsOf request) = encrypt l η ηRotate (paramsOf request) :=
      dispatch_method (by simp [methods]) _
    rw [hdispatch, encrypt, run_lift_bind, hrefused]
  · have hdispatch : dispatch l η ηRotate (.str "decrypt") (paramsOf request) = decrypt l η (paramsOf request) :=
      dispatch_method (by simp [methods]) _
    rw [hdispatch, decrypt, run_lift_bind, hrefused]
  · have hdispatch : dispatch l η ηRotate (.str "delete_key") (paramsOf request) = deleteKey l η (paramsOf request) :=
      dispatch_method (by simp [methods]) _
    rw [hdispatch, deleteKey, run_lift_bind, hrefused]

/-- **The use of a canary is always detected if and only if the run names no canary.** -/
theorem always_detected_iff (l : McpLibs) (η : Host) (fipsMode mlkemFips : Bool) (uses : List (Host × Use)) :
    AlwaysDetected l (start η fipsMode mlkemFips) uses ↔
      Run.EachStep (useStep l) Spared (start η fipsMode mlkemFips) uses := by
  constructor
  · intro h pre c post huses id hid hnames
    have hreturned := (planted_iff fipsMode mlkemFips pre id).1 hid
    exact undetected_after fipsMode mlkemFips _ id (h id pre c [] post huses hreturned hnames)
  · intro h id pre c mid post huses hreturned hnames
    have hid := (planted_iff fipsMode mlkemFips pre id).2 hreturned
    exact absurd hnames (h pre c (mid ++ post) huses id hid)

/-- libraries that answer with zero bytes -/
def zeroMcpLibs : McpLibs where
  toLibs := zeroLibs
  containerStr _ := []
  decodeError _ := []

/-- a canary is planted and retrieved, and nothing detects it -/
theorem canary_retrieved : ¬ AlwaysDetected zeroMcpLibs (start zeroHost false false)
    [(zeroHost, .call .addCanary), (zeroHost, .call (.retrieve "__canary_0000000000000000" ⟨[], [], []⟩))] := by
  intro h
  have hreturned : Run.Once (useStep zeroMcpLibs) (Returned zeroMcpLibs "__canary_0000000000000000") (start zeroHost false false)
      [(zeroHost, .call .addCanary)] := ⟨[], _, [], rfl, rfl, rfl⟩
  exact undetected_after false false _ _ (h _ [(zeroHost, .call .addCanary)] _ [] [] rfl hreturned rfl)

end McpServer

end AbirGuard.Python
