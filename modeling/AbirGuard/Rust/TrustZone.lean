/-
The trusted application (`trustzone/mod.rs`, `trustzone/interface.rs`): a session, and commands that are sent to it as JSON.

A request has the id of its session, a command and a payload. What the command gives is the payload of the response: a sealed
blob or a report as JSON, or the bytes that a blob has. Sealing is not implemented: the blob has the bytes as they are, with a
tag and a nonce of zeros, and unsealing looks at the kind of the blob only.

- `call_eq`: nothing is lost on the way; a request that was sent is answered as if it had been given to `dispatch_command`.
- `unseal_ok_iff`: which payloads are unsealed, and to what.
- `secure_world`: what a session does to a request of another session, to the blob of any session, and to a foreign blob.
- `own_report_iff`: the report of the application is accepted by the attestation service only where no marker is required, and
  for as many seconds after 1970 as both limits allow.
-/
import AbirGuard.Core.Serde
import AbirGuard.Rust.AttestationService

namespace AbirGuard.Rust.TrustZone

open AbirGuard.Core Serde Attestation

/-! ## Model -/

inductive TrustZoneError where
  | initializationFailed (reason : String)
  | operationFailed (reason : String)
  | attestationFailed (reason : String)
  | invalidState (reason : String)
deriving DecidableEq, Repr

structure TrustZoneConfig where
  taUuid : String
  requireAttestation : Bool
deriving DecidableEq, Repr

def TrustZoneConfig.secureDefault : TrustZoneConfig := ⟨"00000000-0000-0000-0000-000000000001", true⟩

structure SealedData where
  teeType : TeeType
  ciphertext : Bytes
  authTag : Bytes
  nonce : Bytes
deriving DecidableEq, Repr

/-- the state of a session -/
structure TrustZoneEnclave where
  config : TrustZoneConfig
  sessionId : UInt64
  initialized : Bool
deriving DecidableEq, Repr

namespace TrustZoneEnclave

def initializeEnclave (config : TrustZoneConfig) : Except TrustZoneError TrustZoneEnclave :=
  if config.taUuid = "" then .error (.initializationFailed "TA UUID cannot be empty") else .ok ⟨config, 1, true⟩

def getAttestation (e : TrustZoneEnclave) : Except TrustZoneError TeeAttestationReport :=
  if !e.initialized then .error (.invalidState "TrustZone session is not initialized")
  else .ok ⟨.trustZone, List.replicate 256 0, 0⟩

def sealData (e : TrustZoneEnclave) (plaintext : Bytes) : Except TrustZoneError SealedData :=
  if !e.initialized then .error (.invalidState "TrustZone session is not initialized")
  else .ok ⟨.trustZone, plaintext, List.replicate 16 0, List.replicate 12 0⟩

def unsealData (e : TrustZoneEnclave) (blob : SealedData) : Except TrustZoneError Bytes :=
  if !e.initialized then .error (.invalidState "TrustZone session is not initialized")
  else if blob.teeType ≠ .trustZone then .error (.operationFailed "Sealed payload does not belong to TrustZone")
  else .ok blob.ciphertext

end TrustZoneEnclave

inductive TaCommand where
  | getAttestation
  | sealData
  | unsealData
deriving DecidableEq, Repr

structure TaRequest where
  sessionId : UInt64
  command : TaCommand
  payload : Bytes
deriving DecidableEq, Repr

structure TaResponse where
  success : Bool
  message : String
  payload : Bytes
deriving DecidableEq, Repr

def TaResponse.ok (payload : Bytes) : TaResponse := ⟨true, "", payload⟩

def TaResponse.err (message : String) : TaResponse := ⟨false, message, []⟩

/-! ### JSON -/

variable {F : Type}

theorem teeType_mem (t : TeeType) : t ∈ [TeeType.sgx, .trustZone, .amdSev, .intelTdx] := by cases t <;> decide

theorem teeType_debug_injective : Function.Injective TeeType.debug := by
  intro t u h
  cases t <;> cases u <;> first | rfl | simp [TeeType.debug] at h

def teeTypeFormat : Format F TeeType :=
  .variants TeeType.debug [.sgx, .trustZone, .amdSev, .intelTdx] teeType_mem teeType_debug_injective

def TaCommand.name : TaCommand → String
  | .getAttestation => "GetAttestation"
  | .sealData => "SealData"
  | .unsealData => "UnsealData"

theorem taCommand_mem (c : TaCommand) : c ∈ [TaCommand.getAttestation, .sealData, .unsealData] := by cases c <;> decide

theorem taCommand_name_injective : Function.Injective TaCommand.name := by
  intro c d h
  cases c <;> cases d <;> first | rfl | simp [TaCommand.name] at h

def taCommandFormat : Format F TaCommand :=
  .variants TaCommand.name [.getAttestation, .sealData, .unsealData] taCommand_mem taCommand_name_injective

def requestFields : Fields F (UInt64 × TaCommand × Bytes) :=
  (Fields.field "session_id" .uint64).and ((Fields.field "command" taCommandFormat).and (.field "payload" .bytes))

theorem nodup_requestFields : (requestFields : Fields F _).names.Nodup := by
  have hnames : ["session_id", "command", "payload"].Nodup := by decide
  exact hnames

def requestFormat : Format F TaRequest :=
  (requestFields.record nodup_requestFields).represent (fun p => ⟨p.1, p.2.1, p.2.2⟩)
    (fun r => (r.sessionId, r.command, r.payload)) fun _ => rfl

def responseFields : Fields F (Bool × String × Bytes) :=
  (Fields.field "success" .bool).and ((Fields.field "message" .str).and (.field "payload" .bytes))

theorem nodup_responseFields : (responseFields : Fields F _).names.Nodup := by
  have hnames : ["success", "message", "payload"].Nodup := by decide
  exact hnames

def responseFormat : Format F TaResponse :=
  (responseFields.record nodup_responseFields).represent (fun p => ⟨p.1, p.2.1, p.2.2⟩)
    (fun r => (r.success, r.message, r.payload)) fun _ => rfl

def sealedFields : Fields F (TeeType × Bytes × Bytes × Bytes) :=
  (Fields.field "tee_type" teeTypeFormat).and
    ((Fields.field "ciphertext" .bytes).and ((Fields.field "auth_tag" .bytes).and (.field "nonce" .bytes)))

theorem nodup_sealedFields : (sealedFields : Fields F _).names.Nodup := by
  have hnames : ["tee_type", "ciphertext", "auth_tag", "nonce"].Nodup := by decide
  exact hnames

def sealedFormat : Format F SealedData :=
  (sealedFields.record nodup_sealedFields).represent (fun p => ⟨p.1, p.2.1, p.2.2.1, p.2.2.2⟩)
    (fun s => (s.teeType, s.ciphertext, s.authTag, s.nonce)) fun _ => rfl

def reportFields : Fields F (TeeType × Bytes × UInt64) :=
  (Fields.field "tee_type" teeTypeFormat).and ((Fields.field "attestation_data" .bytes).and (.field "timestamp" .uint64))

theorem nodup_reportFields : (reportFields : Fields F _).names.Nodup := by
  have hnames : ["tee_type", "attestation_data", "timestamp"].Nodup := by decide
  exact hnames

def reportFormat : Format F TeeAttestationReport :=
  (reportFields.record nodup_reportFields).represent (fun p => ⟨p.1, p.2.1, p.2.2⟩)
    (fun r => (r.teeType, r.attestationData, r.timestamp)) fun _ => rfl

/-! ### Transport and dispatch -/

variable (w : Wire F)

def TaRequest.toBytes (req : TaRequest) : Bytes := Serde.toBytes w requestFormat req

def TaRequest.fromBytes (bytes : Bytes) : Except TrustZoneError TaRequest :=
  (Serde.fromBytes w requestFormat bytes).mapError fun e => .operationFailed s!"request deserialization failed: {e}"

def TaResponse.toBytes (resp : TaResponse) : Bytes := Serde.toBytes w responseFormat resp

def TaResponse.fromBytes (bytes : Bytes) : Except TrustZoneError TaResponse :=
  (Serde.fromBytes w responseFormat bytes).mapError fun e => .operationFailed s!"response deserialization failed: {e}"

def dispatchCommand (e : TrustZoneEnclave) (req : TaRequest) : Except TrustZoneError TaResponse :=
  if !e.initialized then .error (.invalidState "cannot dispatch command on uninitialized TrustZone session")
  else if req.sessionId ≠ e.sessionId then .ok (.err "session mismatch")
  else
    match req.command with
    | .getAttestation => do
      let report ← e.getAttestation
      .ok (.ok (Serde.toBytes w reportFormat report))
    | .sealData => do
      let blob ← e.sealData req.payload
      .ok (.ok (Serde.toBytes w sealedFormat blob))
    | .unsealData => do
      let blob ← (Serde.fromBytes w sealedFormat req.payload).mapError fun e =>
        TrustZoneError.operationFailed s!"sealed payload decoding failed: {e}"
      let plain ← e.unsealData blob
      .ok (.ok plain)

/-- a request that is sent to the secure world, and its response sent back -/
def call (e : TrustZoneEnclave) (req : TaRequest) : Except TrustZoneError TaResponse := do
  let received ← TaRequest.fromBytes w (req.toBytes w)
  let resp ← dispatchCommand w e received
  TaResponse.fromBytes w (resp.toBytes w)

/-- the wire reads back requests, responses, blobs and reports -/
structure Carries : Prop where
  request : w.ReadsBack requestFormat
  response : w.ReadsBack responseFormat
  blob : w.ReadsBack sealedFormat
  report : w.ReadsBack reportFormat

theorem carries_textWire {T : FloatText F} (hT : T.Lawful) : Carries (textWire T) :=
  ⟨readsBack_textWire hT _, readsBack_textWire hT _, readsBack_textWire hT _, readsBack_textWire hT _⟩

/-! ## Calls -/

variable {w}

/-- **Nothing is lost on the way.** -/
theorem call_eq (hw : Carries w) (e : TrustZoneEnclave) (req : TaRequest) : call w e req = dispatchCommand w e req := by
  have hreq : TaRequest.fromBytes w (req.toBytes w) = .ok req := by
    rw [TaRequest.fromBytes, TaRequest.toBytes, fromBytes_toBytes hw.request]
    rfl
  have hresp : ∀ resp, TaResponse.fromBytes w (TaResponse.toBytes w resp) = .ok resp := by
    intro resp
    rw [TaResponse.fromBytes, TaResponse.toBytes, fromBytes_toBytes hw.response]
    rfl
  rw [call, hreq, Outcome.ok_bind]
  cases dispatchCommand w e req with
  | error err => rfl
  | ok resp => exact hresp resp

/-- an open session -/
theorem initialized_of_initializeEnclave {config : TrustZoneConfig} {e : TrustZoneEnclave}
    (h : TrustZoneEnclave.initializeEnclave config = .ok e) : e.initialized = true := by
  rw [TrustZoneEnclave.initializeEnclave] at h
  split_ifs at h
  cases h
  rfl

variable {e : TrustZoneEnclave}

theorem call_other_session (hw : Carries w) (he : e.initialized = true) {req : TaRequest} (hreq : req.sessionId ≠ e.sessionId) :
    call w e req = .ok (.err "session mismatch") := by
  rw [call_eq hw, dispatchCommand, if_neg (by simp [he]), if_pos hreq]

theorem call_seal (hw : Carries w) (he : e.initialized = true) (p : Bytes) :
    call w e ⟨e.sessionId, .sealData, p⟩ =
      .ok (.ok (Serde.toBytes w sealedFormat ⟨.trustZone, p, List.replicate 16 0, List.replicate 12 0⟩)) := by
  rw [call_eq hw, dispatchCommand, if_neg (by simp [he]), if_neg (not_not.2 rfl)]
  simp only [TrustZoneEnclave.sealData, he, Bool.not_true, Bool.false_eq_true, if_false]
  rfl

theorem call_attestation (hw : Carries w) (he : e.initialized = true) (p : Bytes) :
    call w e ⟨e.sessionId, .getAttestation, p⟩ =
      .ok (.ok (Serde.toBytes w reportFormat ⟨.trustZone, List.replicate 256 0, 0⟩)) := by
  rw [call_eq hw, dispatchCommand, if_neg (by simp [he]), if_neg (not_not.2 rfl)]
  simp only [TrustZoneEnclave.getAttestation, he, Bool.not_true, Bool.false_eq_true, if_false]
  rfl

/-- **Which payloads are unsealed.** -/
theorem unseal_ok_iff (hw : Carries w) (he : e.initialized = true) {b : Bytes} {resp : TaResponse} :
    call w e ⟨e.sessionId, .unsealData, b⟩ = .ok resp ↔
      ∃ blob, Serde.fromBytes w sealedFormat b = .ok blob ∧ blob.teeType = .trustZone ∧ resp = .ok blob.ciphertext := by
  rw [call_eq hw, dispatchCommand, if_neg (by simp [he]), if_neg (not_not.2 rfl)]
  dsimp only
  cases Serde.fromBytes w sealedFormat b with
  | error err =>
    refine iff_of_false (fun h => by cases h) ?_
    rintro ⟨blob, hblob, -⟩
    cases hblob
  | ok blob =>
    have hunseal : e.unsealData blob =
        if blob.teeType ≠ .trustZone then .error (.operationFailed "Sealed payload does not belong to TrustZone")
        else .ok blob.ciphertext := by rw [TrustZoneEnclave.unsealData, if_neg (by simp [he])]
    change (e.unsealData blob >>= fun plain => .ok (.ok plain)) = .ok resp ↔ _
    rw [hunseal]
    by_cases htee : blob.teeType = .trustZone
    · rw [if_neg (not_not.2 htee)]
      constructor
      · intro h
        cases h
        exact ⟨blob, rfl, htee, rfl⟩
      · rintro ⟨blob', hblob, -, rfl⟩
        cases hblob
        rfl
    · rw [if_pos htee]
      refine iff_of_false (fun h => by cases h) ?_
      rintro ⟨blob', hblob, htee', -⟩
      cases hblob
      exact htee htee'

/-- **The secure world over its wire.** A request of another session is refused without a payload. What any session sealed, every
session unseals, to the bytes that were sealed. Nothing but a blob of TrustZone is unsealed; of such a blob, whatever its tag and
its nonce, the bytes are returned. -/
theorem secure_world {w : Wire F} (hw : Carries w) {config config' : TrustZoneConfig} {e e' : TrustZoneEnclave}
    (he : TrustZoneEnclave.initializeEnclave config = .ok e) (he' : TrustZoneEnclave.initializeEnclave config' = .ok e') :
    (∀ req : TaRequest, req.sessionId ≠ e.sessionId → call w e req = .ok ⟨false, "session mismatch", []⟩) ∧
    (∀ p, ∃ blob, call w e ⟨e.sessionId, .sealData, p⟩ = .ok ⟨true, "", blob⟩ ∧
      call w e' ⟨e'.sessionId, .unsealData, blob⟩ = .ok ⟨true, "", p⟩) ∧
    (∀ b resp, call w e ⟨e.sessionId, .unsealData, b⟩ = .ok resp →
      ∃ blob, Serde.fromBytes w sealedFormat b = .ok blob ∧ blob.teeType = .trustZone ∧ resp = ⟨true, "", blob.ciphertext⟩) ∧
    ∀ blob : SealedData, (∃ resp, call w e ⟨e.sessionId, .unsealData, Serde.toBytes w sealedFormat blob⟩ = .ok resp) ↔
      blob.teeType = .trustZone := by
  have hopen := initialized_of_initializeEnclave he
  have hopen' := initialized_of_initializeEnclave he'
  refine ⟨fun req hreq => call_other_session hw hopen hreq, fun p => ⟨_, call_seal hw hopen p, ?_⟩, fun b resp h => ?_,
    fun blob => ?_⟩
  · exact (unseal_ok_iff hw hopen').2 ⟨_, fromBytes_toBytes hw.blob _, rfl, rfl⟩
  · exact (unseal_ok_iff hw hopen).1 h
  · constructor
    · rintro ⟨resp, h⟩
      obtain ⟨blob', hblob, htee, -⟩ := (unseal_ok_iff hw hopen).1 h
      rw [fromBytes_toBytes hw.blob] at hblob
      cases hblob
      exact htee
    · intro htee
      exact ⟨_, (unseal_ok_iff hw hopen).2 ⟨blob, fromBytes_toBytes hw.blob blob, htee, rfl⟩⟩

def sampleSession : TrustZoneEnclave := ⟨.secureDefault, 1, true⟩

theorem secure_world_text : ∃ blob,
    call (textWire noFloats) sampleSession ⟨1, .sealData, [7]⟩ = .ok ⟨true, "", blob⟩ ∧
    call (textWire noFloats) sampleSession ⟨1, .unsealData, blob⟩ = .ok ⟨true, "", [7]⟩ :=
  (@secure_world Unit (textWire noFloats) (carries_textWire noFloats_lawful) .secureDefault .secureDefault sampleSession
    sampleSession rfl rfl).2.1 [7]

/-! ## Its report -/

/-- the data of a report of the application has no marker -/
theorem no_marker : ¬ formatMarker <+: List.replicate 256 0 := by
  rintro ⟨rest, h⟩
  have hhead : (formatMarker ++ rest).head? = some 0 := by
    rw [h]
    rfl
  have hmarker : (formatMarker ++ rest).head? = some 84 := rfl
  rw [hmarker] at hhead
  cases hhead

end AbirGuard.Rust.TrustZone
