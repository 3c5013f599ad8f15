/-
What the programs of a Python vault leave alone: one rule for each program, over the relations between the state before and the
state after.

A relation that allows the entries of some actions in the audit log, and every change of something else than the log and the
attestation, is kept by each program that writes no other entries.
-/
import AbirGuard.Python.Vault

namespace AbirGuard.Python.Vault

open AbirGuard.Core Raise

/-- the verifier and the proof -/
def trust (s : Session) : Option AttestationVerifier × IntegrityProof := (s.vault.attestationVerifier, s.vault.integrityProof)

/-- a relation that holds over changes elsewhere than in the audit log and the attestation, and over log entries of these actions -/
structure Allows (l : Libs) (R : Session → Session → Prop) (actions : String → Prop) : Prop where
  silent : ∀ s t, t.vault.audit = s.vault.audit → trust t = trust s → R s t
  logged : ∀ η action keyId success details s, actions action → R s { s with vault := { s.vault with
    audit := AuditLogger.log l η action keyId success details s.vault.audit } }
  trans : ∀ s t u, R s t → R t u → R s u

variable {l : Libs} {R : Session → Session → Prop} {actions : String → Prop} {η : Host}

theorem Allows.refl (h : Allows l R actions) (s : Session) : R s s := h.silent s s rfl rfl

theorem moves_pure (h : Allows l R actions) {α : Type} (a : α) : Moves R (pure a : VaultM α) :=
  moves_of_eq h.refl fun _ => rfl

theorem moves_throw (h : Allows l R actions) {α : Type} (e : Exc) : Moves R (throw e : VaultM α) :=
  moves_of_eq h.refl fun _ => rfl

theorem moves_lift (h : Allows l R actions) {α : Type} (x : Except Exc α) : Moves R (lift x : VaultM α) :=
  moves_of_eq h.refl fun _ => rfl

theorem moves_get (h : Allows l R actions) : Moves R (get : VaultM Session) := moves_of_eq h.refl fun _ => rfl

theorem moves_update (h : Allows l R actions) {g : Vault → Vault} (ha : ∀ v, (g v).audit = v.audit)
    (hv : ∀ v, (g v).attestationVerifier = v.attestationVerifier) (hp : ∀ v, (g v).integrityProof = v.integrityProof) :
    Moves R (update g) := moves_modify fun s => h.silent _ _ (ha s.vault) (Prod.ext (hv s.vault) (hp s.vault))

theorem moves_log (h : Allows l R actions) {action : String} (ha : actions action) (keyId : Text) (success : Bool)
    (details : Text) : Moves R (log l η action keyId success details) :=
  moves_modify fun s => h.logged η action keyId success details s ha

theorem moves_rotation (h : Allows l R actions) (g : KeyRotationManager → KeyRotationManager) : Moves R (rotation g) :=
  moves_update h (fun _ => rfl) (fun _ => rfl) fun _ => rfl

theorem moves_withEncryptor (h : Allows l R actions) {α : Type} (f : FIPSEncryptor) (x : Raise Exc FIPSEncryptor α) :
    Moves R (withEncryptor f x) := fun _ => h.silent _ _ rfl rfl

theorem moves_generateKeypair (h : Allows l R actions) (hkeygen : actions "keygen") (keyId : Text) :
    Moves R (generateKeypair l η keyId) := by
  refine moves_bind h.trans (moves_lift h _) fun id => ?_
  refine moves_bind h.trans (moves_update h (fun _ => rfl) (fun _ => rfl) fun _ => rfl) fun _ => ?_
  refine moves_bind h.trans (moves_log h hkeygen _ _ _) fun _ => ?_
  exact moves_bind h.trans (moves_rotation h _) fun _ => moves_pure h _

theorem moves_rotateKey (h : Allows l R actions) (hkeygen : actions "keygen") (hrotation : actions "key_rotation") (keyId : Text) :
    Moves R (rotateKey l η keyId) := by
  refine moves_bind h.trans (moves_get h) fun s => ?_
  split_ifs
  · exact moves_pure h _
  · refine moves_bind h.trans (moves_when h.refl (moves_update h (fun _ => rfl) (fun _ => rfl) fun _ => rfl)) fun _ => ?_
    exact moves_bind h.trans (moves_generateKeypair h hkeygen _) fun _ => moves_log h hrotation _ _ _

theorem moves_encryptInMode (h : Allows l R actions) (hencrypt : actions "encrypt") (keyId : Text) (plaintext : Bytes) :
    Moves R (encryptInMode l η keyId plaintext) := by
  refine moves_bind h.trans (moves_get h) fun s => ?_
  split
  · refine moves_bind h.trans (moves_lift h _) fun _ => ?_
    exact moves_bind h.trans (moves_withEncryptor h _ _) fun _ => moves_pure h _
  · refine moves_bind h.trans (moves_lift h _) fun _ => moves_bind h.trans (moves_lift h _) fun _ => ?_
    refine moves_bind h.trans (moves_log h hencrypt _ _ _) fun _ => ?_
    exact moves_bind h.trans (moves_rotation h _) fun _ => moves_pure h _

theorem moves_store (h : Allows l R actions) (haccess : actions "canary_access") (hkeygen : actions "keygen")
    (hrotation : actions "key_rotation") (hencrypt : actions "encrypt") (ηRotate : Host) (keyId : Text) (plaintext : Bytes) :
    Moves R (store l η ηRotate keyId plaintext) := by
  refine moves_bind h.trans (moves_lift h _) fun id => moves_bind h.trans (moves_lift h _) fun _ => ?_
  refine moves_bind h.trans (moves_get h) fun s => ?_
  refine moves_bind h.trans (moves_when h.refl (moves_log h haccess _ _ _)) fun _ => ?_
  refine moves_bind h.trans (moves_when h.refl ?_) fun _ => ?_
  · exact moves_bind h.trans (moves_generateKeypair h hkeygen _) fun _ => moves_pure h _
  · refine moves_bind h.trans (moves_get h) fun s => ?_
    exact moves_bind h.trans (moves_when h.refl (moves_rotateKey h hkeygen hrotation _)) fun _ =>
      moves_encryptInMode h hencrypt _ _

theorem moves_checkAttestation (h : Allows l R actions) (hfailed : actions "attestation_failed")
    (herror : actions "attestation_error") (keyId : Text) : Moves R (checkAttestation l η keyId) := by
  refine moves_bind h.trans (moves_get h) fun s => ?_
  split
  · exact moves_pure h _
  · apply moves_tryCatch h.trans
    · apply moves_bind h.trans
      · exact moves_lift h _
      · intro valid
        apply moves_when h.refl
        exact moves_bind h.trans (moves_log h hfailed _ _ _) fun _ => moves_throw h _
    · exact fun e => moves_log h herror _ _ _

theorem moves_decryptInMode (h : Allows l R actions) (hdecrypt : actions "decrypt") (keyId : Text) (ct : Ciphertext) :
    Moves R (decryptInMode l η keyId ct) := by
  refine moves_bind h.trans (moves_get h) fun s => moves_bind h.trans (moves_lift h _) fun key => ?_
  split
  · refine moves_bind h.trans (moves_lift h _) fun _ => moves_bind h.trans (moves_lift h _) fun _ => ?_
    refine moves_bind h.trans (moves_lift h _) fun _ => moves_bind h.trans (moves_withEncryptor h _ _) fun _ => ?_
    exact moves_bind h.trans (moves_log h hdecrypt _ _ _) fun _ => moves_pure h _
  · refine moves_bind h.trans (moves_lift h _) fun _ => moves_bind h.trans (moves_log h hdecrypt _ _ _) fun _ => ?_
    exact moves_bind h.trans (moves_rotation h _) fun _ => moves_pure h _

theorem moves_retrieve (h : Allows l R actions) (hbreach : actions "canary_breach") (hfailed : actions "attestation_failed")
    (herror : actions "attestation_error") (hdecrypt : actions "decrypt") (keyId : Text) (ct : Ciphertext) :
    Moves R (retrieve l η keyId ct) := by
  refine moves_bind h.trans (moves_lift h _) fun id => moves_bind h.trans (moves_get h) fun s => ?_
  split_ifs
  · refine moves_bind h.trans (moves_when h.refl (moves_log h hbreach _ _ _)) fun _ => ?_
    exact moves_bind h.trans (moves_checkAttestation h hfailed herror _) fun _ => moves_decryptInMode h hdecrypt _ _
  · exact moves_bind h.trans (moves_log h hdecrypt _ _ _) fun _ => moves_throw h _

theorem moves_checkCanary (h : Allows l R actions) (hbreach : actions "canary_breach") : Moves R (checkCanary l η) := by
  refine moves_bind h.trans (moves_get h) fun s => ?_
  split
  · exact moves_bind h.trans (moves_log h hbreach _ _ _) fun _ => moves_pure h _
  · exact moves_pure h _

theorem moves_removeKeypair (h : Allows l R actions) (hdelete : actions "delete_key") (keyId : Text) :
    Moves R (removeKeypair l η keyId) := by
  refine moves_bind h.trans (moves_lift h _) fun _ => ?_
  exact moves_bind h.trans (moves_update h (fun _ => rfl) (fun _ => rfl) fun _ => rfl) fun _ => moves_log h hdelete _ _ _

theorem moves_clearCache (h : Allows l R actions) (hclear : actions "clear_cache") : Moves R (clearCache l η) :=
  moves_bind h.trans (moves_update h (fun _ => rfl) (fun _ => rfl) fun _ => rfl) fun _ => moves_log h hclear _ _ _

theorem moves_addCanary (h : Allows l R actions) (hplant : actions "canary_plant") : Moves R (addCanary l η) := by
  refine moves_bind h.trans (moves_update h (fun _ => rfl) (fun _ => rfl) fun _ => rfl) fun _ => ?_
  exact moves_bind h.trans (moves_log h hplant _ _ _) fun _ => moves_pure h _

theorem moves_enableFipsMode (h : Allows l R actions) (henabled : actions "fips_enabled") : Moves R (enableFipsMode l η) := by
  refine moves_bind h.trans (moves_update h (fun _ => rfl) (fun _ => rfl) fun _ => rfl) fun _ => ?_
  exact moves_bind h.trans (moves_modify fun s => h.silent _ _ rfl rfl) fun _ => moves_log h henabled _ _ _

theorem moves_disableFipsMode (h : Allows l R actions) (hdisabled : actions "fips_disabled") :
    Moves R (disableFipsMode l η) := by
  refine moves_bind h.trans (moves_update h (fun _ => rfl) (fun _ => rfl) fun _ => rfl) fun _ => ?_
  exact moves_bind h.trans (moves_modify fun s => h.silent _ _ rfl rfl) fun _ => moves_log h hdisabled _ _ _

end AbirGuard.Python.Vault
