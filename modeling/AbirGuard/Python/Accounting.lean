/-
Is every use of a key of the Python vault in the audit log and in the usage counts?

Without FIPS mode a store and a retrieval log and count on the one way on which they return. In FIPS mode the store returns
before either, and the retrieval after its log entry but before the count.

- `audit_grows`: no call takes anything out of the audit log.
- `accounted_iff`: over the runs of a vault, every store and every retrieval that returns is logged once and counted once if and
  only if none returns in FIPS mode.
-/
import AbirGuard.Python.AuditChain
import AbirGuard.Python.LiveKeys

namespace AbirGuard.Python

open AbirGuard.Core Raise

/-! ## Entries of one kind -/

namespace AuditLogger

/-- the number of entries with this action for this id -/
def countOf (action keyId : Text) (entries : List AuditEntry) : ℕ :=
  entries.countP fun entry => hasString "action" action entry && hasString "key_id" keyId entry

variable {l : Libs} {η : Host}

/-- the last entry after a call of the log -/
theorem log_eq (action : String) (keyId : Text) (success : Bool) (details : Text) (entries : List AuditEntry) :
    ∃ entry, log l η action keyId success details entries = entries ++ [entry] ∧
      entry.get (Text.ofString "action") = some (.str action) ∧ entry.get (Text.ofString "key_id") = some (.str keyId) := by
  obtain ⟨e, heq, -, hget⟩ := append_eq (l := l) entries
    ⟨η.clock (.audit action), .str action, .str keyId, .bool success, .str details⟩
  exact ⟨e, heq, hget⟩

/-- a call of the log counts for its own action and id -/
theorem countOf_log (action' keyId' : Text) (action : String) (keyId : Text) (success : Bool) (details : Text)
    (entries : List AuditEntry) : countOf action' keyId' (log l η action keyId success details entries) =
      countOf action' keyId' entries + if Text.ofString action = action' ∧ keyId = keyId' then 1 else 0 := by
  obtain ⟨entry, he, haction, hkey⟩ := log_eq (l := l) (η := η) action keyId success details entries
  rw [he, countOf, List.countP_append, List.countP_singleton, hasString, hasString, haction, hkey]
  simp [countOf]

end AuditLogger

namespace Vault

open AuditLogger

/-! ## Model -/

def encryptCount (s : Session) (keyId : Text) : Option ℕ := ((keyState s).metadata keyId).map KeyMetadata.encryptCount

def decryptCount (s : Session) (keyId : Text) : Option ℕ := ((keyState s).metadata keyId).map KeyMetadata.decryptCount

/-- the log is extended, by one entry of this kind among others -/
def LoggedOnce (action keyId : Text) (s t : Session) : Prop :=
  s.vault.audit <+: t.vault.audit ∧ countOf action keyId t.vault.audit = countOf action keyId s.vault.audit + 1

/-- a store or retrieval that returns is logged once and counted once; the counts restart with a new key -/
def Accounted (l : Libs) (s : Session) (c : Host × Call) : Prop :=
  match c.2 with
  | .store ηRotate keyId p => (∃ ct, (run (store l c.1 ηRotate keyId p) s).1 = .ok ct) →
      LoggedOnce "encrypt" keyId s (step l s c) ∧
        ∃ n, (if Ends keyId s c then n = 0 else encryptCount s keyId = some n) ∧ encryptCount (step l s c) keyId = some (n + 1)
  | .retrieve keyId ct => (∃ p, (run (retrieve l c.1 keyId ct) s).1 = .ok p) →
      LoggedOnce "decrypt" keyId s (step l s c) ∧
        ∃ n, decryptCount s keyId = some n ∧ decryptCount (step l s c) keyId = some (n + 1)
  | _ => True

/-- in FIPS mode every store is refused for its arguments, and no retrieval finds what it can read -/
def UnusedInFips (l : Libs) (s : Session) (c : Host × Call) : Prop :=
  s.vault.fipsMode = true → match c.2 with
    | .store _ keyId p => ¬ (validateKeyId keyId = .ok keyId ∧ p.length ≤ MAX_DATA_SIZE)
    | .retrieve keyId ct => ¬ Readable l s.vault keyId ct
    | _ => True

variable {l : Libs} {η : Host}

/-! ## What calls do to the audit log -/

/-- the actions of the entries that a call may make -/
def Call.actions : Call → List String
  | .generateKeypair _ => ["keygen"]
  | .store _ _ _ => ["canary_access", "keygen", "key_rotation", "encrypt"]
  | .retrieve _ _ => ["canary_breach", "attestation_failed", "attestation_error", "decrypt"]
  | .removeKeypair _ => ["delete_key"]
  | .clearCache => ["clear_cache"]
  | .rotateKey _ => ["keygen", "key_rotation"]
  | .addCanary => ["canary_plant"]
  | .checkCanary => ["canary_breach"]
  | .enableFipsMode => ["fips_enabled"]
  | .disableFipsMode => ["fips_disabled"]
  | .registerKey _ _ _ | .verifyRuntimeIntegrity _ | .computeProof _ _ | .generateChallenge | .registerBinary _ _ => []

/-- a relation that allows these, and that every change elsewhere than in the log has, is kept by the call -/
theorem moves_call {R : Session → Session → Prop} {actions : String → Prop} (ha : Allows l R actions)
    (haudit : ∀ s t, t.vault.audit = s.vault.audit → R s t) (c : Call) (hactions : ∀ action ∈ c.actions, actions action) :
    Moves R (c.run l η) := by
  -- the attestation may change, but without a trace in the log
  have hsilent : ∀ g : Vault → Vault, (∀ v, (g v).audit = v.audit) → Moves R (update g) :=
    fun g hg => moves_modify fun s => haudit _ _ (hg s.vault)
  cases c with
  | generateKeypair keyId => exact moves_ignore ha (moves_generateKeypair ha (hactions _ (by simp [Call.actions])) keyId)
  | store ηRotate keyId p =>
    simp only [Call.actions, List.forall_mem_cons] at hactions
    obtain ⟨haccess, hkeygen, hrotation, hencrypt, -⟩ := hactions
    exact moves_ignore ha (moves_store ha haccess hkeygen hrotation hencrypt ηRotate keyId p)
  | retrieve keyId ct =>
    simp only [Call.actions, List.forall_mem_cons] at hactions
    obtain ⟨hbreach, hfailed, herror, hdecrypt, -⟩ := hactions
    exact moves_ignore ha (moves_retrieve ha hbreach hfailed herror hdecrypt keyId ct)
  | removeKeypair keyId => exact moves_removeKeypair ha (hactions _ (by simp [Call.actions])) keyId
  | clearCache => exact moves_clearCache ha (hactions _ (by simp [Call.actions]))
  | rotateKey keyId =>
    simp only [Call.actions, List.forall_mem_cons] at hactions
    exact moves_rotateKey ha hactions.1 hactions.2.1 keyId
  | registerKey keyId maxLifetime maxOperations => exact moves_rotation ha _
  | addCanary => exact moves_ignore ha (moves_addCanary ha (hactions _ (by simp [Call.actions])))
  | checkCanary => exact moves_ignore ha (moves_checkCanary ha (hactions _ (by simp [Call.actions])))
  | enableFipsMode => exact moves_enableFipsMode ha (hactions _ (by simp [Call.actions]))
  | disableFipsMode => exact moves_disableFipsMode ha (hactions _ (by simp [Call.actions]))
  | verifyRuntimeIntegrity challenge =>
    refine moves_ignore ha (moves_bind ha.trans (moves_get ha) fun s => ?_)
    split
    · exact moves_pure ha _
    · refine moves_bind ha.trans (hsilent _ fun _ => rfl) fun _ => ?_
      exact moves_bind ha.trans (moves_lift ha _) fun _ => moves_lift ha _
  | computeProof challenge expected =>
    refine moves_bind ha.trans (moves_get ha) fun s => ?_
    exact moves_bind ha.trans (hsilent _ fun _ => rfl) fun _ => moves_lift ha _
  | generateChallenge => exact hsilent _ fun _ => rfl
  | registerBinary name sha256Hash => exact hsilent _ fun _ => rfl

/-- whatever a program logs, it only adds to the log -/
theorem allows_growth : Allows l (fun s t => s.vault.audit <+: t.vault.audit) fun _ => True where
  silent s t h _ := by
    rw [h]
  logged _ _ _ _ _ _ _ := List.prefix_append _ _
  trans _ _ _ h h' := h.trans h'

theorem grows_call (c : Call) : Moves (fun s t => s.vault.audit <+: t.vault.audit) (c.run l η) :=
  moves_call allows_growth (fun s t h => by rw [h]) c fun _ _ => trivial

/-- **No run takes anything out of the audit log.** -/
theorem audit_grows (s : Session) (run : List (Host × Call)) : s.vault.audit <+: (Run.after (step l) s run).vault.audit := by
  induction run generalizing s with
  | nil => exact List.prefix_refl _
  | cons c run ih => exact (grows_call c.2 s).trans (ih (step l s c))

/-! ## What is not an entry of a kind -/

abbrev entriesOf (action keyId : Text) (s : Session) : ℕ := countOf action keyId s.vault.audit

/-- entries of other actions are not counted -/
theorem allows_entriesOf (action keyId : Text) :
    Allows l (fun s t => entriesOf action keyId t = entriesOf action keyId s) fun action' => Text.ofString action' ≠ action where
  silent s t h _ := congrArg (countOf action keyId) h
  logged η action' keyId' success details s h := by
    dsimp only [entriesOf]
    rw [countOf_log, if_neg fun he => h he.1, Nat.add_zero]
  trans _ _ _ h h' := h'.trans h

/-- nothing that comes before an encryption is an encryption -/
theorem entriesOf_prepareKey (ηRotate : Host) (keyId : Text) (s : Session) :
    entriesOf "encrypt" keyId (run (prepareKey l η ηRotate keyId) s).2 = entriesOf "encrypt" keyId s :=
  moves_prepareKey (allows_entriesOf "encrypt" keyId) (by decide +kernel) (by decide +kernel) (by decide +kernel) ηRotate keyId s

/-- nor is anything before a decryption a decryption -/
theorem entriesOf_checkAccess (keyId : Text) (s : Session) :
    entriesOf "decrypt" keyId (run (checkAccess l η keyId) s).2 = entriesOf "decrypt" keyId s :=
  moves_checkAccess (allows_entriesOf "decrypt" keyId) (by decide +kernel) (by decide +kernel) (by decide +kernel) keyId s

/-! ## Accounting -/

/-- a store, from the state in which its id was prepared -/
theorem store_from_prepared {s : Session} (h : (keyState s).Coherent) (ηRotate : Host) {keyId : Text} {p : Bytes}
    (hid : validateKeyId keyId = .ok keyId) (hp : p.length ≤ MAX_DATA_SIZE) :
    ∃ t, step l s (η, .store ηRotate keyId p) = (run (encryptInMode l η keyId p) t).2 ∧ (keyState t).Coherent ∧
      keyState t = (keyState s).prepare η ηRotate keyId ∧ t.vault.usesFips = s.vault.fipsMode ∧
      entriesOf "encrypt" keyId t = entriesOf "encrypt" keyId s := by
  obtain ⟨t, ht, hview⟩ := run_prepareKey (l := l) (η := η) ηRotate hid s
  have hcoherent : (keyState t).Coherent := hview ▸ h.prepare hid ηRotate
  have hmode : t.vault.fipsMode = s.vault.fipsMode := by
    have hmodes := KeyState.modes_prepare η (keyState s) keyId ηRotate
    rw [← hview] at hmodes
    exact congrArg Prod.fst hmodes
  have hcount := entriesOf_prepareKey (l := l) (η := η) ηRotate keyId s
  rw [ht] at hcount
  refine ⟨t, ?_, hcoherent, hview, (usesFips_eq hcoherent).trans hmode, hcount⟩
  rw [step_store, run_store ηRotate hid hp, run_bind_of_ok ht]

theorem accounted_store {s : Session} (h : (keyState s).Coherent) (hmode : s.vault.fipsMode = false) (ηRotate : Host)
    {keyId : Text} {p : Bytes} (hid : validateKeyId keyId = .ok keyId) (hp : p.length ≤ MAX_DATA_SIZE) :
    Accounted l s (η, .store ηRotate keyId p) := by
  intro _
  obtain ⟨t, hstep, hcoherent, hview, hplain, hcount⟩ := store_from_prepared (l := l) (η := η) h ηRotate hid hp
  rw [hmode] at hplain
  have hnew : step l s (η, .store ηRotate keyId p) = { t with vault := { t.vault with
      audit := AuditLogger.log l η "encrypt" keyId true [] t.vault.audit
      rotationMgr := t.vault.rotationMgr.map (·.recordUsage η keyId .encrypt) } } := by
    rcases encryptInMode_plain (l := l) (η := η) hplain keyId hp with ⟨kp, -, hrun⟩ | ⟨hnone, -⟩
    · rw [hstep, hrun]
    · have hget := h.get_prepare (η := η) hid ηRotate
      rw [← hview, ← hcoherent.contains_iff] at hget
      obtain ⟨kp, hkp⟩ := Dict.contains_iff.1 hget
      exact absurd (hnone.symm.trans hkp) (by simp)
  refine ⟨⟨?_, ?_⟩, ?_⟩
  · exact grows_call (l := l) (η := η) (.store ηRotate keyId p) s
  · rw [hnew]
    dsimp only
    rw [countOf_log, if_pos ⟨rfl, rfl⟩]
    exact congrArg (· + 1) hcount
  · obtain ⟨data, hdata, hbase⟩ := metadata_prepare (η := η) h ηRotate hid hp
    have hused : encryptCount (step l s (η, .store ηRotate keyId p)) keyId = some (data.encryptCount + 1) := by
      rw [encryptCount, metadata_store h ηRotate hid hp, hdata, hmode]
      rfl
    refine ⟨data.encryptCount, ?_, hused⟩
    rcases hbase with ⟨hends, η', rfl⟩ | ⟨hkept, hold⟩
    · rw [if_pos hends]
      rfl
    · rw [if_neg hkept, encryptCount, hold]
      rfl

/-- in FIPS mode a store leaves no entry -/
theorem not_accounted_store {s : Session} (h : (keyState s).Coherent) (hmode : s.vault.fipsMode = true) (ηRotate : Host)
    {keyId : Text} {p : Bytes} (hid : validateKeyId keyId = .ok keyId) (hp : p.length ≤ MAX_DATA_SIZE) :
    ¬ Accounted l s (η, .store ηRotate keyId p) := by
  intro haccounted
  obtain ⟨⟨-, hlogged⟩, -⟩ := haccounted (store_returns h ηRotate hid hp)
  obtain ⟨t, hstep, -, -, hfips, hcount⟩ := store_from_prepared (l := l) (η := η) h ηRotate hid hp
  obtain ⟨⟨f, hrun⟩, -⟩ := encryptInMode_fips (l := l) (η := η) (hfips.trans hmode) keyId hp
  rw [hstep, hrun] at hlogged
  exact absurd (hcount.symm.trans hlogged) (Nat.succ_ne_self _).symm

/-- a retrieval that returns, from the state in which the access was checked -/
theorem retrieve_from_checked {s : Session} {keyId : Text} {ct : Ciphertext} (hread : Readable l s.vault keyId ct) :
    ∃ entries key p, step l s (η, .retrieve keyId ct) =
        (run (decryptInMode l η keyId ct) { s with vault := { s.vault with audit := entries } }).2 ∧
      (run (decryptInMode l η keyId ct) { s with vault := { s.vault with audit := entries } }).1 = .ok p ∧
      s.vault.secretKeys.get keyId = some key ∧ validateKeyId keyId = .ok keyId ∧
      countOf "decrypt" keyId entries = entriesOf "decrypt" keyId s := by
  obtain ⟨hid, key, p, hkey, hopen⟩ := hread
  obtain ⟨entries, hcheck⟩ := run_checkAccess (l := l) (η := η) keyId s
  have hcount := entriesOf_checkAccess (l := l) (η := η) keyId s
  rw [hcheck] at hcount
  refine ⟨entries, key, p, ?_, decryptInMode_ok_iff.2 ⟨key, hkey, hopen⟩, hkey, hid, hcount⟩
  rw [step_retrieve, run_retrieve hid hkey, run_bind_of_ok hcheck]

theorem accounted_retrieve {s : Session} (h : (keyState s).Coherent) (hmode : s.vault.fipsMode = false) {keyId : Text}
    {ct : Ciphertext} (hread : Readable l s.vault keyId ct) : Accounted l s (η, .retrieve keyId ct) := by
  intro _
  obtain ⟨entries, key, p, hstep, hok, hkey, hid, hcount⟩ := retrieve_from_checked (l := l) (η := η) hread
  have hplain : s.vault.usesFips = false := (usesFips_eq h).trans hmode
  rw [decryptInMode_plain (s := { s with vault := { s.vault with audit := entries } }) hplain hkey] at hstep hok
  cases hdecrypt : HybridEncryptor.decrypt l ct key with
  | error e =>
    rw [hdecrypt] at hok
    cases hok
  | ok q =>
    rw [hdecrypt] at hstep
    refine ⟨⟨grows_call (l := l) (η := η) (.retrieve keyId ct) s, ?_⟩, ?_⟩
    · rw [hstep]
      dsimp only
      rw [countOf_log, if_pos ⟨rfl, rfl⟩, hcount]
    · obtain ⟨data, hdata⟩ := h.metadata_isSome hid hkey
      refine ⟨data.decryptCount, by rw [decryptCount, hdata]; rfl, ?_⟩
      rw [hstep, decryptCount, show keyState _ = (keyState s).record η .decrypt keyId from rfl, KeyState.metadata_record, hdata]
      rfl

/-- in FIPS mode a retrieval leaves the counts as they are -/
theorem not_accounted_retrieve {s : Session} (h : (keyState s).Coherent) (hmode : s.vault.fipsMode = true) {keyId : Text}
    {ct : Ciphertext} (hread : Readable l s.vault keyId ct) : ¬ Accounted l s (η, .retrieve keyId ct) := by
  intro haccounted
  have hreturns : ∃ p, (run (retrieve l η keyId ct) s).1 = .ok p := by
    obtain ⟨hid, key, p, hkey, hopen⟩ := hread
    exact ⟨p, retrieve_ok_iff.2 ⟨hid, key, hkey, hopen⟩⟩
  obtain ⟨-, n, hbefore, hafter⟩ := haccounted hreturns
  obtain ⟨entries, key, p, hstep, -⟩ := retrieve_from_checked (l := l) (η := η) hread
  have hfips : s.vault.usesFips = true := (usesFips_eq h).trans hmode
  obtain ⟨f, entries', hrun, -⟩ := decryptInMode_fips (l := l) (η := η)
    (s := { s with vault := { s.vault with audit := entries } }) hfips keyId ct
  rw [hstep, hrun] at hafter
  exact absurd (Option.some.inj (hbefore.symm.trans hafter)) (by omega)

/-- **A call is accounted for if and only if it does not use a key in FIPS mode.** -/
theorem accounted_step_iff {s : Session} (h : (keyState s).Coherent) (c : Host × Call) :
    Accounted l s c ↔ UnusedInFips l s c := by
  obtain ⟨η, c⟩ := c
  cases hmode : s.vault.fipsMode with
  | false =>
    refine iff_of_true ?_ fun hfips => absurd (hmode.symm.trans hfips) Bool.false_ne_true
    cases c with
    | store ηRotate keyId p =>
      rintro ⟨ct, hct⟩
      obtain ⟨⟨hid, hp⟩, -⟩ := store_ok_iff.1 hct
      exact accounted_store h hmode ηRotate hid hp ⟨ct, hct⟩
    | retrieve keyId ct =>
      rintro ⟨p, hp⟩
      obtain ⟨hid, key, hkey, hopen⟩ := retrieve_ok_iff.1 hp
      exact accounted_retrieve h hmode ⟨hid, key, p, hkey, hopen⟩ ⟨p, hp⟩
    | _ => trivial
  | true =>
    cases c with
    | store ηRotate keyId p =>
      refine ⟨fun ha _ hok => not_accounted_store h hmode ηRotate hok.1 hok.2 ha, fun hu hct => ?_⟩
      obtain ⟨ct, hct⟩ := hct
      exact absurd (store_ok_iff.1 hct).1 (hu hmode)
    | retrieve keyId ct =>
      refine ⟨fun ha _ hread => not_accounted_retrieve h hmode hread ha, fun hu hp => ?_⟩
      obtain ⟨p, hp⟩ := hp
      obtain ⟨hid, key, hkey, hopen⟩ := retrieve_ok_iff.1 hp
      exact absurd ⟨hid, key, p, hkey, hopen⟩ (hu hmode)
    | _ => exact iff_of_true trivial fun _ => trivial

/-- **Every use of a key is logged and counted, all along a run, if and only if none is in FIPS mode.** -/
theorem accounted_iff (l : Libs) (η : Host) (fipsMode mlkemFips : Bool) (run : List (Host × Call)) :
    Run.EachStep (step l) (Accounted l) (start η fipsMode mlkemFips) run ↔
      Run.EachStep (step l) (UnusedInFips l) (start η fipsMode mlkemFips) run :=
  Run.eachStep_iff (fun s => (keyState s).Coherent) (fun c _ _ h => accounted_step_iff h c)
    (fun c _ _ h _ => coherent_step h c) (coherent_start fipsMode mlkemFips)

/-- a store in FIPS mode returns, and is in neither place -/
theorem unaccounted_store :
    (run (store zeroLibs zeroHost zeroHost "a" [7]) (start zeroHost true false)).1 = .ok storedCiphertext ∧
    entriesOf "encrypt" "a" (stored true) = 0 ∧ encryptCount (stored true) "a" = some 0 ∧
    ¬ Accounted zeroLibs (start zeroHost true false) (zeroHost, .store zeroHost "a" [7]) := by
  refine ⟨by decide +kernel, by decide +kernel, by decide +kernel, ?_⟩
  exact not_accounted_store (coherent_start true false) rfl zeroHost (by decide +kernel) (by decide +kernel)

end Vault

end AbirGuard.Python
