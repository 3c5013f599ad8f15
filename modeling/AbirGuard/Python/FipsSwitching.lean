/-
What a switch of the FIPS mode does to the data of a Python vault.

The ciphertext does not say in which mode it was made: the mode at the time of the retrieval decides whether it is opened
under the secret itself or under the key that HKDF derives from it. A run may switch the mode by the calls of the vault or by
the `fips_mode` method of its MCP server.

- `retrieve_after_switching_iff`: over every run in which the key stays live, a stored text is read back if and only if the mode is
  the one it was stored in, or HKDF maps the secret to itself.
- `stored_data_lost`: a text that is stored, and not readable once FIPS mode is on.
-/
import AbirGuard.Python.JsonValue
import AbirGuard.Python.LiveKeys

namespace AbirGuard.Python.Vault

open AbirGuard.Core JsonValue Raise

/-! ## Model -/

section

variable (l : Libs) (η : Host)

/-- `_dispatch` of the method `fips_mode`; the result is the mode afterwards -/
def dispatchFipsMode (params : Dict Text (Json ℚ)) : VaultM Bool := do
  let enable := (params.get (Text.ofString "enable")).getD (.bool false)
  if truthy enable then enableFipsMode l η else disableFipsMode l η
  let s ← get
  return s.vault.fipsMode

/-- `McpServer.handle` of such a request: the audit log gets an entry of the server -/
def handleFipsMode (params : Dict Text (Json ℚ)) : VaultM Bool := do
  let result ← dispatchFipsMode l η params
  log l η "mcp" "fips_mode" true []
  return result

end

/-- a call on the vault, or a request to its server -/
inductive Event where
  | call (c : Call)
  | mcpFipsMode (params : Dict Text (Json ℚ))

def eventStep (l : Libs) (s : Session) : Host × Event → Session
  | (η, .call c) => step l s (η, c)
  | (η, .mcpFipsMode params) => (Raise.run (handleFipsMode l η params) s).2

/-- only a call ends a key -/
def EndsByEvent (keyId : Text) (s : Session) : Host × Event → Prop
  | (η, .call c) => Ends keyId s (η, c)
  | (_, .mcpFipsMode _) => False

variable {l : Libs} {η : Host}

/-! ## Runs with switches -/

theorem keyState_handleFipsMode (params : Dict Text (Json ℚ)) (s : Session) :
    ∃ on, keyState (Raise.run (handleFipsMode l η params) s).2 = (keyState s).switchFips on := by
  refine ⟨truthy ((params.get (Text.ofString "enable")).getD (.bool false)), ?_⟩
  rw [handleFipsMode, dispatchFipsMode]
  cases truthy ((params.get (Text.ofString "enable")).getD (.bool false)) <;> rfl

theorem coherent_eventStep {s : Session} (h : (keyState s).Coherent) (e : Host × Event) :
    (keyState (eventStep l s e)).Coherent := by
  obtain ⟨η, c | params⟩ := e
  · exact coherent_step h (η, c)
  · obtain ⟨on, he⟩ := keyState_handleFipsMode (l := l) (η := η) params s
    rw [eventStep, he]
    exact h.switchFips on

theorem kept_eventStep {s : Session} (h : (keyState s).Coherent) {e : Host × Event} {id : Text} (he : ¬ EndsByEvent id s e) :
    (eventStep l s e).vault.secretKeys.get id = s.vault.secretKeys.get id := by
  obtain ⟨η, c | params⟩ := e
  · exact kept_step h he
  · obtain ⟨on, hview⟩ := keyState_handleFipsMode (l := l) (η := η) params s
    exact congrArg (fun w => w.secretKeys.get id) hview

theorem coherent_after_events {s : Session} (h : (keyState s).Coherent) (run : List (Host × Event)) :
    (keyState (Run.after (eventStep l) s run)).Coherent := by
  have hstep : ∀ e ∈ run, ∀ s, (keyState s).Coherent → (keyState (eventStep l s e)).Coherent :=
    fun e _ s h => coherent_eventStep h e
  exact Run.after_inv hstep h

/-- a live key keeps its secret, whatever happens to the mode -/
theorem kept_after_events {s : Session} (h : (keyState s).Coherent) {run : List (Host × Event)} {id : Text}
    (hrun : Run.EachStep (eventStep l) (fun s e => ¬ EndsByEvent id s e) s run) :
    (Run.after (eventStep l) s run).vault.secretKeys.get id = s.vault.secretKeys.get id := by
  induction run generalizing s with
  | nil => rfl
  | cons e run ih =>
    obtain ⟨he, hrun⟩ := Run.eachStep_cons.1 hrun
    rw [Run.after_cons, ih (coherent_eventStep h e) hrun]
    exact kept_eventStep h he

/-- the key of one mode opens what was sealed under that of the other only where HKDF maps the secret to itself -/
theorem modeKey_eq_iff {fips fips' : Bool} {σ : Bytes} :
    modeKey l fips' σ = modeKey l fips σ ↔ fips' = fips ∨ HybridEncryptor.aesKey l σ = σ := by
  cases fips <;> cases fips' <;> simp [modeKey, eq_comm]

theorem mem_modeKeys (fips : Bool) (σ : Bytes) : modeKey l fips σ ∈ [σ, HybridEncryptor.aesKey l σ] := by
  cases fips <;> simp [modeKey]

/-- **A stored text is read back if and only if the mode is that of the store again**, or HKDF maps the secret to itself. -/
theorem retrieve_after_switching_iff {fips mlkemFips : Bool} {η₀ : Host} {before later : List (Host × Event)}
    {ηRotate : Host} {keyId : Text} {p : Bytes} {ct : Ciphertext}
    (hct : (run (store l η ηRotate keyId p) (Run.after (eventStep l) (start η₀ fips mlkemFips) before)).1 = .ok ct)
    (hlive : Run.EachStep (eventStep l) (fun s e => ¬ EndsByEvent keyId s e)
      (Run.after (eventStep l) (start η₀ fips mlkemFips) (before ++ [(η, .call (.store ηRotate keyId p))])) later)
    (hbinds : ∀ σ, (Run.after (eventStep l) (start η₀ fips mlkemFips)
        (before ++ [(η, .call (.store ηRotate keyId p))])).vault.secretKeys.get keyId = some σ →
      Binds l id [σ, HybridEncryptor.aesKey l σ] η.nonce.toList p)
    (η' : Host) :
    let stored := Run.after (eventStep l) (start η₀ fips mlkemFips) (before ++ [(η, .call (.store ηRotate keyId p))])
    let last := Run.after (eventStep l) stored later
    (run (retrieve l η' keyId ct) last).1 = .ok p ↔ last.vault.fipsMode = stored.vault.fipsMode ∨
      ∃ σ, stored.vault.secretKeys.get keyId = some σ ∧ HybridEncryptor.aesKey l σ = σ := by
  intro stored last
  have hbefore := coherent_after_events (l := l) (coherent_start (η := η₀) fips mlkemFips) before
  have hstored := coherent_after_events (l := l) (coherent_start (η := η₀) fips mlkemFips)
    (before ++ [(η, .call (.store ηRotate keyId p))])
  have hlast := coherent_after_events (l := l) hstored later
  have hstep : stored = step l (Run.after (eventStep l) (start η₀ fips mlkemFips) before) (η, .store ηRotate keyId p) :=
    Run.after_append ..
  obtain ⟨hid, σ, hσ, rfl⟩ := store_sealed hbefore hct
  rw [← hstep] at hσ
  have hmode : stored.vault.fipsMode = (Run.after (eventStep l) (start η₀ fips mlkemFips) before).vault.fipsMode := by
    rw [hstep]
    exact fipsMode_step _ (by simp [Call.Switches])
  have hkept : last.vault.secretKeys.get keyId = some σ := (kept_after_events hstored hlive).trans hσ
  have hopen : ∀ key, (sealed l η key p).Opens l last.vault.fipsMode σ p ↔
      l.gcmDecrypt (modeKey l last.vault.fipsMode σ) η.nonce.toList (l.gcmEncrypt key η.nonce.toList p) = some p :=
    fun key => opens_sealed_iff (hlast.size keyId σ hkept)
  rw [retrieve_eq_ok_iff hlast, ← hmode]
  constructor
  · rintro ⟨-, σ', hσ', hread⟩
    obtain rfl := Option.some.inj (hkept.symm.trans hσ')
    rw [hopen] at hread
    have hb := hbinds σ hσ _ (mem_modeKeys stored.vault.fipsMode σ) _ (mem_modeKeys last.vault.fipsMode σ)
    rw [id, id, hread] at hb
    split_ifs at hb with heq
    exact (modeKey_eq_iff.1 heq).imp_right fun he => ⟨σ, hσ, he⟩
  · intro hsame
    have heq : modeKey l last.vault.fipsMode σ = modeKey l stored.vault.fipsMode σ := by
      refine modeKey_eq_iff.2 (hsame.imp_right ?_)
      rintro ⟨σ', hσ', he⟩
      obtain rfl := Option.some.inj (hσ.symm.trans hσ')
      exact he
    refine ⟨hid, σ, hkept, (hopen _).2 ?_⟩
    have hb := hbinds σ hσ _ (mem_modeKeys stored.vault.fipsMode σ) _ (mem_modeKeys stored.vault.fipsMode σ)
    rw [id, if_pos rfl] at hb
    rw [heq, hb]

/-! ## One switch -/

/-- HKDF changes every byte, and the tag of a ciphertext is half of its key -/
def switchLibs : Libs :=
  { zeroLibs with
    hkdf := fun _ _ secret => Vector.ofFn fun i : Fin 32 => secret.getD i 0 + 1
    gcmEncrypt := fun key _ p => p ++ key.take 16
    gcmDecrypt := fun key _ c =>
      if c.drop (c.length - 16) = key.take 16 then some (c.take (c.length - 16)) else none }

def enableRequest : Event := .mcpFipsMode (Dict.empty.set (Text.ofString "enable") (.bool true))

/-- what a store of one byte under a returns in a fresh vault without FIPS mode -/
def plainCiphertext : Ciphertext := sealed switchLibs zeroHost (HybridEncryptor.aesKey switchLibs (List.replicate 32 0)) [7]

def storeEvent : Host × Event := (zeroHost, .call (.store zeroHost "a" [7]))

theorem live_of_enable (s : Session) (e : Event) (he : e = enableRequest ∨ e = .call .enableFipsMode) :
    Run.EachStep (eventStep switchLibs) (fun s e => ¬ EndsByEvent "a" s e) s [(zeroHost, e)] := by
  refine Run.eachStep_cons.2 ⟨?_, Run.eachStep_nil _⟩
  rcases he with rfl | rfl <;> simp [EndsByEvent, enableRequest, Ends, KeyState.change]

/-- with FIPS mode on, by either call, the text is lost, though its key is live -/
theorem stored_data_lost :
    (run (store switchLibs zeroHost zeroHost "a" [7]) (start zeroHost false false)).1 = .ok plainCiphertext ∧
    ∀ e, e = enableRequest ∨ e = .call .enableFipsMode →
      Run.EachStep (eventStep switchLibs) (fun s e => ¬ EndsByEvent "a" s e)
        (Run.after (eventStep switchLibs) (start zeroHost false false) [storeEvent]) [(zeroHost, e)] ∧
      (run (retrieve switchLibs zeroHost "a" plainCiphertext)
        (Run.after (eventStep switchLibs) (start zeroHost false false) [storeEvent, (zeroHost, e)])).1 =
        .error ⟨.invalidTag, ""⟩ := by
  refine ⟨by decide +kernel, fun e he => ⟨live_of_enable _ e he, ?_⟩⟩
  rcases he with rfl | rfl <;> decide +kernel

/-- and with FIPS mode off again it is read back -/
theorem retrieve_after_switching_back :
    (run (retrieve switchLibs zeroHost "a" plainCiphertext) (Run.after (eventStep switchLibs) (start zeroHost false false)
      [storeEvent, (zeroHost, enableRequest), (zeroHost, .call .disableFipsMode)])).1 = .ok [7] := by
  have hlive : Run.EachStep (eventStep switchLibs) (fun s e => ¬ EndsByEvent "a" s e)
      (Run.after (eventStep switchLibs) (start zeroHost false false) ([] ++ [storeEvent]))
      [(zeroHost, enableRequest), (zeroHost, .call .disableFipsMode)] := by
    refine Run.eachStep_cons.2 ⟨by simp [EndsByEvent, enableRequest], Run.eachStep_cons.2 ⟨?_, Run.eachStep_nil _⟩⟩
    simp [EndsByEvent, Ends, KeyState.change]
  have hbinds : ∀ σ, (Run.after (eventStep switchLibs) (start zeroHost false false)
      ([] ++ [storeEvent])).vault.secretKeys.get (Text.ofString "a") = some σ →
      Binds switchLibs id [σ, HybridEncryptor.aesKey switchLibs σ] zeroHost.nonce.toList [7] := by
    intro σ hσ
    have hzero : (Run.after (eventStep switchLibs) (start zeroHost false false) ([] ++ [storeEvent])).vault.secretKeys.get
        (Text.ofString "a") = some (List.replicate 32 0) := by decide +kernel
    obtain rfl : List.replicate 32 0 = σ := Option.some.inj (hzero.symm.trans hσ)
    decide +kernel
  exact (retrieve_after_switching_iff (by decide +kernel) hlive hbinds zeroHost).2 (Or.inl (by decide +kernel))

end AbirGuard.Python.Vault
