/-
The Python vault binds ciphertexts to live keys, as long as its mode does not change.

- `ciphertext_bound`: over every run, a ciphertext that a store returned is read back under the id it was stored for, while
  that id keeps the key that the store used; every other retrieval of it raises.

The premises are that the secrets which the run draws differ, and that the ciphertext opens under the secret it was made with
and under none of the others.
-/
import AbirGuard.Python.LiveKeys

namespace AbirGuard.Python.Vault

open AbirGuard.Core Raise

variable {l : Libs}

/-- **A ciphertext is readable under its own id while the key is live, and nowhere else.** -/
theorem ciphertext_bound {fips mlkemFips : Bool} {η₀ : Host} {before later : List (Host × Call)} {η ηRotate : Host}
    {keyId : Text} {p : Bytes} {ct : Ciphertext}
    (hmode : ∀ run rest, before ++ (η, .store ηRotate keyId p) :: later = run ++ rest →
      (Run.after (step l) (start η₀ fips mlkemFips) run).vault.fipsMode = fips)
    (hfresh : (drawn l (start η₀ fips mlkemFips) (before ++ (η, .store ηRotate keyId p) :: later)).Nodup)
    (hbinds : Binds l (modeKey l fips) (drawn l (start η₀ fips mlkemFips) (before ++ (η, .store ηRotate keyId p) :: later))
      η.nonce.toList p)
    (hct : (run (store l η ηRotate keyId p) (Run.after (step l) (start η₀ fips mlkemFips) before)).1 = .ok ct)
    (η' : Host) (keyId' : Text) :
    let stored := Run.after (step l) (start η₀ fips mlkemFips) (before ++ [(η, .store ηRotate keyId p)])
    let result := (run (retrieve l η' keyId' ct) (Run.after (step l) stored later)).1
    let live := keyId' = keyId ∧ Run.EachStep (step l) (fun s c => ¬ Ends keyId s c) stored later
    (live → result = .ok p) ∧ (¬ live → ∃ e, result = .error e) := by
  intro stored result live
  have hsplit : before ++ (η, .store ηRotate keyId p) :: later = before ++ [(η, .store ηRotate keyId p)] ++ later := by
    rw [List.append_assoc]
    rfl
  have hbefore := coherent_after (l := l) (coherent_start (η := η₀) fips mlkemFips) before
  have hstored := coherent_after (l := l) (coherent_start (η := η₀) fips mlkemFips) (before ++ [(η, .store ηRotate keyId p)])
  have hlater := coherent_after (l := l) hstored later
  obtain ⟨hid, σ, hσ, hsealed⟩ := store_sealed hbefore hct
  rw [hmode before _ rfl] at hsealed
  have hmode' : (Run.after (step l) stored later).vault.fipsMode = fips := by
    have h := hmode _ [] (List.append_nil _).symm
    rwa [hsplit, Run.after_append] at h
  -- the secret of the store is one of the run, and is not drawn again
  rw [hsplit] at hfresh hbinds
  have hholds : stored.vault.secretKeys.get keyId = some σ := by
    rw [show stored = step l _ _ from Run.after_append ..]
    exact hσ
  obtain ⟨hmem, hnew, hunique⟩ := held_between hfresh hholds
  have hlast := distinct_after (coherent_start fips mlkemFips) (distinct_start fips mlkemFips) (l := l) hfresh
  rw [List.nil_append, Run.after_append] at hlast
  -- a retrieval returns under that secret only, which no other id holds
  have hread : ∀ q, result = .ok q ↔ live ∧ q = p := by
    intro q
    rw [show result = (run (retrieve l η' keyId' ct) (Run.after (step l) stored later)).1 from rfl,
      retrieve_eq_ok_iff hlater, hmode', hsealed]
    constructor
    · rintro ⟨-, σ', hσ', hopen⟩
      rw [opens_sealed_iff (hlater.size keyId' σ' hσ'), hbinds σ hmem σ' (hlast.held keyId' σ' hσ')] at hopen
      split_ifs at hopen with heq
      · subst heq
        obtain rfl := hunique keyId' (held_after hstored hnew hσ')
        exact ⟨⟨rfl, (kept_iff hstored hholds hnew).1 hσ'⟩, (Option.some.inj hopen).symm⟩
    · rintro ⟨⟨rfl, hkept⟩, rfl⟩
      have hkey := (kept_iff hstored hholds hnew).2 hkept
      refine ⟨hid, σ, hkey, ?_⟩
      rw [opens_sealed_iff (hlater.size _ _ hkey), hbinds σ hmem σ hmem, if_pos rfl]
  refine ⟨fun hlive => (hread p).2 ⟨hlive, rfl⟩, fun hdead => ?_⟩
  cases hr : result with
  | error e => exact ⟨e, rfl⟩
  | ok q => exact absurd ((hread q).1 hr).1 hdead

/-! ## Two keys -/

/-- an AES key is the secret itself, and the tag of a ciphertext is half of its key -/
def keyLibs : Libs :=
  { zeroLibs with
    hkdf := fun _ _ secret => Vector.ofFn fun i : Fin 32 => secret.getD i 0
    gcmEncrypt := fun key _ p => p ++ key.take 16
    gcmDecrypt := fun key _ c =>
      if c.drop (c.length - 16) = key.take 16 then some (c.take (c.length - 16)) else none }

/-- a byte is stored under a -/
def storeA : Host × Call := (hostWithSecret 1, .store zeroHost "a" [7])

/-- the key of b is generated, and that of a rotated -/
def laterCalls : List (Host × Call) := [(hostWithSecret 2, .generateKeypair "b"), (hostWithSecret 3, .rotateKey "a")]

/-- the ciphertext is read back under a before the rotation, but neither under b nor after the rotation -/
theorem ciphertext_bound_rotated :
    let ct := sealed keyLibs (hostWithSecret 1) (List.replicate 32 1) [7]
    let stored := step keyLibs (start zeroHost false false) storeA
    (run (retrieve keyLibs zeroHost "a" ct) (Run.after (step keyLibs) stored (laterCalls.take 1))).1 = .ok [7] ∧
    (∃ e, (run (retrieve keyLibs zeroHost "b" ct) (Run.after (step keyLibs) stored (laterCalls.take 1))).1 = .error e) ∧
    ∃ e, (run (retrieve keyLibs zeroHost "a" ct) (Run.after (step keyLibs) stored laterCalls)).1 = .error e := by
  intro ct stored
  have hmode : ∀ later : List (Host × Call), (∀ c ∈ later, ¬ c.2.Switches) → ∀ run rest,
      [] ++ storeA :: later = run ++ rest →
      (Run.after (step keyLibs) (start zeroHost false false) run).vault.fipsMode = false := by
    intro later hlater run rest hrun
    refine fipsMode_after _ fun c hc => ?_
    have hmem : c ∈ storeA :: later := by
      rw [← List.nil_append (storeA :: later), hrun]
      exact List.mem_append_left _ hc
    rcases List.mem_cons.1 hmem with rfl | hc
    · simp [storeA, Call.Switches]
    · exact hlater c hc
  have hswitch : ∀ c ∈ laterCalls, ¬ c.2.Switches := by simp [laterCalls, Call.Switches]
  have hct : (run (store keyLibs (hostWithSecret 1) zeroHost "a" [7])
      (Run.after (step keyLibs) (start zeroHost false false) [])).1 = .ok ct := by decide +kernel
  have hread := ciphertext_bound (hmode (laterCalls.take 1) fun c hc => hswitch c (List.mem_of_mem_take hc))
    (by decide +kernel) (by decide +kernel) hct zeroHost
  have hlost := ciphertext_bound (hmode laterCalls hswitch) (by decide +kernel) (by decide +kernel) hct zeroHost "a"
  have hkept : ¬ Ends "a" stored (hostWithSecret 2, .generateKeypair "b") := by decide +kernel
  have hrotated : Ends "a" (step keyLibs stored (hostWithSecret 2, .generateKeypair "b")) (hostWithSecret 3, .rotateKey "a") := by
    decide +kernel
  refine ⟨(hread "a").1 ⟨rfl, Run.eachStep_cons.2 ⟨hkept, Run.eachStep_nil _⟩⟩, (hread "b").2 ?_, hlost.2 ?_⟩
  · rintro ⟨h, -⟩
    exact absurd h (by decide +kernel)
  · rintro ⟨-, h⟩
    exact (Run.eachStep_cons.1 (Run.eachStep_cons.1 h).2).1 hrotated

end AbirGuard.Python.Vault
