/-
Is the X25519 fallback blocked whenever a vault of the process is in FIPS mode?

Each vault has a mode of its own, and the ML-KEM class one switch for the whole process. `enable_fips_mode` and
`disable_fips_mode` set both; the constructor sets only the mode of the vault, and a vault that leaves FIPS mode clears the
switch for all others.

- `encapsulate_blocked_iff`: when the check of `encapsulate` refuses.
- `always_enforced_iff`: over the runs of a process, the switch is on whenever a live vault is in FIPS mode if and only if no
  vault is built in FIPS mode while it is off, and none leaves FIPS mode while another one is in it.
-/
import AbirGuard.Python.KeyState

namespace AbirGuard.Python

open AbirGuard.Core Raise

/-! ## ML-KEM -/

namespace MLKEM1024

inductive Backend where
  | pqcrypto
  | liboqs
  | x25519
deriving DecidableEq, Repr

/-- the error of a blocked fallback -/
def fallbackBlocked : Exc :=
  ⟨.fipsModeError, "X25519 fallback blocked in FIPS mode. Install pqcrypto or liboqs for ML-KEM-1024."⟩

/-- `encapsulate`: the check of the mode, and then what the backend does under the watchdog -/
def encapsulate (backend : Backend) (fipsMode : Bool) (kem : Bytes → Except Exc (Bytes × Bytes)) (publicKey : Bytes) :
    Except Exc (Bytes × Bytes) :=
  if backend = .x25519 ∧ fipsMode then .error fallbackBlocked else kem publicKey

/-- without a post-quantum backend the switch decides whether every encapsulation is refused -/
theorem encapsulate_blocked_iff {fipsMode : Bool} :
    (∀ kem publicKey, encapsulate .x25519 fipsMode kem publicKey = .error fallbackBlocked) ↔ fipsMode = true := by
  constructor
  · intro h
    have hok := h (fun _ => .ok ([], [])) []
    rw [encapsulate] at hok
    split_ifs at hok with hmode
    exact hmode.2
  · rintro rfl kem publicKey
    exact if_pos ⟨rfl, rfl⟩

end MLKEM1024

namespace Process

open Vault

/-! ## Model -/

/-- the variables of a process that hold a vault, and `MLKEM1024._FIPS_MODE` -/
structure State where
  vaults : Dict Text Vault
  mlkemFips : Bool

/-- what a process does with its vaults -/
inductive Op where
  | create (name : Text) (fipsMode : Bool)
  | call (name : Text) (c : Call)
  | discard (name : Text)

/-- a call under a name without a vault does nothing -/
def step (l : Libs) (s : State) : Host × Op → State
  | (η, .create name fipsMode) => { s with vaults := s.vaults.set name (.new η fipsMode) }
  | (η, .call name c) =>
    match s.vaults.get name with
    | none => s
    | some v =>
      let t := Vault.step l ⟨v, s.mlkemFips⟩ (η, c)
      ⟨s.vaults.set name t.vault, t.mlkemFips⟩
  | (_, .discard name) => { s with vaults := s.vaults.erase name }

def start : State := ⟨.empty, false⟩

/-- some live vault is in FIPS mode -/
def AnyFips (s : State) : Prop := ∃ name v, s.vaults.get name = some v ∧ v.fipsMode = true

/-- where some live vault is in FIPS mode, the switch is on and the fallback blocked -/
def Enforced (s : State) : Prop :=
  AnyFips s → s.mlkemFips = true ∧
    ∀ kem publicKey, MLKEM1024.encapsulate .x25519 s.mlkemFips kem publicKey = .error MLKEM1024.fallbackBlocked

/-- a vault is built in FIPS mode only under the switch, and leaves it only as the last one -/
def Careful (s : State) (c : Host × Op) : Prop :=
  match c.2 with
  | .create _ fipsMode => fipsMode = true → s.mlkemFips = true
  | .call name c => c = .disableFipsMode → (∃ v, s.vaults.get name = some v) →
      ∀ name' v, name' ≠ name → s.vaults.get name' = some v → v.fipsMode = false
  | .discard _ => True

/-! ## Enforcement -/

variable {l : Libs}

theorem enforced_iff {s : State} : Enforced s ↔ (AnyFips s → s.mlkemFips = true) := by
  rw [Enforced]
  refine forall_congr' fun _ => and_iff_left_of_imp ?_
  exact MLKEM1024.encapsulate_blocked_iff.2

/-- the vaults after one of them was replaced -/
theorem anyFips_set {s : State} {name : Text} {v : Vault} {mlkemFips : Bool} :
    AnyFips ⟨s.vaults.set name v, mlkemFips⟩ ↔
      v.fipsMode = true ∨ ∃ name' u, name' ≠ name ∧ s.vaults.get name' = some u ∧ u.fipsMode = true := by
  constructor
  · rintro ⟨name', u, hu, hmode⟩
    by_cases hne : name' = name
    · subst hne
      rw [Dict.get_set_self, Option.some.injEq] at hu
      exact Or.inl (hu ▸ hmode)
    · exact Or.inr ⟨name', u, hne, (Dict.get_set_of_ne (Ne.symm hne) ..).symm.trans hu, hmode⟩
  · rintro (hmode | ⟨name', u, hne, hu, hmode⟩)
    · exact ⟨name, v, Dict.get_set_self .., hmode⟩
    · exact ⟨name', u, (Dict.get_set_of_ne (Ne.symm hne) ..).trans hu, hmode⟩

/-- what a call makes of a vault and the switch -/
theorem modes_step (v : Vault) (mlkemFips : Bool) (η : Host) (c : Call) :
    let t := Vault.step l ⟨v, mlkemFips⟩ (η, c)
    (c = .enableFipsMode ∧ t.mlkemFips = true) ∨
    (c = .disableFipsMode ∧ t.vault.fipsMode = false ∧ t.mlkemFips = false) ∨
    (c ≠ .disableFipsMode ∧ t.vault.fipsMode = v.fipsMode ∧ t.mlkemFips = mlkemFips) := by
  intro t
  by_cases hc : c.Switches
  · rcases hc with rfl | rfl
    · exact Or.inl ⟨rfl, rfl⟩
    · exact Or.inr (Or.inl ⟨rfl, rfl, rfl⟩)
  · have hmodes := KeyState.modes_apply η (keyState ⟨v, mlkemFips⟩) l hc
    rw [← keyState_step ⟨v, mlkemFips⟩ (η, c)] at hmodes
    refine Or.inr (Or.inr ⟨fun h => hc (Or.inr h), congrArg Prod.fst hmodes, ?_⟩)
    exact congrArg (fun m => m.2.2) hmodes

/-- **A step out of an enforced state leaves it if and only if it is not careful.** -/
theorem enforced_step_iff {s : State} (h : Enforced s) (c : Host × Op) : Enforced (step l s c) ↔ Careful s c := by
  obtain ⟨η, op⟩ := c
  rw [enforced_iff] at h ⊢
  -- other vaults in FIPS mode are vaults in FIPS mode
  have hothers : ∀ name, (∃ name' u, name' ≠ name ∧ s.vaults.get name' = some u ∧ u.fipsMode = true) → s.mlkemFips = true :=
    fun _ ⟨name', u, _, hu, hmode⟩ => h ⟨name', u, hu, hmode⟩
  cases op with
  | create name fipsMode =>
    rw [step, anyFips_set, Careful]
    refine ⟨fun hnew hmode => hnew (Or.inl hmode), fun hcare hany => ?_⟩
    exact hany.elim hcare (hothers name)
  | call name c =>
    rw [step, Careful]
    cases hv : s.vaults.get name with
    | none => exact iff_of_true h fun _ ⟨v, hv'⟩ => absurd (hv.symm.trans hv') (by simp)
    | some v =>
      dsimp only
      rw [anyFips_set]
      rcases modes_step (l := l) v s.mlkemFips η c with ⟨rfl, hflag⟩ | ⟨rfl, hmode, hflag⟩ | ⟨hc, hmode, hflag⟩
      · exact iff_of_true (fun _ => hflag) fun hd => by cases hd
      · rw [hmode, hflag]
        constructor
        · intro hall _ _ name' u hne hu
          by_contra hfips
          exact absurd (hall (Or.inr ⟨name', u, hne, hu, by simpa using hfips⟩)) Bool.false_ne_true
        · rintro hcare (hfips | ⟨name', u, hne, hu, hfips⟩)
          · exact hfips
          · rwa [hcare rfl ⟨v, hv⟩ name' u hne hu] at hfips
      · rw [hmode, hflag]
        refine iff_of_true (fun hany => ?_) fun hd => absurd hd hc
        exact hany.elim (fun hv' => h ⟨name, v, hv, hv'⟩) (hothers name)
  | discard name =>
    refine iff_of_true ?_ trivial
    rintro ⟨name', v, hv, hmode⟩
    refine h ⟨name', v, ?_, hmode⟩
    by_cases hne : name = name'
    · subst hne
      rw [step, Dict.get_erase_self] at hv
      cases hv
    · rwa [step, Dict.get_erase_of_ne hne] at hv

/-- **FIPS enforcement covers every FIPS vault all along a run if and only if each of its steps is careful.** -/
theorem always_enforced_iff (l : Libs) (run : List (Host × Op)) :
    (∀ before later, run = before ++ later → Enforced (Run.after (step l) start before)) ↔
      Run.EachStep (step l) Careful start run := by
  have hstart : Enforced start := fun ⟨_, _, hv, _⟩ => by cases hv
  rw [Run.always_iff, and_iff_right hstart]
  exact Run.eachStep_iff Enforced (fun c _ s hs => enforced_step_iff hs c) (fun c _ s hs hc => (enforced_step_iff hs c).2 hc) hstart

/-! ## Two ways out -/

/-- two vaults enter FIPS mode, and one leaves it -/
def leavingRun : List (Host × Op) :=
  [(zeroHost, .create "v" false), (zeroHost, .create "w" false), (zeroHost, .call "v" .enableFipsMode),
    (zeroHost, .call "w" .enableFipsMode), (zeroHost, .call "v" .disableFipsMode)]

/-- a vault that is built in FIPS mode does not turn the switch on, and one that leaves it turns it off for the other -/
theorem fallback_open :
    let s := Run.after (step zeroLibs) start [(zeroHost, .create "v" true)]
    let t := Run.after (step zeroLibs) start leavingRun
    (s.vaults.get (Text.ofString "v")).map Vault.fipsMode = some true ∧ s.mlkemFips = false ∧ ¬ Enforced s ∧
      (t.vaults.get (Text.ofString "w")).map Vault.fipsMode = some true ∧ t.mlkemFips = false ∧ ¬ Enforced t ∧
      MLKEM1024.encapsulate .x25519 false (fun publicKey => .ok (publicKey, [])) [7] = .ok ([7], []) := by
  intro s t
  have hopen : ∀ (u : State) (name : Text), (u.vaults.get name).map Vault.fipsMode = some true → u.mlkemFips = false →
      ¬ Enforced u := by
    intro u name hmode hflag henforced
    obtain ⟨v, hv, hfips⟩ := Option.map_eq_some_iff.1 hmode
    rw [enforced_iff, hflag] at henforced
    exact Bool.false_ne_true (henforced ⟨name, v, hv, hfips⟩)
  have hs : (s.vaults.get (Text.ofString "v")).map Vault.fipsMode = some true := by decide +kernel
  have ht : (t.vaults.get (Text.ofString "w")).map Vault.fipsMode = some true := by decide +kernel
  exact ⟨hs, rfl, hopen s _ hs rfl, ht, rfl, hopen t _ ht (by decide +kernel), by decide⟩

end Process

end AbirGuard.Python
