/-
Do the rotation managers of `rotation.rs` and `rotation.py` agree?

Both are told of the same registrations, uses and expiries at the same times. The Rust manager keeps whole seconds and the Python
manager the time as it is, so it flags a key earlier.

- `alike_after`: all along a run the two know the same keys, with the same counts and marks.
- `managers_agree`: what the Rust manager flags, the Python manager flags; what this flags, that flags a second later.
-/
import AbirGuard.Python.AttestationGate
import AbirGuard.Rust.Rotation

namespace AbirGuard.Python

open AbirGuard.Core

/-- an unknown key stays unknown -/
def KeyRotationManager.expireKey (keyId rotatedTo : Text) (m : KeyRotationManager) : KeyRotationManager :=
  match m.metadata.get keyId with
  | none => m
  | some data => { m with metadata := m.metadata.set keyId { data with isExpired := true, rotatedTo := rotatedTo } }

namespace RotationAgreement

open AbirGuard.Rust.Rotation (seconds)

/-! ## Model -/

/-- a call of either manager -/
inductive Call where
  | register (keyId : String) (maxLifetime maxOperations : Option UInt64)
  | use (keyId : String) (operation : Operation)
  | expire (keyId rotatedTo : String)

def limit (x : UInt64) : ℚ := (x.toNat : ℚ)

/-- the call on the Rust manager, by the clock that it reads -/
def rustStep (m : Rust.Rotation.KeyRotationManager) : Host × Call → Rust.Rotation.KeyRotationManager
  | (η, .register keyId maxLifetime maxOperations) => m.registerKey (η.clock .register) keyId maxLifetime maxOperations
  | (η, .use keyId operation) => m.recordUsage (η.clock .usage) keyId (operation == .encrypt)
  | (_, .expire keyId rotatedTo) => m.expireKey keyId rotatedTo

/-- the call on the Python manager -/
def pythonStep (m : KeyRotationManager) : Host × Call → KeyRotationManager
  | (η, .register keyId maxLifetime maxOperations) =>
    m.registerKey η (Text.ofString keyId) (maxLifetime.map limit) (maxOperations.map fun x => x.toNat)
  | (η, .use keyId operation) => m.recordUsage η (Text.ofString keyId) operation
  | (_, .expire keyId rotatedTo) => m.expireKey (Text.ofString keyId) (Text.ofString rotatedTo)

/-! ## The same keys -/

/-- the records of a key after at most n uses -/
structure AlikeKey (n : ℕ) (r : Rust.Rotation.KeyMetadata) (p : KeyMetadata) : Prop where
  keyId : p.keyId = Text.ofString r.keyId
  createdAt : seconds p.createdAt = r.createdAt
  /-- the clock had passed the epoch -/
  known : 0 ≤ p.createdAt ∧ p.createdAt < 2 ^ 64
  encryptCount : p.encryptCount = r.encryptCount.toNat
  decryptCount : p.decryptCount = r.decryptCount.toNat
  count : p.totalOperations ≤ n
  maxLifetime : p.maxLifetimeSeconds = limit r.maxLifetimeSeconds
  maxOperations : p.maxOperations = r.maxOperations.toNat
  isExpired : p.isExpired = r.isExpired
  rotatedTo : p.rotatedTo = Text.ofString r.rotatedTo

/-- the managers after at most n calls -/
structure Alike (n : ℕ) (r : Rust.Rotation.KeyRotationManager) (p : KeyRotationManager) : Prop where
  lifetime : p.defaultMaxLifetime = limit r.defaultMaxLifetime
  operations : p.defaultMaxOperations = r.defaultMaxOperations.toNat
  keys : ∀ keyId, Option.Rel (AlikeKey n) (r.metadata.get keyId) (p.metadata.get (Text.ofString keyId))

variable {n : ℕ} {r : Rust.Rotation.KeyRotationManager} {p : KeyRotationManager}

theorem AlikeKey.mono {a : Rust.Rotation.KeyMetadata} {b : KeyMetadata} (h : AlikeKey n a b) : AlikeKey (n + 1) a b :=
  { h with count := h.count.trans (Nat.le_succ n) }

theorem rel_mono {x : Option Rust.Rotation.KeyMetadata} {y : Option KeyMetadata} (h : Option.Rel (AlikeKey n) x y) :
    Option.Rel (AlikeKey (n + 1)) x y := by
  cases h with
  | some h => exact .some h.mono
  | none => exact .none

/-- a record that is set in both -/
theorem rel_set (h : Alike n r p) (keyId : String) {a : Rust.Rotation.KeyMetadata} {b : KeyMetadata} (hab : AlikeKey (n + 1) a b)
    (keyId' : String) :
    Option.Rel (AlikeKey (n + 1)) ((r.metadata.set keyId a).get keyId')
      ((p.metadata.set (Text.ofString keyId) b).get (Text.ofString keyId')) := by
  by_cases hsame : keyId = keyId'
  · subst hsame
    rw [Dict.get_set_self, Dict.get_set_self]
    exact .some hab
  · have hother : Text.ofString keyId ≠ Text.ofString keyId' := fun he => hsame (Text.ofString_injective he)
    rw [Dict.get_set_of_ne hsame, Dict.get_set_of_ne hother]
    exact rel_mono (h.keys keyId')

/-- a change of a record, if it is there -/
theorem alike_modify (h : Alike n r p) (keyId : String) {f : Rust.Rotation.KeyMetadata → Rust.Rotation.KeyMetadata}
    {g : KeyMetadata → KeyMetadata} (hfg : ∀ a b, AlikeKey n a b → AlikeKey (n + 1) (f a) (g b)) :
    Alike (n + 1) (r.modify keyId f) (match p.metadata.get (Text.ofString keyId) with
      | none => p
      | some data => { p with metadata := p.metadata.set (Text.ofString keyId) (g data) }) := by
  rw [Rust.Rotation.KeyRotationManager.modify]
  have hkey := h.keys keyId
  cases hr : r.metadata.get keyId with
  | none =>
    rw [hr] at hkey
    cases hp : p.metadata.get (Text.ofString keyId) with
    | none => exact ⟨h.lifetime, h.operations, fun keyId' => rel_mono (h.keys keyId')⟩
    | some b =>
      rw [hp] at hkey
      cases hkey
  | some a =>
    rw [hr] at hkey
    cases hp : p.metadata.get (Text.ofString keyId) with
    | none =>
      rw [hp] at hkey
      cases hkey
    | some b =>
      rw [hp] at hkey
      cases hkey with
      | some hab => exact ⟨h.lifetime, h.operations, rel_set h keyId (hfg a b hab)⟩

/-- the clock is after the epoch, and seconds still fit -/
def Sane (η : Host) : Prop := ∀ reading, 0 ≤ η.clock reading ∧ η.clock reading < 2 ^ 64

theorem toNat_succ {x : UInt64} (h : x.toNat + 1 < 2 ^ 64) : (x + 1).toNat = x.toNat + 1 := by
  rw [UInt64.toNat_add]
  exact Nat.mod_eq_of_lt h

theorem AlikeKey.recordEncrypt {a : Rust.Rotation.KeyMetadata} {b : KeyMetadata} (h : AlikeKey n a b) (hn : n + 1 < 2 ^ 64)
    (η : Host) : AlikeKey (n + 1) (a.recordEncrypt (η.clock .usage)) (b.recordEncrypt η) := by
  have hcount := h.count
  rw [KeyMetadata.totalOperations, h.encryptCount, h.decryptCount] at hcount
  have hnext : (a.encryptCount + 1).toNat = a.encryptCount.toNat + 1 := toNat_succ (by omega)
  refine { h with encryptCount := ?_, count := ?_ }
  · exact (congrArg (· + 1) h.encryptCount).trans hnext.symm
  · change b.encryptCount + 1 + b.decryptCount ≤ n + 1
    rw [h.encryptCount, h.decryptCount]
    omega

theorem AlikeKey.recordDecrypt {a : Rust.Rotation.KeyMetadata} {b : KeyMetadata} (h : AlikeKey n a b) (hn : n + 1 < 2 ^ 64)
    (η : Host) : AlikeKey (n + 1) (a.recordDecrypt (η.clock .usage)) (b.recordDecrypt η) := by
  have hcount := h.count
  rw [KeyMetadata.totalOperations, h.encryptCount, h.decryptCount] at hcount
  have hnext : (a.decryptCount + 1).toNat = a.decryptCount.toNat + 1 := toNat_succ (by omega)
  refine { h with decryptCount := ?_, count := ?_ }
  · exact (congrArg (· + 1) h.decryptCount).trans hnext.symm
  · change b.encryptCount + (b.decryptCount + 1) ≤ n + 1
    rw [h.encryptCount, h.decryptCount]
    omega

theorem alike_step (h : Alike n r p) (hn : n + 1 < 2 ^ 64) {c : Host × Call} (hc : Sane c.1) :
    Alike (n + 1) (rustStep r c) (pythonStep p c) := by
  obtain ⟨η, ⟨keyId, maxLifetime, maxOperations⟩ | ⟨keyId, operation⟩ | ⟨keyId, rotatedTo⟩⟩ := c
  · refine ⟨h.lifetime, h.operations, rel_set h keyId ?_⟩
    exact
      { keyId := rfl
        createdAt := rfl
        known := hc .register
        encryptCount := rfl
        decryptCount := rfl
        count := Nat.zero_le _
        maxLifetime := by cases maxLifetime <;> first | exact h.lifetime | rfl
        maxOperations := by cases maxOperations <;> first | exact h.operations | rfl
        isExpired := rfl
        rotatedTo := rfl }
  · cases operation with
    | encrypt => exact alike_modify h keyId fun a b hab => hab.recordEncrypt hn η
    | decrypt => exact alike_modify h keyId fun a b hab => hab.recordDecrypt hn η
  · exact alike_modify h keyId fun a b hab => { hab.mono with isExpired := rfl, rotatedTo := rfl }

/-- **The managers know the same keys** after the same calls. -/
theorem alike_after (h : Alike n r p) {run : List (Host × Call)} (hn : n + run.length < 2 ^ 64) (hrun : ∀ c ∈ run, Sane c.1) :
    Alike (n + run.length) (Run.after rustStep r run) (Run.after pythonStep p run) := by
  induction run generalizing n r p with
  | nil => exact h
  | cons c run ih =>
    rw [List.length_cons] at hn
    have hstep := alike_step h (by omega) (hrun c List.mem_cons_self)
    have hrest := ih hstep (by omega) fun c' hc' => hrun c' (List.mem_cons_of_mem _ hc')
    rw [List.length_cons, Nat.add_comm run.length 1, ← Nat.add_assoc]
    exact hrest

/-! ## The keys to rotate -/

/-- ages in whole seconds, and as they are -/
theorem seconds_lt {created now : ℚ} (h : 0 ≤ created) (hnow : 0 ≤ now) {L : ℕ} (hlife : ⌊created⌋.toNat + L < ⌊now⌋.toNat) :
    (L : ℚ) < now - created := by
  have hcreated := Int.floor_nonneg.2 h
  have hfloor := Int.floor_nonneg.2 hnow
  have hint : ⌊created⌋ + L + 1 ≤ ⌊now⌋ := by omega
  have hrat : (⌊created⌋ + L + 1 : ℚ) ≤ ⌊now⌋ := by exact_mod_cast hint
  have hle := Int.floor_le now
  have hlt := Int.lt_floor_add_one created
  linarith

theorem lt_seconds {created now now' : ℚ} (h : 0 ≤ created) (hnow : now + 1 ≤ now') {L : ℕ} (hlife : (L : ℚ) < now - created) :
    ⌊created⌋.toNat + L < ⌊now'⌋.toNat := by
  have hcreated := Int.floor_nonneg.2 h
  have hle := Int.floor_le created
  have hlt := Int.lt_floor_add_one now'
  have hrat : (⌊created⌋ + L : ℚ) < ⌊now'⌋ := by linarith
  have hint : ⌊created⌋ + L < ⌊now'⌋ := by exact_mod_cast hrat
  omega

theorem AlikeKey.flags {a : Rust.Rotation.KeyMetadata} {b : KeyMetadata} (h : AlikeKey n a b) (hn : n < 2 ^ 64) {η : Host}
    (hη : Sane η) :
    (a.shouldExpire (η.clock .expiry) = true → b.shouldExpire η = true) ∧
      (b.shouldExpire η = true → ∀ now, η.clock .expiry + 1 ≤ now → now < 2 ^ 64 → a.shouldExpire now = true) := by
  have hcreated : a.createdAt.toNat = ⌊b.createdAt⌋.toNat := by
    rw [← h.createdAt, Rust.Rotation.toNat_seconds h.known.2]
  have htotal : b.totalOperations = a.encryptCount.toNat + a.decryptCount.toNat := by
    rw [KeyMetadata.totalOperations, h.encryptCount, h.decryptCount]
  have hcount : a.encryptCount.toNat + a.decryptCount.toNat < 2 ^ 64 := by
    rw [← htotal]
    exact h.count.trans_lt hn
  have hpython : b.shouldExpire η = true ↔
      0 < a.maxLifetimeSeconds.toNat ∧ (a.maxLifetimeSeconds.toNat : ℚ) < η.clock .expiry - b.createdAt ∨
        0 < a.maxOperations.toNat ∧ a.maxOperations.toNat ≤ a.encryptCount.toNat + a.decryptCount.toNat := by
    rw [KeyMetadata.shouldExpire, decide_eq_true_eq, h.maxLifetime, h.maxOperations, htotal, limit, Nat.cast_pos, Nat.cast_pos,
      KeyMetadata.ageSeconds, Nat.cast_le]
  rw [hpython]
  constructor
  · intro hrust
    rw [Rust.Rotation.KeyMetadata.shouldExpire_iff (hη .expiry).2 hcount, hcreated] at hrust
    exact hrust.imp_left fun hlife => ⟨hlife.1, seconds_lt h.known.1 (hη .expiry).1 hlife.2⟩
  · intro hflag now hlater hnow
    rw [Rust.Rotation.KeyMetadata.shouldExpire_iff hnow hcount, hcreated]
    exact hflag.imp_left fun hlife => ⟨hlife.1, lt_seconds h.known.1 hlater hlife.2⟩

/--
**The managers flag the same keys, up to a second.**

Take two new managers with the same defaults, and any run of registrations, uses and expiries that both are told of. For every
key both have the same counts and marks, or none; what the Rust manager flags, the Python manager flags at the same time; and
what the Python manager flags, the Rust manager flags at any time a second or more later. The clocks are after the epoch, and the
run is not so long that a count of 64 bits could overflow.
-/
theorem managers_agree (maxLifetime maxOperations : UInt64) {run : List (Host × Call)} (hrun : ∀ c ∈ run, Sane c.1)
    (hlength : run.length < 2 ^ 64) {η : Host} (hη : Sane η) (keyId : String) :
    let rust := Run.after rustStep (.new maxLifetime maxOperations) run
    let python := Run.after pythonStep ⟨.empty, limit maxLifetime, maxOperations.toNat⟩ run
    ((rust.getMetadata keyId).map fun m => (m.encryptCount.toNat, m.decryptCount.toNat, m.isExpired, Text.ofString m.rotatedTo)) =
        ((python.metadata.get (Text.ofString keyId)).map fun m => (m.encryptCount, m.decryptCount, m.isExpired, m.rotatedTo)) ∧
      (rust.needsRotation (η.clock .expiry) keyId = true → python.needsRotation η (Text.ofString keyId) = true) ∧
      (python.needsRotation η (Text.ofString keyId) = true → ∀ now, η.clock .expiry + 1 ≤ now → now < 2 ^ 64 →
        rust.needsRotation now keyId = true) := by
  intro rust python
  have hstart : Alike 0 (.new maxLifetime maxOperations) ⟨.empty, limit maxLifetime, maxOperations.toNat⟩ :=
    ⟨rfl, rfl, fun _ => .none⟩
  have hafter : Alike (0 + run.length) rust python := alike_after hstart (by omega) hrun
  have hkey := hafter.keys keyId
  simp only [Rust.Rotation.KeyRotationManager.getMetadata, Rust.Rotation.KeyRotationManager.needsRotation,
    KeyRotationManager.needsRotation]
  generalize rust.metadata.get keyId = x, python.metadata.get (Text.ofString keyId) = y at hkey
  cases hkey with
  | none => exact ⟨rfl, fun h => h, fun h => absurd h Bool.false_ne_true⟩
  | some hab =>
    refine ⟨?_, hab.flags (by omega) hη⟩
    rw [Option.map_some, Option.map_some, hab.encryptCount, hab.decryptCount, hab.isExpired, hab.rotatedTo]

def hostAt (now : ℚ) : Host := { Vault.zeroHost with clock := fun _ => now }

/-- a key that lives for a second, registered at 1: at 2.5 the Python manager flags it, and the Rust manager at 3.5 -/
theorem managers_agree_lifetime :
    let rust := Run.after rustStep (.new 1 0) [(hostAt 1, .register "k" none none)]
    rust.needsRotation (5 / 2) "k" = false ∧ rust.needsRotation (7 / 2) "k" = true := by
  have hsane : ∀ now : ℚ, 0 ≤ now → now < 2 ^ 64 → Sane (hostAt now) := fun now h h' _ => ⟨h, h'⟩
  have hrun : ∀ c ∈ [(hostAt 1, Call.register "k" none none)], Sane c.1 :=
    List.forall_mem_singleton.2 (hsane 1 (by norm_num) (by norm_num))
  have hflagged : (Run.after pythonStep ⟨.empty, limit 1, (0 : UInt64).toNat⟩
      [(hostAt 1, .register "k" none none)]).needsRotation (hostAt (5 / 2)) (Text.ofString "k") = true := by
    decide +kernel
  have hagree := managers_agree 1 0 hrun (by decide) (hsane (5 / 2) (by norm_num) (by norm_num)) "k"
  exact ⟨by decide +kernel, hagree.2.2 hflagged (7 / 2) (by norm_num [hostAt]) (by norm_num)⟩

end RotationAgreement

end AbirGuard.Python
