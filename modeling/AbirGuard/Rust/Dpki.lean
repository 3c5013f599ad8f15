/-
The decentralised key registry (`blockchain/dpki.rs`): each entity is bound once to a public key, and the binding can be
invalidated but not renewed.

Two maps are kept: entries by entity and anchors by key hash. `Coupled` ties them together: every entry has an anchor, which
the entity owns, so no two entities share one.

- `resolve_ok_iff`: when an entity resolves, in a state.
- `run_registerKey`, `run_invalidate`: every way the two operations can end, as one equation.
- `status_registerKey`, `status_invalidate`: what they do to the bindings of all entities.
-/
import AbirGuard.Core.Run
import AbirGuard.Rust.KeyAnchor

namespace AbirGuard.Rust

open AbirGuard.Core Raise

/-! ## Model -/

inductive DpkiError where
  | alreadyRegistered
  | notFound
  | expired (current validUntil : UInt64)
  | notYetValid (current validFrom : UInt64)
  | anchorError (e : KeyAnchorError)
  | emptyPublicKey
deriving DecidableEq, Repr

/-- the text of an error -/
def DpkiError.message : DpkiError → String
  | .alreadyRegistered => "entity already has a registered key"
  | .notFound => "entity not found in dPKI registry"
  | .expired current validUntil => s!"dPKI entry has expired (current: {current}, until: {validUntil})"
  | .notYetValid current validFrom => s!"dPKI entry is not yet valid (current: {current}, from: {validFrom})"
  | .anchorError e => s!"anchor verification failed: {e.message}"
  | .emptyPublicKey => "public key bytes must not be empty"

structure DpkiEntry where
  entityId : String
  keyHash : Bytes
  anchorId : String
  validFrom : UInt64
  validUntil : Option UInt64
deriving DecidableEq, Repr

def DpkiEntry.isValidAt (entry : DpkiEntry) (now : UInt64) : Except DpkiError Unit :=
  if now < entry.validFrom then .error (.notYetValid now entry.validFrom)
  else
    match entry.validUntil with
    | some u => if u < now then .error (.expired now u) else .ok ()
    | none => .ok ()

structure DecentralizedPki where
  entries : Finmap fun _ : String => DpkiEntry
  anchors : AnchorRegistry
deriving DecidableEq

namespace DecentralizedPki

variable (sha256 : Bytes → Digest)

def new : DecentralizedPki := ⟨∅, .new⟩

/-- a call on the anchors, with `?` on its result -/
def onAnchors {α : Type} (x : Raise KeyAnchorError AnchorRegistry α) : Raise DpkiError DecentralizedPki α :=
  call .anchorError DecentralizedPki.anchors (fun anchors s => { s with anchors := anchors }) x

def registerKey (entityId : String) (publicKey : Bytes) (validFrom : UInt64) (validUntil : Option UInt64)
    (timestamp : UInt64) : Raise DpkiError DecentralizedPki DpkiEntry := do
  if publicKey = [] then throw .emptyPublicKey
  else do
    let s ← get
    if entityId ∈ s.entries then throw .alreadyRegistered
    else do
      let anchor ← onAnchors (AnchorRegistry.register sha256 publicKey entityId timestamp)
      let entry : DpkiEntry :=
        { entityId := entityId
          keyHash := (sha256 publicKey).toList
          anchorId := anchor.anchorId
          validFrom := validFrom
          validUntil := validUntil }
      modify fun s => { s with entries := s.entries.insert entityId entry }
      return entry

def resolve (entityId : String) (now : UInt64) (s : DecentralizedPki) : Except DpkiError DpkiEntry :=
  match s.entries.lookup entityId with
  | none => .error .notFound
  | some entry => do
    entry.isValidAt now
    let _ ← (s.anchors.verifyAnchorById entry.anchorId).mapError DpkiError.anchorError
    .ok entry

def invalidate (entityId : String) : Raise DpkiError DecentralizedPki Unit := do
  let s ← get
  match s.entries.lookup entityId with
  | none => throw .notFound
  | some entry => onAnchors (AnchorRegistry.revoke entry.anchorId entityId)

/-! ## Every way an operation can end -/

variable {sha256} {s s' : DecentralizedPki}

/-- the entry of a registration -/
def newEntry (sha256 : Bytes → Digest) (entityId : String) (publicKey : Bytes) (validFrom : UInt64)
    (validUntil : Option UInt64) : DpkiEntry :=
  ⟨entityId, (sha256 publicKey).toList, anchorIdOf sha256 publicKey, validFrom, validUntil⟩

theorem run_registerKey (entityId : String) (publicKey : Bytes) (validFrom : UInt64) (validUntil : Option UInt64)
    (timestamp : UInt64) (s : DecentralizedPki) :
    run (registerKey sha256 entityId publicKey validFrom validUntil timestamp) s =
      if publicKey = [] then (.error .emptyPublicKey, s)
      else if entityId ∈ s.entries then (.error .alreadyRegistered, s)
      else if anchorIdOf sha256 publicKey ∈ s.anchors.anchors then (.error (.anchorError .alreadyAnchored), s)
      else
        let entry := newEntry sha256 entityId publicKey validFrom validUntil
        (.ok entry, ⟨s.entries.insert entityId entry,
          s.anchors.put (anchorIdOf sha256 publicKey) (.new sha256 publicKey entityId timestamp)⟩) := by
  rw [registerKey, run_ite]
  dsimp only
  rw [run_get_bind, run_ite, run_bind, onAnchors, run_call, AnchorRegistry.run_register]
  split_ifs <;> rfl

theorem run_invalidate (entityId : String) (s : DecentralizedPki) :
    run (invalidate entityId) s =
      match s.entries.lookup entityId with
      | none => (.error .notFound, s)
      | some entry =>
        let result := run (AnchorRegistry.revoke entry.anchorId entityId) s.anchors
        (result.1.mapError .anchorError, { s with anchors := result.2 }) := by
  rw [invalidate, run_get_bind]
  cases s.entries.lookup entityId with
  | none => rfl
  | some entry => rfl

theorem isValidAt_ok_iff {entry : DpkiEntry} {now : UInt64} : entry.isValidAt now = .ok () ↔
    entry.validFrom ≤ now ∧ ∀ u, entry.validUntil = some u → now ≤ u := by
  rw [DpkiEntry.isValidAt]
  split_ifs with hfrom
  · exact iff_of_false (fun h => by cases h) fun h => absurd h.1 (UInt64.not_le.2 hfrom)
  · rw [UInt64.not_lt] at hfrom
    cases entry.validUntil with
    | none => simp [hfrom]
    | some u =>
      dsimp only
      split_ifs with huntil
      · refine iff_of_false (fun h => by cases h) fun h => ?_
        exact absurd (h.2 u rfl) (UInt64.not_le.2 huntil)
      · rw [UInt64.not_lt] at huntil
        simp [hfrom, huntil]

/-- what an entity is bound to, and whether the binding is revoked -/
def status (s : DecentralizedPki) (entityId : String) : Option (DpkiEntry × Bool) :=
  (s.entries.lookup entityId).bind fun entry => (s.anchors.lookup entry.anchorId).map fun anchor => (entry, anchor.revoked)

theorem status_eq_some_iff {entityId : String} {entry : DpkiEntry} {revoked : Bool} :
    s.status entityId = some (entry, revoked) ↔ s.entries.lookup entityId = some entry ∧
      ∃ anchor, s.anchors.lookup entry.anchorId = some anchor ∧ anchor.revoked = revoked := by
  rw [status]
  cases s.entries.lookup entityId with
  | none => simp
  | some e =>
    rw [Option.bind_some, Option.some.injEq]
    constructor
    · intro h
      obtain ⟨anchor, ha, hpair⟩ := Option.map_eq_some_iff.1 h
      cases hpair
      exact ⟨rfl, anchor, ha, rfl⟩
    · rintro ⟨rfl, anchor, ha, rfl⟩
      rw [ha]
      rfl

/-- **When an entity resolves.** -/
theorem resolve_ok_iff {entityId : String} {now : UInt64} {entry : DpkiEntry} : s.resolve entityId now = .ok entry ↔
    s.status entityId = some (entry, false) ∧ entry.validFrom ≤ now ∧ ∀ u, entry.validUntil = some u → now ≤ u := by
  rw [status_eq_some_iff, ← isValidAt_ok_iff, resolve]
  cases s.entries.lookup entityId with
  | none => simp
  | some e =>
    dsimp only
    constructor
    · intro h
      obtain ⟨u, hvalid, h⟩ := Outcome.bind_eq_ok h
      obtain ⟨anchor, hanchor, h⟩ := Outcome.bind_eq_ok h
      cases h
      have hverify : s.anchors.verifyAnchorById entry.anchorId = .ok anchor := by
        cases hv : s.anchors.verifyAnchorById entry.anchorId with
        | error e =>
          rw [hv] at hanchor
          cases hanchor
        | ok a =>
          rw [hv] at hanchor
          cases hanchor
          rfl
      exact ⟨⟨rfl, anchor, AnchorRegistry.verifyAnchorById_ok_iff.1 hverify⟩, hvalid⟩
    · rintro ⟨⟨he, anchor, hanchor⟩, hvalid⟩
      cases he
      rw [hvalid, Outcome.ok_bind, AnchorRegistry.verifyAnchorById_ok_iff.2 hanchor]
      rfl

/-! ## The two maps -/

/-- every entry has an anchor, which its entity owns -/
def Coupled (s : DecentralizedPki) : Prop := ∀ entityId entry, s.entries.lookup entityId = some entry →
  ∃ anchor, s.anchors.lookup entry.anchorId = some anchor ∧ anchor.ownerId = entityId

theorem coupled_new : Coupled new := by
  intro entityId entry h
  rw [new, Finmap.lookup_empty] at h
  cases h

/-- two entities do not share an anchor -/
theorem Coupled.anchorId_ne (h : Coupled s) {e e' : String} {entry entry' : DpkiEntry} (he : s.entries.lookup e = some entry)
    (he' : s.entries.lookup e' = some entry') (hne : e' ≠ e) : entry'.anchorId ≠ entry.anchorId := by
  obtain ⟨anchor, ha, howner⟩ := h e entry he
  obtain ⟨anchor', ha', howner'⟩ := h e' entry' he'
  intro heq
  rw [heq, ha] at ha'
  cases ha'
  exact hne (howner'.symm.trans howner)

/-- the anchor of an entity is not a new one -/
theorem Coupled.anchorId_ne_of_fresh (h : Coupled s) {e : String} {entry : DpkiEntry} (he : s.entries.lookup e = some entry)
    {anchorId : String} (hfresh : anchorId ∉ s.anchors.anchors) : entry.anchorId ≠ anchorId := by
  obtain ⟨anchor, ha, -⟩ := h e entry he
  intro heq
  rw [heq] at ha
  rw [← AnchorRegistry.lookup_eq_none_iff, ha] at hfresh
  cases hfresh

theorem status_eq_none_iff (h : Coupled s) {entityId : String} : s.status entityId = none ↔ entityId ∉ s.entries := by
  rw [← Finmap.lookup_eq_none, status]
  cases hl : s.entries.lookup entityId with
  | none => simp
  | some entry =>
    obtain ⟨anchor, ha, -⟩ := h entityId entry hl
    rw [Option.bind_some, ha]
    simp

/-- a registration that succeeds -/
def Registers (sha256 : Bytes → Digest) (s : DecentralizedPki) (entityId : String) (publicKey : Bytes) : Prop :=
  publicKey ≠ [] ∧ entityId ∉ s.entries ∧ anchorIdOf sha256 publicKey ∉ s.anchors.anchors

theorem registerKey_ok_iff {entityId : String} {publicKey : Bytes} {validFrom : UInt64} {validUntil : Option UInt64}
    {timestamp : UInt64} {entry : DpkiEntry} :
    run (registerKey sha256 entityId publicKey validFrom validUntil timestamp) s = (.ok entry, s') ↔
      Registers sha256 s entityId publicKey ∧ entry = newEntry sha256 entityId publicKey validFrom validUntil ∧
        s' = ⟨s.entries.insert entityId entry,
          s.anchors.put (anchorIdOf sha256 publicKey) (.new sha256 publicKey entityId timestamp)⟩ := by
  rw [run_registerKey, Registers]
  split_ifs with hnil hmem hanchor
  · simp [hnil]
  · simp [hmem]
  · simp [hanchor]
  · constructor
    · intro h
      cases h
      exact ⟨⟨hnil, hmem, hanchor⟩, rfl, rfl⟩
    · rintro ⟨-, rfl, rfl⟩
      rfl

theorem registerKey_error {entityId : String} {publicKey : Bytes} {validFrom : UInt64} {validUntil : Option UInt64}
    {timestamp : UInt64} {e : DpkiError}
    (h : run (registerKey sha256 entityId publicKey validFrom validUntil timestamp) s = (.error e, s')) : s' = s := by
  rw [run_registerKey] at h
  split_ifs at h
  · cases h
    rfl
  · cases h
    rfl
  · cases h
    rfl
  · cases h

/-- an entity owns its anchor, so that an invalidation fails only on an unknown one -/
theorem invalidate_run (h : Coupled s) (entityId : String) : run (invalidate entityId) s =
    match s.entries.lookup entityId with
    | none => (.error .notFound, s)
    | some entry =>
      match s.anchors.lookup entry.anchorId with
      | none => (.error (.anchorError .notFound), s)
      | some anchor => (.ok (), { s with anchors := s.anchors.put entry.anchorId { anchor with revoked := true } }) := by
  rw [run_invalidate]
  cases hl : s.entries.lookup entityId with
  | none => rfl
  | some entry =>
    obtain ⟨anchor, ha, howner⟩ := h entityId entry hl
    dsimp only
    rw [AnchorRegistry.run_revoke, ha]
    dsimp only
    rw [if_neg (not_not.2 howner)]
    rfl

theorem invalidate_ok_iff (h : Coupled s) {entityId : String} :
    (run (invalidate entityId) s).1 = .ok () ↔ entityId ∈ s.entries := by
  rw [invalidate_run h, ← Finmap.lookup_isSome]
  cases hl : s.entries.lookup entityId with
  | none => exact iff_of_false (fun h => by cases h) (by simp)
  | some entry =>
    obtain ⟨anchor, ha, -⟩ := h entityId entry hl
    dsimp only
    rw [ha]
    exact iff_of_true rfl rfl

/-! ## What an operation does to the status of the entities -/

theorem status_registerKey (h : Coupled s) {entityId : String} {publicKey : Bytes} {validFrom : UInt64}
    {validUntil : Option UInt64} {timestamp : UInt64} {entry : DpkiEntry}
    (hreg : run (registerKey sha256 entityId publicKey validFrom validUntil timestamp) s = (.ok entry, s')) :
    s'.status entityId = some (entry, false) ∧ ∀ e ≠ entityId, s'.status e = s.status e := by
  obtain ⟨⟨-, -, hfresh⟩, hentry, rfl⟩ := registerKey_ok_iff.1 hreg
  constructor
  · refine status_eq_some_iff.2 ⟨Finmap.lookup_insert _, .new sha256 publicKey entityId timestamp, ?_, rfl⟩
    rw [hentry]
    exact AnchorRegistry.lookup_put_self _ _ _
  · intro e he
    rw [status, status, Finmap.lookup_insert_of_ne _ he]
    cases hl : s.entries.lookup e with
    | none => rfl
    | some entry' =>
      -- the anchor of another entity is there already, so it is not the new one
      have hne := h.anchorId_ne_of_fresh hl hfresh
      rw [Option.bind_some, Option.bind_some, AnchorRegistry.lookup_put_of_ne hne]

theorem status_invalidate (h : Coupled s) {entityId : String} {entry : DpkiEntry} {revoked : Bool}
    (hs : s.status entityId = some (entry, revoked)) :
    (run (invalidate entityId) s).2.status entityId = some (entry, true) ∧
      ∀ e ≠ entityId, (run (invalidate entityId) s).2.status e = s.status e := by
  obtain ⟨hl, anchor, ha, -⟩ := status_eq_some_iff.1 hs
  have hrun : (run (invalidate entityId) s).2 =
      { s with anchors := s.anchors.put entry.anchorId { anchor with revoked := true } } := by
    rw [invalidate_run h, hl]
    dsimp only
    rw [ha]
  rw [hrun]
  constructor
  · exact status_eq_some_iff.2 ⟨hl, _, AnchorRegistry.lookup_put_self _ _ _, rfl⟩
  · intro e he
    rw [status, status]
    dsimp only
    cases hl' : s.entries.lookup e with
    | none => rfl
    | some entry' =>
      rw [Option.bind_some, Option.bind_some, AnchorRegistry.lookup_put_of_ne (h.anchorId_ne hl hl' he)]

end DecentralizedPki

end AbirGuard.Rust
