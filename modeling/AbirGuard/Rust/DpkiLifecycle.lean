/-
The life of a binding in the decentralised registry, over every run from the empty one.

- `coupled_run`: the two maps stay in step.
- `bound_iff`: a binding is in force if and only if it was registered and its entity was not invalidated since.
- `lifecycle`: when an entity resolves; an invalidation is final, hits nobody else and does not fail on a registered entity; a
  key is bound at most once; a failing registration changes nothing.
-/
import AbirGuard.Rust.Dpki

namespace AbirGuard.Rust.DecentralizedPki

open AbirGuard.Core Raise

/-! ## Runs -/

inductive Call where
  | registerKey (entityId : String) (publicKey : Bytes) (validFrom : UInt64) (validUntil : Option UInt64) (timestamp : UInt64)
  | invalidate (entityId : String)
  | resolve (entityId : String) (now : UInt64)
deriving DecidableEq

/-- the registry after a call, which may have failed -/
def step (sha256 : Bytes → Digest) (s : DecentralizedPki) : Call → DecentralizedPki
  | .registerKey entityId publicKey validFrom validUntil timestamp =>
    (run (DecentralizedPki.registerKey sha256 entityId publicKey validFrom validUntil timestamp) s).2
  | .invalidate entityId => (run (DecentralizedPki.invalidate entityId) s).2
  | .resolve _ _ => s

def after (sha256 : Bytes → Digest) (calls : List Call) : DecentralizedPki := Run.after (step sha256) new calls

/-- the call registers the entity under this entry -/
def Registered (sha256 : Bytes → Digest) (entityId : String) (entry : DpkiEntry) (s : DecentralizedPki) (c : Call) : Prop :=
  ∃ publicKey validFrom validUntil timestamp, c = .registerKey entityId publicKey validFrom validUntil timestamp ∧
    (run (DecentralizedPki.registerKey sha256 entityId publicKey validFrom validUntil timestamp) s).1 = .ok entry

/-- the call invalidates the entity -/
def Invalidated (entityId : String) (s : DecentralizedPki) (c : Call) : Prop :=
  c = .invalidate entityId ∧ (run (DecentralizedPki.invalidate entityId) s).1 = .ok ()

variable {sha256 : Bytes → Digest} {s : DecentralizedPki}

/-! ## Steps -/

/-- a registration succeeds, or changes nothing -/
theorem registerKey_cases (sha256 : Bytes → Digest) (entityId : String) (publicKey : Bytes) (validFrom : UInt64)
    (validUntil : Option UInt64) (timestamp : UInt64) (s : DecentralizedPki) :
    (∃ entry s', run (registerKey sha256 entityId publicKey validFrom validUntil timestamp) s = (.ok entry, s')) ∨
      ∃ e, run (registerKey sha256 entityId publicKey validFrom validUntil timestamp) s = (.error e, s) := by
  rcases hr : run (registerKey sha256 entityId publicKey validFrom validUntil timestamp) s with ⟨e | entry, s'⟩
  · exact Or.inr ⟨e, by rw [registerKey_error hr]⟩
  · exact Or.inl ⟨entry, s', rfl⟩

/-- an invalidation finds the binding of its entity, or changes nothing -/
theorem invalidate_cases (h : Coupled s) (entityId : String) :
    (∃ entry revoked, s.status entityId = some (entry, revoked) ∧ (run (invalidate entityId) s).1 = .ok ()) ∨
      s.status entityId = none ∧ (run (invalidate entityId) s).1 = .error .notFound ∧ (run (invalidate entityId) s).2 = s := by
  cases hs : s.status entityId with
  | some p =>
    refine Or.inl ⟨p.1, p.2, rfl, (invalidate_ok_iff h).2 ?_⟩
    by_contra hmem
    rw [(status_eq_none_iff h).2 hmem] at hs
    cases hs
  | none =>
    have hl := Finmap.lookup_eq_none.2 ((status_eq_none_iff h).1 hs)
    refine Or.inr ⟨rfl, ?_⟩
    rw [invalidate_run h, hl]
    exact ⟨rfl, rfl⟩

theorem coupled_step (sha256 : Bytes → Digest) (h : Coupled s) (c : Call) : Coupled (step sha256 s c) := by
  cases c with
  | registerKey entityId publicKey validFrom validUntil timestamp =>
    rw [step]
    obtain ⟨entry, s', hr⟩ | ⟨e, hr⟩ := registerKey_cases sha256 entityId publicKey validFrom validUntil timestamp s
    · obtain ⟨⟨-, -, hfresh⟩, hentry, hs'⟩ := registerKey_ok_iff.1 hr
      rw [hr, hs']
      intro e' entry' hl
      by_cases he : e' = entityId
      · rw [he, Finmap.lookup_insert, Option.some.injEq] at hl
        rw [← hl, hentry, he]
        exact ⟨_, AnchorRegistry.lookup_put_self _ _ _, rfl⟩
      · rw [Finmap.lookup_insert_of_ne _ he] at hl
        obtain ⟨anchor, ha, howner⟩ := h e' entry' hl
        have hne := h.anchorId_ne_of_fresh hl hfresh
        exact ⟨anchor, (AnchorRegistry.lookup_put_of_ne hne _ _).trans ha, howner⟩
    · rw [hr]
      exact h
  | invalidate entityId =>
    rw [step, invalidate_run h]
    cases hl : s.entries.lookup entityId with
    | none => exact h
    | some entry =>
      obtain ⟨anchor, ha, howner⟩ := h entityId entry hl
      dsimp only
      rw [ha]
      intro e' entry' hl'
      by_cases he : e' = entityId
      · rw [he] at hl'
        rw [hl] at hl'
        cases hl'
        exact ⟨_, AnchorRegistry.lookup_put_self _ _ _, howner.trans he.symm⟩
      · obtain ⟨anchor', ha', howner'⟩ := h e' entry' hl'
        exact ⟨anchor', (AnchorRegistry.lookup_put_of_ne (h.anchorId_ne hl hl' he) _ _).trans ha', howner'⟩
  | resolve entityId now => exact h

theorem coupled_run (sha256 : Bytes → Digest) (calls : List Call) : Coupled (after sha256 calls) := by
  have hstep : ∀ c ∈ calls, ∀ s, Coupled s → Coupled (step sha256 s c) := fun c _ _ h => coupled_step sha256 h c
  exact Run.after_inv hstep coupled_new

/-- what a step keeps in coupled registries it keeps over a run -/
theorem run_keeps {Q : DecentralizedPki → Prop} (hQ : ∀ s c, Coupled s → Q s → Q (step sha256 s c)) (h : Coupled s)
    (hs : Q s) (calls : List Call) : Q (Run.after (step sha256) s calls) := by
  have hstep : ∀ c ∈ calls, ∀ s, Coupled s ∧ Q s → Coupled (step sha256 s c) ∧ Q (step sha256 s c) :=
    fun c _ s hq => ⟨coupled_step sha256 hq.1 c, hQ s c hq.1 hq.2⟩
  have hboth : Coupled (Run.after (step sha256) s calls) ∧ Q (Run.after (step sha256) s calls) :=
    Run.after_inv hstep ⟨h, hs⟩
  exact hboth.2

/-- **A step and a binding in force**: a registration brings it about, and only an invalidation ends it. -/
theorem bound_step_iff (h : Coupled s) (entityId : String) (entry : DpkiEntry) (c : Call) :
    (step sha256 s c).status entityId = some (entry, false) ↔
      Registered sha256 entityId entry s c ∨ s.status entityId = some (entry, false) ∧ ¬ Invalidated entityId s c := by
  cases c with
  | registerKey e publicKey validFrom validUntil timestamp =>
    have hinv : ¬ Invalidated entityId s (.registerKey e publicKey validFrom validUntil timestamp) := fun h => by cases h.1
    rw [step]
    obtain ⟨entry', s', hr⟩ | ⟨err, hr⟩ := registerKey_cases sha256 e publicKey validFrom validUntil timestamp s
    · obtain ⟨hself, hother⟩ := status_registerKey h hr
      rw [hr]
      by_cases he : entityId = e
      · -- the entity was not registered before
        have hnone : s.status entityId = none := by
          rw [he, status_eq_none_iff h]
          exact (registerKey_ok_iff.1 hr).1.2.1
        rw [he] at hnone ⊢
        rw [hself, hnone]
        constructor
        · intro hentry
          cases hentry
          exact Or.inl ⟨publicKey, validFrom, validUntil, timestamp, rfl, by rw [hr]⟩
        · rintro (⟨_, _, _, _, hc, hok⟩ | ⟨hn, -⟩)
          · cases hc
            rw [hr] at hok
            cases hok
            rfl
          · cases hn
      · have hreg : ¬ Registered sha256 entityId entry s (.registerKey e publicKey validFrom validUntil timestamp) := by
          rintro ⟨_, _, _, _, hc, -⟩
          cases hc
          exact he rfl
        rw [hother entityId he, or_iff_right hreg]
        exact (and_iff_left hinv).symm
    · have hreg : ¬ Registered sha256 entityId entry s (.registerKey e publicKey validFrom validUntil timestamp) := by
        rintro ⟨_, _, _, _, hc, hok⟩
        cases hc
        rw [hr] at hok
        cases hok
      rw [hr, or_iff_right hreg]
      exact (and_iff_left hinv).symm
  | invalidate e =>
    have hreg : ¬ Registered sha256 entityId entry s (.invalidate e) := fun ⟨_, _, _, _, hc, _⟩ => by cases hc
    rw [step, or_iff_right hreg]
    obtain ⟨entry', revoked, hs, hok⟩ | ⟨hnone, herr, hsame⟩ := invalidate_cases h e
    · obtain ⟨hself, hother⟩ := status_invalidate h hs
      by_cases he : entityId = e
      · rw [he, hself]
        refine iff_of_false (fun h => by cases h) fun h => h.2 ⟨rfl, hok⟩
      · rw [hother entityId he]
        refine (and_iff_left ?_).symm
        rintro ⟨hc, -⟩
        cases hc
        exact he rfl
    · rw [hsame]
      refine (and_iff_left ?_).symm
      rintro ⟨hc, hok⟩
      cases hc
      rw [herr] at hok
      cases hok
  | resolve e now =>
    have hreg : ¬ Registered sha256 entityId entry s (.resolve e now) := fun ⟨_, _, _, _, hc, _⟩ => by cases hc
    rw [step, or_iff_right hreg]
    exact (and_iff_left fun h => by cases h.1).symm

/-- **A binding is in force** if and only if it was registered and its entity was not invalidated since. -/
theorem bound_iff (sha256 : Bytes → Digest) (calls : List Call) (entityId : String) (entry : DpkiEntry) :
    (after sha256 calls).status entityId = some (entry, false) ↔
      Run.Since (step sha256) (Registered sha256 entityId entry) (Invalidated entityId) new calls := by
  have hstep : ∀ s c, Coupled s → ((step sha256 s c).status entityId = some (entry, false) ↔
      Registered sha256 entityId entry s c ∨ s.status entityId = some (entry, false) ∧ ¬ Invalidated entityId s c) :=
    fun s c h => bound_step_iff h entityId entry c
  have hnew : new.status entityId ≠ some (entry, false) := by
    rw [status, new, Finmap.lookup_empty]
    intro h
    cases h
  exact Run.since_iff Coupled (fun s => s.status entityId = some (entry, false)) (fun s c h => coupled_step sha256 h c) hstep
    coupled_new hnew calls

/-! ## What a step keeps -/

/-- an entity stays registered -/
theorem mem_entries_step {entityId : String} (he : entityId ∈ s.entries) (c : Call) :
    entityId ∈ (step sha256 s c).entries := by
  cases c with
  | registerKey e publicKey validFrom validUntil timestamp =>
    rw [step, run_registerKey]
    split_ifs
    · exact he
    · exact he
    · exact he
    · exact Finmap.mem_insert.2 (Or.inr he)
  | invalidate e =>
    rw [step, run_invalidate]
    cases s.entries.lookup e <;> exact he
  | resolve e now => exact he

/-- an anchor stays -/
theorem mem_anchors_step (h : Coupled s) {id : String} (hid : id ∈ s.anchors.anchors) (c : Call) :
    id ∈ (step sha256 s c).anchors.anchors := by
  cases c with
  | registerKey e publicKey validFrom validUntil timestamp =>
    rw [step, run_registerKey]
    split_ifs
    · exact hid
    · exact hid
    · exact hid
    · exact Finmap.mem_insert.2 (Or.inr hid)
  | invalidate e =>
    rw [step, invalidate_run h]
    cases s.entries.lookup e with
    | none => exact hid
    | some entry =>
      dsimp only
      cases s.anchors.lookup entry.anchorId with
      | none => exact hid
      | some anchor => exact Finmap.mem_insert.2 (Or.inr hid)
  | resolve e now => exact hid

/-- a revoked binding stays revoked -/
theorem revoked_step (h : Coupled s) {entityId : String} (hrev : ∃ entry, s.status entityId = some (entry, true)) (c : Call) :
    ∃ entry, (step sha256 s c).status entityId = some (entry, true) := by
  obtain ⟨entry, hs⟩ := hrev
  cases c with
  | registerKey e publicKey validFrom validUntil timestamp =>
    rw [step]
    obtain ⟨entry', s', hr⟩ | ⟨err, hr⟩ := registerKey_cases sha256 e publicKey validFrom validUntil timestamp s
    · have hne : entityId ≠ e := by
        rintro rfl
        rw [(status_eq_none_iff h).2 (registerKey_ok_iff.1 hr).1.2.1] at hs
        cases hs
      rw [hr, (status_registerKey h hr).2 entityId hne]
      exact ⟨entry, hs⟩
    · rw [hr]
      exact ⟨entry, hs⟩
  | invalidate e =>
    rw [step]
    obtain ⟨entry', revoked, hs', -⟩ | ⟨-, -, hsame⟩ := invalidate_cases h e
    · obtain ⟨hself, hother⟩ := status_invalidate h hs'
      by_cases he : entityId = e
      · rw [he]
        exact ⟨entry', hself⟩
      · rw [hother entityId he]
        exact ⟨entry, hs⟩
    · rw [hsame]
      exact ⟨entry, hs⟩
  | resolve e now => exact ⟨entry, hs⟩

/-- what resolving an entity answers depends on its status alone -/
theorem resolve_congr {s t : DecentralizedPki} (hs : Coupled s) (ht : Coupled t) {entityId : String}
    (heq : t.status entityId = s.status entityId) (now : UInt64) : t.resolve entityId now = s.resolve entityId now := by
  have hresolve : ∀ u : DecentralizedPki, Coupled u → u.resolve entityId now =
      match u.status entityId with
      | none => .error .notFound
      | some (entry, revoked) =>
        entry.isValidAt now >>= fun _ => if revoked then .error (.anchorError .revoked) else .ok entry := by
    intro u hu
    rw [resolve, status]
    cases hl : u.entries.lookup entityId with
    | none => rfl
    | some entry =>
      obtain ⟨anchor, ha, -⟩ := hu entityId entry hl
      have hverify : u.anchors.verifyAnchorById entry.anchorId = if anchor.revoked then .error .revoked else .ok anchor := by
        rw [AnchorRegistry.lookup] at ha
        rw [AnchorRegistry.verifyAnchorById, ha]
      rw [Option.bind_some, ha, Option.map_some]
      dsimp only
      rw [hverify]
      cases entry.isValidAt now with
      | error e => rfl
      | ok u => cases anchor.revoked <;> rfl
  rw [hresolve s hs, hresolve t ht, heq]

/-! ## The lifecycle -/

/-- what holds of a run -/
structure Lifecycle (sha256 : Bytes → Digest) (calls : List Call) : Prop where
  /-- an entity resolves if it was registered, the time is in the window, and it was not invalidated since -/
  resolves : ∀ entityId now entry, (after sha256 calls).resolve entityId now = .ok entry ↔
    Run.Since (step sha256) (Registered sha256 entityId entry) (Invalidated entityId) new calls ∧
      entry.validFrom ≤ now ∧ ∀ u, entry.validUntil = some u → now ≤ u
  /-- an entity that was invalidated never resolves again -/
  final : ∀ pre entityId post, calls = pre ++ .invalidate entityId :: post →
    Invalidated entityId (after sha256 pre) (.invalidate entityId) →
    ∀ now entry, (after sha256 calls).resolve entityId now ≠ .ok entry
  /-- a key that was registered is never registered again -/
  keyOnce : ∀ pre entityId publicKey validFrom validUntil timestamp post entry,
    calls = pre ++ .registerKey entityId publicKey validFrom validUntil timestamp :: post →
    (run (registerKey sha256 entityId publicKey validFrom validUntil timestamp) (after sha256 pre)).1 = .ok entry →
    ∀ entityId' validFrom' validUntil' timestamp' entry',
      (run (registerKey sha256 entityId' publicKey validFrom' validUntil' timestamp') (after sha256 calls)).1 ≠ .ok entry'
  /-- an entity that was registered can be invalidated -/
  invalidateOk : ∀ pre c post entityId entry, calls = pre ++ c :: post → Registered sha256 entityId entry (after sha256 pre) c →
    (run (invalidate entityId) (after sha256 calls)).1 = .ok ()
  /-- an invalidation changes nothing for another entity -/
  invalidateFrame : ∀ entityId entityId', entityId' ≠ entityId → ∀ now,
    (run (invalidate entityId) (after sha256 calls)).2.resolve entityId' now = (after sha256 calls).resolve entityId' now
  /-- a registration that fails changes nothing -/
  registerAtomic : ∀ entityId publicKey validFrom validUntil timestamp e,
    (run (registerKey sha256 entityId publicKey validFrom validUntil timestamp) (after sha256 calls)).1 = .error e →
    (run (registerKey sha256 entityId publicKey validFrom validUntil timestamp) (after sha256 calls)).2 = after sha256 calls

theorem after_append_cons (pre : List Call) (c : Call) (post : List Call) :
    after sha256 (pre ++ c :: post) = Run.after (step sha256) (step sha256 (after sha256 pre) c) post := by
  rw [after, Run.after_append]
  rfl

theorem resolve_of_revoked {entityId : String} {entry : DpkiEntry} (hs : s.status entityId = some (entry, true)) (now : UInt64)
    (entry' : DpkiEntry) : s.resolve entityId now ≠ .ok entry' := by
  rw [Ne, resolve_ok_iff, hs]
  rintro ⟨h, -⟩
  cases h

theorem final_of_invalidated {pre : List Call} {entityId : String}
    (h : Invalidated entityId (after sha256 pre) (.invalidate entityId)) (post : List Call) :
    ∃ entry, (after sha256 (pre ++ .invalidate entityId :: post)).status entityId = some (entry, true) := by
  have hcoupled := coupled_run sha256 pre
  have hnow : ∃ entry, (step sha256 (after sha256 pre) (.invalidate entityId)).status entityId = some (entry, true) := by
    obtain ⟨entry, revoked, hs, -⟩ | ⟨-, herr, -⟩ := invalidate_cases hcoupled entityId
    · exact ⟨entry, (status_invalidate hcoupled hs).1⟩
    · rw [h.2] at herr
      cases herr
  rw [after_append_cons]
  exact run_keeps (fun s c hc hrev => revoked_step hc hrev c) (coupled_step sha256 hcoupled _) hnow post

/-- a key that was registered has an anchor from then on -/
theorem anchored_of_registered {pre : List Call} {entityId : String} {publicKey : Bytes} {validFrom : UInt64}
    {validUntil : Option UInt64} {timestamp : UInt64} {entry : DpkiEntry}
    (h : (run (registerKey sha256 entityId publicKey validFrom validUntil timestamp) (after sha256 pre)).1 = .ok entry)
    (post : List Call) :
    entityId ∈ (after sha256 (pre ++ .registerKey entityId publicKey validFrom validUntil timestamp :: post)).entries ∧
      anchorIdOf sha256 publicKey ∈
        (after sha256 (pre ++ .registerKey entityId publicKey validFrom validUntil timestamp :: post)).anchors.anchors := by
  have hcoupled := coupled_run sha256 pre
  have hrun : run (registerKey sha256 entityId publicKey validFrom validUntil timestamp) (after sha256 pre) =
      (.ok entry, (run (registerKey sha256 entityId publicKey validFrom validUntil timestamp) (after sha256 pre)).2) :=
    Prod.ext h rfl
  obtain ⟨-, -, hs'⟩ := registerKey_ok_iff.1 hrun
  rw [after_append_cons]
  refine run_keeps (Q := fun s => entityId ∈ s.entries ∧ anchorIdOf sha256 publicKey ∈ s.anchors.anchors)
    (fun s c hc hq => ⟨mem_entries_step hq.1 c, mem_anchors_step hc hq.2 c⟩) (coupled_step sha256 hcoupled _) ?_ post
  rw [step, hs']
  exact ⟨Finmap.mem_insert.2 (Or.inl rfl), Finmap.mem_insert.2 (Or.inl rfl)⟩

/-- **The lifecycle of the registry**, over every run from the empty one. -/
theorem lifecycle (sha256 : Bytes → Digest) (calls : List Call) : Lifecycle sha256 calls where
  resolves entityId now entry := by rw [resolve_ok_iff, bound_iff]
  final pre entityId post hcalls hinv now entry := by
    obtain ⟨entry', hs⟩ := final_of_invalidated hinv post
    rw [hcalls]
    exact resolve_of_revoked hs now entry
  keyOnce pre entityId publicKey validFrom validUntil timestamp post entry hcalls hreg entityId' validFrom' validUntil'
      timestamp' entry' := by
    have hanchored := (anchored_of_registered hreg post).2
    rw [← hcalls] at hanchored
    intro hok
    obtain ⟨entry₁, s', hr⟩ | ⟨e, hr⟩ := registerKey_cases sha256 entityId' publicKey validFrom' validUntil' timestamp'
      (after sha256 calls)
    · exact (registerKey_ok_iff.1 hr).1.2.2 hanchored
    · rw [hr] at hok
      cases hok
  invalidateOk pre c post entityId entry hcalls hreg := by
    obtain ⟨publicKey, validFrom, validUntil, timestamp, rfl, hok⟩ := hreg
    have hmem := (anchored_of_registered hok post).1
    rw [← hcalls] at hmem
    exact (invalidate_ok_iff (coupled_run sha256 calls)).2 hmem
  invalidateFrame entityId entityId' hne now := by
    have hcoupled := coupled_run sha256 calls
    obtain ⟨entry, revoked, hs, -⟩ | ⟨-, -, hsame⟩ := invalidate_cases hcoupled entityId
    · have hstep : Coupled (run (invalidate entityId) (after sha256 calls)).2 :=
        coupled_step sha256 hcoupled (.invalidate entityId)
      exact resolve_congr hcoupled hstep ((status_invalidate hcoupled hs).2 entityId' hne) now
    · rw [hsame]
  registerAtomic entityId publicKey validFrom validUntil timestamp e herr := registerKey_error (Prod.ext herr rfl)

end AbirGuard.Rust.DecentralizedPki
