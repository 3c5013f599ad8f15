/-
Which runs of authentication failures does a compliance report name?

The report goes over the entries of an audit log, rule by rule (`audit/compliance.rs`). For consecutive failures it keeps the
indices of the current run in a buffer, and reports the buffer where a run ends and once more at the end of the log.
Floating-point numbers, which only the rule about the ratio of revocations uses, are a parameter.

- `indices_built`: the entries of a log built by `append` carry their positions.
- `checkConsecutiveAuthFailures_eq`: the loop reports the maximal runs that are too long.
- `evaluate_eq`: the violations of a report are those of its rules, one rule after another.
- `consecutive_failures_exact`: for a log built by `append`, each maximal run that is too long is reported once, in order, with
  its positions, and a report on this rule alone passes if and only if there is none.
-/
import AbirGuard.Core.MaximalRuns
import AbirGuard.Rust.AuditLog

namespace AbirGuard.Rust.Audit

open AbirGuard.Core MaximalRuns

/-! ## Model -/

inductive ComplianceError where
  | emptyLog
deriving DecidableEq, Repr

/-- the text of an error -/
def ComplianceError.message : ComplianceError → String
  | .emptyLog => "audit log must not be empty"

/-- the operations on `f64` -/
structure Floats (F : Type) where
  ofNat : ℕ → F
  div : F → F → F
  gt : F → F → Bool
  /-- `{:.2}` -/
  fixed2 : F → String

inductive ComplianceRule (F : Type) where
  | maxConsecutiveAuthFailures (maxConsecutive : ℕ)
  | requireCriticalOnRevocation
  | maxRevocationToRotationRatio (maxRatio : F)

structure ComplianceViolation where
  description : String
  entryIndices : List ℕ
deriving DecidableEq, Repr

structure ComplianceReport where
  totalEntries : ℕ
  violations : List ComplianceViolation
  passed : Bool
deriving DecidableEq, Repr

/-- `{:?}` -/
def Severity.debug : Severity → String
  | .info => "Info"
  | .warning => "Warning"
  | .critical => "Critical"

/-- what is reported of a run of failures -/
def consecutiveViolation (maxConsecutive : ℕ) (run : List ℕ) : ComplianceViolation :=
  ⟨s!"{run.length} consecutive auth.failure events (max allowed: {maxConsecutive})", run⟩

/-- where a run ends -/
def pushRun (maxConsecutive : ℕ) (run : List ℕ) (violations : List ComplianceViolation) : List ComplianceViolation :=
  if run.length > maxConsecutive then violations ++ [consecutiveViolation maxConsecutive run] else violations

/-- the body of the loop, on the buffer and the violations -/
def consecutiveStep (maxConsecutive : ℕ) (s : List ℕ × List ComplianceViolation) (entry : AuditEntry) :
    List ℕ × List ComplianceViolation :=
  if entry.action = "auth.failure" then (s.1 ++ [entry.index], s.2) else ([], pushRun maxConsecutive s.1 s.2)

def checkConsecutiveAuthFailures (entries : List AuditEntry) (maxConsecutive : ℕ) (violations : List ComplianceViolation) :
    List ComplianceViolation :=
  let (run, violations) := entries.foldl (consecutiveStep maxConsecutive) ([], violations)
  pushRun maxConsecutive run violations

def checkRevocationCriticality (entries : List AuditEntry) (violations : List ComplianceViolation) :
    List ComplianceViolation :=
  entries.foldl (fun violations entry =>
    if entry.action = "key.revoke" ∧ entry.severity ≠ .critical then
      violations ++ [⟨s!"key.revoke at index {entry.index} is not marked Critical (got {entry.severity.debug})", [entry.index]⟩]
    else violations) violations

variable {F : Type} (f : Floats F)

def checkRevocationRotationRatio (entries : List AuditEntry) (maxRatio : F) (violations : List ComplianceViolation) :
    List ComplianceViolation :=
  let revocations := entries.countP fun e => e.action = "key.revoke"
  let rotations := entries.countP fun e => e.action = "key.rotation"
  if rotations = 0 ∧ revocations > 0 then
    violations ++ [⟨s!"{revocations} key.revoke events with 0 key.rotation events (ratio undefined)", []⟩]
  else if rotations > 0 then
    let ratio := f.div (f.ofNat revocations) (f.ofNat rotations)
    if f.gt ratio maxRatio then
      violations ++ [⟨s!"revoke/rotation ratio {f.fixed2 ratio} exceeds allowed maximum {f.fixed2 maxRatio}", []⟩]
    else violations
  else violations

/-- the `match` on a rule -/
def ComplianceRule.check (entries : List AuditEntry) (violations : List ComplianceViolation) :
    ComplianceRule F → List ComplianceViolation
  | .maxConsecutiveAuthFailures maxConsecutive => checkConsecutiveAuthFailures entries maxConsecutive violations
  | .requireCriticalOnRevocation => checkRevocationCriticality entries violations
  | .maxRevocationToRotationRatio maxRatio => checkRevocationRotationRatio f entries maxRatio violations

def ComplianceReport.evaluate (log : AuditLog) (rules : List (ComplianceRule F)) :
    Except ComplianceError ComplianceReport :=
  if log.entries = [] then .error .emptyLog
  else
    let violations := rules.foldl (ComplianceRule.check f log.entries) []
    .ok ⟨log.entries.length, violations, violations.isEmpty⟩

/-! ## Positions -/

/-- each entry of a log built by `append` carries its position -/
theorem indices_built (sha256 : Bytes → Digest) (events : List Event) :
    (built sha256 events).entries.map AuditEntry.index = List.range (built sha256 events).entries.length := by
  induction events using List.reverseRecOn with
  | nil => rfl
  | append_singleton events e ih =>
    rw [built, List.foldl_append, List.foldl_cons, List.foldl_nil, ← built, AuditLog.append]
    split_ifs
    · exact ih
    · exact ih
    · rw [List.map_append, ih, List.length_append, List.length_singleton, List.range_succ]
      rfl

/-! ## The loop over the failures -/

/-- the entry is an authentication failure -/
def IsAuthFailure (e : AuditEntry) : Prop := e.action = "auth.failure"

instance : DecidablePred IsAuthFailure := fun e => inferInstanceAs (Decidable (e.action = "auth.failure"))

/-- what is reported of the runs that are too long -/
def reported (maxConsecutive : ℕ) (runs : List (ℕ × ℕ)) : List ComplianceViolation :=
  (runs.filter fun r => maxConsecutive < r.2).map fun r => consecutiveViolation maxConsecutive (List.range' r.1 r.2)

theorem pushRun_eq (maxConsecutive start len : ℕ) (violations : List ComplianceViolation) :
    pushRun maxConsecutive (List.range' start len) violations =
      violations ++ reported maxConsecutive (ended start len) := by
  rw [pushRun, List.length_range', reported, ended]
  split_ifs with hmax hlen hlen
  · omega
  · simp [show maxConsecutive < len from hmax]
  · simp
  · simp [show ¬ maxConsecutive < len from hmax]

/-- **The loop reports the maximal runs that are too long**, from a buffer that holds the current one. -/
theorem foldl_consecutiveStep (maxConsecutive : ℕ) {entries : List AuditEntry} {start len : ℕ}
    (hindex : entries.map AuditEntry.index = List.range' (start + len) entries.length) (violations : List ComplianceViolation) :
    let s := entries.foldl (consecutiveStep maxConsecutive) (List.range' start len, violations)
    pushRun maxConsecutive s.1 s.2 = violations ++ reported maxConsecutive (runsFrom IsAuthFailure start len entries) := by
  induction entries generalizing start len violations with
  | nil => exact pushRun_eq maxConsecutive start len violations
  | cons e entries ih =>
    rw [List.map_cons, List.length_cons, List.range'_succ, List.cons.injEq] at hindex
    obtain ⟨hhead, hindex⟩ := hindex
    rw [List.foldl_cons, consecutiveStep, runsFrom]
    by_cases hfail : e.action = "auth.failure"
    · rw [if_pos hfail, if_pos (show IsAuthFailure e from hfail), hhead]
      have hbuffer : List.range' start len ++ [start + len] = List.range' start (len + 1) := List.range'_1_concat.symm
      simp only [hbuffer]
      exact @ih start (len + 1) hindex violations
    · rw [if_neg hfail, if_neg (show ¬ IsAuthFailure e from hfail), pushRun_eq, reported, reported, List.filter_append,
        List.map_append, ← List.append_assoc]
      exact @ih (start + len + 1) 0 hindex _

/-- what the check adds for entries that carry their positions -/
theorem checkConsecutiveAuthFailures_eq {entries : List AuditEntry}
    (hindex : entries.map AuditEntry.index = List.range entries.length) (maxConsecutive : ℕ)
    (violations : List ComplianceViolation) :
    checkConsecutiveAuthFailures entries maxConsecutive violations =
      violations ++ reported maxConsecutive (runs IsAuthFailure entries) :=
  @foldl_consecutiveStep maxConsecutive entries 0 0 (hindex.trans List.range_eq_range') violations

/-! ## The report -/

theorem pushRun_append (maxConsecutive : ℕ) (run : List ℕ) (v w : List ComplianceViolation) :
    pushRun maxConsecutive run (v ++ w) = v ++ pushRun maxConsecutive run w := by
  rw [pushRun, pushRun]
  split_ifs
  · exact List.append_assoc ..
  · rfl

/-- a state of the loop with earlier violations before its own -/
def prepend (v : List ComplianceViolation) (s : List ℕ × List ComplianceViolation) : List ℕ × List ComplianceViolation :=
  (s.1, v ++ s.2)

theorem checkConsecutiveAuthFailures_append (entries : List AuditEntry) (maxConsecutive : ℕ) (v : List ComplianceViolation) :
    checkConsecutiveAuthFailures entries maxConsecutive v = v ++ checkConsecutiveAuthFailures entries maxConsecutive [] := by
  have hstep : ∀ s e, consecutiveStep maxConsecutive (prepend v s) e = prepend v (consecutiveStep maxConsecutive s e) := by
    intro s e
    rw [consecutiveStep, consecutiveStep]
    split_ifs
    · rfl
    · exact congrArg (Prod.mk []) (pushRun_append ..)
  have hfold : entries.foldl (consecutiveStep maxConsecutive) ([], v) =
      prepend v (entries.foldl (consecutiveStep maxConsecutive) ([], [])) := by
    rw [← List.foldl_hom (prepend v) hstep]
    simp [prepend]
  rw [checkConsecutiveAuthFailures, checkConsecutiveAuthFailures, hfold]
  exact pushRun_append ..

theorem checkRevocationCriticality_append (entries : List AuditEntry) (v : List ComplianceViolation) :
    checkRevocationCriticality entries v = v ++ checkRevocationCriticality entries [] := by
  rw [checkRevocationCriticality, checkRevocationCriticality, ← List.foldl_hom (v ++ ·), List.append_nil]
  intro w e
  split_ifs
  · exact List.append_assoc ..
  · rfl

theorem checkRevocationRotationRatio_append (entries : List AuditEntry) (maxRatio : F) (v : List ComplianceViolation) :
    checkRevocationRotationRatio f entries maxRatio v = v ++ checkRevocationRotationRatio f entries maxRatio [] := by
  simp only [checkRevocationRotationRatio]
  split_ifs <;> simp

/-- what a rule adds does not depend on what was found before -/
theorem check_append (entries : List AuditEntry) (rule : ComplianceRule F) (v : List ComplianceViolation) :
    rule.check f entries v = v ++ rule.check f entries [] := by
  cases rule with
  | maxConsecutiveAuthFailures maxConsecutive => exact checkConsecutiveAuthFailures_append entries maxConsecutive v
  | requireCriticalOnRevocation => exact checkRevocationCriticality_append entries v
  | maxRevocationToRotationRatio maxRatio => exact checkRevocationRotationRatio_append f entries maxRatio v

/-- what these rules find in a log, each for itself -/
def found (log : AuditLog) (rules : List (ComplianceRule F)) : List ComplianceViolation :=
  rules.flatMap fun rule => rule.check f log.entries []

/-- the violations of a report are those of its rules, one rule after another -/
theorem evaluate_eq (log : AuditLog) (rules : List (ComplianceRule F)) :
    ComplianceReport.evaluate f log rules =
      if log.entries = [] then .error .emptyLog
      else .ok ⟨log.entries.length, found f log rules, (found f log rules).isEmpty⟩ := by
  have hcheck : ComplianceRule.check f log.entries = fun v rule => v ++ rule.check f log.entries [] :=
    funext₂ fun v rule => check_append f log.entries rule v
  rw [ComplianceReport.evaluate, hcheck, ← List.flatMap_eq_foldl]
  rfl

/-- a maximal run of failures, longer than allowed -/
def TooLong (log : AuditLog) (maxConsecutive start len : ℕ) : Prop :=
  IsRun IsAuthFailure log.entries start len ∧ maxConsecutive < len

/-- **Each maximal run of failures that is longer than allowed is reported once, in the order of the log and with its
positions**, and a report on this rule alone passes if and only if there is no such run. -/
theorem consecutive_failures_exact (sha256 : Bytes → Digest) (events : List Event) (maxConsecutive : ℕ) :
    let log := built sha256 events
    ∃ runs : List (ℕ × ℕ),
      (runs.Pairwise fun r r' => r.1 + r.2 < r'.1) ∧
      (∀ start len, (start, len) ∈ runs ↔ TooLong log maxConsecutive start len) ∧
      (∀ pre post, ComplianceReport.evaluate f log (pre ++ .maxConsecutiveAuthFailures maxConsecutive :: post) =
        let violations := found f log pre ++
          runs.map (fun r => consecutiveViolation maxConsecutive (List.range' r.1 r.2)) ++ found f log post
        if log.entries = [] then .error .emptyLog else .ok ⟨log.entries.length, violations, violations.isEmpty⟩) ∧
      ∀ report, ComplianceReport.evaluate f log [.maxConsecutiveAuthFailures maxConsecutive] = .ok report →
        (report.passed = true ↔ ∀ start len, ¬ TooLong log maxConsecutive start len) := by
  intro log
  have hindex := indices_built sha256 events
  have hmem : ∀ start len, (start, len) ∈ (runs IsAuthFailure log.entries).filter (fun r => maxConsecutive < r.2) ↔
      TooLong log maxConsecutive start len := by
    intro start len
    rw [List.mem_filter, mem_runs_iff, decide_eq_true_iff, TooLong]
  have hfound : ∀ pre post : List (ComplianceRule F),
      found f log (pre ++ .maxConsecutiveAuthFailures maxConsecutive :: post) =
        found f log pre ++ reported maxConsecutive (runs IsAuthFailure log.entries) ++ found f log post := by
    intro pre post
    rw [found, List.flatMap_append, List.flatMap_cons, ← List.append_assoc]
    exact congrArg (found f log pre ++ · ++ found f log post) (checkConsecutiveAuthFailures_eq hindex maxConsecutive [])
  refine ⟨_, (runs_sorted log.entries).filter _, hmem, fun pre post => ?_, fun report hreport => ?_⟩
  · rw [evaluate_eq, hfound]
    rfl
  · rw [evaluate_eq] at hreport
    split_ifs at hreport
    cases hreport
    have halone : found f log [.maxConsecutiveAuthFailures maxConsecutive] =
        reported maxConsecutive (runs IsAuthFailure log.entries) := by
      simpa [found] using hfound [] []
    rw [List.isEmpty_iff, halone, reported, List.map_eq_nil_iff, List.eq_nil_iff_forall_not_mem]
    constructor
    · intro h start len htoo
      exact h (start, len) ((hmem start len).2 htoo)
    · intro h r hr
      exact h r.1 r.2 ((hmem r.1 r.2).1 hr)

end AbirGuard.Rust.Audit
