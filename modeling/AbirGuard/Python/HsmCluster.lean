/-
Routing of signatures over a cluster of HSM providers.

A call asks a healthy provider, of the preferred region if it has one, and takes the next such provider on a weighted cycle
over all of them. After twice as many probes as there are providers it falls back to the first healthy one.

- `run_sign`: a call in one equation.
- `sign_routes`: whom a call may ask, and when it raises.
- `choices_spec`: over calls under the same health and region, the choices are those of as many searches of the cycle, and the
  fallback where a search finds nobody.
- `choices_fair`: from any state, in as many calls as the cycle is long every eligible provider is asked at least as often as
  its weight says, and exactly that often if all are eligible.
- `cluster_routes_fairly`: the two together, over every run.
-/
import AbirGuard.Core.Wheel
import AbirGuard.Core.Raise
import AbirGuard.Core.Run
import AbirGuard.Python.Lang

namespace AbirGuard.Python.Hsm

open AbirGuard.Core Raise

/-! ## Model -/

/-- a provider of the cluster; what it runs on is known by its identity only -/
structure ClusterProvider (π : Type) where
  providerId : Text
  region : Text
  weight : ℤ
  provider : π
deriving DecidableEq

structure HsmClusterError where
  msg : Text
deriving DecidableEq

/-- what the providers answer during a call -/
structure Answers (π ε : Type) where
  isHealthy : π → Bool
  sign : π → Text → Bytes → Except ε Bytes

variable {π ε : Type}

/-- each index as often as its provider weighs, at least once -/
def weightedIds (providers : List (ClusterProvider π)) : List (Fin providers.length) :=
  (List.finRange providers.length).flatMap fun idx => List.replicate (max 1 (providers.get idx).weight).toNat idx

theorem weightedIds_ne_nil {providers : List (ClusterProvider π)} (h : providers ≠ []) : weightedIds providers ≠ [] := by
  intro hnil
  have hpos := List.length_pos_iff.2 h
  have hmem : ⟨0, hpos⟩ ∈ weightedIds providers := by
    refine List.mem_flatMap.2 ⟨_, List.mem_finRange _, List.mem_replicate.2 ⟨?_, rfl⟩⟩
    omega
  rw [hnil] at hmem
  cases hmem

/-- the cluster over a list of providers: where it is on its weighted cycle -/
structure HsmCluster (providers : List (ClusterProvider π)) where
  cycle : Wheel (Fin providers.length)
  weighted : cycle.items = weightedIds providers

variable {providers : List (ClusterProvider π)}

def new (providers : List (ClusterProvider π)) : Except Exc (HsmCluster providers) :=
  if h : providers = [] then .error ⟨.valueError, "providers cannot be empty"⟩
  else .ok ⟨⟨weightedIds providers, weightedIds_ne_nil h, 0⟩, rfl⟩

/-- the providers of the preferred region, if it has any -/
def candidates (providers : List (ClusterProvider π)) : Option Text → List (ClusterProvider π)
  | some preferredRegion =>
    let regional := providers.filter fun p => p.region = preferredRegion
    if regional.isEmpty then providers else regional
  | none => providers

/-- the healthy candidates, or all healthy providers if no candidate is healthy -/
def healthyOf (providers : List (ClusterProvider π)) (isHealthy : π → Bool) (preferredRegion : Option Text) :
    List (ClusterProvider π) :=
  let healthy := (candidates providers preferredRegion).filter fun p => isHealthy p.provider
  if healthy.isEmpty then providers.filter fun p => isHealthy p.provider else healthy

variable [DecidableEq π]

/-- the provider that is asked, and what it returns or raises -/
def sign (η : Answers π ε) (keyId : Text) (data : Bytes) (preferredRegion : Option Text) :
    Raise HsmClusterError (HsmCluster providers) (ClusterProvider π × Except ε Bytes) := do
  match healthyOf providers η.isHealthy preferredRegion with
  | [] => throw ⟨"no healthy HSM providers available"⟩
  | first :: rest =>
    let s ← get
    let found := s.cycle.find (fun idx => providers.get idx ∈ first :: rest) (providers.length * 2)
    set (⟨found.2, (s.cycle.find_items ..).trans s.weighted⟩ : HsmCluster providers)
    match found.1 with
    | some idx => pure (providers.get idx, η.sign (providers.get idx).provider keyId data)
    -- nobody was found by then
    | none => pure (first, η.sign first.provider keyId data)

structure Call (π ε : Type) where
  answers : Answers π ε
  keyId : Text
  data : Bytes
  preferredRegion : Option Text

def Call.exec (c : Call π ε) : Raise HsmClusterError (HsmCluster providers) (ClusterProvider π × Except ε Bytes) :=
  sign c.answers c.keyId c.data c.preferredRegion

/-- what a call ends with -/
def outcome (s : HsmCluster providers) (c : Call π ε) : Except HsmClusterError (ClusterProvider π × Except ε Bytes) :=
  (Raise.run c.exec s).1

def step (s : HsmCluster providers) (c : Call π ε) : HsmCluster providers := (Raise.run c.exec s).2

/-- the providers that the calls of a run ask, one after another; none for a call that raises -/
def choices (s : HsmCluster providers) : List (Call π ε) → List (Option (ClusterProvider π))
  | [] => []
  | c :: run => ((outcome s c).toOption.map Prod.fst) :: choices (step s c) run

/-- what a provider counts for on the cycle -/
def ClusterProvider.turns (p : ClusterProvider π) : ℤ := max 1 p.weight

/-- the provider is healthy, and of the preferred region if that has a healthy one -/
def Eligible (providers : List (ClusterProvider π)) (isHealthy : π → Bool) (preferredRegion : Option Text)
    (p : ClusterProvider π) : Prop :=
  p ∈ providers ∧ isHealthy p.provider ∧
    ∀ region, preferredRegion = some region → (∃ q ∈ providers, q.region = region ∧ isHealthy q.provider) → p.region = region

/-! ## Whom a call asks -/

variable {isHealthy : π → Bool} {preferredRegion : Option Text}

omit [DecidableEq π] in
theorem mem_candidates_iff {p : ClusterProvider π} : p ∈ candidates providers preferredRegion ↔ p ∈ providers ∧
    ∀ region, preferredRegion = some region → (∃ q ∈ providers, q.region = region) → p.region = region := by
  cases preferredRegion with
  | none => simp [candidates]
  | some region =>
    by_cases hno : (providers.filter fun p => p.region = region).isEmpty
    · have hnobody : ∀ q ∈ providers, q.region ≠ region := by simpa [List.isEmpty_iff] using hno
      simp only [candidates, hno, if_true]
      grind
    · have hsome : ∃ q ∈ providers, q.region = region := by simpa [List.isEmpty_iff] using hno
      simp only [candidates, hno]
      simp
      grind

omit [DecidableEq π] in
/-- the local `healthy` of a call lists the eligible providers -/
theorem mem_healthyOf_iff {p : ClusterProvider π} :
    p ∈ healthyOf providers isHealthy preferredRegion ↔ Eligible providers isHealthy preferredRegion p := by
  unfold Eligible healthyOf
  dsimp only
  have hmem : ∀ q, q ∈ ((candidates providers preferredRegion).filter fun p => isHealthy p.provider) ↔
      q ∈ candidates providers preferredRegion ∧ isHealthy q.provider := by
    intro q
    rw [List.mem_filter]
  by_cases hno : ((candidates providers preferredRegion).filter fun p => isHealthy p.provider).isEmpty
  · have hnobody : ∀ q ∈ candidates providers preferredRegion, ¬ isHealthy q.provider := by
      intro q hq hhealthy
      have hq := (hmem q).2 ⟨hq, hhealthy⟩
      rw [List.isEmpty_iff.1 hno] at hq
      cases hq
    rw [if_pos hno, List.mem_filter]
    simp only [mem_candidates_iff] at hnobody
    grind
  · obtain ⟨q, hq⟩ := List.exists_mem_of_ne_nil _ (mt List.isEmpty_iff.2 hno)
    rw [hmem, mem_candidates_iff] at hq
    rw [if_neg hno, hmem, mem_candidates_iff]
    grind

omit [DecidableEq π] in
theorem healthyOf_eq_nil_iff :
    healthyOf providers isHealthy preferredRegion = [] ↔ ∀ q ∈ providers, isHealthy q.provider = false := by
  rw [List.eq_nil_iff_forall_not_mem]
  simp only [mem_healthyOf_iff, Eligible]
  constructor
  · intro hnobody q hq
    by_contra hhealthy
    -- a healthy provider, of the preferred region if that has one
    by_cases hregion : ∃ region, preferredRegion = some region ∧ ∃ q ∈ providers, q.region = region ∧ isHealthy q.provider
    · obtain ⟨region, rfl, r, hr, hrr, hrh⟩ := hregion
      exact hnobody r ⟨hr, hrh, by rintro _ ⟨⟩ _; exact hrr⟩
    · refine hnobody q ⟨hq, by simpa using hhealthy, fun region hpref hsome => ?_⟩
      exact absurd ⟨region, hpref, hsome⟩ hregion
  · intro hno p hp
    simp [hno p hp.1] at hp

/-- the search that a call makes on the cycle -/
def search (s : HsmCluster providers) (healthy : List (ClusterProvider π)) :
    Option (Fin providers.length) × Wheel (Fin providers.length) :=
  s.cycle.find (fun idx => providers.get idx ∈ healthy) (providers.length * 2)

/-- where a search leads: to the provider found, or to the fallback -/
def choiceOf (first : ClusterProvider π) : Option (Fin providers.length) → ClusterProvider π
  | some idx => providers.get idx
  | none => first

theorem run_sign_nil {s : HsmCluster providers} {c : Call π ε}
    (h : healthyOf providers c.answers.isHealthy c.preferredRegion = []) :
    Raise.run c.exec s = (.error ⟨"no healthy HSM providers available"⟩, s) := by
  rw [Call.exec, sign, h]
  rfl

theorem run_sign_cons {s : HsmCluster providers} {c : Call π ε} {first : ClusterProvider π} {rest : List (ClusterProvider π)}
    (h : healthyOf providers c.answers.isHealthy c.preferredRegion = first :: rest) :
    outcome s c = .ok (choiceOf first (search s (first :: rest)).1,
        c.answers.sign (choiceOf first (search s (first :: rest)).1).provider c.keyId c.data) ∧
      (step s c).cycle = (search s (first :: rest)).2 := by
  rw [outcome, step, Call.exec, sign, h]
  dsimp only
  rw [run_get_bind, run_set_bind]
  unfold search
  cases (s.cycle.find (fun idx => providers.get idx ∈ first :: rest) (providers.length * 2)).1 with
  | some idx => exact ⟨rfl, rfl⟩
  | none => exact ⟨rfl, rfl⟩

/-- a call asks an eligible provider for the signature, and it raises if and only if nobody is healthy -/
theorem sign_routes (s : HsmCluster providers) (c : Call π ε) :
    (∀ p answer, outcome s c = .ok (p, answer) → Eligible providers c.answers.isHealthy c.preferredRegion p ∧
      answer = c.answers.sign p.provider c.keyId c.data) ∧
    ((∃ e, outcome s c = .error e) ↔ ∀ q ∈ providers, c.answers.isHealthy q.provider = false) := by
  have hnil : healthyOf providers c.answers.isHealthy c.preferredRegion = [] ↔ _ := healthyOf_eq_nil_iff
  rw [← hnil]
  cases hhealthy : healthyOf providers c.answers.isHealthy c.preferredRegion with
  | nil =>
    rw [outcome, run_sign_nil hhealthy]
    simp
  | cons first rest =>
    obtain ⟨hout, -⟩ := run_sign_cons (s := s) hhealthy
    have hchoice : choiceOf first (search s (first :: rest)).1 ∈ first :: rest := by
      obtain ⟨j, -, -, hfound, -⟩ := s.cycle.find_spec (fun idx => providers.get idx ∈ first :: rest) (providers.length * 2)
      cases hsearch : (search s (first :: rest)).1 with
      | none => exact List.mem_cons_self
      | some idx => exact of_decide_eq_true (hfound idx hsearch).1
    rw [hout]
    refine ⟨?_, by simp⟩
    intro p answer h
    cases h
    rw [← mem_healthyOf_iff, hhealthy]
    exact ⟨hchoice, rfl⟩

/-! ## How often each is asked -/

omit [DecidableEq π] in
theorem count_weightedIds (providers : List (ClusterProvider π)) (idx : Fin providers.length) :
    ((weightedIds providers).count idx : ℤ) = (providers.get idx).turns := by
  have hcount : (weightedIds providers).count idx = (max 1 (providers.get idx).weight).toNat := by
    have hzero : ∀ i, i ≠ idx → i ∈ List.finRange providers.length →
        (List.replicate (max 1 (providers.get i).weight).toNat i).count idx = 0 := by
      intro i hi _
      simp [List.count_replicate, hi]
    rw [weightedIds, List.count_flatMap]
    refine (List.sum_map_eq_nsmul_single idx _ hzero).trans ?_
    rw [List.count_eq_one_of_mem (List.nodup_finRange _) (List.mem_finRange idx), one_smul]
    exact List.count_replicate_self
  rw [hcount, ClusterProvider.turns]
  omega

omit [DecidableEq π] in
theorem length_weightedIds (providers : List (ClusterProvider π)) :
    ((weightedIds providers).length : ℤ) = (providers.map ClusterProvider.turns).sum := by
  have hturns : providers.map ClusterProvider.turns =
      (List.finRange providers.length).map fun idx => (providers.get idx).turns := by
    conv_lhs => rw [← List.map_get_finRange providers, List.map_map]
    rfl
  rw [hturns, weightedIds, List.length_flatMap, Nat.cast_list_sum, List.map_map]
  refine congrArg List.sum (List.map_congr_left fun idx _ => ?_)
  simp [ClusterProvider.turns]

/-- under the same health and region, the choices are those of as many searches of the cycle -/
theorem choices_spec {first : ClusterProvider π} {rest : List (ClusterProvider π)}
    (hhealthy : healthyOf providers isHealthy preferredRegion = first :: rest) {calls : List (Call π ε)}
    (hcalls : ∀ c ∈ calls, c.answers.isHealthy = isHealthy ∧ c.preferredRegion = preferredRegion) (s : HsmCluster providers) :
    choices s calls = (s.cycle.finds (fun idx => providers.get idx ∈ first :: rest) (providers.length * 2) calls.length).1.map
      fun found => some (choiceOf first found) := by
  induction calls generalizing s with
  | nil => rfl
  | cons c calls ih =>
    obtain ⟨hc, hregion⟩ := hcalls c List.mem_cons_self
    rw [← hc, ← hregion] at hhealthy
    obtain ⟨hout, hcycle⟩ := run_sign_cons (s := s) hhealthy
    rw [hc, hregion] at hhealthy
    have htail := ih (fun c hc => hcalls c (List.mem_cons_of_mem _ hc)) (step s c)
    rw [choices, htail, hout, hcycle, search]
    rfl

/-- **In as many calls as the cycle is long, under the same health and region, every eligible provider is asked at least as
often as it has turns, and exactly that often where all are eligible.** -/
theorem choices_fair (hdistinct : providers.Nodup) {calls : List (Call π ε)}
    (hcalls : ∀ c ∈ calls, c.answers.isHealthy = isHealthy ∧ c.preferredRegion = preferredRegion)
    (hlength : (calls.length : ℤ) = (providers.map ClusterProvider.turns).sum) (s : HsmCluster providers)
    {p : ClusterProvider π} (hp : Eligible providers isHealthy preferredRegion p) :
    p.turns ≤ (choices s calls).count (some p) ∧
      ((∀ q ∈ providers, Eligible providers isHealthy preferredRegion q) → ((choices s calls).count (some p) : ℤ) = p.turns) := by
  obtain ⟨idx, rfl⟩ := List.get_of_mem hp.1
  have hprobes : 0 < providers.length * 2 := by
    have := idx.pos
    omega
  have hround : calls.length = s.cycle.items.length := by
    have hlen := length_weightedIds providers
    rw [s.weighted]
    omega
  obtain ⟨first, rest, hhealthy⟩ : ∃ first rest, healthyOf providers isHealthy preferredRegion = first :: rest :=
    List.exists_cons_of_ne_nil (List.ne_nil_of_mem (mem_healthyOf_iff.2 hp))
  have hmem : ∀ i, providers.get i ∈ first :: rest ↔ Eligible providers isHealthy preferredRegion (providers.get i) := by
    intro i
    rw [← hhealthy, mem_healthyOf_iff]
  rw [choices_spec hhealthy hcalls, hround, ← count_weightedIds, ← s.weighted]
  constructor
  · have hfound := s.cycle.count_le_finds (fun i => decide (providers.get i ∈ first :: rest)) hprobes
      (decide_eq_true ((hmem idx).2 hp))
    exact_mod_cast hfound.trans (List.count_le_count_map (f := fun found => some (choiceOf first found)))
  · intro hall
    have haccepts : ∀ i ∈ s.cycle.items, decide (providers.get i ∈ first :: rest) = true := by
      intro i _
      exact decide_eq_true ((hmem i).2 (hall _ (List.get_mem ..)))
    have hinj : Function.Injective fun i => some (providers.get i) := fun i j hij =>
      List.nodup_iff_injective_get.1 hdistinct (Option.some.inj hij)
    rw [Wheel.finds_of_accepts haccepts hprobes, List.map_map]
    have hcount := List.count_map_of_injective ((List.range s.cycle.items.length).map s.cycle.peek) _ hinj idx
    rw [List.map_map, Wheel.count_map_range] at hcount
    exact_mod_cast hcount.trans (s.cycle.visits_period idx)

/-- **Every call of every run asks a healthy provider, of the preferred region if that has one, and raises if and only if
nobody is healthy. From wherever a run starts and leaves the cycle, calls under the same health and region share the eligible
providers by weight.** -/
theorem cluster_routes_fairly (hdistinct : providers.Nodup) (s : HsmCluster providers) (run : List (Call π ε)) :
    Run.EachStep step (fun s c =>
        (∀ p answer, outcome s c = .ok (p, answer) → p ∈ providers ∧ c.answers.isHealthy p.provider ∧
          (∀ region, c.preferredRegion = some region →
            (∃ q ∈ providers, q.region = region ∧ c.answers.isHealthy q.provider) → p.region = region) ∧
          answer = c.answers.sign p.provider c.keyId c.data) ∧
        ((∃ e, outcome s c = .error e) ↔ ∀ q ∈ providers, c.answers.isHealthy q.provider = false)) s run ∧
      ∀ (isHealthy : π → Bool) (preferredRegion : Option Text) (calls : List (Call π ε)),
        (∀ c ∈ calls, c.answers.isHealthy = isHealthy ∧ c.preferredRegion = preferredRegion) →
        (calls.length : ℤ) = (providers.map ClusterProvider.turns).sum →
        ∀ p, Eligible providers isHealthy preferredRegion p →
          p.turns ≤ (choices (Run.after step s run) calls).count (some p) ∧
          ((∀ q ∈ providers, Eligible providers isHealthy preferredRegion q) →
            ((choices (Run.after step s run) calls).count (some p) : ℤ) = p.turns) := by
  refine ⟨?_, ?_⟩
  · intro pre c post _
    obtain ⟨hasked, hraises⟩ := sign_routes (Run.after step s pre) c
    refine ⟨?_, hraises⟩
    intro p answer h
    obtain ⟨⟨hp, hhealthy, hregion⟩, hanswer⟩ := hasked p answer h
    exact ⟨hp, hhealthy, hregion, hanswer⟩
  · intro isHealthy preferredRegion calls hcalls hlength p hp
    exact choices_fair hdistinct hcalls hlength _ hp

/-- two providers of two regions, one of weight 2 and one of a weight below 1 -/
def twoProviders : List (ClusterProvider Bool) := [⟨"hsm-1", "eu", 2, false⟩, ⟨"hsm-2", "us", -3, true⟩]

/-- a call while both are healthy -/
def anyCall : Call Bool Unit := ⟨⟨fun _ => true, fun _ _ data => .ok data⟩, "k", [], none⟩

theorem cluster_routes_fairly_two : ∃ s, new twoProviders = .ok s ∧
    ((choices s [anyCall, anyCall, anyCall]).count (some ⟨"hsm-1", "eu", 2, false⟩) : ℤ) = 2 := by
  have hall : ∀ q ∈ twoProviders, Eligible twoProviders (fun _ => true) none q := by
    intro q hq
    exact ⟨hq, rfl, by simp⟩
  obtain ⟨s, hs⟩ : ∃ s, new twoProviders = .ok s := ⟨_, rfl⟩
  have hfair := (cluster_routes_fairly (by decide) s []).2 (fun _ => true) none [anyCall, anyCall, anyCall] (by simp [anyCall])
    (by decide) ⟨"hsm-1", "eu", 2, false⟩ (hall _ (by decide))
  exact ⟨s, hs, hfair.2 hall⟩

end AbirGuard.Python.Hsm
