/-
Roles and bindings scoped by organization and workspace.

Roles belong to an organization, bindings of role names to one user of one workspace of it. Both are nested dictionaries whose
levels are created on demand. A binding holds the name of a role and not the role, so a role that is created again under its
name changes what the principals bound to it may do.

- `names_step`, `roleOf_step`: what each call does to the names bound for a principal and to the role of a name.
- `isAllowed_iff`: what a principal may do, read off the run: some name was bound for it and not unbound since, and the last
  role created under that name in its organization grants the permission or ADMIN.
- `isAllowed_isolated`: a call about another organization, workspace or user changes no decision, except that a role of the
  principal's own organization is created.
- `rbac_spec`: the three together.
-/
import AbirGuard.Core.Dict
import AbirGuard.Core.Raise
import AbirGuard.Core.Run
import AbirGuard.Core.Text

namespace AbirGuard.Python.Rbac

open AbirGuard.Core Raise

/-! ## Model -/

inductive Permission where
  | read
  | write
  | rotate
  | revoke
  | admin
deriving DecidableEq, Repr

structure Principal where
  userId : Text
  organizationId : Text
  workspaceId : Text
deriving DecidableEq

structure Role where
  name : Text
  permissions : Finset Permission
deriving DecidableEq

structure RbacError where
  msg : Text
deriving DecidableEq

structure RbacManager where
  roles : Dict Text (Dict Text Role)
  bindings : Dict Text (Dict Text (Dict Text (Finset Text)))
deriving DecidableEq

namespace RbacManager

def new : RbacManager := ⟨.empty, .empty⟩

/-- `self._roles.get(organization_id, {})` -/
def orgRoles (s : RbacManager) (organizationId : Text) : Dict Text Role := (s.roles.get organizationId).getD .empty

/-- `self._bindings.get(principal.organization_id, {}).get(principal.workspace_id, {})` -/
def workspaceBindings (s : RbacManager) (principal : Principal) : Dict Text (Finset Text) :=
  (((s.bindings.get principal.organizationId).getD .empty).get principal.workspaceId).getD .empty

def createRole (organizationId : Text) (role : Role) : Raise RbacError RbacManager PUnit :=
  modify fun s => { s with roles := s.roles.setdefault organizationId .empty fun org => org.set role.name role }

def bindRole (principal : Principal) (roleName : Text) : Raise RbacError RbacManager PUnit := do
  let s ← get
  when ((s.orgRoles principal.organizationId).contains roleName = false) (throw ⟨"Role not found: " ++ roleName⟩)
  modify fun s => { s with
    bindings := s.bindings.setdefault principal.organizationId .empty fun org =>
      org.setdefault principal.workspaceId .empty fun workspace =>
        workspace.setdefault principal.userId ∅ fun names => insert roleName names }

def unbindRole (principal : Principal) (roleName : Text) : Raise RbacError RbacManager PUnit :=
  modify fun s =>
    match (s.workspaceBindings principal).get principal.userId with
    | some names => { s with
        -- the user has an entry, so the workspace and the organization have one
        bindings := s.bindings.setdefault principal.organizationId .empty fun org =>
          org.setdefault principal.workspaceId .empty fun workspace =>
            workspace.set principal.userId (names.erase roleName) }
    | none => s

/-- the names bound for a principal -/
def names (s : RbacManager) (principal : Principal) : Finset Text :=
  ((s.workspaceBindings principal).get principal.userId).getD ∅

def permissionsFor (s : RbacManager) (principal : Principal) : Finset Permission :=
  (s.names principal).biUnion fun name =>
    match (s.orgRoles principal.organizationId).get name with
    | some role => role.permissions
    | none => ∅

def isAllowed (s : RbacManager) (principal : Principal) (permission : Permission) : Bool :=
  let perms := s.permissionsFor principal
  .admin ∈ perms ∨ permission ∈ perms

end RbacManager

inductive Call where
  | createRole (organizationId : Text) (role : Role)
  | bindRole (principal : Principal) (roleName : Text)
  | unbindRole (principal : Principal) (roleName : Text)
deriving DecidableEq

def Call.exec : Call → Raise RbacError RbacManager PUnit
  | .createRole organizationId role => RbacManager.createRole organizationId role
  | .bindRole principal roleName => RbacManager.bindRole principal roleName
  | .unbindRole principal roleName => RbacManager.unbindRole principal roleName

/-- the state after a call, whether it returns or raises -/
def step (s : RbacManager) (c : Call) : RbacManager := (Raise.run c.exec s).2

/-- the call is a binding that does not raise -/
def Binds (p : Principal) (name : Text) (s : RbacManager) (c : Call) : Prop :=
  c = .bindRole p name ∧ (Raise.run c.exec s).1 = .ok ⟨⟩

def Unbinds (p : Principal) (name : Text) (_ : RbacManager) (c : Call) : Prop := c = .unbindRole p name

/-- the call creates a role under this name -/
def Creates (organizationId name : Text) (role : Role) (_ : RbacManager) (c : Call) : Prop :=
  c = .createRole organizationId role ∧ role.name = name

/-- the call is about this principal, or creates a role of its organization -/
def Call.Concerns (p : Principal) : Call → Prop
  | .createRole organizationId _ => organizationId = p.organizationId
  | .bindRole q _ => q = p
  | .unbindRole q _ => q = p

/-! ## What each call does -/

namespace RbacManager

variable {s : RbacManager} {p q : Principal} {name : Text}

/-- the role of a name in an organization -/
def roleOf (s : RbacManager) (organizationId name : Text) : Option Role := (s.orgRoles organizationId).get name

/-- a change of one workspace is not seen in another -/
theorem workspaceBindings_change (s : RbacManager) (p q : Principal) (f : Dict Text (Finset Text) → Dict Text (Finset Text)) :
    workspaceBindings { s with
        bindings := s.bindings.setdefault p.organizationId .empty fun org => org.setdefault p.workspaceId .empty f } q =
      if q.organizationId = p.organizationId ∧ q.workspaceId = p.workspaceId then f (s.workspaceBindings q)
      else s.workspaceBindings q := by
  unfold workspaceBindings
  by_cases horg : q.organizationId = p.organizationId
  · rw [horg, Dict.getD_setdefault_self]
    by_cases hws : q.workspaceId = p.workspaceId
    · simp [hws]
    · simp [hws, Dict.get_setdefault_of_ne (Ne.symm hws)]
  · simp [horg, Dict.get_setdefault_of_ne (Ne.symm horg)]

theorem names_change {f : Dict Text (Finset Text) → Dict Text (Finset Text)}
    (hf : ∀ d user, user ≠ p.userId → (f d).get user = d.get user) (q : Principal) :
    names { s with
        bindings := s.bindings.setdefault p.organizationId .empty fun org => org.setdefault p.workspaceId .empty f } q =
      if q = p then ((f (s.workspaceBindings p)).get p.userId).getD ∅ else s.names q := by
  rw [names, workspaceBindings_change]
  by_cases hq : q = p
  · rw [hq, if_pos ⟨rfl, rfl⟩, if_pos rfl]
  · rw [if_neg hq]
    split_ifs with hsame
    · have huser : q.userId ≠ p.userId := by
        intro huser
        apply hq
        cases q
        cases p
        simp_all
      rw [hf _ _ huser]
      rfl
    · rfl

theorem run_bindRole (s : RbacManager) (p : Principal) (name : Text) :
    ((s.roleOf p.organizationId name = none ∧
      Raise.run (bindRole p name) s = (.error ⟨"Role not found: " ++ name⟩, s)) ∨
    (s.roleOf p.organizationId name).isSome ∧ (Raise.run (bindRole p name) s).1 = .ok ⟨⟩ ∧
      (∀ org, (Raise.run (bindRole p name) s).2.orgRoles org = s.orgRoles org) ∧
      ∀ q, (Raise.run (bindRole p name) s).2.names q = if q = p then insert name (s.names p) else s.names q) := by
  rw [bindRole, run_get_bind]
  cases hrole : s.roleOf p.organizationId name with
  | none =>
    have hno : (s.orgRoles p.organizationId).contains name = false := by
      rw [Dict.contains]
      simpa [roleOf] using hrole
    exact Or.inl ⟨rfl, by rw [hno]; rfl⟩
  | some role =>
    have hyes : ¬ (s.orgRoles p.organizationId).contains name = false := by
      rw [Dict.contains]
      simp only [roleOf] at hrole
      simp [hrole]
    rw [run_bind_of_ok (run_when_of_not hyes _ s)]
    refine Or.inr ⟨rfl, rfl, fun _ => rfl, fun q => ?_⟩
    refine (names_change (fun d user huser => Dict.get_setdefault_of_ne (Ne.symm huser) ..) q).trans ?_
    rw [Dict.getD_setdefault_self]
    rfl

theorem unbindRole_frame (s : RbacManager) (p : Principal) (name : Text) :
    (∀ org, (Raise.run (unbindRole p name) s).2.orgRoles org = s.orgRoles org) ∧
      ∀ q, (Raise.run (unbindRole p name) s).2.names q = if q = p then (s.names p).erase name else s.names q := by
  rw [unbindRole, run_modify]
  dsimp only
  cases hnames : (s.workspaceBindings p).get p.userId with
  | none =>
    refine ⟨fun _ => rfl, fun q => ?_⟩
    split_ifs with hq
    · rw [hq, names, hnames]
      rfl
    · rfl
  | some ns =>
    refine ⟨fun _ => rfl, fun q => ?_⟩
    refine (names_change (fun d user huser => Dict.get_set_of_ne (Ne.symm huser) ..) q).trans ?_
    have hp : s.names p = ns := by
      rw [names, hnames]
      rfl
    rw [Dict.get_set_self, Option.getD_some, hp]

theorem roleOf_createRole (s : RbacManager) (org : Text) (role : Role) (org' name : Text) :
    (Raise.run (createRole org role) s).2.roleOf org' name =
      if org' = org ∧ name = role.name then some role else s.roleOf org' name := by
  rw [createRole, run_modify]
  unfold roleOf orgRoles
  by_cases horg : org' = org
  · subst horg
    rw [Dict.getD_setdefault_self]
    by_cases hname : name = role.name
    · simp [hname]
    · simp [hname, Dict.get_set_of_ne (Ne.symm hname)]
  · simp [horg, Dict.get_setdefault_of_ne (Ne.symm horg)]

end RbacManager

open RbacManager

variable {s : RbacManager} {p : Principal} {name : Text}

/-- a name is bound by a binding that returns, and by nothing else; only its unbinding takes it away -/
theorem names_step (s : RbacManager) (c : Call) (p : Principal) (name : Text) :
    name ∈ (step s c).names p ↔ Binds p name s c ∨ name ∈ s.names p ∧ ¬ Unbinds p name s c := by
  unfold Binds Unbinds
  cases c with
  | createRole org role => simp [step, Call.exec, createRole, names, workspaceBindings]
  | bindRole q n =>
    rw [step, Call.exec]
    rcases run_bindRole s q n with ⟨-, hrun⟩ | ⟨-, hok, -, hnames⟩
    · simp [hrun]
    · rw [hnames, hok]
      by_cases hp : p = q
      · subst hp
        simp [eq_comm]
      · simp [hp, Ne.symm hp]
  | unbindRole q n =>
    rw [step, Call.exec, (unbindRole_frame s q n).2]
    by_cases hp : p = q
    · subst hp
      simp [and_comm, eq_comm]
    · simp [hp, Ne.symm hp]

/-- the role of a name changes only by a role that is created under it -/
theorem roleOf_step (s : RbacManager) (c : Call) (org name : Text) :
    (step s c).roleOf org name = match c with
      | .createRole org' role => if org = org' ∧ name = role.name then some role else s.roleOf org name
      | _ => s.roleOf org name := by
  cases c with
  | createRole org' role => exact roleOf_createRole s org' role org name
  | bindRole q n =>
    rw [step, Call.exec]
    rcases run_bindRole s q n with ⟨-, hrun⟩ | ⟨-, -, hroles, -⟩
    · rw [hrun]
    · rw [roleOf, hroles]
      rfl
  | unbindRole q n => exact congrArg (Dict.get name) ((unbindRole_frame s q n).1 org)

/-! ## Runs -/

/-- a name is bound after a run if and only if it was bound and not unbound since -/
theorem mem_names_iff (run : List Call) (p : Principal) (name : Text) :
    name ∈ (Run.after step new run).names p ↔ Run.Since step (Binds p name) (Unbinds p name) new run := by
  have hnew : name ∉ new.names p := by simp [RbacManager.names, workspaceBindings, new]
  exact Run.since_iff (fun _ => True) (fun s => name ∈ s.names p) (fun _ _ _ => trivial)
    (fun s c _ => names_step s c p name) trivial hnew run

/-- the role of a name after a run is the last one created under it -/
theorem roleOf_iff (run : List Call) (org name : Text) (role : Role) :
    (Run.after step new run).roleOf org name = some role ↔
      Run.Since step (Creates org name role) (fun s c => ∃ role', Creates org name role' s c) new run := by
  refine Run.since_iff (fun _ => True) (fun s : RbacManager => s.roleOf org name = some role) (fun _ _ _ => trivial) ?_ trivial
    ?_ run
  · intro s c _
    rw [roleOf_step]
    unfold Creates
    cases c with
    | createRole org' role' =>
      by_cases hsame : org = org' ∧ name = role'.name
      · obtain ⟨rfl, rfl⟩ := hsame
        simp
        grind
      · simp [hsame]
        grind
    | bindRole q n => simp
    | unbindRole q n => simp
  · simp [roleOf, orgRoles, new]

theorem isAllowed_eq (s : RbacManager) (p : Principal) (perm : Permission) :
    s.isAllowed p perm = true ↔ ∃ name ∈ s.names p, ∃ role, s.roleOf p.organizationId name = some role ∧
      (.admin ∈ role.permissions ∨ perm ∈ role.permissions) := by
  have hmem : ∀ perm, perm ∈ s.permissionsFor p ↔
      ∃ name ∈ s.names p, ∃ role, s.roleOf p.organizationId name = some role ∧ perm ∈ role.permissions := by
    intro perm
    rw [permissionsFor, Finset.mem_biUnion]
    refine exists_congr fun name => and_congr_right fun _ => ?_
    unfold roleOf
    cases (s.orgRoles p.organizationId).get name <;> simp
  rw [isAllowed, decide_eq_true_eq, hmem, hmem, ← exists_or]
  refine exists_congr fun name => ?_
  rw [← and_or_left, ← exists_or]
  simp only [and_or_left]

theorem isAllowed_iff (run : List Call) (p : Principal) (perm : Permission) :
    (Run.after step new run).isAllowed p perm = true ↔
      ∃ name, Run.Since step (Binds p name) (Unbinds p name) new run ∧
        ∃ role, Run.Since step (Creates p.organizationId name role)
            (fun s c => ∃ role', Creates p.organizationId name role' s c) new run ∧
          (.admin ∈ role.permissions ∨ perm ∈ role.permissions) := by
  rw [isAllowed_eq]
  simp only [mem_names_iff, roleOf_iff]

/-- **A call that is not about a principal, nor about the roles of its organization, changes none of its decisions.** -/
theorem isAllowed_isolated (s : RbacManager) {c : Call} {p : Principal} (hc : ¬ c.Concerns p) (perm : Permission) :
    (step s c).isAllowed p perm = s.isAllowed p perm := by
  have hnames : ∀ name, name ∈ (step s c).names p ↔ name ∈ s.names p := by
    intro name
    rw [names_step]
    unfold Binds Unbinds
    cases c <;> grind [Call.Concerns]
  have hroles : ∀ name, (step s c).roleOf p.organizationId name = s.roleOf p.organizationId name := by
    intro name
    rw [roleOf_step]
    cases c with
    | createRole org role => exact if_neg fun h => hc h.1.symm
    | bindRole q n => rfl
    | unbindRole q n => rfl
  rw [Bool.eq_iff_iff, isAllowed_eq, isAllowed_eq]
  simp only [hnames, hroles]

theorem roleOf_none_iff (run : List Call) (org name : Text) :
    (Run.after step new run).roleOf org name = none ↔ ∀ role, .createRole org role ∈ run → role.name ≠ name := by
  induction run using List.reverseRecOn with
  | nil => simp [roleOf, orgRoles, new]
  | append_singleton run c ih =>
    rw [Run.after_append, Run.after_cons, Run.after_nil, roleOf_step]
    cases c with
    | createRole org' role =>
      by_cases hsame : org = org' ∧ name = role.name
      · obtain ⟨rfl, rfl⟩ := hsame
        simp
      · simp [hsame, ih]
        grind
    | bindRole q n => simp [ih]
    | unbindRole q n => simp [ih]

/-- **A binding raises if and only if no role of that name was created in the organization.** -/
theorem bindRole_error_iff (run : List Call) (p : Principal) (name : Text) :
    (Raise.run (bindRole p name) (Run.after step new run)).1 = .error ⟨"Role not found: " ++ name⟩ ↔
      ∀ role, .createRole p.organizationId role ∈ run → role.name ≠ name := by
  rw [← roleOf_none_iff]
  rcases run_bindRole (Run.after step new run) p name with ⟨hnone, hrun⟩ | ⟨hsome, hok, -⟩
  · simp [hnone, hrun]
  · rw [hok]
    refine iff_of_false (by simp) ?_
    intro hnone
    simp [hnone] at hsome

/-- a binding that raises leaves the state as it is -/
theorem bindRole_error (s : RbacManager) (p : Principal) (name : Text) {e : RbacError}
    (h : (Raise.run (bindRole p name) s).1 = .error e) : (Raise.run (bindRole p name) s).2 = s := by
  rcases run_bindRole s p name with ⟨-, hrun⟩ | ⟨-, hok, -⟩
  · rw [hrun]
  · rw [hok] at h
    cases h

/-- **What a principal may do is what the last roles created under the names bound for it grant; calls about others do not
change it; and a binding of a missing role raises and changes nothing.** -/
theorem rbac_spec (run : List Call) (p : Principal) (perm : Permission) :
    ((Run.after step new run).isAllowed p perm = true ↔
        ∃ name, Run.Since step (Binds p name) (Unbinds p name) new run ∧
          ∃ role, Run.Since step (Creates p.organizationId name role)
              (fun s c => ∃ role', Creates p.organizationId name role' s c) new run ∧
            (.admin ∈ role.permissions ∨ perm ∈ role.permissions)) ∧
      (∀ c : Call, ¬ c.Concerns p →
        (Run.after step new (run ++ [c])).isAllowed p perm = (Run.after step new run).isAllowed p perm) ∧
      ∀ q name, ((∀ role, .createRole q.organizationId role ∈ run → role.name ≠ name) ↔
          (Raise.run (bindRole q name) (Run.after step new run)).1 = .error ⟨"Role not found: " ++ name⟩) ∧
        ∀ e, (Raise.run (bindRole q name) (Run.after step new run)).1 = .error e →
          (Run.after step new (run ++ [.bindRole q name])).isAllowed p perm = (Run.after step new run).isAllowed p perm := by
  refine ⟨isAllowed_iff run p perm, ?_, ?_⟩
  · intro c hc
    rw [Run.after_append]
    exact isAllowed_isolated _ hc perm
  · intro q name
    refine ⟨(bindRole_error_iff run q name).symm, ?_⟩
    intro e he
    rw [Run.after_append]
    exact congrArg (fun s => s.isAllowed p perm) (bindRole_error _ q name he)

end AbirGuard.Python.Rbac
