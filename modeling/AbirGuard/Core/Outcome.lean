/-
Programs that may panic: outcomes, checked machine arithmetic and poisoned locks.

A panic is kept apart from an ordinary error value: a function that returns a result type and may also panic has type
`Outcome (Except ε α)`. Machine integers are natural numbers; an operation that would leave the range of its width
panics, as in a build with overflow checks, so a theorem that such a program returns also says that nothing overflowed
or underflowed on the way.

- `foldlM_sim`: a loop whose every step returns and follows a plain step on an abstraction of its state returns, and
  what it returns abstracts to the plain loop's value. `foldlM_zipIdx` is the form for an enumerated loop, `mapM_spec`
  the one for a map. `foldlM_mem` and `mapM_mem` go the other way: where the loop returned, so did every step.
- `Mutex`: a lock remembers that a panic happened while it was held, and refuses every later holder.
-/
import Mathlib.Tactic

namespace AbirGuard.Core

/-- a panic and its message -/
structure Panic where
  msg : String
deriving DecidableEq, Repr

/-- what a call ends with: a value, or a panic -/
abbrev Outcome (α : Type) := Except Panic α

namespace Outcome

def panic {α : Type} (msg : String) : Outcome α := .error ⟨msg⟩

/-- `assert!` -/
def assert (c : Bool) (msg : String) : Outcome Unit := if c then .ok () else panic msg

@[simp] theorem assert_true (msg : String) : assert true msg = .ok () := rfl

@[simp] theorem ok_bind {ε α β : Type} (a : α) (f : α → Except ε β) : ((.ok a : Except ε α) >>= f) = f a := rfl

theorem error_bind {ε α β : Type} (e : ε) (f : α → Except ε β) : ((.error e : Except ε α) >>= f) = .error e := rfl

@[simp] theorem map_ok {ε α β : Type} (a : α) (f : α → β) : f <$> (.ok a : Except ε α) = .ok (f a) := rfl

/-- what a sequence of two calls that returns went through -/
theorem bind_eq_ok {ε α β : Type} {x : Except ε α} {f : α → Except ε β} {b : β} (h : x >>= f = .ok b) :
    ∃ a, x = .ok a ∧ f a = .ok b := by
  cases x with
  | error e => cases h
  | ok a => exact ⟨a, rfl, h⟩

theorem map_eq_ok {ε α β : Type} {x : Except ε α} {f : α → β} {b : β} (h : f <$> x = .ok b) :
    ∃ a, x = .ok a ∧ f a = b := by
  cases x with
  | error e => cases h
  | ok a =>
    cases h
    exact ⟨a, rfl, rfl⟩

@[simp] theorem pure_eq {ε α : Type} (a : α) : (pure a : Except ε α) = .ok a := rfl

/-! ## Checked arithmetic on unsigned integers of w bits -/

def add (w a b : ℕ) : Outcome ℕ := if a + b < 2 ^ w then .ok (a + b) else panic "attempt to add with overflow"

def sub (a b : ℕ) : Outcome ℕ := if b ≤ a then .ok (a - b) else panic "attempt to subtract with overflow"

def mul (w a b : ℕ) : Outcome ℕ := if a * b < 2 ^ w then .ok (a * b) else panic "attempt to multiply with overflow"

theorem add_ok {w a b : ℕ} (h : a + b < 2 ^ w) : add w a b = .ok (a + b) := if_pos h

theorem sub_ok_iff {a b : ℕ} : (∃ d, sub a b = .ok d) ↔ b ≤ a := by
  unfold sub panic
  split_ifs with h <;> simp [h]

theorem sub_ok {a b : ℕ} (h : b ≤ a) : sub a b = .ok (a - b) := if_pos h

theorem mul_ok {w a b : ℕ} (h : a * b < 2 ^ w) : mul w a b = .ok (a * b) := if_pos h

/-- indexing a slice -/
def index {α : Type} (l : List α) (i : ℕ) : Outcome α :=
  match l[i]? with
  | some a => .ok a
  | none => panic "index out of bounds"

theorem index_ok {α : Type} {l : List α} {i : ℕ} (h : i < l.length) : index l i = .ok l[i] := by
  simp [index, List.getElem?_eq_getElem h]

theorem lt_of_index_ok {α : Type} {l : List α} {i : ℕ} {a : α} (h : index l i = .ok a) : i < l.length := by
  by_contra hge
  simp [index, List.getElem?_eq_none (Nat.le_of_not_lt hge), panic] at h

/-- assignment through an index -/
def setIndex {α : Type} (l : List α) (i : ℕ) (a : α) : Outcome (List α) :=
  if i < l.length then .ok (l.set i a) else panic "index out of bounds"

theorem setIndex_ok {α : Type} {l : List α} {i : ℕ} {a : α} (h : i < l.length) : setIndex l i a = .ok (l.set i a) :=
  if_pos h

/-! ## Loops -/

/-- a loop whose steps return, keep an invariant and follow a plain step on an abstraction of the state returns, and its
result abstracts to that of the plain loop -/
theorem foldlM_sim {α β γ : Type} {f : β → α → Outcome β} {g : γ → α → γ} (φ : β → γ) (Inv : β → Prop) {l : List α}
    (hstep : ∀ b, Inv b → ∀ a ∈ l, ∃ b', f b a = .ok b' ∧ Inv b' ∧ φ b' = g (φ b) a) {b : β} (hb : Inv b) :
    ∃ r, l.foldlM f b = .ok r ∧ Inv r ∧ φ r = l.foldl g (φ b) := by
  induction l generalizing b with
  | nil => exact ⟨b, rfl, hb, rfl⟩
  | cons a l ih =>
    obtain ⟨b', h1, h2, h3⟩ := hstep b hb a List.mem_cons_self
    obtain ⟨r, hr, hinv, hφ⟩ := ih (fun b hb a ha => hstep b hb a (List.mem_cons_of_mem _ ha)) h2
    refine ⟨r, ?_, hinv, ?_⟩
    · rw [List.foldlM_cons, h1, ok_bind]; exact hr
    · rw [hφ, h3, List.foldl_cons]

/-- a loop over an enumerated list, with an invariant that knows how many entries are done -/
theorem foldlM_zipIdx {α β : Type} {f : β → α × ℕ → Outcome β} (Inv : ℕ → β → Prop) {l : List α}
    (hstep : ∀ i, ∀ h : i < l.length, ∀ b, Inv i b → ∃ b', f b (l[i], i) = .ok b' ∧ Inv (i + 1) b') {b : β}
    (hb : Inv 0 b) : ∃ r, l.zipIdx.foldlM f b = .ok r ∧ Inv l.length r := by
  -- induction on the entries left, with the number k of those done
  have key : ∀ (rest : List α) (k : ℕ) (b : β), l.drop k = rest → Inv k b →
      ∃ r, (rest.zipIdx k).foldlM f b = .ok r ∧ Inv (k + rest.length) r := by
    intro rest
    induction rest with
    | nil =>
      intro k b _ hk
      exact ⟨b, rfl, by simpa using hk⟩
    | cons a rest ih =>
      intro k b hd hk
      have hlt : k < l.length := by
        by_contra hge
        rw [List.drop_eq_nil_of_le (by omega)] at hd
        exact List.cons_ne_nil _ _ hd.symm
      rw [List.drop_eq_getElem_cons hlt, List.cons.injEq] at hd
      obtain ⟨rfl, hd⟩ := hd
      obtain ⟨b', h1, h2⟩ := hstep k hlt b hk
      obtain ⟨r, hr, hinv⟩ := ih (k + 1) b' hd h2
      refine ⟨r, ?_, ?_⟩
      · rw [List.zipIdx_cons, List.foldlM_cons, h1, ok_bind]
        exact hr
      · rw [List.length_cons]
        rwa [show k + (rest.length + 1) = k + 1 + rest.length by omega]
  simpa using key l 0 b rfl hb

/-- a map whose every call returns a related value returns the related list -/
theorem mapM_spec {ε α β : Type} {f : α → Except ε β} (R : α → β → Prop) {l : List α}
    (h : ∀ a ∈ l, ∃ b, f a = .ok b ∧ R a b) : ∃ bs, l.mapM f = .ok bs ∧ List.Forall₂ R l bs := by
  induction l with
  | nil => exact ⟨[], rfl, .nil⟩
  | cons a l ih =>
    obtain ⟨b, hb, hR⟩ := h a List.mem_cons_self
    obtain ⟨bs, hbs, hF⟩ := ih fun a ha => h a (List.mem_cons_of_mem _ ha)
    refine ⟨b :: bs, ?_, .cons hR hF⟩
    rw [List.mapM_cons, hb, ok_bind, hbs, ok_bind]
    rfl

theorem mapM_ok {ε α β : Type} {f : α → Except ε β} {g : α → β} {l : List α} (h : ∀ a ∈ l, f a = .ok (g a)) :
    l.mapM f = .ok (l.map g) := by
  induction l with
  | nil => rfl
  | cons a l ih =>
    rw [List.mapM_cons, h a List.mem_cons_self, ok_bind, ih fun a ha => h a (List.mem_cons_of_mem _ ha), ok_bind]
    rfl

/-- every step of a loop that returns has returned -/
theorem foldlM_mem {ε α β : Type} {f : β → α → Except ε β} {l : List α} {b r : β} (h : l.foldlM f b = .ok r) :
    ∀ a ∈ l, ∃ b b', f b a = .ok b' := by
  induction l generalizing b with
  | nil => simp
  | cons a l ih =>
    rw [List.foldlM_cons] at h
    obtain ⟨b', hb, h⟩ := bind_eq_ok h
    intro x hx
    rcases List.mem_cons.1 hx with rfl | hx
    · exact ⟨b, b', hb⟩
    · exact ih h x hx

/-- a map that returns has returned from every call -/
theorem mapM_forall₂ {ε α β : Type} {f : α → Except ε β} {l : List α} {bs : List β} (h : l.mapM f = .ok bs) :
    List.Forall₂ (fun a b => f a = .ok b) l bs := by
  induction l generalizing bs with
  | nil =>
    cases h
    exact .nil
  | cons a l ih =>
    rw [List.mapM_cons] at h
    obtain ⟨b, hb, h⟩ := bind_eq_ok h
    obtain ⟨bs', hbs, h⟩ := bind_eq_ok h
    cases h
    exact .cons hb (ih hbs)

theorem mapM_mem {ε α β : Type} {f : α → Except ε β} {l : List α} {bs : List β} (h : l.mapM f = .ok bs) :
    ∀ a ∈ l, ∃ b, f a = .ok b := by
  have hF := mapM_forall₂ h
  intro a ha
  obtain ⟨i, hi, rfl⟩ := List.getElem_of_mem ha
  exact ⟨_, (List.forall₂_iff_get.1 hF).2 i hi (hF.length_eq ▸ hi)⟩

/-- a map returns exactly when every call does -/
theorem mapM_returns_iff {ε α β : Type} {f : α → Except ε β} {l : List α} :
    (∃ bs, l.mapM f = .ok bs) ↔ ∀ a ∈ l, ∃ b, f a = .ok b := by
  constructor
  · intro ⟨bs, hbs⟩
    exact mapM_mem hbs
  · intro h
    obtain ⟨bs, hbs, _⟩ := mapM_spec (fun _ _ => True) fun a ha => (h a ha).imp fun b hb => ⟨hb, trivial⟩
    exact ⟨bs, hbs⟩

/-- the error of a map is the error of one of its calls -/
theorem exists_of_mapM_error {ε α β : Type} {f : α → Except ε β} {l : List α} {e : ε} (h : l.mapM f = .error e) :
    ∃ a ∈ l, f a = .error e := by
  induction l with
  | nil => cases h
  | cons a l ih =>
    rw [List.mapM_cons] at h
    cases ha : f a with
    | error e' =>
      rw [ha] at h
      cases h
      exact ⟨a, List.mem_cons_self, ha⟩
    | ok b =>
      cases hl : l.mapM f with
      | error e' =>
        rw [ha, ok_bind, hl] at h
        cases h
        obtain ⟨x, hx, he⟩ := ih hl
        exact ⟨x, List.mem_cons_of_mem _ hx, he⟩
      | ok bs =>
        rw [ha, ok_bind, hl] at h
        cases h

/-- the first error of a map is its result -/
theorem mapM_error {ε α β : Type} {f : α → Except ε β} {a : α} {l : List α} {e : ε} (h : f a = .error e) :
    (a :: l).mapM f = .error e := by
  rw [List.mapM_cons, h]
  rfl

end Outcome

/-! ## Locks -/

/-- a lock over data; `poisoned` once a panic happened while it was held -/
structure Mutex (α : Type) where
  data : α
  poisoned : Bool
deriving DecidableEq, Repr

namespace Mutex

def new {α : Type} (a : α) : Mutex α := ⟨a, false⟩

/-- `lock().unwrap()` -/
def lock {α : Type} (m : Mutex α) : Outcome α :=
  if m.poisoned then Outcome.panic "called `Result::unwrap()` on an `Err` value: PoisonError { .. }" else .ok m.data

@[simp] theorem lock_mk_false {α : Type} (a : α) : (⟨a, false⟩ : Mutex α).lock = .ok a := rfl

/-- the lock after its holder ended with outcome o: a panic poisons it -/
def release {α β : Type} (m : Mutex α) (o : Outcome β) : Mutex α :=
  match o with
  | .ok _ => m
  | .error _ => { m with poisoned := true }

@[simp] theorem release_ok {α β : Type} (m : Mutex α) (b : β) : m.release (.ok b : Outcome β) = m := rfl

theorem lock_of {α : Type} {m : Mutex α} (h : m.poisoned = false) : m.lock = .ok m.data := by simp [lock, h]

theorem lock_poisoned {α : Type} {m : Mutex α} (h : m.poisoned = true) : ∃ p, m.lock = .error p := ⟨_, if_pos h⟩

@[simp] theorem release_data {α β : Type} (m : Mutex α) (o : Outcome β) : (m.release o).data = m.data := by cases o <;> rfl

@[simp] theorem release_poisoned {α β : Type} (m : Mutex α) (o : Outcome β) :
    (m.release o).poisoned = true ↔ m.poisoned = true ∨ ∃ p, o = .error p := by
  cases o <;> simp [release]

end Mutex

end AbirGuard.Core
