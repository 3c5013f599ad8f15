/-
Lists in which each entry carries the hash of its payload and of the digest before it.

The hash is any function of a digest and a payload. What is asked of it concerns the pairs that it is applied to along the
lists in question (`inputs`) and no others: that it is injective on them, and that it never returns the digest which the
chain starts from.

- `chained_append`, `chained_snoc`: chains in parts.
- `tip_injective`: along a chain no digest comes back, so a digest determines all that stands before it.
- `chained_retouched_iff`: with the digests kept, the list is still a chain if and only if every payload is kept.
- `chained_rearranged_iff`: of the lists made of entries of a chain, exactly the prefixes are chains.

In another kind of chain each entry carries a name of the whole entry before it, and the first one none. There the last entry
determines the list, as far as the names tell entries apart (`linked_eq_of_last`).
-/
import Mathlib.Data.List.Forall2
import Mathlib.Data.List.Infix
import Mathlib.Data.Set.Function
import Mathlib.Tactic.Common

namespace AbirGuard.Core.HashChain

variable {α β D : Type} (payload : α → β) (digest : α → D) (h : D → β → D)

/-! ## Chains -/

/-- the digest after a list that starts from z -/
def tip (z : D) (l : List α) : D := l.foldl (fun _ e => digest e) z

def Chained (z : D) : List α → Prop
  | [] => True
  | e :: l => digest e = h z (payload e) ∧ Chained (digest e) l

/-- the pairs that the hash is applied to along a list -/
def inputs (z : D) : List α → List (D × β)
  | [] => []
  | e :: l => (z, payload e) :: inputs (digest e) l

variable {payload digest h}

@[simp] theorem tip_nil (z : D) : tip digest z [] = z := rfl

@[simp] theorem tip_snoc (z : D) (l : List α) (e : α) : tip digest z (l ++ [e]) = digest e := by
  rw [tip, List.foldl_append]
  rfl

theorem chained_append {z : D} {l l' : List α} :
    Chained payload digest h z (l ++ l') ↔ Chained payload digest h z l ∧ Chained payload digest h (tip digest z l) l' := by
  induction l generalizing z with
  | nil => exact (iff_of_eq (true_and _)).symm
  | cons e l ih => exact (and_congr_right fun _ => ih).trans and_assoc.symm

theorem chained_snoc {z : D} {l : List α} {e : α} :
    Chained payload digest h z (l ++ [e]) ↔ Chained payload digest h z l ∧ digest e = h (tip digest z l) (payload e) := by
  rw [chained_append]
  exact and_congr_right fun _ => iff_of_eq (and_true _)

theorem inputs_append (z : D) (l l' : List α) :
    inputs payload digest z (l ++ l') = inputs payload digest z l ++ inputs payload digest (tip digest z l) l' := by
  induction l generalizing z with
  | nil => rfl
  | cons e l ih => exact congrArg _ (ih _)

theorem inputs_snoc (z : D) (l : List α) (e : α) :
    inputs payload digest z (l ++ [e]) = inputs payload digest z l ++ [(tip digest z l, payload e)] := inputs_append z l [e]

theorem Chained.of_prefix {z : D} {l l' : List α} (hl : Chained payload digest h z l) (hp : l' <+: l) :
    Chained payload digest h z l' := by
  obtain ⟨rest, rfl⟩ := hp
  exact (chained_append.1 hl).1

/-- at every entry of a chain, the pair of the digest before it and its payload is an input -/
theorem Chained.at {z : D} {l a b : List α} {e : α} (hl : Chained payload digest h z l) (heq : l = a ++ e :: b) :
    digest e = h (tip digest z a) (payload e) ∧ (tip digest z a, payload e) ∈ inputs payload digest z l := by
  rw [heq, chained_append] at hl
  refine ⟨hl.2.1, ?_⟩
  rw [heq, inputs_append]
  exact List.mem_append_right _ List.mem_cons_self

/-! ## What a chain determines -/

section

variable {z : D} {l : List α} (hl : Chained payload digest h z l)

include hl

/-- **With the digests kept**, a list is a chain if and only if every payload is kept. -/
theorem chained_retouched_iff {l' : List α} (hd : l'.map digest = l.map digest)
    (hinj : Set.InjOn (fun p : D × β => h p.1 p.2)
      {p | p ∈ inputs payload digest z l ∨ p ∈ inputs payload digest z l'}) :
    Chained payload digest h z l' ↔ l'.map payload = l.map payload := by
  induction l generalizing z l' with
  | nil =>
    rw [List.map_nil, List.map_eq_nil_iff] at hd
    rw [hd]
    exact iff_of_true trivial rfl
  | cons e l ih =>
    cases l' with
    | nil => cases hd
    | cons e' l' =>
      rw [List.map_cons, List.map_cons, List.cons.injEq] at hd
      rw [List.map_cons, List.map_cons, List.cons.injEq]
      have hrest : Chained payload digest h (digest e') l' ↔ l'.map payload = l.map payload := by
        rw [hd.1]
        refine ih hl.2 hd.2 (hinj.mono ?_)
        rintro p (hp | hp)
        · exact Or.inl (List.mem_cons_of_mem _ hp)
        · exact Or.inr (List.mem_cons_of_mem _ (by rwa [hd.1]))
      refine and_congr ?_ hrest
      have hhead : h z (payload e') = h z (payload e) ↔ payload e' = payload e := by
        constructor
        · intro heq
          exact congrArg Prod.snd (hinj (Or.inr List.mem_cons_self) (Or.inl List.mem_cons_self) heq)
        · intro heq
          rw [heq]
      rw [hd.1, hl.1, eq_comm, hhead]

variable (hinj : Set.InjOn (fun p : D × β => h p.1 p.2) {p | p ∈ inputs payload digest z l})
  (hz : ∀ p ∈ inputs payload digest z l, h p.1 p.2 ≠ z)

include hinj hz

/-- **Along a chain no digest comes back.** -/
theorem tip_injective {a b : List α} (ha : a <+: l) (hb : b <+: l) (htip : tip digest z a = tip digest z b) : a = b := by
  induction a using List.reverseRecOn generalizing b with
  | nil =>
    -- the start of the chain is no digest of it
    induction b using List.reverseRecOn with
    | nil => rfl
    | append_singleton b e _ =>
      obtain ⟨rest, hrest⟩ := hb
      obtain ⟨hdig, hmem⟩ := hl.at (hrest.symm.trans (List.append_assoc ..))
      rw [tip_nil, tip_snoc, hdig] at htip
      exact absurd htip.symm (hz _ hmem)
  | append_singleton a e ih =>
    obtain ⟨rest, hrest⟩ := ha
    obtain ⟨hdig, hmem⟩ := hl.at (hrest.symm.trans (List.append_assoc ..))
    induction b using List.reverseRecOn with
    | nil =>
      rw [tip_nil, tip_snoc, hdig] at htip
      exact absurd htip (hz _ hmem)
    | append_singleton b e' _ =>
      obtain ⟨rest', hrest'⟩ := hb
      obtain ⟨hdig', hmem'⟩ := hl.at (hrest'.symm.trans (List.append_assoc ..))
      rw [tip_snoc, tip_snoc, hdig, hdig'] at htip
      have hpair := hinj hmem hmem' htip
      have hab : a = b := ih ⟨e :: rest, by rw [← hrest, List.append_assoc]; rfl⟩
        ⟨e' :: rest', by rw [← hrest', List.append_assoc]; rfl⟩ (congrArg Prod.fst hpair)
      rw [hab, List.append_assoc] at hrest
      rw [List.append_assoc, ← hrest] at hrest'
      have he := List.append_cancel_left hrest'
      rw [List.singleton_append, List.singleton_append, List.cons.injEq] at he
      rw [hab, he.1]

/-- **Of the lists made of entries of a chain, exactly its prefixes are chains.** -/
theorem chained_rearranged_iff {l' : List α} (hmem : ∀ e ∈ l', e ∈ l)
    (hinj' : Set.InjOn (fun p : D × β => h p.1 p.2)
      {p | p ∈ inputs payload digest z l ∨ p ∈ inputs payload digest z l'}) :
    Chained payload digest h z l' ↔ l' <+: l := by
  refine ⟨fun hl' => ?_, hl.of_prefix⟩
  induction l' using List.reverseRecOn with
  | nil => exact List.nil_prefix
  | append_singleton l' e ih =>
    rw [chained_snoc] at hl'
    have hpre : l' <+: l := by
      refine ih (fun e' he' => hmem e' (List.mem_append_left _ he')) (hinj'.mono ?_) hl'.1
      rintro p (hp | hp)
      · exact Or.inl hp
      · exact Or.inr (by rw [inputs_snoc]; exact List.mem_append_left _ hp)
    -- the entry stands in the chain after some prefix, whose tip it names
    obtain ⟨a, b, hab⟩ := List.append_of_mem (hmem e (List.mem_append_right _ List.mem_cons_self))
    obtain ⟨hdig, hin⟩ := hl.at hab
    have hlast : (tip digest z l', payload e) ∈ inputs payload digest z (l' ++ [e]) := by
      rw [inputs_snoc]
      exact List.mem_append_right _ List.mem_cons_self
    have hpair := hinj' (Or.inr hlast) (Or.inl hin) (hl'.2.symm.trans hdig)
    have heq : l' = a := tip_injective hl hinj hz hpre ⟨e :: b, hab.symm⟩ (congrArg Prod.fst hpair)
    rw [heq, hab]
    exact ⟨b, by rw [List.append_assoc]; rfl⟩

end

/-! ## Entries that name the one before them -/

variable {N : Type} (link : α → Option N) (name : α → N)

/-- each entry links to the one before it, and the first one to what comes before the list -/
def Linked (prev : Option N) : List α → Prop
  | [] => True
  | e :: l => link e = prev ∧ Linked (some (name e)) l

/-- what an entry after a list links to -/
def lastName (prev : Option N) (l : List α) : Option N := l.foldl (fun _ e => some (name e)) prev

variable {link name}

@[simp] theorem lastName_nil (prev : Option N) : lastName name prev [] = prev := rfl

@[simp] theorem lastName_snoc (prev : Option N) (l : List α) (e : α) : lastName name prev (l ++ [e]) = some (name e) := by
  rw [lastName, List.foldl_append]
  rfl

theorem lastName_none (l : List α) : lastName name none l = l.getLast?.map name := by
  induction l using List.reverseRecOn with
  | nil => rfl
  | append_singleton l e _ => rw [lastName_snoc, List.getLast?_concat, Option.map_some]

theorem linked_snoc {prev : Option N} {l : List α} {e : α} :
    Linked link name prev (l ++ [e]) ↔ Linked link name prev l ∧ link e = lastName name prev l := by
  induction l generalizing prev with
  | nil => simp [Linked]
  | cons d l ih => exact (and_congr_right fun _ => ih).trans and_assoc.symm

/-- **The last entry determines the whole list**, up to a relation that fixes the links and that entries of one name have. -/
theorem linked_eq_of_last {R : α → α → Prop} {l l' : List α} {e e' : α} (hl : Linked link name none (l ++ [e]))
    (hl' : Linked link name none (l' ++ [e'])) (hlink : ∀ a b, R a b → link a = link b)
    (hname : ∀ a ∈ l, ∀ b ∈ l', name a = name b → R a b) (hlast : R e e') :
    List.Forall₂ R (l ++ [e]) (l' ++ [e']) := by
  induction l using List.reverseRecOn generalizing l' e e' with
  | nil =>
    -- the first entry links to nothing, so the other list has no entry before the last either
    have hnone := (linked_snoc.1 hl').2.symm.trans ((hlink e e' hlast).symm.trans (linked_snoc.1 hl).2)
    induction l' using List.reverseRecOn with
    | nil => simpa using hlast
    | append_singleton l' d' _ => simp at hnone
  | append_singleton l d ih =>
    have hnames := (linked_snoc.1 hl').2.symm.trans ((hlink e e' hlast).symm.trans (linked_snoc.1 hl).2)
    induction l' using List.reverseRecOn with
    | nil => simp at hnames
    | append_singleton l' d' _ =>
      rw [lastName_snoc, lastName_snoc, Option.some.injEq] at hnames
      have hd : R d d' := hname d (by simp) d' (by simp) hnames.symm
      have hbefore := ih (linked_snoc.1 hl).1 (linked_snoc.1 hl').1
        (fun a ha b hb => hname a (List.mem_append_left _ ha) b (List.mem_append_left _ hb)) hd
      exact List.rel_append hbefore (List.Forall₂.cons hlast List.Forall₂.nil)

end AbirGuard.Core.HashChain
