/-
Tags over encoded values: what a valid tag tells about the value it comes with.

A tag is a function of a message, and a message of a value; the encoding of values need not be injective. Unforgeability is
asked of the one value and tag presented: if the tag fits, it was issued for some value with the same message.

- `accepts_only_issued_iff`: with any tag that can be come by, a value is accepted only if a tag was issued for it, if and only
  if no other value that has one has the same message.
- `genuine_iff`: the same for one given tag, over all sets of values that tags may have been issued for.
-/
import Mathlib.Data.Set.Insert

namespace AbirGuard.Core.Authentication

variable {α M T : Type} {tag : M → T} {encode : α → M}

/-- if the tag fits the value, it was issued for a value with this message -/
def Unforgeable (tag : M → T) (encode : α → M) (issued : Set α) (x : α) (t : T) : Prop :=
  tag (encode x) = t → ∃ y ∈ issued, encode y = encode x

/-- a tag that was issued is no forgery -/
theorem unforgeable_of_issued {issued : Set α} {x y : α} (hy : y ∈ issued) (h : encode y = encode x) (t : T) :
    Unforgeable tag encode issued x t := fun _ => ⟨y, hy, h⟩

theorem accepts_only_issued_iff {issued : Set α} {x : α} :
    (∀ t, Unforgeable tag encode issued x t → tag (encode x) = t → x ∈ issued) ↔
      ((∃ y ∈ issued, encode y = encode x) → x ∈ issued) := by
  constructor
  · intro h ⟨y, hy, heq⟩
    exact h _ (unforgeable_of_issued hy heq _) rfl
  · intro h t hun ht
    exact h (hun ht)

/-- whatever tags were issued for, among the values of S, a value with this tag is one of these up to R -/
theorem genuine_iff {S : Set α} {R : α → α → Prop} {x : α} {t : T} :
    (∀ issued ⊆ S, Unforgeable tag encode issued x t → tag (encode x) = t → ∃ y ∈ issued, R y x) ↔
      (tag (encode x) = t → ∀ y ∈ S, encode y = encode x → R y x) := by
  constructor
  · intro h ht y hy heq
    obtain ⟨z, hz, hR⟩ := h {y} (Set.singleton_subset_iff.2 hy) (unforgeable_of_issued (Set.mem_singleton y) heq t) ht
    rwa [Set.mem_singleton_iff.1 hz] at hR
  · intro h issued hS hun ht
    obtain ⟨y, hy, heq⟩ := hun ht
    exact ⟨y, hy, h ht y (hS hy) heq⟩

end AbirGuard.Core.Authentication
