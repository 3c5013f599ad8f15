/-
Authenticated encryption with a 12-byte nonce, as an interface over an arbitrary type of keys.

What a program may rely on is stated apart from the operations:
- `Aead.Correct`: a sealed text opens to its plaintext under the same key and nonce, and is 16 bytes (the tag) longer;
- `Aead.Committing`: a sealed text does not open under another key;
- `Aead.Exact`: what opens to a plaintext is what sealing it gives.

`nonceFromSlice` is the conversion of a slice to a nonce, which panics on every other length. `tagged` is one instance
with both properties; its tag is the key, so it hides nothing and serves only to show that they can be had.
-/
import AbirGuard.Core.Bytes
import AbirGuard.Core.Outcome

namespace AbirGuard.Core

abbrev Nonce := Vector UInt8 12

/-- `Nonce::from_slice` -/
def nonceFromSlice (b : Bytes) : Outcome Nonce :=
  if h : b.length = 12 then .ok ⟨b.toArray, by simpa using h⟩
  else Outcome.panic "assertion `left == right` failed"

@[simp] theorem nonceFromSlice_toList (n : Nonce) : nonceFromSlice n.toList = .ok n := by
  rw [nonceFromSlice, dif_pos n.length_toList]
  rfl

/-- exactly the slices of 12 bytes are nonces -/
theorem nonceFromSlice_ok_iff {b : Bytes} : (∃ n, nonceFromSlice b = .ok n) ↔ b.length = 12 := by
  by_cases h : b.length = 12
  · simp only [nonceFromSlice, h, iff_true]
    exact ⟨_, rfl⟩
  · simp [nonceFromSlice, h, Outcome.panic]

/-- sealing and opening; opening fails on a text whose tag is wrong -/
structure Aead (Key : Type) where
  encrypt : Key → Nonce → Bytes → Bytes
  decrypt : Key → Nonce → Bytes → Option Bytes

namespace Aead

structure Correct {Key : Type} (A : Aead Key) : Prop where
  decrypt_encrypt : ∀ k n p, A.decrypt k n (A.encrypt k n p) = some p
  length_encrypt : ∀ k n p, (A.encrypt k n p).length = p.length + 16

def Committing {Key : Type} (A : Aead Key) : Prop := ∀ k k' n p, k ≠ k' → A.decrypt k' n (A.encrypt k n p) = none

def Exact {Key : Type} (A : Aead Key) : Prop := ∀ k n c p, A.decrypt k n c = some p ↔ c = A.encrypt k n p

/-- the plaintext with 16 copies of the key as its tag -/
def tagged : Aead UInt8 where
  encrypt k _ p := p ++ List.replicate 16 k
  decrypt k _ c :=
    if 16 ≤ c.length ∧ c.drop (c.length - 16) = List.replicate 16 k then some (c.take (c.length - 16)) else none

theorem tagged_correct : tagged.Correct where
  decrypt_encrypt k n p := by simp [tagged]
  length_encrypt k n p := by simp [tagged]

theorem tagged_committing : tagged.Committing := by
  intro k k' n p hne
  simp [tagged, hne]

theorem tagged_exact : tagged.Exact := by
  intro k n c p
  simp only [tagged]
  constructor
  · intro h
    split_ifs at h with htag
    cases h
    rw [← htag.2, List.take_append_drop]
  · rintro rfl
    simp

/-- the same cipher under keys of another type -/
def comap {Key Key' : Type} (f : Key' → Key) (A : Aead Key) : Aead Key' where
  encrypt k := A.encrypt (f k)
  decrypt k := A.decrypt (f k)

theorem Correct.comap {Key Key' : Type} {A : Aead Key} (h : A.Correct) (f : Key' → Key) : (A.comap f).Correct where
  decrypt_encrypt k := h.decrypt_encrypt (f k)
  length_encrypt k := h.length_encrypt (f k)

theorem Exact.comap {Key Key' : Type} {A : Aead Key} (h : A.Exact) (f : Key' → Key) : (A.comap f).Exact :=
  fun k => h (f k)

end Aead

end AbirGuard.Core
