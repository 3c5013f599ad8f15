/-
The format of an encrypted blob (`encrypt_blob` and `decrypt_blob` of `crypto_store.py`).

A blob is cut at fixed distances from its two ends, and is not shorter than its four parts without a ciphertext. The cipher is
exact here: what opens is what sealing gives.

- `decryptBlob_ok_iff`: what is accepted is exactly a nonce, a ciphertext, the tag of the cipher and the MAC of the first two.
- `blob_format`: with it, the round trip for all that the cipher takes, and one blob for each key, nonce and plaintext.
-/
import AbirGuard.Python.CryptoStore

namespace AbirGuard.Python.CryptoStore

open AbirGuard.Core

variable {F : Type} {c : Crates F}

/-- the four parts of a blob of some data, one after another -/
def IsBlob (c : Crates F) (key : Digest) (nonce : Nonce) (data b : Bytes) : Prop :=
  ∃ ciphertext gcmTag : Bytes, gcmTag.length = 16 ∧ ciphertext ++ gcmTag = c.gcm.encrypt key nonce data ∧
    b = nonce.toList ++ ciphertext ++ gcmTag ++ (c.hmac key (nonce.toList ++ ciphertext)).toList

/-- a blob that is long enough is what its parts make up -/
theorem join_parts {b : Bytes} (h : NONCE_SIZE + TAG_SIZE + 16 ≤ b.length) :
    b = b.take NONCE_SIZE ++ (b.take (b.length - (TAG_SIZE + 16))).drop NONCE_SIZE ++
      (b.drop (b.length - (TAG_SIZE + 16))).take 16 ++ b.drop (b.length - TAG_SIZE) := by
  have hfront : (b.take (b.length - (TAG_SIZE + 16))).take NONCE_SIZE = b.take NONCE_SIZE := by
    rw [List.take_take, Nat.min_eq_left (by omega)]
  have hback : (b.drop (b.length - (TAG_SIZE + 16))).drop 16 = b.drop (b.length - TAG_SIZE) := by
    rw [List.drop_drop]
    congr 1
    omega
  rw [← hfront, List.take_append_drop, ← hback, List.append_assoc, List.take_append_drop, List.take_append_drop]

/-- a slice that is a nonce has its bytes -/
theorem toList_of_nonceFromSlice {b : Bytes} {nonce : Nonce} (h : nonceFromSlice b = .ok nonce) : nonce.toList = b := by
  obtain ⟨n, hn⟩ : ∃ n : Nonce, n.toList = b := by
    have hlen := nonceFromSlice_ok_iff.1 ⟨nonce, h⟩
    exact ⟨⟨b.toArray, by simpa using hlen⟩, rfl⟩
  rw [← hn, nonceFromSlice_toList, Except.ok.injEq] at h
  rw [← h, hn]

theorem gcmOpen_ok_iff (hE : c.gcm.Exact) {key : Digest} {slice data p : Bytes} :
    gcmOpen c key slice data = .ok p ↔ ∃ nonce : Nonce, nonce.toList = slice ∧ data = c.gcm.encrypt key nonce p := by
  unfold gcmOpen
  cases hn : nonceFromSlice slice with
  | error e =>
    refine iff_of_false (fun h => by cases h) ?_
    intro ⟨nonce, hslice, _⟩
    rw [← hslice, nonceFromSlice_toList] at hn
    cases hn
  | ok nonce =>
    have hslice := toList_of_nonceFromSlice hn
    have hopen : (∃ n : Nonce, n.toList = slice ∧ data = c.gcm.encrypt key n p) ↔ data = c.gcm.encrypt key nonce p := by
      constructor
      · intro ⟨n, hn', hd⟩
        rwa [← Vector.toList_inj.1 (hn'.trans hslice.symm)]
      · exact fun hd => ⟨nonce, hslice, hd⟩
    rw [hopen, ← hE key nonce data p]
    dsimp only
    cases c.gcm.decrypt key nonce data <;> simp

/-- **What is accepted** is exactly a blob of the data, under some nonce. -/
theorem decryptBlob_ok_iff (hE : c.gcm.Exact) (key : Digest) (b data : Bytes) :
    decryptBlob c b key = .ok data ↔ ∃ nonce, IsBlob c key nonce data b := by
  constructor
  · intro h
    unfold decryptBlob at h
    dsimp only at h
    split_ifs at h with hshort hmac
    obtain ⟨nonce, hnonce, hct⟩ := (gcmOpen_ok_iff hE).1 h
    have hlen := Nat.not_lt.1 hshort
    refine ⟨nonce, _, _, ?_, hct, ?_⟩
    · rw [List.length_take, List.length_drop]
      omega
    · rw [hnonce, not_not.1 hmac]
      exact join_parts hlen
  · intro h
    rcases h with ⟨nonce, ciphertext, gcmTag, htag, hct, rfl⟩
    have hmac := (c.hmac key (nonce.toList ++ ciphertext)).length_toList
    obtain ⟨h1, h2, h3, h4⟩ := split_parts (x := ciphertext) nonce.length_toList htag hmac
    have hlong : ¬ (nonce.toList ++ ciphertext ++ gcmTag ++ (c.hmac key (nonce.toList ++ ciphertext)).toList).length <
        NONCE_SIZE + TAG_SIZE + 16 := by
      simp only [List.length_append, nonce.length_toList, htag, hmac, NONCE_SIZE, TAG_SIZE]
      omega
    unfold decryptBlob
    dsimp only at h1 h2 h3 h4 ⊢
    rw [if_neg hlong, h1, h2, h3, h4, if_neg (not_not.2 rfl)]
    exact (gcmOpen_ok_iff hE).2 ⟨nonce, rfl, hct⟩

/-- the blob that `encrypt_blob` makes -/
theorem encryptBlob_ok_iff (hA : c.gcm.Correct) {nonce : Nonce} {data b : Bytes} {key : Digest} :
    encryptBlob c nonce data key = .ok b ↔ data.length ≤ 2 ^ 31 - 1 ∧ IsBlob c key nonce data b := by
  have hlen := hA.length_encrypt key nonce data
  unfold encryptBlob
  split_ifs with hsize
  · exact iff_of_false (fun h => by cases h) fun h => absurd h.1 (Nat.not_le.2 hsize)
  · rw [and_iff_right (Nat.not_lt.1 hsize), Except.ok.injEq, eq_comm]
    constructor
    · intro h
      refine ⟨_, _, ?_, List.take_append_drop _ _, h⟩
      rw [List.length_drop]
      omega
    · intro h
      rcases h with ⟨ciphertext, gcmTag, htag, hct, rfl⟩
      have hcut : (c.gcm.encrypt key nonce data).length - 16 = ciphertext.length := by
        rw [← hct, List.length_append, htag, Nat.add_sub_cancel]
      rw [hcut, ← hct, List.take_left, List.drop_left]

/-- a key, a nonce and data have one blob -/
theorem isBlob_unique {key : Digest} {nonce : Nonce} {data b b' : Bytes} (h : IsBlob c key nonce data b)
    (h' : IsBlob c key nonce data b') : b = b' := by
  obtain ⟨ciphertext, gcmTag, htag, hct, rfl⟩ := h
  obtain ⟨ciphertext', gcmTag', htag', hct', rfl⟩ := h'
  obtain ⟨rfl, rfl⟩ := List.append_inj' (hct.trans hct'.symm) (htag.trans htag'.symm)
  rfl

theorem isBlob_nonce {key : Digest} {nonce : Nonce} {data b : Bytes} (h : IsBlob c key nonce data b) :
    b.take NONCE_SIZE = nonce.toList := by
  obtain ⟨ciphertext, gcmTag, -, -, rfl⟩ := h
  have h12 : NONCE_SIZE = nonce.toList.length := nonce.length_toList.symm
  rw [h12, List.append_assoc, List.append_assoc, List.take_left]

theorem exists_isBlob (hA : c.gcm.Correct) (key : Digest) (nonce : Nonce) (data : Bytes) :
    ∃ b, IsBlob c key nonce data b := by
  have hlen := hA.length_encrypt key nonce data
  refine ⟨_, _, _, ?_, List.take_append_drop ((c.gcm.encrypt key nonce data).length - 16) _, rfl⟩
  rw [List.length_drop]
  omega

/-- **The format of a blob.** Under every key: what is encrypted, up to the length that the cipher takes, is decrypted again;
what is decrypted is a blob of the data; and of the blobs that begin with a nonce exactly one is decrypted to given data. -/
theorem blob_format (c : Crates F) (hA : c.gcm.Correct) (hE : c.gcm.Exact) (key : Digest) :
    (∀ (nonce : Nonce) (data : Bytes), data.length ≤ 2 ^ 31 - 1 →
      ∃ b, encryptBlob c nonce data key = .ok b ∧ decryptBlob c b key = .ok data) ∧
    (∀ b data, decryptBlob c b key = .ok data ↔ ∃ nonce, IsBlob c key nonce data b) ∧
    ∀ (nonce : Nonce) (data : Bytes), ∃! b, b.take NONCE_SIZE = nonce.toList ∧ decryptBlob c b key = .ok data := by
  refine ⟨fun nonce data hsize => ?_, decryptBlob_ok_iff hE key, fun nonce data => ?_⟩
  · obtain ⟨b, hb⟩ := exists_isBlob hA key nonce data
    exact ⟨b, (encryptBlob_ok_iff hA).2 ⟨hsize, hb⟩, (decryptBlob_ok_iff hE key b data).2 ⟨nonce, hb⟩⟩
  · obtain ⟨b, hb⟩ := exists_isBlob hA key nonce data
    refine ⟨b, ⟨isBlob_nonce hb, (decryptBlob_ok_iff hE key b data).2 ⟨nonce, hb⟩⟩, ?_⟩
    intro b' ⟨hn, hd⟩
    obtain ⟨nonce', hb'⟩ := (decryptBlob_ok_iff hE key b' data).1 hd
    obtain rfl : nonce' = nonce := Vector.toList_inj.1 ((isBlob_nonce hb').symm.trans hn)
    exact isBlob_unique hb' hb

/-- a cipher that tags with the first byte of the key -/
def taggedCrates : Crates Unit where
  argon2id _ salt := Vector.append salt (Vector.replicate 16 0)
  gcm := Aead.tagged.comap Vector.head
  hmac key m := hmacSha256 key.toList m
  float := ⟨fun _ => ⟨false, [0], some [0], none⟩, fun _ => ()⟩
  decodeError _ := []
  jsonError _ := []

theorem blob_format_tagged :
    (∀ (nonce : Nonce) (data : Bytes), data.length ≤ 2 ^ 31 - 1 →
      ∃ b, encryptBlob taggedCrates nonce data (Vector.replicate 32 7) = .ok b ∧
        decryptBlob taggedCrates b (Vector.replicate 32 7) = .ok data) ∧
    (∀ b data, decryptBlob taggedCrates b (Vector.replicate 32 7) = .ok data ↔
      ∃ nonce, IsBlob taggedCrates (Vector.replicate 32 7) nonce data b) ∧
    ∀ (nonce : Nonce) (data : Bytes),
      ∃! b, b.take NONCE_SIZE = nonce.toList ∧ decryptBlob taggedCrates b (Vector.replicate 32 7) = .ok data :=
  blob_format taggedCrates (Aead.tagged_correct.comap _) (Aead.tagged_exact.comap _) (Vector.replicate 32 7)

/-- **The cipher refuses more than 2 ^ 31 - 1 bytes**, and so does `encrypt_blob`. -/
theorem long_data_refused :
    ¬ ∀ (c : Crates Unit), c.gcm.Correct → c.gcm.Exact → ∀ (key : Digest) (nonce : Nonce) (data : Bytes),
      ∃ b, encryptBlob c nonce data key = .ok b ∧ decryptBlob c b key = .ok data := by
  intro h
  obtain ⟨b, hb, -⟩ := h taggedCrates (Aead.tagged_correct.comap _) (Aead.tagged_exact.comap _) (Vector.replicate 32 0)
    (Vector.replicate 12 0) (List.replicate (2 ^ 31) 0)
  have hsize := ((encryptBlob_ok_iff (Aead.tagged_correct.comap _)).1 hb).1
  rw [List.length_replicate] at hsize
  omega

end AbirGuard.Python.CryptoStore
