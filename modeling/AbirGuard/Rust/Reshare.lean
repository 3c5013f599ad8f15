/-
Does proactive re-sharing keep the secret? The n payloads of one split are re-shared to the same roster in the same order
with one threshold t, and t of the refreshed payloads are put back under their original indices.

The mask of a participant is xored into a payload byte by byte, while the secret is interpolated over GF(251). A mask byte
moves a share byte v to v xor m, that is by (v xor m) - v in the field (`maskShift`).

- `reshare_preserves_iff`: any t refreshed payloads reconstruct the secret if and only if, at every byte position, the n
  shifts are themselves a sharing of zero: the values at the indices of a polynomial of degree below t with constant term
  0. Masks drawn from a hash satisfy that only by accident.
- `reshare_breaks`: with SHA-256, two shares of the one-byte secret 65 are re-shared from epoch 1 under the empty seed. They
  then reconstruct to the byte 227.

The hash is an argument of the results; the re-sharing itself always succeeds here, except for the empty secret, whose
empty payloads it refuses.
-/
import AbirGuard.Rust.AdvancedSharing
import AbirGuard.Rust.ShamirThreshold

namespace AbirGuard.Rust.Reshare

open AbirGuard.Core AbirGuard.Core.Threshold AbirGuard.Rust.Shamir AbirGuard.Rust.AdvancedSharing

/-- by how much a participant's mask moves byte b of its payload, in the field -/
def maskShift (sha256 : Bytes → Digest) (r : ProactiveRefresher) (seed : Bytes) (id : String) (i : ℕ) (payload : Bytes)
    (b : ℕ) : Gf :=
  let v := payload.getD b 0
  let m := (r.mask sha256 (ctxSeed seed id i) payload.length).getD b 0
  ((v ^^^ m).toNat : Gf) - (v.toNat : Gf)

/-- the refreshed payloads of a plan under the original indices -/
def withIndices (shares : List Share) (plan : ResharePlan) : List Share :=
  List.zipWith (fun s p => ⟨s.index, p.share⟩) shares plan.refreshed

/-- every t of the shares reconstruct the secret -/
def AnyReconstruct (t : ℕ) (shares : List Share) (secret : Bytes) : Prop :=
  ∀ l : List Share, (∀ s ∈ l, s ∈ shares) → (l.map Share.index).Nodup → l.length = t → reconstruct l = .ok secret

/-! ## Shares by position -/

section

variable {shares : List Share} {n : ℕ} (hn : n ≤ 250)
  (hidx : shares.map Share.index = (List.range n).map fun i => UInt8.ofNat (i + 1))
include hidx

theorem length_of_index : shares.length = n := by
  simpa using congrArg List.length hidx

include hn

theorem index_getElem {i : ℕ} (hi : i < shares.length) : shares[i].index.toNat = i + 1 := by
  have hin : i < n := by rwa [← length_of_index hidx]
  have h1 : (shares.map Share.index)[i]? = some (UInt8.ofNat (i + 1)) := by simp [hidx, hin]
  rw [List.getElem?_map, List.getElem?_eq_getElem hi, Option.map_some, Option.some.injEq] at h1
  rw [h1, ofNat_toNat (by unfold PRIME; omega)]

theorem pt_getElem {i : ℕ} (hi : i < shares.length) : pt shares[i] = ((i + 1 : ℕ) : Gf) := by
  rw [pt, index_getElem hn hidx hi]

theorem pt_val {i : ℕ} (hi : i < shares.length) : (pt shares[i]).val - 1 = i := by
  have hin : i < n := by rwa [← length_of_index hidx]
  rw [pt_getElem hn hidx hi, ZMod.val_natCast, Nat.mod_eq_of_lt (by unfold PRIME; omega)]
  omega

end

/-! ## Refreshed shares -/

section

variable (sha256 : Bytes → Digest) (r : ProactiveRefresher) (ids : List String) (seed : Bytes)

/-- the shift at a point: the point of participant i is i + 1 -/
def shiftAt (shares : List Share) (b : ℕ) (x : Gf) : Gf :=
  maskShift sha256 r seed (ids.getD (x.val - 1) "") (x.val - 1) ((shares.map Share.data).getD (x.val - 1) []) b

/-- a refreshed payload under its index -/
def refreshedShare (shares : List Share) (i : ℕ) : Share :=
  ⟨(shares.getD i ⟨0, []⟩).index,
    refreshed sha256 r ((shares.map Share.data).getD i []) (ctxSeed seed (ids.getD i "") i)⟩

def refreshedShares (shares : List Share) : List Share :=
  (List.range shares.length).map (refreshedShare sha256 r ids seed shares)

theorem withIndices_eq {shares : List Share} (hids : ids.length = shares.length) {plan : ResharePlan}
    (hplan : plan.refreshed = refreshedHolders sha256 r ids (shares.map Share.data) seed) :
    withIndices shares plan = refreshedShares sha256 r ids seed shares := by
  apply List.ext_getElem
  · simp [withIndices, refreshedShares, hplan, refreshedHolders, hids]
  · intro i h1 h2
    have hi : i < shares.length := by simpa [refreshedShares] using h2
    simp [withIndices, refreshedShares, hplan, refreshedHolders, refreshedShare, hi, hids]

variable {secret : Bytes} {t n : ℕ} {rand : ℕ → ℕ → UInt8} {shares : List Share} (h : Accepts secret t n)
  (hidx : shares.map Share.index = (List.range n).map fun i => UInt8.ofNat (i + 1))
  (hshares : ∀ s ∈ shares, IsShare rand secret t s)

theorem index_refreshedShare {i : ℕ} (hi : i < shares.length) :
    (refreshedShare sha256 r ids seed shares i).index = shares[i].index := by
  rw [refreshedShare, List.getD_eq_getElem _ _ hi]

include h hidx hshares

/-- a refreshed share keeps its index and its length, and every byte is moved by the shift at its point -/
theorem refreshedShare_spec {s : Share} (hs : s ∈ refreshedShares sha256 r ids seed shares) :
    (∃ s₀ ∈ shares, s.index = s₀.index) ∧ s.data.length = secret.length ∧ ∀ b < secret.length,
      byteAt s b = (secretPoly rand secret t b).eval (pt s) + shiftAt sha256 r ids seed shares b (pt s) := by
  obtain ⟨i, hi, rfl⟩ := List.mem_map.1 hs
  have hi : i < shares.length := List.mem_range.1 hi
  have hmem : shares[i] ∈ shares := List.getElem_mem hi
  have hindex := index_refreshedShare sha256 r ids seed hi
  have hdata : (shares.map Share.data).getD i [] = shares[i].data := by
    rw [List.getD_eq_getElem _ _ (by simpa using hi), List.getElem_map]
  have hlen := (hshares shares[i] hmem).len
  refine ⟨⟨shares[i], hmem, hindex⟩, ?_, fun b hb => ?_⟩
  · rw [refreshedShare, length_refreshed, hdata, hlen]
  · have hpt : pt (refreshedShare sha256 r ids seed shares i) = pt shares[i] := by rw [pt, pt, hindex]
    have hbyte := ((hshares shares[i] hmem).byte b hb).2
    rw [hpt, ← hbyte, shiftAt, pt_val h.shares_le hidx hi, byteAt, byteAt, refreshedShare, hdata,
      getD_refreshed sha256 r _ _ (by rwa [hlen]), maskShift]
    ring

omit h hidx hshares in
/-- the refreshed shares stand at the points of the original ones -/
theorem exists_refreshedShare {x : Gf} (hx : x ∈ shares.map pt) :
    ∃ s, s ∈ refreshedShares sha256 r ids seed shares ∧ pt s = x := by
  obtain ⟨i, hi, rfl⟩ := List.mem_iff_getElem.1 hx
  rw [List.length_map] at hi
  refine ⟨refreshedShare sha256 r ids seed shares i, List.mem_map_of_mem (List.mem_range.2 hi), ?_⟩
  rw [List.getElem_map, pt, index_refreshedShare sha256 r ids seed hi, pt]

theorem distinct_refreshed {l : List Share} (hl : ∀ s ∈ l, s ∈ refreshedShares sha256 r ids seed shares)
    (hnd : (l.map Share.index).Nodup) : Distinct l := by
  have hrange : ∀ s ∈ l, 1 ≤ s.index.toNat ∧ s.index.toNat ≤ n := by
    intro s hs
    obtain ⟨⟨s₀, hs₀, he⟩, -⟩ := refreshedShare_spec sha256 r ids seed h hidx hshares (hl s hs)
    rw [he]
    exact index_range h.shares_le hidx hs₀
  exact ⟨hnd, fun s hs => (hrange s hs).1, fun s hs => (hrange s hs).2.trans h.shares_le⟩

/-- t refreshed shares reconstruct the secret when the shifts at their points interpolate to zero -/
theorem reconstruct_refreshed_iff {l : List Share} (hl : ∀ s ∈ l, s ∈ refreshedShares sha256 r ids seed shares)
    (hnd : (l.map Share.index).Nodup) (hlt : l.length = t) :
    reconstruct l = .ok secret ↔
      ∀ b < secret.length, atZero (l.map pt) (shiftAt sha256 r ids seed shares b) = 0 := by
  have h2 := h.two_le
  have hD := distinct_refreshed sha256 r ids seed h hidx hshares hl hnd
  have hne : l ≠ [] := by rintro rfl; simp only [List.length_nil] at hlt; omega
  have hspec := fun s hs => refreshedShare_spec sha256 r ids seed h hidx hshares (hl s hs)
  obtain ⟨out, hout, hol, hbytes⟩ := reconstruct_spec hne hD (fun s hs => (hspec s hs).2.1)
    (y := fun b x => (secretPoly rand secret t b).eval x + shiftAt sha256 r ids seed shares b x)
    (fun b hb s hs => ((hspec s hs).2.2 b hb).symm)
  have hsum : ∀ b < secret.length, ((out.getD b 0).toNat : Gf) =
      ((secret.getD b 0).toNat : Gf) + atZero (l.map pt) (shiftAt sha256 r ids seed shares b) := by
    intro b hb
    rw [(hbytes b hb).2, atZero_add, ShamirThreshold.atZero_shares h2 hD (by omega)]
  rw [hout]
  constructor
  · intro e b hb
    cases e
    simpa using hsum b hb
  · intro hz
    congr 1
    apply List.ext_getElem hol
    intro b hb hb'
    have hc := hsum b hb'
    rw [hz b hb', add_zero] at hc
    have := cast_inj_of_lt (hbytes b hb').1 (getD_lt h.bytes_lt b) hc
    rw [List.getD_eq_getElem _ _ hb, List.getD_eq_getElem _ _ hb'] at this
    exact UInt8.toNat_inj.1 this

theorem anyReconstruct_iff : AnyReconstruct t (refreshedShares sha256 r ids seed shares) secret ↔
    ∀ b < secret.length, ∀ xs : List Gf, xs.Nodup → (∀ x ∈ xs, x ∈ shares.map pt) → xs.length = t →
      atZero xs (shiftAt sha256 r ids seed shares b) = 0 := by
  constructor
  · intro hA b hb xs hxn hxs hxt
    have : Nonempty Share := ⟨⟨0, []⟩⟩
    choose! f hf using fun x => exists_refreshedShare sha256 r ids seed (x := x)
    have hmap : (xs.map f).map pt = xs := by
      rw [List.map_map]
      exact (List.map_congr_left fun x hx => (hf x (hxs x hx)).2).trans (List.map_id xs)
    have hmem : ∀ s ∈ xs.map f, s ∈ refreshedShares sha256 r ids seed shares := by
      intro s hs
      obtain ⟨x, hx, rfl⟩ := List.mem_map.1 hs
      exact (hf x (hxs x hx)).1
    have hnd : ((xs.map f).map Share.index).Nodup := by
      refine List.Nodup.of_map (fun i : UInt8 => (i.toNat : Gf)) ?_
      rw [List.map_map]
      exact hmap.symm ▸ hxn
    have hlt : (xs.map f).length = t := by rw [List.length_map, hxt]
    have := (reconstruct_refreshed_iff sha256 r ids seed h hidx hshares hmem hnd hlt).1 (hA _ hmem hnd hlt) b hb
    rwa [hmap] at this
  · intro hZ l hl hnd hlt
    have hD := distinct_refreshed sha256 r ids seed h hidx hshares hl hnd
    refine (reconstruct_refreshed_iff sha256 r ids seed h hidx hshares hl hnd hlt).2 fun b hb => ?_
    refine hZ b hb _ hD.pts_nodup (fun x hx => ?_) (by rw [List.length_map, hlt])
    obtain ⟨s, hs, rfl⟩ := List.mem_map.1 hx
    obtain ⟨⟨s₀, hs₀, he⟩, -⟩ := refreshedShare_spec sha256 r ids seed h hidx hshares (hl s hs)
    rw [pt, he]
    exact List.mem_map_of_mem hs₀

omit hshares in
/-- the shifts by point and the shifts by participant -/
theorem eval_shiftAt_iff (hids : ids.length = n) (b : ℕ) (p : Polynomial Gf) :
    (∀ x ∈ shares.map pt, p.eval x = shiftAt sha256 r ids seed shares b x) ↔
      ∀ i s id, shares[i]? = some s → ids[i]? = some id →
        p.eval (pt s) = maskShift sha256 r seed id i s.data b := by
  have hlen := length_of_index hidx
  have key : ∀ i, (hi : i < shares.length) → (hi' : i < ids.length) →
      shiftAt sha256 r ids seed shares b (pt shares[i]) = maskShift sha256 r seed ids[i] i shares[i].data b := by
    intro i hi hi'
    rw [shiftAt, pt_val h.shares_le hidx hi, List.getD_eq_getElem _ _ hi', List.getD_eq_getElem _ _ (by simpa using hi),
      List.getElem_map]
  constructor
  · intro hp i s id hs hid
    obtain ⟨hi, rfl⟩ := List.getElem?_eq_some_iff.1 hs
    obtain ⟨hi', rfl⟩ := List.getElem?_eq_some_iff.1 hid
    rw [hp _ (List.mem_map_of_mem (List.getElem_mem hi)), key i hi hi']
  · intro hp x hx
    obtain ⟨s, hs, rfl⟩ := List.mem_map.1 hx
    obtain ⟨i, hi, rfl⟩ := List.mem_iff_getElem.1 hs
    have hi' : i < ids.length := by omega
    rw [hp i shares[i] ids[i] (List.getElem?_eq_getElem hi) (List.getElem?_eq_getElem hi'), key i hi hi']

end

/-! ## The main result -/

/-- **Re-sharing keeps the secret exactly when the masks share zero.** -/
theorem reshare_preserves_iff {secret : Bytes} {t n : ℕ} (sha256 : Bytes → Digest) (r : ProactiveRefresher)
    (ids : List String) (seed : Bytes) (h : Accepts secret t n) (rand : ℕ → ℕ → UInt8) (hids : ids.length = n) :
    ∃ shares, split rand secret t n = .ok shares ∧
      (secret = [] → (r.reshareForParticipants sha256 (holders ids (shares.map Share.data)) ids t t seed).1 =
        .error .invalidShareLength) ∧
      (secret ≠ [] → ∃ plan,
        (r.reshareForParticipants sha256 (holders ids (shares.map Share.data)) ids t t seed).1 = .ok plan ∧
        (AnyReconstruct t (withIndices shares plan) secret ↔
          ∀ b < secret.length, ∃ p : Polynomial Gf, p.degree < t ∧ p.eval 0 = 0 ∧
            ∀ i s id, shares[i]? = some s → ids[i]? = some id →
              p.eval (pt s) = maskShift sha256 r.advanceEpoch seed id i s.data b)) := by
  obtain ⟨shares, hsplit, hidx, hshares⟩ := split_spec h rand
  have hlen : shares.length = n := length_of_index hidx
  have h2 := h.two_le
  have hle := h.le_shares
  have hil : ids.length = (shares.map Share.data).length := by rw [List.length_map, hlen, hids]
  have hdata : ∀ s ∈ shares, s.data.length = secret.length := fun s hs => (hshares s hs).len
  refine ⟨shares, hsplit, fun he => ?_, fun hne => ?_⟩
  · refine reshare_empty sha256 hil (by omega) (hids ▸ hle) r seed ?_
    rw [List.getD_eq_getElem _ _ (by rw [List.length_map]; omega), List.getElem_map]
    have := hdata shares[0] (List.getElem_mem _)
    rwa [he, List.length_nil, List.length_eq_zero_iff] at this
  have hpne : ∀ p ∈ shares.map Share.data, p ≠ [] := by
    intro p hp e
    obtain ⟨s, hs, rfl⟩ := List.mem_map.1 hp
    have := hdata s hs
    rw [e, List.length_nil] at this
    exact hne (List.length_eq_zero_iff.1 this.symm)
  obtain ⟨plan, hok, hplan⟩ := reshare_ok sha256 hil (by omega) (hids ▸ hle) r seed hpne
  refine ⟨plan, hok, ?_⟩
  have hpts : (shares.map pt).Nodup :=
    (distinct_of_split h.shares_le hidx (fun _ hs => hs) (nodup_index h.shares_le hidx)).pts_nodup
  have hpts0 : ∀ x ∈ shares.map pt, x ≠ 0 := by
    intro x hx
    obtain ⟨s, hs, rfl⟩ := List.mem_map.1 hx
    have hir := index_range h.shares_le hidx hs
    exact pt_ne_zero hir.1 (hir.2.trans h.shares_le)
  rw [withIndices_eq sha256 r.advanceEpoch ids seed (by rw [hids, hlen]) hplan,
    anyReconstruct_iff sha256 r.advanceEpoch ids seed h hidx hshares]
  refine forall₂_congr fun b _ => ?_
  rw [zeroSharing_iff hpts hpts0 (by omega) (by rw [List.length_map, hlen]; exact hle)]
  simp only [eval_shiftAt_iff sha256 r.advanceEpoch ids seed h hidx hids b]

theorem reshare_preserves_iff_pair : ∃ shares, split (fun _ _ => 6) [65] 2 2 = .ok shares ∧
    ([(65 : UInt8)] = [] → (ProactiveRefresher.new.reshareForParticipants sha256 (holders ["a", "b"] (shares.map Share.data))
      ["a", "b"] 2 2 []).1 = .error .invalidShareLength) ∧
    ([(65 : UInt8)] ≠ [] → ∃ plan, (ProactiveRefresher.new.reshareForParticipants sha256
        (holders ["a", "b"] (shares.map Share.data)) ["a", "b"] 2 2 []).1 = .ok plan ∧
      (AnyReconstruct 2 (withIndices shares plan) [65] ↔
        ∀ b < [(65 : UInt8)].length, ∃ p : Polynomial Gf, p.degree < (2 : ℕ) ∧ p.eval 0 = 0 ∧
          ∀ i s id, shares[i]? = some s → ["a", "b"][i]? = some id →
            p.eval (pt s) = maskShift sha256 ProactiveRefresher.new.advanceEpoch [] id i s.data b)) :=
  reshare_preserves_iff sha256 ProactiveRefresher.new ["a", "b"] [] (ShamirThreshold.accepts_one 65 (by decide)) _ rfl

/-- the first mask bytes of the two participants in epoch 2 -/
theorem mask_pair :
    ProactiveRefresher.new.advanceEpoch.mask sha256 (ctxSeed [] "a" 0) 1 = [66] ∧
    ProactiveRefresher.new.advanceEpoch.mask sha256 (ctxSeed [] "b" 1) 1 = [99] := by
  rw [mask_of_le _ _ _ one_pos (by norm_num), mask_of_le _ _ _ one_pos (by norm_num)]
  decide +kernel

/-- The shares of 65 are the bytes 72 and 79. Their masks are 66 and 99, and the refreshed bytes 10 and 44 interpolate to
2 * 10 - 44 = 227. -/
theorem reshare_breaks : ∃ shares plan, split (fun _ _ => 6) [65] 2 2 = .ok shares ∧
    (ProactiveRefresher.new.reshareForParticipants sha256 (holders ["a", "b"] (shares.map Share.data)) ["a", "b"] 2 2 []).1 =
      .ok plan ∧
    reconstruct (withIndices shares plan) = .ok [227] ∧ ¬ AnyReconstruct 2 (withIndices shares plan) [65] := by
  have hsplit : split (fun _ _ => 6) [65] 2 2 = .ok [⟨1, [72]⟩, ⟨2, [79]⟩] := by decide +kernel
  have hlen : ["a", "b"].length = [[(72 : UInt8)], [79]].length := rfl
  obtain ⟨plan, hok, hplan⟩ := reshare_ok sha256 hlen one_le_two le_rfl ProactiveRefresher.new [] (by simp)
  have hwith : withIndices [⟨1, [72]⟩, ⟨2, [79]⟩] plan = [⟨1, [10]⟩, ⟨2, [44]⟩] := by
    simp only [withIndices, hplan, refreshedHolders, refreshed, List.zipIdx_cons, List.zipIdx_nil, List.map_cons,
      List.map_nil, List.getD_cons_zero, List.getD_cons_succ, List.length_singleton, mask_pair.1, mask_pair.2]
    decide
  have hrec : reconstruct [⟨1, [10]⟩, ⟨2, [44]⟩] = .ok [227] := by decide +kernel
  refine ⟨_, plan, hsplit, hok, by rw [hwith, hrec], fun hA => ?_⟩
  rw [hwith] at hA
  have := hA _ (fun _ hs => hs) (by simp) rfl
  rw [hrec] at this
  cases this

end AbirGuard.Rust.Reshare
