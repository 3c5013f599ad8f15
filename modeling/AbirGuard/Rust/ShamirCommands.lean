/-
The two Shamir commands of `src/main.rs` at the limits of `src/shamir.rs`.

The command line and the library check their arguments apart. `shamir-split` admits up to 255 shares, the library asserts
that there are at most 250. `shamir-join` hands every list that `decode_shares` reads to `reconstruct`, which subtracts,
divides and indexes as if the shares came from one split.

- `reconstruct_returns_iff`: the loops return exactly on `Joinable` lists: no index above 251, no two indices with the same
  remainder modulo 251, and no share shorter than the first. On every other list of two or more shares they panic.
- `shamirJoin_returns_iff`: the same for the command, on what `decode_shares` returned.
- `shamirSplit_admits_iff`: with arguments that pass the command's checks, the library's assertions hold, the command
  prints its shares and any threshold of them reconstruct the secret, exactly when there are at most 250 shares. No byte of
  a UTF-8 text reaches 251, so the text itself is never refused.

Premise: base64 decoding inverts encoding, for `shamirSplit_admits_iff`.
-/
import AbirGuard.Rust.Cli
import AbirGuard.Rust.Instance
import AbirGuard.Rust.ShamirThreshold

namespace AbirGuard.Rust.ShamirCommands

open AbirGuard.Core AbirGuard.Core.Threshold AbirGuard.Rust.Cli AbirGuard.Rust.Shamir

/-! ## What the loops need -/

theorem le_of_basisStep {i xi : ℕ} {acc acc' : ℕ × ℕ} {sj : Share × ℕ} (h : basisStep i xi acc sj = .ok acc')
    (hne : i ≠ sj.2) : sj.1.index.toNat ≤ PRIME := by
  rw [basisStep, if_neg hne] at h
  obtain ⟨neg, hneg, _⟩ := Outcome.bind_eq_ok h
  exact Outcome.sub_ok_iff.1 ⟨neg, hneg⟩

theorem ne_zero_of_gfInv {a b : UInt8} (h : gfInv a = .ok b) : a ≠ 0 := by
  intro e
  rw [gfInv, if_pos e] at h
  cases h

/-- a term that was computed: its byte is there, its inner loop returned, and the denominator is not zero -/
theorem termStep_reads {shares : List Share} {byteIdx result r : ℕ} {si : Share × ℕ}
    (h : termStep shares byteIdx result si = .ok r) :
    byteIdx < si.1.data.length ∧
      ∃ nd, shares.zipIdx.foldlM (basisStep si.2 si.1.index.toNat) (1, 1) = .ok nd ∧ UInt8.ofNat nd.2 ≠ 0 := by
  rw [termStep] at h
  obtain ⟨yi, hyi, h⟩ := Outcome.bind_eq_ok h
  obtain ⟨nd, hnd, h⟩ := Outcome.bind_eq_ok h
  obtain ⟨inv, hinv, _⟩ := Outcome.bind_eq_ok h
  exact ⟨Outcome.lt_of_index_ok hyi, nd, hnd, ne_zero_of_gfInv hinv⟩

/-- a byte that was interpolated over two or more shares: the shares are spaced and all have the byte -/
theorem spaced_of_lagrangeByte {shares : List Share} (h2 : 2 ≤ shares.length) {byteIdx r : ℕ}
    (h : lagrangeByte shares byteIdx = .ok r) : Spaced shares ∧ ∀ s ∈ shares, byteIdx < s.data.length := by
  have hterm : ∀ i : Fin shares.length, byteIdx < shares[i].data.length ∧
      ∃ nd, shares.zipIdx.foldlM (basisStep i shares[i].index.toNat) (1, 1) = .ok nd ∧ UInt8.ofNat nd.2 ≠ 0 := by
    intro i
    obtain ⟨b, b', hb⟩ := Outcome.foldlM_mem h (shares[i], i.val) (List.mem_zipIdx_iff_getElem?.2 (by simp))
    exact termStep_reads hb
  -- every share stands in the inner loop of some other share
  have hle : ∀ s ∈ shares, s.index.toNat ≤ PRIME := by
    intro s hs
    obtain ⟨j, hj, rfl⟩ := List.getElem_of_mem hs
    obtain ⟨i, hij⟩ : ∃ i : Fin shares.length, i.val ≠ j := by
      by_cases h0 : j = 0
      · exact ⟨⟨1, by omega⟩, by rw [h0]; exact one_ne_zero⟩
      · exact ⟨⟨0, by omega⟩, Ne.symm h0⟩
    obtain ⟨_, nd, hnd, _⟩ := hterm i
    obtain ⟨acc, acc', hacc⟩ := Outcome.foldlM_mem hnd (shares[j], j) (List.mem_zipIdx_iff_getElem?.2 (by simp))
    exact le_of_basisStep hacc hij
  refine ⟨⟨(denominator_ne_zero_iff shares).1 fun i => ?_, hle⟩, fun s hs => ?_⟩
  · obtain ⟨_, nd, hnd, hne⟩ := hterm i
    obtain ⟨nd', hnd', ⟨_, hlt⟩, _, hden⟩ := basis_spec hle i
    cases hnd.symm.trans hnd'
    intro hzero
    rw [← hden] at hzero
    have h0 : nd.2 = 0 := cast_inj_of_lt hlt (by norm_num) (by simpa using hzero)
    exact hne (by rw [h0]; rfl)
  · obtain ⟨i, hi, rfl⟩ := List.getElem_of_mem hs
    exact (hterm ⟨i, hi⟩).1

/-- distinct points carry any bytes -/
theorem exists_values {shares : List Share} (hnd : (shares.map pt).Nodup) (b : ℕ) :
    ∃ y : Gf → Gf, ∀ s ∈ shares, y (pt s) = byteAt s b := by
  classical
  refine ⟨fun x => if h : ∃ s ∈ shares, pt s = x then byteAt h.choose b else 0, fun s hs => ?_⟩
  have hex : ∃ s' ∈ shares, pt s' = pt s := ⟨s, hs, rfl⟩
  calc _ = byteAt hex.choose b := dif_pos hex
    _ = byteAt s b := by rw [List.inj_on_of_nodup_map hnd hex.choose_spec.1 hs hex.choose_spec.2]

/-- over two or more shares, one byte is interpolated exactly where the shares are spaced and all have it -/
theorem lagrangeByte_returns_iff {shares : List Share} (h2 : 2 ≤ shares.length) (byteIdx : ℕ) :
    (∃ r, lagrangeByte shares byteIdx = .ok r) ↔ Spaced shares ∧ ∀ s ∈ shares, byteIdx < s.data.length := by
  constructor
  · intro ⟨r, hr⟩
    exact spaced_of_lagrangeByte h2 hr
  · intro ⟨hs, hlen⟩
    obtain ⟨y, hy⟩ := exists_values hs.nodup byteIdx
    obtain ⟨r, hr, _⟩ := lagrangeByte_spec hs hlen hy
    exact ⟨r, hr⟩

/-! ## Joining -/

/-- the first share carries no byte; or every share has the bytes of the first, no index is above 251, and no two indices
leave the same remainder modulo 251 -/
def Joinable (shares : List Share) : Prop :=
  let n := (shares.map fun s => s.data.length).headD 0
  n = 0 ∨ (∀ s ∈ shares, n ≤ s.data.length) ∧ (∀ s ∈ shares, s.index.toNat ≤ PRIME) ∧
    (shares.map fun s => s.index.toNat % PRIME).Nodup

instance (shares : List Share) : Decidable (Joinable shares) := by unfold Joinable; infer_instance

theorem spaced_iff (shares : List Share) :
    Spaced shares ↔ (∀ s ∈ shares, s.index.toNat ≤ PRIME) ∧ (shares.map fun s => s.index.toNat % PRIME).Nodup := by
  have hpt : ∀ s s' : Share, pt s = pt s' ↔ s.index.toNat % PRIME = s'.index.toNat % PRIME := fun s s' =>
    ZMod.natCast_eq_natCast_iff' _ _ _
  have hnd : (shares.map pt).Nodup ↔ (shares.map fun s => s.index.toNat % PRIME).Nodup := by
    simp only [List.Nodup, List.pairwise_map, ne_eq, hpt]
  exact ⟨fun h => ⟨h.le, hnd.1 h.nodup⟩, fun h => ⟨hnd.2 h.2, h.1⟩⟩

theorem joinable_cons (first : Share) (rest : List Share) :
    Joinable (first :: rest) ↔ first.data.length = 0 ∨
      (∀ s ∈ first :: rest, first.data.length ≤ s.data.length) ∧ Spaced (first :: rest) := by
  rw [spaced_iff]
  rfl

/-- **Where the loops return.** -/
theorem reconstruct_returns_iff {shares : List Share} (h2 : 2 ≤ shares.length) :
    (∃ out, reconstruct shares = .ok out) ↔ Joinable shares := by
  obtain ⟨first, rest, rfl⟩ := List.exists_cons_of_length_pos (by omega : 0 < shares.length)
  have hloop : reconstruct (first :: rest) =
      (List.range first.data.length).mapM fun byteIdx => UInt8.ofNat <$> lagrangeByte (first :: rest) byteIdx := by
    simp only [reconstruct, List.isEmpty_cons, Bool.not_false, Outcome.assert_true, Outcome.ok_bind,
      Outcome.index_ok (l := first :: rest) (i := 0) (by simp), List.getElem_cons_zero]
  rw [hloop, joinable_cons, Outcome.mapM_returns_iff]
  constructor
  · intro hall
    have hbyte : ∀ b < first.data.length, ∃ r, lagrangeByte (first :: rest) b = .ok r := by
      intro b hb
      obtain ⟨o, ho⟩ := hall b (List.mem_range.2 hb)
      obtain ⟨r, hr, _⟩ := Outcome.map_eq_ok ho
      exact ⟨r, hr⟩
    by_cases h0 : first.data.length = 0
    · exact .inl h0
    · right
      obtain ⟨hs, _⟩ := (lagrangeByte_returns_iff h2 0).1 (hbyte 0 (by omega))
      obtain ⟨_, hlen⟩ := (lagrangeByte_returns_iff h2 _).1 (hbyte (first.data.length - 1) (by omega))
      exact ⟨fun s hm => by have := hlen s hm; omega, hs⟩
  · intro h b hb
    have hbl := List.mem_range.1 hb
    rcases h with h0 | ⟨hlen, hs⟩
    · omega
    · obtain ⟨r, hr⟩ := (lagrangeByte_returns_iff h2 b).2 ⟨hs, fun s hm => hbl.trans_le (hlen s hm)⟩
      exact ⟨UInt8.ofNat r, by rw [hr, Outcome.map_ok]⟩

section Join

variable {Key : Type} (c : VaultCrates Key) (disk : Disk)

/-- the command returns where the library does -/
theorem shamirJoin_returns {encoded : List String} {decoded : List Share} (h2 : 2 ≤ encoded.length)
    (hd : decodeShares c.base64 encoded = .ok decoded) :
    (∃ r, shamirJoin c disk encoded = .ok r) ↔ ∃ out, reconstruct decoded = .ok out := by
  rw [shamirJoin, if_neg (by omega)]
  simp only [hd]
  cases reconstruct decoded with
  | error e => simp [bind, Except.bind]
  | ok out => simp

/-- **When a join panics.** On the shares that `decode_shares` read from two or more strings, `reconstruct` and the command
return exactly when the shares are `Joinable`; otherwise both panic. -/
theorem shamirJoin_returns_iff {encoded : List String} {decoded : List Share} (h2 : 2 ≤ encoded.length)
    (hd : decodeShares c.base64 encoded = .ok decoded) :
    ((∃ out, reconstruct decoded = .ok out) ↔ Joinable decoded) ∧
      ((∃ r, shamirJoin c disk encoded = .ok r) ↔ Joinable decoded) := by
  have hlen : encoded.length = decoded.length := (Outcome.mapM_forall₂ hd).length_eq
  have hrec := reconstruct_returns_iff (hlen ▸ h2 : 2 ≤ decoded.length)
  exact ⟨hrec, (shamirJoin_returns c disk h2 hd).trans hrec⟩

end Join

/-- one share of threshold 2, given twice -/
def twice : List String := ["1:aGk=", "1:aGk="]

theorem decode_twice : decodeShares base64 twice = .ok [⟨1, [104, 105]⟩, ⟨1, [104, 105]⟩] := by decide +kernel

theorem shamirJoin_returns_iff_twice :
    ((∃ out, reconstruct [⟨1, [104, 105]⟩, ⟨1, [104, 105]⟩] = .ok out) ↔ Joinable [⟨1, [104, 105]⟩, ⟨1, [104, 105]⟩]) ∧
      ((∃ r, shamirJoin tiny ⟨.missing, .missing⟩ twice = .ok r) ↔ Joinable [⟨1, [104, 105]⟩, ⟨1, [104, 105]⟩]) :=
  shamirJoin_returns_iff tiny _ le_rfl decode_twice

/-- The same share given twice decodes, and the command panics on the zero denominator. -/
theorem shamirJoin_twice_panics :
    ¬ ∀ (encoded : List String) (decoded : List Share), 2 ≤ encoded.length → decodeShares tiny.base64 encoded = .ok decoded →
      (∃ out, reconstruct decoded = .ok out) ∧ ∃ r, shamirJoin tiny ⟨.missing, .missing⟩ encoded = .ok r := by
  intro h
  obtain ⟨⟨out, hout⟩, _⟩ := h twice _ le_rfl decode_twice
  have hpanic : reconstruct [⟨1, [104, 105]⟩, ⟨1, [104, 105]⟩] = Outcome.panic "Cannot invert zero in GF(251)" := by
    decide +kernel
  rw [hpanic] at hout
  cases hout

/-! ## Splitting -/

/-- what `shamir-split` prints for the encoded shares -/
def splitText (secret : String) (threshold shares : ℕ) (encoded : List String) : List String :=
  [s!"SHAMIR Secret Sharing ({threshold}, {shares})", s!"Secret length: {secret.utf8ByteSize} bytes", "",
    s!"Store each share separately. Any {threshold} shares can recover the secret.", ""] ++
    encoded.zipIdx.map fun s => s!"Share {s.2 + 1}: {s.1}"

/-- the texts of some printed shares are the encodings of some of the shares -/
theorem exists_of_encoded {base64 : Codec Bytes String} {shares : List Share} {l : List String}
    (hl : ∀ s ∈ l, s ∈ encodeShares base64 shares) (hnd : l.Nodup) :
    ∃ l', l = encodeShares base64 l' ∧ l'.Nodup ∧ ∀ s ∈ l', s ∈ shares := by
  induction l with
  | nil => exact ⟨[], rfl, .nil, by simp⟩
  | cons t l ih =>
    obtain ⟨hnew, hnd⟩ := List.nodup_cons.1 hnd
    obtain ⟨l', rfl, hnd', hmem⟩ := ih (fun s hs => hl s (List.mem_cons_of_mem _ hs)) hnd
    obtain ⟨s, hs, rfl⟩ := List.mem_map.1 (hl t List.mem_cons_self)
    refine ⟨s :: l', rfl, List.nodup_cons.2 ⟨fun hin => hnew (List.mem_map_of_mem hin), hnd'⟩, fun s' hs' => ?_⟩
    rcases List.mem_cons.1 hs' with rfl | hs'
    · exact hs
    · exact hmem s' hs'

/-- a text can always be split: the library refuses only its share count -/
theorem accepts_utf8_iff {secret : String} {threshold shares : ℕ} (h2 : 2 ≤ threshold) (hle : threshold ≤ shares) :
    Accepts (utf8 secret) threshold shares ↔ shares ≤ 250 := by
  constructor
  · intro h
    exact h.shares_le
  · intro h
    refine ⟨h2, hle, h, fun b hb => ?_⟩
    have := utf8_lt hb
    unfold PRIME
    omega

/-- the assertion on the share count -/
theorem split_panics (rand : ℕ → ℕ → UInt8) (secret : Bytes) {threshold shares : ℕ} (h2 : 2 ≤ threshold)
    (hle : threshold ≤ shares) (h : 250 < shares) :
    split rand secret threshold shares = Outcome.panic "Shares must be <= 250 in GF(251)" := by
  have h3 : ¬ shares ≤ 250 := by omega
  simp only [split, ge_iff_le, h2, hle, h3, decide_true, decide_false, Outcome.assert_true, Outcome.ok_bind]
  rfl

section Split

variable {Key : Type} (c : VaultCrates Key) (δ : CmdDraw) (disk : Disk)

/-- past its own checks the command is `split` and `encode_shares` -/
theorem shamirSplit_eq {secret : String} {threshold shares : ℕ} (h2 : 2 ≤ threshold) (hle : threshold ≤ shares)
    (h255 : shares ≤ 255) :
    shamirSplit c δ disk secret threshold shares = (split δ.shamirRandom (utf8 secret) threshold shares).map fun l =>
      (.ok (splitText secret threshold shares (encodeShares c.base64 l)), disk) := by
  rw [shamirSplit, if_neg (by omega), if_neg (by omega), if_neg (by omega)]
  cases split δ.shamirRandom (utf8 secret) threshold shares <;> rfl

/-- **What the command admits.** For arguments that pass its checks: the library's assertions hold, the command prints its
shares, and any threshold of the printed shares decode and reconstruct the secret, exactly when there are at most 250. -/
theorem shamirSplit_admits_iff (hb : c.base64.Lawful) (secret : String) {threshold shares : ℕ} (h2 : 2 ≤ threshold)
    (hle : threshold ≤ shares) (h255 : shares ≤ 255) :
    (Accepts (utf8 secret) threshold shares ∧ ∃ encoded,
      shamirSplit c δ disk secret threshold shares = .ok (.ok (splitText secret threshold shares encoded), disk) ∧
      encoded.length = shares ∧ ∀ l : List String, (∀ s ∈ l, s ∈ encoded) → l.Nodup → threshold ≤ l.length →
        ∃ l', decodeShares c.base64 l = .ok l' ∧ reconstruct l' = .ok (utf8 secret)) ↔ shares ≤ 250 := by
  constructor
  · intro h
    exact h.1.shares_le
  · intro h250
    have hA : Accepts (utf8 secret) threshold shares := (accepts_utf8_iff h2 hle).2 h250
    obtain ⟨out, hsplit, hidx, hshares⟩ := split_spec hA δ.shamirRandom
    refine ⟨hA, encodeShares c.base64 out, ?_, ?_, fun l hl hnd hlen => ?_⟩
    · rw [shamirSplit_eq c δ disk h2 hle h255, hsplit]
      rfl
    · have := congrArg List.length hidx
      simpa [encodeShares] using this
    · obtain ⟨l', rfl, hnd', hmem⟩ := exists_of_encoded hl hnd
      have hndi : (l'.map Share.index).Nodup := by
        rw [List.nodup_map_iff_inj_on hnd']
        intro s hs s' hs' e
        exact List.inj_on_of_nodup_map (nodup_index h250 hidx) (hmem s hs) (hmem s' hs') e
      refine ⟨l', decodeShares_encodeShares hb l', ?_⟩
      exact ShamirThreshold.reconstruct_shares hA (distinct_of_split h250 hidx hmem hndi)
        (by simpa [encodeShares] using hlen) fun s hs => hshares s (hmem s hs)

end Split

theorem shamirSplit_admits_iff_hi :
    (Accepts (utf8 "hi") 2 3 ∧ ∃ encoded,
      shamirSplit tiny (tinyDraw []) ⟨.missing, .missing⟩ "hi" 2 3 = .ok (.ok (splitText "hi" 2 3 encoded), ⟨.missing, .missing⟩) ∧
      encoded.length = 3 ∧ ∀ l : List String, (∀ s ∈ l, s ∈ encoded) → l.Nodup → 2 ≤ l.length →
        ∃ l', decodeShares tiny.base64 l = .ok l' ∧ reconstruct l' = .ok (utf8 "hi")) ↔ 3 ≤ 250 :=
  shamirSplit_admits_iff tiny (tinyDraw []) _ base64_lawful "hi" le_rfl (by norm_num) (by norm_num)

/-- 251 shares pass the command's checks and fail the library's assertion. -/
theorem shamirSplit_251_panics :
    ¬ ∀ (secret : String) (threshold shares : ℕ), 2 ≤ threshold → threshold ≤ shares → shares ≤ 255 →
      ∃ r, shamirSplit tiny (tinyDraw []) ⟨.missing, .missing⟩ secret threshold shares = .ok r := by
  intro h
  obtain ⟨r, hr⟩ := h "hi" 2 251 le_rfl (by norm_num) (by norm_num)
  rw [shamirSplit_eq _ _ _ le_rfl (by norm_num) (by norm_num), split_panics _ _ le_rfl (by norm_num) (by norm_num)] at hr
  cases hr

end AbirGuard.Rust.ShamirCommands
