/-
Which statements does the commitment of a compliance proof stand for?

The commitment is the digest of four texts with colons between them (`zk_compliance.py`): the expected digest of the plaintext,
the digest of the ciphertext, the policy and the salt. Only the second is computed by the verifier; it has no colon in it.

- `resplit`: the ways to read a joined text again.
- `verify_createProof`: an honest proof is accepted.
- `verify_binds_iff`: a proof that is accepted stands for one statement if and only if policy and salt have no colon, and no
  digest stands behind a colon in the expected one.
- `salt_to_policy`: one commitment for two policies.
-/
import AbirGuard.Python.Lang

namespace AbirGuard.Python.ZkCompliance

open AbirGuard.Core

/-! ## Texts with separators -/

section Separated

variable {α : Type} {sep : α} {d h p s d' h' p' s' : List α}

/-- four lists with a separator between them -/
def join4 (sep : α) (d h p s : List α) : List α := d ++ sep :: (h ++ sep :: (p ++ sep :: s))

/-- behind a separator in d there is h, up to the next separator or the end -/
def HasSegment (sep : α) (d h : List α) : Prop :=
  ∃ u v, d = u ++ sep :: (h ++ v) ∧ (v = [] ∨ ∃ v', v = sep :: v')

/-- up to the first separator a list can be read in one way, and further if it is read on -/
theorem first_separator (hh' : sep ∉ h') {x x' : List α} (heq : h' ++ sep :: x' = h ++ sep :: x) :
    h' = h ∧ x' = x ∨ ∃ v, h = h' ++ sep :: v ∧ x' = v ++ sep :: x := by
  rcases List.append_eq_append_iff.1 heq with ⟨w, rfl, hx⟩ | ⟨w, rfl, hx⟩
  · cases w with
    | nil => exact Or.inl ⟨(List.append_nil h').symm, (List.cons.inj hx).2⟩
    | cons c w =>
      obtain ⟨rfl, hrest⟩ := List.cons.inj hx
      exact Or.inr ⟨w, rfl, hrest⟩
  · cases w with
    | nil => exact Or.inl ⟨List.append_nil h, (List.cons.inj hx).2.symm⟩
    | cons c w =>
      obtain ⟨rfl, -⟩ := List.cons.inj hx
      exact absurd (List.mem_append_right h List.mem_cons_self) hh'

variable [DecidableEq α]

theorem count_join4 (hh : sep ∉ h) (hp : sep ∉ p) (hs : sep ∉ s) :
    (h ++ sep :: (p ++ sep :: s)).count sep = 2 := by
  simp [List.count_append, List.count_eq_zero.2 hh, List.count_eq_zero.2 hp, List.count_eq_zero.2 hs]

/-- **Read again, a joined text has the same parts, or its second part is a segment of what was the first.** -/
theorem resplit (hh : sep ∉ h) (hh' : sep ∉ h') (hp : sep ∉ p) (hs : sep ∉ s) (heq : join4 sep d' h' p' s' = join4 sep d h p s) :
    (d' = d ∧ h' = h ∧ p' = p ∧ s' = s) ∨ HasSegment sep d h' := by
  -- the parts behind a first part that is the same
  have hsame : h' ++ sep :: (p' ++ sep :: s') = h ++ sep :: (p ++ sep :: s) → h' = h ∧ p' = p ∧ s' = s := by
    intro htail
    rcases first_separator hh' htail with ⟨rfl, hrest⟩ | ⟨v, rfl, -⟩
    · obtain ⟨rfl, -, rfl⟩ := (List.append_cons_inj_of_notMem hp hs).1 hrest.symm
      exact ⟨rfl, rfl, rfl⟩
    · exact absurd (List.mem_append_right h' List.mem_cons_self) hh
  rcases List.append_eq_append_iff.1 heq with ⟨w, rfl, hw⟩ | ⟨w, rfl, hw⟩
  · cases w with
    | nil => exact Or.inl ⟨(List.append_nil d').symm, hsame (List.cons.inj hw).2⟩
    | cons c w =>
      obtain ⟨rfl, hrest⟩ := List.cons.inj hw
      refine Or.inr ?_
      rcases first_separator hh' hrest with ⟨rfl, -⟩ | ⟨v, rfl, -⟩
      · exact ⟨d', [], by rw [List.append_nil], Or.inl rfl⟩
      · exact ⟨d', sep :: v, rfl, Or.inr ⟨v, rfl⟩⟩
  · cases w with
    | nil => exact Or.inl ⟨List.append_nil d, hsame (List.cons.inj hw).2.symm⟩
    | cons c w =>
      -- too many separators would be left
      obtain ⟨rfl, hrest⟩ := List.cons.inj hw
      have hcount := congrArg (List.count sep) hrest
      rw [count_join4 hh hp hs] at hcount
      simp only [List.append_eq, List.count_append, List.count_cons_self] at hcount
      omega

end Separated

/-! ## Model -/

structure ComplianceProof where
  commitment : Text
  ciphertextDigest : Text
  publicSalt : Text
deriving DecidableEq

def colon : CodePoint := CodePoint.ofChar ':'

variable (sha256 : Bytes → Digest)

/-- `hashlib.sha256(b).hexdigest()` -/
def hexSha256 (b : Bytes) : Text := Text.hexdigest (sha256 b).toList

/-- the text that is committed to -/
def statement (plaintextDigest ciphertextDigest policyId salt : Text) : Text :=
  join4 colon plaintextDigest ciphertextDigest policyId salt

/-- `ZkComplianceProver.create_proof`; the salt comes from 16 random bytes -/
def createProof (plaintext ciphertext : Bytes) (policyId : Text) (token : Vector UInt8 16) : Except Exc ComplianceProof := do
  let salt : Text := Text.hexdigest token.toList
  let message ← encodeUtf8 (statement (hexSha256 sha256 plaintext) (hexSha256 sha256 ciphertext) policyId salt)
  pure ⟨hexSha256 sha256 message, hexSha256 sha256 ciphertext, salt⟩

/-- `ZkComplianceVerifier.verify` -/
def verify (proof : ComplianceProof) (expectedPlaintextDigest : Text) (ciphertext : Bytes) (policyId : Text) : Except Exc Bool :=
  if hexSha256 sha256 ciphertext ≠ proof.ciphertextDigest then .ok false
  else do
    let message ← encodeUtf8 (statement expectedPlaintextDigest (hexSha256 sha256 ciphertext) policyId proof.publicSalt)
    pure (decide (hexSha256 sha256 message = proof.commitment))

variable {sha256}

/-! ## What is accepted -/

theorem hexDigit_ne_colon (n : ℕ) : Text.hexDigit n ≠ ':' := by
  rcases Nat.lt_or_ge n 16 with h | h
  · have hall : ∀ m < 16, Text.hexDigit m ≠ ':' := by decide
    exact hall n h
  · have hlen : "0123456789abcdef".toList.length ≤ n := h
    rw [Text.hexDigit, List.getD_eq_default _ _ hlen]
    decide

/-- a digest has no colon in it -/
theorem colon_notMem_hexdigest (b : Bytes) : colon ∉ Text.ofString (Text.hexdigest b) := by
  intro h
  rw [Text.ofString, Text.hexdigest, String.toList_ofList] at h
  obtain ⟨c, hc, hcolon⟩ := List.mem_map.1 h
  obtain rfl := CodePoint.ofChar_injective hcolon
  obtain ⟨x, -, hx⟩ := List.mem_flatMap.1 hc
  simp only [List.mem_cons, List.not_mem_nil, or_false] at hx
  rcases hx with hx | hx
  · exact hexDigit_ne_colon _ hx.symm
  · exact hexDigit_ne_colon _ hx.symm

theorem hexSha256_inj {b c : Bytes} : hexSha256 sha256 b = hexSha256 sha256 c ↔ sha256 b = sha256 c := by
  rw [hexSha256, hexSha256, Text.ofString_inj, Text.hexdigest_injective.eq_iff, Vector.toList_inj]

/-- a proof is accepted if it names the digest of the ciphertext and commits to the statement -/
theorem verify_true_iff {q : ComplianceProof} {d : Text} {c : Bytes} {p : Text} :
    verify sha256 q d c p = .ok true ↔ hexSha256 sha256 c = q.ciphertextDigest ∧
      ∃ message, Text.encode (statement d (hexSha256 sha256 c) p q.publicSalt) = some message ∧
        hexSha256 sha256 message = q.commitment := by
  rw [verify]
  split_ifs with hdigest
  · exact iff_of_false (fun h => by cases h) fun h => hdigest h.1
  · rw [and_iff_right (not_not.1 hdigest), encodeUtf8]
    cases (statement d (hexSha256 sha256 c) p q.publicSalt).encode with
    | none =>
      refine iff_of_false (fun h => by cases h) fun h => ?_
      obtain ⟨message, hm, -⟩ := h
      cases hm
    | some message =>
      simp only [Outcome.ok_bind, Outcome.pure_eq, Except.ok.injEq, decide_eq_true_iff, Option.some.injEq, exists_eq_left']

/-- an honest proof is accepted for what it was made for -/
theorem verify_createProof {plaintext ciphertext : Bytes} {policyId : Text} {token : Vector UInt8 16} {q : ComplianceProof}
    (h : createProof sha256 plaintext ciphertext policyId token = .ok q) :
    verify sha256 q (hexSha256 sha256 plaintext) ciphertext policyId = .ok true := by
  rw [createProof, encodeUtf8] at h
  cases hmessage : (statement (hexSha256 sha256 plaintext) (hexSha256 sha256 ciphertext) policyId
    (Text.hexdigest token.toList)).encode with
  | none =>
    rw [hmessage] at h
    cases h
  | some message =>
    rw [hmessage] at h
    cases h
    exact verify_true_iff.2 ⟨rfl, message, hmessage, rfl⟩

/-! ## Binding -/

/-- behind a colon in the text there is the digest of some bytes, up to the next colon or the end -/
def HasDigest (sha256 : Bytes → Digest) (d : Text) : Prop := ∃ b, HasSegment colon d (hexSha256 sha256 b)

/-- the same text is accepted as the statement that another reading gives -/
theorem verify_of_statement {q : ComplianceProof} {d p : Text} {c : Bytes} (h : verify sha256 q d c p = .ok true)
    {d' p' s' : Text} {c' : Bytes}
    (heq : statement d' (hexSha256 sha256 c') p' s' = statement d (hexSha256 sha256 c) p q.publicSalt) :
    verify sha256 ⟨q.commitment, hexSha256 sha256 c', s'⟩ d' c' p' = .ok true := by
  obtain ⟨-, message, hmessage, hcommit⟩ := verify_true_iff.1 h
  exact verify_true_iff.2 ⟨rfl, message, heq ▸ hmessage, hcommit⟩

/-- **An accepted proof stands for one statement if and only if neither policy nor salt has a colon, and no digest stands behind
a colon in the expected digest.** -/
theorem verify_binds_iff {q : ComplianceProof} {d p : Text} {c : Bytes} (h : verify sha256 q d c p = .ok true)
    (hc : InjAt sha256 c)
    (hmessage : ∀ b, Text.encode (statement d (hexSha256 sha256 c) p q.publicSalt) = some b → InjAt sha256 b) :
    (∀ q' d' c' p', q'.commitment = q.commitment → verify sha256 q' d' c' p' = .ok true → d' = d ∧ p' = p ∧ c' = c) ↔
      colon ∉ p ∧ colon ∉ q.publicSalt ∧ ¬ HasDigest sha256 d := by
  constructor
  · intro hbinds
    -- another reading of the text is accepted too
    have hsame : ∀ d' c' p' s', statement d' (hexSha256 sha256 c') p' s' =
        statement d (hexSha256 sha256 c) p q.publicSalt → d' = d ∧ p' = p := by
      intro d' c' p' s' heq
      obtain ⟨hd, hp, -⟩ := hbinds ⟨q.commitment, hexSha256 sha256 c', s'⟩ d' c' p' rfl (verify_of_statement h heq)
      exact ⟨hd, hp⟩
    refine ⟨fun hp => ?_, fun hs => ?_, fun hd => ?_⟩
    · -- what stands behind the colon goes over to the salt
      obtain ⟨u, v, rfl⟩ := List.append_of_mem hp
      have hother := hsame d c u (v ++ colon :: q.publicSalt) (by simp [statement, join4])
      simpa using congrArg List.length hother.2
    · -- what stands before it goes over to the policy
      obtain ⟨u, v, hsalt⟩ := List.append_of_mem hs
      have hother := hsame d c (p ++ colon :: u) v (by simp [statement, join4, hsalt])
      simpa using congrArg List.length hother.2
    · -- the digest in the expected one is read as that of the ciphertext
      obtain ⟨b, u, v, rfl, hv⟩ := hd
      rcases hv with rfl | ⟨v, rfl⟩
      · have hother := hsame u b (hexSha256 sha256 c) (p ++ colon :: q.publicSalt) (by simp [statement, join4])
        simpa using congrArg List.length hother.1
      · have hother := hsame u b v (hexSha256 sha256 c ++ colon :: (p ++ colon :: q.publicSalt)) (by simp [statement, join4])
        simpa using congrArg List.length hother.1
  · intro ⟨hp, hs, hd⟩ q' d' c' p' hcommit h'
    obtain ⟨-, message, hencode, hm⟩ := verify_true_iff.1 h
    obtain ⟨-, message', hencode', hm'⟩ := verify_true_iff.1 h'
    obtain rfl : message' = message := by
      refine hmessage message hencode message' (hexSha256_inj.1 ?_)
      rw [hm', hm, hcommit]
    have htext : statement d' (hexSha256 sha256 c') p' q'.publicSalt = statement d (hexSha256 sha256 c) p q.publicSalt :=
      Text.encode_inj hencode' hencode
    rcases resplit (colon_notMem_hexdigest _) (colon_notMem_hexdigest _) hp hs htext with ⟨hdd, hcc, hpp, -⟩ | hseg
    · exact ⟨hdd, hpp, hc c' (hexSha256_inj.1 hcc)⟩
    · exact absurd ⟨c', hseg⟩ hd

/-- the bytes of a statement without surrogates -/
def statementBytes (d h p s : String) : Bytes := utf8 (d ++ ":" ++ h ++ ":" ++ p ++ ":" ++ s)

theorem encode_statement (d h p s : String) : Text.encode (statement d h p s) = some (statementBytes d h p s) := by
  have htext : statement d h p s = Text.ofString (d ++ ":" ++ h ++ ":" ++ p ++ ":" ++ s) := by
    simp only [statement, join4, Text.ofString_append, List.append_assoc]
    rfl
  rw [htext, Text.encode_ofString, statementBytes]

/-- a proof about a ciphertext whose digest, and that of the statement, are SHA-256 -/
theorem verify_plain {sha256 : Bytes → Digest} {c : Bytes} {d p s : String} :
    verify sha256 ⟨hexSha256 sha256 (statementBytes d (Text.hexdigest (sha256 c).toList) p s), hexSha256 sha256 c, s⟩ d c p =
      .ok true :=
  verify_true_iff.2 ⟨rfl, _, encode_statement d _ p s, rfl⟩

/-- a ciphertext of one byte, and a statement about it -/
def plainMessages : List Bytes :=
  [[2], statementBytes "digest" (Text.hexdigest (Core.sha256 [2]).toList) "policy" "salt"]

/-- the proof of that statement -/
def plainProof : ComplianceProof :=
  ⟨hexSha256 (sha256On plainMessages)
    (statementBytes "digest" (Text.hexdigest (sha256On plainMessages [2]).toList) "policy" "salt"),
    hexSha256 (sha256On plainMessages) [2], "salt"⟩

theorem verify_binds_iff_plain :
    (∀ q' d' c' p', q'.commitment = plainProof.commitment → verify (sha256On plainMessages) q' d' c' p' = .ok true →
      d' = "digest" ∧ p' = "policy" ∧ c' = [2]) ↔
    colon ∉ Text.ofString "policy" ∧ colon ∉ plainProof.publicSalt ∧
      ¬ HasDigest (sha256On plainMessages) (Text.ofString "digest") := by
  have hinj : ∀ m ∈ plainMessages, InjAt (sha256On plainMessages) m := fun m hm =>
    injAt_sha256On (by decide +kernel) (by decide +kernel) hm
  have hdigest : sha256On plainMessages [2] = Core.sha256 [2] := if_pos (by simp [plainMessages])
  refine verify_binds_iff verify_plain (hinj [2] (by simp [plainMessages])) fun b hb => hinj b ?_
  rw [hexSha256, plainProof, encode_statement, hdigest, Option.some.injEq] at hb
  simp [plainMessages, ← hb]

/-- a proof for the policy "a" with the salt "b:c" -/
def splitProof : ComplianceProof :=
  ⟨hexSha256 Core.sha256 (statementBytes (Text.hexdigest (Core.sha256 [1]).toList) (Text.hexdigest (Core.sha256 [2]).toList)
    "a" "b:c"), hexSha256 Core.sha256 [2], "b:c"⟩

/-- with the salt "c" the same commitment is accepted for the policy "a:b" -/
theorem salt_to_policy : verify Core.sha256 splitProof (hexSha256 Core.sha256 [1]) [2] "a" = .ok true ∧
    verify Core.sha256 ⟨splitProof.commitment, hexSha256 Core.sha256 [2], "c"⟩ (hexSha256 Core.sha256 [1]) [2] "a:b" = .ok true ∧
    Text.ofString "a" ≠ Text.ofString "a:b" := by
  have htail : Text.ofString "a:b" ++ colon :: Text.ofString "c" = Text.ofString "a" ++ colon :: Text.ofString "b:c" := by decide
  have hstatement : statement (hexSha256 Core.sha256 [1]) (hexSha256 Core.sha256 [2]) "a:b" "c" =
      statement (hexSha256 Core.sha256 [1]) (hexSha256 Core.sha256 [2]) "a" "b:c" :=
    congrArg (fun t => hexSha256 Core.sha256 [1] ++ colon :: (hexSha256 Core.sha256 [2] ++ colon :: t)) htail
  have hverify : verify Core.sha256 splitProof (hexSha256 Core.sha256 [1]) [2] "a" = .ok true := verify_plain
  have hother := verify_of_statement hverify hstatement
  exact ⟨hverify, hother, by decide⟩

end AbirGuard.Python.ZkCompliance
