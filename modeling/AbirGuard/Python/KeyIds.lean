/-
Which ids does the Python package accept, and which get into the vault?

`validate_key_id` asks for `^[a-zA-Z0-9_-]+$` with `re.match`, and there the dollar also matches before a line feed at the end.
So an id may have one line feed behind it, and that id goes into the key maps.

- `validateKeyId_ok_iff`: what is accepted is the grammar, and what it makes with a line feed.
- `contains_useStep`: which ids a step puts into the vault.
- `key_ids_exact`: the validator meets its grammar except there, and the keys of a run do if and only if no call names such an id.
-/
import AbirGuard.Python.CanaryDetection

namespace AbirGuard.Python

open AbirGuard.Core JsonValue Raise

/-! ## The grammar -/

/-- 1 to 64 characters, each a letter, a digit, an underscore or a hyphen, and no two underscores in front -/
def Grammar (keyId : Text) : Prop :=
  1 ≤ keyId.length ∧ keyId.length ≤ MAX_KEY_ID_LENGTH ∧ (∀ p ∈ keyId, isKeyIdChar p) ∧ ¬ reserved keyId

/-- an id of the grammar with a line feed behind it, of at most 64 characters with it -/
def EndsInLineFeed (keyId : Text) : Prop :=
  ∃ body, keyId = body ++ [CodePoint.ofChar '\n'] ∧ Grammar body ∧ keyId.length ≤ MAX_KEY_ID_LENGTH

theorem not_isKeyIdChar_lineFeed : ¬ isKeyIdChar (CodePoint.ofChar '\n') := by decide

theorem EndsInLineFeed.not_grammar {keyId : Text} (h : EndsInLineFeed keyId) : ¬ Grammar keyId := by
  obtain ⟨body, rfl, -, -⟩ := h
  intro hgrammar
  exact not_isKeyIdChar_lineFeed (hgrammar.2.2.1 _ (by simp))

/-- the pattern matches a word, or a word with a line feed -/
theorem keyIdPattern_iff {keyId : Text} : keyIdPattern keyId ↔
    (keyId ≠ [] ∧ ∀ p ∈ keyId, isKeyIdChar p) ∨
      ∃ body, keyId = body ++ [CodePoint.ofChar '\n'] ∧ body ≠ [] ∧ ∀ p ∈ body, isKeyIdChar p := by
  rw [keyIdPattern, decide_eq_true_iff, List.all_eq_true]
  split_ifs with hlast
  · have hsplit : keyId = keyId.dropLast ++ [CodePoint.ofChar '\n'] := (List.dropLast_append_getLast? _ hlast).symm
    constructor
    · intro h
      exact Or.inr ⟨keyId.dropLast, hsplit, h⟩
    · intro h
      rcases h with ⟨-, hchars⟩ | ⟨body, hbody, h⟩
      · exact absurd (hchars _ (List.mem_of_getLast? hlast)) not_isKeyIdChar_lineFeed
      · rwa [hbody, List.dropLast_concat]
  · constructor
    · exact Or.inl
    · intro h
      rcases h with h | ⟨body, hbody, -⟩
      · exact h
      · exact absurd (by rw [hbody, List.getLast?_concat]) hlast

/-- the last check of the validator comes after the pattern and refuses nothing more -/
theorem clean_of_pattern {keyId : Text} (h : keyIdPattern keyId) :
    ¬ ((0 : CodePoint) ∈ keyId ∨ Text.ofString ".." <:+: keyId ∨ CodePoint.ofChar '/' ∈ keyId ∨
      CodePoint.ofChar '\\' ∈ keyId) := by
  have hmem : ∀ p ∈ keyId, isKeyIdChar p ∨ p = CodePoint.ofChar '\n' := by
    intro p hp
    rcases keyIdPattern_iff.1 h with ⟨-, hchars⟩ | ⟨body, rfl, -, hchars⟩
    · exact Or.inl (hchars p hp)
    · rcases List.mem_append.1 hp with hp | hp
      · exact Or.inl (hchars p hp)
      · exact Or.inr (List.mem_singleton.1 hp)
  intro hbad
  rcases hbad with hp | hdots | hp | hp
  · exact absurd (hmem _ hp) (by decide)
  · exact absurd (hmem (CodePoint.ofChar '.') (hdots.subset (by decide))) (by decide)
  · exact absurd (hmem _ hp) (by decide)
  · exact absurd (hmem _ hp) (by decide)

/-- a line feed behind an id does not make it reserved -/
theorem reserved_lineFeed (body : Text) : reserved (body ++ [CodePoint.ofChar '\n']) ↔ reserved body := by
  rw [reserved, reserved, List.isPrefixOf_iff_prefix, List.isPrefixOf_iff_prefix, List.prefix_concat_iff]
  refine or_iff_right fun h => ?_
  have hlast := congrArg List.getLast? h
  rw [List.getLast?_concat] at hlast
  exact absurd hlast (by decide)

/-- what the checks of the validator come to -/
theorem validateKeyId_checks {keyId : Text} :
    validateKeyId keyId = .ok keyId ↔ keyId.length ≤ MAX_KEY_ID_LENGTH ∧ keyIdPattern keyId ∧ ¬ reserved keyId := by
  rw [validateKeyId]
  split_ifs with hempty hlong hmatch hreserved hbad
  · subst hempty
    exact iff_of_false (fun h => by cases h) fun h => absurd h.2.1 (by decide)
  · exact iff_of_false (fun h => by cases h) fun h => absurd h.1 (Nat.not_le.2 hlong)
  · exact iff_of_false (fun h => by cases h) fun h => h.2.2 hreserved
  · exact absurd hbad (clean_of_pattern hmatch)
  · exact iff_of_true rfl ⟨Nat.not_lt.1 hlong, hmatch, hreserved⟩
  · exact iff_of_false (fun h => by cases h) fun h => hmatch h.2.1

/-- **What is accepted.** -/
theorem validateKeyId_ok_iff {keyId : Text} : validateKeyId keyId = .ok keyId ↔ Grammar keyId ∨ EndsInLineFeed keyId := by
  rw [validateKeyId_checks]
  constructor
  · intro h
    obtain ⟨hlong, hpattern, hreserved⟩ := h
    rcases keyIdPattern_iff.1 hpattern with ⟨hempty, hchars⟩ | ⟨body, rfl, hempty, hchars⟩
    · exact Or.inl ⟨List.length_pos_iff.2 hempty, hlong, hchars, hreserved⟩
    · rw [reserved_lineFeed] at hreserved
      have hbody : body.length ≤ MAX_KEY_ID_LENGTH := by
        rw [List.length_append] at hlong
        omega
      exact Or.inr ⟨body, rfl, ⟨List.length_pos_iff.2 hempty, hbody, hchars, hreserved⟩, hlong⟩
  · intro h
    rcases h with ⟨hempty, hlong, hchars, hreserved⟩ | ⟨body, rfl, ⟨hempty, -, hchars, hreserved⟩, hlong⟩
    · exact ⟨hlong, keyIdPattern_iff.2 (Or.inl ⟨List.length_pos_iff.1 hempty, hchars⟩), hreserved⟩
    · refine ⟨hlong, keyIdPattern_iff.2 (Or.inr ⟨body, rfl, List.length_pos_iff.1 hempty, hchars⟩), ?_⟩
      rwa [reserved_lineFeed]

theorem validateKeyId_refuses {keyId : Text} (h : validateKeyId keyId ≠ .ok keyId) :
    ∃ msg, validateKeyId keyId = .error ⟨.valueError, msg⟩ := by
  unfold validateKeyId at h ⊢
  split_ifs at h ⊢ with hempty hlong hmatch hreserved hbad
  all_goals first | exact ⟨_, rfl⟩ | exact absurd rfl h

/-- an id of the grammar is returned, and every other raises a `ValueError` -/
def MeetsGrammar (keyId : Text) : Prop :=
  (Grammar keyId ∧ validateKeyId keyId = .ok keyId) ∨ ¬ Grammar keyId ∧ ∃ msg, validateKeyId keyId = .error ⟨.valueError, msg⟩

theorem meetsGrammar_iff {keyId : Text} : MeetsGrammar keyId ↔ ¬ EndsInLineFeed keyId := by
  constructor
  · intro h hfeed
    rcases h with ⟨hgrammar, -⟩ | ⟨-, msg, herror⟩
    · exact hfeed.not_grammar hgrammar
    · rw [validateKeyId_ok_iff.2 (Or.inr hfeed)] at herror
      cases herror
  · intro h
    by_cases hgrammar : Grammar keyId
    · exact Or.inl ⟨hgrammar, validateKeyId_ok_iff.2 (Or.inl hgrammar)⟩
    · refine Or.inr ⟨hgrammar, validateKeyId_refuses fun hok => ?_⟩
      rcases validateKeyId_ok_iff.1 hok with hg | hf
      · exact hgrammar hg
      · exact h hf

/-! ## The keys of a vault -/

namespace McpServer

open Vault

/-- the call that a use of the vault makes, if it makes one -/
def Use.made : Use → Option Call
  | .call c => some c
  | .request ηRotate r => callOf ηRotate (methodOf r) (paramsOf r)

/-- a call that makes a key for an id -/
def Creates (keyId : Text) : Call → Prop
  | .generateKeypair id => id = keyId
  | .rotateKey id => id = keyId
  | .store _ id plaintext => id = keyId ∧ plaintext.length ≤ MAX_DATA_SIZE
  | _ => False

/-- the ids with a key, the planted canaries apart, are of the grammar -/
def GrammarKeys (s : Session) : Prop :=
  ∀ keyId, s.vault.keypairs.contains keyId → keyId ∉ s.vault.canaryIds → Grammar keyId

/-- a use that makes no key for an id that ends in a line feed -/
def Tame (c : Host × Use) : Prop := ∀ call, c.2.made = some call → ∀ keyId, EndsInLineFeed keyId → ¬ Creates keyId call

variable {l : McpLibs} {η : Host} {w : KeyState}

/-- a new secret is one of a key that was made, or of a canary -/
theorem of_change {c : Call} {keyId : Text} {σ : Bytes} (h : w.change η c = some (keyId, some σ)) :
    (validateKeyId keyId = .ok keyId ∧ Creates keyId c) ∨ c = .addCanary ∧ keyId = KeyState.canaryId η := by
  cases c with
  | generateKeypair id =>
    rw [KeyState.change] at h
    split_ifs at h with hid
    cases h
    exact Or.inl ⟨hid, rfl⟩
  | store ηRotate id p =>
    rw [KeyState.change] at h
    split_ifs at h with hid
    all_goals
      cases h
      exact Or.inl ⟨hid.1, rfl, hid.2⟩
  | rotateKey id =>
    rw [KeyState.change] at h
    split_ifs at h with hid
    cases h
    exact Or.inl ⟨hid, rfl⟩
  | addCanary =>
    cases h
    exact Or.inr ⟨rfl, rfl⟩
  | removeKeypair id =>
    rw [KeyState.change] at h
    split_ifs at h
    cases h
  | _ => cases h

theorem change_of_creates {c : Call} {keyId : Text} (hc : Creates keyId c) (hid : validateKeyId keyId = .ok keyId)
    (hnew : ¬ w.keypairs.contains keyId) : ∃ σ, w.change η c = some (keyId, some σ) := by
  cases c with
  | generateKeypair id =>
    obtain rfl : id = keyId := hc
    exact ⟨_, if_pos hid⟩
  | store ηRotate id p =>
    obtain ⟨rfl, hp⟩ := hc
    refine ⟨η.secret.toList, ?_⟩
    rw [KeyState.change, if_pos ⟨hid, hp⟩, if_pos hnew]
  | rotateKey id =>
    obtain rfl : id = keyId := hc
    exact ⟨_, if_pos hid⟩
  | _ => cases hc

theorem keyState_useStep (s : Session) (c : Host × Use) :
    keyState (useStep l s c) = c.2.made.elim (keyState s) fun call => (keyState s).apply c.1 l.toLibs call := by
  obtain ⟨η, c | ⟨ηRotate, r⟩⟩ := c
  · exact keyState_step s (η, c)
  · have hrequest : keyState (useStep l s (η, .request ηRotate r)) = _ := keyState_handleStep s r
    rw [hrequest, Use.made]
    cases callOf ηRotate (methodOf r) (paramsOf r) with
    | none => rfl
    | some call => exact keyState_step s (η, call)

/-- which ids have a key after a step: those that had one, and one for which the call has made one -/
theorem contains_useStep {s : Session} (h : Unseen s) (c : Host × Use) (keyId : Text) :
    (useStep l s c).vault.keypairs.contains keyId ↔
      ∃ σ, c.2.made.elim ((keyState s).secretKeys.get keyId)
        (fun call => KeyState.changed ((keyState s).change c.1 call) (keyState s) keyId) = some σ := by
  have hcoherent : (keyState (useStep l s c)).Coherent := (unseen_useStep h c).coherent
  rw [show (useStep l s c).vault.keypairs = (keyState (useStep l s c)).keypairs from rfl, hcoherent.contains_iff,
    keyState_useStep]
  cases c.2.made with
  | none => rfl
  | some call => exact exists_congr fun σ => by rw [Option.elim_some, Option.elim_some, h.coherent.get_apply]

/-- a call that makes a key for an id with a line feed puts an id into the vault that is not of the grammar -/
theorem tame_of_grammarKeys {s : Session} (h : Unseen s) (hs : GrammarKeys s) {c : Host × Use}
    (hgrammar : GrammarKeys (useStep l s c)) : Tame c := by
  have hnext : Unseen (useStep l s c) := unseen_useStep h c
  intro call hmade keyId hfeed hcreates
  have hid : validateKeyId keyId = .ok keyId := validateKeyId_ok_iff.2 (Or.inr hfeed)
  -- the id has no key yet: it is no canary, and not of the grammar
  have hnew : ¬ (keyState s).keypairs.contains keyId := fun hold => hfeed.not_grammar (hs keyId hold (h.not_canary hid))
  obtain ⟨σ, hchange⟩ := change_of_creates (η := c.1) hcreates hid hnew
  have hkey : (useStep l s c).vault.keypairs.contains keyId := by
    refine (contains_useStep h c keyId).2 ⟨σ, ?_⟩
    rw [hmade, Option.elim_some, hchange]
    exact if_pos rfl
  exact hfeed.not_grammar (hgrammar keyId hkey (hnext.not_canary hid))

/-- every other call keeps the ids of the keys in the grammar -/
theorem grammarKeys_of_tame {s : Session} (h : Unseen s) (hs : GrammarKeys s) {c : Host × Use} (htame : Tame c) :
    GrammarKeys (useStep l s c) := by
  intro keyId hkey hcanary
  have hold : ∀ σ, (keyState s).secretKeys.get keyId = some σ → Grammar keyId := by
    intro σ hσ
    refine hs keyId (h.coherent.contains_iff.2 ⟨σ, hσ⟩) fun hmem => ?_
    exact hcanary ((mem_canaryIds_useStep c keyId).2 (Or.inl hmem))
  obtain ⟨σ, hσ⟩ := (contains_useStep h c keyId).1 hkey
  cases hmade : c.2.made with
  | none =>
    rw [hmade] at hσ
    exact hold σ hσ
  | some call =>
    rw [hmade, Option.elim_some] at hσ
    rcases hchange : (keyState s).change c.1 call with _ | ⟨id, σ'⟩
    · rw [hchange] at hσ
      exact hold σ hσ
    · rw [hchange] at hσ
      by_cases hsame : id = keyId
      · obtain rfl : σ' = some σ := (if_pos hsame).symm.trans hσ
        rw [hsame] at hchange
        rcases of_change hchange with ⟨hid, hcreates⟩ | ⟨hplant, hcan⟩
        · rcases validateKeyId_ok_iff.1 hid with hgrammar | hfeed
          · exact hgrammar
          · exact absurd hcreates (htame call hmade keyId hfeed)
        · -- a canary has been planted, and the id is its id
          exfalso
          apply hcanary
          change keyId ∈ (keyState (useStep l s c)).canaryIds
          rw [keyState_useStep, hmade, Option.elim_some, KeyState.mem_canaryIds_apply]
          exact Or.inr ⟨hplant, hcan⟩
      · exact hold σ ((if_neg hsame).symm.trans hσ)

/-- **What a step must be like.** -/
theorem grammarKeys_useStep_iff {s : Session} (h : Unseen s) (hs : GrammarKeys s) (c : Host × Use) :
    GrammarKeys (useStep l s c) ↔ Tame c := ⟨tame_of_grammarKeys h hs, grammarKeys_of_tame h hs⟩

/-- **Key ids, exactly.** The validator returns the ids of the grammar and raises a `ValueError` for all others, except for an id
of the grammar with a line feed behind it, which it returns. In every state of a run the keys apart from the planted canaries
have ids of the grammar if and only if no call of the run makes a key for such an id. -/
theorem key_ids_exact (l : McpLibs) (η : Host) (fipsMode mlkemFips : Bool) (uses : List (Host × Use)) :
    (∀ keyId, MeetsGrammar keyId ↔ ¬ EndsInLineFeed keyId) ∧
      ((∀ pre post, uses = pre ++ post → GrammarKeys (Run.after (useStep l) (start η fipsMode mlkemFips) pre)) ↔
        ∀ c ∈ uses, Tame c) := by
  refine ⟨fun keyId => meetsGrammar_iff, ?_⟩
  have hstart : GrammarKeys (start η fipsMode mlkemFips) := by
    intro keyId hkey
    cases hkey
  have htame : Run.EachStep (useStep l) (fun _ c => Tame c) (start η fipsMode mlkemFips) uses ↔ ∀ c ∈ uses, Tame c := by
    constructor
    · intro h c hc
      obtain ⟨pre, post, huses⟩ := List.append_of_mem hc
      exact h pre c post huses
    · intro h pre c post huses
      exact h c (by simp [huses])
  rw [Run.always_iff, and_iff_right hstart, ← htame]
  refine Run.eachStep_iff (fun s => Unseen s ∧ GrammarKeys s) (fun c _ s hs => grammarKeys_useStep_iff hs.1 hs.2 c)
    (fun c _ s hs hc => ?_) ⟨unseen_start fipsMode mlkemFips, hstart⟩
  exact ⟨unseen_useStep hs.1 c, (grammarKeys_useStep_iff hs.1 hs.2 c).2 hc⟩

theorem endsInLineFeed_agent : EndsInLineFeed "agent\n" := by
  have hchars : (Text.ofString "agent").all isKeyIdChar = true := by decide +kernel
  refine ⟨"agent", by decide +kernel, ⟨by decide +kernel, by decide +kernel, List.all_eq_true.1 hchars, by decide +kernel⟩, ?_⟩
  decide +kernel

/-- an agent's id with a line feed is accepted and gets a key -/
theorem lineFeed_accepted : validateKeyId "agent\n" = .ok "agent\n" ∧ ¬ Grammar "agent\n" ∧
    (Run.after (useStep zeroMcpLibs) (start zeroHost false false)
      [(zeroHost, .call (.generateKeypair "agent\n"))]).vault.keypairs.contains (Text.ofString "agent\n") = true := by
  have hid : validateKeyId "agent\n" = .ok "agent\n" := validateKeyId_ok_iff.2 (Or.inr endsInLineFeed_agent)
  refine ⟨hid, endsInLineFeed_agent.not_grammar, ?_⟩
  obtain ⟨σ, hchange⟩ := change_of_creates (w := keyState (start zeroHost false false)) (η := zeroHost)
    (c := .generateKeypair "agent\n") rfl hid (by decide +kernel)
  refine (contains_useStep (l := zeroMcpLibs) (unseen_start false false)
    (zeroHost, .call (.generateKeypair "agent\n")) _).2 ⟨σ, ?_⟩
  rw [Use.made, Option.elim_some, hchange, KeyState.changed, if_pos rfl]

end McpServer

end AbirGuard.Python
