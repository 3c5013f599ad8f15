/-
Sealing to a TPM: do the two parts of a sealed object find their way back into their files?

`TPM2Sealer` works through the programs of tpm2-tools and through files in a directory of its own (`tpm2_seal.py`). Sealing joins
the public and the private file that `tpm2_create` writes into one blob, and unsealing cuts the blob in the middle. The programs
are a parameter: each call gets its arguments, the state of the chip and the files, and leaves others. What a program found and
what it left is recorded.

- `seal_blob`: the blob is the two files, one behind the other.
- `unseal_started`: what `tpm2_load` finds are the two halves of the blob.
- `reload_exact`: these are the two parts if and only if the private one is as long as the public one, or one byte longer.
- `softwareUnseal_softwareSeal`: the way without a TPM, where no boundary is needed, gives the data back.
-/
import AbirGuard.Core.Dict
import AbirGuard.Core.Raise
import AbirGuard.Python.Lang

namespace AbirGuard.Python.TpmSeal

open AbirGuard.Core Raise

/-! ## Model -/

inductive TpmExc where
  | tpm2Error (msg : Text)
  | timeoutExpired
  | fileNotFound
  | valueError (msg : Text)
  | invalidTag
deriving DecidableEq

structure CompletedProcess where
  returncode : ℤ
  stdout : String
  /-- as a message shows it -/
  stderr : Text
deriving DecidableEq

abbrev Files : Type := Text → Option Bytes

/-- the programs: what a call, given its arguments, makes of the chip and the files; it may run into the time limit, and the
program may be missing -/
abbrev Tools (τ : Type) : Type := List Text → τ → Files → Except TpmExc CompletedProcess × τ × Files

/-- a program that was started, with the files that it found and left -/
structure Started where
  args : List Text
  found : Files
  left : Files

structure Machine (τ : Type) where
  tpm : τ
  files : Files
  started : List Started

abbrev TpmM (τ α : Type) : Type := Raise TpmExc (Machine τ) α

structure SealedData where
  sealedBlob : Bytes
  pcrBank : Text
  pcrIndices : List ℤ
  policyHash : Text
deriving DecidableEq

structure TPM2Sealer where
  /-- what `is_available` answers, once it has asked -/
  available : Bool
  tempDir : Text

/-- the random parts of file names -/
structure Tokens where
  sealedFile : Text
  secretFile : Text
  policyFile : Text
  unsealPub : Text
  unsealPriv : Text

/-- the hash, and the cipher of the way without a TPM -/
structure Prims where
  sha256 : Bytes → Digest
  gcm : Aead Digest

section Machine

variable {τ : Type} (tools : Tools τ)

def writeFile (path : Text) (data : Bytes) : TpmM τ PUnit :=
  modify fun m => { m with files := Function.update m.files path (some data) }

def readFile (path : Text) : TpmM τ Bytes := do
  let m ← get
  match m.files path with
  | some b => pure b
  | none => throw .fileNotFound

/-- the machine after a program was run -/
def Machine.ran (m : Machine τ) (args : List Text) : Machine τ where
  tpm := (tools args m.tpm m.files).2.1
  files := (tools args m.tpm m.files).2.2
  started := m.started ++ [⟨args, m.files, (tools args m.tpm m.files).2.2⟩]

def subprocessRun (args : List Text) : TpmM τ CompletedProcess := fun m => ((tools args m.tpm m.files).1, m.ran tools args)

/-- a program that has to succeed -/
def runChecked (args : List Text) (failure : Text) : TpmM τ PUnit := do
  let result ← subprocessRun tools args
  when (result.returncode ≠ 0) (throw (.tpm2Error (failure ++ ": " ++ result.stderr)))

/-- `os.unlink` of each file that is there -/
def Machine.unlinkAll (paths : List Text) (m : Machine τ) : Machine τ :=
  { m with files := paths.foldl (fun files path => Function.update files path none) m.files }

/-- `try: … finally: …`, with files to remove at the end -/
def finallyUnlink {α : Type} (paths : List Text) (x : TpmM τ α) : TpmM τ α := fun m => ((run x m).1, (run x m).2.unlinkAll paths)

end Machine

/-- `pcr_indices or [0, 7]` -/
def orDefault (pcrIndices : Option (List ℤ)) : List ℤ :=
  match pcrIndices with
  | none | some [] => [0, 7]
  | some indices => indices

namespace TPM2Sealer

section Model

variable {τ : Type} (l : Prims) (tools : Tools τ) (self : TPM2Sealer) (tok : Tokens)

/-! ### Without a TPM -/

/-- simulated registers, as the dictionary is written -/
def simulatePcrValues (pcrIndices : Option (List ℤ)) : String :=
  let value (idx : ℤ) : String := Text.hexdigest (l.sha256 (utf8 s!"sim_pcr_{idx}")).toList
  let values := (orDefault pcrIndices).foldl (fun d idx => d.set idx (value idx)) Dict.empty
  "\x7b" ++ ", ".intercalate (values.entries.map fun e => toString e.1 ++ ": '" ++ e.2 ++ "'") ++ "\x7d"

def softwareKey (pcrIndices : Option (List ℤ)) : Digest :=
  l.sha256 (utf8 "abir_guard_pcr_seal" ++ utf8 (simulatePcrValues l pcrIndices))

def softwareSeal (nonce : Nonce) (data : Bytes) (pcrIndices : Option (List ℤ)) : SealedData where
  sealedBlob := nonce.toList ++ l.gcm.encrypt (softwareKey l pcrIndices) nonce data
  pcrBank := "sha256"
  pcrIndices := orDefault pcrIndices
  policyHash := Text.hexdigest (l.sha256 (utf8 (simulatePcrValues l pcrIndices))).toList

def softwareUnseal (sealedData : SealedData) : Except TpmExc Bytes :=
  let blob := sealedData.sealedBlob
  let nonce := blob.take 12
  let ciphertext := (blob.take (blob.length - 16)).drop 12
  let tag := blob.drop (blob.length - 16)
  -- the checks of the cipher's mode
  if nonce.length < 8 then .error (.valueError "initialization_vector must be between 8 and 128 bytes (64 and 1024 bits).")
  else if tag.length < 16 then .error (.valueError "Authentication tag must be 16 bytes or longer.")
  else match nonceFromSlice nonce with
    | .ok nonce =>
      match l.gcm.decrypt (softwareKey l (some sealedData.pcrIndices)) nonce (ciphertext ++ tag) with
      | some p => .ok p
      | none => .error .invalidTag
    -- a blob with a whole tag has a whole nonce
    | .error _ => .error .invalidTag

/-! ### With the programs -/

def sealedPath : Text := self.tempDir ++ "/sealed_" ++ tok.sealedFile ++ ".dat"

def secretPath : Text := self.tempDir ++ "/secret_" ++ tok.secretFile ++ ".dat"

def policyPath : Text := self.tempDir ++ "/policy_" ++ tok.policyFile ++ ".bin"

def primaryCtx : Text := self.tempDir ++ "/primary.ctx"

def createPrimaryArgs (ctx : Text) : List Text :=
  ["tpm2_createprimary", "-C", "o", "-g", "sha256", "-G", "ecc", "-c", ctx]

def createArgs : List Text :=
  ["tpm2_create", "-C", self.primaryCtx, "-i", self.secretPath tok, "-u", self.sealedPath tok ++ ".pub",
    "-r", self.sealedPath tok ++ ".priv", "-L", self.policyPath tok]

/-- a turn of the loop over the registers -/
def readPcr (policyData : Bytes) (idx : ℤ) : TpmM τ Bytes :=
  tryCatch
    (do
      let result ← subprocessRun tools ["tpm2_pcrread", "sha256:" ++ str idx]
      pure (if result.returncode = 0 then policyData ++ utf8 result.stdout else policyData))
    fun
      | .timeoutExpired | .fileNotFound => pure policyData
      | e => throw e

def computePolicyHash (pcrIndices : List ℤ) : TpmM τ Text := do
  let policyData ← pcrIndices.foldlM (readPcr tools) []
  pure (Text.hexdigest (l.sha256 policyData).toList)

def readSealedBlob (baseFile : Text) : TpmM τ Bytes :=
  tryCatch
    (do
      let pub ← readFile (baseFile ++ ".pub")
      let priv ← readFile (baseFile ++ ".priv")
      pure (pub ++ priv))
    fun
      | .fileNotFound => pure []
      | e => throw e

def hardwareSeal (data : Bytes) (indices : List ℤ) : TpmM τ SealedData := do
  let pcrPolicy := List.intercalate (Text.ofString ",") (indices.map fun i => "sha256:" ++ str i)
  writeFile (self.secretPath tok) data
  runChecked tools ["tpm2_createpolicy", "--policy-pcr", "-l", pcrPolicy, "-f", self.policyPath tok] "Policy creation failed"
  runChecked tools (createPrimaryArgs self.primaryCtx) "Primary key creation failed"
  runChecked tools (self.createArgs tok) "TPM create failed"
  let policyHash ← computePolicyHash l tools indices
  let sealedBlob ← readSealedBlob (self.sealedPath tok)
  pure ⟨sealedBlob, "sha256", indices, policyHash⟩

/-- `seal` -/
def sealData (nonce : Nonce) (data : Bytes) (pcrIndices : Option (List ℤ)) : TpmM τ SealedData :=
  if !self.available then pure (softwareSeal l nonce data pcrIndices)
  else finallyUnlink
    [self.secretPath tok, self.policyPath tok, self.sealedPath tok ++ ".pub", self.sealedPath tok ++ ".priv"]
    (self.hardwareSeal l tools tok data (orDefault pcrIndices))

def unsealPubPath : Text := self.tempDir ++ "/unseal_" ++ tok.unsealPub ++ ".pub"

def unsealPrivPath : Text := self.tempDir ++ "/unseal_" ++ tok.unsealPriv ++ ".priv"

def primaryUnsealCtx : Text := self.tempDir ++ "/primary_unseal.ctx"

def sealedCtx : Text := self.tempDir ++ "/sealed_obj.ctx"

def unsealedPath : Text := self.tempDir ++ "/unsealed_out.bin"

def loadArgs : List Text :=
  ["tpm2_load", "-C", self.primaryUnsealCtx, "-u", self.unsealPubPath tok, "-r", self.unsealPrivPath tok,
    "-c", self.sealedCtx]

def hardwareUnseal (sealedData : SealedData) : TpmM τ Bytes := do
  let blobData := sealedData.sealedBlob
  -- the blob is cut in the middle
  let pubData := blobData.take (blobData.length / 2)
  let privData := blobData.drop (blobData.length / 2)
  writeFile (self.unsealPubPath tok) pubData
  writeFile (self.unsealPrivPath tok) privData
  runChecked tools (createPrimaryArgs self.primaryUnsealCtx) "Primary key creation failed"
  runChecked tools (self.loadArgs tok) "Failed to load sealed object"
  runChecked tools ["tpm2_unseal", "-c", self.sealedCtx, "-o", self.unsealedPath] "TPM unseal failed (likely PCR mismatch)"
  readFile self.unsealedPath

/-- `unseal` -/
def unsealData (sealedData : SealedData) : TpmM τ Bytes :=
  if !self.available then lift (softwareUnseal l sealedData)
  else finallyUnlink
    [self.unsealPubPath tok, self.unsealPrivPath tok, self.primaryUnsealCtx, self.sealedCtx, self.unsealedPath]
    (self.hardwareUnseal tools tok sealedData)

end Model

/-! ## Programs -/

section Programs

variable {τ : Type} {tools : Tools τ}

theorem run_runChecked_snd (tools : Tools τ) (args : List Text) (failure : Text) (m : Machine τ) :
    (run (runChecked tools args failure) m).2 = m.ran tools args := by
  refine state_bind (fun result t => ?_) m
  unfold when
  split_ifs <;> rfl

theorem of_runChecked {args : List Text} {failure : Text} {m m' : Machine τ} {u : PUnit}
    (h : run (runChecked tools args failure) m = (.ok u, m')) : m' = m.ran tools args := by
  rw [← run_runChecked_snd tools args failure m, h]

/-- what comes after a program that has to succeed runs on the machine that the program left, if it runs at all -/
theorem run_runChecked_bind {α : Type} (tools : Tools τ) (args : List Text) (failure : Text) (k : PUnit → TpmM τ α)
    (m : Machine τ) :
    run (runChecked tools args failure >>= k) m = run (k ⟨⟩) (m.ran tools args) ∨
      ∃ e, run (runChecked tools args failure >>= k) m = (.error e, m.ran tools args) := by
  have hstate := run_runChecked_snd tools args failure m
  rw [run_bind]
  rcases hrun : run (runChecked tools args failure) m with ⟨e | u, m'⟩
  all_goals rw [hrun] at hstate; cases hstate
  · exact .inr ⟨e, rfl⟩
  · exact .inl rfl

/-- nothing but registers was read in between, and the files are the same -/
def OnlyRead (m m' : Machine τ) : Prop :=
  ∃ reads, m'.started = m.started ++ reads ∧ (∀ e ∈ reads, e.args.head? = some ("tpm2_pcrread" : Text)) ∧ m'.files = m.files

theorem onlyRead_refl (m : Machine τ) : OnlyRead m m := ⟨[], (List.append_nil _).symm, List.forall_mem_nil _, rfl⟩

theorem onlyRead_trans (m m' m'' : Machine τ) (h : OnlyRead m m') (h' : OnlyRead m' m'') : OnlyRead m m'' := by
  obtain ⟨reads, hstarted, hreads, hfiles⟩ := h
  obtain ⟨reads', hstarted', hreads', hfiles'⟩ := h'
  refine ⟨reads ++ reads', by rw [hstarted', hstarted, List.append_assoc], ?_, hfiles'.trans hfiles⟩
  intro e he
  rcases List.mem_append.1 he with he | he
  · exact hreads e he
  · exact hreads' e he

/-- what the sealer takes from the programs: reading a register leaves the files alone, and creating a primary key writes its
context only -/
structure FilesKept (tools : Tools τ) : Prop where
  pcrRead : ∀ idx t files, (tools ["tpm2_pcrread", "sha256:" ++ str idx] t files).2.2 = files
  createPrimary : ∀ ctx t files path, path ≠ ctx → (tools (createPrimaryArgs ctx) t files).2.2 path = files path

theorem moves_readPcr (h : FilesKept tools) (policyData : Bytes) (idx : ℤ) : Moves OnlyRead (readPcr tools policyData idx) := by
  refine moves_tryCatch onlyRead_trans (moves_bind onlyRead_trans (fun m => ?_) fun _ => moves_of_eq onlyRead_refl fun _ => rfl)
    fun e => moves_of_eq onlyRead_refl fun _ => ?_
  · refine ⟨_, rfl, fun e he => ?_, h.pcrRead idx m.tpm m.files⟩
    rw [List.mem_singleton.1 he]
    rfl
  · cases e <;> rfl

theorem moves_computePolicyHash (h : FilesKept tools) (l : Prims) (pcrIndices : List ℤ) :
    Moves OnlyRead (computePolicyHash l tools pcrIndices) := by
  refine moves_bind onlyRead_trans ?_ fun _ => moves_of_eq onlyRead_refl fun _ => rfl
  generalize ([] : Bytes) = policyData
  induction pcrIndices generalizing policyData with
  | nil => exact moves_of_eq onlyRead_refl fun _ => rfl
  | cons idx pcrIndices ih => exact moves_bind onlyRead_trans (moves_readPcr h policyData idx) ih

/-- a blob is read from two files that are there -/
theorem run_readSealedBlob {baseFile : Text} {m : Machine τ} {pub priv : Bytes} (hpub : m.files (baseFile ++ ".pub") = some pub)
    (hpriv : m.files (baseFile ++ ".priv") = some priv) : run (readSealedBlob baseFile) m = (.ok (pub ++ priv), m) := by
  have hread : ∀ {path b}, m.files path = some b → run (readFile path) m = (.ok b, m) := by
    intro path b hb
    rw [readFile, run_get_bind, hb]
    rfl
  rw [readSealedBlob, run_tryCatch, run_bind_of_ok (hread hpub), run_bind_of_ok (hread hpriv)]
  rfl

theorem leaves_readFile (path : Text) : Leaves id (readFile path : TpmM τ Bytes) := by
  intro m
  rw [readFile, run_get_bind]
  cases m.files path <;> rfl

theorem leaves_readSealedBlob (baseFile : Text) : Leaves id (readSealedBlob baseFile : TpmM τ Bytes) := by
  refine moves_tryCatch (R := fun m m' => id m' = id m) (fun _ _ _ hs ht => ht.trans hs) ?_ fun e => ?_
  · exact leaves_bind (leaves_readFile _) fun pub => leaves_bind (leaves_readFile _) fun priv => leaves_pure _
  · cases e <;> exact fun m => rfl

theorem of_finallyUnlink {α : Type} {paths : List Text} {x : TpmM τ α} {m m' : Machine τ} {a : α}
    (h : run (finallyUnlink paths x) m = (.ok a, m')) : ∃ m₁, run x m = (.ok a, m₁) ∧ m'.started = m₁.started := by
  have hres : (run x m).1 = .ok a := congrArg Prod.fst h
  have hstate : (run x m).2.unlinkAll paths = m' := congrArg Prod.snd h
  exact ⟨(run x m).2, Prod.ext hres rfl, by rw [← hstate]; rfl⟩

end Programs

/-! ## Sealing -/

section Sealing

variable {τ : Type} {l : Prims} {tools : Tools τ} {self : TPM2Sealer} {tok : Tokens}

/-- what a seal returns is made of what `tpm2_create` left in its two files -/
theorem seal_blob (hkept : FilesKept tools) (hav : self.available = true) {nonce : Nonce} {data : Bytes}
    {pcrIndices : Option (List ℤ)} {m m' : Machine τ} {sealedData : SealedData}
    (hseal : run (self.sealData l tools tok nonce data pcrIndices) m = (.ok sealedData, m')) {c : Started}
    (hc : c ∈ m'.started.drop m.started.length) (hargs : c.args = self.createArgs tok) {pub priv : Bytes}
    (hpub : c.left (self.sealedPath tok ++ ".pub") = some pub) (hpriv : c.left (self.sealedPath tok ++ ".priv") = some priv) :
    sealedData.sealedBlob = pub ++ priv := by
  rw [sealData, hav] at hseal
  obtain ⟨m₁, hrun, hstarted⟩ := of_finallyUnlink hseal
  -- the steps of a seal that returns
  rw [hardwareSeal, writeFile, run_modify_bind] at hrun
  obtain ⟨_, m₂, h₂, hrun⟩ := run_bind_eq_ok hrun
  obtain ⟨_, m₃, h₃, hrun⟩ := run_bind_eq_ok hrun
  obtain ⟨_, m₄, h₄, hrun⟩ := run_bind_eq_ok hrun
  obtain ⟨policyHash, m₅, h₅, hrun⟩ := run_bind_eq_ok hrun
  obtain ⟨reads, hreads, hheads, hfiles⟩ : OnlyRead m₄ m₅ := by
    have hmoves := moves_computePolicyHash hkept l (orDefault pcrIndices) m₄
    rwa [h₅] at hmoves
  obtain ⟨blob, m₆, h₆, hrun⟩ := run_bind_eq_ok hrun
  cases hrun
  have hstate : m₁ = m₅ := by
    have hsame := leaves_readSealedBlob (self.sealedPath tok) m₅
    rwa [h₆] at hsame
  -- of the programs that were started, only one has these arguments
  have hleft : c.left = m₄.files := by
    rw [hstarted, hstate, hreads, of_runChecked h₄, of_runChecked h₃, of_runChecked h₂] at hc
    simp only [Machine.ran, List.append_assoc, List.drop_left, List.mem_append, List.mem_singleton] at hc
    rcases hc with rfl | rfl | rfl | hc
    · simp [createArgs] at hargs
    · simp [createArgs, createPrimaryArgs] at hargs
    · rw [of_runChecked h₄, of_runChecked h₃, of_runChecked h₂]
      rfl
    · have hhead := hheads c hc
      rw [hargs] at hhead
      simp [createArgs] at hhead
  have hblob : run (readSealedBlob (self.sealedPath tok)) m₅ = (.ok (pub ++ priv), m₅) := by
    apply run_readSealedBlob
    · rw [hfiles, ← hleft, hpub]
    · rw [hfiles, ← hleft, hpriv]
  rw [hblob] at h₆
  cases h₆
  rfl

/-- paths whose endings have different last characters differ -/
theorem path_ne {a b ending ending' : Text} (h : ending ≠ []) (h' : ending' ≠ []) (hlast : ending.getLast? ≠ ending'.getLast?) :
    a ++ ending ≠ b ++ ending' := by
  intro heq
  apply hlast
  rw [← List.getLast?_append_of_ne_nil a h, ← List.getLast?_append_of_ne_nil b h', heq]

theorem unsealPub_ne_priv : self.unsealPubPath tok ≠ self.unsealPrivPath tok := path_ne (by decide) (by decide) (by decide)

theorem unsealPub_ne_ctx : self.unsealPubPath tok ≠ self.primaryUnsealCtx := path_ne (by decide) (by decide) (by decide)

theorem unsealPriv_ne_ctx : self.unsealPrivPath tok ≠ self.primaryUnsealCtx := path_ne (by decide) (by decide) (by decide)

/-- the machine once the halves of the blob are written -/
def withHalves (self : TPM2Sealer) (tok : Tokens) (blob : Bytes) (m : Machine τ) : Machine τ :=
  let files := Function.update m.files (self.unsealPubPath tok) (some (blob.take (blob.length / 2)))
  { m with files := Function.update files (self.unsealPrivPath tok) (some (blob.drop (blob.length / 2))) }

theorem withHalves_pub (blob : Bytes) (m : Machine τ) :
    (self.withHalves tok blob m).files (self.unsealPubPath tok) = some (blob.take (blob.length / 2)) := by
  simp only [withHalves]
  rw [Function.update_of_ne unsealPub_ne_priv, Function.update_self]

theorem withHalves_priv (blob : Bytes) (m : Machine τ) :
    (self.withHalves tok blob m).files (self.unsealPrivPath tok) = some (blob.drop (blob.length / 2)) := by
  simp only [withHalves]
  rw [Function.update_self]

/-- the machine that `tpm2_load` is started on -/
def loadMachine (tools : Tools τ) (self : TPM2Sealer) (tok : Tokens) (blob : Bytes) (m : Machine τ) : Machine τ :=
  (self.withHalves tok blob m).ran tools (createPrimaryArgs self.primaryUnsealCtx)

/-- an unsealing ends behind the first program that fails, or behind the last one -/
theorem hardwareUnseal_ends (tools : Tools τ) (self : TPM2Sealer) (tok : Tokens) (sealedData : SealedData) (m : Machine τ) :
    let m₂ := self.loadMachine tools tok sealedData.sealedBlob m
    let m₃ := m₂.ran tools (self.loadArgs tok)
    (run (self.hardwareUnseal tools tok sealedData) m).2 = m₂ ∨ (run (self.hardwareUnseal tools tok sealedData) m).2 = m₃ ∨
      (run (self.hardwareUnseal tools tok sealedData) m).2 =
        m₃.ran tools ["tpm2_unseal", "-c", self.sealedCtx, "-o", self.unsealedPath] := by
  intro m₂ m₃
  simp only [hardwareUnseal, writeFile, run_modify_bind]
  rcases run_runChecked_bind tools _ _ _ _ with h | ⟨_, h⟩
  all_goals rw [h]
  · rcases run_runChecked_bind tools _ _ _ _ with h | ⟨_, h⟩
    all_goals rw [h]
    · rcases run_runChecked_bind tools _ _ _ _ with h | ⟨_, h⟩
      all_goals rw [h]
      · exact .inr (.inr (leaves_readFile _ _))
      · exact .inr (.inr rfl)
    · exact .inr (.inl rfl)
  · exact .inl rfl

/-- what `tpm2_load` finds in its two files are the two halves of the blob -/
theorem unseal_started (hkept : FilesKept tools) (hav : self.available = true) {sealedData : SealedData} {m : Machine τ}
    {e : Started} (he : e ∈ (run (self.unsealData l tools tok sealedData) m).2.started.drop m.started.length)
    (hargs : e.args = self.loadArgs tok) :
    e.found (self.unsealPubPath tok) = some (sealedData.sealedBlob.take (sealedData.sealedBlob.length / 2)) ∧
      e.found (self.unsealPrivPath tok) = some (sealedData.sealedBlob.drop (sealedData.sealedBlob.length / 2)) := by
  have hstarted : (run (self.unsealData l tools tok sealedData) m).2.started =
      (run (self.hardwareUnseal tools tok sealedData) m).2.started := by
    rw [unsealData, hav]
    rfl
  have hprimary : createPrimaryArgs self.primaryUnsealCtx ≠ self.loadArgs tok := by simp [createPrimaryArgs, loadArgs]
  have hfound : e.found = (self.loadMachine tools tok sealedData.sealedBlob m).files := by
    rw [hstarted] at he
    rcases hardwareUnseal_ends tools self tok sealedData m with h | h | h
    all_goals
      rw [h] at he
      simp only [loadMachine, withHalves, Machine.ran, List.append_assoc, List.drop_left, List.mem_append,
        List.mem_singleton] at he
    · rw [he] at hargs
      exact absurd hargs hprimary
    · rcases he with rfl | rfl
      · exact absurd hargs hprimary
      · rfl
    · rcases he with rfl | rfl | rfl
      · exact absurd hargs hprimary
      · rfl
      · simp [loadArgs] at hargs
  constructor
  · rw [hfound, loadMachine, ← withHalves_pub sealedData.sealedBlob m]
    exact hkept.createPrimary _ _ _ _ unsealPub_ne_ctx
  · rw [hfound, loadMachine, ← withHalves_priv sealedData.sealedBlob m]
    exact hkept.createPrimary _ _ _ _ unsealPriv_ne_ctx

/-- the middle of two parts is their boundary -/
theorem halves_eq_iff {pub priv : Bytes} :
    (pub ++ priv).take ((pub ++ priv).length / 2) = pub ∧ (pub ++ priv).drop ((pub ++ priv).length / 2) = priv ↔
      priv.length = pub.length ∨ priv.length = pub.length + 1 := by
  constructor
  · intro h
    have hlen := congrArg List.length h.1
    rw [List.length_take, List.length_append] at hlen
    omega
  · intro h
    have hmid : (pub ++ priv).length / 2 = pub.length := by
      rw [List.length_append]
      omega
    rw [hmid]
    exact ⟨List.take_left, List.drop_left⟩

/-- **When the two parts come back.** Let a seal have returned a blob for which `tpm2_create` left `pub` and `priv` in its files,
and let an unsealing of that blob have started `tpm2_load`. Its files hold exactly `pub` and `priv` if and only if `priv` is as
long as `pub`, or one byte longer. -/
theorem reload_exact (hkept : FilesKept tools) (hav : self.available = true) {nonce : Nonce} {data : Bytes}
    {pcrIndices : Option (List ℤ)} {m m' : Machine τ} {sealedData : SealedData}
    (hseal : run (self.sealData l tools tok nonce data pcrIndices) m = (.ok sealedData, m')) {c : Started}
    (hc : c ∈ m'.started.drop m.started.length) (hcreate : c.args = self.createArgs tok) {pub priv : Bytes}
    (hpub : c.left (self.sealedPath tok ++ ".pub") = some pub) (hpriv : c.left (self.sealedPath tok ++ ".priv") = some priv)
    {tok' : Tokens} {n : Machine τ} {e : Started}
    (he : e ∈ (run (self.unsealData l tools tok' sealedData) n).2.started.drop n.started.length)
    (hload : e.args = self.loadArgs tok') :
    e.found (self.unsealPubPath tok') = some pub ∧ e.found (self.unsealPrivPath tok') = some priv ↔
      priv.length = pub.length ∨ priv.length = pub.length + 1 := by
  obtain ⟨hfoundPub, hfoundPriv⟩ := unseal_started hkept hav he hload
  have hblob := seal_blob hkept hav hseal hc hcreate hpub hpriv
  rw [hfoundPub, hfoundPriv, hblob, Option.some.injEq, Option.some.injEq]
  exact halves_eq_iff

end Sealing

/-! ## Without a TPM -/

theorem orDefault_some (pcrIndices : Option (List ℤ)) : orDefault (some (orDefault pcrIndices)) = orDefault pcrIndices := by
  rcases pcrIndices with _ | _ | ⟨i, indices⟩ <;> rfl

/-- the boundaries are fixed there, so the data comes back -/
theorem softwareUnseal_softwareSeal {l : Prims} (hgcm : l.gcm.Correct) (nonce : Nonce) (data : Bytes)
    (pcrIndices : Option (List ℤ)) : softwareUnseal l (softwareSeal l nonce data pcrIndices) = .ok data := by
  have hkey : softwareKey l (some (orDefault pcrIndices)) = softwareKey l pcrIndices := by
    rw [softwareKey, softwareKey, simulatePcrValues, simulatePcrValues, orDefault_some]
  set ct := l.gcm.encrypt (softwareKey l pcrIndices) nonce data with hct
  have hlen : ct.length = data.length + 16 := hgcm.length_encrypt _ _ _
  have hnonce : (nonce.toList ++ ct).take 12 = nonce.toList := List.take_left' nonce.length_toList
  have hparts : ((nonce.toList ++ ct).take ((nonce.toList ++ ct).length - 16)).drop 12 ++
      (nonce.toList ++ ct).drop ((nonce.toList ++ ct).length - 16) = ct := by
    rw [← List.drop_append_of_le_length (by simp [hlen]; omega), List.take_append_drop, List.drop_left' nonce.length_toList]
  have htag : ((nonce.toList ++ ct).drop ((nonce.toList ++ ct).length - 16)).length = 16 := by
    simp [hlen]
    omega
  have hopen : l.gcm.decrypt (softwareKey l pcrIndices) nonce ct = some data := hgcm.decrypt_encrypt _ _ _
  simp only [softwareUnseal, softwareSeal, ← hct, hnonce, hparts, hkey, htag, nonceFromSlice_toList, hopen, Vector.length_toList]
  rfl

/-! ## Programs that write two given parts -/

def partTools (pub priv : Bytes) : Tools Unit := fun args _ files =>
  (.ok ⟨0, "", []⟩, (), match args with
    | [name, _, _, _, _, _, pubFile, _, privFile, _, _] =>
      if name = ("tpm2_create" : Text) then Function.update (Function.update files pubFile (some pub)) privFile (some priv)
      else files
    | [name, _, _, _, _, _, _, _, ctx] =>
      if name = ("tpm2_createprimary" : Text) then Function.update files ctx (some []) else files
    | [_, _, _, _, out] => Function.update files out (some [])
    | _ => files)

theorem partTools_filesKept (pub priv : Bytes) : FilesKept (partTools pub priv) where
  pcrRead _ _ _ := rfl
  createPrimary ctx t files path hne := by
    simp [partTools, createPrimaryArgs, hne]

def plainPrims : Prims := ⟨fun _ => Vector.replicate 32 0, Aead.tagged.comap fun _ => 0⟩

def sealer : TPM2Sealer := ⟨true, "t"⟩

def tokens : Tokens := ⟨"a", "b", "c", "d", "e"⟩

def machine : Machine Unit := ⟨(), fun _ => none, []⟩

def sealRun (pub priv : Bytes) : Except TpmExc SealedData × Machine Unit :=
  run (sealer.sealData plainPrims (partTools pub priv) tokens (Vector.replicate 12 0) [7] none) machine

def unsealRun (pub priv : Bytes) (sealedData : SealedData) : Except TpmExc Bytes × Machine Unit :=
  run (sealer.unsealData plainPrims (partTools pub priv) tokens sealedData) machine

def sealedParts (blob : Bytes) : SealedData := ⟨blob, "sha256", [0, 7], Text.hexdigest (List.replicate 32 0)⟩

theorem sealRun_eq (pub priv : Bytes) : (sealRun pub priv).1 = .ok (sealedParts (pub ++ priv)) := rfl

theorem sealRun_created (pub priv : Bytes) : ∃ c ∈ (sealRun pub priv).2.started, c.args = sealer.createArgs tokens ∧
    c.left (sealer.sealedPath tokens ++ ".pub") = some pub ∧ c.left (sealer.sealedPath tokens ++ ".priv") = some priv :=
  ⟨_, .tail _ (.tail _ (.head _)), rfl, rfl, rfl⟩

theorem unsealRun_loaded (pub priv : Bytes) (sealedData : SealedData) :
    ∃ e ∈ (unsealRun pub priv sealedData).2.started, e.args = sealer.loadArgs tokens :=
  ⟨_, .tail _ (.head _), rfl⟩

/-- parts of one byte each come back -/
theorem reload_exact_bytes : ∃ e ∈ (unsealRun [1] [2] (sealedParts [1, 2])).2.started, e.args = sealer.loadArgs tokens ∧
    e.found (sealer.unsealPubPath tokens) = some [1] ∧ e.found (sealer.unsealPrivPath tokens) = some [2] := by
  obtain ⟨c, hc, hcreate, hpub, hpriv⟩ := sealRun_created [1] [2]
  obtain ⟨e, he, hload⟩ := unsealRun_loaded [1] [2] (sealedParts [1, 2])
  refine ⟨e, he, hload, ?_⟩
  exact (reload_exact (m := machine) (n := machine) (partTools_filesKept [1] [2]) rfl (Prod.ext (sealRun_eq [1] [2]) rfl) hc
    hcreate hpub hpriv he hload).2 (.inl rfl)

/-- a private part of three bytes behind a public part of one -/
theorem longer_private_part : (sealRun [1] [2, 3, 4]).1 = .ok (sealedParts [1, 2, 3, 4]) ∧
    (∃ c ∈ (sealRun [1] [2, 3, 4]).2.started, c.args = sealer.createArgs tokens ∧
      c.left (sealer.sealedPath tokens ++ ".pub") = some [1] ∧
      c.left (sealer.sealedPath tokens ++ ".priv") = some [2, 3, 4]) ∧
    ∃ e ∈ (unsealRun [1] [2, 3, 4] (sealedParts [1, 2, 3, 4])).2.started, e.args = sealer.loadArgs tokens ∧
      e.found (sealer.unsealPubPath tokens) = some [1, 2] ∧ e.found (sealer.unsealPrivPath tokens) = some [3, 4] :=
  ⟨sealRun_eq [1] [2, 3, 4], sealRun_created [1] [2, 3, 4], _, .tail _ (.head _), rfl, rfl, rfl⟩

end TPM2Sealer

end AbirGuard.Python.TpmSeal
