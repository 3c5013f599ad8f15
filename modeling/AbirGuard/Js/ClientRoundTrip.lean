/-
What a client of the JavaScript SDK gets back from the HTTP gateway of the Python vault, between an encryption and a decryption.

- `served_after`: a run of calls does to the server what the requests do that are not refused.
- `client_decrypts_iff`: a ciphertext that the client was given decrypts, through the client, to the text that it encrypted,
  exactly if the id is the same, the key has stayed and the mode is the same again.
-/
import AbirGuard.Js.McpClient
import AbirGuard.Python.McpRoundTrip

namespace AbirGuard.Js.McpClient

open AbirGuard.Core Raise
open AbirGuard.Python AbirGuard.Python.McpHttpHandler AbirGuard.Python.JsonValue
open AbirGuard.Python.McpServer (handleStep resultOf made)
open Direct

/-! ## Model -/

/-- `answer.result`; none is undefined, also of a promise that is rejected -/
def resultIn (answer : Option (Json ℚ)) : Option (Json ℚ) :=
  match answer with
  | some (.obj members) => Table.get (Text.ofString "result") members
  | _ => none

/-- the message, as the dictionary that the server is given -/
def messageDict (method : Text) (params : Json ℚ) : Dict Text (Json ℚ) :=
  ⟨message method params, Direct.unique_message method params⟩

/-- the request of a call -/
def requestOf (x : Call) : Python.Host × Python.Host × Dict Text (Json ℚ) :=
  (x.host.vault, x.host.rotate, messageDict x.method x.params)

variable (js : FloatText ℚ) (l : HttpLibs) (cfg : Config)

/-- the requests of a run of calls that no check refuses -/
def served (d : Direct) : List Call → List (Python.Host × Python.Host × Dict Text (Json ℚ))
  | [] => []
  | x :: calls => (if d.refused js l cfg x = none then [requestOf x] else []) ++ served (d.step js l cfg x) calls

/-- the calls of the vault that a run of calls of the client makes -/
def vaultCalls (d : Direct) (calls : List Call) : List (Python.Host × Vault.Call) :=
  (served js l cfg d calls).filterMap made

variable {js l cfg} {d : Direct}

/-! ## Served requests -/

theorem served_append (calls calls' : List Call) : served js l cfg d (calls ++ calls') =
    served js l cfg d calls ++ served js l cfg (Run.after (Direct.step js l cfg) d calls) calls' := by
  induction calls generalizing d with
  | nil => rfl
  | cons x calls ih => rw [List.cons_append, served, served, ih, Run.after_cons, List.append_assoc]

/-- **A run leaves the server as the requests that are not refused.** -/
theorem served_after (calls : List Call) : (Run.after (Direct.step js l cfg) d calls).server =
    Run.after (handleStep l.toMcpLibs) d.server (served js l cfg d calls) := by
  induction calls generalizing d with
  | nil => rfl
  | cons x calls ih =>
    have hstep : (d.step js l cfg x).server = Run.after (handleStep l.toMcpLibs) d.server
        (if d.refused js l cfg x = none then [requestOf x] else []) := by
      rw [Direct.step]
      cases d.refused js l cfg x with
      | none => rfl
      | some answer => rfl
    rw [Run.after_cons, ih, served, Run.after_append, ← hstep]

/-! ## Answers -/

theorem unpaired_of_encode {t : Text} {b : Bytes} (h : t.encode = some b) : Json.Unpaired t := by
  have hdecode := Text.decode_encode h
  rw [Text.decode, Option.map_eq_some_iff] at hdecode
  obtain ⟨s, -, rfl⟩ := hdecode
  exact Json.unpaired_ofString s

/-- the result of a response is the result in what the client reads -/
theorem resultIn_normal {response : Dict Text (Json ℚ)} (hkeys : ∀ e ∈ response.entries, Json.Unpaired e.1) :
    resultIn (some (Json.obj response.entries).normal) = (response.get (Text.ofString "result")).map Json.normal := by
  have hmembers : ∀ members : List (Text × Json ℚ), (∀ e ∈ members, Json.Unpaired e.1) →
      Json.normalMembers members = members.map fun e => (e.1, e.2.normal) := by
    intro members hkeys
    induction members with
    | nil => rfl
    | cons e members ih =>
      rw [Json.normalMembers, Json.normalize_eq_self_iff.2 (hkeys e List.mem_cons_self),
        ih fun e' he' => hkeys e' (List.mem_cons_of_mem _ he')]
      rfl
  have hunique : Table.Unique (response.entries.map fun e => (e.1, e.2.normal)) := by
    rw [Table.Unique, List.map_map]
    exact response.unique
  rw [Json.normal, hmembers _ hkeys, Table.setAll_eq_self hunique]
  change Table.get _ (response.entries.map fun e => (e.1, e.2.normal)) = (Table.get _ response.entries).map Json.normal
  rw [Table.get, Table.get, List.find?_map, Option.map_map, Option.map_map]
  rfl

theorem refused_cases (d : Direct) (x : Call) :
    d.refused js l cfg x = none ∨ ∃ code text, d.refused js l cfg x = some (refusal code text) := by
  cases h : d.refused js l cfg x with
  | none => exact Or.inl rfl
  | some answer =>
    unfold refused at h
    split_ifs at h
    all_goals exact Or.inr ⟨_, _, h.symm⟩

/-- the result that the client reads: a refusal has none -/
theorem resultIn_request (d : Direct) (x : Call) : resultIn (d.request js l cfg x) =
    if d.refused js l cfg x = none then (resultOf l.toMcpLibs d.server (requestOf x)).map Json.normal else none := by
  rw [Direct.request]
  rcases @refused_cases js l cfg d x with hserved | ⟨code, text, hanswer⟩
  · obtain ⟨key, v, success, details, hkey, hrun⟩ := @McpServer.run_handle l.toMcpLibs x.host.vault x.host.rotate
      (requestOf x).2.2 d.server
    have hcalled : (run (McpServer.handle l.toMcpLibs (requestOf x).1 (requestOf x).2.1 (requestOf x).2.2) d.server).1 =
        .ok (McpServer.response (requestOf x).2.2 key v) := congrArg Prod.fst hrun
    have hentries : ∃ id, (McpServer.response (requestOf x).2.2 key v).entries =
        ([("jsonrpc", .str "2.0"), ("id", id), (Text.ofString key, v)] : List (Text × Json ℚ)) := by
      rcases hkey with rfl | rfl <;> exact ⟨_, rfl⟩
    obtain ⟨id, hentries⟩ := hentries
    rw [hserved, Option.elim_none, answered, show (called l d.server x).1 = _ from hcalled, if_pos rfl, resultOf, hcalled]
    refine resultIn_normal fun e he => ?_
    rw [hentries] at he
    simp only [List.mem_cons, List.not_mem_nil, or_false] at he
    rcases he with rfl | rfl | rfl <;> exact Json.unpaired_ofString _
  · rw [hanswer, if_neg (fun h => by cases h)]
    rfl

/-! ## Between an encryption and a decryption -/

/-- all along a run, a promise of the client is what a direct call makes it -/
theorem request_after (hl : l.float.Lawful) (hjs : js.Lawful) (hloads : ReadsText js l)
    (hdigits : l.maxStrDigits = 0 ∨ 640 ≤ l.maxStrDigits) {g : Gateway} (hg : Simulates g d) {calls : List Call}
    (hcalls : ∀ z ∈ calls, z.Valid js) {x : Call} (hx : x.Valid js) :
    request js l cfg (Run.after (step js l cfg) g calls) x = (Run.after (Direct.step js l cfg) d calls).request js l cfg x := by
  have hafter : Simulates (Run.after (step js l cfg) g calls) (Run.after (Direct.step js l cfg) d calls) := by
    induction calls generalizing g d with
    | nil => exact hg
    | cons z calls ih =>
      have hstep : Simulates (step js l cfg g z) (d.step js l cfg z) :=
        (simulates_step hl hjs hloads hdigits (hcalls z List.mem_cons_self) hg).2
      exact ih hstep fun z' hz' => hcalls z' (List.mem_cons_of_mem _ hz')
  exact (simulates_step hl hjs hloads hdigits hx hafter).1

/-- the fields of a ciphertext of the vault are read as they were written -/
theorem normal_asdict {s : Session} {η ηRotate : Python.Host} {keyId : Text} {p : Bytes} {ct : Ciphertext}
    (hct : (run (Python.Vault.store l.toLibs η ηRotate keyId p) s).1 = .ok ct) : ct.asdict.normal = ct.asdict := by
  obtain ⟨-, key, -, -, rfl⟩ := Vault.store_ok_iff.1 hct
  have hkeys : ([Text.ofString "nonce", "ciphertext", "auth_tag"] : List Text).Nodup := by decide +kernel
  refine (Json.normal_eq_self_iff _).2 ⟨hkeys, ⟨?_, ?_⟩, ⟨?_, ?_⟩, ⟨?_, ?_⟩, trivial⟩
  all_goals exact Json.unpaired_ofString _

/--
**The client gets back what it encrypted, under the same id, while the key stays and in the same mode.**

Take a gateway over a new server, any run of calls of any clients, and in it an encryption that was answered with a ciphertext.
A decryption of this ciphertext after the run has a result if and only if no check refuses it, it names the same id, no call in
between ended the key, and the vault is in the mode of the encryption; the result is the text. The secrets that the run draws
and the keys that HKDF makes of them differ, and what is sealed under one of these keys opens under no other.
-/
theorem client_decrypts_iff {fips mlkemFips : Bool} {η₀ : Python.Host} {g : Gateway} (hl : l.float.Lawful) (hjs : js.Lawful)
    (hloads : ReadsText js l) (hdigits : l.maxStrDigits = 0 ∨ 640 ≤ l.maxStrDigits) (hg : Simulates g d)
    (hd : d.server = Vault.start η₀ fips mlkemFips) {before later : List Call} {x y : Call}
    (hcalls : ∀ z ∈ before ++ x :: later, z.Valid js) (hvalid : y.Valid js) {keyId data : Text} {keyId' r v : Json ℚ}
    (hx : (x.method, x.params) = encrypt (.str keyId) (.str data)) (hy : (y.method, y.params) = decrypt keyId' r)
    (hfresh : (Vault.modeKeys l.toLibs
      (Vault.drawn l.toLibs d.server (vaultCalls js l cfg d (before ++ x :: later)))).Nodup)
    (hbinds : ∀ p, data.encode = some p → Vault.Binds l.toLibs id (Vault.modeKeys l.toLibs
      (Vault.drawn l.toLibs d.server (vaultCalls js l cfg d (before ++ x :: later)))) x.host.vault.nonce.toList p)
    (hr : resultIn (request js l cfg (Run.after (step js l cfg) g before) x) = some r) :
    let stored := Run.after (Vault.step l.toLibs) d.server (vaultCalls js l cfg d (before ++ [x]))
    let since := vaultCalls js l cfg (Run.after (Direct.step js l cfg) d (before ++ [x])) later
    resultIn (request js l cfg (Run.after (step js l cfg) g (before ++ x :: later)) y) = some v ↔
      ((Run.after (Direct.step js l cfg) d (before ++ x :: later)).refused js l cfg y = none ∧ keyId' = .str keyId ∧
        Run.EachStep (Vault.step l.toLibs) (fun s call => ¬ Vault.Ends keyId s call) stored since ∧
        (Run.after (Vault.step l.toLibs) stored since).vault.fipsMode = stored.vault.fipsMode) ∧
        v = .obj [("plaintext", .str data)] := by
  intro stored since
  obtain ⟨hmethod, hparams⟩ := Prod.mk.inj hx
  obtain ⟨hmethod', hparams'⟩ := Prod.mk.inj hy
  have hbefore : ∀ z ∈ before, z.Valid js := fun z hz => hcalls z (List.mem_append_left _ hz)
  have hrequest := @request_after js l cfg d hl hjs hloads hdigits g hg before hbefore x (hcalls x (by simp))
  have hrequest' := @request_after js l cfg d hl hjs hloads hdigits g hg (before ++ x :: later) hcalls y hvalid
  -- the encryption was answered by the server
  rw [hrequest, resultIn_request] at hr
  split_ifs at hr with hserved
  obtain ⟨r', hresult, hnormal⟩ := Option.map_eq_some_iff.1 hr
  rw [served_after, hd] at hresult
  have hname : McpServer.methodOf (requestOf x).2.2 = .str "encrypt" := congrArg Json.str hmethod
  have hargs : McpServer.paramsOf (requestOf x).2.2 = .obj [("key_id", .str keyId), ("data", .str data)] := hparams
  obtain ⟨p, ct, hp, -, hct, rfl⟩ := McpServer.encrypted hname hargs hresult
  obtain rfl : ct.asdict = r := (normal_asdict hct).symm.trans hnormal
  -- so the requests of the run are those around it
  have hstored : served js l cfg d (before ++ [x]) = served js l cfg d before ++ [requestOf x] := by
    rw [served_append, served, if_pos hserved]
    rfl
  have hall : served js l cfg d (before ++ x :: later) = served js l cfg d before ++ requestOf x ::
      served js l cfg (Run.after (Direct.step js l cfg) d (before ++ [x])) later := by
    rw [List.append_cons, served_append, hstored, ← List.append_cons]
  have hname' : McpServer.methodOf (requestOf y).2.2 = .str "decrypt" := congrArg Json.str hmethod'
  have hargs' : McpServer.paramsOf (requestOf y).2.2 = .obj [("key_id", keyId'), ("ciphertext", ct.asdict)] := hparams'
  rw [vaultCalls, hall, hd] at hfresh hbinds
  have hiff := fun w => @McpServer.result_decrypt_iff l.toMcpLibs fips mlkemFips η₀ _ _ (requestOf x) (requestOf y) keyId data
    keyId' ct.asdict w hname hargs hname' hargs' hfresh hbinds hresult
  rw [← hall, ← hstored, ← hd, ← served_after] at hiff
  rw [hrequest', resultIn_request]
  have hdata : (Json.obj [("plaintext", .str data)] : Json ℚ).normal = .obj [("plaintext", .str data)] :=
    (Json.normal_eq_self_iff _).2 ⟨List.nodup_singleton _, ⟨Json.unpaired_ofString _, unpaired_of_encode hp⟩, trivial⟩
  constructor
  · intro h
    split_ifs at h with hserved'
    obtain ⟨w, hw, rfl⟩ := Option.map_eq_some_iff.1 h
    obtain ⟨hlive, rfl⟩ := (hiff w).1 hw
    exact ⟨⟨hserved', hlive⟩, hdata⟩
  · rintro ⟨⟨hserved', hlive⟩, rfl⟩
    rw [if_pos hserved', (hiff _).2 ⟨hlive, rfl⟩, Option.map_some, hdata]

/-! ## One text -/

/-- libraries whose ciphertexts show half of their key -/
def clientLibs : HttpLibs :=
  { textLibs with
    hkdf := Vault.switchLibs.hkdf
    gcmEncrypt := Vault.switchLibs.gcmEncrypt
    gcmDecrypt := Vault.switchLibs.gcmDecrypt }

/-- a gateway that asks for no key -/
def openConfig : Config := ⟨none, 4096, []⟩

def sampleCall (secret : UInt8) (call : Text × Json ℚ) : Call :=
  ⟨{ sampleHost with vault := Vault.hostWithSecret secret }, ⟨"127.0.0.1", []⟩, call.1, call.2⟩

def sampleDirect : Direct := ⟨Vault.start Vault.zeroHost false false, some .new⟩

/-- a text is encrypted under k -/
def storeCall : Call := sampleCall 1 (encrypt (.str "k") (.str "x"))

/-- a key is generated for b -/
def otherCall : Call := sampleCall 3 (generateKeyPair (.str "b"))

def ciphertextK : Ciphertext := Vault.sealed clientLibs.toLibs (Vault.hostWithSecret 1) (List.replicate 32 2) (utf8 "x")

def fetchCall : Call := sampleCall 0 (decrypt (.str "k") ciphertextK.asdict)

theorem valid_sampleCall {secret : UInt8} {call : Text × Json ℚ} (hmethod : Json.Unpaired call.1) (hparams : call.2.Clean)
    (hbody : ((sampleCall secret call).body exactFloats).length < 2 ^ 63) : (sampleCall secret call).Valid exactFloats :=
  ⟨⟨rfl, rfl⟩, hmethod, hparams, hbody⟩

theorem clean_asdict : ciphertextK.asdict.Clean := by
  have hkeys : ([Text.ofString "nonce", "ciphertext", "auth_tag"] : List Text).Nodup := by decide +kernel
  refine ⟨hkeys, ⟨?_, ?_⟩, ⟨?_, ?_⟩, ⟨?_, ?_⟩, trivial⟩
  all_goals exact Json.unpaired_ofString _

theorem valid_storeCall : storeCall.Valid exactFloats := by
  have hkeys : ([Text.ofString "key_id", "data"] : List Text).Nodup := by decide +kernel
  refine valid_sampleCall (Json.unpaired_ofString _) ⟨hkeys, ⟨?_, ?_⟩, ⟨?_, ?_⟩, trivial⟩ (by decide +kernel)
  all_goals exact Json.unpaired_ofString _

theorem valid_otherCall : otherCall.Valid exactFloats := by
  refine valid_sampleCall (Json.unpaired_ofString _) ⟨List.nodup_singleton _, ⟨?_, ?_⟩, trivial⟩ (by decide +kernel)
  all_goals exact Json.unpaired_ofString _

theorem valid_fetchCall : fetchCall.Valid exactFloats := by
  have hkeys : ([Text.ofString "key_id", "ciphertext"] : List Text).Nodup := by decide +kernel
  refine valid_sampleCall (Json.unpaired_ofString _) ⟨hkeys, ⟨?_, ?_⟩, ⟨?_, clean_asdict⟩, trivial⟩ (by decide +kernel)
  all_goals exact Json.unpaired_ofString _

theorem readsText_clientLibs : ReadsText exactFloats clientLibs := by
  have hloads : clientLibs.loads = textLibs.loads := rfl
  intro t b v hb hhead hv
  rw [hloads]
  exact readsText_textLibs t b v hb hhead hv

/-- after a call for another id, the client gets the text back -/
theorem client_decrypts_iff_other :
    resultIn (request exactFloats clientLibs openConfig
        (Run.after (step exactFloats clientLibs openConfig) sampleGateway [storeCall, otherCall]) fetchCall) =
      some (.obj [("plaintext", .str "x")]) := by
  have hcalls : ∀ z ∈ [] ++ storeCall :: [otherCall], z.Valid exactFloats :=
    List.forall_mem_cons.2 ⟨valid_storeCall, List.forall_mem_singleton.2 valid_otherCall⟩
  have hg : Simulates sampleGateway sampleDirect := ⟨rfl, rfl⟩
  have hstored : resultIn (request exactFloats clientLibs openConfig sampleGateway storeCall) = some ciphertextK.asdict := by
    have hm : ("encrypt", McpServer.encrypt clientLibs.toMcpLibs (requestOf storeCall).1 (requestOf storeCall).2.1) ∈
        McpServer.methods clientLibs.toMcpLibs (requestOf storeCall).1 (requestOf storeCall).2.1 := by simp [McpServer.methods]
    have hct : (run (Python.Vault.store clientLibs.toLibs (requestOf storeCall).1 (requestOf storeCall).2.1 "k" (utf8 "x"))
        sampleDirect.server).1 = .ok ciphertextK := by decide +kernel
    have hresult : resultOf clientLibs.toMcpLibs sampleDirect.server (requestOf storeCall) = some ciphertextK.asdict :=
      (McpServer.resultOf_method hm rfl).2 (McpServer.run_encrypt_ok_iff.2 ⟨"k", utf8 "x", ciphertextK, by decide +kernel,
        encodeUtf8_ok (Text.encode_ofString "x"), hct, rfl⟩)
    have hserved : sampleDirect.refused exactFloats clientLibs openConfig storeCall = none :=
      Option.isNone_iff_eq_none.1 (by decide +kernel)
    rw [(simulates_step exactFloats_lawful exactFloats_lawful readsText_clientLibs (Or.inr (by decide)) valid_storeCall hg).1,
      resultIn_request, if_pos hserved, hresult, Option.map_some, (Json.normal_eq_self_iff _).2 clean_asdict]
  have hfresh : (Vault.modeKeys clientLibs.toLibs (Vault.drawn clientLibs.toLibs sampleDirect.server
      (vaultCalls exactFloats clientLibs openConfig sampleDirect ([] ++ storeCall :: [otherCall])))).Nodup := by
    decide +kernel
  have hbinds : ∀ p, Text.encode "x" = some p → Vault.Binds clientLibs.toLibs id (Vault.modeKeys clientLibs.toLibs
      (Vault.drawn clientLibs.toLibs sampleDirect.server (vaultCalls exactFloats clientLibs openConfig sampleDirect
        ([] ++ storeCall :: [otherCall])))) storeCall.host.vault.nonce.toList p := by
    intro p hp
    rw [Text.encode_ofString, Option.some.injEq] at hp
    subst hp
    decide +kernel
  have hiff := fun w => @client_decrypts_iff exactFloats clientLibs openConfig sampleDirect false false Vault.zeroHost
    sampleGateway exactFloats_lawful exactFloats_lawful readsText_clientLibs (Or.inr (by decide)) hg rfl [] [otherCall] storeCall
    fetchCall hcalls valid_fetchCall "k" "x" (.str "k") ciphertextK.asdict w rfl rfl hfresh hbinds hstored
  have hserved : (Run.after (Direct.step exactFloats clientLibs openConfig) sampleDirect [storeCall]).refused exactFloats
      clientLibs openConfig otherCall = none := Option.isNone_iff_eq_none.1 (by decide +kernel)
  have hsince : vaultCalls exactFloats clientLibs openConfig
      (Run.after (Direct.step exactFloats clientLibs openConfig) sampleDirect [storeCall]) [otherCall] =
        [(Vault.hostWithSecret 3, .generateKeypair "b")] := by
    rw [vaultCalls, served, if_pos hserved, served, List.append_nil]
    rfl
  refine (hiff _).2 ⟨⟨Option.isNone_iff_eq_none.1 (by decide +kernel), rfl, ?_, by decide +kernel⟩, rfl⟩
  rw [List.nil_append, hsince]
  exact Run.eachStep_cons.2 ⟨by decide +kernel, Run.eachStep_nil _⟩

end AbirGuard.Js.McpClient
