/-
Is the MCP server total?

A server that is healthy answers every request but one kind: a decrypt request for an existing key whose nonce, the empty
string by default, does not decode to 12 bytes. `Nonce::from_slice` then panics under the lock of the key list, and every
later request that needs a key panics too. `persistent_vault::decrypt_data` checks the length of its input first.

- `total_iff`: in a run from a new server every request is answered and existing keys stay usable after every prefix if and
  only if no request of the run is a bad nonce at the state before it.
- `missing_nonce_poisons`: a key is generated, a decrypt request leaves its nonce out, and list_keys panics.
-/
import AbirGuard.Core.Run
import AbirGuard.Rust.Instance
import AbirGuard.Rust.McpGateway

namespace AbirGuard.Rust.Mcp

open AbirGuard.Core AbirGuard.Rust

section

variable {Key : Type} (c : Crates Key)

/-- one request of a run, with what the machine supplies to it -/
def step (s : McpServer) (r : McpRequest × Draw) : McpServer := (s.handle c r.1 r.2).2

/-- the request is answered, and existing keys are usable afterwards -/
def Total (s : McpServer) (r : McpRequest × Draw) : Prop :=
  (∃ resp, (s.handle c r.1 r.2).1 = .ok resp ∧ Answers r.1 resp) ∧ Serves c (step c s r)

variable {c}

theorem total_step_iff (hc : c.Correct) {r : McpRequest × Draw} (hδ : r.2.elapsed ≤ HANDSHAKE_TIMEOUT_MS) {s : McpServer}
    (hs : Healthy s) : Total c s r ↔ ¬ BadNonce c s r.1 := by
  constructor
  · rintro ⟨⟨resp, hresp, -⟩, -⟩ hbad
    obtain ⟨⟨p, hp⟩, -⟩ := handle_badNonce hs r.2 hbad
    rw [hp] at hresp
    cases hresp
  · intro hbad
    obtain ⟨hresp, hhealthy⟩ := handle_ok hs hδ hbad
    exact ⟨hresp, hhealthy.serves hc⟩

/-- **The server is total exactly on the runs without a bad nonce.** -/
theorem total_iff (hc : c.Correct) {run : List (McpRequest × Draw)}
    (hδ : ∀ r ∈ run, r.2.elapsed ≤ HANDSHAKE_TIMEOUT_MS) :
    (∀ pre r post, run = pre ++ r :: post → Total c (Run.after (step c) .new pre) r) ↔
      ∀ pre r post, run = pre ++ r :: post → ¬ BadNonce c (Run.after (step c) .new pre) r.1 := by
  -- the invariant is health: a request that is no bad nonce keeps it
  have h : Run.EachStep (step c) (Total c) .new run ↔ Run.EachStep (step c) (fun s r => ¬ BadNonce c s r.1) .new run :=
    Run.eachStep_iff Healthy (fun r hr _ hs => total_step_iff hc (hδ r hr) hs)
      (fun r hr _ hs hbad => (handle_ok hs (hδ r hr) hbad).2) healthy_new
  exact h

end

/-- a request of the failing run -/
def request (method : String) (params : List (String × Json)) : McpRequest := ⟨"2.0", some (.number "1"), method, .object params⟩

theorem total_iff_list :
    (∀ pre r post, [(request "list_keys" [], (tinyDraw [1]).toDraw)] = pre ++ r :: post →
      Total tiny.toCrates (Run.after (step tiny.toCrates) .new pre) r) ↔
    ∀ pre r post, [(request "list_keys" [], (tinyDraw [1]).toDraw)] = pre ++ r :: post →
      ¬ BadNonce tiny.toCrates (Run.after (step tiny.toCrates) .new pre) r.1 :=
  total_iff tiny_correct.toCorrect (by simp [tinyDraw])

/-- After generate_key, a decrypt request without a nonce panics, and so does list_keys then. -/
theorem missing_nonce_poisons :
    let s₁ := Run.after (step tiny.toCrates) .new [(request "generate_key" [("key_id", .string "a")], (tinyDraw [1]).toDraw)]
    let bad := request "decrypt" [("key_id", .string "a"), ("ciphertext", .string "")]
    (∃ p, (s₁.handle tiny.toCrates bad (tinyDraw [2]).toDraw).1 = .error p) ∧
    ∃ p, ((step tiny.toCrates s₁ (bad, (tinyDraw [2]).toDraw)).handle tiny.toCrates (request "list_keys" [])
      (tinyDraw [3]).toDraw).1 = .error p := by
  intro s₁ bad
  have hs : Healthy s₁ := ⟨rfl, rfl⟩
  have hbad : BadNonce tiny.toCrates s₁ bad :=
    ⟨rfl, "a", "", keygen tiny.toCrates [1], [], rfl, rfl, rfl, rfl, by decide⟩
  obtain ⟨hp, -⟩ := handle_badNonce hs (tinyDraw [2]).toDraw hbad
  exact ⟨hp, ⟨_, rfl⟩⟩

end AbirGuard.Rust.Mcp
