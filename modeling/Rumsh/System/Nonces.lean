import Rumsh.System.World
import Rumsh.Protocol.Integrity

/-! Nonces: every `encrypt` call of the two programs under their key.

    The handshake loop numbers its packets from 1 under salt 0, and the reply of the waiting server is
    number 1 under salt 0. The two plaintexts differ, so the first handshake the server takes reuses a
    nonce; before that there are only handshakes. -/

namespace Rumsh.System
open Rumsh.Schemes Rumsh.Protocol Rumsh.Server Rumsh.Client

/-- No nonce encrypts two plaintexts. -/
def NoncesUnique (calls : List (Nonce × Bytes)) : Prop :=
  ∀ x ∈ calls, ∀ y ∈ calls, x.1 = y.1 → x.2 = y.2

instance (calls : List (Nonce × Bytes)) : Decidable (NoncesUnique calls) :=
  inferInstanceAs (Decidable (∀ x ∈ calls, ∀ y ∈ calls, x.1 = y.1 → x.2 = y.2))

/-- The `encrypt` call behind a payload; one that does not serialize is never encrypted. -/
def encryptCall (crypto : CryptoManager) (seq : ℕ) : Except Error Bytes → List (Nonce × Bytes)
  | .ok plaintext => [(crypto.makeNonce seq, plaintext)]
  | .error _ => []

namespace World
variable {cr : Crates} {T : Type}

/-! ### The calls -/

/-- The handshake loop's. -/
def handshakeCalls (setup : Setup) (w : World cr T) : List (Nonce × Bytes) :=
  w.attempts.flatMap fun n => encryptCall setup.cryptoHandshake n
    (serialize cr.clientPayload (.handshake 1 setup.cols setup.rows))

/-- The reply of `wait_for_client_handshake`. -/
def replyCalls (setup : Setup) (w : World cr T) : List (Nonce × Bytes) :=
  if w.server.isWaiting then []
  else encryptCall setup.cryptoHandshake replySeq
    (serialize cr.serverPayload (.handshakeAck setup.sessionId))

/-- The client session's; a resent packet is not encrypted again. -/
def clientCalls (w : World cr T) : List (Nonce × Bytes) :=
  match w.client with
  | .connecting => []
  | .connected c => c.sealedCalls.flatMap fun (seq, _, payload) =>
    encryptCall (c.codec.clientCrypto c.sessionId) seq (serialize cr.clientPayload payload)

/-- The server session's own. -/
def serverCalls (w : World cr T) : List (Nonce × Bytes) :=
  match w.server with
  | .serving s => s.sealedCalls.flatMap fun (seq, _, payload) =>
    encryptCall s.codec.crypto seq (serializeCompressed cr cr.serverPayload payload)
  | _ => []

/-- The frame jobs'. -/
def jobCalls (w : World cr T) : List (Nonce × Bytes) :=
  w.ran.flatMap fun job =>
    match job.currentState.diffFrom job.refState job.refSeq job.isEchoRecommended with
    | some update => encryptCall job.codec.crypto job.seq
      (serializeCompressed cr cr.serverPayload (.frame update))
    | none => []

/-- Every `encrypt` call so far. -/
def encryptCalls (setup : Setup) (w : World cr T) : List (Nonce × Bytes) :=
  w.handshakeCalls setup ++ w.replyCalls setup ++ w.clientCalls ++ w.serverCalls ++ w.jobCalls

variable [TerminalState T] {setup : Setup} {w w' : World cr T} {ev : WorldEvent}

/-! ### The reused nonce -/

/-- Attempts are never forgotten. -/
theorem mem_attempts {n : ℕ} (h : n ∈ w.attempts) (hs : w.step setup ev = some w') :
    n ∈ w'.attempts := by
  cases step_moves hs with
  | attempt hc hn =>
    obtain ⟨out, heq, -⟩ := attempt_eq setup { w with handshakeSeq := _ }
    rw [heq]
    exact List.mem_append_left _ h
  | _ => exact h

omit [TerminalState T] in
theorem mem_handshakeCalls {n : ℕ} {plain : Bytes} (hn : n ∈ w.attempts)
    (hp : serialize cr.clientPayload (.handshake 1 setup.cols setup.rows) = .ok plain) :
    (setup.cryptoHandshake.makeNonce n, plain) ∈ w.handshakeCalls setup := by
  simp only [handshakeCalls, List.mem_flatMap]
  exact ⟨n, hn, by simp [hp, encryptCall]⟩

omit [TerminalState T] in
/-- Handshakes alone are all the same plaintext. -/
theorem handshakeCalls_unique (setup : Setup) (w : World cr T) :
    NoncesUnique (w.handshakeCalls setup) := by
  have hplain : ∀ x ∈ w.handshakeCalls setup,
      serialize cr.clientPayload (.handshake 1 setup.cols setup.rows) = .ok x.2 := by
    intro x hx
    obtain ⟨n, -, hx⟩ := List.mem_flatMap.mp hx
    unfold encryptCall at hx
    split at hx
    · rename_i plain hp
      rw [List.mem_singleton.mp hx]
      exact hp
    · cases hx
  intro x hx y hy _
  exact Except.ok.inj ((hplain x hx).symm.trans (hplain y hy))

theorem putVarint_ne_nil (n : ℕ) : Format.putVarint n ≠ [] := by
  unfold Format.putVarint
  split
  · simp
  · split
    · simp
    · split
      · simp
      · split <;> simp

/-- A handshake has two more numbers than its answer. -/
theorem handshake_ne_handshakeAck (version cols rows sid : ℕ) :
    0 :: (Format.putVarint version ++ Format.putVarint cols ++ Format.putVarint rows) ≠
      (0 : UInt8) :: Format.putVarint sid := by
  intro h
  have h₁ := Format.getVarint_putVarint version (Format.putVarint cols ++ Format.putVarint rows)
  have h₂ := Format.getVarint_putVarint sid []
  rw [← List.append_assoc, (List.cons.inj h).2] at h₁
  rw [List.append_nil, h₁] at h₂
  obtain ⟨-, h⟩ := Prod.mk.inj (Option.some.inj h₂)
  exact putVarint_ne_nil cols (List.append_eq_nil_iff.mp h).1

omit [TerminalState T] in
/-- The first handshake and the reply share a nonce. -/
theorem not_unique_of_answered (hw : HandshakeWire cr) (hsid : setup.sessionId < 2 ^ 64)
    (hcols : setup.cols < 2 ^ 16) (hrows : setup.rows < 2 ^ 16) (h1 : 1 ∈ w.attempts)
    (hans : w.server ≠ .waiting) : ¬ NoncesUnique (w.encryptCalls setup) := by
  have hh : serialize cr.clientPayload (.handshake 1 setup.cols setup.rows) = .ok _ :=
    okOr_eq_ok.mpr (hw.encode_handshake 1 setup.cols setup.rows (by decide) (by omega) (by omega))
  have ha : serialize cr.serverPayload (.handshakeAck setup.sessionId) = .ok _ :=
    okOr_eq_ok.mpr (hw.encode_handshakeAck setup.sessionId hsid)
  have hreply : (setup.cryptoHandshake.makeNonce 1, 0 :: Format.putVarint setup.sessionId) ∈
      w.replyCalls setup := by
    have hnot : w.server.isWaiting = false := by
      cases hs : w.server with
      | waiting => exact absurd hs hans
      | _ => rfl
    simp [replyCalls, hnot, ha, encryptCall, replySeq]
  intro h
  refine handshake_ne_handshakeAck 1 setup.cols setup.rows setup.sessionId
    (h (setup.cryptoHandshake.makeNonce 1, _) ?_ (setup.cryptoHandshake.makeNonce 1, _) ?_ rfl)
  · exact List.mem_append_left _ (List.mem_append_left _ (List.mem_append_left _
      (List.mem_append_left _ (mem_handshakeCalls h1 hh))))
  · exact List.mem_append_left _ (List.mem_append_left _ (List.mem_append_left _
      (List.mem_append_right _ hreply)))

/-- NONCE REUSE: over any run of the two programs, no nonce encrypts two plaintexts exactly if no
    datagram of the client ever reaches the server. -/
theorem nonces_unique_iff (hcr : cr.Lawful) (hw : HandshakeWire cr) (setup : Setup)
    (hsid : setup.sessionId < 2 ^ 64) (hcols : setup.cols < 2 ^ 16) (hrows : setup.rows < 2 ^ 16)
    {events : List WorldEvent} (hrun : runFrom (step setup) (start setup) events = some w) :
    NoncesUnique (w.encryptCalls setup) ↔
      StepsMeet (step setup) (fun w ev => w.arriving ev = none) (start setup : World cr T) events := by
  have hinit : Fresh setup (initial : World cr T) := fresh_initial setup
  obtain ⟨out, hstart, -⟩ := attempt_eq setup (initial : World cr T)
  have hwait : (start setup : World cr T).server = .waiting := by
    rw [start, hstart]
    rfl
  have h1 : 1 ∈ (start setup : World cr T).attempts := by
    rw [start, hstart]
    exact List.mem_singleton.mpr rfl
  obtain ⟨hfresh, hiff⟩ := waiting_iff hcr (fun _ => hinit.attempt) hrun
  have h1' : 1 ∈ w.attempts := run_invariant_all (fun _ _ _ => mem_attempts) h1 hrun
  refine Iff.trans ?_ (hiff.trans (and_iff_right hwait))
  constructor
  · intro h
    by_contra hans
    exact not_unique_of_answered hw hsid hcols hrows h1' hans h
  · intro hwaiting
    have hf := hfresh hwaiting
    have heq : w.encryptCalls setup = w.handshakeCalls setup := by
      simp [encryptCalls, replyCalls, clientCalls, serverCalls, jobCalls, hwaiting, hf.client, hf.ran,
        ServerPhase.isWaiting]
    rw [heq]
    exact handshakeCalls_unique setup w

/-- A second attempt while nothing has arrived. -/
theorem nonces_unique_two_attempts :
    ∃ w : World Bincode.crates TextTerminal,
      runFrom (step ⟨zeroKey, someId, 80, 24, false⟩) (start ⟨zeroKey, someId, 80, 24, false⟩)
        [.timeout] = some w ∧
      NoncesUnique (w.encryptCalls ⟨zeroKey, someId, 80, 24, false⟩) := by
  obtain ⟨w, hw⟩ : ∃ w : World Bincode.crates TextTerminal,
    runFrom (step ⟨zeroKey, someId, 80, 24, false⟩) (start ⟨zeroKey, someId, 80, 24, false⟩)
      [.timeout] = some w := ⟨_, rfl⟩
  refine ⟨w, hw, (nonces_unique_iff Bincode.crates_lawful crates_handshakeWire _ (by decide)
    (by decide) (by decide) hw).mpr ⟨rfl, fun _ _ => trivial⟩⟩

/-- The first handshake is answered, the client's session sends its resize, and the server's a frame: in
    each phase the two sides encrypt under the same nonce. -/
theorem nonce_reused :
    ∃ w : World Bincode.crates TextTerminal,
      runFrom (step ⟨zeroKey, someId, 2, 1, false⟩) (start ⟨zeroKey, someId, 2, 1, false⟩)
        [.deliverUp 0 ⟨0, 0⟩ 0 false, .reply 0 2 1 0 0, .serverTick 0 true, .runJob 0] = some w ∧
      (w.encryptCalls ⟨zeroKey, someId, 2, 1, false⟩).map Prod.fst =
        [⟨0, 1⟩, ⟨0, 1⟩, ⟨1, 1⟩, ⟨1, 1⟩] ∧
      ¬ NoncesUnique (w.encryptCalls ⟨zeroKey, someId, 2, 1, false⟩) :=
  ⟨_, rfl, by decide +kernel, by decide +kernel⟩

end World

end Rumsh.System
