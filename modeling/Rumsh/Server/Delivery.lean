import Rumsh.Protocol.RoundTrip
import Rumsh.Server.Steps
import Rumsh.Server.TextTerminal

/-! What the receive window delivers to the PTY.

    Between handshakes the session is the window of `Schemes.Window`: for any order, loss and
    duplication of the client's packets the PTY sees each payload once and in order. Across handshakes
    it is not: the second half says exactly which handshakes rewind it. -/

namespace Rumsh.Server
open Std Rumsh.Schemes Rumsh.Protocol

/-- What applying a payload does to the PTY. -/
def callsOf : ClientPayload → List PtyCall
  | .keystrokes keys => [.write keys]
  | .resize cols rows => [.resize cols rows]
  | _ => []

/-- The calls that `feed_packet` makes itself, not the emulator's callback. -/
def PtyCall.ofClient : PtyCall → Bool
  | .reply _ => false
  | _ => true

namespace AuthoritativeSession
variable {C T : Type}

def clientCalls (s : AuthoritativeSession C T) : List PtyCall := s.pty.filter PtyCall.ofClient

/-! ### The invariant between handshakes -/

/-- The session has delivered what a window over the numbers `got` delivers. -/
structure Delivered (codec : C) (sid c : ℕ) (val : ℕ → ClientPayload) (got : ℕ → Prop)
    (s : AuthoritativeSession C T) : Prop where
  codec : s.codec = codec
  sessionId : s.sessionId = sid
  window : Window val c got s.expectedClientSeq s.outOfOrderPackets
  ack : s.ackSeqNum = s.expectedClientSeq - 1
  log : s.clientCalls =
    (List.range' (c + 1) (s.expectedClientSeq - (c + 1))).flatMap fun n => callsOf (val n)

variable {codec : C} {sid c : ℕ} {val : ℕ → ClientPayload} {got : ℕ → Prop}
  {s s' : AuthoritativeSession C T}

theorem Delivered.of_sameWindow (h : Delivered codec sid c val got s) (hs : SameWindow s s') :
    Delivered codec sid c val got s' := by
  obtain ⟨h₁, h₂, h₃, h₄, h₅⟩ := h
  refine ⟨hs.codec ▸ h₁, hs.sessionId ▸ h₂, ?_, ?_, ?_⟩
  · rw [hs.expectedClientSeq, hs.outOfOrderPackets]; exact h₃
  · rw [hs.expectedClientSeq, hs.ackSeqNum]; exact h₄
  · rw [clientCalls, hs.pty, hs.expectedClientSeq]; exact h₅

theorem Delivered.congr {got' : ℕ → Prop} (h : Delivered codec sid c val got s)
    (hg : ∀ n, got n ↔ got' n) : Delivered codec sid c val got' s :=
  { h with window := h.window.congr hg }

theorem Delivered.heard (h : Delivered codec sid c val got s) (src : SocketAddr) (now : Instant) :
    Delivered codec sid c val got (s.heard src now) :=
  ⟨h.codec, h.sessionId, h.window, h.ack, h.log⟩

/-! ### The processing loop -/

variable [TerminalState T]

theorem delivered_new {addr : SocketAddr} {cols rows : ℕ} {now : Instant} (val : ℕ → ClientPayload)
    (h : AuthoritativeSession.new sid codec c addr cols rows now = .ok s) :
    Delivered codec sid c val (fun _ => False) s := by
  obtain ⟨t, -, h⟩ := bind_eq_ok.mp h
  cases h
  exact ⟨rfl, rfl, Window.init val c, rfl, by simp [clientCalls]⟩

variable [PacketCodec C]

theorem filter_reply (replies : List Bytes) :
    (replies.map PtyCall.reply).filter PtyCall.ofClient = [] := by
  simp [List.filter_eq_nil_iff, PtyCall.ofClient]

theorem process_clientCalls {s s' : AuthoritativeSession C T} {payload : ClientPayload}
    {actions : List (SessionAction C)} (h : s.process payload = some (s', .ok actions)) :
    s'.clientCalls = s.clientCalls ++ callsOf payload := by
  cases payload with
  | keepAlive =>
    simp only [process] at h
    split at h
    · cases h
    · rename_i heq
      obtain ⟨rfl, -⟩ := Prod.mk.inj heq
      cases h
      simp [clientCalls, callsOf]
  | handshake _ _ _ => cases h
  | resize cols rows =>
    cases h
    show (s.pty ++ PtyCall.resize cols rows ::
      (TerminalState.resize s.termState cols rows).2.map PtyCall.reply).filter PtyCall.ofClient = _
    rw [List.filter_append, List.filter_cons_of_pos rfl, filter_reply]
    rfl
  | _ => cases h; simp [clientCalls, callsOf, PtyCall.ofClient]

/-- A reliable payload is processed, if a `KeepAlive` reply can be sealed. -/
theorem process_isSome {s : AuthoritativeSession C T}
    (hk : ∀ seq ack, ∃ datagrams, PacketCodec.sealServer s.codec seq ack .keepAlive = .ok datagrams)
    {payload : ClientPayload} (hp : isReliable payload = true) :
    ∃ s' actions, s.process payload = some (s', .ok actions) := by
  cases payload with
  | keepAlive =>
    obtain ⟨datagrams, hd⟩ := hk (s.seqNum + 1) s.ackSeqNum
    exact ⟨_, sendAll datagrams s.currentClientAddr, by simp [process, sealNext, hd]; rfl⟩
  | keystrokes keys => exact ⟨_, _, rfl⟩
  | resize cols rows => exact ⟨_, _, rfl⟩
  | _ => cases hp

/-- RUN: reliable packets are all processed, in order. -/
theorem processAll_isSome (packets : List (ℕ × ClientPayload)) (s : AuthoritativeSession C T)
    (actions : List (SessionAction C))
    (hk : ∀ seq ack, ∃ datagrams, PacketCodec.sealServer s.codec seq ack .keepAlive = .ok datagrams)
    (hp : ∀ p ∈ packets, isReliable p.2 = true) :
    ∃ s' actions', processAll packets s actions = some (s', .ok actions') ∧
      s'.clientCalls = s.clientCalls ++ packets.flatMap fun p => callsOf p.2 := by
  induction packets generalizing s actions with
  | nil => exact ⟨s, actions, rfl, by simp⟩
  | cons p rest ih =>
    obtain ⟨t, more, ht⟩ := process_isSome hk (hp p (List.mem_cons_self ..))
    obtain ⟨s', actions', hs', hcalls⟩ := ih t (actions ++ more)
      ((process_processed ht).codec ▸ hk) fun q hq => hp q (List.mem_cons_of_mem _ hq)
    refine ⟨s', actions', by simp [processAll, ht, hs'], ?_⟩
    rw [hcalls, process_clientCalls ht, List.flatMap_cons, List.append_assoc]

/-! ### Between handshakes -/

/-- The reliable number an event delivers to session `sid`. -/
def reliableSeq (codec : C) (sid : ℕ) : SessionEvent → Option ℕ
  | .packet bytes _ _ _ =>
    match PacketCodec.openClient codec bytes with
    | .ok (w, p, _) => if w.sessionId = sid ∧ isTransient w.seqNum p = false then some w.seqNum else none
    | .error _ => none
  | _ => none

/-- A client that starts after `c` and sends `val s` under each reliable number `s`, without
    handshakes. -/
def FromClient (codec : C) (sid c : ℕ) (val : ℕ → ClientPayload) : SessionEvent → Prop
  | .packet bytes _ _ _ => ∀ w p st, PacketCodec.openClient codec bytes = .ok (w, p, st) →
    w.sessionId ≠ 0 ∧
      (w.sessionId = sid → isTransient w.seqNum p = false → c < w.seqNum ∧ p = val w.seqNum)
  | _ => True

/-- Two stretches of consecutive numbers make one. -/
theorem range'_append_of_le {a b d : ℕ} (h₁ : a ≤ b) (h₂ : b ≤ d) :
    List.range' a (b - a) ++ List.range' b (d - b) = List.range' a (d - a) := by
  have := List.range'_append_1 (s := a) (m := b - a) (n := d - b)
  rw [show a + (b - a) = b by omega, show b - a + (d - b) = d - a by omega] at this
  exact this

/-- STEP: the expected packet and the run behind it go to the PTY. -/
theorem Delivered.feedInOrder (h : Delivered codec sid c val got s)
    (hk : ∀ seq ack, ∃ datagrams, PacketCodec.sealServer codec seq ack .keepAlive = .ok datagrams)
    (hval : ∀ n, c < n → isReliable (val n) = true) (ack : ℕ) (now : Instant) (echo : Bool) :
    ∃ s' r, s.feedInOrder ack (val s.expectedClientSeq) now echo = some (s', r) ∧
      Delivered codec sid c val (fun n => n = s.expectedClientSeq ∨ got n) s' := by
  obtain ⟨hw, hout⟩ := h.window.fill (Nat.le_refl s.outOfOrderPackets.size)
  have hpackets : s.packetsToProcess (val s.expectedClientSeq) =
      (List.range' s.expectedClientSeq
        ((s.advance ack).expectedClientSeq - s.expectedClientSeq)).map fun n => (n, val n) := hout
  have hgrow := (packetsToProcess_numbers s (val s.expectedClientSeq) ack).2
  have hstart := h.window.start
  have hreliable : ∀ p ∈ s.packetsToProcess (val s.expectedClientSeq), isReliable p.2 = true := by
    intro p hp
    rw [hpackets, List.mem_map] at hp
    obtain ⟨n, hn, rfl⟩ := hp
    rw [List.mem_range'_1] at hn
    exact hval n (by omega)
  obtain ⟨t, actions, ht, hcalls⟩ := processAll_isSome _ (s.advance ack) []
    (show ∀ seq ack, ∃ ds, PacketCodec.sealServer s.codec seq ack .keepAlive = .ok ds from
      h.codec ▸ hk) hreliable
  have hproc := processAll_processed ht
  have hdelivered : Delivered codec sid c val (fun n => n = s.expectedClientSeq ∨ got n) t := by
    refine ⟨hproc.codec.trans h.codec, hproc.sessionId.trans h.sessionId, ?_, ?_, ?_⟩
    · rw [hproc.expectedClientSeq, hproc.outOfOrderPackets]
      exact hw
    · rw [hproc.ackSeqNum, hproc.expectedClientSeq]
      rfl
    · rw [hcalls, hproc.expectedClientSeq, hpackets, List.flatMap_map]
      show s.clientCalls ++ _ = _
      rw [h.log, ← List.flatMap_append, range'_append_of_le (by omega) hgrow.le]
  refine ⟨(t.checkSync now echo).1, .ok (actions ++ (t.checkSync now echo).2), ?_,
    hdelivered.of_sameWindow (checkSync_sameWindow t now echo)⟩
  simp [AuthoritativeSession.feedInOrder, ht]

/-- STEP: a packet of the session is ignored, buffered or applied, by its number. -/
theorem Delivered.feedHeard (h : Delivered codec sid c val got s)
    (hk : ∀ seq ack, ∃ datagrams, PacketCodec.sealServer codec seq ack .keepAlive = .ok datagrams)
    (hval : ∀ n, c < n → isReliable (val n) = true) {w : EncryptedClientPacket} {p : ClientPayload}
    (hrel : isTransient w.seqNum p = false → c < w.seqNum ∧ p = val w.seqNum) (now : Instant)
    (echo : Bool) :
    ∃ s' r, s.feedHeard w p now echo = some (s', r) ∧
      Delivered codec sid c val
        (fun n => (isTransient w.seqNum p = false ∧ n = w.seqNum) ∨ got n) s' := by
  unfold AuthoritativeSession.feedHeard
  by_cases ht : isTransient w.seqNum p = true
  · -- a transient packet only moves the client's ack
    have h' : Delivered codec sid c val got (s.noteAck w.ackSeqNum) :=
      ⟨h.codec, h.sessionId, h.window, h.ack, h.log⟩
    rw [if_pos ht]
    exact ⟨_, _, rfl, (h'.of_sameWindow (checkSync_sameWindow _ now echo)).congr (by simp [ht])⟩
  · have ht' : isTransient w.seqNum p = false := Bool.not_eq_true _ ▸ ht
    obtain ⟨hc, rfl⟩ := hrel ht'
    have hseq : ∀ n, (n = w.seqNum ∨ got n ↔
        (isTransient w.seqNum (val w.seqNum) = false ∧ n = w.seqNum) ∨ got n) := by simp [ht']
    rw [if_neg ht]
    rcases Nat.lt_trichotomy w.seqNum s.expectedClientSeq with hlt | heq | hgt
    · rw [if_pos hlt]
      exact ⟨_, _, rfl, Delivered.congr { h with window := h.window.duplicate hc hlt } hseq⟩
    · obtain ⟨s', r, hs', hd⟩ := h.feedInOrder hk hval w.ackSeqNum now echo
      rw [if_neg (by omega), if_neg (by omega), heq]
      exact ⟨s', r, hs', hd.congr fun n => by rw [← heq]; exact hseq n⟩
    · rw [if_neg (by omega), if_pos hgt]
      exact ⟨_, _, rfl,
        Delivered.congr ⟨h.codec, h.sessionId, h.window.buffer hgt, h.ack, h.log⟩ hseq⟩

/-- STEP: every event of such a client keeps the delivery, and adds the number it carried. -/
theorem Delivered.step (h : Delivered codec sid c val got s)
    (hk : ∀ seq ack, ∃ datagrams, PacketCodec.sealServer codec seq ack .keepAlive = .ok datagrams)
    (hval : ∀ n, c < n → isReliable (val n) = true) {ev : SessionEvent}
    (hev : FromClient codec sid c val ev) :
    ∃ s', s.step ev = some s' ∧
      Delivered codec sid c val (fun n => reliableSeq codec sid ev = some n ∨ got n) s' := by
  cases ev with
  | ptyBytes data now =>
    have h' : Delivered codec sid c val got (s.onPtyBytes data now) := by
      refine ⟨h.codec, h.sessionId, h.window, h.ack, ?_⟩
      show (s.pty ++ (TerminalState.write s.termState data).2.map PtyCall.reply).filter _ = _
      rw [List.filter_append, filter_reply, List.append_nil]
      exact h.log
    exact ⟨_, rfl, h'.congr (fun n => by simp [reliableSeq])⟩
  | tick now echo =>
    exact ⟨_, rfl, (h.of_sameWindow (checkSync_sameWindow s now echo)).congr
      (fun n => by simp [reliableSeq])⟩
  | packet bytes src now echo =>
    cases hopen : PacketCodec.openClient codec bytes with
    | error e =>
      refine ⟨s, ?_, h.congr (fun n => by simp [reliableSeq, hopen])⟩
      simp [AuthoritativeSession.step, feedPacket, h.codec, hopen]
    | ok r =>
      obtain ⟨w, p, st⟩ := r
      obtain ⟨h0, hrel⟩ := hev w p st hopen
      by_cases hsid : w.sessionId = sid
      · obtain ⟨s', r, hs', hd⟩ := (h.heard src now).feedHeard hk hval (hrel hsid) now echo
        refine ⟨s', ?_, hd.congr fun n => ?_⟩
        · rw [AuthoritativeSession.step,
            feedPacket_eq_feedHeard (h.codec ▸ hopen) h0 (hsid.trans h.sessionId.symm), hs']
          rfl
        · by_cases ht : isTransient w.seqNum p = true <;>
            simp [reliableSeq, hopen, hsid, ht, eq_comm]
      · refine ⟨s, ?_, h.congr (fun n => by simp [reliableSeq, hopen, hsid])⟩
        simp [AuthoritativeSession.step, feedPacket, h.codec, hopen, h0, h.sessionId, hsid]

/-- RUN: after any events of such a client the session has delivered exactly what arrived. -/
theorem Delivered.run (hk : ∀ seq ack, ∃ datagrams,
      PacketCodec.sealServer codec seq ack .keepAlive = .ok datagrams)
    (hval : ∀ n, c < n → isReliable (val n) = true) (events : List SessionEvent)
    (hev : ∀ ev ∈ events, FromClient codec sid c val ev) (h : Delivered codec sid c val got s) :
    ∃ s', runFrom AuthoritativeSession.step s events = some s' ∧
      Delivered codec sid c val (fun n => n ∈ events.filterMap (reliableSeq codec sid) ∨ got n) s' := by
  induction events generalizing s got with
  | nil => exact ⟨s, rfl, h.congr (by simp)⟩
  | cons ev rest ih =>
    obtain ⟨t, ht, hd⟩ := h.step hk hval (hev ev (List.mem_cons_self ..))
    obtain ⟨s', hs', hd'⟩ := ih (fun e he => hev e (List.mem_cons_of_mem _ he)) hd
    refine ⟨s', by simp [ht, hs'], hd'.congr fun n => ?_⟩
    simp only [List.filterMap_cons]
    cases reliableSeq codec sid ev <;> simp [eq_comm, or_assoc, or_left_comm]

/-- EXACTLY ONCE: whatever the order, loss and duplication in which a session is handed the packets of
    its client, and whatever else it does meanwhile, the expected number is the least one that has not
    arrived, the ack is the one before it, the buffer holds what arrived above it, and the PTY has seen
    the payloads below it, each once and in order. Two deliveries of the same numbers leave the same
    PTY log. -/
theorem window_delivers {cr : Crates} (hcr : cr.Lawful) (hshort : cr.SealsShort) (key : Key)
    (sid c : ℕ) (addr : SocketAddr) (cols rows : ℕ) (start : Instant)
    {s₀ : AuthoritativeSession (ChaChaCodec cr) T}
    (hnew : new sid (ChaChaCodec.new cr key sid) c addr cols rows start = .ok s₀)
    (val : ℕ → ClientPayload) (hval : ∀ n, c < n → isReliable (val n) = true) :
    let arrived := fun (events : List SessionEvent) (n : ℕ) =>
      n ∈ events.filterMap (reliableSeq (ChaChaCodec.new cr key sid) sid)
    let honest := fun (events : List SessionEvent) =>
      ∀ ev ∈ events, FromClient (ChaChaCodec.new cr key sid) sid c val ev
    (∀ events, honest events → ∃ s, runFrom AuthoritativeSession.step s₀ events = some s ∧
      (c < s.expectedClientSeq ∧ ¬ arrived events s.expectedClientSeq ∧
        ∀ n, c < n → n < s.expectedClientSeq → arrived events n) ∧
      s.ackSeqNum = s.expectedClientSeq - 1 ∧
      (∀ n p, s.outOfOrderPackets[n]? = some p ↔
        s.expectedClientSeq < n ∧ arrived events n ∧ p = val n) ∧
      s.clientCalls =
        (List.range' (c + 1) (s.expectedClientSeq - (c + 1))).flatMap fun n => callsOf (val n)) ∧
    (∀ events events', honest events → honest events' →
      (∀ n, arrived events n ↔ arrived events' n) →
      (runFrom AuthoritativeSession.step s₀ events).map clientCalls =
        (runFrom AuthoritativeSession.step s₀ events').map clientCalls) := by
  intro arrived honest
  have hrun : ∀ events, honest events → ∃ s, runFrom AuthoritativeSession.step s₀ events = some s ∧
      Delivered (ChaChaCodec.new cr key sid) sid c val (arrived events) s := by
    intro events hev
    obtain ⟨s, hs, hd⟩ := Delivered.run (ChaChaCodec.sealServer_keepAlive hcr hshort _) hval
      events hev (delivered_new val hnew)
    exact ⟨s, hs, hd.congr (by simp [arrived])⟩
  refine ⟨fun events hev => ?_, fun events events' hev hev' hsame => ?_⟩
  · obtain ⟨s, hs, hd⟩ := hrun events hev
    exact ⟨s, hs, ⟨hd.window.start, hd.window.next, hd.window.below⟩, hd.ack, hd.window.table, hd.log⟩
  · obtain ⟨s, hs, hd⟩ := hrun events hev
    obtain ⟨s', hs', hd'⟩ := hrun events' hev'
    rw [hs, hs', Option.map_some, Option.map_some, hd.log, hd'.log,
      (hd.window.congr hsame).expected_unique hd'.window]

/-- What the client sealed for this session comes from it. -/
theorem fromClient_of_sealClient {cr : Crates} (hcr : cr.Lawful) (codec : ChaChaCodec cr) {c : ℕ}
    {val : ℕ → ClientPayload} {seq ack : ℕ} {payload : ClientPayload} {bytes : Bytes}
    (hsid : codec.sessionId ≠ 0)
    (hseal : codec.sealClient codec.sessionId seq ack payload = .ok bytes)
    (hrel : isTransient seq payload = false → c < seq ∧ payload = val seq) (src : SocketAddr)
    (now : Instant) (echo : Bool) :
    FromClient codec codec.sessionId c val (.packet bytes src now echo) := by
  intro w p st hopen
  obtain ⟨ct, stats, hopen'⟩ := ChaChaCodec.openClient_sealClient hcr ⟨rfl, rfl, rfl⟩ (.inr rfl) hseal
  obtain ⟨rfl, rfl, rfl⟩ : _ ∧ _ ∧ _ := by
    have := hopen.symm.trans hopen'
    simpa using this
  exact ⟨hsid, fun _ h => hrel h⟩

/-- Two keystrokes that arrive in the wrong order. -/
theorem window_delivers_reordered :
    ∃ (s₀ s : AuthoritativeSession (ChaChaCodec Bincode.crates) TextTerminal) (d₂ d₃ : Bytes),
      let addr : SocketAddr := ⟨0, 0⟩
      let codec := ChaChaCodec.new Bincode.crates (Vector.replicate 32 0) (2 ^ 32)
      let events := [SessionEvent.packet d₃ addr 1 false, .packet d₂ addr 2 false]
      new (2 ^ 32) codec 1 addr 8 2 0 = .ok s₀ ∧
      codec.sealClient (2 ^ 32) 2 0 (.keystrokes [0x61]) = .ok d₂ ∧
      codec.sealClient (2 ^ 32) 3 0 (.keystrokes [0x62]) = .ok d₃ ∧
      runFrom AuthoritativeSession.step s₀ events = some s ∧
      s.clientCalls = (List.range' 2 (s.expectedClientSeq - 2)).flatMap fun n =>
        callsOf (.keystrokes [UInt8.ofNat (0x5f + n)]) := by
  let codec := ChaChaCodec.new Bincode.crates (Vector.replicate 32 0) (2 ^ 32)
  let val : ℕ → ClientPayload := fun n => .keystrokes [UInt8.ofNat (0x5f + n)]
  have hfrom : ∀ n d, 1 < n → codec.sealClient (2 ^ 32) n 0 (val n) = .ok d → ∀ now,
      FromClient codec (2 ^ 32) 1 val (.packet d ⟨0, 0⟩ now false) := fun n d hn hd now =>
    fromClient_of_sealClient Bincode.crates_lawful codec (by decide) hd
      (fun _ => ⟨hn, rfl⟩) ⟨0, 0⟩ now false
  obtain ⟨s₀, hs₀⟩ : ∃ s₀ : AuthoritativeSession (ChaChaCodec Bincode.crates) TextTerminal,
    new (2 ^ 32) codec 1 ⟨0, 0⟩ 8 2 0 = .ok s₀ := ⟨_, rfl⟩
  obtain ⟨d₂, h₂⟩ : ∃ d, codec.sealClient (2 ^ 32) 2 0 (val 2) = .ok d := ⟨_, rfl⟩
  obtain ⟨d₃, h₃⟩ : ∃ d, codec.sealClient (2 ^ 32) 3 0 (val 3) = .ok d := ⟨_, rfl⟩
  obtain ⟨s, hs, -, -, -, hlog⟩ := (window_delivers Bincode.crates_lawful Bincode.crates_sealsShort
    (Vector.replicate 32 0) (2 ^ 32) 1 ⟨0, 0⟩ 8 2 0 hs₀ val (fun _ _ => rfl)).1
    [.packet d₃ ⟨0, 0⟩ 1 false, .packet d₂ ⟨0, 0⟩ 2 false]
    (by simpa using ⟨hfrom 3 d₃ (by decide) h₃ 1, hfrom 2 d₂ (by decide) h₂ 2⟩)
  exact ⟨s₀, s, d₂, d₃, hs₀, h₂, h₃, hs, hlog⟩

end AuthoritativeSession

end Rumsh.Server
