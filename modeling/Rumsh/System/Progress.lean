import Rumsh.System.Agreement
import Rumsh.Client.Shown
import Rumsh.Server.Panics
import Rumsh.Server.Intake

/-! Neither side brings the other down.

    What an honest client seals for its session is never a handshake, so the server's loop never comes to
    one; and what the server pushed is never out of range of its own dimensions, so no frame is an error
    to the client. -/

namespace Rumsh.System
open Std Rumsh.Schemes Rumsh.Protocol Rumsh.Server Rumsh.Client

/-! ### The server's window -/

section Window
variable {C T : Type} [PacketCodec C] [TerminalState T] {s s' : AuthoritativeSession C T}

omit [TerminalState T] in
/-- A loop over reliable packets does not come to a handshake. -/
theorem reachesHandshake_eq_false (codec : C) (ack : ℕ) {packets : List (ℕ × ClientPayload)}
    (h : ∀ e ∈ packets, isReliable e.2 = true) (n : ℕ) :
    AuthoritativeSession.reachesHandshake codec ack n packets = false := by
  induction packets generalizing n with
  | nil => rfl
  | cons e rest ih =>
    obtain ⟨he, hrest⟩ := List.forall_mem_cons.mp h
    obtain ⟨k, payload⟩ := e
    cases payload with
    | handshake _ _ _ => cases he
    | keepAlive => simp [AuthoritativeSession.reachesHandshake, ih hrest]
    | _ => exact ih hrest n

theorem map_turn (s : AuthoritativeSession C T) (ev : SessionEvent) :
    (s.turn ev).map Prod.fst = s.step ev := by
  cases ev with
  | packet bytes src now echo => exact Option.map_map ..
  | ptyBytes data now => rfl
  | tick now echo => rfl

/-- STEP: what waits in the window afterwards waited before, or is the packet that came. -/
theorem step_held {ev : SessionEvent} (hs : s.step ev = some s') {n : ℕ} {p : ClientPayload}
    (hp : s'.outOfOrderPackets[n]? = some p) : s.outOfOrderPackets[n]? = some p ∨
      ∃ bytes src now echo w st, ev = .packet bytes src now echo ∧
        PacketCodec.openClient s.codec bytes = .ok (w, p, st) ∧ w.sessionId ≠ 0 ∧
        w.sessionId = s.sessionId ∧ AuthoritativeSession.isTransient w.seqNum p = false := by
  cases ev with
  | ptyBytes data now =>
    cases hs
    exact .inl hp
  | tick now echo =>
    cases hs
    have hw := AuthoritativeSession.checkSync_sameWindow s now echo
    exact .inl (hw.outOfOrderPackets ▸ hp)
  | packet bytes src now echo =>
    obtain ⟨⟨t, r⟩, ht, rfl⟩ := Option.map_eq_some_iff.mp hs
    dsimp only at hp
    rcases AuthoritativeSession.feedPacket_cases ht with ⟨rfl, -, -⟩ | ⟨w, q, st, hopen, hcase⟩
    · exact .inl hp
    rcases hcase with ⟨-, hshake⟩ | ⟨h0, hsid, ⟨-, hx⟩ | ⟨htr, ⟨-, rfl, -⟩ | ⟨-, -, rfl⟩ | ⟨-, ho⟩⟩⟩
    · rcases AuthoritativeSession.feedHandshake_cases hshake with ⟨-, rfl, -⟩ | ⟨-, u, hu, hcase⟩
      · exact .inl hp
      · have hempty : u.outOfOrderPackets = ∅ := by rw [hu]; rfl
        have hleft : t.outOfOrderPackets = ∅ := by
          rcases hcase with ⟨e, -, rfl, -⟩ | ⟨ds, -, rfl, -⟩
          · exact hempty
          · exact (AuthoritativeSession.checkSync_sameWindow u now echo).outOfOrderPackets.trans hempty
        rw [hleft] at hp
        simp at hp
    · cases hx
      have hw := AuthoritativeSession.checkSync_sameWindow ((s.heard src now).noteAck w.ackSeqNum) now echo
      exact .inl (hw.outOfOrderPackets ▸ hp)
    · exact .inl hp
    · have hp : (s.outOfOrderPackets.insert w.seqNum q)[n]? = some p := hp
      rw [TreeMap.getElem?_insert] at hp
      split at hp
      · obtain rfl := Option.some.inj hp
        exact .inr ⟨bytes, src, now, echo, w, st, rfl, hopen, h0, hsid, htr⟩
      · exact .inl hp
    · have hleft : t.outOfOrderPackets =
          ((s.heard src now).advance w.ackSeqNum).outOfOrderPackets := by
        rcases AuthoritativeSession.feedInOrder_cases ho with ⟨e, hall, -⟩ | ⟨u, actions, hall, rfl, -⟩
        · exact (AuthoritativeSession.processAll_processed hall).outOfOrderPackets
        · exact (AuthoritativeSession.checkSync_sameWindow u now echo).outOfOrderPackets.trans
            (AuthoritativeSession.processAll_processed hall).outOfOrderPackets
      rw [hleft] at hp
      have hheld : (s.heard src now).outOfOrderPackets[n]? = some p :=
        AuthoritativeSession.held_of_advance hp
      exact .inl hheld

/-- A window of reliable packets stays clear of the loop's panic, if the packet that comes is reliable or
    not for the loop. -/
theorem step_isSome (hheld : ∀ (n : ℕ) (p : ClientPayload), s.outOfOrderPackets[n]? = some p →
      isReliable p = true) {ev : SessionEvent}
    (hev : ∀ bytes src now echo w p st, ev = .packet bytes src now echo →
      PacketCodec.openClient s.codec bytes = .ok (w, p, st) → w.sessionId ≠ 0 →
      AuthoritativeSession.isTransient w.seqNum p = false → isReliable p = true) : s.step ev ≠ none := by
  rw [Ne, AuthoritativeSession.step_eq_none_iff, Bool.not_eq_true]
  cases ev with
  | ptyBytes data now => rfl
  | tick now echo => rfl
  | packet bytes src now echo =>
    rcases hopen : PacketCodec.openClient s.codec bytes with e | ⟨w, p, st⟩
    · simp [AuthoritativeSession.hitsUnreachable, hopen]
    · simp only [AuthoritativeSession.hitsUnreachable, hopen, Bool.and_eq_false_imp, Bool.and_eq_true,
        decide_eq_true_eq, Bool.not_eq_true']
      rintro ⟨⟨⟨h0, -⟩, htr⟩, -⟩
      refine reachesHandshake_eq_false _ _ (fun e he => ?_) _
      rcases AuthoritativeSession.mem_packetsToProcess he with rfl | he
      · exact hev bytes src now echo w p st rfl hopen h0 htr
      · exact hheld e.1 e.2 he

end Window

/-! ### What the client seals -/

namespace Link
variable {C T : Type} [PacketCodec C] [TerminalState T] {l l' : Link C T} {server client : C} {sid : ℕ}

/-- A handshake under session 0, or a packet of the session's that is none. -/
def Plain (client : C) (sid : ℕ) (b : Bytes) : Prop :=
  ∃ datagrams session seq ack payload,
    PacketCodec.sealClient (PacketCodec.fed client datagrams) session seq ack payload = .ok b ∧
    (session = 0 ∨ session = sid ∧
      (isReliable payload = true ∨ payload = .ack ∨ ∃ f m, payload = .fragmentNack f m))

/-- Nothing on its way to the server, or kept by either side, is a handshake of the session's. -/
structure Plainly (client : C) (sid : ℕ) (l : Link C T) : Prop where
  up : ∀ b ∈ l.up, Plain client sid b
  stored : ∀ (n : ℕ) (b : Bytes) (t : Instant), l.client.unackedPackets[n]? = some (b, t) →
    Plain client sid b
  issued : ∀ e ∈ l.client.issued, isReliable e.2 = true
  held : ∀ (n : ℕ) (p : ClientPayload), l.server.outOfOrderPackets[n]? = some p → isReliable p = true

omit [TerminalState T] in
/-- A packet of the session's for the window is a reliable one. -/
theorem Plainly.reliable_of_open (hrt : PacketCodec.RoundTrips sid server client)
    (h : Plainly client sid l) (ha : Agrees server client sid l) {bytes : Bytes} (hb : bytes ∈ l.up)
    {w : EncryptedClientPacket} {p : ClientPayload} {st : CodecStats}
    (hopen : PacketCodec.openClient l.server.codec bytes = .ok (w, p, st)) (h0 : w.sessionId ≠ 0)
    (htr : AuthoritativeSession.isTransient w.seqNum p = false) : isReliable p = true := by
  obtain ⟨datagrams, session, seq, ack, payload, hseal, hkind⟩ := h.up bytes hb
  have hs : session = 0 ∨ session = sid := hkind.imp id And.left
  obtain ⟨ct, stats, hopen'⟩ := hrt.openClient datagrams session seq ack payload bytes hs hseal
  rw [ha.serverCodec, hopen'] at hopen
  cases hopen
  rcases hkind with rfl | ⟨-, hrel | rfl | ⟨f, m, rfl⟩⟩
  · exact absurd rfl h0
  · exact hrel
  · simp [AuthoritativeSession.isTransient] at htr
  · simp [AuthoritativeSession.isTransient] at htr

omit [TerminalState T] in
/-- What the client sends, and keeps, is plain. -/
theorem plain_of_sent {u s' : MirrorSession C} {out : List Bytes} (hs : u.Sent s' out)
    {datagrams : List Bytes} (hcodec : u.codec = PacketCodec.fed client datagrams)
    (hsid : u.sessionId = sid) (hissued : ∀ e ∈ s'.issued, isReliable e.2 = true)
    (hstored : ∀ (n : ℕ) (b : Bytes) (t : Instant), u.unackedPackets[n]? = some (b, t) →
      Plain client sid b) :
    (∀ b ∈ out, Plain client sid b) ∧
    ∀ (n : ℕ) (b : Bytes) (t : Instant), s'.unackedPackets[n]? = some (b, t) → Plain client sid b := by
  constructor
  · intro b hb
    rcases hs.out b hb with ⟨n, t, hb⟩ | ⟨q, p, hseal, hkind⟩
    · exact hstored n b t hb
    · exact ⟨datagrams, _, q, _, p, hcodec ▸ hseal, .inr ⟨hsid, hkind.imp (hissued (q, p)) id⟩⟩
  · intro n b t hb
    rcases hs.stored n b t hb with ⟨t', hb⟩ | ⟨p, hseal, hin⟩
    · exact hstored n b t' hb
    · exact ⟨datagrams, _, n, _, p, hcodec ▸ hseal, .inr ⟨hsid, .inl (hissued (n, p) hin)⟩⟩

theorem Plainly.step (hrt : PacketCodec.RoundTrips sid server client) (h : Plainly client sid l)
    (ha : Agrees server client sid l) {ev : LinkEvent} (hs : l.step ev = some l') :
    Plainly client sid l' := by
  rcases step_cases hs with rfl | ⟨sev, hs, hev⟩ | ⟨job, hj, rfl⟩ | ⟨seq, cols, rows, bytes, hb, rfl⟩ |
    ⟨cev, hs, hev⟩
  · exact h
  · obtain ⟨⟨s', actions⟩, ht, rfl⟩ := Option.map_eq_some_iff.mp hs
    have hstep : l.server.step sev = some s' := by rw [← map_turn, ht]; rfl
    refine ⟨h.up, h.stored, h.issued, fun n p hp => ?_⟩
    rcases step_held hstep hp with hold | ⟨bytes, src, now, echo, w, st, rfl, hopen, h0, -, htr⟩
    · exact h.held n p hold
    · exact h.reliable_of_open hrt ha (hev _ _ _ _ rfl) hopen h0 htr
  · exact ⟨h.up, h.stored, h.issued, h.held⟩
  · refine ⟨fun b hmem => ?_, h.stored, h.issued, h.held⟩
    rcases List.mem_append.mp hmem with hmem | hmem
    · exact h.up b hmem
    · obtain ⟨datagrams, -, hcc⟩ := ha.clientCodec
      rw [List.mem_singleton.mp hmem]
      exact ⟨datagrams, 0, seq, 0, _, hcc ▸ hb, .inl rfl⟩
  · obtain ⟨⟨s', out⟩, ht, rfl⟩ := Option.map_eq_some_iff.mp hs
    obtain ⟨u, datagrams, hsent, -, hcodec, hsid, hstored⟩ := ha.react_sent hev ht
    have hissued : ∀ e ∈ s'.issued, isReliable e.2 = true := by
      have hnew : ∀ {v : MirrorSession C}, v.issued = l.client.issued → v.Sent s' out →
          ∀ e ∈ s'.issued, isReliable e.2 = true := by
        intro v hv hsent e he
        obtain ⟨new, heq, -, hnew⟩ := hsent.issued
        rw [heq, hv] at he
        rcases List.mem_append.mp he with he | he
        · exact h.issued e he
        · exact (hnew e he).2.2
      rcases MirrorSession.turn_cases ht with ⟨bytes, now, v, -, hv, hsent⟩ | ⟨-, hsent⟩
      · exact hnew hv.issued hsent
      · exact hnew rfl hsent
    obtain ⟨hout, hkeep⟩ := plain_of_sent hsent hcodec hsid hissued fun n b t hb => by
      obtain ⟨t', hb⟩ := hstored n b t hb
      exact h.stored n b t' hb
    refine ⟨fun b hb => ?_, hkeep, hissued, h.held⟩
    rcases List.mem_append.mp hb with hb | hb
    · exact h.up b hb
    · exact hout b hb

theorem plainly_start {c : ℕ} {addr : SocketAddr} {cols rows : ℕ} {now : Instant}
    {s : AuthoritativeSession C T}
    (h : AuthoritativeSession.new sid server c addr cols rows now = .ok s)
    (startServerSeq cols' rows' : ℕ) (overlay : Bool) (now' : Instant) :
    Plainly client sid
      (start s (MirrorSession.new sid client startServerSeq cols' rows' overlay now')) := by
  obtain ⟨t, -, h⟩ := bind_eq_ok.mp h
  cases h
  exact ⟨by simp [start], by simp [start, MirrorSession.new], by simp [start, MirrorSession.new],
    by simp [start]⟩

/-! ### Progress -/

/-- The turn of the client that an event is. -/
def clientEvent (l : Link C T) : LinkEvent → Option MirrorEvent
  | .stdin buf now => some (.stdin buf now)
  | .winch cols rows now => some (.winch cols rows now)
  | .clientTick now => some (.tick now)
  | .paint dest => some (.paint dest)
  | .deliverDown i now => l.down[i]?.map fun bytes => .recv bytes now
  | _ => none

/-- The event makes the client take its banner from a screen without rows. -/
def LiftsBanner (l : Link C T) (ev : LinkEvent) : Prop :=
  ∃ cev ∈ l.clientEvent ev, l.client.LiftsBanner cev

omit [TerminalState T] in
theorem react_eq_none_iff (h : l.client.Fitted) (cev : MirrorEvent) :
    l.react cev = none ↔ l.client.LiftsBanner cev := by
  rw [← h.step_eq_none_iff, react, Option.map_eq_none_iff, MirrorSession.step, Option.map_eq_none_iff]

/-- STEP: the server's turns return, and the client's but for the banner. -/
theorem Plainly.step_eq_none_iff (hrt : PacketCodec.RoundTrips sid server client)
    (h : Plainly client sid l) (ha : Agrees server client sid l) (hf : l.client.Fitted)
    (ev : LinkEvent) : l.step ev = none ↔ l.LiftsBanner ev := by
  have hserve : ∀ sev, (∀ bytes src now echo, sev = .packet bytes src now echo → bytes ∈ l.up) →
      l.serve sev ≠ none := by
    intro sev hup hnone
    rw [serve, Option.map_eq_none_iff] at hnone
    have hstep : l.server.step sev = none := by rw [← map_turn, hnone]; rfl
    refine step_isSome h.held ?_ hstep
    intro bytes src now echo w p st heq hopen h0 htr
    exact h.reliable_of_open hrt ha (hup _ _ _ _ heq) hopen h0 htr
  unfold LiftsBanner clientEvent
  cases ev with
  | ptyBytes data now => exact iff_of_false (hserve _ (by simp)) (by simp)
  | serverTick now echo => exact iff_of_false (hserve _ (by simp)) (by simp)
  | deliverUp i src now echo =>
    refine iff_of_false ?_ (by simp)
    rw [Link.step]
    split
    · rename_i bytes hb
      refine hserve _ ?_
      rintro _ _ _ _ ⟨⟩
      exact List.mem_of_getElem? hb
    · exact Option.some_ne_none _
  | runJob i =>
    refine iff_of_false ?_ (by simp)
    rw [Link.step]
    split <;> exact Option.some_ne_none _
  | handshake seq cols rows =>
    refine iff_of_false ?_ (by simp)
    rw [Link.step]
    split <;> exact Option.some_ne_none _
  | stdin buf now =>
    rw [Link.step]
    simpa using react_eq_none_iff hf (.stdin buf now)
  | winch cols rows now =>
    rw [Link.step]
    simpa using react_eq_none_iff hf (.winch cols rows now)
  | clientTick now =>
    rw [Link.step]
    simpa using react_eq_none_iff hf (.tick now)
  | paint dest =>
    rw [Link.step]
    simpa using react_eq_none_iff hf (.paint dest)
  | deliverDown i now =>
    rw [Link.step]
    split
    · rename_i bytes hb
      simpa [hb] using react_eq_none_iff hf (.recv bytes now)
    · rename_i hb
      simp [hb]

/-- A step leaves the client alone or is a turn of it. -/
theorem client_step {ev : LinkEvent} (hs : l.step ev = some l') :
    l'.client = l.client ∨ ∃ cev ∈ l.clientEvent ev, l.client.step cev = some l'.client := by
  have hserve : ∀ {sev : SessionEvent}, l.serve sev = some l' → l'.client = l.client := by
    intro sev hs
    obtain ⟨_, -, rfl⟩ := Option.map_eq_some_iff.mp hs
    rfl
  have hreact : ∀ {cev : MirrorEvent}, l.react cev = some l' → l.client.step cev = some l'.client := by
    intro cev hs
    obtain ⟨⟨s', out⟩, ht, rfl⟩ := Option.map_eq_some_iff.mp hs
    rw [MirrorSession.step, ht]
    rfl
  cases ev with
  | ptyBytes data now => exact .inl (hserve hs)
  | serverTick now echo => exact .inl (hserve hs)
  | deliverUp i src now echo =>
    rw [Link.step] at hs
    split at hs
    · exact .inl (hserve hs)
    · exact .inl (Option.some.inj hs ▸ rfl)
  | runJob i =>
    rw [Link.step] at hs
    split at hs <;> exact .inl (Option.some.inj hs ▸ rfl)
  | handshake seq cols rows =>
    rw [Link.step] at hs
    split at hs <;> exact .inl (Option.some.inj hs ▸ rfl)
  | stdin buf now => exact .inr ⟨_, rfl, hreact hs⟩
  | winch cols rows now => exact .inr ⟨_, rfl, hreact hs⟩
  | clientTick now => exact .inr ⟨_, rfl, hreact hs⟩
  | paint dest => exact .inr ⟨_, rfl, hreact hs⟩
  | deliverDown i now =>
    rw [Link.step] at hs
    split at hs
    · rename_i bytes hb
      exact .inr ⟨_, by simp [clientEvent, hb], hreact hs⟩
    · exact .inl (Option.some.inj hs ▸ rfl)

/-- The screen has the rows it started with, or those of an applied state. -/
def RowsKnown (rows : ℕ) (c : MirrorSession C) : Prop :=
  c.mirror.frame.rows = rows ∨ ∃ e ∈ c.applied, c.mirror.frame.rows = e.2.rows

omit [TerminalState T] in
theorem RowsKnown.step {rows : ℕ} {c c' : MirrorSession C} (h : RowsKnown rows c) (hf : c.Fitted)
    {ev : MirrorEvent} (hs : c.step ev = some c') : RowsKnown rows c' := by
  rcases MirrorSession.step_screen hf hs with ⟨happ, hrows, -⟩ | ⟨q, g, happ, hrows, -⟩
  · rw [RowsKnown, happ, hrows]
    exact h
  · exact .inr ⟨(q, g), by simp [happ], hrows⟩

/-- All that progress rests on. -/
structure Sound (server client : C) (sid rows : ℕ) (l : Link C T) : Prop where
  agrees : Agrees server client sid l
  plainly : Plainly client sid l
  fitted : l.client.Fitted
  rows : RowsKnown rows l.client

theorem Sound.step {rows : ℕ} (hrt : PacketCodec.RoundTrips sid server client) (hterm : GridsWellFormed T)
    (h : Sound server client sid rows l) {ev : LinkEvent} (hs : l.step ev = some l') :
    Sound server client sid rows l' := by
  refine ⟨h.agrees.step hrt hterm hs, h.plainly.step hrt h.agrees hs, ?_, ?_⟩
  · rcases client_step hs with heq | ⟨cev, -, hc⟩
    · exact heq ▸ h.fitted
    · exact h.fitted.step hc
  · rcases client_step hs with heq | ⟨cev, -, hc⟩
    · exact heq ▸ h.rows
    · exact h.rows.step h.fitted hc

theorem sound_start {c : ℕ} {addr : SocketAddr} {cols rows : ℕ} {now : Instant}
    {s : AuthoritativeSession C T}
    (h : AuthoritativeSession.new sid server c addr cols rows now = .ok s)
    (startServerSeq cols' rows' : ℕ) (overlay : Bool) (now' : Instant) :
    Sound server client sid rows'
      (start s (MirrorSession.new sid client startServerSeq cols' rows' overlay now')) :=
  ⟨agrees_start h .., plainly_start h .., MirrorSession.fitted_new .., .inl rfl⟩

omit [TerminalState T] in
/-- No datagram the server sealed ends the client's main loop with an error. -/
theorem Agrees.feedPacket_isOk (hrt : PacketCodec.RoundTrips sid server client)
    (h : Agrees server client sid l) {bytes : Bytes} (hb : bytes ∈ l.down) {now : Instant}
    {s' : MirrorSession C} {r : Except Error (List ClientAction)}
    (hs : l.client.feedPacket bytes now = some (s', r)) : r.isOk = true := by
  rw [← Bool.not_eq_false, MirrorSession.feedPacket_isOk_iff hs]
  rintro ⟨q, update, harr, hlt, -, hnone⟩
  obtain ⟨g, hg, -⟩ := h.accepted_frame hrt hb harr hlt
  exact absurd (hnone.symm.trans hg) nofun

end Link

end Rumsh.System
