import Rumsh.Client.Network

/-! What an operation of the client's session can have done, read off its result.

    One lemma for each operation that branches or may fail: which way it went, the condition of that way
    and the session it leaves. The frames, the counters and the timers of the later modules are read off
    these, so that a change of the session's code stops here. -/

namespace Rumsh.Client
open Std Rumsh.Protocol

namespace MirrorSession
variable {C : Type}

section
variable {s s' : MirrorSession C} {now : Instant}

/-! ### No packet -/

theorem tickArq_frame (s : MirrorSession C) (now : Instant) :
    ∃ lastArqCheck unackedPackets, (s.tickArq now).1 = { s with lastArqCheck, unackedPackets } := by
  unfold tickArq
  split <;> exact ⟨_, _, rfl⟩

/-- The banner changes with the heartbeat, or nothing changes. -/
theorem tickBanner_inv {actions : List ClientAction} (h : s.tickBanner now = some (s', actions)) :
    (s.isReconnecting = decide (now - s.lastRecvTime > millis 5000) ∧ s' = s ∧ actions = []) ∨
    ∃ silent mirror, decide (now - s.lastRecvTime > millis 5000) = silent ∧ s.isReconnecting ≠ silent ∧
      s.mirror.setReconnecting silent = some mirror ∧ actions = [.paint] ∧
      s' = { s with isReconnecting := silent, mirror,
                    keepaliveInterval := outageInterval (now - s.lastRecvTime) } := by
  unfold tickBanner at h
  dsimp only at h
  split at h
  · rename_i hne
    obtain ⟨mirror, hm, h⟩ := Option.map_eq_some_iff.mp h
    obtain ⟨rfl, rfl⟩ := Prod.mk.inj h
    exact .inr ⟨_, mirror, rfl, hne, hm, rfl, rfl⟩
  · rename_i heq
    cases h
    exact .inl ⟨not_not.mp heq, rfl, rfl⟩

/-- The telemetry is cleared and shown, or nothing changes. -/
theorem tickTelemetry_inv (s : MirrorSession C) (now : Instant) :
    s.tickTelemetry now = (s, []) ∨
    ∃ kbS ratio fps, s.tickTelemetry now =
      ({ s with mirror := (s.mirror.recordBandwidthCompression kbS ratio).recordFps fps,
                bytesRecvAcc := 0, compAcc := 0, decompAcc := 0, paintCountAcc := 0,
                lastTelemetryCalc := now }, [.paint]) := by
  unfold tickTelemetry
  dsimp only
  split
  · exact .inr ⟨_, _, _, rfl⟩
  · exact .inl rfl

/-- The header of a packet: statistics, what it acknowledges, the loss window, and the mirror. -/
theorem noteHeaders_inv {seq ack : ℕ} {stats : CodecStats} (h : s.noteHeaders seq ack stats now = some s') :
    ∃ m rtt loss lossWindow expectedServerSeq, s.mirror.acknowledge ack = some m ∧
      s' = { (s.countStats stats).pruneAcked ack with
        lossWindow, expectedServerSeq, mirror := m.recordRttLoss rtt loss } := by
  obtain ⟨m, hm, rfl⟩ := Option.map_eq_some_iff.mp h
  unfold noteRecovery at hm ⊢
  split at hm
  · rename_i hrec
    exact ⟨m, _, _, _, _, hm, by rw [if_pos hrec]; rfl⟩
  · rename_i hrec
    exact ⟨m, _, _, _, _, hm, by rw [if_neg hrec]; rfl⟩

/-- A new packet is noted, and ends the banner if there is one. -/
theorem accept_inv {seq : ℕ} (h : s.accept seq now = some s') :
    ∃ mirror, (s.mirror.setReconnecting false = some mirror ∨ mirror = s.mirror) ∧
      s' = { s with lastRecvTime := now, ackSeqNum := seq, keepaliveInterval := secs 2,
                    isReconnecting := false, mirror } := by
  unfold accept at h
  dsimp only at h
  split at h
  · obtain ⟨mirror, hm, rfl⟩ := Option.map_eq_some_iff.mp h
    exact ⟨mirror, .inl hm, rfl⟩
  · rename_i hrec
    cases h
    have hno : s.isReconnecting = false := Bool.not_eq_true _ ▸ hrec
    refine ⟨s.mirror, .inr rfl, ?_⟩
    rw [← hno]

/-- A grid is shown and kept, and ends local echo if the server does not echo. -/
theorem showFrame_inv {seq : ℕ} {g : GridState} {echo : Bool} (h : s.showFrame seq g echo = some s') :
    ∃ m mirror, s.mirror.applyFrame g seq = some m ∧
      (echo = true ∧ mirror = m ∨ echo = false ∧ m.abortPrediction = some mirror) ∧
      s' = { s with isEchoEnabled := echo, mirror,
                    stateHistory := capHistory (s.stateHistory ++ [(seq, g)]),
                    applied := s.applied ++ [(seq, g)] } := by
  obtain ⟨m, hm, h⟩ := Option.bind_eq_some_iff.mp h
  obtain ⟨mirror, hmirror, rfl⟩ := Option.map_eq_some_iff.mp h
  refine ⟨m, mirror, hm, ?_, rfl⟩
  cases echo with
  | true => exact .inl ⟨rfl, (Option.some.inj hmirror).symm⟩
  | false => exact .inr ⟨rfl, hmirror⟩

end

variable [PacketCodec C] {s s' : MirrorSession C} {now : Instant}

/-! ### Sealing -/

/-- A reliable packet uses up its number, and is kept if it was sealed. -/
theorem prepareReliable_inv {payload : ClientPayload} {r : Except Error (Bytes × ℕ)}
    (h : s.prepareReliable payload now = (s', r)) :
    ∃ t, t = { s with seqNum := s.seqNum + 1, sentPackets := s.sentPackets.insert (s.seqNum + 1) now,
                      sealedCalls := s.sealedCalls ++ [(s.seqNum + 1, s.ackSeqNum, payload)] } ∧
      ((∃ e, PacketCodec.sealClient s.codec s.sessionId (s.seqNum + 1) s.ackSeqNum payload = .error e ∧
        s' = t ∧ r = .error e) ∨
      ∃ bytes, PacketCodec.sealClient s.codec s.sessionId (s.seqNum + 1) s.ackSeqNum payload =
          .ok bytes ∧
        s' = { t with unackedPackets := s.unackedPackets.insert (s.seqNum + 1) (bytes, now),
                      issued := s.issued ++ [(s.seqNum + 1, payload)] } ∧
        r = .ok (bytes, s.seqNum + 1)) := by
  simp only [prepareReliable, sealNow] at h
  split at h
  · rename_i heq
    obtain ⟨rfl, hseal⟩ := Prod.mk.inj heq
    obtain ⟨rfl, rfl⟩ := Prod.mk.inj h
    exact ⟨_, rfl, .inl ⟨_, hseal, rfl, rfl⟩⟩
  · rename_i heq
    obtain ⟨rfl, hseal⟩ := Prod.mk.inj heq
    obtain ⟨rfl, rfl⟩ := Prod.mk.inj h
    exact ⟨_, rfl, .inr ⟨_, hseal, rfl, rfl⟩⟩

/-- An ack is a transient packet, sent if it was sealed. -/
theorem sendAck_inv {actions : List ClientAction} (h : s.sendAck now = (s', actions)) :
    ∃ res, ({ s with lastAckSent := now } : MirrorSession C).prepareTransient .ack = (s', res) ∧
      ((∃ e, res = .error e ∧ actions = []) ∨
      ∃ bytes, res = .ok bytes ∧ actions = [.sendPacket bytes]) := by
  unfold sendAck prepareAck at h
  split at h
  · rename_i bytes heq
    cases h
    exact ⟨_, heq, .inr ⟨bytes, rfl, rfl⟩⟩
  · rename_i e heq
    cases h
    exact ⟨_, heq, .inl ⟨e, rfl, rfl⟩⟩

theorem ackIfDue_inv (s : MirrorSession C) (now : Instant) :
    s.ackIfDue now = s.sendAck now ∨ s.ackIfDue now = (s, []) := by
  unfold ackIfDue
  split
  · exact .inl rfl
  · exact .inr rfl

/-! ### Input -/

/-- Keystrokes are sealed, and if that went well, may be drawn. -/
theorem sendKeys_inv {keys : Bytes} {actions : List ClientAction} {r : Except Error (List ClientAction)}
    (h : s.sendKeys keys actions now = some (s', r)) :
    ∃ t res, s.prepareReliable (.keystrokes keys) now = (t, res) ∧
      ((∃ e, res = .error e ∧ s' = t ∧ r = .error e) ∨
      ∃ bytes seq, res = .ok (bytes, seq) ∧ ((s' = t ∧ r = .ok (actions ++ [.sendPacket bytes])) ∨
        ∃ mirror, (∀ b ∈ keys, isAsciiControl b = false) ∧ t.mirror.predictInput keys seq = some mirror ∧
          s' = { t with mirror } ∧ r = .ok (actions ++ [.paint, .sendPacket bytes]))) := by
  unfold sendKeys prepareKeystrokes at h
  split at h
  · rename_i t e heq
    cases h
    exact ⟨_, _, heq, .inl ⟨e, rfl, rfl, rfl⟩⟩
  · rename_i t bytes seq heq
    refine ⟨_, _, heq, .inr ⟨bytes, seq, rfl, ?_⟩⟩
    split at h
    · rename_i hecho
      obtain ⟨mirror, hp, h⟩ := Option.map_eq_some_iff.mp h
      cases h
      simp only [Bool.and_eq_true, List.all_eq_true, Bool.not_eq_true'] at hecho
      exact .inr ⟨mirror, hecho.2, hp, rfl, rfl⟩
    · cases h
      exact .inl ⟨rfl, rfl⟩

/-- A chunk of stdin is interpreted; what it releases is sent, unless it ended the session. -/
theorem feedStdin_inv {buf : Bytes} {r : Except Error (List ClientAction)}
    (h : s.feedStdin buf now = some (s', r)) :
    ∃ t send actions disconnected, s.interpret buf [] [] = (t, send, actions, disconnected) ∧
      ((disconnected = true ∧ s' = t ∧ r = .ok actions) ∨
      (disconnected = false ∧ send = [] ∧ s' = t ∧ r = .ok actions) ∨
      (disconnected = false ∧ send ≠ [] ∧ t.sendKeys send actions now = some (s', r))) := by
  unfold feedStdin at h
  split at h
  rename_i t send actions disconnected heq
  refine ⟨t, send, actions, disconnected, heq, ?_⟩
  split at h
  · rename_i hdis
    cases h
    exact .inl ⟨hdis, rfl, rfl⟩
  · rename_i hdis
    have hdis : disconnected = false := Bool.not_eq_true _ ▸ hdis
    split at h
    · rename_i hempty
      cases h
      exact .inr (.inl ⟨hdis, List.isEmpty_iff.mp hempty, rfl, rfl⟩)
    · rename_i hkeys
      exact .inr (.inr ⟨hdis, mt List.isEmpty_iff.mpr hkeys, h⟩)

/-- A resize that was sealed takes the predictions back and asks for a repaint. -/
theorem onWinch_inv {cols rows : ℕ} {r : Except Error (List ClientAction)}
    (h : s.onWinch cols rows now = some (s', r)) :
    ∃ t res, s.prepareReliable (.resize cols rows) now = (t, res) ∧
      ((∃ e, res = .error e ∧ s' = t ∧ r = .error e) ∨
      ∃ bytes seq mirror, res = .ok (bytes, seq) ∧ t.mirror.abortPrediction = some mirror ∧
        s' = { t with mirror := mirror.markDirty } ∧ r = .ok [.sendPacket bytes, .paint]) := by
  unfold onWinch prepareResize at h
  split at h
  · rename_i t e heq
    cases h
    exact ⟨_, _, heq, .inl ⟨e, rfl, rfl, rfl⟩⟩
  · rename_i t bytes seq heq
    obtain ⟨mirror, hm, h⟩ := Option.map_eq_some_iff.mp h
    cases h
    exact ⟨_, _, heq, .inr ⟨bytes, seq, mirror, rfl, hm, rfl, rfl⟩⟩

/-! ### Timers -/

theorem tickKeepalive_inv {r : Except Error (List ClientAction)} (h : s.tickKeepalive now = (s', r)) :
    (s' = s ∧ r = .ok []) ∨ ∃ res,
      ({ s with lastKeepaliveSent := now } : MirrorSession C).prepareReliable .keepAlive now =
        (s', res) ∧ r = res.map fun p => [.sendPacket p.1] := by
  unfold tickKeepalive prepareKeepalive at h
  split at h
  · right
    split at h <;> rename_i heq <;> cases h <;> exact ⟨_, heq, rfl⟩
  · cases h
    exact .inl ⟨rfl, rfl⟩

/-- The first incomplete frame of the list is asked for, if it is time, and then the others. -/
theorem nackAll_cons_inv {frameSeq : ℕ} {receivedMask : List ℕ} {rest : List (ℕ × List ℕ)}
    {actions : List ClientAction} {r : Except Error (List ClientAction)}
    (h : nackAll now ((frameSeq, receivedMask) :: rest) s actions = (s', r)) :
    nackAll now rest s actions = (s', r) ∨
    s.shouldNack frameSeq now = true ∧ ∃ t res,
      ({ s with nackedFrames := s.nackedFrames.insert frameSeq now } : MirrorSession C).prepareTransient
        (.fragmentNack frameSeq receivedMask) = (t, res) ∧
      ((∃ e, res = .error e ∧ s' = t ∧ r = .error e) ∨
      ∃ bytes, res = .ok bytes ∧ nackAll now rest t (actions ++ [.sendPacket bytes]) = (s', r)) := by
  unfold nackAll prepareFragmentNack at h
  split at h
  · rename_i hshould
    refine .inr ⟨hshould, ?_⟩
    split at h
    · rename_i t e heq
      cases h
      exact ⟨_, _, heq, .inl ⟨e, rfl, rfl, rfl⟩⟩
    · rename_i t bytes heq
      exact ⟨_, _, heq, .inr ⟨bytes, rfl, h⟩⟩
  · exact .inl h

/-- A check that is due asks for the incomplete frames; one that went well forgets the old ones. -/
theorem tickNack_inv {r : Except Error (List ClientAction)} (h : s.tickNack now = (s', r)) :
    (s' = s ∧ r = .ok []) ∨
    now - s.lastNackCheck ≥ millis 40 ∧ ∃ t,
      nackAll now (PacketCodec.getIncompleteFrames s.codec) { s with lastNackCheck := now } [] = (t, r) ∧
      ((∃ e, r = .error e ∧ s' = t) ∨
      ∃ actions, r = .ok actions ∧ s' =
        { t with
          nackedFrames := t.nackedFrames.filter fun seq time =>
            decide (seq > t.ackSeqNum) && decide (now - time < secs 2) }) := by
  unfold tickNack at h
  split at h
  · rename_i hdue
    refine .inr ⟨hdue, ?_⟩
    split at h
    · rename_i t e heq
      cases h
      exact ⟨_, heq, .inl ⟨e, rfl, rfl⟩⟩
    · rename_i t actions heq
      cases h
      exact ⟨_, heq, .inr ⟨actions, rfl, rfl⟩⟩
  · cases h
    exact .inl ⟨rfl, rfl⟩

/-- A tick fails at its keepalive, or goes through all of its timers. -/
theorem onTick_inv {r : Except Error (List ClientAction)} (h : s.onTick now = some (s', r)) :
    (∃ e, s.tickKeepalive now = (s', .error e) ∧ r = .error e) ∨
    ∃ t keepalive u banner nacks, s.tickKeepalive now = (t, .ok keepalive) ∧
      (t.tickArq now).1.tickBanner now = some (u, banner) ∧
      (u.tickTelemetry now).1.tickNack now = (s', nacks) ∧
      r = nacks.map fun nacks => keepalive ++ (t.tickArq now).2 ++ banner ++ (u.tickTelemetry now).2 ++
        nacks := by
  unfold onTick at h
  split at h
  · rename_i e heq
    cases h
    exact .inl ⟨e, heq, rfl⟩
  · rename_i t keepalive heq
    obtain ⟨⟨u, banner⟩, hb, h⟩ := Option.map_eq_some_iff.mp h
    obtain ⟨rfl, rfl⟩ := Prod.mk.inj h
    exact .inr ⟨t, keepalive, u, banner, _, heq, hb, rfl, rfl⟩

/-! ### Datagrams -/

/-- A frame lacks its reference, does not fit it, or is shown. -/
theorem feedFrame_inv {seq : ℕ} {update : FrameUpdate} {r : Except Error (List ClientAction)}
    (h : s.feedFrame seq update now = some (s', r)) :
    (s.baseFor update = none ∧ s' = (s.sendAck now).1 ∧ r = .ok (s.sendAck now).2) ∨
    ∃ base g, s.baseFor update = some base ∧
      ((∃ e, base.patch update = some (g, .error e) ∧ s' = s ∧ r = .error e) ∨
      (base.patch update = some (g, .ok ()) ∧ ∃ t, s.showFrame seq g update.isEchoEnabled = some t ∧
        s' = (t.ackIfDue now).1 ∧ r = .ok (.paint :: (t.ackIfDue now).2))) := by
  unfold feedFrame at h
  split at h
  · rename_i hb
    cases h
    exact .inl ⟨hb, rfl, rfl⟩
  · rename_i base hb
    split at h
    · cases h
    · rename_i g e hp
      cases h
      exact .inr ⟨base, g, hb, .inl ⟨e, hp, rfl, rfl⟩⟩
    · rename_i g hp
      obtain ⟨t, ht, h⟩ := Option.map_eq_some_iff.mp h
      obtain ⟨rfl, rfl⟩ := Prod.mk.inj h
      exact .inr ⟨base, g, hb, .inr ⟨hp, t, ht, rfl, rfl⟩⟩

/-- A payload is shown and acknowledged, only acknowledged, or leaves the session as it is. -/
theorem feedPayload_inv {seq : ℕ} {payload : ServerPayload} {r : Except Error (List ClientAction)}
    (h : s.feedPayload seq payload now = some (s', r)) :
    s' = s ∨ s' = (s.sendAck now).1 ∨
      ∃ g echo t, s.showFrame seq g echo = some t ∧ s' = (t.ackIfDue now).1 := by
  cases payload with
  | keepAlive => cases h; exact .inl rfl
  | shutdown => cases h; exact .inl rfl
  | handshakeAck sid => cases h; exact .inl rfl
  | frame update =>
    rcases feedFrame_inv h with ⟨-, rfl, -⟩ | ⟨_, g, -, ⟨_, -, rfl, -⟩ | ⟨-, t, ht, rfl, -⟩⟩
    · exact .inr (.inl rfl)
    · exact .inl rfl
    · exact .inr (.inr ⟨g, _, t, ht, rfl⟩)

/-- A datagram completes nothing, or its packet is noted and, if it is a new one, accepted and read. -/
theorem feedPacket_inv {bytes : Bytes} {r : Except Error (List ClientAction)}
    (h : s.feedPacket bytes now = some (s', r)) :
    ((∀ x, (PacketCodec.openServer s.codec bytes).2 ≠ .ok (some x)) ∧
      s' = { s with codec := (PacketCodec.openServer s.codec bytes).1 } ∧ r = .ok []) ∨
    ∃ packet payload stats t,
      (PacketCodec.openServer s.codec bytes).2 = .ok (some (packet, payload, stats)) ∧
      ({ s with codec := (PacketCodec.openServer s.codec bytes).1 } : MirrorSession C).noteHeaders
        packet.seqNum packet.ackSeqNum stats now = some t ∧
      ((packet.seqNum ≤ s.ackSeqNum ∧ s' = t ∧ r = .ok []) ∨
      (s.ackSeqNum < packet.seqNum ∧ ∃ u, t.accept packet.seqNum now = some u ∧
        u.feedPayload packet.seqNum payload now = some (s', r))) := by
  unfold feedPacket at h
  dsimp only at h
  split at h
  · rename_i packet payload stats hopen
    obtain ⟨t, ht, h⟩ := Option.bind_eq_some_iff.mp h
    have hack : t.ackSeqNum = s.ackSeqNum := by
      obtain ⟨_, _, _, _, _, -, rfl⟩ := noteHeaders_inv ht
      rfl
    rw [hack] at h
    refine .inr ⟨packet, payload, stats, t, hopen, ht, ?_⟩
    split at h
    · rename_i hle
      cases h
      exact .inl ⟨hle, rfl, rfl⟩
    · rename_i hlt
      obtain ⟨u, hu, h⟩ := Option.bind_eq_some_iff.mp h
      exact .inr ⟨Nat.not_le.mp hlt, u, hu, h⟩
  · rename_i hnone
    cases h
    exact .inl ⟨fun x hx => hnone x.1 x.2.1 x.2.2 hx, rfl, rfl⟩

end MirrorSession

end Rumsh.Client
