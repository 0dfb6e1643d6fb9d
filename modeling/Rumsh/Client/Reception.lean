import Rumsh.Client.Predictions

/-! Receiving does not panic.

    Every index the mirror uses lies inside its buffers, with one exception: taking the reconnection
    banner away marks the last row, also of a screen that has none. `Receptive` excludes that state; a
    packet that finds the session receptive leaves it receptive. -/

namespace Rumsh.Client
open Rumsh.Schemes Rumsh.Protocol

namespace ClientTerminal
open TerminalFrame LocalEchoEngine
variable {t : ClientTerminal}

/-- The banner can be taken from a screen with at least one row. -/
theorem setReconnecting_total (ht : t.frame.Sized) (hrows : 0 < t.frame.rows) (reconnecting : Bool) :
    ∃ t', t.setReconnecting reconnecting = some t' := by
  refine Option.ne_none_iff_exists'.mp fun hnone => ?_
  have hrow := (setReconnecting_eq_none_iff.mp hnone).2.2
  rw [ht.rowDirty] at hrow
  omega

/-- A frame, and the end of local echo after it. -/
theorem applyFrame_total (ht : t.frame.Sized) (g : GridState) (seq : ℕ) :
    ∃ t', t.applyFrame g seq = some t' ∧ ∃ t'', t'.abortPrediction = some t'' := by
  obtain ⟨f, e', -, -, -, heq, -⟩ := applyFrame_eq ht g seq
  have hperf : t.perform (.applyFrame g seq) = some _ := heq
  have hsized := perform_sized ht hperf
  exact ⟨_, heq, _, abortPrediction_eq hsized⟩

end ClientTerminal

namespace MirrorSession
open ClientTerminal
variable {C : Type} [PacketCodec C] {s : MirrorSession C}

/-- The mirror's buffers have their sizes, and no banner lies over a screen without rows. -/
structure Receptive (s : MirrorSession C) : Prop where
  sized : s.mirror.frame.Sized
  banner : s.isReconnecting = false ∨ 0 < s.mirror.frame.rows

omit [PacketCodec C] in
theorem noteHeaders_total (h : Receptive s) (seq ack : ℕ) (stats : CodecStats) (now : Instant) :
    ∃ t, s.noteHeaders seq ack stats now = some t ∧ Receptive t := by
  have hnote : ((((s.countStats stats).noteRecovery seq now).pruneAcked ack).noteArrival seq).mirror =
      s.mirror ∧ ((((s.countStats stats).noteRecovery seq now).pruneAcked ack).noteArrival
        seq).isReconnecting = s.isReconnecting := by
    unfold noteRecovery
    split <;> exact ⟨rfl, rfl⟩
  obtain ⟨e', heq, -⟩ := acknowledge_eq h.sized ack
  have hperf : s.mirror.perform (.acknowledge ack) = some _ := heq
  have hsized := perform_sized h.sized hperf
  unfold noteHeaders
  dsimp only
  rw [hnote.1, heq]
  refine ⟨_, rfl, ⟨hsized.cells, hsized.rowDirty⟩, ?_⟩
  rw [show _ = s.isReconnecting from hnote.2]
  exact h.banner

omit [PacketCodec C] in
/-- A new packet is accepted, and the banner is gone. -/
theorem accept_total (h : Receptive s) (seq : ℕ) (now : Instant) :
    ∃ t, s.accept seq now = some t ∧ t.isReconnecting = false ∧ t.mirror.frame.Sized := by
  unfold accept
  dsimp only
  split
  · rename_i hflag
    have hrows : 0 < s.mirror.frame.rows := by
      rcases h.banner with hno | hrows
      · exact absurd (hflag.symm.trans hno) (by decide)
      · exact hrows
    obtain ⟨m, hm⟩ := setReconnecting_total h.sized hrows false
    rw [hm]
    exact ⟨_, rfl, rfl, (setReconnecting_sameScreen hm).sized h.sized⟩
  · rename_i hflag
    exact ⟨_, rfl, Bool.not_eq_true _ ▸ hflag, h.sized⟩

/-- A payload whose frame, if it is one, patches a grid that is held. -/
theorem feedPayload_total (hs : s.mirror.frame.Sized) (payload : ServerPayload)
    (hgrid : ∀ update, payload = .frame update → s.gridOf payload ≠ none) (seq : ℕ) (now : Instant) :
    ∃ s' r, s.feedPayload seq payload now = some (s', r) ∧ s'.isReconnecting = s.isReconnecting := by
  cases payload with
  | keepAlive => exact ⟨s, _, rfl, rfl⟩
  | shutdown => exact ⟨s, _, rfl, rfl⟩
  | handshakeAck sid => exact ⟨s, _, rfl, rfl⟩
  | frame update =>
    obtain ⟨g, hg⟩ := Option.ne_none_iff_exists'.mp (hgrid update rfl)
    obtain ⟨base, hbase, hpatch⟩ := Option.bind_eq_some_iff.mp hg
    have hpatch : base.patch update = some (g, .ok ()) := by
      split at hpatch
      · rename_i heq
        cases hpatch
        exact heq
      · cases hpatch
    obtain ⟨t, ht, t', ht'⟩ := applyFrame_total hs g seq
    have hack : ∀ v : MirrorSession C, (v.ackIfDue now).1.isReconnecting = v.isReconnecting := by
      intro v
      obtain ⟨_, _, _, hframe⟩ := ackIfDue_frame v now
      rw [hframe]
    simp only [feedPayload, feedFrame, hbase, hpatch, showFrame, ht, Option.bind_some]
    cases update.isEchoEnabled with
    | true => exact ⟨_, _, rfl, hack _⟩
    | false =>
      rw [if_neg Bool.false_ne_true, ht']
      exact ⟨_, _, rfl, hack _⟩

/-- STEP: a packet that finds the session receptive is read without a panic, as long as the frame it
    may carry has its reference. -/
theorem feedPacket_total (h : Receptive s) (bytes : Bytes) (now : Instant)
    (hgrid : ∀ packet update stats,
      (PacketCodec.openServer s.codec bytes).2 = .ok (some (packet, .frame update, stats)) →
      s.ackSeqNum < packet.seqNum → s.gridOf (.frame update) ≠ none) :
    ∃ s' r, s.feedPacket bytes now = some (s', r) ∧
      (s'.isReconnecting = false ∨ 0 < s'.mirror.frame.rows) := by
  unfold feedPacket
  dsimp only
  split
  · rename_i packet payload stats hopen
    obtain ⟨t, ht, hr⟩ := noteHeaders_total
      (s := { s with codec := (PacketCodec.openServer s.codec bytes).1 })
      ⟨h.sized, h.banner⟩ packet.seqNum packet.ackSeqNum stats now
    have hn := noteHeaders_noted ht
    rw [feedOpened, ht, Option.bind_some]
    split
    · exact ⟨t, _, rfl, hr.banner⟩
    · rename_i hnew
      obtain ⟨u, hu, hflag, hsized⟩ := accept_total hr packet.seqNum now
      have hq := accept_quiet hu
      rw [hu, Option.bind_some]
      have hlt : s.ackSeqNum < packet.seqNum := hn.ackSeqNum ▸ Nat.not_le.mp hnew
      have hheld : ∀ update, payload = .frame update → u.gridOf payload ≠ none := by
        rintro update rfl
        rw [gridOf_congr (s := s) (hq.stateHistory.trans hn.stateHistory)]
        exact hgrid packet update stats hopen hlt
      obtain ⟨s', r, hf, hflag'⟩ := feedPayload_total hsized payload hheld packet.seqNum now
      exact ⟨s', r, hf, .inl (hflag'.trans hflag)⟩
  · exact ⟨_, _, rfl, h.banner⟩

end MirrorSession

end Rumsh.Client
