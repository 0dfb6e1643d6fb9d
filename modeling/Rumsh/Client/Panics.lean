import Rumsh.Protocol.Patch
import Rumsh.Client.Arq
import Rumsh.Client.Reception
import Rumsh.Client.Rollback
import Rumsh.Client.Timers

/-! What can panic in the client, whatever datagrams it is sent.

    The mirror's indices are in bounds, and a diff is never out of range without an error, so only two
    things are left: a banner taken from a screen without rows, and the greatest packet number there is,
    after which `seq + 1` overflows. -/

namespace Rumsh.Client
open Rumsh.Schemes Rumsh.Protocol

namespace ClientTerminal
open TerminalFrame LocalEchoEngine
variable {t t' : ClientTerminal}

theorem consumeUpdates_banner (t : ClientTerminal) (dest : TerminalFrame) :
    (t.consumeUpdates dest).1.frame.reconnecting = t.frame.reconnecting := by
  unfold consumeUpdates
  split <;> rfl

/-- Only one operation touches the banner. -/
theorem perform_banner (ht : t.frame.Sized) {op : MirrorOp} (h : t.perform op = some t')
    (hop : ∀ b, op ≠ .setReconnecting b) : t'.frame.reconnecting = t.frame.reconnecting := by
  cases op with
  | predictInput bytes clientSeq =>
    obtain ⟨old, heq⟩ := predictInput_eq ht bytes clientSeq
    obtain rfl := Option.some.inj (heq.symm.trans h)
    rfl
  | acknowledge ack =>
    obtain ⟨e, heq, -⟩ := acknowledge_eq ht ack
    obtain rfl := Option.some.inj (heq.symm.trans h)
    rfl
  | applyFrame newState serverSeq =>
    obtain ⟨f, e, hf, -, -, heq, -⟩ := applyFrame_eq ht newState serverSeq
    obtain rfl := Option.some.inj (heq.symm.trans h)
    obtain ⟨⟨f₁, hupd, rfl⟩, -⟩ := updateFromGridState_updates hf
    obtain ⟨_, _, _, hframe⟩ := resizedTo_frame t.frame newState
    obtain ⟨_, hcursor, -⟩ := updateCursor_frame f₁ newState
    rw [hcursor, hupd.shape, hframe]
    rfl
  | abortPrediction =>
    obtain rfl := Option.some.inj ((abortPrediction_eq ht).symm.trans h)
    rfl
  | setReconnecting b => exact absurd rfl (hop b)
  | consumeUpdates =>
    obtain rfl := Option.some.inj h
    exact consumeUpdates_banner t t.frame
  | _ =>
    obtain rfl := Option.some.inj h
    rfl

/-- It leaves the banner as it is told. -/
theorem setReconnecting_banner {b : Bool} (h : t.setReconnecting b = some t') :
    t'.frame.reconnecting = b := by
  by_cases hsame : t.frame.reconnecting = b
  · obtain rfl := Option.some.inj ((setReconnecting_same hsame).symm.trans h)
    exact hsame
  cases b with
  | true =>
    obtain rfl := Option.some.inj ((setReconnecting_on (by simpa using hsame)).symm.trans h)
    rfl
  | false =>
    rw [setReconnecting_off (by simpa using hsame)] at h
    obtain ⟨-, h⟩ := Option.ite_none_right_eq_some.mp h
    obtain rfl := Option.some.inj h
    rfl

end ClientTerminal

namespace MirrorSession
open TerminalFrame ClientTerminal
variable {C : Type} {s s' : MirrorSession C} {now : Instant}

/-- Sizes, the banner's flag in both places, and the grids a frame can refer to. -/
structure Fitted (s : MirrorSession C) : Prop where
  pending : Pending s.seqNum s.mirror
  banner : s.mirror.frame.reconnecting = s.isReconnecting
  history : s.HistoryFormed

/-! ### The banner's two flags -/

theorem accept_banner {seq : ℕ} (hb : s.mirror.frame.reconnecting = s.isReconnecting)
    (h : s.accept seq now = some s') : s'.mirror.frame.reconnecting = s'.isReconnecting := by
  unfold accept at h
  dsimp only at h
  split at h
  · obtain ⟨mirror, hm, rfl⟩ := Option.map_eq_some_iff.mp h
    exact setReconnecting_banner hm
  · cases h
    exact hb

theorem tickBanner_banner {actions : List ClientAction}
    (hb : s.mirror.frame.reconnecting = s.isReconnecting)
    (h : s.tickBanner now = some (s', actions)) : s'.mirror.frame.reconnecting = s'.isReconnecting := by
  rcases tickBanner_inv h with ⟨-, rfl, -⟩ | ⟨_, mirror, -, -, hm, -, rfl⟩
  · exact hb
  · exact setReconnecting_banner hm

theorem tickTelemetry_banner (s : MirrorSession C) (now : Instant) :
    (s.tickTelemetry now).1.mirror.frame.reconnecting = s.mirror.frame.reconnecting ∧
      (s.tickTelemetry now).1.isReconnecting = s.isReconnecting := by
  obtain heq | ⟨_, _, _, heq⟩ := tickTelemetry_inv s now <;> rw [heq] <;> exact ⟨rfl, rfl⟩

theorem interpret_banner (buf send : Bytes) (actions : List ClientAction) (s : MirrorSession C) :
    (s.interpret buf send actions).1.mirror.frame.reconnecting = s.mirror.frame.reconnecting := by
  induction buf generalizing s send actions with
  | nil => rfl
  | cons b buf ih =>
    unfold interpret
    dsimp only
    split
    · exact ih _ _ _
    · exact ih _ _ _
    · rfl
    · exact ih _ _ _
    · exact ih _ _ _
    · exact ih _ _ _

variable [PacketCodec C]

theorem prepareReliable_banner {payload : ClientPayload} {r : Except Error (Bytes × ℕ)}
    (h : s.prepareReliable payload now = (s', r)) :
    s'.mirror = s.mirror ∧ s'.isReconnecting = s.isReconnecting := by
  obtain ⟨_, _, _, _, rfl⟩ := prepareReliable_frame h
  exact ⟨rfl, rfl⟩

theorem feedStdin_banner {buf : Bytes} {r : Except Error (List ClientAction)}
    (hs : s.mirror.frame.Sized) (hb : s.mirror.frame.reconnecting = s.isReconnecting)
    (h : s.feedStdin buf now = some (s', r)) : s'.mirror.frame.reconnecting = s'.isReconnecting := by
  have hint := interpret_banner buf [] [] s
  have hsame := interpret_sameScreen buf [] [] s
  obtain ⟨interpreter, mirror, hframe⟩ := interpret_frame buf [] [] s
  obtain ⟨w, send, actions, _, heq, hcase⟩ := feedStdin_inv h
  rw [heq] at hint hframe hsame
  obtain rfl : w = { s with interpreter, mirror } := hframe
  rcases hcase with ⟨-, rfl, -⟩ | ⟨-, -, rfl, -⟩ | ⟨-, -, hkeys⟩
  · exact hint.trans hb
  · exact hint.trans hb
  · obtain ⟨t, res, ht, hcase⟩ := sendKeys_inv hkeys
    obtain ⟨hm, hflag⟩ := prepareReliable_banner ht
    have hbt : t.mirror.frame.reconnecting = t.isReconnecting := by
      rw [hm, hflag]
      exact hint.trans hb
    rcases hcase with ⟨_, -, rfl, -⟩ | ⟨bytes, seq, -, ⟨rfl, -⟩ | ⟨m, -, hp, rfl, -⟩⟩
    · exact hbt
    · exact hbt
    · have hsized : t.mirror.frame.Sized := by
        rw [hm]
        exact hsame.sized hs
      have hpredict : t.mirror.perform (.predictInput send seq) = some m := hp
      exact (perform_banner hsized hpredict nofun).trans hbt

theorem onWinch_banner {cols rows : ℕ} {r : Except Error (List ClientAction)}
    (hs : s.mirror.frame.Sized) (hb : s.mirror.frame.reconnecting = s.isReconnecting)
    (h : s.onWinch cols rows now = some (s', r)) :
    s'.mirror.frame.reconnecting = s'.isReconnecting := by
  obtain ⟨t, res, ht, ⟨e, -, rfl, -⟩ | ⟨_, _, m, -, ha, rfl, -⟩⟩ := onWinch_inv h
  · obtain ⟨hm, hflag⟩ := prepareReliable_banner ht
    rw [hm, hflag]
    exact hb
  · obtain ⟨hm, hflag⟩ := prepareReliable_banner ht
    have habort : s.mirror.perform .abortPrediction = some m := hm ▸ ha
    exact (perform_banner hs habort nofun).trans (hb.trans hflag.symm)

theorem onTick_banner {r : Except Error (List ClientAction)}
    (hb : s.mirror.frame.reconnecting = s.isReconnecting)
    (h : s.onTick now = some (s', r)) : s'.mirror.frame.reconnecting = s'.isReconnecting := by
  have hkeep : ∀ {t : MirrorSession C} {res : Except Error (List ClientAction)},
      s.tickKeepalive now = (t, res) → t.mirror.frame.reconnecting = t.isReconnecting := by
    intro t res hk
    rcases tickKeepalive_inv hk with ⟨rfl, -⟩ | ⟨_, ht, -⟩
    · exact hb
    · obtain ⟨hm, hflag⟩ := prepareReliable_banner ht
      rw [hm, hflag]
      exact hb
  rcases onTick_inv h with ⟨e, hk, -⟩ | ⟨t, keepalive, u, banner, nacks, hk, hban, hn, -⟩
  · exact hkeep hk
  · have harq : (t.tickArq now).1.mirror.frame.reconnecting = (t.tickArq now).1.isReconnecting := by
      obtain ⟨_, _, hframe⟩ := tickArq_frame t now
      have hflag := hkeep hk
      rw [hframe]
      exact hflag
    obtain ⟨hm, hflag⟩ := tickTelemetry_banner u now
    obtain ⟨_, _, _, _, rfl⟩ := tickNack_frame hn
    exact hm.trans ((tickBanner_banner harq hban).trans hflag.symm)

theorem feedPayload_banner {seq : ℕ} {payload : ServerPayload} {r : Except Error (List ClientAction)}
    (hs : s.mirror.frame.Sized) (hb : s.mirror.frame.reconnecting = s.isReconnecting)
    (h : s.feedPayload seq payload now = some (s', r)) :
    s'.mirror.frame.reconnecting = s'.isReconnecting := by
  obtain rfl | rfl | ⟨g, echo, t, ht, rfl⟩ := feedPayload_inv h
  · exact hb
  · obtain ⟨_, _, hframe⟩ := sendAck_frame s now
    rw [hframe]
    exact hb
  · obtain ⟨_, _, _, hframe⟩ := ackIfDue_frame t now
    rw [hframe]
    obtain ⟨m, mirror, hm, hecho, rfl⟩ := showFrame_inv ht
    have happly : s.mirror.perform (.applyFrame g seq) = some m := hm
    have hfirst := perform_banner hs happly nofun
    rcases hecho with ⟨-, rfl⟩ | ⟨-, ha⟩
    · exact hfirst.trans hb
    · have habort : m.perform .abortPrediction = some mirror := ha
      exact (perform_banner (perform_sized hs happly) habort nofun).trans (hfirst.trans hb)

theorem feedPacket_banner {bytes : Bytes} {r : Except Error (List ClientAction)}
    (hs : s.mirror.frame.Sized) (hb : s.mirror.frame.reconnecting = s.isReconnecting)
    (h : s.feedPacket bytes now = some (s', r)) : s'.mirror.frame.reconnecting = s'.isReconnecting := by
  rcases feedPacket_inv h with ⟨-, rfl, -⟩ | ⟨packet, payload, stats, t, -, ht, hcase⟩
  · exact hb
  · obtain ⟨m, _, _, _, _, hm, rfl⟩ := noteHeaders_inv ht
    have hack : s.mirror.perform (.acknowledge packet.ackSeqNum) = some m := hm
    have hnoted : m.frame.reconnecting = s.isReconnecting := (perform_banner hs hack nofun).trans hb
    have hsized := perform_sized hs hack
    rcases hcase with ⟨-, rfl, -⟩ | ⟨-, u, hu, hp⟩
    · exact hnoted
    · exact feedPayload_banner ((accept_mirror hu).sized ⟨hsized.cells, hsized.rowDirty⟩)
        (accept_banner hnoted hu) hp

/-! ### The session stays fitted -/

omit [PacketCodec C] in
/-- A grid a frame refers to is well formed. -/
theorem HistoryFormed.baseFor (h : s.HistoryFormed) {update : FrameUpdate} {base : GridState}
    (hb : s.baseFor update = some base) : base.WellFormed := by
  unfold MirrorSession.baseFor at hb
  split at hb
  · obtain rfl := Option.some.inj hb
    exact GridState.blank_wellFormed _ _
  · obtain ⟨e, he, rfl⟩ := Option.map_eq_some_iff.mp hb
    exact h e (List.mem_of_find?_eq_some he)

/-- STEP: every event leaves the session fitted. -/
theorem Fitted.step {ev : MirrorEvent} (h : Fitted s) (hs : s.step ev = some s') : Fitted s' := by
  refine ⟨h.pending.moves (step_moves hs), ?_, h.history.step hs⟩
  obtain ⟨r, hr⟩ := step_eq_some_iff.mp hs
  cases ev with
  | recv bytes now => exact feedPacket_banner h.pending.sized h.banner hr
  | stdin buf now => exact feedStdin_banner h.pending.sized h.banner hr
  | winch cols rows now => exact onWinch_banner h.pending.sized h.banner hr
  | tick now => exact onTick_banner h.banner hr
  | paint dest =>
    cases hr
    have hflag := consumeUpdates_banner s.mirror dest
    unfold copyFrameIfDirty
    dsimp only
    split <;> exact hflag.trans h.banner

/-! ### What panics -/

/-- The event takes the banner from a screen without rows: a tick that is no longer silent, or a new
    packet. -/
def LiftsBanner (s : MirrorSession C) (ev : MirrorEvent) : Prop :=
  s.isReconnecting = true ∧ s.mirror.frame.rows = 0 ∧
    match ev with
    | .tick now => (s.tickKeepalive now).2.isOk = true ∧ now - s.lastRecvTime ≤ millis 5000
    | ev => ∃ a ∈ s.arrival ev, s.ackSeqNum < a.1

omit [PacketCodec C] in
theorem setReconnecting_eq_none_iff {t : ClientTerminal} (ht : t.frame.Sized) {b : Bool} :
    t.setReconnecting b = none ↔ b = false ∧ t.frame.reconnecting = true ∧ t.frame.rows = 0 := by
  have hrow : t.frame.rows ≤ t.frame.rows - 1 ↔ t.frame.rows = 0 := by omega
  rw [ClientTerminal.setReconnecting_eq_none_iff, ht.rowDirty, hrow]

theorem feedStdin_ne_none (hs : s.mirror.frame.Sized) (buf : Bytes) (now : Instant) :
    s.feedStdin buf now ≠ none := by
  have hsame := interpret_sameScreen buf [] [] s
  unfold feedStdin
  split
  rename_i t send actions disconnected heq
  rw [heq] at hsame
  split
  · nofun
  · split
    · nofun
    · unfold sendKeys prepareKeystrokes
      split
      · nofun
      · rename_i u bytes seq hseal
        have hm := (prepareReliable_banner hseal).1
        split
        · obtain ⟨old, hp⟩ := predictInput_eq (hsame.sized hs) send seq
          rw [hm, hp]
          nofun
        · nofun

theorem onWinch_ne_none (hs : s.mirror.frame.Sized) (cols rows : ℕ) (now : Instant) :
    s.onWinch cols rows now ≠ none := by
  unfold onWinch prepareResize
  split
  · nofun
  · rename_i t bytes seq hseal
    rw [(prepareReliable_banner hseal).1, abortPrediction_eq hs]
    nofun

omit [PacketCodec C] in
theorem tickBanner_eq_none_iff (hs : s.mirror.frame.Sized)
    (hb : s.mirror.frame.reconnecting = s.isReconnecting) : s.tickBanner now = none ↔
      s.isReconnecting = true ∧ s.mirror.frame.rows = 0 ∧ now - s.lastRecvTime ≤ millis 5000 := by
  unfold tickBanner
  dsimp only
  split
  · rename_i hne
    rw [Option.map_eq_none_iff, setReconnecting_eq_none_iff hs, hb, decide_eq_false_iff_not, not_lt]
    tauto
  · rename_i heq
    refine iff_of_false nofun fun h => heq ?_
    rw [h.1, decide_eq_false (Nat.not_lt.mpr h.2.2)]
    nofun

theorem onTick_eq_none_iff (hs : s.mirror.frame.Sized)
    (hb : s.mirror.frame.reconnecting = s.isReconnecting) :
    s.onTick now = none ↔ s.LiftsBanner (.tick now) := by
  unfold onTick LiftsBanner
  rcases heq : s.tickKeepalive now with ⟨t, e | keepalive⟩
  · simp [heq, Except.isOk, Except.toBool]
  · -- neither the keepalive nor the check touches what the banner depends on
    have hmirror : (t.tickArq now).1.mirror = s.mirror := by
      obtain ⟨_, _, hframe⟩ := tickArq_frame t now
      rw [hframe]
      have hm := tickKeepalive_mirror heq
      exact hm
    have hrec : (t.tickArq now).1.reception = s.reception :=
      congrArg Prod.fst ((tickArq_timers t now).trans (tickKeepalive_timers heq))
    have hflag : (t.tickArq now).1.isReconnecting = s.isReconnecting :=
      congrArg Reception.isReconnecting hrec
    have htime : (t.tickArq now).1.lastRecvTime = s.lastRecvTime := congrArg Reception.lastRecvTime hrec
    have hiff : (t.tickArq now).1.tickBanner now = none ↔ _ :=
      tickBanner_eq_none_iff (hmirror ▸ hs) (by rw [hmirror, hflag]; exact hb)
    rw [hmirror, hflag, htime] at hiff
    simp only [heq, Except.isOk, Except.toBool, Option.map_eq_none_iff, hiff, true_and]

omit [PacketCodec C] in
theorem accept_eq_none_iff (hs : s.mirror.frame.Sized)
    (hb : s.mirror.frame.reconnecting = s.isReconnecting) (seq : ℕ) (now : Instant) :
    s.accept seq now = none ↔ s.isReconnecting = true ∧ s.mirror.frame.rows = 0 := by
  unfold accept
  dsimp only
  split
  · rename_i hrec
    rw [Option.map_eq_none_iff, setReconnecting_eq_none_iff hs, hb]
    simp [hrec]
  · rename_i hrec
    exact iff_of_false nofun fun h => hrec h.1

theorem feedPayload_ne_none (hs : s.mirror.frame.Sized) (hh : s.HistoryFormed)
    (seq : ℕ) (payload : ServerPayload) (now : Instant) : s.feedPayload seq payload now ≠ none := by
  cases payload with
  | frame update =>
    unfold feedPayload feedFrame
    dsimp only
    split
    · exact Option.some_ne_none _
    · rename_i base hbase
      obtain ⟨g, r, hp, -⟩ := GridState.patch_any_diff (hh.baseFor hbase) update
      rw [hp]
      cases r with
      | error e => exact Option.some_ne_none _
      | ok u =>
        obtain ⟨t, ht, t', ht'⟩ := applyFrame_total hs g seq
        simp only [showFrame, ht, Option.bind_some]
        split
        · exact Option.some_ne_none _
        · rw [ht']
          exact Option.some_ne_none _
  | _ => exact Option.some_ne_none _

omit [PacketCodec C] in
/-- The headers are read without a panic, and leave what the banner depends on. -/
theorem noteHeaders_spec (hs : s.mirror.frame.Sized) (seq ack : ℕ) (stats : CodecStats) (now : Instant) :
    ∃ t, s.noteHeaders seq ack stats now = some t ∧ t.mirror.frame.Sized ∧
      t.mirror.frame.rows = s.mirror.frame.rows ∧
      t.mirror.frame.reconnecting = s.mirror.frame.reconnecting ∧ t.isReconnecting = s.isReconnecting ∧
      t.ackSeqNum = s.ackSeqNum ∧ t.stateHistory = s.stateHistory := by
  obtain ⟨e, hack, -⟩ := acknowledge_eq hs ack
  obtain ⟨t, ht⟩ : ∃ t, s.noteHeaders seq ack stats now = some t := by
    have hmirror : (((s.countStats stats).noteRecovery seq now).pruneAcked ack |>.noteArrival seq).mirror =
        s.mirror := by
      unfold noteRecovery
      split <;> rfl
    unfold noteHeaders
    dsimp only
    rw [hmirror, hack]
    exact ⟨_, rfl⟩
  obtain ⟨m, _, _, _, _, hm, rfl⟩ := noteHeaders_inv ht
  have hperf : s.mirror.perform (.acknowledge ack) = some m := hm
  have hsized := perform_sized hs hperf
  obtain rfl := Option.some.inj (hack.symm.trans hm)
  exact ⟨_, ht, ⟨hsized.cells, hsized.rowDirty⟩, rfl, rfl, rfl, rfl, rfl⟩

theorem feedPacket_eq_none_iff (h : Fitted s) (bytes : Bytes) (now : Instant) :
    s.feedPacket bytes now = none ↔ s.LiftsBanner (.recv bytes now) := by
  rcases hopen : (PacketCodec.openServer s.codec bytes).2 with e | _ | ⟨packet, payload, stats⟩
  · simp [feedPacket, LiftsBanner, arrival, hopen]
  · simp [feedPacket, LiftsBanner, arrival, hopen]
  · obtain ⟨t, ht, hsized, hrows, hban, hflag, hack, hhist⟩ := noteHeaders_spec
      (s := { s with codec := (PacketCodec.openServer s.codec bytes).1 }) h.pending.sized packet.seqNum
      packet.ackSeqNum stats now
    have hnone := accept_eq_none_iff hsized (by rw [hban, hflag]; exact h.banner) packet.seqNum now
    rw [hflag, hrows] at hnone
    simp only [feedPacket, LiftsBanner, arrival, hopen, feedOpened, ht, Option.bind_some, hack]
    split
    · rename_i hle
      exact iff_of_false (Option.some_ne_none _) fun hl => Nat.not_lt.mpr hle (by simpa using hl.2.2)
    · rename_i hgt
      rw [Option.bind_eq_none_iff]
      constructor
      · intro hbind
        have haccept : t.accept packet.seqNum now = none := by
          by_contra hne
          obtain ⟨u, hu⟩ := Option.ne_none_iff_exists'.mp hne
          refine feedPayload_ne_none ((accept_mirror hu).sized hsized) ?_ _ _ _ (hbind u hu)
          rw [HistoryFormed, (accept_quiet hu).stateHistory, hhist]
          exact h.history
        exact ⟨(hnone.mp haccept).1, (hnone.mp haccept).2, _, rfl, Nat.not_le.mp hgt⟩
      · rintro ⟨hr, hz, -⟩ u hu
        rw [hnone.mpr ⟨hr, hz⟩] at hu
        cases hu

/-- STEP: an event panics only if it lifts the banner from a screen without rows. -/
theorem Fitted.step_eq_none_iff (h : Fitted s) (ev : MirrorEvent) :
    s.step ev = none ↔ s.LiftsBanner ev := by
  have hiff : s.step ev = none ↔ s.react ev = none := by
    rw [MirrorSession.step, turn, Option.map_eq_none_iff, Option.map_eq_none_iff]
  rw [hiff]
  cases ev with
  | recv bytes now => exact feedPacket_eq_none_iff h bytes now
  | stdin buf now =>
    refine iff_of_false (feedStdin_ne_none h.pending.sized buf now) ?_
    rintro ⟨_, _, _, ha, _⟩
    cases ha
  | winch cols rows now =>
    refine iff_of_false (onWinch_ne_none h.pending.sized cols rows now) ?_
    rintro ⟨_, _, _, ha, _⟩
    cases ha
  | tick now => exact onTick_eq_none_iff h.pending.sized h.banner
  | paint dest =>
    refine iff_of_false (Option.some_ne_none _) ?_
    rintro ⟨_, _, _, ha, _⟩
    cases ha

/-! ### What ends the main loop -/

/-- A datagram brings an error exactly if it completes a new frame that is out of range of its own
    dimensions, and the frame's reference is held. -/
theorem feedPacket_isOk_iff {bytes : Bytes} {r : Except Error (List ClientAction)}
    (h : s.feedPacket bytes now = some (s', r)) :
    r.isOk = false ↔ ∃ q update, s.arrival (.recv bytes now) = some (q, .frame update) ∧
      s.ackSeqNum < q ∧ (s.baseFor update).isSome ∧ s.gridOf (.frame update) = none := by
  rcases feedPacket_inv h with ⟨hno, -, rfl⟩ | ⟨packet, payload, stats, t, hopen, ht, hcase⟩
  · refine iff_of_false (by rintro ⟨⟩) ?_
    rintro ⟨q, update, harr, -⟩
    unfold arrival at harr
    dsimp only at harr
    split at harr
    · rename_i hopen
      exact hno _ hopen
    · cases harr
  · have harr : s.arrival (.recv bytes now) = some (packet.seqNum, payload) := by simp [arrival, hopen]
    rw [harr]
    rcases hcase with ⟨hle, -, rfl⟩ | ⟨hlt, u, hu, hp⟩
    · refine iff_of_false (by rintro ⟨⟩) ?_
      rintro ⟨q, update, heq, hlt, -⟩
      cases heq
      exact absurd hlt (Nat.not_lt.mpr hle)
    · have hhist : u.stateHistory = s.stateHistory :=
        (accept_quiet hu).stateHistory.trans (noteHeaders_noted ht).stateHistory
      cases payload with
      | frame update =>
        have hbase : u.baseFor update = s.baseFor update := by rw [baseFor, baseFor, hhist]
        have hgrid : u.gridOf (.frame update) = s.gridOf (.frame update) := gridOf_congr hhist
        have hiff : r.isOk = false ↔ (s.baseFor update).isSome ∧ s.gridOf (.frame update) = none := by
          rw [← hbase, ← hgrid]
          rcases feedFrame_inv hp with ⟨hb, -, rfl⟩ | ⟨base, g, hb, ⟨e, he, -, rfl⟩ | ⟨hg, _, -, -, rfl⟩⟩
          · simp [hb, Except.isOk, Except.toBool]
          · simp [gridOf, hb, he, Except.isOk, Except.toBool]
          · simp [gridOf, hb, hg, Except.isOk, Except.toBool]
        rw [hiff]
        constructor
        · exact fun hc => ⟨_, update, rfl, hlt, hc⟩
        · rintro ⟨q, update', heq, -, hc⟩
          cases heq
          exact hc
      | _ =>
        cases hp
        exact iff_of_false (by rintro ⟨⟩) (by rintro ⟨q, update, heq, -⟩; cases heq)

/-! ### The expected number -/

omit [PacketCodec C] in
/-- The number expected after a packet is the next one, or stays where it was for a late packet. -/
theorem expected_heard (r : Reception) (q : ℕ) (now : Instant) :
    (r.heard q now).expectedServerSeq = q + 1 ∨
      q < r.expectedServerSeq ∧ (r.heard q now).expectedServerSeq = r.expectedServerSeq := by
  have hloss : ∀ window expected, (lossAfter window expected q).2 = q + 1 ∨
      q < expected ∧ (lossAfter window expected q).2 = expected := by
    intro window expected
    unfold lossAfter
    dsimp only
    split
    · exact .inl rfl
    · split
      · exact .inl rfl
      · split
        · exact .inl rfl
        · exact .inr ⟨by omega, rfl⟩
  unfold Reception.heard Reception.recovered
  dsimp only
  split
  · exact .inl ((hloss [] q).resolve_right fun hlate => Nat.lt_irrefl q hlate.1)
  · exact hloss _ _

/-- Only an arrival moves the expected number. -/
theorem step_expected {ev : MirrorEvent} (hs : s.step ev = some s') :
    (s.arrival ev = none ∧ s'.expectedServerSeq = s.expectedServerSeq) ∨
      ∃ q p, s.arrival ev = some (q, p) ∧ (s'.expectedServerSeq = q + 1 ∨
        q < s.expectedServerSeq ∧ s'.expectedServerSeq = s.expectedServerSeq) := by
  have hreception : ∀ t : MirrorSession C, t.expectedServerSeq = t.reception.expectedServerSeq := fun _ => rfl
  rw [hreception s', hreception s]
  rcases step_reception hs with ⟨now, rfl, heq⟩ | ⟨bytes, now, q, p, -, harr, heq⟩ | ⟨-, harr, heq⟩
  · refine .inl ⟨rfl, ?_⟩
    rw [heq]
    split
    · exact (s.reception.atTick_heard now).2.2
    · rfl
  · have hsame : s'.reception.expectedServerSeq = (s.reception.heard q now).expectedServerSeq := by
      rw [heq]
      split <;> rfl
    rw [hsame]
    exact .inr ⟨q, p, harr, expected_heard s.reception q now⟩
  · exact .inl ⟨harr, congrArg Reception.expectedServerSeq heq⟩

/-! ### Runs -/

/-- The number that arrives is a u64. -/
def InRange (s : MirrorSession C) (ev : MirrorEvent) : Prop := ∀ a ∈ s.arrival ev, a.1 < 2 ^ 64

/-- The event returns, and the number after the one that came does not overflow. -/
def Survives (s : MirrorSession C) (ev : MirrorEvent) : Prop :=
  ∃ s', s.step ev = some s' ∧ s'.expectedServerSeq < 2 ^ 64

/-- No banner is lifted from a screen without rows, and no packet with the last number arrives. -/
def Harmless (s : MirrorSession C) (ev : MirrorEvent) : Prop :=
  ¬ s.LiftsBanner ev ∧ ∀ a ∈ s.arrival ev, a.1 ≠ 2 ^ 64 - 1

instance (s : MirrorSession C) : (ev : MirrorEvent) → Decidable (s.LiftsBanner ev)
  | .tick _ | .recv .. | .stdin .. | .winch .. | .paint _ => inferInstanceAs (Decidable (_ ∧ _ ∧ _))

instance (s : MirrorSession C) (ev : MirrorEvent) : Decidable (s.InRange ev) :=
  inferInstanceAs (Decidable (∀ a ∈ s.arrival ev, a.1 < 2 ^ 64))

instance (s : MirrorSession C) (ev : MirrorEvent) : Decidable (s.Harmless ev) :=
  inferInstanceAs (Decidable (¬ _ ∧ _))

omit [PacketCodec C] in
theorem fitted_new (sid : ℕ) (codec : C) (e₀ cols rows : ℕ) (overlay : Bool) (now : Instant) :
    Fitted (new sid codec e₀ cols rows overlay now) :=
  ⟨pending_new .., rfl, nofun⟩

/-- STEP: an event survives exactly under the condition. -/
theorem survives_iff {ev : MirrorEvent} (h : Fitted s) (hexp : s.expectedServerSeq < 2 ^ 64)
    (hr : s.InRange ev) : s.Survives ev ↔ s.Harmless ev := by
  constructor
  · rintro ⟨s', hs, hfit⟩
    refine ⟨fun hlift => ?_, fun ⟨q, p⟩ harr heq => ?_⟩
    · rw [(h.step_eq_none_iff ev).mpr hlift] at hs
      cases hs
    · -- the last number is not a late one, so the expected number moves past it
      rcases step_expected hs with ⟨hnone, -⟩ | ⟨q', p', harr', hmove⟩
      · exact absurd (hnone.symm.trans harr) nofun
      · obtain ⟨rfl, -⟩ := Prod.mk.inj (Option.some.inj (harr.symm.trans harr'))
        dsimp only at heq
        omega
  · intro hq
    obtain ⟨s', hs⟩ : ∃ s', s.step ev = some s' :=
      Option.ne_none_iff_exists'.mp fun hnone => hq.1 ((h.step_eq_none_iff ev).mp hnone)
    refine ⟨s', hs, ?_⟩
    rcases step_expected hs with ⟨-, heq⟩ | ⟨q, p, harr, heq | ⟨-, heq⟩⟩
    · exact heq ▸ hexp
    · have hlt : q < 2 ^ 64 := hr (q, p) harr
      have hne : q ≠ 2 ^ 64 - 1 := hq.2 (q, p) harr
      omega
    · exact heq ▸ hexp

/-- On a screen without rows that datagram is not survived. -/
example : ¬ StepsMeet step Harmless (new (2 ^ 32) oneCell.codec 1 1 0 false 0)
    [.tick (millis 6000), .recv Arq.ackDatagram (millis 7000)] := by
  decide +kernel

end MirrorSession

end Rumsh.Client
