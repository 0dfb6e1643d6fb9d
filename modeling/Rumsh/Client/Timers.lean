import Rumsh.Client.Staleness
import Rumsh.Client.Sealing

/-! What each operation does to the client's clocks and gauges.

    They are the fields that only the arrival of a packet and the timers change: the `Reception`, with
    the time of the last fresh packet, the heartbeat and the loss window, and the table of frames asked
    for again. Sealing, drawing and painting leave all of them alone. -/

namespace Rumsh.Client
open Std Rumsh.Schemes Rumsh.Protocol

/-- When an event happens; painting reads no clock. -/
def MirrorEvent.time : MirrorEvent → Option Instant
  | .recv _ now => some now
  | .stdin _ now => some now
  | .winch _ _ now => some now
  | .tick now => some now
  | .paint _ => none

/-- What a timer tells about the time it last ran. -/
theorem elapsed_le {last now gap : ℕ} (hgap : 0 < gap) (h : now - last ≥ gap) : last + gap ≤ now := by
  omega

structure Reception where
  lastRecvTime : Instant
  keepaliveInterval : ℕ
  isReconnecting : Bool
  expectedServerSeq : ℕ
  lossWindow : List Bool

/-- What a tick makes of it: banner and heartbeat change together, when the silence crosses 5 s. -/
def Reception.atTick (r : Reception) (now : Instant) : Reception :=
  if r.isReconnecting ≠ decide (now - r.lastRecvTime > millis 5000) then
    { r with isReconnecting := decide (now - r.lastRecvTime > millis 5000),
             keepaliveInterval := MirrorSession.outageInterval (now - r.lastRecvTime) }
  else r

/-- A tick hears nothing. -/
theorem Reception.atTick_heard (r : Reception) (now : Instant) :
    (r.atTick now).lastRecvTime = r.lastRecvTime ∧ (r.atTick now).lossWindow = r.lossWindow ∧
      (r.atTick now).expectedServerSeq = r.expectedServerSeq := by
  unfold atTick
  split <;> exact ⟨rfl, rfl, rfl⟩

/-- The loss window and the number expected next, after a packet. -/
def lossAfter (window : List Bool) (expected seq : ℕ) : List Bool × ℕ :=
  let (window, expected) :=
    if expected = 0 then (window, seq + 1)
    else if seq > expected then
      (window ++ List.replicate (seq - expected) false ++ [true], seq + 1)
    else if seq = expected then (window ++ [true], seq + 1)
    else (MirrorSession.correctLate window (expected - 1 - seq), expected)
  (window.drop (window.length - 100), expected)

/-- After an outage the loss window starts anew. -/
def Reception.recovered (r : Reception) (seq : ℕ) (now : Instant) : Reception :=
  if now - r.lastRecvTime > secs 5 then { r with lossWindow := [], expectedServerSeq := seq } else r

/-- What the header of a packet makes of it. -/
def Reception.heard (r : Reception) (seq : ℕ) (now : Instant) : Reception :=
  let r := r.recovered seq now
  { r with lossWindow := (lossAfter r.lossWindow r.expectedServerSeq seq).1,
           expectedServerSeq := (lossAfter r.lossWindow r.expectedServerSeq seq).2 }

/-- What a fresh packet makes of it. -/
def Reception.accepted (r : Reception) (now : Instant) : Reception :=
  { r with lastRecvTime := now, keepaliveInterval := secs 2, isReconnecting := false }

/-- A header moves the loss window only. -/
theorem Reception.heard_clocks (r : Reception) (seq : ℕ) (now : Instant) :
    (r.heard seq now).lastRecvTime = r.lastRecvTime ∧
      (r.heard seq now).isReconnecting = r.isReconnecting ∧
      (r.heard seq now).keepaliveInterval = r.keepaliveInterval := by
  unfold heard recovered
  split <;> exact ⟨rfl, rfl, rfl⟩

namespace MirrorSession
variable {C : Type}

def reception (s : MirrorSession C) : Reception :=
  { lastRecvTime := s.lastRecvTime, keepaliveInterval := s.keepaliveInterval,
    isReconnecting := s.isReconnecting, expectedServerSeq := s.expectedServerSeq,
    lossWindow := s.lossWindow }

/-- The time of the last NACK check, and when each frame was asked for. -/
def nackTable (s : MirrorSession C) : Instant × TreeMap ℕ Instant := (s.lastNackCheck, s.nackedFrames)

def timers (s : MirrorSession C) : Reception × Instant × TreeMap ℕ Instant :=
  (s.reception, s.nackTable)

variable {s s' : MirrorSession C}

/-! ### Operations that touch none -/

theorem tickTelemetry_timers (s : MirrorSession C) (now : Instant) :
    (s.tickTelemetry now).1.timers = s.timers := by
  obtain heq | ⟨_, _, _, heq⟩ := tickTelemetry_inv s now
  · rw [heq]
  · rw [heq]
    rfl

theorem tickArq_timers (s : MirrorSession C) (now : Instant) :
    (s.tickArq now).1.timers = s.timers := by
  obtain ⟨_, _, hframe⟩ := tickArq_frame s now
  rw [hframe]
  rfl

theorem copyFrameIfDirty_timers (s : MirrorSession C) (dest : TerminalFrame) :
    (s.copyFrameIfDirty dest).1.timers = s.timers := by
  obtain ⟨_, _, hframe⟩ := copyFrameIfDirty_frame s dest
  rw [hframe]
  rfl

theorem showFrame_timers {seq : ℕ} {g : GridState} {echo : Bool} (h : s.showFrame seq g echo = some s') :
    s'.timers = s.timers := by
  obtain ⟨_, _, -, -, rfl⟩ := showFrame_inv h
  rfl

variable [PacketCodec C]

theorem prepareReliable_timers {payload : ClientPayload} {now : Instant}
    {r : Except Error (Bytes × ℕ)} (h : s.prepareReliable payload now = (s', r)) :
    s'.timers = s.timers := by
  obtain ⟨_, _, _, _, rfl⟩ := prepareReliable_frame h
  rfl

theorem sendAck_timers (s : MirrorSession C) (now : Instant) :
    (s.sendAck now).1.timers = s.timers := by
  obtain ⟨_, _, hframe⟩ := sendAck_frame s now
  rw [hframe]
  rfl

theorem ackIfDue_timers (s : MirrorSession C) (now : Instant) :
    (s.ackIfDue now).1.timers = s.timers := by
  obtain ⟨_, _, _, hframe⟩ := ackIfDue_frame s now
  rw [hframe]
  rfl

theorem feedStdin_timers {buf : Bytes} {now : Instant} {r : Except Error (List ClientAction)}
    (h : s.feedStdin buf now = some (s', r)) : s'.timers = s.timers := by
  obtain ⟨_, _, rfl | ⟨_, t, _, _, ht, rfl⟩⟩ := feedStdin_frame h
  · rfl
  · have htimers := prepareReliable_timers ht
    exact htimers

theorem onWinch_timers {cols rows : ℕ} {now : Instant} {r : Except Error (List ClientAction)}
    (h : s.onWinch cols rows now = some (s', r)) : s'.timers = s.timers := by
  obtain ⟨t, _, _, ht, rfl⟩ := onWinch_frame h
  have htimers := prepareReliable_timers ht
  exact htimers

theorem tickKeepalive_timers {now : Instant} {r : Except Error (List ClientAction)}
    (h : s.tickKeepalive now = (s', r)) : s'.timers = s.timers := by
  rcases tickKeepalive_inv h with ⟨rfl, -⟩ | ⟨_, ht, -⟩
  · rfl
  · have htimers := prepareReliable_timers ht
    exact htimers

theorem feedPayload_timers {seq : ℕ} {payload : ServerPayload} {now : Instant}
    {r : Except Error (List ClientAction)} (h : s.feedPayload seq payload now = some (s', r)) :
    s'.timers = s.timers := by
  obtain rfl | rfl | ⟨g, echo, t, ht, rfl⟩ := feedPayload_inv h
  · rfl
  · exact sendAck_timers s now
  · exact (ackIfDue_timers t now).trans (showFrame_timers ht)

/-! ### Operations that do -/

omit [PacketCodec C] in
theorem tickBanner_timers {now : Instant} {actions : List ClientAction}
    (h : s.tickBanner now = some (s', actions)) :
    s'.nackTable = s.nackTable ∧ s'.reception = s.reception.atTick now := by
  unfold Reception.atTick
  rcases tickBanner_inv h with ⟨heq, rfl, -⟩ | ⟨_, _, rfl, hne, -, -, rfl⟩
  · exact ⟨rfl, (if_neg (not_not.mpr heq)).symm⟩
  · exact ⟨rfl, (if_pos hne).symm⟩

theorem tickNack_reception {now : Instant} {r : Except Error (List ClientAction)}
    (h : s.tickNack now = (s', r)) : s'.reception = s.reception := by
  obtain ⟨_, _, _, _, rfl⟩ := tickNack_frame h
  rfl

/-- INVERSION: a tick fails at its keepalive, or comes to the banner and then to the NACKs. -/
theorem onTick_timers {now : Instant} {r : Except Error (List ClientAction)}
    (h : s.onTick now = some (s', r)) :
    ∃ (u : MirrorSession C) (calls : List Call), Seals s u calls ∧ (∀ c ∈ calls, c.2.2 = .keepAlive) ∧
      u.nackTable = s.nackTable ∧
      (((s.tickKeepalive now).2.isOk = false ∧ s' = u ∧ u.reception = s.reception) ∨
      ((s.tickKeepalive now).2.isOk = true ∧ s' = (u.tickNack now).1 ∧
        u.reception = s.reception.atTick now)) := by
  rcases onTick_inv h with ⟨e, hk, -⟩ | ⟨t, keepalive, u, banner, nacks, hk, hb, hn, -⟩
  · obtain ⟨calls, hcalls, hkeep⟩ := tickKeepalive_seals hk
    have ht := tickKeepalive_timers hk
    exact ⟨_, calls, hcalls, hkeep, congrArg Prod.snd ht,
      .inl ⟨by rw [hk]; rfl, rfl, congrArg Prod.fst ht⟩⟩
  · have harq : (t.tickArq now).1.timers = s.timers :=
      (tickArq_timers t now).trans (tickKeepalive_timers hk)
    obtain ⟨hnack, hrec⟩ := tickBanner_timers hb
    have htel := tickTelemetry_timers u now
    obtain ⟨calls, hcalls, hkeep⟩ := tickKeepalive_seals hk
    have hban := (tickBanner_quiet hb).1.seals (tickBanner_counters hb)
    have hq := (tickTelemetry_quiet u now).1.seals (tickTelemetry_counters u now)
    have hall := ((hcalls.trans (tickArq_seals t now)).trans hban).trans hq
    simp only [List.append_nil] at hall
    refine ⟨(u.tickTelemetry now).1, calls, hall, hkeep, ?_,
      .inr ⟨by rw [hk]; rfl, (congrArg Prod.fst hn).symm, ?_⟩⟩
    · exact (congrArg Prod.snd htel).trans (hnack.trans (congrArg Prod.snd harq))
    · have hr : (t.tickArq now).1.reception = s.reception := congrArg Prod.fst harq
      rw [hr] at hrec
      exact (congrArg Prod.fst htel).trans hrec

omit [PacketCodec C] in
theorem noteRecovery_reception (s : MirrorSession C) (seq : ℕ) (now : Instant) :
    (s.noteRecovery seq now).nackTable = s.nackTable ∧
      (s.noteRecovery seq now).reception = s.reception.recovered seq now := by
  unfold noteRecovery
  by_cases hout : now - s.lastRecvTime > secs 5
  · have hrec : s.isRecovering now = true := decide_eq_true hout
    rw [if_pos hrec]
    exact ⟨rfl, (if_pos hout).symm⟩
  · have hrec : ¬ s.isRecovering now = true := by simpa [isRecovering] using hout
    rw [if_neg hrec]
    exact ⟨rfl, (if_neg hout).symm⟩

omit [PacketCodec C] in
theorem noteHeaders_timers {seq ack : ℕ} {stats : CodecStats} {now : Instant}
    (h : s.noteHeaders seq ack stats now = some s') :
    s'.nackTable = s.nackTable ∧ s'.reception = s.reception.heard seq now := by
  obtain ⟨mirror, -, rfl⟩ := Option.map_eq_some_iff.mp h
  obtain ⟨hnack, hrec⟩ := noteRecovery_reception (s.countStats stats) seq now
  refine ⟨hnack, ?_⟩
  have hstart : (s.countStats stats).reception = s.reception := rfl
  rw [hstart] at hrec
  rw [Reception.heard, ← hrec]
  rfl

omit [PacketCodec C] in
theorem accept_timers {seq : ℕ} {now : Instant} (h : s.accept seq now = some s') :
    s'.nackTable = s.nackTable ∧ s'.reception = s.reception.accepted now := by
  obtain ⟨_, -, rfl⟩ := accept_inv h
  exact ⟨rfl, rfl⟩

/-- INVERSION: only a packet that opens changes them, a fresh one more than a stale one. -/
theorem feedPacket_timers {bytes : Bytes} {now : Instant} {r : Except Error (List ClientAction)}
    (h : s.feedPacket bytes now = some (s', r)) :
    s'.nackTable = s.nackTable ∧
    (((∀ x, (PacketCodec.openServer s.codec bytes).2 ≠ .ok (some x)) ∧
      s'.reception = s.reception) ∨
    ∃ packet payload stats,
      (PacketCodec.openServer s.codec bytes).2 = .ok (some (packet, payload, stats)) ∧
      s'.reception = if packet.seqNum ≤ s.ackSeqNum then s.reception.heard packet.seqNum now
        else (s.reception.heard packet.seqNum now).accepted now) := by
  rcases feedPacket_inv h with ⟨hnone, rfl, -⟩ | ⟨packet, payload, stats, t, hopen, ht, hcase⟩
  · exact ⟨rfl, .inl ⟨hnone, rfl⟩⟩
  · obtain ⟨hnack, hrec⟩ := noteHeaders_timers ht
    rcases hcase with ⟨hle, rfl, -⟩ | ⟨hlt, u, hu, hp⟩
    · exact ⟨hnack, .inr ⟨packet, payload, stats, hopen, hrec.trans (if_pos hle).symm⟩⟩
    · obtain ⟨hnack', hrec'⟩ := accept_timers hu
      have hpay := feedPayload_timers hp
      refine ⟨(congrArg Prod.snd hpay).trans (hnack'.trans hnack),
        .inr ⟨packet, payload, stats, hopen, ?_⟩⟩
      rw [if_neg (Nat.not_le.mpr hlt)]
      have hrec₀ : t.reception = s.reception.heard packet.seqNum now := hrec
      rw [hrec₀] at hrec'
      exact (congrArg Prod.fst hpay).trans hrec'

/-- INVERSION: the reception after an event. A tick whose keepalive fails leaves before its banner. -/
theorem step_reception {ev : MirrorEvent} (h : s.step ev = some s') :
    (∃ now, ev = .tick now ∧ s'.reception =
      if (s.tickKeepalive now).2.isOk then s.reception.atTick now else s.reception) ∨
    (∃ bytes now q p, ev = .recv bytes now ∧ s.arrival ev = some (q, p) ∧
      s'.reception = if q ≤ s.ackSeqNum then s.reception.heard q now
        else (s.reception.heard q now).accepted now) ∨
    ((∀ now, ev ≠ .tick now) ∧ s.arrival ev = none ∧ s'.reception = s.reception) := by
  obtain ⟨r, hr⟩ := step_eq_some_iff.mp h
  cases ev with
  | recv bytes now =>
    rcases (feedPacket_timers hr).2 with ⟨hnone, hrec⟩ | ⟨packet, payload, stats, hopen, hrec⟩
    · refine .inr (.inr ⟨by simp, ?_, hrec⟩)
      unfold arrival
      dsimp only
      split
      · rename_i hopen
        exact absurd hopen (hnone _)
      · rfl
    · have harr : s.arrival (.recv bytes now) = some (packet.seqNum, payload) := by
        simp [arrival, hopen]
      exact .inr (.inl ⟨bytes, now, _, _, rfl, harr, hrec⟩)
  | tick now =>
    refine .inl ⟨now, rfl, ?_⟩
    obtain ⟨u, calls, -, -, -, ⟨hk, rfl, hu⟩ | ⟨hk, rfl, hu⟩⟩ := onTick_timers hr
    · rw [if_neg (by simp [hk])]
      exact hu
    · rw [if_pos hk, ← hu]
      exact tickNack_reception rfl
  | stdin buf now => exact .inr (.inr ⟨by simp, rfl, congrArg Prod.fst (feedStdin_timers hr)⟩)
  | winch cols rows now => exact .inr (.inr ⟨by simp, rfl, congrArg Prod.fst (onWinch_timers hr)⟩)
  | paint dest =>
    cases hr
    exact .inr (.inr ⟨by simp, rfl, congrArg Prod.fst (copyFrameIfDirty_timers s dest)⟩)

/-- A session of one cell that expects packet 1, for the runs on fixed inputs. -/
def oneCell : MirrorSession (ChaChaCodec Bincode.crates) :=
  .new (2 ^ 32) (ChaChaCodec.new Bincode.crates (Vector.replicate 32 0) (2 ^ 32)) 1 1 1 false 0

end MirrorSession

end Rumsh.Client
