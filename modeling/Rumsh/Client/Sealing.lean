import Rumsh.Client.Steps

/-! What each operation of the client's session seals.

    `Seals` is the ledger of an operation: its `seal_client` calls in order, the numbers they take from
    the two counters, and what becomes of the table of unacknowledged datagrams. The table is seen as a
    function from numbers to bytes, so that ledgers compose. -/

namespace Rumsh.Client
open Std Rumsh.Protocol

namespace MirrorSession
variable {C : Type}

/-- A `seal_client` call: number, ack and payload. -/
abbrev Call := ℕ × ℕ × ClientPayload

/-- The unacknowledged datagrams, without their times. -/
def stored (s : MirrorSession C) (n : ℕ) : Option Bytes := (s.unackedPackets[n]?).map Prod.fst

variable [PacketCodec C]

/-- A sealed reliable packet is stored under its number. -/
def storeCall (codec : C) (sid : ℕ) (table : ℕ → Option Bytes) (call : Call) : ℕ → Option Bytes :=
  match isReliable call.2.2, PacketCodec.sealClient codec sid call.1 call.2.1 call.2.2 with
  | true, .ok bytes => Function.update table call.1 (some bytes)
  | _, _ => table

/-- What was sealed so far, and under how many numbers of the high half. -/
def counters (s : MirrorSession C) : List Call × ℕ := (s.sealedCalls, s.transientSeqNum)

/-- The ledger of an operation. -/
structure Seals (s s' : MirrorSession C) (calls : List Call) : Prop where
  sessionId : s'.sessionId = s.sessionId
  ackSeqNum : s'.ackSeqNum = s.ackSeqNum
  codec : s'.codec = s.codec
  sealedCalls : s'.sealedCalls = s.sealedCalls ++ calls
  acks : ∀ c ∈ calls, c.2.1 = s.ackSeqNum
  seqNum_le : s.seqNum ≤ s'.seqNum
  transient_le : s.transientSeqNum ≤ s'.transientSeqNum
  reliable : (calls.filter fun c => isReliable c.2.2).map Prod.fst =
    List.range' (s.seqNum + 1) (s'.seqNum - s.seqNum)
  transient : (calls.filter fun c => !isReliable c.2.2).map Prod.fst =
    (List.range' (s.transientSeqNum + 1) (s'.transientSeqNum - s.transientSeqNum)).map (1 <<< 63 ||| ·)
  stored : s'.stored = calls.foldl (storeCall s.codec s.sessionId) s.stored

variable {s s' s'' : MirrorSession C} {calls calls' : List Call}

/-- Two stretches of numbers, one after the other. -/
theorem range'_trans {a b c : ℕ} (hab : a ≤ b) (hbc : b ≤ c) :
    List.range' (a + 1) (b - a) ++ List.range' (b + 1) (c - b) = List.range' (a + 1) (c - a) := by
  have h := List.range'_append_1 (s := a + 1) (m := b - a) (n := c - b)
  rw [show a + 1 + (b - a) = b + 1 by omega, show b - a + (c - b) = c - a by omega] at h
  exact h

theorem Seals.trans (h : Seals s s' calls) (h' : Seals s' s'' calls') :
    Seals s s'' (calls ++ calls') where
  sessionId := h'.sessionId.trans h.sessionId
  ackSeqNum := h'.ackSeqNum.trans h.ackSeqNum
  codec := h'.codec.trans h.codec
  sealedCalls := by rw [h'.sealedCalls, h.sealedCalls, List.append_assoc]
  acks c hc := by
    rcases List.mem_append.mp hc with hc | hc
    · exact h.acks c hc
    · exact (h'.acks c hc).trans h.ackSeqNum
  seqNum_le := h.seqNum_le.trans h'.seqNum_le
  transient_le := h.transient_le.trans h'.transient_le
  reliable := by
    rw [List.filter_append, List.map_append, h.reliable, h'.reliable]
    exact range'_trans h.seqNum_le h'.seqNum_le
  transient := by
    rw [List.filter_append, List.map_append, h.transient, h'.transient, ← List.map_append]
    rw [range'_trans h.transient_le h'.transient_le]
  stored := by
    rw [h'.stored, h.stored, h.codec, h.sessionId, List.foldl_append]

/-- The operation seals nothing and stores nothing. -/
theorem Quiet.seals (h : Quiet s s') (hcount : s'.counters = s.counters) : Seals s s' [] := by
  have hcalls : s'.sealedCalls = s.sealedCalls := congrArg Prod.fst hcount
  have htrans : s'.transientSeqNum = s.transientSeqNum := congrArg Prod.snd hcount
  exact
    { sessionId := h.sessionId, ackSeqNum := h.ackSeqNum, codec := h.codec
      sealedCalls := by rw [hcalls, List.append_nil]
      acks := by simp
      seqNum_le := h.seqNum.ge
      transient_le := htrans.ge
      reliable := by simp [h.seqNum]
      transient := by simp [htrans]
      stored := funext fun n => by simp [MirrorSession.stored, h.unackedPackets] }

theorem Seals.refl (s : MirrorSession C) : Seals s s [] := (Quiet.refl s).seals rfl

/-! ### The two counters -/

theorem prepareReliable_seals {payload : ClientPayload} {now : Instant}
    {r : Except Error (Bytes × ℕ)} (hp : isReliable payload = true)
    (h : s.prepareReliable payload now = (s', r)) :
    Seals s s' [(s.seqNum + 1, s.ackSeqNum, payload)] := by
  obtain ⟨t, rfl, ⟨e, hseal, rfl, -⟩ | ⟨bytes, hseal, rfl, -⟩⟩ := prepareReliable_inv h
  · refine { sessionId := rfl, ackSeqNum := rfl, codec := rfl, sealedCalls := rfl, acks := by simp
             seqNum_le := Nat.le_succ _, transient_le := Nat.le_refl _, reliable := ?_
             transient := ?_, stored := ?_ }
    · simp [hp]
    · simp [hp]
    · simp only [List.foldl_cons, List.foldl_nil, storeCall, hp]
      rw [hseal]
      rfl
  · refine { sessionId := rfl, ackSeqNum := rfl, codec := rfl, sealedCalls := rfl, acks := by simp
             seqNum_le := Nat.le_succ _, transient_le := Nat.le_refl _, reliable := ?_
             transient := ?_, stored := ?_ }
    · simp [hp]
    · simp [hp]
    · simp only [List.foldl_cons, List.foldl_nil, storeCall, hp]
      rw [hseal]
      funext n
      simp only [stored, TreeMap.getElem?_insert, Nat.compare_eq_eq, Function.update_apply]
      by_cases hn : s.seqNum + 1 = n
      · rw [if_pos hn, if_pos hn.symm, Option.map_some]
      · rw [if_neg hn, if_neg (Ne.symm hn)]

theorem prepareTransient_seals {payload : ClientPayload} {r : Except Error Bytes}
    (hp : isReliable payload = false) (h : s.prepareTransient payload = (s', r)) :
    Seals s s' [(1 <<< 63 ||| (s.transientSeqNum + 1), s.ackSeqNum, payload)] := by
  obtain ⟨rfl, -⟩ := Prod.mk.inj h
  refine { sessionId := rfl, ackSeqNum := rfl, codec := rfl, sealedCalls := rfl, acks := by simp
           seqNum_le := Nat.le_refl _, transient_le := Nat.le_succ _, reliable := ?_
           transient := ?_, stored := ?_ }
  · simp [hp]
  · simp [hp]
  · simp only [List.foldl_cons, List.foldl_nil, storeCall, hp]
    rfl

/-! ### Operations that seal nothing -/

omit [PacketCodec C] in
theorem tickBanner_counters {now : Instant} {actions : List ClientAction}
    (h : s.tickBanner now = some (s', actions)) : s'.counters = s.counters := by
  rcases tickBanner_inv h with ⟨-, rfl, -⟩ | ⟨_, _, -, -, -, -, rfl⟩
  · rfl
  · rfl

omit [PacketCodec C] in
theorem tickTelemetry_counters (s : MirrorSession C) (now : Instant) :
    (s.tickTelemetry now).1.counters = s.counters := by
  obtain heq | ⟨_, _, _, heq⟩ := tickTelemetry_inv s now
  · rw [heq]
  · rw [heq]
    rfl

omit [PacketCodec C] in
theorem noteHeaders_counters {seq ack : ℕ} {stats : CodecStats} {now : Instant}
    (h : s.noteHeaders seq ack stats now = some s') : s'.counters = s.counters := by
  obtain ⟨_, _, _, _, _, -, rfl⟩ := noteHeaders_inv h
  rfl

omit [PacketCodec C] in
theorem accept_counters {seq : ℕ} {now : Instant} (h : s.accept seq now = some s') :
    s'.counters = s.counters := by
  obtain ⟨_, -, rfl⟩ := accept_inv h
  rfl

theorem showFrame_seals {seq : ℕ} {g : GridState} {echo : Bool}
    (h : s.showFrame seq g echo = some s') : Seals s s' [] := by
  obtain ⟨_, _, -, -, rfl⟩ := showFrame_inv h
  exact { sessionId := rfl, ackSeqNum := rfl, codec := rfl, sealedCalls := by simp, acks := by simp
          seqNum_le := Nat.le_refl _, transient_le := Nat.le_refl _, reliable := by simp
          transient := by simp, stored := rfl }

/-- The retransmission changes the times only. -/
theorem tickArq_seals (s : MirrorSession C) (now : Instant) : Seals s (s.tickArq now).1 [] := by
  have hstored : (s.tickArq now).1.stored = s.stored := by
    funext n
    unfold tickArq
    split
    · simp only [stored, TreeMap.getElem?_map, Option.map_map]
      rfl
    · rfl
  refine { sessionId := ?_, ackSeqNum := ?_, codec := ?_, sealedCalls := ?_, acks := by simp
           seqNum_le := ?_, transient_le := ?_, reliable := ?_, transient := ?_, stored := hstored }
    <;> unfold tickArq <;> split <;> simp

/-! ### Input -/

/-- Stdin seals at most one packet of keystrokes. -/
theorem feedStdin_seals {buf : Bytes} {now : Instant} {r : Except Error (List ClientAction)}
    (h : s.feedStdin buf now = some (s', r)) :
    ∃ calls, Seals s s' calls ∧ ∀ c ∈ calls, isReliable c.2.2 = true := by
  have hq : ∀ (t : MirrorSession C) i m, Quiet t { t with interpreter := i, mirror := m } :=
    fun _ _ _ => ⟨rfl, rfl, rfl, rfl, rfl, rfl, rfl, rfl⟩
  obtain ⟨interpreter, mirror, rfl | ⟨keys, t, res, mirror', ht, rfl⟩⟩ := feedStdin_frame h
  · exact ⟨[], (hq s _ _).seals rfl, by simp⟩
  · have hseals := ((hq s interpreter mirror).seals rfl).trans (prepareReliable_seals rfl ht)
    exact ⟨_, hseals.trans ((hq t _ _).seals rfl), by simp [isReliable]⟩

theorem onWinch_seals {cols rows : ℕ} {now : Instant} {r : Except Error (List ClientAction)}
    (h : s.onWinch cols rows now = some (s', r)) :
    Seals s s' [(s.seqNum + 1, s.ackSeqNum, .resize cols rows)] := by
  obtain ⟨t, res, mirror, ht, rfl⟩ := onWinch_frame h
  have hq : Quiet t { t with mirror } := ⟨rfl, rfl, rfl, rfl, rfl, rfl, rfl, rfl⟩
  exact (prepareReliable_seals rfl ht).trans (hq.seals rfl)

/-! ### Timers -/

theorem tickKeepalive_seals {now : Instant} {r : Except Error (List ClientAction)}
    (h : s.tickKeepalive now = (s', r)) :
    ∃ calls, Seals s s' calls ∧ ∀ c ∈ calls, c.2.2 = .keepAlive := by
  have hq : Quiet s { s with lastKeepaliveSent := now } := ⟨rfl, rfl, rfl, rfl, rfl, rfl, rfl, rfl⟩
  rcases tickKeepalive_inv h with ⟨rfl, -⟩ | ⟨res, ht, -⟩
  · exact ⟨[], .refl s', by simp⟩
  · exact ⟨_, (hq.seals rfl).trans (prepareReliable_seals rfl ht), by simp⟩

/-- The loop seals one NACK for each frame it asks for. -/
theorem nackAll_seals {now : Instant} {incomplete : List (ℕ × List ℕ)} {actions : List ClientAction}
    {r : Except Error (List ClientAction)} (h : nackAll now incomplete s actions = (s', r)) :
    ∃ calls, Seals s s' calls ∧ ∀ c ∈ calls, ∃ f m, c.2.2 = .fragmentNack f m := by
  induction incomplete generalizing s actions with
  | nil =>
    cases h
    exact ⟨[], .refl _, by simp⟩
  | cons e rest ih =>
    rcases nackAll_cons_inv h with hrest | ⟨-, t, res, ht, hcase⟩
    · exact ih hrest
    · have hq : Quiet s { s with nackedFrames := s.nackedFrames.insert e.1 now } :=
        ⟨rfl, rfl, rfl, rfl, rfl, rfl, rfl, rfl⟩
      have hseals := (hq.seals rfl).trans (prepareTransient_seals rfl ht)
      rcases hcase with ⟨_, -, rfl, -⟩ | ⟨bytes, -, hrest⟩
      · exact ⟨_, hseals, by simp⟩
      · obtain ⟨calls, hcalls, hnack⟩ := ih hrest
        refine ⟨_, hseals.trans hcalls, ?_⟩
        intro c hc
        rcases List.mem_append.mp hc with hc | hc
        · rw [List.nil_append] at hc
          rw [List.mem_singleton.mp hc]
          exact ⟨_, _, rfl⟩
        · exact hnack c hc

theorem tickNack_seals {now : Instant} {r : Except Error (List ClientAction)}
    (h : s.tickNack now = (s', r)) :
    ∃ calls, Seals s s' calls ∧ ∀ c ∈ calls, ∃ f m, c.2.2 = .fragmentNack f m := by
  rcases tickNack_inv h with ⟨rfl, -⟩ | ⟨-, t, ht, hcase⟩
  · exact ⟨[], .refl s', by simp⟩
  · have hq : Quiet s { s with lastNackCheck := now } := ⟨rfl, rfl, rfl, rfl, rfl, rfl, rfl, rfl⟩
    obtain ⟨calls, hcalls, hnack⟩ := nackAll_seals ht
    rcases hcase with ⟨_, -, rfl⟩ | ⟨_, -, rfl⟩
    · exact ⟨calls, (hq.seals rfl).trans hcalls, hnack⟩
    · have hq' : ∀ m, Quiet t { t with nackedFrames := m } := fun _ =>
        ⟨rfl, rfl, rfl, rfl, rfl, rfl, rfl, rfl⟩
      have hall : ∀ m, Seals s { t with nackedFrames := m } (calls ++ []) := fun m =>
        ((hq.seals rfl).trans hcalls).trans ((hq' m).seals rfl)
      rw [List.append_nil] at hall
      exact ⟨calls, hall _, hnack⟩

theorem onTick_seals {now : Instant} {r : Except Error (List ClientAction)}
    (h : s.onTick now = some (s', r)) : ∃ calls, Seals s s' calls := by
  rcases onTick_inv h with ⟨e, hk, -⟩ | ⟨t, keepalive, u, banner, nacks, hk, hb, hn, -⟩
  · obtain ⟨calls, hcalls, -⟩ := tickKeepalive_seals hk
    exact ⟨calls, hcalls⟩
  · obtain ⟨calls, hcalls, -⟩ := tickKeepalive_seals hk
    have hban := (tickBanner_quiet hb).1.seals (tickBanner_counters hb)
    have htel := (tickTelemetry_quiet u now).1.seals (tickTelemetry_counters u now)
    obtain ⟨nackCalls, hnacks, -⟩ := tickNack_seals hn
    exact ⟨_, (((hcalls.trans (tickArq_seals t now)).trans hban).trans htel).trans hnacks⟩

/-! ### Datagrams -/

theorem sendAck_seals (s : MirrorSession C) (now : Instant) :
    ∃ n, Seals s (s.sendAck now).1 [(n, s.ackSeqNum, .ack)] := by
  have hq : Quiet s { s with lastAckSent := now } := ⟨rfl, rfl, rfl, rfl, rfl, rfl, rfl, rfl⟩
  obtain ⟨res, ht, -⟩ := sendAck_inv (show s.sendAck now = (_, _) from rfl)
  exact ⟨_, (hq.seals rfl).trans (prepareTransient_seals rfl ht)⟩

theorem ackIfDue_seals (s : MirrorSession C) (now : Instant) :
    ∃ calls, Seals s (s.ackIfDue now).1 calls ∧ ∀ c ∈ calls, c.2.2 = .ack := by
  obtain heq | heq := ackIfDue_inv s now
  · rw [heq]
    obtain ⟨n, h⟩ := sendAck_seals s now
    exact ⟨_, h, by simp⟩
  · rw [heq]
    exact ⟨[], .refl s, by simp⟩

/-- A payload of the server is answered by acks only. -/
theorem feedPayload_seals {seq : ℕ} {payload : ServerPayload} {now : Instant}
    {r : Except Error (List ClientAction)} (h : s.feedPayload seq payload now = some (s', r)) :
    ∃ calls, Seals s s' calls ∧ ∀ c ∈ calls, c.2.2 = .ack := by
  obtain rfl | rfl | ⟨g, echo, t, ht, rfl⟩ := feedPayload_inv h
  · exact ⟨[], .refl s', by simp⟩
  · obtain ⟨n, hseals⟩ := sendAck_seals s now
    exact ⟨_, hseals, by simp⟩
  · obtain ⟨calls, hcalls, hack⟩ := ackIfDue_seals t now
    exact ⟨calls, (showFrame_seals ht).trans hcalls, hack⟩

/-- The ack of the packet a datagram completes. -/
def ackOf (s : MirrorSession C) (bytes : Bytes) : Option ℕ :=
  match (PacketCodec.openServer s.codec bytes).2 with
  | .ok (some (packet, _, _)) => some packet.ackSeqNum
  | _ => none

/-- The table without what an ack acknowledges. -/
def pruned (table : ℕ → Option Bytes) : Option ℕ → ℕ → Option Bytes
  | some ack, n => if ack < n then table n else none
  | none, n => table n

/-- What a datagram changes before anything is sealed. -/
structure Taken (s : MirrorSession C) (bytes : Bytes) (u : MirrorSession C) : Prop where
  sessionId : u.sessionId = s.sessionId
  seqNum : u.seqNum = s.seqNum
  codec : u.codec = (PacketCodec.openServer s.codec bytes).1
  counters : u.counters = s.counters
  stored : u.stored = pruned s.stored (s.ackOf bytes)

/-- INVERSION: a datagram is taken in, and then answered by acks only. -/
theorem feedPacket_seals {bytes : Bytes} {now : Instant} {r : Except Error (List ClientAction)}
    (h : s.feedPacket bytes now = some (s', r)) :
    ∃ u calls, Taken s bytes u ∧ Seals u s' calls ∧ ∀ c ∈ calls, c.2.2 = .ack := by
  rcases feedPacket_inv h with ⟨hnone, rfl, -⟩ | ⟨packet, payload, stats, t, hopen, ht, hcase⟩
  · have hack : s.ackOf bytes = none := by
      unfold ackOf
      split
      · rename_i hopen
        exact absurd hopen (hnone _)
      · rfl
    exact ⟨{ s with codec := (PacketCodec.openServer s.codec bytes).1 }, [],
      ⟨rfl, rfl, rfl, rfl, by rw [hack]; rfl⟩, .refl _, by simp⟩
  · have hn := noteHeaders_noted ht
    have hcount := noteHeaders_counters ht
    have hack : s.ackOf bytes = some packet.ackSeqNum := by simp [ackOf, hopen]
    have htaken : ∀ u : MirrorSession C, u.sessionId = t.sessionId → u.seqNum = t.seqNum →
        u.codec = t.codec → u.counters = t.counters → u.unackedPackets = t.unackedPackets →
        Taken s bytes u := by
      intro u h₁ h₂ h₃ h₄ h₅
      refine ⟨h₁.trans hn.1, h₂.trans hn.2, h₃.trans hn.4, h₄.trans hcount, ?_⟩
      rw [hack]
      funext n
      simp only [stored, pruned, h₅, hn.unackedPackets, TreeMap.getElem?_filter']
      cases s.unackedPackets[n]? with
      | none => simp
      | some e =>
        by_cases hlt : packet.ackSeqNum < n
        · simp [hlt, Option.filter]
        · simp [hlt, Option.filter]
    rcases hcase with ⟨-, rfl, -⟩ | ⟨-, u, hu, hp⟩
    · exact ⟨_, [], htaken _ rfl rfl rfl rfl rfl, .refl _, by simp⟩
    · have hq := accept_quiet hu
      obtain ⟨calls, hcalls, hacks⟩ := feedPayload_seals hp
      exact ⟨u, calls, htaken u hq.1 hq.2 hq.4 (accept_counters hu) hq.5, hcalls, hacks⟩

/-- INVERSION: an event takes in a datagram, if it is one, and then seals. -/
theorem step_seals {ev : MirrorEvent} (h : s.step ev = some s') :
    (∃ bytes now u calls, ev = .recv bytes now ∧ Taken s bytes u ∧ Seals u s' calls ∧
      ∀ c ∈ calls, c.2.2 = .ack) ∨
    ((∀ bytes now, ev ≠ .recv bytes now) ∧ ∃ calls, Seals s s' calls) := by
  obtain ⟨r, hr⟩ := step_eq_some_iff.mp h
  cases ev with
  | recv bytes now =>
    obtain ⟨v, calls, htaken, hseals, hacks⟩ := feedPacket_seals hr
    exact .inl ⟨bytes, now, v, calls, rfl, htaken, hseals, hacks⟩
  | stdin buf now =>
    obtain ⟨calls, hseals, -⟩ := feedStdin_seals hr
    exact .inr ⟨by simp, calls, hseals⟩
  | winch cols rows now => exact .inr ⟨by simp, _, onWinch_seals hr⟩
  | tick now => exact .inr ⟨by simp, onTick_seals hr⟩
  | paint dest =>
    cases hr
    obtain ⟨_, _, hframe⟩ := copyFrameIfDirty_frame s dest
    rw [hframe]
    exact .inr ⟨by simp, [], Quiet.seals ⟨rfl, rfl, rfl, rfl, rfl, rfl, rfl, rfl⟩ rfl⟩

/-- What an event seals, it seals under the mark it leaves behind. -/
theorem step_calls {ev : MirrorEvent} (h : s.step ev = some s') :
    ∃ calls, s'.sealedCalls = s.sealedCalls ++ calls ∧ ∀ c ∈ calls, c.2.1 = s'.ackSeqNum := by
  rcases step_seals h with ⟨bytes, now, u, calls, -, htaken, hseals, -⟩ | ⟨-, calls, hseals⟩
  · have hcalls : u.sealedCalls = s.sealedCalls := congrArg Prod.fst htaken.counters
    exact ⟨calls, hcalls ▸ hseals.sealedCalls, fun c hc => (hseals.acks c hc).trans hseals.ackSeqNum.symm⟩
  · exact ⟨calls, hseals.sealedCalls, fun c hc => (hseals.acks c hc).trans hseals.ackSeqNum.symm⟩

end MirrorSession

end Rumsh.Client
