import Rumsh.Client.Mirror
import Rumsh.Client.Timers

/-! The client's retransmission buffer.

    Keystrokes, resizes and keepalives take the numbers 1, 2, … and are kept until the server's
    cumulative ack covers them. `Arq` records what was sealed, when each number was last sent and which
    acks came in; `ArqExact` says what the buffer holds in those terms. Acks and NACKs are numbered by
    another counter with the high bit set, so the two never meet while neither has counted to 2^63. -/

namespace Rumsh.Client
open Std Rumsh.Schemes Rumsh.Protocol

namespace MirrorSession
variable {C : Type} {s s' : MirrorSession C}

/-! ### The table and its times -/

/-- The operation stores at most one new datagram, under the next number and the time. -/
def Stamped (now : Instant) (s s' : MirrorSession C) : Prop :=
  s'.unackedPackets = s.unackedPackets ∨
  ∃ b, s'.unackedPackets = s.unackedPackets.insert (s.seqNum + 1) (b, now) ∧ s'.seqNum = s.seqNum + 1

/-- The datagrams a check sends again, with their numbers. -/
def due (s : MirrorSession C) (now : Instant) : List (ℕ × Bytes) :=
  if now - s.lastArqCheck ≥ millis 100 then
    (s.unackedPackets.toList.filter fun (_, _, sentTime) => decide (now - sentTime ≥ s.rttLimit)).map
      fun (n, bytes, _) => (n, bytes)
  else []

variable [PacketCodec C]

theorem prepareReliable_stamped {payload : ClientPayload} {now : Instant}
    {r : Except Error (Bytes × ℕ)} (h : s.prepareReliable payload now = (s', r)) :
    Stamped now s s' ∧ s'.mirror = s.mirror ∧ s'.lastArqCheck = s.lastArqCheck := by
  obtain ⟨t, rfl, ⟨_, -, rfl, -⟩ | ⟨_, -, rfl, -⟩⟩ := prepareReliable_inv h
  · exact ⟨.inl rfl, rfl, rfl⟩
  · exact ⟨.inr ⟨_, rfl, rfl⟩, rfl, rfl⟩

theorem feedStdin_stamped {buf : Bytes} {now : Instant} {r : Except Error (List ClientAction)}
    (h : s.feedStdin buf now = some (s', r)) : Stamped now s s' := by
  obtain ⟨_, _, rfl | ⟨_, t, _, _, ht, rfl⟩⟩ := feedStdin_frame h
  · exact .inl rfl
  · have hstamped := (prepareReliable_stamped ht).1
    exact hstamped

theorem onWinch_stamped {cols rows : ℕ} {now : Instant} {r : Except Error (List ClientAction)}
    (h : s.onWinch cols rows now = some (s', r)) : Stamped now s s' := by
  obtain ⟨t, _, _, ht, rfl⟩ := onWinch_frame h
  have hstamped := (prepareReliable_stamped ht).1
  exact hstamped

/-- A keepalive changes nothing that the check after it reads, except for the table. -/
theorem tickKeepalive_stamped {now : Instant} {r : Except Error (List ClientAction)}
    (h : s.tickKeepalive now = (s', r)) :
    Stamped now s s' ∧ s'.mirror = s.mirror ∧ s'.lastArqCheck = s.lastArqCheck := by
  rcases tickKeepalive_inv h with ⟨rfl, -⟩ | ⟨_, ht, -⟩
  · exact ⟨.inl rfl, rfl, rfl⟩
  · have hstamped := prepareReliable_stamped ht
    exact hstamped

theorem feedPayload_unacked {seq : ℕ} {payload : ServerPayload} {now : Instant}
    {r : Except Error (List ClientAction)} (h : s.feedPayload seq payload now = some (s', r)) :
    s'.unackedPackets = s.unackedPackets := by
  obtain rfl | rfl | ⟨g, echo, t, ht, rfl⟩ := feedPayload_inv h
  · rfl
  · obtain ⟨_, _, hframe⟩ := sendAck_frame s now
    rw [hframe]
  · obtain ⟨_, _, _, hframe⟩ := ackIfDue_frame t now
    rw [hframe]
    exact (showFrame_shown ht).unackedPackets

/-- A datagram only takes entries out. -/
theorem feedPacket_unacked {bytes : Bytes} {now : Instant} {r : Except Error (List ClientAction)}
    (h : s.feedPacket bytes now = some (s', r)) {n : ℕ} {e : Bytes × Instant}
    (he : s'.unackedPackets[n]? = some e) : s.unackedPackets[n]? = some e := by
  rcases feedPacket_cases h with ⟨-, rfl, -⟩ | ⟨packet, payload, stats, t, -, hn, hcase⟩
  · exact he
  · have hsub : t.unackedPackets[n]? = some e → s.unackedPackets[n]? = some e := by
      intro ht
      rw [hn.unackedPackets, TreeMap.getElem?_filter'] at ht
      exact (Option.filter_eq_some_iff.mp ht).1
    rcases hcase with ⟨-, rfl, -⟩ | ⟨-, u, hu, hp⟩
    · exact hsub he
    · rw [feedPayload_unacked hp] at he
      exact hsub (hu.unackedPackets ▸ he)

theorem tickNack_unacked {now : Instant} {r : Except Error (List ClientAction)}
    (h : s.tickNack now = (s', r)) : s'.unackedPackets = s.unackedPackets := by
  obtain ⟨_, _, _, _, rfl⟩ := tickNack_frame h
  rfl

/-! ### What is sealed -/

/-- The number and the bytes of a sealed reliable packet. -/
def datagram (codec : C) (sid : ℕ) (call : Call) : Option (ℕ × Bytes) :=
  match isReliable call.2.2, PacketCodec.sealClient codec sid call.1 call.2.1 call.2.2 with
  | true, .ok bytes => some (call.1, bytes)
  | _, _ => none

/-- A call stores what it sealed. -/
theorem storeCall_eq (codec : C) (sid : ℕ) (table : ℕ → Option Bytes) (call : Call) :
    storeCall codec sid table call =
      match datagram codec sid call with
      | some (n, bytes) => Function.update table n (some bytes)
      | none => table := by
  unfold storeCall datagram
  cases isReliable call.2.2 with
  | false => rfl
  | true => cases PacketCodec.sealClient codec sid call.1 call.2.1 call.2.2 <;> rfl

/-- Whatever the table holds was there before or was sealed. -/
theorem foldl_storeCall_some {codec : C} {sid n : ℕ} {b : Bytes} (calls : List Call)
    (table : ℕ → Option Bytes) (h : calls.foldl (storeCall codec sid) table n = some b) :
    table n = some b ∨ (n, b) ∈ calls.filterMap (datagram codec sid) := by
  induction calls generalizing table with
  | nil => exact .inl h
  | cons call calls ih =>
    rw [List.filterMap_cons]
    rcases ih _ h with h | h
    · rw [storeCall_eq] at h
      cases hd : datagram codec sid call with
      | none =>
        rw [hd] at h
        exact .inl h
      | some d =>
        rw [hd] at h
        by_cases hn : n = d.1
        · simp only [hn, Function.update_self, Option.some.injEq] at h
          exact .inr (by simp [hn, ← h])
        · simp only [Function.update_of_ne hn] at h
          exact .inl h
    · right
      cases datagram codec sid call with
      | none => exact h
      | some d => exact List.mem_cons_of_mem _ h

/-- It holds every number that was there before or was sealed. -/
theorem isSome_foldl_storeCall {codec : C} {sid n : ℕ} (calls : List Call)
    (table : ℕ → Option Bytes) :
    (calls.foldl (storeCall codec sid) table n).isSome = true ↔
      (table n).isSome = true ∨ n ∈ (calls.filterMap (datagram codec sid)).map Prod.fst := by
  induction calls generalizing table with
  | nil => simp
  | cons call calls ih =>
    rw [List.foldl_cons, ih, storeCall_eq, List.filterMap_cons]
    cases hd : datagram codec sid call with
    | none => rfl
    | some d =>
      dsimp only
      rw [List.map_cons, List.mem_cons]
      by_cases hn : n = d.1
      · simp [hn]
      · simp [hn]

/-- When every call seals, the datagrams have the numbers of the reliable calls. -/
theorem datagram_numbers {codec : C} {sid : ℕ} {calls : List Call}
    (hok : ∀ c ∈ calls, (PacketCodec.sealClient codec sid c.1 c.2.1 c.2.2).isOk = true) :
    (calls.filterMap (datagram codec sid)).map Prod.fst =
      (calls.filter fun c => isReliable c.2.2).map Prod.fst := by
  induction calls with
  | nil => rfl
  | cons call calls ih =>
    rw [List.filterMap_cons, List.filter_cons]
    have hrest := ih fun c hc => hok c (List.mem_cons_of_mem _ hc)
    have hcall := hok call (List.mem_cons_self ..)
    cases hs : PacketCodec.sealClient codec sid call.1 call.2.1 call.2.2 with
    | error e => simp [hs, Except.isOk, Except.toBool] at hcall
    | ok bytes => cases hr : isReliable call.2.2 <;> simp [datagram, hr, hs, hrest]

/-! ### The retransmission -/

omit [PacketCodec C] in
theorem mem_due {now : Instant} {n : ℕ} {b : Bytes} :
    (n, b) ∈ s.due now ↔ now - s.lastArqCheck ≥ millis 100 ∧
      ∃ t, s.unackedPackets[n]? = some (b, t) ∧ now - t ≥ s.rttLimit := by
  unfold due
  split
  · rename_i hdue
    simp only [List.mem_map, List.mem_filter, TreeMap.mem_toList_iff_getElem?_eq_some,
      decide_eq_true_eq, Prod.exists, Prod.mk.injEq, hdue, true_and]
    constructor
    · rintro ⟨n', b', t, ⟨hmem, ht⟩, rfl, rfl⟩
      exact ⟨t, hmem, ht⟩
    · rintro ⟨t, hmem, ht⟩
      exact ⟨n, b, t, ⟨hmem, ht⟩, rfl, rfl⟩
  · rename_i hdue
    simp [hdue]

omit [PacketCodec C] in
/-- No number is sent twice by one check. -/
theorem nodup_due (s : MirrorSession C) (now : Instant) : ((s.due now).map Prod.fst).Nodup := by
  unfold due
  split
  · rw [List.map_map]
    have hkeys : (s.unackedPackets.toList.map Prod.fst).Nodup := by
      rw [TreeMap.map_fst_toList_eq_keys]
      exact TreeMap.nodup_keys
    exact hkeys.sublist (List.filter_sublist.map _)
  · exact .nil

omit [PacketCodec C] in
/-- A check leaves every datagram in the table, with the time it was last sent. -/
theorem tickArq_entry {now tm : Instant} {n : ℕ} {b : Bytes}
    (he : (s.tickArq now).1.unackedPackets[n]? = some (b, tm)) :
    ∃ st, s.unackedPackets[n]? = some (b, st) ∧
      ((tm = now ∧ n ∈ (s.due now).map Prod.fst) ∨ (tm = st ∧ n ∉ (s.due now).map Prod.fst)) := by
  have hmem : ∀ st, s.unackedPackets[n]? = some (b, st) → (n ∈ (s.due now).map Prod.fst ↔
      now - s.lastArqCheck ≥ millis 100 ∧ now - st ≥ s.rttLimit) := by
    intro st hst
    rw [List.mem_map]
    constructor
    · rintro ⟨⟨n', b'⟩, hd, rfl⟩
      obtain ⟨hdue, t, ht, hold⟩ := mem_due.mp hd
      obtain ⟨-, rfl⟩ := Prod.mk.inj (Option.some.inj (ht.symm.trans hst))
      exact ⟨hdue, hold⟩
    · exact fun ⟨hdue, hold⟩ => ⟨(n, b), mem_due.mpr ⟨hdue, st, hst, hold⟩, rfl⟩
  unfold tickArq at he
  split at he
  · rename_i hdue
    rw [TreeMap.getElem?_map] at he
    obtain ⟨⟨b', st⟩, hst, heq⟩ := Option.map_eq_some_iff.mp he
    obtain ⟨rfl, rfl⟩ := Prod.mk.inj heq
    refine ⟨st, hst, ?_⟩
    rw [hmem st hst]
    by_cases hold : now - st ≥ s.rttLimit
    · exact .inl ⟨by simp [hold], hdue, hold⟩
    · exact .inr ⟨by simp [hold], fun h => hold h.2⟩
  · rename_i hdue
    exact ⟨tm, he, .inr ⟨rfl, fun hm => hdue ((hmem tm he).mp hm).1⟩⟩

/-! ### One event -/

/-- The ack of the packet an event completes. -/
def ackBy (s : MirrorSession C) : MirrorEvent → Option ℕ
  | .recv bytes _ => s.ackOf bytes
  | _ => none

/-- The datagrams an event sends again, with their numbers. -/
def resentBy (s : MirrorSession C) : MirrorEvent → List (ℕ × Bytes)
  | .tick now =>
    match s.tickKeepalive now with
    | (t, .ok _) => t.due now
    | (_, .error _) => []
  | _ => []

/-- INVERSION: an event prunes the table and then seals; one that prunes seals acks only. -/
theorem step_ledger {ev : MirrorEvent} (h : s.step ev = some s') :
    ∃ u calls, u.seqNum = s.seqNum ∧ u.counters = s.counters ∧
      u.stored = pruned s.stored (s.ackBy ev) ∧ Seals u s' calls ∧
      ((s.ackBy ev).isSome = true → s'.seqNum = s.seqNum) := by
  rcases step_seals h with ⟨bytes, now, u, calls, rfl, htaken, hseals, hacks⟩ | ⟨hev, calls, hseals⟩
  · refine ⟨u, calls, htaken.seqNum, htaken.counters, htaken.stored, hseals, fun _ => ?_⟩
    have hnone : calls.filter (fun c => isReliable c.2.2) = [] :=
      List.filter_eq_nil_iff.mpr fun c hc => by simp [hacks c hc, isReliable]
    have hlen := congrArg List.length hseals.reliable
    simp only [hnone, List.map_nil, List.length_nil, List.length_range'] at hlen
    have hle := hseals.seqNum_le
    rw [htaken.seqNum] at hlen hle
    omega
  · have hack : s.ackBy ev = none := by
      cases ev with
      | recv bytes now => exact absurd rfl (hev bytes now)
      | _ => rfl
    rw [hack]
    exact ⟨s, calls, rfl, rfl, rfl, hseals, by simp⟩

/-- INVERSION: a tick seals its keepalive and, if that goes well, comes to the check. -/
theorem onTick_table {now : Instant} {r : Except Error (List ClientAction)}
    (h : s.onTick now = some (s', r)) :
    ∃ t, Stamped now s t ∧
      ((s'.unackedPackets = t.unackedPackets ∧ s.resentBy (.tick now) = []) ∨
      (s'.unackedPackets = (t.tickArq now).1.unackedPackets ∧
        s.resentBy (.tick now) = t.due now)) := by
  rcases onTick_inv h with ⟨e, hk, -⟩ | ⟨t, keepalive, u, banner, nacks, hk, hb, hn, -⟩
  · obtain ⟨hstamped, -⟩ := tickKeepalive_stamped hk
    have hres : s.resentBy (.tick now) = [] := by simp only [resentBy, hk]
    exact ⟨_, hstamped, .inl ⟨rfl, hres⟩⟩
  · obtain ⟨hstamped, -⟩ := tickKeepalive_stamped hk
    have hres : s.resentBy (.tick now) = t.due now := by simp only [resentBy, hk]
    have hban : u.unackedPackets = (t.tickArq now).1.unackedPackets :=
      (tickBanner_quiet hb).1.unackedPackets
    have htel : (u.tickTelemetry now).1.unackedPackets = u.unackedPackets :=
      (tickTelemetry_quiet u now).1.unackedPackets
    exact ⟨t, hstamped, .inr ⟨(tickNack_unacked hn).trans (htel.trans hban), hres⟩⟩

/-- INVERSION: a datagram is in the table with the time of the event, if the event issued it or sent it
    again, and with its old time otherwise. -/
theorem step_entry {ev : MirrorEvent} (h : s.step ev = some s') {n : ℕ} {b : Bytes} {tm : Instant}
    (he : s'.unackedPackets[n]? = some (b, tm)) :
    (ev.time = some tm ∧ (n = s.seqNum + 1 ∨ n ∈ (s.resentBy ev).map Prod.fst)) ∨
    ∃ b', s.unackedPackets[n]? = some (b', tm) ∧ n ∉ (s.resentBy ev).map Prod.fst := by
  have hstamped : ∀ {now : Instant} {t : MirrorSession C} {b : Bytes} {tm : Instant},
      Stamped now s t → t.unackedPackets[n]? = some (b, tm) →
      (tm = now ∧ n = s.seqNum + 1) ∨ s.unackedPackets[n]? = some (b, tm) := by
    rintro now t b tm (heq | ⟨b', heq, -⟩) he
    · exact .inr (heq ▸ he)
    · rw [heq, TreeMap.getElem?_insert] at he
      split at he
      · rename_i hn
        rw [Nat.compare_eq_eq] at hn
        obtain ⟨-, rfl⟩ := Prod.mk.inj (Option.some.inj he)
        exact .inl ⟨rfl, hn.symm⟩
      · exact .inr he
  obtain ⟨r, hr⟩ := step_eq_some_iff.mp h
  cases ev with
  | recv bytes now => exact .inr ⟨b, feedPacket_unacked hr he, by simp [resentBy]⟩
  | stdin buf now =>
    rcases hstamped (feedStdin_stamped hr) he with ⟨rfl, hn⟩ | hold
    · exact .inl ⟨rfl, .inl hn⟩
    · exact .inr ⟨b, hold, by simp [resentBy]⟩
  | winch cols rows now =>
    rcases hstamped (onWinch_stamped hr) he with ⟨rfl, hn⟩ | hold
    · exact .inl ⟨rfl, .inl hn⟩
    · exact .inr ⟨b, hold, by simp [resentBy]⟩
  | paint dest =>
    cases hr
    obtain ⟨_, _, hframe⟩ := copyFrameIfDirty_frame s dest
    rw [hframe] at he
    exact .inr ⟨b, he, by simp [resentBy]⟩
  | tick now =>
    obtain ⟨v, hv, ⟨heq, hres⟩ | ⟨heq, hres⟩⟩ := onTick_table hr
    · rw [heq] at he
      rcases hstamped hv he with ⟨rfl, hn⟩ | hold
      · exact .inl ⟨rfl, .inl hn⟩
      · exact .inr ⟨b, hold, by simp [hres]⟩
    · rw [heq] at he
      rw [hres]
      obtain ⟨st, hst, ⟨rfl, hmem⟩ | ⟨rfl, hmem⟩⟩ := tickArq_entry he
      · exact .inl ⟨rfl, .inr hmem⟩
      · rcases hstamped hv hst with ⟨rfl, hn⟩ | hold
        · exact .inl ⟨rfl, .inl hn⟩
        · exact .inr ⟨b, hold, hmem⟩

/-- The loop sends what it seals. -/
theorem nackAll_out {now : Instant} {incomplete : List (ℕ × List ℕ)} {actions : List ClientAction}
    {r : Except Error (List ClientAction)} (h : nackAll now incomplete s actions = (s', r)) :
    ∀ b ∈ outOf r, b ∈ sendsOf actions ∨ ∃ q f m,
      PacketCodec.sealClient s.codec s.sessionId q s.ackSeqNum (.fragmentNack f m) = .ok b := by
  induction incomplete generalizing s actions with
  | nil =>
    cases h
    exact fun b hb => .inl hb
  | cons e rest ih =>
    rcases nackAll_cons_inv h with hrest | ⟨-, t, res, ht, hcase⟩
    · exact ih hrest
    · obtain ⟨rfl, hseal⟩ := Prod.mk.inj ht
      rcases hcase with ⟨_, -, -, rfl⟩ | ⟨bytes, rfl, hrest⟩
      · simp [outOf]
      · intro b hb
        rcases ih hrest b hb with hb | hb
        · rw [sendsOf_append, List.mem_append] at hb
          rcases hb with hb | hb
          · exact .inl hb
          · rw [sendsOf_sendPacket, sendsOf_nil, List.mem_singleton] at hb
            rw [hb]
            exact .inr ⟨_, _, _, hseal⟩
        · exact .inr hb

theorem tickNack_out {now : Instant} {r : Except Error (List ClientAction)}
    (h : s.tickNack now = (s', r)) : ∀ b ∈ outOf r, ∃ q f m,
      PacketCodec.sealClient s.codec s.sessionId q s.ackSeqNum (.fragmentNack f m) = .ok b := by
  rcases tickNack_inv h with ⟨-, rfl⟩ | ⟨-, t, ht, -⟩
  · simp [outOf]
  · exact fun b hb => (nackAll_out ht b hb).resolve_left (by simp)

theorem tickKeepalive_out {now : Instant} {r : Except Error (List ClientAction)}
    (h : s.tickKeepalive now = (s', r)) : ∀ b ∈ outOf r,
      PacketCodec.sealClient s.codec s.sessionId (s.seqNum + 1) s.ackSeqNum .keepAlive = .ok b := by
  rcases tickKeepalive_inv h with ⟨-, rfl⟩ | ⟨res, ht, rfl⟩
  · simp [outOf]
  · obtain ⟨t, -, ⟨_, -, -, rfl⟩ | ⟨bytes, hseal, -, rfl⟩⟩ := prepareReliable_inv ht
    · simp [outOf, Except.map]
    · intro b hb
      rw [List.mem_singleton.mp hb]
      exact hseal

/-- What a tick that succeeds sends: its keepalive, the datagrams that are due, and its NACKs. -/
theorem onTick_out {now : Instant} {actions : List ClientAction}
    (h : s.onTick now = some (s', .ok actions)) :
    (s.tickKeepalive now).2.isOk = true ∧
    ∃ fresh nacks, sendsOf actions = fresh ++ (s.resentBy (.tick now)).map Prod.snd ++ nacks ∧
      (∀ b ∈ fresh, PacketCodec.sealClient s.codec s.sessionId (s.seqNum + 1) s.ackSeqNum .keepAlive =
        .ok b) ∧
      ∀ b ∈ nacks, ∃ q f m,
        PacketCodec.sealClient s.codec s.sessionId q s.ackSeqNum (.fragmentNack f m) = .ok b := by
  rcases onTick_inv h with ⟨_, -, hr⟩ | ⟨t, keepalive, u, banner, nacks, hk, hb, hn, hr⟩
  · cases hr
  · have hres : s.resentBy (.tick now) = t.due now := by simp only [resentBy, hk]
    obtain ⟨calls, hcalls, -⟩ := tickKeepalive_seals hk
    obtain ⟨hqb, hsb⟩ := tickBanner_quiet hb
    obtain ⟨hqt, hst⟩ := tickTelemetry_quiet u now
    have hqa := tickArq_seals t now
    cases nacks with
    | error e => cases hr
    | ok nacks =>
      simp only [Except.map, Except.ok.injEq] at hr
      have harq : sendsOf (t.tickArq now).2 = (t.due now).map Prod.snd := by
        unfold tickArq due
        split
        · simp [sendsOf, List.filterMap_map, Function.comp_def]
        · rfl
      refine ⟨by rw [hk]; rfl, sendsOf keepalive, sendsOf nacks, ?_, tickKeepalive_out hk, ?_⟩
      · rw [hr, hres]
        simp [hsb, hst, harq]
      · have hout := tickNack_out hn
        rwa [hqt.codec, hqb.codec, hqa.codec, hcalls.codec, hqt.sessionId, hqb.sessionId,
          hqa.sessionId, hcalls.sessionId, hqt.ackSeqNum, hqb.ackSeqNum, hqa.ackSeqNum,
          hcalls.ackSeqNum] at hout

omit [PacketCodec C] in
theorem rttLimit_pos (s : MirrorSession C) : 0 < s.rttLimit := by
  unfold rttLimit millis
  omega

/-- What is sent again was in the table before the tick: a keepalive sealed just now is not yet due. -/
theorem mem_resentBy {now : Instant} (hkeys : ∀ n ∈ s.unackedPackets, n ≤ s.seqNum)
    (hok : (s.tickKeepalive now).2.isOk = true) {n : ℕ} {b : Bytes} :
    (n, b) ∈ s.resentBy (.tick now) ↔ now - s.lastArqCheck ≥ millis 100 ∧
      ∃ t, s.unackedPackets[n]? = some (b, t) ∧ now - t ≥ s.rttLimit := by
  rcases heq : s.tickKeepalive now with ⟨t, _ | keepalive⟩
  · rw [heq] at hok
    cases hok
  · have hres : s.resentBy (.tick now) = t.due now := by simp only [resentBy, heq]
    obtain ⟨hstamped, hmirror, hcheck⟩ := tickKeepalive_stamped heq
    have hlimit : t.rttLimit = s.rttLimit := by rw [rttLimit, rttLimit, hmirror]
    rw [hres, mem_due, hcheck, hlimit]
    rcases hstamped with hsame | ⟨b', hins, -⟩
    · rw [hsame]
    · have hnone : s.unackedPackets[s.seqNum + 1]? = none := by
        by_contra hne
        have hmem := TreeMap.mem_iff_isSome_getElem?.mpr (Option.isSome_iff_ne_none.mpr hne)
        exact absurd (hkeys _ hmem) (by omega)
      rw [hins]
      refine and_congr_right fun _ => exists_congr fun tm => and_congr_left fun hold => ?_
      rw [TreeMap.getElem?_insert]
      split
      · rename_i hn
        rw [Nat.compare_eq_eq] at hn
        rw [← hn, hnone]
        refine ⟨fun heq => ?_, fun heq => nomatch heq⟩
        obtain ⟨-, rfl⟩ := Prod.mk.inj (Option.some.inj heq)
        rw [ge_iff_le, Nat.sub_self] at hold
        exact absurd s.rttLimit_pos (Nat.not_lt.mpr hold)
      · rfl

/-- A change of the window size whose packet seals. -/
theorem onWinch_eq {cols rows : ℕ} {bytes : Bytes} {mirror : ClientTerminal}
    (hseal : PacketCodec.sealClient s.codec s.sessionId (s.seqNum + 1) s.ackSeqNum (.resize cols rows) =
      .ok bytes) (hmirror : s.mirror.abortPrediction = some mirror) (now : Instant) :
    ∃ s', s.onWinch cols rows now = some (s', .ok [.sendPacket bytes, .paint]) ∧
      s'.mirror = mirror.markDirty ∧ s'.seqNum = s.seqNum + 1 := by
  simp only [onWinch, prepareResize, prepareReliable, sealNow, hseal, hmirror]
  exact ⟨_, rfl, rfl, rfl⟩

end MirrorSession

/-! ### Runs -/

/-- A session with what it sealed: the datagram of each reliable packet, when each number was last sent,
    and the acks that came in, each with the last number issued before it. -/
structure Arq (C : Type) where
  session : MirrorSession C
  sealed : List (ℕ × Bytes)
  lastSend : ℕ → Instant
  acks : List (ℕ × ℕ)

namespace Arq
variable {C : Type} [PacketCodec C]

def start (session : MirrorSession C) : Arq C :=
  { session, sealed := [], lastSend := fun _ => 0, acks := [] }

/-- The calls of an event. -/
def callsBy (s s' : MirrorSession C) : List MirrorSession.Call :=
  s'.sealedCalls.drop s.sealedCalls.length

def step (w : Arq C) (ev : MirrorEvent) : Option (Arq C) :=
  (w.session.step ev).map fun s' =>
    { session := s',
      sealed := w.sealed ++
        (callsBy w.session s').filterMap (MirrorSession.datagram s'.codec s'.sessionId),
      lastSend := fun n =>
        if (w.session.seqNum < n ∧ n ≤ s'.seqNum) ∨ n ∈ (w.session.resentBy ev).map Prod.fst then
          ev.time.getD 0
        else w.lastSend n,
      acks := w.acks ++ (w.session.ackBy ev).toList.map fun ack => (ack, w.session.seqNum) }

/-- Every packet of the event seals. -/
def Sealing (w : Arq C) (ev : MirrorEvent) : Prop :=
  ∀ s' ∈ w.session.step ev, ∀ c ∈ callsBy w.session s',
    (PacketCodec.sealClient s'.codec s'.sessionId c.1 c.2.1 c.2.2).isOk = true

instance (w : Arq C) (ev : MirrorEvent) : Decidable (Sealing w ev) :=
  inferInstanceAs (Decidable (∀ s' ∈ w.session.step ev, ∀ c ∈ callsBy w.session s', _))

/-- The numbers of the reliable packets, and of the others. -/
def reliableNumbers (w : Arq C) : List ℕ :=
  (w.session.sealedCalls.filter fun c => isReliable c.2.2).map Prod.fst

def transientNumbers (w : Arq C) : List ℕ :=
  (w.session.sealedCalls.filter fun c => !isReliable c.2.2).map Prod.fst

/-- What the counters and the table hold, in terms of what was sealed and acknowledged. -/
structure Exact (w : Arq C) : Prop where
  reliable : w.reliableNumbers = List.range' 1 w.session.seqNum
  transient : w.transientNumbers = (List.range' 1 w.session.transientSeqNum).map (1 <<< 63 ||| ·)
  numbers : w.sealed.map Prod.fst = List.range' 1 w.session.seqNum
  keys : ∀ n, n ∈ w.session.unackedPackets ↔
    (1 ≤ n ∧ n ≤ w.session.seqNum) ∧ ∀ a ∈ w.acks, n ≤ a.2 → a.1 < n
  entries : ∀ (n : ℕ) (b : Bytes) (t : Instant), w.session.unackedPackets[n]? = some (b, t) →
    (n, b) ∈ w.sealed ∧ t = w.lastSend n

/-- A tick that succeeds sends again what is unacknowledged and was last sent long enough ago, as it was
    sealed, each datagram once; the rest of what it sends is sealed just now. -/
def Resends (w : Arq C) : Prop :=
  ∀ now s' actions, w.session.onTick now = some (s', .ok actions) →
    ∃ (fresh nacks : List Bytes) (resent : List (ℕ × Bytes)),
      sendsOf actions = fresh ++ resent.map Prod.snd ++ nacks ∧
      (resent.map Prod.fst).Nodup ∧
      (∀ n b, (n, b) ∈ resent ↔ now - w.session.lastArqCheck ≥ millis 100 ∧
        n ∈ w.session.unackedPackets ∧ (n, b) ∈ w.sealed ∧
        now - w.lastSend n ≥ w.session.rttLimit) ∧
      (∀ b ∈ fresh, PacketCodec.sealClient w.session.codec w.session.sessionId
        (w.session.seqNum + 1) w.session.ackSeqNum .keepAlive = .ok b) ∧
      ∀ b ∈ nacks, ∃ q f m, PacketCodec.sealClient w.session.codec w.session.sessionId q
        w.session.ackSeqNum (.fragmentNack f m) = .ok b

/-- The reliable numbers are below 2^63; the others have the high bit set and are distinct. -/
def Apart (w : Arq C) : Prop :=
  (∀ n ∈ w.reliableNumbers, n < 2 ^ 63) ∧ (∀ n ∈ w.transientNumbers, n.testBit 63 = true) ∧
    w.transientNumbers.Nodup

variable {w w' : Arq C} {ev : MirrorEvent}

/-- The acks came in when their last number was issued. -/
def Bounded (w : Arq C) : Prop := ∀ a ∈ w.acks, a.2 ≤ w.session.seqNum

structure Recorded (w : Arq C) : Prop where
  table : Exact w
  acks : Bounded w

omit [PacketCodec C] in
/-- Two stretches of numbers from 1. -/
theorem range'_grow {a b : ℕ} (h : a ≤ b) :
    List.range' 1 a ++ List.range' (a + 1) (b - a) = List.range' 1 b := by
  have htrans := MirrorSession.range'_trans (Nat.zero_le a) h
  rwa [Nat.zero_add, Nat.sub_zero, Nat.sub_zero] at htrans

/-- A table that was pruned by the ack of an event, or took the numbers the event issued, is again what
    was issued and not acknowledged since. -/
theorem Exact.keys_step (h : Exact w) (hb : Bounded w) {s' : MirrorSession C}
    (hle : w.session.seqNum ≤ s'.seqNum)
    (hpruned : (w.session.ackBy ev).isSome = true → s'.seqNum = w.session.seqNum)
    (hmem : ∀ n, n ∈ s'.unackedPackets ↔
      (MirrorSession.pruned w.session.stored (w.session.ackBy ev) n).isSome = true ∨
        (w.session.seqNum < n ∧ n ≤ s'.seqNum)) (n : ℕ) :
    n ∈ s'.unackedPackets ↔ (1 ≤ n ∧ n ≤ s'.seqNum) ∧
      ∀ a ∈ w.acks ++ (w.session.ackBy ev).toList.map fun ack => (ack, w.session.seqNum),
        n ≤ a.2 → a.1 < n := by
  have hkeep : (w.session.stored n).isSome = true ↔ n ∈ w.session.unackedPackets := by
    rw [MirrorSession.stored, Option.isSome_map, TreeMap.mem_iff_isSome_getElem?]
  rw [hmem]
  cases hack : w.session.ackBy ev with
  | none =>
    rw [MirrorSession.pruned, hkeep, h.keys]
    simp only [Option.toList_none, List.map_nil, List.append_nil]
    constructor
    · rintro (⟨⟨h₁, h₂⟩, hacks⟩ | ⟨h₁, h₂⟩)
      · exact ⟨⟨h₁, h₂.trans hle⟩, hacks⟩
      · refine ⟨⟨Nat.one_le_of_lt h₁, h₂⟩, fun a ha hn => ?_⟩
        exact absurd (hn.trans (hb a ha)) (Nat.not_le.mpr h₁)
    · rintro ⟨⟨h₁, h₂⟩, hacks⟩
      by_cases hold : n ≤ w.session.seqNum
      · exact .inl ⟨⟨h₁, hold⟩, hacks⟩
      · exact .inr ⟨Nat.not_le.mp hold, h₂⟩
  | some ack =>
    -- a datagram issues no number
    have hsame : s'.seqNum = w.session.seqNum := hpruned (by simp [hack])
    have hprune : (if ack < n then w.session.stored n else none).isSome = true ↔
        ack < n ∧ n ∈ w.session.unackedPackets := by
      rw [← hkeep]
      split <;> simp [*]
    rw [hsame, MirrorSession.pruned, hprune, h.keys]
    simp only [Option.toList_some, List.map_cons, List.map_nil, List.mem_append,
      List.mem_singleton]
    constructor
    · rintro (⟨hlt, hrange, hacks⟩ | ⟨h₁, h₂⟩)
      · refine ⟨hrange, fun a ha hn => ?_⟩
        rcases ha with ha | rfl
        · exact hacks a ha hn
        · exact hlt
      · exact absurd h₂ (Nat.not_le.mpr h₁)
    · rintro ⟨hrange, hacks⟩
      exact .inl ⟨hacks _ (.inr rfl) hrange.2, hrange, fun a ha => hacks a (.inl ha)⟩

/-- What the table holds after an event was sealed before it or by it. -/
theorem Exact.sealed_step (h : Exact w) {s' : MirrorSession C} {calls : List MirrorSession.Call}
    (htable : s'.stored = calls.foldl (MirrorSession.storeCall s'.codec s'.sessionId)
      (MirrorSession.pruned w.session.stored (w.session.ackBy ev)))
    {n : ℕ} {b : Bytes} {t : Instant} (he : s'.unackedPackets[n]? = some (b, t)) :
    (n, b) ∈ w.sealed ++ calls.filterMap (MirrorSession.datagram s'.codec s'.sessionId) := by
  have hs' : s'.stored n = some b := by rw [MirrorSession.stored, he, Option.map_some]
  rw [htable] at hs'
  refine List.mem_append.mpr ((MirrorSession.foldl_storeCall_some calls _ hs').imp_left fun hp => ?_)
  have hstored : w.session.stored n = some b := by
    unfold MirrorSession.pruned at hp
    split at hp
    · split at hp
      · exact hp
      · cases hp
    · exact hp
  obtain ⟨⟨b', t'⟩, he', rfl⟩ := Option.map_eq_some_iff.mp hstored
  exact (h.entries n _ t' he').1

/-- Its time is that of the event, if the event sent it, and the old one otherwise. -/
theorem Exact.lastSend_step (h : Exact w) {s' : MirrorSession C} (hs : w.session.step ev = some s')
    {n : ℕ} (hn : n ≤ s'.seqNum) {b : Bytes} {t : Instant}
    (he : s'.unackedPackets[n]? = some (b, t)) :
    t = if (w.session.seqNum < n ∧ n ≤ s'.seqNum) ∨ n ∈ (w.session.resentBy ev).map Prod.fst then
      ev.time.getD 0 else w.lastSend n := by
  rcases MirrorSession.step_entry hs he with ⟨htime, hnow⟩ | ⟨b', he', hres⟩
  · rw [if_pos (hnow.imp_left fun heq => ⟨heq ▸ Nat.lt_succ_self _, hn⟩), htime]
    rfl
  · have hold : n ∈ w.session.unackedPackets := by
      rw [TreeMap.mem_iff_isSome_getElem?, he']
      rfl
    have hle := ((h.keys n).mp hold).1.2
    have hno : ¬ ((w.session.seqNum < n ∧ n ≤ s'.seqNum) ∨
        n ∈ (w.session.resentBy ev).map Prod.fst) := by
      rintro (hlt | hmem)
      · exact absurd hlt.1 (Nat.not_lt.mpr hle)
      · exact hres hmem
    rw [if_neg hno]
    exact (h.entries n b' t he').2

/-- STEP: an event that seals all its packets keeps the record exact. -/
theorem Recorded.step (hr : Recorded w) (hseal : Sealing w ev) (hstep : step w ev = some w') :
    Recorded w' := by
  obtain ⟨h, hb⟩ := hr
  obtain ⟨s', hs, rfl⟩ := Option.map_eq_some_iff.mp hstep
  obtain ⟨u, calls, hu, hcount, hstored, hseals, hpruned⟩ := MirrorSession.step_ledger hs
  have hprev : u.sealedCalls = w.session.sealedCalls := congrArg Prod.fst hcount
  have htrans : u.transientSeqNum = w.session.transientSeqNum := congrArg Prod.snd hcount
  have hcalls : callsBy w.session s' = calls := by
    rw [callsBy, hseals.sealedCalls, hprev, List.drop_left]
  have hle : w.session.seqNum ≤ s'.seqNum := hu ▸ hseals.seqNum_le
  have hrel := hu ▸ hseals.reliable
  have hnew : (calls.filterMap (MirrorSession.datagram s'.codec s'.sessionId)).map Prod.fst =
      List.range' (w.session.seqNum + 1) (s'.seqNum - w.session.seqNum) := by
    rw [MirrorSession.datagram_numbers (hcalls ▸ hseal s' hs), hrel]
  have htable : s'.stored = calls.foldl (MirrorSession.storeCall s'.codec s'.sessionId)
      (MirrorSession.pruned w.session.stored (w.session.ackBy ev)) := by
    rw [hseals.stored, hstored, hseals.codec, hseals.sessionId]
  have hmem : ∀ n, n ∈ s'.unackedPackets ↔
      (MirrorSession.pruned w.session.stored (w.session.ackBy ev) n).isSome = true ∨
        (w.session.seqNum < n ∧ n ≤ s'.seqNum) := by
    intro n
    rw [TreeMap.mem_iff_isSome_getElem?, ← Option.isSome_map (f := Prod.fst)]
    change (s'.stored n).isSome = true ↔ _
    rw [htable, MirrorSession.isSome_foldl_storeCall, hnew, List.mem_range'_1]
    exact or_congr_right (by omega)
  have hkeys := h.keys_step hb hle hpruned hmem
  refine ⟨⟨?_, ?_, ?_, hkeys, ?_⟩, ?_⟩
  · have hold := h.reliable
    simp only [reliableNumbers] at hold ⊢
    rw [hseals.sealedCalls, hprev, List.filter_append, List.map_append, hold, hrel, range'_grow hle]
  · have hold := h.transient
    have hgrow : w.session.transientSeqNum ≤ s'.transientSeqNum := htrans ▸ hseals.transient_le
    simp only [transientNumbers] at hold ⊢
    rw [hseals.sealedCalls, hprev, List.filter_append, List.map_append, hold, hseals.transient,
      htrans, ← List.map_append, range'_grow hgrow]
  · simp only [hcalls]
    rw [List.map_append, h.numbers, hnew, range'_grow hle]
  · intro n b t he
    have hin : n ∈ s'.unackedPackets := by
      rw [TreeMap.mem_iff_isSome_getElem?, he]
      rfl
    refine ⟨?_, h.lastSend_step hs ((hkeys n).mp hin).1.2 he⟩
    simp only [hcalls]
    exact h.sealed_step htable he
  · intro a ha
    rcases List.mem_append.mp ha with ha | ha
    · exact (hb a ha).trans hle
    · obtain ⟨ack, -, rfl⟩ := List.mem_map.mp ha
      exact hle

/-- What the buffer holds decides what a tick sends again. -/
theorem Exact.resends (h : Exact w) : Resends w := by
  intro now s' actions htick
  obtain ⟨hok, fresh, nacks, hsends, hfresh, hnacks⟩ := MirrorSession.onTick_out htick
  have hkeys : ∀ n ∈ w.session.unackedPackets, n ≤ w.session.seqNum := fun n hn =>
    ((h.keys n).mp hn).1.2
  have hdistinct : (w.sealed.map Prod.fst).Nodup := h.numbers ▸ List.nodup_range'
  refine ⟨fresh, nacks, w.session.resentBy (.tick now), hsends, ?_, fun n b => ?_, hfresh, hnacks⟩
  · unfold MirrorSession.resentBy
    dsimp only
    split
    · exact MirrorSession.nodup_due _ _
    · exact .nil
  · rw [MirrorSession.mem_resentBy hkeys hok]
    refine and_congr_right fun _ => ⟨?_, ?_⟩
    · rintro ⟨t, he, hold⟩
      obtain ⟨hmem, rfl⟩ := h.entries n b t he
      refine ⟨?_, hmem, hold⟩
      rw [TreeMap.mem_iff_isSome_getElem?, he]
      rfl
    · rintro ⟨hin, hmem, hold⟩
      rw [TreeMap.mem_iff_isSome_getElem?, Option.isSome_iff_exists] at hin
      obtain ⟨⟨b', t⟩, he⟩ := hin
      obtain ⟨hmem', rfl⟩ := h.entries n b' t he
      have heq := List.inj_on_of_nodup_map hdistinct hmem hmem' rfl
      obtain ⟨-, rfl⟩ := Prod.mk.inj heq
      exact ⟨_, he, hold⟩

omit [PacketCodec C] in
/-- Below 2^63 the high bit is added to a number, so that no two become one. -/
theorem Exact.apart (h : Exact w) (hrel : w.session.seqNum < 2 ^ 63)
    (htrans : w.session.transientSeqNum < 2 ^ 63) : Apart w := by
  refine ⟨fun n hn => ?_, fun n hn => ?_, ?_⟩
  · rw [h.reliable, List.mem_range'_1] at hn
    omega
  · rw [h.transient] at hn
    obtain ⟨m, -, rfl⟩ := List.mem_map.mp hn
    rw [Nat.testBit_or, Nat.one_shiftLeft, Nat.testBit_two_pow_self, Bool.true_or]
  · rw [h.transient]
    refine List.Nodup.map_on (fun m hm n hn heq => ?_) List.nodup_range'
    rw [List.mem_range'_1] at hm hn
    have hadd : ∀ k < 2 ^ 63, 1 <<< 63 ||| k = 2 ^ 63 + k := fun k hk => by
      have hor := Nat.two_pow_add_eq_or_of_lt hk 1
      rw [Nat.mul_one] at hor
      rw [Nat.one_shiftLeft, hor]
    rw [hadd m (by omega), hadd n (by omega)] at heq
    exact Nat.add_left_cancel heq

omit [PacketCodec C] in
theorem Recorded.start (sid : ℕ) (codec : C) (startServerSeq cols rows : ℕ) (overlay : Bool)
    (now : Instant) : Recorded (start (.new sid codec startServerSeq cols rows overlay now)) := by
  refine ⟨⟨rfl, rfl, rfl, fun n => ?_, fun n b t he => ?_⟩, fun a ha => nomatch ha⟩
  · simp only [Arq.start, MirrorSession.new, TreeMap.not_mem_emptyc, false_iff]
    exact fun h => absurd h.1.1 (Nat.not_le.mpr (Nat.lt_succ_of_le h.1.2))
  · simp [Arq.start, MirrorSession.new] at he

theorem Recorded.run {events : List MirrorEvent} (h : Recorded w)
    (hseal : StepsMeet Arq.step Sealing w events) (hrun : runFrom Arq.step w events = some w') :
    Recorded w' :=
  run_invariant (fun _ _ _ h hP hs => h.step hP hs) events h hseal hrun

/-- RUN: in every run that seals all its packets, counters and table are exact, so that every tick sends
    again what it should; and the numbers are as wanted as long as neither counter has come to 2^63. -/
theorem arq_exact {sid : ℕ} {codec : C} {startServerSeq cols rows : ℕ} {overlay : Bool} {now : Instant}
    {events : List MirrorEvent}
    (hseal : StepsMeet step Sealing (start (.new sid codec startServerSeq cols rows overlay now)) events)
    (hrun : runFrom step (start (.new sid codec startServerSeq cols rows overlay now)) events = some w) :
    Exact w ∧ Resends w ∧
      (w.session.seqNum < 2 ^ 63 → w.session.transientSeqNum < 2 ^ 63 → Apart w) := by
  have hexact := ((Recorded.start ..).run hseal hrun).table
  exact ⟨hexact, hexact.resends, hexact.apart⟩

/-- A datagram that acknowledges packet 1. -/
def ackDatagram : Bytes :=
  ((MirrorSession.oneCell.codec.sealServer 1 1 .keepAlive).toOption.getD []).getD 0 []

/-- A resize, a keystroke, an ack of the first, and a tick: packet 2 is kept, and was sent again. -/
theorem arq_exact_keystroke :
    ∃ w : Arq (ChaChaCodec Bincode.crates),
      runFrom step (start .oneCell) [.winch 1 1 0, .stdin [97] 0, .recv ackDatagram 1,
        .tick (millis 250)] = some w ∧
      w.session.unackedPackets.keys = [2] ∧ w.lastSend 2 = millis 250 ∧ Exact w ∧ Resends w := by
  have hrun : (runFrom step (start .oneCell) [.winch 1 1 0, .stdin [97] 0, .recv ackDatagram 1,
      .tick (millis 250)]).map (fun w => (w.session.unackedPackets.keys, w.lastSend 2)) =
      some ([2], millis 250) := by
    decide +kernel
  obtain ⟨w, hw, heq⟩ := Option.map_eq_some_iff.mp hrun
  obtain ⟨hkeys, hlast⟩ := Prod.mk.inj heq
  obtain ⟨hexact, hresends, -⟩ := arq_exact (by decide +kernel) hw
  exact ⟨w, hw, hkeys, hlast, hexact, hresends⟩

/-- STEP: a change of the window size seals under the next number. -/
theorem winch_step {w : Arq (ChaChaCodec Bincode.crates)} (hsized : w.session.mirror.frame.Sized) :
    ∃ w', step w (.winch 1 1 0) = some w' ∧ w'.session.mirror.frame.Sized ∧
      Sealing w (.winch 1 1 0) ∧ w'.session.seqNum = w.session.seqNum + 1 := by
  obtain ⟨mirror, hmirror⟩ : ∃ mirror, w.session.mirror.abortPrediction = some mirror :=
    ⟨_, ClientTerminal.abortPrediction_eq hsized⟩
  have habort : w.session.mirror.perform .abortPrediction = some mirror := hmirror
  have hkept : mirror.frame.Sized := ClientTerminal.perform_sized hsized habort
  obtain ⟨bytes, hseal⟩ : ∃ bytes, PacketCodec.sealClient w.session.codec w.session.sessionId
      (w.session.seqNum + 1) w.session.ackSeqNum (.resize 1 1) = .ok bytes := ⟨_, rfl⟩
  obtain ⟨s', hs, hm, hseq⟩ := MirrorSession.onWinch_eq hseal hmirror 0
  have hstep : w.session.step (.winch 1 1 0) = some s' := by
    rw [MirrorSession.step, MirrorSession.turn, MirrorSession.react, hs]
    rfl
  have hcalls : callsBy w.session s' =
      [(w.session.seqNum + 1, w.session.ackSeqNum, .resize 1 1)] := by
    rw [callsBy, (MirrorSession.onWinch_seals hs).sealedCalls, List.drop_left]
  refine ⟨_, by rw [step, hstep]; rfl, ?_, fun t ht c hc => ?_, hseq⟩
  · have hmark : mirror.perform .markDirty = some s'.mirror := by rw [hm]; rfl
    exact ClientTerminal.perform_sized hkept hmark
  · obtain rfl := Option.some.inj (hstep.symm.trans ht)
    rw [hcalls, List.mem_singleton] at hc
    rw [hc]
    rfl

/-- RUN: each of any number of them. -/
theorem winch_run (k : ℕ) {w : Arq (ChaChaCodec Bincode.crates)}
    (hsized : w.session.mirror.frame.Sized) :
    StepsMeet step Sealing w (List.replicate k (.winch 1 1 0)) ∧
      ∃ w', runFrom step w (List.replicate k (.winch 1 1 0)) = some w' ∧
        w'.session.seqNum = w.session.seqNum + k := by
  induction k generalizing w with
  | zero => exact ⟨trivial, w, rfl, rfl⟩
  | succ k ih =>
    obtain ⟨t, ht, hkept, hseal, hseq⟩ := winch_step hsized
    obtain ⟨hmeets, w', hrun, hcount⟩ := ih hkept
    rw [List.replicate_succ]
    refine ⟨⟨hseal, fun u hu => ?_⟩, w', ?_, by omega⟩
    · obtain rfl := Option.some.inj (ht.symm.trans hu)
      exact hmeets
    · rw [runFrom_cons, ht, Option.bind_some, hrun]

/-- The window changes 2^63 times: the last change is sent under a number with the high bit. -/
theorem reliable_number_in_high_half :
    StepsMeet step Sealing (start .oneCell) (List.replicate (2 ^ 63) (.winch 1 1 0)) ∧
    ∃ w : Arq (ChaChaCodec Bincode.crates),
      runFrom step (start .oneCell) (List.replicate (2 ^ 63) (.winch 1 1 0)) = some w ∧
      ¬ ∀ n ∈ w.reliableNumbers, n < 2 ^ 63 := by
  have hsized : (start .oneCell : Arq (ChaChaCodec Bincode.crates)).session.mirror.frame.Sized :=
    ⟨rfl, rfl⟩
  obtain ⟨hseal, w, hrun, hseq⟩ := winch_run (2 ^ 63) hsized
  refine ⟨hseal, w, hrun, fun hall => ?_⟩
  have hstart : (start .oneCell : Arq (ChaChaCodec Bincode.crates)).session.seqNum = 0 := rfl
  have hexact : Recorded w := (Recorded.start ..).run hseal hrun
  have hmem : 2 ^ 63 ∈ w.reliableNumbers := by
    rw [hexact.table.reliable, List.mem_range'_1]
    omega
  exact absurd (hall _ hmem) (Nat.lt_irrefl _)

end Arq

end Rumsh.Client
