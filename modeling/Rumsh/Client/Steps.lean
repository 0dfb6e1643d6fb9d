import Rumsh.Client.Inversion

/-! What each operation of the client's session can change.

    `Sent` is the frame of everything that seals packets: it says which numbers are taken, what is kept
    for retransmission, and where the datagrams that go out come from. `feedPacket_cases` says once what
    a datagram of the server can do. No later proof unfolds the session's code. -/

namespace Rumsh.Client
open Std Rumsh.Protocol

namespace MirrorSession
variable {C : Type}

/-! ### What is left alone -/

/-- The two sessions agree on numbering, on what was sent and on what was received. -/
structure Quiet (s s' : MirrorSession C) : Prop where
  sessionId : s'.sessionId = s.sessionId
  seqNum : s'.seqNum = s.seqNum
  ackSeqNum : s'.ackSeqNum = s.ackSeqNum
  codec : s'.codec = s.codec
  unackedPackets : s'.unackedPackets = s.unackedPackets
  stateHistory : s'.stateHistory = s.stateHistory
  issued : s'.issued = s.issued
  applied : s'.applied = s.applied

theorem Quiet.refl (s : MirrorSession C) : Quiet s s := ⟨rfl, rfl, rfl, rfl, rfl, rfl, rfl, rfl⟩

theorem Quiet.trans {s s' s'' : MirrorSession C} (h : Quiet s s') (h' : Quiet s' s'') : Quiet s s'' :=
  ⟨h'.1.trans h.1, h'.2.trans h.2, h'.3.trans h.3, h'.4.trans h.4, h'.5.trans h.5, h'.6.trans h.6,
    h'.7.trans h.7, h'.8.trans h.8⟩

variable [PacketCodec C]

/-- Sealing packets, keeping the reliable ones, and sending `out`. -/
structure Sent (s s' : MirrorSession C) (out : List Bytes) : Prop where
  sessionId : s'.sessionId = s.sessionId
  ackSeqNum : s'.ackSeqNum = s.ackSeqNum
  codec : s'.codec = s.codec
  stateHistory : s'.stateHistory = s.stateHistory
  applied : s'.applied = s.applied
  seqNum : s.seqNum ≤ s'.seqNum
  issued : ∃ new, s'.issued = s.issued ++ new ∧ new.Pairwise (fun e e' => e.1 < e'.1) ∧
    ∀ e ∈ new, s.seqNum < e.1 ∧ e.1 ≤ s'.seqNum ∧ isReliable e.2 = true
  kept : ∀ n, n ∈ s.unackedPackets → n ∈ s'.unackedPackets
  keptNew : ∀ e ∈ s'.issued, e ∈ s.issued ∨ e.1 ∈ s'.unackedPackets
  stored : ∀ (n : ℕ) (b : Bytes) (t : Instant), s'.unackedPackets[n]? = some (b, t) →
    (∃ t', s.unackedPackets[n]? = some (b, t')) ∨ ∃ p,
      PacketCodec.sealClient s.codec s.sessionId n s.ackSeqNum p = .ok b ∧ (n, p) ∈ s'.issued
  out : ∀ b ∈ out, (∃ (n : ℕ) (t : Instant), s.unackedPackets[n]? = some (b, t)) ∨
    ∃ q p, PacketCodec.sealClient s.codec s.sessionId q s.ackSeqNum p = .ok b ∧
      ((q, p) ∈ s'.issued ∨ p = .ack ∨ ∃ f m, p = .fragmentNack f m)

variable {s s' s'' : MirrorSession C} {out out' : List Bytes}

theorem Sent.mem_issued (h : Sent s s' out) {e : ℕ × ClientPayload} (he : e ∈ s.issued) :
    e ∈ s'.issued := by
  obtain ⟨new, hnew, -⟩ := h.issued
  rw [hnew]
  exact List.mem_append_left _ he

theorem Quiet.sent (h : Quiet s s') : Sent s s' [] where
  sessionId := h.sessionId
  ackSeqNum := h.ackSeqNum
  codec := h.codec
  stateHistory := h.stateHistory
  applied := h.applied
  seqNum := h.seqNum.ge
  issued := ⟨[], by simp [h.issued], .nil, by simp⟩
  kept n hn := h.unackedPackets ▸ hn
  keptNew e he := .inl (h.issued ▸ he)
  stored n b t hb := .inl ⟨t, h.unackedPackets ▸ hb⟩
  out := by simp

theorem Sent.trans (h : Sent s s' out) (h' : Sent s' s'' out') : Sent s s'' (out ++ out') where
  sessionId := h'.sessionId.trans h.sessionId
  ackSeqNum := h'.ackSeqNum.trans h.ackSeqNum
  codec := h'.codec.trans h.codec
  stateHistory := h'.stateHistory.trans h.stateHistory
  applied := h'.applied.trans h.applied
  seqNum := h.seqNum.trans h'.seqNum
  issued := by
    obtain ⟨new, hnew, hsort, hrange⟩ := h.issued
    obtain ⟨new', hnew', hsort', hrange'⟩ := h'.issued
    refine ⟨new ++ new', by rw [hnew', hnew, List.append_assoc], ?_, ?_⟩
    · refine List.pairwise_append.mpr ⟨hsort, hsort', fun e he e' he' => ?_⟩
      exact (hrange e he).2.1.trans_lt (hrange' e' he').1
    · intro e he
      rcases List.mem_append.mp he with he | he
      · exact ⟨(hrange e he).1, (hrange e he).2.1.trans h'.seqNum, (hrange e he).2.2⟩
      · exact ⟨h.seqNum.trans_lt (hrange' e he).1, (hrange' e he).2⟩
  kept n hn := h'.kept n (h.kept n hn)
  keptNew e he := by
    rcases h'.keptNew e he with he | he
    · exact (h.keptNew e he).imp_right (h'.kept _)
    · exact .inr he
  stored n b t hb := by
    rcases h'.stored n b t hb with ⟨t', ht⟩ | ⟨p, hp, hi⟩
    · rcases h.stored n b t' ht with ht | ⟨p, hp, hi⟩
      · exact .inl ht
      · exact .inr ⟨p, hp, h'.mem_issued hi⟩
    · rw [h.codec, h.sessionId, h.ackSeqNum] at hp
      exact .inr ⟨p, hp, hi⟩
  out b hb := by
    rcases List.mem_append.mp hb with hb | hb
    · rcases h.out b hb with hb | ⟨q, p, hp, hi⟩
      · exact .inl hb
      · exact .inr ⟨q, p, hp, hi.imp_left h'.mem_issued⟩
    · rcases h'.out b hb with ⟨n, t, hb⟩ | ⟨q, p, hp, hi⟩
      · rcases h.stored n b t hb with ⟨t', ht⟩ | ⟨p, hp, hi⟩
        · exact .inl ⟨n, t', ht⟩
        · exact .inr ⟨n, p, hp, .inl (h'.mem_issued hi)⟩
      · rw [h.codec, h.sessionId, h.ackSeqNum] at hp
        exact .inr ⟨q, p, hp, hi⟩

/-! ### Which fields an operation touches -/

theorem prepareReliable_frame {payload : ClientPayload} {now : Instant} {r : Except Error (Bytes × ℕ)}
    (h : s.prepareReliable payload now = (s', r)) :
    ∃ sentPackets unackedPackets sealedCalls issued,
      s' = { s with seqNum := s.seqNum + 1, sentPackets, unackedPackets, sealedCalls, issued } := by
  obtain ⟨t, rfl, ⟨_, -, rfl, -⟩ | ⟨_, -, rfl, -⟩⟩ := prepareReliable_inv h
  · exact ⟨_, _, _, _, rfl⟩
  · exact ⟨_, _, _, _, rfl⟩

theorem sendAck_frame (s : MirrorSession C) (now : Instant) :
    ∃ transientSeqNum sealedCalls,
      (s.sendAck now).1 = { s with lastAckSent := now, transientSeqNum, sealedCalls } := by
  obtain ⟨res, ht, -⟩ := sendAck_inv (show s.sendAck now = (_, _) from rfl)
  obtain ⟨heq, -⟩ := Prod.mk.inj ht
  exact ⟨_, _, heq.symm⟩

theorem ackIfDue_frame (s : MirrorSession C) (now : Instant) :
    ∃ lastAckSent transientSeqNum sealedCalls,
      (s.ackIfDue now).1 = { s with lastAckSent, transientSeqNum, sealedCalls } := by
  obtain heq | heq := ackIfDue_inv s now
  · rw [heq]
    obtain ⟨_, _, hframe⟩ := sendAck_frame s now
    exact ⟨_, _, _, hframe⟩
  · rw [heq]
    exact ⟨_, _, _, rfl⟩

theorem nackAll_frame {now : Instant} {incomplete : List (ℕ × List ℕ)} {actions : List ClientAction}
    {r : Except Error (List ClientAction)} (h : nackAll now incomplete s actions = (s', r)) :
    ∃ nackedFrames transientSeqNum sealedCalls,
      s' = { s with nackedFrames, transientSeqNum, sealedCalls } := by
  induction incomplete generalizing s actions with
  | nil =>
    cases h
    exact ⟨_, _, _, rfl⟩
  | cons e rest ih =>
    rcases nackAll_cons_inv h with hrest | ⟨-, t, res, ht, hcase⟩
    · exact ih hrest
    · obtain ⟨rfl, -⟩ := Prod.mk.inj ht
      rcases hcase with ⟨_, -, rfl, -⟩ | ⟨_, -, hrest⟩
      · exact ⟨_, _, _, rfl⟩
      · obtain ⟨nackedFrames, transientSeqNum, sealedCalls, hframe⟩ := ih hrest
        exact ⟨nackedFrames, transientSeqNum, sealedCalls, hframe⟩

theorem tickNack_frame {now : Instant} {r : Except Error (List ClientAction)}
    (h : s.tickNack now = (s', r)) :
    ∃ lastNackCheck nackedFrames transientSeqNum sealedCalls,
      s' = { s with lastNackCheck, nackedFrames, transientSeqNum, sealedCalls } := by
  rcases tickNack_inv h with ⟨rfl, -⟩ | ⟨-, t, ht, hcase⟩
  · exact ⟨_, _, _, _, rfl⟩
  · obtain ⟨_, _, _, rfl⟩ := nackAll_frame ht
    rcases hcase with ⟨_, -, rfl⟩ | ⟨_, -, rfl⟩
    · exact ⟨_, _, _, _, rfl⟩
    · exact ⟨_, _, _, _, rfl⟩

omit [PacketCodec C] in
theorem interpret_frame (buf send : Bytes) (actions : List ClientAction) (s : MirrorSession C) :
    ∃ interpreter mirror, (s.interpret buf send actions).1 = { s with interpreter, mirror } := by
  induction buf generalizing s send actions with
  | nil => exact ⟨_, _, rfl⟩
  | cons b buf ih =>
    have hrest : ∀ i m send actions, ∃ interpreter mirror,
        (interpret { s with interpreter := i, mirror := m } buf send actions).1 =
          { s with interpreter, mirror } := fun i m send actions =>
      ih send actions { s with interpreter := i, mirror := m }
    unfold interpret
    dsimp only
    split
    · exact hrest _ _ _ _
    · exact hrest _ _ _ _
    · exact ⟨_, _, rfl⟩
    · exact hrest _ _ _ _
    · exact hrest _ _ _ _
    · exact hrest _ _ _ _

theorem sendKeys_frame {keys : Bytes} {actions : List ClientAction} {now : Instant}
    {r : Except Error (List ClientAction)} (h : s.sendKeys keys actions now = some (s', r)) :
    ∃ t res mirror, s.prepareReliable (.keystrokes keys) now = (t, res) ∧ s' = { t with mirror } := by
  obtain ⟨t, res, ht, ⟨_, -, rfl, -⟩ | ⟨_, _, -, ⟨rfl, -⟩ | ⟨mirror, -, -, rfl, -⟩⟩⟩ := sendKeys_inv h
  · exact ⟨_, _, _, ht, rfl⟩
  · exact ⟨_, _, _, ht, rfl⟩
  · exact ⟨_, _, mirror, ht, rfl⟩

/-- Stdin runs the interpreter and may then seal keystrokes. -/
theorem feedStdin_frame {buf : Bytes} {now : Instant} {r : Except Error (List ClientAction)}
    (h : s.feedStdin buf now = some (s', r)) :
    ∃ interpreter mirror, s' = { s with interpreter, mirror } ∨ ∃ keys t res mirror',
      ({ s with interpreter, mirror } : MirrorSession C).prepareReliable (.keystrokes keys) now =
        (t, res) ∧ s' = { t with mirror := mirror' } := by
  obtain ⟨interpreter, mirror, hint⟩ := interpret_frame buf [] [] s
  obtain ⟨t, send, actions, _, heq, hcase⟩ := feedStdin_inv h
  rw [heq] at hint
  obtain rfl : t = { s with interpreter, mirror } := hint
  refine ⟨interpreter, mirror, ?_⟩
  rcases hcase with ⟨-, rfl, -⟩ | ⟨-, -, rfl, -⟩ | ⟨-, -, hkeys⟩
  · exact .inl rfl
  · exact .inl rfl
  · obtain ⟨u, res, mirror', hu, hs⟩ := sendKeys_frame hkeys
    exact .inr ⟨_, u, res, mirror', hu, hs⟩

theorem onWinch_frame {cols rows : ℕ} {now : Instant} {r : Except Error (List ClientAction)}
    (h : s.onWinch cols rows now = some (s', r)) :
    ∃ t res mirror, s.prepareReliable (.resize cols rows) now = (t, res) ∧ s' = { t with mirror } := by
  obtain ⟨t, res, ht, ⟨_, -, rfl, -⟩ | ⟨_, _, mirror, -, -, rfl, -⟩⟩ := onWinch_inv h
  · exact ⟨_, _, _, ht, rfl⟩
  · exact ⟨_, _, mirror.markDirty, ht, rfl⟩

omit [PacketCodec C] in
theorem copyFrameIfDirty_frame (s : MirrorSession C) (dest : TerminalFrame) :
    ∃ mirror paintCountAcc, (s.copyFrameIfDirty dest).1 = { s with mirror, paintCountAcc } := by
  unfold copyFrameIfDirty
  dsimp only
  split <;> exact ⟨_, _, rfl⟩

/-! ### Sealing -/

/-- The datagram of a sealed packet, if there is one. -/
def datagramOf {α : Type} (f : α → Bytes) : Except Error α → List Bytes
  | .ok a => [f a]
  | .error _ => []

theorem prepareReliable_sent {payload : ClientPayload} {now : Instant}
    {r : Except Error (Bytes × ℕ)} (hp : isReliable payload = true)
    (h : s.prepareReliable payload now = (s', r)) : Sent s s' (datagramOf Prod.fst r) := by
  obtain ⟨t, rfl, ⟨e, -, rfl, rfl⟩ | ⟨bytes, hseal, rfl, rfl⟩⟩ := prepareReliable_inv h
  · exact { sessionId := rfl, ackSeqNum := rfl, codec := rfl, stateHistory := rfl, applied := rfl
            seqNum := Nat.le_succ _, issued := ⟨[], by simp, .nil, by simp⟩, kept := fun _ => id
            keptNew := fun _ => .inl, stored := fun n b t hb => .inl ⟨t, hb⟩
            out := by simp [datagramOf] }
  · refine { sessionId := rfl, ackSeqNum := rfl, codec := rfl, stateHistory := rfl, applied := rfl
             seqNum := Nat.le_succ _, issued := ⟨[(s.seqNum + 1, payload)], rfl, by simp, ?_⟩
             kept := ?_, keptNew := ?_, stored := ?_, out := ?_ }
    · simpa using hp
    · intro n hn
      exact TreeMap.mem_insert.mpr (.inr hn)
    · intro e he
      rcases List.mem_append.mp he with he | he
      · exact .inl he
      · rw [List.mem_singleton.mp he]
        exact .inr TreeMap.mem_insert_self
    · intro n b t hb
      rw [TreeMap.getElem?_insert] at hb
      split at hb
      · rename_i hn
        rw [Nat.compare_eq_eq] at hn
        obtain ⟨rfl, -⟩ := Prod.mk.inj (Option.some.inj hb)
        subst hn
        exact .inr ⟨payload, hseal, List.mem_append_right _ (List.mem_singleton.mpr rfl)⟩
      · exact .inl ⟨t, hb⟩
    · intro b hb
      rw [List.mem_singleton.mp hb]
      exact .inr ⟨s.seqNum + 1, payload, hseal,
        .inl (List.mem_append_right _ (List.mem_singleton.mpr rfl))⟩

theorem prepareTransient_sent {payload : ClientPayload} {r : Except Error Bytes}
    (hp : payload = .ack ∨ ∃ f m, payload = .fragmentNack f m)
    (h : s.prepareTransient payload = (s', r)) : Sent s s' (datagramOf id r) := by
  obtain ⟨rfl, hseal⟩ := Prod.mk.inj h
  refine { sessionId := rfl, ackSeqNum := rfl, codec := rfl, stateHistory := rfl, applied := rfl
           seqNum := Nat.le_refl _, issued := ⟨[], by simp, .nil, by simp⟩, kept := fun _ => id
           keptNew := fun _ => .inl, stored := fun n b t hb => .inl ⟨t, hb⟩, out := fun b hb => ?_ }
  cases r with
  | error e => cases hb
  | ok bytes =>
    rw [List.mem_singleton.mp hb]
    exact .inr ⟨_, payload, hseal, .inr hp⟩

theorem Sent.mono (h : Sent s s' out) (hsub : ∀ b ∈ out', b ∈ out) : Sent s s' out' :=
  { h with out := fun b hb => h.out b (hsub b hb) }

theorem sendAck_sent {now : Instant} {actions : List ClientAction}
    (h : s.sendAck now = (s', actions)) : Sent s s' (sendsOf actions) := by
  have hq : Quiet s { s with lastAckSent := now } := ⟨rfl, rfl, rfl, rfl, rfl, rfl, rfl, rfl⟩
  obtain ⟨res, ht, ⟨e, rfl, rfl⟩ | ⟨bytes, rfl, rfl⟩⟩ := sendAck_inv h
  · exact hq.sent.trans (prepareTransient_sent (.inl rfl) ht)
  · exact hq.sent.trans (prepareTransient_sent (.inl rfl) ht)

/-! ### Input -/

omit [PacketCodec C] in
/-- The escape interpreter sends nothing. -/
theorem sendsOf_interpret (buf send : Bytes) (actions : List ClientAction) (s : MirrorSession C) :
    sendsOf (s.interpret buf send actions).2.2.1 = sendsOf actions := by
  induction buf generalizing s send actions with
  | nil => rfl
  | cons b buf ih =>
    have hadd : ∀ a, (∀ bytes, a ≠ ClientAction.sendPacket bytes) →
        sendsOf (actions ++ [a]) = sendsOf actions := by
      intro a ha
      cases a <;> simp [sendsOf] at ha ⊢
    unfold interpret
    dsimp only
    split
    · exact ih _ _ _
    · exact ih _ _ _
    · exact hadd _ (by simp)
    · exact (ih _ _ _).trans (hadd _ (by simp))
    · exact (ih _ _ _).trans (hadd _ (by simp))
    · exact (ih _ _ _).trans (hadd _ (by simp))

theorem sendKeys_sent {keys : Bytes} {actions : List ClientAction} {now : Instant}
    {r : Except Error (List ClientAction)} (hact : sendsOf actions = [])
    (h : s.sendKeys keys actions now = some (s', r)) : Sent s s' (outOf r) := by
  obtain ⟨t, res, ht, ⟨e, rfl, rfl, rfl⟩ | ⟨bytes, seq, rfl, hcase⟩⟩ := sendKeys_inv h
  · exact prepareReliable_sent rfl ht
  · have hsent : Sent s t [bytes] := prepareReliable_sent rfl ht
    rcases hcase with ⟨rfl, rfl⟩ | ⟨mirror, -, -, rfl, rfl⟩
    · exact hsent.mono (by simp [outOf, hact])
    · have hq : Quiet t { t with mirror } := ⟨rfl, rfl, rfl, rfl, rfl, rfl, rfl, rfl⟩
      exact (hsent.trans hq.sent).mono (by simp [outOf, hact])

theorem feedStdin_sent {buf : Bytes} {now : Instant} {r : Except Error (List ClientAction)}
    (h : s.feedStdin buf now = some (s', r)) : Sent s s' (outOf r) := by
  obtain ⟨interpreter, mirror, hint⟩ := interpret_frame buf [] [] s
  have hact := sendsOf_interpret buf [] [] s
  obtain ⟨t, send, actions, _, heq, hcase⟩ := feedStdin_inv h
  rw [heq] at hint hact
  obtain rfl : t = { s with interpreter, mirror } := hint
  have hq : Quiet s { s with interpreter, mirror } := ⟨rfl, rfl, rfl, rfl, rfl, rfl, rfl, rfl⟩
  have hquiet : Sent s { s with interpreter, mirror } (sendsOf actions) := by
    rw [hact]
    exact hq.sent
  rcases hcase with ⟨-, rfl, rfl⟩ | ⟨-, -, rfl, rfl⟩ | ⟨-, -, hkeys⟩
  · exact hquiet
  · exact hquiet
  · exact hq.sent.trans (sendKeys_sent hact hkeys)

theorem onWinch_sent {cols rows : ℕ} {now : Instant} {r : Except Error (List ClientAction)}
    (h : s.onWinch cols rows now = some (s', r)) : Sent s s' (outOf r) := by
  obtain ⟨t, res, ht, ⟨e, rfl, rfl, rfl⟩ | ⟨bytes, seq, mirror, rfl, -, rfl, rfl⟩⟩ := onWinch_inv h
  · exact prepareReliable_sent rfl ht
  · have hq : Quiet t { t with mirror := mirror.markDirty } := ⟨rfl, rfl, rfl, rfl, rfl, rfl, rfl, rfl⟩
    exact (prepareReliable_sent rfl ht).trans hq.sent

/-! ### Timers -/

theorem tickKeepalive_sent {now : Instant} {r : Except Error (List ClientAction)}
    (h : s.tickKeepalive now = (s', r)) : Sent s s' (outOf r) := by
  have hq : Quiet s { s with lastKeepaliveSent := now } := ⟨rfl, rfl, rfl, rfl, rfl, rfl, rfl, rfl⟩
  rcases tickKeepalive_inv h with ⟨rfl, rfl⟩ | ⟨res, ht, rfl⟩
  · exact (Quiet.refl s').sent
  · have hsent := hq.sent.trans (prepareReliable_sent rfl ht)
    cases res with
    | error e => exact hsent
    | ok p => exact hsent

/-- The retransmission keeps the table's datagrams and sends only those. -/
theorem tickArq_sent (s : MirrorSession C) (now : Instant) :
    Sent s (s.tickArq now).1 (sendsOf (s.tickArq now).2) := by
  unfold tickArq
  split
  · refine { sessionId := rfl, ackSeqNum := rfl, codec := rfl, stateHistory := rfl, applied := rfl
             seqNum := Nat.le_refl _, issued := ⟨[], by simp, .nil, by simp⟩
             kept := fun n hn => TreeMap.mem_map.mpr hn, keptNew := fun _ => .inl
             stored := fun n b t hb => ?_, out := fun b hb => ?_ }
    · rw [TreeMap.getElem?_map] at hb
      obtain ⟨⟨b', t'⟩, ht, heq⟩ := Option.map_eq_some_iff.mp hb
      obtain ⟨rfl, -⟩ := Prod.mk.inj heq
      exact .inl ⟨t', ht⟩
    · simp only [sendsOf, List.filterMap_map, List.mem_filterMap] at hb
      obtain ⟨⟨n, b', t⟩, hmem, heq⟩ := hb
      obtain rfl : b' = b := by simpa using heq
      rw [List.mem_filter, TreeMap.mem_toList_iff_getElem?_eq_some] at hmem
      exact .inl ⟨n, t, hmem.1⟩
  · exact (Quiet.refl s).sent

omit [PacketCodec C] in
theorem tickBanner_quiet {now : Instant} {actions : List ClientAction}
    (h : s.tickBanner now = some (s', actions)) : Quiet s s' ∧ sendsOf actions = [] := by
  rcases tickBanner_inv h with ⟨-, rfl, rfl⟩ | ⟨_, mirror, -, -, -, rfl, rfl⟩
  · exact ⟨.refl s', rfl⟩
  · exact ⟨⟨rfl, rfl, rfl, rfl, rfl, rfl, rfl, rfl⟩, rfl⟩

omit [PacketCodec C] in
theorem tickTelemetry_quiet (s : MirrorSession C) (now : Instant) :
    Quiet s (s.tickTelemetry now).1 ∧ sendsOf (s.tickTelemetry now).2 = [] := by
  obtain heq | ⟨_, _, _, heq⟩ := tickTelemetry_inv s now
  · rw [heq]
    exact ⟨.refl s, rfl⟩
  · rw [heq]
    exact ⟨⟨rfl, rfl, rfl, rfl, rfl, rfl, rfl, rfl⟩, rfl⟩

theorem nackAll_sent {now : Instant} {incomplete : List (ℕ × List ℕ)} {actions : List ClientAction}
    {r : Except Error (List ClientAction)} (h : nackAll now incomplete s actions = (s', r)) :
    ∃ out, Sent s s' out ∧ ∀ b ∈ outOf r, b ∈ sendsOf actions ++ out := by
  induction incomplete generalizing s actions with
  | nil =>
    cases h
    exact ⟨[], (Quiet.refl _).sent, by simp [outOf]⟩
  | cons e rest ih =>
    rcases nackAll_cons_inv h with hrest | ⟨-, t, res, ht, hcase⟩
    · exact ih hrest
    · have hq : Quiet s { s with nackedFrames := s.nackedFrames.insert e.1 now } :=
        ⟨rfl, rfl, rfl, rfl, rfl, rfl, rfl, rfl⟩
      have hsent := hq.sent.trans (prepareTransient_sent (.inr ⟨_, _, rfl⟩) ht)
      rcases hcase with ⟨err, rfl, rfl, rfl⟩ | ⟨bytes, rfl, hrest⟩
      · exact ⟨[], hsent, by simp [outOf]⟩
      · obtain ⟨out, hout, hsub⟩ := ih hrest
        refine ⟨[bytes] ++ out, hsent.trans hout, fun b hb => ?_⟩
        simpa using hsub b hb

theorem tickNack_sent {now : Instant} {r : Except Error (List ClientAction)}
    (h : s.tickNack now = (s', r)) : Sent s s' (outOf r) := by
  rcases tickNack_inv h with ⟨rfl, rfl⟩ | ⟨-, t, ht, hcase⟩
  · exact (Quiet.refl s').sent
  · have hq : Quiet s { s with lastNackCheck := now } := ⟨rfl, rfl, rfl, rfl, rfl, rfl, rfl, rfl⟩
    obtain ⟨out, hsent, hsub⟩ := nackAll_sent ht
    have hall : Sent s t (outOf r) := (hq.sent.trans hsent).mono fun b hb => by simpa using hsub b hb
    rcases hcase with ⟨_, -, rfl⟩ | ⟨_, -, rfl⟩
    · exact hall
    · have hq' : ∀ m, Quiet t { t with nackedFrames := m } := fun _ =>
        ⟨rfl, rfl, rfl, rfl, rfl, rfl, rfl, rfl⟩
      exact (hall.trans (hq' _).sent).mono (by simp)

theorem onTick_sent {now : Instant} {r : Except Error (List ClientAction)}
    (h : s.onTick now = some (s', r)) : Sent s s' (outOf r) := by
  rcases onTick_inv h with ⟨e, hk, rfl⟩ | ⟨t, keepalive, u, banner, nacks, hk, hb, hn, rfl⟩
  · exact tickKeepalive_sent hk
  · obtain ⟨hqb, hsb⟩ := tickBanner_quiet hb
    obtain ⟨hqt, hst⟩ := tickTelemetry_quiet u now
    have hall := (((tickKeepalive_sent hk).trans (tickArq_sent t now)).trans hqb.sent).trans
      (hqt.sent.trans (tickNack_sent hn))
    refine hall.mono fun b hmem => ?_
    cases nacks with
    | error e => simp [Except.map, outOf] at hmem
    | ok nacks => simpa [Except.map, outOf, hsb, hst] using hmem

/-! ### Datagrams -/

/-- What the header of an opened datagram changes: the codec, and the packets it acknowledges. -/
structure Noted (s : MirrorSession C) (codec : C) (ack : ℕ) (t : MirrorSession C) : Prop where
  sessionId : t.sessionId = s.sessionId
  seqNum : t.seqNum = s.seqNum
  ackSeqNum : t.ackSeqNum = s.ackSeqNum
  codec : t.codec = codec
  unackedPackets : t.unackedPackets = s.unackedPackets.filter fun n _ => ack < n
  stateHistory : t.stateHistory = s.stateHistory
  issued : t.issued = s.issued
  applied : t.applied = s.applied

omit [PacketCodec C] in
theorem noteHeaders_noted {seq ack : ℕ} {stats : CodecStats} {now : Instant} {t : MirrorSession C}
    (h : s.noteHeaders seq ack stats now = some t) : Noted s s.codec ack t := by
  obtain ⟨_, _, _, _, _, -, rfl⟩ := noteHeaders_inv h
  exact ⟨rfl, rfl, rfl, rfl, rfl, rfl, rfl, rfl⟩

omit [PacketCodec C] in
theorem accept_quiet {seq : ℕ} {now : Instant} {t : MirrorSession C} (h : s.accept seq now = some t) :
    Quiet { s with ackSeqNum := seq } t := by
  obtain ⟨_, -, rfl⟩ := accept_inv h
  exact ⟨rfl, rfl, rfl, rfl, rfl, rfl, rfl, rfl⟩

/-- INVERSION: all that a datagram can do to the session. -/
theorem feedPacket_cases {bytes : Bytes} {now : Instant} {r : Except Error (List ClientAction)}
    (h : s.feedPacket bytes now = some (s', r)) :
    -- it does not open, or completes nothing
    ((∀ x, (PacketCodec.openServer s.codec bytes).2 ≠ .ok (some x)) ∧
      s' = { s with codec := (PacketCodec.openServer s.codec bytes).1 } ∧ r = .ok []) ∨
    ∃ packet payload stats t,
      (PacketCodec.openServer s.codec bytes).2 = .ok (some (packet, payload, stats)) ∧
      Noted s (PacketCodec.openServer s.codec bytes).1 packet.ackSeqNum t ∧
      ((packet.seqNum ≤ s.ackSeqNum ∧ s' = t ∧ r = .ok []) ∨
      (s.ackSeqNum < packet.seqNum ∧ ∃ u, Quiet { t with ackSeqNum := packet.seqNum } u ∧
        u.feedPayload packet.seqNum payload now = some (s', r))) := by
  rcases feedPacket_inv h with hnone | ⟨packet, payload, stats, t, hopen, ht, hcase⟩
  · exact .inl hnone
  · have hn := noteHeaders_noted ht
    refine .inr ⟨packet, payload, stats, t, hopen, ⟨hn.1, hn.2, hn.3, hn.4, hn.5, hn.6, hn.7, hn.8⟩, ?_⟩
    rcases hcase with hold | ⟨hlt, u, hu, hp⟩
    · exact .inl hold
    · exact .inr ⟨hlt, u, accept_quiet hu, hp⟩

/-- The session after a grid was shown and put into the history. -/
def Shown (s : MirrorSession C) (seq : ℕ) (g : GridState) (t : MirrorSession C) : Prop :=
  Quiet { s with stateHistory := capHistory (s.stateHistory ++ [(seq, g)]),
                 applied := s.applied ++ [(seq, g)] } t

omit [PacketCodec C] in
theorem showFrame_shown {seq : ℕ} {g : GridState} {echo : Bool} {t : MirrorSession C}
    (h : s.showFrame seq g echo = some t) : Shown s seq g t := by
  obtain ⟨_, _, -, -, rfl⟩ := showFrame_inv h
  exact ⟨rfl, rfl, rfl, rfl, rfl, rfl, rfl, rfl⟩

theorem ackIfDue_sent (s : MirrorSession C) (now : Instant) :
    Sent s (s.ackIfDue now).1 (sendsOf (s.ackIfDue now).2) := by
  obtain heq | heq := ackIfDue_inv s now
  · rw [heq]
    exact sendAck_sent rfl
  · rw [heq]
    exact (Quiet.refl s).sent

/-- INVERSION: a frame lacks its reference, is malformed, or is shown. -/
theorem feedFrame_cases {seq : ℕ} {update : FrameUpdate} {now : Instant}
    {r : Except Error (List ClientAction)} (h : s.feedFrame seq update now = some (s', r)) :
    (s.baseFor update = none ∧ Sent s s' (outOf r)) ∨
    ∃ base g, s.baseFor update = some base ∧
      ((∃ e, base.patch update = some (g, .error e) ∧ s' = s ∧ r = .error e) ∨
      (base.patch update = some (g, .ok ()) ∧ ∃ t, Shown s seq g t ∧ Sent t s' (outOf r))) := by
  rcases feedFrame_inv h with ⟨hb, rfl, rfl⟩ | ⟨base, g, hb, herr | ⟨hp, t, ht, rfl, rfl⟩⟩
  · exact .inl ⟨hb, sendAck_sent rfl⟩
  · exact .inr ⟨base, g, hb, .inl herr⟩
  · exact .inr ⟨base, g, hb, .inr ⟨hp, t, showFrame_shown ht, ackIfDue_sent t now⟩⟩

/-- What receiving a datagram changes before anything is sent. -/
structure Received (s : MirrorSession C) (bytes : Bytes) (u : MirrorSession C) : Prop where
  sessionId : u.sessionId = s.sessionId
  seqNum : u.seqNum = s.seqNum
  codec : u.codec = (PacketCodec.openServer s.codec bytes).1
  issued : u.issued = s.issued
  unackedPackets : u.unackedPackets = s.unackedPackets ∨ ∃ packet payload stats,
    (PacketCodec.openServer s.codec bytes).2 = .ok (some (packet, payload, stats)) ∧
    u.unackedPackets = s.unackedPackets.filter fun n _ => packet.ackSeqNum < n

theorem feedPacket_sent {bytes : Bytes} {now : Instant} {r : Except Error (List ClientAction)}
    (h : s.feedPacket bytes now = some (s', r)) : ∃ u, Received s bytes u ∧ Sent u s' (outOf r) := by
  rcases feedPacket_cases h with ⟨-, rfl, rfl⟩ | ⟨packet, payload, stats, t, hopen, hn, hcase⟩
  · exact ⟨{ s with codec := (PacketCodec.openServer s.codec bytes).1 },
      ⟨rfl, rfl, rfl, rfl, .inl rfl⟩, (Quiet.refl _).sent⟩
  · have hrecv : ∀ u : MirrorSession C, u.sessionId = t.sessionId → u.seqNum = t.seqNum →
        u.codec = t.codec → u.issued = t.issued → u.unackedPackets = t.unackedPackets →
        Received s bytes u := fun u h₁ h₂ h₃ h₄ h₅ =>
      ⟨h₁.trans hn.1, h₂.trans hn.2, h₃.trans hn.4, h₄.trans hn.7,
        .inr ⟨packet, payload, stats, hopen, h₅.trans hn.5⟩⟩
    rcases hcase with ⟨-, rfl, rfl⟩ | ⟨-, u, hu, hp⟩
    · exact ⟨_, hrecv _ rfl rfl rfl rfl rfl, (Quiet.refl _).sent⟩
    · have hru : Received s bytes u := hrecv u hu.1 hu.2 hu.4 hu.7 hu.5
      cases payload with
      | keepAlive => cases hp; exact ⟨_, hru, (Quiet.refl _).sent⟩
      | shutdown => cases hp; exact ⟨_, hru, (Quiet.refl _).sent⟩
      | handshakeAck sid => cases hp; exact ⟨_, hru, (Quiet.refl _).sent⟩
      | frame update =>
        rcases feedFrame_cases hp with ⟨-, hs⟩ | ⟨base, g, -, ⟨e, -, rfl, rfl⟩ | ⟨-, v, hv, hs⟩⟩
        · exact ⟨_, hru, hs⟩
        · exact ⟨_, hru, (Quiet.refl _).sent⟩
        · exact ⟨v, hrecv v (hv.1.trans hu.1) (hv.2.trans hu.2) (hv.4.trans hu.4) (hv.7.trans hu.7)
            (hv.5.trans hu.5), hs⟩

/-- INVERSION: a turn that receives nothing only sends. -/
theorem turn_sent {ev : MirrorEvent} (hev : ∀ bytes now, ev ≠ .recv bytes now)
    (h : s.turn ev = some (s', out)) : Sent s s' out := by
  obtain ⟨r, hr, rfl⟩ := turn_eq_some_iff.mp h
  cases ev with
  | recv bytes now => exact absurd rfl (hev bytes now)
  | stdin buf now => exact feedStdin_sent hr
  | winch cols rows now => exact onWinch_sent hr
  | tick now => exact onTick_sent hr
  | paint dest =>
    cases hr
    obtain ⟨_, _, hframe⟩ := copyFrameIfDirty_frame s dest
    rw [hframe]
    exact Quiet.sent ⟨rfl, rfl, rfl, rfl, rfl, rfl, rfl, rfl⟩

/-- INVERSION: a turn takes in what it received, if anything, and then sends. -/
theorem turn_cases {ev : MirrorEvent} (h : s.turn ev = some (s', out)) :
    (∃ bytes now u, ev = .recv bytes now ∧ Received s bytes u ∧ Sent u s' out) ∨
    ((∀ bytes now, ev ≠ .recv bytes now) ∧ Sent s s' out) := by
  by_cases hev : ∃ bytes now, ev = .recv bytes now
  · obtain ⟨bytes, now, rfl⟩ := hev
    obtain ⟨r, hr, rfl⟩ := turn_eq_some_iff.mp h
    obtain ⟨u, hu, hs⟩ := feedPacket_sent hr
    exact .inl ⟨bytes, now, u, rfl, hu, hs⟩
  · have hne : ∀ bytes now, ev ≠ .recv bytes now := fun bytes now heq => hev ⟨bytes, now, heq⟩
    exact .inr ⟨hne, turn_sent hne h⟩

end MirrorSession

end Rumsh.Client
