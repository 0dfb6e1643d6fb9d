import Rumsh.Client.Mirror
import Rumsh.Client.Staleness

/-! The batches of keystrokes that wait for the server's confirmation.

    The client numbers its packets, the server numbers its own. A pending batch carries the client's
    number. An acknowledgement prunes by the ack it carries, a frame by its own, the server's, number. -/

namespace Rumsh.Client
open Rumsh.Schemes Rumsh.Protocol

namespace ClientTerminal
open TerminalFrame LocalEchoEngine

/-! ### What holds of the pending batches -/

/-- The screen has its size, and the pending batches are of the current epoch, in the order of their
    numbers, none beyond `n`, and free of control bytes. -/
structure Pending (n : ℕ) (t : ClientTerminal) : Prop where
  sized : t.frame.Sized
  epoch : ∀ p ∈ t.echoEngine.unconfirmedInputs, p.epoch = t.echoEngine.currentEpoch
  sorted : t.echoEngine.keys.Pairwise fun k k' => k.1 < k'.1
  le : ∀ k ∈ t.echoEngine.keys, k.1 ≤ n
  plain : ∀ k ∈ t.echoEngine.keys, ∀ b ∈ k.2, MirrorSession.isAsciiControl b = false

/-- What a turn of the session asks of the mirror while the client's counter goes from `n` to `n'`. -/
inductive Moves : ℕ → ClientTerminal → ℕ → ClientTerminal → Prop
  | same {n n' : ℕ} {t t' : ClientTerminal} (hn : n ≤ n') (h : SameScreen t t') : Moves n t n' t'
  | predict {n n' : ℕ} {t t' : ClientTerminal} {bytes : Bytes} (hn : n < n')
      (hplain : ∀ b ∈ bytes, MirrorSession.isAsciiControl b = false)
      (h : t.predictInput bytes n' = some t') : Moves n t n' t'
  | acknowledge {n : ℕ} {t t' : ClientTerminal} {ack : ℕ} (h : t.acknowledge ack = some t') :
      Moves n t n t'
  | applyFrame {n : ℕ} {t t' : ClientTerminal} {g : GridState} {seq : ℕ}
      (h : t.applyFrame g seq = some t') : Moves n t n t'
  | abort {n : ℕ} {t t' : ClientTerminal} (h : t.abortPrediction = some t') : Moves n t n t'
  | trans {n₁ n₂ n₃ : ℕ} {t₁ t₂ t₃ : ClientTerminal} (h : Moves n₁ t₁ n₂ t₂) (h' : Moves n₂ t₂ n₃ t₃) :
      Moves n₁ t₁ n₃ t₃

theorem Moves.refl (n : ℕ) (t : ClientTerminal) : Moves n t n t := .same le_rfl (.refl t)

variable {n n' : ℕ} {t t' : ClientTerminal}

/-- Batches in order: those an ack leaves are those with larger numbers. -/
theorem Pending.surviving_keys (h : Pending n t) (ack : ℕ) :
    (t.echoEngine.surviving ack).map keyOf =
      t.echoEngine.keys.filter fun k => decide (ack < k.1) := by
  have hepoch := h.epoch
  have hsort := h.sorted
  unfold LocalEchoEngine.surviving
  unfold LocalEchoEngine.keys at hsort ⊢
  generalize t.echoEngine.currentEpoch = epoch at hepoch ⊢
  generalize t.echoEngine.unconfirmedInputs = entries at hepoch hsort ⊢
  induction entries with
  | nil => rfl
  | cons p entries ih =>
    have hp := hepoch p (List.mem_cons_self ..)
    rw [List.map_cons, List.pairwise_cons] at hsort
    by_cases hle : p.seqNum ≤ ack
    · have hdrop : ¬ decide (ack < (keyOf p).1) = true :=
        fun hd => Nat.not_lt.mpr hle (of_decide_eq_true hd)
      rw [List.dropWhile_cons_of_pos (by simp [hle]), List.map_cons, List.filter_cons, if_neg hdrop]
      exact ih (fun q hq => hepoch q (List.mem_cons_of_mem _ hq)) hsort.2
    · -- the front survives, and so does all that is behind it
      have hkeep : decide (ack < (keyOf p).1) = true := decide_eq_true (Nat.not_le.mp hle)
      rw [List.dropWhile_cons_of_neg (by simp [hle, hp]), List.map_cons, List.filter_cons, if_pos hkeep]
      congr 1
      refine (List.filter_eq_self.mpr fun k hk => ?_).symm
      have hlt : p.seqNum < k.1 := hsort.1 k hk
      exact decide_eq_true ((Nat.not_le.mp hle).trans hlt)

theorem Pending.sameScreen (h : Pending n t) (hn : n ≤ n') (hs : SameScreen t t') : Pending n' t' := by
  refine ⟨hs.sized h.sized, ?_, ?_, ?_, ?_⟩ <;> rw [hs.echoEngine]
  · exact h.epoch
  · exact h.sorted
  · exact fun k hk => (h.le k hk).trans hn
  · exact h.plain

/-- A mirror whose pending batches are some of those before. -/
theorem Pending.of_filter (h : Pending n t) (hsized : t'.frame.Sized)
    (hepoch : ∀ p ∈ t'.echoEngine.unconfirmedInputs, p.epoch = t'.echoEngine.currentEpoch)
    {P : ℕ × Bytes → Bool} (hkeys : t'.echoEngine.keys = t.echoEngine.keys.filter P) : Pending n t' := by
  refine ⟨hsized, hepoch, ?_, ?_, ?_⟩ <;> rw [hkeys]
  · exact h.sorted.filter _
  · exact fun k hk => h.le k (List.mem_of_mem_filter hk)
  · exact fun k hk => h.plain k (List.mem_of_mem_filter hk)

theorem Pending.predictInput (h : Pending n t) {bytes : Bytes} (hn : n < n')
    (hplain : ∀ b ∈ bytes, MirrorSession.isAsciiControl b = false)
    (hp : t.predictInput bytes n' = some t') : Pending n' t' := by
  obtain ⟨old, heq⟩ := predictInput_eq h.sized bytes n'
  obtain rfl := Option.some.inj (heq.symm.trans hp)
  have hkeys : ∀ entry, ({ t.echoEngine with unconfirmedInputs :=
      t.echoEngine.unconfirmedInputs ++ [entry] } : LocalEchoEngine).keys =
        t.echoEngine.keys ++ [keyOf entry] := fun _ => List.map_append
  refine ⟨h.sized.paint _ _, fun p hp => ?_, ?_, fun k hk => ?_, fun k hk => ?_⟩
  · rcases List.mem_append.mp hp with hp | hp
    · exact h.epoch p hp
    · rw [List.mem_singleton.mp hp]
  · rw [hkeys, List.pairwise_append]
    refine ⟨h.sorted, List.pairwise_singleton _ _, fun k hk k' hk' => ?_⟩
    rw [List.mem_singleton.mp hk']
    exact (h.le k hk).trans_lt hn
  · rw [hkeys] at hk
    rcases List.mem_append.mp hk with hk | hk
    · exact (h.le k hk).trans hn.le
    · rw [List.mem_singleton.mp hk]
      exact le_rfl
  · rw [hkeys] at hk
    rcases List.mem_append.mp hk with hk | hk
    · exact h.plain k hk
    · rw [List.mem_singleton.mp hk]
      exact hplain

/-- An ack leaves the batches with larger numbers. -/
theorem Pending.acknowledge (h : Pending n t) {ack : ℕ} (ha : t.acknowledge ack = some t') :
    Pending n t' ∧ t'.echoEngine.keys = t.echoEngine.keys.filter fun k => decide (ack < k.1) := by
  obtain ⟨e', heq, -, hkeys, hepoch⟩ := acknowledge_eq h.sized ack
  obtain rfl := Option.some.inj (heq.symm.trans ha)
  have hfilter := hkeys.trans (h.surviving_keys ack)
  exact ⟨h.of_filter (h.sized.paint _ _) hepoch hfilter, hfilter⟩

/-- A frame leaves the batches with numbers larger than its own. -/
theorem Pending.applyFrame (h : Pending n t) {g : GridState} {seq : ℕ}
    (ha : t.applyFrame g seq = some t') :
    Pending n t' ∧ t'.echoEngine.keys = t.echoEngine.keys.filter fun k => decide (seq < k.1) := by
  have hperf : t.perform (.applyFrame g seq) = some t' := ha
  have hsized := perform_sized h.sized hperf
  obtain ⟨f, e', -, -, -, heq, -, hkeys, hepoch⟩ := applyFrame_eq h.sized g seq
  obtain rfl := Option.some.inj (heq.symm.trans ha)
  have hfilter := hkeys.trans (h.surviving_keys seq)
  exact ⟨h.of_filter hsized hepoch hfilter, hfilter⟩

theorem Pending.abortPrediction (h : Pending n t) (ha : t.abortPrediction = some t') : Pending n t' := by
  obtain rfl := Option.some.inj ((abortPrediction_eq h.sized).symm.trans ha)
  exact ⟨h.sized.paint _ _, by simp, by simp [keys], by simp [keys], by simp [keys]⟩

/-- RUN: what the session asks of the mirror keeps the batches in order. -/
theorem Pending.moves (hm : Moves n t n' t') (h : Pending n t) : Pending n' t' := by
  induction hm with
  | same hn hs => exact h.sameScreen hn hs
  | predict hn hplain hp => exact h.predictInput hn hplain hp
  | acknowledge ha => exact (h.acknowledge ha).1
  | applyFrame ha => exact (h.applyFrame ha).1
  | abort ha => exact h.abortPrediction ha
  | trans _ _ ih ih' => exact ih' (ih h)

end ClientTerminal

/-! ### What the session asks of the mirror -/

namespace MirrorSession
open TerminalFrame LocalEchoEngine ClientTerminal
variable {C : Type} [PacketCodec C] {s s' : MirrorSession C}

theorem prepareReliable_mirror {payload : ClientPayload} {now : Instant} {r : Except Error (Bytes × ℕ)}
    (h : s.prepareReliable payload now = (s', r)) :
    s'.mirror = s.mirror ∧ s'.seqNum = s.seqNum + 1 ∧
      ∀ bytes seq, r = .ok (bytes, seq) → seq = s'.seqNum := by
  obtain ⟨t, rfl, ⟨_, -, rfl, rfl⟩ | ⟨_, -, rfl, rfl⟩⟩ := prepareReliable_inv h
  · exact ⟨rfl, rfl, fun _ _ h => by cases h⟩
  · exact ⟨rfl, rfl, fun _ _ h => by cases h; rfl⟩

theorem sendAck_mirror (s : MirrorSession C) (now : Instant) : (s.sendAck now).1.mirror = s.mirror := by
  obtain ⟨_, _, hframe⟩ := sendAck_frame s now
  rw [hframe]

theorem tickNack_mirror {now : Instant} {r : Except Error (List ClientAction)}
    (h : s.tickNack now = (s', r)) : s'.mirror = s.mirror := by
  obtain ⟨_, _, _, _, rfl⟩ := tickNack_frame h
  rfl

theorem tickKeepalive_mirror {now : Instant} {r : Except Error (List ClientAction)}
    (h : s.tickKeepalive now = (s', r)) : s'.mirror = s.mirror := by
  rcases tickKeepalive_inv h with ⟨rfl, -⟩ | ⟨_, ht, -⟩
  · rfl
  · exact (prepareReliable_mirror ht).1

omit [PacketCodec C] in
theorem tickBanner_sameScreen {now : Instant} {actions : List ClientAction}
    (h : s.tickBanner now = some (s', actions)) : SameScreen s.mirror s'.mirror := by
  rcases tickBanner_inv h with ⟨-, rfl, -⟩ | ⟨_, mirror, -, -, hm, -, rfl⟩
  · exact .refl _
  · exact setReconnecting_sameScreen hm

omit [PacketCodec C] in
theorem tickTelemetry_sameScreen (s : MirrorSession C) (now : Instant) :
    SameScreen s.mirror (s.tickTelemetry now).1.mirror := by
  obtain heq | ⟨_, _, _, heq⟩ := tickTelemetry_inv s now
  · rw [heq]
    exact .refl _
  · rw [heq]
    exact ⟨rfl, rfl, rfl, rfl, rfl, rfl⟩

theorem onTick_sameScreen {now : Instant} {r : Except Error (List ClientAction)}
    (h : s.onTick now = some (s', r)) : SameScreen s.mirror s'.mirror := by
  rcases onTick_inv h with ⟨e, hk, -⟩ | ⟨t, keepalive, u, banner, nacks, hk, hb, hn, -⟩
  · rw [tickKeepalive_mirror hk]
    exact .refl _
  · have harq : (t.tickArq now).1.mirror = s.mirror := by
      obtain ⟨_, _, hframe⟩ := tickArq_frame t now
      rw [hframe]
      have hm := tickKeepalive_mirror hk
      exact hm
    rw [tickNack_mirror hn, ← harq]
    exact (tickBanner_sameScreen hb).trans (tickTelemetry_sameScreen u now)

omit [PacketCodec C] in
theorem interpret_sameScreen (buf send : Bytes) (actions : List ClientAction) (s : MirrorSession C) :
    SameScreen s.mirror (s.interpret buf send actions).1.mirror := by
  induction buf generalizing s send actions with
  | nil => exact .refl _
  | cons b buf ih =>
    have hquiet : ∀ m : ClientTerminal, SameScreen s.mirror m → ∀ send actions, SameScreen s.mirror
        (interpret { s with interpreter := (s.interpreter.handleByte b).1, mirror := m }
          buf send actions).1.mirror := fun m hm send actions =>
      hm.trans (ih send actions { s with interpreter := (s.interpreter.handleByte b).1, mirror := m })
    unfold interpret
    dsimp only
    split
    · exact hquiet s.mirror (.refl _) _ _
    · exact hquiet s.mirror (.refl _) _ _
    · exact .refl _
    · exact hquiet s.mirror.markDirty ⟨rfl, rfl, rfl, rfl, rfl, rfl⟩ _ _
    · exact hquiet s.mirror.markDirty ⟨rfl, rfl, rfl, rfl, rfl, rfl⟩ _ _
    · exact hquiet s.mirror.toggleOverlay ⟨rfl, rfl, rfl, rfl, rfl, rfl⟩ _ _

/-- Keystrokes are typed on the mirror under the number of their packet, or not at all. -/
theorem sendKeys_mirror {keys : Bytes} {actions : List ClientAction} {now : Instant}
    {r : Except Error (List ClientAction)} (h : s.sendKeys keys actions now = some (s', r)) :
    s'.mirror = s.mirror ∨ ∃ bytes, (∀ b ∈ bytes, isAsciiControl b = false) ∧ s.seqNum < s'.seqNum ∧
      s.mirror.predictInput bytes s'.seqNum = some s'.mirror := by
  obtain ⟨t, res, ht, hcase⟩ := sendKeys_inv h
  obtain ⟨hm, hn, hseq⟩ := prepareReliable_mirror ht
  rcases hcase with ⟨_, -, rfl, -⟩ | ⟨bytes, seq, rfl, ⟨rfl, -⟩ | ⟨mirror, hplain, hp, rfl, -⟩⟩
  · exact .inl hm
  · exact .inl hm
  · obtain rfl := hseq bytes seq rfl
    exact .inr ⟨keys, hplain, by rw [hn]; exact Nat.lt_succ_self _, hm ▸ hp⟩

theorem feedStdin_mirror {buf : Bytes} {now : Instant} {r : Except Error (List ClientAction)}
    (h : s.feedStdin buf now = some (s', r)) : ∃ t, SameScreen s.mirror t ∧ (s'.mirror = t ∨
      ∃ bytes, (∀ b ∈ bytes, isAsciiControl b = false) ∧ s.seqNum < s'.seqNum ∧
        t.predictInput bytes s'.seqNum = some s'.mirror) := by
  have hint := interpret_sameScreen buf [] [] s
  obtain ⟨interpreter, mirror, hframe⟩ := interpret_frame buf [] [] s
  obtain ⟨w, send, actions, _, heq, hcase⟩ := feedStdin_inv h
  rw [heq] at hint hframe
  obtain rfl : w = { s with interpreter, mirror } := hframe
  refine ⟨mirror, hint, ?_⟩
  rcases hcase with ⟨-, rfl, -⟩ | ⟨-, -, rfl, -⟩ | ⟨-, -, hkeys⟩
  · exact .inl rfl
  · exact .inl rfl
  · exact sendKeys_mirror hkeys

/-- A resize that seals takes the predictions back and marks the mirror; the new size is not for it. -/
theorem onWinch_mirror {cols rows : ℕ} {now : Instant} {r : Except Error (List ClientAction)}
    (h : s.onWinch cols rows now = some (s', r)) :
    (s'.mirror = s.mirror ∧ ∃ e, r = .error e) ∨
      s.mirror.abortPrediction.map ClientTerminal.markDirty = some s'.mirror := by
  obtain ⟨t, res, ht, ⟨e, -, rfl, rfl⟩ | ⟨_, _, mirror, -, ha, rfl, -⟩⟩ := onWinch_inv h
  · exact .inl ⟨(prepareReliable_mirror ht).1, e, rfl⟩
  · rw [(prepareReliable_mirror ht).1] at ha
    rw [ha]
    exact .inr rfl

/-- INVERSION: an event that brings no packet types on the mirror, takes back, or leaves it. -/
theorem step_mirror {ev : MirrorEvent} (hev : ∀ bytes now, ev ≠ .recv bytes now)
    (h : s.step ev = some s') : ∃ t, SameScreen s.mirror t ∧ (SameScreen t s'.mirror ∨
      (∃ bytes, (∀ b ∈ bytes, isAsciiControl b = false) ∧ s.seqNum < s'.seqNum ∧
        t.predictInput bytes s'.seqNum = some s'.mirror) ∨
      ∃ u, t.abortPrediction = some u ∧ SameScreen u s'.mirror) := by
  obtain ⟨r, hr⟩ := step_eq_some_iff.mp h
  cases ev with
  | recv bytes now => exact absurd rfl (hev bytes now)
  | stdin buf now =>
    obtain ⟨t, hsame, heq | hp⟩ := feedStdin_mirror hr
    · exact ⟨t, hsame, .inl (heq ▸ .refl _)⟩
    · exact ⟨t, hsame, .inr (.inl hp)⟩
  | winch cols rows now =>
    refine ⟨_, .refl _, ?_⟩
    rcases onWinch_mirror hr with ⟨heq, -⟩ | hmark
    · exact .inl (heq ▸ .refl _)
    · obtain ⟨t, ha, ht⟩ := Option.map_eq_some_iff.mp hmark
      exact .inr (.inr ⟨t, ha, ht ▸ ⟨rfl, rfl, rfl, rfl, rfl, rfl⟩⟩)
  | tick now => exact ⟨_, .refl _, .inl (onTick_sameScreen hr)⟩
  | paint dest =>
    cases hr
    refine ⟨_, .refl _, .inl ?_⟩
    have hsame := consumeUpdates_sameScreen s.mirror dest
    unfold copyFrameIfDirty
    dsimp only
    split <;> exact hsame

/-! ### Packets -/

omit [PacketCodec C] in
theorem noteHeaders_mirror {seq ack : ℕ} {stats : CodecStats} {now : Instant}
    (h : s.noteHeaders seq ack stats now = some s') :
    ∃ m, s.mirror.acknowledge ack = some m ∧ SameScreen m s'.mirror := by
  obtain ⟨m, _, _, _, _, hm, rfl⟩ := noteHeaders_inv h
  exact ⟨m, hm, ⟨rfl, rfl, rfl, rfl, rfl, rfl⟩⟩

omit [PacketCodec C] in
theorem accept_mirror {seq : ℕ} {now : Instant} (h : s.accept seq now = some s') :
    SameScreen s.mirror s'.mirror := by
  obtain ⟨mirror, hm | rfl, rfl⟩ := accept_inv h
  · exact setReconnecting_sameScreen hm
  · exact .refl _

/-- A frame with its reference held goes to the mirror, and if the server does not echo, the pending
    batches are taken back; everything else leaves the mirror alone. -/
theorem feedPayload_mirror {seq : ℕ} {payload : ServerPayload} {now : Instant}
    {r : Except Error (List ClientAction)} (h : s.feedPayload seq payload now = some (s', r)) :
    (s.gridOf payload = none ∧ s'.mirror = s.mirror) ∨
    ∃ update g t, payload = .frame update ∧ s.gridOf payload = some g ∧
      s.mirror.applyFrame g seq = some t ∧
      (update.isEchoEnabled = true ∧ s'.mirror = t ∨
        update.isEchoEnabled = false ∧ t.abortPrediction = some s'.mirror) := by
  cases payload with
  | keepAlive => cases h; exact .inl ⟨rfl, rfl⟩
  | shutdown => cases h; exact .inl ⟨rfl, rfl⟩
  | handshakeAck sid => cases h; exact .inl ⟨rfl, rfl⟩
  | frame update =>
    rcases feedFrame_inv h with ⟨hb, rfl, -⟩ | ⟨base, g, hb, ⟨e, hp, rfl, -⟩ | ⟨hp, u, hu, rfl, -⟩⟩
    · exact .inl ⟨by simp [gridOf, hb], sendAck_mirror s now⟩
    · exact .inl ⟨by simp [gridOf, hb, hp], rfl⟩
    · obtain ⟨_, _, _, hack⟩ := ackIfDue_frame u now
      rw [hack]
      obtain ⟨t, mirror, ht, hecho, rfl⟩ := showFrame_inv hu
      refine .inr ⟨update, g, t, rfl, by simp [gridOf, hb, hp], ht, ?_⟩
      rcases hecho with ⟨hecho, rfl⟩ | ⟨hecho, ha⟩
      · exact .inl ⟨hecho, rfl⟩
      · exact .inr ⟨hecho, ha⟩

/-- The packet is a frame that goes on the screen. -/
def appliesFrame (s : MirrorSession C) (packet : EncryptedServerPacket) (payload : ServerPayload) : Bool :=
  decide (s.ackSeqNum < packet.seqNum) && (s.gridOf payload).isSome

/-- The packet is a frame that goes on the screen and ends local echo. -/
def aborts (s : MirrorSession C) (packet : EncryptedServerPacket) (payload : ServerPayload) : Bool :=
  s.appliesFrame packet payload && match payload with
    | .frame update => !update.isEchoEnabled
    | _ => false

/-- INVERSION: all that a packet can do to the mirror. -/
theorem feedPacket_mirror {bytes : Bytes} {now : Instant} {r : Except Error (List ClientAction)}
    {packet : EncryptedServerPacket} {payload : ServerPayload} {stats : CodecStats}
    (hopen : (PacketCodec.openServer s.codec bytes).2 = .ok (some (packet, payload, stats)))
    (h : s.feedPacket bytes now = some (s', r)) :
    ∃ m t, s.mirror.acknowledge packet.ackSeqNum = some m ∧ SameScreen m t ∧
      (s.appliesFrame packet payload = false ∧ s'.mirror = t ∨
      s.appliesFrame packet payload = true ∧ ∃ g u, s.gridOf payload = some g ∧
        t.applyFrame g packet.seqNum = some u ∧
        (s.aborts packet payload = false ∧ s'.mirror = u ∨
          s.aborts packet payload = true ∧ u.abortPrediction = some s'.mirror)) := by
  rcases feedPacket_inv h with ⟨hnone, -⟩ | ⟨packet', payload', stats', v, hopen', hv, hcase⟩
  · exact absurd hopen (hnone _)
  obtain ⟨rfl, rfl, rfl⟩ : packet' = packet ∧ payload' = payload ∧ stats' = stats := by
    simpa using hopen'.symm.trans hopen
  have hn := noteHeaders_noted hv
  obtain ⟨m, hm, hsame⟩ := noteHeaders_mirror hv
  have hgrid : v.gridOf payload' = s.gridOf payload' := gridOf_congr hn.stateHistory
  rcases hcase with ⟨hle, rfl, -⟩ | ⟨hlt, w, hw, hp⟩
  · exact ⟨m, _, hm, hsame, .inl ⟨by simp [appliesFrame, hle], rfl⟩⟩
  · have hgrid' : w.gridOf payload' = s.gridOf payload' :=
      (gridOf_congr (accept_quiet hw).stateHistory).trans hgrid
    refine ⟨m, w.mirror, hm, hsame.trans (accept_mirror hw), ?_⟩
    rcases feedPayload_mirror hp with ⟨hnone, heq⟩ | ⟨update, g, u, rfl, hg, hu, hecho⟩
    · rw [hgrid'] at hnone
      exact .inl ⟨by simp [appliesFrame, hnone], heq⟩
    · rw [hgrid'] at hg
      have happ : s.appliesFrame packet' (.frame update) = true := by simp [appliesFrame, hlt, hg]
      refine .inr ⟨happ, g, u, hg, hu, ?_⟩
      rcases hecho with ⟨he, heq⟩ | ⟨he, heq⟩
      · exact .inl ⟨by simp [aborts, he], heq⟩
      · exact .inr ⟨by simp [aborts, happ, he], heq⟩

/-- STEP: every turn moves the mirror and the client's counter together. -/
theorem step_moves {ev : MirrorEvent} (h : s.step ev = some s') :
    Moves s.seqNum s.mirror s'.seqNum s'.mirror := by
  obtain ⟨r, hr⟩ := step_eq_some_iff.mp h
  rcases turn_cases (turn_eq_some_iff.mpr ⟨r, hr, rfl⟩) with ⟨bytes, now, v, rfl, hv, hs⟩ | ⟨hev, hs⟩
  · have hle : s.seqNum ≤ s'.seqNum := hv.seqNum.symm.trans_le hs.seqNum
    rcases feedPacket_cases hr with ⟨-, rfl, -⟩ | ⟨packet, payload, stats, -, hopen, -⟩
    · exact .refl _ _
    · obtain ⟨m, w, hm, hsame, hcase⟩ := feedPacket_mirror hopen hr
      refine .trans (.acknowledge hm) ?_
      rcases hcase with ⟨-, heq⟩ | ⟨-, g, x, -, hx, ⟨-, heq⟩ | ⟨-, heq⟩⟩
      · rw [heq]
        exact .same hle hsame
      · rw [heq]
        exact .trans (.same hle hsame) (.applyFrame hx)
      · exact .trans (.same hle hsame) (.trans (.applyFrame hx) (.abort heq))
  · obtain ⟨m, hsame, hsame' | ⟨bytes, hplain, hlt, hp⟩ | ⟨u, ha, hsame'⟩⟩ := step_mirror hev h
    · exact .same hs.seqNum (hsame.trans hsame')
    · exact .trans (.same le_rfl hsame) (.predict hlt hplain hp)
    · exact .trans (.same le_rfl hsame) (.trans (.abort ha) (.same hs.seqNum hsame'))

omit [PacketCodec C] in
theorem pending_new (sid : ℕ) (codec : C) (startServerSeq cols rows : ℕ) (overlay : Bool) (now : Instant) :
    Pending (new sid codec startServerSeq cols rows overlay now).seqNum
      (new sid codec startServerSeq cols rows overlay now).mirror := by
  refine ⟨⟨?_, ?_⟩, ?_, .nil, ?_, ?_⟩
  all_goals simp [new, ClientTerminal.new, TerminalFrame.new, setOverlayEnabled, keys]

/-- RUN: the pending batches of a session are in order, whatever it went through. -/
theorem pending_run {sid : ℕ} {codec : C} {startServerSeq cols rows : ℕ} {overlay : Bool} {now : Instant}
    {events : List MirrorEvent}
    (h : runFrom step (new sid codec startServerSeq cols rows overlay now) events = some s) :
    Pending s.seqNum s.mirror := by
  have hstep : ∀ (s : MirrorSession C) ev s', Pending s.seqNum s.mirror → s.step ev = some s' →
      Pending s'.seqNum s'.mirror := fun s ev s' hs h => hs.moves (step_moves h)
  exact run_invariant_all hstep (pending_new ..) h

/-- CONFIRMATION: in every reachable session and for every packet that opens and ends no local echo, the
    pending batches afterwards are those the packet's ack does not cover, in order, exactly if the
    packet puts no frame on the screen or no pending batch lies above its ack and not above its own
    number. -/
theorem confirmed_by_ack_iff {sid : ℕ} {codec : C} {startServerSeq cols rows : ℕ} {overlay : Bool}
    {start now : Instant} {events : List MirrorEvent} {bytes : Bytes}
    {packet : EncryptedServerPacket} {payload : ServerPayload} {stats : CodecStats}
    {r : Except Error (List ClientAction)}
    (hrun : runFrom step (new sid codec startServerSeq cols rows overlay start) events = some s)
    (hopen : (PacketCodec.openServer s.codec bytes).2 = .ok (some (packet, payload, stats)))
    (hfeed : s.feedPacket bytes now = some (s', r)) (habort : s.aborts packet payload = false) :
    s'.mirror.echoEngine.keys =
        s.mirror.echoEngine.keys.filter (fun k => decide (packet.ackSeqNum < k.1)) ↔
      (s.appliesFrame packet payload = true → ∀ k ∈ s.mirror.echoEngine.keys,
        packet.ackSeqNum < k.1 → packet.seqNum < k.1) := by
  obtain ⟨m, t, hm, hsame, hcase⟩ := feedPacket_mirror hopen hfeed
  obtain ⟨hpend, hkeys⟩ := (pending_run hrun).acknowledge hm
  rcases hcase with ⟨happ, heq⟩ | ⟨happ, g, u, -, hu, ⟨-, heq⟩ | ⟨hab, -⟩⟩
  · rw [heq, hsame.echoEngine, hkeys, happ]
    simp
  · obtain ⟨-, hkeys'⟩ := (hpend.sameScreen le_rfl hsame).applyFrame hu
    rw [heq, hkeys', hsame.echoEngine, hkeys, List.filter_eq_self]
    simp [happ, List.mem_filter]
  · rw [habort] at hab
    cases hab

/-- The first frame of the server, numbered 1 as the client's first packet is, confirms a keystroke that
    the server has not acknowledged. -/
theorem frame_confirms_unacked :
    ∃ (s s' : MirrorSession (ChaChaCodec Bincode.crates)) (d : Bytes) (packet : EncryptedServerPacket)
      (stats : CodecStats) (r : Except Error (List ClientAction)),
      let codec := ChaChaCodec.new Bincode.crates (Vector.replicate 32 0) (2 ^ 32)
      codec.sealServer 1 0 (.frame Watched.firstFrame) = .ok [d] ∧
      runFrom step (new (2 ^ 32) codec 1 1 1 false 0) [.stdin [0x61] 1] = some s ∧
      (PacketCodec.openServer s.codec d).2 = .ok (some (packet, .frame Watched.firstFrame, stats)) ∧
      packet.seqNum = 1 ∧ packet.ackSeqNum = 0 ∧ s.aborts packet (.frame Watched.firstFrame) = false ∧
      s.feedPacket d 2 = some (s', r) ∧ s.mirror.echoEngine.keys = [(1, [0x61])] ∧
      s'.mirror.echoEngine.keys ≠
        s.mirror.echoEngine.keys.filter (fun k => decide (packet.ackSeqNum < k.1)) :=
  ⟨_, _, _, _, _, _, rfl, rfl, rfl, rfl, rfl, rfl, rfl, rfl, by decide +kernel⟩

/-- A keepalive that acknowledges the first of two keystrokes leaves the second. -/
theorem confirmed_by_ack_keepalive :
    ∃ (s s' : MirrorSession (ChaChaCodec Bincode.crates)) (d : Bytes) (packet : EncryptedServerPacket)
      (stats : CodecStats) (r : Except Error (List ClientAction)),
      let codec := ChaChaCodec.new Bincode.crates (Vector.replicate 32 0) (2 ^ 32)
      codec.sealServer 1 1 .keepAlive = .ok [d] ∧
      runFrom step (new (2 ^ 32) codec 1 1 1 false 0) [.stdin [0x61] 1, .stdin [0x62] 2] = some s ∧
      (PacketCodec.openServer s.codec d).2 = .ok (some (packet, .keepAlive, stats)) ∧
      s.feedPacket d 3 = some (s', r) ∧
      s'.mirror.echoEngine.keys =
        s.mirror.echoEngine.keys.filter (fun k => decide (packet.ackSeqNum < k.1)) := by
  obtain ⟨s, s', d, packet, stats, r, hseal, hrun, hopen, hfeed⟩ :
      ∃ (s s' : MirrorSession (ChaChaCodec Bincode.crates)) (d : Bytes)
        (packet : EncryptedServerPacket) (stats : CodecStats) (r : Except Error (List ClientAction)),
        (ChaChaCodec.new Bincode.crates (Vector.replicate 32 0) (2 ^ 32)).sealServer 1 1 .keepAlive =
          .ok [d] ∧
        runFrom step (new (2 ^ 32) (ChaChaCodec.new Bincode.crates (Vector.replicate 32 0) (2 ^ 32))
          1 1 1 false 0) [.stdin [0x61] 1, .stdin [0x62] 2] = some s ∧
        (PacketCodec.openServer s.codec d).2 = .ok (some (packet, .keepAlive, stats)) ∧
        s.feedPacket d 3 = some (s', r) := ⟨_, _, _, _, _, _, rfl, rfl, rfl, rfl⟩
  refine ⟨s, s', d, packet, stats, r, hseal, hrun, hopen, hfeed, ?_⟩
  refine (confirmed_by_ack_iff hrun hopen hfeed ?_).mpr ?_
  · simp [aborts]
  · simp [appliesFrame, gridOf]

end MirrorSession

end Rumsh.Client
