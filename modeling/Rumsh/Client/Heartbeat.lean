import Rumsh.Client.Timers

/-! The heartbeat of an outage.

    The interval between keepalives is to grow with the silence, tier by tier. It is set where the
    reconnection banner is switched, so once per outage: an outage keeps the tier in which the banner
    found it. -/

namespace Rumsh.Client
open Rumsh.Schemes Rumsh.Protocol

/-- A session, the time of the last event, and the silence at the tick that first found an outage. -/
structure Outage (C : Type) where
  session : MirrorSession C
  clock : Instant
  first : Option ℕ

namespace Outage
variable {C : Type} [PacketCodec C]

def start (session : MirrorSession C) (now : Instant) : Outage C := ⟨session, now, none⟩

/-- The silence an event finds. -/
def silence (o : Outage C) (now : Instant) : ℕ := now - o.session.lastRecvTime

/-- The event brings a packet above the high-water mark. -/
def Fresh (o : Outage C) (ev : MirrorEvent) : Prop :=
  ∃ q p, o.session.arrival ev = some (q, p) ∧ o.session.ackSeqNum < q

/-- The first tick of an outage that gets past its keepalive is remembered until the outage is over. -/
def firstAfter (o : Outage C) : MirrorEvent → Option ℕ
  | .tick now =>
    if o.silence now > secs 5 then
      o.first.or (if (o.session.tickKeepalive now).2.isOk then some (o.silence now) else none)
    else none
  | ev =>
    match o.session.arrival ev with
    | some (q, _) => if o.session.ackSeqNum < q then none else o.first
    | none => o.first

def step (o : Outage C) (ev : MirrorEvent) : Option (Outage C) :=
  (o.session.step ev).map fun session =>
    { session, clock := ev.time.getD o.clock, first := o.firstAfter ev }

/-- The event is not earlier than the one before it. -/
def Ordered (o : Outage C) (ev : MirrorEvent) : Prop := ∀ now, ev.time = some now → o.clock ≤ now

/-- A tick in an outage leaves the interval at the tier of its silence, a fresh packet at 2 s. -/
def Follows (o : Outage C) (ev : MirrorEvent) : Prop :=
  (∀ now o', ev = .tick now → o.silence now > secs 5 → o.step ev = some o' →
    o'.session.keepaliveInterval = MirrorSession.outageInterval (o.silence now)) ∧
  ∀ o', o.Fresh ev → o.step ev = some o' → o'.session.keepaliveInterval = secs 2

/-- The silence is still in the tier in which the first tick of the outage found it; and the first tick
    gets past its keepalive. -/
def SameTier (o : Outage C) (ev : MirrorEvent) : Prop :=
  ∀ now, ev = .tick now → o.silence now > secs 5 →
    match o.first with
    | some found => MirrorSession.outageInterval (o.silence now) = MirrorSession.outageInterval found
    | none => (o.session.tickKeepalive now).2.isOk = true

/-- What holds along every run in order: banner and interval are those of the tick that is
    remembered. -/
structure Tracks (o : Outage C) : Prop where
  heard : o.session.lastRecvTime ≤ o.clock
  calm : o.first = none → o.session.isReconnecting = false ∧ o.session.keepaliveInterval = secs 2
  raised : ∀ found, o.first = some found → o.session.isReconnecting = true ∧
    o.session.keepaliveInterval = MirrorSession.outageInterval found ∧
    o.session.lastRecvTime + secs 5 < o.clock

variable {o o' : Outage C} {ev : MirrorEvent}

omit [PacketCodec C] in
theorem tracks_start (sid : ℕ) (codec : C) (startServerSeq cols rows : ℕ) (overlay : Bool)
    (now : Instant) :
    Tracks (start (MirrorSession.new sid codec startServerSeq cols rows overlay now) now) :=
  ⟨Nat.le_refl _, fun _ => ⟨rfl, rfl⟩, fun _ h => nomatch h⟩

omit [PacketCodec C] in
/-- The tick of an outage, by what is remembered of it. -/
theorem Tracks.atTick (h : Tracks o) {now : Instant} (hout : o.silence now > secs 5) :
    (o.session.reception.atTick now).isReconnecting = true ∧
      (o.session.reception.atTick now).keepaliveInterval =
        MirrorSession.outageInterval (o.first.getD (o.silence now)) := by
  have hbanner : decide (now - o.session.reception.lastRecvTime > millis 5000) = true :=
    decide_eq_true hout
  unfold Reception.atTick
  rw [hbanner]
  cases hf : o.first with
  | none =>
    have hne : o.session.reception.isReconnecting ≠ true := by
      have hcalm : o.session.reception.isReconnecting = false := (h.calm hf).1
      simp [hcalm]
    rw [if_pos hne]
    exact ⟨rfl, rfl⟩
  | some found =>
    have heq : ¬ o.session.reception.isReconnecting ≠ true := not_not.mpr (h.raised found hf).1
    rw [if_neg heq]
    exact ⟨(h.raised found hf).1, (h.raised found hf).2.1⟩

omit [PacketCodec C] in
/-- Before an outage a tick changes nothing. -/
theorem Tracks.atTick_calm (h : Tracks o) {now : Instant} (hnow : o.clock ≤ now)
    (hout : ¬ o.silence now > secs 5) :
    o.first = none ∧ o.session.reception.atTick now = o.session.reception := by
  have hf : o.first = none := by
    cases hf : o.first with
    | none => rfl
    | some found =>
      have hlong := (h.raised found hf).2.2.trans_le hnow
      exact absurd (Nat.lt_sub_iff_add_lt'.mpr hlong) hout
  have hbanner : decide (now - o.session.reception.lastRecvTime > millis 5000) = false :=
    decide_eq_false hout
  have hcalm : o.session.reception.isReconnecting = false := (h.calm hf).1
  refine ⟨hf, ?_⟩
  unfold Reception.atTick
  rw [hbanner, hcalm]
  simp

omit [PacketCodec C] in
/-- The invariant reads three fields of the reception. -/
theorem Tracks.of_reception (h : Tracks o)
    (hrecv : o'.session.reception.lastRecvTime = o.session.reception.lastRecvTime)
    (hban : o'.session.reception.isReconnecting = o.session.reception.isReconnecting)
    (hint : o'.session.reception.keepaliveInterval = o.session.reception.keepaliveInterval)
    (hclock : o.clock ≤ o'.clock) (hfirst : o'.first = o.first) : Tracks o' := by
  have hrecv' : o'.session.lastRecvTime = o.session.lastRecvTime := hrecv
  have hban' : o'.session.isReconnecting = o.session.isReconnecting := hban
  have hint' : o'.session.keepaliveInterval = o.session.keepaliveInterval := hint
  constructor
  · rw [hrecv']
    exact h.heard.trans hclock
  · rw [hfirst, hban', hint']
    exact h.calm
  · intro found hf
    rw [hban', hint', hrecv']
    obtain ⟨hb, hi, hl⟩ := h.raised found (hfirst ▸ hf)
    exact ⟨hb, hi, hl.trans_le hclock⟩

/-- STEP: the tick of an outage. -/
theorem Tracks.tick (h : Tracks o) {now : Instant} (hord : o.clock ≤ now)
    (hs : o.step (.tick now) = some o') : Tracks o' := by
  obtain ⟨s', hs', rfl⟩ := Option.map_eq_some_iff.mp hs
  obtain ⟨_, hev, hrec⟩ | ⟨_, _, _, _, hev, -⟩ | ⟨hev, -⟩ := MirrorSession.step_reception hs'
  · cases hev
    by_cases hout : o.silence now > secs 5
    · cases hok : (o.session.tickKeepalive now).2.isOk with
      | false =>
        rw [hok, if_neg (by simp)] at hrec
        refine h.of_reception (by rw [hrec]) (by rw [hrec]) (by rw [hrec]) hord ?_
        simp [firstAfter, hout, hok]
      | true =>
        rw [hok, if_pos rfl] at hrec
        obtain ⟨hban, hint⟩ := h.atTick hout
        rw [← hrec] at hban hint
        have hrecv : s'.lastRecvTime = o.session.lastRecvTime :=
          (congrArg Reception.lastRecvTime hrec).trans (o.session.reception.atTick_heard now).1
        have hlong : s'.lastRecvTime + secs 5 < now := hrecv ▸ Nat.lt_sub_iff_add_lt'.mp hout
        have hfirst : o.firstAfter (.tick now) = some (o.first.getD (o.silence now)) := by
          cases hf : o.first <;> simp [firstAfter, hout, hok, hf]
        refine ⟨(Nat.le_add_right _ _).trans hlong.le, fun hnone => ?_, fun found hf => ?_⟩
        · exact nomatch hfirst.symm.trans hnone
        · obtain rfl := Option.some.inj (hfirst.symm.trans hf)
          exact ⟨hban, hint, hlong⟩
    · obtain ⟨hf, hsame⟩ := h.atTick_calm hord hout
      rw [hsame, ite_self] at hrec
      refine h.of_reception (by rw [hrec]) (by rw [hrec]) (by rw [hrec]) hord ?_
      rw [hf]
      exact if_neg hout
  · cases hev
  · exact absurd rfl (hev now)

/-- STEP: banner and interval stay those of the tick that is remembered. -/
theorem Tracks.step (h : Tracks o) (hord : Ordered o ev) (hs : o.step ev = some o') : Tracks o' := by
  obtain ⟨s', hs', rfl⟩ := Option.map_eq_some_iff.mp hs
  have hclock : o.clock ≤ ev.time.getD o.clock := by
    cases ht : ev.time with
    | none => exact Nat.le_refl _
    | some now => exact hord now ht
  obtain ⟨now, rfl, -⟩ | ⟨bytes, now, q, p, rfl, harr, hrec⟩ | ⟨hev, harr, hrec⟩ :=
    MirrorSession.step_reception hs'
  · exact h.tick (hord now rfl) hs
  · by_cases hle : q ≤ o.session.ackSeqNum
    · -- a stale packet touches the loss window only
      rw [if_pos hle] at hrec
      obtain ⟨hrecv, hban, hint⟩ := o.session.reception.heard_clocks q now
      rw [← hrec] at hrecv hban hint
      refine h.of_reception hrecv hban hint hclock ?_
      simp [firstAfter, harr, hle]
    · rw [if_neg hle] at hrec
      have hnone : o.firstAfter (.recv bytes now) = none := by
        simp [firstAfter, harr, Nat.not_le.mp hle]
      refine ⟨?_, fun _ => ⟨?_, ?_⟩, fun found hf => nomatch hnone.symm.trans hf⟩
      · exact (congrArg Reception.lastRecvTime hrec).le
      · exact congrArg Reception.isReconnecting hrec
      · exact congrArg Reception.keepaliveInterval hrec
  · refine h.of_reception (by rw [hrec]) (by rw [hrec]) (by rw [hrec]) hclock ?_
    cases ev with
    | tick now => exact absurd rfl (hev now)
    | _ => simp only [firstAfter, harr]

/-- A fresh packet sets the interval to 2 s. -/
theorem fresh_interval (hf : Fresh o ev) (hs : o.step ev = some o') :
    o'.session.keepaliveInterval = secs 2 := by
  obtain ⟨s', hs', rfl⟩ := Option.map_eq_some_iff.mp hs
  obtain ⟨q, p, harr, hlt⟩ := hf
  obtain ⟨now, rfl, -⟩ | ⟨bytes, now, q', p', rfl, harr', hrec⟩ | ⟨-, harr', -⟩ :=
    MirrorSession.step_reception hs'
  · cases harr
  · obtain ⟨rfl, -⟩ := Prod.mk.inj (Option.some.inj (harr.symm.trans harr'))
    rw [if_neg (Nat.not_le.mpr hlt)] at hrec
    exact congrArg Reception.keepaliveInterval hrec
  · exact nomatch harr.symm.trans harr'

/-- The interval after a tick of an outage. -/
theorem Tracks.tick_interval (h : Tracks o) {now : Instant} (hout : o.silence now > secs 5)
    (hs : o.step (.tick now) = some o') :
    o'.session.keepaliveInterval =
      if (o.session.tickKeepalive now).2.isOk then
        MirrorSession.outageInterval (o.first.getD (o.silence now))
      else o.session.keepaliveInterval := by
  obtain ⟨s', hs', rfl⟩ := Option.map_eq_some_iff.mp hs
  obtain ⟨_, hev, hrec⟩ | ⟨_, _, _, _, hev, -⟩ | ⟨hev, -⟩ := MirrorSession.step_reception hs'
  · cases hev
    refine (congrArg Reception.keepaliveInterval hrec).trans ?_
    split
    · exact (h.atTick hout).2
    · rfl
  · cases hev
  · exact absurd rfl (hev now)

/-- No tier of an outage is the 2 s of a healthy connection. -/
theorem outageInterval_ne_healthy {silence : ℕ} (hout : silence > secs 5) :
    MirrorSession.outageInterval silence ≠ secs 2 := by
  unfold MirrorSession.outageInterval
  rw [if_neg (Nat.not_lt.mpr hout.le)]
  split
  · decide
  · split
    · decide
    · split
      · decide
      · split <;> decide

/-- STEP: a tick leaves the tier of its silence exactly if that is the tier that is remembered. -/
theorem Tracks.follows_iff (h : Tracks o) (hs : o.step ev = some o') : Follows o ev ↔ SameTier o ev := by
  have hfresh : ∀ o', o.Fresh ev → o.step ev = some o' → o'.session.keepaliveInterval = secs 2 :=
    fun _ => fresh_interval
  refine (and_iff_left hfresh).trans ⟨fun hfol now hev hout => ?_, fun hsame now o'' hev hout hs' => ?_⟩
  · have hint := hfol now o' hev hout hs
    subst hev
    rw [h.tick_interval hout hs] at hint
    cases hf : o.first with
    | none =>
      by_contra hfail
      rw [if_neg hfail, (h.calm hf).2] at hint
      exact outageInterval_ne_healthy hout hint.symm
    | some found =>
      rw [(h.raised found hf).2.1, hf, Option.getD_some, ite_self] at hint
      exact hint.symm
  · have htier := hsame now hev hout
    subst hev
    rw [h.tick_interval hout hs']
    cases hf : o.first with
    | none =>
      rw [hf] at htier
      exact if_pos htier
    | some found =>
      rw [hf] at htier
      rw [(h.raised found hf).2.1, Option.getD_some, ite_self]
      exact htier.symm

/-- RUN: the interval follows the silence at every tick of every outage, exactly if no outage is still
    lasting when its silence leaves the tier in which a tick first found it. -/
theorem heartbeat_follows_iff {sid : ℕ} {codec : C} {startServerSeq cols rows : ℕ} {overlay : Bool}
    {now : Instant} {events : List MirrorEvent} {o : Outage C}
    (hrun : runFrom step (start (.new sid codec startServerSeq cols rows overlay now) now) events =
      some o)
    (hord : StepsMeet step Ordered
      (start (.new sid codec startServerSeq cols rows overlay now) now) events) :
    StepsMeet step Follows (start (.new sid codec startServerSeq cols rows overlay now) now) events ↔
      StepsMeet step SameTier
        (start (.new sid codec startServerSeq cols rows overlay now) now) events := by
  have htracks := StepsMeet.imp_of_invariant (Q := fun o _ => Tracks o)
    (fun _ _ _ h hP hs => h.step hP hs) (fun _ _ h _ => h)
    (tracks_start sid codec startServerSeq cols rows overlay now) hord
  exact stepsMeet_congr (fun _ _ _ h hs => h.follows_iff hs) htracks hrun

/-- Two ticks in order. -/
theorem ordered_ticks {now later : Instant} (h : now ≤ later) :
    StepsMeet step Ordered (start .oneCell 0) [.tick now, .tick later] := by
  refine ⟨fun _ ht => ?_, fun o ho => ⟨fun _ ht => ?_, fun _ _ => trivial⟩⟩
  · cases ht
    exact Nat.zero_le _
  · obtain ⟨_, -, rfl⟩ := Option.map_eq_some_iff.mp ho
    cases ht
    exact h

/-- Ticks at 6 s and at 14 s of one outage find it in the same tier. -/
theorem heartbeat_follows_short_outage :
    StepsMeet step Follows (start .oneCell 0) [.tick (secs 6), .tick (secs 14)] := by
  refine (heartbeat_follows_iff rfl (ordered_ticks (by decide))).mpr ?_
  refine ⟨fun _ ht _ => ?_, fun o ho => ⟨fun _ ht _ => ?_, fun _ _ => trivial⟩⟩
  · cases ht
    exact rfl
  · cases ht
    cases ho
    exact rfl

/-- Silent for 6 s, then for 20 s: the interval stays at the 5 s of the first tick, where 15 s are due. -/
theorem interval_stays_at_first_tier :
    ∃ o : Outage (ChaChaCodec Bincode.crates),
      runFrom step (start .oneCell 0) [.tick (secs 6), .tick (secs 20)] = some o ∧
      o.session.keepaliveInterval = secs 5 ∧ MirrorSession.outageInterval (secs 20) = secs 15 ∧
      StepsMeet step Ordered (start .oneCell 0) [.tick (secs 6), .tick (secs 20)] ∧
      ¬ StepsMeet step Follows (start .oneCell 0) [.tick (secs 6), .tick (secs 20)] := by
  refine ⟨_, rfl, rfl, by decide, ordered_ticks (by decide), fun h => ?_⟩
  have hlate := (h.2 _ rfl).1.1 _ _ rfl (by decide) rfl
  revert hlate
  decide

end Outage

end Rumsh.Client
