import Rumsh.Protocol.RoundTrip
import Rumsh.Client.Timers

/-! Which frames the client asks for again, and how often.

    A frame is asked for at most every 100 ms, which `nacked_frames` remembers. The table forgets a
    frame that is not above the high-water mark, but the codec may still hold fragments of such a frame:
    then it is asked for at every check, every 40 ms. -/

namespace Rumsh.Client
open Std Rumsh.Schemes Rumsh.Protocol

/-- A request for fragments: when it was sealed, for which frame, and the mark at that time. -/
structure Nack where
  time : Instant
  frame : ℕ
  ack : ℕ
  deriving DecidableEq

namespace MirrorSession
variable {C : Type}

/-- The request behind a `seal_client` call. -/
def nackOf (now : Instant) (call : Call) : Option Nack :=
  match call.2.2 with
  | .fragmentNack frame _ => some ⟨now, frame, call.2.1⟩
  | _ => none

theorem nackOf_eq_none {now : Instant} {call : Call} (h : ∀ f m, call.2.2 ≠ .fragmentNack f m) :
    nackOf now call = none := by
  unfold nackOf
  split
  · rename_i hp
    exact absurd hp (h _ _)
  · rfl

/-- What the event asked for. -/
def nacksBy (s s' : MirrorSession C) (now : Instant) : List Nack :=
  (s'.sealedCalls.drop s.sealedCalls.length).filterMap (nackOf now)

theorem nacksBy_eq {s s' : MirrorSession C} {calls : List Call} (now : Instant)
    (h : s'.sealedCalls = s.sealedCalls ++ calls) : nacksBy s s' now = calls.filterMap (nackOf now) := by
  rw [nacksBy, h, List.drop_left]

variable [PacketCodec C] {s s' : MirrorSession C}

/-- The operation asked for these frames, each once, and noted the time. -/
structure Asks (now : Instant) (s s' : MirrorSession C) (asked : List ℕ) : Prop where
  calls : ∃ calls, s'.sealedCalls = s.sealedCalls ++ calls ∧
    calls.filterMap (nackOf now) = asked.map fun f => ⟨now, f, s.ackSeqNum⟩
  ackSeqNum : s'.ackSeqNum = s.ackSeqNum
  lastNackCheck : s'.lastNackCheck = s.lastNackCheck
  nodup : asked.Nodup
  rested : ∀ f ∈ asked, ∀ last, s.nackedFrames[f]? = some last → last + millis 100 ≤ now
  table : ∀ f : ℕ, s'.nackedFrames[f]? = if f ∈ asked then some now else s.nackedFrames[f]?

/-- One request. -/
theorem prepareFragmentNack_asks {now : Instant} {frame : ℕ} {mask : List ℕ} {r : Except Error Bytes}
    (hshould : s.shouldNack frame now = true)
    (h : ({ s with nackedFrames := s.nackedFrames.insert frame now }).prepareFragmentNack frame mask =
      (s', r)) : Asks now s s' [frame] := by
  obtain ⟨rfl, -⟩ := Prod.mk.inj h
  refine ⟨⟨_, rfl, rfl⟩, rfl, rfl, by simp, fun f hf last hl => ?_, fun f => ?_⟩
  · rw [List.mem_singleton.mp hf] at hl
    simp only [shouldNack, hl, decide_eq_true_eq] at hshould
    exact elapsed_le (by decide) hshould
  · refine TreeMap.getElem?_insert.trans ?_
    by_cases hf : frame = f
    · simp [hf]
    · simp [hf, Ne.symm hf]

omit [PacketCodec C] in
/-- A second stretch of the loop cannot ask for what the first asked for: it was just now. -/
theorem Asks.trans {now : Instant} {s'' : MirrorSession C} {asked asked' : List ℕ}
    (h : Asks now s s' asked) (h' : Asks now s' s'' asked') : Asks now s s'' (asked ++ asked') := by
  have hnew : ∀ f ∈ asked', f ∉ asked := by
    intro f hf hmem
    have hnow := h'.rested f hf now (by rw [h.table, if_pos hmem])
    exact absurd hnow (Nat.not_le.mpr (Nat.lt_add_of_pos_right (by decide)))
  constructor
  · obtain ⟨calls, hcalls, hask⟩ := h.calls
    obtain ⟨calls', hcalls', hask'⟩ := h'.calls
    refine ⟨calls ++ calls', by rw [hcalls', hcalls, List.append_assoc], ?_⟩
    rw [List.filterMap_append, hask, hask', List.map_append, h.ackSeqNum]
  · exact h'.ackSeqNum.trans h.ackSeqNum
  · exact h'.lastNackCheck.trans h.lastNackCheck
  · exact List.nodup_append.mpr ⟨h.nodup, h'.nodup, fun f hf f' hf' heq => hnew f' hf' (heq ▸ hf)⟩
  · intro f hf last hl
    rcases List.mem_append.mp hf with hf | hf
    · exact h.rested f hf last hl
    · exact h'.rested f hf last (by rw [h.table, if_neg (hnew f hf), hl])
  · intro f
    rw [h'.table, h.table]
    by_cases hf : f ∈ asked'
    · simp [hf]
    · simp [hf]

/-- The loop asks for incomplete frames only. -/
theorem nackAll_asks {now : Instant} {incomplete : List (ℕ × List ℕ)} {actions : List ClientAction}
    {r : Except Error (List ClientAction)} (h : nackAll now incomplete s actions = (s', r)) :
    ∃ asked, Asks now s s' asked ∧ ∀ f ∈ asked, f ∈ incomplete.map Prod.fst := by
  induction incomplete generalizing s actions with
  | nil =>
    cases h
    exact ⟨[], ⟨⟨[], by simp, rfl⟩, rfl, rfl, .nil, by simp, by simp⟩, by simp⟩
  | cons e rest ih =>
    rcases nackAll_cons_inv h with hrest | ⟨hshould, t, res, ht, hcase⟩
    · obtain ⟨asked, hasks, hsub⟩ := ih hrest
      exact ⟨asked, hasks, fun f hf => List.mem_cons_of_mem _ (hsub f hf)⟩
    · have hask := prepareFragmentNack_asks hshould ht
      rcases hcase with ⟨_, -, rfl, -⟩ | ⟨bytes, -, hrest⟩
      · exact ⟨[e.1], hask, by simp⟩
      · obtain ⟨asked, hasks, hsub⟩ := ih hrest
        refine ⟨[e.1] ++ asked, hask.trans hasks, fun f hf => ?_⟩
        rcases List.mem_append.mp hf with hf | hf
        · rw [List.mem_singleton.mp hf]
          exact List.mem_cons_self ..
        · exact List.mem_cons_of_mem _ (hsub f hf)

/-- What a check does: it asks for incomplete frames, and the table forgets a time only when it is 2 s
    old or the frame not above the mark. -/
structure Checked (now : Instant) (s s' : MirrorSession C) (asked : List ℕ) : Prop where
  due : s.lastNackCheck + millis 40 ≤ now
  lastNackCheck : s'.lastNackCheck = now
  ackSeqNum : s'.ackSeqNum = s.ackSeqNum
  nacks : nacksBy s s' now = asked.map fun f => ⟨now, f, s.ackSeqNum⟩
  nodup : asked.Nodup
  incomplete : ∀ f ∈ asked, f ∈ (PacketCodec.getIncompleteFrames s.codec).map Prod.fst
  rested : ∀ f ∈ asked, ∀ last, s.nackedFrames[f]? = some last → last + millis 100 ≤ now
  kept : ∀ (f : ℕ) (last : Instant),
    (if f ∈ asked then some now else s.nackedFrames[f]?) = some last →
    s'.nackedFrames[f]? = some last ∨ f ≤ s.ackSeqNum ∨ last + secs 2 ≤ now

omit [PacketCodec C] in
/-- The pruning at the end of a check. -/
theorem getElem?_retained {table : TreeMap ℕ Instant} {f ack : ℕ} {now last : Instant}
    (h : table[f]? = some last) :
    (table.filter fun seq time => decide (seq > ack) && decide (now - time < secs 2))[f]? = some last ∨
      f ≤ ack ∨ last + secs 2 ≤ now := by
  by_cases hmark : f ≤ ack
  · exact .inr (.inl hmark)
  · by_cases hold : now - last < secs 2
    · left
      rw [TreeMap.getElem?_filter', h]
      simp [Option.filter, Nat.not_le.mp hmark, hold]
    · exact .inr (.inr (elapsed_le (by decide) (Nat.not_lt.mp hold)))

theorem tickNack_asks {now : Instant} {r : Except Error (List ClientAction)}
    (h : s.tickNack now = (s', r)) : s' = s ∨ ∃ asked, Checked now s s' asked := by
  rcases tickNack_inv h with ⟨rfl, -⟩ | ⟨hdue, t, ht, hcase⟩
  · exact .inl rfl
  · have hchecked : s.lastNackCheck + millis 40 ≤ now := elapsed_le (by decide) hdue
    obtain ⟨asked, hasks, hsub⟩ := nackAll_asks ht
    obtain ⟨calls, hcalls, hnacks⟩ := hasks.calls
    have hack : t.ackSeqNum = s.ackSeqNum := hasks.ackSeqNum
    rcases hcase with ⟨_, -, rfl⟩ | ⟨_, -, rfl⟩
    · exact .inr ⟨asked, hchecked, hasks.lastNackCheck, hack, (nacksBy_eq now hcalls).trans hnacks,
        hasks.nodup, hsub, hasks.rested, fun f last hl => .inl ((hasks.table f).trans hl)⟩
    · refine .inr ⟨asked, hchecked, hasks.lastNackCheck, hack, (nacksBy_eq now hcalls).trans hnacks,
        hasks.nodup, hsub, hasks.rested, fun f last hl => ?_⟩
      rw [← hack]
      exact getElem?_retained ((hasks.table f).trans hl)

omit [PacketCodec C] in
/-- Calls that ask for no fragments. -/
theorem nacksBy_eq_nil {calls : List Call} (now : Instant)
    (h : s'.sealedCalls = s.sealedCalls ++ calls)
    (hnone : ∀ c ∈ calls, ∀ f m, c.2.2 ≠ .fragmentNack f m) : nacksBy s s' now = [] := by
  rw [nacksBy_eq now h, List.filterMap_eq_nil_iff]
  exact fun c hc => nackOf_eq_none (hnone c hc)

/-- INVERSION: only the check of a tick asks for fragments or touches the table. -/
theorem step_nacks {ev : MirrorEvent} (h : s.step ev = some s') :
    (∃ now u asked, ev = .tick now ∧ u.nackTable = s.nackTable ∧ u.codec = s.codec ∧
      u.ackSeqNum = s.ackSeqNum ∧ Checked now u s' asked ∧ nacksBy s s' now = nacksBy u s' now) ∨
    (s'.nackTable = s.nackTable ∧ s.ackSeqNum ≤ s'.ackSeqNum ∧ ∀ now, nacksBy s s' now = []) := by
  have hmark : s.ackSeqNum ≤ s'.ackSeqNum := by
    rcases step_cases h with ⟨hack, -⟩ | ⟨q, p, -, hlt, hack, -⟩
    · exact hack.ge
    · rw [hack]
      exact hlt.le
  obtain ⟨r, hr⟩ := step_eq_some_iff.mp h
  cases ev with
  | recv bytes now =>
    obtain ⟨v, calls, htaken, hseals, hacks⟩ := feedPacket_seals hr
    refine .inr ⟨(feedPacket_timers hr).1, hmark, fun now => ?_⟩
    have hcalls : v.sealedCalls = s.sealedCalls := congrArg Prod.fst htaken.counters
    exact nacksBy_eq_nil now (hcalls ▸ hseals.sealedCalls) fun c hc f m hp =>
      nomatch (hacks c hc).symm.trans hp
  | stdin buf now =>
    obtain ⟨calls, hseals, hrel⟩ := feedStdin_seals hr
    refine .inr ⟨congrArg Prod.snd (feedStdin_timers hr), hmark, fun now => ?_⟩
    refine nacksBy_eq_nil now hseals.sealedCalls fun c hc f m hp => ?_
    have hfalse := hrel c hc
    rw [hp] at hfalse
    cases hfalse
  | winch cols rows now =>
    refine .inr ⟨congrArg Prod.snd (onWinch_timers hr), hmark, fun now => ?_⟩
    exact nacksBy_eq_nil now (onWinch_seals hr).sealedCalls (by simp)
  | paint dest =>
    cases hr
    refine .inr ⟨congrArg Prod.snd (copyFrameIfDirty_timers s dest), hmark, fun now => ?_⟩
    have hcalls : (s.copyFrameIfDirty dest).1.sealedCalls = s.sealedCalls ++ [] := by
      obtain ⟨_, _, hframe⟩ := copyFrameIfDirty_frame s dest
      rw [hframe, List.append_nil]
    exact nacksBy_eq_nil now hcalls (by simp)
  | tick now =>
    obtain ⟨v, calls, hseals, hkeep, htable, hcase⟩ := onTick_timers hr
    have hnone : ∀ c ∈ calls, ∀ f m, c.2.2 ≠ .fragmentNack f m := fun c hc f m hp =>
      nomatch (hkeep c hc).symm.trans hp
    have hquiet : s' = v → s'.nackTable = s.nackTable ∧ s.ackSeqNum ≤ s'.ackSeqNum ∧
        ∀ now, nacksBy s s' now = [] := by
      rintro rfl
      exact ⟨htable, hmark, fun now => nacksBy_eq_nil now hseals.sealedCalls hnone⟩
    rcases hcase with ⟨-, hs, -⟩ | ⟨-, hs, -⟩
    · exact .inr (hquiet hs)
    · have hv : v.tickNack now = (s', (v.tickNack now).2) := Prod.ext hs.symm rfl
      rcases tickNack_asks hv with heq | ⟨asked, hasked⟩
      · exact .inr (hquiet heq)
      · refine .inl ⟨now, v, asked, rfl, htable, hseals.codec, hseals.ackSeqNum, hasked, ?_⟩
        obtain ⟨calls', hseals', -⟩ := tickNack_seals hv
        have hall : s'.sealedCalls = s.sealedCalls ++ (calls ++ calls') := by
          rw [hseals'.sealedCalls, hseals.sealedCalls, List.append_assoc]
        have hpre : calls.filterMap (nackOf now) = [] :=
          List.filterMap_eq_nil_iff.mpr fun c hc => nackOf_eq_none (hnone c hc)
        rw [nacksBy_eq now hall, nacksBy_eq now hseals'.sealedCalls, List.filterMap_append, hpre,
          List.nil_append]

end MirrorSession

/-! ### Runs -/

/-- A session and all it ever asked for. -/
structure Asking (C : Type) where
  session : MirrorSession C
  log : List Nack

namespace Asking
variable {C : Type} [PacketCodec C]

def start (session : MirrorSession C) : Asking C := ⟨session, []⟩

def step (w : Asking C) (ev : MirrorEvent) : Option (Asking C) :=
  (w.session.step ev).map fun session =>
    { session, log := w.log ++ (ev.time.map (w.session.nacksBy session)).getD [] }

/-- Every frame asked for is above the mark, and is asked for at most every 100 ms. -/
def Useful (w : Asking C) : Prop :=
  (∀ e ∈ w.log, e.ack < e.frame) ∧
  w.log.Pairwise fun e e' => e.frame = e'.frame → e.time + millis 100 ≤ e'.time

/-- A check finds no incomplete frame that is not above the mark. -/
def NoneStale (w : Asking C) (ev : MirrorEvent) : Prop :=
  ∀ now, ev = .tick now → now - w.session.lastNackCheck ≥ millis 40 →
    ∀ e ∈ PacketCodec.getIncompleteFrames w.session.codec, w.session.ackSeqNum < e.1

instance (w : Asking C) : (ev : MirrorEvent) → Decidable (NoneStale w ev)
  | .tick now => decidable_of_iff (now - w.session.lastNackCheck ≥ millis 40 →
      ∀ e ∈ PacketCodec.getIncompleteFrames w.session.codec, w.session.ackSeqNum < e.1)
      ⟨fun h _ heq => MirrorEvent.tick.inj heq ▸ h, fun h => h now rfl⟩
  | .recv _ _ => .isTrue fun _ heq => nomatch heq
  | .stdin _ _ => .isTrue fun _ heq => nomatch heq
  | .winch _ _ _ => .isTrue fun _ heq => nomatch heq
  | .paint _ => .isTrue fun _ heq => nomatch heq

/-- What the table remembers of the log. -/
structure Limited (w : Asking C) : Prop where
  useful : Useful w
  checked : ∀ e ∈ w.log, e.time ≤ w.session.lastNackCheck
  kept : ∀ e ∈ w.log, (∃ last, w.session.nackedFrames[e.frame]? = some last ∧ e.time ≤ last) ∨
    e.frame ≤ w.session.ackSeqNum ∨ e.time + secs 2 ≤ w.session.lastNackCheck

variable {w w' : Asking C} {ev : MirrorEvent}

omit [PacketCodec C] in
/-- What was asked for before, seen from a check that asks for the same frame. -/
theorem Limited.spaced (h : Limited w) {now : Instant} {e : Nack} (he : e ∈ w.log)
    (hmark : w.session.ackSeqNum < e.frame) (hcheck : w.session.lastNackCheck ≤ now)
    (hrest : ∀ last, w.session.nackedFrames[e.frame]? = some last → last + millis 100 ≤ now) :
    e.time + millis 100 ≤ now := by
  rcases h.kept e he with ⟨last, hl, hle⟩ | hle | hle
  · exact (Nat.add_le_add_right hle _).trans (hrest last hl)
  · exact absurd hle (Nat.not_le.mpr hmark)
  · have hgap : millis 100 ≤ secs 2 := by decide
    exact (Nat.add_le_add_left hgap _).trans (hle.trans hcheck)

/-- STEP: a check keeps the rate, if every frame it asks for is above the mark. -/
theorem Limited.check (h : Limited w) {now : Instant} {asked : List ℕ} {s' : MirrorSession C}
    (hc : MirrorSession.Checked now w.session s' asked)
    (hmark : ∀ f ∈ asked, w.session.ackSeqNum < f) :
    Limited ⟨s', w.log ++ asked.map fun f => ⟨now, f, w.session.ackSeqNum⟩⟩ := by
  have hcheck : w.session.lastNackCheck ≤ now := (Nat.le_add_right _ _).trans hc.due
  have hnew : ∀ e ∈ asked.map (fun f => (⟨now, f, w.session.ackSeqNum⟩ : Nack)),
      e.time = now ∧ e.frame ∈ asked ∧ e.ack = w.session.ackSeqNum := by
    intro e he
    obtain ⟨f, hf, rfl⟩ := List.mem_map.mp he
    exact ⟨rfl, hf, rfl⟩
  refine ⟨⟨fun e he => ?_, ?_⟩, fun e he => ?_, fun e he => ?_⟩
  · rcases List.mem_append.mp he with he | he
    · exact h.useful.1 e he
    · obtain ⟨-, hf, hack⟩ := hnew e he
      rw [hack]
      exact hmark _ hf
  · refine List.pairwise_append.mpr ⟨h.useful.2, ?_, fun e he e' he' heq => ?_⟩
    · exact List.pairwise_map.mpr (hc.nodup.imp fun hne heq => absurd heq hne)
    · obtain ⟨htime, hf, -⟩ := hnew e' he'
      rw [htime]
      exact h.spaced he (heq ▸ hmark _ hf) hcheck (heq ▸ hc.rested _ hf)
  · simp only [hc.lastNackCheck]
    rcases List.mem_append.mp he with he | he
    · exact (h.checked e he).trans hcheck
    · exact (hnew e he).1.le
  · -- the time noted for the frame is at least that of the request
    have hnoted : (∃ last, (if e.frame ∈ asked then some now else w.session.nackedFrames[e.frame]?) =
        some last ∧ e.time ≤ last) ∨ e.frame ≤ w.session.ackSeqNum ∨ e.time + secs 2 ≤ now := by
      rcases List.mem_append.mp he with he | he
      · by_cases hf : e.frame ∈ asked
        · exact .inl ⟨now, if_pos hf, (h.checked e he).trans hcheck⟩
        · rw [if_neg hf]
          exact (h.kept e he).imp_right (Or.imp_right fun hle => hle.trans hcheck)
      · obtain ⟨htime, hf, -⟩ := hnew e he
        exact .inl ⟨now, if_pos hf, htime.le⟩
    simp only [hc.lastNackCheck, hc.ackSeqNum]
    rcases hnoted with ⟨last, hl, hle⟩ | hold
    · rcases hc.kept e.frame last hl with hk | hk | hk
      · exact .inl ⟨last, hk, hle⟩
      · exact .inr (.inl hk)
      · exact .inr (.inr ((Nat.add_le_add_right hle _).trans hk))
    · exact .inr hold

/-- STEP: while no stale frame is incomplete at a check, the table limits the rate. -/
theorem Limited.step (h : Limited w) (hstale : NoneStale w ev) (hs : w.step ev = some w') :
    Limited w' := by
  obtain ⟨s', hs', rfl⟩ := Option.map_eq_some_iff.mp hs
  rcases MirrorSession.step_nacks hs' with
    ⟨now, u, asked, rfl, htable, hcodec, hack, hchecked, hnacks⟩ | ⟨htable, hmark, hnone⟩
  · have hcheck : u.lastNackCheck = w.session.lastNackCheck := congrArg Prod.fst htable
    have hframes : u.nackedFrames = w.session.nackedFrames := congrArg Prod.snd htable
    have hu : Limited ⟨u, w.log⟩ := by
      refine ⟨h.useful, ?_, ?_⟩
      · simp only [hcheck]
        exact h.checked
      · simp only [hcheck, hframes, hack]
        exact h.kept
    have hfresh : ∀ f ∈ asked, u.ackSeqNum < f := by
      intro f hf
      obtain ⟨e, he, rfl⟩ := List.mem_map.mp (hchecked.incomplete f hf)
      rw [hack]
      rw [hcodec] at he
      refine hstale now rfl ?_ e he
      rw [← hcheck]
      exact Nat.le_sub_of_add_le' hchecked.due
    have hlog : ((MirrorEvent.tick now).time.map (w.session.nacksBy s')).getD [] =
        asked.map fun f => ⟨now, f, u.ackSeqNum⟩ := hnacks.trans hchecked.nacks
    rw [hlog]
    exact hu.check hchecked hfresh
  · have hlog : (ev.time.map (w.session.nacksBy s')).getD [] = [] := by
      cases ev.time with
      | none => rfl
      | some now => exact hnone now
    simp only [hlog, List.append_nil]
    have hcheck : s'.lastNackCheck = w.session.lastNackCheck := congrArg Prod.fst htable
    have hframes : s'.nackedFrames = w.session.nackedFrames := congrArg Prod.snd htable
    refine ⟨h.useful, ?_, ?_⟩
    · simp only [hcheck]
      exact h.checked
    · simp only [hcheck, hframes]
      exact fun e he => (h.kept e he).imp_right (Or.imp_left fun hle => hle.trans hmark)

/-- RUN: in every run whose checks find no incomplete frame at or below the mark, every frame asked for
    is still wanted, and none is asked for twice within 100 ms. -/
theorem nacks_useful {sid : ℕ} {codec : C} {startServerSeq cols rows : ℕ} {overlay : Bool}
    {now : Instant} {events : List MirrorEvent}
    (hstale : StepsMeet step NoneStale (start (.new sid codec startServerSeq cols rows overlay now))
      events)
    (hrun : runFrom step (start (.new sid codec startServerSeq cols rows overlay now)) events = some w) :
    Useful w := by
  have hstart : Limited (start (.new sid codec startServerSeq cols rows overlay now) : Asking C) :=
    ⟨⟨by simp [start], .nil⟩, by simp [start], by simp [start]⟩
  exact (run_invariant (fun _ _ _ h hP hs => h.step hP hs) events hstart hstale hrun).useful

/-- The first datagram of a frame of two, and the reply to a keepalive after it. -/
def wideDatagram : Bytes :=
  ((MirrorSession.oneCell.codec.sealServer 1 1 ChaChaCodec.wideFrame).toOption.getD []).getD 0 []

def aliveDatagram : Bytes :=
  ((MirrorSession.oneCell.codec.sealServer 2 1 .keepAlive).toOption.getD []).getD 0 []

/-- Half of frame 1 arrives: it is asked for at 40 ms and again at 140 ms, but not at 80 ms. -/
theorem nacks_useful_half_frame :
    ∃ w : Asking (ChaChaCodec Bincode.crates),
      runFrom step (start .oneCell) [.recv wideDatagram 0, .tick (millis 40), .tick (millis 80),
        .tick (millis 140)] = some w ∧
      w.log = [⟨millis 40, 1, 0⟩, ⟨millis 140, 1, 0⟩] ∧ Useful w := by
  have hlog : (runFrom step (start .oneCell) [.recv wideDatagram 0, .tick (millis 40),
      .tick (millis 80), .tick (millis 140)]).map Asking.log =
      some [⟨millis 40, 1, 0⟩, ⟨millis 140, 1, 0⟩] := by
    decide +kernel
  obtain ⟨w, hw, hlog⟩ := Option.map_eq_some_iff.mp hlog
  exact ⟨w, hw, hlog, nacks_useful (by decide +kernel) hw⟩

/-- Half of frame 1 arrives, then packet 2: frame 1 is asked for at both of the next checks, 40 ms apart,
    although the mark is 2. -/
theorem stale_frame_nacked_twice :
    ∃ w : Asking (ChaChaCodec Bincode.crates),
      runFrom step (start .oneCell) [.recv wideDatagram 0, .recv aliveDatagram 0, .tick (millis 40),
        .tick (millis 80)] = some w ∧
      w.log = [⟨millis 40, 1, 2⟩, ⟨millis 80, 1, 2⟩] ∧ ¬ Useful w := by
  have hlog : (runFrom step (start .oneCell) [.recv wideDatagram 0, .recv aliveDatagram 0,
      .tick (millis 40), .tick (millis 80)]).map Asking.log =
      some [⟨millis 40, 1, 2⟩, ⟨millis 80, 1, 2⟩] := by
    decide +kernel
  obtain ⟨w, hw, hlog⟩ := Option.map_eq_some_iff.mp hlog
  refine ⟨w, hw, hlog, fun h => ?_⟩
  have hmark := h.1 ⟨millis 40, 1, 2⟩ (by rw [hlog]; exact List.mem_cons_self ..)
  exact absurd hmark (by decide)

end Asking

end Rumsh.Client
