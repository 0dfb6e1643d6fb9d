import Rumsh.Schemes.Pacing
import Rumsh.Server.Emits
import Rumsh.Server.TextTerminal

/-! How often the server hands out frames.

    `check_sync` runs on every packet and on every tick, and keeps a pause of its own: 16 ms, or 150 ms
    while PTY output floods. Whatever drives it, the frame jobs of a run are that far apart. -/

namespace Rumsh.Server
open Rumsh.Schemes Rumsh.Protocol

/-- The time of an event. -/
def SessionEvent.now : SessionEvent → Instant
  | .packet _ _ now _ => now
  | .ptyBytes _ now => now
  | .tick now _ => now

namespace AuthoritativeSession
variable {C T : Type}

/-- The two sessions agree on what the pause depends on; numbers may have been taken. -/
structure SamePause (s s' : AuthoritativeSession C T) : Prop where
  lastSyncTime : s'.lastSyncTime = s.lastSyncTime
  lastPtyBytesTime : s'.lastPtyBytesTime = s.lastPtyBytesTime
  ptyBytesAcc : s'.ptyBytesAcc = s.ptyBytesAcc
  seqNum : s.seqNum ≤ s'.seqNum

variable {s s' s'' : AuthoritativeSession C T} {now : Instant} {actions : List (SessionAction C)}

theorem SamePause.refl (s : AuthoritativeSession C T) : SamePause s s := ⟨rfl, rfl, rfl, le_rfl⟩

theorem SamePause.trans (h : SamePause s s') (h' : SamePause s' s'') : SamePause s s'' :=
  ⟨h'.1.trans h.1, h'.2.trans h.2, h'.3.trans h.3, h.4.trans h'.4⟩

/-- A session step hands out one frame at most, only after the pause, and then remembers the time. -/
structure Paced (now : Instant) (s s' : AuthoritativeSession C T) (actions : List (SessionAction C)) :
    Prop where
  seqNum : s.seqNum ≤ s'.seqNum
  quiet : jobsOf actions = [] → s'.lastSyncTime = s.lastSyncTime
  one : (jobsOf actions).length ≤ 1
  fired : jobsOf actions ≠ [] → (0 < s.seqNum → s.lastSyncTime + s.minInterval now ≤ now) ∧
    s'.lastSyncTime = now ∧ 0 < s'.seqNum

/-- What comes before the frame scheduler does not matter. -/
theorem Paced.after (h : SamePause s s') (hp : Paced now s' s'' actions) : Paced now s s'' actions := by
  refine ⟨h.seqNum.trans hp.seqNum, fun hj => (hp.quiet hj).trans h.lastSyncTime, hp.one, fun hj => ?_⟩
  obtain ⟨hpause, hnow, hpos⟩ := hp.fired hj
  refine ⟨fun hs => ?_, hnow, hpos⟩
  have := hpause (hs.trans_le h.seqNum)
  rwa [h.lastSyncTime, minInterval, h.ptyBytesAcc, h.lastPtyBytesTime] at this

/-- Other actions do not matter. -/
theorem Paced.of_jobs {actions' : List (SessionAction C)} (hj : jobsOf actions' = jobsOf actions)
    (h : Paced now s s' actions) : Paced now s s' actions' :=
  ⟨h.seqNum, fun he => h.quiet (hj ▸ he), hj ▸ h.one, fun he => h.fired (hj ▸ he)⟩

/-- Nothing is handed out. -/
theorem SamePause.paced (h : SamePause s s') (hj : jobsOf actions = []) : Paced now s s' actions :=
  ⟨h.seqNum, fun _ => h.lastSyncTime, by simp [hj], fun hne => absurd hj hne⟩

variable [TerminalState T]

omit [TerminalState T] in
theorem le_minInterval (s : AuthoritativeSession C T) (now : Instant) : millis 16 ≤ s.minInterval now := by
  unfold minInterval
  split <;> decide

/-- The frame scheduler keeps the pause. -/
theorem checkSync_paced (s : AuthoritativeSession C T) (now : Instant) (echo : Bool) :
    Paced now s (s.checkSync now echo).1 (s.checkSync now echo).2 := by
  obtain ⟨acc, hcalm⟩ := calmed_frame s now
  rcases checkSync_cases s now echo with hs | ⟨-, hs⟩ | ⟨-, t, ⟨e, -, hs⟩ | ⟨g, -, ⟨-, -, hs⟩ | hs⟩⟩
  · rw [hs]
    exact (SamePause.refl s).paced rfl
  · rw [hs, hcalm]
    exact ⟨le_rfl, fun _ => rfl, Nat.zero_le _, fun hj => absurd rfl hj⟩
  · rw [hs, hcalm]
    exact ⟨le_rfl, fun _ => rfl, Nat.zero_le _, fun hj => absurd rfl hj⟩
  · rw [hs, hcalm]
    exact ⟨le_rfl, fun _ => rfl, Nat.zero_le _, fun hj => absurd rfl hj⟩
  · -- a frame is due only if the scheduler did not return at once
    have hthrottled : s.throttled now = false := by
      by_contra hth
      have hnone : s.checkSync now echo = (s, []) := by
        unfold checkSync
        rw [if_pos (Bool.not_eq_false _ ▸ hth)]
      rw [hnone] at hs
      exact absurd (congrArg Prod.snd hs) (by simp [queueFrame])
    rw [hs, hcalm]
    refine ⟨Nat.le_succ _, fun hj => absurd hj (by simp [queueFrame, jobsOf]), le_rfl,
      fun _ => ⟨fun hpos => ?_, rfl, Nat.succ_pos _⟩⟩
    have hgap : 0 < s.seqNum → s.minInterval now ≤ now - s.lastSyncTime := by
      simpa [throttled] using hthrottled
    have hgap := hgap hpos
    have hlt : s.lastSyncTime < now :=
      Nat.lt_of_sub_pos ((show 0 < millis 16 by decide).trans_le ((le_minInterval s now).trans hgap))
    exact Nat.add_le_of_le_sub' hlt.le hgap

variable [PacketCodec C]

theorem process_samePause {payload : ClientPayload} {r : Except Error (List (SessionAction C))}
    (h : s.process payload = some (s', r)) : SamePause s s' := by
  rcases process_inv h with ⟨res, heq, -⟩ | ⟨pty, t, dirty, rfl, -⟩
  · obtain ⟨rfl, -⟩ := Prod.mk.inj heq
    exact ⟨rfl, rfl, rfl, Nat.le_succ _⟩
  · exact ⟨rfl, rfl, rfl, le_rfl⟩

theorem processAll_samePause {packets : List (ℕ × ClientPayload)}
    {r : Except Error (List (SessionAction C))} (h : processAll packets s actions = some (s', r)) :
    SamePause s s' :=
  processAll_induct SamePause.refl (fun _ _ _ => SamePause.trans) (fun _ _ _ _ => process_samePause) h

/-- STEP: whatever turn of the session hands out a frame keeps the pause. -/
theorem turn_paced {ev : SessionEvent} (h : s.turn ev = some (s', actions)) :
    Paced ev.now s s' actions := by
  cases ev with
  | ptyBytes data now =>
    obtain ⟨rfl, rfl⟩ := Prod.mk.inj (Option.some.inj h)
    exact ⟨le_rfl, fun _ => rfl, Nat.zero_le _, fun hj => absurd rfl hj⟩
  | tick now echo =>
    have h : s.checkSync now echo = (s', actions) := Option.some.inj h
    have hp := checkSync_paced s now echo
    rw [h] at hp
    exact hp
  | packet bytes src now echo =>
    obtain ⟨⟨t, r⟩, ht, heq⟩ := Option.map_eq_some_iff.mp h
    obtain ⟨rfl, rfl⟩ := Prod.mk.inj heq
    rcases feedPacket_cases ht with ⟨rfl, rfl, -⟩ | ⟨w, p, st, -, ⟨-, hs⟩ | ⟨-, -, hcase⟩⟩
    · exact (SamePause.refl _).paced rfl
    · have hseal : SamePause s ((s.resetFor w.seqNum src now).sealNext w.seqNum
          (.handshakeAck s.sessionId)).1 := ⟨rfl, rfl, rfl, Nat.le_succ _⟩
      rcases feedHandshake_cases hs with ⟨-, rfl, rfl⟩ | ⟨-, u, rfl, hreset⟩
      · exact (SamePause.refl _).paced rfl
      · rcases hreset with ⟨e, -, rfl, rfl⟩ | ⟨ds, -, rfl, rfl⟩
        · exact hseal.paced rfl
        · exact .of_jobs (by simp [actionsOf]) (.after hseal (checkSync_paced _ now echo))
    · have hheard : SamePause s (s.heard src now) := ⟨rfl, rfl, rfl, le_rfl⟩
      rcases hcase with ⟨-, hx⟩ | ⟨-, ⟨-, rfl, rfl⟩ | ⟨-, rfl, rfl⟩ | ⟨-, ho⟩⟩
      · cases hx
        have hack : SamePause s ((s.heard src now).noteAck w.ackSeqNum) := ⟨rfl, rfl, rfl, le_rfl⟩
        exact .of_jobs (by simp [actionsOf]) (.after hack (checkSync_paced _ now echo))
      · exact hheard.paced rfl
      · exact SamePause.paced ⟨rfl, rfl, rfl, le_rfl⟩ rfl
      · have hadv : SamePause s ((s.heard src now).advance w.ackSeqNum) := ⟨rfl, rfl, rfl, le_rfl⟩
        rcases feedInOrder_cases ho with ⟨e, hp, rfl⟩ | ⟨u, acts, hp, rfl, rfl⟩
        · exact (hadv.trans (processAll_samePause hp)).paced rfl
        · refine .of_jobs ?_ (.after (hadv.trans (processAll_samePause hp)) (checkSync_paced u now echo))
          rw [actionsOf, jobsOf_append, jobsOf_processAll hp, jobsOf_nil, List.nil_append]

/-! ### Frames of a run -/

/-- The session after an event. -/
def next (s : AuthoritativeSession C T) (ev : SessionEvent) : Option (AuthoritativeSession C T) :=
  (s.turn ev).map Prod.fst

/-- The frame that an event makes the session hand out: its time and the pause in force then. -/
def frameAt (s : AuthoritativeSession C T) (ev : SessionEvent) : Option (Instant × ℕ) :=
  (s.turn ev).bind fun (_, actions) =>
    if (jobsOf actions).isEmpty then none else some (ev.now, s.minInterval ev.now)

/-- The session knows when the last frame went. -/
def KnowsLast (s : AuthoritativeSession C T) (last : Option Instant) : Prop :=
  ∀ m ∈ last, 0 < s.seqNum ∧ s.lastSyncTime = m

theorem frameAt_eq_some {ev : SessionEvent} {f : Instant × ℕ} (h : s.frameAt ev = some f) :
    ∃ s' actions, s.turn ev = some (s', actions) ∧ jobsOf actions ≠ [] ∧
      f = (ev.now, s.minInterval ev.now) := by
  obtain ⟨⟨s', actions⟩, ht, h⟩ := Option.bind_eq_some_iff.mp h
  obtain ⟨hne, hf⟩ := Option.ite_none_left_eq_some.mp h
  exact ⟨s', actions, ht, by simpa using hne, (Option.some.inj hf).symm⟩

theorem frameAt_pause {ev : SessionEvent} {last : Option Instant} {f : Instant × ℕ}
    (hs : s.KnowsLast last) (h : s.frameAt ev = some f) : ∀ m ∈ last, m + f.2 ≤ f.1 := by
  obtain ⟨s', actions, ht, hne, rfl⟩ := frameAt_eq_some h
  intro m hm
  obtain ⟨hpos, rfl⟩ := hs m hm
  exact ((turn_paced ht).fired hne).1 hpos

theorem KnowsLast.next {ev : SessionEvent} {last : Option Instant} (hs : s.KnowsLast last)
    (h : s.next ev = some s') : s'.KnowsLast (((s.frameAt ev).map Prod.fst).or last) := by
  obtain ⟨⟨t, actions⟩, ht, rfl⟩ := Option.map_eq_some_iff.mp h
  have hp := turn_paced ht
  by_cases hj : jobsOf actions = []
  · have hf : s.frameAt ev = none := by simp [frameAt, ht, hj]
    intro m hm
    rw [hf, Option.map_none, Option.none_or] at hm
    obtain ⟨hpos, rfl⟩ := hs m hm
    exact ⟨hpos.trans_le hp.seqNum, hp.quiet hj⟩
  · have hf : s.frameAt ev = some (ev.now, s.minInterval ev.now) := by simp [frameAt, ht, hj]
    obtain ⟨-, hnow, hpos⟩ := hp.fired hj
    intro m hm
    rw [hf, Option.map_some, Option.some_or, Option.mem_some_iff] at hm
    exact ⟨hpos, hnow.trans hm⟩

/-- The frames of a run are those recorded in it. -/
theorem length_pushed : ∀ {evs : List SessionEvent} {s s' : AuthoritativeSession C T},
    runFrom next s evs = some s' → s'.pushed.length = s.pushed.length + (firings next frameAt s evs).length
  | [], s, s', h => by
      cases h
      rfl
  | ev :: evs, s, s', h => by
      obtain ⟨t, ht, h⟩ := Option.bind_eq_some_iff.mp h
      have hrest := length_pushed h
      obtain ⟨⟨t, actions⟩, hturn, rfl⟩ := Option.map_eq_some_iff.mp ht
      have hone := (turn_paced hturn).one
      obtain ⟨s₀, harr, hem⟩ := turn_emits hturn
      have hstep : t.pushed.length = s.pushed.length + (s.frameAt ev).toList.length := by
        rw [hem.pushed, harr.pushed, List.length_append, List.length_map, frameAt, hturn]
        by_cases hj : jobsOf actions = []
        · simp [hj]
        · have := List.length_pos_iff.mpr hj
          simp [hj]
          omega
      simp only [firings, ht, List.length_append]
      dsimp only at hrest hstep
      omega

omit [TerminalState T] [PacketCodec C] in
theorem minInterval_cases (s : AuthoritativeSession C T) (now : Instant) :
    s.minInterval now = millis 16 ∨ s.minInterval now = millis 150 := by
  unfold minInterval
  split
  · exact .inr rfl
  · exact .inl rfl

/-- PACING: in every run of a session, whatever packets, output and ticks come and when, each frame is
    handed out at least 16 ms after the one before, or 150 ms while output floods. So a window of length
    `w` holds `⌈w / 16 ms⌉` frames at most, and `⌈w / 150 ms⌉` of those handed out during a flood. -/
theorem frame_rate (s : AuthoritativeSession C T) (evs : List SessionEvent) :
    Spaced (firings next frameAt s evs) ∧
    (∀ f ∈ firings next frameAt s evs, f.2 = millis 16 ∨ f.2 = millis 150) ∧
    (∀ a w, (within (millis 16) a w (firings next frameAt s evs)).length ≤
      (w + millis 16 - 1) / millis 16) ∧
    (∀ a w, (within (millis 150) a w (firings next frameAt s evs)).length ≤
      (w + millis 150 - 1) / millis 150) ∧
    ∀ s', runFrom next s evs = some s' →
      s'.pushed.length = s.pushed.length + (firings next frameAt s evs).length := by
  have hknown : s.KnowsLast none := nofun
  have hspaced : Spaced (firings next frameAt s evs) :=
    (firings_spaced KnowsLast (fun _ _ _ _ => frameAt_pause) (fun _ _ _ _ => KnowsLast.next) evs hknown).1
  have hpause : ∀ f ∈ firings next frameAt s evs, f.2 = millis 16 ∨ f.2 = millis 150 := by
    refine firings_forall (fun t ev f hf => ?_) evs s
    obtain ⟨_, _, -, -, rfl⟩ := frameAt_eq_some hf
    exact minInterval_cases t ev.now
  exact ⟨hspaced, hpause, fun a w => length_within (by decide) hspaced a w,
    fun a w => length_within (by decide) hspaced a w, fun _ => length_pushed⟩

end AuthoritativeSession

end Rumsh.Server
