import Rumsh.Client.Arq
import Rumsh.Schemes.Pacing

/-! How often the client sends a packet.

    A reliable packet leaves when it is sealed and again whenever a check finds it old enough. Whatever
    acks, keystrokes and ticks come in between, two transmissions of one packet are the limit in force at
    the second apart: twice the round trip, but 200 ms at least and one second at most. -/

namespace Rumsh.Client
open Std Rumsh.Schemes Rumsh.Protocol

namespace MirrorSession
variable {C : Type} {s s' : MirrorSession C} {n : ℕ} {ev : MirrorEvent}

theorem rttLimit_bounds (s : MirrorSession C) : millis 200 ≤ s.rttLimit ∧ s.rttLimit ≤ millis 1000 := by
  unfold rttLimit millis
  omega

variable [PacketCodec C]

/-- The event seals packet `n` or sends it again. -/
def Sends (n : ℕ) (s s' : MirrorSession C) (ev : MirrorEvent) : Prop :=
  (s.seqNum < n ∧ n ≤ s'.seqNum) ∨ n ∈ (s.resentBy ev).map Prod.fst

instance (n : ℕ) (s s' : MirrorSession C) (ev : MirrorEvent) : Decidable (Sends n s s' ev) :=
  inferInstanceAs (Decidable (_ ∨ _))

/-- The transmission of packet `n` by an event: its time and the limit in force then. -/
def sendAt (n : ℕ) (s : MirrorSession C) (ev : MirrorEvent) : Option (Instant × ℕ) :=
  (s.step ev).bind fun s' => if Sends n s s' ev then ev.time.map (·, s.rttLimit) else none

/-- The table knows when packet `n` was last sent. -/
structure KnowsSent (n : ℕ) (s : MirrorSession C) (last : Option Instant) : Prop where
  keys : ∀ k ∈ s.unackedPackets, k ≤ s.seqNum
  unsent : last = none → s.seqNum < n
  sent : ∀ m ∈ last, n ≤ s.seqNum ∧ ∀ (b : Bytes) (t : Instant), s.unackedPackets[n]? = some (b, t) → t = m

/-- Painting aside, an event has a time; painting sends nothing. -/
theorem time_of_sends (h : s.step ev = some s') (hn : Sends n s s' ev) : ∃ now, ev.time = some now := by
  cases ev with
  | paint dest =>
    obtain ⟨_, _, hframe⟩ := copyFrameIfDirty_frame s dest
    obtain ⟨r, hr⟩ := step_eq_some_iff.mp h
    cases hr
    rw [Sends, hframe] at hn
    rcases hn with ⟨hlt, hle⟩ | hmem
    · exact absurd hle (Nat.not_le.mpr hlt)
    · simp [resentBy] at hmem
  | recv bytes now => exact ⟨now, rfl⟩
  | stdin buf now => exact ⟨now, rfl⟩
  | winch cols rows now => exact ⟨now, rfl⟩
  | tick now => exact ⟨now, rfl⟩

/-- What is sent again was in the table, for the limit at least. -/
theorem entry_of_resent (hkeys : ∀ k ∈ s.unackedPackets, k ≤ s.seqNum)
    (hn : n ∈ (s.resentBy ev).map Prod.fst) :
    ∃ (now : Instant) (b : Bytes) (t : Instant), ev = .tick now ∧ s.unackedPackets[n]? = some (b, t) ∧
      t + s.rttLimit ≤ now := by
  obtain ⟨⟨n', b⟩, hmem, rfl⟩ := List.mem_map.mp hn
  cases ev with
  | tick now =>
    have hok : (s.tickKeepalive now).2.isOk = true := by
      rcases heq : s.tickKeepalive now with ⟨t, e | keepalive⟩
      · simp [resentBy, heq] at hmem
      · rfl
    obtain ⟨-, t, he, hold⟩ := (mem_resentBy hkeys hok).mp hmem
    exact ⟨now, b, t, rfl, he, elapsed_le s.rttLimit_pos hold⟩
  | _ => simp [resentBy] at hmem

theorem step_seqNum_le (h : s.step ev = some s') : s.seqNum ≤ s'.seqNum := by
  obtain ⟨u, calls, hu, -, -, hseals, -⟩ := step_ledger h
  exact hu ▸ hseals.seqNum_le

/-- The datagrams have numbers of reliable calls. -/
theorem reliable_of_datagram {codec : C} {sid : ℕ} {calls : List Call} {d : ℕ × Bytes}
    (h : d ∈ calls.filterMap (datagram codec sid)) :
    d.1 ∈ (calls.filter fun c => isReliable c.2.2).map Prod.fst := by
  obtain ⟨c, hc, hd⟩ := List.mem_filterMap.mp h
  unfold datagram at hd
  split at hd
  · rename_i hrel _
    obtain rfl := Option.some.inj hd
    exact List.mem_map_of_mem (List.mem_filter.mpr ⟨hc, hrel⟩)
  · cases hd

/-- The table holds numbers that were issued. -/
theorem step_keys (hkeys : ∀ k ∈ s.unackedPackets, k ≤ s.seqNum) (h : s.step ev = some s') :
    ∀ k ∈ s'.unackedPackets, k ≤ s'.seqNum := by
  intro k hk
  obtain ⟨u, calls, hu, -, hstored, hseals, -⟩ := step_ledger h
  have hin : (s'.stored k).isSome = true := by
    rw [stored, Option.isSome_map, ← TreeMap.mem_iff_isSome_getElem?]
    exact hk
  rw [hseals.stored, isSome_foldl_storeCall, hstored] at hin
  rcases hin with hold | hnew
  · have hmem : k ∈ s.unackedPackets := by
      have hsome : (s.stored k).isSome = true := by
        unfold pruned at hold
        split at hold
        · split at hold
          · exact hold
          · cases hold
        · exact hold
      rwa [stored, Option.isSome_map, ← TreeMap.mem_iff_isSome_getElem?] at hsome
    exact (hkeys k hmem).trans (step_seqNum_le h)
  · obtain ⟨d, hd, rfl⟩ := List.mem_map.mp hnew
    have hrange := reliable_of_datagram hd
    rw [hseals.reliable, List.mem_range'_1] at hrange
    have hle := hseals.seqNum_le
    omega

theorem sendAt_eq_some {f : Instant × ℕ} (h : sendAt n s ev = some f) :
    ∃ s' now, s.step ev = some s' ∧ Sends n s s' ev ∧ ev.time = some now ∧ f = (now, s.rttLimit) := by
  obtain ⟨s', hs, h⟩ := Option.bind_eq_some_iff.mp h
  obtain ⟨hn, h⟩ := Option.ite_none_right_eq_some.mp h
  obtain ⟨now, hnow, rfl⟩ := Option.map_eq_some_iff.mp h
  exact ⟨s', now, hs, hn, hnow, rfl⟩

/-- A transmission that is not the first keeps the limit. -/
theorem KnowsSent.pause {last : Option Instant} {f : Instant × ℕ} (hs : KnowsSent n s last)
    (h : sendAt n s ev = some f) : ∀ m ∈ last, m + f.2 ≤ f.1 := by
  intro m hm
  obtain ⟨hle, htable⟩ := hs.sent m hm
  obtain ⟨s', now, -, hn, hnow, rfl⟩ := sendAt_eq_some h
  have hres := hn.resolve_left fun hnew => absurd hle (Nat.not_le.mpr hnew.1)
  obtain ⟨now', b, t, rfl, he, hold⟩ := entry_of_resent hs.keys hres
  obtain rfl := Option.some.inj hnow
  exact htable b t he ▸ hold

/-- STEP: an event remembers the transmission it makes. -/
theorem KnowsSent.step {last : Option Instant} (hs : KnowsSent n s last) (h : s.step ev = some s') :
    KnowsSent n s' (((sendAt n s ev).map Prod.fst).or last) := by
  have hle := step_seqNum_le h
  have hin : ∀ {b : Bytes} {t : Instant}, s.unackedPackets[n]? = some (b, t) → n ≤ s.seqNum :=
    fun he => hs.keys n (TreeMap.mem_iff_isSome_getElem?.mpr (by rw [he]; rfl))
  by_cases hn : Sends n s s' ev
  · obtain ⟨now, hnow⟩ := time_of_sends h hn
    have hsend : sendAt n s ev = some (now, s.rttLimit) := by simp [sendAt, h, hn, hnow]
    rw [hsend, Option.map_some, Option.some_or]
    refine ⟨step_keys hs.keys h, nofun, fun m hm => ?_⟩
    obtain rfl := Option.some.inj hm
    refine ⟨hn.elim And.right fun hres => ?_, fun b t he => ?_⟩
    · obtain ⟨_, _, _, -, he, -⟩ := entry_of_resent hs.keys hres
      exact (hin he).trans hle
    · rcases step_entry h he with ⟨htime, -⟩ | ⟨b', he', hres⟩
      · exact Option.some.inj (htime.symm.trans hnow)
      · exact absurd (hin he') (Nat.not_le.mpr (hn.resolve_right hres).1)
  · have hsend : sendAt n s ev = none := by simp [sendAt, h, hn]
    rw [hsend, Option.map_none, Option.none_or]
    refine ⟨step_keys hs.keys h, fun hlast => ?_, fun m hm => ?_⟩
    · by_contra hge
      exact hn (.inl ⟨hs.unsent hlast, Nat.not_lt.mp hge⟩)
    · obtain ⟨hissued, htable⟩ := hs.sent m hm
      refine ⟨hissued.trans hle, fun b t he => ?_⟩
      rcases step_entry h he with ⟨-, hnew | hres⟩ | ⟨b', he', -⟩
      · omega
      · exact absurd (.inr hres) hn
      · exact htable b' t he'

/-- PACING: in every run of a client, whatever datagrams, keystrokes and ticks come and when, two
    transmissions of a packet are the retransmission limit of the later one apart, which is 200 ms at
    least and a second at most. So a window of length `w` holds `⌈w / 200 ms⌉` of them at most. -/
theorem transmissions_paced (sid : ℕ) (codec : C) (startServerSeq cols rows : ℕ) (overlay : Bool)
    (now : Instant) (events : List MirrorEvent) (hn : 0 < n) :
    Spaced (firings step (sendAt n) (.new sid codec startServerSeq cols rows overlay now) events) ∧
    (∀ f ∈ firings step (sendAt n) (.new sid codec startServerSeq cols rows overlay now) events,
      millis 200 ≤ f.2 ∧ f.2 ≤ millis 1000) ∧
    ∀ a w, (within (millis 200) a w (firings step (sendAt n)
      (.new sid codec startServerSeq cols rows overlay now) events)).length ≤
        (w + millis 200 - 1) / millis 200 := by
  have hstart : KnowsSent n (.new sid codec startServerSeq cols rows overlay now : MirrorSession C) none :=
    ⟨fun k hk => absurd hk TreeMap.not_mem_emptyc, fun _ => hn, nofun⟩
  obtain ⟨hspaced, -⟩ := firings_spaced (KnowsSent n) (fun _ _ _ _ => KnowsSent.pause)
    (fun _ _ _ _ => KnowsSent.step) events hstart
  refine ⟨hspaced, firings_forall (fun s ev f hf => ?_) events _, fun a w => ?_⟩
  · obtain ⟨_, _, -, -, -, rfl⟩ := sendAt_eq_some hf
    exact s.rttLimit_bounds
  · exact length_within (by decide) hspaced a w

/-- A keystroke that is not acknowledged leaves at once and then every 200 ms or later. -/
theorem transmissions_paced_keystroke :
    firings step (sendAt 1) oneCell [.stdin [97] 0, .tick (millis 150), .tick (millis 250),
      .tick (millis 350), .tick (millis 450)] = [(0, millis 200), (millis 250, millis 200),
        (millis 450, millis 200)] ∧
    ∀ a w, (within (millis 200) a w (firings step (sendAt 1) oneCell [.stdin [97] 0,
      .tick (millis 150), .tick (millis 250), .tick (millis 350), .tick (millis 450)])).length ≤
        (w + millis 200 - 1) / millis 200 :=
  ⟨by decide +kernel, (transmissions_paced _ _ 1 1 1 false 0 _ (by decide)).2.2⟩

end MirrorSession

end Rumsh.Client
