import Rumsh.Client.MainLoop
import Rumsh.Client.Stdin

/-! What is typed, along a run of the main loop.

    The escape interpreter reads the chunks one after the other, and nothing else touches it; nothing but
    a chunk puts keystrokes into a packet. So the packets hold what the interpreter makes of all that was
    read, up to the chunk with which the loop is left. -/

namespace Rumsh.Client
open Rumsh.Schemes Rumsh.Protocol

namespace MirrorSession
variable {C : Type}

/-- The keystrokes in the packets issued. -/
def keystrokes (s : MirrorSession C) : Bytes := s.issued.flatMap fun e => keysOf e.2

/-- Nothing was read, and no keystrokes were issued. -/
structure Unread (s s' : MirrorSession C) : Prop where
  interpreter : s'.interpreter = s.interpreter
  keystrokes : s'.keystrokes = s.keystrokes

variable {s s' s'' : MirrorSession C} {now : Instant}

theorem Unread.refl (s : MirrorSession C) : Unread s s := ⟨rfl, rfl⟩

theorem Unread.trans (h : Unread s s') (h' : Unread s' s'') : Unread s s'' :=
  ⟨h'.interpreter.trans h.interpreter, h'.keystrokes.trans h.keystrokes⟩

/-- What leaves the interpreter and the packets alone. -/
theorem unread_of_eq (hi : s'.interpreter = s.interpreter) (hp : s'.issued = s.issued) : Unread s s' :=
  ⟨hi, by rw [keystrokes, keystrokes, hp]⟩

variable [PacketCodec C]

/-- A packet without keystrokes. -/
theorem unread_prepareReliable {payload : ClientPayload} {r : Except Error (Bytes × ℕ)}
    (hkeys : keysOf payload = []) (h : s.prepareReliable payload now = (s', r)) : Unread s s' := by
  obtain ⟨t, rfl, ⟨e, -, rfl, -⟩ | ⟨bytes, -, rfl, -⟩⟩ := prepareReliable_inv h
  · exact unread_of_eq rfl rfl
  · refine ⟨rfl, ?_⟩
    simp only [keystrokes, List.flatMap_append, List.flatMap_cons, List.flatMap_nil, hkeys,
      List.append_nil]

theorem unread_sendAck (s : MirrorSession C) (now : Instant) : Unread s (s.sendAck now).1 := by
  obtain ⟨_, _, h⟩ := sendAck_frame s now
  exact unread_of_eq (by rw [h]) (by rw [h])

theorem unread_ackIfDue (s : MirrorSession C) (now : Instant) : Unread s (s.ackIfDue now).1 := by
  obtain ⟨_, _, _, h⟩ := ackIfDue_frame s now
  exact unread_of_eq (by rw [h]) (by rw [h])

theorem unread_onWinch {cols rows : ℕ} {r : Except Error (List ClientAction)}
    (h : s.onWinch cols rows now = some (s', r)) : Unread s s' := by
  obtain ⟨t, res, mirror, ht, rfl⟩ := onWinch_frame h
  exact (unread_prepareReliable rfl ht).trans (unread_of_eq rfl rfl)

theorem unread_onTick {r : Except Error (List ClientAction)} (h : s.onTick now = some (s', r)) :
    Unread s s' := by
  have hkeep : ∀ {t : MirrorSession C} {res}, s.tickKeepalive now = (t, res) → Unread s t := by
    intro t res hk
    rcases tickKeepalive_inv hk with ⟨rfl, -⟩ | ⟨res, ht, -⟩
    · exact .refl _
    · exact (unread_of_eq rfl rfl : Unread s { s with lastKeepaliveSent := now }).trans
        (unread_prepareReliable rfl ht)
  rcases onTick_inv h with ⟨e, hk, -⟩ | ⟨t, keepalive, u, banner, nacks, hk, hb, hn, -⟩
  · exact hkeep hk
  · have harq : Unread t (t.tickArq now).1 := by
      obtain ⟨_, _, heq⟩ := tickArq_frame t now
      exact unread_of_eq (by rw [heq]) (by rw [heq])
    have hbanner : Unread (t.tickArq now).1 u := by
      rcases tickBanner_inv hb with ⟨-, rfl, -⟩ | ⟨_, _, -, -, -, -, rfl⟩
      · exact .refl _
      · exact unread_of_eq rfl rfl
    have htelemetry : Unread u (u.tickTelemetry now).1 := by
      rcases tickTelemetry_inv u now with heq | ⟨_, _, _, heq⟩
      · exact unread_of_eq (by rw [heq]) (by rw [heq])
      · exact unread_of_eq (by rw [heq]) (by rw [heq])
    have hnack : Unread (u.tickTelemetry now).1 s' := by
      obtain ⟨_, _, _, _, rfl⟩ := tickNack_frame hn
      exact unread_of_eq rfl rfl
    exact (hkeep hk).trans (harq.trans (hbanner.trans (htelemetry.trans hnack)))

theorem unread_feedPacket {bytes : Bytes} {r : Except Error (List ClientAction)}
    (h : s.feedPacket bytes now = some (s', r)) : Unread s s' := by
  rcases feedPacket_inv h with ⟨-, rfl, -⟩ | ⟨packet, payload, stats, t, -, ht, hcase⟩
  · exact unread_of_eq rfl rfl
  · have hheaders : Unread s t := by
      obtain ⟨_, _, _, _, _, -, rfl⟩ := noteHeaders_inv ht
      exact unread_of_eq rfl rfl
    rcases hcase with ⟨-, rfl, -⟩ | ⟨-, u, hu, hp⟩
    · exact hheaders
    · have haccept : Unread t u := by
        obtain ⟨_, -, rfl⟩ := accept_inv hu
        exact unread_of_eq rfl rfl
      refine hheaders.trans (haccept.trans ?_)
      rcases feedPayload_inv hp with rfl | rfl | ⟨g, echo, v, hv, rfl⟩
      · exact .refl _
      · exact unread_sendAck u now
      · have hshow : Unread u v := by
          obtain ⟨_, _, -, -, rfl⟩ := showFrame_inv hv
          exact unread_of_eq rfl rfl
        exact hshow.trans (unread_ackIfDue v now)

/-- INVERSION: only stdin is read. -/
theorem unread_of_step {ev : MirrorEvent} (hev : ∀ buf now, ev ≠ .stdin buf now)
    (h : s.step ev = some s') : Unread s s' := by
  obtain ⟨r, hr⟩ := step_eq_some_iff.mp h
  cases ev with
  | recv bytes now => exact unread_feedPacket hr
  | stdin buf now => exact absurd rfl (hev buf now)
  | winch cols rows now => exact unread_onWinch hr
  | tick now => exact unread_onTick hr
  | paint dest =>
    obtain ⟨rfl, -⟩ := Prod.mk.inj (Option.some.inj hr)
    obtain ⟨_, _, heq⟩ := copyFrameIfDirty_frame s dest
    exact unread_of_eq (by rw [heq]) (by rw [heq])

theorem unread_of_run {evs : List MirrorEvent} (hevs : ∀ ev ∈ evs, ∀ buf now, ev ≠ .stdin buf now)
    (h : runFrom step s evs = some s') : Unread s s' := by
  induction evs generalizing s with
  | nil =>
    cases h
    exact .refl _
  | cons ev evs ih =>
    obtain ⟨t, ht, h⟩ := Option.bind_eq_some_iff.mp h
    exact (unread_of_step (hevs ev (List.mem_cons_self ..)) ht).trans
      (ih (fun e he => hevs e (List.mem_cons_of_mem _ he)) h)

/-- The first number is taken, by a packet without keystrokes or by none. -/
def Opened (s : MirrorSession C) : Prop := 1 ≤ s.seqNum ∧ ∀ e ∈ s.issued, e.1 ≤ 1 → keysOf e.2 = []

theorem Opened.step {ev : MirrorEvent} (h : s.Opened) (hs : s.step ev = some s') : s'.Opened := by
  have hsent : ∀ {u : MirrorSession C} {out}, u.Opened → Sent u s' out → s'.Opened := by
    rintro u out ⟨hseq, hfirst⟩ hsent
    obtain ⟨new, hnew, -, hrange⟩ := hsent.issued
    refine ⟨hseq.trans hsent.seqNum, fun e he hle => ?_⟩
    rw [hnew] at he
    rcases List.mem_append.mp he with he | he
    · exact hfirst e he hle
    · have := (hrange e he).1
      omega
  obtain ⟨⟨t, out⟩, hturn, rfl⟩ := Option.map_eq_some_iff.mp hs
  rcases turn_cases hturn with ⟨bytes, now, u, -, hu, hout⟩ | ⟨-, hout⟩
  · refine hsent ?_ hout
    rw [Opened, hu.seqNum, hu.issued]
    exact h
  · exact hsent h hout

end MirrorSession

/-! ### The main loop -/

namespace MainLoop
variable {B C : Type} [LifecycleBackend B] [PacketCodec C] {l l' : MainLoop B C}

/-- What a turn reads from stdin, as long as the loop has not been left. -/
def reads (l : MainLoop B C) (t : Turn) : Bytes :=
  match l.result, t.event with
  | none, .stdin bytes => bytes
  | _, _ => []

/-- The packets hold what the interpreter makes of the input: all of it while the loop goes on. -/
structure Typed (input : Bytes) (l : MainLoop B C) : Prop where
  issued : l.session.keystrokes <+: (EscapeInterpreter.scan input .new).keys
  running : l.result = none →
    l.session.keystrokes = (EscapeInterpreter.scan input .new).keys ∧
      (EscapeInterpreter.scan input .new).disconnected = false ∧
      l.session.interpreter = (EscapeInterpreter.scan input .new).interpreter

variable {input : Bytes}

omit [LifecycleBackend B] [PacketCodec C] in
/-- A loop that is left keeps what was issued. -/
theorem Typed.left (h : Typed input l) (hkeys : l'.session.keystrokes = l.session.keystrokes)
    (hleft : l'.result ≠ none) : Typed input l' :=
  ⟨hkeys ▸ h.issued, fun hnone => absurd hnone hleft⟩

/-- After the session's turn, nothing is read before the next. -/
theorem handle_unread {ev : MirrorEvent} {meanwhile : ℕ → Meanwhile}
    (h : l.handle ev meanwhile = some l') :
    ∃ session r, l.session.react ev = some (session, r) ∧ session.Unread l'.session ∧
      (∀ e, r = .error e → l'.result ≠ none) ∧
      ∀ actions, r = .ok actions → .disconnect ∈ actions → l'.result ≠ none := by
  obtain ⟨session, r, evs, out, hreact, hfollows, hfed, -, herror, hok⟩ := handle_follows h
  have hrun : runFrom MirrorSession.step session evs = some l'.session := by
    have hwhole := hfollows.run
    rwa [runFrom_cons, MirrorSession.step_eq_some_iff.mpr ⟨r, hreact⟩] at hwhole
  refine ⟨session, r, hreact, ?_, herror, fun actions hr => (hok actions hr).2⟩
  refine MirrorSession.unread_of_run (fun ev hev buf now heq => ?_) hrun
  have hmem : ev ∈ evs.filter fed := List.mem_filter.mpr ⟨hev, by rw [heq]; rfl⟩
  rw [hfed] at hmem
  cases hmem

omit [LifecycleBackend B] [PacketCodec C] in
/-- A turn of the session that reads nothing. -/
theorem Typed.unread (h : Typed input l) (hresult : l.result = none)
    (hunread : l.session.Unread l'.session) : Typed input l' := by
  obtain ⟨hkeys, hgoes, hint⟩ := h.running hresult
  exact ⟨hunread.keystrokes ▸ h.issued, fun _ =>
    ⟨hunread.keystrokes.trans hkeys, hgoes, hunread.interpreter.trans hint⟩⟩

/-- A chunk: what it releases is issued, or the loop is left. -/
theorem Typed.stdin (h : Typed input l) (hresult : l.result = none) {bytes : Bytes} {now : Instant}
    {meanwhile : ℕ → Meanwhile} (hstep : l.handle (.stdin bytes now) meanwhile = some l') :
    Typed (input ++ bytes) l' := by
  obtain ⟨hkeys, hgoes, hint⟩ := h.running hresult
  obtain ⟨session, r, hreact, hunread, herror, hok⟩ := handle_unread hstep
  obtain ⟨hinterpreter, hfed⟩ := MirrorSession.feedStdin_cases hreact
  have hscan : EscapeInterpreter.scan (input ++ bytes) .new =
      (EscapeInterpreter.scan input .new).andThen (EscapeInterpreter.scan bytes) :=
    EscapeInterpreter.scan_append input bytes .new
  simp only [Scanned.andThen, hgoes, Bool.false_eq_true, if_false, ← hint] at hscan
  have hleft : session.issued = l.session.issued → l'.result ≠ none → Typed (input ++ bytes) l' := by
    intro hsame hresult'
    refine ⟨?_, fun hnone => absurd hnone hresult'⟩
    rw [hunread.keystrokes, MirrorSession.keystrokes, hsame, hscan]
    exact hkeys ▸ List.prefix_append _ _
  have hgoing : session.keystrokes =
        l.session.keystrokes ++ (EscapeInterpreter.scan bytes l.session.interpreter).keys →
      ¬ (EscapeInterpreter.scan bytes l.session.interpreter).disconnected = true →
      Typed (input ++ bytes) l' := by
    intro hmore hgo
    have hall : l'.session.keystrokes = (EscapeInterpreter.scan (input ++ bytes) .new).keys := by
      rw [hunread.keystrokes, hmore, hkeys, hscan]
    refine ⟨hall ▸ List.prefix_refl _, fun _ => ⟨hall, ?_, ?_⟩⟩
    · rw [hscan]
      exact Bool.not_eq_true _ ▸ hgo
    · rw [hscan, hunread.interpreter, hinterpreter]
  cases hfed with
  | ended actions _ hmem hissued => exact hleft hissued (hok actions rfl hmem)
  | silent actions hr _ hnokeys hissued _ =>
    refine hgoing ?_ hr
    rw [hnokeys, List.append_nil, MirrorSession.keystrokes, hissued, MirrorSession.keystrokes]
  | sent actions _ hr _ _ _ hissued _ =>
    refine hgoing ?_ hr
    rw [MirrorSession.keystrokes, hissued, List.flatMap_append, MirrorSession.keystrokes]
    exact congrArg _ (List.append_nil _)
  | failed e _ _ _ hissued => exact hleft hissued (herror e rfl)

/-- STEP: a turn's chunk is added to the input. -/
theorem Typed.step (h : Typed input l) {t : Turn} (hstep : l.step t = some l') :
    Typed (input ++ l.reads t) l' := by
  unfold MainLoop.step at hstep
  unfold reads
  cases hresult : l.result with
  | some result =>
    rw [hresult] at hstep
    cases hstep
    rw [List.append_nil]
    exact h
  | none =>
    rw [hresult] at hstep
    have hfrom : ∀ {ev : MirrorEvent}, (∀ buf now, ev ≠ .stdin buf now) →
        l.handle ev t.meanwhile = some l' → Typed (input ++ []) l' := by
      intro ev hev hhandle
      obtain ⟨session, r, hreact, hunread, -, -⟩ := handle_unread hhandle
      rw [List.append_nil]
      exact h.unread hresult
        ((MirrorSession.unread_of_step hev (MirrorSession.step_eq_some_iff.mpr ⟨r, hreact⟩)).trans hunread)
    have hends : ∀ result, some { l with result := some result } = some l' → Typed (input ++ []) l' := by
      rintro result ⟨⟩
      rw [List.append_nil]
      exact h.left rfl (Option.some_ne_none _)
    dsimp only at hstep
    split at hstep <;> rename_i hevent <;> simp only [hevent]
    · exact hfrom (by rintro _ _ ⟨⟩) hstep
    · split at hstep
      · exact hfrom (by rintro _ _ ⟨⟩) hstep
      · cases hstep
        rw [List.append_nil]
        exact h
    · exact hends _ hstep
    · exact h.stdin hresult hstep
    · exact hfrom (by rintro _ _ ⟨⟩) hstep
    · exact hends _ hstep

theorem step_opened {t : Turn} (h : l.session.Opened) (hstep : l.step t = some l') :
    l'.session.Opened := by
  rcases step_tells hstep with ⟨-, rfl⟩ | ⟨-, evs, htells⟩
  · exact h
  · obtain ⟨out, hfollows, -⟩ := htells.follows
    exact run_invariant_all (fun _ _ _ hs hstep => hs.step hstep) h hfollows.run

omit [LifecycleBackend B] in
theorem opened_launch {serverAddr : SocketAddr} {sid : ℕ} {codec : C} {startServerSeq cols rows : ℕ}
    {overlay : Bool} {start opened : Instant} {lifecycle : TerminalLifecycle B}
    (h : (new serverAddr (.new sid codec startServerSeq cols rows overlay start) lifecycle).launch
      cols rows opened = some l) : l.session.Opened := by
  obtain ⟨⟨session, r⟩, hwinch, heq⟩ := Option.map_eq_some_iff.mp h
  have hsession : l.session = session := by
    cases r <;> cases heq <;> rfl
  obtain ⟨t, res, mirror, ht, rfl⟩ := MirrorSession.onWinch_frame hwinch
  rw [hsession]
  obtain ⟨u, rfl, ⟨e, -, rfl, -⟩ | ⟨bytes, -, rfl, -⟩⟩ := MirrorSession.prepareReliable_inv ht
  · exact ⟨Nat.le_refl 1, fun e he => absurd he List.not_mem_nil⟩
  · refine ⟨Nat.le_refl 1, fun e he _ => ?_⟩
    rw [List.mem_singleton.mp he]
    rfl

omit [LifecycleBackend B] in
/-- The main loop begins with nothing read. -/
theorem typed_launch {serverAddr : SocketAddr} {sid : ℕ} {codec : C} {startServerSeq cols rows : ℕ}
    {overlay : Bool} {start opened : Instant} {lifecycle : TerminalLifecycle B}
    (h : (new serverAddr (.new sid codec startServerSeq cols rows overlay start) lifecycle).launch
      cols rows opened = some l) : Typed [] l := by
  obtain ⟨⟨session, r⟩, hwinch, heq⟩ := Option.map_eq_some_iff.mp h
  have hunread := MirrorSession.unread_onWinch hwinch
  have hkeys : session.keystrokes = [] := hunread.keystrokes
  have hint : session.interpreter = .new := hunread.interpreter
  have hsession : l.session = session := by
    cases r <;> cases heq <;> rfl
  refine ⟨?_, fun _ => ⟨?_, rfl, ?_⟩⟩
  · rw [hsession, hkeys]
    exact List.nil_prefix
  · rw [hsession, hkeys]
    rfl
  · rw [hsession, hint]
    rfl

end MainLoop

end Rumsh.Client
