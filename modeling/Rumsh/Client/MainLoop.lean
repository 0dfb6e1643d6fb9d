import Rumsh.Client.Arq
import Rumsh.Client.Cadence
import Rumsh.Client.Lifecycle
import Rumsh.Client.Renderer

/-! The main loop of `run_client`, after the handshake: `src/client/network.rs`.

    A turn waits for a tick, a datagram or the user, hands it to the session, and carries out the actions
    in order. What happens meanwhile outside the program, how long a paint takes and when the user comes
    back, is a parameter of each action. -/

namespace Rumsh.Client
open Rumsh.Schemes Rumsh.Protocol

/-- `LoopEvent`, with the channel's `ClientEvent` in it. -/
inductive LoopEvent where
  | tick
  | recv (bytes : Bytes) (src : SocketAddr)
  | recvError
  | stdin (bytes : Bytes)
  | resize (cols rows : ℕ)
  | channelClosed

/-- How long the paint takes, and the time when the user is back from a suspension or the help. -/
structure Meanwhile where
  paintDuration : ℕ
  resumed : Instant

/-- A turn: what ended the wait, when, and what the actions meet, by position. -/
structure Turn where
  event : LoopEvent
  now : Instant
  meanwhile : ℕ → Meanwhile

/-- What a turn tells the session. -/
def Turn.input (serverAddr : SocketAddr) (t : Turn) : Option MirrorEvent :=
  match t.event with
  | .tick => some (.tick t.now)
  | .recv bytes src => if src = serverAddr then some (.recv bytes t.now) else none
  | .stdin bytes => some (.stdin bytes t.now)
  | .resize cols rows => some (.winch cols rows t.now)
  | .recvError | .channelClosed => none

/-- The datagram a turn hands to the session. -/
def Turn.datagram (serverAddr : SocketAddr) (t : Turn) : Option Bytes :=
  match t.event with
  | .recv bytes src => if src = serverAddr then some bytes else none
  | .tick | .stdin _ | .resize _ _ | .recvError | .channelClosed => none

theorem Turn.datagram_eq_some {serverAddr : SocketAddr} {t : Turn} {bytes : Bytes} {now : Instant}
    (h : t.input serverAddr = some (.recv bytes now)) : t.datagram serverAddr = some bytes := by
  unfold Turn.input at h
  unfold Turn.datagram
  cases hevent : t.event with
  | recv b src =>
    simp only [hevent] at h ⊢
    split at h
    · rename_i hsrc
      cases h
      rw [if_pos hsrc]
    · cases h
  | _ => simp [hevent] at h

structure MainLoop (B C : Type) where
  serverAddr : SocketAddr
  session : MirrorSession C
  lifecycle : TerminalLifecycle B
  backBuffer : TerminalFrame
  tickInterval : ℕ
  -- the commands of the paints, and the datagrams handed to the socket
  printed : List PaintCommand
  sent : List Bytes
  -- what `run_client` returns, once it has left the loop
  result : Option (Except Error Unit)

namespace MainLoop
variable {B C : Type} [LifecycleBackend B] [PacketCodec C]

/-! ### The code -/

/-- `ClientAction::Paint`: a slow paint stretches the tick, and every call with nothing to paint shrinks
    it again. -/
def paint (l : MainLoop B C) (paintDuration : ℕ) : Option (MainLoop B C) :=
  match l.session.copyFrameIfDirty l.backBuffer with
  | (session, backBuffer, true) =>
    match ClientTerminalRenderer.paint backBuffer with
    | .error _ => none
    | .ok (backBuffer, commands, _) =>
      some { l with
        session, backBuffer, printed := l.printed ++ commands
        tickInterval := min (max (paintDuration * 3) (millis 16)) (millis 100) }
  | (session, backBuffer, false) =>
    some { l with
      session, backBuffer
      tickInterval := if millis 16 < l.tickInterval then max (l.tickInterval - millis 1) (millis 16)
        else l.tickInterval }

/-- `on_resume` and `on_resize`: the actions of `on_winch` are dropped. -/
def resized (l : MainLoop B C) (size : Option (ℕ × ℕ)) (now : Instant) : Option (MainLoop B C) :=
  match size with
  | none => some l
  | some (cols, rows) => (l.session.onWinch cols rows now).map fun (session, _) => { l with session }

/-- One action, a disconnect aside. -/
def executeAction (l : MainLoop B C) (m : Meanwhile) : ClientAction → Option (MainLoop B C)
  | .sendPacket bytes => some { l with sent := l.sent ++ [bytes] }
  | .paint => l.paint m.paintDuration
  | .suspend =>
    let (lifecycle, size) := l.lifecycle.suspend
    { l with lifecycle }.resized size m.resumed
  | .showHelp =>
    let (lifecycle, size) := l.lifecycle.clearAndResize
    { l with lifecycle }.resized size m.resumed
  | .disconnect => some l

/-- The actions of a turn, from position `i` on. A disconnect leaves the loop, and the rest undone. -/
def executeActions (meanwhile : ℕ → Meanwhile) (l : MainLoop B C) (i : ℕ) :
    List ClientAction → Option (MainLoop B C)
  | [] => some l
  | .disconnect :: _ => some { l with result := some (.ok ()) }
  | action :: rest =>
    (l.executeAction (meanwhile i) action).bind fun l => executeActions meanwhile l (i + 1) rest

/-- The session's turn and its actions. An error leaves `run_client`. -/
def handle (l : MainLoop B C) (ev : MirrorEvent) (meanwhile : ℕ → Meanwhile) : Option (MainLoop B C) :=
  (l.session.react ev).bind fun
    | (session, .error e) => some { l with session, result := some (.error e) }
    | (session, .ok actions) => executeActions meanwhile { l with session } 0 actions

def step (l : MainLoop B C) (t : Turn) : Option (MainLoop B C) :=
  match l.result with
  | some _ => some l
  | none =>
    match t.event with
    | .tick => l.handle (.tick t.now) t.meanwhile
    | .recv bytes src => if src = l.serverAddr then l.handle (.recv bytes t.now) t.meanwhile else some l
    | .recvError => some { l with result := some (.ok ()) }
    | .stdin bytes => l.handle (.stdin bytes t.now) t.meanwhile
    | .resize cols rows => l.handle (.winch cols rows t.now) t.meanwhile
    | .channelClosed => some { l with result := some (.ok ()) }

/-- A new renderer, and no turn taken. -/
def new (serverAddr : SocketAddr) (session : MirrorSession C) (lifecycle : TerminalLifecycle B) :
    MainLoop B C :=
  { serverAddr, session, lifecycle, backBuffer := TerminalFrame.new 0 0, tickInterval := millis 16,
    printed := [], sent := [], result := none }

/-- The way into the loop: the initial resize is sealed, and of its actions only the datagrams count. -/
def launch (l : MainLoop B C) (cols rows : ℕ) (now : Instant) : Option (MainLoop B C) :=
  (l.session.onWinch cols rows now).map fun
    | (session, .error e) => { l with session, result := some (.error e) }
    | (session, .ok actions) => { l with session, sent := l.sent ++ sendsOf actions }

/-! ### One turn -/

/-- What the session is told by the outside: it is shown a paint and a size by the loop itself. -/
def fed : MirrorEvent → Bool
  | .recv _ _ | .stdin _ _ | .tick _ => true
  | .winch _ _ _ | .paint _ => false

/-- The session has gone through these events, and the loop has handed these datagrams to the socket. -/
structure Follows (evs : List MirrorEvent) (out : List Bytes) (l l' : MainLoop B C) : Prop where
  run : runFrom MirrorSession.step l.session evs = some l'.session
  sent : l'.sent = l.sent ++ out
  serverAddr : l'.serverAddr = l.serverAddr
  pace : millis 16 ≤ l.tickInterval ∧ l.tickInterval ≤ millis 100 →
    millis 16 ≤ l'.tickInterval ∧ l'.tickInterval ≤ millis 100

variable {l l' l'' : MainLoop B C} {evs evs' : List MirrorEvent} {out out' : List Bytes} {now : Instant}

omit [LifecycleBackend B] in
theorem Follows.refl (l : MainLoop B C) : Follows [] [] l l :=
  ⟨rfl, (List.append_nil _).symm, rfl, id⟩

omit [LifecycleBackend B] in
theorem Follows.trans (h : Follows evs out l l') (h' : Follows evs' out' l' l'') :
    Follows (evs ++ evs') (out ++ out') l l'' where
  run := by rw [runFrom_append, h.run, Option.bind_some, h'.run]
  sent := by rw [h'.sent, h.sent, List.append_assoc]
  serverAddr := h'.serverAddr.trans h.serverAddr
  pace hl := h'.pace (h.pace hl)

omit [LifecycleBackend B] in
/-- A paint shows the session its frame, sends nothing, and keeps the tick between 16 and 100 ms. -/
theorem paint_follows {paintDuration : ℕ} (h : l.paint paintDuration = some l') :
    Follows [.paint l.backBuffer] [] l l' ∧ l'.result = l.result := by
  have hrun : runFrom MirrorSession.step l.session [.paint l.backBuffer] =
      some (l.session.copyFrameIfDirty l.backBuffer).1 := rfl
  unfold paint at h
  rcases hcopy : l.session.copyFrameIfDirty l.backBuffer with ⟨session, backBuffer, _ | _⟩
  · rw [hcopy] at h hrun
    cases h
    refine ⟨⟨hrun, (List.append_nil _).symm, rfl, fun hl => ?_⟩, rfl⟩
    dsimp only
    split <;> omega
  · rw [hcopy] at h hrun
    dsimp only at h
    split at h
    · cases h
    · cases h
      refine ⟨⟨hrun, (List.append_nil _).symm, rfl, fun _ => ?_⟩, rfl⟩
      dsimp only [millis]
      omega

omit [LifecycleBackend B] in
/-- A new size is sealed, and what it is sealed in goes nowhere. -/
theorem resized_follows {size : Option (ℕ × ℕ)} (h : l.resized size now = some l') :
    ∃ evs, Follows evs [] l l' ∧ evs.filter fed = [] ∧ l'.result = l.result := by
  rcases size with _ | ⟨cols, rows⟩
  · cases h
    exact ⟨[], .refl l, rfl, rfl⟩
  · obtain ⟨⟨session, r⟩, hwinch, rfl⟩ := Option.map_eq_some_iff.mp h
    have hreact : l.session.react (.winch cols rows now) = some (session, r) := hwinch
    refine ⟨[.winch cols rows now], ⟨?_, (List.append_nil _).symm, rfl, id⟩, rfl, rfl⟩
    rw [runFrom_cons, MirrorSession.step_eq_some_iff.mpr ⟨r, hreact⟩]
    rfl

/-- STEP: an action sends its own datagram, if it has one, and may show the session a paint or a size. -/
theorem executeAction_follows {m : Meanwhile} {action : ClientAction}
    (h : l.executeAction m action = some l') :
    ∃ evs, Follows evs (sendsOf [action]) l l' ∧ evs.filter fed = [] ∧ l'.result = l.result := by
  cases action with
  | sendPacket bytes =>
    cases h
    exact ⟨[], ⟨rfl, rfl, rfl, id⟩, rfl, rfl⟩
  | paint =>
    obtain ⟨hfollows, hresult⟩ := paint_follows h
    exact ⟨_, hfollows, rfl, hresult⟩
  | suspend =>
    obtain ⟨evs, hfollows, hfed, hresult⟩ := resized_follows h
    exact ⟨evs, ⟨hfollows.run, hfollows.sent, hfollows.serverAddr, hfollows.pace⟩, hfed, hresult⟩
  | showHelp =>
    obtain ⟨evs, hfollows, hfed, hresult⟩ := resized_follows h
    exact ⟨evs, ⟨hfollows.run, hfollows.sent, hfollows.serverAddr, hfollows.pace⟩, hfed, hresult⟩
  | disconnect =>
    cases h
    exact ⟨[], .refl l, rfl, rfl⟩

/-- The actions of a turn send their datagrams in order, all of them unless a disconnect comes between. -/
theorem executeActions_follows {meanwhile : ℕ → Meanwhile} (actions : List ClientAction) :
    ∀ {l : MainLoop B C} {i : ℕ}, executeActions meanwhile l i actions = some l' →
      ∃ evs out, Follows evs out l l' ∧ evs.filter fed = [] ∧ out <+: sendsOf actions ∧
        (.disconnect ∉ actions → out = sendsOf actions ∧ l'.result = l.result) ∧
        (.disconnect ∈ actions → l'.result ≠ none) := by
  induction actions with
  | nil =>
    intro l i h
    cases h
    exact ⟨[], [], .refl _, rfl, List.prefix_refl _, fun _ => ⟨rfl, rfl⟩,
      fun hmem => absurd hmem List.not_mem_nil⟩
  | cons action rest ih =>
    intro l i h
    by_cases hlast : action = .disconnect
    · subst hlast
      cases h
      exact ⟨[], [], ⟨rfl, (List.append_nil _).symm, rfl, id⟩, rfl, List.nil_prefix,
        fun hno => absurd (List.mem_cons_self ..) hno, fun _ => Option.some_ne_none _⟩
    · have hcons : executeActions meanwhile l i (action :: rest) =
          (l.executeAction (meanwhile i) action).bind fun l =>
            executeActions meanwhile l (i + 1) rest := by
        cases action <;> first | rfl | exact absurd rfl hlast
      rw [hcons] at h
      obtain ⟨u, hu, hrest⟩ := Option.bind_eq_some_iff.mp h
      obtain ⟨evs₁, hfirst, hfed₁, hresult⟩ := executeAction_follows hu
      obtain ⟨evs₂, out, hfollows, hfed₂, hprefix, hall, hleft⟩ := ih hrest
      have hsends : sendsOf (action :: rest) = sendsOf [action] ++ sendsOf rest :=
        sendsOf_append [action] rest
      refine ⟨evs₁ ++ evs₂, sendsOf [action] ++ out, hfirst.trans hfollows, ?_, ?_, fun hno => ?_,
        fun hmem => hleft ((List.mem_cons.mp hmem).resolve_left fun heq => hlast heq.symm)⟩
      · rw [List.filter_append, hfed₁, hfed₂, List.append_nil]
      · rw [hsends]
        exact (List.prefix_append_right_inj _).mpr hprefix
      · obtain ⟨rfl, hsame⟩ := hall fun hmem => hno (List.mem_cons_of_mem _ hmem)
        exact ⟨hsends.symm, hsame.trans hresult⟩

/-- INVERSION: the session reacts, and the actions of its turn are carried out, all of them if none is a
    disconnect. -/
theorem handle_follows {ev : MirrorEvent} {meanwhile : ℕ → Meanwhile}
    (h : l.handle ev meanwhile = some l') :
    ∃ session r evs out, l.session.react ev = some (session, r) ∧ Follows (ev :: evs) out l l' ∧
      evs.filter fed = [] ∧ out <+: outOf r ∧ (∀ e, r = .error e → l'.result ≠ none) ∧
      ∀ actions, r = .ok actions →
        (.disconnect ∉ actions → out = sendsOf actions ∧ l'.result = l.result) ∧
        (.disconnect ∈ actions → l'.result ≠ none) := by
  obtain ⟨⟨session, r⟩, hreact, h⟩ := Option.bind_eq_some_iff.mp h
  have hstep := MirrorSession.step_eq_some_iff.mpr ⟨r, hreact⟩
  have hfirst : ∀ result, Follows [ev] [] l { l with session, result } := fun _ =>
    ⟨by rw [runFrom_cons, hstep]; rfl, (List.append_nil _).symm, rfl, id⟩
  refine ⟨session, r, ?_⟩
  cases r with
  | error e =>
    cases h
    exact ⟨[], [], hreact, hfirst _, rfl, List.nil_prefix, fun _ _ => Option.some_ne_none _, nofun⟩
  | ok actions =>
    obtain ⟨evs, out, hfollows, hfed, hprefix, hall⟩ := executeActions_follows actions h
    refine ⟨evs, out, hreact, (hfirst l.result).trans hfollows, hfed, hprefix, nofun, ?_⟩
    rintro _ ⟨rfl⟩
    exact hall

/-! ### A tick sends and paints, and that is all -/

/-- The actions after which the loop goes on, and the host's screen is still the session's. -/
def isPlain : ClientAction → Bool
  | .sendPacket _ | .paint => true
  | .suspend | .showHelp | .disconnect => false

omit [LifecycleBackend B] in
theorem nackAll_plain {now : Instant} {incomplete : List (ℕ × List ℕ)} {s s' : MirrorSession C}
    {actions acts : List ClientAction}
    (h : MirrorSession.nackAll now incomplete s actions = (s', .ok acts))
    (hplain : ∀ action ∈ actions, isPlain action = true) : ∀ action ∈ acts, isPlain action = true := by
  induction incomplete generalizing s actions with
  | nil =>
    cases h
    exact hplain
  | cons e rest ih =>
    rcases MirrorSession.nackAll_cons_inv h with hrest | ⟨-, t, res, -, ⟨_, -, -, hr⟩ | ⟨bytes, -, hrest⟩⟩
    · exact ih hrest hplain
    · cases hr
    · exact ih hrest (List.forall_mem_append.mpr ⟨hplain, List.forall_mem_singleton.mpr rfl⟩)

omit [LifecycleBackend B] in
theorem onTick_plain {s s' : MirrorSession C} {actions : List ClientAction}
    (h : s.onTick now = some (s', .ok actions)) : ∀ action ∈ actions, isPlain action = true := by
  rcases MirrorSession.onTick_inv h with ⟨_, -, hr⟩ | ⟨t, keepalive, u, banner, nacks, hk, hb, hn, hr⟩
  · cases hr
  · rcases nacks with e | nacks
    · cases hr
    · obtain rfl := Except.ok.inj hr
      have hkeep : ∀ action ∈ keepalive, isPlain action = true := by
        rcases MirrorSession.tickKeepalive_inv hk with ⟨-, hr⟩ | ⟨_ | p, -, hr⟩
        · obtain rfl := Except.ok.inj hr
          exact List.forall_mem_nil _
        · cases hr
        · obtain rfl := Except.ok.inj hr
          exact List.forall_mem_singleton.mpr rfl
      have harq : ∀ action ∈ (t.tickArq now).2, isPlain action = true := by
        unfold MirrorSession.tickArq
        split
        · exact List.forall_mem_map.mpr fun _ _ => rfl
        · exact List.forall_mem_nil _
      have hbanner : ∀ action ∈ banner, isPlain action = true := by
        rcases MirrorSession.tickBanner_inv hb with ⟨-, -, rfl⟩ | ⟨_, _, -, -, -, rfl, -⟩
        · exact List.forall_mem_nil _
        · exact List.forall_mem_singleton.mpr rfl
      have htelemetry : ∀ action ∈ (u.tickTelemetry now).2, isPlain action = true := by
        rcases MirrorSession.tickTelemetry_inv u now with heq | ⟨_, _, _, heq⟩ <;> rw [heq]
        · exact List.forall_mem_nil _
        · exact List.forall_mem_singleton.mpr rfl
      have hnacks : ∀ action ∈ nacks, isPlain action = true := by
        rcases MirrorSession.tickNack_inv hn with ⟨-, hr⟩ | ⟨-, v, hv, -⟩
        · obtain rfl := Except.ok.inj hr
          exact List.forall_mem_nil _
        · exact nackAll_plain hv (List.forall_mem_nil _)
      simp only [List.forall_mem_append]
      exact ⟨⟨⟨⟨hkeep, harq⟩, hbanner⟩, htelemetry⟩, hnacks⟩

/-! ### Runs -/

/-- What the session hands out in a run, whatever becomes of it. -/
def emits : MirrorSession C → List MirrorEvent → List Bytes
  | _, [] => []
  | s, ev :: evs => match s.turn ev with
    | none => []
    | some (s', out) => out ++ emits s' evs

omit [LifecycleBackend B] in
theorem emits_append {s s' : MirrorSession C} (evs evs' : List MirrorEvent)
    (h : runFrom MirrorSession.step s evs = some s') :
    emits s (evs ++ evs') = emits s evs ++ emits s' evs' := by
  induction evs generalizing s with
  | nil =>
    cases h
    rfl
  | cons ev evs ih =>
    obtain ⟨t, ht, h⟩ := Option.bind_eq_some_iff.mp h
    obtain ⟨⟨t', out⟩, hturn, rfl⟩ := Option.map_eq_some_iff.mp ht
    rw [List.cons_append, emits, emits, hturn]
    exact (congrArg (out ++ ·) (ih h)).trans (List.append_assoc ..).symm

/-- The loop has told the session this, and put nothing between it but paints and sizes; what it sent is
    what the session handed out, in order, or less. -/
structure Tells (told evs : List MirrorEvent) (l l' : MainLoop B C) : Prop where
  heard : told.Sublist evs
  others : evs.filter fed = told.filter fed
  follows : ∃ out, Follows evs out l l' ∧ out.Sublist (emits l.session evs)

variable {told told' : List MirrorEvent}

omit [LifecycleBackend B] in
theorem Tells.refl (l : MainLoop B C) : Tells [] [] l l :=
  ⟨List.Sublist.refl _, rfl, [], .refl l, List.Sublist.refl _⟩

omit [LifecycleBackend B] in
theorem Tells.trans (h : Tells told evs l l') (h' : Tells told' evs' l' l'') :
    Tells (told ++ told') (evs ++ evs') l l'' := by
  obtain ⟨out, hfollows, hout⟩ := h.follows
  obtain ⟨out', hfollows', hout'⟩ := h'.follows
  refine ⟨h.heard.append h'.heard, ?_, out ++ out', hfollows.trans hfollows', ?_⟩
  · rw [List.filter_append, List.filter_append, h.others, h'.others]
  · rw [emits_append evs evs' hfollows.run]
    exact hout.append hout'

theorem handle_tells {ev : MirrorEvent} {meanwhile : ℕ → Meanwhile}
    (h : l.handle ev meanwhile = some l') : ∃ evs, Tells [ev] evs l l' := by
  obtain ⟨session, r, evs, out, hreact, hfollows, hfed, hprefix, -, -⟩ := handle_follows h
  refine ⟨ev :: evs, List.singleton_sublist.mpr (List.mem_cons_self ..), ?_, out, hfollows, ?_⟩
  · rw [List.filter_cons, List.filter_cons, hfed, List.filter_nil]
  · rw [emits, MirrorSession.turn_eq_some_iff.mpr ⟨r, hreact, rfl⟩]
    exact hprefix.sublist.trans (List.sublist_append_left ..)

/-- STEP: a turn tells the session its event; after the loop is left there are no turns. -/
theorem step_tells {t : Turn} (h : l.step t = some l') :
    (l.result ≠ none ∧ l' = l) ∨
      l.result = none ∧ ∃ evs, Tells (t.input l.serverAddr).toList evs l l' := by
  unfold step at h
  cases hresult : l.result with
  | some result =>
    rw [hresult] at h
    cases h
    exact .inl ⟨by simp, rfl⟩
  | none =>
    rw [hresult] at h
    refine .inr ⟨rfl, ?_⟩
    have hleft : ∀ result, ∃ evs, Tells [] evs l { l with result } := fun _ =>
      ⟨[], List.Sublist.refl _, rfl, [], ⟨rfl, (List.append_nil _).symm, rfl, id⟩, List.Sublist.refl _⟩
    unfold Turn.input
    dsimp only at h
    split at h <;> rename_i hevent <;> simp only [hevent]
    · exact handle_tells h
    · split at h
      · rename_i hsrc
        rw [if_pos hsrc]
        exact handle_tells h
      · rename_i hsrc
        rw [if_neg hsrc]
        cases h
        exact ⟨[], .refl l⟩
    · cases h
      exact hleft _
    · exact handle_tells h
    · exact handle_tells h
    · cases h
      exact hleft _

theorem runFrom_left {turns : List Turn} (hresult : l.result ≠ none)
    (h : runFrom step l turns = some l') : l' = l := by
  induction turns with
  | nil =>
    cases h
    rfl
  | cons t turns ih =>
    obtain ⟨u, hu, hrest⟩ := Option.bind_eq_some_iff.mp h
    rcases step_tells hu with ⟨-, rfl⟩ | ⟨hnone, -⟩
    · exact ih hrest
    · exact absurd hnone hresult

theorem run_tells (turns : List Turn) : ∀ {l : MainLoop B C}, runFrom step l turns = some l' →
    ∃ told evs, Tells told evs l l' ∧ told <+: turns.filterMap (Turn.input l.serverAddr) ∧
      (l'.result = none → told = turns.filterMap (Turn.input l.serverAddr)) := by
  induction turns with
  | nil =>
    intro l h
    cases h
    exact ⟨[], [], .refl _, List.prefix_refl _, fun _ => rfl⟩
  | cons t turns ih =>
    intro l h
    obtain ⟨u, hu, hrest⟩ := Option.bind_eq_some_iff.mp h
    rcases step_tells hu with ⟨hresult, rfl⟩ | ⟨hresult, evs, htells⟩
    · obtain rfl := runFrom_left hresult hrest
      exact ⟨[], [], .refl _, List.nil_prefix, fun hnone => absurd hnone hresult⟩
    · obtain ⟨told, evs', htells', hprefix, hall⟩ := ih hrest
      obtain ⟨out, hfollows, -⟩ := htells.follows
      have hcons : (t :: turns).filterMap (Turn.input l.serverAddr) =
          (t.input l.serverAddr).toList ++ turns.filterMap (Turn.input u.serverAddr) := by
        rw [hfollows.serverAddr, List.filterMap_cons]
        cases t.input l.serverAddr <;> rfl
      refine ⟨_, _, htells.trans htells', ?_, fun hnone => ?_⟩
      · rw [hcons]
        exact (List.prefix_append_right_inj _).mpr hprefix
      · rw [hcons, hall hnone]

/-- The tick's turn: what is due in the table goes to the socket. -/
theorem tick_sends_due {t : Turn} (hkeys : ∀ k ∈ l.session.unackedPackets, k ≤ l.session.seqNum)
    (hresult : l.result = none) (htick : t.event = .tick) (h : l.step t = some l')
    (hgood : l'.result = none) {n : ℕ} {b : Bytes} {sentTime : Instant}
    (he : l.session.unackedPackets[n]? = some (b, sentTime))
    (hcheck : t.now - l.session.lastArqCheck ≥ millis 100)
    (hold : t.now - sentTime ≥ l.session.rttLimit) : b ∈ l'.sent.drop l.sent.length := by
  simp only [step, hresult, htick] at h
  obtain ⟨session, r, evs, out, hreact, hfollows, -, -, herror, hall⟩ := handle_follows h
  rcases r with e | actions
  · exact absurd hgood (herror e rfl)
  · have hons : l.session.onTick t.now = some (session, .ok actions) := hreact
    have hstays : ClientAction.disconnect ∉ actions := fun hmem =>
      Bool.false_ne_true (onTick_plain hons _ hmem)
    obtain ⟨rfl, -⟩ := (hall actions rfl).1 hstays
    obtain ⟨hok, fresh, nacks, hsends, -⟩ := MirrorSession.onTick_out hons
    have hmem := (MirrorSession.mem_resentBy hkeys hok).mpr ⟨hcheck, sentTime, he, hold⟩
    rw [hfollows.sent, List.drop_left, hsends]
    exact List.mem_append_left _ (List.mem_append_right _ (List.mem_map_of_mem hmem))

omit [LifecycleBackend B] in
/-- The way into the loop takes the session through its first size. -/
theorem launch_follows {cols rows : ℕ} (h : l.launch cols rows now = some l') :
    ∃ out, Follows [.winch cols rows now] out l l' ∧
      out.Sublist (emits l.session [.winch cols rows now]) := by
  obtain ⟨⟨session, r⟩, hwinch, heq⟩ := Option.map_eq_some_iff.mp h
  have hreact : l.session.react (.winch cols rows now) = some (session, r) := hwinch
  have hrun : runFrom MirrorSession.step l.session [.winch cols rows now] = some session := by
    rw [runFrom_cons, MirrorSession.step_eq_some_iff.mpr ⟨r, hreact⟩]
    rfl
  have hemits : emits l.session [.winch cols rows now] = outOf r := by
    rw [emits, MirrorSession.turn_eq_some_iff.mpr ⟨r, hreact, rfl⟩]
    exact List.append_nil _
  cases r with
  | error e =>
    cases heq
    exact ⟨[], ⟨hrun, (List.append_nil _).symm, rfl, id⟩, List.nil_sublist _⟩
  | ok actions =>
    cases heq
    exact ⟨sendsOf actions, ⟨hrun, rfl, rfl, id⟩, by rw [hemits]; exact List.Sublist.refl _⟩

/-- REFINEMENT: the main loop is a run of the session. It tells it the ticks, the keystrokes and the
    datagrams of the server, each once and in order, and nothing else but paints and sizes; it sends what
    the session hands out, in order, or less; and it ticks every 16 to 100 ms. What it drops is not lost:
    a tick that fails in nothing hands over every packet in the table that is due. -/
theorem runs_session {sid : ℕ} {codec : C} {startServerSeq cols rows : ℕ} {overlay : Bool}
    {start opened : Instant} {serverAddr : SocketAddr} {lifecycle : TerminalLifecycle B}
    {l₀ l : MainLoop B C} {turns : List Turn}
    (hlaunch : (new serverAddr (.new sid codec startServerSeq cols rows overlay start) lifecycle).launch
      cols rows opened = some l₀) (hrun : runFrom step l₀ turns = some l) :
    (∃ told evs, told <+: turns.filterMap (Turn.input serverAddr) ∧
      (l.result = none → told = turns.filterMap (Turn.input serverAddr)) ∧
      told.Sublist evs ∧ evs.filter fed = told.filter fed ∧
      runFrom MirrorSession.step (.new sid codec startServerSeq cols rows overlay start)
        (.winch cols rows opened :: evs) = some l.session ∧
      l.sent.Sublist (emits (.new sid codec startServerSeq cols rows overlay start)
        (.winch cols rows opened :: evs))) ∧
    (millis 16 ≤ l.tickInterval ∧ l.tickInterval ≤ millis 100) ∧
    ∀ t l', l.step t = some l' → l.result = none → t.event = .tick → l'.result = none →
      ∀ (n : ℕ) (b : Bytes) (sentTime : Instant), l.session.unackedPackets[n]? = some (b, sentTime) →
        t.now - l.session.lastArqCheck ≥ millis 100 → t.now - sentTime ≥ l.session.rttLimit →
        b ∈ l'.sent.drop l.sent.length := by
  obtain ⟨out, hfirst, hout⟩ := launch_follows hlaunch
  obtain ⟨told, evs, htells, hprefix, hall⟩ := run_tells turns hrun
  obtain ⟨out', hfollows, hout'⟩ := htells.follows
  have haddr : l₀.serverAddr = serverAddr := hfirst.serverAddr
  have hwhole := hfirst.trans hfollows
  have hemits := emits_append _ evs hfirst.run
  refine ⟨⟨told, evs, haddr ▸ hprefix, haddr ▸ hall, htells.heard, htells.others, hwhole.run, ?_⟩,
    hwhole.pace ⟨le_rfl, (by decide : millis 16 ≤ millis 100)⟩,
    fun t l' h hresult htick hgood n b sentTime he hcheck hold => ?_⟩
  · have hsent : l.sent = out ++ out' := hwhole.sent
    rw [hsent]
    exact (hout.append hout').trans (hemits ▸ List.Sublist.refl _)
  · have hkeys := run_invariant_all (fun _ _ _ hs h => MirrorSession.step_keys hs h)
      (fun k hk => absurd hk Std.TreeMap.not_mem_emptyc) hwhole.run
    exact tick_sends_due hkeys hresult htick h hgood he hcheck hold

/-- The user suspends, is back after 50 ms, and a tick comes later. -/
def awayTurns : List Turn :=
  [{ event := .stdin [0x7e, 0x1a], now := millis 10, meanwhile := fun _ => ⟨0, millis 50⟩ },
   { event := .tick, now := millis 300, meanwhile := fun _ => ⟨0, millis 300⟩ }]

/-- A loop on a screen of one cell. -/
def launched : Option (MainLoop TerminalLifecycle.FakeLifecycleBackend (ChaChaCodec Bincode.crates)) :=
  (new ⟨0, 0⟩ .oneCell { backend := { size := (1, 1) } }).launch 1 1 0

/-- The size on return is sealed as packet 2 and dropped, and the tick sends it after packet 1. -/
theorem runs_session_suspended : ∃ l₀ l l',
    launched = some l₀ ∧ runFrom step l₀ (awayTurns.take 1) = some l ∧ l.sent.length = 1 ∧
    l.session.seqNum = 2 ∧ runFrom step l (awayTurns.drop 1) = some l' ∧ l'.sent.length = 3 ∧
    ∃ b t, l.session.unackedPackets[2]? = some (b, t) ∧ b ∈ l'.sent.drop l.sent.length := by
  have hrun : (launched.bind fun l₀ => (runFrom step l₀ (awayTurns.take 1)).bind fun l =>
      (runFrom step l (awayTurns.drop 1)).map fun l' =>
        ([l.sent.length, l.session.seqNum, l'.sent.length, l.session.lastArqCheck, l.session.rttLimit],
          l.result.isNone && l'.result.isNone, l.session.unackedPackets[2]?.map Prod.snd)) =
      some ([1, 2, 3, 0, millis 200], true, some (millis 50)) := by
    decide +kernel
  obtain ⟨l₀, hlaunch, hrun⟩ := Option.bind_eq_some_iff.mp hrun
  obtain ⟨l, hl, hrun⟩ := Option.bind_eq_some_iff.mp hrun
  obtain ⟨l', hl', heq⟩ := Option.map_eq_some_iff.mp hrun
  simp only [Prod.mk.injEq, List.cons.injEq, Bool.and_eq_true, Option.isNone_iff_eq_none] at heq
  obtain ⟨⟨hsent, hseq, hsent', hcheck, hlimit, -⟩, ⟨hgood, hgood'⟩, htime⟩ := heq
  obtain ⟨⟨b, t⟩, he, rfl⟩ := Option.map_eq_some_iff.mp htime
  have htick : l.step (awayTurns.getLast (by decide)) = some l' := by
    obtain ⟨u, hu, hnil⟩ := Option.bind_eq_some_iff.mp hl'
    exact hu.trans hnil
  refine ⟨l₀, l, l', hlaunch, hl, hsent, hseq, hl', hsent', b, _, he, ?_⟩
  exact (runs_session hlaunch hl).2.2 _ l' htick hgood rfl hgood' 2 b _ he (by rw [hcheck]; decide)
    (by rw [hlimit]; decide)

end MainLoop

end Rumsh.Client
