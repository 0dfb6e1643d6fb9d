import Rumsh.System.Catchup
import Rumsh.System.Programs
import Rumsh.Client.Keystrokes

/-! From the user's keyboard to the shell, through both programs and the network between them.

    The client's packets hold what the escape interpreter makes of the input, the server applies a stretch
    of the packets, and what it applies it writes to the PTY. The programs are followed by the world, so
    what holds there of the sessions holds of them. -/

namespace Rumsh.System
open Rumsh.Schemes Rumsh.Protocol Rumsh.Server Rumsh.Client

/-- The bytes written for the client. -/
def keysWritten : PtyCall → Bytes
  | .write keys => keys
  | _ => []

/-- All that the client has had written to the shell. -/
def typedInto {C T : Type} (s : AuthoritativeSession C T) : Bytes := s.clientCalls.flatMap keysWritten

/-- The keystrokes in the packets with these numbers. -/
def keysIn (numbers : ℕ → Bool) (packets : List (ℕ × ClientPayload)) : Bytes :=
  (packets.filter fun e => numbers e.1).flatMap fun e => MirrorSession.keysOf e.2

theorem keysWritten_callsOf (payload : ClientPayload) :
    (callsOf payload).flatMap keysWritten = MirrorSession.keysOf payload := by
  cases payload with
  | keystrokes keys => exact List.append_nil _
  | _ => rfl

namespace Programs
variable {B : Type} {cr : Crates} {T : Type} [TerminalState T] [LifecycleBackend B]

/-! ### What is read -/

/-- What a step reads from the client's stdin. -/
def reads (p : Programs B cr T) : ProgramEvent B → Bytes
  | .turn t =>
    match p.client with
    | .running l => l.reads t
    | .connecting | .failed => []
  | _ => []

/-- All that a run reads. -/
def input (setup : Setup) : Programs B cr T → List (ProgramEvent B) → Bytes
  | _, [] => []
  | p, ev :: evs =>
    p.reads ev ++ match p.step setup ev with
      | some p' => input setup p' evs
      | none => []

variable {setup : Setup} {p p' : Programs B cr T} {ev : ProgramEvent B}

omit [TerminalState T] [LifecycleBackend B] in
/-- The network keeps no keystrokes from the client. -/
theorem reads_eq_nil (h : ¬ p.carries setup ev = true) : p.reads ev = [] := by
  cases ev with
  | turn t =>
    unfold carries at h
    unfold reads
    dsimp only at h ⊢
    split
    · rename_i l hl
      unfold MainLoop.reads
      split
      · rename_i bytes _ hevent
        simp [hl, Turn.datagram, hevent] at h
      · rfl
    · rfl
    · rfl
  | _ => rfl

omit [TerminalState T] [LifecycleBackend B] in
theorem client_attempt (setup : Setup) (p : Programs B cr T) :
    (attempt setup p).client = p.client ∨ (attempt setup p).client = .failed := by
  unfold attempt
  split
  · exact .inl rfl
  · exact .inr rfl

/-- INVERSION: a step leaves the client alone, ends it, starts its main loop, or is a turn of it. -/
theorem step_client (h : p.step setup ev = some p') :
    (p.reads ev = [] ∧ (p'.client = p.client ∨ p'.client = .failed)) ∨
    (p.client = .connecting ∧ p.reads ev = [] ∧ ∃ l sid seq cols rows start now lifecycle,
      (MainLoop.new p.serverAddr (.new sid (.new cr setup.key sid) seq cols rows setup.overlay start)
        lifecycle).launch cols rows now = some l ∧ p'.client = .running l) ∨
    ∃ l t l', p.client = .running l ∧ ev = .turn t ∧ l.step t = some l' ∧ p'.client = .running l' := by
  unfold Programs.step at h
  split at h
  · rename_i hcarries
    cases ev with
    | timeout =>
      simp only [play] at h
      split at h
      · cases h
        exact .inl ⟨rfl, client_attempt setup { p with handshakeSeq := p.handshakeSeq + 1 }⟩
      · cases h
        exact .inl ⟨rfl, .inl rfl⟩
    | reply bytes backend start now =>
      simp only [play] at h
      split at h
      · rename_i hc
        split at h
        · cases h
          exact .inl ⟨rfl, client_attempt setup p⟩
        · split at h
          · cases h
            exact .inl ⟨rfl, .inr rfl⟩
          · obtain ⟨l, hlaunch, rfl⟩ := Option.map_eq_some_iff.mp h
            exact .inr (.inl ⟨hc, rfl, l, _, _, _, _, _, _, _, hlaunch, rfl⟩)
      · cases h
        exact .inl ⟨rfl, .inl rfl⟩
    | turn t =>
      simp only [play] at h
      split at h
      · rename_i l hl
        obtain ⟨l', hstep, rfl⟩ := Option.map_eq_some_iff.mp h
        exact .inr (.inr ⟨l, t, l', hl, rfl, hstep, rfl⟩)
      · rename_i hnot
        cases h
        refine .inl ⟨?_, .inl rfl⟩
        unfold reads
        dsimp only
        split
        · rename_i l hl
          exact absurd hl (hnot l)
        · rfl
        · rfl
    | greet bytes src now ptyOpens =>
      simp only [play] at h
      split at h
      · obtain ⟨r, -, rfl⟩ := Option.map_eq_some_iff.mp h
        cases r <;> exact .inl ⟨rfl, .inl rfl⟩
      · cases h
        exact .inl ⟨rfl, .inl rfl⟩
    | task tev =>
      simp only [play] at h
      split at h
      · obtain ⟨n', -, rfl⟩ := Option.map_eq_some_iff.mp h
        exact .inl ⟨rfl, .inl rfl⟩
      · cases h
        exact .inl ⟨rfl, .inl rfl⟩
    | ptyClosed =>
      simp only [play] at h
      split at h <;> cases h <;> exact .inl ⟨rfl, .inl rfl⟩
    | farewell =>
      cases h
      exact .inl ⟨rfl, .inl rfl⟩
    | terminated =>
      cases h
      exact .inl ⟨rfl, .inl rfl⟩
  · rename_i hcarries
    cases h
    exact .inl ⟨reads_eq_nil hcarries, .inl rfl⟩

/-- What was read so far, in the packets of the main loop. -/
structure HasRead (input : Bytes) (p : Programs B cr T) : Prop where
  before : p.client = .connecting → input = []
  running : ∀ l, p.client = .running l → l.Typed input ∧ l.session.Opened

/-- STEP: what a step reads is added. -/
theorem HasRead.step {read : Bytes} (h : HasRead read p) (hstep : p.step setup ev = some p') :
    HasRead (read ++ p.reads ev) p' := by
  rcases step_client hstep with ⟨hnil, hc⟩ | ⟨hc, hnil, l, _, _, _, _, _, _, _, hlaunch, hl⟩ |
    ⟨l, t, l', hl, rfl, ht, hl'⟩
  · rw [hnil, List.append_nil]
    rcases hc with hc | hc
    · exact ⟨fun h' => h.before (hc ▸ h'), fun l hl => h.running l (hc ▸ hl)⟩
    · refine ⟨fun h' => ?_, fun l hl => ?_⟩
      · rw [hc] at h'
        cases h'
      · rw [hc] at hl
        cases hl
  · rw [hnil, h.before hc]
    refine ⟨fun _ => rfl, fun l' hl' => ?_⟩
    rw [hl] at hl'
    cases hl'
    exact ⟨MainLoop.typed_launch hlaunch, MainLoop.opened_launch hlaunch⟩
  · obtain ⟨htyped, hopened⟩ := h.running l hl
    have hreads : p.reads (.turn t) = l.reads t := by rw [reads, hl]
    rw [hreads]
    refine ⟨fun h' => ?_, fun l'' hl'' => ?_⟩
    · rw [hl'] at h'
      cases h'
    · rw [hl'] at hl''
      cases hl''
      exact ⟨htyped.step ht, MainLoop.step_opened hopened ht⟩

/-- RUN: the packets hold all that was read. -/
theorem HasRead.run (events : List (ProgramEvent B)) : ∀ {read : Bytes} {p p' : Programs B cr T},
    HasRead read p → runFrom (Programs.step setup) p events = some p' →
      HasRead (read ++ input setup p events) p' := by
  induction events with
  | nil =>
    intro read p p' h hrun
    cases hrun
    rw [input, List.append_nil]
    exact h
  | cons ev events ih =>
    intro read p p' h hrun
    obtain ⟨q, hq, hrun⟩ := Option.bind_eq_some_iff.mp hrun
    rw [input, hq, ← List.append_assoc]
    exact ih (h.step hq) hrun

omit [TerminalState T] [LifecycleBackend B] in
theorem hasRead_start {serverAddr : SocketAddr} :
    HasRead [] (start setup serverAddr : Programs B cr T) := by
  refine ⟨fun _ => rfl, fun l hl => ?_⟩
  have hstart : (start setup serverAddr : Programs B cr T).client = .connecting ∨
      (start setup serverAddr : Programs B cr T).client = .failed := client_attempt setup _
  rcases hstart with hc | hc
  · cases hc.symm.trans hl
  · cases hc.symm.trans hl

/-! ### The stretch that was applied -/

omit [TerminalState T] in
/-- The applied packets cut the issued ones in three. -/
theorem keysIn_stretch {k : ℕ} {applied : List (ℕ × ClientPayload)} {c : MirrorSession (ChaChaCodec cr)}
    {s : AuthoritativeSession (ChaChaCodec cr) T}
    (h : World.Takes setup k (.connected c) applied s)
    (hsort : c.issued.Pairwise fun e e' => e.1 < e'.1) :
    ∃ b, 1 ≤ b ∧ b ≤ k ∧ keysIn (fun n => decide (n ≤ b)) c.issued ++ typedInto s ++
      keysIn (fun n => decide (s.ackSeqNum < n)) c.issued = c.keystrokes := by
  obtain ⟨b, h1, hb, hack, happlied⟩ := h.applied_eq_stretch hsort
  refine ⟨b, h1, hb, ?_⟩
  have htyped : typedInto s = applied.flatMap fun e => MirrorSession.keysOf e.2 := by
    rw [typedInto, h.log, List.flatMap_assoc]
    exact congrArg (applied.flatMap ·) (funext fun e => keysWritten_callsOf e.2)
  have hupper : applied ++ (c.issued.filter fun e => decide (s.ackSeqNum < e.1)) =
      c.issued.filter fun e => decide (b < e.1) := by
    rw [← filter_le_append_filter_lt (hsort.filter fun e => decide (b < e.1)) s.ackSeqNum, happlied,
      List.filter_filter, List.filter_filter]
    congr 1
    · exact List.filter_congr fun e _ => Bool.and_comm ..
    · refine List.filter_congr fun e _ => ?_
      by_cases hlt : s.ackSeqNum < e.1
      · rw [decide_eq_true hlt, decide_eq_true (hack.trans_lt hlt), Bool.and_true]
      · rw [decide_eq_false hlt, Bool.false_and]
  have hwhole : (c.issued.filter fun e => decide (e.1 ≤ b)) ++
      (applied ++ c.issued.filter fun e => decide (s.ackSeqNum < e.1)) = c.issued := by
    rw [hupper]
    exact filter_le_append_filter_lt hsort b
  rw [htyped, keysIn, keysIn, List.append_assoc, ← List.flatMap_append, ← List.flatMap_append, hwhole,
    MirrorSession.keystrokes]

end Programs

end Rumsh.System
