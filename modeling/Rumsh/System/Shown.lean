import Rumsh.System.Progress
import Rumsh.System.Recovery

/-! The client's screen is the server's.

    Once a frame has left no batch pending, the user who only watches sees a state of the server's
    terminal: the one pushed under the last number the client applied. And a frame handed out now, once its
    datagrams have arrived, shows what the terminal shows now. -/

namespace Rumsh.System
open Rumsh.Schemes Rumsh.Protocol Rumsh.Server Rumsh.Client

namespace Link
variable {C T : Type} [PacketCodec C] [TerminalState T] {l l' l'' : Link C T} {server client : C} {sid : ℕ}

/-- Nobody types. -/
def Watching (ev : LinkEvent) : Prop := ∀ buf now, ev ≠ .stdin buf now

omit [PacketCodec C] [TerminalState T] in
theorem Watching.clientEvent {ev : LinkEvent} (h : Watching ev) {cev : MirrorEvent}
    (hc : cev ∈ l.clientEvent ev) (buf : Bytes) (now : Instant) : cev ≠ .stdin buf now := by
  rintro rfl
  cases ev with
  | stdin buf now => exact h buf now rfl
  | deliverDown i now => simp [Link.clientEvent] at hc
  | _ => simp [Link.clientEvent] at hc

/-- STEP: what is on the screen of a user who watches is the last applied state. -/
theorem showsLast_step (hf : l.client.Fitted) (hd : l.client.ShowsLast) {ev : LinkEvent}
    (hw : Watching ev) (hs : l.step ev = some l') : l'.client.ShowsLast := by
  rcases client_step hs with heq | ⟨cev, hc, hstep⟩
  · exact heq ▸ hd
  · exact hd.step hf (hw.clientEvent hc) hstep

/-- STEP: a frame that leaves no batch pending is on the screen. -/
theorem showsLast_of_applied (hf : l.client.Fitted) {ev : LinkEvent} (hs : l.step ev = some l')
    (happ : l'.client.applied ≠ l.client.applied)
    (hidle : l'.client.mirror.echoEngine.unconfirmedInputs = []) : l'.client.ShowsLast := by
  rcases client_step hs with heq | ⟨cev, -, hstep⟩
  · exact absurd (heq ▸ rfl) happ
  · rcases MirrorSession.step_screen hf hstep with ⟨hsame, -⟩ | ⟨q, g, hnew, -, hshow, -⟩
    · exact absurd hsame happ
    · exact ⟨(q, g), by rw [hnew, List.getLast?_concat], hshow hidle⟩

omit [PacketCodec C] in
/-- A frame that a tick hands out is for the grid the terminal shows. -/
theorem grid_of_onTick {s : AuthoritativeSession C T} {t : Instant} {echo : Bool} {job : UpdateJob C}
    {target : SocketAddr} (h : (s.onTick t echo).2 = [.offloadDiffJob job target]) :
    (TerminalState.updateAndGetState s.termState).2 = .ok job.currentState := by
  rw [AuthoritativeSession.onTick] at h
  rcases AuthoritativeSession.checkSync_cases s t echo with
    hs | ⟨-, hs⟩ | ⟨-, u, ⟨e, -, hs⟩ | ⟨g, hu, ⟨-, -, hs⟩ | hs⟩⟩ <;> rw [hs] at h
  · cases h
  · cases h
  · cases h
  · cases h
  · obtain ⟨hjob, -⟩ := List.cons.inj h
    obtain ⟨hjob, -⟩ := SessionAction.offloadDiffJob.inj hjob
    rw [hu, ← hjob]

end Link

end Rumsh.System
