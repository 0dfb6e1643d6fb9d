import Rumsh.Client.Timers

/-! Input in chunks.

    The escape interpreter reads one byte after the other, so what it makes of the input does not
    depend on where the terminal cuts it. `feed_stdin` collects the bytes to send of a chunk and sends
    them at its end: when `~.` ends the session in the middle, the bytes before it in the same chunk are
    lost. -/

namespace Rumsh.Client
open Std Rumsh.Protocol

/-- What the interpreter makes of a string: the bytes for the server and the commands, up to the first
    disconnect. -/
structure Scanned where
  interpreter : EscapeInterpreter
  keys : Bytes
  commands : List EscapeCommand
  disconnected : Bool

/-- Go on reading, unless the session was ended. -/
def Scanned.andThen (r : Scanned) (next : EscapeInterpreter → Scanned) : Scanned :=
  if r.disconnected then r
  else
    let t := next r.interpreter
    { t with keys := r.keys ++ t.keys, commands := r.commands ++ t.commands }

theorem Scanned.andThen_assoc (r : Scanned) (f g : EscapeInterpreter → Scanned) :
    (r.andThen f).andThen g = r.andThen fun i => (f i).andThen g := by
  unfold andThen
  by_cases hr : r.disconnected
  · simp [hr]
  · by_cases hf : (f r.interpreter).disconnected <;> simp [hr, hf]

namespace EscapeInterpreter

/-- One byte. -/
def read (i : EscapeInterpreter) (b : UInt8) : Scanned :=
  match i.handleByte b with
  | (i', .sendBytes bs) => ⟨i', bs, [], false⟩
  | (i', .consume) => ⟨i', [], [], false⟩
  | (i', .command cmd) => ⟨i', [], [cmd], cmd = .disconnect⟩

def scan : Bytes → EscapeInterpreter → Scanned
  | [], i => ⟨i, [], [], false⟩
  | b :: buf, i => (i.read b).andThen (scan buf)

/-- It does not matter where the string is cut. -/
theorem scan_append (buf rest : Bytes) (i : EscapeInterpreter) :
    scan (buf ++ rest) i = (scan buf i).andThen (scan rest) := by
  induction buf generalizing i with
  | nil => simp [scan, Scanned.andThen]
  | cons b buf ih =>
    rw [List.cons_append, scan, scan, Scanned.andThen_assoc]
    exact congrArg _ (funext ih)

/-- A session is ended by the disconnect command and by nothing else. -/
theorem scan_disconnected (buf : Bytes) (i : EscapeInterpreter) :
    (scan buf i).disconnected = true ↔ .disconnect ∈ (scan buf i).commands := by
  induction buf generalizing i with
  | nil => simp [scan]
  | cons b buf ih =>
    have hread : (i.read b).disconnected = true ↔ .disconnect ∈ (i.read b).commands := by
      unfold read
      split <;> simp [eq_comm]
    unfold scan Scanned.andThen
    split
    · exact hread
    · rename_i hgo
      rw [hread] at hgo
      simp [hgo, ih]

end EscapeInterpreter

namespace MirrorSession
variable {C : Type}

/-! ### One chunk -/

/-- What a command does to the mirror. -/
def commandMirror (mirror : ClientTerminal) : EscapeCommand → ClientTerminal
  | .disconnect => mirror
  | .suspend => mirror.markDirty
  | .help => mirror.markDirty
  | .toggleOverlay => mirror.toggleOverlay

/-- The action a command becomes. -/
def commandAction : EscapeCommand → ClientAction
  | .disconnect => .disconnect
  | .suspend => .suspend
  | .help => .showHelp
  | .toggleOverlay => .paint

/-- The loop of `feed_stdin` does what the interpreter says, command by command. -/
theorem interpret_eq (buf send : Bytes) (actions : List ClientAction) (s : MirrorSession C) :
    s.interpret buf send actions =
      let r := EscapeInterpreter.scan buf s.interpreter
      ({ s with interpreter := r.interpreter, mirror := r.commands.foldl commandMirror s.mirror },
        send ++ r.keys, actions ++ r.commands.map commandAction, r.disconnected) := by
  induction buf generalizing s send actions with
  | nil => simp [interpret, EscapeInterpreter.scan]
  | cons b buf ih =>
    unfold interpret EscapeInterpreter.scan EscapeInterpreter.read
    dsimp only
    rcases hb : s.interpreter.handleByte b with ⟨i, res⟩
    cases res with
    | sendBytes bs => simp [ih, Scanned.andThen]
    | consume => simp [ih, Scanned.andThen]
    | command cmd => cases cmd <;> simp [ih, Scanned.andThen, commandMirror, commandAction]

variable [PacketCodec C] {s s' : MirrorSession C}

/-- The keystrokes in a packet. -/
def keysOf : ClientPayload → Bytes
  | .keystrokes keys => keys
  | _ => []

/-- The keystrokes in the packets sent between two states. -/
def typedBy (s s' : MirrorSession C) : Bytes :=
  (s'.issued.drop s.issued.length).flatMap fun e => keysOf e.2

omit [PacketCodec C] in
theorem typedBy_eq {new : List (ℕ × ClientPayload)} (h : s'.issued = s.issued ++ new) :
    typedBy s s' = new.flatMap fun e => keysOf e.2 := by
  rw [typedBy, h, List.drop_left]

/-- The packet a chunk's keystrokes are sealed in. -/
def sealKeys (s : MirrorSession C) (keys : Bytes) : Except Error Bytes :=
  PacketCodec.sealClient s.codec s.sessionId (s.seqNum + 1) s.ackSeqNum (.keystrokes keys)

/-- What a chunk can come to, by what the interpreter made of it. -/
inductive ChunkFed (s : MirrorSession C) (r : Scanned) (s' : MirrorSession C) :
    Except Error (List ClientAction) → Prop
  | ended (actions : List ClientAction) (hr : r.disconnected = true) (hmem : .disconnect ∈ actions)
      (hissued : s'.issued = s.issued) : ChunkFed s r s' (.ok actions)
  | silent (actions : List ClientAction) (hr : ¬ r.disconnected = true) (hmem : .disconnect ∉ actions)
      (hkeys : r.keys = []) (hissued : s'.issued = s.issued) (hseq : s'.seqNum = s.seqNum) :
      ChunkFed s r s' (.ok actions)
  | sent (actions : List ClientAction) (bytes : Bytes) (hr : ¬ r.disconnected = true)
      (hmem : .disconnect ∉ actions) (hkeys : r.keys ≠ []) (hseal : s.sealKeys r.keys = .ok bytes)
      (hissued : s'.issued = s.issued ++ [(s.seqNum + 1, .keystrokes r.keys)])
      (hseq : s'.seqNum = s.seqNum + 1) : ChunkFed s r s' (.ok actions)
  | failed (e : Error) (hr : ¬ r.disconnected = true) (hkeys : r.keys ≠ [])
      (hseal : s.sealKeys r.keys = .error e) (hissued : s'.issued = s.issued) :
      ChunkFed s r s' (.error e)

/-- Keystrokes are issued as one packet, or do not seal. -/
theorem sendKeys_cases {keys : Bytes} {actions : List ClientAction} {now : Instant}
    {res : Except Error (List ClientAction)} (h : s.sendKeys keys actions now = some (s', res)) :
    s'.interpreter = s.interpreter ∧
    ((∃ bytes out, res = .ok out ∧ s.sealKeys keys = .ok bytes ∧
      (.disconnect ∈ out ↔ .disconnect ∈ actions) ∧ s'.seqNum = s.seqNum + 1 ∧
      s'.issued = s.issued ++ [(s.seqNum + 1, .keystrokes keys)]) ∨
    ∃ e, res = .error e ∧ s.sealKeys keys = .error e ∧ s'.issued = s.issued) := by
  obtain ⟨t, r, ht, ⟨e, rfl, rfl, rfl⟩ | ⟨bytes, seq, rfl, hsent⟩⟩ := sendKeys_inv h
  · obtain ⟨u, rfl, ⟨_, hseal, rfl, heq⟩ | ⟨_, -, -, heq⟩⟩ := prepareReliable_inv ht
    · cases heq
      exact ⟨rfl, .inr ⟨_, rfl, hseal, rfl⟩⟩
    · cases heq
  · obtain ⟨u, rfl, ⟨_, -, -, heq⟩ | ⟨_, hseal, rfl, heq⟩⟩ := prepareReliable_inv ht
    · cases heq
    · cases heq
      rcases hsent with ⟨rfl, rfl⟩ | ⟨mirror, -, -, rfl, rfl⟩
      · exact ⟨rfl, .inl ⟨_, _, rfl, hseal, by simp, rfl, rfl⟩⟩
      · exact ⟨rfl, .inl ⟨_, _, rfl, hseal, by simp, rfl, rfl⟩⟩

/-- INVERSION: a chunk sends the bytes the interpreter released, unless it ends the session or its packet
    does not seal. -/
theorem feedStdin_cases {buf : Bytes} {now : Instant} {res : Except Error (List ClientAction)}
    (h : s.feedStdin buf now = some (s', res)) :
    s'.interpreter = (EscapeInterpreter.scan buf s.interpreter).interpreter ∧
      ChunkFed s (EscapeInterpreter.scan buf s.interpreter) s' res := by
  generalize hscan : EscapeInterpreter.scan buf s.interpreter = r
  have hdis : ClientAction.disconnect ∈ r.commands.map commandAction ↔ r.disconnected = true := by
    rw [← hscan, EscapeInterpreter.scan_disconnected, List.mem_map]
    constructor
    · rintro ⟨cmd, hmem, heq⟩
      cases cmd with
      | disconnect => exact hmem
      | _ => cases heq
    · exact fun hmem => ⟨_, hmem, rfl⟩
  obtain ⟨t, send, actions, disconnected, heq, hcase⟩ := feedStdin_inv h
  rw [interpret_eq, hscan] at heq
  simp only [List.nil_append, Prod.mk.injEq] at heq
  obtain ⟨rfl, rfl, rfl, rfl⟩ := heq
  rcases hcase with ⟨hr, rfl, rfl⟩ | ⟨hr, hempty, rfl, rfl⟩ | ⟨hr, hkeys, hsend⟩
  · exact ⟨rfl, .ended _ hr (hdis.mpr hr) rfl⟩
  · have hr := Bool.eq_false_iff.mp hr
    exact ⟨rfl, .silent _ hr (mt hdis.mp hr) hempty rfl rfl⟩
  · have hr := Bool.eq_false_iff.mp hr
    have hmem := mt hdis.mp hr
    obtain ⟨hint, ⟨bytes, out, rfl, hseal, hout, hseq, hissued⟩ | ⟨e, rfl, hseal, hissued⟩⟩ :=
      sendKeys_cases hsend
    · exact ⟨hint, .sent _ bytes hr (mt hout.mp hmem) hkeys hseal hissued hseq⟩
    · exact ⟨hint, .failed e hr hkeys hseal hissued⟩

/-! ### Chunks -/

/-- The chunks are fed until one ends the session or fails to seal. The commands are recorded as the
    interpreter gives them, which `interpret_eq` is about: the paint of the overlay is also the echo's. -/
def feedChunks : List (Bytes × Instant) → MirrorSession C →
    Option (MirrorSession C × List EscapeCommand)
  | [], s => some (s, [])
  | (buf, now) :: rest, s =>
    match s.feedStdin buf now with
    | some (s', .ok actions) =>
      let commands := (EscapeInterpreter.scan buf s.interpreter).commands
      if .disconnect ∈ actions then some (s', commands)
      else (feedChunks rest s').map fun (s'', more) => (s'', commands ++ more)
    | some (s', .error _) => some (s', [])
    | none => none

/-- The chunk that ends the session, if there is one, has nothing to send before the escape, and the
    keystrokes of every other chunk seal. -/
def LosesNothing (codec : C) (sid ack : ℕ) : List (Bytes × Instant) → EscapeInterpreter → ℕ → Prop
  | [], _, _ => True
  | (buf, _) :: rest, i, seq =>
    let r := EscapeInterpreter.scan buf i
    if r.disconnected then r.keys = []
    else if r.keys = [] then LosesNothing codec sid ack rest r.interpreter seq
    else (PacketCodec.sealClient codec sid (seq + 1) ack (.keystrokes r.keys)).isOk = true ∧
      LosesNothing codec sid ack rest r.interpreter (seq + 1)

/-- RUN: a run that loses nothing sends the keystrokes of the whole string and executes its commands; one
    that loses something sends fewer keystrokes. -/
theorem feedChunks_scan {chunks : List (Bytes × Instant)} {commands : List EscapeCommand}
    (h : feedChunks chunks s = some (s', commands)) :
    let r := EscapeInterpreter.scan (chunks.flatMap Prod.fst) s.interpreter
    (∃ new, s'.issued = s.issued ++ new) ∧
    (typedBy s s' = r.keys ↔ LosesNothing s.codec s.sessionId s.ackSeqNum chunks s.interpreter s.seqNum) ∧
    (LosesNothing s.codec s.sessionId s.ackSeqNum chunks s.interpreter s.seqNum →
      commands = r.commands) := by
  induction chunks generalizing s commands with
  | nil =>
    cases h
    simp [typedBy, LosesNothing, EscapeInterpreter.scan]
  | cons c rest ih =>
    obtain ⟨buf, now⟩ := c
    rw [List.flatMap_cons, EscapeInterpreter.scan_append]
    unfold feedChunks at h
    unfold LosesNothing Scanned.andThen
    dsimp only
    split at h
    · rename_i t actions hfeed
      obtain ⟨hint, hcase⟩ := feedStdin_cases hfeed
      obtain ⟨calls, hseals, -⟩ := feedStdin_seals hfeed
      cases hcase with
      | ended _ hr hmem hissued =>
        rw [if_pos hmem] at h
        cases h
        have hnew : s'.issued = s.issued ++ [] := by rw [hissued, List.append_nil]
        simp only [if_pos hr, typedBy_eq hnew]
        exact ⟨⟨_, hnew⟩, eq_comm, fun _ => trivial⟩
      | silent _ hr hmem hkeys hissued hseq =>
        rw [if_neg hmem] at h
        obtain ⟨⟨u, more⟩, hrest, heq⟩ := Option.map_eq_some_iff.mp h
        cases heq
        obtain ⟨⟨new, hnew⟩, htyped, hmore⟩ := ih hrest
        rw [hseals.codec, hseals.sessionId, hseals.ackSeqNum, hint, hseq] at htyped hmore
        have hall : s'.issued = s.issued ++ new := by rw [hnew, hissued]
        simp only [if_neg hr, if_pos hkeys]
        refine ⟨⟨new, hall⟩, ?_, fun hl => by simp [hmore hl]⟩
        rw [typedBy_eq hall, ← typedBy_eq hnew]
        simpa [hkeys] using htyped
      | sent _ bytes hr hmem hkeys hseal hissued hseq =>
        rw [if_neg hmem] at h
        obtain ⟨⟨u, more⟩, hrest, heq⟩ := Option.map_eq_some_iff.mp h
        cases heq
        obtain ⟨⟨new, hnew⟩, htyped, hmore⟩ := ih hrest
        rw [hseals.codec, hseals.sessionId, hseals.ackSeqNum, hint, hseq] at htyped hmore
        have hall : s'.issued = s.issued ++ ([(s.seqNum + 1,
            .keystrokes (EscapeInterpreter.scan buf s.interpreter).keys)] ++ new) := by
          rw [hnew, hissued, List.append_assoc]
        have hok : (PacketCodec.sealClient s.codec s.sessionId (s.seqNum + 1) s.ackSeqNum
            (.keystrokes (EscapeInterpreter.scan buf s.interpreter).keys)).isOk = true :=
          (congrArg Except.isOk hseal).trans rfl
        simp only [if_neg hr, if_neg hkeys]
        refine ⟨⟨_, hall⟩, ?_, fun hl => by simp [hmore hl.2]⟩
        rw [typedBy_eq hall, List.flatMap_append, ← typedBy_eq hnew, and_iff_right hok, ← htyped]
        simp [keysOf]
    · rename_i t e hfeed
      obtain ⟨-, hcase⟩ := feedStdin_cases hfeed
      cases h
      cases hcase with
      | failed _ hr hkeys hseal hissued =>
        have hnew : s'.issued = s.issued ++ [] := by rw [hissued, List.append_nil]
        have hnot : ¬ (PacketCodec.sealClient s.codec s.sessionId (s.seqNum + 1) s.ackSeqNum
            (.keystrokes (EscapeInterpreter.scan buf s.interpreter).keys)).isOk = true := by
          rw [show PacketCodec.sealClient _ _ _ _ _ = Except.error e from hseal]
          exact Bool.false_ne_true
        simp only [if_neg hr, if_neg hkeys, typedBy_eq hnew]
        refine ⟨⟨_, hnew⟩, iff_of_false ?_ fun hl => hnot hl.1, fun hl => absurd hl.1 hnot⟩
        intro hnil
        exact hkeys (List.append_eq_nil_iff.mp hnil.symm).1
    · cases h

/-- Two splits of one string agree with it, and with each other, in keystrokes and commands exactly if
    neither loses anything: the chunk that completes `~.` has nothing to send before it, and the packets
    of the chunks before seal. -/
theorem stdin_chunking_iff {s₁ s₂ : MirrorSession C} {chunks₁ chunks₂ : List (Bytes × Instant)}
    {commands₁ commands₂ : List EscapeCommand}
    (hsame : chunks₁.flatMap Prod.fst = chunks₂.flatMap Prod.fst)
    (h₁ : feedChunks chunks₁ s = some (s₁, commands₁))
    (h₂ : feedChunks chunks₂ s = some (s₂, commands₂)) :
    (typedBy s s₁ = typedBy s s₂ ∧ commands₁ = commands₂ ∧
      typedBy s s₁ = (EscapeInterpreter.scan (chunks₁.flatMap Prod.fst) s.interpreter).keys) ↔
    LosesNothing s.codec s.sessionId s.ackSeqNum chunks₁ s.interpreter s.seqNum ∧
      LosesNothing s.codec s.sessionId s.ackSeqNum chunks₂ s.interpreter s.seqNum := by
  obtain ⟨-, htyped₁, hcommands₁⟩ := feedChunks_scan h₁
  obtain ⟨-, htyped₂, hcommands₂⟩ := feedChunks_scan h₂
  rw [← hsame] at htyped₂ hcommands₂
  constructor
  · rintro ⟨htyped, -, hall⟩
    exact ⟨htyped₁.mp hall, htyped₂.mp (htyped ▸ hall)⟩
  · rintro ⟨hl₁, hl₂⟩
    have hall₁ := htyped₁.mpr hl₁
    have hall₂ := htyped₂.mpr hl₂
    exact ⟨hall₁.trans hall₂.symm, (hcommands₁ hl₁).trans (hcommands₂ hl₂).symm, hall₁⟩

/-- A line, a tilde, and then a key that is no command, in one chunk and cut inside the escape. -/
theorem stdin_chunking_tilde :
    ∃ s₁ s₂ : MirrorSession (ChaChaCodec Bincode.crates),
      feedChunks [([97, 13, 126, 98], 1)] oneCell = some (s₁, []) ∧
      feedChunks [([97, 13, 126], 1), ([98], 2)] oneCell = some (s₂, []) ∧
      typedBy oneCell s₁ = typedBy oneCell s₂ := by
  obtain ⟨s₁, s₂, h₁, h₂, hl₁, hl₂⟩ : ∃ s₁ s₂ : MirrorSession (ChaChaCodec Bincode.crates),
      feedChunks [([97, 13, 126, 98], 1)] oneCell = some (s₁, []) ∧
      feedChunks [([97, 13, 126], 1), ([98], 2)] oneCell = some (s₂, []) ∧
      LosesNothing oneCell.codec oneCell.sessionId oneCell.ackSeqNum [([97, 13, 126, 98], 1)]
        oneCell.interpreter oneCell.seqNum ∧
      LosesNothing oneCell.codec oneCell.sessionId oneCell.ackSeqNum [([97, 13, 126], 1), ([98], 2)]
        oneCell.interpreter oneCell.seqNum :=
    ⟨_, _, rfl, rfl, ⟨rfl, trivial⟩, ⟨rfl, ⟨rfl, trivial⟩⟩⟩
  exact ⟨s₁, s₂, h₁, h₂, ((stdin_chunking_iff (by rfl) h₁ h₂).mpr ⟨hl₁, hl₂⟩).1⟩

/-- `a`, return, `~.`: in one chunk nothing is sent, with a chunk for each line the `a` and the return
    are. -/
theorem pasted_keys_lost :
    ∃ s₁ s₂ : MirrorSession (ChaChaCodec Bincode.crates),
      feedChunks [([97, 13, 126, 46], 1)] oneCell = some (s₁, [.disconnect]) ∧
      feedChunks [([97, 13], 1), ([126, 46], 2)] oneCell = some (s₂, [.disconnect]) ∧
      typedBy oneCell s₁ = [] ∧ typedBy oneCell s₂ = [97, 13] ∧
      typedBy oneCell s₁ ≠ typedBy oneCell s₂ := by
  obtain ⟨s₁, s₂, h₁, h₂, ht₁, ht₂⟩ : ∃ s₁ s₂ : MirrorSession (ChaChaCodec Bincode.crates),
      feedChunks [([97, 13, 126, 46], 1)] oneCell = some (s₁, [.disconnect]) ∧
      feedChunks [([97, 13], 1), ([126, 46], 2)] oneCell = some (s₂, [.disconnect]) ∧
      typedBy oneCell s₁ = [] ∧ typedBy oneCell s₂ = [97, 13] := ⟨_, _, rfl, rfl, rfl, rfl⟩
  exact ⟨s₁, s₂, h₁, h₂, ht₁, ht₂, by simp [ht₁, ht₂]⟩

end MirrorSession

end Rumsh.Client
