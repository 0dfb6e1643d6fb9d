import Rumsh.Protocol.RoundTrip
import Rumsh.Server.Emits
import Rumsh.Server.Network

/-! Screen updates between the session and its adapter.

    The session forgets that the screen is dirty when it hands out a frame job; the adapter may then
    skip the job. `Accounted jobs` is what the session relies on: its history, its clean flag and its
    last ack all come from the jobs it handed out. As long as no job is skipped, those are the jobs
    that were run. -/

namespace Rumsh.Server
open Rumsh.Schemes Rumsh.Protocol

/-- Compiling the grid again without new input gives the same grid. -/
def TerminalState.Stable (T : Type) [TerminalState T] : Prop :=
  ∀ (t t' : T) (g : GridState), TerminalState.updateAndGetState t = (t', .ok g) →
    (TerminalState.updateAndGetState t').2 = .ok g

namespace AuthoritativeSession
variable {C T : Type} [TerminalState T]

/-- The session's view of what was sent, against the jobs it handed out. -/
structure Accounted (jobs : List (UpdateJob C)) (s : AuthoritativeSession C T) : Prop where
  ack : s.ackSeqNum + 1 = s.expectedClientSeq
  codec : ∀ job ∈ jobs, job.codec = s.codec
  history : ∀ entry ∈ s.stateHistory, ∃ job ∈ jobs, job.currentState = entry.2
  clean : s.upToDate = true →
    ∃ job ∈ jobs, (TerminalState.updateAndGetState s.termState).2 = .ok job.currentState
  acked : (jobs = [] ∧ s.lastSentAckSeq = 0) ∨ ∃ job ∈ jobs, job.ackSeq = s.lastSentAckSeq

variable {jobs : List (UpdateJob C)} {s s' : AuthoritativeSession C T}

theorem Accounted.calmed (h : Accounted jobs s) (now : Instant) : Accounted jobs (s.calmed now) := by
  obtain ⟨_, hcalm⟩ := calmed_frame s now
  rw [hcalm]
  exact ⟨h.ack, h.codec, h.history, h.clean, h.acked⟩

/-- A frame that is queued is the new state of the screen and of the acks. -/
theorem Accounted.queueFrame (h : Accounted jobs s) {g : GridState}
    (hg : (TerminalState.updateAndGetState s.termState).2 = .ok g) (now : Instant) (echo : Bool) :
    Accounted (jobs ++ jobsOf (s.queueFrame g now echo).2) (s.queueFrame g now echo).1 := by
  let job : UpdateJob C :=
    { seq := s.seqNum + 1, ackSeq := s.ackSeqNum,
      refSeq := if (refStateOpt (pruneHistory s.clientAckSeq s.stateHistory) s.seqNum
        s.clientAckSeq).isSome then s.clientAckSeq else 0,
      refState := refStateOpt (pruneHistory s.clientAckSeq s.stateHistory) s.seqNum s.clientAckSeq,
      currentState := g, codec := s.codec, isEchoRecommended := echo }
  have hjob : jobsOf (s.queueFrame g now echo).2 = [job] := rfl
  have hmem : job ∈ jobs ++ [job] := by simp
  rw [hjob]
  refine ⟨h.ack, fun j hj => ?_, fun entry he => ?_, fun _ => ⟨job, hmem, hg⟩,
    .inr ⟨job, hmem, rfl⟩⟩
  · rcases List.mem_append.mp hj with hj | hj
    · exact h.codec j hj
    · rw [List.mem_singleton.mp hj]
      rfl
  · rcases List.mem_append.mp (mem_of_mem_capHistory he) with he | he
    · obtain ⟨j, hj, heq⟩ := h.history entry (mem_of_mem_pruneHistory _ he)
      exact ⟨j, List.mem_append_left _ hj, heq⟩
    · exact ⟨job, hmem, by rw [List.mem_singleton.mp he]⟩

/-- STEP: whatever `check_sync` does, the session stays accounted for by the jobs it hands out. -/
theorem Accounted.checkSync (hstable : TerminalState.Stable T) (h : Accounted jobs s) (now : Instant)
    (echo : Bool) :
    Accounted (jobs ++ jobsOf (s.checkSync now echo).2) (s.checkSync now echo).1 := by
  have hc := h.calmed now
  have hdue : ∀ t : T, (s.calmed now).upToDate = false →
      Accounted jobs { s.calmed now with termState := t } := by
    intro t hup
    refine ⟨hc.ack, hc.codec, hc.history, fun hup' => ?_, hc.acked⟩
    exact absurd (hup'.symm.trans hup) (by decide)
  rcases checkSync_cases s now echo with hs | ⟨-, hs⟩ | ⟨hup, t, ⟨e, hu, hs⟩ | ⟨g, hu, hs⟩⟩
  · rw [hs]
    simpa using h
  · rw [hs]
    simpa using hc
  · -- the grid could not be compiled, and the session still knows that something is due
    rw [hs]
    simp only [jobsOf_nil, List.append_nil]
    exact hdue t hup
  · rcases hs with ⟨hid, hack, hs⟩ | hs
    · rw [hs]
      simp only [jobsOf_nil, List.append_nil]
      refine ⟨hc.ack, hc.codec, hc.history, fun _ => ?_, hc.acked⟩
      unfold isIdentical at hid
      split at hid
      · rename_i q last hlast
        obtain ⟨job, hj, heq⟩ := h.history (q, last) (List.mem_of_getLast? hlast)
        refine ⟨job, hj, ?_⟩
        rw [heq, beq_iff_eq.mp hid]
        exact hstable _ _ _ hu
      · cases hid
    · rw [hs]
      exact (hdue t hup).queueFrame (hstable _ _ _ hu) now echo

theorem length_jobsOf_checkSync (s : AuthoritativeSession C T) (now : Instant) (echo : Bool) :
    (jobsOf (s.checkSync now echo).2).length ≤ 1 := by
  rcases checkSync_cases s now echo with hs | ⟨-, hs⟩ | ⟨-, t, ⟨e, -, hs⟩ | ⟨g, -, ⟨-, -, hs⟩ | hs⟩⟩ <;>
    rw [hs]
  · simp
  · simp
  · simp
  · simp
  · exact Nat.le_refl 1

theorem accounted_new {sid : ℕ} {codec : C} {c : ℕ} {addr : SocketAddr} {cols rows : ℕ}
    {now : Instant} (hc : 1 ≤ c)
    (h : AuthoritativeSession.new sid codec c addr cols rows now = .ok s) :
    Accounted [] s := by
  obtain ⟨t, -, h⟩ := bind_eq_ok.mp h
  cases h
  refine ⟨rfl, by simp, by simp, fun hup => ?_, .inl ⟨rfl, rfl⟩⟩
  simp [upToDate] at hup
  omega

theorem Accounted.onPtyBytes (h : Accounted jobs s) (data : Bytes) (now : Instant) :
    Accounted jobs (s.onPtyBytes data now) :=
  ⟨h.ack, h.codec, h.history, fun hup => by simp [upToDate, AuthoritativeSession.onPtyBytes] at hup,
    h.acked⟩

/-- The window only moves forward, so an ack that was due stays due. -/
theorem Accounted.advance (h : Accounted jobs s) (ack : ℕ) : Accounted jobs (s.advance ack) := by
  have hlt := (packetsToProcess_numbers s .ack ack).2
  have hack : (s.advance ack).ackSeqNum = (s.advance ack).expectedClientSeq - 1 := rfl
  refine ⟨by omega, h.codec, h.history, fun hup => h.clean ?_, h.acked⟩
  have := h.ack
  simp only [upToDate, Bool.and_eq_true, decide_eq_true_eq] at hup ⊢
  refine ⟨hup.1, ?_⟩
  have hle : (s.advance ack).ackSeqNum ≤ s.lastSentAckSeq := hup.2
  omega

variable [PacketCodec C]

theorem Accounted.process (h : Accounted jobs s) {payload : ClientPayload}
    {r : Except Error (List (SessionAction C))} (hp : s.process payload = some (s', r)) :
    Accounted jobs s' := by
  have hpr := process_processed hp
  refine ⟨?_, ?_, ?_, ?_, ?_⟩
  · rw [hpr.ackSeqNum, hpr.expectedClientSeq]; exact h.ack
  · rw [hpr.codec]; exact h.codec
  · rw [hpr.stateHistory]; exact h.history
  · rcases process_inv hp with ⟨res, heq, -⟩ | ⟨_, _, dirty, rfl, -, hdirty⟩
    · obtain ⟨rfl, -⟩ := Prod.mk.inj heq
      exact h.clean
    · intro hup
      simp only [upToDate, Bool.and_eq_true, Bool.not_eq_true'] at hup
      obtain ⟨hd, rfl⟩ := hdirty hup.1
      exact h.clean (by simpa [upToDate, hd] using hup.2)
  · rw [hpr.lastSentAckSeq]; exact h.acked

theorem Accounted.processAll (h : Accounted jobs s) {packets : List (ℕ × ClientPayload)}
    {actions : List (SessionAction C)} {r : Except Error (List (SessionAction C))}
    (hp : processAll packets s actions = some (s', r)) : Accounted jobs s' :=
  processAll_induct (R := fun s s' => Accounted jobs s → Accounted jobs s') (fun _ h => h)
    (fun _ _ _ h₁ h₂ h => h₂ (h₁ h)) (fun _ _ _ _ hp h => h.process hp) hp h

/-- STEP: after a datagram the session is accounted for by the jobs it hands out; after an error it
    hands out none. -/
theorem Accounted.feedPacket (hstable : TerminalState.Stable T) (h : Accounted jobs s) {bytes : Bytes}
    {src : SocketAddr} {now : Instant} {echo : Bool} {r : Except Error (List (SessionAction C))}
    (hf : s.feedPacket bytes src now echo = some (s', r)) :
    (∀ actions, r = .ok actions →
      (jobsOf actions).length ≤ 1 ∧ Accounted (jobs ++ jobsOf actions) s') ∧
    (∀ e, r = .error e → Accounted jobs s') := by
  have hheard : Accounted jobs (s.heard src now) := ⟨h.ack, h.codec, h.history, h.clean, h.acked⟩
  rcases feedPacket_cases hf with ⟨rfl, rfl, -⟩ | ⟨w, p, st, -, ⟨-, hs⟩ | ⟨-, -, hcase⟩⟩
  · exact ⟨by rintro _ ⟨⟩; simpa using h, by rintro _ ⟨⟩⟩
  · rcases feedHandshake_cases hs with ⟨-, rfl, rfl⟩ | ⟨-, t, rfl, hreset⟩
    · exact ⟨by rintro _ ⟨⟩; simpa using h, by rintro _ ⟨⟩⟩
    · have ht : Accounted jobs
          ((s.resetFor w.seqNum src now).sealNext w.seqNum (.handshakeAck s.sessionId)).1 :=
        ⟨rfl, h.codec, by simp [resetFor, sealNext],
          fun hup => by simp [upToDate, resetFor, sealNext] at hup, h.acked⟩
      rcases hreset with ⟨e, -, rfl, rfl⟩ | ⟨ds, -, rfl, rfl⟩
      · exact ⟨by rintro _ ⟨⟩, fun _ _ => ht⟩
      · refine ⟨?_, by rintro _ ⟨⟩⟩
        rintro _ ⟨⟩
        rw [jobsOf_append, jobsOf_sendAll, List.nil_append]
        exact ⟨length_jobsOf_checkSync _ now echo, ht.checkSync hstable now echo⟩
  · rcases hcase with ⟨-, ht⟩ | ⟨-, ⟨-, rfl, rfl⟩ | ⟨-, rfl, rfl⟩ | ⟨-, ho⟩⟩
    · cases ht
      refine ⟨?_, by rintro _ ⟨⟩⟩
      rintro _ ⟨⟩
      have hack : Accounted jobs ((s.heard src now).noteAck w.ackSeqNum) :=
        ⟨h.ack, h.codec, h.history, h.clean, h.acked⟩
      rw [jobsOf_append, jobsOf_resendOf, List.nil_append]
      exact ⟨length_jobsOf_checkSync _ now echo, hack.checkSync hstable now echo⟩
    · exact ⟨by rintro _ ⟨⟩; simpa using hheard, by rintro _ ⟨⟩⟩
    · have hbuf : Accounted jobs ((s.heard src now).buffer w.seqNum p) :=
        ⟨h.ack, h.codec, h.history, h.clean, h.acked⟩
      exact ⟨by rintro _ ⟨⟩; simpa using hbuf, by rintro _ ⟨⟩⟩
    · rcases feedInOrder_cases ho with ⟨e, hp, rfl⟩ | ⟨t, actions, hp, rfl, rfl⟩
      · exact ⟨by rintro _ ⟨⟩, fun _ _ => (hheard.advance w.ackSeqNum).processAll hp⟩
      · refine ⟨?_, by rintro _ ⟨⟩⟩
        rintro _ ⟨⟩
        rw [jobsOf_append, jobsOf_processAll hp, jobsOf_nil, List.nil_append]
        exact ⟨length_jobsOf_checkSync _ now echo,
          ((hheard.advance w.ackSeqNum).processAll hp).checkSync hstable now echo⟩

end AuthoritativeSession

namespace ServerNode
variable {C T : Type}

/-- The jobs that were not skipped: those that are done and the one that is running. -/
def started (n : ServerNode C T) : List (UpdateJob C) := n.ran ++ n.diffInFlight.toList.map Prod.fst

theorem executeAction_frame (n : ServerNode C T) (a : SessionAction C) :
    (n.executeAction a).session = n.session ∧ (n.executeAction a).ran = n.ran ∧
      ∀ p ∈ n.sent, p ∈ (n.executeAction a).sent := by
  cases a with
  | sendPacket bytes target => exact ⟨rfl, rfl, fun _ h => List.mem_append_left _ h⟩
  | offloadDiffJob job target =>
    simp only [executeAction]
    split <;> exact ⟨rfl, rfl, fun _ h => h⟩
  | resendFragments frameSeq mask target => exact ⟨rfl, rfl, fun _ h => List.mem_append_left _ h⟩
  | shutdown => exact ⟨rfl, rfl, fun _ h => h⟩

/-- `execute_actions` sends packets and starts a job; the session is not its business. -/
theorem executeActions_frame (actions : List (SessionAction C)) (n : ServerNode C T) :
    (n.executeActions actions).session = n.session ∧ (n.executeActions actions).ran = n.ran ∧
      ∀ p ∈ n.sent, p ∈ (n.executeActions actions).sent := by
  induction actions generalizing n with
  | nil => exact ⟨rfl, rfl, fun _ h => h⟩
  | cons a rest ih =>
    obtain ⟨h₁, h₂, h₃⟩ := ih (n.executeAction a)
    obtain ⟨k₁, k₂, k₃⟩ := executeAction_frame n a
    exact ⟨h₁.trans k₁, h₂.trans k₂, fun p hp => h₃ p (k₃ p hp)⟩

/-- A single job is started when none is running. -/
theorem started_executeActions (actions : List (SessionAction C)) (n : ServerNode C T)
    (hone : (jobsOf actions).length ≤ 1) (hfree : n.diffInFlight = none ∨ jobsOf actions = []) :
    (n.executeActions actions).started = n.started ++ jobsOf actions := by
  induction actions generalizing n with
  | nil => simp [executeActions]
  | cons a rest ih =>
    have hcons : jobsOf (a :: rest) = jobsOf [a] ++ jobsOf rest := jobsOf_append [a] rest
    rw [hcons] at hone hfree ⊢
    show ((n.executeAction a).executeActions rest).started = _
    cases a with
    | offloadDiffJob job target =>
      have hrest : jobsOf rest = [] := by
        rw [← List.length_eq_zero_iff]
        simp only [jobsOf, List.filterMap_cons, List.filterMap_nil, List.length_append,
          List.length_cons, List.length_nil] at hone
        simp only [jobsOf]
        omega
      rcases hfree with hfree | hfree
      · rw [ih _ (by simp [hrest]) (.inr hrest)]
        simp [started, executeAction, hfree, jobsOf]
      · cases hfree
    | sendPacket bytes target => exact ih _ hone hfree
    | resendFragments frameSeq mask target => exact ih _ hone hfree
    | shutdown => exact ih _ hone hfree

variable [PacketCodec C]

/-- A datagram of the job was handed to the socket. -/
def JobSent (n : ServerNode C T) (job : UpdateJob C) : Prop :=
  ∃ payload datagrams bytes target,
    PacketCodec.sealServer job.codec job.seq job.ackSeq payload = .ok datagrams ∧
      bytes ∈ datagrams ∧ (bytes, target) ∈ n.sent

variable {codec : C} {n n' : ServerNode C T}

theorem JobSent.mono {job : UpdateJob C} (h : n.JobSent job) (hsent : ∀ p ∈ n.sent, p ∈ n'.sent) :
    n'.JobSent job := by
  obtain ⟨payload, datagrams, bytes, target, hseal, hmem, hp⟩ := h
  exact ⟨payload, datagrams, bytes, target, hseal, hmem, hsent _ hp⟩

variable [TerminalState T]

/-- A datagram makes the session hand out a frame job while another one is running:
    `execute_actions` takes its `DIFF_SKIPPED_IN_FLIGHT` branch. -/
def skips (n : ServerNode C T) : Event → Bool
  | .recv bytes src now echo =>
    n.diffInFlight.isSome && match n.session.feedPacket bytes src now echo with
      | some (_, .ok actions) => !(jobsOf actions).isEmpty
      | _ => false
  | _ => false

/-- The session is accounted for by the jobs that were started, and those that are done were sent. -/
structure NothingLost (codec : C) (n : ServerNode C T) : Prop where
  codec : n.session.codec = codec
  accounted : n.session.Accounted n.started
  sent : ∀ job ∈ n.ran, n.JobSent job

/-- The actions of a session step are carried out. -/
theorem NothingLost.execute (h : NothingLost codec n) {session : AuthoritativeSession C T}
    {actions : List (SessionAction C)} (hcodec : session.codec = codec)
    (hacc : session.Accounted (n.started ++ jobsOf actions)) (hone : (jobsOf actions).length ≤ 1)
    (hfree : n.diffInFlight = none ∨ jobsOf actions = []) :
    NothingLost codec ({ n with session := session }.executeActions actions) := by
  obtain ⟨h₁, h₂, h₃⟩ := executeActions_frame actions { n with session := session }
  have h₄ := started_executeActions actions { n with session := session } hone hfree
  refine ⟨?_, ?_, ?_⟩
  · rw [h₁]
    exact hcodec
  · rw [h₁, h₄]
    exact hacc
  · rw [h₂]
    exact fun job hj => (h.sent job hj).mono h₃

/-- A job that is done was sent. -/
theorem NothingLost.finishJob
    (hseal : ∀ seq ack update, ∃ d ds,
      PacketCodec.sealServer codec seq ack (.frame update) = .ok (d :: ds))
    (h : NothingLost codec n) : NothingLost codec n.finishJob := by
  unfold ServerNode.finishJob
  split
  · exact h
  · rename_i job target hflight
    have hstarted : n.started = n.ran ++ [job] := by simp [started, hflight]
    have hcodec : job.codec = codec :=
      (h.accounted.codec job (by simp [hstarted])).trans h.codec
    split
    · exact h
    · -- sealing a frame does not fail
      rename_i e hrun
      obtain ⟨update, -, hu⟩ := Option.map_eq_some_iff.mp hrun
      obtain ⟨d, ds, hok⟩ := hseal job.seq job.ackSeq update
      rw [hcodec, hok] at hu
      cases hu
    · rename_i packets hrun
      obtain ⟨update, -, hu⟩ := Option.map_eq_some_iff.mp hrun
      refine ⟨h.codec, ?_, fun j hj => ?_⟩
      · rw [show ∀ m : ServerNode C T, m.diffInFlight = none → m.started = m.ran by
          intro m hm; simp [started, hm]]
        · exact hstarted ▸ h.accounted
        · rfl
      · rcases List.mem_append.mp hj with hj | hj
        · exact (h.sent j hj).mono fun p hp => List.mem_append_left _ hp
        · obtain rfl := List.mem_singleton.mp hj
          obtain ⟨d, ds, hok⟩ := hseal j.seq j.ackSeq update
          rw [← hcodec, hu] at hok
          cases hok
          exact ⟨_, _, d, target, hu, List.mem_cons_self .., List.mem_append_right _ (by simp)⟩

/-- STEP: a step that skips no job loses nothing. -/
theorem NothingLost.step (hstable : TerminalState.Stable T)
    (hseal : ∀ seq ack update, ∃ d ds,
      PacketCodec.sealServer codec seq ack (.frame update) = .ok (d :: ds))
    (h : NothingLost codec n) {ev : Event} (hskip : n.skips ev = false) (hs : n.step ev = some n') :
    NothingLost codec n' := by
  cases ev with
  | ptyBytes data now =>
    cases hs
    exact ⟨h.codec, h.accounted.onPtyBytes data now, h.sent⟩
  | tick now echo =>
    simp only [ServerNode.step] at hs
    split at hs
    · cases hs
      exact h
    · rename_i hflight
      cases hs
      refine h.execute ?_ (h.accounted.checkSync hstable now echo)
        (AuthoritativeSession.length_jobsOf_checkSync _ now echo)
        (.inl (Option.not_isSome_iff_eq_none.mp hflight))
      exact (AuthoritativeSession.checkSync_sameWindow n.session now echo).codec.trans h.codec
  | recv bytes src now echo =>
    simp only [ServerNode.step] at hs
    split at hs
    · cases hs
    · rename_i session actions hfeed
      cases hs
      obtain ⟨hone, hacc⟩ := (h.accounted.feedPacket hstable hfeed).1 actions rfl
      refine h.execute ((AuthoritativeSession.feedPacket_static hfeed).1.trans h.codec) hacc hone ?_
      simp only [skips, hfeed, Bool.and_eq_false_iff, Option.isSome_eq_false_iff,
        Option.isNone_iff_eq_none, Bool.not_eq_eq_eq_not, Bool.not_false, List.isEmpty_iff] at hskip
      exact hskip
    · rename_i session e hfeed
      cases hs
      exact ⟨(AuthoritativeSession.feedPacket_static hfeed).1.trans h.codec,
        (h.accounted.feedPacket hstable hfeed).2 e rfl, h.sent⟩
  | jobDone =>
    cases hs
    exact h.finishJob hseal

/-- NO UPDATE LOST: over every run in which no frame job is skipped, whenever no job is running and the
    session considers itself clean, the terminal's grid is the one of a job that was run and sent, and
    the last ack it counts as sent was carried by a datagram that was sent. -/
theorem clean_of_no_skip (hstable : TerminalState.Stable T) (codec : C)
    (hseal : ∀ seq ack update, ∃ d ds,
      PacketCodec.sealServer codec seq ack (.frame update) = .ok (d :: ds))
    (sid c : ℕ) (hc : 1 ≤ c) (addr : SocketAddr) (cols rows : ℕ) (now : Instant)
    {s₀ : AuthoritativeSession C T}
    (hnew : AuthoritativeSession.new sid codec c addr cols rows now = .ok s₀) (events : List Event)
    (hskip : StepsMeet ServerNode.step (fun n ev => n.skips ev = false) (start s₀) events)
    (hrun : runFrom ServerNode.step (start s₀) events = some n) (hidle : n.diffInFlight = none)
    (hclean : n.session.dirty = false ∧ n.session.ackSeqNum ≤ n.session.lastSentAckSeq) :
    (∃ job ∈ n.ran, (TerminalState.updateAndGetState n.session.termState).2 = .ok job.currentState) ∧
    (∃ seq payload datagrams bytes target,
      PacketCodec.sealServer codec seq n.session.lastSentAckSeq payload = .ok datagrams ∧
        bytes ∈ datagrams ∧ (bytes, target) ∈ n.sent) := by
  have h₀ : NothingLost codec (start s₀) := by
    refine ⟨?_, AuthoritativeSession.accounted_new hc hnew, by simp [start]⟩
    obtain ⟨t, -, hs⟩ := bind_eq_ok.mp hnew
    cases hs
    rfl
  have h := run_invariant (fun n ev n' hn hP hs => hn.step hstable hseal hP hs) events h₀ hskip hrun
  have hstarted : n.started = n.ran := by simp [started, hidle]
  have hacc := hstarted ▸ h.accounted
  obtain ⟨job, hj, hgrid⟩ := hacc.clean (by simp [AuthoritativeSession.upToDate, hclean])
  refine ⟨⟨job, hj, hgrid⟩, ?_⟩
  rcases hacc.acked with ⟨hnil, -⟩ | ⟨job', hj', hack⟩
  · rw [hnil] at hj
    cases hj
  · obtain ⟨payload, datagrams, bytes, target, hs, hmem, hsent⟩ := h.sent job' hj'
    refine ⟨job'.seq, payload, datagrams, bytes, target, ?_, hmem, hsent⟩
    rw [← hack, ← h.codec, ← hacc.codec job' hj']
    exact hs

theorem stable_textTerminal : TerminalState.Stable TextTerminal := by
  intro t t' g h
  cases h
  rfl

/-- The test codec seals every frame into at least one datagram. -/
theorem sealServer_nullCodec {cr : Crates} (hcr : cr.Lawful) (codec : NullCodec cr) (seq ack : ℕ)
    (update : FrameUpdate) :
    ∃ d ds, PacketCodec.sealServer codec seq ack (.frame update) = .ok (d :: ds) := by
  obtain ⟨plain, hplain⟩ := serialize_ok hcr.serverPayload (.frame update)
  obtain ⟨datagrams, hd⟩ := ChaChaCodec.serialize_packets hcr (fragmentPackets seq ack plain)
  have hseal : codec.sealServer seq ack (.frame update) = .ok datagrams := by
    simp [NullCodec.sealServer, hplain, hd, bind, Except.bind]
  cases datagrams with
  | nil =>
    have hlen := ChaChaCodec.length_of_mapM hd
    by_cases hl : FRAGMENT_PAYLOAD_SIZE < plain.length
    · have := two_le_chunkCount size_pos hl
      rw [length_fragmentPackets hl, fragmentCount, List.length_nil] at hlen
      omega
    · simp [fragmentPackets, Nat.not_lt.mp hl] at hlen
  | cons d ds => exact ⟨d, ds, hseal⟩

/-- A session that has ticked once and whose first job is done is clean. -/
theorem clean_of_no_skip_first_job :
    ∃ (s₀ : AuthoritativeSession (NullCodec Bincode.crates) TextTerminal) (n : ServerNode _ _),
      AuthoritativeSession.new 7 { sessionId := 7 } 1 ⟨0, 0⟩ 8 2 0 = .ok s₀ ∧
      runFrom ServerNode.step (start s₀) [.tick 0 false, .jobDone] = some n ∧
      ∃ job ∈ n.ran, (TerminalState.updateAndGetState n.session.termState).2 = .ok job.currentState := by
  obtain ⟨s₀, hs₀⟩ : ∃ s₀ : AuthoritativeSession (NullCodec Bincode.crates) TextTerminal,
    AuthoritativeSession.new 7 { sessionId := 7 } 1 ⟨0, 0⟩ 8 2 0 = .ok s₀ := ⟨_, rfl⟩
  refine ⟨s₀, ?_⟩
  cases hs₀
  refine ⟨_, rfl, rfl, ?_⟩
  exact (clean_of_no_skip stable_textTerminal ({ sessionId := 7 } : NullCodec Bincode.crates)
    (sealServer_nullCodec Bincode.crates_lawful _) 7 1 (by decide) ⟨0, 0⟩ 8 2 0 rfl
    [.tick 0 false, .jobDone] ⟨rfl, fun _ _ => ⟨rfl, fun _ _ => trivial⟩⟩ rfl rfl (by decide +kernel)).1

omit [PacketCodec C] in
theorem not_shown {n : ServerNode C TextTerminal}
    (h : (n.ran.all fun job => decide (job.currentState ≠ n.session.termState.grid)) = true) :
    ¬ ∃ job ∈ n.ran,
      (TerminalState.updateAndGetState n.session.termState).2 = .ok job.currentState := by
  rintro ⟨job, hj, hgrid⟩
  have hne := of_decide_eq_true (List.all_eq_true.mp h job hj)
  exact hne (Except.ok.inj hgrid).symm

/-- A keystroke of the client that arrives while the first job is running makes the session hand out a
    job that is skipped: the letter on the screen and the ack are gone, and the session is clean. -/
theorem skipped_update_lost :
    ∃ (s₀ : AuthoritativeSession (ChaChaCodec Bincode.crates) TextTerminal) (n : ServerNode _ _)
      (keys : Bytes),
      let addr : SocketAddr := ⟨0, 0⟩
      let codec := ChaChaCodec.new Bincode.crates (Vector.replicate 32 0) (2 ^ 32)
      AuthoritativeSession.new (2 ^ 32) codec 1 addr 8 2 0 = .ok s₀ ∧
      codec.sealClient (2 ^ 32) 2 0 (.keystrokes [0x61]) = .ok keys ∧
      runFrom ServerNode.step (start s₀) [.tick 0 false, .ptyBytes [0x78] (millis 1),
        .recv keys addr (millis 20) false, .jobDone] = some n ∧
      n.diffInFlight = none ∧
      (n.session.dirty = false ∧ n.session.ackSeqNum ≤ n.session.lastSentAckSeq) ∧
      ¬ ∃ job ∈ n.ran,
        (TerminalState.updateAndGetState n.session.termState).2 = .ok job.currentState := by
  exact ⟨_, _, _, rfl, rfl, rfl, rfl, by decide +kernel, not_shown (by decide +kernel)⟩

end ServerNode

end Rumsh.Server
