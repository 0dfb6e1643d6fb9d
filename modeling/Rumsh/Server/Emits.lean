import Rumsh.Server.Steps

/-! What the server's session hands to its adapter.

    A turn of the session first takes in what arrived (`Arrived`), then seals packets and hands out at
    most one frame job (`Emits`): each takes the next number, a frame is recorded in the history under
    its own, and a frame job's reference is the state of the number the client acknowledged. -/

namespace Rumsh.Server
open Std Rumsh.Schemes Rumsh.Protocol

/-- The frame jobs among some actions. -/
def jobsOf {C : Type} (actions : List (SessionAction C)) : List (UpdateJob C) :=
  actions.filterMap fun
    | .offloadDiffJob job _ => some job
    | _ => none

@[simp] theorem jobsOf_nil {C : Type} : jobsOf ([] : List (SessionAction C)) = [] := rfl

@[simp] theorem jobsOf_append {C : Type} (as bs : List (SessionAction C)) :
    jobsOf (as ++ bs) = jobsOf as ++ jobsOf bs := by
  simp [jobsOf]

@[simp] theorem jobsOf_sendAll {C : Type} (datagrams : List Bytes) (target : SocketAddr) :
    jobsOf (AuthoritativeSession.sendAll (C := C) datagrams target) = [] := by
  simp [jobsOf, AuthoritativeSession.sendAll]

@[simp] theorem jobsOf_resendOf {C : Type} (payload : ClientPayload) (target : SocketAddr) :
    jobsOf (AuthoritativeSession.resendOf (C := C) payload target) = [] := by
  cases payload <;> rfl

/-- The datagrams among some actions. -/
def datagramsOf {C : Type} (actions : List (SessionAction C)) : List Bytes :=
  actions.filterMap fun
    | .sendPacket bytes _ => some bytes
    | _ => none

@[simp] theorem datagramsOf_nil {C : Type} : datagramsOf ([] : List (SessionAction C)) = [] := rfl

@[simp] theorem datagramsOf_append {C : Type} (as bs : List (SessionAction C)) :
    datagramsOf (as ++ bs) = datagramsOf as ++ datagramsOf bs := by
  simp [datagramsOf]

@[simp] theorem datagramsOf_sendAll {C : Type} (datagrams : List Bytes) (target : SocketAddr) :
    datagramsOf (AuthoritativeSession.sendAll (C := C) datagrams target) = datagrams := by
  simp [datagramsOf, AuthoritativeSession.sendAll, List.filterMap_map]

@[simp] theorem datagramsOf_resendOf {C : Type} (payload : ClientPayload) (target : SocketAddr) :
    datagramsOf (AuthoritativeSession.resendOf (C := C) payload target) = [] := by
  cases payload <;> rfl

/-- The actions of a call; one that fails has none. -/
def actionsOf {C : Type} : Except Error (List (SessionAction C)) → List (SessionAction C)
  | .ok actions => actions
  | .error _ => []

namespace AuthoritativeSession
variable {C T : Type}

theorem mem_of_mem_pruneHistory (clientAckSeq : ℕ) {entry : ℕ × GridState} :
    ∀ {history : List (ℕ × GridState)}, entry ∈ pruneHistory clientAckSeq history → entry ∈ history
  | [], h => h
  | e :: rest, h => by
      unfold pruneHistory at h
      split at h
      · exact List.mem_cons_of_mem _ (mem_of_mem_pruneHistory clientAckSeq h)
      · exact h

theorem mem_of_mem_capHistory {entry : ℕ × GridState} {history : List (ℕ × GridState)}
    (h : entry ∈ capHistory history) : entry ∈ history := by
  unfold capHistory at h
  split at h
  · exact List.mem_of_mem_tail h
  · exact h

/-! ### Emissions -/

variable [TerminalState T]

/-- A frame job as `check_sync` makes it: `s` is the session before and `s'` the one it leaves. -/
structure JobOf (s s' : AuthoritativeSession C T) (job : UpdateJob C) : Prop where
  seq : job.seq = s'.seqNum
  ackSeq : job.ackSeq = s'.ackSeqNum
  codec : job.codec = s'.codec
  full : job.refState = none → job.refSeq = 0
  delta : ∀ g, job.refState = some g → job.refSeq = s'.clientAckSeq ∧
    (job.refSeq, g) ∈ s.stateHistory ∧ job.seq ≤ job.refSeq + 6
  compiled : ∃ t t', TerminalState.updateAndGetState (t : T) = (t', .ok job.currentState)

variable [PacketCodec C]

/-- Sealing packets and handing out frame jobs. -/
structure Emits (s s' : AuthoritativeSession C T) (actions : List (SessionAction C)) : Prop where
  sessionId : s'.sessionId = s.sessionId
  codec : s'.codec = s.codec
  ackSeqNum : s'.ackSeqNum = s.ackSeqNum
  clientAckSeq : s'.clientAckSeq = s.clientAckSeq
  seqNum : s.seqNum ≤ s'.seqNum
  calls : ∃ calls, s'.sealedCalls = s.sealedCalls ++ calls ∧
    (calls.map Prod.fst ++ (jobsOf actions).map UpdateJob.seq).Pairwise (· < ·) ∧
    (∀ n ∈ calls.map Prod.fst ++ (jobsOf actions).map UpdateJob.seq, s.seqNum < n ∧ n ≤ s'.seqNum) ∧
    (∀ x ∈ calls, x.2.1 = s.ackSeqNum ∧ ∀ update, x.2.2 ≠ .frame update) ∧
    ∀ b ∈ datagramsOf actions, ∃ x ∈ calls, ∃ datagrams,
      PacketCodec.sealServer s.codec x.1 x.2.1 x.2.2 = .ok datagrams ∧ b ∈ datagrams
  pushed : s'.pushed = s.pushed ++ (jobsOf actions).map fun job => (job.seq, job.currentState)
  history : ∀ e ∈ s'.stateHistory, e ∈ s.stateHistory ∨
    e ∈ (jobsOf actions).map fun job => (job.seq, job.currentState)
  jobs : ∀ job ∈ jobsOf actions, JobOf s s' job

variable {s s' s'' : AuthoritativeSession C T} {actions actions' : List (SessionAction C)}

/-- A step that seals nothing and hands out nothing. -/
theorem emits_none (h₁ : s'.sessionId = s.sessionId) (h₂ : s'.codec = s.codec)
    (h₃ : s'.ackSeqNum = s.ackSeqNum) (h₄ : s'.clientAckSeq = s.clientAckSeq)
    (h₅ : s'.seqNum = s.seqNum) (h₆ : s'.sealedCalls = s.sealedCalls) (h₇ : s'.pushed = s.pushed)
    (h₈ : s'.stateHistory = s.stateHistory) (hj : jobsOf actions = [])
    (hd : datagramsOf actions = []) : Emits s s' actions where
  sessionId := h₁
  codec := h₂
  ackSeqNum := h₃
  clientAckSeq := h₄
  seqNum := h₅.ge
  calls := ⟨[], by simp [h₆], by simp [hj], by simp [hj], by simp, by simp [hd]⟩
  pushed := by simp [h₇, hj]
  history e he := .inl (h₈ ▸ he)
  jobs := by simp [hj]

theorem Emits.refl (s : AuthoritativeSession C T) : Emits s s [] :=
  emits_none rfl rfl rfl rfl rfl rfl rfl rfl rfl rfl

/-- Packets first, then frame jobs. -/
theorem Emits.trans (h : Emits s s' actions) (hj : jobsOf actions = []) (h' : Emits s' s'' actions') :
    Emits s s'' (actions ++ actions') where
  sessionId := h'.sessionId.trans h.sessionId
  codec := h'.codec.trans h.codec
  ackSeqNum := h'.ackSeqNum.trans h.ackSeqNum
  clientAckSeq := h'.clientAckSeq.trans h.clientAckSeq
  seqNum := h.seqNum.trans h'.seqNum
  calls := by
    obtain ⟨calls, hc, hsort, hrange, hack, hsend⟩ := h.calls
    obtain ⟨calls', hc', hsort', hrange', hack', hsend'⟩ := h'.calls
    rw [hj, List.map_nil, List.append_nil] at hsort hrange
    refine ⟨calls ++ calls', by rw [hc', hc, List.append_assoc], ?_, ?_, ?_, ?_⟩
    · rw [jobsOf_append, hj, List.nil_append, List.map_append, List.append_assoc]
      refine List.pairwise_append.mpr ⟨hsort, hsort', fun n hn m hm => ?_⟩
      exact (hrange n hn).2.trans_lt (hrange' m hm).1
    · rw [jobsOf_append, hj, List.nil_append, List.map_append, List.append_assoc]
      intro n hn
      rcases List.mem_append.mp hn with hn | hn
      · exact ⟨(hrange n hn).1, (hrange n hn).2.trans h'.seqNum⟩
      · exact ⟨h.seqNum.trans_lt (hrange' n hn).1, (hrange' n hn).2⟩
    · intro x hx
      rcases List.mem_append.mp hx with hx | hx
      · exact hack x hx
      · exact ⟨(hack' x hx).1.trans h.ackSeqNum, (hack' x hx).2⟩
    · intro b hb
      rw [datagramsOf_append] at hb
      rcases List.mem_append.mp hb with hb | hb
      · obtain ⟨x, hx, hb⟩ := hsend b hb
        exact ⟨x, List.mem_append_left _ hx, hb⟩
      · obtain ⟨x, hx, hb⟩ := hsend' b hb
        rw [h.codec] at hb
        exact ⟨x, List.mem_append_right _ hx, hb⟩
  pushed := by rw [h'.pushed, h.pushed, jobsOf_append, hj]; simp
  history e he := by
    rw [jobsOf_append, hj, List.nil_append]
    rcases h'.history e he with he | he
    · have := h.history e he
      rw [hj] at this
      exact .inl (by simpa using this)
    · exact .inr he
  jobs job hmem := by
    rw [jobsOf_append, hj, List.nil_append] at hmem
    obtain ⟨h₁, h₂, h₃, h₄, h₅, h₆⟩ := h'.jobs job hmem
    refine ⟨h₁, h₂, h₃, h₄, fun g hg => ⟨(h₅ g hg).1, ?_, (h₅ g hg).2.2⟩, h₆⟩
    have := h.history _ (h₅ g hg).2.1
    rw [hj] at this
    simpa using this

/-- A packet of the session's own, under the next number and the current ack. -/
theorem sealNext_emits {payload : ServerPayload} (hp : ∀ update, payload ≠ .frame update)
    {r : Except Error (List Bytes)} (h : s.sealNext s.ackSeqNum payload = (s', r))
    (hj : jobsOf actions = [])
    (hd : ∀ b ∈ datagramsOf actions, ∃ datagrams, r = .ok datagrams ∧ b ∈ datagrams) :
    Emits s s' actions := by
  obtain ⟨rfl, hr⟩ := Prod.mk.inj h
  refine { sessionId := rfl, codec := rfl, ackSeqNum := rfl, clientAckSeq := rfl
           seqNum := Nat.le_succ _, calls := ⟨_, rfl, by simp [hj], ?_, ?_, fun b hb => ?_⟩
           pushed := by simp [hj], history := fun e he => .inl he, jobs := by simp [hj] }
  · simp [hj]
  · simpa using hp
  · obtain ⟨datagrams, rfl, hb⟩ := hd b hb
    exact ⟨_, List.mem_singleton.mpr rfl, datagrams, hr, hb⟩

/-- The processing loop hands out no jobs. -/
theorem jobsOf_process {payload : ClientPayload} {actions : List (SessionAction C)}
    (h : s.process payload = some (s', .ok actions)) : jobsOf actions = [] := by
  rcases process_inv h with ⟨res, -, hr⟩ | ⟨_, _, _, -, hr, -⟩
  · cases res with
    | error e => cases hr
    | ok datagrams =>
      rw [Except.ok.inj hr]
      exact jobsOf_sendAll _ _
  · rw [Except.ok.inj hr]
    exact jobsOf_resendOf _ _

theorem process_emits {payload : ClientPayload} {r : Except Error (List (SessionAction C))}
    (h : s.process payload = some (s', r)) : Emits s s' (actionsOf r) := by
  rcases process_inv h with ⟨res, heq, rfl⟩ | ⟨_, _, _, rfl, rfl, -⟩
  · cases res with
    | error e => exact sealNext_emits (by simp) heq rfl (by simp [actionsOf, Except.map])
    | ok datagrams =>
      exact sealNext_emits (by simp) heq (by simp [actionsOf, Except.map]) (by simp [actionsOf, Except.map])
  · exact emits_none rfl rfl rfl rfl rfl rfl rfl rfl (jobsOf_resendOf _ _) (datagramsOf_resendOf _ _)

/-- RUN: the processing loop seals packets and hands out no jobs; an error drops its actions. -/
theorem processAll_emits {packets : List (ℕ × ClientPayload)}
    {r : Except Error (List (SessionAction C))} (h : processAll packets s actions = some (s', r)) :
    (∃ e, r = .error e ∧ Emits s s' []) ∨
    ∃ new, r = .ok (actions ++ new) ∧ Emits s s' new ∧ jobsOf new = [] := by
  induction packets generalizing s actions with
  | nil =>
    cases h
    exact .inr ⟨[], by simp, .refl _, rfl⟩
  | cons p rest ih =>
    rcases processAll_cons_inv h with ⟨e, hp, rfl⟩ | ⟨t, more, hp, hrest⟩
    · exact .inl ⟨e, rfl, process_emits hp⟩
    · have ht : Emits s t more := process_emits hp
      have hj := jobsOf_process hp
      -- the datagrams of a loop that fails later are dropped with its actions
      have hdrop : Emits s t [] := by
        obtain ⟨calls, hc, hsort, hrange, hack, -⟩ := ht.calls
        rw [hj] at hsort hrange
        exact { ht with
          calls := ⟨calls, hc, hsort, hrange, hack, by simp⟩
          pushed := by simpa [hj] using ht.pushed
          history := fun e he => by simpa [hj] using ht.history e he
          jobs := by simp }
      rcases ih hrest with ⟨e, rfl, he⟩ | ⟨new, rfl, hnew, hjn⟩
      · exact .inl ⟨e, rfl, hdrop.trans rfl he⟩
      · exact .inr ⟨more ++ new, by rw [List.append_assoc], ht.trans hj hnew, by simp [hj, hjn]⟩

theorem jobsOf_processAll {packets : List (ℕ × ClientPayload)} {actions actions' : List (SessionAction C)}
    (h : processAll packets s actions = some (s', .ok actions')) : jobsOf actions' = jobsOf actions := by
  rcases processAll_emits h with ⟨e, he, -⟩ | ⟨new, hok, -, hj⟩
  · cases he
  · rw [Except.ok.inj hok, jobsOf_append, hj, List.append_nil]

theorem mem_of_refStateOpt {history : List (ℕ × GridState)} {seqNum clientAckSeq : ℕ} {g : GridState}
    (h : refStateOpt history seqNum clientAckSeq = some g) :
    (clientAckSeq, g) ∈ history ∧ seqNum ≤ clientAckSeq + 5 := by
  unfold refStateOpt at h
  split at h
  · cases h
  · rename_i hlag
    obtain ⟨e, he, rfl⟩ := Option.map_eq_some_iff.mp h
    have hseq : e.1 = clientAckSeq := by simpa using List.find?_some he
    exact ⟨hseq ▸ List.mem_of_find?_eq_some he, by omega⟩

theorem queueFrame_emits {t t' : T} {g : GridState}
    (hg : TerminalState.updateAndGetState t = (t', .ok g)) (s : AuthoritativeSession C T)
    (now : Instant) (echo : Bool) : Emits s (s.queueFrame g now echo).1 (s.queueFrame g now echo).2 := by
  refine { sessionId := rfl, codec := rfl, ackSeqNum := rfl, clientAckSeq := rfl
           seqNum := Nat.le_succ _
           calls := ⟨[], by simp [queueFrame], by simp [queueFrame, jobsOf],
             by simp [queueFrame, jobsOf], by simp, by simp [queueFrame, datagramsOf]⟩
           pushed := rfl, history := fun e he => ?_, jobs := fun job hjob => ?_ }
  · rcases List.mem_append.mp (mem_of_mem_capHistory he) with he | he
    · exact .inl (mem_of_mem_pruneHistory _ he)
    · exact .inr he
  · obtain rfl := List.mem_singleton.mp hjob
    refine ⟨rfl, rfl, rfl, fun hnone => ?_, fun r hr => ?_, t, t', hg⟩
    · simp only at hnone ⊢
      rw [hnone]
      rfl
    · simp only at hr ⊢
      obtain ⟨hmem, hlag⟩ := mem_of_refStateOpt hr
      rw [hr, Option.isSome_some, if_pos rfl]
      exact ⟨rfl, mem_of_mem_pruneHistory _ hmem, by omega⟩

theorem checkSync_emits (s : AuthoritativeSession C T) (now : Instant) (echo : Bool) :
    Emits s (s.checkSync now echo).1 (s.checkSync now echo).2 := by
  have hcalm : ∀ t d, Emits s { s.calmed now with termState := t, dirty := d } [] := by
    intro t d
    obtain ⟨_, hcalm⟩ := calmed_frame s now
    rw [hcalm]
    exact emits_none rfl rfl rfl rfl rfl rfl rfl rfl rfl rfl
  rcases checkSync_cases s now echo with hs | ⟨-, hs⟩ | ⟨-, t, ⟨e, -, hs⟩ | ⟨g, hu, ⟨-, -, hs⟩ | hs⟩⟩ <;>
    rw [hs]
  · exact .refl s
  · exact hcalm _ _
  · exact hcalm t _
  · exact hcalm t false
  · exact (hcalm t _).trans rfl (queueFrame_emits hu _ now echo)

omit [PacketCodec C] in
/-- The frame scheduler sends nothing itself. -/
theorem datagramsOf_checkSync (s : AuthoritativeSession C T) (now : Instant) (echo : Bool) :
    datagramsOf (s.checkSync now echo).2 = [] := by
  rcases checkSync_cases s now echo with hs | ⟨-, hs⟩ | ⟨-, t, ⟨e, -, hs⟩ | ⟨g, -, ⟨-, -, hs⟩ | hs⟩⟩ <;>
    rw [hs] <;> rfl

/-! ### Turns -/

/-- One turn of the session: an event, and the actions it hands to the adapter. -/
def turn (s : AuthoritativeSession C T) :
    SessionEvent → Option (AuthoritativeSession C T × List (SessionAction C))
  | .packet bytes src now echo =>
    (s.feedPacket bytes src now echo).map fun (s', r) => (s', actionsOf r)
  | .ptyBytes data now => some (s.onPtyBytes data now, [])
  | .tick now echo => some (s.onTick now echo)

/-- What arrived has been taken in: only the window and the client's ack have moved, or the history was
    dropped for a new client. -/
structure Arrived (s : AuthoritativeSession C T) (ev : SessionEvent) (s₀ : AuthoritativeSession C T) :
    Prop where
  sessionId : s₀.sessionId = s.sessionId
  codec : s₀.codec = s.codec
  seqNum : s₀.seqNum = s.seqNum
  sealedCalls : s₀.sealedCalls = s.sealedCalls
  pushed : s₀.pushed = s.pushed
  history : ∀ e ∈ s₀.stateHistory, e ∈ s.stateHistory
  clientAckSeq : s₀.clientAckSeq = s.clientAckSeq ∨ s₀.clientAckSeq = 0 ∨
    ∃ bytes src now echo w p st, ev = .packet bytes src now echo ∧
      PacketCodec.openClient s.codec bytes = .ok (w, p, st) ∧ s₀.clientAckSeq = w.ackSeqNum

/-- INVERSION: a turn takes in what arrived and then emits. -/
theorem turn_emits {ev : SessionEvent} (h : s.turn ev = some (s', actions)) :
    ∃ s₀, Arrived s ev s₀ ∧ Emits s₀ s' actions := by
  have hsame : Arrived s ev s := ⟨rfl, rfl, rfl, rfl, rfl, fun _ => id, .inl rfl⟩
  cases ev with
  | ptyBytes data now =>
    cases h
    exact ⟨s, hsame, emits_none rfl rfl rfl rfl rfl rfl rfl rfl rfl rfl⟩
  | tick now echo =>
    have h : s.checkSync now echo = (s', actions) := Option.some.inj h
    have hc := checkSync_emits s now echo
    rw [h] at hc
    exact ⟨s, hsame, hc⟩
  | packet bytes src now echo =>
    obtain ⟨⟨t, r⟩, ht, heq⟩ := Option.map_eq_some_iff.mp h
    obtain ⟨rfl, rfl⟩ := Prod.mk.inj heq
    rcases feedPacket_cases ht with ⟨rfl, rfl, -⟩ | ⟨w, p, st, hopen, ⟨-, hs⟩ | ⟨-, -, hcase⟩⟩
    · exact ⟨_, hsame, .refl _⟩
    · rcases feedHandshake_cases hs with ⟨-, rfl, rfl⟩ | ⟨-, u, rfl, hreset⟩
      · exact ⟨_, hsame, .refl _⟩
      · have hseal := fun actions => @sealNext_emits C T _ _ (s.resetFor w.seqNum src now) _ actions
          (.handshakeAck s.sessionId) (by simp) _ rfl
        refine ⟨s.resetFor w.seqNum src now, ⟨rfl, rfl, rfl, rfl, rfl, by simp [resetFor],
          .inr (.inl rfl)⟩, ?_⟩
        rcases hreset with ⟨e, -, rfl, rfl⟩ | ⟨ds, hds, rfl, rfl⟩
        · exact hseal [] rfl (by simp)
        · refine (hseal (sendAll ds src) (by simp) fun b hb => ⟨ds, hds, by simpa using hb⟩).trans
            (by simp) (checkSync_emits _ now echo)
    · have hpacket : ∀ s₀ : AuthoritativeSession C T, s₀.sessionId = s.sessionId →
          s₀.codec = s.codec → s₀.seqNum = s.seqNum → s₀.sealedCalls = s.sealedCalls →
          s₀.pushed = s.pushed → s₀.stateHistory = s.stateHistory →
          (s₀.clientAckSeq = s.clientAckSeq ∨ s₀.clientAckSeq = w.ackSeqNum) →
          Arrived s (.packet bytes src now echo) s₀ := by
        intro s₀ h₁ h₂ h₃ h₄ h₅ h₆ h₇
        refine ⟨h₁, h₂, h₃, h₄, h₅, fun e he => h₆ ▸ he, h₇.imp_right fun h₇ => .inr ?_⟩
        exact ⟨bytes, src, now, echo, w, p, st, rfl, hopen, h₇⟩
      rcases hcase with ⟨-, hx⟩ | ⟨-, ⟨-, rfl, rfl⟩ | ⟨-, rfl, rfl⟩ | ⟨-, ho⟩⟩
      · cases hx
        refine ⟨(s.heard src now).noteAck w.ackSeqNum, hpacket _ rfl rfl rfl rfl rfl rfl ?_, ?_⟩
        · exact max_choice s.clientAckSeq w.ackSeqNum
        · exact (emits_none rfl rfl rfl rfl rfl rfl rfl rfl (by simp) (by simp)).trans (by simp)
            (checkSync_emits _ now echo)
      · exact ⟨s.heard src now, hpacket _ rfl rfl rfl rfl rfl rfl (.inl rfl), .refl _⟩
      · exact ⟨(s.heard src now).buffer w.seqNum p, hpacket _ rfl rfl rfl rfl rfl rfl (.inl rfl),
          .refl _⟩
      · refine ⟨(s.heard src now).advance w.ackSeqNum,
          hpacket _ rfl rfl rfl rfl rfl rfl (.inr rfl), ?_⟩
        rcases feedInOrder_cases ho with ⟨e, hp, rfl⟩ | ⟨u, acts, hp, rfl, rfl⟩
        · rcases processAll_emits hp with ⟨e', -, he⟩ | ⟨new, hnew, -⟩
          · exact he
          · cases hnew
        · rcases processAll_emits hp with ⟨e', he', -⟩ | ⟨new, hnew, hem, hj⟩
          · cases he'
          · cases hnew
            exact hem.trans hj (checkSync_emits u now echo)

end AuthoritativeSession

end Rumsh.Server
