import Rumsh.System.Screens

/-! Agreement of the two screen histories, for any behaviour of the network.

    `Known l a` says what an ack `a` is worth: if the server pushed a state under that number, the client
    has applied that state. It holds of every ack the client sends, wherever the ack is on its way, so a
    frame's reference is always a state the client has. -/

namespace Rumsh.System
open Std Rumsh.Schemes Rumsh.Protocol Rumsh.Server Rumsh.Client

variable {C T : Type} [PacketCodec C] [TerminalState T]

namespace Link

/-- An ack the client may send. -/
def Known (l : Link C T) (a : ℕ) : Prop :=
  a ≤ l.server.seqNum ∧ ∀ g, (a, g) ∈ l.server.pushed → (a, g) ∈ l.client.applied

/-- The ack and payload the server sealed, or may seal, under a number. -/
def Ledger (l : Link C T) (seq ack : ℕ) (payload : ServerPayload) : Prop :=
  (seq, ack, payload) ∈ l.server.sealedCalls ∨
  ∃ job ∈ l.jobs, ∃ update, job.seq = seq ∧ job.ackSeq = ack ∧
    job.currentState.diffFrom job.refState job.refSeq job.isEchoRecommended = some update ∧
    payload = .frame update

def FromServer (server : C) (l : Link C T) (b : Bytes) : Prop :=
  ∃ seq ack payload datagrams, l.Ledger seq ack payload ∧
    PacketCodec.sealServer server seq ack payload = .ok datagrams ∧ b ∈ datagrams

def FromClient (client : C) (sid : ℕ) (l : Link C T) (b : Bytes) : Prop :=
  ∃ datagrams session seq ack payload, (session = 0 ∨ session = sid) ∧
    PacketCodec.sealClient (PacketCodec.fed client datagrams) session seq ack payload = .ok b ∧
    l.Known ack

/-- A frame job against a state the client has applied, or none. -/
structure JobFits (server : C) (l : Link C T) (job : UpdateJob C) : Prop where
  codec : job.codec = server
  full : job.refState = none → job.refSeq = 0
  delta : ∀ g, job.refState = some g → (job.refSeq, g) ∈ l.client.applied ∧ job.seq ≤ job.refSeq + 6

/-- The joint invariant. -/
structure Agrees (server client : C) (sid : ℕ) (l : Link C T) : Prop where
  recorded : Recorded l.server
  kept : Kept l.client
  serverCodec : l.server.codec = server
  sessionId : l.client.sessionId = sid
  clientCodec : ∃ datagrams, (∀ b ∈ datagrams, b ∈ l.down) ∧
    l.client.codec = PacketCodec.fed client datagrams
  pushed : l.server.pushed = l.jobs.map fun job => (job.seq, job.currentState)
  jobs : ∀ job ∈ l.jobs, JobFits server l job
  down : ∀ b ∈ l.down, FromServer server l b
  up : ∀ b ∈ l.up, FromClient client sid l b
  stored : ∀ (n : ℕ) (b : Bytes) (t : Instant), l.client.unackedPackets[n]? = some (b, t) →
    FromClient client sid l b
  ack : l.Known l.client.ackSeqNum
  clientAck : l.Known l.server.clientAckSeq
  applied : ∀ e ∈ l.client.applied, e ∈ l.server.pushed

/-! ### Growth -/

/-- A link that has moved on: more is sealed, pushed, handed out and applied. -/
structure Grows (l l' : Link C T) : Prop where
  seqNum : l.server.seqNum ≤ l'.server.seqNum
  pushed : ∀ e ∈ l'.server.pushed, e ∈ l.server.pushed ∨ l.server.seqNum < e.1
  applied : ∀ e ∈ l.client.applied, e ∈ l'.client.applied
  calls : ∀ x ∈ l.server.sealedCalls, x ∈ l'.server.sealedCalls
  jobs : ∀ job ∈ l.jobs, job ∈ l'.jobs

variable {l l' : Link C T} {server client : C} {sid : ℕ} {b : Bytes}

omit [PacketCodec C] [TerminalState T] in
theorem Known.grow {a : ℕ} (h : l.Known a) (hg : Grows l l') : l'.Known a := by
  refine ⟨h.1.trans hg.seqNum, fun g hp => ?_⟩
  rcases hg.pushed _ hp with hp | hlt
  · exact hg.applied _ (h.2 g hp)
  · exact absurd h.1 (Nat.not_le.mpr hlt)

omit [TerminalState T] in
theorem FromServer.grow (h : FromServer server l b) (hg : Grows l l') : FromServer server l' b := by
  obtain ⟨seq, ack, payload, datagrams, hl, hseal, hb⟩ := h
  refine ⟨seq, ack, payload, datagrams, ?_, hseal, hb⟩
  rcases hl with hl | ⟨job, hj, hl⟩
  · exact .inl (hg.calls _ hl)
  · exact .inr ⟨job, hg.jobs job hj, hl⟩

omit [TerminalState T] in
theorem FromClient.grow (h : FromClient client sid l b) (hg : Grows l l') :
    FromClient client sid l' b := by
  obtain ⟨datagrams, session, seq, ack, payload, hs, hseal, hk⟩ := h
  exact ⟨datagrams, session, seq, ack, payload, hs, hseal, hk.grow hg⟩

omit [PacketCodec C] [TerminalState T] in
theorem JobFits.grow {job : UpdateJob C} (h : JobFits server l job) (hg : Grows l l') :
    JobFits server l' job :=
  ⟨h.codec, h.full, fun g hr => ⟨hg.applied _ (h.delta g hr).1, (h.delta g hr).2⟩⟩

omit [PacketCodec C] [TerminalState T] in
theorem Grows.of_eq (h₁ : l'.server = l.server) (h₂ : l'.client = l.client) (h₃ : l'.jobs = l.jobs) :
    Grows l l' := by
  refine ⟨by rw [h₁], ?_, ?_, ?_, ?_⟩ <;> simp [h₁, h₂, h₃]
  tauto

omit [TerminalState T] in
theorem Agrees.known_zero (h : Agrees server client sid l) : l.Known 0 :=
  ⟨Nat.zero_le _, fun g hg => absurd (h.recorded.range_pushed hg).1 (by simp)⟩

/-! ### Reading the other side -/

omit [TerminalState T] in
/-- Under each number one ack and one payload are sealed. -/
theorem Agrees.ledger_unique (h : Agrees server client sid l) {seq ack ack' : ℕ}
    {payload payload' : ServerPayload} (hl : l.Ledger seq ack payload)
    (hl' : l.Ledger seq ack' payload') : (ack, payload) = (ack', payload') := by
  obtain ⟨hcalls, hpushed, hdisj⟩ := List.nodup_append.mp h.recorded.nodup
  rw [h.pushed, List.map_map] at hpushed hdisj
  have hnum : ∀ job ∈ l.jobs, job.seq ∈ l.jobs.map (Prod.fst ∘ fun job : UpdateJob C =>
      (job.seq, job.currentState)) := fun job hj => List.mem_map_of_mem (f := Prod.fst ∘ _) hj
  rcases hl with hl | ⟨job, hj, u, rfl, rfl, hd, rfl⟩ <;>
    rcases hl' with hl' | ⟨job', hj', u', hseq, rfl, hd', rfl⟩
  · have := List.inj_on_of_nodup_map hcalls hl hl' rfl
    exact congrArg Prod.snd this
  · exact absurd hseq.symm (hdisj _ (List.mem_map_of_mem hl) _ (hnum job' hj'))
  · exact absurd rfl (hdisj _ (List.mem_map_of_mem hl') _ (hnum job hj))
  · obtain rfl := List.inj_on_of_nodup_map hpushed hj' hj hseq
    rw [hd] at hd'
    cases hd'
    rfl

omit [TerminalState T] in
/-- A family of payloads that is the ledger, with a free choice where nothing was sealed. -/
theorem Agrees.exists_family (h : Agrees server client sid l) (other : ℕ × ServerPayload) :
    ∃ fam : ℕ → ℕ × ServerPayload, (∀ seq ack payload, l.Ledger seq ack payload →
      fam seq = (ack, payload)) ∧ ∀ seq, (¬ ∃ ack payload, l.Ledger seq ack payload) → fam seq = other := by
  classical
  refine ⟨fun seq => if hex : ∃ x : ℕ × ServerPayload, l.Ledger seq x.1 x.2 then hex.choose else other,
    fun seq ack payload hl => ?_, fun seq hno => ?_⟩
  · have hex : ∃ x : ℕ × ServerPayload, l.Ledger seq x.1 x.2 := ⟨(ack, payload), hl⟩
    simp only [dif_pos hex]
    exact h.ledger_unique hex.choose_spec hl
  · exact dif_neg fun ⟨x, hx⟩ => hno ⟨x.1, x.2, hx⟩

omit [TerminalState T] in
/-- What the client opens is what the server sealed under that number. -/
theorem Agrees.arrival_ledger (hrt : PacketCodec.RoundTrips sid server client)
    (h : Agrees server client sid l) {bytes : Bytes} {now : Instant} (hb : bytes ∈ l.down) {q : ℕ}
    {payload : ServerPayload} (harr : l.client.arrival (.recv bytes now) = some (q, payload)) :
    ∃ ack, l.Ledger q ack payload := by
  obtain ⟨datagrams, hdown, hcodec⟩ := h.clientCodec
  simp only [MirrorSession.arrival, hcodec] at harr
  split at harr
  · rename_i packet p stats hopen
    cases harr
    by_contra hno
    -- a number that was never sealed could be given any payload, also another than this one
    obtain ⟨fam, hfam, hother⟩ := h.exists_family (packet.ackSeqNum + 1, payload)
    have hsealed : ∀ x ∈ bytes :: datagrams, PacketCodec.Sealed server fam x := by
      intro x hx
      have hx : x ∈ l.down := by
        rcases List.mem_cons.mp hx with rfl | hx
        · exact hb
        · exact hdown x hx
      obtain ⟨seq, ack, p, ds, hl, hseal, hmem⟩ := h.down x hx
      exact ⟨seq, ds, by rw [hfam seq ack p hl]; exact hseal, hmem⟩
    have hround := hrt.openServer fam datagrams bytes packet payload stats hsealed hopen
    by_cases hex : ∃ ack p, l.Ledger packet.seqNum ack p
    · obtain ⟨ack, p, hl⟩ := hex
      rw [hfam _ _ _ hl] at hround
      cases hround
      exact hno ⟨_, hl⟩
    · rw [hother _ hex] at hround
      have := congrArg Prod.fst hround
      simp at this
  · cases harr

omit [TerminalState T] in
/-- A frame the client accepts becomes the state the server pushed. -/
theorem Agrees.accepted_frame (hrt : PacketCodec.RoundTrips sid server client)
    (h : Agrees server client sid l) {bytes : Bytes} {now : Instant} (hb : bytes ∈ l.down) {q : ℕ}
    {update : FrameUpdate} (harr : l.client.arrival (.recv bytes now) = some (q, .frame update))
    (hnew : l.client.ackSeqNum < q) :
    ∃ g, l.client.gridOf (.frame update) = some g ∧ (q, g) ∈ l.server.pushed := by
  obtain ⟨ack, hl⟩ := h.arrival_ledger hrt hb harr
  rcases hl with hl | ⟨job, hj, u, rfl, -, hdiff, heq⟩
  · exact absurd rfl (h.recorded.calls _ hl update)
  · cases heq
    have hmem : (job.seq, job.currentState) ∈ l.server.pushed := by
      rw [h.pushed]
      exact List.mem_map_of_mem hj
    obtain ⟨hwf, hsize⟩ := h.recorded.grids _ hmem
    refine ⟨job.currentState, h.kept.gridOf_frame hdiff hwf hsize (h.jobs job hj).full ?_ hnew, hmem⟩
    intro g hr
    obtain ⟨happ, hlag⟩ := (h.jobs job hj).delta g hr
    have hp := h.applied _ happ
    exact ⟨happ, Nat.one_le_iff_ne_zero.mp (h.recorded.range_pushed hp).1, hlag,
      (h.recorded.grids _ hp).1⟩

omit [TerminalState T] in
/-- The ack of a datagram the server opens. -/
theorem Agrees.known_of_open (hrt : PacketCodec.RoundTrips sid server client)
    (h : Agrees server client sid l) {bytes : Bytes} (hb : bytes ∈ l.up)
    {w : EncryptedClientPacket} {p : ClientPayload} {st : CodecStats}
    (hopen : PacketCodec.openClient l.server.codec bytes = .ok (w, p, st)) : l.Known w.ackSeqNum := by
  obtain ⟨datagrams, session, seq, ack, payload, hs, hseal, hk⟩ := h.up bytes hb
  obtain ⟨ct, stats, hopen'⟩ := hrt.openClient datagrams session seq ack payload bytes hs hseal
  rw [h.serverCodec, hopen'] at hopen
  cases hopen
  exact hk

/-! ### Steps -/

/-- STEP: a turn of the server. The reference of a new frame job is the state of an ack the client sent,
    so the client has applied it. -/
theorem Agrees.serve (hrt : PacketCodec.RoundTrips sid server client) (hterm : GridsWellFormed T)
    (h : Agrees server client sid l) {ev : SessionEvent}
    (hev : ∀ bytes src now echo, ev = .packet bytes src now echo → bytes ∈ l.up)
    (hs : l.serve ev = some l') : Agrees server client sid l' := by
  obtain ⟨⟨s', actions⟩, ht, rfl⟩ := Option.map_eq_some_iff.mp hs
  obtain ⟨s₀, ha, he⟩ := AuthoritativeSession.turn_emits ht
  obtain ⟨calls, hcalls, -, hrange, -, hsend⟩ := he.calls
  have hpushed := he.pushed
  have hcodec : s₀.codec = server := ha.codec.trans h.serverCodec
  rw [ha.sealedCalls] at hcalls
  rw [ha.pushed] at hpushed
  have hg : Grows l { l with
      server := s', down := l.down ++ datagramsOf actions, jobs := l.jobs ++ jobsOf actions } := by
    refine ⟨ha.seqNum ▸ he.seqNum, fun e hmem => ?_, fun e he => he, fun x hx => ?_,
      fun job hj => List.mem_append_left _ hj⟩
    · simp only [hpushed] at hmem
      rcases List.mem_append.mp hmem with hmem | hmem
      · exact .inl hmem
      · obtain ⟨job, hj, rfl⟩ := List.mem_map.mp hmem
        have := (hrange job.seq (List.mem_append_right _ (List.mem_map_of_mem hj))).1
        exact .inr (ha.seqNum ▸ this)
    · simp only [hcalls]
      exact List.mem_append_left _ hx
  have hknown : l.Known s'.clientAckSeq := by
    rw [he.clientAckSeq]
    rcases ha.clientAckSeq with hk | hk | ⟨bytes, src, now, echo, w, p, st, rfl, hopen, hk⟩
    · exact hk ▸ h.clientAck
    · exact hk ▸ h.known_zero
    · exact hk ▸ h.known_of_open hrt (hev _ _ _ _ rfl) hopen
  obtain ⟨datagrams, hdown, hcc⟩ := h.clientCodec
  exact {
    recorded := h.recorded.turn hterm ht
    kept := h.kept
    serverCodec := he.codec.trans hcodec
    sessionId := h.sessionId
    clientCodec := ⟨datagrams, fun b hb => List.mem_append_left _ (hdown b hb), hcc⟩
    pushed := by simp only [hpushed, h.pushed, List.map_append]
    jobs := by
      intro job hj
      rcases List.mem_append.mp hj with hj | hj
      · exact (h.jobs job hj).grow hg
      · have hjob := he.jobs job hj
        refine ⟨hjob.codec.trans (he.codec.trans hcodec), hjob.full, fun g hr => ?_⟩
        obtain ⟨href, hmem, hlag⟩ := hjob.delta g hr
        rw [href] at hmem ⊢
        exact ⟨hknown.2 g (h.recorded.history _ (ha.history _ hmem)), href ▸ hlag⟩
    down := by
      intro b hb
      rcases List.mem_append.mp hb with hb | hb
      · exact (h.down b hb).grow hg
      · obtain ⟨x, hx, ds, hseal, hmem⟩ := hsend b hb
        refine ⟨x.1, x.2.1, x.2.2, ds, .inl ?_, hcodec ▸ hseal, hmem⟩
        simp only [hcalls]
        exact List.mem_append_right _ hx
    up := fun b hb => (h.up b hb).grow hg
    stored := fun n b t hb => (h.stored n b t hb).grow hg
    ack := h.ack.grow hg
    clientAck := hknown.grow hg
    applied := fun e hmem => by
      simp only [hpushed]
      exact List.mem_append_left _ (h.applied e hmem) }

omit [TerminalState T] in
/-- STEP: a frame job is run. -/
theorem Agrees.runJob (h : Agrees server client sid l) {job : UpdateJob C} (hj : job ∈ l.jobs) :
    Agrees server client sid { l with down := l.down ++ jobDatagrams job } := by
  have hg : Grows l { l with down := l.down ++ jobDatagrams job } := .of_eq rfl rfl rfl
  obtain ⟨datagrams, hdown, hcc⟩ := h.clientCodec
  exact { h with
    clientCodec := ⟨datagrams, fun b hb => List.mem_append_left _ (hdown b hb), hcc⟩
    jobs := fun job hj => (h.jobs job hj).grow hg
    down := by
      intro b hb
      rcases List.mem_append.mp hb with hb | hb
      · exact (h.down b hb).grow hg
      · obtain ⟨update, ds, hdiff, hseal, hmem⟩ := mem_jobDatagrams hb
        rw [(h.jobs job hj).codec] at hseal
        exact ⟨_, _, _, ds, .inr ⟨job, hj, update, rfl, rfl, hdiff, rfl⟩, hseal, hmem⟩
    up := fun b hb => (h.up b hb).grow hg
    stored := fun n b t hb => (h.stored n b t hb).grow hg
    ack := h.ack.grow hg
    clientAck := h.clientAck.grow hg }

omit [TerminalState T] in
/-- STEP: a handshake packet of session 0 is sent. -/
theorem Agrees.handshake (h : Agrees server client sid l) {seq cols rows : ℕ} {bytes : Bytes}
    (hseal : PacketCodec.sealClient l.client.codec 0 seq 0 (.handshake 1 cols rows) = .ok bytes) :
    Agrees server client sid { l with up := l.up ++ [bytes] } := by
  have hg : Grows l { l with up := l.up ++ [bytes] } := .of_eq rfl rfl rfl
  obtain ⟨datagrams, hdown, hcc⟩ := h.clientCodec
  exact { h with
    jobs := fun job hj => (h.jobs job hj).grow hg
    down := fun b hb => (h.down b hb).grow hg
    up := by
      intro b hb
      rcases List.mem_append.mp hb with hb | hb
      · exact (h.up b hb).grow hg
      · rw [List.mem_singleton.mp hb]
        exact ⟨datagrams, 0, seq, 0, _, .inl rfl, hcc ▸ hseal, h.known_zero.grow hg⟩
    stored := fun n b t hb => (h.stored n b t hb).grow hg
    ack := h.ack.grow hg
    clientAck := h.clientAck.grow hg }

omit [TerminalState T] in
/-- What the client sends, and keeps for sending again, carries an ack it may send. -/
theorem fromClient_of_sent {u s' : MirrorSession C} {out : List Bytes} (hs : u.Sent s' out)
    {datagrams : List Bytes} (hcodec : u.codec = PacketCodec.fed client datagrams)
    (hsid : u.sessionId = sid) (hknown : l.Known s'.ackSeqNum)
    (hstored : ∀ (n : ℕ) (b : Bytes) (t : Instant), u.unackedPackets[n]? = some (b, t) →
      FromClient client sid l b) :
    (∀ b ∈ out, FromClient client sid l b) ∧
    ∀ (n : ℕ) (b : Bytes) (t : Instant), s'.unackedPackets[n]? = some (b, t) →
      FromClient client sid l b := by
  have hfrom : ∀ q p b, PacketCodec.sealClient u.codec u.sessionId q u.ackSeqNum p = .ok b →
      FromClient client sid l b := by
    intro q p b hseal
    rw [hcodec] at hseal
    exact ⟨datagrams, u.sessionId, q, u.ackSeqNum, p, .inr hsid, hseal, hs.ackSeqNum ▸ hknown⟩
  constructor
  · intro b hb
    rcases hs.out b hb with ⟨n, t, hb⟩ | ⟨q, p, hseal, -⟩
    · exact hstored n b t hb
    · exact hfrom q p b hseal
  · intro n b t hb
    rcases hs.stored n b t hb with ⟨t', hb⟩ | ⟨p, hseal, -⟩
    · exact hstored n b t' hb
    · exact hfrom n p b hseal

omit [TerminalState T] in
/-- What the client accepts is the state the server pushed under that number, or a number under which no
    state was pushed. -/
theorem Agrees.react_applied (hrt : PacketCodec.RoundTrips sid server client)
    (h : Agrees server client sid l) {ev : MirrorEvent}
    (hev : ∀ bytes now, ev = .recv bytes now → bytes ∈ l.down) {s' : MirrorSession C}
    (hstep : l.client.step ev = some s') :
    (∀ e ∈ l.client.applied, e ∈ s'.applied) ∧ (∀ e ∈ s'.applied, e ∈ l.server.pushed) ∧
      s'.ackSeqNum ≤ l.server.seqNum ∧
      ∀ g, (s'.ackSeqNum, g) ∈ l.server.pushed → (s'.ackSeqNum, g) ∈ s'.applied := by
  rcases MirrorSession.step_cases hstep with ⟨hack, -, happ, -⟩ | ⟨q, p, harr, hlt, hack, hcase⟩
  · rw [happ, hack]
    exact ⟨fun e he => he, h.applied, h.ack⟩
  · obtain ⟨bytes, now, rfl⟩ : ∃ bytes now, ev = .recv bytes now := by
      cases ev with
      | recv bytes now => exact ⟨bytes, now, rfl⟩
      | _ => cases harr
    have hb := hev bytes now rfl
    rcases hcase with ⟨hg, -, happ⟩ | ⟨g, hg, -, happ⟩
    · -- no frame: its number was taken by a packet of the server's own
      obtain ⟨ack, hl⟩ := h.arrival_ledger hrt hb harr
      rcases hl with hl | ⟨job, -, u, -, -, -, rfl⟩
      · have hmem : q ∈ l.server.sealedCalls.map Prod.fst :=
          List.mem_map_of_mem (f := Prod.fst) hl
        rw [happ, hack]
        refine ⟨fun e he => he, h.applied,
          (h.recorded.range q (List.mem_append_left _ hmem)).2, fun g hp => ?_⟩
        exact absurd rfl ((List.nodup_append.mp h.recorded.nodup).2.2 q hmem q
          (List.mem_map_of_mem (f := Prod.fst) hp))
      · obtain ⟨g, hg', -⟩ := h.accepted_frame hrt hb harr hlt
        rw [hg] at hg'
        cases hg'
    · cases p with
      | frame update =>
        obtain ⟨g', hg', hp⟩ := h.accepted_frame hrt hb harr hlt
        rw [hg] at hg'
        cases hg'
        rw [happ, hack]
        refine ⟨fun e he => List.mem_append_left _ he, fun e he => ?_,
          (h.recorded.range_pushed hp).2, fun g' hp' => ?_⟩
        · rcases List.mem_append.mp he with he | he
          · exact h.applied e he
          · rw [List.mem_singleton.mp he]
            exact hp
        · rw [h.recorded.pushed_unique hp' hp]
          simp
      | _ => cases hg

omit [TerminalState T] in
/-- What the client sends, it seals after the codec has read the datagram, if one came. -/
theorem Agrees.react_sent (h : Agrees server client sid l) {ev : MirrorEvent}
    (hev : ∀ bytes now, ev = .recv bytes now → bytes ∈ l.down) {s' : MirrorSession C} {out : List Bytes}
    (ht : l.client.turn ev = some (s', out)) :
    ∃ (u : MirrorSession C) (datagrams : List Bytes), u.Sent s' out ∧ (∀ b ∈ datagrams, b ∈ l.down) ∧
      u.codec = PacketCodec.fed client datagrams ∧ u.sessionId = sid ∧
      ∀ (n : ℕ) (b : Bytes) (t : Instant), u.unackedPackets[n]? = some (b, t) →
        ∃ t', l.client.unackedPackets[n]? = some (b, t') := by
  obtain ⟨datagrams, hdown, hcc⟩ := h.clientCodec
  rcases MirrorSession.turn_cases ht with ⟨bytes, now, u, rfl, hu, hs⟩ | ⟨-, hs⟩
  · refine ⟨u, datagrams ++ [bytes], hs, ?_, ?_, hu.sessionId.trans h.sessionId, fun n b t hb => ?_⟩
    · intro b hb
      rcases List.mem_append.mp hb with hb | hb
      · exact hdown b hb
      · rw [List.mem_singleton.mp hb]
        exact hev bytes now rfl
    · rw [hu.codec, hcc]
      simp [PacketCodec.fed, List.foldl_append]
    · rcases hu.unackedPackets with heq | ⟨packet, payload, stats, -, heq⟩
      · exact ⟨t, heq ▸ hb⟩
      · rw [heq, TreeMap.getElem?_filter'] at hb
        exact ⟨t, (Option.filter_eq_some_iff.mp hb).1⟩
  · exact ⟨l.client, datagrams, hs, hdown, hcc, h.sessionId, fun n b t hb => ⟨t, hb⟩⟩

omit [TerminalState T] in
/-- STEP: a turn of the client. -/
theorem Agrees.react (hrt : PacketCodec.RoundTrips sid server client)
    (h : Agrees server client sid l) {ev : MirrorEvent}
    (hev : ∀ bytes now, ev = .recv bytes now → bytes ∈ l.down) (hs : l.react ev = some l') :
    Agrees server client sid l' := by
  obtain ⟨⟨s', out⟩, ht, rfl⟩ := Option.map_eq_some_iff.mp hs
  have hstep : l.client.step ev = some s' := by simp [MirrorSession.step, ht]
  obtain ⟨hgrow, happlied, hack, hknown⟩ := h.react_applied hrt hev hstep
  have hg : Grows l { l with client := s', up := l.up ++ out } :=
    ⟨Nat.le_refl _, fun e he => .inl he, hgrow, fun x hx => hx, fun job hj => hj⟩
  obtain ⟨u, datagrams', hs, hdown', hcodec, hsid, hstored⟩ := h.react_sent hev ht
  obtain ⟨hout, hkeep⟩ := fromClient_of_sent (l := { l with client := s', up := l.up ++ out }) hs
    hcodec hsid ⟨hack, hknown⟩ fun n b t hb => by
      obtain ⟨t', hb⟩ := hstored n b t hb
      exact (h.stored n b t' hb).grow hg
  exact {
    recorded := h.recorded
    kept := h.kept.step hstep
    serverCodec := h.serverCodec
    sessionId := hs.sessionId.trans hsid
    clientCodec := ⟨datagrams', hdown', hs.codec.trans hcodec⟩
    pushed := h.pushed
    jobs := fun job hj => (h.jobs job hj).grow hg
    down := fun b hb => (h.down b hb).grow hg
    up := by
      intro b hb
      rcases List.mem_append.mp hb with hb | hb
      · exact (h.up b hb).grow hg
      · exact hout b hb
    stored := hkeep
    ack := ⟨hack, hknown⟩
    clientAck := h.clientAck.grow hg
    applied := happlied }

theorem Agrees.step (hrt : PacketCodec.RoundTrips sid server client) (hterm : GridsWellFormed T)
    (h : Agrees server client sid l) {ev : LinkEvent} (hs : l.step ev = some l') :
    Agrees server client sid l' := by
  rcases step_cases hs with rfl | ⟨sev, hs, hev⟩ | ⟨job, hj, rfl⟩ | ⟨seq, cols, rows, bytes, hb, rfl⟩ |
    ⟨cev, hs, hev⟩
  · exact h
  · exact h.serve hrt hterm hev hs
  · exact h.runJob hj
  · exact h.handshake hb
  · exact h.react hrt hev hs

theorem agrees_start {c : ℕ} {addr : SocketAddr} {cols rows : ℕ} {now : Instant}
    {s : AuthoritativeSession C T}
    (h : AuthoritativeSession.new sid server c addr cols rows now = .ok s)
    (startServerSeq cols' rows' : ℕ) (overlay : Bool) (now' : Instant) :
    Agrees server client sid
      (start s (MirrorSession.new sid client startServerSeq cols' rows' overlay now')) := by
  obtain ⟨hr, hcodec, hpushed, hack⟩ := recorded_new h
  have hk : ∀ a, a = 0 → Known (start s
      (MirrorSession.new sid client startServerSeq cols' rows' overlay now')) a := by
    rintro _ rfl
    exact ⟨Nat.zero_le _, by simp [start, hpushed]⟩
  exact {
    recorded := hr
    kept := ⟨.nil, by simp [start, MirrorSession.new], by simp [start, MirrorSession.new]⟩
    serverCodec := hcodec
    sessionId := rfl
    clientCodec := ⟨[], by simp, rfl⟩
    pushed := hpushed
    jobs := by simp [start]
    down := by simp [start]
    up := by simp [start]
    stored := by simp [start, MirrorSession.new]
    ack := hk _ rfl
    clientAck := hk _ hack
    applied := by simp [start, MirrorSession.new] }

/-- RUN: over any network, every state the client applies is the state the server pushed under that
    number, the numbers strictly increase, and no frame the client accepts lacks its reference. -/
theorem screens_agree (hrt : PacketCodec.RoundTrips sid server client) (hterm : GridsWellFormed T)
    {c : ℕ} {addr : SocketAddr} {cols rows : ℕ} {now : Instant} {s : AuthoritativeSession C T}
    (hnew : AuthoritativeSession.new sid server c addr cols rows now = .ok s)
    (startServerSeq cols' rows' : ℕ) (overlay : Bool) (now' : Instant) {events : List LinkEvent}
    (hrun : runFrom Link.step
      (start s (MirrorSession.new sid client startServerSeq cols' rows' overlay now')) events = some l) :
    (∀ n g, (n, g) ∈ l.client.applied → ∀ g', (n, g') ∈ l.server.pushed ↔ g' = g) ∧
    l.client.applied.Pairwise (fun e e' => e.1 < e'.1) ∧
    ∀ bytes ∈ l.down, ∀ now q update,
      l.client.arrival (.recv bytes now) = some (q, .frame update) → l.client.ackSeqNum < q →
      l.client.baseFor update ≠ none := by
  have h : Agrees server client sid l := run_invariant_all (fun _ _ _ h => h.step hrt hterm)
    (agrees_start hnew startServerSeq cols' rows' overlay now') hrun
  refine ⟨fun n g hmem g' => ⟨fun hp => ?_, ?_⟩, h.kept.sorted, fun bytes hb now q update harr hlt => ?_⟩
  · exact h.recorded.pushed_unique hp (h.applied _ hmem)
  · rintro rfl
    exact h.applied _ hmem
  · obtain ⟨g, hg, -⟩ := h.accepted_frame hrt hb harr hlt
    intro hnone
    simp [MirrorSession.gridOf, hnone] at hg

theorem textTerminal_wellFormed : GridsWellFormed TextTerminal := by
  rintro t t' g h
  obtain ⟨-, h⟩ := Prod.mk.inj h
  cases h
  exact ⟨t.wellFormed, t.small⟩

/-- The concrete cipher refuses what would need more than 65535 datagrams. -/
theorem length_sealServer_crates (codec : ChaChaCodec Bincode.crates) {seq ack : ℕ}
    {payload : ServerPayload} {datagrams : List Bytes}
    (h : codec.sealServer seq ack payload = .ok datagrams) : datagrams.length ≤ 65535 := by
  obtain ⟨plain, ct, -, hct, hds⟩ := ChaChaCodec.sealServer_eq_ok h
  obtain ⟨rfl, hlen⟩ := Bincode.aeadEncrypt_eq_some (k := codec.crypto.key) (okOr_eq_ok.mp hct)
  rw [← ChaChaCodec.length_of_mapM hds]
  by_cases hl : FRAGMENT_PAYLOAD_SIZE < (Bincode.tag (codec.crypto.makeNonce seq) ++ plain).length
  · rw [length_fragmentPackets hl, fragmentCount, chunkCount, FRAGMENT_PAYLOAD_SIZE]
    rw [List.length_append, Bincode.length_tag]
    omega
  · rw [fragmentPackets, if_pos (Nat.not_lt.mp hl)]
    simp

/-- A full frame, its ack, and a frame relative to it. -/
theorem screens_agree_two_frames :
    ∃ (s : AuthoritativeSession (ChaChaCodec Bincode.crates) TextTerminal) (l : Link _ _),
      AuthoritativeSession.new 7 (ChaChaCodec.new Bincode.crates (Vector.replicate 32 0) 7)
        1 ⟨0, 0⟩ 2 1 0 = .ok s ∧
      runFrom Link.step (start s (MirrorSession.new 7
        (ChaChaCodec.new Bincode.crates (Vector.replicate 32 0) 7) 1 2 1 false 0))
        [.serverTick 0 true, .runJob 0, .deliverDown 0 (millis 40),
          .deliverUp 0 ⟨0, 0⟩ (millis 50) true, .ptyBytes [0x78] (millis 60),
          .serverTick (millis 80) true, .runJob 1, .deliverDown 1 (millis 90)] = some l ∧
      l.jobs.map UpdateJob.refSeq = [0, 1] ∧ l.client.applied.map Prod.fst = [1, 2] ∧
      ∀ n g, (n, g) ∈ l.client.applied → ∀ g', (n, g') ∈ l.server.pushed ↔ g' = g := by
  obtain ⟨s, l, hs, hl, hjobs, happ⟩ :
    ∃ (s : AuthoritativeSession (ChaChaCodec Bincode.crates) TextTerminal) (l : Link _ _),
      AuthoritativeSession.new 7 (ChaChaCodec.new Bincode.crates (Vector.replicate 32 0) 7)
        1 ⟨0, 0⟩ 2 1 0 = .ok s ∧
      runFrom Link.step (start s (MirrorSession.new 7
        (ChaChaCodec.new Bincode.crates (Vector.replicate 32 0) 7) 1 2 1 false 0))
        [.serverTick 0 true, .runJob 0, .deliverDown 0 (millis 40),
          .deliverUp 0 ⟨0, 0⟩ (millis 50) true, .ptyBytes [0x78] (millis 60),
          .serverTick (millis 80) true, .runJob 1, .deliverDown 1 (millis 90)] = some l ∧
      l.jobs.map UpdateJob.refSeq = [0, 1] ∧ l.client.applied.map Prod.fst = [1, 2] :=
    ⟨_, _, rfl, rfl, by decide +kernel, by decide +kernel⟩
  refine ⟨s, l, hs, hl, hjobs, happ, ?_⟩
  exact (screens_agree (ChaChaCodec.roundTrips Bincode.crates_lawful (Vector.replicate 32 0) 7
    fun _ _ _ _ => length_sealServer_crates _) textTerminal_wellFormed hs 1 2 1 false 0 hl).1

end Link

end Rumsh.System
