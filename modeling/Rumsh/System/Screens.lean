import Rumsh.Protocol.RoundTrip
import Rumsh.Client.Staleness
import Rumsh.Server.TextTerminal
import Rumsh.System.Link

/-! The two sides show the same screens.

    Each side keeps its own invariant: `Recorded` says that the server's numbers are all different and
    its history is what it pushed, `Kept` that the client's history is the end of what it applied, in
    increasing order. Together with the acks that travel back they give `Agrees`: a frame's reference is
    a state the client has applied and, at most six numbers later, still holds. -/

namespace Rumsh.System
open Std Rumsh.Schemes Rumsh.Protocol Rumsh.Server Rumsh.Client

/-- Compiled grids have the sizes their dimensions promise, and at most 65536 cells. -/
def GridsWellFormed (T : Type) [TerminalState T] : Prop :=
  ∀ (t t' : T) (g : GridState), TerminalState.updateAndGetState t = (t', .ok g) →
    g.WellFormed ∧ g.cols * g.rows ≤ 2 ^ 16

/-! ### The server's numbers -/

section Recorded
variable {C T : Type}

/-- The numbers a session has taken: for packets of its own, and for frames. -/
def takenNumbers (s : AuthoritativeSession C T) : List ℕ :=
  s.sealedCalls.map Prod.fst ++ s.pushed.map Prod.fst

structure Recorded (s : AuthoritativeSession C T) : Prop where
  nodup : (takenNumbers s).Nodup
  range : ∀ n ∈ takenNumbers s, 1 ≤ n ∧ n ≤ s.seqNum
  calls : ∀ x ∈ s.sealedCalls, ∀ update, x.2.2 ≠ .frame update
  history : ∀ e ∈ s.stateHistory, e ∈ s.pushed
  grids : ∀ e ∈ s.pushed, e.2.WellFormed ∧ e.2.cols * e.2.rows ≤ 2 ^ 16

variable {s s' : AuthoritativeSession C T}

theorem Recorded.range_pushed (h : Recorded s) {e : ℕ × GridState} (he : e ∈ s.pushed) :
    1 ≤ e.1 ∧ e.1 ≤ s.seqNum :=
  h.range _ (List.mem_append_right _ (List.mem_map_of_mem he))

/-- A number has one state. -/
theorem Recorded.pushed_unique (h : Recorded s) {n : ℕ} {g g' : GridState} (hg : (n, g) ∈ s.pushed)
    (hg' : (n, g') ∈ s.pushed) : g = g' := by
  have hnd := (List.nodup_append.mp h.nodup).2.1
  exact congrArg Prod.snd (List.inj_on_of_nodup_map hnd hg hg' rfl)

variable [TerminalState T] [PacketCodec C]

/-- STEP: a turn takes new numbers only, and records the frames it hands out. -/
theorem Recorded.turn (hterm : GridsWellFormed T) (h : Recorded s) {ev : SessionEvent}
    {actions : List (SessionAction C)} (ht : s.turn ev = some (s', actions)) : Recorded s' := by
  obtain ⟨s₀, ha, he⟩ := AuthoritativeSession.turn_emits ht
  obtain ⟨calls, hcalls, hsort, hrange, hcall, -⟩ := he.calls
  rw [ha.sealedCalls] at hcalls
  have hpushed := he.pushed
  rw [ha.pushed] at hpushed
  have hmap : (jobsOf actions).map UpdateJob.seq =
      ((jobsOf actions).map fun job => (job.seq, job.currentState)).map Prod.fst := by
    rw [List.map_map]
    rfl
  have hle : s.seqNum ≤ s'.seqNum := ha.seqNum ▸ he.seqNum
  have hperm : (takenNumbers s').Perm
      (takenNumbers s ++ (calls.map Prod.fst ++ (jobsOf actions).map UpdateJob.seq)) := by
    rw [takenNumbers, takenNumbers, hcalls, hpushed, List.map_append, List.map_append, hmap]
    simp only [List.append_assoc]
    refine List.Perm.append_left _ ?_
    rw [← List.append_assoc, ← List.append_assoc]
    exact List.Perm.append_right _ List.perm_append_comm
  refine ⟨?_, fun n hn => ?_, fun x hx => ?_, fun e hmem => ?_, fun e hmem => ?_⟩
  · rw [hperm.nodup_iff]
    refine List.nodup_append.mpr ⟨h.nodup, hsort.imp Nat.ne_of_lt, fun n hn m hm heq => ?_⟩
    have h₁ := (h.range n hn).2
    have h₂ := (hrange m hm).1
    rw [ha.seqNum] at h₂
    omega
  · rcases List.mem_append.mp (hperm.mem_iff.mp hn) with hn | hn
    · exact ⟨(h.range n hn).1, (h.range n hn).2.trans hle⟩
    · exact ⟨Nat.lt_of_le_of_lt (Nat.zero_le _) (hrange n hn).1, (hrange n hn).2⟩
  · rw [hcalls] at hx
    rcases List.mem_append.mp hx with hx | hx
    · exact h.calls x hx
    · exact (hcall x hx).2
  · rw [hpushed]
    rcases he.history e hmem with hmem | hmem
    · exact List.mem_append_left _ (h.history e (ha.history e hmem))
    · exact List.mem_append_right _ hmem
  · rw [hpushed] at hmem
    rcases List.mem_append.mp hmem with hmem | hmem
    · exact h.grids e hmem
    · obtain ⟨job, hjob, rfl⟩ := List.mem_map.mp hmem
      obtain ⟨t, t', hcomp⟩ := (he.jobs job hjob).compiled
      exact hterm t t' _ hcomp

omit [PacketCodec C] in
theorem recorded_new {sid : ℕ} {codec : C} {c : ℕ} {addr : SocketAddr} {cols rows : ℕ}
    {now : Instant} (h : AuthoritativeSession.new sid codec c addr cols rows now = .ok s) :
    Recorded s ∧ s.codec = codec ∧ s.pushed = [] ∧ s.clientAckSeq = 0 := by
  obtain ⟨t, -, h⟩ := bind_eq_ok.mp h
  cases h
  exact ⟨⟨by simp [takenNumbers], by simp [takenNumbers], by simp, by simp, by simp⟩, rfl, rfl, rfl⟩

end Recorded

/-! ### The client's history -/

section Kept
variable {C : Type}

structure Kept (s : MirrorSession C) : Prop where
  sorted : s.applied.Pairwise fun e e' => e.1 < e'.1
  below : ∀ e ∈ s.applied, e.1 ≤ s.ackSeqNum
  history : s.stateHistory = s.applied.drop (s.applied.length - 200)

variable {s s' : MirrorSession C}

/-- The history keeps the last 200. -/
theorem capHistory_drop (applied : List (ℕ × GridState)) (e : ℕ × GridState) :
    MirrorSession.capHistory (applied.drop (applied.length - 200) ++ [e]) =
      (applied ++ [e]).drop ((applied ++ [e]).length - 200) := by
  unfold MirrorSession.capHistory
  simp only [List.length_append, List.length_drop, List.length_singleton]
  split
  · rename_i hlen
    have hn : applied.length + 1 - 200 = applied.length - 200 + 1 := by omega
    rw [← List.drop_one, ← List.drop_append_of_le_length (by omega), List.drop_drop, hn]
  · rename_i hlen
    have hn : applied.length + 1 - 200 = applied.length - 200 := by omega
    rw [← List.drop_append_of_le_length (by omega), hn]

/-- STEP: frames are applied in increasing order. -/
theorem Kept.step [PacketCodec C] (h : Kept s) {ev : MirrorEvent} (hs : s.step ev = some s') :
    Kept s' := by
  rcases MirrorSession.step_cases hs with ⟨hack, hhist, happ, -⟩ |
    ⟨q, p, -, hlt, hack, ⟨-, hhist, happ⟩ | ⟨g, -, hhist, happ⟩⟩
  · exact ⟨happ ▸ h.sorted, by rw [happ, hack]; exact h.below, by rw [happ, hhist]; exact h.history⟩
  · refine ⟨happ ▸ h.sorted, ?_, by rw [happ, hhist]; exact h.history⟩
    rw [happ, hack]
    exact fun e he => (h.below e he).trans hlt.le
  · refine ⟨?_, ?_, by rw [happ, hhist, h.history, capHistory_drop]⟩
    · rw [happ]
      refine List.pairwise_append.mpr ⟨h.sorted, List.pairwise_singleton _ _, fun e he e' he' => ?_⟩
      rw [List.mem_singleton.mp he']
      exact (h.below e he).trans_lt hlt
    · rw [happ, hack]
      intro e he
      rcases List.mem_append.mp he with he | he
      · exact (h.below e he).trans hlt.le
      · rw [List.mem_singleton.mp he]

/-- Increasing numbers below a bound are few. -/
theorem length_le_of_sorted {l : List (ℕ × GridState)} {a b : ℕ}
    (hsort : l.Pairwise fun e e' => e.1 < e'.1) (hrange : ∀ e ∈ l, a < e.1 ∧ e.1 < a + 1 + b) :
    l.length ≤ b := by
  have hnd : (l.map Prod.fst).Nodup := List.pairwise_map.mpr (hsort.imp Nat.ne_of_lt)
  have hsub : l.map Prod.fst ⊆ List.range' (a + 1) b := by
    intro n hn
    obtain ⟨e, he, rfl⟩ := List.mem_map.mp hn
    have := hrange e he
    rw [List.mem_range'_1]
    omega
  simpa using (hnd.subperm hsub).length_le

/-- A state applied at most six numbers ago is still in the history. -/
theorem Kept.find (h : Kept s) {r q : ℕ} {g : GridState} (hmem : (r, g) ∈ s.applied)
    (hq : s.ackSeqNum < q) (hlag : q ≤ r + 6) :
    s.stateHistory.find? (fun entry => entry.1 == r) = some (r, g) := by
  obtain ⟨pre, post, hsplit⟩ := List.append_of_mem hmem
  have hsort := h.sorted
  rw [hsplit] at hsort
  have hpost := (List.pairwise_append.mp hsort).2.1
  have hlen : post.length ≤ 5 := by
    refine length_le_of_sorted (a := r) (List.pairwise_cons.mp hpost).2 fun e he => ?_
    have hlt := (List.pairwise_cons.mp hpost).1 e he
    have hle := h.below e (by rw [hsplit]; simp [he])
    simp only at hlt
    omega
  have hin : (r, g) ∈ s.stateHistory := by
    rw [h.history, hsplit, List.drop_append_of_le_length (by simp; omega)]
    simp
  cases hf : s.stateHistory.find? (fun entry => entry.1 == r) with
  | none =>
    have := List.find?_eq_none.mp hf _ hin
    simp at this
  | some e =>
    have her : e.1 = r := by simpa using List.find?_some hf
    have hea : e ∈ s.applied := by
      have := List.mem_of_find?_eq_some hf
      rw [h.history] at this
      exact List.mem_of_mem_drop this
    have hnd : (s.applied.map Prod.fst).Nodup := List.pairwise_map.mpr (h.sorted.imp Nat.ne_of_lt)
    rw [List.inj_on_of_nodup_map hnd hea hmem her]

/-- A frame sealed against a state the client holds becomes the server's grid. -/
theorem Kept.gridOf_frame (h : Kept s) {job : UpdateJob C} {update : FrameUpdate}
    (hdiff : job.currentState.diffFrom job.refState job.refSeq job.isEchoRecommended = some update)
    (hwf : job.currentState.WellFormed) (hsize : job.currentState.cols * job.currentState.rows ≤ 2 ^ 16)
    (hfull : job.refState = none → job.refSeq = 0)
    (hdelta : ∀ g, job.refState = some g →
      (job.refSeq, g) ∈ s.applied ∧ job.refSeq ≠ 0 ∧ job.seq ≤ job.refSeq + 6 ∧ g.WellFormed)
    (hnew : s.ackSeqNum < job.seq) : s.gridOf (.frame update) = some job.currentState := by
  have hfields : update.refSeq = job.refSeq ∧ update.cols = job.currentState.cols ∧
      update.rows = job.currentState.rows := by
    obtain ⟨rows, -, heq⟩ := Option.bind_eq_some_iff.mp hdiff
    cases heq
    exact ⟨rfl, rfl, rfl⟩
  obtain ⟨href, hcols, hrows⟩ := hfields
  cases hr : job.refState with
  | none =>
    have hbase : s.baseFor update =
        some (GridState.blank job.currentState.cols job.currentState.rows) := by
      rw [MirrorSession.baseFor, if_pos (href.trans (hfull hr)), hcols, hrows]
    have hpatch := GridState.patch_diffFrom hwf (GridState.blank_wellFormed _ _) hsize
      (.inr ⟨hr, rfl⟩) _ _ hdiff
    simp [MirrorSession.gridOf, hbase, hpatch]
  | some g =>
    obtain ⟨hmem, hne, hlag, hg⟩ := hdelta g hr
    have hbase : s.baseFor update = some g := by
      rw [MirrorSession.baseFor, if_neg (by rw [href]; exact hne), href, h.find hmem hnew hlag]
      rfl
    have hpatch := GridState.patch_diffFrom hwf hg hsize (.inl hr) _ _ hdiff
    simp [MirrorSession.gridOf, hbase, hpatch]

end Kept

end Rumsh.System
