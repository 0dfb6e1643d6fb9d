import Rumsh.Schemes.Recent
import Rumsh.Server.Updates

/-! What the adapter sends again.

    A frame of several datagrams is remembered when its job ends, among the last four, and a NACK is
    answered from there. Over a whole run the jobs that end carry increasing numbers, so the cache is a
    window of the frames sent: a NACK for one of them gets exactly the datagrams it lacks, and nothing
    but datagrams that were sent before. -/

namespace Rumsh.Server
open Rumsh.Schemes Rumsh.Protocol

namespace ServerNode
variable {C T : Type} [PacketCodec C]

/-! ### The frames that were sent -/

/-- The datagrams of a job that went well. -/
def packetsOf (job : UpdateJob C) : List Bytes :=
  match job.run with
  | some (.ok packets) => packets
  | _ => []

/-- The entry of a job in the cache: its number and its datagrams, if there are several. -/
def fragmented (job : UpdateJob C) : Option (ℕ × List Bytes) :=
  if (packetsOf job).length > 1 then some (job.seq, packetsOf job) else none

/-- All entries there ever were. -/
def sentFrames (n : ServerNode C T) : List (ℕ × List Bytes) := n.ran.filterMap fragmented

theorem fragmented_eq_some {job : UpdateJob C} {e : ℕ × List Bytes} (h : fragmented job = some e) :
    e = (job.seq, packetsOf job) ∧ 1 < (packetsOf job).length := by
  unfold fragmented at h
  split at h
  · rename_i hlen
    exact ⟨(Option.some.inj h).symm, hlen⟩
  · cases h

/-- A job's entry goes to the end of the last four. -/
theorem cacheFragments_eq (jobs : List (UpdateJob C)) (job : UpdateJob C) :
    cacheFragments ((jobs.filterMap fragmented).rtake 4) job.seq (packetsOf job) =
      ((jobs ++ [job]).filterMap fragmented).rtake 4 := by
  unfold cacheFragments
  rw [List.filterMap_append]
  split
  · rename_i hlen
    have hone : [job].filterMap fragmented = [(job.seq, packetsOf job)] := by simp [fragmented, hlen]
    rw [hone]
    exact rtake_push (by decide) _ _
  · rename_i hlen
    have hnone : [job].filterMap fragmented = [] := by simp [fragmented, hlen]
    rw [hnone, List.append_nil]

omit [PacketCodec C] in
/-- Of the jobs handed over at once, the first starts if none is running. -/
theorem started_of_executeActions (actions : List (SessionAction C)) (n : ServerNode C T) :
    (n.executeActions actions).started =
      n.started ++ if n.diffInFlight.isSome then [] else (jobsOf actions).take 1 := by
  induction actions generalizing n with
  | nil => simp [executeActions]
  | cons a rest ih =>
    have hcons : jobsOf (a :: rest) = jobsOf [a] ++ jobsOf rest := jobsOf_append [a] rest
    show ((n.executeAction a).executeActions rest).started = _
    rw [ih, hcons]
    cases a with
    | offloadDiffJob job target =>
      cases hflight : n.diffInFlight with
      | some running => simp [executeAction, hflight]
      | none => simp [executeAction, hflight, started, jobsOf]
    | sendPacket bytes target => rfl
    | resendFragments frameSeq mask target => rfl
    | shutdown => rfl

omit [PacketCodec C] in
theorem fragmentCache_executeActions (actions : List (SessionAction C)) (n : ServerNode C T) :
    (n.executeActions actions).fragmentCache = n.fragmentCache := by
  induction actions generalizing n with
  | nil => rfl
  | cons a rest ih =>
    refine (ih (n.executeAction a)).trans ?_
    cases a with
    | offloadDiffJob job target =>
      simp only [executeAction]
      split <;> rfl
    | _ => rfl

/-! ### The invariant -/

/-- The jobs that were started carry increasing numbers of the session's, those that are done were sent,
    and the cache is the last four of their entries. -/
structure Caching (n : ServerNode C T) : Prop where
  increasing : (n.started.map UpdateJob.seq).Pairwise (· < ·)
  taken : ∀ job ∈ n.started, job.seq ≤ n.session.seqNum
  cache : n.fragmentCache = n.sentFrames.rtake 4
  sent : ∀ job ∈ n.ran, ∀ b ∈ packetsOf job, ∃ target, (b, target) ∈ n.sent

variable {n n' : ServerNode C T}

theorem caching_start (s : AuthoritativeSession C T) : Caching (start s) :=
  ⟨.nil, by simp [started, start], rfl, by simp [start]⟩

/-- The actions of a session step are carried out: a job that starts has a new number. -/
theorem Caching.execute (h : Caching n) {session : AuthoritativeSession C T}
    {actions : List (SessionAction C)} (hle : n.session.seqNum ≤ session.seqNum)
    (hsort : ((jobsOf actions).map UpdateJob.seq).Pairwise (· < ·))
    (hnew : ∀ job ∈ jobsOf actions, n.session.seqNum < job.seq ∧ job.seq ≤ session.seqNum) :
    Caching ({ n with session := session }.executeActions actions) := by
  obtain ⟨h₁, h₂, h₃⟩ := executeActions_frame actions { n with session := session }
  have hstarted := started_of_executeActions actions { n with session := session }
  have hcache := fragmentCache_executeActions actions { n with session := session }
  have hsub : ∀ job ∈ (if n.diffInFlight.isSome then [] else (jobsOf actions).take 1),
      job ∈ jobsOf actions := by
    intro job hj
    split at hj
    · cases hj
    · exact List.mem_of_mem_take hj
  refine ⟨?_, fun job hj => ?_, ?_, fun job hj b hb => ?_⟩
  · rw [hstarted, List.map_append]
    refine List.pairwise_append.mpr ⟨h.increasing, ?_, fun a ha b hb => ?_⟩
    · split
      · exact .nil
      · exact hsort.sublist ((List.take_sublist 1 _).map _)
    · obtain ⟨job, hj, rfl⟩ := List.mem_map.mp ha
      obtain ⟨job', hj', rfl⟩ := List.mem_map.mp hb
      exact (h.taken job hj).trans_lt (hnew job' (hsub job' hj')).1
  · rw [h₁]
    rw [hstarted] at hj
    rcases List.mem_append.mp hj with hj | hj
    · exact (h.taken job hj).trans hle
    · exact (hnew job (hsub job hj)).2
  · rw [hcache, sentFrames, h₂]
    exact h.cache
  · rw [h₂] at hj
    obtain ⟨target, ht⟩ := h.sent job hj b hb
    exact ⟨target, h₃ _ ht⟩

variable [TerminalState T]

omit [TerminalState T] in
/-- The end of a job's task. -/
theorem Caching.finishJob (h : Caching n) : Caching n.finishJob := by
  unfold ServerNode.finishJob
  split
  · exact h
  · rename_i job target hflight
    have hstarted : n.started = n.ran ++ [job] := by simp [started, hflight]
    split
    · exact h
    · -- a job that fails is forgotten
      have hran : n.ran.Sublist n.started := hstarted ▸ List.sublist_append_left _ _
      refine ⟨?_, fun j hj => ?_, h.cache, h.sent⟩
      · simpa [started] using h.increasing.sublist (hran.map _)
      · exact h.taken j (hran.subset (by simpa [started] using hj))
    · rename_i packets hrun
      have hpackets : packetsOf job = packets := by simp [packetsOf, hrun]
      refine ⟨?_, fun j hj => ?_, ?_, fun j hj b hb => ?_⟩
      · simpa [started, hflight] using h.increasing
      · exact h.taken j (by simpa [started, hflight] using hj)
      · simp only [sentFrames]
        rw [h.cache, ← hpackets]
        exact cacheFragments_eq n.ran job
      · rcases List.mem_append.mp hj with hj | hj
        · obtain ⟨t, ht⟩ := h.sent j hj b hb
          exact ⟨t, List.mem_append_left _ ht⟩
        · obtain rfl := List.mem_singleton.mp hj
          rw [hpackets] at hb
          exact ⟨target, List.mem_append_right _ (List.mem_map_of_mem (f := fun bytes => (bytes, target)) hb)⟩

/-- What a turn of the session hands out is numbered above what was taken before. -/
theorem jobs_of_turn {s s' : AuthoritativeSession C T} {ev : SessionEvent}
    {actions : List (SessionAction C)} (h : s.turn ev = some (s', actions)) :
    s.seqNum ≤ s'.seqNum ∧ ((jobsOf actions).map UpdateJob.seq).Pairwise (· < ·) ∧
      ∀ job ∈ jobsOf actions, s.seqNum < job.seq ∧ job.seq ≤ s'.seqNum := by
  obtain ⟨s₀, ha, he⟩ := AuthoritativeSession.turn_emits h
  obtain ⟨calls, -, hsort, hrange, -⟩ := he.calls
  rw [← ha.seqNum]
  refine ⟨he.seqNum, (List.pairwise_append.mp hsort).2.1, fun job hj => ?_⟩
  exact hrange job.seq (List.mem_append_right _ (List.mem_map_of_mem hj))

/-- STEP: every turn of a task keeps the cache. -/
theorem Caching.step (h : Caching n) {ev : Event} (hs : n.step ev = some n') : Caching n' := by
  cases ev with
  | ptyBytes data now =>
    cases hs
    exact ⟨h.increasing, h.taken, h.cache, h.sent⟩
  | tick now echo =>
    simp only [ServerNode.step] at hs
    split at hs
    · cases hs
      exact h
    · cases hs
      have hturn : n.session.turn (.tick now echo) = some (n.session.onTick now echo) := rfl
      obtain ⟨hle, hsort, hnew⟩ := jobs_of_turn hturn
      exact h.execute hle hsort hnew
  | recv bytes src now echo =>
    have hturn : ∀ {session r}, n.session.feedPacket bytes src now echo = some (session, r) →
        n.session.turn (.packet bytes src now echo) = some (session, actionsOf r) := by
      intro session r hfeed
      simp [AuthoritativeSession.turn, hfeed]
    simp only [ServerNode.step] at hs
    split at hs
    · cases hs
    · rename_i session actions hfeed
      cases hs
      obtain ⟨hle, hsort, hnew⟩ := jobs_of_turn (hturn hfeed)
      exact h.execute hle hsort hnew
    · rename_i session e hfeed
      cases hs
      obtain ⟨hle, -, -⟩ := jobs_of_turn (hturn hfeed)
      exact ⟨h.increasing, fun job hj => (h.taken job hj).trans hle, h.cache, h.sent⟩
  | jobDone =>
    cases hs
    exact h.finishJob

/-! ### Answers to a NACK -/

omit [TerminalState T] in
/-- The entries are sorted by number. -/
theorem Caching.sorted (h : Caching n) : n.sentFrames.Pairwise fun e e' => e.1 < e'.1 := by
  have hran : (n.ran.map UpdateJob.seq).Pairwise (· < ·) :=
    h.increasing.sublist ((List.sublist_append_left _ _).map _)
  refine List.Pairwise.filterMap fragmented ?_ (List.pairwise_map.mp hran)
  intro job job' hlt e he e' he'
  rw [(fragmented_eq_some he).1, (fragmented_eq_some he').1]
  exact hlt

omit [TerminalState T] in
/-- The number of a frame finds its entry, as long as it is among the last four. -/
theorem Caching.find (h : Caching n) {e : ℕ × List Bytes} (he : e ∈ n.sentFrames) :
    (n.fragmentCache.find? fun entry => entry.1 == e.1) =
      if (n.sentFrames.filter fun e' => e.1 < e'.1).length < 4 then some e else none := by
  have hnodup : (n.sentFrames.map Prod.fst).Nodup := List.pairwise_map.mpr (h.sorted.imp Nat.ne_of_lt)
  have hsub : n.fragmentCache ⊆ n.sentFrames := by
    rw [h.cache]
    exact (List.drop_suffix _ _).subset
  have hiff : e ∈ n.fragmentCache ↔ (n.sentFrames.filter fun e' => e.1 < e'.1).length < 4 := by
    rw [h.cache]
    exact mem_rtake_iff h.sorted he
  split
  · rename_i hlast
    cases hf : n.fragmentCache.find? fun entry => entry.1 == e.1 with
    | none =>
      have := List.find?_eq_none.mp hf e (hiff.mpr hlast)
      simp at this
    | some e' =>
      have hkey : e'.1 = e.1 := by simpa using List.find?_some hf
      rw [List.inj_on_of_nodup_map hnodup (hsub (List.mem_of_find?_eq_some hf)) he hkey]
  · rename_i hlast
    refine List.find?_eq_none.mpr fun e' he' hkey => hlast (hiff.mp ?_)
    have hkey : e'.1 = e.1 := by simpa using hkey
    exact List.inj_on_of_nodup_map hnodup (hsub he') he hkey ▸ he'

omit [TerminalState T] in
/-- What is found was sent. -/
theorem Caching.of_mem (h : Caching n) {e : ℕ × List Bytes} (he : e ∈ n.fragmentCache) :
    ∃ job ∈ n.ran, fragmented job = some e := by
  rw [h.cache] at he
  exact List.mem_filterMap.mp ((List.drop_suffix _ _).subset he)

end ServerNode

end Rumsh.Server
