import Rumsh.Schemes.Recent
import Rumsh.Client.Timers

/-! What the loss window records.

    Since it was last reset the window says, of the last hundred numbers below the one expected next,
    which arrived. In-order, early and late packets take different branches; all of them keep the
    record exact. -/

namespace Rumsh.Client
open Rumsh.Schemes Rumsh.Protocol

/-! ### One packet -/

/-- A packet extends the record up to its number, or marks its entry. -/
theorem lossAfter_recent {base expected seq : ℕ} {got got' : ℕ → Bool} (hbase : 0 < base)
    (hle : base ≤ expected) (hold : ∀ n, n ≠ seq → got' n = got n) (hnew : got' seq = true)
    (hgot : ∀ n, expected ≤ n → got n = false) :
    lossAfter (recent 100 base expected got) expected seq =
      (recent 100 base (max expected (seq + 1)) got', max expected (seq + 1)) := by
  have hne : expected ≠ 0 := (hbase.trans_le hle).ne'
  unfold lossAfter
  rw [if_neg hne]
  by_cases hlate : seq < expected
  · rw [if_neg (Nat.not_lt.mpr hlate.le), if_neg hlate.ne, max_eq_left hlate]
    have hfix : MirrorSession.correctLate (recent 100 base expected got) (expected - 1 - seq) =
        recent 100 base expected got' := recent_correct hlate hold hnew
    rw [hfix]
    have hlen : (recent 100 base expected got').length ≤ 100 := by
      rw [length_recent]
      exact min_le_left _ _
    dsimp only
    rw [Nat.sub_eq_zero_of_le hlen, List.drop_zero]
  · have hge : expected ≤ seq := Nat.not_lt.mp hlate
    have hext : (recent 100 base expected got ++
        (List.replicate (seq - expected) false ++ [true])).rtake 100 =
          recent 100 base (seq + 1) got' := by
      refine recent_extend hle hge (fun n _ hn => hold n (hn.trans_le hge).ne) (fun n hn hq => ?_) hnew
      rw [hold n hq.ne, hgot n hn]
    rw [max_eq_right (Nat.le_succ_of_le hge)]
    unfold List.rtake at hext
    by_cases hgap : seq > expected
    · rw [if_pos hgap, List.append_assoc]
      dsimp only
      rw [hext]
    · obtain rfl : seq = expected := Nat.le_antisymm (Nat.not_lt.mp hgap) hge
      rw [if_neg hgap, if_pos rfl]
      rw [Nat.sub_self, List.replicate_zero, List.nil_append] at hext
      dsimp only
      rw [hext]

/-- The window records exactly which of the numbers since `base` arrived; `got` lists the arrivals. -/
structure Exact (r : Reception) (base : ℕ) (got : List ℕ) : Prop where
  window : r.lossWindow = recent 100 base r.expectedServerSeq fun n => decide (n ∈ got)
  base_le : base ≤ r.expectedServerSeq
  below : ∀ n ∈ got, n < r.expectedServerSeq
  last : r.expectedServerSeq = base ∨ ∃ n ∈ got, n + 1 = r.expectedServerSeq

variable {r r' : Reception} {base seq : ℕ} {got got' : List ℕ}

/-- A window that was just reset. -/
theorem Exact.reset (h : r.lossWindow = []) : Exact r r.expectedServerSeq [] :=
  ⟨by simp [h, recent, marks], Nat.le_refl _, by simp, .inl rfl⟩

/-- The record is in two fields of the reception. -/
theorem Exact.congr (h : Exact r base got) (hwin : r'.lossWindow = r.lossWindow)
    (hexp : r'.expectedServerSeq = r.expectedServerSeq) : Exact r' base got :=
  ⟨by rw [hwin, hexp, h.window], hexp ▸ h.base_le, hexp ▸ h.below, hexp ▸ h.last⟩

/-- STEP: a packet keeps the record exact. -/
theorem Exact.note (h : Exact r base got) (hbase : 0 < base)
    (hr : (r'.lossWindow, r'.expectedServerSeq) = lossAfter r.lossWindow r.expectedServerSeq seq) :
    Exact r' base (got ++ [seq]) := by
  have hnote : lossAfter r.lossWindow r.expectedServerSeq seq =
      (recent 100 base (max r.expectedServerSeq (seq + 1)) (fun n => decide (n ∈ got ++ [seq])),
        max r.expectedServerSeq (seq + 1)) := by
    rw [h.window]
    refine lossAfter_recent hbase h.base_le ?_ ?_ ?_
    · intro n hn
      simp [hn]
    · simp
    · intro n hn
      have hnot : n ∉ got := fun hmem => absurd (h.below n hmem) (Nat.not_lt.mpr hn)
      simp [hnot]
  obtain ⟨hwin, hexp⟩ := Prod.mk.inj (hr.trans hnote)
  constructor
  · rw [hwin, hexp]
  · rw [hexp]
    exact h.base_le.trans (le_max_left _ _)
  · intro n hn
    rw [hexp]
    rcases List.mem_append.mp hn with hn | hn
    · exact (h.below n hn).trans_le (le_max_left _ _)
    · rw [List.mem_singleton.mp hn]
      exact (Nat.lt_succ_self seq).trans_le (le_max_right _ _)
  · rw [hexp]
    by_cases hlate : seq + 1 ≤ r.expectedServerSeq
    · rw [max_eq_left hlate]
      exact h.last.imp_right fun ⟨n, hn, he⟩ => ⟨n, List.mem_append_left _ hn, he⟩
    · rw [max_eq_right (Nat.le_of_not_le hlate)]
      exact .inr ⟨seq, by simp, rfl⟩

/-- Silence resets the record to the packet that ends it. -/
theorem Exact.recovered {now : Instant} (hout : now - r.lastRecvTime > secs 5) (hseq : 0 < seq) :
    Exact (r.heard seq now) seq [seq] := by
  have hreset : Exact (r.recovered seq now) seq [] := by
    rw [Reception.recovered, if_pos hout]
    exact .reset rfl
  exact hreset.note hseq rfl

/-- Without such silence the record goes on. -/
theorem Exact.heard {now : Instant} (h : Exact r base got) (hbase : 0 < base)
    (hout : ¬ now - r.lastRecvTime > secs 5) : Exact (r.heard seq now) base (got ++ [seq]) := by
  have hsame : r.recovered seq now = r := if_neg hout
  refine h.note hbase ?_
  rw [Reception.heard, hsame]

/-- The number expected next depends only on which numbers arrived. -/
theorem Exact.expected_le (h : Exact r base got) (h' : Exact r' base got') (hsub : ∀ n ∈ got', n ∈ got) :
    r'.expectedServerSeq ≤ r.expectedServerSeq := by
  rcases h'.last with he | ⟨n, hn, he⟩
  · rw [he]
    exact h.base_le
  · rw [← he]
    exact h.below n (hsub n hn)

/-- The window depends only on which numbers arrived, not on their order. -/
theorem Exact.unique (h : Exact r base got) (h' : Exact r' base got') (hset : ∀ n, n ∈ got' ↔ n ∈ got) :
    r'.lossWindow = r.lossWindow := by
  have hexp : r'.expectedServerSeq = r.expectedServerSeq :=
    Nat.le_antisymm (h.expected_le h' fun n => (hset n).mp) (h'.expected_le h fun n => (hset n).mpr)
  rw [h.window, h'.window, hexp]
  simp only [hset]

/-! ### Runs -/

/-- A session, the number its loss window was last reset to, and what arrived since. -/
structure Gauged (C : Type) where
  session : MirrorSession C
  base : ℕ
  got : List ℕ

namespace Gauged
variable {C : Type} [PacketCodec C]

/-- The session expects the number of the handshake's reply. -/
def start (session : MirrorSession C) : Gauged C := ⟨session, session.expectedServerSeq, []⟩

/-- More than 5 s of silence reset the window to the packet that ends them. -/
def noted (w : Gauged C) : MirrorEvent → ℕ × List ℕ
  | .recv bytes now =>
    match w.session.arrival (.recv bytes now) with
    | some (q, _) => if w.session.isRecovering now then (q, [q]) else (w.base, w.got ++ [q])
    | none => (w.base, w.got)
  | _ => (w.base, w.got)

def step (w : Gauged C) (ev : MirrorEvent) : Option (Gauged C) :=
  (w.session.step ev).map fun session =>
    { session, base := (w.noted ev).1, got := (w.noted ev).2 }

/-- A record that begins at a number of the server, which numbers from 1, is exact. -/
def Recorded (w : Gauged C) : Prop := 0 < w.base → Exact w.session.reception w.base w.got

variable {w w' : Gauged C} {ev : MirrorEvent}

omit [PacketCodec C] in
theorem recorded_start (sid : ℕ) (codec : C) (startServerSeq cols rows : ℕ) (overlay : Bool)
    (now : Instant) :
    Recorded (start (MirrorSession.new sid codec startServerSeq cols rows overlay now)) :=
  fun _ => Exact.reset rfl

/-- STEP: every event keeps the record exact. -/
theorem Recorded.step (h : Recorded w) (hs : w.step ev = some w') : Recorded w' := by
  obtain ⟨s', hs', rfl⟩ := Option.map_eq_some_iff.mp hs
  intro hbase
  obtain ⟨now, rfl, hrec⟩ | ⟨bytes, now, q, p, rfl, harr, hrec⟩ | ⟨hev, harr, hrec⟩ :=
    MirrorSession.step_reception hs'
  · obtain ⟨-, hwindow, hexpected⟩ := w.session.reception.atTick_heard now
    rw [hrec]
    split
    · exact (h hbase).congr hwindow hexpected
    · exact h hbase
  · have hheard : Exact (w.session.reception.heard q now) (w.noted (.recv bytes now)).1
        (w.noted (.recv bytes now)).2 := by
      simp only [noted, harr] at hbase ⊢
      by_cases hout : now - w.session.lastRecvTime > secs 5
      · have hrecover : w.session.isRecovering now = true := decide_eq_true hout
        rw [if_pos hrecover] at hbase ⊢
        exact Exact.recovered hout hbase
      · have hrecover : ¬ w.session.isRecovering now = true := by
          simpa [MirrorSession.isRecovering] using hout
        rw [if_neg hrecover] at hbase ⊢
        exact (h hbase).heard hbase hout
    rw [hrec]
    split
    · exact hheard
    · exact hheard.congr rfl rfl
  · have hsame : w.noted ev = (w.base, w.got) := by
      cases ev <;> simp [noted, harr]
    simp only [hsame] at hbase ⊢
    rw [hrec]
    exact h hbase

theorem run_recorded {sid : ℕ} {codec : C} {startServerSeq cols rows : ℕ} {overlay : Bool}
    {now : Instant} {events : List MirrorEvent}
    (hrun : runFrom step (start (.new sid codec startServerSeq cols rows overlay now)) events =
      some w) : Recorded w :=
  run_invariant_all (fun _ _ _ h => Recorded.step h) (recorded_start _ _ _ _ _ _ _) hrun

/-- RUN: since the last reset the window is an exact record of the last hundred numbers below the one
    expected next, and it is the same after any other run in which the same numbers arrived since a
    reset to the same number. -/
theorem loss_window_exact {sid : ℕ} {codec : C} {startServerSeq cols rows : ℕ} {overlay : Bool}
    {now : Instant} {events : List MirrorEvent} {w : Gauged C}
    (hrun : runFrom step (start (.new sid codec startServerSeq cols rows overlay now)) events = some w)
    (hbase : 0 < w.base) :
    let window := w.session.lossWindow
    let expected := w.session.expectedServerSeq
    window.length = min 100 (expected - w.base) ∧
    (∀ n, expected - window.length ≤ n → n < expected →
      window[n - (expected - window.length)]? = some (decide (n ∈ w.got))) ∧
    ∀ (sid' : ℕ) (codec' : C) (startServerSeq' cols' rows' : ℕ) (overlay' : Bool) (now' : Instant)
      (events' : List MirrorEvent) (w' : Gauged C),
      runFrom step (start (.new sid' codec' startServerSeq' cols' rows' overlay' now')) events' =
        some w' →
      w'.base = w.base → (∀ n, n ∈ w'.got ↔ n ∈ w.got) → w'.session.lossWindow = window := by
  have hexact : Exact w.session.reception w.base w.got :=
    run_recorded hrun hbase
  have hwin : w.session.lossWindow =
      recent 100 w.base w.session.expectedServerSeq fun n => decide (n ∈ w.got) := hexact.window
  have hlen : w.session.lossWindow.length = min 100 (w.session.expectedServerSeq - w.base) := by
    rw [hwin, length_recent]
  refine ⟨hlen, ?_, ?_⟩
  · intro n hn hlt
    rw [hlen] at hn ⊢
    rw [hwin]
    exact getElem?_recent hexact.base_le hn hlt
  · intro sid' codec' startServerSeq' cols' rows' overlay' now' events' w' hrun' hsame hset
    have hexact' : Exact w'.session.reception w'.base w'.got :=
      run_recorded hrun' (hsame ▸ hbase)
    rw [hsame] at hexact'
    exact hexact.unique hexact' hset

/-- Three replies to keepalives, the second one last. -/
theorem loss_window_exact_reordered :
    ∃ (d₁ d₂ d₃ : Bytes) (w : Gauged (ChaChaCodec Bincode.crates)),
      MirrorSession.oneCell.codec.sealServer 1 1 .keepAlive = .ok [d₁] ∧
      MirrorSession.oneCell.codec.sealServer 2 1 .keepAlive = .ok [d₂] ∧
      MirrorSession.oneCell.codec.sealServer 3 1 .keepAlive = .ok [d₃] ∧
      runFrom step (start .oneCell) [.recv d₁ 1, .recv d₃ 2, .recv d₂ 3] = some w ∧ w.base = 1 ∧
      w.session.lossWindow.length = min 100 (w.session.expectedServerSeq - w.base) := by
  obtain ⟨d₁, d₂, d₃, w, h₁, h₂, h₃, hrun, hbase⟩ :
      ∃ (d₁ d₂ d₃ : Bytes) (w : Gauged (ChaChaCodec Bincode.crates)),
        MirrorSession.oneCell.codec.sealServer 1 1 .keepAlive = .ok [d₁] ∧
        MirrorSession.oneCell.codec.sealServer 2 1 .keepAlive = .ok [d₂] ∧
        MirrorSession.oneCell.codec.sealServer 3 1 .keepAlive = .ok [d₃] ∧
        runFrom step (start .oneCell) [.recv d₁ 1, .recv d₃ 2, .recv d₂ 3] = some w ∧ w.base = 1 :=
    ⟨_, _, _, _, rfl, rfl, rfl, rfl, rfl⟩
  exact ⟨d₁, d₂, d₃, w, h₁, h₂, h₃, hrun, hbase, (loss_window_exact hrun (hbase ▸ Nat.one_pos)).1⟩

end Gauged

end Rumsh.Client
