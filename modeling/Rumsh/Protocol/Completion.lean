import Rumsh.Protocol.RoundTrip

/-! The newest frame always completes.

    Whatever pieces of older frames lie in the buffer or arrive in between, the fragments of a frame with
    a higher number are neither superseded nor crowded out: once each of them has arrived, in any order,
    the frame comes out. -/

namespace Rumsh.Protocol
open Std Rumsh.Schemes PacketCodec

namespace PacketCodec
variable {C : Type} [PacketCodec C]

/-- A datagram of the payload the server sealed under this number. -/
def SealedAt (server : C) (fam : ℕ → ℕ × ServerPayload) (seq : ℕ) (bytes : Bytes) : Prop :=
  ∃ datagrams, sealServer server seq (fam seq).1 (fam seq).2 = .ok datagrams ∧ bytes ∈ datagrams

/-- The codec delivers: after older datagrams, once all datagrams of a payload are among those that
    arrive, and none of a newer one is, one arrival returns the payload. -/
def Delivers (server client : C) : Prop :=
  ∀ fam seq before after datagrams,
    (∀ x ∈ before, ∃ q < seq, SealedAt server fam q x) →
    (∀ x ∈ after, ∃ q ≤ seq, SealedAt server fam q x) →
    sealServer server seq (fam seq).1 (fam seq).2 = .ok datagrams → (∀ d ∈ datagrams, d ∈ after) →
    ∃ pre x post packet stats, after = pre ++ x :: post ∧
      (openServer (fed client (before ++ pre)) x).2 = .ok (some (packet, (fam seq).2, stats)) ∧
      packet.seqNum = seq

end PacketCodec

namespace ChaChaCodec
variable {cr : Crates} {server : ChaChaCodec cr} {fam : ℕ → ℕ × ServerPayload} {seq : ℕ} {ct : Bytes}

/-! ### Datagrams -/

/-- The number in a datagram's header is the one it was sealed under. -/
theorem seqNum_of_sealedAt (hcr : cr.Lawful) {q : ℕ} {bytes : Bytes} (h : SealedAt server fam q bytes) :
    ∃ pkt, deserialize cr.serverPacket bytes = .ok pkt ∧ pkt.seqNum = q := by
  obtain ⟨datagrams, hseal, hmem⟩ := h
  obtain ⟨plain, ct, -, -, hmap⟩ := sealServer_eq_ok hseal
  obtain ⟨pkt, hpkt, hdes⟩ := deserialize_mem_fragmentPackets hcr hmap hmem
  refine ⟨pkt, hdes, ?_⟩
  unfold fragmentPackets at hpkt
  split at hpkt
  · rw [List.mem_singleton.mp hpkt]
  · obtain ⟨x, -, rfl⟩ := List.mem_map.mp hpkt
    rfl

/-- STEP: an older datagram leaves the newest frame alone. -/
theorem newest_older (hcr : cr.Lawful) {c : ChaChaCodec cr} {got : ℕ → Prop}
    (h : FragmentBuffer.Newest seq ct got c.fragmentBuffer) {q : ℕ} (hq : q < seq) {bytes : Bytes}
    (hb : SealedAt server fam q bytes) :
    FragmentBuffer.Newest seq ct got (c.openServer bytes).1.fragmentBuffer := by
  obtain ⟨pkt, hdes, hnum⟩ := seqNum_of_sealedAt hcr hb
  rw [(openServer_eq hdes).1]
  exact h.insert_older (hnum.trans_lt hq) bytes.length

/-- RUN: older datagrams leave room for the newest frame. -/
theorem fed_newest (hcr : cr.Lawful) {got : ℕ → Prop} (before : List Bytes) {c : ChaChaCodec cr}
    (h : FragmentBuffer.Newest seq ct got c.fragmentBuffer)
    (hb : ∀ x ∈ before, ∃ q < seq, SealedAt server fam q x) :
    FragmentBuffer.Newest seq ct got (fed c before).fragmentBuffer := by
  induction before generalizing c with
  | nil => exact h
  | cons x before ih =>
    obtain ⟨q, hq, hx⟩ := hb x (List.mem_cons_self ..)
    exact ih (newest_older hcr h hq hx) fun y hy => hb y (List.mem_cons_of_mem _ hy)

theorem crypto_openServer (c : ChaChaCodec cr) (bytes : Bytes) :
    (c.openServer bytes).1.crypto = c.crypto := (sameKeys_openServer c bytes).1

/-- RUN: while fragments of the newest frame are missing and all of those are still to come, one of the
    arrivals completes it. The induction is over the arrivals; `got` grows with each fragment. -/
theorem completes_newest (hcr : cr.Lawful) {plain : Bytes} {datagrams : List Bytes}
    (hplain : serializeCompressed cr cr.serverPayload (fam seq).2 = .ok plain)
    (hct : server.crypto.encrypt cr seq plain = .ok ct)
    (hmap : (fragmentPackets seq (fam seq).1 ct).mapM (serialize cr.serverPacket) = .ok datagrams)
    (hseal : server.sealServer seq (fam seq).1 (fam seq).2 = .ok datagrams)
    (hlong : FRAGMENT_PAYLOAD_SIZE < ct.length) (hmax : fragmentCount ct ≤ 65535) :
    ∀ (after : List Bytes) {c : ChaChaCodec cr} {got : ℕ → Prop}, c.crypto = server.crypto →
      FragmentBuffer.Newest seq ct got c.fragmentBuffer →
      (∀ x ∈ after, ∃ q ≤ seq, SealedAt server fam q x) →
      (∃ i < fragmentCount ct, ¬ got i) →
      (∀ i < fragmentCount ct, got i ∨
        ∃ x ∈ after, deserialize cr.serverPacket x = .ok (fragment seq (fam seq).1 ct i)) →
      ∃ pre x post packet stats, after = pre ++ x :: post ∧
        ((fed c pre).openServer x).2 = .ok (some (packet, (fam seq).2, stats)) ∧ packet.seqNum = seq
  | [], c, got, _, _, _, ⟨i, hi, hnot⟩, hcome => by
      rcases hcome i hi with hgot | ⟨x, hx, -⟩
      · exact absurd hgot hnot
      · cases hx
  | x :: after, c, got, hk, hnew, hsealed, hmiss, hcome => by
      obtain ⟨q, hq, hx⟩ := hsealed x (List.mem_cons_self ..)
      have hrest : ∀ y ∈ after, ∃ q ≤ seq, SealedAt server fam q y :=
        fun y hy => hsealed y (List.mem_cons_of_mem _ hy)
      have hk' : (c.openServer x).1.crypto = server.crypto := (crypto_openServer c x).trans hk
      have hlater : (∃ pre y post packet stats, after = pre ++ y :: post ∧
          ((fed (c.openServer x).1 pre).openServer y).2 = .ok (some (packet, (fam seq).2, stats)) ∧
            packet.seqNum = seq) →
          ∃ pre y post packet stats, x :: after = pre ++ y :: post ∧
            ((fed c pre).openServer y).2 = .ok (some (packet, (fam seq).2, stats)) ∧
              packet.seqNum = seq := by
        rintro ⟨pre, y, post, packet, stats, rfl, hopen, hnum⟩
        exact ⟨x :: pre, y, post, packet, stats, rfl, hopen, hnum⟩
      rcases Nat.lt_or_eq_of_le hq with hlt | heq
      · refine hlater (completes_newest hcr hplain hct hmap hseal hlong hmax after hk'
          (newest_older hcr hnew hlt hx) hrest hmiss fun i hi => ?_)
        rcases hcome i hi with hgot | ⟨y, hy, hdes⟩
        · exact .inl hgot
        · rcases List.mem_cons.mp hy with rfl | hy
          · -- the older datagram is no fragment of the newest frame
            obtain ⟨pkt, hdes', hnum⟩ := seqNum_of_sealedAt hcr hx
            rw [hdes] at hdes'
            cases hdes'
            exact absurd hnum (Nat.ne_of_gt hlt)
          · exact .inr ⟨y, hy, hdes⟩
      · rw [heq] at hx
        obtain ⟨datagrams', hseal', hmem⟩ := hx
        rw [Except.ok.inj (hseal'.symm.trans hseal)] at hmem
        obtain ⟨i, hi, hdes⟩ := fragment_of_mem hcr hlong hmax hmap hmem
        by_cases hall : ∀ j < fragmentCount ct, j = i ∨ got j
        · obtain ⟨len, hins⟩ := hnew.insert_last (fam seq).1 hlong hi hall x.length
          obtain ⟨stats, hopen⟩ := openServer_of_insert hcr hk hplain hct hdes rfl hins
          exact ⟨[], x, after, _, stats, rfl, hopen, rfl⟩
        · have hnext := hnew.insert_missing (fam seq).1 hlong hi hall x.length
          rw [← (openServer_eq hdes).1] at hnext
          refine hlater (completes_newest hcr hplain hct hmap hseal hlong hmax after hk' hnext hrest
            ?_ fun j hj => ?_)
          · obtain ⟨j, hj, hnot⟩ := not_forall.mp hall |>.imp fun j hj => Classical.not_imp.mp hj
            exact ⟨j, hj, hnot⟩
          · rcases hcome j hj with hgot | ⟨y, hy, hdes'⟩
            · exact .inl (.inr hgot)
            · rcases List.mem_cons.mp hy with rfl | hy
              · rw [hdes] at hdes'
                exact .inl (.inl (fragment_inj.mp (Except.ok.inj hdes')).symm)
              · exact .inr ⟨y, hy, hdes'⟩

/-- COMPLETION: the codec of a lawful session delivers, as long as nothing it seals needs more than
    65535 datagrams. -/
theorem delivers (hcr : cr.Lawful) (key : Key) (sid : ℕ)
    (hfit : ∀ seq ack payload datagrams,
      (ChaChaCodec.new cr key sid).sealServer seq ack payload = .ok datagrams →
      datagrams.length ≤ 65535) :
    Delivers (ChaChaCodec.new cr key sid) (ChaChaCodec.new cr key sid) := by
  intro fam seq before after datagrams hbefore hafter hseal hall
  obtain ⟨plain, ct, hplain, hct, hmap⟩ := sealServer_eq_ok hseal
  have hmax := fragmentCount_le hmap (hfit _ _ _ _ hseal)
  have hk : (fed (ChaChaCodec.new cr key sid) before).crypto = (ChaChaCodec.new cr key sid).crypto :=
    (sameKeys_fed _ before).1
  have hfed : ∀ pre, fed (ChaChaCodec.new cr key sid) (before ++ pre) =
      fed (fed (ChaChaCodec.new cr key sid) before) pre := fun pre => List.foldl_append
  by_cases hlong : FRAGMENT_PAYLOAD_SIZE < ct.length
  · have hempty : FragmentBuffer.Newest seq ct (fun _ => False)
        (ChaChaCodec.new cr key sid).fragmentBuffer := FragmentBuffer.newest_empty rfl seq ct
    have hnew := fed_newest hcr before hempty hbefore
    have hpos : 0 < fragmentCount ct := (two_le_chunkCount size_pos hlong).trans' (by decide)
    obtain ⟨pre, x, post, packet, stats, rfl, hopen, hnum⟩ := completes_newest hcr hplain hct hmap hseal
      hlong hmax after hk hnew hafter ⟨0, hpos, id⟩ fun i hi => by
        have hmem : fragment seq (fam seq).1 ct i ∈ fragmentPackets seq (fam seq).1 ct :=
          (mem_fragmentPackets hmax).mpr (.inr ⟨hlong, i, hi, rfl⟩)
        obtain ⟨x, hx, hser⟩ := exists_of_mem_left (forall₂_of_mapM hmap) hmem
        exact .inr ⟨x, hall x hx, deserialize_of_serialize hcr.serverPacket hser⟩
    exact ⟨pre, x, post, packet, stats, rfl, by rw [hfed]; exact hopen, hnum⟩
  · -- a short ciphertext travels whole
    have hmem : (⟨seq, (fam seq).1, 0, 1, ct⟩ : EncryptedServerPacket) ∈
        fragmentPackets seq (fam seq).1 ct :=
      (mem_fragmentPackets hmax).mpr (.inl ⟨Nat.not_lt.mp hlong, rfl⟩)
    obtain ⟨x, hx, hser⟩ := exists_of_mem_left (forall₂_of_mapM hmap) hmem
    have hdes := deserialize_of_serialize hcr.serverPacket hser
    obtain ⟨pre, post, rfl⟩ := List.append_of_mem (hall x hx)
    have hk' : (fed (ChaChaCodec.new cr key sid) (before ++ pre)).crypto =
        (ChaChaCodec.new cr key sid).crypto := (sameKeys_fed _ _).1
    obtain ⟨stats, hopen⟩ := openServer_of_insert hcr hk' hplain hct hdes rfl
      (congrArg Prod.snd (FragmentBuffer.insert_whole le_rfl))
    exact ⟨pre, x, post, _, stats, rfl, hopen, rfl⟩

end ChaChaCodec

end Rumsh.Protocol
