import Asap.Tsch.Queue

/-!
# Committing an aggregated exchange

After an aggregated exchange the sender holds a bitmap with one bit for each packet
of the batch. It counts a transmission for each of them, moves those that are done
to the dequeued ring buffer, and removes them from the queue of the neighbor without
moving the packets behind the batch: the packets that stay are packed against the
end of the batch, from the last one down, and the read position is moved forward by
the number of packets that left.

`commitLoop` is the first part and `compactLoop` the second. The batch is a window
of the neighbor's ring buffer, so both are read as operations on lists, and
`upaCommit_exact` puts them together: what stays and what leaves are the two parts
of the batch, each in its order.

## Main definitions

* `UpaBatch` — the arrays filled when the exchange starts.
* `commitLoop`, `compactLoop`, `upaCommit` — the code.
* `survives` — whether a packet of the batch stays in the queue.
-/

namespace Asap.Upa

open Asap.Lib Asap.Tsch Function List
open scoped List

/-- The arrays of a batch: the positions in the queue and the packets. -/
structure UpaBatch where
  pktsToSend : ℕ
  ringbufIndex : ℕ → ℕ
  packet : ℕ → PacketId

/-- Filling the arrays when the exchange starts. The position is an `int` from
`ringbufindex_peek_get`, reduced by one revolution and stored in 8 bits. -/
def upaBatch (n : TschNeighbor) (pktsToSend : ℕ) : UpaBatch :=
  let head : ℤ := match n.tx.ringbuf.peekGet with
    | none => -1
    | some i => i
  let size : ℤ := n.tx.ringbuf.size
  let index := fun i : ℕ =>
    (BitVec.ofInt 8 (if head + i < size then head + i else head + i - size)).toNat
  { pktsToSend := pktsToSend
    ringbufIndex := index
    packet := fun i => n.tx.array (index i) }

/-- What the commit works on. -/
structure UpaCommit where
  packets : PacketId → TschPacket
  nbr : TschNeighbor
  dequeued : PacketRing
  /-- `upa_tx_slot_in_queue_array` -/
  inQueue : ℕ → Bool
  /-- `upa_num_of_non_zero_in_queue_pkts` -/
  nonZero : ℕ

/-- A packet with one more transmission and the status its bit gives it. -/
def sent (bAck : BitVec 16) (seq : ℕ) (p : TschPacket) : TschPacket :=
  { p with
    transmissions := p.transmissions + 1
    ret := if bAck.getLsbD seq then .ok else .noAck }

/-- One round of the loop over the batch. -/
def commitOne (b : UpaBatch) (bAck : BitVec 16) (s : UpaCommit) (seq : ℕ) : UpaCommit :=
  let p := sent bAck seq (s.packets (b.packet seq))
  let (nbr, inQueue) := tschQueueUpaPacketSent s.nbr p p.ret
  { packets := Function.update s.packets (b.packet seq) p
    nbr := nbr
    dequeued := if inQueue then s.dequeued else s.dequeued.append (b.packet seq)
    inQueue := Function.update s.inQueue seq inQueue
    nonZero := if inQueue then s.nonZero + 1 else s.nonZero }

/-- The loop over the batch. -/
def commitLoop (b : UpaBatch) (bAck : BitVec 16) (s : UpaCommit) : UpaCommit :=
  (List.range b.pktsToSend).foldl (commitOne b bAck) s

/-- The compaction loop: `rest` packets are still to be visited, from the last one
down, and `cursor` packets have been stored at the end of the batch. -/
def compactLoop (b : UpaBatch) (inQueue : ℕ → Bool) (nonZero : ℕ) :
    ℕ → ℕ → (ℕ → PacketId) → ℕ → PacketId
  | 0, _, arr => arr
  | rest + 1, cursor, arr =>
    if inQueue rest then
      let arr := Function.update arr (b.ringbufIndex (b.pktsToSend - 1 - cursor)) (b.packet rest)
      if nonZero = cursor + 1 then arr
      else compactLoop b inQueue nonZero rest (cursor + 1) arr
    else compactLoop b inQueue nonZero rest cursor arr

/-- The whole commit: packets, neighbor and dequeued ring buffer after it. -/
def upaCommit (b : UpaBatch) (bAck : BitVec 16) (packets : PacketId → TschPacket)
    (nbr : TschNeighbor) (dequeued : PacketRing) :
    (PacketId → TschPacket) × TschNeighbor × PacketRing :=
  let s := commitLoop b bAck ⟨packets, nbr, dequeued, fun _ => false, 0⟩
  let array := if s.nonZero > 0 then
      compactLoop b s.inQueue s.nonZero b.pktsToSend 0 s.nbr.tx.array
    else s.nbr.tx.array
  let ringbuf := s.nbr.tx.ringbuf.shiftGetPtr (b.pktsToSend - s.nonZero)
  (s.packets, { s.nbr with tx := { array := array, ringbuf := ringbuf } }, s.dequeued)

/-! ## The batch -/

/-- A packet of the batch stays in the queue when it is not acknowledged and has not
reached its number of transmissions. -/
def survives (bAck : BitVec 16) (seq : ℕ) (p : TschPacket) : Bool :=
  !bAck.getLsbD seq && !decide (p.maxTransmissions ≤ p.transmissions + 1)

variable {k : ℕ} {n : TschNeighbor} {m : ℕ}

/-- The positions of the batch are the first ones of the queue. -/
theorem ringbufIndex_upaBatch (h : n.tx.ringbuf.Ok k) {i : ℕ} (hi : i < n.tx.ringbuf.elements) :
    (upaBatch n m).ringbufIndex i = (n.tx.ringbuf.getPtr.toNat + i) % 2 ^ k := by
  have hlt := h.elements_lt
  have hget := h.get
  have hpow := h.pow_le
  obtain ⟨hpeek, -, -⟩ := RingbufIndex.get_of_pos (r := n.tx.ringbuf) (by omega)
  simp only [upaBatch, hpeek, h.size_eq]
  by_cases hwrap : n.tx.ringbuf.getPtr.toNat + i < 2 ^ k
  · have hc : (n.tx.ringbuf.getPtr.toNat : ℤ) + (i : ℤ) < ((2 ^ k : ℕ) : ℤ) := by omega
    have hcast : (n.tx.ringbuf.getPtr.toNat : ℤ) + (i : ℤ) =
        ((n.tx.ringbuf.getPtr.toNat + i : ℕ) : ℤ) := by omega
    rw [if_pos hc, hcast, BitVec.ofInt_natCast, BitVec.toNat_ofNat, Nat.mod_eq_of_lt hwrap]
    exact Nat.mod_eq_of_lt (by omega)
  · have hc : ¬ (n.tx.ringbuf.getPtr.toNat : ℤ) + (i : ℤ) < ((2 ^ k : ℕ) : ℤ) := by omega
    have hcast : (n.tx.ringbuf.getPtr.toNat : ℤ) + (i : ℤ) - ((2 ^ k : ℕ) : ℤ) =
        ((n.tx.ringbuf.getPtr.toNat + i - 2 ^ k : ℕ) : ℤ) := by omega
    have hmod : (n.tx.ringbuf.getPtr.toNat + i) % 2 ^ k = n.tx.ringbuf.getPtr.toNat + i - 2 ^ k := by
      rw [Nat.mod_eq_sub_mod (by omega), Nat.mod_eq_of_lt (by omega)]
    rw [if_neg hc, hcast, BitVec.ofInt_natCast, BitVec.toNat_ofNat, hmod]
    exact Nat.mod_eq_of_lt (by omega)

/-- The packets of the batch are the first ones of the queue. -/
theorem map_packet_upaBatch (h : n.tx.ringbuf.Ok k) (hm : m ≤ n.tx.ringbuf.elements) :
    (List.range m).map (upaBatch n m).packet = n.queue.take m := by
  refine ext_getElem? fun i => ?_
  by_cases hi : i < m
  · have hpkt : (upaBatch n m).packet i = n.tx.array ((n.tx.ringbuf.getPtr.toNat + i) % 2 ^ k) := by
      rw [← ringbufIndex_upaBatch (m := m) h (by omega)]
      rfl
    rw [List.getElem?_map, List.getElem?_range hi, Option.map_some, hpkt,
      List.getElem?_take_of_lt hi, TschNeighbor.queue, PacketRing.toList,
      h.getElem?_contents (by omega)]
  · have h1 : ((List.range m).map (upaBatch n m).packet)[i]? = none := by
      simp only [List.getElem?_eq_none_iff, length_map, length_range]
      omega
    have h2 : (n.queue.take m)[i]? = none := by
      simp only [List.getElem?_eq_none_iff, length_take]
      omega
    rw [h1, h2]

/-! ## The loop over the batch -/

section

variable (b : UpaBatch) (bAck : BitVec 16) (packets : PacketId → TschPacket) (m : ℕ)

/-- The packets of the first `m` that leave the queue. -/
def leaving :
    List PacketId :=
  ((List.range m).filter fun i => !survives bAck i (packets (b.packet i))).map b.packet

/-- The number of the first `m` that stay. -/
def staying : ℕ :=
  ((List.range m).filter fun i => survives bAck i (packets (b.packet i))).length

theorem staying_le :
    staying b bAck packets m ≤ m := by
  have h := length_filter_le (fun i => survives bAck i (packets (b.packet i))) (List.range m)
  rw [length_range] at h
  exact h

end

/-- The verdict of the code is `survives`. -/
theorem inQueue_sent (nbr : TschNeighbor) (bAck : BitVec 16) (seq : ℕ) (p : TschPacket) :
    (tschQueueUpaPacketSent nbr (sent bAck seq p) (sent bAck seq p).ret).2 =
      survives bAck seq p := by
  cases h : bAck.getLsbD seq <;> simp [tschQueueUpaPacketSent, sent, survives, h]

/-- The loop after its first `m` rounds. -/
structure CommitInv (b : UpaBatch) (bAck : BitVec 16) (s₀ : UpaCommit) (k m : ℕ)
    (s : UpaCommit) : Prop where
  packet : ∀ i < m, s.packets (b.packet i) = sent bAck i (s₀.packets (b.packet i))
  frame : ∀ p, (∀ i < m, b.packet i ≠ p) → s.packets p = s₀.packets p
  tx : s.nbr.tx = s₀.nbr.tx
  ok : s.dequeued.ringbuf.Ok k
  dequeued : s.dequeued.toList = s₀.dequeued.toList ++ leaving b bAck s₀.packets m
  inQueue : ∀ i < m, s.inQueue i = survives bAck i (s₀.packets (b.packet i))
  nonZero : s.nonZero = s₀.nonZero + staying b bAck s₀.packets m

/-- One round keeps the invariant; the packets of the batch are distinct, so the round
does not touch the others, and there is room for one more dequeued packet. -/
theorem commitOne_inv {b : UpaBatch} {bAck : BitVec 16} {s₀ s : UpaCommit} {k m : ℕ}
    (hinj : ∀ i < m, b.packet i ≠ b.packet m)
    (hroom : s₀.dequeued.toList.length + m < 2 ^ k - 1) (h : CommitInv b bAck s₀ k m s) :
    CommitInv b bAck s₀ k (m + 1) (commitOne b bAck s m) := by
  have hfresh : s.packets (b.packet m) = s₀.packets (b.packet m) := h.frame _ hinj
  have hverdict : (tschQueueUpaPacketSent s.nbr (sent bAck m (s.packets (b.packet m)))
      (sent bAck m (s.packets (b.packet m))).ret).2 =
      survives bAck m (s₀.packets (b.packet m)) := by
    rw [inQueue_sent, hfresh]
  have hlen : s.dequeued.ringbuf.elements < 2 ^ k - 1 := by
    have hleave : (leaving b bAck s₀.packets m).length ≤ m := by
      rw [leaving, length_map]
      exact (length_filter_le _ _).trans (length_range.le)
    rw [← PacketRing.length_toList, h.dequeued, length_append]
    omega
  obtain ⟨happend, hok, -⟩ := PacketRing.append_spec h.ok hlen (b.packet m)
  refine ⟨?_, ?_, ?_, ?_, ?_, ?_, ?_⟩
  · intro i hi
    by_cases him : i = m
    · subst him
      simp only [commitOne, update_self, hfresh]
    · have hne : b.packet i ≠ b.packet m := hinj i (by omega)
      simp only [commitOne, update_of_ne hne]
      exact h.packet i (by omega)
  · intro p hp
    have hne : p ≠ b.packet m := (hp m (by omega)).symm
    simp only [commitOne, update_of_ne hne]
    exact h.frame p fun i hi => hp i (by omega)
  · simp only [commitOne, tschQueueUpaPacketSent_tx]
    exact h.tx
  · simp only [commitOne, hverdict]
    split
    · exact h.ok
    · exact hok
  · simp only [commitOne, hverdict, leaving, range_succ, filter_append, map_append]
    cases hs : survives bAck m (s₀.packets (b.packet m))
    · simp only [Bool.false_eq_true, if_false, happend, h.dequeued, leaving, append_assoc]
      simp [hs]
    · simp only [if_true, h.dequeued, leaving]
      simp [hs]
  · intro i hi
    by_cases him : i = m
    · subst him
      simp only [commitOne, hverdict, update_self]
    · simp only [commitOne, update_of_ne him]
      exact h.inQueue i (by omega)
  · simp only [commitOne, hverdict, staying, range_succ, filter_append,
      length_append]
    cases hs : survives bAck m (s₀.packets (b.packet m))
    · simp [hs, h.nonZero, staying]
    · simp [hs, h.nonZero, staying, Nat.add_assoc]

theorem commitLoop_inv {b : UpaBatch} {bAck : BitVec 16} {s₀ : UpaCommit} {k : ℕ} :
    ∀ m, (∀ i < m, ∀ j < m, b.packet i = b.packet j → i = j) →
      s₀.dequeued.ringbuf.Ok k → s₀.dequeued.toList.length + m ≤ 2 ^ k - 1 →
      CommitInv b bAck s₀ k m ((List.range m).foldl (commitOne b bAck) s₀) := by
  intro m
  induction m with
  | zero =>
      intro _ hok _
      exact ⟨by intro i hi; omega, fun _ _ => rfl, rfl, hok, by simp [leaving],
        by intro i hi; omega, by simp [staying]⟩
  | succ m ih =>
      intro hinj hok hroom
      rw [range_succ, foldl_append]
      refine commitOne_inv ?_ (by omega) (ih ?_ hok (by omega))
      · intro i hi heq
        have := hinj i (by omega) m (by omega) heq
        omega
      · intro i hi j hj
        exact hinj i (by omega) j (by omega)

/-! ## The compaction -/

section

variable (b : UpaBatch) (inQueue : ℕ → Bool)

/-- The packets at the positions from `rest` on that stay, in order. -/
def stayingFrom (rest : ℕ) : List PacketId :=
  (((List.range b.pktsToSend).drop rest).filter inQueue).map b.packet

theorem stayingFrom_step {rest : ℕ}
    (h : rest < b.pktsToSend) :
    stayingFrom b inQueue rest =
      if inQueue rest then b.packet rest :: stayingFrom b inQueue (rest + 1)
      else stayingFrom b inQueue (rest + 1) := by
  have hdrop : (List.range b.pktsToSend).drop rest =
      rest :: (List.range b.pktsToSend).drop (rest + 1) := by
    rw [drop_eq_getElem_cons (by simpa using h), getElem_range]
  simp only [stayingFrom, hdrop, filter_cons]
  split <;> simp

theorem stayingFrom_suffix (rest : ℕ) :
    stayingFrom b inQueue rest <:+ stayingFrom b inQueue 0 := by
  refine List.IsSuffix.map _ (List.IsSuffix.filter _ ?_)
  exact drop_suffix _ _

end

/-- Storing just before the packets already packed at the end of a batch of `m`. -/
theorem set_pack {l packed : List PacketId} {m c : ℕ} (hm : m ≤ l.length) (hc : c < m)
    (x : PacketId) :
    (l.take (m - c) ++ packed ++ l.drop m).set (m - 1 - c) x =
      l.take (m - (c + 1)) ++ (x :: packed) ++ l.drop m := by
  have htake : l.take (m - c) = l.take (m - (c + 1)) ++ [l[m - (c + 1)]] := by
    have hsucc : m - c = m - (c + 1) + 1 := by omega
    rw [hsucc, take_add_one, List.getElem?_eq_getElem (by omega)]
    rfl
  have hlen : (l.take (m - (c + 1))).length = m - 1 - c := by
    rw [length_take]
    omega
  rw [htake, append_assoc, append_assoc, append_assoc,
    set_append_right _ _ (by omega), hlen, Nat.sub_self]
  rfl

/-- **The compaction packs the packets that stay against the end of the batch.** After
the positions from `rest` on have been visited, those that stay stand, in order, just
before the packets behind the batch. -/
theorem compactLoop_contents {b : UpaBatch} {inQueue : ℕ → Bool} {nonZero k : ℕ}
    {r : RingbufIndex} (h : r.Ok k) (hm : b.pktsToSend ≤ r.elements)
    (hindex : ∀ j < b.pktsToSend, b.ringbufIndex j = (r.getPtr.toNat + j) % 2 ^ k)
    (hnz : nonZero = (stayingFrom b inQueue 0).length) {l : List PacketId}
    (hl : l.length = r.elements) :
    ∀ (rest : ℕ) (arr : ℕ → PacketId), rest ≤ b.pktsToSend →
      r.contents arr = l.take (b.pktsToSend - (stayingFrom b inQueue rest).length) ++
        stayingFrom b inQueue rest ++ l.drop b.pktsToSend →
      r.contents (compactLoop b inQueue nonZero rest (stayingFrom b inQueue rest).length arr) =
        l.take (b.pktsToSend - nonZero) ++ stayingFrom b inQueue 0 ++ l.drop b.pktsToSend := by
  intro rest
  induction rest with
  | zero =>
      intro arr _ hcontents
      rw [compactLoop, hcontents, hnz]
  | succ rest ih =>
      intro arr hrest hcontents
      have hstep := stayingFrom_step b inQueue (show rest < b.pktsToSend by omega)
      rw [compactLoop]
      cases hq : inQueue rest with
      | false =>
          simp only [Bool.false_eq_true, if_false]
          rw [hq, if_neg Bool.false_ne_true] at hstep
          rw [← hstep] at hcontents ⊢
          exact ih arr (by omega) hcontents
      | true =>
          simp only [if_true]
          rw [hq, if_pos rfl] at hstep
          have hlen : (stayingFrom b inQueue rest).length =
              (stayingFrom b inQueue (rest + 1)).length + 1 := by
            rw [hstep, length_cons]
          have hbound : (stayingFrom b inQueue rest).length ≤ b.pktsToSend - rest := by
            rw [stayingFrom, length_map]
            refine (length_filter_le _ _).trans ?_
            rw [length_drop, length_range]
          -- one more packet is stored, just before those already packed
          have hpack : r.contents (update arr
              (b.ringbufIndex (b.pktsToSend - 1 - (stayingFrom b inQueue (rest + 1)).length))
              (b.packet rest)) =
              l.take (b.pktsToSend - (stayingFrom b inQueue rest).length) ++
                stayingFrom b inQueue rest ++ l.drop b.pktsToSend := by
            rw [hindex _ (by omega), h.contents_update (by omega), hcontents,
              set_pack (by omega) (by omega), ← hstep, hlen]
          split
          · rename_i hdone
            have hall : stayingFrom b inQueue rest = stayingFrom b inQueue 0 :=
              (stayingFrom_suffix b inQueue rest).eq_of_length (by omega)
            rw [hpack, hall, hnz]
          · rw [← hlen]
            exact ih _ (by omega) hpack

/-! ## The commit -/

/-- The batch with the position of each packet, as a list. -/
theorem zipIdx_batch (h : n.tx.ringbuf.Ok k) (hm : m ≤ n.tx.ringbuf.elements) :
    (n.queue.take m).zipIdx =
      (List.range m).map fun i => ((upaBatch n m).packet i, i) := by
  rw [← map_packet_upaBatch h hm]
  refine ext_getElem? fun i => ?_
  by_cases hi : i < m
  · simp [hi]
  · have h1 : ¬ i < m := hi
    simp [h1]

/-- The packets of the batch are distinct when the packets of the queue are. -/
theorem packet_upaBatch_inj (h : n.tx.ringbuf.Ok k) (hm : m ≤ n.tx.ringbuf.elements)
    (hnodup : n.queue.Nodup) :
    ∀ i < m, ∀ j < m, (upaBatch n m).packet i = (upaBatch n m).packet j → i = j := by
  intro i hi j hj heq
  have hbatch : ((List.range m).map (upaBatch n m).packet).Nodup := by
    rw [map_packet_upaBatch h hm]
    exact hnodup.sublist (take_sublist _ _)
  exact inj_on_of_nodup_map hbatch (mem_range.mpr hi) (mem_range.mpr hj) heq

/-- **The commit is exact.** The batch is the first `m` packets of the queue `n₀` when
the exchange starts, packets may have been added to the queue since, and the dequeued
ring buffer has room for `m` packets. After the commit the packets that survive stand
in the queue in their order, before those behind the batch; the others are appended to
the dequeued ring buffer in their order; each packet of the batch counts one more
transmission, no other packet is touched, and no packet is lost or duplicated. -/
theorem upaCommit_exact {kq kd m : ℕ} {n₀ n : TschNeighbor} {dequeued : PacketRing}
    {added : List PacketId} (packets : PacketId → TschPacket) (bAck : BitVec 16)
    (hq₀ : n₀.tx.ringbuf.Ok kq) (hq : n.tx.ringbuf.Ok kq)
    (hget : n.tx.ringbuf.getPtr = n₀.tx.ringbuf.getPtr) (hadded : n.queue = n₀.queue ++ added)
    (hnodup : n₀.queue.Nodup) (hd : dequeued.ringbuf.Ok kd) (hm : m ≤ n₀.queue.length)
    (hroom : m ≤ 2 ^ kd - 1 - dequeued.toList.length) :
    let c := upaCommit (upaBatch n₀ m) bAck packets n dequeued
    let batch := (n₀.queue.take m).zipIdx
    let stays : PacketId × ℕ → Bool := fun x => survives bAck x.2 (packets x.1)
    c.2.1.queue = (batch.filter stays).map Prod.fst ++ n.queue.drop m ∧
      c.2.2.toList = dequeued.toList ++ (batch.filter fun x => !stays x).map Prod.fst ∧
      (∀ x ∈ batch, c.1 x.1 = sent bAck x.2 (packets x.1)) ∧
      (∀ p ∉ n₀.queue.take m, c.1 p = packets p) ∧
      (c.2.1.queue ++ c.2.2.toList).Perm (n.queue ++ dequeued.toList) ∧
      c.2.1.tx.ringbuf.Ok kq ∧ c.2.2.ringbuf.Ok kd := by
  intro c batch stays
  have hdlt : dequeued.toList.length < 2 ^ kd := by
    rw [PacketRing.length_toList]
    exact hd.elements_lt
  have hm₀ : m ≤ n₀.tx.ringbuf.elements := by
    rw [TschNeighbor.queue, PacketRing.length_toList] at hm
    exact hm
  have hmn : m ≤ n.tx.ringbuf.elements := by
    have hlen := congrArg List.length hadded
    rw [List.length_append, TschNeighbor.queue, PacketRing.length_toList] at hlen
    omega
  have hinj := packet_upaBatch_inj (m := m) hq₀ hm₀ hnodup
  have hbatch : batch = (List.range m).map fun i => ((upaBatch n₀ m).packet i, i) :=
    zipIdx_batch hq₀ hm₀
  -- the loop over the batch
  let s := commitLoop (upaBatch n₀ m) bAck ⟨packets, n, dequeued, fun _ => false, 0⟩
  have hloop : CommitInv (upaBatch n₀ m) bAck ⟨packets, n, dequeued, fun _ => false, 0⟩ kd m s :=
    commitLoop_inv m hinj hd (by dsimp only; omega)
  have hstaying : stayingFrom (upaBatch n₀ m) s.inQueue 0 = (batch.filter stays).map Prod.fst := by
    have hfilter : (List.range m).filter s.inQueue =
        (List.range m).filter fun i => survives bAck i (packets ((upaBatch n₀ m).packet i)) :=
      List.filter_congr fun i hi => hloop.inQueue i (List.mem_range.mp hi)
    have hpkts : (upaBatch n₀ m).pktsToSend = m := rfl
    rw [stayingFrom, hpkts, List.drop_zero, hfilter, hbatch, List.filter_map, List.map_map]
    rfl
  have hnz : s.nonZero = (stayingFrom (upaBatch n₀ m) s.inQueue 0).length := by
    rw [hloop.nonZero, hstaying, List.length_map, hbatch, List.filter_map, List.length_map,
      staying, Nat.zero_add]
    rfl
  have hnzm : s.nonZero ≤ m := by
    rw [hloop.nonZero, Nat.zero_add]
    exact staying_le _ _ _ _
  have hleaving : leaving (upaBatch n₀ m) bAck packets m =
      (batch.filter fun x => !stays x).map Prod.fst := by
    rw [leaving, hbatch, List.filter_map, List.map_map]
    rfl
  -- the compaction
  have hfull : stayingFrom (upaBatch n₀ m) s.inQueue m = [] := by
    have hnil : (List.range m).drop m = [] := List.drop_eq_nil_of_le (by simp)
    have hpkts : (upaBatch n₀ m).pktsToSend = m := rfl
    rw [stayingFrom, hpkts, hnil]
    rfl
  have hcompact : n.tx.ringbuf.contents
      (if s.nonZero > 0 then compactLoop (upaBatch n₀ m) s.inQueue s.nonZero m 0 n.tx.array
        else n.tx.array) =
      n.queue.take (m - s.nonZero) ++ (batch.filter stays).map Prod.fst ++ n.queue.drop m := by
    by_cases hpos : s.nonZero > 0
    · rw [if_pos hpos, ← hstaying]
      have hindex : ∀ j < m, (upaBatch n₀ m).ringbufIndex j =
          (n.tx.ringbuf.getPtr.toNat + j) % 2 ^ kq := by
        intro j hj
        rw [hget]
        exact ringbufIndex_upaBatch hq₀ (by omega)
      have h := compactLoop_contents hq hmn hindex hnz (l := n.queue)
        (PacketRing.length_toList _) m n.tx.array (Nat.le_refl m)
      rw [hfull, List.length_nil, Nat.sub_zero, List.append_nil] at h
      exact h (List.take_append_drop m n.queue).symm
    · have hzero : s.nonZero = 0 := by omega
      have hnil : (batch.filter stays).map Prod.fst = [] := by
        rw [← hstaying]
        exact List.length_eq_zero_iff.mp (hnz ▸ hzero)
      rw [if_neg hpos, hnil, hzero, Nat.sub_zero, List.append_nil, List.take_append_drop]
      rfl
  have hqueue : c.2.1.queue = (batch.filter stays).map Prod.fst ++ n.queue.drop m := by
    have hshift : (n.tx.ringbuf.shiftGetPtr (m - s.nonZero)).contents
        (if s.nonZero > 0 then compactLoop (upaBatch n₀ m) s.inQueue s.nonZero m 0 n.tx.array
          else n.tx.array) = _ := hq.contents_shiftGetPtr (by omega)
    have hc : c.2.1.queue = (s.nbr.tx.ringbuf.shiftGetPtr (m - s.nonZero)).contents
        (if s.nonZero > 0 then compactLoop (upaBatch n₀ m) s.inQueue s.nonZero m 0 s.nbr.tx.array
          else s.nbr.tx.array) := rfl
    have htake : (n.queue.take (m - s.nonZero)).length = m - s.nonZero := by
      rw [List.length_take, TschNeighbor.queue, PacketRing.length_toList]
      omega
    rw [hc, hloop.tx, hshift, hcompact, List.append_assoc, List.drop_left' htake]
  have hdequeued : c.2.2.toList =
      dequeued.toList ++ (batch.filter fun x => !stays x).map Prod.fst := by
    rw [← hleaving]
    exact hloop.dequeued
  refine ⟨hqueue, hdequeued, ?_, ?_, ?_, ?_, hloop.ok⟩
  · intro x hx
    rw [hbatch] at hx
    obtain ⟨i, hi, rfl⟩ := List.mem_map.mp hx
    exact hloop.packet i (List.mem_range.mp hi)
  · intro p hp
    refine hloop.frame p fun i hi heq => hp ?_
    rw [← map_packet_upaBatch hq₀ hm₀]
    exact List.mem_map.mpr ⟨i, List.mem_range.mpr hi, heq⟩
  · have hsplit : ((batch.filter stays).map Prod.fst ++
        (batch.filter fun x => !stays x).map Prod.fst).Perm (n.queue.take m) := by
      rw [← List.map_append]
      have hfst : batch.map Prod.fst = n.queue.take m := by
        rw [List.zipIdx_map_fst, hadded, List.take_append_of_le_length hm]
      rw [← hfst]
      exact (List.filter_append_perm stays batch).map _
    rw [hqueue, hdequeued]
    calc (batch.filter stays).map Prod.fst ++ n.queue.drop m ++
          (dequeued.toList ++ (batch.filter fun x => !stays x).map Prod.fst)
        ~ (batch.filter stays).map Prod.fst ++ ((batch.filter fun x => !stays x).map Prod.fst ++
          (n.queue.drop m ++ dequeued.toList)) := by
          rw [List.append_assoc, ← List.append_assoc (n.queue.drop m)]
          exact List.perm_append_comm.append_left _
      _ ~ n.queue.take m ++ (n.queue.drop m ++ dequeued.toList) := by
          rw [← List.append_assoc]
          exact hsplit.append_right _
      _ ~ n.queue ++ dequeued.toList := by
          rw [← List.append_assoc, List.take_append_drop]
  · have hshift := (hq.shiftGetPtr_spec (n := m - s.nonZero) (by omega)).1
    have hc : c.2.1.tx.ringbuf = s.nbr.tx.ringbuf.shiftGetPtr (m - s.nonZero) := rfl
    rw [hc, hloop.tx]
    exact hshift

/-- A queue of four packets that wraps at the end of an array of eight. -/
def wrappedNeighbor : TschNeighbor where
  isBroadcast := false
  isTimeSource := false
  backoffExponent := 1
  backoffWindow := 0
  txLinksCount := 1
  dedicatedTxLinksCount := 1
  tx := { array := fun i => (i + 4) % 8 + 10, ringbuf := ⟨7, 2, 6⟩ }

/-- Three packets of four are sent; the second is acknowledged, the third has had its
last transmission, the first stays in front of the fourth. -/
theorem upaCommit_exact_wrapped :
    let packets : PacketId → TschPacket := fun p => ⟨if p = 14 then 7 else 0, 8, .deferred⟩
    let dequeued : PacketRing := { array := fun _ => 5, ringbuf := ⟨7, 1, 0⟩ }
    let c := upaCommit (upaBatch wrappedNeighbor 3) 0b010 packets wrappedNeighbor dequeued
    wrappedNeighbor.queue = [12, 13, 14, 15] ∧ c.2.1.queue = [12, 15] ∧
      c.2.2.toList = [5, 13, 14] := by
  intro packets dequeued c
  have hok : ∀ r : RingbufIndex, r.mask = 7 → r.putPtr.toNat < 8 → r.getPtr.toNat < 8 → r.Ok 3 :=
    fun r hm hp hg => ⟨by decide, hm, hp, hg⟩
  have hn : wrappedNeighbor.tx.ringbuf.Ok 3 := hok _ rfl (by decide) (by decide)
  have hd : dequeued.ringbuf.Ok 3 := hok _ rfl (by decide) (by decide)
  have hqueue : wrappedNeighbor.queue = [12, 13, 14, 15] := by decide
  obtain ⟨hq, hdq, -⟩ := upaCommit_exact (m := 3) packets 0b010 hn hn rfl
    (List.append_nil _).symm (by decide) hd (by decide) (by decide)
  refine ⟨hqueue, hq.trans ?_, hdq.trans ?_⟩
  · decide
  · decide

end Asap.Upa
