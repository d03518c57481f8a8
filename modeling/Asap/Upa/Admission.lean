import Mathlib.Tactic.SplitIfs
import Asap.Tsch.RingbufIndex
import Asap.Upa.SlotUtility

/-!
# Admission of an aggregated exchange

The sender asks for as many packets as it has queued behind the triggering one, can
store when they are done, and the receiver could store at most. The receiver lowers
the number to what it has room for, and by its slot policy to what pays off, and
answers with it in the Enhanced ACK. The sender then takes the number in the ACK as
it is.

For any ACK and any frames, `admissionBound_iff` says what the code relies on. A receiver
that runs this code meets it (`admissionCondition_of_receiver`).

## Main definitions

* `upaPktsToRequest`, `upaPktsToSend`, `sentInBatch` — the sender.
* `upaPktsToReceive`, `rxLoop` — the receiver.
* `AdmissionBound` — the bounds on the batch and on the indices.
* `AdmissionCondition` — what the bounds need.
-/

namespace Asap.Upa

open Asap.Tsch List

/-- The sizes of the ring buffers, powers of two that fit the 8-bit positions, and the
number of packet buffers. -/
structure UpaSizes where
  dequeuedBits : ℕ
  inputBits : ℕ
  queuebufNum : ℕ
  dequeued_le : dequeuedBits ≤ 7
  input_le : inputBits ≤ 7

namespace UpaSizes

/-- `TSCH_DEQUEUED_ARRAY_SIZE` -/
def dequeuedArraySize (c : UpaSizes) : ℕ := 2 ^ c.dequeuedBits

/-- `TSCH_MAX_INCOMING_PACKETS` -/
def maxIncomingPackets (c : UpaSizes) : ℕ := 2 ^ c.inputBits

theorem dequeuedArraySize_le (c : UpaSizes) : c.dequeuedArraySize ≤ 128 :=
  Nat.pow_le_pow_right (n := 2) (by omega) c.dequeued_le

theorem maxIncomingPackets_pos (c : UpaSizes) : 0 < c.maxIncomingPackets := Nat.two_pow_pos _

end UpaSizes

/-! ## The sender -/

/-- `upa_pkts_to_request`, for the packets in the queue and the elements of the dequeued
ring buffer. The differences that the source keeps from being negative are natural. -/
def upaPktsToRequest (c : UpaSizes) (queued dequeued : ℕ) : ℕ :=
  if 1 < queued then
    min (min (queued - 1) (c.dequeuedArraySize - 1 - (dequeued + 1)))
      (c.maxIncomingPackets - 1 - 1)
  else 0

/-- `upa_pkts_to_send`, from the field of the Enhanced ACK. -/
def upaPktsToSend (pktsToRequest : ℕ) (pktsAllowed : BitVec 16) : ℕ :=
  if 0 < pktsToRequest ∧ 0 < pktsAllowed.toNat then pktsAllowed.toNat else 0

/-- The packets sent by the loop of the batch: `rest` of them are left, the next one has
number `seq`, and the dequeued ring buffer has `dequeued seq` elements when the loop
comes to it. -/
def sentInBatch (c : UpaSizes) (dequeued : ℕ → ℕ) : ℕ → ℕ → ℕ
  | 0, _ => 0
  | rest + 1, seq =>
    if dequeued seq + seq < c.dequeuedArraySize then
      sentInBatch c dequeued rest (seq + 1) + 1
    else 0

/-! ## The receiver -/

/-- `UPA_RX_SLOT_POLICY` -/
inductive RxSlotPolicy where
  | none | maxGain | maxPktsWithGain
deriving DecidableEq, Repr

/-- `upa_curr_gain` for `i` packets. -/
def upaGain (bitmap : BitVec 8) (i : ℕ) : ℕ := (1 + i) * 100 / slotsRequired bitmap i

/-- One round of the loop of the second policy; `best` is the number of packets and its
gain. -/
def maxGainOne (bitmap : BitVec 8) (best : ℕ × ℕ) (j : ℕ) : ℕ × ℕ :=
  let gain := upaGain bitmap (j + 1)
  if 100 < gain ∧ best.2 ≤ gain then (j + 1, gain) else best

/-- One round of the loop of the third policy. -/
def maxPktsWithGainOne (bitmap : BitVec 8) (pkts j : ℕ) : ℕ :=
  if 100 < upaGain bitmap (j + 1) then j + 1 else pkts

/-- The number of packets the policy accepts of `n`. -/
def RxSlotPolicy.accept (policy : RxSlotPolicy) (bitmap : BitVec 8) (n : ℕ) : ℕ :=
  match policy with
  | .none => n
  | .maxGain => ((List.range n).foldl (maxGainOne bitmap) (0, 100)).1
  | .maxPktsWithGain => (List.range n).foldl (maxPktsWithGainOne bitmap) 0

/-- What the receiver decides with. -/
structure UpaReceiver where
  input : RingbufIndex
  /-- `tsch_queue_global_packet_count` -/
  globalPacketCount : ℕ
  isRootOrHasNoChildren : Bool
  policy : RxSlotPolicy

/-- The fields of the triggering frame. -/
structure TriggeringFrame where
  framePending : Bool
  ieListPresent : Bool
  upaInfo : BitVec 16

/-- `upa_info_requested` -/
def TriggeringFrame.infoRequested (f : TriggeringFrame) : BitVec 16 :=
  if f.ieListPresent then f.upaInfo else 0

namespace UpaReceiver

section

variable (c : UpaSizes) (r : UpaReceiver)

/-- `upa_empty_space_of_input_ringbuf` -/
def emptySpaceOfInputRingbuf : ℕ :=
  c.maxIncomingPackets - 1 - (r.input.elements + 1)

/-- `upa_empty_space_of_global_queue` -/
def emptySpaceOfGlobalQueue : ℕ :=
  c.queuebufNum - 1 - (r.globalPacketCount + 1)

/-- `upa_max_acceptable_pkts` -/
def maxAcceptablePkts (info : BitVec 16) : ℕ :=
  min (upaPktsRequested info).toNat
    (if r.isRootOrHasNoChildren then r.emptySpaceOfInputRingbuf c
     else min (r.emptySpaceOfInputRingbuf c) (r.emptySpaceOfGlobalQueue c))

/-- `upa_pkts_to_receive` -/
def upaPktsToReceive (f : TriggeringFrame) : ℕ :=
  if f.framePending then
    r.policy.accept (upaBitmapRequested f.infoRequested) (r.maxAcceptablePkts c f.infoRequested)
  else 0

end

end UpaReceiver

/-- One reception of the batch: the sequence number of an accepted frame, none when the
frame is not accepted, and whether the deadline has passed after it. -/
structure Reception where
  seq : Option (BitVec 16)
  deadlinePassed : Bool

/-- The receiver in the batch, with the places it has written to. -/
structure RxBatch where
  input : RingbufIndex
  /-- `upa_rx_slot_last_in_batch_seq`, 8 bits of a 16-bit number -/
  lastInBatchSeq : BitVec 8
  /-- `upa_rx_slot_b_ack_bitmap` -/
  bAckBitmap : BitVec 16
  inputIndices : List ℕ
  acceptedSeqs : List (BitVec 16)

/-- The bit of the b-ack that the frame with a sequence number sets. -/
def bAckPosition (seq : BitVec 16) : ℤ := (seq.toNat : ℤ) - 1

/-- Receiving at index `i` of `input_array`. A shift by a position outside `0..31` is
undefined in the source; the bit set there is of no meaning. -/
def RxBatch.receive (b : RxBatch) (i : ℕ) (r : Reception) : RxBatch :=
  match r.seq with
  | none => { b with inputIndices := b.inputIndices ++ [i] }
  | some seq =>
    { input := b.input.put.1
      lastInBatchSeq := seq.setWidth 8
      bAckBitmap := b.bAckBitmap ||| (1#16 <<< (bAckPosition seq).toNat)
      inputIndices := b.inputIndices ++ [i]
      acceptedSeqs := b.acceptedSeqs ++ [seq] }

/-- The loop of the batch; at the end of the receptions it times out. -/
def rxLoop (pktsToReceive : ℕ) : List Reception → RxBatch → RxBatch
  | [], b => b
  | r :: rs, b =>
    match b.input.peekPut with
    | none => b
    | some i =>
      let b := b.receive i r
      if pktsToReceive ≤ b.lastInBatchSeq.toNat ∨ r.deadlinePassed then b
      else rxLoop pktsToReceive rs b

/-! ## The exchange -/

/-- An aggregated exchange: the two sides, and what each of them gets from the other. -/
structure Exchange (c : UpaSizes) where
  /-- the packets in the sender's queue, the triggering one among them -/
  queued : ℕ
  /-- the elements of the dequeued ring buffer when the request is made -/
  dequeued : ℕ
  /-- the field of the Enhanced ACK that the sender accepts -/
  pktsAllowed : BitVec 16
  /-- the elements of the dequeued ring buffer when the loop comes to a packet -/
  dequeuedAt : ℕ → ℕ
  receiver : UpaReceiver
  input_ok : receiver.input.Ok c.inputBits
  trigger : TriggeringFrame
  receptions : List Reception

namespace Exchange

variable {c : UpaSizes}

section

variable (x : Exchange c)

def pktsToRequest : ℕ := upaPktsToRequest c x.queued x.dequeued

def pktsToSend : ℕ := upaPktsToSend x.pktsToRequest x.pktsAllowed

def sent : ℕ := sentInBatch c x.dequeuedAt x.pktsToSend 1

/-- The batch at the receiver, behind the triggering frame; there is none when the
receiver does not accept a packet. -/
def rxBatch : RxBatch :=
  let pktsToReceive := x.receiver.upaPktsToReceive c x.trigger
  let b : RxBatch := ⟨x.receiver.input.put.1, 0, 0, [], []⟩
  if 0 < pktsToReceive then rxLoop pktsToReceive x.receptions b else b

/-- The bounds on what is sent, and on every index used. The counters of the sender's
loops over the batch have 8 bits. -/
structure AdmissionBound : Prop where
  requested : x.sent ≤ x.pktsToRequest
  queued : x.sent ≤ x.queued - 1
  dequeued : x.sent ≤ c.dequeuedArraySize - 1 - x.dequeuedAt x.sent
  free : x.sent ≤ x.receiver.emptySpaceOfInputRingbuf c
  batchIndex : ∀ i : BitVec 8, i.toNat < x.pktsToSend → i.toNat < c.dequeuedArraySize
  bitIndex : ∀ i : BitVec 8, i.toNat < x.pktsToSend → i.toNat < 16
  slotsIndex : ∀ i ≤ x.receiver.maxAcceptablePkts c x.trigger.infoRequested,
    i < c.maxIncomingPackets
  inputIndex : ∀ i ∈ x.rxBatch.inputIndices, i < c.maxIncomingPackets
  bAckBit : ∀ seq ∈ x.rxBatch.acceptedSeqs, 0 ≤ bAckPosition seq ∧ bAckPosition seq < 16

/-- **The condition on the exchange**: nothing is requested, or the ACK allows no more
than the arrays and the b-ack have places for, and no more than was requested and the
receiver has room for unless the dequeued ring buffer is full before; and the frames
accepted have sequence numbers from 1 to 16. -/
def AdmissionCondition : Prop :=
  (x.pktsToRequest = 0 ∨
    (x.pktsAllowed.toNat ≤ c.dequeuedArraySize ∧ x.pktsAllowed.toNat ≤ 16 ∧
      (x.pktsAllowed.toNat ≤ min x.pktsToRequest (x.receiver.emptySpaceOfInputRingbuf c) ∨
        ∃ j ≤ min x.pktsToRequest (x.receiver.emptySpaceOfInputRingbuf c),
          c.dequeuedArraySize ≤ x.dequeuedAt (1 + j) + (1 + j)))) ∧
  ∀ seq ∈ x.rxBatch.acceptedSeqs, 1 ≤ seq.toNat ∧ seq.toNat ≤ 16

end

end Exchange

variable {c : UpaSizes}

/-! ### The sender's bounds -/

/-- More than `k` packets are sent when as many are to be sent and the dequeued ring
buffer has room at each of them. -/
theorem lt_sentInBatch_iff (dequeued : ℕ → ℕ) (k rest seq : ℕ) :
    k < sentInBatch c dequeued rest seq ↔
      k < rest ∧ ∀ j ≤ k, dequeued (seq + j) + (seq + j) < c.dequeuedArraySize := by
  induction rest generalizing k seq with
  | zero => simp [sentInBatch]
  | succ rest ih =>
    simp only [sentInBatch]
    by_cases hroom : dequeued seq + seq < c.dequeuedArraySize
    · rw [if_pos hroom]
      cases k with
      | zero =>
        constructor
        · intro _
          refine ⟨by omega, fun j hj => ?_⟩
          rw [Nat.le_zero.mp hj]
          exact hroom
        · intro _
          omega
      | succ k =>
        rw [Nat.succ_lt_succ_iff, ih, Nat.succ_lt_succ_iff]
        refine and_congr_right fun _ => ?_
        constructor
        · intro h j hj
          cases j with
          | zero => exact hroom
          | succ j =>
            have := h j (by omega)
            rwa [show seq + 1 + j = seq + (j + 1) by omega] at this
        · intro h j hj
          have := h (j + 1) (by omega)
          rwa [show seq + (j + 1) = seq + 1 + j by omega] at this
    · rw [if_neg hroom]
      constructor
      · intro h
        omega
      · rintro ⟨-, h⟩
        exact absurd (h 0 (Nat.zero_le _)) hroom

/-- The packets sent stay below a bound when no more are to be sent, or when the
dequeued ring buffer is full before. -/
theorem sentInBatch_le_iff (dequeued : ℕ → ℕ) (b rest : ℕ) :
    sentInBatch c dequeued rest 1 ≤ b ↔
      rest ≤ b ∨ ∃ j ≤ b, c.dequeuedArraySize ≤ dequeued (1 + j) + (1 + j) := by
  have h := lt_sentInBatch_iff (c := c) dequeued b rest 1
  rw [← not_lt, h, not_and_or, not_lt]
  simp only [not_forall, not_lt, exists_prop]

/-- The loop itself keeps to the room in the dequeued ring buffer. -/
theorem sentInBatch_le_room (dequeued : ℕ → ℕ) (rest : ℕ) :
    sentInBatch c dequeued rest 1 ≤
      c.dequeuedArraySize - 1 - dequeued (sentInBatch c dequeued rest 1) := by
  rcases Nat.eq_zero_or_pos (sentInBatch c dequeued rest 1) with h0 | hpos
  · rw [h0]
    exact Nat.zero_le _
  · have h := (lt_sentInBatch_iff (c := c) dequeued (sentInBatch c dequeued rest 1 - 1) rest
      1).mp (by omega)
    have hlast := h.2 _ le_rfl
    rw [show 1 + (sentInBatch c dequeued rest 1 - 1) = sentInBatch c dequeued rest 1 by omega]
      at hlast
    omega

theorem upaPktsToRequest_le (c : UpaSizes) (queued dequeued : ℕ) :
    upaPktsToRequest c queued dequeued ≤ queued - 1 ∧
      upaPktsToRequest c queued dequeued ≤ c.dequeuedArraySize - 1 - (dequeued + 1) ∧
      upaPktsToRequest c queued dequeued ≤ c.maxIncomingPackets - 1 - 1 := by
  simp only [upaPktsToRequest]
  split_ifs <;> omega

/-- The 8-bit counter stays below a bound exactly when the number of packets does. -/
theorem counter_lt_iff {n b : ℕ} (hb : b < 256) :
    (∀ i : BitVec 8, i.toNat < n → i.toNat < b) ↔ n ≤ b := by
  constructor
  · intro h
    by_contra hlt
    have hi : (BitVec.ofNat 8 b).toNat = b := by
      rw [BitVec.toNat_ofNat]
      exact Nat.mod_eq_of_lt hb
    have := h (BitVec.ofNat 8 b) (by rw [hi]; omega)
    omega
  · intro h i hi
    omega

/-! ### The receiver's bounds -/

/-- A loop over the packets `1..n` that keeps its number or takes the current packet. -/
theorem foldl_range_le {α : Type*} {f : α → ℕ → α} (pkts : α → ℕ) {n : ℕ} {start : α}
    (hf : ∀ a j, pkts (f a j) = j + 1 ∨ pkts (f a j) = pkts a) (hstart : pkts start ≤ n) :
    pkts ((range n).foldl f start) ≤ n := by
  have key : ∀ l : List ℕ, (∀ j ∈ l, j < n) → ∀ a, pkts a ≤ n → pkts (l.foldl f a) ≤ n := by
    intro l
    induction l with
    | nil => exact fun _ a ha => ha
    | cons j l ih =>
      intro hl a ha
      have hj := hl j (mem_cons_self ..)
      refine ih (fun i hi => hl i (mem_cons_of_mem _ hi)) _ ?_
      rcases hf a j with h | h <;> omega
  exact key _ (fun j hj => List.mem_range.mp hj) start hstart

/-- A policy only lowers the number. -/
theorem RxSlotPolicy.accept_le (policy : RxSlotPolicy) (bitmap : BitVec 8) (n : ℕ) :
    policy.accept bitmap n ≤ n := by
  cases policy with
  | none => exact le_rfl
  | maxGain =>
    refine foldl_range_le Prod.fst (fun best j => ?_) (Nat.zero_le _)
    simp only [maxGainOne]
    split_ifs
    · exact Or.inl rfl
    · exact Or.inr rfl
  | maxPktsWithGain =>
    refine foldl_range_le id (fun pkts j => ?_) (Nat.zero_le _)
    simp only [maxPktsWithGainOne]
    split_ifs
    · exact Or.inl rfl
    · exact Or.inr rfl

namespace UpaReceiver

theorem maxAcceptablePkts_le (r : UpaReceiver) (info : BitVec 16) :
    r.maxAcceptablePkts c info ≤ (upaPktsRequested info).toNat ∧
      r.maxAcceptablePkts c info ≤ r.emptySpaceOfInputRingbuf c := by
  simp only [maxAcceptablePkts]
  split_ifs <;> omega

/-- **The receiver answers with at most what was requested and it has room for.** -/
theorem upaPktsToReceive_le (r : UpaReceiver) (f : TriggeringFrame) :
    r.upaPktsToReceive c f ≤ (upaPktsRequested f.infoRequested).toNat ∧
      r.upaPktsToReceive c f ≤ r.emptySpaceOfInputRingbuf c := by
  obtain ⟨hreq, hroom⟩ := r.maxAcceptablePkts_le (c := c) f.infoRequested
  simp only [upaPktsToReceive]
  split_ifs
  · have := r.policy.accept_le (upaBitmapRequested f.infoRequested)
      (r.maxAcceptablePkts c f.infoRequested)
    omega
  · omega

end UpaReceiver

/-- One reception: the position is inside the array and the buffer stays sound. -/
theorem RxBatch.receive_ok {k i : ℕ} {b : RxBatch} (h : b.input.Ok k)
    (hb : ∀ j ∈ b.inputIndices, j < 2 ^ k) (hi : b.input.peekPut = some i) (r : Reception) :
    (b.receive i r).input.Ok k ∧ ∀ j ∈ (b.receive i r).inputIndices, j < 2 ^ k := by
  have hroom : b.input.elements < 2 ^ k - 1 := by
    by_contra hfull
    have := (h.put_full hfull).2
    simp [this] at hi
  obtain ⟨-, hpeek, hok, -⟩ := h.put_spec hroom
  have hlt : i < 2 ^ k := by
    rw [hi, Option.some.injEq] at hpeek
    rw [hpeek]
    exact Nat.mod_lt _ (Nat.two_pow_pos k)
  have hmem : ∀ j ∈ b.inputIndices ++ [i], j < 2 ^ k := by
    intro j hj
    rcases List.mem_append.mp hj with hj | hj
    · exact hb j hj
    · rw [List.mem_singleton.mp hj]
      exact hlt
  simp only [RxBatch.receive]
  cases r.seq with
  | none => exact ⟨h, hmem⟩
  | some seq => exact ⟨hok, hmem⟩

/-- Whatever is received, the batch stays inside the input array. -/
theorem rxLoop_inputIndices {k : ℕ} (pktsToReceive : ℕ) (rs : List Reception) {b : RxBatch}
    (h : b.input.Ok k) (hb : ∀ j ∈ b.inputIndices, j < 2 ^ k) :
    ∀ j ∈ (rxLoop pktsToReceive rs b).inputIndices, j < 2 ^ k := by
  induction rs generalizing b with
  | nil => exact hb
  | cons r rs ih =>
    simp only [rxLoop]
    cases hpeek : b.input.peekPut with
    | none => exact hb
    | some i =>
      obtain ⟨hok, hind⟩ := RxBatch.receive_ok h hb hpeek r
      simp only
      split_ifs
      · exact hind
      · exact ih hok hind

namespace Exchange

/-- **The bounds hold exactly under the condition.** -/
theorem admissionBound_iff (x : Exchange c) : x.AdmissionBound ↔ x.AdmissionCondition := by
  obtain ⟨hqueued, -, -⟩ := upaPktsToRequest_le c x.queued x.dequeued
  have hD := c.dequeuedArraySize_le
  have hbits : (∀ seq ∈ x.rxBatch.acceptedSeqs, 0 ≤ bAckPosition seq ∧ bAckPosition seq < 16) ↔
      ∀ seq ∈ x.rxBatch.acceptedSeqs, 1 ≤ seq.toNat ∧ seq.toNat ≤ 16 := by
    refine forall₂_congr fun seq _ => ?_
    simp only [bAckPosition]
    omega
  have hsent : x.sent ≤ min x.pktsToRequest (x.receiver.emptySpaceOfInputRingbuf c) ↔
      x.pktsToSend ≤ min x.pktsToRequest (x.receiver.emptySpaceOfInputRingbuf c) ∨
        ∃ j ≤ min x.pktsToRequest (x.receiver.emptySpaceOfInputRingbuf c),
          c.dequeuedArraySize ≤ x.dequeuedAt (1 + j) + (1 + j) := sentInBatch_le_iff ..
  -- the number in the ACK is the number to send, unless nothing was requested
  have hsend : x.pktsToRequest = 0 ∧ x.pktsToSend = 0 ∨
      x.pktsToRequest ≠ 0 ∧ x.pktsToSend = x.pktsAllowed.toNat := by
    simp only [pktsToSend, upaPktsToSend]
    split_ifs <;> omega
  constructor
  · intro h
    refine ⟨?_, hbits.mp h.bAckBit⟩
    rcases hsend with ⟨h0, -⟩ | ⟨-, hall⟩
    · exact Or.inl h0
    · refine Or.inr ⟨?_, ?_, ?_⟩
      · rw [← hall]
        exact (counter_lt_iff (by omega)).mp h.batchIndex
      · rw [← hall]
        exact (counter_lt_iff (by omega)).mp h.bitIndex
      · rw [← hall]
        exact hsent.mp (le_min h.requested h.free)
  · rintro ⟨hcond, hseqs⟩
    have hle : x.pktsToSend ≤ c.dequeuedArraySize ∧ x.pktsToSend ≤ 16 ∧
        x.sent ≤ min x.pktsToRequest (x.receiver.emptySpaceOfInputRingbuf c) := by
      rcases hsend with ⟨-, h0⟩ | ⟨hne, hall⟩
      · exact ⟨by omega, by omega, hsent.mpr (Or.inl (by omega))⟩
      · obtain ⟨ha, hb, hc⟩ := hcond.resolve_left hne
        rw [← hall] at ha hb hc
        exact ⟨ha, hb, hsent.mpr hc⟩
    obtain ⟨hbatch, hbit, hmin⟩ := hle
    obtain ⟨hreq, hfree⟩ := le_min_iff.mp hmin
    have hroom : x.receiver.emptySpaceOfInputRingbuf c < c.maxIncomingPackets := by
      have := c.maxIncomingPackets_pos
      simp only [UpaReceiver.emptySpaceOfInputRingbuf]
      omega
    exact {
      requested := hreq
      queued := hreq.trans hqueued
      dequeued := sentInBatch_le_room _ _
      free := hfree
      batchIndex := (counter_lt_iff (by omega)).mpr hbatch
      bitIndex := (counter_lt_iff (by omega)).mpr hbit
      slotsIndex := fun i hi => by
        have := (x.receiver.maxAcceptablePkts_le (c := c) x.trigger.infoRequested).2
        omega
      inputIndex := by
        have hok : x.receiver.input.put.1.Ok c.inputBits := by
          by_cases hput : x.receiver.input.elements < 2 ^ c.inputBits - 1
          · exact (x.input_ok.put_spec hput).2.2.1
          · rw [(x.input_ok.put_full hput).1]
            exact x.input_ok
        simp only [rxBatch]
        split_ifs
        · exact rxLoop_inputIndices _ _ hok (by simp)
        · simp
      bAckBit := hbits.mpr hseqs }

/-- With the buffers of the default configuration, an ACK that allows 20 packets when
one was requested. -/
def overAllowed : Exchange ⟨4, 3, 8, by decide, by decide⟩ where
  queued := 2
  dequeued := 0
  pktsAllowed := 20
  dequeuedAt := fun _ => 1
  receiver := ⟨RingbufIndex.init 8, 0, false, .maxGain⟩
  input_ok := RingbufIndex.init_ok (k := 3) (by decide)
  trigger := ⟨true, true, upaInfoToRequest 1 0⟩
  receptions := []

/-- The sender sends 14 packets and fills its arrays of 16 up to index 19. -/
theorem overAllowed_not_bounded : ¬ overAllowed.AdmissionBound := by
  intro h
  exact absurd h.requested (by decide)

/-- The numbers of the frames accepted are among those received. -/
theorem rxLoop_acceptedSeqs {P : BitVec 16 → Prop} (n : ℕ) {rs : List Reception} {b : RxBatch}
    (hrs : ∀ r ∈ rs, ∀ seq ∈ r.seq, P seq) (hb : ∀ seq ∈ b.acceptedSeqs, P seq) :
    ∀ seq ∈ (rxLoop n rs b).acceptedSeqs, P seq := by
  induction rs generalizing b with
  | nil => exact hb
  | cons r rs ih =>
    simp only [rxLoop]
    cases b.input.peekPut with
    | none => exact hb
    | some i =>
      have hone : ∀ seq ∈ (b.receive i r).acceptedSeqs, P seq := by
        rw [RxBatch.receive]
        cases hr : r.seq with
        | none => exact hb
        | some seq =>
          exact forall_mem_append.mpr
            ⟨hb, forall_mem_singleton.mpr (hrs r mem_cons_self seq hr)⟩
      simp only
      split_ifs
      · exact hone
      · exact ih (fun r' hr' => hrs r' (mem_cons_of_mem r hr')) hone

/-- **An exchange with a receiver that runs this code meets the condition**, for input buffers of up to
16 places: whichever of the frames with the numbers of the packets sent arrive, in whatever order and
however often. -/
theorem admissionCondition_of_receiver (x : Exchange c) (hbits : c.inputBits ≤ 4)
    {bitmap : BitVec 8} (htrigger : x.trigger = ⟨true, true, upaInfoToRequest x.pktsToRequest bitmap⟩)
    (hack : x.pktsAllowed.toNat = x.receiver.upaPktsToReceive c x.trigger)
    (hseqs : ∀ r ∈ x.receptions, ∀ seq ∈ r.seq, 1 ≤ seq.toNat ∧ seq.toNat ≤ x.sent) :
    x.pktsToSend ≤ x.pktsToRequest ∧ x.AdmissionCondition := by
  obtain ⟨-, hdeq, hinc⟩ : _ ∧ x.pktsToRequest ≤ _ ∧ x.pktsToRequest ≤ _ :=
    upaPktsToRequest_le c x.queued x.dequeued
  obtain ⟨hreq, hroom⟩ := x.receiver.upaPktsToReceive_le (c := c) x.trigger
  have hM : c.maxIncomingPackets ≤ 16 := Nat.pow_le_pow_right (n := 2) (by omega) hbits
  have hlt : x.pktsToRequest < 256 := by omega
  rw [htrigger, TriggeringFrame.infoRequested, if_pos rfl,
    upaPktsRequested_upaInfoToRequest hlt bitmap, ← htrigger, ← hack] at hreq
  rw [← hack] at hroom
  have hsend : x.pktsToSend ≤ x.pktsToRequest := by
    simp only [pktsToSend, upaPktsToSend]
    split_ifs <;> omega
  have hsent : x.sent ≤ x.pktsToRequest := (sentInBatch_le_iff _ _ _).mpr (Or.inl hsend)
  refine ⟨hsend, ?_, ?_⟩
  · by_cases h0 : x.pktsToRequest = 0
    · exact Or.inl h0
    · refine Or.inr ⟨by omega, by omega, Or.inl ?_⟩
      omega
  · have hnil : ∀ seq ∈ ([] : List (BitVec 16)), 1 ≤ seq.toNat ∧ seq.toNat ≤ 16 := by simp
    simp only [rxBatch]
    split_ifs
    · refine rxLoop_acceptedSeqs _ (fun r hr seq hseq => ?_) hnil
      have := hseqs r hr seq hseq
      omega
    · exact hnil

/-- Two packets are asked for and received. -/
def twoAllowed : Exchange ⟨4, 3, 8, by decide, by decide⟩ where
  queued := 3
  dequeued := 0
  pktsAllowed := 2
  dequeuedAt := fun _ => 1
  receiver := ⟨RingbufIndex.init 8, 0, false, .none⟩
  input_ok := RingbufIndex.init_ok (k := 3) (by decide)
  trigger := ⟨true, true, upaInfoToRequest 2 0⟩
  receptions := [⟨some 2, false⟩, ⟨some 1, true⟩]

theorem admissionCondition_twoAllowed : twoAllowed.AdmissionCondition := by
  have hsent : twoAllowed.sent = 2 := by decide
  exact (@admissionCondition_of_receiver _ twoAllowed (by decide) 0 rfl (by decide)
    (by rw [hsent]; simp [twoAllowed])).2

end Exchange

end Asap.Upa
