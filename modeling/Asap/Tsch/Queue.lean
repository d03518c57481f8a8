import Asap.Tsch.RingbufIndex
import Mathlib.Data.Fintype.Basic

/-!
# Packets and neighbor queues

A packet is a block of a memory pool, and the queues hold pointers to it; a
`PacketId` is such a pointer, and the fields of a packet are read through the pool.
A neighbor keeps its packets in a ring buffer, and so does the slot operation those
it is done with, until the process context has called their callbacks.

## Main definitions

* `TschPacket`, `TschNeighbor` — the fields that the queue operations use.
* `PacketRing` — an array of packet pointers with its ring buffer index.
* `tschQueuePacketSent`, `tschQueueUpaPacketSent` — the verdict on a packet after its
  transmission, and after an aggregated exchange.
-/

namespace Asap.Tsch

/-- A link-layer address, `linkaddr_t`. -/
abbrev LinkAddr := Fin 8 → BitVec 8

instance neZero_eight : NeZero 8 := ⟨by decide⟩

/-- A pointer to a block of `packet_memb`. -/
abbrev PacketId := ℕ

/-- The MAC return values. -/
inductive MacStatus where
  | ok | collision | noAck | deferred | err | errFatal
deriving DecidableEq, Repr

/-- `struct tsch_packet` -/
structure TschPacket where
  transmissions : BitVec 8
  maxTransmissions : BitVec 8
  ret : MacStatus
deriving DecidableEq, Repr

/-- A ring buffer of packet pointers. -/
structure PacketRing where
  array : ℕ → PacketId
  ringbuf : RingbufIndex

namespace PacketRing

/-- The packets in the ring buffer, oldest first. -/
def toList (q : PacketRing) : List PacketId := q.ringbuf.contents q.array

@[simp] theorem length_toList (q : PacketRing) : q.toList.length = q.ringbuf.elements :=
  RingbufIndex.length_contents _ _

/-- Store at the put position and put; nothing happens when the buffer is full. -/
def append (q : PacketRing) (p : PacketId) : PacketRing :=
  match q.ringbuf.peekPut with
  | none => q
  | some i => { array := Function.update q.array i p, ringbuf := q.ringbuf.put.1 }

variable {k : ℕ} {q : PacketRing}

/-- Appending to a buffer with room. -/
theorem append_spec (h : q.ringbuf.Ok k) (hroom : q.ringbuf.elements < 2 ^ k - 1) (p : PacketId) :
    (q.append p).toList = q.toList ++ [p] ∧ (q.append p).ringbuf.Ok k ∧
      (q.append p).ringbuf.elements = q.ringbuf.elements + 1 := by
  obtain ⟨-, hpeek, hok, helems⟩ := h.put_spec hroom
  simp only [append, hpeek]
  exact ⟨h.contents_put hroom p hpeek, hok, helems⟩

/-- `ringbufindex_get` and the element found there, if there is one. -/
def pop (q : PacketRing) : PacketRing × Option PacketId :=
  ({ q with ringbuf := q.ringbuf.get.1 }, q.ringbuf.get.2.map q.array)

/-- A ring buffer has an element to take, or is empty. -/
theorem pop_cases (h : q.ringbuf.Ok k) :
    (∃ p, q.pop.2 = some p ∧ q.toList = p :: q.pop.1.toList ∧ q.pop.1.ringbuf.Ok k ∧
      q.ringbuf.peekGet.map q.array = some p) ∨
    (q.pop = (q, none) ∧ q.toList = [] ∧ q.ringbuf.peekGet = none) := by
  by_cases hpos : 0 < q.ringbuf.elements
  · obtain ⟨hpeek, hget, hshift⟩ := RingbufIndex.get_of_pos hpos
    obtain ⟨hok, -, -⟩ := h.shiftGetPtr_spec (n := 1) hpos
    have hhead : q.toList[0]? = some (q.array q.ringbuf.getPtr.toNat) := by
      rw [toList, h.getElem?_contents hpos, Nat.add_zero, Nat.mod_eq_of_lt h.get]
    have htail : q.pop.1.toList = q.toList.drop 1 := by
      simp only [pop, toList, hshift]
      exact h.contents_shiftGetPtr hpos
    refine Or.inl ⟨q.array q.ringbuf.getPtr.toNat, by simp [pop, hget], ?_, ?_, by simp [hpeek]⟩
    · cases hlist : q.toList with
      | nil => simp [hlist] at hhead
      | cons x xs =>
        rw [hlist] at hhead htail
        simp only [List.getElem?_cons_zero, Option.some.injEq] at hhead
        rw [htail, hhead, List.drop_one, List.tail_cons]
    · simpa only [pop, hshift] using hok
  · have hzero : q.ringbuf.elements = 0 := by omega
    obtain ⟨hpeek, hget⟩ := RingbufIndex.get_of_empty hzero
    refine Or.inr ⟨by simp [pop, hget], ?_, hpeek⟩
    exact List.length_eq_zero_iff.mp (by rw [length_toList, hzero])

end PacketRing

/-- `TSCH_MAC_MIN_BE` -/
def tschMacMinBe : BitVec 8 := 1

/-- `TSCH_MAC_MAX_BE` -/
def tschMacMaxBe : BitVec 8 := 5

/-- `struct tsch_neighbor` -/
structure TschNeighbor where
  isBroadcast : Bool
  isTimeSource : Bool
  backoffExponent : BitVec 8
  backoffWindow : BitVec 8
  txLinksCount : BitVec 8
  dedicatedTxLinksCount : BitVec 8
  tx : PacketRing

namespace TschNeighbor

section

variable (n : TschNeighbor)

/-- The queue of a neighbor, oldest packet first. -/
def queue : List PacketId := n.tx.toList

/-- `tsch_queue_backoff_reset` -/
def backoffReset : TschNeighbor :=
  { n with backoffWindow := 0, backoffExponent := tschMacMinBe }

@[simp] theorem backoffReset_tx : n.backoffReset.tx = n.tx := rfl

/-- `tsch_queue_backoff_inc`, with the random number it draws. -/
def backoffInc (rand : BitVec 16) : TschNeighbor :=
  let exponent := min (n.backoffExponent.toNat + 1) tschMacMaxBe.toNat
  { n with
    backoffExponent := BitVec.ofNat 8 exponent
    backoffWindow := BitVec.ofNat 8 ((rand >>> 6).toNat % 2 ^ exponent) + 1 }

@[simp] theorem backoffInc_tx (rand : BitVec 16) :
    (n.backoffInc rand).tx = n.tx := rfl

/-- `tsch_queue_remove_packet_from_queue`, without the lock. -/
def removePacketFromQueue : TschNeighbor × Option PacketId :=
  ({ n with tx := n.tx.pop.1 }, n.tx.pop.2)

end

end TschNeighbor

section

variable (n : TschNeighbor) (p : TschPacket)

/-- `tsch_queue_packet_sent`, for a slot operation: the neighbor after it, and whether the
packet stays in the queue. -/
def tschQueuePacketSent (isSharedLink : Bool)
    (status : MacStatus) (rand : BitVec 16) : TschNeighbor × Bool :=
  if status = .ok then
    let n := n.removePacketFromQueue.1
    (if !n.isBroadcast && (isSharedLink || n.tx.ringbuf.empty) then n.backoffReset else n, false)
  else
    let drop := decide (p.maxTransmissions ≤ p.transmissions)
    let n := if drop then n.removePacketFromQueue.1 else n
    (if !n.isBroadcast && isSharedLink then n.backoffInc rand else n, !drop)

/-- The head of the queue is removed exactly when the packet is said to leave it. -/
theorem tschQueuePacketSent_tx (isSharedLink : Bool)
    (status : MacStatus) (rand : BitVec 16) :
    (tschQueuePacketSent n p isSharedLink status rand).1.tx =
      if (tschQueuePacketSent n p isSharedLink status rand).2 then n.tx else n.tx.pop.1 := by
  simp only [tschQueuePacketSent]
  split_ifs <;> simp_all [TschNeighbor.removePacketFromQueue]

/-- `tsch_queue_upa_packet_sent`, for a slot operation, which never runs under the lock:
the neighbor after it, and whether the packet stays in the queue. -/
def tschQueueUpaPacketSent (status : MacStatus) :
    TschNeighbor × Bool :=
  if status = .ok then
    (if !n.isBroadcast && n.tx.ringbuf.empty then n.backoffReset else n, false)
  else (n, !decide (p.maxTransmissions ≤ p.transmissions))

@[simp] theorem tschQueueUpaPacketSent_tx
    (status : MacStatus) : (tschQueueUpaPacketSent n p status).1.tx = n.tx := by
  simp only [tschQueueUpaPacketSent]
  split_ifs <;> rfl

end

end Asap.Tsch
