import Asap.Lib.Custody
import Asap.Lib.Run
import Asap.Tsch.Queue
import Mathlib.Data.List.Nodup

/-!
# Conservation of packets

A packet is added to the queue of a neighbor by the process context, sent from the head
of the queue by slot operations, put by the last of them in the ring of dequeued
packets, and completed by the process context: its callback is called, and its block
freed. A queue may also be flushed, which completes its packets at once.

A slot operation is an interrupt. It holds the head of a queue from its start until it
ends, many steps of the process context later, and then removes whatever is at the head.
Nothing keeps a flush from running in between. Without one every packet is at exactly
one place and is completed once (`packets_conserved`); with one a packet is completed
twice (`flushed_packet_completed_twice`).

The completion of one packet is one step here, and so is one round of a flush; what
callbacks do are steps before or after it.

## Main definitions

* `QueueState` — queues, blocks, the dequeued ring and what the slot operation holds.
* `QueueEvent`, `QueueState.step` — the operations of the two contexts.
* `Place`, `QueueState.At` — where a packet is.
* `Lived` — the record of a block: added, sent, freed, again and again.
* `PacketsConserved` — the invariant.
-/

namespace Asap.Tsch

open Asap.Lib Function Option List

/-- The sizes of the pool and of the ring buffers, powers of two that fit the 8-bit
positions. -/
structure QueueConfig where
  packetNum : ℕ
  queueBits : ℕ
  dequeuedBits : ℕ
  queue_le : queueBits ≤ 7
  dequeued_le : dequeuedBits ≤ 7

/-- What a slot operation holds from its start: `current_neighbor`, `current_packet` and
`dequeued_index`. -/
structure SlotTx where
  currentNeighbor : LinkAddr
  currentPacket : PacketId
  dequeuedIndex : ℕ

/-- What happens to the block of a packet. -/
inductive PacketAct where
  | added (p : PacketId)
  | sent (p : PacketId)
  | freed (p : PacketId)
deriving DecidableEq

/-- The block an act is about. -/
def PacketAct.packet : PacketAct → PacketId
  | .added p => p
  | .sent p => p
  | .freed p => p

/-- Queues, blocks, the dequeued ring and what the slot operation holds, with the record
of what happened to the blocks. -/
structure QueueState where
  nbrs : LinkAddr → Option TschNeighbor
  /-- the blocks of `packet_memb`, in use or not -/
  packets : PacketId → TschPacket
  used : PacketId → Bool
  dequeued : PacketRing
  slot : Option SlotTx
  acts : List PacketAct

namespace QueueState

/-- A new entry of the table of neighbors. -/
def newNbr (cfg : QueueConfig) (isBroadcast : Bool) : TschNeighbor :=
  TschNeighbor.backoffReset {
    isBroadcast := isBroadcast
    isTimeSource := false
    backoffExponent := 0
    backoffWindow := 0
    txLinksCount := 0
    dedicatedTxLinksCount := 0
    tx := { array := fun _ => 0, ringbuf := .init (BitVec.ofNat 8 (2 ^ cfg.queueBits)) } }

/-- Change an entry of the table of neighbors. -/
def setNbr (s : QueueState) (addr : LinkAddr) (n : TschNeighbor) : QueueState :=
  { s with nbrs := Function.update s.nbrs addr (some n) }

/-- `memb_alloc` on the pool of packets. -/
def allocPacket (cfg : QueueConfig) (s : QueueState) : Option PacketId :=
  (List.range cfg.packetNum).find? fun p => !s.used p

/-- The sent callback, then `tsch_queue_free_packet`. -/
def completePacket (s : QueueState) (p : PacketId) : QueueState :=
  { s with
    used := Function.update s.used p false
    acts := s.acts ++ [.sent p, .freed p] }

/-! ## The process context -/

section

variable (cfg : QueueConfig) (s : QueueState) (addr : LinkAddr)

/-- `tsch_queue_add_nbr`; `none` while a slot operation runs, as the lock waits for its
end. `room` says whether the table can take one more. -/
def tschQueueAddNbr (isBroadcast room : Bool) : Option QueueState :=
  match s.nbrs addr with
  | some _ => some s
  | none =>
    if s.slot.isSome then none
    else some (if room then s.setNbr addr (newNbr cfg isBroadcast) else s)

/-- The rest of `tsch_queue_add_packet`, with the entry of the neighbor; `qb` says whether
there is a queue buffer. -/
def enqueue (maxTransmissions : BitVec 8)
    (qb : Bool) : QueueState :=
  match s.nbrs addr with
  | none => s
  | some n =>
    match n.tx.ringbuf.peekPut, s.allocPacket cfg with
    | some _, some p =>
      if qb then
        { s.setNbr addr { n with tx := n.tx.append p } with
          packets := Function.update s.packets p ⟨0, maxTransmissions, .deferred⟩
          used := Function.update s.used p true
          acts := s.acts ++ [.added p] }
      else s
    | _, _ => s

/-- `tsch_queue_add_packet` -/
def tschQueueAddPacket
    (maxTransmissions : BitVec 8) (isBroadcast room qb : Bool) : Option QueueState :=
  (s.tschQueueAddNbr cfg addr isBroadcast room).map fun s => s.enqueue cfg addr maxTransmissions qb

end

/-- One round of `tsch_queue_flush_nbr_queue`. -/
def flushPacket (s : QueueState) (addr : LinkAddr) : QueueState :=
  match s.nbrs addr with
  | none => s
  | some n =>
    match n.removePacketFromQueue with
    | (_, none) => s
    | (n, some p) =>
      { s.setNbr addr n with
        packets := Function.update s.packets p { s.packets p with ret := .err } }.completePacket p

/-- `tsch_queue_drop_packets`: a round for each packet of the queue. -/
def tschQueueDropPackets (s : QueueState) (addr : LinkAddr) : QueueState :=
  let rounds := (s.nbrs addr).elim 0 (·.tx.ringbuf.elements)
  let s := (List.range rounds).foldl (fun s _ => s.flushPacket addr) s
  { s with nbrs := Function.update s.nbrs addr ((s.nbrs addr).map (·.backoffReset)) }

/-- One round of `tsch_tx_process_pending`; `none` when the ring is empty. The removal of
unused neighbors is an operation of its own. -/
def txProcessPacket (s : QueueState) : Option QueueState :=
  match s.dequeued.pop with
  | (_, none) => none
  | (dequeued, some p) => some ({ s with dequeued := dequeued }.completePacket p)

/-- One round of `tsch_queue_free_unused_neighbors`; `none` while a slot operation runs, as
the lock waits for its end. -/
def removeNbr (s : QueueState) (addr : LinkAddr) : Option QueueState :=
  match s.nbrs addr with
  | none => some s
  | some n =>
    if !n.isBroadcast && !n.isTimeSource && n.txLinksCount == 0 && n.tx.ringbuf.empty then
      if s.slot.isSome then none else some { s with nbrs := Function.update s.nbrs addr none }
    else some s

/-! ## The slot operation -/

/-- The start of a slot that serves a neighbor: the head of its queue is read, and a place
in the dequeued ring; `none` when there is no packet or no place. -/
def slotStart (s : QueueState) (addr : LinkAddr) : Option QueueState :=
  match s.slot, s.nbrs addr with
  | none, some n =>
    match n.tx.ringbuf.peekGet, s.dequeued.ringbuf.peekPut with
    | some i, some d => some { s with slot := some ⟨addr, n.tx.array i, d⟩ }
    | _, _ => none
  | _, _ => none

/-- The end of the slot: the transmission is recorded, the queue is updated, and a packet
that leaves it is put in the dequeued ring. -/
def slotEnd (s : QueueState) (status : MacStatus) (isSharedLink : Bool) (rand : BitVec 16) :
    Option QueueState :=
  match s.slot with
  | none => none
  | some c =>
    match s.nbrs c.currentNeighbor with
    | none => none
    | some n =>
      let p := { s.packets c.currentPacket with
        transmissions := (s.packets c.currentPacket).transmissions + 1
        ret := status }
      let (n, inQueue) := tschQueuePacketSent n p isSharedLink status rand
      let s := { s.setNbr c.currentNeighbor n with
        packets := Function.update s.packets c.currentPacket p
        slot := none }
      some (if inQueue then s
        else { s with dequeued := {
          array := Function.update s.dequeued.array c.dequeuedIndex c.currentPacket
          ringbuf := s.dequeued.ringbuf.put.1 } })

end QueueState

/-- The operations. `updateNbr` is any change to a neighbor that leaves its queue alone. -/
inductive QueueEvent where
  | addNbr (addr : LinkAddr) (isBroadcast room : Bool)
  | addPacket (addr : LinkAddr) (maxTransmissions : BitVec 8) (isBroadcast room qb : Bool)
  | flushPacket (addr : LinkAddr)
  | txProcessPacket
  | removeNbr (addr : LinkAddr)
  | updateNbr (addr : LinkAddr) (f : TschNeighbor → TschNeighbor)
  | slotStart (addr : LinkAddr)
  | slotEnd (status : MacStatus) (isSharedLink : Bool) (rand : BitVec 16)

namespace QueueState

/-- One operation. -/
def step (cfg : QueueConfig) (s : QueueState) : QueueEvent → Option QueueState
  | .addNbr addr isBroadcast room => s.tschQueueAddNbr cfg addr isBroadcast room
  | .addPacket addr maxTransmissions isBroadcast room qb =>
    s.tschQueueAddPacket cfg addr maxTransmissions isBroadcast room qb
  | .flushPacket addr => some (s.flushPacket addr)
  | .txProcessPacket => s.txProcessPacket
  | .removeNbr addr => s.removeNbr addr
  | .updateNbr addr f =>
    let entry := (s.nbrs addr).map fun n => { f n with tx := n.tx }
    some { s with nbrs := Function.update s.nbrs addr entry }
  | .slotStart addr => s.slotStart addr
  | .slotEnd status isSharedLink rand => s.slotEnd status isSharedLink rand

/-- No neighbor and no packet; the contents of the blocks and of the ring are as they are. -/
def init (cfg : QueueConfig) (packets : PacketId → TschPacket) (array : ℕ → PacketId) :
    QueueState where
  nbrs := fun _ => none
  packets := packets
  used := fun _ => false
  dequeued := ⟨array, .init (BitVec.ofNat 8 (2 ^ cfg.dequeuedBits))⟩
  slot := none
  acts := []

end QueueState

/-! ## The ledger -/

/-- What the queues are about: who holds each packet, and what happened to it. -/
structure Ledger where
  queue : LinkAddr → List PacketId
  dequeued : List PacketId
  used : PacketId → Bool
  acts : List PacketAct

/-- The places of a packet. -/
inductive Place where
  | queue (addr : LinkAddr)
  | dequeued
  | free

/-- The record of a block, and whether it is in use: a packet is added, its callback is
called, and it is freed, again and again. -/
inductive Lived (p : PacketId) : List PacketAct → Bool → Prop
  | new : Lived p [] false
  | added {acts} (h : Lived p acts false) : Lived p (acts ++ [.added p]) true
  | completed {acts} (h : Lived p acts true) : Lived p (acts ++ [.sent p, .freed p]) false

namespace Ledger

variable {l l' : Ledger}

/-- The packet is at a place. -/
def At (l : Ledger) (p : PacketId) : Place → Prop
  | .queue addr => p ∈ l.queue addr
  | .dequeued => p ∈ l.dequeued
  | .free => l.used p = false

/-- What happened to a block. -/
def history (l : Ledger) (p : PacketId) : List PacketAct := l.acts.filter fun a => a.packet = p

/-- Each block is in one queue, in the dequeued ring or free, and once only; packets are
completed once, the callback before the block is freed. -/
structure Conserved (l : Ledger) : Prop where
  exclusive : Exclusive l.At
  nodup_queue : ∀ addr, (l.queue addr).Nodup
  nodup_dequeued : l.dequeued.Nodup
  lived : ∀ p, Lived p (l.history p) (l.used p)

/-- The moves of packets: into a queue, out of the dequeued ring and out of a queue to be
completed, and from the head of a queue to the dequeued ring. -/
inductive Move (l : Ledger) : Ledger → Prop
  | stay : Move l l
  | add (addr : LinkAddr) (p : PacketId) (hfree : l.used p = false) : Move l
      { l with
        queue := Function.update l.queue addr (l.queue addr ++ [p])
        used := Function.update l.used p true
        acts := l.acts ++ [.added p] }
  | flush (addr : LinkAddr) (p : PacketId) (rest : List PacketId)
      (hhead : l.queue addr = p :: rest) : Move l
      { l with
        queue := Function.update l.queue addr rest
        used := Function.update l.used p false
        acts := l.acts ++ [.sent p, .freed p] }
  | complete (p : PacketId) (rest : List PacketId) (hhead : l.dequeued = p :: rest) : Move l
      { l with
        dequeued := rest
        used := Function.update l.used p false
        acts := l.acts ++ [.sent p, .freed p] }
  | dequeue (addr : LinkAddr) (p : PacketId) (rest : List PacketId)
      (hhead : l.queue addr = p :: rest) : Move l
      { l with
        queue := Function.update l.queue addr rest
        dequeued := l.dequeued ++ [p] }

/-- Acts on one block leave the record of the others alone. -/
theorem history_append (l : Ledger) {p : PacketId} {acts : List PacketAct}
    (hacts : ∀ a ∈ acts, a.packet = p) (q : PacketId) (queue : LinkAddr → List PacketId)
    (dequeued : List PacketId) (used : PacketId → Bool) :
    history ⟨queue, dequeued, used, l.acts ++ acts⟩ q =
      if q = p then l.history q ++ acts else l.history q := by
  have hacts' : acts.filter (fun a => a.packet = q) = if q = p then acts else [] := by
    split_ifs with hq
    · exact List.filter_eq_self.mpr fun a ha => by simp [hacts a ha, hq]
    · exact List.filter_eq_nil_iff.mpr fun a ha => by simp [hacts a ha, Ne.symm hq]
  simp only [history, filter_append, hacts']
  split_ifs
  · rfl
  · exact append_nil _

/-- The record goes on as it should for the block acted on, and stays for the others. -/
theorem lived_append (h : l.Conserved) {p : PacketId} {acts : List PacketAct} {b : Bool}
    (hacts : ∀ a ∈ acts, a.packet = p) (hp : Lived p (l.history p ++ acts) b)
    (queue : LinkAddr → List PacketId) (dequeued : List PacketId) (q : PacketId) :
    Lived q (history ⟨queue, dequeued, update l.used p b, l.acts ++ acts⟩ q)
      (update l.used p b q) := by
  rw [l.history_append hacts]
  split_ifs with hq
  · rw [hq, update_self]
    exact hp
  · rw [update_of_ne hq]
    exact h.lived q

theorem mem_update_queue {addr a : LinkAddr} {q : PacketId} {rest : List PacketId}
    (hsame : q ∈ rest ↔ q ∈ l.queue addr) :
    q ∈ update l.queue addr rest a ↔ q ∈ l.queue a := by
  by_cases ha : a = addr
  · rw [ha, update_self]
    exact hsame
  · rw [update_of_ne ha]

section

variable (h : l.Conserved)

include h

theorem nodup_update_queue {addr : LinkAddr} {rest : List PacketId}
    (hrest : rest.Nodup) (a : LinkAddr) : (update l.queue addr rest a).Nodup := by
  by_cases ha : a = addr
  · rw [ha, update_self]
    exact hrest
  · rw [update_of_ne ha]
    exact h.nodup_queue a

/-- A packet at one place is at no other. -/
theorem Conserved.not_at {p : PacketId} {x y : Place} (hx : l.At p x)
    (hne : y ≠ x) : ¬ l.At p y := fun hy => hne (h.exclusive.unique hy hx)

/-- A packet that is held is in use. -/
theorem Conserved.used {p : PacketId} {x : Place} (hx : l.At p x)
    (hne : .free ≠ x) : l.used p = true := by
  by_contra hfree
  exact h.not_at hx hne (Bool.eq_false_iff.mpr hfree)

/-- The packets behind the head of a queue. -/
theorem Conserved.mem_rest {addr : LinkAddr} {p : PacketId}
    {rest : List PacketId} (hhead : l.queue addr = p :: rest) :
    l.At p (.queue addr) ∧ p ∉ rest ∧ rest.Nodup ∧
      ∀ q ≠ p, (q ∈ rest ↔ q ∈ l.queue addr) := by
  have hnodup := List.nodup_cons.mp (hhead ▸ h.nodup_queue addr)
  refine ⟨?_, hnodup.1, hnodup.2, fun q hq => ?_⟩
  · simp [At, hhead]
  · simp [hhead, hq]

/-- The packets behind the head of the dequeued ring. -/
theorem Conserved.mem_rest_dequeued {p : PacketId} {rest : List PacketId}
    (hhead : l.dequeued = p :: rest) :
    l.At p .dequeued ∧ p ∉ rest ∧ rest.Nodup ∧ ∀ q ≠ p, (q ∈ rest ↔ q ∈ l.dequeued) := by
  have hnodup := List.nodup_cons.mp (hhead ▸ h.nodup_dequeued)
  refine ⟨?_, hnodup.1, hnodup.2, fun q hq => ?_⟩
  · simp [At, hhead]
  · simp [hhead, hq]

/-- **Every move conserves packets.** -/
theorem Conserved.move (hmove : l.Move l') : l'.Conserved := by
  cases hmove with
  | stay => exact h
  | add addr p hfree =>
    have hat : l.At p .free := hfree
    have hnot : ∀ a, p ∉ l.queue a := fun a => h.not_at (y := .queue a) hat nofun
    have hnot' : p ∉ l.dequeued := h.not_at (y := .dequeued) hat nofun
    refine ⟨h.exclusive.move (i := p) (y := .queue addr) ?_ ?_, ?_, h.nodup_dequeued, ?_⟩
    · rintro (a | _ | _)
      · by_cases ha : a = addr
        · simp [At, ha]
        · simp [At, ha, hnot a]
      · simp [At, hnot']
      · simp [At]
    · rintro q hq (a | _ | _)
      · exact mem_update_queue (by simp [hq])
      · exact Iff.rfl
      · simp [At, hq]
    · refine nodup_update_queue h (List.nodup_append.mpr
        ⟨h.nodup_queue addr, nodup_singleton p, fun a ha b hb hab => ?_⟩)
      rw [mem_singleton] at hb
      exact hnot addr (hb ▸ hab ▸ ha)
    · have hp := Lived.added (hfree ▸ h.lived p)
      exact lived_append h (by simp [PacketAct.packet]) hp _ _
  | flush addr p rest hhead =>
    obtain ⟨hat, hrest, hnodup, hsame⟩ := h.mem_rest hhead
    have hused := h.used hat nofun
    refine ⟨h.exclusive.move (i := p) (y := .free) ?_ ?_, nodup_update_queue h hnodup,
      h.nodup_dequeued, ?_⟩
    · rintro (a | _ | _)
      · by_cases ha : a = addr
        · simp [At, ha, hrest]
        · simpa [At, ha] using h.not_at (y := .queue a) hat (by simp [ha])
      · simpa [At] using h.not_at (y := .dequeued) hat nofun
      · simp [At]
    · rintro q hq (a | _ | _)
      · exact mem_update_queue (hsame q hq)
      · exact Iff.rfl
      · simp [At, hq]
    · have hp := Lived.completed (hused ▸ h.lived p)
      exact lived_append h (by simp [PacketAct.packet]) hp _ _
  | complete p rest hhead =>
    obtain ⟨hat, hrest, hnodup, hsame⟩ := h.mem_rest_dequeued hhead
    have hused := h.used hat nofun
    refine ⟨h.exclusive.move (i := p) (y := .free) ?_ ?_, h.nodup_queue, hnodup, ?_⟩
    · rintro (a | _ | _)
      · simpa [At] using h.not_at (y := .queue a) hat nofun
      · simp [At, hrest]
      · simp [At]
    · rintro q hq (a | _ | _)
      · exact Iff.rfl
      · exact hsame q hq
      · simp [At, hq]
    · have hp := Lived.completed (hused ▸ h.lived p)
      exact lived_append h (by simp [PacketAct.packet]) hp _ _
  | dequeue addr p rest hhead =>
    obtain ⟨hat, hrest, hnodup, hsame⟩ := h.mem_rest hhead
    have hused := h.used hat nofun
    have hnot : p ∉ l.dequeued := h.not_at (y := .dequeued) hat nofun
    refine ⟨h.exclusive.move (i := p) (y := .dequeued) ?_ ?_, nodup_update_queue h hnodup, ?_,
      h.lived⟩
    · rintro (a | _ | _)
      · by_cases ha : a = addr
        · simp [At, ha, hrest]
        · simpa [At, ha] using h.not_at (y := .queue a) hat (by simp [ha])
      · simp [At]
      · simp [At, hused]
    · rintro q hq (a | _ | _)
      · exact mem_update_queue (hsame q hq)
      · simp [At, hq]
      · exact Iff.rfl
    · refine List.nodup_append.mpr
        ⟨h.nodup_dequeued, nodup_singleton p, fun a ha b hb hab => ?_⟩
      rw [mem_singleton] at hb
      exact hnot (hb ▸ hab ▸ ha)

end

end Ledger

namespace QueueState

section

variable (s : QueueState)

/-- The queue of a neighbor, oldest packet first. -/
def queue (addr : LinkAddr) : List PacketId := (s.nbrs addr).elim [] (·.queue)

/-- The ledger of a state. -/
def ledger : Ledger := ⟨s.queue, s.dequeued.toList, s.used, s.acts⟩

/-- The packet that removing from a queue gives. -/
def removed (addr : LinkAddr) : Option PacketId :=
  (s.nbrs addr).bind (·.removePacketFromQueue.2)

/-- **Packets are conserved**, and what the slot operation would remove from the queue is the
packet it sends. -/
structure PacketsConserved : Prop where
  conserved : s.ledger.Conserved
  transmitted : ∀ c, s.slot = some c → s.removed c.currentNeighbor = some c.currentPacket

/-- The condition on an operation: no flush of the queue that the slot operation serves. -/
def FlushCondition : QueueEvent → Prop
  | .flushPacket addr => ∀ c, s.slot = some c → c.currentNeighbor ≠ addr
  | _ => True

end

/-! ## The invariant -/

/-- Packets are conserved, the ring buffers are well formed, and the slot operation holds the
head of a queue and the put position of the dequeued ring. -/
structure Inv (cfg : QueueConfig) (s : QueueState) : Prop where
  conserved : s.ledger.Conserved
  queue_ok : ∀ addr n, s.nbrs addr = some n → n.tx.ringbuf.Ok cfg.queueBits
  dequeued_ok : s.dequeued.ringbuf.Ok cfg.dequeuedBits
  head : ∀ c, s.slot = some c → (s.queue c.currentNeighbor).head? = some c.currentPacket
  dequeuedIndex : ∀ c, s.slot = some c → s.dequeued.ringbuf.peekPut = some c.dequeuedIndex

variable {cfg : QueueConfig} {s t : QueueState} {addr : LinkAddr}

theorem queue_of_some {n : TschNeighbor} (hn : s.nbrs addr = some n) : s.queue addr = n.queue := by
  rw [queue, hn]
  rfl

/-- The queues after a change of one entry. -/
theorem queue_update (s : QueueState) (addr : LinkAddr) (entry : Option TschNeighbor) (a : LinkAddr) :
    (update s.nbrs addr entry a).elim [] (·.queue) =
      update s.queue addr (entry.elim [] (·.queue)) a := by
  by_cases ha : a = addr
  · rw [ha, update_self, update_self]
  · rw [update_of_ne ha, update_of_ne ha, queue]

theorem ok_update (h : s.Inv cfg) {entry : Option TschNeighbor}
    (hentry : ∀ n, entry = some n → n.tx.ringbuf.Ok cfg.queueBits) (a : LinkAddr) (n : TschNeighbor)
    (hn : update s.nbrs addr entry a = some n) : n.tx.ringbuf.Ok cfg.queueBits := by
  by_cases ha : a = addr
  · rw [ha, update_self] at hn
    exact hentry n hn
  · rw [update_of_ne ha] at hn
    exact h.queue_ok a n hn

/-- A queue gives its head. -/
theorem Inv.removed_eq (h : s.Inv cfg) (addr : LinkAddr) :
    s.removed addr = (s.queue addr).head? := by
  cases hn : s.nbrs addr with
  | none => simp [removed, queue, hn]
  | some n =>
    rw [queue_of_some hn, TschNeighbor.queue]
    obtain ⟨p, hp, hlist, -, -⟩ | ⟨hp, hlist, -⟩ := PacketRing.pop_cases (h.queue_ok addr n hn)
    · simp [removed, hn, TschNeighbor.removePacketFromQueue, hp, hlist]
    · simp [removed, hn, TschNeighbor.removePacketFromQueue, hp, hlist]

theorem Inv.packetsConserved (h : s.Inv cfg) : s.PacketsConserved where
  conserved := h.conserved
  transmitted := fun c hc => (h.removed_eq _).trans (h.head c hc)

/-- A change of one entry that keeps its queue. -/
theorem Inv.setEntry (h : s.Inv cfg) {entry : Option TschNeighbor}
    (hentry : ∀ n, entry = some n → n.tx.ringbuf.Ok cfg.queueBits)
    (hqueue : entry.elim [] (·.queue) = s.queue addr) :
    Inv cfg { s with nbrs := update s.nbrs addr entry } := by
  have hsame : queue { s with nbrs := update s.nbrs addr entry } = s.queue := by
    funext a
    rw [queue, queue_update, hqueue, update_eq_self]
  refine ⟨?_, ok_update h hentry, h.dequeued_ok, fun c hc => ?_, h.dequeuedIndex⟩
  · rw [ledger, hsame]
    exact h.conserved
  · rw [hsame]
    exact h.head c hc

/-! ## The process context -/

theorem newNbr_spec (cfg : QueueConfig) (isBroadcast : Bool) :
    (newNbr cfg isBroadcast).tx.ringbuf.Ok cfg.queueBits ∧ (newNbr cfg isBroadcast).queue = [] := by
  refine ⟨RingbufIndex.init_ok cfg.queue_le, List.length_eq_zero_iff.mp ?_⟩
  rw [TschNeighbor.queue, PacketRing.length_toList]
  simp [newNbr, RingbufIndex.elements, RingbufIndex.init]

theorem Inv.addNbr (h : s.Inv cfg) {isBroadcast room : Bool}
    (ht : s.tschQueueAddNbr cfg addr isBroadcast room = some t) : t.Inv cfg := by
  simp only [tschQueueAddNbr] at ht
  cases hn : s.nbrs addr with
  | some n =>
    rw [hn] at ht
    cases ht
    exact h
  | none =>
    rw [hn] at ht
    simp only at ht
    split_ifs at ht
    · cases ht
      obtain ⟨hok, hempty⟩ := newNbr_spec cfg isBroadcast
      refine h.setEntry (fun n hn => ?_) ?_
      · cases hn
        exact hok
      · simp [hempty, queue, hn]
    · cases ht
      exact h

/-- Adding a packet: nothing happens, or a free block goes to the end of the queue. -/
theorem enqueue_cases (cfg : QueueConfig) (s : QueueState) (addr : LinkAddr)
    (maxTransmissions : BitVec 8) (qb : Bool) :
    s.enqueue cfg addr maxTransmissions qb = s ∨
      ∃ n p, s.nbrs addr = some n ∧ n.tx.ringbuf.peekPut ≠ none ∧ s.used p = false ∧
        s.enqueue cfg addr maxTransmissions qb =
          { s.setNbr addr { n with tx := n.tx.append p } with
            packets := update s.packets p ⟨0, maxTransmissions, .deferred⟩
            used := update s.used p true
            acts := s.acts ++ [.added p] } := by
  simp only [enqueue]
  split
  · exact Or.inl rfl
  · rename_i n hn
    split
    · rename_i i p hput hp
      split_ifs
      · exact Or.inr ⟨n, p, hn, by simp [hput], by simpa using List.find?_some hp, rfl⟩
      · exact Or.inl rfl
    · exact Or.inl rfl

section

variable (h : s.Inv cfg)

include h

theorem Inv.enqueue (maxTransmissions : BitVec 8) (qb : Bool) :
    (s.enqueue cfg addr maxTransmissions qb).Inv cfg := by
  obtain heq | ⟨n, p, hn, hput, hfree, heq⟩ := enqueue_cases cfg s addr maxTransmissions qb
  · rwa [heq]
  · rw [heq]
    have hok := h.queue_ok addr n hn
    have hroom : n.tx.ringbuf.elements < 2 ^ cfg.queueBits - 1 := by
      by_contra hfull
      exact hput (hok.put_full hfull).2
    obtain ⟨hlist, hok', -⟩ := PacketRing.append_spec hok hroom p
    have hqueue : queue (s.setNbr addr { n with tx := n.tx.append p }) =
        update s.queue addr (s.queue addr ++ [p]) := by
      funext a
      rw [queue, setNbr, queue_update, queue_of_some hn]
      simp only [elim_some, TschNeighbor.queue, hlist]
    refine ⟨?_, ok_update h fun m hm => ?_, h.dequeued_ok, fun c hc => ?_, h.dequeuedIndex⟩
    · have hmove := h.conserved.move (.add addr p hfree)
      simp only [ledger] at hmove
      rwa [← hqueue] at hmove
    · cases hm
      exact hok'
    · have hhead := h.head c hc
      have hhead' : (update s.queue addr (s.queue addr ++ [p]) c.currentNeighbor).head? =
          some c.currentPacket := by
        by_cases ha : c.currentNeighbor = addr
        · rw [ha] at hhead ⊢
          rw [update_self, head?_append, hhead]
          rfl
        · rw [update_of_ne ha]
          exact hhead
      rwa [← hqueue] at hhead'

/-- Taking the head of a queue. -/
theorem Inv.pop {n : TschNeighbor} (hn : s.nbrs addr = some n) :
    (∃ p, n.tx.pop.2 = some p ∧ s.queue addr = p :: n.tx.pop.1.toList ∧
      n.tx.pop.1.ringbuf.Ok cfg.queueBits) ∨ (n.tx.pop.2 = none ∧ s.queue addr = []) := by
  rw [queue_of_some hn, TschNeighbor.queue]
  obtain ⟨p, hp, hlist, hok, -⟩ | ⟨hp, hlist, -⟩ := PacketRing.pop_cases (h.queue_ok addr n hn)
  · exact Or.inl ⟨p, hp, hlist, hok⟩
  · exact Or.inr ⟨by rw [hp], hlist⟩

theorem Inv.flushPacket (hcond : ∀ c, s.slot = some c → c.currentNeighbor ≠ addr) :
    (s.flushPacket addr).Inv cfg := by
  simp only [QueueState.flushPacket]
  cases hn : s.nbrs addr with
  | none => exact h
  | some n =>
    simp only [TschNeighbor.removePacketFromQueue]
    obtain ⟨p, hp, hhead, hok⟩ | ⟨hp, -⟩ := h.pop hn
    · simp only [hp]
      have hqueue : queue (s.setNbr addr { n with tx := n.tx.pop.1 }) =
          update s.queue addr n.tx.pop.1.toList := by
        funext a
        rw [queue, setNbr, queue_update]
        rfl
      refine ⟨?_, ok_update h fun m hm => ?_, h.dequeued_ok, fun c hc => ?_, h.dequeuedIndex⟩
      · have hmove := h.conserved.move (.flush addr p _ hhead)
        simp only [ledger] at hmove
        rwa [← hqueue] at hmove
      · cases hm
        exact hok
      · have hhead' : (update s.queue addr n.tx.pop.1.toList c.currentNeighbor).head? =
            some c.currentPacket := by
          rw [update_of_ne (hcond c hc)]
          exact h.head c hc
        rwa [← hqueue] at hhead'
    · simp only [hp]
      exact h

theorem Inv.txProcessPacket (ht : s.txProcessPacket = some t) : t.Inv cfg := by
  obtain ⟨p, hp, hlist, hok, -⟩ | ⟨hp, -, -⟩ := PacketRing.pop_cases h.dequeued_ok
  · have hpop : s.dequeued.pop = (s.dequeued.pop.1, some p) := by rw [← hp]
    simp only [QueueState.txProcessPacket] at ht
    rw [hpop] at ht
    cases ht
    have hpos : 0 < s.dequeued.ringbuf.elements := by
      rw [← PacketRing.length_toList, hlist]
      exact Nat.succ_pos _
    refine ⟨h.conserved.move (.complete p _ hlist), h.queue_ok, hok, h.head, fun c hc => ?_⟩
    exact h.dequeued_ok.peekPut_get hpos (h.dequeuedIndex c hc)
  · simp only [QueueState.txProcessPacket, hp] at ht
    cases ht

theorem Inv.removeNbr (ht : s.removeNbr addr = some t) : t.Inv cfg := by
  simp only [QueueState.removeNbr] at ht
  cases hn : s.nbrs addr with
  | none =>
    rw [hn] at ht
    cases ht
    exact h
  | some n =>
    rw [hn] at ht
    simp only at ht
    split_ifs at ht with hunused hslot
    · cases ht
      have hempty : n.queue = [] := by
        simp only [Bool.and_eq_true, RingbufIndex.empty, beq_iff_eq] at hunused
        exact List.length_eq_zero_iff.mp ((PacketRing.length_toList n.tx).trans hunused.2)
      refine h.setEntry (fun _ hm => nomatch hm) ?_
      rw [queue_of_some hn, hempty]
      rfl
    · cases ht
      exact h

theorem Inv.updateNbr {f : TschNeighbor → TschNeighbor}
    (ht : s.step cfg (.updateNbr addr f) = some t) : t.Inv cfg := by
  cases ht
  refine h.setEntry (fun n hn => ?_) ?_
  · obtain ⟨m, hm, rfl⟩ := map_eq_some_iff.mp hn
    exact h.queue_ok addr m hm
  · rw [queue]
    cases s.nbrs addr <;> rfl

end

/-! ## The slot operation -/

theorem Inv.slotStart (h : s.Inv cfg) (ht : s.slotStart addr = some t) : t.Inv cfg := by
  simp only [QueueState.slotStart] at ht
  split at ht
  · rename_i n hslot hn
    split at ht
    · rename_i i d hi hd
      cases ht
      refine ⟨h.conserved, h.queue_ok, h.dequeued_ok, fun c hc => ?_, fun c hc => ?_⟩
      · cases hc
        obtain ⟨p, -, hlist, -, hpeek⟩ | ⟨-, -, hpeek⟩ := PacketRing.pop_cases (h.queue_ok addr n hn)
        · rw [hi, map_some, Option.some.injEq] at hpeek
          have hqueue := queue_of_some hn
          rw [TschNeighbor.queue, hlist] at hqueue
          change (s.queue addr).head? = some (n.tx.array i)
          rw [hqueue, hpeek]
          rfl
        · rw [hi] at hpeek
          cases hpeek
      · cases hc
        exact hd
    · cases ht
  · cases ht

/-- **The end of a slot**: the packet sent stays at the head of its queue, or goes from there to
the dequeued ring. -/
theorem Inv.slotEnd (h : s.Inv cfg) {status : MacStatus} {isSharedLink : Bool} {rand : BitVec 16}
    (ht : s.slotEnd status isSharedLink rand = some t) : t.Inv cfg := by
  simp only [QueueState.slotEnd] at ht
  split at ht
  · cases ht
  · rename_i c hc
    split at ht
    · cases ht
    · rename_i n hn
      have htx := tschQueuePacketSent_tx n { s.packets c.currentPacket with
        transmissions := (s.packets c.currentPacket).transmissions + 1
        ret := status } isSharedLink status rand
      generalize tschQueuePacketSent n { s.packets c.currentPacket with
        transmissions := (s.packets c.currentPacket).transmissions + 1
        ret := status } isSharedLink status rand = verdict at ht htx
      obtain ⟨n', inQueue⟩ := verdict
      cases inQueue with
      | true =>
        cases ht
        simp only [if_true] at htx
        have hkeep : Inv cfg (s.setNbr c.currentNeighbor n') := by
          refine h.setEntry (fun m hm => ?_) ?_
          · cases hm
            rw [htx]
            exact h.queue_ok _ n hn
          · rw [queue_of_some hn]
            simp only [elim_some, TschNeighbor.queue, htx]
        exact ⟨hkeep.conserved, hkeep.queue_ok, hkeep.dequeued_ok, fun _ hc => (by cases hc),
          fun _ hc => (by cases hc)⟩
      | false =>
        cases ht
        simp only [Bool.false_eq_true, if_false] at htx
        have hhead := h.head c hc
        have hindex := h.dequeuedIndex c hc
        have hroom : s.dequeued.ringbuf.elements < 2 ^ cfg.dequeuedBits - 1 := by
          by_contra hfull
          rw [(h.dequeued_ok.put_full hfull).2] at hindex
          cases hindex
        obtain ⟨hlist, hok', -⟩ := PacketRing.append_spec h.dequeued_ok hroom c.currentPacket
        simp only [PacketRing.append, hindex] at hlist hok'
        obtain ⟨p, -, hqueue, hok⟩ | ⟨-, hempty⟩ := h.pop hn
        · rw [hqueue, head?_cons, Option.some.injEq] at hhead
          subst hhead
          have hqueue' : queue (s.setNbr c.currentNeighbor n') =
              update s.queue c.currentNeighbor n.tx.pop.1.toList := by
            funext a
            rw [queue, setNbr, queue_update, elim_some, TschNeighbor.queue, htx]
          refine ⟨?_, ok_update h fun m hm => ?_, hok', fun _ hc => (by cases hc),
            fun _ hc => (by cases hc)⟩
          · have hmove := h.conserved.move (.dequeue c.currentNeighbor c.currentPacket _ hqueue)
            simp only [ledger] at hmove
            rw [← hqueue', ← hlist] at hmove
            exact hmove
          · cases hm
            rwa [htx]
        · rw [hempty] at hhead
          cases hhead

/-! ## Runs -/

/-- **One operation keeps the invariant.** -/
theorem Inv.step (h : s.Inv cfg) {e : QueueEvent} (hcond : s.FlushCondition e)
    (ht : s.step cfg e = some t) : t.Inv cfg := by
  cases e with
  | addNbr addr isBroadcast room => exact h.addNbr ht
  | addPacket addr maxTransmissions isBroadcast room qb =>
    obtain ⟨u, hu, rfl⟩ := map_eq_some_iff.mp ht
    exact (h.addNbr hu).enqueue maxTransmissions qb
  | flushPacket addr =>
    cases ht
    exact h.flushPacket hcond
  | txProcessPacket => exact h.txProcessPacket ht
  | removeNbr addr => exact h.removeNbr ht
  | updateNbr addr f => exact h.updateNbr ht
  | slotStart addr => exact h.slotStart ht
  | slotEnd status isSharedLink rand => exact h.slotEnd ht

theorem inv_init (cfg : QueueConfig) (packets : PacketId → TschPacket) (array : ℕ → PacketId) :
    (init cfg packets array).Inv cfg := by
  have hempty : (init cfg packets array).dequeued.toList = [] := by
    refine List.length_eq_zero_iff.mp ((PacketRing.length_toList _).trans ?_)
    simp [init, RingbufIndex.elements, RingbufIndex.init]
  refine ⟨⟨fun p => ⟨.free, rfl, ?_⟩, fun _ => nodup_nil, ?_, fun _ => .new⟩,
    fun _ _ hn => (by cases hn), RingbufIndex.init_ok cfg.dequeued_le, fun _ hc => (by cases hc),
    fun _ hc => (by cases hc)⟩
  · rintro (a | _ | _) hat
    · simp [Ledger.At, ledger, queue, init] at hat
    · rw [Ledger.At, ledger, hempty] at hat
      cases hat
    · rfl
  · rw [ledger, hempty]
    exact nodup_nil

/-- Rounds of a flush, one after the other. -/
theorem run_flushPacket (cfg : QueueConfig) (s : QueueState) (addr : LinkAddr) (rounds : ℕ) :
    Lib.run (step cfg) s (replicate rounds (.flushPacket addr)) =
      some ((range rounds).foldl (fun s _ => s.flushPacket addr) s) := by
  induction rounds with
  | zero => rfl
  | succ rounds ih =>
    rw [replicate_succ', range_succ, foldl_append]
    exact Lib.run_append.mpr ⟨_, ih, rfl⟩

/-- Dropping the packets of a neighbor is a run of rounds, and a reset of its backoff. -/
theorem run_dropPackets (cfg : QueueConfig) (s : QueueState) (addr : LinkAddr) :
    ∃ rounds, Lib.run (step cfg) s
      (replicate rounds (.flushPacket addr) ++ [.updateNbr addr (·.backoffReset)]) =
        some (s.tschQueueDropPackets addr) :=
  ⟨_, Lib.run_append.mpr ⟨_, run_flushPacket cfg s addr _, rfl⟩⟩

/-- A round of a flush completes the head of the queue. -/
theorem flushPacket_cons {p : PacketId} {rest : List PacketId} (hqueue : s.queue addr = p :: rest)
    (hok : ∀ n ∈ s.nbrs addr, n.tx.ringbuf.Ok cfg.queueBits) :
    (∀ n ∈ (s.flushPacket addr).nbrs addr, n.tx.ringbuf.Ok cfg.queueBits) ∧
      (s.flushPacket addr).queue = update s.queue addr rest ∧
      (s.flushPacket addr).acts = s.acts ++ [.sent p, .freed p] := by
  rw [QueueState.flushPacket]
  cases hn : s.nbrs addr with
  | none => simp [queue, hn] at hqueue
  | some n =>
    rw [queue_of_some hn, TschNeighbor.queue] at hqueue
    simp only [TschNeighbor.removePacketFromQueue]
    obtain ⟨p', hp, hlist, hring, -⟩ | ⟨-, hlist, -⟩ := PacketRing.pop_cases (hok n hn)
    · obtain ⟨rfl, rfl⟩ := cons.inj (hlist.symm.trans hqueue)
      simp only [hp]
      refine ⟨fun m hm => ?_, funext fun a => queue_update .., rfl⟩
      cases (update_self ..).symm.trans hm
      exact hring
    · cases hlist.symm.trans hqueue

/-- **Dropping the packets of a neighbor** empties its queue and no other, and completes each packet
once, in order. -/
theorem tschQueueDropPackets_spec (hok : ∀ n ∈ s.nbrs addr, n.tx.ringbuf.Ok cfg.queueBits) :
    (s.tschQueueDropPackets addr).queue = update s.queue addr [] ∧
      (s.tschQueueDropPackets addr).acts =
        s.acts ++ (s.queue addr).flatMap fun p => [.sent p, .freed p] := by
  have hrounds : ∀ l (s : QueueState), s.queue addr = l →
      (∀ n ∈ s.nbrs addr, n.tx.ringbuf.Ok cfg.queueBits) →
      let t := (range l.length).foldl (fun s _ => s.flushPacket addr) s
      t.queue = update s.queue addr [] ∧
        t.acts = s.acts ++ l.flatMap fun p => [.sent p, .freed p] := by
    intro l
    induction l with
    | nil =>
      intro s hnil _
      exact ⟨(update_eq_self_iff.mpr hnil.symm).symm, (append_nil _).symm⟩
    | cons p rest ih =>
      intro s hqueue hok
      obtain ⟨hok', hqueue', hacts⟩ := flushPacket_cons hqueue hok
      obtain ⟨hempty, hacts'⟩ := ih _ (by rw [hqueue', update_self]) hok'
      rw [length_cons, range_succ_eq_map, foldl_cons, foldl_map]
      exact ⟨by rw [hempty, hqueue', update_idem], by rw [hacts', hacts, append_assoc]; rfl⟩
  have hlength : (s.nbrs addr).elim 0 (·.tx.ringbuf.elements) = (s.queue addr).length := by
    rw [queue]
    cases s.nbrs addr with
    | none => rfl
    | some n => exact (PacketRing.length_toList n.tx).symm
  rw [tschQueueDropPackets, hlength]
  obtain ⟨hqueue, hacts⟩ := hrounds _ s rfl hok
  refine ⟨(funext fun a => ?_).trans hqueue, hacts⟩
  generalize (range _).foldl _ s = t
  rw [queue, queue_update, elim_map]
  exact congrFun (update_eq_self ..) a

instance (s : QueueState) : (e : QueueEvent) → Decidable (s.FlushCondition e)
  | .flushPacket addr =>
    match hslot : s.slot with
    | none => isTrue fun c hc => by simp [hslot] at hc
    | some c => decidable_of_iff (c.currentNeighbor ≠ addr) (by simp [FlushCondition, hslot])
  | .addNbr .. | .addPacket .. | .txProcessPacket | .removeNbr .. => isTrue trivial
  | .updateNbr .. | .slotStart .. | .slotEnd .. => isTrue trivial

/-- A small build, and blocks as they are when the system starts. -/
def smallConfig : QueueConfig := ⟨4, 2, 2, by decide, by decide⟩

/-- The state when the system starts. -/
def smallInit : QueueState := init smallConfig (fun _ => ⟨0, 0, .deferred⟩) fun _ => 0

theorem tschQueueDropPackets_one : let addr : LinkAddr := fun _ => 1
    ∃ s, Lib.run (step smallConfig) smallInit [.addPacket addr 3 false true true] = some s ∧
      (s.tschQueueDropPackets addr).acts = [.added 0, .sent 0, .freed 0] :=
  ⟨_, rfl, (@tschQueueDropPackets_spec smallConfig _ _ fun n hn => by
    cases hn
    exact ⟨by decide, by decide, by decide, by decide⟩).2⟩

end QueueState

end Asap.Tsch
