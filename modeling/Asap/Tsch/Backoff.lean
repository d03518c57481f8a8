import Asap.Alice.TimeVarying
import Asap.Tsch.LinkCount
import Asap.Tsch.TimeSource

/-!
# The backoff of shared links

A neighbor that a transmission over a shared link failed to waits for a number of shared links to
pass. The number is drawn below a power of two, plus one for the link of the transmission itself,
which passes at the end of the slot. A link passes at the end of its slot, whether the slot was
executed, skipped or missed; a link that is given up for its backup link passes then, and the
backup link passes at the end of the slot.

The slot operation is told here by what it does to the neighbors, with what happens in the process
context in between. How often a window went down in a slot is recorded on the side.

## Main definitions

* `Csma`, `Csma.step` — the state, and the events of the slot operation and the process context.
* `BackoffOk` — the bounds on the exponent and on the window.
* `CountsFor` — the neighbors for which a shared link counts.

## Main results

* `csma_backoff` — the bounds in each state of each run, and what a link that passes does.
-/

namespace Asap.Tsch

open Lib Function Option

/-- `link_type` -/
inductive LinkType
  | normal | advertising | advertisingOnly
deriving DecidableEq, Repr

/-- What the selector of links says of a packet: it is sent over the link, it is not, or it is
dropped for good. -/
inductive LinkVerdict
  | take | leave | drop
deriving DecidableEq, Repr

/-- `TSCH_WITH_LINK_SELECTOR`: the neighbor, its packet and the link. -/
abbrev LinkSelector := LinkAddr → PacketId → TschLink → LinkVerdict

/-- The build. -/
structure CsmaConfig where
  schedule : ScheduleConfig
  hckApplyLatestContiki : Bool
  withOst : Bool
  withTschDefaultBurstTransmission : Bool
  /-- `temp_burst_link`, if there is one -/
  tempBurstLink : Option LinkId

namespace TschNeighbor

/-- The bounds on the exponent and on the window. -/
structure BackoffOk (n : TschNeighbor) : Prop where
  min_le : tschMacMinBe.toNat ≤ n.backoffExponent.toNat
  le_max : n.backoffExponent.toNat ≤ tschMacMaxBe.toNat
  window_le : n.backoffWindow.toNat ≤ 2 ^ n.backoffExponent.toNat

/-- A shared link to an address counts for a neighbor that has Tx links of its own if they are to
its address, and for another one if they are to all. -/
def CountsFor (n : TschNeighbor) (addr destAddr : LinkAddr) : Prop :=
  (n.txLinksCount = 0 ∧ destAddr = tschBroadcastAddress) ∨
    (0 < n.txLinksCount.toNat ∧ destAddr = addr)

instance decidableCountsFor (n : TschNeighbor) (addr destAddr : LinkAddr) :
    Decidable (n.CountsFor addr destAddr) := by
  unfold CountsFor
  infer_instance

/-- A change of a neighbor that leaves its backoff alone. -/
def keepBackoff (f : TschNeighbor → TschNeighbor) (n : TschNeighbor) : TschNeighbor :=
  { f n with backoffExponent := n.backoffExponent, backoffWindow := n.backoffWindow }

end TschNeighbor

namespace TschSchedule

/-- `tsch_queue_get_packet_for_nbr` -/
def getPacketForNbr (select : LinkSelector) (s : TschSchedule) (addr : LinkAddr) (link : TschLink) :
    TschSchedule × Option PacketId :=
  if s.tschLocked then (s, none)
  else
    match s.nbrs addr with
    | none => (s, none)
    | some n =>
      match n.tx.ringbuf.peekGet with
      | none => (s, none)
      | some i =>
        if isShared link.linkOptions && n.backoffWindow != 0 then (s, none)
        else
          match select addr (n.tx.array i) link with
          | .take => (s, some (n.tx.array i))
          | .leave => (s, none)
          | .drop => (s.updateNbr addr fun n => n.removePacketFromQueue.1, none)

/-- `tsch_queue_get_unicast_packet_for_any`, of the neighbors in the order of the table. -/
def getUnicastPacketForAny (select : LinkSelector) (link : TschLink) :
    TschSchedule → List LinkAddr → TschSchedule × Option (LinkAddr × PacketId)
  | s, [] => (s, none)
  | s, addr :: order =>
    match s.nbrs addr with
    | none => s.getUnicastPacketForAny select link order
    | some n =>
      if s.tschLocked || n.isBroadcast || n.txLinksCount != 0 then
        s.getUnicastPacketForAny select link order
      else
        match s.getPacketForNbr select addr link with
        | (s, some p) => (s, some (addr, p))
        | (s, none) => s.getUnicastPacketForAny select link order

/-- `tsch_queue_burst_get_next_packet_for_nbr`, in a burst in which the node sends. -/
def burstGetNextPacketForNbr (s : TschSchedule) (tx : Bool) (addr : LinkAddr) : Option PacketId :=
  if !tx || s.tschLocked then none
  else (s.nbrs addr).bind fun n => n.tx.ringbuf.peekGet.map n.tx.array

/-- A data packet for a link, and its neighbor: of the neighbor that the link is to, or of any one if
it is a broadcast link without broadcast packets. -/
def getDataPacketForLink (select : LinkSelector) (order : List LinkAddr) (s : TschSchedule)
    (link : TschLink) : TschSchedule × Option LinkAddr × Option PacketId :=
  let n := (s.tschQueueGetNbr link.addr).map fun _ => link.addr
  match s.getPacketForNbr select link.addr link with
  | (s, some p) => (s, n, some p)
  | (s, none) =>
    if n = some tschBroadcastAddress then
      match s.getUnicastPacketForAny select link order with
      | (s, some (addr, p)) => (s, some addr, some p)
      | (s, none) => (s, n, none)
    else (s, n, none)

/-- `get_packet_and_neighbor_for_link`: the target neighbor and the packet. -/
def getPacketAndNeighborForLink (select : LinkSelector) (order : List LinkAddr) (s : TschSchedule)
    (type : LinkType) (link : TschLink) : TschSchedule × Option LinkAddr × Option PacketId :=
  if isTx link.linkOptions then
    match type, s.getPacketForNbr select tschEbAddress link with
    | .normal, _ => s.getDataPacketForLink select order link
    | .advertisingOnly, (s, p) => (s, some tschEbAddress, p)
    | .advertising, (s, some p) => (s, some tschEbAddress, some p)
    | .advertising, (s, none) => s.getDataPacketForLink select order link
  else (s, none, none)

/-- The window of a neighbor, and zero if there is none. -/
def backoffWindow (s : TschSchedule) (addr : LinkAddr) : ℕ :=
  ((s.nbrs addr).map fun n => n.backoffWindow.toNat).getD 0

/-- The bounds hold of every neighbor. -/
def BackoffOk (s : TschSchedule) : Prop := ∀ addr n, s.nbrs addr = some n → n.BackoffOk

/-- Neighbors that lose their packets and start anew: `tsch_queue_reset`,
`tsch_queue_reset_except_n_eb` and `tsch_queue_drop_packets`, and with their packets kept in OST. -/
def resetNbrs (s : TschSchedule) (which : LinkAddr → Bool) (flush : Bool) : TschSchedule :=
  if s.tschLocked then s
  else
    { s with
      nbrs := fun addr => (s.nbrs addr).map fun n =>
        if which addr then (if flush then n.flushNbrQueue else n).backoffReset else n }

end TschSchedule

/-! ## The slot operation -/

/-- What the slot operation has before it and in hand; on the side, whether it is in a slot, whether
it gave up a link in the slot for its backup link, and how often each window went down. -/
structure Csma where
  sched : TschSchedule
  linkType : LinkId → LinkType
  packets : PacketId → TschPacket
  currentLink : Option LinkId
  backupLink : Option LinkId
  currentNeighbor : Option LinkAddr
  currentPacket : Option PacketId
  inSlot : Bool
  bothLinks : Bool
  decrements : LinkAddr → ℕ

/-- What comes after a slot: a link of the schedule with its backup, or the same link once more in
the next timeslot. -/
inductive NextSlot
  | scheduled (link backup : Option LinkId)
  | burst (timeslot : BitVec 16)

/-- The events. The process context changes the schedule, which may reset the current link, and the
packets; it resets neighbors. -/
inductive CsmaEvent
  | start (link backup : Option LinkId)
  | slot (select : LinkSelector) (order : List LinkAddr)
  | burstSlot (tx : Bool)
  | skip
  | packetSent (status : MacStatus) (rand : BitVec 16)
  | upaPacketSent (p : PacketId) (status : MacStatus)
  | endOfSlot (next : NextSlot)
  | leave
  | schedule (e : ScheduleEvent) (forget : Bool)
  | packets (f : PacketId → TschPacket)
  | linkType (l : LinkId) (type : LinkType)
  | queueReset
  | queueResetExceptNEb
  | dropPackets (addr : LinkAddr)
  | ostReset (addr : LinkAddr)

/-- The changes of the schedule leave the backoff of a neighbor alone. -/
def ScheduleEvent.keepingBackoff : ScheduleEvent → ScheduleEvent
  | .update addr f => .update addr (TschNeighbor.keepBackoff f)
  | e => e

namespace Csma

/-- `update_link_backoff` -/
def updateLinkBackoff (s : Csma) : Option LinkId → Csma
  | none => s
  | some l =>
    if isTx (s.sched.links l).linkOptions && isShared (s.sched.links l).linkOptions then
      let sched := s.sched.tschQueueUpdateAllBackoffWindows (s.sched.links l).addr
      { s with
        sched := sched
        decrements := fun addr =>
          s.decrements addr + (s.sched.backoffWindow addr - sched.backoffWindow addr) }
    else s

/-- The packet and the neighbor for a link. -/
def getPacketAndNeighbor (select : LinkSelector) (order : List LinkAddr) (s : Csma) (l : LinkId) :
    Csma :=
  let r := s.sched.getPacketAndNeighborForLink select order (s.linkType l) (s.sched.links l)
  { s with sched := r.1, currentNeighbor := r.2.1, currentPacket := r.2.2 }

variable (cfg : CsmaConfig)

/-- The backup link takes the place of a link that has nothing to send. -/
def skipsBestLink (s : Csma) (l b : LinkId) : Bool :=
  s.currentPacket.isNone &&
    (!isRx (s.sched.links l).linkOptions ||
      (cfg.hckApplyLatestContiki || cfg.withOst) &&
        decide ((s.sched.links b).slotframeHandle < (s.sched.links l).slotframeHandle))

/-- The start of a slot: what is sent, over the current link or its backup. -/
def executeSlot (select : LinkSelector) (order : List LinkAddr) (s : Csma) (l : LinkId) : Csma :=
  let s := s.getPacketAndNeighbor select order l
  match s.backupLink with
  | none => s
  | some b =>
    if s.skipsBestLink cfg l b then
      let s := if cfg.hckApplyLatestContiki then
          { s.updateLinkBackoff (some l) with bothLinks := true }
        else s
      { s with currentLink := some b }.getPacketAndNeighbor select order b
    else s

/-- `tsch_queue_packet_sent` for the packet in hand, after `transmissions++`. -/
def packetSent (s : Csma) (addr : LinkAddr) (p : PacketId) (l : LinkId) (status : MacStatus)
    (rand : BitVec 16) : Csma :=
  let packet : TschPacket :=
    { s.packets p with transmissions := (s.packets p).transmissions + 1, ret := status }
  { s with
    packets := Function.update s.packets p packet
    sched := s.sched.updateNbr addr fun n =>
      (tschQueuePacketSent n packet (isShared (s.sched.links l).linkOptions) status rand).1 }

/-- The next link. -/
def next (s : Csma) : NextSlot → Csma
  | .scheduled link backup => { s with currentLink := link, backupLink := backup }
  | .burst timeslot =>
    match s.currentLink, cfg.tempBurstLink with
    | some l, some temp =>
      { s with
        sched := s.sched.setLink temp { s.sched.links l with timeslot := timeslot }
        currentLink := some temp
        backupLink := none }
    | _, _ => { s with backupLink := none }

/-- The slot begins. -/
def begin (s : Csma) : Csma :=
  { s with inSlot := true, bothLinks := false, decrements := fun _ => 0, currentPacket := none }

/-- The events, where they can happen. -/
def step (s : Csma) : CsmaEvent → Option Csma
  | .start link backup =>
    if s.inSlot then none else some { s with currentLink := link, backupLink := backup }
  | .slot select order =>
    match s.currentLink with
    | some l => if s.inSlot then none else some (s.begin.executeSlot cfg select order l)
    | none => none
  | .burstSlot tx =>
    match s.currentLink, s.backupLink with
    | some _, none =>
      if s.inSlot || !cfg.withTschDefaultBurstTransmission then none
      else
        some { s.begin with
          currentPacket := s.currentNeighbor.bind (s.sched.burstGetNextPacketForNbr tx) }
    | _, _ => none
  | .skip => if s.inSlot then none else some s.begin
  | .packetSent status rand =>
    match s.currentLink, s.currentNeighbor, s.currentPacket with
    | some l, some addr, some p =>
      if s.inSlot then some (s.packetSent addr p l status rand) else none
    | _, _, _ => none
  | .upaPacketSent p status =>
    match s.currentNeighbor with
    | some addr =>
      if s.inSlot then
        some { s with
          sched := s.sched.updateNbr addr fun n => (tschQueueUpaPacketSent n (s.packets p) status).1 }
      else none
    | none => none
  | .endOfSlot nextSlot =>
    if s.inSlot then some (({ s with inSlot := false }.updateLinkBackoff s.currentLink).next cfg nextSlot)
    else none
  | .leave => if s.inSlot then some { s with inSlot := false } else none
  | .schedule e forget =>
    (s.sched.step cfg.schedule e.keepingBackoff).map fun sched =>
      { s with sched := sched, currentLink := if forget then none else s.currentLink }
  | .packets f => some { s with packets := f }
  | .linkType l type => some { s with linkType := Function.update s.linkType l type }
  | .queueReset => some { s with sched := s.sched.resetNbrs (fun _ => true) true }
  | .queueResetExceptNEb =>
    some { s with sched := s.sched.resetNbrs (fun addr => addr != tschEbAddress) true }
  | .dropPackets addr => some { s with sched := s.sched.resetNbrs (fun a => a == addr) true }
  | .ostReset addr => some { s with sched := s.sched.resetNbrs (fun a => a == addr) false }

/-- The start. -/
def init (links : LinkId → TschLink) (linkType : LinkId → LinkType)
    (packets : PacketId → TschPacket) : Csma where
  sched := TschSchedule.init cfg.schedule links
  linkType := linkType
  packets := packets
  currentLink := none
  backupLink := none
  currentNeighbor := none
  currentPacket := none
  inSlot := false
  bothLinks := false
  decrements := fun _ => 0

/-! ## What is wanted -/

/-- The shared links that have passed in the slot: the one given up, and at its end the other. -/
def linksPassed (s : Csma) : ℕ := (if s.bothLinks then 1 else 0) + if s.inSlot then 0 else 1

/-- What is left of a neighbor when a link passes: its exponent, and its window, which has not gone
down by more than one, and is below the power if the link counts for the neighbor. -/
def Passes (s : Csma) (l : LinkId) : Prop :=
  ∀ addr n, s.sched.nbrs addr = some n →
    ∃ n', (s.updateLinkBackoff (some l)).sched.nbrs addr = some n' ∧
      n'.backoffExponent = n.backoffExponent ∧
      n'.backoffWindow.toNat ≤ n.backoffWindow.toNat ∧
      n.backoffWindow.toNat ≤ n'.backoffWindow.toNat + 1 ∧
      (s.sched.tschLocked = false → isTx (s.sched.links l).linkOptions = true →
        isShared (s.sched.links l).linkOptions = true →
        n.CountsFor addr (s.sched.links l).addr →
        n'.backoffWindow.toNat < 2 ^ n'.backoffExponent.toNat ∧
        (0 < n.backoffWindow.toNat → n.backoffWindow.toNat = n'.backoffWindow.toNat + 1))

end Csma

/-! ## Neighbors keep their backoff -/

namespace TschNeighbor

theorem backoffOk_reset (n : TschNeighbor) : n.backoffReset.BackoffOk :=
  ⟨le_refl _, (by decide : tschMacMinBe.toNat ≤ tschMacMaxBe.toNat), Nat.zero_le _⟩

/-- The exponent that follows is in the bounds, and the window is drawn with it. -/
theorem BackoffOk.inc {n : TschNeighbor} (h : n.BackoffOk) (rand : BitVec 16) :
    (n.backoffInc rand).BackoffOk := by
  have hmax : tschMacMaxBe.toNat = 5 := rfl
  have hmin : tschMacMinBe.toNat = 1 := rfl
  have hexp : (n.backoffInc rand).backoffExponent.toNat =
      min (n.backoffExponent.toNat + 1) tschMacMaxBe.toNat := by
    simp only [backoffInc, BitVec.toNat_ofNat]
    exact Nat.mod_eq_of_lt (by omega)
  obtain ⟨e, he⟩ : ∃ e, e = min (n.backoffExponent.toNat + 1) tschMacMaxBe.toNat := ⟨_, rfl⟩
  have hpow : 2 ^ e ≤ 2 ^ 5 := Nat.pow_le_pow_right (by omega) (by omega)
  have hlt : (rand >>> 6).toNat % 2 ^ e < 2 ^ e := Nat.mod_lt _ (Nat.two_pow_pos e)
  have hwindow : (n.backoffInc rand).backoffWindow.toNat = (rand >>> 6).toNat % 2 ^ e + 1 := by
    have hone : (1 : BitVec 8).toNat = 1 := rfl
    simp only [backoffInc, ← he, BitVec.toNat_add, BitVec.toNat_ofNat, hone]
    omega
  have hle := h.min_le
  refine ⟨?_, ?_, ?_⟩
  · rw [hexp]
    omega
  · rw [hexp]
    omega
  · rw [hexp, hwindow, ← he]
    omega

theorem BackoffOk.congr {n n' : TschNeighbor} (h : n.BackoffOk)
    (hexp : n'.backoffExponent = n.backoffExponent) (hwindow : n'.backoffWindow = n.backoffWindow) :
    n'.BackoffOk := by
  refine ⟨?_, ?_, ?_⟩
  · rw [hexp]
    exact h.min_le
  · rw [hexp]
    exact h.le_max
  · rw [hexp, hwindow]
    exact h.window_le

/-- After a transmission the backoff is as before, or begins anew, or goes on. -/
theorem BackoffOk.packetSent {n : TschNeighbor} (h : n.BackoffOk) (p : TschPacket)
    (isSharedLink : Bool) (status : MacStatus) (rand : BitVec 16) :
    (tschQueuePacketSent n p isSharedLink status rand).1.BackoffOk := by
  have hremoved : n.removePacketFromQueue.1.BackoffOk := h.congr rfl rfl
  simp only [tschQueuePacketSent]
  split_ifs
  · exact backoffOk_reset _
  · exact hremoved
  · exact hremoved.inc rand
  · exact hremoved
  · exact h.inc rand
  · exact h

theorem BackoffOk.upaPacketSent {n : TschNeighbor} (h : n.BackoffOk) (p : TschPacket)
    (status : MacStatus) : (tschQueueUpaPacketSent n p status).1.BackoffOk := by
  simp only [tschQueueUpaPacketSent]
  split_ifs
  · exact backoffOk_reset n
  · exact h
  · exact h

end TschNeighbor

namespace TschSchedule

variable {cfg : ScheduleConfig} {s t u : TschSchedule} {addr : LinkAddr}

/-- The neighbors of the second schedule are new, or have the backoff they had in the first. -/
def KeepsBackoff (s t : TschSchedule) : Prop :=
  ∀ addr n', t.nbrs addr = some n' →
    n'.BackoffOk ∨ ∃ n, s.nbrs addr = some n ∧
      n'.backoffExponent = n.backoffExponent ∧ n'.backoffWindow = n.backoffWindow

theorem keepsBackoff_of_eq (h : t.nbrs = s.nbrs) : s.KeepsBackoff t :=
  fun _ n' hn => Or.inr ⟨n', h ▸ hn, rfl, rfl⟩

theorem KeepsBackoff.trans (h : s.KeepsBackoff t) (h' : t.KeepsBackoff u) : s.KeepsBackoff u := by
  intro addr n hn
  rcases h' addr n hn with hok | ⟨m, hm, hexp, hwindow⟩
  · exact Or.inl hok
  · rcases h addr m hm with hok | ⟨k, hk, hexp', hwindow'⟩
    · exact Or.inl (hok.congr hexp hwindow)
    · exact Or.inr ⟨k, hk, hexp.trans hexp', hwindow.trans hwindow'⟩

theorem keepsBackoff_updateNbr (s : TschSchedule) (addr : LinkAddr) {f : TschNeighbor → TschNeighbor}
    (hexp : ∀ n, (f n).backoffExponent = n.backoffExponent)
    (hwindow : ∀ n, (f n).backoffWindow = n.backoffWindow) : s.KeepsBackoff (s.updateNbr addr f) := by
  intro addr' n' hn
  simp only [updateNbr] at hn
  by_cases ha : addr' = addr
  · subst ha
    rw [update_self] at hn
    obtain ⟨n, hmem, rfl⟩ := map_eq_some_iff.mp hn
    exact Or.inr ⟨n, hmem, hexp n, hwindow n⟩
  · rw [update_of_ne ha] at hn
    exact Or.inr ⟨n', hn, rfl, rfl⟩

theorem keepsBackoff_addNbr (cfg : ScheduleConfig) (s : TschSchedule) (addr : LinkAddr)
    (room : Bool) : s.KeepsBackoff (s.tschQueueAddNbr cfg addr room) := by
  simp only [tschQueueAddNbr]
  cases s.tschQueueGetNbr addr with
  | some n => exact keepsBackoff_of_eq rfl
  | none =>
    simp only
    split_ifs
    · exact keepsBackoff_of_eq rfl
    · intro addr' n' hn
      simp only at hn
      by_cases ha : addr' = addr
      · subst ha
        rw [update_self] at hn
        cases hn
        exact Or.inl (TschNeighbor.backoffOk_reset _)
      · rw [update_of_ne ha] at hn
        exact Or.inr ⟨n', hn, rfl, rfl⟩
    · exact keepsBackoff_of_eq rfl

theorem KeepsBackoff.ok (h : s.KeepsBackoff t) (hok : s.BackoffOk) : t.BackoffOk := by
  intro addr n' hn
  rcases h addr n' hn with hok' | ⟨n, hn, hexp, hwindow⟩
  · exact hok'
  · exact (hok addr n hn).congr hexp hwindow

theorem nbrRelation_keepsBackoff (cfg : ScheduleConfig) : NbrRelation cfg KeepsBackoff where
  of_eq := keepsBackoff_of_eq
  trans := KeepsBackoff.trans
  addNbr := keepsBackoff_addNbr cfg
  incTxLinks s addr _ := keepsBackoff_updateNbr s addr (fun _ => rfl) fun _ => rfl
  decTxLinks s addr _ := keepsBackoff_updateNbr s addr (fun _ => rfl) fun _ => rfl

/-- The changes of the schedule keep the backoff. -/
theorem keepsBackoff_step {e : ScheduleEvent} (h : s.step cfg e.keepingBackoff = some t) :
    s.KeepsBackoff t := by
  have hupdate : ∀ addr f, e.keepingBackoff = .update addr f →
      s.KeepsBackoff (s.updateNbr addr (keepCounters f)) := by
    intro addr f hf
    cases e with
    | update addr' f' =>
      cases hf
      exact keepsBackoff_updateNbr s addr (fun _ => rfl) fun _ => rfl
    | _ => cases hf
  rcases (nbrRelation_keepsBackoff cfg).step hupdate h with hfree | hkeeps
  · rw [hfree] at h
    cases h
    simp only [tschQueueFreeUnusedNeighbors]
    split_ifs
    · exact keepsBackoff_of_eq rfl
    · intro addr n' hn
      exact Or.inr ⟨n', (filter_eq_some_iff.mp hn).1, rfl, rfl⟩
  · exact hkeeps

/-! ### Packets -/

section

variable (select : LinkSelector)

theorem keepsBackoff_getPacketForNbr (s : TschSchedule) (addr : LinkAddr)
    (link : TschLink) : s.KeepsBackoff (s.getPacketForNbr select addr link).1 := by
  simp only [getPacketForNbr]
  split_ifs
  · exact keepsBackoff_of_eq rfl
  · cases s.nbrs addr with
    | none => exact keepsBackoff_of_eq rfl
    | some n =>
      simp only
      cases n.tx.ringbuf.peekGet with
      | none => exact keepsBackoff_of_eq rfl
      | some i =>
        simp only
        split_ifs
        · exact keepsBackoff_of_eq rfl
        · cases select addr (n.tx.array i) link with
          | take => exact keepsBackoff_of_eq rfl
          | leave => exact keepsBackoff_of_eq rfl
          | drop => exact keepsBackoff_updateNbr s addr (fun _ => rfl) fun _ => rfl

theorem keepsBackoff_getUnicastPacketForAny (link : TschLink) :
    ∀ (order : List LinkAddr) (s : TschSchedule),
      s.KeepsBackoff (s.getUnicastPacketForAny select link order).1 := by
  intro order
  induction order with
  | nil => exact fun s => keepsBackoff_of_eq rfl
  | cons addr order ih =>
    intro s
    rw [getUnicastPacketForAny]
    cases s.nbrs addr with
    | none => exact ih s
    | some n =>
      simp only
      split_ifs
      · exact ih s
      · have hkeeps := keepsBackoff_getPacketForNbr select s addr link
        rcases hp : s.getPacketForNbr select addr link with ⟨s', p⟩
        rw [hp] at hkeeps
        cases p with
        | none => exact hkeeps.trans (ih s')
        | some p => exact hkeeps

theorem keepsBackoff_getDataPacketForLink (order : List LinkAddr)
    (s : TschSchedule) (link : TschLink) :
    s.KeepsBackoff (s.getDataPacketForLink select order link).1 := by
  have hkeeps := keepsBackoff_getPacketForNbr select s link.addr link
  simp only [getDataPacketForLink]
  rcases hp : s.getPacketForNbr select link.addr link with ⟨t, p⟩
  rw [hp] at hkeeps
  cases p with
  | some p => exact hkeeps
  | none =>
    have hany := keepsBackoff_getUnicastPacketForAny select link order t
    simp only
    split_ifs
    · rcases hq : t.getUnicastPacketForAny select link order with ⟨u, q⟩
      rw [hq] at hany
      cases q with
      | none => exact hkeeps.trans hany
      | some q => exact hkeeps.trans hany
    · exact hkeeps

theorem keepsBackoff_getPacketAndNeighborForLink (order : List LinkAddr)
    (s : TschSchedule) (type : LinkType) (link : TschLink) :
    s.KeepsBackoff (s.getPacketAndNeighborForLink select order type link).1 := by
  have hkeeps := keepsBackoff_getPacketForNbr select s tschEbAddress link
  simp only [getPacketAndNeighborForLink]
  rcases hp : s.getPacketForNbr select tschEbAddress link with ⟨t, p⟩
  rw [hp] at hkeeps
  split_ifs
  · cases type with
    | normal => exact keepsBackoff_getDataPacketForLink select order s link
    | advertisingOnly => exact hkeeps
    | advertising =>
      cases p with
      | some p => exact hkeeps
      | none => exact hkeeps.trans (keepsBackoff_getDataPacketForLink select order t link)
  · exact keepsBackoff_of_eq rfl

end

/-! ### A link passes -/

section

variable (hok : s.BackoffOk)

include hok

/-- One neighbor when a shared link to an address passes. -/
theorem updateAllBackoffWindows_nbr (destAddr : LinkAddr) {n : TschNeighbor}
    (hn : s.nbrs addr = some n) :
    ∃ n', (s.tschQueueUpdateAllBackoffWindows destAddr).nbrs addr = some n' ∧
      n'.backoffExponent = n.backoffExponent ∧
      n'.backoffWindow.toNat ≤ n.backoffWindow.toNat ∧
      n.backoffWindow.toNat ≤ n'.backoffWindow.toNat + 1 ∧
      (s.tschLocked = false → n.CountsFor addr destAddr →
        n'.backoffWindow.toNat < 2 ^ n'.backoffExponent.toNat ∧
        (0 < n.backoffWindow.toNat → n.backoffWindow.toNat = n'.backoffWindow.toNat + 1)) := by
  have hle := (hok addr n hn).window_le
  have hpos : 0 < 2 ^ n.backoffExponent.toNat := Nat.two_pow_pos _
  rw [tschQueueUpdateAllBackoffWindows]
  split_ifs with hlock
  · refine ⟨n, hn, rfl, le_refl _, Nat.le_succ _, fun hunlocked => ?_⟩
    exact Bool.noConfusion (hlock.symm.trans hunlocked)
  · simp only [hn, map_some, Option.some.injEq, exists_eq_left']
    split_ifs with hcounts
    · have hne : n.backoffWindow.toNat ≠ 0 := fun h => hcounts.1 (BitVec.eq_of_toNat_eq h)
      have hsub : (n.backoffWindow - 1).toNat = n.backoffWindow.toNat - 1 := by
        have hone : (1 : BitVec 8).toNat = 1 := rfl
        rw [BitVec.toNat_sub_of_le, hone]
        rw [BitVec.le_def, hone]
        omega
      simp only [hsub]
      exact ⟨trivial, by omega, by omega, fun _ _ => ⟨by omega, fun _ => by omega⟩⟩
    · refine ⟨rfl, le_refl _, Nat.le_succ _, fun _ h => ?_⟩
      have hzero : n.backoffWindow = 0 := by
        by_contra hne
        exact hcounts ⟨hne, h⟩
      have hnat : n.backoffWindow.toNat = 0 := by
        rw [hzero]
        rfl
      exact ⟨by omega, fun h => by omega⟩

theorem BackoffOk.updateAllBackoffWindows (destAddr : LinkAddr) :
    (s.tschQueueUpdateAllBackoffWindows destAddr).BackoffOk := by
  intro addr n' hn'
  cases hn : s.nbrs addr with
  | none =>
    rw [tschQueueUpdateAllBackoffWindows] at hn'
    split_ifs at hn'
    · rw [hn] at hn'
      cases hn'
    · simp only [hn, map_none] at hn'
      cases hn'
  | some n =>
    obtain ⟨m, hm, hexp, hle, _⟩ := updateAllBackoffWindows_nbr hok destAddr hn
    rw [hn'] at hm
    cases hm
    obtain ⟨hmin, hmax, hwindow⟩ := hok addr n hn
    refine ⟨?_, ?_, ?_⟩
    · rw [hexp]
      exact hmin
    · rw [hexp]
      exact hmax
    · rw [hexp]
      exact hle.trans hwindow

/-- The window of a neighbor goes down by one at most. -/
theorem backoffWindow_sub_le (destAddr addr : LinkAddr) :
    s.backoffWindow addr -
      (s.tschQueueUpdateAllBackoffWindows destAddr).backoffWindow addr ≤ 1 := by
  cases hn : s.nbrs addr with
  | none => simp [backoffWindow, hn]
  | some n =>
    obtain ⟨n', hn', _, _, hle, _⟩ := updateAllBackoffWindows_nbr hok destAddr hn
    simp only [backoffWindow, hn, hn', map_some, getD_some]
    omega

theorem BackoffOk.resetNbrs (which : LinkAddr → Bool) (flush : Bool) :
    (s.resetNbrs which flush).BackoffOk := by
  rw [TschSchedule.resetNbrs]
  by_cases hlock : s.tschLocked = true
  · rw [if_pos hlock]
    exact hok
  · rw [if_neg hlock]
    intro addr n' hn'
    obtain ⟨n, hn, rfl⟩ := map_eq_some_iff.mp hn'
    by_cases hwhich : which addr = true
    · rw [if_pos hwhich]
      exact TschNeighbor.backoffOk_reset _
    · rw [if_neg hwhich]
      exact hok addr n hn

theorem BackoffOk.updateNbr (addr : LinkAddr) {f : TschNeighbor → TschNeighbor}
    (hf : ∀ n : TschNeighbor, n.BackoffOk → (f n).BackoffOk) : (s.updateNbr addr f).BackoffOk := by
  intro addr' n' hn'
  simp only [TschSchedule.updateNbr] at hn'
  by_cases ha : addr' = addr
  · subst ha
    rw [update_self] at hn'
    obtain ⟨n, hn, rfl⟩ := map_eq_some_iff.mp hn'
    exact hf n (hok _ n hn)
  · rw [update_of_ne ha] at hn'
    exact hok addr' n' hn'

end

end TschSchedule

/-! ## Runs -/

namespace Csma

open TschSchedule

variable {cfg : CsmaConfig} {s t : Csma}

/-- The bounds, and the links that passed in the slot. -/
structure Inv (s : Csma) : Prop where
  ok : s.sched.BackoffOk
  decrements_le : ∀ addr, s.decrements addr ≤ s.linksPassed

theorem ok_updateLinkBackoff (hok : s.sched.BackoffOk) (l : Option LinkId) :
    (s.updateLinkBackoff l).sched.BackoffOk := by
  cases l with
  | none => exact hok
  | some l =>
    rw [updateLinkBackoff]
    split_ifs
    · exact hok.updateAllBackoffWindows _
    · exact hok

/-- A link that passes counts once. -/
theorem decrements_updateLinkBackoff (hok : s.sched.BackoffOk) (l : Option LinkId)
    (addr : LinkAddr) : (s.updateLinkBackoff l).decrements addr ≤ s.decrements addr + 1 := by
  cases l with
  | none => exact Nat.le_succ _
  | some l =>
    rw [updateLinkBackoff]
    split_ifs
    · exact Nat.add_le_add_left (backoffWindow_sub_le hok _ addr) _
    · exact Nat.le_succ _

theorem linksPassed_updateLinkBackoff (l : Option LinkId) :
    (s.updateLinkBackoff l).linksPassed = s.linksPassed := by
  cases l with
  | none => rfl
  | some l =>
    rw [updateLinkBackoff]
    split_ifs <;> rfl

theorem Inv.getPacketAndNeighbor (h : s.Inv) (select : LinkSelector) (order : List LinkAddr)
    (l : LinkId) : (s.getPacketAndNeighbor select order l).Inv where
  ok := (keepsBackoff_getPacketAndNeighborForLink select order s.sched _ _).ok h.ok
  decrements_le := h.decrements_le

theorem inv_begin (hok : s.sched.BackoffOk) : s.begin.Inv where
  ok := hok
  decrements_le _ := Nat.zero_le _

/-- A slot is executed over its link, or over the backup link when the link has passed. -/
theorem inv_executeSlot (hok : s.sched.BackoffOk) (select : LinkSelector) (order : List LinkAddr)
    (l : LinkId) : (s.begin.executeSlot cfg select order l).Inv := by
  have hfirst := (inv_begin hok).getPacketAndNeighbor select order l
  rw [executeSlot]
  obtain ⟨t, ht⟩ : ∃ t, t = s.begin.getPacketAndNeighbor select order l := ⟨_, rfl⟩
  have hdecrements : t.decrements = fun _ => 0 := by rw [ht]; rfl
  rw [← ht] at hfirst ⊢
  cases t.backupLink with
  | none => exact hfirst
  | some b =>
    simp only
    split_ifs
    · refine Inv.getPacketAndNeighbor ?_ select order b
      refine ⟨ok_updateLinkBackoff hfirst.ok (some l), fun addr => ?_⟩
      have hle := decrements_updateLinkBackoff hfirst.ok (some l) addr
      rw [hdecrements] at hle
      exact hle.trans (Nat.le_add_right 1 _)
    · refine Inv.getPacketAndNeighbor ?_ select order b
      exact ⟨hfirst.ok, hfirst.decrements_le⟩
    · exact hfirst

theorem Inv.next (h : s.Inv) (nextSlot : NextSlot) : (s.next cfg nextSlot).Inv := by
  cases nextSlot with
  | scheduled link backup => exact ⟨h.ok, h.decrements_le⟩
  | burst timeslot =>
    rw [Csma.next]
    split
    · exact ⟨h.ok, h.decrements_le⟩
    · exact ⟨h.ok, h.decrements_le⟩

/-- **The slot ends.** -/
theorem Inv.endOfSlot (h : s.Inv) (hslot : s.inSlot = true) (nextSlot : NextSlot) :
    (({ s with inSlot := false }.updateLinkBackoff s.currentLink).next cfg nextSlot).Inv := by
  have hok : { s with inSlot := false }.sched.BackoffOk := h.ok
  refine Inv.next ⟨ok_updateLinkBackoff hok s.currentLink, fun addr => ?_⟩ nextSlot
  have hle := decrements_updateLinkBackoff hok s.currentLink addr
  have hbefore : s.decrements addr ≤ (if s.bothLinks then 1 else 0) + 0 := by
    have hpassed := h.decrements_le addr
    rwa [linksPassed, if_pos hslot] at hpassed
  rw [linksPassed_updateLinkBackoff]
  exact hle.trans (Nat.add_le_add_right hbefore 1)

/-- **One event** keeps the bounds, and the count of the slot. -/
theorem Inv.step (h : s.Inv) {e : CsmaEvent} (hstep : s.step cfg e = some t) : t.Inv := by
  cases e with
  | start link backup =>
    rw [Csma.step] at hstep
    split_ifs at hstep
    cases hstep
    exact ⟨h.ok, h.decrements_le⟩
  | slot select order =>
    rw [Csma.step] at hstep
    split at hstep
    · split_ifs at hstep
      cases hstep
      exact inv_executeSlot h.ok select order _
    · cases hstep
  | burstSlot tx =>
    rw [Csma.step] at hstep
    split at hstep
    · split_ifs at hstep
      cases hstep
      exact ⟨h.ok, fun _ => Nat.zero_le _⟩
    · cases hstep
  | skip =>
    rw [Csma.step] at hstep
    split_ifs at hstep
    cases hstep
    exact inv_begin h.ok
  | packetSent status rand =>
    rw [Csma.step] at hstep
    split at hstep
    · split_ifs at hstep
      cases hstep
      exact ⟨h.ok.updateNbr _ fun n hn => hn.packetSent _ _ _ _, h.decrements_le⟩
    · cases hstep
  | upaPacketSent p status =>
    rw [Csma.step] at hstep
    split at hstep
    · split_ifs at hstep
      cases hstep
      exact ⟨h.ok.updateNbr _ fun n hn => hn.upaPacketSent _ _, h.decrements_le⟩
    · cases hstep
  | endOfSlot nextSlot =>
    rw [Csma.step] at hstep
    split_ifs at hstep with hslot
    cases hstep
    exact h.endOfSlot hslot nextSlot
  | leave =>
    rw [Csma.step] at hstep
    split_ifs at hstep with hslot
    cases hstep
    refine ⟨h.ok, fun addr => (h.decrements_le addr).trans ?_⟩
    simp only [linksPassed, hslot]
    exact Nat.add_le_add_left (Nat.zero_le 1) _
  | schedule e forget =>
    obtain ⟨sched, hsched, rfl⟩ := map_eq_some_iff.mp hstep
    exact ⟨(keepsBackoff_step hsched).ok h.ok, h.decrements_le⟩
  | packets f =>
    cases hstep
    exact ⟨h.ok, h.decrements_le⟩
  | linkType l type =>
    cases hstep
    exact ⟨h.ok, h.decrements_le⟩
  | queueReset =>
    cases hstep
    exact ⟨h.ok.resetNbrs _ _, h.decrements_le⟩
  | queueResetExceptNEb =>
    cases hstep
    exact ⟨h.ok.resetNbrs _ _, h.decrements_le⟩
  | dropPackets addr =>
    cases hstep
    exact ⟨h.ok.resetNbrs _ _, h.decrements_le⟩
  | ostReset addr =>
    cases hstep
    exact ⟨h.ok.resetNbrs _ _, h.decrements_le⟩

theorem inv_init (cfg : CsmaConfig) (links : LinkId → TschLink) (linkType : LinkId → LinkType)
    (packets : PacketId → TschPacket) : (init cfg links linkType packets).Inv := by
  have hempty : TschSchedule.BackoffOk ⟨[], links, fun _ => false, fun _ => none, false⟩ :=
    fun _ _ h => by cases h
  refine ⟨?_, fun _ => Nat.zero_le _⟩
  have heb := (keepsBackoff_addNbr cfg.schedule _ tschEbAddress true).ok hempty
  exact (keepsBackoff_addNbr cfg.schedule _ tschBroadcastAddress true).ok heb

/-- **A link passes.** -/
theorem passes (hok : s.sched.BackoffOk) (l : LinkId) : s.Passes l := by
  intro addr n hn
  rw [updateLinkBackoff]
  split_ifs with hoptions
  · obtain ⟨n', hn', hexp, hle, hge, hcounts⟩ :=
      updateAllBackoffWindows_nbr hok (s.sched.links l).addr hn
    exact ⟨n', hn', hexp, hle, hge, fun hlock _ _ hcount => hcounts hlock hcount⟩
  · refine ⟨n, hn, rfl, le_refl _, Nat.le_succ _, fun _ htx hshared => ?_⟩
    rw [htx, hshared] at hoptions
    exact absurd rfl hoptions

end Csma

/-- **The backoff of shared links**: in each state of each run the exponent and the window of each
neighbor are in their bounds, and no window has gone down in a slot more often than links have passed
in it: one at its end, and one before if it was given up for its backup link. A link that passes
leaves the window of a neighbor that it counts for below the power. -/
theorem csma_backoff (cfg : CsmaConfig) {links : LinkId → TschLink} {linkType : LinkId → LinkType}
    {packets : PacketId → TschPacket} {es : List CsmaEvent} {s : Csma}
    (hrun : run (Csma.step cfg) (Csma.init cfg links linkType packets) es = some s) :
    s.sched.BackoffOk ∧ (∀ addr, s.decrements addr ≤ s.linksPassed) ∧ ∀ l, s.Passes l := by
  have hinv := run_invariant Csma.Inv (fun _ _ _ h hstep => Csma.Inv.step h hstep)
    (Csma.inv_init cfg links linkType packets) hrun
  exact ⟨hinv.ok, hinv.decrements_le, Csma.passes hinv.ok⟩

/-! ## Two shared links -/

/-- A build of the present Contiki. -/
def csmaConfig : CsmaConfig where
  schedule := ⟨4, 4, 8, false, false⟩
  hckApplyLatestContiki := true
  withOst := false
  withTschDefaultBurstTransmission := false
  tempBurstLink := none

/-- A neighbor without links of its own. -/
def sharedNbr : LinkAddr := fun _ => 2

/-- Every link takes every packet. -/
def anyLink : LinkSelector := fun _ _ _ => .take

/-- A packet for the neighbor is sent over a shared broadcast link and is not acknowledged. In the next
slot, whose best link is a shared broadcast link without Rx, the first one is the backup link. -/
def backedUpSlot : List CsmaEvent :=
  [.schedule (.addSlotframe 0 7) false, .schedule (.addSlotframe 1 7) false,
    .schedule (.addLink 0 7 tschBroadcastAddress 0 0 false true) false,
    .schedule (.addLink 1 5 tschBroadcastAddress 0 0 false true) false,
    .schedule (.addNbr sharedNbr true) false,
    .schedule (.update sharedNbr fun n => { n with tx := n.tx.append 0 }) false,
    .start (some 0) none,
    .slot anyLink [tschEbAddress, tschBroadcastAddress, sharedNbr],
    .packetSent .noAck 192]

/-- The start with empty blocks. -/
def csmaInit : Csma :=
  Csma.init csmaConfig (fun _ => ⟨0, tschEbAddress, 0, 0, 0⟩) (fun _ => .normal) fun _ => ⟨0, 8, .ok⟩

theorem csma_backoff_backed_up :
    ∃ s, run (Csma.step csmaConfig) csmaInit backedUpSlot = some s ∧
      s.sched.BackoffOk ∧ (∀ addr, s.decrements addr ≤ s.linksPassed) ∧ ∀ l, s.Passes l := by
  have hsome : (run (Csma.step csmaConfig) csmaInit backedUpSlot).isSome = true := by decide
  obtain ⟨s, hs⟩ := Option.isSome_iff_exists.mp hsome
  exact ⟨s, hs, csma_backoff csmaConfig hs⟩

/-- In the slot of the failed transmission the window is the power itself; and in the slot of two
shared links it goes down twice. -/
theorem csma_backoff_fails :
    (¬∀ es s, run (Csma.step csmaConfig) csmaInit es = some s →
      ∀ addr n, s.sched.nbrs addr = some n →
        n.backoffWindow.toNat < 2 ^ n.backoffExponent.toNat) ∧
    ¬∀ es s, run (Csma.step csmaConfig) csmaInit es = some s → ∀ addr, s.decrements addr ≤ 1 := by
  constructor
  · intro hbelow
    have hrun : ((run (Csma.step csmaConfig) csmaInit backedUpSlot).bind fun s =>
        (s.sched.nbrs sharedNbr).map fun n => (n.backoffWindow.toNat, n.backoffExponent.toNat)) =
          some (4, 2) := by decide
    obtain ⟨s, hs, hwindow⟩ := Option.bind_eq_some_iff.mp hrun
    obtain ⟨n, hn, hpair⟩ := Option.map_eq_some_iff.mp hwindow
    obtain ⟨hfour, htwo⟩ := Prod.mk.inj hpair
    have hlt := hbelow backedUpSlot s hs sharedNbr n hn
    rw [hfour, htwo] at hlt
    exact absurd hlt (by decide)
  · intro honce
    have hrun : ((run (Csma.step csmaConfig) csmaInit (backedUpSlot ++
        [.endOfSlot (.scheduled (some 1) (some 0)),
          .slot anyLink [tschEbAddress, tschBroadcastAddress, sharedNbr],
          .endOfSlot (.scheduled none none)])).map fun s => s.decrements sharedNbr) = some 2 := by
      decide
    obtain ⟨s, hs, htwo⟩ := Option.map_eq_some_iff.mp hrun
    have hle := honce _ s hs sharedNbr
    rw [htwo] at hle
    exact absurd hle (by decide)

end Asap.Tsch
