import Asap.Tsch.Queue
import Mathlib.Data.List.Perm.Basic
import Mathlib.Data.List.Nodup
import Mathlib.Logic.Function.Basic

/-!
# The TSCH schedule

A schedule is a list of slotframes, each with a list of links. Links are blocks of a
memory pool: a freed block keeps its contents, and the functions that go over a list
of links see them when the block is in use again and not yet filled in. A neighbor
counts the Tx links to its address.

The functions are the ones of `tsch-schedule.c` and `tsch-queue.c` under their names.
Whether the table of neighbors has room for one more is chosen by the caller.

## Main definitions

* `TschSchedule` — slotframes, blocks of links, neighbors and the lock.
* `tschScheduleAddLink`, `aliceTschScheduleAddLink`, `tschScheduleRemoveLink` and the
  other operations.
* `ScheduleEvent`, `step` — the operations as events.
-/

namespace Asap.Tsch

/-- A pointer to a block of `link_memb`. -/
abbrev LinkId := ℕ

/-- `LINK_OPTION_TX` -/
def linkOptionTx : BitVec 8 := 1

/-- `LINK_OPTION_RX` -/
def linkOptionRx : BitVec 8 := 2

/-- `LINK_OPTION_SHARED` -/
def linkOptionShared : BitVec 8 := 4

/-- The options of a Tx link. -/
def isTx (options : BitVec 8) : Bool := options &&& linkOptionTx != 0

/-- The options of a shared link. -/
def isShared (options : BitVec 8) : Bool := options &&& linkOptionShared != 0

/-- `tsch_broadcast_address` -/
def tschBroadcastAddress : LinkAddr := fun _ => 0xff

/-- `tsch_eb_address` -/
def tschEbAddress : LinkAddr := fun _ => 0

/-- `struct tsch_link` -/
structure TschLink where
  slotframeHandle : BitVec 16
  addr : LinkAddr
  timeslot : BitVec 16
  channelOffset : BitVec 16
  linkOptions : BitVec 8
deriving DecidableEq

/-- `struct tsch_slotframe` -/
structure TschSlotframe where
  handle : BitVec 16
  size : BitVec 16
  linksList : List LinkId
deriving DecidableEq

/-- The build: sizes of the pools and of a queue, and the options of ALICE. -/
structure ScheduleConfig where
  maxLinks : ℕ
  maxSlotframes : ℕ
  queueNumPerNeighbor : BitVec 8
  withAlice : Bool
  aliceTimeVaryingScheduling : Bool

/-- The schedule with the table of neighbors. -/
structure TschSchedule where
  slotframeList : List TschSlotframe
  /-- the blocks of `link_memb`, in use or not -/
  links : LinkId → TschLink
  used : LinkId → Bool
  nbrs : LinkAddr → Option TschNeighbor
  tschLocked : Bool

/-- A link of the cell at a timeslot and a channel offset. -/
def TschLink.atCell (l : TschLink) (timeslot channelOffset : BitVec 16) : Bool :=
  l.timeslot == timeslot && l.channelOffset == channelOffset

namespace TschNeighbor

/-- A new entry of the table of neighbors. -/
def new (cfg : ScheduleConfig) (addr : LinkAddr) : TschNeighbor :=
  backoffReset {
    isBroadcast := addr = tschEbAddress ∨ addr = tschBroadcastAddress
    isTimeSource := false
    backoffExponent := 0
    backoffWindow := 0
    txLinksCount := 0
    dedicatedTxLinksCount := 0
    tx := { array := fun _ => 0, ringbuf := RingbufIndex.init cfg.queueNumPerNeighbor } }

/-- One more link to the neighbor, of given options. -/
def incTxLinks (options : BitVec 8) (n : TschNeighbor) : TschNeighbor :=
  { n with
    txLinksCount := n.txLinksCount + 1
    dedicatedTxLinksCount :=
      if isShared options then n.dedicatedTxLinksCount else n.dedicatedTxLinksCount + 1 }

/-- One link to the neighbor less. -/
def decTxLinks (options : BitVec 8) (n : TschNeighbor) : TschNeighbor :=
  { n with
    txLinksCount := n.txLinksCount - 1
    dedicatedTxLinksCount :=
      if isShared options then n.dedicatedTxLinksCount else n.dedicatedTxLinksCount - 1 }

/-- Neighbors that `tsch_queue_free_unused_neighbors` removes. -/
def unused (n : TschNeighbor) : Bool :=
  !n.isBroadcast && !n.isTimeSource && n.txLinksCount == 0 && n.tx.ringbuf.empty

end TschNeighbor

namespace TschSchedule

/-- The slotframe with a handle. -/
def slotframe (s : TschSchedule) (handle : BitVec 16) : Option TschSlotframe :=
  s.slotframeList.find? fun sf => sf.handle == handle

/-- The links of the schedule, slotframe by slotframe. -/
def installed (s : TschSchedule) : List LinkId := s.slotframeList.flatMap (·.linksList)

/-- Change the list of links of one slotframe. -/
def updateLinksList (s : TschSchedule) (handle : BitVec 16) (f : List LinkId → List LinkId) :
    TschSchedule :=
  { s with
    slotframeList := s.slotframeList.map fun sf =>
      if sf.handle = handle then { sf with linksList := f sf.linksList } else sf }

/-- Change an entry of the table of neighbors, if there is one. -/
def updateNbr (s : TschSchedule) (addr : LinkAddr) (f : TschNeighbor → TschNeighbor) :
    TschSchedule :=
  { s with nbrs := Function.update s.nbrs addr ((s.nbrs addr).map f) }

/-- `memb_alloc` on the pool of links: the first block not in use. -/
def allocLink (cfg : ScheduleConfig) (s : TschSchedule) : Option LinkId :=
  (List.range cfg.maxLinks).find? fun l => !s.used l

/-- `list_add` of a block just allocated. -/
def listAdd (s : TschSchedule) (handle : BitVec 16) (l : LinkId) : TschSchedule :=
  { s.updateLinksList handle (fun ls => ls.erase l ++ [l]) with
    used := Function.update s.used l true }

/-- Fill in a block. -/
def setLink (s : TschSchedule) (l : LinkId) (x : TschLink) : TschSchedule :=
  { s with links := Function.update s.links l x }

/-! ## Neighbors -/

/-- `tsch_queue_get_nbr` -/
def tschQueueGetNbr (s : TschSchedule) (addr : LinkAddr) : Option TschNeighbor :=
  if s.tschLocked then none else s.nbrs addr

/-- `tsch_queue_add_nbr`; `room` says whether the table can take one more. -/
def tschQueueAddNbr (cfg : ScheduleConfig) (s : TschSchedule) (addr : LinkAddr) (room : Bool) :
    TschSchedule :=
  match s.tschQueueGetNbr addr with
  | some _ => s
  | none =>
    if s.tschLocked then s
    else if room then
      { s with nbrs := Function.update s.nbrs addr (some (.new cfg addr)) }
    else s

/-- `tsch_queue_free_unused_neighbors` -/
def tschQueueFreeUnusedNeighbors (s : TschSchedule) : TschSchedule :=
  if s.tschLocked then s
  else { s with nbrs := fun addr => (s.nbrs addr).filter fun n => !n.unused }

/-- The end of the functions that add a link: the lock is released and the Tx link is
counted, when there is an entry for its address or one can be made. -/
def countLink (cfg : ScheduleConfig) (s : TschSchedule) (x : TschLink) (room : Bool) :
    TschSchedule :=
  let s := { s with tschLocked := false }
  if isTx x.linkOptions then
    (s.tschQueueAddNbr cfg x.addr room).updateNbr x.addr (.incTxLinks x.linkOptions)
  else s

/-! ## Links -/

/-- The part of `tsch_schedule_remove_link` that runs with the lock: the block is freed,
the lock released, and a Tx link no longer counted. -/
def freeLink (s : TschSchedule) (handle : BitVec 16) (l : LinkId) : TschSchedule :=
  let x := s.links l
  let s := { s.updateLinksList handle (fun ls => ls.erase l) with
    used := Function.update s.used l false
    tschLocked := false }
  if isTx x.linkOptions then s.updateNbr x.addr (.decTxLinks x.linkOptions) else s

section

variable (cfg : ScheduleConfig)

/-- `tsch_schedule_remove_link`; ALICE with a time-varying schedule does not ask for the
lock, and releases it nevertheless. -/
def tschScheduleRemoveLink (s : TschSchedule) (handle : BitVec 16)
    (l : LinkId) : TschSchedule :=
  if (s.links l).slotframeHandle ≠ handle then s
  else if s.tschLocked && !(cfg.withAlice && cfg.aliceTimeVaryingScheduling) then s
  else s.freeLink handle l

/-- One link of the loop of `tsch_schedule_remove_link_by_timeslot`. -/
def removeAtCell (handle timeslot channelOffset : BitVec 16)
    (s : TschSchedule) (l : LinkId) : TschSchedule :=
  if (s.links l).atCell timeslot channelOffset then s.tschScheduleRemoveLink cfg handle l else s

/-- `tsch_schedule_remove_link_by_timeslot` -/
def tschScheduleRemoveLinkByTimeslot (s : TschSchedule)
    (handle timeslot channelOffset : BitVec 16) : TschSchedule :=
  if s.tschLocked then s
  else
    match s.slotframe handle with
    | none => s
    | some sf => sf.linksList.foldl (removeAtCell cfg handle timeslot channelOffset) s

/-- `tsch_schedule_add_link` -/
def tschScheduleAddLink (s : TschSchedule) (handle : BitVec 16)
    (linkOptions : BitVec 8) (addr : LinkAddr) (timeslot channelOffset : BitVec 16)
    (doRemove room : Bool) : TschSchedule × Option LinkId :=
  match s.slotframe handle with
  | none => (s, none)
  | some sf =>
    if sf.size.toNat - 1 < timeslot.toNat then (s, none)
    else if cfg.withAlice && decide (15 < channelOffset.toNat) then (s, none)
    else
      let s := if doRemove then
          s.tschScheduleRemoveLinkByTimeslot cfg handle timeslot channelOffset
        else s
      if s.tschLocked then (s, none)
      else
        match s.allocLink cfg with
        | none => (s, none)
        | some l =>
          let x : TschLink := ⟨handle, addr, timeslot, channelOffset, linkOptions⟩
          (((s.listAdd handle l).setLink l x).countLink cfg x room, some l)

end

/-- One link of the loop of `alice_tsch_schedule_set_link_option_by_ts_choff`: the
options of a link at the cell are merged with those collected so far. -/
def mergeOne (timeslot channelOffset : BitVec 16) (m : (LinkId → TschLink) × BitVec 8)
    (l : LinkId) : (LinkId → TschLink) × BitVec 8 :=
  if (m.1 l).atCell timeslot channelOffset then
    let options := m.2 ||| (m.1 l).linkOptions
    (Function.update m.1 l { m.1 l with linkOptions := (m.1 l).linkOptions ||| options }, options)
  else m

/-- The loop of `alice_tsch_schedule_set_link_option_by_ts_choff`. -/
def mergeOptions (s : TschSchedule) (handle timeslot channelOffset : BitVec 16)
    (linkOptions : BitVec 8) : TschSchedule × BitVec 8 :=
  match s.slotframe handle with
  | none => (s, linkOptions)
  | some sf =>
    let m := sf.linksList.foldl (mergeOne timeslot channelOffset) (s.links, linkOptions)
    ({ s with links := m.1 }, m.2)

/-- `alice_tsch_schedule_set_link_option_by_ts_choff`; without a time-varying schedule it
does nothing under the lock. -/
def aliceTschScheduleSetLinkOption (cfg : ScheduleConfig) (s : TschSchedule)
    (handle timeslot channelOffset : BitVec 16) (linkOptions : BitVec 8) :
    TschSchedule × BitVec 8 :=
  if s.tschLocked && !cfg.aliceTimeVaryingScheduling then (s, linkOptions)
  else s.mergeOptions handle timeslot channelOffset linkOptions

/-- `alice_tsch_schedule_add_link`; with a time-varying schedule it does not take the
lock, and the options are merged. -/
def aliceTschScheduleAddLink (cfg : ScheduleConfig) (s : TschSchedule) (handle : BitVec 16)
    (linkOptions : BitVec 8) (addr : LinkAddr) (timeslot channelOffset : BitVec 16)
    (room : Bool) : TschSchedule × Option LinkId :=
  match s.slotframe handle with
  | none => (s, none)
  | some sf =>
    if sf.size.toNat - 1 < timeslot.toNat then (s, none)
    else if 15 < channelOffset.toNat then (s, none)
    else if s.tschLocked && !cfg.aliceTimeVaryingScheduling then (s, none)
    else
      match s.allocLink cfg with
      | none => ({ s with tschLocked := false }, none)
      | some l =>
        -- the lock is held here unless the schedule is time-varying
        let m := { s.listAdd handle l with
          tschLocked := s.tschLocked || !cfg.aliceTimeVaryingScheduling
          }.aliceTschScheduleSetLinkOption cfg handle timeslot channelOffset linkOptions
        let x : TschLink := ⟨handle, addr, timeslot, channelOffset, m.2⟩
        ((m.1.setLink l x).countLink cfg x room, some l)

/-! ## Slotframes -/

/-- `tsch_schedule_add_slotframe` -/
def tschScheduleAddSlotframe (cfg : ScheduleConfig) (s : TschSchedule) (handle size : BitVec 16) :
    TschSchedule :=
  if size = 0 then s
  else if !s.tschLocked && (s.slotframe handle).isSome then s
  else if s.tschLocked then s
  else if s.slotframeList.length < cfg.maxSlotframes then
    { s with slotframeList := s.slotframeList ++ [⟨handle, size, []⟩] }
  else s

/-- `tsch_schedule_remove_slotframe`; `none` when its loop does not end, because the
lock is held and no link can be removed. -/
def tschScheduleRemoveSlotframe (cfg : ScheduleConfig) (s : TschSchedule) (handle : BitVec 16) :
    Option TschSchedule :=
  match s.slotframe handle with
  | none => some s
  | some sf =>
    let s := sf.linksList.foldl (fun s l => s.tschScheduleRemoveLink cfg handle l) s
    if s.tschLocked then (if sf.linksList = [] then some s else none)
    else some { s with slotframeList := s.slotframeList.filter fun sf => sf.handle ≠ handle }

end TschSchedule

/-! ## Runs -/

/-- The operations. `update` is any other change to a neighbor: its queue, its backoff,
whether it is the time source. -/
inductive ScheduleEvent where
  | addSlotframe (handle size : BitVec 16)
  | removeSlotframe (handle : BitVec 16)
  | addLink (handle : BitVec 16) (linkOptions : BitVec 8) (addr : LinkAddr)
      (timeslot channelOffset : BitVec 16) (doRemove room : Bool)
  | aliceAddLink (handle : BitVec 16) (linkOptions : BitVec 8) (addr : LinkAddr)
      (timeslot channelOffset : BitVec 16) (room : Bool)
  | aliceSetLinkOption (handle timeslot channelOffset : BitVec 16) (linkOptions : BitVec 8)
  | removeLink (handle : BitVec 16) (l : LinkId)
  | removeLinkByTimeslot (handle timeslot channelOffset : BitVec 16)
  | addNbr (addr : LinkAddr) (room : Bool)
  | freeUnusedNeighbors
  | update (addr : LinkAddr) (f : TschNeighbor → TschNeighbor)
  | lock
  | releaseLock

namespace TschSchedule

/-- A change of a neighbor that leaves its counters alone. -/
def keepCounters (f : TschNeighbor → TschNeighbor) (n : TschNeighbor) : TschNeighbor :=
  { f n with
    txLinksCount := n.txLinksCount
    dedicatedTxLinksCount := n.dedicatedTxLinksCount }

/-- One operation. A link is removed through a pointer that a list of links gave. -/
def step (cfg : ScheduleConfig) (s : TschSchedule) : ScheduleEvent → Option TschSchedule
  | .addSlotframe handle size => some (s.tschScheduleAddSlotframe cfg handle size)
  | .removeSlotframe handle => s.tschScheduleRemoveSlotframe cfg handle
  | .addLink handle options addr ts ch doRemove room =>
    some (s.tschScheduleAddLink cfg handle options addr ts ch doRemove room).1
  | .aliceAddLink handle options addr ts ch room =>
    some (s.aliceTschScheduleAddLink cfg handle options addr ts ch room).1
  | .aliceSetLinkOption handle ts ch options =>
    some (s.aliceTschScheduleSetLinkOption cfg handle ts ch options).1
  | .removeLink handle l =>
    match s.slotframe handle with
    | none => none
    | some sf => if l ∈ sf.linksList then some (s.tschScheduleRemoveLink cfg handle l) else none
  | .removeLinkByTimeslot handle ts ch =>
    some (s.tschScheduleRemoveLinkByTimeslot cfg handle ts ch)
  | .addNbr addr room => some (s.tschQueueAddNbr cfg addr room)
  | .freeUnusedNeighbors => some s.tschQueueFreeUnusedNeighbors
  | .update addr f => some (s.updateNbr addr (keepCounters f))
  | .lock => some { s with tschLocked := true }
  | .releaseLock => some { s with tschLocked := false }

/-- The schedule and the neighbors after `tsch_schedule_init` and `tsch_queue_init`,
with the contents of the blocks as they are. -/
def init (cfg : ScheduleConfig) (links : LinkId → TschLink) : TschSchedule :=
  let s : TschSchedule := ⟨[], links, fun _ => false, fun _ => none, false⟩
  (s.tschQueueAddNbr cfg tschEbAddress true).tschQueueAddNbr cfg tschBroadcastAddress true

end TschSchedule

end Asap.Tsch
