import Asap.Ipv6.SourceRouting
import Asap.Lib.Pool
import Asap.Tsch.NbrTable

/-!
# The neighbor cache

An entry of the neighbor cache is the item of its link-layer address in the table `ds6_neighbors`.
A packet for a neighbor whose address is not resolved is kept in a block of a pool, with a handle
in the entry and a timer that refers to the handle. As the table is shared, an entry can be evicted
for the neighbor of another table.

## Main definitions

* `Ds6Nbr`, `Ds6NbrCache` — an entry, and the cache with the packets.
* `uipPacketqueueAlloc`, `uipPacketqueueFree`, `packetTimedout` — packets.
* `uipDs6NbrAdd`, `uipDs6NbrRm`, `uipDs6NbrUpdateLl` — entries.
* `Ds6NbrCache.step` — what happens to the cache.
-/

namespace Asap.Ipv6

open Lib Tsch

/-- The states of an entry. -/
inductive NbrState
  | incomplete | reachable | stale | delay | probe
deriving DecidableEq, Repr

/-- `uip_ds6_nbr_t`, with the packet of its handle. -/
structure Ds6Nbr where
  ipaddr : UipIpaddr
  isrouter : Bool
  state : NbrState
  packethandle : Option ℕ

/-- The table of the neighbors, the index of `ds6_neighbors` in it, and
`MAX_NUM_QUEUED_PACKETS`. -/
structure Ds6NbrConfig where
  tables : NbrTableConfig
  ds6Neighbors : ℕ
  maxNumQueuedPackets : ℕ
  index_lt : ds6Neighbors < 8

/-- The table with the entries, and the blocks of the packets with their timers: a timer that runs
has the handle of an entry. -/
structure Ds6NbrCache where
  nbr : NbrTables
  cells : ℕ → Ds6Nbr
  packetsMemb : ℕ → Bool
  queueBuf : ℕ → List Byte
  lifetimer : ℕ → Option ℕ

namespace Ds6NbrCache

variable (cfg : Ds6NbrConfig) (s : Ds6NbrCache)

/-- The entries, from `uip_ds6_nbr_head` on. -/
def entries : List ℕ := s.nbr.items cfg.ds6Neighbors

/-- The packet of a handle. -/
def handle (i : ℕ) : Option ℕ := (s.cells i).packethandle

/-- A handle is set. -/
def setHandle (i : ℕ) (packet : Option ℕ) : Ds6NbrCache :=
  { s with cells := Function.update s.cells i { s.cells i with packethandle := packet } }

/-- `packet_timedout`, for the timer of a block. -/
def packetTimedout (b : ℕ) : Ds6NbrCache :=
  match s.lifetimer b with
  | none => s
  | some i =>
    { s.setHandle i none with
      lifetimer := Function.update s.lifetimer b none
      packetsMemb := (s.handle i).elim s.packetsMemb fun p => Function.update s.packetsMemb p false }

/-- `uip_packetqueue_alloc`, and what `queue_packet` copies to the block. -/
def uipPacketqueueAlloc (i : ℕ) (packet : List Byte) : Ds6NbrCache :=
  match s.handle i with
  | some _ => s
  | none =>
    match membAlloc cfg.maxNumQueuedPackets s.packetsMemb with
    | none => s
    | some b =>
      { s.setHandle i (some b) with
        packetsMemb := Function.update s.packetsMemb b true
        lifetimer := Function.update s.lifetimer b (some i)
        queueBuf := Function.update s.queueBuf b packet }

/-- `uip_packetqueue_free` -/
def uipPacketqueueFree (i : ℕ) : Ds6NbrCache :=
  match s.handle i with
  | none => s
  | some b =>
    { s.setHandle i none with
      packetsMemb := Function.update s.packetsMemb b false
      lifetimer := Function.update s.lifetimer b none }

/-- `uip_ds6_nbr_rm` -/
def uipDs6NbrRm (i : ℕ) : Ds6NbrCache :=
  let s := s.uipPacketqueueFree i
  { s with nbr := s.nbr.nbrTableRemove cfg.ds6Neighbors i }

/-- `nbr_table_add_lladdr` for a table. The callback for a neighbor that is evicted removes its
entry. -/
def nbrTableAddLladdr (table : ℕ) (lladdr : LinkAddr) (reason : NbrTableReason)
    (candidate : Option LinkAddr) : Option (ℕ × Ds6NbrCache) :=
  (s.nbr.nbrTableAddLladdr cfg.tables table lladdr reason candidate).map fun (i, nbr) =>
    match s.nbr.evicted cfg.tables lladdr reason candidate with
    | none => (i, { s with nbr })
    | some k =>
      if s.nbr.used cfg.ds6Neighbors k then (i, { s.uipPacketqueueFree k with nbr })
      else (i, { s with nbr })

/-- `uip_ds6_nbr_add` -/
def uipDs6NbrAdd (ipaddr : UipIpaddr) (lladdr : LinkAddr) (isrouter : Bool) (state : NbrState)
    (reason : NbrTableReason) (candidate : Option LinkAddr) : Option (ℕ × Ds6NbrCache) :=
  (s.nbrTableAddLladdr cfg cfg.ds6Neighbors lladdr reason candidate).map fun (i, s) =>
    -- the item is set to zero, and the handle with it
    (i, { s with cells := Function.update s.cells i ⟨ipaddr, isrouter, state, none⟩ })

/-- `uip_ds6_nbr_lookup` -/
def uipDs6NbrLookup (ipaddr : UipIpaddr) : Option ℕ :=
  (s.entries cfg).find? fun i => (s.cells i).ipaddr = ipaddr

/-- `uip_ds6_nbr_ll_lookup` -/
def uipDs6NbrLlLookup (lladdr : LinkAddr) : Option ℕ :=
  s.nbr.nbrTableGetFromLladdr cfg.ds6Neighbors lladdr

/-- `uip_ds6_nbr_update_ll`: the entry afterwards, if it succeeds. -/
def uipDs6NbrUpdateLl (i : ℕ) (newLlAddr : LinkAddr) : Option ℕ × Ds6NbrCache :=
  if (s.uipDs6NbrLlLookup cfg newLlAddr).isSome then (none, s)
  else
    let backup := s.cells i
    let s := s.uipDs6NbrRm cfg i
    match s.uipDs6NbrAdd cfg backup.ipaddr newLlAddr backup.isrouter backup.state .ipv6Nd none with
    | none => (none, s)
    | some (j, s) => (some j, { s with cells := Function.update s.cells j backup })

end Ds6NbrCache

/-- What happens to the cache. Messages of neighbor discovery do several of these; what is not of
the cache is done by other tables. -/
inductive Ds6NbrEvent
  | add (ipaddr : UipIpaddr) (lladdr : LinkAddr) (isrouter : Bool) (state : NbrState)
      (reason : NbrTableReason) (candidate : Option LinkAddr)
  | rm (i : ℕ)
  | updateLl (i : ℕ) (newLlAddr : LinkAddr)
  | queuePacket (i : ℕ) (packet : List Byte)
  | sendQueued (i : ℕ)
  | timedout (b : ℕ)
  | set (i : ℕ) (isrouter : Bool) (state : NbrState)
  | otherAdd (table : ℕ) (lladdr : LinkAddr) (reason : NbrTableReason)
      (candidate : Option LinkAddr)
  | otherRemove (table i : ℕ)
  | lock (table i : ℕ) (value : Bool)

/-- The cache after an event. Packets are queued for entries of the cache, and it is their
addresses that are updated. -/
def Ds6NbrCache.step (cfg : Ds6NbrConfig) (s : Ds6NbrCache) : Ds6NbrEvent → Ds6NbrCache
  | .add ipaddr lladdr isrouter state reason candidate =>
    ((s.uipDs6NbrAdd cfg ipaddr lladdr isrouter state reason candidate).map Prod.snd).getD s
  | .rm i => s.uipDs6NbrRm cfg i
  | .updateLl i newLlAddr =>
    if i ∈ s.entries cfg then (s.uipDs6NbrUpdateLl cfg i newLlAddr).2 else s
  | .queuePacket i packet => if i ∈ s.entries cfg then s.uipPacketqueueAlloc cfg i packet else s
  | .sendQueued i => s.uipPacketqueueFree i
  | .timedout b => s.packetTimedout b
  | .set i isrouter state =>
    { s with cells := Function.update s.cells i { s.cells i with isrouter, state } }
  | .otherAdd table lladdr reason candidate =>
    if table ≠ cfg.ds6Neighbors then
      ((s.nbrTableAddLladdr cfg table lladdr reason candidate).map Prod.snd).getD s
    else s
  | .otherRemove table i =>
    if table ≠ cfg.ds6Neighbors then { s with nbr := s.nbr.nbrTableRemove table i } else s
  | .lock table i value => { s with nbr := s.nbr.setLocked table i value }

end Asap.Ipv6
