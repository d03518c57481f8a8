import Asap.Ipv6.Ds6Nbr

/-!
# Neighbor discovery

The link-layer address of a next hop is asked for with a neighbor solicitation, and while it is not
known the entry of the neighbor is incomplete. What comes in sets the state of an entry: the options
of solicitations and advertisements, any unicast packet from the neighbor, and acknowledgements of
the link layer.

## Main definitions

* `Nd` — the neighbor cache, with the timers of its entries.
* `tcpipIpv6Output` — a packet is sent, or a solicitation instead of it.
* `nsInput`, `naInput`, `rsInput` — messages of neighbor discovery.
* `uipProcess` — a packet that is received.
* `uipDs6NeighborPeriodic`, `uipDs6LinkCallback` — timers and acknowledgements.
* `Nd.step` — what happens to a node.
-/

namespace Asap.Ipv6

open Lib Tsch

/-! ## Addresses -/

/-- `uip_is_addr_mcast` -/
def isAddrMcast (addr : UipIpaddr) : Bool := addr.1.getD 0 0 = 0xFF

/-- `uip_is_addr_unspecified` -/
def isAddrUnspecified (addr : UipIpaddr) : Bool := addr.1.all (· = 0)

/-- `uip_is_addr_solicited_node` -/
def isAddrSolicitedNode (addr : UipIpaddr) : Bool :=
  addr.1.take 13 = [0xFF, 0x02, 0, 0, 0, 0, 0, 0, 0, 0, 0, 0x01, 0xFF]

/-- `linkaddr_null` -/
def linkaddrNull : LinkAddr := fun _ => 0

theorem length_allnodes :
    ([0xFF, 0x02] ++ List.replicate 13 0 ++ [0x01] : List Byte).length = 16 := rfl

/-- `uip_create_linklocal_allnodes_mcast` -/
def linklocalAllnodesMcast : UipIpaddr :=
  ⟨[0xFF, 0x02] ++ List.replicate 13 0 ++ [0x01], length_allnodes⟩

/-! ## The state -/

/-- `struct stimer` -/
structure Stimer where
  start : BitVec 32
  interval : BitVec 32

/-- `stimer_expired` -/
def Stimer.expired (t : Stimer) (clockSeconds : BitVec 32) : Bool :=
  clockSeconds - (t.start + t.interval) < 0x7FFFFFFF#32

/-- The timers of an entry, and how many solicitations were sent for it. -/
structure NdTimers where
  reachable : Stimer
  sendns : Stimer
  nscount : BitVec 8

/-- The neighbor cache, with `UIP_DS6_LL_NUD`. -/
structure NdConfig extends Ds6NbrConfig where
  llNud : Bool

/-- The rest of the stack: the clock, the addresses of the node and whether they are tentative, the
default routers, the source address that would be selected, and the interval of solicitations in
milliseconds. -/
structure NdStack where
  clockSeconds : BitVec 32
  addrLookup : UipIpaddr → Option Bool
  maddrLookup : UipIpaddr → Bool
  defrtLookup : UipIpaddr → Bool
  selectSrc : UipIpaddr
  retransTimer : BitVec 32

/-- `uip_ds6_is_my_addr` -/
def NdStack.isMyAddr (stack : NdStack) (addr : UipIpaddr) : Bool := (stack.addrLookup addr).isSome

/-- `UIP_ND6_REACHABLE_TIME`, in seconds -/
def uipNd6ReachableTime : BitVec 32 := 60

/-- `UIP_ND6_DELAY_FIRST_PROBE_TIME` -/
def uipNd6DelayFirstProbeTime : BitVec 32 := 5

/-- `UIP_ND6_MAX_MULTICAST_SOLICIT` and `UIP_ND6_MAX_UNICAST_SOLICIT` -/
def uipNd6MaxSolicit : BitVec 8 := 3

/-- The entries, and their timers. -/
structure Nd where
  cache : Ds6NbrCache
  timers : ℕ → NdTimers

/-- `uip_nd6_ns`, with the addresses of its header; `none` is the solicited-node address of the
target. -/
structure Nd6Ns where
  srcipaddr : Option UipIpaddr
  destipaddr : Option UipIpaddr
  tgtipaddr : UipIpaddr

/-- `uip_nd6_na`, with the addresses of its header. -/
structure Nd6Na where
  srcipaddr : UipIpaddr
  destipaddr : UipIpaddr
  tgtipaddr : UipIpaddr
  flagsreserved : Byte

/-- What is handed to the link layer: a packet or a solicitation for all, and a packet for a
neighbor. -/
inductive LinkFrame
  | toAll (packet : List Byte)
  | solicitation (ns : Option Nd6Ns)
  | unicast (nbr : UipIpaddr) (linkaddr : LinkAddr) (packet : List Byte)

namespace Nd

variable (cfg : NdConfig) (stack : NdStack) (s : Nd)

/-- The entries of the neighbors. -/
def entries : List ℕ := s.cache.entries cfg.toDs6NbrConfig

/-- The address of an entry. -/
def ipaddr (i : ℕ) : UipIpaddr := (s.cache.cells i).ipaddr

/-- `uip_ds6_nbr_get_ll` -/
def lladdr (i : ℕ) : LinkAddr := s.cache.nbr.lladdr i

/-- The state of an entry. -/
def state (i : ℕ) : NbrState := (s.cache.cells i).state

/-- `uip_ds6_nbr_lookup` -/
def lookup (ipaddr : UipIpaddr) : Option ℕ := s.cache.uipDs6NbrLookup cfg.toDs6NbrConfig ipaddr

/-- `uip_ds6_nbr_ll_lookup` -/
def llLookup (lladdr : LinkAddr) : Option ℕ := s.cache.uipDs6NbrLlLookup cfg.toDs6NbrConfig lladdr

/-- An entry is written. -/
def setCell (i : ℕ) (nbr : Ds6Nbr) : Nd :=
  { s with cache := { s.cache with cells := Function.update s.cache.cells i nbr } }

/-- The state of an entry is set. -/
def setState (i : ℕ) (state : NbrState) : Nd := s.setCell i { s.cache.cells i with state }

/-- `isrouter` of an entry is set. -/
def setRouter (i : ℕ) (isrouter : Bool) : Nd := s.setCell i { s.cache.cells i with isrouter }

/-- The timers of an entry are set. -/
def setTimers (i : ℕ) (timers : NdTimers) : Nd :=
  { s with timers := Function.update s.timers i timers }

/-- The timers of an entry that is added. -/
def newTimers (state : NbrState) : NdTimers where
  reachable := ⟨stack.clockSeconds, if state = .reachable then uipNd6ReachableTime else 0⟩
  sendns := ⟨stack.clockSeconds, 0⟩
  nscount := 0

/-- `uip_ds6_nbr_add`, for neighbor discovery. -/
def uipDs6NbrAdd (ipaddr : UipIpaddr) (lladdr : LinkAddr) (state : NbrState) : Option (ℕ × Nd) :=
  (s.cache.uipDs6NbrAdd cfg.toDs6NbrConfig ipaddr lladdr false state .ipv6Nd none).map fun r =>
    (r.1, { cache := r.2, timers := Function.update s.timers r.1 (newTimers stack state) })

/-- `uip_ds6_nbr_rm` -/
def uipDs6NbrRm (i : ℕ) : Nd := { s with cache := s.cache.uipDs6NbrRm cfg.toDs6NbrConfig i }

/-- `uip_ds6_nbr_update_ll`: the entry afterwards, with the timers it had. -/
def uipDs6NbrUpdateLl (i : ℕ) (newLlAddr : LinkAddr) : Option ℕ × Nd :=
  let r := s.cache.uipDs6NbrUpdateLl cfg.toDs6NbrConfig i newLlAddr
  (r.1, { cache := r.2
          timers := r.1.elim s.timers fun j => Function.update s.timers j (s.timers i) })

/-- `queue_packet` -/
def queuePacket (i : ℕ) (packet : List Byte) : Nd :=
  { s with cache := s.cache.uipPacketqueueAlloc cfg.toDs6NbrConfig i packet }

/-- The packet that is queued for an entry. -/
def queued (i : ℕ) : Option (List Byte) :=
  ((s.cache.handle i).map s.cache.queueBuf).filter fun packet => packet.length ≠ 0

/-- The packet that is queued is freed. -/
def freeQueued (i : ℕ) : Nd :=
  match s.queued i with
  | none => s
  | some _ => { s with cache := s.cache.uipPacketqueueFree i }

/-- `uip_ds6_nbr_refresh_reachable_state` -/
def uipDs6NbrRefreshReachableState (ipaddr : UipIpaddr) : Nd :=
  match s.lookup cfg ipaddr with
  | none => s
  | some i =>
    (s.setState i .reachable).setTimers i
      { s.timers i with reachable := ⟨stack.clockSeconds, uipNd6ReachableTime⟩, nscount := 0 }

end Nd

/-! ## Packets that are sent -/

/-- `uip_nd6_ns_output`: nothing, if there is no source address. -/
def uipNd6NsOutput (stack : NdStack) (src dest : Option UipIpaddr) (tgt : UipIpaddr) :
    Option Nd6Ns :=
  if stack.isMyAddr tgt then some ⟨none, dest, tgt⟩
  else
    let srcipaddr := src.getD stack.selectSrc
    if isAddrUnspecified srcipaddr then none else some ⟨some srcipaddr, dest, tgt⟩

/-- A packet in `uip_buf`, the addresses of its header, and what routing says of it. -/
structure OutPacket where
  buf : List Byte
  srcipaddr : UipIpaddr
  destipaddr : UipIpaddr
  extHeaderUpdate : Bool
  nexthop : Option UipIpaddr

/-- `UIP_LINK_MTU` -/
def uipLinkMtu : ℕ := 1280

namespace Nd

variable (cfg : NdConfig) (stack : NdStack) (s : Nd)

/-- `send_nd6_ns` -/
def sendNd6Ns (p : OutPacket) (nexthop : UipIpaddr) : Option (Option Nd6Ns × Nd) :=
  (s.uipDs6NbrAdd cfg stack nexthop linkaddrNull .incomplete).map fun r =>
    let src := if stack.isMyAddr p.srcipaddr then some p.srcipaddr else none
    let s := r.2.queuePacket cfg r.1 p.buf
    (uipNd6NsOutput stack src none nexthop,
      s.setTimers r.1 { s.timers r.1 with
        sendns := ⟨stack.clockSeconds, stack.retransTimer / 1000⟩
        nscount := 1 })

/-- An entry that is stale is to be probed. -/
def delayStale (i : ℕ) : Nd :=
  if s.state i = .stale then
    (s.setState i .delay).setTimers i
      { s.timers i with
        reachable := ⟨stack.clockSeconds, uipNd6DelayFirstProbeTime⟩, nscount := 0 }
  else s

/-- `tcpip_ipv6_output`. A packet for the node itself is received next. -/
def tcpipIpv6Output (p : OutPacket) : List LinkFrame × Nd :=
  if p.buf.length = 0 then ([], s)
  else if p.buf.length > uipLinkMtu then ([], s)
  else if isAddrUnspecified p.destipaddr then ([], s)
  else if !p.extHeaderUpdate then ([], s)
  else if isAddrMcast p.destipaddr then ([.toAll p.buf], s)
  else if stack.isMyAddr p.destipaddr then ([], s)
  else
    match p.nexthop with
    | none => ([], s)
    | some nexthop =>
      match s.lookup cfg nexthop with
      | none =>
        match s.sendNd6Ns cfg stack p nexthop with
        | none => ([], s)
        | some r => ([.solicitation r.1], r.2)
      | some i =>
        if s.state i = .incomplete then ([], s.queuePacket cfg i p.buf)
        else
          let s := s.delayStale stack i
          (.unicast nexthop (s.lladdr i) p.buf ::
              -- `send_queued`
              (s.queued i).toList.map (.unicast nexthop (s.lladdr i)), s.freeQueued i)

end Nd

/-! ## Messages -/

/-- An option of a message: a link-layer address of the source or of the target, one that is not
looked at, and one of length zero. -/
inductive Nd6Opt
  | sllao (lladdr : LinkAddr)
  | tllao (lladdr : LinkAddr)
  | other
  | zeroLen
deriving DecidableEq

section

variable (options : List Nd6Opt)

/-- The options up to the end are looked at, and none has length zero. -/
def optionsOk : Bool := .zeroLen ∉ options

/-- The link-layer addresses of the source. -/
def sllaos : List LinkAddr :=
  options.filterMap fun | .sllao lladdr => some lladdr | _ => none

/-- The link-layer addresses of the target. -/
def tllaos : List LinkAddr :=
  options.filterMap fun | .tllao lladdr => some lladdr | _ => none

/-- The option with the link-layer address of the source that the loop is left with. -/
def lastSllao : Option LinkAddr := (sllaos options).getLast?

/-- The option with the link-layer address of the target that the loop is left with. -/
def lastTllao : Option LinkAddr := (tllaos options).getLast?

end

/-- The messages of neighbor discovery. -/
inductive Nd6Message
  | ns (icode : Byte) (tgtipaddr : UipIpaddr) (options : List Nd6Opt)
  | na (icode flagsreserved : Byte) (tgtipaddr : UipIpaddr) (options : List Nd6Opt)
  | rs (icode : Byte) (options : List Nd6Opt)
  | other

/-- A packet that is received. -/
structure InPacket where
  srcipaddr : UipIpaddr
  destipaddr : UipIpaddr
  ttl : Byte
  message : Nd6Message

/-- `UIP_ND6_HOP_LIMIT` -/
def uipNd6HopLimit : Byte := 255

/-- `UIP_ND6_NA_FLAG_ROUTER` -/
def uipNd6NaFlagRouter : Byte := 0x80

/-- `UIP_ND6_NA_FLAG_SOLICITED` -/
def uipNd6NaFlagSolicited : Byte := 0x40

/-- `UIP_ND6_NA_FLAG_OVERRIDE` -/
def uipNd6NaFlagOverride : Byte := 0x20

namespace Nd

variable (cfg : NdConfig) (stack : NdStack) (s : Nd)

/-- What `ns_input` does with the link-layer address of the source; it goes on with the options or
discards the message. -/
def nsSllao (src : UipIpaddr) (lladdr : LinkAddr) : Bool × Nd :=
  if isAddrUnspecified src then (false, s)
  else
    match s.lookup cfg src with
    | none => (true, (s.uipDs6NbrAdd cfg stack src lladdr .stale).elim s Prod.snd)
    | some i =>
      if lladdr ≠ s.lladdr i then
        let r := s.uipDs6NbrUpdateLl cfg i lladdr
        match r.1 with
        | none => (false, r.2)
        | some j => (true, r.2.setState j .stale)
      else if s.state i = .incomplete then (true, s.setState i .stale)
      else (true, s)

/-- The loop of `ns_input` through the options. -/
def nsOptions (src : UipIpaddr) : List Nd6Opt → Nd → Bool × Nd
  | [], s => (true, s)
  | .zeroLen :: _, s => (false, s)
  | .sllao lladdr :: options, s =>
    let r := s.nsSllao cfg stack src lladdr
    if r.1 then nsOptions src options r.2 else r
  | .tllao _ :: options, s => nsOptions src options s
  | .other :: options, s => nsOptions src options s

/-- The advertisement that `ns_input` sends, if any. -/
def nsReply (src dest tgt : UipIpaddr) : Option Nd6Na :=
  match stack.addrLookup tgt with
  | none => none
  | some tentative =>
    if isAddrUnspecified src then
      -- `uip_ds6_dad_failed` takes a tentative address away
      if !isAddrSolicitedNode dest || tentative then none
      else some ⟨stack.selectSrc, linklocalAllnodesMcast, tgt,
        uipNd6NaFlagOverride ||| uipNd6NaFlagRouter⟩
    else if stack.isMyAddr src then none
    else if isAddrSolicitedNode dest || dest = tgt then
      some ⟨tgt, src, tgt, uipNd6NaFlagSolicited ||| uipNd6NaFlagOverride ||| uipNd6NaFlagRouter⟩
    else none

/-- `ns_input` -/
def nsInput (p : InPacket) (icode : Byte) (tgt : UipIpaddr) (options : List Nd6Opt) :
    Option Nd6Na × Nd :=
  if p.ttl ≠ uipNd6HopLimit || isAddrMcast tgt || icode ≠ 0 then (none, s)
  else
    let r := nsOptions cfg stack p.srcipaddr options s
    (if r.1 then nsReply stack p.srcipaddr p.destipaddr tgt else none, r.2)

/-- What `na_input` does once the entry is found; it returns the entry, if it does not discard the
message. Default routers are of another table. -/
def naUpdate (flags : Byte) (llao : Option LinkAddr) (i : ℕ) : Option ℕ × Nd :=
  let isRouter : Bool := flags &&& uipNd6NaFlagRouter ≠ 0
  let isSolicited : Bool := flags &&& uipNd6NaFlagSolicited ≠ 0
  let isOverride : Bool := flags &&& uipNd6NaFlagOverride ≠ 0
  let isLlchange := llao.any fun lladdr => lladdr ≠ s.lladdr i
  if s.state i = .incomplete then
    match llao with
    | none => (none, s)
    | some lladdr =>
      let r := s.uipDs6NbrUpdateLl cfg i lladdr
      match r.1 with
      | none => (none, r.2)
      | some j =>
        -- a solicited one has refreshed the state when it was received
        let s := if isSolicited then r.2 else r.2.setState j .stale
        (some j, s.setRouter j isRouter)
  else if !isOverride && isLlchange then
    (none, if s.state i = .reachable then s.setState i .stale else s)
  else
    match llao.filter fun _ => isLlchange with
    | none => (some i, s.setRouter i isRouter)
    | some lladdr =>
      let r := s.uipDs6NbrUpdateLl cfg i lladdr
      match r.1 with
      | none => (none, r.2)
      | some j => (some j, r.2.setRouter j isRouter)

/-- `na_input`: the packet that is left in `uip_buf`. -/
def naInput (p : InPacket) (icode flags : Byte) (tgt : UipIpaddr) (options : List Nd6Opt) :
    Option (List Byte) × Nd :=
  if p.ttl ≠ uipNd6HopLimit || icode ≠ 0 || isAddrMcast tgt ||
      (flags &&& uipNd6NaFlagSolicited ≠ 0 && isAddrMcast p.destipaddr) then (none, s)
  else if !optionsOk options then (none, s)
  else if stack.isMyAddr tgt then (none, s)
  else
    match s.lookup cfg tgt with
    | none => (none, s)
    | some i =>
      let r := s.naUpdate cfg flags (lastTllao options) i
      match r.1 with
      | none => (none, r.2)
      | some j => (r.2.queued j, r.2.freeQueued j)

/-- What `rs_input` does with the link-layer address of the source. -/
def rsSllao (src : UipIpaddr) (lladdr : LinkAddr) : Nd :=
  match s.lookup cfg src with
  | none => (s.uipDs6NbrAdd cfg stack src lladdr .stale).elim s Prod.snd
  | some i =>
    if lladdr ≠ s.lladdr i then
      match (s.uipDs6NbrRm cfg i).uipDs6NbrAdd cfg stack src lladdr .stale with
      -- the source writes through the null pointer here
      | none => s.uipDs6NbrRm cfg i
      | some r => (r.2.setTimers r.1 (s.timers i)).setRouter r.1 false
    else s.setRouter i false

/-- `rs_input`, without the router advertisement that it schedules. -/
def rsInput (p : InPacket) (icode : Byte) (options : List Nd6Opt) : Nd :=
  if p.ttl ≠ uipNd6HopLimit || icode ≠ 0 || !optionsOk options then s
  else
    match lastSllao options with
    | none => s
    | some lladdr =>
      if isAddrUnspecified p.srcipaddr then s else s.rsSllao cfg stack p.srcipaddr lladdr

end Nd

/-- What is left in `uip_buf` to be sent. -/
inductive UipLeft
  | cleared
  | na (message : Nd6Na)
  | packet (buf : List Byte)

namespace Nd

variable (cfg : NdConfig) (stack : NdStack) (s : Nd)

/-- The message of a packet for the node. -/
def nd6Input (p : InPacket) : UipLeft × Nd :=
  match p.message with
  | .ns icode tgt options =>
    let r := s.nsInput cfg stack p icode tgt options
    (r.1.elim .cleared .na, r.2)
  | .na icode flags tgt options =>
    let r := s.naInput cfg stack p icode flags tgt options
    (r.1.elim .cleared .packet, r.2)
  | .rs icode options => (.cleared, s.rsInput cfg stack p icode options)
  | .other => (.cleared, s)

/-- `uip_process`, from the refresh of the neighbor on. What is forwarded is sent next. -/
def uipProcess (p : InPacket) : UipLeft × Nd :=
  if isAddrMcast p.srcipaddr then (.cleared, s)
  else
    let s :=
      if isAddrMcast p.destipaddr then s else s.uipDs6NbrRefreshReachableState cfg stack p.srcipaddr
    if stack.isMyAddr p.destipaddr || stack.maddrLookup p.destipaddr then s.nd6Input cfg stack p
    else (.cleared, s)

/-! ## Acknowledgements and timers -/

/-- `uip_ds6_link_callback` -/
def uipDs6LinkCallback (macTxOk : Bool) (dest : LinkAddr) : Nd :=
  if cfg.llNud && dest ≠ linkaddrNull && macTxOk then
    match s.llLookup cfg dest with
    | none => s
    | some i =>
      -- `update_nbr_reachable_state_by_ack`
      if s.state i ≠ .incomplete then
        (s.setState i .reachable).setTimers i
          { s.timers i with reachable := ⟨stack.clockSeconds, uipNd6ReachableTime⟩ }
      else s
  else s

/-- A solicitation is sent for an entry, if the timer has expired and `uip_buf` is empty. -/
def solicit (i : ℕ) (dest : Option UipIpaddr) (buf : Option Nd6Ns) (busy : Bool) :
    Option Nd6Ns × Nd :=
  if (s.timers i).sendns.expired stack.clockSeconds && !busy && buf.isNone then
    (uipNd6NsOutput stack none dest (s.ipaddr i),
      s.setTimers i { s.timers i with
        nscount := (s.timers i).nscount + 1
        sendns := ⟨stack.clockSeconds, stack.retransTimer / 1000⟩ })
  else (buf, s)

/-- The timers of an entry. -/
def neighborPeriodic (busy : Bool) (r : Option Nd6Ns × Nd) (i : ℕ) : Option Nd6Ns × Nd :=
  let s := r.2
  match s.state i with
  | .reachable =>
    if (s.timers i).reachable.expired stack.clockSeconds then
      if stack.defrtLookup (s.ipaddr i) then
        (r.1, (s.setState i .delay).setTimers i
          { s.timers i with
            reachable := ⟨stack.clockSeconds, uipNd6DelayFirstProbeTime⟩, nscount := 0 })
      else (r.1, s.setState i .stale)
    else r
  | .incomplete =>
    if (s.timers i).nscount ≥ uipNd6MaxSolicit then (r.1, s.uipDs6NbrRm cfg i)
    else s.solicit stack i none r.1 busy
  | .delay =>
    if (s.timers i).reachable.expired stack.clockSeconds then
      (r.1, (s.setState i .probe).setTimers i
        { s.timers i with nscount := 0, sendns := ⟨stack.clockSeconds, 0⟩ })
    else r
  | .probe =>
    if (s.timers i).nscount ≥ uipNd6MaxSolicit then (r.1, s.uipDs6NbrRm cfg i)
    else s.solicit stack i (some (s.ipaddr i)) r.1 busy
  | .stale => r

/-- `uip_ds6_neighbor_periodic`, with `uip_buf` in use or not. -/
def uipDs6NeighborPeriodic (busy : Bool) : Option Nd6Ns × Nd :=
  (s.entries cfg).foldl (neighborPeriodic cfg stack busy) (none, s)

end Nd

/-- What happens to a node. The time of a queued packet may be over, and other modules add
neighbors to their tables. -/
inductive NdEvent
  | output (stack : NdStack) (packet : OutPacket)
  | receive (stack : NdStack) (packet : InPacket)
  | ack (stack : NdStack) (macTxOk : Bool) (dest : LinkAddr)
  | periodic (stack : NdStack) (busy : Bool)
  | timedout (b : ℕ)
  | otherAdd (table : ℕ) (lladdr : LinkAddr) (reason : NbrTableReason)
      (candidate : Option LinkAddr)

/-- What is handed to the link layer at an event, and the node afterwards. -/
def Nd.step (cfg : NdConfig) (s : Nd) : NdEvent → List LinkFrame × Nd
  | .output stack p => s.tcpipIpv6Output cfg stack p
  | .receive stack p => ([], (s.uipProcess cfg stack p).2)
  | .ack stack macTxOk dest => ([], s.uipDs6LinkCallback cfg stack macTxOk dest)
  | .periodic stack busy => ([], (s.uipDs6NeighborPeriodic cfg stack busy).2)
  | .timedout b => ([], { s with cache := s.cache.packetTimedout b })
  | .otherAdd table lladdr reason candidate =>
    if table = cfg.ds6Neighbors then ([], s)
    else
      match s.cache.nbrTableAddLladdr cfg.toDs6NbrConfig table lladdr reason candidate with
      | none => ([], s)
      | some r => ([], { s with cache := r.2 })

end Asap.Ipv6
