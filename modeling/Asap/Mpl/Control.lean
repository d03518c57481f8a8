import Asap.Ipv6.SourceRouting
import Asap.Mpl.Compare
import Mathlib.Data.Fintype.Pi

/-!
# Control messages

A control message has a record for each seed of a domain: the least sequence number, the length of
the vector and the type of the seed's identifier in two bytes, the identifier, and the vector. The
records are gone through twice, first in search of each seed that is known here, and then one by
one.

Offsets are from the ICMPv6 payload on; bytes behind the length are in memory, too. What is read is
traced. The timers are traced as the messages whose timers are restarted.

## Main definitions

* `MplSeed`, `MplNode` — a seed with its messages, and what a node keeps.
* `ControlMsg` — a message, as it is in the buffer.
* `icmpIn` — a message is processed.
-/

namespace Asap.Mpl

open Lib Ipv6

/-- The identifier of a seed, the least byte first. -/
abbrev SeedId := Fin 16 → Byte

/-- `struct mpl_seed`, without its lifetime: the type and the identifier, `min_seqno`, the domain
by its place in `domain_set`, and the messages. -/
structure MplSeed where
  s : ℕ
  id : SeedId
  minSeqno : BitVec 8
  domain : ℕ
  minSeq : List MplMsg

/-- The addresses of a domain. -/
structure MplDomain where
  dataAddr : UipIpaddr
  ctrlAddr : UipIpaddr

/-- `seed_set` and `domain_set`, each from its last entry down to its first, the multicast addresses
of the node and whether there is room for one more, and the variable `seed_id` of `icmp_in`. -/
structure MplNode where
  seedSet : List (Option MplSeed)
  domainSet : List (Option MplDomain)
  maddr : UipIpaddr → Bool
  maddrFree : Bool
  seedId : SeedId

/-- `UIP_CONF_IPV6_CHECKS`, and the size of `struct seed_info_s2`, whose last eight bytes are the
identifier. -/
structure MplConfig where
  ipv6Checks : Bool
  seedInfoS2 : ℕ
  ten_le : 10 ≤ seedInfoS2

/-- A message in `uip_buf`: fields of its headers, and the payload with its length. -/
structure ControlMsg where
  srcipaddr : UipIpaddr
  destipaddr : UipIpaddr
  ttl : Byte
  type : Byte
  icode : Byte
  payload : ℕ → Byte
  len : ℕ

/-- What is read of the payload: bytes, or the bit of a vector that has been announced with a
number of bytes. -/
inductive Access
  | bytes (pos n : ℕ)
  | bit (vector announced index : ℕ)

/-! ## The domain of a message -/

/-- A byte of an address. -/
def addrByte (addr : UipIpaddr) (i : ℕ) : Byte := addr.1.getD i 0

/-- An address with another second byte. -/
def setScopeByte (addr : UipIpaddr) (b : Byte) : UipIpaddr :=
  ⟨addr.1.set 1 b, by rw [List.length_set, addr.2]⟩

/-- `uip_is_addr_mcast_non_routable` -/
def isAddrMcastNonRoutable (addr : UipIpaddr) : Bool :=
  addrByte addr 0 = 0xFF ∧ addrByte addr 1 &&& 0x0F ≤ 0x02

/-- `domain_set_lookup`: the place of the domain. -/
def domainSetLookup (domains : List (Option MplDomain)) (addr : UipIpaddr) : Option ℕ :=
  domains.findIdx? fun domain =>
    domain.any fun d => addr = d.dataAddr ∨ addr = d.ctrlAddr

/-- The data address of a domain whose control address is given: the next scope in which the node
listens. -/
def dataAddrLoop (maddr : UipIpaddr → Bool) : ℕ → UipIpaddr → UipIpaddr
  | 0, addr => addr
  | fuel + 1, addr =>
    let addr := setScopeByte addr (addrByte addr 1 + 1)
    if maddr addr then addr
    else if addrByte addr 1 ≤ 5 then dataAddrLoop maddr fuel addr
    else addr

/-- The addresses of a domain that is made for a message. -/
def newDomain (maddr : UipIpaddr → Bool) (addr : UipIpaddr) : Option MplDomain :=
  if addrByte addr 1 &&& 0x0F = 0x02 then
    let dataAddr := dataAddrLoop maddr 256 addr
    if 5 < addrByte dataAddr 1 then none else some ⟨dataAddr, addr⟩
  else some ⟨addr, setScopeByte addr 0x02⟩

/-- `domain_set_allocate`: the place of the domain, and the domains afterwards. -/
def domainSetAllocate (st : MplNode) (addr : UipIpaddr) : Option (ℕ × List (Option MplDomain)) :=
  match newDomain st.maddr addr with
  | none => none
  | some domain =>
    match st.domainSet.findIdx? Option.isNone with
    | none => none
    | some i =>
      if st.maddr domain.ctrlAddr ∨ st.maddrFree then
        some (i, st.domainSet.set i (some domain))
      else none

/-- The domain of a message: it is made where there is none. -/
def domainOf (st : MplNode) (addr : UipIpaddr) : Option (ℕ × List (Option MplDomain)) :=
  match domainSetLookup st.domainSet addr with
  | some i => some (i, st.domainSet)
  | none => domainSetAllocate st addr

/-! ## Records -/

section

variable (cfg : MplConfig) (msg : ControlMsg)

/-- `SEED_INFO_GET_S` -/
def seedInfoGetS (pos : ℕ) : ℕ := (msg.payload (pos + 1)).toNat % 4

/-- `SEED_INFO_GET_LEN` -/
def seedInfoGetLen (pos : ℕ) : ℕ := (msg.payload (pos + 1)).toNat / 4

/-- The size of the `struct seed_info` for a type of identifiers. -/
def seedInfoSize (s : ℕ) : ℕ :=
  match s with
  | 0 => 2
  | 1 => 4
  | 2 => cfg.seedInfoS2
  | _ => 18

/-- The bytes of an identifier. -/
def seedIdLen (s : ℕ) : ℕ :=
  match s with
  | 0 => 0
  | 1 => 2
  | 2 => 8
  | _ => 16

/-- The record behind one. -/
def nextRecord (pos : ℕ) : ℕ := pos + seedInfoSize cfg (seedInfoGetS msg pos) + seedInfoGetLen msg pos

/-- `seed_id_net_to_host`, over the identifier that has been there. For two bytes, the last byte
is left as it was. -/
def seedIdNetToHost (old : SeedId) (src : ℕ → Byte) (s : ℕ) : SeedId := fun i =>
  match s with
  | 1 =>
    if i.val = 0 then src 1 else if i.val = 1 then src 0 else if i.val < 15 then 0 else old i
  | 2 => if i.val < 8 then src (7 - i.val) else 0
  | _ => src (15 - i.val)

/-- The identifier of a record, which is read at an offset in it. -/
def recordId (old : SeedId) (pos offset : ℕ) : SeedId :=
  if seedInfoGetS msg pos = 0 then seedIdNetToHost old (addrByte msg.srcipaddr) 0
  else seedIdNetToHost old (fun i => msg.payload (pos + offset + i)) (seedInfoGetS msg pos)

/-- What is read of a record for its identifier. -/
def recordReads (pos offset : ℕ) : List Access :=
  [.bytes (pos + 1) 1, .bytes (pos + offset) (seedIdLen (seedInfoGetS msg pos))]

/-- Where the first pass reads the identifier. -/
def firstIdOffset (pos : ℕ) : ℕ :=
  seedInfoSize cfg (seedInfoGetS msg pos) - seedIdLen (seedInfoGetS msg pos)

/-! ## The first pass -/

/-- Where the search for a seed ends: whether it is found, the next record, and `seed_id`. -/
structure Found where
  found : Bool
  pos : ℕ
  seedId : SeedId
  accesses : List Access

/-- The search for a seed, from the record on where the last one has ended. -/
def findSeed (id : SeedId) : ℕ → ℕ → SeedId → Found
  | 0, pos, seedId => ⟨false, pos, seedId, []⟩
  | fuel + 1, pos, seedId =>
    if pos < msg.len then
      let seedId := recordId msg seedId pos (firstIdOffset cfg msg pos)
      let next := nextRecord cfg msg pos
      let reads := recordReads msg pos (firstIdOffset cfg msg pos)
      if seedId = id then ⟨true, next, seedId, reads⟩
      else
        let rest := findSeed id fuel next seedId
        { rest with accesses := reads ++ rest.accesses }
    else ⟨false, pos, seedId, []⟩

/-- The seeds of a domain, from the last on. -/
def seedsOf (st : MplNode) (domain : ℕ) : List MplSeed :=
  (st.seedSet.filterMap id).filter fun seed => seed.domain = domain

/-- What has been found: the flags, the timers, `seed_id`, and what has been read. -/
structure IcmpIn where
  lMissing : Bool
  rMissing : Bool
  restarted : List ℕ
  seedId : SeedId
  accesses : List Access

/-- The first pass: the messages of a seed that the message does not have are all restarted. -/
def firstPass : List MplSeed → ℕ → SeedId → IcmpIn
  | [], _, seedId => ⟨false, false, [], seedId, []⟩
  | seed :: seeds, pos, seedId =>
    let search := findSeed cfg msg seed.id msg.len pos seedId
    let rest := firstPass seeds search.pos search.seedId
    { rest with
      rMissing := !search.found || rest.rMissing
      restarted := (if search.found then [] else seed.minSeq.map MplMsg.ptr) ++ rest.restarted
      accesses := search.accesses ++ rest.accesses }

/-! ## The second pass -/

/-- `BIT_VECTOR_GET_BIT` -/
def bitVectorGetBit (vector i : ℕ) : Bool := (msg.payload (vector + i / 8)).getLsbD (7 - i % 8)

/-- The vector of a record. -/
def vectorOf (pos : ℕ) : ℕ := pos + seedInfoSize cfg (seedInfoGetS msg pos)

/-- The record of a seed is compared with the seed's messages. -/
def compareRecord (fuel pos : ℕ) (seed : MplSeed) : Option Compared :=
  compareSeed (msg.payload pos) (BitVec.ofNat 8 (seedInfoGetLen msg pos * 8))
    (bitVectorGetBit msg (vectorOf cfg msg pos)) fuel seed.minSeq

/-- A record of the second pass, and the rest. -/
def secondPass (seeds : List MplSeed) (searchFuel : ℕ) : ℕ → ℕ → SeedId → Option IcmpIn
  | 0, _, seedId => some ⟨false, false, [], seedId, []⟩
  | fuel + 1, pos, seedId =>
    if pos < msg.len then
      let seedId := recordId msg seedId pos 2
      let reads := recordReads msg pos 2
      match seeds.find? fun seed => seed.id = seedId with
      | none =>
        (secondPass seeds searchFuel fuel (nextRecord cfg msg pos) seedId).map fun rest =>
          { rest with
            lMissing := true
            accesses := reads ++ rest.accesses }
      | some seed =>
        match compareRecord cfg msg searchFuel pos seed with
        | none => none
        | some found =>
          (secondPass seeds searchFuel fuel (nextRecord cfg msg pos) seedId).map fun rest =>
            { rest with
              lMissing := found.lMissing || rest.lMissing
              rMissing := found.rMissing || rest.rMissing
              restarted := found.restarted ++ rest.restarted
              accesses := reads ++ (.bytes pos 1 ::
                found.bits.map (.bit (vectorOf cfg msg pos) (seedInfoGetLen msg pos))) ++
                  rest.accesses }
    else some ⟨false, false, [], seedId, []⟩

/-! ## The message -/

/-- What becomes of a message: it is discarded, or compared with the seeds of a domain. -/
inductive IcmpResult
  | discarded
  | processed (domain : ℕ) (found : IcmpIn)

/-- The checks of the headers. -/
def headersOk : Bool :=
  !cfg.ipv6Checks || (isAddrMcastNonRoutable msg.destipaddr && msg.type == 159 && msg.icode == 0 &&
    msg.ttl == 0xFF)

/-- `icmp_in`, up to the control timer; a search for the last bit of a vector is given up after a
number of bits. -/
def icmpIn (st : MplNode) (searchFuel : ℕ) : Option IcmpResult :=
  if headersOk cfg msg then
    match domainOf st msg.destipaddr with
    | none => some .discarded
    | some (domain, _) =>
      let seeds := seedsOf st domain
      let first := firstPass cfg msg seeds 0 st.seedId
      (secondPass cfg msg seeds searchFuel msg.len 0 first.seedId).map fun second =>
        .processed domain { second with
          rMissing := first.rMissing || second.rMissing
          restarted := first.restarted ++ second.restarted
          accesses := first.accesses ++ second.accesses }
  else some .discarded

/-- What is done to the control timer of a domain. -/
inductive ControlTimer
  | start
  | inconsistency
  | consistency
deriving DecidableEq

/-- The end of `icmp_in`, where the control timer of the domain is running or not. -/
def controlTimer (running : Bool) (found : IcmpIn) : List ControlTimer :=
  let starts := found.lMissing && !running
  (if starts then [.start] else []) ++
    if found.lMissing || found.rMissing then
      if running || starts then [.inconsistency] else []
    else [.consistency]

end

end Asap.Mpl
