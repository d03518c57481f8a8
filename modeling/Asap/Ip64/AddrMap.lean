import Asap.Lib.Pool
import Asap.Sys.Timer

/-!
# Address mappings

A packet from a node to the other network gets a port of its own as source port, and a mapping
from the port to the node. The mappings are on a list, each with a timer, and the entries come
from a pool: where it is empty, the recyclable mapping that expires next is given up.

## Main definitions

* `AddrmapEntry`, `Addrmap` — a mapping, and the list with the pool.
* `checkAge`, `recycle`, `ip64AddrmapLookup`, `ip64AddrmapLookupPort`, `ip64AddrmapCreate`.
* `ip646to4`, `ip644to6` — the ports of a packet in either direction.
* `World.step` — what happens to the mappings.
-/

namespace Asap.Ip64

open Lib Sys

variable {W : ℕ}

/-- A port. -/
abbrev Port := BitVec 16

/-- `FLAGS_RECYCLABLE` -/
def flagsRecyclable : BitVec 8 := 1

/-- `FIRST_MAPPED_PORT` -/
def firstMappedPort : ℕ := 10000

/-- `LAST_MAPPED_PORT` -/
def lastMappedPort : ℕ := 20000

/-- What a mapping is looked up by. -/
structure Flow where
  ip6addr : BitVec 128
  ip6port : Port
  ip4addr : BitVec 32
  ip4port : Port
  protocol : BitVec 8
deriving DecidableEq

/-- `struct ip64_addrmap_entry`, but for its place on the list. -/
structure AddrmapEntry (W : ℕ) where
  timer : Timer W
  flow : Flow
  ip6to4 : BitVec 32
  ip4to6 : BitVec 32
  mappedPort : Port
  flags : BitVec 8
deriving DecidableEq

/-- The mappings: the list, the blocks of the pool in use, the `next` field of the entries that are
not on the list, and the port that is tried next. -/
structure Addrmap (W : ℕ) where
  entry : ℕ → AddrmapEntry W
  used : ℕ → Bool
  entrylist : List ℕ
  next : ℕ → Option ℕ
  mappedPort : Port

namespace Addrmap

/-- `ip64_addrmap_init`: the blocks are cleared. -/
def init : Addrmap W where
  entry _ := ⟨⟨0, 0⟩, ⟨0, 0, 0, 0, 0⟩, 0, 0, 0, 0⟩
  used _ := false
  entrylist := []
  next _ := none
  mappedPort := .ofNat 16 firstMappedPort

variable (n : ℕ) (now : BitVec W) (s : Addrmap W)

/-- `list_item_next`: behind the entries of the list it is what has been left there. -/
def listItemNext (m : ℕ) : Option ℕ :=
  if m ∈ s.entrylist then (s.entrylist.dropWhile (· ≠ m)).tail.head? else s.next m

/-- `list_remove` with `memb_free`; the `next` field of the entry is cleared. -/
def remove (m : ℕ) : Addrmap W where
  entry := s.entry
  used := Function.update s.used m false
  entrylist := s.entrylist.erase m
  next := Function.update s.next m none
  mappedPort := s.mappedPort

/-- An entry is written. -/
def write (m : ℕ) (e : AddrmapEntry W) : Addrmap W :=
  { s with entry := Function.update s.entry m e }

theorem write_entry_self (m : ℕ) (e : AddrmapEntry W) : (s.write m e).entry m = e := by
  simp [write]

theorem write_entry_of_ne {m m' : ℕ} (h : m' ≠ m) (e : AddrmapEntry W) :
    (s.write m e).entry m' = s.entry m' := by
  simp [write, h]

/-- The loop of `check_age`: it starts over at the head when an entry has been removed. -/
def checkAgeLoop : ℕ → Addrmap W → Addrmap W
  | 0, s => s
  | k + 1, s =>
    match s.entrylist.find? fun m => timerExpired now (s.entry m).timer with
    | none => s
    | some m => checkAgeLoop k (s.remove m)

/-- `check_age` -/
def checkAge : Addrmap W := checkAgeLoop now s.entrylist.length s

/-- The loop of `recycle`. -/
def oldest : List ℕ → Option ℕ → Option ℕ
  | [], o => o
  | m :: l, o =>
    if (s.entry m).flags &&& flagsRecyclable ≠ 0 then
      match o with
      | none => oldest l (some m)
      | some o =>
        if timerRemaining now (s.entry m).timer < timerRemaining now (s.entry o).timer then
          oldest l (some m)
        else oldest l (some o)
    else oldest l o

/-- `recycle`; `none` where there is nothing to recycle. -/
def recycle : Option (Addrmap W) := (oldest now s s.entrylist none).map s.remove

/-- The loop of the lookups. -/
def lookupIn (p : AddrmapEntry W → Bool) : Option ℕ := s.entrylist.find? fun m => p (s.entry m)

/-- `ip64_addrmap_lookup` -/
def ip64AddrmapLookup (flow : Flow) : Addrmap W × Option ℕ :=
  let s := s.checkAge now
  match s.lookupIn fun e => e.flow = flow with
  | none => (s, none)
  | some m => (s.write m { s.entry m with ip6to4 := (s.entry m).ip6to4 + 1 }, some m)

/-- `ip64_addrmap_lookup_port` -/
def ip64AddrmapLookupPort (mappedPort : Port) (protocol : BitVec 8) : Addrmap W × Option ℕ :=
  let s := s.checkAge now
  match s.lookupIn fun e => e.mappedPort = mappedPort ∧ e.flow.protocol = protocol with
  | none => (s, none)
  | some m => (s.write m { s.entry m with ip4to6 := (s.entry m).ip4to6 + 1 }, some m)

/-- `increase_mapped_port`, with the number that `random_rand` returns. -/
def increaseMappedPort (rand : BitVec 16) : Port :=
  .ofNat 16 (rand.toNat % (lastMappedPort - firstMappedPort) + firstMappedPort)

/-- The search for a port, for the entry `m`: the entry of the list that is compared, the numbers
that have been drawn and the port so far. The entry behind the compared one is taken of `m`. -/
def pickPort (m : ℕ) (rand : ℕ → BitVec 16) : ℕ → ℕ → Option ℕ → Port → Option (Port × ℕ)
  | 0, _, _, _ => none
  | _ + 1, i, none, port => some (port, i)
  | fuel + 1, i, some e, port =>
    if (s.entry e).mappedPort = port then
      pickPort m rand fuel (i + 1) s.entrylist.head? (increaseMappedPort (rand i))
    else pickPort m rand fuel i (s.listItemNext m) port

/-- A block for a new entry, of one that is recycled where the pool is empty. -/
def allocate : Addrmap W × Option ℕ :=
  match membAlloc n s.used with
  | some m => ({ s with used := Function.update s.used m true }, some m)
  | none =>
    match s.recycle now with
    | none => (s, none)
    | some s =>
      match membAlloc n s.used with
      | none => (s, none)
      | some m => ({ s with used := Function.update s.used m true }, some m)

/-- `list_add` of an entry that is not on the list, with its port; another one is drawn. -/
def add (m : ℕ) (flow : Flow) (port next : Port) : Addrmap W where
  entry := Function.update s.entry m ⟨timerSet now 0, flow, 1, 0, port, 0⟩
  used := s.used
  entrylist := s.entrylist ++ [m]
  next := s.next
  mappedPort := next

/-- `ip64_addrmap_create`; it does not return where the search takes more than `fuel` turns. -/
def ip64AddrmapCreate (flow : Flow) (rand : ℕ → BitVec 16) (fuel : ℕ) :
    Option (Addrmap W × Option ℕ) :=
  match (s.checkAge now).allocate n now with
  | (s, none) => some (s, none)
  | (s, some m) =>
    match s.pickPort m rand fuel 0 s.entrylist.head? s.mappedPort with
    | none => none
    | some (port, i) => some (s.add now m flow port (increaseMappedPort (rand i)), some m)

/-- `ip64_addrmap_set_lifetime` -/
def setLifetime (m : ℕ) (time : BitVec W) : Addrmap W :=
  s.write m { s.entry m with timer := timerSet now time }

/-- `ip64_addrmap_set_recycleble` -/
def setRecycleble (m : ℕ) : Addrmap W :=
  s.write m { s.entry m with flags := (s.entry m).flags ||| flagsRecyclable }

end Addrmap

/-! ## Packets -/

/-- `EPHEMERAL_PORTRANGE` -/
def ephemeralPortrange : Port := 1024

/-- `IP_PROTO_TCP` -/
def ipProtoTcp : BitVec 8 := 6

/-- `IP_PROTO_UDP` -/
def ipProtoUdp : BitVec 8 := 17

/-- `DNS_PORT` -/
def dnsPort : Port := 53

/-- `TCP_FIN` -/
def tcpFin : BitVec 8 := 1

/-- `TCP_SYN` -/
def tcpSyn : BitVec 8 := 2

/-- `TCP_RST` -/
def tcpRst : BitVec 8 := 4

/-- The number of entries, the ticks of a second, and the special ports of the platform. -/
structure Ip64Config where
  numEntries : ℕ
  clockSecond : ℕ
  outgoingIsSpecial : Port → Bool
  translateOutgoing : Port → BitVec 128 → Option Port
  incomingIsSpecial : Port → Bool
  translateIncoming : Port → Option (BitVec 128 × Port)

/-- What is read of a packet to the other network: its flow, and the flags of TCP. -/
structure Outgoing where
  flow : Flow
  tcpFlags : BitVec 8

/-- What becomes of the source port of a packet. -/
inductive SourcePort
  | dropped
  | plain (port : Port)
  | mapped (port : Port)
deriving DecidableEq

/-- Where a packet from the other network goes. -/
inductive Destination
  | dropped
  | localHost
  | special (ip6addr : BitVec 128) (port : Port)
  | mapped (ip6addr : BitVec 128) (port : Port)
deriving DecidableEq

variable (cfg : Ip64Config) (now : BitVec W)

/-- The lifetime of the mapping of a packet. -/
def lifetime (p : Outgoing) : BitVec W :=
  .ofNat W <|
    if p.flow.protocol = ipProtoTcp then
      if p.tcpFlags &&& tcpSyn ≠ 0 then cfg.clockSecond * 20
      else if p.tcpFlags &&& tcpRst ≠ 0 then cfg.clockSecond * 30
      else cfg.clockSecond * 60 * 5
    else cfg.clockSecond * 60 * 5

/-- A mapping can be recycled after the packet: the connection ends, there is no answer, or only
one. -/
def recyclableAfter (p : Outgoing) : Bool :=
  if p.flow.protocol = ipProtoTcp then p.tcpFlags &&& tcpFin ≠ 0 ∨ p.tcpFlags &&& tcpRst ≠ 0
  else p.flow.ip4addr.extractLsb' 24 8 = 224 ∨ p.flow.ip4port = dnsPort

/-- The mapping of a packet is updated, and its port is the source port. -/
def Addrmap.send (s : Addrmap W) (m : ℕ) (p : Outgoing) : Addrmap W × SourcePort :=
  let s := s.setLifetime now m (lifetime cfg p)
  let s := if recyclableAfter p then s.setRecycleble m else s
  (s, .mapped (s.entry m).mappedPort)

/-- `ip64_6to4`, what concerns the source port. -/
def ip646to4 (s : Addrmap W) (p : Outgoing) (rand : ℕ → BitVec 16) (fuel : ℕ) :
    Option (Addrmap W × SourcePort) :=
  if p.flow.protocol = ipProtoUdp ∨ p.flow.protocol = ipProtoTcp then
    if cfg.outgoingIsSpecial p.flow.ip6port then
      some (s, .plain ((cfg.translateOutgoing p.flow.ip6port p.flow.ip6addr).getD p.flow.ip6port))
    else if ephemeralPortrange ≤ p.flow.ip6port then
      match s.ip64AddrmapLookup now p.flow with
      | (s, some m) => some (s.send cfg now m p)
      | (s, none) =>
        match s.ip64AddrmapCreate cfg.numEntries now p.flow rand fuel with
        | none => none
        | some (s, none) => some (s, .dropped)
        | some (s, some m) => some (s.send cfg now m p)
    else some (s, .plain p.flow.ip6port)
  else some (s, .plain p.flow.ip6port)

/-- `ip64_4to6`, what concerns the destination of a TCP or UDP packet. -/
def ip644to6 (s : Addrmap W) (destport : Port) (proto : BitVec 8) : Addrmap W × Destination :=
  if destport < ephemeralPortrange then (s, .localHost)
  else if cfg.incomingIsSpecial destport then
    match cfg.translateIncoming destport with
    | some (ip6addr, port) => (s, .special ip6addr port)
    | none => (s, .localHost)
  else
    match s.ip64AddrmapLookupPort now destport proto with
    | (s, none) => (s, .dropped)
    | (s, some m) => (s, .mapped (s.entry m).flow.ip6addr (s.entry m).flow.ip6port)

/-! ## Runs -/

/-- A port has been given to a packet of a node. -/
structure Given where
  port : Port
  flow : Flow
deriving DecidableEq

/-- The mappings, and the ports that have been given, the last one first. -/
structure World (W : ℕ) where
  map : Addrmap W
  given : List Given

/-- What happens to the mappings; `rand` is what `random_rand` returns from here on. -/
inductive AddrmapEvent (W : ℕ)
  | create (now : BitVec W) (flow : Flow) (rand : ℕ → BitVec 16) (fuel : ℕ)
  | lookup (now : BitVec W) (flow : Flow)
  | lookupPort (now : BitVec W) (port : Port) (protocol : BitVec 8)
  | setLifetime (now : BitVec W) (m : ℕ) (time : BitVec W)
  | setRecycleble (m : ℕ)
  | outgoing (now : BitVec W) (p : Outgoing) (rand : ℕ → BitVec 16) (fuel : ℕ)
  | incoming (now : BitVec W) (destport : Port) (proto : BitVec 8)

namespace World

/-- Nothing is mapped. -/
def init : World W := ⟨Addrmap.init, []⟩

/-- A port is given by an entry. -/
def give (s : Addrmap W) (given : List Given) (m : ℕ) : World W :=
  ⟨s, ⟨(s.entry m).mappedPort, (s.entry m).flow⟩ :: given⟩

/-- One event. -/
def step (w : World W) : AddrmapEvent W → Option (World W)
  | .create now flow rand fuel =>
    match w.map.ip64AddrmapCreate cfg.numEntries now flow rand fuel with
    | none => none
    | some (s, none) => some ⟨s, w.given⟩
    | some (s, some m) => some (give s w.given m)
  | .lookup now flow => some ⟨(w.map.ip64AddrmapLookup now flow).1, w.given⟩
  | .lookupPort now port protocol =>
    some ⟨(w.map.ip64AddrmapLookupPort now port protocol).1, w.given⟩
  | .setLifetime now m time => some ⟨w.map.setLifetime now m time, w.given⟩
  | .setRecycleble m => some ⟨w.map.setRecycleble m, w.given⟩
  | .outgoing now p rand fuel =>
    match ip646to4 cfg now w.map p rand fuel with
    | none => none
    | some (s, .mapped port) => some ⟨s, ⟨port, p.flow⟩ :: w.given⟩
    | some (s, _) => some ⟨s, w.given⟩
  | .incoming now destport proto => some ⟨(ip644to6 cfg now w.map destport proto).1, w.given⟩

/-- The node that a port has been given to last, among those of a protocol. -/
def lastGiven (w : World W) (port : Port) (protocol : BitVec 8) : Option (BitVec 128 × Port) :=
  (w.given.find? fun g => g.port = port ∧ g.flow.protocol = protocol).map
    fun g => (g.flow.ip6addr, g.flow.ip6port)

end World

end Asap.Ip64
