import Asap.Lib.Buffer
import Asap.Lib.Tlv
import Asap.Rpl.Instance

/-!
# RPL control messages

The handlers of DIOs, DAOs and DAO acknowledgements read the message straight out of the packet
buffer: a base object first, then options in a loop, under a length that is kept in eight bits.
A handler is a computation that reads a memory, in which the payload has its place at the start
and anything may come after it.

## Main definitions

* `dioInput` — the parser of a DIO, with what is handed over to the DAG code.
* `daoInput` — the handler of a DAO in storing and in non-storing mode, up to where routes change.
* `daoAckInput` — the fields of an acknowledgement.
-/

namespace Asap.Rpl

open Asap.Lib Asap.Ipv6

/-- `get16` -/
def get16 (pos : ℕ) : Read (BitVec 16) := do
  let high ← Read.byte pos
  let low ← Read.byte (pos + 1)
  return high.setWidth 16 <<< 8 ||| low.setWidth 16

/-- `get32` -/
def get32 (pos : ℕ) : Read (BitVec 32) := do
  let high ← get16 pos
  let low ← get16 (pos + 2)
  return high.setWidth 32 <<< 16 ||| low.setWidth 32

/-- What `memcpy` and `memcmp` read. -/
def copy (pos n : ℕ) : Read (List Byte) :=
  ⟨fun mem => (bytesAt mem pos n, if n = 0 then 0 else pos + n)⟩

/-- `memcpy` to the start of an address. What would come after its end is not in the value. -/
def overwrite (addr : UipIpaddr) (bs : List Byte) : UipIpaddr :=
  ⟨(bs ++ addr.val.drop bs.length).take 16, by simp [addr.property]; omega⟩

/-- An address of zeros only. -/
def zeroAddr : UipIpaddr := ⟨List.replicate 16 0, length_sixteen_zeros⟩

/-- The bytes that a prefix of some bits takes. -/
def prefixBytes (length : Byte) : ℕ := (length.toNat + 7) / 8

/-! ## DIOs -/

/-- A DIO that is being parsed, and the greatest number of bytes that were copied into one of its
prefixes. -/
structure DioParse where
  dio : RplDio
  written : ℕ

/-- The values of a DIO without a configuration option. -/
def dioDefault : RplDio where
  dagId := zeroAddr
  ocp := 1
  rank := 0
  grounded := 0
  mop := 0
  preference := 0
  version := 0
  instanceId := 0
  dtsn := 0
  dagIntdoubl := 8
  dagIntmin := 12
  dagRedund := 10
  defaultLifetime := 30
  lifetimeUnit := 60
  dagMaxRankinc := 7 * 128
  dagMinHoprankinc := 128
  destinationPrefix := ⟨zeroAddr, 0, 0, 0⟩
  prefixInfo := ⟨zeroAddr, 0, 0, 0⟩
  mc := ⟨0, 0, 0, 0, 0, 0, 0, 0⟩
  hopDistance := 0

/-- The field of the mode of operation. -/
def dioMop (flags : Byte) : Byte := (flags &&& 0x38) >>> 3

/-- The base object of a DIO. -/
def dioBase : Read RplDio := do
  let instanceId ← Read.byte 0
  let version ← Read.byte 1
  let rank ← get16 2
  let flags ← Read.byte 4
  let dtsn ← Read.byte 5
  let hopDistance ← Read.byte 7
  let dagId ← copy 8 16
  return { dioDefault with
    instanceId := instanceId
    version := version
    rank := rank
    grounded := flags &&& 0x80
    mop := dioMop flags
    preference := flags &&& 0x07
    dtsn := dtsn
    hopDistance := hopDistance
    dagId := overwrite zeroAddr dagId }

/-- `RPL_OPTION_DAG_METRIC_CONTAINER` -/
def dioMetricContainer (i len : ℕ) (p : DioParse) : Read (Option DioParse) :=
  if len < 6 then pure none
  else do
    let type ← Read.byte (i + 2)
    let flags ← Read.byte (i + 3)
    let bits ← Read.byte (i + 4)
    let length ← Read.byte (i + 5)
    let mc : RplMetricContainer :=
      { p.dio.mc with
        type := type
        flags := flags <<< 1 ||| bits >>> 7
        aggr := bits >>> 4 &&& 0x3
        prec := bits &&& 0xf
        length := length }
    if type = 0 then return some { p with dio := { p.dio with mc := mc } }
    else if type = 7 then
      let etx ← get16 (i + 6)
      return some { p with dio := { p.dio with mc := { mc with etx := etx } } }
    else if type = 2 then
      let energyFlags ← Read.byte (i + 6)
      let energyEst ← Read.byte (i + 7)
      return some { p with
        dio := { p.dio with mc := { mc with energyFlags := energyFlags, energyEst := energyEst } } }
    else return none

/-- The destination prefix of a DIO is copied if its length is a valid one. -/
def dioDestination (i len : ℕ) (length flags : Byte) (lifetime : BitVec 32) (p : DioParse) :
    Read (Option DioParse) :=
  if prefixBytes length + 8 ≤ len ∧ length.toNat ≤ 128 then do
    let bs ← copy (i + 8) (prefixBytes length)
    return some
      { dio := { p.dio with
          destinationPrefix :=
            ⟨overwrite p.dio.destinationPrefix.target bs, lifetime, length, flags⟩ }
        written := max p.written (prefixBytes length) }
  else pure none

/-- `RPL_OPTION_ROUTE_INFO` -/
def dioRouteInfo (i len : ℕ) (p : DioParse) : Read (Option DioParse) :=
  if len < 9 then pure none
  else do
    let length ← Read.byte (i + 2)
    let flags ← Read.byte (i + 3)
    let lifetime ← get32 (i + 4)
    dioDestination i len length flags lifetime p

/-- `RPL_OPTION_DAG_CONF` -/
def dioDagConf (i len : ℕ) (p : DioParse) : Read (Option DioParse) :=
  if len ≠ 16 then pure none
  else do
    let dagIntdoubl ← Read.byte (i + 3)
    let dagIntmin ← Read.byte (i + 4)
    let dagRedund ← Read.byte (i + 5)
    let dagMaxRankinc ← get16 (i + 6)
    let dagMinHoprankinc ← get16 (i + 8)
    let ocp ← get16 (i + 10)
    let defaultLifetime ← Read.byte (i + 13)
    let lifetimeUnit ← get16 (i + 14)
    return some { p with dio := { p.dio with
      dagIntdoubl := dagIntdoubl
      dagIntmin := dagIntmin
      dagRedund := dagRedund
      dagMaxRankinc := dagMaxRankinc
      dagMinHoprankinc := dagMinHoprankinc
      ocp := ocp
      defaultLifetime := defaultLifetime
      lifetimeUnit := lifetimeUnit } }

/-- `RPL_OPTION_PREFIX_INFO`; the prefix length is not looked at. -/
def dioPrefixInfo (i len : ℕ) (p : DioParse) : Read (Option DioParse) :=
  if len ≠ 32 then pure none
  else do
    let length ← Read.byte (i + 2)
    let flags ← Read.byte (i + 3)
    let lifetime ← get32 (i + 8)
    let bs ← copy (i + 16) 16
    return some
      { dio := { p.dio with prefixInfo := ⟨overwrite p.dio.prefixInfo.target bs, lifetime, length, flags⟩ }
        written := max p.written 16 }

/-- The options of a DIO by their type. Others are passed over. -/
def dioSwitch (suboptType : Byte) (i len : ℕ) (p : DioParse) : Read (Option DioParse) :=
  if suboptType = 2 then dioMetricContainer i len p
  else if suboptType = 3 then dioRouteInfo i len p
  else if suboptType = 4 then dioDagConf i len p
  else if suboptType = 8 then dioPrefixInfo i len p
  else pure (some p)

/-- One round of the loop of `dio_input`, which goes to `discard` or on. -/
def dioOption (bufferLength i len : ℕ) (p : DioParse) : Read (Option DioParse) :=
  if bufferLength < len + i then pure none
  else do
    let suboptType ← Read.byte i
    dioSwitch suboptType i len p

/-- `dio_input`, for a payload of `n` bytes: what is handed over to `rpl_process_dio`, if
anything is. -/
def dioInput (rounds n : ℕ) : Read (Option DioParse) := do
  let dio ← dioBase
  walk (n % 256) (dioOption (n % 256)) rounds 24 ⟨dio, 0⟩

/-! ## DAOs -/

/-- What a DAO says, and the greatest number of bytes that were copied into its prefix. -/
structure DaoOptions where
  prefixlen : Byte
  target : UipIpaddr
  lifetime : Byte
  parentAddr : UipIpaddr
  written : ℕ

/-- An instance, with what the sender of a DAO is to it: the rank of its parent entry, and
whether it is the preferred parent. -/
structure InstanceView where
  dagId : UipIpaddr
  defaultLifetime : Byte
  dagRank : BitVec 16
  minHoprankinc : BitVec 16
  parent : Option (BitVec 16 × Bool)

/-- The node a DAO comes to: its instances, whether the sender's address is a unicast one, and
what is on the stack in place of the prefix. -/
structure DaoContext where
  instances : Byte → Option InstanceView
  unicast : Bool
  stack : UipIpaddr

/-- Where a DAO handler ends: nothing has changed, or the rank of a parent is infinite now, or
the routes are going to change. -/
inductive DaoOutcome where
  | discarded
  | loop (instanceId : Byte)
  | accepted (instanceId flags sequence : Byte) (options : DaoOptions)

/-- The greatest number of bytes that were copied into the prefix. -/
def DaoOutcome.written : DaoOutcome → ℕ
  | .accepted _ _ _ o => o.written
  | _ => 0

/-- The DAO comes from a parent with a lower rank, or from the preferred parent. -/
def InstanceView.loop (view : InstanceView) : Bool :=
  match view.parent with
  | none => false
  | some (rank, preferred) =>
    decide (rank.toNat / view.minHoprankinc.toNat < view.dagRank.toNat / view.minHoprankinc.toNat) ||
      preferred

section

variable (storing : Bool)

/-- One round of the loop over the options of a DAO. The parent address is read in non-storing
mode. -/
def daoOption (i len : ℕ) (o : DaoOptions) : Read (Option DaoOptions) := do
  let suboptType ← Read.byte i
  if suboptType = 5 then
    let prefixlen ← Read.byte (i + 3)
    let bs ← copy (i + 4) (prefixBytes prefixlen)
    return some { o with
      prefixlen := prefixlen
      target := overwrite zeroAddr bs
      written := max o.written (prefixBytes prefixlen) }
  else if suboptType = 6 then
    let lifetime ← Read.byte (i + 5)
    if storing = false ∧ 20 ≤ len then
      let parentAddr ← copy (i + 6) 16
      return some { o with lifetime := lifetime, parentAddr := overwrite zeroAddr parentAddr }
    else return some { o with lifetime := lifetime }
  else return some o

section

variable (rounds n : ℕ) (ctx : DaoContext)

/-- The loop over the options of a DAO. -/
def daoWalk (view : InstanceView) (pos : ℕ) :
    Read (Option DaoOptions) :=
  walk (n % 256) (daoOption storing) rounds pos
    { prefixlen := 0
      target := if storing then zeroAddr else ctx.stack
      lifetime := view.defaultLifetime
      parentAddr := zeroAddr
      written := 0 }

/-- A DAO handler after the base object, which ends at an offset. -/
def daoParse (instanceId : Byte)
    (view : InstanceView) (flags sequence : Byte) (pos : ℕ) : Read DaoOutcome :=
  if storing ∧ ctx.unicast ∧ view.loop then pure (.loop instanceId)
  else do
    let options ← daoWalk storing rounds n ctx view pos
    match options with
    | none => pure .discarded
    | some o => pure (.accepted instanceId flags sequence o)

/-- A DAO with the DAG ID that it names. -/
def daoForDag (instanceId : Byte)
    (view : InstanceView) (flags sequence : Byte) (dagId : List Byte) : Read DaoOutcome :=
  if dagId = view.dagId.val then
    daoParse storing rounds n ctx instanceId view flags sequence 20
  else pure .discarded

/-- A DAO with the flag that a DAG ID is there, or without. -/
def daoFlags (instanceId : Byte)
    (view : InstanceView) (flags sequence : Byte) : Read DaoOutcome :=
  if flags &&& 0x40 = 0 then daoParse storing rounds n ctx instanceId view flags sequence 4
  else do
    let dagId ← copy 4 16
    daoForDag storing rounds n ctx instanceId view flags sequence dagId

/-- A DAO for an instance. -/
def daoForInstance (instanceId : Byte) :
    Read DaoOutcome :=
  match ctx.instances instanceId with
  | none => pure .discarded
  | some view => do
    let flags ← Read.byte 1
    let sequence ← Read.byte 3
    daoFlags storing rounds n ctx instanceId view flags sequence

/-- `dao_input` with `dao_input_storing` or `dao_input_nonstoring`, for a payload of `n` bytes -/
def daoInput : Read DaoOutcome := do
  let instanceId ← Read.byte 0
  daoForInstance storing rounds n ctx instanceId

end

end

/-! ## Acknowledgements -/

/-- `dao_ack_input`: the sequence number and the status, for an instance that is known -/
def daoAckInput (known : Byte → Bool) : Read (Option (Byte × Byte)) := do
  let instanceId ← Read.byte 0
  let sequence ← Read.byte 2
  let status ← Read.byte 3
  return if known instanceId then some (sequence, status) else none

end Asap.Rpl
