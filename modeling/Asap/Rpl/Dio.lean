import Asap.Ipv6.SourceRouting

/-!
# DODAG information objects

What a DIO says, as the parser hands it to the DAG code, and the lollipop order of versions
and of DAO trigger sequence numbers.

## Main definitions

* `RplDio` — the contents of a DIO, with its metric container and prefixes.
* `lollipopGreaterThan` — the order of lollipop counters.
-/

namespace Asap.Rpl

open Asap.Lib Asap.Ipv6

/-- `rpl_prefix_t` -/
structure RplPrefix where
  target : UipIpaddr
  lifetime : BitVec 32
  length : BitVec 8
  flags : BitVec 8

/-- `rpl_metric_container_t`, with the members of its union side by side -/
structure RplMetricContainer where
  type : BitVec 8
  flags : BitVec 8
  aggr : BitVec 8
  prec : BitVec 8
  length : BitVec 8
  etx : BitVec 16
  energyFlags : BitVec 8
  energyEst : BitVec 8

/-- `rpl_dio_t` -/
structure RplDio where
  dagId : UipIpaddr
  ocp : BitVec 16
  rank : BitVec 16
  grounded : BitVec 8
  mop : BitVec 8
  preference : BitVec 8
  version : BitVec 8
  instanceId : BitVec 8
  dtsn : BitVec 8
  dagIntdoubl : BitVec 8
  dagIntmin : BitVec 8
  dagRedund : BitVec 8
  defaultLifetime : BitVec 8
  lifetimeUnit : BitVec 16
  dagMaxRankinc : BitVec 16
  dagMinHoprankinc : BitVec 16
  destinationPrefix : RplPrefix
  prefixInfo : RplPrefix
  mc : RplMetricContainer
  hopDistance : BitVec 8

/-- `RPL_INFINITE_RANK` -/
def rplInfiniteRank : BitVec 16 := 0xffff

/-- `RPL_INFINITE_LIFETIME` -/
def rplInfiniteLifetime : BitVec 8 := 0xff

/-- `RPL_LOLLIPOP_INCREMENT` -/
def rplLollipopIncrement (counter : BitVec 8) : BitVec 8 :=
  if 127 < counter then (counter + 1) &&& 255 else (counter + 1) &&& 127

/-- `lollipop_greater_than`: a start value against an old one, or two values that are
comparable, also across the wrap. -/
def lollipopGreaterThan (a b : BitVec 8) : Bool :=
  if 127 < a.toNat ∧ b.toNat ≤ 127 then 16 + a.toNat < 256 + b.toNat
  else (b.toNat < a.toNat ∧ a.toNat < b.toNat + 16) ∨ (a.toNat < b.toNat ∧ a.toNat + 112 < b.toNat)

end Asap.Rpl
