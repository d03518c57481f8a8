import Asap.Rpl.Icmp6Safety

/-!
# The DIO of a node

`dio_output` writes what an instance and its DAG advertise into a packet, and `dio_input` of a
neighbor reads it with code of its own. What the neighbor hands over to the DAG code is what was
advertised, field by field, with one exception: that the DAG is grounded is a flag, which comes out
as the bit of the flags byte.

## Main definitions

* `DioInstance`, `DioDag` — the fields of an instance and a DAG that a DIO has.
* `updateMetricContainer` — the metric container, by the objective function.
* `dioOutput` — the payload, and the instance afterwards.
* `advertised` — the DIO that a neighbor gets.
-/

namespace Asap.Rpl

open List

open Asap.Lib Asap.Lib.Read Asap.Ipv6

/-- `RPL_LEAF_ONLY`, `RPL_WITH_MC`, `RPL_DIO_REFRESH_DAO_ROUTES` and `RPL_DAG_MC` -/
structure DioOutputConfig where
  leafOnly : Bool
  withMc : Bool
  refreshDaoRoutes : Bool
  dagMc : Byte

/-- `rpl_of0` and `rpl_mrhof` -/
inductive ObjectiveFunction where
  | of0
  | mrhof
deriving DecidableEq

/-- `ocp` of an objective function. -/
def ObjectiveFunction.ocp : ObjectiveFunction → BitVec 16
  | .of0 => 0
  | .mrhof => 1

/-- The fields of `rpl_instt` that a DIO is made of. -/
structure DioInstance where
  instanceId : Byte
  mop : Byte
  dtsnOut : Byte
  mc : RplMetricContainer
  dioIntdoubl : Byte
  dioIntmin : Byte
  dioRedundancy : Byte
  maxRankinc : BitVec 16
  minHoprankinc : BitVec 16
  objective : ObjectiveFunction
  defaultLifetime : Byte
  lifetimeUnit : BitVec 16

/-- The preferred parent, with its `parent_path_cost`. -/
structure DioParent where
  hopDistance : Byte
  pathCost : BitVec 16

/-- The fields of `rpl_dag_t` that a DIO is made of. -/
structure DioDag where
  joined : Bool
  version : Byte
  rank : BitVec 16
  grounded : Byte
  preference : Byte
  dagId : UipIpaddr
  preferredParent : Option DioParent
  prefixInfo : RplPrefix

section

variable (dag : DioDag) (inst : DioInstance)

/-- The rank is `ROOT_RANK`. -/
def DioDag.isRoot : Bool :=
  dag.rank = inst.minHoprankinc

/-- `my_hop_distance` -/
def DioDag.myHopDistance : Byte :=
  if dag.isRoot inst then 0
  else
    match dag.preferredParent with
    | none => 0xff
    | some p => p.hopDistance + 1

/-- The path cost that MRHOF writes into the metric container. -/
def DioDag.mcPathCost : BitVec 16 :=
  if dag.isRoot inst then dag.rank
  else
    match dag.preferredParent with
    | none => 0xffff
    | some p => p.pathCost

end

section

variable (cfg : DioOutputConfig) (inst : DioInstance) (dag : DioDag)

/-- The metric container of a root is configured; the one of another node stays. -/
def rootMetricContainer :
    RplMetricContainer :=
  if dag.isRoot inst then
    { inst.mc with type := cfg.dagMc, flags := 0, aggr := 0, prec := 0 }
  else inst.mc

/-- `update_metric_container` of `rpl-mrhof.c` with `RPL_WITH_MC`. -/
def mrhofMetricContainer :
    RplMetricContainer :=
  if !dag.joined then inst.mc
  else
    let mc := rootMetricContainer cfg inst dag
    let pathCost := dag.mcPathCost inst
    if mc.type = 7 then { mc with length := 2, etx := pathCost }
    else if mc.type = 2 then
      { mc with
        length := 2
        energyFlags := if dag.isRoot inst then 0 else 2
        energyEst := (pathCost >>> 8).setWidth 8 }
    else mc

/-- `update_metric_container` of the objective function. -/
def updateMetricContainer :
    RplMetricContainer :=
  match inst.objective, cfg.withMc with
  | .mrhof, true => mrhofMetricContainer cfg inst dag
  | _, _ => { inst.mc with type := 0 }

end

/-! ## Writing -/

/-- `set16` -/
def set16 (w : BitVec 16) : List Byte := [(w >>> 8).setWidth 8, (w &&& 0xff).setWidth 8]

/-- `set32` -/
def set32 (w : BitVec 32) : List Byte :=
  [(w >>> 24).setWidth 8, (w >>> 16 &&& 0xff).setWidth 8, (w >>> 8 &&& 0xff).setWidth 8,
    (w &&& 0xff).setWidth 8]

/-- The byte with the flag, the mode of operation and the preference. -/
def dioFlags (inst : DioInstance) (dag : DioDag) : Byte :=
  (if dag.grounded ≠ 0 then 0x80 else 0) ||| inst.mop <<< 3 ||| dag.preference &&& 0x07

/-- The base object. -/
def dioBaseBytes (cfg : DioOutputConfig) (inst : DioInstance) (dag : DioDag) : List Byte :=
  [inst.instanceId, dag.version] ++ set16 (if cfg.leafOnly then rplInfiniteRank else dag.rank) ++
    [dioFlags inst dag, inst.dtsnOut, 0, dag.myHopDistance inst] ++ dag.dagId.val

/-- The metric container, if its type is one that can be sent. -/
def dioMetricBytes (mc : RplMetricContainer) : Option (List Byte) :=
  let head : List Byte :=
    [2, 6, mc.type, mc.flags >>> 1, (mc.flags &&& 1) <<< 7 ||| (mc.aggr <<< 4 ||| mc.prec), 2]
  if mc.type = 7 then some (head ++ set16 mc.etx)
  else if mc.type = 2 then some (head ++ [mc.energyFlags, mc.energyEst])
  else none

/-- The configuration option. -/
def dioConfBytes (inst : DioInstance) : List Byte :=
  [4, 14, 0, inst.dioIntdoubl, inst.dioIntmin, inst.dioRedundancy] ++
    set16 inst.maxRankinc ++ set16 inst.minHoprankinc ++ set16 inst.objective.ocp ++
    [0, inst.defaultLifetime] ++ set16 inst.lifetimeUnit

/-- The prefix information option, for a prefix that is not empty. -/
def dioPrefixBytes (p : RplPrefix) : List Byte :=
  if 0 < p.length then
    [8, 30, p.length, p.flags] ++ set32 p.lifetime ++ set32 p.lifetime ++ [0, 0, 0, 0] ++ p.target.val
  else []

/-- The payload of a DIO, if one is sent, and the instance afterwards. -/
structure DioSent where
  payload : Option (List Byte)
  inst : DioInstance

/-- The instance after a DIO of the root to all nodes, which asks for new DAOs. -/
def refreshDtsn (cfg : DioOutputConfig) (inst : DioInstance) (dag : DioDag)
    (ucAddr : Option UipIpaddr) : DioInstance :=
  if cfg.refreshDaoRoutes && dag.isRoot inst && ucAddr.isNone then
    { inst with dtsnOut := rplLollipopIncrement inst.dtsnOut }
  else inst

/-- `dio_output` -/
def dioOutput (cfg : DioOutputConfig) (inst : DioInstance) (dag : DioDag)
    (ucAddr : Option UipIpaddr) : DioSent :=
  if cfg.leafOnly && ucAddr.isNone then ⟨none, inst⟩
  else
    let base := dioBaseBytes cfg inst dag
    let refreshed := refreshDtsn cfg inst dag ucAddr
    if cfg.leafOnly || inst.mc.type = 0 then
      ⟨some (base ++ dioConfBytes inst ++ dioPrefixBytes dag.prefixInfo), refreshed⟩
    else
      let mc := updateMetricContainer cfg refreshed dag
      let updated := { refreshed with mc := mc }
      match dioMetricBytes mc with
      | none => ⟨none, updated⟩
      | some metric =>
        ⟨some (base ++ metric ++ dioConfBytes inst ++ dioPrefixBytes dag.prefixInfo), updated⟩

/-- What a metric container says: the members of its union that its type has. -/
def advertisedMc (mc : RplMetricContainer) : RplMetricContainer :=
  if mc.type = 7 then { mc with energyFlags := 0, energyEst := 0 }
  else if mc.type = 2 then { mc with etx := 0 }
  else mc

/-- The DIO that is advertised. -/
def advertised (cfg : DioOutputConfig) (inst : DioInstance) (dag : DioDag) : RplDio where
  dagId := dag.dagId
  ocp := inst.objective.ocp
  rank := if cfg.leafOnly then rplInfiniteRank else dag.rank
  grounded := if dag.grounded ≠ 0 then 0x80 else 0
  mop := inst.mop
  preference := dag.preference
  version := dag.version
  instanceId := inst.instanceId
  dtsn := inst.dtsnOut
  dagIntdoubl := inst.dioIntdoubl
  dagIntmin := inst.dioIntmin
  dagRedund := inst.dioRedundancy
  defaultLifetime := inst.defaultLifetime
  lifetimeUnit := inst.lifetimeUnit
  dagMaxRankinc := inst.maxRankinc
  dagMinHoprankinc := inst.minHoprankinc
  destinationPrefix := ⟨zeroAddr, 0, 0, 0⟩
  prefixInfo := if 0 < dag.prefixInfo.length then dag.prefixInfo else ⟨zeroAddr, 0, 0, 0⟩
  mc := if cfg.leafOnly || inst.mc.type = 0 then ⟨0, 0, 0, 0, 0, 0, 0, 0⟩
    else advertisedMc (updateMetricContainer cfg inst dag)
  hopDistance := dag.myHopDistance inst

/-- The fields that a DIO has a few bits for. -/
structure Advertisable (inst : DioInstance) (dag : DioDag) : Prop where
  joined : dag.joined = true
  mop : inst.mop.toNat < 8
  preference : dag.preference.toNat < 8
  aggr : inst.mc.aggr.toNat < 4
  prec : inst.mc.prec.toNat < 16

/-! ## Bytes -/

variable {cfg : DioOutputConfig} {inst : DioInstance} {dag : DioDag} {mem : ℕ → Byte}
  {i pos bound fuel n rounds : ℕ}

theorem setWidth_and_ff {k : ℕ} (w : BitVec k) (h : 8 ≤ k) :
    (w &&& 0xff).setWidth 8 = w.setWidth 8 := by
  have hones : (0xff : BitVec k).setWidth 8 = BitVec.allOnes 8 := by
    apply BitVec.eq_of_toNat_eq
    have hlt : 255 < 2 ^ k := Nat.lt_of_lt_of_le (by decide) (Nat.pow_le_pow_right (by decide) h)
    simp [BitVec.toNat_setWidth, Nat.mod_eq_of_lt hlt]
  rw [BitVec.setWidth_and, hones, BitVec.and_allOnes]

/-- A word is read as it was written. -/
theorem val_get16 {w : BitVec 16} (h : Holds mem pos (set16 w)) : (get16 pos).val mem = w := by
  rw [set16, setWidth_and_ff w (by decide), holds_cons, holds_cons] at h
  rw [get16, val_bind, val_bind, val_pure, val_byte, val_byte, h.1, h.2.1,
    BitVec.or_comm]
  exact or_shiftLeft_setWidth w

/-- The two halves of a long word. -/
theorem or_shiftLeft_halves (w : BitVec 32) :
    ((w >>> 16).setWidth 16).setWidth 32 <<< 16 ||| (w.setWidth 16).setWidth 32 = w := by
  apply BitVec.eq_of_getLsbD_eq
  intro i hi
  by_cases hlow : i < 16
  · simp [hlow, hi]
  · have hrest : 16 + (i - 16) = i := by omega
    have hsub : i - 16 < 16 := by omega
    simp [hlow, hi, hrest, hsub]

theorem set32_eq (w : BitVec 32) :
    set32 w = set16 ((w >>> 16).setWidth 16) ++ set16 (w.setWidth 16) := by
  have hhigh : ((w >>> 16).setWidth 16 >>> 8).setWidth 8 = (w >>> 24).setWidth 8 := by
    apply BitVec.eq_of_getLsbD_eq
    intro i hi
    have hin : 8 + i < 16 := by omega
    have hadd : 16 + (8 + i) = 24 + i := by omega
    simp [hi, hin, hadd]
  have hlow : (w.setWidth 16 >>> 8).setWidth 8 = (w >>> 8).setWidth 8 := by
    apply BitVec.eq_of_getLsbD_eq
    intro i hi
    have hin : 8 + i < 16 := by omega
    simp [hi, hin]
  rw [set32, set16, set16, setWidth_and_ff _ (by decide), setWidth_and_ff _ (by decide),
    setWidth_and_ff _ (by decide), setWidth_and_ff _ (by decide), setWidth_and_ff _ (by decide),
    hhigh, hlow, BitVec.setWidth_setWidth_of_le _ (by decide),
    BitVec.setWidth_setWidth_of_le _ (by decide)]
  rfl

@[simp] theorem length_set16 (w : BitVec 16) : (set16 w).length = 2 := rfl

theorem val_get32 {w : BitVec 32} (h : Holds mem pos (set32 w)) : (get32 pos).val mem = w := by
  rw [set32_eq, holds_append, length_set16] at h
  rw [get32, val_bind, val_bind, val_pure, val_get16 h.1, val_get16 h.2]
  exact or_shiftLeft_halves w

theorem overwrite_val (addr : UipIpaddr) : overwrite zeroAddr addr.val = addr := by
  have hlen := addr.property
  have htake : (addr.val ++ zeroAddr.val.drop addr.val.length).take 16 = addr.val := by
    rw [take_append_of_le_length (by omega)]
    exact take_of_length_le (by omega)
  exact Subtype.ext htake

/-- A byte of a few bits. -/
theorem exists_setWidth {k : ℕ} {b : Byte} (h : b.toNat < 2 ^ k) :
    ∃ c : BitVec k, b = c.setWidth 8 := by
  refine ⟨BitVec.ofNat k b.toNat, BitVec.eq_of_toNat_eq ?_⟩
  rw [BitVec.toNat_setWidth, BitVec.toNat_ofNat, Nat.mod_eq_of_lt h]
  exact (Nat.mod_eq_of_lt b.isLt).symm

/-- The flags byte is taken apart as it was put together. -/
theorem dioFlags_parts (h : Advertisable inst dag) :
    dioFlags inst dag &&& 0x80 = (if dag.grounded ≠ 0 then 0x80 else 0) ∧
      dioMop (dioFlags inst dag) = inst.mop ∧ dioFlags inst dag &&& 0x07 = dag.preference := by
  have ⟨m, hm⟩ := exists_setWidth (k := 3) h.mop
  have ⟨p, hp⟩ := exists_setWidth (k := 3) h.preference
  have hall : ∀ (g : Bool) (m p : BitVec 3),
      let flags : Byte := (if g then 0x80 else 0) ||| m.setWidth 8 <<< 3 ||| p.setWidth 8 &&& 0x07
      flags &&& 0x80 = (if g then 0x80 else 0) ∧ dioMop flags = m.setWidth 8 ∧
        flags &&& 0x07 = p.setWidth 8 := by decide
  have hparts := hall (decide (dag.grounded ≠ 0)) m p
  simp only [decide_eq_true_eq] at hparts
  rw [dioFlags, hm, hp]
  exact hparts

/-- The bytes of a metric container are taken apart as they were put together. -/
theorem mcFlags_parts {mc : RplMetricContainer} (haggr : mc.aggr.toNat < 4)
    (hprec : mc.prec.toNat < 16) :
    let bits := (mc.flags &&& 1) <<< 7 ||| (mc.aggr <<< 4 ||| mc.prec)
    mc.flags >>> 1 <<< 1 ||| bits >>> 7 = mc.flags ∧ bits >>> 4 &&& 0x3 = mc.aggr ∧
      bits &&& 0xf = mc.prec := by
  have ⟨a, ha⟩ := exists_setWidth (k := 2) haggr
  have ⟨p, hp⟩ := exists_setWidth (k := 4) hprec
  have hlow : ∃ c : BitVec 1, mc.flags &&& 1 = c.setWidth 8 := exists_setWidth (k := 1) (by
    rw [BitVec.toNat_and]
    exact Nat.lt_of_le_of_lt Nat.and_le_right (by decide))
  have ⟨c, hc⟩ := hlow
  have hall : ∀ (c : BitVec 1) (a : BitVec 2) (p : BitVec 4),
      let bits : Byte := c.setWidth 8 <<< 7 ||| (a.setWidth 8 <<< 4 ||| p.setWidth 8)
      bits >>> 7 = c.setWidth 8 ∧ bits >>> 4 &&& 0x3 = a.setWidth 8 ∧
        bits &&& 0xf = p.setWidth 8 := by decide
  have hparts := hall c a p
  have hflags : mc.flags >>> 1 <<< 1 ||| (mc.flags &&& 1) = mc.flags := by
    apply BitVec.eq_of_getLsbD_eq
    intro i hi
    cases i with
    | zero => simp
    | succ i => simp [hi, Nat.add_comm 1]
  intro bits
  have hbits : bits = c.setWidth 8 <<< 7 ||| (a.setWidth 8 <<< 4 ||| p.setWidth 8) := by
    rw [← hc, ← ha, ← hp]
  rw [hbits, ha, hp]
  exact ⟨by rw [hparts.1, ← hc]; exact hflags, hparts.2.1, hparts.2.2⟩

/-! ## Reading -/

theorem holds_copy {bs : List Byte} (h : Holds mem pos bs) {k : ℕ} (hk : bs.length = k) :
    (copy pos k).val mem = bs := by
  rw [val_copy, ← hk]
  exact h.bytesAt

/-- The base object. -/
theorem val_dioBase (hadv : Advertisable inst dag) (h : Holds mem 0 (dioBaseBytes cfg inst dag)) :
    dioBase.val mem = { dioDefault with
      instanceId := inst.instanceId
      version := dag.version
      rank := if cfg.leafOnly then rplInfiniteRank else dag.rank
      grounded := if dag.grounded ≠ 0 then 0x80 else 0
      mop := inst.mop
      preference := dag.preference
      dtsn := inst.dtsnOut
      hopDistance := dag.myHopDistance inst
      dagId := dag.dagId } := by
  obtain ⟨hgrounded, hmop, hpreference⟩ := dioFlags_parts hadv
  simp only [dioBaseBytes, holds_append, holds_cons, length_append, length_cons,
    length_nil, length_set16, Nat.zero_add, Nat.reduceAdd] at h
  obtain ⟨⟨⟨⟨hid, hversion, _⟩, hrank⟩, hflags, hdtsn, _, hhop, _⟩, hdag⟩ := h
  simp only [dioBase, val_bind, val_pure, val_byte, val_get16 hrank,
    holds_copy hdag dag.dagId.property, hid, hversion, hflags, hdtsn, hhop, overwrite_val,
    hgrounded, hmop, hpreference]

/-- One option in the loop over the options. -/
theorem val_walk_option {p q : DioParse} {type len : Byte} (hi : i < bound) (htype : mem i = type)
    (hne : type ≠ 0) (hlen : mem (i + 1) = len) (hin : i + (2 + len.toNat) ≤ bound)
    (hswitch : (dioSwitch type i (2 + len.toNat) p).val mem = some q) :
    (walk bound (dioOption bound) (fuel + 1) i p).val mem =
      (walk bound (dioOption bound) fuel (i + (2 + len.toNat)) q).val mem := by
  have hopt : optLen mem i = 2 + len.toNat := by
    rw [optLen_of_ne_zero (by rw [htype]; exact hne), hlen]
  have hbody : (dioOption bound i (2 + len.toNat) p).val mem = some q := by
    rw [dioOption, if_neg (by omega), val_bind, val_byte, htype]
    exact hswitch
  rw [walk, if_pos hi, val_bind, val_readOptLen, hopt, val_bind, hbody]

/-- The metric container. -/
theorem val_dioMetricContainer {mc : RplMetricContainer} {bs : List Byte} {p : DioParse}
    (haggr : mc.aggr.toNat < 4) (hprec : mc.prec.toNat < 16) (hlength : mc.length = 2)
    (hbs : dioMetricBytes mc = some bs) (h : Holds mem i bs)
    (hempty : p.dio.mc = ⟨0, 0, 0, 0, 0, 0, 0, 0⟩) :
    mem i = 2 ∧ mem (i + 1) = 6 ∧ bs.length = 8 ∧
      (dioSwitch 2 i 8 p).val mem = some { p with dio := { p.dio with mc := advertisedMc mc } } := by
  have ⟨hflags, ha, hp⟩ := mcFlags_parts haggr hprec
  rw [dioMetricBytes] at hbs
  rw [dioSwitch, if_pos rfl, dioMetricContainer, if_neg (by decide), advertisedMc]
  split_ifs at hbs with hetx henergy
  · rw [← Option.some.inj hbs] at h ⊢
    simp only [holds_append, holds_cons, length_cons, length_nil, Nat.zero_add,
      Nat.reduceAdd, Nat.add_assoc] at h
    have ⟨⟨h0, h1, h2, h3, h4, h5, _⟩, hword⟩ := h
    refine ⟨h0, h1, rfl, ?_⟩
    rw [if_pos hetx]
    simp only [val_bind, val_byte, h2, h3, h4, h5, val_ite, hetx, hflags, ha, hp,
      val_get16 hword, val_pure, hempty, hlength]
    rfl
  · rw [← Option.some.inj hbs] at h ⊢
    simp only [holds_append, holds_cons, length_cons, length_nil, Nat.zero_add,
      Nat.reduceAdd, Nat.add_assoc] at h
    have ⟨⟨h0, h1, h2, h3, h4, h5, _⟩, h6, h7, _⟩ := h
    refine ⟨h0, h1, rfl, ?_⟩
    rw [if_neg hetx, if_pos henergy]
    simp only [val_bind, val_byte, h2, h3, h4, h5, h6, h7, val_ite, henergy, hflags, ha, hp,
      val_pure, hempty, hlength]
    rfl

/-- The configuration option. -/
theorem val_dioDagConf {p : DioParse} (h : Holds mem i (dioConfBytes inst)) :
    mem i = 4 ∧ mem (i + 1) = 14 ∧ (dioSwitch 4 i 16 p).val mem = some { p with dio := { p.dio with
      dagIntdoubl := inst.dioIntdoubl
      dagIntmin := inst.dioIntmin
      dagRedund := inst.dioRedundancy
      dagMaxRankinc := inst.maxRankinc
      dagMinHoprankinc := inst.minHoprankinc
      ocp := inst.objective.ocp
      defaultLifetime := inst.defaultLifetime
      lifetimeUnit := inst.lifetimeUnit } } := by
  simp only [dioConfBytes, holds_append, holds_cons, length_append, length_cons,
    length_nil, length_set16, Nat.zero_add, Nat.reduceAdd, Nat.add_assoc] at h
  obtain ⟨⟨⟨⟨⟨⟨h0, h1, _, h3, h4, h5, _⟩, hmax⟩, hmin⟩, hocp⟩, _, h13, _⟩, hunit⟩ := h
  refine ⟨h0, h1, ?_⟩
  rw [dioSwitch, if_neg (by decide), if_neg (by decide), if_pos rfl, dioDagConf, if_neg (by decide)]
  simp only [val_bind, val_byte, val_pure, h3, h4, h5, h13, val_get16 hmax,
    val_get16 hmin, val_get16 hocp, val_get16 hunit]

/-- The prefix information option. -/
theorem val_dioPrefixInfo {p : DioParse} {pre : RplPrefix} (hpos : 0 < pre.length)
    (h : Holds mem i (dioPrefixBytes pre)) (hempty : p.dio.prefixInfo.target = zeroAddr) :
    mem i = 8 ∧ mem (i + 1) = 30 ∧ ∃ written, (dioSwitch 8 i 32 p).val mem =
      some ⟨{ p.dio with prefixInfo := pre }, written⟩ := by
  rw [dioPrefixBytes, if_pos hpos] at h
  simp only [holds_append, holds_cons, length_append, length_cons, length_nil,
    set32_eq, length_set16, Nat.zero_add, Nat.reduceAdd, Nat.add_assoc] at h
  obtain ⟨⟨⟨⟨⟨h0, h1, h2, h3, _⟩, _⟩, hlow, hhigh⟩, _⟩, htarget⟩ := h
  have hlife : (get32 (i + 8)).val mem = pre.lifetime := by
    refine val_get32 ?_
    rw [set32_eq, holds_append]
    exact ⟨hlow, hhigh⟩
  refine ⟨h0, h1, max p.written 16, ?_⟩
  rw [dioSwitch, if_neg (by decide), if_neg (by decide), if_neg (by decide), if_pos rfl,
    dioPrefixInfo, if_neg (by decide)]
  simp only [val_bind, val_byte, val_pure, h2, h3, hlife,
    holds_copy htarget pre.target.property, hempty, overwrite_val]

theorem length_dioConfBytes (inst : DioInstance) : (dioConfBytes inst).length = 16 := rfl

theorem length_dioPrefixBytes (pre : RplPrefix) :
    (dioPrefixBytes pre).length = if 0 < pre.length then 32 else 0 := by
  rw [dioPrefixBytes]
  split_ifs
  · simp [set32, pre.target.property]
  · rfl

/-- The configuration option and the prefix, up to the end. -/
theorem val_walk_conf {p : DioParse} (hbound : bound = i + 16 + (dioPrefixBytes dag.prefixInfo).length)
    (h : Holds mem i (dioConfBytes inst ++ dioPrefixBytes dag.prefixInfo))
    (hempty : p.dio.prefixInfo = ⟨zeroAddr, 0, 0, 0⟩) :
    ((walk bound (dioOption bound) (fuel + 2) i p).val mem).map (·.dio) = some { p.dio with
      dagIntdoubl := inst.dioIntdoubl
      dagIntmin := inst.dioIntmin
      dagRedund := inst.dioRedundancy
      dagMaxRankinc := inst.maxRankinc
      dagMinHoprankinc := inst.minHoprankinc
      ocp := inst.objective.ocp
      defaultLifetime := inst.defaultLifetime
      lifetimeUnit := inst.lifetimeUnit
      prefixInfo :=
        if 0 < dag.prefixInfo.length then dag.prefixInfo else ⟨zeroAddr, 0, 0, 0⟩ } := by
  rw [holds_append, length_dioConfBytes] at h
  have ⟨hconf, hpre⟩ := h
  have ⟨h4, h14, hval⟩ := @val_dioDagConf inst mem i p hconf
  rw [val_walk_option (by omega) h4 (by decide) h14 (by rw [hbound]; exact Nat.le_add_right _ _) hval]
  rw [length_dioPrefixBytes] at hbound
  by_cases hpos : 0 < dag.prefixInfo.length
  · rw [if_pos hpos] at hbound
    have ⟨h8, h30, written, hval⟩ := val_dioPrefixInfo (p := { p with dio := { p.dio with
      dagIntdoubl := inst.dioIntdoubl
      dagIntmin := inst.dioIntmin
      dagRedund := inst.dioRedundancy
      dagMaxRankinc := inst.maxRankinc
      dagMinHoprankinc := inst.minHoprankinc
      ocp := inst.objective.ocp
      defaultLifetime := inst.defaultLifetime
      lifetimeUnit := inst.lifetimeUnit } }) hpos hpre (by simp only [hempty])
    rw [if_pos hpos, show i + (2 + (14 : Byte).toNat) = i + 16 from rfl,
      val_walk_option (by omega) h8 (by decide) h30 (by rw [hbound]; exact Nat.le_refl _) hval,
      show i + 16 + (2 + (30 : Byte).toNat) = bound from hbound.symm, walk_of_le (Nat.le_refl bound)]
    rfl
  · rw [if_neg hpos] at hbound
    rw [if_neg hpos, show i + (2 + (14 : Byte).toNat) = bound from hbound.symm,
      walk_of_le (Nat.le_refl bound), val_pure, Option.map_some, ← hempty]

/-- The metric container of an advertisable instance has few bits, too, and the length of what
comes behind it. -/
theorem updateMetricContainer_fits (hadv : Advertisable inst dag) :
    (updateMetricContainer cfg inst dag).aggr.toNat < 4 ∧
      (updateMetricContainer cfg inst dag).prec.toNat < 16 ∧
      ((updateMetricContainer cfg inst dag).type = 7 ∨ (updateMetricContainer cfg inst dag).type = 2 →
        (updateMetricContainer cfg inst dag).length = 2) := by
  have hroot : (rootMetricContainer cfg inst dag).aggr.toNat < 4 ∧
      (rootMetricContainer cfg inst dag).prec.toNat < 16 := by
    rw [rootMetricContainer]
    split_ifs
    · exact ⟨(by decide : (0 : Byte).toNat < 4), (by decide : (0 : Byte).toNat < 16)⟩
    · exact ⟨hadv.aggr, hadv.prec⟩
  rw [updateMetricContainer]
  split
  · rw [mrhofMetricContainer, hadv.joined, if_neg (by decide)]
    simp only
    by_cases h7 : (rootMetricContainer cfg inst dag).type = 7
    · rw [if_pos h7]
      exact ⟨hroot.1, hroot.2, fun _ => rfl⟩
    · rw [if_neg h7]
      by_cases h2 : (rootMetricContainer cfg inst dag).type = 2
      · rw [if_pos h2]
        exact ⟨hroot.1, hroot.2, fun _ => rfl⟩
      · rw [if_neg h2]
        exact ⟨hroot.1, hroot.2, fun h => h.elim (fun h => absurd h h7) fun h => absurd h h2⟩
  · have h7 : (0 : Byte) ≠ 7 := by decide
    have h2 : (0 : Byte) ≠ 2 := by decide
    exact ⟨hadv.aggr, hadv.prec, fun h => h.elim (fun h => absurd h h7) fun h => absurd h h2⟩

theorem updateMetricContainer_refreshDtsn (cfg : DioOutputConfig) (inst : DioInstance) (dag : DioDag)
    (ucAddr : Option UipIpaddr) :
    updateMetricContainer cfg (refreshDtsn cfg inst dag ucAddr) dag =
      updateMetricContainer cfg inst dag := by
  rw [refreshDtsn]
  split_ifs <;> rfl

/-- The payload of a DIO. -/
theorem dioOutput_payload {ucAddr : Option UipIpaddr} {bs : List Byte}
    (h : (dioOutput cfg inst dag ucAddr).payload = some bs) :
    ∃ metric, bs = dioBaseBytes cfg inst dag ++
        (metric ++ (dioConfBytes inst ++ dioPrefixBytes dag.prefixInfo)) ∧
      if cfg.leafOnly || inst.mc.type = 0 then metric = []
      else dioMetricBytes (updateMetricContainer cfg inst dag) = some metric := by
  rw [dioOutput] at h
  split_ifs at h with hleaf hnone
  · simp only [Option.some.injEq] at h
    refine ⟨[], ?_, ?_⟩
    · rw [← h, nil_append, append_assoc]
    · rw [if_pos hnone]
  · simp only [updateMetricContainer_refreshDtsn] at h
    cases hmetric : dioMetricBytes (updateMetricContainer cfg inst dag) with
    | none =>
      rw [hmetric] at h
      exact absurd h (Option.some_ne_none bs).symm
    | some metric =>
      rw [hmetric] at h
      refine ⟨metric, ?_, ?_⟩
      · rw [← Option.some.inj h, append_assoc, append_assoc]
      · rw [if_neg hnone]

theorem length_dioBaseBytes (cfg : DioOutputConfig) (inst : DioInstance) (dag : DioDag) :
    (dioBaseBytes cfg inst dag).length = 24 := by
  simp [dioBaseBytes, set16, dag.dagId.property]

/-- **A DIO is read as it was written.** From the payload that a node sends, in any memory behind
it, the parser of a neighbor hands over exactly what the node advertises. -/
theorem dio_round_trip {ucAddr : Option UipIpaddr} {bs : List Byte} (hadv : Advertisable inst dag)
    (hsent : (dioOutput cfg inst dag ucAddr).payload = some bs) (hmem : Holds mem 0 bs)
    (hrounds : bs.length ≤ rounds) :
    ((dioInput rounds bs.length).val mem).map (·.dio) = some (advertised cfg inst dag) := by
  have ⟨metric, hbs, hmetric⟩ := dioOutput_payload hsent
  have hpre := length_dioPrefixBytes dag.prefixInfo
  have hlen : bs.length = 24 + (metric.length + (16 + (dioPrefixBytes dag.prefixInfo).length)) := by
    rw [hbs, List.length_append, List.length_append, List.length_append, length_dioBaseBytes,
      length_dioConfBytes]
  rw [hbs, holds_append, length_dioBaseBytes, Nat.zero_add, holds_append] at hmem
  have ⟨hbase, hhead, hrest⟩ := hmem
  have hprele : (dioPrefixBytes dag.prefixInfo).length ≤ 32 := by
    rw [hpre]
    split_ifs <;> omega
  split_ifs at hmetric with hnone
  · rw [hmetric, List.length_nil, Nat.zero_add] at hlen
    rw [hmetric, List.length_nil, Nat.add_zero] at hrest
    have ⟨fuel, hfuel⟩ : ∃ fuel, rounds = fuel + 2 := ⟨rounds - 2, by omega⟩
    rw [dioInput, Read.val_bind, val_dioBase hadv hbase, Nat.mod_eq_of_lt (by omega), hfuel,
      val_walk_conf (by omega) hrest rfl]
    rw [advertised, if_pos hnone]
    rfl
  · have ⟨haggr, hprec, hlength⟩ := @updateMetricContainer_fits cfg inst dag hadv
    have htype : (updateMetricContainer cfg inst dag).type = 7 ∨
        (updateMetricContainer cfg inst dag).type = 2 := by
      rw [dioMetricBytes] at hmetric
      split_ifs at hmetric with h7 h2
      · exact Or.inl h7
      · exact Or.inr h2
    have ⟨h2, h6, h8, hval⟩ := val_dioMetricContainer (p := ⟨dioBase.val mem, 0⟩) haggr hprec
      (hlength htype) hmetric hhead (by rw [val_dioBase hadv hbase]; rfl)
    rw [h8] at hlen hrest
    have ⟨fuel, hfuel⟩ : ∃ fuel, rounds = fuel + 2 + 1 := ⟨rounds - 3, by omega⟩
    rw [dioInput, Read.val_bind, Nat.mod_eq_of_lt (by omega), hfuel,
      val_walk_option (by omega) h2 (by decide) h6 (show 24 + 8 ≤ bs.length by omega) hval,
      show 24 + (2 + (6 : Byte).toNat) = 24 + 8 from rfl,
      val_walk_conf (by omega) hrest (by rw [val_dioBase hadv hbase]; rfl), val_dioBase hadv hbase]
    rw [advertised, if_neg hnone]
    rfl

/-- An instance with a metric container of type `RPL_DAG_MC_ETX`. -/
def etxInstance : DioInstance where
  instanceId := 30
  mop := 2
  dtsnOut := 240
  mc := ⟨7, 1, 0, 0, 2, 512, 0, 0⟩
  dioIntdoubl := 8
  dioIntmin := 12
  dioRedundancy := 10
  maxRankinc := 896
  minHoprankinc := 128
  objective := .mrhof
  defaultLifetime := 30
  lifetimeUnit := 60

/-- The grounded DAG of a node two hops from the root. -/
def groundedDag : DioDag where
  joined := true
  version := 240
  rank := 512
  grounded := 1
  preference := 0
  dagId := zeroAddr
  preferredParent := some ⟨1, 512⟩
  prefixInfo := ⟨zeroAddr, 0, 64, 64⟩

theorem advertisable_groundedDag : Advertisable etxInstance groundedDag :=
  ⟨rfl, by decide, by decide, by decide, by decide⟩

/-- The payload that is sent. -/
def groundedBytes : List Byte :=
  ((dioOutput ⟨false, true, true, 7⟩ etxInstance groundedDag none).payload).getD []

theorem dio_round_trip_grounded :
    ((dioInput 80 groundedBytes.length).val (payload groundedBytes)).map (·.dio) =
      some (advertised ⟨false, true, true, 7⟩ etxInstance groundedDag) := by
  have hmem : Holds (payload groundedBytes) 0 groundedBytes := fun i hi => by
    rw [payload, Nat.zero_add, List.getD_eq_getElem?_getD, List.getElem?_eq_getElem hi]
    rfl
  exact dio_round_trip advertisable_groundedDag rfl hmem (by decide)

/-- **The value of `grounded` is not kept,** only that it is not zero. -/
theorem grounded_value_changes :
    Advertisable etxInstance groundedDag ∧
      ¬((dioInput 80 groundedBytes.length).val (payload groundedBytes)).map (·.dio.grounded) =
        some groundedDag.grounded :=
  ⟨advertisable_groundedDag, by decide +kernel⟩

end Asap.Rpl
