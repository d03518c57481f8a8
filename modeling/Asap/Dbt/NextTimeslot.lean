import Asap.Alice.TimeVarying
import Asap.Tsch.BestLink

/-!
# The timeslot after a burst

With default burst transmission a slot operation goes on in the next timeslot, unless a link is
scheduled there. A function of its own looks for such a link. ALICE keeps a second slotframe for it,
with the unicast links for the number after the one last scheduled, and the function works out from
three slotframe numbers which of the two slotframes come when. The scan for the next active link
skips the second slotframe.

## Main definitions

* `DbtConfig`, `DbtState` — the builds, and what both functions read.
* `DbtState.tschScheduleGetNextActiveLink` — the scan for the next active link in these builds.
* `DbtState.tschScheduleGetNextTimeslotAvailableOrNot` — the other function.
-/

namespace Asap.Dbt

open Asap.Tsch Asap.Tsch.TschSchedule Asap.Alice

/-- A build with ALICE. Three periods fit 16 bits. -/
structure AliceBuild extends TimeVaryingConfig where
  /-- `ALICE_AFTER_LASTLY_SCHEDULED_ASFN_SF_HANDLE` -/
  afterHandle : BitVec 16
  afterHandle_ne : afterHandle ≠ unicastHandle
  period_le : 3 * alice.unicastPeriod.toNat ≤ 2 ^ 16

/-- What schedules the cells: Orchestra alone, ALICE, or OST with or without
`OST_ON_DEMAND_PROVISION`. -/
inductive CellScheduler where
  | orchestra
  | alice (a : AliceBuild)
  | ost (onDemandProvision : Bool)

/-- A build with default burst transmission. -/
structure DbtConfig where
  cells : CellScheduler
  hckApplyLatestContiki : Bool

/-- What the scan depends on. -/
def DbtConfig.scan (cfg : DbtConfig) : ScanConfig :=
  ⟨match cfg.cells with
    | .ost _ => true
    | _ => false, cfg.hckApplyLatestContiki⟩

/-- An entry of `ost_ssq_schedule_list`; the ASN of a free one is zero. -/
structure SsqSchedule where
  asn : TschAsn
  link : TschLink
deriving DecidableEq

/-- What both functions read. -/
structure DbtState extends AliceSchedule where
  aliceNextAsfnOfLastlyScheduledAsfn : BitVec 64
  ostSsqScheduleList : List SsqSchedule

/-- The link returned, of the schedule or of a matched slot, `*time_offset` if it is written, and
`*backup_link`. -/
structure NextSchedule where
  link : Option (LinkId ⊕ TschLink)
  timeOffset : Option (BitVec 16)
  backupLink : Option LinkId

namespace DbtState

/-! ## The next active link -/

/-- The links that `alice_schedule_unicast_slotframe` adds, with the slotframe of each. -/
def unicastLinks (a : AliceBuild) (st : DbtState) : List (BitVec 16 × UnicastLink) :=
  let both (links : BitVec 64 → List UnicastLink) : List (BitVec 16 × UnicastLink) :=
    (links st.aliceLastlyScheduledAsfn).map (a.unicastHandle, ·) ++
      (links st.aliceNextAsfnOfLastlyScheduledAsfn).map (a.afterHandle, ·)
  (if st.node.aliceIsRoot then [] else both fun asfn => st.node.parentLinks a.alice asfn) ++
    st.node.nbrRoutes.flatMap fun addr => both fun asfn => st.node.childLinks a.alice asfn addr

/-- `alice_schedule_unicast_slotframe`, for both slotframes. -/
def scheduleUnicastSlotframes (a : AliceBuild) (st : DbtState) : DbtState :=
  let removed := removeUnicastLinks a.schedule a.afterHandle
    (removeUnicastLinks a.schedule a.unicastHandle st.sched)
  { st with
    sched := (st.unicastLinks a).foldl (fun s u => addUnicastLink a.schedule u.1 a.room s u.2) removed
    currentLink := st.currentLink.filter fun l =>
      l ∉ st.sched.linksOf a.unicastHandle ∧ l ∉ st.sched.linksOf a.afterHandle }

/-- The part of the scan before the links of the unicast slotframe. -/
def timeVaryingScheduling (a : AliceBuild) (asn : TschAsn) (sf : TschSlotframe) (st : DbtState) :
    DbtState :=
  if st.presentIsOver asn sf && st.aliceNextAsfn sf.size != st.aliceLastlyScheduledAsfn then
    let size := sf.size.setWidth 32
    scheduleUnicastSlotframes a
      { st with
        aliceLastlyScheduledAsfn := st.aliceNextAsfn sf.size
        aliceNextAsfnOfLastlyScheduledAsfn :=
          aliceAsfn ((st.aliceCurrentAsn.inc size).inc size) sf.size }
  else st

/-- The links of a slotframe are visited. -/
def visitLinks (cfg : DbtConfig) (st : DbtState) (time : LinkId → BitVec 16) (ls : List LinkId)
    (sel : Selection) : Selection :=
  ls.foldl (fun sel l => st.sched.visitLink cfg.scan sel (l, time l)) sel

/-- One turn of the loop over the slotframes. -/
def visitSlotframe (cfg : DbtConfig) (asn : TschAsn) (r : DbtState × Selection)
    (handle : BitVec 16) : DbtState × Selection :=
  match r.1.sched.slotframe handle with
  | none => r
  | some sf =>
    match cfg.cells with
    | .alice a =>
      if handle = a.afterHandle then r
      else
        let st := if handle = a.unicastHandle then r.1.timeVaryingScheduling a asn sf else r.1
        -- the list is read after the links have been scheduled anew
        (st, st.visitLinks cfg (st.timeToLink a.toTimeVaryingConfig asn handle sf.size)
          (st.sched.linksOf handle) r.2)
    | _ =>
      (r.1, r.1.visitLinks cfg (fun l => timeToTimeslot asn sf.size (r.1.sched.links l).timeslot)
        sf.linksList r.2)

/-- The loop of `ost_earlier_ssq_schedule_list`: the place of the first entry that is not later than
the ASN, or the earliest entry with its place. -/
def earliestSsq (asn : TschAsn) :
    List SsqSchedule → ℕ → Option (ℕ × SsqSchedule) → Except ℕ (Option (ℕ × SsqSchedule))
  | [], _, earliest => .ok earliest
  | x :: xs, i, earliest =>
    if x.asn.ls4b = 0 ∧ x.asn.ms1b = 0 then earliestSsq asn xs (i + 1) earliest
    else
      let earliest := if earliest.all (x.asn.val < ·.2.asn.val) then some (i, x) else earliest
      if x.asn.val ≤ asn.val then .error i else earliestSsq asn xs (i + 1) earliest

/-- An entry of `ost_ssq_schedule_list` is freed. -/
def freeSsq (i : ℕ) (list : List SsqSchedule) : List SsqSchedule :=
  list.modify i fun x => { x with asn := ⟨0, 0⟩ }

/-- `ost_earlier_ssq_schedule_list`, at the current ASN: the list, and the time and the link if one
comes earlier. -/
def ostEarlierSsqScheduleList (asn : TschAsn) (timeToOrigSchedule : BitVec 16)
    (list : List SsqSchedule) : List SsqSchedule × Option (BitVec 16 × TschLink) :=
  match earliestSsq asn list 0 none with
  | .error i => (freeSsq i list, none)
  | .ok none => (list, none)
  | .ok (some (i, x)) =>
    let timeToEarliest := x.asn.val - asn.val
    if timeToEarliest < timeToOrigSchedule.toNat then
      (list, some (BitVec.ofNat 16 timeToEarliest, x.link))
    else if timeToEarliest = timeToOrigSchedule.toNat then (freeSsq i list, none)
    else (list, none)

/-- `tsch_schedule_get_next_active_link` -/
def tschScheduleGetNextActiveLink (cfg : DbtConfig) (asn : TschAsn) (st : DbtState) :
    DbtState × NextSchedule :=
  if st.sched.tschLocked then (st, ⟨none, none, none⟩)
  else
    let (st, sel) :=
      (st.sched.slotframeList.map (·.handle)).foldl (visitSlotframe cfg asn) (st, .nothing)
    let next : NextSchedule := ⟨sel.currBest.map .inl, some sel.timeToCurrBest, sel.currBackup⟩
    match cfg.cells with
    | .ost true =>
      let (list, earlier) := ostEarlierSsqScheduleList asn sel.timeToCurrBest st.ostSsqScheduleList
      let st := { st with ostSsqScheduleList := list }
      match earlier with
      | some (time, link) => (st, ⟨some (.inr link), some time, none⟩)
      | none => (st, next)
    | _ => (st, next)

/-! ## The availability of the next timeslot -/

variable (asn : TschAsn) (st : DbtState)

/-- `dbt_current_asfn` -/
def dbtCurrentAsfn (a : AliceBuild) : BitVec 64 :=
  match st.sched.slotframe a.unicastHandle with
  | none => 0
  | some sf => aliceAsfn asn sf.size

/-- The times to links of a slotframe that is the present one: those that are left. -/
def timesPresent (sf : TschSlotframe) : List (BitVec 16) :=
  let timeslot := BitVec.ofNat 16 (asn.mod (.init sf.size))
  (sf.linksList.filter fun l => timeslot < (st.sched.links l).timeslot).map fun l =>
    (st.sched.links l).timeslot - timeslot

/-- The times to links of a slotframe that comes `k` slotframes later. -/
def timesLater (k : BitVec 16) (sf : TschSlotframe) : List (BitVec 16) :=
  let timeslot := BitVec.ofNat 16 (asn.mod (.init sf.size))
  sf.linksList.map fun l => k * sf.size + (st.sched.links l).timeslot - timeslot

/-- The times to the links of a slotframe. -/
def timesToLinks (sf : TschSlotframe) : List (BitVec 16) :=
  sf.linksList.map fun l => timeToTimeslot asn sf.size (st.sched.links l).timeslot

/-- The values of `time_to_timeslot` in the loop over the links of a slotframe. -/
def timesIn (cfg : DbtConfig) (sf : TschSlotframe) : List (BitVec 16) :=
  match cfg.cells with
  | .alice a =>
    let dbtCurrentAsfn := st.dbtCurrentAsfn asn a
    if dbtCurrentAsfn ≠ st.aliceLastlyScheduledAsfn ∧
        dbtCurrentAsfn ≠ st.aliceNextAsfnOfLastlyScheduledAsfn then
      if sf.handle ≠ a.unicastHandle ∧ sf.handle ≠ a.afterHandle then st.timesToLinks asn sf
      else if sf.handle = a.unicastHandle then st.timesLater asn 1 sf
      else st.timesLater asn 2 sf
    else if dbtCurrentAsfn = st.aliceLastlyScheduledAsfn then
      if sf.handle ≠ a.unicastHandle ∧ sf.handle ≠ a.afterHandle then st.timesToLinks asn sf
      else if sf.handle = a.unicastHandle then st.timesPresent asn sf
      else st.timesLater asn 1 sf
    else
      if sf.handle ≠ a.unicastHandle ∧ sf.handle ≠ a.afterHandle then st.timesToLinks asn sf
      else if sf.handle = a.unicastHandle then []
      else st.timesPresent asn sf
  | _ => st.timesToLinks asn sf

/-- The loops over the times: `minimum_time_to_timeslot`, and whether they come to their end. -/
def scanTimes (minimumTime : BitVec 16) : List (BitVec 16) → BitVec 16 × Bool
  | [] => (minimumTime, true)
  | time :: times =>
    let minimumTime := if minimumTime = 0 ∨ time < minimumTime then time else minimumTime
    if time = 1 then (minimumTime, false) else scanTimes minimumTime times

/-- `tsch_schedule_get_next_timeslot_available_or_not`: the result, and `*time_to_earliest`. -/
def tschScheduleGetNextTimeslotAvailableOrNot (cfg : DbtConfig) : BitVec 8 × BitVec 16 :=
  if st.sched.tschLocked then (0, 0)
  else
    let (minimumTime, ended) := scanTimes 0 (st.sched.slotframeList.flatMap (st.timesIn asn cfg))
    (if ended then 1 else 0, minimumTime)

end DbtState

end Asap.Dbt
