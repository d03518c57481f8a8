import Asap.Lib.Run
import Asap.Tsch.Asn

/-!
# The slot operation between two wake-ups

`tsch_slot_operation` runs from one timer interrupt to the next: it applies a
pending change of the timeslot length, executes or skips the slot, counts the
timeslots the slot has taken, and then schedules the next wake-up, repeating the
last part as long as the deadline it has just computed is already missed. The
static variables of the source that this reads or writes are the fields of
`SlotOperation`; the log and the statistics are not there.

The schedule is a parameter. `Scheduler` lists what the slot operation asks of it,
and nothing in this file depends on the answers.

The environment decides the rest, and its decisions are the events: when a slot
ended, what drift it measured, whether it was an aggregated exchange, what the
clock showed at each attempt to schedule a wake-up, what an EB advertised. One
event `slot` goes from one wake-up to the next one; the process context runs between
these events, and within a slot wherever the slot operation yields.

## Main definitions

* `Scheduler` — the interface to the schedule.
* `SlotOperation`, `SlotConfig` — the state and the build-time configuration.
* `ProcessEvent`, `SlotEvent` — what the environment decides.
* `slotOperation` — one pass through the body of `tsch_slot_operation`.
* `step` — the effect of an event.
-/

namespace Asap.Tsch

/-- What the slot operation uses of the schedule. The current and the backup link
belong to the state `σ` of the schedule; `ε` are its process-context events. -/
structure Scheduler (σ ε : Type*) where
  /-- `current_link != NULL` -/
  hasCurrentLink : σ → Bool
  /-- `tsch_queue_update_all_backoff_windows`, if the current link is Tx and shared -/
  updateAllBackoffWindows : σ → σ
  /-- `tsch_schedule_get_next_active_link`, with the timeslot difference it stores -/
  getNextActiveLink : TschAsn → σ → σ × BitVec 16
  /-- the copy of the ASN into `alice_current_asn` -/
  copyCurrentAsn : TschAsn → σ → σ
  /-- what `tsch_slot_operation_sync` resets -/
  sync : TschAsn → σ → σ
  process : ε → σ → σ

/-- Build-time constants and conversions. -/
structure SlotConfig (w : ℕ) where
  /-- `US_TO_RTIMERTICKS` -/
  usToRtimerticks : BitVec 16 → BitVec w
  /-- `RTIMER_GUARD` -/
  rtimerGuard : BitVec w
  /-- `SLA_GUARD_TIME_TIMESLOTS` -/
  slaGuardTimeTimeslots : BitVec 32
  /-- `ORCHESTRA_CONF_EBSF_PERIOD` -/
  ebsfPeriod : BitVec 16
  /-- the size of the common slotframe -/
  commonSize : TschAsnDivisor
  /-- `100 * TSCH_CLOCK_TO_SLOTS(TSCH_DESYNC_THRESHOLD / 100, length)` -/
  desyncThreshold : BitVec w → BitVec 32
  /-- `tsch_is_coordinator` -/
  isCoordinator : Bool

/-- The static variables of the slot operation, and the schedule. -/
structure SlotOperation (w : ℕ) (σ : Type*) where
  tschIsAssociated : Bool
  tschCurrentAsn : TschAsn
  lastSyncAsn : TschAsn
  currentSlotStart : BitVec w
  /-- `tsch_timing_us[tsch_ts_timeslot_length]` -/
  timeslotLengthUs : BitVec 16
  /-- `tsch_timing[tsch_ts_timeslot_length]`, in ticks -/
  timeslotLength : BitVec w
  driftCorrection : ℤ
  asapCurrPassedTimeslots : BitVec 16
  asapCurrPassedTimeslotsExceptFirstSlot : BitVec 16
  upaLinkFinished : Bool
  upaScheduleAfterUpaLink : Bool
  tschLockRequested : Bool
  slaTriggeringAsn : TschAsn
  slaNextTimeslotLength : BitVec 16
  slaInGuardTime : Bool
  /-- `sla_curr_ref_hop_distance`, of the coordinator -/
  slaCurrRefHopDistance : BitVec 16
  sched : σ
deriving DecidableEq

/-- What the process context can do to the state between two interrupts. -/
inductive ProcessEvent (ε : Type*) where
  /-- an EB of the time source, with the SLA fields it carries -/
  | ebInput (slaTriggeringAsn : TschAsn) (slaCurr slaNext : BitVec 16)
  /-- the coordinator determines a new timeslot length and a triggering ASN, from
  `tsch_calculate_current_asn` and the hop distances of the TTL and the DAOs -/
  | slaDetermine (currentAsn : TschAsn) (hopsTtl hopsDao slaNext : BitVec 16)
  /-- `tsch_get_lock` asks for the lock, or `tsch_release_lock` gives it back -/
  | lock (requested : Bool)
  /-- a change of the schedule or of the queues -/
  | schedule (e : ε)

/-- How a slot went: the clock when it was over, the drift it measured, whether it
was an aggregated exchange (`upa_link_scheduled`), whether it resynchronized, and
what the process context did while it was waiting. -/
structure SlotOutcome (w : ℕ) (ε : Type*) where
  slotEnd : BitVec w
  driftCorrection : ℤ
  upaLinkScheduled : Bool
  resynchronized : Bool
  during : List (ProcessEvent ε)

/-- What the environment contributes to one pass of the re-scheduling loop: the
adaptive compensation, the clock in `tsch_schedule_slot_operation`, and whether
`rtimer_set` returned `RTIMER_OK`. -/
structure Pass (w : ℕ) where
  adaptiveCompensation : ℤ
  now : BitVec w
  rtimerOk : Bool

variable {w : ℕ} {σ ε : Type*}

/-! ## The timer -/

/-- `check_timer_miss`: has `now` passed `refTime + offset`, at most one of the two
sums having wrapped. -/
def checkTimerMiss (refTime offset now : BitVec w) : Bool :=
  let target := refTime + offset
  let nowHasOverflowed := decide (now < refTime)
  let targetHasOverflowed := decide (target < refTime)
  if nowHasOverflowed = targetHasOverflowed then decide (target ≤ now) else nowHasOverflowed

/-- `tsch_schedule_slot_operation`: true when the timer was set. When it was not, the
source waits until the deadline before it returns. -/
def tschScheduleSlotOperation (cfg : SlotConfig w) (p : Pass w) (refTime offset : BitVec w) :
    Bool :=
  !checkTimerMiss refTime (offset - cfg.rtimerGuard) p.now && p.rtimerOk

/-- The timeslots a slot that ended at `slotEnd` has taken, the first included. The
difference of two clock values is signed; a clock narrower than `int` is promoted,
a wider one makes the division unsigned. -/
def asapPassedTimeslots (length slotStart slotEnd : BitVec w) : BitVec 16 :=
  if (slotEnd - slotStart).toInt = 0 then 1
  else if w < 32 then
    BitVec.ofInt 16 (((slotEnd - slotStart).toInt + length.toNat - 1).tdiv length.toNat)
  else ((slotEnd - slotStart + length - 1) / length).setWidth 16

/-! ## The triggering ASN -/

/-- `MAX` on 16-bit operands. -/
def max16 (a b : BitVec 16) : BitVec 16 := if b < a then a else b

/-- The reference hop distance after a determination: it follows the largest distance
seen upwards at once, and downwards one hop at a time. -/
def slaNextRefHopDistance (ref hopsTtl hopsDao : BitVec 16) : BitVec 16 :=
  let seen := max16 hopsTtl hopsDao
  let maxHops := if seen ≠ 0 then seen else 1
  if ref ≤ maxHops then maxHops else max16 (ref - 1) maxHops

/-- `sla_calculate_triggering_asn`: the time an EB takes over `ref + 1` hops, then up to
the next start of the common slotframe. The duration has 16 bits. -/
def slaCalculateTriggeringAsn (cfg : SlotConfig w) (currentAsn : TschAsn) (ref : BitVec 16) :
    TschAsn :=
  let asn := currentAsn.inc (((ref + 1) * cfg.ebsfPeriod).setWidth 32)
  asn.inc (BitVec.ofNat 32 (cfg.commonSize.val.toNat - asn.mod cfg.commonSize))

namespace SlotOperation

/-! ## The process context -/

/-- The SLA part of `eb_input`: a node whose timeslot length is not the advertised
current one leaves the network, any other takes over what is advertised. -/
def ebInput (trig : TschAsn) (curr next : BitVec 16) (s : SlotOperation w σ) :
    SlotOperation w σ :=
  if s.timeslotLengthUs ≠ curr then { s with tschIsAssociated := false }
  else { s with slaTriggeringAsn := trig, slaNextTimeslotLength := next }

/-- `sla_determine_next_timeslot_length_and_trig_asn` -/
def slaDetermine (cfg : SlotConfig w) (currentAsn : TschAsn) (hopsTtl hopsDao next : BitVec 16)
    (s : SlotOperation w σ) : SlotOperation w σ :=
  let ref := slaNextRefHopDistance s.slaCurrRefHopDistance hopsTtl hopsDao
  { s with
    slaCurrRefHopDistance := ref
    slaTriggeringAsn := slaCalculateTriggeringAsn cfg currentAsn ref
    slaNextTimeslotLength := next }

/-- The effect of a process-context event. -/
def process (cfg : SlotConfig w) (sched : Scheduler σ ε) (s : SlotOperation w σ) :
    ProcessEvent ε → SlotOperation w σ
  | .ebInput trig curr next => s.ebInput trig curr next
  | .slaDetermine asn hopsTtl hopsDao next => s.slaDetermine cfg asn hopsTtl hopsDao next
  | .lock requested => { s with tschLockRequested := requested }
  | .schedule e => { s with sched := sched.process e s.sched }

/-! ## Before the slot -/

/-- `sla_apply_next_timeslot_length` -/
def slaApplyNextTimeslotLength (cfg : SlotConfig w) (s : SlotOperation w σ) :
    SlotOperation w σ :=
  { s with
    timeslotLengthUs := s.slaNextTimeslotLength
    timeslotLength := cfg.usToRtimerticks s.slaNextTimeslotLength }

/-- The head of the loop: switch to the next timeslot length when the ASN equals the
triggering one, and keep the guard time shortly before it. -/
def slaTrigger (cfg : SlotConfig w) (s : SlotOperation w σ) : SlotOperation w σ :=
  if s.tschCurrentAsn.ls4b = s.slaTriggeringAsn.ls4b ∧
      s.tschCurrentAsn.ms1b = s.slaTriggeringAsn.ms1b then
    { (if s.timeslotLengthUs ≠ s.slaNextTimeslotLength then s.slaApplyNextTimeslotLength cfg
       else s) with slaInGuardTime := false }
  else if 0 < (s.slaTriggeringAsn.diff s.tschCurrentAsn).toInt then
    { s with
      slaInGuardTime :=
        decide (s.slaTriggeringAsn.diff s.tschCurrentAsn ≤ cfg.slaGuardTimeTimeslots) &&
          decide (s.timeslotLengthUs ≠ s.slaNextTimeslotLength) }
  else { s with slaInGuardTime := false }

/-- The bookkeeping after an aggregated exchange; it is the same whether the wake-up
after it succeeded (head of the slot operation) or failed (re-scheduling loop). -/
def clearAfterUpaLink (s : SlotOperation w σ) : SlotOperation w σ :=
  if s.upaScheduleAfterUpaLink then
    { s with
      upaScheduleAfterUpaLink := false
      asapCurrPassedTimeslots := 0
      asapCurrPassedTimeslotsExceptFirstSlot := 0 }
  else s

/-! ## The slot -/

/-- The slot is skipped: no link, the lock is requested, or guard time. -/
def skips (sched : Scheduler σ ε) (s : SlotOperation w σ) : Bool :=
  !sched.hasCurrentLink s.sched || s.tschLockRequested || s.slaInGuardTime

/-- Run or skip the slot. -/
def executeSlot (cfg : SlotConfig w) (sched : Scheduler σ ε) (o : SlotOutcome w ε)
    (s : SlotOperation w σ) : SlotOperation w σ :=
  if s.skips sched then s
  else
    { o.during.foldl (process cfg sched) s with
      driftCorrection := o.driftCorrection
      upaLinkFinished := s.upaLinkFinished || o.upaLinkScheduled
      lastSyncAsn := if o.resynchronized then s.tschCurrentAsn else s.lastSyncAsn }

/-- Count the timeslots the slot has taken and advance the ASN past all but the
first one. A skipped slot is counted too. -/
def asapCountPassedTimeslots (o : SlotOutcome w ε) (s : SlotOperation w σ) : SlotOperation w σ :=
  let passed := asapPassedTimeslots s.timeslotLength s.currentSlotStart o.slotEnd
  { s with
    asapCurrPassedTimeslots := passed
    asapCurrPassedTimeslotsExceptFirstSlot := passed - 1
    tschCurrentAsn := s.tschCurrentAsn.inc ((passed - 1).setWidth 32) }

/-- From the wake-up to the re-scheduling loop. -/
def endOfSlot (cfg : SlotConfig w) (sched : Scheduler σ ε) (o : SlotOutcome w ε)
    (s : SlotOperation w σ) : SlotOperation w σ :=
  let s := ((s.slaTrigger cfg).clearAfterUpaLink.executeSlot cfg sched o).asapCountPassedTimeslots o
  { s with lastSyncAsn := if cfg.isCoordinator then s.tschCurrentAsn else s.lastSyncAsn }

/-- Too long without synchronization: the node leaves the network. -/
def desynchronized (cfg : SlotConfig w) (s : SlotOperation w σ) : Bool :=
  !cfg.isCoordinator &&
    decide (cfg.desyncThreshold s.timeslotLength < s.tschCurrentAsn.diff s.lastSyncAsn)

/-! ## The re-scheduling loop -/

/-- `tsch_schedule_get_next_active_link`; without a link the next slot is the one to
wake up at. -/
def nextTimeslotDiff (sched : Scheduler σ ε) (asn : TschAsn) (sc : σ) : σ × BitVec 16 :=
  let r := sched.getNextActiveLink asn sc
  (r.1, if sched.hasCurrentLink r.1 then r.2 else 1)

/-- The timeslot difference the clock is advanced by, in 16 bits: the slots taken
beyond the first are added when there are any. -/
def clockTimeslotDiff (exceptFirst timeslotDiff : BitVec 16) : BitVec 16 :=
  if exceptFirst > 0 then timeslotDiff + exceptFirst else timeslotDiff

/-- The schedule, the slots to the next wake-up and its ASN, as one pass finds them. -/
def lookup (sched : Scheduler σ ε) (s : SlotOperation w σ) : σ × BitVec 16 :=
  nextTimeslotDiff sched s.tschCurrentAsn (sched.updateAllBackoffWindows s.sched)

/-- `time_to_next_active_slot` of a pass, after the bookkeeping of an aggregated
exchange. Right after such an exchange there is no adaptive compensation. -/
def timeToNextActiveSlot (sched : Scheduler σ ε) (p : Pass w) (s : SlotOperation w σ) :
    BitVec w :=
  let diff := clockTimeslotDiff s.asapCurrPassedTimeslotsExceptFirstSlot (s.lookup sched).2
  BitVec.ofNat w diff.toNat * s.timeslotLength + BitVec.ofInt w s.driftCorrection +
    BitVec.ofInt w (if s.upaLinkFinished then 0 else p.adaptiveCompensation)

/-- One pass of the loop, up to the attempt to set the timer. -/
def reschedulePass (sched : Scheduler σ ε) (p : Pass w) (s : SlotOperation w σ) :
    SlotOperation w σ :=
  let s := s.clearAfterUpaLink
  let (sc, timeslotDiff) := s.lookup sched
  let asn := s.tschCurrentAsn.inc (timeslotDiff.setWidth 32)
  { s with
    tschCurrentAsn := asn
    sched := sched.copyCurrentAsn asn sc
    currentSlotStart := s.currentSlotStart + s.timeToNextActiveSlot sched p
    driftCorrection := 0
    upaLinkFinished := false
    upaScheduleAfterUpaLink := s.upaLinkFinished || s.upaScheduleAfterUpaLink }

/-- The loop: repeat until a wake-up could be scheduled. The passes are those the
loop makes, so only the last one may set the timer. -/
def reschedule (cfg : SlotConfig w) (sched : Scheduler σ ε) :
    SlotOperation w σ → List (Pass w) → Option (SlotOperation w σ)
  | _, [] => none
  | s, p :: ps =>
    let s' := s.reschedulePass sched p
    let offset := s.clearAfterUpaLink.timeToNextActiveSlot sched p
    if tschScheduleSlotOperation cfg p s.currentSlotStart offset then
      if ps.isEmpty then some s' else none
    else reschedule cfg sched s' ps

/-- `tsch_slot_operation` from one wake-up to the next; `none` when there is none
because the node has left the network. -/
def slotOperation (cfg : SlotConfig w) (sched : Scheduler σ ε) (s : SlotOperation w σ)
    (o : SlotOutcome w ε) (ps : List (Pass w)) : Option (SlotOperation w σ) :=
  if s.tschIsAssociated then
    let t := s.endOfSlot cfg sched o
    if t.desynchronized cfg then none else t.reschedule cfg sched ps
  else none

/-! ## Association -/

/-- What association takes from the EB or, at a coordinator, from the defaults. -/
structure Association (w : ℕ) where
  slotStart : BitVec w
  asn : TschAsn
  timeslotLengthUs : BitVec 16
  slaTriggeringAsn : TschAsn
  slaNextTimeslotLength : BitVec 16

/-- `tsch_associate`, which ends in `tsch_slot_operation_sync`. -/
def associate (cfg : SlotConfig w) (sched : Scheduler σ ε) (a : Association w)
    (s : SlotOperation w σ) : SlotOperation w σ :=
  { s with
    tschIsAssociated := true
    tschCurrentAsn := a.asn
    lastSyncAsn := a.asn
    currentSlotStart := a.slotStart
    timeslotLengthUs := a.timeslotLengthUs
    timeslotLength := cfg.usToRtimerticks a.timeslotLengthUs
    slaTriggeringAsn := a.slaTriggeringAsn
    slaNextTimeslotLength := a.slaNextTimeslotLength
    sched := sched.sync a.asn s.sched }

/-- One pass of the loop of `tsch_slot_operation_start`. -/
def startPass (sched : Scheduler σ ε) (p : Pass w) (s : SlotOperation w σ) :
    SlotOperation w σ :=
  let (sc, timeslotDiff) := nextTimeslotDiff sched s.tschCurrentAsn s.sched
  let asn := s.tschCurrentAsn.inc (timeslotDiff.setWidth 32)
  { s with
    tschCurrentAsn := asn
    sched := sched.copyCurrentAsn asn sc
    currentSlotStart := s.currentSlotStart +
      (BitVec.ofNat w timeslotDiff.toNat * s.timeslotLength +
        BitVec.ofInt w p.adaptiveCompensation) }

/-- `tsch_slot_operation_start` -/
def slotOperationStart (cfg : SlotConfig w) (sched : Scheduler σ ε) :
    SlotOperation w σ → List (Pass w) → Option (SlotOperation w σ)
  | _, [] => none
  | s, p :: ps =>
    let s' := s.startPass sched p
    if tschScheduleSlotOperation cfg p s.currentSlotStart
        (s'.currentSlotStart - s.currentSlotStart) then
      if ps.isEmpty then some s' else none
    else slotOperationStart cfg sched s' ps

end SlotOperation

/-! ## Events -/

/-- What can happen to a node, from one wake-up of the slot operation to the next. -/
inductive SlotEvent (w : ℕ) (ε : Type*) where
  /-- a whole interval between two wake-ups -/
  | slot (o : SlotOutcome w ε) (passes : List (Pass w))
  /-- `tsch_associate` and `tsch_slot_operation_start` -/
  | associate (a : SlotOperation.Association w) (passes : List (Pass w))
  /-- the process context, while no slot is running -/
  | process (e : ProcessEvent ε)

/-- The effect of an event; `none` when it cannot happen. -/
def step (cfg : SlotConfig w) (sched : Scheduler σ ε) (s : SlotOperation w σ) :
    SlotEvent w ε → Option (SlotOperation w σ)
  | .slot o ps => s.slotOperation cfg sched o ps
  | .associate a ps => (s.associate cfg sched a).slotOperationStart cfg sched ps
  | .process e => some (s.process cfg sched e)

/-! ## A platform and a schedule -/

/-- The build for the simulated mote: a 64-bit clock of one tick a microsecond, no
guard time of the timer, and the SLA constants of a build with UPA. -/
def coojaConfig (isCoordinator : Bool) : SlotConfig 64 where
  usToRtimerticks us := us.setWidth 64
  rtimerGuard := 0
  slaGuardTimeTimeslots := 6
  ebsfPeriod := 397
  commonSize := .init 19
  desyncThreshold length := (100 * (1200000 / length)).setWidth 32
  isCoordinator := isCoordinator

/-- The minimal schedule: one slotframe of one slot, whose link is always the next. -/
def minimalSchedule : Scheduler Unit Unit where
  hasCurrentLink _ := true
  updateAllBackoffWindows := id
  getNextActiveLink _ s := (s, 1)
  copyCurrentAsn _ := id
  sync _ := id
  process _ := id

/-- A node of the minimal schedule that wakes up at `slotStart` and ASN `asn`, with
the default timeslot length of ten milliseconds and no change of it advertised. -/
def minimalNode (asn : ℕ) (slotStart : BitVec 64) : SlotOperation 64 Unit where
  tschIsAssociated := true
  tschCurrentAsn := .ofNat asn
  lastSyncAsn := .ofNat asn
  currentSlotStart := slotStart
  timeslotLengthUs := 10000
  timeslotLength := 10000
  driftCorrection := 0
  asapCurrPassedTimeslots := 0
  asapCurrPassedTimeslotsExceptFirstSlot := 0
  upaLinkFinished := false
  upaScheduleAfterUpaLink := false
  tschLockRequested := false
  slaTriggeringAsn := .ofNat 0
  slaNextTimeslotLength := 10000
  slaInGuardTime := false
  slaCurrRefHopDistance := 10
  sched := ()

end Asap.Tsch
