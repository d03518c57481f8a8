import Asap.Framer.Frame802154
import Asap.Framer.IeSafety
import Asap.Lib.Run

/-!
# Enhanced beacons

A node that scans takes the timing, the hopping sequence and the schedule of a network from
the first beacon that it accepts. Later beacons of its time source can change the hopping
sequence, and announce the next timeslot length, which becomes the timeslot length at the
triggering ASN.

## Main definitions

* `tschPacketParseEb` — the header and the information elements of a beacon.
* `TschNode` — what a node keeps of its network.
* `tschAssociate`, `ebInput` — a beacon is received while scanning, and later.
* `step` — what can happen to a node.
-/

namespace Asap.Tsch

open Asap.Lib Asap.Framer

/-- `tsch_ts_timeslot_length` -/
def tschTsTimeslotLength : ℕ := 11

/-- The build: switches, defaults and the conversion to ticks of the clock. The default hopping
sequence is not empty, and the default timeslot length is one tick or more. -/
structure EbConfig (w : ℕ) where
  framer : FramerConfig
  ie : IeConfig
  llsec802154Enabled : Bool
  tschJoinSecuredOnly : Bool
  tschJoinMyPanidOnly : Bool
  ieee802154Panid : BitVec 16
  tschInitScheduleFromEb : Bool
  tschScheduleWith6tischMinimal : Bool
  tschScheduleDefaultLength : BitVec 16
  tschScheduleMaxSlotframes : ℕ
  tschMaxJoinPriority : Byte
  usToRtimerticks : BitVec 16 → BitVec w
  tschDefaultTimingUs : ℕ → BitVec 16
  tschDefaultHoppingSequence : List Byte
  hoppingSequence_ne : BitVec.ofNat 16 tschDefaultHoppingSequence.length ≠ 0
  timeslotLength_ne : usToRtimerticks (tschDefaultTimingUs tschTsTimeslotLength) ≠ 0

variable {w : ℕ}

/-! ## Parsing -/

/-- `tsch_security_mic_len` -/
def tschSecurityMicLen (frame : Frame802154) : ℕ :=
  if frame.fcf.securityEnabled ≠ 0 then
    2 <<< (frame.auxHdr.securityControl.securityLevel &&& 3#8).toNat
  else 0

/-- `FRAME802154_BEACONFRAME` -/
def beaconFrame : Byte := 0x00

/-- The elements before they are parsed: without a join priority a beacon has the largest. -/
def initialIes : Ieee802154Ies := { Ieee802154Ies.zero with ieJoinPriority := 0xff }

/-- `tsch_packet_parse_eb`, for a number of rounds of the loop over the elements, which may not
suffice: the header and the elements if the length it returns, of eight bits, is not zero. -/
def tschPacketParseEb (cfg : EbConfig w) (rounds : ℕ) (mem : ℕ → Byte) (len : ℕ)
    (frame : Frame802154) (frameWithoutMic : Bool) :
    Option (Option (Frame802154 × Ieee802154Ies)) :=
  let (hdrLen, frame) := frame802154Parse cfg.framer mem len frame
  if hdrLen = 0 then some none
  else if frame.fcf.frameVersion < ieee802154v2015 ∨ frame.fcf.frameType ≠ beaconFrame then some none
  else if frame.fcf.ieListPresent = 0 then
    some (if hdrLen % 256 ≠ 0 then some (frame, initialIes) else none)
  else
    let micLen :=
      if cfg.llsec802154Enabled ∧ frameWithoutMic = false then tschSecurityMicLen frame else 0
    if len < hdrLen + micLen then some none
    else
      match (parseInformationElements cfg.ie rounds (BitVec.ofNat 8 (len - hdrLen - micLen))
        initialIes).val (fun i => mem (hdrLen + i)) with
      | none => none
      | some none => some none
      | some (some (iesLen, ies)) =>
        some (if (hdrLen + iesLen) % 256 ≠ 0 then some (frame, ies) else none)

/-! ## The node -/

/-- A slotframe, of which only the size matters here. -/
structure SlotframeSize where
  handle : BitVec 16
  size : TschAsnDivisor
  size_ne : size.val ≠ 0

/-- What a node keeps of its network. -/
structure TschNode (w : ℕ) where
  tschIsAssociated : Bool
  tschIsPanSecured : Byte
  panId : BitVec 16
  tschCurrentAsn : TschAsn
  tschJoinPriority : Byte
  timeSource : Option FrameAddr
  tschTimingUs : ℕ → BitVec 16
  tschTiming : ℕ → BitVec w
  tschHoppingSequence : ℕ → Byte
  tschHoppingSequenceLength : TschAsnDivisor
  slaTriggeringAsn : TschAsn
  slaNextTimeslotLength : BitVec 16
  slotframeList : List SlotframeSize

/-- A beacon that is received: a memory that has its bytes, the rounds that the parser makes,
what a frame description has before, whether the frame is authentic, and whether there is room for
its source as a neighbor. -/
structure ReceivedEb where
  mem : ℕ → Byte
  len : ℕ
  rounds : ℕ
  frame : Frame802154
  authentic : Bool
  room : Bool

namespace TschNode

/-- `tsch_disassociate` -/
def tschDisassociate (s : TschNode w) : TschNode w := { s with tschIsAssociated := false }

/-- `tsch_schedule_add_slotframe` -/
def tschScheduleAddSlotframe (cfg : EbConfig w) (s : TschNode w) (handle size : BitVec 16) :
    TschNode w :=
  if h : size = 0 then s
  else if s.slotframeList.any (fun sf => sf.handle = handle) then s
  else if s.slotframeList.length < cfg.tschScheduleMaxSlotframes then
    { s with slotframeList := s.slotframeList ++ [⟨handle, .init size, h⟩] }
  else s

/-- `tsch_schedule_remove_all_slotframes` -/
def tschScheduleRemoveAllSlotframes (s : TschNode w) : TschNode w := { s with slotframeList := [] }

/-- `tsch_schedule_create_minimal` -/
def tschScheduleCreateMinimal (cfg : EbConfig w) (s : TschNode w) : TschNode w :=
  s.tschScheduleRemoveAllSlotframes.tschScheduleAddSlotframe cfg 0 cfg.tschScheduleDefaultLength

/-! ## Association -/

/-- The part of `tsch_associate` that refuses a beacon before anything is taken from it. -/
def refusesEb (cfg : EbConfig w) (e : ReceivedEb) (frame : Frame802154) (ies : Ieee802154Ies) :
    Bool :=
  (cfg.tschJoinSecuredOnly && frame.fcf.securityEnabled = 0) ||
    (cfg.llsec802154Enabled && !e.authentic) ||
    (!cfg.llsec802154Enabled && frame.fcf.securityEnabled = 1) ||
    (cfg.tschJoinMyPanidOnly && frame.srcPid ≠ cfg.ieee802154Panid) || ies.ieJoinPriority = 0xff

/-- The timing of a beacon, or that of the default. With SLA the timeslot length is that of
another element. -/
def timingOfEb (cfg : EbConfig w) (ies : Ieee802154Ies) (i : ℕ) : BitVec 16 :=
  if cfg.ie.withSla ∧ i = tschTsTimeslotLength then ies.ieSlaCurrTimeslotLen
  else if ies.ieTschTimeslotId = 0 then cfg.tschDefaultTimingUs i
  else ies.ieTschTimeslot i

/-- The timing is taken from a beacon. -/
def setTiming (cfg : EbConfig w) (ies : Ieee802154Ies) (s : TschNode w) : TschNode w :=
  { s with
    tschTimingUs := fun i =>
      if i < cfg.ie.tsElementsCount then timingOfEb cfg ies i else s.tschTimingUs i
    tschTiming := fun i =>
      if i < cfg.ie.tsElementsCount then cfg.usToRtimerticks (timingOfEb cfg ies i)
      else s.tschTiming i
    slaTriggeringAsn := if cfg.ie.withSla then ies.ieSlaTriggeringAsn else s.slaTriggeringAsn
    slaNextTimeslotLength :=
      if cfg.ie.withSla then ies.ieSlaNextTimeslotLen else s.slaNextTimeslotLength }

/-- A hopping sequence is copied over the first channels of the one before. -/
def copyHoppingSequence (list : ℕ → Byte) (len : BitVec 16) (s : TschNode w) : TschNode w :=
  { s with
    tschHoppingSequence := fun i => if i < len.toNat then list i else s.tschHoppingSequence i
    tschHoppingSequenceLength := .init len }

/-- The hopping sequence is taken from a beacon; `none` when it is too long. -/
def setHoppingSequence (cfg : EbConfig w) (ies : Ieee802154Ies) (s : TschNode w) :
    Option (TschNode w) :=
  if ies.ieChannelHoppingSequenceId = 0 then
    some (s.copyHoppingSequence (fun i => cfg.tschDefaultHoppingSequence.getD i 0)
      (BitVec.ofNat 16 cfg.tschDefaultHoppingSequence.length))
  else if ies.ieHoppingSequenceLen.toNat ≤ cfg.ie.hoppingSequenceMaxLen then
    some (s.copyHoppingSequence ies.ieHoppingSequenceList ies.ieHoppingSequenceLen)
  else none

/-- The schedule is taken from a beacon; `none` when there are too many links. -/
def initSchedule (cfg : EbConfig w) (ies : Ieee802154Ies) (s : TschNode w) : Option (TschNode w) :=
  let sf := ies.ieTschSlotframeAndLink
  if sf.numSlotframes = 0 then
    some (if cfg.tschScheduleWith6tischMinimal then s.tschScheduleCreateMinimal cfg else s)
  else
    let s := s.tschScheduleRemoveAllSlotframes
    if sf.numLinks.toNat ≤ frame802154eIeMaxLinks then
      some (s.tschScheduleAddSlotframe cfg (sf.slotframeHandle.setWidth 16) sf.slotframeSize)
    else none

/-- The end of `tsch_associate`. -/
def join (cfg : EbConfig w) (e : ReceivedEb) (frame : Frame802154) (s : TschNode w) :
    Bool × TschNode w :=
  if s.tschJoinPriority < cfg.tschMaxJoinPriority ∧ e.room then
    (true, { s with
      timeSource := some frame.srcAddr
      panId := frame.srcPid
      tschIsAssociated := true
      tschIsPanSecured := frame.fcf.securityEnabled })
  else (false, s)

/-- `tsch_associate`: whether the beacon is accepted, and the node, of which a beacon that is not
accepted can have changed a part. -/
def tschAssociate (cfg : EbConfig w) (e : ReceivedEb) (s : TschNode w) :
    Option (Bool × TschNode w) :=
  match tschPacketParseEb cfg e.rounds e.mem e.len e.frame false with
  | none => none
  | some none => some (false, s)
  | some (some (frame, ies)) =>
    let s := { s with tschCurrentAsn := ies.ieAsn, tschJoinPriority := ies.ieJoinPriority + 1 }
    if refusesEb cfg e frame ies then some (false, s)
    else
      let s := s.setTiming cfg ies
      match s.setHoppingSequence cfg ies with
      | none => some (false, s)
      | some s =>
        if cfg.tschInitScheduleFromEb then
          match s.initSchedule cfg ies with
          | none => some (false, s.tschScheduleRemoveAllSlotframes)
          | some s => some (s.join cfg e frame)
        else some (s.join cfg e frame)

/-! ## Later beacons -/

/-- The node leaves the network on an ASN that is not its own, or a join priority that is too
high. -/
def checkEb (cfg : EbConfig w) (rxAsn : TschAsn) (ies : Ieee802154Ies) (s : TschNode w) :
    TschNode w :=
  if rxAsn.diff ies.ieAsn ≠ 0 ∨ ¬ies.ieJoinPriority < cfg.tschMaxJoinPriority then
    s.tschDisassociate
  else s

/-- The hopping sequence is that of the beacon. -/
def updateHoppingSequence (cfg : EbConfig w) (ies : Ieee802154Ies) (s : TschNode w) : TschNode w :=
  let len := s.tschHoppingSequenceLength.val
  if ies.ieChannelHoppingSequenceId ≠ 0 ∧
      (ies.ieHoppingSequenceLen ≠ len ∨
        ∃ i < len.toNat, s.tschHoppingSequence i ≠ ies.ieHoppingSequenceList i) ∧
      ies.ieHoppingSequenceLen.toNat ≤ cfg.ie.hoppingSequenceMaxLen then
    s.copyHoppingSequence ies.ieHoppingSequenceList ies.ieHoppingSequenceLen
  else s

/-- The announcement of the next timeslot length, by a node that has the same timeslot length. -/
def slaEbInput (ies : Ieee802154Ies) (s : TschNode w) : TschNode w :=
  if s.tschTimingUs tschTsTimeslotLength ≠ ies.ieSlaCurrTimeslotLen then s.tschDisassociate
  else { s with
    slaTriggeringAsn := ies.ieSlaTriggeringAsn
    slaNextTimeslotLength := ies.ieSlaNextTimeslotLen }

/-- `eb_input` -/
def ebInput (cfg : EbConfig w) (e : ReceivedEb) (rxAsn : TschAsn) (s : TschNode w) :
    Option (TschNode w) :=
  match tschPacketParseEb cfg e.rounds e.mem e.len e.frame true with
  | none => none
  | some none => some s
  | some (some (frame, ies)) =>
    if s.timeSource = some frame.srcAddr then
      let s := (s.checkEb cfg rxAsn ies).updateHoppingSequence cfg ies
      some (if cfg.ie.withSla then s.slaEbInput ies else s)
    else some s

/-! ## The next timeslot length -/

section

variable (cfg : EbConfig w) (s : TschNode w)

/-- `sla_apply_next_timeslot_length` -/
def slaApplyNextTimeslotLength : TschNode w :=
  { s with
    tschTimingUs := fun i =>
      if i = tschTsTimeslotLength then s.slaNextTimeslotLength else s.tschTimingUs i
    tschTiming := fun i =>
      if i = tschTsTimeslotLength then cfg.usToRtimerticks s.slaNextTimeslotLength
      else s.tschTiming i }

/-- The slot operation wakes up in a later timeslot, at the triggering ASN with the next timeslot
length; `none` when the node is not associated. -/
def slotOperation (timeslotDiff : BitVec 16) :
    Option (TschNode w) :=
  if s.tschIsAssociated then
    let s := { s with tschCurrentAsn := s.tschCurrentAsn.inc (timeslotDiff.setWidth 32) }
    some (if cfg.ie.withSla ∧ s.tschCurrentAsn = s.slaTriggeringAsn ∧
        s.tschTimingUs tschTsTimeslotLength ≠ s.slaNextTimeslotLength then
      s.slaApplyNextTimeslotLength cfg else s)
  else none

/-- `tsch_reset` -/
def tschReset : TschNode w :=
  { s with
    panId := 0xffff
    timeSource := none
    tschJoinPriority := 0xff
    tschCurrentAsn := ⟨0, 0⟩
    tschTimingUs := fun i =>
      if i < cfg.ie.tsElementsCount then cfg.tschDefaultTimingUs i else s.tschTimingUs i
    tschTiming := fun i =>
      if i < cfg.ie.tsElementsCount then cfg.usToRtimerticks (cfg.tschDefaultTimingUs i)
      else s.tschTiming i
    slaTriggeringAsn := if cfg.ie.withSla then ⟨0, 0⟩ else s.slaTriggeringAsn
    slaNextTimeslotLength :=
      if cfg.ie.withSla then cfg.tschDefaultTimingUs tschTsTimeslotLength
      else s.slaNextTimeslotLength }

end

end TschNode

/-! ## Runs -/

/-- What can happen to a node that is not a coordinator. -/
inductive NodeEvent where
  /-- a frame is received while scanning -/
  | associate (e : ReceivedEb)
  /-- a frame is received later -/
  | ebInput (e : ReceivedEb) (rxAsn : TschAsn)
  /-- the slot operation wakes up again -/
  | slot (timeslotDiff : BitVec 16)
  | disassociate
  | reset
  | updateTimeSource (addr : Option FrameAddr)
  | addSlotframe (handle size : BitVec 16)
  | removeAllSlotframes

/-- One event; `none` when it cannot happen. -/
def TschNode.step (cfg : EbConfig w) (s : TschNode w) : NodeEvent → Option (TschNode w)
  | .associate e => (s.tschAssociate cfg e).map Prod.snd
  | .ebInput e rxAsn => s.ebInput cfg e rxAsn
  | .slot timeslotDiff => s.slotOperation cfg timeslotDiff
  | .disassociate => some s.tschDisassociate
  | .reset => some (s.tschReset cfg)
  | .updateTimeSource addr => some { s with timeSource := addr }
  | .addSlotframe handle size => some (s.tschScheduleAddSlotframe cfg handle size)
  | .removeAllSlotframes => some s.tschScheduleRemoveAllSlotframes

end Asap.Tsch
