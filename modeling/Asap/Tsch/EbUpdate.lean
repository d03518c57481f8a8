import Asap.Framer.EbBytes
import Asap.Framer.EbHeader
import Asap.Tsch.EbInput

/-!
# Enhanced beacons are updated in place

A beacon waits in the queue. Before it is sent, its ASN, its join priority and the timeslot lengths
that it announces are written over, at the offset that was recorded when it was created. The beacon
is then the one that would have been created with the new values.

## Main definitions

* `ebIes`, `tschPacketCreateEbFrame` — what a beacon advertises, and the beacon.
* `tschPacketUpdateEb`, `slaPacketUpdateEb`, `updateEb` — the updates.
* `EbField`, `withFields` — the bytes of the fields, and what is found in them after an update.
-/

namespace Asap.Tsch

open Asap.Lib Asap.Framer List

variable {w : ℕ}

/-- The build of a node that sends beacons. -/
structure EbBuild (w : ℕ) where
  cfg : EbConfig w
  usesFrameCounter : Bool
  frame802154SupprSeqno : Byte
  tschPacketEbWithTimeslotTiming : Bool
  tschPacketEbWithHoppingSequence : Bool
  tschPacketEbWithSlotframeAndLink : Bool
  rtimerticksToUs : BitVec w → BitVec 16
  tschSecurityKeySecLevelEb : Byte
  tschSecurityKeyIndexEb : Byte
  secLevel_lt : tschSecurityKeySecLevelEb < 8

/-- The part of the build that is the framer's. -/
def EbBuild.framer (b : EbBuild w) : FramerSetup :=
  { b.cfg.framer with
    usesFrameCounter := b.usesFrameCounter
    frame802154SupprSeqno := b.frame802154SupprSeqno }

/-- Slotframe 0 with its link at timeslot 0 and channel offset 0. -/
structure MinimalCell where
  handle : BitVec 16
  size : BitVec 16
  link : TschSlotframeAndLinksLink

/-- A node that creates a beacon. -/
structure EbSender (w : ℕ) where
  node : TschNode w
  macDsn : Byte
  linkaddrNodeAddr : FrameAddr
  minimalCell : Option MinimalCell

/-! ## Creation -/

/-- The elements that `tsch_packet_create_eb` advertises. -/
def ebIes (b : EbBuild w) (s : EbSender w) : Ieee802154Ies :=
  let node := s.node
  let ies := Ieee802154Ies.zero
  let ies :=
    if b.cfg.ie.withSla then
      { ies with
        ieSlaTriggeringAsn := node.slaTriggeringAsn
        ieSlaCurrTimeslotLen := node.tschTimingUs tschTsTimeslotLength
        ieSlaNextTimeslotLen := node.slaNextTimeslotLength }
    else ies
  let ies :=
    if b.tschPacketEbWithTimeslotTiming then
      { ies with
        ieTschTimeslotId := 1
        ieTschTimeslot := fun i =>
          if i < b.cfg.ie.tsElementsCount then b.rtimerticksToUs (node.tschTiming i)
          else ies.ieTschTimeslot i }
    else ies
  let len := node.tschHoppingSequenceLength.val
  let ies :=
    if b.tschPacketEbWithHoppingSequence ∧ len.toNat ≤ b.cfg.ie.hoppingSequenceMaxLen then
      { ies with
        ieChannelHoppingSequenceId := 1
        ieHoppingSequenceLen := len
        ieHoppingSequenceList := fun i =>
          if i < len.toNat then node.tschHoppingSequence i else ies.ieHoppingSequenceList i }
    else ies
  match b.tschPacketEbWithSlotframeAndLink, s.minimalCell with
  | true, some cell =>
    { ies with
      ieTschSlotframeAndLink :=
        { numSlotframes := 1
          slotframeHandle := cell.handle.setWidth 8
          slotframeSize := cell.size
          numLinks := 1
          links := fun i => if i = 0 then cell.link else ies.ieTschSlotframeAndLink.links i } }
  | _, _ => ies

/-- `tsch_security_set_packetbuf_attr`, for a beacon. -/
def tschSecuritySetPacketbufAttr (b : EbBuild w) (s : TschNode w) (attr : PacketbufAttrs) :
    PacketbufAttrs :=
  if b.cfg.llsec802154Enabled ∧ s.tschIsPanSecured ≠ 0 then
    { attr with
      securityLevel := b.tschSecurityKeySecLevelEb.setWidth 16
      keyIdMode := 1
      keyIndex := b.tschSecurityKeyIndexEb.setWidth 16 }
  else attr

/-- The header of a beacon. -/
def ebHeader (b : EbBuild w) (s : EbSender w) : Option Frame802154 :=
  createBroadcastFrame b.framer s.node.panId s.macDsn s.linkaddrNodeAddr
    (tschSecuritySetPacketbufAttr b s.node
      { PacketbufAttrs.cleared with frameType := beaconFrame.setWidth 16, macMetadata := 1 })

/-- A beacon in its buffer. -/
structure CreatedEb where
  mem : ℕ → Byte
  totLen : ℕ
  hdrLen : Byte
  tschSyncIeOffset : Byte

/-- The bytes of a header are written, but for those that are skipped. -/
def writeHeader (mem : ℕ → Byte) (bs : List (Option Byte)) : ℕ → Byte :=
  fun i => (bs[i]?).join.getD (mem i)

/-- `tsch_packet_create_eb`: the elements and the header before them, for which there may be no
room. -/
def tschPacketCreateEbFrame (b : EbBuild w) (s : EbSender w) (mem : ℕ → Byte) : Option CreatedEb :=
  match tschPacketCreateEb b.cfg.ie mem (ebIes b s), ebHeader b s with
  | some (mem, n), some params =>
    let hdrLen := frame802154Hdrlen b.cfg.framer params
    if packetbufSize < hdrLen + n then none
    else
      some {
        mem := writeHeader (shift mem hdrLen n) (frame802154Create b.cfg.framer params).1
        totLen := hdrLen + n
        hdrLen := BitVec.ofNat 8 (hdrLen + 2)
        tschSyncIeOffset := BitVec.ofNat 8 (hdrLen + 2 + 2) }
  | _, _ => none

/-! ## Updates -/

/-- What a creator writes to a buffer, and whether it does. -/
def updateIe (mem : ℕ → Byte) (bufSize : ℤ) (pos : ℕ) (ies : Ieee802154Ies) (create : IeCreator) :
    (ℕ → Byte) × Bool :=
  match create (bufSize - pos) ies with
  | none => (mem, false)
  | some (bs, _) => (store mem pos bs, true)

/-- `tsch_packet_update_eb` -/
def tschPacketUpdateEb (s : TschNode w) (buf : ℕ → Byte) (bufSize : ℤ) (tschSyncIeOffset : Byte) :
    (ℕ → Byte) × Bool :=
  let ies := { Ieee802154Ies.zero with
    ieAsn := s.tschCurrentAsn
    ieJoinPriority := s.tschJoinPriority }
  updateIe buf bufSize tschSyncIeOffset.toNat ies createIeTschSynchronization

/-- `sla_packet_update_eb` -/
def slaPacketUpdateEb (s : TschNode w) (buf : ℕ → Byte) (bufSize : ℤ) (tschSyncIeOffset : Byte) :
    (ℕ → Byte) × Bool :=
  let ies := { Ieee802154Ies.zero with
    ieSlaTriggeringAsn := s.slaTriggeringAsn
    ieSlaCurrTimeslotLen := s.tschTimingUs tschTsTimeslotLength
    ieSlaNextTimeslotLen := s.slaNextTimeslotLength }
  let (buf, resultTriggeringAsn) :=
    updateIe buf bufSize (tschSyncIeOffset.toNat + 8) ies createIeTschSlaTriggeringAsn
  let (buf, resultFrameAckLen) :=
    updateIe buf bufSize (tschSyncIeOffset.toNat + 8 + 7) ies createIeTschSlaTimeslotLen
  (buf, resultTriggeringAsn && resultFrameAckLen)

/-- The part of `tsch_tx_slot` that updates a beacon: the buffer, and `packet_ready`. -/
def updateEb (cfg : IeConfig) (s : TschNode w) (eb : CreatedEb) : (ℕ → Byte) × Bool :=
  let (buf, packetReady) := tschPacketUpdateEb s eb.mem eb.totLen eb.tschSyncIeOffset
  if cfg.withSla then
    if packetReady then slaPacketUpdateEb s buf eb.totLen eb.tschSyncIeOffset else (buf, false)
  else (buf, packetReady)

/-! ## What is expected -/

/-- The bytes of the fields, for the offset of the first element. -/
def EbField (cfg : IeConfig) (offset i : ℕ) : Prop :=
  (offset + 2 ≤ i ∧ i < offset + 8) ∨
    cfg.withSla ∧ (offset + 10 ≤ i ∧ i < offset + 15 ∨ offset + 17 ≤ i ∧ i < offset + 21)

/-- The elements with the values of a node in the fields. -/
def withFields (cfg : IeConfig) (s : TschNode w) (x : Ieee802154Ies) : Ieee802154Ies :=
  let x := { x with ieAsn := s.tschCurrentAsn, ieJoinPriority := s.tschJoinPriority }
  if cfg.withSla then
    { x with
      ieSlaTriggeringAsn := s.slaTriggeringAsn
      ieSlaCurrTimeslotLen := s.tschTimingUs tschTsTimeslotLength
      ieSlaNextTimeslotLen := s.slaNextTimeslotLength }
  else x

variable {cfg : IeConfig} {b : EbBuild w} {s₀ : EbSender w} {s : TschNode w} {mem : ℕ → Byte}
  {eb : CreatedEb} {ies x : Ieee802154Ies}

/-! ## The fields of the elements -/

section

variable (cfg : IeConfig) (s : TschNode w)

theorem frontFound_withFields (ies x : Ieee802154Ies) :
    frontFound cfg (withFields cfg s ies) x = withFields cfg s (frontFound cfg ies x) := by
  simp only [frontFound, withFields]
  split_ifs <;> rfl

theorem declaredBytes_withFields (ies : Ieee802154Ies) :
    ∀ create ∈ [createIeTschTimeslot cfg, createIeTschChannelHoppingSequence cfg,
      createIeTschSlotframeAndLink],
        ∀ room, create room (withFields cfg s ies) = create room ies := by
  intro create hcreate room
  simp only [mem_cons, not_mem_nil, or_false] at hcreate
  rcases hcreate with rfl | rfl | rfl <;> rw [withFields] <;> split_ifs <;> rfl

theorem restBytes_withFields (ies : Ieee802154Ies) :
    restBytes cfg (withFields cfg s ies) = restBytes cfg ies := by
  have h := declaredBytes_withFields cfg s ies
  simp only [restBytes, declaredBytes, h _ (mem_cons_self),
    h _ (mem_cons_of_mem _ mem_cons_self),
    h _ (mem_cons_of_mem _ (mem_cons_of_mem _ mem_cons_self))]

/-- With other values in the fields, these are what is found in them. -/
theorem ebParsed_withFields (ies x : Ieee802154Ies) :
    ebParsed cfg (withFields cfg s ies) x = withFields cfg s (ebParsed cfg ies x) := by
  have hword : declaredBytes (withFields cfg s ies) (createIeTschChannelHoppingSequence cfg) =
      declaredBytes ies (createIeTschChannelHoppingSequence cfg) := by
    rw [declaredBytes, declaredBytes_withFields cfg s ies (createIeTschChannelHoppingSequence cfg)
      (by simp), declaredBytes]
  have htiming : ∀ next y, timingFound cfg (withFields cfg s ies) next (withFields cfg s y) =
      withFields cfg s (timingFound cfg ies next y) := by
    intro next y
    simp only [timingFound, withFields]
    split_ifs <;> rfl
  have hhopping : ∀ y, hoppingFound (withFields cfg s ies) (withFields cfg s y) =
      withFields cfg s (hoppingFound ies y) := by
    intro y
    simp only [hoppingFound, withFields]
    split_ifs <;> rfl
  have hslotframe : ∀ y, foundSlotframe (withFields cfg s ies).ieTschSlotframeAndLink
      (withFields cfg s y) = withFields cfg s (foundSlotframe ies.ieTschSlotframeAndLink y) := by
    intro y
    simp only [foundSlotframe, withFields]
    split_ifs <;> rfl
  rw [ebParsed, hword, frontFound_withFields, htiming, hhopping, hslotframe, ebParsed]

end

theorem declaredBytes_synchronization (ies : Ieee802154Ies) :
    declaredBytes ies createIeTschSynchronization =
      createMlmeShortIeDescriptor mlmeShortIeTschSynchronization 6 ++
        (asnBytes ies.ieAsn ++ [ies.ieJoinPriority]) :=
  rfl

theorem declaredBytes_slaTriggeringAsn (ies : Ieee802154Ies) :
    declaredBytes ies createIeTschSlaTriggeringAsn =
      createMlmeShortIeDescriptor mlmeShortIeTschSlaTriggeringAsn 5 ++
        asnBytes ies.ieSlaTriggeringAsn :=
  rfl

theorem declaredBytes_slaTimeslotLen (ies : Ieee802154Ies) :
    declaredBytes ies createIeTschSlaTimeslotLen =
      createMlmeShortIeDescriptor mlmeShortIeTschSlaTimeslotLen 4 ++
        (le16 ies.ieSlaCurrTimeslotLen ++ le16 ies.ieSlaNextTimeslotLen) :=
  rfl

theorem length_frontBytes (cfg : IeConfig) (ies : Ieee802154Ies) :
    (frontBytes cfg ies).length = if cfg.withSla then 21 else 8 := by
  rw [frontBytes, declaredBytes_synchronization, declaredBytes_slaTriggeringAsn,
    declaredBytes_slaTimeslotLen]
  split_ifs <;> rfl

theorem length_ebBytes_withFields (cfg : IeConfig) (s : TschNode w) (ies : Ieee802154Ies) :
    (ebBytes cfg (withFields cfg s ies)).length = (ebBytes cfg ies).length := by
  rw [ebBytes_eq, ebBytes_eq, length_append, length_append, length_frontBytes,
    length_frontBytes, restBytes_withFields]

/-- A beacon can be created with other values, too. -/
theorem ebCreated_withFields (h : EbCreated cfg ies) (s : TschNode w) :
    EbCreated cfg (withFields cfg s ies) where
  length_le := (length_ebBytes_withFields cfg s ies).trans_le h.length_le
  isSome := by
    intro create hcreate
    simp only [ebElements, mem_append] at hcreate
    rcases hcreate with (hsync | hsla) | hrest
    · rw [mem_singleton.mp hsync]
      rfl
    · by_cases hwith : cfg.withSla
      · rw [if_pos hwith, mem_pair] at hsla
        rcases hsla with rfl | rfl <;> rfl
      · rw [if_neg hwith] at hsla
        exact absurd hsla not_mem_nil
    · rw [declaredBytes_withFields cfg s ies create hrest]
      exact h.isSome create (mem_append_right _ hrest)

/-! ## The layout of a beacon -/

/-- The length of the header of a beacon. -/
def ebHdrLen (fr : FramerConfig) (p : Frame802154) : ℕ :=
  (createMhr fr p).length + (createAux fr p).length

/-- A memory that begins with a beacon. -/
structure EbLayout (fr : FramerConfig) (cfg : IeConfig) (p : Frame802154) (ies : Ieee802154Ies)
    (mem : ℕ → Byte) : Prop where
  header : Written mem ((createMhr fr p).map some ++ createAux fr p)
  elements : Holds mem (ebHdrLen fr p) (ebIeBytes cfg ies)

variable {fr : FramerConfig} {p : Frame802154} {mem' : ℕ → Byte}

/-- The layout is a matter of the bytes of the beacon. -/
theorem EbLayout.congr (h : EbLayout fr cfg p ies mem)
    (heq : ∀ i < ebHdrLen fr p + (ebIeBytes cfg ies).length, mem' i = mem i) :
    EbLayout fr cfg p ies mem' where
  header := by
    intro i b hb
    have hi := (List.getElem?_eq_some_iff.mp hb).1
    rw [length_append, length_map, ← ebHdrLen] at hi
    rw [heq i (by omega)]
    exact h.header i b hb
  elements := h.elements.congr fun i _ hi => heq i hi

section

variable (cfg : IeConfig) (ies : Ieee802154Ies)

/-- The bytes before the first element. -/
def ebPrefix : List Byte :=
  createHeaderIeDescriptor headerIeListTermination1 0 ++
    createPayloadIeDescriptor payloadIeMlme (ebBytes cfg ies).length

theorem length_ebPrefix : (ebPrefix cfg ies).length = 4 := rfl

theorem ebIeBytes_eq :
    ebIeBytes cfg ies = ebPrefix cfg ies ++ (frontBytes cfg ies ++ restBytes cfg ies) := by
  rw [ebIeBytes, ebPrefix, append_assoc, ← ebBytes_eq]

end

theorem ebPrefix_withFields (cfg : IeConfig) (s : TschNode w) (ies : Ieee802154Ies) :
    ebPrefix cfg (withFields cfg s ies) = ebPrefix cfg ies := by
  rw [ebPrefix, length_ebBytes_withFields, ebPrefix]

/-- The header of a beacon. -/
theorem ebHeader_spec (h : ebHeader b s₀ = some p) :
    GapFree p ∧ p.fcf.frameVersion = ieee802154v2015 ∧ p.fcf.frameType = beaconFrame ∧
      p.fcf.ieListPresent = 1 ∧ (p.fcf.securityEnabled ≠ 0 →
        b.cfg.framer.usesAuxHeader = true ∧ p.fcf.securityEnabled = 1) := by
  have hlevel : b.tschSecurityKeySecLevelEb.setWidth 16 < 8 := by
    have hlt := b.secLevel_lt
    rw [BitVec.lt_def] at hlt ⊢
    rw [BitVec.toNat_setWidth]
    exact Nat.lt_of_le_of_lt (Nat.mod_le _ _) hlt
  have hattr : BroadcastAttrs (tschSecuritySetPacketbufAttr b s₀.node { PacketbufAttrs.cleared with
      frameType := beaconFrame.setWidth 16, macMetadata := 1 }) := by
    have htype : beaconFrame.setWidth 16 < (8 : BitVec 16) := by decide
    have hpresent : (1 : BitVec 16) < 2 := by decide
    have hnone : (0 : BitVec 16) < 8 := by decide
    have hzero : (0 : BitVec 16) < 4 := by decide
    have hone : (1 : BitVec 16) < 4 := by decide
    rw [tschSecuritySetPacketbufAttr]
    split_ifs
    · exact ⟨htype, hpresent, hlevel, hone, rfl, rfl⟩
    · exact ⟨htype, hpresent, hnone, hzero, rfl, rfl⟩
  obtain ⟨hgap, hversion, htype, hpresent, hsecurity⟩ := broadcastHeader hattr h
  refine ⟨hgap, hversion, htype.trans ?_, hpresent.trans ?_, hsecurity⟩
  · rw [tschSecuritySetPacketbufAttr]
    split_ifs <;> rfl
  · rw [tschSecuritySetPacketbufAttr]
    split_ifs <;> rfl

theorem written_writeHeader (mem : ℕ → Byte) (bs : List (Option Byte)) :
    Written (writeHeader mem bs) bs := by
  intro i b hb
  rw [writeHeader, hb]
  rfl

theorem writeHeader_of_le {bs : List (Option Byte)} {i : ℕ} (h : bs.length ≤ i) :
    writeHeader mem bs i = mem i := by
  rw [writeHeader, List.getElem?_eq_none h]
  rfl

/-- What `tsch_packet_create_eb` leaves in the buffer. -/
theorem tschPacketCreateEbFrame_spec (h : tschPacketCreateEbFrame b s₀ mem = some eb) :
    ∃ p, ebHeader b s₀ = some p ∧ EbCreated b.cfg.ie (ebIes b s₀) ∧
      EbLayout b.cfg.framer b.cfg.ie p (ebIes b s₀) eb.mem ∧
      eb.totLen = ebHdrLen b.cfg.framer p + (ebIeBytes b.cfg.ie (ebIes b s₀)).length ∧
      eb.totLen ≤ packetbufSize ∧
      eb.tschSyncIeOffset = BitVec.ofNat 8 (ebHdrLen b.cfg.framer p + 4) := by
  rw [tschPacketCreateEbFrame] at h
  cases hies : tschPacketCreateEb b.cfg.ie mem (ebIes b s₀) with
  | none =>
    rw [hies] at h
    cases h
  | some r =>
    cases hheader : ebHeader b s₀ with
    | none =>
      rw [hies, hheader] at h
      cases h
    | some p =>
      obtain ⟨mem₁, n⟩ := r
      obtain ⟨hcreated, hn, hmem⟩ := tschPacketCreateEb_memory hies
      obtain ⟨hgap, hversion, -⟩ := ebHeader_spec hheader
      have hcompression := setCompression_of_v2015 hversion
      have hlength := @length_create b.cfg.framer p (hcompression.symm ▸ hgap.consistent.inRange)
      have hbytes : (frame802154Create b.cfg.framer p).1 =
          (createMhr b.cfg.framer p).map some ++ createAux b.cfg.framer p := by
        rw [frame802154Create, hcompression]
      have hhdrLen : frame802154Hdrlen b.cfg.framer p = ebHdrLen b.cfg.framer p := by
        rw [← hlength, hbytes, length_append, length_map, ebHdrLen]
      rw [hies, hheader] at h
      simp only [hhdrLen, hbytes] at h
      split_ifs at h with hroom
      have heb := (Option.some.inj h).symm
      subst heb
      refine ⟨p, rfl, hcreated, ⟨written_writeHeader _ _, ?_⟩, congrArg _ hn, Nat.le_of_not_lt hroom,
        rfl⟩
      have hmoved := hmem.shift (k := ebHdrLen b.cfg.framer p) (n := n) (by omega)
      rw [Nat.zero_add] at hmoved
      refine hmoved.congr fun i hi _ => writeHeader_of_le ?_
      rw [length_append, length_map]
      exact hi

/-- One element is updated. -/
theorem updateIe_spec {create : IeCreator} {bufSize : ℤ} {start pos n : ℕ}
    {as cs desc old new : List Byte} (hcreate : create (bufSize - pos) ies = some (desc ++ new, n))
    (hpos : pos = start + as.length) (hlen : new.length = old.length)
    (h : Holds mem start (as ++ ((desc ++ old) ++ cs))) :
    let r := updateIe mem bufSize pos ies create
    r.2 = true ∧ Holds r.1 start (as ++ ((desc ++ new) ++ cs)) ∧
      ∀ i, ¬(pos + desc.length ≤ i ∧ i < pos + desc.length + new.length) → r.1 i = mem i := by
  obtain ⟨-, hrest⟩ := holds_append.mp h
  obtain ⟨hold, -⟩ := holds_append.mp hrest
  obtain ⟨hdesc, -⟩ := holds_append.mp hold
  rw [← hpos] at hdesc
  rw [updateIe, hcreate]
  refine ⟨rfl, ?_, fun i hi => store_append_of_holds hdesc hi⟩
  rw [hpos]
  exact h.replace (by rw [length_append, length_append, hlen])

/-- The first element is updated. -/
theorem tschPacketUpdateEb_spec {bufSize : ℤ} {offset : Byte} {start : ℕ} {pre rest : List Byte}
    (hoffset : offset.toNat = start + pre.length) (hroom : (offset.toNat : ℤ) + 8 ≤ bufSize)
    (h : Holds mem start (pre ++ (declaredBytes ies createIeTschSynchronization ++ rest))) :
    let r := tschPacketUpdateEb s mem bufSize offset
    r.2 = true ∧ Holds r.1 start (pre ++
        (declaredBytes (withFields cfg s ies) createIeTschSynchronization ++ rest)) ∧
      ∀ i, ¬(offset.toNat + 2 ≤ i ∧ i < offset.toNat + 8) → r.1 i = mem i := by
  have hfields : (withFields cfg s ies).ieAsn = s.tschCurrentAsn ∧
      (withFields cfg s ies).ieJoinPriority = s.tschJoinPriority := by
    rw [withFields]
    split_ifs <;> exact ⟨rfl, rfl⟩
  have hfit : (2 + (6 : ℕ) : ℤ) ≤ bufSize - offset.toNat := by omega
  rw [declaredBytes_synchronization] at h ⊢
  rw [hfields.1, hfields.2]
  have hlen : (asnBytes s.tschCurrentAsn ++ [s.tschJoinPriority]).length =
      (asnBytes ies.ieAsn ++ [ies.ieJoinPriority]).length := rfl
  refine @updateIe_spec _ _ _ _ _ _ 8 _ _ _ _ _ ?_ hoffset hlen h
  rw [createIeTschSynchronization, createIe, if_pos hfit, append_assoc]

/-- The elements of SLA are updated. -/
theorem slaPacketUpdateEb_spec {bufSize : ℤ} {offset : Byte} {start : ℕ} {pre rest : List Byte}
    (hsla : cfg.withSla) (hoffset : offset.toNat + 8 = start + pre.length)
    (hroom : (offset.toNat : ℤ) + 21 ≤ bufSize)
    (h : Holds mem start (pre ++ (declaredBytes ies createIeTschSlaTriggeringAsn ++
      (declaredBytes ies createIeTschSlaTimeslotLen ++ rest)))) :
    let r := slaPacketUpdateEb s mem bufSize offset
    r.2 = true ∧ Holds r.1 start (pre ++
        (declaredBytes (withFields cfg s ies) createIeTschSlaTriggeringAsn ++
          (declaredBytes (withFields cfg s ies) createIeTschSlaTimeslotLen ++ rest))) ∧
      ∀ i, ¬(offset.toNat + 10 ≤ i ∧ i < offset.toNat + 15 ∨
        offset.toNat + 17 ≤ i ∧ i < offset.toNat + 21) → r.1 i = mem i := by
  have hfields : (withFields cfg s ies).ieSlaTriggeringAsn = s.slaTriggeringAsn ∧
      (withFields cfg s ies).ieSlaCurrTimeslotLen = s.tschTimingUs tschTsTimeslotLength ∧
      (withFields cfg s ies).ieSlaNextTimeslotLen = s.slaNextTimeslotLength := by
    rw [withFields, if_pos hsla]
    exact ⟨rfl, rfl, rfl⟩
  have hfit : (2 + (5 : ℕ) : ℤ) ≤ bufSize - (offset.toNat + 8 : ℕ) := by omega
  have hfit' : (2 + (4 : ℕ) : ℤ) ≤ bufSize - (offset.toNat + 8 + 7 : ℕ) := by omega
  rw [declaredBytes_slaTriggeringAsn, declaredBytes_slaTimeslotLen] at h ⊢
  rw [hfields.1, hfields.2.1, hfields.2.2]
  have hlen : (asnBytes s.slaTriggeringAsn).length = (asnBytes ies.ieSlaTriggeringAsn).length := rfl
  have hlen' : (le16 (s.tschTimingUs tschTsTimeslotLength) ++ le16 s.slaNextTimeslotLength).length =
      (le16 ies.ieSlaCurrTimeslotLen ++ le16 ies.ieSlaNextTimeslotLen).length := rfl
  let fields := { Ieee802154Ies.zero with
    ieSlaTriggeringAsn := s.slaTriggeringAsn
    ieSlaCurrTimeslotLen := s.tschTimingUs tschTsTimeslotLength
    ieSlaNextTimeslotLen := s.slaNextTimeslotLength }
  obtain ⟨hready, hholds, hframe⟩ := @updateIe_spec mem fields createIeTschSlaTriggeringAsn bufSize _
    _ 7 pre _ _ _ _ (by rw [createIeTschSlaTriggeringAsn, createIe, if_pos hfit]) hoffset hlen h
  rw [← append_assoc] at hholds
  obtain ⟨hready', hholds', hframe'⟩ := @updateIe_spec _ fields createIeTschSlaTimeslotLen bufSize _
    (offset.toNat + 8 + 7) 6 _ _ _ _ _
    (by rw [createIeTschSlaTimeslotLen, createIe, if_pos hfit', append_assoc])
    (by rw [hoffset, length_append, Nat.add_assoc]; rfl) hlen' hholds
  rw [append_assoc] at hholds'
  refine ⟨by simp only [slaPacketUpdateEb, hready, fields]; exact hready', hholds', fun i hi => ?_⟩
  rw [not_or] at hi
  exact (hframe' i hi.2).trans (hframe i hi.1)

/-- The header stays when only what is behind it changes. -/
theorem EbLayout.header_congr (h : EbLayout fr cfg p ies mem)
    (heq : ∀ i < ebHdrLen fr p, mem' i = mem i) :
    Written mem' ((createMhr fr p).map some ++ createAux fr p) := by
  intro i b hb
  have hi := (List.getElem?_eq_some_iff.mp hb).1
  rw [length_append, length_map, ← ebHdrLen] at hi
  rw [heq i hi]
  exact h.header i b hb

/-- **An update** leaves the beacon that would have been created with the new values, and only the
bytes of the fields are changed. -/
theorem updateEb_spec (h : EbLayout fr cfg p ies eb.mem)
    (hlen : eb.totLen = ebHdrLen fr p + (ebIeBytes cfg ies).length)
    (hoffset : eb.tschSyncIeOffset.toNat = ebHdrLen fr p + 4) :
    let r := updateEb cfg s eb
    r.2 = true ∧ EbLayout fr cfg p (withFields cfg s ies) r.1 ∧
      ∀ i, ¬EbField cfg eb.tschSyncIeOffset.toNat i → r.1 i = eb.mem i := by
  intro r
  have hbytes := h.elements
  rw [ebIeBytes_eq, length_append, length_append, length_ebPrefix,
    length_frontBytes] at hlen
  rw [ebIeBytes_eq] at hbytes
  have hpre := (length_ebPrefix cfg ies).symm
  rw [hpre] at hoffset
  have hspec : r.2 = true ∧ Holds r.1 (ebHdrLen fr p) (ebPrefix cfg ies ++
      (frontBytes cfg (withFields cfg s ies) ++ restBytes cfg ies)) ∧
        ∀ i, ¬EbField cfg eb.tschSyncIeOffset.toNat i → r.1 i = eb.mem i := by
    cases hsla : cfg.withSla with
    | false =>
      have hnot := Bool.eq_false_iff.mp hsla
      rw [frontBytes, if_neg hnot, append_nil] at hbytes ⊢
      rw [if_neg hnot] at hlen
      obtain ⟨hready, hholds, hframe⟩ := @tschPacketUpdateEb_spec w cfg s eb.mem ies eb.totLen
        eb.tschSyncIeOffset _ _ _ hoffset (by omega) hbytes
      have hr : r = _ := if_neg hnot
      rw [hr]
      exact ⟨hready, hholds, fun i hi => hframe i fun hin => hi (Or.inl hin)⟩
    | true =>
      rw [frontBytes, if_pos hsla, append_assoc] at hbytes ⊢
      rw [if_pos hsla] at hlen
      obtain ⟨hready, hholds, hframe⟩ := @tschPacketUpdateEb_spec w cfg s eb.mem ies eb.totLen
        eb.tschSyncIeOffset _ _ _ hoffset (by omega) hbytes
      rw [← append_assoc, append_assoc (declaredBytes ies _)] at hholds
      obtain ⟨hready', hholds', hframe'⟩ := @slaPacketUpdateEb_spec w cfg s _ ies eb.totLen
        eb.tschSyncIeOffset _ _ _ hsla
        (by rw [hoffset, length_append, Nat.add_assoc]; rfl) (by omega) hholds
      have hr : r = _ := (if_pos hsla).trans (if_pos hready)
      rw [hr]
      rw [append_assoc] at hholds' ⊢
      exact ⟨hready', hholds', fun i hi => (hframe' i fun hin => hi (Or.inr ⟨hsla, hin⟩)).trans
        (hframe i fun hin => hi (Or.inl hin))⟩
  obtain ⟨hready, hholds, hframe⟩ := hspec
  refine ⟨hready, ⟨h.header_congr fun i hi => hframe i fun hin => ?_, ?_⟩, hframe⟩
  · rcases hin with hin | ⟨_, hin | hin⟩ <;> omega
  · rw [ebIeBytes_eq, ebPrefix_withFields, restBytes_withFields]
    exact hholds

/-! ## Parsing -/

/-- The length of the MIC behind a beacon, when it is there. -/
def ebMicLen (b : EbBuild w) (p : Frame802154) (frameWithoutMic : Bool) : ℕ :=
  if b.cfg.llsec802154Enabled ∧ frameWithoutMic = false then tschSecurityMicLen p else 0

theorem tschSecurityMicLen_eq {frame : Frame802154} (hfcf : frame.fcf = p.fcf)
    (hlevel : p.fcf.securityEnabled ≠ 0 → frame.auxHdr.securityControl.securityLevel =
      p.auxHdr.securityControl.securityLevel) :
    tschSecurityMicLen frame = tschSecurityMicLen p := by
  rw [tschSecurityMicLen, hfcf, tschSecurityMicLen]
  split_ifs with hsec
  · rw [hlevel hsec]
  · rfl

/-- The header of a beacon is read, whatever is behind it. -/
theorem EbLayout.read (hheader : ebHeader b s₀ = some p)
    (h : EbLayout b.cfg.framer b.cfg.ie p ies mem) {len : ℕ} (hlen : ebHdrLen b.cfg.framer p ≤ len)
    (frame : Frame802154) :
    let r := frame802154Parse b.cfg.framer mem len frame
    r.1 = ebHdrLen b.cfg.framer p ∧ r.2.fcf = p.fcf ∧ tschSecurityMicLen r.2 = tschSecurityMicLen p ∧
      ∀ ies' mem', EbLayout b.cfg.framer b.cfg.ie p ies' mem' →
        frame802154Parse b.cfg.framer mem' len frame = r := by
  intro r
  obtain ⟨hgap, -, -, -, hsecurity⟩ := ebHeader_spec hheader
  obtain ⟨hfst, hfcf, hlevel, hsame⟩ := @header_read _ p frame _ _ hgap h.header hlen
  exact ⟨hfst, hfcf, tschSecurityMicLen_eq hfcf fun hsec => hlevel (hsecurity hsec),
    fun ies' mem' h' => hsame mem' h'.header⟩

/-- A beacon is parsed, with what is in its elements. -/
theorem tschPacketParseEb_spec (hheader : ebHeader b s₀ = some p) (hcreated : EbCreated b.cfg.ie ies)
    (hroom : ebHdrLen b.cfg.framer p + (ebIeBytes b.cfg.ie ies).length ≤ packetbufSize)
    (h : EbLayout b.cfg.framer b.cfg.ie p ies mem) (frame : Frame802154) (frameWithoutMic : Bool)
    {len : ℕ} (hlen : len = ebHdrLen b.cfg.framer p + (ebIeBytes b.cfg.ie ies).length +
      ebMicLen b p frameWithoutMic) :
    ∃ rounds, tschPacketParseEb b.cfg rounds mem len frame frameWithoutMic =
      some (some ((frame802154Parse b.cfg.framer mem len frame).2,
        ebParsed b.cfg.ie ies { initialIes with iePayloadIeOffset := 2 })) := by
  obtain ⟨-, hversion, htype, hpresent, -⟩ := ebHeader_spec hheader
  obtain ⟨hfst, hfcf, hmic, -⟩ := @EbLayout.read w b s₀ mem ies p hheader h len (by omega) frame
  have helements : Holds (fun i => mem (ebHdrLen b.cfg.framer p + i)) 0 (ebIeBytes b.cfg.ie ies) := by
    intro i hi
    rw [Nat.zero_add]
    exact h.elements i hi
  obtain ⟨rounds, hparsed⟩ := eb_found hcreated helements initialIes
  refine ⟨rounds, ?_⟩
  simp only [tschPacketParseEb]
  generalize frame802154Parse b.cfg.framer mem len frame = r at hfst hfcf hmic ⊢
  have hsize : packetbufSize = 128 := rfl
  have hpos : 2 ≤ ebHdrLen b.cfg.framer p := by
    rw [ebHdrLen, length_createMhr]
    omega
  have hbeacon : ¬(r.2.fcf.frameVersion < ieee802154v2015 ∨ r.2.fcf.frameType ≠ beaconFrame) := by
    rw [hfcf, hversion, htype]
    decide
  have hlist : ¬r.2.fcf.ieListPresent = 0 := by
    rw [hfcf, hpresent]
    decide
  have hmicLen : (if b.cfg.llsec802154Enabled ∧ frameWithoutMic = false then tschSecurityMicLen r.2
      else 0) = ebMicLen b p frameWithoutMic := by
    rw [hmic, ebMicLen]
  rw [hfst, if_neg (by omega), if_neg hbeacon, if_neg hlist, hmicLen, if_neg (by omega)]
  have hrest : len - ebHdrLen b.cfg.framer p - ebMicLen b p frameWithoutMic =
      (ebIeBytes b.cfg.ie ies).length := by omega
  rw [hrest, hparsed]
  have hmod : (ebHdrLen b.cfg.framer p + (ebIeBytes b.cfg.ie ies).length) % 256 ≠ 0 := by omega
  simp only [if_pos hmod]

/-- **A beacon is updated in place**: only the bytes of the ASN, of the join priority and, with SLA,
of its fields change, and wherever the beacon and the updated one are received, with or without a
MIC, both are parsed with the same header and the same elements, but for the new values in the
fields. -/
theorem eb_update (b : EbBuild w) (s₀ : EbSender w) (mem : ℕ → Byte) (eb : CreatedEb)
    (hcreate : tschPacketCreateEbFrame b s₀ mem = some eb) (s : TschNode w) :
    let r := updateEb b.cfg.ie s eb
    r.2 = true ∧ (∀ i, ¬EbField b.cfg.ie eb.tschSyncIeOffset.toNat i → r.1 i = eb.mem i) ∧
      ∃ p, ebHeader b s₀ = some p ∧ ∀ (received received' : ℕ → Byte) (frame : Frame802154)
        (frameWithoutMic : Bool), (∀ i < eb.totLen, received i = eb.mem i) →
          (∀ i < eb.totLen, received' i = r.1 i) →
            let len := eb.totLen + ebMicLen b p frameWithoutMic
            ∃ frame' ies rounds rounds',
              tschPacketParseEb b.cfg rounds received len frame frameWithoutMic =
                some (some (frame', ies)) ∧
              tschPacketParseEb b.cfg rounds' received' len frame frameWithoutMic =
                some (some (frame', withFields b.cfg.ie s ies)) := by
  intro r
  obtain ⟨p, hheader, hcreated, hlayout, htotLen, hroom, hoffset⟩ :=
    tschPacketCreateEbFrame_spec hcreate
  have hcreated' := ebCreated_withFields hcreated s
  have hlength : (ebIeBytes b.cfg.ie (withFields b.cfg.ie s (ebIes b s₀))).length =
      (ebIeBytes b.cfg.ie (ebIes b s₀)).length := by
    rw [ebIeBytes_eq, ebIeBytes_eq, ebPrefix_withFields, restBytes_withFields]
    simp only [List.length_append, length_frontBytes]
  have hsize : packetbufSize = 128 := rfl
  have hfour : 4 ≤ (ebIeBytes b.cfg.ie (ebIes b s₀)).length := by
    rw [ebIeBytes_eq, List.length_append, length_ebPrefix]
    exact Nat.le_add_right _ _
  have hoffset' : eb.tschSyncIeOffset.toNat = ebHdrLen b.cfg.framer p + 4 := by
    rw [hoffset]
    exact Nat.mod_eq_of_lt (by omega)
  obtain ⟨hready, hupdated, hframe⟩ := @updateEb_spec w b.cfg.ie s eb _ _ p hlayout htotLen hoffset'
  refine ⟨hready, hframe, p, hheader,
    fun received received' frame frameWithoutMic hreceived hreceived' => ?_⟩
  rw [htotLen] at hreceived hreceived' hroom ⊢
  have hlayout := hlayout.congr hreceived
  have hupdated := hupdated.congr (by rw [hlength]; exact hreceived')
  obtain ⟨rounds, hparsed⟩ := tschPacketParseEb_spec hheader hcreated hroom hlayout frame
    frameWithoutMic rfl
  obtain ⟨rounds', hparsed'⟩ := tschPacketParseEb_spec hheader hcreated' (by rw [hlength]; exact hroom)
    hupdated frame frameWithoutMic (by rw [hlength])
  have hle : ebHdrLen b.cfg.framer p ≤ ebHdrLen b.cfg.framer p +
      (ebIeBytes b.cfg.ie (ebIes b s₀)).length + ebMicLen b p frameWithoutMic := by omega
  have hsame := (hlayout.read hheader hle frame).2.2.2 _ received' hupdated
  rw [ebParsed_withFields, hsame] at hparsed'
  exact ⟨_, _, rounds, rounds', hparsed, hparsed'⟩

/-- A build with security and SLA, and with timeslot timings and the slotframe in its beacons. -/
def securedEbBuild : EbBuild 16 where
  cfg :=
    { framer := ⟨true, true, true, true⟩
      ie := ⟨true, true, true, true, 16⟩
      llsec802154Enabled := true
      tschJoinSecuredOnly := true
      tschJoinMyPanidOnly := true
      ieee802154Panid := 0xabcd
      tschInitScheduleFromEb := true
      tschScheduleWith6tischMinimal := true
      tschScheduleDefaultLength := 7
      tschScheduleMaxSlotframes := 4
      tschMaxJoinPriority := 32
      usToRtimerticks := id
      tschDefaultTimingUs := fun _ => 10000
      tschDefaultHoppingSequence := [20]
      hoppingSequence_ne := by decide
      timeslotLength_ne := by decide }
  usesFrameCounter := false
  frame802154SupprSeqno := 0
  tschPacketEbWithTimeslotTiming := true
  tschPacketEbWithHoppingSequence := false
  tschPacketEbWithSlotframeAndLink := true
  rtimerticksToUs := id
  tschSecurityKeySecLevelEb := 1
  tschSecurityKeyIndexEb := 1
  secLevel_lt := by decide

/-- A coordinator of a secured PAN. -/
def securedEbSender : EbSender 16 where
  node :=
    { tschIsAssociated := true
      tschIsPanSecured := 1
      panId := 0xabcd
      tschCurrentAsn := ⟨5, 0⟩
      tschJoinPriority := 0
      timeSource := none
      tschTimingUs := fun _ => 10000
      tschTiming := fun _ => 10000
      tschHoppingSequence := fun _ => 20
      tschHoppingSequenceLength := .init 1
      slaTriggeringAsn := ⟨0, 0⟩
      slaNextTimeslotLength := 10000
      slotframeList := [] }
  macDsn := 7
  linkaddrNodeAddr := fun i => BitVec.ofNat 8 i
  minimalCell := some ⟨0, 7, 0, 0, 15⟩

theorem eb_update_secured : ∃ eb, tschPacketCreateEbFrame securedEbBuild securedEbSender 0 = some eb ∧
    (updateEb securedEbBuild.cfg.ie securedEbSender.node eb).2 = true := by
  obtain ⟨eb, hcreate⟩ := Option.isSome_iff_exists.mp
    (rfl : (tschPacketCreateEbFrame securedEbBuild securedEbSender 0).isSome = true)
  exact ⟨eb, hcreate, (eb_update _ _ _ _ hcreate securedEbSender.node).1⟩

end Asap.Tsch
