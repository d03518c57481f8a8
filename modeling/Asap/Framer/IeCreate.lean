import Asap.Framer.InformationElements

/-!
# Information elements are created

A creator of an element is given the room that is left. It writes bytes from the start of
the element on, and returns a length, which is where the next element is written: the bytes
and the length are kept apart, since they need not agree.

## Main definitions

* `IeCreator` — a creator, with the functions `frame80215e_create_ie_*`.
* `createAll` — elements are created one behind the other.
* `tschPacketCreateEb`, `tschPacketCreateEack`, `sixtopOutput` — the elements of a beacon, of
  an acknowledgement and of a 6top message.
-/

namespace Asap.Framer

open Asap.Lib Asap.Tsch

/-- A creator, given the room that is left: the bytes it writes and the length it returns;
`none` when it returns -1. -/
abbrev IeCreator := ℤ → Ieee802154Ies → Option (List Byte × ℕ)

/-! ## Descriptors -/

/-- `create_header_ie_descriptor` -/
def createHeaderIeDescriptor (elementId ieLen : ℕ) : List Byte :=
  le16 ((BitVec.ofNat 16 ieLen &&& 0x7f#16) + (BitVec.ofNat 16 elementId &&& 0xff#16) <<< 7)

/-- `create_payload_ie_descriptor` -/
def createPayloadIeDescriptor (groupId ieLen : ℕ) : List Byte :=
  le16 ((BitVec.ofNat 16 ieLen &&& 0x07ff#16) + (BitVec.ofNat 16 groupId &&& 0x0f#16) <<< 11 +
    0x8000#16)

/-- `create_mlme_short_ie_descriptor` -/
def createMlmeShortIeDescriptor (subId ieLen : ℕ) : List Byte :=
  le16 ((BitVec.ofNat 16 ieLen &&& 0xff#16) + (BitVec.ofNat 16 subId &&& 0x7f#16) <<< 8)

/-- `create_mlme_long_ie_descriptor` -/
def createMlmeLongIeDescriptor (subId ieLen : ℕ) : List Byte :=
  le16 ((BitVec.ofNat 16 ieLen &&& 0x07ff#16) + (BitVec.ofNat 16 subId &&& 0x0f#16) <<< 11 +
    0x8000#16)

/-! ## Creators -/

/-- An element is written when there is room for its length. -/
def createIe (len : ℤ) (ieLen : ℕ) (bs : List Byte) : Option (List Byte × ℕ) :=
  if (2 + ieLen : ℤ) ≤ len then some (bs, 2 + ieLen) else none

/-- `frame80215e_create_ie_header_upa_info` -/
def createIeHeaderUpaInfo : IeCreator := fun len ies =>
  createIe len 2 (createHeaderIeDescriptor headerIeUpaInfo 2 ++ le16 ies.ieUpaInfo)

/-- The field of a time correction: twelve bits, and whether it is a NACK. -/
def timeSyncField (ies : Ieee802154Ies) : BitVec 16 :=
  (ies.ieTimeCorrection &&& 0x0fff#16) ||| if ies.ieIsNack ≠ 0 then 0x8000#16 else 0

/-- `frame80215e_create_ie_header_ack_nack_time_correction` -/
def createIeHeaderAckNackTimeCorrection : IeCreator := fun len ies =>
  createIe len 2
    (createHeaderIeDescriptor headerIeAckNackTimeCorrection 2 ++ le16 (timeSyncField ies))

/-- `frame80215e_create_ie_header_list_termination_1` -/
def createIeHeaderListTermination1 : IeCreator := fun len _ =>
  createIe len 0 (createHeaderIeDescriptor headerIeListTermination1 0)

/-- `frame80215e_create_ie_payload_list_termination` -/
def createIePayloadListTermination : IeCreator := fun len _ =>
  createIe len 0 (createPayloadIeDescriptor payloadIeListTermination 0)

/-- `frame80215e_create_ie_ietf`: the descriptor of an element whose content is there. -/
def createIeIetf : IeCreator := fun len ies =>
  if 2 ≤ len then
    some (createPayloadIeDescriptor payloadIeIetf ies.sixtopIeContentLen.toNat,
      2 + ies.sixtopIeContentLen.toNat)
  else none

/-- `frame80215e_create_ie_mlme`: the descriptor of the element that nests the others. -/
def createIeMlme : IeCreator := fun len ies =>
  createIe len 0 (createPayloadIeDescriptor payloadIeMlme ies.ieMlmeLen.toNat)

/-- An ASN, its low word first. -/
def asnBytes (asn : TschAsn) : List Byte :=
  [asn.ls4b.setWidth 8, (asn.ls4b >>> 8).setWidth 8, (asn.ls4b >>> 16).setWidth 8,
    (asn.ls4b >>> 24).setWidth 8, asn.ms1b]

/-- `frame80215e_create_ie_tsch_synchronization` -/
def createIeTschSynchronization : IeCreator := fun len ies =>
  createIe len 6 (createMlmeShortIeDescriptor mlmeShortIeTschSynchronization 6 ++
    asnBytes ies.ieAsn ++ [ies.ieJoinPriority])

/-- `frame80215e_create_ie_tsch_sla_triggering_asn` -/
def createIeTschSlaTriggeringAsn : IeCreator := fun len ies =>
  createIe len 5 (createMlmeShortIeDescriptor mlmeShortIeTschSlaTriggeringAsn 5 ++
    asnBytes ies.ieSlaTriggeringAsn)

/-- `frame80215e_create_ie_tsch_sla_timeslot_len` -/
def createIeTschSlaTimeslotLen : IeCreator := fun len ies =>
  createIe len 4 (createMlmeShortIeDescriptor mlmeShortIeTschSlaTimeslotLen 4 ++
    le16 ies.ieSlaCurrTimeslotLen ++ le16 ies.ieSlaNextTimeslotLen)

/-- A link in the element for slotframes and links. -/
def linkBytes (link : TschSlotframeAndLinksLink) : List Byte :=
  le16 link.timeslot ++ le16 link.channelOffset ++ [link.linkOptions]

/-- `frame80215e_create_ie_tsch_slotframe_and_link` -/
def createIeTschSlotframeAndLink : IeCreator := fun len ies =>
  let sf := ies.ieTschSlotframeAndLink
  let ieLen := 1 + sf.numSlotframes.toNat * (4 + 5 * sf.numLinks.toNat)
  if 1 < sf.numSlotframes.toNat ∨ frame802154eIeMaxLinks < sf.numLinks.toNat then none
  else
    createIe len ieLen (createMlmeShortIeDescriptor mlmeShortIeTschSlotframeAndLink ieLen ++
      [sf.numSlotframes] ++
      if sf.numSlotframes = 1 then
        [sf.slotframeHandle] ++ le16 sf.slotframeSize ++ [sf.numLinks] ++
          (List.range sf.numLinks.toNat).flatMap fun i => linkBytes (sf.links i)
      else [])

/-- `frame80215e_create_ie_tsch_timeslot`: the identifier, or everything that the build has,
with a length that does not depend on the build. -/
def createIeTschTimeslot (cfg : IeConfig) : IeCreator := fun len ies =>
  let ieLen := if ies.ieTschTimeslotId = 0 then 1 else 25
  createIe len ieLen (createMlmeShortIeDescriptor mlmeShortIeTschTimeslot ieLen ++
    [ies.ieTschTimeslotId] ++
    if ies.ieTschTimeslotId ≠ 0 then
      (List.range cfg.tsElementsCount).flatMap fun i => le16 (ies.ieTschTimeslot i)
    else [])

/-- `frame80215e_create_ie_tsch_channel_hopping_sequence`: everything is written, also when
the length is that of the identifier. -/
def createIeTschChannelHoppingSequence (cfg : IeConfig) : IeCreator := fun len ies =>
  let sequenceLen := ies.ieHoppingSequenceLen.toNat
  if cfg.hoppingSequenceMaxLen < sequenceLen then none
  else
    let ieLen := if ies.ieChannelHoppingSequenceId = 0 then 1 else 12 + sequenceLen
    createIe len ieLen (createMlmeLongIeDescriptor mlmeLongIeTschChannelHoppingSequence ieLen ++
      [ies.ieChannelHoppingSequenceId, 0, 0, 0, 0, 0, 0, 0] ++ le16 ies.ieHoppingSequenceLen ++
      (List.range sequenceLen).map ies.ieHoppingSequenceList ++ [0, 0])

/-! ## Frames -/

/-- Elements are created one behind the other, each where the length returned by the one
before it ends. -/
def createAll (room : ℤ) (ies : Ieee802154Ies) :
    List IeCreator → (ℕ → Byte) → ℕ → Option ((ℕ → Byte) × ℕ)
  | [], mem, pos => some (mem, pos)
  | create :: creates, mem, pos =>
    match create (room - pos) ies with
    | none => none
    | some (bs, n) => createAll room ies creates (store mem pos bs) (pos + n)

/-- The elements of an acknowledgement. -/
def eackElements (cfg : IeConfig) : List IeCreator :=
  (if cfg.withUpa then [createIeHeaderUpaInfo] else []) ++ [createIeHeaderAckNackTimeCorrection]

/-- The elements of `tsch_packet_create_eack`, behind the header. -/
def tschPacketCreateEack (cfg : IeConfig) (room : ℤ) (mem : ℕ → Byte) (ies : Ieee802154Ies) :
    Option ((ℕ → Byte) × ℕ) :=
  createAll room ies (eackElements cfg) mem 0

/-- `PACKETBUF_SIZE` -/
def packetbufSize : ℕ := 128

/-- The elements of a beacon that are nested in that of the MLME. -/
def ebElements (cfg : IeConfig) : List IeCreator :=
  [createIeTschSynchronization] ++
    (if cfg.withSla then [createIeTschSlaTriggeringAsn, createIeTschSlaTimeslotLen] else []) ++
    [createIeTschTimeslot cfg, createIeTschChannelHoppingSequence cfg, createIeTschSlotframeAndLink]

/-- The elements of `tsch_packet_create_eb`: those of the MLME first, which move up twice. -/
def tschPacketCreateEb (cfg : IeConfig) (mem : ℕ → Byte) (ies : Ieee802154Ies) :
    Option ((ℕ → Byte) × ℕ) :=
  match createAll packetbufSize ies (ebElements cfg) mem 0 with
  | none => none
  | some (mem, mlmeLen) =>
    let ies := { ies with ieMlmeLen := BitVec.ofNat 16 mlmeLen }
    match createIeMlme (packetbufSize - (mlmeLen + 2)) ies,
      createIeHeaderListTermination1 (packetbufSize - (mlmeLen + 4)) ies with
    | some (mlme, _), some (termination, _) =>
      let mem := store (shift mem 2 mlmeLen) 0 mlme
      some (store (shift mem 2 (mlmeLen + 2)) 0 termination, mlmeLen + 4)
    | _, _ => none

/-- The elements that `sixtop_output` puts before a 6P message, and the message. Where there is
no room for them there is none for the header of the frame. -/
def sixtopOutput (withPayloadTermination : Bool) (ies : Ieee802154Ies) (content : List Byte) :
    Option (List Byte) :=
  let ies := { ies with sixtopIeContentLen := BitVec.ofNat 16 (content.length + 1) }
  let terminationLen := if withPayloadTermination then 2 else 0
  if packetbufSize < content.length + 5 + terminationLen then none
  else
    match createIeHeaderListTermination1 2 ies, createIeIetf 2 ies,
      createIePayloadListTermination (packetbufSize - (content.length + 3)) ies with
    | some (termination, _), some (ietf, _), some (payloadTermination, _) =>
      some (termination ++ ietf ++ [sixtopSubieId] ++ content ++
        if withPayloadTermination then payloadTermination else [])
    | _, _, _ => none

end Asap.Framer
