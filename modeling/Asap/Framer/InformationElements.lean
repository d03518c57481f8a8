import Asap.Lib.Read
import Asap.Tsch.Asn

/-!
# Information elements

Behind the header of a frame there may be information elements: those of the header, and
payload elements, one of which nests elements of the MLME. `frame802154e_parse_information_elements`
goes over them with one cursor and a counter of the bytes that remain, which has eight
bits. What it reads is a computation over the memory behind the start of the elements.

## Main definitions

* `Ieee802154Ies` — what is in the elements that are supported.
* `parseHeaderIe`, `parseMlmeShortIe`, `parseMlmeLongIe` — one element is read.
* `ParseCursor`, `parseElement` — one round of the loop.
* `parseInformationElements` — the loop, for a number of rounds.
-/

namespace Asap.Framer

open Asap.Lib Asap.Tsch

/-- The build. -/
structure IeConfig where
  withUpa : Bool
  withSla : Bool
  withSixtop : Bool
  upaTripleCca : Bool
  hoppingSequenceMaxLen : ℕ

/-- `tsch_ts_elements_count` -/
def IeConfig.tsElementsCount (cfg : IeConfig) : ℕ := if cfg.upaTripleCca then 13 else 12

/-- `struct tsch_slotframe_and_links_link` -/
structure TschSlotframeAndLinksLink where
  timeslot : BitVec 16
  channelOffset : BitVec 16
  linkOptions : Byte

/-- `struct tsch_slotframe_and_links` -/
structure TschSlotframeAndLinks where
  numSlotframes : Byte
  slotframeHandle : Byte
  slotframeSize : BitVec 16
  numLinks : Byte
  links : ℕ → TschSlotframeAndLinksLink

/-- `struct ieee802154_ies`; the content of a 6top element is given by its offset. -/
structure Ieee802154Ies where
  ieUpaInfo : BitVec 16
  ieTimeCorrection : BitVec 16
  ieIsNack : Byte
  iePayloadIeOffset : Byte
  ieMlmeLen : BitVec 16
  ieSlaTriggeringAsn : TschAsn
  ieSlaCurrTimeslotLen : BitVec 16
  ieSlaNextTimeslotLen : BitVec 16
  ieAsn : TschAsn
  ieJoinPriority : Byte
  ieTschTimeslotId : Byte
  ieTschTimeslot : ℕ → BitVec 16
  ieTschSlotframeAndLink : TschSlotframeAndLinks
  ieChannelHoppingSequenceId : Byte
  ieHoppingSequenceLen : BitVec 16
  ieHoppingSequenceList : ℕ → Byte
  sixtopIeContentPtr : Option ℕ
  sixtopIeContentLen : BitVec 16

/-! ## Identifiers -/

/-- `HEADER_IE_UPA_INFO` -/
def headerIeUpaInfo : ℕ := 0x01

/-- `HEADER_IE_ACK_NACK_TIME_CORRECTION` -/
def headerIeAckNackTimeCorrection : ℕ := 0x1e

/-- `HEADER_IE_LIST_TERMINATION_1` -/
def headerIeListTermination1 : ℕ := 0x7e

/-- `HEADER_IE_LIST_TERMINATION_2` -/
def headerIeListTermination2 : ℕ := 0x7f

/-- `PAYLOAD_IE_MLME` -/
def payloadIeMlme : ℕ := 0x1

/-- `PAYLOAD_IE_IETF` -/
def payloadIeIetf : ℕ := 0x5

/-- `PAYLOAD_IE_LIST_TERMINATION` -/
def payloadIeListTermination : ℕ := 0xf

/-- `MLME_SHORT_IE_TSCH_SLA_TRIGGERING_ASN` -/
def mlmeShortIeTschSlaTriggeringAsn : ℕ := 0x10

/-- `MLME_SHORT_IE_TSCH_SLA_TIMESLOT_LEN` -/
def mlmeShortIeTschSlaTimeslotLen : ℕ := 0x11

/-- `MLME_SHORT_IE_TSCH_SYNCHRONIZATION` -/
def mlmeShortIeTschSynchronization : ℕ := 0x1a

/-- `MLME_SHORT_IE_TSCH_SLOFTRAME_AND_LINK` -/
def mlmeShortIeTschSlotframeAndLink : ℕ := 0x1b

/-- `MLME_SHORT_IE_TSCH_TIMESLOT` -/
def mlmeShortIeTschTimeslot : ℕ := 0x1c

/-- `MLME_LONG_IE_TSCH_CHANNEL_HOPPING_SEQUENCE` -/
def mlmeLongIeTschChannelHoppingSequence : ℕ := 0x9

/-- `SIXTOP_SUBIE_ID`, which is `IETF_IE_6TOP`. -/
def sixtopSubieId : Byte := 0xc9

/-- `FRAME802154E_IE_MAX_LINKS` -/
def frame802154eIeMaxLinks : ℕ := 4

/-! ## Descriptors -/

section

variable (ieDesc : BitVec 16)

/-- The type of an element, bit 15 of its descriptor. -/
def ieType : Bool := ieDesc &&& 0x8000#16 ≠ 0

/-- The length in the descriptor of a header element. -/
def headerLen : ℕ := (ieDesc &&& 0x007f#16).toNat

/-- The identifier in the descriptor of a header element. -/
def headerId : ℕ := ((ieDesc &&& 0x7f80#16) >>> 7).toNat

/-- The length in the descriptor of a short element of the MLME. -/
def shortLen : ℕ := (ieDesc &&& 0x00ff#16).toNat

/-- The identifier in the descriptor of a short element of the MLME. -/
def shortId : ℕ := ((ieDesc &&& 0x7f00#16) >>> 8).toNat

/-- The length in the descriptor of a payload element or a long element of the MLME. -/
def longLen : ℕ := (ieDesc &&& 0x07ff#16).toNat

/-- The identifier in the descriptor of a payload element or a long element of the MLME. -/
def longId : ℕ := ((ieDesc &&& 0x7800#16) >>> 11).toNat

end

/-! ## One element -/

/-- `frame802154e_parse_header_ie`; `none` when it returns -1. -/
def parseHeaderIe (cfg : IeConfig) (buf len elementId : ℕ) (ies : Ieee802154Ies) :
    Read (Option Ieee802154Ies) :=
  if elementId = headerIeUpaInfo ∧ cfg.withUpa then
    if len = 2 then do
      let upaInfo ← Read.word buf
      return some { ies with ieUpaInfo := upaInfo }
    else return none
  else if elementId = headerIeAckNackTimeCorrection then
    if len = 2 then do
      let timeSyncField ← Read.word buf
      return some { ies with
        ieIsNack := if timeSyncField &&& 0x8000#16 ≠ 0 then 1 else 0
        -- twelve bits with a sign
        ieTimeCorrection :=
          if timeSyncField &&& 0x0800#16 ≠ 0 then timeSyncField ||| 0xf000#16
          else timeSyncField &&& 0x0fff#16 }
    else return none
  else return none

/-- An ASN, its low word first. -/
def readAsn (buf : ℕ) : Read TschAsn := do
  let b0 ← Read.byte buf
  let b1 ← Read.byte (buf + 1)
  let b2 ← Read.byte (buf + 2)
  let b3 ← Read.byte (buf + 3)
  let ms1b ← Read.byte (buf + 4)
  return ⟨b0.setWidth 32 ||| b1.setWidth 32 <<< 8 ||| b2.setWidth 32 <<< 16 |||
    b3.setWidth 32 <<< 24, ms1b⟩

/-- A link in the element for slotframes and links. -/
def readLink (buf : ℕ) : Read TschSlotframeAndLinksLink := do
  let timeslot ← Read.word buf
  let channelOffset ← Read.word (buf + 2)
  let linkOptions ← Read.byte (buf + 4)
  return ⟨timeslot, channelOffset, linkOptions⟩

/-- The element for slotframes and links. The number of links is read before there is known
to be a slotframe. -/
def parseSlotframeAndLink (buf len : ℕ) (ies : Ieee802154Ies) : Read (Option Ieee802154Ies) :=
  if 1 ≤ len then do
    let numSlotframes ← Read.byte buf
    let numLinks ← Read.byte (buf + 4)
    if numSlotframes = 0 then return some ies
    else if numSlotframes.toNat ≤ 1 ∧ numLinks.toNat ≤ frame802154eIeMaxLinks ∧
        len = 1 + numSlotframes.toNat * (4 + 5 * numLinks.toNat) then do
      let slotframeHandle ← Read.byte (buf + 1)
      let slotframeSize ← Read.word (buf + 2)
      let links ← Read.gather numLinks.toNat (fun i => readLink (buf + 5 + i * 5))
        ies.ieTschSlotframeAndLink.links
      return some { ies with
        ieTschSlotframeAndLink := ⟨numSlotframes, slotframeHandle, slotframeSize, numLinks, links⟩ }
    else return none
  else return none

/-- The element for the timing of a timeslot: an identifier, or everything. -/
def parseTimeslot (cfg : IeConfig) (buf len : ℕ) (ies : Ieee802154Ies) :
    Read (Option Ieee802154Ies) :=
  if len = 1 ∨ len = 25 then do
    let timeslotId ← Read.byte buf
    let ies := { ies with ieTschTimeslotId := timeslotId }
    if len = 25 then do
      let timeslot ← Read.gather cfg.tsElementsCount (fun i => Read.word (buf + 1 + 2 * i))
        ies.ieTschTimeslot
      return some { ies with ieTschTimeslot := timeslot }
    else return some ies
  else return none

/-- `frame802154e_parse_mlme_short_ie`; `none` when it returns -1. -/
def parseMlmeShortIe (cfg : IeConfig) (buf len subId : ℕ) (ies : Ieee802154Ies) :
    Read (Option Ieee802154Ies) :=
  if subId = mlmeShortIeTschSlotframeAndLink then parseSlotframeAndLink buf len ies
  else if subId = mlmeShortIeTschSynchronization then
    if len = 6 then do
      let asn ← readAsn buf
      let joinPriority ← Read.byte (buf + 5)
      return some { ies with ieAsn := asn, ieJoinPriority := joinPriority }
    else return none
  else if subId = mlmeShortIeTschTimeslot then parseTimeslot cfg buf len ies
  else if subId = mlmeShortIeTschSlaTriggeringAsn ∧ cfg.withSla then
    if len = 5 then do
      let asn ← readAsn buf
      return some { ies with ieSlaTriggeringAsn := asn }
    else return none
  else if subId = mlmeShortIeTschSlaTimeslotLen ∧ cfg.withSla then
    if len = 4 then do
      let currTimeslotLen ← Read.word buf
      let nextTimeslotLen ← Read.word (buf + 2)
      return some { ies with
        ieSlaCurrTimeslotLen := currTimeslotLen, ieSlaNextTimeslotLen := nextTimeslotLen }
    else return none
  else return none

/-- `frame802154e_parse_mlme_long_ie`; `none` when it returns -1. The length of the sequence
is kept even if it does not fit, the sequence then is not. -/
def parseMlmeLongIe (cfg : IeConfig) (buf len subId : ℕ) (ies : Ieee802154Ies) :
    Read (Option Ieee802154Ies) :=
  if subId = mlmeLongIeTschChannelHoppingSequence then
    if 0 < len then do
      let hoppingSequenceId ← Read.byte buf
      let ies := { ies with ieChannelHoppingSequenceId := hoppingSequenceId }
      if 1 < len then do
        let sequenceLen ← Read.word (buf + 8)
        let ies := { ies with ieHoppingSequenceLen := sequenceLen }
        if sequenceLen.toNat ≤ cfg.hoppingSequenceMaxLen ∧ len = 12 + sequenceLen.toNat then do
          let sequenceList ← Read.gather sequenceLen.toNat (fun i => Read.byte (buf + 10 + i))
            ies.ieHoppingSequenceList
          return some { ies with ieHoppingSequenceList := sequenceList }
        else return some ies
      else return some ies
    else return none
  else return none

/-! ## The loop -/

/-- `parsing_state` -/
inductive ParsingState where
  | headerIe
  | payloadIe
  | mlmeSubie
deriving DecidableEq

/-- The variables of the loop: the offset `buf - start`, and the bytes that remain. -/
structure ParseCursor where
  buf : ℕ
  bufSize : ℕ
  parsingState : ParsingState
  nestedMlmeLen : ℤ
  ies : Ieee802154Ies

/-- How a round of the loop ends: with another one, or with what the function returns. -/
inductive ParseStep where
  | more (c : ParseCursor)
  | done (len : ℕ) (ies : Ieee802154Ies)
  | fail

/-- A counter of eight bits, decreased. -/
def subUint8 (bufSize len : ℕ) : ℕ := (bufSize + 256 - len % 256) % 256

/-- `buf += len; buf_size -= len` -/
def ParseCursor.advance (c : ParseCursor) (len : ℕ) : ParseCursor :=
  { c with buf := c.buf + len, bufSize := subUint8 c.bufSize len }

/-- The offset of the payload elements is that of the cursor. -/
def ParseCursor.savePayloadIeOffset (c : ParseCursor) : Ieee802154Ies :=
  { c.ies with iePayloadIeOffset := BitVec.ofNat 8 c.buf }

/-- A header element, whose descriptor is read. -/
def parseHeaderElement (cfg : IeConfig) (ieDesc : BitVec 16) (c : ParseCursor) : Read ParseStep :=
  if ieType ieDesc then return .fail
  else
    let len := headerLen ieDesc
    let id := headerId ieDesc
    if id = headerIeListTermination1 then
      if len = 0 then
        return .more { c with parsingState := .payloadIe, ies := c.savePayloadIeOffset }
      else return .fail
    else if id = headerIeListTermination2 then
      if len = 0 then return .done (c.buf + len) c.savePayloadIeOffset
      else return .fail
    else if c.bufSize < len then return .fail
    else do
      match ← parseHeaderIe cfg c.buf len id c.ies with
      | none => return .fail
      | some ies => return .more { c.advance len with ies := ies }

/-- A payload element, whose descriptor is read. Its length is not compared with the bytes
that remain. -/
def parsePayloadElement (cfg : IeConfig) (ieDesc : BitVec 16) (c : ParseCursor) : Read ParseStep :=
  if !ieType ieDesc then return .fail
  else
    let len := longLen ieDesc
    let id := longId ieDesc
    if id = payloadIeMlme then
      return .more { c with parsingState := .mlmeSubie, nestedMlmeLen := len }
    else if id = payloadIeIetf ∧ cfg.withSixtop then do
      let subId ← Read.byte c.buf
      let ies :=
        if subId = sixtopSubieId then
          { c.ies with
            sixtopIeContentPtr := some (c.buf + 1)
            sixtopIeContentLen := BitVec.ofNat 16 len - 1 }
        else c.ies
      return .more { c.advance len with ies := ies }
    else if id = payloadIeListTermination then
      if len = 0 then return .done (c.buf + len) c.ies else return .fail
    else return .fail

/-- The rest of a round for an element of the MLME. -/
def finishMlmeSubie (c : ParseCursor) (len : ℕ) : Option Ieee802154Ies → ParseStep
  | none => .fail
  | some ies =>
    let nestedMlmeLen := c.nestedMlmeLen - (2 + len)
    if nestedMlmeLen < 0 then .fail
    else .more { c.advance len with
      ies := ies
      nestedMlmeLen := nestedMlmeLen
      parsingState := if nestedMlmeLen = 0 then .payloadIe else c.parsingState }

/-- An element of the MLME, whose descriptor is read. -/
def parseMlmeSubie (cfg : IeConfig) (ieDesc : BitVec 16) (c : ParseCursor) : Read ParseStep :=
  if !ieType ieDesc then
    let len := shortLen ieDesc
    if c.bufSize < len then return .fail
    else return finishMlmeSubie c len (← parseMlmeShortIe cfg c.buf len (shortId ieDesc) c.ies)
  else
    let len := longLen ieDesc
    if c.bufSize < len then return .fail
    else return finishMlmeSubie c len (← parseMlmeLongIe cfg c.buf len (longId ieDesc) c.ies)

/-- A round of the loop, while bytes remain. -/
def parseElement (cfg : IeConfig) (c : ParseCursor) : Read ParseStep :=
  if c.bufSize < 2 then return .fail
  else do
    let ieDesc ← Read.word c.buf
    let c := c.advance 2
    match c.parsingState with
    | .headerIe => parseHeaderElement cfg ieDesc c
    | .payloadIe => parsePayloadElement cfg ieDesc c
    | .mlmeSubie => parseMlmeSubie cfg ieDesc c

/-- The result when no bytes remain. -/
def ParseCursor.finish (c : ParseCursor) : ℕ × Ieee802154Ies :=
  (c.buf, if c.parsingState = .headerIe then c.savePayloadIeOffset else c.ies)

/-- The loop: `none` when the rounds do not suffice, `some none` when it returns -1. -/
def parseLoop (cfg : IeConfig) : ℕ → ParseCursor → Read (Option (Option (ℕ × Ieee802154Ies)))
  | 0, _ => return none
  | rounds + 1, c =>
    if c.bufSize = 0 then return some (some c.finish)
    else do
      match ← parseElement cfg c with
      | .fail => return some none
      | .done len ies => return some (some (len, ies))
      | .more c => parseLoop cfg rounds c

/-- The cursor at the start. -/
def ParseCursor.start (bufSize : Byte) (ies : Ieee802154Ies) : ParseCursor where
  buf := 0
  bufSize := bufSize.toNat
  parsingState := .headerIe
  nestedMlmeLen := 0
  ies := { ies with iePayloadIeOffset := 0 }

/-- `frame802154e_parse_information_elements`, for a number of rounds. -/
def parseInformationElements (cfg : IeConfig) (rounds : ℕ) (bufSize : Byte) (ies : Ieee802154Ies) :
    Read (Option (Option (ℕ × Ieee802154Ies))) :=
  parseLoop cfg rounds (ParseCursor.start bufSize ies)

end Asap.Framer
