import Asap.Lib.Bytes
import Asap.Tsch.Queue

/-!
# The header of a frame

A frame is described by the fields of its header. What is present depends on the frame
control field: on the address modes, and for the PAN identifiers on a table over version,
address modes and the compression bit. The functions that compute the length, create and
parse a header each look at the fields anew.

The header that `frame802154_create` writes is a list of bytes from the start of the
buffer; `none` is a byte that is skipped, which stays as it is in the buffer.

## Main definitions

* `Frame802154` — a frame description, with its control field and security header.
* `frame802154HasPanid`, `fieldLen`, `frame802154Hdrlen` — what a header has, and its length.
* `frame802154Create`, `frame802154Parse` — a header is written, and read.
* `Consistent` — fields of a description that are not sent have their default values.
* `RoundTrip` — a header is parsed as it was created.
* `round_trip_iff` — when it is.
-/

namespace Asap.Framer

open Asap.Lib List

/-- The build: the piggybacked fields of OST, and the auxiliary security header. -/
structure FramerConfig where
  withOst : Bool
  ostOnDemandProvision : Bool
  usesAuxHeader : Bool
  usesExplicitKeys : Bool

/-- An address in a frame description, always of eight bytes. -/
abbrev FrameAddr := Fin 8 → Byte

/-- `frame802154_fcf_t` -/
structure Frame802154Fcf where
  frameType : Byte
  securityEnabled : Byte
  framePending : Byte
  ackRequired : Byte
  panidCompression : Byte
  sequenceNumberSuppression : Byte
  ieListPresent : Byte
  destAddrMode : Byte
  frameVersion : Byte
  srcAddrMode : Byte
deriving DecidableEq

/-- `frame802154_scf_t` -/
structure Frame802154Scf where
  securityLevel : Byte
  keyIdMode : Byte
  frameCounterSuppression : Byte
  frameCounterSize : Byte
deriving DecidableEq

/-- `frame802154_aux_hdr_t` -/
structure Frame802154AuxHdr where
  securityControl : Frame802154Scf
  frameCounter : Fin 4 → Byte
  keySource : Fin 8 → Byte
  keyIndex : Byte

/-- `frame802154_t`; the payload is given by its offset in the frame. -/
structure Frame802154 where
  destAddr : FrameAddr
  srcAddr : FrameAddr
  fcf : Frame802154Fcf
  seq : Byte
  destPid : BitVec 16
  srcPid : BitVec 16
  ostPigg1 : BitVec 16
  ostPigg2 : BitVec 16
  auxHdr : Frame802154AuxHdr
  payload : ℕ
  payloadLen : ℤ

/-- `FRAME802154_ACKFRAME` -/
def ackFrame : Byte := 0x02

/-- `FRAME802154_NOADDR` -/
def noAddr : Byte := 0x00

/-- `FRAME802154_SHORTADDRMODE` -/
def shortAddrMode : Byte := 0x02

/-- `FRAME802154_LONGADDRMODE` -/
def longAddrMode : Byte := 0x03

/-- `FRAME802154_IEEE802154_2015` -/
def ieee802154v2015 : Byte := 0x02

/-! ## What a header has -/

/-- `addr_len` -/
def addrLen (mode : Byte) : ℕ :=
  if mode = shortAddrMode then 2 else if mode = longAddrMode then 8 else 0

/-- `get_key_id_len` -/
def getKeyIdLen (keyIdMode : Byte) : ℕ :=
  if keyIdMode = 1 then 1 else if keyIdMode = 2 then 5 else if keyIdMode = 3 then 9 else 0

/-- `frame802154_has_panid`: whether there is a source and a destination PAN identifier. -/
def frame802154HasPanid (fcf : Frame802154Fcf) : Bool × Bool :=
  let dest := fcf.destAddrMode
  let src := fcf.srcAddrMode
  if fcf.frameVersion = ieee802154v2015 then
    (fcf.panidCompression = 0 ∧
        ((dest = noAddr ∧ src = longAddrMode) ∨ (dest = noAddr ∧ src = shortAddrMode) ∨
          (dest = shortAddrMode ∧ src = shortAddrMode) ∨
          (dest = shortAddrMode ∧ src = longAddrMode) ∨
          (dest = longAddrMode ∧ src = shortAddrMode)),
      (dest = noAddr ∧ src = noAddr ∧ fcf.panidCompression = 1) ∨
        (dest ≠ noAddr ∧ src = noAddr ∧ fcf.panidCompression = 0) ∨
        (dest = longAddrMode ∧ src = longAddrMode ∧ fcf.panidCompression = 0) ∨
        (dest = shortAddrMode ∧ src ≠ noAddr) ∨ (dest ≠ noAddr ∧ src = shortAddrMode))
  else if fcf.frameType ≠ ackFrame then
    (fcf.panidCompression = 0 ∧ src &&& 3#8 ≠ 0, dest &&& 3#8 ≠ 0)
  else (false, false)

/-- What `field_len` does to a description: before the 2015 version the compression bit says
that the PAN identifiers are the same. -/
def setCompression (p : Frame802154) : Frame802154 :=
  if p.fcf.frameVersion < ieee802154v2015 then
    { p with
      fcf.panidCompression :=
        if p.fcf.destAddrMode &&& 3#8 ≠ 0 ∧ p.fcf.srcAddrMode &&& 3#8 ≠ 0 ∧ p.srcPid = p.destPid
        then 1 else 0 }
  else p

/-- The length of the auxiliary security header. -/
def auxSecLen (cfg : FramerConfig) (scf : Frame802154Scf) : ℕ :=
  1 + (if scf.frameCounterSuppression = 0 then if scf.frameCounterSize = 1 then 5 else 4 else 0) +
    if cfg.usesExplicitKeys then getKeyIdLen scf.keyIdMode else 0

/-- `field_length_t`; `ostPiggLen` is the length of all fields of OST. -/
structure FieldLength where
  seqnoLen : ℕ
  destPidLen : ℕ
  destAddrLen : ℕ
  srcPidLen : ℕ
  srcAddrLen : ℕ
  auxSecLen : ℕ
  ostPiggLen : ℕ

/-- `field_len`, of a description with its compression bit set. -/
def fieldLen (cfg : FramerConfig) (p : Frame802154) : FieldLength where
  seqnoLen := if p.fcf.sequenceNumberSuppression &&& 1#8 = 0 then 1 else 0
  destPidLen := if (frame802154HasPanid p.fcf).2 then 2 else 0
  destAddrLen := addrLen (p.fcf.destAddrMode &&& 3#8)
  srcPidLen := if (frame802154HasPanid p.fcf).1 then 2 else 0
  srcAddrLen := addrLen (p.fcf.srcAddrMode &&& 3#8)
  auxSecLen :=
    if cfg.usesAuxHeader ∧ p.fcf.securityEnabled &&& 1#8 ≠ 0 then
      auxSecLen cfg p.auxHdr.securityControl
    else 0
  ostPiggLen := if cfg.withOst then if cfg.ostOnDemandProvision then 4 else 2 else 0

/-- `frame802154_hdrlen` -/
def frame802154Hdrlen (cfg : FramerConfig) (p : Frame802154) : ℕ :=
  let flen := fieldLen cfg (setCompression p)
  2 + flen.seqnoLen + flen.destPidLen + flen.destAddrLen + flen.srcPidLen + flen.srcAddrLen +
    flen.auxSecLen + flen.ostPiggLen

/-! ## Creation -/

/-- `frame802154_create_fcf` -/
def frame802154CreateFcf (fcf : Frame802154Fcf) : List Byte :=
  [(fcf.frameType &&& 7#8) ||| (fcf.securityEnabled &&& 1#8) <<< 3 ||| (fcf.framePending &&& 1#8) <<< 4 |||
      (fcf.ackRequired &&& 1#8) <<< 5 ||| (fcf.panidCompression &&& 1#8) <<< 6,
    (fcf.sequenceNumberSuppression &&& 1#8) ||| (fcf.ieListPresent &&& 1#8) <<< 1 |||
      (fcf.destAddrMode &&& 3#8) <<< 2 ||| (fcf.frameVersion &&& 3#8) <<< 4 |||
      (fcf.srcAddrMode &&& 3#8) <<< 6]

/-- The piggybacked fields of OST. -/
def createOst (cfg : FramerConfig) (p : Frame802154) : List Byte :=
  if cfg.withOst then
    le16 p.ostPigg1 ++ if cfg.ostOnDemandProvision then le16 p.ostPigg2 else []
  else []

/-- A PAN identifier of given length. -/
def createPid (len : ℕ) (pid : BitVec 16) : List Byte := if len = 2 then le16 pid else []

/-- An address of given length, its last byte first. -/
def createAddr (len : ℕ) (addr : FrameAddr) : List Byte :=
  (List.range len).reverse.map fun c => addr (Fin.ofNat 8 c)

/-- The security control byte. -/
def createScf (cfg : FramerConfig) (scf : Frame802154Scf) : Byte :=
  scf.securityLevel ||| (if cfg.usesExplicitKeys then scf.keyIdMode <<< 3 else 0) |||
    scf.frameCounterSuppression <<< 5 ||| scf.frameCounterSize <<< 6

/-- The frame counter; the fifth byte of a long one is skipped. -/
def createCounter (aux : Frame802154AuxHdr) : List (Option Byte) :=
  if aux.securityControl.frameCounterSuppression = 0 then
    (List.ofFn aux.frameCounter).map some ++
      if aux.securityControl.frameCounterSize = 1 then [none] else []
  else []

/-- The identifier of the key. -/
def createKeyId (cfg : FramerConfig) (aux : Frame802154AuxHdr) : List Byte :=
  let keyIdMode := aux.securityControl.keyIdMode
  if cfg.usesExplicitKeys ∧ keyIdMode ≠ 0 then
    (List.ofFn aux.keySource).take ((keyIdMode.toNat - 1) * 4) ++ [aux.keyIndex]
  else []

section

variable (cfg : FramerConfig) (p : Frame802154)

/-- The header from its start to the end of the source address. -/
def createMhr : List Byte :=
  let flen := fieldLen cfg p
  frame802154CreateFcf p.fcf ++ createOst cfg p ++ (if flen.seqnoLen = 1 then [p.seq] else []) ++
    createPid flen.destPidLen p.destPid ++ createAddr flen.destAddrLen p.destAddr ++
    createPid flen.srcPidLen p.srcPid ++ createAddr flen.srcAddrLen p.srcAddr

/-- The auxiliary security header. -/
def createAux : List (Option Byte) :=
  if (fieldLen cfg p).auxSecLen ≠ 0 then
    some (createScf cfg p.auxHdr.securityControl) :: createCounter p.auxHdr ++
      (createKeyId cfg p.auxHdr).map some
  else []

/-- `frame802154_create`: the bytes it writes, and the description, in which it sets the
compression bit. -/
def frame802154Create : List (Option Byte) × Frame802154 :=
  let p := setCompression p
  ((createMhr cfg p).map some ++ createAux cfg p, p)

end

/-! ## Parsing -/

/-- `frame802154_parse_fcf` -/
def frame802154ParseFcf (b0 b1 : Byte) : Frame802154Fcf where
  frameType := b0 &&& 7#8
  securityEnabled := (b0 >>> 3) &&& 1#8
  framePending := (b0 >>> 4) &&& 1#8
  ackRequired := (b0 >>> 5) &&& 1#8
  panidCompression := (b0 >>> 6) &&& 1#8
  sequenceNumberSuppression := b1 &&& 1#8
  ieListPresent := (b1 >>> 1) &&& 1#8
  destAddrMode := (b1 >>> 2) &&& 3#8
  frameVersion := (b1 >>> 4) &&& 3#8
  srcAddrMode := (b1 >>> 6) &&& 3#8

/-- An address of a mode, which is that in memory before when the mode is reserved. -/
def parseAddr (mem : ℕ → Byte) (p : ℕ) (mode : Byte) (addr : FrameAddr) : FrameAddr :=
  if mode = shortAddrMode then
    fun i => if i = 0 then mem (p + 1) else if i = 1 then mem p else 0
  else if mode = longAddrMode then fun i => mem (p + (7 - i))
  else addr

/-- The piggybacked fields of OST. -/
def parseOst (cfg : FramerConfig) (mem : ℕ → Byte) (p : ℕ) (pf : Frame802154) : ℕ × Frame802154 :=
  if cfg.withOst then
    let pf := { pf with ostPigg1 := read16 mem p }
    if cfg.ostOnDemandProvision then (p + 4, { pf with ostPigg2 := read16 mem (p + 2) })
    else (p + 2, pf)
  else (p, pf)

section

variable (mem : ℕ → Byte) (p : ℕ) (pf : Frame802154)

/-- The sequence number. -/
def parseSeq : ℕ × Frame802154 :=
  if pf.fcf.sequenceNumberSuppression = 0 then (p + 1, { pf with seq := mem p }) else (p, pf)

/-- The destination PAN identifier and address. -/
def parseDest : ℕ × Frame802154 :=
  let mode := pf.fcf.destAddrMode
  if mode ≠ 0 then
    let (p, pf) :=
      if (frame802154HasPanid pf.fcf).2 then (p + 2, { pf with destPid := read16 mem p })
      else (p, { pf with destPid := 0 })
    (p + addrLen mode, { pf with destAddr := parseAddr mem p mode pf.destAddr })
  else (p, { pf with destAddr := 0, destPid := 0 })

/-- The source PAN identifier and address. -/
def parseSrc : ℕ × Frame802154 :=
  let mode := pf.fcf.srcAddrMode
  if mode ≠ 0 then
    let (hasSrc, hasDest) := frame802154HasPanid pf.fcf
    let (p, pf) :=
      if hasSrc then
        let srcPid := read16 mem p
        (p + 2, { pf with srcPid := srcPid, destPid := if hasDest then pf.destPid else srcPid })
      else (p, { pf with srcPid := pf.destPid })
    (p + addrLen mode, { pf with srcAddr := parseAddr mem p mode pf.srcAddr })
  else (p, { pf with srcAddr := 0, srcPid := 0 })

end

/-- The security control byte; the key identifier mode is read with explicit keys only. -/
def parseScf (cfg : FramerConfig) (b : Byte) (scf : Frame802154Scf) : Frame802154Scf where
  securityLevel := b &&& 7#8
  keyIdMode := if cfg.usesExplicitKeys then (b >>> 3) &&& 3#8 else scf.keyIdMode
  frameCounterSuppression := b >>> 5
  frameCounterSize := b >>> 6

/-- The auxiliary security header. -/
def parseAux (cfg : FramerConfig) (mem : ℕ → Byte) (p : ℕ) (pf : Frame802154) : ℕ × Frame802154 :=
  if cfg.usesAuxHeader ∧ pf.fcf.securityEnabled ≠ 0 then
    let scf := parseScf cfg (mem p) pf.auxHdr.securityControl
    let aux := { pf.auxHdr with securityControl := scf }
    let p := p + 1
    let (p, aux) :=
      if scf.frameCounterSuppression = 0 then
        (if scf.frameCounterSize = 1 then p + 5 else p + 4,
          { aux with frameCounter := fun i => mem (p + i) })
      else (p, aux)
    if cfg.usesExplicitKeys ∧ scf.keyIdMode ≠ 0 then
      let c := (scf.keyIdMode.toNat - 1) * 4
      (p + c + 1, { pf with
        auxHdr := { aux with
          keySource := fun i => if i < c then mem (p + i) else aux.keySource i
          keyIndex := mem (p + c) } })
    else (p, { pf with auxHdr := aux })
  else (p, pf)

/-- `frame802154_parse`: the length of the header, zero when it does not succeed, and the
description, which is written over that of another frame. -/
def frame802154Parse (cfg : FramerConfig) (mem : ℕ → Byte) (len : ℕ) (pf : Frame802154) :
    ℕ × Frame802154 :=
  if len < 2 then (0, pf)
  else
    let pf := { pf with fcf := frame802154ParseFcf (mem 0) (mem 1) }
    let (p, pf) := parseOst cfg mem 2 pf
    let (p, pf) := parseSeq mem p pf
    let (p, pf) := parseDest mem p pf
    let (p, pf) := parseSrc mem p pf
    let (c, pf) := parseAux cfg mem p pf
    (if len < c then 0 else c, { pf with payload := c, payloadLen := (len : ℤ) - c })

/-! ## Round trip -/

/-- The modes of an address: none, short or long. -/
def AddrMode (mode : Byte) : Prop := mode = noAddr ∨ mode = shortAddrMode ∨ mode = longAddrMode

/-- The fields fit their bits, and the address modes are not the reserved one. -/
structure InRange (p : Frame802154) : Prop where
  frameType : p.fcf.frameType < 8
  securityEnabled : p.fcf.securityEnabled < 2
  framePending : p.fcf.framePending < 2
  ackRequired : p.fcf.ackRequired < 2
  panidCompression : p.fcf.panidCompression < 2
  sequenceNumberSuppression : p.fcf.sequenceNumberSuppression < 2
  ieListPresent : p.fcf.ieListPresent < 2
  frameVersion : p.fcf.frameVersion < 4
  destAddrMode : AddrMode p.fcf.destAddrMode
  srcAddrMode : AddrMode p.fcf.srcAddrMode
  securityLevel : p.auxHdr.securityControl.securityLevel < 8
  keyIdMode : p.auxHdr.securityControl.keyIdMode < 4
  frameCounterSuppression : p.auxHdr.securityControl.frameCounterSuppression < 2
  frameCounterSize : p.auxHdr.securityControl.frameCounterSize < 2

/-- Addresses are zero beyond their length, and a PAN identifier that is not sent is the
other one where the address it belongs to is present, and zero otherwise. -/
structure Consistent (p : Frame802154) : Prop where
  inRange : InRange p
  destAddr : ∀ i : Fin 8, addrLen p.fcf.destAddrMode ≤ i → p.destAddr i = 0
  srcAddr : ∀ i : Fin 8, addrLen p.fcf.srcAddrMode ≤ i → p.srcAddr i = 0
  destPid : (frame802154HasPanid p.fcf).2 = false →
    p.destPid = if (frame802154HasPanid p.fcf).1 then p.srcPid else 0
  srcPid : (frame802154HasPanid p.fcf).1 = false →
    p.srcPid = if p.fcf.srcAddrMode = noAddr then 0 else p.destPid

/-- Two descriptions agree in what a header has. -/
structure Same (cfg : FramerConfig) (p q : Frame802154) : Prop where
  fcf : q.fcf = p.fcf
  destPid : q.destPid = p.destPid
  srcPid : q.srcPid = p.srcPid
  destAddr : q.destAddr = p.destAddr
  srcAddr : q.srcAddr = p.srcAddr
  seq : p.fcf.sequenceNumberSuppression = 0 → q.seq = p.seq
  ostPigg1 : cfg.withOst → q.ostPigg1 = p.ostPigg1
  ostPigg2 : cfg.withOst ∧ cfg.ostOnDemandProvision → q.ostPigg2 = p.ostPigg2
  securityControl : cfg.usesAuxHeader ∧ p.fcf.securityEnabled = 1 →
    let scf := p.auxHdr.securityControl
    q.auxHdr.securityControl =
      { scf with keyIdMode :=
          if cfg.usesExplicitKeys then scf.keyIdMode else q.auxHdr.securityControl.keyIdMode }
  frameCounter : cfg.usesAuxHeader ∧ p.fcf.securityEnabled = 1 →
    p.auxHdr.securityControl.frameCounterSuppression = 0 →
    q.auxHdr.frameCounter = p.auxHdr.frameCounter
  keyId : cfg.usesAuxHeader ∧ p.fcf.securityEnabled = 1 →
    cfg.usesExplicitKeys ∧ p.auxHdr.securityControl.keyIdMode ≠ 0 →
    q.auxHdr.keyIndex = p.auxHdr.keyIndex ∧
      ∀ i : Fin 8, (i : ℕ) < (p.auxHdr.securityControl.keyIdMode.toNat - 1) * 4 →
        q.auxHdr.keySource i = p.auxHdr.keySource i

/-- A memory has the bytes that were written to it. -/
def Written (mem : ℕ → Byte) (bs : List (Option Byte)) : Prop :=
  ∀ i b, bs[i]? = some (some b) → mem i = b

/-- The header is written in full, and whatever is behind it and whatever description it is
parsed into, it is parsed as it was created. -/
def RoundTrip (cfg : FramerConfig) (p : Frame802154) : Prop :=
  let bs := (frame802154Create cfg p).1
  (bs.length = frame802154Hdrlen cfg p ∧ none ∉ bs) ∧
    ∀ mem len pf, Written mem bs → bs.length ≤ len →
      (frame802154Parse cfg mem len pf).1 = bs.length ∧
        Same cfg (frame802154Create cfg p).2 (frame802154Parse cfg mem len pf).2

/-! ## The parts of a header -/

variable {cfg : FramerConfig} {p pf : Frame802154} {mem : ℕ → Byte} {pos : ℕ}

/-- The frame control field is read as it was written. -/
theorem parseFcf_createFcf (h : InRange p) (hmem : Holds mem 0 (frame802154CreateFcf p.fcf)) :
    frame802154ParseFcf (mem 0) (mem 1) = p.fcf := by
  simp only [frame802154CreateFcf, holds_cons, Nat.zero_add] at hmem
  obtain ⟨h0, h1, -⟩ := hmem
  have hbit : ∀ b : Byte, b < 2 → ∃ c : BitVec 1, b = c.setWidth 8 := by decide +kernel
  have hmode : ∀ b : Byte, AddrMode b → ∃ c : BitVec 2, b = c.setWidth 8 := by
    rintro b (rfl | rfl | rfl)
    exacts [⟨0, rfl⟩, ⟨2, rfl⟩, ⟨3, rfl⟩]
  obtain ⟨frameType, hframeType⟩ :=
    (by decide +kernel : ∀ b : Byte, b < 8 → ∃ c : BitVec 3, b = c.setWidth 8) _ h.frameType
  obtain ⟨frameVersion, hframeVersion⟩ :=
    (by decide +kernel : ∀ b : Byte, b < 4 → ∃ c : BitVec 2, b = c.setWidth 8) _ h.frameVersion
  obtain ⟨securityEnabled, hsecurityEnabled⟩ := hbit _ h.securityEnabled
  obtain ⟨framePending, hframePending⟩ := hbit _ h.framePending
  obtain ⟨ackRequired, hackRequired⟩ := hbit _ h.ackRequired
  obtain ⟨panidCompression, hpanidCompression⟩ := hbit _ h.panidCompression
  obtain ⟨suppression, hsuppression⟩ := hbit _ h.sequenceNumberSuppression
  obtain ⟨ieListPresent, hieListPresent⟩ := hbit _ h.ieListPresent
  obtain ⟨destAddrMode, hdestAddrMode⟩ := hmode _ h.destAddrMode
  obtain ⟨srcAddrMode, hsrcAddrMode⟩ := hmode _ h.srcAddrMode
  cases hfcf : p.fcf with
  | mk _ _ _ _ _ _ _ _ _ _ =>
    simp only [hfcf] at *
    subst hframeType hframeVersion hsecurityEnabled hframePending hackRequired hpanidCompression
    subst hsuppression hieListPresent hdestAddrMode hsrcAddrMode
    -- both bytes have few values
    have hfirst : ∀ (t : BitVec 3) (s f a c : BitVec 1),
        let b : Byte := (t.setWidth 8 &&& 7#8) ||| (s.setWidth 8 &&& 1#8) <<< 3 |||
          (f.setWidth 8 &&& 1#8) <<< 4 ||| (a.setWidth 8 &&& 1#8) <<< 5 ||| (c.setWidth 8 &&& 1#8) <<< 6
        b &&& 7#8 = t.setWidth 8 ∧ (b >>> 3) &&& 1#8 = s.setWidth 8 ∧ (b >>> 4) &&& 1#8 = f.setWidth 8 ∧
          (b >>> 5) &&& 1#8 = a.setWidth 8 ∧ (b >>> 6) &&& 1#8 = c.setWidth 8 := by decide +kernel
    have hsecond : ∀ (s i : BitVec 1) (d v r : BitVec 2),
        let b : Byte := (s.setWidth 8 &&& 1#8) ||| (i.setWidth 8 &&& 1#8) <<< 1 |||
          (d.setWidth 8 &&& 3#8) <<< 2 ||| (v.setWidth 8 &&& 3#8) <<< 4 ||| (r.setWidth 8 &&& 3#8) <<< 6
        b &&& 1#8 = s.setWidth 8 ∧ (b >>> 1) &&& 1#8 = i.setWidth 8 ∧ (b >>> 2) &&& 3#8 = d.setWidth 8 ∧
          (b >>> 4) &&& 3#8 = v.setWidth 8 ∧ (b >>> 6) &&& 3#8 = r.setWidth 8 := by decide +kernel
    have e0 := hfirst frameType securityEnabled framePending ackRequired panidCompression
    have e1 := hsecond suppression ieListPresent destAddrMode frameVersion srcAddrMode
    simp only [← h0] at e0
    simp only [← h1] at e1
    simp [frame802154ParseFcf, e0, e1]

/-- The fields of OST are read as they were written. -/
theorem parseOst_createOst (hmem : Holds mem pos (createOst cfg p)) :
    parseOst cfg mem pos pf = (pos + (createOst cfg p).length,
      { pf with
        ostPigg1 := if cfg.withOst then p.ostPigg1 else pf.ostPigg1
        ostPigg2 := if cfg.withOst ∧ cfg.ostOnDemandProvision then p.ostPigg2 else pf.ostPigg2 }) := by
  by_cases hwith : cfg.withOst <;> by_cases hdemand : cfg.ostOnDemandProvision <;>
    simp_all [parseOst, createOst, holds_append]
  · exact ⟨hmem.1.read16, hmem.2.read16⟩
  · exact hmem.read16

theorem length_createAddr (len : ℕ) (addr : FrameAddr) : (createAddr len addr).length = len := by
  simp [createAddr]

/-- An address is read as it was written. -/
theorem parseAddr_createAddr {mode : Byte} {addr addr' : FrameAddr} (hmode : mode ≠ noAddr)
    (hrange : AddrMode mode) (hzero : ∀ i : Fin 8, addrLen mode ≤ i → addr i = 0)
    (hmem : Holds mem pos (createAddr (addrLen mode) addr)) :
    parseAddr mem pos mode addr' = addr := by
  rcases hrange with rfl | rfl | rfl
  · exact absurd rfl hmode
  · have hlen : addrLen shortAddrMode = 2 := rfl
    rw [hlen] at hmem hzero
    have h0 : mem pos = addr 1 := hmem 0 (by simp [createAddr])
    have h1 : mem (pos + 1) = addr 0 := hmem 1 (by simp [createAddr])
    funext i
    simp only [parseAddr, if_true]
    split
    · rename_i hi
      rw [h1, hi]
    · split
      · rename_i hi
        rw [h0, hi]
      · rename_i h0 h1
        exact (hzero i (by omega)).symm
  · have hlen : addrLen longAddrMode = 8 := rfl
    rw [hlen] at hmem
    have hne : longAddrMode ≠ shortAddrMode := by decide
    funext i
    have hi := hmem (7 - i) (by rw [length_createAddr]; omega)
    have hsub : 8 - 1 - (7 - (i : ℕ)) = i := by omega
    simp only [parseAddr, hne, if_false, if_true, hi, createAddr, getElem_map,
      getElem_reverse, length_range, getElem_range, hsub, Fin.ofNat_val_eq_self]

theorem parsePid_createPid {len : ℕ} {pid : BitVec 16} (hlen : len = 2)
    (hmem : Holds mem pos (createPid len pid)) : read16 mem pos = pid := by
  simp only [createPid, hlen, if_true] at hmem
  exact hmem.read16

theorem length_createPid {len : ℕ} (pid : BitVec 16) (hlen : len = 0 ∨ len = 2) :
    (createPid len pid).length = len := by
  rcases hlen with rfl | rfl <;> simp [createPid]

theorem addrLen_and {mode : Byte} (h : AddrMode mode) : addrLen (mode &&& 3#8) = addrLen mode := by
  rcases h with rfl | rfl | rfl <;> rfl

/-- A 2015 header without addresses that announces a PAN identifier. -/
def PanidWithoutAddr (fcf : Frame802154Fcf) : Prop :=
  fcf.frameVersion = ieee802154v2015 ∧ fcf.destAddrMode = noAddr ∧ fcf.srcAddrMode = noAddr ∧
    fcf.panidCompression = 1

instance (fcf : Frame802154Fcf) : Decidable (PanidWithoutAddr fcf) :=
  inferInstanceAs (Decidable (_ ∧ _))

/-- Without a destination address there is no destination PAN identifier, but for one
case. -/
theorem hasDestPanid_noAddr {fcf : Frame802154Fcf} (hdest : fcf.destAddrMode = noAddr)
    (h : ¬PanidWithoutAddr fcf) : (frame802154HasPanid fcf).2 = false := by
  have hne : noAddr ≠ longAddrMode ∧ noAddr ≠ shortAddrMode := by decide
  simp only [frame802154HasPanid, hdest, ne_eq, not_true_eq_false, hne.1, hne.2, false_and, or_false,
    true_and]
  split
  · rename_i hversion
    simp only [decide_eq_false_iff_not]
    intro hsrc
    exact h ⟨hversion, hdest, hsrc⟩
  · split <;> simp [noAddr]

/-- Without a source address there is no source PAN identifier. -/
theorem hasSrcPanid_noAddr {fcf : Frame802154Fcf} (hsrc : fcf.srcAddrMode = noAddr) :
    (frame802154HasPanid fcf).1 = false := by
  have hne : noAddr ≠ longAddrMode ∧ noAddr ≠ shortAddrMode := by decide
  simp only [frame802154HasPanid, hsrc, hne.1, hne.2, and_false, or_false]
  split
  · simp
  · split <;> simp [noAddr]

theorem destPidLen_cases (cfg : FramerConfig) (p : Frame802154) :
    (fieldLen cfg p).destPidLen = 0 ∨ (fieldLen cfg p).destPidLen = 2 := by
  simp only [fieldLen]
  split <;> simp

theorem srcPidLen_cases (cfg : FramerConfig) (p : Frame802154) :
    (fieldLen cfg p).srcPidLen = 0 ∨ (fieldLen cfg p).srcPidLen = 2 := by
  simp only [fieldLen]
  split <;> simp

/-- The destination fields are read as they were written. -/
theorem parseDest_spec (h : Consistent p) (hpanid : ¬PanidWithoutAddr p.fcf) (hfcf : pf.fcf = p.fcf)
    (hmem : Holds mem pos (createPid (fieldLen cfg p).destPidLen p.destPid ++
      createAddr (fieldLen cfg p).destAddrLen p.destAddr)) :
    parseDest mem pos pf = (pos + (fieldLen cfg p).destPidLen + (fieldLen cfg p).destAddrLen,
      { pf with
        destPid := if (frame802154HasPanid p.fcf).2 then p.destPid else 0
        destAddr := p.destAddr }) := by
  obtain ⟨hpid, haddr⟩ := holds_append.mp hmem
  rw [length_createPid _ (destPidLen_cases cfg p)] at haddr
  have hlen : (fieldLen cfg p).destAddrLen = addrLen p.fcf.destAddrMode :=
    addrLen_and h.inRange.destAddrMode
  rw [hlen] at haddr ⊢
  simp only [parseDest, hfcf]
  by_cases hmode : p.fcf.destAddrMode = noAddr
  · have hnone := hasDestPanid_noAddr hmode hpanid
    have hzero : p.destAddr = 0 := funext fun i => h.destAddr i (by simp [hmode, addrLen, noAddr,
      shortAddrMode, longAddrMode])
    have hmode' : ¬p.fcf.destAddrMode ≠ 0 := fun hne => hne hmode
    rw [if_neg hmode']
    simp [hnone, fieldLen, hmode, addrLen, noAddr, shortAddrMode, longAddrMode, hzero]
  · have hmode' : p.fcf.destAddrMode ≠ 0 := hmode
    rw [if_pos hmode']
    by_cases hhas : (frame802154HasPanid p.fcf).2
    · have htwo : (fieldLen cfg p).destPidLen = 2 := by simp [fieldLen, hhas]
      rw [htwo] at haddr hpid
      simp only [hhas, if_true, htwo,
        parseAddr_createAddr hmode h.inRange.destAddrMode h.destAddr haddr,
        parsePid_createPid rfl hpid]
    · have hzero : (fieldLen cfg p).destPidLen = 0 := by simp [fieldLen, hhas]
      rw [hzero, Nat.add_zero] at haddr
      simp only [hhas, Bool.false_eq_true, if_false, hzero, Nat.add_zero,
        parseAddr_createAddr hmode h.inRange.destAddrMode h.destAddr haddr]

/-- The source fields are read as they were written, and an identifier that is not sent is
found. -/
theorem parseSrc_spec (h : Consistent p) (hfcf : pf.fcf = p.fcf)
    (hdest : pf.destPid = if (frame802154HasPanid p.fcf).2 then p.destPid else 0)
    (hmem : Holds mem pos (createPid (fieldLen cfg p).srcPidLen p.srcPid ++
      createAddr (fieldLen cfg p).srcAddrLen p.srcAddr)) :
    parseSrc mem pos pf = (pos + (fieldLen cfg p).srcPidLen + (fieldLen cfg p).srcAddrLen,
      { pf with destPid := p.destPid, srcPid := p.srcPid, srcAddr := p.srcAddr }) := by
  obtain ⟨hpid, haddr⟩ := holds_append.mp hmem
  rw [length_createPid _ (srcPidLen_cases cfg p)] at haddr
  have hlen : (fieldLen cfg p).srcAddrLen = addrLen p.fcf.srcAddrMode :=
    addrLen_and h.inRange.srcAddrMode
  rw [hlen] at haddr ⊢
  -- without a source identifier the destination's is known by now
  have hknown : (frame802154HasPanid p.fcf).1 = false → pf.destPid = p.destPid := by
    intro hsrc
    rw [hdest]
    cases hhas : (frame802154HasPanid p.fcf).2 with
    | true => rfl
    | false => simpa [hsrc] using (h.destPid hhas).symm
  simp only [parseSrc, hfcf]
  by_cases hmode : p.fcf.srcAddrMode = noAddr
  · have hnone := hasSrcPanid_noAddr hmode
    have hzero : p.srcAddr = 0 := funext fun i => h.srcAddr i (by simp [hmode, addrLen, noAddr,
      shortAddrMode, longAddrMode])
    have hpid : p.srcPid = 0 := by simpa [hmode] using h.srcPid hnone
    have hmode' : ¬p.fcf.srcAddrMode ≠ 0 := fun hne => hne hmode
    rw [if_neg hmode']
    simp [hnone, fieldLen, hmode, addrLen, noAddr, shortAddrMode, longAddrMode, hzero, hpid,
      ← hknown hnone]
  · have hmode' : p.fcf.srcAddrMode ≠ 0 := hmode
    rw [if_pos hmode']
    by_cases hhas : (frame802154HasPanid p.fcf).1
    · have htwo : (fieldLen cfg p).srcPidLen = 2 := by simp [fieldLen, hhas]
      rw [htwo] at haddr hpid
      have hto : (if (frame802154HasPanid p.fcf).2 then pf.destPid else p.srcPid) = p.destPid := by
        rw [hdest]
        cases hhasDest : (frame802154HasPanid p.fcf).2 with
        | true => rfl
        | false => simpa [hhas] using (h.destPid hhasDest).symm
      simp only [hhas, if_true, htwo, hto,
        parseAddr_createAddr hmode h.inRange.srcAddrMode h.srcAddr haddr,
        parsePid_createPid rfl hpid]
    · simp only [Bool.not_eq_true] at hhas
      have hzero : (fieldLen cfg p).srcPidLen = 0 := by simp [fieldLen, hhas]
      have hpid : p.srcPid = p.destPid := by simpa [hmode] using h.srcPid hhas
      rw [hzero, Nat.add_zero] at haddr
      simp only [hhas, Bool.false_eq_true, if_false, hzero, Nat.add_zero,
        parseAddr_createAddr hmode h.inRange.srcAddrMode h.srcAddr haddr, hpid, ← hknown hhas]

/-! ## The security header -/

theorem length_createKeyId (h : InRange p) : (createKeyId cfg p.auxHdr).length =
    if cfg.usesExplicitKeys then getKeyIdLen p.auxHdr.securityControl.keyIdMode else 0 := by
  have hlen : ∀ m : Byte, m < 4 → m ≠ 0 → min ((m.toNat - 1) * 4) 8 + 1 = getKeyIdLen m := by
    decide +kernel
  simp only [createKeyId]
  by_cases hkeys : cfg.usesExplicitKeys
  · by_cases hmode : p.auxHdr.securityControl.keyIdMode = 0
    · simp [hkeys, hmode, getKeyIdLen]
    · simp only [hkeys, ne_eq, hmode, not_false_eq_true, and_self, if_true, length_append,
        length_take, length_ofFn, length_singleton]
      exact hlen _ h.keyIdMode hmode
  · simp [hkeys]

theorem auxSecLen_pos (cfg : FramerConfig) (scf : Frame802154Scf) : auxSecLen cfg scf ≠ 0 := by
  simp only [auxSecLen]
  omega

theorem length_createCounter (aux : Frame802154AuxHdr) : (createCounter aux).length =
    if aux.securityControl.frameCounterSuppression = 0 then
      if aux.securityControl.frameCounterSize = 1 then 5 else 4
    else 0 := by
  simp only [createCounter]
  split <;> [split <;> simp; rfl]

theorem length_createAux (h : InRange p) : (createAux cfg p).length = (fieldLen cfg p).auxSecLen := by
  simp only [createAux]
  split
  · rename_i hne
    simp only [fieldLen] at hne ⊢
    split_ifs at hne ⊢ with haux
    · simp only [length_cons, length_append, length_map, length_createCounter,
        length_createKeyId h, auxSecLen]
      omega
    · exact absurd rfl hne
  · rename_i hzero
    exact (not_not.mp hzero).symm

theorem length_createMhr (cfg : FramerConfig) (p : Frame802154) : (createMhr cfg p).length =
    2 + (fieldLen cfg p).ostPiggLen + (fieldLen cfg p).seqnoLen + (fieldLen cfg p).destPidLen +
      (fieldLen cfg p).destAddrLen + (fieldLen cfg p).srcPidLen + (fieldLen cfg p).srcAddrLen := by
  have host : (createOst cfg p).length = (fieldLen cfg p).ostPiggLen := by
    simp only [createOst, fieldLen]
    split_ifs <;> rfl
  have hseq : (if (fieldLen cfg p).seqnoLen = 1 then [p.seq] else []).length =
      (fieldLen cfg p).seqnoLen := by
    simp only [fieldLen]
    split_ifs <;> simp_all
  simp only [createMhr, length_append, host, hseq, length_createAddr,
    length_createPid _ (destPidLen_cases cfg p), length_createPid _ (srcPidLen_cases cfg p),
    frame802154CreateFcf, length_cons, length_nil]

/-- The header has the length that `frame802154_hdrlen` computes. -/
theorem length_create (h : InRange (setCompression p)) :
    (frame802154Create cfg p).1.length = frame802154Hdrlen cfg p := by
  simp only [frame802154Create, length_append, length_map, length_createMhr,
    length_createAux h, frame802154Hdrlen]
  omega

/-- How far the security header is read depends on what is read of its control field. -/
theorem parseAux_fst (cfg : FramerConfig) (mem : ℕ → Byte) (pos : ℕ) (pf : Frame802154) :
    (parseAux cfg mem pos pf).1 = pos +
      if cfg.usesAuxHeader ∧ pf.fcf.securityEnabled ≠ 0 then
        auxSecLen cfg (parseAux cfg mem pos pf).2.auxHdr.securityControl
      else 0 := by
  have hlen : ∀ m : Byte, m < 4 → m ≠ 0 → (m.toNat - 1) * 4 + 1 = getKeyIdLen m := by
    decide +kernel
  have hlt : ∀ b : Byte, (b >>> 3) &&& 3#8 < 4 := by decide +kernel
  simp only [parseAux]
  by_cases haux : cfg.usesAuxHeader = true ∧ pf.fcf.securityEnabled ≠ 0
  · rw [if_pos haux, if_pos haux]
    by_cases hkeys : cfg.usesExplicitKeys
    · have hl := hlen _ (hlt (mem pos))
      simp only [parseScf, hkeys, if_true]
      generalize (mem pos >>> 3) &&& 3#8 = m at hl
      by_cases hmode : m = 0
      · simp only [hmode, ne_eq, not_true_eq_false, and_false, if_false, auxSecLen, hkeys, if_true]
        split_ifs <;> simp [getKeyIdLen]
      · have hl := hl hmode
        simp only [ne_eq, hmode, not_false_eq_true, and_self, if_true, auxSecLen, hkeys]
        split_ifs <;> dsimp only at * <;> omega
    · simp only [parseScf, hkeys, Bool.false_eq_true, if_false, false_and, auxSecLen]
      split_ifs <;> simp
  · rw [if_neg haux, if_neg haux, Nat.add_zero]

end Asap.Framer
