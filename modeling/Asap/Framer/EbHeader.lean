import Asap.Framer.RoundTrip

/-!
# The header of a beacon

The framer sets up a header from the attributes of a packet. Without frame counters it suppresses
the counter and sets the bit for a long one, and both bits are read as one number then. The length
of such a header is still the one that was written, and what is read depends on its bytes only.

## Main definitions

* `PacketbufAttrs`, `framer802154SetupParams` — the attributes of a packet, and the header for them.
* `createBroadcastFrame` — the header of a packet for everyone.
* `header_read` — a header is read to its end, and nothing behind it.
-/

namespace Asap.Framer

open Asap.Lib

/-- The attributes of a packet that the framer reads. -/
structure PacketbufAttrs where
  frameType : BitVec 16
  macAck : BitVec 16
  macMetadata : BitVec 16
  securityLevel : BitVec 16
  frameCounterBytes01 : BitVec 16
  frameCounterBytes23 : BitVec 16
  keyIdMode : BitVec 16
  keyIndex : BitVec 16
  macSeqno : BitVec 16
  macNoSrcAddr : BitVec 16
  macNoDestAddr : BitVec 16

/-- `packetbuf_clear` -/
def PacketbufAttrs.cleared : PacketbufAttrs := ⟨0, 0, 0, 0, 0, 0, 0, 0, 0, 0, 0⟩

/-- The build: that of the headers, whether there are frame counters, and
`FRAME802154_SUPPR_SEQNO`. -/
structure FramerSetup extends FramerConfig where
  usesFrameCounter : Bool
  frame802154SupprSeqno : Byte

/-- The part of `framer_802154_setup_params` for the security header. -/
def setupAuxHdr (b : FramerSetup) (attr : PacketbufAttrs) (aux : Frame802154AuxHdr) :
    Frame802154AuxHdr :=
  let scf := { aux.securityControl with securityLevel := attr.securityLevel.setWidth 8 }
  let aux :=
    if b.usesFrameCounter then
      { aux with
        securityControl := scf
        frameCounter := fun i => (le16 attr.frameCounterBytes01 ++
          le16 attr.frameCounterBytes23).getD i 0 }
    else
      { aux with
        securityControl := { scf with frameCounterSuppression := 1, frameCounterSize := 1 } }
  if b.usesExplicitKeys then
    { aux with
      securityControl := { aux.securityControl with keyIdMode := attr.keyIdMode.setWidth 8 }
      keyIndex := attr.keyIndex.setWidth 8 }
  else aux

/-- `framer_802154_setup_params`, with frames of the 2015 version and addresses of eight bytes. -/
def framer802154SetupParams (b : FramerSetup) (panId : BitVec 16) (attr : PacketbufAttrs)
    (destIsBroadcast : Bool) (params : Frame802154) : Frame802154 :=
  let srcAddrMode := if attr.macNoSrcAddr = 1 then noAddr else longAddrMode
  let destAddrMode :=
    if attr.macNoDestAddr = 1 then noAddr else if destIsBroadcast then shortAddrMode else longAddrMode
  { params with
    fcf :=
      { frameType := attr.frameType.setWidth 8
        securityEnabled :=
          if b.usesAuxHeader then
            if attr.securityLevel ≠ 0 then 1 else params.fcf.securityEnabled
          else 0
        framePending := 0
        ackRequired := if destIsBroadcast then 0 else attr.macAck.setWidth 8
        panidCompression :=
          if srcAddrMode = shortAddrMode ∨ destAddrMode = shortAddrMode then 1 else 0
        sequenceNumberSuppression := if destIsBroadcast then 1 else b.frame802154SupprSeqno
        ieListPresent := attr.macMetadata.setWidth 8
        destAddrMode := destAddrMode
        frameVersion := ieee802154v2015
        srcAddrMode := srcAddrMode }
    auxHdr := if b.usesAuxHeader then setupAuxHdr b attr params.auxHdr else params.auxHdr
    seq := attr.macSeqno.setWidth 8
    srcPid := panId
    destPid := panId }

/-- A header before it is set up. -/
def Frame802154.zero : Frame802154 where
  destAddr := 0
  srcAddr := 0
  fcf := ⟨0, 0, 0, 0, 0, 0, 0, 0, 0, 0⟩
  seq := 0
  destPid := 0
  srcPid := 0
  ostPigg1 := 0
  ostPigg2 := 0
  auxHdr := ⟨⟨0, 0, 0, 0⟩, 0, 0, 0⟩
  payload := 0
  payloadLen := 0

/-- `create_frame`, for a packet to everyone: the header that is created, unless the node has no
PAN. -/
def createBroadcastFrame (b : FramerSetup) (panId : BitVec 16) (macDsn : Byte) (src : FrameAddr)
    (attr : PacketbufAttrs) : Option Frame802154 :=
  if panId = 0xffff then none
  else
    let macDsn := if macDsn = 0 then 1 else macDsn
    let attr :=
      if attr.macSeqno = 0 then { attr with macSeqno := macDsn.setWidth 16 } else attr
    some { framer802154SetupParams b panId attr true Frame802154.zero with
      destAddr := fun i => if i = 0 ∨ i = 1 then 0xff else 0
      ostPigg1 := if b.withOst then 0xffff else 0
      srcAddr := src }

variable {cfg : FramerConfig} {p pf : Frame802154} {mem mem' : ℕ → Byte} {pos len : ℕ}

/-! ## Headers that are read -/

/-- The control field of a security header is read as it was written, but for the suppression of
the counter. -/
theorem parseScf_setup {scf : Frame802154Scf} (hlevel : scf.securityLevel < 8)
    (hmode : scf.keyIdMode < 4) (hsup : scf.frameCounterSuppression < 2)
    (hsize : scf.frameCounterSize = scf.frameCounterSuppression) (scf' : Frame802154Scf) :
    let read := parseScf cfg (createScf cfg scf) scf'
    read.securityLevel = scf.securityLevel ∧ auxSecLen cfg read = auxSecLen cfg scf := by
  intro read
  obtain ⟨hl, hk, hs, hz⟩ := @createScf_bits cfg _ hlevel hmode hsup (by rw [hsize]; exact hsup)
  have hnone : ∀ s : Byte, s < 2 → (s + 2 * s = 0 ↔ s = 0) := by decide +kernel
  have hlong : ∀ s : Byte, s = 0 → s ≠ 1 := by decide +kernel
  refine ⟨hl, ?_⟩
  have hsupRead : read.frameCounterSuppression = 0 ↔ scf.frameCounterSuppression = 0 := by
    rw [show read.frameCounterSuppression = createScf cfg scf >>> 5 from rfl, hs, hsize]
    exact hnone _ hsup
  have hmodeRead : cfg.usesExplicitKeys → read.keyIdMode = scf.keyIdMode := by
    intro hkeys
    rw [show read.keyIdMode = if cfg.usesExplicitKeys then _ else _ from rfl, if_pos hkeys, hk hkeys]
  have hsizeRead : read.frameCounterSize = scf.frameCounterSize := hz
  simp only [auxSecLen, hsupRead, hsizeRead]
  by_cases hkeys : cfg.usesExplicitKeys
  · rw [hmodeRead hkeys]
  · rw [if_neg hkeys, if_neg hkeys]

/-- Of the source of a key only its bytes are read. -/
theorem keySource_congr {c : ℕ} (source : Fin 8 → Byte)
    (h : ∀ j ≤ c, mem' (pos + j) = mem (pos + j)) :
    (fun i : Fin 8 => if i < c then mem' (pos + i) else source i) =
      fun i : Fin 8 => if i < c then mem (pos + i) else source i := by
  funext i
  by_cases hi : (i : ℕ) < c
  · rw [if_pos hi, if_pos hi, h i hi.le]
  · rw [if_neg hi, if_neg hi]

/-- Of a security header only its bytes are read. -/
theorem parseAux_congr (h : ∀ i, pos ≤ i → i < (parseAux cfg mem pos pf).1 → mem' i = mem i) :
    parseAux cfg mem' pos pf = parseAux cfg mem pos pf := by
  by_cases hsec : cfg.usesAuxHeader = true ∧ pf.fcf.securityEnabled ≠ 0
  · have hpos : pos < (parseAux cfg mem pos pf).1 := by
      rw [parseAux_fst, if_pos hsec]
      exact Nat.lt_add_of_pos_right (Nat.pos_of_ne_zero (auxSecLen_pos _ _))
    have hfirst : mem' pos = mem pos := h pos le_rfl hpos
    simp only [parseAux, if_pos hsec, hfirst] at h ⊢
    generalize parseScf cfg (mem pos) pf.auxHdr.securityControl = scf at h ⊢
    by_cases hsup : scf.frameCounterSuppression = 0
    · simp only [if_pos hsup] at h ⊢
      have hcounter : (fun i : Fin 4 => mem' (pos + 1 + i)) = fun i : Fin 4 => mem (pos + 1 + i) := by
        funext i
        have hi := i.isLt
        apply h (pos + 1 + i) (by omega)
        split_ifs <;> dsimp only <;> omega
      rw [hcounter]
      have hle : pos ≤ if scf.frameCounterSize = 1 then pos + 1 + 5 else pos + 1 + 4 := by
        split_ifs <;> omega
      generalize (if scf.frameCounterSize = 1 then pos + 1 + 5 else pos + 1 + 4) = p at h hle ⊢
      by_cases hkeys : cfg.usesExplicitKeys = true ∧ scf.keyIdMode ≠ 0
      · simp only [if_pos hkeys] at h ⊢
        have hread : ∀ j ≤ (scf.keyIdMode.toNat - 1) * 4, mem' (p + j) = mem (p + j) :=
          fun j hj => h _ (by omega) (by omega)
        rw [keySource_congr _ hread, hread _ le_rfl]
      · simp only [if_neg hkeys]
    · simp only [if_neg hsup] at h ⊢
      by_cases hkeys : cfg.usesExplicitKeys = true ∧ scf.keyIdMode ≠ 0
      · simp only [if_pos hkeys] at h ⊢
        have hread : ∀ j ≤ (scf.keyIdMode.toNat - 1) * 4, mem' (pos + 1 + j) = mem (pos + 1 + j) :=
          fun j hj => h _ (by omega) (by omega)
        rw [keySource_congr _ hread, hread _ le_rfl]
      · simp only [if_neg hkeys]
  · rw [parseAux, if_neg hsec, parseAux, if_neg hsec]

/-- A header that is written without a gap: with a long counter only if the counter is suppressed. -/
structure GapFree (p : Frame802154) : Prop where
  consistent : Consistent p
  panid : ¬PanidWithoutAddr p.fcf
  counter : p.auxHdr.securityControl.frameCounterSize =
    p.auxHdr.securityControl.frameCounterSuppression

theorem GapFree.createCounter (h : GapFree p) :
    createCounter p.auxHdr = if p.auxHdr.securityControl.frameCounterSuppression = 0 then
      (List.ofFn p.auxHdr.frameCounter).map some else [] := by
  rw [Framer.createCounter]
  split_ifs with hsup hsize
  · rw [h.counter, hsup] at hsize
    exact absurd hsize (by decide)
  · exact List.append_nil _
  · rfl

/-- All bytes of the header are written. -/
theorem GapFree.header_eq (h : GapFree p) : ∃ bs : List Byte,
    (createMhr cfg p).map some ++ createAux cfg p = bs.map some ∧
      bs.length = (createMhr cfg p).length + (createAux cfg p).length := by
  have haux : ∃ bs : List Byte, createAux cfg p = bs.map some := by
    rw [createAux, h.createCounter]
    split_ifs
    · exact ⟨createScf cfg p.auxHdr.securityControl :: List.ofFn p.auxHdr.frameCounter ++
        createKeyId cfg p.auxHdr, by simp⟩
    · exact ⟨createScf cfg p.auxHdr.securityControl :: createKeyId cfg p.auxHdr, by simp⟩
    · exact ⟨[], rfl⟩
  obtain ⟨bs, hbs⟩ := haux
  exact ⟨createMhr cfg p ++ bs, by rw [hbs, List.map_append], by rw [hbs, List.length_append,
    List.length_map]⟩

/-- The security header is read to its end. -/
theorem parseAux_read (h : GapFree p) (hfcf : pf.fcf = p.fcf)
    (hmem : Written mem ((createMhr cfg p).map some ++ createAux cfg p)) :
    let r := parseAux cfg mem (createMhr cfg p).length pf
    r.1 = (createMhr cfg p).length + (createAux cfg p).length ∧
      (cfg.usesAuxHeader ∧ p.fcf.securityEnabled = 1 →
        r.2.auxHdr.securityControl.securityLevel = p.auxHdr.securityControl.securityLevel) := by
  intro r
  have hrange := h.consistent.inRange
  have hsec_iff : (cfg.usesAuxHeader = true ∧ pf.fcf.securityEnabled ≠ 0) ↔
      (cfg.usesAuxHeader = true ∧ p.fcf.securityEnabled = 1) := by
    rw [hfcf]
    exact and_congr_right fun _ => securityEnabled_ne_zero hrange
  have hfst : r.1 = _ := parseAux_fst cfg mem (createMhr cfg p).length pf
  rw [hfst, length_createAux hrange, fieldLen_auxSecLen hrange]
  by_cases hsec : cfg.usesAuxHeader = true ∧ p.fcf.securityEnabled = 1
  · have hscf : mem (createMhr cfg p).length = createScf cfg p.auxHdr.securityControl := by
      apply hmem
      rw [List.getElem?_append_right (by simp), List.length_map, Nat.sub_self, createAux,
        if_pos ((hasAux_iff hrange).mpr hsec)]
      rfl
    have hcontrol := (parseAux_fields cfg mem (createMhr cfg p).length (hsec_iff.mpr hsec)).1
    rw [hscf] at hcontrol
    have hread := @parseScf_setup cfg _ hrange.securityLevel hrange.keyIdMode
      hrange.frameCounterSuppression h.counter pf.auxHdr.securityControl
    rw [if_pos (hsec_iff.mpr hsec), if_pos hsec, hcontrol]
    exact ⟨congrArg _ hread.2, fun _ => hread.1⟩
  · rw [if_neg (mt hsec_iff.mp hsec), if_neg hsec]
    exact ⟨rfl, fun h => absurd h hsec⟩

/-- **A header is read to its end**: with its control field and its security level, and without a
look at what is behind it. -/
theorem header_read (h : GapFree p) (hmem : Written mem ((createMhr cfg p).map some ++ createAux cfg p))
    (hlen : (createMhr cfg p).length + (createAux cfg p).length ≤ len) :
    let r := frame802154Parse cfg mem len pf
    r.1 = (createMhr cfg p).length + (createAux cfg p).length ∧ r.2.fcf = p.fcf ∧
      (cfg.usesAuxHeader ∧ p.fcf.securityEnabled = 1 → r.2.auxHdr.securityControl.securityLevel =
        p.auxHdr.securityControl.securityLevel) ∧
      ∀ mem', Written mem' ((createMhr cfg p).map some ++ createAux cfg p) →
        frame802154Parse cfg mem' len pf = r := by
  intro r
  have htwo : 2 ≤ (createMhr cfg p).length := by
    rw [length_createMhr]
    omega
  have hparse : ∀ mem', Written mem' ((createMhr cfg p).map some ++ createAux cfg p) →
      frame802154Parse cfg mem' len pf = _ := fun mem' hmem' =>
    parse_createMhr h.consistent h.panid (by omega) hmem'.mhr
  have hfcf : (mhrParsed cfg p pf).fcf = p.fcf := rfl
  obtain ⟨hfst, hlevel⟩ := @parseAux_read cfg p _ mem h hfcf hmem
  have hsnd := parseAux_snd cfg mem (createMhr cfg p).length (mhrParsed cfg p pf)
  -- the security header is the same in both, so are the bytes that are looked at
  have hsame : ∀ mem', Written mem' ((createMhr cfg p).map some ++ createAux cfg p) →
      parseAux cfg mem' (createMhr cfg p).length (mhrParsed cfg p pf) =
        parseAux cfg mem (createMhr cfg p).length (mhrParsed cfg p pf) := by
    intro mem' hmem'
    obtain ⟨bs, hbs, hbsLen⟩ := @GapFree.header_eq cfg p h
    refine parseAux_congr fun i _ hi => ?_
    have hlt : i < bs.length := by omega
    have hbyte : ((createMhr cfg p).map some ++ createAux cfg p)[i]? = some (some bs[i]) := by
      rw [hbs, List.getElem?_map, List.getElem?_eq_getElem hlt]
      rfl
    rw [hmem i _ hbyte, hmem' i _ hbyte]
  have hr : r = _ := hparse mem hmem
  refine ⟨?_, ?_, ?_, fun mem' hmem' => ?_⟩
  · rw [hr]
    dsimp only
    rw [hfst, if_neg (by omega)]
  · rw [hr]
    dsimp only
    rw [hsnd]
    rfl
  · intro hsec
    rw [hr]
    exact hlevel hsec
  · rw [hr, hparse mem' hmem', hsame mem' hmem']

/-! ## Headers of packets to everyone -/

theorem setupAuxHdr_zero {b : FramerSetup} {attr : PacketbufAttrs} (hlevel : attr.securityLevel < 8)
    (hmode : attr.keyIdMode < 4) :
    let scf := (setupAuxHdr b attr Frame802154.zero.auxHdr).securityControl
    scf.securityLevel = attr.securityLevel.setWidth 8 ∧ scf.securityLevel < 8 ∧ scf.keyIdMode < 4 ∧
      scf.frameCounterSuppression < 2 ∧ scf.frameCounterSize = scf.frameCounterSuppression := by
  have hlevel : attr.securityLevel.setWidth 8 < 8 := by
    rw [BitVec.lt_def] at hlevel ⊢
    rw [BitVec.toNat_setWidth]
    exact Nat.lt_of_le_of_lt (Nat.mod_le _ _) hlevel
  have hmode : attr.keyIdMode.setWidth 8 < 4 := by
    rw [BitVec.lt_def] at hmode ⊢
    rw [BitVec.toNat_setWidth]
    exact Nat.lt_of_le_of_lt (Nat.mod_le _ _) hmode
  have hzeroMode : (0 : Byte) < 4 := by decide
  have hzero : (0 : Byte) < 2 := by decide
  have hone : (1 : Byte) < 2 := by decide
  rw [setupAuxHdr]
  cases b.usesFrameCounter <;> cases b.usesExplicitKeys
  · exact ⟨rfl, hlevel, hzeroMode, hone, rfl⟩
  · exact ⟨rfl, hlevel, hmode, hone, rfl⟩
  · exact ⟨rfl, hlevel, hzeroMode, hzero, rfl⟩
  · exact ⟨rfl, hlevel, hmode, hzero, rfl⟩

theorem setWidth_lt {v : BitVec 16} {n : Byte} (h : v < n.setWidth 16) : v.setWidth 8 < n := by
  rw [BitVec.lt_def, BitVec.toNat_setWidth] at h ⊢
  have hmod := Nat.mod_le n.toNat (2 ^ 16)
  have hmod' := Nat.mod_le v.toNat (2 ^ 8)
  omega

/-- The attributes of a packet that is sent to everyone. -/
structure BroadcastAttrs (attr : PacketbufAttrs) : Prop where
  frameType : attr.frameType < 8
  macMetadata : attr.macMetadata < 2
  securityLevel : attr.securityLevel < 8
  keyIdMode : attr.keyIdMode < 4
  macNoSrcAddr : attr.macNoSrcAddr = 0
  macNoDestAddr : attr.macNoDestAddr = 0

/-- What is set up for a packet to everyone has no gap. -/
theorem gapFree_setupParams {b : FramerSetup} {panId ostPigg1 : BitVec 16} {src : FrameAddr}
    {attr : PacketbufAttrs} (h : BroadcastAttrs attr) :
    GapFree { framer802154SetupParams b panId attr true Frame802154.zero with
      destAddr := fun i => if i = 0 ∨ i = 1 then 0xff else 0
      ostPigg1 := ostPigg1
      srcAddr := src } := by
  have hone : (1 : Byte) < 2 := by decide
  have hzero : (0 : Byte) < 2 := by decide
  have hversion : ieee802154v2015 < 4 := by decide
  have htrue : ¬true = false := by decide
  have hshort : ¬shortAddrMode = noAddr := by decide
  have hnot : ¬(0 : BitVec 16) = 1 := by decide
  have haux := @setupAuxHdr_zero b attr h.securityLevel h.keyIdMode
  have hscf : ∀ scf, scf = (if b.usesAuxHeader then setupAuxHdr b attr Frame802154.zero.auxHdr
      else Frame802154.zero.auxHdr).securityControl → scf.securityLevel < 8 ∧ scf.keyIdMode < 4 ∧
        scf.frameCounterSuppression < 2 ∧ scf.frameCounterSize = scf.frameCounterSuppression := by
    rintro scf rfl
    split_ifs
    · exact haux.2
    · decide
  obtain ⟨hlevel, hmode, hsup, hsize⟩ := hscf _ rfl
  have hsrc : (if attr.macNoSrcAddr = 1 then noAddr else longAddrMode) = longAddrMode := by
    rw [h.macNoSrcAddr, if_neg hnot]
  have hdest : (if attr.macNoDestAddr = 1 then noAddr else shortAddrMode) = shortAddrMode := by
    rw [h.macNoDestAddr, if_neg hnot]
  simp only [framer802154SetupParams, hsrc, if_true, hdest, or_true]
  refine ⟨⟨⟨?_, ?_, hzero, hzero, hone, hone, ?_, hversion, Or.inr (Or.inl rfl),
    Or.inr (Or.inr rfl), hlevel, hmode, hsup, ?_⟩, ?_, ?_, ?_, ?_⟩, ?_, hsize⟩
  case refine_1 => exact @setWidth_lt attr.frameType 8 h.frameType
  case refine_2 =>
    dsimp only
    split_ifs
    · exact hone
    · exact hzero
    · exact hzero
  case refine_3 => exact @setWidth_lt attr.macMetadata 2 h.macMetadata
  case refine_4 => exact hsize.symm ▸ hsup
  case refine_5 =>
    intro i hi
    have hlen : addrLen shortAddrMode = 2 := rfl
    dsimp only at hi ⊢
    rw [hlen] at hi
    exact if_neg fun h => by rcases h with rfl | rfl <;> omega
  case refine_6 =>
    intro i hi
    have hlen : addrLen longAddrMode = 8 := rfl
    dsimp only at hi
    omega
  case refine_7 => exact fun h => (htrue h).elim
  case refine_8 => exact fun _ => rfl
  case refine_9 => exact fun h => hshort h.2.1

/-- What there is to know of the header of a packet to everyone. -/
structure BroadcastHeader (b : FramerSetup) (attr : PacketbufAttrs) (p : Frame802154) : Prop where
  gapFree : GapFree p
  frameVersion : p.fcf.frameVersion = ieee802154v2015
  frameType : p.fcf.frameType = attr.frameType.setWidth 8
  ieListPresent : p.fcf.ieListPresent = attr.macMetadata.setWidth 8
  securityEnabled : p.fcf.securityEnabled ≠ 0 →
    b.usesAuxHeader = true ∧ p.fcf.securityEnabled = 1

theorem broadcastHeader {b : FramerSetup} {panId : BitVec 16} {macDsn : Byte} {src : FrameAddr}
    {attr : PacketbufAttrs} (hattr : BroadcastAttrs attr)
    (h : createBroadcastFrame b panId macDsn src attr = some p) : BroadcastHeader b attr p := by
  rw [createBroadcastFrame] at h
  by_cases hpan : panId = 0xffff
  · rw [if_pos hpan] at h
    cases h
  rw [if_neg hpan] at h
  dsimp only at h
  generalize hseqno : (if attr.macSeqno = 0 then { attr with
    macSeqno := (if macDsn = 0 then 1 else macDsn).setWidth 16 } else attr) = attr' at h
  obtain ⟨n, hattr'⟩ : ∃ n, attr' = { attr with macSeqno := n } := by
    by_cases hnone : attr.macSeqno = 0
    · exact ⟨_, by rw [← hseqno, if_pos hnone]⟩
    · exact ⟨attr.macSeqno, by rw [← hseqno, if_neg hnone]⟩
  have hp := (Option.some.inj h).symm
  subst hattr' hp
  refine ⟨gapFree_setupParams ⟨hattr.frameType, hattr.macMetadata, hattr.securityLevel,
    hattr.keyIdMode, hattr.macNoSrcAddr, hattr.macNoDestAddr⟩, rfl, rfl, rfl, ?_⟩
  simp only [framer802154SetupParams]
  split_ifs with haux
  · exact fun _ => ⟨haux, rfl⟩
  · exact fun hne => absurd rfl hne
  · exact fun hne => absurd rfl hne

end Asap.Framer
