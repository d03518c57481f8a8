import Asap.Framer.IeCreate
import Asap.Framer.IeSafety

/-!
# Information elements are parsed as they are created

Each element that a node can advertise is parsed as it was created, in the order in which
beacons, acknowledgements and 6top messages have them, as long as its creator writes as many
bytes as it says. Two creators do not: that of a hopping sequence writes everything even if
the length is that of the identifier, and that of the timing writes as many elements as the
build has with the length of twelve.

## Main definitions

* `LengthAgrees` — a creator returns what it writes and what its descriptor declares.
* `IeRoundTrip` — everything a node can advertise is parsed as it was created.
* `Creates` — what a creator writes is parsed as it was created.
-/

namespace Asap.Framer

open Asap.Lib Asap.Tsch Read List
open BitVec (toNat_ofNat toNat_add toNat_setWidth eq_of_toNat_eq)

variable {cfg : IeConfig} {mem : ℕ → Byte} {c c' : ParseCursor} {ies x : Ieee802154Ies}
  {pos len size : ℕ}

/-! ## Specification -/

/-- The descriptor of an element in bytes. -/
def descriptor (bs : List Byte) : BitVec 16 := read16 (fun i => bs.getD i 0) 0

/-- A creator returns the number of bytes it wrote, which is what the descriptor declares. -/
def LengthAgrees (state : ParsingState) (r : List Byte × ℕ) : Prop :=
  r.2 = r.1.length ∧ r.2 = 2 + declaredLen state (descriptor r.1)

theorem LengthAgrees.length {state : ParsingState} {bs : List Byte} {n : ℕ}
    (h : LengthAgrees state (bs, n)) : bs.length = n :=
  h.1.symm

/-- The parser accepts the first `n` bytes of a memory, with what it finds. -/
def ParsesTo (cfg : IeConfig) (mem : ℕ → Byte) (n : ℕ) (P : Ieee802154Ies → Prop) : Prop :=
  ∃ rounds ies', P ies' ∧
    (parseInformationElements cfg rounds (BitVec.ofNat 8 n) Ieee802154Ies.zero).val mem =
      some (some (n, ies'))

/-- What is in an acknowledgement is found. -/
structure EackRecovered (cfg : IeConfig) (ies ies' : Ieee802154Ies) : Prop where
  upaInfo : cfg.withUpa → ies'.ieUpaInfo = ies.ieUpaInfo
  timeCorrection : ies'.ieTimeCorrection = ies.ieTimeCorrection
  isNack : ies'.ieIsNack = if ies.ieIsNack ≠ 0 then 1 else 0

/-- What is in a beacon is found. -/
structure EbRecovered (cfg : IeConfig) (ies ies' : Ieee802154Ies) : Prop where
  asn : ies'.ieAsn = ies.ieAsn
  joinPriority : ies'.ieJoinPriority = ies.ieJoinPriority
  sla : cfg.withSla → ies'.ieSlaTriggeringAsn = ies.ieSlaTriggeringAsn ∧
    ies'.ieSlaCurrTimeslotLen = ies.ieSlaCurrTimeslotLen ∧
    ies'.ieSlaNextTimeslotLen = ies.ieSlaNextTimeslotLen
  timeslotId : ies'.ieTschTimeslotId = ies.ieTschTimeslotId
  timeslot : ies.ieTschTimeslotId ≠ 0 →
    ∀ i < cfg.tsElementsCount, ies'.ieTschTimeslot i = ies.ieTschTimeslot i
  hoppingSequenceId : ies'.ieChannelHoppingSequenceId = ies.ieChannelHoppingSequenceId
  hoppingSequence : ies.ieChannelHoppingSequenceId ≠ 0 →
    ies'.ieHoppingSequenceLen = ies.ieHoppingSequenceLen ∧
      ∀ i < ies.ieHoppingSequenceLen.toNat,
        ies'.ieHoppingSequenceList i = ies.ieHoppingSequenceList i
  numSlotframes : ies'.ieTschSlotframeAndLink.numSlotframes =
    ies.ieTschSlotframeAndLink.numSlotframes
  slotframe : ies.ieTschSlotframeAndLink.numSlotframes = 1 →
    let sf := ies.ieTschSlotframeAndLink
    let sf' := ies'.ieTschSlotframeAndLink
    sf'.slotframeHandle = sf.slotframeHandle ∧ sf'.slotframeSize = sf.slotframeSize ∧
      sf'.numLinks = sf.numLinks ∧ ∀ i < sf.numLinks.toNat, sf'.links i = sf.links i

/-- Everything a node can advertise: the lengths agree, and an acknowledgement, a beacon and
a 6top message are parsed as they were created. -/
structure IeRoundTrip (cfg : IeConfig) (ies : Ieee802154Ies) : Prop where
  eackLengths : ∀ create ∈ eackElements cfg, ∀ len r,
    create len ies = some r → LengthAgrees .headerIe r
  ebLengths : ∀ create ∈ ebElements cfg, ∀ len : ℤ, len ≤ packetbufSize → ∀ r,
    create len ies = some r → LengthAgrees .mlmeSubie r
  sixtopLength : ∀ content len r, createIeIetf len ies = some r →
    content.length = ies.sixtopIeContentLen.toNat → content.length ≤ packetbufSize →
      LengthAgrees .payloadIe (r.1 ++ content, r.2)
  eack : ∀ room mem mem' n, tschPacketCreateEack cfg room mem ies = some (mem', n) →
    ParsesTo cfg mem' n (EackRecovered cfg ies)
  eb : ∀ mem mem' n, tschPacketCreateEb cfg mem ies = some (mem', n) →
    ParsesTo cfg mem' n (EbRecovered cfg ies)
  sixtop : cfg.withSixtop → ∀ withPayloadTermination content bs,
    sixtopOutput withPayloadTermination ies content = some bs → ∀ mem, Holds mem 0 bs →
      ParsesTo cfg mem bs.length fun ies' => ∃ ptr, ies'.sixtopIeContentPtr = some ptr ∧
        ies'.sixtopIeContentLen.toNat = content.length ∧ Holds mem ptr content

/-! ## Descriptors -/

theorem descriptor_le16 (d : BitVec 16) (bs : List Byte) : descriptor (le16 d ++ bs) = d :=
  or_shiftLeft_setWidth d

/-- A mask for the low bits takes a remainder. -/
theorem toNat_and_mask (d : BitVec 16) {k : ℕ} (hk : k ≤ 16) :
    (d &&& BitVec.ofNat 16 (2 ^ k - 1)).toNat = d.toNat % 2 ^ k := by
  have hle : 2 ^ k ≤ 2 ^ 16 := Nat.pow_le_pow_right (by decide) hk
  have hpos : 0 < 2 ^ k := Nat.two_pow_pos k
  rw [BitVec.toNat_and, toNat_ofNat, Nat.mod_eq_of_lt (by omega), Nat.and_two_pow_sub_one_eq_mod]

/-- A mask for one bit tells whether it is set. -/
theorem and_twoPow_ne_zero (d : BitVec 16) {k : ℕ} (hk : k < 16) :
    d &&& BitVec.twoPow 16 k ≠ 0 ↔ d.toNat / 2 ^ k % 2 = 1 := by
  have hne : BitVec.twoPow 16 k ≠ 0#16 := by
    intro h
    have hval := congrArg BitVec.toNat h
    rw [BitVec.toNat_twoPow, Nat.mod_eq_of_lt (Nat.pow_lt_pow_right (by decide) hk)] at hval
    exact absurd hval (Nat.two_pow_pos k).ne'
  rw [BitVec.and_twoPow, BitVec.getLsbD, Nat.testBit_eq_decide_div_mod_eq]
  split_ifs with h
  · exact ⟨fun _ => by simpa using h, fun _ => hne⟩
  · exact ⟨fun hn => absurd rfl hn, fun hm => absurd (by simpa using hm) h⟩

/-- The descriptor of a header element declares what it was made of. -/
theorem headerDescriptor : ∀ id ∈ [headerIeUpaInfo, headerIeAckNackTimeCorrection,
    headerIeListTermination1], ∀ len ∈ [0, 2],
      let d := (BitVec.ofNat 16 len &&& 0x7f#16) + (BitVec.ofNat 16 id &&& 0xff#16) <<< 7
      ieType d = false ∧ headerLen d = len ∧ headerId d = id := by
  decide +kernel

/-- The fields of a descriptor with a length of 11 bits. -/
theorem longFields {id : ℕ} (hlen : len < 2048) (hid : id < 16) :
    let d := (BitVec.ofNat 16 len &&& 0x07ff#16) + (BitVec.ofNat 16 id &&& 0x0f#16) <<< 11 +
      0x8000#16
    ieType d = true ∧ longLen d = len ∧ longId d = id := by
  intro d
  have hval : d.toNat = len + id * 2048 + 32768 := by
    have hlow := toNat_and_mask (BitVec.ofNat 16 len) (k := 11) (by decide)
    have hhigh := toNat_and_mask (BitVec.ofNat 16 id) (k := 4) (by decide)
    rw [toNat_ofNat] at hlow hhigh
    simp only [Nat.reducePow, Nat.reduceSub] at hlow hhigh
    rw [toNat_add, toNat_add, BitVec.toNat_shiftLeft, hlow, hhigh, Nat.shiftLeft_eq]
    simp only [toNat_ofNat, Nat.reducePow]
    omega
  clear_value d
  have hlenMask := toNat_and_mask d (k := 11) (by decide)
  have hidMask := toNat_and_mask (d >>> 11) (k := 4) (by decide)
  have hshift : (d &&& 0x7800#16) >>> 11 = (d >>> 11) &&& 0x000f#16 :=
    BitVec.ushiftRight_and_distrib d 0x7800#16 11
  refine ⟨decide_eq_true ((and_twoPow_ne_zero d (k := 15) (by decide)).mpr ?_), hlenMask.trans ?_, ?_⟩
  · rw [hval]
    omega
  · rw [hval]
    omega
  · rw [longId, hshift]
    refine hidMask.trans ?_
    rw [BitVec.toNat_ushiftRight, Nat.shiftRight_eq_div_pow, hval]
    omega

/-- The fields of a descriptor with a length of 8 bits. -/
theorem shortFields {id : ℕ} (hlen : len < 256) (hid : id < 128) :
    let d := (BitVec.ofNat 16 len &&& 0xff#16) + (BitVec.ofNat 16 id &&& 0x7f#16) <<< 8
    ieType d = false ∧ shortLen d = len ∧ shortId d = id := by
  intro d
  have hval : d.toNat = len + id * 256 := by
    have hlow := toNat_and_mask (BitVec.ofNat 16 len) (k := 8) (by decide)
    have hhigh := toNat_and_mask (BitVec.ofNat 16 id) (k := 7) (by decide)
    simp only [toNat_ofNat, Nat.reducePow, Nat.reduceSub] at hlow hhigh
    simp only [d, toNat_add, BitVec.toNat_shiftLeft, hlow, hhigh, Nat.shiftLeft_eq,
      Nat.reducePow]
    omega
  have hlenMask := toNat_and_mask d (k := 8) (by decide)
  have hidMask := toNat_and_mask (d >>> 8) (k := 7) (by decide)
  have hshift : (d &&& 0x7f00#16) >>> 8 = (d >>> 8) &&& 0x007f#16 :=
    BitVec.ushiftRight_and_distrib d 0x7f00#16 8
  refine ⟨decide_eq_false fun h => ?_, hlenMask.trans ?_, ?_⟩
  · have hbit := (and_twoPow_ne_zero d (k := 15) (by decide)).mp h
    rw [hval] at hbit
    omega
  · rw [hval]
    omega
  · rw [shortId, hshift]
    refine hidMask.trans ?_
    rw [BitVec.toNat_ushiftRight, Nat.shiftRight_eq_div_pow, hval]
    omega

/-- The descriptor of a payload element declares what it was made of. -/
theorem payloadDescriptor {id : ℕ}
    (hid : id ∈ [payloadIeMlme, payloadIeIetf, payloadIeListTermination]) (hlen : len < 256) :
    let d := (BitVec.ofNat 16 len &&& 0x07ff#16) + (BitVec.ofNat 16 id &&& 0x0f#16) <<< 11 +
      0x8000#16
    ieType d = true ∧ longLen d = len ∧ longId d = id := by
  have hall : ∀ id ∈ [payloadIeMlme, payloadIeIetf, payloadIeListTermination], id < 16 := by decide
  exact longFields (by omega) (hall id hid)

/-- The descriptor of a short element of the MLME declares what it was made of. -/
theorem shortDescriptor {id : ℕ} (hid : id ∈ [mlmeShortIeTschSynchronization,
    mlmeShortIeTschSlaTriggeringAsn, mlmeShortIeTschSlaTimeslotLen, mlmeShortIeTschTimeslot,
    mlmeShortIeTschSlotframeAndLink]) (hlen : len < 256) :
    let d := (BitVec.ofNat 16 len &&& 0xff#16) + (BitVec.ofNat 16 id &&& 0x7f#16) <<< 8
    ieType d = false ∧ shortLen d = len ∧ shortId d = id := by
  have hall : ∀ id ∈ [mlmeShortIeTschSynchronization, mlmeShortIeTschSlaTriggeringAsn,
      mlmeShortIeTschSlaTimeslotLen, mlmeShortIeTschTimeslot, mlmeShortIeTschSlotframeAndLink],
      id < 128 := by decide
  exact shortFields hlen (hall id hid)

/-- The descriptor of a long element of the MLME declares what it was made of. -/
theorem longDescriptor (hlen : len < 256) :
    let d := (BitVec.ofNat 16 len &&& 0x07ff#16) +
      (BitVec.ofNat 16 mlmeLongIeTschChannelHoppingSequence &&& 0x0f#16) <<< 11 + 0x8000#16
    ieType d = true ∧ longLen d = len ∧ longId d = mlmeLongIeTschChannelHoppingSequence :=
  longFields (by omega) (by decide)

/-! ## Values -/

theorem or_shiftLeft_setWidth_32 (w : BitVec 32) :
    (w.setWidth 8).setWidth 32 ||| ((w >>> 8).setWidth 8).setWidth 32 <<< 8 |||
      ((w >>> 16).setWidth 8).setWidth 32 <<< 16 |||
      ((w >>> 24).setWidth 8).setWidth 32 <<< 24 = w := by
  apply BitVec.eq_of_getLsbD_eq
  intro i hi
  simp only [BitVec.getLsbD_or, BitVec.getLsbD_setWidth, BitVec.getLsbD_shiftLeft,
    BitVec.getLsbD_ushiftRight]
  -- the byte that bit `i` is in
  by_cases h8 : i < 8
  · have h16 : i < 16 := by omega
    have h24 : i < 24 := by omega
    simp [h8, h16, h24, hi]
  · by_cases h16 : i < 16
    · have h24 : i < 24 := by omega
      have hsum : 8 + (i - 8) = i := by omega
      have hlow : i - 8 < 8 := by omega
      have hlt : i - 8 < 32 := by omega
      simp [h8, h16, h24, hi, hsum, hlow, hlt]
    · by_cases h24 : i < 24
      · have hsum : 16 + (i - 16) = i := by omega
        have hnot : ¬i - 8 < 8 := by omega
        have hlow : i - 16 < 8 := by omega
        have hlt : i - 16 < 32 := by omega
        simp [h8, h16, h24, hi, hsum, hnot, hlow, hlt]
      · have hsum : 24 + (i - 24) = i := by omega
        have hnot8 : ¬i - 8 < 8 := by omega
        have hnot16 : ¬i - 16 < 8 := by omega
        have hlow : i - 24 < 8 := by omega
        have hlt : i - 24 < 32 := by omega
        simp [h8, h16, h24, hi, hsum, hnot8, hnot16, hlow, hlt]

theorem val_readAsn (pos : ℕ) : (readAsn pos).val mem =
    ⟨(mem pos).setWidth 32 ||| (mem (pos + 1)).setWidth 32 <<< 8 |||
      (mem (pos + 2)).setWidth 32 <<< 16 ||| (mem (pos + 3)).setWidth 32 <<< 24,
      mem (pos + 4)⟩ := rfl

/-- An ASN is read as it was written. -/
theorem readAsn_asnBytes {asn : TschAsn} (h : Holds mem pos (asnBytes asn)) :
    (readAsn pos).val mem = asn := by
  obtain ⟨ls4b, ms1b⟩ := asn
  simp only [asnBytes, holds_cons, holds_nil, and_true, Nat.add_assoc, Nat.reduceAdd] at h
  rw [val_readAsn, h.1, h.2.1, h.2.2.1, h.2.2.2.1, h.2.2.2.2, or_shiftLeft_setWidth_32]

/-- The word at an offset that has the sign bit of twelve bits in its five high bits. -/
def signed (w : BitVec 11) (negative : Bool) : BitVec 16 :=
  w.setWidth 16 + if negative then 0xf800#16 else 0#16

/-- High bits beside low bits. -/
theorem toNat_or_high {a b : BitVec 16} {k m : ℕ} (ha : a.toNat < 2 ^ k) (hb : b.toNat = 2 ^ k * m) :
    (a ||| b).toNat = b.toNat + a.toNat := by
  rw [BitVec.toNat_or, Nat.or_comm, hb, Nat.two_pow_add_eq_or_of_lt ha]

/-- The twelve bits of a time correction are read back with their sign. -/
theorem signed_bits (w : BitVec 11) (nack negative : Bool) :
    let field := (signed w negative &&& 0x0fff#16) ||| if nack then 0x8000#16 else 0
    (if field &&& 0x0800#16 ≠ 0 then field ||| 0xf000#16 else field &&& 0x0fff#16) =
        signed w negative ∧
      (field &&& 0x8000#16 ≠ 0 ↔ nack = true) := by
  intro field
  have hw := w.isLt
  have hsigned : (signed w negative).toNat = w.toNat + if negative then 63488 else 0 := by
    rw [signed, toNat_add, toNat_setWidth]
    cases negative <;> simp <;> omega
  have hmask : (signed w negative &&& 0x0fff#16).toNat = (signed w negative).toNat % 4096 :=
    toNat_and_mask _ (k := 12) (by decide)
  have hlow : (signed w negative &&& 0x0fff#16).toNat = w.toNat + if negative then 2048 else 0 := by
    rw [hmask, hsigned]
    cases negative <;> simp <;> omega
  have hlt : (signed w negative &&& 0x0fff#16).toNat < 4096 := by
    rw [hmask]
    exact Nat.mod_lt _ (by decide)
  have hnack : (if nack then 0x8000#16 else 0 : BitVec 16).toNat = 2 ^ 15 * if nack then 1 else 0 := by
    cases nack <;> rfl
  have hfield : field.toNat = (if nack then 32768 else 0) + (w.toNat + if negative then 2048 else 0) := by
    rw [toNat_or_high (Nat.lt_trans hlt (by decide)) hnack, hlow, hnack]
    cases nack <;> rfl
  have hsign : field &&& 0x0800#16 ≠ 0 ↔ negative = true := by
    refine (and_twoPow_ne_zero field (k := 11) (by decide)).trans ?_
    rw [hfield]
    cases nack <;> cases negative <;> simp <;> omega
  refine ⟨?_, ?_⟩
  · by_cases hneg : negative = true
    · rw [if_pos (hsign.mpr hneg)]
      have hhigh : (if nack then 0x8000#16 else 0) ||| 0xf000#16 = 0xf000#16 := by
        cases nack <;> rfl
      apply eq_of_toNat_eq
      rw [BitVec.or_assoc, hhigh, toNat_or_high (k := 12) (m := 15) hlt rfl, hlow, hsigned, hneg]
      simp
      omega
    · rw [if_neg fun h => hneg (hsign.mp h)]
      apply eq_of_toNat_eq
      refine (toNat_and_mask field (k := 12) (by decide)).trans ?_
      rw [hfield, hsigned, Bool.eq_false_iff.mpr hneg]
      cases nack <;> simp <;> omega
  · refine (and_twoPow_ne_zero field (k := 15) (by decide)).trans ?_
    rw [hfield]
    cases nack <;> cases negative <;> simp <;> omega

/-- A number of twelve bits has its sign in the five high bits. -/
theorem exists_signed {d : BitVec 16} (h : -2048 ≤ d.toInt) (h' : d.toInt ≤ 2047) :
    ∃ w negative, d = signed w negative := by
  have hlt := d.isLt
  have hvalue (negative : Bool) : (signed (d.setWidth 11) negative).toNat =
      (d.toNat % 2048 + if negative then 63488 else 0) % 65536 := by
    rw [signed, toNat_add, toNat_setWidth, toNat_setWidth]
    cases negative <;> simp
  rw [BitVec.toInt_eq_toNat_cond] at h h'
  by_cases hneg : 2 * d.toNat < 2 ^ 16
  · rw [if_pos hneg] at h h'
    refine ⟨d.setWidth 11, false, eq_of_toNat_eq ?_⟩
    rw [hvalue, if_neg Bool.false_ne_true]
    omega
  · rw [if_neg hneg] at h h'
    refine ⟨d.setWidth 11, true, eq_of_toNat_eq ?_⟩
    rw [hvalue, if_pos rfl]
    omega

/-- A time correction of twelve bits is read as it was written. -/
theorem timeCorrection_timeSyncField (h : -2048 ≤ ies.ieTimeCorrection.toInt)
    (h' : ies.ieTimeCorrection.toInt ≤ 2047) :
    (if timeSyncField ies &&& 0x0800#16 ≠ 0 then timeSyncField ies ||| 0xf000#16
        else timeSyncField ies &&& 0x0fff#16) = ies.ieTimeCorrection ∧
      (timeSyncField ies &&& 0x8000#16 ≠ 0 ↔ ies.ieIsNack ≠ 0) := by
  obtain ⟨w, negative, hw⟩ := exists_signed h h'
  by_cases hnack : ies.ieIsNack ≠ 0
  · have hfield : timeSyncField ies = (signed w negative &&& 0x0fff#16) |||
        if true then 0x8000#16 else 0 := by
      rw [timeSyncField, if_pos hnack, hw]
      rfl
    have hspec := signed_bits w true negative
    rw [hfield, hw]
    exact ⟨hspec.1, hspec.2.trans (iff_of_true rfl hnack)⟩
  · have hfield : timeSyncField ies = (signed w negative &&& 0x0fff#16) |||
        if false then 0x8000#16 else 0 := by
      rw [timeSyncField, if_neg hnack, hw]
      rfl
    have hspec := signed_bits w false negative
    rw [hfield, hw]
    exact ⟨hspec.1, hspec.2.trans (iff_of_false nofun hnack)⟩

/-! ## Elements of the MLME -/

/-- The cursor behind `n` bytes of the element that nests the others. -/
def ParseCursor.pass (c : ParseCursor) (n : ℕ) (ies : Ieee802154Ies) : ParseCursor where
  buf := c.buf + n
  bufSize := c.bufSize - n
  parsingState := if c.nestedMlmeLen - n = 0 then .payloadIe else c.parsingState
  nestedMlmeLen := c.nestedMlmeLen - n
  ies := ies

/-- A cursor among the elements of the MLME with at least `n` bytes to go. -/
structure Among (c : ParseCursor) (n : ℕ) : Prop where
  parsingState : c.parsingState = .mlmeSubie
  lt : c.bufSize < 256
  bufSize : n ≤ c.bufSize
  nested : (n : ℤ) ≤ c.nestedMlmeLen

/-- An element of the MLME that is accepted is passed. -/
theorem finishMlmeSubie_pass (h : Among c (2 + len)) :
    finishMlmeSubie (c.advance 2) len (some x) = .more (c.pass (2 + len) x) := by
  have hnested : ¬(c.advance 2).nestedMlmeLen - (2 + len) < 0 := by
    have hle := h.nested
    simp only [ParseCursor.advance]
    omega
  have hsize := h.lt
  have hroom := h.bufSize
  rw [finishMlmeSubie]
  simp only [if_neg hnested]
  simp only [ParseCursor.advance, ParseCursor.pass, ParseStep.more.injEq, ParseCursor.mk.injEq,
    Nat.cast_add, Nat.cast_ofNat, and_true]
  refine ⟨by omega, ?_, rfl⟩
  rw [subUint8_of_le hsize (by omega), subUint8_of_le (by omega) (by omega)]
  omega

/-- A short element that is parsed is passed. -/
theorem nextRound_short {id : ℕ} (h : Among c (2 + len)) (hid : id ∈ [mlmeShortIeTschSynchronization,
      mlmeShortIeTschSlaTriggeringAsn, mlmeShortIeTschSlaTimeslotLen, mlmeShortIeTschTimeslot,
      mlmeShortIeTschSlotframeAndLink])
    (hdesc : Holds mem c.buf (createMlmeShortIeDescriptor id len))
    (hparse : (parseMlmeShortIe cfg (c.buf + 2) len id c.ies).val mem = some x) :
    NextRound cfg mem c (c.pass (2 + len) x) := by
  have hsize := h.lt
  have hroom := h.bufSize
  obtain ⟨htype, hlen, hshortId⟩ := shortDescriptor hid (by omega : len < 256)
  refine ⟨by omega, ?_⟩
  rw [parseElement_val (by omega), hdesc.read16]
  have hstate : (c.advance 2).parsingState = .mlmeSubie := h.parsingState
  have hnot : ¬(c.advance 2).bufSize < len := by
    simp only [ParseCursor.advance]
    rw [subUint8_of_le hsize (by omega)]
    omega
  simp only [elementBody, hstate]
  rw [parseMlmeSubie_short htype, hlen, hshortId, if_neg hnot]
  simp only [val_bind, val_pure]
  rw [show (c.advance 2).buf = c.buf + 2 from rfl, show (c.advance 2).ies = c.ies from rfl, hparse]
  exact finishMlmeSubie_pass h

/-- A hopping sequence that is parsed is passed. -/
theorem nextRound_long (h : Among c (2 + len))
    (hdesc : Holds mem c.buf
      (createMlmeLongIeDescriptor mlmeLongIeTschChannelHoppingSequence len))
    (hparse : (parseMlmeLongIe cfg (c.buf + 2) len mlmeLongIeTschChannelHoppingSequence
      c.ies).val mem = some x) :
    NextRound cfg mem c (c.pass (2 + len) x) := by
  have hsize := h.lt
  have hroom := h.bufSize
  obtain ⟨htype, hlen, hlongId⟩ := longDescriptor (by omega : len < 256)
  refine ⟨by omega, ?_⟩
  rw [parseElement_val (by omega), hdesc.read16]
  have hstate : (c.advance 2).parsingState = .mlmeSubie := h.parsingState
  have hnot : ¬(c.advance 2).bufSize < len := by
    simp only [ParseCursor.advance]
    rw [subUint8_of_le hsize (by omega)]
    omega
  simp only [elementBody, hstate]
  rw [parseMlmeSubie_long htype, hlen, hlongId, if_neg hnot]
  simp only [val_bind, val_pure]
  rw [show (c.advance 2).buf = c.buf + 2 from rfl, show (c.advance 2).ies = c.ies from rfl, hparse]
  exact finishMlmeSubie_pass h

/-- Bytes that are passed as one element of the MLME, with what is found in them. -/
def IsElement (cfg : IeConfig) (bs : List Byte) (found : Ieee802154Ies → Ieee802154Ies) : Prop :=
  0 < bs.length ∧ ∀ mem c, Among c bs.length → Holds mem c.buf bs →
    NextRound cfg mem c (c.pass bs.length (found c.ies))

theorem createIe_some {bs bs' : List Byte} {ieLen n : ℕ} {room : ℤ}
    (h : createIe room ieLen bs = some (bs', n)) : bs' = bs ∧ n = 2 + ieLen := by
  simp only [createIe] at h
  split_ifs at h
  simp only [Option.some.injEq, Prod.mk.injEq] at h
  exact ⟨h.1.symm, h.2.symm⟩

theorem createIe_room {bs : List Byte} {ieLen : ℕ} {room : ℤ} {r : List Byte × ℕ}
    (h : createIe room ieLen bs = some r) : (2 + ieLen : ℤ) ≤ room := by
  by_contra hnot
  rw [createIe, if_neg hnot] at h
  cases h

/-- What a creator writes is passed as one element, in which is found what was created. -/
def Creates (cfg : IeConfig) (ies : Ieee802154Ies) (create : IeCreator)
    (found : Ieee802154Ies → Ieee802154Ies) : Prop :=
  ∀ room ≤ (packetbufSize : ℤ), ∀ bs n, create room ies = some (bs, n) →
    LengthAgrees .mlmeSubie (bs, n) ∧ IsElement cfg bs found

/-- The lengths of a short element agree if its creator writes what it declares. -/
theorem lengthAgrees_short {id : ℕ} {bs : List Byte} (hid : id ∈ [mlmeShortIeTschSynchronization,
      mlmeShortIeTschSlaTriggeringAsn, mlmeShortIeTschSlaTimeslotLen, mlmeShortIeTschTimeslot,
      mlmeShortIeTschSlotframeAndLink]) (hlen : len < 256) (hbs : bs.length = len) :
    LengthAgrees .mlmeSubie (createMlmeShortIeDescriptor id len ++ bs, 2 + len) := by
  obtain ⟨htype, hshortLen, -⟩ := shortDescriptor hid hlen
  constructor
  · simp only [createMlmeShortIeDescriptor, length_append, length_le16, hbs]
  · simp only [createMlmeShortIeDescriptor, descriptor_le16]
    simp only [declaredLen, htype, Bool.false_eq_true, if_false, hshortLen]

/-- The lengths of a hopping sequence agree if its creator writes what it declares. -/
theorem lengthAgrees_long {bs : List Byte} (hlen : len < 256) (hbs : bs.length = len) :
    LengthAgrees .mlmeSubie
      (createMlmeLongIeDescriptor mlmeLongIeTschChannelHoppingSequence len ++ bs, 2 + len) := by
  obtain ⟨htype, hlongLen, -⟩ := longDescriptor hlen
  constructor
  · simp only [createMlmeLongIeDescriptor, length_append, length_le16, hbs]
  · simp only [createMlmeLongIeDescriptor, descriptor_le16]
    simp only [declaredLen, htype, if_true, hlongLen]

theorem creates_synchronization : Creates cfg ies createIeTschSynchronization
    fun x => { x with ieAsn := ies.ieAsn, ieJoinPriority := ies.ieJoinPriority } := by
  intro room _ bs n h
  obtain ⟨rfl, rfl⟩ := createIe_some h
  rw [append_assoc]
  refine ⟨lengthAgrees_short (by simp) (by omega) rfl, Nat.succ_pos _, ?_⟩
  intro mem c hamong hmem
  rw [holds_append, holds_append] at hmem
  obtain ⟨hdesc, hasn, hpriority⟩ := hmem
  have hamong : Among c (2 + 6) := hamong
  refine nextRound_short hamong (by simp) hdesc ?_
  have hread : (readAsn (c.buf + 2)).val mem = ies.ieAsn := readAsn_asnBytes hasn
  have hbyte : mem (c.buf + 2 + 5) = ies.ieJoinPriority := (holds_cons.mp hpriority).1
  rw [parseMlmeShortIe, if_neg (by decide), if_pos rfl, if_pos rfl]
  simp only [val_bind, val_pure, val_byte, hread, hbyte]

theorem creates_slaTriggeringAsn (hsla : cfg.withSla) :
    Creates cfg ies createIeTschSlaTriggeringAsn
      fun x => { x with ieSlaTriggeringAsn := ies.ieSlaTriggeringAsn } := by
  intro room _ bs n h
  obtain ⟨rfl, rfl⟩ := createIe_some h
  refine ⟨lengthAgrees_short (by simp) (by omega) rfl, Nat.succ_pos _, ?_⟩
  intro mem c hamong hmem
  rw [holds_append] at hmem
  obtain ⟨hdesc, hasn⟩ := hmem
  have hamong : Among c (2 + 5) := hamong
  refine nextRound_short hamong (by simp) hdesc ?_
  have hread : (readAsn (c.buf + 2)).val mem = ies.ieSlaTriggeringAsn := readAsn_asnBytes hasn
  rw [parseMlmeShortIe, if_neg (by decide), if_neg (by decide), if_neg (by decide),
    if_pos ⟨rfl, hsla⟩, if_pos rfl]
  simp only [val_bind, val_pure, hread]

theorem creates_slaTimeslotLen (hsla : cfg.withSla) :
    Creates cfg ies createIeTschSlaTimeslotLen fun x => { x with
      ieSlaCurrTimeslotLen := ies.ieSlaCurrTimeslotLen
      ieSlaNextTimeslotLen := ies.ieSlaNextTimeslotLen } := by
  intro room _ bs n h
  obtain ⟨rfl, rfl⟩ := createIe_some h
  rw [append_assoc]
  refine ⟨lengthAgrees_short (by simp) (by omega) rfl, Nat.succ_pos _, ?_⟩
  intro mem c hamong hmem
  rw [holds_append, holds_append] at hmem
  obtain ⟨hdesc, hcurr, hnext⟩ := hmem
  have hamong : Among c (2 + 4) := hamong
  refine nextRound_short hamong (by simp) hdesc ?_
  have hread : read16 mem (c.buf + 2) = ies.ieSlaCurrTimeslotLen := hcurr.read16
  have hread' : read16 mem (c.buf + 2 + 2) = ies.ieSlaNextTimeslotLen := hnext.read16
  have hne : mlmeShortIeTschSlaTimeslotLen ≠ mlmeShortIeTschSlaTriggeringAsn := by decide
  rw [parseMlmeShortIe, if_neg (by decide), if_neg (by decide), if_neg (by decide),
    if_neg (fun hid => hne hid.1), if_pos ⟨rfl, hsla⟩, if_pos rfl]
  simp only [val_bind, val_pure, val_word, hread, hread']

theorem creates_timeslot (hcount : ies.ieTschTimeslotId = 0 ∨ ¬cfg.upaTripleCca) :
    Creates cfg ies (createIeTschTimeslot cfg) fun x => { x with
      ieTschTimeslotId := ies.ieTschTimeslotId
      ieTschTimeslot := fun i =>
        if ies.ieTschTimeslotId ≠ 0 ∧ i < 12 then ies.ieTschTimeslot i else x.ieTschTimeslot i } := by
  intro room _ bs n h
  obtain ⟨rfl, rfl⟩ := createIe_some h
  by_cases hid : ies.ieTschTimeslotId = 0
  · have hnot : ¬ies.ieTschTimeslotId ≠ 0 := not_not.mpr hid
    rw [if_pos hid, if_neg hnot, append_nil]
    refine ⟨lengthAgrees_short (by simp) (by omega) rfl, Nat.succ_pos _, ?_⟩
    intro mem c hamong hmem
    rw [holds_append] at hmem
    obtain ⟨hdesc, hbody⟩ := hmem
    have hamong : Among c (2 + 1) := hamong
    refine nextRound_short hamong (by simp) hdesc ?_
    have hbyte : mem (c.buf + 2) = ies.ieTschTimeslotId := (holds_cons.mp hbody).1
    rw [parseMlmeShortIe, if_neg (by decide), if_neg (by decide), if_pos rfl]
    simp only [parseTimeslot, true_or, if_true, val_bind, val_pure, val_byte, hbyte,
      hnot, false_and, if_false, OfNat.one_ne_ofNat]
  · have htwelve := tsElementsCount_of_not (hcount.resolve_left hid)
    rw [if_neg hid, if_pos hid, htwelve, append_assoc]
    have hlengths : LengthAgrees .mlmeSubie
        (createMlmeShortIeDescriptor mlmeShortIeTschTimeslot 25 ++ ([ies.ieTschTimeslotId] ++
          (range 12).flatMap fun i => le16 (ies.ieTschTimeslot i)), 2 + 25) :=
      lengthAgrees_short (by simp) (by omega) rfl
    have hlength := hlengths.length
    refine ⟨hlengths, by omega, ?_⟩
    rw [hlength]
    intro mem c hamong hmem
    rw [holds_append, holds_append] at hmem
    obtain ⟨hdesc, hbyte, hwords⟩ := hmem
    refine nextRound_short hamong (by simp) hdesc ?_
    have hbyte : mem (c.buf + 2) = ies.ieTschTimeslotId := (holds_cons.mp hbyte).1
    have hword : ∀ i < 12, read16 mem (c.buf + 2 + 1 + 2 * i) = ies.ieTschTimeslot i :=
      fun i hi => (hwords.flatMap (fun _ => rfl) i hi).read16
    rw [parseMlmeShortIe, if_neg (by decide), if_neg (by decide), if_pos rfl]
    simp only [parseTimeslot, or_true, if_true, val_bind, val_pure, val_byte, hbyte,
      val_gather, val_word, htwelve, Option.some.injEq, Ieee802154Ies.mk.injEq, true_and,
      and_true]
    funext i
    by_cases hi : i < 12
    · rw [if_pos hi, if_pos ⟨hid, hi⟩, hword i hi]
    · rw [if_neg hi, if_neg fun h => hi h.2]

theorem creates_hoppingSequence (hid : ies.ieChannelHoppingSequenceId ≠ 0) :
    Creates cfg ies (createIeTschChannelHoppingSequence cfg) fun x => { x with
      ieChannelHoppingSequenceId := ies.ieChannelHoppingSequenceId
      ieHoppingSequenceLen := ies.ieHoppingSequenceLen
      ieHoppingSequenceList := fun i =>
        if i < ies.ieHoppingSequenceLen.toNat then ies.ieHoppingSequenceList i
        else x.ieHoppingSequenceList i } := by
  intro room hroom bs n h
  simp only [createIeTschChannelHoppingSequence, if_neg hid] at h
  split_ifs at h with hmax
  have hlen : ies.ieHoppingSequenceLen.toNat < 244 := by
    simp only [createIe] at h
    split_ifs at h
    simp only [packetbufSize] at hroom
    omega
  obtain ⟨rfl, rfl⟩ := createIe_some h
  generalize hseq : ies.ieHoppingSequenceLen.toNat = sequenceLen at *
  simp only [append_assoc]
  have hbody : ([ies.ieChannelHoppingSequenceId, 0, 0, 0, 0, 0, 0, 0] ++
      (le16 ies.ieHoppingSequenceLen ++ ((range sequenceLen).map ies.ieHoppingSequenceList ++
      [0, 0]))).length = 12 + sequenceLen := by
    simp only [length_append, length_le16, length_cons, length_nil, length_map,
      length_range]
    omega
  have hlengths := lengthAgrees_long (by omega) hbody
  have hlength := hlengths.length
  refine ⟨hlengths, by omega, ?_⟩
  rw [hlength]
  intro mem c hamong hmem
  simp only [holds_append] at hmem
  obtain ⟨hdesc, hfixed, hword, hlist, -⟩ := hmem
  refine nextRound_long hamong hdesc ?_
  have hbyte : mem (c.buf + 2) = ies.ieChannelHoppingSequenceId := (holds_cons.mp hfixed).1
  have hread : read16 mem (c.buf + 2 + 8) = ies.ieHoppingSequenceLen := hword.read16
  have hbytes : ∀ i < sequenceLen, mem (c.buf + 2 + 10 + i) = ies.ieHoppingSequenceList i := by
    intro i hi
    have hi' := hlist i (by simpa using hi)
    rw [getElem_map, getElem_range] at hi'
    exact hi'
  have hpos : 0 < 12 + sequenceLen := by omega
  have hlong : 1 < 12 + sequenceLen := by omega
  have hfit : ((Read.word (c.buf + 2 + 8)).val mem).toNat ≤ cfg.hoppingSequenceMaxLen ∧
      12 + sequenceLen = 12 + ((Read.word (c.buf + 2 + 8)).val mem).toNat := by
    rw [val_word, hread, hseq]
    omega
  simp only [parseMlmeLongIe, if_true, if_pos hpos, if_pos hlong, val_bind]
  rw [if_pos hfit]
  simp only [val_bind, val_pure, val_byte, val_word, val_gather, hbyte,
    hread, hseq, Option.some.injEq, Ieee802154Ies.mk.injEq, true_and, and_true]
  funext i
  by_cases hi : i < sequenceLen
  · rw [if_pos hi, if_pos hi, hbytes i hi]
  · rw [if_neg hi, if_neg hi]

/-- What is found in the element for slotframes and links: nothing when there is none. -/
def foundSlotframe (sf : TschSlotframeAndLinks) (x : Ieee802154Ies) : Ieee802154Ies :=
  if sf.numSlotframes = 0 then x
  else
    let links := fun i =>
      if i < sf.numLinks.toNat then sf.links i else x.ieTschSlotframeAndLink.links i
    { x with ieTschSlotframeAndLink := { sf with links := links } }

theorem creates_slotframeAndLink : Creates cfg ies createIeTschSlotframeAndLink
    (foundSlotframe ies.ieTschSlotframeAndLink) := by
  intro room _ bs n h
  simp only [createIeTschSlotframeAndLink] at h
  generalize ies.ieTschSlotframeAndLink = sf at *
  by_cases hlimit : 1 < sf.numSlotframes.toNat ∨ frame802154eIeMaxLinks < sf.numLinks.toNat
  · simp [hlimit] at h
  rw [if_neg hlimit] at h
  obtain ⟨rfl, rfl⟩ := createIe_some h
  by_cases hzero : sf.numSlotframes = 0
  · have hone : ¬sf.numSlotframes = 1 := by
      rw [hzero]
      decide
    rw [if_neg hone, append_nil]
    have hnum : sf.numSlotframes.toNat = 0 := by rw [hzero]; rfl
    rw [hnum, Nat.zero_mul, Nat.add_zero]
    refine ⟨lengthAgrees_short (by simp) (by omega) rfl, Nat.succ_pos _, ?_⟩
    intro mem c hamong hmem
    obtain ⟨hdesc, hbody⟩ := holds_append.mp hmem
    have hamong : Among c (2 + 1) := hamong
    refine nextRound_short hamong (by simp) hdesc ?_
    have hbyte : mem (c.buf + 2) = 0 := (holds_cons.mp hbody).1.trans hzero
    have hbyte' : (Read.byte (c.buf + 2)).val mem = 0 := hbyte
    rw [parseMlmeShortIe, if_pos rfl, parseSlotframeAndLink, if_pos le_rfl]
    simp only [val_bind]
    rw [if_pos hbyte', foundSlotframe, if_pos hzero]
    rfl
  · have hone : sf.numSlotframes = 1 := by
      have hne : sf.numSlotframes.toNat ≠ 0 := fun h => hzero (eq_of_toNat_eq h)
      apply eq_of_toNat_eq
      have hval : (1 : Byte).toNat = 1 := rfl
      omega
    have hlinks : sf.numLinks.toNat ≤ frame802154eIeMaxLinks := by omega
    have hnum : sf.numSlotframes.toNat = 1 := by rw [hone]; rfl
    rw [if_pos hone, hnum, Nat.one_mul]
    have hfive : ∀ i, (linkBytes (sf.links i)).length = 5 := fun _ => rfl
    simp only [append_assoc]
    have hbody : ([sf.numSlotframes] ++ ([sf.slotframeHandle] ++ (le16 sf.slotframeSize ++
        ([sf.numLinks] ++ (range sf.numLinks.toNat).flatMap fun i =>
          linkBytes (sf.links i))))).length = 1 + (4 + 5 * sf.numLinks.toNat) := by
      simp only [length_append, length_le16, length_cons, length_nil,
        length_flatMap_range hfive]
      omega
    have hid : mlmeShortIeTschSlotframeAndLink ∈ [mlmeShortIeTschSynchronization,
      mlmeShortIeTschSlaTriggeringAsn, mlmeShortIeTschSlaTimeslotLen, mlmeShortIeTschTimeslot,
      mlmeShortIeTschSlotframeAndLink] := by simp
    have hfour : frame802154eIeMaxLinks = 4 := rfl
    have hlengths := lengthAgrees_short hid (by omega) hbody
    have hlength := hlengths.length
    refine ⟨hlengths, by omega, ?_⟩
    rw [hlength]
    intro mem c hamong hmem
    simp only [holds_append] at hmem
    obtain ⟨hdesc, hnumber, hhandle, hsize, hcount, hlist⟩ := hmem
    refine nextRound_short hamong (by simp) hdesc ?_
    have hnumber : (Read.byte (c.buf + 2)).val mem = sf.numSlotframes := (holds_cons.mp hnumber).1
    have hhandle : (Read.byte (c.buf + 2 + 1)).val mem = sf.slotframeHandle :=
      (holds_cons.mp hhandle).1
    have hsize : (Read.word (c.buf + 2 + 2)).val mem = sf.slotframeSize := hsize.read16
    have hcount : (Read.byte (c.buf + 2 + 4)).val mem = sf.numLinks := (holds_cons.mp hcount).1
    have hlink : ∀ i < sf.numLinks.toNat,
        (readLink (c.buf + 2 + 5 + i * 5)).val mem = sf.links i := by
      intro i hi
      have hbytes := hlist.flatMap hfive i hi
      rw [Nat.mul_comm 5 i, linkBytes, append_assoc, holds_append, holds_append] at hbytes
      obtain ⟨htimeslot, hoffset, hoptions⟩ := hbytes
      have htimeslot : read16 mem (c.buf + 2 + 5 + i * 5) = (sf.links i).timeslot :=
        htimeslot.read16
      have hoffset : read16 mem (c.buf + 2 + 5 + i * 5 + 2) = (sf.links i).channelOffset :=
        hoffset.read16
      have hoptions : mem (c.buf + 2 + 5 + i * 5 + 4) = (sf.links i).linkOptions :=
        (holds_cons.mp hoptions).1
      simp only [readLink, val_bind, val_pure, val_word, val_byte, htimeslot,
        hoffset, hoptions]
    have hnot : ¬(Read.byte (c.buf + 2)).val mem = 0 := by rwa [hnumber]
    have hfit : ((Read.byte (c.buf + 2)).val mem).toNat ≤ 1 ∧
        ((Read.byte (c.buf + 2 + 4)).val mem).toNat ≤ frame802154eIeMaxLinks ∧
        1 + (4 + 5 * sf.numLinks.toNat) = 1 + ((Read.byte (c.buf + 2)).val mem).toNat *
          (4 + 5 * ((Read.byte (c.buf + 2 + 4)).val mem).toNat) := by
      rw [hnumber, hcount, hnum]
      omega
    rw [parseMlmeShortIe, if_pos rfl, parseSlotframeAndLink, if_pos (by omega)]
    simp only [val_bind]
    rw [if_neg hnot, if_pos hfit]
    simp only [val_bind, val_pure, val_gather, hnumber, hhandle, hsize, hcount]
    rw [foundSlotframe, if_neg hzero]
    have harray : (fun i => if i < sf.numLinks.toNat then
        (readLink (c.buf + 2 + 5 + i * 5)).val mem else c.ies.ieTschSlotframeAndLink.links i) =
        fun i => if i < sf.numLinks.toNat then sf.links i
          else c.ies.ieTschSlotframeAndLink.links i := by
      funext i
      by_cases hi : i < sf.numLinks.toNat
      · rw [if_pos hi, if_pos hi, hlink i hi]
      · rw [if_neg hi, if_neg hi]
    rw [harray]

end Asap.Framer
