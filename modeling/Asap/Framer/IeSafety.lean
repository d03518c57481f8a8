import Asap.Framer.InformationElements
import Mathlib.Logic.Relation

/-!
# What the parser of information elements reads

Most elements are read only when they fit the bytes that remain, and only with the length
they are to have. Some are not: the length of a payload element is not compared with the
bytes that remain, so that the counter wraps around; the number of links is read whether
there are that many bytes or not, and so is the length of a hopping sequence; and a build
with one more element of the timing reads more than the element has.

Where none of this is met, the loop ends, nothing behind the last byte is read, what is
recorded of a 6top element is inside, and what does not fit or is too short is rejected
(`safe_iff`).

## Main definitions

* `Fits` — an element fits what is left and has its mandatory fields.
* `Reached` — the cursors the loop comes to.
* `Safe` — what the parser is to do with any bytes.
* `ElementOk` — the condition on an element.
-/

namespace Asap.Framer

open Asap.Lib Asap.Tsch Read

variable {cfg : IeConfig} {mem : ℕ → Byte} {c c' : ParseCursor} {ies ies' : Ieee802154Ies}
  {buf len id size : ℕ} {ieDesc : BitVec 16}

/-! ## Specification -/

/-- The length that an element declares. -/
def declaredLen (state : ParsingState) (ieDesc : BitVec 16) : ℕ :=
  match state with
  | .headerIe => headerLen ieDesc
  | .payloadIe => longLen ieDesc
  | .mlmeSubie => if ieType ieDesc then longLen ieDesc else shortLen ieDesc

/-- The length of the mandatory fields of a header element. -/
def headerMandatory (cfg : IeConfig) (id : ℕ) : ℕ :=
  if id = headerIeUpaInfo ∧ cfg.withUpa ∨ id = headerIeAckNackTimeCorrection then 2 else 0

/-- The length of the mandatory fields of a payload element. -/
def payloadMandatory (cfg : IeConfig) (id : ℕ) : ℕ :=
  if id = payloadIeIetf ∧ cfg.withSixtop then 1 else 0

/-- The length of the mandatory fields of a short element of the MLME at an offset: of a
timing either the identifier or everything, of slotframes what their number asks for. -/
def shortMandatory (cfg : IeConfig) (mem : ℕ → Byte) (buf len id : ℕ) : ℕ :=
  if id = mlmeShortIeTschSlotframeAndLink then
    if mem buf = 0 then 1 else 1 + (4 + 5 * (mem (buf + 4)).toNat)
  else if id = mlmeShortIeTschSynchronization then 6
  else if id = mlmeShortIeTschTimeslot then
    if len ≤ 1 then 1 else 1 + 2 * cfg.tsElementsCount
  else if id = mlmeShortIeTschSlaTriggeringAsn ∧ cfg.withSla then 5
  else if id = mlmeShortIeTschSlaTimeslotLen ∧ cfg.withSla then 4
  else 0

/-- The length of the mandatory fields of a long element of the MLME at an offset: of a
hopping sequence either the identifier, or everything. -/
def longMandatory (mem : ℕ → Byte) (buf len id : ℕ) : ℕ :=
  if id = mlmeLongIeTschChannelHoppingSequence then
    if len ≤ 1 then 1 else 12 + (read16 mem (buf + 8)).toNat
  else 0

section

variable (cfg : IeConfig) (mem : ℕ → Byte)

/-- The length of the mandatory fields of the element behind a descriptor. -/
def mandatoryLen (state : ParsingState) (ieDesc : BitVec 16)
    (buf : ℕ) : ℕ :=
  match state with
  | .headerIe => headerMandatory cfg (headerId ieDesc)
  | .payloadIe => payloadMandatory cfg (longId ieDesc)
  | .mlmeSubie =>
    if ieType ieDesc then longMandatory mem buf (longLen ieDesc) (longId ieDesc)
    else shortMandatory cfg mem buf (shortLen ieDesc) (shortId ieDesc)

/-- The element at a cursor fits the bytes that remain, and what remains of the element it
is nested in, and is long enough for its mandatory fields. -/
structure Fits (size : ℕ) (c : ParseCursor) : Prop where
  room : c.buf + 2 + declaredLen c.parsingState (read16 mem c.buf) ≤ size
  nested : c.parsingState = .mlmeSubie →
    (2 + declaredLen c.parsingState (read16 mem c.buf) : ℤ) ≤ c.nestedMlmeLen
  mandatory : mandatoryLen cfg mem c.parsingState (read16 mem c.buf) (c.buf + 2) ≤
    declaredLen c.parsingState (read16 mem c.buf)

/-- One round of the loop leads to another. -/
def NextRound (c c' : ParseCursor) : Prop :=
  c.bufSize ≠ 0 ∧ (parseElement cfg c).val mem = .more c'

/-- The cursors the loop comes to. -/
def Reached (bufSize : Byte) (ies : Ieee802154Ies)
    (c : ParseCursor) : Prop :=
  Relation.ReflTransGen (NextRound cfg mem) (ParseCursor.start bufSize ies) c

end

/-- What is recorded of a 6top element is what was there before, or inside of the buffer. -/
def ContentInside (size : ℕ) (ies ies' : Ieee802154Ies) : Prop :=
  (ies'.sixtopIeContentPtr = ies.sixtopIeContentPtr ∧
      ies'.sixtopIeContentLen = ies.sixtopIeContentLen) ∨
    ∃ ptr, ies'.sixtopIeContentPtr = some ptr ∧ ptr + ies'.sixtopIeContentLen.toNat ≤ size

/-- What the parser is to do with any bytes: it ends, reads only what is there, records what
is there, and rejects an element that does not fit. -/
structure Safe (cfg : IeConfig) (mem : ℕ → Byte) (bufSize : Byte) (ies : Ieee802154Ies) : Prop where
  terminates : ∃ rounds, (parseInformationElements cfg rounds bufSize ies).val mem ≠ none
  reads : ∀ rounds,
    (parseInformationElements cfg rounds bufSize ies).extent mem ≤ bufSize.toNat
  content : ∀ rounds len ies',
    (parseInformationElements cfg rounds bufSize ies).val mem = some (some (len, ies')) →
      ContentInside bufSize.toNat ies ies'
  rejects : ∀ c, Reached cfg mem bufSize ies c → c.bufSize ≠ 0 →
    ¬Fits cfg mem bufSize.toNat c → (parseElement cfg c).val mem = .fail

/-- The condition on a payload element: those that are not skipped fit the bytes that
remain, and an IETF element has its first byte. -/
def PayloadOk (cfg : IeConfig) (size : ℕ) (ieDesc : BitVec 16) (buf : ℕ) : Prop :=
  ieType ieDesc →
    (longId ieDesc = payloadIeMlme → buf + longLen ieDesc ≤ size) ∧
      (longId ieDesc = payloadIeIetf ∧ cfg.withSixtop →
        1 ≤ longLen ieDesc ∧ buf + longLen ieDesc ≤ size)

/-- The condition on an element of the MLME that fits the bytes that remain: there is what
is read without being looked for, and it has its mandatory fields unless it is too long for
the element it is nested in. -/
def MlmeOk (cfg : IeConfig) (mem : ℕ → Byte) (size : ℕ) (ieDesc : BitVec 16) (buf : ℕ)
    (nestedMlmeLen : ℤ) : Prop :=
  if ieType ieDesc then
    longId ieDesc = mlmeLongIeTschChannelHoppingSequence → 1 < longLen ieDesc →
      buf + longLen ieDesc ≤ size →
        buf + 10 ≤ size ∧ ((2 + longLen ieDesc : ℤ) ≤ nestedMlmeLen →
          12 + (read16 mem (buf + 8)).toNat ≤ longLen ieDesc)
  else
    (shortId ieDesc = mlmeShortIeTschSlotframeAndLink → 1 ≤ shortLen ieDesc →
        buf + shortLen ieDesc ≤ size → buf + 5 ≤ size) ∧
      (shortId ieDesc = mlmeShortIeTschTimeslot → shortLen ieDesc = 25 →
        buf + shortLen ieDesc ≤ size → cfg.upaTripleCca →
          nestedMlmeLen < 27 ∧ buf + 27 ≤ size)

/-- The condition on the element at a cursor. -/
def ElementOk (cfg : IeConfig) (mem : ℕ → Byte) (size : ℕ) (c : ParseCursor) : Prop :=
  match c.parsingState with
  | .headerIe => True
  | .payloadIe => PayloadOk cfg size (read16 mem c.buf) (c.buf + 2)
  | .mlmeSubie => MlmeOk cfg mem size (read16 mem c.buf) (c.buf + 2) c.nestedMlmeLen

/-! ## One element -/

/-- What is recorded of a 6top element stays. -/
def SameContent (ies ies' : Ieee802154Ies) : Prop :=
  ies'.sixtopIeContentPtr = ies.sixtopIeContentPtr ∧
    ies'.sixtopIeContentLen = ies.sixtopIeContentLen

theorem parseHeaderIe_extent : (parseHeaderIe cfg buf len id ies).extent mem ≤ buf + len := by
  simp only [parseHeaderIe]
  split_ifs <;> simp <;> omega

theorem parseHeaderIe_some (h : (parseHeaderIe cfg buf len id ies).val mem = some ies') :
    headerMandatory cfg id ≤ len ∧ SameContent ies ies' := by
  simp only [parseHeaderIe] at h
  split_ifs at h with hupa hlen hack hlen
  · simp only [val_bind, val_pure, Option.some.injEq] at h
    subst h
    exact ⟨by simp [headerMandatory, hupa, hlen], rfl, rfl⟩
  · simp at h
  · simp only [val_bind, val_pure, Option.some.injEq] at h
    subst h
    exact ⟨by simp [headerMandatory, hack, hlen], rfl, rfl⟩
  · simp at h
  · simp at h

@[simp] theorem extent_readAsn (buf : ℕ) : (readAsn buf).extent mem = buf + 5 := by
  simp [readAsn]

@[simp] theorem extent_readLink (buf : ℕ) : (readLink buf).extent mem = buf + 5 := by
  simp [readLink]

/-- The number of links is read whenever there is a byte. -/
theorem parseSlotframeAndLink_extent (hlen : 1 ≤ len) :
    buf + 5 ≤ (parseSlotframeAndLink buf len ies).extent mem ∧
      (parseSlotframeAndLink buf len ies).extent mem ≤ max (buf + 5) (buf + len) := by
  simp only [parseSlotframeAndLink, if_pos hlen, extent_bind, extent_byte]
  refine ⟨by omega, ?_⟩
  split_ifs with hzero hfit
  · rw [extent_pure]
    omega
  · simp only [val_byte] at hzero hfit
    have hne : (mem buf).toNat ≠ 0 := fun h => hzero (BitVec.eq_of_toNat_eq h)
    have heq : (mem buf).toNat = 1 := by omega
    rw [heq, Nat.one_mul] at hfit
    have hgather : (Read.gather (mem (buf + 4)).toNat (fun i => readLink (buf + 5 + i * 5))
        ies.ieTschSlotframeAndLink.links).extent mem ≤ buf + len := by
      apply extent_gather_le.mpr
      intro i hi
      rw [extent_readLink]
      omega
    simp only [val_byte, extent_bind, extent_byte, extent_word,
      extent_pure]
    omega
  · rw [extent_pure]
    omega

theorem parseSlotframeAndLink_some (h : (parseSlotframeAndLink buf len ies).val mem = some ies') :
    (if mem buf = 0 then 1 else 1 + (4 + 5 * (mem (buf + 4)).toNat)) ≤ len ∧
      SameContent ies ies' := by
  simp only [parseSlotframeAndLink] at h
  by_cases hlen : 1 ≤ len
  · simp only [if_pos hlen, val_bind] at h
    split_ifs at h with hzero hfit
    · simp only [val_byte] at hzero
      simp only [val_pure, Option.some.injEq] at h
      subst h
      exact ⟨by rw [if_pos hzero]; exact hlen, rfl, rfl⟩
    · simp only [val_byte] at hzero hfit
      simp only [val_bind, val_pure, Option.some.injEq] at h
      subst h
      have hne : (mem buf).toNat ≠ 0 := fun h => hzero (BitVec.eq_of_toNat_eq h)
      have heq : (mem buf).toNat = 1 := by omega
      rw [heq, Nat.one_mul] at hfit
      exact ⟨by rw [if_neg hzero]; exact hfit.2.2.ge, rfl, rfl⟩
    · simp at h
  · simp [hlen] at h

theorem extent_timing {n : ℕ} {old : ℕ → BitVec 16} (hn : 0 < n) :
    (Read.gather n (fun i => Read.word (buf + 1 + 2 * i)) old).extent mem = buf + 1 + 2 * n := by
  apply le_antisymm
  · apply extent_gather_le.mpr
    intro i hi
    rw [extent_word]
    omega
  · have hlast := extent_gather_le.mp (le_refl ((Read.gather n
      (fun i => Read.word (buf + 1 + 2 * i)) old).extent mem)) (n - 1) (by omega)
    rw [extent_word] at hlast
    omega

theorem tsElementsCount_pos (cfg : IeConfig) : 0 < cfg.tsElementsCount := by
  simp only [IeConfig.tsElementsCount]
  split_ifs <;> decide

/-- The timing is read with as many elements as the build has. -/
theorem parseTimeslot_extent : (parseTimeslot cfg buf len ies).extent mem =
    if len = 25 then buf + 1 + 2 * cfg.tsElementsCount else if len = 1 then buf + 1 else 0 := by
  simp only [parseTimeslot]
  by_cases hfull : len = 25
  · simp only [hfull, or_true, if_true, extent_bind, extent_byte, val_byte,
      extent_timing (tsElementsCount_pos cfg), extent_pure]
    omega
  · by_cases hone : len = 1
    · simp [hone]
    · simp [hfull, hone]

theorem parseTimeslot_some (h : (parseTimeslot cfg buf len ies).val mem = some ies') :
    (len = 1 ∨ len = 25) ∧ SameContent ies ies' := by
  simp only [parseTimeslot] at h
  split_ifs at h with hlen hfull
  · simp only [val_bind, val_pure, Option.some.injEq] at h
    subst h
    exact ⟨hlen, rfl, rfl⟩
  · simp only [val_bind, val_pure, Option.some.injEq] at h
    subst h
    exact ⟨hlen, rfl, rfl⟩
  · simp at h

theorem parseTimeslot_full : (parseTimeslot cfg buf 25 ies).val mem ≠ none := by
  simp [parseTimeslot]

/-- A short element is read where it is, but for two kinds. -/
theorem parseMlmeShortIe_extent : (parseMlmeShortIe cfg buf len id ies).extent mem ≤
    max (buf + len) (if id = mlmeShortIeTschSlotframeAndLink ∧ 1 ≤ len then buf + 5
      else if id = mlmeShortIeTschTimeslot ∧ len = 25 then buf + 1 + 2 * cfg.tsElementsCount
      else 0) := by
  simp only [parseMlmeShortIe]
  by_cases hslotframe : id = mlmeShortIeTschSlotframeAndLink
  · by_cases hlen : 1 ≤ len
    · have hextent := @parseSlotframeAndLink_extent mem ies buf len hlen
      simp only [hslotframe, hlen, and_self, if_true]
      omega
    · simp [hslotframe, parseSlotframeAndLink, hlen]
  · by_cases htimeslot : id = mlmeShortIeTschTimeslot
    · have hne : mlmeShortIeTschTimeslot ≠ mlmeShortIeTschSlotframeAndLink ∧
          mlmeShortIeTschTimeslot ≠ mlmeShortIeTschSynchronization := by decide
      simp only [htimeslot, hne.1, hne.2, if_false, if_true, parseTimeslot_extent, false_and,
        true_and]
      split_ifs <;> omega
    · simp only [hslotframe, htimeslot, if_false, false_and]
      split_ifs <;> simp <;> omega

theorem parseMlmeShortIe_slotframe (hlen : 1 ≤ len) : buf + 5 ≤
    (parseMlmeShortIe cfg buf len mlmeShortIeTschSlotframeAndLink ies).extent mem := by
  simp only [parseMlmeShortIe, if_true]
  exact (parseSlotframeAndLink_extent hlen).1

theorem parseMlmeShortIe_timeslot :
    (parseMlmeShortIe cfg buf 25 mlmeShortIeTschTimeslot ies).extent mem =
        buf + 1 + 2 * cfg.tsElementsCount ∧
      (parseMlmeShortIe cfg buf 25 mlmeShortIeTschTimeslot ies).val mem ≠ none := by
  have hne : mlmeShortIeTschTimeslot ≠ mlmeShortIeTschSlotframeAndLink ∧
      mlmeShortIeTschTimeslot ≠ mlmeShortIeTschSynchronization := by decide
  simp only [parseMlmeShortIe, hne.1, hne.2, if_false, if_true, parseTimeslot_extent, true_and]
  exact parseTimeslot_full

/-- A short element that is accepted has its mandatory fields, but for a timing in a build
with more of it. -/
theorem parseMlmeShortIe_some (h : (parseMlmeShortIe cfg buf len id ies).val mem = some ies') :
    (shortMandatory cfg mem buf len id ≤ len ∨
        id = mlmeShortIeTschTimeslot ∧ len = 25 ∧ cfg.upaTripleCca) ∧ SameContent ies ies' := by
  simp only [parseMlmeShortIe] at h
  simp only [shortMandatory]
  split_ifs at h with hslotframe hsync hlen htimeslot htrig hlen hsla hlen
  · obtain ⟨hmandatory, hsame⟩ := parseSlotframeAndLink_some h
    rw [if_pos hslotframe]
    exact ⟨Or.inl hmandatory, hsame⟩
  · simp only [val_bind, val_pure, Option.some.injEq] at h
    subst h
    rw [if_neg hslotframe, if_pos hsync]
    exact ⟨Or.inl hlen.ge, rfl, rfl⟩
  · simp at h
  · obtain ⟨hlen, hsame⟩ := parseTimeslot_some h
    rw [if_neg hslotframe, if_neg hsync, if_pos htimeslot]
    refine ⟨?_, hsame⟩
    by_cases htriple : cfg.upaTripleCca
    · obtain hlen | hlen := hlen
      · exact Or.inl (by simp [hlen])
      · exact Or.inr ⟨htimeslot, hlen, htriple⟩
    · obtain hlen | hlen := hlen
      · exact Or.inl (by simp [hlen])
      · exact Or.inl (by simp [hlen, IeConfig.tsElementsCount, htriple])
  · simp only [val_bind, val_pure, Option.some.injEq] at h
    subst h
    rw [if_neg hslotframe, if_neg hsync, if_neg htimeslot, if_pos htrig]
    exact ⟨Or.inl hlen.ge, rfl, rfl⟩
  · simp at h
  · simp only [val_bind, val_pure, Option.some.injEq] at h
    subst h
    rw [if_neg hslotframe, if_neg hsync, if_neg htimeslot, if_neg htrig, if_pos hsla]
    exact ⟨Or.inl hlen.ge, rfl, rfl⟩
  · simp at h
  · simp at h

/-- The length of a hopping sequence is read whenever there is more than one byte. -/
theorem parseMlmeLongIe_extent : (parseMlmeLongIe cfg buf len id ies).extent mem ≤
    max (buf + len) (if id = mlmeLongIeTschChannelHoppingSequence ∧ 1 < len then buf + 10
      else 0) := by
  simp only [parseMlmeLongIe]
  by_cases hid : id = mlmeLongIeTschChannelHoppingSequence
  · by_cases hlen : 0 < len
    · by_cases hlong : 1 < len
      · simp only [hid, hlen, hlong, and_self, if_true, extent_bind, extent_byte,
          extent_word]
        split_ifs with hfit
        · simp only [val_word] at hfit
          have hgather : (Read.gather (read16 mem (buf + 8)).toNat
              (fun i => Read.byte (buf + 10 + i)) ies.ieHoppingSequenceList).extent mem ≤
                buf + len := by
            apply extent_gather_le.mpr
            intro i hi
            rw [extent_byte]
            omega
          simp only [val_word, extent_bind, extent_pure]
          omega
        · simp only [extent_pure]
          omega
      · simp only [hid, hlen, hlong, and_false, if_true, if_false, extent_bind,
          extent_byte, extent_pure]
        omega
    · simp [hid, hlen]
  · simp [hid]

theorem parseMlmeLongIe_hopping (hlen : 1 < len) :
    buf + 10 ≤
        (parseMlmeLongIe cfg buf len mlmeLongIeTschChannelHoppingSequence ies).extent mem ∧
      (parseMlmeLongIe cfg buf len mlmeLongIeTschChannelHoppingSequence ies).val mem ≠ none := by
  have hpos : 0 < len := by omega
  simp only [parseMlmeLongIe, hpos, hlen, if_true, extent_bind, extent_byte,
    extent_word, val_bind]
  refine ⟨by omega, ?_⟩
  split_ifs <;> simp

theorem parseMlmeLongIe_some (h : (parseMlmeLongIe cfg buf len id ies).val mem = some ies') :
    (id = mlmeLongIeTschChannelHoppingSequence ∧ 0 < len) ∧ SameContent ies ies' := by
  simp only [parseMlmeLongIe] at h
  by_cases hid : id = mlmeLongIeTschChannelHoppingSequence ∧ 0 < len
  · refine ⟨hid, ?_⟩
    simp only [hid.1, hid.2, if_true] at h
    by_cases hlong : 1 < len
    · simp only [hlong, if_true, val_bind] at h
      split_ifs at h <;>
      · simp only [val_bind, val_pure, Option.some.injEq] at h
        subst h
        exact ⟨rfl, rfl⟩
    · simp only [hlong, if_false, val_bind, val_pure, Option.some.injEq] at h
      subst h
      exact ⟨rfl, rfl⟩
  · by_cases hname : id = mlmeLongIeTschChannelHoppingSequence
    · have hlen : ¬0 < len := fun hlen => hid ⟨hname, hlen⟩
      simp [hname, hlen] at h
    · simp [hname] at h

/-! ## One round of the loop -/

/-- What a round that is not a failure leaves: the cursor behind the element, and the
content of a 6top element as it was. -/
def RoundKeeps (c : ParseCursor) (len : ℕ) : ParseStep → Prop
  | .fail => True
  | .done _ ies => SameContent c.ies ies
  | .more c' => c'.buf = c.buf + len ∧ c'.bufSize = subUint8 c.bufSize len ∧
      SameContent c.ies c'.ies

theorem subUint8_of_le {bufSize n : ℕ} (hsize : bufSize < 256) (h : n ≤ bufSize) :
    subUint8 bufSize n = bufSize - n := by
  simp only [subUint8]
  omega

theorem subUint8_zero {bufSize : ℕ} (hsize : bufSize < 256) : subUint8 bufSize 0 = bufSize :=
  subUint8_of_le hsize (Nat.zero_le _)

/-- A header element is read in its place, and accepted when it fits. -/
theorem parseHeaderElement_spec (hsize : c.bufSize < 256) :
    (parseHeaderElement cfg ieDesc c).extent mem ≤ c.buf + c.bufSize ∧
      ((parseHeaderElement cfg ieDesc c).val mem = .fail ∨
        headerLen ieDesc ≤ c.bufSize ∧
          headerMandatory cfg (headerId ieDesc) ≤ headerLen ieDesc ∧
          RoundKeeps c (headerLen ieDesc) ((parseHeaderElement cfg ieDesc c).val mem)) := by
  simp only [parseHeaderElement]
  split_ifs with htype hfirst hlen hsecond hlen hroom
  · simp
  · have hmandatory : headerMandatory cfg headerIeListTermination1 = 0 := by
      simp [headerMandatory, headerIeListTermination1, headerIeUpaInfo,
        headerIeAckNackTimeCorrection]
    simp [hlen, hfirst, hmandatory, RoundKeeps, subUint8_zero hsize, SameContent,
      ParseCursor.savePayloadIeOffset]
  · simp
  · have hmandatory : headerMandatory cfg headerIeListTermination2 = 0 := by
      simp [headerMandatory, headerIeListTermination2, headerIeUpaInfo,
        headerIeAckNackTimeCorrection]
    simp [hlen, hsecond, hmandatory, RoundKeeps, SameContent, ParseCursor.savePayloadIeOffset]
  · simp
  · simp
  · have hextent := @parseHeaderIe_extent cfg mem c.ies c.buf (headerLen ieDesc) (headerId ieDesc)
    simp only [extent_bind, val_bind]
    cases hparse : (parseHeaderIe cfg c.buf (headerLen ieDesc) (headerId ieDesc) c.ies).val mem with
    | none =>
      simp only [extent_pure, val_pure, true_or, and_true]
      omega
    | some ies =>
      obtain ⟨hmandatory, hsame⟩ := parseHeaderIe_some hparse
      simp only [extent_pure, val_pure]
      exact ⟨by omega, Or.inr ⟨by omega, hmandatory, rfl, rfl, hsame⟩⟩

/-- An MLME element is entered whatever its length. -/
theorem parsePayloadElement_mlme (htype : ieType ieDesc) (hid : longId ieDesc = payloadIeMlme) :
    parsePayloadElement cfg ieDesc c =
      return .more { c with parsingState := .mlmeSubie, nestedMlmeLen := longLen ieDesc } := by
  simp [parsePayloadElement, htype, hid]

/-- An IETF element is passed over whatever its length, and one byte is read. -/
theorem parsePayloadElement_ietf (htype : ieType ieDesc)
    (hid : longId ieDesc = payloadIeIetf ∧ cfg.withSixtop) :
    (parsePayloadElement cfg ieDesc c).extent mem = c.buf + 1 ∧
      ∃ ies, (parsePayloadElement cfg ieDesc c).val mem =
          .more { c.advance (longLen ieDesc) with ies := ies } ∧
        (SameContent c.ies ies ∨ ies.sixtopIeContentPtr = some (c.buf + 1) ∧
          ies.sixtopIeContentLen = BitVec.ofNat 16 (longLen ieDesc) - 1) := by
  have hne : payloadIeIetf ≠ payloadIeMlme := by decide
  have hnot : ¬(!ieType ieDesc) = true := by simp [htype]
  simp only [parsePayloadElement, if_neg hnot, hid, hne, if_false, and_self, if_true,
    extent_bind, extent_byte, extent_pure, val_bind, val_pure]
  refine ⟨by omega, _, rfl, ?_⟩
  split_ifs
  · exact Or.inr ⟨rfl, rfl⟩
  · exact Or.inl ⟨rfl, rfl⟩

/-- Any other payload element ends the loop. -/
theorem parsePayloadElement_other
    (h : ¬(ieType ieDesc ∧ (longId ieDesc = payloadIeMlme ∨
      longId ieDesc = payloadIeIetf ∧ cfg.withSixtop))) :
    (parsePayloadElement cfg ieDesc c).extent mem = 0 ∧
      ((parsePayloadElement cfg ieDesc c).val mem = .fail ∨
        longId ieDesc = payloadIeListTermination ∧ longLen ieDesc = 0 ∧
          (parsePayloadElement cfg ieDesc c).val mem = .done c.buf c.ies) := by
  simp only [parsePayloadElement]
  split_ifs with htype hmlme hietf hlast hlen
  · simp
  · exact absurd ⟨by simpa using htype, Or.inl hmlme⟩ h
  · exact absurd ⟨by simpa using htype, Or.inr hietf⟩ h
  · simp [hlast, hlen]
  · simp
  · simp

/-- An element of the MLME that is accepted is passed over. -/
theorem finishMlmeSubie_keeps {r : Option Ieee802154Ies} (hsame : ∀ ies, r = some ies →
    SameContent c.ies ies) : finishMlmeSubie c len r = .fail ∨
      (2 + len : ℤ) ≤ c.nestedMlmeLen ∧ r.isSome ∧ RoundKeeps c len (finishMlmeSubie c len r) := by
  cases r with
  | none => exact Or.inl rfl
  | some ies =>
    simp only [finishMlmeSubie]
    by_cases hnested : c.nestedMlmeLen - (2 + len) < 0
    · exact Or.inl (if_pos hnested)
    · rw [if_neg hnested]
      exact Or.inr ⟨by omega, rfl, rfl, rfl, hsame ies rfl⟩

/-- It is accepted when it does not exceed the element it is nested in. -/
theorem finishMlmeSubie_ne {r : Option Ieee802154Ies} (hsome : r ≠ none)
    (hnested : (2 + len : ℤ) ≤ c.nestedMlmeLen) : finishMlmeSubie c len r ≠ .fail := by
  cases r with
  | none => exact absurd rfl hsome
  | some ies =>
    have hlt : ¬c.nestedMlmeLen - (2 + len) < 0 := by omega
    simp [finishMlmeSubie, hlt]

theorem finishMlmeSubie_fail {r : Option Ieee802154Ies} (hnested : c.nestedMlmeLen < 2 + len) :
    finishMlmeSubie c len r = .fail := by
  cases r with
  | none => rfl
  | some ies =>
    have hlt : c.nestedMlmeLen - (2 + len) < 0 := by omega
    exact if_pos hlt

theorem tsElementsCount_of_not (h : ¬cfg.upaTripleCca) : cfg.tsElementsCount = 12 := by
  simp [IeConfig.tsElementsCount, h]

theorem tsElementsCount_of (h : cfg.upaTripleCca) : cfg.tsElementsCount = 13 := by
  simp [IeConfig.tsElementsCount, h]

/-- Where the condition holds a short element is read inside, and has its mandatory fields
when it is accepted. -/
theorem parseMlmeShortIe_of_ok (htype : ieType ieDesc = false)
    (h : MlmeOk cfg mem size ieDesc c.buf c.nestedMlmeLen)
    (hroom : c.buf + shortLen ieDesc ≤ size) :
    let r := parseMlmeShortIe cfg c.buf (shortLen ieDesc) (shortId ieDesc) c.ies
    r.extent mem ≤ size ∧ (finishMlmeSubie c (shortLen ieDesc) (r.val mem) ≠ .fail →
      shortMandatory cfg mem c.buf (shortLen ieDesc) (shortId ieDesc) ≤ shortLen ieDesc) := by
  intro r
  simp only [MlmeOk, htype, Bool.false_eq_true, if_false] at h
  have hextent := @parseMlmeShortIe_extent cfg mem c.ies c.buf (shortLen ieDesc) (shortId ieDesc)
  constructor
  · refine le_trans hextent (max_le hroom ?_)
    split_ifs with hslotframe htimeslot
    · exact h.1 hslotframe.1 hslotframe.2 hroom
    · by_cases htriple : cfg.upaTripleCca
      · have hfull := (h.2 htimeslot.1 htimeslot.2 hroom htriple).2
        rw [tsElementsCount_of htriple]
        omega
      · rw [tsElementsCount_of_not htriple]
        omega
    · exact Nat.zero_le _
  · intro hne
    cases hparse : r.val mem with
    | none => exact absurd (by rw [hparse]; rfl) hne
    | some ies =>
      obtain ⟨hmandatory | ⟨hid, hlen, htriple⟩, -⟩ := parseMlmeShortIe_some hparse
      · exact hmandatory
      · have hnested := (h.2 hid hlen hroom htriple).1
        exact absurd (finishMlmeSubie_fail (by rw [hlen]; exact hnested)) hne

/-- Where the condition holds a long element is read inside, and has its mandatory fields
when it is accepted. -/
theorem parseMlmeLongIe_of_ok (htype : ieType ieDesc = true)
    (h : MlmeOk cfg mem size ieDesc c.buf c.nestedMlmeLen)
    (hroom : c.buf + longLen ieDesc ≤ size) :
    let r := parseMlmeLongIe cfg c.buf (longLen ieDesc) (longId ieDesc) c.ies
    r.extent mem ≤ size ∧ (finishMlmeSubie c (longLen ieDesc) (r.val mem) ≠ .fail →
      longMandatory mem c.buf (longLen ieDesc) (longId ieDesc) ≤ longLen ieDesc) := by
  intro r
  simp only [MlmeOk, htype, if_true] at h
  have hextent := @parseMlmeLongIe_extent cfg mem c.ies c.buf (longLen ieDesc) (longId ieDesc)
  constructor
  · refine le_trans hextent (max_le hroom ?_)
    split_ifs with hid
    · exact (h hid.1 hid.2 hroom).1
    · exact Nat.zero_le _
  · intro hne
    cases hparse : r.val mem with
    | none => exact absurd (by rw [hparse]; rfl) hne
    | some ies =>
      obtain ⟨⟨hid, hpos⟩, -⟩ := parseMlmeLongIe_some hparse
      simp only [longMandatory, hid, if_true]
      split_ifs with hone
      · exact hpos
      · have hnested : (2 + longLen ieDesc : ℤ) ≤ c.nestedMlmeLen := by
          by_contra hlt
          exact hne (finishMlmeSubie_fail (by omega))
        exact (h hid (by omega) hroom).2 hnested

theorem parseMlmeSubie_short (htype : ieType ieDesc = false) : parseMlmeSubie cfg ieDesc c =
    if c.bufSize < shortLen ieDesc then return .fail
    else do
      let r ← parseMlmeShortIe cfg c.buf (shortLen ieDesc) (shortId ieDesc) c.ies
      return finishMlmeSubie c (shortLen ieDesc) r := by
  simp only [parseMlmeSubie, htype, Bool.not_false, if_true]

theorem parseMlmeSubie_long (htype : ieType ieDesc = true) : parseMlmeSubie cfg ieDesc c =
    if c.bufSize < longLen ieDesc then return .fail
    else do
      let r ← parseMlmeLongIe cfg c.buf (longLen ieDesc) (longId ieDesc) c.ies
      return finishMlmeSubie c (longLen ieDesc) r := by
  simp only [parseMlmeSubie, htype, Bool.not_true, Bool.false_eq_true, if_false]

/-- An element of the MLME that is accepted fits what is left, and is passed over. -/
theorem parseMlmeSubie_keeps : (parseMlmeSubie cfg ieDesc c).val mem = .fail ∨
    declaredLen .mlmeSubie ieDesc ≤ c.bufSize ∧
      (2 + declaredLen .mlmeSubie ieDesc : ℤ) ≤ c.nestedMlmeLen ∧
      RoundKeeps c (declaredLen .mlmeSubie ieDesc) ((parseMlmeSubie cfg ieDesc c).val mem) := by
  simp only [declaredLen]
  cases htype : ieType ieDesc with
  | false =>
    rw [parseMlmeSubie_short htype]
    simp only [Bool.false_eq_true, if_false]
    by_cases hroom : c.bufSize < shortLen ieDesc
    · simp [hroom]
    · rw [if_neg hroom]
      simp only [val_bind, val_pure]
      have hkeeps := @finishMlmeSubie_keeps c (shortLen ieDesc) _ fun ies' h =>
        (@parseMlmeShortIe_some cfg mem c.ies ies' c.buf (shortLen ieDesc) (shortId ieDesc) h).2
      refine hkeeps.imp_right ?_
      intro hkept
      exact ⟨by omega, hkept.1, hkept.2.2⟩
  | true =>
    rw [parseMlmeSubie_long htype]
    simp only [if_true]
    by_cases hroom : c.bufSize < longLen ieDesc
    · simp [hroom]
    · rw [if_neg hroom]
      simp only [val_bind, val_pure]
      have hkeeps := @finishMlmeSubie_keeps c (longLen ieDesc) _ fun ies' h =>
        (@parseMlmeLongIe_some cfg mem c.ies ies' c.buf (longLen ieDesc) (longId ieDesc) h).2
      refine hkeeps.imp_right ?_
      intro hkept
      exact ⟨by omega, hkept.1, hkept.2.2⟩

/-- The condition on an element of the MLME is that it is read inside, and has its mandatory
fields when it is accepted. -/
theorem mlmeOk_iff (hroom : c.buf + c.bufSize = size) :
    MlmeOk cfg mem size ieDesc c.buf c.nestedMlmeLen ↔
      (parseMlmeSubie cfg ieDesc c).extent mem ≤ size ∧
        ((parseMlmeSubie cfg ieDesc c).val mem ≠ .fail →
          mandatoryLen cfg mem .mlmeSubie ieDesc c.buf ≤ declaredLen .mlmeSubie ieDesc) := by
  simp only [mandatoryLen, declaredLen]
  cases htype : ieType ieDesc with
  | false =>
    rw [parseMlmeSubie_short htype]
    simp only [Bool.false_eq_true, if_false]
    by_cases hlen : c.bufSize < shortLen ieDesc
    · have hnot : ¬c.buf + shortLen ieDesc ≤ size := by omega
      simp [MlmeOk, htype, hlen, hnot]
    · rw [if_neg hlen]
      have hfit : c.buf + shortLen ieDesc ≤ size := by omega
      simp only [extent_bind, val_bind, extent_pure, val_pure, Nat.max_zero]
      constructor
      · intro h
        exact parseMlmeShortIe_of_ok htype h hfit
      · intro h
        simp only [MlmeOk, htype, Bool.false_eq_true, if_false]
        refine ⟨?_, ?_⟩
        · intro hid hpos _
          rw [hid] at h
          exact (parseMlmeShortIe_slotframe hpos).trans h.1
        · intro hid hfull _ htriple
          rw [hid, hfull] at h
          have htimeslot := @parseMlmeShortIe_timeslot cfg mem c.ies c.buf
          rw [tsElementsCount_of htriple] at htimeslot
          refine ⟨?_, by omega⟩
          by_contra hnested
          have hle : (2 + (25 : ℕ) : ℤ) ≤ c.nestedMlmeLen := by omega
          have hmandatory := h.2 (finishMlmeSubie_ne htimeslot.2 hle)
          have hname : mlmeShortIeTschTimeslot ≠ mlmeShortIeTschSlotframeAndLink ∧
              mlmeShortIeTschTimeslot ≠ mlmeShortIeTschSynchronization := by decide
          simp [shortMandatory, hname, tsElementsCount_of htriple] at hmandatory
  | true =>
    rw [parseMlmeSubie_long htype]
    simp only [if_true]
    by_cases hlen : c.bufSize < longLen ieDesc
    · have hnot : ¬c.buf + longLen ieDesc ≤ size := by omega
      simp [MlmeOk, htype, hlen, hnot]
    · rw [if_neg hlen]
      have hfit : c.buf + longLen ieDesc ≤ size := by omega
      simp only [extent_bind, val_bind, extent_pure, val_pure, Nat.max_zero]
      constructor
      · intro h
        exact parseMlmeLongIe_of_ok htype h hfit
      · intro h
        simp only [MlmeOk, htype, if_true]
        intro hid hlong _
        rw [hid] at h
        have hhopping := @parseMlmeLongIe_hopping cfg mem c.ies c.buf _ hlong
        refine ⟨hhopping.1.trans h.1, ?_⟩
        intro hnested
        have hmandatory := h.2 (finishMlmeSubie_ne hhopping.2 hnested)
        have hone : ¬longLen ieDesc ≤ 1 := by omega
        simpa [longMandatory, hone] using hmandatory

/-- The rest of a round behind the descriptor. -/
def elementBody (cfg : IeConfig) (ieDesc : BitVec 16) (c : ParseCursor) : Read ParseStep :=
  match c.parsingState with
  | .headerIe => parseHeaderElement cfg ieDesc c
  | .payloadIe => parsePayloadElement cfg ieDesc c
  | .mlmeSubie => parseMlmeSubie cfg ieDesc c

theorem parseElement_val (h : 2 ≤ c.bufSize) : (parseElement cfg c).val mem =
    (elementBody cfg (read16 mem c.buf) (c.advance 2)).val mem := by
  have hnot : ¬c.bufSize < 2 := by omega
  rw [parseElement, if_neg hnot]
  rfl

theorem parseElement_extent (h : 2 ≤ c.bufSize) : (parseElement cfg c).extent mem =
    max (c.buf + 2) ((elementBody cfg (read16 mem c.buf) (c.advance 2)).extent mem) := by
  have hnot : ¬c.bufSize < 2 := by omega
  rw [parseElement, if_neg hnot, extent_bind, extent_word]
  rfl

theorem parseElement_short (h : c.bufSize < 2) : parseElement cfg c = return .fail := if_pos h

/-- The condition on a payload element is that it has its mandatory fields and fits when it
is passed over. -/
theorem payloadOk_iff (hroom : c.buf + c.bufSize = size) :
    PayloadOk cfg size ieDesc c.buf ↔
      (parsePayloadElement cfg ieDesc c).extent mem ≤ size ∧
        ((parsePayloadElement cfg ieDesc c).val mem ≠ .fail →
          c.buf + longLen ieDesc ≤ size ∧
            payloadMandatory cfg (longId ieDesc) ≤ longLen ieDesc) := by
  have hne : ¬payloadIeMlme = payloadIeIetf := by decide
  by_cases h : ieType ieDesc ∧ (longId ieDesc = payloadIeMlme ∨
      longId ieDesc = payloadIeIetf ∧ cfg.withSixtop)
  · obtain ⟨htype, hmlme | hietf⟩ := h
    · rw [parsePayloadElement_mlme htype hmlme]
      simp [PayloadOk, htype, hmlme, hne, payloadMandatory]
    · obtain ⟨hextent, ies, hval, -⟩ := @parsePayloadElement_ietf cfg mem c ieDesc htype hietf
      have hne' : payloadIeIetf ≠ payloadIeMlme := by decide
      rw [hextent, hval]
      simp only [PayloadOk, htype, hietf, hne', false_imp_iff, true_and, and_self, true_imp_iff,
        ne_eq, reduceCtorEq, not_false_eq_true, payloadMandatory, if_true]
      omega
  · obtain ⟨hextent, hval⟩ := @parsePayloadElement_other cfg mem c ieDesc h
    have hok : PayloadOk cfg size ieDesc c.buf := by
      intro htype
      exact ⟨fun hmlme => absurd ⟨htype, Or.inl hmlme⟩ h, fun hietf => absurd ⟨htype, Or.inr hietf⟩ h⟩
    refine iff_of_true hok ⟨by omega, ?_⟩
    intro hne
    obtain hfail | ⟨hid, hlen, -⟩ := hval
    · exact absurd hfail hne
    · have hlast : payloadIeListTermination ≠ payloadIeIetf := by decide
      simp [hid, hlen, payloadMandatory, hlast]
      omega

theorem fits_iff : Fits cfg mem size c ↔
    c.buf + 2 + declaredLen c.parsingState (read16 mem c.buf) ≤ size ∧
      (c.parsingState = .mlmeSubie →
        (2 + declaredLen c.parsingState (read16 mem c.buf) : ℤ) ≤ c.nestedMlmeLen) ∧
      mandatoryLen cfg mem c.parsingState (read16 mem c.buf) (c.buf + 2) ≤
        declaredLen c.parsingState (read16 mem c.buf) :=
  ⟨fun h => ⟨h.room, h.nested, h.mandatory⟩, fun h => ⟨h.1, h.2.1, h.2.2⟩⟩

/-- **The condition on an element** is that the round reads nothing behind the last byte, and
accepts the element only when it fits. -/
theorem elementOk_iff (htwo : 2 ≤ c.bufSize) (hsize : c.bufSize < 256)
    (hroom : c.buf + c.bufSize = size) : ElementOk cfg mem size c ↔
      (parseElement cfg c).extent mem ≤ size ∧
        ((parseElement cfg c).val mem ≠ .fail → Fits cfg mem size c) := by
  have hsize₂ : (c.advance 2).bufSize = c.bufSize - 2 := subUint8_of_le hsize htwo
  have hbuf₂ : (c.advance 2).buf = c.buf + 2 := rfl
  have hnested₂ : (c.advance 2).nestedMlmeLen = c.nestedMlmeLen := rfl
  have hstate₂ : (c.advance 2).parsingState = c.parsingState := rfl
  have hroom₂ : (c.advance 2).buf + (c.advance 2).bufSize = size := by omega
  rw [parseElement_extent htwo, parseElement_val htwo, fits_iff, max_le_iff]
  have hdesc : c.buf + 2 ≤ size := by omega
  simp only [hdesc, true_and]
  simp only [ElementOk, elementBody, hstate₂, ← hbuf₂, ← hnested₂]
  generalize read16 mem c.buf = ieDesc
  cases h : c.parsingState with
  | headerIe =>
    obtain ⟨hextent, hval⟩ := @parseHeaderElement_spec cfg mem (c.advance 2) ieDesc (by omega)
    simp only [declaredLen, mandatoryLen, reduceCtorEq, false_imp_iff, true_and, true_iff]
    refine ⟨by omega, ?_⟩
    intro hne
    obtain hfail | ⟨hlen, hmandatory, -⟩ := hval
    · exact absurd hfail hne
    · exact ⟨by omega, hmandatory⟩
  | payloadIe =>
    simp only [declaredLen, mandatoryLen, reduceCtorEq, false_imp_iff, true_and]
    exact payloadOk_iff hroom₂
  | mlmeSubie =>
    rw [mlmeOk_iff hroom₂]
    simp only [true_imp_iff]
    refine and_congr_right fun _ => ⟨?_, fun hall hne => (hall hne).2.2⟩
    intro hmandatory hne
    obtain hfail | ⟨hlen, hnested, -⟩ := @parseMlmeSubie_keeps cfg mem (c.advance 2) ieDesc
    · exact absurd hfail hne
    · exact ⟨by omega, hnested, hmandatory hne⟩

/-- What a round leaves where the counter is that of the bytes that remain: it still is, and
what is recorded of a 6top element is inside. -/
def RoundInside (size : ℕ) (c : ParseCursor) : ParseStep → Prop
  | .fail => True
  | .done _ ies => SameContent c.ies ies
  | .more c' => c'.buf + c'.bufSize = size ∧ c.buf ≤ c'.buf ∧ ContentInside size c.ies c'.ies

theorem RoundKeeps.inside {s : ParseStep} (h : RoundKeeps c len s) (hsize : c.bufSize < 256)
    (hroom : c.buf + c.bufSize = size) (hlen : len ≤ c.bufSize) : RoundInside size c s := by
  cases s with
  | fail => trivial
  | done _ ies => exact h
  | more c' =>
    obtain ⟨hbuf, hbufSize, hsame⟩ := h
    rw [subUint8_of_le hsize hlen] at hbufSize
    exact ⟨by omega, by omega, Or.inl hsame⟩

/-- A payload element that fits is passed over inside. -/
theorem parsePayloadElement_inside (hsize : c.bufSize < 256) (hroom : c.buf + c.bufSize = size)
    (hlen : c.buf + longLen ieDesc ≤ size)
    (hmandatory : payloadMandatory cfg (longId ieDesc) ≤ longLen ieDesc) :
    RoundInside size c ((parsePayloadElement cfg ieDesc c).val mem) := by
  by_cases hid : ieType ieDesc ∧ (longId ieDesc = payloadIeMlme ∨
      longId ieDesc = payloadIeIetf ∧ cfg.withSixtop)
  · obtain ⟨htype, hmlme | hietf⟩ := hid
    · rw [parsePayloadElement_mlme htype hmlme]
      exact ⟨hroom, le_rfl, Or.inl ⟨rfl, rfl⟩⟩
    · obtain ⟨-, ies, hval, hcontent⟩ := @parsePayloadElement_ietf cfg mem c ieDesc htype hietf
      rw [hval]
      simp only [payloadMandatory, if_pos hietf] at hmandatory
      have hbufSize : (c.advance (longLen ieDesc)).bufSize = c.bufSize - longLen ieDesc :=
        subUint8_of_le hsize (by omega)
      have hbuf : (c.advance (longLen ieDesc)).buf = c.buf + longLen ieDesc := rfl
      refine ⟨?_, ?_, ?_⟩
      · simp only
        omega
      · simp only
        omega
      · obtain hsame | ⟨hptr, hcontentLen⟩ := hcontent
        · exact Or.inl hsame
        · refine Or.inr ⟨_, hptr, ?_⟩
          -- the length is at least one, so nothing wraps around
          have hlong : longLen ieDesc < 2 ^ 16 := BitVec.isLt _
          have htoNat : (1 : BitVec 16).toNat = 1 := rfl
          have hone : (1 : BitVec 16) ≤ BitVec.ofNat 16 (longLen ieDesc) := by
            rw [BitVec.le_def, BitVec.toNat_ofNat]
            omega
          simp only [hcontentLen]
          rw [BitVec.toNat_sub_of_le hone, BitVec.toNat_ofNat]
          omega
  · obtain ⟨-, hfail | ⟨-, -, hdone⟩⟩ := @parsePayloadElement_other cfg mem c ieDesc hid
    · rw [hfail]
      trivial
    · rw [hdone]
      exact ⟨rfl, rfl⟩

/-- **A round of the loop.** After an element that fits the counter is that of the bytes that
remain, and what is recorded of a 6top element is inside. -/
theorem parseElement_inside (htwo : 2 ≤ c.bufSize) (hsize : c.bufSize < 256)
    (hroom : c.buf + c.bufSize = size) (hfits : Fits cfg mem size c) :
    RoundInside size (c.advance 2) ((parseElement cfg c).val mem) := by
  have hsize₂ : (c.advance 2).bufSize = c.bufSize - 2 := subUint8_of_le hsize htwo
  have hbuf₂ : (c.advance 2).buf = c.buf + 2 := rfl
  have hstate₂ : (c.advance 2).parsingState = c.parsingState := rfl
  have hroom₂ : (c.advance 2).buf + (c.advance 2).bufSize = size := by omega
  have hlt₂ : (c.advance 2).bufSize < 256 := by omega
  rw [parseElement_val htwo]
  simp only [elementBody, hstate₂]
  cases h : c.parsingState with
  | headerIe =>
    obtain hfail | ⟨hlen, -, hkeeps⟩ :=
      (@parseHeaderElement_spec cfg mem (c.advance 2) (read16 mem c.buf) hlt₂).2
    · simp only [hfail]
      trivial
    · exact hkeeps.inside hlt₂ hroom₂ hlen
  | payloadIe =>
    have hlen := hfits.room
    have hmandatory := hfits.mandatory
    simp only [h, declaredLen, mandatoryLen] at hlen hmandatory
    exact parsePayloadElement_inside hlt₂ hroom₂ hlen hmandatory
  | mlmeSubie =>
    obtain hfail | ⟨hlen, -, hkeeps⟩ :=
      @parseMlmeSubie_keeps cfg mem (c.advance 2) (read16 mem c.buf)
    · simp only [hfail]
      trivial
    · exact hkeeps.inside hlt₂ hroom₂ hlen

/-! ## The loop -/

variable {bufSize : Byte} {rounds : ℕ}

theorem parseLoop_zero_bytes (h : c.bufSize = 0) :
    parseLoop cfg (rounds + 1) c = return some (some c.finish) := by
  simp only [parseLoop, if_pos h]

theorem parseLoop_val (h : c.bufSize ≠ 0) : (parseLoop cfg (rounds + 1) c).val mem =
    match (parseElement cfg c).val mem with
    | .fail => some none
    | .done len ies => some (some (len, ies))
    | .more c' => (parseLoop cfg rounds c').val mem := by
  rw [parseLoop, if_neg h]
  simp only [val_bind]
  cases (parseElement cfg c).val mem <;> rfl

theorem parseLoop_extent (h : c.bufSize ≠ 0) : (parseLoop cfg (rounds + 1) c).extent mem =
    max ((parseElement cfg c).extent mem)
      (match (parseElement cfg c).val mem with
      | .more c' => (parseLoop cfg rounds c').extent mem
      | _ => 0) := by
  rw [parseLoop, if_neg h]
  simp only [extent_bind]
  cases (parseElement cfg c).val mem <;> rfl

/-- The counter is that of the bytes that remain. -/
def Counts (size : ℕ) (c : ParseCursor) : Prop := c.buf + c.bufSize = size ∧ c.bufSize < 256

/-- A round reads inside, and accepts only what fits. -/
def RoundGood (cfg : IeConfig) (mem : ℕ → Byte) (size : ℕ) (c : ParseCursor) : Prop :=
  (parseElement cfg c).extent mem ≤ size ∧
    ((parseElement cfg c).val mem ≠ .fail → Fits cfg mem size c)

theorem elementOk_iff_roundGood (h : Counts size c) (htwo : 2 ≤ c.bufSize) :
    ElementOk cfg mem size c ↔ RoundGood cfg mem size c :=
  elementOk_iff htwo h.2 h.1

/-- With one byte that remains a round is good. -/
theorem roundGood_short (h : c.bufSize < 2) : RoundGood cfg mem size c := by
  rw [RoundGood, parseElement_short h]
  simp

theorem ContentInside.trans {ies₁ ies₂ ies₃ : Ieee802154Ies} (h : ContentInside size ies₁ ies₂)
    (h' : ContentInside size ies₂ ies₃) : ContentInside size ies₁ ies₃ := by
  obtain hsame' | hinside' := h'
  · obtain hsame | ⟨ptr, hptr, hlen⟩ := h
    · exact Or.inl ⟨hsame'.1.trans hsame.1, hsame'.2.trans hsame.2⟩
    · exact Or.inr ⟨ptr, hsame'.1.trans hptr, by rw [hsame'.2]; exact hlen⟩
  · exact Or.inr hinside'

/-- **The step lemma.** A good round leads to a cursor further on with the counter right. -/
theorem RoundGood.next (h : RoundGood cfg mem size c) (hcounts : Counts size c)
    (hnext : NextRound cfg mem c c') :
    Counts size c' ∧ c.buf + 2 ≤ c'.buf ∧ ContentInside size c.ies c'.ies := by
  obtain ⟨hne, hval⟩ := hnext
  have htwo : 2 ≤ c.bufSize := by
    by_contra hshort
    rw [parseElement_short (by omega)] at hval
    cases hval
  have hfits := h.2 (by rw [hval]; nofun)
  have hinside := parseElement_inside htwo hcounts.2 hcounts.1 hfits
  rw [hval] at hinside
  obtain ⟨hroom, hbuf, hcontent⟩ := hinside
  have hbuf₂ : (c.advance 2).buf = c.buf + 2 := rfl
  obtain ⟨hcount, hlt⟩ := hcounts
  exact ⟨⟨hroom, by omega⟩, by omega, hcontent⟩

theorem RoundGood.done (h : RoundGood cfg mem size c) (hcounts : Counts size c) {n : ℕ}
    (hval : (parseElement cfg c).val mem = .done n ies) : SameContent c.ies ies := by
  have htwo : 2 ≤ c.bufSize := by
    by_contra hshort
    rw [parseElement_short (by omega)] at hval
    cases hval
  have hinside := parseElement_inside htwo hcounts.2 hcounts.1 (h.2 (by rw [hval]; nofun))
  rwa [hval] at hinside

/-- Every round from a cursor on is good. -/
def GoodFrom (cfg : IeConfig) (mem : ℕ → Byte) (size : ℕ) (c : ParseCursor) : Prop :=
  ∀ c', Relation.ReflTransGen (NextRound cfg mem) c c' → RoundGood cfg mem size c'

section

variable (h : GoodFrom cfg mem size c)

include h

theorem GoodFrom.round : RoundGood cfg mem size c :=
  h c Relation.ReflTransGen.refl

theorem GoodFrom.next (hnext : NextRound cfg mem c c') :
    GoodFrom cfg mem size c' :=
  fun d hd => h d (Relation.ReflTransGen.head hnext hd)

/-- **The run lemma.** A loop of good rounds reads inside, and what it records of a 6top
element is inside. -/
theorem GoodFrom.inside (hcounts : Counts size c) (rounds : ℕ) :
    (parseLoop cfg rounds c).extent mem ≤ size ∧
      ∀ len ies', (parseLoop cfg rounds c).val mem = some (some (len, ies')) →
        ContentInside size c.ies ies' := by
  induction rounds generalizing c with
  | zero => exact ⟨Nat.zero_le _, nofun⟩
  | succ rounds ih =>
    by_cases hne : c.bufSize = 0
    · rw [parseLoop_zero_bytes hne]
      refine ⟨Nat.zero_le _, ?_⟩
      intro len ies' hval
      simp only [val_pure, Option.some.injEq, ParseCursor.finish, Prod.mk.injEq] at hval
      obtain ⟨-, rfl⟩ := hval
      split_ifs
      · exact Or.inl ⟨rfl, rfl⟩
      · exact Or.inl ⟨rfl, rfl⟩
    · rw [parseLoop_extent hne, parseLoop_val hne]
      have hround := h.round
      cases hval : (parseElement cfg c).val mem with
      | fail => exact ⟨max_le hround.1 (Nat.zero_le _), nofun⟩
      | done n ies =>
        refine ⟨max_le hround.1 (Nat.zero_le _), ?_⟩
        rintro len ies' hres
        simp only [Option.some.injEq, Prod.mk.injEq] at hres
        obtain ⟨-, rfl⟩ := hres
        exact Or.inl (hround.done hcounts hval)
      | more c' =>
        have hnext : NextRound cfg mem c c' := ⟨hne, hval⟩
        obtain ⟨hcounts', -, hcontent⟩ := hround.next hcounts hnext
        obtain ⟨hextent, hres⟩ := ih (h.next hnext) hcounts'
        exact ⟨max_le hround.1 hextent, fun len ies' hval => hcontent.trans (hres len ies' hval)⟩

/-- A loop of good rounds ends: each round goes on by two bytes. -/
theorem GoodFrom.terminates (hcounts : Counts size c) :
    ∃ rounds, (parseLoop cfg rounds c).val mem ≠ none := by
  induction hn : size - c.buf using Nat.strong_induction_on generalizing c with
  | _ n ih =>
    by_cases hne : c.bufSize = 0
    · exact ⟨1, by rw [parseLoop_zero_bytes hne]; simp⟩
    · cases hval : (parseElement cfg c).val mem with
      | fail => exact ⟨1, by rw [parseLoop_val hne, hval]; simp⟩
      | done n ies => exact ⟨1, by rw [parseLoop_val hne, hval]; simp⟩
      | more c' =>
        have hnext : NextRound cfg mem c c' := ⟨hne, hval⟩
        obtain ⟨hcounts', hbuf, -⟩ := h.round.next hcounts hnext
        have hroom := hcounts.1
        obtain ⟨rounds, hrounds⟩ := ih (size - c'.buf) (by omega) (h.next hnext) hcounts' rfl
        exact ⟨rounds + 1, by rw [parseLoop_val hne, hval]; exact hrounds⟩

end

/-- What a round reads the loop reads. -/
theorem extent_le_of_reached (h : Relation.ReflTransGen (NextRound cfg mem) c c')
    (hne : c'.bufSize ≠ 0) :
    ∃ rounds, (parseElement cfg c').extent mem ≤ (parseLoop cfg rounds c).extent mem := by
  induction h using Relation.ReflTransGen.head_induction_on with
  | refl => exact ⟨1, by rw [parseLoop_extent hne]; exact le_max_left _ _⟩
  | head hnext _ ih =>
    obtain ⟨rounds, hrounds⟩ := ih
    refine ⟨rounds + 1, ?_⟩
    rw [parseLoop_extent hnext.1, hnext.2]
    exact hrounds.trans (le_max_right _ _)

theorem counts_start : Counts bufSize.toNat (ParseCursor.start bufSize ies) :=
  ⟨Nat.zero_add _, bufSize.isLt⟩

/-- As long as the rounds are good, the counter is right at every cursor. -/
theorem Reached.counts (h : Reached cfg mem bufSize ies c)
    (hgood : ∀ c, Reached cfg mem bufSize ies c → Counts bufSize.toNat c →
      RoundGood cfg mem bufSize.toNat c) : Counts bufSize.toNat c := by
  induction h with
  | refl => exact counts_start
  | tail hreached hnext ih => exact ((hgood _ hreached ih).next ih hnext).1

/-- **Safe parsing.** The parser ends, reads only what is there, records what is there of a
6top element and rejects an element that does not fit, if and only if the condition holds at
every element it comes to. -/
theorem safe_iff (cfg : IeConfig) (mem : ℕ → Byte) (bufSize : Byte) (ies : Ieee802154Ies) :
    Safe cfg mem bufSize ies ↔ ∀ c, Reached cfg mem bufSize ies c → 2 ≤ c.bufSize →
      ElementOk cfg mem bufSize.toNat c := by
  constructor
  · intro hsafe
    have hgood : ∀ c, Reached cfg mem bufSize ies c → Counts bufSize.toNat c →
        RoundGood cfg mem bufSize.toNat c := by
      intro c hreached _
      by_cases hshort : c.bufSize < 2
      · exact roundGood_short hshort
      · have hne : c.bufSize ≠ 0 := by omega
        obtain ⟨rounds, hrounds⟩ := extent_le_of_reached hreached hne
        refine ⟨hrounds.trans (hsafe.reads rounds), ?_⟩
        intro hval
        by_contra hfits
        exact hval (hsafe.rejects c hreached hne hfits)
    intro c hreached htwo
    have hcounts := hreached.counts hgood
    exact (elementOk_iff_roundGood hcounts htwo).mpr (hgood c hreached hcounts)
  · intro hok
    have hgood : ∀ c, Reached cfg mem bufSize ies c → Counts bufSize.toNat c →
        RoundGood cfg mem bufSize.toNat c := by
      intro c hreached hcounts
      by_cases hshort : c.bufSize < 2
      · exact roundGood_short hshort
      · exact (elementOk_iff_roundGood hcounts (by omega)).mp (hok c hreached (by omega))
    have hfrom : GoodFrom cfg mem bufSize.toNat (ParseCursor.start bufSize ies) :=
      fun c hreached => hgood c hreached (Reached.counts hreached hgood)
    exact
      { terminates := hfrom.terminates counts_start
        reads := fun rounds => (hfrom.inside counts_start rounds).1
        content := fun rounds => (hfrom.inside counts_start rounds).2
        rejects := fun c hreached _ hfits => by
          by_contra hval
          exact hfits ((hfrom c hreached).2 hval) }

/-! ## A 6top element without content -/

/-- Nothing is in the elements yet. -/
def Ieee802154Ies.zero : Ieee802154Ies where
  ieUpaInfo := 0
  ieTimeCorrection := 0
  ieIsNack := 0
  iePayloadIeOffset := 0
  ieMlmeLen := 0
  ieSlaTriggeringAsn := ⟨0, 0⟩
  ieSlaCurrTimeslotLen := 0
  ieSlaNextTimeslotLen := 0
  ieAsn := ⟨0, 0⟩
  ieJoinPriority := 0
  ieTschTimeslotId := 0
  ieTschTimeslot := fun _ => 0
  ieTschSlotframeAndLink := ⟨0, 0, 0, 0, fun _ => ⟨0, 0, 0⟩⟩
  ieChannelHoppingSequenceId := 0
  ieHoppingSequenceLen := 0
  ieHoppingSequenceList := fun _ => 0
  sixtopIeContentPtr := none
  sixtopIeContentLen := 0

/-- A build with everything. -/
def fullConfig : IeConfig where
  withUpa := true
  withSla := true
  withSixtop := true
  upaTripleCca := true
  hoppingSequenceMaxLen := 16

/-- A list termination, an IETF element of no length before the byte of a 6top element, and
an MLME element that is longer than what remains. -/
def emptySixtopBytes : List Byte := [0x00, 0x3f, 0x00, 0xa8, 0xc9, 0x88]

/-- The element is accepted, with a content of 65535 bytes. -/
theorem empty_sixtop_not_safe :
    (∃ len ies, (parseInformationElements fullConfig 4 6 Ieee802154Ies.zero).val
        (fun i => emptySixtopBytes.getD i 0) = some (some (len, ies)) ∧
      ies.sixtopIeContentPtr = some 5 ∧ ies.sixtopIeContentLen = 65535) ∧
    ¬Safe fullConfig (fun i => emptySixtopBytes.getD i 0) 6 Ieee802154Ies.zero := by
  have hparsed : ∃ len ies, (parseInformationElements fullConfig 4 6 Ieee802154Ies.zero).val
        (fun i => emptySixtopBytes.getD i 0) = some (some (len, ies)) ∧
      ies.sixtopIeContentPtr = some 5 ∧ ies.sixtopIeContentLen = 65535 :=
    ⟨_, _, rfl, rfl, rfl⟩
  refine ⟨hparsed, ?_⟩
  intro hsafe
  obtain ⟨len, ies, hval, hptr, hlen⟩ := hparsed
  obtain ⟨hnone, -⟩ | ⟨ptr, hptr', hinside⟩ := hsafe.content 4 len ies hval
  · rw [hptr] at hnone
    cases hnone
  · rw [hlen] at hinside
    have hlarge : (65535 : BitVec 16).toNat = 65535 := rfl
    have hsmall : (6 : Byte).toNat = 6 := rfl
    omega

end Asap.Framer
