import Asap.Framer.IeFrames

/-!
# The bytes of a beacon

The elements of a beacon are written one behind the other, each where the length ends that the
creator of the one before it returned. Two creators can write more than this length, and what is
beyond it is overwritten, or left behind the beacon. So the bytes of a beacon depend on what it
advertises only, in every build, and so does what is found in them.

## Main definitions

* `declaredBytes`, `ebBytes` — the bytes of an element up to its length, and those of a beacon.
* `Passes` — bytes that the loop goes over, in one or more rounds.
* `ebParsed` — what is found in a beacon.
-/

namespace Asap.Framer

open Asap.Lib Asap.Tsch List Read Option

variable {cfg : IeConfig} {mem mem' : ℕ → Byte} {c : ParseCursor} {ies x : Ieee802154Ies}
  {create : IeCreator} {pos n : ℕ} {room : ℤ} {bs bs' : List Byte}
  {found found' : Ieee802154Ies → Ieee802154Ies}

/-- The bytes of an element, as many as its creator returns. -/
def declaredBytes (ies : Ieee802154Ies) (create : IeCreator) : List Byte :=
  ((create packetbufSize ies).map fun r => r.1.take r.2).getD []

/-- The bytes of the elements of a beacon. -/
def ebBytes (cfg : IeConfig) (ies : Ieee802154Ies) : List Byte :=
  (ebElements cfg).flatMap (declaredBytes ies)

/-! ## Creation -/

/-- A creator writes at least as much as it returns, and the same with more room. -/
def WritesAll (ies : Ieee802154Ies) (create : IeCreator) : Prop :=
  ∀ room ≤ (packetbufSize : ℤ), ∀ r, create room ies = some r →
    r.2 ≤ r.1.length ∧ create packetbufSize ies = some r

theorem createIe_eq {ieLen : ℕ} {r : List Byte × ℕ} (h : createIe room ieLen bs = some r) :
    r = (bs, 2 + ieLen) := by
  rw [createIe] at h
  split_ifs at h
  exact (Option.some.inj h).symm

theorem createIe_mono {ieLen : ℕ} {room' : ℤ} {r : List Byte × ℕ}
    (h : createIe room ieLen bs = some r) (hroom : room ≤ room') :
    createIe room' ieLen bs = some r := by
  have hfit := createIe_room h
  have hfit' : (2 + ieLen : ℤ) ≤ room' := by omega
  rw [createIe, if_pos hfit] at h
  rw [createIe, if_pos hfit', h]

theorem Creates.writesAll (h : Creates cfg ies create found)
    (hmono : ∀ room ≤ (packetbufSize : ℤ), ∀ r, create room ies = some r →
      create packetbufSize ies = some r) : WritesAll ies create := by
  intro room hroom r hr
  have ⟨hlengths, _⟩ := h room hroom r.1 r.2 hr
  exact ⟨hlengths.length.ge, hmono room hroom r hr⟩

theorem writesAll_timeslot : WritesAll ies (createIeTschTimeslot cfg) := by
  intro room hroom r hr
  refine ⟨?_, createIe_mono hr hroom⟩
  rw [createIe_eq hr]
  by_cases hid : ies.ieTschTimeslotId = 0
  · simp [hid, createMlmeShortIeDescriptor]
  · have htwelve : 12 ≤ cfg.tsElementsCount := by
      rw [IeConfig.tsElementsCount]
      split <;> decide
    have hwords := length_flatMap_range (f := fun i => le16 (ies.ieTschTimeslot i))
      (fun _ => rfl : ∀ i, _ = 2) cfg.tsElementsCount
    simp only [ne_eq, hid, not_false_eq_true, if_true, if_false, length_append, hwords,
      createMlmeShortIeDescriptor, length_le16, length_singleton]
    omega

theorem writesAll_hoppingSequence : WritesAll ies (createIeTschChannelHoppingSequence cfg) := by
  intro room hroom r hr
  simp only [createIeTschChannelHoppingSequence] at hr ⊢
  by_cases hmax : cfg.hoppingSequenceMaxLen < ies.ieHoppingSequenceLen.toNat
  · rw [if_pos hmax] at hr
    cases hr
  · rw [if_neg hmax] at hr ⊢
    refine ⟨?_, createIe_mono hr hroom⟩
    rw [createIe_eq hr]
    simp only [createMlmeLongIeDescriptor, length_append, length_le16, length_cons,
      length_nil, length_map, length_range]
    split_ifs <;> omega

theorem slotframeAndLink_mono (hroom : room ≤ packetbufSize) {r : List Byte × ℕ}
    (hr : createIeTschSlotframeAndLink room ies = some r) :
    createIeTschSlotframeAndLink packetbufSize ies = some r := by
  simp only [createIeTschSlotframeAndLink] at hr ⊢
  split_ifs at hr ⊢ with hlimit hone
  · exact createIe_mono hr hroom
  · exact createIe_mono hr hroom

/-- All creators of a beacon write at least as much as they return. -/
theorem ebElements_writesAll (cfg : IeConfig) (ies : Ieee802154Ies) :
    ∀ create ∈ ebElements cfg, WritesAll ies create := by
  intro create hcreate
  simp only [ebElements, mem_append, mem_cons, not_mem_nil, or_false] at hcreate
  rcases hcreate with (rfl | hsla) | rfl | rfl | rfl
  · exact (@creates_synchronization cfg ies).writesAll fun _ hroom _ hr => createIe_mono hr hroom
  · by_cases hwith : cfg.withSla
    · rw [if_pos hwith, mem_pair] at hsla
      cases hsla with
      | inl heq =>
        rw [heq]
        exact (@creates_slaTriggeringAsn cfg ies hwith).writesAll
          fun _ hroom _ hr => createIe_mono hr hroom
      | inr heq =>
        rw [heq]
        exact (@creates_slaTimeslotLen cfg ies hwith).writesAll
          fun _ hroom _ hr => createIe_mono hr hroom
    · rw [if_neg hwith] at hsla
      exact absurd hsla not_mem_nil
  · exact writesAll_timeslot
  · exact writesAll_hoppingSequence
  · exact (@creates_slotframeAndLink cfg ies).writesAll
      fun _ hroom _ hr => slotframeAndLink_mono hroom hr

/-- The elements are held up to their lengths, one behind the other. -/
theorem createAll_bytes {creates : List IeCreator} (hroom : room ≤ packetbufSize)
    (hwrites : ∀ create ∈ creates, WritesAll ies create)
    (h : createAll room ies creates mem pos = some (mem', n)) :
    n = pos + (creates.flatMap (declaredBytes ies)).length ∧
      Holds mem' pos (creates.flatMap (declaredBytes ies)) ∧ (∀ i < pos, mem' i = mem i) ∧
      ∀ create ∈ creates, (create packetbufSize ies).isSome := by
  induction creates generalizing mem pos with
  | nil =>
    simp only [createAll, Option.some.injEq, Prod.mk.injEq] at h
    obtain ⟨hmem, hn⟩ := h
    exact ⟨hn.symm, holds_nil, fun i _ => by rw [hmem], fun _ hnil => absurd hnil not_mem_nil⟩
  | cons create creates ih =>
    obtain ⟨bs, k, hcreate, hrest⟩ := createAll_cons h
    obtain ⟨hlen, hsome⟩ := hwrites create mem_cons_self _ (by omega) _ hcreate
    obtain ⟨hn, hholds, hbefore, hall⟩ :=
      ih (fun create' hmem => hwrites create' (mem_cons_of_mem _ hmem)) hrest
    have hbytes : declaredBytes ies create = bs.take k := by
      rw [declaredBytes, hsome]
      rfl
    have hk : (declaredBytes ies create).length = k := by
      rw [hbytes, length_take]
      exact Nat.min_eq_left hlen
    rw [flatMap_cons, length_append, hk]
    refine ⟨by omega, holds_append.mpr ⟨?_, by rwa [hk]⟩, fun i hi => ?_, ?_⟩
    · rw [hbytes]
      intro i hi
      rw [length_take] at hi
      rw [hbefore (pos + i) (by omega), holds_store mem pos bs i (by omega), getElem_take]
    · rw [hbefore i (by omega), store_of_lt hi]
    · intro create' hmem
      rcases mem_cons.mp hmem with rfl | hmem
      · rw [hsome]
        rfl
      · exact hall create' hmem

/-- The bytes of a beacon behind its header: a termination, the element that nests the others, and
those. -/
def ebIeBytes (cfg : IeConfig) (ies : Ieee802154Ies) : List Byte :=
  createHeaderIeDescriptor headerIeListTermination1 0 ++
    (createPayloadIeDescriptor payloadIeMlme (ebBytes cfg ies).length ++ ebBytes cfg ies)

/-- A beacon that could be created. -/
structure EbCreated (cfg : IeConfig) (ies : Ieee802154Ies) : Prop where
  length_le : (ebBytes cfg ies).length ≤ 122
  isSome : ∀ create ∈ ebElements cfg, (create packetbufSize ies).isSome

theorem tschPacketCreateEb_memory (h : tschPacketCreateEb cfg mem ies = some (mem', n)) :
    EbCreated cfg ies ∧ n = (ebIeBytes cfg ies).length ∧ Holds mem' 0 (ebIeBytes cfg ies) := by
  simp only [tschPacketCreateEb] at h
  cases hall : createAll packetbufSize ies (ebElements cfg) mem 0 with
  | none =>
    rw [hall] at h
    cases h
  | some r =>
    obtain ⟨mem₁, mlmeLen⟩ := r
    obtain ⟨hlen, hmem, -, hsome⟩ := createAll_bytes le_rfl (ebElements_writesAll cfg ies) hall
    rw [Nat.zero_add, ← ebBytes] at hlen
    rw [← ebBytes] at hmem
    subst hlen
    rw [hall] at h
    dsimp only at h
    cases hmlme : createIeMlme (packetbufSize - ((ebBytes cfg ies).length + 2))
        { ies with ieMlmeLen := BitVec.ofNat 16 (ebBytes cfg ies).length } with
    | none =>
      rw [hmlme] at h
      cases h
    | some mlme =>
      cases htermination : createIeHeaderListTermination1
          (packetbufSize - ((ebBytes cfg ies).length + 4))
          { ies with ieMlmeLen := BitVec.ofNat 16 (ebBytes cfg ies).length } with
      | none =>
        rw [hmlme, htermination] at h
        cases h
      | some termination =>
        rw [hmlme, htermination] at h
        simp only [Option.some.injEq, Prod.mk.injEq] at h
        obtain ⟨rfl, rfl⟩ := h
        have hroom := createIe_room htermination
        have hsize : packetbufSize = 128 := rfl
        have hlen : (BitVec.ofNat 16 (ebBytes cfg ies).length).toNat = (ebBytes cfg ies).length :=
          Nat.mod_eq_of_lt (by omega)
        have hmlmeBytes := createIe_eq hmlme
        rw [hlen] at hmlmeBytes
        refine ⟨⟨by omega, hsome⟩, ?_, ?_⟩
        · simp only [ebIeBytes, length_append, createHeaderIeDescriptor,
            createPayloadIeDescriptor, length_le16]
          omega
        · rw [hmlmeBytes, createIe_eq htermination]
          exact (hmem.prepend).prepend

/-! ## Parsing -/

/-- Bytes that the loop goes over among the elements of the MLME, with what is found in them. -/
def Passes (cfg : IeConfig) (bs : List Byte) (found : Ieee802154Ies → Ieee802154Ies) : Prop :=
  0 < bs.length ∧ ∀ mem c, Among c bs.length → Holds mem c.buf bs →
    Relation.ReflTransGen (NextRound cfg mem) c (c.pass bs.length (found c.ies))

theorem IsElement.passes (h : IsElement cfg bs found) : Passes cfg bs found :=
  ⟨h.1, fun mem c hamong hmem => Relation.ReflTransGen.single (h.2 mem c hamong hmem)⟩

theorem Passes.append (h : Passes cfg bs found) (h' : Passes cfg bs' found') :
    Passes cfg (bs ++ bs') fun x => found' (found x) := by
  refine ⟨by rw [length_append]; exact Nat.add_pos_left h.1 _, fun mem c hamong hmem => ?_⟩
  rw [length_append] at hamong ⊢
  obtain ⟨hmem, hmem'⟩ := holds_append.mp hmem
  have hsize := hamong.bufSize
  have hnested := hamong.nested
  have hfirst : Among c bs.length :=
    ⟨hamong.parsingState, hamong.lt, by omega, by omega⟩
  have hrun := h'.2 mem (c.pass bs.length (found c.ies)) (hamong.pass h'.1) hmem'
  rw [pass_pass hamong h'.1] at hrun
  exact (h.2 mem c hfirst hmem).trans hrun

theorem declaredBytes_of_creates (h : Creates cfg ies create found)
    (hsome : (create packetbufSize ies).isSome) : Passes cfg (declaredBytes ies create) found := by
  have hr := some_get hsome
  generalize (create packetbufSize ies).get hsome = r at hr
  obtain ⟨hlengths, helement⟩ := h packetbufSize le_rfl r.1 r.2 hr.symm
  have hbytes : declaredBytes ies create = r.1 := by
    rw [declaredBytes, ← hr]
    exact take_of_length_le hlengths.length.le
  rw [hbytes]
  exact helement.passes

/-! ## What is found -/

/-- The length of the element for the timing. -/
def timeslotLen (ies : Ieee802154Ies) : ℕ := if ies.ieTschTimeslotId = 0 then 1 else 25

/-- The timing that is found, with the word behind the element as the thirteenth time. -/
def timingFound (cfg : IeConfig) (ies : Ieee802154Ies) (next : BitVec 16) (x : Ieee802154Ies) :
    Ieee802154Ies :=
  { x with
    ieTschTimeslotId := ies.ieTschTimeslotId
    ieTschTimeslot := fun i =>
      if ies.ieTschTimeslotId ≠ 0 ∧ i < cfg.tsElementsCount then
        if i < 12 then ies.ieTschTimeslot i else next
      else x.ieTschTimeslot i }

/-- The hopping sequence that is found. -/
def hoppingFound (ies x : Ieee802154Ies) : Ieee802154Ies :=
  if ies.ieChannelHoppingSequenceId = 0 then { x with ieChannelHoppingSequenceId := 0 }
  else
    { x with
      ieChannelHoppingSequenceId := ies.ieChannelHoppingSequenceId
      ieHoppingSequenceLen := ies.ieHoppingSequenceLen
      ieHoppingSequenceList := fun i =>
        if i < ies.ieHoppingSequenceLen.toNat then ies.ieHoppingSequenceList i
        else x.ieHoppingSequenceList i }

/-- The elements that are found first. -/
def frontFound (cfg : IeConfig) (ies x : Ieee802154Ies) : Ieee802154Ies :=
  let x := { x with ieAsn := ies.ieAsn, ieJoinPriority := ies.ieJoinPriority }
  if cfg.withSla then
    { x with
      ieSlaTriggeringAsn := ies.ieSlaTriggeringAsn
      ieSlaCurrTimeslotLen := ies.ieSlaCurrTimeslotLen
      ieSlaNextTimeslotLen := ies.ieSlaNextTimeslotLen }
  else x

/-- What is found in a beacon. -/
def ebParsed (cfg : IeConfig) (ies x : Ieee802154Ies) : Ieee802154Ies :=
  foundSlotframe ies.ieTschSlotframeAndLink (hoppingFound ies
    (timingFound cfg ies (descriptor (declaredBytes ies (createIeTschChannelHoppingSequence cfg)))
      (frontFound cfg ies x)))

theorem declaredBytes_timeslot : declaredBytes ies (createIeTschTimeslot cfg) =
    createMlmeShortIeDescriptor mlmeShortIeTschTimeslot (timeslotLen ies) ++
      ([ies.ieTschTimeslotId] ++ if ies.ieTschTimeslotId ≠ 0 then
        (List.range 12).flatMap fun i => le16 (ies.ieTschTimeslot i) else []) := by
  have hlen : ∀ id n, (createMlmeShortIeDescriptor id n).length = 2 := fun _ _ => rfl
  simp only [declaredBytes, createIeTschTimeslot, timeslotLen]
  by_cases hid : ies.ieTschTimeslotId = 0
  · have hfit : (2 + (1 : ℕ) : ℤ) ≤ packetbufSize := by decide
    rw [if_pos hid, createIe, if_pos hfit]
    simp only [hid]
    rfl
  · have hfit : (2 + (25 : ℕ) : ℤ) ≤ packetbufSize := by decide
    simp only [hid, ne_eq, not_false_eq_true, if_true, if_false, createIe, if_pos hfit,
      map_some, getD_some]
    have hwords := length_flatMap_range (f := fun i => le16 (ies.ieTschTimeslot i))
      (fun _ => rfl : ∀ i, _ = 2) 12
    obtain ⟨k, hk⟩ : ∃ k, cfg.tsElementsCount = 12 + k := by
      rw [IeConfig.tsElementsCount]
      split
      · exact ⟨1, rfl⟩
      · exact ⟨0, rfl⟩
    rw [hk, range_add, flatMap_append, ← append_assoc, take_append_of_le_length,
      take_of_length_le, append_assoc]
    all_goals
      rw [length_append, length_append, hlen, hwords]
      rfl

theorem length_declaredBytes_timeslot :
    (declaredBytes ies (createIeTschTimeslot cfg)).length = 2 + timeslotLen ies := by
  rw [declaredBytes_timeslot, timeslotLen]
  by_cases hid : ies.ieTschTimeslotId = 0
  · rw [if_pos hid, if_neg (not_not.mpr hid)]
    rfl
  · rw [if_neg hid, if_pos hid]
    rfl

/-- The timing is found, and where there are thirteen times what follows is taken for the last. -/
theorem nextRound_timeslot {next : BitVec 16} (hamong : Among c (2 + timeslotLen ies))
    (hmem : Holds mem c.buf (declaredBytes ies (createIeTschTimeslot cfg)))
    (hnext : Holds mem (c.buf + (2 + timeslotLen ies)) (le16 next)) :
    NextRound cfg mem c (c.pass (2 + timeslotLen ies) (timingFound cfg ies next c.ies)) := by
  rw [declaredBytes_timeslot, holds_append, holds_append] at hmem
  obtain ⟨hdesc, hbyte, hwords⟩ := hmem
  have hbyte : mem (c.buf + 2) = ies.ieTschTimeslotId := (holds_cons.mp hbyte).1
  refine nextRound_short hamong (by simp) hdesc ?_
  rw [parseMlmeShortIe, if_neg (by decide), if_neg (by decide), if_pos rfl, timingFound]
  by_cases hid : ies.ieTschTimeslotId = 0
  · have hlen : timeslotLen ies = 1 := if_pos hid
    simp only [hlen, parseTimeslot, true_or, if_true, val_bind, val_pure, val_byte,
      hbyte, hid, ne_eq, not_true_eq_false, false_and, if_false, OfNat.one_ne_ofNat]
  · have hlen : timeslotLen ies = 25 := if_neg hid
    rw [if_pos hid] at hwords
    rw [hlen] at hnext
    have hword : ∀ i < 12, read16 mem (c.buf + 2 + 1 + 2 * i) = ies.ieTschTimeslot i :=
      fun i hi => (hwords.flatMap (fun _ => rfl) i hi).read16
    have hlast : read16 mem (c.buf + 2 + 1 + 2 * 12) = next := hnext.read16
    have hcount : cfg.tsElementsCount ≤ 13 := by
      rw [IeConfig.tsElementsCount]
      split <;> decide
    simp only [hlen, parseTimeslot, or_true, if_true, val_bind, val_pure, val_byte,
      hbyte, val_gather, val_word, Option.some.injEq, Ieee802154Ies.mk.injEq, true_and,
      and_true]
    funext i
    by_cases hi : i < cfg.tsElementsCount
    · rw [if_pos hi, if_pos ⟨hid, hi⟩]
      by_cases htwelve : i < 12
      · rw [if_pos htwelve, hword i htwelve]
      · have hlastIndex : i = 12 := by omega
        rw [if_neg htwelve, hlastIndex, hlast]
    · rw [if_neg hi, if_neg fun h => hi h.2]

theorem passes_timeslot {next : BitVec 16} (h : Passes cfg (le16 next ++ bs) found) :
    Passes cfg (declaredBytes ies (createIeTschTimeslot cfg) ++ (le16 next ++ bs))
      fun x => found (timingFound cfg ies next x) := by
  have hlen := @length_declaredBytes_timeslot cfg ies
  refine ⟨by rw [length_append]; exact Nat.add_pos_right _ h.1, fun mem c hamong hmem => ?_⟩
  obtain ⟨hmem, hrest⟩ := holds_append.mp hmem
  rw [length_append, hlen] at hamong ⊢
  rw [hlen] at hrest
  have hsize := hamong.bufSize
  have hnested := hamong.nested
  have hfirst : Among c (2 + timeslotLen ies) :=
    ⟨hamong.parsingState, hamong.lt, by omega, by omega⟩
  have hround := nextRound_timeslot hfirst hmem (holds_append.mp hrest).1
  have hrun := h.2 mem (c.pass (2 + timeslotLen ies) (timingFound cfg ies next c.ies))
    (hamong.pass h.1) hrest
  rw [pass_pass hamong h.1] at hrun
  exact hrun.head hround

/-- Bytes that begin with a word, as many as that or more. -/
theorem take_le16 (d : BitVec 16) (bs : List Byte) (n : ℕ) : ∃ rest,
    (le16 d ++ bs).take (2 + n) = le16 (descriptor ((le16 d ++ bs).take (2 + n))) ++ rest := by
  have htake : (le16 d ++ bs).take ((le16 d).length + n) = le16 d ++ bs.take n :=
    take_length_add_append n
  rw [length_le16] at htake
  refine ⟨bs.take n, ?_⟩
  rw [htake, descriptor_le16]

/-- The hopping sequence is found, of which the identifier may be all. -/
theorem passes_hoppingSequence
    (hsome : (createIeTschChannelHoppingSequence cfg packetbufSize ies).isSome) :
    ∃ bs, declaredBytes ies (createIeTschChannelHoppingSequence cfg) =
        le16 (descriptor (declaredBytes ies (createIeTschChannelHoppingSequence cfg))) ++ bs ∧
      Passes cfg (declaredBytes ies (createIeTschChannelHoppingSequence cfg)) (hoppingFound ies) := by
  have hword : ∀ d (bs : List Byte), le16 d ++ bs = le16 (descriptor (le16 d ++ bs)) ++ bs :=
    fun d bs => by rw [descriptor_le16]
  by_cases hid : ies.ieChannelHoppingSequenceId = 0
  · have hbytes : declaredBytes ies (createIeTschChannelHoppingSequence cfg) =
        createMlmeLongIeDescriptor mlmeLongIeTschChannelHoppingSequence 1 ++ [0] := by
      have hfit : (2 + (1 : ℕ) : ℤ) ≤ packetbufSize := by decide
      simp only [declaredBytes, createIeTschChannelHoppingSequence] at hsome ⊢
      split_ifs at hsome ⊢ with hmax
      · exact absurd hsome Bool.false_ne_true
      · rw [createIe, if_pos hfit, hid]
        rfl
    rw [hbytes]
    refine ⟨[0], hword _ _, Nat.succ_pos _, fun mem c hamong hmem => ?_⟩
    obtain ⟨hdesc, hbyte⟩ := holds_append.mp hmem
    have hamong : Among c (2 + 1) := hamong
    have hbyte : mem (c.buf + 2) = 0 := (holds_cons.mp hbyte).1
    refine Relation.ReflTransGen.single (nextRound_long hamong hdesc ?_)
    rw [parseMlmeLongIe, if_pos rfl, if_pos Nat.one_pos, hoppingFound, if_pos hid]
    simp only [val_bind, val_byte, Nat.lt_irrefl, if_false, val_pure, hbyte]
  · have hfound : hoppingFound ies = _ := funext fun x => if_neg hid
    have hpasses := declaredBytes_of_creates (@creates_hoppingSequence cfg ies hid) hsome
    refine exists_and_right.mpr ⟨?_, hfound ▸ hpasses⟩
    simp only [declaredBytes, createIeTschChannelHoppingSequence, if_neg hid] at hsome ⊢
    split_ifs at hsome ⊢ with hmax
    · exact absurd hsome Bool.false_ne_true
    · have hr := some_get hsome
      generalize (createIe packetbufSize _ _).get hsome = r at hr
      rw [← hr, createIe_eq hr.symm]
      simp only [map_some, getD_some, createMlmeLongIeDescriptor, append_assoc]
      exact take_le16 _ _ _

/-! ## Beacons in all builds -/

section

variable (cfg : IeConfig) (ies : Ieee802154Ies)

/-- The bytes of the elements that come first. -/
def frontBytes : List Byte :=
  declaredBytes ies createIeTschSynchronization ++ if cfg.withSla then
    declaredBytes ies createIeTschSlaTriggeringAsn ++ declaredBytes ies createIeTschSlaTimeslotLen
  else []

/-- The bytes of the last three elements. -/
def restBytes : List Byte :=
  declaredBytes ies (createIeTschTimeslot cfg) ++
    (declaredBytes ies (createIeTschChannelHoppingSequence cfg) ++
      declaredBytes ies createIeTschSlotframeAndLink)

theorem ebBytes_eq :
    ebBytes cfg ies = frontBytes cfg ies ++ restBytes cfg ies := by
  cases hsla : cfg.withSla <;> simp [ebBytes, ebElements, frontBytes, restBytes, hsla]

end

theorem passes_frontBytes (h : EbCreated cfg ies) :
    Passes cfg (frontBytes cfg ies) (frontFound cfg ies) := by
  have hsync := declaredBytes_of_creates (@creates_synchronization cfg ies)
    (h.isSome _ (by simp [ebElements]))
  cases hsla : cfg.withSla with
  | false =>
    have hfound : frontFound cfg ies =
        fun x => { x with ieAsn := ies.ieAsn, ieJoinPriority := ies.ieJoinPriority } := by
      funext x
      rw [frontFound, hsla]
      rfl
    rw [frontBytes, hsla, if_neg Bool.false_ne_true, append_nil, hfound]
    exact hsync
  | true =>
    have htriggering := declaredBytes_of_creates (@creates_slaTriggeringAsn cfg ies hsla)
      (h.isSome _ (by simp [ebElements, hsla]))
    have htimeslotLen := declaredBytes_of_creates (@creates_slaTimeslotLen cfg ies hsla)
      (h.isSome _ (by simp [ebElements, hsla]))
    have hfound : frontFound cfg ies = fun x => { x with
        ieAsn := ies.ieAsn
        ieJoinPriority := ies.ieJoinPriority
        ieSlaTriggeringAsn := ies.ieSlaTriggeringAsn
        ieSlaCurrTimeslotLen := ies.ieSlaCurrTimeslotLen
        ieSlaNextTimeslotLen := ies.ieSlaNextTimeslotLen } := by
      funext x
      rw [frontFound, hsla]
      rfl
    rw [frontBytes, hsla, if_pos rfl, hfound]
    exact hsync.append (htriggering.append htimeslotLen)

theorem passes_restBytes (h : EbCreated cfg ies) : Passes cfg (restBytes cfg ies) fun x =>
    foundSlotframe ies.ieTschSlotframeAndLink (hoppingFound ies (timingFound cfg ies
      (descriptor (declaredBytes ies (createIeTschChannelHoppingSequence cfg))) x)) := by
  obtain ⟨bs, hword, hhopping⟩ := @passes_hoppingSequence cfg ies
    (h.isSome _ (by simp [ebElements]))
  have hslotframe := declaredBytes_of_creates (@creates_slotframeAndLink cfg ies)
    (h.isSome _ (by simp [ebElements]))
  have hrest := hhopping.append hslotframe
  rw [hword, append_assoc] at hrest
  have hrest := @passes_timeslot cfg ies _ _ _ hrest
  rw [← append_assoc (le16 _), ← hword] at hrest
  exact hrest

/-- The elements of a beacon are passed, with what is found in it. -/
theorem passes_ebBytes (h : EbCreated cfg ies) : Passes cfg (ebBytes cfg ies) (ebParsed cfg ies) := by
  rw [ebBytes_eq]
  exact (passes_frontBytes h).append (passes_restBytes h)

/-- **What is found in a beacon**, in every build and whatever it advertises. -/
theorem eb_found (h : EbCreated cfg ies) (hmem : Holds mem 0 (ebIeBytes cfg ies))
    (x : Ieee802154Ies) : ∃ rounds, (parseInformationElements cfg rounds
      (BitVec.ofNat 8 (ebIeBytes cfg ies).length) x).val mem =
        some (some ((ebIeBytes cfg ies).length,
          ebParsed cfg ies { x with iePayloadIeOffset := 2 })) := by
  have hlength : (ebIeBytes cfg ies).length = (ebBytes cfg ies).length + 4 := by
    simp only [ebIeBytes, length_append, createHeaderIeDescriptor, createPayloadIeDescriptor,
      length_le16]
    omega
  have hlen := h.length_le
  rw [hlength]
  obtain ⟨hpos, hpasses⟩ := passes_ebBytes h
  obtain ⟨htermination, hmem⟩ := holds_append.mp hmem
  obtain ⟨hmlme, hmem⟩ := holds_append.mp hmem
  generalize ebBytes cfg ies = bs at *
  have hsize : (BitVec.ofNat 8 (bs.length + 4)).toNat = bs.length + 4 := Nat.mod_eq_of_lt (by omega)
  let start := ParseCursor.start (BitVec.ofNat 8 (bs.length + 4)) x
  have hbuf : start.bufSize = bs.length + 4 := hsize
  let payload : ParseCursor :=
    ⟨2, bs.length + 2, .payloadIe, 0, { x with iePayloadIeOffset := 2 }⟩
  let mlme : ParseCursor :=
    ⟨4, bs.length, .mlmeSubie, bs.length, { x with iePayloadIeOffset := 2 }⟩
  have hfirst : NextRound cfg mem start payload := by
    have hnext : NextRound cfg mem start _ :=
      nextRound_headerTermination ⟨rfl, by omega, by omega⟩ htermination
    rw [hbuf] at hnext
    exact hnext
  have hsecond : NextRound cfg mem payload mlme := by
    have hroom : payload.bufSize = bs.length + 2 := rfl
    exact nextRound_mlme ⟨rfl, by omega, by omega⟩ (by omega) hmlme
  have hamong : Among mlme bs.length := by
    have hroom : mlme.bufSize = bs.length := rfl
    exact ⟨rfl, by omega, by omega, le_rfl⟩
  have hrun := (hpasses mem mlme hamong hmem).head hsecond |>.head hfirst
  have hempty : (mlme.pass bs.length (ebParsed cfg ies mlme.ies)).bufSize = 0 := Nat.sub_self _
  obtain ⟨rounds, hparsed⟩ := parseLoop_of_end hrun hempty
  refine ⟨rounds, ?_⟩
  rw [parseInformationElements, hparsed]
  have hnested : (bs.length : ℤ) - bs.length = 0 := Int.sub_self _
  simp only [ParseCursor.finish, ParseCursor.pass, mlme, hnested, if_true, Nat.add_comm 4,
    reduceCtorEq, if_false]

end Asap.Framer
