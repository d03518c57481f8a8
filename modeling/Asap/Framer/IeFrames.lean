import Asap.Framer.IeRoundTrip

/-!
# Frames with information elements are parsed as they are created

What the creators write one behind the other is passed element by element, so that what is
found in a frame is what each creator put into it, in turn.

## Main definitions

* `Elements` — bytes that are passed as elements of the MLME, one behind the other.
* `ie_round_trip_iff` — when everything a node can advertise is parsed as it was created.
-/

namespace Asap.Framer

open Asap.Lib Asap.Tsch List Read

variable {cfg : IeConfig} {mem mem' : ℕ → Byte} {c c' : ParseCursor} {ies x : Ieee802154Ies}
  {pos len n : ℕ} {bs : List Byte} {found : Ieee802154Ies → Ieee802154Ies}

/-! ## Elements one behind the other -/

/-- Bytes that are passed as elements of the MLME, one behind the other, with what is found
in all of them. -/
inductive Elements (cfg : IeConfig) : List Byte → (Ieee802154Ies → Ieee802154Ies) → Prop
  | one {bs : List Byte} {found : Ieee802154Ies → Ieee802154Ies} :
      IsElement cfg bs found → Elements cfg bs found
  | cons {bs rest : List Byte} {found found' : Ieee802154Ies → Ieee802154Ies} :
      IsElement cfg bs found → Elements cfg rest found' →
        Elements cfg (bs ++ rest) fun x => found' (found x)

theorem Elements.length_pos (h : Elements cfg bs found) : 0 < bs.length := by
  cases h with
  | one helement => exact helement.1
  | cons helement _ =>
    have hpos := helement.1
    rw [length_append]
    omega

/-- Behind an element the cursor is among the rest. -/
theorem Among.pass {m : ℕ} (h : Among c (n + m)) (hm : 0 < m) : Among (c.pass n x) m := by
  have hsize := h.bufSize
  have hnested := h.nested
  have hlt := h.lt
  have hne : c.nestedMlmeLen - n ≠ 0 := by omega
  refine ⟨?_, ?_, ?_, ?_⟩
  · simp only [ParseCursor.pass, if_neg hne]
    exact h.parsingState
  · simp only [ParseCursor.pass]
    omega
  · simp only [ParseCursor.pass]
    omega
  · simp only [ParseCursor.pass]
    omega

theorem pass_pass {m : ℕ} {y : Ieee802154Ies} (h : Among c (n + m)) (hm : 0 < m) :
    (c.pass n x).pass m y = c.pass (n + m) y := by
  have hnested := h.nested
  have hne : c.nestedMlmeLen - n ≠ 0 := by omega
  simp only [ParseCursor.pass, if_neg hne, Nat.cast_add, Nat.add_assoc, Nat.sub_sub,
    Int.sub_sub]

/-- The elements are passed, round by round. -/
theorem Elements.pass (h : Elements cfg bs found) : ∀ c, Among c bs.length →
    Holds mem c.buf bs →
      Relation.ReflTransGen (NextRound cfg mem) c (c.pass bs.length (found c.ies)) := by
  induction h with
  | one helement =>
    intro c hamong hmem
    exact Relation.ReflTransGen.single (helement.2 mem c hamong hmem)
  | @cons bs rest found found' helement hrest ih =>
    intro c hamong hmem
    rw [length_append] at hamong ⊢
    obtain ⟨hmem, hmem'⟩ := holds_append.mp hmem
    have hfirst : Among c bs.length :=
      ⟨hamong.parsingState, hamong.lt, by have := hamong.bufSize; omega,
        by have := hamong.nested; omega⟩
    have hnext := helement.2 mem c hfirst hmem
    have hrun := ih (c.pass bs.length (found c.ies)) (hamong.pass hrest.length_pos) hmem'
    rw [pass_pass hamong hrest.length_pos] at hrun
    exact Relation.ReflTransGen.head hnext hrun

/-- What a list of creators writes is passed as elements, and what is before it stays. -/
theorem createAll_elements {room : ℤ} (hroom : room ≤ packetbufSize) :
    ∀ {elements : List (IeCreator × (Ieee802154Ies → Ieee802154Ies))} {mem : ℕ → Byte} {pos : ℕ},
      (∀ e ∈ elements, Creates cfg ies e.1 e.2) →
      createAll room ies (elements.map Prod.fst) mem pos = some (mem', n) →
      ∃ bs, n = pos + bs.length ∧ Holds mem' pos bs ∧ (∀ i < pos, mem' i = mem i) ∧
        (elements ≠ [] → Elements cfg bs fun x => elements.foldl (fun x e => e.2 x) x)
  | [], mem, pos, _, h => by
    simp only [map_nil, createAll, Option.some.injEq, Prod.mk.injEq] at h
    obtain ⟨rfl, rfl⟩ := h
    exact ⟨[], rfl, holds_nil, fun _ _ => rfl, fun h => absurd rfl h⟩
  | (create, found) :: elements, mem, pos, hcreates, h => by
    simp only [map_cons, createAll] at h
    cases hcreate : create (room - pos) ies with
    | none =>
      rw [hcreate] at h
      cases h
    | some r =>
      obtain ⟨bs, k⟩ := r
      rw [hcreate] at h
      obtain ⟨hlengths, helement⟩ :=
        hcreates _ mem_cons_self (room - pos) (by omega) bs k hcreate
      obtain rfl := hlengths.length
      obtain ⟨rest, hn, hrest, hbefore, helements⟩ :=
        createAll_elements hroom (fun e he => hcreates e (mem_cons_of_mem _ he)) h
      refine ⟨bs ++ rest, ?_, ?_, ?_, ?_⟩
      · rw [length_append, hn, Nat.add_assoc]
      · refine holds_append.mpr ⟨?_, hrest⟩
        exact (holds_store mem pos bs).congr fun i _ hi => hbefore i hi
      · intro i hi
        rw [hbefore i (by omega), store_of_lt hi]
      · intro _
        cases elements with
        | nil =>
          simp only [map_nil, createAll, Option.some.injEq, Prod.mk.injEq] at h
          have hnil : rest = [] := length_eq_zero_iff.mp (by omega)
          rw [hnil, append_nil]
          exact Elements.one helement
        | cons e elements => exact Elements.cons helement (helements (cons_ne_nil _ _))

/-! ## Runs of the loop -/

/-- The loop returns what it returns from a cursor that it comes to. -/
theorem parseLoop_of_reached {r : Option (ℕ × Ieee802154Ies)}
    (h : Relation.ReflTransGen (NextRound cfg mem) c c')
    (hlast : ∃ rounds, (parseLoop cfg rounds c').val mem = some r) :
    ∃ rounds, (parseLoop cfg rounds c).val mem = some r := by
  induction h using Relation.ReflTransGen.head_induction_on with
  | refl => exact hlast
  | head hnext _ ih =>
    obtain ⟨rounds, hrounds⟩ := ih
    refine ⟨rounds + 1, ?_⟩
    rw [parseLoop_val hnext.1, hnext.2]
    exact hrounds

/-- The loop ends when no bytes remain. -/
theorem parseLoop_of_end (h : Relation.ReflTransGen (NextRound cfg mem) c c')
    (hsize : c'.bufSize = 0) :
    ∃ rounds, (parseLoop cfg rounds c).val mem = some (some c'.finish) := by
  refine parseLoop_of_reached h ⟨1, ?_⟩
  rw [parseLoop_zero_bytes hsize]
  rfl

/-- The loop ends with an element that terminates a list. -/
theorem parseLoop_of_done (h : Relation.ReflTransGen (NextRound cfg mem) c c')
    (hsize : c'.bufSize ≠ 0) (hdone : (parseElement cfg c').val mem = .done n x) :
    ∃ rounds, (parseLoop cfg rounds c).val mem = some (some (n, x)) := by
  refine parseLoop_of_reached h ⟨1, ?_⟩
  rw [parseLoop_val hsize, hdone]

/-! ## Elements that lead to others -/

/-- A cursor with a descriptor to go. -/
structure AtDescriptor (c : ParseCursor) (state : ParsingState) (n : ℕ) : Prop where
  parsingState : c.parsingState = state
  lt : c.bufSize < 256
  bufSize : 2 + n ≤ c.bufSize

theorem AtDescriptor.advance {state : ParsingState} (h : AtDescriptor c state n) :
    (c.advance 2).bufSize = c.bufSize - 2 := by
  have hroom := h.bufSize
  exact subUint8_of_le h.lt (by omega)

theorem AtDescriptor.round {state : ParsingState} (h : AtDescriptor c state n) (d : BitVec 16)
    (hdesc : Holds mem c.buf (le16 d)) :
    (parseElement cfg c).val mem = (elementBody cfg d (c.advance 2)).val mem := by
  have hroom := h.bufSize
  rw [parseElement_val (by omega), hdesc.read16]

/-- The elements of the header end. -/
theorem nextRound_headerTermination (h : AtDescriptor c .headerIe 0)
    (hdesc : Holds mem c.buf (createHeaderIeDescriptor headerIeListTermination1 0)) :
    NextRound cfg mem c ⟨c.buf + 2, c.bufSize - 2, .payloadIe, c.nestedMlmeLen,
      { c.ies with iePayloadIeOffset := BitVec.ofNat 8 (c.buf + 2) }⟩ := by
  have hroom := h.bufSize
  obtain ⟨htype, hlen, hid⟩ := headerDescriptor headerIeListTermination1 (by simp) 0 (by simp)
  refine ⟨by omega, ?_⟩
  rw [h.round _ hdesc]
  have hstate : (c.advance 2).parsingState = .headerIe := h.parsingState
  simp only [elementBody, hstate, parseHeaderElement, htype, Bool.false_eq_true, if_false, hid,
    if_true, hlen, val_pure, h.advance]
  rfl

/-- The elements of the MLME begin. -/
theorem nextRound_mlme (h : AtDescriptor c .payloadIe 0) (hlen : len < 256)
    (hdesc : Holds mem c.buf (createPayloadIeDescriptor payloadIeMlme len)) :
    NextRound cfg mem c ⟨c.buf + 2, c.bufSize - 2, .mlmeSubie, len, c.ies⟩ := by
  have hroom := h.bufSize
  obtain ⟨htype, hlong, hid⟩ := payloadDescriptor (by simp : payloadIeMlme ∈ _) hlen
  refine ⟨by omega, ?_⟩
  rw [h.round _ hdesc]
  have hstate : (c.advance 2).parsingState = .payloadIe := h.parsingState
  simp only [elementBody, hstate, parsePayloadElement, htype, Bool.not_true, Bool.false_eq_true,
    if_false, hid, if_true, hlong, val_pure, h.advance]
  rfl

/-! ## Beacons -/

section

variable (cfg : IeConfig) (ies : Ieee802154Ies)

/-- The elements of a beacon, with what is found in them. -/
def ebFound :
    List (IeCreator × (Ieee802154Ies → Ieee802154Ies)) :=
  [(createIeTschSynchronization,
      fun x => { x with ieAsn := ies.ieAsn, ieJoinPriority := ies.ieJoinPriority })] ++
    (if cfg.withSla then
      [(createIeTschSlaTriggeringAsn, fun x => { x with ieSlaTriggeringAsn := ies.ieSlaTriggeringAsn }),
        (createIeTschSlaTimeslotLen, fun x => { x with
          ieSlaCurrTimeslotLen := ies.ieSlaCurrTimeslotLen
          ieSlaNextTimeslotLen := ies.ieSlaNextTimeslotLen })]
    else []) ++
    [(createIeTschTimeslot cfg, fun x => { x with
        ieTschTimeslotId := ies.ieTschTimeslotId
        ieTschTimeslot := fun i =>
          if ies.ieTschTimeslotId ≠ 0 ∧ i < 12 then ies.ieTschTimeslot i else x.ieTschTimeslot i }),
      (createIeTschChannelHoppingSequence cfg, fun x => { x with
        ieChannelHoppingSequenceId := ies.ieChannelHoppingSequenceId
        ieHoppingSequenceLen := ies.ieHoppingSequenceLen
        ieHoppingSequenceList := fun i =>
          if i < ies.ieHoppingSequenceLen.toNat then ies.ieHoppingSequenceList i
          else x.ieHoppingSequenceList i }),
      (createIeTschSlotframeAndLink, foundSlotframe ies.ieTschSlotframeAndLink)]

theorem ebFound_map :
    (ebFound cfg ies).map Prod.fst = ebElements cfg := by
  cases hsla : cfg.withSla <;> simp [ebFound, ebElements, hsla]

/-- The condition under which the elements of a beacon are as long as their creators say. -/
def EbGood : Prop :=
  ies.ieChannelHoppingSequenceId ≠ 0 ∧ (ies.ieTschTimeslotId = 0 ∨ ¬cfg.upaTripleCca)

end

/-- Each element of a beacon is passed, with what was created. -/
theorem ebFound_creates (h : EbGood cfg ies) : ∀ e ∈ ebFound cfg ies, Creates cfg ies e.1 e.2 := by
  intro e he
  simp only [ebFound, mem_append, mem_cons, not_mem_nil, or_false] at he
  rcases he with (rfl | hsla) | rfl | rfl | rfl
  · exact creates_synchronization
  · by_cases hwith : cfg.withSla
    · rw [if_pos hwith, mem_pair] at hsla
      cases hsla with
      | inl heq =>
        rw [heq]
        exact creates_slaTriggeringAsn hwith
      | inr heq =>
        rw [heq]
        exact creates_slaTimeslotLen hwith
    · rw [if_neg hwith] at hsla
      exact absurd hsla not_mem_nil
  · exact creates_timeslot h.2
  · exact creates_hoppingSequence h.1
  · exact creates_slotframeAndLink

theorem foundSlotframe_numSlotframes {sf : TschSlotframeAndLinks}
    (h : x.ieTschSlotframeAndLink.numSlotframes = 0) :
    (foundSlotframe sf x).ieTschSlotframeAndLink.numSlotframes = sf.numSlotframes := by
  by_cases hzero : sf.numSlotframes = 0
  · rw [foundSlotframe, if_pos hzero, h, hzero]
  · rw [foundSlotframe, if_neg hzero]

/-- The element for slotframes and links changes nothing else. -/
theorem foundSlotframe_eq (sf : TschSlotframeAndLinks) (x : Ieee802154Ies) :
    ∃ sf', foundSlotframe sf x = { x with ieTschSlotframeAndLink := sf' } := by
  by_cases hzero : sf.numSlotframes = 0
  · exact ⟨x.ieTschSlotframeAndLink, by rw [foundSlotframe, if_pos hzero]⟩
  · exact ⟨_, by rw [foundSlotframe, if_neg hzero]⟩

/-- A slotframe is found with its links. -/
theorem foundSlotframe_one {sf : TschSlotframeAndLinks} (h : sf.numSlotframes = 1) :
    let sf' := (foundSlotframe sf x).ieTschSlotframeAndLink
    sf'.slotframeHandle = sf.slotframeHandle ∧ sf'.slotframeSize = sf.slotframeSize ∧
      sf'.numLinks = sf.numLinks ∧ ∀ i < sf.numLinks.toNat, sf'.links i = sf.links i := by
  have hzero : ¬sf.numSlotframes = 0 := by
    rw [h]
    decide
  rw [foundSlotframe, if_neg hzero]
  exact ⟨rfl, rfl, rfl, fun i hi => if_pos hi⟩

/-- The last three elements of a beacon, behind those that depend on the build. -/
theorem ebRecovered_of {y z : Ieee802154Ies} (h : EbGood cfg ies) (hasn : x.ieAsn = ies.ieAsn)
    (hjoin : x.ieJoinPriority = ies.ieJoinPriority)
    (hsla : cfg.withSla → x.ieSlaTriggeringAsn = ies.ieSlaTriggeringAsn ∧
      x.ieSlaCurrTimeslotLen = ies.ieSlaCurrTimeslotLen ∧
      x.ieSlaNextTimeslotLen = ies.ieSlaNextTimeslotLen)
    (hnum : x.ieTschSlotframeAndLink.numSlotframes = 0)
    (hy : y = { x with
      ieTschTimeslotId := ies.ieTschTimeslotId
      ieTschTimeslot := fun i =>
        if ies.ieTschTimeslotId ≠ 0 ∧ i < 12 then ies.ieTschTimeslot i else x.ieTschTimeslot i })
    (hz : z = { y with
      ieChannelHoppingSequenceId := ies.ieChannelHoppingSequenceId
      ieHoppingSequenceLen := ies.ieHoppingSequenceLen
      ieHoppingSequenceList := fun i =>
        if i < ies.ieHoppingSequenceLen.toNat then ies.ieHoppingSequenceList i
        else y.ieHoppingSequenceList i }) :
    EbRecovered cfg ies (foundSlotframe ies.ieTschSlotframeAndLink z) := by
  have htimeslot : ies.ieTschTimeslotId ≠ 0 → cfg.tsElementsCount = 12 :=
    fun hid => tsElementsCount_of_not (h.2.resolve_left hid)
  obtain ⟨sf', hsf'⟩ := foundSlotframe_eq ies.ieTschSlotframeAndLink z
  constructor
  case numSlotframes =>
    apply foundSlotframe_numSlotframes
    rw [hz, hy]
    exact hnum
  case slotframe => exact fun hone => foundSlotframe_one hone
  case timeslot =>
    intro hid i hi
    rw [htimeslot hid] at hi
    rw [hsf', hz, hy]
    exact if_pos ⟨hid, hi⟩
  case hoppingSequence =>
    intro _
    rw [hsf', hz]
    exact ⟨rfl, fun i hi => if_pos hi⟩
  case sla =>
    rw [hsf', hz, hy]
    exact hsla
  case asn =>
    rw [hsf', hz, hy]
    exact hasn
  case joinPriority =>
    rw [hsf', hz, hy]
    exact hjoin
  all_goals
    rw [hsf', hz]
  rw [hy]

/-- What is found in a beacon is what was created. -/
theorem ebRecovered (h : EbGood cfg ies) (offset : Byte) :
    EbRecovered cfg ies ((ebFound cfg ies).foldl (fun x e => e.2 x)
      { Ieee802154Ies.zero with iePayloadIeOffset := offset }) := by
  cases hsla : cfg.withSla with
  | false =>
    rw [ebFound, hsla]
    refine ebRecovered_of h ?_ ?_ (fun hwith => ?_) ?_ rfl rfl
    case refine_3 => exact absurd (hsla.symm.trans hwith) Bool.false_ne_true
    all_goals rfl
  | true =>
    rw [ebFound, hsla]
    refine ebRecovered_of h ?_ ?_ (fun _ => ⟨?_, ?_, ?_⟩) ?_ rfl rfl
    all_goals rfl

/-- The bytes of a beacon: a termination, the element that nests the others, and those. -/
theorem tschPacketCreateEb_bytes (h : EbGood cfg ies)
    (hcreate : tschPacketCreateEb cfg mem ies = some (mem', n)) :
    ∃ bs, n = bs.length + 4 ∧ bs.length ≤ 122 ∧
      Elements cfg bs (fun x => (ebFound cfg ies).foldl (fun x e => e.2 x) x) ∧
      Holds mem' 0 (createHeaderIeDescriptor headerIeListTermination1 0 ++
        (createPayloadIeDescriptor payloadIeMlme bs.length ++ bs)) := by
  simp only [tschPacketCreateEb] at hcreate
  rw [← ebFound_map cfg ies] at hcreate
  cases hall : createAll packetbufSize ies ((ebFound cfg ies).map Prod.fst) mem 0 with
  | none =>
    rw [hall] at hcreate
    cases hcreate
  | some r =>
    obtain ⟨mem₁, mlmeLen⟩ := r
    obtain ⟨bs, hlen, hmem, -, helements⟩ := createAll_elements le_rfl (ebFound_creates h) hall
    have hne : ebFound cfg ies ≠ [] := cons_ne_nil _ _
    rw [Nat.zero_add] at hlen
    subst hlen
    rw [hall] at hcreate
    dsimp only at hcreate
    cases hmlme : createIeMlme (packetbufSize - (bs.length + 2))
        { ies with ieMlmeLen := BitVec.ofNat 16 bs.length } with
    | none =>
      rw [hmlme] at hcreate
      cases hcreate
    | some mlme =>
      cases htermination : createIeHeaderListTermination1 (packetbufSize - (bs.length + 4))
          { ies with ieMlmeLen := BitVec.ofNat 16 bs.length } with
      | none =>
        rw [hmlme, htermination] at hcreate
        cases hcreate
      | some termination =>
        rw [hmlme, htermination] at hcreate
        simp only [Option.some.injEq, Prod.mk.injEq] at hcreate
        obtain ⟨rfl, rfl⟩ := hcreate
        have hroom := createIe_room htermination
        have hsize : packetbufSize = 128 := rfl
        have hlen : (BitVec.ofNat 16 bs.length).toNat = bs.length := Nat.mod_eq_of_lt (by omega)
        obtain ⟨hmlmeBytes, -⟩ := createIe_some hmlme
        obtain ⟨hterminationBytes, -⟩ := createIe_some htermination
        rw [hlen] at hmlmeBytes
        refine ⟨bs, rfl, by omega, helements hne, ?_⟩
        rw [hmlmeBytes, hterminationBytes]
        exact (hmem.prepend).prepend

/-- A beacon is parsed as it was created. -/
theorem eb_parses (h : EbGood cfg ies)
    (hcreate : tschPacketCreateEb cfg mem ies = some (mem', n)) :
    ParsesTo cfg mem' n (EbRecovered cfg ies) := by
  obtain ⟨bs, rfl, hlen, helements, hmem⟩ := tschPacketCreateEb_bytes h hcreate
  obtain ⟨htermination, hmem⟩ := holds_append.mp hmem
  obtain ⟨hmlme, hmem⟩ := holds_append.mp hmem
  have hsize : (BitVec.ofNat 8 (bs.length + 4)).toNat = bs.length + 4 := Nat.mod_eq_of_lt (by omega)
  let start := ParseCursor.start (BitVec.ofNat 8 (bs.length + 4)) Ieee802154Ies.zero
  have hbuf : start.bufSize = bs.length + 4 := hsize
  let payload : ParseCursor :=
    ⟨2, bs.length + 2, .payloadIe, 0, { Ieee802154Ies.zero with iePayloadIeOffset := 2 }⟩
  let mlme : ParseCursor :=
    ⟨4, bs.length, .mlmeSubie, bs.length, { Ieee802154Ies.zero with iePayloadIeOffset := 2 }⟩
  have hfirst : NextRound cfg mem' start payload := by
    have hnext : NextRound cfg mem' start _ :=
      nextRound_headerTermination ⟨rfl, by omega, by omega⟩ htermination
    rw [hbuf] at hnext
    exact hnext
  have hsecond : NextRound cfg mem' payload mlme := by
    have hroom : payload.bufSize = bs.length + 2 := rfl
    exact nextRound_mlme ⟨rfl, by omega, by omega⟩ (by omega) hmlme
  have hamong : Among mlme bs.length := by
    have hroom : mlme.bufSize = bs.length := rfl
    exact ⟨rfl, by omega, by omega, le_rfl⟩
  have hrun := (helements.pass mlme hamong hmem).head hsecond |>.head hfirst
  have hempty : (mlme.pass bs.length ((ebFound cfg ies).foldl (fun x e => e.2 x) mlme.ies)).bufSize =
      0 := Nat.sub_self _
  obtain ⟨rounds, hparsed⟩ := parseLoop_of_end hrun hempty
  refine ⟨rounds, _, ebRecovered h 2, ?_⟩
  rw [parseInformationElements, hparsed]
  have hnested : (bs.length : ℤ) - bs.length = 0 := Int.sub_self _
  simp only [ParseCursor.finish, ParseCursor.pass, mlme, hnested, if_true, Nat.add_comm 4,
    reduceCtorEq, if_false]

/-! ## Acknowledgements -/

/-- A header element that is parsed is passed. -/
theorem nextRound_header {id : ℕ} (h : AtDescriptor c .headerIe 2)
    (hid : id ∈ [headerIeUpaInfo, headerIeAckNackTimeCorrection])
    (hdesc : Holds mem c.buf (createHeaderIeDescriptor id 2))
    (hparse : (parseHeaderIe cfg (c.buf + 2) 2 id c.ies).val mem = some x) :
    NextRound cfg mem c ⟨c.buf + 4, c.bufSize - 4, .headerIe, c.nestedMlmeLen, x⟩ := by
  have hroom := h.bufSize
  have hlt := h.lt
  have hmem : id ∈ [headerIeUpaInfo, headerIeAckNackTimeCorrection] ++ [headerIeListTermination1] :=
    mem_append_left _ hid
  obtain ⟨htype, hlen, hheaderId⟩ := headerDescriptor id hmem 2 (by simp)
  have hone : id ≠ headerIeListTermination1 ∧ id ≠ headerIeListTermination2 := by
    rcases mem_pair.mp hid with rfl | rfl <;> decide
  refine ⟨by omega, ?_⟩
  rw [h.round _ hdesc]
  have hstate : (c.advance 2).parsingState = .headerIe := h.parsingState
  have hnot : ¬(c.advance 2).bufSize < 2 := by
    rw [h.advance]
    omega
  have hbuf : ((c.advance 2).advance 2).bufSize = c.bufSize - 4 := by
    rw [ParseCursor.advance, h.advance]
    simp only
    rw [subUint8_of_le (by omega) (by omega)]
    omega
  simp only [elementBody, hstate, parseHeaderElement, htype, Bool.false_eq_true, if_false,
    hheaderId, hlen, if_neg hone.1, if_neg hone.2, if_neg hnot, val_bind]
  rw [show (c.advance 2).buf = c.buf + 2 from rfl, show (c.advance 2).ies = c.ies from rfl, hparse]
  simp only [val_pure, hbuf]
  rw [← h.parsingState]
  rfl

/-- The two bytes of a UPA element are found. -/
theorem nextRound_upaInfo (hupa : cfg.withUpa) (h : AtDescriptor c .headerIe 2)
    (hmem : Holds mem c.buf (createHeaderIeDescriptor headerIeUpaInfo 2 ++ le16 ies.ieUpaInfo)) :
    NextRound cfg mem c ⟨c.buf + 4, c.bufSize - 4, .headerIe, c.nestedMlmeLen,
      { c.ies with ieUpaInfo := ies.ieUpaInfo }⟩ := by
  obtain ⟨hdesc, hinfo⟩ := holds_append.mp hmem
  refine nextRound_header h (by simp) hdesc ?_
  have hread : read16 mem (c.buf + 2) = ies.ieUpaInfo := hinfo.read16
  rw [parseHeaderIe, if_pos ⟨rfl, hupa⟩, if_pos rfl]
  simp only [val_bind, val_pure, val_word, hread]

/-- A time correction of twelve bits is found, with whether it is in a NACK. -/
theorem nextRound_timeCorrection (hdrift : -2048 ≤ ies.ieTimeCorrection.toInt)
    (hdrift' : ies.ieTimeCorrection.toInt ≤ 2047) (h : AtDescriptor c .headerIe 2)
    (hmem : Holds mem c.buf
      (createHeaderIeDescriptor headerIeAckNackTimeCorrection 2 ++ le16 (timeSyncField ies))) :
    NextRound cfg mem c ⟨c.buf + 4, c.bufSize - 4, .headerIe, c.nestedMlmeLen,
      { c.ies with
        ieIsNack := if ies.ieIsNack ≠ 0 then 1 else 0
        ieTimeCorrection := ies.ieTimeCorrection }⟩ := by
  obtain ⟨hdesc, hfield⟩ := holds_append.mp hmem
  refine nextRound_header h (by simp) hdesc ?_
  obtain ⟨hcorrection, hnack⟩ := timeCorrection_timeSyncField hdrift hdrift'
  have hread : read16 mem (c.buf + 2) = timeSyncField ies := hfield.read16
  rw [parseHeaderIe, if_neg (fun hid => absurd hid.1 (by decide)), if_pos rfl, if_pos rfl]
  simp only [val_bind, val_pure, val_word, hread, hcorrection, hnack]

/-- A creator that is called alone writes where it is called. -/
theorem createAll_cons {room : ℤ} {create : IeCreator} {creates : List IeCreator}
    (h : createAll room ies (create :: creates) mem pos = some (mem', n)) :
    ∃ bs k, create (room - pos) ies = some (bs, k) ∧
      createAll room ies creates (store mem pos bs) (pos + k) = some (mem', n) := by
  rw [createAll] at h
  cases hcreate : create (room - pos) ies with
  | none =>
    rw [hcreate] at h
    cases h
  | some r =>
    rw [hcreate] at h
    exact ⟨r.1, r.2, rfl, h⟩

/-- An acknowledgement is parsed as it was created. -/
theorem eack_parses {room : ℤ} (hdrift : -2048 ≤ ies.ieTimeCorrection.toInt)
    (hdrift' : ies.ieTimeCorrection.toInt ≤ 2047)
    (hcreate : tschPacketCreateEack cfg room mem ies = some (mem', n)) :
    ParsesTo cfg mem' n (EackRecovered cfg ies) := by
  by_cases hupa : cfg.withUpa
  · rw [tschPacketCreateEack, eackElements, if_pos hupa] at hcreate
    obtain ⟨bs, k, hinfo, hrest⟩ := createAll_cons hcreate
    obtain ⟨bs', k', hcorrection, hend⟩ := createAll_cons hrest
    obtain ⟨rfl, rfl⟩ := createIe_some hinfo
    obtain ⟨rfl, rfl⟩ := createIe_some hcorrection
    rw [createAll, Option.some.injEq, Prod.mk.injEq] at hend
    obtain ⟨hmem, rfl⟩ := hend
    have hinfoBytes : Holds mem' 0 (createHeaderIeDescriptor headerIeUpaInfo 2 ++
        le16 ies.ieUpaInfo) := by
      rw [← hmem]
      exact (holds_store mem 0 _).congr fun i _ hi => store_of_lt hi
    have hcorrectionBytes : Holds mem' 4 (createHeaderIeDescriptor headerIeAckNackTimeCorrection 2 ++
        le16 (timeSyncField ies)) := by
      rw [← hmem]
      exact holds_store _ 4 _
    let start := ParseCursor.start 8 Ieee802154Ies.zero
    let second : ParseCursor :=
      ⟨4, 4, .headerIe, 0, { Ieee802154Ies.zero with ieUpaInfo := ies.ieUpaInfo }⟩
    have hfirst : NextRound cfg mem' start second :=
      nextRound_upaInfo hupa ⟨rfl, by decide, by decide⟩ hinfoBytes
    have hsecond : NextRound cfg mem' second _ :=
      nextRound_timeCorrection hdrift hdrift'
        ⟨rfl, (by decide : 4 < 256), (by decide : 2 + 2 ≤ 4)⟩ hcorrectionBytes
    obtain ⟨rounds, hparsed⟩ :=
      parseLoop_of_end ((Relation.ReflTransGen.single hsecond).head hfirst) rfl
    refine ⟨rounds, _, ?_, hparsed⟩
    exact ⟨fun _ => rfl, rfl, rfl⟩
  · rw [tschPacketCreateEack, eackElements, if_neg hupa] at hcreate
    obtain ⟨bs, k, hcorrection, hend⟩ := createAll_cons hcreate
    obtain ⟨rfl, rfl⟩ := createIe_some hcorrection
    rw [createAll, Option.some.injEq, Prod.mk.injEq] at hend
    obtain ⟨hmem, rfl⟩ := hend
    have hcorrectionBytes : Holds mem' 0 (createHeaderIeDescriptor headerIeAckNackTimeCorrection 2 ++
        le16 (timeSyncField ies)) := by
      rw [← hmem]
      exact holds_store _ 0 _
    let start := ParseCursor.start 4 Ieee802154Ies.zero
    have hfirst : NextRound cfg mem' start _ :=
      nextRound_timeCorrection hdrift hdrift' ⟨rfl, by decide, by decide⟩ hcorrectionBytes
    obtain ⟨rounds, hparsed⟩ := parseLoop_of_end (Relation.ReflTransGen.single hfirst) rfl
    refine ⟨rounds, _, ?_, hparsed⟩
    exact ⟨fun h => absurd h hupa, rfl, rfl⟩

/-! ## 6top messages -/

/-- The content of a 6top element is recorded. -/
theorem nextRound_ietf (hsixtop : cfg.withSixtop) (h : AtDescriptor c .payloadIe len)
    (hlen : len < 256)
    (hdesc : Holds mem c.buf (createPayloadIeDescriptor payloadIeIetf len))
    (hsub : mem (c.buf + 2) = sixtopSubieId) :
    NextRound cfg mem c ⟨c.buf + 2 + len, c.bufSize - 2 - len, .payloadIe, c.nestedMlmeLen,
      { c.ies with
        sixtopIeContentPtr := some (c.buf + 3)
        sixtopIeContentLen := BitVec.ofNat 16 len - 1 }⟩ := by
  have hroom := h.bufSize
  have hlt := h.lt
  obtain ⟨htype, hlong, hid⟩ := payloadDescriptor (by simp : payloadIeIetf ∈ _) hlen
  have hne : ¬payloadIeIetf = payloadIeMlme := by decide
  refine ⟨by omega, ?_⟩
  rw [h.round _ hdesc]
  have hstate : (c.advance 2).parsingState = .payloadIe := h.parsingState
  have hbuf : ((c.advance 2).advance len).bufSize = c.bufSize - 2 - len := by
    rw [ParseCursor.advance, h.advance]
    exact subUint8_of_le (by omega) (by omega)
  have hbyte : (Read.byte (c.advance 2).buf).val mem = sixtopSubieId := hsub
  simp only [elementBody, hstate, parsePayloadElement, htype, Bool.not_true, Bool.false_eq_true,
    if_false, hid, hlong, if_neg hne, hsixtop, and_self, if_true, val_bind, hbyte,
    val_pure, hbuf]
  rw [← h.parsingState]
  rfl

/-- The payload elements end. -/
theorem parseElement_payloadTermination (h : AtDescriptor c .payloadIe 0)
    (hdesc : Holds mem c.buf (createPayloadIeDescriptor payloadIeListTermination 0)) :
    (parseElement cfg c).val mem = .done (c.buf + 2) c.ies := by
  obtain ⟨htype, hlong, hid⟩ :=
    payloadDescriptor (by simp : payloadIeListTermination ∈ _) (by omega : 0 < 256)
  have hmlme : ¬payloadIeListTermination = payloadIeMlme := by decide
  have hietf : ¬payloadIeListTermination = payloadIeIetf := by decide
  rw [h.round _ hdesc]
  have hstate : (c.advance 2).parsingState = .payloadIe := h.parsingState
  simp only [elementBody, hstate, parsePayloadElement, htype, Bool.not_true, Bool.false_eq_true,
    if_false, hid, hlong, if_neg hmlme, hietf, false_and, if_true, val_pure]
  rfl

/-- What is written before and behind the content of a 6top message. -/
theorem sixtopOutput_bytes {withPayloadTermination : Bool} {content : List Byte}
    (h : sixtopOutput withPayloadTermination ies content = some bs) :
    content.length + 5 + (if withPayloadTermination then 2 else 0) ≤ packetbufSize ∧
      bs = createHeaderIeDescriptor headerIeListTermination1 0 ++
        (createPayloadIeDescriptor payloadIeIetf (content.length + 1) ++ ([sixtopSubieId] ++
          (content ++ if withPayloadTermination then
            createPayloadIeDescriptor payloadIeListTermination 0 else []))) := by
  simp only [sixtopOutput] at h
  have hsize : packetbufSize = 128 := rfl
  by_cases hroom : packetbufSize < content.length + 5 + if withPayloadTermination then 2 else 0
  · rw [if_pos hroom] at h
    cases h
  · rw [if_neg hroom] at h
    have hlen : (BitVec.ofNat 16 (content.length + 1)).toNat = content.length + 1 :=
      Nat.mod_eq_of_lt (by omega)
    have hfit : (2 + (0 : ℕ) : ℤ) ≤ packetbufSize - (content.length + 3) := by omega
    simp only [createIeHeaderListTermination1, createIeIetf, createIePayloadListTermination, createIe,
      Nat.cast_zero, Int.add_zero, le_refl, if_true, hlen] at h hfit
    rw [if_pos hfit] at h
    simp only [Option.some.injEq] at h
    refine ⟨by omega, ?_⟩
    rw [← h]
    simp only [append_assoc]

/-- A 6top message is parsed as it was created. -/
theorem sixtop_parses (hsixtop : cfg.withSixtop) {withPayloadTermination : Bool}
    {content : List Byte} (h : sixtopOutput withPayloadTermination ies content = some bs)
    (hmem : Holds mem 0 bs) :
    ParsesTo cfg mem bs.length fun ies' => ∃ ptr, ies'.sixtopIeContentPtr = some ptr ∧
      ies'.sixtopIeContentLen.toNat = content.length ∧ Holds mem ptr content := by
  obtain ⟨hroom, rfl⟩ := sixtopOutput_bytes h
  obtain ⟨htermination, hmem⟩ := holds_append.mp hmem
  obtain ⟨hietf, hmem⟩ := holds_append.mp hmem
  obtain ⟨hsub, hmem⟩ := holds_append.mp hmem
  obtain ⟨hcontent, hend⟩ := holds_append.mp hmem
  generalize hn : (createHeaderIeDescriptor headerIeListTermination1 0 ++
        (createPayloadIeDescriptor payloadIeIetf (content.length + 1) ++ ([sixtopSubieId] ++
          (content ++ if withPayloadTermination then
            createPayloadIeDescriptor payloadIeListTermination 0 else [])))).length = n
  have hpacketbuf : packetbufSize = 128 := rfl
  have hn : n = content.length + 5 + if withPayloadTermination then 2 else 0 := by
    rw [← hn]
    cases withPayloadTermination <;>
    · simp only [length_append, createHeaderIeDescriptor, createPayloadIeDescriptor, length_le16,
        length_cons, length_nil, if_true, Bool.false_eq_true, if_false]
      omega
  have hsize : (BitVec.ofNat 8 n).toNat = n := Nat.mod_eq_of_lt (by omega)
  let start := ParseCursor.start (BitVec.ofNat 8 n) Ieee802154Ies.zero
  have hbuf : start.bufSize = n := hsize
  let found : Ieee802154Ies := { Ieee802154Ies.zero with
    iePayloadIeOffset := 2
    sixtopIeContentPtr := some 5
    sixtopIeContentLen := BitVec.ofNat 16 (content.length + 1) - 1 }
  let payload : ParseCursor :=
    ⟨2, n - 2, .payloadIe, 0, { Ieee802154Ies.zero with iePayloadIeOffset := 2 }⟩
  let last : ParseCursor :=
    ⟨content.length + 5, n - (content.length + 5), .payloadIe, 0, found⟩
  have hfirst : NextRound cfg mem start payload := by
    have hnext : NextRound cfg mem start _ :=
      nextRound_headerTermination ⟨rfl, by omega, by omega⟩ htermination
    rw [hbuf] at hnext
    exact hnext
  have hsecond : NextRound cfg mem payload last := by
    have hroom : payload.bufSize = n - 2 := rfl
    have hat : AtDescriptor payload .payloadIe (content.length + 1) := ⟨rfl, by omega, by omega⟩
    have hnext : NextRound cfg mem payload _ :=
      nextRound_ietf hsixtop hat (by omega) hietf (holds_cons.mp hsub).1
    have hpos : payload.buf + 2 + (content.length + 1) = content.length + 5 := by
      simp only [payload]
      omega
    have hrest : payload.bufSize - 2 - (content.length + 1) = n - (content.length + 5) := by omega
    rw [hpos, hrest] at hnext
    exact hnext
  have hlen : (BitVec.ofNat 16 (content.length + 1) - 1).toNat = content.length := by
    have hone : (1 : BitVec 16).toNat = 1 := rfl
    rw [BitVec.toNat_sub, BitVec.toNat_ofNat, hone]
    omega
  have hrun := (Relation.ReflTransGen.single hsecond).head hfirst
  have hrecovered : ∃ ptr, found.sixtopIeContentPtr = some ptr ∧
      found.sixtopIeContentLen.toNat = content.length ∧ Holds mem ptr content :=
    ⟨5, rfl, hlen, hcontent⟩
  have hlast : last.bufSize = n - (content.length + 5) := rfl
  cases hpayload : withPayloadTermination with
  | false =>
    simp only [hpayload, Bool.false_eq_true, if_false] at hn
    obtain ⟨rounds, hparsed⟩ := parseLoop_of_end hrun (by omega)
    refine ⟨rounds, found, hrecovered, ?_⟩
    rw [parseInformationElements, hparsed, hn]
    rfl
  | true =>
    simp only [hpayload, if_true] at hn hend
    have hbytes : Holds mem last.buf (createPayloadIeDescriptor payloadIeListTermination 0) := by
      have hpos : last.buf = 5 + content.length := Nat.add_comm _ _
      rw [hpos]
      exact hend
    have hdone : (parseElement cfg last).val mem = _ :=
      parseElement_payloadTermination ⟨rfl, by omega, by omega⟩ hbytes
    obtain ⟨rounds, hparsed⟩ := parseLoop_of_done hrun (by omega) hdone
    refine ⟨rounds, found, hrecovered, ?_⟩
    rw [parseInformationElements, hparsed, hn]

/-! ## Everything -/

/-- The lengths of a header element agree if its creator writes what it declares. -/
theorem lengthAgrees_header {id : ℕ} {bs : List Byte}
    (hid : id ∈ [headerIeUpaInfo, headerIeAckNackTimeCorrection]) (hbs : bs.length = 2) :
    LengthAgrees .headerIe (createHeaderIeDescriptor id 2 ++ bs, 2 + 2) := by
  have hmem : id ∈ [headerIeUpaInfo, headerIeAckNackTimeCorrection] ++ [headerIeListTermination1] :=
    mem_append_left _ hid
  obtain ⟨-, hlen, -⟩ := headerDescriptor id hmem 2 (by simp)
  constructor
  · simp only [createHeaderIeDescriptor, length_append, length_le16, hbs]
  · simp only [createHeaderIeDescriptor, descriptor_le16]
    simp only [declaredLen, hlen]

/-- The lengths of the elements of an acknowledgement agree. -/
theorem eackElements_lengths {create : IeCreator} (hcreate : create ∈ eackElements cfg) {room : ℤ}
    {r : List Byte × ℕ} (h : create room ies = some r) : LengthAgrees .headerIe r := by
  obtain ⟨bs, n⟩ := r
  rw [eackElements, mem_append, mem_singleton] at hcreate
  rcases hcreate with hupa | rfl
  · by_cases hwith : cfg.withUpa
    · rw [if_pos hwith, mem_singleton] at hupa
      subst hupa
      obtain ⟨rfl, rfl⟩ := createIe_some h
      exact lengthAgrees_header (by simp) rfl
    · rw [if_neg hwith] at hupa
      exact absurd hupa not_mem_nil
  · obtain ⟨rfl, rfl⟩ := createIe_some h
    exact lengthAgrees_header (by simp) rfl

/-- The lengths of a 6top element agree with its content. -/
theorem createIeIetf_lengths {content : List Byte} {room : ℤ} {r : List Byte × ℕ}
    (h : createIeIetf room ies = some r)
    (hcontent : content.length = ies.sixtopIeContentLen.toNat)
    (hroom : content.length ≤ packetbufSize) :
    LengthAgrees .payloadIe (r.1 ++ content, r.2) := by
  have hpacketbuf : packetbufSize = 128 := rfl
  simp only [createIeIetf] at h
  split_ifs at h
  obtain rfl := Option.some.inj h
  obtain ⟨-, hlong, -⟩ :=
    payloadDescriptor (by simp : payloadIeIetf ∈ _) (by omega : content.length < 256)
  rw [← hcontent]
  constructor
  · simp only [createPayloadIeDescriptor, length_append, length_le16]
  · simp only [createPayloadIeDescriptor, descriptor_le16]
    simp only [declaredLen, hlong]

/-- With the identifier of the default the creator of a hopping sequence writes more than it
says. -/
theorem hoppingSequence_lengths (hid : ies.ieChannelHoppingSequenceId = 0)
    (hmax : ies.ieHoppingSequenceLen.toNat ≤ cfg.hoppingSequenceMaxLen) :
    ∃ r, createIeTschChannelHoppingSequence cfg packetbufSize ies = some r ∧
      ¬LengthAgrees .mlmeSubie r := by
  have hnot : ¬cfg.hoppingSequenceMaxLen < ies.ieHoppingSequenceLen.toNat := by omega
  have hfit : (2 + (1 : ℕ) : ℤ) ≤ packetbufSize := by decide
  simp only [createIeTschChannelHoppingSequence, if_neg hnot, if_pos hid, createIe, if_pos hfit]
  refine ⟨_, rfl, ?_⟩
  intro h
  have hlength := h.length
  simp only [length_append, createMlmeLongIeDescriptor, length_le16, length_cons] at hlength
  omega

/-- With thirteen elements the creator of a timing writes more than it says. -/
theorem timeslot_lengths (hid : ies.ieTschTimeslotId ≠ 0) (hcca : cfg.upaTripleCca) :
    ∃ r, createIeTschTimeslot cfg packetbufSize ies = some r ∧ ¬LengthAgrees .mlmeSubie r := by
  have hfit : (2 + (25 : ℕ) : ℤ) ≤ packetbufSize := by decide
  simp only [createIeTschTimeslot, if_neg hid, if_pos hid, createIe, if_pos hfit]
  refine ⟨_, rfl, ?_⟩
  intro h
  have hlength := h.length
  rw [tsElementsCount_of hcca] at hlength
  have hwords : ∀ i, (le16 (ies.ieTschTimeslot i)).length = 2 := fun _ => rfl
  simp only [length_append, createMlmeShortIeDescriptor, length_le16, length_cons,
    length_flatMap_range hwords] at hlength
  omega

/-- **Everything a node can advertise is parsed as it was created** exactly if the hopping
sequence it advertises is not that of the default, and the timing is either the default or has
the twelve elements that its length is for. -/
theorem ie_round_trip_iff (cfg : IeConfig) (ies : Ieee802154Ies)
    (hdrift : -2048 ≤ ies.ieTimeCorrection.toInt ∧ ies.ieTimeCorrection.toInt ≤ 2047)
    (hhopping : ies.ieHoppingSequenceLen.toNat ≤ cfg.hoppingSequenceMaxLen) :
    IeRoundTrip cfg ies ↔ ies.ieChannelHoppingSequenceId ≠ 0 ∧
      (ies.ieTschTimeslotId = 0 ∨ ¬cfg.upaTripleCca) := by
  constructor
  · intro h
    constructor
    · intro hid
      obtain ⟨r, hcreate, hnot⟩ := hoppingSequence_lengths hid hhopping
      exact hnot (h.ebLengths _ (by simp [ebElements]) packetbufSize le_rfl r hcreate)
    · by_contra hnot
      rw [not_or, not_not] at hnot
      obtain ⟨r, hcreate, hdisagree⟩ := timeslot_lengths hnot.1 hnot.2
      exact hdisagree (h.ebLengths _ (by simp [ebElements]) packetbufSize le_rfl r hcreate)
  · intro h
    constructor
    case eackLengths => exact fun create hmem _ r hcreate => eackElements_lengths hmem hcreate
    case ebLengths =>
      intro create hmem room hroom r hcreate
      rw [← ebFound_map cfg ies] at hmem
      obtain ⟨e, he, rfl⟩ := List.mem_map.mp hmem
      exact (ebFound_creates h e he room hroom r.1 r.2 hcreate).1
    case sixtopLength =>
      exact fun content room r hcreate hcontent hroom => createIeIetf_lengths hcreate hcontent hroom
    case eack => exact fun room mem mem' n hcreate => eack_parses hdrift.1 hdrift.2 hcreate
    case eb => exact fun mem mem' n hcreate => eb_parses h hcreate
    case sixtop =>
      exact fun hsixtop termination content bs hout mem hmem => sixtop_parses hsixtop hout hmem

/-- A NACK that is 2048 ticks early, a beacon at an ASN beyond 32 bits with the default timing,
four channels and one link, and a 6top content of three bytes. -/
def advertisedIes : Ieee802154Ies :=
  { Ieee802154Ies.zero with
    ieUpaInfo := 0x1234
    ieTimeCorrection := -2048
    ieIsNack := 1
    ieAsn := ⟨0x89abcdef, 0x01⟩
    ieJoinPriority := 2
    ieSlaCurrTimeslotLen := 10000
    ieSlaNextTimeslotLen := 8000
    ieTschSlotframeAndLink := ⟨1, 0, 17, 1, fun _ => ⟨0, 0, 0x0f⟩⟩
    ieChannelHoppingSequenceId := 1
    ieHoppingSequenceLen := 4
    ieHoppingSequenceList := fun i => BitVec.ofNat 8 (15 + 5 * i)
    sixtopIeContentLen := 3 }

theorem ie_round_trip_advertised : IeRoundTrip fullConfig advertisedIes :=
  (ie_round_trip_iff fullConfig advertisedIes (by decide) (by decide)).mpr
    ⟨by decide, Or.inl rfl⟩

/-- For the default hopping sequence fourteen bytes are written, and three are said to be. -/
theorem default_hopping_sequence_disagrees :
    (∃ bs, createIeTschChannelHoppingSequence fullConfig packetbufSize Ieee802154Ies.zero =
      some (bs, 3) ∧ bs.length = 14) ∧ ¬IeRoundTrip fullConfig Ieee802154Ies.zero := by
  refine ⟨⟨_, rfl, rfl⟩, ?_⟩
  intro h
  obtain ⟨r, hcreate, hnot⟩ :=
    @hoppingSequence_lengths fullConfig Ieee802154Ies.zero rfl (by decide)
  exact hnot (h.ebLengths _ (by simp [ebElements]) packetbufSize le_rfl r hcreate)

end Asap.Framer
