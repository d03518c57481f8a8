import Asap.Coap.RoundTrip

/-!
# The messages that come back

The parser is run over the bytes of a message that was built with the setters. The fixed header
and the token give the fields, the options are applied one after the other, and behind the marker
is the payload. A proxy option ends the parsing with an error.

## Main definitions

* `coap_round_trip` — a message comes back exactly if it is `Lossless`.
-/

namespace Asap.Coap

open Lib Access List

variable {mem : ℕ → Byte} {cfg : CoapConfig} {chunk n i cur number fuel : ℕ}
  {m : CoapMessage CStr} {a : CoapMessage Slice} {l : List (CoapOption × List Byte)}

/-! ## The fixed header -/

theorem parse_firstByte (t : CoapType) : ∀ k ≤ coapTokenLen,
    ((0xC0 &&& firstByte t k) >>> 6).toNat = 1 ∧
      CoapType.ofBits (((0x30 &&& firstByte t k) >>> 4).setWidth 2) = t ∧
      (0x0F &&& firstByte t k).toNat = k := by
  cases t <;> decide

theorem bytes_of_mid (mid : BitVec 16) :
    ((mid >>> 8).setWidth 8).setWidth 16 <<< 8 ||| (mid.setWidth 8).setWidth 16 = mid := by
  apply BitVec.eq_of_getLsbD_eq
  intro i hi
  simp only [BitVec.getLsbD_or, BitVec.getLsbD_shiftLeft, BitVec.getLsbD_setWidth,
    BitVec.getLsbD_ushiftRight]
  interval_cases i <;> simp

/-- What the parser starts with. -/
def started (m : CoapMessage CStr) : CoapMessage Slice :=
  { CoapMessage.zero ⟨0, 0⟩ with
    version := 1, type := m.type, code := m.code, mid := m.mid, tokenLen := m.tokenLen }

/-- The fields of the header are read as they were written. -/
theorem fixedHeader_of_holds (h : Holds mem 0 (headerBytes m)) (hlen : m.tokenLen ≤ coapTokenLen) :
    fixedHeader mem = started m := by
  simp only [headerBytes, holds_cons] at h
  obtain ⟨h0, h1, h2, h3, -⟩ := h
  obtain ⟨hversion, htype, htoken⟩ := parse_firstByte m.type m.tokenLen hlen
  rw [fixedHeader, h0, h1, h2, h3, parseHeader, hversion, htype, htoken, bytes_of_mid, started]

/-! ## The end of the datagram -/

/-- The bytes of a payload, behind a marker if there are any. -/
def payloadBytes (payload : List Byte) : List Byte :=
  if payload = [] then [] else 0xFF :: payload

/-- The loop ends with the payload. -/
theorem coapParseOptions_payload {payload : List Byte} (ha : a.payload.len = 0)
    (hheld : Holds mem cur (payloadBytes payload)) (hn : cur + (payloadBytes payload).length = n)
    (hchunk : payload.length ≤ chunk) :
    ∃ s, (coapParseOptions chunk n (fuel + 1) cur number a).val mem =
        some ⟨.noError, none, { a with payload := s }⟩ ∧
      (∀ j, j < n → (coapParseOptions chunk n (fuel + 1) cur number a).after mem j = mem j) ∧
      readSlice ((coapParseOptions chunk n (fuel + 1) cur number a).after mem) s = payload := by
  by_cases hempty : payload = []
  · subst hempty
    have hcur : ¬ cur < n := by simp [← hn, payloadBytes]
    refine ⟨a.payload, ?_, ?_, ?_⟩
    · simp [coapParseOptions, hcur]
    · simp [coapParseOptions, hcur]
    · simp [readSlice, ha, bytesAt]
  · rw [payloadBytes, if_neg hempty, length_cons] at hn
    rw [payloadBytes, if_neg hempty, holds_cons] at hheld
    have hcur : cur < n := by omega
    have hmarker : isMarker (mem cur) := by
      rw [hheld.1]
      decide
    have hslice : payloadBehind chunk n cur = ⟨cur + 1, payload.length⟩ := by
      simp only [payloadBehind, Slice.mk.injEq, true_and]
      omega
    have hval : (coapParseOptions chunk n (fuel + 1) cur number a).val mem =
        some ⟨.noError, none, { a with payload := ⟨cur + 1, payload.length⟩ }⟩ := by
      simp [coapParseOptions, hcur, coapParseRound, hmarker, hslice]
    have hafter : (coapParseOptions chunk n (fuel + 1) cur number a).after mem = store mem n [0] := by
      have hstop : cur + 1 + payload.length = n := by omega
      simp [coapParseOptions, hcur, coapParseRound, hmarker, hslice, hstop]
    rw [hval, hafter]
    refine ⟨_, rfl, fun j hj => store_of_lt hj, ?_⟩
    rw [readSlice, bytesAt_store_of_beside (.inl (by simp only; omega))]
    exact hheld.2.bytesAt

/-! ## Refused options -/

/-- The options up to the first that is refused. -/
theorem exists_first_refused (h : ∃ x ∈ l, refuses x.1.number = true) :
    ∃ before x behind, l = before ++ x :: behind ∧ refuses x.1.number = true ∧
      ∀ y ∈ before, refuses y.1.number = false := by
  induction l with
  | nil => simp at h
  | cons y l ih =>
    by_cases hy : refuses y.1.number = true
    · exact ⟨[], y, l, rfl, hy, by simp⟩
    · simp only [mem_cons, exists_eq_or_imp] at h
      obtain ⟨before, x, behind, rfl, hx, hbefore⟩ := ih (h.resolve_left hy)
      refine ⟨y :: before, x, behind, rfl, hx, ?_⟩
      rw [forall_mem_cons]
      exact ⟨by simpa using hy, hbefore⟩

theorem ascending_append {l' : List (CoapOption × List Byte)} (h : Ascending cur (l ++ l')) :
    Ascending cur l ∧ Ascending (lastNumber cur l) l' := by
  induction l generalizing cur with
  | nil => exact ⟨trivial, h⟩
  | cons x l ih =>
    obtain ⟨hle, hlen, hrest⟩ := h
    exact ⟨⟨hle, hlen, (ih hrest).1⟩, (ih hrest).2⟩

/-- **A refused option ends the parsing with an error.** -/
theorem coapParseOptions_refused (hlaid : Laid cur number a) (hasc : Ascending number l)
    (hrefused : ∃ x ∈ l, refuses x.1.number = true) (hheld : Holds mem cur (encode number l))
    (hn : cur + (encode number l).length ≤ n) (hfuel : l.length ≤ fuel) :
    ∃ p, (coapParseOptions chunk n fuel cur number a).val mem = some p ∧ p.status ≠ .noError := by
  obtain ⟨before, ⟨o, v⟩, behind, rfl, hx, hbefore⟩ := exists_first_refused hrefused
  obtain ⟨hasc, hle, hlen, -⟩ := ascending_append hasc
  rw [encode_append, holds_append] at hheld
  rw [encode_append, length_append] at hn
  obtain ⟨a', mem', -, -, -, hsame, hval, -⟩ := @coapParseOptions_encode mem chunk n cur number
    (fuel - before.length) a before hlaid hasc hbefore hheld.1 (by omega)
  have hsplit : before.length + (fuel - before.length) = fuel := by
    rw [length_append] at hfuel
    omega
  obtain ⟨rest, hrest⟩ : ∃ k, fuel - before.length = k + 1 := by
    rw [length_append, length_cons] at hfuel
    exact ⟨fuel - before.length - 1, by omega⟩
  rw [hsplit, hrest] at hval
  rw [hval]
  -- the first that is refused is met at the cursor
  obtain ⟨c, hc⟩ : ∃ c, cur + (encode number before).length = c := ⟨_, rfl⟩
  rw [hc] at hheld hsame ⊢
  have hheld' := hheld.2.congr fun j hj _ => hsame j hj
  simp only [encode] at hheld' hn
  rw [holds_append] at hheld'
  rw [length_append] at hn
  obtain ⟨hhead, hmarker, hvalue, -⟩ := @coapParseRound_of_holds mem' n c (lastNumber number before)
    a' o v hle hlen hheld'.1 (by omega)
  have hcur : c < n := by
    have hpos : 0 < (coapSetOptionHeader (o.number - lastNumber number before) v.length).length := by
      simp [coapSetOptionHeader]
    rw [length_append] at hn
    omega
  obtain ⟨p, hp⟩ := (@val_coapParseOption_error mem' o.number a'
    ⟨c + (coapSetOptionHeader (o.number - lastNumber number before) v.length).length, v.length⟩).mpr hx
  refine ⟨p, ?_, status_of_error hp⟩
  have hheader : (coapOptionHeader c (mem' c)).val mem' = headerAt mem' c := rfl
  simp [coapParseOptions, hcur, coapParseRound, hmarker, hheader, after_coapOptionHeader, hvalue, hp]

/-! ## The round trip -/

theorem valuesOf_ne_nil (m : CoapMessage CStr) (o : CoapOption) : valuesOf m o ≠ [] := by
  have hpieces : ∀ (s : CStr) (sep : Byte), s.pieces sep ≠ [] := by
    intro s sep
    obtain ⟨p, ps, hparts, -, -⟩ := @merged_stringParts s.bytes sep s.len
    rw [CStr.pieces, hparts]
    exact cons_ne_nil p ps
  cases o <;> first | exact cons_ne_nil _ _ | exact hpieces _ _

/-- An option that is set has a value. -/
theorem exists_mem_optionsOf {o : CoapOption} (h : m.isOption o.number = true) :
    ∃ x ∈ optionsOf m, x.1 = o := by
  obtain ⟨v, hv⟩ := exists_mem_of_ne_nil _ (valuesOf_ne_nil m o)
  refine ⟨(o, v), ?_, rfl⟩
  rw [optionsOf, mem_flatMap]
  refine ⟨o, by cases o <;> decide, ?_⟩
  rw [piecesOf, if_pos h]
  exact mem_map_of_mem hv

theorem isOption_of_mem {x : CoapOption × List Byte} (h : x ∈ optionsOf m) :
    m.isOption x.1.number = true := by
  rw [optionsOf, mem_flatMap] at h
  obtain ⟨o, -, ho⟩ := h
  rw [(mem_piecesOf ho).1]
  exact (mem_piecesOf ho).2

/-- The options that come back are those that were set. -/
theorem isOption_applyAll_optionsOf (hbuilt : Built cfg m) {a : CoapMessage (List Byte)}
    (ha : ∀ k, a.isOption k = false) (k : ℕ) :
    (applyAll a (optionsOf m)).isOption k = m.isOption k := by
  rw [isOption_applyAll, ha, Bool.false_or, Bool.eq_iff_iff, any_eq_true]
  constructor
  · rintro ⟨x, hx, hk⟩
    rw [of_decide_eq_true hk]
    exact isOption_of_mem hx
  · intro hk
    obtain ⟨o, rfl⟩ := hbuilt.named k hk
    obtain ⟨x, hx, rfl⟩ := exists_mem_optionsOf hk
    exact ⟨x, hx, decide_eq_true rfl⟩

theorem ascending_optionsOf (h : (encode 0 (optionsOf m)).length ≤ maxExtended) :
    Ascending 0 (optionsOf m) :=
  ascending_of_pairwise (pairwise_optionsOf m) (fun _ _ => Nat.zero_le _)
    fun _ hx => le_trans (length_value_le hx) h

theorem refuses_iff (o : CoapOption) :
    refuses o.number = true ↔ o = .proxyUri ∨ o = .proxyScheme := by
  cases o <;> decide

/-- What was written, in its parts. -/
theorem coapSerializeMessage_eq {bytes : List Byte} (hcode : m.code ≠ 0) (hbuilt : Built cfg m)
    (h : coapSerializeMessage cfg m = some bytes) :
    bytes = headerBytes m ++ (m.token ++ (encode 0 (optionsOf m) ++ payloadBytes m.payload.content)) ∧
      (encode 0 (optionsOf m)).length ≤ maxExtended := by
  have htoken : m.token.take m.tokenLen = m.token := take_of_length_le hbuilt.token.1.le
  have hlen : m.payload.content.length = m.payload.len := length_bytesAt _ _ _
  rw [coapSerializeMessage, if_neg hcode, htoken, serializeOptions_bytes] at h
  simp only [Option.ite_none_right_eq_some, Option.some.injEq, length_append] at h
  obtain ⟨hfits, rfl⟩ := h
  have hcfg := cfg.fits
  have hmax : maxExtended = 65804 := rfl
  refine ⟨?_, by omega⟩
  by_cases hpayload : m.payload.len = 0
  · have hnil : m.payload.content = [] := List.length_eq_zero_iff.mp (hlen.trans hpayload)
    simp [hpayload, hnil, payloadBytes]
  · have hne : m.payload.content ≠ [] := by
      intro hnil
      rw [hnil] at hlen
      exact hpayload hlen.symm
    simp [hpayload, hne, payloadBytes]

/-- The parser behind the token. -/
theorem coapParseMessage_of_holds {rest : List Byte} (hbuilt : Built cfg m)
    (h : Holds mem 0 (headerBytes m ++ (m.token ++ rest))) :
    (coapParseMessage chunk n).val mem =
        (coapParseOptions chunk n (n + 1) (coapHeaderLen + m.tokenLen) 0
          { started m with token := m.token }).val mem ∧
      (coapParseMessage chunk n).after mem =
        (coapParseOptions chunk n (n + 1) (coapHeaderLen + m.tokenLen) 0
          { started m with token := m.token }).after mem ∧
      Holds mem (coapHeaderLen + m.tokenLen) rest := by
  rw [holds_append, holds_append] at h
  have hfixed := fixedHeader_of_holds h.1 hbuilt.token.2
  have hheader : (headerBytes m).length = coapHeaderLen := rfl
  have htoken : HasToken mem := by
    rw [HasToken, hfixed]
    exact ⟨rfl, hbuilt.token.2⟩
  have hbytes : bytesAt mem coapHeaderLen m.tokenLen = m.token := by
    have hread := h.2.1.bytesAt
    rwa [hheader, Nat.zero_add, hbuilt.token.1] at hread
  have hlen : (started m).tokenLen = m.tokenLen := rfl
  refine ⟨?_, ?_, ?_⟩
  · rw [val_coapParseMessage, run_coapParseBehindHeader_of htoken]
    simp only [val_bind, val_bytes, after_bytes, hfixed, hlen, hbytes]
  · rw [after_coapParseMessage, run_coapParseBehindHeader_of htoken]
    simp only [after_bind, val_bytes, after_bytes, hfixed, hlen, hbytes]
  · have hrest := h.2.2
    rwa [hheader, Nat.zero_add, hbuilt.token.1] at hrest

theorem laid_started : Laid (coapHeaderLen + m.tokenLen) 0 { started m with token := m.token } where
  within _ := Nat.zero_le _
  unset _ _ := rfl
  last _ _ hpos := absurd hpos (Nat.lt_irrefl 0)
  payload := rfl

/-- The message that the options are applied to. -/
abbrev startedView (m : CoapMessage CStr) : CoapMessage (List Byte) :=
  { CoapMessage.zero [] with
    version := 1, type := m.type, code := m.code, mid := m.mid, tokenLen := m.tokenLen,
    token := m.token }

theorem view_started : view mem { started m with token := m.token } = startedView m := rfl

/-- **What is parsed**, when no option is refused: the options of the message, applied to a message
without options, and its payload. -/
theorem coapParseMessage_val {bytes : List Byte} (hbuilt : Built cfg m) (hcode : m.code ≠ 0)
    (hbytes : coapSerializeMessage cfg m = some bytes) (hmem : Holds mem 0 bytes)
    (hproxy : ∀ x ∈ optionsOf m, refuses x.1.number = false) :
    ∃ a s, (coapParseMessage cfg.maxChunkSize bytes.length).val mem =
        some ⟨.noError, none, { a with payload := s }⟩ ∧
      view ((coapParseMessage cfg.maxChunkSize bytes.length).after mem) a =
        applyAll (startedView m) (optionsOf m) ∧
      readSlice ((coapParseMessage cfg.maxChunkSize bytes.length).after mem) s =
        m.payload.content := by
  obtain ⟨hparts, hmax⟩ := coapSerializeMessage_eq hcode hbuilt hbytes
  have hheld := hmem
  rw [hparts] at hheld
  obtain ⟨hval, hafter, hheld⟩ := @coapParseMessage_of_holds mem cfg cfg.maxChunkSize bytes.length m
    _ hbuilt hheld
  rw [holds_append] at hheld
  have hlen : bytes.length = coapHeaderLen + m.tokenLen + (encode 0 (optionsOf m)).length +
      (payloadBytes m.payload.content).length := by
    have hheader : (headerBytes m).length = coapHeaderLen := rfl
    rw [hparts]
    simp only [length_append, hheader, hbuilt.token.1]
    omega
  have hcount := length_le_encode 0 (optionsOf m)
  obtain ⟨rest, hrest⟩ : ∃ k, bytes.length + 1 = (optionsOf m).length + (k + 1) :=
    ⟨bytes.length - (optionsOf m).length, by omega⟩
  obtain ⟨a, mem', hlaid, hview, -, hsame, hval', hafter'⟩ := @coapParseOptions_encode mem
    cfg.maxChunkSize bytes.length (coapHeaderLen + m.tokenLen) 0 (rest + 1) _ (optionsOf m)
    laid_started (ascending_optionsOf hmax) hproxy hheld.1 (by omega)
  have hchunk : m.payload.content.length ≤ cfg.maxChunkSize := by
    rw [CStr.content, length_bytesAt]
    exact hbuilt.payload
  obtain ⟨s, hend, hkeep, hread⟩ := @coapParseOptions_payload mem' cfg.maxChunkSize bytes.length
    (coapHeaderLen + m.tokenLen + (encode 0 (optionsOf m)).length)
    (lastNumber 0 (optionsOf m)) rest a m.payload.content hlaid.payload
    (hheld.2.congr fun j hj _ => hsame j hj) hlen.symm hchunk
  rw [hval, hafter, hrest, hval', hafter']
  refine ⟨a, s, hend, ?_, hread⟩
  rw [← view_started, ← hview]
  -- what the terminator overwrites is behind the strings
  simp only [view, CoapMessage.map]
  congr 1
  · funext f
    have hstop := hlaid.within f
    exact readSlice_congr fun j _ hj => hkeep j (by omega)
  · simp [readSlice, hlaid.payload, bytesAt]

/-- The fields that options leave alone. -/
structure SameHeader (a a' : CoapMessage (List Byte)) : Prop where
  version : a'.version = a.version
  type : a'.type = a.type
  code : a'.code = a.code
  mid : a'.mid = a.mid
  tokenLen : a'.tokenLen = a.tokenLen
  token : a'.token = a.token

theorem sameHeader_applyOption (a : CoapMessage (List Byte)) (o : CoapOption) (v : List Byte) :
    SameHeader a (applyOption a o v) := by
  cases o <;> exact ⟨rfl, rfl, rfl, rfl, rfl, rfl⟩

theorem sameHeader_applyAll (a : CoapMessage (List Byte)) (l : List (CoapOption × List Byte)) :
    SameHeader a (applyAll a l) := by
  induction l generalizing a with
  | nil => exact ⟨rfl, rfl, rfl, rfl, rfl, rfl⟩
  | cons x l ih =>
    have hstep := sameHeader_applyOption a x.1 x.2
    have hrest := ih (applyOption a x.1 x.2)
    exact ⟨hrest.version.trans hstep.version, hrest.type.trans hstep.type,
      hrest.code.trans hstep.code, hrest.mid.trans hstep.mid,
      hrest.tokenLen.trans hstep.tokenLen, hrest.token.trans hstep.token⟩

/-- The round trip where no option is refused. -/
theorem roundTrip_iff {bytes : List Byte} (hbuilt : Built cfg m) (hcode : m.code ≠ 0)
    (hbytes : coapSerializeMessage cfg m = some bytes) (hmem : Holds mem 0 bytes)
    (hproxy : ∀ x ∈ optionsOf m, refuses x.1.number = false) :
    (∃ p, (coapParseMessage cfg.maxChunkSize bytes.length).val mem = some p ∧
      RoundTrip m ((coapParseMessage cfg.maxChunkSize bytes.length).after mem) p) ↔ Lossless m := by
  obtain ⟨a, s, hval, hview, hread⟩ := coapParseMessage_val hbuilt hcode hbytes hmem hproxy
  have hvalues : ∀ o : CoapOption, m.isOption o.number = true →
      (SameValue m (view ((coapParseMessage cfg.maxChunkSize bytes.length).after mem)
        { a with payload := s }) o ↔ Kept m o) := by
    intro o ho
    obtain ⟨x, hx, rfl⟩ := exists_mem_optionsOf ho
    rw [← sameValue_iff (a := startedView m) hbuilt (fun _ => rfl) ho (hproxy x hx), ← hview]
    cases x.1 <;> exact Iff.rfl
  constructor
  · rintro ⟨p, hp, htrip⟩ o ho
    rw [hval] at hp
    cases hp
    exact (hvalues o ho).mp (htrip.values o ho)
  · intro hlossless
    have hheader := sameHeader_applyAll (startedView m) (optionsOf m)
    rw [← hview] at hheader
    refine ⟨_, hval, ?_⟩
    exact {
      status := rfl
      version := hheader.version
      type := hheader.type
      code := hheader.code
      mid := hheader.mid
      token := ⟨hheader.tokenLen, hheader.token⟩
      options := by
        intro k
        have hoption := isOption_applyAll_optionsOf hbuilt (a := startedView m)
          (fun _ => Bool.and_false _) k
        rw [← hview] at hoption
        exact hoption
      values := fun o ho => (hvalues o ho).mpr (hlossless o ho)
      payload := hread }

/-- The round trip where an option is refused. -/
theorem not_roundTrip_of_refused {bytes : List Byte} (hbuilt : Built cfg m) (hcode : m.code ≠ 0)
    (hbytes : coapSerializeMessage cfg m = some bytes) (hmem : Holds mem 0 bytes)
    (hproxy : ∃ x ∈ optionsOf m, refuses x.1.number = true) :
    ∃ p, (coapParseMessage cfg.maxChunkSize bytes.length).val mem = some p ∧
      p.status ≠ .noError := by
  obtain ⟨hparts, hmax⟩ := coapSerializeMessage_eq hcode hbuilt hbytes
  have hheld := hmem
  rw [hparts] at hheld
  obtain ⟨hval, -, hheld⟩ := @coapParseMessage_of_holds mem cfg cfg.maxChunkSize bytes.length m
    _ hbuilt hheld
  rw [holds_append] at hheld
  have hcount := length_le_encode 0 (optionsOf m)
  have hlen : coapHeaderLen + m.tokenLen + (encode 0 (optionsOf m)).length ≤ bytes.length := by
    have hheader : (headerBytes m).length = coapHeaderLen := rfl
    rw [hparts]
    simp only [length_append, hheader, hbuilt.token.1]
    omega
  rw [hval]
  exact coapParseOptions_refused laid_started (ascending_optionsOf hmax) hproxy hheld.1 hlen
    (by omega)

/-- **The round trip of a message that is built with the setters.** Its bytes are parsed to the
same message exactly if each of its options is kept. -/
theorem coap_round_trip (cfg : CoapConfig) (type : CoapType) (code : Byte) (mid : BitVec 16)
    (setters : List Setter) (bytes : List Byte) (mem : ℕ → Byte)
    (hcode : (build cfg type code mid setters).code ≠ 0)
    (hbytes : coapSerializeMessage cfg (build cfg type code mid setters) = some bytes)
    (hmem : Holds mem 0 bytes) :
    (∃ p, (coapParseMessage cfg.maxChunkSize bytes.length).val mem = some p ∧
      RoundTrip (build cfg type code mid setters)
        ((coapParseMessage cfg.maxChunkSize bytes.length).after mem) p) ↔
      Lossless (build cfg type code mid setters) := by
  have hbuilt := built_build cfg type code mid setters
  by_cases hproxy : ∃ x ∈ optionsOf (build cfg type code mid setters), refuses x.1.number = true
  · obtain ⟨p, hp, hstatus⟩ := not_roundTrip_of_refused hbuilt hcode hbytes hmem hproxy
    constructor
    · rintro ⟨q, hq, htrip⟩
      rw [hp] at hq
      cases hq
      exact absurd htrip.status hstatus
    · intro hlossless
      obtain ⟨x, hx, hrefuses⟩ := hproxy
      have hkept := hlossless x.1 (isOption_of_mem hx)
      rcases (refuses_iff x.1).mp hrefuses with ho | ho
      · rw [ho] at hkept
        exact hkept.elim
      · rw [ho] at hkept
        exact hkept.elim
  · refine roundTrip_iff hbuilt hcode hbytes hmem fun x hx => ?_
    rw [← Bool.not_eq_true]
    exact fun h => hproxy ⟨x, hx, h⟩

/-- The sizes of the default configuration. -/
def defaultConfig : CoapConfig := ⟨62, 64, by decide⟩

/-- The path `a/b`, with zeros behind it. -/
def filePath : CString := ⟨[0x61, 0x2F, 0x62], by decide, fun _ => 0⟩

/-- The path `a/`, with zeros behind it. -/
def directoryPath : CString := ⟨[0x61, 0x2F], by decide, fun _ => 0⟩

/-- A confirmable GET with a message id of 5. -/
def getMessage (setters : List Setter) : CoapMessage CStr := build defaultConfig .con 1 5 setters

/-- A token, a path, a block and a payload. -/
def getFile : List Setter := [.token [0x07], .uriPath filePath, .block2 3 1 64, .payload [0x2A]]

/-- The bytes of that message. -/
def getFileBytes : List Byte :=
  [0x41, 0x01, 0x00, 0x05, 0x07, 0xB1, 0x61, 0x01, 0x62, 0xC1, 0x3A, 0xFF, 0x2A]

/-- The bytes of a list at the start of a memory of zeros. -/
def memoryOf (bytes : List Byte) : ℕ → Byte := fun i => bytes.getD i 0

theorem holds_memoryOf (bytes : List Byte) : Holds (memoryOf bytes) 0 bytes := by
  intro i hi
  simp [memoryOf, hi]

theorem coap_round_trip_getFile :
    ∃ p, (coapParseMessage 64 13).val (memoryOf getFileBytes) = some p ∧
      RoundTrip (getMessage getFile) ((coapParseMessage 64 13).after (memoryOf getFileBytes)) p := by
  refine (coap_round_trip defaultConfig .con 1 5 getFile getFileBytes _ (by decide) (by decide)
    (holds_memoryOf _)).mpr ?_
  intro o ho
  cases o with
  | uriPath => exact .inl (by decide)
  | block2 => exact ⟨.inr rfl, by decide⟩
  | _ => exact absurd ho (by decide)

/-- The bytes of a message with the path `a/`: the segment behind the separator is missing. -/
def directoryBytes : List Byte := [0x40, 0x01, 0x00, 0x05, 0xB1, 0x61]

/-- The separator at the end of the path does not come back. -/
theorem directory_loses_separator :
    coapSerializeMessage defaultConfig (getMessage [.uriPath directoryPath]) =
        some directoryBytes ∧
      ¬ ∃ p, (coapParseMessage 64 6).val (memoryOf directoryBytes) = some p ∧
        RoundTrip (getMessage [.uriPath directoryPath])
          ((coapParseMessage 64 6).after (memoryOf directoryBytes)) p := by
  have hbytes : coapSerializeMessage defaultConfig (getMessage [.uriPath directoryPath]) =
      some directoryBytes := by decide
  refine ⟨hbytes, fun htrip => ?_⟩
  have hlossless := (roundTrip_iff (built_build defaultConfig .con 1 5 _) (by decide) hbytes
    (holds_memoryOf _) (by decide)).mp htrip
  rcases hlossless .uriPath (by decide) with hend | hend
  · exact absurd hend (by decide)
  · exact absurd hend.1 (by decide)

end Asap.Coap
