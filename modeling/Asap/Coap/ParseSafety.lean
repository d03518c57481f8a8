import Asap.Coap.Message

/-!
# What the CoAP parser touches

The parser tests the length of a datagram only after it has read the header of an option, and
ends a payload with a byte that it writes behind it. Whether it stays inside the datagram is
therefore a matter of the datagram: the fixed header and the token have to be there, no header
of an option that the loop comes to may be cut off, and a payload has to be longer than what is
kept of it.

The loop is followed by `optionPositions`, the offsets at which it stands. Merging writes below
the cursor only, so what it has still to meet is what was received.

## Main definitions

* `optionPositions` — where the loop stands, read off the datagram.
* `Sound`, `WellFormed` — what a position, and a datagram, has to be.
* `Accepted`, `ParseSafe` — what is promised of a parsed message, and of a parse.
-/

namespace Asap.Coap

open Lib
open Access (val_bind val_pure val_bytes val_byte extent_bind extent_pure extent_bytes extent_byte
  extent_write after_bytes after_bind after_byte after_write after_pure reach_le_of_le reach_le)

variable {mem mem' : ℕ → Byte} {chunk n i j cur number fuel : ℕ} {m m' : CoapMessage Slice}
  {option : Slice}

/-! ## The datagram -/

/-- The header of an option at an offset of the datagram. -/
def headerAt (mem : ℕ → Byte) (i : ℕ) : OptionHeader := (coapOptionHeader i (mem i)).val mem

/-- The numbers that end the parsing: the proxy options and the unknown odd ones. -/
def refuses (number : ℕ) : Bool :=
  match CoapOption.ofNumber number with
  | some o => o == .proxyUri || o == .proxyScheme
  | none => number % 2 == 1

/-- The loop ends at this offset. -/
def ends (n : ℕ) (mem : ℕ → Byte) (number i : ℕ) : Bool :=
  decide (isMarker (mem i)) || decide (n < (headerAt mem i).stop + (headerAt mem i).length) ||
    decide (CoapOption.size1.number < number + (headerAt mem i).delta) ||
    refuses (number + (headerAt mem i).delta)

/-- The offsets at which the loop stands. -/
def optionPositions (n : ℕ) (mem : ℕ → Byte) : ℕ → ℕ → ℕ → List ℕ
  | 0, _, _ => []
  | fuel + 1, i, number =>
    if i < n then
      i :: if ends n mem number i then [] else
        optionPositions n mem fuel ((headerAt mem i).stop + (headerAt mem i).length)
          (number + (headerAt mem i).delta)
    else []

/-- The header of an option is inside; a payload is longer than what is kept of it. -/
structure Sound (chunk n : ℕ) (mem : ℕ → Byte) (i : ℕ) : Prop where
  header : ¬ isMarker (mem i) → (headerAt mem i).stop ≤ n
  payload : isMarker (mem i) → i + 1 + chunk < n

/-- The message that the first four bytes give. -/
def fixedHeader (mem : ℕ → Byte) : CoapMessage Slice := parseHeader (mem 0) (mem 1) (mem 2) (mem 3)

/-- The datagrams that are parsed further than the fixed header. -/
def HasToken (mem : ℕ → Byte) : Prop :=
  (fixedHeader mem).version = 1 ∧ (fixedHeader mem).tokenLen ≤ coapTokenLen

/-- The positions in a datagram. -/
def datagramPositions (n : ℕ) (mem : ℕ → Byte) : List ℕ :=
  optionPositions n mem (n + 1) (coapHeaderLen + (fixedHeader mem).tokenLen) 0

/-- **The datagrams that are parsed inside their bounds.** -/
structure WellFormed (chunk n : ℕ) (mem : ℕ → Byte) : Prop where
  fixed : coapHeaderLen ≤ n
  token : HasToken mem → coapHeaderLen + (fixedHeader mem).tokenLen ≤ n
  options : HasToken mem → ∀ i ∈ datagramPositions n mem, Sound chunk n mem i

/-! ## Headers -/

theorem after_coapOptionExtension {nibble : ℕ} :
    (coapOptionExtension nibble cur).after mem = mem := by
  unfold coapOptionExtension
  split
  · simp
  · split <;> simp

/-- The bytes that extend a nibble are those up to where it ends. -/
theorem extent_coapOptionExtension_le {nibble : ℕ} (h : cur ≤ n) :
    (coapOptionExtension nibble cur).extent mem ≤ n ↔
      ((coapOptionExtension nibble cur).val mem).2 ≤ n := by
  by_cases h13 : nibble = 13
  · simp [coapOptionExtension, h13]
  · by_cases h14 : nibble = 14
    · simp [coapOptionExtension, h14]
      omega
    · simp [coapOptionExtension, h13, h14, h]

theorem le_coapOptionExtension {nibble : ℕ} :
    cur ≤ ((coapOptionExtension nibble cur).val mem).2 := by
  by_cases h13 : nibble = 13
  · simp [coapOptionExtension, h13]
  · by_cases h14 : nibble = 14
    · simp [coapOptionExtension, h14]
    · simp [coapOptionExtension, h13, h14]

theorem coapOptionExtension_congr {nibble : ℕ} (h : ∀ j, cur ≤ j → mem' j = mem j) :
    (coapOptionExtension nibble cur).val mem' = (coapOptionExtension nibble cur).val mem := by
  by_cases h13 : nibble = 13
  · simp [coapOptionExtension, h13, h]
  · by_cases h14 : nibble = 14
    · simp [coapOptionExtension, h14, h]
    · simp [coapOptionExtension, h13, h14]

theorem after_coapOptionHeader {first : Byte} : (coapOptionHeader cur first).after mem = mem := by
  simp [coapOptionHeader, after_coapOptionExtension]

/-- The header of an option has a byte at least. -/
theorem lt_stop_headerAt : i < (headerAt mem i).stop := by
  have hdelta := @le_coapOptionExtension mem (i + 1) (mem i >>> 4).toNat
  simp only [headerAt, coapOptionHeader, val_bind, val_pure,
    after_coapOptionExtension]
  exact lt_of_lt_of_le (Nat.lt_of_succ_le hdelta) le_coapOptionExtension

theorem extent_coapOptionHeader_le (h : i < n) :
    (coapOptionHeader i (mem i)).extent mem ≤ n ↔ (headerAt mem i).stop ≤ n := by
  have hdelta := @extent_coapOptionExtension_le mem n (i + 1) (mem i >>> 4).toNat h
  simp only [headerAt, coapOptionHeader, extent_bind, val_bind, val_pure,
    extent_pure, after_coapOptionExtension, Nat.max_le, Nat.zero_le, and_true, hdelta]
  constructor
  · intro hle
    exact (extent_coapOptionExtension_le hle.1).mp hle.2
  · intro hstop
    have hle := le_trans le_coapOptionExtension hstop
    exact ⟨hle, (extent_coapOptionExtension_le hle).mpr hstop⟩

section

variable (h : ∀ j, i ≤ j → mem' j = mem j)

include h

theorem headerAt_congr : headerAt mem' i = headerAt mem i := by
  have hdelta := @coapOptionExtension_congr mem mem' (i + 1) (mem i >>> 4).toNat
    fun j hj => h j (by omega)
  have hle := @le_coapOptionExtension mem (i + 1) (mem i >>> 4).toNat
  have hlength := @coapOptionExtension_congr mem mem'
    ((coapOptionExtension (mem i >>> 4).toNat (i + 1)).val mem).2 (mem i &&& 0x0F).toNat
    fun j hj => h j (by omega)
  simp only [headerAt, coapOptionHeader, val_bind, val_pure,
    after_coapOptionExtension, h i (Nat.le_refl i), hdelta, hlength]

theorem ends_congr : ends n mem' number i = ends n mem number i := by
  simp only [ends, h i (Nat.le_refl i), headerAt_congr h]

theorem sound_congr :
    Sound chunk n mem' i ↔ Sound chunk n mem i := by
  have hhead := headerAt_congr h
  have hbyte := h i (Nat.le_refl i)
  constructor
  · intro hsound
    refine ⟨?_, ?_⟩
    · simpa only [hhead, hbyte] using hsound.header
    · simpa only [hbyte] using hsound.payload
  · intro hsound
    refine ⟨?_, ?_⟩
    · simpa only [hhead, hbyte] using hsound.header
    · simpa only [hbyte] using hsound.payload

/-- Where the loop stands depends on what is ahead of it. -/
theorem optionPositions_congr :
    optionPositions n mem' fuel i number = optionPositions n mem fuel i number := by
  induction fuel generalizing i number with
  | zero => rfl
  | succ fuel ih =>
    have hlt := @lt_stop_headerAt mem i
    simp only [optionPositions, ends_congr h, headerAt_congr h]
    rw [ih fun j hj => h j (by omega)]

end

theorem le_of_mem_optionPositions (h : j ∈ optionPositions n mem fuel i number) : i ≤ j := by
  induction fuel generalizing i number with
  | zero => simp [optionPositions] at h
  | succ fuel ih =>
    rw [optionPositions] at h
    split at h
    · rcases List.mem_cons.mp h with rfl | h
      · exact Nat.le_refl _
      · split at h
        · simp at h
        · have hlt := @lt_stop_headerAt mem i
          have := ih h
          omega
    · simp at h

/-! ## The options -/

/-- The strings of a message end at an offset or before it. -/
def Within (k : ℕ) (m : CoapMessage Slice) : Prop := ∀ field, (m.strings field).stop ≤ k

theorem Within.mono {k : ℕ} (h : Within i m) (hle : i ≤ k) : Within k m :=
  fun field => le_trans (h field) hle

@[simp] theorem strings_setOption (opt : ℕ) : (m.setOption opt).strings = m.strings := by
  unfold CoapMessage.setOption
  split <;> rfl

/-- The fields that are not an option's. -/
structure SameFrame (m m' : CoapMessage Slice) : Prop where
  payload : m'.payload = m.payload
  token : m'.token = m.token
  tokenLen : m'.tokenLen = m.tokenLen

theorem SameFrame.refl (m : CoapMessage Slice) : SameFrame m m := ⟨rfl, rfl, rfl⟩

theorem SameFrame.trans {m'' : CoapMessage Slice} (h : SameFrame m m') (h' : SameFrame m' m'') :
    SameFrame m m'' :=
  ⟨h'.payload.trans h.payload, h'.token.trans h.token, h'.tokenLen.trans h.tokenLen⟩

theorem sameFrame_setOption (opt : ℕ) : SameFrame m (m.setOption opt) := by
  unfold CoapMessage.setOption
  split
  · exact .refl m
  · exact ⟨rfl, rfl, rfl⟩

theorem Within.setString {field : CoapString} {s : Slice} (h : Within i m) (hs : s.stop ≤ i) :
    Within i (m.setString field s) := by
  intro field'
  by_cases hfield : field' = field
  · simpa [CoapMessage.setString, hfield] using hs
  · simpa [CoapMessage.setString, hfield] using h field'

/-- What an option may do: it touches what is below its end, leaves what is behind it, and its
strings end there. -/
structure Contained (option : Slice) (m : CoapMessage Slice) (mem : ℕ → Byte)
    (x : Access (Except Parsed (CoapMessage Slice))) : Prop where
  extent : x.extent mem ≤ option.stop
  after : ∀ j, option.stop ≤ j → x.after mem j = mem j
  within : ∀ m', x.val mem = .ok m' → Within option.stop m'
  frame : ∀ m', x.val mem = .ok m' → SameFrame m m'

theorem contained_ok (hwithin : Within option.stop m') (hframe : SameFrame m m') :
    Contained option m mem (return .ok m') where
  extent := Nat.zero_le _
  after _ _ := rfl
  within m'' h := by cases h; exact hwithin
  frame m'' h := by cases h; exact hframe

theorem contained_error (parsed : Parsed) : Contained option m mem (return .error parsed) where
  extent := Nat.zero_le _
  after _ _ := rfl
  within m'' h := by cases h
  frame m'' h := by cases h

theorem contained_parseInt {set : CoapMessage Slice → BitVec 32 → CoapMessage Slice}
    (hwithin : ∀ v, Within option.stop (set m v)) (hframe : ∀ v, SameFrame m' (set m v)) :
    Contained option m' mem (parseInt option m set) where
  extent := by simpa [parseInt] using reach_le_of_le (Nat.le_refl _)
  after _ _ := rfl
  within m'' h := by cases h; exact hwithin _
  frame m'' h := by cases h; exact hframe _

theorem contained_parseArray {set : CoapMessage Slice → List Byte → CoapMessage Slice}
    (hwithin : ∀ v, Within option.stop (set m v)) (hframe : ∀ v, SameFrame m' (set m v)) :
    Contained option m' mem (parseArray option m set) where
  extent := by
    simp only [parseArray, extent_bind, extent_bytes, extent_pure,
      Nat.max_le, Nat.zero_le, and_true]
    apply reach_le_of_le
    exact Nat.add_le_add_left (Nat.min_le_right _ _) _
  after _ _ := rfl
  within m'' h := by cases h; exact hwithin _
  frame m'' h := by cases h; exact hframe _

/-- Merging writes from the end of the string up to the end of the option. -/
theorem coapMergeMultiOption_spec {dst : Slice} {separator : Byte} (h : dst.stop < option.start) :
    (coapMergeMultiOption dst option separator).extent mem ≤ option.stop ∧
      (∀ j, option.stop ≤ j → (coapMergeMultiOption dst option separator).after mem j = mem j) ∧
      ((coapMergeMultiOption dst option separator).val mem).stop ≤ option.stop := by
  simp only [Slice.stop] at h ⊢
  by_cases hdst : 0 < dst.len
  · refine ⟨?_, ?_, ?_⟩
    · simp only [coapMergeMultiOption, if_pos hdst, extent_bind, extent_write,
        after_write, extent_bytes, val_bytes, after_bytes,
        extent_pure, Nat.max_le, List.length_singleton, length_bytesAt]
      refine ⟨?_, ?_, ?_, Nat.zero_le _⟩
      · exact reach_le_of_le (by simp only [Slice.stop]; omega)
      · exact reach_le_of_le (by omega)
      · exact reach_le_of_le (by simp only [Slice.stop]; omega)
    · intro j hj
      simp only [coapMergeMultiOption, if_pos hdst, after_bind, after_write,
        after_bytes, val_bytes, after_pure]
      rw [store_of_le (by simp [Slice.stop]; omega), store_of_le (by simp [Slice.stop]; omega)]
    · simp only [coapMergeMultiOption, if_pos hdst, val_bind, val_pure]
      omega
  · simp [coapMergeMultiOption, hdst]

theorem contained_parseMerged {field : CoapString} {separator : Byte}
    (hwithin : Within i m) (hlt : i < option.start) :
    Contained option m mem (parseMerged option m field separator) := by
  obtain ⟨hextent, hafter, hstop⟩ := @coapMergeMultiOption_spec mem option (m.strings field)
    separator (lt_of_le_of_lt (hwithin field) hlt)
  refine ⟨?_, ?_, ?_, ?_⟩
  · simpa [parseMerged] using hextent
  · intro j hj
    simpa [parseMerged] using hafter j hj
  · intro m' hm'
    simp only [parseMerged, val_bind, val_pure, Except.ok.injEq] at hm'
    subst hm'
    apply Within.setString
    · exact hwithin.mono (by simp only [Slice.stop]; omega)
    · exact hstop
  · intro m' hm'
    simp only [parseMerged, val_bind, val_pure, Except.ok.injEq] at hm'
    subst hm'
    exact ⟨rfl, rfl, rfl⟩

theorem contained_setOption {x : Access (Except Parsed (CoapMessage Slice))}
    (h : Contained option (m.setOption number) mem x) : Contained option m mem x :=
  { h with frame := fun m' hm' => (sameFrame_setOption number).trans (h.frame m' hm') }

/-- **Every case of the parser is contained in the option.** -/
theorem contained_coapParseOption (hwithin : Within i m) (hlt : i < option.start) :
    Contained option m mem (coapParseOption number option m) := by
  have hset : Within i (m.setOption number) := by
    intro field
    rw [strings_setOption]
    exact hwithin field
  have hstop : Within option.stop (m.setOption number) := hset.mono (by simp only [Slice.stop]; omega)
  apply contained_setOption
  unfold coapParseOption
  simp only
  split
  all_goals first
    | exact contained_parseInt (fun _ => hstop) (fun _ => ⟨rfl, rfl, rfl⟩)
    | exact contained_parseArray (fun _ => hstop) (fun _ => ⟨rfl, rfl, rfl⟩)
    | exact contained_parseMerged hset hlt
    | exact contained_error _
    | exact contained_ok hstop ⟨rfl, rfl, rfl⟩
    | exact contained_ok (hstop.setString (Nat.le_refl _)) ⟨rfl, rfl, rfl⟩
    | skip
  split
  · exact contained_error _
  · exact contained_ok hstop (.refl _)

/-- The parsing ends at the refused numbers, and with an error there. -/
theorem val_coapParseOption_error :
    (∃ parsed, (coapParseOption number option m).val mem = .error parsed) ↔ refuses number := by
  unfold coapParseOption refuses
  cases CoapOption.ofNumber number with
  | none => by_cases hodd : number % 2 = 1 <;> simp [hodd]
  | some o => cases o <;> simp [parseInt, parseArray, parseMerged]

theorem status_of_error {parsed : Parsed}
    (h : (coapParseOption number option m).val mem = .error parsed) : parsed.status ≠ .noError := by
  unfold coapParseOption at h
  cases hnumber : CoapOption.ofNumber number with
  | none =>
    by_cases hodd : number % 2 = 1
    · simp [hnumber, hodd] at h
      simp [← h]
    · simp [hnumber, hodd] at h
  | some o =>
    cases o <;> simp [hnumber, parseInt, parseArray, parseMerged] at h <;> simp [← h]

/-! ## A round -/

/-- The value of an option is looked at only inside the datagram. -/
theorem extent_coapParseValue_le {header : OptionHeader} (hwithin : Within i m)
    (hlt : i < header.stop) : (coapParseValue n number header m).extent mem ≤ n := by
  unfold coapParseValue
  split
  next => exact Nat.zero_le n
  next hinside =>
    split
    next => exact Nat.zero_le n
    next =>
      have hcontained := @contained_coapParseOption mem i (number + header.delta) m
        ⟨header.stop, header.length⟩ hwithin hlt
      exact le_trans hcontained.extent (Nat.not_lt.mp hinside)

theorem contained_coapParseValue {header : OptionHeader} (hwithin : Within i m)
    (hlt : i < header.stop) :
    (∀ j, header.stop + header.length ≤ j →
        (coapParseValue n number header m).after mem j = mem j) ∧
      ∀ m', (coapParseValue n number header m).val mem = .ok m' →
        Within (header.stop + header.length) m' ∧ SameFrame m m' := by
  unfold coapParseValue
  split
  next => exact ⟨fun _ _ => rfl, fun m' hm' => by cases hm'⟩
  next =>
    split
    next => exact ⟨fun _ _ => rfl, fun m' hm' => by cases hm'⟩
    next =>
      have hcontained := @contained_coapParseOption mem i (number + header.delta) m
        ⟨header.stop, header.length⟩ hwithin hlt
      exact ⟨hcontained.after, fun m' hm' => ⟨hcontained.within m' hm', hcontained.frame m' hm'⟩⟩

/-- The rounds that end the loop with an error. -/
theorem val_coapParseValue (hmarker : ¬ isMarker (mem i)) :
    (ends n mem number i = true →
        ∃ parsed, (coapParseValue n number (headerAt mem i) m).val mem = .error parsed ∧
          parsed.status ≠ .noError) ∧
      (ends n mem number i = false →
        ∃ m', (coapParseValue n number (headerAt mem i) m).val mem = .ok m') := by
  simp only [ends, hmarker, decide_false, Bool.false_or, Bool.or_eq_true, decide_eq_true_eq,
    Bool.or_eq_false_iff, decide_eq_false_iff_not]
  unfold coapParseValue
  by_cases hinside : n < (headerAt mem i).stop + (headerAt mem i).length
  · simp [hinside]
  · by_cases hnumber : CoapOption.size1.number < number + (headerAt mem i).delta
    · simp [hinside, hnumber]
    · simp only [hinside, hnumber, if_false, false_or, not_false_iff, true_and]
      refine ⟨?_, ?_⟩
      · intro hrefuses
        obtain ⟨parsed, hparsed⟩ := val_coapParseOption_error.mpr hrefuses
        exact ⟨parsed, hparsed, status_of_error hparsed⟩
      · intro hrefuses
        cases hval : (coapParseOption (number + (headerAt mem i).delta)
            ⟨(headerAt mem i).stop, (headerAt mem i).length⟩ m).val mem with
        | ok m' => exact ⟨m', rfl⟩
        | error parsed =>
          have hex := val_coapParseOption_error.mp ⟨parsed, hval⟩
          rw [hrefuses] at hex
          exact absurd hex Bool.false_ne_true

/-- What a round that meets no marker does. -/
structure Steps (n : ℕ) (mem : ℕ → Byte) (number i : ℕ) (m : CoapMessage Slice)
    (x : Access Round) : Prop where
  extent : x.extent mem ≤ n ↔ (headerAt mem i).stop ≤ n
  after : ∀ j, (headerAt mem i).stop + (headerAt mem i).length ≤ j → x.after mem j = mem j
  done : ends n mem number i = true →
    ∃ parsed, x.val mem = .done parsed ∧ parsed.status ≠ .noError
  next : ends n mem number i = false →
    (headerAt mem i).stop + (headerAt mem i).length ≤ n ∧
      ∃ m', x.val mem = .next ((headerAt mem i).stop + (headerAt mem i).length)
          (number + (headerAt mem i).delta) m' ∧
        Within ((headerAt mem i).stop + (headerAt mem i).length) m' ∧ SameFrame m m'

theorem steps_coapParseRound (hi : i < n) (hwithin : Within i m) (hmarker : ¬ isMarker (mem i)) :
    Steps n mem number i m (coapParseRound chunk n i number m (mem i)) := by
  have hlt := @lt_stop_headerAt mem i
  have hhead : (coapOptionHeader i (mem i)).val mem = headerAt mem i := rfl
  obtain ⟨hafter, hok⟩ := @contained_coapParseValue mem n i number m (headerAt mem i) hwithin hlt
  obtain ⟨herror, hnext⟩ := @val_coapParseValue mem n i number m hmarker
  have hextent := @extent_coapParseValue_le mem n i number m (headerAt mem i) hwithin hlt
  refine ⟨?_, ?_, ?_, ?_⟩
  · have hheader := @extent_coapOptionHeader_le mem n i hi
    simp only [coapParseRound, if_neg hmarker, extent_bind, hhead, after_coapOptionHeader,
      Nat.max_le, hheader, hextent, true_and, and_iff_left_iff_imp]
    intro _
    cases (coapParseValue n number (headerAt mem i) m).val mem <;> simp
  · intro j hj
    simp only [coapParseRound, if_neg hmarker, after_bind, hhead, after_coapOptionHeader]
    rw [← hafter j hj]
    cases (coapParseValue n number (headerAt mem i) m).val mem <;> rfl
  · intro hends
    obtain ⟨parsed, hval, hstatus⟩ := herror hends
    refine ⟨parsed, ?_, hstatus⟩
    simp only [coapParseRound, if_neg hmarker, val_bind, hhead, after_coapOptionHeader, hval]
    rfl
  · intro hends
    obtain ⟨m', hval⟩ := hnext hends
    refine ⟨?_, m', ?_, hok m' hval⟩
    · simp only [ends, Bool.or_eq_false_iff, decide_eq_false_iff_not] at hends
      omega
    · simp only [coapParseRound, if_neg hmarker, val_bind, hhead, after_coapOptionHeader,
        hval]
      rfl

/-! ## The loop -/

/-- **What the loop touches:** it stays inside exactly if each of its positions is sound. -/
theorem extent_coapParseOptions_le (hwithin : Within cur m) :
    (coapParseOptions chunk n fuel cur number m).extent mem ≤ n ↔
      ∀ i ∈ optionPositions n mem fuel cur number, Sound chunk n mem i := by
  induction fuel generalizing cur number m mem with
  | zero => simp [coapParseOptions, optionPositions]
  | succ fuel ih =>
    by_cases hcur : cur < n
    · simp only [coapParseOptions, optionPositions, if_pos hcur, extent_bind,
        val_byte, after_byte, extent_byte, Nat.max_le, List.forall_mem_cons]
      by_cases hmarker : isMarker (mem cur)
      · have hends : ends n mem number cur = true := by simp [ends, hmarker]
        have hsound : Sound chunk n mem cur ↔ cur + 1 + chunk < n := by
          constructor
          · intro h
            exact h.payload hmarker
          · intro h
            exact ⟨fun hnot => absurd hmarker hnot, fun _ => h⟩
        simp only [coapParseRound, if_pos hmarker, hends, if_true, hsound]
        simp [payloadBehind, Slice.stop, reach_le]
        omega
      · have hsteps := @steps_coapParseRound mem chunk n cur number m hcur hwithin hmarker
        have hsound : Sound chunk n mem cur ↔ (headerAt mem cur).stop ≤ n := by
          constructor
          · intro h
            exact h.header hmarker
          · intro h
            exact ⟨fun _ => h, fun hyes => absurd hyes hmarker⟩
        rw [hsteps.extent, hsound]
        cases hends : ends n mem number cur with
        | true =>
          obtain ⟨parsed, hval, -⟩ := hsteps.done hends
          rw [hval]
          simp
          omega
        | false =>
          obtain ⟨hle, m', hval, hwithin', -⟩ := hsteps.next hends
          rw [hval]
          simp only
          rw [ih hwithin', optionPositions_congr hsteps.after]
          have hcongr : (∀ i ∈ optionPositions n mem fuel
                ((headerAt mem cur).stop + (headerAt mem cur).length)
                (number + (headerAt mem cur).delta),
              Sound chunk n ((coapParseRound chunk n cur number m (mem cur)).after mem) i) ↔
              ∀ i ∈ optionPositions n mem fuel
                ((headerAt mem cur).stop + (headerAt mem cur).length)
                (number + (headerAt mem cur).delta), Sound chunk n mem i := by
            refine forall₂_congr fun i hi => ?_
            have hge := le_of_mem_optionPositions hi
            exact sound_congr fun j hj => hsteps.after j (by omega)
          simp only [hcongr, Bool.false_eq_true, if_false]
          constructor
          · rintro ⟨-, hstop, hrest⟩
            exact ⟨hstop, hrest⟩
          · rintro ⟨hstop, hrest⟩
            exact ⟨hcur, hstop, hrest⟩
    · simp [coapParseOptions, optionPositions, hcur]

/-- What the loop makes of the payload. -/
structure Payload (chunk n : ℕ) (mem mem' : ℕ → Byte) (positions : List ℕ) (payload : Slice) :
    Prop where
  behind : (∃ i ∈ positions, isMarker (mem i) ∧ payload = payloadBehind chunk n i) ∨
    (∀ i ∈ positions, ¬ isMarker (mem i)) ∧ payload.len = 0
  inside : payload.stop ≤ n
  content : bytesAt mem' payload.start payload.len = bytesAt mem payload.start payload.len

/-- The payload that the next rounds find is the one of the whole loop. -/
theorem Payload.step {mem₁ : ℕ → Byte} {positions : List ℕ} {payload : Slice} {next : ℕ}
    (h : Payload chunk n mem₁ mem' positions payload) (hsame : ∀ j, next ≤ j → mem₁ j = mem j)
    (hpos : ∀ i ∈ positions, next ≤ i) (hmarker : ¬ isMarker (mem cur)) :
    Payload chunk n mem mem' (cur :: positions) payload := by
  refine ⟨?_, h.inside, ?_⟩
  · rcases h.behind with ⟨i, hi, hmark, heq⟩ | ⟨hnone, hlen⟩
    · rw [hsame i (hpos i hi)] at hmark
      exact .inl ⟨i, List.mem_cons_of_mem _ hi, hmark, heq⟩
    · refine .inr ⟨List.forall_mem_cons.mpr ⟨hmarker, ?_⟩, hlen⟩
      intro i hi
      rw [← hsame i (hpos i hi)]
      exact hnone i hi
  · rw [h.content]
    rcases h.behind with ⟨i, hi, -, rfl⟩ | ⟨-, hlen⟩
    · have hle := hpos i hi
      exact bytesAt_congr fun j hj _ => hsame j (by simp [payloadBehind] at hj; omega)
    · rw [hlen]
      rfl

/-- **What the loop returns.** Its rounds are enough, and a message that is accepted has its
strings and its payload inside. -/
theorem val_coapParseOptions (hfuel : n - cur < fuel) (hwithin : Within cur m)
    (hpayload : m.payload = ⟨0, 0⟩) :
    ∃ p, (coapParseOptions chunk n fuel cur number m).val mem = some p ∧
      (cur ≤ n → p.status = .noError →
        Within n p.message ∧ p.message.token = m.token ∧ p.message.tokenLen = m.tokenLen ∧
          Payload chunk n mem ((coapParseOptions chunk n fuel cur number m).after mem)
            (optionPositions n mem fuel cur number) p.message.payload) := by
  induction fuel generalizing cur number m mem with
  | zero => omega
  | succ fuel ih =>
    by_cases hlt : cur < n
    · simp only [coapParseOptions, optionPositions, if_pos hlt, val_bind, after_bind,
        val_byte, after_byte]
      by_cases hmarker : isMarker (mem cur)
      · have hends : ends n mem number cur = true := by simp [ends, hmarker]
        refine ⟨⟨.noError, none, { m with payload := payloadBehind chunk n cur }⟩, ?_, ?_⟩
        · simp only [coapParseRound, if_pos hmarker]
          rfl
        · intro hcur _
          refine ⟨hwithin.mono hcur, rfl, rfl, ?_⟩
          simp only [hends, if_true, coapParseRound, if_pos hmarker]
          refine ⟨.inl ⟨cur, List.mem_singleton.mpr rfl, hmarker, rfl⟩, ?_, ?_⟩
          · simp [payloadBehind, Slice.stop]
            omega
          · apply bytesAt_store_of_beside
            exact .inl (Nat.le_refl _)
      · have hsteps := @steps_coapParseRound mem chunk n cur number m hlt hwithin hmarker
        cases hends : ends n mem number cur with
        | true =>
          obtain ⟨parsed, hval, hstatus⟩ := hsteps.done hends
          refine ⟨parsed, ?_, fun _ h => absurd h hstatus⟩
          rw [hval]
          rfl
        | false =>
          obtain ⟨hle, m', hval, hwithin', hframe⟩ := hsteps.next hends
          have hstop := @lt_stop_headerAt mem cur
          obtain ⟨p, hp, haccepted⟩ := @ih
            ((coapParseRound chunk n cur number m (mem cur)).after mem)
            ((headerAt mem cur).stop + (headerAt mem cur).length)
            (number + (headerAt mem cur).delta) m' (by omega) hwithin'
            (hframe.payload.trans hpayload)
          rw [hval]
          refine ⟨p, hp, ?_⟩
          intro _ hstatus
          obtain ⟨hinside, htoken, htokenLen, hpay⟩ := haccepted hle hstatus
          refine ⟨hinside, htoken.trans hframe.token, htokenLen.trans hframe.tokenLen, ?_⟩
          rw [optionPositions_congr hsteps.after] at hpay
          simp only [Bool.false_eq_true, if_false]
          exact hpay.step hsteps.after (fun i hi => le_of_mem_optionPositions hi) hmarker
    · refine ⟨⟨.noError, none, m⟩, ?_, ?_⟩
      · simp [coapParseOptions, hlt]
      · intro hcur _
        refine ⟨hwithin.mono hcur, rfl, rfl, ?_⟩
        have hnone : optionPositions n mem (fuel + 1) cur number = [] := if_neg hlt
        rw [hnone, hpayload]
        exact ⟨.inr ⟨List.forall_mem_nil _, rfl⟩, Nat.zero_le n, rfl⟩

/-! ## The datagram as a whole -/

/-- What is promised of a message that is accepted. -/
structure Accepted (chunk n : ℕ) (mem mem' : ℕ → Byte) (m : CoapMessage Slice) : Prop where
  token : coapHeaderLen + m.tokenLen ≤ n ∧ m.token = bytesAt mem coapHeaderLen m.tokenLen
  strings : Within n m
  payload : Payload chunk n mem mem' (datagramPositions n mem) m.payload

/-- What is promised of a parse: it touches the datagram only, and what it accepts is inside. -/
structure ParseSafe (chunk n : ℕ) (mem : ℕ → Byte) : Prop where
  extent : (coapParseMessage chunk n).extent mem ≤ n
  accepted : ∀ p, (coapParseMessage chunk n).val mem = some p → p.status = .noError →
    Accepted chunk n mem ((coapParseMessage chunk n).after mem) p.message

theorem within_fixedHeader {k : ℕ} {token : List Byte} :
    Within k { fixedHeader mem with token := token } := fun _ => Nat.zero_le k

theorem val_coapParseMessage : (coapParseMessage chunk n).val mem =
    (coapParseBehindHeader chunk n (fixedHeader mem)).val mem := by
  simp [coapParseMessage, fixedHeader]

theorem after_coapParseMessage : (coapParseMessage chunk n).after mem =
    (coapParseBehindHeader chunk n (fixedHeader mem)).after mem := by
  simp [coapParseMessage, fixedHeader]

theorem extent_coapParseMessage_le : (coapParseMessage chunk n).extent mem ≤ n ↔
    4 ≤ n ∧ (coapParseBehindHeader chunk n (fixedHeader mem)).extent mem ≤ n := by
  simp only [coapParseMessage, fixedHeader, extent_bind, val_byte, after_byte,
    extent_byte, Nat.max_le]
  constructor
  · rintro ⟨-, -, -, h4, hrest⟩
    exact ⟨h4, hrest⟩
  · rintro ⟨h4, hrest⟩
    exact ⟨by omega, by omega, by omega, h4, hrest⟩

/-- A datagram without a token to copy is refused. -/
theorem run_coapParseBehindHeader_of_not (h : ¬ HasToken mem) :
    ∃ p : Parsed, coapParseBehindHeader chunk n (fixedHeader mem) = pure (some p) ∧
      p.status ≠ .noError := by
  unfold HasToken at h
  unfold coapParseBehindHeader
  by_cases hversion : (fixedHeader mem).version = 1
  · have hlen : coapTokenLen < (fixedHeader mem).tokenLen := by
      by_contra hnot
      exact h ⟨hversion, Nat.not_lt.mp hnot⟩
    refine ⟨⟨.badRequest, some "Token Length must not be more than 8", fixedHeader mem⟩, ?_, ?_⟩
    · rw [if_neg (not_not.mpr hversion), if_pos hlen]
    · simp
  · refine ⟨⟨.badRequest, some "CoAP version must be 1", fixedHeader mem⟩, ?_, ?_⟩
    · rw [if_pos hversion]
    · simp

theorem run_coapParseBehindHeader_of (h : HasToken mem) :
    coapParseBehindHeader chunk n (fixedHeader mem) = (do
      let token ← Access.bytes coapHeaderLen (fixedHeader mem).tokenLen
      coapParseOptions chunk n (n + 1) (coapHeaderLen + (fixedHeader mem).tokenLen) 0
        { fixedHeader mem with token := token }) := by
  unfold coapParseBehindHeader
  rw [if_neg (not_not.mpr h.1), if_neg (Nat.not_lt.mpr h.2)]

/-- What the whole parser touches. -/
theorem extent_coapParseMessage_le_iff :
    (coapParseMessage chunk n).extent mem ≤ n ↔ WellFormed chunk n mem := by
  rw [extent_coapParseMessage_le]
  by_cases h : HasToken mem
  · have hloop := @extent_coapParseOptions_le mem chunk n
      (coapHeaderLen + (fixedHeader mem).tokenLen) 0 (n + 1)
      { fixedHeader mem with token := bytesAt mem coapHeaderLen (fixedHeader mem).tokenLen }
      within_fixedHeader
    rw [run_coapParseBehindHeader_of h]
    simp only [extent_bind, extent_bytes, val_bytes, after_bytes,
      Nat.max_le, hloop, reach_le]
    constructor
    · rintro ⟨hfixed, htoken, hsound⟩
      refine ⟨hfixed, fun _ => ?_, fun _ => hsound⟩
      rcases htoken with hzero | hle
      · rw [hzero]
        exact hfixed
      · exact hle
    · intro hwell
      exact ⟨hwell.fixed, .inr (hwell.token h), hwell.options h⟩
  · obtain ⟨p, hp, -⟩ := @run_coapParseBehindHeader_of_not mem chunk n h
    rw [hp]
    constructor
    · rintro ⟨hfixed, -⟩
      exact ⟨hfixed, fun hyes => absurd hyes h, fun hyes => absurd hyes h⟩
    · intro hwell
      exact ⟨hwell.fixed, Nat.zero_le n⟩

/-- The parser comes to an end, and what it accepts is inside if the token is. -/
theorem val_coapParseMessage_accepted
    (htoken : HasToken mem → coapHeaderLen + (fixedHeader mem).tokenLen ≤ n) :
    ∀ p, (coapParseMessage chunk n).val mem = some p → p.status = .noError →
      Accepted chunk n mem ((coapParseMessage chunk n).after mem) p.message := by
  intro p hp hstatus
  rw [val_coapParseMessage] at hp
  rw [after_coapParseMessage]
  by_cases h : HasToken mem
  · rw [run_coapParseBehindHeader_of h] at hp ⊢
    simp only [val_bind, after_bind, val_bytes, after_bytes] at hp ⊢
    obtain ⟨q, hq, haccepted⟩ := @val_coapParseOptions mem chunk n
      (coapHeaderLen + (fixedHeader mem).tokenLen) 0 (n + 1)
      { fixedHeader mem with token := bytesAt mem coapHeaderLen (fixedHeader mem).tokenLen }
      (by omega) within_fixedHeader rfl
    rw [hq] at hp
    cases hp
    obtain ⟨hwithin, htok, hlen, hpayload⟩ := haccepted (htoken h) hstatus
    rw [← hlen] at htok
    exact ⟨⟨hlen ▸ htoken h, htok⟩, hwithin, hpayload⟩
  · obtain ⟨q, hq, hne⟩ := @run_coapParseBehindHeader_of_not mem chunk n h
    rw [hq] at hp
    cases hp
    exact absurd hstatus hne

theorem isSome_val_coapParseMessage : ((coapParseMessage chunk n).val mem).isSome := by
  rw [val_coapParseMessage]
  by_cases h : HasToken mem
  · obtain ⟨q, hq, -⟩ := @val_coapParseOptions mem chunk n
      (coapHeaderLen + (fixedHeader mem).tokenLen) 0 (n + 1)
      { fixedHeader mem with token := bytesAt mem coapHeaderLen (fixedHeader mem).tokenLen }
      (by omega) within_fixedHeader rfl
    rw [run_coapParseBehindHeader_of h]
    simp only [val_bind, val_bytes, after_bytes, hq, Option.isSome_some]
  · obtain ⟨q, hq, -⟩ := @run_coapParseBehindHeader_of_not mem chunk n h
    rw [hq]
    rfl

/-- **CoAP parse safety.** The parser comes to an end on every datagram. It touches only bytes of
the datagram, and what it accepts is inside, exactly if the datagram has its four bytes of fixed
header, its token and the headers of its options, and its payload, if there is one, is longer
than the part that is kept. -/
theorem coap_parse_safety (chunk n : ℕ) (mem : ℕ → Byte) :
    ((coapParseMessage chunk n).val mem).isSome ∧
      (ParseSafe chunk n mem ↔ WellFormed chunk n mem) := by
  refine ⟨isSome_val_coapParseMessage, ?_, ?_⟩
  · intro hsafe
    exact extent_coapParseMessage_le_iff.mp hsafe.extent
  · intro hwell
    exact ⟨extent_coapParseMessage_le_iff.mpr hwell, val_coapParseMessage_accepted hwell.token⟩

/-- A GET with the message id 1 and a payload of one byte. -/
def shortPayload : ℕ → Byte := fun i => ([0x40, 0x01, 0x00, 0x01, 0xFF, 0x61] : List Byte).getD i 0

/-- The terminator of a payload that ends with the datagram is written behind it. -/
theorem terminator_written_behind : ¬ ParseSafe 64 6 shortPayload := by
  intro hsafe
  have hextent := hsafe.extent
  revert hextent
  decide

end Asap.Coap
