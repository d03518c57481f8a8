import Asap.Coap.ParseSafety
import Asap.Coap.Split

/-!
# Options are parsed as they were written

The header of an option is read with the difference and the length that it was written with, and
a number is what its bytes say. What the parser does with an option is then a matter of the
values: `applyOption` is the option's meaning for a message whose strings are lists of bytes, and
`view` reads such a message off the buffer. Strings are merged in place, so that what was read
before may only stay where it is because the numbers of options ascend: `Laid`.

## Main definitions

* `encode` — the bytes of a list of options.
* `view`, `applyOption` — the message without the buffer, and an option's meaning.
* `Laid` — how the strings of a message lie in the buffer.
-/

namespace Asap.Coap

open Lib Access List

variable {mem : ℕ → Byte} {chunk n i cur number fuel : ℕ} {m : CoapMessage Slice} {option : Slice}
  {sep : Byte}

/-! ## Numbers -/

theorem shiftedBytes (v : BitVec 32) :
    coapParseIntOption [(v >>> 24).setWidth 8, (v >>> 16).setWidth 8, (v >>> 8).setWidth 8,
      v.setWidth 8] = v := by
  apply BitVec.eq_of_getLsbD_eq
  intro i hi
  simp only [coapParseIntOption, foldl_cons, foldl_nil, BitVec.getLsbD_or,
    BitVec.getLsbD_setWidth, BitVec.getLsbD_shiftLeft, BitVec.getLsbD_ushiftRight]
  interval_cases i <;> simp

theorem coapParseIntOption_zero (bs : List Byte) :
    coapParseIntOption (0#8 :: bs) = coapParseIntOption bs := by
  simp [coapParseIntOption]

/-- The byte under a mask that is zero is zero. -/
theorem byte_of_masked {v mask : BitVec 32} {s : ℕ} (hmask : ∀ i < 8, mask.getLsbD (s + i) = true)
    (h : mask &&& v = 0#32) : (v >>> s).setWidth 8 = 0#8 := by
  apply BitVec.eq_of_getLsbD_eq
  intro i hi
  have hbit := congrArg (fun w => w.getLsbD (s + i)) h
  simp only [BitVec.getLsbD_and, hmask i hi, Bool.true_and] at hbit
  simpa [hi] using hbit

theorem masked_of_masked {v mask mask' : BitVec 32} (hmask : mask &&& mask' = mask)
    (h : mask' &&& v = 0#32) : mask &&& v = 0#32 := by
  rw [← hmask, BitVec.and_assoc, h, BitVec.and_zero]

/-- **A number is what its bytes say.** -/
theorem coapParseIntOption_intBytes (v : BitVec 32) : coapParseIntOption (intBytes v) = v := by
  have hbytes := shiftedBytes v
  unfold intBytes
  by_cases h3 : 0xFF000000#32 &&& v = 0#32
  · have hb3 : (v >>> 24).setWidth 8 = 0#8 := byte_of_masked (by decide) h3
    rw [hb3, coapParseIntOption_zero] at hbytes
    by_cases h2 : 0xFFFF0000#32 &&& v = 0#32
    · have hb2 : (v >>> 16).setWidth 8 = 0#8 := byte_of_masked (by decide) h2
      rw [hb2, coapParseIntOption_zero] at hbytes
      by_cases h1 : 0xFFFFFF00#32 &&& v = 0#32
      · have hb1 : (v >>> 8).setWidth 8 = 0#8 := byte_of_masked (by decide) h1
        rw [hb1, coapParseIntOption_zero] at hbytes
        by_cases h0 : 0xFFFFFFFF#32 &&& v = 0#32
        · have hv : v = 0#32 := by
            have hall : 0xFFFFFFFF#32 = BitVec.allOnes 32 := by decide
            rw [hall, BitVec.allOnes_and] at h0
            exact h0
          subst hv
          rfl
        · simpa [h3, h2, h1, h0] using hbytes
      · have h0 : ¬ 0xFFFFFFFF#32 &&& v = 0#32 := fun h => h1 (masked_of_masked (by decide) h)
        simpa [h3, h2, h1, h0] using hbytes
    · have h1 : ¬ 0xFFFFFF00#32 &&& v = 0#32 := fun h => h2 (masked_of_masked (by decide) h)
      have h0 : ¬ 0xFFFFFFFF#32 &&& v = 0#32 := fun h => h2 (masked_of_masked (by decide) h)
      simpa [h3, h2, h1, h0] using hbytes
  · have h2 : ¬ 0xFFFF0000#32 &&& v = 0#32 := fun h => h3 (masked_of_masked (by decide) h)
    have h1 : ¬ 0xFFFFFF00#32 &&& v = 0#32 := fun h => h3 (masked_of_masked (by decide) h)
    have h0 : ¬ 0xFFFFFFFF#32 &&& v = 0#32 := fun h => h3 (masked_of_masked (by decide) h)
    simpa [h3, h2, h1, h0] using hbytes

/-! ## Headers -/

/-- The greatest value that a nibble with two bytes has. -/
abbrev maxExtended : ℕ := 65535 + 269

theorem coapOptionNibble_lt (v : ℕ) : coapOptionNibble v < 15 := by
  unfold coapOptionNibble
  split
  · omega
  · split <;> omega

/-- A nibble with the bytes that extend it. -/
theorem val_coapOptionExtension {v : ℕ} (hv : v ≤ maxExtended)
    (h : Holds mem cur (extensionBytes v)) :
    (coapOptionExtension (coapOptionNibble v) cur).val mem =
      (v, cur + (extensionBytes v).length) := by
  by_cases h12 : v < 13
  · have hnibble : coapOptionNibble v = v := if_pos h12
    have hbytes : extensionBytes v = [] := by
      simp [extensionBytes, Nat.not_lt.mpr (Nat.le_of_lt_succ h12), show ¬ 268 < v by omega]
    have h13 : v ≠ 13 := by omega
    have h14 : v ≠ 14 := by omega
    simp [hnibble, hbytes, coapOptionExtension, h13, h14]
  · by_cases h268 : v ≤ 268
    · have hnibble : coapOptionNibble v = 13 := by
        rw [coapOptionNibble, if_neg h12, if_pos (by omega)]
      have hbytes : extensionBytes v = [BitVec.ofNat 8 (v - 13)] := by
        rw [extensionBytes, if_neg (by omega), if_pos (by omega)]
      rw [hbytes, holds_cons] at h
      simp [hnibble, hbytes, coapOptionExtension, h.1]
      omega
    · have hnibble : coapOptionNibble v = 14 := by
        rw [coapOptionNibble, if_neg h12, if_neg (by omega)]
      have hbytes : extensionBytes v = [BitVec.ofNat 8 ((v - 269) >>> 8 &&& 0xFF),
          BitVec.ofNat 8 (v - 269 &&& 0xFF)] := if_pos (by omega)
      rw [hbytes, holds_cons, holds_cons] at h
      have hand : ∀ k, k &&& 0xFF = k % 256 := fun k => Nat.and_two_pow_sub_one_eq_mod k 8
      have hhigh : (v - 269) >>> 8 = (v - 269) / 256 := Nat.shiftRight_eq_div_pow _ 8
      simp [hnibble, hbytes, coapOptionExtension, h.1, h.2.1, hand, hhigh, Nat.shiftLeft_eq]
      simp only [maxExtended] at hv
      omega

theorem nibbles : ∀ a < 15, ∀ b < 15,
    (BitVec.ofNat 8 (a <<< 4 ||| b) >>> 4).toNat = a ∧
      (BitVec.ofNat 8 (a <<< 4 ||| b) &&& 0x0F).toNat = b ∧
      ¬ isMarker (BitVec.ofNat 8 (a <<< 4 ||| b)) := by
  decide

/-- **The header of an option is read as it was written.** -/
theorem headerAt_of_holds {delta length : ℕ} (hdelta : delta ≤ maxExtended)
    (hlength : length ≤ maxExtended) (h : Holds mem i (coapSetOptionHeader delta length)) :
    ¬ isMarker (mem i) ∧
      headerAt mem i = ⟨delta, length, i + (coapSetOptionHeader delta length).length⟩ := by
  obtain ⟨hhigh, hlow, hmarker⟩ := nibbles (coapOptionNibble delta) (coapOptionNibble_lt delta)
    (coapOptionNibble length) (coapOptionNibble_lt length)
  rw [coapSetOptionHeader, holds_cons, holds_append] at h
  have hd := val_coapOptionExtension hdelta h.2.1
  have hl := val_coapOptionExtension hlength h.2.2
  refine ⟨?_, ?_⟩
  · rw [h.1]
    exact hmarker
  · simp only [headerAt, coapOptionHeader, val_bind, val_pure,
      after_coapOptionExtension, h.1, hhigh, hlow, hd, hl, coapSetOptionHeader, length_cons,
      length_append]
    congr 1
    omega

/-! ## The meaning of options -/

/-- The bytes of a slice. -/
def readSlice (mem : ℕ → Byte) (s : Slice) : List Byte := bytesAt mem s.start s.len

/-- A message with another type of strings. -/
def CoapMessage.map {S T : Type} (f : S → T) (m : CoapMessage S) : CoapMessage T :=
  { m with strings := fun k => f (m.strings k), payload := f m.payload }

/-- The message without the buffer. -/
def view (mem : ℕ → Byte) (m : CoapMessage Slice) : CoapMessage (List Byte) :=
  m.map (readSlice mem)

/-- An option that is merged with those before. -/
def mergeString (sep : Byte) (field : CoapString) (v : List Byte) (a : CoapMessage (List Byte)) :
    CoapMessage (List Byte) :=
  a.setString field (mergeOne sep (a.strings field) v)

/-- What an option with a value does to a message. -/
def applyOption (a : CoapMessage (List Byte)) (o : CoapOption) (v : List Byte) :
    CoapMessage (List Byte) :=
  let a := a.setOption o.number
  match o with
  | .contentFormat => { a with contentFormat := (coapParseIntOption v).setWidth 16 }
  | .maxAge => { a with maxAge := coapParseIntOption v }
  | .etag => { a with etag := v.take coapEtagLen }
  | .accept => { a with accept := (coapParseIntOption v).setWidth 16 }
  | .ifMatch => { a with ifMatch := v.take coapEtagLen }
  | .ifNoneMatch => { a with ifNoneMatch := 1 }
  | .proxyUri | .proxyScheme => a
  | .uriHost => a.setString .uriHost v
  | .uriPort => { a with uriPort := (coapParseIntOption v).setWidth 16 }
  | .uriPath => mergeString 0x2F .uriPath v a
  | .uriQuery => mergeString 0x26 .uriQuery v a
  | .locationPath => mergeString 0x2F .locationPath v a
  | .locationQuery => mergeString 0x26 .locationQuery v a
  | .observe => { a with observe := coapParseIntOption v }
  | .block2 => { a with block2 := parseBlock (coapParseIntOption v) }
  | .block1 => { a with block1 := parseBlock (coapParseIntOption v) }
  | .size2 => { a with size2 := coapParseIntOption v }
  | .size1 => { a with size1 := coapParseIntOption v }

theorem CoapString.number_inj : ∀ {f g : CoapString}, f.number = g.number → f = g := by
  intro f g
  cases f <;> cases g <;> simp [CoapString.number, CoapOption.number]

/-- **How the strings of a message lie in the buffer** when the cursor is at an offset, behind an
option with a number: they end before it, those of later options are empty, and the one of the
option itself is the last. -/
structure Laid (cur number : ℕ) (m : CoapMessage Slice) : Prop where
  within : Within cur m
  unset : ∀ f : CoapString, number < f.number → (m.strings f).len = 0
  last : ∀ f : CoapString, f.number = number → 0 < (m.strings f).len →
    ∀ g, g ≠ f → (m.strings g).stop ≤ (m.strings f).start
  payload : m.payload.len = 0

/-- Nothing else changes where the strings lie. -/
theorem Laid.step {m' : CoapMessage Slice} {o : CoapOption} (h : Laid cur number m)
    (hnumber : number ≤ o.number) (ho : ∀ f : CoapString, f.number ≠ o.number) (hcur : cur ≤ i)
    (hstrings : m'.strings = m.strings) (hpayload : m'.payload = m.payload) :
    Laid i o.number m' where
  within f := by
    rw [hstrings]
    exact le_trans (h.within f) hcur
  unset f hf := by
    rw [hstrings]
    exact h.unset f (lt_of_le_of_lt hnumber hf)
  last f hf := absurd hf (ho f)
  payload := by rw [hpayload, h.payload]

/-- A string is put behind all others. -/
theorem Laid.setString {f : CoapString} {s : Slice} (h : Laid cur number m)
    (hnumber : number ≤ f.number) (hstop : s.stop ≤ i) (hcur : cur ≤ i)
    (hbehind : 0 < s.len → ∀ g, g ≠ f → (m.strings g).stop ≤ s.start) :
    Laid i f.number (m.setString f s) where
  within := (h.within.mono hcur).setString hstop
  unset g hg := by
    have hne : g ≠ f := by
      rintro rfl
      exact absurd hg (Nat.lt_irrefl _)
    simpa [CoapMessage.setString, hne] using h.unset g (lt_of_le_of_lt hnumber hg)
  last g hg hpos g' hg' := by
    have hgf := CoapString.number_inj hg
    subst hgf
    simp only [CoapMessage.setString, Function.update_self] at hpos ⊢
    rw [Function.update_of_ne hg']
    exact hbehind hpos g' hg'
  payload := h.payload

theorem Laid.setOption {opt : ℕ} (h : Laid cur number m) : Laid cur number (m.setOption opt) := by
  unfold CoapMessage.setOption
  split
  · exact h
  · exact ⟨h.within, h.unset, h.last, h.payload⟩

theorem view_setOption (opt : ℕ) : view mem (m.setOption opt) = (view mem m).setOption opt := by
  simp only [view, CoapMessage.map, CoapMessage.setOption]
  split <;> rfl

theorem view_setString (f : CoapString) (s : Slice) :
    view mem (m.setString f s) = (view mem m).setString f (readSlice mem s) := by
  simp only [view, CoapMessage.map, CoapMessage.setString]
  congr 1
  funext g
  by_cases hg : g = f <;> simp [hg]

theorem readSlice_congr {mem' : ℕ → Byte} {s : Slice}
    (h : ∀ j, s.start ≤ j → j < s.stop → mem' j = mem j) : readSlice mem' s = readSlice mem s :=
  bytesAt_congr h

theorem length_readSlice (mem : ℕ → Byte) (s : Slice) : (readSlice mem s).length = s.len :=
  length_bytesAt mem s.start s.len

/-- Merging puts the option behind the string, and the bytes before the string stay. -/
theorem coapMergeMultiOption_view {dst : Slice} (h : dst.stop < option.start) (hpos : 0 < dst.len) :
    (coapMergeMultiOption dst option sep).val mem = ⟨dst.start, dst.len + 1 + option.len⟩ ∧
      readSlice ((coapMergeMultiOption dst option sep).after mem)
          ⟨dst.start, dst.len + 1 + option.len⟩ =
        readSlice mem dst ++ sep :: readSlice mem option ∧
      ∀ j, j < dst.start → (coapMergeMultiOption dst option sep).after mem j = mem j := by
  have hoption : bytesAt (store mem dst.stop [sep]) option.start option.len =
      bytesAt mem option.start option.len := by
    apply bytesAt_store_of_beside
    right
    simpa using h
  simp only [coapMergeMultiOption, if_pos hpos, val_bind, after_bind,
    after_write, val_bytes, after_bytes, val_pure, after_pure,
    hoption]
  refine ⟨trivial, ?_, ?_⟩
  · have hlen : (bytesAt mem option.start option.len).length = option.len := length_bytesAt _ _ _
    simp only [readSlice]
    rw [bytesAt_add, bytesAt_add, bytesAt_store_of_beside (.inl (Nat.le_succ _)),
      bytesAt_store_of_beside (.inl (Nat.le_refl _)), bytesAt_store_of_beside (.inl (by simp))]
    have hone : bytesAt (store mem dst.stop [sep]) (dst.start + dst.len) 1 = [sep] :=
      bytesAt_store_self
    have hself : bytesAt (store (store mem dst.stop [sep]) (dst.stop + 1)
        (bytesAt mem option.start option.len)) (dst.start + (dst.len + 1)) option.len =
        bytesAt mem option.start option.len := by
      have hself := @bytesAt_store_self (store mem dst.stop [sep]) (dst.stop + 1)
        (bytesAt mem option.start option.len)
      rwa [hlen] at hself
    rw [hone, hself]
    simp
  · intro j hj
    rw [store_of_lt (by simp only [Slice.stop]; omega), store_of_lt (by simp only [Slice.stop]; omega)]

/-- An option that is merged. -/
theorem parseMerged_view {f : CoapString} (h : Laid cur number m) (hnumber : number ≤ f.number)
    (hcur : cur < option.start) :
    ∃ m', (parseMerged option m f sep).val mem = .ok m' ∧ Laid option.stop f.number m' ∧
      view ((parseMerged option m f sep).after mem) m' =
        mergeString sep f (readSlice mem option) (view mem m) := by
  have hstop := h.within f
  have hlt : (m.strings f).stop < option.start := lt_of_le_of_lt hstop hcur
  have hview : (view mem m).strings f = readSlice mem (m.strings f) := rfl
  by_cases hpos : 0 < (m.strings f).len
  · -- the string is that of the option before, which has the same number
    have heq : f.number = number := by
      by_contra hne
      have hzero := h.unset f (lt_of_le_of_ne hnumber (Ne.symm hne))
      omega
    obtain ⟨hval, hread, hkeep⟩ := @coapMergeMultiOption_view mem option sep (m.strings f) hlt hpos
    refine ⟨m.setString f ⟨(m.strings f).start, (m.strings f).len + 1 + option.len⟩, ?_, ?_, ?_⟩
    · simp [parseMerged, hval]
    · apply h.setString hnumber
      · simp only [Slice.stop] at hlt ⊢
        omega
      · simp only [Slice.stop]
        omega
      · intro _ g hg
        exact h.last f heq hpos g hg
    · rw [view_setString]
      simp only [parseMerged, after_bind, after_pure]
      have hothers : ∀ g, g ≠ f →
          readSlice ((coapMergeMultiOption (m.strings f) option sep).after mem) (m.strings g) =
            readSlice mem (m.strings g) := by
        intro g hg
        have hle := h.last f heq hpos g hg
        exact readSlice_congr fun j _ hj => hkeep j (lt_of_lt_of_le hj hle)
      have hpayload : ∀ mem' : ℕ → Byte, readSlice mem' m.payload = [] := by
        intro mem'
        simp [readSlice, h.payload, bytesAt]
      simp only [mergeString, hread, mergeOne, length_readSlice, if_pos hpos, view,
        CoapMessage.map, CoapMessage.setString, hpayload]
      congr 1
      funext g
      by_cases hg : g = f
      · simp [hg]
      · simp [hg, hothers g hg]
  · refine ⟨m.setString f option, ?_, ?_, ?_⟩
    · simp [parseMerged, coapMergeMultiOption, hpos]
    · apply h.setString hnumber (Nat.le_refl _)
      · simp only [Slice.stop]
        omega
      · intro _ g _
        exact le_trans (h.within g) (Nat.le_of_lt hcur)
    · rw [view_setString]
      simp [parseMerged, coapMergeMultiOption, hpos, mergeString, hview, mergeOne,
        length_readSlice]

theorem take_readSlice (mem : ℕ → Byte) (s : Slice) (k : ℕ) :
    bytesAt mem s.start (min k s.len) = (readSlice mem s).take k := by
  rw [readSlice, bytesAt, bytesAt, ← map_take, take_range]

/-- **An option means what its value says:** where the numbers ascend, the parser does to the
message what the option does to the message without the buffer. -/
theorem coapParseOption_view {o : CoapOption} (h : Laid cur number m) (hnumber : number ≤ o.number)
    (hcur : cur < option.start) (hproxy : refuses o.number = false) :
    ∃ m', (coapParseOption o.number option m).val mem = .ok m' ∧ Laid option.stop o.number m' ∧
      view ((coapParseOption o.number option m).after mem) m' =
        applyOption (view mem m) o (readSlice mem option) := by
  have hset : Laid cur number (m.setOption o.number) := h.setOption
  have hle : cur ≤ option.stop := by
    simp only [Slice.stop]
    omega
  have hplain : (∀ f : CoapString, f.number ≠ o.number) → ∀ m' : CoapMessage Slice,
      m'.strings = (m.setOption o.number).strings → m'.payload = (m.setOption o.number).payload →
      Laid option.stop o.number m' := fun ho _ hs hp => hset.step hnumber ho hle hs hp
  unfold coapParseOption applyOption
  rw [CoapOption.ofNumber_number, ← view_setOption]
  cases o
  case proxyUri => exact absurd hproxy (by decide)
  case proxyScheme => exact absurd hproxy (by decide)
  case uriPath => exact parseMerged_view hset hnumber hcur
  case uriQuery => exact parseMerged_view hset hnumber hcur
  case locationPath => exact parseMerged_view hset hnumber hcur
  case locationQuery => exact parseMerged_view hset hnumber hcur
  case uriHost =>
    refine ⟨_, rfl, ?_, view_setString _ _⟩
    refine Laid.setString (f := .uriHost) hset hnumber (Nat.le_refl _) hle ?_
    intro _ g _
    exact le_trans (hset.within g) (Nat.le_of_lt hcur)
  case etag =>
    refine ⟨_, rfl, hplain (by intro f; cases f <;> decide) _ rfl rfl, ?_⟩
    simp only [val_bytes, take_readSlice]
    rfl
  case ifMatch =>
    refine ⟨_, rfl, hplain (by intro f; cases f <;> decide) _ rfl rfl, ?_⟩
    simp only [val_bytes, take_readSlice]
    rfl
  all_goals exact ⟨_, rfl, hplain (by intro f; cases f <;> decide) _ rfl rfl, rfl⟩

/-! ## Lists of options -/

/-- The bytes of options that are written one after the other. -/
def encode (current : ℕ) : List (CoapOption × List Byte) → List Byte
  | [] => []
  | (o, v) :: options =>
    coapSetOptionHeader (o.number - current) v.length ++ v ++ encode o.number options

/-- The number of the last option. -/
def lastNumber (current : ℕ) : List (CoapOption × List Byte) → ℕ
  | [] => current
  | (o, _) :: options => lastNumber o.number options

/-- The options have ascending numbers and values that are not too long. -/
def Ascending (current : ℕ) : List (CoapOption × List Byte) → Prop
  | [] => True
  | (o, v) :: options => current ≤ o.number ∧ v.length ≤ maxExtended ∧ Ascending o.number options

/-- What options do to a message. -/
def applyAll (a : CoapMessage (List Byte)) (options : List (CoapOption × List Byte)) :
    CoapMessage (List Byte) :=
  options.foldl (fun a option => applyOption a option.1 option.2) a

theorem encode_append (current : ℕ) (options options' : List (CoapOption × List Byte)) :
    encode current (options ++ options') =
      encode current options ++ encode (lastNumber current options) options' := by
  induction options generalizing current with
  | nil => rfl
  | cons option options ih => simp [encode, lastNumber, ih]

theorem lastNumber_append (current : ℕ) (options options' : List (CoapOption × List Byte)) :
    lastNumber current (options ++ options') = lastNumber (lastNumber current options) options' := by
  induction options generalizing current with
  | nil => rfl
  | cons option options ih => exact ih option.1.number

theorem length_le_encode (current : ℕ) (options : List (CoapOption × List Byte)) :
    options.length ≤ (encode current options).length := by
  induction options generalizing current with
  | nil => simp
  | cons option options ih =>
    have hle := ih option.1.number
    simp only [encode, coapSetOptionHeader, length_cons, length_append]
    omega

theorem CoapOption.number_le (o : CoapOption) : o.number ≤ CoapOption.size1.number := by
  cases o <;> decide

/-- The value of an option at a position of the buffer. -/
theorem coapParseRound_of_holds {o : CoapOption} {v : List Byte} (hle : number ≤ o.number)
    (hlen : v.length ≤ maxExtended)
    (hheld : Holds mem cur (coapSetOptionHeader (o.number - number) v.length ++ v))
    (hn : cur + (coapSetOptionHeader (o.number - number) v.length ++ v).length ≤ n) :
    headerAt mem cur = ⟨o.number - number, v.length,
        cur + (coapSetOptionHeader (o.number - number) v.length).length⟩ ∧
      ¬ isMarker (mem cur) ∧
      coapParseValue n number (headerAt mem cur) m =
        coapParseOption o.number
          ⟨cur + (coapSetOptionHeader (o.number - number) v.length).length, v.length⟩ m ∧
      readSlice mem ⟨cur + (coapSetOptionHeader (o.number - number) v.length).length, v.length⟩ = v := by
  have hnumber := o.number_le
  have hdelta : o.number - number ≤ maxExtended := by
    have hsize : CoapOption.size1.number = 60 := rfl
    have hmax : maxExtended = 65804 := rfl
    omega
  rw [holds_append] at hheld
  obtain ⟨hmarker, hhead⟩ := headerAt_of_holds hdelta hlen hheld.1
  have hsum : number + (o.number - number) = o.number := by omega
  refine ⟨hhead, hmarker, ?_, hheld.2.bytesAt⟩
  rw [length_append] at hn
  rw [hhead, coapParseValue, if_neg (by simp only; omega), if_neg (by simp only; omega)]
  simp only [hsum]

/-- **Options are parsed as they were written:** the loop steps over them, and the message is what
they make of it. -/
theorem coapParseOptions_encode (options : List (CoapOption × List Byte))
    (hlaid : Laid cur number m) (hasc : Ascending number options)
    (hproxy : ∀ option ∈ options, refuses option.1.number = false)
    (hheld : Holds mem cur (encode number options))
    (hn : cur + (encode number options).length ≤ n) :
    ∃ m' mem', Laid (cur + (encode number options).length) (lastNumber number options) m' ∧
      view mem' m' = applyAll (view mem m) options ∧
      SameFrame m m' ∧
      (∀ j, cur + (encode number options).length ≤ j → mem' j = mem j) ∧
      (coapParseOptions chunk n (options.length + fuel) cur number m).val mem =
        (coapParseOptions chunk n fuel (cur + (encode number options).length)
          (lastNumber number options) m').val mem' ∧
      (coapParseOptions chunk n (options.length + fuel) cur number m).after mem =
        (coapParseOptions chunk n fuel (cur + (encode number options).length)
          (lastNumber number options) m').after mem' := by
  induction options generalizing cur number m mem with
  | nil => exact ⟨m, mem, by simpa [encode, lastNumber] using hlaid, rfl, .refl m, fun _ _ => rfl,
      by simp [encode, lastNumber], by simp [encode, lastNumber]⟩
  | cons option options ih =>
    obtain ⟨o, v⟩ := option
    obtain ⟨hle, hlen, hasc⟩ := hasc
    rw [forall_mem_cons] at hproxy
    simp only [encode, append_assoc] at hheld hn ⊢
    rw [← append_assoc, holds_append] at hheld
    simp only [length_append] at hn
    obtain ⟨hhead, hmarker, hvalue, hread⟩ := @coapParseRound_of_holds mem n cur number m o v hle
      hlen hheld.1 (by rw [length_append]; omega)
    have hlt : cur < cur + (coapSetOptionHeader (o.number - number) v.length).length := by
      simp [coapSetOptionHeader]
    obtain ⟨m', hval, hlaid', hview⟩ := @coapParseOption_view mem cur number m
      ⟨cur + (coapSetOptionHeader (o.number - number) v.length).length, v.length⟩ o hlaid hle
      hlt hproxy.1
    have hcontained := @contained_coapParseOption mem cur o.number m
      ⟨cur + (coapSetOptionHeader (o.number - number) v.length).length, v.length⟩ hlaid.within hlt
    obtain ⟨mem₁, hmem₁⟩ : ∃ mem₁, (coapParseOption o.number
      ⟨cur + (coapSetOptionHeader (o.number - number) v.length).length, v.length⟩ m).after mem =
        mem₁ := ⟨_, rfl⟩
    have hbehind := hcontained.after
    rw [hmem₁] at hview hbehind
    rw [hread] at hview
    -- the round ends with the message that the option makes
    have hround : (coapParseRound chunk n cur number m (mem cur)).val mem =
          .next (cur + (coapSetOptionHeader (o.number - number) v.length).length + v.length)
            o.number m' ∧
        (coapParseRound chunk n cur number m (mem cur)).after mem = mem₁ := by
      have hheader : (coapOptionHeader cur (mem cur)).val mem = headerAt mem cur := rfl
      have hsum : number + (o.number - number) = o.number := by omega
      simp only [coapParseRound, if_neg hmarker, val_bind, after_bind, hheader,
        after_coapOptionHeader, hvalue, hval, hmem₁]
      simp [hhead, hsum]
    have hcur : cur < n := by omega
    have hnext : cur + (coapSetOptionHeader (o.number - number) v.length ++ v).length =
        cur + (coapSetOptionHeader (o.number - number) v.length).length + v.length := by
      rw [length_append]
      omega
    have hheld' : Holds mem₁
        (cur + (coapSetOptionHeader (o.number - number) v.length).length + v.length)
        (encode o.number options) := by
      have hrest := hheld.2
      rw [hnext] at hrest
      exact hrest.congr fun j hj _ => hbehind j hj
    obtain ⟨m'', mem'', hlaid'', hview'', hframe, hsame, hvals, hafters⟩ := ih hlaid' hasc hproxy.2
      hheld' (by simp only [Slice.stop]; omega)
    have hfuel : ((o, v) :: options).length + fuel = (options.length + fuel) + 1 := by
      rw [length_cons]
      omega
    have hstop : cur + (coapSetOptionHeader (o.number - number) v.length ++
          (v ++ encode o.number options)).length =
        cur + (coapSetOptionHeader (o.number - number) v.length).length + v.length +
          (encode o.number options).length := by
      simp only [length_append]
      omega
    refine ⟨m'', mem'', ?_, ?_, (hcontained.frame m' hval).trans hframe, ?_, ?_, ?_⟩
    · rw [hstop]
      exact hlaid''
    · rw [hview'', hview]
      rfl
    · intro j hj
      rw [hstop] at hj
      rw [hsame j hj]
      exact hbehind j (by simp only [Slice.stop]; omega)
    · rw [hfuel, hstop]
      simp only [coapParseOptions, if_pos hcur, val_bind, val_byte,
        after_byte, hround.1, hround.2]
      exact hvals
    · rw [hfuel, hstop]
      simp only [coapParseOptions, if_pos hcur, after_bind, val_byte,
        after_byte, hround.1, hround.2]
      exact hafters

end Asap.Coap
