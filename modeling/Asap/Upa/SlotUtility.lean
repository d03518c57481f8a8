import Mathlib.Data.Nat.Bitwise
import Mathlib.Data.List.Induction

/-!
# The slot counts of an aggregated exchange

The sender of an aggregated exchange works out how many timeslots the exchange will
take with the first packet of the batch, with the first two, and so on. What it puts
into the triggering frame is not the counts but a byte: bit `i` is set when the count
grows at packet `i`, and bit 0 when the triggering frame alone takes a second slot. The
receiver adds the bits up again.

A set bit says that the count grows, not by how much, and there are eight bits. So
`slot_counts_agree_iff` compares the two sides: they agree on every prefix of the
batch exactly when no packet carries the exchange over two slot boundaries, and no
packet beyond the byte carries it over one.

## Main definitions

* `upaCalculateSlotUtility` — the sender.
* `slotsRequired` — the receiver.
* `exchangeDuration` — the time the exchange takes with a prefix of the batch.
* `FitsBitmap` — the condition under which the byte carries the counts.
-/

namespace Asap.Upa

open BitVec

/-- The elements of `tsch_timing` and `upa_timing` that the count depends on, in timer
ticks, and `TSCH_PACKET_DURATION`. -/
structure UpaTiming where
  timeslotLength : ℕ
  txOffset : ℕ
  txAckDelay : ℕ
  upaTxOffset1 : ℕ
  upaTxOffset2 : ℕ
  upaTxAckDelay : ℕ
  upaMaxAck : ℕ
  upaTxProcessBAck : ℕ
  packetDuration : ℕ → ℕ

/-- The variables of `upa_calculate_slot_utility`. -/
structure SlotUtility where
  /-- `upa_expected_tx_duration` -/
  txDuration : ℕ
  /-- `upa_all_operation_timeslots`, which counts the triggering slot -/
  allOperationTimeslots : ℕ
  /-- `upa_bitmap_of_slot_utility` -/
  bitmap : BitVec 8
deriving DecidableEq, Repr

/-- `triggering_ack_len` -/
def triggeringAckLen : ℕ := 21

section

variable (t : UpaTiming)

/-- `triggering_slot_operation_duration` -/
def triggeringDuration (triggeringPktLen : ℕ) : ℕ :=
  t.txOffset + t.packetDuration triggeringPktLen + t.txAckDelay +
    t.packetDuration triggeringAckLen

/-- A duration in timeslots, rounded up. -/
def timeslots (duration : ℕ) : ℕ :=
  (duration + t.timeslotLength - 1) / t.timeslotLength

/-- Packet `i` of the batch, of length `len`. -/
def utilityOne (triggering i len : ℕ) (u : SlotUtility) : SlotUtility :=
  let txDuration := u.txDuration +
    ((if i = 1 then t.upaTxOffset1 else t.upaTxOffset2) + t.packetDuration len)
  let allTxDuration := txDuration + t.upaTxAckDelay + t.upaMaxAck + t.upaTxProcessBAck
  let expected := timeslots t (triggering + allTxDuration)
  if u.allOperationTimeslots < expected then
    { txDuration := txDuration
      allOperationTimeslots := expected
      -- `1 << i` is an `int`; the assignment keeps its low byte
      bitmap := u.bitmap ||| (1#8 <<< i) }
  else { u with txDuration := txDuration }

/-- The loop over the packets of the batch, the first of them with number `i`. -/
def utilityLoop (triggering : ℕ) : ℕ → List ℕ → SlotUtility → SlotUtility
  | _, [], u => u
  | i, len :: lens, u => utilityLoop triggering (i + 1) lens (utilityOne t triggering i len u)

/-- `upa_calculate_slot_utility`, for a triggering packet and the packets behind it in
the queue that are requested. -/
def upaCalculateSlotUtility (triggeringPktLen : ℕ) (lens : List ℕ) :
    SlotUtility :=
  let triggering := triggeringDuration t triggeringPktLen
  let slots := timeslots t triggering
  utilityLoop t triggering 1 lens
    { txDuration := 0
      allOperationTimeslots := slots
      bitmap := if 1 < slots then 1#8 <<< 0 else 0 }

end

/-- `upa_info_to_request`: the number of packets and the byte, in one 16-bit field. -/
def upaInfoToRequest (pktsToRequest : ℕ) (bitmap : BitVec 8) : BitVec 16 :=
  (BitVec.ofNat 16 pktsToRequest <<< 8) + bitmap.setWidth 16

/-- `upa_pkts_requested` -/
def upaPktsRequested (info : BitVec 16) : BitVec 8 := ((info >>> 8) &&& 0xFF#16).setWidth 8

/-- `upa_bitmap_requested` -/
def upaBitmapRequested (info : BitVec 16) : BitVec 8 := (info &&& 0xFF#16).setWidth 8

/-- `upa_bit_value` for bit `i` -/
def upaBitValue (bitmap : BitVec 8) (i : ℕ) : ℕ := (bitmap.toNat &&& (1 <<< i)) >>> i

/-- `upa_num_of_slots_required` -/
def slotsRequired (bitmap : BitVec 8) : ℕ → ℕ
  | 0 => if upaBitValue bitmap 0 = 1 then 1 + 1 else 1
  | i + 1 =>
    if upaBitValue bitmap (i + 1) = 1 then slotsRequired bitmap i + 1 else slotsRequired bitmap i

/-- What the receiver counts for `i` packets of a batch that the sender requests. -/
def receiverSlots (t : UpaTiming) (triggeringPktLen : ℕ) (lens : List ℕ) (i : ℕ) : ℕ :=
  slotsRequired (upaBitmapRequested (upaInfoToRequest lens.length
    (upaCalculateSlotUtility t triggeringPktLen lens).bitmap)) i

/-- What the sender counts for the first `i` packets. -/
def senderSlots (t : UpaTiming) (triggeringPktLen : ℕ) (lens : List ℕ) (i : ℕ) : ℕ :=
  (upaCalculateSlotUtility t triggeringPktLen (lens.take i)).allOperationTimeslots

/-! ## The information field -/

/-- The byte comes back, whatever the number of packets. -/
theorem upaBitmapRequested_upaInfoToRequest (r : ℕ) (bitmap : BitVec 8) :
    upaBitmapRequested (upaInfoToRequest r bitmap) = bitmap := by
  apply eq_of_toNat_eq
  have hb := bitmap.isLt
  have hmask : ∀ x : ℕ, x &&& 255 = x % 256 := fun x => Nat.and_two_pow_sub_one_eq_mod x 8
  simp only [upaBitmapRequested, upaInfoToRequest, toNat_setWidth, toNat_and,
    toNat_add, toNat_shiftLeft, toNat_ofNat, Nat.shiftLeft_eq]
  rw [Nat.mod_eq_of_lt (show 255 < 2 ^ 16 by decide), hmask]
  omega

/-- So does the number of packets, when it fits its byte. -/
theorem upaPktsRequested_upaInfoToRequest {r : ℕ} (hr : r < 256) (bitmap : BitVec 8) :
    (upaPktsRequested (upaInfoToRequest r bitmap)).toNat = r := by
  have hb := bitmap.isLt
  have hmask : ∀ x : ℕ, x &&& 255 = x % 256 := fun x => Nat.and_two_pow_sub_one_eq_mod x 8
  simp only [upaPktsRequested, upaInfoToRequest, toNat_setWidth, toNat_and,
    toNat_add, toNat_shiftLeft, toNat_ofNat, toNat_ushiftRight,
    Nat.shiftLeft_eq, Nat.shiftRight_eq_div_pow]
  rw [Nat.mod_eq_of_lt (show 255 < 2 ^ 16 by decide), hmask]
  omega

/-- The receiver reads one bit of the byte. -/
theorem upaBitValue_eq_one_iff (bitmap : BitVec 8) (i : ℕ) :
    upaBitValue bitmap i = 1 ↔ bitmap.getLsbD i = true := by
  have h : upaBitValue bitmap i = (bitmap.toNat.testBit i).toNat := by
    rw [upaBitValue, Nat.one_shiftLeft, Nat.and_two_pow, Nat.shiftRight_eq_div_pow]
    exact Nat.mul_div_cancel _ (Nat.two_pow_pos i)
  rw [h, BitVec.getLsbD]
  cases bitmap.toNat.testBit i <;> simp

/-! ## The sender, prefix by prefix -/

variable {t : UpaTiming} {triggeringPktLen : ℕ} {lens : List ℕ}

section

variable (t : UpaTiming)

/-- The air time of a batch whose first packet has number `i`. -/
def batchDuration : ℕ → List ℕ → ℕ
  | _, [] => 0
  | i, len :: lens =>
    (if i = 1 then t.upaTxOffset1 else t.upaTxOffset2) + t.packetDuration len +
      batchDuration (i + 1) lens

/-- The time the exchange takes with a batch. -/
def exchangeDuration (triggeringPktLen : ℕ) (lens : List ℕ) : ℕ :=
  triggeringDuration t triggeringPktLen +
    if lens = [] then 0
    else batchDuration t 1 lens + t.upaTxAckDelay + t.upaMaxAck + t.upaTxProcessBAck

theorem batchDuration_concat (i : ℕ) (lens : List ℕ) (len : ℕ) :
    batchDuration t i (lens ++ [len]) = batchDuration t i lens +
      ((if i + lens.length = 1 then t.upaTxOffset1 else t.upaTxOffset2) +
        t.packetDuration len) := by
  induction lens generalizing i with
  | nil => simp [batchDuration]
  | cons a lens ih =>
    simp only [List.cons_append, batchDuration, ih, List.length_cons]
    rw [show i + 1 + lens.length = i + (lens.length + 1) by omega]
    omega

theorem utilityLoop_concat (triggering i : ℕ) (lens : List ℕ) (len : ℕ)
    (u : SlotUtility) :
    utilityLoop t triggering i (lens ++ [len]) u =
      utilityOne t triggering (i + lens.length) len (utilityLoop t triggering i lens u) := by
  induction lens generalizing i u with
  | nil => simp [utilityLoop]
  | cons a lens ih =>
    simp only [List.cons_append, utilityLoop, ih, List.length_cons]
    rw [show i + 1 + lens.length = i + (lens.length + 1) by omega]

/-- One more packet never makes the exchange shorter. -/
theorem exchangeDuration_le_concat (triggeringPktLen : ℕ) (lens : List ℕ)
    (len : ℕ) :
    exchangeDuration t triggeringPktLen lens ≤
      exchangeDuration t triggeringPktLen (lens ++ [len]) := by
  have h : lens ++ [len] ≠ [] := by simp
  simp only [exchangeDuration, batchDuration_concat, h, if_false]
  split_ifs <;> omega

end

theorem timeslots_mono {d e : ℕ} (h : d ≤ e) : timeslots t d ≤ timeslots t e :=
  Nat.div_le_div_right (by omega)

/-- The count grows at packet `i`; at 0, when the triggering frame takes a second slot. -/
def Grows (t : UpaTiming) (triggeringPktLen : ℕ) (lens : List ℕ) : ℕ → Prop
  | 0 => 1 < timeslots t (exchangeDuration t triggeringPktLen (lens.take 0))
  | i + 1 => timeslots t (exchangeDuration t triggeringPktLen (lens.take i)) <
      timeslots t (exchangeDuration t triggeringPktLen (lens.take (i + 1)))

/-- The variables of the loop after the packets of `lens`. -/
structure UtilitySpec (t : UpaTiming) (triggeringPktLen : ℕ) (lens : List ℕ)
    (u : SlotUtility) : Prop where
  txDuration : u.txDuration = batchDuration t 1 lens
  slots : u.allOperationTimeslots = timeslots t (exchangeDuration t triggeringPktLen lens)
  bit : ∀ j, u.bitmap.getLsbD j = true ↔
    j < 8 ∧ j ≤ lens.length ∧ Grows t triggeringPktLen lens j

/-- A prefix of a prefix grows where the whole does. -/
theorem grows_concat {j : ℕ} (hj : j ≤ lens.length) (len : ℕ) :
    Grows t triggeringPktLen (lens ++ [len]) j ↔ Grows t triggeringPktLen lens j := by
  cases j with
  | zero => simp [Grows]
  | succ j =>
    simp only [Grows, List.take_append_of_le_length hj,
      List.take_append_of_le_length (Nat.le_of_succ_le hj)]

theorem getLsbD_or_one_shiftLeft (b : BitVec 8) (i j : ℕ) :
    (b ||| (1#8 <<< i)).getLsbD j = true ↔ b.getLsbD j = true ∨ (j < 8 ∧ j = i) := by
  have h : (1#8 <<< i).getLsbD j = true ↔ j < 8 ∧ j = i := by
    rw [getLsbD_shiftLeft, getLsbD_one]
    simp only [Bool.and_eq_true, decide_eq_true_eq, Bool.not_eq_true', decide_eq_false_iff_not]
    omega
  rw [getLsbD_or, Bool.or_eq_true, h]

/-- One round of the loop. -/
theorem UtilitySpec.concat {u : SlotUtility} (h : UtilitySpec t triggeringPktLen lens u)
    (len : ℕ) :
    UtilitySpec t triggeringPktLen (lens ++ [len])
      (utilityOne t (triggeringDuration t triggeringPktLen) (1 + lens.length) len u) := by
  have htx : u.txDuration +
      ((if 1 + lens.length = 1 then t.upaTxOffset1 else t.upaTxOffset2) +
        t.packetDuration len) = batchDuration t 1 (lens ++ [len]) := by
    rw [h.txDuration, batchDuration_concat]
  have hexp : triggeringDuration t triggeringPktLen +
      (batchDuration t 1 (lens ++ [len]) + t.upaTxAckDelay + t.upaMaxAck +
        t.upaTxProcessBAck) = exchangeDuration t triggeringPktLen (lens ++ [len]) := by
    simp [exchangeDuration]
  have hmono : timeslots t (exchangeDuration t triggeringPktLen lens) ≤
      timeslots t (exchangeDuration t triggeringPktLen (lens ++ [len])) :=
    timeslots_mono (exchangeDuration_le_concat t triggeringPktLen lens len)
  have hlast : Grows t triggeringPktLen (lens ++ [len]) (lens.length + 1) ↔
      u.allOperationTimeslots < timeslots t (exchangeDuration t triggeringPktLen (lens ++ [len])) := by
    simp [Grows, h.slots, List.take_of_length_le]
  -- the bits of the packets before stay, and the last one is set when the count grows
  have hbits : ∀ j, (j < 8 ∧ j ≤ (lens ++ [len]).length ∧
      Grows t triggeringPktLen (lens ++ [len]) j) ↔ u.bitmap.getLsbD j = true ∨
        (j < 8 ∧ j = 1 + lens.length ∧ u.allOperationTimeslots <
          timeslots t (exchangeDuration t triggeringPktLen (lens ++ [len]))) := by
    intro j
    rw [h.bit j, List.length_append, List.length_singleton]
    by_cases hj : j ≤ lens.length
    · have hne : j ≠ 1 + lens.length := by omega
      simp [hj, hne, grows_concat hj, Nat.le_succ_of_le hj]
    · by_cases hj' : j = lens.length + 1
      · subst hj'
        rw [hlast]
        constructor
        · rintro ⟨h8, -, hg⟩
          exact Or.inr ⟨h8, by omega, hg⟩
        · rintro (⟨-, hle, -⟩ | ⟨h8, -, hg⟩)
          · exact absurd hle hj
          · exact ⟨h8, le_refl _, hg⟩
      · omega
  simp only [utilityOne, htx, hexp]
  by_cases hgrow : u.allOperationTimeslots <
      timeslots t (exchangeDuration t triggeringPktLen (lens ++ [len]))
  · rw [if_pos hgrow]
    refine ⟨rfl, rfl, fun j => ?_⟩
    rw [getLsbD_or_one_shiftLeft, hbits]
    simp only [hgrow, and_true]
  · rw [if_neg hgrow]
    refine ⟨rfl, ?_, fun j => ?_⟩
    · have := h.slots
      show u.allOperationTimeslots = _
      omega
    · rw [hbits]
      simp only [hgrow, and_false, or_false]

/-- **What the sender computes**: the count of the exchange, and a byte with the bits
of the packets at which the count grows. -/
theorem upaCalculateSlotUtility_spec (t : UpaTiming) (triggeringPktLen : ℕ) (lens : List ℕ) :
    UtilitySpec t triggeringPktLen lens (upaCalculateSlotUtility t triggeringPktLen lens) := by
  induction lens using List.reverseRecOn with
  | nil =>
    refine ⟨rfl, by simp [upaCalculateSlotUtility, utilityLoop, exchangeDuration], fun j => ?_⟩
    have hD : exchangeDuration t triggeringPktLen [] = triggeringDuration t triggeringPktLen := by
      simp [exchangeDuration]
    simp only [upaCalculateSlotUtility, utilityLoop, List.length_nil, Nat.le_zero]
    by_cases h1 : 1 < timeslots t (triggeringDuration t triggeringPktLen)
    · rw [if_pos h1]
      have h0 := getLsbD_or_one_shiftLeft 0#8 0 j
      simp only [zero_or] at h0
      rw [h0]
      constructor
      · rintro (hz | ⟨h8, rfl⟩)
        · simp at hz
        · exact ⟨h8, rfl, by simpa [Grows, hD] using h1⟩
      · rintro ⟨h8, rfl, -⟩
        exact Or.inr ⟨h8, rfl⟩
    · rw [if_neg h1]
      constructor
      · intro hz
        simp at hz
      · rintro ⟨-, rfl, hg⟩
        exact absurd (by simpa [Grows, hD] using hg) h1
  | append_singleton lens len ih =>
    have h := ih.concat len
    simp only [upaCalculateSlotUtility] at h ⊢
    rw [utilityLoop_concat]
    exact h

/-! ## The two counts -/

/-- **The condition on the exchange**: the triggering frame takes one slot or two, and
each packet carries the exchange over at most one slot boundary, a packet beyond the
byte over none. -/
def FitsBitmap (t : UpaTiming) (triggeringPktLen : ℕ) (lens : List ℕ) : Prop :=
  (0 < triggeringDuration t triggeringPktLen ∧
    triggeringDuration t triggeringPktLen ≤ 2 * t.timeslotLength) ∧
  ∀ i < lens.length, ∀ k,
    exchangeDuration t triggeringPktLen (lens.take i) ≤ k * t.timeslotLength →
    exchangeDuration t triggeringPktLen (lens.take (i + 1)) ≤
      (if i < 7 then k + 1 else k) * t.timeslotLength

/-- A duration fits `k` slots when it is over by the end of slot `k`. -/
theorem timeslots_le_iff (hlen : 0 < t.timeslotLength) (d k : ℕ) :
    timeslots t d ≤ k ↔ d ≤ k * t.timeslotLength := by
  rw [timeslots, ← Nat.lt_succ_iff, Nat.div_lt_iff_lt_mul hlen, Nat.succ_mul]
  omega

/-- Bounding one count by the other is bounding the durations, boundary by boundary. -/
theorem timeslots_le_add_iff (hlen : 0 < t.timeslotLength) (d e c : ℕ) :
    timeslots t e ≤ timeslots t d + c ↔
      ∀ k, d ≤ k * t.timeslotLength → e ≤ (k + c) * t.timeslotLength := by
  constructor
  · intro h k hk
    have := (timeslots_le_iff hlen d k).mpr hk
    exact (timeslots_le_iff hlen e (k + c)).mp (by omega)
  · intro h
    have := h _ ((timeslots_le_iff hlen d _).mp le_rfl)
    exact (timeslots_le_iff hlen e _).mpr this

/-- A byte that grows by one where the count grows follows the count exactly as long as
the count never grows by more, nor where there is no bit for it. -/
theorem slotsRequired_eq_iff {bitmap : BitVec 8} {c : ℕ → ℕ} {n : ℕ}
    (h0 : bitmap.getLsbD 0 = true ↔ 1 < c 0)
    (hbit : ∀ i < n, bitmap.getLsbD (i + 1) = true ↔ i < 7 ∧ c i < c (i + 1))
    (hmono : ∀ i < n, c i ≤ c (i + 1)) :
    (∀ i ≤ n, slotsRequired bitmap i = c i) ↔
      (1 ≤ c 0 ∧ c 0 ≤ 2) ∧ ∀ i < n, c (i + 1) ≤ c i + if i < 7 then 1 else 0 := by
  have hstep : ∀ i < n, slotsRequired bitmap (i + 1) =
      slotsRequired bitmap i + if i < 7 ∧ c i < c (i + 1) then 1 else 0 := by
    intro i hi
    simp only [slotsRequired, upaBitValue_eq_one_iff, hbit i hi]
    split_ifs <;> rfl
  have hzero : slotsRequired bitmap 0 = if 1 < c 0 then 2 else 1 := by
    simp only [slotsRequired, upaBitValue_eq_one_iff, h0]
  constructor
  · intro h
    constructor
    · have := h 0 (Nat.zero_le _)
      rw [hzero] at this
      split_ifs at this <;> omega
    · intro i hi
      have ha := h i (by omega)
      have hb := h (i + 1) (by omega)
      rw [hstep i hi] at hb
      have := hmono i hi
      split_ifs at hb ⊢ <;> omega
  · rintro ⟨hc0, hc⟩ i
    induction i with
    | zero =>
      intro _
      rw [hzero]
      split_ifs <;> omega
    | succ i ih =>
      intro hi
      have hlast := hc i (by omega)
      have := hmono i (by omega)
      rw [hstep i (by omega), ih (by omega)]
      split_ifs at hlast ⊢ <;> omega

/-- **The two sides agree on every prefix of the batch exactly when the byte can carry
the counts.** -/
theorem slot_counts_agree_iff (t : UpaTiming) (triggeringPktLen : ℕ) (lens : List ℕ) :
    (∀ i ≤ lens.length,
      receiverSlots t triggeringPktLen lens i = senderSlots t triggeringPktLen lens i) ↔
      FitsBitmap t triggeringPktLen lens := by
  have hspec := upaCalculateSlotUtility_spec t triggeringPktLen lens
  have hsender : ∀ i, senderSlots t triggeringPktLen lens i =
      timeslots t (exchangeDuration t triggeringPktLen (lens.take i)) := fun i =>
    (upaCalculateSlotUtility_spec t triggeringPktLen (lens.take i)).slots
  have hfirst : exchangeDuration t triggeringPktLen (lens.take 0) =
      triggeringDuration t triggeringPktLen := by simp [exchangeDuration]
  have hmono : ∀ i < lens.length,
      timeslots t (exchangeDuration t triggeringPktLen (lens.take i)) ≤
        timeslots t (exchangeDuration t triggeringPktLen (lens.take (i + 1))) := by
    intro i hi
    have := exchangeDuration_le_concat t triggeringPktLen (lens.take i) lens[i]
    rw [List.take_add_one, List.getElem?_eq_getElem hi]
    exact timeslots_mono this
  simp only [receiverSlots, upaBitmapRequested_upaInfoToRequest, hsender]
  rw [slotsRequired_eq_iff (n := lens.length) ?_ ?_ hmono]
  · by_cases hlen : 0 < t.timeslotLength
    · simp only [FitsBitmap, timeslots_le_add_iff hlen, hfirst]
      refine and_congr (and_congr ?_ ?_) ?_
      · have := timeslots_le_iff hlen (triggeringDuration t triggeringPktLen) 0
        omega
      · exact timeslots_le_iff hlen _ _
      · refine forall₂_congr fun i _ => ?_
        split_ifs <;> simp
    · -- without slots neither side of the equivalence holds
      have hz : t.timeslotLength = 0 := by omega
      constructor
      · rintro ⟨⟨h1, -⟩, -⟩
        simp [timeslots, hz] at h1
      · rintro ⟨⟨h1, h2⟩, -⟩
        omega
  · rw [hspec.bit 0]
    simp [Grows]
  · intro i hi
    rw [hspec.bit (i + 1)]
    simp only [Grows]
    constructor
    · rintro ⟨h8, -, hg⟩
      exact ⟨by omega, hg⟩
    · rintro ⟨h7, hg⟩
      exact ⟨by omega, by omega, hg⟩

/-- The timing of the source, with three CCAs, on a timer of microseconds. -/
def upaTiming10000 (timeslotLength : ℕ) : UpaTiming where
  timeslotLength := timeslotLength
  txOffset := 2950
  txAckDelay := 1300
  upaTxOffset1 := 1250
  upaTxOffset2 := 1000
  upaTxAckDelay := 1250
  upaMaxAck := 810
  upaTxProcessBAck := 360
  packetDuration := fun len => 32 * (len + 3)

/-- A slot shortened to 7120 microseconds: one packet of 125 bytes behind one of 60
carries the exchange from its first slot into its third, and the receiver counts two. -/
theorem slot_counts_differ :
    ¬ ∀ i ≤ [125].length, receiverSlots (upaTiming10000 7120) 60 [125] i =
      senderSlots (upaTiming10000 7120) 60 [125] i := by
  decide

end Asap.Upa
