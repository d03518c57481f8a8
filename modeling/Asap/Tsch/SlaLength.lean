import Mathlib.Data.BitVec
import Mathlib.Data.List.Count
import Mathlib.Order.Bounds.Defs
import Mathlib.Tactic.Common

/-!
# The length of a timeslot

The coordinator counts how long the frames and the ACKs are that it sees, in levels of eight bytes.
From time to time it takes a percentile of each histogram as the length to be ready for, and makes
the timeslot as short as these lengths allow.

## Main definitions

* `SlaCoordinator` — the histograms and the reference lengths.
* `slaCalculateNextRef`, `slaCalculateTimeslotLength` — the percentile, and the timeslot length.
* `SlaCoordinator.after` — the coordinator after a sequence of observations and determinations.
-/

namespace Asap.Tsch

open BitVec

/-- The build: the switches that the timing depends on, and `SLA_K_TH_PERCENTILE`. -/
structure SlaBuild where
  withUpa : Bool
  upaTripleCca : Bool
  withOst : Bool
  ccaEnabled : Bool
  slaKThPercentile : ℕ
  percentile_le : slaKThPercentile ≤ 100

/-- What is observed. -/
inductive SlaKind where
  | bcFrame
  | ucFrame
  | ack
deriving DecidableEq

/-- `RADIO_PHY_OVERHEAD` -/
def radioPhyOverhead : ℕ := 3

/-- `SLA_SHIFT_BITS` -/
def slaShiftBits : ℕ := 3

/-- `SLA_MAX_FRAME_LEN` -/
def slaMaxFrameLen : ℕ := 128

/-- `SLA_CALCULATE_DURATION` -/
def slaCalculateDuration (len : ℕ) : ℕ := 32 * (5 + len)

namespace SlaBuild

variable (b : SlaBuild)

/-- `SLA_MAX_ACK_LEN` -/
def slaMaxAckLen : ℕ := if b.withUpa then (if b.upaTripleCca then 34 else 60) else 70

/-- The largest length of a kind. -/
def maxLen : SlaKind → ℕ
  | .bcFrame => slaMaxFrameLen
  | .ucFrame => slaMaxFrameLen
  | .ack => b.slaMaxAckLen

/-- `SLA_FRAME_LEN_QUANTIZED_LEVELS`, `SLA_ACK_LEN_QUANTIZED_LEVELS` -/
def quantizedLevels (k : SlaKind) : ℕ := (b.maxLen k - 1) >>> slaShiftBits + 1 + 1

/-- `tsch_ts_tx_offset` of the default timing. -/
def txOffset : BitVec 16 := if b.ccaEnabled && b.withUpa && b.upaTripleCca then 2950 else 2120

/-- `tsch_ts_tx_ack_delay` of the default timing. -/
def txAckDelay : BitVec 16 := if b.withUpa then 1300 else if b.withOst then 1200 else 1000

/-- `tsch_ts_max_ack` of the default timing. -/
def maxAck : BitVec 16 := BitVec.ofNat 16 (slaCalculateDuration b.slaMaxAckLen)

end SlaBuild

/-- `tsch_ts_max_tx` of the default timing. -/
def defaultMaxTx : BitVec 16 := 4256

/-- `tsch_ts_timeslot_length` of the default timing. -/
def defaultTimeslotLength : BitVec 16 := 10000

/-! ## Observations -/

/-- The histogram of a kind. -/
structure SlaObserved where
  length : ℕ → BitVec 16
  count : BitVec 16

/-- `sla_quantize_frame_len_with_radio_phy_overhead` -/
def slaQuantize (frameLenWithRadioPhyOverhead : ℕ) : BitVec 8 :=
  BitVec.ofNat 8 ((frameLenWithRadioPhyOverhead - 1) >>> slaShiftBits + 1)

/-- `sla_get_frame_len_with_radio_phy_overhead` -/
def slaGetFrameLen (quantizedVal : BitVec 8) : BitVec 8 := quantizedVal <<< slaShiftBits

/-- The functions `sla_record_..._len`. -/
def SlaObserved.record (o : SlaObserved) (len : ℕ) : SlaObserved :=
  let quantizedIndex := (slaQuantize (len + radioPhyOverhead)).toNat
  ⟨Function.update o.length quantizedIndex (o.length quantizedIndex + 1), o.count + 1⟩

/-- The loop of the functions `sla_calculate_next_ref_..._len`, over the first levels, from the last
of them down: `target_index` and `accum_count`. -/
def SlaObserved.walk (o : SlaObserved) (refCount : BitVec 16) : ℕ → BitVec 16 → ℕ × BitVec 16
  | 0, accumCount => (0, accumCount)
  | i + 1, accumCount =>
    let accumCount := accumCount + o.length i
    if accumCount ≠ 0 ∧ refCount < accumCount then (i, accumCount) else o.walk refCount i accumCount

/-- The functions `sla_calculate_next_ref_..._len`, for a number of levels and the current
reference. -/
def SlaObserved.calculateNextRef (o : SlaObserved) (slaKThPercentile levels : ℕ)
    (currRef : BitVec 8) : BitVec 8 :=
  let refCount := BitVec.ofNat 16 (o.count.toNat * (100 - slaKThPercentile) / 100)
  let (targetIndex, accumCount) := o.walk refCount levels 0
  if 0 < accumCount then slaGetFrameLen (BitVec.ofNat 8 targetIndex) else currRef

/-- The coordinator, with the lengths that it has observed since the histograms were cleared, the
last one first. -/
structure SlaCoordinator where
  observed : SlaKind → SlaObserved
  currRef : SlaKind → BitVec 8
  nextRef : SlaKind → BitVec 8
  nextTimeslotLength : BitVec 16
  seen : SlaKind → List ℕ

namespace SlaCoordinator

variable (b : SlaBuild) (s : SlaCoordinator)

/-- A length is recorded. -/
def recordLen (k : SlaKind) (len : ℕ) : SlaCoordinator :=
  { s with
    observed := Function.update s.observed k ((s.observed k).record len)
    seen := Function.update s.seen k (len :: s.seen k) }

/-- `sla_record_bc_frame_len` -/
def slaRecordBcFrameLen (frameLen : ℕ) : SlaCoordinator := s.recordLen .bcFrame frameLen

/-- `sla_record_uc_frame_len` -/
def slaRecordUcFrameLen (frameLen : ℕ) : SlaCoordinator := s.recordLen .ucFrame frameLen

/-- `sla_record_ack_len` -/
def slaRecordAckLen (ackLen : ℕ) : SlaCoordinator := s.recordLen .ack ackLen

/-- The next reference length of a kind. -/
def calculateNextRef (k : SlaKind) : BitVec 8 :=
  (s.observed k).calculateNextRef b.slaKThPercentile (b.quantizedLevels k) (s.currRef k)

/-- `sla_calculate_next_ref_bc_frame_len` -/
def slaCalculateNextRefBcFrameLen : BitVec 8 := s.calculateNextRef b .bcFrame

/-- `sla_calculate_next_ref_uc_frame_len` -/
def slaCalculateNextRefUcFrameLen : BitVec 8 := s.calculateNextRef b .ucFrame

/-- `sla_calculate_next_ref_ack_len` -/
def slaCalculateNextRefAckLen : BitVec 8 := s.calculateNextRef b .ack

/-- `sla_calculate_timeslot_length` -/
def slaCalculateTimeslotLength : BitVec 16 :=
  let duration (len : BitVec 8) (longest : BitVec 16) : BitVec 16 :=
    BitVec.ofNat 16 (min (slaCalculateDuration len.toNat) longest.toNat)
  let refBcTxDuration := duration (s.nextRef .bcFrame) defaultMaxTx
  let refUcFrameDuration := duration (s.nextRef .ucFrame) defaultMaxTx
  let refAckDuration := duration (s.nextRef .ack) b.maxAck
  let refUcTxDuration := refUcFrameDuration + b.txAckDelay + refAckDuration
  let longerRefTxDuration :=
    if refUcTxDuration < refBcTxDuration then refBcTxDuration else refUcTxDuration
  let maxTxDuration := defaultMaxTx + b.txAckDelay + b.maxAck
  let txDurationDiff := maxTxDuration - longerRefTxDuration
  defaultTimeslotLength - txDurationDiff

/-- The histograms are cleared. -/
def clear : SlaCoordinator :=
  { s with
    observed := fun k =>
      ⟨fun i => if i < b.quantizedLevels k then 0 else (s.observed k).length i, 0⟩
    seen := fun _ => [] }

/-- `sla_determine_next_timeslot_length_and_trig_asn`, but for the triggering ASN. -/
def slaDetermineNextTimeslotLength : SlaCoordinator :=
  let s := { s with currRef := s.nextRef }
  let s := { s with
    nextRef := fun
      | .bcFrame => s.slaCalculateNextRefBcFrameLen b
      | .ucFrame => s.slaCalculateNextRefUcFrameLen b
      | .ack => s.slaCalculateNextRefAckLen b }
  let s := { s with nextTimeslotLength := s.slaCalculateTimeslotLength b }
  s.clear b

end SlaCoordinator

/-! ## Runs -/

/-- What happens at the coordinator. -/
inductive SlaEvent where
  | bcFrame (frameLen : ℕ)
  | ucFrame (frameLen : ℕ)
  | ack (ackLen : ℕ)
  | determine

namespace SlaCoordinator

/-- The coordinator when it starts. -/
def start (b : SlaBuild) : SlaCoordinator where
  observed _ := ⟨fun _ => 0, 0⟩
  currRef k := BitVec.ofNat 8 (b.maxLen k)
  nextRef k := BitVec.ofNat 8 (b.maxLen k)
  nextTimeslotLength := defaultTimeslotLength
  seen _ := []

/-- One event. -/
def step (b : SlaBuild) (s : SlaCoordinator) : SlaEvent → SlaCoordinator
  | .bcFrame frameLen => s.slaRecordBcFrameLen frameLen
  | .ucFrame frameLen => s.slaRecordUcFrameLen frameLen
  | .ack ackLen => s.slaRecordAckLen ackLen
  | .determine => s.slaDetermineNextTimeslotLength b

/-- The coordinator after a sequence of events. -/
def after (b : SlaBuild) (es : List SlaEvent) : SlaCoordinator := es.foldl (step b) (start b)

end SlaCoordinator

/-! ## What is expected -/

/-- The level of a length. -/
def levelOf (len : ℕ) : ℕ := (slaQuantize (len + radioPhyOverhead)).toNat

/-- The number of lengths of a level and of those above. -/
def atLeast (seen : List ℕ) (level : ℕ) : ℕ := seen.countP fun len => level ≤ levelOf len

/-- The number of lengths above a level. -/
def above (seen : List ℕ) (level : ℕ) : ℕ := seen.countP fun len => level < levelOf len

/-- `SLA_CALCULATE_DURATION` of a reference length, and no more than the longest one. -/
def slaRefDuration (len longest : ℕ) : ℕ := min (slaCalculateDuration len) longest

/-- The longest exchange: a frame, the delay of the ACK, and the ACK. -/
def SlaBuild.longestExchange (b : SlaBuild) : ℕ :=
  defaultMaxTx.toNat + b.txAckDelay.toNat + b.maxAck.toNat

/-- The longer one of a broadcast and of a unicast exchange of the reference lengths. -/
def SlaCoordinator.longerExchange (b : SlaBuild) (s : SlaCoordinator) : ℕ :=
  max (slaRefDuration (s.nextRef .bcFrame).toNat defaultMaxTx.toNat)
    (slaRefDuration (s.nextRef .ucFrame).toNat defaultMaxTx.toNat + b.txAckDelay.toNat +
      slaRefDuration (s.nextRef .ack).toNat b.maxAck.toNat)

/-- What the default timeslot leaves after the longest exchange. -/
def SlaBuild.margin (b : SlaBuild) : ℕ :=
  defaultTimeslotLength.toNat - (b.txOffset.toNat + b.longestExchange)

variable {b : SlaBuild} {s : SlaCoordinator} {k : SlaKind} {o : SlaObserved} {seen : List ℕ}
  {refCount accumCount : BitVec 16} {n level : ℕ}

/-! ## The histograms -/

/-- The histograms count what has been seen, modulo their width. -/
def Counts (b : SlaBuild) (s : SlaCoordinator) : Prop :=
  ∀ k, (s.observed k).count = BitVec.ofNat 16 (s.seen k).length ∧
    ∀ level < b.quantizedLevels k, (s.observed k).length level =
      BitVec.ofNat 16 ((s.seen k).countP fun len => levelOf len = level)

theorem Counts.start (b : SlaBuild) : Counts b (.start b) := fun _ => ⟨rfl, fun _ _ => rfl⟩

theorem Counts.recordLen (h : Counts b s) (k : SlaKind) (len : ℕ) : Counts b (s.recordLen k len) := by
  intro k'
  by_cases hk : k' = k
  · subst hk
    have ⟨hcount, hlength⟩ := h k'
    simp only [SlaCoordinator.recordLen, Function.update_self, SlaObserved.record]
    refine ⟨by rw [hcount, List.length_cons, ofNat_add]; rfl, fun level hlevel => ?_⟩
    rw [List.countP_cons, ← levelOf]
    by_cases hsame : levelOf len = level
    · subst hsame
      rw [Function.update_self, hlength _ hlevel, ofNat_add]
      simp
    · rw [Function.update_of_ne (Ne.symm hsame), hlength level hlevel]
      simp [hsame]
  · simpa only [SlaCoordinator.recordLen, Function.update_of_ne hk] using h k'

theorem Counts.determine (s : SlaCoordinator) : Counts b (s.slaDetermineNextTimeslotLength b) :=
  fun _ => ⟨rfl, fun _ hlevel => if_pos hlevel⟩

theorem Counts.after (b : SlaBuild) (es : List SlaEvent) : Counts b (.after b es) := by
  refine List.foldlRecOn (motive := Counts b) es _ (Counts.start b) fun s hs e _ => ?_
  cases e with
  | bcFrame | ucFrame | ack => exact hs.recordLen _ _
  | determine => exact Counts.determine s

/-! ## The percentile -/

theorem atLeast_succ (seen : List ℕ) (level : ℕ) : atLeast seen (level + 1) = above seen level := rfl

theorem atLeast_zero (seen : List ℕ) : atLeast seen 0 = seen.length := by
  simp [atLeast]

/-- The lengths of a level, and those above. -/
theorem atLeast_eq (seen : List ℕ) (level : ℕ) :
    atLeast seen level =
      (seen.countP fun len => levelOf len = level) + atLeast seen (level + 1) := by
  induction seen with
  | nil => rfl
  | cons len seen ih =>
    simp only [atLeast, List.countP_cons] at ih ⊢
    rw [ih]
    by_cases hsame : levelOf len = level
    · have hlt : ¬ level + 1 ≤ level := Nat.not_succ_le_self level
      simp [hsame, hlt]
      omega
    · by_cases hle : level ≤ levelOf len
      · have hlt : level + 1 ≤ levelOf len := by omega
        simp [hsame, hle, hlt]
        omega
      · have hlt : ¬ level + 1 ≤ levelOf len := by omega
        simp [hsame, hle, hlt]

theorem atLeast_anti (seen : List ℕ) {level level' : ℕ} (h : level ≤ level') :
    atLeast seen level' ≤ atLeast seen level :=
  List.countP_mono_left fun len _ hlen => by
    simp only [decide_eq_true_eq] at hlen ⊢
    omega

/-- The loop stops at the first level, from above, with more than the given number of lengths. -/
theorem walk_spec (hlength : ∀ level < n, o.length level =
      BitVec.ofNat 16 (seen.countP fun len => levelOf len = level))
    (hseen : seen.length < 2 ^ 16) (haccum : accumCount = BitVec.ofNat 16 (atLeast seen n))
    (hle : atLeast seen n ≤ refCount.toNat) :
    let (targetIndex, accumCount) := o.walk refCount n accumCount
    accumCount.toNat = atLeast seen targetIndex ∧ above seen targetIndex ≤ refCount.toNat ∧
      (0 < targetIndex → targetIndex < n ∧ refCount.toNat < atLeast seen targetIndex) := by
  have hlt : ∀ level, atLeast seen level < 2 ^ 16 := fun level =>
    Nat.lt_of_le_of_lt List.countP_le_length hseen
  induction n generalizing accumCount with
  | zero =>
    rw [SlaObserved.walk, haccum]
    refine ⟨?_, (atLeast_anti seen (Nat.zero_le 1)).trans hle, fun h => absurd h (Nat.lt_irrefl 0)⟩
    rw [toNat_ofNat, Nat.mod_eq_of_lt (hlt 0)]
  | succ n ih =>
    have hnext : accumCount + o.length n = BitVec.ofNat 16 (atLeast seen n) := by
      rw [haccum, hlength n (Nat.lt_succ_self n), atLeast_eq seen n,
        ofNat_add, add_comm]
    rw [SlaObserved.walk, hnext]
    have hnat : (BitVec.ofNat 16 (atLeast seen n)).toNat = atLeast seen n := by
      rw [toNat_ofNat, Nat.mod_eq_of_lt (hlt n)]
    by_cases hstop : BitVec.ofNat 16 (atLeast seen n) ≠ 0 ∧
        refCount < BitVec.ofNat 16 (atLeast seen n)
    · rw [if_pos hstop]
      refine ⟨hnat, hle, fun _ => ⟨Nat.lt_succ_self n, ?_⟩⟩
      simpa only [lt_def, hnat] using hstop.2
    · rw [if_neg hstop]
      have hle' : atLeast seen n ≤ refCount.toNat := by
        by_contra hgt
        refine hstop ⟨fun hzero => ?_, ?_⟩
        · rw [hzero] at hnat
          simp at hnat
          omega
        · rw [lt_def, hnat]
          omega
      have ih := ih (fun level hlevel => hlength level (Nat.lt_succ_of_lt hlevel)) rfl hle'
      generalize o.walk refCount n (BitVec.ofNat 16 (atLeast seen n)) = r at ih ⊢
      exact ⟨ih.1, ih.2.1, fun hpos => ⟨Nat.lt_succ_of_lt (ih.2.2 hpos).1, (ih.2.2 hpos).2⟩⟩

/-- There are at most 17 levels, so that all lengths have eight bits. -/
theorem quantizedLevels_le (b : SlaBuild) (k : SlaKind) :
    b.quantizedLevels k = (b.maxLen k - 1) / 8 + 2 ∧ b.maxLen k ≤ 128 ∧ 0 < b.maxLen k := by
  refine ⟨by simp [SlaBuild.quantizedLevels, slaShiftBits, Nat.shiftRight_eq_div_pow], ?_⟩
  cases k with
  | bcFrame | ucFrame => simp [SlaBuild.maxLen, slaMaxFrameLen]
  | ack =>
    simp only [SlaBuild.maxLen, SlaBuild.slaMaxAckLen]
    split_ifs <;> decide

theorem levelOf_lt {len : ℕ} (h : len + radioPhyOverhead ≤ b.maxLen k) :
    levelOf len < b.quantizedLevels k := by
  have ⟨hlevels, hmax, _⟩ := quantizedLevels_le b k
  rw [hlevels]
  simp only [levelOf, slaQuantize, radioPhyOverhead, slaShiftBits, toNat_ofNat,
    Nat.shiftRight_eq_div_pow] at h ⊢
  omega

theorem toNat_slaGetFrameLen (h : n < b.quantizedLevels k) :
    (slaGetFrameLen (BitVec.ofNat 8 n)).toNat = n <<< slaShiftBits := by
  have ⟨hlevels, hmax, _⟩ := quantizedLevels_le b k
  simp only [slaGetFrameLen, slaShiftBits, toNat_shiftLeft, toNat_ofNat,
    Nat.shiftLeft_eq]
  omega

theorem atLeast_eq_zero (h : ∀ len ∈ seen, levelOf len < n) : atLeast seen n = 0 :=
  List.countP_eq_zero.mpr fun len hlen => by
    have hlt := h len hlen
    simp only [decide_eq_true_eq]
    omega

/-- The smallest level with at most a number of lengths above it. -/
theorem isLeast_above {bound : ℕ} (h : above seen level ≤ bound)
    (hpos : 0 < level → bound < atLeast seen level) : IsLeast {l | above seen l ≤ bound} level := by
  refine ⟨h, fun l hl => Nat.le_of_not_lt fun hlt => ?_⟩
  have hmany := hpos (Nat.zero_lt_of_lt hlt)
  have hanti := atLeast_anti seen (Nat.succ_le_of_lt hlt)
  have hl : above seen l ≤ bound := hl
  rw [atLeast_succ] at hanti
  omega

/-- **The percentile of a histogram.** -/
theorem calculateNextRef_spec (h : Counts b s) (hseen : (s.seen k).length < 2 ^ 16)
    (hlevels : ∀ len ∈ s.seen k, levelOf len < b.quantizedLevels k) :
    (s.seen k = [] → s.calculateNextRef b k = s.currRef k) ∧
      (s.seen k ≠ [] → ∃ L, IsLeast {L | above (s.seen k) L ≤
        (s.seen k).length * (100 - b.slaKThPercentile) / 100} L ∧
          (s.calculateNextRef b k).toNat = L <<< slaShiftBits) := by
  have ⟨hcount, hlength⟩ := h k
  have hbound : (s.seen k).length * (100 - b.slaKThPercentile) / 100 < 2 ^ 16 := by
    have hmul := Nat.mul_le_mul_left (s.seen k).length (Nat.sub_le 100 b.slaKThPercentile)
    omega
  have hnat : (s.observed k).count.toNat = (s.seen k).length := by
    rw [hcount, toNat_ofNat, Nat.mod_eq_of_lt hseen]
  generalize hbd : (s.seen k).length * (100 - b.slaKThPercentile) / 100 = bound at *
  have href : (BitVec.ofNat 16 bound).toNat = bound := by
    rw [toNat_ofNat, Nat.mod_eq_of_lt hbound]
  have hzero := atLeast_eq_zero hlevels
  have hwalk := @walk_spec (s.observed k) (s.seen k) (BitVec.ofNat 16 bound) 0 _ hlength hseen
    (by rw [hzero]; rfl) (by rw [hzero]; exact Nat.zero_le _)
  rw [href] at hwalk
  simp only [SlaCoordinator.calculateNextRef, SlaObserved.calculateNextRef, hnat, hbd]
  generalize (s.observed k).walk (BitVec.ofNat 16 bound) (b.quantizedLevels k) 0 = r at hwalk ⊢
  have ⟨haccum, habove, hpos⟩ := hwalk
  constructor
  · intro hnil
    have hnone : ¬ 0 < r.2 := by
      rw [lt_def, haccum, hnil]
      exact Nat.lt_irrefl 0
    exact if_neg hnone
  · intro hne
    have htarget : r.1 < b.quantizedLevels k := by
      by_cases hlow : 0 < r.1
      · exact (hpos hlow).1
      · rw [Nat.eq_zero_of_not_pos hlow]
        exact Nat.succ_pos _
    have hsome : 0 < r.2 := by
      rw [lt_def, haccum]
      by_cases hlow : 0 < r.1
      · exact Nat.lt_of_le_of_lt (Nat.zero_le _) (hpos hlow).2
      · rw [Nat.eq_zero_of_not_pos hlow, atLeast_zero]
        exact List.length_pos_iff.mpr hne
    refine ⟨r.1, isLeast_above habove fun hlow => (hpos hlow).2, ?_⟩
    rw [if_pos hsome]
    exact toNat_slaGetFrameLen htarget

/-- **The percentile**: of all lengths that the coordinator has observed since the histograms were
cleared, none of them too long and fewer than `2 ^ 16`, each is counted at its level, which the
histogram has; and the next reference length is that of the smallest level with at most the given
part of the lengths above it. Without an observation it stays. -/
theorem sla_percentile (b : SlaBuild) (es : List SlaEvent) (k : SlaKind)
    (hrange : ∀ len ∈ (SlaCoordinator.after b es).seen k, len + radioPhyOverhead ≤ b.maxLen k)
    (hcount : ((SlaCoordinator.after b es).seen k).length < 2 ^ 16) :
    let s := SlaCoordinator.after b es
    let next := (s.slaDetermineNextTimeslotLength b).nextRef k
    (∀ len ∈ s.seen k, levelOf len < b.quantizedLevels k) ∧
      (∀ level < b.quantizedLevels k, ((s.observed k).length level).toNat =
        (s.seen k).countP fun len => levelOf len = level) ∧
      (s.seen k = [] → next = s.nextRef k) ∧
      (s.seen k ≠ [] → ∃ L, IsLeast {L | above (s.seen k) L ≤
        (s.seen k).length * (100 - b.slaKThPercentile) / 100} L ∧
          next.toNat = L <<< slaShiftBits) := by
  intro s next
  have hcounts := Counts.after b es
  have hlevels : ∀ len ∈ s.seen k, levelOf len < b.quantizedLevels k :=
    fun len hlen => levelOf_lt (hrange len hlen)
  have hspec := @calculateNextRef_spec b { s with currRef := s.nextRef } k hcounts hcount hlevels
  have hnext : next = ({ s with currRef := s.nextRef } : SlaCoordinator).calculateNextRef b k := by
    cases k <;> rfl
  refine ⟨hlevels, fun level hlevel => ?_, hnext ▸ hspec.1, hnext ▸ hspec.2⟩
  rw [(hcounts k).2 level hlevel, BitVec.toNat_ofNat]
  exact Nat.mod_eq_of_lt (Nat.lt_of_le_of_lt List.countP_le_length hcount)

/-- The build with OST, and without UPA. -/
def ostBuild : SlaBuild := ⟨false, false, true, false, 90, by decide⟩

/-- The build with UPA and three clear channel assessments. -/
def tripleCcaBuild : SlaBuild := ⟨true, true, true, true, 90, by decide⟩

theorem sla_percentile_two_acks : 1 ≤ levelOf 20 ∧ 1 ≤ levelOf 66 ∧
    ∃ L, IsLeast {L | above [20, 66] L ≤ 2 * 10 / 100} L ∧
      (((SlaCoordinator.after ostBuild [.ack 66, .ack 20]).slaDetermineNextTimeslotLength
        ostBuild).nextRef .ack).toNat = L <<< slaShiftBits :=
  ⟨by decide, by decide, (sla_percentile ostBuild [.ack 66, .ack 20] .ack (by decide)
    (by decide)).2.2.2 (by decide)⟩

/-- The coordinator after a number of ACKs of one length, and nothing else. -/
def afterAcks (b : SlaBuild) (n len : ℕ) : SlaCoordinator :=
  .after b (List.replicate n (.ack len))

theorem seen_afterAcks (b : SlaBuild) (n len : ℕ) :
    (afterAcks b n len).seen .ack = List.replicate n len ∧
      (afterAcks b n len).nextRef = (SlaCoordinator.start b).nextRef := by
  induction n with
  | zero => exact ⟨rfl, rfl⟩
  | succ n ih =>
    simp only [afterAcks, SlaCoordinator.after] at ih
    rw [afterAcks, SlaCoordinator.after, List.replicate_succ', List.foldl_append]
    simp [SlaCoordinator.step, SlaCoordinator.slaRecordAckLen, SlaCoordinator.recordLen, ih,
      List.replicate_succ]

/-- In a histogram without a length, nothing is found. -/
theorem walk_zero (hzero : ∀ level < n, o.length level = 0) (refCount : BitVec 16) :
    o.walk refCount n 0 = (0, 0) := by
  induction n with
  | zero => rfl
  | succ n ih =>
    have hn := hzero n (Nat.lt_succ_self n)
    simpa [SlaObserved.walk, hn] using ih fun level hlevel => hzero level (Nat.lt_succ_of_lt hlevel)

/-- So many ACKs that their number is back at zero: the reference length stays. -/
theorem nextRef_afterAcks (b : SlaBuild) (len : ℕ) (hn : BitVec.ofNat 16 n = 0) :
    ((afterAcks b n len).slaDetermineNextTimeslotLength b).nextRef .ack =
      (SlaCoordinator.start b).nextRef .ack := by
  have ⟨hseen, hnext⟩ := seen_afterAcks b n len
  have hzero : ∀ level < b.quantizedLevels .ack,
      ((afterAcks b n len).observed .ack).length level = 0 := by
    intro level hlevel
    have hcounts : Counts b (afterAcks b n len) := Counts.after b _
    rw [(hcounts .ack).2 level hlevel, hseen, List.countP_replicate]
    split_ifs
    · exact hn
    · rfl
  rw [← hnext]
  change ({ afterAcks b n len with
    currRef := (afterAcks b n len).nextRef } : SlaCoordinator).calculateNextRef b .ack = _
  rw [SlaCoordinator.calculateNextRef, SlaObserved.calculateNextRef]
  simp only [walk_zero hzero]
  rfl

/-- The percentile of lengths that are all the same is their level. -/
theorem isLeast_above_replicate {n len bound : ℕ} (hbound : bound < n) :
    IsLeast {L | above (List.replicate n len) L ≤ bound} (levelOf len) := by
  refine isLeast_above ?_ fun _ => ?_
  · simp [above, List.countP_replicate]
  · simpa [atLeast, List.countP_replicate] using hbound

/-- Without an observation the reference length is not that of the lowest level; an ACK can be too
long for the histogram; and with `2 ^ 16` of them the reference length stays. -/
theorem ack_of_no_level :
    (((SlaCoordinator.after ostBuild []).slaDetermineNextTimeslotLength ostBuild).nextRef .ack = 70 ∧
      IsLeast {L | above [] L ≤ 0} 0) ∧
    (levelOf 40 = tripleCcaBuild.quantizedLevels .ack ∧
      ((SlaCoordinator.after tripleCcaBuild [.ack 40]).observed .ack).count = 1 ∧
      ∀ level < tripleCcaBuild.quantizedLevels .ack,
        ((SlaCoordinator.after tripleCcaBuild [.ack 40]).observed .ack).length level = 0) ∧
    (((afterAcks ostBuild 65536 20).slaDetermineNextTimeslotLength ostBuild).nextRef .ack = 70 ∧
      IsLeast {L | above (List.replicate 65536 20) L ≤ 65536 * 10 / 100} 3) :=
  ⟨⟨by decide, ⟨Nat.le_refl 0, fun _ _ => Nat.zero_le _⟩⟩, ⟨by decide, by decide, by decide⟩,
    nextRef_afterAcks ostBuild 20 rfl, isLeast_above_replicate (by decide)⟩

/-! ## The timeslot -/

theorem walk_lt (o : SlaObserved) (refCount accumCount : BitVec 16) (hn : 0 < n) :
    (o.walk refCount n accumCount).1 < n := by
  induction n generalizing accumCount with
  | zero => exact hn
  | succ n ih =>
    rw [SlaObserved.walk]
    split
    · exact Nat.lt_succ_self n
    · cases n with
      | zero => exact Nat.zero_lt_one
      | succ n => exact Nat.lt_succ_of_lt (ih _ (Nat.succ_pos n))

/-- A reference length of frames is no more than the largest length; that of ACKs may be rounded. -/
def RefOk (s : SlaCoordinator) : Prop :=
  ∀ k, (s.nextRef k).toNat ≤ if k = .ack then 72 else slaMaxFrameLen

theorem RefOk.start (b : SlaBuild) : RefOk (.start b) := by
  intro k
  have ⟨_, hmax, _⟩ := quantizedLevels_le b k
  rw [SlaCoordinator.start, toNat_ofNat, Nat.mod_eq_of_lt (by omega)]
  cases k with
  | bcFrame | ucFrame => exact hmax
  | ack =>
    simp only [SlaBuild.maxLen, SlaBuild.slaMaxAckLen]
    split_ifs <;> decide

theorem RefOk.determine (h : RefOk s) : RefOk (s.slaDetermineNextTimeslotLength b) := by
  intro k
  have hnext : (s.slaDetermineNextTimeslotLength b).nextRef k =
      ({ s with currRef := s.nextRef } : SlaCoordinator).calculateNextRef b k := by
    cases k <;> rfl
  have ⟨hlevels, hmax, _⟩ := quantizedLevels_le b k
  rw [hnext, SlaCoordinator.calculateNextRef, SlaObserved.calculateNextRef]
  dsimp only
  split
  · rw [toNat_slaGetFrameLen (walk_lt _ _ _ (hlevels ▸ Nat.succ_pos _)), slaShiftBits,
      Nat.shiftLeft_eq]
    have hlt := walk_lt (s.observed k) (BitVec.ofNat 16 ((s.observed k).count.toNat *
      (100 - b.slaKThPercentile) / 100)) 0 (hlevels ▸ Nat.succ_pos _ : 0 < b.quantizedLevels k)
    have hack : k = .ack → b.maxLen k ≤ 70 := by
      rintro rfl
      simp only [SlaBuild.maxLen, SlaBuild.slaMaxAckLen]
      split_ifs <;> decide
    rw [slaMaxFrameLen]
    split_ifs with hk
    · have hmax := hack hk
      omega
    · omega
  · exact h k

theorem RefOk.after (b : SlaBuild) (es : List SlaEvent) : RefOk (.after b es) := by
  refine List.foldlRecOn (motive := RefOk) es _ (RefOk.start b) fun s hs e _ => ?_
  cases e with
  | bcFrame | ucFrame | ack => exact hs
  | determine => exact hs.determine

/-- The times of the build, as numbers. -/
theorem SlaBuild.times (b : SlaBuild) :
    b.maxAck.toNat = slaCalculateDuration b.slaMaxAckLen ∧
      b.txOffset.toNat + b.longestExchange ≤ defaultTimeslotLength.toNat := by
  simp only [SlaBuild.longestExchange, SlaBuild.maxAck, SlaBuild.txAckDelay, SlaBuild.txOffset,
    SlaBuild.slaMaxAckLen]
  cases b.withUpa <;> cases b.upaTripleCca <;> cases b.withOst <;> cases b.ccaEnabled <;> decide

/-- What the longer exchange leaves of the longest one is taken off the timeslot. -/
theorem toNat_sub_longer {timeslot longest bc uc : BitVec 16} (hbc : bc ≤ longest)
    (huc : uc ≤ longest) (hfit : longest ≤ timeslot) :
    (timeslot - (longest - if uc < bc then bc else uc)).toNat + longest.toNat =
      timeslot.toNat + max bc.toNat uc.toNat := by
  have hlonger : (if uc < bc then bc else uc) ≤ longest ∧
      (if uc < bc then bc else uc).toNat = max bc.toNat uc.toNat := by
    split_ifs with hlt
    · exact ⟨hbc, (Nat.max_eq_left (lt_def.mp hlt).le).symm⟩
    · exact ⟨huc, (Nat.max_eq_right (Nat.not_lt.mp hlt)).symm⟩
  have hle := le_def.mp hlonger.1
  have hfit := le_def.mp hfit
  have hdiff : (longest - if uc < bc then bc else uc).toNat =
      longest.toNat - max bc.toNat uc.toNat := by
    rw [toNat_sub_of_le hlonger.1, hlonger.2]
  rw [toNat_sub_of_le (le_def.mpr (by omega)), hdiff]
  rw [hlonger.2] at hle
  omega

/-- The computation does not overflow. -/
theorem toNat_slaCalculateTimeslotLength (b : SlaBuild) (s : SlaCoordinator) :
    s.longerExchange b ≤ b.longestExchange ∧
      (s.slaCalculateTimeslotLength b).toNat + b.longestExchange =
        defaultTimeslotLength.toNat + s.longerExchange b := by
  have ⟨_, hfit⟩ := b.times
  have hduration : ∀ (len : BitVec 8) (longest : BitVec 16),
      (BitVec.ofNat 16 (min (slaCalculateDuration len.toNat) longest.toNat)).toNat =
        slaRefDuration len.toNat longest.toNat := by
    intro len longest
    rw [toNat_ofNat, slaRefDuration]
    exact Nat.mod_eq_of_lt (Nat.lt_of_le_of_lt (Nat.min_le_right ..) longest.isLt)
  have hbcLe : slaRefDuration (s.nextRef .bcFrame).toNat defaultMaxTx.toNat ≤ defaultMaxTx.toNat :=
    Nat.min_le_right _ _
  have hucLe : slaRefDuration (s.nextRef .ucFrame).toNat defaultMaxTx.toNat ≤ defaultMaxTx.toNat :=
    Nat.min_le_right _ _
  have hackLe : slaRefDuration (s.nextRef .ack).toNat b.maxAck.toNat ≤ b.maxAck.toNat :=
    Nat.min_le_right _ _
  have hlt := defaultTimeslotLength.isLt
  have hsum : ∀ x y z : BitVec 16, x.toNat + y.toNat + z.toNat < 2 ^ 16 →
      (x + y + z).toNat = x.toNat + y.toNat + z.toNat := by
    intro x y z h
    rw [toNat_add_of_lt, toNat_add_of_lt (Nat.lt_of_le_of_lt (Nat.le_add_right ..) h)]
    rwa [toNat_add_of_lt (Nat.lt_of_le_of_lt (Nat.le_add_right ..) h)]
  rw [SlaBuild.longestExchange] at hfit ⊢
  have hmax := hsum defaultMaxTx b.txAckDelay b.maxAck (by omega)
  have hexchange := hsum
    (BitVec.ofNat 16 (min (slaCalculateDuration (s.nextRef .ucFrame).toNat) defaultMaxTx.toNat))
    b.txAckDelay (BitVec.ofNat 16 (min (slaCalculateDuration (s.nextRef .ack).toNat) b.maxAck.toNat))
    (by rw [hduration, hduration]; omega)
  rw [hduration, hduration] at hexchange
  rw [SlaCoordinator.longerExchange]
  refine ⟨by omega, ?_⟩
  rw [← hmax, ← hexchange, ← hduration (s.nextRef .bcFrame)]
  refine toNat_sub_longer ?_ ?_ ?_
  · rw [le_def, hduration, hmax]
    omega
  · rw [le_def, hexchange, hmax]
    omega
  · rw [le_def, hmax]
    omega
/-- **The length of the timeslot**: whatever has been observed, the computation of the next length
does not overflow, the length is no more than the default one, and it is enough for the exchange of
all frames and ACKs that are no longer than the reference lengths and than the largest lengths. -/
theorem sla_timeslot_length (b : SlaBuild) (es : List SlaEvent) :
    let s := (SlaCoordinator.after b es).slaDetermineNextTimeslotLength b
    let length := s.nextTimeslotLength.toNat
    (b.txOffset.toNat + b.longestExchange ≤ defaultTimeslotLength.toNat ∧
      s.longerExchange b ≤ b.longestExchange ∧
      length = defaultTimeslotLength.toNat - (b.longestExchange - s.longerExchange b)) ∧
    length ≤ defaultTimeslotLength.toNat ∧
    (∀ frame ≤ (s.nextRef .bcFrame).toNat,
      b.txOffset.toNat + slaCalculateDuration frame + b.margin ≤ length) ∧
    ∀ frame ≤ (s.nextRef .ucFrame).toNat, ∀ ack ≤ (s.nextRef .ack).toNat, ack ≤ b.slaMaxAckLen →
      b.txOffset.toNat + slaCalculateDuration frame + b.txAckDelay.toNat +
        slaCalculateDuration ack + b.margin ≤ length := by
  intro s length
  have ⟨hack, hfit⟩ := b.times
  have ⟨hle, hlength⟩ := toNat_slaCalculateTimeslotLength b s
  have hlength : length + b.longestExchange = defaultTimeslotLength.toNat + s.longerExchange b :=
    hlength
  have hrefs : RefOk s := (RefOk.after b es).determine
  have hbc : (s.nextRef .bcFrame).toNat ≤ 128 := hrefs .bcFrame
  have huc : (s.nextRef .ucFrame).toNat ≤ 128 := hrefs .ucFrame
  have hmaxTx : defaultMaxTx.toNat = slaCalculateDuration 128 := rfl
  have hlonger : s.longerExchange b = max _ _ := rfl
  simp only [hmaxTx, hack, slaRefDuration, slaCalculateDuration] at hlonger
  rw [SlaBuild.margin]
  refine ⟨⟨hfit, hle, by omega⟩, by omega, fun frame hframe => ?_, fun frame hframe ack hackLe hmax => ?_⟩
  · simp only [slaCalculateDuration]
    omega
  · simp only [slaCalculateDuration]
    omega

/-- With OST, an ACK of 66 bytes is rounded to a reference length of 72, which is more than the
largest length: the timeslot, of the default length, is 40 microseconds too short for it. -/
theorem rounded_ack_too_long :
    let s := (SlaCoordinator.after ostBuild [.ucFrame 125, .ack 66]).slaDetermineNextTimeslotLength
      ostBuild
    (s.nextRef .ucFrame = 128 ∧ s.nextRef .ack = 72 ∧ s.nextTimeslotLength = 10000) ∧
      s.nextTimeslotLength.toNat + 40 = ostBuild.txOffset.toNat + slaCalculateDuration 128 +
        ostBuild.txAckDelay.toNat + slaCalculateDuration 72 := by
  decide

end Asap.Tsch
