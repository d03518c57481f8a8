import Mathlib.Tactic.Ring
import Asap.Tsch.SlotOperation

/-!
# The slot clock and the ASN

`currentSlotStart` and `tschCurrentAsn` are advanced by two computations. The ASN
takes the extra slots of an overrun once, at the end of the slot, and each pass of
the re-scheduling loop adds the slots to the next link. The clock takes the extra
slots in the loop, where every pass adds them again unless the bookkeeping of an
aggregated exchange has cleared them.

`asnSlots` and `clockSlots` are what the two are advanced by over a list of passes,
for any schedule, and `slotOperation_asn` and `slotOperation_start` say that this is
all that happens. The clock is aligned exactly as far as the two sums agree, so the
rest of the file compares them: they agree when at most the first pass adds extra
slots, and when that sum fits 16 bits.

## Main definitions

* `Aligned` — the law of the clock over one interval.
* `ClockCondition` — the condition under which an interval obeys it.
-/

namespace Asap.Tsch.SlotOperation

variable {w : ℕ} {σ ε : Type*} {cfg : SlotConfig w} {sched : Scheduler σ ε}

/-- A sum of two clock values, as a number: it wraps around at most once. -/
theorem clock_add_mod {m a b : ℕ} (ha : a < m) (hb : b < m) :
    (a + b) % m = if a + b < m then a + b else a + b - m := by
  split
  · rename_i hlt
    exact Nat.mod_eq_of_lt hlt
  · rename_i hge
    rw [Nat.mod_eq_sub_mod (Nat.le_of_not_lt hge), Nat.mod_eq_of_lt (by omega)]

/-- **A deadline is missed** exactly when its time has come, also when the clock has wrapped around
on the way to it or to the current time. The times are counted without wrapping. -/
theorem checkTimerMiss_iff {refTime offset now : ℕ} (hnow : refTime ≤ now)
    (hoffset : offset < 2 ^ (w - 1)) (helapsed : now - refTime < 2 ^ (w - 1)) :
    checkTimerMiss (BitVec.ofNat w refTime) (BitVec.ofNat w offset) (BitVec.ofNat w now) = true ↔
      refTime + offset ≤ now := by
  have hhalf : 2 ^ (w - 1) ≤ 2 ^ w := Nat.pow_le_pow_right (by decide) (Nat.sub_le w 1)
  obtain ⟨elapsed, rfl⟩ := Nat.exists_eq_add_of_le hnow
  rw [Nat.add_sub_cancel_left] at helapsed
  obtain ⟨m, hm⟩ : ∃ m, m = 2 ^ w := ⟨_, rfl⟩
  obtain ⟨r, hr⟩ : ∃ r, r = refTime % m := ⟨_, rfl⟩
  have hrm : r < m := hr ▸ Nat.mod_lt _ (hm ▸ Nat.two_pow_pos w)
  have htarget := clock_add_mod hrm (show offset < m by omega)
  have hlater := clock_add_mod hrm (show elapsed < m by omega)
  simp only [checkTimerMiss, BitVec.lt_def, BitVec.le_def, BitVec.toNat_add, BitVec.toNat_ofNat,
    ← hm, Nat.add_mod refTime elapsed, ← hr, Nat.mod_eq_of_lt (show offset < m by omega),
    Nat.mod_eq_of_lt (show elapsed < m by omega), htarget, hlater]
  -- whether the target and the current time have wrapped around
  by_cases htargetWraps : r + offset < m <;> by_cases hnowWraps : r + elapsed < m <;>
    simp only [htargetWraps, hnowWraps, if_true, if_false, decide_eq_decide]
  · rw [if_pos (by omega), decide_eq_true_iff]
    omega
  · rw [if_neg (by omega), decide_eq_true_iff]
    omega
  · rw [if_neg (by omega), decide_eq_true_iff]
    omega
  · rw [if_pos (by omega), decide_eq_true_iff]
    omega

/-- A clock of 16 bits that wraps around before the deadline. -/
theorem checkTimerMiss_wrapped : (65530 ≤ 65545 ∧ 10 < 2 ^ (16 - 1) ∧ 65545 - 65530 < 2 ^ (16 - 1)) ∧
    (checkTimerMiss (BitVec.ofNat 16 65530) (BitVec.ofNat 16 10) (BitVec.ofNat 16 65545) = true ↔
      65530 + 10 ≤ 65545) :=
  ⟨by decide, checkTimerMiss_iff (by decide) (by decide) (by decide)⟩

/-- The slots the passes advance the ASN by. -/
def asnSlots (sched : Scheduler σ ε) : SlotOperation w σ → List (Pass w) → ℕ
  | _, [] => 0
  | s, p :: ps => (s.clearAfterUpaLink.lookup sched).2.toNat +
      asnSlots sched (s.reschedulePass sched p) ps

/-- The slots the passes advance the clock by. -/
def clockSlots (sched : Scheduler σ ε) : SlotOperation w σ → List (Pass w) → ℕ
  | _, [] => 0
  | s, p :: ps =>
    (clockTimeslotDiff s.clearAfterUpaLink.asapCurrPassedTimeslotsExceptFirstSlot
      (s.clearAfterUpaLink.lookup sched).2).toNat +
      clockSlots sched (s.reschedulePass sched p) ps

/-- The adaptive compensation of the passes; none in the pass right after an
aggregated exchange. -/
def appliedCompensation : Bool → List (Pass w) → ℤ
  | _, [] => 0
  | upaLinkFinished, p :: ps =>
    (if upaLinkFinished then 0 else p.adaptiveCompensation) + appliedCompensation false ps

/-! ## One pass -/

section

variable (s : SlotOperation w σ)

@[simp] theorem clearAfterUpaLink_asn :
    s.clearAfterUpaLink.tschCurrentAsn = s.tschCurrentAsn := by
  simp only [clearAfterUpaLink]; split <;> rfl

@[simp] theorem clearAfterUpaLink_start :
    s.clearAfterUpaLink.currentSlotStart = s.currentSlotStart := by
  simp only [clearAfterUpaLink]; split <;> rfl

@[simp] theorem clearAfterUpaLink_length :
    s.clearAfterUpaLink.timeslotLength = s.timeslotLength := by
  simp only [clearAfterUpaLink]; split <;> rfl

@[simp] theorem clearAfterUpaLink_drift :
    s.clearAfterUpaLink.driftCorrection = s.driftCorrection := by
  simp only [clearAfterUpaLink]; split <;> rfl

@[simp] theorem clearAfterUpaLink_finished :
    s.clearAfterUpaLink.upaLinkFinished = s.upaLinkFinished := by
  simp only [clearAfterUpaLink]; split <;> rfl

@[simp] theorem clearAfterUpaLink_schedule :
    s.clearAfterUpaLink.upaScheduleAfterUpaLink = false := by
  unfold clearAfterUpaLink
  split
  · rfl
  · rename_i h
    exact Bool.eq_false_iff.mpr h

theorem clearAfterUpaLink_exceptFirst :
    s.clearAfterUpaLink.asapCurrPassedTimeslotsExceptFirstSlot =
      if s.upaScheduleAfterUpaLink then 0 else s.asapCurrPassedTimeslotsExceptFirstSlot := by
  simp only [clearAfterUpaLink]; split <;> rfl

@[simp] theorem clearAfterUpaLink_lookup :
    s.clearAfterUpaLink.lookup sched = s.lookup sched := by
  simp only [clearAfterUpaLink]; split <;> rfl

end

section

variable (p : Pass w) (s : SlotOperation w σ)

@[simp] theorem reschedulePass_length :
    (s.reschedulePass sched p).timeslotLength = s.timeslotLength := by
  simp [reschedulePass]

@[simp] theorem reschedulePass_drift :
    (s.reschedulePass sched p).driftCorrection = 0 := rfl

@[simp] theorem reschedulePass_finished :
    (s.reschedulePass sched p).upaLinkFinished = false := rfl

@[simp] theorem reschedulePass_schedule :
    (s.reschedulePass sched p).upaScheduleAfterUpaLink = s.upaLinkFinished := by
  simp [reschedulePass]

@[simp] theorem reschedulePass_exceptFirst :
    (s.reschedulePass sched p).asapCurrPassedTimeslotsExceptFirstSlot =
      s.clearAfterUpaLink.asapCurrPassedTimeslotsExceptFirstSlot := rfl

@[simp] theorem reschedulePass_asn :
    (s.reschedulePass sched p).tschCurrentAsn =
      s.tschCurrentAsn.inc ((s.lookup sched).2.setWidth 32) := by
  simp [reschedulePass]

@[simp] theorem reschedulePass_start :
    (s.reschedulePass sched p).currentSlotStart =
      s.currentSlotStart + s.clearAfterUpaLink.timeToNextActiveSlot sched p := by
  simp [reschedulePass]

end

/-- Advancing by a 16-bit number of slots. -/
theorem val_inc_setWidth (asn : TschAsn) (d : BitVec 16) :
    (asn.inc (d.setWidth 32)).val = (asn.val + d.toNat) % 2 ^ 40 := by
  have h : (d.setWidth 32).toNat = d.toNat := by
    rw [BitVec.toNat_setWidth]
    exact Nat.mod_eq_of_lt (by have := d.isLt; omega)
  rw [TschAsn.val_inc, h]

/-- Adding no extra slots is adding zero, so the guard of the source changes nothing. -/
theorem clockTimeslotDiff_eq (e d : BitVec 16) : clockTimeslotDiff e d = d + e := by
  unfold clockTimeslotDiff
  split
  · rfl
  · rename_i h
    have he : e = 0 := by
      apply BitVec.eq_of_toNat_eq
      have : ¬ 0 < e.toNat := h
      simpa using this
    rw [he]
    simp

/-! ## The loop -/

/-- **The induction rule for the loop.** What one pass establishes holds at the end,
when it is also enough for the next pass. -/
theorem reschedule_induction {P : SlotOperation w σ → Prop} (Pre Post : SlotOperation w σ → Prop)
    (hpass : ∀ s p, P s → Pre s → Post (s.reschedulePass sched p)) (hnext : ∀ s, Post s → Pre s)
    {s s' : SlotOperation w σ} {ps : List (Pass w)} (hs : Pre s)
    (hcond : Lib.Along (fun s p => some (s.reschedulePass sched p)) (fun s _ => P s) s ps)
    (h : s.reschedule cfg sched ps = some s') : Post s' := by
  induction ps generalizing s with
  | nil => cases h
  | cons p ps ih =>
      obtain ⟨hP, hcond⟩ := (Lib.along_cons rfl).mp hcond
      have hpost := hpass s p hP hs
      simp only [reschedule] at h
      split at h
      · split at h
        · cases h
          exact hpost
        · cases h
      · exact ih (hnext _ hpost) hcond h

/-- The same rule for the loop of `tsch_slot_operation_start`. -/
theorem slotOperationStart_induction {P : SlotOperation w σ → Prop}
    (Pre Post : SlotOperation w σ → Prop)
    (hpass : ∀ s p, P s → Pre s → Post (s.startPass sched p)) (hnext : ∀ s, Post s → Pre s)
    {s s' : SlotOperation w σ} {ps : List (Pass w)} (hs : Pre s)
    (hcond : Lib.Along (fun s p => some (s.startPass sched p)) (fun s _ => P s) s ps)
    (h : s.slotOperationStart cfg sched ps = some s') : Post s' := by
  induction ps generalizing s with
  | nil => cases h
  | cons p ps ih =>
      obtain ⟨hP, hcond⟩ := (Lib.along_cons rfl).mp hcond
      have hpost := hpass s p hP hs
      simp only [slotOperationStart] at h
      split at h
      · split at h
        · cases h
          exact hpost
        · cases h
      · exact ih (hnext _ hpost) hcond h

/-- **The loop advances the ASN by `asnSlots`**, for any schedule. -/
theorem reschedule_asn {s s' : SlotOperation w σ} {ps : List (Pass w)}
    (h : s.reschedule cfg sched ps = some s') :
    s'.tschCurrentAsn.val = (s.tschCurrentAsn.val + asnSlots sched s ps) % 2 ^ 40 := by
  induction ps generalizing s with
  | nil => cases h
  | cons p ps ih =>
      have hpass : (s.reschedulePass sched p).tschCurrentAsn.val =
          (s.tschCurrentAsn.val + (s.lookup sched).2.toNat) % 2 ^ 40 := by
        rw [reschedulePass_asn, val_inc_setWidth]
      simp only [reschedule] at h
      split at h
      · split at h
        · rename_i hnil
          rw [List.isEmpty_iff.mp hnil]
          cases h
          rw [hpass, asnSlots, asnSlots, clearAfterUpaLink_lookup, Nat.add_zero]
        · cases h
      · rw [ih h, hpass, asnSlots, clearAfterUpaLink_lookup]
        omega

/-- **The loop advances the clock by `clockSlots` timeslots**, the drift correction
found at its start and the compensation of its passes. -/
theorem reschedule_start {s s' : SlotOperation w σ} {ps : List (Pass w)}
    (h : s.reschedule cfg sched ps = some s') :
    s'.currentSlotStart = s.currentSlotStart +
      BitVec.ofNat w (clockSlots sched s ps) * s.timeslotLength +
      BitVec.ofInt w (s.driftCorrection + appliedCompensation s.upaLinkFinished ps) := by
  induction ps generalizing s with
  | nil => cases h
  | cons p ps ih =>
      simp only [reschedule] at h
      split at h
      · split at h
        · rename_i hnil
          rw [List.isEmpty_iff.mp hnil]
          cases h
          simp only [reschedulePass_start, timeToNextActiveSlot, clockSlots,
            appliedCompensation, BitVec.ofInt_add, clearAfterUpaLink_length,
            clearAfterUpaLink_drift, clearAfterUpaLink_finished, add_zero]
          ring
        · cases h
      · rw [ih h]
        simp only [reschedulePass_start, reschedulePass_length, reschedulePass_drift,
          reschedulePass_finished, timeToNextActiveSlot, clockSlots, appliedCompensation,
          BitVec.ofNat_add, BitVec.ofInt_add, clearAfterUpaLink_length,
          clearAfterUpaLink_drift, clearAfterUpaLink_finished, zero_add]
        ring

/-- No pass adds extra slots once they are zero, or about to be cleared. -/
theorem clockSlots_eq_asnSlots {s : SlotOperation w σ}
    (h : s.asapCurrPassedTimeslotsExceptFirstSlot = 0 ∨ s.upaScheduleAfterUpaLink = true)
    (ps : List (Pass w)) : clockSlots sched s ps = asnSlots sched s ps := by
  have hclear : s.clearAfterUpaLink.asapCurrPassedTimeslotsExceptFirstSlot = 0 := by
    rw [clearAfterUpaLink_exceptFirst]
    rcases h with h | h <;> simp [h]
  induction ps generalizing s with
  | nil => rfl
  | cons p ps ih =>
      have hpass : (s.reschedulePass sched p).asapCurrPassedTimeslotsExceptFirstSlot = 0 :=
        hclear
      have hnext : (s.reschedulePass sched p).clearAfterUpaLink.asapCurrPassedTimeslotsExceptFirstSlot
          = 0 := by
        rw [clearAfterUpaLink_exceptFirst, hpass, ite_self]
      rw [clockSlots, asnSlots, ih (Or.inl hpass) hnext, hclear, clockTimeslotDiff_eq]
      simp

/-! ## One interval -/

section

variable (cfg : SlotConfig w)

/-- The timeslots beyond the first that a slot takes, from the clock alone. -/
def extraTimeslots (s : SlotOperation w σ) (o : SlotOutcome w ε) :
    BitVec 16 :=
  asapPassedTimeslots (s.slaTrigger cfg).timeslotLength s.currentSlotStart o.slotEnd - 1

section

variable (sched : Scheduler σ ε) (s : SlotOperation w σ) (o : SlotOutcome w ε)

/-- The slot runs an aggregated exchange, or one is still waiting for its wake-up. -/
def aggregated : Bool :=
  s.upaLinkFinished || (!(s.slaTrigger cfg).skips sched && o.upaLinkScheduled)

/-- The drift correction the re-scheduling loop finds: a skipped slot measures none. -/
def measuredDrift : ℤ :=
  if (s.slaTrigger cfg).skips sched then s.driftCorrection else o.driftCorrection

/-- The schedule at the end of the slot, after what the process context has done. -/
def schedAfter : σ :=
  if (s.slaTrigger cfg).skips sched then s.sched
  else (o.during.foldl (process cfg sched) (s.slaTrigger cfg).clearAfterUpaLink).sched

/-- The number of slots to the first link the loop looks up. -/
def firstTimeslotDiff : BitVec 16 :=
  (nextTimeslotDiff sched (s.tschCurrentAsn.inc ((s.extraTimeslots cfg o).setWidth 32))
    (sched.updateAllBackoffWindows (s.schedAfter cfg sched o))).2

end

end

/-- The variables of the slot clock, which the process context does not write. -/
structure SameClock (s t : SlotOperation w σ) : Prop where
  asn : t.tschCurrentAsn = s.tschCurrentAsn
  start : t.currentSlotStart = s.currentSlotStart
  length : t.timeslotLength = s.timeslotLength
  exceptFirst : t.asapCurrPassedTimeslotsExceptFirstSlot = s.asapCurrPassedTimeslotsExceptFirstSlot
  finished : t.upaLinkFinished = s.upaLinkFinished
  schedule : t.upaScheduleAfterUpaLink = s.upaScheduleAfterUpaLink
  drift : t.driftCorrection = s.driftCorrection

theorem SameClock.refl (s : SlotOperation w σ) : SameClock s s :=
  ⟨rfl, rfl, rfl, rfl, rfl, rfl, rfl⟩

theorem SameClock.trans {s t u : SlotOperation w σ} (h : SameClock s t) (h' : SameClock t u) :
    SameClock s u :=
  ⟨h'.asn.trans h.asn, h'.start.trans h.start, h'.length.trans h.length,
    h'.exceptFirst.trans h.exceptFirst, h'.finished.trans h.finished,
    h'.schedule.trans h.schedule, h'.drift.trans h.drift⟩

theorem process_sameClock (cfg : SlotConfig w) (sched : Scheduler σ ε)
    (s : SlotOperation w σ) (e : ProcessEvent ε) :
    SameClock s (s.process cfg sched e) := by
  cases e with
  | ebInput trig curr next =>
      by_cases h : s.timeslotLengthUs ≠ curr
      · simp only [process, ebInput, if_pos h]
        exact ⟨rfl, rfl, rfl, rfl, rfl, rfl, rfl⟩
      · simp only [process, ebInput, if_neg h]
        exact ⟨rfl, rfl, rfl, rfl, rfl, rfl, rfl⟩
  | slaDetermine asn hopsTtl hopsDao next => exact ⟨rfl, rfl, rfl, rfl, rfl, rfl, rfl⟩
  | lock requested => exact ⟨rfl, rfl, rfl, rfl, rfl, rfl, rfl⟩
  | schedule e => exact ⟨rfl, rfl, rfl, rfl, rfl, rfl, rfl⟩

theorem foldl_process_sameClock (cfg : SlotConfig w) (sched : Scheduler σ ε)
    (es : List (ProcessEvent ε)) (s : SlotOperation w σ) :
    SameClock s (es.foldl (process cfg sched) s) := by
  induction es generalizing s with
  | nil => exact SameClock.refl s
  | cons e es ih => exact (process_sameClock cfg sched s e).trans (ih (s.process cfg sched e))

section

variable (s : SlotOperation w σ)

@[simp] theorem slaTrigger_asn :
    (s.slaTrigger cfg).tschCurrentAsn = s.tschCurrentAsn := by
  simp only [slaTrigger, slaApplyNextTimeslotLength]; split_ifs <;> rfl

@[simp] theorem slaTrigger_start :
    (s.slaTrigger cfg).currentSlotStart = s.currentSlotStart := by
  simp only [slaTrigger, slaApplyNextTimeslotLength]; split_ifs <;> rfl

@[simp] theorem slaTrigger_drift :
    (s.slaTrigger cfg).driftCorrection = s.driftCorrection := by
  simp only [slaTrigger, slaApplyNextTimeslotLength]; split_ifs <;> rfl

@[simp] theorem slaTrigger_finished :
    (s.slaTrigger cfg).upaLinkFinished = s.upaLinkFinished := by
  simp only [slaTrigger, slaApplyNextTimeslotLength]; split_ifs <;> rfl

@[simp] theorem slaTrigger_sched :
    (s.slaTrigger cfg).sched = s.sched := by
  simp only [slaTrigger, slaApplyNextTimeslotLength]; split_ifs <;> rfl

@[simp] theorem clearAfterUpaLink_skips :
    s.clearAfterUpaLink.skips sched = s.skips sched := by
  simp only [clearAfterUpaLink]; split <;> rfl

@[simp] theorem clearAfterUpaLink_sched :
    s.clearAfterUpaLink.sched = s.sched := by
  simp only [clearAfterUpaLink]; split <;> rfl

end

section

variable (cfg : SlotConfig w) (sched : Scheduler σ ε) (s : SlotOperation w σ) (o : SlotOutcome w ε)

/-- **What the re-scheduling loop finds**: everything it reads, from the state at the
wake-up and the outcome of the slot. -/
theorem endOfSlot_spec :
    let t := s.endOfSlot cfg sched o
    t.tschCurrentAsn = s.tschCurrentAsn.inc ((s.extraTimeslots cfg o).setWidth 32) ∧
      t.currentSlotStart = s.currentSlotStart ∧
      t.timeslotLength = (s.slaTrigger cfg).timeslotLength ∧
      t.asapCurrPassedTimeslotsExceptFirstSlot = s.extraTimeslots cfg o ∧
      t.upaLinkFinished = s.aggregated cfg sched o ∧
      t.upaScheduleAfterUpaLink = false ∧
      t.driftCorrection = s.measuredDrift cfg sched o ∧
      t.sched = s.schedAfter cfg sched o := by
  have hclock := foldl_process_sameClock cfg sched o.during (s.slaTrigger cfg).clearAfterUpaLink
  unfold endOfSlot asapCountPassedTimeslots executeSlot extraTimeslots aggregated measuredDrift
    schedAfter
  by_cases h : (s.slaTrigger cfg).skips sched = true
  · simp [h]
  · simp [Bool.eq_false_iff.mpr h, hclock.asn, hclock.start, hclock.length, hclock.schedule]

/-- The law of the slot clock over one interval: the clock advances by the slots the
ASN advances by, times the timeslot length, and by the corrections. -/
def Aligned (ps : List (Pass w)) (s' : SlotOperation w σ) : Prop :=
  ∃ slots : ℕ, slots < 2 ^ 16 * (ps.length + 1) ∧
    s'.tschCurrentAsn.val = (s.tschCurrentAsn.val + slots) % 2 ^ 40 ∧
    s'.currentSlotStart = s.currentSlotStart +
      BitVec.ofNat w slots * (s.slaTrigger cfg).timeslotLength +
      BitVec.ofInt w (s.measuredDrift cfg sched o +
        appliedCompensation (s.aggregated cfg sched o) ps)

/-- The condition on an interval: the slot takes no extra timeslots, or is an
aggregated exchange, or the first deadline is met; and the extra slots and the slots
to the next link fit 16 bits together. -/
def ClockCondition (ps : List (Pass w)) : Prop :=
  (s.extraTimeslots cfg o = 0 ∨ s.aggregated cfg sched o = true ∨ ps.length = 1) ∧
    (s.extraTimeslots cfg o).toNat + (s.firstTimeslotDiff cfg sched o).toNat < 2 ^ 16

end

theorem asnSlots_le (sched : Scheduler σ ε) (s : SlotOperation w σ) (ps : List (Pass w)) :
    asnSlots sched s ps ≤ 2 ^ 16 * ps.length := by
  induction ps generalizing s with
  | nil => exact Nat.le_refl _
  | cons p ps ih =>
      have h1 := ih (s.reschedulePass sched p)
      have h2 := (s.clearAfterUpaLink.lookup sched).2.isLt
      rw [asnSlots, List.length_cons]
      omega

/-- Under the condition the clock takes the extra slots exactly once. -/
theorem clockSlots_endOfSlot {s s' : SlotOperation w σ} {o : SlotOutcome w ε}
    {ps : List (Pass w)} (hc : ClockCondition cfg sched s o ps)
    (h : (s.endOfSlot cfg sched o).reschedule cfg sched ps = some s') :
    clockSlots sched (s.endOfSlot cfg sched o) ps =
      (s.extraTimeslots cfg o).toNat + asnSlots sched (s.endOfSlot cfg sched o) ps := by
  obtain ⟨hretry, hfit⟩ := hc
  obtain ⟨hasn, -, -, hexcept, hfin, hsch, -, hsched⟩ := endOfSlot_spec cfg sched s o
  have hlookup : ((s.endOfSlot cfg sched o).lookup sched).2 = s.firstTimeslotDiff cfg sched o := by
    rw [lookup, hasn, hsched, firstTimeslotDiff]
  have hclear : (s.endOfSlot cfg sched o).clearAfterUpaLink.asapCurrPassedTimeslotsExceptFirstSlot
      = s.extraTimeslots cfg o := by
    rw [clearAfterUpaLink_exceptFirst, hsch, hexcept]
    rfl
  cases ps with
  | nil => cases h
  | cons p ps =>
      have hfirst : (clockTimeslotDiff (s.extraTimeslots cfg o)
          (s.firstTimeslotDiff cfg sched o)).toNat =
          (s.firstTimeslotDiff cfg sched o).toNat + (s.extraTimeslots cfg o).toNat := by
        rw [clockTimeslotDiff_eq, BitVec.toNat_add]
        exact Nat.mod_eq_of_lt (by omega)
      have hrest : clockSlots sched ((s.endOfSlot cfg sched o).reschedulePass sched p) ps =
          asnSlots sched ((s.endOfSlot cfg sched o).reschedulePass sched p) ps := by
        rcases hretry with he | hagg | hone
        · refine clockSlots_eq_asnSlots (Or.inl ?_) ps
          rw [reschedulePass_exceptFirst, hclear, he]
        · refine clockSlots_eq_asnSlots (Or.inr ?_) ps
          rw [reschedulePass_schedule, hfin, hagg]
        · have hnil : ps = [] := by simpa using hone
          rw [hnil]
          rfl
      rw [clockSlots, asnSlots, hclear, clearAfterUpaLink_lookup, hlookup, hfirst, hrest]
      omega

/-- **One interval keeps the clock aligned** when it meets the condition. -/
theorem slotOperation_aligned {s s' : SlotOperation w σ} {o : SlotOutcome w ε}
    {ps : List (Pass w)} (hc : ClockCondition cfg sched s o ps)
    (h : s.slotOperation cfg sched o ps = some s') : Aligned cfg sched s o ps s' := by
  obtain ⟨hasn, hstart, hlen, -, hfin, -, hdrift, -⟩ := endOfSlot_spec cfg sched s o
  have hloop : (s.endOfSlot cfg sched o).reschedule cfg sched ps = some s' := by
    unfold slotOperation at h
    split at h
    · dsimp only at h
      split at h
      · cases h
      · exact h
    · cases h
  refine ⟨(s.extraTimeslots cfg o).toNat + asnSlots sched (s.endOfSlot cfg sched o) ps, ?_, ?_, ?_⟩
  · have h1 := asnSlots_le sched (s.endOfSlot cfg sched o) ps
    have h2 := (s.extraTimeslots cfg o).isLt
    omega
  · rw [reschedule_asn hloop, hasn, val_inc_setWidth]
    omega
  · rw [reschedule_start hloop, hstart, hlen, hfin, hdrift, clockSlots_endOfSlot hc hloop]

/-- A slot that overruns by one timeslot and then misses its first deadline by five
microseconds: the second pass adds the extra timeslot to the clock once more, so the
node is one timeslot late with respect to its ASN. -/
theorem overrun_retry_not_aligned :
    let s := minimalNode 1000 1000000
    let o : SlotOutcome 64 Unit := ⟨1019990, 0, false, true, []⟩
    let ps : List (Pass 64) := [⟨0, 1020005, true⟩, ⟨0, 1020010, true⟩]
    ∃ s', s.slotOperation (coojaConfig true) minimalSchedule o ps = some s' ∧
      s'.tschCurrentAsn = .ofNat 1003 ∧ s'.currentSlotStart = 1040000 ∧
      ¬ Aligned (coojaConfig true) minimalSchedule s o ps s' := by
  intro s o ps
  have hrun : (s.slotOperation (coojaConfig true) minimalSchedule o ps).map
      (fun t => (t.tschCurrentAsn, t.currentSlotStart)) = some (.ofNat 1003, 1040000) := by
    decide
  obtain ⟨s', hs', heq⟩ := Option.map_eq_some_iff.mp hrun
  have hasn : s'.tschCurrentAsn = .ofNat 1003 := congrArg Prod.fst heq
  have hstart : s'.currentSlotStart = 1040000 := congrArg Prod.snd heq
  refine ⟨s', hs', hasn, hstart, ?_⟩
  rintro ⟨slots, hlt, hval, hclock⟩
  have hslots : slots = 3 := by
    rw [hasn] at hval
    have hv : (TschAsn.ofNat 1003).val = 1003 := by decide
    have hs : s.tschCurrentAsn.val = 1000 := by decide
    rw [hv, hs] at hval
    have hps : ps.length = 2 := rfl
    omega
  rw [hstart, hslots] at hclock
  revert hclock
  decide

/-! ## Runs -/

/-- The condition on an event of a run. -/
def ClockConditionAt (cfg : SlotConfig w) (sched : Scheduler σ ε) (s : SlotOperation w σ) :
    SlotEvent w ε → Prop
  | .slot o ps => ClockCondition cfg sched s o ps
  | _ => True

/-- The process context leaves the slot clock alone between two wake-ups. -/
theorem run_process_sameClock {s t : SlotOperation w σ} {es : List (ProcessEvent ε)}
    (h : Lib.run (step cfg sched) s (es.map .process) = some t) : SameClock s t := by
  induction es generalizing s with
  | nil => cases h; exact SameClock.refl _
  | cons e es ih =>
      obtain ⟨u, hu, hrun⟩ := Lib.run_cons_eq_some.mp h
      cases hu
      exact (process_sameClock cfg sched s e).trans (ih hrun)

/-- **The slot clock stays aligned with the ASN.** In every run that meets the
condition, from any state, the clock and the ASN advance together from each wake-up
to the next one, whatever the process context does in between. -/
theorem consecutive_wakeups_aligned {s₀ s t : SlotOperation w σ}
    {before : List (SlotEvent w ε)} {between : List (ProcessEvent ε)} {o : SlotOutcome w ε}
    {ps : List (Pass w)} (hbefore : Lib.run (step cfg sched) s₀ before = some s)
    (hslot : Lib.run (step cfg sched) s (.slot o ps :: between.map .process) = some t)
    (hcond : Lib.Along (step cfg sched) (ClockConditionAt cfg sched) s₀
      (before ++ .slot o ps :: between.map .process)) :
    Aligned cfg sched s o ps t := by
  obtain ⟨s', hs', hrun⟩ := Lib.run_cons_eq_some.mp hslot
  have hc : ClockCondition cfg sched s o ps :=
    ((Lib.along_cons hs').mp ((Lib.along_append hbefore).mp hcond).2).1
  obtain ⟨slots, hlt, hasn, hstart⟩ := slotOperation_aligned hc hs'
  have hclock := run_process_sameClock hrun
  exact ⟨slots, hlt, by rw [hclock.asn, hasn], by rw [hclock.start, hstart]⟩

instance (cfg : SlotConfig w) (sched : Scheduler σ ε) (s : SlotOperation w σ) :
    (e : SlotEvent w ε) → Decidable (ClockConditionAt cfg sched s e)
  | .slot o ps => by unfold ClockConditionAt ClockCondition; infer_instance
  | .associate .. => isTrue trivial
  | .process .. => isTrue trivial

/-- A slot in time, then an overrun of one timeslot with a request of the lock before
the next wake-up: the clock stays aligned over the overrun. -/
theorem consecutive_wakeups_aligned_overrun :
    let before : List (SlotEvent 64 Unit) :=
      [.slot ⟨1004000, 0, false, true, []⟩ [⟨0, 1004010, true⟩]]
    let o : SlotOutcome 64 Unit := ⟨1029990, 7, false, true, []⟩
    let ps : List (Pass 64) := [⟨2, 1029995, true⟩]
    ∃ s t, Lib.run (step (coojaConfig true) minimalSchedule) (minimalNode 1000 1000000) before
        = some s ∧ s.slotOperation (coojaConfig true) minimalSchedule o ps = some t ∧
      Aligned (coojaConfig true) minimalSchedule s o ps { t with tschLockRequested := true } := by
  intro before o ps
  obtain ⟨s, hs⟩ := Option.isSome_iff_exists.mp
    (by decide : (Lib.run (step (coojaConfig true) minimalSchedule) (minimalNode 1000 1000000)
      before).isSome = true)
  obtain ⟨t, ht⟩ := Option.isSome_iff_exists.mp
    (by decide : (((Lib.run (step (coojaConfig true) minimalSchedule) (minimalNode 1000 1000000)
      before).bind fun s => s.slotOperation (coojaConfig true) minimalSchedule o ps)).isSome = true)
  rw [hs, Option.bind_some] at ht
  have hslot : Lib.run (step (coojaConfig true) minimalSchedule) s
      (.slot o ps :: [ProcessEvent.lock true].map .process) =
      some { t with tschLockRequested := true } :=
    Lib.run_cons_eq_some.mpr ⟨t, ht, rfl⟩
  exact ⟨s, t, hs, ht, consecutive_wakeups_aligned hs hslot (by decide)⟩

end Asap.Tsch.SlotOperation
