import Asap.Tsch.NextActiveLink

/-!
# The slots that follow

With on-demand provisioning two neighbors agree on one more slot for the packets that wait. The
sender tells which of the next 16 slots it uses, and the receiver takes the first one that neither
of them does.

A node finds its slots with an array of 16 bytes that it does not clear. It marks a link of each
slotframe at its next time only, so a slotframe shorter than 16 slots comes again without a mark,
and under the lock it marks no link at all.

## Main definitions

* `tschScheduleGetSubsequentSchedule`, `ostSelectMatchingSchedule` — the functions.
* `Occupied` — a link or a matched slot falls on one of the next slots.
* `SeesOccupied` — the marks are those of the occupied slots.
-/

namespace Asap.Ost

open Asap.Tsch

/-- The schedule, whose timeslots are inside their slotframes, and the ASNs of the slots that have
been matched. -/
structure SsqState where
  schedule : TschSchedule
  ostSsqScheduleList : List TschAsn
  timeslot_lt : ∀ sf ∈ schedule.slotframeList, ∀ l ∈ sf.linksList,
    (schedule.links l).timeslot.toNat < sf.size.toNat

/-- The array `used`; an entry of it is read at the places from 0 to 15. -/
abbrev Used := ℤ → BitVec 8

/-- A link in `tsch_schedule_get_subsequent_schedule`. -/
def markLink (asn : TschAsn) (size : BitVec 16) (used : Used) (timeslot : BitVec 16) : Used :=
  let place : ℤ := (timeToTimeslot asn size timeslot).toNat - 1
  if place < 16 then Function.update used place 1 else used

/-- A slot that has been matched, in `tsch_schedule_get_subsequent_schedule`. -/
def markSsq (asn : TschAsn) (used : Used) (ssqAsn : TschAsn) : Used :=
  if ssqAsn.ls4b = 0 ∧ ssqAsn.ms1b = 0 then used
  else
    let timeToTimeslot := BitVec.ofNat 64 ssqAsn.val - BitVec.ofNat 64 asn.val
    if 0 < timeToTimeslot ∧ timeToTimeslot - 1 < 16 then
      Function.update used (timeToTimeslot.toNat - 1) 1
    else used

/-- The bits of the places that are 1. -/
def ssqScheduleOf (used : Used) : BitVec 16 :=
  (List.range 16).foldl (fun ssqSchedule (i : ℕ) =>
    if used i = 1 then ssqSchedule ||| 1#16 <<< i else ssqSchedule) 0

namespace SsqState

variable (s : SsqState)

/-- The array when all slotframes and all matched slots have been visited, from what the stack has
in it. -/
def marks (stack : Used) (asn : TschAsn) : Used :=
  let used :=
    if s.schedule.tschLocked then stack
    else s.schedule.slotframeList.foldl (fun used sf => sf.linksList.foldl (fun used l =>
      markLink asn sf.size used (s.schedule.links l).timeslot) used) stack
  s.ostSsqScheduleList.foldl (markSsq asn) used

/-- `tsch_schedule_get_subsequent_schedule` -/
def tschScheduleGetSubsequentSchedule (stack : Used) (asn : TschAsn) : BitVec 16 :=
  ssqScheduleOf (s.marks stack asn)

/-- `ost_select_matching_schedule`, at the current ASN. -/
def ostSelectMatchingSchedule (stack : Used) (tschCurrentAsn : TschAsn)
    (rxScheduleInfo : BitVec 16) : BitVec 16 :=
  let compareSchedule := s.tschScheduleGetSubsequentSchedule stack tschCurrentAsn ||| rxScheduleInfo
  match (List.range 16).find? fun i => compareSchedule.toNat >>> i % 2 == 0 with
  | some i => BitVec.ofNat 16 (i + 1)
  | none => 0xffff

/-! ## What is expected -/

/-- A link falls on the slot `i + 1` after an ASN. -/
def LinkAt (asn : TschAsn) (i : ℕ) (sf : TschSlotframe) (l : LinkId) : Prop :=
  sf ∈ s.schedule.slotframeList ∧ l ∈ sf.linksList ∧
    (asn.val + i + 1) % sf.size.toNat = (s.schedule.links l).timeslot.toNat

/-- A matched slot falls on the slot `i + 1` after an ASN. -/
def MatchedAt (asn : TschAsn) (i : ℕ) : Prop :=
  ∃ ssqAsn ∈ s.ostSsqScheduleList, ssqAsn.val = asn.val + i + 1

/-- The node uses the slot `i + 1` after an ASN. -/
def Occupied (asn : TschAsn) (i : ℕ) : Prop :=
  (∃ sf l, s.LinkAt asn i sf l) ∨ s.MatchedAt asn i

section

variable (stack : Used) (asn : TschAsn)

/-- The bitmap has exactly the slots that the node uses. -/
def BitmapExact : Prop :=
  ∀ i < 16, (s.tschScheduleGetSubsequentSchedule stack asn).getLsbD i = true ↔ s.Occupied asn i

/-- For every bitmap of a sender the slot that is selected is free for both, or there is none. -/
def SelectsFree : Prop :=
  ∀ rxScheduleInfo, s.ostSelectMatchingSchedule stack asn rxScheduleInfo = 0xffff ∨
    ∃ i < 16, s.ostSelectMatchingSchedule stack asn rxScheduleInfo = BitVec.ofNat 16 (i + 1) ∧
      rxScheduleInfo.getLsbD i = false ∧ ¬ s.Occupied asn i

/-- **The condition**: a place that is 1 before is one of a slot in use, and at the place of a link
there is a 1 before, a matched slot, or, without the lock, a link that comes for the first time. -/
def SeesOccupied : Prop :=
  ∀ i : ℕ, i < 16 → (stack i = 1 → s.Occupied asn i) ∧
    ∀ sf l, s.LinkAt asn i sf l → stack i = 1 ∨ s.MatchedAt asn i ∨
      s.schedule.tschLocked = false ∧ ∃ sf l, s.LinkAt asn i sf l ∧ i < sf.size.toNat

end

end SsqState

variable {s : SsqState} {stack used : Used} {asn : TschAsn} {i : ℕ}

/-! ## The bitmap -/

theorem getLsbD_ssqScheduleOf (hi : i < 16) :
    (ssqScheduleOf used).getLsbD i = true ↔ used i = 1 := by
  have hloop : ∀ n : ℕ, ((List.range n).foldl (fun ssqSchedule (i : ℕ) =>
      if used i = 1 then ssqSchedule ||| 1#16 <<< i else ssqSchedule) 0).getLsbD i = true ↔
        i < n ∧ used i = 1 := by
    intro n
    induction n with
    | zero => simp
    | succ n ih =>
      rw [List.range_succ, List.foldl_append, List.foldl_cons, List.foldl_nil]
      by_cases hin : i = n
      · subst hin
        by_cases hused : used i = 1
        · rw [if_pos hused]
          simp [hused, hi]
        · rw [if_neg hused, ih]
          exact iff_of_false (fun h => hused h.2) fun h => hused h.2
      · have hshift : (1#16 <<< n).getLsbD i = false := by
          simp only [BitVec.getLsbD_shiftLeft, BitVec.getLsbD_one]
          simp
          omega
        have hlt : i < n + 1 ↔ i < n := by omega
        split_ifs
        · rw [BitVec.getLsbD_or, hshift, Bool.or_false, ih, hlt]
        · rw [ih, hlt]
  rw [ssqScheduleOf, hloop 16]
  exact and_iff_right hi

/-! ## The marks -/

/-- A loop that marks places, in the place of interest. -/
theorem foldl_mark {α : Type*} {f : Used → α → Used} {P : α → Prop} {as : List α}
    (hf : ∀ a ∈ as, ∀ used, f used a i = 1 ↔ used i = 1 ∨ P a) (used : Used) :
    as.foldl f used i = 1 ↔ used i = 1 ∨ ∃ a ∈ as, P a := by
  induction as generalizing used with
  | nil => simp
  | cons a as ih =>
    have ⟨hfirst, hrest⟩ := List.forall_mem_cons.mp hf
    rw [List.foldl_cons, ih hrest, hfirst, or_assoc]
    simp

/-- The first time of a timeslot after an ASN. -/
theorem timeToTimeslot_eq_iff {size timeslot : BitVec 16} (h : timeslot.toNat < size.toNat) :
    (timeToTimeslot asn size timeslot).toNat = i + 1 ↔
      (asn.val + i + 1) % size.toNat = timeslot.toNat ∧ i < size.toNat := by
  have hpos : 0 < size.toNat := Nat.zero_lt_of_lt h
  have hr := Nat.mod_lt asn.val hpos
  rw [toNat_timeToTimeslot asn h, Nat.add_assoc, Nat.add_mod, Nat.add_mod_mod]
  generalize asn.val % size.toNat = r at hr
  generalize timeslot.toNat = t at h
  generalize size.toNat = n at *
  by_cases hi : i < n
  · by_cases hwrap : r + (i + 1) < n
    · rw [Nat.mod_eq_of_lt hwrap]
      split_ifs <;> omega
    · have hmod : (r + (i + 1)) % n = r + (i + 1) - n := by
        rw [Nat.mod_eq_sub_mod (Nat.le_of_not_lt hwrap)]
        exact Nat.mod_eq_of_lt (by omega)
      rw [hmod]
      split_ifs <;> omega
  · split_ifs <;> omega

theorem markLink_eq_one {size timeslot : BitVec 16} (hi : i < 16)
    (h : timeslot.toNat < size.toNat) :
    markLink asn size used timeslot i = 1 ↔ used i = 1 ∨
      (asn.val + i + 1) % size.toNat = timeslot.toNat ∧ i < size.toNat := by
  rw [← timeToTimeslot_eq_iff h, markLink]
  by_cases hplace : (i : ℤ) = (timeToTimeslot asn size timeslot).toNat - 1
  · have htime : (timeToTimeslot asn size timeslot).toNat = i + 1 := by omega
    simp only [htime, or_true, iff_true]
    rw [htime] at hplace
    rw [← hplace, if_pos (by omega), Function.update_self]
  · have htime : ¬ (timeToTimeslot asn size timeslot).toNat = i + 1 := by omega
    simp only [htime, or_false]
    split_ifs
    · rw [Function.update_of_ne hplace]
    · rfl

theorem val_eq_zero_iff (asn : TschAsn) : asn.ls4b = 0 ∧ asn.ms1b = 0 ↔ asn.val = 0 := by
  constructor
  · intro ⟨hl, hm⟩
    rw [TschAsn.val, hl, hm]
    rfl
  · intro h
    rw [TschAsn.val] at h
    exact ⟨BitVec.eq_of_toNat_eq (by simpa using (show asn.ls4b.toNat = 0 by omega)),
      BitVec.eq_of_toNat_eq (by simpa using (show asn.ms1b.toNat = 0 by omega))⟩

theorem markSsq_eq_one {ssqAsn : TschAsn} (hi : i < 16) :
    markSsq asn used ssqAsn i = 1 ↔ used i = 1 ∨ ssqAsn.val = asn.val + i + 1 := by
  rw [markSsq]
  by_cases hzero : ssqAsn.ls4b = 0 ∧ ssqAsn.ms1b = 0
  · have hval := (val_eq_zero_iff ssqAsn).mp hzero
    rw [if_pos hzero]
    exact (or_iff_left (by omega)).symm
  · rw [if_neg hzero]
    have hssq := ssqAsn.val_lt
    have hasn := asn.val_lt
    -- the difference of the two numbers, which are below `2 ^ 40`, in 64 bits
    generalize ht : BitVec.ofNat 64 ssqAsn.val - BitVec.ofNat 64 asn.val = t
    have htime : t.toNat = (2 ^ 64 - asn.val + ssqAsn.val) % 2 ^ 64 := by
      have hssq64 : ssqAsn.val % 2 ^ 64 = ssqAsn.val := Nat.mod_eq_of_lt (by omega)
      have hasn64 : asn.val % 2 ^ 64 = asn.val := Nat.mod_eq_of_lt (by omega)
      rw [← ht, BitVec.toNat_sub, BitVec.toNat_ofNat, BitVec.toNat_ofNat, hssq64, hasn64]
    have hrange : (0 < t ∧ t - 1 < 16) ↔ 0 < t.toNat ∧ t.toNat ≤ 16 := by
      bv_omega
    have hval : ssqAsn.val = asn.val + i + 1 ↔ t.toNat = i + 1 := by omega
    rw [hval]
    by_cases hplace : t.toNat = i + 1
    · simp only [if_pos (hrange.mpr (by omega)), hplace, or_true, iff_true]
      rw [show ((i + 1 : ℕ) : ℤ) - 1 = i by omega, Function.update_self]
    · simp only [hplace, or_false]
      split_ifs
      · rw [Function.update_of_ne (by omega)]
      · rfl

/-- **The marks**: what has been 1 before, the links at their first time without the lock, and the
matched slots. -/
theorem marks_eq_one (s : SsqState) (hi : i < 16) :
    s.marks stack asn i = 1 ↔ stack i = 1 ∨ (s.schedule.tschLocked = false ∧
      ∃ sf l, s.LinkAt asn i sf l ∧ i < sf.size.toNat) ∨ s.MatchedAt asn i := by
  have hssq : ∀ used : Used, s.ostSsqScheduleList.foldl (markSsq asn) used i = 1 ↔
      used i = 1 ∨ s.MatchedAt asn i :=
    foldl_mark fun ssqAsn _ used => markSsq_eq_one hi
  have hlinks : ∀ sf ∈ s.schedule.slotframeList, ∀ used : Used, sf.linksList.foldl (fun used l =>
      markLink asn sf.size used (s.schedule.links l).timeslot) used i = 1 ↔
        used i = 1 ∨ ∃ l ∈ sf.linksList,
          (asn.val + i + 1) % sf.size.toNat = (s.schedule.links l).timeslot.toNat ∧
            i < sf.size.toNat :=
    fun sf hsf => foldl_mark fun l hl used => markLink_eq_one hi (s.timeslot_lt sf hsf l hl)
  rw [SsqState.marks, hssq, ← or_assoc]
  refine or_congr_left ?_
  cases s.schedule.tschLocked with
  | true => simp
  | false =>
    simp only [Bool.false_eq_true, if_false, true_and]
    rw [foldl_mark hlinks]
    simp only [SsqState.LinkAt, and_assoc, exists_and_left]

/-! ## The selection -/

theorem getLsbD_eq_false_iff {w : BitVec 16} : (w.toNat >>> i % 2 == 0) = true ↔
    w.getLsbD i = false := by
  rw [beq_iff_eq, BitVec.getLsbD, Nat.testBit, Nat.shiftRight_eq_div_pow]
  simp

/-- A bitmap that is exact makes the selection safe. -/
theorem SsqState.BitmapExact.selectsFree (h : s.BitmapExact stack asn) :
    s.SelectsFree stack asn := by
  intro rxScheduleInfo
  rw [SsqState.ostSelectMatchingSchedule]
  cases hfind : (List.range 16).find? fun i =>
      (s.tschScheduleGetSubsequentSchedule stack asn ||| rxScheduleInfo).toNat >>> i % 2 == 0 with
  | none => exact .inl rfl
  | some i =>
    have hi : i < 16 := List.mem_range.mp (List.mem_of_find?_eq_some hfind)
    have hzero := List.find?_some hfind
    have hfree := getLsbD_eq_false_iff.mp hzero
    rw [BitVec.getLsbD_or, Bool.or_eq_false_iff] at hfree
    refine .inr ⟨i, hi, rfl, hfree.2, fun hocc => ?_⟩
    exact Bool.false_ne_true (hfree.1.symm.trans ((h i hi).mpr hocc))

/-- **The slots that follow**: the bitmap has exactly the slots in use, and the slot selected with
it is free for both neighbors, exactly if the marks meet the condition. -/
theorem subsequent_schedule (s : SsqState) (stack : Used) (asn : TschAsn) :
    s.BitmapExact stack asn ∧ s.SelectsFree stack asn ↔ s.SeesOccupied stack asn := by
  rw [and_iff_left_of_imp SsqState.BitmapExact.selectsFree]
  refine forall₂_congr fun i hi => ?_
  rw [SsqState.tschScheduleGetSubsequentSchedule, getLsbD_ssqScheduleOf hi, marks_eq_one s hi]
  constructor
  · intro h
    refine ⟨fun hone => h.mp (.inl hone), fun sf l hlink => ?_⟩
    exact (h.mpr (.inl ⟨sf, l, hlink⟩)).imp_right Or.symm
  · intro ⟨hstack, hlink⟩
    constructor
    · rintro (hone | ⟨_, sf, l, hfirst, _⟩ | hmatched)
      · exact hstack hone
      · exact .inl ⟨sf, l, hfirst⟩
      · exact .inr hmatched
    · rintro (⟨sf, l, hat⟩ | hmatched)
      · exact (hlink sf l hat).imp_right Or.symm
      · exact .inr (.inr hmatched)

/-- A slotframe of four slots, with a link in the first one. -/
def fourSlots : SsqState where
  schedule := ⟨[⟨3, 4, [0]⟩], fun _ => ⟨3, tschBroadcastAddress, 0, 3, linkOptionRx⟩, fun l => l == 0,
    fun _ => none, false⟩
  ostSsqScheduleList := []
  timeslot_lt := by decide

/-- The link comes again after eight slots, which is not in the bitmap, and this slot is selected
for a sender that has used the seven slots before. -/
theorem link_comes_again :
    fourSlots.LinkAt ⟨0, 0⟩ 7 ⟨3, 4, [0]⟩ 0 ∧
      fourSlots.tschScheduleGetSubsequentSchedule (fun _ => 0) ⟨0, 0⟩ = 0x0008 ∧
      fourSlots.ostSelectMatchingSchedule (fun _ => 0) ⟨0, 0⟩ 0x007f = 8 := by
  refine ⟨⟨List.mem_singleton_self _, List.mem_singleton_self _, rfl⟩, ?_, ?_⟩ <;> decide

end Asap.Ost
