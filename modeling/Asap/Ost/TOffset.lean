import Mathlib.Tactic.IntervalCases
import Asap.Lib.Dyadic
import Asap.Tsch.Schedule

/-!
# Time offsets of OST

With OST two neighbors agree on a period of `2 ^ N` slots and a time offset in it. The
receiver selects an offset for the sender, and the sender checks that it can install it.
Both mark the offsets that are in use in a table, one slotframe after the other: those
about to be installed, which wait in the two rings of received and of sent packets, and
those installed.

Marking is exact (`ostEliminateOverlapToc_apply`), but not every slotframe is looked at:
the loop that finds `N` from a size starts at one, and the ids of neighbors that wait
are cut to eight bits. `t_offset_disjoint_iff` says when this does no harm.

## Main definitions

* `OstState` — the schedule and the two rings.
* `ostEliminateOverlapToc`, `ostSelectTOffset`, `ostTxInstallable`.
* `Other` — the slotframes an offset must not meet.
* `Overlooked` — those among them that are not looked at.
-/

namespace Asap.Ost

open Asap.Lib Asap.Tsch List
open Nat (mod_lt mod_eq_of_lt)

/-- `OST_N_MAX` -/
def ostNMax : ℕ := 8

/-- `OST_MORE_UNDER_PROVISION` -/
def ostMoreUnderProvision : ℕ := 1

/-- `new_N` in `ost_select_N`, for a traffic load in packets per `2 ^ OST_N_MAX` slots;
`none` when the loop finds nothing and `ost_my_N` stays. -/
def ostSelectN (trafficLoad : ℕ) : Option ℕ :=
  ((List.range' 1 ostNMax).find? fun i => trafficLoad >>> i < 1).map fun i =>
    ostNMax - i + 1 - ostMoreUnderProvision

/-- `ost_get_tx_sf_handle_from_id` -/
def ostGetTxSfHandleFromId (id : BitVec 16) : BitVec 16 := 2 * id + 1

/-- `ost_get_rx_sf_handle_from_id` -/
def ostGetRxSfHandleFromId (id : BitVec 16) : BitVec 16 := 2 * id + 2

/-- A periodic slotframe: one slot at an offset, every `2 ^ N` slots. -/
structure Provision where
  N : ℕ
  tOffset : ℕ
deriving DecidableEq, Repr

/-- The table has room for its period, and the offset lies in it. -/
def Provision.Ok (p : Provision) : Prop := p.N ≤ ostNMax ∧ p.tOffset < 2 ^ p.N

/-- The slots of a periodic slotframe. -/
def Provision.slots (p : Provision) : Set ℕ := Dyadic.progression p.N p.tOffset

/-- The OST fields of `uip_ds6_nbr_t`, with the id in its address. -/
structure Ds6Nbr where
  id : BitVec 16
  ostMyN : BitVec 16
  ostMyTOffset : BitVec 16
  ostMyInstallable : Bool
  ostNbrN : BitVec 16
  ostNbrTOffset : BitVec 16
deriving DecidableEq, Repr

namespace Ds6Nbr

/-- What we send in. -/
def my (b : Ds6Nbr) : Provision := ⟨b.ostMyN.toNat, b.ostMyTOffset.toNat⟩

/-- What the neighbor sends in. -/
def nbr (b : Ds6Nbr) : Provision := ⟨b.ostNbrN.toNat, b.ostNbrTOffset.toNat⟩

/-- `pending_id`, an 8-bit variable, back as an id. -/
def pendingId (b : Ds6Nbr) : BitVec 16 := (b.id.setWidth 8).setWidth 16

end Ds6Nbr

/-- The OST fields of `struct input_packet`. -/
structure InputPacket where
  ostFlagChangeRxSchedule : Bool
  ostPrNNbr : Option Ds6Nbr

/-- The OST fields of `struct tsch_packet`. -/
structure DequeuedPacket where
  ostFlagChangeTxSchedule : Bool
  ostPrtNbr : Option Ds6Nbr
  ostFlagRejectedByNbr : Bool

/-- The neighbor whose Rx slotframe a received packet is about to change. -/
def InputPacket.pending (p : InputPacket) : Option Ds6Nbr :=
  if p.ostFlagChangeRxSchedule then p.ostPrNNbr else none

/-- The neighbor whose Tx slotframe a sent packet is about to install. -/
def DequeuedPacket.pending (p : DequeuedPacket) : Option Ds6Nbr :=
  if p.ostFlagChangeTxSchedule && !p.ostFlagRejectedByNbr then
    p.ostPrtNbr.filter (·.ostMyInstallable)
  else none

/-- The elements that a loop from the get position on reads, subtracting the size of the
ring past its end. -/
def scanned {α : Type} (r : RingbufIndex) (arr : ℕ → α) : List α :=
  match r.peekGet with
  | none => []
  | some i => (List.range r.elements).map fun k =>
      arr (if r.size ≤ i + k then i + k - r.size else i + k)

/-- The schedule and the two rings. The slotframes that wait are periodic slotframes, and
so are the installed ones with handles above two; their sizes are powers of two. -/
structure OstState where
  schedule : TschSchedule
  inputRingbuf : RingbufIndex
  inputArray : ℕ → InputPacket
  dequeuedRingbuf : RingbufIndex
  dequeuedArray : ℕ → DequeuedPacket
  input_ring : ∃ k, inputRingbuf.Ok k
  dequeued_ring : ∃ k, dequeuedRingbuf.Ok k
  input_ok : ∀ p ∈ inputRingbuf.contents inputArray, ∀ b ∈ p.pending, b.nbr.Ok
  dequeued_ok : ∀ p ∈ dequeuedRingbuf.contents dequeuedArray, ∀ b ∈ p.pending, b.my.Ok
  installed_ok : ∀ sf ∈ schedule.slotframeList, 2 < sf.handle.toNat → ∃ n ≤ ostNMax,
    sf.size.toNat = 2 ^ n ∧ ∀ l ∈ sf.linksList.head?, (schedule.links l).timeslot.toNat < 2 ^ n

/-- `ost_eliminate_overlap_toc` -/
def ostEliminateOverlapToc (toc : ℕ → Bool) (targetN usedN usedTOffset : ℕ) : ℕ → Bool :=
  if targetN < usedN then
    ostEliminateOverlapToc toc targetN (usedN - 1) (usedTOffset % 2 ^ (usedN - 1))
  else if usedN < targetN then
    ostEliminateOverlapToc (ostEliminateOverlapToc toc targetN (usedN + 1) usedTOffset) targetN
      (usedN + 1) (usedTOffset + 2 ^ usedN)
  else if 2 ^ targetN ≤ usedTOffset then toc
  else Function.update toc usedTOffset false
termination_by (usedN - targetN) + (targetN - usedN)

/-- The loop that finds `N` from the size of a slotframe. -/
def usedN (size : BitVec 16) : Option ℕ :=
  (List.range' 1 ostNMax).find? fun n => size.toNat >>> n == 1

/-- The direction an offset is wanted for: `rx` when it is selected for a neighbor, `tx`
when it is checked. -/
inductive Direction where
  | rx
  | tx
deriving DecidableEq

/-- The handle of the slotframe of a neighbor. -/
def Direction.handle : Direction → BitVec 16 → BitVec 16
  | .rx, id => ostGetRxSfHandleFromId id
  | .tx, id => ostGetTxSfHandleFromId id

namespace OstState

variable (s : OstState)

/-- The neighbors found in the ring of received packets, but not the target of `rx`. -/
def inputNbrs (dir : Direction) (target : BitVec 16) : List Ds6Nbr :=
  ((scanned s.inputRingbuf s.inputArray).filterMap (·.pending)).filter fun b =>
    !(dir = .rx && target = b.pendingId)

/-- The neighbors found in the ring of sent packets, but not the target of `tx`. -/
def dequeuedNbrs (dir : Direction) (target : BitVec 16) : List Ds6Nbr :=
  ((scanned s.dequeuedRingbuf s.dequeuedArray).filterMap (·.pending)).filter fun b =>
    !(dir = .tx && target = b.pendingId)

/-- `already_eliminated` -/
def alreadyEliminated (dir : Direction) (target handle : BitVec 16) : Bool :=
  (s.inputNbrs dir target).any (fun b => handle == ostGetRxSfHandleFromId b.pendingId) ||
    (s.dequeuedNbrs dir target).any fun b => handle == ostGetTxSfHandleFromId b.pendingId

/-- What the last loop takes from an installed slotframe. -/
def installedProvision (sf : TschSlotframe) : Option Provision :=
  match usedN sf.size, sf.linksList.head? with
  | some n, some l => some ⟨n, (s.schedule.links l).timeslot.toNat⟩
  | _, _ => none

/-- The periodic slotframes that are looked at, in order. -/
def used (dir : Direction) (target : BitVec 16) : List Provision :=
  (s.inputNbrs dir target).map (·.nbr) ++ (s.dequeuedNbrs dir target).map (·.my) ++
    (s.schedule.slotframeList.filter fun sf => 2 < sf.handle.toNat &&
      sf.handle ≠ dir.handle target && !s.alreadyEliminated dir target sf.handle).filterMap
        s.installedProvision

/-- The table after all of them. -/
def eliminateOverlaps (dir : Direction) (target : BitVec 16) (N : ℕ) (toc : ℕ → Bool) : ℕ → Bool :=
  (s.used dir target).foldl (fun toc p => ostEliminateOverlapToc toc N p.N p.tOffset) toc

/-- `ost_select_t_offset`; `none` when the table, of `2 ^ OST_N_MAX` entries, is overrun. -/
def ostSelectTOffset (target : BitVec 16) (N : ℕ) (rand : BitVec 16) : Option ℕ :=
  if ostNMax < N then none
  else
    let toc := s.eliminateOverlaps .rx target N fun _ => true
    some ((((List.range (2 ^ N)).map fun i => (i + rand.toNat) % 2 ^ N).find? toc).getD 0xffff)

/-- `ost_tx_installable`; only one entry of the table is initialised, the others are what
`toc` has. -/
def ostTxInstallable (toc : ℕ → Bool) (target : BitVec 16) (N : ℕ) (tOffset : BitVec 16) : ℤ :=
  if s.schedule.tschLocked then -1
  else if tOffset = 0xffff then -2
  else if tOffset.toNat < 2 ^ N then
    if s.eliminateOverlaps .tx target N (Function.update toc tOffset.toNat true) tOffset.toNat then 1
    else -1
  else -1

/-! ## The slotframes to stay clear of -/

section

variable (dir : Direction) (target : BitVec 16)

/-- The periodic slotframes, pending or installed, of other neighbors or of the other
direction. -/
inductive Other : Provision → Prop
  | input (p : InputPacket) (b : Ds6Nbr) (hp : p ∈ s.inputRingbuf.contents s.inputArray)
      (hb : b ∈ p.pending) (hid : dir = .rx → b.id ≠ target) : Other b.nbr
  | dequeued (p : DequeuedPacket) (b : Ds6Nbr)
      (hp : p ∈ s.dequeuedRingbuf.contents s.dequeuedArray) (hb : b ∈ p.pending)
      (hid : dir = .tx → b.id ≠ target) : Other b.my
  | installed (sf : TschSlotframe) (l : LinkId) (N : ℕ) (hsf : sf ∈ s.schedule.slotframeList)
      (hhandle : 2 < sf.handle.toNat) (hother : sf.handle ≠ dir.handle target)
      (hsize : sf.size.toNat = 2 ^ N) (hl : sf.linksList.head? = some l) :
      Other ⟨N, (s.schedule.links l).timeslot.toNat⟩

/-- **The offset meets no other periodic slotframe.** -/
def Clear (N t : ℕ) : Prop :=
  ∀ p, s.Other dir target p → t % 2 ^ min N p.N ≠ p.tOffset % 2 ^ min N p.N

/-- The ones that are not looked at: a pending slotframe of another neighbor whose id has
the target's id for its low byte; an installed one of a single slot; and an installed
one whose handle is the handle for the low byte of the id of a neighbor that waits. -/
inductive Overlooked : Provision → Prop
  | input (p : InputPacket) (b : Ds6Nbr) (hp : p ∈ s.inputRingbuf.contents s.inputArray)
      (hb : b ∈ p.pending) (hdir : dir = .rx) (hid : b.id ≠ target)
      (hlow : b.pendingId = target) : Overlooked b.nbr
  | dequeued (p : DequeuedPacket) (b : Ds6Nbr)
      (hp : p ∈ s.dequeuedRingbuf.contents s.dequeuedArray) (hb : b ∈ p.pending)
      (hdir : dir = .tx) (hid : b.id ≠ target) (hlow : b.pendingId = target) :
      Overlooked b.my
  | installed (sf : TschSlotframe) (l : LinkId) (N : ℕ) (hsf : sf ∈ s.schedule.slotframeList)
      (hhandle : 2 < sf.handle.toNat) (hother : sf.handle ≠ dir.handle target)
      (hsize : sf.size.toNat = 2 ^ N) (hl : sf.linksList.head? = some l)
      (hskip : N = 0 ∨ s.alreadyEliminated dir target sf.handle = true) :
      Overlooked ⟨N, (s.schedule.links l).timeslot.toNat⟩

/-- **The condition**: every offset of a slotframe that is not looked at is also an offset
of one that is. -/
def Covered (N : ℕ) : Prop :=
  ∀ p, s.Overlooked dir target p → ∀ t < 2 ^ N, Dyadic.Meets N t p.N p.tOffset →
    ∃ q ∈ s.used dir target, Dyadic.Meets N t q.N q.tOffset

end

end OstState

/-! ## Marking -/

/-- **Marking is exact.** The offsets that meet the slotframe are marked, and no other. -/
theorem ostEliminateOverlapToc_apply (toc : ℕ → Bool) {N M t : ℕ} (ht : t < 2 ^ M) {j : ℕ}
    (hj : j < 2 ^ N) :
    ostEliminateOverlapToc toc N M t j = (toc j && !decide (Dyadic.Meets N j M t)) := by
  induction toc, M, t using ostEliminateOverlapToc.induct N with
  | case1 toc M t hlt ih =>
    rw [ostEliminateOverlapToc, if_pos hlt, ih (mod_lt _ (Nat.two_pow_pos _))]
    simp only [Dyadic.meets_parent hlt]
  | case2 toc M t hlt hgt ih ih' =>
    have hpow : 2 ^ (M + 1) = 2 ^ M + 2 ^ M := by rw [pow_succ, Nat.mul_two]
    rw [ostEliminateOverlapToc, if_neg hlt, if_pos hgt, ih' (by omega), ih (by omega)]
    simp only [Dyadic.meets_children hgt, Bool.decide_or, Bool.not_or, Bool.and_assoc]
  | case3 toc M t hlt hgt hle =>
    have hN : M = N := by omega
    subst hN
    omega
  | case4 toc M t hlt hgt hle =>
    have hN : M = N := by omega
    subst hN
    rw [ostEliminateOverlapToc, if_neg hlt, if_neg hgt, if_neg hle]
    simp only [Dyadic.meets_self hj ht]
    by_cases heq : j = t
    · subst heq
      simp
    · simp [heq]

/-- Behind the offsets of the target nothing is marked. -/
theorem ostEliminateOverlapToc_of_ge (toc : ℕ → Bool) {N M t : ℕ} (ht : t < 2 ^ M) {j : ℕ}
    (hj : 2 ^ N ≤ j) : ostEliminateOverlapToc toc N M t j = toc j := by
  induction toc, M, t using ostEliminateOverlapToc.induct N with
  | case1 toc M t hlt ih =>
    rw [ostEliminateOverlapToc, if_pos hlt, ih (mod_lt _ (Nat.two_pow_pos _))]
  | case2 toc M t hlt hgt ih ih' =>
    have hpow : 2 ^ (M + 1) = 2 ^ M + 2 ^ M := by rw [pow_succ, Nat.mul_two]
    rw [ostEliminateOverlapToc, if_neg hlt, if_pos hgt, ih' (by omega), ih (by omega)]
  | case3 toc M t hlt hgt hle => rw [ostEliminateOverlapToc, if_neg hlt, if_neg hgt, if_pos hle]
  | case4 toc M t hlt hgt hle =>
    rw [ostEliminateOverlapToc, if_neg hlt, if_neg hgt, if_neg hle]
    exact Function.update_of_ne (by omega) ..

/-- Marking several slotframes, one after the other. -/
theorem foldl_eliminate_apply {ps : List Provision} (h : ∀ p ∈ ps, p.Ok) (toc : ℕ → Bool) {N j : ℕ}
    (hj : j < 2 ^ N) :
    ps.foldl (fun toc p => ostEliminateOverlapToc toc N p.N p.tOffset) toc j = true ↔
      toc j = true ∧ ∀ p ∈ ps, ¬ Dyadic.Meets N j p.N p.tOffset := by
  induction ps generalizing toc with
  | nil => simp
  | cons p ps ih =>
    have hp := (h p (mem_cons_self ..)).2
    rw [foldl_cons, ih (fun q hq => h q (mem_cons_of_mem _ hq)),
      ostEliminateOverlapToc_apply toc hp hj, Bool.and_eq_true, Bool.not_eq_true',
      decide_eq_false_iff_not, forall_mem_cons, and_assoc]

/-! ## What is looked at -/

/-- The loop over a ring reads its contents. -/
theorem scanned_eq_contents {α : Type} {r : RingbufIndex} {k : ℕ} (h : r.Ok k) (arr : ℕ → α) :
    scanned r arr = r.contents arr := by
  have helems : ((r.putPtr - r.getPtr) &&& r.mask).toNat = r.elements := rfl
  have hget : r.getPtr.toNat < r.size := h.size_eq ▸ h.get
  have hlt : r.elements < r.size := h.size_eq ▸ h.elements_lt
  simp only [scanned, RingbufIndex.peekGet, RingbufIndex.contents, Ring.window]
  by_cases hpos : (r.putPtr - r.getPtr) &&& r.mask > 0
  · rw [if_pos hpos]
    refine map_congr_left fun i hi => congrArg arr ?_
    have hi := mem_range.mp hi
    split_ifs with hle
    · rw [Nat.mod_eq_sub_mod hle, mod_eq_of_lt (by omega)]
    · rw [mod_eq_of_lt (by omega)]
  · have hzero : r.elements = 0 := by
      rw [← helems]
      simpa [BitVec.lt_def] using hpos
    rw [if_neg hpos, hzero]
    rfl

/-- The loop over `n` finds all sizes but one. -/
theorem usedN_eq {size : BitVec 16} {N : ℕ} (hN : N ≤ ostNMax) (hsize : size.toNat = 2 ^ N) :
    usedN size = if N = 0 then none else some N := by
  simp only [usedN, hsize]
  rw [ostNMax] at hN ⊢
  interval_cases N <;> decide

namespace OstState

variable {s : OstState} {dir : Direction} {target : BitVec 16} {N t : ℕ}

theorem mem_inputNbrs {b : Ds6Nbr} : b ∈ s.inputNbrs dir target ↔
    (∃ p ∈ s.inputRingbuf.contents s.inputArray, b ∈ p.pending) ∧
      ¬ (dir = .rx ∧ target = b.pendingId) := by
  obtain ⟨k, hk⟩ := s.input_ring
  simp only [inputNbrs, scanned_eq_contents hk, mem_filter, mem_filterMap,
    Bool.not_eq_true', Bool.and_eq_false_iff, decide_eq_false_iff_not, Option.mem_def]
  tauto

theorem mem_dequeuedNbrs {b : Ds6Nbr} : b ∈ s.dequeuedNbrs dir target ↔
    (∃ p ∈ s.dequeuedRingbuf.contents s.dequeuedArray, b ∈ p.pending) ∧
      ¬ (dir = .tx ∧ target = b.pendingId) := by
  obtain ⟨k, hk⟩ := s.dequeued_ring
  simp only [dequeuedNbrs, scanned_eq_contents hk, mem_filter, mem_filterMap,
    Bool.not_eq_true', Bool.and_eq_false_iff, decide_eq_false_iff_not, Option.mem_def]
  tauto

/-- What is found of an installed slotframe. -/
theorem installedProvision_eq {sf : TschSlotframe} (hsf : sf ∈ s.schedule.slotframeList)
    (hhandle : 2 < sf.handle.toNat) (hsize : sf.size.toNat = 2 ^ N) {l : LinkId}
    (hl : sf.linksList.head? = some l) :
    s.installedProvision sf =
      if N = 0 then none else some ⟨N, (s.schedule.links l).timeslot.toNat⟩ := by
  obtain ⟨n, hn, hsize', -⟩ := s.installed_ok sf hsf hhandle
  have hNn : N = n := Nat.pow_right_injective le_rfl (hsize.symm.trans hsize')
  subst hNn
  simp only [installedProvision, usedN_eq hn hsize, hl]
  split_ifs <;> rfl

/-- Only periodic slotframes are looked at. -/
theorem ok_of_mem_used {p : Provision} (h : p ∈ s.used dir target) : p.Ok := by
  rcases mem_append.mp h with h | h
  · rcases mem_append.mp h with h | h
    · obtain ⟨b, hb, rfl⟩ := mem_map.mp h
      obtain ⟨⟨q, hq, hb⟩, -⟩ := mem_inputNbrs.mp hb
      exact s.input_ok q hq b hb
    · obtain ⟨b, hb, rfl⟩ := mem_map.mp h
      obtain ⟨⟨q, hq, hb⟩, -⟩ := mem_dequeuedNbrs.mp hb
      exact s.dequeued_ok q hq b hb
  · obtain ⟨sf, hsf, hp⟩ := mem_filterMap.mp h
    obtain ⟨hsf, hcond⟩ := mem_filter.mp hsf
    have hhandle : 2 < sf.handle.toNat := by
      simp only [Bool.and_eq_true, decide_eq_true_eq] at hcond
      exact hcond.1.1
    obtain ⟨n, hn, hsize, hslot⟩ := s.installed_ok sf hsf hhandle
    cases hl : sf.linksList.head? with
    | none => simp [installedProvision, hl] at hp
    | some l =>
      rw [installedProvision_eq hsf hhandle hsize hl] at hp
      split_ifs at hp
      rw [Option.some.injEq] at hp
      exact hp ▸ ⟨hn, hslot l hl⟩

theorem Overlooked.other {p : Provision} (h : s.Overlooked dir target p) :
    s.Other dir target p := by
  cases h with
  | input p b hp hb hdir hid hlow => exact .input p b hp hb fun _ => hid
  | dequeued p b hp hb hdir hid hlow => exact .dequeued p b hp hb fun _ => hid
  | installed sf l N hsf hhandle hother hsize hl hskip =>
    exact .installed sf l N hsf hhandle hother hsize hl

/-- The other slotframes are looked at or overlooked. -/
theorem Other.cases {p : Provision} (h : s.Other dir target p) :
    p ∈ s.used dir target ∨ s.Overlooked dir target p := by
  cases h with
  | input p b hp hb hid =>
    by_cases hlow : dir = .rx ∧ target = b.pendingId
    · exact Or.inr (.input p b hp hb hlow.1 (hid hlow.1) hlow.2.symm)
    · have hmem : b ∈ s.inputNbrs dir target := mem_inputNbrs.mpr ⟨⟨p, hp, hb⟩, hlow⟩
      refine Or.inl (mem_append_left _ (mem_append_left _ ?_))
      exact mem_map.mpr ⟨b, hmem, rfl⟩
  | dequeued p b hp hb hid =>
    by_cases hlow : dir = .tx ∧ target = b.pendingId
    · exact Or.inr (.dequeued p b hp hb hlow.1 (hid hlow.1) hlow.2.symm)
    · have hmem : b ∈ s.dequeuedNbrs dir target := mem_dequeuedNbrs.mpr ⟨⟨p, hp, hb⟩, hlow⟩
      refine Or.inl (mem_append_left _ (mem_append_right _ ?_))
      exact mem_map.mpr ⟨b, hmem, rfl⟩
  | installed sf l N hsf hhandle hother hsize hl =>
    by_cases hskip : N = 0 ∨ s.alreadyEliminated dir target sf.handle = true
    · exact Or.inr (.installed sf l N hsf hhandle hother hsize hl hskip)
    · rw [not_or, Bool.not_eq_true] at hskip
      refine Or.inl (mem_append_right _ (mem_filterMap.mpr ⟨sf, ?_, ?_⟩))
      · refine mem_filter.mpr ⟨hsf, ?_⟩
        simp [hhandle, hother, hskip.2]
      · rw [installedProvision_eq hsf hhandle hsize hl, if_neg hskip.1]

/-! ## Offsets -/

/-- No slotframe that is looked at meets the offset. -/
def Unmarked (s : OstState) (dir : Direction) (target : BitVec 16) (N t : ℕ) : Prop :=
  ∀ q ∈ s.used dir target, ¬ Dyadic.Meets N t q.N q.tOffset

theorem eliminateOverlaps_apply (toc : ℕ → Bool) (ht : t < 2 ^ N) :
    s.eliminateOverlaps dir target N toc t = true ↔
      toc t = true ∧ s.Unmarked dir target N t :=
  foldl_eliminate_apply (fun _ hp => ok_of_mem_used hp) toc ht

/-- **The condition, offset by offset**: what is not marked is clear. -/
theorem covered_iff : s.Covered dir target N ↔
    ∀ t < 2 ^ N, s.Unmarked dir target N t → s.Clear dir target N t := by
  constructor
  · intro hcov t ht hunmarked p hp hmeets
    rcases hp.cases with hused | hover
    · exact hunmarked p hused hmeets
    · obtain ⟨q, hq, hmeets'⟩ := hcov p hover t ht hmeets
      exact hunmarked q hq hmeets'
  · intro hclear p hover t ht hmeets
    by_contra hnone
    have hunmarked : s.Unmarked dir target N t := fun q hq hmeets' => hnone ⟨q, hq, hmeets'⟩
    exact hclear t ht hunmarked p hover.other hmeets

/-- The search finds an offset that is not marked, or there is none. -/
theorem ostSelectTOffset_cases (hN : N ≤ ostNMax) (rand : BitVec 16) :
    (∃ t < 2 ^ N, s.ostSelectTOffset target N rand = some t ∧ s.Unmarked .rx target N t) ∨
      s.ostSelectTOffset target N rand = some 0xffff ∧
        ∀ t < 2 ^ N, ¬ s.Unmarked .rx target N t := by
  rw [ostSelectTOffset, if_neg (by omega)]
  cases hfind : ((List.range (2 ^ N)).map fun i => (i + rand.toNat) % 2 ^ N).find?
      (s.eliminateOverlaps .rx target N fun _ => true) with
  | none =>
    refine Or.inr ⟨by simp only [hfind, Option.getD_none], fun t ht hunmarked => ?_⟩
    -- the round at which the search comes to the offset
    have hround : ((t + (2 ^ N - rand.toNat % 2 ^ N)) % 2 ^ N + rand.toNat) % 2 ^ N = t := by
      have hdiv := Nat.div_add_mod rand.toNat (2 ^ N)
      have hlt := mod_lt rand.toNat (Nat.two_pow_pos N)
      have hsum : t + (2 ^ N - rand.toNat % 2 ^ N) + rand.toNat =
          t + 2 ^ N * (rand.toNat / 2 ^ N + 1) := by
        rw [Nat.mul_succ]
        omega
      rw [Nat.mod_add_mod, hsum, Nat.add_mul_mod_self_left, mod_eq_of_lt ht]
    exact find?_eq_none.mp hfind t (mem_map.mpr ⟨_, mem_range.mpr (mod_lt _ (Nat.two_pow_pos N)),
      hround⟩) ((eliminateOverlaps_apply _ ht).mpr ⟨rfl, hunmarked⟩)
  | some t =>
    obtain ⟨i, -, hi⟩ := mem_map.mp (mem_of_find?_eq_some hfind)
    have hlt : t < 2 ^ N := hi ▸ mod_lt _ (Nat.two_pow_pos N)
    exact Or.inl ⟨t, hlt, by simp only [hfind, Option.getD_some],
      ((eliminateOverlaps_apply _ hlt).mp (List.find?_some hfind)).2⟩

/-- **The selection is complete**: wherever the search starts, it finds an offset that shares no slot
with the slotframes that are looked at, or each offset shares one with some of them. -/
theorem ostSelectTOffset_complete (s : OstState) (target : BitVec 16) (N : ℕ) (rand : BitVec 16) :
    ostNMax < N ∧ s.ostSelectTOffset target N rand = none ∨
      (∃ t < 2 ^ N, s.ostSelectTOffset target N rand = some t ∧
        ∀ p ∈ s.used .rx target, ¬ (Provision.slots ⟨N, t⟩ ∩ p.slots).Nonempty) ∨
      s.ostSelectTOffset target N rand = some 0xffff ∧
        ∀ t < 2 ^ N, ∃ p ∈ s.used .rx target, (Provision.slots ⟨N, t⟩ ∩ p.slots).Nonempty := by
  by_cases hN : ostNMax < N
  · exact Or.inl ⟨hN, if_pos hN⟩
  · refine Or.inr ((@ostSelectTOffset_cases s target N (not_lt.mp hN) rand).imp ?_ ?_)
    · rintro ⟨t, hlt, hselect, hunmarked⟩
      exact ⟨t, hlt, hselect, fun p hp hmeets => hunmarked p hp (Dyadic.meets_iff.mpr hmeets)⟩
    · rintro ⟨hselect, hall⟩
      refine ⟨hselect, fun t ht => ?_⟩
      by_contra hnone
      exact hall t ht fun p hp hmeets => hnone ⟨p, hp, Dyadic.meets_iff.mp hmeets⟩

/-- The offset selected is one that is not marked. -/
theorem ostSelectTOffset_spec (hN : N ≤ ostNMax) (rand : BitVec 16) :
    ∃ t, s.ostSelectTOffset target N rand = some t ∧
      (t ≠ 0xffff → t < 2 ^ N ∧ s.Unmarked .rx target N t) := by
  rcases @ostSelectTOffset_cases s target N hN rand with ⟨t, hlt, hselect, hunmarked⟩ | ⟨hselect, -⟩
  · exact ⟨t, hselect, fun _ => ⟨hlt, hunmarked⟩⟩
  · exact ⟨_, hselect, fun hne => absurd rfl hne⟩

/-- Every offset that is not marked is selected for some random number. -/
theorem ostSelectTOffset_of_unmarked (hN : N ≤ ostNMax) (ht : t < 2 ^ N)
    (h : s.Unmarked .rx target N t) :
    s.ostSelectTOffset target N (BitVec.ofNat 16 t) = some t := by
  have hpow : 2 ^ N ≤ 2 ^ 8 := Nat.pow_le_pow_right (by omega) hN
  have hrand : (BitVec.ofNat 16 t).toNat = t := by
    rw [BitVec.toNat_ofNat]
    exact mod_eq_of_lt (by omega)
  have hcons : List.range (2 ^ N) = 0 :: (List.range (2 ^ N - 1)).map Nat.succ := by
    rw [← range_succ_eq_map, Nat.sub_add_cancel Nat.one_le_two_pow]
  have hfree : s.eliminateOverlaps .rx target N (fun _ => true) t = true :=
    (eliminateOverlaps_apply _ ht).mpr ⟨rfl, h⟩
  rw [ostSelectTOffset, if_neg (by omega), hrand, hcons, map_cons, Nat.zero_add,
    mod_eq_of_lt ht]
  simp only [List.find?_cons, hfree, Option.getD_some]

/-- The offsets accepted are those not marked. -/
theorem ostTxInstallable_eq_one (toc : ℕ → Bool) (hN : N ≤ ostNMax) (tOffset : BitVec 16) :
    s.ostTxInstallable toc target N tOffset = 1 ↔ s.schedule.tschLocked = false ∧
      tOffset.toNat < 2 ^ N ∧ s.Unmarked .tx target N tOffset.toNat := by
  have hpow : 2 ^ N ≤ 2 ^ 8 := Nat.pow_le_pow_right (by omega) hN
  have hmax : (0xffff : BitVec 16).toNat = 65535 := rfl
  simp only [ostTxInstallable]
  by_cases hlock : s.schedule.tschLocked = true
  · simp [hlock]
  · rw [if_neg hlock]
    by_cases hdeny : tOffset = 0xffff
    · subst hdeny
      rw [if_pos rfl, hmax]
      constructor
      · intro habs
        simp at habs
      · intro habs
        omega
    · rw [if_neg hdeny]
      by_cases hlt : tOffset.toNat < 2 ^ N
      · have happly := @eliminateOverlaps_apply s .tx target N tOffset.toNat
          (Function.update toc tOffset.toNat true) hlt
        rw [Function.update_self, eq_self, true_and] at happly
        simp only [hlt, if_true, hlock, true_and, ← happly]
        split_ifs with hmark <;> simp [hmark]
      · simp [hlt]

/-- **When the offsets of OST are disjoint.** Whatever the random number, the offset
selected meets no other periodic slotframe, exactly when the table has room for the
period and the condition holds; and the offsets accepted meet no other periodic
slotframe exactly when the condition holds or the schedule is locked. -/
theorem t_offset_disjoint_iff (s : OstState) (target : BitVec 16) (N : ℕ) :
    ((∀ rand, ∃ t, s.ostSelectTOffset target N rand = some t ∧
        (t ≠ 0xffff → s.Clear .rx target N t)) ↔ N ≤ ostNMax ∧ s.Covered .rx target N) ∧
      (N ≤ ostNMax → ((∀ toc tOffset, s.ostTxInstallable toc target N tOffset = 1 →
        s.Clear .tx target N tOffset.toNat) ↔
          (s.schedule.tschLocked = false → s.Covered .tx target N))) := by
  refine ⟨⟨fun h => ?_, fun ⟨hN, hcov⟩ rand => ?_⟩, fun hN => ⟨fun h hlock => ?_, ?_⟩⟩
  · have hN : N ≤ ostNMax := by
      obtain ⟨t, ht, -⟩ := h 0
      by_contra hgt
      rw [ostSelectTOffset, if_pos (by omega)] at ht
      cases ht
    have hpow : 2 ^ N ≤ 2 ^ 8 := Nat.pow_le_pow_right (by omega) hN
    refine ⟨hN, covered_iff.mpr fun t ht hunmarked => ?_⟩
    obtain ⟨t', hsel, hclear⟩ := h (BitVec.ofNat 16 t)
    rw [ostSelectTOffset_of_unmarked hN ht hunmarked, Option.some.injEq] at hsel
    subst hsel
    exact hclear (by omega)
  · obtain ⟨t, hsel, hspec⟩ := @ostSelectTOffset_spec s target N hN rand
    refine ⟨t, hsel, fun hne => ?_⟩
    obtain ⟨hlt, hunmarked⟩ := hspec hne
    exact covered_iff.mp hcov t hlt hunmarked
  · refine covered_iff.mpr fun t ht hunmarked => ?_
    have hpow : 2 ^ N ≤ 2 ^ 8 := Nat.pow_le_pow_right (by omega) hN
    have htoNat : (BitVec.ofNat 16 t).toNat = t := by
      rw [BitVec.toNat_ofNat]
      exact Nat.mod_eq_of_lt (by omega)
    have hclear := h (fun _ => true) (BitVec.ofNat 16 t)
    rw [ostTxInstallable_eq_one _ hN, htoNat] at hclear
    exact hclear ⟨hlock, ht, hunmarked⟩
  · intro hcov toc tOffset hone
    obtain ⟨hlock, hlt, hunmarked⟩ := (ostTxInstallable_eq_one toc hN tOffset).mp hone
    exact covered_iff.mp (hcov hlock) _ hlt hunmarked

/-- Clear offsets share no slot with another periodic slotframe. -/
theorem Clear.disjoint (h : s.Clear dir target N t) {p : Provision} (hp : s.Other dir target p) :
    Provision.slots ⟨N, t⟩ ∩ p.slots = ∅ := by
  have hmeets : ¬ Dyadic.Meets N t p.N p.tOffset := h p hp
  rwa [Dyadic.meets_iff, Set.not_nonempty_iff_eq_empty] at hmeets

/-- A node that sends to node 5 in a period of `2 ^ N` slots, at offset zero, and has no
packet in its rings. -/
def sendsToFive (N : ℕ) (hN : N ≤ ostNMax) : OstState where
  schedule := ⟨[⟨ostGetTxSfHandleFromId 5, BitVec.ofNat 16 (2 ^ N), [0]⟩],
    fun _ => ⟨ostGetTxSfHandleFromId 5, tschBroadcastAddress, 0, 3, linkOptionTx⟩,
    fun l => l = 0, fun _ => none, false⟩
  inputRingbuf := .init 16
  inputArray := fun _ => ⟨false, none⟩
  dequeuedRingbuf := .init 16
  dequeuedArray := fun _ => ⟨false, none, false⟩
  input_ring := ⟨4, by decide, by decide, by decide, by decide⟩
  dequeued_ring := ⟨4, by decide, by decide, by decide, by decide⟩
  input_ok := fun p hp => by cases hp
  dequeued_ok := fun p hp => by cases hp
  installed_ok := by
    intro sf hsf _
    rw [List.mem_singleton] at hsf
    subst hsf
    have hpow : 2 ^ N ≤ 2 ^ 8 := Nat.pow_le_pow_right (by omega) hN
    refine ⟨N, hN, ?_, fun l _ => Nat.two_pow_pos N⟩
    rw [BitVec.toNat_ofNat]
    exact Nat.mod_eq_of_lt (by omega)

theorem covered_sendsToFive (dir : Direction) (target : BitVec 16) :
    (sendsToFive 1 (by decide)).Covered dir target 1 := by
  intro p hover
  cases hover with
  | input p b hp => cases hp
  | dequeued p b hp => cases hp
  | installed sf l N hsf hhandle hother hsize hl hskip =>
    rw [mem_singleton.mp hsf] at hsize hskip
    rcases hskip with rfl | helim
    · exact absurd hsize (by decide)
    · cases helim

/-- In a period of two slots the offsets for node 3 stay clear of node 5. -/
theorem t_offset_disjoint_two :
    (∀ rand, ∃ t, (sendsToFive 1 (by decide)).ostSelectTOffset 3 1 rand = some t ∧
        (t ≠ 0xffff → (sendsToFive 1 (by decide)).Clear .rx 3 1 t)) ∧
      ∀ toc tOffset, (sendsToFive 1 (by decide)).ostTxInstallable toc 3 1 tOffset = 1 →
        (sendsToFive 1 (by decide)).Clear .tx 3 1 tOffset.toNat := by
  obtain ⟨hselect, hinstall⟩ := t_offset_disjoint_iff (sendsToFive 1 (by decide)) 3 1
  exact ⟨hselect.mpr ⟨by decide, covered_sendsToFive .rx 3⟩,
    (hinstall (by decide)).mpr fun _ => covered_sendsToFive .tx 3⟩

/-- **A slotframe of one slot is not seen.** Node 5 is sent to in every slot, and yet an
offset is selected for node 3, and meets its slotframe. -/
theorem t_offset_meets_every_slot : ∃ (s : OstState) (target rand : BitVec 16) (N t : ℕ)
    (p : Provision), N ≤ ostNMax ∧ s.ostSelectTOffset target N rand = some t ∧ t ≠ 0xffff ∧
      s.Other .rx target p ∧ t % 2 ^ min N p.N = p.tOffset % 2 ^ min N p.N := by
  refine ⟨sendsToFive 0 (by decide), 3, 0, 1, 0, ⟨0, 0⟩, by decide, by decide, by decide, ?_, rfl⟩
  exact .installed _ 0 0 (List.mem_singleton_self _) (by decide) (by decide) rfl rfl

end OstState

end Asap.Ost
