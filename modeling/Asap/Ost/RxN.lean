import Asap.Ost.TOffset
import Asap.Tsch.LinkList

/-!
# The reception of N

A data frame of a neighbor with OST tells the period in which the neighbor wants to send. The
receiver selects a time offset for it with a table of `2 ^ OST_N_MAX` entries, and installs the
slotframe later.

The number in the frame is not checked. Here each step that goes outside the table, or shifts by
more than an `int` allows, is `none`.

## Main definitions

* `oneShl` — `1 << n`.
* `OstRx.ostSelectTOffset`, `OstRx.ostProcessRxN`, `ostPostProcessRxN` — the functions.
* `OstRx.InRange` — the condition on the number.
-/

namespace Asap.Ost

open Asap.Tsch Option

/-- `OST_N_OFFSET_NEW_TX_REQUEST` -/
def ostNOffsetNewTxRequest : BitVec 16 := 100

/-- `OST_THRES_CONSECUTIVE_NEW_TX_SCHEDULE_REQUEST` -/
def ostThresConsecutiveNewTxScheduleRequest : BitVec 8 := 10

/-- `1 << n`, an `int` of 32 bits; `none` when the amount is not less than its width. -/
def oneShl (n : ℕ) : Option ℤ := if n < 32 then some (BitVec.twoPow 32 n).toInt else none

/-- The loop that initializes the table, from an entry on. Its counter of 16 bits leaves the table
before it can wrap. -/
def initToc (targetN i : ℕ) (toc : ℕ → Bool) : Option (ℕ → Bool) :=
  match oneShl targetN with
  | none => none
  | some size =>
    if (i : ℤ) < size then
      if i < 2 ^ ostNMax then initToc targetN (i + 1) (Function.update toc i true) else none
    else some toc
termination_by 2 ^ ostNMax - i

/-- `ost_eliminate_overlap_toc` with its numbers of 16 bits. -/
def eliminateOverlapToc (toc : ℕ → Bool) (targetN usedN : ℕ) (usedTOffset : BitVec 16) :
    Option (ℕ → Bool) :=
  if targetN < usedN then
    match oneShl (usedN - 1) with
    | none => none
    | some size => eliminateOverlapToc toc targetN (usedN - 1)
        (BitVec.ofInt 16 (Int.tmod usedTOffset.toNat size))
  else if usedN < targetN then
    match oneShl usedN with
    | none => none
    | some size =>
      match eliminateOverlapToc toc targetN (usedN + 1) usedTOffset with
      | none => none
      | some toc => eliminateOverlapToc toc targetN (usedN + 1)
          (BitVec.ofInt 16 (usedTOffset.toNat + size))
  else
    match oneShl targetN with
    | none => none
    | some size =>
      if size ≤ usedTOffset.toNat then some toc
      else if usedTOffset.toNat < 2 ^ ostNMax then
        some (Function.update toc usedTOffset.toNat false)
      else none
termination_by (usedN - targetN) + (targetN - usedN)

/-- The loop that looks for an entry, from a number of entries looked at on, with the last of them. -/
def findInstallable (toc : ℕ → Bool) (size : ℤ) (rand i j : ℕ) : Option ℕ :=
  if (i : ℤ) < size then
    let j := (i + rand) % size.toNat
    if j < 2 ^ ostNMax then
      if toc j then some j else findInstallable toc size rand (i + 1) j
    else none
  else some (if (i : ℤ) = size then 0xffff else j)
termination_by (size - i).toNat

/-- The schedule and the two rings, at a reception. -/
structure OstRx where
  schedule : TschSchedule
  inputRingbuf : RingbufIndex
  inputArray : ℕ → InputPacket
  dequeuedRingbuf : RingbufIndex
  dequeuedArray : ℕ → DequeuedPacket

/-- A neighbor, with its other OST fields. -/
structure RxNbr extends Ds6Nbr where
  ostRxNoPath : Bool
  ostConsecutiveNewTxScheduleRequest : BitVec 8

/-- A frame that is received: the number in it, and its neighbor, if there is one. -/
structure RxFrame where
  isBroadcast : Bool
  ostPigg1 : BitVec 16
  ds6Nbr : Option RxNbr
  isRoutingNbr : Bool

/-- The OST fields of the received packet, with the id of its neighbor. -/
structure RxInput where
  ostPrNNbr : Option (BitVec 16)
  ostPrNNewN : BitVec 16
  ostPrNNewTOffset : BitVec 16
  ostFlagChangeRxSchedule : Bool
  ostFlagFailedToSelectTOffset : Bool
  ostFlagRespondToConsecNewTxSchedReq : Bool

/-- A packet for which nothing is to be done. -/
def RxInput.idle : RxInput := ⟨none, 0, 0, false, false, false⟩

namespace OstRx

variable (s : OstRx)

/-- The neighbors found in the ring of received packets, but not the target. -/
def inputNbrs (target : BitVec 16) : List Ds6Nbr :=
  ((scanned s.inputRingbuf s.inputArray).filterMap (·.pending)).filter fun b =>
    target ≠ b.pendingId

/-- The neighbors found in the ring of sent packets. -/
def dequeuedNbrs : List Ds6Nbr :=
  (scanned s.dequeuedRingbuf s.dequeuedArray).filterMap (·.pending)

/-- `already_eliminated` -/
def alreadyEliminated (target handle : BitVec 16) : Bool :=
  (s.inputNbrs target).any (fun b => handle == ostGetRxSfHandleFromId b.pendingId) ||
    s.dequeuedNbrs.any fun b => handle == ostGetTxSfHandleFromId b.pendingId

/-- What the last loop takes from an installed slotframe. -/
def installedProvision (sf : TschSlotframe) : Option (ℕ × BitVec 16) :=
  match usedN sf.size, sf.linksList.head? with
  | some n, some l => some (n, (s.schedule.links l).timeslot)
  | _, _ => none

/-- The periodic slotframes that are looked at, in order. -/
def used (target : BitVec 16) : List (ℕ × BitVec 16) :=
  (s.inputNbrs target).map (fun b => (b.ostNbrN.toNat, b.ostNbrTOffset)) ++
    s.dequeuedNbrs.map (fun b => (b.ostMyN.toNat, b.ostMyTOffset)) ++
    (s.schedule.slotframeList.filter fun sf => 2 < sf.handle.toNat &&
      sf.handle ≠ ostGetRxSfHandleFromId target &&
        !s.alreadyEliminated target sf.handle).filterMap s.installedProvision

section

variable (stack : ℕ → Bool)

/-- `ost_select_t_offset`, from what the stack has in the table. -/
def ostSelectTOffset (target : BitVec 16) (targetN : ℕ) (rand : BitVec 16) :
    Option ℕ := do
  let toc ← initToc targetN 0 stack
  let toc ← (s.used target).foldlM (fun toc p => eliminateOverlapToc toc targetN p.1 p.2) toc
  let size ← oneShl targetN
  findInstallable toc size rand.toNat 0 0

/-- The end of `ost_process_rx_N`, for a new number. -/
def processNewN (rand : BitVec 16) (nbr : RxNbr) (newN : BitVec 16) :
    Option (RxInput × RxNbr) := do
  let input : RxInput := ⟨some nbr.id, newN, nbr.ostNbrTOffset, false, false, false⟩
  let selectedTOffset ← s.ostSelectTOffset stack nbr.id newN.toNat rand
  if selectedTOffset < 0xffff then
    let tOffset := BitVec.ofNat 16 selectedTOffset
    some ({ input with ostFlagChangeRxSchedule := true, ostPrNNewTOffset := tOffset },
      { nbr with ostNbrN := newN, ostNbrTOffset := tOffset })
  else some ({ input with ostFlagFailedToSelectTOffset := true }, nbr)

/-- `ost_process_rx_N` for a frame of a routing neighbor. -/
def processNbr (rand : BitVec 16) (nbr : RxNbr) (ostPigg1 : BitVec 16) :
    Option (RxInput × RxNbr) :=
  let input : RxInput := ⟨some nbr.id, nbr.ostNbrN, nbr.ostNbrTOffset, false, false, false⟩
  if s.schedule.tschLocked then some (input, nbr)
  else if nbr.ostNbrN = ostPigg1 then
    some (input, { nbr with ostConsecutiveNewTxScheduleRequest := 0 })
  else if ostNOffsetNewTxRequest ≤ ostPigg1 then
    let newN := ostPigg1 - ostNOffsetNewTxRequest
    let requests := nbr.ostConsecutiveNewTxScheduleRequest + 1
    if ostThresConsecutiveNewTxScheduleRequest ≤ requests then
      some ({ input with ostPrNNewN := newN, ostFlagRespondToConsecNewTxSchedReq := true },
        { nbr with ostConsecutiveNewTxScheduleRequest := 0 })
    else s.processNewN stack rand { nbr with ostConsecutiveNewTxScheduleRequest := requests } newN
  else s.processNewN stack rand { nbr with ostConsecutiveNewTxScheduleRequest := 0 } ostPigg1

/-- `ost_process_rx_N` -/
def ostProcessRxN (rand : BitVec 16) (frame : RxFrame) :
    Option (RxInput × Option RxNbr) :=
  match frame.ds6Nbr with
  | none => some (.idle, none)
  | some nbr =>
    if !frame.isBroadcast && frame.isRoutingNbr && !nbr.ostRxNoPath then
      (s.processNbr stack rand nbr frame.ostPigg1).map fun r => (r.1, some r.2)
    else some (.idle, some nbr)

end

end OstRx

/-! ## After the slot -/

section

variable (cfg : ScheduleConfig) (schedule : TschSchedule)

/-- `ost_remove_rx` -/
def ostRemoveRx (id : BitVec 16) :
    Option TschSchedule :=
  let handle := ostGetRxSfHandleFromId id
  match schedule.slotframe handle with
  | none => some schedule
  | some _ => schedule.tschScheduleRemoveSlotframe cfg handle

/-- `ost_add_rx` -/
def ostAddRx (id N tOffset : BitVec 16) :
    Option TschSchedule :=
  if N ≠ 0xffff ∧ tOffset ≠ 0xffff then
    let handle := ostGetRxSfHandleFromId id
    match oneShl N.toNat with
    | none => none
    | some size =>
      match schedule.slotframe handle with
      | some _ => some schedule
      | none =>
        let schedule := schedule.tschScheduleAddSlotframe cfg handle (BitVec.ofInt 16 size)
        match schedule.slotframe handle with
        | none => some schedule
        | some _ => some (schedule.tschScheduleAddLink cfg handle linkOptionRx tschBroadcastAddress
            tOffset 3 true true).1
  else some schedule

/-- `ost_post_process_rx_N`, with the schedule as it is when the slot operation is over. -/
def ostPostProcessRxN (input : RxInput) :
    Option TschSchedule :=
  if input.ostFlagChangeRxSchedule then
    match input.ostPrNNbr with
    | none => some schedule
    | some id =>
      match ostRemoveRx cfg schedule id with
      | none => none
      | some schedule => ostAddRx cfg schedule id input.ostPrNNewN input.ostPrNNewTOffset
  else some schedule

end

/-- A frame is received in a slot, and looked at again after it. -/
def OstRx.receive (cfg : ScheduleConfig) (s : OstRx) (stack : ℕ → Bool) (rand : BitVec 16)
    (frame : RxFrame) (later : TschSchedule) : Option TschSchedule :=
  match s.ostProcessRxN stack rand frame with
  | none => none
  | some (input, _) => ostPostProcessRxN cfg later input

/-! ## What stays in range -/

/-- The numbers with which a selection stays in range: a period that fits the table, and the one
whose size is negative, so that no loop over the table runs. -/
def FitsToc (N : ℕ) : Prop := N ≤ ostNMax ∨ N = 31

namespace OstRx

/-- The neighbors that wait have periods that can be written down. -/
def WaitingOk (s : OstRx) (target : BitVec 16) : Prop :=
  (∀ b ∈ s.inputNbrs target, b.ostNbrN.toNat ≤ 32) ∧ ∀ b ∈ s.dequeuedNbrs, b.ostMyN.toNat ≤ 32

/-- **The condition**: when a routing neighbor sends a number that is not the one it has sent
before, without the lock and not as one request too many, the number and those of the neighbors
that wait are in range. -/
def InRange (s : OstRx) (frame : RxFrame) : Prop :=
  ∀ nbr ∈ frame.ds6Nbr, frame.isBroadcast = false → frame.isRoutingNbr = true →
    nbr.ostRxNoPath = false → s.schedule.tschLocked = false → nbr.ostNbrN ≠ frame.ostPigg1 →
    if ostNOffsetNewTxRequest ≤ frame.ostPigg1 then
      nbr.ostConsecutiveNewTxScheduleRequest + 1 < ostThresConsecutiveNewTxScheduleRequest →
        FitsToc (frame.ostPigg1 - ostNOffsetNewTxRequest).toNat ∧ s.WaitingOk nbr.id
    else FitsToc frame.ostPigg1.toNat ∧ s.WaitingOk nbr.id

end OstRx

variable {N M i j : ℕ} {toc : ℕ → Bool} {size : ℤ} {s : OstRx} {target rand : BitVec 16}

theorem oneShl_eq (h : N < 31) : oneShl N = some (2 ^ N) := by
  rw [oneShl, if_pos (by omega)]
  interval_cases N <;> rfl

theorem oneShl_isSome : (oneShl N).isSome = true ↔ N < 32 := by
  rw [oneShl]
  split <;> simp [*]

/-- The sizes that a table of `2 ^ OST_N_MAX` entries has room for. -/
theorem fitsToc_iff : FitsToc N ↔ ∃ size, oneShl N = some size ∧ size ≤ 2 ^ ostNMax := by
  constructor
  · intro h
    refine h.elim (fun h => ?_) fun h => ⟨-2 ^ 31, by rw [h]; rfl, by decide⟩
    have hN : N < 31 := Nat.lt_of_le_of_lt h (by decide)
    exact ⟨_, oneShl_eq hN, pow_le_pow_right₀ (by decide) h⟩
  · intro ⟨size, hsize, hle⟩
    have hlt := oneShl_isSome.mp (isSome_of_mem hsize)
    by_cases hN : N < 31
    · rw [oneShl_eq hN, Option.some.injEq] at hsize
      refine .inl (Nat.le_of_not_lt fun hgt => ?_)
      have hpow : (2 : ℤ) ^ ostNMax < 2 ^ N := pow_lt_pow_right₀ (by decide) hgt
      omega
    · exact .inr (by omega)

/-- With a size that is known, what fits is a matter of the size. -/
theorem fitsToc_iff_le (hsize : oneShl N = some size) : FitsToc N ↔ size ≤ 2 ^ ostNMax := by
  rw [fitsToc_iff, hsize]
  simp

/-- The table is initialized if it has room. -/
theorem initToc_isSome (hi : i ≤ 2 ^ ostNMax) : (initToc N i toc).isSome = true ↔ FitsToc N := by
  induction hn : 2 ^ ostNMax - i generalizing i toc with
  | zero =>
    have hi : i = 2 ^ ostNMax := by omega
    rw [initToc, hi]
    cases hsize : oneShl N with
    | none => simp [fitsToc_iff, hsize]
    | some size =>
      rw [fitsToc_iff_le hsize]
      by_cases hlt : ((2 ^ ostNMax : ℕ) : ℤ) < size
      · simp only [if_pos hlt, if_neg (Nat.lt_irrefl _)]
        exact iff_of_false (by simp) (by push_cast at hlt; omega)
      · simp only [if_neg hlt]
        exact iff_of_true rfl (by push_cast at hlt; omega)
  | succ n ih =>
    have hlt : i < 2 ^ ostNMax := by omega
    rw [initToc]
    cases hsize : oneShl N with
    | none => simp [fitsToc_iff, hsize]
    | some size =>
      by_cases hmore : (i : ℤ) < size
      · simp only [if_pos hmore, if_pos hlt]
        exact ih (Nat.succ_le_of_lt hlt) (by omega)
      · simp only [if_neg hmore]
        refine iff_of_true rfl ((fitsToc_iff_le hsize).mpr ?_)
        have hpow : ((2 ^ ostNMax : ℕ) : ℤ) = 2 ^ ostNMax := by push_cast; rfl
        omega

/-- A slotframe is marked if its period can be written down. -/
theorem eliminateOverlapToc_isSome (hN : FitsToc N) (tOffset : BitVec 16) :
    (eliminateOverlapToc toc N M tOffset).isSome = true ↔ M ≤ 32 := by
  have hN31 : N ≤ 31 := hN.elim (fun h => h.trans (by decide)) Nat.le_of_eq
  induction hd : (M - N) + (N - M) generalizing M toc tOffset with
  | zero =>
    have hMN : M = N := by omega
    subst hMN
    have ⟨size, hsize, hle⟩ := fitsToc_iff.mp hN
    rw [eliminateOverlapToc, if_neg (Nat.lt_irrefl _), if_neg (Nat.lt_irrefl _), hsize]
    refine iff_of_true ?_ (by omega)
    simp only
    by_cases hbig : size ≤ tOffset.toNat
    · rw [if_pos hbig]
      rfl
    · have hpow : ((2 ^ ostNMax : ℕ) : ℤ) = 2 ^ ostNMax := by push_cast; rfl
      have hin : tOffset.toNat < 2 ^ ostNMax := by omega
      rw [if_neg hbig, if_pos hin]
      rfl
  | succ d ih =>
    rw [eliminateOverlapToc]
    by_cases hlower : N < M
    · rw [if_pos hlower]
      cases hsize : oneShl (M - 1) with
      | none =>
        have hlarge : ¬ M - 1 < 32 := fun h =>
          absurd (oneShl_isSome.mpr h) (by rw [hsize]; decide)
        exact iff_of_false (by simp) (by omega)
      | some size =>
        have hlt := oneShl_isSome.mp (isSome_of_mem hsize)
        refine Iff.trans (ih _ (by omega)) (by omega)
    · have hhigher : M < N := by omega
      rw [if_neg hlower, if_pos hhigher, oneShl_eq (by omega)]
      have hleft := fun toc => (@ih (M + 1) toc tOffset (by omega)).mpr (by omega)
      have ⟨toc', htoc'⟩ := isSome_iff_exists.mp (hleft toc)
      simp only [htoc']
      exact Iff.trans (ih _ (by omega)) (by omega)

/-- In range, the table is marked as with numbers that are not cut to 16 bits. -/
theorem eliminateOverlapToc_eq (hN : N ≤ ostNMax) (hM : M ≤ ostNMax) {tOffset : BitVec 16}
    (ht : tOffset.toNat < 2 ^ M) :
    eliminateOverlapToc toc N M tOffset = some (ostEliminateOverlapToc toc N M tOffset.toNat) := by
  have hmax : ostNMax = 8 := rfl
  induction hd : (M - N) + (N - M) generalizing M toc tOffset with
  | zero =>
    have hMN : M = N := by omega
    subst hMN
    have hpow : ((2 ^ M : ℕ) : ℤ) = 2 ^ M := by push_cast; rfl
    have hlt : tOffset.toNat < 2 ^ ostNMax :=
      Nat.lt_of_lt_of_le ht (Nat.pow_le_pow_right (by decide) hM)
    have hin : ¬ (2 : ℤ) ^ M ≤ tOffset.toNat := by omega
    have hsize := oneShl_eq (N := M) (by omega)
    rw [eliminateOverlapToc, ostEliminateOverlapToc]
    simp only [Nat.lt_irrefl, if_false, hsize, if_neg hin, if_pos hlt,
      if_neg (Nat.not_le_of_lt ht)]
  | succ d ih =>
    rw [eliminateOverlapToc, ostEliminateOverlapToc]
    by_cases hlower : N < M
    · have hmod : (BitVec.ofInt 16 (Int.tmod tOffset.toNat (2 ^ (M - 1)))).toNat =
          tOffset.toNat % 2 ^ (M - 1) := by
        have hcast : Int.tmod tOffset.toNat (2 ^ (M - 1)) =
            ((tOffset.toNat % 2 ^ (M - 1) : ℕ) : ℤ) := by
          rw [Int.tmod_eq_emod_of_nonneg (Int.natCast_nonneg _)]
          push_cast
          rfl
        rw [hcast, BitVec.ofInt_natCast, BitVec.toNat_ofNat]
        exact Nat.mod_eq_of_lt (Nat.lt_of_le_of_lt (Nat.mod_le _ _) tOffset.isLt)
      rw [if_pos hlower, if_pos hlower, oneShl_eq (by omega), ← hmod]
      refine ih (by omega) ?_ (by omega)
      rw [hmod]
      exact Nat.mod_lt _ (by positivity)
    · have hhigher : M < N := by omega
      have hpow : 2 ^ M ≤ 2 ^ 7 := Nat.pow_le_pow_right (by decide) (by omega)
      have hadd : (BitVec.ofInt 16 (tOffset.toNat + 2 ^ M)).toNat = tOffset.toNat + 2 ^ M := by
        have hcast : (tOffset.toNat + 2 ^ M : ℤ) = ((tOffset.toNat + 2 ^ M : ℕ) : ℤ) := by
          push_cast
          rfl
        rw [hcast, BitVec.ofInt_natCast, BitVec.toNat_ofNat]
        exact Nat.mod_eq_of_lt (by omega)
      rw [if_neg hlower, if_pos hhigher, if_neg hlower, if_pos hhigher, oneShl_eq (by omega)]
      simp only
      rw [ih (by omega) (by rw [Nat.pow_succ]; omega) (by omega)]
      simp only
      rw [ih (by omega) (by rw [hadd, Nat.pow_succ]; omega) (by omega), hadd]

/-- **Exactly the offsets of the residue class are taken** out of the table, and all others stay. -/
theorem eliminateOverlapToc_exact (toc : ℕ → Bool) (hN : N ≤ ostNMax) (hM : M ≤ ostNMax)
    {tOffset : BitVec 16} (ht : tOffset.toNat < 2 ^ M) :
    ∃ toc', eliminateOverlapToc toc N M tOffset = some toc' ∧
      ∀ j, toc' j = if j < 2 ^ N ∧ j % 2 ^ min N M = tOffset.toNat % 2 ^ min N M then false
        else toc j := by
  refine ⟨_, eliminateOverlapToc_eq hN hM ht, fun j => ?_⟩
  by_cases hj : j < 2 ^ N
  · rw [ostEliminateOverlapToc_apply toc ht hj]
    by_cases hmeets : j % 2 ^ min N M = tOffset.toNat % 2 ^ min N M <;>
      simp [Lib.Dyadic.Meets, hj, hmeets]
  · rw [if_neg fun h => hj h.1, ostEliminateOverlapToc_of_ge toc ht (Nat.le_of_not_lt hj)]

/-- An offset of a slotframe of two slots, in a table for four. -/
theorem eliminateOverlapToc_two : (2 ≤ ostNMax ∧ 1 ≤ ostNMax ∧ (1 : BitVec 16).toNat < 2 ^ 1) ∧
    ∃ toc', eliminateOverlapToc (fun _ => true) 2 1 1 = some toc' ∧
      ∀ j, toc' j = if j < 2 ^ 2 ∧ j % 2 ^ min 2 1 = (1 : BitVec 16).toNat % 2 ^ min 2 1 then false
        else true :=
  ⟨by decide, eliminateOverlapToc_exact _ (by decide) (by decide) (by decide)⟩

theorem findInstallable_isSome (hsize : size ≤ 2 ^ ostNMax) (r : ℕ) :
    (findInstallable toc size r i j).isSome = true := by
  induction hn : (size - i).toNat generalizing i j with
  | zero =>
    have hle : ¬ (i : ℤ) < size := by omega
    rw [findInstallable, if_neg hle]
    rfl
  | succ n ih =>
    have hlt : (i : ℤ) < size := by omega
    have hpow : ((2 ^ ostNMax : ℕ) : ℤ) = 2 ^ ostNMax := by push_cast; rfl
    have hin : (i + r) % size.toNat < 2 ^ ostNMax :=
      Nat.lt_of_lt_of_le (Nat.mod_lt _ (by omega)) (by omega)
    rw [findInstallable, if_pos hlt]
    simp only [if_pos hin]
    split
    · rfl
    · exact ih (by omega)

/-! ## The selection -/

theorem foldlM_isSome {α β : Type*} {f : β → α → Option β} {P : α → Prop} {as : List α}
    (hf : ∀ a ∈ as, ∀ b, (f b a).isSome = true ↔ P a) (b : β) :
    (as.foldlM f b).isSome = true ↔ ∀ a ∈ as, P a := by
  induction as generalizing b with
  | nil => simp
  | cons a as ih =>
    have ⟨hfirst, hrest⟩ := List.forall_mem_cons.mp hf
    rw [List.foldlM_cons, List.forall_mem_cons, ← hfirst b]
    cases hb : f b a with
    | none => simp
    | some b' => simp [ih hrest b']

namespace OstRx

/-- The installed slotframes have small periods, whatever their sizes are. -/
theorem installedProvision_le {sf : TschSlotframe} {p : ℕ × BitVec 16}
    (h : s.installedProvision sf = some p) : p.1 ≤ 32 := by
  rw [installedProvision] at h
  split at h
  · rename_i n l hn _
    cases h
    have hmem := List.mem_range'.mp (List.mem_of_find?_eq_some hn)
    simp only [ostNMax] at hmem
    omega
  · cases h

theorem forall_used_iff : (∀ p ∈ s.used target, p.1 ≤ 32) ↔ s.WaitingOk target := by
  have hinstalled : ∀ sfs : List TschSlotframe, ∀ p ∈ sfs.filterMap s.installedProvision,
      p.1 ≤ 32 := fun sfs p hp => by
    have ⟨_, _, hsf⟩ := List.mem_filterMap.mp hp
    exact installedProvision_le hsf
  simp only [used, List.forall_mem_append, List.forall_mem_map, WaitingOk]
  exact and_iff_left (hinstalled _)

theorem ostSelectTOffset_isSome (stack : ℕ → Bool) :
    (s.ostSelectTOffset stack target N rand).isSome = true ↔ FitsToc N ∧ s.WaitingOk target := by
  rw [← forall_used_iff, ostSelectTOffset, ← @initToc_isSome N 0 stack (Nat.zero_le _)]
  cases hinit : initToc N 0 stack with
  | none => simp
  | some toc =>
    have hfits : FitsToc N := (initToc_isSome (Nat.zero_le _)).mp (isSome_of_mem hinit)
    have ⟨size, hsize, hle⟩ := fitsToc_iff.mp hfits
    have hloop := foldlM_isSome (f := fun toc p => eliminateOverlapToc toc N p.1 p.2)
      (fun p (_ : p ∈ s.used target) toc => eliminateOverlapToc_isSome hfits p.2) toc
    simp only [isSome_some, true_and, ← hloop, bind_eq_bind, bind_some, hsize]
    cases (s.used target).foldlM (fun toc p => eliminateOverlapToc toc N p.1 p.2) toc with
    | none => simp
    | some toc' => simp [findInstallable_isSome hle]

/-- A new number is processed if it is in range, and then it is one that can be installed. -/
theorem processNewN_spec (stack : ℕ → Bool) (nbr : RxNbr) (newN : BitVec 16) :
    ((s.processNewN stack rand nbr newN).isSome = true ↔
      FitsToc newN.toNat ∧ s.WaitingOk nbr.id) ∧
    ∀ r ∈ s.processNewN stack rand nbr newN, r.1.ostPrNNewN.toNat < 32 := by
  have hselect := @ostSelectTOffset_isSome newN.toNat s nbr.id rand stack
  rw [processNewN, ← hselect]
  cases hoffset : s.ostSelectTOffset stack nbr.id newN.toNat rand with
  | none => exact ⟨by simp, fun r hr => by simp at hr⟩
  | some selectedTOffset =>
    have hfits := (hselect.mp (isSome_of_mem hoffset)).1
    have hlt : newN.toNat < 32 :=
      hfits.elim (fun h => Nat.lt_of_le_of_lt h (by decide)) fun h => by omega
    simp only [bind_eq_bind, bind_some]
    split
    · exact ⟨iff_of_true rfl rfl, fun r hr => by cases hr; exact hlt⟩
    · exact ⟨iff_of_true rfl rfl, fun r hr => by cases hr; exact hlt⟩

end OstRx

/-! ## After the slot -/

section

variable (cfg : ScheduleConfig)

/-- A link is removed without the lock, which is free again afterwards. -/
theorem removeLink_unlocked {schedule : TschSchedule}
    (h : schedule.tschLocked = false) (handle : BitVec 16) (l : LinkId) :
    (schedule.tschScheduleRemoveLink cfg handle l).tschLocked = false := by
  simp only [TschSchedule.tschScheduleRemoveLink, TschSchedule.freeLink]
  split_ifs <;> first | exact h | rfl

theorem ostRemoveRx_isSome {schedule : TschSchedule}
    (h : schedule.tschLocked = false) (id : BitVec 16) :
    (ostRemoveRx cfg schedule id).isSome = true := by
  simp only [ostRemoveRx, TschSchedule.tschScheduleRemoveSlotframe]
  cases hsf : schedule.slotframe (ostGetRxSfHandleFromId id) with
  | none => rfl
  | some sf =>
    have hloop : (sf.linksList.foldl (fun s l =>
        s.tschScheduleRemoveLink cfg (ostGetRxSfHandleFromId id) l) schedule).tschLocked = false :=
      List.foldlRecOn (motive := fun s : TschSchedule => s.tschLocked = false) sf.linksList _ h
        fun _ hs l _ => removeLink_unlocked cfg hs _ l
    simp only [hloop]
    rfl

theorem ostAddRx_isSome (schedule : TschSchedule) {id newN tOffset : BitVec 16}
    (h : newN.toNat < 32) : (ostAddRx cfg schedule id newN tOffset).isSome = true := by
  have ⟨size, hsize⟩ := isSome_iff_exists.mp (oneShl_isSome.mpr h)
  simp only [ostAddRx, hsize]
  split
  · split
    · rfl
    · split <;> rfl
  · rfl

theorem ostPostProcessRxN_isSome {schedule : TschSchedule}
    (h : schedule.tschLocked = false) {input : RxInput}
    (hN : input.ostFlagChangeRxSchedule = true → input.ostPrNNewN.toNat < 32) :
    (ostPostProcessRxN cfg schedule input).isSome = true := by
  rw [ostPostProcessRxN]
  split
  · rename_i hflag
    split
    · rfl
    · rename_i id _
      have ⟨removed, hremoved⟩ := isSome_iff_exists.mp (ostRemoveRx_isSome cfg h id)
      rw [hremoved]
      exact ostAddRx_isSome cfg removed (hN hflag)
  · rfl

end

/-! ## The reception -/

namespace OstRx

/-- The number of a routing neighbor. -/
theorem processNbr_spec (stack : ℕ → Bool) (nbr : RxNbr) (ostPigg1 : BitVec 16) :
    ((s.processNbr stack rand nbr ostPigg1).isSome = true ↔
      (s.schedule.tschLocked = false → nbr.ostNbrN ≠ ostPigg1 →
        if ostNOffsetNewTxRequest ≤ ostPigg1 then
          nbr.ostConsecutiveNewTxScheduleRequest + 1 < ostThresConsecutiveNewTxScheduleRequest →
            FitsToc (ostPigg1 - ostNOffsetNewTxRequest).toNat ∧ s.WaitingOk nbr.id
        else FitsToc ostPigg1.toNat ∧ s.WaitingOk nbr.id)) ∧
    ∀ r ∈ s.processNbr stack rand nbr ostPigg1,
      r.1.ostFlagChangeRxSchedule = true → r.1.ostPrNNewN.toNat < 32 := by
  rw [processNbr]
  cases hlock : s.schedule.tschLocked with
  | true =>
    refine ⟨by simp, fun r hr hflag => ?_⟩
    cases hr
    cases hflag
  | false =>
    by_cases hsame : nbr.ostNbrN = ostPigg1
    · refine ⟨by simp [hsame], fun r hr hflag => ?_⟩
      rw [if_neg Bool.false_ne_true, if_pos hsame] at hr
      cases hr
      cases hflag
    · simp only [Bool.false_eq_true, if_false, forall_const, ne_eq, hsame, not_false_eq_true]
      by_cases hreq : ostNOffsetNewTxRequest ≤ ostPigg1
      · simp only [if_pos hreq]
        by_cases hmany : ostThresConsecutiveNewTxScheduleRequest ≤
            nbr.ostConsecutiveNewTxScheduleRequest + 1
        · rw [if_pos hmany]
          refine ⟨iff_of_true rfl fun hlt => absurd hmany (BitVec.not_le.mpr hlt), ?_⟩
          intro r hr hflag
          cases hr
          cases hflag
        · have hspec := @processNewN_spec s rand stack
            { nbr with ostConsecutiveNewTxScheduleRequest :=
              nbr.ostConsecutiveNewTxScheduleRequest + 1 } (ostPigg1 - ostNOffsetNewTxRequest)
          rw [if_neg hmany, hspec.1]
          exact ⟨⟨fun h _ => h, fun h => h (BitVec.not_le.mp hmany)⟩, fun r hr _ => hspec.2 r hr⟩
      · have hspec := @processNewN_spec s rand stack
          { nbr with ostConsecutiveNewTxScheduleRequest := 0 } ostPigg1
        simp only [if_neg hreq]
        exact ⟨hspec.1, fun r hr _ => hspec.2 r hr⟩

/-- **The reception of N** ends with every index and every shift in range exactly if the number
meets the condition. -/
theorem rx_N_in_range (cfg : ScheduleConfig) (s : OstRx) (stack : ℕ → Bool) (rand : BitVec 16)
    (frame : RxFrame) {later : TschSchedule} (hlater : later.tschLocked = false) :
    (s.receive cfg stack rand frame later).isSome = true ↔ s.InRange frame := by
  rw [receive, ostProcessRxN]
  cases hnbr : frame.ds6Nbr with
  | none =>
    refine iff_of_true rfl fun nbr hmem => ?_
    rw [hnbr] at hmem
    cases hmem
  | some nbr =>
    have hin : s.InRange frame ↔ (frame.isBroadcast = false → frame.isRoutingNbr = true →
        nbr.ostRxNoPath = false → (s.processNbr stack rand nbr frame.ostPigg1).isSome = true) := by
      rw [(processNbr_spec stack nbr frame.ostPigg1).1, InRange, hnbr]
      simp
    rw [hin]
    simp only
    by_cases haccepted : (!frame.isBroadcast && frame.isRoutingNbr && !nbr.ostRxNoPath) = true
    · rw [if_pos haccepted]
      have ⟨⟨hbroadcast, hrouting⟩, hpath⟩ : (frame.isBroadcast = false ∧
          frame.isRoutingNbr = true) ∧ nbr.ostRxNoPath = false := by
        simpa [Bool.and_eq_true] using haccepted
      simp only [hbroadcast, hrouting, hpath, forall_const]
      cases hprocess : s.processNbr stack rand nbr frame.ostPigg1 with
      | none => simp
      | some r =>
        have hN := (processNbr_spec stack nbr frame.ostPigg1).2 r hprocess
        exact iff_of_true (ostPostProcessRxN_isSome cfg hlater hN) rfl
    · rw [if_neg haccepted]
      refine iff_of_true rfl fun hbroadcast hrouting hpath => ?_
      simp [hbroadcast, hrouting, hpath] at haccepted

/-- A node without slotframes and with empty rings. -/
def idle : OstRx where
  schedule := ⟨[], fun _ => ⟨0, tschBroadcastAddress, 0, 0, 0⟩, fun _ => false, fun _ => none, false⟩
  inputRingbuf := RingbufIndex.init 16
  inputArray _ := ⟨false, none⟩
  dequeuedRingbuf := RingbufIndex.init 16
  dequeuedArray _ := ⟨false, none, false⟩

/-- A frame of a routing neighbor from which no number has been received. -/
def firstN (ostPigg1 : BitVec 16) : RxFrame where
  isBroadcast := false
  ostPigg1 := ostPigg1
  ds6Nbr := some ⟨⟨5, 0xffff, 0xffff, false, 0xffff, 0xffff⟩, false, 0⟩
  isRoutingNbr := true

/-- The longest period. -/
theorem rx_N_in_range_eight :
    (idle.receive ⟨8, 4, 16, true, false⟩ (fun _ => false) 3 (firstN 8) idle.schedule).isSome =
      true := by
  refine (rx_N_in_range _ idle _ 3 (firstN 8) rfl).mpr ?_
  intro nbr hnbr _ _ _ _ _
  cases hnbr
  rw [if_neg (by decide)]
  exact ⟨.inl (by decide), by decide, by decide⟩

/-- A period that is twice the longest one overruns the table. -/
theorem nine_overruns_table :
    idle.ostProcessRxN (fun _ => false) 3 (firstN 9) = none := by
  have hselect : idle.ostSelectTOffset (fun _ => false) 5 9 3 = none := by
    rw [← Option.not_isSome_iff_eq_none, ostSelectTOffset_isSome]
    exact fun h => h.1.elim (by decide) (by decide)
  have hnbr : idle.processNbr (fun _ => false) 3
      ⟨⟨5, 0xffff, 0xffff, false, 0xffff, 0xffff⟩, false, 0⟩ 9 = none := by
    rw [processNbr, if_neg (by decide), if_neg (by decide), if_neg (by decide), processNewN]
    exact congrArg (Option.bind · _) hselect
  exact congrArg (Option.map fun r : RxInput × RxNbr => (r.1, some r.2)) hnbr

end OstRx

end Asap.Ost
