import Asap.Tsch.Asn
import Asap.Tsch.Schedule

/-!
# The choice of the next active link

`tsch_schedule_get_next_active_link` goes over the links of all slotframes and keeps
the one that comes first after an ASN. Of two links at the same time it prefers the Tx
link, then the lower handle of the slotframe, then the one with more packets to send;
the link left out is kept as a backup if it can receive. The two ways the source
maintains the backup, by `HCK_APPLY_LATEST_CONTIKI`, are both here.

Whatever the links and the times are computed from, the link kept has its own time, no
link considered has an earlier one, and the backup is at the same time.

## Main definitions

* `timeToTimeslot` — the slots to the next occurrence of a timeslot.
* `Selection`, `considerLink` — what the loop keeps, and one turn of it.
* `Selection.Chosen`, `Selection.AtMost` — a property of the links kept, and a bound on
  their time.
-/

namespace Asap.Tsch

/-- The options of an Rx link. -/
def isRx (options : BitVec 8) : Bool := options &&& linkOptionRx != 0

/-- The slots from an ASN to the next occurrence of a timeslot, at least one. -/
def timeToTimeslot (asn : TschAsn) (size linkTimeslot : BitVec 16) : BitVec 16 :=
  let timeslot := BitVec.ofNat 16 (asn.mod (.init size))
  if timeslot < linkTimeslot then linkTimeslot - timeslot else size + linkTimeslot - timeslot

theorem toNat_mod_init (asn : TschAsn) {size : BitVec 16} (h : 0 < size.toNat) :
    (BitVec.ofNat 16 (asn.mod (.init size))).toNat = asn.val % size.toNat := by
  have hlt := Nat.mod_lt asn.val h
  have hsize := size.isLt
  rw [TschAsn.mod_init asn h, BitVec.toNat_ofNat]
  exact Nat.mod_eq_of_lt (by omega)

/-- The time in terms of the ASN: in this slotframe, or in the next one. -/
theorem toNat_timeToTimeslot (asn : TschAsn) {size linkTimeslot : BitVec 16}
    (h : linkTimeslot.toNat < size.toNat) :
    (timeToTimeslot asn size linkTimeslot).toNat =
      if asn.val % size.toNat < linkTimeslot.toNat then linkTimeslot.toNat - asn.val % size.toNat
      else size.toNat + linkTimeslot.toNat - asn.val % size.toNat := by
  have hpos : 0 < size.toNat := by omega
  have hmod := toNat_mod_init asn hpos
  have hlt := Nat.mod_lt asn.val hpos
  have hsize := size.isLt
  simp only [timeToTimeslot, BitVec.lt_def, hmod]
  split_ifs with hc
  · rw [BitVec.toNat_sub, hmod]
    omega
  · rw [BitVec.toNat_sub, BitVec.toNat_add, hmod]
    omega

/-- `curr_best`, `time_to_curr_best` and `curr_backup`. -/
structure Selection where
  currBest : Option LinkId
  timeToCurrBest : BitVec 16
  currBackup : Option LinkId
deriving DecidableEq, Repr

/-- Nothing found yet. -/
def Selection.nothing : Selection := ⟨none, 0, none⟩

namespace TschSchedule

section

variable (s : TschSchedule)

/-- The number of packets in the queue of an address. -/
def packetCount (addr : LinkAddr) : ℕ :=
  match s.tschQueueGetNbr addr with
  | none => 0
  | some n => n.tx.ringbuf.elements

/-- `default_tsch_link_comparator` -/
def defaultTschLinkComparator (a b : LinkId) : LinkId :=
  if !isTx (s.links a).linkOptions then a
  else if (s.links a).addr ≠ (s.links b).addr then
    if s.packetCount (s.links b).addr ≤ s.packetCount (s.links a).addr then a else b
  else a

/-- `new_best`, of two links at the same time; `none` keeps the current one. -/
def newBest (currBest l : LinkId) : Option LinkId :=
  if isTx (s.links currBest).linkOptions = isTx (s.links l).linkOptions then
    if (s.links l).slotframeHandle ≠ (s.links currBest).slotframeHandle then
      if (s.links l).slotframeHandle < (s.links currBest).slotframeHandle then some l else none
    else some (s.defaultTschLinkComparator currBest l)
  else if isTx (s.links l).linkOptions then some l
  else none

section

variable (applyLatestContiki : Bool)

/-- Whether a backup may take the place of another: with the latest version when there
is none or the handle is lower, otherwise in any case. -/
def backupGivesWay (currBackup : Option LinkId)
    (l : LinkId) : Bool :=
  !applyLatestContiki ||
    currBackup.all fun b => (s.links l).slotframeHandle < (s.links b).slotframeHandle

/-- A link as the backup, when it is not the new best link and can receive. -/
def tryBackup (newBest : Option LinkId)
    (l : LinkId) (currBackup : Option LinkId) : Option LinkId :=
  if newBest ≠ some l && isRx (s.links l).linkOptions &&
      s.backupGivesWay applyLatestContiki currBackup l then some l
  else currBackup

/-- `curr_backup` after two links at the same time. The older version leaves a backup
alone once there is one. -/
def newBackup (newBest : Option LinkId)
    (currBest l : LinkId) (currBackup : Option LinkId) : Option LinkId :=
  if applyLatestContiki || currBackup.isNone then
    s.tryBackup applyLatestContiki newBest currBest
      (s.tryBackup applyLatestContiki newBest l currBackup)
  else currBackup

/-- One turn of the loop over the links. -/
def considerLink (l : LinkId) (time : BitVec 16)
    (sel : Selection) : Selection :=
  match sel.currBest with
  | none => ⟨some l, time, none⟩
  | some currBest =>
    if time < sel.timeToCurrBest then ⟨some l, time, none⟩
    else if time = sel.timeToCurrBest then
      { sel with
        currBest := some ((s.newBest currBest l).getD currBest)
        currBackup :=
          s.newBackup applyLatestContiki (s.newBest currBest l) currBest l sel.currBackup }
    else sel

end

end

end TschSchedule

/-! ## What is kept -/

namespace Selection

/-- The links kept have a property, at their time. -/
structure Chosen (Q : LinkId → BitVec 16 → Prop) (sel : Selection) : Prop where
  best : ∀ l, sel.currBest = some l → Q l sel.timeToCurrBest
  backup : ∀ l, sel.currBackup = some l → Q l sel.timeToCurrBest

/-- A link is kept, and its time is at most a bound. -/
def AtMost (sel : Selection) (time : BitVec 16) : Prop :=
  sel.currBest.isSome = true ∧ sel.timeToCurrBest ≤ time

theorem chosen_nothing (Q : LinkId → BitVec 16 → Prop) : nothing.Chosen Q :=
  ⟨fun _ h => by simp [nothing] at h, fun _ h => by simp [nothing] at h⟩

end Selection

namespace TschSchedule

variable {s : TschSchedule} {latest : Bool} {sel : Selection}

theorem newBest_mem {currBest l x : LinkId} (h : s.newBest currBest l = some x) :
    x = currBest ∨ x = l := by
  simp only [newBest, defaultTschLinkComparator] at h
  split_ifs at h <;> simp_all

theorem tryBackup_mem {newBest currBackup : Option LinkId} {l x : LinkId}
    (h : s.tryBackup latest newBest l currBackup = some x) : x = l ∨ currBackup = some x := by
  simp only [tryBackup] at h
  split_ifs at h
  · exact Or.inl (Option.some.inj h).symm
  · exact Or.inr h

theorem newBackup_mem {newBest currBackup : Option LinkId} {currBest l x : LinkId}
    (h : s.newBackup latest newBest currBest l currBackup = some x) :
    x = currBest ∨ x = l ∨ currBackup = some x := by
  simp only [newBackup] at h
  split_ifs at h
  · rcases tryBackup_mem h with h | h
    · exact Or.inl h
    · exact Or.inr (tryBackup_mem h)
  · exact Or.inr (Or.inr h)

/-- The links kept come from the links considered. -/
theorem considerLink_chosen {Q : LinkId → BitVec 16 → Prop} {l : LinkId} {time : BitVec 16}
    (h : sel.Chosen Q) (hl : Q l time) : (s.considerLink latest l time sel).Chosen Q := by
  have halone : Selection.Chosen Q ⟨some l, time, none⟩ :=
    ⟨fun x hx => by cases hx; exact hl, fun x hx => by simp at hx⟩
  cases hbest : sel.currBest with
  | none => simpa only [considerLink, hbest] using halone
  | some currBest =>
    simp only [considerLink, hbest]
    split_ifs with hlt heq
    · exact halone
    · subst heq
      have hcurr := h.best currBest hbest
      refine ⟨fun x hx => ?_, fun x hx => ?_⟩
      · cases hnew : s.newBest currBest l with
        | none => simp_all
        | some y =>
          simp only [hnew, Option.getD_some, Option.some.injEq] at hx
          rcases newBest_mem hnew with hy | hy
          · rwa [← hx, hy]
          · rwa [← hx, hy]
      · rcases newBackup_mem hx with hx | hx | hx
        · rwa [hx]
        · rwa [hx]
        · exact h.backup x hx
    · exact h

/-- The time never grows, and is at most that of the link just considered. -/
theorem considerLink_atMost (l : LinkId) (time : BitVec 16) :
    (s.considerLink latest l time sel).AtMost time ∧
      ∀ bound, sel.AtMost bound → (s.considerLink latest l time sel).AtMost bound := by
  cases hbest : sel.currBest with
  | none =>
    simp only [considerLink, hbest]
    exact ⟨⟨rfl, BitVec.le_refl _⟩, fun bound h => by simp [Selection.AtMost, hbest] at h⟩
  | some currBest =>
    simp only [considerLink, hbest]
    split_ifs with hlt heq
    · exact ⟨⟨rfl, BitVec.le_refl _⟩, fun bound h => ⟨rfl, BitVec.le_trans (BitVec.le_of_lt hlt) h.2⟩⟩
    · exact ⟨⟨rfl, heq ▸ BitVec.le_refl _⟩, fun bound h => ⟨rfl, h.2⟩⟩
    · exact ⟨⟨by rw [hbest]; rfl, BitVec.not_lt.mp hlt⟩, fun bound h => h⟩

variable {ls : List LinkId} {time : LinkId → BitVec 16}

/-- **The links kept by the loop** are links considered, at their own time. -/
theorem foldl_considerLink_chosen {Q : LinkId → BitVec 16 → Prop} (h : sel.Chosen Q)
    (hls : ∀ l ∈ ls, Q l (time l)) :
    (ls.foldl (fun sel l => s.considerLink latest l (time l) sel) sel).Chosen Q := by
  induction ls generalizing sel with
  | nil => exact h
  | cons l ls ih =>
    rw [List.foldl_cons]
    exact ih (considerLink_chosen h (hls l (List.mem_cons_self ..)))
      fun m hm => hls m (List.mem_cons_of_mem _ hm)

/-- **No link considered is earlier** than the one kept by the loop. -/
theorem foldl_considerLink_atMost :
    let sel' := ls.foldl (fun sel l => s.considerLink latest l (time l) sel) sel
    (∀ bound, sel.AtMost bound → sel'.AtMost bound) ∧ ∀ l ∈ ls, sel'.AtMost (time l) := by
  induction ls generalizing sel with
  | nil => exact ⟨fun _ h => h, fun _ hl => by simp at hl⟩
  | cons l ls ih =>
    obtain ⟨hhere, hkeep⟩ := @considerLink_atMost s latest sel l (time l)
    obtain ⟨hbound, hall⟩ := @ih (s.considerLink latest l (time l) sel)
    refine ⟨fun bound h => hbound bound (hkeep bound h), fun m hm => ?_⟩
    rcases List.mem_cons.mp hm with rfl | hm
    · exact hbound _ hhere
    · exact hall m hm

end TschSchedule

end Asap.Tsch
