import Asap.Alice.Cells
import Asap.Tsch.NextActiveLink
import Asap.Tsch.SlotClock

/-!
# The time-varying schedule of ALICE

The cells of the unicast slotframe change from one slotframe to the next. The node
keeps one set of them at a time, for the number in `alice_lastly_scheduled_asfn`, and
installs the next set while it looks for its next active link, as soon as no cell of
the present slotframe is left. It tells the two slotframes apart by
`alice_current_asn`, a copy of the ASN that lags behind while a slot takes more than
one timeslot.

Here the slot operation runs over such a schedule, and each block of the pool carries
the number it was installed for, which the source does not keep. A link that comes up
has the number of the present slotframe as long as the two ASNs are in the same
slotframe whenever the next link is looked up, and the links left over from the last
lookup are the present ones or those of the next slotframe.

## Main definitions

* `AliceSchedule`, `getNextActiveLink` — the schedule and the search for a link.
* `aliceScheduler` — this schedule under the slot operation.
* `Executes` — the links that may run at a wake-up.
* `AsfnCondition` — the condition on an event.
-/

namespace Asap.Tsch

/-- `tsch_queue_update_all_backoff_windows` -/
def TschSchedule.tschQueueUpdateAllBackoffWindows (s : TschSchedule) (destAddr : LinkAddr) :
    TschSchedule :=
  if s.tschLocked then s
  else
    { s with
      nbrs := fun addr => (s.nbrs addr).map fun n =>
        if n.backoffWindow ≠ 0 ∧ ((n.txLinksCount = 0 ∧ destAddr = tschBroadcastAddress) ∨
            (0 < n.txLinksCount.toNat ∧ destAddr = addr)) then
          { n with backoffWindow := n.backoffWindow - 1 }
        else n }

end Asap.Tsch

namespace Asap.Alice

open Asap.Tsch Asap.Tsch.TschSchedule List Option

/-- The build. The links are scheduled for tables with or without room for one more
neighbor. -/
structure TimeVaryingConfig where
  alice : AliceConfig
  schedule : ScheduleConfig
  /-- `ALICE_UNICAST_SF_HANDLE` -/
  unicastHandle : BitVec 16
  hckApplyLatestContiki : Bool
  room : Bool
  withAlice : schedule.withAlice = true
  timeVarying : schedule.aliceTimeVaryingScheduling = true

/-- The schedule, what ALICE knows, and the two links of the slot operation. -/
structure AliceSchedule where
  sched : TschSchedule
  node : AliceNode
  aliceCurrentAsn : TschAsn
  aliceLastlyScheduledAsfn : BitVec 64
  currentLink : Option LinkId
  backupLink : Option LinkId
  /-- the slotframe number a block was installed for; the source does not keep it -/
  asfnOf : LinkId → BitVec 64

/-- The number of the slotframe of an ASN, as the source computes it. -/
def aliceAsfn (asn : TschAsn) (size : BitVec 16) : BitVec 64 :=
  let div := TschAsnDivisor.init size
  BitVec.ofNat 64 ((asn.dec (BitVec.ofNat 32 (asn.mod div))).division div)

/-- Whether a link of a slotframe is left after an ASN. -/
def linkRemains (s : TschSchedule) (asn : TschAsn) (sf : TschSlotframe) : Bool :=
  sf.linksList.any fun l => BitVec.ofNat 16 (asn.mod (.init sf.size)) < (s.links l).timeslot

/-- What the process context does to the other slotframes and to the neighbors: the
links it removes through `tsch_schedule_remove_link`, and what it leaves alone. -/
structure OtherChange (unicastHandle : BitVec 16) where
  apply : TschSchedule → TschSchedule
  removed : TschSchedule → List LinkId
  ok : ∀ s, s.Ok → (apply s).Ok
  slotframe : ∀ s, s.Ok → (apply s).slotframe unicastHandle = s.slotframe unicastHandle
  links : ∀ s, s.Ok → ∀ l ∈ s.linksOf unicastHandle, (apply s).links l = s.links l
  others : ∀ s, s.Ok → ∀ l ∈ s.others unicastHandle, l ∉ removed s →
    l ∈ (apply s).others unicastHandle

/-- What happens to the schedule in the process context. -/
inductive AliceEvent (unicastHandle : BitVec 16) where
  /-- the parent or the routes change -/
  | neighbors (node : AliceNode)
  /-- a callback of the rule schedules the unicast slotframe anew -/
  | schedule
  | other (c : OtherChange unicastHandle)

namespace AliceSchedule

variable (b : TimeVaryingConfig)

/-- `alice_schedule_unicast_slotframe` for the number last scheduled. A current link
that is removed is reset, a backup link is not. -/
def scheduleUnicastSlotframe (st : AliceSchedule) : AliceSchedule :=
  let sched := aliceScheduleUnicastSlotframe b.alice b.schedule b.unicastHandle b.room
    st.aliceLastlyScheduledAsfn st.node st.sched
  { st with
    sched := sched
    currentLink := st.currentLink.filter fun l => l ∉ st.sched.linksOf b.unicastHandle
    asfnOf := fun l =>
      if l ∈ sched.linksOf b.unicastHandle then st.aliceLastlyScheduledAsfn else st.asfnOf l }

/-- `alice_next_asfn` -/
def aliceNextAsfn (st : AliceSchedule) (size : BitVec 16) : BitVec 64 :=
  aliceAsfn (st.aliceCurrentAsn.inc (size.setWidth 32)) size

section

variable (asn : TschAsn)

/-- The links of the present slotframe are used up: none is left after
`alice_current_asn`, or after the ASN, or the ASN is in another slotframe. -/
def presentIsOver (sf : TschSlotframe) (st : AliceSchedule) : Bool :=
  !linkRemains st.sched st.aliceCurrentAsn sf || !linkRemains st.sched asn sf ||
    aliceAsfn asn sf.size != aliceAsfn st.aliceCurrentAsn sf.size

/-- The part of the search that comes before the links of the unicast slotframe. -/
def timeVaryingScheduling (sf : TschSlotframe) (st : AliceSchedule) :
    AliceSchedule :=
  if st.presentIsOver asn sf && st.aliceNextAsfn sf.size != st.aliceLastlyScheduledAsfn then
    scheduleUnicastSlotframe b
      { st with aliceLastlyScheduledAsfn := st.aliceNextAsfn sf.size }
  else st

/-- `time_to_timeslot`: a unicast link that comes after the present timeslot is put off
by one slotframe, unless the links are those of the present one. -/
def timeToLink (handle size : BitVec 16) (st : AliceSchedule) (l : LinkId) :
    BitVec 16 :=
  let time := timeToTimeslot asn size (st.sched.links l).timeslot
  if handle = b.unicastHandle ∧ aliceAsfn st.aliceCurrentAsn size ≠ st.aliceLastlyScheduledAsfn ∧
      BitVec.ofNat 16 (asn.mod (.init size)) < (st.sched.links l).timeslot then time + size
  else time

/-- One turn of the loop over the slotframes. -/
def visitSlotframe (r : AliceSchedule × Selection) (handle : BitVec 16) :
    AliceSchedule × Selection :=
  match r.1.sched.slotframe handle with
  | none => r
  | some sf =>
    let st := if handle = b.unicastHandle then r.1.timeVaryingScheduling b asn sf else r.1
    -- the list is read after the links have been scheduled anew
    (st, (st.sched.linksOf handle).foldl (fun sel l =>
      st.sched.considerLink b.hckApplyLatestContiki l (st.timeToLink b asn handle sf.size l) sel) r.2)

/-- `tsch_schedule_get_next_active_link`. Under the lock the time is not stored. -/
def getNextActiveLink (st : AliceSchedule) : AliceSchedule × BitVec 16 :=
  if st.sched.tschLocked then ({ st with currentLink := none, backupLink := none }, 0)
  else
    let r := (st.sched.slotframeList.map (·.handle)).foldl (visitSlotframe b asn) (st, .nothing)
    ({ r.1 with currentLink := r.2.currBest, backupLink := r.2.currBackup }, r.2.timeToCurrBest)

end

/-- The effect of an event of the process context. -/
def process (st : AliceSchedule) : AliceEvent b.unicastHandle → AliceSchedule
  | .neighbors node => { st with node := node }
  | .schedule => st.scheduleUnicastSlotframe b
  | .other c =>
    { st with
      sched := c.apply st.sched
      currentLink := st.currentLink.filter fun l => l ∉ c.removed st.sched }

/-- The backoff windows count down when the current link is a shared Tx link. -/
def updateAllBackoffWindows (st : AliceSchedule) : AliceSchedule :=
  match st.currentLink with
  | none => st
  | some l =>
    if isTx (st.sched.links l).linkOptions && isShared (st.sched.links l).linkOptions then
      { st with sched := st.sched.tschQueueUpdateAllBackoffWindows (st.sched.links l).addr }
    else st

/-- The links that may run at a wake-up: the current one, or the backup in its place. -/
def Executes (st : AliceSchedule) (l : LinkId) : Prop :=
  st.currentLink = some l ∨ st.currentLink.isSome = true ∧ st.backupLink = some l

end AliceSchedule

open AliceSchedule

/-- The schedule of ALICE under the slot operation. -/
def aliceScheduler (b : TimeVaryingConfig) : Scheduler AliceSchedule (AliceEvent b.unicastHandle)
    where
  hasCurrentLink st := st.currentLink.isSome
  updateAllBackoffWindows := updateAllBackoffWindows
  getNextActiveLink asn st := st.getNextActiveLink b asn
  copyCurrentAsn asn st := { st with aliceCurrentAsn := asn }
  sync asn st := { st with aliceCurrentAsn := asn, currentLink := none }
  process e st := st.process b e

/-! ## The unicast slotframe -/

variable {b : TimeVaryingConfig} {s t : TschSchedule}

/-- The unicast slotframe is there, with the period for its size, and its links have
timeslots inside it. -/
structure UnicastOk (b : TimeVaryingConfig) (s : TschSchedule) : Prop where
  ok : s.Ok
  slotframe : ∃ sf, s.slotframe b.unicastHandle = some sf ∧ sf.size = b.alice.unicastPeriod
  inRange : ∀ l ∈ s.linksOf b.unicastHandle,
    (s.links l).timeslot.toNat < b.alice.unicastPeriod.toNat

/-- Scheduling the unicast slotframe touches no other, and makes and removes none. -/
structure SameOthers (b : TimeVaryingConfig) (s t : TschSchedule) : Prop where
  others : t.others b.unicastHandle = s.others b.unicastHandle
  handles : t.slotframeList.map (·.handle) = s.slotframeList.map (·.handle)

theorem SameOthers.refl (s : TschSchedule) : SameOthers b s s := ⟨rfl, rfl⟩

theorem SameOthers.trans {u : TschSchedule} (h : SameOthers b s t) (h' : SameOthers b t u) :
    SameOthers b s u :=
  ⟨h'.others.trans h.others, h'.handles.trans h.handles⟩

theorem sameOthers_foldl_removeLink (b : TimeVaryingConfig) (ls : List LinkId) (s : TschSchedule) :
    SameOthers b s
      (ls.foldl (fun s l => s.tschScheduleRemoveLink b.schedule b.unicastHandle l) s) := by
  induction ls generalizing s with
  | nil => exact SameOthers.refl s
  | cons l ls ih =>
    have hone : SameOthers b s (s.tschScheduleRemoveLink b.schedule b.unicastHandle l) :=
      ⟨(frame_removeLink ..).1, handles_removeLink ..⟩
    exact hone.trans (ih _)

theorem canRemove_timeVarying (b : TimeVaryingConfig) (s : TschSchedule) :
    s.canRemove b.schedule = true := by
  simp [canRemove, b.withAlice, b.timeVarying]

/-- The old links are all removed, with or without the lock. -/
theorem UnicastOk.removeUnicastLinks (h : UnicastOk b s) :
    UnicastOk b (removeUnicastLinks b.schedule b.unicastHandle s) ∧
      SameOthers b s (removeUnicastLinks b.schedule b.unicastHandle s) := by
  obtain ⟨sf, hsf, hsize⟩ := h.slotframe
  obtain ⟨hok, hempty⟩ := h.ok.foldl_removeLink_all b.schedule hsf
  have hsf' := hempty (canRemove_timeVarying b _)
  simp only [Alice.removeUnicastLinks, hsf]
  refine ⟨⟨hok, ⟨_, hsf', hsize⟩, fun l hl => ?_⟩, sameOthers_foldl_removeLink ..⟩
  rw [linksOf_eq hsf'] at hl
  simp at hl

/-- One link is added, or there is no block for it. -/
theorem UnicastOk.addUnicastLink (h : UnicastOk b s) {u : UnicastLink}
    (hcell : u.cell.InRange b.alice) :
    UnicastOk b (addUnicastLink b.schedule b.unicastHandle b.room s u) ∧
      SameOthers b s (addUnicastLink b.schedule b.unicastHandle b.room s u) := by
  obtain ⟨sf, hsf, hsize⟩ := h.slotframe
  have hrange := linksOf_eq hsf ▸ h.inRange
  have hts : u.cell.timeslot.toNat ≤ sf.size.toNat - 1 := by
    have := hcell.1
    rw [hsize]
    omega
  have hlock : (s.tschLocked && !b.schedule.aliceTimeVaryingScheduling) = false := by
    rw [b.timeVarying, Bool.not_true, Bool.and_false]
  cases hl : s.allocLink b.schedule with
  | none =>
    have hts' : ¬ sf.size.toNat - 1 < u.cell.timeslot.toNat := by omega
    have hch : ¬ 15 < u.cell.channelOffset.toNat := by
      have := hcell.channelOffset_le
      omega
    simp only [Alice.addUnicastLink, aliceTschScheduleAddLink, hsf, hts', hch, hlock, hl, if_false,
      Bool.false_eq_true]
    exact ⟨⟨⟨h.ok.handles, h.ok.nodup, h.ok.handle, h.ok.used⟩, ⟨sf, hsf, hsize⟩, h.inRange⟩,
      rfl, rfl⟩
  | some l =>
    obtain ⟨links, x, lock, heq, hx, hnew, hold, -⟩ := h.ok.aliceAddLink_eq hsf hlock hts
      hcell.channelOffset_le hl u.linkOptions tschBroadcastAddress b.room
    have hfields : ∀ k ∈ s.installed,
        (links k).slotframeHandle = (s.links k).slotframeHandle ∧
          (links k).timeslot = (s.links k).timeslot := by
      intro k hk
      rw [← (hold k hk).1]
      exact ⟨rfl, rfl⟩
    obtain ⟨hok, hslot, hlist, hlinks, -⟩ := h.ok.installCount hsf (allocLink_unused hl)
      (fun k hk => (hfields k hk).1) (by rw [hnew, hx]) b.schedule x lock b.room rfl
    simp only [Alice.addUnicastLink, heq]
    generalize countLink b.schedule
      { s.listAdd b.unicastHandle l with links := links, tschLocked := lock } x b.room = t at *
    refine ⟨⟨hok, ⟨_, hslot, hsize⟩, ?_⟩, ?_, ?_⟩
    · intro k hk
      rw [linksOf_eq hslot] at hk
      rw [hlinks]
      rcases List.mem_append.mp hk with hk | hk
      · have hmem := mem_of_mem_erase hk
        have hk' : k ∈ s.installed :=
          List.mem_flatMap.mpr ⟨sf, (slotframe_some hsf).1, hmem⟩
        rw [(hfields k hk').2]
        exact hrange k hmem
      · rw [List.mem_singleton.mp hk]
        simpa only [hnew, hx] using hcell.1
    · exact (others_congr hlist).trans
        (others_updateLinksList s b.unicastHandle fun ls => ls.erase l ++ [l])
    · rw [hlist]
      exact map_handle_updateLinksList s b.unicastHandle fun ls => ls.erase l ++ [l]

/-- **Scheduling the unicast slotframe** keeps it consistent and leaves the others
alone, whatever the lock and however full the pool. -/
theorem UnicastOk.scheduleUnicastSlotframe (h : UnicastOk b s) (asfn : BitVec 64)
    (node : AliceNode) :
    let t := aliceScheduleUnicastSlotframe b.alice b.schedule b.unicastHandle b.room asfn node s
    UnicastOk b t ∧ SameOthers b s t := by
  have key : ∀ (us : List UnicastLink) (s : TschSchedule), UnicastOk b s →
      (∀ u ∈ us, u.cell.InRange b.alice) →
      UnicastOk b (us.foldl (Alice.addUnicastLink b.schedule b.unicastHandle b.room) s) ∧
        SameOthers b s (us.foldl (Alice.addUnicastLink b.schedule b.unicastHandle b.room) s) := by
    intro us
    induction us with
    | nil => exact fun s h _ => ⟨h, SameOthers.refl s⟩
    | cons u us ih =>
      intro s h hcell
      obtain ⟨hone, hsame⟩ := h.addUnicastLink (hcell u (mem_cons_self ..))
      obtain ⟨hrest, hsame'⟩ := ih _ hone fun v hv => hcell v (mem_cons_of_mem _ hv)
      exact ⟨hrest, hsame.trans hsame'⟩
  obtain ⟨hrem, hsame⟩ := h.removeUnicastLinks
  obtain ⟨hadd, hsame'⟩ := key (node.unicastLinks b.alice asfn) _ hrem
    fun _ hu => inRange_of_mem_unicastLinks hu
  exact ⟨hadd, hsame.trans hsame'⟩

/-! ## The search -/

namespace AliceSchedule

variable {st : AliceSchedule} {asn : TschAsn}

/-- The unicast slotframe is consistent, and its links are all for the number last
scheduled. -/
structure Ok (b : TimeVaryingConfig) (st : AliceSchedule) : Prop extends UnicastOk b st.sched where
  tagged : ∀ l ∈ st.sched.linksOf b.unicastHandle, st.asfnOf l = st.aliceLastlyScheduledAsfn

theorem scheduleUnicastSlotframe_spec (h : UnicastOk b st.sched) :
    (st.scheduleUnicastSlotframe b).Ok b ∧
      SameOthers b st.sched (st.scheduleUnicastSlotframe b).sched := by
  obtain ⟨hok, hsame⟩ := h.scheduleUnicastSlotframe st.aliceLastlyScheduledAsfn st.node
  exact ⟨⟨hok, fun l hl => if_pos hl⟩, hsame⟩

/-- The two outcomes: the links are left as they are because the present slotframe is not
over, or they are those of the next slotframe. -/
theorem Ok.timeVaryingScheduling_cases (h : st.Ok b) (asn : TschAsn) (sf : TschSlotframe) :
    let st' := st.timeVaryingScheduling b asn sf
    st'.Ok b ∧ SameOthers b st.sched st'.sched ∧ st'.aliceCurrentAsn = st.aliceCurrentAsn ∧
      ((st' = st ∧ st.presentIsOver asn sf = false) ∨
        st'.aliceLastlyScheduledAsfn = st.aliceNextAsfn sf.size) := by
  simp only [timeVaryingScheduling]
  by_cases hover : st.presentIsOver asn sf = true
  · by_cases hnext : st.aliceNextAsfn sf.size = st.aliceLastlyScheduledAsfn
    · rw [if_neg (by simp [hnext])]
      exact ⟨h, SameOthers.refl _, rfl, Or.inr hnext.symm⟩
    · have hcond : (st.presentIsOver asn sf &&
          st.aliceNextAsfn sf.size != st.aliceLastlyScheduledAsfn) = true := by
        rw [hover, Bool.true_and]
        exact bne_iff_ne.mpr hnext
      rw [if_pos hcond]
      have hok : UnicastOk b
          ({ st with aliceLastlyScheduledAsfn := st.aliceNextAsfn sf.size } : AliceSchedule).sched :=
        h.toUnicastOk
      obtain ⟨hok', hsame⟩ := scheduleUnicastSlotframe_spec hok
      exact ⟨hok', hsame, rfl, Or.inr rfl⟩
  · have hover' := Bool.eq_false_iff.mpr hover
    rw [if_neg (by simp [hover'])]
    exact ⟨h, SameOthers.refl _, rfl, Or.inl ⟨rfl, hover'⟩⟩

/-- The slotframes other than the unicast one change nothing, and contribute their own
links. -/
theorem foldl_visitSlotframe_others {handles : List (BitVec 16)}
    (hne : b.unicastHandle ∉ handles) {Q : LinkId → BitVec 16 → Prop}
    (hQ : ∀ l t, l ∈ st.sched.others b.unicastHandle → Q l t) {sel : Selection}
    (hsel : sel.Chosen Q) :
    ∃ sel', handles.foldl (visitSlotframe b asn) (st, sel) = (st, sel') ∧ sel'.Chosen Q ∧
      ∀ bound, sel.AtMost bound → sel'.AtMost bound := by
  induction handles generalizing sel with
  | nil => exact ⟨sel, rfl, hsel, fun _ h => h⟩
  | cons handle handles ih =>
    obtain ⟨hhere, hrest⟩ := ne_and_not_mem_of_not_mem_cons hne
    have hone : ∃ sel', visitSlotframe b asn (st, sel) handle = (st, sel') ∧ sel'.Chosen Q ∧
        ∀ bound, sel.AtMost bound → sel'.AtMost bound := by
      cases hsf : st.sched.slotframe handle with
      | none => exact ⟨sel, by simp only [visitSlotframe, hsf], hsel, fun _ h => h⟩
      | some sf =>
        simp only [visitSlotframe, hsf, if_neg (Ne.symm hhere)]
        exact ⟨_, rfl, foldl_considerLink_chosen hsel
          fun l hl => hQ l _ (linksOf_subset_others (Ne.symm hhere) hl),
          foldl_considerLink_atMost.1⟩
    obtain ⟨sel', heq, hsel', hbound⟩ := hone
    obtain ⟨sel'', heq', hsel'', hbound'⟩ := ih hrest hsel'
    exact ⟨sel'', by rw [foldl_cons, heq, heq'], hsel'',
      fun bound h => hbound' bound (hbound bound h)⟩

/-- What the links kept by the search are: links of the other slotframes, or unicast
links at the time computed for them. -/
def Found (b : TimeVaryingConfig) (asn : TschAsn) (st : AliceSchedule) (l : LinkId)
    (time : BitVec 16) : Prop :=
  l ∈ st.sched.others b.unicastHandle ∨ (l ∈ st.sched.linksOf b.unicastHandle ∧
    time = st.timeToLink b asn b.unicastHandle b.alice.unicastPeriod l)

/-- **The search**, without the lock: the time-varying scheduling, then the earliest of
all links and a backup at the same time. -/
theorem Ok.getNextActiveLink_spec (h : st.Ok b) (hlock : st.sched.tschLocked = false)
    (asn : TschAsn) {sf : TschSlotframe} (hsf : st.sched.slotframe b.unicastHandle = some sf) :
    let st' := st.timeVaryingScheduling b asn sf
    ∃ sel : Selection, st.getNextActiveLink b asn =
        ({ st' with currentLink := sel.currBest, backupLink := sel.currBackup },
          sel.timeToCurrBest) ∧
      sel.Chosen (Found b asn st') ∧
      ∀ l ∈ st'.sched.linksOf b.unicastHandle,
        sel.AtMost (st'.timeToLink b asn b.unicastHandle b.alice.unicastPeriod l) := by
  obtain ⟨hmem, hhandle⟩ := slotframe_some hsf
  obtain ⟨pre, post, hsplit⟩ := append_of_mem
    (hhandle ▸ mem_map_of_mem hmem : b.unicastHandle ∈ st.sched.slotframeList.map (·.handle))
  have hnodup := hsplit ▸ h.ok.handles
  obtain ⟨hnot, -⟩ := List.nodup_cons.mp (List.nodup_middle.mp hnodup)
  obtain ⟨hpre, hpost⟩ := not_or.mp fun hin => hnot (List.mem_append.mpr hin)
  obtain ⟨-, hsame, -, -⟩ := h.timeVaryingScheduling_cases asn sf
  have hsize : sf.size = b.alice.unicastPeriod := by
    obtain ⟨sf', hsf', hsize⟩ := h.slotframe
    rw [hsf, Option.some.injEq] at hsf'
    rwa [hsf']
  -- the links found before the unicast slotframe are still there after it was scheduled
  obtain ⟨sel₁, heq₁, hsel₁, -⟩ := @foldl_visitSlotframe_others b st asn pre hpre
    (Found b asn (st.timeVaryingScheduling b asn sf))
    (fun l t hl => Or.inl (hsame.others ▸ hl)) .nothing (Selection.chosen_nothing _)
  have heq₂ : visitSlotframe b asn (st, sel₁) b.unicastHandle =
      (st.timeVaryingScheduling b asn sf, ((st.timeVaryingScheduling b asn sf).sched.linksOf
        b.unicastHandle).foldl (fun sel l => (st.timeVaryingScheduling b asn sf).sched.considerLink
          b.hckApplyLatestContiki l ((st.timeVaryingScheduling b asn sf).timeToLink b asn
            b.unicastHandle b.alice.unicastPeriod l) sel) sel₁) := by
    simp only [visitSlotframe, hsf, if_true, hsize]
  generalize st.timeVaryingScheduling b asn sf = st' at *
  have hsel₂ := @foldl_considerLink_chosen st'.sched b.hckApplyLatestContiki sel₁
    (st'.sched.linksOf b.unicastHandle)
    (st'.timeToLink b asn b.unicastHandle b.alice.unicastPeriod) _ hsel₁
    fun l hl => Or.inr ⟨hl, rfl⟩
  obtain ⟨-, hmin⟩ := @foldl_considerLink_atMost st'.sched b.hckApplyLatestContiki sel₁
    (st'.sched.linksOf b.unicastHandle)
    (st'.timeToLink b asn b.unicastHandle b.alice.unicastPeriod)
  obtain ⟨sel₃, heq₃, hsel₃, hkeep⟩ := @foldl_visitSlotframe_others b st' asn post hpost _
    (fun l t hl => Or.inl hl) _ hsel₂
  refine ⟨sel₃, ?_, hsel₃, fun l hl => hkeep _ (hmin l hl)⟩
  rw [AliceSchedule.getNextActiveLink, if_neg (by rw [hlock]; exact Bool.false_ne_true), hsplit,
    foldl_append, heq₁, foldl_cons, heq₂, heq₃]

/-! ## The slotframe a link comes up in -/

/-- The slotframe of a timeslot left in the present one. -/
theorem div_present {a m ts : ℕ} (hts : ts < m) (hleft : a % m < ts) :
    (a + (ts - a % m)) / m = a / m := by
  have hsum : a + (ts - a % m) = ts + m * (a / m) := by
    have := Nat.div_add_mod a m
    omega
  rw [hsum, Nat.add_mul_div_left _ _ (by omega), Nat.div_eq_of_lt hts, Nat.zero_add]

/-- The slotframe of a timeslot of the next one. -/
theorem div_next {a m ts : ℕ} (hts : ts < m) :
    (a + if a % m < ts then ts - a % m + m else m + ts - a % m) / m = a / m + 1 := by
  have hsum : (a + if a % m < ts then ts - a % m + m else m + ts - a % m) =
      ts + m * (a / m + 1) := by
    have hdiv := Nat.div_add_mod a m
    have hlt := Nat.mod_lt a (by omega : 0 < m)
    rw [Nat.mul_add, Nat.mul_one]
    split_ifs <;> omega
  rw [hsum, Nat.add_mul_div_left _ _ (by omega), Nat.div_eq_of_lt hts, Nat.zero_add]

/-- Below `2 ^ 32` the number computed is the number of the slotframe. -/
theorem toNat_aliceAsfn {size : BitVec 16} (hsize : 0 < size.toNat) (h : asn.val < 2 ^ 32) :
    (aliceAsfn asn size).toNat = asn.val / size.toNat := by
  have hle := Nat.mod_le asn.val size.toNat
  have hmod : (BitVec.ofNat 32 (asn.mod (.init size))).toNat = asn.val % size.toNat := by
    rw [TschAsn.mod_init asn hsize, BitVec.toNat_ofNat]
    exact Nat.mod_eq_of_lt (by omega)
  have hdec : (asn.dec (BitVec.ofNat 32 (asn.mod (.init size)))).val =
      asn.val - asn.val % size.toNat := by
    rw [TschAsn.val_dec asn (by rw [hmod]; exact hle), hmod]
  have hdiv : asn.val / size.toNat ≤ asn.val := Nat.div_le_self ..
  have hval : (TschAsnDivisor.init size).val = size := rfl
  simp only [aliceAsfn]
  rw [TschAsn.division_eq _ _ (by omega), hdec, hval, ← Nat.div_eq_sub_mod_div, BitVec.toNat_ofNat]
  exact Nat.mod_eq_of_lt (by omega)

/-- Whether links of the unicast slotframe are left after both ASNs. -/
def linksRemain (b : TimeVaryingConfig) (asn : TschAsn) (st : AliceSchedule) : Bool :=
  match st.sched.slotframe b.unicastHandle with
  | none => false
  | some sf => linkRemains st.sched st.aliceCurrentAsn sf && linkRemains st.sched asn sf

/-- The condition on one search: the lock is held, so that no link is found; or the ASN
and `alice_current_asn` are in one slotframe, below `2 ^ 32`, and links that are left are
those of the present slotframe or of the next. Twice the period fits 16 bits. -/
def PassCondition (b : TimeVaryingConfig) (asn : TschAsn) (st : AliceSchedule) : Prop :=
  let period := b.alice.unicastPeriod.toNat
  let present := st.aliceCurrentAsn.val / period
  st.sched.tschLocked = true ∨
    (2 * period ≤ 2 ^ 16 ∧ st.aliceCurrentAsn.val + period < 2 ^ 32 ∧ asn.val / period = present ∧
      (st.linksRemain b asn = true → st.aliceLastlyScheduledAsfn.toNat = present ∨
        st.aliceLastlyScheduledAsfn.toNat = present + 1))

instance (b : TimeVaryingConfig) (asn : TschAsn) (st : AliceSchedule) :
    Decidable (st.PassCondition b asn) :=
  inferInstanceAs (Decidable (_ ∨ _))

/-- The time computed for a unicast link. -/
theorem toNat_timeToLink (h : UnicastOk b st.sched)
    (hperiod : 2 * b.alice.unicastPeriod.toNat ≤ 2 ^ 16) {l : LinkId}
    (hl : l ∈ st.sched.linksOf b.unicastHandle) :
    let period := b.alice.unicastPeriod
    let timeslot := (st.sched.links l).timeslot.toNat
    (st.timeToLink b asn b.unicastHandle period l).toNat =
      if asn.val % period.toNat < timeslot then
        timeslot - asn.val % period.toNat +
          (if aliceAsfn st.aliceCurrentAsn period = st.aliceLastlyScheduledAsfn then 0
          else period.toNat)
      else period.toNat + timeslot - asn.val % period.toNat := by
  have hrange := h.inRange l hl
  have hpos := b.alice.period_pos
  have htime := toNat_timeToTimeslot asn hrange
  have hmod := toNat_mod_init asn hpos
  have hlt := Nat.mod_lt asn.val hpos
  simp only [timeToLink, true_and, BitVec.lt_def, hmod]
  by_cases hts : asn.val % b.alice.unicastPeriod.toNat < (st.sched.links l).timeslot.toNat
  · rw [if_pos hts] at htime
    by_cases hpresent : aliceAsfn st.aliceCurrentAsn b.alice.unicastPeriod =
        st.aliceLastlyScheduledAsfn
    · simp [hts, hpresent, htime]
    · simp only [hts, hpresent, ne_eq, not_false_eq_true, and_self, if_true, if_false]
      rw [BitVec.toNat_add, htime]
      omega
  · rw [if_neg hts] at htime
    simp only [hts, and_false, if_false, htime]

/-- After a search that meets the condition, the links for the unicast slotframe are
those of the present slotframe, and one of them is left in it, or those of the next. -/
theorem Ok.present_or_next (h : st.Ok b) (hcond : st.PassCondition b asn)
    (hlock : st.sched.tschLocked = false) {sf : TschSlotframe}
    (hsf : st.sched.slotframe b.unicastHandle = some sf)
    (hsize : sf.size = b.alice.unicastPeriod) :
    let st' := st.timeVaryingScheduling b asn sf
    let period := b.alice.unicastPeriod.toNat
    (st'.aliceLastlyScheduledAsfn.toNat = asn.val / period ∧
        ∃ l ∈ st'.sched.linksOf b.unicastHandle,
          asn.val % period < (st'.sched.links l).timeslot.toNat) ∨
      st'.aliceLastlyScheduledAsfn.toNat = asn.val / period + 1 := by
  have hpos := b.alice.period_pos
  obtain hlocked | ⟨-, hbound, hsame, hfresh⟩ := hcond
  · simp [hlock] at hlocked
  · obtain ⟨-, -, -, ⟨heq, hover⟩ | hnext⟩ := h.timeVaryingScheduling_cases asn sf
    · simp only [presentIsOver, Bool.or_eq_false_iff, Bool.not_eq_false'] at hover
      obtain ⟨⟨hremains, hremains'⟩, -⟩ := hover
      simp only [heq]
      have hboth : st.linksRemain b asn = true := by
        rw [linksRemain, hsf]
        simp [hremains, hremains']
      obtain hpresent | hnext := hfresh hboth
      · refine Or.inl ⟨hpresent.trans hsame.symm, ?_⟩
        obtain ⟨l, hl, hlt⟩ := List.any_eq_true.mp hremains'
        refine ⟨l, linksOf_eq hsf ▸ hl, ?_⟩
        rw [decide_eq_true_eq, BitVec.lt_def, hsize, toNat_mod_init asn hpos] at hlt
        exact hlt
      · exact Or.inr (by rw [hnext, hsame])
    · refine Or.inr ?_
      have hw : (sf.size.setWidth 32).toNat = b.alice.unicastPeriod.toNat := by
        rw [hsize, BitVec.toNat_setWidth]
        exact Nat.mod_eq_of_lt (by have := b.alice.unicastPeriod.isLt; omega)
      have hval : (st.aliceCurrentAsn.inc (sf.size.setWidth 32)).val =
          st.aliceCurrentAsn.val + b.alice.unicastPeriod.toNat := by
        rw [TschAsn.val_inc, hw]
        exact Nat.mod_eq_of_lt (by omega)
      rw [hnext, aliceNextAsfn, toNat_aliceAsfn (hsize ▸ hpos) (by omega), hval, hsize, hsame,
        Nat.add_div_right _ hpos]

/-- **A unicast link comes up in the slotframe it was installed for**, after a search
that meets the condition. -/
theorem Ok.executes_getNextActiveLink (h : st.Ok b) (hcond : st.PassCondition b asn) {l : LinkId}
    (hl : (st.getNextActiveLink b asn).1.Executes l) :
    let st' := (st.getNextActiveLink b asn).1
    let asfn := (asn.val + (st.getNextActiveLink b asn).2.toNat) / b.alice.unicastPeriod.toNat
    l ∈ st'.sched.others b.unicastHandle ∨
      ((st'.asfnOf l).toNat = asfn ∧ st'.aliceLastlyScheduledAsfn.toNat = asfn) := by
  by_cases hlock : st.sched.tschLocked = true
  · simp [AliceSchedule.getNextActiveLink, hlock, Executes] at hl
  · have hlock' := Bool.eq_false_iff.mpr hlock
    obtain ⟨sf, hsf, hsize⟩ := h.slotframe
    obtain ⟨sel, heq, hchosen, hmin⟩ := h.getNextActiveLink_spec hlock' asn hsf
    obtain ⟨hok, -, hcurr, -⟩ := h.timeVaryingScheduling_cases asn sf
    have hwhich := h.present_or_next hcond hlock' hsf hsize
    obtain hlocked | ⟨hperiod, hbound, hsame, -⟩ := hcond
    · exact absurd hlocked hlock
    · simp only [heq] at hl ⊢
      generalize st.timeVaryingScheduling b asn sf = st' at *
      have hfound : Found b asn st' l sel.timeToCurrBest := by
        rcases hl with hl | ⟨-, hl⟩
        · exact hchosen.best l hl
        · exact hchosen.backup l hl
      rcases hfound with hother | ⟨hmem, htime⟩
      · exact Or.inl hother
      · refine Or.inr ?_
        have hpos := b.alice.period_pos
        have hts := hok.inRange l hmem
        have hnat := @toNat_timeToLink b st' asn hok.toUnicastOk hperiod l hmem
        simp only at hnat
        have hasfn : (aliceAsfn st'.aliceCurrentAsn b.alice.unicastPeriod).toNat =
            asn.val / b.alice.unicastPeriod.toNat := by
          rw [hcurr, toNat_aliceAsfn hpos (by omega), hsame]
        rw [hok.tagged l hmem, htime]
        obtain ⟨hpresent, m, hm, hleft⟩ | hnext := hwhich
        · have hpresent' : aliceAsfn st'.aliceCurrentAsn b.alice.unicastPeriod =
              st'.aliceLastlyScheduledAsfn := BitVec.eq_of_toNat_eq (hasfn.trans hpresent.symm)
          -- the link kept is not later than the one left, so it is left as well
          have hfirst := BitVec.le_def.mp (hmin m hm).2
          have hm' := @toNat_timeToLink b st' asn hok.toUnicastOk hperiod m hm
          have hmts := hok.inRange m hm
          simp only at hm'
          rw [if_pos hleft, if_pos hpresent', Nat.add_zero] at hm'
          rw [htime, hnat, hm'] at hfirst
          have hleft' : asn.val % b.alice.unicastPeriod.toNat <
              (st'.sched.links l).timeslot.toNat := by
            by_contra hge
            rw [if_neg hge] at hfirst
            omega
          rw [hnat, if_pos hleft', if_pos hpresent', Nat.add_zero, div_present hts hleft']
          exact ⟨hpresent, hpresent⟩
        · have hnot : aliceAsfn st'.aliceCurrentAsn b.alice.unicastPeriod ≠
              st'.aliceLastlyScheduledAsfn := by
            intro heq
            rw [heq] at hasfn
            omega
          rw [hnat, if_neg hnot, div_next hts]
          exact ⟨hnext, hnext⟩

theorem Ok.getNextActiveLink (h : st.Ok b) (asn : TschAsn) :
    (st.getNextActiveLink b asn).1.Ok b := by
  by_cases hlock : st.sched.tschLocked = true
  · rw [AliceSchedule.getNextActiveLink, if_pos hlock]
    exact ⟨h.toUnicastOk, h.tagged⟩
  · obtain ⟨sf, hsf, -⟩ := h.slotframe
    obtain ⟨sel, heq, -⟩ := h.getNextActiveLink_spec (Bool.eq_false_iff.mpr hlock) asn hsf
    obtain ⟨hok, -⟩ := h.timeVaryingScheduling_cases asn sf
    rw [heq]
    exact ⟨hok.toUnicastOk, hok.tagged⟩

/-! ## Passes -/

/-- The links that may run at an ASN are not unicast links, or they are for its slotframe,
which is the one last scheduled. -/
structure Present (b : TimeVaryingConfig) (asn : TschAsn) (st : AliceSchedule) : Prop
    extends st.Ok b where
  executes : ∀ l, st.Executes l → l ∈ st.sched.others b.unicastHandle ∨
    ((st.asfnOf l).toNat = asn.val / b.alice.unicastPeriod.toNat ∧
      st.aliceLastlyScheduledAsfn.toNat = asn.val / b.alice.unicastPeriod.toNat)

/-- A pass that meets the condition finds links for the slotframe it goes to. -/
theorem Ok.nextTimeslotDiff (h : st.Ok b) (hcond : st.PassCondition b asn) :
    let r := SlotOperation.nextTimeslotDiff (aliceScheduler b) asn st
    let asn' := asn.inc (r.2.setWidth 32)
    Present b asn' ((aliceScheduler b).copyCurrentAsn asn' r.1) := by
  simp only
  refine ⟨⟨(h.getNextActiveLink asn).toUnicastOk, (h.getNextActiveLink asn).tagged⟩,
    fun l hl => ?_⟩
  have hl' : (st.getNextActiveLink b asn).1.Executes l := hl
  have hsome : (st.getNextActiveLink b asn).1.currentLink.isSome = true := by
    rcases hl' with hl' | ⟨hsome, -⟩
    · rw [hl']
      rfl
    · exact hsome
  have hdiff : (SlotOperation.nextTimeslotDiff (aliceScheduler b) asn st).2 =
      (st.getNextActiveLink b asn).2 := if_pos hsome
  have hunlocked : st.sched.tschLocked = false := by
    by_contra hlock
    rw [AliceSchedule.getNextActiveLink, if_pos (Bool.not_eq_false _ ▸ hlock)] at hsome
    simp at hsome
  have hbound : asn.val < 2 ^ 32 := by
    obtain hlock | ⟨-, hbound, hsame, -⟩ := hcond
    · simp [hunlocked] at hlock
    · have hpos := b.alice.period_pos
      have h1 := Nat.div_add_mod asn.val b.alice.unicastPeriod.toNat
      have h2 := Nat.mod_lt asn.val hpos
      have h3 := Nat.mul_div_le st.aliceCurrentAsn.val b.alice.unicastPeriod.toNat
      rw [← hsame] at h3
      omega
  have hval : (asn.inc ((SlotOperation.nextTimeslotDiff (aliceScheduler b) asn st).2.setWidth
      32)).val = asn.val + (st.getNextActiveLink b asn).2.toNat := by
    rw [SlotOperation.val_inc_setWidth, hdiff]
    have := (st.getNextActiveLink b asn).2.isLt
    exact Nat.mod_eq_of_lt (by omega)
  rw [hval]
  exact h.executes_getNextActiveLink hcond hl'

/-- The backoff windows are nothing to the links. -/
theorem updateAllBackoffWindows_eq (st : AliceSchedule) :
    ∃ nbrs, st.updateAllBackoffWindows = { st with sched := { st.sched with nbrs := nbrs } } := by
  have key : ∀ addr, ∃ nbrs, st.sched.tschQueueUpdateAllBackoffWindows addr =
      { st.sched with nbrs := nbrs } := by
    intro addr
    simp only [tschQueueUpdateAllBackoffWindows]
    split_ifs
    · exact ⟨st.sched.nbrs, rfl⟩
    · exact ⟨_, rfl⟩
  simp only [updateAllBackoffWindows]
  split
  · exact ⟨st.sched.nbrs, rfl⟩
  · rename_i l _
    split_ifs
    · obtain ⟨nbrs, hnbrs⟩ := key (st.sched.links l).addr
      exact ⟨nbrs, by rw [hnbrs]⟩
    · exact ⟨st.sched.nbrs, rfl⟩

theorem Ok.updateAllBackoffWindows (h : st.Ok b) (hcond : st.PassCondition b asn) :
    st.updateAllBackoffWindows.Ok b ∧ st.updateAllBackoffWindows.PassCondition b asn := by
  obtain ⟨nbrs, heq⟩ := updateAllBackoffWindows_eq st
  rw [heq]
  exact ⟨⟨⟨⟨h.ok.handles, h.ok.nodup, h.ok.handle, h.ok.used⟩, h.slotframe, h.inRange⟩, h.tagged⟩,
    hcond⟩

/-! ## The process context -/

/-- Scheduling the unicast slotframe for the same number leaves the links that may run
as they are, or resets them. -/
theorem Present.scheduleUnicastSlotframe (h : Present b asn st) :
    Present b asn (st.scheduleUnicastSlotframe b) := by
  obtain ⟨hok, hsame⟩ := scheduleUnicastSlotframe_spec h.toUnicastOk
  refine ⟨hok, fun l hl => ?_⟩
  have hl' : st.Executes l := by
    rcases hl with hl | ⟨hsome, hl⟩
    · exact Or.inl (Option.filter_eq_some_iff.mp hl).1
    · obtain ⟨m, hm⟩ := Option.isSome_iff_exists.mp hsome
      exact Or.inr ⟨Option.isSome_iff_exists.mpr ⟨m, (Option.filter_eq_some_iff.mp hm).1⟩, hl⟩
  rcases h.executes l hl' with hother | ⟨htag, hlast⟩
  · exact Or.inl (hsame.others ▸ hother)
  · refine Or.inr ⟨?_, hlast⟩
    simp only [AliceSchedule.scheduleUnicastSlotframe]
    split_ifs
    · exact hlast
    · exact htag

theorem Ok.other (h : st.Ok b) (c : OtherChange b.unicastHandle) :
    (st.process b (.other c)).Ok b := by
  have hsame := c.slotframe _ h.ok
  have hlinks : (c.apply st.sched).linksOf b.unicastHandle = st.sched.linksOf b.unicastHandle := by
    rw [linksOf, linksOf, hsame]
  refine ⟨⟨c.ok _ h.ok, hsame ▸ h.slotframe, fun l hl => ?_⟩, fun l hl => ?_⟩
  · have hl' : l ∈ st.sched.linksOf b.unicastHandle := hlinks ▸ hl
    simp only [AliceSchedule.process, c.links _ h.ok l hl']
    exact h.inRange l hl'
  · exact h.tagged l (hlinks ▸ hl)

/-- Changes of the other slotframes, as long as the backup link is not removed. -/
theorem Present.other (h : Present b asn st) (c : OtherChange b.unicastHandle)
    (hbackup : ∀ l, st.currentLink.isSome = true → st.backupLink = some l → l ∉ c.removed st.sched) :
    Present b asn (st.process b (.other c)) := by
  refine ⟨h.toOk.other c, fun l hl => ?_⟩
  have hl' : st.Executes l ∧ l ∉ c.removed st.sched := by
    rcases hl with hl | ⟨hsome, hl⟩
    · obtain ⟨hcurrent, hnot⟩ := Option.filter_eq_some_iff.mp hl
      exact ⟨Or.inl hcurrent, by simpa using hnot⟩
    · obtain ⟨m, hm⟩ := Option.isSome_iff_exists.mp hsome
      have hsome' : st.currentLink.isSome = true :=
        Option.isSome_iff_exists.mpr ⟨m, (Option.filter_eq_some_iff.mp hm).1⟩
      exact ⟨Or.inr ⟨hsome', hl⟩, hbackup l hsome' hl⟩
  rcases h.executes l hl'.1 with hother | htag
  · exact Or.inl (c.others _ h.ok l hother hl'.2)
  · exact Or.inr htag

theorem Ok.process (h : st.Ok b) (e : AliceEvent b.unicastHandle) : (st.process b e).Ok b := by
  cases e with
  | neighbors node => exact ⟨h.toUnicastOk, h.tagged⟩
  | schedule => exact (scheduleUnicastSlotframe_spec h.toUnicastOk).1
  | other c => exact h.other c

end AliceSchedule

/-! ## Runs -/

variable {w : ℕ} {cfg : SlotConfig w}

/-- The state of a node that runs the slot operation over the schedule of ALICE. -/
abbrev AliceSlotOperation (w : ℕ) : Type := SlotOperation w AliceSchedule

/-- The condition on an event: every search it makes meets the condition, and the backup
link is not removed between two slots. -/
def AsfnCondition (cfg : SlotConfig w) (b : TimeVaryingConfig) (s : AliceSlotOperation w) :
    SlotEvent w (AliceEvent b.unicastHandle) → Prop
  | .slot o ps => Lib.Along (fun s p => some (s.reschedulePass (aliceScheduler b) p))
      (fun s _ => s.sched.PassCondition b s.tschCurrentAsn)
      (s.endOfSlot cfg (aliceScheduler b) o) ps
  | .associate a ps => Lib.Along (fun s p => some (s.startPass (aliceScheduler b) p))
      (fun s _ => s.sched.PassCondition b s.tschCurrentAsn)
      (s.associate cfg (aliceScheduler b) a) ps
  | .process (.schedule (.other c)) => ∀ l, s.sched.currentLink.isSome = true →
      s.sched.backupLink = some l → l ∉ c.removed s.sched.sched
  | .process _ => True

theorem present_reschedulePass {s : AliceSlotOperation w} (p : Pass w)
    (hcond : s.sched.PassCondition b s.tschCurrentAsn) (h : s.sched.Ok b) :
    Present b (s.reschedulePass (aliceScheduler b) p).tschCurrentAsn
      (s.reschedulePass (aliceScheduler b) p).sched := by
  obtain ⟨hok, hcond'⟩ := h.updateAllBackoffWindows hcond
  have := hok.nextTimeslotDiff hcond'
  simp only [SlotOperation.reschedulePass, SlotOperation.lookup,
    SlotOperation.clearAfterUpaLink_asn, SlotOperation.clearAfterUpaLink_sched]
  exact this

theorem ok_process {s : AliceSlotOperation w} (h : s.sched.Ok b)
    (e : ProcessEvent (AliceEvent b.unicastHandle)) :
    (s.process cfg (aliceScheduler b) e).sched.Ok b := by
  cases e with
  | ebInput trig curr next =>
    simp only [SlotOperation.process, SlotOperation.ebInput]
    split_ifs <;> exact h
  | slaDetermine asn hopsTtl hopsDao next => exact h
  | lock requested => exact h
  | schedule e => exact h.process e

/-- What the process context does while a slot runs keeps the schedule consistent. -/
theorem ok_endOfSlot {s : AliceSlotOperation w} (h : s.sched.Ok b)
    (o : SlotOutcome w (AliceEvent b.unicastHandle)) :
    (s.endOfSlot cfg (aliceScheduler b) o).sched.Ok b := by
  have key : ∀ (es : List (ProcessEvent (AliceEvent b.unicastHandle))) (s : AliceSlotOperation w),
      s.sched.Ok b →
        (es.foldl (SlotOperation.process cfg (aliceScheduler b)) s).sched.Ok b := by
    intro es
    induction es with
    | nil => exact fun s h => h
    | cons e es ih => exact fun s h => ih _ (ok_process h e)
  obtain ⟨-, -, -, -, -, -, -, hsched⟩ := SlotOperation.endOfSlot_spec cfg (aliceScheduler b) s o
  rw [hsched, SlotOperation.schedAfter]
  split_ifs
  · exact h
  · refine key _ _ ?_
    rwa [SlotOperation.clearAfterUpaLink_sched, SlotOperation.slaTrigger_sched]

/-- One event keeps the links present. -/
theorem present_step {s t : AliceSlotOperation w} {e : SlotEvent w (AliceEvent b.unicastHandle)}
    (hcond : AsfnCondition cfg b s e) (h : Present b s.tschCurrentAsn s.sched)
    (ht : Tsch.step cfg (aliceScheduler b) s e = some t) : Present b t.tschCurrentAsn t.sched := by
  cases e with
  | slot o ps =>
    simp only [Tsch.step, SlotOperation.slotOperation] at ht
    split_ifs at ht
    exact SlotOperation.reschedule_induction (fun s => s.sched.Ok b)
      (fun s => Present b s.tschCurrentAsn s.sched)
      (fun s p hcond hok => present_reschedulePass p hcond hok) (fun s hs => hs.toOk)
      (ok_endOfSlot h.toOk o) hcond ht
  | associate a ps =>
    have hok : (s.associate cfg (aliceScheduler b) a).sched.Ok b := ⟨h.toUnicastOk, h.tagged⟩
    exact SlotOperation.slotOperationStart_induction (fun s => s.sched.Ok b)
      (fun s => Present b s.tschCurrentAsn s.sched)
      (fun s p hcond hok => hok.nextTimeslotDiff hcond) (fun s hs => hs.toOk) hok hcond ht
  | process e =>
    cases ht
    cases e with
    | ebInput trig curr next =>
      simp only [SlotOperation.process, SlotOperation.ebInput]
      split_ifs <;> exact h
    | slaDetermine asn hopsTtl hopsDao next => exact h
    | lock requested => exact h
    | schedule e =>
      cases e with
      | neighbors node => exact ⟨⟨h.toUnicastOk, h.tagged⟩, h.executes⟩
      | schedule => exact h.scheduleUnicastSlotframe
      | other c => exact h.other c hcond

/-- **A unicast cell runs in the slotframe it was computed for.** In every run that meets
the condition, from any state without a current link, each unicast link that may run at a
wake-up was installed for the number of the slotframe of its ASN. -/
theorem unicast_link_present {s₀ s : AliceSlotOperation w}
    {es : List (SlotEvent w (AliceEvent b.unicastHandle))} (hok : s₀.sched.Ok b)
    (hnone : s₀.sched.currentLink = none)
    (hcond : Lib.Along (Tsch.step cfg (aliceScheduler b)) (AsfnCondition cfg b) s₀ es)
    (hrun : Lib.run (Tsch.step cfg (aliceScheduler b)) s₀ es = some s) (l : LinkId)
    (hl : s.sched.Executes l)
    (hunicast : (s.sched.sched.links l).slotframeHandle = b.unicastHandle) :
    (s.sched.asfnOf l).toNat = s.tschCurrentAsn.val / b.alice.unicastPeriod.toNat := by
  have h₀ : Present b s₀.tschCurrentAsn s₀.sched :=
    ⟨hok, fun l hl => by simp [Executes, hnone] at hl⟩
  have h := Lib.run_induction (fun s : AliceSlotOperation w => Present b s.tschCurrentAsn s.sched)
    (fun s e t hcond h ht => present_step hcond h ht) h₀ hcond hrun
  rcases h.executes l hl with hother | ⟨htag, -⟩
  · exact absurd hunicast (h.ok.handle_of_others hother)
  · exact htag

instance decidableAsfnCondition (cfg : SlotConfig w) (b : TimeVaryingConfig)
    (s : AliceSlotOperation w) :
    (e : SlotEvent w (AliceEvent b.unicastHandle)) → Decidable (AsfnCondition cfg b s e)
  | .slot .. => inferInstanceAs (Decidable (Lib.Along ..))
  | .associate .. => inferInstanceAs (Decidable (Lib.Along ..))
  | .process (.schedule (.other c)) =>
    decidable_of_iff (s.sched.currentLink.isSome = true →
      ∀ l ∈ s.sched.backupLink.toList, l ∉ c.removed s.sched.sched)
      ⟨fun h l hsome hl => h hsome l (Option.mem_toList.mpr hl),
        fun h hsome l hl => h l hsome (Option.mem_toList.mp hl)⟩
  | .process (.schedule (.neighbors _)) => isTrue trivial
  | .process (.schedule .schedule) => isTrue trivial
  | .process (.ebInput ..) => isTrue trivial
  | .process (.slaDetermine ..) => isTrue trivial
  | .process (.lock _) => isTrue trivial

/-- Taking the lock and giving it back leaves the slotframes alone. -/
def OtherChange.setLock (unicastHandle : BitVec 16) (locked : Bool) : OtherChange unicastHandle where
  apply s := { s with tschLocked := locked }
  removed _ := []
  ok _ h := ⟨h.handles, h.nodup, h.handle, h.used⟩
  slotframe _ _ := rfl
  links _ _ _ _ := rfl
  others _ _ _ hl _ := hl

/-- A build with a period of 20 slots and four channels. -/
def timeVaryingConfig : TimeVaryingConfig :=
  ⟨aliceConfig, ⟨8, 4, 16, true, true⟩, 2, false, true, rfl, rfl⟩

/-- Node 3 with its parent 2, at an ASN, before its first search. -/
def unscheduledNode (asn : ℕ) : AliceSlotOperation 64 :=
  let s := minimalNode asn 1000000
  { s with sched := ⟨emptySchedule, aliceNode 3 false 2 [], .ofNat asn, 0, none, none, fun _ => 0⟩ }

theorem ok_unscheduledNode (asn : ℕ) : (unscheduledNode asn).sched.Ok timeVaryingConfig where
  ok := ready_emptySchedule.ok
  slotframe := ready_emptySchedule.slotframe
  inRange _ hl := by simp [unscheduledNode, emptySchedule, linksOf, TschSchedule.slotframe,
    timeVaryingConfig] at hl
  tagged _ hl := by simp [unscheduledNode, emptySchedule, linksOf, TschSchedule.slotframe,
    timeVaryingConfig] at hl

/-- A missed deadline, a slot skipped for a request of the lock, an overrun of two
timeslots with the lock held over the search after it: the link that comes up in the end
is for the slotframe of its ASN. -/
theorem unicast_link_present_after_lock :
    let es : List (SlotEvent 64 (AliceEvent timeVaryingConfig.unicastHandle)) :=
      [.slot ⟨1000000, 0, false, false, []⟩ [⟨0, 1180001, true⟩, ⟨0, 1180002, true⟩],
        .process (.lock true), .slot ⟨1200000, 0, false, false, []⟩ [⟨0, 1200001, true⟩],
        .process (.lock false), .process (.schedule (.other (.setLock _ true))),
        .slot ⟨1335000, 0, false, true, []⟩ [⟨0, 1335001, true⟩],
        .process (.schedule (.other (.setLock _ false))),
        .slot ⟨1340000, 0, false, false, []⟩ [⟨0, 1340001, true⟩]]
    ∃ s, Lib.run (Tsch.step (coojaConfig false) (aliceScheduler timeVaryingConfig))
      (unscheduledNode 138) es = some s ∧ s.sched.currentLink = some 0 ∧
        (s.sched.asfnOf 0).toNat = s.tschCurrentAsn.val / 20 := by
  intro es
  have hrun : ((Lib.run (Tsch.step (coojaConfig false) (aliceScheduler timeVaryingConfig))
      (unscheduledNode 138) es).map fun s =>
        (s.sched.currentLink, (s.sched.sched.links 0).slotframeHandle)) = some (some 0, 2) := by
    decide +kernel
  obtain ⟨s, hs, heq⟩ := Option.map_eq_some_iff.mp hrun
  have hcurrent : s.sched.currentLink = some 0 := congrArg Prod.fst heq
  exact ⟨s, hs, hcurrent, unicast_link_present (ok_unscheduledNode 138) rfl (by decide +kernel) hs 0
    (Or.inl hcurrent) (congrArg Prod.snd heq)⟩

/-- An exchange at timeslot 18 of slotframe 7 that takes four timeslots: the search after
it installs the cells of slotframe 8, which the ASN has already reached, and puts them
off by one slotframe, so a cell of slotframe 8 runs in slotframe 9. -/
theorem crossing_runs_earlier_cell :
    let es : List (SlotEvent 64 (AliceEvent timeVaryingConfig.unicastHandle)) :=
      [.slot ⟨1000000, 0, false, false, []⟩ [⟨0, 1000001, true⟩],
        .slot ⟨1184000, 0, false, true, []⟩ [⟨0, 1184001, true⟩],
        .slot ⟨1235000, 0, true, true, []⟩ [⟨0, 1235001, true⟩]]
    (unscheduledNode 138).sched.Ok timeVaryingConfig ∧
      ∃ s, Lib.run (Tsch.step (coojaConfig false) (aliceScheduler timeVaryingConfig))
        (unscheduledNode 138) es = some s ∧ ∃ l, s.sched.Executes l ∧
          (s.sched.sched.links l).slotframeHandle = timeVaryingConfig.unicastHandle ∧
          s.tschCurrentAsn.val / timeVaryingConfig.alice.unicastPeriod.toNat = 9 ∧
          (s.sched.asfnOf l).toNat = 8 := by
  intro es
  have hrun : ((Lib.run (Tsch.step (coojaConfig false) (aliceScheduler timeVaryingConfig))
      (unscheduledNode 138) es).map fun s => (s.sched.currentLink,
        (s.sched.sched.links 0).slotframeHandle, s.tschCurrentAsn.val / 20,
        (s.sched.asfnOf 0).toNat)) = some (some 0, 2, 9, 8) := by
    decide +kernel
  obtain ⟨s, hs, heq⟩ := Option.map_eq_some_iff.mp hrun
  simp only [Prod.mk.injEq] at heq
  obtain ⟨hcurrent, hhandle, hasn, htag⟩ := heq
  exact ⟨ok_unscheduledNode 138, s, hs, 0, Or.inl hcurrent, hhandle, hasn, htag⟩

end Asap.Alice
