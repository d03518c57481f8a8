import Asap.Alice.TimeVarying
import Asap.Tsch.BestLink
import Asap.Tsch.LinkCount

/-!
# The search for the next link under the lock

The slot operation looks for its next link whatever the process context is doing. Under the lock it
finds none, and leaves the schedule alone. A build with ALICE looks up the unicast slotframe before
it asks for the lock, and reads its size: there is no such slotframe under the lock, or before it is
installed. It also schedules the links of the slotframe anew, which asks for the lock if there is no
neighbor for the broadcast address, and would wait there for the end of its own slot.

## Main definitions

* `SearchBuild`, `getNextActiveLink` — the builds, and the search with what can go wrong.
* `SlotContext`, `SlotContext.step` — the lock, and what happens in both contexts.
* `SearchSafe` — what is wanted of a search.
* `SearchCondition` — when it is so.

## Main results

* `search_safe` — the searches of a run are safe exactly if they meet the condition.
-/

namespace Asap.Alice

open Asap.Lib Asap.Tsch Asap.Tsch.TschSchedule

/-- A build without ALICE, one whose schedule does not vary, and one whose schedule does. -/
inductive SearchBuild
  | plain (cfg : ScanConfig)
  | alice (cfg : ScanConfig) (unicastHandle : BitVec 16)
  | timeVarying (b : TimeVaryingConfig)

/-- How a search ends. -/
inductive SearchResult
  | nullDereference
  | waits
  | returns (st : AliceSchedule) (timeOffset : Option (BitVec 16))

/-- `tsch_schedule_get_slotframe_by_handle` -/
def getSlotframeByHandle (s : TschSchedule) (handle : BitVec 16) : Option TschSlotframe :=
  if s.tschLocked then none else s.slotframe handle

/-- The handle of the unicast slotframe. -/
def SearchBuild.unicastHandle : SearchBuild → Option (BitVec 16)
  | .plain _ => none
  | .alice _ handle => some handle
  | .timeVarying b => some b.unicastHandle

/-- The part of the search that comes after the look at the unicast slotframe; in a slot operation it
does not wait for anything but the lock. -/
def scan (st : AliceSchedule) (inSlot : Bool) (asn : TschAsn) : SearchBuild → SearchResult
  | .plain cfg | .alice cfg _ =>
    let r := st.sched.tschScheduleGetNextActiveLink cfg asn
    .returns { st with currentLink := r.link, backupLink := r.backupLink } r.timeOffset
  | .timeVarying b =>
    if inSlot ∧ st.sched.tschLocked = false ∧ (st.sched.nbrs tschBroadcastAddress).isNone ∧
        ∃ sf ∈ st.sched.slotframe b.unicastHandle, st.presentIsOver asn sf = true then .waits
    else
      let r := st.getNextActiveLink b asn
      .returns r.1 (if st.sched.tschLocked then none else some r.2)

/-- `tsch_schedule_get_next_active_link`. With ALICE it begins with the size of the unicast
slotframe. -/
def getNextActiveLink (build : SearchBuild) (st : AliceSchedule) (inSlot : Bool) (asn : TschAsn) :
    SearchResult :=
  match build.unicastHandle with
  | none => scan st inSlot asn build
  | some handle =>
    match getSlotframeByHandle st.sched handle with
    | none => .nullDereference
    | some _ => scan st inSlot asn build

/-! ## The two contexts -/

/-- The flags of the lock, the schedule with the flag of the lock itself, and the ASN. -/
structure SlotContext where
  alice : AliceSchedule
  tschLockRequested : Bool
  tschInSlotOperation : Bool
  tschCurrentAsn : TschAsn

/-- What the process context does to the schedule, with the lock or without it: anything but to take
away the neighbor for the broadcast address. -/
structure ProcessChange where
  apply : AliceSchedule → AliceSchedule
  locked : ∀ st, (apply st).sched.tschLocked = st.sched.tschLocked
  broadcast : ∀ st, st.sched.nbrs tschBroadcastAddress ≠ none →
    (apply st).sched.nbrs tschBroadcastAddress ≠ none

/-- `tsch_get_lock` in its two parts, `tsch_release_lock`, what the process context does, and the slot
operation: its wake-up, each of its searches, and its end. -/
inductive ContextEvent
  | requestLock
  | takeLock
  | releaseLock
  | process (c : ProcessChange)
  | wakeUp (guardTime : Bool)
  | search
  | endOfSlot

namespace SlotContext

variable (build : SearchBuild) (s : SlotContext)

/-- A search, and the ASN of the link. -/
def search (s : SlotContext) : SearchResult → Option SlotContext
  | .nullDereference => none
  | .waits => none
  | .returns st timeOffset =>
    -- without a link the slot operation wakes up in the next slot
    let diff := if st.currentLink.isNone then 1 else timeOffset.getD 0
    let asn := s.tschCurrentAsn.inc (diff.setWidth 32)
    some { s with alice := { st with aliceCurrentAsn := asn }, tschCurrentAsn := asn }

/-- The events, where they can happen. -/
def step (s : SlotContext) : ContextEvent → Option SlotContext
  | .requestLock =>
    if s.alice.sched.tschLocked then none else some { s with tschLockRequested := true }
  | .takeLock =>
    if s.tschLockRequested && !s.tschInSlotOperation && !s.alice.sched.tschLocked then
      some { s with
        alice := { s.alice with sched := { s.alice.sched with tschLocked := true } }
        tschLockRequested := false }
    else none
  | .releaseLock =>
    some { s with alice := { s.alice with sched := { s.alice.sched with tschLocked := false } } }
  | .process c => some { s with alice := c.apply s.alice }
  | .wakeUp guardTime =>
    some { s with
      tschInSlotOperation :=
        !(s.alice.currentLink.isNone || s.tschLockRequested || guardTime) }
  | .search =>
    s.search (getNextActiveLink build s.alice s.tschInSlotOperation s.tschCurrentAsn)
  | .endOfSlot => some { s with tschInSlotOperation := false }

/-- What is wanted of a search: it returns, and under the lock it leaves the slotframes and the links
alone. -/
def SearchSafe (s : SlotContext) : ContextEvent → Prop
  | .search => ∃ st timeOffset,
    getNextActiveLink build s.alice s.tschInSlotOperation s.tschCurrentAsn =
        .returns st timeOffset ∧
      (s.alice.sched.tschLocked = true → st.sched = s.alice.sched)
  | _ => True

/-- With ALICE the lock is free and the unicast slotframe is installed. -/
def SearchCondition (s : SlotContext) : ContextEvent → Prop
  | .search => ∀ handle, build.unicastHandle = some handle →
    s.alice.sched.tschLocked = false ∧ (s.alice.sched.slotframe handle).isSome = true
  | _ => True

end SlotContext

/-! ## No search waits -/

theorem keepsNbrs_addUnicastLink (scfg : ScheduleConfig) (handle : BitVec 16) (room : Bool)
    (s : TschSchedule) (u : UnicastLink) : s.KeepsNbrs (addUnicastLink scfg handle room s u) := by
  have hstep : s.step scfg (.aliceAddLink handle u.linkOptions tschBroadcastAddress
      u.cell.timeslot u.cell.channelOffset room) = some (addUnicastLink scfg handle room s u) := rfl
  rcases keepsNbrs_step hstep with hfree | hkeeps
  · cases hfree
  · exact hkeeps

theorem keepsNbrs_removeUnicastLinks (scfg : ScheduleConfig) (handle : BitVec 16)
    (s : TschSchedule) : s.KeepsNbrs (removeUnicastLinks scfg handle s) := by
  have h := nbrRelation_keepsNbrs scfg
  rw [removeUnicastLinks]
  split
  · exact h.of_eq rfl
  · exact h.foldl (fun s l => h.removeLink s handle l) _ s

theorem keepsNbrs_scheduleUnicastSlotframe (cfg : AliceConfig) (scfg : ScheduleConfig)
    (handle : BitVec 16) (room : Bool) (asfn : BitVec 64) (node : AliceNode) (s : TschSchedule) :
    s.KeepsNbrs (aliceScheduleUnicastSlotframe cfg scfg handle room asfn node s) := by
  have hadd : ∀ (us : List UnicastLink) (s : TschSchedule),
      s.KeepsNbrs (us.foldl (addUnicastLink scfg handle room) s) := by
    intro us
    induction us with
    | nil => exact fun s => keepsNbrs_of_eq rfl
    | cons u us ih => exact fun s => (keepsNbrs_addUnicastLink scfg handle room s u).trans (ih _)
  exact (keepsNbrs_removeUnicastLinks scfg handle s).trans (hadd _ _)

namespace AliceSchedule

variable {b : TimeVaryingConfig}

theorem keepsNbrs_timeVaryingScheduling (asn : TschAsn) (sf : TschSlotframe) (st : AliceSchedule) :
    st.sched.KeepsNbrs (st.timeVaryingScheduling b asn sf).sched := by
  rw [timeVaryingScheduling]
  split_ifs
  · exact keepsNbrs_scheduleUnicastSlotframe _ _ _ _ _ _ _
  · exact keepsNbrs_of_eq rfl

theorem keepsNbrs_visitSlotframe (asn : TschAsn) (r : AliceSchedule × Selection)
    (handle : BitVec 16) : r.1.sched.KeepsNbrs (visitSlotframe b asn r handle).1.sched := by
  rw [visitSlotframe]
  split
  · exact keepsNbrs_of_eq rfl
  · split_ifs
    · exact keepsNbrs_timeVaryingScheduling asn _ r.1
    · exact keepsNbrs_of_eq rfl

/-- The search removes no neighbor. -/
theorem keepsNbrs_getNextActiveLink (st : AliceSchedule) (asn : TschAsn) :
    st.sched.KeepsNbrs (st.getNextActiveLink b asn).1.sched := by
  have hfold : ∀ (handles : List (BitVec 16)) (r : AliceSchedule × Selection),
      r.1.sched.KeepsNbrs (handles.foldl (visitSlotframe b asn) r).1.sched := by
    intro handles
    induction handles with
    | nil => exact fun r => keepsNbrs_of_eq rfl
    | cons handle handles ih =>
      exact fun r => (keepsNbrs_visitSlotframe asn r handle).trans (ih _)
  rw [AliceSchedule.getNextActiveLink]
  split_ifs
  · exact keepsNbrs_of_eq rfl
  · exact hfold _ (st, .nothing)

/-- Under the lock the search leaves the schedule alone. -/
theorem getNextActiveLink_locked {st : AliceSchedule} (hlock : st.sched.tschLocked = true)
    (asn : TschAsn) : (st.getNextActiveLink b asn).1.sched = st.sched := by
  rw [AliceSchedule.getNextActiveLink, if_pos hlock]

end AliceSchedule

/-- With a neighbor for the broadcast address the rest of the search returns. -/
theorem scan_returns (build : SearchBuild) {st : AliceSchedule} (inSlot : Bool) (asn : TschAsn)
    (hbroadcast : st.sched.nbrs tschBroadcastAddress ≠ none) :
    ∃ st' timeOffset, scan st inSlot asn build = .returns st' timeOffset ∧
      (st.sched.tschLocked = true → st'.sched = st.sched) ∧
      st'.sched.nbrs tschBroadcastAddress ≠ none := by
  cases build with
  | plain cfg => exact ⟨_, _, rfl, fun _ => rfl, hbroadcast⟩
  | alice cfg handle => exact ⟨_, _, rfl, fun _ => rfl, hbroadcast⟩
  | timeVarying b =>
    have hwaits : ¬(inSlot ∧ st.sched.tschLocked = false ∧
        (st.sched.nbrs tschBroadcastAddress).isNone ∧
        ∃ sf ∈ st.sched.slotframe b.unicastHandle, st.presentIsOver asn sf = true) :=
      fun h => hbroadcast (Option.isNone_iff_eq_none.mp h.2.2.1)
    rw [scan, if_neg hwaits]
    exact ⟨_, _, rfl, fun hlock => AliceSchedule.getNextActiveLink_locked hlock asn,
      AliceSchedule.keepsNbrs_getNextActiveLink st asn _ hbroadcast⟩

/-! ## Runs -/

namespace SlotContext

variable {build : SearchBuild} {s t : SlotContext}

/-- There is a neighbor for the broadcast address. -/
def HasBroadcast (s : SlotContext) : Prop := s.alice.sched.nbrs tschBroadcastAddress ≠ none

/-- What a search does, by what it finds first. -/
theorem getNextActiveLink_cases (h : s.HasBroadcast) :
    (SearchCondition build s .search ∧ ∃ st timeOffset,
      getNextActiveLink build s.alice s.tschInSlotOperation s.tschCurrentAsn =
          .returns st timeOffset ∧
        (s.alice.sched.tschLocked = true → st.sched = s.alice.sched) ∧
        st.sched.nbrs tschBroadcastAddress ≠ none) ∨
    (¬SearchCondition build s .search ∧
      getNextActiveLink build s.alice s.tschInSlotOperation s.tschCurrentAsn =
        .nullDereference) := by
  have hscan := scan_returns build s.tschInSlotOperation s.tschCurrentAsn h
  rw [getNextActiveLink]
  cases hhandle : build.unicastHandle with
  | none =>
    refine Or.inl ⟨fun handle hsome => ?_, hscan⟩
    rw [hhandle] at hsome
    cases hsome
  | some handle =>
    simp only [getSlotframeByHandle]
    by_cases hlock : s.alice.sched.tschLocked = true
    · refine Or.inr ⟨fun hcond => ?_, by rw [if_pos hlock]⟩
      exact Bool.noConfusion (hlock.symm.trans (hcond handle hhandle).1)
    · rw [if_neg hlock]
      cases hsf : s.alice.sched.slotframe handle with
      | none =>
        refine Or.inr ⟨fun hcond => ?_, rfl⟩
        have hsome := (hcond handle hhandle).2
        rw [hsf] at hsome
        cases hsome
      | some sf =>
        refine Or.inl ⟨fun handle' hsome => ?_, hscan⟩
        rw [hhandle] at hsome
        cases hsome
        exact ⟨Bool.not_eq_true _ ▸ hlock, by rw [hsf]; rfl⟩

/-- **One search** is safe exactly under the condition. -/
theorem searchSafe_iff (h : s.HasBroadcast) (e : ContextEvent) :
    SearchSafe build s e ↔ SearchCondition build s e := by
  cases e with
  | search =>
    rcases getNextActiveLink_cases h with ⟨hcond, st, timeOffset, heq, hkept, _⟩ | ⟨hcond, heq⟩
    · exact iff_of_true ⟨st, timeOffset, heq, hkept⟩ hcond
    · refine iff_of_false ?_ hcond
      rintro ⟨st, timeOffset, hreturns, _⟩
      rw [heq] at hreturns
      cases hreturns
  | _ => exact Iff.rfl

/-- The neighbor for the broadcast address stays. -/
theorem HasBroadcast.step (h : s.HasBroadcast) {e : ContextEvent} (hstep : s.step build e = some t) :
    t.HasBroadcast := by
  cases e with
  | requestLock =>
    rw [SlotContext.step] at hstep
    split_ifs at hstep
    cases hstep
    exact h
  | takeLock =>
    rw [SlotContext.step] at hstep
    split_ifs at hstep
    cases hstep
    exact h
  | releaseLock =>
    cases hstep
    exact h
  | process c =>
    cases hstep
    exact c.broadcast s.alice h
  | wakeUp guardTime =>
    cases hstep
    exact h
  | search =>
    rw [SlotContext.step] at hstep
    rcases getNextActiveLink_cases h with ⟨_, st, timeOffset, heq, _, hkept⟩ | ⟨_, heq⟩
    · rw [heq] at hstep
      cases hstep
      exact hkept
    · rw [heq] at hstep
      cases hstep
  | endOfSlot =>
    cases hstep
    exact h

end SlotContext

/-- **The searches of a run** return, and leave alone what the lock protects, exactly if in a build
with ALICE each of them comes with the lock free and the unicast slotframe installed. -/
theorem search_safe (build : SearchBuild) {s : SlotContext} (hbroadcast : s.HasBroadcast)
    (es : List ContextEvent) :
    Along (SlotContext.step build) (SlotContext.SearchSafe build) s es ↔
      Along (SlotContext.step build) (SlotContext.SearchCondition build) s es := by
  induction es generalizing s with
  | nil => exact Iff.rfl
  | cons e es ih =>
    have hfirst := @SlotContext.searchSafe_iff build _ hbroadcast e
    cases hstep : SlotContext.step build s e with
    | none => simp only [Along, hstep, hfirst]
    | some t => rw [along_cons hstep, along_cons hstep, hfirst, ih (hbroadcast.step hstep)]

/-! ## A slot under the lock -/

/-- A node with the neighbor for the broadcast address, at ASN 138, with some slotframes. -/
def searchingNode (slotframes : List TschSlotframe) : SlotContext where
  alice :=
    { sched := { emptySchedule with
        slotframeList := slotframes
        nbrs := fun addr =>
          if addr = tschBroadcastAddress then some (.new timeVaryingConfig.schedule addr) else none }
      node := aliceNode 3 false 2 []
      aliceCurrentAsn := .ofNat 138
      aliceLastlyScheduledAsfn := 0
      currentLink := none
      backupLink := none
      asfnOf := fun _ => 0 }
  tschLockRequested := false
  tschInSlotOperation := false
  tschCurrentAsn := .ofNat 138

theorem hasBroadcast_searchingNode (slotframes : List TschSlotframe) :
    (searchingNode slotframes).HasBroadcast := by
  simp [SlotContext.HasBroadcast, searchingNode]

theorem search_safe_released :
    Along (SlotContext.step (.timeVarying timeVaryingConfig))
      (SlotContext.SearchSafe (.timeVarying timeVaryingConfig)) (searchingNode [⟨2, 20, []⟩])
      [.requestLock, .takeLock, .releaseLock, .search] := by
  refine (search_safe _ (hasBroadcast_searchingNode _) _).mpr ⟨trivial, trivial, trivial, ?_, ?_⟩
  · intro handle hhandle
    cases hhandle
    exact ⟨rfl, rfl⟩
  · split <;> trivial

/-- The lock is taken before the slot; and the unicast slotframe is not installed yet. -/
theorem search_safe_fails :
    ¬Along (SlotContext.step (.timeVarying timeVaryingConfig))
        (SlotContext.SearchSafe (.timeVarying timeVaryingConfig)) (searchingNode [⟨2, 20, []⟩])
        [.requestLock, .takeLock, .wakeUp false, .search] ∧
      ¬Along (SlotContext.step (.timeVarying timeVaryingConfig))
        (SlotContext.SearchSafe (.timeVarying timeVaryingConfig)) (searchingNode []) [.search] := by
  constructor
  · rintro ⟨_, _, _, ⟨st, timeOffset, hreturns, _⟩, _⟩
    cases hreturns
  · rintro ⟨⟨st, timeOffset, hreturns, _⟩, _⟩
    cases hreturns

end Asap.Alice
