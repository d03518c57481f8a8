import Asap.Dbt.NextTimeslot

/-!
# Scheduling both unicast slotframes anew

With default burst transmission ALICE schedules two slotframes at a time. Scheduling them anew keeps
both consistent, and leaves the links of all others at their timeslots.

## Main definitions

* `SameLinks` — a slotframe that stays as it is.
* `UnicastBoth` — both unicast slotframes are consistent.
* `Rescheduled` — what scheduling them anew leaves alone.
-/

namespace Asap.Dbt

open Asap.Tsch Asap.Tsch.TschSchedule Asap.Alice List

variable {a : AliceBuild} {st : DbtState} {s t : TschSchedule} {handle : BitVec 16}

/-! ## The links of another slotframe -/

/-- A slotframe has the same links at the same timeslots. -/
def SameLinks (handle : BitVec 16) (s t : TschSchedule) : Prop :=
  t.slotframe handle = s.slotframe handle ∧
    ∀ l ∈ s.linksOf handle, (t.links l).timeslot = (s.links l).timeslot

theorem SameLinks.refl (handle : BitVec 16) (s : TschSchedule) : SameLinks handle s s :=
  ⟨rfl, fun _ _ => rfl⟩

theorem SameLinks.trans {u : TschSchedule} (h : SameLinks handle s t) (h' : SameLinks handle t u) :
    SameLinks handle s u := by
  refine ⟨h'.1.trans h.1, fun l hl => ?_⟩
  have hl' : l ∈ t.linksOf handle := by
    rw [linksOf, h.1]
    exact hl
  exact (h'.2 l hl').trans (h.2 l hl)

theorem slotframe_updateLinksList_of_ne {handle' : BitVec 16} (hne : handle ≠ handle')
    (f : List LinkId → List LinkId) :
    (s.updateLinksList handle' f).slotframe handle = s.slotframe handle := by
  simp only [slotframe, updateLinksList]
  generalize s.slotframeList = sfs
  induction sfs with
  | nil => rfl
  | cons sf sfs ih =>
    rw [map_cons]
    by_cases hsf : sf.handle = handle'
    · rw [if_pos hsf, List.find?_cons_of_neg (by simpa [hsf] using hne.symm), ih,
        List.find?_cons_of_neg (by simpa [hsf] using hne.symm)]
    · rw [if_neg hsf, List.find?_cons, List.find?_cons, ih]

theorem sameLinks_removeLink (scfg : ScheduleConfig) {handle' : BitVec 16} (hne : handle ≠ handle')
    (s : TschSchedule) (l : LinkId) :
    SameLinks handle s (s.tschScheduleRemoveLink scfg handle' l) := by
  refine ⟨?_, fun m _ => by rw [(frame_removeLink scfg s handle' l).2]⟩
  simp only [tschScheduleRemoveLink]
  split_ifs
  · rfl
  · rfl
  · obtain ⟨hlist, -⟩ := s.freeLink_spec handle' l
    rw [slotframe, hlist]
    exact slotframe_updateLinksList_of_ne hne _

theorem sameLinks_removeUnicastLinks (scfg : ScheduleConfig) {handle' : BitVec 16}
    (hne : handle ≠ handle') (s : TschSchedule) :
    SameLinks handle s (removeUnicastLinks scfg handle' s) := by
  have hloop : ∀ (ls : List LinkId) (s : TschSchedule),
      SameLinks handle s (ls.foldl (fun s l => s.tschScheduleRemoveLink scfg handle' l) s) := by
    intro ls
    induction ls with
    | nil => exact fun s => SameLinks.refl handle s
    | cons l ls ih => exact fun s => (sameLinks_removeLink scfg hne s l).trans (ih _)
  rw [removeUnicastLinks]
  split
  · exact SameLinks.refl handle s
  · exact hloop _ s

/-- Another link is added. -/
theorem sameLinks_addUnicastLink {b : TimeVaryingConfig} (h : UnicastOk b s)
    (hne : handle ≠ b.unicastHandle) {u : UnicastLink} (hcell : u.cell.InRange b.alice) :
    SameLinks handle s (addUnicastLink b.schedule b.unicastHandle b.room s u) := by
  obtain ⟨sf, hsf, hsize⟩ := h.slotframe
  have hlock : (s.tschLocked && !b.schedule.aliceTimeVaryingScheduling) = false := by
    rw [b.timeVarying, Bool.not_true, Bool.and_false]
  have hts : u.cell.timeslot.toNat ≤ sf.size.toNat - 1 := by
    have := hcell.1
    rw [hsize]
    omega
  cases hl : s.allocLink b.schedule with
  | none =>
    have hts' : ¬ sf.size.toNat - 1 < u.cell.timeslot.toNat := by omega
    have hch : ¬ 15 < u.cell.channelOffset.toNat := by
      have := hcell.channelOffset_le
      omega
    simp only [Alice.addUnicastLink, aliceTschScheduleAddLink, hsf, hts', hch, hlock, hl, if_false,
      Bool.false_eq_true]
    exact ⟨rfl, fun _ _ => rfl⟩
  | some l =>
    obtain ⟨links, x, lock, heq, -, -, hold, -⟩ := h.ok.aliceAddLink_eq hsf hlock hts
      hcell.channelOffset_le hl u.linkOptions tschBroadcastAddress b.room
    obtain ⟨hlist, hlinks, -⟩ := countLink_spec b.schedule
      { s.listAdd b.unicastHandle l with links := links, tschLocked := lock } x b.room
    simp only [Alice.addUnicastLink, heq]
    refine ⟨?_, fun k hk => ?_⟩
    · rw [slotframe, hlist]
      exact @slotframe_updateLinksList_of_ne s handle b.unicastHandle hne fun ls => ls.erase l ++ [l]
    · have hk' : k ∈ s.installed := by
        cases hsf' : s.slotframe handle with
        | none => simp [linksOf, hsf'] at hk
        | some sf' =>
          rw [linksOf_eq hsf'] at hk
          exact List.mem_flatMap.mpr ⟨sf', (slotframe_some hsf').1, hk⟩
      rw [hlinks, ← (hold k hk').1]

/-! ## Scheduling both slotframes anew -/

/-- The schedule for the slotframe after the one last scheduled. -/
def AliceBuild.after (a : AliceBuild) : TimeVaryingConfig :=
  { a.toTimeVaryingConfig with unicastHandle := a.afterHandle }

/-- Both unicast slotframes are there, with the period for their sizes, and their links have
timeslots inside them. -/
def UnicastBoth (a : AliceBuild) (s : TschSchedule) : Prop :=
  UnicastOk a.toTimeVaryingConfig s ∧ UnicastOk a.after s

/-- The unicast slotframes are scheduled anew, and the others stay. -/
structure Rescheduled (a : AliceBuild) (s t : TschSchedule) : Prop where
  both : UnicastBoth a t
  same : ∀ handle, handle ≠ a.unicastHandle → handle ≠ a.afterHandle → SameLinks handle s t
  handles : t.slotframeList.map (·.handle) = s.slotframeList.map (·.handle)

theorem Rescheduled.refl (h : UnicastBoth a s) : Rescheduled a s s :=
  ⟨h, fun handle _ _ => SameLinks.refl handle s, rfl⟩

theorem Rescheduled.trans {u : TschSchedule} (h : Rescheduled a s t) (h' : Rescheduled a t u) :
    Rescheduled a s u :=
  ⟨h'.both, fun handle hne hne' => (h.same handle hne hne').trans (h'.same handle hne hne'),
    h'.handles.trans h.handles⟩

theorem unicastOk_of_sameLinks {b : TimeVaryingConfig} (h : UnicastOk b s) (hok : t.Ok)
    (hsame : SameLinks b.unicastHandle s t) : UnicastOk b t := by
  obtain ⟨hslot, htimes⟩ := hsame
  have hlinks : t.linksOf b.unicastHandle = s.linksOf b.unicastHandle := by
    rw [linksOf, hslot, linksOf]
  refine ⟨hok, by rw [hslot]; exact h.slotframe, fun l hl => ?_⟩
  rw [hlinks] at hl
  rw [htimes l hl]
  exact h.inRange l hl

theorem rescheduled_removeUnicastLinks (h : UnicastBoth a s) {handle : BitVec 16}
    (hhandle : handle = a.unicastHandle ∨ handle = a.afterHandle) :
    Rescheduled a s (removeUnicastLinks a.schedule handle s) := by
  have hsame : ∀ handle', handle' ≠ handle →
      SameLinks handle' s (removeUnicastLinks a.schedule handle s) :=
    fun handle' hne => sameLinks_removeUnicastLinks a.schedule hne s
  rcases hhandle with rfl | rfl
  · obtain ⟨hok, hothers⟩ := h.1.removeUnicastLinks
    refine ⟨⟨hok, ?_⟩, fun handle' hne _ => hsame handle' hne, hothers.handles⟩
    exact unicastOk_of_sameLinks h.2 hok.ok (hsame a.afterHandle a.afterHandle_ne)
  · obtain ⟨hok, hothers⟩ := h.2.removeUnicastLinks
    refine ⟨⟨?_, hok⟩, fun handle' _ hne => hsame handle' hne, hothers.handles⟩
    exact unicastOk_of_sameLinks h.1 hok.ok (hsame a.unicastHandle a.afterHandle_ne.symm)

theorem rescheduled_addUnicastLink (h : UnicastBoth a s) {handle : BitVec 16}
    (hhandle : handle = a.unicastHandle ∨ handle = a.afterHandle) {u : UnicastLink}
    (hcell : u.cell.InRange a.alice) :
    Rescheduled a s (addUnicastLink a.schedule handle a.room s u) := by
  rcases hhandle with rfl | rfl
  · have hsame : ∀ handle', handle' ≠ a.unicastHandle →
        SameLinks handle' s (addUnicastLink a.schedule a.unicastHandle a.room s u) :=
      fun handle' hne => sameLinks_addUnicastLink h.1 hne hcell
    obtain ⟨hok, hothers⟩ := h.1.addUnicastLink hcell
    refine ⟨⟨hok, ?_⟩, fun handle' hne _ => hsame handle' hne, hothers.handles⟩
    exact unicastOk_of_sameLinks h.2 hok.ok (hsame a.afterHandle a.afterHandle_ne)
  · have hsame : ∀ handle', handle' ≠ a.afterHandle →
        SameLinks handle' s (addUnicastLink a.schedule a.afterHandle a.room s u) :=
      fun handle' hne => sameLinks_addUnicastLink h.2 hne hcell
    obtain ⟨hok, hothers⟩ := h.2.addUnicastLink hcell
    refine ⟨⟨?_, hok⟩, fun handle' _ hne => hsame handle' hne, hothers.handles⟩
    exact unicastOk_of_sameLinks h.1 hok.ok (hsame a.unicastHandle a.afterHandle_ne.symm)

/-- Every link that is added is for one of the two slotframes, at a cell in range. -/
theorem unicastLinks_ok {u : BitVec 16 × UnicastLink} (hu : u ∈ st.unicastLinks a) :
    (u.1 = a.unicastHandle ∨ u.1 = a.afterHandle) ∧ u.2.cell.InRange a.alice := by
  have hboth : ∀ (links : BitVec 64 → List UnicastLink),
      (∀ asfn, ∀ v ∈ links asfn, v.cell.InRange a.alice) → ∀ asfn asfn',
        u ∈ (links asfn).map (a.unicastHandle, ·) ++ (links asfn').map (a.afterHandle, ·) →
          (u.1 = a.unicastHandle ∨ u.1 = a.afterHandle) ∧ u.2.cell.InRange a.alice := by
    intro links hlinks asfn asfn' hmem
    rcases List.mem_append.mp hmem with hmem | hmem
    · obtain ⟨v, hv, rfl⟩ := List.mem_map.mp hmem
      exact ⟨Or.inl rfl, hlinks asfn v hv⟩
    · obtain ⟨v, hv, rfl⟩ := List.mem_map.mp hmem
      exact ⟨Or.inr rfl, hlinks asfn' v hv⟩
  simp only [DbtState.unicastLinks] at hu
  rcases List.mem_append.mp hu with hu | hu
  · split_ifs at hu with hroot
    · exact absurd hu not_mem_nil
    · refine hboth (fun asfn => st.node.parentLinks a.alice asfn) (fun asfn v hv => ?_) _ _ hu
      exact inRange_of_mem_unicastLinks (parentLinks_subset (Bool.eq_false_iff.mpr hroot) hv)
  · obtain ⟨addr, haddr, hu⟩ := List.mem_flatMap.mp hu
    refine hboth (fun asfn => st.node.childLinks a.alice asfn addr) (fun asfn v hv => ?_) _ _ hu
    exact inRange_of_mem_unicastLinks (childLinks_subset haddr hv)

theorem rescheduled_scheduleUnicastSlotframes (h : UnicastBoth a st.sched) :
    Rescheduled a st.sched (st.scheduleUnicastSlotframes a).sched := by
  have hremoved := rescheduled_removeUnicastLinks h (Or.inl rfl)
  have hremoved' := hremoved.trans (rescheduled_removeUnicastLinks hremoved.both (Or.inr rfl))
  refine hremoved'.trans ?_
  have hadds : ∀ (us : List (BitVec 16 × UnicastLink)) (s : TschSchedule), UnicastBoth a s →
      (∀ u ∈ us, (u.1 = a.unicastHandle ∨ u.1 = a.afterHandle) ∧ u.2.cell.InRange a.alice) →
      Rescheduled a s (us.foldl (fun s u => addUnicastLink a.schedule u.1 a.room s u.2) s) := by
    intro us
    induction us with
    | nil => exact fun s h _ => Rescheduled.refl h
    | cons u us ih =>
      intro s h hus
      obtain ⟨hhandle, hcell⟩ := hus u mem_cons_self
      have hone := rescheduled_addUnicastLink h hhandle hcell
      exact hone.trans (ih _ hone.both fun v hv => hus v (mem_cons_of_mem _ hv))
  exact hadds _ _ hremoved'.both fun u hu => unicastLinks_ok hu

/-- The scheduling before the links of the unicast slotframe. -/
theorem rescheduled_timeVaryingScheduling (h : UnicastBoth a st.sched) (asn : TschAsn)
    (sf : TschSlotframe) :
    Rescheduled a st.sched (st.timeVaryingScheduling a asn sf).sched ∧
      (st.timeVaryingScheduling a asn sf).aliceCurrentAsn = st.aliceCurrentAsn := by
  rw [DbtState.timeVaryingScheduling]
  split_ifs
  · have hst : UnicastBoth a ({ st with
        aliceLastlyScheduledAsfn := st.aliceNextAsfn sf.size
        aliceNextAsfnOfLastlyScheduledAsfn := aliceAsfn ((st.aliceCurrentAsn.inc
          (sf.size.setWidth 32)).inc (sf.size.setWidth 32)) sf.size } : DbtState).sched := h
    exact ⟨rescheduled_scheduleUnicastSlotframes hst, rfl⟩
  · exact ⟨Rescheduled.refl h, rfl⟩

end Asap.Dbt
