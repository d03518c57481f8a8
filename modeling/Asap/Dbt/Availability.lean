import Asap.Dbt.Rescheduling
import Asap.Lib.Earliest

/-!
# Availability and the next active link

Whether the next timeslot is available after a burst, and the time to the earliest link, should be
what the scan for the next active link finds from the same state. Without ALICE both go over the same
links. The scan then replaces its link by a matched slot that comes earlier, which the other function
does not look at. With ALICE the scan goes by the slotframe of `alice_current_asn`, and schedules the
unicast links anew once those of that slotframe are used up. The other function goes by the slotframe
of the ASN, so they part when a burst crosses the end of a slotframe.

## Main definitions

* `Agrees` — the two functions give the same.
* `availabilityTimes`, `schedulerTimes` — the unicast cells that each of them goes over.
* `Condition` — the condition for them to agree.

## Main results

* `next_timeslot_available` — they agree exactly under the condition.
-/

namespace Asap.Dbt

open Asap.Tsch Asap.Tsch.TschSchedule Asap.Alice Asap.Lib List BitVec Option

variable {a : AliceBuild} {cfg : DbtConfig} {asn : TschAsn} {st : DbtState} {s t : TschSchedule}
  {handle : BitVec 16}

/-! ## What is expected -/

/-- The slotframes that ALICE schedules anew. -/
def DbtConfig.IsAlice (cfg : DbtConfig) (handle : BitVec 16) : Prop :=
  match cfg.cells with
  | .alice a => handle = a.unicastHandle ∨ handle = a.afterHandle
  | _ => False

/-- The links are in place, and with ALICE both unicast slotframes are there. -/
structure DbtState.Ok (cfg : DbtConfig) (st : DbtState) : Prop where
  inPlace : st.sched.InPlace
  both : ∀ a, cfg.cells = .alice a → UnicastBoth a st.sched

/-- The times to the links of the other slotframes. -/
def otherTimes (cfg : DbtConfig) (asn : TschAsn) (st : DbtState) : Set ℕ :=
  {t | ∃ sf ∈ st.sched.slotframeList, ¬cfg.IsAlice sf.handle ∧ ∃ l ∈ sf.linksList, ∃ time,
    NextOccurrence asn sf.size (st.sched.links l).timeslot time ∧ time.toNat = t}

section

variable (a : AliceBuild) (asn : TschAsn)

/-- The times to the cells of a unicast slotframe that is the `k`-th after the one of an ASN. -/
def cellTimes (s : TschSchedule) (handle : BitVec 16) (k : ℕ) :
    Set ℕ :=
  let period := a.alice.unicastPeriod.toNat
  {t | ∃ l ∈ s.linksOf handle,
    0 < t ∧ asn.val % period + t = k * period + (s.links l).timeslot.toNat}

/-- The unicast cells that the availability is worked out from: by the number of the slotframe of
the ASN, the two slotframes are the next one and the one after it, the present and the next, or the
second of them is the present one. -/
def availabilityTimes (st : DbtState) : Set ℕ :=
  let present := aliceAsfn asn a.alice.unicastPeriod
  let times := cellTimes a asn st.sched
  if present ≠ st.aliceLastlyScheduledAsfn ∧ present ≠ st.aliceNextAsfnOfLastlyScheduledAsfn then
    times a.unicastHandle 1 ∪ times a.afterHandle 2
  else if present = st.aliceLastlyScheduledAsfn then
    times a.unicastHandle 0 ∪ times a.afterHandle 1
  else times a.afterHandle 0

/-- The unicast cells that the scan for the next active link goes over, once it has scheduled them
anew if it does: when they are for the slotframe of `alice_current_asn`, the next occurrence of each,
and otherwise that in the next slotframe. -/
def schedulerTimes (st : DbtState) : Set ℕ :=
  match st.sched.slotframe a.unicastHandle with
  | none => ∅
  | some sf =>
    let st' := st.timeVaryingScheduling a asn sf
    if aliceAsfn st.aliceCurrentAsn a.alice.unicastPeriod = st'.aliceLastlyScheduledAsfn then
      {t | ∃ l ∈ st'.sched.linksOf a.unicastHandle, ∃ time,
        NextOccurrence asn a.alice.unicastPeriod (st'.sched.links l).timeslot time ∧
          time.toNat = t}
    else cellTimes a asn st'.sched a.unicastHandle 1

end

/-- A matched slot comes before all links: no entry is for the present timeslot or an earlier one,
there is a link, and an entry is before all of them. -/
def SsqEarlier (asn : TschAsn) (st : DbtState) (T : Set ℕ) : Prop :=
  (∀ x ∈ st.ostSsqScheduleList, x.asn.val ≠ 0 → asn.val < x.asn.val) ∧
    ∃ x ∈ st.ostSsqScheduleList, x.asn.val ≠ 0 ∧ T.Nonempty ∧ ∀ t ∈ T, x.asn.val < asn.val + t

/-- The availability is what the scan for the next active link would find: the next timeslot is
available exactly if no link is for it, and the times are the same. -/
def Agrees (cfg : DbtConfig) (asn : TschAsn) (st : DbtState) : Prop :=
  let available := st.tschScheduleGetNextTimeslotAvailableOrNot asn cfg
  let next := (st.tschScheduleGetNextActiveLink cfg asn).2
  (available.1 = 1 ↔ ¬(next.link.isSome ∧ next.timeOffset = some 1)) ∧
    next.timeOffset = some available.2

/-- **The condition**: the schedule is not locked, no matched slot comes before its links, and with
ALICE, before the first link of the other slotframes, the first unicast cell of the scan is no sooner
than that of the availability, and the other way round. -/
def Condition (cfg : DbtConfig) (asn : TschAsn) (st : DbtState) : Prop :=
  let other := otherTimes cfg asn st
  st.sched.tschLocked = false ∧
    match cfg.cells with
    | .orchestra => True
    | .alice a =>
      Covered (schedulerTimes a asn st) (other ∪ availabilityTimes a asn st) ∧
        Covered (availabilityTimes a asn st) (other ∪ schedulerTimes a asn st)
    | .ost onDemandProvision => ¬(onDemandProvision = true ∧ SsqEarlier asn st other)

/-! ## The scan for the next active link -/

variable {T : Set ℕ} {sel : Selection}

/-- What is known of the link kept so far: it is at the earliest of the times so far. -/
structure Found (T : Set ℕ) (sel : Selection) : Prop where
  pos : 0 ∉ T
  first : First T sel.timeToCurrBest.toNat
  none_iff : sel.currBest = none ↔ T = ∅

theorem found_nothing : Found ∅ .nothing :=
  ⟨Set.notMem_empty 0, first_empty, iff_of_true rfl rfl⟩

theorem Found.visitLink (h : Found T sel) (scfg : ScanConfig) (s : TschSchedule) (l : LinkId)
    {time : BitVec 16} (htime : time.toNat ≠ 0) :
    Found (insert time.toNat T) (s.visitLink scfg sel (l, time)) := by
  have hinsert := h.first.insert h.pos time.toNat
  have hzero := h.first.eq_zero_iff h.pos
  have hpos : 0 ∉ insert time.toNat T := fun hmem =>
    hmem.elim (fun heq => htime heq.symm) h.pos
  have hne : insert time.toNat T ≠ ∅ := (Set.insert_nonempty _ _).ne_empty
  cases hbest : sel.currBest with
  | none =>
    have hm := hzero.mpr (h.none_iff.mp hbest)
    rw [if_pos (Or.inl hm)] at hinsert
    simp only [TschSchedule.visitLink, hbest]
    exact ⟨hpos, hinsert, iff_of_false (some_ne_none _) hne⟩
  | some currBest =>
    have hm : sel.timeToCurrBest.toNat ≠ 0 := fun hm => by
      have := h.none_iff.mpr (hzero.mp hm)
      rw [hbest] at this
      cases this
    simp only [TschSchedule.visitLink, hbest]
    split_ifs with hlt heq
    · rw [if_pos (Or.inr (lt_def.mp hlt))] at hinsert
      exact ⟨hpos, hinsert, iff_of_false (some_ne_none _) hne⟩
    · rw [if_neg (by rw [← lt_def]; exact fun hc => hc.elim hm hlt)] at hinsert
      exact ⟨hpos, hinsert, iff_of_false (some_ne_none _) hne⟩
    · rw [if_neg (by rw [← lt_def]; exact fun hc => hc.elim hm hlt)] at hinsert
      exact ⟨hpos, hinsert, iff_of_false (by rw [hbest]; exact some_ne_none _) hne⟩

/-- The times that are found when the links of a list are visited. -/
def timesOf (time : LinkId → BitVec 16) (ls : List LinkId) : Set ℕ :=
  {t | ∃ l ∈ ls, (time l).toNat = t}

theorem timesOf_cons (time : LinkId → BitVec 16) (l : LinkId) (ls : List LinkId) :
    timesOf time (l :: ls) = insert (time l).toNat (timesOf time ls) := by
  ext t
  simp [timesOf, @eq_comm ℕ t]

theorem Found.visitLinks (h : Found T sel) (cfg : DbtConfig) (st : DbtState)
    {time : LinkId → BitVec 16} {ls : List LinkId} (htime : ∀ l ∈ ls, (time l).toNat ≠ 0) :
    Found (T ∪ timesOf time ls) (st.visitLinks cfg time ls sel) := by
  induction ls generalizing T sel with
  | nil =>
    have hnil : timesOf time [] = ∅ := by
      ext t
      simp [timesOf]
    rw [hnil, Set.union_empty]
    exact h
  | cons l ls ih =>
    have hone := h.visitLink cfg.scan st.sched l (htime l mem_cons_self)
    have hrest := ih hone fun m hm => htime m (mem_cons_of_mem _ hm)
    rw [Set.insert_union, ← Set.union_insert, ← timesOf_cons] at hrest
    exact hrest

/-- The times to the links of some other slotframes, as the scan computes them. -/
def scannedTimes (cfg : DbtConfig) (asn : TschAsn) (st : DbtState) (handles : List (BitVec 16)) :
    Set ℕ :=
  {t | ∃ handle ∈ handles, ¬cfg.IsAlice handle ∧ ∃ sf, st.sched.slotframe handle = some sf ∧
    t ∈ timesOf (fun l => timeToTimeslot asn sf.size (st.sched.links l).timeslot) sf.linksList}

theorem scannedTimes_cons (handle : BitVec 16) (handles : List (BitVec 16)) :
    scannedTimes cfg asn st (handle :: handles) =
      scannedTimes cfg asn st [handle] ∪ scannedTimes cfg asn st handles := by
  ext t
  simp only [scannedTimes, mem_cons, not_mem_nil, or_false, exists_eq_left]
  exact ⟨fun ⟨h, hh, hrest⟩ => hh.elim (fun heq => Or.inl (heq ▸ hrest))
    fun hh => Or.inr ⟨h, hh, hrest⟩, fun h => h.elim (fun h => ⟨handle, Or.inl rfl, h⟩)
      fun ⟨h, hh, hrest⟩ => ⟨h, Or.inr hh, hrest⟩⟩

theorem timeToTimeslot_ne_zero (hin : st.sched.InPlace) {sf : TschSlotframe}
    (hsf : st.sched.slotframe handle = some sf) {l : LinkId} (hl : l ∈ sf.linksList) :
    (timeToTimeslot asn sf.size (st.sched.links l).timeslot).toNat ≠ 0 :=
  (nextOccurrence_timeToTimeslot asn (hin.inRange sf (slotframe_some hsf).1 l hl)).pos.ne'

/-- The links of a slotframe that ALICE does not schedule anew are visited. -/
theorem Found.visitOther {u : DbtState}
    (hsame : ∀ handle, ¬cfg.IsAlice handle → SameLinks handle st.sched u.sched)
    (hin : st.sched.InPlace) (hno : ∀ a, cfg.cells = .alice a → handle ≠ a.unicastHandle)
    (h : Found T sel) :
    ∃ sel', DbtState.visitSlotframe cfg asn (u, sel) handle = (u, sel') ∧
      Found (T ∪ scannedTimes cfg asn st [handle]) sel' := by
  have hempty : (cfg.IsAlice handle ∨ st.sched.slotframe handle = none) →
      T ∪ scannedTimes cfg asn st [handle] = T := by
    intro hnone
    rw [Set.union_eq_left]
    rintro t ⟨handle', hmem, halice, sf, hsf, -⟩
    rw [mem_singleton.mp hmem] at halice hsf
    rcases hnone with hnone | hnone
    · exact absurd hnone halice
    · rw [hnone] at hsf
      cases hsf
  have hvisit : ∀ sf, st.sched.slotframe handle = some sf → ¬cfg.IsAlice handle →
      Found (T ∪ scannedTimes cfg asn st [handle]) (u.visitLinks cfg
        (fun l => timeToTimeslot asn sf.size (u.sched.links l).timeslot) sf.linksList sel) := by
    intro sf hsf halice
    have htimes : ∀ l ∈ sf.linksList, timeToTimeslot asn sf.size (u.sched.links l).timeslot =
        timeToTimeslot asn sf.size (st.sched.links l).timeslot := fun l hl => by
      rw [(hsame handle halice).2 l (linksOf_eq hsf ▸ hl)]
    have hfound := @Found.visitLinks T sel h cfg u
      (fun l => timeToTimeslot asn sf.size (u.sched.links l).timeslot) sf.linksList
      fun l hl => by rw [htimes l hl]; exact timeToTimeslot_ne_zero hin hsf hl
    have hset : timesOf (fun l => timeToTimeslot asn sf.size (u.sched.links l).timeslot)
        sf.linksList = scannedTimes cfg asn st [handle] := by
      ext t
      constructor
      · rintro ⟨l, hl, rfl⟩
        exact ⟨handle, mem_singleton_self _, halice, sf, hsf, l, hl,
          congrArg BitVec.toNat (htimes l hl).symm⟩
      · rintro ⟨handle', hmem, -, sf', hsf', l, hl, rfl⟩
        rw [mem_singleton.mp hmem, hsf, Option.some.injEq] at hsf'
        subst hsf'
        exact ⟨l, hl, congrArg BitVec.toNat (htimes l hl)⟩
    rwa [hset] at hfound
  by_cases halice : cfg.IsAlice handle
  · refine ⟨sel, ?_, by rw [hempty (Or.inl halice)]; exact h⟩
    cases hcells : cfg.cells with
    | alice a =>
      rw [DbtConfig.IsAlice, hcells] at halice
      have hafter := halice.resolve_left (hno a hcells)
      rw [DbtState.visitSlotframe]
      cases u.sched.slotframe handle with
      | none => rfl
      | some sf => simp only [hcells, if_pos hafter]
    | orchestra =>
      rw [DbtConfig.IsAlice, hcells] at halice
      exact halice.elim
    | ost onDemandProvision =>
      rw [DbtConfig.IsAlice, hcells] at halice
      exact halice.elim
  · cases hsf : st.sched.slotframe handle with
    | none =>
      refine ⟨sel, ?_, by rw [hempty (Or.inr hsf)]; exact h⟩
      simp only [DbtState.visitSlotframe, (hsame handle halice).1, hsf]
    | some sf =>
      have husf := (hsame handle halice).1.trans hsf
      refine ⟨_, ?_, hvisit sf hsf halice⟩
      simp only [DbtState.visitSlotframe, husf]
      cases hcells : cfg.cells with
      | alice a =>
        have hne := hno a hcells
        have hne' : handle ≠ a.afterHandle := fun heq => by
          rw [DbtConfig.IsAlice, hcells] at halice
          exact halice (Or.inr heq)
        simp only [if_neg hne, if_neg hne', linksOf_eq husf]
        have htime : ∀ l, u.timeToLink a.toTimeVaryingConfig asn handle sf.size l =
            timeToTimeslot asn sf.size (u.sched.links l).timeslot := fun l =>
          if_neg fun hc => hne hc.1
        rw [show u.timeToLink a.toTimeVaryingConfig asn handle sf.size = _ from funext htime]
      | orchestra => rfl
      | ost onDemandProvision => rfl

theorem Found.visitOthers {u : DbtState}
    (hsame : ∀ handle, ¬cfg.IsAlice handle → SameLinks handle st.sched u.sched)
    (hin : st.sched.InPlace) {handles : List (BitVec 16)}
    (hno : ∀ a, cfg.cells = .alice a → a.unicastHandle ∉ handles) (h : Found T sel) :
    ∃ sel', handles.foldl (DbtState.visitSlotframe cfg asn) (u, sel) = (u, sel') ∧
      Found (T ∪ scannedTimes cfg asn st handles) sel' := by
  induction handles generalizing T sel with
  | nil =>
    have hnil : scannedTimes cfg asn st [] = ∅ := by
      ext t
      simp [scannedTimes]
    exact ⟨sel, rfl, by rw [hnil, Set.union_empty]; exact h⟩
  | cons handle handles ih =>
    obtain ⟨sel', heq, hfound⟩ := @Found.visitOther cfg asn st handle T sel u hsame hin
      (fun a ha heq => hno a ha (heq ▸ mem_cons_self)) h
    obtain ⟨sel'', heq', hfound'⟩ :=
      ih (fun a ha hmem => hno a ha (mem_cons_of_mem _ hmem)) hfound
    refine ⟨sel'', by rw [foldl_cons, heq, heq'], ?_⟩
    rw [scannedTimes_cons, ← Set.union_assoc]
    exact hfound'

theorem slotframe_of_mem (hok : s.Ok) {sf : TschSlotframe} (hsf : sf ∈ s.slotframeList) :
    s.slotframe sf.handle = some sf := by
  obtain ⟨sf', hsf'⟩ := isSome_iff_exists.mp (List.find?_isSome.mpr
    ⟨sf, hsf, beq_self_eq_true sf.handle⟩ : (s.slotframe sf.handle).isSome)
  obtain ⟨hmem, hhandle⟩ := slotframe_some hsf'
  exact hsf'.trans (congrArg some (inj_on_of_nodup_map hok.handles hmem hsf hhandle))

/-- All slotframes are scanned. -/
theorem scannedTimes_all (hin : st.sched.InPlace) :
    scannedTimes cfg asn st (st.sched.slotframeList.map (·.handle)) = otherTimes cfg asn st := by
  have hnext : ∀ sf ∈ st.sched.slotframeList, ∀ l ∈ sf.linksList, NextOccurrence asn sf.size
      (st.sched.links l).timeslot (timeToTimeslot asn sf.size (st.sched.links l).timeslot) :=
    fun sf hsf l hl => nextOccurrence_timeToTimeslot asn (hin.inRange sf hsf l hl)
  ext t
  constructor
  · rintro ⟨handle, -, halice, sf, hsf, l, hl, rfl⟩
    obtain ⟨hmem, rfl⟩ := slotframe_some hsf
    exact ⟨sf, hmem, halice, l, hl, _, hnext sf hmem l hl, rfl⟩
  · rintro ⟨sf, hmem, halice, l, hl, time, htime, rfl⟩
    refine ⟨sf.handle, mem_map_of_mem hmem, halice, sf, slotframe_of_mem hin.toOk hmem, l, hl, ?_⟩
    exact congrArg BitVec.toNat ((hnext sf hmem l hl).unique htime)

/-- The times that the scan computes for the unicast links. -/
theorem timesOf_timeToLink {u : DbtState} (h : UnicastOk a.toTimeVaryingConfig u.sched) :
    timesOf (u.timeToLink a.toTimeVaryingConfig asn a.unicastHandle a.alice.unicastPeriod)
        (u.sched.linksOf a.unicastHandle) =
      if aliceAsfn u.aliceCurrentAsn a.alice.unicastPeriod = u.aliceLastlyScheduledAsfn then
        {t | ∃ l ∈ u.sched.linksOf a.unicastHandle, ∃ time,
          NextOccurrence asn a.alice.unicastPeriod (u.sched.links l).timeslot time ∧ time.toNat = t}
      else cellTimes a asn u.sched a.unicastHandle 1 := by
  have hpos := a.alice.period_pos
  have hmod := Nat.mod_lt asn.val hpos
  split_ifs with hpresent
  · have htime : ∀ l, u.timeToLink a.toTimeVaryingConfig asn a.unicastHandle
        a.alice.unicastPeriod l =
          timeToTimeslot asn a.alice.unicastPeriod (u.sched.links l).timeslot :=
      fun l => if_neg fun hc => hc.2.1 hpresent
    ext t
    constructor
    · rintro ⟨l, hl, rfl⟩
      refine ⟨l, hl, _, ?_, rfl⟩
      rw [htime]
      exact nextOccurrence_timeToTimeslot asn (h.inRange l hl)
    · rintro ⟨l, hl, time, hnext, rfl⟩
      refine ⟨l, hl, ?_⟩
      rw [htime, (nextOccurrence_timeToTimeslot asn (h.inRange l hl)).unique hnext]
  · have hperiod : 2 * a.alice.unicastPeriod.toNat ≤ 2 ^ 16 := by
      have := a.period_le
      omega
    have htime : ∀ l ∈ u.sched.linksOf a.unicastHandle, ∀ t,
        (u.timeToLink a.toTimeVaryingConfig asn a.unicastHandle a.alice.unicastPeriod l).toNat = t ↔
          0 < t ∧ asn.val % a.alice.unicastPeriod.toNat + t =
            1 * a.alice.unicastPeriod.toNat + (u.sched.links l).timeslot.toNat := by
      intro l hl t
      have hnat := @AliceSchedule.toNat_timeToLink a.toTimeVaryingConfig u.toAliceSchedule asn h hperiod l hl
      simp only [if_neg hpresent] at hnat
      have hrange : (u.sched.links l).timeslot.toNat < a.alice.unicastPeriod.toNat := h.inRange l hl
      rw [hnat]
      split_ifs <;> omega
    ext t
    constructor
    · rintro ⟨l, hl, heq⟩
      exact ⟨l, hl, (htime l hl t).mp heq⟩
    · rintro ⟨l, hl, heq⟩
      exact ⟨l, hl, (htime l hl t).mpr heq⟩

/-- **The scan with ALICE**: the links of the other slotframes, and the unicast links. -/
theorem found_alice (hcells : cfg.cells = .alice a) (h : st.Ok cfg) (asn : TschAsn) :
    Found (otherTimes cfg asn st ∪ schedulerTimes a asn st)
      ((st.sched.slotframeList.map (·.handle)).foldl (DbtState.visitSlotframe cfg asn)
        (st, .nothing)).2 := by
  have hboth := h.both a hcells
  obtain ⟨sf, hsf, hsize⟩ := hboth.1.slotframe
  obtain ⟨hmem, hhandle⟩ := slotframe_some hsf
  obtain ⟨pre, post, hsplit⟩ := append_of_mem
    (hhandle ▸ mem_map_of_mem hmem : a.unicastHandle ∈ st.sched.slotframeList.map (·.handle))
  have hnodup := hsplit ▸ h.inPlace.handles
  obtain ⟨hnot, -⟩ := nodup_cons.mp (nodup_middle.mp hnodup)
  obtain ⟨hpre, hpost⟩ := not_or.mp fun hin => hnot (mem_append.mpr hin)
  have huc : ∀ a', cfg.cells = .alice a' → a'.unicastHandle = a.unicastHandle := by
    intro a' ha'
    rw [hcells] at ha'
    rw [CellScheduler.alice.inj ha']
  obtain ⟨hre, hcurrent⟩ := rescheduled_timeVaryingScheduling hboth asn sf
  have hsame : ∀ handle, ¬cfg.IsAlice handle →
      SameLinks handle st.sched (st.timeVaryingScheduling a asn sf).sched := by
    intro handle halice
    rw [DbtConfig.IsAlice, hcells] at halice
    exact hre.same handle (fun heq => halice (Or.inl heq)) fun heq => halice (Or.inr heq)
  obtain ⟨sel₁, heq₁, hfound₁⟩ := @Found.visitOthers cfg asn st ∅ .nothing st
    (fun handle _ => SameLinks.refl handle _) h.inPlace pre
    (fun a' ha' => huc a' ha' ▸ hpre) found_nothing
  have hvisit : DbtState.visitSlotframe cfg asn (st, sel₁) a.unicastHandle =
      (st.timeVaryingScheduling a asn sf, (st.timeVaryingScheduling a asn sf).visitLinks cfg
        ((st.timeVaryingScheduling a asn sf).timeToLink a.toTimeVaryingConfig asn a.unicastHandle
          a.alice.unicastPeriod)
        ((st.timeVaryingScheduling a asn sf).sched.linksOf a.unicastHandle) sel₁) := by
    have hsize' : sf.size = a.alice.unicastPeriod := hsize
    simp only [DbtState.visitSlotframe, hsf, hcells, if_neg a.afterHandle_ne.symm, if_true, hsize']
  have htimes := @timesOf_timeToLink a asn _ hre.both.1
  have hscheduler : schedulerTimes a asn st =
      timesOf ((st.timeVaryingScheduling a asn sf).timeToLink a.toTimeVaryingConfig asn
        a.unicastHandle a.alice.unicastPeriod)
        ((st.timeVaryingScheduling a asn sf).sched.linksOf a.unicastHandle) := by
    rw [htimes, hcurrent, schedulerTimes, hsf]
  have hne : ∀ l ∈ (st.timeVaryingScheduling a asn sf).sched.linksOf a.unicastHandle,
      ((st.timeVaryingScheduling a asn sf).timeToLink a.toTimeVaryingConfig asn a.unicastHandle
        a.alice.unicastPeriod l).toNat ≠ 0 := by
    intro l hl hzero
    have hperiod : 2 * a.alice.unicastPeriod.toNat ≤ 2 ^ 16 := by
      have := a.period_le
      omega
    have hnat := @AliceSchedule.toNat_timeToLink a.toTimeVaryingConfig
      (st.timeVaryingScheduling a asn sf).toAliceSchedule asn hre.both.1 hperiod l hl
    have hmod := Nat.mod_lt asn.val a.alice.period_pos
    simp only [hzero] at hnat
    split_ifs at hnat <;> omega
  have hfound₂ := hfound₁.visitLinks cfg (st.timeVaryingScheduling a asn sf) hne
  obtain ⟨sel₃, heq₃, hfound₃⟩ := @Found.visitOthers cfg asn st _ _
    (st.timeVaryingScheduling a asn sf) hsame h.inPlace post
    (fun a' ha' => huc a' ha' ▸ hpost) hfound₂
  rw [hsplit, foldl_append, heq₁, foldl_cons, hvisit, heq₃]
  have hall : scannedTimes cfg asn st pre ∪ scannedTimes cfg asn st post =
      otherTimes cfg asn st := by
    rw [← scannedTimes_all h.inPlace, hsplit]
    ext t
    have halice : cfg.IsAlice a.unicastHandle := by
      rw [DbtConfig.IsAlice, hcells]
      exact Or.inl rfl
    constructor
    · rintro (⟨handle, hin, hrest⟩ | ⟨handle, hin, hrest⟩)
      · exact ⟨handle, mem_append_left _ hin, hrest⟩
      · exact ⟨handle, mem_append_right _ (mem_cons_of_mem _ hin), hrest⟩
    · rintro ⟨handle, hin, hrest⟩
      rcases mem_append.mp hin with hin | hin
      · exact Or.inl ⟨handle, hin, hrest⟩
      · rcases mem_cons.mp hin with rfl | hin
        · exact absurd halice hrest.1
        · exact Or.inr ⟨handle, hin, hrest⟩
  rw [Set.empty_union, Set.union_right_comm, hall, ← hscheduler] at hfound₃
  exact hfound₃

/-- The scan without ALICE. -/
theorem found_links (hcells : ∀ a, cfg.cells ≠ .alice a) (h : st.Ok cfg) (asn : TschAsn) :
    ∃ sel, (st.sched.slotframeList.map (·.handle)).foldl (DbtState.visitSlotframe cfg asn)
        (st, .nothing) = (st, sel) ∧ Found (otherTimes cfg asn st) sel := by
  obtain ⟨sel, heq, hfound⟩ := @Found.visitOthers cfg asn st ∅ .nothing st
    (fun handle _ => SameLinks.refl handle _) h.inPlace (st.sched.slotframeList.map (·.handle))
    (fun a ha => absurd ha (hcells a)) found_nothing
  rw [Set.empty_union, scannedTimes_all h.inPlace] at hfound
  exact ⟨sel, heq, hfound⟩

/-! ## The availability -/

/-- The times of a list. -/
def listTimes (times : List (BitVec 16)) : Set ℕ := {t | ∃ time ∈ times, time.toNat = t}

theorem listTimes_cons (time : BitVec 16) (times : List (BitVec 16)) :
    listTimes (time :: times) = insert time.toNat (listTimes times) := by
  ext t
  simp [listTimes, @eq_comm ℕ t]

/-- The loops end early exactly if a link is for the next timeslot, and the time is the earliest. -/
theorem scanTimes_spec {m : BitVec 16} {times : List (BitVec 16)}
    (hpos : ∀ time ∈ times, time.toNat ≠ 0) (hzero : 0 ∉ T) (hone : 1 ∉ T) (h : First T m.toNat) :
    First (T ∪ listTimes times) (DbtState.scanTimes m times).1.toNat ∧
      ((DbtState.scanTimes m times).2 = true ↔ 1 ∉ T ∪ listTimes times) := by
  induction times generalizing T m with
  | nil =>
    have hnil : listTimes [] = ∅ := by
      ext t
      simp [listTimes]
    rw [hnil, Set.union_empty]
    exact ⟨h, iff_of_true rfl hone⟩
  | cons time times ih =>
    have hinsert := h.insert hzero time.toNat
    have hmin : (if m = 0 ∨ time < m then time else m).toNat =
        if m.toNat = 0 ∨ time.toNat < m.toNat then time.toNat else m.toNat := by
      have hm : m = 0 ↔ m.toNat = 0 :=
        ⟨fun heq => by rw [heq]; rfl, fun heq => eq_of_toNat_eq heq⟩
      simp only [hm, lt_def]
      split_ifs <;> rfl
    rw [← hmin] at hinsert
    rw [listTimes_cons, Set.union_insert, ← Set.insert_union]
    simp only [DbtState.scanTimes]
    generalize (if m = 0 ∨ time < m then time else m) = m' at hinsert
    have htime := hpos time mem_cons_self
    have hzero' : 0 ∉ insert time.toNat T := fun hmem =>
      hmem.elim (fun heq => htime heq.symm) hzero
    split_ifs with hc
    · have hmem : 1 ∈ insert time.toNat T := Or.inl (by rw [hc]; rfl)
      refine ⟨Or.inr ⟨?_, fun t ht => ?_⟩, iff_of_false nofun fun hno => hno (Or.inl hmem)⟩
      · have hle := hinsert.le hmem
        have hne : m'.toNat ≠ 0 := fun hm => by
          rw [(hinsert.eq_zero_iff hzero').mp hm] at hmem
          exact hmem
        rw [show m'.toNat = 1 by omega]
        exact Or.inl hmem
      · refine (hinsert.le hmem).trans (Nat.one_le_iff_ne_zero.mpr fun ht0 => ?_)
        rw [ht0] at ht
        rcases ht with ht | ⟨time', htime', heq⟩
        · exact hzero' ht
        · exact hpos time' (mem_cons_of_mem _ htime') heq
    · refine ih (fun time' htime' => hpos time' (mem_cons_of_mem _ htime')) hzero'
        (fun hmem => ?_) hinsert
      rcases hmem with heq | hmem
      · exact hc (eq_of_toNat_eq heq.symm)
      · exact hone hmem

variable {sf : TschSlotframe}

/-- The links of another slotframe. -/
theorem listTimes_timesToLinks (hin : st.sched.InPlace) (hsf : sf ∈ st.sched.slotframeList) {t : ℕ} :
    t ∈ listTimes (st.timesToLinks asn sf) ↔ ∃ l ∈ sf.linksList, ∃ time,
      NextOccurrence asn sf.size (st.sched.links l).timeslot time ∧ time.toNat = t := by
  have hnext : ∀ l ∈ sf.linksList, NextOccurrence asn sf.size (st.sched.links l).timeslot
      (timeToTimeslot asn sf.size (st.sched.links l).timeslot) :=
    fun l hl => nextOccurrence_timeToTimeslot asn (hin.inRange sf hsf l hl)
  constructor
  · rintro ⟨time, htime, rfl⟩
    obtain ⟨l, hl, rfl⟩ := mem_map.mp htime
    exact ⟨l, hl, _, hnext l hl, rfl⟩
  · rintro ⟨l, hl, time, htime, rfl⟩
    refine ⟨_, mem_map_of_mem hl, ?_⟩
    exact congrArg BitVec.toNat ((hnext l hl).unique htime)

/-- The unicast links of the present slotframe. -/
theorem listTimes_timesPresent (hsf : st.sched.slotframe handle = some sf)
    (hsize : sf.size = a.alice.unicastPeriod) :
    listTimes (st.timesPresent asn sf) = cellTimes a asn st.sched handle 0 ∧
      ∀ time ∈ st.timesPresent asn sf, time.toNat ≠ 0 := by
  have hpos := a.alice.period_pos
  have hmod := toNat_mod_init asn hpos
  have hlt := Nat.mod_lt asn.val hpos
  have htime : ∀ l ∈ sf.linksList, ∀ r : BitVec 16, r < (st.sched.links l).timeslot →
      ((st.sched.links l).timeslot - r).toNat = (st.sched.links l).timeslot.toNat - r.toNat := by
    intro l _ r hr
    rw [lt_def] at hr
    rw [toNat_sub]
    omega
  simp only [DbtState.timesPresent, hsize]
  refine ⟨?_, fun time htimes => ?_⟩
  · ext t
    simp only [cellTimes, linksOf_eq hsf]
    constructor
    · rintro ⟨time, htimes, rfl⟩
      obtain ⟨l, hl, rfl⟩ := mem_map.mp htimes
      obtain ⟨hl, hleft⟩ := mem_filter.mp hl
      rw [decide_eq_true_eq] at hleft
      refine ⟨l, hl, ?_⟩
      rw [htime l hl _ hleft]
      rw [lt_def, hmod] at hleft
      rw [hmod]
      omega
    · rintro ⟨l, hl, hgt, heq⟩
      have hleft : BitVec.ofNat 16 (asn.mod (.init a.alice.unicastPeriod)) <
          (st.sched.links l).timeslot := by
        rw [lt_def, hmod]
        omega
      refine ⟨_, mem_map_of_mem (mem_filter.mpr ⟨hl, decide_eq_true hleft⟩), ?_⟩
      rw [htime l hl _ hleft, hmod]
      omega
  · obtain ⟨l, hl, rfl⟩ := mem_map.mp htimes
    obtain ⟨hl, hleft⟩ := mem_filter.mp hl
    rw [decide_eq_true_eq] at hleft
    rw [htime l hl _ hleft]
    rw [lt_def] at hleft
    omega

/-- The unicast links of a later slotframe. -/
theorem listTimes_timesLater {k : BitVec 16} (hk : k.toNat = 1 ∨ k.toNat = 2)
    (hsf : st.sched.slotframe handle = some sf) (hsize : sf.size = a.alice.unicastPeriod)
    (hrange : ∀ l ∈ sf.linksList,
      (st.sched.links l).timeslot.toNat < a.alice.unicastPeriod.toNat) :
    listTimes (st.timesLater asn k sf) = cellTimes a asn st.sched handle k.toNat ∧
      ∀ time ∈ st.timesLater asn k sf, time.toNat ≠ 0 := by
  have hpos := a.alice.period_pos
  have hperiod := a.period_le
  have hmod := toNat_mod_init asn hpos
  have hlt := Nat.mod_lt asn.val hpos
  have htime : ∀ l ∈ sf.linksList, (k * a.alice.unicastPeriod + (st.sched.links l).timeslot -
      BitVec.ofNat 16 (asn.mod (.init a.alice.unicastPeriod))).toNat + asn.val %
        a.alice.unicastPeriod.toNat = k.toNat * a.alice.unicastPeriod.toNat +
          (st.sched.links l).timeslot.toNat := by
    intro l hl
    have hts := hrange l hl
    rw [toNat_sub, toNat_add, toNat_mul, hmod]
    rcases hk with hk | hk <;> rw [hk] <;> omega
  have hle : a.alice.unicastPeriod.toNat ≤ k.toNat * a.alice.unicastPeriod.toNat := by
    rcases hk with hk | hk <;> rw [hk] <;> omega
  simp only [DbtState.timesLater, hsize]
  refine ⟨?_, fun time htimes => ?_⟩
  · ext t
    simp only [cellTimes, linksOf_eq hsf]
    constructor
    · rintro ⟨time, htimes, rfl⟩
      obtain ⟨l, hl, rfl⟩ := mem_map.mp htimes
      have := htime l hl
      exact ⟨l, hl, by omega, by omega⟩
    · rintro ⟨l, hl, -, heq⟩
      have := htime l hl
      exact ⟨_, mem_map_of_mem hl, by omega⟩
  · obtain ⟨l, hl, rfl⟩ := mem_map.mp htimes
    have := htime l hl
    omega

/-- The times of the links that the function goes over: those of the other slotframes, and those of
the two unicast slotframes. -/
theorem listTimes_flatMap (hcells : cfg.cells = .alice a) (h : st.Ok cfg) {sfu sfa : TschSlotframe}
    (hsfu : st.sched.slotframe a.unicastHandle = some sfu)
    (hsfa : st.sched.slotframe a.afterHandle = some sfa)
    {times : TschSlotframe → List (BitVec 16)} {P Q : Set ℕ}
    (hother : ∀ sf, ¬cfg.IsAlice sf.handle → times sf = st.timesToLinks asn sf)
    (hu : listTimes (times sfu) = P ∧ ∀ time ∈ times sfu, time.toNat ≠ 0)
    (ha : listTimes (times sfa) = Q ∧ ∀ time ∈ times sfa, time.toNat ≠ 0) :
    listTimes (st.sched.slotframeList.flatMap times) = otherTimes cfg asn st ∪ (P ∪ Q) ∧
      ∀ time ∈ st.sched.slotframeList.flatMap times, time.toNat ≠ 0 := by
  have hok := h.inPlace
  obtain ⟨hmemu, hhandleu⟩ := slotframe_some hsfu
  obtain ⟨hmema, hhandlea⟩ := slotframe_some hsfa
  have hcases : ∀ sf ∈ st.sched.slotframeList, ¬cfg.IsAlice sf.handle ∨ sf = sfu ∨ sf = sfa := by
    intro sf hsf
    by_cases halice : cfg.IsAlice sf.handle
    · rw [DbtConfig.IsAlice, hcells] at halice
      have hslot := slotframe_of_mem hok.toOk hsf
      refine Or.inr (halice.imp (fun heq => ?_) fun heq => ?_)
      · rw [heq, hsfu] at hslot
        exact (Option.some.inj hslot).symm
      · rw [heq, hsfa] at hslot
        exact (Option.some.inj hslot).symm
    · exact Or.inl halice
  have hmem : ∀ t, t ∈ listTimes (st.sched.slotframeList.flatMap times) ↔
      ∃ sf ∈ st.sched.slotframeList, t ∈ listTimes (times sf) := by
    intro t
    constructor
    · rintro ⟨time, htime, heq⟩
      obtain ⟨sf, hsf, htime⟩ := mem_flatMap.mp htime
      exact ⟨sf, hsf, time, htime, heq⟩
    · rintro ⟨sf, hsf, time, htime, heq⟩
      exact ⟨time, mem_flatMap.mpr ⟨sf, hsf, htime⟩, heq⟩
  refine ⟨Set.ext fun t => (hmem t).trans ⟨?_, ?_⟩, fun time htime => ?_⟩
  · rintro ⟨sf, hsf, ht⟩
    rcases hcases sf hsf with halice | rfl | rfl
    · rw [hother sf halice, listTimes_timesToLinks hok hsf] at ht
      exact Or.inl ⟨sf, hsf, halice, ht⟩
    · exact Or.inr (Or.inl (hu.1 ▸ ht))
    · exact Or.inr (Or.inr (ha.1 ▸ ht))
  · rintro (⟨sf, hsf, halice, ht⟩ | ht | ht)
    · refine ⟨sf, hsf, ?_⟩
      rw [hother sf halice, listTimes_timesToLinks hok hsf]
      exact ht
    · exact ⟨sfu, hmemu, hu.1 ▸ ht⟩
    · exact ⟨sfa, hmema, ha.1 ▸ ht⟩
  · obtain ⟨sf, hsf, htime⟩ := mem_flatMap.mp htime
    rcases hcases sf hsf with halice | rfl | rfl
    · rw [hother sf halice] at htime
      obtain ⟨l, hl, rfl⟩ := mem_map.mp htime
      exact (nextOccurrence_timeToTimeslot asn (hok.inRange sf hsf l hl)).pos.ne'
    · exact hu.2 time htime
    · exact ha.2 time htime

/-- **The times with ALICE**, in the three cases. -/
theorem times_alice (hcells : cfg.cells = .alice a) (h : st.Ok cfg) (asn : TschAsn) :
    listTimes (st.sched.slotframeList.flatMap (st.timesIn asn cfg)) =
        otherTimes cfg asn st ∪ availabilityTimes a asn st ∧
      ∀ time ∈ st.sched.slotframeList.flatMap (st.timesIn asn cfg), time.toNat ≠ 0 := by
  obtain ⟨huc, haf⟩ := h.both a hcells
  obtain ⟨sfu, hsfu, hsizeu⟩ := huc.slotframe
  obtain ⟨sfa, hsfa, hsizea⟩ := haf.slotframe
  have hsizeu' : sfu.size = a.alice.unicastPeriod := hsizeu
  have hsizea' : sfa.size = a.alice.unicastPeriod := hsizea
  have hrangeu : ∀ l ∈ sfu.linksList,
      (st.sched.links l).timeslot.toNat < a.alice.unicastPeriod.toNat :=
    fun l hl => huc.inRange l (linksOf_eq hsfu ▸ hl)
  have hrangea : ∀ l ∈ sfa.linksList,
      (st.sched.links l).timeslot.toNat < a.alice.unicastPeriod.toNat :=
    fun l hl => haf.inRange l ((linksOf_eq hsfa : st.sched.linksOf a.after.unicastHandle = _) ▸ hl)
  have hu := (slotframe_some hsfu).2
  have ha : sfa.handle = a.afterHandle := (slotframe_some hsfa).2
  have hne := a.afterHandle_ne
  have hpresent : st.dbtCurrentAsfn asn a = aliceAsfn asn a.alice.unicastPeriod := by
    rw [DbtState.dbtCurrentAsfn, hsfu, ← hsizeu']
  have hother : ∀ sf : TschSlotframe, ¬cfg.IsAlice sf.handle →
      sf.handle ≠ a.unicastHandle ∧ sf.handle ≠ a.afterHandle := by
    intro sf halice
    rw [DbtConfig.IsAlice, hcells] at halice
    exact not_or.mp halice
  have hunot : ¬(sfu.handle ≠ a.unicastHandle ∧ sfu.handle ≠ a.afterHandle) := fun hc => hc.1 hu
  have hanot : ¬(sfa.handle ≠ a.unicastHandle ∧ sfa.handle ≠ a.afterHandle) := fun hc => hc.2 ha
  have hane : sfa.handle ≠ a.unicastHandle := ha ▸ hne
  rw [availabilityTimes]
  split_ifs with hfirst hlast
  · refine listTimes_flatMap hcells h hsfu hsfa (fun sf halice => ?_) ?_ ?_
    · simp only [DbtState.timesIn, hcells, hpresent, if_pos hfirst, if_pos (hother sf halice)]
    · simp only [DbtState.timesIn, hcells, hpresent, if_pos hfirst, if_neg hunot, if_pos hu]
      exact listTimes_timesLater (Or.inl rfl) hsfu hsizeu' hrangeu
    · simp only [DbtState.timesIn, hcells, hpresent, if_pos hfirst, if_neg hanot, if_neg hane]
      exact listTimes_timesLater (Or.inr rfl) hsfa hsizea' hrangea
  · refine listTimes_flatMap hcells h hsfu hsfa (fun sf halice => ?_) ?_ ?_
    · simp only [DbtState.timesIn, hcells, hpresent, if_neg hfirst, if_pos hlast,
        if_pos (hother sf halice)]
    · simp only [DbtState.timesIn, hcells, hpresent, if_neg hfirst, if_pos hlast, if_neg hunot,
        if_pos hu]
      exact listTimes_timesPresent hsfu hsizeu'
    · simp only [DbtState.timesIn, hcells, hpresent, if_neg hfirst, if_pos hlast, if_neg hanot,
        if_neg hane]
      exact listTimes_timesLater (Or.inl rfl) hsfa hsizea' hrangea
  · rw [← Set.empty_union (cellTimes a asn st.sched a.afterHandle 0)]
    refine listTimes_flatMap hcells h hsfu hsfa (fun sf halice => ?_) ?_ ?_
    · simp only [DbtState.timesIn, hcells, hpresent, if_neg hfirst, if_neg hlast,
        if_pos (hother sf halice)]
    · simp only [DbtState.timesIn, hcells, hpresent, if_neg hfirst, if_neg hlast, if_neg hunot,
        if_pos hu]
      exact ⟨by ext t; simp [listTimes], fun _ hno => absurd hno not_mem_nil⟩
    · simp only [DbtState.timesIn, hcells, hpresent, if_neg hfirst, if_neg hlast, if_neg hanot,
        if_neg hane]
      exact listTimes_timesPresent hsfa hsizea'

/-- The times without ALICE. -/
theorem times_links (hcells : ∀ a, cfg.cells ≠ .alice a) (h : st.Ok cfg) (asn : TschAsn) :
    listTimes (st.sched.slotframeList.flatMap (st.timesIn asn cfg)) = otherTimes cfg asn st ∧
      ∀ time ∈ st.sched.slotframeList.flatMap (st.timesIn asn cfg), time.toNat ≠ 0 := by
  have hin := h.inPlace
  have htimes : st.timesIn asn cfg = st.timesToLinks asn := by
    funext sf
    rw [DbtState.timesIn]
    cases hc : cfg.cells with
    | alice a => exact absurd hc (hcells a)
    | orchestra => rfl
    | ost onDemandProvision => rfl
  have halice : ∀ handle, ¬cfg.IsAlice handle := by
    intro handle
    rw [DbtConfig.IsAlice]
    cases hc : cfg.cells with
    | alice a => exact absurd hc (hcells a)
    | orchestra => exact id
    | ost onDemandProvision => exact id
  rw [htimes]
  refine ⟨Set.ext fun t => ⟨?_, ?_⟩, fun time htime => ?_⟩
  · rintro ⟨time, htime, heq⟩
    obtain ⟨sf, hsf, htime⟩ := mem_flatMap.mp htime
    exact ⟨sf, hsf, halice _, (listTimes_timesToLinks hin hsf).mp ⟨time, htime, heq⟩⟩
  · rintro ⟨sf, hsf, -, ht⟩
    obtain ⟨time, htime, heq⟩ := (listTimes_timesToLinks hin hsf).mpr ht
    exact ⟨time, mem_flatMap.mpr ⟨sf, hsf, htime⟩, heq⟩
  · obtain ⟨sf, hsf, htime⟩ := mem_flatMap.mp htime
    obtain ⟨l, hl, rfl⟩ := mem_map.mp htime
    exact (nextOccurrence_timeToTimeslot asn (hin.inRange sf hsf l hl)).pos.ne'

/-! ## Matched slots -/

theorem val_eq_zero {x : TschAsn} : x.val = 0 ↔ x.ls4b = 0 ∧ x.ms1b = 0 := by
  have hl : x.ls4b = 0 ↔ x.ls4b.toNat = 0 :=
    ⟨fun h => by rw [h]; rfl, fun h => eq_of_toNat_eq h⟩
  have hm : x.ms1b = 0 ↔ x.ms1b.toNat = 0 :=
    ⟨fun h => by rw [h]; rfl, fun h => eq_of_toNat_eq h⟩
  rw [hl, hm, TschAsn.val]
  omega

/-- The earlier one of an entry and the earliest one so far. -/
theorem earlier_spec (f : SsqSchedule → ℕ) (earliest : Option (ℕ × SsqSchedule)) (i : ℕ)
    (x : SsqSchedule) {next : Option (ℕ × SsqSchedule)}
    (hnext : next = if earliest.all (f x < f ·.2) then some (i, x) else earliest) :
    (∃ y, next = some y ∧ f y.2 ≤ f x) ∧
      (∀ e, earliest = some e → ∃ y, next = some y ∧ f y.2 ≤ f e.2) ∧
      ∀ y, next = some y → earliest = some y ∨ x = y.2 := by
  cases earliest with
  | none =>
    rw [hnext]
    exact ⟨⟨_, rfl, le_rfl⟩, nofun, fun y hy => Or.inr (congrArg Prod.snd (Option.some.inj hy))⟩
  | some e =>
    by_cases hlt : f x < f e.2
    · rw [hnext, if_pos (by simpa using hlt)]
      refine ⟨⟨_, rfl, le_rfl⟩, fun e' he' => ⟨_, rfl, ?_⟩,
        fun y hy => Or.inr (congrArg Prod.snd (Option.some.inj hy))⟩
      rw [← Option.some.inj he']
      exact hlt.le
    · rw [hnext, if_neg (by simpa using hlt)]
      exact ⟨⟨_, rfl, Nat.le_of_not_lt hlt⟩, fun e' he' => ⟨_, he', le_rfl⟩, fun y hy => Or.inl hy⟩

/-- What the loop over the entries finds: an entry that is not later than the ASN, or, when there is
none, the earliest one. -/
theorem earliestSsq_spec (asn : TschAsn) (xs : List SsqSchedule) (i : ℕ)
    (earliest : Option (ℕ × SsqSchedule)) :
    match DbtState.earliestSsq asn xs i earliest with
    | .error _ => ∃ x ∈ xs, x.asn.val ≠ 0 ∧ x.asn.val ≤ asn.val
    | .ok r => (∀ x ∈ xs, x.asn.val ≠ 0 → asn.val < x.asn.val ∧
        ∃ y, r = some y ∧ y.2.asn.val ≤ x.asn.val) ∧
      (∀ e, earliest = some e → ∃ y, r = some y ∧ y.2.asn.val ≤ e.2.asn.val) ∧
      ∀ y, r = some y → earliest = some y ∨ y.2 ∈ xs ∧ y.2.asn.val ≠ 0 := by
  induction xs generalizing i earliest with
  | nil =>
    rw [DbtState.earliestSsq]
    exact ⟨fun x hx => absurd hx not_mem_nil, fun e he => ⟨e, he, le_rfl⟩,
      fun y hy => Or.inl hy⟩
  | cons x xs ih =>
    rw [DbtState.earliestSsq]
    simp only [← val_eq_zero]
    by_cases hzero : x.asn.val = 0
    · rw [if_pos hzero]
      have hspec := ih (i + 1) earliest
      cases hr : DbtState.earliestSsq asn xs (i + 1) earliest with
      | error j =>
        rw [hr] at hspec
        obtain ⟨y, hy, hrest⟩ := hspec
        exact ⟨y, mem_cons_of_mem _ hy, hrest⟩
      | ok r =>
        rw [hr] at hspec
        obtain ⟨hleast, hold, hfrom⟩ := hspec
        refine ⟨fun y hy hne => ?_, hold, fun y hy => ?_⟩
        · rcases mem_cons.mp hy with rfl | hy
          · exact absurd hzero hne
          · exact hleast y hy hne
        · exact (hfrom y hy).imp_right fun hin => ⟨mem_cons_of_mem _ hin.1, hin.2⟩
    · rw [if_neg hzero]
      generalize hnext : (if earliest.all (x.asn.val < ·.2.asn.val) then some (i, x) else earliest) =
        next
      obtain ⟨hhere, holder, hwhich⟩ := earlier_spec (fun x => x.asn.val) earliest i x hnext.symm
      by_cases hpast : x.asn.val ≤ asn.val
      · rw [if_pos hpast]
        exact ⟨x, mem_cons_self, hzero, hpast⟩
      · rw [if_neg hpast]
        have hspec := ih (i + 1) next
        cases hr : DbtState.earliestSsq asn xs (i + 1) next with
        | error j =>
          rw [hr] at hspec
          obtain ⟨y, hy, hrest⟩ := hspec
          exact ⟨y, mem_cons_of_mem _ hy, hrest⟩
        | ok r =>
          rw [hr] at hspec
          obtain ⟨hleast, hold, hfrom⟩ := hspec
          refine ⟨fun y hy hne => ?_, fun e he => ?_, fun y hy => ?_⟩
          · rcases mem_cons.mp hy with rfl | hy
            · obtain ⟨e, he, hle⟩ := hhere
              obtain ⟨z, hz, hze⟩ := hold e he
              exact ⟨Nat.lt_of_not_le hpast, z, hz, hze.trans hle⟩
            · exact hleast y hy hne
          · obtain ⟨e', he', hle⟩ := holder e he
            obtain ⟨z, hz, hze⟩ := hold e' he'
            exact ⟨z, hz, hze.trans hle⟩
          · rcases hfrom y hy with hnext | ⟨hin, hne⟩
            · refine (hwhich y hnext).imp_right fun heq => ?_
              rw [← heq]
              exact ⟨mem_cons_self, hzero⟩
            · exact Or.inr ⟨mem_cons_of_mem _ hin, hne⟩

theorem ostEarlier_of_first {m : BitVec 16} {list : List SsqSchedule} {i : ℕ} {x : SsqSchedule}
    (hr : DbtState.earliestSsq asn list 0 none = .ok (some (i, x))) :
    (DbtState.ostEarlierSsqScheduleList asn m list).2 =
      if x.asn.val - asn.val < m.toNat then
        some (BitVec.ofNat 16 (x.asn.val - asn.val), x.link)
      else none := by
  rw [DbtState.ostEarlierSsqScheduleList, hr]
  by_cases hlt : x.asn.val - asn.val < m.toNat
  · simp only [if_pos hlt]
  · simp only [if_neg hlt]
    split_ifs <;> rfl

/-- **A matched slot is returned** exactly if it comes before all links, and then its time is less
than that of the first link. -/
theorem ostEarlier_spec {m : BitVec 16} (h : First T m.toNat) (asn : TschAsn) (st : DbtState) :
    ((DbtState.ostEarlierSsqScheduleList asn m st.ostSsqScheduleList).2 = none ∧
        ¬SsqEarlier asn st T) ∨
      ∃ time link, (DbtState.ostEarlierSsqScheduleList asn m st.ostSsqScheduleList).2 =
        some (time, link) ∧ time ≠ m ∧ SsqEarlier asn st T := by
  have hspec := earliestSsq_spec asn st.ostSsqScheduleList 0 none
  cases hr : DbtState.earliestSsq asn st.ostSsqScheduleList 0 none with
  | error i =>
    rw [hr] at hspec
    obtain ⟨x, hx, hne, hle⟩ := hspec
    refine Or.inl ⟨by rw [DbtState.ostEarlierSsqScheduleList, hr], fun hearlier => ?_⟩
    exact absurd (hearlier.1 x hx hne) (Nat.not_lt.mpr hle)
  | ok r =>
    rw [hr] at hspec
    obtain ⟨hleast, -, hfrom⟩ := hspec
    cases r with
    | none =>
      refine Or.inl ⟨by rw [DbtState.ostEarlierSsqScheduleList, hr], ?_⟩
      rintro ⟨-, x, hx, hne, -⟩
      obtain ⟨-, y, hy, -⟩ := hleast x hx hne
      cases hy
    | some y =>
      obtain ⟨j, y⟩ := y
      obtain ⟨hin, hne⟩ := (hfrom (j, y) rfl).resolve_left nofun
      have hlater := (hleast y hin hne).1
      rw [ostEarlier_of_first hr]
      by_cases hlt : y.asn.val - asn.val < m.toNat
      · have hm : IsLeast T m.toNat := h.resolve_left fun hm => by omega
        rw [if_pos hlt]
        refine Or.inr ⟨_, _, rfl, fun heq => ?_,
          fun x hx hx' => (hleast x hx hx').1, y, hin, hne, ⟨_, hm.1⟩, fun t ht => ?_⟩
        · rw [← heq, toNat_ofNat] at hlt
          have := m.isLt
          have := Nat.mod_le (y.asn.val - asn.val) (2 ^ 16)
          omega
        · have := hm.2 ht
          omega
      · rw [if_neg hlt]
        refine Or.inl ⟨rfl, ?_⟩
        rintro ⟨-, x, hx, hx', ⟨t, ht⟩, hbefore⟩
        have hm : IsLeast T m.toNat := h.resolve_left fun hm => by
          rw [hm.2] at ht
          exact ht
        obtain ⟨-, z, hz, hle⟩ := hleast x hx hx'
        have hlt' := hbefore _ hm.1
        rw [← Option.some.inj hz] at hle
        have hle' : y.asn.val ≤ x.asn.val := hle
        omega

/-! ## Agreement -/

/-- The two results, when the scan and the loops have seen these times. -/
theorem agrees_iff {time minimumTime : BitVec 16} {link : Option (LinkId ⊕ TschLink)} {ended : Bool}
    {U : Set ℕ} (hT : 0 ∉ T) (hlink : link = none ↔ T = ∅) (htime : First T time.toNat)
    (hU : 0 ∉ U) (hmin : First U minimumTime.toNat) (hended : ended = true ↔ 1 ∉ U) :
    ((if ended then (1 : BitVec 8) else 0) = 1 ↔ ¬(link.isSome ∧ some time = some 1)) ∧
        some time = some minimumTime ↔ Covered T U ∧ Covered U T := by
  rw [← htime.eq_iff hmin hT hU, Option.some.injEq, Option.some.injEq]
  have hnat : time = minimumTime ↔ time.toNat = minimumTime.toNat :=
    ⟨fun heq => congrArg _ heq, eq_of_toNat_eq⟩
  rw [← hnat]
  refine ⟨fun hagree => hagree.2, fun heq => ⟨?_, heq⟩⟩
  subst heq
  have hone : time = 1 ↔ 1 ∈ U := by
    refine ⟨fun heq => ?_, fun hin => eq_of_toNat_eq ?_⟩
    · rw [heq] at hmin
      exact (hmin.resolve_left fun hzero => absurd hzero.1 (by decide)).1
    · have hle := hmin.le hin
      have hne : time.toNat ≠ 0 := fun hzero => by
        rw [(hmin.eq_zero_iff hU).mp hzero] at hin
        exact hin
      exact Nat.le_antisymm hle (Nat.one_le_iff_ne_zero.mpr hne)
  have hsome : time = 1 → link.isSome = true := by
    intro heq
    rw [heq] at htime
    have hleast := htime.resolve_left fun hzero => absurd hzero.1 (by decide)
    rw [isSome_iff_ne_none]
    exact fun hnone => absurd (hlink.mp hnone) (Set.nonempty_of_mem hleast.1).ne_empty
  have hresult : (if ended then (1 : BitVec 8) else 0) = 1 ↔ ended = true := by
    cases ended <;> decide
  rw [hresult, hended, ← hone]
  exact not_congr ⟨fun heq => ⟨hsome heq, heq⟩, fun hboth => hboth.2⟩

/-- The availability of an unlocked schedule, by the times of the loops. -/
theorem available_spec {U : Set ℕ} (hlock : st.sched.tschLocked = false)
    (htimes : listTimes (st.sched.slotframeList.flatMap (st.timesIn asn cfg)) = U ∧
      ∀ time ∈ st.sched.slotframeList.flatMap (st.timesIn asn cfg), time.toNat ≠ 0) :
    ∃ ended minimumTime, st.tschScheduleGetNextTimeslotAvailableOrNot asn cfg =
        (if ended then 1 else 0, minimumTime) ∧
      0 ∉ U ∧ First U minimumTime.toNat ∧ (ended = true ↔ 1 ∉ U) := by
  obtain ⟨htimes, hpos⟩ := htimes
  obtain ⟨hmin, hended⟩ :=
    @scanTimes_spec ∅ 0 _ hpos (Set.notMem_empty 0) (Set.notMem_empty 1) first_empty
  rw [Set.empty_union, htimes] at hmin hended
  have hzero : 0 ∉ U := by
    rw [← htimes]
    rintro ⟨time, htime, heq⟩
    exact hpos time htime heq
  have hnot : ¬st.sched.tschLocked = true := by
    rw [hlock]
    decide
  rw [DbtState.tschScheduleGetNextTimeslotAvailableOrNot, if_neg hnot]
  exact ⟨_, _, rfl, hzero, hmin, hended⟩

/-- An unlocked schedule, when no matched slot is returned: what the scan kept decides. -/
theorem agrees_of_next {U : Set ℕ} (hlock : st.sched.tschLocked = false)
    (hnext : (st.tschScheduleGetNextActiveLink cfg asn).2 =
      ⟨sel.currBest.map .inl, some sel.timeToCurrBest, sel.currBackup⟩) (hfound : Found T sel)
    (htimes : listTimes (st.sched.slotframeList.flatMap (st.timesIn asn cfg)) = U ∧
      ∀ time ∈ st.sched.slotframeList.flatMap (st.timesIn asn cfg), time.toNat ≠ 0) :
    Agrees cfg asn st ↔ Covered T U ∧ Covered U T := by
  obtain ⟨ended, minimumTime, havailable, hzero, hmin, hended⟩ := available_spec hlock htimes
  have hlink : (sel.currBest.map .inl : Option (LinkId ⊕ TschLink)) = none ↔ T = ∅ :=
    map_eq_none_iff.trans hfound.none_iff
  rw [Agrees, hnext, havailable]
  exact agrees_iff hfound.pos hlink hfound.first hzero hmin hended

/-- When both go over the same times, the time of the availability is that of the link kept. -/
theorem available_eq (hlock : st.sched.tschLocked = false) (hfound : Found T sel)
    (htimes : listTimes (st.sched.slotframeList.flatMap (st.timesIn asn cfg)) = T ∧
      ∀ time ∈ st.sched.slotframeList.flatMap (st.timesIn asn cfg), time.toNat ≠ 0) :
    (st.tschScheduleGetNextTimeslotAvailableOrNot asn cfg).2 = sel.timeToCurrBest := by
  obtain ⟨ended, minimumTime, havailable, hzero, hmin, -⟩ := available_spec hlock htimes
  rw [havailable]
  exact eq_of_toNat_eq
    ((hmin.eq_iff hfound.first hzero hzero).mpr ⟨covered_refl T, covered_refl T⟩)

/-- The scan when there are no matched slots. -/
theorem next_of_unlocked (hlock : st.sched.tschLocked = false) (hcells : cfg.cells ≠ .ost true)
    (asn : TschAsn) :
    let sel := ((st.sched.slotframeList.map (·.handle)).foldl (DbtState.visitSlotframe cfg asn)
      (st, .nothing)).2
    (st.tschScheduleGetNextActiveLink cfg asn).2 =
      ⟨sel.currBest.map .inl, some sel.timeToCurrBest, sel.currBackup⟩ := by
  intro sel
  have hnot : ¬st.sched.tschLocked = true := by
    rw [hlock]
    decide
  rw [DbtState.tschScheduleGetNextActiveLink, if_neg hnot]
  cases hc : cfg.cells with
  | orchestra => rfl
  | alice a => rfl
  | ost onDemandProvision =>
    cases onDemandProvision with
    | false => rfl
    | true => exact absurd hc hcells

/-- The scan when no matched slot is returned. -/
theorem next_of_none {u : DbtState} (hlock : st.sched.tschLocked = false)
    (hcells : cfg.cells = .ost true)
    (hsel : (st.sched.slotframeList.map (·.handle)).foldl (DbtState.visitSlotframe cfg asn)
      (st, .nothing) = (u, sel))
    (hnone : (DbtState.ostEarlierSsqScheduleList asn sel.timeToCurrBest
      u.ostSsqScheduleList).2 = none) :
    (st.tschScheduleGetNextActiveLink cfg asn).2 =
      ⟨sel.currBest.map .inl, some sel.timeToCurrBest, sel.currBackup⟩ := by
  have hnot : ¬st.sched.tschLocked = true := by
    rw [hlock]
    decide
  rw [DbtState.tschScheduleGetNextActiveLink, if_neg hnot, hsel, hcells]
  simp only [hnone]

/-- The time when a matched slot is returned. -/
theorem offset_of_some {u : DbtState} {time : BitVec 16} {link : TschLink}
    (hlock : st.sched.tschLocked = false) (hcells : cfg.cells = .ost true)
    (hsel : (st.sched.slotframeList.map (·.handle)).foldl (DbtState.visitSlotframe cfg asn)
      (st, .nothing) = (u, sel))
    (hsome : (DbtState.ostEarlierSsqScheduleList asn sel.timeToCurrBest
      u.ostSsqScheduleList).2 = some (time, link)) :
    (st.tschScheduleGetNextActiveLink cfg asn).2.timeOffset = some time := by
  have hnot : ¬st.sched.tschLocked = true := by
    rw [hlock]
    decide
  rw [DbtState.tschScheduleGetNextActiveLink, if_neg hnot, hsel, hcells]
  simp only [hsome]

/-- ALICE with a period of 20 slots, and the slotframe 3 for the links that come after. -/
def burstConfig : DbtConfig := ⟨.alice ⟨timeVaryingConfig, 3, by decide, by decide⟩, false⟩

/-- Node 3 with its parent 2, in the slot operation at timeslot 18 of slotframe 7. The links of
slotframes 7 and 8 are scheduled. -/
def burstNode : DbtState :=
  let sched := { emptySchedule with slotframeList := [⟨3, 20, []⟩, ⟨2, 20, []⟩] }
  DbtState.scheduleUnicastSlotframes ⟨timeVaryingConfig, 3, by decide, by decide⟩
    ⟨⟨sched, aliceNode 3 false 2 [], .ofNat 158, 7, none, none, fun _ => 0⟩, 8, []⟩

theorem ok_burstNode : burstNode.Ok burstConfig where
  inPlace :=
    { handles := by decide +kernel
      nodup := by decide +kernel
      handle := by decide +kernel
      used := by decide +kernel
      inRange := by decide +kernel }
  both a ha := by
    cases ha
    exact ⟨⟨⟨by decide +kernel, by decide +kernel, by decide +kernel, by decide +kernel⟩,
      ⟨_, rfl, by decide +kernel⟩, by decide +kernel⟩,
      ⟨⟨by decide +kernel, by decide +kernel, by decide +kernel, by decide +kernel⟩,
      ⟨_, rfl, by decide +kernel⟩, by decide +kernel⟩⟩

end Asap.Dbt
