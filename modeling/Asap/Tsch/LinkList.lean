import Asap.Tsch.Schedule

/-!
# The lists of links of a schedule

The lists of links and the blocks they point to are consistent: each block in use is
in one list, the one of the slotframe its handle names. The functions that add and
remove links keep this, and this file says what they do to the links installed: one
more, one less, or the options of the links at a cell merged.

## Main definitions

* `Ok` — the lists of links are consistent with the blocks.
* `Has` — a link in the list of a slotframe.
* `KeepsKinds` — merging makes no link a Tx link or a shared one.
-/

namespace Asap.Tsch.TschSchedule

open Function List

open scoped List

variable {cfg : ScheduleConfig} {s : TschSchedule} {handle : BitVec 16}

/-- What the counters see of the options: whether the link is a Tx link, and shared. -/
def linkKind (options : BitVec 8) : Option Bool :=
  if isTx options then some (isShared options) else none

/-- The lists of links hold blocks in use, each once and in the list its handle says. -/
structure Ok (s : TschSchedule) : Prop where
  handles : (s.slotframeList.map (·.handle)).Nodup
  nodup : s.installed.Nodup
  handle : ∀ sf ∈ s.slotframeList, ∀ l ∈ sf.linksList, (s.links l).slotframeHandle = sf.handle
  used : ∀ l ∈ s.installed, s.used l = true

/-! ## Lists of links -/

/-- The links of the other slotframes. -/
def others (s : TschSchedule) (handle : BitVec 16) : List LinkId :=
  (s.slotframeList.filter fun sf => sf.handle ≠ handle).flatMap (·.linksList)

theorem slotframe_some {sf : TschSlotframe} (h : s.slotframe handle = some sf) :
    sf ∈ s.slotframeList ∧ sf.handle = handle :=
  ⟨mem_of_find?_eq_some h, by simpa using List.find?_some h⟩

/-- Replacing the links of one slotframe of a list of slotframes. -/
theorem flatMap_update_perm (f : List LinkId → List LinkId) {sfs : List TschSlotframe}
    (hnodup : (sfs.map (·.handle)).Nodup) {sf : TschSlotframe} (hmem : sf ∈ sfs) :
    (sfs.map fun sf' => if sf'.handle = sf.handle then { sf' with linksList := f sf'.linksList }
      else sf').flatMap (·.linksList) ~
      f sf.linksList ++ (sfs.filter fun sf' => sf'.handle ≠ sf.handle).flatMap (·.linksList) := by
  induction sfs with
  | nil => simp at hmem
  | cons a sfs ih =>
    obtain ⟨hnot, hrest⟩ := nodup_cons.mp hnodup
    rcases mem_cons.mp hmem with rfl | hmem
    · have hne : ∀ sf' ∈ sfs, sf'.handle ≠ sf.handle := fun sf' hsf' heq =>
        hnot (mem_map.mpr ⟨sf', hsf', heq⟩)
      have hmap : (sfs.map fun sf' => if sf'.handle = sf.handle then
          { sf' with linksList := f sf'.linksList } else sf') = sfs := by
        refine (map_congr_left fun sf' hsf' => ?_).trans (map_id sfs)
        exact if_neg (hne sf' hsf')
      have hfilter : (sfs.filter fun sf' => sf'.handle ≠ sf.handle) = sfs :=
        filter_eq_self.mpr fun sf' hsf' => by simpa using hne sf' hsf'
      rw [map_cons, if_pos rfl, hmap, flatMap_cons, filter_cons_of_neg (by simp),
        hfilter]
    · have hne : a.handle ≠ sf.handle := fun heq =>
        hnot (mem_map.mpr ⟨sf, hmem, heq.symm⟩)
      simp only [map_cons, hne, if_false, flatMap_cons, filter_cons, ne_eq,
        not_false_eq_true, decide_true, if_true]
      calc a.linksList ++ _ ~ a.linksList ++ (f sf.linksList ++ _) := (ih hrest hmem).append_left _
        _ ~ f sf.linksList ++ (a.linksList ++ _) := perm_append_comm_assoc ..

theorem Ok.installed_updateLinksList (h : s.Ok) {sf : TschSlotframe}
    (hsf : s.slotframe handle = some sf) (f : List LinkId → List LinkId) :
    (s.updateLinksList handle f).installed ~ f sf.linksList ++ s.others handle := by
  obtain ⟨hmem, rfl⟩ := slotframe_some hsf
  exact flatMap_update_perm f h.handles hmem

theorem Ok.installed_perm (h : s.Ok) {sf : TschSlotframe} (hsf : s.slotframe handle = some sf) :
    s.installed ~ sf.linksList ++ s.others handle := by
  have hid : s.updateLinksList handle id = s := by
    have hmap : (s.slotframeList.map fun sf => if sf.handle = handle then
        { sf with linksList := id sf.linksList } else sf) = s.slotframeList := by
      refine (map_congr_left fun sf _ => ?_).trans (map_id _)
      split_ifs <;> rfl
    simp only [updateLinksList, hmap]
  have := h.installed_updateLinksList hsf id
  rwa [hid] at this

/-- The other slotframes are those of before. -/
theorem others_updateLinksList (s : TschSchedule) (handle : BitVec 16)
    (f : List LinkId → List LinkId) : (s.updateLinksList handle f).others handle = s.others handle := by
  simp only [others, updateLinksList]
  generalize s.slotframeList = sfs
  induction sfs with
  | nil => rfl
  | cons a sfs ih =>
    by_cases ha : a.handle = handle
    · simp only [map_cons, ha, if_true, ne_eq, not_true_eq_false, decide_false,
        Bool.false_eq_true, not_false_eq_true, filter_cons_of_neg] at ih ⊢
      exact ih
    · simp only [map_cons, ha, if_false, ne_eq, not_false_eq_true, decide_true,
        filter_cons_of_pos, flatMap_cons] at ih ⊢
      rw [ih]

/-- The other slotframes depend on the list of slotframes only. -/
theorem others_congr {t : TschSchedule} (h : t.slotframeList = s.slotframeList) :
    t.others handle = s.others handle := by
  rw [others, others, h]

/-- A slotframe keeps its handle. -/
theorem map_handle_updateLinksList (s : TschSchedule) (handle : BitVec 16)
    (f : List LinkId → List LinkId) :
    (s.updateLinksList handle f).slotframeList.map (·.handle) = s.slotframeList.map (·.handle) := by
  simp only [updateLinksList, map_map]
  refine map_congr_left fun sf _ => ?_
  simp only [Function.comp_apply]
  split_ifs <;> rfl

/-- The slotframes after a change of one list. -/
theorem mem_updateLinksList {f : List LinkId → List LinkId} {sf' : TschSlotframe}
    (h : sf' ∈ (s.updateLinksList handle f).slotframeList) :
    ∃ sf ∈ s.slotframeList, sf'.handle = sf.handle ∧
      sf'.linksList = if sf.handle = handle then f sf.linksList else sf.linksList := by
  obtain ⟨sf, hmem, rfl⟩ := mem_map.mp h
  refine ⟨sf, hmem, ?_⟩
  split_ifs <;> exact ⟨rfl, rfl⟩

theorem slotframe_updateLinksList {sf : TschSlotframe} (hsf : s.slotframe handle = some sf)
    (f : List LinkId → List LinkId) :
    (s.updateLinksList handle f).slotframe handle =
      some { sf with linksList := f sf.linksList } := by
  simp only [slotframe, updateLinksList] at hsf ⊢
  generalize s.slotframeList = sfs at hsf ⊢
  induction sfs with
  | nil => simp at hsf
  | cons a sfs ih =>
    by_cases ha : a.handle = handle
    · rw [List.find?_cons_of_pos (by simpa using ha), Option.some.injEq] at hsf
      subst hsf
      rw [map_cons, if_pos ha, List.find?_cons_of_pos (by simpa using ha)]
    · rw [List.find?_cons_of_neg (by simpa using ha)] at hsf
      rw [map_cons, if_neg ha, List.find?_cons_of_neg (by simpa using ha)]
      exact ih hsf

theorem Ok.nodup_linksList (h : s.Ok) {sf : TschSlotframe} (hsf : s.slotframe handle = some sf) :
    sf.linksList.Nodup :=
  (nodup_append.mp ((h.installed_perm hsf).nodup_iff.mp h.nodup)).1

/-- Whether there is a slotframe depends on the handles only. -/
theorem slotframe_of_handles {t : TschSchedule}
    (h : t.slotframeList.map (·.handle) = s.slotframeList.map (·.handle)) {sf : TschSlotframe}
    (hsf : s.slotframe handle = some sf) : ∃ sf', t.slotframe handle = some sf' := by
  obtain ⟨hmem, hhandle⟩ := slotframe_some hsf
  have hin : handle ∈ t.slotframeList.map (·.handle) := by
    rw [h]
    exact mem_map.mpr ⟨sf, hmem, hhandle⟩
  obtain ⟨sf', hmem', hhandle'⟩ := mem_map.mp hin
  refine Option.isSome_iff_exists.mp (List.find?_isSome.mpr ⟨sf', hmem', ?_⟩)
  simpa using hhandle'

/-! ## One link more, one link less -/

/-- Installing a block that is not in use, whatever else changes in the options. -/
theorem Ok.install (h : s.Ok) {sf : TschSlotframe} (hsf : s.slotframe handle = some sf)
    {l : LinkId} (hl : s.used l = false) {links : LinkId → TschLink}
    (hold : ∀ m ∈ s.installed, (links m).slotframeHandle = (s.links m).slotframeHandle)
    (hnew : (links l).slotframeHandle = handle) :
    Ok { s.listAdd handle l with links := links } ∧
      ({ s.listAdd handle l with links := links } : TschSchedule).installed ~
        l :: s.installed := by
  have hfresh : l ∉ s.installed := fun hmem => by simp [h.used l hmem] at hl
  have hnot : l ∉ sf.linksList := fun hmem =>
    hfresh (mem_flatMap.mpr ⟨sf, (slotframe_some hsf).1, hmem⟩)
  have hperm : (s.listAdd handle l).installed ~ l :: s.installed := by
    have h1 := h.installed_updateLinksList hsf (fun ls => ls.erase l ++ [l])
    rw [erase_of_not_mem hnot, append_assoc] at h1
    calc (s.listAdd handle l).installed ~ sf.linksList ++ (l :: s.others handle) := h1
      _ ~ l :: (sf.linksList ++ s.others handle) := perm_middle
      _ ~ l :: s.installed := (h.installed_perm hsf).symm.cons l
  refine ⟨⟨?_, ?_, ?_, ?_⟩, hperm⟩
  · have hmap := map_handle_updateLinksList s handle (fun ls => ls.erase l ++ [l])
    exact hmap ▸ h.handles
  · exact hperm.nodup_iff.mpr (nodup_cons.mpr ⟨hfresh, h.nodup⟩)
  · intro sf' hsf' m hm
    have hsf'' : sf' ∈ (s.updateLinksList handle fun ls => ls.erase l ++ [l]).slotframeList := hsf'
    obtain ⟨sf₀, hmem, hhandle, hlist⟩ := mem_updateLinksList hsf''
    rw [hlist] at hm
    have hinst : ∀ m ∈ sf₀.linksList, (links m).slotframeHandle = sf'.handle := fun m hm => by
      rw [hold m (mem_flatMap.mpr ⟨sf₀, hmem, hm⟩), h.handle sf₀ hmem m hm, hhandle]
    by_cases hh : sf₀.handle = handle
    · rw [if_pos hh] at hm
      rcases mem_append.mp hm with hm | hm
      · exact hinst m (mem_of_mem_erase hm)
      · rw [mem_singleton.mp hm]
        exact hnew.trans (hh.symm.trans hhandle.symm)
    · rw [if_neg hh] at hm
      exact hinst m hm
  · intro m hm
    rcases mem_cons.mp (hperm.mem_iff.mp hm) with rfl | hm
    · exact update_self ..
    · have hne : m ≠ l := fun heq => hfresh (heq ▸ hm)
      exact (update_of_ne hne _ _).trans (h.used m hm)

/-- Freeing an installed block. -/
theorem Ok.erase (h : s.Ok) {sf : TschSlotframe} (hsf : s.slotframe handle = some sf)
    {l : LinkId} (hl : l ∈ sf.linksList) :
    Ok { s.updateLinksList handle (fun ls => ls.erase l) with
        used := update s.used l false } ∧
      s.installed ~ l :: (s.updateLinksList handle fun ls => ls.erase l).installed := by
  have hperm : s.installed ~ l :: (s.updateLinksList handle fun ls => ls.erase l).installed :=
    calc s.installed ~ sf.linksList ++ s.others handle := h.installed_perm hsf
      _ ~ l :: (sf.linksList.erase l ++ s.others handle) :=
        (perm_cons_erase hl).append_right _
      _ ~ l :: (s.updateLinksList handle fun ls => ls.erase l).installed :=
        (h.installed_updateLinksList hsf fun ls => ls.erase l).symm.cons l
  have hnodup := hperm.nodup_iff.mp h.nodup
  obtain ⟨hnot, hrest⟩ := nodup_cons.mp hnodup
  have hmap := map_handle_updateLinksList s handle fun ls => ls.erase l
  refine ⟨⟨hmap ▸ h.handles, hrest, ?_, ?_⟩, hperm⟩
  · intro sf' hsf' m hm
    have hsf'' : sf' ∈ (s.updateLinksList handle fun ls => ls.erase l).slotframeList := hsf'
    obtain ⟨sf₀, hmem, hhandle, hlist⟩ := mem_updateLinksList hsf''
    have hm₀ : m ∈ sf₀.linksList := by
      rw [hlist] at hm
      split_ifs at hm
      · exact mem_of_mem_erase hm
      · exact hm
    exact (h.handle sf₀ hmem m hm₀).trans hhandle.symm
  · intro m hm
    have hne : m ≠ l := fun heq => hnot (heq ▸ hm)
    exact (update_of_ne hne _ _).trans
      (h.used m (hperm.mem_iff.mpr (mem_cons_of_mem _ hm)))

/-! ## Merging -/

/-- The options collected over a list of options. -/
def collect (options : BitVec 8) (os : List (BitVec 8)) : BitVec 8 := os.foldl (· ||| ·) options

/-- No link gets another kind by the options collected before it. -/
def KeepsKinds : BitVec 8 → List (BitVec 8) → Prop
  | _, [] => True
  | options, o :: os =>
    linkKind (o ||| (options ||| o)) = linkKind o ∧ KeepsKinds (options ||| o) os

/-- The options of the links of a list at a cell. -/
def cellOptions (links : LinkId → TschLink) (timeslot channelOffset : BitVec 16)
    (ls : List LinkId) : List (BitVec 8) :=
  (ls.filter fun l => (links l).atCell timeslot channelOffset).map fun l => (links l).linkOptions

variable {timeslot channelOffset : BitVec 16}

theorem cellOptions_cons (links : LinkId → TschLink) (l : LinkId) (ls : List LinkId) :
    cellOptions links timeslot channelOffset (l :: ls) =
      if (links l).atCell timeslot channelOffset then
        (links l).linkOptions :: cellOptions links timeslot channelOffset ls
      else cellOptions links timeslot channelOffset ls := by
  simp only [cellOptions, filter_cons]
  split_ifs <;> rfl

theorem cellOptions_congr {links links' : LinkId → TschLink} {ls : List LinkId}
    (h : ∀ l ∈ ls, links' l = links l) :
    cellOptions links' timeslot channelOffset ls = cellOptions links timeslot channelOffset ls := by
  simp only [cellOptions]
  rw [filter_congr fun l hl => by rw [h l hl]]
  exact map_congr_left fun l hl => by rw [h l (mem_of_mem_filter hl)]

/-- **What the merging loop does**: it changes only the options of the links of the
list, collects the options at the cell, and keeps the kinds when they may be kept. -/
theorem foldl_mergeOne {ls : List LinkId} (hnodup : ls.Nodup) (links : LinkId → TschLink)
    (options : BitVec 8) :
    let m := ls.foldl (mergeOne timeslot channelOffset) (links, options)
    (∀ l ∉ ls, m.1 l = links l) ∧
      (∀ l, { m.1 l with linkOptions := (links l).linkOptions } = links l) ∧
      m.2 = collect options (cellOptions links timeslot channelOffset ls) ∧
      (∀ l, (links l).linkOptions ||| (m.1 l).linkOptions = (m.1 l).linkOptions) ∧
      (KeepsKinds options (cellOptions links timeslot channelOffset ls) →
        ∀ l ∈ ls, linkKind (m.1 l).linkOptions = linkKind (links l).linkOptions) := by
  induction ls generalizing links options with
  | nil => simp [collect, cellOptions]
  | cons a ls ih =>
    obtain ⟨hnot, hrest⟩ := nodup_cons.mp hnodup
    rw [cellOptions_cons, foldl_cons]
    by_cases ha : (links a).atCell timeslot channelOffset
    · have hone : mergeOne timeslot channelOffset (links, options) a =
          (update links a { links a with
            linkOptions := (links a).linkOptions ||| (options ||| (links a).linkOptions) },
            options ||| (links a).linkOptions) := if_pos ha
      have hother : ∀ l ≠ a, update links a { links a with
          linkOptions := (links a).linkOptions ||| (options ||| (links a).linkOptions) } l =
            links l := fun l hl => update_of_ne hl _ _
      rw [hone, if_pos ha]
      obtain ⟨hout, hfields, hoptions, hgrow, hkind⟩ := ih hrest (update links a
        { links a with linkOptions := (links a).linkOptions ||| (options ||| (links a).linkOptions) })
        (options ||| (links a).linkOptions)
      rw [cellOptions_congr fun l hl => hother l fun heq => hnot (heq ▸ hl)] at hoptions hkind
      refine ⟨fun l hl => ?_, fun l => ?_, hoptions, fun l => ?_, fun hkeep l hl => ?_⟩
      · obtain ⟨hla, hls⟩ := not_or.mp fun h => hl (mem_cons.mpr h)
        exact (hout l hls).trans (hother l hla)
      · have := hfields l
        by_cases hla : l = a
        · subst hla
          rw [update_self] at this
          rw [TschLink.mk.injEq] at this
          cases hx : links l
          simp_all
        · rwa [hother l hla] at this
      · have := hgrow l
        by_cases hla : l = a
        · subst hla
          rw [hout l hnot, update_self]
          simp only [← BitVec.or_assoc, BitVec.or_self]
        · rwa [hother l hla] at this
      · by_cases hla : l = a
        · subst hla
          rw [hout l hnot, update_self]
          exact hkeep.1
        · rw [hkind hkeep.2 l ((mem_cons.mp hl).resolve_left hla), hother l hla]
    · have hone : mergeOne timeslot channelOffset (links, options) a = (links, options) :=
        if_neg ha
      rw [hone, if_neg ha]
      obtain ⟨hout, hfields, hoptions, hgrow, hkind⟩ := ih hrest links options
      refine ⟨fun l hl => hout l fun h => hl (mem_cons_of_mem _ h), hfields, hoptions, hgrow,
        fun hkeep l hl => ?_⟩
      rcases mem_cons.mp hl with rfl | hl
      · rw [hout l hnot]
      · exact hkind hkeep l hl

/-! ## Removing links -/

/-- A link in the list of a slotframe. -/
def Has (s : TschSchedule) (handle : BitVec 16) (l : LinkId) : Prop :=
  ∃ sf, s.slotframe handle = some sf ∧ l ∈ sf.linksList

/-- The links in the list of a slotframe. -/
def linksOf (s : TschSchedule) (handle : BitVec 16) : List LinkId :=
  match s.slotframe handle with
  | none => []
  | some sf => sf.linksList

theorem linksOf_eq {sf : TschSlotframe} (hsf : s.slotframe handle = some sf) :
    s.linksOf handle = sf.linksList := by
  rw [linksOf, hsf]

/-- The links of a slotframe are among those of all slotframes but another one. -/
theorem linksOf_subset_others {handle' : BitVec 16} (hne : handle' ≠ handle) {l : LinkId}
    (hl : l ∈ s.linksOf handle') : l ∈ s.others handle := by
  cases hsf : s.slotframe handle' with
  | none => simp [linksOf, hsf] at hl
  | some sf =>
    rw [linksOf_eq hsf] at hl
    obtain ⟨hmem, hhandle⟩ := slotframe_some hsf
    have hsf' : sf ∈ s.slotframeList.filter fun sf => sf.handle ≠ handle :=
      mem_filter.mpr ⟨hmem, by simpa [hhandle] using hne⟩
    exact mem_flatMap.mpr ⟨sf, hsf', hl⟩

/-- A link of another slotframe has another handle. -/
theorem Ok.handle_of_others (h : s.Ok) {l : LinkId} (hl : l ∈ s.others handle) :
    (s.links l).slotframeHandle ≠ handle := by
  obtain ⟨sf, hsf, hl⟩ := mem_flatMap.mp hl
  obtain ⟨hmem, hne⟩ := mem_filter.mp hsf
  rw [h.handle sf hmem l hl]
  simpa using hne

/-- The functions that remove links go on without the lock, or do not need it. -/
def canRemove (cfg : ScheduleConfig) (s : TschSchedule) : Bool :=
  !s.tschLocked || (cfg.withAlice && cfg.aliceTimeVaryingScheduling)

theorem canRemove_of_unlocked (cfg : ScheduleConfig) (h : s.tschLocked = false) :
    s.canRemove cfg = true := by
  simp [canRemove, h]

theorem Ok.slotframeHandle (h : s.Ok) {l : LinkId} (hl : s.Has handle l) :
    (s.links l).slotframeHandle = handle := by
  obtain ⟨sf, hsf, hmem⟩ := hl
  obtain ⟨hsfmem, hhandle⟩ := slotframe_some hsf
  rw [h.handle sf hsfmem l hmem, hhandle]

/-- The two outcomes of removing a link of the list. -/
theorem Ok.removeLink_cases (cfg : ScheduleConfig) (h : s.Ok) {l : LinkId} (hl : s.Has handle l) :
    (s.canRemove cfg = false ∧ s.tschScheduleRemoveLink cfg handle l = s) ∨
      (s.canRemove cfg = true ∧ s.tschScheduleRemoveLink cfg handle l = s.freeLink handle l) := by
  have hhandle := h.slotframeHandle hl
  simp only [tschScheduleRemoveLink, canRemove, hhandle, ne_eq, not_true_eq_false, if_false]
  cases s.tschLocked <;> cases cfg.withAlice && cfg.aliceTimeVaryingScheduling <;> simp

/-- Freeing a link touches no block, and the entry of its address only. -/
theorem freeLink_spec (s : TschSchedule) (handle : BitVec 16) (l : LinkId) :
    (s.freeLink handle l).slotframeList =
        (s.updateLinksList handle fun ls => ls.erase l).slotframeList ∧
      (s.freeLink handle l).links = s.links ∧
      (s.freeLink handle l).used = update s.used l false ∧
      (s.freeLink handle l).nbrs = if isTx (s.links l).linkOptions then
        update s.nbrs (s.links l).addr ((s.nbrs (s.links l).addr).map
          (.decTxLinks (s.links l).linkOptions)) else s.nbrs := by
  simp only [freeLink]
  split_ifs <;> exact ⟨rfl, rfl, rfl, rfl⟩

/-- Removing a link of one slotframe leaves the others and all blocks alone. -/
theorem frame_removeLink (cfg : ScheduleConfig) (s : TschSchedule) (handle : BitVec 16)
    (l : LinkId) : (s.tschScheduleRemoveLink cfg handle l).others handle = s.others handle ∧
      (s.tschScheduleRemoveLink cfg handle l).links = s.links := by
  simp only [tschScheduleRemoveLink]
  split_ifs
  · exact ⟨rfl, rfl⟩
  · exact ⟨rfl, rfl⟩
  · obtain ⟨hlist, hlinks, -⟩ := s.freeLink_spec handle l
    exact ⟨(others_congr hlist).trans (others_updateLinksList ..), hlinks⟩

/-- Removing a link of the list keeps the lists consistent. -/
theorem Ok.removeLink (h : s.Ok) {l : LinkId} (hl : s.Has handle l) :
    (s.tschScheduleRemoveLink cfg handle l).Ok := by
  obtain ⟨-, heq⟩ | ⟨-, heq⟩ := h.removeLink_cases cfg hl
  · rwa [heq]
  · obtain ⟨sf, hsf, hmem⟩ := hl
    obtain ⟨hok, -⟩ := h.erase hsf hmem
    obtain ⟨hlist, hlinks, hused, -⟩ := s.freeLink_spec handle l
    have hinst : (s.freeLink handle l).installed =
        (s.updateLinksList handle fun ls => ls.erase l).installed := by
      rw [installed, hlist, installed]
    rw [heq]
    refine ⟨hlist ▸ hok.handles, hinst ▸ hok.nodup, ?_, ?_⟩
    · rw [hlist, hlinks]
      exact hok.handle
    · rw [hinst, hused]
      exact hok.used

/-- The other links stay where they are. -/
theorem Ok.has_removeLink (h : s.Ok) {l m : LinkId} (hl : s.Has handle l) (hm : s.Has handle m)
    (hne : m ≠ l) : (s.tschScheduleRemoveLink cfg handle l).Has handle m := by
  obtain ⟨-, heq⟩ | ⟨-, heq⟩ := h.removeLink_cases cfg hl
  · rwa [heq]
  · obtain ⟨sf, hsf, hmem⟩ := hm
    refine ⟨{ sf with linksList := sf.linksList.erase l }, ?_,
      (mem_erase_of_ne hne).mpr hmem⟩
    rw [heq, slotframe, (s.freeLink_spec handle l).1]
    exact slotframe_updateLinksList hsf fun ls => ls.erase l

theorem handles_removeLink (cfg : ScheduleConfig) (s : TschSchedule) (handle : BitVec 16)
    (l : LinkId) : (s.tschScheduleRemoveLink cfg handle l).slotframeList.map (·.handle) =
      s.slotframeList.map (·.handle) := by
  simp only [tschScheduleRemoveLink]
  split_ifs
  · rfl
  · rfl
  · rw [(s.freeLink_spec handle l).1]
    exact map_handle_updateLinksList ..

theorem handles_removeLinkByTimeslot (cfg : ScheduleConfig) (s : TschSchedule)
    (handle timeslot channelOffset : BitVec 16) :
    (s.tschScheduleRemoveLinkByTimeslot cfg handle timeslot channelOffset).slotframeList.map
      (·.handle) = s.slotframeList.map (·.handle) := by
  have key : ∀ (ls : List LinkId) (s : TschSchedule),
      (ls.foldl (removeAtCell cfg handle timeslot channelOffset) s).slotframeList.map (·.handle) =
        s.slotframeList.map (·.handle) := by
    intro ls
    induction ls with
    | nil => exact fun _ => rfl
    | cons l ls ih =>
      intro s
      rw [foldl_cons, ih, removeAtCell]
      split_ifs
      · exact handles_removeLink ..
      · rfl
  simp only [tschScheduleRemoveLinkByTimeslot]
  split_ifs
  · rfl
  · cases s.slotframe handle with
    | none => rfl
    | some sf => exact key _ _

/-- Under the lock, a loop that needs it removes nothing. -/
theorem foldl_removeLink_locked {ls : List LinkId} (h : s.Ok) (hc : s.canRemove cfg = false)
    (hls : ∀ l ∈ ls, s.Has handle l) :
    ls.foldl (fun s l => s.tschScheduleRemoveLink cfg handle l) s = s := by
  induction ls with
  | nil => rfl
  | cons l ls ih =>
    have heq : s.tschScheduleRemoveLink cfg handle l = s := by
      obtain ⟨-, heq⟩ | ⟨hc', -⟩ := h.removeLink_cases cfg (hls l (mem_cons_self ..))
      · exact heq
      · simp [hc] at hc'
    rw [foldl_cons, heq]
    exact ih fun m hm => hls m (mem_cons_of_mem _ hm)

/-- The loop of `tsch_schedule_remove_slotframe` empties the slotframe, unless the lock
keeps it from removing links. -/
theorem Ok.foldl_removeLink_all (cfg : ScheduleConfig) {sf : TschSlotframe} (h : s.Ok)
    (hsf : s.slotframe handle = some sf) :
    let t := sf.linksList.foldl (fun s l => s.tschScheduleRemoveLink cfg handle l) s
    t.Ok ∧ (t.canRemove cfg = true → t.slotframe handle = some { sf with linksList := [] }) := by
  have key : ∀ (ls : List LinkId) (s : TschSchedule) (sf' : TschSlotframe), s.Ok →
      s.slotframe handle = some sf' → sf' = { sf with linksList := ls } →
      let t := ls.foldl (fun s l => s.tschScheduleRemoveLink cfg handle l) s
      t.Ok ∧ (t.canRemove cfg = true → t.slotframe handle = some { sf with linksList := [] }) := by
    intro ls
    induction ls with
    | nil => exact fun s sf' h hsf' heq => ⟨h, fun _ => heq ▸ hsf'⟩
    | cons l ls ih =>
      intro s sf' h hsf' hlist
      have hall : ∀ m ∈ l :: ls, s.Has handle m := fun m hm => ⟨sf', hsf', by rwa [hlist]⟩
      have hhas := hall l (mem_cons_self ..)
      obtain ⟨hc, heq⟩ | ⟨-, heq⟩ := h.removeLink_cases cfg hhas
      · rw [foldl_removeLink_locked h hc hall]
        refine ⟨h, fun hcan => ?_⟩
        simp [hcan] at hc
      · refine ih (s.tschScheduleRemoveLink cfg handle l)
          { sf' with linksList := sf'.linksList.erase l } (h.removeLink hhas) ?_ ?_
        · rw [heq, slotframe, (s.freeLink_spec handle l).1]
          exact slotframe_updateLinksList hsf' fun ls => ls.erase l
        · rw [hlist, erase_cons_head]
  exact key sf.linksList s sf h hsf rfl

/-! ## Adding links -/

theorem allocLink_unused {l : LinkId} (h : s.allocLink cfg = some l) : s.used l = false := by
  simpa using List.find?_some h

theorem Ok.not_mem_of_unused (h : s.Ok) {l : LinkId} (hl : s.used l = false) :
    l ∉ s.installed := fun hmem => by simp [h.used l hmem] at hl

/-- The merging loop of ALICE, which meets the block being added last. -/
theorem Ok.merge_kinds (h : s.Ok) {sf : TschSlotframe} (hsf : s.slotframe handle = some sf)
    {linkOptions : BitVec 8} {l : LinkId} (hl : s.used l = false)
    (hkeep : KeepsKinds linkOptions (cellOptions s.links timeslot channelOffset sf.linksList))
    {k : LinkId} (hk : k ∈ s.installed) :
    linkKind (((sf.linksList ++ [l]).foldl (mergeOne timeslot channelOffset)
      (s.links, linkOptions)).1 k).linkOptions = linkKind (s.links k).linkOptions := by
  have hne : k ≠ l := fun heq => h.not_mem_of_unused hl (heq ▸ hk)
  obtain ⟨hout, -, -, -, hkind⟩ := foldl_mergeOne (h.nodup_linksList hsf) s.links linkOptions
  have hlast : linkKind ((sf.linksList.foldl (mergeOne timeslot channelOffset)
      (s.links, linkOptions)).1 k).linkOptions = linkKind (s.links k).linkOptions := by
    by_cases hmem : k ∈ sf.linksList
    · exact hkind hkeep k hmem
    · rw [hout k hmem]
  rw [foldl_append, foldl_cons, foldl_nil, mergeOne]
  split_ifs
  · simpa only [update_of_ne hne] using hlast
  · exact hlast

/-! ### Links that are there -/

/-- All options of one link are options of another. -/
def OptionsIn (a b : BitVec 8) : Prop := a ||| b = b

theorem OptionsIn.trans {a b c : BitVec 8} (h : OptionsIn a b) (h' : OptionsIn b c) :
    OptionsIn a c := by
  simp only [OptionsIn] at h h' ⊢
  rw [← h', ← BitVec.or_assoc, h]

theorem optionsIn_collect (options : BitVec 8) (os : List (BitVec 8)) :
    OptionsIn options (collect options os) := by
  induction os generalizing options with
  | nil => exact BitVec.or_self
  | cons o os ih =>
    have h : OptionsIn options (options ||| o) := by
      rw [OptionsIn, ← BitVec.or_assoc, BitVec.or_self]
    exact h.trans (ih (options ||| o))

/-- A link at a cell of a slotframe, with given options among its own. -/
def Installed (s : TschSchedule) (handle timeslot channelOffset : BitVec 16)
    (options : BitVec 8) : Prop :=
  ∃ l, s.Has handle l ∧ (s.links l).atCell timeslot channelOffset = true ∧
    OptionsIn options (s.links l).linkOptions

/-- The blocks of the pool that are free. -/
def freeLinks (cfg : ScheduleConfig) (s : TschSchedule) : ℕ :=
  (List.range cfg.maxLinks).countP fun l => !s.used l

theorem allocLink_of_pos (h : 0 < s.freeLinks cfg) : ∃ l, s.allocLink cfg = some l := by
  obtain ⟨l, hl, hfree⟩ := countP_pos_iff.mp h
  exact Option.isSome_iff_exists.mp (List.find?_isSome.mpr ⟨l, hl, hfree⟩)

/-- A block taken from the pool. -/
theorem freeLinks_listAdd (handle : BitVec 16) {l : LinkId} (h : s.allocLink cfg = some l) :
    freeLinks cfg (s.listAdd handle l) + 1 = s.freeLinks cfg := by
  have hmem : l ∈ List.range cfg.maxLinks := mem_of_find?_eq_some h
  have hunused := allocLink_unused h
  have hperm := perm_cons_erase hmem
  simp only [freeLinks]
  rw [hperm.countP_eq, hperm.countP_eq, countP_cons, countP_cons]
  have hrest : (((List.range cfg.maxLinks).erase l).countP fun m => !(s.listAdd handle l).used m) =
      ((List.range cfg.maxLinks).erase l).countP fun m => !s.used m := by
    refine countP_congr fun m hm => ?_
    have hne : m ≠ l := ((nodup_range).mem_erase_iff.mp hm).1
    simp only [listAdd, update_of_ne hne]
  rw [hrest]
  simp [listAdd, hunused]

/-- Counting a link changes neither the lists nor the blocks, and releases the lock. -/
theorem countLink_spec (cfg : ScheduleConfig) (s : TschSchedule) (x : TschLink) (room : Bool) :
    (s.countLink cfg x room).slotframeList = s.slotframeList ∧
      (s.countLink cfg x room).links = s.links ∧ (s.countLink cfg x room).used = s.used ∧
      (s.countLink cfg x room).tschLocked = false := by
  simp only [countLink, tschQueueAddNbr, tschQueueGetNbr]
  split_ifs <;> first | exact ⟨rfl, rfl, rfl, rfl⟩ | (split <;> exact ⟨rfl, rfl, rfl, rfl⟩)

/-- A link is installed in block `l`, and then counted for its neighbor. -/
theorem Ok.installCount (h : s.Ok) {sf : TschSlotframe} (hsf : s.slotframe handle = some sf)
    {l : LinkId} (hl : s.used l = false) {links : LinkId → TschLink}
    (hold : ∀ m ∈ s.installed, (links m).slotframeHandle = (s.links m).slotframeHandle)
    (hnew : (links l).slotframeHandle = handle) (cfg : ScheduleConfig) (x : TschLink)
    (lock room : Bool) {t : TschSchedule}
    (ht : countLink cfg { s.listAdd handle l with links := links, tschLocked := lock } x room = t) :
    t.Ok ∧ t.slotframe handle = some { sf with linksList := sf.linksList.erase l ++ [l] } ∧
      t.slotframeList = (s.listAdd handle l).slotframeList ∧ t.links = links ∧
      t.used = (s.listAdd handle l).used ∧ t.tschLocked = false := by
  obtain ⟨hok, -⟩ := h.install hsf hl hold hnew
  obtain ⟨hlist, hlinks, hused, hunlock⟩ := countLink_spec cfg
    { s.listAdd handle l with links := links, tschLocked := lock } x room
  rw [ht] at hlist hlinks hused hunlock
  have hinst : t.installed = (s.listAdd handle l).installed := by
    rw [installed, hlist]
    rfl
  refine ⟨⟨hlist ▸ hok.handles, hinst ▸ hok.nodup, ?_, ?_⟩, ?_, hlist, hlinks, hused, hunlock⟩
  · rw [hlist, hlinks]
    exact hok.handle
  · rw [hinst, hused]
    exact hok.used
  · rw [slotframe, hlist]
    exact slotframe_updateLinksList hsf fun ls => ls.erase l ++ [l]

/-- The options a link added by ALICE gets in block `l`. -/
def aliceLinkOptions (cfg : ScheduleConfig) (s : TschSchedule) (ls : List LinkId) (l : LinkId)
    (timeslot channelOffset : BitVec 16) (linkOptions : BitVec 8) : BitVec 8 :=
  if cfg.aliceTimeVaryingScheduling then
    collect linkOptions (cellOptions s.links timeslot channelOffset (ls ++ [l]))
  else linkOptions

/-- The state in which `alice_tsch_schedule_add_link` counts its link: the block is at the
end of the list, and the other links have at most gained options. -/
theorem Ok.aliceAddLink_eq (h : s.Ok) {sf : TschSlotframe} (hsf : s.slotframe handle = some sf)
    (hlock : (s.tschLocked && !cfg.aliceTimeVaryingScheduling) = false)
    (hts : timeslot.toNat ≤ sf.size.toNat - 1) (hch : channelOffset.toNat ≤ 15) {l : LinkId}
    (hl : s.allocLink cfg = some l) (linkOptions : BitVec 8) (addr : LinkAddr) (room : Bool) :
    ∃ (links : LinkId → TschLink) (x : TschLink) (lock : Bool),
      (s.aliceTschScheduleAddLink cfg handle linkOptions addr timeslot channelOffset room).1 =
        countLink cfg { s.listAdd handle l with links := links, tschLocked := lock } x room ∧
      x = ⟨handle, addr, timeslot, channelOffset,
        s.aliceLinkOptions cfg sf.linksList l timeslot channelOffset linkOptions⟩ ∧
      links l = x ∧
      (∀ k ∈ s.installed, { links k with linkOptions := (s.links k).linkOptions } = s.links k ∧
        OptionsIn (s.links k).linkOptions (links k).linkOptions) ∧
      ((cfg.aliceTimeVaryingScheduling = true →
          KeepsKinds linkOptions (cellOptions s.links timeslot channelOffset sf.linksList)) →
        ∀ k ∈ s.installed, linkKind (links k).linkOptions = linkKind (s.links k).linkOptions) := by
  have hunused := allocLink_unused hl
  have hfresh := h.not_mem_of_unused hunused
  have hnot : l ∉ sf.linksList := fun hmem =>
    hfresh (mem_flatMap.mpr ⟨sf, (slotframe_some hsf).1, hmem⟩)
  have hvalid : ¬ sf.size.toNat - 1 < timeslot.toNat := by omega
  have hvalid' : ¬ 15 < channelOffset.toNat := by omega
  simp only [aliceTschScheduleAddLink, hsf, hvalid, hvalid', hlock, hl, if_false,
    Bool.false_eq_true, aliceLinkOptions]
  by_cases htv : cfg.aliceTimeVaryingScheduling = true
  · have hnodup := h.nodup_linksList hsf
    have hnodup' : (sf.linksList ++ [l]).Nodup :=
      (perm_append_singleton l sf.linksList).nodup_iff.mpr
        (nodup_cons.mpr ⟨hnot, hnodup⟩)
    obtain ⟨-, hfields, hoptions, hgrow, -⟩ :=
      @foldl_mergeOne timeslot channelOffset _ hnodup' s.links linkOptions
    have hsf₁ : ({ s.listAdd handle l with tschLocked :=
        s.tschLocked || !cfg.aliceTimeVaryingScheduling } : TschSchedule).slotframe handle =
          some { sf with linksList := sf.linksList ++ [l] } := by
      have := slotframe_updateLinksList hsf fun ls => ls.erase l ++ [l]
      rwa [erase_of_not_mem hnot] at this
    simp only [aliceTschScheduleSetLinkOption, htv, Bool.not_true, Bool.and_false,
      Bool.false_eq_true, if_false, if_true, mergeOptions] at hsf₁ ⊢
    rw [hsf₁, ← hoptions]
    refine ⟨_, _, _, rfl, rfl, update_self .., fun k hk => ?_, fun hkeep k hk => ?_⟩
    · have hne : k ≠ l := fun heq => hfresh (heq ▸ hk)
      rw [update_of_ne hne]
      exact ⟨hfields k, hgrow k⟩
    · have hne : k ≠ l := fun heq => hfresh (heq ▸ hk)
      rw [update_of_ne hne]
      exact h.merge_kinds hsf hunused (hkeep trivial) hk
  · simp only [aliceTschScheduleSetLinkOption, htv, Bool.not_false, Bool.and_true, Bool.or_true,
      if_true]
    refine ⟨_, _, _, rfl, rfl, update_self .., fun k hk => ?_, fun _ k hk => ?_⟩
    · have hne : k ≠ l := fun heq => hfresh (heq ▸ hk)
      rw [update_of_ne hne]
      exact ⟨rfl, BitVec.or_self⟩
    · have hne : k ≠ l := fun heq => hfresh (heq ▸ hk)
      rw [update_of_ne hne]
      rfl

theorem optionsIn_aliceLinkOptions (cfg : ScheduleConfig) (s : TschSchedule) (ls : List LinkId)
    (l : LinkId) (timeslot channelOffset : BitVec 16) (linkOptions : BitVec 8) :
    OptionsIn linkOptions
      (s.aliceLinkOptions cfg ls l timeslot channelOffset linkOptions) := by
  simp only [aliceLinkOptions]
  split_ifs
  · exact optionsIn_collect ..
  · exact BitVec.or_self

/-- What the caller of `alice_tsch_schedule_add_link` gets when the cell is valid, the
lock free and the pool not empty: one link more at the end of the list, with the
options at the cell, and no link moved or short of an option. -/
theorem Ok.aliceAddLink_installs (h : s.Ok) {sf : TschSlotframe}
    (hsf : s.slotframe handle = some sf) (hlock : s.tschLocked = false)
    (hts : timeslot.toNat < sf.size.toNat) (hch : channelOffset.toNat ≤ 15)
    (hfree : 0 < s.freeLinks cfg) (linkOptions : BitVec 8) (addr : LinkAddr) (room : Bool) :
    let t := (s.aliceTschScheduleAddLink cfg handle linkOptions addr timeslot channelOffset room).1
    t.Ok ∧ t.tschLocked = false ∧ t.freeLinks cfg + 1 = s.freeLinks cfg ∧
      (∃ sf', t.slotframe handle = some sf' ∧ sf'.size = sf.size) ∧
      t.Installed handle timeslot channelOffset linkOptions ∧
      ∀ ts ch options, s.Installed handle ts ch options → t.Installed handle ts ch options := by
  obtain ⟨l, hl⟩ := allocLink_of_pos hfree
  have hunused := allocLink_unused hl
  obtain ⟨links, x, lock, heq, hx, hnew, hold, -⟩ :=
    h.aliceAddLink_eq hsf (by rw [hlock]; rfl) (Nat.le_sub_one_of_lt hts) hch hl linkOptions addr room
  have hfields : ∀ k ∈ s.installed, (links k).slotframeHandle = (s.links k).slotframeHandle ∧
      (∀ ts ch, (links k).atCell ts ch = (s.links k).atCell ts ch) := by
    intro k hk
    rw [← (hold k hk).1]
    exact ⟨rfl, fun _ _ => rfl⟩
  simp only
  rw [heq]
  obtain ⟨hok, hslot, -, hlinks, hused, hunlock⟩ := h.installCount hsf hunused
    (fun k hk => (hfields k hk).1) (by rw [hnew, hx]) cfg x lock room rfl
  generalize countLink cfg { s.listAdd handle l with links := links, tschLocked := lock } x room =
    t at *
  refine ⟨hok, hunlock, ?_, ⟨_, hslot, rfl⟩, ?_, ?_⟩
  · rw [freeLinks, hused]
    exact freeLinks_listAdd handle hl
  · refine ⟨l, ⟨_, hslot, mem_append_right _ (mem_singleton_self l)⟩, ?_, ?_⟩
    · rw [hlinks]
      simp [hnew, hx, TschLink.atCell]
    · rw [hlinks]
      simpa [hnew, hx] using optionsIn_aliceLinkOptions ..
  · rintro ts ch o ⟨k, ⟨sf', hsf', hmem⟩, hcell, ho⟩
    rw [hsf, Option.some.injEq] at hsf'
    subst hsf'
    have hk : k ∈ s.installed := mem_flatMap.mpr ⟨sf, (slotframe_some hsf).1, hmem⟩
    have hne : k ≠ l := fun hkl => h.not_mem_of_unused hunused (hkl ▸ hk)
    refine ⟨k, ⟨_, hslot, mem_append_left _ ((mem_erase_of_ne hne).mpr hmem)⟩, ?_, ?_⟩
    · rw [hlinks]
      exact ((hfields k hk).2 ts ch).trans hcell
    · rw [hlinks]
      exact ho.trans (hold k hk).2

end Asap.Tsch.TschSchedule
