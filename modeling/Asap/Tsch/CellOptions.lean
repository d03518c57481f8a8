import Asap.Lib.Run
import Asap.Tsch.LinkList

/-!
# The options at a cell

ALICE can ask for several links at one cell of its slotframe. Each new link is to have the options
of the links at its cell, which get its own. The block of the new link is in the list before it is
filled in, so what a freed link has left in it is merged into the new link, if it is at the same
cell. Without a time-varying schedule the merging does nothing under the lock that is held for it.

## Main definitions

* `CellState`, `CellEvent` — a slotframe with the requests at its cells, and what can happen.
* `CellsExact` — the links at a cell have all the options asked for there, and no other.
* `MergesExactly` — the condition on a new link.
-/

namespace Asap.Tsch.TschSchedule

open Asap.Lib Function List

instance (s : TschSchedule) : Decidable s.Ok :=
  decidable_of_iff ((s.slotframeList.map (·.handle)).Nodup ∧ s.installed.Nodup ∧
    (∀ sf ∈ s.slotframeList, ∀ l ∈ sf.linksList, (s.links l).slotframeHandle = sf.handle) ∧
    ∀ l ∈ s.installed, s.used l = true)
    ⟨fun h => ⟨h.1, h.2.1, h.2.2.1, h.2.2.2⟩, fun h => ⟨h.handles, h.nodup, h.handle, h.used⟩⟩

/-- The schedule, and the options requested for each timeslot and channel offset of a slotframe. -/
structure CellState where
  schedule : TschSchedule
  requested : BitVec 16 → BitVec 16 → BitVec 8

/-- What can happen: a call of `alice_tsch_schedule_add_link` for the slotframe, or any other change
of the schedule. -/
inductive CellEvent where
  | add (linkOptions : BitVec 8) (addr : LinkAddr) (timeslot channelOffset : BitVec 16) (room : Bool)
  | other (t : TschSchedule)

/-- A request for a link at a cell. -/
def CellState.request (s : CellState) (timeslot channelOffset : BitVec 16) (options : BitVec 8) :
    BitVec 16 → BitVec 16 → BitVec 8 := fun ts ch =>
  if ts = timeslot ∧ ch = channelOffset then s.requested ts ch ||| options else s.requested ts ch

/-- One event. Another change of the schedule keeps the list of the slotframe and the contents of
its links. -/
def CellState.step (cfg : ScheduleConfig) (handle : BitVec 16) (s : CellState) :
    CellEvent → Option CellState
  | .add options addr ts ch room =>
    let r := s.schedule.aliceTschScheduleAddLink cfg handle options addr ts ch room
    some ⟨r.1, if r.2.isSome then s.request ts ch options else s.requested⟩
  | .other t =>
    if t.Ok ∧ t.slotframe handle = s.schedule.slotframe handle ∧
        ∀ l ∈ s.schedule.linksOf handle, t.links l = s.schedule.links l then
      some { s with schedule := t }
    else none

/-- **The links at a cell** have exactly the options requested for links there. -/
def CellsExact (handle : BitVec 16) (s : CellState) : Prop :=
  ∀ l ∈ s.schedule.linksOf handle, (s.schedule.links l).linkOptions =
    s.requested (s.schedule.links l).timeslot (s.schedule.links l).channelOffset

/-- The block that a call of `alice_tsch_schedule_add_link` gets; `none` when it adds no link. -/
def blockFor (cfg : ScheduleConfig) (s : TschSchedule) (handle timeslot channelOffset : BitVec 16) :
    Option LinkId :=
  match s.slotframe handle with
  | none => none
  | some sf =>
    if sf.size.toNat - 1 < timeslot.toNat ∨ 15 < channelOffset.toNat ∨
        (s.tschLocked && !cfg.aliceTimeVaryingScheduling) then none
    else s.allocLink cfg

/-- The condition on a new link. With a time-varying schedule, what its block holds is of another
cell, or has only options that are requested or there already; without one, it has the options of
the links at its cell. -/
def MergesExactly (cfg : ScheduleConfig) (handle : BitVec 16) (s : CellState) : CellEvent → Prop
  | .add options _ ts ch _ =>
    ∀ l, s.schedule.blockFor cfg handle ts ch = some l →
      if cfg.aliceTimeVaryingScheduling then
        (s.schedule.links l).atCell ts ch → OptionsIn (s.schedule.links l).linkOptions
          (collect options (cellOptions s.schedule.links ts ch (s.schedule.linksOf handle)))
      else ∀ o ∈ cellOptions s.schedule.links ts ch (s.schedule.linksOf handle), o = options
  | .other _ => True

/-- A new link leaves the links of other cells, and of other slotframes, as they are. -/
def OtherCellsKept (cfg : ScheduleConfig) (handle : BitVec 16) (s : CellState) : CellEvent → Prop
  | .add options addr ts ch room =>
    ∀ l ∈ s.schedule.installed,
      ¬ (l ∈ s.schedule.linksOf handle ∧ (s.schedule.links l).atCell ts ch = true) →
      (s.schedule.aliceTschScheduleAddLink cfg handle options addr ts ch room).1.links l =
        s.schedule.links l
  | .other _ => True

variable {cfg : ScheduleConfig} {s : TschSchedule} {handle timeslot channelOffset : BitVec 16}
  {l : LinkId} {ls : List LinkId} {links : LinkId → TschLink} {o options : BitVec 8}

/-! ## Merging equal options -/

theorem atCell_iff {x : TschLink} : x.atCell timeslot channelOffset = true ↔
    x.timeslot = timeslot ∧ x.channelOffset = channelOffset := by
  simp [TschLink.atCell]

theorem mem_cellOptions : o ∈ cellOptions links timeslot channelOffset ls ↔
    ∃ l ∈ ls, (links l).atCell timeslot channelOffset = true ∧ (links l).linkOptions = o := by
  simp [cellOptions, and_assoc]

/-- When all options are the same, they are collected once. -/
theorem collect_same {os : List (BitVec 8)} (h : ∀ x ∈ os, x = o) :
    collect options os = if os = [] then options else options ||| o := by
  induction os generalizing options with
  | nil => rfl
  | cons x os ih =>
    have hx : x = o := h x mem_cons_self
    rw [collect, foldl_cons, ← collect, ih fun y hy => h y (mem_cons_of_mem x hy), hx]
    split
    · rfl
    · rw [BitVec.or_assoc, BitVec.or_self]
      rfl

/-- The options of a link after the merging, when all links at the cell have the same. -/
def mergedLink (timeslot channelOffset : BitVec 16) (options : BitVec 8) (x : TschLink) :
    TschLink :=
  if x.atCell timeslot channelOffset then { x with linkOptions := x.linkOptions ||| options } else x

theorem or_or_same (a b : BitVec 8) : a ||| (b ||| a) = a ||| b := by
  rw [BitVec.or_comm b a, ← BitVec.or_assoc, BitVec.or_self]

/-- **The merging loop** over links that have the same options at the cell. -/
theorem foldl_mergeOne_same (hnodup : ls.Nodup)
    (hsame : ∀ x ∈ cellOptions links timeslot channelOffset ls, x = o) :
    ∀ k ∈ ls, (ls.foldl (mergeOne timeslot channelOffset) (links, options)).1 k =
      mergedLink timeslot channelOffset options (links k) := by
  induction ls generalizing links options with
  | nil => exact fun k hk => absurd hk not_mem_nil
  | cons a ls ih =>
    intro k hk
    have ⟨hnot, hrest⟩ := nodup_cons.mp hnodup
    rw [cellOptions_cons] at hsame
    rw [foldl_cons]
    by_cases ha : (links a).atCell timeslot channelOffset = true
    · rw [if_pos ha] at hsame
      have hao : (links a).linkOptions = o := hsame _ mem_cons_self
      have hone : mergeOne timeslot channelOffset (links, options) a =
          (update links a (mergedLink timeslot channelOffset options (links a)),
            options ||| o) := by
        simp only [mergeOne, mergedLink, if_pos ha, or_or_same, hao]
      rw [hone]
      -- the other links at the cell get what has been collected from this one
      have hother : ∀ m ∈ ls, update links a
          (mergedLink timeslot channelOffset options (links a)) m = links m := fun m hm =>
        update_of_ne (fun heq : m = a => hnot (heq ▸ hm)) _ _
      by_cases hka : k = a
      · rw [hka, (foldl_mergeOne hrest _ _).1 a hnot, update_self]
      · have hk := (mem_cons.mp hk).resolve_left hka
        have hkeep : ∀ x ∈ cellOptions (update links a
            (mergedLink timeslot channelOffset options (links a))) timeslot channelOffset ls,
            x = o := by
          rw [cellOptions_congr hother]
          exact fun x hx => hsame x (mem_cons_of_mem _ hx)
        rw [ih hrest hkeep k hk, hother k hk, mergedLink, mergedLink]
        by_cases hcell : (links k).atCell timeslot channelOffset = true
        · have hko : (links k).linkOptions = o :=
            hsame _ (mem_cons_of_mem _ (mem_cellOptions.mpr ⟨k, hk, hcell, rfl⟩))
          rw [if_pos hcell, if_pos hcell, hko, or_or_same]
        · rw [if_neg hcell, if_neg hcell]
    · rw [if_neg ha] at hsame
      have hone : mergeOne timeslot channelOffset (links, options) a = (links, options) :=
        if_neg ha
      rw [hone]
      by_cases hka : k = a
      · rw [hka, (foldl_mergeOne hrest links _).1 a hnot, mergedLink, if_neg ha]
      · exact ih hrest hsame k ((mem_cons.mp hk).resolve_left hka)

/-- The merging loop leaves the links of other cells as they are. -/
theorem foldl_mergeOne_other {k : LinkId} (hk : (links k).atCell timeslot channelOffset = false) :
    (ls.foldl (mergeOne timeslot channelOffset) (links, options)).1 k = links k := by
  induction ls generalizing links options with
  | nil => rfl
  | cons a ls ih =>
    rw [foldl_cons]
    by_cases ha : (links a).atCell timeslot channelOffset = true
    · have hka : k ≠ a := fun heq : k = a => Bool.false_ne_true (hk ▸ heq ▸ ha)
      have hkeep := update_of_ne hka
        { links a with linkOptions := (links a).linkOptions ||| (options ||| (links a).linkOptions) }
        links
      simp only [mergeOne, if_pos ha]
      rw [ih (by rw [hkeep, hk]), hkeep]
    · rw [mergeOne, if_neg ha, ih hk]

/-! ## A new link -/

/-- A call that adds no link changes no slotframe and no link. -/
theorem aliceAddLink_none (h : s.blockFor cfg handle timeslot channelOffset = none)
    (options : BitVec 8) (addr : LinkAddr) (room : Bool) :
    let r := s.aliceTschScheduleAddLink cfg handle options addr timeslot channelOffset room
    r.2 = none ∧ r.1.slotframeList = s.slotframeList ∧ r.1.links = s.links ∧ r.1.used = s.used := by
  simp only [blockFor, aliceTschScheduleAddLink] at h ⊢
  cases hsf : s.slotframe handle with
  | none => exact ⟨rfl, rfl, rfl, rfl⟩
  | some sf =>
    rw [hsf] at h
    simp only at h ⊢
    by_cases hrefused : sf.size.toNat - 1 < timeslot.toNat ∨ 15 < channelOffset.toNat ∨
        (s.tschLocked && !cfg.aliceTimeVaryingScheduling) = true
    · split_ifs with hts hch hlock
      · exact ⟨rfl, rfl, rfl, rfl⟩
      · exact ⟨rfl, rfl, rfl, rfl⟩
      · exact ⟨rfl, rfl, rfl, rfl⟩
      · exact absurd hrefused fun h => h.elim hts fun h => h.elim hch hlock
    · rw [if_neg hrefused] at h
      have ⟨hts, hrefused⟩ := not_or.mp hrefused
      have ⟨hch, hlock⟩ := not_or.mp hrefused
      rw [if_neg hts, if_neg hch, if_neg hlock, h]
      exact ⟨rfl, rfl, rfl, rfl⟩

/-- The state before a new link is counted, with the contents of all blocks. -/
theorem aliceAddLink_eq_countLink {sf : TschSlotframe} (hsf : s.slotframe handle = some sf)
    (hl : s.blockFor cfg handle timeslot channelOffset = some l) (hnot : l ∉ sf.linksList)
    (options : BitVec 8) (addr : LinkAddr) (room : Bool) :
    ∃ lock, ∀ (m : (LinkId → TschLink) × BitVec 8) (x : TschLink),
      (m = if cfg.aliceTimeVaryingScheduling then
        (sf.linksList ++ [l]).foldl (mergeOne timeslot channelOffset) (s.links, options)
      else (s.links, options)) → x = ⟨handle, addr, timeslot, channelOffset, m.2⟩ →
      s.aliceTschScheduleAddLink cfg handle options addr timeslot channelOffset room =
        (countLink cfg { s.listAdd handle l with
          links := update m.1 l x
          tschLocked := lock } x room, some l) := by
  simp only [blockFor, hsf] at hl
  split_ifs at hl with hrefused
  have ⟨hts, hrefused⟩ := not_or.mp hrefused
  have ⟨hch, hlock⟩ := not_or.mp hrefused
  refine ⟨s.tschLocked || !cfg.aliceTimeVaryingScheduling, fun m x hm hx => ?_⟩
  have hslot : ({ s.listAdd handle l with tschLocked :=
      s.tschLocked || !cfg.aliceTimeVaryingScheduling } : TschSchedule).slotframe handle =
        some { sf with linksList := sf.linksList ++ [l] } := by
    have := slotframe_updateLinksList hsf fun ls => ls.erase l ++ [l]
    rwa [erase_of_not_mem hnot] at this
  simp only [aliceTschScheduleAddLink, hsf, if_neg hts, if_neg hch, if_neg hlock, hl]
  by_cases htv : cfg.aliceTimeVaryingScheduling = true
  · simp only [aliceTschScheduleSetLinkOption, htv, Bool.not_true, Bool.and_false,
      Bool.false_eq_true, if_false, mergeOptions] at hslot ⊢
    rw [if_pos htv] at hm
    rw [hslot, hx, hm]
    rfl
  · rw [if_neg htv] at hm
    simp only [aliceTschScheduleSetLinkOption, htv, Bool.not_false, Bool.and_true, Bool.or_true,
      if_true, hx, hm]
    rfl

/-- What the merging leaves in the links of a slotframe and of a new one, and the options that it
collects. -/
theorem merged_spec {ls : List LinkId} (hnodup : ls.Nodup) (hnot : l ∉ ls) {options : BitVec 8}
    {m : (LinkId → TschLink) × BitVec 8}
    (hm : (if cfg.aliceTimeVaryingScheduling then
      (ls ++ [l]).foldl (mergeOne timeslot channelOffset) (s.links, options)
      else (s.links, options)) = m) :
    (∀ k, (m.1 k).slotframeHandle = (s.links k).slotframeHandle) ∧
      m.2 = s.aliceLinkOptions cfg ls l timeslot channelOffset options ∧
      (∀ k ≠ l, ¬ (k ∈ ls ∧ (s.links k).atCell timeslot channelOffset = true) →
        m.1 k = s.links k) ∧
      ∀ o, (∀ x ∈ cellOptions s.links timeslot channelOffset ls, x = o) →
        ∀ k ∈ ls, m.1 k = if cfg.aliceTimeVaryingScheduling then
          mergedLink timeslot channelOffset options (s.links k) else s.links k := by
  have hnodup' : (ls ++ [l]).Nodup :=
    (perm_append_singleton l ls).nodup_iff.mpr (nodup_cons.mpr ⟨hnot, hnodup⟩)
  have hloop := @foldl_mergeOne timeslot channelOffset _ hnodup' s.links options
  refine ⟨fun k => ?_, ?_, fun k hne hk => ?_, fun o hsame k hk => ?_⟩
  · rw [← hm]
    split_ifs
    · rw [← hloop.2.1 k]
    · rfl
  · rw [← hm, aliceLinkOptions]
    split_ifs
    · exact hloop.2.2.1
    · rfl
  · rw [← hm]
    split_ifs
    · by_cases hmem : k ∈ ls
      · exact foldl_mergeOne_other (Bool.eq_false_iff.mpr fun hcell => hk ⟨hmem, hcell⟩)
      · exact hloop.1 k fun hmem' => (mem_append.mp hmem').elim hmem
          fun heq => hne (mem_singleton.mp heq)
    · rfl
  · rw [← hm]
    split_ifs
    · have hne : k ≠ l := fun heq : k = l => hnot (heq ▸ hk)
      rw [foldl_append, foldl_cons, foldl_nil, mergeOne, ← foldl_mergeOne_same
        hnodup hsame k hk]
      split_ifs
      · exact update_of_ne hne _ _
      · rfl
    · rfl

/-- **A new link**: it is at the end of the list, the links that are not at its cell are as they
were, and so are those at its cell, but for the merged options when they all have the same. -/
theorem Ok.aliceAddLink_some (h : s.Ok) (hl : s.blockFor cfg handle timeslot channelOffset = some l)
    (options : BitVec 8) (addr : LinkAddr) (room : Bool) :
    let r := s.aliceTschScheduleAddLink cfg handle options addr timeslot channelOffset room
    r.2 = some l ∧ r.1.Ok ∧ r.1.linksOf handle = s.linksOf handle ++ [l] ∧
      r.1.links l = ⟨handle, addr, timeslot, channelOffset,
        s.aliceLinkOptions cfg (s.linksOf handle) l timeslot channelOffset options⟩ ∧
      (∀ k ∈ s.installed, ¬ (k ∈ s.linksOf handle ∧
        (s.links k).atCell timeslot channelOffset = true) → r.1.links k = s.links k) ∧
      ∀ o, (∀ x ∈ cellOptions s.links timeslot channelOffset (s.linksOf handle), x = o) →
        ∀ k ∈ s.linksOf handle, r.1.links k =
          if cfg.aliceTimeVaryingScheduling then
            mergedLink timeslot channelOffset options (s.links k)
          else s.links k := by
  obtain ⟨sf, hsf⟩ : ∃ sf, s.slotframe handle = some sf := by
    cases hsf : s.slotframe handle with
    | none => simp [blockFor, hsf] at hl
    | some sf => exact ⟨sf, rfl⟩
  have hunused : s.used l = false := by
    simp only [blockFor, hsf] at hl
    split_ifs at hl
    exact allocLink_unused hl
  have hfresh := h.not_mem_of_unused hunused
  have hinstalled : ∀ k ∈ sf.linksList, k ∈ s.installed := fun k hk =>
    mem_flatMap.mpr ⟨sf, (slotframe_some hsf).1, hk⟩
  have hnot : l ∉ sf.linksList := fun hmem => hfresh (hinstalled l hmem)
  have hnodup := h.nodup_linksList hsf
  obtain ⟨lock, heq⟩ := aliceAddLink_eq_countLink hsf hl hnot options addr room
  rw [linksOf_eq hsf]
  generalize hm : (if cfg.aliceTimeVaryingScheduling then
    (sf.linksList ++ [l]).foldl (mergeOne timeslot channelOffset) (s.links, options)
    else (s.links, options)) = m at heq
  obtain ⟨hfields, hcollected, hother, hmerged⟩ := merged_spec hnodup hnot hm
  generalize hx : TschLink.mk handle addr timeslot channelOffset m.2 = x
  simp only [heq m x rfl hx.symm]
  obtain ⟨hok, hslot, -, hlinks, -⟩ := @Ok.installCount s handle h sf hsf l hunused
    (update m.1 l x)
    (fun k hk => by
      rw [update_of_ne fun heq : k = l => hfresh (heq ▸ hk)]
      exact hfields k)
    (by rw [update_self, ← hx]) cfg x lock room _ rfl
  generalize countLink cfg { s.listAdd handle l with
    links := update m.1 l x
    tschLocked := lock } x room = t at *
  rw [erase_of_not_mem hnot] at hslot
  refine ⟨trivial, hok, linksOf_eq hslot, ?_, ?_, ?_⟩
  · rw [hlinks, ← hcollected, hx]
    exact update_self ..
  · intro k hk hcell
    have hne : k ≠ l := fun heq => hfresh (heq ▸ hk)
    rw [hlinks, ← hother k hne hcell]
    exact update_of_ne hne _ _
  · intro o hsame k hk
    rw [hlinks, ← hmerged o hsame k hk]
    exact update_of_ne (fun heq : k = l => hnot (heq ▸ hk)) _ _

/-! ## Every run -/

/-- What every event keeps while the links have the options requested for them: nothing is
requested at a cell without a link. -/
structure CellsKept (handle : BitVec 16) (s : CellState) : Prop where
  ok : s.schedule.Ok
  requested : ∀ ts ch, cellOptions s.schedule.links ts ch (s.schedule.linksOf handle) = [] →
    s.requested ts ch = 0

variable {c d : CellState} {e : CellEvent}

theorem CellsExact.cellOptions_eq (h : CellsExact handle c) :
    ∀ x ∈ cellOptions c.schedule.links timeslot channelOffset (c.schedule.linksOf handle),
      x = c.requested timeslot channelOffset := by
  intro x hx
  have ⟨l, hl, hcell, hx⟩ := mem_cellOptions.mp hx
  have ⟨hts, hch⟩ := atCell_iff.mp hcell
  rw [← hx, h l hl, hts, hch]

/-- What the links at a cell have together is what is requested there. -/
theorem collect_requested (hkept : CellsKept handle c) (h : CellsExact handle c) :
    collect options (cellOptions c.schedule.links timeslot channelOffset
      (c.schedule.linksOf handle)) = options ||| c.requested timeslot channelOffset := by
  rw [collect_same h.cellOptions_eq]
  split
  · rename_i hnil
    rw [hkept.requested _ _ hnil]
    exact BitVec.or_zero.symm
  · rfl

theorem linksOf_congr {t : TschSchedule} (h : t.slotframe handle = s.slotframe handle) :
    t.linksOf handle = s.linksOf handle := by
  rw [linksOf, linksOf, h]

/-- The slotframe is as it was. -/
theorem kept_of_eq (hkept : CellsKept handle c) (hok : d.schedule.Ok)
    (hlist : d.schedule.linksOf handle = c.schedule.linksOf handle)
    (hlinks : ∀ l ∈ c.schedule.linksOf handle, d.schedule.links l = c.schedule.links l)
    (hrequested : d.requested = c.requested) :
    CellsKept handle d ∧ (CellsExact handle c → CellsExact handle d) := by
  refine ⟨⟨hok, fun ts ch hnil => ?_⟩, fun h l hl => ?_⟩
  · rw [hlist, cellOptions_congr hlinks] at hnil
    rw [hrequested]
    exact hkept.requested ts ch hnil
  · rw [hlist] at hl
    rw [hlinks l hl, hrequested]
    exact h l hl

/-- The merging changes the options only. -/
theorem mergedLink_cell (x : TschLink) :
    (mergedLink timeslot channelOffset options x).timeslot = x.timeslot ∧
      (mergedLink timeslot channelOffset options x).channelOffset = x.channelOffset := by
  rw [mergedLink]
  split_ifs <;> exact ⟨rfl, rfl⟩

/-- A merged link has the options requested for its cell. -/
theorem mergedLink_requested {x : TschLink}
    (hx : x.linkOptions = c.requested x.timeslot x.channelOffset) :
    (mergedLink timeslot channelOffset options x).linkOptions =
      c.request timeslot channelOffset options x.timeslot x.channelOffset := by
  by_cases hcell : x.timeslot = timeslot ∧ x.channelOffset = channelOffset
  · rw [mergedLink, if_pos (atCell_iff.mpr hcell), CellState.request, if_pos hcell, ← hx]
  · rw [mergedLink, if_neg fun h => hcell (atCell_iff.mp h), CellState.request, if_neg hcell, hx]

section

variable (hkept : CellsKept handle c) (h : CellsExact handle c)

include hkept h

/-- The options of a new link with a time-varying schedule. -/
theorem collect_recycled :
    collect options (cellOptions c.schedule.links timeslot channelOffset
        (c.schedule.linksOf handle ++ [l])) =
      c.requested timeslot channelOffset ||| options ↔
    ((c.schedule.links l).atCell timeslot channelOffset = true →
      OptionsIn (c.schedule.links l).linkOptions
        (collect options (cellOptions c.schedule.links timeslot channelOffset
          (c.schedule.linksOf handle)))) := by
  have happend : cellOptions c.schedule.links timeslot channelOffset
      (c.schedule.linksOf handle ++ [l]) =
        cellOptions c.schedule.links timeslot channelOffset (c.schedule.linksOf handle) ++
          cellOptions c.schedule.links timeslot channelOffset [l] := by
    rw [cellOptions, filter_append, map_append]
    rfl
  have hall := @collect_requested handle timeslot channelOffset options c hkept h
  have hsplit : ∀ os os' : List (BitVec 8),
      collect options (os ++ os') = collect (collect options os) os' := fun _ _ =>
    foldl_append
  rw [happend, hsplit, hall, cellOptions_cons]
  by_cases hcell : (c.schedule.links l).atCell timeslot channelOffset = true
  · rw [if_pos hcell]
    simp only [hcell, forall_const, OptionsIn]
    rw [BitVec.or_comm options, BitVec.or_comm (c.schedule.links l).linkOptions]
    rfl
  · rw [if_neg hcell]
    exact iff_of_true (BitVec.or_comm _ _) fun h => absurd h hcell

/-- Without merging, the requests at a cell have to be the same. -/
theorem unmerged_iff :
    (options = c.requested timeslot channelOffset ||| options ∧
      ∀ k ∈ c.schedule.linksOf handle,
        (c.schedule.links k).atCell timeslot channelOffset = true →
          c.requested timeslot channelOffset = c.requested timeslot channelOffset ||| options) ↔
    ∀ x ∈ cellOptions c.schedule.links timeslot channelOffset (c.schedule.linksOf handle),
      x = options := by
  constructor
  · intro ⟨hnew, hold⟩ x hx
    have ⟨k, hk, hcell, _⟩ := mem_cellOptions.mp hx
    rw [h.cellOptions_eq x hx, hold k hk hcell, ← hnew]
  · intro hsame
    by_cases hnil : cellOptions c.schedule.links timeslot channelOffset
        (c.schedule.linksOf handle) = []
    · rw [hkept.requested _ _ hnil]
      refine ⟨BitVec.zero_or.symm, fun k hk hcell => ?_⟩
      have hmem := mem_cellOptions.mpr ⟨k, hk, hcell, rfl⟩
      rw [hnil] at hmem
      exact absurd hmem not_mem_nil
    · have ⟨x, hx⟩ := exists_mem_of_ne_nil _ hnil
      rw [← h.cellOptions_eq x hx, hsame x hx, BitVec.or_self]
      exact ⟨rfl, fun _ _ _ => rfl⟩

/-- A new link, with a request at its cell. -/
theorem cellsExact_add
    (hl : c.schedule.blockFor cfg handle timeslot channelOffset = some l) (addr : LinkAddr)
    (room : Bool)
    (hd : d = ⟨(c.schedule.aliceTschScheduleAddLink cfg handle options addr timeslot channelOffset
      room).1, c.request timeslot channelOffset options⟩) :
    CellsKept handle d ∧ (CellsExact handle d ↔
      MergesExactly cfg handle c (.add options addr timeslot channelOffset room)) := by
  obtain ⟨_, hok, hlist, hnew, _, hold⟩ :=
    hkept.ok.aliceAddLink_some hl options addr room
  have hold := hold _ h.cellOptions_eq
  subst hd
  have hcells : ∀ k ∈ c.schedule.linksOf handle, ∀ ts ch,
      ((c.schedule.aliceTschScheduleAddLink cfg handle options addr timeslot channelOffset
        room).1.links k).atCell ts ch = (c.schedule.links k).atCell ts ch := by
    intro k hk ts ch
    rw [hold k hk, TschLink.atCell, TschLink.atCell]
    split_ifs
    · rw [(mergedLink_cell _).1, (mergedLink_cell _).2]
    · rfl
  refine ⟨⟨hok, fun ts ch hnil => ?_⟩, ?_⟩
  · -- a cell without a link is another cell, and had none before
    have hnone := eq_nil_iff_forall_not_mem.mp hnil
    have hother : ¬ (ts = timeslot ∧ ch = channelOffset) := fun hboth =>
      hnone _ (mem_cellOptions.mpr ⟨l, hlist ▸ mem_append_right _ (mem_singleton_self l),
        atCell_iff.mpr (by rw [hnew]; exact ⟨hboth.1.symm, hboth.2.symm⟩), rfl⟩)
    simp only [CellState.request, if_neg hother]
    refine hkept.requested ts ch (eq_nil_iff_forall_not_mem.mpr fun x hx => ?_)
    obtain ⟨k, hk, hcell, _⟩ := mem_cellOptions.mp hx
    exact hnone _ (mem_cellOptions.mpr ⟨k, hlist ▸ mem_append_left _ hk,
      (hcells k hk ts ch).trans hcell, rfl⟩)
  · have hiff : CellsExact handle ⟨(c.schedule.aliceTschScheduleAddLink cfg handle options addr
        timeslot channelOffset room).1, c.request timeslot channelOffset options⟩ ↔
        c.schedule.aliceLinkOptions cfg (c.schedule.linksOf handle) l timeslot channelOffset
          options = c.requested timeslot channelOffset ||| options ∧
        ∀ k ∈ c.schedule.linksOf handle, (if cfg.aliceTimeVaryingScheduling then
          mergedLink timeslot channelOffset options (c.schedule.links k)
          else c.schedule.links k).linkOptions = c.request timeslot channelOffset options
            (c.schedule.links k).timeslot (c.schedule.links k).channelOffset := by
      simp only [CellsExact, hlist, forall_mem_append, forall_mem_singleton]
      rw [and_comm]
      refine and_congr ?_ (forall₂_congr fun k hk => ?_)
      · rw [hnew]
        simp only [CellState.request, and_self, if_true]
      · rw [hold k hk]
        split_ifs
        · rw [(mergedLink_cell _).1, (mergedLink_cell _).2]
        · rfl
    rw [hiff, MergesExactly]
    simp only [hl, Option.some.injEq, forall_eq', aliceLinkOptions]
    split_ifs
    · rw [← collect_recycled hkept h]
      exact and_iff_left fun k hk => mergedLink_requested (h k hk)
    · rw [← unmerged_iff hkept h]
      refine and_congr_right fun _ => forall₂_congr fun k hk => ?_
      simp only [h k hk, CellState.request]
      by_cases hcell : (c.schedule.links k).timeslot = timeslot ∧
          (c.schedule.links k).channelOffset = channelOffset
      · simp [atCell_iff, hcell]
      · simp [atCell_iff, hcell]

end

/-- Consistency is about the slotframes and the blocks. -/
theorem Ok.congr {t : TschSchedule} (h : s.Ok) (hlist : t.slotframeList = s.slotframeList)
    (hlinks : t.links = s.links) (hused : t.used = s.used) : t.Ok := by
  have hinst : t.installed = s.installed := by rw [installed, hlist, installed]
  refine ⟨hlist ▸ h.handles, hinst ▸ h.nodup, ?_, ?_⟩
  · rw [hlist, hlinks]
    exact h.handle
  · rw [hinst, hused]
    exact h.used

/-- **One event** leaves the links with the options requested for them exactly if a new link meets
the condition. -/
theorem cellsExact_step (hkept : CellsKept handle c) (h : CellsExact handle c)
    (hstep : c.step cfg handle e = some d) :
    CellsKept handle d ∧ (CellsExact handle d ↔ MergesExactly cfg handle c e) := by
  cases e with
  | other t =>
    rw [CellState.step] at hstep
    split_ifs at hstep with hother
    cases hstep
    have ⟨hok, hslot, hlinks⟩ := hother
    have ⟨hkept', h'⟩ := kept_of_eq (d := { c with schedule := t }) hkept hok (linksOf_congr hslot)
      hlinks rfl
    exact ⟨hkept', iff_of_true (h' h) trivial⟩
  | add options addr ts ch room =>
    cases hl : c.schedule.blockFor cfg handle ts ch with
    | some l =>
      have hd := Option.some.inj hstep
      rw [(hkept.ok.aliceAddLink_some hl options addr room).1] at hd
      exact cellsExact_add hkept h hl addr room hd.symm
    | none =>
      have ⟨hnone, hlist, hlinks, hused⟩ := aliceAddLink_none hl options addr room
      have hd := Option.some.inj hstep
      generalize c.schedule.aliceTschScheduleAddLink cfg handle options addr ts ch room = r at *
      rw [hnone] at hd
      have ⟨hkept', h'⟩ := kept_of_eq (d := ⟨r.1, c.requested⟩) hkept
        (hkept.ok.congr hlist hlinks hused) (linksOf_congr (by rw [slotframe, hlist, slotframe]))
        (fun l _ => by rw [hlinks]) rfl
      refine hd ▸ ⟨hkept', iff_of_true (h' h) fun l hsome => ?_⟩
      rw [hl] at hsome
      cases hsome

/-- A new link leaves all links as they are, but for those at its cell. -/
theorem otherCellsKept (hok : c.schedule.Ok) (e : CellEvent) : OtherCellsKept cfg handle c e := by
  cases e with
  | other t => trivial
  | add options addr ts ch room =>
    intro k hk hcell
    cases hl : c.schedule.blockFor cfg handle ts ch with
    | none => rw [(aliceAddLink_none hl options addr room).2.2.1]
    | some l => exact (hok.aliceAddLink_some hl options addr room).2.2.2.2.1 k hk hcell

theorem ok_step (hok : c.schedule.Ok) (hstep : c.step cfg handle e = some d) : d.schedule.Ok := by
  cases e with
  | other t =>
    rw [CellState.step] at hstep
    split_ifs at hstep with hother
    cases hstep
    exact hother.1
  | add options addr ts ch room =>
    cases hstep
    cases hl : c.schedule.blockFor cfg handle ts ch with
    | none =>
      have ⟨_, hlist, hlinks, hused⟩ := aliceAddLink_none hl options addr room
      exact hok.congr hlist hlinks hused
    | some l => exact (hok.aliceAddLink_some hl options addr room).2.1

/-- **The options at a cell**: in a run from an empty slotframe, the links at each cell have exactly
the options requested there, in every state that is reached, exactly if every new link of the run
meets the condition; and no new link ever changes the links of other cells. -/
theorem cell_options (cfg : ScheduleConfig) (handle : BitVec 16) {es : List CellEvent}
    (hok : c.schedule.Ok) (hempty : c.schedule.linksOf handle = [])
    (hnone : ∀ ts ch, c.requested ts ch = 0) (hrun : run (CellState.step cfg handle) c es = some d) :
    ((∀ u ∈ visited (CellState.step cfg handle) c es, CellsExact handle u) ↔
      Along (CellState.step cfg handle) (MergesExactly cfg handle) c es) ∧
    Along (CellState.step cfg handle) (OtherCellsKept cfg handle) c es := by
  refine ⟨?_, ?_⟩
  · refine visited_iff_along (CellsKept handle) (CellsExact handle)
      (fun _ _ _ hkept h hstep => (cellsExact_step hkept h hstep).1)
      (fun _ _ _ hkept h hstep => (cellsExact_step hkept h hstep).2) ⟨hok, fun ts ch _ => hnone ts ch⟩
      (fun l hl => ?_) hrun
    rw [hempty] at hl
    exact absurd hl List.not_mem_nil
  · clear hempty hnone
    induction es generalizing c with
    | nil => trivial
    | cons e es ih =>
      have ⟨u, hu, hrun⟩ := run_cons_eq_some.mp hrun
      exact (along_cons hu).mpr ⟨otherCellsKept hok e, ih (ok_step hok hu) hrun⟩

instance (handle : BitVec 16) (s : CellState) : Decidable (CellsExact handle s) :=
  inferInstanceAs (Decidable (∀ l ∈ s.schedule.linksOf handle, _))

/-- A schedule with a time-varying slotframe of twenty slots, and blocks that were never in use. -/
def aliceCells : CellState where
  schedule := (init ⟨8, 4, 16, true, true⟩ fun _ => ⟨0, fun _ => 0, 0, 0, 0⟩).tschScheduleAddSlotframe
    ⟨8, 4, 16, true, true⟩ 2 20
  requested _ _ := 0

/-- Two links at one cell. -/
theorem cell_options_two_links :
    let cfg : ScheduleConfig := ⟨8, 4, 16, true, true⟩
    let es : List CellEvent := [.add linkOptionRx tschBroadcastAddress 3 1 true,
      .add (linkOptionTx ||| linkOptionShared) tschBroadcastAddress 3 1 true]
    ((∀ u ∈ visited (CellState.step cfg 2) aliceCells es, CellsExact 2 u) ↔
      Along (CellState.step cfg 2) (MergesExactly cfg 2) aliceCells es) ∧
    Along (CellState.step cfg 2) (OtherCellsKept cfg 2) aliceCells es := by
  intro cfg es
  obtain ⟨d, hrun⟩ : ∃ d, run (CellState.step cfg 2) aliceCells es = some d := ⟨_, rfl⟩
  exact cell_options cfg 2 (by decide) (by decide) (fun _ _ => rfl) hrun

/-- **A recycled link**: a Tx link is removed, and the slotframe is empty. The Rx link that is added
next at the same cell gets the block, and its Tx option. -/
theorem recycled_options_merged :
    let cfg : ScheduleConfig := ⟨8, 4, 16, true, true⟩
    (aliceCells.schedule.step cfg (.aliceAddLink 2 linkOptionTx tschBroadcastAddress 3 1 true) >>=
        fun s => s.step cfg (.removeLink 2 0)).map (fun s => (s.linksOf 2,
          (CellState.step cfg 2 ⟨s, fun _ _ => 0⟩
            (.add linkOptionRx tschBroadcastAddress 3 1 true)).map fun d =>
              (d.schedule.linksOf 2, (d.schedule.links 0).linkOptions,
                decide (CellsExact 2 d)))) =
      some ([], some ([0], linkOptionTx ||| linkOptionRx, false)) := by
  decide

end Asap.Tsch.TschSchedule
