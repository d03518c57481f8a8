import Asap.Lib.Run
import Asap.Tsch.LinkList

/-!
# The link counters of a neighbor

A neighbor counts the Tx links to its address, and those of them that are not shared.
The functions that add and remove links keep the counters up to date one link at a
time, so the counters are exact as long as nothing else changes what they count. Two
things do. Merging options can make a Tx link of a link already installed, and a
dedicated link of it a shared one. And a link to an address without an entry is not
counted, so an entry made later starts from zero with links installed.

`linkCount p` counts the installed links with a property `p` of their contents, and
both counters are instances of it.

## Main definitions

* `linkCount` — the installed links with a property.
* `CountersExact` — the counters are the numbers of links.
* `CountCondition` — the condition on an operation under which they stay so.
-/

namespace Asap.Tsch.TschSchedule

open Function Option Bool List

open scoped List

variable {cfg : ScheduleConfig} {s : TschSchedule} {handle timeslot channelOffset : BitVec 16}

/-- The installed links with a property. -/
def linkCount (p : TschLink → Bool) (s : TschSchedule) : ℕ :=
  s.installed.countP fun l => p (s.links l)

/-- A Tx link to an address. -/
def txTo (addr : LinkAddr) (x : TschLink) : Bool :=
  decide (x.addr = addr) && (linkKind x.linkOptions).isSome

/-- A dedicated Tx link to an address. -/
def dedicatedTo (addr : LinkAddr) (x : TschLink) : Bool :=
  decide (x.addr = addr) && linkKind x.linkOptions == some false

/-- The Tx links to an address. -/
abbrev txLinks (s : TschSchedule) (addr : LinkAddr) : ℕ := s.linkCount (txTo addr)

/-- The dedicated Tx links to an address. -/
abbrev dedicatedTxLinks (s : TschSchedule) (addr : LinkAddr) : ℕ := s.linkCount (dedicatedTo addr)

/-- **The counters are exact.** -/
def CountersExact (s : TschSchedule) : Prop :=
  ∀ addr n, s.nbrs addr = some n →
    n.txLinksCount.toNat = s.txLinks addr ∧
      n.dedicatedTxLinksCount.toNat = s.dedicatedTxLinks addr

/-- A consistent schedule with exact counters. -/
structure Exact (s : TschSchedule) : Prop extends Ok s where
  counters : s.CountersExact

/-- Counting over a list whose blocks look alike. -/
theorem countP_links_congr {p : TschLink → Bool} {links links' : LinkId → TschLink}
    {ls : List LinkId} (h : ∀ l ∈ ls, p (links' l) = p (links l)) :
    (ls.countP fun l => p (links' l)) = ls.countP fun l => p (links l) :=
  countP_congr fun l hl => by rw [h l hl]

/-! ## The counters -/

/-- What one link adds to a count. -/
def counted (p : TschLink → Bool) (x : TschLink) : ℕ := if p x then 1 else 0

theorem linkCount_cons {p : TschLink → Bool} {links : LinkId → TschLink} {l : LinkId}
    {ls : List LinkId} :
    ((l :: ls).countP fun l => p (links l)) = (ls.countP fun l => p (links l)) +
      counted p (links l) := by
  rw [countP_cons, counted]

theorem counted_txTo (addr : LinkAddr) (x : TschLink) :
    counted (txTo addr) x = if x.addr = addr ∧ isTx x.linkOptions then 1 else 0 := by
  simp only [counted, txTo, linkKind]
  by_cases ha : x.addr = addr <;> by_cases ht : isTx x.linkOptions = true <;> simp [ha, ht]

theorem counted_dedicatedTo (addr : LinkAddr) (x : TschLink) :
    counted (dedicatedTo addr) x =
      if x.addr = addr ∧ isTx x.linkOptions ∧ isShared x.linkOptions = false then 1 else 0 := by
  simp only [counted, dedicatedTo, linkKind]
  by_cases ha : x.addr = addr <;> by_cases ht : isTx x.linkOptions = true <;> simp [ha, ht]

/-- Dedicated Tx links are Tx links. -/
theorem dedicatedTxLinks_le (s : TschSchedule) (addr : LinkAddr) :
    s.dedicatedTxLinks addr ≤ s.txLinks addr := by
  refine countP_mono_left fun l _ h => ?_
  simp only [txTo, dedicatedTo, and_eq_true, beq_iff_eq] at h ⊢
  exact ⟨h.1, by rw [h.2]; rfl⟩

/-- The counters of a neighbor fit a number of links. -/
def Fits (n : TschNeighbor) (tx dedicated : ℕ) : Prop :=
  n.txLinksCount.toNat = tx ∧ n.dedicatedTxLinksCount.toNat = dedicated

theorem Fits.inc {n : TschNeighbor} {tx dedicated : ℕ} (h : Fits n tx dedicated) (hlt : tx < 255)
    (hle : dedicated ≤ tx) (options : BitVec 8) :
    Fits (n.incTxLinks options) (tx + 1)
      (dedicated + if isShared options = false then 1 else 0) := by
  obtain ⟨h1, h2⟩ := h
  have hone : (1 : BitVec 8).toNat = 1 := rfl
  simp only [Fits, TschNeighbor.incTxLinks]
  cases isShared options
  · simp only [BitVec.toNat_add, hone, if_true, false_eq_true, if_false]
    omega
  · simp only [BitVec.toNat_add, hone, if_true, true_eq_false, if_false]
    omega

theorem Fits.dec {n : TschNeighbor} {tx dedicated : ℕ} (options : BitVec 8)
    (h : Fits n (tx + 1) (dedicated + if isShared options = false then 1 else 0)) :
    Fits (n.decTxLinks options) tx dedicated := by
  obtain ⟨h1, h2⟩ := h
  have hone : (1 : BitVec 8).toNat = 1 := rfl
  simp only [Fits, TschNeighbor.decTxLinks]
  cases hs : isShared options
  · simp only [hs, if_true] at h2
    simp only [BitVec.toNat_sub, hone, false_eq_true, if_false]
    omega
  · simp only [hs, true_eq_false, if_false] at h2
    simp only [BitVec.toNat_sub, hone, if_true]
    omega

/-- **The condition on making an entry or counting a link**: no link to an address
without an entry is there to be missed, and the counter has room. -/
def CanCount (s : TschSchedule) (addr : LinkAddr) (room : Bool) : Prop :=
  s.txLinks addr < 255 ∧ (s.nbrs addr = none → room = true → s.txLinks addr = 0)

theorem fits_new (cfg : ScheduleConfig) (addr : LinkAddr) : Fits (.new cfg addr) 0 0 := ⟨rfl, rfl⟩

/-- Making an entry leaves the entries there are. -/
theorem nbrs_tschQueueAddNbr (hlock : s.tschLocked = false) (addr : LinkAddr) (room : Bool) :
    (s.tschQueueAddNbr cfg addr room).nbrs = update s.nbrs addr
      ((s.nbrs addr).or (if room then some (.new cfg addr) else none)) := by
  have hget : s.tschQueueGetNbr addr = s.nbrs addr := by simp [tschQueueGetNbr, hlock]
  cases h : s.nbrs addr with
  | some n =>
    rw [h] at hget
    simp only [tschQueueAddNbr, hget, some_or]
    rw [← h, update_eq_self]
  | none =>
    rw [h] at hget
    simp only [tschQueueAddNbr, hget, hlock, false_eq_true, if_false, none_or]
    cases room
    · simp only [false_eq_true, if_false]
      rw [← h, update_eq_self]
    · rfl

/-- An entry that is there, or that was just made, fits the number of links. -/
theorem CountersExact.fits_or_new {t : TschSchedule} {addr : LinkAddr} {room : Bool}
    (h : t.CountersExact) (hnew : t.nbrs addr = none → room = true → t.txLinks addr = 0)
    {n : TschNeighbor}
    (hn : (t.nbrs addr).or (if room then some (.new cfg addr) else none) = some n) :
    Fits n (t.txLinks addr) (t.dedicatedTxLinks addr) := by
  cases hnbr : t.nbrs addr with
  | some m =>
    rw [hnbr, some_or, Option.some.injEq] at hn
    exact hn ▸ h addr m hnbr
  | none =>
    rw [hnbr, none_or] at hn
    by_cases hroom : room = true
    · rw [if_pos hroom, Option.some.injEq] at hn
      have h0 := hnew hnbr hroom
      have hle := t.dedicatedTxLinks_le addr
      rw [← hn, h0, show t.dedicatedTxLinks addr = 0 by omega]
      exact fits_new cfg addr
    · simp [hroom] at hn

/-- Counting the link just installed; `t` is the schedule before it. -/
theorem counters_countLink {t : TschSchedule} {x : TschLink} {room : Bool}
    (hnbrs : s.nbrs = t.nbrs) (hexact : t.CountersExact)
    (htx : ∀ addr, s.txLinks addr = t.txLinks addr + counted (txTo addr) x)
    (hded : ∀ addr, s.dedicatedTxLinks addr =
      t.dedicatedTxLinks addr + counted (dedicatedTo addr) x)
    (hcan : isTx x.linkOptions = true → t.CanCount x.addr room) :
    (s.countLink cfg x room).CountersExact := by
  intro addr n hn
  have hinst : ∀ p, (s.countLink cfg x room).linkCount p = s.linkCount p := by
    intro p
    simp only [countLink, tschQueueAddNbr, tschQueueGetNbr]
    split_ifs <;> first | rfl | (split <;> rfl)
  rw [show (s.countLink cfg x room).txLinks addr = _ from (hinst _).trans (htx addr),
    show (s.countLink cfg x room).dedicatedTxLinks addr = _ from (hinst _).trans (hded addr),
    counted_txTo, counted_dedicatedTo]
  by_cases ht : isTx x.linkOptions = true
  · have hnew := @nbrs_tschQueueAddNbr cfg { s with tschLocked := false } rfl x.addr room
    simp only [countLink, ht, if_true, updateNbr] at hn
    rw [hnew] at hn
    simp only [hnbrs] at hn
    by_cases ha : x.addr = addr
    · subst ha
      rw [update_self, update_self, map_eq_some_iff] at hn
      obtain ⟨m, hm, rfl⟩ := hn
      obtain ⟨hlt, hnew⟩ := hcan ht
      have := (hexact.fits_or_new hnew hm).inc hlt (t.dedicatedTxLinks_le x.addr) x.linkOptions
      simpa [Fits, ht] using this
    · rw [update_of_ne (Ne.symm ha), update_of_ne (Ne.symm ha)] at hn
      simpa [ha] using hexact addr n hn
  · simp only [countLink, ht, hnbrs] at hn
    simpa [ht] using hexact addr n hn

/-! ## Removing links -/

/-- **Removing a link keeps the counters exact.** -/
theorem Exact.removeLink (h : s.Exact) {l : LinkId} (hl : s.Has handle l) :
    (s.tschScheduleRemoveLink cfg handle l).Exact := by
  refine ⟨h.toOk.removeLink hl, ?_⟩
  obtain ⟨-, heq⟩ | ⟨-, heq⟩ := h.toOk.removeLink_cases cfg hl
  · rw [heq]
    exact h.counters
  · obtain ⟨sf, hsf, hmem⟩ := hl
    obtain ⟨-, hperm⟩ := h.toOk.erase hsf hmem
    obtain ⟨hlist, hlinks, -, hnbrs⟩ := s.freeLink_spec handle l
    have hinst : (s.freeLink handle l).installed =
        (s.updateLinksList handle fun ls => ls.erase l).installed := by
      rw [installed, hlist, installed]
    have hcount : ∀ p, s.linkCount p =
        (s.freeLink handle l).linkCount p + counted p (s.links l) := by
      intro p
      rw [linkCount, linkCount, hinst, hlinks, ← linkCount_cons]
      exact hperm.countP_eq _
    rw [heq]
    intro addr n hn
    have htx : s.txLinks addr = (s.freeLink handle l).txLinks addr + _ := hcount (txTo addr)
    have hded : s.dedicatedTxLinks addr = (s.freeLink handle l).dedicatedTxLinks addr + _ :=
      hcount (dedicatedTo addr)
    rw [counted_txTo] at htx
    rw [counted_dedicatedTo] at hded
    rw [hnbrs] at hn
    by_cases ht : isTx (s.links l).linkOptions = true
    · rw [if_pos ht] at hn
      by_cases ha : (s.links l).addr = addr
      · rw [ha, update_self, map_eq_some_iff] at hn
        obtain ⟨m, hm, rfl⟩ := hn
        have hfits := h.counters addr m hm
        refine Fits.dec _ ⟨hfits.1.trans ?_, hfits.2.trans ?_⟩
        · simpa [ha, ht] using htx
        · simpa [ha, ht] using hded
      · rw [update_of_ne (Ne.symm ha)] at hn
        have hfits := h.counters addr n hn
        rw [if_neg fun hc => ha hc.1, Nat.add_zero] at htx hded
        exact ⟨hfits.1.trans htx, hfits.2.trans hded⟩
    · rw [if_neg ht] at hn
      have hfits := h.counters addr n hn
      rw [if_neg fun hc => ht hc.2] at htx
      rw [if_neg fun hc => ht hc.2.1] at hded
      exact ⟨hfits.1.trans htx, hfits.2.trans hded⟩

/-- A loop over links of the list that removes some of them. -/
theorem Exact.foldl_removeLink (c : TschSchedule → LinkId → Bool) {ls : List LinkId}
    (h : s.Exact) (hnodup : ls.Nodup) (hls : ∀ l ∈ ls, s.Has handle l) :
    (ls.foldl (fun s l => if c s l then s.tschScheduleRemoveLink cfg handle l else s) s).Exact := by
  induction ls generalizing s with
  | nil => exact h
  | cons l ls ih =>
    obtain ⟨hnot, hrest⟩ := List.nodup_cons.mp hnodup
    rw [foldl_cons]
    have hhas := hls l (mem_cons_self ..)
    by_cases hc : c s l = true
    · rw [if_pos hc]
      refine ih (h.removeLink hhas) hrest fun m hm => ?_
      exact h.toOk.has_removeLink hhas (hls m (mem_cons_of_mem _ hm))
        fun heq => hnot (heq ▸ hm)
    · rw [if_neg hc]
      exact ih h hrest fun m hm => hls m (mem_cons_of_mem _ hm)

theorem Exact.removeLinkByTimeslot (h : s.Exact) (timeslot channelOffset : BitVec 16) :
    (s.tschScheduleRemoveLinkByTimeslot cfg handle timeslot channelOffset).Exact := by
  simp only [tschScheduleRemoveLinkByTimeslot]
  split_ifs
  · exact h
  · cases hsf : s.slotframe handle with
    | none => exact h
    | some sf =>
      exact h.foldl_removeLink (fun s l => (s.links l).atCell timeslot channelOffset)
        (h.toOk.nodup_linksList hsf) fun l hl => ⟨sf, hsf, hl⟩

/-! ## Adding links -/

/-- Installing a link and counting it; `links` are the blocks at the end. -/
theorem Exact.install (h : s.Exact) {sf : TschSlotframe} (hsf : s.slotframe handle = some sf)
    {l : LinkId} (hl : s.used l = false) {links : LinkId → TschLink} {x : TschLink}
    {lock room : Bool} (hx : links l = x)
    (hold : ∀ m ∈ s.installed, (links m).slotframeHandle = (s.links m).slotframeHandle ∧
      (links m).addr = (s.links m).addr ∧
      linkKind (links m).linkOptions = linkKind (s.links m).linkOptions)
    (hnew : x.slotframeHandle = handle)
    (hcan : isTx x.linkOptions = true → s.CanCount x.addr room) :
    (countLink cfg { s.listAdd handle l with links := links, tschLocked := lock } x
      room).Exact := by
  subst hx
  obtain ⟨hok, hperm⟩ := h.toOk.install hsf hl (fun m hm => (hold m hm).1) hnew
  have hcount : ∀ p : TschLink → Bool, (∀ x y : TschLink, x.addr = y.addr →
      linkKind x.linkOptions = linkKind y.linkOptions → p x = p y) →
      linkCount p { s.listAdd handle l with links := links, tschLocked := lock } =
        s.linkCount p + counted p (links l) := by
    intro p hp
    have hsame := @countP_links_congr p s.links links s.installed fun m hm =>
      hp _ _ (hold m hm).2.1 (hold m hm).2.2
    rw [linkCount, linkCount, ← hsame, ← linkCount_cons]
    exact hperm.countP_eq _
  refine ⟨?_, counters_countLink (t := s) rfl h.counters
    (fun addr => hcount (txTo addr) fun x y ha hk => by simp [txTo, ha, hk])
    (fun addr => hcount (dedicatedTo addr) fun x y ha hk => by simp [dedicatedTo, ha, hk]) hcan⟩
  have hsame : ∀ t : TschSchedule, t.Ok → ∀ x room, (countLink cfg t x room).Ok := by
    intro t ht x room
    simp only [countLink, tschQueueAddNbr, tschQueueGetNbr]
    split_ifs <;> first | exact ⟨ht.handles, ht.nodup, ht.handle, ht.used⟩ |
      (split <;> exact ⟨ht.handles, ht.nodup, ht.handle, ht.used⟩)
  exact hsame _ ⟨hok.handles, hok.nodup, hok.handle, hok.used⟩ _ _

/-- **Adding a link keeps the counters exact**, when it can be counted. -/
theorem Exact.addLink (h : s.Exact) {linkOptions : BitVec 8} {addr : LinkAddr}
    {doRemove room : Bool}
    (hcan : isTx linkOptions = true → CanCount (if doRemove then
      s.tschScheduleRemoveLinkByTimeslot cfg handle timeslot channelOffset else s) addr room) :
    (s.tschScheduleAddLink cfg handle linkOptions addr timeslot channelOffset doRemove
      room).1.Exact := by
  have hsf' : ∀ sf, s.slotframe handle = some sf → ∃ sf', (if doRemove then
      s.tschScheduleRemoveLinkByTimeslot cfg handle timeslot channelOffset else s).slotframe
        handle = some sf' := by
    intro sf hsf
    split_ifs
    · exact slotframe_of_handles (handles_removeLinkByTimeslot ..) hsf
    · exact ⟨sf, hsf⟩
  have hexact : (if doRemove then
      s.tschScheduleRemoveLinkByTimeslot cfg handle timeslot channelOffset else s).Exact := by
    split_ifs
    · exact h.removeLinkByTimeslot ..
    · exact h
  simp only [tschScheduleAddLink]
  cases hsf : s.slotframe handle with
  | none => exact h
  | some sf =>
    obtain ⟨sf', hsf'⟩ := hsf' sf hsf
    generalize (if doRemove then
      s.tschScheduleRemoveLinkByTimeslot cfg handle timeslot channelOffset else s) = t at *
    simp only
    split_ifs
    · exact h
    · exact h
    · exact hexact
    · cases hl : t.allocLink cfg with
      | none => exact hexact
      | some l =>
        have hunused := allocLink_unused hl
        have hfresh := hexact.toOk.not_mem_of_unused hunused
        refine hexact.install hsf' hunused (update_self ..) (fun m hm => ?_) rfl hcan
        have hne : m ≠ l := fun heq => hfresh (heq ▸ hm)
        rw [update_of_ne hne]
        exact ⟨rfl, rfl, rfl⟩

/-- A link added by ALICE, if one is, can be counted. -/
def AliceCanCount (cfg : ScheduleConfig) (s : TschSchedule)
    (handle timeslot channelOffset : BitVec 16) (linkOptions : BitVec 8) (addr : LinkAddr)
    (room : Bool) : Prop :=
  match s.slotframe handle, s.allocLink cfg with
  | some sf, some l =>
    isTx (s.aliceLinkOptions cfg sf.linksList l timeslot channelOffset linkOptions) = true →
      s.CanCount addr room
  | _, _ => True

/-- **Adding a link in ALICE keeps the counters exact**, when it can be counted and the
links of its cell keep their kinds. -/
theorem Exact.aliceAddLink (h : s.Exact) {linkOptions : BitVec 8} {addr : LinkAddr} {room : Bool}
    (hkeep : cfg.aliceTimeVaryingScheduling = true → ∀ sf, s.slotframe handle = some sf →
      KeepsKinds linkOptions (cellOptions s.links timeslot channelOffset sf.linksList))
    (hcan : s.AliceCanCount cfg handle timeslot channelOffset linkOptions addr room) :
    (s.aliceTschScheduleAddLink cfg handle linkOptions addr timeslot channelOffset
      room).1.Exact := by
  cases hsf : s.slotframe handle with
  | none =>
    simp only [aliceTschScheduleAddLink, hsf]
    exact h
  | some sf =>
    by_cases hadd : timeslot.toNat ≤ sf.size.toNat - 1 ∧ channelOffset.toNat ≤ 15 ∧
        (s.tschLocked && !cfg.aliceTimeVaryingScheduling) = false
    · obtain ⟨hts, hch, hlock⟩ := hadd
      cases hl : s.allocLink cfg with
      | none =>
        simp only [aliceTschScheduleAddLink, hsf, hl]
        have hstep : Exact { s with tschLocked := false } :=
          ⟨⟨h.handles, h.nodup, h.handle, h.used⟩, h.counters⟩
        split_ifs <;> first | exact h | exact hstep
      | some l =>
        obtain ⟨links, x, lock, heq, hx, hnew, hold, hkinds⟩ :=
          h.toOk.aliceAddLink_eq hsf hlock hts hch hl linkOptions addr room
        have hkinds := hkinds fun htv => hkeep htv sf hsf
        simp only [AliceCanCount, hsf, hl] at hcan
        rw [heq]
        refine h.install hsf (allocLink_unused hl) hnew (fun k hk => ?_) (by rw [hx])
          (by rw [hx]; exact hcan)
        refine ⟨?_, ?_, hkinds k hk⟩
        · rw [← (hold k hk).1]
        · rw [← (hold k hk).1]
    · simp only [aliceTschScheduleAddLink, hsf]
      split_ifs with hts hch hlock
      · exact h
      · exact h
      · exact h
      · exact absurd ⟨by omega, by omega, eq_false_iff.mpr hlock⟩ hadd

/-- **Merging options keeps the counters exact**, when the links keep their kinds. -/
theorem Exact.setLinkOption (h : s.Exact) {linkOptions : BitVec 8}
    (hkeep : ∀ sf, s.slotframe handle = some sf →
      KeepsKinds linkOptions (cellOptions s.links timeslot channelOffset sf.linksList)) :
    (s.aliceTschScheduleSetLinkOption cfg handle timeslot channelOffset linkOptions).1.Exact := by
  simp only [aliceTschScheduleSetLinkOption, mergeOptions]
  split_ifs
  · exact h
  · cases hsf : s.slotframe handle with
    | none => exact h
    | some sf =>
      obtain ⟨hout, hfields, -, -, hkind⟩ :=
        foldl_mergeOne (h.toOk.nodup_linksList hsf) s.links linkOptions
      have hkinds := hkind (hkeep sf hsf)
      simp only
      generalize (sf.linksList.foldl (mergeOne timeslot channelOffset) (s.links, linkOptions)).1 =
        links at *
      have hsame : ∀ l, (links l).slotframeHandle = (s.links l).slotframeHandle ∧
          (links l).addr = (s.links l).addr ∧
          linkKind (links l).linkOptions = linkKind (s.links l).linkOptions := by
        intro l
        have hfield := hfields l
        refine ⟨by rw [← hfield], by rw [← hfield], ?_⟩
        by_cases hmem : l ∈ sf.linksList
        · exact hkinds l hmem
        · rw [hout l hmem]
      refine ⟨⟨h.handles, h.nodup, fun sf' hsf' l hl => ?_, h.used⟩, fun addr n hn => ?_⟩
      · exact (hsame l).1.trans (h.handle sf' hsf' l hl)
      · have hfits := h.counters addr n hn
        refine ⟨hfits.1.trans ?_, hfits.2.trans ?_⟩
        · refine (countP_links_congr fun l _ => ?_).symm
          simp only [txTo, (hsame l).2.1, (hsame l).2.2]
        · refine (countP_links_congr fun l _ => ?_).symm
          simp only [dedicatedTo, (hsame l).2.1, (hsame l).2.2]

/-! ## Slotframes and neighbors -/

/-- An empty slotframe more. -/
theorem Exact.addSlotframe (h : s.Exact) (handle size : BitVec 16) :
    (s.tschScheduleAddSlotframe cfg handle size).Exact := by
  simp only [tschScheduleAddSlotframe]
  split_ifs with hz hex hlock hroom
  · exact h
  · exact h
  · exact h
  · have hinst : installed { s with slotframeList := s.slotframeList ++ [⟨handle, size, []⟩] } =
        s.installed := by simp [installed]
    have hnew : handle ∉ s.slotframeList.map (·.handle) := by
      intro hin
      obtain ⟨sf, hmem, hhandle⟩ := List.mem_map.mp hin
      have : (s.slotframe handle).isSome = true :=
        List.find?_isSome.mpr ⟨sf, hmem, by simpa using hhandle⟩
      simp [hlock, this] at hex
    refine ⟨⟨?_, hinst ▸ h.nodup, ?_, hinst ▸ h.used⟩, fun addr n hn => ?_⟩
    · rw [map_append]
      exact (perm_append_singleton handle _).nodup_iff.mpr
        (List.nodup_cons.mpr ⟨hnew, h.handles⟩)
    · intro sf hsf l hl
      rcases List.mem_append.mp hsf with hsf | hsf
      · exact h.handle sf hsf l hl
      · rw [List.mem_singleton.mp hsf] at hl
        simp at hl
    · have hcount : ∀ p, linkCount p
          { s with slotframeList := s.slotframeList ++ [⟨handle, size, []⟩] } = s.linkCount p := by
        intro p
        rw [linkCount, hinst, linkCount]
      have hfits := h.counters addr n hn
      exact ⟨hfits.1.trans (hcount _).symm, hfits.2.trans (hcount _).symm⟩
  · exact h

/-- **Removing a slotframe keeps the counters exact.** -/
theorem Exact.removeSlotframe (h : s.Exact) {t : TschSchedule}
    (ht : s.tschScheduleRemoveSlotframe cfg handle = some t) : t.Exact := by
  simp only [tschScheduleRemoveSlotframe] at ht
  cases hsf : s.slotframe handle with
  | none =>
    rw [hsf] at ht
    cases ht
    exact h
  | some sf =>
    rw [hsf] at ht
    have hexact : (sf.linksList.foldl (fun s l => s.tschScheduleRemoveLink cfg handle l) s).Exact := by
      simpa using h.foldl_removeLink (fun _ _ => true) (h.toOk.nodup_linksList hsf)
        fun l hl => ⟨sf, hsf, hl⟩
    obtain ⟨-, hempty⟩ := h.toOk.foldl_removeLink_all cfg hsf
    simp only at ht
    generalize sf.linksList.foldl (fun s l => s.tschScheduleRemoveLink cfg handle l) s = u at *
    by_cases hlock : u.tschLocked = true
    · rw [if_pos hlock] at ht
      split_ifs at ht
      cases ht
      exact hexact
    · rw [if_neg hlock, Option.some.injEq] at ht
      have hperm : u.installed ~ t.installed := by
        rw [← ht]
        exact hexact.toOk.installed_perm
          (hempty (canRemove_of_unlocked cfg (eq_false_iff.mpr hlock)))
      have hsub : ∀ sf ∈ t.slotframeList, sf ∈ u.slotframeList := by
        intro sf hsf
        rw [← ht] at hsf
        exact mem_of_mem_filter hsf
      have hlinks : t.links = u.links := by rw [← ht]
      have hcount : ∀ p, t.linkCount p = u.linkCount p := by
        intro p
        rw [linkCount, linkCount, hlinks]
        exact (hperm.countP_eq _).symm
      refine ⟨⟨?_, hperm.nodup_iff.mp hexact.nodup, ?_, ?_⟩, fun addr n hn => ?_⟩
      · rw [← ht]
        exact hexact.handles.sublist (List.filter_sublist.map _)
      · intro sf hsf l hl
        rw [hlinks]
        exact hexact.handle sf (hsub sf hsf) l hl
      · intro l hl
        have := hexact.used l (hperm.mem_iff.mpr hl)
        rw [← ht]
        exact this
      · rw [← ht] at hn
        have hfits := hexact.counters addr n hn
        exact ⟨hfits.1.trans (hcount _).symm, hfits.2.trans (hcount _).symm⟩

/-- Making an entry, when no link to the address is there to be missed. -/
theorem Exact.addNbr (h : s.Exact) {addr : LinkAddr} {room : Bool}
    (hnew : s.nbrs addr = none → room = true → s.txLinks addr = 0) :
    (s.tschQueueAddNbr cfg addr room).Exact := by
  by_cases hlock : s.tschLocked = true
  · have heq : s.tschQueueAddNbr cfg addr room = s := by
      simp [tschQueueAddNbr, tschQueueGetNbr, hlock]
    rwa [heq]
  · have hsame : (s.tschQueueAddNbr cfg addr room).slotframeList = s.slotframeList ∧
        (s.tschQueueAddNbr cfg addr room).links = s.links ∧
        (s.tschQueueAddNbr cfg addr room).used = s.used := by
      simp only [tschQueueAddNbr]
      split
      · exact ⟨rfl, rfl, rfl⟩
      · split_ifs <;> exact ⟨rfl, rfl, rfl⟩
    obtain ⟨hlist, hlinks, hused⟩ := hsame
    have hinst : (s.tschQueueAddNbr cfg addr room).installed = s.installed := by
      rw [installed, hlist, installed]
    have hcount : ∀ p, (s.tschQueueAddNbr cfg addr room).linkCount p = s.linkCount p := by
      intro p
      rw [linkCount, hinst, hlinks, linkCount]
    refine ⟨⟨hlist ▸ h.handles, hinst ▸ h.nodup, ?_, ?_⟩, fun addr' n hn => ?_⟩
    · rw [hlist, hlinks]
      exact h.handle
    · rw [hinst, hused]
      exact h.used
    · rw [nbrs_tschQueueAddNbr (eq_false_iff.mpr hlock)] at hn
      have hfits : Fits n (s.txLinks addr') (s.dedicatedTxLinks addr') := by
        by_cases ha : addr' = addr
        · subst ha
          rw [update_self] at hn
          exact h.counters.fits_or_new hnew hn
        · rw [update_of_ne ha] at hn
          exact h.counters addr' n hn
      exact ⟨hfits.1.trans (hcount _).symm, hfits.2.trans (hcount _).symm⟩

/-! ### Which neighbors stay -/

/-- No entry of the first schedule is gone in the second. -/
def KeepsNbrs (s t : TschSchedule) : Prop := ∀ addr, s.nbrs addr ≠ none → t.nbrs addr ≠ none

theorem keepsNbrs_of_eq {t : TschSchedule} (h : t.nbrs = s.nbrs) : s.KeepsNbrs t := by
  intro addr hne
  rwa [h]

theorem keepsNbrs_updateNbr (s : TschSchedule) (addr : LinkAddr)
    (f : TschNeighbor → TschNeighbor) : s.KeepsNbrs (s.updateNbr addr f) := by
  intro addr' hne
  simp only [updateNbr]
  by_cases ha : addr' = addr
  · subst ha
    rw [update_self]
    simpa using hne
  · rwa [update_of_ne ha]

theorem keepsNbrs_addNbr (cfg : ScheduleConfig) (s : TschSchedule) (addr : LinkAddr)
    (room : Bool) : s.KeepsNbrs (s.tschQueueAddNbr cfg addr room) := by
  intro addr' hne
  by_cases hlock : s.tschLocked = true
  · simpa [tschQueueAddNbr, tschQueueGetNbr, hlock] using hne
  · rw [nbrs_tschQueueAddNbr (eq_false_iff.mpr hlock)]
    by_cases ha : addr' = addr
    · subst ha
      rw [update_self]
      simp [hne]
    · rwa [update_of_ne ha]

theorem KeepsNbrs.trans {t u : TschSchedule} (h : s.KeepsNbrs t) (h' : t.KeepsNbrs u) :
    s.KeepsNbrs u := fun addr hne => h' addr (h addr hne)

/-- A relation of the neighbors of two schedules that new entries and counters keep. -/
structure NbrRelation (cfg : ScheduleConfig) (R : TschSchedule → TschSchedule → Prop) : Prop where
  of_eq : ∀ {s t : TschSchedule}, t.nbrs = s.nbrs → R s t
  trans : ∀ {s t u : TschSchedule}, R s t → R t u → R s u
  addNbr : ∀ (s : TschSchedule) (addr : LinkAddr) (room : Bool),
    R s (s.tschQueueAddNbr cfg addr room)
  incTxLinks : ∀ (s : TschSchedule) (addr : LinkAddr) (options : BitVec 8),
    R s (s.updateNbr addr (.incTxLinks options))
  decTxLinks : ∀ (s : TschSchedule) (addr : LinkAddr) (options : BitVec 8),
    R s (s.updateNbr addr (.decTxLinks options))

namespace NbrRelation

variable {R : TschSchedule → TschSchedule → Prop}

section

variable (h : NbrRelation cfg R)

include h

theorem countLink (s : TschSchedule) (x : TschLink) (room : Bool) :
    R s (s.countLink cfg x room) := by
  simp only [TschSchedule.countLink]
  split_ifs
  · have hunlock : R s { s with tschLocked := false } := h.of_eq rfl
    exact h.trans (h.trans hunlock (h.addNbr _ x.addr room)) (h.incTxLinks _ _ _)
  · exact h.of_eq rfl

theorem removeLink (s : TschSchedule) (handle : BitVec 16) (l : LinkId) :
    R s (s.tschScheduleRemoveLink cfg handle l) := by
  simp only [tschScheduleRemoveLink]
  split_ifs
  · exact h.of_eq rfl
  · exact h.of_eq rfl
  · simp only [freeLink]
    split_ifs
    · have hfree : R s { s.updateLinksList handle (fun ls => ls.erase l) with
          used := update s.used l false
          tschLocked := false } := h.of_eq rfl
      exact h.trans hfree (h.decTxLinks _ _ _)
    · exact h.of_eq rfl

theorem foldl {f : TschSchedule → LinkId → TschSchedule}
    (hf : ∀ s l, R s (f s l)) (ls : List LinkId) (s : TschSchedule) : R s (ls.foldl f s) := by
  induction ls generalizing s with
  | nil => exact h.of_eq rfl
  | cons l ls ih => exact h.trans (hf s l) (ih (f s l))

theorem removeLinkByTimeslot (s : TschSchedule)
    (handle timeslot channelOffset : BitVec 16) :
    R s (s.tschScheduleRemoveLinkByTimeslot cfg handle timeslot channelOffset) := by
  simp only [tschScheduleRemoveLinkByTimeslot]
  split_ifs
  · exact h.of_eq rfl
  · cases s.slotframe handle with
    | none => exact h.of_eq rfl
    | some sf =>
      refine h.foldl (fun s l => ?_) _ _
      simp only [removeAtCell]
      split_ifs
      · exact h.removeLink _ _ _
      · exact h.of_eq rfl

theorem setLinkOption (s : TschSchedule)
    (handle timeslot channelOffset : BitVec 16) (options : BitVec 8) :
    R s (s.aliceTschScheduleSetLinkOption cfg handle timeslot channelOffset options).1 := by
  refine h.of_eq ?_
  simp only [aliceTschScheduleSetLinkOption, mergeOptions]
  split_ifs
  · rfl
  · split <;> rfl

/-- The operations keep the relation, but for `tsch_queue_free_unused_neighbors`, which removes
entries, and for other changes of a neighbor that do not. -/
theorem step {e : ScheduleEvent} {t : TschSchedule}
    (hupdate : ∀ addr f, e = .update addr f → R s (s.updateNbr addr (keepCounters f)))
    (hstep : s.step cfg e = some t) : e = .freeUnusedNeighbors ∨ R s t := by
  cases e with
  | freeUnusedNeighbors => exact Or.inl rfl
  | addSlotframe handle size =>
    cases hstep
    refine Or.inr (h.of_eq ?_)
    simp only [tschScheduleAddSlotframe]
    split_ifs <;> rfl
  | removeSlotframe handle =>
    refine Or.inr ?_
    simp only [TschSchedule.step, tschScheduleRemoveSlotframe] at hstep
    cases hsf : s.slotframe handle with
    | none =>
      rw [hsf] at hstep
      cases hstep
      exact h.of_eq rfl
    | some sf =>
      have hfold := h.foldl (fun s l => h.removeLink s handle l) sf.linksList s
      rw [hsf] at hstep
      simp only at hstep
      split_ifs at hstep
      · cases hstep
        exact hfold
      · cases hstep
        exact h.trans hfold (h.of_eq rfl)
  | addLink handle options addr ts ch doRemove room =>
    cases hstep
    have hrem : R s (if doRemove then
        s.tschScheduleRemoveLinkByTimeslot cfg handle ts ch else s) := by
      split_ifs
      · exact h.removeLinkByTimeslot _ _ _ _
      · exact h.of_eq rfl
    refine Or.inr ?_
    simp only [tschScheduleAddLink]
    cases s.slotframe handle with
    | none => exact h.of_eq rfl
    | some sf =>
      simp only
      generalize (if doRemove then
        s.tschScheduleRemoveLinkByTimeslot cfg handle ts ch else s) = u at *
      split_ifs
      · exact h.of_eq rfl
      · exact h.of_eq rfl
      · exact hrem
      · cases u.allocLink cfg with
        | none => exact hrem
        | some l =>
          have hset : R u ((u.listAdd handle l).setLink l ⟨handle, addr, ts, ch, options⟩) :=
            h.of_eq rfl
          exact h.trans hrem (h.trans hset (h.countLink _ _ _))
  | aliceAddLink handle options addr ts ch room =>
    cases hstep
    refine Or.inr ?_
    simp only [aliceTschScheduleAddLink]
    cases s.slotframe handle with
    | none => exact h.of_eq rfl
    | some sf =>
      simp only
      split_ifs
      · exact h.of_eq rfl
      · exact h.of_eq rfl
      · exact h.of_eq rfl
      · cases s.allocLink cfg with
        | none => exact h.of_eq rfl
        | some l =>
          have hadd : R s { s.listAdd handle l with
              tschLocked := s.tschLocked || !cfg.aliceTimeVaryingScheduling } := h.of_eq rfl
          have hset := h.trans hadd (h.setLinkOption _ handle ts ch options)
          refine h.trans ?_ (h.countLink _ _ _)
          exact h.trans hset (h.of_eq rfl)
  | aliceSetLinkOption handle ts ch options =>
    cases hstep
    exact Or.inr (h.setLinkOption _ _ _ _ _)
  | removeLink handle l =>
    refine Or.inr ?_
    simp only [TschSchedule.step] at hstep
    split at hstep
    · cases hstep
    · split_ifs at hstep
      cases hstep
      exact h.removeLink _ _ _
  | removeLinkByTimeslot handle ts ch =>
    cases hstep
    exact Or.inr (h.removeLinkByTimeslot _ _ _ _)
  | addNbr addr room =>
    cases hstep
    exact Or.inr (h.addNbr _ _ _)
  | update addr f =>
    cases hstep
    exact Or.inr (hupdate addr f rfl)
  | lock =>
    cases hstep
    exact Or.inr (h.of_eq rfl)
  | releaseLock =>
    cases hstep
    exact Or.inr (h.of_eq rfl)

end

end NbrRelation

theorem nbrRelation_keepsNbrs (cfg : ScheduleConfig) : NbrRelation cfg KeepsNbrs where
  of_eq := keepsNbrs_of_eq
  trans := KeepsNbrs.trans
  addNbr := keepsNbrs_addNbr cfg
  incTxLinks s addr _ := keepsNbrs_updateNbr s addr _
  decTxLinks s addr _ := keepsNbrs_updateNbr s addr _

/-- Only `tsch_queue_free_unused_neighbors` removes entries. -/
theorem keepsNbrs_step {e : ScheduleEvent} {t : TschSchedule} (h : s.step cfg e = some t) :
    e = .freeUnusedNeighbors ∨ s.KeepsNbrs t :=
  (nbrRelation_keepsNbrs cfg).step (fun addr _ _ => keepsNbrs_updateNbr s addr _) h

/-! ## Runs -/

/-- The options at a cell of a slotframe. -/
def optionsAt (s : TschSchedule) (handle timeslot channelOffset : BitVec 16) : List (BitVec 8) :=
  match s.slotframe handle with
  | none => []
  | some sf => cellOptions s.links timeslot channelOffset sf.linksList

/-- **The condition on an operation**: a Tx link added can be counted, an entry is made
only when no link to its address is installed, and merging options changes the kind of
no installed link. -/
def CountCondition (cfg : ScheduleConfig) (s : TschSchedule) : ScheduleEvent → Prop
  | .addLink handle options addr ts ch doRemove room =>
    isTx options = true → CanCount (if doRemove then
      s.tschScheduleRemoveLinkByTimeslot cfg handle ts ch else s) addr room
  | .aliceAddLink handle options addr ts ch room =>
    (cfg.aliceTimeVaryingScheduling = true → KeepsKinds options (s.optionsAt handle ts ch)) ∧
      s.AliceCanCount cfg handle ts ch options addr room
  | .aliceSetLinkOption handle ts ch options => KeepsKinds options (s.optionsAt handle ts ch)
  | .addNbr addr room => s.nbrs addr = none → room = true → s.txLinks addr = 0
  | _ => True

theorem keepsKinds_optionsAt {options : BitVec 8}
    (h : KeepsKinds options (s.optionsAt handle timeslot channelOffset)) (sf : TschSlotframe)
    (hsf : s.slotframe handle = some sf) :
    KeepsKinds options (cellOptions s.links timeslot channelOffset sf.linksList) := by
  rwa [optionsAt, hsf] at h

/-- **One operation keeps the counters exact.** -/
theorem Exact.step (h : s.Exact) {e : ScheduleEvent} (hcond : s.CountCondition cfg e)
    {t : TschSchedule} (ht : s.step cfg e = some t) : t.Exact := by
  cases e with
  | addSlotframe handle size =>
    cases ht
    exact h.addSlotframe ..
  | removeSlotframe handle => exact h.removeSlotframe ht
  | addLink handle options addr ts ch doRemove room =>
    cases ht
    exact h.addLink hcond
  | aliceAddLink handle options addr ts ch room =>
    cases ht
    exact h.aliceAddLink (fun htv => keepsKinds_optionsAt (hcond.1 htv)) hcond.2
  | aliceSetLinkOption handle ts ch options =>
    cases ht
    exact h.setLinkOption (keepsKinds_optionsAt hcond)
  | removeLink handle l =>
    simp only [TschSchedule.step] at ht
    cases hsf : s.slotframe handle with
    | none => simp [hsf] at ht
    | some sf =>
      rw [hsf] at ht
      simp only at ht
      split_ifs at ht with hmem
      cases ht
      exact h.removeLink ⟨sf, hsf, hmem⟩
  | removeLinkByTimeslot handle ts ch =>
    cases ht
    exact h.removeLinkByTimeslot ..
  | addNbr addr room =>
    cases ht
    exact h.addNbr hcond
  | freeUnusedNeighbors =>
    cases ht
    simp only [tschQueueFreeUnusedNeighbors]
    split_ifs
    · exact h
    · refine ⟨⟨h.handles, h.nodup, h.handle, h.used⟩, fun addr n hn => ?_⟩
      exact h.counters addr n (filter_eq_some_iff.mp hn).1
  | update addr f =>
    cases ht
    refine ⟨⟨h.handles, h.nodup, h.handle, h.used⟩, fun addr' n hn => ?_⟩
    simp only [updateNbr] at hn
    by_cases ha : addr' = addr
    · subst ha
      rw [update_self, map_eq_some_iff] at hn
      obtain ⟨m, hm, rfl⟩ := hn
      exact h.counters addr' m hm
    · rw [update_of_ne ha] at hn
      exact h.counters addr' n hn
  | lock =>
    cases ht
    exact ⟨⟨h.handles, h.nodup, h.handle, h.used⟩, h.counters⟩
  | releaseLock =>
    cases ht
    exact ⟨⟨h.handles, h.nodup, h.handle, h.used⟩, h.counters⟩

/-- An entry that is removed has no Tx link. -/
theorem Exact.removed_unlinked (h : s.Exact) {e : ScheduleEvent} {t : TschSchedule}
    (ht : s.step cfg e = some t) {addr : LinkAddr} (hin : s.nbrs addr ≠ none)
    (hout : t.nbrs addr = none) : s.txLinks addr = 0 := by
  rcases keepsNbrs_step ht with rfl | hkeeps
  · cases ht
    obtain ⟨n, hn⟩ := ne_none_iff_exists'.mp hin
    simp only [tschQueueFreeUnusedNeighbors] at hout
    split_ifs at hout
    · exact absurd hout hin
    · have hunused : n.unused = true := by
        by_contra hne
        simp [hn, hne] at hout
      have hzero : n.txLinksCount = 0 := by
        simp only [TschNeighbor.unused, and_eq_true, beq_iff_eq] at hunused
        exact hunused.1.2
      rw [← (h.counters addr n hn).1, hzero]
      rfl
  · exact absurd hout (hkeeps addr hin)

theorem exact_init (cfg : ScheduleConfig) (links : LinkId → TschLink) : (init cfg links).Exact := by
  have hempty : Exact ⟨[], links, fun _ => false, fun _ => none, false⟩ :=
    ⟨⟨nodup_nil, nodup_nil, by simp, by simp [installed]⟩, by simp [CountersExact]⟩
  have heb : Exact (tschQueueAddNbr cfg ⟨[], links, fun _ => false, fun _ => none, false⟩
      tschEbAddress true) := hempty.addNbr fun _ _ => rfl
  have hbroadcast : Exact (tschQueueAddNbr cfg (tschQueueAddNbr cfg ⟨[], links, fun _ => false,
      fun _ => none, false⟩ tschEbAddress true) tschBroadcastAddress true) :=
    heb.addNbr fun _ _ => rfl
  exact hbroadcast

instance decidableKeepsKinds : (options : BitVec 8) → (os : List (BitVec 8)) →
    Decidable (KeepsKinds options os)
  | _, [] => isTrue trivial
  | options, o :: os =>
    have := decidableKeepsKinds (options ||| o) os
    inferInstanceAs (Decidable (_ ∧ _))

instance (s : TschSchedule) (addr : LinkAddr) (room : Bool) : Decidable (s.CanCount addr room) :=
  inferInstanceAs (Decidable (_ ∧ _))

instance (cfg : ScheduleConfig) (s : TschSchedule) (handle timeslot channelOffset : BitVec 16)
    (linkOptions : BitVec 8) (addr : LinkAddr) (room : Bool) :
    Decidable (s.AliceCanCount cfg handle timeslot channelOffset linkOptions addr room) := by
  simp only [AliceCanCount]
  cases s.slotframe handle with
  | none => exact isTrue trivial
  | some sf =>
    cases s.allocLink cfg with
    | none => exact isTrue trivial
    | some l => exact inferInstanceAs (Decidable (_ → _))

instance (cfg : ScheduleConfig) (s : TschSchedule) :
    (e : ScheduleEvent) → Decidable (s.CountCondition cfg e)
  | .addLink .. => inferInstanceAs (Decidable (_ → _))
  | .aliceAddLink .. => inferInstanceAs (Decidable (_ ∧ _))
  | .aliceSetLinkOption .. => decidableKeepsKinds _ _
  | .addNbr .. => inferInstanceAs (Decidable (_ → _))
  | .addSlotframe .. | .removeSlotframe .. | .removeLink .. | .removeLinkByTimeslot .. => isTrue trivial
  | .freeUnusedNeighbors | .update .. | .lock | .releaseLock => isTrue trivial

/-- A build with ALICE and its time-varying schedule. -/
def aliceConfig : ScheduleConfig := ⟨8, 4, 16, true, true⟩

/-- Blocks as they are when the system starts. -/
def clearedLinks : LinkId → TschLink := fun _ => ⟨0, fun _ => 0, 0, 0, 0⟩

end Asap.Tsch.TschSchedule
