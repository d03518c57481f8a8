import Asap.Tsch.LinkList
import Asap.Tsch.NextActiveLink

/-!
# Which link is the next active one

`tsch_schedule_get_next_active_link` of a build without ALICE. The scan keeps a running best link
over all slotframes. What it keeps in the end is told here from the links alone: the earliest time
at which one of them comes up, among the links at that time the Tx links if there are any, among
these the slotframe with the lowest handle, and within a slotframe the comparator. OST makes an
exception for the slotframes 1 and 2.

## Main definitions

* `tschScheduleGetNextActiveLink` — the scan.
* `linksAt` — the links that come up after a number of slots, in the order of the lists.
* `Best` — what is known of the link kept so far.
* `NextActive` — the link that is returned.
-/

namespace Asap.Tsch

open List

/-- `WITH_OST` and `HCK_APPLY_LATEST_CONTIKI` -/
structure ScanConfig where
  withOst : Bool
  hckApplyLatestContiki : Bool

/-- The link returned, `*time_offset` if it is written, and `*backup_link`. -/
structure NextLink where
  link : Option LinkId
  timeOffset : Option (BitVec 16)
  backupLink : Option LinkId
deriving DecidableEq, Repr

namespace TschSchedule

variable (cfg : ScanConfig) (s : TschSchedule)

/-- The handle of the slotframe of a link. -/
def handleOf (l : LinkId) : BitVec 16 := (s.links l).slotframeHandle

/-- Whether a link has `LINK_OPTION_TX`. -/
def txLink (l : LinkId) : Bool := isTx (s.links l).linkOptions

/-- `new_best`, with what `WITH_OST` adds: an autonomous broadcast link, of slotframe 2, comes
before a unicast Tx link of slotframe 1. -/
def newBestLink (currBest l : LinkId) : Option LinkId :=
  if cfg.withOst ∧ s.txLink currBest = s.txLink l ∧ s.handleOf currBest = 1 ∧ s.txLink currBest ∧
      s.handleOf l = 2 then some l
  else s.newBest currBest l

/-- One turn of the loop over the links of a slotframe, for a link and the time to it. -/
def visitLink (sel : Selection) (o : LinkId × BitVec 16) : Selection :=
  match sel.currBest with
  | none => ⟨some o.1, o.2, none⟩
  | some currBest =>
    if o.2 < sel.timeToCurrBest then ⟨some o.1, o.2, none⟩
    else if o.2 = sel.timeToCurrBest then
      let newBest := s.newBestLink cfg currBest o.1
      { sel with
        currBest := some (newBest.getD currBest)
        currBackup :=
          s.newBackup cfg.hckApplyLatestContiki newBest currBest o.1 sel.currBackup }
    else sel

/-- The links of a slotframe with the time to each. -/
def occurrencesIn (asn : TschAsn) (sf : TschSlotframe) : List (LinkId × BitVec 16) :=
  sf.linksList.map fun l => (l, timeToTimeslot asn sf.size (s.links l).timeslot)

/-- `tsch_schedule_get_next_active_link` -/
def tschScheduleGetNextActiveLink (asn : TschAsn) : NextLink :=
  if s.tschLocked then ⟨none, none, none⟩
  else
    let sel := s.slotframeList.foldl
      (fun sel sf => (s.occurrencesIn asn sf).foldl (s.visitLink cfg) sel) .nothing
    ⟨sel.currBest, some sel.timeToCurrBest, sel.currBackup⟩

/-! ## The links at a time -/

/-- The links of the schedule with the time to each, in the order of the lists. -/
def occurrences (asn : TschAsn) : List (LinkId × BitVec 16) :=
  s.slotframeList.flatMap (s.occurrencesIn asn)

/-- The links with a time. -/
def withTime (os : List (LinkId × BitVec 16)) (time : BitVec 16) : List LinkId :=
  (os.filter fun o => o.2 = time).map (·.1)

/-- The links that come up after a number of slots. -/
def linksAt (asn : TschAsn) (time : BitVec 16) : List LinkId := withTime (s.occurrences asn) time

/-- The Tx links, if there are any. -/
def preferred (ls : List LinkId) : List LinkId :=
  if ls.any s.txLink then ls.filter s.txLink else ls

/-- The better one of two links at the same time. -/
def better (currBest l : LinkId) : LinkId := (s.newBestLink cfg currBest l).getD currBest

/-- The best one of links at the same time. -/
def choice : List LinkId → Option LinkId
  | [] => none
  | l :: ls => some (ls.foldl (s.better cfg) l)

/-- What the comparator leaves of the links of one slotframe. -/
def comparatorChoice : List LinkId → Option LinkId
  | [] => none
  | l :: ls => some (ls.foldl s.defaultTschLinkComparator l)

variable {cfg : ScanConfig} {s : TschSchedule} {asn : TschAsn}

theorem getNextActiveLink_eq (hlock : s.tschLocked = false) :
    s.tschScheduleGetNextActiveLink cfg asn =
      let sel := (s.occurrences asn).foldl (s.visitLink cfg) .nothing
      ⟨sel.currBest, some sel.timeToCurrBest, sel.currBackup⟩ := by
  rw [tschScheduleGetNextActiveLink, hlock, occurrences, foldl_flatMap]
  rfl

theorem withTime_append_same (os : List (LinkId × BitVec 16)) (l : LinkId) (time : BitVec 16) :
    withTime (os ++ [(l, time)]) time = withTime os time ++ [l] := by
  simp [withTime]

theorem withTime_append_ne (os : List (LinkId × BitVec 16)) (l : LinkId) {time t : BitVec 16}
    (h : t ≠ time) : withTime (os ++ [(l, t)]) time = withTime os time := by
  simp [withTime, h]

theorem withTime_of_lt {os : List (LinkId × BitVec 16)} {time : BitVec 16}
    (h : ∀ o ∈ os, time < o.2) : withTime os time = [] := by
  rw [withTime, map_eq_nil_iff, filter_eq_nil_iff]
  intro o ho heq
  have hlt := h o ho
  rw [decide_eq_true_iff.mp heq] at hlt
  exact absurd hlt (BitVec.lt_irrefl time)

theorem choice_append (ls : List LinkId) (l : LinkId) :
    s.choice cfg (ls ++ [l]) =
      some (match s.choice cfg ls with
        | none => l
        | some b => s.better cfg b l) := by
  cases ls with
  | nil => rfl
  | cons x ls => simp [choice, foldl_append]

theorem better_mem (b l : LinkId) : s.better cfg b l = b ∨ s.better cfg b l = l := by
  rw [better, newBestLink]
  split_ifs with host
  · exact Or.inr rfl
  · cases hnew : s.newBest b l with
    | none => exact Or.inl rfl
    | some x => exact newBest_mem hnew

theorem choice_mem {ls : List LinkId} {b : LinkId} (h : s.choice cfg ls = some b) : b ∈ ls := by
  induction ls using List.reverseRecOn generalizing b with
  | nil => exact absurd h (by simp [choice])
  | append_singleton ls l ih =>
    rw [choice_append, Option.some.injEq] at h
    cases hprev : s.choice cfg ls with
    | none =>
      rw [hprev] at h
      exact mem_append_right ls (mem_singleton.mpr h.symm)
    | some x =>
      rw [hprev] at h
      rw [← h]
      cases @better_mem cfg s x l with
      | inl heq =>
        have hx := mem_append_left [l] (ih hprev)
        rwa [← heq] at hx
      | inr heq => exact mem_append_right ls (mem_singleton.mpr heq)

/-- The links preferred are Tx links if there are any. -/
theorem txLink_of_preferred {ls : List LinkId} {b : LinkId} (h : b ∈ s.preferred ls) :
    b ∈ ls ∧ s.txLink b = ls.any s.txLink := by
  rw [preferred] at h
  split_ifs at h with htx
  · have hb := mem_filter.mp h
    exact ⟨hb.1, hb.2.trans htx.symm⟩
  · refine ⟨h, ?_⟩
    rw [Bool.not_eq_true] at htx
    rw [htx]
    exact Bool.eq_false_iff.mpr (any_eq_false.mp htx b h)

/-! ## The scan -/

/-- What is known of the link kept: no link seen comes earlier, and it is the best one of the links
preferred among those at its time. -/
def Best (cfg : ScanConfig) (s : TschSchedule) (os : List (LinkId × BitVec 16))
    (sel : Selection) : Prop :=
  (sel.currBest = none → os = []) ∧
    ∀ b, sel.currBest = some b → (∀ o ∈ os, sel.timeToCurrBest ≤ o.2) ∧
      s.choice cfg (s.preferred (withTime os sel.timeToCurrBest)) = some b

theorem newBest_eq (b l : LinkId) :
    s.newBest b l =
      if s.txLink b = s.txLink l then
        if s.handleOf l ≠ s.handleOf b then if s.handleOf l < s.handleOf b then some l else none
        else some (s.defaultTschLinkComparator b l)
      else if s.txLink l then some l else none := rfl

/-- A Tx link and another one. -/
theorem newBestLink_of_ne {b l : LinkId} (h : s.txLink b ≠ s.txLink l) :
    s.newBestLink cfg b l = if s.txLink l then some l else none := by
  rw [newBestLink, if_neg (fun host => h host.2.1), newBest_eq, if_neg h]

/-- One more link at the same time. -/
theorem choice_preferred_append {ls : List LinkId} {b : LinkId}
    (h : s.choice cfg (s.preferred ls) = some b) (l : LinkId) :
    s.choice cfg (s.preferred (ls ++ [l])) = some (s.better cfg b l) := by
  have hb := (txLink_of_preferred (choice_mem h)).2
  cases hany : ls.any s.txLink with
  | false =>
    have hls : s.preferred ls = ls := by rw [preferred, hany]; rfl
    rw [hls] at h
    cases hl : s.txLink l with
    | false =>
      have hboth : s.preferred (ls ++ [l]) = ls ++ [l] := by
        rw [preferred, any_append, hany]
        simp [hl]
      rw [hboth, choice_append, h]
    | true =>
      have honly : s.preferred (ls ++ [l]) = [l] := by
        have hfilter : ls.filter s.txLink = [] := filter_eq_nil_iff.mpr fun x hx =>
          any_eq_false.mp hany x hx
        rw [preferred, any_append, hany, filter_append, hfilter]
        simp [hl]
      rw [honly, better, newBestLink_of_ne (by rw [hb, hany, hl]; decide), if_pos hl]
      rfl
  | true =>
    have hls : s.preferred ls = ls.filter s.txLink := by rw [preferred, hany]; rfl
    rw [hls] at h
    have hboth : s.preferred (ls ++ [l]) = ls.filter s.txLink ++ [l].filter s.txLink := by
      rw [preferred, any_append, hany, filter_append]
      rfl
    rw [hboth]
    cases hl : s.txLink l with
    | false =>
      rw [filter_cons_of_neg (by simp [hl]), filter_nil, append_nil, h, better,
        newBestLink_of_ne (by rw [hb, hany, hl]; decide), hl]
      rfl
    | true => rw [filter_cons_of_pos hl, filter_nil, choice_append, h]

/-- One more link. -/
theorem Best.visitLink {os : List (LinkId × BitVec 16)} {sel : Selection} (h : Best cfg s os sel)
    (l : LinkId) (t : BitVec 16) : Best cfg s (os ++ [(l, t)]) (s.visitLink cfg sel (l, t)) := by
  have halone : (∀ o ∈ os, t < o.2) → Best cfg s (os ++ [(l, t)]) ⟨some l, t, none⟩ := by
    refine fun hlater => ⟨fun hnone => absurd hnone (Option.some_ne_none l), fun b hb => ⟨?_, ?_⟩⟩
    · intro o ho
      cases mem_append.mp ho with
      | inl hin => exact BitVec.le_of_lt (hlater o hin)
      | inr hlast =>
        rw [mem_singleton.mp hlast]
        exact BitVec.le_refl t
    · rw [← Option.some.inj hb, withTime_append_same, withTime_of_lt hlater]
      have hone : s.preferred ([] ++ [l]) = [l] := by
        rw [preferred]
        split_ifs with htx
        · simpa using htx
        · rfl
      rw [hone]
      rfl
  cases hbest : sel.currBest with
  | none =>
    rw [TschSchedule.visitLink, hbest]
    exact halone fun o ho => absurd (h.1 hbest ▸ ho) not_mem_nil
  | some b =>
    have ⟨hleast, hchoice⟩ := h.2 b hbest
    rw [TschSchedule.visitLink, hbest]
    simp only
    split_ifs with hlt heq
    · exact halone fun o ho => Nat.lt_of_lt_of_le hlt (hleast o ho)
    · refine ⟨fun hnone => absurd hnone (Option.some_ne_none _), fun x hx => ⟨?_, ?_⟩⟩
      · intro o ho
        cases mem_append.mp ho with
        | inl hin => exact hleast o hin
        | inr hlast =>
          rw [mem_singleton.mp hlast, heq]
          exact BitVec.le_refl sel.timeToCurrBest
      · rw [heq, withTime_append_same, ← Option.some.inj hx]
        exact choice_preferred_append hchoice l
    · refine ⟨fun hnone => absurd (hbest.symm.trans hnone) (Option.some_ne_none b), fun x hx => ?_⟩
      have hx := Option.some.inj (hbest.symm.trans hx)
      refine ⟨fun o ho => ?_, ?_⟩
      · cases mem_append.mp ho with
        | inl hin => exact hleast o hin
        | inr hlast =>
          rw [mem_singleton.mp hlast]
          exact BitVec.not_lt.mp hlt
      · rw [withTime_append_ne os l heq, ← hx]
        exact hchoice

/-- **The scan keeps the best link** of all it has seen. -/
theorem best_foldl (cfg : ScanConfig) (s : TschSchedule) (os : List (LinkId × BitVec 16)) :
    Best cfg s os (os.foldl (s.visitLink cfg) .nothing) := by
  induction os using List.reverseRecOn with
  | nil => exact ⟨fun _ => rfl, fun b hb => absurd hb (by simp [Selection.nothing])⟩
  | append_singleton os o ih =>
    rw [foldl_append]
    exact ih.visitLink o.1 o.2

/-! ## The best of links of one kind -/

/-- OST puts slotframe 2 before slotframe 1: of Tx links, none of slotframe 0, those of slotframe 1
are followed by links of slotframe 2. -/
def OstPrefersTwo (cfg : ScanConfig) (s : TschSchedule) (tx : Bool) (ls : List LinkId) : Prop :=
  cfg.withOst = true ∧ tx = true ∧ 0 ∉ ls.map s.handleOf ∧ [1, 2].Sublist (ls.map s.handleOf)

instance (cfg : ScanConfig) (s : TschSchedule) (tx : Bool) (ls : List LinkId) :
    Decidable (OstPrefersTwo cfg s tx ls) :=
  inferInstanceAs (Decidable (_ ∧ _))

/-- The best one of links that are all Tx links, or none of them. -/
structure Kept (cfg : ScanConfig) (s : TschSchedule) (tx : Bool) (ls : List LinkId) (b : LinkId) :
    Prop where
  mem : b ∈ ls
  slotframe : if OstPrefersTwo cfg s tx ls then s.handleOf b = 2
    else ∀ l ∈ ls, s.handleOf b ≤ s.handleOf l
  comparator : s.comparatorChoice (ls.filter fun l => s.handleOf l = s.handleOf b) = some b

theorem comparator_mem (a b : LinkId) :
    s.defaultTschLinkComparator a b = a ∨ s.defaultTschLinkComparator a b = b := by
  rw [defaultTschLinkComparator]
  split_ifs
  · exact Or.inl rfl
  · exact Or.inl rfl
  · exact Or.inr rfl
  · exact Or.inl rfl

/-- Two links of one slotframe. -/
theorem better_of_eq {b l : LinkId} (htx : s.txLink b = s.txLink l)
    (hhandle : s.handleOf l = s.handleOf b) :
    s.better cfg b l = s.defaultTschLinkComparator b l := by
  have host : ¬(cfg.withOst = true ∧ s.txLink b = s.txLink l ∧ s.handleOf b = 1 ∧
      s.txLink b = true ∧ s.handleOf l = 2) := fun h => by
    have htwo := h.2.2.2.2
    rw [hhandle, h.2.2.1] at htwo
    exact absurd htwo (by decide)
  rw [better, newBestLink, if_neg host, newBest_eq, if_pos htx, if_neg (fun hne => hne hhandle)]
  rfl

/-- Whether a link of another slotframe takes the place of one. -/
def Beats (cfg : ScanConfig) (tx : Bool) (h c : BitVec 16) : Prop :=
  h < c ∨ (cfg.withOst = true ∧ tx = true ∧ c = 1 ∧ h = 2)

/-- Two links of different slotframes. -/
theorem better_of_ne {b l : LinkId} (htx : s.txLink b = s.txLink l)
    (hhandle : s.handleOf l ≠ s.handleOf b) :
    (Beats cfg (s.txLink b) (s.handleOf l) (s.handleOf b) → s.better cfg b l = l) ∧
      (¬Beats cfg (s.txLink b) (s.handleOf l) (s.handleOf b) → s.better cfg b l = b) := by
  rw [better, newBestLink]
  split_ifs with host
  · exact ⟨fun _ => rfl, fun hnot =>
      absurd (Or.inr ⟨host.1, host.2.2.2.1, host.2.2.1, host.2.2.2.2⟩) hnot⟩
  · rw [newBest_eq, if_pos htx, if_pos hhandle]
    constructor
    · intro hbeats
      cases hbeats with
      | inl hlt =>
        rw [if_pos hlt]
        rfl
      | inr htwo => exact absurd ⟨htwo.1, htx, htwo.2.2.1, htwo.2.1, htwo.2.2.2⟩ host
    · intro hnot
      rw [if_neg fun hlt => hnot (Or.inl hlt)]
      rfl

/-- The links of one slotframe against one of them. -/
theorem foldl_better_of_eq {b : LinkId} {ls : List LinkId}
    (hls : ∀ l ∈ ls, s.txLink l = s.txLink b ∧ s.handleOf l = s.handleOf b) :
    ls.foldl (s.better cfg) b = ls.foldl s.defaultTschLinkComparator b ∧
      (ls.foldl (s.better cfg) b = b ∨ ls.foldl (s.better cfg) b ∈ ls) := by
  induction ls generalizing b with
  | nil => exact ⟨rfl, Or.inl rfl⟩
  | cons l ls ih =>
    have hl := hls l mem_cons_self
    rw [foldl_cons, foldl_cons, better_of_eq hl.1.symm hl.2]
    have hrest : ∀ x, x = b ∨ x = l → ∀ y ∈ ls, s.txLink y = s.txLink x ∧ s.handleOf y = s.handleOf x := by
      intro x hx y hy
      have hyb := hls y (mem_cons_of_mem l hy)
      cases hx with
      | inl hxb => rwa [hxb]
      | inr hxl => exact hxl.symm ▸ ⟨hyb.1.trans hl.1.symm, hyb.2.trans hl.2.symm⟩
    have ⟨heq, hmem⟩ := ih (hrest (s.defaultTschLinkComparator b l) (comparator_mem b l))
    refine ⟨heq, ?_⟩
    cases hmem with
    | inl hsame =>
      rw [hsame]
      cases @comparator_mem s b l with
      | inl hb => exact Or.inl hb
      | inr hnew =>
        refine Or.inr ?_
        rw [hnew]
        exact mem_cons_self
    | inr hin => exact Or.inr (mem_cons_of_mem l hin)

/-- The links of another slotframe that do not beat the link kept. -/
theorem foldl_better_of_not_beats {b : LinkId} {h : BitVec 16} {ls : List LinkId}
    (hls : ∀ l ∈ ls, s.txLink l = s.txLink b ∧ s.handleOf l = h) (hne : h ≠ s.handleOf b)
    (hnot : ¬Beats cfg (s.txLink b) h (s.handleOf b)) : ls.foldl (s.better cfg) b = b := by
  induction ls with
  | nil => rfl
  | cons l ls ih =>
    have ⟨htx, hl⟩ := hls l mem_cons_self
    rw [foldl_cons, (better_of_ne htx.symm (hl ▸ hne)).2 (hl ▸ hnot)]
    exact ih fun x hx => hls x (mem_cons_of_mem l hx)

/-- A pair in two lists, one behind the other. -/
theorem pair_sublist_append {α : Type} {a b : α} {xs ys : List α} :
    [a, b].Sublist (xs ++ ys) ↔
      [a, b].Sublist xs ∨ (a ∈ xs ∧ b ∈ ys) ∨ [a, b].Sublist ys := by
  rw [sublist_append_iff]
  constructor
  · intro ⟨l₁, l₂, heq, h₁, h₂⟩
    match l₁, heq with
    | [], heq => exact Or.inr (Or.inr (by rw [heq]; exact h₂))
    | [x], heq =>
      have heq := List.cons.inj heq
      rw [← heq.1] at h₁
      rw [show l₂ = [b] from heq.2.symm] at h₂
      exact Or.inr (Or.inl ⟨singleton_sublist.mp h₁, singleton_sublist.mp h₂⟩)
    | x :: y :: l, heq =>
      have heq := List.cons.inj heq
      have heq' := List.cons.inj heq.2
      have hl := (append_eq_nil_iff.mp heq'.2.symm).1
      rw [← heq.1, ← heq'.1, hl] at h₁
      exact Or.inl h₁
  · intro h
    cases h with
    | inl hxs => exact ⟨[a, b], [], rfl, hxs, nil_sublist ys⟩
    | inr h =>
      cases h with
      | inl hmid =>
        exact ⟨[a], [b], rfl, singleton_sublist.mpr hmid.1, singleton_sublist.mpr hmid.2⟩
      | inr hys => exact ⟨[], [a, b], rfl, nil_sublist xs, hys⟩

variable {tx : Bool} {h : BitVec 16} {ls block : List LinkId} {x b : LinkId}

/-- No two links of one slotframe are of the slotframes 1 and 2. -/
theorem not_pair_of_block (hblock : ∀ l ∈ block, s.handleOf l = h) :
    ¬[1, 2].Sublist (block.map s.handleOf) := by
  intro hpair
  have hmem : ∀ c ∈ ([1, 2] : List (BitVec 16)), c = h := by
    intro c hc
    have ⟨l, hl, hlc⟩ := mem_map.mp (hpair.subset hc)
    rw [← hlc, hblock l hl]
  have hone := hmem 1 mem_cons_self
  have htwo := hmem 2 (mem_cons_of_mem 1 mem_cons_self)
  exact absurd (hone.trans htwo.symm) (by decide)

/-- The links of the first slotframe. -/
theorem kept_block (hblock : ∀ l ∈ x :: block, s.txLink l = tx ∧ s.handleOf l = h) :
    Kept cfg s tx (x :: block) (block.foldl (s.better cfg) x) := by
  have hx := hblock x mem_cons_self
  have ⟨heq, hmem⟩ := @foldl_better_of_eq cfg s x block fun l hl => by
    have hl := hblock l (mem_cons_of_mem x hl)
    exact ⟨hl.1.trans hx.1.symm, hl.2.trans hx.2.symm⟩
  have hin : block.foldl (s.better cfg) x ∈ x :: block := by
    cases hmem with
    | inl hsame =>
      rw [hsame]
      exact mem_cons_self
    | inr hrest => exact mem_cons_of_mem x hrest
  refine ⟨hin, ?_, ?_⟩
  · rw [if_neg fun htwo => not_pair_of_block (fun l hl => (hblock l hl).2) htwo.2.2.2]
    intro l hl
    rw [(hblock l hl).2, (hblock _ hin).2]
    exact BitVec.le_refl h
  · have hall : (x :: block).filter (fun l => s.handleOf l = s.handleOf (block.foldl (s.better cfg) x))
        = x :: block := filter_eq_self.mpr fun l hl => by
      rw [(hblock l hl).2, (hblock _ hin).2]
      exact decide_eq_true rfl
    rw [hall, comparatorChoice, heq]

/-- Where the links of one more slotframe do not beat the one kept, OST does not prefer slotframe 2
either. -/
theorem Kept.slotframe_of_not_beats (hkept : Kept cfg s tx ls b)
    (hblock : ∀ l ∈ block, s.handleOf l = h) (hlt : s.handleOf b < h)
    (hnot : ¬Beats cfg tx h (s.handleOf b)) :
    if OstPrefersTwo cfg s tx (ls ++ block) then s.handleOf b = 2
    else ∀ l ∈ ls ++ block, s.handleOf b ≤ s.handleOf l := by
  have hslotframe := hkept.slotframe
  by_cases htwo : OstPrefersTwo cfg s tx ls
  · rw [if_pos htwo] at hslotframe
    have hboth : OstPrefersTwo cfg s tx (ls ++ block) := by
      refine ⟨htwo.1, htwo.2.1, fun hzero => ?_, ?_⟩
      · rw [map_append] at hzero
        cases mem_append.mp hzero with
        | inl hin => exact htwo.2.2.1 hin
        | inr hin =>
          have ⟨l, hl, hl0⟩ := mem_map.mp hin
          rw [← hblock l hl, hl0] at hlt
          exact absurd hlt BitVec.not_lt_zero
      · rw [map_append]
        exact htwo.2.2.2.trans (sublist_append_left _ _)
    rw [if_pos hboth]
    exact hslotframe
  · rw [if_neg htwo] at hslotframe
    rw [if_neg]
    · intro l hl
      cases mem_append.mp hl with
      | inl hin => exact hslotframe l hin
      | inr hin =>
        rw [hblock l hin]
        exact BitVec.le_of_lt hlt
    · intro hboth
      rw [OstPrefersTwo, map_append, pair_sublist_append] at hboth
      have ⟨host, htx, hzero, hpair⟩ := hboth
      have hb : s.handleOf b ≠ 0 := fun hb0 =>
        hzero (mem_append_left _ (mem_map.mpr ⟨b, hkept.mem, hb0⟩))
      have hone : ∀ l ∈ ls, s.handleOf l = 1 → s.handleOf b = 1 := fun l hl hl1 => by
        have hle := hl1 ▸ hslotframe l hl
        bv_omega
      cases hpair with
      | inl hls =>
        exact htwo ⟨host, htx, fun hin => hzero (mem_append_left _ hin), hls⟩
      | inr hpair =>
        cases hpair with
        | inl hmid =>
          have ⟨l, hl, hl1⟩ := mem_map.mp hmid.1
          have ⟨m, hm, hm2⟩ := mem_map.mp hmid.2
          exact hnot (Or.inr ⟨host, htx, hone l hl hl1, (hblock m hm).symm.trans hm2⟩)
        | inr hin => exact not_pair_of_block hblock hin

/-- Where the links of one more slotframe beat the one kept. -/
theorem Kept.slotframe_of_beats (hkept : Kept cfg s tx ls b) (hx : x ∈ block)
    (hblock : ∀ l ∈ block, s.handleOf l = h) (hne : ∀ l ∈ ls, s.handleOf l ≠ h)
    (hbeats : Beats cfg tx h (s.handleOf b)) :
    if OstPrefersTwo cfg s tx (ls ++ block) then h = 2 else ∀ l ∈ ls ++ block, h ≤ s.handleOf l := by
  have hslotframe := hkept.slotframe
  have hold : ∀ c, c ∈ ls.map s.handleOf → c ≠ h := fun c hc hch => by
    have ⟨l, hl, hlc⟩ := mem_map.mp hc
    exact hne l hl (hlc.trans hch)
  have hleast : (∀ l ∈ ls, h ≤ s.handleOf l) → ∀ l ∈ ls ++ block, h ≤ s.handleOf l := by
    intro hall l hl
    cases mem_append.mp hl with
    | inl hin => exact hall l hin
    | inr hin =>
      rw [hblock l hin]
      exact BitVec.le_refl h
  by_cases htwo : OstPrefersTwo cfg s tx ls
  · rw [if_pos htwo] at hslotframe
    have hzero : h = 0 := by
      have hone := hold 1 (htwo.2.2.2.subset mem_cons_self)
      cases hbeats with
      | inl hlt =>
        rw [hslotframe] at hlt
        bv_omega
      | inr hswap =>
        rw [hslotframe] at hswap
        exact absurd hswap.2.2.1 (by decide)
    rw [if_neg]
    · rw [hzero]
      exact fun l _ => Nat.zero_le _
    · intro hboth
      refine hboth.2.2.1 ?_
      rw [map_append]
      exact mem_append_right _ (mem_map.mpr ⟨x, hx, (hblock x hx).trans hzero⟩)
  · rw [if_neg htwo] at hslotframe
    cases hbeats with
    | inl hlt =>
      rw [if_neg]
      · exact hleast fun l hl => BitVec.le_of_lt (Nat.lt_of_lt_of_le hlt (hslotframe l hl))
      · intro hboth
        rw [OstPrefersTwo, map_append, pair_sublist_append] at hboth
        have ⟨host, htx, hzero, hpair⟩ := hboth
        have hnonzero : h ≠ 0 := fun h0 =>
          hzero (mem_append_right _ (mem_map.mpr ⟨x, hx, (hblock x hx).trans h0⟩))
        have hone : 1 ∉ ls.map s.handleOf := fun hin => by
          have ⟨l, hl, hl1⟩ := mem_map.mp hin
          have hle := hl1 ▸ hslotframe l hl
          bv_omega
        cases hpair with
        | inl hls => exact hone (hls.subset mem_cons_self)
        | inr hpair =>
          cases hpair with
          | inl hmid => exact hone hmid.1
          | inr hin => exact not_pair_of_block hblock hin
    | inr hswap =>
      have ⟨host, htx, hb, h2⟩ := hswap
      rw [if_pos]
      · exact h2
      · rw [OstPrefersTwo, map_append, pair_sublist_append]
        refine ⟨host, htx, fun hzero => ?_, Or.inr (Or.inl ⟨?_, ?_⟩)⟩
        · cases mem_append.mp hzero with
          | inl hin =>
            have ⟨l, hl, hl0⟩ := mem_map.mp hin
            have hle := hl0 ▸ hslotframe l hl
            rw [hb] at hle
            exact absurd hle (by decide)
          | inr hin =>
            have ⟨l, hl, hl0⟩ := mem_map.mp hin
            rw [hblock l hl, h2] at hl0
            exact absurd hl0 (by decide)
        · exact mem_map.mpr ⟨b, hkept.mem, hb⟩
        · exact mem_map.mpr ⟨x, hx, (hblock x hx).trans h2⟩

/-- The links of one more slotframe. -/
theorem Kept.append (hkept : Kept cfg s tx ls b) (htx : s.txLink b = tx)
    (hblock : ∀ l ∈ x :: block, s.txLink l = tx ∧ s.handleOf l = h)
    (hne : ∀ l ∈ ls, s.handleOf l ≠ h) :
    Kept cfg s tx (ls ++ x :: block) ((x :: block).foldl (s.better cfg) b) := by
  have hhandles : ∀ l ∈ x :: block, s.handleOf l = h := fun l hl => (hblock l hl).2
  have hx := hblock x mem_cons_self
  have hbh := hne b hkept.mem
  by_cases hbeats : Beats cfg tx h (s.handleOf b)
  · have htake : s.better cfg b x = x :=
      (better_of_ne (htx.trans hx.1.symm) (hx.2 ▸ hbh.symm)).1 (by rw [htx, hx.2]; exact hbeats)
    rw [foldl_cons, htake]
    have hinner := @kept_block cfg s tx h block x hblock
    have hhandle := hhandles _ hinner.mem
    refine ⟨mem_append_right ls hinner.mem, ?_, ?_⟩
    · rw [hhandle]
      exact hkept.slotframe_of_beats mem_cons_self hhandles hne hbeats
    · have hnone : ls.filter (fun l => s.handleOf l = s.handleOf (block.foldl (s.better cfg) x)) = [] :=
        filter_eq_nil_iff.mpr fun l hl heq =>
          hne l hl ((decide_eq_true_iff.mp heq).trans hhandle)
      rw [filter_append, hnone]
      exact hinner.comparator
  · have hstay : (x :: block).foldl (s.better cfg) b = b := foldl_better_of_not_beats
      (fun l hl => ⟨(hblock l hl).1.trans htx.symm, (hblock l hl).2⟩) hbh.symm
      (by rw [htx]; exact hbeats)
    have hlt : s.handleOf b < h := by
      have hge : ¬h < s.handleOf b := fun hlt => hbeats (Or.inl hlt)
      bv_omega
    rw [hstay]
    refine ⟨mem_append_left _ hkept.mem, ?_, ?_⟩
    · exact hkept.slotframe_of_not_beats hhandles hlt hbeats
    · have hnone : (x :: block).filter (fun l => s.handleOf l = s.handleOf b) = [] :=
        filter_eq_nil_iff.mpr fun l hl heq =>
          hbh ((decide_eq_true_iff.mp heq).symm.trans (hhandles l hl))
      rw [filter_append, hnone, append_nil]
      exact hkept.comparator

/-- The links of all slotframes, one slotframe after the other. -/
theorem kept_flatMap {sfs : List TschSlotframe} (hnodup : (sfs.map (·.handle)).Nodup)
    (g : TschSlotframe → List LinkId)
    (hg : ∀ sf ∈ sfs, ∀ l ∈ g sf, s.txLink l = tx ∧ s.handleOf l = sf.handle)
    (hb : s.choice cfg (sfs.flatMap g) = some b) : Kept cfg s tx (sfs.flatMap g) b := by
  induction sfs using List.reverseRecOn generalizing b with
  | nil => exact absurd hb (by simp [choice])
  | append_singleton sfs sf ih =>
    rw [map_append, nodup_append] at hnodup
    have hsf := hg sf (mem_append_right sfs (mem_singleton.mpr rfl))
    have hsfs : ∀ sf' ∈ sfs, ∀ l ∈ g sf', s.txLink l = tx ∧ s.handleOf l = sf'.handle :=
      fun sf' h' => hg sf' (mem_append_left [sf] h')
    have hall : (sfs ++ [sf]).flatMap g = sfs.flatMap g ++ g sf := by simp
    rw [hall] at hb ⊢
    cases hblock : g sf with
    | nil =>
      rw [hblock, append_nil] at hb
      rw [append_nil]
      exact ih hnodup.1 hsfs hb
    | cons x block =>
      rw [hblock] at hsf hb
      cases hls : sfs.flatMap g with
      | nil =>
        rw [hls] at hb
        rw [← Option.some.inj hb]
        exact kept_block hsf
      | cons y rest =>
        have hprev : s.choice cfg (sfs.flatMap g) = some (rest.foldl (s.better cfg) y) := by
          rw [hls]
          rfl
        have hkept := ih hnodup.1 hsfs hprev
        have htx : ∀ l ∈ sfs.flatMap g, s.txLink l = tx ∧ s.handleOf l ≠ sf.handle := by
          intro l hl
          have ⟨sf', h', hl'⟩ := mem_flatMap.mp hl
          refine ⟨(hsfs sf' h' l hl').1, fun heq => ?_⟩
          exact hnodup.2.2 sf'.handle (mem_map.mpr ⟨sf', h', rfl⟩) sf.handle
            (mem_map.mpr ⟨sf, mem_singleton.mpr rfl, rfl⟩)
            ((hsfs sf' h' l hl').2.symm.trans heq)
        have happend := hkept.append (htx _ hkept.mem).1 hsf fun l hl => (htx l hl).2
        rw [hls] at hb happend
        have hfold : b = (x :: block).foldl (s.better cfg) (rest.foldl (s.better cfg) y) := by
          rw [← foldl_append]
          exact (Option.some.inj hb).symm
        rw [hfold]
        exact happend

/-! ## The link that is returned -/

/-- The next time a timeslot comes up after an ASN. -/
structure NextOccurrence (asn : TschAsn) (size timeslot time : BitVec 16) : Prop where
  pos : 0 < time.toNat
  comes : (asn.val + time.toNat) % size.toNat = timeslot.toNat
  first : ∀ t, 0 < t → (asn.val + t) % size.toNat = timeslot.toNat → time.toNat ≤ t

/-- The time that the scan computes is the time to the next occurrence. -/
theorem nextOccurrence_timeToTimeslot (asn : TschAsn) {size timeslot : BitVec 16}
    (h : timeslot.toNat < size.toNat) :
    NextOccurrence asn size timeslot (timeToTimeslot asn size timeslot) := by
  have htime := toNat_timeToTimeslot asn h
  have hmod := Nat.mod_lt asn.val (show 0 < size.toNat by omega)
  have hdiv := Nat.div_add_mod asn.val size.toNat
  have hcomes : ∀ t, asn.val + t = size.toNat * (asn.val / size.toNat) + (asn.val % size.toNat + t) :=
    fun t => by omega
  refine ⟨?_, ?_, fun t hpos ht => ?_⟩
  · rw [htime]
    split_ifs <;> omega
  · rw [hcomes, Nat.mul_add_mod, htime]
    split_ifs with hlt
    · rw [show asn.val % size.toNat + (timeslot.toNat - asn.val % size.toNat) = timeslot.toNat by omega]
      exact Nat.mod_eq_of_lt h
    · rw [show asn.val % size.toNat + (size.toNat + timeslot.toNat - asn.val % size.toNat) =
        size.toNat + timeslot.toNat by omega, Nat.add_mod_left]
      exact Nat.mod_eq_of_lt h
  · rw [hcomes, Nat.mul_add_mod] at ht
    by_contra hless
    rw [htime] at hless
    by_cases hwrap : asn.val % size.toNat + t < size.toNat
    · rw [Nat.mod_eq_of_lt hwrap] at ht
      split_ifs at hless <;> omega
    · rw [Nat.mod_eq_sub_mod (by omega), Nat.mod_eq_of_lt (by split_ifs at hless <;> omega)] at ht
      split_ifs at hless <;> omega

/-- A link of the schedule, and the time from an ASN to its next occurrence. -/
def Occurs (s : TschSchedule) (asn : TschAsn) (l : LinkId) (time : BitVec 16) : Prop :=
  ∃ sf ∈ s.slotframeList, l ∈ sf.linksList ∧ NextOccurrence asn sf.size (s.links l).timeslot time

/-- The schedule holds links in use, each in one slotframe and at a timeslot of it. -/
structure InPlace (s : TschSchedule) : Prop extends Ok s where
  /-- `tsch_schedule_add_link` refuses other timeslots -/
  inRange : ∀ sf ∈ s.slotframeList, ∀ l ∈ sf.linksList,
    (s.links l).timeslot.toNat < sf.size.toNat

/-- The next active link and the time to it. -/
structure NextActive (cfg : ScanConfig) (s : TschSchedule) (asn : TschAsn) (l : LinkId)
    (time : BitVec 16) : Prop where
  occurs : s.Occurs asn l time
  first : ∀ m t, s.Occurs asn m t → time ≤ t
  tx : (∃ m ∈ s.linksAt asn time, s.txLink m = true) → s.txLink l = true
  kept : Kept cfg s (s.txLink l) ((s.linksAt asn time).filter fun m => s.txLink m = s.txLink l) l

theorem NextOccurrence.unique {size timeslot time t : BitVec 16}
    (h : NextOccurrence asn size timeslot time) (h' : NextOccurrence asn size timeslot t) :
    time = t :=
  BitVec.eq_of_toNat_eq (Nat.le_antisymm (h.first t.toNat h'.pos h'.comes)
    (h'.first time.toNat h.pos h.comes))

theorem occurs_iff (hok : s.InPlace) {l : LinkId} {time : BitVec 16} :
    s.Occurs asn l time ↔ (l, time) ∈ s.occurrences asn := by
  simp only [Occurs, occurrences, occurrencesIn, mem_flatMap, mem_map, Prod.mk.injEq]
  constructor
  · intro ⟨sf, hsf, hl, hnext⟩
    refine ⟨sf, hsf, l, hl, rfl, ?_⟩
    exact (nextOccurrence_timeToTimeslot asn (hok.inRange sf hsf l hl)).unique hnext
  · intro ⟨sf, hsf, m, hm, hml, htime⟩
    rw [hml] at hm htime
    refine ⟨sf, hsf, hm, ?_⟩
    rw [← htime]
    exact nextOccurrence_timeToTimeslot asn (hok.inRange sf hsf l hm)

theorem mem_linksAt {l : LinkId} {time : BitVec 16} :
    l ∈ s.linksAt asn time ↔ (l, time) ∈ s.occurrences asn := by
  simp [linksAt, withTime]

theorem preferred_eq_filter (ls : List LinkId) :
    s.preferred ls = ls.filter fun l => s.txLink l = ls.any s.txLink := by
  rw [preferred]
  cases hany : ls.any s.txLink with
  | true =>
    rw [if_pos rfl]
    exact filter_congr fun l _ => by simp
  | false =>
    rw [if_neg (by decide)]
    refine (filter_eq_self.mpr fun l hl => ?_).symm
    exact decide_eq_true (Bool.eq_false_iff.mpr (any_eq_false.mp hany l hl))

/-- The links at a time, one slotframe after the other. -/
theorem filter_linksAt (s : TschSchedule) (asn : TschAsn) (time : BitVec 16) (p : LinkId → Bool) :
    (s.linksAt asn time).filter p = s.slotframeList.flatMap fun sf =>
      (withTime (s.occurrencesIn asn sf) time).filter p := by
  rw [linksAt, occurrences, withTime, filter_flatMap, map_flatMap, filter_flatMap]
  rfl

theorem occurrences_eq_nil : s.occurrences asn = [] ↔ s.installed = [] := by
  simp [occurrences, occurrencesIn, installed, flatMap_eq_nil_iff]

/-- The link that the scan keeps in the end. -/
theorem InPlace.nextActive (hok : s.InPlace) {sel : Selection}
    (hbest : Best cfg s (s.occurrences asn) sel) {l : LinkId} (hl : sel.currBest = some l) :
    NextActive cfg s asn l sel.timeToCurrBest := by
  have ⟨hleast, hchoice⟩ := hbest.2 l hl
  have hmem := txLink_of_preferred (choice_mem hchoice)
  refine ⟨?_, fun m t hm => ?_, fun ⟨m, hm, hmtx⟩ => ?_, ?_⟩
  · exact (occurs_iff hok).mpr (mem_linksAt.mp hmem.1)
  · exact hleast (m, t) ((occurs_iff hok).mp hm)
  · rw [hmem.2]
    exact any_eq_true.mpr ⟨m, hm, hmtx⟩
  · rw [preferred_eq_filter, ← hmem.2] at hchoice
    rw [show withTime (s.occurrences asn) sel.timeToCurrBest =
      s.linksAt asn sel.timeToCurrBest from rfl] at hchoice
    rw [filter_linksAt] at hchoice ⊢
    refine kept_flatMap hok.handles _ (fun sf hsf m hm => ?_) hchoice
    have ⟨hat, htx⟩ := mem_filter.mp hm
    refine ⟨decide_eq_true_iff.mp htx, hok.handle sf hsf m ?_⟩
    have ⟨o, ho, hom⟩ := mem_map.mp hat
    have ⟨m', hm', heq⟩ := mem_map.mp (mem_filter.mp ho).1
    rw [← hom, ← heq]
    exact hm'

/-- **The next active link.** In an unlocked schedule with links, the scan returns a link and the
time to its next occurrence, which no link comes before. The link is a Tx link if one comes up then.
It is of the slotframe with the lowest handle among those, unless OST prefers slotframe 2 to
slotframe 1, and the comparator decides between links of that slotframe. -/
theorem next_active_link (hok : s.InPlace) :
    (s.tschLocked = false → s.installed ≠ [] →
      ∃ l time, (s.tschScheduleGetNextActiveLink cfg asn).link = some l ∧
        (s.tschScheduleGetNextActiveLink cfg asn).timeOffset = some time ∧
        NextActive cfg s asn l time) ∧
    (s.tschLocked = true ∨ s.installed = [] →
      (s.tschScheduleGetNextActiveLink cfg asn).link = none) := by
  refine ⟨fun hlock hnonempty => ?_, fun hnone => ?_⟩
  · have hbest := best_foldl cfg s (s.occurrences asn)
    rw [getNextActiveLink_eq hlock]
    simp only
    generalize (s.occurrences asn).foldl (s.visitLink cfg) .nothing = sel at hbest
    cases hcurr : sel.currBest with
    | none => exact absurd (occurrences_eq_nil.mp (hbest.1 hcurr)) hnonempty
    | some l => exact ⟨l, sel.timeToCurrBest, rfl, rfl, hok.nextActive hbest hcurr⟩
  · cases hlock : s.tschLocked with
    | true =>
      rw [tschScheduleGetNextActiveLink, hlock]
      rfl
    | false =>
      have hnil : s.occurrences asn = [] :=
        occurrences_eq_nil.mpr (hnone.resolve_left (by rw [hlock]; decide))
      rw [getNextActiveLink_eq hlock, hnil]
      rfl

/-- Tx links of the slotframes 1 and 2, both at timeslot 1. -/
def twoTxLinks : TschSchedule where
  slotframeList := [⟨1, 5, [0]⟩, ⟨2, 7, [1]⟩]
  links l := ⟨if l = 0 then 1 else 2, tschBroadcastAddress, 1, 0, linkOptionTx⟩
  used _ := true
  nbrs _ := none
  tschLocked := false

theorem inPlace_twoTxLinks : twoTxLinks.InPlace where
  handles := by decide
  nodup := by decide
  handle := by decide
  used _ _ := rfl
  inRange := by decide

theorem next_active_link_two :
    ∃ l time, (twoTxLinks.tschScheduleGetNextActiveLink ⟨false, true⟩ (.ofNat 10)).link = some l ∧
      NextActive ⟨false, true⟩ twoTxLinks (.ofNat 10) l time := by
  have ⟨l, time, hl, _, hnext⟩ := (@next_active_link ⟨false, true⟩ twoTxLinks (.ofNat 10)
    inPlace_twoTxLinks).1 rfl (by decide)
  exact ⟨l, time, hl, hnext⟩

/-- **OST returns the link of the higher slotframe,** and a locked schedule gives none. -/
theorem ost_higher_slotframe :
    twoTxLinks.InPlace ∧
      (twoTxLinks.tschScheduleGetNextActiveLink ⟨true, true⟩ (.ofNat 0)).link = some 1 ∧
      (twoTxLinks.tschScheduleGetNextActiveLink ⟨true, true⟩ (.ofNat 0)).timeOffset = some 1 ∧
      0 ∈ twoTxLinks.linksAt (.ofNat 0) 1 ∧ twoTxLinks.txLink 0 = true ∧
      twoTxLinks.handleOf 0 < twoTxLinks.handleOf 1 ∧
      ({ twoTxLinks with tschLocked := true }.tschScheduleGetNextActiveLink ⟨false, true⟩
        (.ofNat 0)).link = none :=
  ⟨inPlace_twoTxLinks, by decide, by decide, by decide, by decide, by decide, by decide⟩

end TschSchedule

end Asap.Tsch
