import Asap.Rpl.Dio

/-!
# The choice of the preferred parent

The objective function MRHOF compares two parents, and the comparison is folded over the neighbor
table. It is not transitive: the preferred parent wins against every parent whose path cost differs
by less than a threshold. The fold still comes to the same cost whatever the order of the table is.
A parent is dropped only for one that is no more costly, or for the preferred parent, and the
preferred parent is dropped only where the threshold is met.

## Main definitions

* `MrhofNode` — the parents with their metrics, and the DAG.
* `ofBestParent`, `bestParent` — the comparison, and the fold over the table.
* `Chosen` — what is known of the parent kept so far.
-/

namespace Asap.Rpl

open List

/-- A pointer to an entry of `rpl_parents`. -/
abbrev ParentId := ℕ

/-- `RPL_MRHOF_SQUARED_ETX`, `RPL_WITH_MC`, `UIP_ND6_SEND_NS` and `PARENT_SWITCH_THRESHOLD` -/
structure MrhofConfig where
  squaredEtx : Bool
  withMc : Bool
  sendNs : Bool
  parentSwitchThreshold : ℕ

/-- `rpl_parent_t`, with what the link statistics and the neighbor cache have on it. -/
structure RplParent where
  dag : ℕ
  rank : BitVec 16
  mc : RplMetricContainer
  /-- `etx` of the link statistics, if there are any -/
  linkStats : Option (BitVec 16)
  /-- `rpl_parent_is_fresh` -/
  fresh : Bool
  /-- there is a neighbor, in state `NBR_REACHABLE` -/
  reachable : Bool

/-- The parents, and a DAG of an instance with its preferred parent. -/
structure MrhofNode where
  parent : ParentId → RplParent
  dag : ℕ
  preferredParent : Option ParentId
  minHoprankinc : BitVec 16
  mcType : BitVec 8

/-- `MAX_LINK_METRIC` -/
def maxLinkMetric (cfg : MrhofConfig) : ℕ := if cfg.squaredEtx then 2048 else 1024

/-- `MAX_PATH_COST` -/
def maxPathCost : ℕ := 32768

namespace MrhofNode

variable (cfg : MrhofConfig) (s : MrhofNode)

/-- `parent_link_metric`; the divisor is `LINK_STATS_ETX_DIVISOR`. -/
def parentLinkMetric (p : ParentId) : ℕ :=
  match (s.parent p).linkStats with
  | some etx => if cfg.squaredEtx then min (etx.toNat * etx.toNat / 128) 0xffff else etx.toNat
  | none => 0xffff

/-- `parent_path_cost` of a parent in a DAG; the metric containers are `RPL_DAG_MC_ETX` and
`RPL_DAG_MC_ENERGY`. -/
def parentPathCost (p : ParentId) : ℕ :=
  let base :=
    if cfg.withMc then
      if s.mcType = 7 then (s.parent p).mc.etx.toNat
      else if s.mcType = 2 then (s.parent p).mc.energyEst.toNat * 256
      else (s.parent p).rank.toNat
    else (s.parent p).rank.toNat
  min (base + s.parentLinkMetric cfg p) 0xffff

/-- `parent_is_acceptable` -/
def parentIsAcceptable (p : ParentId) : Bool :=
  s.parentLinkMetric cfg p ≤ maxLinkMetric cfg ∧ s.parentPathCost cfg p ≤ maxPathCost

/-- The end of `best_parent` of the objective function, where both parents are acceptable. -/
def betterParent (p1 p2 : ParentId) : Option ParentId :=
  let p1Cost : ℤ := s.parentPathCost cfg p1
  let p2Cost : ℤ := s.parentPathCost cfg p2
  if (some p1 = s.preferredParent ∨ some p2 = s.preferredParent) ∧
      p1Cost < p2Cost + cfg.parentSwitchThreshold ∧
      p2Cost - cfg.parentSwitchThreshold < p1Cost then s.preferredParent
  else if p1Cost < p2Cost then some p1
  else some p2

/-- `best_parent` of `rpl-mrhof.c`, for a second parent that is there. -/
def ofBestParent (p1 : Option ParentId) (p2 : ParentId) : Option ParentId :=
  match p1 with
  | none => if s.parentIsAcceptable cfg p2 then some p2 else none
  | some p1 =>
    if !s.parentIsAcceptable cfg p1 then
      if s.parentIsAcceptable cfg p2 then some p2 else none
    else if !s.parentIsAcceptable cfg p2 then some p1
    else s.betterParent cfg p1 p2

/-- The parents that `best_parent` of `rpl-dag.c` does not pass over. -/
def isCandidate (freshOnly : Bool) (p : ParentId) : Bool :=
  (s.parent p).dag = s.dag ∧ (s.parent p).rank ≠ rplInfiniteRank ∧
    s.minHoprankinc ≤ (s.parent p).rank ∧ (freshOnly → (s.parent p).fresh) ∧
    (cfg.sendNs → (s.parent p).reachable)

/-- `best_parent` of `rpl-dag.c`, for a DAG of an instance with an objective function. -/
def bestParent (freshOnly : Bool) (rplParents : List ParentId) : Option ParentId :=
  rplParents.foldl
    (fun best p => if s.isCandidate cfg freshOnly p then s.ofBestParent cfg best p else best) none

end MrhofNode

namespace MrhofNode

variable {cfg : MrhofConfig} {s : MrhofNode} {freshOnly : Bool} {p r x : ParentId}
  {seen rplParents : List ParentId}

section

variable (cfg : MrhofConfig) (s : MrhofNode)

/-- The acceptable candidates of a table. -/
def acceptable (freshOnly : Bool) (rplParents : List ParentId) :
    List ParentId :=
  rplParents.filter fun p => s.isCandidate cfg freshOnly p && s.parentIsAcceptable cfg p

/-- The parent kept, of those seen: it is the preferred parent, and no other one is less costly by
the threshold, or no other one is less costly at all, and the preferred parent, if it has been seen,
is more costly by the threshold. -/
def Kept (seen : List ParentId) (r : ParentId) : Prop :=
  (s.preferredParent = some r ∧
      ∀ c ∈ seen, s.parentPathCost cfg r < s.parentPathCost cfg c + cfg.parentSwitchThreshold) ∨
    ((∀ c ∈ seen, s.parentPathCost cfg r ≤ s.parentPathCost cfg c) ∧
      ∀ p ∈ seen, s.preferredParent = some p →
        s.parentPathCost cfg r + cfg.parentSwitchThreshold ≤ s.parentPathCost cfg p)

/-- What is known of the fold. -/
def Chosen (seen : List ParentId) : Option ParentId → Prop
  | none => seen = []
  | some r => r ∈ seen ∧ s.Kept cfg seen r

theorem kept_singleton (x : ParentId) : s.Kept cfg [x] x := by
  by_cases hzero : cfg.parentSwitchThreshold = 0
  · refine Or.inr ⟨fun c hc => ?_, fun p hp _ => ?_⟩
    · exact Nat.le_of_eq (congrArg (s.parentPathCost cfg) (mem_singleton.mp hc).symm)
    · rw [mem_singleton.mp hp, hzero]
      exact Nat.le_refl _
  · by_cases hpreferred : s.preferredParent = some x
    · refine Or.inl ⟨hpreferred, fun c hc => ?_⟩
      rw [mem_singleton.mp hc]
      omega
    · refine Or.inr ⟨fun c hc => ?_, fun p hp hsome => ?_⟩
      · exact Nat.le_of_eq (congrArg (s.parentPathCost cfg) (mem_singleton.mp hc).symm)
      · rw [mem_singleton.mp hp] at hsome
        exact absurd hsome hpreferred

end

/-- The less costly of two parents is kept where the preferred parent is neither of them, or the
threshold is met. -/
theorem Kept.less (h : s.Kept cfg seen r) (hr : r ∈ seen)
    (hband : some r = s.preferredParent ∨ some x = s.preferredParent →
      s.parentPathCost cfg x + cfg.parentSwitchThreshold ≤ s.parentPathCost cfg r ∨
        s.parentPathCost cfg r + cfg.parentSwitchThreshold ≤ s.parentPathCost cfg x) :
    s.Kept cfg (x :: seen)
      (if s.parentPathCost cfg r < s.parentPathCost cfg x then r else x) := by
  split_ifs with hlt
  · cases h with
    | inl hpreferred =>
      refine Or.inl ⟨hpreferred.1, fun c hc => ?_⟩
      cases mem_cons.mp hc with
      | inl hcx =>
        rw [hcx]
        omega
      | inr hseen => exact hpreferred.2 c hseen
    | inr hleast =>
      refine Or.inr ⟨fun c hc => ?_, fun p hp hsome => ?_⟩
      · cases mem_cons.mp hc with
        | inl hcx =>
          rw [hcx]
          exact Nat.le_of_lt hlt
        | inr hseen => exact hleast.1 c hseen
      · cases mem_cons.mp hp with
        | inl hpx =>
          have hmet := hband (Or.inr (hpx ▸ hsome.symm))
          rw [hpx]
          omega
        | inr hseen => exact hleast.2 p hseen hsome
  · have hleast : ∀ c ∈ seen, s.parentPathCost cfg x ≤ s.parentPathCost cfg c := by
      intro c hc
      cases h with
      | inl hpreferred =>
        have hmet := hband (Or.inl hpreferred.1.symm)
        have hc := hpreferred.2 c hc
        have hself := hpreferred.2 r hr
        omega
      | inr hleast =>
        have hc := hleast.1 c hc
        omega
    by_cases hwins : s.preferredParent = some x ∧ 0 < cfg.parentSwitchThreshold
    · refine Or.inl ⟨hwins.1, fun c hc => ?_⟩
      have hpos := hwins.2
      cases mem_cons.mp hc with
      | inl hcx =>
        rw [hcx]
        omega
      | inr hseen =>
        have hc := hleast c hseen
        omega
    · refine Or.inr ⟨fun c hc => ?_, fun p hp hsome => ?_⟩
      · cases mem_cons.mp hc with
        | inl hcx => exact Nat.le_of_eq (congrArg (s.parentPathCost cfg) hcx.symm)
        | inr hseen => exact hleast c hseen
      · cases mem_cons.mp hp with
        | inl hpx =>
          have hzero : ¬0 < cfg.parentSwitchThreshold := fun hpos => hwins ⟨hpx ▸ hsome, hpos⟩
          rw [hpx]
          omega
        | inr hseen =>
          cases h with
          | inl hpreferred =>
            have hself := hpreferred.2 r hr
            have hmet := hband (Or.inl hpreferred.1.symm)
            have hpr : p = r := Option.some.inj (hsome.symm.trans hpreferred.1)
            rw [hpr]
            omega
          | inr hleast =>
            have hp := hleast.2 p hseen hsome
            omega

/-- The preferred parent is kept where the threshold is not met. -/
theorem Kept.preferred (h : s.Kept cfg seen r)
    (hp : s.preferredParent = some p) (hwhich : p = r ∨ p = x)
    (hxr : s.parentPathCost cfg x < s.parentPathCost cfg r + cfg.parentSwitchThreshold)
    (hrx : s.parentPathCost cfg r < s.parentPathCost cfg x + cfg.parentSwitchThreshold) :
    s.Kept cfg (x :: seen) p := by
  refine Or.inl ⟨hp, fun c hc => ?_⟩
  cases mem_cons.mp hc with
  | inl hcx =>
    rw [hcx]
    cases hwhich with
    | inl hpr => rw [hpr]; exact hrx
    | inr hpx => rw [hpx]; omega
  | inr hseen =>
    cases h with
    | inl hpreferred =>
      have hpr : p = r := Option.some.inj (hp.symm.trans hpreferred.1)
      rw [hpr]
      exact hpreferred.2 c hseen
    | inr hleast =>
      have hc := hleast.1 c hseen
      cases hwhich with
      | inl hpr =>
        rw [hpr]
        omega
      | inr hpx =>
        rw [hpx]
        omega

/-- One more acceptable parent. -/
theorem Chosen.better (h : s.Chosen cfg seen (some r)) :
    s.Chosen cfg (x :: seen) (s.betterParent cfg r x) := by
  have ⟨hr, hkept⟩ := h
  simp only [betterParent]
  by_cases hband : (some r = s.preferredParent ∨ some x = s.preferredParent) ∧
      (s.parentPathCost cfg r : ℤ) < s.parentPathCost cfg x + cfg.parentSwitchThreshold ∧
      (s.parentPathCost cfg x : ℤ) - cfg.parentSwitchThreshold < s.parentPathCost cfg r
  · rw [if_pos hband]
    have ⟨hwhich, hrx, hxr⟩ := hband
    cases hwhich with
    | inl hpr =>
      rw [← hpr]
      exact ⟨mem_cons_of_mem x hr,
        hkept.preferred hpr.symm (Or.inl rfl) (by omega) (by omega)⟩
    | inr hpx =>
      rw [← hpx]
      exact ⟨mem_cons_self, hkept.preferred hpx.symm (Or.inr rfl) (by omega) (by omega)⟩
  · rw [if_neg hband]
    have hless := hkept.less (x := x) hr fun hwhich => by
      by_contra hnot
      exact hband ⟨hwhich, by omega, by omega⟩
    by_cases hlt : s.parentPathCost cfg r < s.parentPathCost cfg x
    · rw [if_pos (by omega)]
      rw [if_pos hlt] at hless
      exact ⟨mem_cons_of_mem x hr, hless⟩
    · rw [if_neg (by omega)]
      rw [if_neg hlt] at hless
      exact ⟨mem_cons_self, hless⟩

/-- One more parent of the table. -/
theorem Chosen.step {best : Option ParentId} (h : s.Chosen cfg seen best)
    (hseen : ∀ c ∈ seen, s.parentIsAcceptable cfg c = true) :
    s.Chosen cfg
      (if s.isCandidate cfg freshOnly x && s.parentIsAcceptable cfg x then x :: seen else seen)
      (if s.isCandidate cfg freshOnly x then s.ofBestParent cfg best x else best) := by
  by_cases hcandidate : s.isCandidate cfg freshOnly x = true
  · rw [hcandidate, if_pos rfl, Bool.true_and]
    by_cases hx : s.parentIsAcceptable cfg x = true
    · rw [if_pos hx]
      cases best with
      | none =>
        rw [ofBestParent, if_pos hx, show seen = [] from h]
        exact ⟨mem_cons_self, kept_singleton cfg s x⟩
      | some r =>
        rw [ofBestParent, hseen r h.1, hx]
        exact h.better
    · rw [if_neg hx]
      cases best with
      | none =>
        rw [ofBestParent, if_neg hx]
        exact h
      | some r =>
        rw [ofBestParent, hseen r h.1, Bool.eq_false_iff.mpr hx]
        exact h
  · rw [Bool.eq_false_iff.mpr hcandidate, Bool.false_and]
    exact h

/-- The fold over a part of the table. -/
theorem Chosen.foldl {best : Option ParentId} (h : s.Chosen cfg seen best)
    (hseen : ∀ c ∈ seen, s.parentIsAcceptable cfg c = true) (rplParents : List ParentId) :
    ∃ seen', (∀ c, c ∈ seen' ↔ c ∈ seen ∨ c ∈ s.acceptable cfg freshOnly rplParents) ∧
      s.Chosen cfg seen' (rplParents.foldl (fun best p =>
        if s.isCandidate cfg freshOnly p then s.ofBestParent cfg best p else best) best) := by
  induction rplParents generalizing seen best with
  | nil => exact ⟨seen, fun c => by simp [acceptable], h⟩
  | cons x rplParents ih =>
    rw [foldl_cons]
    have hstep := @Chosen.step cfg s freshOnly x seen best h hseen
    by_cases hx : (s.isCandidate cfg freshOnly x && s.parentIsAcceptable cfg x) = true
    · rw [if_pos hx] at hstep
      have hacceptable := (Bool.and_eq_true_iff.mp hx).2
      have ⟨seen', hmem, hchosen⟩ := ih hstep fun c hc => by
        cases mem_cons.mp hc with
        | inl hcx => rw [hcx]; exact hacceptable
        | inr hin => exact hseen c hin
      refine ⟨seen', fun c => ?_, hchosen⟩
      have hcons : s.acceptable cfg freshOnly (x :: rplParents) =
          x :: s.acceptable cfg freshOnly rplParents := filter_cons_of_pos hx
      rw [hmem, hcons, mem_cons, mem_cons]
      tauto
    · rw [if_neg hx] at hstep
      have ⟨seen', hmem, hchosen⟩ := ih hstep hseen
      refine ⟨seen', fun c => ?_, hchosen⟩
      have hcons : s.acceptable cfg freshOnly (x :: rplParents) =
          s.acceptable cfg freshOnly rplParents := filter_cons_of_neg hx
      rw [hmem, hcons]

/-- What is known of the parent chosen from the whole table. -/
theorem chosen_bestParent (cfg : MrhofConfig) (s : MrhofNode) (freshOnly : Bool)
    (rplParents : List ParentId) :
    ∃ seen, (∀ c, c ∈ seen ↔ c ∈ s.acceptable cfg freshOnly rplParents) ∧
      s.Chosen cfg seen (s.bestParent cfg freshOnly rplParents) := by
  have hempty : s.Chosen cfg [] none := rfl
  have ⟨seen, hmem, hchosen⟩ := @Chosen.foldl cfg s freshOnly [] none hempty
    (fun c hc => absurd hc not_mem_nil) rplParents
  exact ⟨seen, fun c => by simpa using hmem c, hchosen⟩

/-- Whether the preferred parent is to stay: it is an acceptable candidate, and none is less costly
by the threshold. -/
def Stays (cfg : MrhofConfig) (s : MrhofNode) (freshOnly : Bool) (rplParents : List ParentId)
    (p : ParentId) : Prop :=
  s.preferredParent = some p ∧ p ∈ s.acceptable cfg freshOnly rplParents ∧
    ∀ c ∈ s.acceptable cfg freshOnly rplParents,
      s.parentPathCost cfg p < s.parentPathCost cfg c + cfg.parentSwitchThreshold

theorem bestParent_eq_none_iff :
    s.bestParent cfg freshOnly rplParents = none ↔ s.acceptable cfg freshOnly rplParents = [] := by
  have ⟨seen, hmem, hchosen⟩ := chosen_bestParent cfg s freshOnly rplParents
  cases hbest : s.bestParent cfg freshOnly rplParents with
  | none =>
    rw [hbest] at hchosen
    refine ⟨fun _ => eq_nil_iff_forall_not_mem.mpr fun c hc => ?_, fun _ => rfl⟩
    have hin := (hmem c).mpr hc
    rw [show seen = [] from hchosen] at hin
    exact not_mem_nil hin
  | some r =>
    rw [hbest] at hchosen
    have hr := (hmem r).mp hchosen.1
    exact ⟨fun h => absurd h (Option.some_ne_none r), fun h => absurd (h ▸ hr) not_mem_nil⟩

/-- **The preferred parent stays,** or a candidate of the least cost is chosen. -/
theorem bestParent_spec (hbest : s.bestParent cfg freshOnly rplParents = some r) :
    r ∈ s.acceptable cfg freshOnly rplParents ∧
      (∀ p, s.Stays cfg freshOnly rplParents p → r = p) ∧
      ((∀ p, ¬s.Stays cfg freshOnly rplParents p) →
        ∀ c ∈ s.acceptable cfg freshOnly rplParents,
          s.parentPathCost cfg r ≤ s.parentPathCost cfg c) := by
  have ⟨seen, hmem, hchosen⟩ := chosen_bestParent cfg s freshOnly rplParents
  rw [hbest] at hchosen
  have ⟨hr, hkept⟩ := hchosen
  refine ⟨(hmem r).mp hr, fun p hp => ?_, fun hnone c hc => ?_⟩
  · have ⟨hpreferred, hin, hstays⟩ := hp
    cases hkept with
    | inl hkeep => exact (Option.some.inj (hpreferred.symm.trans hkeep.1)).symm
    | inr hleast =>
      have hmet := hleast.2 p ((hmem p).mpr hin) hpreferred
      have hnot := hstays r ((hmem r).mp hr)
      omega
  · cases hkept with
    | inl hkeep =>
      exact absurd ⟨hkeep.1, (hmem r).mp hr, fun c hc => hkeep.2 c ((hmem c).mpr hc)⟩ (hnone r)
    | inr hleast => exact hleast.1 c ((hmem c).mpr hc)

section

variable {rplParents' : List ParentId}

theorem mem_acceptable_of_perm (hperm : rplParents'.Perm rplParents)
    (c : ParentId) :
    c ∈ s.acceptable cfg freshOnly rplParents' ↔ c ∈ s.acceptable cfg freshOnly rplParents :=
  (hperm.filter _).mem_iff

theorem Stays.of_perm (h : s.Stays cfg freshOnly rplParents p)
    (hperm : rplParents'.Perm rplParents) : s.Stays cfg freshOnly rplParents' p :=
  ⟨h.1, (mem_acceptable_of_perm hperm p).mpr h.2.1,
    fun c hc => h.2.2 c ((mem_acceptable_of_perm hperm c).mp hc)⟩

/-- In another order of the table a parent of the same cost is chosen, and the same one if the
preferred parent stays. -/
theorem bestParent_perm (hperm : rplParents'.Perm rplParents) :
    s.bestParent cfg freshOnly rplParents' = s.bestParent cfg freshOnly rplParents ∨
      ∃ r r', s.bestParent cfg freshOnly rplParents = some r ∧
        s.bestParent cfg freshOnly rplParents' = some r' ∧
        s.parentPathCost cfg r = s.parentPathCost cfg r' := by
  cases hbest : s.bestParent cfg freshOnly rplParents with
  | none =>
    have hempty := bestParent_eq_none_iff.mp hbest
    refine Or.inl (bestParent_eq_none_iff.mpr (eq_nil_iff_forall_not_mem.mpr fun c hc => ?_))
    rw [mem_acceptable_of_perm hperm, hempty] at hc
    exact not_mem_nil hc
  | some r =>
    have hspec := bestParent_spec hbest
    cases hbest' : s.bestParent cfg freshOnly rplParents' with
    | none =>
      have hempty := bestParent_eq_none_iff.mp hbest'
      have hr := (mem_acceptable_of_perm hperm r).mpr hspec.1
      rw [hempty] at hr
      exact absurd hr not_mem_nil
    | some r' =>
      have hspec' := bestParent_spec hbest'
      by_cases hstays : ∃ p, s.Stays cfg freshOnly rplParents p
      · have ⟨p, hp⟩ := hstays
        exact Or.inl (by rw [hspec'.2.1 p (hp.of_perm hperm), hspec.2.1 p hp])
      · have hnone : ∀ p, ¬s.Stays cfg freshOnly rplParents p := fun p hp => hstays ⟨p, hp⟩
        have hle := hspec.2.2 hnone r' ((mem_acceptable_of_perm hperm r').mp hspec'.1)
        have hle' := hspec'.2.2 (fun p hp => hnone p (hp.of_perm hperm.symm)) r
          ((mem_acceptable_of_perm hperm r).mpr hspec.1)
        exact Or.inr ⟨r, r', rfl, rfl, Nat.le_antisymm hle hle'⟩

end

end MrhofNode

open MrhofNode in
/-- **The choice of the parent.** No parent is chosen exactly if none is an acceptable candidate.
A preferred parent that is one is kept, unless one is less costly by the threshold. Otherwise an
acceptable candidate of the least cost is chosen. In another order of the table a parent of the
same cost is chosen. -/
theorem parent_choice (cfg : MrhofConfig) (s : MrhofNode) (freshOnly : Bool)
    (rplParents : List ParentId) :
    (s.bestParent cfg freshOnly rplParents = none ↔
      ∀ c ∈ rplParents, ¬(s.isCandidate cfg freshOnly c = true ∧ s.parentIsAcceptable cfg c = true)) ∧
    (∀ p, s.preferredParent = some p → p ∈ s.acceptable cfg freshOnly rplParents →
      (s.bestParent cfg freshOnly rplParents = some p ∨
        ∃ c ∈ s.acceptable cfg freshOnly rplParents,
          s.parentPathCost cfg c + cfg.parentSwitchThreshold ≤ s.parentPathCost cfg p)) ∧
    ((∀ p, s.preferredParent = some p → p ∈ s.acceptable cfg freshOnly rplParents →
        ∃ c ∈ s.acceptable cfg freshOnly rplParents,
          s.parentPathCost cfg c + cfg.parentSwitchThreshold ≤ s.parentPathCost cfg p) →
      ∀ r, s.bestParent cfg freshOnly rplParents = some r →
        r ∈ s.acceptable cfg freshOnly rplParents ∧
          ∀ c ∈ s.acceptable cfg freshOnly rplParents,
            s.parentPathCost cfg r ≤ s.parentPathCost cfg c) ∧
    ∀ rplParents', rplParents'.Perm rplParents →
      s.bestParent cfg freshOnly rplParents' = s.bestParent cfg freshOnly rplParents ∨
        ∃ r r', s.bestParent cfg freshOnly rplParents = some r ∧
          s.bestParent cfg freshOnly rplParents' = some r' ∧
          s.parentPathCost cfg r = s.parentPathCost cfg r' := by
  refine ⟨?_, fun p hp hin => ?_, fun hswitch r hbest => ?_, fun _ => bestParent_perm⟩
  · rw [bestParent_eq_none_iff, acceptable, List.filter_eq_nil_iff]
    simp only [Bool.and_eq_true]
  · by_cases hstays : s.Stays cfg freshOnly rplParents p
    · cases hbest : s.bestParent cfg freshOnly rplParents with
      | none =>
        rw [bestParent_eq_none_iff.mp hbest] at hin
        exact absurd hin List.not_mem_nil
      | some r => exact Or.inl (congrArg some ((bestParent_spec hbest).2.1 p hstays))
    · refine Or.inr ?_
      by_contra hnot
      refine hstays ⟨hp, hin, fun c hc => ?_⟩
      by_contra hmet
      exact hnot ⟨c, hc, Nat.not_lt.mp hmet⟩
  · have hspec := bestParent_spec hbest
    refine ⟨hspec.1, hspec.2.2 fun p hp => ?_⟩
    have ⟨c, hc, hmet⟩ := hswitch p hp.1 hp.2.1
    have hnot := hp.2.2 c hc
    omega

end Asap.Rpl
