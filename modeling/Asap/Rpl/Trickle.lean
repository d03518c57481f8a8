import Asap.Rpl.Instance

/-!
# Arithmetic on the parameters of an instance

The parser checks the length of a configuration option, and nothing checks what is in it. The
arithmetic on the parameters is well defined as long as every configuration that is adopted
keeps an invariant of the instance: ranks are not divided by zero, the exponents are below the
width of a word, and where the timer runs, or a reset may start it, the ticks of the greatest
interval fit into a word also when they are multiplied by a random value.

## Main definitions

* `RplNode.Computable` — what has to hold of a configuration that is adopted.
* `RplNode.Sound` — the invariant of an instance.
* `RplNode.InRange` — the exponents are below the width of a word.
-/

namespace Asap.Rpl

open Asap.Lib Asap.Ipv6

namespace RplNode

/-! ## Well-defined arithmetic -/

/-- The ticks of an interval of `2 ^ e` milliseconds are computed without overflow, whatever the
random value. -/
def TicksFit (cfg : RplConfig) (e : ℕ) : Prop := e < 32 ∧ 2 ^ e * cfg.clockSecond < 131076000

instance (cfg : RplConfig) (e : ℕ) : Decidable (TicksFit cfg e) :=
  inferInstanceAs (Decidable (_ ∧ _))

/-- A DAO lifetime that has no limit, or of which a quarter is a number of ticks. -/
def LifetimeFits (cfg : RplConfig) (defaultLifetime : BitVec 8) (lifetimeUnit : BitVec 16) : Prop :=
  defaultLifetime = rplInfiniteLifetime ∨
    4 ≤ defaultLifetime.toNat * lifetimeUnit.toNat * cfg.clockSecond % 2 ^ 32

instance (cfg : RplConfig) (defaultLifetime : BitVec 8) (lifetimeUnit : BitVec 16) :
    Decidable (LifetimeFits cfg defaultLifetime lifetimeUnit) :=
  inferInstanceAs (Decidable (_ ∨ _))

/-- The configuration of a DIO through which an instance is joined. The timer does not start if
the least and the greatest interval are the same. -/
structure JoinFits (cfg : RplConfig) (dio : RplDio) : Prop where
  minHoprankinc : dio.dagMinHoprankinc ≠ 0
  exponent : dio.dagIntmin.toNat + dio.dagIntdoubl.toNat < 32
  ticks : dio.dagIntdoubl ≠ 0 → TicksFit cfg (dio.dagIntmin.toNat + dio.dagIntdoubl.toNat)
  lifetime : LifetimeFits cfg dio.defaultLifetime dio.lifetimeUnit

instance (cfg : RplConfig) (dio : RplDio) : Decidable (JoinFits cfg dio) :=
  decidable_of_iff
    (dio.dagMinHoprankinc ≠ 0 ∧ dio.dagIntmin.toNat + dio.dagIntdoubl.toNat < 32 ∧
      (dio.dagIntdoubl ≠ 0 → TicksFit cfg (dio.dagIntmin.toNat + dio.dagIntdoubl.toNat)) ∧
      LifetimeFits cfg dio.defaultLifetime dio.lifetimeUnit)
    ⟨fun ⟨h, h', h'', h'''⟩ => ⟨h, h', h'', h'''⟩, fun ⟨h, h', h'', h'''⟩ => ⟨h, h', h'', h'''⟩⟩

/-- The configuration of a DIO that starts a global repair of an instance. -/
structure RepairFits (cfg : RplConfig) (inst : RplInstance) (dio : RplDio) : Prop where
  exponent : dio.dagIntmin.toNat + dio.dagIntdoubl.toNat < 32
  ticks : inst.dioTimer = true ∨ dio.dagIntmin.toNat < inst.dioIntcurrent.toNat →
    TicksFit cfg (dio.dagIntmin.toNat + dio.dagIntdoubl.toNat)
  lifetime : LifetimeFits cfg dio.defaultLifetime dio.lifetimeUnit

instance (cfg : RplConfig) (inst : RplInstance) (dio : RplDio) :
    Decidable (RepairFits cfg inst dio) :=
  decidable_of_iff
    (dio.dagIntmin.toNat + dio.dagIntdoubl.toNat < 32 ∧
      (inst.dioTimer = true ∨ dio.dagIntmin.toNat < inst.dioIntcurrent.toNat →
        TicksFit cfg (dio.dagIntmin.toNat + dio.dagIntdoubl.toNat)) ∧
      LifetimeFits cfg dio.defaultLifetime dio.lifetimeUnit)
    ⟨fun ⟨h, h', h''⟩ => ⟨h, h', h''⟩, fun ⟨h, h', h''⟩ => ⟨h, h', h''⟩⟩

section

variable (cfg : RplConfig) (s : RplNode)

/-- The node joins an instance through the DIO. -/
def joins (dio : RplDio) (ctx : DioContext) : Bool :=
  acceptsMop cfg dio.mop && (s.rplGetInstance cfg dio.instanceId).isNone && ctx.nbrAdded && ctx.of &&
    (s.rplAllocInstance cfg).isSome && ctx.parentAdded

/-- The instance in which the node takes part in a global repair that the DIO starts. -/
def repairs (dio : RplDio) : Option RplInstance :=
  if acceptsMop cfg dio.mop then
    ((s.rplGetInstance cfg dio.instanceId).bind s.instanceTable).filter fun inst =>
      match inst.getDag dio.dagId with
      | none => false
      | some dag => lollipopGreaterThan dio.version dag.version && dag.rank != inst.minHoprankinc
  else none

/-- The configuration of a DIO that is adopted is one the arithmetic is defined for. -/
def Computable : RplEvent → Prop
  | .dio dio ctx =>
    (s.joins cfg dio ctx = true → JoinFits cfg dio) ∧
      match s.repairs cfg dio with
      | none => True
      | some inst => RepairFits cfg inst dio
  | _ => True

end

instance (cfg : RplConfig) (s : RplNode) : (e : RplEvent) → Decidable (Computable cfg s e)
  | .dio dio ctx =>
    match h : s.repairs cfg dio with
    | none => decidable_of_iff (s.joins cfg dio ctx = true → JoinFits cfg dio)
        (by simp [Computable, h])
    | some inst => decidable_of_iff
        ((s.joins cfg dio ctx = true → JoinFits cfg dio) ∧ RepairFits cfg inst dio)
        (by simp [Computable, h])
  | .dioTimer .. | .daoTimer .. | .daoLifetimeTimer .. | .resetDioTimer .. | .parentEvent ..
  | .selectDag .. | .localRepair .. | .setMode .. | .purgeDags | .dao .. => isTrue trivial

/-- The exponents are below the width of a word, and ranks are not divided by zero. -/
def InRange (s : RplNode) : Prop :=
  ∀ i inst, s.instanceTable i = some inst →
    inst.minHoprankinc ≠ 0 ∧ inst.dioIntcurrent.toNat < 32 ∧
      inst.dioIntmin.toNat + inst.dioIntdoubl.toNat < 32

/-! ## Sound parameters -/

/-- An instance none of whose arithmetic can fail: not now, and not after a reset of the timer. -/
structure Sound (cfg : RplConfig) (inst : RplInstance) : Prop where
  minHoprankinc : inst.minHoprankinc ≠ 0
  exponent : inst.dioIntmin.toNat + inst.dioIntdoubl.toNat < 32
  current : inst.dioIntcurrent.toNat < 32
  running : inst.dioTimer = true → TicksFit cfg inst.dioIntcurrent.toNat
  ticks : inst.dioTimer = true ∨ inst.dioIntmin.toNat < inst.dioIntcurrent.toNat →
    TicksFit cfg (inst.dioIntmin.toNat + inst.dioIntdoubl.toNat)
  lifetime : LifetimeFits cfg inst.defaultLifetime inst.lifetimeUnit

/-- Every instance has sound parameters. -/
def AllSound (cfg : RplConfig) (s : RplNode) : Prop :=
  ∀ i inst, s.instanceTable i = some inst → Sound cfg inst

variable {cfg : RplConfig} {s : RplNode} {i : ℕ} {inst : RplInstance} {dio : RplDio}
  {ctx : DioContext}

theorem TicksFit.mono {e e' : ℕ} (h : TicksFit cfg e) (he : e' ≤ e) : TicksFit cfg e' := by
  obtain ⟨hwidth, hticks⟩ := h
  have hpow : 2 ^ e' ≤ 2 ^ e := Nat.pow_le_pow_right (by omega) he
  have hmul : 2 ^ e' * cfg.clockSecond ≤ 2 ^ e * cfg.clockSecond :=
    Nat.mul_le_mul_right cfg.clockSecond hpow
  exact ⟨by omega, by omega⟩

theorem AllSound.init : AllSound cfg init := by
  intro i inst h
  cases h

theorem AllSound.inRange (h : AllSound cfg s) : InRange s := by
  intro i inst hi
  exact ⟨(h i inst hi).minHoprankinc, (h i inst hi).current, (h i inst hi).exponent⟩

theorem AllSound.set (h : AllSound cfg s) (hinst : Sound cfg inst) :
    AllSound cfg (s.set i inst) := by
  intro j inst' hj
  simp only [RplNode.set, Function.update_apply] at hj
  split at hj
  · cases hj
    exact hinst
  · exact h j inst' hj

theorem AllSound.randomRand (h : AllSound cfg s) : AllSound cfg (s.randomRand cfg).2 := h

/-- The parameters stay as they are when DAGs change. -/
theorem Sound.dags (h : Sound cfg inst) (dags : List RplDag) (currentDag : UipIpaddr) :
    Sound cfg { inst with dags := dags, currentDag := currentDag } :=
  ⟨h.minHoprankinc, h.exponent, h.current, h.running, h.ticks, h.lifetime⟩

theorem Sound.updateDag (h : Sound cfg inst) (dagId : UipIpaddr) (f : RplDag → RplDag) :
    Sound cfg (inst.updateDag dagId f) :=
  h.dags _ _

/-- The parameters stay as they are when a DAO timer is set or stopped. -/
theorem Sound.daoTimers (h : Sound cfg inst) (daoTimer daoLifetimeTimer : Bool) :
    Sound cfg { inst with daoTimer := daoTimer, daoLifetimeTimer := daoLifetimeTimer } :=
  ⟨h.minHoprankinc, h.exponent, h.current, h.running, h.ticks, h.lifetime⟩

/-! ## One operation -/

theorem Sound.dagRank (h : Sound cfg inst) (fixptRank : ℕ) :
    Returns (inst.dagRank fixptRank) fun _ => True := by
  have hne : inst.minHoprankinc.toNat ≠ 0 := by
    intro hzero
    exact h.minHoprankinc (BitVec.eq_of_toNat_eq hzero)
  rw [RplInstance.dagRank, Checked.returns_div hne]
  trivial

theorem Sound.acceptableRank (h : Sound cfg inst) (minRank rank : BitVec 16) :
    Returns (inst.acceptableRank minRank rank) fun _ => True := by
  refine Returns.ite (by simp) ?_
  intro _
  refine Returns.ite (by simp) ?_
  intro _
  refine (h.dagRank rank.toNat).bind ?_
  intro r _
  refine (h.dagRank _).bind ?_
  simp

/-- The lifetime of a route always fits. -/
theorem rplLifetime_returns (inst : RplInstance) (lifetime : BitVec 8) :
    Returns (inst.rplLifetime lifetime) fun _ => True := by
  refine Returns.ite (by simp) ?_
  intro _
  have hunit := inst.lifetimeUnit.isLt
  have hlifetime := lifetime.isLt
  have hmul : inst.lifetimeUnit.toNat * lifetime.toNat ≤ 65535 * 255 :=
    Nat.mul_le_mul (by omega) (by omega)
  rw [Checked.returns_mul (by omega)]
  trivial

theorem rplSetDefaultRoute_returns (inst : RplInstance) :
    Returns (rplSetDefaultRoute cfg inst) fun _ => True :=
  Returns.ite (by simp) fun _ => rplLifetime_returns inst _

section

variable (h : AllSound cfg s)

include h

theorem AllSound.tschRplCallbackNewDioInterval :
    Returns (s.tschRplCallbackNewDioInterval cfg) fun _ => True := by
  unfold RplNode.tschRplCallbackNewDioInterval
  cases hany : s.rplGetAnyDag cfg with
  | none => simp
  | some inst =>
    obtain ⟨i, -, hi⟩ := List.exists_of_findSome?_eq_some hany
    exact (h i inst hi).dagRank _

/-- **The computation of an interval is well defined** if the timer may run with these
parameters. -/
theorem AllSound.newDioInterval (hinst : Sound cfg { inst with dioTimer := true }) :
    Returns (s.newDioInterval cfg i inst) (AllSound cfg) := by
  have hfit : TicksFit cfg inst.dioIntcurrent.toNat := hinst.running rfl
  have hticks := hfit.2
  unfold RplNode.newDioInterval
  refine ((Checked.returns_shl hfit.1).mpr rfl).bind ?_
  intro time htime
  cases htime
  refine ((Checked.returns_mul (by omega)).mpr rfl).bind ?_
  intro product hproduct
  have hrandom : (cfg.randomRand s.randomIndex).toNat < 2 ^ 16 := BitVec.isLt _
  have hjitter : product / 1000 / 2 * (cfg.randomRand s.randomIndex).toNat ≤ 65537 * 65535 :=
    Nat.mul_le_mul (by omega) (by omega)
  refine ((Checked.returns_mul (P := fun _ => True) (by omega)).mpr trivial).bind ?_
  intro jitter _
  have hset : AllSound cfg ((s.randomRand cfg).2.set i
      { inst with
        dioNextDelay := product / 1000 - (product / 1000 / 2 + jitter / 65535)
        dioSend := true
        dioTimer := true }) :=
    h.randomRand.set ⟨hinst.minHoprankinc, hinst.exponent, hinst.current, hinst.running,
      hinst.ticks, hinst.lifetime⟩
  refine ((Checked.returns_shl hfit.1).mpr rfl).bind ?_
  intro factor hfactor
  cases hfactor
  have hcomm := Nat.mul_comm cfg.clockSecond (2 ^ inst.dioIntcurrent.toNat)
  refine ((Checked.returns_mul (P := fun _ => True) (by omega)).mpr trivial).bind ?_
  intro _ _
  refine hset.tschRplCallbackNewDioInterval.bind ?_
  intro _ _
  rw [returns_pure]
  exact hset

theorem AllSound.rplResetDioTimer (i : ℕ) :
    Returns (s.rplResetDioTimer cfg i) (AllSound cfg) := by
  unfold RplNode.rplResetDioTimer
  cases hi : s.instanceTable i with
  | none => simpa using h
  | some inst =>
    have hinst : Sound cfg inst := h i inst hi
    refine Returns.ite ?_ ?_
    · intro hlt
      have hfit := hinst.ticks (Or.inr hlt)
      have hmin : TicksFit cfg inst.dioIntmin.toNat := hfit.mono (Nat.le_add_right _ _)
      exact h.newDioInterval ⟨hinst.minHoprankinc, hinst.exponent, hmin.1, fun _ => hmin,
        fun _ => hfit, hinst.lifetime⟩
    · intro _
      simpa using h

theorem AllSound.handleDioTimer (hi : s.instanceTable i = some inst)
    (htimer : inst.dioTimer = true) (linkLocal : Bool) :
    Returns (s.handleDioTimer cfg i linkLocal) (AllSound cfg) := by
  have hinst : Sound cfg inst := h i inst hi
  have hfit := hinst.ticks (Or.inl htimer)
  simp only [RplNode.handleDioTimer, hi]
  refine Returns.ite (by simp [h]) ?_
  intro _
  have hok : AllSound cfg { s with dioSendOk := true } := h
  refine Returns.ite ?_ ?_
  · intro _
    rw [returns_pure]
    exact hok.set ⟨hinst.minHoprankinc, hinst.exponent, hinst.current, hinst.running,
      hinst.ticks, hinst.lifetime⟩
  · intro _
    refine Returns.ite ?_ ?_
    · intro hlt
      -- the interval doubles, up to the greatest one
      have hsucc : (inst.dioIntcurrent + 1).toNat = inst.dioIntcurrent.toNat + 1 := by
        have hcurrent := hinst.current
        rw [BitVec.toNat_add, Nat.mod_eq_of_lt (by simp; omega)]
        rfl
      have hcur : TicksFit cfg (inst.dioIntcurrent + 1).toNat := hfit.mono (by omega)
      exact hok.newDioInterval ⟨hinst.minHoprankinc, hinst.exponent, hcur.1, fun _ => hcur,
        fun _ => hfit, hinst.lifetime⟩
    · intro _
      exact hok.newDioInterval ⟨hinst.minHoprankinc, hinst.exponent, hinst.current,
        fun _ => hinst.running htimer, fun _ => hfit, hinst.lifetime⟩

theorem AllSound.setDaoLifetimeTimer (hinst : Sound cfg inst) (i : ℕ) :
    Returns (s.setDaoLifetimeTimer cfg i inst) (AllSound cfg) := by
  refine Returns.ite (by simp [h]) ?_
  intro _
  refine Returns.ite (by simp [h]) ?_
  intro hfinite
  have hticks := hinst.lifetime.resolve_left hfinite
  refine ((Checked.returns_rem (P := fun _ => True) (by omega)).mpr trivial).bind ?_
  intro _ _
  rw [returns_pure]
  exact h.randomRand.set (hinst.daoTimers _ _)

theorem AllSound.scheduleDao (i : ℕ) :
    Returns (s.scheduleDao cfg i) (AllSound cfg) := by
  unfold RplNode.scheduleDao
  cases hi : s.instanceTable i with
  | none => simpa using h
  | some inst =>
    have hinst : Sound cfg { inst with daoTimer := true } := (h i inst hi).daoTimers _ _
    refine Returns.ite (by simp [h]) ?_
    intro _
    refine Returns.ite (by simp [h]) ?_
    intro _
    exact (h.set hinst).setDaoLifetimeTimer hinst i

theorem AllSound.handleDaoTimer (i : ℕ) (lifetime linkLocal : Bool) :
    Returns (s.handleDaoTimer cfg i lifetime linkLocal) (AllSound cfg) := by
  unfold RplNode.handleDaoTimer
  cases hi : s.instanceTable i with
  | none => simpa using h
  | some inst =>
    have hstopped : ∀ daoTimer,
        Sound cfg { (if lifetime then { inst with daoLifetimeTimer := false } else inst) with
          daoTimer := daoTimer } := by
      intro daoTimer
      cases lifetime <;> exact (h i inst hi).daoTimers _ _
    refine Returns.ite ?_ ?_
    · intro _
      rw [returns_pure]
      exact h.set (hstopped true)
    · intro _
      have hset := h.set (i := i) (hstopped false)
      refine Returns.ite ?_ ?_
      · intro _
        rw [returns_pure]
        exact hset
      · intro _
        exact hset.setDaoLifetimeTimer (hstopped false) i

theorem AllSound.rplCancelDao (i : ℕ) : AllSound cfg (s.rplCancelDao i) := by
  unfold RplNode.rplCancelDao
  cases hi : s.instanceTable i with
  | none => exact h
  | some inst => exact h.set ((h i inst hi).daoTimers _ _)

theorem AllSound.rplSetMode (mode : RplMode) :
    Returns (s.rplSetMode cfg mode) (AllSound cfg) := by
  have hmode : AllSound cfg { s with mode := mode } := h
  unfold RplNode.rplSetMode
  split
  next _ =>
    rw [returns_pure]
    exact hmode
  next i _ =>
    cases mode with
    | mesh => exact hmode.scheduleDao i
    | feather =>
      rw [returns_pure]
      exact h.rplCancelDao i
    | leaf =>
      rw [returns_pure]
      exact hmode

end

/-! ## Parents and repairs -/

theorem AllSound.rplLocalRepair (h : AllSound cfg s) (i : ℕ) :
    Returns (s.rplLocalRepair cfg i) (AllSound cfg) := by
  unfold RplNode.rplLocalRepair
  cases hi : s.instanceTable i with
  | none => simpa using h
  | some inst => exact (h.set ((h i inst hi).dags _ _)).rplResetDioTimer i

theorem Sound.selectBest (h : Sound cfg inst) (selection : DagSelection) (best : UipIpaddr)
    (rank : BitVec 16) : Sound cfg (selectBest inst selection best rank) := by
  unfold RplNode.selectBest
  split
  · exact h.updateDag _ _
  · exact (((h.updateDag _ _).updateDag _ _).dags _ _).updateDag _ _

theorem AllSound.rplSelectDag (h : AllSound cfg s) (i : ℕ) (dagId : UipIpaddr)
    (selection : DagSelection) :
    Returns (s.rplSelectDag cfg i dagId selection) fun r => AllSound cfg r.2 := by
  unfold RplNode.rplSelectDag
  cases hi : s.instanceTable i with
  | none => simpa using h
  | some inst =>
    have hranked : Sound cfg (if inst.currentRank = inst.minHoprankinc then inst
        else inst.updateDag dagId fun dag => { dag with rank := selection.rank }) := by
      split
      · exact h i inst hi
      · exact (h i inst hi).updateDag _ _
    cases hbest : selection.best with
    | none =>
      simp only [returns_pure]
      exact h.set hranked
    | some choice =>
      have hselected := hranked.selectBest selection choice.1 choice.2.1
      refine (hselected.acceptableRank _ _).bind ?_
      intro acceptable _
      refine Returns.ite ?_ ?_
      · intro _
        refine Returns.ite ?_ ?_
        · intro _
          refine (rplSetDefaultRoute_returns _).bind ?_
          intro _ _
          refine ((h.set hselected).scheduleDao i).bind ?_
          intro t ht
          refine (ht.rplResetDioTimer i).bind ?_
          intro u hu
          rw [returns_pure]
          exact hu
        · intro _
          rw [returns_pure]
          exact h.set hselected
      · intro _
        rw [returns_pure]
        exact h.set hselected

theorem AllSound.rplProcessParentEvent (h : AllSound cfg s) (i : ℕ) (dagId : UipIpaddr)
    (event : ParentEvent) :
    Returns (s.rplProcessParentEvent cfg i dagId event) fun r => AllSound cfg r.2 := by
  unfold RplNode.rplProcessParentEvent
  cases hi : s.instanceTable i with
  | none => simpa using h
  | some inst =>
    refine ((h i inst hi).acceptableRank _ _).bind ?_
    intro acceptable _
    have hset : AllSound cfg (s.set i
        (if acceptable = false ∧ event.nullified then
          inst.updateDag dagId fun dag => { dag with rank := rplInfiniteRank }
        else inst)) := by
      apply h.set
      split
      · exact (h i inst hi).updateDag _ _
      · exact h i inst hi
    refine Returns.ite ?_ ?_
    · intro _
      rw [returns_pure]
      exact hset
    · intro _
      refine (hset.rplSelectDag i dagId event.selection).bind ?_
      intro r hr
      refine Returns.ite ?_ ?_
      · intro _
        refine (hr.rplLocalRepair i).bind ?_
        intro t ht
        rw [returns_pure]
        exact ht
      · intro _
        rw [returns_pure]
        exact hr

/-! ## Adopted configurations -/

section

variable (h : AllSound cfg s)

include h

theorem AllSound.rplJoinInstance
    (hfit : ctx.of = true → (s.rplAllocInstance cfg).isSome = true → ctx.parentAdded = true →
      JoinFits cfg dio) :
    Returns (s.rplJoinInstance cfg dio ctx) (AllSound cfg) := by
  refine Returns.ite (by simp [h]) ?_
  intro _
  refine Returns.ite (by simp [h]) ?_
  intro hof
  cases halloc : s.rplAllocInstance cfg with
  | none => simp [h]
  | some i =>
    refine Returns.ite (by simp [h]) ?_
    intro hparent
    have hjoin : JoinFits cfg dio := hfit (by simpa using hof) (by simp [halloc])
      (by simpa using hparent)
    have hexponent := hjoin.exponent
    have hcurrent : (dio.dagIntmin + dio.dagIntdoubl).toNat =
        dio.dagIntmin.toNat + dio.dagIntdoubl.toNat := by
      rw [BitVec.toNat_add, Nat.mod_eq_of_lt (by omega)]
    have hsound : Sound cfg
        { instanceId := dio.instanceId
          mop := dio.mop
          maxRankinc := dio.dagMaxRankinc
          minHoprankinc := dio.dagMinHoprankinc
          dioIntdoubl := dio.dagIntdoubl
          dioIntmin := dio.dagIntmin
          dioIntcurrent := dio.dagIntmin + dio.dagIntdoubl
          dioRedundancy := dio.dagRedund
          defaultLifetime := dio.defaultLifetime
          lifetimeUnit := dio.lifetimeUnit
          dioSend := false
          dioNextDelay := 0
          dioTimer := false
          daoTimer := false
          daoLifetimeTimer := false
          dags := [⟨dio.dagId, dio.version, true, ctx.rankViaParent, ctx.rankViaParent, 0⟩]
          currentDag := dio.dagId } := by
      refine ⟨hjoin.minHoprankinc, hexponent, by simpa [hcurrent] using hexponent, by simp, ?_,
        hjoin.lifetime⟩
      rintro (htimer | hlt)
      · simp at htimer
      · apply hjoin.ticks
        rintro hzero
        simp [hzero] at hlt
    have hset : AllSound cfg { s.set i _ with defaultInstance := some (s.defaultInstance.getD i) } :=
      h.set hsound
    refine (hset.rplResetDioTimer i).bind ?_
    intro t ht
    refine (rplSetDefaultRoute_returns _).bind ?_
    intro _ _
    refine Returns.ite (by simp [ht]) ?_
    intro _
    exact ht.scheduleDao i

theorem AllSound.rplAddDag (i : ℕ) (dio : RplDio) (ctx : DioContext) :
    Returns (s.rplAddDag cfg i dio ctx) fun r => AllSound cfg r.2 := by
  unfold RplNode.rplAddDag
  cases hi : s.instanceTable i with
  | none => simpa using h
  | some inst =>
    refine Returns.ite (by simp [h]) ?_
    intro _
    refine Returns.ite (by simp [h]) ?_
    intro _
    refine ((h.set ((h i inst hi).dags _ _)).rplProcessParentEvent i dio.dagId ctx.event).bind ?_
    intro r hr
    rw [returns_pure]
    exact hr

theorem AllSound.globalRepair (hi : s.instanceTable i = some inst)
    (hfit : RepairFits cfg inst dio) :
    Returns (s.globalRepair cfg i dio ctx) (AllSound cfg) := by
  have hinst : Sound cfg inst := h i inst hi
  simp only [RplNode.globalRepair, hi]
  have hset : ∀ f, AllSound cfg (s.set i
      (RplInstance.updateDag
        { inst with
          dioIntdoubl := dio.dagIntdoubl
          dioIntmin := dio.dagIntmin
          dioRedundancy := dio.dagRedund
          defaultLifetime := dio.defaultLifetime
          lifetimeUnit := dio.lifetimeUnit } dio.dagId f)) := by
    intro f
    apply h.set
    apply Sound.updateDag
    exact ⟨hinst.minHoprankinc, hfit.exponent, hinst.current, hinst.running, hfit.ticks,
      hfit.lifetime⟩
  refine Returns.ite ?_ ?_
  · intro _
    refine ((hset _).rplProcessParentEvent i dio.dagId ctx.event).bind ?_
    intro r hr
    rw [returns_pure]
    exact hr
  · intro _
    rw [returns_pure]
    exact hset _

theorem AllSound.noticeInfiniteRank (i : ℕ) (dio : RplDio)
    (ctx : DioContext) : Returns (s.noticeInfiniteRank cfg i dio ctx) (AllSound cfg) :=
  Returns.ite (fun _ => h.rplResetDioTimer i) (by simp [h])

theorem AllSound.refreshRoutes (i : ℕ) (inst : RplInstance)
    (ctx : DioContext) : Returns (s.refreshRoutes cfg i inst ctx) (AllSound cfg) :=
  Returns.ite (fun _ => h.scheduleDao i) (by simp [h])

theorem AllSound.processCandidate (i : ℕ) (dio : RplDio) (ctx : DioContext) :
    Returns (s.processCandidate cfg i dio ctx) (AllSound cfg) := by
  unfold RplNode.processCandidate
  cases hi : s.instanceTable i with
  | none => simpa using h
  | some inst =>
    have hinst : Sound cfg inst := h i inst hi
    refine ((Checked.returns_shl (P := fun _ => True) hinst.exponent).mpr trivial).bind ?_
    intro lifetime _
    have hset : AllSound cfg (s.set i (inst.updateDag dio.dagId fun dag =>
        { dag with lifetime := lifetime * 3 % 2 ^ 32 / 1000 })) :=
      h.set (hinst.updateDag _ _)
    refine Returns.ite (fun _ => returns_pure.mpr hset) ?_
    intro _
    refine (hset.noticeInfiniteRank i dio ctx).bind ?_
    intro t ht
    refine (ht.rplProcessParentEvent i dio.dagId ctx.event).bind ?_
    intro r hr
    refine Returns.ite (by simp [hr]) ?_
    intro _
    refine (hr.refreshRoutes i inst ctx).bind ?_
    intro u hu
    refine (rplSetDefaultRoute_returns _).bind ?_
    intro _ _
    rw [returns_pure]
    exact hu

theorem AllSound.addUnknownDag (i : ℕ) (inst : RplInstance) (dio : RplDio)
    (ctx : DioContext) :
    Returns (s.addUnknownDag cfg i inst dio ctx) fun r => AllSound cfg r.2 := by
  refine Returns.ite (by simp [h]) ?_
  intro _
  exact Returns.ite (by simp [h]) fun _ => h.rplAddDag i dio ctx

theorem AllSound.processKnown (i : ℕ) (inst : RplInstance) (dio : RplDio)
    (ctx : DioContext) : Returns (s.processKnown cfg i inst dio ctx) (AllSound cfg) := by
  refine Returns.ite (by simp [h]) ?_
  intro _
  refine (h.addUnknownDag i inst dio ctx).bind ?_
  intro r hr
  refine Returns.ite (by simp [hr]) ?_
  intro _
  exact Returns.ite (by simp [hr]) fun _ => hr.processCandidate i dio ctx

/-- **A DIO keeps the parameters sound** if what is adopted from it fits. -/
theorem AllSound.rplProcessDio (hfit : s.Computable cfg (.dio dio ctx)) :
    Returns (s.rplProcessDio cfg dio ctx) (AllSound cfg) := by
  obtain ⟨hjoin, hrepair⟩ := hfit
  refine Returns.ite (by simp [h]) ?_
  intro hmop
  have haccepts : acceptsMop cfg dio.mop = true := by simpa using hmop
  cases hget : s.rplGetInstance cfg dio.instanceId with
  | none =>
    refine Returns.ite ?_ (by simp [h])
    intro hnbr
    apply h.rplJoinInstance
    intro hof halloc hparent
    exact hjoin (by simp [joins, haccepts, hget, hnbr, hof, halloc, hparent])
  | some i =>
    cases hi : s.instanceTable i with
    | none => simp [hi, h]
    | some inst =>
      simp only [hi]
      cases hdag : inst.getDag dio.dagId with
      | none => exact h.processKnown i inst dio ctx
      | some dag =>
        refine Returns.ite ?_ ?_
        · intro hnewer
          refine Returns.ite ?_ ?_
          · intro _
            exact (h.set ((h i inst hi).updateDag _ _)).rplResetDioTimer i
          · intro hroot
            have hrepairs : s.repairs cfg dio = some inst := by
              simp [repairs, haccepts, hget, hi, hdag, hnewer, hroot]
            rw [hrepairs] at hrepair
            exact h.globalRepair hi hrepair
        · intro _
          refine Returns.ite ?_ ?_
          · intro _
            exact h.rplResetDioTimer i
          · intro _
            exact h.processKnown i inst dio ctx

end

/-! ## Runs -/

theorem AllSound.rplPurgeDags (h : AllSound cfg s) : AllSound cfg s.rplPurgeDags := by
  intro i inst hi
  simp only [RplNode.rplPurgeDags, Option.map_eq_some_iff] at hi
  obtain ⟨inst', hi', rfl⟩ := hi
  exact (h i inst' hi').dags _ _

theorem AllSound.daoLoop (h : AllSound cfg s) (i : ℕ) (parentRank dagRank : BitVec 16) :
    Returns (s.daoLoop i parentRank dagRank) (AllSound cfg) := by
  unfold RplNode.daoLoop
  cases hi : s.instanceTable i with
  | none => simpa using h
  | some inst =>
    have hinst : Sound cfg inst := h i inst hi
    refine (hinst.dagRank _).bind ?_
    intro _ _
    refine (hinst.dagRank _).bind ?_
    intro _ _
    rw [returns_pure]
    exact h

theorem returns_snd {α β : Type} {x : Checked (α × β)} {P : β → Prop}
    (h : Returns x fun r => P r.2) : Returns (Prod.snd <$> x) P := by
  obtain ⟨r, rfl, hr⟩ := h
  exact ⟨r.2, rfl, hr⟩

theorem AllSound.step {e : RplEvent} (h : AllSound cfg s) (he : s.Computable cfg e) :
    Returns (s.step cfg e) (AllSound cfg) := by
  cases e with
  | dio dio ctx => exact h.rplProcessDio he
  | dioTimer i linkLocal =>
    refine Returns.ite ?_ (by simp [h])
    intro htimer
    rw [Option.any_eq_true] at htimer
    obtain ⟨inst, hi, hrunning⟩ := htimer
    exact h.handleDioTimer hi hrunning linkLocal
  | daoTimer i linkLocal =>
    exact Returns.ite (fun _ => h.handleDaoTimer i false linkLocal) (by simp [h])
  | daoLifetimeTimer i linkLocal =>
    exact Returns.ite (fun _ => h.handleDaoTimer i true linkLocal) (by simp [h])
  | resetDioTimer i => exact h.rplResetDioTimer i
  | parentEvent i dagId event => exact returns_snd (h.rplProcessParentEvent i dagId event)
  | selectDag i dagId selection => exact returns_snd (h.rplSelectDag i dagId selection)
  | localRepair i => exact h.rplLocalRepair i
  | setMode mode => exact h.rplSetMode mode
  | purgeDags =>
    rw [RplNode.step, returns_pure]
    exact h.rplPurgeDags
  | dao i parentRank dagRank => exact h.daoLoop i parentRank dagRank

/-- **The arithmetic on stored parameters is well defined.** If every configuration that the node
adopts, by joining an instance or in a global repair, is one the arithmetic is defined for, then
no event of the run divides by zero, takes a remainder by zero, shifts by the width of a word
or more, or overflows in the computation of an interval; and the exponents stay below the width
of a word. -/
theorem rpl_arithmetic {es : List RplEvent}
    (h : Along (fun s e => (RplNode.step cfg s e).toOption) (Computable cfg) init es) :
    Returns (es.foldlM (RplNode.step cfg) init) InRange :=
  (foldlM_returns (AllSound cfg) (fun _ _ he hs => hs.step he) AllSound.init h).mono
    fun _ hs => hs.inRange

/-- A mote with 128 ticks a second, where all random values are the same. -/
def moteConfig (random : BitVec 16) : RplConfig where
  clockSecond := 128
  maxInstances := 1
  maxDagPerInstance := 2
  mopDefault := 2
  withMulticast := false
  defaultRouteInfiniteLifetime := false
  randomRand := fun _ => random

/-- A DIO with a configuration option. -/
def confDio (version : BitVec 8) (minHoprankinc : BitVec 16) (intmin intdoubl : BitVec 8)
    (lifetimeUnit : BitVec 16) : RplDio where
  dagId := UipSr.srAddr 1
  ocp := 1
  rank := 256
  grounded := 0
  mop := 2
  preference := 0
  version := version
  instanceId := 30
  dtsn := 240
  dagIntdoubl := intdoubl
  dagIntmin := intmin
  dagRedund := 0
  defaultLifetime := 30
  lifetimeUnit := lifetimeUnit
  dagMaxRankinc := 1792
  dagMinHoprankinc := minHoprankinc
  destinationPrefix := ⟨UipSr.srAddr 0, 0, 0, 0⟩
  prefixInfo := ⟨UipSr.srAddr 0, 0, 0, 0⟩
  mc := ⟨0, 0, 0, 0, 0, 0, 0, 0⟩
  hopDistance := 0

/-- The sender becomes the preferred parent. -/
def joinContext : DioContext where
  of := true
  sameOf := true
  nbrAdded := true
  parentAdded := true
  rankViaParent := 512
  fromPreferred := false
  event := ⟨512, false, false, ⟨512, some (UipSr.srAddr 1, 512, true), true⟩⟩
  preferredAfter := true
  refreshRoutes := true

/-- Join, a timer, a second DIO, a DAO and a global repair with a longer interval. -/
def joinAndRepair : List RplEvent :=
  [.dio (confDio 240 256 12 7 60) joinContext, .dioTimer 0 true, .dioTimer 0 true,
    .dio (confDio 240 256 12 7 60) joinContext, .dao 0 256 512, .daoLifetimeTimer 0 true,
    .dio (confDio 241 256 8 11 60) joinContext, .resetDioTimer 0]

theorem rpl_arithmetic_repair :
    Returns (joinAndRepair.foldlM (RplNode.step (moteConfig 65535)) init) InRange :=
  @rpl_arithmetic (moteConfig 65535) joinAndRepair (by decide +kernel)

/-- **A configuration is adopted as it comes**, and the first arithmetic on it fails: the division
by the rank increase, the shift by the exponent of the interval, its product with a random value,
and the remainder by a part of the lifetime. -/
theorem adopted_configuration_fails :
    faultOf (step (moteConfig 0) init (.dio (confDio 240 0 12 7 60) joinContext)) =
        some .divByZero ∧
      faultOf (step (moteConfig 0) init (.dio (confDio 240 256 32 1 60) joinContext)) =
        some .shiftTooWide ∧
      faultOf (step (moteConfig 65535) init (.dio (confDio 240 256 20 1 60) joinContext)) =
        some .overflow ∧
      faultOf (step (moteConfig 0) init (.dio (confDio 240 256 12 7 0) joinContext)) =
        some .divByZero := by
  decide +kernel

end RplNode

end Asap.Rpl
