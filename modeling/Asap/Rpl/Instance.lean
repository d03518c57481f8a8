import Asap.Lib.Checked
import Asap.Rpl.Dio
import Mathlib.Logic.Function.Basic

/-!
# An instance and its DAGs

The DIO through which a node joins an instance, or takes part in a global repair, brings the
parameters of the instance: the least rank increase that ranks are divided by, the exponents of
the Trickle interval, the lifetime of the node's routes. They are stored as they come, and other
functions divide by them, shift by them and take remainders.

Which parent and which DAG the objective function selects is an input of the events, with the
answers of the neighbor tables. A word has 32 bits.

## Main definitions

* `RplInstance`, `RplNode` — an instance with its parameters and DAGs, and the instances.
* `RplNode.rplProcessDio` — a DIO is worked off.
* `RplNode.step` — a DIO, a timer, or another event.
-/

namespace Asap.Rpl

open Asap.Lib Asap.Ipv6

/-- `rpl_dag_t`: what the arithmetic depends on. -/
structure RplDag where
  dagId : UipIpaddr
  version : BitVec 8
  joined : Bool
  rank : BitVec 16
  minRank : BitVec 16
  lifetime : ℕ

/-- `rpl_instance_t`, with the entries of its `dag_table` in use and which timers run. -/
structure RplInstance where
  instanceId : BitVec 8
  mop : BitVec 8
  maxRankinc : BitVec 16
  minHoprankinc : BitVec 16
  dioIntdoubl : BitVec 8
  dioIntmin : BitVec 8
  dioIntcurrent : BitVec 8
  dioRedundancy : BitVec 8
  defaultLifetime : BitVec 8
  lifetimeUnit : BitVec 16
  dioSend : Bool
  dioNextDelay : ℕ
  dioTimer : Bool
  daoTimer : Bool
  daoLifetimeTimer : Bool
  dags : List RplDag
  currentDag : UipIpaddr

/-- The compile-time configuration, and the values that `random_rand` is going to give. -/
structure RplConfig where
  clockSecond : ℕ
  maxInstances : ℕ
  maxDagPerInstance : ℕ
  mopDefault : BitVec 8
  withMulticast : Bool
  defaultRouteInfiniteLifetime : Bool
  randomRand : ℕ → BitVec 16

/-- `RPL_WITH_STORING` -/
def RplConfig.withStoring (cfg : RplConfig) : Bool := cfg.mopDefault ≠ 1

/-- `RPL_WITH_NON_STORING` -/
def RplConfig.withNonStoring (cfg : RplConfig) : Bool := cfg.mopDefault = 1

/-- `enum rpl_mode` -/
inductive RplMode where
  | mesh
  | feather
  | leaf
deriving DecidableEq, Repr

/-- The node: `instance_table`, and how many random values were drawn. -/
structure RplNode where
  instanceTable : ℕ → Option RplInstance
  defaultInstance : Option ℕ
  mode : RplMode
  dioSendOk : Bool
  randomIndex : ℕ

/-- What the objective function and the parent table decide when a DAG is selected: the rank of
the DAG the parent is of, and the best DAG with its rank and whether its parent is another. -/
structure DagSelection where
  rank : BitVec 16
  best : Option (UipIpaddr × BitVec 16 × Bool)
  hadParent : Bool

/-- What is decided when a parent has changed. -/
structure ParentEvent where
  rankViaParent : BitVec 16
  nullified : Bool
  stillPreferred : Bool
  selection : DagSelection

/-- What a DIO finds: an objective function, which may be that of the instance, room in the
neighbor table, a parent entry for the sender. The sender may be the preferred parent before
and after the parent event, and ask for DAOs. -/
structure DioContext where
  of : Bool
  sameOf : Bool
  nbrAdded : Bool
  parentAdded : Bool
  rankViaParent : BitVec 16
  fromPreferred : Bool
  event : ParentEvent
  preferredAfter : Bool
  refreshRoutes : Bool

namespace RplInstance

section

variable (inst : RplInstance)

/-- The entry of `dag_table` with an identifier. -/
def getDag (dagId : UipIpaddr) : Option RplDag :=
  inst.dags.find? fun dag => dag.dagId = dagId

/-- Change the DAG with an identifier. -/
def updateDag (dagId : UipIpaddr) (f : RplDag → RplDag) : RplInstance :=
  { inst with dags := inst.dags.map fun dag => if dag.dagId = dagId then f dag else dag }

/-- The rank of the current DAG. -/
def currentRank : BitVec 16 :=
  ((inst.getDag inst.currentDag).map RplDag.rank).getD rplInfiniteRank

/-- `DAG_RANK` -/
def dagRank (fixptRank : ℕ) : Checked ℕ :=
  Checked.div fixptRank inst.minHoprankinc.toNat

/-- `RPL_LIFETIME`, where zero stands for no limit -/
def rplLifetime (lifetime : BitVec 8) : Checked ℕ :=
  if lifetime = rplInfiniteLifetime then pure 0
  else Checked.mul 32 inst.lifetimeUnit.toNat lifetime.toNat

/-- `acceptable_rank` -/
def acceptableRank (minRank rank : BitVec 16) : Checked Bool :=
  if rank = rplInfiniteRank then pure false
  else if inst.maxRankinc = 0 then pure true
  else do
    let r ← inst.dagRank rank.toNat
    let bound ← inst.dagRank (minRank.toNat + inst.maxRankinc.toNat)
    return r ≤ bound

end

end RplInstance

namespace RplNode

/-- The state of a node that has just started. -/
def init : RplNode where
  instanceTable := fun _ => none
  defaultInstance := none
  mode := .mesh
  dioSendOk := false
  randomIndex := 0

/-- Store an instance in its entry of the table. -/
def set (s : RplNode) (i : ℕ) (inst : RplInstance) : RplNode :=
  { s with instanceTable := Function.update s.instanceTable i (some inst) }

section

variable (cfg : RplConfig) (s : RplNode)

/-- `random_rand` -/
def randomRand : BitVec 16 × RplNode :=
  (cfg.randomRand s.randomIndex, { s with randomIndex := s.randomIndex + 1 })

/-- `rpl_get_instance` -/
def rplGetInstance (instanceId : BitVec 8) : Option ℕ :=
  (List.range cfg.maxInstances).find? fun i =>
    ((s.instanceTable i).map fun inst => inst.instanceId == instanceId).getD false

/-- `rpl_get_any_dag`: the current DAG of an instance is a joined one. -/
def rplGetAnyDag : Option RplInstance :=
  (List.range cfg.maxInstances).findSome? s.instanceTable

end

/-! ## Timers -/

section

variable (cfg : RplConfig) (s : RplNode)

/-- `tsch_rpl_callback_new_dio_interval`, the rank it computes -/
def tschRplCallbackNewDioInterval : Checked ℕ :=
  match s.rplGetAnyDag cfg with
  | none => pure 0
  | some inst => inst.dagRank inst.currentRank.toNat

/-- `new_dio_interval` -/
def newDioInterval (i : ℕ) (inst : RplInstance) :
    Checked RplNode := do
  let time ← Checked.shl 32 inst.dioIntcurrent.toNat
  let product ← Checked.mul 32 time cfg.clockSecond
  let ticks := product / 1000
  -- a random number between I/2 and I
  let (random, s) := s.randomRand cfg
  let jitter ← Checked.mul 32 (ticks / 2) random.toNat
  let delay := ticks / 2 + jitter / 65535
  let s := s.set i
    { inst with dioNextDelay := ticks - delay, dioSend := true, dioTimer := true }
  -- the argument of the callback is computed again, from the seconds
  let factor ← Checked.shl 32 inst.dioIntcurrent.toNat
  let _ ← Checked.mul 32 cfg.clockSecond factor
  let _ ← s.tschRplCallbackNewDioInterval cfg
  return s

/-- `rpl_reset_dio_timer` -/
def rplResetDioTimer (i : ℕ) : Checked RplNode :=
  match s.instanceTable i with
  | none => pure s
  | some inst =>
    if inst.dioIntmin.toNat < inst.dioIntcurrent.toNat then
      s.newDioInterval cfg i { inst with dioIntcurrent := inst.dioIntmin }
    else pure s

/-- `handle_dio_timer` -/
def handleDioTimer (i : ℕ) (linkLocal : Bool) :
    Checked RplNode :=
  match s.instanceTable i with
  | none => pure s
  | some inst =>
    if s.dioSendOk = false ∧ linkLocal = false then pure s
    else
      let s := { s with dioSendOk := true }
      if inst.dioSend then pure (s.set i { inst with dioSend := false })
      else if inst.dioIntcurrent.toNat < inst.dioIntmin.toNat + inst.dioIntdoubl.toNat then
        s.newDioInterval cfg i { inst with dioIntcurrent := inst.dioIntcurrent + 1 }
      else s.newDioInterval cfg i inst

/-- `set_dao_lifetime_timer`; the products wrap around as the code has them. -/
def setDaoLifetimeTimer (i : ℕ) (inst : RplInstance) :
    Checked RplNode :=
  if s.mode = .feather then pure s
  else if inst.defaultLifetime = rplInfiniteLifetime then pure s
  else do
    let expirationTime :=
      inst.defaultLifetime.toNat * inst.lifetimeUnit.toNat * cfg.clockSecond % 2 ^ 32 / 2
    let (random, s) := s.randomRand cfg
    -- between 1/2 and 3/4 of the lifetime
    let _ ← Checked.rem random.toNat (expirationTime / 2)
    return s.set i { inst with daoLifetimeTimer := true }

/-- `schedule_dao` -/
def scheduleDao (i : ℕ) : Checked RplNode :=
  match s.instanceTable i with
  | none => pure s
  | some inst =>
    if s.mode = .feather then pure s
    else if inst.daoTimer then pure s
    else (s.set i { inst with daoTimer := true }).setDaoLifetimeTimer cfg i
      { inst with daoTimer := true }

/-- `handle_dao_timer`, as the handler of the DAO timer or of the lifetime timer, which is then
not running any more -/
def handleDaoTimer (i : ℕ) (lifetime linkLocal : Bool) :
    Checked RplNode :=
  match s.instanceTable i with
  | none => pure s
  | some inst =>
    let inst := if lifetime then { inst with daoLifetimeTimer := false } else inst
    if s.dioSendOk = false ∧ linkLocal = false then
      pure (s.set i { inst with daoTimer := true })
    else
      let inst := { inst with daoTimer := false }
      let s := s.set i inst
      if inst.daoLifetimeTimer then pure s else s.setDaoLifetimeTimer cfg i inst

end

/-- `rpl_cancel_dao` -/
def rplCancelDao (s : RplNode) (i : ℕ) : RplNode :=
  match s.instanceTable i with
  | none => s
  | some inst => s.set i { inst with daoTimer := false, daoLifetimeTimer := false }

/-- `rpl_set_mode` -/
def rplSetMode (cfg : RplConfig) (s : RplNode) (mode : RplMode) : Checked RplNode :=
  match s.defaultInstance with
  | none => pure { s with mode := mode }
  | some i =>
    match mode with
    | .mesh => { s with mode := mode }.scheduleDao cfg i
    | .feather => pure { s.rplCancelDao i with mode := mode }
    | .leaf => pure { s with mode := mode }

/-! ## Parents -/

/-- `rpl_set_default_route`, the lifetime it computes -/
def rplSetDefaultRoute (cfg : RplConfig) (inst : RplInstance) : Checked ℕ :=
  if cfg.defaultRouteInfiniteLifetime then pure 0 else inst.rplLifetime inst.defaultLifetime

/-- `rpl_local_repair` -/
def rplLocalRepair (cfg : RplConfig) (s : RplNode) (i : ℕ) : Checked RplNode :=
  match s.instanceTable i with
  | none => pure s
  | some inst =>
    (s.set i
      { inst with dags := inst.dags.map fun dag => { dag with rank := rplInfiniteRank } }
    ).rplResetDioTimer cfg i

/-- The ranks after the best DAG is selected, which is the current one then. -/
def selectBest (inst : RplInstance) (selection : DagSelection) (best : UipIpaddr)
    (rank : BitVec 16) : RplInstance :=
  let inst :=
    if inst.currentDag = best then inst
    else
      { (inst.updateDag inst.currentDag fun dag => { dag with joined := false }).updateDag best
          fun dag => { dag with joined := true } with currentDag := best }
  inst.updateDag best fun dag =>
    { dag with
      rank := rank
      minRank := if selection.hadParent = false ∨ rank < dag.minRank then rank else dag.minRank }

/-- `rpl_select_dag` for a parent of the DAG: whether a DAG was found, and the node. -/
def rplSelectDag (cfg : RplConfig) (s : RplNode) (i : ℕ) (dagId : UipIpaddr)
    (selection : DagSelection) : Checked (Bool × RplNode) :=
  match s.instanceTable i with
  | none => pure (false, s)
  | some inst =>
    let inst :=
      if inst.currentRank = inst.minHoprankinc then inst
      else inst.updateDag dagId fun dag => { dag with rank := selection.rank }
    match selection.best with
    | none => pure (false, s.set i inst)
    | some (best, rank, changed) => do
      let inst := selectBest inst selection best rank
      let minRank := ((inst.getDag best).map RplDag.minRank).getD rank
      let acceptable ← inst.acceptableRank minRank rank
      if acceptable then
        if changed then
          let _ ← rplSetDefaultRoute cfg inst
          let s ← (s.set i inst).scheduleDao cfg i
          let s ← s.rplResetDioTimer cfg i
          return (true, s)
        else return (true, s.set i inst)
      else return (false, s.set i inst)

/-- `rpl_process_parent_event` for a parent of the DAG: whether the parent is kept, and the
node. -/
def rplProcessParentEvent (cfg : RplConfig) (s : RplNode) (i : ℕ) (dagId : UipIpaddr)
    (event : ParentEvent) : Checked (Bool × RplNode) :=
  match s.instanceTable i with
  | none => pure (false, s)
  | some inst => do
    let minRank := ((inst.getDag dagId).map RplDag.minRank).getD rplInfiniteRank
    let acceptable ← inst.acceptableRank minRank event.rankViaParent
    let nullified :=
      if acceptable = false ∧ event.nullified then
        inst.updateDag dagId fun dag => { dag with rank := rplInfiniteRank }
      else inst
    let s := s.set i nullified
    if acceptable = false ∧ event.stillPreferred = false then return (false, s)
    let (found, s) ← s.rplSelectDag cfg i dagId event.selection
    if found = false ∧ event.selection.hadParent then
      let s ← s.rplLocalRepair cfg i
      return (false, s)
    else return (acceptable, s)

/-! ## DIOs -/

section

variable (cfg : RplConfig) (s : RplNode)

/-- `rpl_alloc_instance`, the entry it takes -/
def rplAllocInstance : Option ℕ :=
  (List.range cfg.maxInstances).find? fun i => (s.instanceTable i).isNone

/-- `rpl_join_instance`. The entry of the table is free again if the parent cannot be added. -/
def rplJoinInstance (dio : RplDio) (ctx : DioContext) :
    Checked RplNode :=
  if (cfg.withNonStoring = false ∧ dio.mop = 1) ∨
      (cfg.withStoring = false ∧ (dio.mop = 2 ∨ dio.mop = 3)) then pure s
  else if ctx.of = false then pure s
  else
    match s.rplAllocInstance cfg with
    | none => pure s
    | some i =>
      if ctx.parentAdded = false then pure s
      else do
        let inst : RplInstance :=
          { instanceId := dio.instanceId
            mop := dio.mop
            maxRankinc := dio.dagMaxRankinc
            minHoprankinc := dio.dagMinHoprankinc
            dioIntdoubl := dio.dagIntdoubl
            dioIntmin := dio.dagIntmin
            dioIntcurrent := dio.dagIntmin + dio.dagIntdoubl
            dioRedundancy := dio.dagRedund
            defaultLifetime := dio.defaultLifetime
            lifetimeUnit := dio.lifetimeUnit
            dioSend := false
            dioNextDelay := 0
            dioTimer := false
            daoTimer := false
            daoLifetimeTimer := false
            dags := [⟨dio.dagId, dio.version, true, ctx.rankViaParent, ctx.rankViaParent, 0⟩]
            currentDag := dio.dagId }
        let s := { s.set i inst with defaultInstance := some (s.defaultInstance.getD i) }
        let s ← s.rplResetDioTimer cfg i
        let _ ← rplSetDefaultRoute cfg inst
        if dio.mop = 0 then return s else s.scheduleDao cfg i

section

variable (i : ℕ) (dio : RplDio) (ctx : DioContext)

/-- `rpl_add_dag`: the instance has the configuration of the DIO already, or the DAG is not
added. Whether it is, and the node. -/
def rplAddDag :
    Checked (Bool × RplNode) :=
  match s.instanceTable i with
  | none => pure (false, s)
  | some inst =>
    if cfg.maxDagPerInstance ≤ inst.dags.length ∨ ctx.parentAdded = false then pure (false, s)
    else if ctx.sameOf = false ∨ inst.mop ≠ dio.mop ∨ inst.maxRankinc ≠ dio.dagMaxRankinc ∨
        inst.minHoprankinc ≠ dio.dagMinHoprankinc ∨ inst.dioIntdoubl ≠ dio.dagIntdoubl ∨
        inst.dioIntmin ≠ dio.dagIntmin ∨ inst.dioRedundancy ≠ dio.dagRedund ∨
        inst.defaultLifetime ≠ dio.defaultLifetime ∨ inst.lifetimeUnit ≠ dio.lifetimeUnit then
      pure (false, s)
    else do
      let dag : RplDag := ⟨dio.dagId, dio.version, false, ctx.rankViaParent, ctx.rankViaParent, 0⟩
      let s := s.set i { inst with dags := inst.dags ++ [dag] }
      let (_, s) ← s.rplProcessParentEvent cfg i dio.dagId ctx.event
      return (true, s)

/-- `global_repair` copies parts of the configuration. -/
def globalRepair :
    Checked RplNode :=
  match s.instanceTable i with
  | none => pure s
  | some inst => do
    let rank := if ctx.parentAdded then ctx.rankViaParent else rplInfiniteRank
    let repaired : RplInstance :=
      { inst with
        dioIntdoubl := dio.dagIntdoubl
        dioIntmin := dio.dagIntmin
        dioRedundancy := dio.dagRedund
        defaultLifetime := dio.defaultLifetime
        lifetimeUnit := dio.lifetimeUnit }
    let s := s.set i (repaired.updateDag dio.dagId fun dag =>
      { dag with version := dio.version, rank := rank, minRank := rank })
    if ctx.parentAdded then
      let (_, s) ← s.rplProcessParentEvent cfg i dio.dagId ctx.event
      return s
    else return s

/-- The preferred parent has an infinite rank now. -/
def noticeInfiniteRank :
    Checked RplNode :=
  if dio.rank = rplInfiniteRank ∧ ctx.fromPreferred then s.rplResetDioTimer cfg i else pure s

end

/-- The preferred parent asks for a DAO, `should_refresh_routes`. -/
def refreshRoutes (i : ℕ) (inst : RplInstance) (ctx : DioContext) :
    Checked RplNode :=
  if ctx.refreshRoutes ∧ inst.mop ≠ 0 then s.scheduleDao cfg i else pure s

/-- The last part of `rpl_process_dio`: the sender is a candidate parent of a DAG of the
instance. -/
def processCandidate (i : ℕ) (dio : RplDio) (ctx : DioContext) :
    Checked RplNode :=
  match s.instanceTable i with
  | none => pure s
  | some inst => do
    let exponent := inst.dioIntmin.toNat + inst.dioIntdoubl.toNat
    let lifetime ← Checked.shl 32 exponent
    let s := s.set i (inst.updateDag dio.dagId fun dag =>
      { dag with lifetime := lifetime * 3 % 2 ^ 32 / 1000 })
    if ctx.parentAdded = false then return s
    let s ← s.noticeInfiniteRank cfg i dio ctx
    let (kept, s) ← s.rplProcessParentEvent cfg i dio.dagId ctx.event
    if kept = false ∨ ctx.preferredAfter = false then return s
    let s ← s.refreshRoutes cfg i inst ctx
    let _ ← rplSetDefaultRoute cfg inst
    return s

end

/-- The rank of a DAG of the instance. -/
def rankOf (s : RplNode) (i : ℕ) (dagId : UipIpaddr) : Option (BitVec 16) :=
  ((s.instanceTable i).bind fun inst => inst.getDag dagId).map RplDag.rank

/-- Whether the DAG is known or was added. -/
def addUnknownDag (cfg : RplConfig) (s : RplNode) (i : ℕ) (inst : RplInstance) (dio : RplDio)
    (ctx : DioContext) : Checked (Bool × RplNode) :=
  if (inst.getDag dio.dagId).isSome then pure (true, s)
  else if cfg.maxDagPerInstance ≤ 1 ∨ ctx.nbrAdded = false then pure (false, s)
  else s.rplAddDag cfg i dio ctx

/-- `rpl_process_dio` for a DIO whose version is not newer than that of the DAG, from the check
of the root on -/
def processKnown (cfg : RplConfig) (s : RplNode) (i : ℕ) (inst : RplInstance) (dio : RplDio)
    (ctx : DioContext) : Checked RplNode := do
  if inst.currentRank = inst.minHoprankinc ∧ inst.currentDag ≠ dio.dagId then return s
  let (found, s) ← s.addUnknownDag cfg i inst dio ctx
  if found = false ∨ dio.rank < inst.minHoprankinc ∨ ctx.nbrAdded = false then return s
  if s.rankOf i dio.dagId = some inst.minHoprankinc then return s
  s.processCandidate cfg i dio ctx

/-- A DIO with this mode of operation is looked at: with multicast any storing mode, otherwise
the node's own. -/
def acceptsMop (cfg : RplConfig) (mop : BitVec 8) : Bool :=
  if cfg.withMulticast then decide (2 ≤ mop) else decide (mop = cfg.mopDefault)

/-- `rpl_process_dio` -/
def rplProcessDio (cfg : RplConfig) (s : RplNode) (dio : RplDio) (ctx : DioContext) :
    Checked RplNode :=
  if acceptsMop cfg dio.mop = false then pure s
  else
    match s.rplGetInstance cfg dio.instanceId with
    | none => if ctx.nbrAdded then s.rplJoinInstance cfg dio ctx else pure s
    | some i =>
      match s.instanceTable i with
      | none => pure s
      | some inst =>
        match inst.getDag dio.dagId with
        | none => s.processKnown cfg i inst dio ctx
        | some dag =>
          if lollipopGreaterThan dio.version dag.version then
            if dag.rank = inst.minHoprankinc then
              (s.set i (inst.updateDag dio.dagId fun dag =>
                { dag with version := rplLollipopIncrement dio.version })).rplResetDioTimer cfg i
            else s.globalRepair cfg i dio ctx
          else if lollipopGreaterThan dag.version dio.version ∧ dag.joined then
            s.rplResetDioTimer cfg i
          else s.processKnown cfg i inst dio ctx

/-- `rpl_purge_dags`, in one instance -/
def purgeDags (inst : RplInstance) : RplInstance :=
  { inst with
    dags := (inst.dags.filter fun dag => dag.lifetime ≠ 0 ∨ dag.joined).map fun dag =>
      { dag with lifetime := dag.lifetime - 1 } }

/-- `rpl_purge_dags` -/
def rplPurgeDags (s : RplNode) : RplNode :=
  { s with instanceTable := fun i => (s.instanceTable i).map purgeDags }

/-- The loop check of `dao_input_storing`: the rank of the parent that sent the DAO against that
of the DAG. -/
def daoLoop (s : RplNode) (i : ℕ) (parentRank dagRank : BitVec 16) : Checked RplNode :=
  match s.instanceTable i with
  | none => pure s
  | some inst => do
    let _ ← inst.dagRank parentRank.toNat
    let _ ← inst.dagRank dagRank.toNat
    return s

end RplNode

/-- What happens to a node that is not a root. A DIS, a forwarding error and a loop reset the
Trickle timer, a rank error selects a parent, and the ranks are recalculated from time to
time. -/
inductive RplEvent where
  | dio (dio : RplDio) (ctx : DioContext)
  | dioTimer (i : ℕ) (linkLocal : Bool)
  | daoTimer (i : ℕ) (linkLocal : Bool)
  | daoLifetimeTimer (i : ℕ) (linkLocal : Bool)
  | resetDioTimer (i : ℕ)
  | parentEvent (i : ℕ) (dagId : UipIpaddr) (event : ParentEvent)
  | selectDag (i : ℕ) (dagId : UipIpaddr) (selection : DagSelection)
  | localRepair (i : ℕ)
  | setMode (mode : RplMode)
  | purgeDags
  | dao (i : ℕ) (parentRank dagRank : BitVec 16)

namespace RplNode

/-- One event. A timer that does not run does nothing. -/
def step (cfg : RplConfig) (s : RplNode) : RplEvent → Checked RplNode
  | .dio dio ctx => s.rplProcessDio cfg dio ctx
  | .dioTimer i linkLocal =>
    if (s.instanceTable i).any RplInstance.dioTimer then s.handleDioTimer cfg i linkLocal
    else pure s
  | .daoTimer i linkLocal =>
    if (s.instanceTable i).any RplInstance.daoTimer then s.handleDaoTimer cfg i false linkLocal
    else pure s
  | .daoLifetimeTimer i linkLocal =>
    if (s.instanceTable i).any RplInstance.daoLifetimeTimer then
      s.handleDaoTimer cfg i true linkLocal
    else pure s
  | .resetDioTimer i => s.rplResetDioTimer cfg i
  | .parentEvent i dagId event => Prod.snd <$> s.rplProcessParentEvent cfg i dagId event
  | .selectDag i dagId selection => Prod.snd <$> s.rplSelectDag cfg i dagId selection
  | .localRepair i => s.rplLocalRepair cfg i
  | .setMode mode => s.rplSetMode cfg mode
  | .purgeDags => pure s.rplPurgeDags
  | .dao i parentRank dagRank => s.daoLoop i parentRank dagRank

end RplNode

end Asap.Rpl
