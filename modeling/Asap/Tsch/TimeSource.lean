import Asap.Lib.Run
import Asap.Tsch.NbrTable
import Asap.Tsch.Schedule

/-!
# The time source

Which neighbor a node takes its time from is a flag of the neighbor's entry. The entries
are the items of one table of neighbors, and the flag is set by the update of the time
source only, which clears that of the old one.

The entries of TSCH are locked, and the additions of TSCH itself remove no locked entry.
So the old time source is still listed when the entry of the new one is made, and the
two are different entries unless it is one neighbor. An addition to another table may
remove the time source; then there is none until the next update.

Callbacks of packets that a reset flushes are not called here; what they do to the
entries is an event before or after it. Neither are those of other tables for an entry
that is removed.

## Main definitions

* `TschNeighbors` — the tables, the entries of TSCH, and the last update.
* `NbrEvent`, `TschNeighbors.step` — the operations of TSCH and of the other tables.
* `TschNeighbors.Inv` — a flagged entry is that of the last update.
* `time_source_unique` — uniqueness, in every state of every run.
-/

namespace Asap.Tsch

open Asap.Lib NbrTables

/-- The build, with the index of the table `tsch_neighbors`. -/
structure TschNeighborsConfig where
  nbrTable : NbrTableConfig
  schedule : ScheduleConfig
  table : ℕ
  table_lt : table < 8

/-- The tables of neighbors with the entries of TSCH. -/
structure TschNeighbors where
  tables : NbrTables
  /-- the array of `tsch_neighbors` -/
  nbr : ℕ → TschNeighbor
  tschLocked : Bool
  tschIsCoordinator : Bool
  nEb : Option ℕ
  /-- the neighbor of the last successful update of the time source -/
  updated : Option LinkAddr

namespace TschNeighbor

/-- `tsch_queue_flush_nbr_queue`, without the callbacks: a packet is removed as long as
there is one. -/
def flushNbrQueue (n : TschNeighbor) : TschNeighbor :=
  (fun n => n.removePacketFromQueue.1)^[n.tx.ringbuf.elements] n

@[simp] theorem flushNbrQueue_isTimeSource (n : TschNeighbor) :
    n.flushNbrQueue.isTimeSource = n.isTimeSource := by
  simp only [flushNbrQueue]
  generalize n.tx.ringbuf.elements = k
  induction k generalizing n with
  | zero => rfl
  | succ k ih => exact ih n.removePacketFromQueue.1

@[simp] theorem backoffReset_isTimeSource (n : TschNeighbor) :
    n.backoffReset.isTimeSource = n.isTimeSource := rfl

end TschNeighbor

namespace TschNeighbors

variable {cfg : TschNeighborsConfig} {s s' t : TschNeighbors} {i j : ℕ} {addr : LinkAddr}

/-- The entries of TSCH, in the order of `nbr_table_head` and `nbr_table_next`. -/
def items (cfg : TschNeighborsConfig) (s : TschNeighbors) : List ℕ := s.tables.items cfg.table

/-- Change one entry. -/
def setNbr (s : TschNeighbors) (i : ℕ) (n : TschNeighbor) : TschNeighbors :=
  { s with nbr := Function.update s.nbr i n }

/-! ## The operations -/

section

variable (cfg : TschNeighborsConfig) (s : TschNeighbors)

/-- `tsch_queue_get_nbr` -/
def tschQueueGetNbr (addr : LinkAddr) : Option ℕ :=
  if s.tschLocked then none else s.tables.nbrTableGetFromLladdr cfg.table addr

/-- `tsch_queue_add_nbr` -/
def tschQueueAddNbr (addr : LinkAddr) :
    Option ℕ × TschNeighbors :=
  match s.tschQueueGetNbr cfg addr with
  | some i => (some i, s)
  | none =>
    if s.tschLocked then (none, s)
    else
      match s.tables.nbrTableAddLladdr cfg.nbrTable cfg.table addr .mac none with
      | none => (none, s)
      | some (i, tables) =>
        (some i, { s with tables := tables.setLocked cfg.table i true }.setNbr i
          (.new cfg.schedule addr))

/-- `tsch_queue_get_time_source` -/
def tschQueueGetTimeSource : Option ℕ :=
  if s.tschLocked then none else (s.items cfg).find? fun i => (s.nbr i).isTimeSource

end

/-- Write the flag of an entry, if there is one. -/
def setTimeSource (s : TschNeighbors) (i : Option ℕ) (value : Bool) : TschNeighbors :=
  match i with
  | none => s
  | some i => s.setNbr i { s.nbr i with isTimeSource := value }

/-- The end of `tsch_queue_update_time_source`: the flag moves to the new entry. -/
def moveTimeSource (s : TschNeighbors) (oldTimeSrc newTimeSrc : Option ℕ) : TschNeighbors :=
  if newTimeSrc ≠ oldTimeSrc then (s.setTimeSource newTimeSrc true).setTimeSource oldTimeSrc false
  else s

section

variable (cfg : TschNeighborsConfig) (s : TschNeighbors)

/-- `tsch_queue_update_time_source`: its result, and the entries after it. -/
def tschQueueUpdateTimeSource (newAddr : Option LinkAddr) : Bool × TschNeighbors :=
  if s.tschLocked then (false, s)
  else if s.tschIsCoordinator then (false, s)
  else
    let oldTimeSrc := s.tschQueueGetTimeSource cfg
    match newAddr with
    | none => (true, { s.moveTimeSource oldTimeSrc none with updated := none })
    | some addr =>
      match s.tschQueueAddNbr cfg addr with
      | (none, s) => (false, s)
      | (some new, s) =>
        (true, { s.moveTimeSource oldTimeSrc (some new) with updated := some addr })

/-- `tsch_queue_remove_nbr` -/
def tschQueueRemoveNbr (i : ℕ) : TschNeighbors :=
  if s.tschLocked then s
  else { s with tables := s.tables.nbrTableRemove cfg.table i }.setNbr i (s.nbr i).flushNbrQueue

/-- `tsch_queue_free_unused_neighbors` -/
def tschQueueFreeUnusedNeighbors :
    TschNeighbors :=
  if s.tschLocked then s
  else (s.items cfg).foldl
    (fun s i => if (s.nbr i).unused then s.tschQueueRemoveNbr cfg i else s) s

end

/-- One round of `tsch_queue_reset`. -/
def resetNbr (s : TschNeighbors) (i : ℕ) : TschNeighbors :=
  s.setNbr i (s.nbr i).flushNbrQueue.backoffReset

section

variable (cfg : TschNeighborsConfig)

/-- `tsch_queue_reset` -/
def tschQueueReset (s : TschNeighbors) : TschNeighbors :=
  if s.tschLocked then s else (s.items cfg).foldl resetNbr s

/-- `tsch_queue_reset_except_n_eb` -/
def tschQueueResetExceptNEb (s : TschNeighbors) : TschNeighbors :=
  if s.tschLocked then s
  else (s.items cfg).foldl (fun s i => if s.nEb = some i then s else s.resetNbr i) s

/-- No neighbor at all. -/
def empty : TschNeighbors where
  tables := .init
  nbr := fun _ => .new cfg.schedule 0
  tschLocked := false
  tschIsCoordinator := false
  nEb := none
  updated := none

/-- `tsch_queue_init`, when no table has any neighbor yet. -/
def init : TschNeighbors :=
  let (nEb, s) := (empty cfg).tschQueueAddNbr cfg tschEbAddress
  { (s.tschQueueAddNbr cfg tschBroadcastAddress).2 with nEb := nEb }

end

end TschNeighbors

/-- The operations on the entries of TSCH, and those of other tables. -/
inductive NbrEvent where
  | addNbr (addr : LinkAddr)
  | updateTimeSource (newAddr : Option LinkAddr)
  | freeUnusedNeighbors
  | reset
  | resetExceptNEb
  | setCoordinator (enable : Bool)
  /-- the queue, the backoff and the link counters of an entry change -/
  | use (addr : LinkAddr) (n : TschNeighbor)
  | otherAdd (table : ℕ) (addr : LinkAddr) (reason : NbrTableReason) (candidate : Option LinkAddr)
  | otherRemove (table i : ℕ)
  | otherLock (table i : ℕ) (value : Bool)

namespace TschNeighbors

variable {cfg : TschNeighborsConfig} {s s' t : TschNeighbors} {i j : ℕ} {addr : LinkAddr}

/-- The entries after an event; an event of another table names a table of its own. -/
def step (cfg : TschNeighborsConfig) (s : TschNeighbors) : NbrEvent → Option TschNeighbors
  | .addNbr addr => some (s.tschQueueAddNbr cfg addr).2
  | .updateTimeSource newAddr => some (s.tschQueueUpdateTimeSource cfg newAddr).2
  | .freeUnusedNeighbors => some (s.tschQueueFreeUnusedNeighbors cfg)
  | .reset => some (s.tschQueueReset cfg)
  | .resetExceptNEb => some (s.tschQueueResetExceptNEb cfg)
  | .setCoordinator enable => some { s with tschIsCoordinator := enable }
  | .use addr n =>
    match s.tschQueueGetNbr cfg addr with
    | none => some s
    | some i => some (s.setNbr i
        { n with isTimeSource := (s.nbr i).isTimeSource, isBroadcast := (s.nbr i).isBroadcast })
  | .otherAdd table addr reason candidate =>
    if table = cfg.table then none
    else
      match s.tables.nbrTableAddLladdr cfg.nbrTable table addr reason candidate with
      | none => some s
      | some (_, tables) => some { s with tables := tables }
  | .otherRemove table i =>
    if table = cfg.table then none
    else some { s with tables := s.tables.nbrTableRemove table i }
  | .otherLock table i value =>
    if table = cfg.table then none
    else some { s with tables := s.tables.setLocked table i value }

/-- The event does not make another table take the place of the time source. -/
def KeepsTimeSource (cfg : TschNeighborsConfig) (s : TschNeighbors) : NbrEvent → Prop
  | .otherAdd _ addr reason candidate =>
    s.tschQueueGetTimeSource cfg = none ∨
      s.tables.evicted cfg.nbrTable addr reason candidate ≠ s.tschQueueGetTimeSource cfg
  | _ => True

instance (s : TschNeighbors) : (e : NbrEvent) → Decidable (KeepsTimeSource cfg s e)
  | .otherAdd _ _ _ _ => inferInstanceAs (Decidable (_ ∨ _))
  | .addNbr _ | .updateTimeSource _ | .freeUnusedNeighbors | .reset | .resetExceptNEb
  | .setCoordinator _ | .use _ _ | .otherRemove _ _ | .otherLock _ _ _ =>
    inferInstanceAs (Decidable True)

/-! ## The invariant -/

/-- The entries are locked, and a flagged one is that of the last update. -/
structure Inv (cfg : TschNeighborsConfig) (s : TschNeighbors) : Prop where
  ok : s.tables.Ok
  unlocked : s.tschLocked = false
  locked : ∀ i ∈ s.items cfg, s.tables.locked cfg.table i
  flagged : ∀ i ∈ s.items cfg, (s.nbr i).isTimeSource → s.updated = some (s.tables.lladdr i)

/-- The neighbor of the last update has a flagged entry. -/
def Present (cfg : TschNeighborsConfig) (s : TschNeighbors) : Prop :=
  ∀ addr, s.updated = some addr →
    ∃ i ∈ s.items cfg, s.tables.lladdr i = addr ∧ (s.nbr i).isTimeSource

theorem mem_items : i ∈ s.items cfg ↔ i ∈ s.tables.nbrTableKeys ∧ s.tables.used cfg.table i :=
  NbrTables.mem_items

theorem Inv.unique (h : Inv cfg s) (hi : i ∈ s.items cfg) (hj : j ∈ s.items cfg)
    (hfi : (s.nbr i).isTimeSource) (hfj : (s.nbr j).isTimeSource) : i = j := by
  have hlladdr : some (s.tables.lladdr i) = some (s.tables.lladdr j) :=
    (h.flagged i hi hfi).symm.trans (h.flagged j hj hfj)
  exact h.ok.inj i (mem_items.mp hi).1 j (mem_items.mp hj).1 (Option.some.inj hlladdr)

theorem Inv.getTimeSource_iff (h : Inv cfg s) :
    s.tschQueueGetTimeSource cfg = some i ↔ i ∈ s.items cfg ∧ (s.nbr i).isTimeSource := by
  simp only [tschQueueGetTimeSource, h.unlocked, Bool.false_eq_true, if_false]
  constructor
  · intro hfind
    exact ⟨List.mem_of_find?_eq_some hfind, by simpa using List.find?_some hfind⟩
  · rintro ⟨hi, hflag⟩
    cases hfind : (s.items cfg).find? fun i => (s.nbr i).isTimeSource with
    | none => exact absurd hflag (by simpa using List.find?_eq_none.mp hfind i hi)
    | some j =>
      have hflagj : (s.nbr j).isTimeSource := by simpa using List.find?_some hfind
      rw [h.unique (List.mem_of_find?_eq_some hfind) hi hflagj hflag]

/-! ## Operations that move no flag -/

/-- The entries of `s'` are among those of `s`, with the same flags. -/
structure Follows (cfg : TschNeighborsConfig) (s s' : TschNeighbors) : Prop where
  ok : s.tables.Ok → s'.tables.Ok
  tschLocked : s'.tschLocked = s.tschLocked
  updated : s'.updated = s.updated
  mem : ∀ i ∈ s'.items cfg, i ∈ s.items cfg
  lladdr : ∀ i ∈ s'.items cfg, s'.tables.lladdr i = s.tables.lladdr i
  isTimeSource : ∀ i ∈ s'.items cfg, (s'.nbr i).isTimeSource = (s.nbr i).isTimeSource
  locked : ∀ i ∈ s'.items cfg, s.tables.locked cfg.table i → s'.tables.locked cfg.table i

/-- A flagged entry stays. -/
def Keeps (cfg : TschNeighborsConfig) (s s' : TschNeighbors) : Prop :=
  ∀ i ∈ s.items cfg, (s.nbr i).isTimeSource → i ∈ s'.items cfg

theorem Follows.refl (s : TschNeighbors) : Follows cfg s s :=
  ⟨id, rfl, rfl, fun _ h => h, fun _ _ => rfl, fun _ _ => rfl, fun _ _ h => h⟩

theorem Follows.trans (h : Follows cfg s s') (h' : Follows cfg s' t) : Follows cfg s t where
  ok hok := h'.ok (h.ok hok)
  tschLocked := h'.tschLocked.trans h.tschLocked
  updated := h'.updated.trans h.updated
  mem i hi := h.mem i (h'.mem i hi)
  lladdr i hi := (h'.lladdr i hi).trans (h.lladdr i (h'.mem i hi))
  isTimeSource i hi := (h'.isTimeSource i hi).trans (h.isTimeSource i (h'.mem i hi))
  locked i hi hl := h'.locked i hi (h.locked i (h'.mem i hi) hl)

theorem Keeps.trans (hf : Follows cfg s s') (h : Keeps cfg s s') (h' : Keeps cfg s' t) :
    Keeps cfg s t := by
  intro i hi hflag
  have hi' := h i hi hflag
  exact h' i hi' ((hf.isTimeSource i hi').trans hflag)

theorem Follows.inv (h : Follows cfg s s') (hs : Inv cfg s) : Inv cfg s' where
  ok := h.ok hs.ok
  unlocked := h.tschLocked.trans hs.unlocked
  locked i hi := h.locked i hi (hs.locked i (h.mem i hi))
  flagged := by
    intro i hi hflag
    rw [h.updated, h.lladdr i hi]
    exact hs.flagged i (h.mem i hi) ((h.isTimeSource i hi).symm.trans hflag)

theorem Follows.present (h : Follows cfg s s') (hk : Keeps cfg s s') (hs : Present cfg s) :
    Present cfg s' := by
  intro addr haddr
  obtain ⟨i, hi, hlladdr, hflag⟩ := hs addr (h.updated.symm.trans haddr)
  have hi' := hk i hi hflag
  exact ⟨i, hi', (h.lladdr i hi').trans hlladdr, (h.isTimeSource i hi').trans hflag⟩

/-- A loop over entries, each round of which moves no flag. -/
theorem follows_foldl {f : TschNeighbors → ℕ → TschNeighbors}
    (hf : ∀ s i, Follows cfg s (f s i) ∧ Keeps cfg s (f s i)) (is : List ℕ) (s : TschNeighbors) :
    Follows cfg s (is.foldl f s) ∧ Keeps cfg s (is.foldl f s) := by
  induction is generalizing s with
  | nil => exact ⟨.refl s, fun _ hi _ => hi⟩
  | cons i is ih =>
    obtain ⟨hfollows, hkeeps⟩ := hf s i
    obtain ⟨hrest, hkrest⟩ := ih (f s i)
    exact ⟨hfollows.trans hrest, .trans hfollows hkeeps hkrest⟩

/-- An entry changes, but not its flag. -/
theorem follows_setNbr {n : TschNeighbor} (hn : n.isTimeSource = (s.nbr i).isTimeSource) :
    Follows cfg s (s.setNbr i n) ∧ Keeps cfg s (s.setNbr i n) := by
  refine ⟨⟨id, rfl, rfl, fun _ h => h, fun _ _ => rfl, ?_, fun _ _ h => h⟩, fun _ h _ => h⟩
  intro j _
  by_cases hj : j = i
  · simp [setNbr, hj, hn]
  · simp [setNbr, hj]

theorem follows_removeNbr (hi : (s.nbr i).isTimeSource = false) :
    Follows cfg s (s.tschQueueRemoveNbr cfg i) ∧ Keeps cfg s (s.tschQueueRemoveNbr cfg i) := by
  simp only [tschQueueRemoveNbr]
  split
  · exact ⟨.refl s, fun _ hj _ => hj⟩
  have hused : ∀ j, (s.tables.nbrTableRemove cfg.table i).used cfg.table j =
      if j = i then false else s.tables.used cfg.table j := by
    intro j
    have : (s.tables.setUsed cfg.table i false).used cfg.table j = _ :=
      used_setUsed cfg.table_lt false
    simpa [NbrTables.nbrTableRemove, NbrTables.setLocked, NbrTables.used] using this
  have hmem : ∀ j, j ∈ (s.tables.nbrTableRemove cfg.table i).items cfg.table ↔
      j ≠ i ∧ j ∈ s.items cfg := by
    intro j
    rw [NbrTables.mem_items, mem_items, hused]
    by_cases hj : j = i <;> simp [hj, NbrTables.nbrTableRemove, NbrTables.setLocked,
      NbrTables.setUsed]
  refine ⟨⟨?_, rfl, rfl, fun j hj => ((hmem j).mp hj).2, fun _ _ => rfl, ?_, ?_⟩, ?_⟩
  · intro hok
    refine ⟨hok.nodup, hok.inj, hok.inUse, ?_⟩
    intro j hj
    have hzero := hok.unlisted j hj
    by_cases hji : j = i
    · subst hji
      simp [setNbr, NbrTables.nbrTableRemove, NbrTables.setLocked, NbrTables.setUsed,
        NbrTables.setBit, hzero]
    · simpa [setNbr, NbrTables.nbrTableRemove, NbrTables.setLocked, NbrTables.setUsed, hji]
        using hzero
  · intro j hj
    simp [setNbr, ((hmem j).mp hj).1]
  · intro j hj hl
    have hji := ((hmem j).mp hj).1
    have : ((s.tables.setUsed cfg.table i false).setLocked cfg.table i false).locked cfg.table j = _ :=
      locked_setLocked cfg.table_lt false
    simp only [hji, and_false, if_false] at this
    exact this.trans hl
  · intro j hj hflag
    refine (hmem j).mpr ⟨?_, hj⟩
    rintro rfl
    simp [hi] at hflag

section

variable (s : TschNeighbors)

theorem follows_freeUnusedNeighbors :
    Follows cfg s (s.tschQueueFreeUnusedNeighbors cfg) ∧
      Keeps cfg s (s.tschQueueFreeUnusedNeighbors cfg) := by
  simp only [tschQueueFreeUnusedNeighbors]
  split
  · exact ⟨.refl s, fun _ hi _ => hi⟩
  · refine follows_foldl ?_ _ s
    intro u i
    split
    · rename_i hunused
      refine follows_removeNbr ?_
      simp only [TschNeighbor.unused, Bool.and_eq_true, Bool.not_eq_true'] at hunused
      exact hunused.1.1.2
    · exact ⟨.refl u, fun _ hj _ => hj⟩

theorem follows_resetNbr (i : ℕ) :
    Follows cfg s (s.resetNbr i) ∧ Keeps cfg s (s.resetNbr i) :=
  follows_setNbr (by simp)

theorem follows_reset :
    Follows cfg s (s.tschQueueReset cfg) ∧ Keeps cfg s (s.tschQueueReset cfg) := by
  simp only [tschQueueReset]
  split
  · exact ⟨.refl s, fun _ hi _ => hi⟩
  · exact follows_foldl follows_resetNbr _ s

theorem follows_resetExceptNEb :
    Follows cfg s (s.tschQueueResetExceptNEb cfg) ∧
      Keeps cfg s (s.tschQueueResetExceptNEb cfg) := by
  simp only [tschQueueResetExceptNEb]
  split
  · exact ⟨.refl s, fun _ hi _ => hi⟩
  · refine follows_foldl ?_ _ s
    intro u i
    split
    · exact ⟨.refl u, fun _ hj _ => hj⟩
    · exact follows_resetNbr u i

end

/-- The tables change, but not what this table has. -/
theorem follows_tables {tables : NbrTables} (hok : s.tables.Ok → tables.Ok)
    (hkeys : tables.nbrTableKeys = s.tables.nbrTableKeys) (hlladdr : tables.lladdr = s.tables.lladdr)
    (hused : ∀ i, tables.used cfg.table i = s.tables.used cfg.table i)
    (hlocked : ∀ i, tables.locked cfg.table i = s.tables.locked cfg.table i) :
    Follows cfg s { s with tables := tables } ∧ Keeps cfg s { s with tables := tables } := by
  have hmem : ∀ i, i ∈ items cfg { s with tables := tables } ↔ i ∈ s.items cfg := by
    intro i
    simp [mem_items, hkeys, hused]
  exact ⟨⟨hok, rfl, rfl, fun i hi => (hmem i).mp hi, fun i _ => congrFun hlladdr i,
    fun _ _ => rfl, fun i _ hl => (hlocked i).trans hl⟩, fun i hi _ => (hmem i).mpr hi⟩

theorem follows_setLocked {table : ℕ} (htable : table ≠ cfg.table) (value : Bool) :
    let tables := s.tables.setLocked table i value
    Follows cfg s { s with tables := tables } ∧ Keeps cfg s { s with tables := tables } := by
  refine follows_tables (fun h => ⟨h.nodup, h.inj, h.inUse, h.unlisted⟩) rfl rfl (fun _ => rfl) ?_
  intro j
  rw [locked_setLocked cfg.table_lt]
  simp [htable.symm]

theorem follows_otherRemove {table : ℕ} (htable : table ≠ cfg.table) :
    let tables := s.tables.nbrTableRemove table i
    Follows cfg s { s with tables := tables } ∧ Keeps cfg s { s with tables := tables } := by
  refine follows_tables ?_ rfl rfl ?_ ?_
  · intro h
    refine ⟨h.nodup, h.inj, h.inUse, ?_⟩
    intro j hj
    have hzero := h.unlisted j hj
    by_cases hji : j = i
    · subst hji
      simp [NbrTables.nbrTableRemove, NbrTables.setLocked, NbrTables.setUsed, NbrTables.setBit,
        hzero]
    · simpa [NbrTables.nbrTableRemove, NbrTables.setLocked, NbrTables.setUsed, hji] using hzero
  · intro j
    have : (s.tables.setUsed table i false).used cfg.table j = _ :=
      used_setUsed cfg.table_lt false
    simp only [htable.symm, false_and, if_false] at this
    exact this
  · intro j
    rw [NbrTables.nbrTableRemove, locked_setLocked cfg.table_lt]
    simp [htable.symm, NbrTables.locked, NbrTables.setUsed]

/-- Another table takes a place for an address; an entry of TSCH stays where it is, or
is removed. -/
theorem follows_otherAdd (h : Inv cfg s) {table : ℕ} (htable : table ≠ cfg.table)
    {reason : NbrTableReason} {candidate : Option LinkAddr} {tables : NbrTables}
    (hadd : s.tables.nbrTableAddLladdr cfg.nbrTable table addr reason candidate =
      some (i, tables)) :
    Follows cfg s { s with tables := tables } ∧
      (s.tables.evicted cfg.nbrTable addr reason candidate ≠ some i ∨ i ∉ s.items cfg →
        ∀ j ∈ s.items cfg, j ∈ items cfg { s with tables := tables }) := by
  obtain ⟨hok, hlisted, haddr, hsame, hcase⟩ := h.ok.addLladdr_spec hadd
  have hother : ∀ b : BitVec 8, (NbrTables.setBit b table true).getLsbD cfg.table =
      b.getLsbD cfg.table := by
    intro b
    rw [getLsbD_setBit b cfg.table_lt]
    simp [htable.symm]
  have hmem : ∀ j ≠ i, j ∈ items cfg { s with tables := tables } ↔ j ∈ s.items cfg := by
    intro j hj
    simp only [mem_items, hsame.keys j hj, NbrTables.used, hsame.usedMap j hj]
  cases hcase with
  | known hi hlladdr hused hlocked =>
    have hi' : i ∈ items cfg { s with tables := tables } ↔ i ∈ s.items cfg := by
      simp only [mem_items, NbrTables.used, hused, hother, hlisted, hi]
    have hall : ∀ j, j ∈ items cfg { s with tables := tables } ↔ j ∈ s.items cfg := by
      intro j
      by_cases hj : j = i
      · rw [hj, hi']
      · exact hmem j hj
    refine ⟨⟨fun _ => hok, rfl, rfl, fun j hj => (hall j).mp hj, ?_, fun _ _ => rfl, ?_⟩,
      fun _ j hj => (hall j).mpr hj⟩
    · intro j _
      by_cases hj : j = i
      · rw [hj, hlladdr]
        exact haddr
      · exact hsame.lladdr j hj
    · intro j _ hl
      by_cases hj : j = i
      · rw [hj] at hl ⊢
        simpa [NbrTables.locked, hlocked] using hl
      · simpa [NbrTables.locked, hsame.lockedMap j hj] using hl
  | new hnew hused hmac =>
    have hi' : i ∉ items cfg { s with tables := tables } := by
      simp [mem_items, NbrTables.used, hused, hother]
    have hne : ∀ j ∈ items cfg { s with tables := tables }, j ≠ i := fun j hj heq => hi' (heq ▸ hj)
    refine ⟨⟨fun _ => hok, rfl, rfl, fun j hj => (hmem j (hne j hj)).mp hj,
      fun j hj => hsame.lladdr j (hne j hj), fun _ _ => rfl, ?_⟩, ?_⟩
    · intro j hj hl
      simpa [NbrTables.locked, hsame.lockedMap j (hne j hj)] using hl
    · intro hev j hj
      have hji : j ≠ i := by
        rintro rfl
        rcases hev with hev | hev
        · refine hev ?_
          have hfind := indexFromLladdr_none.mpr hnew
          simp only [NbrTables.nbrTableAddLladdr, hfind] at hadd
          obtain ⟨⟨k, u⟩, halloc, heq⟩ := Option.map_eq_some_iff.mp hadd
          cases (Prod.mk.inj heq).1
          simp [NbrTables.evicted, hfind, halloc, (mem_items.mp hj).1]
        · exact hev hj
      exact (hmem j hji).mpr hj

/-! ## Additions and updates -/

/-- What `tsch_queue_add_nbr` does: nothing, or a new entry that is not flagged. -/
theorem Inv.addNbr_cases (h : Inv cfg s) (addr : LinkAddr) :
    (s.tschQueueAddNbr cfg addr).2 = s ∧
        (∀ i, (s.tschQueueAddNbr cfg addr).1 = some i → i ∈ s.items cfg ∧ s.tables.lladdr i = addr) ∨
      ∃ i t, s.tschQueueAddNbr cfg addr = (some i, t) ∧ Inv cfg t ∧ t.updated = s.updated ∧
        t.tschIsCoordinator = s.tschIsCoordinator ∧ i ∉ s.items cfg ∧ i ∈ t.items cfg ∧
        t.tables.lladdr i = addr ∧ (t.nbr i).isTimeSource = false ∧
        ∀ j ≠ i, (j ∈ t.items cfg ↔ j ∈ s.items cfg) ∧ t.nbr j = s.nbr j ∧
          t.tables.lladdr j = s.tables.lladdr j := by
  simp only [tschQueueAddNbr, tschQueueGetNbr, h.unlocked, Bool.false_eq_true, if_false]
  cases hget : s.tables.nbrTableGetFromLladdr cfg.table addr with
  | some i =>
    refine Or.inl ⟨rfl, ?_⟩
    intro j hj
    cases hj
    obtain ⟨hindex, hused⟩ := Option.filter_eq_some_iff.mp hget
    obtain ⟨hmem, haddr⟩ := indexFromLladdr_some hindex
    exact ⟨mem_items.mpr ⟨hmem, hused⟩, haddr⟩
  | none =>
    cases hadd : s.tables.nbrTableAddLladdr cfg.nbrTable cfg.table addr .mac none with
    | none => exact Or.inl ⟨rfl, by simp⟩
    | some r =>
      obtain ⟨i, tables⟩ := r
      right
      obtain ⟨hok, hlisted, haddr, hsame, hcase⟩ := h.ok.addLladdr_spec hadd
      -- the place held no entry of TSCH, which would be locked
      have hnot : i ∉ s.items cfg := by
        intro hi
        cases hcase with
        | known hmem hlladdr hused hlocked =>
          have hfind := h.ok.indexFromLladdr_eq hmem
          rw [hlladdr] at hfind
          rw [NbrTables.nbrTableGetFromLladdr, hfind] at hget
          simp [(mem_items.mp hi).2] at hget
        | new hnew hused hmac =>
          have hlocked := h.locked i hi
          simp [NbrTables.locked, hmac rfl (mem_items.mp hi).1] at hlocked
      have husedi : tables.used cfg.table i = true := by
        cases hcase with
        | known hmem hlladdr hused hlocked =>
          simp [NbrTables.used, hused, getLsbD_setBit _ cfg.table_lt]
        | new hnew hused hmac =>
          simp [NbrTables.used, hused, getLsbD_setBit _ cfg.table_lt]
      have hmem : ∀ j ≠ i, (j ∈ tables.items cfg.table ↔ j ∈ s.items cfg) := by
        intro j hj
        simp only [NbrTables.mem_items, mem_items, hsame.keys j hj, NbrTables.used,
          hsame.usedMap j hj]
      have hlockedj : ∀ j, (tables.setLocked cfg.table i true).locked cfg.table j =
          if j = i then true else tables.locked cfg.table j := by
        intro j
        rw [locked_setLocked cfg.table_lt]
        simp
      refine ⟨i, _, rfl, ⟨⟨hok.nodup, hok.inj, hok.inUse, hok.unlisted⟩, rfl, ?_, ?_⟩,
        rfl, rfl, hnot, NbrTables.mem_items.mpr ⟨hlisted, husedi⟩, haddr,
        by simp [setNbr, TschNeighbor.new], ?_⟩
      · intro j hj
        by_cases hji : j = i
        · exact (hlockedj j).trans (if_pos hji)
        · have hl := h.locked j ((hmem j hji).mp hj)
          refine (hlockedj j).trans ?_
          simpa [hji, NbrTables.locked, hsame.lockedMap j hji] using hl
      · intro j hj hflag
        by_cases hji : j = i
        · simp [setNbr, hji, TschNeighbor.new] at hflag
        · have hj' := (hmem j hji).mp hj
          have hflag' : (s.nbr j).isTimeSource := by simpa [setNbr, hji] using hflag
          have hl : tables.lladdr j = s.tables.lladdr j := hsame.lladdr j hji
          exact (h.flagged j hj' hflag').trans (congrArg some hl.symm)
      · intro j hj
        exact ⟨hmem j hj, by simp [setNbr, hj], hsame.lladdr j hj⟩

theorem Inv.addNbr (h : Inv cfg s) (addr : LinkAddr) :
    Inv cfg (s.tschQueueAddNbr cfg addr).2 ∧
      (Present cfg s → Present cfg (s.tschQueueAddNbr cfg addr).2) := by
  rcases h.addNbr_cases addr with ⟨heq, -⟩ | ⟨i, t, heq, ht, hupdated, -, hnot, hi, -, -, hothers⟩
  · rw [heq]
    exact ⟨h, id⟩
  · rw [heq]
    refine ⟨ht, ?_⟩
    intro hp a ha
    obtain ⟨j, hj, hlladdr, hflag⟩ := hp a (hupdated.symm.trans ha)
    have hji : j ≠ i := fun h => hnot (h ▸ hj)
    obtain ⟨hmem, hnbr, hl⟩ := hothers j hji
    exact ⟨j, hmem.mpr hj, hl.trans hlladdr, by rw [hnbr]; exact hflag⟩

/-- The flags after they moved: the new entry's is set, and only that one. -/
theorem isTimeSource_moveTimeSource {old new : Option ℕ}
    (hold : ∀ i ∈ s.items cfg, (s.nbr i).isTimeSource → some i = old)
    (hflag : ∀ i, old = some i → (s.nbr i).isTimeSource) (hi : i ∈ s.items cfg) :
    ((s.moveTimeSource old new).nbr i).isTimeSource = decide (new = some i) := by
  simp only [moveTimeSource]
  split
  · rename_i hne
    cases old with
    | none =>
      have hfalse : (s.nbr i).isTimeSource = false := by
        by_contra htrue
        simpa using hold i hi (by simpa using htrue)
      cases new with
      | none => simpa [setTimeSource] using hfalse
      | some k =>
        by_cases hk : i = k
        · simp [setTimeSource, setNbr, hk]
        · simp [setTimeSource, setNbr, hk, hfalse, Ne.symm hk]
    | some j =>
      by_cases hj : i = j
      · subst hj
        have hdec : decide (new = some i) = false := by simpa using hne
        simp [setTimeSource, setNbr, hdec]
      · have hfalse : (s.nbr i).isTimeSource = false := by
          by_contra htrue
          have := hold i hi (by simpa using htrue)
          simp [hj] at this
        cases new with
        | none => simpa [setTimeSource, setNbr, hj] using hfalse
        | some k =>
          by_cases hk : i = k
          · subst hk
            simp [setTimeSource, setNbr, hj]
          · simp [setTimeSource, setNbr, hj, hk, hfalse, Ne.symm hk]
  · rename_i heq
    simp only [not_not] at heq
    subst heq
    by_cases hk : new = some i
    · simp [hk, hflag i hk]
    · have hfalse : (s.nbr i).isTimeSource = false := by
        by_contra htrue
        exact hk (hold i hi (by simpa using htrue)).symm
      simp [hk, hfalse]

@[simp] theorem moveTimeSource_tables (s : TschNeighbors) (old new : Option ℕ) :
    (s.moveTimeSource old new).tables = s.tables := by
  cases old <;> cases new <;> simp only [moveTimeSource] <;> split <;> rfl

@[simp] theorem moveTimeSource_tschLocked (s : TschNeighbors) (old new : Option ℕ) :
    (s.moveTimeSource old new).tschLocked = s.tschLocked := by
  cases old <;> cases new <;> simp only [moveTimeSource] <;> split <;> rfl

/-- The flag moves to a listed entry or is cleared, and the update is recorded. -/
theorem Inv.moveTimeSource (h : Inv cfg s) {old new : Option ℕ} {newAddr : Option LinkAddr}
    (hold : ∀ i ∈ s.items cfg, (s.nbr i).isTimeSource → some i = old)
    (hflag : ∀ i, old = some i → (s.nbr i).isTimeSource)
    (hnew : ∀ i, new = some i → i ∈ s.items cfg)
    (haddr : newAddr = new.map s.tables.lladdr) :
    Inv cfg { s.moveTimeSource old new with updated := newAddr } ∧
      Present cfg { s.moveTimeSource old new with updated := newAddr } := by
  have hitems : items cfg { s.moveTimeSource old new with updated := newAddr } = s.items cfg := by
    simp [items]
  refine ⟨⟨by simpa using h.ok, by simpa using h.unlocked, ?_, ?_⟩, ?_⟩
  · intro i hi
    rw [hitems] at hi
    simpa using h.locked i hi
  · intro i hi hi'
    rw [hitems] at hi
    have hto : ((s.moveTimeSource old new).nbr i).isTimeSource = decide (new = some i) :=
      isTimeSource_moveTimeSource hold hflag hi
    have hnewi : new = some i := decide_eq_true_eq.mp (hto.symm.trans hi')
    simp [haddr, hnewi]
  · intro addr ha
    simp only [haddr] at ha
    obtain ⟨i, hi, rfl⟩ := Option.map_eq_some_iff.mp ha
    refine ⟨i, hitems ▸ hnew i hi, by simp, ?_⟩
    have hto : ((s.moveTimeSource old new).nbr i).isTimeSource = decide (new = some i) :=
      isTimeSource_moveTimeSource hold hflag (hnew i hi)
    simpa [hi] using hto

theorem Inv.updateTimeSource (h : Inv cfg s) (newAddr : Option LinkAddr) :
    Inv cfg (s.tschQueueUpdateTimeSource cfg newAddr).2 ∧
      (Present cfg s → Present cfg (s.tschQueueUpdateTimeSource cfg newAddr).2) := by
  simp only [tschQueueUpdateTimeSource, h.unlocked, Bool.false_eq_true, if_false]
  split
  · exact ⟨h, id⟩
  have hold : ∀ i ∈ s.items cfg, (s.nbr i).isTimeSource → some i = s.tschQueueGetTimeSource cfg :=
    fun i hi hf => (h.getTimeSource_iff.mpr ⟨hi, hf⟩).symm
  have hflag : ∀ i, s.tschQueueGetTimeSource cfg = some i → (s.nbr i).isTimeSource :=
    fun i hi => (h.getTimeSource_iff.mp hi).2
  cases newAddr with
  | none =>
    obtain ⟨hinv, hpresent⟩ := @Inv.moveTimeSource _ _ h _ none _ hold hflag (by simp) rfl
    exact ⟨hinv, fun _ => hpresent⟩
  | some addr =>
    rcases h.addNbr_cases addr with ⟨heq, hfound⟩ |
      ⟨i, t, heq, ht, -, -, hnot, hi, haddr, hclear, hothers⟩
    · cases hadd : s.tschQueueAddNbr cfg addr with
      | mk r u =>
        rw [hadd] at heq hfound
        simp only at heq
        subst heq
        simp only [hadd]
        cases r with
        | none => exact ⟨h, id⟩
        | some i =>
          obtain ⟨hi, haddr⟩ := hfound i rfl
          obtain ⟨hinv, hpresent⟩ := @Inv.moveTimeSource _ _ h _ (some i) (some addr)
            hold hflag (by rintro j ⟨⟩; exact hi) (by simp [haddr])
          exact ⟨hinv, fun _ => hpresent⟩
    · simp only [heq]
      have hold' : ∀ j ∈ t.items cfg, (t.nbr j).isTimeSource →
          some j = s.tschQueueGetTimeSource cfg := by
        intro j hj hf
        have hji : j ≠ i := by
          rintro rfl
          simp [hclear] at hf
        obtain ⟨hmem, hnbr, -⟩ := hothers j hji
        exact hold j (hmem.mp hj) (hnbr ▸ hf)
      have hflag' : ∀ j, s.tschQueueGetTimeSource cfg = some j → (t.nbr j).isTimeSource := by
        intro j hj
        have hj' := (h.getTimeSource_iff.mp hj).1
        have hji : j ≠ i := fun h => hnot (h ▸ hj')
        rw [(hothers j hji).2.1]
        exact hflag j hj
      obtain ⟨hinv, hpresent⟩ := @Inv.moveTimeSource _ _ ht _ (some i) (some addr)
        hold' hflag' (by rintro j ⟨⟩; exact hi) (by simp [haddr])
      exact ⟨hinv, fun _ => hpresent⟩

/-! ## Runs -/

/-- Every event keeps the invariant, and the time source when it keeps its entry. -/
theorem Inv.step (h : Inv cfg s) {e : NbrEvent} (hstep : s.step cfg e = some t) :
    Inv cfg t ∧ (KeepsTimeSource cfg s e → Present cfg s → Present cfg t) := by
  have hfollows : Follows cfg s t ∧ Keeps cfg s t →
      Inv cfg t ∧ (KeepsTimeSource cfg s e → Present cfg s → Present cfg t) :=
    fun ⟨hf, hk⟩ => ⟨hf.inv h, fun _ hp => hf.present hk hp⟩
  cases e with
  | addNbr addr =>
    cases hstep
    exact ⟨(h.addNbr addr).1, fun _ => (h.addNbr addr).2⟩
  | updateTimeSource newAddr =>
    cases hstep
    exact ⟨(h.updateTimeSource newAddr).1, fun _ => (h.updateTimeSource newAddr).2⟩
  | freeUnusedNeighbors =>
    cases hstep
    exact hfollows (follows_freeUnusedNeighbors s)
  | reset =>
    cases hstep
    exact hfollows (follows_reset s)
  | resetExceptNEb =>
    cases hstep
    exact hfollows (follows_resetExceptNEb s)
  | setCoordinator enable =>
    cases hstep
    exact ⟨⟨h.ok, h.unlocked, h.locked, h.flagged⟩, fun _ hp => hp⟩
  | use addr n =>
    simp only [TschNeighbors.step] at hstep
    split at hstep
    · cases hstep
      exact ⟨h, fun _ => id⟩
    · cases hstep
      exact hfollows (follows_setNbr rfl)
  | otherAdd table addr reason candidate =>
    simp only [TschNeighbors.step] at hstep
    split_ifs at hstep with htable
    split at hstep
    · cases hstep
      exact ⟨h, fun _ => id⟩
    · rename_i i tables hadd
      cases hstep
      obtain ⟨hf, hk⟩ := follows_otherAdd h htable hadd
      refine ⟨hf.inv h, ?_⟩
      intro hkeep hp
      refine hf.present ?_ hp
      intro j hj hflag
      have hget := h.getTimeSource_iff.mpr ⟨hj, hflag⟩
      by_cases hji : j = i
      · subst hji
        refine hk (Or.inl ?_) j hj
        rcases hkeep with hkeep | hkeep
        · simp [hget] at hkeep
        · rwa [hget] at hkeep
      · have hmem := h.ok.addLladdr_spec hadd
        have hkeys := hmem.2.2.2.1.keys j hji
        have hused := hmem.2.2.2.1.usedMap j hji
        rw [mem_items] at hj ⊢
        exact ⟨hkeys.mpr hj.1, by simpa [NbrTables.used, hused] using hj.2⟩
  | otherRemove table i =>
    simp only [TschNeighbors.step] at hstep
    split_ifs at hstep with htable
    cases hstep
    exact hfollows (follows_otherRemove htable)
  | otherLock table i value =>
    simp only [TschNeighbors.step] at hstep
    split_ifs at hstep with htable
    cases hstep
    exact hfollows (follows_setLocked htable value)

theorem inv_empty (cfg : TschNeighborsConfig) : Inv cfg (empty cfg) := by
  have hitems : (empty cfg).items cfg = [] := by simp [items, empty, NbrTables.items, NbrTables.init]
  exact ⟨NbrTables.init_ok, rfl, by simp [hitems], by simp [hitems]⟩

theorem inv_init (cfg : TschNeighborsConfig) : Inv cfg (init cfg) ∧ Present cfg (init cfg) := by
  have heb := (inv_empty cfg).addNbr tschEbAddress
  have hbroadcast := heb.1.addNbr tschBroadcastAddress
  have hpresent : Present cfg (empty cfg) := by
    intro addr haddr
    simp [empty] at haddr
  have hp := hbroadcast.2 (heb.2 hpresent)
  exact ⟨⟨hbroadcast.1.ok, hbroadcast.1.unlocked, hbroadcast.1.locked, hbroadcast.1.flagged⟩, hp⟩

/-- **The time source is unique.** In every run at most one entry is flagged, and
`tsch_queue_get_time_source` finds it; it is that of the last successful update. It is
there as long as no other table has taken its place, and an update that finds no place
for the new neighbor changes nothing. -/
theorem time_source_unique (cfg : TschNeighborsConfig) (es : List NbrEvent)
    (hrun : run (step cfg) (init cfg) es = some s) :
    (∀ i ∈ s.items cfg, ∀ j ∈ s.items cfg,
      (s.nbr i).isTimeSource → (s.nbr j).isTimeSource → i = j) ∧
    (∀ i, s.tschQueueGetTimeSource cfg = some i ↔
      i ∈ s.items cfg ∧ (s.nbr i).isTimeSource) ∧
    (∀ i, s.tschQueueGetTimeSource cfg = some i → s.updated = some (s.tables.lladdr i)) ∧
    (Along (step cfg) (KeepsTimeSource cfg) (init cfg) es →
      (s.tschQueueGetTimeSource cfg).map s.tables.lladdr = s.updated) ∧
    ∀ addr, (s.tschQueueAddNbr cfg addr).1 = none →
      s.tschQueueUpdateTimeSource cfg (some addr) = (false, s) := by
  have hinv : Inv cfg s := run_invariant (Inv cfg) (fun _ _ _ h hstep => (h.step hstep).1)
    (inv_init cfg).1 hrun
  refine ⟨fun i hi j hj hfi hfj => hinv.unique hi hj hfi hfj, fun i => hinv.getTimeSource_iff,
    ?_, ?_, ?_⟩
  · intro i hi
    obtain ⟨hmem, hflag⟩ := hinv.getTimeSource_iff.mp hi
    exact hinv.flagged i hmem hflag
  · intro halong
    have hboth : Inv cfg s ∧ Present cfg s :=
      run_induction (fun s => Inv cfg s ∧ Present cfg s)
        (fun _ _ _ hP h hstep => ⟨(h.1.step hstep).1, (h.1.step hstep).2 hP h.2⟩)
        (inv_init cfg) halong hrun
    cases hget : s.tschQueueGetTimeSource cfg with
    | some i =>
      obtain ⟨hmem, hflag⟩ := hinv.getTimeSource_iff.mp hget
      exact (hinv.flagged i hmem hflag).symm
    | none =>
      cases hupdated : s.updated with
      | none => rfl
      | some addr =>
        obtain ⟨i, hmem, -, hflag⟩ := hboth.2 addr hupdated
        simp [hinv.getTimeSource_iff.mpr ⟨hmem, hflag⟩] at hget
  · intro addr hnone
    have hsame : (s.tschQueueAddNbr cfg addr).2 = s := by
      rcases hinv.addNbr_cases addr with ⟨heq, -⟩ | ⟨i, t, heq, -⟩
      · exact heq
      · simp [heq] at hnone
    have hadd : s.tschQueueAddNbr cfg addr = (none, s) := Prod.ext hnone hsame
    simp only [tschQueueUpdateTimeSource, hinv.unlocked, Bool.false_eq_true, if_false, hadd]
    split <;> rfl

/-- A table of four with a policy, and neighbors to update to. -/
def smallTable : TschNeighborsConfig where
  nbrTable := ⟨4, .rplLite⟩
  schedule := ⟨4, 4, 8, false, false⟩
  table := 2
  table_lt := by decide

/-- Two updates, the first one's neighbor removed for another table before the second, and
a third one that finds no place. -/
def updates : List NbrEvent :=
  [.updateTimeSource (some fun _ => 1), .addNbr fun _ => 2, .updateTimeSource (some fun _ => 2),
    .reset, .freeUnusedNeighbors, .otherAdd 0 (fun _ => 3) .rplDio (some fun _ => 1),
    .updateTimeSource (some fun _ => 4)]

theorem time_source_unique_updates :
    ∃ s, run (step smallTable) (init smallTable) updates = some s ∧
      (s.tschQueueGetTimeSource smallTable).map s.tables.lladdr = some fun _ => 2 := by
  have hsome : ∃ s, run (step smallTable) (init smallTable) updates = some s :=
    Option.isSome_iff_exists.mp (by decide +kernel)
  obtain ⟨s, hs⟩ := hsome
  have hlast := (time_source_unique smallTable updates hs).2.2.2.1 (by decide +kernel)
  refine ⟨s, hs, hlast.trans ?_⟩
  have hupdated : (run (step smallTable) (init smallTable) updates).map (·.updated) =
      some (some fun _ => 2) := by decide +kernel
  simpa [hs] using hupdated

end TschNeighbors

end Asap.Tsch
