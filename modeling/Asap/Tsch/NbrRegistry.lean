import Asap.Lib.Pool
import Asap.Lib.Run
import Asap.Tsch.NbrTable

/-!
# Registered tables of neighbors

A module registers its table with a callback, which is called when a neighbor of the table is
evicted for a new one. There are eight bits for each neighbor, hence eight tables; a table that
is not registered has the index of its static initialiser, the one of the first table.

A neighbor that a table locks is passed over when the least used one is looked for, but not when
the replacement policy names it: then its locks are cleared.

## Main definitions

* `NbrRegistry` — the tables, their callbacks, and the neighbors.
* `NbrRegistry.removeKey`, `NbrRegistry.nbrTableAddLladdr` — with the callbacks.
* `NbrHistory` — the registry with what was added to each table and not removed since.
-/

namespace Asap.Tsch

open Asap.Lib Function Option List NbrTables

/-- A pointer to an `nbr_table_t`. -/
abbrev TableId := ℕ

/-- What a callback does with the item it gets. -/
inductive NbrCallback where
  | keep | remove
deriving DecidableEq, Repr

/-- The tables that are registered, with the neighbors they share, and the callbacks that were
called, each with its table and the place of the item. -/
structure NbrRegistry where
  index : TableId → ℕ
  callback : TableId → Option NbrCallback
  allTables : ℕ → Option TableId
  numTables : ℕ
  nbr : NbrTables
  calls : List (TableId × ℕ)

/-- `MAX_NUM_TABLES` -/
def maxNumTables : ℕ := 8

namespace NbrRegistry

/-- All tables as `NBR_TABLE` initialises them. -/
def init : NbrRegistry where
  index := fun _ => 0
  callback := fun _ => none
  allTables := fun _ => none
  numTables := 0
  nbr := .init
  calls := []

/-- `nbr_table_is_registered` -/
def nbrTableIsRegistered (s : NbrRegistry) (table : TableId) : Prop :=
  s.index table < maxNumTables ∧ s.allTables (s.index table) = some table

instance (s : NbrRegistry) (table : TableId) : Decidable (s.nbrTableIsRegistered table) :=
  inferInstanceAs (Decidable (_ ∧ _))

/-- `nbr_table_register` -/
def nbrTableRegister (s : NbrRegistry) (table : TableId) (callback : Option NbrCallback) :
    NbrRegistry :=
  if s.nbrTableIsRegistered table then
    { s with callback := Function.update s.callback table callback }
  else if s.numTables < maxNumTables then
    { s with
      index := Function.update s.index table s.numTables
      callback := Function.update s.callback table callback
      allTables := Function.update s.allTables s.numTables (some table)
      numTables := s.numTables + 1 }
  else s

/-- The callback of one table for a neighbor, if the table has it. -/
def callTable (i : ℕ) (s : NbrRegistry) (k : ℕ) : NbrRegistry :=
  match s.allTables k with
  | none => s
  | some table =>
    match s.callback table with
    | none => s
    | some callback =>
      if s.nbr.used (s.index table) i then
        { s with
          calls := s.calls ++ [(table, i)]
          nbr := if callback = .remove then s.nbr.nbrTableRemove (s.index table) i else s.nbr }
      else s

/-- `remove_key` -/
def removeKey (s : NbrRegistry) (i : ℕ) : NbrRegistry :=
  let s := (List.range maxNumTables).foldl (callTable i) s
  { s with nbr := s.nbr.removeKey i }

/-- The least used neighbor is removed for a new one. -/
def reuseLeastUsed (s : NbrRegistry) : Option (ℕ × NbrRegistry) :=
  (s.nbr.leastUsed s.nbr.nbrTableKeys none).map fun i => (i, s.removeKey i)

/-- `nbr_table_allocate` -/
def nbrTableAllocate (cfg : NbrTableConfig) (s : NbrRegistry) (reason : NbrTableReason)
    (candidate : Option LinkAddr) : Option (ℕ × NbrRegistry) :=
  match (List.range cfg.maxNeighbors).find? fun i => !s.nbr.neighborAddrMem i with
  | some i =>
    let mem := Function.update s.nbr.neighborAddrMem i true
    some (i, { s with nbr := { s.nbr with neighborAddrMem := mem } })
  | none =>
    match cfg.findRemovable.find reason candidate with
    | some none => none
    | some (some lladdr) =>
      match s.nbr.indexFromLladdr lladdr with
      | some i =>
        -- a locked neighbor is deleted, too
        let locked := Function.update s.nbr.lockedMap i 0
        some (i, { s with nbr := { s.nbr with lockedMap := locked } }.removeKey i)
      | none => s.reuseLeastUsed
    | none => s.reuseLeastUsed

/-- `nbr_table_add_lladdr` -/
def nbrTableAddLladdr (cfg : NbrTableConfig) (s : NbrRegistry) (table : TableId) (addr : LinkAddr)
    (reason : NbrTableReason) (candidate : Option LinkAddr) : Option (ℕ × NbrRegistry) :=
  match s.nbr.indexFromLladdr addr with
  | some i => some (i, { s with nbr := s.nbr.setUsed (s.index table) i true })
  | none =>
    (s.nbrTableAllocate cfg reason candidate).map fun (i, s) =>
      (i, { s with
            nbr := { s.nbr with
              nbrTableKeys := s.nbr.nbrTableKeys.erase i ++ [i]
              lladdr := Function.update s.nbr.lladdr i addr }.setUsed (s.index table) i true })

/-- `nbr_table_get_from_lladdr` -/
def nbrTableGetFromLladdr (s : NbrRegistry) (table : TableId) (addr : LinkAddr) : Option ℕ :=
  s.nbr.nbrTableGetFromLladdr (s.index table) addr

end NbrRegistry

/-- The operations; an item is a place of the array of its table. -/
inductive RegistryEvent where
  | register (table : TableId) (callback : Option NbrCallback)
  | add (table : TableId) (addr : LinkAddr) (reason : NbrTableReason) (candidate : Option LinkAddr)
  | remove (table : TableId) (i : ℕ)
  | lock (table : TableId) (i : ℕ)
  | unlock (table : TableId) (i : ℕ)

/-- The registry, and what was added to each table and not removed since, or evicted. -/
structure NbrHistory where
  reg : NbrRegistry
  added : TableId → LinkAddr → Bool

namespace NbrHistory

def init : NbrHistory := ⟨.init, fun _ _ => false⟩

/-- `nbr_table_add_lladdr`, where the address of the place that is given to a new neighbor is
removed from all tables. -/
def add (cfg : NbrTableConfig) (s : NbrHistory) (table : TableId) (addr : LinkAddr)
    (reason : NbrTableReason) (candidate : Option LinkAddr) : NbrHistory :=
  match s.reg.nbrTableAddLladdr cfg table addr reason candidate with
  | none => s
  | some (i, reg) =>
    { reg := reg
      added := fun t a =>
        if t = table ∧ a = addr then true
        else if i ∈ s.reg.nbr.nbrTableKeys ∧ a = s.reg.nbr.lladdr i ∧ a ≠ addr then false
        else s.added t a }

/-- `nbr_table_remove` -/
def remove (s : NbrHistory) (table : TableId) (i : ℕ) : NbrHistory :=
  { reg := { s.reg with nbr := s.reg.nbr.nbrTableRemove (s.reg.index table) i }
    added := fun t a =>
      if t = table ∧ i ∈ s.reg.nbr.nbrTableKeys ∧ a = s.reg.nbr.lladdr i then false
      else s.added t a }

/-- The state after an event; items are those of the array. -/
def step (cfg : NbrTableConfig) (s : NbrHistory) : RegistryEvent → Option NbrHistory
  | .register table callback => some { s with reg := s.reg.nbrTableRegister table callback }
  | .add table addr reason candidate => some (s.add cfg table addr reason candidate)
  | .remove table i => if i < cfg.maxNeighbors then some (s.remove table i) else none
  | .lock table i =>
    if i < cfg.maxNeighbors then
      some { s with reg := { s.reg with nbr := s.reg.nbr.setLocked (s.reg.index table) i true } }
    else none
  | .unlock table i =>
    if i < cfg.maxNeighbors then
      some { s with reg := { s.reg with nbr := s.reg.nbr.setLocked (s.reg.index table) i false } }
    else none

/-- The table of an operation is registered. -/
def OnRegistered (s : NbrHistory) : RegistryEvent → Prop
  | .register _ _ => True
  | .add table _ _ _ => s.reg.nbrTableIsRegistered table
  | .remove table _ => s.reg.nbrTableIsRegistered table
  | .lock table _ => s.reg.nbrTableIsRegistered table
  | .unlock table _ => s.reg.nbrTableIsRegistered table

instance (s : NbrHistory) : ∀ e, Decidable (s.OnRegistered e)
  | .register _ _ => isTrue trivial
  | .add table _ _ _ => inferInstanceAs (Decidable (s.reg.nbrTableIsRegistered table))
  | .remove table _ => inferInstanceAs (Decidable (s.reg.nbrTableIsRegistered table))
  | .lock table _ => inferInstanceAs (Decidable (s.reg.nbrTableIsRegistered table))
  | .unlock table _ => inferInstanceAs (Decidable (s.reg.nbrTableIsRegistered table))

end NbrHistory

namespace NbrRegistry

variable {cfg : NbrTableConfig} {s s' : NbrRegistry} {table t : TableId} {i j k : ℕ}
  {addr : LinkAddr} {reason : NbrTableReason} {candidate : Option LinkAddr}

/-! ## Registration -/

/-- A table in the array has its place there for an index. -/
structure Indexed (s : NbrRegistry) : Prop where
  numTables : s.numTables ≤ maxNumTables
  index : ∀ k t, s.allTables k = some t → s.index t = k ∧ k < s.numTables
  index_lt : ∀ t, s.index t < maxNumTables

theorem init_indexed : init.Indexed := by
  constructor <;> simp [init, maxNumTables]

theorem Indexed.registered_iff (h : s.Indexed) :
    s.nbrTableIsRegistered t ↔ ∃ k, s.allTables k = some t := by
  constructor
  · intro ht
    exact ⟨_, ht.2⟩
  · rintro ⟨k, hk⟩
    have heq := (h.index k t hk).1
    exact ⟨h.index_lt t, by rw [heq, hk]⟩

/-- Registered tables have different indices. -/
theorem index_inj (ht : s.nbrTableIsRegistered t) (htable : s.nbrTableIsRegistered table)
    (heq : s.index t = s.index table) : t = table := by
  have hsome := ht.2
  rw [heq, htable.2] at hsome
  exact (Option.some.inj hsome).symm

theorem Indexed.nbrTableRegister (h : s.Indexed) (table : TableId)
    (callback : Option NbrCallback) : (s.nbrTableRegister table callback).Indexed := by
  simp only [NbrRegistry.nbrTableRegister]
  split_ifs with hreg hroom
  · exact ⟨h.numTables, h.index, h.index_lt⟩
  · refine ⟨hroom, ?_, ?_⟩
    · intro k t hk
      by_cases hkn : k = s.numTables
      · subst hkn
        have hsome : some table = some t := by simpa using hk
        cases hsome
        simp
      · have hold : s.allTables k = some t := by simpa [hkn] using hk
        obtain ⟨heq, hlt⟩ := h.index k t hold
        have hne : t ≠ table := by
          rintro rfl
          exact hreg (h.registered_iff.mpr ⟨k, hold⟩)
        exact ⟨by simpa [hne] using heq, by simp; omega⟩
    · intro t
      by_cases ht : t = table
      · simpa [ht] using hroom
      · simpa [ht] using h.index_lt t
  · exact h

/-- A table that is registered gets the next index; the others keep theirs. -/
theorem Indexed.registered_register (h : s.Indexed) (hroom : s.numTables < maxNumTables)
    (hne : t ≠ table) (callback : Option NbrCallback) :
    (s.nbrTableRegister table callback).nbrTableIsRegistered t ↔ s.nbrTableIsRegistered t := by
  by_cases hreg : s.nbrTableIsRegistered table
  · simp only [NbrRegistry.nbrTableRegister, if_pos hreg]
    exact Iff.rfl
  · rw [(h.nbrTableRegister table callback).registered_iff, h.registered_iff]
    apply exists_congr
    intro k
    simp only [NbrRegistry.nbrTableRegister, if_neg hreg, if_pos hroom]
    by_cases hk : k = s.numTables
    · subst hk
      have hnone : s.allTables s.numTables ≠ some t := fun hsome =>
        (h.index _ t hsome).2.ne rfl
      simp [hnone, hne.symm]
    · rw [update_of_ne hk]

/-! ## Callbacks -/

/-- The table at a place of the array, if its callback is called for a neighbor. -/
def caller (s : NbrRegistry) (i k : ℕ) : Option TableId :=
  (s.allTables k).filter fun t => (s.callback t).isSome && s.nbr.used k i

/-- The tables whose callbacks are called for a neighbor. -/
def callers (s : NbrRegistry) (i : ℕ) : List TableId :=
  (List.range maxNumTables).filterMap (s.caller i)

theorem Indexed.mem_callers (h : s.Indexed) : t ∈ s.callers i ↔
    s.nbrTableIsRegistered t ∧ (s.callback t).isSome ∧ s.nbr.used (s.index t) i := by
  simp only [callers, mem_filterMap, caller, filter_eq_some_iff, mem_range,
    Bool.and_eq_true]
  constructor
  · rintro ⟨k, hk, htable, hcallback, hused⟩
    have heq := (h.index k t htable).1
    exact ⟨h.registered_iff.mpr ⟨k, htable⟩, hcallback, heq ▸ hused⟩
  · rintro ⟨hreg, hcallback, hused⟩
    exact ⟨_, hreg.1, hreg.2, hcallback, hused⟩

theorem Indexed.nodup_callers (h : s.Indexed) : (s.callers i).Nodup := by
  apply List.Nodup.filterMap _ nodup_range
  intro k k' t hk hk'
  have htable := (filter_eq_some_iff.mp hk).1
  have htable' := (filter_eq_some_iff.mp hk').1
  rw [← (h.index k t htable).1, ← (h.index k' t htable').1]

/-- The registry after callbacks for a neighbor: only the map of the tables that use it may have
changed. -/
structure Called (s s' : NbrRegistry) (i : ℕ) (tables : List TableId) : Prop where
  index : s'.index = s.index
  callback : s'.callback = s.callback
  allTables : s'.allTables = s.allTables
  numTables : s'.numTables = s.numTables
  calls : s'.calls = s.calls ++ tables.map fun t => (t, i)
  nbr : ∃ used, s'.nbr = { s.nbr with usedMap := Function.update s.nbr.usedMap i used }

theorem Called.refl (s : NbrRegistry) (i : ℕ) : Called s s i [] := by
  refine ⟨rfl, rfl, rfl, rfl, by simp, s.nbr.usedMap i, ?_⟩
  rw [update_eq_self]

theorem Called.trans {u : NbrRegistry} {ts ts' : List TableId} (h : Called s s' i ts)
    (h' : Called s' u i ts') : Called s u i (ts ++ ts') := by
  obtain ⟨used, hused⟩ := h.nbr
  obtain ⟨used', hused'⟩ := h'.nbr
  refine ⟨h'.index.trans h.index, h'.callback.trans h.callback, h'.allTables.trans h.allTables,
    h'.numTables.trans h.numTables, ?_, used', ?_⟩
  · rw [h'.calls, h.calls, map_append, append_assoc]
  · rw [hused', hused]
    simp

/-- Taking an unlocked neighbor out of a table changes the map of tables that use it. -/
theorem nbrTableRemove_eq {nbr : NbrTables} (hlocked : nbr.lockedMap i = 0) (k : ℕ) :
    nbr.nbrTableRemove k i = { nbr with
      usedMap := update nbr.usedMap i (NbrTables.setBit (nbr.usedMap i) k false) } := by
  have hzero : NbrTables.setBit (nbr.lockedMap i) k false = nbr.lockedMap i := by
    simp [hlocked, NbrTables.setBit]
  simp only [NbrTables.nbrTableRemove, NbrTables.setUsed, NbrTables.setLocked, hzero,
    update_eq_self]

/-- One table: its callback is called if it has the neighbor, and no other table loses it. -/
theorem Indexed.callTable (h : s.Indexed) (hlocked : s.nbr.lockedMap i = 0) (k : ℕ) :
    Called s (NbrRegistry.callTable i s k) i (s.caller i k).toList ∧
      ∀ k' < maxNumTables, k' ≠ k →
        (NbrRegistry.callTable i s k).nbr.used k' i = s.nbr.used k' i := by
  cases htable : s.allTables k with
  | none => simpa [NbrRegistry.callTable, caller, htable] using Called.refl s i
  | some t =>
    have hindex := (h.index k t htable).1
    cases hcallback : s.callback t with
    | none =>
      simpa [NbrRegistry.callTable, caller, htable, hcallback, filter_some] using
        Called.refl s i
    | some c =>
      cases hused : s.nbr.used k i with
      | false =>
        simpa [NbrRegistry.callTable, caller, htable, hcallback, hindex, hused, filter_some]
          using Called.refl s i
      | true =>
        simp only [NbrRegistry.callTable, caller, htable, hcallback, hindex, hused]
        simp only [filter_some, isSome_some, hcallback, Bool.and_self, if_true,
          toList_some]
        split_ifs with hremove
        · rw [nbrTableRemove_eq hlocked]
          refine ⟨⟨rfl, rfl, rfl, rfl, rfl, _, rfl⟩, ?_⟩
          intro k' hk' hne
          simp [NbrTables.used, getLsbD_setBit _ hk', hne]
        · refine ⟨⟨rfl, rfl, rfl, rfl, rfl, s.nbr.usedMap i, ?_⟩, fun _ _ _ => rfl⟩
          rw [update_eq_self]

theorem Indexed.called {ts : List TableId} (h : s.Indexed) (hcalled : Called s s' i ts) :
    s'.Indexed := by
  obtain ⟨hindex, -, hall, hnum, -, -⟩ := hcalled
  refine ⟨hnum ▸ h.numTables, ?_, ?_⟩
  · rw [hall, hindex, hnum]
    exact h.index
  · rw [hindex]
    exact h.index_lt

/-- The loop over some of the tables. -/
theorem Indexed.foldl_callTable (h : s.Indexed) (hlocked : s.nbr.lockedMap i = 0) {ks : List ℕ}
    (hnodup : ks.Nodup) (hlt : ∀ k ∈ ks, k < maxNumTables) :
    Called s (ks.foldl (NbrRegistry.callTable i) s) i (ks.filterMap (s.caller i)) := by
  induction ks generalizing s with
  | nil => exact .refl s i
  | cons k ks ih =>
    obtain ⟨hk, hnodup⟩ := List.nodup_cons.mp hnodup
    obtain ⟨hcalled, hsame⟩ := h.callTable hlocked k
    have hlocked' : (NbrRegistry.callTable i s k).nbr.lockedMap i = 0 := by
      obtain ⟨used, hused⟩ := hcalled.nbr
      rw [hused]
      exact hlocked
    have hrest := ih (h.called hcalled) hlocked' hnodup fun k' hk' =>
      hlt k' (mem_cons_of_mem k hk')
    have hcaller : ks.filterMap ((NbrRegistry.callTable i s k).caller i) =
        ks.filterMap (s.caller i) := by
      apply filterMap_congr
      intro k' hk'
      have hne : k' ≠ k := fun heq => hk (heq ▸ hk')
      simp only [caller, hcalled.allTables, hcalled.callback,
        hsame k' (hlt k' (mem_cons_of_mem k hk')) hne]
    rw [hcaller] at hrest
    have hsplit : (k :: ks).filterMap (s.caller i) =
        (s.caller i k).toList ++ ks.filterMap (s.caller i) := by
      cases hc : s.caller i k <;> simp [hc]
    rw [foldl_cons, hsplit]
    exact hcalled.trans hrest

/-- The registry after an operation that called the callbacks of some tables for a neighbor. -/
structure Recycled (s s' : NbrRegistry) (i : ℕ) (tables : List TableId) : Prop where
  index : s'.index = s.index
  callback : s'.callback = s.callback
  allTables : s'.allTables = s.allTables
  numTables : s'.numTables = s.numTables
  calls : s'.calls = s.calls ++ tables.map fun t => (t, i)

theorem Recycled.refl (s : NbrRegistry) (nbr : NbrTables) (i : ℕ) :
    Recycled s { s with nbr := nbr } i [] := ⟨rfl, rfl, rfl, rfl, by simp⟩

theorem Recycled.setNbr {ts : List TableId} (h : Recycled s s' i ts) (nbr : NbrTables) :
    Recycled s { s' with nbr := nbr } i ts := ⟨h.index, h.callback, h.allTables, h.numTables, h.calls⟩

theorem Indexed.recycled {ts : List TableId} (h : s.Indexed) (hs : Recycled s s' i ts) :
    s'.Indexed := by
  refine ⟨hs.numTables ▸ h.numTables, ?_, ?_⟩
  · rw [hs.allTables, hs.index, hs.numTables]
    exact h.index
  · rw [hs.index]
    exact h.index_lt

theorem Recycled.registered_iff {ts : List TableId} (h : Recycled s s' i ts) :
    s'.nbrTableIsRegistered t ↔ s.nbrTableIsRegistered t := by
  simp only [nbrTableIsRegistered, h.index, h.allTables]

/-- **An unlocked neighbor is removed**, after the callback of each table that has it is called
once. -/
theorem Indexed.removeKey (h : s.Indexed) (hlocked : s.nbr.lockedMap i = 0) :
    Recycled s (s.removeKey i) i (s.callers i) ∧ (s.removeKey i).nbr = s.nbr.removeKey i := by
  have hcalled := h.foldl_callTable hlocked (@List.nodup_range maxNumTables)
    fun k hk => List.mem_range.mp hk
  refine ⟨⟨hcalled.index, hcalled.callback, hcalled.allTables, hcalled.numTables, hcalled.calls⟩, ?_⟩
  obtain ⟨used, hused⟩ := hcalled.nbr
  simp only [NbrRegistry.removeKey, hused, NbrTables.removeKey, update_idem]

/-! ## The neighbors are those of the tables without callbacks -/

theorem Indexed.reuseLeastUsed (h : s.Indexed) (hreuse : s.reuseLeastUsed = some (i, s')) :
    s.nbr.reuseLeastUsed = some (i, s'.nbr) ∧ i ∈ s.nbr.nbrTableKeys ∧
      Recycled s s' i (s.callers i) := by
  obtain ⟨k, hk, heq⟩ := map_eq_some_iff.mp hreuse
  cases heq
  obtain ⟨hlocked, hmem⟩ := leastUsed_spec (by simp) hk
  obtain ⟨hrecycled, hnbr⟩ := h.removeKey hlocked
  refine ⟨?_, by simpa using hmem, hrecycled⟩
  rw [hnbr, NbrTables.reuseLeastUsed, hk]
  rfl

/-- A new place is one never used, or callbacks have been called for what is there. -/
theorem Indexed.nbrTableAllocate (h : s.Indexed) (hok : s.nbr.Ok)
    (halloc : s.nbrTableAllocate cfg reason candidate = some (i, s')) :
    s.nbr.nbrTableAllocate cfg reason candidate = some (i, s'.nbr) ∧
      Recycled s s' i (if i ∈ s.nbr.nbrTableKeys then s.callers i else []) := by
  have hreuse : s.reuseLeastUsed = some (i, s') →
      s.nbr.reuseLeastUsed = some (i, s'.nbr) ∧
        Recycled s s' i (if i ∈ s.nbr.nbrTableKeys then s.callers i else []) := by
    intro hr
    obtain ⟨hnbr, hmem, hrecycled⟩ := h.reuseLeastUsed hr
    rw [if_pos hmem]
    exact ⟨hnbr, hrecycled⟩
  cases hk : (range cfg.maxNeighbors).find? fun i => !s.nbr.neighborAddrMem i with
  | some k =>
    simp only [NbrRegistry.nbrTableAllocate, hk] at halloc
    cases halloc
    have hnot : i ∉ s.nbr.nbrTableKeys := by
      intro hmem
      simpa [hok.inUse i hmem] using List.find?_some hk
    refine ⟨by simp only [NbrTables.nbrTableAllocate, hk], ?_⟩
    rw [if_neg hnot]
    exact .refl s _ i
  | none =>
    cases hpolicy : cfg.findRemovable.find reason candidate with
    | none =>
      simp only [NbrRegistry.nbrTableAllocate, hk, hpolicy] at halloc
      simp only [NbrTables.nbrTableAllocate, hk, hpolicy]
      exact hreuse halloc
    | some choice =>
      cases choice with
      | none => simp [NbrRegistry.nbrTableAllocate, hk, hpolicy] at halloc
      | some lladdr =>
        cases hindex : s.nbr.indexFromLladdr lladdr with
        | none =>
          simp only [NbrRegistry.nbrTableAllocate, hk, hpolicy, hindex] at halloc
          simp only [NbrTables.nbrTableAllocate, hk, hpolicy, hindex]
          exact hreuse halloc
        | some k =>
          simp only [NbrRegistry.nbrTableAllocate, hk, hpolicy, hindex] at halloc
          obtain ⟨hmem, -⟩ := indexFromLladdr_some hindex
          cases halloc
          obtain ⟨hrecycled, hnbr⟩ := Indexed.removeKey (i := i) (s := { s with
            nbr := { s.nbr with lockedMap := update s.nbr.lockedMap i 0 } })
            ⟨h.numTables, h.index, h.index_lt⟩ (by simp)
          refine ⟨by simp only [NbrTables.nbrTableAllocate, hk, hpolicy, hindex, hnbr], ?_⟩
          rw [if_pos hmem]
          exact ⟨hrecycled.index, hrecycled.callback, hrecycled.allTables, hrecycled.numTables,
            hrecycled.calls⟩

/-- **Adding an address** changes the neighbors as without callbacks; they are called where a
neighbor loses its place. -/
theorem Indexed.nbrTableAddLladdr (h : s.Indexed) (hok : s.nbr.Ok)
    (hadd : s.nbrTableAddLladdr cfg table addr reason candidate = some (i, s')) :
    s.nbr.nbrTableAddLladdr cfg (s.index table) addr reason candidate = some (i, s'.nbr) ∧
      Recycled s s' i
        (if i ∈ s.nbr.nbrTableKeys ∧ s.nbr.lladdr i ≠ addr then s.callers i else []) := by
  cases hk : s.nbr.indexFromLladdr addr with
  | some k =>
    simp only [NbrRegistry.nbrTableAddLladdr, hk] at hadd
    cases hadd
    obtain ⟨-, haddr⟩ := indexFromLladdr_some hk
    refine ⟨by simp only [NbrTables.nbrTableAddLladdr, hk], ?_⟩
    rw [if_neg fun hand => hand.2 haddr]
    exact .refl s _ i
  | none =>
    simp only [NbrRegistry.nbrTableAddLladdr, hk] at hadd
    obtain ⟨⟨k, u⟩, halloc, heq⟩ := map_eq_some_iff.mp hadd
    cases heq
    obtain ⟨hnbr, hrecycled⟩ := h.nbrTableAllocate hok halloc
    have hiff : (k ∈ s.nbr.nbrTableKeys ∧ s.nbr.lladdr k ≠ addr) = (k ∈ s.nbr.nbrTableKeys) :=
      propext (and_iff_left_of_imp (indexFromLladdr_none.mp hk k))
    refine ⟨?_, ?_⟩
    · simp only [NbrTables.nbrTableAddLladdr, hk, hnbr, map_some, hrecycled.index]
    · simp only [hiff]
      exact hrecycled.setNbr _

end NbrRegistry

namespace NbrHistory

variable {cfg : NbrTableConfig} {s s' : NbrHistory} {table t : TableId} {i j k : ℕ}
  {addr a : LinkAddr} {reason : NbrTableReason} {candidate : Option LinkAddr}

/-! ## Keys -/

/-- A key is a place of the pool, and addresses are listed once. -/
structure Ok (cfg : NbrTableConfig) (s : NbrHistory) : Prop where
  indexed : s.reg.Indexed
  nbr : s.reg.nbr.Ok
  lt : ∀ i ∈ s.reg.nbr.nbrTableKeys, i < cfg.maxNeighbors

theorem init_ok : Ok cfg init :=
  ⟨NbrRegistry.init_indexed, NbrTables.init_ok, by simp [init, NbrRegistry.init, NbrTables.init]⟩

/-- There are at most as many keys as the pool has places. -/
theorem Ok.length_le (h : Ok cfg s) : s.reg.nbr.nbrTableKeys.length ≤ cfg.maxNeighbors :=
  @InUse.length_le _ (fun i => i ∈ s.reg.nbr.nbrTableKeys) _ ⟨h.nbr.nodup, by simp, h.lt⟩

theorem Ok.nodup_addresses (h : Ok cfg s) :
    (s.reg.nbr.nbrTableKeys.map s.reg.nbr.lladdr).Nodup :=
  (nodup_map_iff_inj_on h.nbr.nodup).mpr h.nbr.inj

/-- A place that is allocated is one of the pool. -/
theorem allocate_lt {nbr nbr' : NbrTables} (hlt : ∀ i ∈ nbr.nbrTableKeys, i < cfg.maxNeighbors)
    (halloc : nbr.nbrTableAllocate cfg reason candidate = some (i, nbr')) : i < cfg.maxNeighbors := by
  have hreuse : nbr.reuseLeastUsed = some (i, nbr') → i < cfg.maxNeighbors := by
    intro hr
    obtain ⟨k, hk, heq⟩ := map_eq_some_iff.mp hr
    cases heq
    apply hlt
    simpa using (leastUsed_spec (by simp) hk).2
  simp only [NbrTables.nbrTableAllocate] at halloc
  split at halloc
  · rename_i k hk
    cases halloc
    exact List.mem_range.mp (List.mem_of_find?_eq_some hk)
  · split at halloc
    · cases halloc
    · split at halloc
      · rename_i k hk
        cases halloc
        exact hlt _ (indexFromLladdr_some hk).1
      · exact hreuse halloc
    · exact hreuse halloc

theorem addLladdr_lt {nbr nbr' : NbrTables} (hlt : ∀ i ∈ nbr.nbrTableKeys, i < cfg.maxNeighbors)
    (hadd : nbr.nbrTableAddLladdr cfg k addr reason candidate = some (i, nbr')) :
    i < cfg.maxNeighbors := by
  simp only [NbrTables.nbrTableAddLladdr] at hadd
  split at hadd
  · rename_i j hj
    cases hadd
    exact hlt _ (indexFromLladdr_some hj).1
  · obtain ⟨⟨j, u⟩, halloc, heq⟩ := map_eq_some_iff.mp hadd
    cases heq
    exact allocate_lt hlt halloc

/-- What an addition does that finds a place. -/
theorem Ok.nbrTableAddLladdr {reg : NbrRegistry} (h : Ok cfg s)
    (hadd : s.reg.nbrTableAddLladdr cfg table addr reason candidate = some (i, reg)) :
    (reg.Indexed ∧ reg.nbr.Ok ∧ ∀ j ∈ reg.nbr.nbrTableKeys, j < cfg.maxNeighbors) ∧
      i ∈ reg.nbr.nbrTableKeys ∧ reg.nbr.lladdr i = addr ∧
      NbrTables.SameOutside s.reg.nbr reg.nbr i ∧
      NbrTables.AddCase s.reg.nbr reg.nbr (s.reg.index table) addr reason i ∧
      NbrRegistry.Recycled s.reg reg i (if i ∈ s.reg.nbr.nbrTableKeys ∧ s.reg.nbr.lladdr i ≠ addr
        then s.reg.callers i else []) := by
  obtain ⟨hnbr, hrecycled⟩ := h.indexed.nbrTableAddLladdr h.nbr hadd
  obtain ⟨hok, hmem, haddr, hsame, hcase⟩ := h.nbr.addLladdr_spec hnbr
  refine ⟨⟨h.indexed.recycled hrecycled, hok, ?_⟩, hmem, haddr, hsame, hcase, hrecycled⟩
  intro j hj
  by_cases hji : j = i
  · exact hji ▸ addLladdr_lt h.lt hnbr
  · exact h.lt j ((hsame.keys j hji).mp hj)

theorem Ok.step {e : RegistryEvent} (h : Ok cfg s) (hstep : s.step cfg e = some s') : Ok cfg s' := by
  cases e with
  | register table callback =>
    cases hstep
    have hsame : (s.reg.nbrTableRegister table callback).nbr = s.reg.nbr := by
      simp only [NbrRegistry.nbrTableRegister]
      split_ifs <;> rfl
    exact ⟨h.indexed.nbrTableRegister table callback, hsame ▸ h.nbr, by simpa [hsame] using h.lt⟩
  | add table addr reason candidate =>
    cases hstep
    simp only [NbrHistory.add]
    split
    · exact h
    · rename_i i reg hadd
      obtain ⟨⟨hindexed, hnbr, hlt⟩, -⟩ := h.nbrTableAddLladdr hadd
      exact ⟨hindexed, hnbr, hlt⟩
  | remove table i =>
    simp only [NbrHistory.step] at hstep
    split_ifs at hstep
    cases hstep
    exact ⟨⟨h.indexed.numTables, h.indexed.index, h.indexed.index_lt⟩, h.nbr.nbrTableRemove _ i, h.lt⟩
  | lock table i =>
    simp only [NbrHistory.step] at hstep
    split_ifs at hstep
    cases hstep
    exact ⟨⟨h.indexed.numTables, h.indexed.index, h.indexed.index_lt⟩,
      ⟨h.nbr.nodup, h.nbr.inj, h.nbr.inUse, h.nbr.unlisted⟩, h.lt⟩
  | unlock table i =>
    simp only [NbrHistory.step] at hstep
    split_ifs at hstep
    cases hstep
    exact ⟨⟨h.indexed.numTables, h.indexed.index, h.indexed.index_lt⟩,
      ⟨h.nbr.nodup, h.nbr.inj, h.nbr.inUse, h.nbr.unlisted⟩, h.lt⟩

/-! ## Items -/

/-- A table has an item for an address. -/
def Reach (reg : NbrRegistry) (t : TableId) (a : LinkAddr) : Prop :=
  ∃ i ∈ reg.nbr.nbrTableKeys, reg.nbr.lladdr i = a ∧ reg.nbr.used (reg.index t) i

theorem reach_iff {reg : NbrRegistry} (h : reg.nbr.Ok) :
    Reach reg t a ↔ (reg.nbrTableGetFromLladdr t a).isSome := by
  simp only [NbrRegistry.nbrTableGetFromLladdr, NbrTables.nbrTableGetFromLladdr]
  constructor
  · rintro ⟨i, hi, rfl, hused⟩
    rw [h.indexFromLladdr_eq hi, filter_some, if_pos hused, isSome_some]
  · intro hsome
    obtain ⟨i, hi⟩ := isSome_iff_exists.mp hsome
    obtain ⟨hindex, hused⟩ := filter_eq_some_iff.mp hi
    obtain ⟨hmem, haddr⟩ := indexFromLladdr_some hindex
    exact ⟨i, hmem, haddr, hused⟩

/-- What was added to a registered table is what it has; no other table has anything. -/
structure Items (s : NbrHistory) : Prop where
  unused : ∀ k, s.reg.numTables ≤ k → ∀ i, s.reg.nbr.used k i = false
  fresh : ∀ t, ¬s.reg.nbrTableIsRegistered t → ∀ a, s.added t a = false
  reach : ∀ t, s.reg.nbrTableIsRegistered t → ∀ a, s.added t a = true ↔ Reach s.reg t a

theorem init_items : Items init where
  unused := by simp [init, NbrRegistry.init, NbrTables.init, NbrTables.used]
  fresh := by simp [init]
  reach := by simp [init, NbrRegistry.init, NbrTables.init, NbrTables.used, Reach]

/-- Operations that leave the maps of tables that use neighbors. -/
theorem Items.setLocked (h : Items s) (k i : ℕ) (value : Bool) :
    Items { s with reg := { s.reg with nbr := s.reg.nbr.setLocked k i value } } :=
  ⟨h.unused, h.fresh, h.reach⟩

theorem Items.register (h : Items s) (hok : Ok cfg s) (table : TableId)
    (callback : Option NbrCallback) :
    Items { s with reg := s.reg.nbrTableRegister table callback } := by
  by_cases hreg : s.reg.nbrTableIsRegistered table
  · simp only [NbrRegistry.nbrTableRegister, if_pos hreg]
    exact ⟨h.unused, h.fresh, h.reach⟩
  by_cases hroom : s.reg.numTables < maxNumTables
  · have hother : ∀ t, t ≠ table →
        ((s.reg.nbrTableRegister table callback).nbrTableIsRegistered t ↔
          s.reg.nbrTableIsRegistered t) :=
      fun t hne => hok.indexed.registered_register hroom hne callback
    have heq : s.reg.nbrTableRegister table callback = { s.reg with
        index := update s.reg.index table s.reg.numTables
        callback := update s.reg.callback table callback
        allTables := update s.reg.allTables s.reg.numTables (some table)
        numTables := s.reg.numTables + 1 } := by
      simp only [NbrRegistry.nbrTableRegister, if_neg hreg, if_pos hroom]
    refine ⟨?_, ?_, ?_⟩
    · intro k hk i
      rw [heq] at hk ⊢
      exact h.unused k (Nat.le_of_succ_le hk) i
    · intro t ht a
      by_cases hne : t = table
      · subst hne
        exact h.fresh t hreg a
      · exact h.fresh t (fun hold => ht ((hother t hne).mpr hold)) a
    · intro t ht a
      by_cases hne : t = table
      · -- the new bit is clear for every neighbor
        subst hne
        simp [heq, Reach, h.fresh t hreg a, h.unused s.reg.numTables le_rfl]
      · have hreach := h.reach t ((hother t hne).mp ht) a
        simpa [heq, Reach, hne] using hreach
  · simp only [NbrRegistry.nbrTableRegister, if_neg hreg, if_neg hroom]
    exact ⟨h.unused, h.fresh, h.reach⟩

theorem Items.remove (h : Items s) (hok : Ok cfg s) (htable : s.reg.nbrTableIsRegistered table)
    (i : ℕ) : Items (s.remove table i) := by
  refine ⟨?_, ?_, ?_⟩
  · intro k hk j
    simp [NbrHistory.remove, used_nbrTableRemove, h.unused k hk j]
  · intro t ht a
    simp [NbrHistory.remove, h.fresh t ht a]
  · intro t ht a
    have hindex : s.reg.index t = s.reg.index table ↔ t = table :=
      ⟨NbrRegistry.index_inj ht htable, fun heq => heq ▸ rfl⟩
    simp only [NbrHistory.remove, Reach, used_nbrTableRemove, hindex]
    split_ifs with hcase
    · obtain ⟨rfl, hi, rfl⟩ := hcase
      simp only [false_iff, true_and]
      rintro ⟨j, hj, haddr, hused⟩
      have hji : j = i := hok.nbr.inj j hj i hi haddr
      simp [hji] at hused
    · rw [h.reach t ht a]
      apply exists_congr
      intro j
      apply and_congr_right
      intro hj
      apply and_congr_right
      rintro rfl
      have hnot : ¬(t = table ∧ j = i) := by
        rintro ⟨rfl, rfl⟩
        exact hcase ⟨rfl, hj, rfl⟩
      rw [if_neg hnot]

/-- **An item is added**, and what was at its place is gone from all tables. -/
theorem reach_add {reg : NbrRegistry} (hok : Ok cfg s) (ht : s.reg.nbrTableIsRegistered t)
    (htable : s.reg.nbrTableIsRegistered table)
    (hadd : s.reg.nbrTableAddLladdr cfg table addr reason candidate = some (i, reg)) :
    Reach reg t a ↔ (t = table ∧ a = addr) ∨
      (¬(i ∈ s.reg.nbr.nbrTableKeys ∧ a = s.reg.nbr.lladdr i ∧ a ≠ addr) ∧ Reach s.reg t a) := by
  obtain ⟨-, hmem, haddr, hsame, hcase, hrecycled⟩ := hok.nbrTableAddLladdr hadd
  have hbit : s.reg.index t = s.reg.index table ↔ t = table :=
    ⟨NbrRegistry.index_inj ht htable, fun heq => heq ▸ rfl⟩
  have hindex : reg.index t = s.reg.index t := by rw [hrecycled.index]
  have hlt := ht.1
  simp only [Reach, hindex]
  constructor
  · rintro ⟨j, hj, rfl, hused⟩
    by_cases hji : j = i
    · subst hji
      simp only [NbrTables.used] at hused ⊢
      cases hcase with
      | known hi haddr' hmap _ =>
        rw [hmap, getLsbD_setBit _ hlt] at hused
        by_cases htt : t = table
        · exact Or.inl ⟨htt, haddr⟩
        · rw [if_neg (hbit.not.mpr htt)] at hused
          refine Or.inr ⟨fun hnot => hnot.2.2 haddr, j, hi, ?_, hused⟩
          rw [haddr', haddr]
      | new _ hmap _ =>
        rw [hmap, getLsbD_setBit _ hlt] at hused
        by_cases htt : t = table
        · exact Or.inl ⟨htt, haddr⟩
        · simp [hbit, htt] at hused
    · have hj' := (hsame.keys j hji).mp hj
      rw [hsame.lladdr j hji]
      refine Or.inr ⟨?_, j, hj', rfl, ?_⟩
      · rintro ⟨hi, heq, -⟩
        exact hji (hok.nbr.inj j hj' i hi heq)
      · simpa [NbrTables.used, hsame.usedMap j hji] using hused
  · rintro (⟨rfl, rfl⟩ | ⟨hnot, j, hj, rfl, hused⟩)
    · refine ⟨i, hmem, haddr, ?_⟩
      simp only [NbrTables.used]
      cases hcase with
      | known _ _ hmap _ => simp [hmap, getLsbD_setBit _ hlt]
      | new _ hmap _ => simp [hmap, getLsbD_setBit _ hlt]
    · by_cases hji : j = i
      · subst hji
        cases hcase with
        | known _ haddr' hmap _ =>
          refine ⟨j, hmem, by rw [haddr, haddr'], ?_⟩
          simp only [NbrTables.used, hmap, getLsbD_setBit _ hlt] at hused ⊢
          split_ifs
          · rfl
          · exact hused
        | new hnew _ _ => exact absurd ⟨hj, rfl, hnew j hj⟩ hnot
      · refine ⟨j, (hsame.keys j hji).mpr hj, hsame.lladdr j hji, ?_⟩
        simpa [NbrTables.used, hsame.usedMap j hji] using hused

theorem Items.add (h : Items s) (hok : Ok cfg s) (htable : s.reg.nbrTableIsRegistered table) :
    Items (s.add cfg table addr reason candidate) := by
  simp only [NbrHistory.add]
  split
  · exact h
  · rename_i i reg hadd
    obtain ⟨-, -, -, hsame, hcase, hrecycled⟩ := hok.nbrTableAddLladdr hadd
    have hindexed := hok.indexed.index _ table htable.2
    refine ⟨?_, ?_, ?_⟩
    · intro k hk j
      rw [hrecycled.numTables] at hk
      have hold := h.unused k hk j
      have hne : k ≠ s.reg.index table := fun heq => absurd hindexed.2 (Nat.not_lt.mpr (heq ▸ hk))
      by_cases hk8 : k < 8
      · by_cases hji : j = i
        · subst hji
          simp only [NbrTables.used] at hold ⊢
          cases hcase with
          | known _ _ hmap _ => rw [hmap, getLsbD_setBit _ hk8, if_neg hne, hold]
          | new _ hmap _ => simp [hmap, getLsbD_setBit _ hk8, hne]
        · simpa [NbrTables.used, hsame.usedMap j hji] using hold
      · exact used_of_ge (Nat.le_of_not_lt hk8)
    · intro t ht a
      rw [hrecycled.registered_iff] at ht
      have hne : t ≠ table := fun heq => ht (heq ▸ htable)
      simp [hne, h.fresh t ht a]
    · intro t ht a
      rw [hrecycled.registered_iff] at ht
      rw [reach_add hok ht htable hadd, ← h.reach t ht a]
      simp only
      split_ifs with hnew hold
      · exact iff_of_true rfl (Or.inl hnew)
      · exact iff_of_false not_false fun hor => hor.elim hnew fun hand => hand.1 hold
      · exact ⟨fun hadded => Or.inr ⟨hold, hadded⟩, fun hor => (hor.resolve_left hnew).2⟩

theorem Items.step {e : RegistryEvent} (h : Items s) (hok : Ok cfg s) (he : s.OnRegistered e)
    (hstep : s.step cfg e = some s') : Items s' := by
  cases e with
  | register table callback =>
    cases hstep
    exact h.register hok table callback
  | add table addr reason candidate =>
    cases hstep
    exact h.add hok he
  | remove table i =>
    simp only [NbrHistory.step] at hstep
    split_ifs at hstep
    cases hstep
    exact h.remove hok he i
  | lock table i =>
    simp only [NbrHistory.step] at hstep
    split_ifs at hstep
    cases hstep
    exact h.setLocked _ i true
  | unlock table i =>
    simp only [NbrHistory.step] at hstep
    split_ifs at hstep
    cases hstep
    exact h.setLocked _ i false

/-! ## Evictions -/

/-- A neighbor is evicted: its place is given to another address. -/
def Evicted (s s' : NbrHistory) (i : ℕ) : Prop :=
  i ∈ s.reg.nbr.nbrTableKeys ∧ s'.reg.nbr.lladdr i ≠ s.reg.nbr.lladdr i

/-- What happens when a neighbor is evicted for an address of a table. -/
structure Eviction (cfg : NbrTableConfig) (s s' : NbrHistory) (i : ℕ) (table : TableId)
    (reason : NbrTableReason) (candidate : Option LinkAddr) : Prop where
  unlocked : s.reg.nbr.lockedMap i = 0 ∨
    cfg.findRemovable.find reason candidate = some (some (s.reg.nbr.lladdr i))
  calls : ∃ tables : List TableId, tables.Nodup ∧
    s'.reg.calls = s.reg.calls ++ tables.map (fun t => (t, i)) ∧
    ∀ t, t ∈ tables ↔ s.reg.nbrTableIsRegistered t ∧ (s.reg.callback t).isSome ∧
      s.reg.nbr.used (s.reg.index t) i
  used : ∀ k, s'.reg.nbr.used k i → k = s.reg.index table
  locked : ∀ k, s'.reg.nbr.locked k i = false

/-- Locks of a neighbor that is evicted. -/
theorem lockedMap_evicted {nbr nbr' : NbrTables} (h : nbr.Ok)
    (hadd : nbr.nbrTableAddLladdr cfg k addr reason candidate = some (i, nbr'))
    (hi : i ∈ nbr.nbrTableKeys) (hne : nbr.lladdr i ≠ addr) : nbr'.lockedMap i = 0 ∧
      (nbr.lockedMap i = 0 ∨
        cfg.findRemovable.find reason candidate = some (some (nbr.lladdr i))) := by
  simp only [NbrTables.nbrTableAddLladdr] at hadd
  split at hadd
  · rename_i j hj
    cases hadd
    exact absurd (indexFromLladdr_some hj).2 hne
  · obtain ⟨⟨j, u⟩, halloc, heq⟩ := map_eq_some_iff.mp hadd
    cases heq
    have hevicted := allocate_evicted h halloc hi
    exact hevicted

/-- **A neighbor is evicted** that no table locks or that the policy names. The callback of each
table that has it is called once, and no table uses or locks the place afterwards but the one
the new address is for. -/
theorem Ok.eviction {reg : NbrRegistry} (h : Ok cfg s)
    (hadd : s.reg.nbrTableAddLladdr cfg table addr reason candidate = some (i, reg))
    (hi : i ∈ s.reg.nbr.nbrTableKeys) (hne : s.reg.nbr.lladdr i ≠ addr) {f : TableId → LinkAddr → Bool} :
    Eviction cfg s ⟨reg, f⟩ i table reason candidate := by
  obtain ⟨-, -, -, -, hcase, hrecycled⟩ := h.nbrTableAddLladdr hadd
  rw [if_pos ⟨hi, hne⟩] at hrecycled
  obtain ⟨hnbr, -⟩ := h.indexed.nbrTableAddLladdr h.nbr hadd
  have hlocked := lockedMap_evicted h.nbr hnbr hi hne
  refine ⟨hlocked.2, ⟨_, h.indexed.nodup_callers, hrecycled.calls, fun t => h.indexed.mem_callers⟩,
    ?_, ?_⟩
  · intro k hused
    cases hcase with
    | known _ haddr _ _ => exact absurd haddr hne
    | new _ hmap _ =>
      by_cases hk : k < 8
      · simp only [NbrTables.used, hmap, getLsbD_setBit _ hk] at hused
        by_contra hk'
        simp [hk'] at hused
      · simp [used_of_ge (Nat.le_of_not_lt hk)] at hused
  · intro k
    simp [NbrTables.locked, hlocked.1]

/-- Nothing but an addition evicts a neighbor. -/
theorem Ok.evicted {e : RegistryEvent} (h : Ok cfg s) (hstep : s.step cfg e = some s')
    (hevicted : Evicted s s' i) : ∃ table addr reason candidate,
      e = .add table addr reason candidate ∧ Eviction cfg s s' i table reason candidate := by
  obtain ⟨hi, hne⟩ := hevicted
  cases e with
  | register table callback =>
    cases hstep
    refine absurd ?_ hne
    simp only [NbrRegistry.nbrTableRegister]
    split_ifs <;> rfl
  | add table addr reason candidate =>
    cases hstep
    refine ⟨table, addr, reason, candidate, rfl, ?_⟩
    cases hadd : s.reg.nbrTableAddLladdr cfg table addr reason candidate with
    | none => simp [NbrHistory.add, hadd] at hne
    | some p =>
      obtain ⟨j, reg⟩ := p
      obtain ⟨-, -, haddr, hsame, -, -⟩ := h.nbrTableAddLladdr hadd
      simp only [NbrHistory.add, hadd] at hne ⊢
      by_cases hij : i = j
      · subst hij
        exact h.eviction hadd hi fun heq => hne (haddr.trans heq.symm)
      · exact absurd (hsame.lladdr i hij) hne
  | remove table j =>
    simp only [NbrHistory.step] at hstep
    split_ifs at hstep
    cases hstep
    exact absurd rfl hne
  | lock table j =>
    simp only [NbrHistory.step] at hstep
    split_ifs at hstep
    cases hstep
    exact absurd rfl hne
  | unlock table j =>
    simp only [NbrHistory.step] at hstep
    split_ifs at hstep
    cases hstep
    exact absurd rfl hne

/-! ## Runs -/

/-- **The tables of neighbors in every reachable state.** Addresses are listed once, in as many
places as there are; where operations are on registered tables, a table has an item for an
address exactly when it was added and not removed since, or evicted; and a locked neighbor is
evicted where the policy names it, only. -/
theorem nbr_tables_run {es : List RegistryEvent} (hrun : run (step cfg) init es = some s) :
    (s.reg.nbr.nbrTableKeys.map s.reg.nbr.lladdr).Nodup ∧
    s.reg.nbr.nbrTableKeys.length ≤ cfg.maxNeighbors ∧
    (Along (step cfg) OnRegistered init es → ∀ t, s.reg.nbrTableIsRegistered t → ∀ a,
      (s.reg.nbrTableGetFromLladdr t a).isSome = s.added t a) ∧
    ∀ e s' i, s.step cfg e = some s' → Evicted s s' i → ∃ table addr reason candidate,
      e = .add table addr reason candidate ∧ Eviction cfg s s' i table reason candidate := by
  have h : Ok cfg s := run_invariant (Ok cfg) (fun _ _ _ hs hstep => hs.step hstep) init_ok hrun
  refine ⟨h.nodup_addresses, h.length_le, ?_, fun e s' i hstep => h.evicted hstep⟩
  intro halong t ht a
  have hitems : Ok cfg s ∧ Items s := run_induction (fun s => Ok cfg s ∧ Items s)
    (fun _ _ _ he hs hstep => ⟨hs.1.step hstep, hs.2.step hs.1 he hstep⟩) ⟨init_ok, init_items⟩
    halong hrun
  rw [Bool.eq_iff_iff, ← reach_iff h.nbr, hitems.2.reach t ht a]

/-- One place, and a policy that may name who has it. -/
def onePlace : NbrTableConfig := ⟨1, .rplClassic⟩

/-- A neighbor is added and locked, and a DIO of another one comes. -/
def lockedThenDio : List RegistryEvent :=
  [.register 0 (some .remove), .add 0 (fun _ => 1) .undefined none, .lock 0 0,
    .add 0 (fun _ => 2) .rplDio (some fun _ => 1)]

theorem nbr_tables_run_dio : ∃ s, run (step onePlace) init lockedThenDio = some s ∧
    s.reg.calls = [(0, 0)] ∧ s.reg.nbr.nbrTableKeys.length ≤ 1 ∧
    (s.reg.nbrTableGetFromLladdr 0 fun _ => 1).isSome = s.added 0 fun _ => 1 :=
  ⟨_, rfl, by decide, (@nbr_tables_run onePlace _ lockedThenDio rfl).2.1,
    (@nbr_tables_run onePlace _ lockedThenDio rfl).2.2.1 (by decide) 0 (by decide) _⟩

/-- Nine tables, of which the last one is not registered, but used. -/
def nineTables : List RegistryEvent :=
  (List.range 9).map (fun t => .register t none) ++ [.add 8 (fun _ => 1) .undefined none]

/-- **A locked neighbor is evicted** where the policy names it; and what a ninth table adds, the
first one has. -/
theorem locked_evicted :
    (∃ s s', run (step onePlace) init (lockedThenDio.take 3) = some s ∧
      s.step onePlace (.add 0 (fun _ => 2) .rplDio (some fun _ => 1)) = some s' ∧
      Evicted s s' 0 ∧ s.reg.nbr.locked 0 0) ∧
    ∃ s, run (step onePlace) init nineTables = some s ∧ s.reg.nbrTableIsRegistered 0 ∧
      (s.reg.nbrTableGetFromLladdr 0 fun _ => 1).isSome ∧ s.added 0 (fun _ => 1) = false :=
  ⟨⟨_, _, rfl, rfl, ⟨by decide, by decide⟩, by decide⟩, _, rfl, by decide, by decide, by decide⟩

end NbrHistory

end Asap.Tsch
