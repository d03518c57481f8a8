import Asap.Tsch.Queue

/-!
# The tables of neighbors

All modules that keep data about neighbors share one list of link-layer addresses. A
table is an array with a place for each address, and a bit of `used_map` says which
places are in use. A table may lock an address, so that it is not given up when a new
one needs its place.

What a policy removes for a new address is up to the routing protocol. It is asked
with the reason of the addition, and it may pick a locked address; for an addition of
the MAC layer neither policy removes anything.

## Main definitions

* `NbrTables` — the addresses and which tables use and lock them.
* `nbrTableAllocate`, `nbrTableAddLladdr` — a place for an address.
* `NbrTables.Ok` — addresses are listed once, and what is not listed is not used.
* `NbrTables.Ok.addLladdr_spec` — what adding an address does.
-/

namespace Asap.Tsch

open Function Option

/-- `nbr_table_reason_t` -/
inductive NbrTableReason where
  | undefined | rplDio | rplDao | rplDis | route | ipv6Nd | ipv6NdAutofill | mac | llsec
  | linkStats | sixtop
deriving DecidableEq, Repr

/-- What `NBR_TABLE_FIND_REMOVABLE` is: not defined, or the policy of one of the two
implementations of RPL. -/
inductive FindRemovable where
  | undefined | rplLite | rplClassic
deriving DecidableEq, Repr

/-- The neighbor that may be removed, with the one the policy's own search comes to;
`none` where there is no policy. -/
def FindRemovable.find (policy : FindRemovable) (reason : NbrTableReason)
    (candidate : Option LinkAddr) : Option (Option LinkAddr) :=
  match policy, reason with
  | .undefined, _ => none
  | .rplLite, .rplDio => some candidate
  | .rplLite, .rplDis => some candidate
  | .rplLite, .ipv6NdAutofill => some candidate
  | .rplClassic, .rplDio => some candidate
  | .rplClassic, .rplDao => some candidate
  | .rplClassic, .rplDis => some candidate
  | _, _ => some none

/-- The build: `NBR_TABLE_MAX_NEIGHBORS` and the policy. -/
structure NbrTableConfig where
  maxNeighbors : ℕ
  findRemovable : FindRemovable

/-- The list of addresses, by their place in `neighbor_addr_mem`, and the maps of the
tables that use and lock them. -/
structure NbrTables where
  nbrTableKeys : List ℕ
  lladdr : ℕ → LinkAddr
  /-- the blocks of `neighbor_addr_mem`, in use or not -/
  neighborAddrMem : ℕ → Bool
  usedMap : ℕ → BitVec 8
  lockedMap : ℕ → BitVec 8

namespace NbrTables

variable {cfg : NbrTableConfig} {s s' : NbrTables} {table i j : ℕ} {addr : LinkAddr}
  {reason : NbrTableReason} {candidate : Option LinkAddr}

/-- No neighbor at all. -/
def init : NbrTables where
  nbrTableKeys := []
  lladdr := fun _ _ => 0
  neighborAddrMem := fun _ => false
  usedMap := fun _ => 0
  lockedMap := fun _ => 0

/-- `index_from_lladdr` -/
def indexFromLladdr (s : NbrTables) (addr : LinkAddr) : Option ℕ :=
  s.nbrTableKeys.find? fun i => s.lladdr i = addr

/-- `nbr_get_bit` on the used map. -/
def used (s : NbrTables) (table i : ℕ) : Bool := (s.usedMap i).getLsbD table

/-- `nbr_get_bit` on the locked map. -/
def locked (s : NbrTables) (table i : ℕ) : Bool := (s.lockedMap i).getLsbD table

/-- The places a table goes through from `nbr_table_head` with `nbr_table_next`. -/
def items (s : NbrTables) (table : ℕ) : List ℕ := s.nbrTableKeys.filter fun i => s.used table i

/-- `nbr_set_bit` on one byte of a map. -/
def setBit (b : BitVec 8) (table : ℕ) (value : Bool) : BitVec 8 :=
  if value then b ||| (1#8 <<< table) else b &&& ~~~(1#8 <<< table)

/-- `nbr_set_bit` on the used map. -/
def setUsed (s : NbrTables) (table i : ℕ) (value : Bool) : NbrTables :=
  { s with usedMap := Function.update s.usedMap i (setBit (s.usedMap i) table value) }

/-- `nbr_set_bit` on the locked map: `nbr_table_lock` and `nbr_table_unlock`. -/
def setLocked (s : NbrTables) (table i : ℕ) (value : Bool) : NbrTables :=
  { s with lockedMap := Function.update s.lockedMap i (setBit (s.lockedMap i) table value) }

/-- `remove_key`, without the callbacks of the tables. -/
def removeKey (s : NbrTables) (i : ℕ) : NbrTables :=
  { s with
    usedMap := Function.update s.usedMap i 0
    nbrTableKeys := s.nbrTableKeys.erase i }

/-- How many tables use a neighbor. -/
def usedCount (used : BitVec 8) : ℕ := (List.range 8).countP fun table => used.getLsbD table

/-- The search for the least used neighbor that no table locks, with the best one so far
and its count; it ends at one that no table uses. -/
def leastUsed (s : NbrTables) : List ℕ → Option (ℕ × ℕ) → Option ℕ
  | [], best => best.map Prod.fst
  | i :: is, best =>
    if s.lockedMap i ≠ 0 then s.leastUsed is best
    else
      let count := usedCount (s.usedMap i)
      if best.all fun b => count < b.2 then
        if count = 0 then some i else s.leastUsed is (some (i, count))
      else s.leastUsed is best

/-- The least used neighbor is removed for a new one. -/
def reuseLeastUsed (s : NbrTables) : Option (ℕ × NbrTables) :=
  (s.leastUsed s.nbrTableKeys none).map fun i => (i, s.removeKey i)

section

variable (cfg : NbrTableConfig) (s : NbrTables)

/-- `nbr_table_allocate`: the place found, and the tables without what was there. -/
def nbrTableAllocate (reason : NbrTableReason)
    (candidate : Option LinkAddr) : Option (ℕ × NbrTables) :=
  match (List.range cfg.maxNeighbors).find? fun i => !s.neighborAddrMem i with
  | some i => some (i, { s with neighborAddrMem := Function.update s.neighborAddrMem i true })
  | none =>
    match cfg.findRemovable.find reason candidate with
    | some none => none
    | some (some lladdr) =>
      match s.indexFromLladdr lladdr with
      | some i =>
        -- a locked neighbor is deleted, too
        some (i, { s with lockedMap := Function.update s.lockedMap i 0 }.removeKey i)
      | none => s.reuseLeastUsed
    | none => s.reuseLeastUsed

/-- `nbr_table_add_lladdr`, but for the item, which is set to zero. -/
def nbrTableAddLladdr (table : ℕ) (addr : LinkAddr)
    (reason : NbrTableReason) (candidate : Option LinkAddr) : Option (ℕ × NbrTables) :=
  match s.indexFromLladdr addr with
  | some i => some (i, s.setUsed table i true)
  | none =>
    (s.nbrTableAllocate cfg reason candidate).map fun (i, s) =>
      (i, { s with
            nbrTableKeys := s.nbrTableKeys.erase i ++ [i]
            lladdr := Function.update s.lladdr i addr }.setUsed table i true)

/-- The neighbor that is removed when an address is added, if one is. -/
def evicted (addr : LinkAddr) (reason : NbrTableReason)
    (candidate : Option LinkAddr) : Option ℕ :=
  match s.indexFromLladdr addr with
  | some _ => none
  | none =>
    ((s.nbrTableAllocate cfg reason candidate).map Prod.fst).filter fun i => i ∈ s.nbrTableKeys

end

/-- `nbr_table_get_from_lladdr` -/
def nbrTableGetFromLladdr (s : NbrTables) (table : ℕ) (addr : LinkAddr) : Option ℕ :=
  (s.indexFromLladdr addr).filter fun i => s.used table i

/-- `nbr_table_remove` -/
def nbrTableRemove (s : NbrTables) (table i : ℕ) : NbrTables :=
  (s.setUsed table i false).setLocked table i false

/-! ## Bits of the maps -/

theorem getLsbD_setBit (b : BitVec 8) {t : ℕ} (ht : t < 8) (value : Bool) :
    (setBit b table value).getLsbD t = if t = table then value else b.getLsbD t := by
  have hone : (1#8 <<< table).getLsbD t = decide (t = table) := by
    rw [BitVec.getLsbD_shiftLeft, BitVec.getLsbD_one]
    by_cases h : t = table <;> simp [h] <;> omega
  cases value with
  | true =>
    simp only [setBit, if_true, BitVec.getLsbD_or, hone]
    by_cases h : t = table <;> simp [h]
  | false =>
    simp only [setBit, Bool.false_eq_true, if_false, BitVec.getLsbD_and, BitVec.getLsbD_not, hone]
    by_cases h : t = table <;> simp [h, ht]

theorem used_setUsed {t : ℕ} (ht : t < 8) (value : Bool) :
    (s.setUsed table i value).used t j = if t = table ∧ j = i then value else s.used t j := by
  by_cases hj : j = i
  · subst hj
    simp [used, setUsed, getLsbD_setBit _ ht]
  · simp [used, setUsed, hj]

theorem locked_setLocked {t : ℕ} (ht : t < 8) (value : Bool) :
    (s.setLocked table i value).locked t j = if t = table ∧ j = i then value else s.locked t j := by
  by_cases hj : j = i
  · subst hj
    simp [locked, setLocked, getLsbD_setBit _ ht]
  · simp [locked, setLocked, hj]

theorem used_of_ge {t : ℕ} (ht : 8 ≤ t) : s.used t i = false := BitVec.getLsbD_of_ge _ _ ht

theorem used_nbrTableRemove (t : ℕ) :
    (s.nbrTableRemove table i).used t j = if t = table ∧ j = i then false else s.used t j := by
  change (s.setUsed table i false).used t j = _
  by_cases ht : t < 8
  · exact used_setUsed ht false
  · rw [used_of_ge (Nat.le_of_not_lt ht), used_of_ge (Nat.le_of_not_lt ht), ite_self]

theorem locked_nbrTableRemove {t : ℕ} (ht : t < 8) :
    (s.nbrTableRemove table i).locked t j = if t = table ∧ j = i then false else s.locked t j :=
  locked_setLocked ht false

theorem mem_items : i ∈ s.items table ↔ i ∈ s.nbrTableKeys ∧ s.used table i := List.mem_filter

/-! ## Addresses are listed once -/

/-- An address is listed once, and a place that is not listed is in no table. -/
structure Ok (s : NbrTables) : Prop where
  nodup : s.nbrTableKeys.Nodup
  inj : ∀ i ∈ s.nbrTableKeys, ∀ j ∈ s.nbrTableKeys, s.lladdr i = s.lladdr j → i = j
  inUse : ∀ i ∈ s.nbrTableKeys, s.neighborAddrMem i
  unlisted : ∀ i ∉ s.nbrTableKeys, s.usedMap i = 0

theorem init_ok : init.Ok := by
  constructor <;> simp [init]

theorem indexFromLladdr_some (h : s.indexFromLladdr addr = some i) :
    i ∈ s.nbrTableKeys ∧ s.lladdr i = addr :=
  ⟨List.mem_of_find?_eq_some h, by simpa using List.find?_some h⟩

theorem indexFromLladdr_none : s.indexFromLladdr addr = none ↔
    ∀ i ∈ s.nbrTableKeys, s.lladdr i ≠ addr := by
  simp [indexFromLladdr]

theorem Ok.indexFromLladdr_eq (h : s.Ok) (hi : i ∈ s.nbrTableKeys) :
    s.indexFromLladdr (s.lladdr i) = some i := by
  cases hfind : s.indexFromLladdr (s.lladdr i) with
  | none => exact absurd rfl (indexFromLladdr_none.mp hfind i hi)
  | some j =>
    obtain ⟨hj, haddr⟩ := indexFromLladdr_some hfind
    rw [h.inj j hj i hi haddr]

/-- The least used neighbor is listed and not locked. -/
theorem leastUsed_spec {is : List ℕ} {best : Option (ℕ × ℕ)}
    (hbest : ∀ b ∈ best, s.lockedMap b.1 = 0) (h : s.leastUsed is best = some i) :
    s.lockedMap i = 0 ∧ (i ∈ is ∨ ∃ b ∈ best, b.1 = i) := by
  induction is generalizing best with
  | nil =>
    obtain ⟨b, hb, rfl⟩ := map_eq_some_iff.mp h
    exact ⟨hbest b hb, Or.inr ⟨b, hb, rfl⟩⟩
  | cons k is ih =>
    simp only [leastUsed] at h
    split_ifs at h with hlocked hless hzero
    · obtain ⟨hi, hmem⟩ := ih hbest h
      exact ⟨hi, hmem.imp_left (List.mem_cons_of_mem k)⟩
    · cases h
      exact ⟨not_not.mp hlocked, Or.inl List.mem_cons_self⟩
    · obtain ⟨hi, hmem⟩ := ih (by simpa using hlocked) h
      refine ⟨hi, Or.inl ?_⟩
      rcases hmem with hmem | ⟨b, hb, rfl⟩
      · exact List.mem_cons_of_mem k hmem
      · simp only [mem_some_iff] at hb
        simp [← hb]
    · obtain ⟨hi, hmem⟩ := ih hbest h
      exact ⟨hi, hmem.imp_left (List.mem_cons_of_mem k)⟩

/-- The tables after `remove_key` of a place, which may have been locked. -/
def Removed (s s' : NbrTables) (i : ℕ) : Prop :=
  s' = s.removeKey i ∨ s' = { s with lockedMap := Function.update s.lockedMap i 0 }.removeKey i

/-- A new place is one never used, or a listed one that is removed; the MAC layer gets
only one that no table locks. -/
theorem allocate_cases (h : s.Ok) (halloc : s.nbrTableAllocate cfg reason candidate = some (i, s')) :
    (i ∉ s.nbrTableKeys ∧
      s' = { s with neighborAddrMem := update s.neighborAddrMem i true }) ∨
    (i ∈ s.nbrTableKeys ∧ Removed s s' i ∧ (reason = .mac → s.lockedMap i = 0)) := by
  have hreuse : s.reuseLeastUsed = some (i, s') →
      i ∈ s.nbrTableKeys ∧ Removed s s' i ∧ (reason = .mac → s.lockedMap i = 0) := by
    intro hr
    obtain ⟨k, hk, heq⟩ := map_eq_some_iff.mp hr
    obtain ⟨rfl, rfl⟩ := Prod.mk.inj heq
    obtain ⟨hzero, hmem⟩ := leastUsed_spec (by simp) hk
    exact ⟨by simpa using hmem, Or.inl rfl, fun _ => hzero⟩
  simp only [nbrTableAllocate] at halloc
  split at halloc
  · rename_i k hk
    obtain ⟨rfl, rfl⟩ := Prod.mk.inj (Option.some.inj halloc)
    refine Or.inl ⟨?_, rfl⟩
    intro hmem
    simpa [h.inUse k hmem] using List.find?_some hk
  · right
    split at halloc
    · cases halloc
    · rename_i lladdr hpolicy
      split at halloc
      · rename_i k hk
        obtain ⟨rfl, rfl⟩ := Prod.mk.inj (Option.some.inj halloc)
        refine ⟨(indexFromLladdr_some hk).1, Or.inr rfl, ?_⟩
        -- no policy removes anything for the MAC layer
        rintro rfl
        cases hp : cfg.findRemovable <;> simp [hp, FindRemovable.find] at hpolicy
      · exact hreuse halloc
    · exact hreuse halloc

/-- A neighbor is removed that no table locks, or the one the policy names; and then no table
locks its place. -/
theorem allocate_evicted (h : s.Ok) (halloc : s.nbrTableAllocate cfg reason candidate = some (i, s'))
    (hi : i ∈ s.nbrTableKeys) : s'.lockedMap i = 0 ∧
      (s.lockedMap i = 0 ∨ cfg.findRemovable.find reason candidate = some (some (s.lladdr i))) := by
  have hreuse : s.reuseLeastUsed = some (i, s') → s'.lockedMap i = 0 ∧ s.lockedMap i = 0 := by
    intro hr
    obtain ⟨k, hk, heq⟩ := map_eq_some_iff.mp hr
    obtain ⟨rfl, rfl⟩ := Prod.mk.inj heq
    have hzero := (leastUsed_spec (by simp) hk).1
    exact ⟨hzero, hzero⟩
  simp only [nbrTableAllocate] at halloc
  split at halloc
  · rename_i k hk
    obtain ⟨rfl, rfl⟩ := Prod.mk.inj (Option.some.inj halloc)
    simpa [h.inUse k hi] using List.find?_some hk
  · split at halloc
    · cases halloc
    · rename_i lladdr hpolicy
      split at halloc
      · rename_i k hk
        obtain ⟨rfl, rfl⟩ := Prod.mk.inj (Option.some.inj halloc)
        refine ⟨by simp [NbrTables.removeKey], Or.inr ?_⟩
        rw [hpolicy, (indexFromLladdr_some hk).2]
      · exact (hreuse halloc).imp_right Or.inl
    · exact (hreuse halloc).imp_right Or.inl

/-- What `nbr_table_add_lladdr` leaves as it is. -/
structure SameOutside (s s' : NbrTables) (i : ℕ) : Prop where
  keys : ∀ j ≠ i, j ∈ s'.nbrTableKeys ↔ j ∈ s.nbrTableKeys
  lladdr : ∀ j ≠ i, s'.lladdr j = s.lladdr j
  usedMap : ∀ j ≠ i, s'.usedMap j = s.usedMap j
  lockedMap : ∀ j ≠ i, s'.lockedMap j = s.lockedMap j

/-- The address had a place already, or has a new one that only this table uses. -/
inductive AddCase (s s' : NbrTables) (table : ℕ) (addr : LinkAddr) (reason : NbrTableReason)
    (i : ℕ) : Prop
  | known (hi : i ∈ s.nbrTableKeys) (haddr : s.lladdr i = addr)
      (hused : s'.usedMap i = setBit (s.usedMap i) table true)
      (hlocked : s'.lockedMap i = s.lockedMap i)
  | new (haddr : ∀ j ∈ s.nbrTableKeys, s.lladdr j ≠ addr)
      (hused : s'.usedMap i = setBit 0 table true)
      (hmac : reason = .mac → i ∈ s.nbrTableKeys → s.lockedMap i = 0)

/-- The tables with a place that is not listed, to be listed for a new address. -/
structure Place (s u : NbrTables) (reason : NbrTableReason) (i : ℕ) : Prop where
  ok : u.Ok
  unlisted : i ∉ u.nbrTableKeys
  inUse : u.neighborAddrMem i
  same : SameOutside s u i
  mac : reason = .mac → i ∈ s.nbrTableKeys → s.lockedMap i = 0

theorem Ok.removeKey (h : s.Ok) (i : ℕ) : (s.removeKey i).Ok := by
  have herase : ∀ j, j ∈ s.nbrTableKeys.erase i ↔ j ≠ i ∧ j ∈ s.nbrTableKeys :=
    fun j => h.nodup.mem_erase_iff
  refine ⟨h.nodup.erase i, ?_, ?_, ?_⟩
  · intro a ha b hb
    exact h.inj a ((herase a).mp ha).2 b ((herase b).mp hb).2
  · intro a ha
    exact h.inUse a ((herase a).mp ha).2
  · intro a ha
    by_cases hai : a = i
    · simp [NbrTables.removeKey, hai]
    · simp only [NbrTables.removeKey, update_of_ne hai]
      exact h.unlisted a fun hmem => ha ((herase a).mpr ⟨hai, hmem⟩)

theorem Ok.sameOutside_removeKey (h : s.Ok) (i : ℕ) : SameOutside s (s.removeKey i) i := by
  constructor
  · intro j hj
    exact (h.nodup.mem_erase_iff).trans (and_iff_right hj)
  all_goals intro j hj; simp [NbrTables.removeKey, hj]

theorem Ok.place (h : s.Ok) (halloc : s.nbrTableAllocate cfg reason candidate = some (i, s')) :
    Place s s' reason i := by
  rcases allocate_cases h halloc with ⟨hnot, rfl⟩ | ⟨hmem, hremoved, hmac⟩
  · refine ⟨⟨h.nodup, h.inj, ?_, h.unlisted⟩, hnot, by simp, ⟨by simp, by simp, by simp, by simp⟩,
      fun _ hmem => absurd hmem hnot⟩
    intro j hj
    have hne : j ≠ i := fun heq => hnot (heq ▸ hj)
    simpa [hne] using h.inUse j hj
  · have hnot : i ∉ (s.removeKey i).nbrTableKeys := fun hin => (h.nodup.mem_erase_iff.mp hin).1 rfl
    obtain ⟨hnodup, hinj, hinUse, hunlisted⟩ := h.removeKey i
    obtain ⟨hkeys, hlladdr, husedMap, hlockedMap⟩ := h.sameOutside_removeKey i
    rcases hremoved with rfl | rfl
    · exact ⟨⟨hnodup, hinj, hinUse, hunlisted⟩, hnot, h.inUse i hmem,
        ⟨hkeys, hlladdr, husedMap, hlockedMap⟩, fun hr _ => hmac hr⟩
    · refine ⟨⟨hnodup, hinj, hinUse, hunlisted⟩, hnot, h.inUse i hmem,
        ⟨hkeys, hlladdr, husedMap, ?_⟩, fun hr _ => hmac hr⟩
      intro j hj
      simp [NbrTables.removeKey, hj]

/-- A place is listed for an address that has none. -/
theorem Place.listed {u : NbrTables} (h : Place s u reason i)
    (hnew : ∀ j ∈ s.nbrTableKeys, s.lladdr j ≠ addr) :
    let s' := { u with
      nbrTableKeys := u.nbrTableKeys.erase i ++ [i]
      lladdr := update u.lladdr i addr }.setUsed table i true
    s'.Ok ∧ i ∈ s'.nbrTableKeys ∧ s'.lladdr i = addr ∧ SameOutside s s' i ∧
      AddCase s s' table addr reason i := by
  have hmem : ∀ j, j ∈ u.nbrTableKeys.erase i ++ [i] ↔ j ∈ u.nbrTableKeys ∨ j = i := by
    intro j
    simp [List.erase_of_not_mem h.unlisted]
  have hne : ∀ j ∈ u.nbrTableKeys, j ≠ i := fun j hj heq => h.unlisted (heq ▸ hj)
  have hfresh : ∀ j ∈ u.nbrTableKeys, u.lladdr j ≠ addr := by
    intro j hj
    rw [h.same.lladdr j (hne j hj)]
    exact hnew j ((h.same.keys j (hne j hj)).mp hj)
  refine ⟨⟨?_, ?_, ?_, ?_⟩, (hmem i).mpr (Or.inr rfl), by simp [setUsed], ⟨?_, ?_, ?_, ?_⟩,
    .new hnew (by simp [setUsed, h.ok.unlisted i h.unlisted]) h.mac⟩
  · simp only [setUsed, List.erase_of_not_mem h.unlisted]
    exact List.nodup_append'.mpr ⟨h.ok.nodup, by simp, by simpa using h.unlisted⟩
  · intro a ha b hb heq
    simp only [setUsed] at ha hb heq
    rcases (hmem a).mp ha with ha | ha <;> rcases (hmem b).mp hb with hb | hb
    · rw [update_of_ne (hne a ha), update_of_ne (hne b hb)] at heq
      exact h.ok.inj a ha b hb heq
    · rw [hb, update_of_ne (hne a ha), update_self] at heq
      exact absurd heq (hfresh a ha)
    · rw [ha, update_of_ne (hne b hb), update_self] at heq
      exact absurd heq.symm (hfresh b hb)
    · rw [ha, hb]
  · intro j hj
    rcases (hmem j).mp hj with hj | rfl
    · exact h.ok.inUse j hj
    · exact h.inUse
  · intro j hj
    have hj' : ¬(j ∈ u.nbrTableKeys ∨ j = i) := fun hor => hj ((hmem j).mpr hor)
    simp only [not_or] at hj'
    simpa [setUsed, hj'.2] using h.ok.unlisted j hj'.1
  · intro j hj
    exact (hmem j).trans ((or_iff_left hj).trans (h.same.keys j hj))
  · intro j hj
    simpa [setUsed, hj] using h.same.lladdr j hj
  · intro j hj
    simpa [setUsed, hj] using h.same.usedMap j hj
  · intro j hj
    exact h.same.lockedMap j hj

/-- A bit that is cleared was of a listed neighbor, or clear. -/
theorem Ok.nbrTableRemove (h : s.Ok) (table i : ℕ) : (s.nbrTableRemove table i).Ok := by
  refine ⟨h.nodup, h.inj, h.inUse, ?_⟩
  intro j hj
  have hzero := h.unlisted j hj
  by_cases hji : j = i
  · subst hji
    simp [NbrTables.nbrTableRemove, setUsed, setLocked, setBit, hzero]
  · simpa [NbrTables.nbrTableRemove, setUsed, setLocked, hji] using hzero

/-- **Adding an address.** -/
theorem Ok.addLladdr_spec (h : s.Ok)
    (hadd : s.nbrTableAddLladdr cfg table addr reason candidate = some (i, s')) :
    s'.Ok ∧ i ∈ s'.nbrTableKeys ∧ s'.lladdr i = addr ∧ SameOutside s s' i ∧
      AddCase s s' table addr reason i := by
  simp only [nbrTableAddLladdr] at hadd
  split at hadd
  · rename_i k hk
    obtain ⟨rfl, rfl⟩ := Prod.mk.inj (Option.some.inj hadd)
    obtain ⟨hmem, haddr⟩ := indexFromLladdr_some hk
    refine ⟨⟨h.nodup, h.inj, h.inUse, ?_⟩, hmem, haddr, ⟨?_, ?_, ?_, ?_⟩,
      .known hmem haddr (by simp [setUsed]) rfl⟩
    · intro j hj
      have hne : j ≠ k := fun heq => hj (heq ▸ hmem)
      simpa [setUsed, hne] using h.unlisted j hj
    all_goals intro j hj; simp [setUsed, hj]
  · rename_i hk
    obtain ⟨⟨k, u⟩, halloc, heq⟩ := map_eq_some_iff.mp hadd
    obtain ⟨rfl, rfl⟩ := Prod.mk.inj heq
    exact (h.place halloc).listed (indexFromLladdr_none.mp hk)

/-- A neighbor that is evicted was listed, and no table locks its place afterwards. -/
theorem Ok.evicted_spec (h : s.Ok)
    (hadd : s.nbrTableAddLladdr cfg table addr reason candidate = some (i, s')) :
    (i ∈ s.nbrTableKeys ∧ s.lladdr i = addr ∧ evicted cfg s addr reason candidate = none) ∨
      (∀ j ∈ s.nbrTableKeys, s.lladdr j ≠ addr) ∧
        ((i ∉ s.nbrTableKeys ∧ evicted cfg s addr reason candidate = none ∧
            s'.lockedMap i = s.lockedMap i) ∨
          (evicted cfg s addr reason candidate = some i ∧ s'.lockedMap i = 0)) := by
  simp only [nbrTableAddLladdr] at hadd
  simp only [evicted]
  split at hadd
  · rename_i k hk
    cases hadd
    obtain ⟨hmem, haddr⟩ := indexFromLladdr_some hk
    exact Or.inl ⟨hmem, haddr, rfl⟩
  · rename_i hk
    obtain ⟨⟨k, u⟩, halloc, heq⟩ := map_eq_some_iff.mp hadd
    cases heq
    refine Or.inr ⟨indexFromLladdr_none.mp hk, ?_⟩
    by_cases hmem : k ∈ s.nbrTableKeys
    · refine Or.inr ⟨?_, (allocate_evicted h halloc hmem).1⟩
      simp [halloc, hmem]
    · refine Or.inl ⟨hmem, by simp [halloc, hmem], ?_⟩
      rcases allocate_cases h halloc with ⟨-, rfl⟩ | ⟨hin, -, -⟩
      · rfl
      · exact absurd hin hmem

end NbrTables

end Asap.Tsch
