import Asap.Ipv6.Ds6Nbr
import Asap.Lib.Run

/-!
# Who owns a queued packet

Every block of the packet queue belongs to the handle of one entry of the neighbor cache, to which
its timer refers. What breaks this is an addition for a link-layer address that has an entry with a
packet, and an update of the link-layer address of such an entry.

## Main definitions

* `Owned` — what holds of the cache.
* `Ds6NbrFits` — the events that keep it.
* `Ds6NbrInv` — the invariant.
-/

namespace Asap.Ipv6

open Lib Tsch Function Option NbrTables

variable {cfg : Ds6NbrConfig}

/-! ## What should hold -/

section

variable (cfg : Ds6NbrConfig) (s : Ds6NbrCache)

/-- **The cache:** an address has one entry at most, every block in use belongs to the handle of one
entry, to which its timer refers, and no handle refers to a free block. -/
structure Owned : Prop where
  unique : ∀ i ∈ s.entries cfg, ∀ j ∈ s.entries cfg,
    (s.cells i).ipaddr = (s.cells j).ipaddr → i = j
  owned : ∀ b, s.packetsMemb b = true → ∃ i ∈ s.entries cfg, s.handle i = some b ∧
    s.lifetimer b = some i ∧ ∀ j ∈ s.entries cfg, s.handle j = some b → j = i
  live : ∀ i b, s.handle i = some b → s.packetsMemb b = true

/-- **An update of a link-layer address** succeeds with the address, the state and the packet of
the entry, or leaves the cache as it is. -/
def UpdateLlOk (i : ℕ) (newLlAddr : LinkAddr) :
    Option ℕ × Ds6NbrCache → Prop
  | (some j, s') => j ∈ s'.entries cfg ∧ s'.nbr.lladdr j = newLlAddr ∧
      (s'.cells j).ipaddr = (s.cells i).ipaddr ∧ (s'.cells j).state = (s.cells i).state ∧
      (s'.handle j).map s'.queueBuf = (s.handle i).map s.queueBuf
  | (none, s') => s' = s

/-- What an event should do. -/
def Ds6NbrStepOk : Ds6NbrEvent → Prop
  | .updateLl i newLlAddr =>
    i ∈ s.entries cfg → UpdateLlOk cfg s i newLlAddr (s.uipDs6NbrUpdateLl cfg i newLlAddr)
  | _ => True

/-- **The events that keep it:** an entry is added where the link-layer address has no packet and no
other entry has the address; and a link-layer address that is not in the cache is given to an entry
without a packet, with room for it in the table once the entry is removed. -/
def Ds6NbrFits : Ds6NbrEvent → Prop
  | .add ipaddr lladdr _ _ reason candidate =>
    (∀ i, s.uipDs6NbrLlLookup cfg lladdr = some i → s.handle i = none) ∧
      ∀ i nbr, s.nbr.nbrTableAddLladdr cfg.tables cfg.ds6Neighbors lladdr reason candidate =
        some (i, nbr) → ∀ j ∈ s.entries cfg, j ≠ i → (s.cells j).ipaddr ≠ ipaddr
  | .updateLl i newLlAddr =>
    i ∈ s.entries cfg → s.uipDs6NbrLlLookup cfg newLlAddr = none →
      s.handle i = none ∧ ((s.nbr.nbrTableRemove cfg.ds6Neighbors i).nbrTableAddLladdr cfg.tables
        cfg.ds6Neighbors newLlAddr .ipv6Nd none).isSome = true
  | _ => True

end

/-! ## Handles and blocks -/

/-- A handle, the block in use that it refers to, and the timer of the block. -/
structure Handles (s : Ds6NbrCache) : Prop where
  handle : ∀ i b, s.handle i = some b → s.packetsMemb b = true ∧ s.lifetimer b = some i
  owned : ∀ b, s.packetsMemb b = true → ∃ i, s.handle i = some b
  timer : ∀ b i, s.lifetimer b = some i → s.handle i = some b

/-- **The invariant.** -/
structure Ds6NbrInv (cfg : Ds6NbrConfig) (s : Ds6NbrCache) : Prop where
  ok : s.nbr.Ok
  unique : ∀ i ∈ s.entries cfg, ∀ j ∈ s.entries cfg,
    (s.cells i).ipaddr = (s.cells j).ipaddr → i = j
  handles : Handles s
  live : ∀ i, i ∉ s.entries cfg → s.handle i = none

theorem Ds6NbrInv.toOwned {s : Ds6NbrCache} (h : Ds6NbrInv cfg s) : Owned cfg s where
  unique := h.unique
  owned b hb := by
    obtain ⟨i, hi⟩ := h.handles.owned b hb
    have hmem : i ∈ s.entries cfg := by
      by_contra hnot
      rw [h.live i hnot] at hi
      exact absurd hi.symm (some_ne_none b)
    refine ⟨i, hmem, hi, (h.handles.handle i b hi).2, fun j _ hj => ?_⟩
    have htimer := (h.handles.handle j b hj).2
    rw [(h.handles.handle i b hi).2] at htimer
    exact (Option.some.inj htimer).symm
  live i b hi := (h.handles.handle i b hi).1

section Handles

variable {s s' : Ds6NbrCache} {i j b : ℕ}

section

variable (s : Ds6NbrCache) (i : ℕ) (packet : Option ℕ)

theorem cells_setHandle :
    (s.setHandle i packet).cells =
      update s.cells i { s.cells i with packethandle := packet } := rfl

theorem handle_setHandle (j : ℕ) :
    (s.setHandle i packet).handle j = if j = i then packet else s.handle j := by
  by_cases hj : j = i
  · rw [if_pos hj, hj, Ds6NbrCache.handle, cells_setHandle, update_self]
  · rw [if_neg hj, Ds6NbrCache.handle, cells_setHandle, update_of_ne hj,
      Ds6NbrCache.handle]

theorem ipaddr_setHandle (j : ℕ) :
    ((s.setHandle i packet).cells j).ipaddr = (s.cells j).ipaddr := by
  by_cases hj : j = i
  · rw [hj, cells_setHandle, update_self]
  · rw [cells_setHandle, update_of_ne hj]

end

theorem Handles.congr (h : Handles s) (hhandle : ∀ j, s'.handle j = s.handle j)
    (hmemb : s'.packetsMemb = s.packetsMemb) (htimer : s'.lifetimer = s.lifetimer) :
    Handles s' where
  handle i b hi := by
    rw [hmemb, htimer]
    exact h.handle i b (hhandle i ▸ hi)
  owned b hb := by
    rw [hmemb] at hb
    obtain ⟨i, hi⟩ := h.owned b hb
    exact ⟨i, (hhandle i).trans hi⟩
  timer b i hb := by
    rw [htimer] at hb
    exact (hhandle i).trans (h.timer b i hb)

/-- A handle that is cleared with its block. -/
theorem Handles.clear (h : Handles s) (hi : s.handle i = some b)
    (hhandle : ∀ j, s'.handle j = if j = i then none else s.handle j)
    (hmemb : s'.packetsMemb = update s.packetsMemb b false)
    (htimer : s'.lifetimer = update s.lifetimer b none) : Handles s' where
  handle j b' hj := by
    rw [hhandle] at hj
    by_cases heq : j = i
    · rw [if_pos heq] at hj
      exact absurd hj.symm (some_ne_none b')
    · rw [if_neg heq] at hj
      have hne : b' ≠ b := by
        rintro rfl
        have hsame := (h.handle j b' hj).2
        rw [(h.handle i b' hi).2] at hsame
        exact heq (Option.some.inj hsame).symm
      rw [hmemb, htimer, update_of_ne hne, update_of_ne hne]
      exact h.handle j b' hj
  owned b' hb' := by
    rw [hmemb] at hb'
    by_cases heq : b' = b
    · rw [heq, update_self] at hb'
      exact absurd hb' Bool.false_ne_true
    · rw [update_of_ne heq] at hb'
      obtain ⟨j, hj⟩ := h.owned b' hb'
      refine ⟨j, ?_⟩
      rw [hhandle, if_neg ?_]
      · exact hj
      · rintro rfl
        rw [hi] at hj
        exact heq (Option.some.inj hj).symm
  timer b' j hb' := by
    rw [htimer] at hb'
    by_cases heq : b' = b
    · rw [heq, update_self] at hb'
      exact absurd hb'.symm (some_ne_none j)
    · rw [update_of_ne heq] at hb'
      have hj := h.timer b' j hb'
      rw [hhandle, if_neg ?_]
      · exact hj
      · rintro rfl
        rw [hi] at hj
        exact heq (Option.some.inj hj).symm

/-- **A packet is freed.** -/
theorem free_spec (h : Handles s) (i : ℕ) :
    Handles (s.uipPacketqueueFree i) ∧ (s.uipPacketqueueFree i).nbr = s.nbr ∧
      (∀ j, (s.uipPacketqueueFree i).handle j = if j = i then none else s.handle j) ∧
      (∀ j, ((s.uipPacketqueueFree i).cells j).ipaddr = (s.cells j).ipaddr) ∧
      ∀ j ≠ i, (s.uipPacketqueueFree i).cells j = s.cells j := by
  rw [Ds6NbrCache.uipPacketqueueFree]
  cases hi : s.handle i with
  | none =>
    refine ⟨h, rfl, fun j => ?_, fun _ => rfl, fun _ _ => rfl⟩
    by_cases hj : j = i
    · rw [if_pos hj, hj, hi]
    · rw [if_neg hj]
  | some b =>
    exact ⟨h.clear hi (handle_setHandle s i none) rfl rfl, rfl, handle_setHandle s i none,
      ipaddr_setHandle s i none, fun j hj => update_of_ne hj _ _⟩

/-- **The time of a packet is over.** -/
theorem timedout_spec (h : Handles s) (b : ℕ) :
    Handles (s.packetTimedout b) ∧ (s.packetTimedout b).nbr = s.nbr ∧
      (∀ j, (s.packetTimedout b).handle j = none ∨ (s.packetTimedout b).handle j = s.handle j) ∧
      ∀ j, ((s.packetTimedout b).cells j).ipaddr = (s.cells j).ipaddr := by
  rw [Ds6NbrCache.packetTimedout]
  cases hb : s.lifetimer b with
  | none => exact ⟨h, rfl, fun _ => .inr rfl, fun _ => rfl⟩
  | some i =>
    have hi := h.timer b i hb
    refine ⟨h.clear hi (handle_setHandle s i none) ?_ rfl, rfl, fun j => ?_,
      ipaddr_setHandle s i none⟩
    · simp only [hi, Option.elim]
    · have hset := handle_setHandle s i none j
      by_cases hj : j = i
      · rw [if_pos hj] at hset
        exact .inl hset
      · rw [if_neg hj] at hset
        exact .inr hset

/-- **A packet is queued.** -/
theorem alloc_spec (h : Handles s) (i : ℕ) (packet : List Byte) :
    Handles (s.uipPacketqueueAlloc cfg i packet) ∧
      (s.uipPacketqueueAlloc cfg i packet).nbr = s.nbr ∧
      (∀ j ≠ i, (s.uipPacketqueueAlloc cfg i packet).handle j = s.handle j) ∧
      ∀ j, ((s.uipPacketqueueAlloc cfg i packet).cells j).ipaddr = (s.cells j).ipaddr := by
  rw [Ds6NbrCache.uipPacketqueueAlloc]
  cases hi : s.handle i with
  | some b => exact ⟨h, rfl, fun _ _ => rfl, fun _ => rfl⟩
  | none =>
    cases halloc : membAlloc cfg.maxNumQueuedPackets s.packetsMemb with
    | none => exact ⟨h, rfl, fun _ _ => rfl, fun _ => rfl⟩
    | some b =>
      obtain ⟨-, hfree⟩ := membAlloc_eq_some halloc
      have hset := handle_setHandle s i (some b)
      have hnot : ∀ j, s.handle j ≠ some b := by
        intro j hj
        rw [(h.handle j b hj).1] at hfree
        exact absurd hfree.symm Bool.false_ne_true
      refine ⟨⟨fun j b' hj => ?_, fun b' hb' => ?_, fun b' j hb' => ?_⟩, rfl, fun j hj => ?_,
        ipaddr_setHandle s i (some b)⟩
      · have hold := (hset j).symm.trans hj
        by_cases heq : j = i
        · rw [if_pos heq] at hold
          rw [← Option.some.inj hold, heq]
          exact ⟨update_self _ _ _, update_self _ _ _⟩
        · rw [if_neg heq] at hold
          have hne : b' ≠ b := fun hsame => hnot j (hsame ▸ hold)
          refine ⟨?_, ?_⟩
          · exact (update_of_ne hne _ _).trans (h.handle j b' hold).1
          · exact (update_of_ne hne _ _).trans (h.handle j b' hold).2
      · by_cases heq : b' = b
        · exact ⟨i, (hset i).trans (by rw [if_pos rfl, heq])⟩
        · have hb' := (update_of_ne heq _ _).symm.trans hb'
          obtain ⟨j, hj⟩ := h.owned b' hb'
          refine ⟨j, (hset j).trans ?_⟩
          rw [if_neg ?_]
          · exact hj
          · rintro rfl
            rw [hi] at hj
            exact absurd hj.symm (some_ne_none b')
      · by_cases heq : b' = b
        · rw [heq] at hb'
          have hb' := (update_self _ _ _).symm.trans hb'
          rw [← Option.some.inj hb', heq]
          exact (hset i).trans (if_pos rfl)
        · have hb' := (update_of_ne heq _ _).symm.trans hb'
          have hj := h.timer b' j hb'
          refine (hset j).trans ?_
          rw [if_neg ?_]
          · exact hj
          · rintro rfl
            rw [hi] at hj
            exact absurd hj.symm (some_ne_none b')
      · exact (hset j).trans (if_neg hj)

end Handles

/-! ## The table -/

section Table

variable {s s' : Ds6NbrCache} {i j table : ℕ} {lladdr : LinkAddr} {reason : NbrTableReason}
  {candidate : Option LinkAddr} {ipaddr : UipIpaddr} {isrouter : Bool} {state : NbrState}

/-- A change that keeps the table, and clears handles or sets those of entries. -/
theorem Ds6NbrInv.change (h : Ds6NbrInv cfg s) (hnbr : s'.nbr = s.nbr) (hhandles : Handles s')
    (hipaddr : ∀ j, (s'.cells j).ipaddr = (s.cells j).ipaddr)
    (hlive : ∀ j, j ∉ s.entries cfg → s'.handle j = none) : Ds6NbrInv cfg s' := by
  have hentries : s'.entries cfg = s.entries cfg := by
    rw [Ds6NbrCache.entries, hnbr, Ds6NbrCache.entries]
  refine ⟨hnbr ▸ h.ok, ?_, hhandles, ?_⟩
  · rw [hentries]
    intro i hi j hj
    rw [hipaddr, hipaddr]
    exact h.unique i hi j hj
  · rw [hentries]
    exact hlive

/-- Entries that leave the table have no packet. -/
theorem Ds6NbrInv.shrink {nbr : NbrTables} (h : Ds6NbrInv cfg s) (hok : nbr.Ok)
    (hsub : ∀ j, j ∈ nbr.items cfg.ds6Neighbors → j ∈ s.entries cfg)
    (hlive : ∀ j, j ∉ nbr.items cfg.ds6Neighbors → s.handle j = none) :
    Ds6NbrInv cfg { s with nbr } where
  ok := hok
  unique i hi j hj := h.unique i (hsub i hi) j (hsub j hj)
  handles := h.handles.congr (fun _ => rfl) rfl rfl
  live := hlive

theorem mem_entries_remove (table : ℕ) :
    j ∈ (s.nbr.nbrTableRemove table i).items cfg.ds6Neighbors ↔
      j ∈ s.entries cfg ∧ ¬ (cfg.ds6Neighbors = table ∧ j = i) := by
  rw [mem_items, used_nbrTableRemove, Ds6NbrCache.entries, mem_items]
  change j ∈ s.nbr.nbrTableKeys ∧ _ ↔ _
  by_cases hsame : cfg.ds6Neighbors = table ∧ j = i
  · rw [if_pos hsame]
    exact iff_of_false (fun h => Bool.false_ne_true h.2) fun h => h.2 hsame
  · rw [if_neg hsame, and_iff_left hsame]

/-- **An entry is removed.** -/
theorem Ds6NbrInv.rm (h : Ds6NbrInv cfg s) (i : ℕ) : Ds6NbrInv cfg (s.uipDs6NbrRm cfg i) := by
  obtain ⟨hhandles, hnbr, hhandle, hipaddr, -⟩ := free_spec h.handles i
  have hfreed : Ds6NbrInv cfg (s.uipPacketqueueFree i) := by
    refine h.change hnbr hhandles hipaddr fun j hj => ?_
    rw [hhandle]
    by_cases heq : j = i
    · rw [if_pos heq]
    · rw [if_neg heq]
      exact h.live j hj
  refine hfreed.shrink (hfreed.ok.nbrTableRemove _ _)
    (fun j hj => ((mem_entries_remove _).mp hj).1) fun j hj => ?_
  rw [hhandle]
  by_cases heq : j = i
  · rw [if_pos heq]
  · rw [if_neg heq]
    refine h.live j fun hmem => hj ((mem_entries_remove _).mpr ⟨?_, fun hsame => heq hsame.2⟩)
    rwa [Ds6NbrCache.entries, hnbr]

/-- What an addition to a table leaves of the cache. -/
structure Added (cfg : Ds6NbrConfig) (s s' : Ds6NbrCache) (table : ℕ) (lladdr : LinkAddr) (i : ℕ) :
    Prop where
  ok : s'.nbr.Ok
  listed : i ∈ s'.nbr.nbrTableKeys
  addr : s'.nbr.lladdr i = lladdr
  handles : Handles s'
  cells : ∀ j ≠ i, s'.cells j = s.cells j
  ipaddr : (s'.cells i).ipaddr = (s.cells i).ipaddr
  entries : ∀ j ≠ i, j ∈ s'.entries cfg ↔ j ∈ s.entries cfg
  place : (s.uipDs6NbrLlLookup cfg lladdr = some i ∧ s'.handle i = s.handle i ∧
      i ∈ s'.entries cfg) ∨
    (s'.handle i = none ∧ (i ∈ s'.entries cfg ↔ table = cfg.ds6Neighbors))

/-- **An address is added to a table.** -/
theorem Ds6NbrInv.added (h : Ds6NbrInv cfg s)
    (hadd : s.nbrTableAddLladdr cfg table lladdr reason candidate = some (i, s')) :
    Added cfg s s' table lladdr i := by
  obtain ⟨⟨k, nbr⟩, hnbr, heq⟩ := map_eq_some_iff.mp hadd
  obtain ⟨hok, hlisted, haddr, hsame, hcase⟩ := h.ok.addLladdr_spec hnbr
  have hentries : ∀ j ≠ k, j ∈ nbr.items cfg.ds6Neighbors ↔ j ∈ s.entries cfg := by
    intro j hj
    rw [mem_items, Ds6NbrCache.entries, mem_items, hsame.keys j hj,
      NbrTables.used, hsame.usedMap j hj, NbrTables.used]
  have hnew : ∀ hused : nbr.usedMap k = NbrTables.setBit 0 table true,
      (k ∈ nbr.items cfg.ds6Neighbors ↔ table = cfg.ds6Neighbors) := by
    intro hused
    rw [mem_items, NbrTables.used, hused, getLsbD_setBit _ cfg.index_lt,
      and_iff_right hlisted]
    by_cases htable : cfg.ds6Neighbors = table
    · rw [if_pos htable]
      exact iff_of_true rfl htable.symm
    · have hzero : (0 : BitVec 8).getLsbD cfg.ds6Neighbors = false := BitVec.getLsbD_zero
      rw [if_neg htable, hzero]
      exact iff_of_false Bool.false_ne_true fun h => htable h.symm
  rcases h.ok.evicted_spec hnbr with ⟨hk, hkaddr, hnone⟩ | ⟨hfresh, ⟨hk, hnone, -⟩ | ⟨hsome, -⟩⟩
  · -- the address is in the table already
    simp only [hnone] at heq
    obtain ⟨rfl, rfl⟩ := Prod.mk.inj heq
    refine ⟨hok, hlisted, haddr, h.handles.congr (fun _ => rfl) rfl rfl, fun _ _ => rfl, rfl,
      hentries, ?_⟩
    have hused : nbr.usedMap k = NbrTables.setBit (s.nbr.usedMap k) table true := by
      cases hcase with
      | known _ _ hused _ => exact hused
      | new hall _ _ => exact absurd hkaddr (hall k hk)
    have hbit : nbr.used cfg.ds6Neighbors k =
        if cfg.ds6Neighbors = table then true else s.nbr.used cfg.ds6Neighbors k := by
      rw [NbrTables.used, hused, getLsbD_setBit _ cfg.index_lt, NbrTables.used]
    by_cases huse : s.nbr.used cfg.ds6Neighbors k = true
    · left
      refine ⟨?_, rfl, mem_items.mpr ⟨hlisted, ?_⟩⟩
      · have hindex := h.ok.indexFromLladdr_eq hk
        rw [hkaddr] at hindex
        rw [Ds6NbrCache.uipDs6NbrLlLookup, NbrTables.nbrTableGetFromLladdr, hindex,
          filter_some, if_pos huse]
      · rw [hbit, huse, ite_self]
    · right
      refine ⟨h.live k fun hmem => huse (mem_items.mp hmem).2, ?_⟩
      change k ∈ nbr.items _ ↔ _
      rw [mem_items, hbit, and_iff_right hlisted]
      by_cases htable : cfg.ds6Neighbors = table
      · rw [if_pos htable]
        exact iff_of_true rfl htable.symm
      · rw [if_neg htable]
        exact iff_of_false huse fun h => htable h.symm
  · -- a place that was not used
    simp only [hnone] at heq
    obtain ⟨rfl, rfl⟩ := Prod.mk.inj heq
    refine ⟨hok, hlisted, haddr, h.handles.congr (fun _ => rfl) rfl rfl, fun _ _ => rfl, rfl,
      hentries, .inr ⟨h.live k fun hmem => hk (mem_items.mp hmem).1, ?_⟩⟩
    cases hcase with
    | known hmem _ _ _ => exact absurd hmem hk
    | new _ hused _ => exact hnew hused
  · -- the place of a neighbor that is evicted
    simp only [hsome] at heq
    have hused : nbr.usedMap k = NbrTables.setBit 0 table true := by
      cases hcase with
      | known hmem haddr' _ _ => exact absurd haddr' (hfresh k hmem)
      | new _ hused _ => exact hused
    by_cases huse : s.nbr.used cfg.ds6Neighbors k = true
    · rw [if_pos huse] at heq
      obtain ⟨rfl, rfl⟩ := Prod.mk.inj heq
      obtain ⟨hhandles, -, hhandle, hipaddr, hcells⟩ := free_spec h.handles k
      refine ⟨hok, hlisted, haddr, hhandles.congr (fun _ => rfl) rfl rfl, hcells, hipaddr k,
        hentries, .inr ⟨?_, hnew hused⟩⟩
      exact (hhandle k).trans (if_pos rfl)
    · rw [if_neg huse] at heq
      obtain ⟨rfl, rfl⟩ := Prod.mk.inj heq
      exact ⟨hok, hlisted, haddr, h.handles.congr (fun _ => rfl) rfl rfl, fun _ _ => rfl, rfl,
        hentries, .inr ⟨h.live k fun hmem => huse (mem_items.mp hmem).2, hnew hused⟩⟩

/-- **Another table** gets an address. -/
theorem Ds6NbrInv.otherAdd (h : Ds6NbrInv cfg s) (htable : table ≠ cfg.ds6Neighbors)
    (hadd : s.nbrTableAddLladdr cfg table lladdr reason candidate = some (i, s')) :
    Ds6NbrInv cfg s' := by
  have hadded := h.added hadd
  have hipaddr : ∀ j, (s'.cells j).ipaddr = (s.cells j).ipaddr := by
    intro j
    by_cases hj : j = i
    · rw [hj]
      exact hadded.ipaddr
    · rw [hadded.cells j hj]
  have hhandle : ∀ j ≠ i, s'.handle j = s.handle j := by
    intro j hj
    rw [Ds6NbrCache.handle, hadded.cells j hj, Ds6NbrCache.handle]
  have hsub : ∀ j, j ∈ s'.entries cfg → j ∈ s.entries cfg := by
    intro j hj
    by_cases heq : j = i
    · rcases hadded.place with ⟨hlookup, -, -⟩ | ⟨-, hiff⟩
      · obtain ⟨hindex, hused⟩ := filter_eq_some_iff.mp hlookup
        rw [heq]
        exact mem_items.mpr ⟨(indexFromLladdr_some hindex).1, hused⟩
      · rw [heq] at hj
        exact absurd (hiff.mp hj) htable
    · exact (hadded.entries j heq).mp hj
  refine ⟨hadded.ok, fun a ha b hb => ?_, hadded.handles, fun j hj => ?_⟩
  · rw [hipaddr, hipaddr]
    exact h.unique a (hsub a ha) b (hsub b hb)
  · by_cases heq : j = i
    · rw [heq] at hj ⊢
      rcases hadded.place with ⟨-, -, hmem⟩ | ⟨hnone, -⟩
      · exact absurd hmem hj
      · exact hnone
    · rw [hhandle j heq]
      exact h.live j fun hmem => hj ((hadded.entries j heq).mpr hmem)

/-- **An entry is added** where the link-layer address has no packet, and no other entry has the
address. -/
theorem Ds6NbrInv.add (h : Ds6NbrInv cfg s)
    (hfits : Ds6NbrFits cfg s (.add ipaddr lladdr isrouter state reason candidate))
    (hadd : s.uipDs6NbrAdd cfg ipaddr lladdr isrouter state reason candidate = some (i, s')) :
    Ds6NbrInv cfg s' ∧ i ∈ s'.entries cfg ∧ s'.nbr.lladdr i = lladdr ∧
      s'.cells i = ⟨ipaddr, isrouter, state, none⟩ := by
  obtain ⟨⟨k, u⟩, hu, heq⟩ := map_eq_some_iff.mp hadd
  obtain ⟨rfl, rfl⟩ := Prod.mk.inj heq
  have hadded := h.added hu
  obtain ⟨⟨k', nbr⟩, hnbr, hk'⟩ := map_eq_some_iff.mp hu
  have hplace : k' = k := by
    simp only at hk'
    split at hk'
    · exact congrArg Prod.fst hk'
    · split_ifs at hk' <;> exact congrArg Prod.fst hk'
  rw [hplace] at hnbr
  have hnone : u.handle k = none := by
    rcases hadded.place with ⟨hlookup, hsame, -⟩ | ⟨hnone, -⟩
    · rw [hsame]
      exact hfits.1 k hlookup
    · exact hnone
  have hmem : k ∈ u.entries cfg := by
    rcases hadded.place with ⟨-, -, hmem⟩ | ⟨-, hiff⟩
    · exact hmem
    · exact hiff.mpr rfl
  have hself : update u.cells k ⟨ipaddr, isrouter, state, none⟩ k =
      ⟨ipaddr, isrouter, state, none⟩ := update_self _ _ _
  have hcells : ∀ j ≠ k, update u.cells k ⟨ipaddr, isrouter, state, none⟩ j = s.cells j :=
    fun j hj => (update_of_ne hj _ _).trans (hadded.cells j hj)
  refine ⟨⟨hadded.ok, fun a ha b hb => ?_, hadded.handles.congr (fun j => ?_) rfl rfl, fun j hj => ?_⟩,
    hmem, hadded.addr, hself⟩
  · simp only
    by_cases hak : a = k
    · by_cases hbk : b = k
      · exact fun _ => hak.trans hbk.symm
      · rw [hak, hself, hcells b hbk]
        intro heq
        exact absurd heq.symm (hfits.2 k nbr hnbr b ((hadded.entries b hbk).mp hb) hbk)
    · by_cases hbk : b = k
      · rw [hbk, hself, hcells a hak]
        intro heq
        exact absurd heq (hfits.2 k nbr hnbr a ((hadded.entries a hak).mp ha) hak)
      · rw [hcells a hak, hcells b hbk]
        exact h.unique a ((hadded.entries a hak).mp ha) b ((hadded.entries b hbk).mp hb)
  · by_cases hj : j = k
    · rw [hj, hnone, Ds6NbrCache.handle]
      simp only
      rw [hself]
    · rw [Ds6NbrCache.handle, Ds6NbrCache.handle]
      simp only
      rw [update_of_ne hj]
  · have hj : j ∉ u.entries cfg := hj
    have hne : j ≠ k := fun heq => hj (heq ▸ hmem)
    rw [Ds6NbrCache.handle]
    simp only
    rw [hcells j hne]
    exact h.live j fun hmem => hj ((hadded.entries j hne).mpr hmem)

/-- An entry without a packet is removed from the table only. -/
theorem rm_of_none (hi : s.handle i = none) :
    s.uipDs6NbrRm cfg i = { s with nbr := s.nbr.nbrTableRemove cfg.ds6Neighbors i } := by
  rw [Ds6NbrCache.uipDs6NbrRm, Ds6NbrCache.uipPacketqueueFree, hi]

/-- **A link-layer address is updated.** -/
theorem Ds6NbrInv.updateLl (h : Ds6NbrInv cfg s) (hi : i ∈ s.entries cfg)
    (hfits : Ds6NbrFits cfg s (.updateLl i lladdr)) :
    Ds6NbrInv cfg (s.uipDs6NbrUpdateLl cfg i lladdr).2 ∧
      UpdateLlOk cfg s i lladdr (s.uipDs6NbrUpdateLl cfg i lladdr) := by
  rw [Ds6NbrCache.uipDs6NbrUpdateLl]
  cases hlookup : s.uipDs6NbrLlLookup cfg lladdr with
  | some k =>
    rw [if_pos isSome_some]
    exact ⟨h, rfl⟩
  | none =>
    have hnot : ¬ (none : Option ℕ).isSome = true := Bool.false_ne_true
    rw [if_neg hnot]
    obtain ⟨hnone, hroom⟩ := hfits hi hlookup
    have hinv := h.rm i
    have hrm : s.uipDs6NbrRm cfg i = { s with nbr := s.nbr.nbrTableRemove cfg.ds6Neighbors i } :=
      rm_of_none hnone
    have hunused : (s.uipDs6NbrRm cfg i).uipDs6NbrLlLookup cfg lladdr = none := by
      rw [hrm, Ds6NbrCache.uipDs6NbrLlLookup, NbrTables.nbrTableGetFromLladdr]
      rw [Ds6NbrCache.uipDs6NbrLlLookup, NbrTables.nbrTableGetFromLladdr,
        filter_eq_none_iff] at hlookup
      rw [filter_eq_none_iff]
      intro k hk
      rw [used_nbrTableRemove]
      have hnot := hlookup k hk
      by_cases hsame : cfg.ds6Neighbors = cfg.ds6Neighbors ∧ k = i
      · rw [if_pos hsame]
        exact Bool.false_ne_true
      · rw [if_neg hsame]
        exact hnot
    have hadd : Ds6NbrFits cfg (s.uipDs6NbrRm cfg i) (.add (s.cells i).ipaddr lladdr
        (s.cells i).isrouter (s.cells i).state .ipv6Nd none) := by
      refine ⟨fun k hk => ?_, fun k nbr _ j hj _ heq => ?_⟩
      · rw [hunused] at hk
        exact absurd hk.symm (some_ne_none k)
      · rw [hrm] at hj heq
        obtain ⟨hmem, hne⟩ := (mem_entries_remove _).mp hj
        exact hne ⟨rfl, h.unique j hmem i hi heq⟩
    cases hnew : (s.uipDs6NbrRm cfg i).uipDs6NbrAdd cfg (s.cells i).ipaddr lladdr
        (s.cells i).isrouter (s.cells i).state .ipv6Nd none with
    | none =>
      exfalso
      rw [Ds6NbrCache.uipDs6NbrAdd, Ds6NbrCache.nbrTableAddLladdr, hrm, map_eq_none_iff,
        map_eq_none_iff] at hnew
      simp only [hnew] at hroom
      exact absurd hroom (by decide)
    | some js =>
      obtain ⟨j, s₂⟩ := js
      obtain ⟨hinv₂, hmem, haddr, hcell⟩ := hinv.add hadd hnew
      have hbackup : s.cells i = s₂.cells j := by
        rw [hcell]
        exact congrArg (Ds6Nbr.mk _ _ _) hnone
      have hsame : update s₂.cells j (s.cells i) = s₂.cells := by
        rw [hbackup, update_eq_self]
      simp only [hnew, hsame]
      refine ⟨hinv₂, hmem, haddr, ?_, ?_, ?_⟩
      · simp only
        rw [hbackup]
      · simp only
        rw [hbackup]
      · have hj : s₂.handle j = none := by rw [Ds6NbrCache.handle, hcell]
        change (s₂.handle j).map _ = _
        rw [hj, hnone, map_none, map_none]

/-- **Every event** that fits does what it should. -/
theorem Ds6NbrInv.step {e : Ds6NbrEvent} (h : Ds6NbrInv cfg s) (hfits : Ds6NbrFits cfg s e) :
    Ds6NbrInv cfg (s.step cfg e) ∧ Ds6NbrStepOk cfg s e := by
  cases e with
  | add ipaddr lladdr isrouter state reason candidate =>
    refine ⟨?_, trivial⟩
    rw [Ds6NbrCache.step]
    cases hadd : s.uipDs6NbrAdd cfg ipaddr lladdr isrouter state reason candidate with
    | none => exact h
    | some is => exact (h.add hfits hadd).1
  | rm i => exact ⟨h.rm i, trivial⟩
  | updateLl i newLlAddr =>
    rw [Ds6NbrCache.step]
    by_cases hi : i ∈ s.entries cfg
    · rw [if_pos hi]
      obtain ⟨hinv, hok⟩ := h.updateLl hi hfits
      exact ⟨hinv, fun _ => hok⟩
    · rw [if_neg hi]
      exact ⟨h, fun hmem => absurd hmem hi⟩
  | queuePacket i packet =>
    refine ⟨?_, trivial⟩
    rw [Ds6NbrCache.step]
    by_cases hi : i ∈ s.entries cfg
    · rw [if_pos hi]
      obtain ⟨hhandles, hnbr, hhandle, hipaddr⟩ := alloc_spec h.handles i packet
      refine h.change hnbr hhandles hipaddr fun j hj => ?_
      rw [hhandle j fun heq => hj (heq ▸ hi)]
      exact h.live j hj
    · rw [if_neg hi]
      exact h
  | sendQueued i =>
    refine ⟨?_, trivial⟩
    obtain ⟨hhandles, hnbr, hhandle, hipaddr, -⟩ := free_spec h.handles i
    refine h.change hnbr hhandles hipaddr fun j hj => ?_
    rw [Ds6NbrCache.step, hhandle, h.live j hj, ite_self]
  | timedout b =>
    refine ⟨?_, trivial⟩
    obtain ⟨hhandles, hnbr, hhandle, hipaddr⟩ := timedout_spec h.handles b
    refine h.change hnbr hhandles hipaddr fun j hj => ?_
    rcases hhandle j with hnone | hsame
    · exact hnone
    · rw [Ds6NbrCache.step, hsame]
      exact h.live j hj
  | set i isrouter state =>
    refine ⟨?_, trivial⟩
    have hcells : ∀ j, ((s.step cfg (.set i isrouter state)).cells j).ipaddr = (s.cells j).ipaddr ∧
        (s.step cfg (.set i isrouter state)).handle j = s.handle j := by
      intro j
      rw [Ds6NbrCache.handle, Ds6NbrCache.handle, Ds6NbrCache.step]
      simp only
      by_cases hj : j = i
      · rw [hj, update_self]
        exact ⟨rfl, rfl⟩
      · rw [update_of_ne hj]
        exact ⟨rfl, rfl⟩
    refine h.change rfl (h.handles.congr (fun j => (hcells j).2) rfl rfl) (fun j => (hcells j).1)
      fun j hj => ?_
    rw [(hcells j).2]
    exact h.live j hj
  | otherAdd table lladdr reason candidate =>
    refine ⟨?_, trivial⟩
    rw [Ds6NbrCache.step]
    by_cases htable : table ≠ cfg.ds6Neighbors
    · rw [if_pos htable]
      cases hadd : s.nbrTableAddLladdr cfg table lladdr reason candidate with
      | none => exact h
      | some is => exact h.otherAdd htable hadd
    · rw [if_neg htable]
      exact h
  | otherRemove table i =>
    refine ⟨?_, trivial⟩
    rw [Ds6NbrCache.step]
    by_cases htable : table ≠ cfg.ds6Neighbors
    · rw [if_pos htable]
      refine h.shrink (h.ok.nbrTableRemove _ _) (fun j hj => ((mem_entries_remove _).mp hj).1)
        fun j hj => h.live j fun hmem => ?_
      exact hj ((mem_entries_remove _).mpr ⟨hmem, fun hsame => htable hsame.1.symm⟩)
    · rw [if_neg htable]
      exact h
  | lock table i value =>
    refine ⟨?_, trivial⟩
    exact h.shrink ⟨h.ok.nodup, h.ok.inj, h.ok.inUse, h.ok.unlisted⟩ (fun _ hj => hj) h.live

end Table

/-! ## Every run -/

/-- An empty cache, whatever the blocks hold. -/
def Ds6NbrCache.init (cells : ℕ → Ds6Nbr) (queueBuf : ℕ → List Byte) : Ds6NbrCache where
  nbr := .init
  cells := fun i => { cells i with packethandle := none }
  packetsMemb := fun _ => false
  queueBuf := queueBuf
  lifetimer := fun _ => none

theorem ds6NbrInv_init (cells : ℕ → Ds6Nbr) (queueBuf : ℕ → List Byte) :
    Ds6NbrInv cfg (.init cells queueBuf) where
  ok := init_ok
  unique _ hi := absurd hi List.not_mem_nil
  handles := ⟨fun _ _ hi => absurd hi.symm (some_ne_none _),
    fun _ hb => absurd hb Bool.false_ne_true, fun _ _ hb => absurd hb.symm (some_ne_none _)⟩
  live _ _ := rfl

/-- The cache after a run. -/
def Ds6NbrCache.after (cfg : Ds6NbrConfig) (s : Ds6NbrCache) (events : List Ds6NbrEvent) :
    Ds6NbrCache :=
  events.foldl (Ds6NbrCache.step cfg) s

/-- Every event of a run fits. -/
def Ds6NbrFitsAlong (cfg : Ds6NbrConfig) (s : Ds6NbrCache) (events : List Ds6NbrEvent) : Prop :=
  Along (fun s e => some (Ds6NbrCache.step cfg s e)) (Ds6NbrFits cfg) s events

theorem Ds6NbrInv.after {s : Ds6NbrCache} {events : List Ds6NbrEvent} (h : Ds6NbrInv cfg s)
    (hfits : Ds6NbrFitsAlong cfg s events) : Ds6NbrInv cfg (s.after cfg events) :=
  run_induction (Ds6NbrInv cfg)
    (fun _ _ _ hfits h hstep => by
      rw [← Option.some.inj hstep]
      exact (h.step hfits).1) h hfits (run_some (Ds6NbrCache.step cfg) s events)

/-- **The neighbor cache.** In every run whose events fit, each block belongs to one entry and its
timer, no handle refers to a free block, an address has one entry, and an update of a link-layer
address keeps the entry or leaves everything as it is. -/
theorem ds6_nbr_ownership (cfg : Ds6NbrConfig) (cells : ℕ → Ds6Nbr) (queueBuf : ℕ → List Byte)
    (events : List Ds6NbrEvent) (e : Ds6NbrEvent)
    (h : Ds6NbrFitsAlong cfg (.init cells queueBuf) (events ++ [e])) :
    Owned cfg ((Ds6NbrCache.init cells queueBuf).after cfg events) ∧
      Ds6NbrStepOk cfg ((Ds6NbrCache.init cells queueBuf).after cfg events) e ∧
      Owned cfg (((Ds6NbrCache.init cells queueBuf).after cfg events).step cfg e) := by
  rw [Ds6NbrFitsAlong, along_append (run_some (Ds6NbrCache.step cfg) _ events)] at h
  have hinv := (ds6NbrInv_init cells queueBuf).after h.1
  obtain ⟨hinv', hok⟩ := hinv.step h.2.1
  exact ⟨hinv.toOwned, hok, hinv'.toOwned⟩

theorem ds6Neighbors_lt : 0 < 8 := by decide

/-- Sixteen neighbors, no policy, and two packets. -/
def ds6NbrConfig : Ds6NbrConfig := ⟨⟨16, .undefined⟩, 0, 2, ds6Neighbors_lt⟩

/-- The address `::`. -/
def unspecified : UipIpaddr := ⟨List.replicate 16 0, length_sixteen_zeros⟩

/-- Blank entries. -/
def blankCells (_ : ℕ) : Ds6Nbr := ⟨unspecified, false, .incomplete, none⟩

/-- An address is resolved: an entry without a link-layer address, and a packet for it. -/
def resolving : List Ds6NbrEvent :=
  [.add unspecified (fun _ => 0) false .incomplete .ipv6Nd none, .queuePacket 0 [1]]

/-- A link-layer address. -/
def someLladdr : LinkAddr := fun _ => 1

theorem ds6_nbr_ownership_queued :
    Owned ds6NbrConfig ((Ds6NbrCache.init blankCells fun _ => []).after ds6NbrConfig resolving) ∧
      Ds6NbrStepOk ds6NbrConfig
        ((Ds6NbrCache.init blankCells fun _ => []).after ds6NbrConfig resolving) (.timedout 0) ∧
      Owned ds6NbrConfig (((Ds6NbrCache.init blankCells fun _ => []).after ds6NbrConfig
        resolving).step ds6NbrConfig (.timedout 0)) := by
  refine ds6_nbr_ownership ds6NbrConfig blankCells (fun _ => []) resolving (.timedout 0)
    ⟨⟨fun _ hi => ?_, fun _ _ _ _ hj => ?_⟩, trivial, trivial, trivial⟩
  · exact absurd hi.symm (Option.some_ne_none _)
  · exact absurd hj List.not_mem_nil

/-- **An update of the link-layer address frees the packet** and keeps the handle that refers to
it. -/
theorem update_ll_keeps_freed :
    ¬ Owned ds6NbrConfig (((Ds6NbrCache.init blankCells fun _ => []).after ds6NbrConfig
      resolving).step ds6NbrConfig (.updateLl 0 someLladdr)) := by
  intro h
  have hhandle : (((Ds6NbrCache.init blankCells fun _ => []).after ds6NbrConfig
      resolving).step ds6NbrConfig (.updateLl 0 someLladdr)).handle 1 = some 0 := by decide
  have hfree : (((Ds6NbrCache.init blankCells fun _ => []).after ds6NbrConfig
      resolving).step ds6NbrConfig (.updateLl 0 someLladdr)).packetsMemb 0 = false := by decide
  rw [h.live 1 0 hhandle] at hfree
  exact absurd hfree.symm Bool.false_ne_true

end Asap.Ipv6
