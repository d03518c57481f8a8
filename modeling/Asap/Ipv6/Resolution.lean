import Asap.Ipv6.NeighborDiscovery
import Asap.Ipv6.Ds6NbrRun

/-!
# Address resolution

An entry of the neighbor cache is incomplete until the link-layer address of its neighbor is known
from an option of a message. All entries without an address have the null address, so there is one
at most. What breaks this is a unicast packet from a neighbor whose address is not known: it makes
the entry reachable, whatever it carries.

## Main definitions

* `InPacket.carried` — the link-layer addresses that a message carries.
* `Resolved`, `NdInv` — an entry is incomplete or has a known address; the invariant.
* `Resolves`, `NdFits` — the packets that make an address known, and the events that keep it.
* `Resolution`, `KeepsPending`, `OnePending` — what holds of an event.
-/

namespace Asap.Ipv6

open Lib Tsch Function List Option NbrTables Bool

/-! ## What options say -/

/-- The addresses and link-layer addresses that the options of a packet carry. -/
def InPacket.carried (p : InPacket) : List (UipIpaddr × LinkAddr) :=
  match p.message with
  | .ns _ _ options => (sllaos options).map (p.srcipaddr, ·)
  | .na _ _ tgt options => (tllaos options).map (tgt, ·)
  | .rs _ options => (sllaos options).map (p.srcipaddr, ·)
  | .other => []

/-- What an event carries. -/
def NdEvent.carried : NdEvent → List (UipIpaddr × LinkAddr)
  | .receive _ p => p.carried
  | _ => []

/-! ## The property -/

section Property

variable (cfg : NdConfig) (known : List (UipIpaddr × LinkAddr)) (s : Nd)

/-- The link-layer address of an entry was carried by an option. -/
def Known (i : ℕ) : Prop := (s.ipaddr i, s.lladdr i) ∈ known

/-- **Addresses are resolved:** an entry is complete only with a link-layer address that an option
has carried, and so is the neighbor to which a packet is handed to the link layer. -/
structure Resolution (e : NdEvent) : Prop where
  leaves : ∀ i ∈ s.entries cfg, s.state i = .incomplete → ∀ j ∈ (s.step cfg e).2.entries cfg,
    (s.step cfg e).2.ipaddr j = s.ipaddr i → (s.step cfg e).2.state j ≠ .incomplete →
      Known (e.carried ++ known) (s.step cfg e).2 j
  sends : ∀ nbr lladdr packet, .unicast nbr lladdr packet ∈ (s.step cfg e).1 →
    (nbr, lladdr) ∈ known

/-- **Several next hops can be pending:** a packet that is sent leaves the entries of other
neighbors that are not resolved. -/
def KeepsPending (e : NdEvent) : Prop :=
  ∀ stack p, e = .output stack p → ∀ i ∈ s.entries cfg, s.state i = .incomplete →
    p.nexthop ≠ some (s.ipaddr i) →
      ∃ j ∈ (s.step cfg e).2.entries cfg, (s.step cfg e).2.ipaddr j = s.ipaddr i

/-- **One next hop is pending:** one entry at most has an address that is not known. One that is
added for a next hop takes its place, and leaves the others as they are. -/
structure OnePending (e : NdEvent) : Prop where
  one : ∀ i ∈ (s.step cfg e).2.entries cfg, ∀ j ∈ (s.step cfg e).2.entries cfg,
    ¬ Known (e.carried ++ known) (s.step cfg e).2 i →
      ¬ Known (e.carried ++ known) (s.step cfg e).2 j → i = j
  takes : ∀ stack p nexthop k, e = .output stack p → p.nexthop = some nexthop →
    s.lookup cfg nexthop = none → (s.step cfg e).2.lookup cfg nexthop = some k →
      (∀ i ∈ s.entries cfg, ¬ Known known s i → i = k) ∧
        ∀ j ∈ s.entries cfg, j ≠ k → j ∈ (s.step cfg e).2.entries cfg ∧
          (s.step cfg e).2.ipaddr j = s.ipaddr j ∧ (s.step cfg e).2.lladdr j = s.lladdr j ∧
          (s.step cfg e).2.state j = s.state j

end Property

/-! ## The events that keep it -/

/-- The first link-layer address of the source, unless an option of length zero is before it. -/
def firstSllao : List Nd6Opt → Option LinkAddr
  | [] => none
  | .zeroLen :: _ => none
  | .sllao lladdr :: _ => some lladdr
  | .tllao _ :: options => firstSllao options
  | .other :: options => firstSllao options

/-- **A message that resolves its sender**, which has the entry `i`: it is accepted, and its option
has a link-layer address that no other entry has, or the one of the entry. -/
def Resolves (cfg : NdConfig) (stack : NdStack) (s : Nd) (p : InPacket) (i : ℕ) : Prop :=
  (stack.isMyAddr p.destipaddr || stack.maddrLookup p.destipaddr) = true ∧
    p.ttl = uipNd6HopLimit ∧
    match p.message with
    | .ns icode tgt options => icode = 0 ∧ isAddrMcast tgt = false ∧
        isAddrUnspecified p.srcipaddr = false ∧ ∃ lladdr ∈ firstSllao options,
          lladdr = s.lladdr i ∨ s.llLookup cfg lladdr = none
    | .na icode flags tgt options => icode = 0 ∧ tgt = p.srcipaddr ∧
        stack.isMyAddr tgt = false ∧ optionsOk options = true ∧ ∃ lladdr ∈ lastTllao options,
          lladdr = s.lladdr i ∨
            (flags &&& uipNd6NaFlagOverride ≠ 0 ∧ s.llLookup cfg lladdr = none)
    | .rs icode options => icode = 0 ∧ isAddrUnspecified p.srcipaddr = false ∧
        optionsOk options = true ∧ (lastSllao options).isSome = true
    | .other => False

/-- **The events that keep it:** a unicast packet comes from a neighbor whose link-layer address is
known, or makes it known. -/
def NdFits (cfg : NdConfig) (known : List (UipIpaddr × LinkAddr)) (s : Nd) : NdEvent → Prop
  | .receive stack p =>
    isAddrMcast p.srcipaddr = false → isAddrMcast p.destipaddr = false →
      ∀ i, s.lookup cfg p.srcipaddr = some i → Known known s i ∨ Resolves cfg stack s p i
  | _ => True

/-! ## Places of the table -/

section Table

variable {cfg : Ds6NbrConfig} {s s' : Ds6NbrCache} {i j k table : ℕ} {lladdr : LinkAddr}
  {reason : NbrTableReason} {candidate : Option LinkAddr}

/-- The addresses and states of the entries. -/
def SameCells (s s' : Ds6NbrCache) : Prop :=
  ∀ j, (s'.cells j).ipaddr = (s.cells j).ipaddr ∧ (s'.cells j).state = (s.cells j).state

section

variable (s : Ds6NbrCache) (i : ℕ)

theorem sameCells_setHandle (packet : Option ℕ) :
    SameCells s (s.setHandle i packet) := by
  intro j
  by_cases hj : j = i
  · rw [hj, cells_setHandle, update_self]
    exact ⟨rfl, rfl⟩
  · rw [cells_setHandle, update_of_ne hj]
    exact ⟨rfl, rfl⟩

theorem sameCells_free : SameCells s (s.uipPacketqueueFree i) := by
  rw [Ds6NbrCache.uipPacketqueueFree]
  cases s.handle i with
  | none => exact fun _ => ⟨rfl, rfl⟩
  | some b => exact sameCells_setHandle s i none

theorem nbr_free : (s.uipPacketqueueFree i).nbr = s.nbr := by
  rw [Ds6NbrCache.uipPacketqueueFree]
  cases s.handle i <;> rfl

theorem sameCells_alloc (packet : List Byte) :
    SameCells s (s.uipPacketqueueAlloc cfg i packet) := by
  rw [Ds6NbrCache.uipPacketqueueAlloc]
  cases s.handle i with
  | some b => exact fun _ => ⟨rfl, rfl⟩
  | none =>
    cases membAlloc cfg.maxNumQueuedPackets s.packetsMemb with
    | none => exact fun _ => ⟨rfl, rfl⟩
    | some b => exact sameCells_setHandle s i (some b)

theorem nbr_alloc (packet : List Byte) :
    (s.uipPacketqueueAlloc cfg i packet).nbr = s.nbr := by
  rw [Ds6NbrCache.uipPacketqueueAlloc]
  cases s.handle i with
  | some b => rfl
  | none => cases membAlloc cfg.maxNumQueuedPackets s.packetsMemb <;> rfl

end

theorem sameCells_timedout (s : Ds6NbrCache) (b : ℕ) : SameCells s (s.packetTimedout b) := by
  rw [Ds6NbrCache.packetTimedout]
  cases s.lifetimer b with
  | none => exact fun _ => ⟨rfl, rfl⟩
  | some i => exact sameCells_setHandle s i none

theorem nbr_timedout (s : Ds6NbrCache) (b : ℕ) : (s.packetTimedout b).nbr = s.nbr := by
  rw [Ds6NbrCache.packetTimedout]
  cases s.lifetimer b <;> rfl

/-- What an address that is added to a table leaves of the entries. -/
structure AddsAt (cfg : Ds6NbrConfig) (s s' : Ds6NbrCache) (table : ℕ) (lladdr : LinkAddr) (k : ℕ) :
    Prop where
  ok : s'.nbr.Ok
  addr : s'.nbr.lladdr k = lladdr
  cells : SameCells s s'
  entries : ∀ j ≠ k, j ∈ s'.entries cfg ↔ j ∈ s.entries cfg
  others : ∀ j ≠ k, s'.nbr.lladdr j = s.nbr.lladdr j
  mem : table = cfg.ds6Neighbors → k ∈ s'.entries cfg
  other : table ≠ cfg.ds6Neighbors → k ∈ s'.entries cfg →
    k ∈ s.entries cfg ∧ s.nbr.lladdr k = lladdr
  only : ∀ i ∈ s.nbr.nbrTableKeys, s.nbr.lladdr i = lladdr → i = k

/-- What is evicted has its packet freed, and nothing else of an entry is changed. -/
theorem add_cells
    (hadd : s.nbrTableAddLladdr cfg table lladdr reason candidate = some (k, s')) :
    s.nbr.nbrTableAddLladdr cfg.tables table lladdr reason candidate = some (k, s'.nbr) ∧
      SameCells s s' := by
  obtain ⟨⟨i, nbr⟩, hnbr, heq⟩ := map_eq_some_iff.mp hadd
  cases hevicted : s.nbr.evicted cfg.tables lladdr reason candidate with
  | none =>
    simp only [hevicted] at heq
    cases heq
    exact ⟨hnbr, fun _ => ⟨rfl, rfl⟩⟩
  | some e =>
    simp only [hevicted] at heq
    by_cases hused : s.nbr.used cfg.ds6Neighbors e = true
    · rw [if_pos hused] at heq
      cases heq
      exact ⟨hnbr, sameCells_free s e⟩
    · rw [if_neg hused] at heq
      cases heq
      exact ⟨hnbr, fun _ => ⟨rfl, rfl⟩⟩

/-- **An address is added.** -/
theorem addsAt (h : s.nbr.Ok)
    (hadd : s.nbrTableAddLladdr cfg table lladdr reason candidate = some (k, s')) :
    AddsAt cfg s s' table lladdr k := by
  obtain ⟨hnbr, hcells⟩ := add_cells hadd
  obtain ⟨hok, hlisted, haddr, hsame, hcase⟩ := h.addLladdr_spec hnbr
  have hused : s'.nbr.used cfg.ds6Neighbors k =
      if cfg.ds6Neighbors = table then true
      else (decide (k ∈ s.nbr.nbrTableKeys ∧ s.nbr.lladdr k = lladdr) &&
        s.nbr.used cfg.ds6Neighbors k) := by
    cases hcase with
    | known hmem hkaddr hused _ =>
      rw [NbrTables.used, hused, getLsbD_setBit _ cfg.index_lt, NbrTables.used,
        decide_eq_true ⟨hmem, hkaddr⟩, Bool.true_and]
    | new hall hused _ =>
      rw [NbrTables.used, hused, getLsbD_setBit _ cfg.index_lt,
        decide_eq_false fun hmem => hall k hmem.1 hmem.2, Bool.false_and,
        show (0 : BitVec 8).getLsbD cfg.ds6Neighbors = false from BitVec.getLsbD_zero]
  refine ⟨hok, haddr, hcells, fun j hj => ?_, hsame.lladdr, fun htable => ?_,
    fun htable hmem => ?_, fun i hi hiaddr => ?_⟩
  · rw [Ds6NbrCache.entries, mem_items, Ds6NbrCache.entries, mem_items,
      hsame.keys j hj, NbrTables.used, hsame.usedMap j hj, NbrTables.used]
  · refine mem_items.mpr ⟨hlisted, ?_⟩
    rw [hused, if_pos htable.symm]
  · have hbit := (mem_items.mp hmem).2
    rw [hused, if_neg (Ne.symm htable), and_eq_true, decide_eq_true_eq] at hbit
    exact ⟨mem_items.mpr ⟨hbit.1.1, hbit.2⟩, hbit.1.2⟩
  · cases hcase with
    | known hmem hkaddr _ _ => exact h.inj i hi k hmem (hiaddr.trans hkaddr.symm)
    | new hall _ _ => exact absurd hiaddr (hall i hi)

end Table

/-! ## Entries -/

section Entries

variable {cfg : NdConfig} {stack : NdStack} {known known' : List (UipIpaddr × LinkAddr)}
  {s s' : Nd} {i j k : ℕ} {addr : UipIpaddr} {lladdr : LinkAddr} {state : NbrState}

/-- An entry is as it was, but for its packet, its timers and `isrouter`. -/
structure Kept (cfg : NdConfig) (s s' : Nd) (j : ℕ) : Prop where
  mem : j ∈ s.entries cfg
  ipaddr : s'.ipaddr j = s.ipaddr j
  lladdr : s'.lladdr j = s.lladdr j
  state : s'.state j = s.state j

/-- Entries may be gone, and the others are as they were. -/
structure Subcache (cfg : NdConfig) (s s' : Nd) : Prop where
  ok : s'.cache.nbr.Ok
  kept : ∀ j ∈ s'.entries cfg, Kept cfg s s' j

/-- An entry is put at a place, that of `i` may be gone, and the others are as they were. -/
structure Puts (cfg : NdConfig) (s s' : Nd) (i k : ℕ) (addr : UipIpaddr) (lladdr : LinkAddr)
    (state : NbrState) : Prop where
  ok : s'.cache.nbr.Ok
  mem : k ∈ s'.entries cfg
  ipaddr : s'.ipaddr k = addr
  lladdr : s'.lladdr k = lladdr
  state : s'.state k = state
  kept : ∀ j ∈ s'.entries cfg, j ≠ k → j ≠ i ∧ Kept cfg s s' j

theorem Subcache.refl (h : s.cache.nbr.Ok) : Subcache cfg s s where
  ok := h
  kept _ hj := ⟨hj, rfl, rfl, rfl⟩

theorem Subcache.trans {s'' : Nd} (h : Subcache cfg s s') (h' : Subcache cfg s' s'') :
    Subcache cfg s s'' where
  ok := h'.ok
  kept j hj :=
    have hk' := h'.kept j hj
    have hk := h.kept j hk'.mem
    ⟨hk.mem, hk'.ipaddr.trans hk.ipaddr, hk'.lladdr.trans hk.lladdr, hk'.state.trans hk.state⟩

section

variable (h : s.cache.nbr.Ok)

include h

/-- The table is the same, and the entries are. -/
theorem Subcache.same (hnbr : s'.cache.nbr = s.cache.nbr)
    (hcells : SameCells s.cache s'.cache) : Subcache cfg s s' where
  ok := hnbr ▸ h
  kept j hj := by
    rw [Nd.entries, Ds6NbrCache.entries, hnbr] at hj
    refine ⟨hj, (hcells j).1, ?_, (hcells j).2⟩
    rw [Nd.lladdr, hnbr, Nd.lladdr]

theorem subcache_setTimers (i : ℕ) (timers : NdTimers) :
    Subcache cfg s (s.setTimers i timers) :=
  .same h rfl fun _ => ⟨rfl, rfl⟩

theorem subcache_setRouter (i : ℕ) (isrouter : Bool) :
    Subcache cfg s (s.setRouter i isrouter) := by
  refine .same h rfl fun j => ?_
  change (update s.cache.cells i _ j).ipaddr = _ ∧
    (update s.cache.cells i _ j).state = _
  by_cases hj : j = i
  · rw [hj, update_self]
    exact ⟨rfl, rfl⟩
  · rw [update_of_ne hj]
    exact ⟨rfl, rfl⟩

theorem subcache_queuePacket (i : ℕ) (packet : List Byte) :
    Subcache cfg s (s.queuePacket cfg i packet) :=
  .same h (nbr_alloc s.cache i packet) (sameCells_alloc s.cache i packet)

theorem subcache_freeQueued (i : ℕ) : Subcache cfg s (s.freeQueued i) := by
  rw [Nd.freeQueued]
  cases s.queued i with
  | none => exact .refl h
  | some packet => exact .same h (nbr_free s.cache i) (sameCells_free s.cache i)

end

/-- **An entry is removed.** -/
theorem mem_entries_rm (i j : ℕ) :
    j ∈ (s.uipDs6NbrRm cfg i).entries cfg ↔ j ∈ s.entries cfg ∧ j ≠ i := by
  change j ∈ ((s.cache.uipPacketqueueFree i).nbr.nbrTableRemove cfg.ds6Neighbors i).items _ ↔ _
  rw [mem_entries_remove, Ds6NbrCache.entries, nbr_free]
  exact and_congr_right fun _ => not_congr (and_iff_right rfl)

theorem subcache_rm (h : s.cache.nbr.Ok) (i : ℕ) : Subcache cfg s (s.uipDs6NbrRm cfg i) where
  ok := by
    have hok := h.nbrTableRemove cfg.ds6Neighbors i
    rwa [← nbr_free s.cache i] at hok
  kept j hj := by
    refine ⟨((mem_entries_rm i j).mp hj).1, (sameCells_free s.cache i j).1, ?_,
      (sameCells_free s.cache i j).2⟩
    change (s.cache.uipPacketqueueFree i).nbr.lladdr j = _
    rw [nbr_free]
    rfl

/-- The cell of a place that is added is written. -/
theorem puts_cell (s : Nd) {cache : Ds6NbrCache} (timers : ℕ → NdTimers)
    (h : AddsAt cfg.toDs6NbrConfig s.cache cache cfg.ds6Neighbors lladdr k) (cell : Ds6Nbr) :
    Puts cfg s ⟨{ cache with cells := update cache.cells k cell }, timers⟩ k k cell.ipaddr
      lladdr cell.state where
  ok := h.ok
  mem := h.mem rfl
  ipaddr := congrArg Ds6Nbr.ipaddr (update_self k cell cache.cells)
  lladdr := h.addr
  state := congrArg Ds6Nbr.state (update_self k cell cache.cells)
  kept j hj hjk :=
    have hcell : update cache.cells k cell j = cache.cells j :=
      update_of_ne hjk cell cache.cells
    ⟨hjk, (h.entries j hjk).mp hj, (congrArg Ds6Nbr.ipaddr hcell).trans (h.cells j).1,
      h.others j hjk, (congrArg Ds6Nbr.state hcell).trans (h.cells j).2⟩

/-- **An entry is added.** -/
theorem puts_add (h : s.cache.nbr.Ok)
    (hadd : s.uipDs6NbrAdd cfg stack addr lladdr state = some (k, s')) :
    Puts cfg s s' k k addr lladdr state ∧
      (∀ j ∈ s.entries cfg, j ≠ k → j ∈ s'.entries cfg ∧ Kept cfg s s' j) ∧
      ∀ i ∈ s.entries cfg, s.lladdr i = lladdr → i = k := by
  obtain ⟨⟨k', cache⟩, hcache, heq⟩ := map_eq_some_iff.mp hadd
  obtain ⟨⟨k'', cache'⟩, hnbr, heq'⟩ := map_eq_some_iff.mp hcache
  cases heq'
  cases heq
  have hadds := addsAt h hnbr
  have hputs := puts_cell s (update s.timers k' (Nd.newTimers stack state)) hadds
    ⟨addr, false, state, none⟩
  refine ⟨hputs, fun j hj hjk => ?_,
    fun i hi hiaddr => hadds.only i (mem_items.mp hi).1 hiaddr⟩
  have hmem := (hadds.entries j hjk).mpr hj
  exact ⟨hmem, (hputs.kept j hmem hjk).2⟩

/-- **A link-layer address cannot be updated:** another entry has it, or the entry is lost. -/
theorem updateLl_none (h : s.cache.nbr.Ok) (hnone : (s.uipDs6NbrUpdateLl cfg i lladdr).1 = none) :
    Subcache cfg s (s.uipDs6NbrUpdateLl cfg i lladdr).2 ∧
      (s.llLookup cfg lladdr = none → i ∉ (s.uipDs6NbrUpdateLl cfg i lladdr).2.entries cfg) := by
  simp only [Nd.uipDs6NbrUpdateLl, Ds6NbrCache.uipDs6NbrUpdateLl] at hnone ⊢
  by_cases hlookup : (s.cache.uipDs6NbrLlLookup cfg.toDs6NbrConfig lladdr).isSome = true
  · rw [if_pos hlookup]
    refine ⟨.refl h, fun hll => ?_⟩
    rw [Nd.llLookup] at hll
    rw [hll] at hlookup
    exact absurd hlookup Bool.false_ne_true
  · rw [if_neg hlookup] at hnone ⊢
    cases hadd : (s.cache.uipDs6NbrRm cfg.toDs6NbrConfig i).uipDs6NbrAdd cfg.toDs6NbrConfig
        (s.cache.cells i).ipaddr lladdr (s.cache.cells i).isrouter (s.cache.cells i).state
        .ipv6Nd none with
    | none => exact ⟨subcache_rm h i, fun _ hmem => ((mem_entries_rm i i).mp hmem).2 rfl⟩
    | some r =>
      simp only [hadd] at hnone
      exact absurd hnone (some_ne_none _)

/-- **A link-layer address is updated.** -/
theorem updateLl_some (h : s.cache.nbr.Ok)
    (hsome : (s.uipDs6NbrUpdateLl cfg i lladdr).1 = some k) :
    Puts cfg s (s.uipDs6NbrUpdateLl cfg i lladdr).2 i k (s.ipaddr i) lladdr (s.state i) := by
  simp only [Nd.uipDs6NbrUpdateLl, Ds6NbrCache.uipDs6NbrUpdateLl] at hsome ⊢
  by_cases hlookup : (s.cache.uipDs6NbrLlLookup cfg.toDs6NbrConfig lladdr).isSome = true
  · rw [if_pos hlookup] at hsome
    exact absurd hsome.symm (some_ne_none k)
  · rw [if_neg hlookup] at hsome ⊢
    have hrm : Subcache cfg s (s.uipDs6NbrRm cfg i) := subcache_rm h i
    cases hadd : (s.cache.uipDs6NbrRm cfg.toDs6NbrConfig i).uipDs6NbrAdd cfg.toDs6NbrConfig
        (s.cache.cells i).ipaddr lladdr (s.cache.cells i).isrouter (s.cache.cells i).state
        .ipv6Nd none with
    | none =>
      simp only [hadd] at hsome
      exact absurd hsome.symm (some_ne_none k)
    | some r =>
      simp only [hadd] at hsome
      obtain rfl := Option.some.inj hsome
      obtain ⟨⟨k', cache⟩, hnbr, heq⟩ := map_eq_some_iff.mp hadd
      cases heq
      have hputs := puts_cell (s.uipDs6NbrRm cfg i) (update s.timers k' (s.timers i))
        (addsAt hrm.ok hnbr) (s.cache.cells i)
      simp only [update_idem, Option.elim]
      refine ⟨hputs.ok, hputs.mem, hputs.ipaddr, hputs.lladdr, hputs.state, fun j hj hjk => ?_⟩
      have hkept := (hputs.kept j hj hjk).2
      have hmem := (mem_entries_rm i j).mp hkept.mem
      have hkept' := hrm.kept j hkept.mem
      exact ⟨hmem.2, hmem.1, hkept.ipaddr.trans hkept'.ipaddr, hkept.lladdr.trans hkept'.lladdr,
        hkept.state.trans hkept'.state⟩

/-! ## The invariant -/

/-- An entry has a link-layer address that is known, or it is incomplete and has none. -/
def Resolved (known : List (UipIpaddr × LinkAddr)) (s : Nd) (i : ℕ) : Prop :=
  Known known s i ∨ (s.state i = .incomplete ∧ s.lladdr i = linkaddrNull)

/-- **The invariant.** -/
structure NdInv (cfg : NdConfig) (known : List (UipIpaddr × LinkAddr)) (s : Nd) : Prop where
  ok : s.cache.nbr.Ok
  resolved : ∀ j ∈ s.entries cfg, Resolved known s j

/-- The invariant, but for one entry. -/
structure NdInvBut (cfg : NdConfig) (known : List (UipIpaddr × LinkAddr)) (s : Nd) (i : ℕ) :
    Prop where
  ok : s.cache.nbr.Ok
  resolved : ∀ j ∈ s.entries cfg, j ≠ i → Resolved known s j

theorem Kept.resolved (h : Kept cfg s s' j) (hj : Resolved known s j) : Resolved known s' j := by
  rw [Resolved, Known, h.ipaddr, h.lladdr, h.state]
  exact hj

theorem NdInv.toBut (h : NdInv cfg known s) (i : ℕ) : NdInvBut cfg known s i :=
  ⟨h.ok, fun j hj _ => h.resolved j hj⟩

theorem NdInvBut.resolve (h : NdInvBut cfg known s i) (hi : i ∈ s.entries cfg → Resolved known s i) :
    NdInv cfg known s where
  ok := h.ok
  resolved j hj := by
    by_cases hji : j = i
    · rw [hji] at hj ⊢
      exact hi hj
    · exact h.resolved j hj hji

theorem NdInv.mono (h : NdInv cfg known s) (hsub : known ⊆ known') : NdInv cfg known' s :=
  ⟨h.ok, fun j hj => (h.resolved j hj).imp_left fun hmem => hsub hmem⟩

theorem NdInv.sub (h : NdInv cfg known s) (hsub : Subcache cfg s s') : NdInv cfg known s' :=
  ⟨hsub.ok, fun j hj => (hsub.kept j hj).resolved (h.resolved j (hsub.kept j hj).mem)⟩

/-- The entry is gone. -/
theorem NdInvBut.gone (h : NdInvBut cfg known s i) (hsub : Subcache cfg s s')
    (hi : i ∉ s'.entries cfg) : NdInv cfg known s' where
  ok := hsub.ok
  resolved j hj :=
    have hkept := hsub.kept j hj
    hkept.resolved (h.resolved j hkept.mem fun hji => hi (hji ▸ hj))

/-- Another entry is put instead of it. -/
theorem NdInvBut.puts (h : NdInvBut cfg known s i) (hputs : Puts cfg s s' i k addr lladdr state)
    (hk : (addr, lladdr) ∈ known ∨ (state = .incomplete ∧ lladdr = linkaddrNull)) :
    NdInv cfg known s' where
  ok := hputs.ok
  resolved j hj := by
    by_cases hjk : j = k
    · rw [hjk, Resolved, Known, hputs.ipaddr, hputs.lladdr, hputs.state]
      exact hk
    · obtain ⟨hji, hkept⟩ := hputs.kept j hj hjk
      exact hkept.resolved (h.resolved j hkept.mem hji)

/-- What a state that is set leaves of another entry. -/
theorem kept_setState (hj : j ∈ s.entries cfg) (hji : j ≠ i) (state : NbrState) :
    Kept cfg s (s.setState i state) j :=
  have hcell : update s.cache.cells i { s.cache.cells i with state } j = s.cache.cells j :=
    update_of_ne hji _ _
  ⟨hj, congrArg Ds6Nbr.ipaddr hcell, rfl, congrArg Ds6Nbr.state hcell⟩

theorem ipaddr_setState (s : Nd) (i : ℕ) (state : NbrState) (j : ℕ) :
    (s.setState i state).ipaddr j = s.ipaddr j := by
  change (update s.cache.cells i _ j).ipaddr = _
  by_cases hj : j = i
  · rw [hj, update_self]
    rfl
  · rw [update_of_ne hj]
    rfl

theorem state_setState (s : Nd) (i : ℕ) (state : NbrState) : (s.setState i state).state i = state := by
  change (update s.cache.cells i _ i).state = _
  rw [update_self]

theorem known_setState : Known known (s.setState i state) j ↔ Known known s j := by
  rw [Known, ipaddr_setState]
  exact Iff.rfl

/-- The state of an entry is set, whatever it is. -/
theorem NdInvBut.setState (h : NdInvBut cfg known s i) (state : NbrState) :
    NdInvBut cfg known (s.setState i state) i :=
  ⟨h.ok, fun j hj hji =>
    have hmem : j ∈ s.entries cfg := hj
    (kept_setState hmem hji state).resolved (h.resolved j hmem hji)⟩

/-- **The state of an entry** with a known address is set. -/
theorem NdInvBut.setKnown (h : NdInvBut cfg known s i) (hi : i ∈ s.entries cfg → Known known s i)
    (state : NbrState) : NdInv cfg known (s.setState i state) :=
  (h.setState state).resolve fun hmem => .inl (known_setState.mpr (hi hmem))

/-- An entry that is not incomplete has a known address. -/
theorem Resolved.isKnown (h : Resolved known s i) (hstate : s.state i ≠ .incomplete) :
    Known known s i :=
  h.resolve_right fun hinc => hstate hinc.1

theorem NdInv.setTimers (h : NdInv cfg known s) (i : ℕ) (timers : NdTimers) :
    NdInv cfg known (s.setTimers i timers) :=
  h.sub (subcache_setTimers h.ok i timers)

theorem lookup_some (h : s.lookup cfg addr = some i) : i ∈ s.entries cfg ∧ s.ipaddr i = addr := by
  rw [Nd.lookup, Ds6NbrCache.uipDs6NbrLookup] at h
  have hfound := List.find?_some h
  exact ⟨mem_of_find?_eq_some h, of_decide_eq_true hfound⟩

/-! ## Messages -/

/-- **The link-layer address of the source**, of which an entry is resolved or gets it. -/
theorem NdInvBut.nsSllao {src : UipIpaddr} (h : NdInvBut cfg known s i)
    (hlookup : s.lookup cfg src = some i) (hknown : (src, lladdr) ∈ known)
    (hcase : Resolved known s i ∨ (isAddrUnspecified src = false ∧
      (lladdr = s.lladdr i ∨ s.llLookup cfg lladdr = none))) :
    NdInv cfg known (s.nsSllao cfg stack src lladdr).2 := by
  obtain ⟨hmem, haddr⟩ := lookup_some hlookup
  rw [Nd.nsSllao]
  by_cases hun : isAddrUnspecified src = true
  · rw [if_pos hun]
    cases hcase with
    | inl hres => exact h.resolve fun _ => hres
    | inr hcase => exact absurd hun (hcase.1 ▸ Bool.false_ne_true)
  · rw [if_neg hun, hlookup]
    by_cases hne : lladdr ≠ s.lladdr i
    · simp only [if_pos hne]
      cases hup : (s.uipDs6NbrUpdateLl cfg i lladdr).1 with
      | none =>
        obtain ⟨hsub, hgone⟩ := updateLl_none h.ok hup
        cases hcase with
        | inl hres => exact (h.resolve fun _ => hres).sub hsub
        | inr hcase => exact h.gone hsub (hgone (hcase.2.resolve_left hne))
      | some k =>
        have hputs := updateLl_some h.ok hup
        rw [haddr] at hputs
        refine ((h.puts hputs (.inl hknown)).toBut k).setKnown (fun _ => ?_) .stale
        rw [Known, hputs.ipaddr, hputs.lladdr]
        exact hknown
    · have hi : Known known s i := by
        rw [Known, haddr, ← not_not.mp hne]
        exact hknown
      simp only [if_neg hne]
      by_cases hinc : s.state i = .incomplete
      · rw [if_pos hinc]
        exact h.setKnown (fun _ => hi) .stale
      · rw [if_neg hinc]
        exact h.resolve fun _ => .inl hi

theorem NdInv.nsSllao {src : UipIpaddr} (h : NdInv cfg known s) (hknown : (src, lladdr) ∈ known) :
    NdInv cfg known (s.nsSllao cfg stack src lladdr).2 := by
  cases hlookup : s.lookup cfg src with
  | some i =>
    exact (h.toBut i).nsSllao hlookup hknown (.inl (h.resolved i (lookup_some hlookup).1))
  | none =>
    rw [Nd.nsSllao, hlookup]
    by_cases hun : isAddrUnspecified src = true
    · rw [if_pos hun]
      exact h
    · rw [if_neg hun]
      cases hadd : s.uipDs6NbrAdd cfg stack src lladdr .stale with
      | none => exact h
      | some r => exact (h.toBut r.1).puts (puts_add h.ok hadd).1 (.inl hknown)

/-- **The options of a solicitation.** -/
theorem NdInv.nsOptions {src : UipIpaddr} {options : List Nd6Opt} (h : NdInv cfg known s)
    (hknown : ∀ lladdr ∈ sllaos options, (src, lladdr) ∈ known) :
    NdInv cfg known (Nd.nsOptions cfg stack src options s).2 := by
  induction options generalizing s with
  | nil => exact h
  | cons option options ih =>
    cases option with
    | sllao lladdr =>
      rw [Nd.nsOptions]
      have hinv : NdInv cfg known (s.nsSllao cfg stack src lladdr).2 :=
        h.nsSllao (hknown lladdr mem_cons_self)
      by_cases hgo : (s.nsSllao cfg stack src lladdr).1 = true
      · rw [if_pos hgo]
        exact ih hinv fun l hl => hknown l (mem_cons_of_mem lladdr hl)
      · rw [if_neg hgo]
        exact hinv
    | tllao lladdr => exact ih h hknown
    | other => exact ih h hknown
    | zeroLen => exact h

/-- The options of a solicitation resolve the sender. -/
theorem NdInvBut.nsOptions {src : UipIpaddr} {options : List Nd6Opt} (h : NdInvBut cfg known s i)
    (hlookup : s.lookup cfg src = some i)
    (hknown : ∀ lladdr ∈ sllaos options, (src, lladdr) ∈ known)
    (hun : isAddrUnspecified src = false)
    (hfirst : ∃ lladdr ∈ firstSllao options,
      lladdr = s.lladdr i ∨ s.llLookup cfg lladdr = none) :
    NdInv cfg known (Nd.nsOptions cfg stack src options s).2 := by
  induction options with
  | nil =>
    obtain ⟨lladdr, hmem, -⟩ := hfirst
    exact absurd hmem.symm (some_ne_none lladdr)
  | cons option options ih =>
    cases option with
    | sllao lladdr =>
      obtain ⟨lladdr', hmem, hcase⟩ := hfirst
      obtain rfl := Option.some.inj hmem
      rw [Nd.nsOptions]
      have hinv : NdInv cfg known (s.nsSllao cfg stack src lladdr).2 :=
        h.nsSllao hlookup (hknown lladdr mem_cons_self) (.inr ⟨hun, hcase⟩)
      by_cases hgo : (s.nsSllao cfg stack src lladdr).1 = true
      · rw [if_pos hgo]
        exact hinv.nsOptions fun l hl => hknown l (mem_cons_of_mem lladdr hl)
      · rw [if_neg hgo]
        exact hinv
    | tllao lladdr => exact ih hknown hfirst
    | other => exact ih hknown hfirst
    | zeroLen =>
      obtain ⟨lladdr, hmem, -⟩ := hfirst
      exact absurd hmem.symm (some_ne_none lladdr)

/-- **The link-layer address of the target**, of which an entry is resolved or gets it. -/
theorem NdInvBut.naUpdate {flags : Byte} {llao : Option LinkAddr} (h : NdInvBut cfg known s i)
    (hknown : ∀ lladdr ∈ llao, (s.ipaddr i, lladdr) ∈ known)
    (hcase : Resolved known s i ∨ (s.state i ≠ .incomplete ∧ ∃ lladdr ∈ llao,
      lladdr = s.lladdr i ∨
        (flags &&& uipNd6NaFlagOverride ≠ 0 ∧ s.llLookup cfg lladdr = none))) :
    NdInv cfg known (s.naUpdate cfg flags llao i).2 := by
  unfold Nd.naUpdate
  cases llao with
  | none =>
    have hinv : NdInv cfg known s := by
      refine h.resolve fun _ => ?_
      cases hcase with
      | inl hres => exact hres
      | inr hcase =>
        obtain ⟨-, lladdr, hmem, -⟩ := hcase
        exact absurd hmem.symm (some_ne_none lladdr)
    by_cases hinc : s.state i = .incomplete
    · simp only [if_pos hinc]
      exact hinv
    · simp only [if_neg hinc, any_none, Bool.and_false, false_eq_true, if_false,
        filter_none]
      exact hinv.sub (subcache_setRouter h.ok i _)
  | some lladdr =>
    have hmem := hknown lladdr rfl
    by_cases hinc : s.state i = .incomplete
    · simp only [if_pos hinc]
      have hinv := h.resolve fun _ => hcase.resolve_right fun hcase => hcase.1 hinc
      cases hup : (s.uipDs6NbrUpdateLl cfg i lladdr).1 with
      | none => exact hinv.sub (updateLl_none h.ok hup).1
      | some j =>
        have hputs := updateLl_some h.ok hup
        have hinv' := h.puts hputs (.inl hmem)
        have hj : Known known (s.uipDs6NbrUpdateLl cfg i lladdr).2 j := by
          rw [Known, hputs.ipaddr, hputs.lladdr]
          exact hmem
        simp only
        by_cases hsol : flags &&& uipNd6NaFlagSolicited ≠ 0
        · rw [if_pos (decide_eq_true hsol)]
          exact hinv'.sub (subcache_setRouter hinv'.ok j _)
        · rw [if_neg (ne_true_of_eq_false (decide_eq_false hsol))]
          have hstale := (hinv'.toBut j).setKnown (fun _ => hj) .stale
          exact hstale.sub (subcache_setRouter hstale.ok j _)
    · simp only [if_neg hinc, any_some, filter_some]
      by_cases hchange : lladdr ≠ s.lladdr i
      · simp only [decide_eq_true hchange, Bool.and_true, if_true]
        by_cases hover : flags &&& uipNd6NaFlagOverride ≠ 0
        · simp only [decide_eq_true hover, Bool.not_true, false_eq_true, if_false]
          cases hup : (s.uipDs6NbrUpdateLl cfg i lladdr).1 with
          | none =>
            obtain ⟨hsub, hgone⟩ := updateLl_none h.ok hup
            cases hcase with
            | inl hres => exact (h.resolve fun _ => hres).sub hsub
            | inr hcase =>
              obtain ⟨-, lladdr', hmem', hcase⟩ := hcase
              obtain rfl := Option.some.inj hmem'
              exact h.gone hsub (hgone (hcase.resolve_left hchange).2)
          | some j =>
            have hinv' := h.puts (updateLl_some h.ok hup) (.inl hmem)
            exact hinv'.sub (subcache_setRouter hinv'.ok j _)
        · -- the message is discarded: another address, and it does not override
          simp only [decide_eq_false hover, Bool.not_false, if_true]
          have hres : Resolved known s i := by
            refine hcase.resolve_right fun hcase => ?_
            obtain ⟨-, lladdr', hmem', hcase⟩ := hcase
            obtain rfl := Option.some.inj hmem'
            exact hover (hcase.resolve_left hchange).1
          by_cases hreach : s.state i = .reachable
          · rw [if_pos hreach]
            exact h.setKnown (fun _ => hres.isKnown hinc) .stale
          · rw [if_neg hreach]
            exact h.resolve fun _ => hres
      · have hi : Known known s i := by
          rw [Known, ← not_not.mp hchange]
          exact hmem
        simp only [decide_eq_false hchange, Bool.and_false, false_eq_true, if_false]
        exact (h.resolve fun _ => .inl hi).sub (subcache_setRouter h.ok i _)

/-- **The link-layer address of the source** in a router solicitation. -/
theorem NdInvBut.rsSllao {src : UipIpaddr} (h : NdInvBut cfg known s i)
    (hlookup : s.lookup cfg src = some i) (hknown : (src, lladdr) ∈ known) :
    NdInv cfg known (s.rsSllao cfg stack src lladdr) := by
  obtain ⟨-, haddr⟩ := lookup_some hlookup
  rw [Nd.rsSllao, hlookup]
  by_cases hne : lladdr ≠ s.lladdr i
  · simp only [if_pos hne]
    have hrm : NdInv cfg known (s.uipDs6NbrRm cfg i) :=
      h.gone (subcache_rm h.ok i) fun hmem => ((mem_entries_rm i i).mp hmem).2 rfl
    cases hadd : (s.uipDs6NbrRm cfg i).uipDs6NbrAdd cfg stack src lladdr .stale with
    | none => exact hrm
    | some r =>
      have hputs := (hrm.toBut r.1).puts (puts_add hrm.ok hadd).1 (.inl hknown)
      have htimers := hputs.setTimers r.1 (s.timers i)
      exact htimers.sub (subcache_setRouter htimers.ok r.1 false)
  · simp only [if_neg hne]
    refine (h.resolve fun _ => .inl ?_).sub (subcache_setRouter h.ok i false)
    rw [Known, haddr, ← not_not.mp hne]
    exact hknown

theorem NdInv.rsSllao {src : UipIpaddr} (h : NdInv cfg known s) (hknown : (src, lladdr) ∈ known) :
    NdInv cfg known (s.rsSllao cfg stack src lladdr) := by
  cases hlookup : s.lookup cfg src with
  | some i => exact (h.toBut i).rsSllao hlookup hknown
  | none =>
    rw [Nd.rsSllao, hlookup]
    cases hadd : s.uipDs6NbrAdd cfg stack src lladdr .stale with
    | none => exact h
    | some r => exact (h.toBut r.1).puts (puts_add h.ok hadd).1 (.inl hknown)

theorem mem_lastSllao {options : List Nd6Opt} (h : lastSllao options = some lladdr) :
    lladdr ∈ sllaos options :=
  mem_of_getLast? h

theorem mem_lastTllao {options : List Nd6Opt} (h : lastTllao options = some lladdr) :
    lladdr ∈ tllaos options :=
  mem_of_getLast? h

theorem NdInv.freeQueued (h : NdInv cfg known s) (i : ℕ) : NdInv cfg known (s.freeQueued i) :=
  h.sub (subcache_freeQueued h.ok i)

/-- What `na_input` does with the entry that it has found. -/
theorem NdInv.naFound {flags : Byte} {llao : Option LinkAddr}
    (h : NdInv cfg known (s.naUpdate cfg flags llao i).2) :
    NdInv cfg known (match (s.naUpdate cfg flags llao i).1 with
      | none => ((none : Option (List Byte)), (s.naUpdate cfg flags llao i).2)
      | some j => ((s.naUpdate cfg flags llao i).2.queued j,
          (s.naUpdate cfg flags llao i).2.freeQueued j)).2 := by
  cases (s.naUpdate cfg flags llao i).1 with
  | none => exact h
  | some j => exact h.freeQueued j

/-- **A message** keeps the invariant. -/
theorem NdInv.nd6Input {p : InPacket} (h : NdInv cfg known s) (hknown : p.carried ⊆ known) :
    NdInv cfg known (s.nd6Input cfg stack p).2 := by
  rw [Nd.nd6Input]
  rw [InPacket.carried] at hknown
  cases hmsg : p.message with
  | ns icode tgt options =>
    simp only [hmsg] at hknown ⊢
    rw [Nd.nsInput]
    by_cases hbad : (decide (p.ttl ≠ uipNd6HopLimit) || isAddrMcast tgt || decide (icode ≠ 0)) = true
    · rw [if_pos hbad]
      exact h
    · rw [if_neg hbad]
      exact h.nsOptions fun lladdr hl => hknown (mem_map_of_mem hl)
  | na icode flags tgt options =>
    simp only [hmsg] at hknown ⊢
    rw [Nd.naInput]
    split_ifs
    · exact h
    · exact h
    · exact h
    · cases hlookup : s.lookup cfg tgt with
      | none => exact h
      | some i =>
        obtain ⟨hmem, haddr⟩ := lookup_some hlookup
        refine NdInv.naFound ((h.toBut i).naUpdate (fun lladdr hl => ?_) (.inl (h.resolved i hmem)))
        rw [haddr]
        exact hknown (mem_map_of_mem (mem_lastTllao hl))
  | rs icode options =>
    simp only [hmsg] at hknown ⊢
    rw [Nd.rsInput]
    cases hlast : lastSllao options with
    | none => rwa [ite_self]
    | some lladdr =>
      simp only
      split_ifs
      · exact h
      · exact h
      · exact h.rsSllao (hknown (mem_map_of_mem (mem_lastSllao hlast)))
  | other => exact h

/-- **A message that resolves its sender** makes up for the refresh. -/
theorem NdInvBut.nd6Input {p : InPacket} (h : NdInvBut cfg known s i)
    (hlookup : s.lookup cfg p.srcipaddr = some i) (hstate : s.state i ≠ .incomplete)
    (huni : isAddrMcast p.srcipaddr = false) (hdest : isAddrMcast p.destipaddr = false)
    (hres : Resolves cfg stack s p i) (hknown : p.carried ⊆ known) :
    NdInv cfg known (s.nd6Input cfg stack p).2 := by
  obtain ⟨-, httl, hres⟩ := hres
  obtain ⟨hmem, haddr⟩ := lookup_some hlookup
  rw [Nd.nd6Input]
  rw [InPacket.carried] at hknown
  cases hmsg : p.message with
  | ns icode tgt options =>
    simp only [hmsg] at hknown hres ⊢
    obtain ⟨hicode, htgt, hun, hfirst⟩ := hres
    rw [Nd.nsInput, httl, hicode, htgt, if_neg (by decide)]
    exact h.nsOptions hlookup (fun lladdr hl => hknown (mem_map_of_mem hl)) hun hfirst
  | na icode flags tgt options =>
    simp only [hmsg] at hknown hres ⊢
    obtain ⟨hicode, htgt, hmine, hok, lladdr, hlast, hcase⟩ := hres
    rw [Nd.naInput, httl, hicode, htgt, huni, hdest, Bool.and_false, if_neg (by decide), hok,
      if_neg (by decide), ← htgt, hmine, if_neg Bool.false_ne_true, htgt, hlookup]
    refine NdInv.naFound (h.naUpdate (fun lladdr hl => ?_) (.inr ⟨hstate, lladdr, hlast, hcase⟩))
    rw [haddr, ← htgt]
    exact hknown (mem_map_of_mem (mem_lastTllao hl))
  | rs icode options =>
    simp only [hmsg] at hknown hres ⊢
    obtain ⟨hicode, hun, hok, hsome⟩ := hres
    obtain ⟨lladdr, hlast⟩ := isSome_iff_exists.mp hsome
    rw [Nd.rsInput, httl, hicode, hok, if_neg (by decide), hlast]
    simp only
    rw [if_neg (ne_true_of_eq_false hun)]
    exact h.rsSllao hlookup (hknown (mem_map_of_mem (mem_lastSllao hlast)))
  | other =>
    simp only [hmsg] at hres

theorem lookup_setState (state : NbrState) :
    (s.setState i state).lookup cfg addr = s.lookup cfg addr := by
  change List.find? _ (s.entries cfg) = List.find? _ (s.entries cfg)
  congr 1
  funext j
  have haddr := ipaddr_setState s i state j
  rw [Nd.ipaddr, Nd.ipaddr] at haddr
  rw [haddr]

/-- **A packet** that is received keeps the invariant, if it fits. -/
theorem NdInv.uipProcess {p : InPacket} (h : NdInv cfg known s)
    (hfits : NdFits cfg known s (.receive stack p)) :
    NdInv cfg (p.carried ++ known) (s.uipProcess cfg stack p).2 := by
  have hknown : p.carried ⊆ p.carried ++ known := subset_append_left _ _
  have hmono : known ⊆ p.carried ++ known := subset_append_right _ _
  have hmine : ∀ t, NdInv cfg (p.carried ++ known) t → NdInv cfg (p.carried ++ known)
      (if (stack.isMyAddr p.destipaddr || stack.maddrLookup p.destipaddr) = true
        then t.nd6Input cfg stack p else (.cleared, t)).2 := by
    intro t ht
    split_ifs
    · exact ht.nd6Input hknown
    · exact ht
  rw [Nd.uipProcess]
  by_cases hsrc : isAddrMcast p.srcipaddr = true
  · rw [if_pos hsrc]
    exact h.mono hmono
  · rw [if_neg hsrc]
    by_cases hdest : isAddrMcast p.destipaddr = true
    · simp only [if_pos hdest]
      exact hmine s (h.mono hmono)
    · simp only [if_neg hdest, Nd.uipDs6NbrRefreshReachableState]
      cases hlookup : s.lookup cfg p.srcipaddr with
      | none => exact hmine s (h.mono hmono)
      | some i =>
        have hbut := (h.mono hmono).toBut i
        rw [not_eq_true] at hsrc hdest
        cases hfits hsrc hdest i hlookup with
        | inl hi =>
          exact hmine _ ((hbut.setKnown (fun _ => hmono hi) .reachable).setTimers i _)
        | inr hres =>
          simp only [if_pos hres.1]
          have htimers : Subcache cfg (s.setState i .reachable)
              ((s.setState i .reachable).setTimers i { s.timers i with
                reachable := ⟨stack.clockSeconds, uipNd6ReachableTime⟩, nscount := 0 }) :=
            subcache_setTimers (hbut.setState .reachable).ok i _
          refine NdInvBut.nd6Input ⟨htimers.ok, fun j hj hji => ?_⟩
            ((lookup_setState .reachable).trans hlookup) ?_ hsrc hdest hres hknown
          · have hkept := htimers.kept j hj
            exact hkept.resolved ((hbut.setState .reachable).resolved j hkept.mem hji)
          · change (s.setState i .reachable).state i ≠ .incomplete
            rw [state_setState]
            decide

/-! ## Packets that are sent -/

/-- What happens to a packet that is sent. -/
inductive OutputCase (cfg : NdConfig) (stack : NdStack) (s : Nd) (p : OutPacket) :
    List LinkFrame × Nd → Prop
  | keeps (frames : List LinkFrame)
      (h : ∀ nbr lladdr packet, .unicast nbr lladdr packet ∉ frames) :
      OutputCase cfg stack s p (frames, s)
  | solicits (nexthop : UipIpaddr) (r : Option Nd6Ns × Nd) (hnexthop : p.nexthop = some nexthop)
      (hlookup : s.lookup cfg nexthop = none) (h : s.sendNd6Ns cfg stack p nexthop = some r) :
      OutputCase cfg stack s p ([.solicitation r.1], r.2)
  | queues (nexthop : UipIpaddr) (i : ℕ) (hnexthop : p.nexthop = some nexthop)
      (hlookup : s.lookup cfg nexthop = some i) :
      OutputCase cfg stack s p ([], s.queuePacket cfg i p.buf)
  | sends (nexthop : UipIpaddr) (i : ℕ) (hnexthop : p.nexthop = some nexthop)
      (hlookup : s.lookup cfg nexthop = some i) (h : s.state i ≠ .incomplete) :
      OutputCase cfg stack s p
        (.unicast nexthop ((s.delayStale stack i).lladdr i) p.buf ::
            ((s.delayStale stack i).queued i).toList.map
              (.unicast nexthop ((s.delayStale stack i).lladdr i)),
          (s.delayStale stack i).freeQueued i)

theorem outputCase (p : OutPacket) : OutputCase cfg stack s p (s.tcpipIpv6Output cfg stack p) := by
  have hnone : OutputCase cfg stack s p ([], s) := .keeps [] fun _ _ _ => not_mem_nil
  rw [Nd.tcpipIpv6Output]
  cases hnexthop : p.nexthop with
  | none =>
    split_ifs
    · exact hnone
    · exact hnone
    · exact hnone
    · exact hnone
    · exact .keeps _ fun _ _ _ hmem => LinkFrame.noConfusion (mem_singleton.mp hmem)
    · exact hnone
    · exact hnone
  | some nexthop =>
    split_ifs
    · exact hnone
    · exact hnone
    · exact hnone
    · exact hnone
    · exact .keeps _ fun _ _ _ hmem => LinkFrame.noConfusion (mem_singleton.mp hmem)
    · exact hnone
    · simp only
      cases hlookup : s.lookup cfg nexthop with
      | none =>
        cases hsend : s.sendNd6Ns cfg stack p nexthop with
        | none => exact hnone
        | some r => exact .solicits nexthop r hnexthop hlookup hsend
      | some i =>
        by_cases hinc : s.state i = .incomplete
        · simp only [if_pos hinc]
          exact .queues nexthop i hnexthop hlookup
        · simp only [if_neg hinc]
          exact .sends nexthop i hnexthop hlookup hinc

/-- What a solicitation does to the entries. -/
theorem sendNd6Ns_spec {p : OutPacket} {nexthop : UipIpaddr} {r : Option Nd6Ns × Nd}
    (h : s.cache.nbr.Ok) (hsend : s.sendNd6Ns cfg stack p nexthop = some r) :
    ∃ k t, s.uipDs6NbrAdd cfg stack nexthop linkaddrNull .incomplete = some (k, t) ∧
      Subcache cfg t r.2 ∧ ∀ j ∈ t.entries cfg, j ∈ r.2.entries cfg := by
  obtain ⟨⟨k, t⟩, hadd, rfl⟩ := map_eq_some_iff.mp hsend
  have hputs := (puts_add h hadd).1
  have hqueue : Subcache cfg t (t.queuePacket cfg k p.buf) :=
    subcache_queuePacket hputs.ok k p.buf
  refine ⟨k, t, hadd, hqueue.trans (subcache_setTimers hqueue.ok k _), fun j hj => ?_⟩
  change j ∈ (t.cache.uipPacketqueueAlloc cfg.toDs6NbrConfig k p.buf).nbr.items cfg.ds6Neighbors
  rw [nbr_alloc]
  exact hj

theorem NdInv.delayStale (h : NdInv cfg known s) (hi : Known known s i) :
    NdInv cfg known (s.delayStale stack i) := by
  rw [Nd.delayStale]
  by_cases hstale : s.state i = .stale
  · rw [if_pos hstale]
    exact ((h.toBut i).setKnown (fun _ => hi) .delay).setTimers i _
  · rw [if_neg hstale]
    exact h

theorem lladdr_delayStale : (s.delayStale stack i).lladdr j = s.lladdr j := by
  rw [Nd.delayStale]
  split_ifs <;> rfl

/-- **A packet that is sent** keeps the invariant, and is handed to the link layer only for a
neighbor whose link-layer address is known. -/
theorem NdInv.output {p : OutPacket} (h : NdInv cfg known s) :
    NdInv cfg known (s.tcpipIpv6Output cfg stack p).2 ∧
      ∀ nbr lladdr packet, .unicast nbr lladdr packet ∈ (s.tcpipIpv6Output cfg stack p).1 →
        (nbr, lladdr) ∈ known := by
  have hcase : OutputCase cfg stack s p (s.tcpipIpv6Output cfg stack p) := outputCase p
  generalize s.tcpipIpv6Output cfg stack p = out at hcase ⊢
  cases hcase with
  | keeps frames hframes => exact ⟨h, fun nbr l packet hmem => absurd hmem (hframes nbr l packet)⟩
  | solicits nexthop r _ _ hsend =>
    obtain ⟨k, t, hadd, hsub, -⟩ := sendNd6Ns_spec h.ok hsend
    refine ⟨NdInv.sub ?_ hsub, fun nbr l packet hmem =>
      LinkFrame.noConfusion (mem_singleton.mp hmem)⟩
    exact (h.toBut k).puts (puts_add h.ok hadd).1 (.inr ⟨rfl, rfl⟩)
  | queues nexthop i _ _ =>
    exact ⟨h.sub (subcache_queuePacket h.ok i p.buf), fun _ _ _ hmem =>
      absurd hmem not_mem_nil⟩
  | sends nexthop i _ hlookup hstate =>
    obtain ⟨hmem, haddr⟩ := lookup_some hlookup
    have hi := (h.resolved i hmem).isKnown hstate
    refine ⟨(h.delayStale hi).freeQueued i, fun nbr l packet hframe => ?_⟩
    have hsame : nbr = nexthop ∧ l = (s.delayStale stack i).lladdr i := by
      cases mem_cons.mp hframe with
      | inl heq =>
        injection heq with hnbr hl _
        exact ⟨hnbr, hl⟩
      | inr hqueued =>
        obtain ⟨packet', -, heq⟩ := mem_map.mp hqueued
        injection heq with hnbr hl _
        exact ⟨hnbr.symm, hl.symm⟩
    rw [hsame.1, hsame.2, lladdr_delayStale, ← haddr]
    exact hi

/-! ## Acknowledgements and timers -/

theorem NdInv.ack (h : NdInv cfg known s) (macTxOk : Bool) (dest : LinkAddr) :
    NdInv cfg known (s.uipDs6LinkCallback cfg stack macTxOk dest) := by
  rw [Nd.uipDs6LinkCallback]
  split_ifs
  · cases hlookup : s.llLookup cfg dest with
    | none => exact h
    | some i =>
      simp only
      by_cases hinc : s.state i ≠ .incomplete
      · rw [if_pos hinc]
        exact ((h.toBut i).setKnown (fun hi => (h.resolved i hi).isKnown hinc) .reachable).setTimers
          i _
      · rw [if_neg hinc]
        exact h
  · exact h

theorem NdInv.solicit (h : NdInv cfg known s) (i : ℕ) (dest : Option UipIpaddr)
    (buf : Option Nd6Ns) (busy : Bool) : NdInv cfg known (s.solicit stack i dest buf busy).2 := by
  rw [Nd.solicit]
  split_ifs
  · exact h.setTimers i _
  · exact h

/-- **The timers of an entry.** -/
theorem NdInv.neighborPeriodic {r : Option Nd6Ns × Nd} (h : NdInv cfg known r.2) (busy : Bool)
    (i : ℕ) : NdInv cfg known (Nd.neighborPeriodic cfg stack busy r i).2 := by
  have hset : ∀ state, r.2.state i ≠ .incomplete → NdInv cfg known (r.2.setState i state) :=
    fun state hinc => (h.toBut i).setKnown (fun hi => (h.resolved i hi).isKnown hinc) state
  rw [Nd.neighborPeriodic]
  cases hstate : r.2.state i with
  | reachable =>
    have hset := fun state => hset state (hstate ▸ by decide)
    simp only
    split_ifs
    · exact (hset .delay).setTimers i _
    · exact hset .stale
    · exact h
  | incomplete =>
    simp only
    split_ifs
    · exact h.sub (subcache_rm h.ok i)
    · exact h.solicit i none r.1 busy
  | delay =>
    simp only
    split_ifs
    · exact (hset .probe (hstate ▸ by decide)).setTimers i _
    · exact h
  | probe =>
    simp only
    split_ifs
    · exact h.sub (subcache_rm h.ok i)
    · exact h.solicit i _ r.1 busy
  | stale => exact h

theorem NdInv.periodic (h : NdInv cfg known s) (busy : Bool) :
    NdInv cfg known (s.uipDs6NeighborPeriodic cfg stack busy).2 := by
  rw [Nd.uipDs6NeighborPeriodic]
  have hfold : ∀ (is : List ℕ) (r : Option Nd6Ns × Nd), NdInv cfg known r.2 →
      NdInv cfg known (is.foldl (Nd.neighborPeriodic cfg stack busy) r).2 := by
    intro is
    induction is with
    | nil => exact fun _ hr => hr
    | cons i is ih => exact fun r hr => ih _ (hr.neighborPeriodic busy i)
  exact hfold (s.entries cfg) (none, s) h

/-- Another table gets an address: an entry may be evicted. -/
theorem subcache_otherAdd {table : ℕ} {reason : NbrTableReason} {candidate : Option LinkAddr}
    {cache : Ds6NbrCache} (h : s.cache.nbr.Ok) (htable : table ≠ cfg.ds6Neighbors)
    (hadd : s.cache.nbrTableAddLladdr cfg.toDs6NbrConfig table lladdr reason candidate =
      some (k, cache)) : Subcache cfg s { s with cache } where
  ok := (addsAt h hadd).ok
  kept j hj := by
    have hadds := addsAt h hadd
    by_cases hjk : j = k
    · obtain ⟨hmem, haddr⟩ := hadds.other htable (hjk ▸ hj)
      rw [hjk]
      exact ⟨hmem, (hadds.cells k).1, hadds.addr.trans haddr.symm, (hadds.cells k).2⟩
    · exact ⟨(hadds.entries j hjk).mp hj, (hadds.cells j).1, hadds.others j hjk,
        (hadds.cells j).2⟩

/-! ## Every event -/

/-- **Every event** that fits keeps the invariant. -/
theorem NdInv.step {e : NdEvent} (h : NdInv cfg known s) (hfits : NdFits cfg known s e) :
    NdInv cfg (e.carried ++ known) (s.step cfg e).2 := by
  cases e with
  | output stack p => exact h.output.1
  | receive stack p => exact h.uipProcess hfits
  | ack stack macTxOk dest => exact h.ack macTxOk dest
  | periodic stack busy => exact h.periodic busy
  | timedout b => exact h.sub (.same h.ok (nbr_timedout s.cache b) (sameCells_timedout s.cache b))
  | otherAdd table lladdr reason candidate =>
    change NdInv cfg known _
    rw [Nd.step]
    by_cases htable : table = cfg.ds6Neighbors
    · rw [if_pos htable]
      exact h
    · rw [if_neg htable]
      cases hadd : s.cache.nbrTableAddLladdr cfg.toDs6NbrConfig table lladdr reason candidate with
      | none => exact h
      | some r => exact h.sub (subcache_otherAdd h.ok htable hadd)

theorem lookup_none (h : s.lookup cfg addr = none) (hi : i ∈ s.entries cfg) : s.ipaddr i ≠ addr := by
  rw [Nd.lookup, Ds6NbrCache.uipDs6NbrLookup, List.find?_eq_none] at h
  exact fun haddr => h i hi (decide_eq_true haddr)

/-- An entry of which the address is not known has the null address. -/
theorem NdInv.lladdr_eq_null (h : NdInv cfg known s) (hi : i ∈ s.entries cfg)
    (hunknown : ¬ Known known s i) : s.lladdr i = linkaddrNull :=
  ((h.resolved i hi).resolve_left hunknown).2

/-- **One entry at most** has an address that is not known. -/
theorem NdInv.one (h : NdInv cfg known s) (hi : i ∈ s.entries cfg) (hj : j ∈ s.entries cfg)
    (hiu : ¬ Known known s i) (hju : ¬ Known known s j) : i = j :=
  h.ok.inj i (mem_items.mp hi).1 j (mem_items.mp hj).1
    ((h.lladdr_eq_null hi hiu).trans (h.lladdr_eq_null hj hju).symm)

/-- **A next hop** that has no entry gets the one of the next hop that is pending. -/
theorem NdInv.takes {p : OutPacket} {nexthop : UipIpaddr} (h : NdInv cfg known s)
    (hnexthop : p.nexthop = some nexthop) (hlookup : s.lookup cfg nexthop = none)
    (hk : (s.tcpipIpv6Output cfg stack p).2.lookup cfg nexthop = some k) :
    (∀ i ∈ s.entries cfg, ¬ Known known s i → i = k) ∧
      ∀ j ∈ s.entries cfg, j ≠ k → j ∈ (s.tcpipIpv6Output cfg stack p).2.entries cfg ∧
        Kept cfg s (s.tcpipIpv6Output cfg stack p).2 j := by
  have hcase : OutputCase cfg stack s p (s.tcpipIpv6Output cfg stack p) := outputCase p
  generalize s.tcpipIpv6Output cfg stack p = out at hcase hk ⊢
  cases hcase with
  | keeps frames _ =>
    rw [hlookup] at hk
    exact absurd hk.symm (some_ne_none k)
  | queues nexthop' i hnexthop' hlookup' =>
    obtain rfl := Option.some.inj (hnexthop.symm.trans hnexthop')
    rw [hlookup] at hlookup'
    exact absurd hlookup'.symm (some_ne_none i)
  | sends nexthop' i hnexthop' hlookup' _ =>
    obtain rfl := Option.some.inj (hnexthop.symm.trans hnexthop')
    rw [hlookup] at hlookup'
    exact absurd hlookup'.symm (some_ne_none i)
  | solicits nexthop' r hnexthop' _ hsend =>
    obtain rfl := Option.some.inj (hnexthop.symm.trans hnexthop')
    obtain ⟨k', t, hadd, hsub, hmem⟩ := sendNd6Ns_spec h.ok hsend
    obtain ⟨hputs, hkept, hnull⟩ := puts_add h.ok hadd
    have hkk : k = k' := by
      by_contra hne
      obtain ⟨hkmem, hkaddr⟩ := lookup_some hk
      have hk1 := hsub.kept k hkmem
      have hk2 := (hputs.kept k hk1.mem hne).2
      exact lookup_none hlookup hk2.mem (hk2.ipaddr.symm.trans (hk1.ipaddr.symm.trans hkaddr))
    rw [hkk]
    refine ⟨fun i hi hunknown => hnull i hi (h.lladdr_eq_null hi hunknown), fun j hj hjk => ?_⟩
    obtain ⟨hjt, hk2⟩ := hkept j hj hjk
    have hk1 := hsub.kept j (hmem j hjt)
    exact ⟨hmem j hjt, hj, hk1.ipaddr.trans hk2.ipaddr, hk1.lladdr.trans hk2.lladdr,
      hk1.state.trans hk2.state⟩

/-- What the invariant says of an event. -/
theorem NdInv.resolution {e : NdEvent} (h : NdInv cfg known s) (hfits : NdFits cfg known s e) :
    Resolution cfg known s e ∧ OnePending cfg known s e := by
  have hinv := h.step hfits
  refine ⟨⟨fun i _ _ j hj _ hstate => (hinv.resolved j hj).isKnown hstate,
    fun nbr lladdr packet hframe => ?_⟩, ⟨fun i hi j hj => hinv.one hi hj,
    fun stack p nexthop k he hnexthop hlookup hk => ?_⟩⟩
  · cases e with
    | output stack p => exact h.output.2 nbr lladdr packet hframe
    | receive stack p => exact absurd hframe not_mem_nil
    | ack stack macTxOk dest => exact absurd hframe not_mem_nil
    | periodic stack busy => exact absurd hframe not_mem_nil
    | timedout b => exact absurd hframe not_mem_nil
    | otherAdd table lladdr' reason candidate =>
      rw [Nd.step] at hframe
      split at hframe
      · exact absurd hframe not_mem_nil
      · split at hframe
        · exact absurd hframe not_mem_nil
        · exact absurd hframe not_mem_nil
  · subst he
    obtain ⟨hnull, hkept⟩ := h.takes hnexthop hlookup hk
    refine ⟨hnull, fun j hj hjk => ?_⟩
    obtain ⟨hmem, hsame⟩ := hkept j hj hjk
    exact ⟨hmem, hsame.ipaddr, hsame.lladdr, hsame.state⟩

end Entries

/-! ## Every run -/

/-- An empty cache. -/
def Nd.init (cells : ℕ → Ds6Nbr) (queueBuf : ℕ → List Byte) (timers : ℕ → NdTimers) : Nd where
  cache := .init cells queueBuf
  timers := timers

/-- A step, with what options have carried so far. -/
def ndStep (cfg : NdConfig) (r : List (UipIpaddr × LinkAddr) × Nd) (e : NdEvent) :
    List (UipIpaddr × LinkAddr) × Nd :=
  (e.carried ++ r.1, (r.2.step cfg e).2)

/-- A run from an empty cache. -/
def ndAfter (cfg : NdConfig) (s : Nd) (events : List NdEvent) : List (UipIpaddr × LinkAddr) × Nd :=
  events.foldl (ndStep cfg) ([], s)

/-- Every event of a run fits. -/
def NdFitsAlong (cfg : NdConfig) (s : Nd) (events : List NdEvent) : Prop :=
  Along (fun r e => some (ndStep cfg r e)) (fun r e => NdFits cfg r.1 r.2 e) ([], s) events

theorem ndInv_init (cfg : NdConfig) (cells : ℕ → Ds6Nbr) (queueBuf : ℕ → List Byte)
    (timers : ℕ → NdTimers) : NdInv cfg [] (.init cells queueBuf timers) where
  ok := init_ok
  resolved _ hj := absurd hj not_mem_nil

/-- **Address resolution.** In every run in which unicast packets come from neighbors with a known
link-layer address, or make it known, an entry is complete only with an address that an option has
carried, packets are handed to the link layer only for neighbors with a known address, and one next
hop at a time is pending. -/
theorem nd_address_resolution (cfg : NdConfig) (cells : ℕ → Ds6Nbr) (queueBuf : ℕ → List Byte)
    (timers : ℕ → NdTimers) (events : List NdEvent) (e : NdEvent)
    (h : NdFitsAlong cfg (.init cells queueBuf timers) (events ++ [e])) :
    Resolution cfg (ndAfter cfg (.init cells queueBuf timers) events).1
        (ndAfter cfg (.init cells queueBuf timers) events).2 e ∧
      OnePending cfg (ndAfter cfg (.init cells queueBuf timers) events).1
        (ndAfter cfg (.init cells queueBuf timers) events).2 e := by
  rw [NdFitsAlong, along_append (run_some (ndStep cfg) _ events)] at h
  have hinv : NdInv cfg (ndAfter cfg (.init cells queueBuf timers) events).1
      (ndAfter cfg (.init cells queueBuf timers) events).2 :=
    run_induction (fun r => NdInv cfg r.1 r.2)
      (fun _ _ _ hfits hr hstep => by
        rw [← Option.some.inj hstep]
        exact hr.step hfits)
      (ndInv_init cfg cells queueBuf timers) h.1 (run_some (ndStep cfg) _ events)
  exact hinv.resolution h.2.1

/-! ## Two next hops -/

theorem length_linkLocal (b : Byte) :
    ([0xFE, 0x80] ++ List.replicate 13 0 ++ [b]).length = 16 := rfl

/-- The link-local address with the last byte `b`. -/
def linkLocal (b : Byte) : UipIpaddr :=
  ⟨[0xFE, 0x80] ++ List.replicate 13 0 ++ [b], length_linkLocal b⟩

/-- A table of sixteen neighbors, without queued packets. -/
def ndConfig : NdConfig := ⟨⟨⟨16, .undefined⟩, 0, 0, ds6Neighbors_lt⟩, false⟩

/-- A node with the address `fe80::9`. -/
def someStack : NdStack where
  clockSeconds := 0
  addrLookup := fun addr => if addr = linkLocal 9 then some false else none
  maddrLookup := fun _ => false
  defrtLookup := fun _ => false
  selectSrc := linkLocal 9
  retransTimer := 1000

/-- A node that has sent nothing yet. -/
def blankNd : Nd := .init blankCells (fun _ => []) fun _ => ⟨⟨0, 0⟩, ⟨0, 0⟩, 0⟩

/-- A packet for a neighbor. -/
def packetFor (dest : UipIpaddr) : OutPacket := ⟨[1], linkLocal 9, dest, true, some dest⟩

/-- The advertisement of a neighbor, solicited, with its link-layer address. -/
def advertisement (src : UipIpaddr) (lladdr : LinkAddr) : InPacket :=
  ⟨src, linkLocal 9, 255, .na 0 0x60 src [.tllao lladdr]⟩

theorem nd_address_resolution_advertised :
    Resolution ndConfig (ndAfter ndConfig blankNd [.output someStack (packetFor (linkLocal 1))]).1
        (ndAfter ndConfig blankNd [.output someStack (packetFor (linkLocal 1))]).2
        (.receive someStack (advertisement (linkLocal 1) someLladdr)) ∧
      OnePending ndConfig (ndAfter ndConfig blankNd [.output someStack (packetFor (linkLocal 1))]).1
        (ndAfter ndConfig blankNd [.output someStack (packetFor (linkLocal 1))]).2
        (.receive someStack (advertisement (linkLocal 1) someLladdr)) := by
  refine nd_address_resolution ndConfig blankCells (fun _ => []) (fun _ => ⟨⟨0, 0⟩, ⟨0, 0⟩, 0⟩)
    [.output someStack (packetFor (linkLocal 1))]
    (.receive someStack (advertisement (linkLocal 1) someLladdr))
    ⟨trivial, fun _ _ i hi => .inr ⟨by decide, rfl, rfl, rfl, by decide, by decide, someLladdr, rfl,
      .inr ⟨by decide, by decide⟩⟩, trivial⟩

/-- **A second next hop** takes the place of the first, while it is pending. -/
theorem second_next_hop_replaces :
    ¬ (Resolution ndConfig (ndAfter ndConfig blankNd [.output someStack (packetFor (linkLocal 1))]).1
        (ndAfter ndConfig blankNd [.output someStack (packetFor (linkLocal 1))]).2
        (.output someStack (packetFor (linkLocal 2))) ∧
      KeepsPending ndConfig (ndAfter ndConfig blankNd [.output someStack (packetFor (linkLocal 1))]).2
        (.output someStack (packetFor (linkLocal 2)))) := by
  intro ⟨_, hkeeps⟩
  have hpending := hkeeps someStack (packetFor (linkLocal 2)) rfl 0 (by decide) rfl (by decide)
  exact absurd hpending (by decide)

end Asap.Ipv6
