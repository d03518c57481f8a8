import Asap.Tsch.LinkList
import Mathlib

/-!
# The unicast cells of ALICE

Each node of ALICE works out its own unicast cells, from the addresses of the two ends
of a directed link and the number of the slotframe. It goes over its parent and over
the next hops of its routes, and adds for each of them a cell in either direction.

The cell of a directed link is a function of the two addresses and of the slotframe
number, so a child and its parent agree on it although they list each other in
different tables; `alice_cells_agree` is that, down to the links in the two schedules.

## Main definitions

* `aliceCell` — the cell of a directed link.
* `AliceNode.unicastLinks` — what a node asks for.
* `aliceScheduleUnicastSlotframe` — the old links out, the new ones in.
* `UnicastLink.In` — a link asked for is in a schedule.
* `AgreeAt` — the four links between a child and its parent.
-/

namespace Asap.Alice

open Asap.Tsch Asap.Tsch.TschSchedule List

/-- The build: the period, which is not zero, the length of the hopping sequence, at most
the number of channels, and whether unicast slots are shared. -/
structure AliceConfig where
  unicastPeriod : BitVec 16
  hoppingSequenceLength : ℕ
  unicastSlotShared : Bool
  period_pos : 0 < unicastPeriod.toNat
  hopping_pos : 0 < hoppingSequenceLength
  hopping_le : hoppingSequenceLength ≤ 16

/-- `alice_real_hash5` -/
def aliceRealHash5 (value : BitVec 32) (mod : BitVec 16) : BitVec 16 :=
  let a := value
  let a := (((a + (a >>> 16)) ^^^ (a >>> 9)) ^^^ (a <<< 3)) ^^^ (a >>> 5)
  (a % mod.setWidth 32).setWidth 16

/-- `ORCHESTRA_LINKADDR_HASH2` -/
def orchestraLinkaddrHash2 (addr1 addr2 : LinkAddr) : ℕ :=
  ((addr1 6).toNat + (addr1 7).toNat) * 512 + ((addr2 6).toNat + (addr2 7).toNat)

/-- The argument of the hash: the two addresses and the slotframe number. -/
def hashInput (asfn : BitVec 64) (addr1 addr2 : LinkAddr) : BitVec 32 :=
  BitVec.ofNat 32 (orchestraLinkaddrHash2 addr1 addr2) + asfn.setWidth 32

namespace AliceConfig

variable (cfg : AliceConfig)

/-- `num_ch` -/
def numCh : ℕ := cfg.hoppingSequenceLength - 1

/-- `get_node_timeslot` -/
def getNodeTimeslot (asfn : BitVec 64) (addr1 addr2 : LinkAddr) : BitVec 16 :=
  if 0 < cfg.unicastPeriod.toNat then
    aliceRealHash5 (hashInput asfn addr1 addr2) cfg.unicastPeriod
  else 0xffff

/-- `get_node_channel_offset` -/
def getNodeChannelOffset (asfn : BitVec 64) (addr1 addr2 : LinkAddr) : BitVec 16 :=
  if 0 < cfg.numCh then
    1 + aliceRealHash5 (hashInput asfn addr1 addr2) (BitVec.ofNat 16 cfg.numCh)
  else 1 + 0

/-- `alice_rx_link_option` -/
def aliceRxLinkOption (_ : AliceConfig) : BitVec 8 := linkOptionRx

/-- `alice_tx_link_option` -/
def aliceTxLinkOption : BitVec 8 :=
  linkOptionTx ||| (if cfg.unicastSlotShared then linkOptionShared else 0)

end AliceConfig

/-- A timeslot and a channel offset. -/
structure Cell where
  timeslot : BitVec 16
  channelOffset : BitVec 16
deriving DecidableEq, Repr

/-- The cell of the directed link from one address to another. -/
def aliceCell (cfg : AliceConfig) (asfn : BitVec 64) (addr1 addr2 : LinkAddr) : Cell :=
  ⟨cfg.getNodeTimeslot asfn addr1 addr2, cfg.getNodeChannelOffset asfn addr1 addr2⟩

/-- Inside the slotframe, and on a channel offset other than the one of EBs. -/
def Cell.InRange (cfg : AliceConfig) (c : Cell) : Prop :=
  c.timeslot.toNat < cfg.unicastPeriod.toNat ∧
    1 ≤ c.channelOffset.toNat ∧ c.channelOffset.toNat ≤ max 1 cfg.numCh

/-- What a node knows of its neighbors. -/
structure AliceNode where
  linkaddrNodeAddr : LinkAddr
  aliceIsRoot : Bool
  orchestraParentLinkaddr : LinkAddr
  /-- the next hops in `nbr_routes` -/
  nbrRoutes : List LinkAddr

/-- The arguments of a call of `alice_tsch_schedule_add_link`. -/
structure UnicastLink where
  linkOptions : BitVec 8
  cell : Cell
  nbrAddr : LinkAddr
deriving DecidableEq

namespace AliceNode

variable (cfg : AliceConfig) (asfn : BitVec 64) (node : AliceNode)

/-- The links for the parent: upward, then downward. -/
def parentLinks : List UnicastLink :=
  let parent := node.orchestraParentLinkaddr
  [⟨cfg.aliceTxLinkOption, aliceCell cfg asfn node.linkaddrNodeAddr parent, parent⟩,
    ⟨cfg.aliceRxLinkOption, aliceCell cfg asfn parent node.linkaddrNodeAddr, parent⟩]

/-- The links for a child: upward, then downward. -/
def childLinks (addr : LinkAddr) : List UnicastLink :=
  [⟨cfg.aliceRxLinkOption, aliceCell cfg asfn addr node.linkaddrNodeAddr, addr⟩,
    ⟨cfg.aliceTxLinkOption, aliceCell cfg asfn node.linkaddrNodeAddr addr, addr⟩]

/-- The links a node asks for, in order. -/
def unicastLinks : List UnicastLink :=
  (if node.aliceIsRoot then [] else node.parentLinks cfg asfn) ++
    node.nbrRoutes.flatMap (node.childLinks cfg asfn)

end AliceNode

/-- One call of `alice_tsch_schedule_add_link`. -/
def addUnicastLink (scfg : ScheduleConfig) (handle : BitVec 16) (room : Bool) (s : TschSchedule)
    (u : UnicastLink) : TschSchedule :=
  (s.aliceTschScheduleAddLink scfg handle u.linkOptions tschBroadcastAddress u.cell.timeslot
    u.cell.channelOffset room).1

/-- The first loop of `alice_schedule_unicast_slotframe`: the links there are removed. -/
def removeUnicastLinks (scfg : ScheduleConfig) (handle : BitVec 16) (s : TschSchedule) :
    TschSchedule :=
  match s.slotframe handle with
  | none => s
  | some sf => sf.linksList.foldl (fun s l => s.tschScheduleRemoveLink scfg handle l) s

/-- `alice_schedule_unicast_slotframe` -/
def aliceScheduleUnicastSlotframe (cfg : AliceConfig) (scfg : ScheduleConfig) (handle : BitVec 16)
    (room : Bool) (asfn : BitVec 64) (node : AliceNode) (s : TschSchedule) : TschSchedule :=
  (node.unicastLinks cfg asfn).foldl (addUnicastLink scfg handle room)
    (removeUnicastLinks scfg handle s)

/-! ## Cells -/

theorem toNat_aliceRealHash5_lt (value : BitVec 32) (mod : BitVec 16) (h : 0 < mod.toNat) :
    (aliceRealHash5 value mod).toNat < mod.toNat := by
  have hmod := mod.isLt
  have hw : (mod.setWidth 32).toNat = mod.toNat := by
    rw [BitVec.toNat_setWidth]
    exact Nat.mod_eq_of_lt (by omega)
  simp only [aliceRealHash5, BitVec.toNat_setWidth, BitVec.toNat_umod, hw]
  exact lt_of_le_of_lt (Nat.mod_le _ _) (Nat.mod_lt _ h)

/-- **Every cell is in range.** -/
theorem inRange_aliceCell (cfg : AliceConfig) (asfn : BitVec 64) (addr1 addr2 : LinkAddr) :
    (aliceCell cfg asfn addr1 addr2).InRange cfg := by
  refine ⟨?_, ?_⟩
  · simp only [aliceCell, AliceConfig.getNodeTimeslot, cfg.period_pos, if_true]
    exact toNat_aliceRealHash5_lt _ _ cfg.period_pos
  · simp only [aliceCell, AliceConfig.getNodeChannelOffset]
    have hone : (1 : BitVec 16).toNat = 1 := rfl
    by_cases hch : 0 < cfg.numCh
    · have hle := cfg.hopping_le
      have hnum : cfg.numCh ≤ 15 := by
        simp only [AliceConfig.numCh]
        omega
      have hw : (BitVec.ofNat 16 cfg.numCh).toNat = cfg.numCh := by
        rw [BitVec.toNat_ofNat]
        exact Nat.mod_eq_of_lt (by omega)
      have hlt := toNat_aliceRealHash5_lt (hashInput asfn addr1 addr2)
        (BitVec.ofNat 16 cfg.numCh) (by omega)
      rw [if_pos hch, BitVec.toNat_add, hone]
      omega
    · rw [if_neg hch]
      exact ⟨by decide, by simp⟩

theorem Cell.InRange.channelOffset_le {cfg : AliceConfig} {c : Cell} (h : c.InRange cfg) :
    c.channelOffset.toNat ≤ 15 := by
  have hle := cfg.hopping_le
  have hch := h.2.2
  simp only [AliceConfig.numCh] at hch
  omega

variable {cfg : AliceConfig} {asfn : BitVec 64} {node : AliceNode}

/-- A Tx link asked for is at the cell from the node to the neighbor, an Rx link at the
cell from the neighbor to the node. -/
theorem cell_of_mem_unicastLinks {u : UnicastLink} (h : u ∈ node.unicastLinks cfg asfn) :
    (u.linkOptions = cfg.aliceTxLinkOption ∧
        u.cell = aliceCell cfg asfn node.linkaddrNodeAddr u.nbrAddr) ∨
      (u.linkOptions = cfg.aliceRxLinkOption ∧
        u.cell = aliceCell cfg asfn u.nbrAddr node.linkaddrNodeAddr) := by
  rcases List.mem_append.mp h with h | h
  · split_ifs at h
    · simp at h
    · simp only [AliceNode.parentLinks, mem_cons, not_mem_nil, or_false] at h
      rcases h with rfl | rfl
      · exact Or.inl ⟨rfl, rfl⟩
      · exact Or.inr ⟨rfl, rfl⟩
  · obtain ⟨addr, -, h⟩ := List.mem_flatMap.mp h
    simp only [AliceNode.childLinks, mem_cons, not_mem_nil, or_false] at h
    rcases h with rfl | rfl
    · exact Or.inr ⟨rfl, rfl⟩
    · exact Or.inl ⟨rfl, rfl⟩

/-- The links for a parent are asked for. -/
theorem parentLinks_subset (hroot : node.aliceIsRoot = false) {u : UnicastLink}
    (h : u ∈ node.parentLinks cfg asfn) : u ∈ node.unicastLinks cfg asfn := by
  simp only [AliceNode.unicastLinks, hroot]
  exact mem_append_left _ h

/-- The links for a child are asked for. -/
theorem childLinks_subset {addr : LinkAddr} (haddr : addr ∈ node.nbrRoutes) {u : UnicastLink}
    (h : u ∈ node.childLinks cfg asfn addr) : u ∈ node.unicastLinks cfg asfn :=
  mem_append_right _ (List.mem_flatMap.mpr ⟨addr, haddr, h⟩)

/-! ## Links -/

variable {scfg : ScheduleConfig} {handle : BitVec 16} {room : Bool} {s : TschSchedule}

/-- What `alice_schedule_unicast_slotframe` is called with: a consistent schedule, the
lock free, and the slotframe there, with the period for its size. -/
structure Ready (cfg : AliceConfig) (handle : BitVec 16) (s : TschSchedule) : Prop where
  ok : s.Ok
  unlocked : s.tschLocked = false
  slotframe : ∃ sf, s.slotframe handle = some sf ∧ sf.size = cfg.unicastPeriod

/-- The link asked for is in the schedule. -/
def UnicastLink.In (handle : BitVec 16) (s : TschSchedule) (u : UnicastLink) : Prop :=
  s.Installed handle u.cell.timeslot u.cell.channelOffset u.linkOptions

/-- One link is added, and the others stay. -/
theorem Ready.addUnicastLink (h : Ready cfg handle s) (scfg : ScheduleConfig) {u : UnicastLink}
    (hcell : u.cell.InRange cfg) (hfree : 0 < s.freeLinks scfg) (room : Bool) :
    let t := addUnicastLink scfg handle room s u
    Ready cfg handle t ∧ t.freeLinks scfg + 1 = s.freeLinks scfg ∧ u.In handle t ∧
      ∀ v : UnicastLink, v.In handle s → v.In handle t := by
  obtain ⟨sf, hsf, hsize⟩ := h.slotframe
  obtain ⟨hok, hunlocked, hcount, ⟨sf', hsf', hsize'⟩, hin, hkeep⟩ :=
    h.ok.aliceAddLink_installs hsf h.unlocked (hsize ▸ hcell.1) hcell.channelOffset_le hfree
      u.linkOptions tschBroadcastAddress room
  exact ⟨⟨hok, hunlocked, sf', hsf', hsize'.trans hsize⟩, hcount, hin, fun v => hkeep _ _ _⟩

/-- All links of a list are added, when the pool has a block for each. -/
theorem Ready.foldl_addUnicastLink {us : List UnicastLink} (h : Ready cfg handle s)
    (hcell : ∀ u ∈ us, u.cell.InRange cfg) (hfree : us.length ≤ s.freeLinks scfg) (room : Bool) :
    let t := us.foldl (Alice.addUnicastLink scfg handle room) s
    (∀ u ∈ us, u.In handle t) ∧ ∀ v : UnicastLink, v.In handle s → v.In handle t := by
  induction us generalizing s with
  | nil => exact ⟨fun u hu => by simp at hu, fun v hv => hv⟩
  | cons u us ih =>
    rw [length_cons] at hfree
    obtain ⟨hready, hcount, hin, hkeep⟩ :=
      h.addUnicastLink scfg (hcell u (mem_cons_self ..)) (by omega) room
    obtain ⟨hall, hkeep'⟩ := ih hready (fun v hv => hcell v (mem_cons_of_mem _ hv)) (by omega)
    refine ⟨fun v hv => ?_, fun v hv => hkeep' v (hkeep v hv)⟩
    rcases List.mem_cons.mp hv with rfl | hv
    · exact hkeep' v hin
    · exact hall v hv

/-- Removing the old links leaves the lock free. -/
theorem tschLocked_removeUnicastLinks (scfg : ScheduleConfig) (handle : BitVec 16)
    (h : s.tschLocked = false) : (removeUnicastLinks scfg handle s).tschLocked = false := by
  have key : ∀ (ls : List LinkId) (s : TschSchedule), s.tschLocked = false →
      (ls.foldl (fun s l => s.tschScheduleRemoveLink scfg handle l) s).tschLocked = false := by
    intro ls
    induction ls with
    | nil => exact fun s h => h
    | cons l ls ih =>
      intro s h
      refine ih _ ?_
      simp only [tschScheduleRemoveLink]
      split_ifs
      · exact h
      · exact h
      · simp only [freeLink]
        split_ifs <;> rfl
  simp only [removeUnicastLinks]
  cases s.slotframe handle with
  | none => exact h
  | some sf => exact key sf.linksList s h

theorem Ready.removeUnicastLinks (h : Ready cfg handle s) (scfg : ScheduleConfig) :
    Ready cfg handle (removeUnicastLinks scfg handle s) := by
  obtain ⟨sf, hsf, hsize⟩ := h.slotframe
  have hunlocked := tschLocked_removeUnicastLinks scfg handle h.unlocked
  obtain ⟨hok, hslot⟩ := h.ok.foldl_removeLink_all scfg hsf
  simp only [Alice.removeUnicastLinks, hsf] at hunlocked ⊢
  exact ⟨hok, hunlocked, _, hslot (canRemove_of_unlocked scfg hunlocked), hsize⟩

theorem inRange_of_mem_unicastLinks {u : UnicastLink} (h : u ∈ node.unicastLinks cfg asfn) :
    u.cell.InRange cfg := by
  obtain ⟨-, hcell⟩ | ⟨-, hcell⟩ := cell_of_mem_unicastLinks h <;>
    exact hcell ▸ inRange_aliceCell ..

/-- **Every link asked for is installed**, when the pool has a block for each. -/
theorem Ready.scheduleUnicastSlotframe (h : Ready cfg handle s)
    (hfree : (node.unicastLinks cfg asfn).length ≤
      (Alice.removeUnicastLinks scfg handle s).freeLinks scfg) (room : Bool) :
    ∀ u ∈ node.unicastLinks cfg asfn,
      u.In handle (aliceScheduleUnicastSlotframe cfg scfg handle room asfn node s) :=
  ((h.removeUnicastLinks scfg).foldl_addUnicastLink
    (fun _ hu => inRange_of_mem_unicastLinks hu) hfree room).1

/-! ## Agreement -/

/-- The four links between a child and its parent, at the cells `up` and `down`. -/
structure AgreeAt (cfg : AliceConfig) (up down : Cell) (child parent : LinkAddr)
    (childHas parentHas : UnicastLink → Prop) : Prop where
  childUp : childHas ⟨cfg.aliceTxLinkOption, up, parent⟩
  parentUp : parentHas ⟨cfg.aliceRxLinkOption, up, child⟩
  parentDown : parentHas ⟨cfg.aliceTxLinkOption, down, child⟩
  childDown : childHas ⟨cfg.aliceRxLinkOption, down, parent⟩

theorem isTx_aliceTxLinkOption (cfg : AliceConfig) : isTx cfg.aliceTxLinkOption = true := by
  simp only [AliceConfig.aliceTxLinkOption]
  cases cfg.unicastSlotShared <;> decide

theorem isTx_aliceRxLinkOption (cfg : AliceConfig) : isTx cfg.aliceRxLinkOption = false := by
  rw [AliceConfig.aliceRxLinkOption]
  decide

/-- The cell of a link asked for, by its kind. -/
theorem cell_eq_of_mem {u : UnicastLink} (h : u ∈ node.unicastLinks cfg asfn) :
    u.cell = if isTx u.linkOptions then aliceCell cfg asfn node.linkaddrNodeAddr u.nbrAddr
      else aliceCell cfg asfn u.nbrAddr node.linkaddrNodeAddr := by
  obtain ⟨hoptions, hcell⟩ | ⟨hoptions, hcell⟩ := cell_of_mem_unicastLinks h
  · rw [hoptions, isTx_aliceTxLinkOption, if_pos rfl, hcell]
  · rw [hoptions, isTx_aliceRxLinkOption, if_neg Bool.false_ne_true, hcell]

/-- **A child and its parent agree on their cells.** There is one cell upward and one
downward, both in range; all links that the two ask for, for each other, are there, and
both links of either direction are asked for. They are installed on both sides, when the
pools have room for the links asked for. -/
theorem alice_cells_agree (cfg : AliceConfig) (asfn : BitVec 64) {child parent : AliceNode}
    (hroot : child.aliceIsRoot = false)
    (hparent : child.orchestraParentLinkaddr = parent.linkaddrNodeAddr)
    (hroute : child.linkaddrNodeAddr ∈ parent.nbrRoutes) :
    ∃ up down : Cell, up.InRange cfg ∧ down.InRange cfg ∧
      AgreeAt cfg up down child.linkaddrNodeAddr parent.linkaddrNodeAddr
        (· ∈ child.unicastLinks cfg asfn) (· ∈ parent.unicastLinks cfg asfn) ∧
      (∀ u ∈ child.unicastLinks cfg asfn, u.nbrAddr = parent.linkaddrNodeAddr →
        u.cell = if isTx u.linkOptions then up else down) ∧
      (∀ u ∈ parent.unicastLinks cfg asfn, u.nbrAddr = child.linkaddrNodeAddr →
        u.cell = if isTx u.linkOptions then down else up) ∧
      ∀ (scfg : ScheduleConfig) (handle : BitVec 16) (room : Bool) (sc sp : TschSchedule),
        Ready cfg handle sc → Ready cfg handle sp →
        (child.unicastLinks cfg asfn).length ≤
          (removeUnicastLinks scfg handle sc).freeLinks scfg →
        (parent.unicastLinks cfg asfn).length ≤
          (removeUnicastLinks scfg handle sp).freeLinks scfg →
        AgreeAt cfg up down child.linkaddrNodeAddr parent.linkaddrNodeAddr
          (UnicastLink.In handle
            (aliceScheduleUnicastSlotframe cfg scfg handle room asfn child sc))
          (UnicastLink.In handle
            (aliceScheduleUnicastSlotframe cfg scfg handle room asfn parent sp)) := by
  have hchild : ∀ u ∈ child.parentLinks cfg asfn, u ∈ child.unicastLinks cfg asfn :=
    fun u hu => parentLinks_subset hroot hu
  have hparent' : ∀ u ∈ parent.childLinks cfg asfn child.linkaddrNodeAddr,
      u ∈ parent.unicastLinks cfg asfn := fun u hu => childLinks_subset hroute hu
  simp only [AliceNode.parentLinks, AliceNode.childLinks, hparent, List.forall_mem_cons]
    at hchild hparent'
  obtain ⟨hcu, hcd, -⟩ := hchild
  obtain ⟨hpu, hpd, -⟩ := hparent'
  refine ⟨_, _, inRange_aliceCell cfg asfn _ _, inRange_aliceCell cfg asfn _ _,
    ⟨hcu, hpu, hpd, hcd⟩, fun u hu hnbr => ?_, fun u hu hnbr => ?_, ?_⟩
  · rw [cell_eq_of_mem hu, hnbr]
  · rw [cell_eq_of_mem hu, hnbr]
  · intro scfg handle room sc sp hsc hsp hfree hfree'
    have hin := hsc.scheduleUnicastSlotframe hfree room
    have hin' := hsp.scheduleUnicastSlotframe hfree' room
    exact ⟨hin _ hcu, hin' _ hpu, hin' _ hpd, hin _ hcd⟩

/-- A build with a period of 20 slots and four channels, where unicast slots are shared. -/
def aliceConfig : AliceConfig := ⟨20, 4, true, by decide, by decide, by decide⟩

/-- The node with a number, with its parent and the next hops of its routes. -/
def aliceNode (id : BitVec 8) (root : Bool) (parent : BitVec 8) (children : List (BitVec 8)) :
    AliceNode :=
  ⟨fun i => if i = 7 then id else 0, root, fun i => if i = 7 then parent else 0,
    children.map fun c i => if i = 7 then c else 0⟩

/-- A schedule with the unicast slotframe, and no link. -/
def emptySchedule : TschSchedule :=
  ⟨[⟨2, 20, []⟩], fun _ => ⟨0, fun _ => 0, 0, 0, 0⟩, fun _ => false, fun _ => none, false⟩

theorem ready_emptySchedule : Ready aliceConfig 2 emptySchedule where
  ok := ⟨by decide, by decide, by simp [emptySchedule], by simp [emptySchedule, installed]⟩
  unlocked := rfl
  slotframe := ⟨⟨2, 20, []⟩, rfl, rfl⟩

/-- Node 3 and its parent 2, which has another child and a parent of its own. -/
theorem alice_cells_agree_three_two :
    ∃ up down : Cell, AgreeAt aliceConfig up down (fun i => if i = 7 then 3 else 0)
      (fun i => if i = 7 then 2 else 0)
      (UnicastLink.In 2 (aliceScheduleUnicastSlotframe aliceConfig ⟨8, 4, 16, true, true⟩ 2 true
        1000 (aliceNode 3 false 2 []) emptySchedule))
      (UnicastLink.In 2 (aliceScheduleUnicastSlotframe aliceConfig ⟨8, 4, 16, true, true⟩ 2 true
        1000 (aliceNode 2 false 1 [5, 3]) emptySchedule)) := by
  obtain ⟨up, down, -, -, -, -, -, hinstalled⟩ := alice_cells_agree aliceConfig 1000
    (by rfl : (aliceNode 3 false 2 []).aliceIsRoot = false)
    (by rfl : _ = (aliceNode 2 false 1 [5, 3]).linkaddrNodeAddr) (by decide)
  exact ⟨up, down, hinstalled _ 2 true _ _ ready_emptySchedule ready_emptySchedule (by decide)
    (by decide)⟩

end Asap.Alice
