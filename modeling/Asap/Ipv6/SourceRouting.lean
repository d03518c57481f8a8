import Asap.Lib.Bytes
import Asap.Lib.ParentTree
import Asap.Lib.Run
import Mathlib.Data.Int.Notation

/-!
# The tree of source routes

The root keeps a node for each node of the network, with a pointer to its parent. Nodes
are blocks of a pool and stand in a list. An update gives a node a parent and a lifetime,
and lifetimes run down second by second until the node is taken out of the list.

What the routing protocol adds to a node to make an address of it comes with each call,
as it changes on its own.

## Main definitions

* `Octets`, `UipIpaddr` — bytes of a given number, and an address.
* `SrNode`, `UipSr` — a node, and all of them.
* `uipSrUpdateNode`, `uipSrExpireParent`, `uipSrPeriodic` — the operations.
* `UipSr.Ok` — parents are listed and belong to the graph of the node.
* `UipSr.ExpiredAfterChildren` — the children of an expired node leave before it.
-/

namespace Asap.Ipv6

open Asap.Lib Function List

/-- Bytes of a given number. -/
abbrev Octets (n : ℕ) := { bs : List Byte // bs.length = n }

/-- `uip_ipaddr_t` -/
abbrev UipIpaddr := Octets 16

theorem length_sixteen_zeros : (List.replicate 16 (0 : Byte)).length = 16 := rfl

/-- The bytes of an address from one on. -/
def UipIpaddr.rest (addr : UipIpaddr) (k : ℕ) : Octets (16 - k) :=
  ⟨addr.1.drop k, by rw [List.length_drop, addr.2]⟩

/-- A pointer to a block of `nodememb`. -/
abbrev NodeId := ℕ

/-- A pointer to a DAG. -/
abbrev Graph := ℕ

/-- `uip_sr_node_t` -/
structure SrNode where
  lifetime : BitVec 32
  graph : Graph
  linkIdentifier : Octets 8
  parent : Option NodeId

/-- The nodes: the blocks, which of them are in use, their list and their number. -/
structure UipSr where
  node : NodeId → SrNode
  used : NodeId → Bool
  nodelist : List NodeId
  numNodes : ℤ

/-- `UIP_SR_LINK_NUM` and `UIP_SR_REMOVAL_DELAY` -/
structure SrConfig where
  linkNum : ℕ
  removalDelay : BitVec 32

/-- What the routing protocol gives: the address a DAG has for its root, and the address of
the root. -/
structure RoutingDriver where
  dagId : Graph → UipIpaddr
  rootIpaddr : UipIpaddr

/-- `UIP_SR_INFINITE_LIFETIME` -/
def uipSrInfiniteLifetime : BitVec 32 := 0xFFFFFFFF

/-- `get_sr_node_ipaddr`: the prefix of the DAG, and the identifier of the node. -/
def RoutingDriver.getSrNodeIpaddr (driver : RoutingDriver) (node : SrNode) : UipIpaddr :=
  ⟨(driver.dagId node.graph).1.take 8 ++ node.linkIdentifier.1, by
    rw [List.length_append, List.length_take, node.linkIdentifier.2, (driver.dagId _).2]; rfl⟩

namespace UipSr

/-- `uip_sr_init` -/
def init : UipSr where
  node := fun _ => ⟨0, 0, ⟨List.replicate 8 0, rfl⟩, none⟩
  used := fun _ => false
  nodelist := []
  numNodes := 0

/-- Change one node. -/
def setNode (s : UipSr) (n : NodeId) (node : SrNode) : UipSr :=
  { s with node := Function.update s.node n node }

/-- The pointers to the parents. -/
def parentOf (s : UipSr) (n : NodeId) : Option NodeId := (s.node n).parent

/-- Change the parent of a node. -/
def setParent (s : UipSr) (n : NodeId) (parent : Option NodeId) : UipSr :=
  s.setNode n { s.node n with parent := parent }

/-! ## Lookups -/

section

variable (s : UipSr) (driver : RoutingDriver) (graph : Graph)

/-- `node_matches_address` -/
def nodeMatchesAddress (addr : UipIpaddr)
    (n : NodeId) : Bool :=
  graph = (s.node n).graph ∧ driver.getSrNodeIpaddr (s.node n) = addr

/-- `uip_sr_get_node` -/
def uipSrGetNode (addr : UipIpaddr) :
    Option NodeId :=
  s.nodelist.find? (s.nodeMatchesAddress driver graph addr)

/-- The node of the root. -/
def rootNode : Option NodeId :=
  s.uipSrGetNode driver graph driver.rootIpaddr

end

/-- `uip_sr_is_addr_reachable` -/
def uipSrIsAddrReachable (cfg : SrConfig) (s : UipSr) (driver : RoutingDriver) (graph : Graph)
    (addr : UipIpaddr) : Bool :=
  let node := climb s.parentOf (s.rootNode driver graph) cfg.linkNum (s.uipSrGetNode driver graph addr)
  node.isSome ∧ node = s.rootNode driver graph

/-! ## Operations -/

section

variable (cfg : SrConfig) (s : UipSr)

/-- `uip_sr_expire_parent` -/
def uipSrExpireParent (driver : RoutingDriver) (graph : Graph)
    (child parent : UipIpaddr) : UipSr :=
  match s.uipSrGetNode driver graph child with
  | none => s
  | some l =>
    match s.parentOf l with
    | none => s
    | some p =>
      if s.nodeMatchesAddress driver graph parent p then
        s.setNode l { s.node l with lifetime := cfg.removalDelay }
      else s

/-- The node of a child, allocated and listed where there is none. -/
def childNode : Option NodeId → Option (NodeId × UipSr)
  | some c => some (c, s)
  | none =>
    ((List.range cfg.linkNum).find? fun b => !s.used b).map fun b =>
      (b, { s.setParent b none with
            used := Function.update s.used b true
            nodelist := s.nodelist ++ [b]
            numNodes := s.numNodes + 1 })

/-- The end of `uip_sr_update_node`, when the nodes of the child and the parent have been
looked for. -/
def updateChild (driver : RoutingDriver) (graph : Graph)
    (child : UipIpaddr) (lifetime : BitVec 32) (found parentNode : Option NodeId) :
    Option NodeId × UipSr :=
  match s.childNode cfg found with
  | none => (none, s)
  | some (c, s) =>
    let s := s.setNode c
      { s.node c with graph := graph, lifetime := lifetime, linkIdentifier := child.rest 8 }
    if s.uipSrIsAddrReachable cfg driver graph child then
      let oldParentNode := s.parentOf c
      let s := s.setParent c parentNode
      if s.uipSrIsAddrReachable cfg driver graph child then (some c, s)
      else (some c, s.setParent c oldParentNode)
    else (some c, s.setParent c parentNode)

/-- `uip_sr_update_node`. The node of the child is looked for before a node is added for the
parent, which is an update with no parent. -/
def uipSrUpdateNode (driver : RoutingDriver) (graph : Graph)
    (child : UipIpaddr) (parent : Option UipIpaddr) (lifetime : BitVec 32) :
    Option NodeId × UipSr :=
  let found := s.uipSrGetNode driver graph child
  match parent with
  | none => s.updateChild cfg driver graph child lifetime found none
  | some parent =>
    match s.uipSrGetNode driver graph parent with
    | some p => s.updateChild cfg driver graph child lifetime found (some p)
    | none =>
      match s.updateChild cfg driver graph parent uipSrInfiniteLifetime none none with
      | (none, s) => (none, s)
      | (some p, s) => s.updateChild cfg driver graph child lifetime found (some p)

end

/-- One round of `uip_sr_periodic`. The search for a child of an expired node leaves the loop
it is made in, and nothing else. -/
def visit (seconds : BitVec 32) (s : UipSr) (l : NodeId) : UipSr :=
  let lifetime := (s.node l).lifetime
  if lifetime = 0 then
    { s with
      nodelist := s.nodelist.erase l
      used := Function.update s.used l false
      numNodes := s.numNodes - 1 }
  else if lifetime ≠ uipSrInfiniteLifetime then
    s.setNode l { s.node l with lifetime := if seconds < lifetime then lifetime - seconds else 0 }
  else s

/-- `uip_sr_periodic` -/
def uipSrPeriodic (s : UipSr) (seconds : BitVec 32) : UipSr := s.nodelist.foldl (visit seconds) s

end UipSr

/-- The calls. -/
inductive SrEvent where
  | update (driver : RoutingDriver) (graph : Graph) (child : UipIpaddr)
      (parent : Option UipIpaddr) (lifetime : BitVec 32)
  | expireParent (driver : RoutingDriver) (graph : Graph) (child parent : UipIpaddr)
  | periodic (seconds : BitVec 32)

/-- The state after a call. -/
def UipSr.step (cfg : SrConfig) (s : UipSr) : SrEvent → Option UipSr
  | .update driver graph child parent lifetime =>
    some (s.uipSrUpdateNode cfg driver graph child parent lifetime).2
  | .expireParent driver graph child parent =>
    some (s.uipSrExpireParent cfg driver graph child parent)
  | .periodic seconds => some (s.uipSrPeriodic seconds)

namespace UipSr

variable {cfg : SrConfig} {s t : UipSr} {driver : RoutingDriver} {graph graph' : Graph}
  {c n p : NodeId} {seconds : BitVec 32}

/-! ## The invariant -/

/-- The listed nodes are those in use, each once, and they are counted. -/
structure Listed (cfg : SrConfig) (s : UipSr) : Prop where
  listed : ∀ n, n ∈ s.nodelist ↔ s.used n
  pool : ∀ n ∈ s.nodelist, n < cfg.linkNum
  nodup : s.nodelist.Nodup
  counted : s.numNodes = s.nodelist.length

/-- The parent of a listed node is listed and belongs to the same graph. -/
structure Ok (cfg : SrConfig) (s : UipSr) : Prop extends Listed cfg s where
  parent : ∀ n ∈ s.nodelist, ∀ p, s.parentOf n = some p →
    p ∈ s.nodelist ∧ (s.node p).graph = (s.node n).graph

/-- The parents of a node come to the root of a graph. -/
def Reachable (s : UipSr) (driver : RoutingDriver) (graph : Graph) (n : NodeId) : Prop :=
  ∃ r, s.rootNode driver graph = some r ∧ Reaches s.parentOf r n

/-- Every child of an expired node is expired too and stands before it in the list. -/
def ExpiredAfterChildren (s : UipSr) : Prop :=
  ∀ l ∈ s.nodelist, (s.node l).lifetime = 0 → ∀ c ∈ s.nodelist, c ≠ l → s.parentOf c = some l →
    (s.node c).lifetime = 0 ∧ List.Sublist [c, l] s.nodelist

instance (s : UipSr) : Decidable s.ExpiredAfterChildren :=
  inferInstanceAs (Decidable (∀ l ∈ s.nodelist, (s.node l).lifetime = 0 → ∀ c ∈ s.nodelist, c ≠ l →
    s.parentOf c = some l → (s.node c).lifetime = 0 ∧ List.Sublist [c, l] s.nodelist))

/-- No node is taken out of the list by `uip_sr_periodic` while another listed node has it as
its parent. -/
def ChildlessRemovals (s : UipSr) (seconds : BitVec 32) : Prop :=
  ∀ l₁ l l₂, s.nodelist = l₁ ++ l :: l₂ →
    let u := l₁.foldl (visit seconds) s
    (u.node l).lifetime = 0 → ∀ c ∈ u.nodelist, c ≠ l → u.parentOf c ≠ some l

/-! ## One node changes -/

section

variable (s : UipSr) (n : NodeId)

@[simp] theorem nodelist_setNode (node : SrNode) :
    (s.setNode n node).nodelist = s.nodelist := rfl

@[simp] theorem nodelist_setParent (parent : Option NodeId) :
    (s.setParent n parent).nodelist = s.nodelist := rfl

@[simp] theorem graph_setParent (parent : Option NodeId) (m : NodeId) :
    ((s.setParent n parent).node m).graph = (s.node m).graph := by
  by_cases hm : m = n <;> simp [setParent, setNode, hm]

@[simp] theorem linkIdentifier_setParent (parent : Option NodeId)
    (m : NodeId) : ((s.setParent n parent).node m).linkIdentifier = (s.node m).linkIdentifier := by
  by_cases hm : m = n <;> simp [setParent, setNode, hm]

theorem parentOf_setNode (node : SrNode) :
    (s.setNode n node).parentOf = update s.parentOf n node.parent := by
  funext m
  by_cases hm : m = n <;> simp [parentOf, setNode, hm]

theorem parentOf_setParent (parent : Option NodeId) :
    (s.setParent n parent).parentOf = update s.parentOf n parent :=
  parentOf_setNode s n _

theorem setParent_setParent_parentOf (parent : Option NodeId) :
    (s.setParent n parent).setParent n (s.parentOf n) = s := by
  simp [setParent, setNode, parentOf]

end

/-! ## Lookups and reachability -/

theorem uipSrGetNode_some {addr : UipIpaddr} (h : s.uipSrGetNode driver graph addr = some n) :
    n ∈ s.nodelist ∧ (s.node n).graph = graph ∧ driver.getSrNodeIpaddr (s.node n) = addr := by
  have hmatch := List.find?_some h
  simp only [nodeMatchesAddress, decide_eq_true_eq] at hmatch
  exact ⟨mem_of_find?_eq_some h, hmatch.1.symm, hmatch.2⟩

/-- The parents stay in the list and in the graph. -/
theorem Ok.graph_of_reaches (h : Ok cfg s) (hn : n ∈ s.nodelist) {r : NodeId}
    (hr : Reaches s.parentOf r n) : (s.node r).graph = (s.node n).graph := by
  have key : n ∈ s.nodelist → (s.node r).graph = (s.node n).graph := by
    refine hr.induction (P := fun n => n ∈ s.nodelist → (s.node r).graph = (s.node n).graph)
      (fun _ => rfl) ?_
    intro a b hab _ ih ha
    obtain ⟨hb, hgraph⟩ := h.parent a ha b hab
    exact (ih hb).trans hgraph
  exact key hn

theorem Ok.length_le (h : Ok cfg s) : s.nodelist.length ≤ cfg.linkNum := by
  have hsubset : s.nodelist ⊆ List.range cfg.linkNum := by
    intro n hn
    exact mem_range.mpr (h.pool n hn)
  have hle := (subperm_of_subset h.nodup hsubset).length_le
  rwa [length_range] at hle

/-- **The bounded walk is right**: it finds the root exactly when the parents come to it. -/
theorem Ok.uipSrIsAddrReachable_iff (h : Ok cfg s) {addr : UipIpaddr} :
    s.uipSrIsAddrReachable cfg driver graph addr ↔
      ∃ n, s.uipSrGetNode driver graph addr = some n ∧ s.Reachable driver graph n := by
  simp only [uipSrIsAddrReachable, decide_eq_true_eq]
  cases hn : s.uipSrGetNode driver graph addr with
  | none => simp [climb_none]
  | some n =>
    have hmem := (uipSrGetNode_some hn).1
    cases hr : s.rootNode driver graph with
    | none =>
      simp only [Reachable, hr, reduceCtorEq, false_and, exists_const, and_false, iff_false,
        not_and]
      intro hsome hnone
      simp [hnone] at hsome
    | some r =>
      have hclimb := @climb_eq_some_iff_reaches _ s.parentOf r _ _ _ _ h.length_le hmem
        fun a b ha hab => (h.parent a ha b hab).1
      constructor
      · rintro ⟨-, heq⟩
        exact ⟨n, rfl, r, hr, hclimb.mp heq⟩
      · rintro ⟨m, hm, r', hr', hreaches⟩
        cases hm
        cases hr.symm.trans hr'
        have heq := hclimb.mpr hreaches
        exact ⟨by rw [heq]; rfl, heq⟩

/-- A state after a call that adds nodes: those that were listed have the place in the list,
the address and the graph they had, and reach the root if they did. -/
structure Extends (driver : RoutingDriver) (s t : UipSr) : Prop where
  before : s.nodelist <+: t.nodelist
  graph : ∀ n ∈ s.nodelist, (t.node n).graph = (s.node n).graph
  linkIdentifier : ∀ n ∈ s.nodelist, (t.node n).linkIdentifier = (s.node n).linkIdentifier
  reachable : ∀ graph, ∀ n ∈ s.nodelist, s.Reachable driver graph n → t.Reachable driver graph n

theorem Extends.refl (driver : RoutingDriver) (s : UipSr) : Extends driver s s :=
  ⟨prefix_rfl, fun _ _ => rfl, fun _ _ => rfl, fun _ _ _ h => h⟩

theorem Extends.mem (h : Extends driver s t) (hn : n ∈ s.nodelist) : n ∈ t.nodelist :=
  h.before.subset hn

theorem Extends.trans {u : UipSr} (h : Extends driver s t) (h' : Extends driver t u) :
    Extends driver s u where
  before := h.before.trans h'.before
  graph n hn := (h'.graph n (h.mem hn)).trans (h.graph n hn)
  linkIdentifier n hn := (h'.linkIdentifier n (h.mem hn)).trans (h.linkIdentifier n hn)
  reachable graph n hn hr := h'.reachable graph n (h.mem hn) (h.reachable graph n hn hr)

/-- What a lookup finds, it finds when nodes have been added at the end of the list. -/
theorem uipSrGetNode_of_before {driver' : RoutingDriver} {addr : UipIpaddr}
    (hbefore : s.nodelist <+: t.nodelist)
    (hgraph : ∀ n ∈ s.nodelist, (t.node n).graph = (s.node n).graph)
    (hident : ∀ n ∈ s.nodelist, (t.node n).linkIdentifier = (s.node n).linkIdentifier)
    (h : s.uipSrGetNode driver' graph addr = some n) :
    t.uipSrGetNode driver' graph addr = some n := by
  obtain ⟨added, hadded⟩ := hbefore
  have hsame : ∀ m ∈ s.nodelist, t.nodeMatchesAddress driver' graph addr m =
      s.nodeMatchesAddress driver' graph addr m := by
    intro m hm
    have haddr : driver'.getSrNodeIpaddr (t.node m) = driver'.getSrNodeIpaddr (s.node m) := by
      simp only [RoutingDriver.getSrNodeIpaddr, hgraph m hm, hident m hm]
    rw [nodeMatchesAddress, nodeMatchesAddress, decide_eq_decide, hgraph m hm, haddr]
  have hfind : s.nodelist.find? (t.nodeMatchesAddress driver' graph addr) = some n := by
    rw [← List.head?_filter, filter_congr hsame, List.head?_filter]
    exact h
  rw [uipSrGetNode, ← hadded, List.find?_append, hfind]
  rfl

theorem Extends.getNode (h : Extends driver s t) {addr : UipIpaddr}
    (hn : s.uipSrGetNode driver graph addr = some n) : t.uipSrGetNode driver graph addr = some n :=
  uipSrGetNode_of_before h.before h.graph h.linkIdentifier hn

/-! ## Updates -/

/-- A listed node is given a listed parent of its graph, or none. -/
theorem Ok.setParent (h : Ok cfg s) (hc : c ∈ s.nodelist) {parent : Option NodeId}
    (hparent : ∀ p, parent = some p → p ∈ s.nodelist ∧ (s.node p).graph = (s.node c).graph) :
    Ok cfg (s.setParent c parent) where
  toListed := ⟨h.listed, h.pool, h.nodup, h.counted⟩
  parent := by
    intro n hn p hp
    rw [parentOf_setParent] at hp
    by_cases hnc : n = c
    · subst hnc
      rw [update_self] at hp
      simpa using hparent p hp
    · rw [update_of_ne hnc] at hp
      simpa using h.parent n hn p hp

/-- A listed node is given another parent, by which it reaches the root of its graph if it did
before. -/
theorem Ok.extends_setParent (h : Ok cfg s) (hc : c ∈ s.nodelist) (hgraph : (s.node c).graph = graph)
    {parent : Option NodeId}
    (hreach : s.Reachable driver graph c → (s.setParent c parent).Reachable driver graph c) :
    Extends driver s (s.setParent c parent) where
  before := prefix_rfl
  graph n _ := graph_setParent s c parent n
  linkIdentifier n _ := linkIdentifier_setParent s c parent n
  reachable := by
    have hroot : ∀ graph' r, s.rootNode driver graph' = some r →
        (s.setParent c parent).rootNode driver graph' = some r := by
      intro graph' r hr
      exact uipSrGetNode_of_before (s := s) prefix_rfl (fun n _ => graph_setParent s c parent n)
        (fun n _ => linkIdentifier_setParent s c parent n) hr
    intro graph' n hn hreachable
    obtain ⟨r, hr, hto⟩ := hreachable
    refine ⟨r, hroot graph' r hr, ?_⟩
    rw [parentOf_setParent]
    refine hto.update fun hcr => ?_
    -- the root that the node reaches is that of its graph
    have hgraph' : graph' = graph := by
      have hrgraph := (uipSrGetNode_some hr).2.1
      exact hrgraph.symm.trans ((h.graph_of_reaches hc hcr).trans hgraph)
    subst hgraph'
    obtain ⟨r', hr', hto'⟩ := hreach ⟨r, hr, hcr⟩
    rw [hroot graph' r hr, Option.some.injEq] at hr'
    rw [parentOf_setParent] at hto'
    exact hr' ▸ hto'

/-- The lifetime of a node is no part of the tree. -/
theorem Ok.setLifetime (h : Ok cfg s) (driver : RoutingDriver) (c : NodeId) (lifetime : BitVec 32) :
    let t := s.setNode c { s.node c with lifetime := lifetime }
    Ok cfg t ∧ Extends driver s t := by
  intro t
  have hnode : ∀ n, (t.node n).graph = (s.node n).graph ∧
      (t.node n).linkIdentifier = (s.node n).linkIdentifier := by
    intro n
    by_cases hn : n = c <;> simp [t, setNode, hn]
  have hparent : t.parentOf = s.parentOf := by
    rw [parentOf_setNode]
    exact update_eq_self c s.parentOf
  refine ⟨⟨⟨h.listed, h.pool, h.nodup, h.counted⟩, ?_⟩, prefix_rfl, fun n _ => (hnode n).1,
    fun n _ => (hnode n).2, ?_⟩
  · intro n hn p hp
    rw [hparent] at hp
    obtain ⟨hpl, hgraph⟩ := h.parent n hn p hp
    exact ⟨hpl, ((hnode p).1.trans hgraph).trans (hnode n).1.symm⟩
  · intro graph n hn hreachable
    obtain ⟨r, hr, hto⟩ := hreachable
    refine ⟨r, ?_, hparent ▸ hto⟩
    exact uipSrGetNode_of_before (s := s) prefix_rfl (fun m _ => (hnode m).1)
      (fun m _ => (hnode m).2) hr

/-- A node with its first contents, added to the list. -/
def addNode (s : UipSr) (b : NodeId) (node : SrNode) : UipSr :=
  { s.setNode b node with
    used := Function.update s.used b true
    nodelist := s.nodelist ++ [b]
    numNodes := s.numNodes + 1 }

theorem node_addNode_of_mem (hb : c ∉ s.nodelist) (node : SrNode) (hn : n ∈ s.nodelist) :
    (s.addNode c node).node n = s.node n := by
  have hnc : n ≠ c := fun heq => hb (heq ▸ hn)
  simp [addNode, setNode, hnc]

theorem Ok.addNode (h : Ok cfg s) (hc : c ∉ s.nodelist) (hlt : c < cfg.linkNum) {node : SrNode}
    (hparent : ∀ p, node.parent = some p → p ∈ s.nodelist ∧ (s.node p).graph = node.graph) :
    Ok cfg (s.addNode c node) := by
  refine ⟨⟨?_, ?_, ?_, ?_⟩, ?_⟩
  · intro n
    by_cases hn : n = c
    · simp [UipSr.addNode, hn]
    · simp [UipSr.addNode, hn, h.listed]
  · intro n hn
    rcases mem_append.mp hn with hn | hn
    · exact h.pool n hn
    · rw [mem_singleton] at hn
      exact hn ▸ hlt
  · exact nodup_append.mpr ⟨h.nodup, nodup_singleton c, by
      intro a ha b hb heq
      rw [mem_singleton] at hb
      exact hc (hb ▸ heq ▸ ha)⟩
  · simp [UipSr.addNode, h.counted]
  · intro n hn p hp
    rcases mem_append.mp hn with hn | hn
    · simp only [parentOf, node_addNode_of_mem hc node hn] at hp ⊢
      obtain ⟨hpl, hgraph⟩ := h.parent n hn p hp
      exact ⟨mem_append_left _ hpl, (congrArg SrNode.graph (node_addNode_of_mem hc node hpl)).trans
        hgraph⟩
    · rw [mem_singleton] at hn
      subst hn
      have hself : (s.addNode n node).node n = node := by simp [UipSr.addNode, setNode]
      rw [parentOf, hself] at hp
      obtain ⟨hpl, hgraph⟩ := hparent p hp
      rw [node_addNode_of_mem hc node hpl, hself]
      exact ⟨mem_append_left _ hpl, hgraph⟩

/-- A new node is on the way of no other to the root. -/
theorem Ok.extends_addNode (h : Ok cfg s) (driver : RoutingDriver) (hc : c ∉ s.nodelist)
    (node : SrNode) : Extends driver s (s.addNode c node) where
  before := prefix_append _ _
  graph n hn := by rw [node_addNode_of_mem hc node hn]
  linkIdentifier n hn := by rw [node_addNode_of_mem hc node hn]
  reachable := by
    intro graph n hn hreachable
    obtain ⟨r, hr, hto⟩ := hreachable
    refine ⟨r, ?_, ?_⟩
    · exact uipSrGetNode_of_before (s := s) (prefix_append _ _)
        (fun m hm => by rw [node_addNode_of_mem hc node hm])
        (fun m hm => by rw [node_addNode_of_mem hc node hm]) hr
    · exact hto.congr (S := (· ∈ s.nodelist)) hn (fun a b ha hab => (h.parent a ha b hab).1)
        fun a ha => by rw [parentOf, parentOf, node_addNode_of_mem hc node ha]

theorem setParent_addNode (s : UipSr) (b : NodeId) (node : SrNode) (parent : Option NodeId) :
    (s.addNode b node).setParent b parent = s.addNode b { node with parent := parent } := by
  simp [addNode, setParent, setNode]

theorem rest_of_getSrNodeIpaddr {node : SrNode} {addr : UipIpaddr}
    (h : driver.getSrNodeIpaddr node = addr) : addr.rest 8 = node.linkIdentifier := by
  subst h
  apply Subtype.ext
  have hlen : ((driver.dagId node.graph).1.take 8).length = 8 := by
    rw [length_take, (driver.dagId _).2]
    rfl
  exact drop_left' hlen

section

variable (h : Ok cfg s) (driver : RoutingDriver) (graph : Graph)

include h

/-- **An update makes no node unreachable.** The node of the child is where the lookup of its
address says, or new. -/
theorem Ok.updateChild (child : UipIpaddr)
    (lifetime : BitVec 32) {found parentNode : Option NodeId}
    (hfound : ∀ c, found = some c → s.uipSrGetNode driver graph child = some c)
    (hparent : ∀ p, parentNode = some p → p ∈ s.nodelist ∧ (s.node p).graph = graph) :
    let result := s.updateChild cfg driver graph child lifetime found parentNode
    Ok cfg result.2 ∧ Extends driver s result.2 ∧
      ∀ c, result.1 = some c → c ∈ result.2.nodelist ∧ (result.2.node c).graph = graph := by
  cases found with
  | none =>
    simp only [UipSr.updateChild, childNode]
    cases hb : (List.range cfg.linkNum).find? fun b => !s.used b with
    | none => exact ⟨h, .refl driver s, by simp⟩
    | some b =>
      have hbfree := List.find?_some hb
      have hbmem : b ∉ s.nodelist := by
        intro hmem
        simp [(h.listed b).mp hmem] at hbfree
      have hlt : b < cfg.linkNum := mem_range.mp (mem_of_find?_eq_some hb)
      -- whatever parent the new node ends with, it is a node added at the end
      have hadded : ∀ q, (∀ p, q = some p → p ∈ s.nodelist ∧ (s.node p).graph = graph) →
          let t := s.addNode b ⟨lifetime, graph, child.rest 8, q⟩
          Ok cfg t ∧ Extends driver s t ∧ b ∈ t.nodelist ∧ (t.node b).graph = graph := by
        intro q hq
        exact ⟨h.addNode hbmem hlt hq, h.extends_addNode driver hbmem _,
          mem_append_right _ (mem_singleton_self b), by simp [UipSr.addNode, setNode]⟩
      have hnew : ({ s.setParent b none with
              used := update s.used b true
              nodelist := s.nodelist ++ [b]
              numNodes := s.numNodes + 1 } : UipSr).setNode b
            { ({ s.setParent b none with
                used := update s.used b true
                nodelist := s.nodelist ++ [b]
                numNodes := s.numNodes + 1 } : UipSr).node b with
              graph := graph, lifetime := lifetime, linkIdentifier := child.rest 8 } =
          s.addNode b ⟨lifetime, graph, child.rest 8, none⟩ := by
        simp [UipSr.addNode, UipSr.setParent, setNode]
      have hold : (s.addNode b ⟨lifetime, graph, child.rest 8, none⟩).parentOf b = none := by
        simp [UipSr.addNode, parentOf, setNode]
      obtain ⟨hok, hext, hmem, hgraph⟩ := hadded parentNode hparent
      obtain ⟨hok', hext', hmem', hgraph'⟩ := hadded none (by simp)
      simp only [Option.map_some, hnew, hold, setParent_addNode]
      split_ifs
      · exact ⟨hok, hext, fun c hc => Option.some.inj hc ▸ ⟨hmem, hgraph⟩⟩
      · exact ⟨hok', hext', fun c hc => Option.some.inj hc ▸ ⟨hmem', hgraph'⟩⟩
      · exact ⟨hok, hext, fun c hc => Option.some.inj hc ▸ ⟨hmem, hgraph⟩⟩
  | some c =>
    have hc := hfound c rfl
    obtain ⟨hmem, hgraph, haddr⟩ := uipSrGetNode_some hc
    simp only [UipSr.updateChild, childNode]
    -- the node keeps its graph and its address
    have hsame : s.setNode c { s.node c with
          graph := graph, lifetime := lifetime, linkIdentifier := child.rest 8 } =
        s.setNode c { s.node c with lifetime := lifetime } := by
      rw [rest_of_getSrNodeIpaddr haddr, ← hgraph]
    rw [hsame]
    obtain ⟨hok, hext⟩ := h.setLifetime driver c lifetime
    generalize s.setNode c { s.node c with lifetime := lifetime } = u at hok hext ⊢
    have hcu := hext.getNode hc
    obtain ⟨hmemu, hgraphu, -⟩ := uipSrGetNode_some hcu
    have hparentu : ∀ p, parentNode = some p →
        p ∈ u.nodelist ∧ (u.node p).graph = (u.node c).graph := by
      intro p hp
      obtain ⟨hpl, hpg⟩ := hparent p hp
      exact ⟨hext.mem hpl, ((hext.graph p hpl).trans hpg).trans hgraphu.symm⟩
    have hokt := hok.setParent hmemu hparentu
    have hct : (u.setParent c parentNode).uipSrGetNode driver graph child = some c :=
      uipSrGetNode_of_before (s := u) prefix_rfl (fun n _ => graph_setParent u c parentNode n)
        (fun n _ => linkIdentifier_setParent u c parentNode n) hcu
    split_ifs with hbefore hafter
    · -- the child is reachable by its new parent
      have hreach : (u.setParent c parentNode).Reachable driver graph c := by
        obtain ⟨n, hn, hreach⟩ := hokt.uipSrIsAddrReachable_iff.mp hafter
        rw [hct, Option.some.injEq] at hn
        exact hn ▸ hreach
      refine ⟨hokt, hext.trans (hok.extends_setParent hmemu hgraphu fun _ => hreach), ?_⟩
      intro c' hc'
      cases hc'
      exact ⟨hmemu, (graph_setParent u c parentNode c).trans hgraphu⟩
    · -- it is not, and its old parent is restored
      rw [setParent_setParent_parentOf]
      refine ⟨hok, hext, ?_⟩
      intro c' hc'
      cases hc'
      exact ⟨hmemu, hgraphu⟩
    · -- it was not reachable, so it is on the way of no reachable node
      have hunreach : ¬ u.Reachable driver graph c := fun hreach =>
        hbefore (hok.uipSrIsAddrReachable_iff.mpr ⟨c, hcu, hreach⟩)
      refine ⟨hokt, hext.trans (hok.extends_setParent hmemu hgraphu fun hr => absurd hr hunreach), ?_⟩
      intro c' hc'
      cases hc'
      exact ⟨hmemu, (graph_setParent u c parentNode c).trans hgraphu⟩

theorem Ok.uipSrUpdateNode (child : UipIpaddr) (parent : Option UipIpaddr) (lifetime : BitVec 32) :
    let t := (s.uipSrUpdateNode cfg driver graph child parent lifetime).2
    Ok cfg t ∧ Extends driver s t := by
  have hnone : ∀ p, (none : Option NodeId) = some p → p ∈ s.nodelist ∧ (s.node p).graph = graph :=
    fun p hp => by cases hp
  simp only [UipSr.uipSrUpdateNode]
  cases parent with
  | none =>
    obtain ⟨hok, hext, -⟩ := h.updateChild driver graph child lifetime (fun c hc => hc) hnone
    exact ⟨hok, hext⟩
  | some parent =>
    cases hp : s.uipSrGetNode driver graph parent with
    | some p =>
      obtain ⟨hmem, hgraph, -⟩ := uipSrGetNode_some hp
      have hparent : ∀ q, some p = some q → q ∈ s.nodelist ∧ (s.node q).graph = graph := by
        intro q hq
        exact Option.some.inj hq ▸ ⟨hmem, hgraph⟩
      obtain ⟨hok, hext, -⟩ := h.updateChild driver graph child lifetime (fun c hc => hc) hparent
      simp only [hp]
      exact ⟨hok, hext⟩
    | none =>
      -- a node is added for the parent first
      obtain ⟨hok, hext, hfirst⟩ := h.updateChild driver graph parent uipSrInfiniteLifetime
        (fun c hc => absurd hc (Option.some_ne_none c).symm) hnone
      simp only [hp]
      generalize s.updateChild cfg driver graph parent uipSrInfiniteLifetime none none = result
        at hok hext hfirst ⊢
      obtain ⟨p, u⟩ := result
      cases p with
      | none => exact ⟨hok, hext⟩
      | some p =>
        have hparent : ∀ q, some p = some q → q ∈ u.nodelist ∧ (u.node q).graph = graph := by
          intro q hq
          exact Option.some.inj hq ▸ hfirst p rfl
        obtain ⟨hok', hext', -⟩ := hok.updateChild driver graph child lifetime
          (fun c hc => hext.getNode hc) hparent
        exact ⟨hok', hext.trans hext'⟩

theorem Ok.uipSrExpireParent
    (child parent : UipIpaddr) : Ok cfg (s.uipSrExpireParent cfg driver graph child parent) := by
  simp only [UipSr.uipSrExpireParent]
  split
  · exact h
  · split
    · exact h
    · split
      · exact (h.setLifetime driver _ _).1
      · exact h

end

/-! ## Ageing -/

/-- A visit takes an expired node out of the list, and changes nothing else of the tree. -/
theorem Listed.visit (h : Listed cfg s) (hn : n ∈ s.nodelist) (seconds : BitVec 32) :
    let u := s.visit seconds n
    Listed cfg u ∧
      u.nodelist = (if (s.node n).lifetime = 0 then s.nodelist.erase n else s.nodelist) ∧
      u.parentOf = s.parentOf ∧ (∀ m, (u.node m).graph = (s.node m).graph) ∧
      ∀ m ≠ n, u.node m = s.node m := by
  simp only [UipSr.visit]
  split
  · refine ⟨⟨?_, ?_, h.nodup.erase n, ?_⟩, rfl, rfl, fun _ => rfl, fun _ _ => rfl⟩
    · intro m
      by_cases hm : m = n
      · simp [hm, h.nodup.mem_erase_iff]
      · simp [hm, h.nodup.mem_erase_iff, h.listed]
    · exact fun m hm => h.pool m (mem_of_mem_erase hm)
    · have hpos := length_pos_of_mem hn
      have hlen := length_erase_of_mem hn
      have hcounted := h.counted
      simp only
      omega
  · split
    · refine ⟨⟨h.listed, h.pool, h.nodup, h.counted⟩, rfl, ?_, ?_, ?_⟩
      · rw [parentOf_setNode]
        exact update_eq_self n s.parentOf
      · intro m
        by_cases hm : m = n <;> simp [setNode, hm]
      · intro m hm
        simp [setNode, hm]
    · exact ⟨h, rfl, rfl, fun _ => rfl, fun _ _ => rfl⟩

/-- What is left of the list and of the nodes when all of `l₁` have been visited. -/
theorem Listed.foldl_visit (h : Listed cfg s) (seconds : BitVec 32) {l₁ : List NodeId}
    (hsub : l₁ ⊆ s.nodelist) (hnodup : l₁.Nodup) :
    let u := l₁.foldl (UipSr.visit seconds) s
    Listed cfg u ∧
      (∀ n, n ∈ u.nodelist ↔ n ∈ s.nodelist ∧ ¬ (n ∈ l₁ ∧ (s.node n).lifetime = 0)) ∧
      u.parentOf = s.parentOf ∧ (∀ n, (u.node n).graph = (s.node n).graph) ∧
      ∀ n ∉ l₁, u.node n = s.node n := by
  induction l₁ generalizing s with
  | nil => simp [h]
  | cons m l₁ ih =>
    obtain ⟨hml, hnodup⟩ := nodup_cons.mp hnodup
    have hm : m ∈ s.nodelist := hsub mem_cons_self
    obtain ⟨hlisted, hlist, hparent, hgraph, hnode⟩ := h.visit hm seconds
    have hmem : ∀ n, n ∈ (s.visit seconds m).nodelist ↔
        n ∈ s.nodelist ∧ ¬ (n = m ∧ (s.node n).lifetime = 0) := by
      intro n
      rw [hlist]
      split
      · rename_i hzero
        rw [h.nodup.mem_erase_iff, and_comm, and_congr_right_iff]
        intro _
        constructor
        · exact fun hne heq => hne heq.1
        · exact fun hne heq => hne ⟨heq, heq ▸ hzero⟩
      · rename_i hzero
        exact ⟨fun hn => ⟨hn, fun heq => hzero (heq.1 ▸ heq.2)⟩, fun hn => hn.1⟩
    have hsub' : l₁ ⊆ (s.visit seconds m).nodelist := by
      intro n hn
      exact (hmem n).mpr ⟨hsub (mem_cons_of_mem m hn), fun heq => hml (heq.1 ▸ hn)⟩
    obtain ⟨hlisted', hmem', hparent', hgraph', hnode'⟩ := ih hlisted hsub' hnodup
    refine ⟨hlisted', ?_, hparent'.trans hparent, fun n => (hgraph' n).trans (hgraph n), ?_⟩
    · intro n
      rw [foldl_cons, hmem', hmem, mem_cons]
      by_cases hnm : n = m
      · subst hnm
        simp [hml]
      · rw [hnode n hnm]
        simp [hnm]
    · intro n hn
      rw [mem_cons, not_or] at hn
      rw [foldl_cons, hnode' n hn.2, hnode n hn.1]

/-- What stands before a node of a list. -/
theorem pair_sublist_iff {l₁ l₂ : List NodeId} {l : NodeId} (hnodup : (l₁ ++ l :: l₂).Nodup)
    (hne : c ≠ l) : List.Sublist [c, l] (l₁ ++ l :: l₂) ↔ c ∈ l₁ := by
  constructor
  · intro hsub
    obtain ⟨x, y, hxy, hx, hy⟩ := sublist_append_iff.mp hsub
    cases x with
    | nil =>
      -- then `l` would stand again behind `c`
      rw [nil_append] at hxy
      subst hxy
      have hrest : List.Sublist [c, l] l₂ := by
        cases hy with
        | cons _ h => exact h
        | cons_cons _ _ => exact absurd rfl hne
      have hl : l ∈ l₂ := hrest.subset (by simp)
      exact absurd hl (nodup_cons.mp hnodup.of_append_right).1
    | cons a x =>
      have hca : c = a := (List.cons.inj hxy).1
      exact hx.subset (hca ▸ mem_cons_self)
  · intro hc
    exact (singleton_sublist.mpr hc).append
      (singleton_sublist.mpr (mem_cons_self : l ∈ l :: l₂))

/-- **Nodes are removed without children exactly when expired nodes follow theirs.** -/
theorem Ok.childlessRemovals_iff (h : Ok cfg s) (seconds : BitVec 32) :
    s.ChildlessRemovals seconds ↔ s.ExpiredAfterChildren := by
  have hcut : ∀ {l₁ l l₂}, s.nodelist = l₁ ++ l :: l₂ →
      l₁ ⊆ s.nodelist ∧ l₁.Nodup ∧ l ∉ l₁ := by
    intro l₁ l l₂ hlist
    have hnodup := hlist ▸ h.nodup
    refine ⟨hlist ▸ subset_append_left _ _, hnodup.of_append_left, ?_⟩
    exact fun hl => (nodup_append.mp hnodup).2.2 l hl l mem_cons_self rfl
  constructor
  · intro hremovals l hl hzero c hc hne hparent
    obtain ⟨l₁, l₂, hlist⟩ := append_of_mem hl
    obtain ⟨hsub, hnodup, hl₁⟩ := hcut hlist
    obtain ⟨-, hmem, hpar, -, hnode⟩ := h.toListed.foldl_visit seconds hsub hnodup
    have hgone : c ∈ l₁ ∧ (s.node c).lifetime = 0 := by
      by_contra hleft
      refine hremovals l₁ l l₂ hlist ?_ c ((hmem c).mpr ⟨hc, hleft⟩) hne ?_
      · rw [hnode l hl₁]
        exact hzero
      · rw [hpar]
        exact hparent
    refine ⟨hgone.2, ?_⟩
    rw [hlist]
    exact (pair_sublist_iff (hlist ▸ h.nodup) hne).mpr hgone.1
  · intro hexpired l₁ l l₂ hlist u hzero c hc hne hparent
    obtain ⟨hsub, hnodup, hl₁⟩ := hcut hlist
    obtain ⟨-, hmem, hpar, -, hnode⟩ := h.toListed.foldl_visit seconds hsub hnodup
    obtain ⟨hcs, hleft⟩ := (hmem c).mp hc
    rw [hpar] at hparent
    rw [hnode l hl₁] at hzero
    have hl : l ∈ s.nodelist := by
      rw [hlist]
      simp
    obtain ⟨hczero, hbefore⟩ := hexpired l hl hzero c hcs hne hparent
    rw [hlist] at hbefore
    exact hleft ⟨(pair_sublist_iff (hlist ▸ h.nodup) hne).mp hbefore, hczero⟩

theorem Ok.uipSrPeriodic (h : Ok cfg s) (hexpired : s.ExpiredAfterChildren) (seconds : BitVec 32) :
    Ok cfg (s.uipSrPeriodic seconds) := by
  obtain ⟨hlisted, hmem, hpar, hgraph, -⟩ :=
    h.toListed.foldl_visit seconds (List.Subset.refl s.nodelist) h.nodup
  refine ⟨hlisted, ?_⟩
  intro n hn p hp
  obtain ⟨hns, hleft⟩ := (hmem n).mp hn
  rw [UipSr.uipSrPeriodic, hpar] at hp
  obtain ⟨hps, hg⟩ := h.parent n hns p hp
  refine ⟨(hmem p).mpr ⟨hps, ?_⟩, ((hgraph p).trans hg).trans (hgraph n).symm⟩
  rintro ⟨-, hzero⟩
  have hne : n ≠ p := by
    rintro rfl
    exact hleft ⟨hns, hzero⟩
  exact hleft ⟨hns, (hexpired p hps hzero n hns hne hp).1⟩

/-! ## Runs -/

/-- At a call of `uip_sr_periodic`, the children of every expired node are expired and stand
before it in the list. -/
def LeavesInOrder (s : UipSr) : SrEvent → Prop
  | .periodic _ => s.ExpiredAfterChildren
  | _ => True

instance (s : UipSr) : ∀ e, Decidable (s.LeavesInOrder e)
  | .periodic _ => inferInstanceAs (Decidable s.ExpiredAfterChildren)
  | .update .. | .expireParent .. => isTrue trivial

theorem Ok.step {e : SrEvent} (h : Ok cfg s) (horder : s.LeavesInOrder e)
    (hstep : s.step cfg e = some t) : Ok cfg t := by
  cases e with
  | update driver graph child parent lifetime =>
    cases hstep
    exact (h.uipSrUpdateNode driver graph child parent lifetime).1
  | expireParent driver graph child parent =>
    cases hstep
    exact h.uipSrExpireParent driver graph child parent
  | periodic seconds =>
    cases hstep
    exact h.uipSrPeriodic horder seconds

theorem ok_init (cfg : SrConfig) : Ok cfg init := by
  refine ⟨⟨?_, ?_, nodup_nil, rfl⟩, ?_⟩ <;> simp [init]

/-- **The tree of source routes.** In every run in which expired nodes leave after their
children, the number of nodes is that of the list, parents are listed, an update leaves
every reachable node reachable, and the next call of `uip_sr_periodic` removes no parent
exactly if it meets the condition too. -/
theorem source_routing_tree (cfg : SrConfig) {es : List SrEvent}
    (horder : Along (step cfg) LeavesInOrder init es)
    (hrun : run (step cfg) init es = some s) :
    s.numNodes = s.nodelist.length ∧
      (∀ n ∈ s.nodelist, ∀ p, (s.node n).parent = some p → p ∈ s.nodelist) ∧
      (∀ driver graph child parent lifetime,
        let t := (s.uipSrUpdateNode cfg driver graph child parent lifetime).2
        ∀ graph', ∀ n ∈ s.nodelist, s.Reachable driver graph' n →
          n ∈ t.nodelist ∧ t.Reachable driver graph' n) ∧
      ∀ seconds, s.ChildlessRemovals seconds ↔ s.ExpiredAfterChildren := by
  have h : Ok cfg s := run_induction (Ok cfg) (fun _ _ _ hP hi hstep => hi.step hP hstep)
    (ok_init cfg) horder hrun
  refine ⟨h.counted, fun n hn p hp => (h.parent n hn p hp).1, ?_, h.childlessRemovals_iff⟩
  intro driver graph child parent lifetime t graph' n hn hreach
  obtain ⟨-, hext⟩ := h.uipSrUpdateNode driver graph child parent lifetime
  exact ⟨hext.mem hn, hext.reachable graph' n hn hreach⟩

/-- An address of the network of the root, by its last byte. -/
def srAddr (k : BitVec 8) : UipIpaddr := ⟨List.replicate 15 0 ++ [k], rfl⟩

/-- The root has address 1 and each DAG its prefix. -/
def srDriver : RoutingDriver := ⟨fun _ => srAddr 1, srAddr 1⟩

/-- Node 3 announces its parent 2, which announces the root, and node 3 is silent then. -/
def announced : List SrEvent :=
  [.update srDriver 0 (srAddr 3) (some (srAddr 2)) 1,
    .update srDriver 0 (srAddr 2) (some (srAddr 1)) 60, .periodic 1, .periodic 1]

theorem source_routing_tree_announced :
    ∃ s, run (step ⟨4, 60⟩) init announced = some s ∧ s.nodelist = [0, 2] ∧
      s.numNodes = s.nodelist.length ∧
      ∀ n ∈ s.nodelist, ∀ p, (s.node n).parent = some p → p ∈ s.nodelist := by
  obtain ⟨s, hrun⟩ : ∃ s, run (step ⟨4, 60⟩) init announced = some s := ⟨_, rfl⟩
  have hlist : (run (step ⟨4, 60⟩) init announced).map (·.nodelist) = some [0, 2] := by
    decide +kernel
  rw [hrun] at hlist
  have horder : Along (step ⟨4, 60⟩) LeavesInOrder init announced := by decide +kernel
  have hprop := source_routing_tree ⟨4, 60⟩ horder hrun
  exact ⟨s, hrun, Option.some.inj hlist, hprop.1, hprop.2.1⟩

/-- **An expired node is removed with a child in the list.** Node 3 announces its parent 2 for
longer than node 2 announces the root, and is left with a parent that is not listed. -/
theorem expired_parent_removed :
    (run (step ⟨4, 60⟩) init
        [.update srDriver 0 (srAddr 2) (some (srAddr 1)) 1,
          .update srDriver 0 (srAddr 3) (some (srAddr 2)) 60, .periodic 1, .periodic 1]).map
      (fun s => (s.nodelist, (s.node 2).parent)) = some ([0, 2], some 1) := by
  decide +kernel

end UipSr

end Asap.Ipv6
