import Asap.Ipv6.SourceRouting
import Asap.Lib.Pool
import Asap.Tsch.NbrTable
import Mathlib

/-!
# The table of routes

A route is a block of a pool, in a list with the most recently looked up routes first. Each
neighbor that is a next hop has a place in the neighbor table `nbr_routes`, with a list of
links to the routes through it; links are blocks of a second pool. A place is locked as long
as it is in the table, and taken out with its last route.

The neighbor table is shared. Other modules add addresses to it, which may need the place of
a neighbor; then the routes through that neighbor are removed.

## Main definitions

* `RouteTable` — routes, links and the neighbor table.
* `uipDs6RouteLookup`, `uipDs6RouteAdd`, `uipDs6RouteRm`, `rmRoutelist` — the operations.
* `RouteTable.Ok` — the two kinds of lists agree, and neighbors are locked that have routes.
-/

namespace Asap.Ipv6

open Asap.Lib Asap.Tsch Function List Option NbrTables

/-- A pointer to a block of `routememb`. -/
abbrev RouteId := ℕ

/-- A pointer to a block of `neighborroutememb`. -/
abbrev LinkId := ℕ

/-- `uip_ds6_route_t`, with the place of its neighbor for the pointer to it, and the address
the next hop had when the route was added, which the program does not keep. -/
structure Ds6Route where
  ipaddr : UipIpaddr
  length : BitVec 8
  neighborRoutes : ℕ
  nexthop : LinkAddr

/-- The routes, the links of each neighbor, and the neighbor table. -/
structure RouteTable where
  route : RouteId → Ds6Route
  /-- the blocks of `routememb`, in use or not -/
  routemem : RouteId → Bool
  routelist : List RouteId
  /-- the route of a link -/
  neighborRoute : LinkId → RouteId
  /-- the blocks of `neighborroutememb`, in use or not -/
  neighborroutemem : LinkId → Bool
  routeList : ℕ → List LinkId
  numRoutes : ℤ
  nbr : NbrTables

/-- `UIP_DS6_ROUTE_NB`, whether the least recently used route is replaced, and which table
`nbr_routes` is. -/
structure RouteConfig where
  routeNb : ℕ
  removeLeastRecentlyUsed : Bool
  nbr : NbrTableConfig
  nbrRoutes : ℕ
  nbrRoutes_lt : nbrRoutes < 8

/-- The neighbor cache: `uip_ds6_nbr_lladdr_from_ipaddr` and the other way. -/
structure NbrCache where
  lladdrFromIpaddr : UipIpaddr → Option LinkAddr
  ipaddrFromLladdr : LinkAddr → Option UipIpaddr

namespace RouteTable

/-- `uip_ds6_route_init` -/
def init : RouteTable where
  route := fun _ => ⟨⟨List.replicate 16 0, length_sixteen_zeros⟩, 0, 0, fun _ => 0⟩
  routemem := fun _ => false
  routelist := []
  neighborRoute := fun _ => 0
  neighborroutemem := fun _ => false
  routeList := fun _ => []
  numRoutes := 0
  nbr := .init

/-! ## Lookup -/

/-- `uip_ipaddr_prefixcmp`, which compares whole bytes. -/
def uipIpaddrPrefixcmp (addr addr' : UipIpaddr) (length : BitVec 8) : Bool :=
  addr.1.take (length.toNat / 8) = addr'.1.take (length.toNat / 8)

/-- The loop of `uip_ds6_route_lookup`: the last of the longest matches, unless there is a
total match. -/
def lookupLoop (s : RouteTable) (addr : UipIpaddr) :
    List RouteId → BitVec 8 → Option RouteId → Option RouteId
  | [], _, found => found
  | r :: rs, longestmatch, found =>
    let length := (s.route r).length
    if longestmatch ≤ length ∧ uipIpaddrPrefixcmp addr (s.route r).ipaddr length then
      if length = 128 then some r else s.lookupLoop addr rs length (some r)
    else s.lookupLoop addr rs longestmatch found

/-- `list_push` -/
def pushRoute (s : RouteTable) (r : RouteId) : RouteTable :=
  { s with routelist := r :: s.routelist.erase r }

/-- `uip_ds6_route_lookup`: the route, which is the first of the list afterwards. -/
def uipDs6RouteLookup (s : RouteTable) (addr : UipIpaddr) : Option RouteId × RouteTable :=
  match s.lookupLoop addr s.routelist 0 none with
  | none => (none, s)
  | some r => (some r, if s.routelist.head? = some r then s else s.pushRoute r)

/-! ## Removal -/

/-- The link to a route in the list of its neighbor. -/
def linkOf (s : RouteTable) (r : RouteId) : Option LinkId :=
  (s.routeList (s.route r).neighborRoutes).find? fun b => s.neighborRoute b = r

section

variable (cfg : RouteConfig)

/-- `uip_ds6_route_rm` -/
def uipDs6RouteRm (s : RouteTable) (r : RouteId) : RouteTable :=
  let i := (s.route r).neighborRoutes
  let link := s.linkOf r
  let links := link.elim (s.routeList i) (s.routeList i).erase
  { s with
    routelist := s.routelist.erase r
    routeList := Function.update s.routeList i links
    nbr := if links = [] then s.nbr.nbrTableRemove cfg.nbrRoutes i else s.nbr
    routemem := Function.update s.routemem r false
    neighborroutemem := link.elim s.neighborroutemem fun b => Function.update s.neighborroutemem b false
    numRoutes := s.numRoutes - 1 }

/-- The loop of `rm_routelist`, as many rounds as there are links. -/
def rmLoop (i : ℕ) : ℕ → RouteTable → RouteTable
  | 0, s => s
  | n + 1, s =>
    match s.routeList i with
    | [] => s
    | b :: _ => rmLoop i n (s.uipDs6RouteRm cfg (s.neighborRoute b))

/-- `rm_routelist` -/
def rmRoutelist (s : RouteTable) (i : ℕ) : RouteTable :=
  let s := rmLoop cfg i (s.routeList i).length s
  { s with nbr := s.nbr.nbrTableRemove cfg.nbrRoutes i }

/-- `uip_ds6_route_rm_by_nexthop`; where the next hop is not known, the null address is looked
for. -/
def uipDs6RouteRmByNexthop (s : RouteTable) (cache : NbrCache)
    (nexthop : UipIpaddr) : RouteTable :=
  match s.nbr.nbrTableGetFromLladdr cfg.nbrRoutes
      ((cache.lladdrFromIpaddr nexthop).getD fun _ => 0) with
  | none => s
  | some i => s.rmRoutelist cfg i

end

/-! ## The neighbor table -/

/-- `rm_routelist_callback`, where a neighbor is evicted that is in `nbr_routes`. -/
def rmRoutelistCallback (cfg : RouteConfig) (s : RouteTable) : Option ℕ → RouteTable
  | none => s
  | some j => if s.nbr.used cfg.nbrRoutes j then s.rmRoutelist cfg j else s

/-- `nbr_table_add_lladdr` with the callback of `nbr_routes` for a neighbor that is evicted. All
bits of the neighbor are cleared after its callback. -/
def nbrTableAdd (cfg : RouteConfig) (s : RouteTable) (table : ℕ) (addr : LinkAddr)
    (reason : NbrTableReason) (candidate : Option LinkAddr) : Option (ℕ × RouteTable) :=
  (s.nbr.nbrTableAddLladdr cfg.nbr table addr reason candidate).map fun (i, nbr) =>
    let evicted := NbrTables.evicted cfg.nbr s.nbr addr reason candidate
    (i, { s.rmRoutelistCallback cfg evicted with nbr := nbr })

/-! ## Addition -/

section

variable (cfg : RouteConfig) (s : RouteTable)

/-- The place of a next hop, with an empty list where it is new. -/
def neighborRoutesOf (lladdr : LinkAddr) :
    Option (ℕ × RouteTable) :=
  match s.nbr.nbrTableGetFromLladdr cfg.nbrRoutes lladdr with
  | some i => some (i, s)
  | none =>
    (s.nbrTableAdd cfg cfg.nbrRoutes lladdr .route none).map fun (i, s) =>
      (i, { s with routeList := Function.update s.routeList i [] })

/-- The end of `uip_ds6_route_add`: a route and its link are allocated. -/
def insertRoute (lladdr : LinkAddr) (ipaddr : UipIpaddr)
    (length : BitVec 8) : Option RouteId × RouteTable :=
  match s.neighborRoutesOf cfg lladdr with
  | none => (none, s)
  | some (i, s) =>
    match membAlloc cfg.routeNb s.routemem with
    | none => (none, s)
    | some r =>
      let s := { s.pushRoute r with routemem := Function.update s.routemem r true }
      match membAlloc cfg.routeNb s.neighborroutemem with
      | none => (none, { s with routemem := Function.update s.routemem r false })
      | some b =>
        (some r,
          { s with
            neighborroutemem := Function.update s.neighborroutemem b true
            neighborRoute := Function.update s.neighborRoute b r
            routeList := Function.update s.routeList i ((s.routeList i).erase b ++ [b])
            route := Function.update s.route r ⟨ipaddr, length, i, lladdr⟩
            numRoutes := s.numRoutes + 1
            nbr := s.nbr.setLocked cfg.nbrRoutes i true })

/-- The least recently used route is removed where there is no room for another one. -/
def makeRoom : Option RouteTable :=
  if s.numRoutes = cfg.routeNb then
    (if cfg.removeLeastRecentlyUsed then s.routelist.getLast? else none).map (s.uipDs6RouteRm cfg)
  else some s

/-- `uip_ds6_route_add` -/
def uipDs6RouteAdd (cache : NbrCache) (ipaddr : UipIpaddr)
    (length : BitVec 8) (nexthop : UipIpaddr) : Option RouteId × RouteTable :=
  match cache.lladdrFromIpaddr nexthop with
  | none => (none, s)
  | some lladdr =>
    let add := fun (s : RouteTable) =>
      match s.makeRoom cfg with
      | none => (none, s)
      | some s => s.insertRoute cfg lladdr ipaddr length
    match s.uipDs6RouteLookup ipaddr with
    | (none, s) => add s
    | (some r, s) =>
      if cache.ipaddrFromLladdr (s.nbr.lladdr (s.route r).neighborRoutes) = some nexthop then
        (some r, s)
      else add (s.uipDs6RouteRm cfg r)

end

end RouteTable

/-- The operations, and what other modules do with the neighbor table. -/
inductive RouteEvent where
  | lookup (addr : UipIpaddr)
  | add (cache : NbrCache) (ipaddr : UipIpaddr) (length : BitVec 8) (nexthop : UipIpaddr)
  | rm (r : RouteId)
  | rmByNexthop (cache : NbrCache) (nexthop : UipIpaddr)
  | nbrAdd (table : ℕ) (addr : LinkAddr) (reason : NbrTableReason) (candidate : Option LinkAddr)
  | nbrRemove (table i : ℕ)
  | nbrLock (table i : ℕ) (value : Bool)

/-- The state after an event. Routes are removed that are in the list, and other modules have
other tables. -/
def RouteTable.step (cfg : RouteConfig) (s : RouteTable) : RouteEvent → Option RouteTable
  | .lookup addr => some (s.uipDs6RouteLookup addr).2
  | .add cache ipaddr length nexthop => some (s.uipDs6RouteAdd cfg cache ipaddr length nexthop).2
  | .rm r => if r ∈ s.routelist then some (s.uipDs6RouteRm cfg r) else none
  | .rmByNexthop cache nexthop => some (s.uipDs6RouteRmByNexthop cfg cache nexthop)
  | .nbrAdd table addr reason candidate =>
    if table = cfg.nbrRoutes then none
    else some ((s.nbrTableAdd cfg table addr reason candidate).elim s Prod.snd)
  | .nbrRemove table i =>
    if table = cfg.nbrRoutes then none else some { s with nbr := s.nbr.nbrTableRemove table i }
  | .nbrLock table i value =>
    if table = cfg.nbrRoutes then none else some { s with nbr := s.nbr.setLocked table i value }

namespace RouteTable

variable {cfg : RouteConfig} {s t : RouteTable} {r : RouteId} {b : LinkId} {i j : ℕ}

/-! ## The invariant -/

section

variable (cfg : RouteConfig) (s : RouteTable)

/-- Routes and links in use are those of the lists, and counted, and there is one link to each
route, in the list of its neighbor. -/
structure Lists : Prop where
  routes : InUse cfg.routeNb s.routemem s.routelist
  counted : s.numRoutes = s.routelist.length
  links : ∃ l, InUse cfg.routeNb s.neighborroutemem l ∧ (l.map s.neighborRoute).Perm s.routelist ∧
    ∀ i b, b ∈ s.routeList i ↔ b ∈ l ∧ (s.route (s.neighborRoute b)).neighborRoutes = i
  nodup : ∀ i, (s.routeList i).Nodup

/-- A neighbor is in `nbr_routes`, and locked, that has routes. -/
structure Marked (i : ℕ) : Prop where
  used : s.nbr.used cfg.nbrRoutes i ↔ s.routeList i ≠ []
  locked : s.nbr.locked cfg.nbrRoutes i ↔ s.routeList i ≠ []

/-- The two kinds of lists agree with each other and with the neighbor table. -/
structure Ok : Prop extends Lists cfg s where
  nbr : s.nbr.Ok
  marked : ∀ i, Marked cfg s i
  nexthop : ∀ r ∈ s.routelist, s.nbr.lladdr (s.route r).neighborRoutes = (s.route r).nexthop

end

theorem init_ok : Ok cfg init where
  routes := .nil _
  counted := rfl
  links := ⟨[], .nil _, .refl _, by simp [init]⟩
  nodup := by simp [init]
  nbr := NbrTables.init_ok
  marked i := ⟨by simp [init, NbrTables.init, NbrTables.used],
    by simp [init, NbrTables.init, NbrTables.locked]⟩
  nexthop := by simp [init]

/-- A route is in the list of one neighbor, its own. -/
theorem Lists.mem_routeList (h : Lists cfg s) (hr : r ∈ s.routelist) (i : ℕ) :
    (∃ b ∈ s.routeList i, s.neighborRoute b = r) ↔ i = (s.route r).neighborRoutes := by
  obtain ⟨l, hl, hperm, hmem⟩ := h.links
  constructor
  · rintro ⟨b, hb, rfl⟩
    exact ((hmem i b).mp hb).2.symm
  · rintro rfl
    obtain ⟨b, hb, heq⟩ := mem_map.mp (hperm.mem_iff.mpr hr)
    exact ⟨b, (hmem _ b).mpr ⟨hb, by rw [heq]⟩, heq⟩

/-- What is in the list of a neighbor is a link to a route through it. -/
theorem Lists.route_of_mem (h : Lists cfg s) (hb : b ∈ s.routeList i) :
    s.neighborRoute b ∈ s.routelist ∧ (s.route (s.neighborRoute b)).neighborRoutes = i := by
  obtain ⟨l, -, hperm, hmem⟩ := h.links
  obtain ⟨hbl, hi⟩ := (hmem i b).mp hb
  exact ⟨hperm.mem_iff.mp (mem_map_of_mem hbl), hi⟩

/-! ## Lookup -/

theorem lookupLoop_mem {addr : UipIpaddr} {rs : List RouteId} {longestmatch : BitVec 8}
    {found : Option RouteId} (h : s.lookupLoop addr rs longestmatch found = some r) :
    r ∈ rs ∨ found = some r := by
  induction rs generalizing longestmatch found with
  | nil => exact Or.inr h
  | cons r' rs ih =>
    simp only [lookupLoop] at h
    split_ifs at h
    · cases h
      exact Or.inl mem_cons_self
    · rcases ih h with hmem | hfound
      · exact Or.inl (mem_cons_of_mem _ hmem)
      · cases hfound
        exact Or.inl mem_cons_self
    · exact (ih h).imp_left (mem_cons_of_mem _)

/-- The order of the list is no part of the invariant. -/
theorem Ok.perm (h : Ok cfg s) {l : List RouteId} (hl : s.routelist.Perm l) :
    Ok cfg { s with routelist := l } where
  routes := h.routes.perm hl
  counted := by rw [h.counted, hl.length_eq]
  links := by
    obtain ⟨links, hlinks, hperm, hmem⟩ := h.links
    exact ⟨links, hlinks, hperm.trans hl, hmem⟩
  nodup := h.nodup
  nbr := h.nbr
  marked i := ⟨(h.marked i).used, (h.marked i).locked⟩
  nexthop r hr := h.nexthop r (hl.mem_iff.mpr hr)

/-- What a lookup does to the list. -/
theorem lookup_cases (s : RouteTable) (addr : UipIpaddr) :
    (s.uipDs6RouteLookup addr = (none, s)) ∨
      ∃ r ∈ s.routelist, s.uipDs6RouteLookup addr = (some r, s.pushRoute r) := by
  simp only [uipDs6RouteLookup]
  split
  · exact Or.inl rfl
  · rename_i r hloop
    rcases lookupLoop_mem hloop with hr | hnone
    · refine Or.inr ⟨r, hr, ?_⟩
      split_ifs with hhead
      · obtain ⟨rs, hrs⟩ := List.head?_eq_some_iff.mp hhead
        have hsame : r :: s.routelist.erase r = s.routelist := by
          rw [hrs, erase_cons_head]
        rw [pushRoute, hsame]
      · rfl
    · cases hnone

theorem Ok.pushRoute (h : Ok cfg s) (hr : r ∈ s.routelist) : Ok cfg (s.pushRoute r) :=
  h.perm (perm_cons_erase hr)

theorem Ok.lookup (h : Ok cfg s) (addr : UipIpaddr) : Ok cfg (s.uipDs6RouteLookup addr).2 := by
  rcases s.lookup_cases addr with heq | ⟨r, hr, heq⟩
  · rw [heq]
    exact h
  · rw [heq]
    exact h.pushRoute hr

/-! ## Removal -/

/-- The neighbor table without a neighbor of `nbr_routes`. -/
theorem nbr_remove {nbr : NbrTables} (h : nbr.Ok) (i : ℕ) :
    (nbr.nbrTableRemove cfg.nbrRoutes i).Ok ∧
      (∀ j, (nbr.nbrTableRemove cfg.nbrRoutes i).used cfg.nbrRoutes j =
        if j = i then false else nbr.used cfg.nbrRoutes j) ∧
      ∀ j, (nbr.nbrTableRemove cfg.nbrRoutes i).locked cfg.nbrRoutes j =
        if j = i then false else nbr.locked cfg.nbrRoutes j := by
  refine ⟨h.nbrTableRemove _ i, ?_, ?_⟩
  · intro j
    simp [used_nbrTableRemove]
  · intro j
    simp [locked_nbrTableRemove cfg.nbrRoutes_lt]

/-- There is a link to a route. -/
theorem Lists.linkOf (h : Lists cfg s) (hr : r ∈ s.routelist) :
    ∃ b ∈ s.routeList (s.route r).neighborRoutes, s.linkOf r = some b ∧ s.neighborRoute b = r := by
  obtain ⟨b, hb, heq⟩ := (h.mem_routeList hr _).mpr rfl
  cases hlink : s.linkOf r with
  | none =>
    have hnone := List.find?_eq_none.mp hlink b hb
    simp [heq] at hnone
  | some b' => exact ⟨b', mem_of_find?_eq_some hlink, rfl, by simpa using List.find?_some hlink⟩

theorem Lists.rm (h : Lists cfg s) (hr : r ∈ s.routelist) : Lists cfg (s.uipDs6RouteRm cfg r) := by
  obtain ⟨b, hb, hlink, hroute⟩ := h.linkOf hr
  obtain ⟨l, hl, hperm, hmem⟩ := h.links
  have hbl : b ∈ l := ((hmem _ b).mp hb).1
  refine ⟨h.routes.free r, ?_, ⟨l.erase b, ?_, ?_, ?_⟩, ?_⟩
  · have hpos := length_pos_of_mem hr
    simp only [uipDs6RouteRm, h.counted, length_erase_of_mem hr]
    omega
  · simpa [uipDs6RouteRm, hlink] using hl.free b
  · have hcons : (r :: (l.erase b).map s.neighborRoute).Perm (r :: s.routelist.erase r) :=
      calc (r :: (l.erase b).map s.neighborRoute)
          = (b :: l.erase b).map s.neighborRoute := by rw [map_cons, hroute]
        List.Perm _ (l.map s.neighborRoute) := (perm_cons_erase hbl).symm.map _
        List.Perm _ s.routelist := hperm
        List.Perm _ (r :: s.routelist.erase r) := perm_cons_erase hr
    exact hcons.cons_inv
  · intro j b'
    simp only [uipDs6RouteRm, hlink, elim_some, hl.nodup.mem_erase_iff]
    by_cases hj : j = (s.route r).neighborRoutes
    · subst hj
      rw [update_self, (h.nodup _).mem_erase_iff, hmem, and_assoc]
    · rw [update_of_ne hj, hmem, and_assoc]
      constructor
      · rintro ⟨hb', hi⟩
        refine ⟨?_, hb', hi⟩
        -- the link to the route is in the list of its own neighbor
        rintro rfl
        exact hj (by rw [← hi, hroute])
      · exact And.right
  · intro j
    simp only [uipDs6RouteRm, hlink, elim_some]
    by_cases hj : j = (s.route r).neighborRoutes
    · subst hj
      rw [update_self]
      exact (h.nodup _).erase b
    · rw [update_of_ne hj]
      exact h.nodup j

theorem Ok.rm (h : Ok cfg s) (hr : r ∈ s.routelist) : Ok cfg (s.uipDs6RouteRm cfg r) := by
  obtain ⟨b, hb, hlink, hroute⟩ := h.linkOf hr
  obtain ⟨hnbr, hused, hlocked⟩ := @nbr_remove cfg _ h.nbr (s.route r).neighborRoutes
  refine ⟨h.toLists.rm hr, ?_, ?_, ?_⟩
  · simp only [uipDs6RouteRm]
    split_ifs
    · exact hnbr
    · exact h.nbr
  · intro j
    have hj := h.marked j
    by_cases hji : j = (s.route r).neighborRoutes
    · subst hji
      have hne : s.routeList (s.route r).neighborRoutes ≠ [] := ne_nil_of_mem hb
      constructor
      · simp only [uipDs6RouteRm, hlink, elim_some, update_self]
        split_ifs with hlinks
        · simp [hused, hlinks]
        · simpa [hlinks] using hj.used.mpr hne
      · simp only [uipDs6RouteRm, hlink, elim_some, update_self]
        split_ifs with hlinks
        · simp [hlocked, hlinks]
        · simpa [hlinks] using hj.locked.mpr hne
    · constructor
      · simp only [uipDs6RouteRm, update_of_ne hji]
        split_ifs
        · rw [hused, if_neg hji, hj.used]
        · exact hj.used
      · simp only [uipDs6RouteRm, update_of_ne hji]
        split_ifs
        · rw [hlocked, if_neg hji, hj.locked]
        · exact hj.locked
  · intro r' hr'
    simp only [uipDs6RouteRm]
    split_ifs <;> exact h.nexthop r' (mem_of_mem_erase hr')

/-- What removing routes through a neighbor leaves as it is. -/
structure Dropped (s t : RouteTable) (i : ℕ) : Prop where
  route : t.route = s.route
  routelist : t.routelist.Sublist s.routelist
  routeList : ∀ j ≠ i, t.routeList j = s.routeList j

theorem Dropped.refl (s : RouteTable) (i : ℕ) : Dropped s s i := ⟨rfl, .refl _, fun _ _ => rfl⟩

theorem Dropped.rm (cfg : RouteConfig) (s : RouteTable) (r : RouteId) :
    Dropped s (s.uipDs6RouteRm cfg r) (s.route r).neighborRoutes := by
  refine ⟨rfl, erase_sublist, ?_⟩
  intro j hj
  simp [uipDs6RouteRm, hj]

theorem Dropped.trans {u : RouteTable} (h : Dropped s t i) (h' : Dropped t u i) : Dropped s u i :=
  ⟨h'.route.trans h.route, h'.routelist.trans h.routelist,
    fun j hj => (h'.routeList j hj).trans (h.routeList j hj)⟩

/-- **All routes through a neighbor are removed** by as many rounds as it has links. -/
theorem Ok.rmLoop (h : Ok cfg s) {n : ℕ} (hn : (s.routeList i).length = n) :
    Ok cfg (rmLoop cfg i n s) ∧ (RouteTable.rmLoop cfg i n s).routeList i = [] ∧
      Dropped s (RouteTable.rmLoop cfg i n s) i := by
  induction n generalizing s with
  | zero => exact ⟨h, eq_nil_of_length_eq_zero hn, .refl s i⟩
  | succ n ih =>
    simp only [RouteTable.rmLoop]
    split
    · rename_i hnil
      simp [hnil] at hn
    · rename_i b bs hcons
      have hb : b ∈ s.routeList i := hcons ▸ mem_cons_self
      obtain ⟨hr, hi⟩ := h.route_of_mem hb
      obtain ⟨b', hb', hlink, -⟩ := h.linkOf hr
      have hlength :
          ((s.uipDs6RouteRm cfg (s.neighborRoute b)).routeList i).length = n := by
        rw [hi] at hb'
        simp only [uipDs6RouteRm, hi, hlink, elim_some, update_self,
          length_erase_of_mem hb', hn]
        rfl
      obtain ⟨hok, hnil, hdropped⟩ := ih (h.rm hr) hlength
      have hrm := Dropped.rm cfg s (s.neighborRoute b)
      rw [hi] at hrm
      exact ⟨hok, hnil, hrm.trans hdropped⟩

theorem Ok.rmRoutelist (h : Ok cfg s) (i : ℕ) : Ok cfg (s.rmRoutelist cfg i) ∧
    (s.rmRoutelist cfg i).routeList i = [] ∧ Dropped s (s.rmRoutelist cfg i) i := by
  obtain ⟨hok, hnil, hdropped⟩ := h.rmLoop (i := i) rfl
  obtain ⟨hnbr, hused, hlocked⟩ := @nbr_remove cfg _ hok.nbr i
  refine ⟨⟨⟨hok.routes, hok.counted, hok.links, hok.nodup⟩, hnbr, ?_, hok.nexthop⟩, hnil,
    ⟨hdropped.route, hdropped.routelist, hdropped.routeList⟩⟩
  intro j
  by_cases hji : j = i
  · subst hji
    constructor
    · simp [RouteTable.rmRoutelist, hused, hnil]
    · simp [RouteTable.rmRoutelist, hlocked, hnil]
  · constructor
    · simpa [RouteTable.rmRoutelist, hused, hji] using (hok.marked j).used
    · simpa [RouteTable.rmRoutelist, hlocked, hji] using (hok.marked j).locked

theorem Ok.rmByNexthop (h : Ok cfg s) (cache : NbrCache) (nexthop : UipIpaddr) :
    Ok cfg (s.uipDs6RouteRmByNexthop cfg cache nexthop) := by
  simp only [uipDs6RouteRmByNexthop]
  split
  · exact h
  · exact (h.rmRoutelist _).1

/-! ## The neighbor table -/

/-- The place of a neighbor in `nbr_routes`, which may have no routes yet. -/
structure Entry (cfg : RouteConfig) (s : RouteTable) (lladdr : LinkAddr) (i : ℕ) : Prop
    extends Lists cfg s where
  nbr : s.nbr.Ok
  marked : ∀ j ≠ i, Marked cfg s j
  nexthop : ∀ r ∈ s.routelist, s.nbr.lladdr (s.route r).neighborRoutes = (s.route r).nexthop
  listed : i ∈ s.nbr.nbrTableKeys
  addr : s.nbr.lladdr i = lladdr

/-- The routes when the place of an address is given to it. -/
theorem Ok.rmRoutelistCallback {nbr : NbrTables} {table : ℕ} {addr : LinkAddr}
    {reason : NbrTableReason} {candidate : Option LinkAddr} (h : Ok cfg s)
    (hadd : s.nbr.nbrTableAddLladdr cfg.nbr table addr reason candidate = some (i, nbr))
    (hu : s.rmRoutelistCallback cfg (NbrTables.evicted cfg.nbr s.nbr addr reason candidate) = t) :
    Lists cfg t ∧ Dropped s t i ∧
      ((t = s ∧ i ∈ s.nbr.nbrTableKeys ∧ s.nbr.lladdr i = addr) ∨
        (∀ j ∈ s.nbr.nbrTableKeys, s.nbr.lladdr j ≠ addr) ∧ t.routeList i = [] ∧
          nbr.locked cfg.nbrRoutes i = false) := by
  have hnil : s.nbr.used cfg.nbrRoutes i = false → s.routeList i = [] := by
    intro hused
    by_contra hne
    have htrue := (h.marked i).used.mpr hne
    simp [hused] at htrue
  subst hu
  rcases h.nbr.evicted_spec hadd with ⟨hi, haddr, hnone⟩ | ⟨hnew, ⟨hi, hnone, hlocked⟩ | ⟨hsome, hlocked⟩⟩
  · rw [hnone]
    exact ⟨h.toLists, .refl s i, Or.inl ⟨rfl, hi, haddr⟩⟩
  · rw [hnone]
    have hempty : s.routeList i = [] := by
      apply hnil
      simp [NbrTables.used, h.nbr.unlisted i hi]
    refine ⟨h.toLists, .refl s i, Or.inr ⟨hnew, hempty, ?_⟩⟩
    have hiff := (h.marked i).locked
    simpa [NbrTables.locked, hlocked, RouteTable.rmRoutelistCallback, hempty] using hiff
  · rw [hsome]
    have hunlocked : nbr.locked cfg.nbrRoutes i = false := by simp [NbrTables.locked, hlocked]
    simp only [RouteTable.rmRoutelistCallback]
    split_ifs with hused
    · obtain ⟨hok, hempty, hdropped⟩ := h.rmRoutelist i
      exact ⟨hok.toLists, hdropped, Or.inr ⟨hnew, hempty, hunlocked⟩⟩
    · exact ⟨h.toLists, .refl s i, Or.inr ⟨hnew, hnil (by simpa using hused), hunlocked⟩⟩

/-- **An address is added to the neighbor table**, perhaps in the place of a neighbor whose
routes are removed. -/
theorem Ok.nbrTableAdd {table : ℕ} {addr : LinkAddr} {reason : NbrTableReason}
    {candidate : Option LinkAddr} (h : Ok cfg s)
    (hadd : s.nbrTableAdd cfg table addr reason candidate = some (i, t)) :
    Entry cfg t addr i ∧ t.routelist.Sublist s.routelist ∧
      t.nbr.used cfg.nbrRoutes i = (decide (table = cfg.nbrRoutes) || t.routeList i ≠ []) ∧
      (t.nbr.locked cfg.nbrRoutes i ↔ t.routeList i ≠ []) ∧
      (s.nbr.nbrTableGetFromLladdr cfg.nbrRoutes addr = none → t.routeList i = []) := by
  obtain ⟨⟨k, nbr⟩, hnbr, heq⟩ := map_eq_some_iff.mp hadd
  obtain ⟨rfl, rfl⟩ := Prod.mk.inj heq
  obtain ⟨hok, hlisted, haddr, hsame, hcase⟩ := h.nbr.addLladdr_spec hnbr
  have hlt := cfg.nbrRoutes_lt
  obtain ⟨u, hu⟩ : ∃ u, s.rmRoutelistCallback cfg
    (NbrTables.evicted cfg.nbr s.nbr addr reason candidate) = u := ⟨_, rfl⟩
  obtain ⟨hlists, hdropped, hplace⟩ := h.rmRoutelistCallback hnbr hu
  simp only [hu]
  have hentry : Entry cfg { u with nbr := nbr } addr k := by
    refine ⟨⟨hlists.routes, hlists.counted, hlists.links, hlists.nodup⟩, hok, ?_, ?_, hlisted, haddr⟩
    · intro j hj
      have hmarked := h.marked j
      constructor
      · simpa [NbrTables.used, hsame.usedMap j hj, hdropped.routeList j hj] using hmarked.used
      · simpa [NbrTables.locked, hsame.lockedMap j hj, hdropped.routeList j hj] using hmarked.locked
    · intro r hr
      have hr' := hdropped.routelist.subset hr
      have hnexthop := h.nexthop r hr'
      simp only [hdropped.route]
      by_cases hk : (s.route r).neighborRoutes = k
      · rcases hplace with ⟨rfl, -, haddr'⟩ | ⟨-, hnil, -⟩
        · rw [← hnexthop, hk, haddr, haddr']
        · obtain ⟨b, hb, -⟩ := (hlists.mem_routeList hr k).mpr (by rw [hdropped.route, hk])
          simp [hnil] at hb
      · rw [hsame.lladdr _ hk, hnexthop]
  refine ⟨hentry, hdropped.routelist, ?_⟩
  have hbit : (cfg.nbrRoutes = table) = (table = cfg.nbrRoutes) := propext eq_comm
  rcases hplace with ⟨rfl, hi, haddr'⟩ | ⟨hnew, hnil, hunlocked⟩
  · have hmarked := h.marked k
    cases hcase with
    | known _ _ hused hlocked =>
      refine ⟨?_, ?_, ?_⟩
      · have hrouted : u.nbr.used cfg.nbrRoutes k = decide (u.routeList k ≠ []) :=
          Bool.eq_iff_iff.mpr (by rw [decide_eq_true_iff, hmarked.used])
        simp only [NbrTables.used, hused, getLsbD_setBit _ hlt, hbit] at hrouted ⊢
        rw [hrouted]
        split_ifs with htable <;> simp [htable]
      · simpa [NbrTables.locked, hlocked] using hmarked.locked
      · intro hget
        by_contra hne
        have hused' := hmarked.used.mpr hne
        simp [NbrTables.nbrTableGetFromLladdr, ← haddr', h.nbr.indexFromLladdr_eq hi, hused'] at hget
    | new hnew _ _ => exact absurd haddr' (hnew k hi)
  · cases hcase with
    | known hi haddr' _ _ => exact absurd haddr' (hnew k hi)
    | new _ hused _ =>
      refine ⟨?_, by simp [hunlocked, hnil], fun _ => hnil⟩
      simp only [NbrTables.used, hused, getLsbD_setBit _ hlt, hbit, hnil]
      split_ifs with htable <;> simp [htable]

/-- Other modules add their own addresses. -/
theorem Entry.ok {lladdr : LinkAddr} (h : Entry cfg s lladdr i) (hi : Marked cfg s i) : Ok cfg s := by
  refine ⟨h.toLists, h.nbr, ?_, h.nexthop⟩
  intro j
  by_cases hj : j = i
  · exact hj ▸ hi
  · exact h.marked j hj

/-! ## Addition -/

theorem Ok.neighborRoutesOf {lladdr : LinkAddr} (h : Ok cfg s)
    (hof : s.neighborRoutesOf cfg lladdr = some (i, t)) :
    Entry cfg t lladdr i ∧ t.nbr.used cfg.nbrRoutes i ∧
      t.routelist.Sublist s.routelist := by
  simp only [RouteTable.neighborRoutesOf] at hof
  split at hof
  · rename_i k hget
    cases hof
    obtain ⟨hindex, hused⟩ := filter_eq_some_iff.mp hget
    obtain ⟨hi, haddr⟩ := indexFromLladdr_some hindex
    exact ⟨⟨h.toLists, h.nbr, fun j _ => h.marked j, h.nexthop, hi, haddr⟩, hused, .refl _⟩
  · rename_i hget
    obtain ⟨⟨k, u⟩, hadd, heq⟩ := map_eq_some_iff.mp hof
    obtain ⟨rfl, rfl⟩ := Prod.mk.inj heq
    obtain ⟨hentry, hsub, hused, -, hnil⟩ := h.nbrTableAdd hadd
    -- the list of the place is empty before it is initialised
    have hsame : update u.routeList k [] = u.routeList := by
      rw [← hnil hget, update_eq_self]
    rw [hsame]
    exact ⟨hentry, by simp [hused], hsub⟩

/-- The state after a route and its link are allocated. -/
def inserted (cfg : RouteConfig) (s : RouteTable) (r : RouteId) (b : LinkId) (entry : Ds6Route) :
    RouteTable :=
  { s.pushRoute r with
    routemem := Function.update s.routemem r true
    neighborroutemem := Function.update s.neighborroutemem b true
    neighborRoute := Function.update s.neighborRoute b r
    routeList := Function.update s.routeList entry.neighborRoutes
      ((s.routeList entry.neighborRoutes).erase b ++ [b])
    route := Function.update s.route r entry
    numRoutes := s.numRoutes + 1
    nbr := s.nbr.setLocked cfg.nbrRoutes entry.neighborRoutes true }

theorem Lists.inserted (h : Lists cfg s) (hr : membAlloc cfg.routeNb s.routemem = some r)
    (hb : membAlloc cfg.routeNb s.neighborroutemem = some b) (entry : Ds6Route) :
    Lists cfg (s.inserted cfg r b entry) := by
  obtain ⟨l, hl, hperm, hmem⟩ := h.links
  have hrfree : r ∉ s.routelist := by simp [h.routes.mem, (membAlloc_eq_some hr).2]
  have hbfree : b ∉ l := by simp [hl.mem, (membAlloc_eq_some hb).2]
  have hbnot : ∀ j, b ∉ s.routeList j := fun j hbj => hbfree ((hmem j b).mp hbj).1
  have hlist : (s.inserted cfg r b entry).routelist = r :: s.routelist := by
    simp [RouteTable.inserted, RouteTable.pushRoute, erase_of_not_mem hrfree]
  refine ⟨?_, ?_, ⟨b :: l, hl.alloc hb, ?_, ?_⟩, ?_⟩
  · rw [hlist]
    exact h.routes.alloc hr
  · rw [hlist, length_cons, Nat.cast_succ, ← h.counted]
    rfl
  · rw [hlist]
    have hmap : l.map (update s.neighborRoute b r) = l.map s.neighborRoute := by
      apply map_congr_left
      intro b' hb'
      have hne : b' ≠ b := fun heq => hbfree (heq ▸ hb')
      exact update_of_ne hne _ _
    simpa [RouteTable.inserted, hmap] using hperm
  · intro j b'
    have hother : b' ∈ l → s.neighborRoute b' ≠ r := fun hb' heq =>
      hrfree (hperm.mem_iff.mp (heq ▸ mem_map_of_mem hb'))
    simp only [RouteTable.inserted]
    by_cases hbb : b' = b
    · subst hbb
      by_cases hj : j = entry.neighborRoutes
      · simp [hj]
      · simp [hj, hbnot, Ne.symm hj]
    · rw [update_of_ne hbb, mem_cons, or_iff_right hbb]
      have hroute : (b' ∈ l ∧ (update s.route r entry (s.neighborRoute b')).neighborRoutes = j)
          ↔ b' ∈ s.routeList j := by
        rw [hmem]
        apply and_congr_right
        intro hb'
        rw [update_of_ne (hother hb')]
      rw [hroute]
      by_cases hj : j = entry.neighborRoutes
      · simp [hj, hbb, erase_of_not_mem (hbnot _)]
      · rw [update_of_ne hj]
  · intro j
    simp only [RouteTable.inserted]
    by_cases hj : j = entry.neighborRoutes
    · subst hj
      rw [update_self, erase_of_not_mem (hbnot _)]
      exact nodup_append'.mpr ⟨h.nodup _, by simp, by simpa using hbnot _⟩
    · rw [update_of_ne hj]
      exact h.nodup j

/-- **A route is added** where there is room for it, or the neighbor table has no place for its
next hop and nothing changes. -/
theorem Ok.insertRoute (h : Ok cfg s) (hroom : s.numRoutes ≠ cfg.routeNb) (lladdr : LinkAddr)
    (ipaddr : UipIpaddr) (length : BitVec 8) :
    s.insertRoute cfg lladdr ipaddr length = (none, s) ∨
      ∃ r t, s.insertRoute cfg lladdr ipaddr length = (some r, t) ∧ Ok cfg t ∧
        (∀ x ∈ t.routelist, x ∈ s.routelist ∨ r = x) ∧ r ∈ t.routelist := by
  simp only [RouteTable.insertRoute]
  split
  · exact Or.inl rfl
  · rename_i i u hof
    obtain ⟨hentry, hused, hsub⟩ := h.neighborRoutesOf hof
    have hle := hsub.length_le
    have hlt : u.routelist.length < cfg.routeNb := by
      have hmax := h.routes.length_le
      rw [h.counted] at hroom
      have hne : s.routelist.length ≠ cfg.routeNb := fun heq => hroom (by rw [heq])
      omega
    obtain ⟨r, hr⟩ := hentry.routes.exists_membAlloc hlt
    obtain ⟨b, hb⟩ : ∃ b, membAlloc cfg.routeNb u.neighborroutemem = some b := by
      obtain ⟨l, hl, hperm, -⟩ := hentry.links
      apply hl.exists_membAlloc
      rwa [← hperm.length_eq, length_map] at hlt
    have hins := hentry.toLists.inserted hr hb ⟨ipaddr, length, i, lladdr⟩
    have hrfree : r ∉ u.routelist := by simp [hentry.routes.mem, (membAlloc_eq_some hr).2]
    rw [hr]
    simp only [RouteTable.pushRoute, hb]
    refine Or.inr ⟨r, _, rfl, ⟨hins, ?_, ?_, ?_⟩, ?_, mem_cons_self⟩
    · exact ⟨hentry.nbr.nodup, hentry.nbr.inj, hentry.nbr.inUse, hentry.nbr.unlisted⟩
    · intro j
      have hlocked := @NbrTables.locked_setLocked u.nbr cfg.nbrRoutes i j _ cfg.nbrRoutes_lt true
      by_cases hj : j = i
      · subst hj
        constructor
        · simpa [NbrTables.used, NbrTables.setLocked] using hused
        · simp [hlocked]
      · constructor
        · simpa [NbrTables.used, NbrTables.setLocked, hj] using (hentry.marked j hj).used
        · simpa [hlocked, hj] using (hentry.marked j hj).locked
    · intro r' hr'
      by_cases hrr : r' = r
      · simp [hrr, NbrTables.setLocked, hentry.addr]
      · have hmem : r' ∈ u.routelist := by simpa [hrr, erase_of_not_mem hrfree] using hr'
        simpa [hrr, NbrTables.setLocked] using hentry.nexthop r' hmem
    · intro x hx
      rcases mem_cons.mp hx with rfl | hx
      · exact Or.inr rfl
      · exact Or.inl (hsub.subset (mem_of_mem_erase hx))

section

variable (cfg : RouteConfig) (s : RouteTable)

/-- The route that is replaced: the one found for the address, or the least recently used one of
a full table. -/
def Replaced (ipaddr : UipIpaddr) (r : RouteId) : Prop :=
  (s.uipDs6RouteLookup ipaddr).1 = some r ∨
    s.numRoutes = cfg.routeNb ∧ s.routelist.getLast? = some r

/-- What `uip_ds6_route_add` comes to: a route, or nothing but that an older one is gone. -/
def AddResult (ipaddr : UipIpaddr)
    (res : Option RouteId × RouteTable) : Prop :=
  Ok cfg res.2 ∧
    (res.1 = none → res.2 = s ∨ ∃ r, Replaced cfg s ipaddr r ∧ res.2 = s.uipDs6RouteRm cfg r) ∧
    (∀ x ∈ res.2.routelist, x ∈ s.routelist ∨ res.1 = some x) ∧
    ∀ x, res.1 = some x → x ∈ res.2.routelist

/-- The route that is found is removed from where the lookup has put it. -/
theorem rm_pushRoute (r : RouteId) :
    (s.pushRoute r).uipDs6RouteRm cfg r = s.uipDs6RouteRm cfg r := by
  simp only [uipDs6RouteRm, pushRoute, erase_cons_head]
  rfl

end

theorem Ok.numRoutes_ne (h : Ok cfg s) (hr : r ∈ s.routelist) :
    (s.uipDs6RouteRm cfg r).numRoutes ≠ cfg.routeNb := by
  have hle := h.routes.length_le
  have hpos := length_pos_of_mem hr
  simp only [uipDs6RouteRm, h.counted]
  omega

theorem makeRoom_cases (s : RouteTable) (cfg : RouteConfig) :
    s.makeRoom cfg = none ∨ (s.numRoutes ≠ cfg.routeNb ∧ s.makeRoom cfg = some s) ∨
      ∃ r, s.numRoutes = cfg.routeNb ∧ s.routelist.getLast? = some r ∧
        s.makeRoom cfg = some (s.uipDs6RouteRm cfg r) := by
  by_cases hfull : s.numRoutes = cfg.routeNb
  · cases hleast : cfg.removeLeastRecentlyUsed with
    | false => simp [makeRoom, hfull, hleast]
    | true => cases hlast : s.routelist.getLast? <;> simp [makeRoom, hfull, hleast, hlast]
  · simp [makeRoom, hfull]

theorem Ok.uipDs6RouteAdd (h : Ok cfg s) (cache : NbrCache) (ipaddr : UipIpaddr)
    (length : BitVec 8) (nexthop : UipIpaddr) :
    AddResult cfg s ipaddr (s.uipDs6RouteAdd cfg cache ipaddr length nexthop) := by
  have hinsert : ∀ {t : RouteTable} (lladdr : LinkAddr), Ok cfg t → t.numRoutes ≠ cfg.routeNb →
      (t = s ∨ ∃ r, Replaced cfg s ipaddr r ∧ t = s.uipDs6RouteRm cfg r) →
      AddResult cfg s ipaddr (t.insertRoute cfg lladdr ipaddr length) := by
    intro t lladdr hok hroom ht
    have hsubset : ∀ x ∈ t.routelist, x ∈ s.routelist := by
      rcases ht with rfl | ⟨r, -, rfl⟩
      · exact fun x hx => hx
      · exact fun x hx => mem_of_mem_erase hx
    rcases hok.insertRoute hroom lladdr ipaddr length with heq | ⟨r, u, heq, hu, hmem, hr⟩
    · rw [heq]
      exact ⟨hok, fun _ => ht, fun x hx => Or.inl (hsubset x hx), by simp⟩
    · rw [heq]
      refine ⟨hu, by simp, ?_, by simpa using hr⟩
      intro x hx
      exact (hmem x hx).imp (hsubset x) (congrArg some)
  simp only [RouteTable.uipDs6RouteAdd]
  split
  · exact ⟨h, fun _ => Or.inl rfl, fun _ => Or.inl, by simp⟩
  · rename_i lladdr _
    rcases s.lookup_cases ipaddr with heq | ⟨r, hr, heq⟩
    · simp only [heq]
      rcases s.makeRoom_cases cfg with hroom | ⟨hne, hroom⟩ | ⟨r, hfull, hlast, hroom⟩
      · rw [hroom]
        exact ⟨h, fun _ => Or.inl rfl, fun _ => Or.inl, by simp⟩
      · rw [hroom]
        exact hinsert lladdr h hne (Or.inl rfl)
      · have hr : r ∈ s.routelist := mem_of_getLast? hlast
        rw [hroom]
        exact hinsert lladdr (h.rm hr) (h.numRoutes_ne hr) (Or.inr ⟨r, Or.inr ⟨hfull, hlast⟩, rfl⟩)
    · simp only [heq, rm_pushRoute]
      split_ifs
      · refine ⟨h.pushRoute hr, by simp, ?_, by simp [RouteTable.pushRoute]⟩
        intro x hx
        exact Or.inl ((perm_cons_erase hr).mem_iff.mpr hx)
      · have hne := h.numRoutes_ne hr
        simp only [makeRoom, if_neg hne]
        refine hinsert lladdr (h.rm hr) hne (Or.inr ⟨r, Or.inl ?_, rfl⟩)
        rw [heq]

/-! ## Runs -/

/-- Other modules use and lock neighbors for their own tables. -/
theorem Ok.setNbr (h : Ok cfg s) {nbr : NbrTables} (hok : nbr.Ok)
    (hlladdr : nbr.lladdr = s.nbr.lladdr)
    (hused : ∀ i, nbr.used cfg.nbrRoutes i = s.nbr.used cfg.nbrRoutes i)
    (hlocked : ∀ i, nbr.locked cfg.nbrRoutes i = s.nbr.locked cfg.nbrRoutes i) :
    Ok cfg { s with nbr := nbr } where
  routes := h.routes
  counted := h.counted
  links := h.links
  nodup := h.nodup
  nbr := hok
  marked i := ⟨by simpa [hused] using (h.marked i).used, by simpa [hlocked] using (h.marked i).locked⟩
  nexthop r hr := by simpa [hlladdr] using h.nexthop r hr

theorem Ok.setLocked (h : Ok cfg s) {table : ℕ} (htable : table ≠ cfg.nbrRoutes) (i : ℕ)
    (value : Bool) : Ok cfg { s with nbr := s.nbr.setLocked table i value } := by
  apply h.setNbr
  · exact ⟨h.nbr.nodup, h.nbr.inj, h.nbr.inUse, h.nbr.unlisted⟩
  · rfl
  · intro j
    rfl
  · intro j
    rw [locked_setLocked cfg.nbrRoutes_lt, if_neg fun hand => htable hand.1.symm]

theorem Ok.nbrTableRemove (h : Ok cfg s) {table : ℕ} (htable : table ≠ cfg.nbrRoutes) (i : ℕ) :
    Ok cfg { s with nbr := s.nbr.nbrTableRemove table i } := by
  apply h.setNbr
  · exact h.nbr.nbrTableRemove table i
  · rfl
  · intro j
    rw [used_nbrTableRemove, if_neg fun hand => htable hand.1.symm]
  · intro j
    rw [locked_nbrTableRemove cfg.nbrRoutes_lt, if_neg fun hand => htable hand.1.symm]

theorem Ok.step {e : RouteEvent} (h : Ok cfg s) (hstep : s.step cfg e = some t) : Ok cfg t := by
  have hlt := cfg.nbrRoutes_lt
  cases e with
  | lookup addr =>
    cases hstep
    exact h.lookup addr
  | add cache ipaddr length nexthop =>
    cases hstep
    exact (h.uipDs6RouteAdd cache ipaddr length nexthop).1
  | rm r =>
    simp only [RouteTable.step] at hstep
    split_ifs at hstep with hr
    cases hstep
    exact h.rm hr
  | rmByNexthop cache nexthop =>
    cases hstep
    exact h.rmByNexthop cache nexthop
  | nbrAdd table addr reason candidate =>
    simp only [RouteTable.step] at hstep
    split_ifs at hstep with htable
    cases hadd : s.nbrTableAdd cfg table addr reason candidate with
    | none =>
      rw [hadd] at hstep
      cases hstep
      exact h
    | some p =>
      rw [hadd] at hstep
      cases hstep
      obtain ⟨hentry, -, hused, hlocked, -⟩ := h.nbrTableAdd hadd
      exact hentry.ok ⟨by simp [hused, htable], hlocked⟩
  | nbrRemove table i =>
    simp only [RouteTable.step] at hstep
    split_ifs at hstep with htable
    cases hstep
    exact h.nbrTableRemove htable i
  | nbrLock table i value =>
    simp only [RouteTable.step] at hstep
    split_ifs at hstep with htable
    cases hstep
    exact h.setLocked htable i value

/-- Only an addition puts a route in the list. -/
theorem Ok.mem_step {e : RouteEvent} (h : Ok cfg s) (hstep : s.step cfg e = some t)
    (hr : r ∈ t.routelist) : r ∈ s.routelist ∨
      ∃ cache ipaddr length nexthop, e = .add cache ipaddr length nexthop ∧
        (s.uipDs6RouteAdd cfg cache ipaddr length nexthop).1 = some r := by
  cases e with
  | lookup addr =>
    cases hstep
    left
    rcases s.lookup_cases addr with heq | ⟨r', hr', heq⟩
    · rwa [heq] at hr
    · rw [heq] at hr
      exact (perm_cons_erase hr').mem_iff.mpr hr
  | add cache ipaddr length nexthop =>
    cases hstep
    have hmem := (h.uipDs6RouteAdd cache ipaddr length nexthop).2.2.1 r hr
    exact hmem.imp_right fun hsome => ⟨cache, ipaddr, length, nexthop, rfl, hsome⟩
  | rm r' =>
    simp only [RouteTable.step] at hstep
    split_ifs at hstep
    cases hstep
    exact Or.inl (mem_of_mem_erase hr)
  | rmByNexthop cache nexthop =>
    cases hstep
    left
    simp only [uipDs6RouteRmByNexthop] at hr
    split at hr
    · exact hr
    · exact (h.rmRoutelist _).2.2.routelist.subset hr
  | nbrAdd table addr reason candidate =>
    simp only [RouteTable.step] at hstep
    split_ifs at hstep
    left
    cases hadd : s.nbrTableAdd cfg table addr reason candidate with
    | none =>
      rw [hadd] at hstep
      cases hstep
      exact hr
    | some p =>
      rw [hadd] at hstep
      cases hstep
      exact (h.nbrTableAdd hadd).2.1.subset hr
  | nbrRemove table i =>
    simp only [RouteTable.step] at hstep
    split_ifs at hstep
    cases hstep
    exact Or.inl hr
  | nbrLock table i value =>
    simp only [RouteTable.step] at hstep
    split_ifs at hstep
    cases hstep
    exact Or.inl hr

/-- **The table of routes in every reachable state.** Routes are counted by `num_routes`; each is
in the list of one neighbor, that of its next hop; a neighbor is in `nbr_routes`, and locked, as
long as it has routes; and a failed addition has changed nothing but for a route it replaces. -/
theorem route_table_run {es : List RouteEvent} (hrun : run (step cfg) init es = some s) :
    (s.numRoutes = s.routelist.length ∧
      s.numRoutes = (List.range cfg.routeNb).countP s.routemem) ∧
    (∀ r ∈ s.routelist, ∃ i,
      s.nbr.nbrTableGetFromLladdr cfg.nbrRoutes (s.route r).nexthop = some i ∧
      ∀ j, (∃ b ∈ s.routeList j, s.neighborRoute b = r) ↔ j = i) ∧
    (∀ i, (s.nbr.used cfg.nbrRoutes i ↔ s.routeList i ≠ []) ∧
      (s.nbr.locked cfg.nbrRoutes i ↔ s.routeList i ≠ [])) ∧
    ∀ cache ipaddr length nexthop t, s.uipDs6RouteAdd cfg cache ipaddr length nexthop = (none, t) →
      t = s ∨ ∃ r, t = s.uipDs6RouteRm cfg r ∧ ((s.uipDs6RouteLookup ipaddr).1 = some r ∨
        s.numRoutes = cfg.routeNb ∧ s.routelist.getLast? = some r) := by
  have h : Ok cfg s := run_invariant (Ok cfg) (fun _ _ _ hs hstep => hs.step hstep) init_ok hrun
  refine ⟨⟨h.counted, ?_⟩, ?_, fun i => ⟨(h.marked i).used, (h.marked i).locked⟩, ?_⟩
  · rw [h.counted, h.routes.countP_eq]
  · intro r hr
    refine ⟨(s.route r).neighborRoutes, ?_, h.mem_routeList hr⟩
    obtain ⟨b, hb, -⟩ := (h.mem_routeList hr _).mpr rfl
    have hused : s.nbr.used cfg.nbrRoutes (s.route r).neighborRoutes :=
      (h.marked _).used.mpr (List.ne_nil_of_mem hb)
    have hlisted : (s.route r).neighborRoutes ∈ s.nbr.nbrTableKeys := by
      by_contra hnot
      simp [NbrTables.used, h.nbr.unlisted _ hnot] at hused
    rw [← h.nexthop r hr, NbrTables.nbrTableGetFromLladdr, h.nbr.indexFromLladdr_eq hlisted]
    exact Option.filter_eq_some_iff.mpr ⟨rfl, hused⟩
  · intro cache ipaddr length nexthop t hadd
    have hres := (h.uipDs6RouteAdd cache ipaddr length nexthop).2.1
    rw [hadd] at hres
    rcases hres rfl with heq | ⟨r, hr, heq⟩
    · exact Or.inl heq
    · exact Or.inr ⟨r, heq, hr⟩

/-- Room for two routes, and a neighbor for each link-layer address. -/
def twoRoutes : RouteConfig where
  routeNb := 2
  removeLeastRecentlyUsed := true
  nbr := ⟨2, .undefined⟩
  nbrRoutes := 0
  nbrRoutes_lt := by decide

/-- An address in each byte. -/
def everywhere (b : Byte) : UipIpaddr := ⟨List.replicate 16 b, by simp⟩

/-- Two neighbors, with the same byte in all places of their addresses. -/
def twoNeighbors : NbrCache where
  lladdrFromIpaddr addr := some fun _ => if addr = everywhere 1 then 1 else 2
  ipaddrFromLladdr lladdr := some (if lladdr 0 = 1 then everywhere 1 else everywhere 2)

/-- Three routes are added, the last two through the second neighbor. -/
def threeRoutes : List RouteEvent :=
  [.add twoNeighbors (everywhere 10) 128 (everywhere 1),
    .add twoNeighbors (everywhere 11) 128 (everywhere 2),
    .add twoNeighbors (everywhere 12) 128 (everywhere 2)]

/-- The first route gives its block to the third, and its neighbor is taken out. -/
theorem route_table_run_replaced : ∃ s, run (step twoRoutes) init threeRoutes = some s ∧
    s.routelist = [0, 1] ∧ s.nbr.used 0 0 = false ∧ s.numRoutes = s.routelist.length :=
  ⟨_, rfl, by decide, by decide, (@route_table_run twoRoutes _ threeRoutes rfl).1.1⟩

end RouteTable

end Asap.Ipv6
