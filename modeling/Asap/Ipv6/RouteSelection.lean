import Asap.Ipv6.Ds6Nbr
import Asap.Ipv6.RouteTable

/-!
# Which route is found

`uip_ds6_route_lookup` compares whole bytes of a prefix, whatever its length in bits is, and
`uip_ds6_route_add` looks the prefix up as if it were an address to find an older route for it. So
a route is found whose last bits differ, and a route for another prefix takes the place of the older
one. What the table does with an address or a prefix is right exactly if the route that the bytes
select is.

## Main definitions

* `PrefixMatches` — the address is in the prefix, bit by bit.
* `Selected` — the route that the comparison of bytes selects.
* `LookupRight`, `AddRight` — what is wanted of the two functions.
-/

namespace Asap.Ipv6

open Asap.Lib Asap.Tsch List Option

/-- `uip_ds6_nbr_lladdr_from_ipaddr` and `uip_ds6_nbr_ipaddr_from_lladdr` -/
def Ds6NbrCache.lookups (cfg : Ds6NbrConfig) (c : Ds6NbrCache) : NbrCache where
  lladdrFromIpaddr ipaddr := (c.uipDs6NbrLookup cfg ipaddr).map c.nbr.lladdr
  ipaddrFromLladdr lladdr := (c.uipDs6NbrLlLookup cfg lladdr).map fun i => (c.cells i).ipaddr

/-- The entry of an address is that of its link-layer address. -/
theorem Ds6NbrCache.ipaddr_of_lladdr {cfg : Ds6NbrConfig} {c : Ds6NbrCache} (h : c.nbr.Ok)
    {ipaddr : UipIpaddr} {lladdr : LinkAddr}
    (hll : (c.lookups cfg).lladdrFromIpaddr ipaddr = some lladdr) :
    (c.lookups cfg).ipaddrFromLladdr lladdr = some ipaddr := by
  have ⟨i, hi, haddr⟩ := map_eq_some_iff.mp hll
  have hlisted := NbrTables.mem_items.mp (mem_of_find?_eq_some hi)
  have hipaddr : (c.cells i).ipaddr = ipaddr := by simpa using List.find?_some hi
  refine map_eq_some_iff.mpr ⟨i, ?_, hipaddr⟩
  rw [← haddr, uipDs6NbrLlLookup, NbrTables.nbrTableGetFromLladdr, h.indexFromLladdr_eq hlisted.1]
  exact filter_eq_some_iff.mpr ⟨rfl, hlisted.2⟩

namespace RouteTable

/-- A bit of an address, from the most significant one on. -/
def addrBit (addr : UipIpaddr) (i : ℕ) : Bool := (addr.1.getD (i / 8) 0).getLsbD (7 - i % 8)

/-- Two addresses have the bits of a prefix in common. -/
def PrefixMatches (addr addr' : UipIpaddr) (length : BitVec 8) : Prop :=
  ∀ i < length.toNat, addrBit addr i = addrBit addr' i

instance (addr addr' : UipIpaddr) (length : BitVec 8) :
    Decidable (PrefixMatches addr addr' length) :=
  inferInstanceAs (Decidable (∀ i < length.toNat, _))

section

variable (s : RouteTable) (addr : UipIpaddr)

/-- The whole bytes of the prefix of a route are those of the address. -/
def BytesMatch (r : RouteId) : Prop :=
  uipIpaddrPrefixcmp addr (s.route r).ipaddr (s.route r).length = true

/-- The route of a list that the bytes select: none of the others is longer, and it is the last one
of its length, or the first one of 128 bits. -/
def Selected (rs : List RouteId) (r : RouteId) : Prop :=
  ∃ p q, rs = p ++ r :: q ∧ s.BytesMatch addr r ∧
    (∀ m ∈ p, s.BytesMatch addr m → (s.route m).length ≤ (s.route r).length ∧
      (s.route m).length ≠ 128) ∧
    ((s.route r).length = 128 ∨
      ∀ m ∈ q, s.BytesMatch addr m → (s.route m).length < (s.route r).length)

/-- The longest route that the address is in is found, if there is one, and nothing is changed but
the order. -/
def LookupRight (res : Option RouteId × RouteTable) : Prop :=
  (∀ r, res.1 = some r → r ∈ s.routelist ∧
    PrefixMatches addr (s.route r).ipaddr (s.route r).length ∧
    ∀ m ∈ s.routelist, PrefixMatches addr (s.route m).ipaddr (s.route m).length →
      (s.route m).length ≤ (s.route r).length) ∧
  (res.1 = none → ∀ m ∈ s.routelist,
    ¬PrefixMatches addr (s.route m).ipaddr (s.route m).length) ∧
  ∃ l, l.Perm s.routelist ∧ res.2 = { s with routelist := l }

end

/-- `uip_ds6_route_nexthop` -/
def uipDs6RouteNexthop (cache : NbrCache) (s : RouteTable) (r : RouteId) : Option UipIpaddr :=
  cache.ipaddrFromLladdr (s.nbr.lladdr (s.route r).neighborRoutes)

/-- The entry is a route for the prefix by way of the next hop, and the routes for other prefixes
are there, unless the table was full. -/
def AddRight (cfg : RouteConfig) (cache : NbrCache) (s : RouteTable) (ipaddr : UipIpaddr)
    (length : BitVec 8) (nexthop : UipIpaddr) (r : RouteId) (t : RouteTable) : Prop :=
  ((t.route r).ipaddr = ipaddr ∧ (t.route r).length = length ∧
    uipDs6RouteNexthop cache t r = some nexthop) ∧
  ∀ x ∈ s.routelist, ¬((s.route x).ipaddr = ipaddr ∧ (s.route x).length = length) →
    s.numRoutes ≠ cfg.routeNb → x ∈ t.routelist ∧ t.route x = s.route x

/-- The route that the prefix selects is for the same prefix, or it is replaced in a full table. -/
def AddCondition (cfg : RouteConfig) (cache : NbrCache) (s : RouteTable) (ipaddr : UipIpaddr)
    (length : BitVec 8) (nexthop : UipIpaddr) : Prop :=
  ∀ r, s.Selected ipaddr s.routelist r →
    ((s.route r).ipaddr = ipaddr ∧ (s.route r).length = length) ∨
      (s.numRoutes = cfg.routeNb ∧ uipDs6RouteNexthop cache s r ≠ some nexthop)

variable {cfg : RouteConfig} {ncfg : Ds6NbrConfig} {c : Ds6NbrCache} {cache : NbrCache}
  {s t : RouteTable} {r x : RouteId}
  {addr ipaddr nexthop : UipIpaddr} {length : BitVec 8} {rs : List RouteId} {i : ℕ}

/-! ## Bits and bytes -/

/-- Bytes with the same bits are the same. -/
theorem getElem?_eq_of_addrBit {addr' : UipIpaddr} {k : ℕ} (hk : k < 16)
    (h : ∀ i < 8, addrBit addr (8 * k + i) = addrBit addr' (8 * k + i)) :
    addr.1[k]? = addr'.1[k]? := by
  have hlen : k < addr.1.length := by rw [addr.property]; exact hk
  have hlen' : k < addr'.1.length := by rw [addr'.property]; exact hk
  rw [List.getElem?_eq_getElem hlen, List.getElem?_eq_getElem hlen', Option.some.injEq]
  apply BitVec.eq_of_getLsbD_eq
  intro i hi
  have hbit := h (7 - i) (by omega)
  have hdiv : (8 * k + (7 - i)) / 8 = k := by omega
  have hmod : 7 - (8 * k + (7 - i)) % 8 = i := by omega
  simp only [addrBit, hdiv, hmod, getD_eq_getElem?_getD, List.getElem?_eq_getElem hlen,
    List.getElem?_eq_getElem hlen', getD_some] at hbit
  exact hbit

/-- A prefix of an address has whole bytes in common with it. -/
theorem PrefixMatches.bytes {addr' : UipIpaddr} (h : PrefixMatches addr addr' length)
    (hlen : length.toNat ≤ 128) : uipIpaddrPrefixcmp addr addr' length = true := by
  apply decide_eq_true
  apply ext_getElem?
  intro k
  by_cases hk : k < length.toNat / 8
  · rw [List.getElem?_take_of_lt hk, List.getElem?_take_of_lt hk]
    exact getElem?_eq_of_addrBit (by omega) fun i hi => h _ (by omega)
  · rw [List.getElem?_eq_none (by rw [length_take]; omega),
      List.getElem?_eq_none (by rw [length_take]; omega)]

/-! ## The loop -/

/-- What the loop has found in the part of the list behind it. -/
structure FoundIn (s : RouteTable) (addr : UipIpaddr) (p : List RouteId) (longest : BitVec 8)
    (found : Option RouteId) : Prop where
  none_ : found = none → longest = 0 ∧ ∀ m ∈ p, ¬s.BytesMatch addr m
  some_ : ∀ r, found = some r → s.Selected addr p r ∧ (s.route r).length = longest ∧ longest ≠ 128

section

variable (h : s.Selected addr rs r)

include h

/-- One more route, which is no longer match. -/
theorem Selected.append_shorter
    (hx : s.BytesMatch addr x → (s.route x).length < (s.route r).length) :
    s.Selected addr (rs ++ [x]) r := by
  have ⟨p, q, hsplit, hbytes, hbefore, hbehind⟩ := h
  refine ⟨p, q ++ [x], by rw [hsplit, append_assoc, cons_append], hbytes, hbefore, ?_⟩
  refine hbehind.imp_right fun hall m hm => ?_
  cases mem_append.mp hm with
  | inl hin => exact hall m hin
  | inr hlast =>
    rw [mem_singleton.mp hlast]
    exact hx

/-- What is behind a selected route of 128 bits does not matter. -/
theorem Selected.append_total (htotal : (s.route r).length = 128)
    (rest : List RouteId) : s.Selected addr (rs ++ rest) r := by
  have ⟨p, q, hsplit, hbytes, hbefore, _⟩ := h
  exact ⟨p, q ++ rest, by rw [hsplit, append_assoc, cons_append], hbytes, hbefore,
    Or.inl htotal⟩

theorem Selected.length_le (hlen : ∀ m ∈ rs, (s.route m).length ≤ 128)
    (hx : x ∈ rs) (hbytes : s.BytesMatch addr x) : (s.route x).length ≤ (s.route r).length := by
  have ⟨p, q, hsplit, _, hbefore, hbehind⟩ := h
  rw [hsplit] at hx
  cases mem_append.mp hx with
  | inl hp => exact (hbefore x hp hbytes).1
  | inr hq =>
    cases mem_cons.mp hq with
    | inl hxr => rw [hxr]; exact BitVec.le_refl _
    | inr hq =>
      cases hbehind with
      | inl htotal =>
        rw [htotal]
        exact hlen x (hsplit ▸ hx)
      | inr hall => exact BitVec.le_of_lt (hall x hq hbytes)

theorem Selected.mem : r ∈ rs ∧ s.BytesMatch addr r := by
  have ⟨p, q, hsplit, hbytes, _⟩ := h
  exact ⟨hsplit ▸ mem_append_right p mem_cons_self, hbytes⟩

/-- Only one route is selected. -/
theorem Selected.unique (h' : s.Selected addr rs x)
    (hlen : ∀ m ∈ rs, (s.route m).length ≤ 128) : r = x := by
  have hlength : (s.route r).length = (s.route x).length :=
    BitVec.le_antisymm (h'.length_le hlen h.mem.1 h.mem.2) (h.length_le hlen h'.mem.1 h'.mem.2)
  -- of two selected routes the first one is of 128 bits, and is not before another one
  have hfirst : ∀ {a b : RouteId} {p p' q q' : List RouteId}, rs = p ++ a :: q → rs = p' ++ b :: q' →
      s.BytesMatch addr a → s.BytesMatch addr b → (s.route a).length = (s.route b).length →
      ((s.route a).length = 128 ∨
        ∀ m ∈ q, s.BytesMatch addr m → (s.route m).length < (s.route a).length) →
      (∀ m ∈ p', s.BytesMatch addr m → (s.route m).length ≤ (s.route b).length ∧
        (s.route m).length ≠ 128) → a ∈ p' → b ∈ q → False := by
    intro a b p p' q q' _ _ ha hb heq hbehind hbefore hap hbq
    cases hbehind with
    | inl htotal => exact (hbefore a hap ha).2 htotal
    | inr hall =>
      have hlt := hall b hbq hb
      rw [heq] at hlt
      exact BitVec.lt_irrefl _ hlt
  have ⟨p, q, hsplit, hr, hbefore, hbehind⟩ := h
  have ⟨p', q', hsplit', hx, hbefore', hbehind'⟩ := h'
  cases append_eq_append_iff.mp (hsplit.symm.trans hsplit') with
  | inl hlow =>
    have ⟨c, hp', hc⟩ := hlow
    cases c with
    | nil => exact (List.cons.inj hc).1
    | cons y c =>
      have ⟨hry, hq⟩ := List.cons.inj hc
      refine (hfirst hsplit hsplit' hr hx hlength hbehind hbefore' ?_ ?_).elim
      · rw [hp', hry]
        exact mem_append_right p mem_cons_self
      · rw [hq]
        exact mem_append_right c mem_cons_self
  | inr hhigh =>
    have ⟨c, hp, hc⟩ := hhigh
    cases c with
    | nil => exact (List.cons.inj hc).1.symm
    | cons y c =>
      have ⟨hxy, hq⟩ := List.cons.inj hc
      refine (hfirst hsplit' hsplit hx hr hlength.symm hbehind' hbefore ?_ ?_).elim
      · rw [hp, hxy]
        exact mem_append_right p' mem_cons_self
      · rw [hq]
        exact mem_append_right c mem_cons_self

end

/-- **The loop finds the route that the bytes select.** -/
theorem lookupLoop_spec {p : List RouteId} {longest : BitVec 8} {found : Option RouteId}
    (hlen : ∀ m ∈ p ++ rs, (s.route m).length ≤ 128) (hfound : s.FoundIn addr p longest found) :
    (s.lookupLoop addr rs longest found = none → ∀ m ∈ p ++ rs, ¬s.BytesMatch addr m) ∧
      ∀ r, s.lookupLoop addr rs longest found = some r → s.Selected addr (p ++ rs) r := by
  induction rs generalizing p longest found with
  | nil =>
    rw [lookupLoop, append_nil]
    exact ⟨fun h => (hfound.none_ h).2, fun r h => (hfound.some_ r h).1⟩
  | cons x rs ih =>
    have hcons : p ++ x :: rs = (p ++ [x]) ++ rs := by rw [append_assoc]; rfl
    rw [hcons] at hlen
    rw [lookupLoop, hcons]
    by_cases hx : longest ≤ (s.route x).length ∧
        uipIpaddrPrefixcmp addr (s.route x).ipaddr (s.route x).length = true
    · rw [if_pos hx]
      have hselected : s.Selected addr (p ++ [x]) x := by
        refine ⟨p, [], rfl, hx.2, fun m hm hbytes => ?_, Or.inr fun m hm => absurd hm not_mem_nil⟩
        cases hprev : found with
        | none => exact absurd hbytes ((hfound.none_ hprev).2 m hm)
        | some f =>
          obtain ⟨hf, hlength, hne⟩ := hfound.some_ f hprev
          have hlen' : ∀ m ∈ p, (s.route m).length ≤ 128 := fun m hm =>
            hlen m (mem_append_left _ (mem_append_left _ hm))
          have hle := hf.length_le hlen' hm hbytes
          rw [hlength] at hle
          refine ⟨BitVec.le_trans hle hx.1, fun hm128 => hne ?_⟩
          -- a route of 128 bits would be shorter than the one that is found
          rw [hm128] at hle
          have hf128 := hlen' f hf.mem.1
          rw [hlength] at hf128
          exact BitVec.le_antisymm hf128 hle
      by_cases htotal : (s.route x).length = 128
      · rw [if_pos htotal]
        refine ⟨fun h => absurd h (some_ne_none x), fun r hr => ?_⟩
        rw [← Option.some.inj hr]
        exact hselected.append_total htotal rs
      · rw [if_neg htotal]
        refine ih hlen ⟨fun h => absurd h (some_ne_none x), fun r hr => ?_⟩
        rw [← Option.some.inj hr]
        exact ⟨hselected, rfl, htotal⟩
    · rw [if_neg hx]
      refine ih hlen ⟨fun h => ⟨(hfound.none_ h).1, fun m hm => ?_⟩,
        fun r hr => ⟨?_, (hfound.some_ r hr).2⟩⟩
      · cases mem_append.mp hm with
        | inl hin => exact (hfound.none_ h).2 m hin
        | inr hlast =>
          rw [mem_singleton.mp hlast]
          intro hbytes
          rw [(hfound.none_ h).1] at hx
          exact hx ⟨Nat.zero_le _, hbytes⟩
      · obtain ⟨hselected, hlength, _⟩ := hfound.some_ r hr
        refine hselected.append_shorter fun hbytes => ?_
        rw [hlength]
        exact Nat.lt_of_not_le fun hle => hx ⟨hle, hbytes⟩

section

variable (hlen : ∀ m ∈ s.routelist, (s.route m).length ≤ 128)

include hlen

/-- What the lookup returns is the selected route. -/
theorem lookup_eq_some :
    (s.uipDs6RouteLookup addr).1 = some r ↔ s.Selected addr s.routelist r := by
  have hspec := @lookupLoop_spec s addr s.routelist [] 0 none hlen
    ⟨fun _ => ⟨rfl, fun m hm => absurd hm not_mem_nil⟩, fun r h => absurd h nofun⟩
  have hres : (s.uipDs6RouteLookup addr).1 = s.lookupLoop addr s.routelist 0 none := by
    rw [uipDs6RouteLookup]
    split <;> simp_all
  rw [hres]
  refine ⟨hspec.2 r, fun hr => ?_⟩
  cases hloop : s.lookupLoop addr s.routelist 0 none with
  | none => exact absurd hr.mem.2 (hspec.1 hloop r hr.mem.1)
  | some x => rw [hr.unique (hspec.2 x hloop) hlen]

theorem not_bytesMatch
    (hnone : (s.uipDs6RouteLookup addr).1 = none) : ∀ m ∈ s.routelist, ¬s.BytesMatch addr m := by
  have hspec := @lookupLoop_spec s addr s.routelist [] 0 none hlen
    ⟨fun _ => ⟨rfl, fun m hm => absurd hm not_mem_nil⟩, fun r h => absurd h nofun⟩
  apply hspec.1
  cases hloop : s.lookupLoop addr s.routelist 0 none with
  | none => rfl
  | some x =>
    have hsome := (lookup_eq_some hlen).mpr (hspec.2 x hloop)
    rw [hnone] at hsome
    exact absurd hsome.symm (some_ne_none x)

/-- **The lookup is right if and only if the bits of the selected route match.** -/
theorem lookupRight_iff :
    LookupRight s addr (s.uipDs6RouteLookup addr) ↔ ∀ r, s.Selected addr s.routelist r →
      PrefixMatches addr (s.route r).ipaddr (s.route r).length := by
  constructor
  · intro hright r hr
    exact (hright.1 r ((lookup_eq_some hlen).mpr hr)).2.1
  · intro hbits
    refine ⟨fun r hr => ?_, fun hnone m hm hmatch => ?_, ?_⟩
    · have hselected := (lookup_eq_some hlen).mp hr
      exact ⟨hselected.mem.1, hbits r hselected, fun m hm hmatch =>
        hselected.length_le hlen hm (hmatch.bytes (hlen m hm))⟩
    · exact not_bytesMatch hlen hnone m hm (hmatch.bytes (hlen m hm))
    · cases s.lookup_cases addr with
      | inl heq => exact ⟨s.routelist, .refl _, by rw [heq]⟩
      | inr hfound =>
        have ⟨r, hr, heq⟩ := hfound
        exact ⟨r :: s.routelist.erase r, (perm_cons_erase hr).symm, by rw [heq]; rfl⟩

end

/-! ## Additions -/

/-- No neighbor is evicted for a next hop that a table locks. -/
theorem evicted_unlocked {lladdr : LinkAddr} {i : ℕ} (h : Ok cfg s)
    (hevicted : NbrTables.evicted cfg.nbr s.nbr lladdr .route none = some i) :
    s.nbr.lockedMap i = 0 := by
  rw [NbrTables.evicted] at hevicted
  split at hevicted
  · exact absurd hevicted.symm (some_ne_none i)
  · obtain ⟨hplace, hlisted⟩ := filter_eq_some_iff.mp hevicted
    obtain ⟨p, halloc, hp⟩ := map_eq_some_iff.mp hplace
    have hi := of_decide_eq_true hlisted
    rw [← hp] at hi ⊢
    refine (NbrTables.allocate_evicted h.nbr halloc hi).2.resolve_right fun hpolicy => ?_
    -- no policy names a neighbor for a route
    cases hfind : cfg.nbr.findRemovable <;> simp [hfind, FindRemovable.find] at hpolicy

/-- The place of a next hop is not taken from a neighbor that has routes. -/
theorem Ok.neighborRoutesOf_same {lladdr : LinkAddr} (h : Ok cfg s)
    (hof : s.neighborRoutesOf cfg lladdr = some (i, t)) :
    t.routelist = s.routelist ∧ t.route = s.route ∧ t.routemem = s.routemem := by
  simp only [RouteTable.neighborRoutesOf] at hof
  split at hof
  · cases hof
    exact ⟨rfl, rfl, rfl⟩
  · obtain ⟨p, hadd, hp⟩ := map_eq_some_iff.mp hof
    obtain ⟨q, _, hq⟩ := map_eq_some_iff.mp hadd
    have hsame : s.rmRoutelistCallback cfg
        (NbrTables.evicted cfg.nbr s.nbr lladdr .route none) = s := by
      cases hevicted : NbrTables.evicted cfg.nbr s.nbr lladdr .route none with
      | none => rfl
      | some e =>
        have hlocked : s.nbr.locked cfg.nbrRoutes e = false := by
          simp [NbrTables.locked, evicted_unlocked h hevicted]
        have hunused : s.nbr.used cfg.nbrRoutes e = false := by
          rw [Bool.eq_false_iff, ne_eq, (h.marked e).used, ← (h.marked e).locked, hlocked]
          exact Bool.false_ne_true
        simp [RouteTable.rmRoutelistCallback, hunused]
    simp only [hsame] at hq
    have ht : t = { p.2 with routeList := Function.update p.2.routeList p.1 [] } :=
      congrArg Prod.snd hp.symm
    rw [ht, ← hq]
    exact ⟨rfl, rfl, rfl⟩

/-- A route and what was there before. -/
structure Inserted (s t : RouteTable) (r : RouteId) (lladdr : LinkAddr) (ipaddr : UipIpaddr)
    (length : BitVec 8) : Prop where
  routelist : t.routelist = r :: s.routelist
  fresh : r ∉ s.routelist
  old : ∀ x ≠ r, t.route x = s.route x
  ipaddr_eq : (t.route r).ipaddr = ipaddr
  length_eq : (t.route r).length = length
  lladdr_eq : t.nbr.lladdr (t.route r).neighborRoutes = lladdr

theorem Ok.inserted {lladdr : LinkAddr} (h : Ok cfg s) (hroom : s.numRoutes ≠ cfg.routeNb)
    (hins : s.insertRoute cfg lladdr ipaddr length = (some r, t)) :
    Inserted s t r lladdr ipaddr length := by
  have hok : Ok cfg t ∧ r ∈ t.routelist := by
    cases h.insertRoute hroom lladdr ipaddr length with
    | inl hnone =>
      rw [hnone] at hins
      exact absurd (congrArg Prod.fst hins).symm (some_ne_none r)
    | inr hsome =>
      obtain ⟨r', t', heq, hok, _, hmem⟩ := hsome
      rw [heq] at hins
      obtain ⟨hr, ht⟩ := Prod.mk.inj hins
      rw [← ht, ← Option.some.inj hr]
      exact ⟨hok, hmem⟩
  have hnexthop := hok.1.nexthop r hok.2
  simp only [RouteTable.insertRoute] at hins
  split at hins
  · exact absurd (congrArg Prod.fst hins).symm (some_ne_none r)
  · rename_i j u hof
    obtain ⟨hlist, hroute, hmem⟩ := h.neighborRoutesOf_same hof
    split at hins
    · exact absurd (congrArg Prod.fst hins).symm (some_ne_none r)
    · rename_i r' halloc
      split at hins
      · exact absurd (congrArg Prod.fst hins).symm (some_ne_none r)
      · obtain ⟨hr, ht⟩ := Prod.mk.inj hins
        have hr := Option.some.inj hr
        rw [hr] at halloc ht
        have hfresh : r ∉ s.routelist := by
          rw [h.routes.mem, ← hmem, (membAlloc_eq_some halloc).2]
          exact Bool.false_ne_true
        have hnew : t.route r = ⟨ipaddr, length, j, lladdr⟩ := by rw [← ht]; simp
        refine ⟨?_, hfresh, fun x hx => ?_, by rw [hnew], by rw [hnew], by rw [hnexthop, hnew]⟩
        · rw [← ht]
          simp [RouteTable.pushRoute, hlist, erase_of_not_mem hfresh]
        · rw [← ht]
          simp [RouteTable.pushRoute, hroute, hx]

/-- What a successful addition comes to. -/
inductive AddCase (cfg : RouteConfig) (cache : NbrCache) (s : RouteTable) (ipaddr : UipIpaddr)
    (length : BitVec 8) (nexthop : UipIpaddr) (r : RouteId) (t : RouteTable) : Prop
  | room (lladdr : LinkAddr) (hll : cache.lladdrFromIpaddr nexthop = some lladdr)
      (hnone : (s.uipDs6RouteLookup ipaddr).1 = none) (hroom : s.numRoutes ≠ cfg.routeNb)
      (hins : Inserted s t r lladdr ipaddr length)
  | full (lladdr : LinkAddr) (x : RouteId) (hll : cache.lladdrFromIpaddr nexthop = some lladdr)
      (hnone : (s.uipDs6RouteLookup ipaddr).1 = none) (hfull : s.numRoutes = cfg.routeNb)
      (hins : Inserted (s.uipDs6RouteRm cfg x) t r lladdr ipaddr length)
  | found (hfound : (s.uipDs6RouteLookup ipaddr).1 = some r)
      (hnexthop : uipDs6RouteNexthop cache s r = some nexthop) (ht : t = s.pushRoute r)
  | replaced (lladdr : LinkAddr) (f : RouteId) (hll : cache.lladdrFromIpaddr nexthop = some lladdr)
      (hfound : (s.uipDs6RouteLookup ipaddr).1 = some f)
      (hnexthop : uipDs6RouteNexthop cache s f ≠ some nexthop)
      (hins : Inserted (s.uipDs6RouteRm cfg f) t r lladdr ipaddr length)

theorem Ok.addCase (h : Ok cfg s)
    (hadd : s.uipDs6RouteAdd cfg cache ipaddr length nexthop = (some r, t)) :
    AddCase cfg cache s ipaddr length nexthop r t := by
  simp only [RouteTable.uipDs6RouteAdd] at hadd
  split at hadd
  · exact absurd (congrArg Prod.fst hadd).symm (some_ne_none r)
  · rename_i lladdr hll
    cases s.lookup_cases ipaddr with
    | inl hnone =>
      have hnone' := congrArg Prod.fst hnone
      simp only [hnone] at hadd
      rcases s.makeRoom_cases cfg with hfail | ⟨hroom, hsame⟩ | ⟨x, hfull, hlast, hroom⟩
      · rw [hfail] at hadd
        exact absurd (congrArg Prod.fst hadd).symm (some_ne_none r)
      · rw [hsame] at hadd
        exact .room lladdr hll hnone' hroom (h.inserted hroom hadd)
      · rw [hroom] at hadd
        have hx : x ∈ s.routelist := mem_of_getLast? hlast
        exact .full lladdr x hll hnone' hfull ((h.rm hx).inserted (h.numRoutes_ne hx) hadd)
    | inr hsome =>
      obtain ⟨f, hf, heq⟩ := hsome
      have hfound := congrArg Prod.fst heq
      simp only [heq, rm_pushRoute] at hadd
      split_ifs at hadd with hnexthop
      · obtain ⟨hr, ht⟩ := Prod.mk.inj hadd
        rw [Option.some.inj hr] at hfound hnexthop ht
        exact .found hfound hnexthop ht.symm
      · have hne := h.numRoutes_ne hf
        simp only [makeRoom, if_neg hne] at hadd
        exact .replaced lladdr f hll hfound hnexthop ((h.rm hf).inserted hne hadd)

/-- The next hop of an entry that is added. -/
theorem Inserted.new {u : RouteTable} {lladdr : LinkAddr}
    (h : Inserted u t r lladdr ipaddr length) (hc : c.nbr.Ok)
    (hll : (c.lookups ncfg).lladdrFromIpaddr nexthop = some lladdr) :
    (t.route r).ipaddr = ipaddr ∧ (t.route r).length = length ∧
      uipDs6RouteNexthop (c.lookups ncfg) t r = some nexthop := by
  refine ⟨h.ipaddr_eq, h.length_eq, ?_⟩
  rw [uipDs6RouteNexthop, h.lladdr_eq]
  exact Ds6NbrCache.ipaddr_of_lladdr hc hll

/-- A route is kept that was there when the entry was inserted. -/
theorem Inserted.kept {u : RouteTable} {lladdr : LinkAddr}
    (h : Inserted u t r lladdr ipaddr length) (hx : x ∈ u.routelist) :
    x ∈ t.routelist ∧ t.route x = u.route x := by
  rw [h.routelist]
  refine ⟨mem_cons_of_mem r hx, h.old x fun hxr => h.fresh ?_⟩
  rwa [← hxr]

/-- **An addition is right if and only if the route that the prefix selects is for the same
prefix**, or is replaced in a full table. -/
theorem Ok.addRight_iff (h : Ok cfg s) (hlen : ∀ m ∈ s.routelist, (s.route m).length ≤ 128)
    (hc : c.nbr.Ok)
    (hadd : s.uipDs6RouteAdd cfg (c.lookups ncfg) ipaddr length nexthop = (some r, t)) :
    AddRight cfg (c.lookups ncfg) s ipaddr length nexthop r t ↔
      AddCondition cfg (c.lookups ncfg) s ipaddr length nexthop := by
  cases h.addCase hadd with
  | room lladdr hll hnone hroom hins =>
    refine iff_of_true ⟨hins.new hc hll, fun x hx _ _ => hins.kept hx⟩ fun f hf => ?_
    exact absurd hf.mem.2 (not_bytesMatch hlen hnone f hf.mem.1)
  | full lladdr x hll hnone hfull hins =>
    refine iff_of_true ⟨hins.new hc hll, fun x _ _ hroom => absurd hfull hroom⟩ fun f hf => ?_
    exact absurd hf.mem.2 (not_bytesMatch hlen hnone f hf.mem.1)
  | found hfound hnexthop ht =>
    have hselected := (lookup_eq_some hlen).mp hfound
    rw [ht]
    constructor
    · intro hright f hf
      rw [hf.unique hselected hlen]
      exact Or.inl ⟨hright.1.1, hright.1.2.1⟩
    · intro hcond
      have hsame := (hcond r hselected).resolve_right fun hother => hother.2 hnexthop
      refine ⟨⟨hsame.1, hsame.2, hnexthop⟩, fun x hx _ _ => ⟨?_, rfl⟩⟩
      exact (perm_cons_erase hselected.mem.1).mem_iff.mp hx
  | replaced lladdr f hll hfound hnexthop hins =>
    have hselected := (lookup_eq_some hlen).mp hfound
    constructor
    · intro hright f' hf'
      rw [hf'.unique hselected hlen]
      by_contra hcond
      have ⟨hother, hroom⟩ := not_or.mp hcond
      have hroom : s.numRoutes ≠ cfg.routeNb := fun hfull => hroom ⟨hfull, hnexthop⟩
      have ⟨hkept, hsame⟩ := hright.2 f hselected.mem.1 hother hroom
      -- it is not in the list any more, unless its block is used for the new one
      rw [hins.routelist] at hkept
      have hfr : f = r := by
        refine (mem_cons.mp hkept).resolve_right fun hin => ?_
        exact (h.routes.nodup.mem_erase_iff.mp hin).1 rfl
      rw [← hfr] at hins
      refine hother ⟨?_, ?_⟩
      · rw [← hsame, hins.ipaddr_eq]
      · rw [← hsame, hins.length_eq]
    · intro hcond
      refine ⟨hins.new hc hll, fun x hx hother hroom => ?_⟩
      have hsame := (hcond f hselected).resolve_right fun hfull => hroom hfull.1
      refine hins.kept ((mem_erase_of_ne fun hxf => hother ?_).mpr hx)
      rwa [hxf]

/-- **Which route is found, and what is added.** In every reachable state, the lookup of an address
is right if and only if the route that the comparison of bytes selects matches on all bits; and a
successful addition is right if and only if the route that the prefix selects is for the same
prefix, or the table was full. -/
theorem route_selection {es : List RouteEvent} (hrun : run (step cfg) init es = some s)
    (hlen : ∀ m ∈ s.routelist, (s.route m).length ≤ 128) :
    (∀ addr, LookupRight s addr (s.uipDs6RouteLookup addr) ↔
      ∀ r, s.Selected addr s.routelist r →
        PrefixMatches addr (s.route r).ipaddr (s.route r).length) ∧
    ∀ ncfg (c : Ds6NbrCache) ipaddr length nexthop r t, c.nbr = s.nbr →
      s.uipDs6RouteAdd cfg (c.lookups ncfg) ipaddr length nexthop = (some r, t) →
      (AddRight cfg (c.lookups ncfg) s ipaddr length nexthop r t ↔
        AddCondition cfg (c.lookups ncfg) s ipaddr length nexthop) := by
  have h : Ok cfg s := run_invariant (Ok cfg) (fun _ _ _ hs hstep => hs.step hstep) init_ok hrun
  refine ⟨fun addr => lookupRight_iff hlen, fun ncfg c ipaddr length nexthop r t hc hadd => ?_⟩
  exact h.addRight_iff hlen (hc ▸ h.nbr) hadd

/-- Two neighbors of the cache, in the table behind that of the routes. -/
def cachedNeighbors : Ds6NbrConfig := ⟨⟨2, .undefined⟩, 1, 2, by decide⟩

/-- The cache of the two neighbors, with the shared table. -/
def cacheOf (nbr : NbrTables) : Ds6NbrCache where
  nbr := nbr
  cells i := ⟨if i = 0 then everywhere 1 else everywhere 2, false, .reachable, none⟩
  packetsMemb _ := false
  queueBuf _ := []
  lifetimer _ := none

/-- Both neighbors are known, and there is a route by way of the first one. -/
def oneRoute (length : BitVec 8) : List RouteEvent :=
  [.nbrAdd 1 (fun _ => 1) .ipv6Nd none, .nbrAdd 1 (fun _ => 2) .ipv6Nd none,
    .add twoNeighbors (everywhere 16) length (everywhere 1)]

/-- An address outside of a prefix of four bits is not looked up right. -/
theorem route_selection_half_byte : ∃ s, run (step twoRoutes) init (oneRoute 4) = some s ∧
    ¬∀ r, s.Selected (everywhere 32) s.routelist r →
      PrefixMatches (everywhere 32) (s.route r).ipaddr (s.route r).length := by
  refine ⟨_, rfl, fun hbits => ?_⟩
  have hiff := (@route_selection twoRoutes _ (oneRoute 4) rfl (by decide)).1 (everywhere 32)
  exact absurd ((hiff.mpr hbits).1 0 rfl).2.1 (by decide)

/-- A route for an address takes the place of the one for a prefix of it, and an address is found
in a prefix whose last bits differ. -/
theorem overlapping_prefixes :
    (∃ s t, run (step twoRoutes) init (oneRoute 64) = some s ∧
      s.uipDs6RouteAdd twoRoutes ((cacheOf s.nbr).lookups cachedNeighbors) (everywhere 16) 128
        (everywhere 2) = (some 0, t) ∧
      ¬AddRight twoRoutes ((cacheOf s.nbr).lookups cachedNeighbors) s (everywhere 16) 128
        (everywhere 2) 0 t) ∧
    ∃ s, run (step twoRoutes) init (oneRoute 4) = some s ∧
      ¬LookupRight s (everywhere 32) (s.uipDs6RouteLookup (everywhere 32)) :=
  ⟨⟨_, _, rfl, rfl, fun h => absurd (h.2 0 (by decide) (by decide) (by decide)).2 fun heq =>
      absurd (congrArg Ds6Route.length heq) (by decide)⟩,
    ⟨_, rfl, fun h => absurd (h.1 0 rfl).2.1 (by decide)⟩⟩

end RouteTable

end Asap.Ipv6
