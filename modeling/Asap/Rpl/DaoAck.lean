import Asap.Ipv6.RouteTable
import Asap.Rpl.Dio
import Asap.Lib.Run

/-!
# Routing of DAO acknowledgements

A node in storing mode sends DAOs for itself and forwards those of its sub-tree, each under a
new number of one counter of eight bits. The number of the last own DAO is in the instance,
that of a forwarded one in the state of its route, with the number it came with and a flag that
its acknowledgement is pending. An acknowledgement is first compared with the own number, then
with the routes.

Numbers come back: the counter runs from 240 to 255 once and then from 0 to 127.

## Main definitions

* `DaoState` — the counter, the own DAO, the routes with their state, and the DAO sent last with
  each number.
* `DaoState.daoOutput`, `DaoState.daoInputStoring`, `DaoState.daoAckInput` — the handlers.
* `DaoState.outstandingDao` — what an acknowledgement is for.
* `DaoState.Distinct` — numbers that are waited for are different.
-/

namespace Asap.Rpl

open Function

open Asap.Lib Asap.Tsch Asap.Ipv6

/-- `rpl_route_entry_t` -/
structure RplRouteEntry where
  daoSeqnoOut : BitVec 8
  daoSeqnoIn : BitVec 8
  nopathReceived : Bool
  daoPending : Bool

/-- A DAO that was sent upward and is to be acknowledged. -/
inductive SentDao where
  | own
  | forwarded (rep : RouteId) (sequence : BitVec 8)
deriving DecidableEq, Repr

/-- The state the handlers share, and the DAO that was last sent with each number, which the
program does not keep. -/
structure DaoState where
  routes : RouteTable
  state : RouteId → RplRouteEntry
  daoSequence : BitVec 8
  myDaoSeqno : BitVec 8
  myDaoTransmissions : ℕ
  /-- whether `dao_retransmit_timer` runs -/
  daoRetransmitTimer : Bool
  lastSent : BitVec 8 → Option SentDao

/-- An address for `nbr_table_add_lladdr`. -/
structure NbrAddition where
  table : ℕ
  addr : LinkAddr
  reason : NbrTableReason
  candidate : Option LinkAddr

/-- A DAO that is no loop, with its last target and lifetime, and what the handler finds in
other tables: the neighbors that `rpl_icmp6_update_nbr_table` adds, unless there is no room, and
whether there is a preferred parent with an address. -/
structure DaoInput where
  sender : UipIpaddr
  unicast : Bool
  sequence : BitVec 8
  target : UipIpaddr
  prefixlen : BitVec 8
  lifetime : BitVec 8
  cache : NbrCache
  neighbors : Option (List NbrAddition)
  hasParent : Bool

/-- A DAO acknowledgement, and whether it comes from a parent to a node that is not the root. -/
structure DaoAckInput where
  sequence : BitVec 8
  status : BitVec 8
  fromParent : Bool
  isRoot : Bool
  cache : NbrCache

/-- Whose acknowledgement it is taken for; that of a route is sent on with a sequence number to
a next hop, if its address is known. -/
inductive DaoAttribution where
  | nobody
  | own
  | route (rep : RouteId) (sequence : BitVec 8) (nexthop : Option UipIpaddr)
deriving DecidableEq

namespace DaoState

/-- The state of a node that has just started. -/
def init : DaoState where
  routes := .init
  state := fun _ => ⟨0, 0, false, false⟩
  daoSequence := 240
  myDaoSeqno := 0
  myDaoTransmissions := 0
  daoRetransmitTimer := false
  lastSent := fun _ => none

/-! ## Routes -/

/-- A route for the target that goes to the next hop already. -/
def keptRoute (s : DaoState) (cache : NbrCache) (ipaddr nexthop : UipIpaddr) : Option RouteId :=
  (s.routes.uipDs6RouteLookup ipaddr).1.filter fun r =>
    cache.ipaddrFromLladdr (s.routes.nbr.lladdr (s.routes.route r).neighborRoutes) = some nexthop

section

variable (cfg : RouteConfig) (s : DaoState)

/-- `uip_ds6_route_add`, which clears the state of a new route. -/
def uipDs6RouteAdd (cache : NbrCache) (ipaddr : UipIpaddr)
    (length : BitVec 8) (nexthop : UipIpaddr) : Option RouteId × DaoState :=
  match s.routes.uipDs6RouteAdd cfg cache ipaddr length nexthop with
  | (none, routes) => (none, { s with routes := routes })
  | (some r, routes) =>
    (some r,
      { s with
        routes := routes
        state := if s.keptRoute cache ipaddr nexthop = some r then s.state
          else Function.update s.state r ⟨0, 0, false, false⟩ })

/-- `rpl_add_route` -/
def rplAddRoute (cache : NbrCache) (ipaddr : UipIpaddr)
    (length : BitVec 8) (nexthop : UipIpaddr) : Option RouteId × DaoState :=
  match s.uipDs6RouteAdd cfg cache ipaddr length nexthop with
  | (none, s) => (none, s)
  | (some r, s) =>
    (some r,
      { s with state := Function.update s.state r { s.state r with nopathReceived := false } })

/-- `rpl_icmp6_update_nbr_table` -/
def updateNbrTable (neighbors : List NbrAddition) : DaoState :=
  { s with
    routes := neighbors.foldl
      (fun t n => (t.step cfg (.nbrAdd n.table n.addr n.reason n.candidate)).getD t) s.routes }

end

/-! ## DAOs -/

/-- `dao_output` -/
def daoOutput (s : DaoState) (lifetime : BitVec 8) (hasAddr : Bool) : DaoState :=
  if !hasAddr then s
  else
    let sequence := rplLollipopIncrement s.daoSequence
    let s := { s with daoSequence := sequence }
    if lifetime ≠ 0 then
      { s with
        myDaoSeqno := sequence
        myDaoTransmissions := 1
        daoRetransmitTimer := true
        lastSent := Function.update s.lastSent sequence (some .own) }
    else s

/-- `handle_dao_retransmission`; a local repair stops the timer, too. -/
def handleDaoRetransmission (maxRetransmissions : ℕ) (s : DaoState) (hasAddr : Bool) : DaoState :=
  if maxRetransmissions ≤ s.myDaoTransmissions ∨ !hasAddr then
    { s with daoRetransmitTimer := false }
  else
    { s with
      myDaoTransmissions := s.myDaoTransmissions + 1
      lastSent := Function.update s.lastSent s.myDaoSeqno (some .own) }

/-- `prepare_for_dao_fwd`, before the DAO is sent to the parent. -/
def prepareForDaoFwd (s : DaoState) (sequence : BitVec 8) (rep : RouteId) : DaoState :=
  let out := rplLollipopIncrement s.daoSequence
  { s with
    daoSequence := out
    state := Function.update s.state rep
      { s.state rep with daoSeqnoIn := sequence, daoSeqnoOut := out, daoPending := true }
    lastSent := Function.update s.lastSent out (some (.forwarded rep sequence)) }

/-- A DAO is forwarded to the parent; one that is pending, with its number. -/
def forwardDao (s : DaoState) (sequence : BitVec 8) (rep : RouteId) : DaoState :=
  if (s.state rep).daoPending ∧ (s.state rep).daoSeqnoIn = sequence then
    { s with
      lastSent := Function.update s.lastSent (s.state rep).daoSeqnoOut
        (some (.forwarded rep sequence)) }
  else s.prepareForDaoFwd sequence rep

/-- The route a No-Path DAO is for. -/
def nopathRoute (s : DaoState) (m : DaoInput) : Option RouteId :=
  (s.routes.uipDs6RouteLookup m.target).1.filter fun r =>
    !(s.state r).nopathReceived && (s.routes.route r).length = m.prefixlen &&
      m.cache.ipaddrFromLladdr (s.routes.nbr.lladdr (s.routes.route r).neighborRoutes) =
        some m.sender

/-- `dao_input_storing` -/
def daoInputStoring (cfg : RouteConfig) (s : DaoState) (m : DaoInput) : DaoState :=
  let nopath := s.nopathRoute m
  let s := { s with routes := (s.routes.uipDs6RouteLookup m.target).2 }
  if m.lifetime = 0 then
    match nopath with
    | none => s
    | some r =>
      let s := { s with state := Function.update s.state r { s.state r with nopathReceived := true } }
      if m.hasParent then s.prepareForDaoFwd m.sequence r else s
  else
    match m.neighbors with
    | none => s
    | some neighbors =>
      match (s.updateNbrTable cfg neighbors).rplAddRoute cfg m.cache m.target m.prefixlen m.sender with
      | (none, s) => s
      | (some r, s) => if m.unicast ∧ m.hasParent then s.forwardDao m.sequence r else s

/-! ## Acknowledgements -/

/-- `find_route_entry_by_dao_ack` -/
def findRouteEntryByDaoAck (s : DaoState) (sequence : BitVec 8) : Option RouteId :=
  s.routes.routelist.find? fun r =>
    (s.state r).daoSeqnoOut = sequence && (s.state r).daoPending

/-- `dao_ack_input` -/
def daoAckInput (cfg : RouteConfig) (s : DaoState) (m : DaoAckInput) : DaoAttribution × DaoState :=
  if !m.fromParent || m.isRoot then (.nobody, s)
  else if m.sequence = s.myDaoSeqno then (.own, { s with daoRetransmitTimer := false })
  else
    match s.findRouteEntryByDaoAck m.sequence with
    | none => (.nobody, s)
    | some r =>
      let nexthop :=
        m.cache.ipaddrFromLladdr (s.routes.nbr.lladdr (s.routes.route r).neighborRoutes)
      let cleared :=
        { s with state := Function.update s.state r { s.state r with daoPending := false } }
      (.route r (s.state r).daoSeqnoIn nexthop,
        if 128 ≤ m.status then { cleared with routes := s.routes.uipDs6RouteRm cfg r } else cleared)

end DaoState

/-- What happens to a node: its own DAOs and their retransmissions, DAOs of its sub-tree,
acknowledgements, and what else is done with routes. -/
inductive DaoEvent where
  | output (lifetime : BitVec 8) (hasAddr : Bool)
  | retransmission (hasAddr : Bool)
  | stopRetransmission
  | input (m : DaoInput)
  | ack (m : DaoAckInput)
  | route (e : RouteEvent)

/-- Other modules' operations on the routes. -/
def DaoState.routeStep (cfg : RouteConfig) (s : DaoState) : RouteEvent → Option DaoState
  | .add cache ipaddr length nexthop => some (s.uipDs6RouteAdd cfg cache ipaddr length nexthop).2
  | e => (s.routes.step cfg e).map fun routes => { s with routes := routes }

/-- The state after an event; the retransmission timer expires when it runs. -/
def DaoState.step (cfg : RouteConfig) (maxRetransmissions : ℕ) (s : DaoState) :
    DaoEvent → Option DaoState
  | .output lifetime hasAddr => some (s.daoOutput lifetime hasAddr)
  | .retransmission hasAddr =>
    if s.daoRetransmitTimer then some (s.handleDaoRetransmission maxRetransmissions hasAddr) else none
  | .stopRetransmission => some { s with daoRetransmitTimer := false }
  | .input m => some (s.daoInputStoring cfg m)
  | .ack m => some (s.daoAckInput cfg m).2
  | .route e => s.routeStep cfg e

namespace DaoState

/-! ## What an acknowledgement is for -/

/-- Whether a DAO is waiting for its acknowledgement under a number. -/
def isOutstanding (s : DaoState) (sequence : BitVec 8) : SentDao → Bool
  | .own => s.daoRetransmitTimer && s.myDaoSeqno = sequence
  | .forwarded r _ =>
    r ∈ s.routes.routelist && (s.state r).daoPending && (s.state r).daoSeqnoOut = sequence

/-- The DAO that was last sent with a number, if it is outstanding. -/
def outstandingDao (s : DaoState) (sequence : BitVec 8) : Option SentDao :=
  (s.lastSent sequence).filter (s.isOutstanding sequence)

/-- What is to be done with an acknowledgement of a DAO: that of a route goes to its next hop,
with the number the DAO came with. -/
def attributionOf (s : DaoState) (cache : NbrCache) : Option SentDao → DaoAttribution
  | none => .nobody
  | some .own => .own
  | some (.forwarded r sequence) =>
    .route r sequence (cache.ipaddrFromLladdr (s.routes.route r).nexthop)

/-- No route waits under the number of another one that waits, or under that of the last own
DAO. -/
def Distinct (s : DaoState) : Prop :=
  ∀ r ∈ s.routes.routelist, (s.state r).daoPending →
    (s.state r).daoSeqnoOut ≠ s.myDaoSeqno ∧
      ∀ r' ∈ s.routes.routelist, (s.state r').daoPending →
        (s.state r').daoSeqnoOut = (s.state r).daoSeqnoOut → r' = r

instance (s : DaoState) : Decidable s.Distinct := inferInstanceAs (Decidable (∀ r ∈ _, _ → _))

/-- Numbers that are waited for are different, and an acknowledgement with the number of the
last own DAO comes while it is outstanding. -/
def Cond (s : DaoState) (e : DaoEvent) : Prop :=
  s.Distinct ∧ match e with
    | .ack m => m.fromParent = true → m.isRoot = false → m.sequence = s.myDaoSeqno →
        s.daoRetransmitTimer = true
    | _ => True

instance (s : DaoState) : ∀ e, Decidable (s.Cond e)
  | .ack m => inferInstanceAs (Decidable (s.Distinct ∧ (m.fromParent = true → m.isRoot = false →
      m.sequence = s.myDaoSeqno → s.daoRetransmitTimer = true)))
  | .output _ _ => inferInstanceAs (Decidable (s.Distinct ∧ True))
  | .retransmission _ => inferInstanceAs (Decidable (s.Distinct ∧ True))
  | .stopRetransmission => inferInstanceAs (Decidable (s.Distinct ∧ True))
  | .input _ => inferInstanceAs (Decidable (s.Distinct ∧ True))
  | .route _ => inferInstanceAs (Decidable (s.Distinct ∧ True))

variable {cfg : RouteConfig} {maxRetransmissions : ℕ} {s s' t : DaoState} {r : RouteId}

/-! ## Fewer routes that wait -/

/-- No route waits that did not, and nothing has been sent. -/
structure Fewer (s s' : DaoState) : Prop where
  route : ∀ r ∈ s'.routes.routelist, (s'.state r).daoPending → r ∈ s.routes.routelist ∧
    (s.state r).daoPending ∧ (s'.state r).daoSeqnoOut = (s.state r).daoSeqnoOut ∧
    (s'.state r).daoSeqnoIn = (s.state r).daoSeqnoIn
  myDaoSeqno : s'.myDaoSeqno = s.myDaoSeqno
  timer : s'.daoRetransmitTimer → s.daoRetransmitTimer
  lastSent : s'.lastSent = s.lastSent

theorem Fewer.refl (s : DaoState) : Fewer s s := ⟨fun _ hr hp => ⟨hr, hp, rfl, rfl⟩, rfl, id, rfl⟩

theorem Fewer.trans (h : Fewer s s') (h' : Fewer s' t) : Fewer s t := by
  refine ⟨?_, h'.myDaoSeqno.trans h.myDaoSeqno, fun ht => h.timer (h'.timer ht),
    h'.lastSent.trans h.lastSent⟩
  intro r hr hpending
  obtain ⟨hr', hpending', hout, hin⟩ := h'.route r hr hpending
  obtain ⟨hr'', hpending'', hout', hin'⟩ := h.route r hr' hpending'
  exact ⟨hr'', hpending'', hout.trans hout', hin.trans hin'⟩

theorem Fewer.routes {routes : RouteTable} (h : ∀ r ∈ routes.routelist, r ∈ s.routes.routelist) :
    Fewer s { s with routes := routes } :=
  ⟨fun r hr hpending => ⟨h r hr, hpending, rfl, rfl⟩, rfl, id, rfl⟩

/-- The flag for No-Path DAOs is changed. -/
theorem Fewer.nopath (s : DaoState) (r : RouteId) (value : Bool) : Fewer s { s with
    state := update s.state r { s.state r with nopathReceived := value } } := by
  refine ⟨?_, rfl, id, rfl⟩
  intro r' hr' hpending
  by_cases heq : r' = r
  · subst heq
    have hp : (s.state r').daoPending := by simpa using hpending
    simpa using ⟨hr', hp⟩
  · have hp : (s.state r').daoPending := by simpa [heq] using hpending
    simpa [heq] using ⟨hr', hp⟩

/-- An acknowledgement is no longer waited for. -/
theorem Fewer.cleared (s : DaoState) (r : RouteId) : Fewer s { s with
    state := update s.state r { s.state r with daoPending := false } } := by
  refine ⟨?_, rfl, id, rfl⟩
  intro r' hr' hpending
  by_cases heq : r' = r
  · simp [heq] at hpending
  · have hp : (s.state r').daoPending := by simpa [heq] using hpending
    simpa [heq] using ⟨hr', hp⟩

/-! ## Routes -/

theorem updateNbrTable_ok (h : s.routes.Ok cfg) (neighbors : List NbrAddition) :
    (s.updateNbrTable cfg neighbors).routes.Ok cfg ∧ Fewer s (s.updateNbrTable cfg neighbors) := by
  have hfold : ∀ (ns : List NbrAddition) (u : RouteTable), u.Ok cfg →
      (ns.foldl (fun t n => (t.step cfg (.nbrAdd n.table n.addr n.reason n.candidate)).getD t) u).Ok
        cfg ∧
      ∀ r ∈ (ns.foldl (fun t n =>
        (t.step cfg (.nbrAdd n.table n.addr n.reason n.candidate)).getD t) u).routelist,
        r ∈ u.routelist := by
    intro ns
    induction ns with
    | nil => exact fun u hu => ⟨hu, fun _ hr => hr⟩
    | cons n ns ih =>
      intro u hu
      rw [List.foldl_cons]
      cases hstep : u.step cfg (.nbrAdd n.table n.addr n.reason n.candidate) with
      | none => exact ih u hu
      | some v =>
        obtain ⟨hok, hsub⟩ := ih v (hu.step hstep)
        refine ⟨hok, fun r hr => ?_⟩
        rcases hu.mem_step hstep (hsub r hr) with hmem | ⟨_, _, _, _, hevent, _⟩
        · exact hmem
        · cases hevent
  obtain ⟨hok, hsub⟩ := hfold neighbors s.routes h
  exact ⟨hok, Fewer.routes hsub⟩

theorem lookup_ok (h : s.routes.Ok cfg) (addr : UipIpaddr) :
    (s.routes.uipDs6RouteLookup addr).2.Ok cfg ∧
      ∀ r, r ∈ (s.routes.uipDs6RouteLookup addr).2.routelist ↔ r ∈ s.routes.routelist := by
  refine ⟨h.lookup addr, ?_⟩
  intro r
  rcases s.routes.lookup_cases addr with heq | ⟨r', hr', heq⟩
  · rw [heq]
  · rw [heq]
    exact (List.perm_cons_erase hr').mem_iff.symm

theorem lookup_mem {addr : UipIpaddr} (hr : (s.routes.uipDs6RouteLookup addr).1 = some r) :
    r ∈ s.routes.routelist := by
  rcases s.routes.lookup_cases addr with heq | ⟨r', hr', heq⟩
  · rw [heq] at hr
    cases hr
  · rw [heq] at hr
    cases hr
    exact hr'

/-- The table of routes is in order, no more of them wait, and it has the one that is returned. -/
def Adds (cfg : RouteConfig) (s : DaoState) (added : Option RouteId × DaoState) : Prop :=
  added.2.routes.Ok cfg ∧ Fewer s added.2 ∧ ∀ r, added.1 = some r → r ∈ added.2.routes.routelist

/-- A route that is added does not wait for anything but what it did. -/
theorem uipDs6RouteAdd_ok (h : s.routes.Ok cfg) (cache : NbrCache) (ipaddr : UipIpaddr)
    (length : BitVec 8) (nexthop : UipIpaddr) :
    Adds cfg s (s.uipDs6RouteAdd cfg cache ipaddr length nexthop) := by
  obtain ⟨hok, -, hmem, hnew⟩ := h.uipDs6RouteAdd cache ipaddr length nexthop
  obtain ⟨p, hp⟩ : ∃ p, s.routes.uipDs6RouteAdd cfg cache ipaddr length nexthop = p := ⟨_, rfl⟩
  obtain ⟨res, routes⟩ := p
  rw [hp] at hok hmem hnew
  cases res with
  | none =>
    simp only [Adds, DaoState.uipDs6RouteAdd, hp]
    refine ⟨hok, Fewer.routes ?_, by simp⟩
    intro r hr
    simpa using hmem r hr
  | some r =>
    simp only [Adds, DaoState.uipDs6RouteAdd, hp]
    refine ⟨hok, ⟨?_, rfl, id, rfl⟩, by simpa using hnew r rfl⟩
    intro r' hr' hpending
    by_cases heq : r' = r
    · subst heq
      split_ifs at hpending with hkept
      · rw [if_pos hkept]
        have hfound := (Option.filter_eq_some_iff.mp hkept).1
        exact ⟨lookup_mem hfound, hpending, rfl, rfl⟩
      · simp at hpending
    · have hold : r' ∈ s.routes.routelist := by
        rcases hmem r' hr' with hold | hsome
        · exact hold
        · exact absurd (Option.some.inj hsome).symm heq
      split_ifs at hpending ⊢
      · exact ⟨hold, hpending, rfl, rfl⟩
      · simp only [update_of_ne heq] at hpending ⊢
        exact ⟨hold, hpending, trivial, trivial⟩

theorem rplAddRoute_ok (h : s.routes.Ok cfg) (cache : NbrCache) (ipaddr : UipIpaddr)
    (length : BitVec 8) (nexthop : UipIpaddr) :
    Adds cfg s (s.rplAddRoute cfg cache ipaddr length nexthop) := by
  obtain ⟨hok, hfewer, hmem⟩ := uipDs6RouteAdd_ok h cache ipaddr length nexthop
  obtain ⟨p, hp⟩ : ∃ p, s.uipDs6RouteAdd cfg cache ipaddr length nexthop = p := ⟨_, rfl⟩
  obtain ⟨res, u⟩ := p
  rw [hp] at hok hfewer hmem
  simp only [Adds, DaoState.rplAddRoute, hp]
  cases res with
  | none => exact ⟨hok, hfewer, by simp⟩
  | some r =>
    refine ⟨hok, hfewer.trans (Fewer.nopath u r false), ?_⟩
    simpa using hmem r rfl

/-! ## What is recorded -/

/-- What was sent last with the number of a route that waits is the DAO of that route, and with
the number of an own DAO that is outstanding, that DAO. -/
structure Recorded (s : DaoState) : Prop where
  route : ∀ r ∈ s.routes.routelist, (s.state r).daoPending →
    s.lastSent (s.state r).daoSeqnoOut = some (.forwarded r (s.state r).daoSeqnoIn)
  own : s.daoRetransmitTimer → s.lastSent s.myDaoSeqno = some .own

theorem Recorded.fewer (h : Recorded s) (hs : Fewer s s') : Recorded s' := by
  constructor
  · intro r hr hpending
    obtain ⟨hr', hpending', hout, hin⟩ := hs.route r hr hpending
    rw [hs.lastSent, hout, hin]
    exact h.route r hr' hpending'
  · intro htimer
    rw [hs.lastSent, hs.myDaoSeqno]
    exact h.own (hs.timer htimer)

theorem Recorded.daoOutput (h : Recorded s) (lifetime : BitVec 8) (hasAddr : Bool)
    (hdistinct : (s.daoOutput lifetime hasAddr).Distinct) :
    Recorded (s.daoOutput lifetime hasAddr) := by
  simp only [DaoState.daoOutput] at hdistinct ⊢
  split_ifs at hdistinct ⊢
  · exact h
  · refine ⟨?_, by simp⟩
    intro r hr hpending
    have hne := (hdistinct r hr hpending).1
    simp only at hne ⊢
    rw [update_of_ne hne]
    exact h.route r hr hpending
  · exact ⟨h.route, h.own⟩

theorem Recorded.handleDaoRetransmission (h : Recorded s) (hasAddr : Bool)
    (hdistinct : (s.handleDaoRetransmission maxRetransmissions hasAddr).Distinct) :
    Recorded (s.handleDaoRetransmission maxRetransmissions hasAddr) := by
  simp only [DaoState.handleDaoRetransmission] at hdistinct ⊢
  split_ifs at hdistinct ⊢
  · exact ⟨h.route, by simp⟩
  · refine ⟨?_, by simp⟩
    intro r hr hpending
    have hne := (hdistinct r hr hpending).1
    simp only at hne ⊢
    rw [update_of_ne hne]
    exact h.route r hr hpending

/-- A DAO is sent on under a new number, which nobody waits for. -/
theorem Recorded.prepareForDaoFwd (h : Recorded s) (hr : r ∈ s.routes.routelist)
    (sequence : BitVec 8) (hdistinct : (s.prepareForDaoFwd sequence r).Distinct) :
    Recorded (s.prepareForDaoFwd sequence r) := by
  have hself := hdistinct r hr (by simp [DaoState.prepareForDaoFwd])
  simp only [DaoState.prepareForDaoFwd, update_self] at hself ⊢
  refine ⟨?_, ?_⟩
  · intro r' hr' hpending
    by_cases heq : r' = r
    · subst heq
      simp
    · have hne : (s.state r').daoSeqnoOut ≠ rplLollipopIncrement s.daoSequence := by
        intro hout
        have hpending' : (s.state r').daoPending := by simpa [heq] using hpending
        refine heq (hself.2 r' hr' ?_ ?_)
        · simpa [heq] using hpending'
        · simpa [heq] using hout
      have hpending' : (s.state r').daoPending := by simpa [heq] using hpending
      simp only [update_of_ne heq, update_of_ne hne]
      exact h.route r' hr' hpending'
  · intro htimer
    simp only
    rw [update_of_ne hself.1.symm]
    exact h.own htimer

theorem Recorded.forwardDao (h : Recorded s) (hr : r ∈ s.routes.routelist) (sequence : BitVec 8)
    (hdistinct : (s.forwardDao sequence r).Distinct) : Recorded (s.forwardDao sequence r) := by
  simp only [DaoState.forwardDao] at hdistinct ⊢
  split_ifs at hdistinct ⊢ with hpending
  · -- it was sent with this number before
    have hsame : update s.lastSent (s.state r).daoSeqnoOut
        (some (.forwarded r sequence)) = s.lastSent := by
      rw [← hpending.2, ← h.route r hr hpending.1, update_eq_self]
    rw [hsame]
    exact ⟨h.route, h.own⟩
  · exact h.prepareForDaoFwd hr sequence hdistinct

/-! ## Steps -/

theorem routes_forwardDao (s : DaoState) (sequence : BitVec 8) (r : RouteId) :
    (s.forwardDao sequence r).routes = s.routes := by
  simp only [DaoState.forwardDao]
  split_ifs <;> rfl

theorem daoInputStoring_ok (hok : s.routes.Ok cfg) (h : Recorded s) (m : DaoInput) :
    (s.daoInputStoring cfg m).routes.Ok cfg ∧
      ((s.daoInputStoring cfg m).Distinct → Recorded (s.daoInputStoring cfg m)) := by
  obtain ⟨hlookup, hmem⟩ := lookup_ok hok m.target
  have hfewer : Fewer s { s with routes := (s.routes.uipDs6RouteLookup m.target).2 } :=
    Fewer.routes fun r hr => (hmem r).mp hr
  simp only [DaoState.daoInputStoring]
  by_cases hlifetime : m.lifetime = 0
  · simp only [if_pos hlifetime]
    split
    · exact ⟨hlookup, fun _ => h.fewer hfewer⟩
    · rename_i r hroute
      have hr : r ∈ (s.routes.uipDs6RouteLookup m.target).2.routelist :=
        (hmem r).mpr (lookup_mem (Option.filter_eq_some_iff.mp hroute).1)
      have hrecorded := h.fewer (hfewer.trans (Fewer.nopath _ r true))
      split_ifs
      · exact ⟨hlookup, hrecorded.prepareForDaoFwd hr m.sequence⟩
      · exact ⟨hlookup, fun _ => hrecorded⟩
  · simp only [if_neg hlifetime]
    split
    · exact ⟨hlookup, fun _ => h.fewer hfewer⟩
    · rename_i neighbors _
      obtain ⟨u, hu⟩ : ∃ u, ({ s with routes := (s.routes.uipDs6RouteLookup m.target).2 } :
        DaoState).updateNbrTable cfg neighbors = u := ⟨_, rfl⟩
      obtain ⟨hnbr, hfewer'⟩ := updateNbrTable_ok (s := { s with
        routes := (s.routes.uipDs6RouteLookup m.target).2 }) hlookup neighbors
      rw [hu] at hnbr hfewer' ⊢
      obtain ⟨hadd, hfewer'', hin⟩ := rplAddRoute_ok hnbr m.cache m.target m.prefixlen m.sender
      have hrecorded := h.fewer ((hfewer.trans hfewer').trans hfewer'')
      obtain ⟨p, hp⟩ : ∃ p, u.rplAddRoute cfg m.cache m.target m.prefixlen m.sender = p := ⟨_, rfl⟩
      obtain ⟨res, v⟩ := p
      rw [hp] at hadd hin hrecorded ⊢
      cases res with
      | none => exact ⟨hadd, fun _ => hrecorded⟩
      | some r =>
        simp only
        split_ifs
        · rw [routes_forwardDao]
          exact ⟨hadd, hrecorded.forwardDao (hin r rfl) m.sequence⟩
        · exact ⟨hadd, fun _ => hrecorded⟩

theorem find_mem {sequence : BitVec 8} (h : s.findRouteEntryByDaoAck sequence = some r) :
    r ∈ s.routes.routelist ∧ (s.state r).daoSeqnoOut = sequence ∧ (s.state r).daoPending := by
  have hfound := List.find?_some h
  simp only [Bool.and_eq_true, decide_eq_true_iff] at hfound
  exact ⟨List.mem_of_find?_eq_some h, hfound⟩

theorem daoAckInput_ok (hok : s.routes.Ok cfg) (m : DaoAckInput) :
    (s.daoAckInput cfg m).2.routes.Ok cfg ∧ Fewer s (s.daoAckInput cfg m).2 := by
  have hown : Fewer s { s with daoRetransmitTimer := false } :=
    ⟨fun r hr hpending => ⟨hr, hpending, rfl, rfl⟩, rfl, by simp, rfl⟩
  cases hfind : s.findRouteEntryByDaoAck m.sequence with
  | none =>
    simp only [DaoState.daoAckInput, hfind]
    split_ifs
    · exact ⟨hok, .refl s⟩
    · exact ⟨hok, hown⟩
    · exact ⟨hok, .refl s⟩
  | some r =>
    have hr := (find_mem hfind).1
    simp only [DaoState.daoAckInput, hfind]
    split_ifs
    · exact ⟨hok, .refl s⟩
    · exact ⟨hok, hown⟩
    · refine ⟨hok.rm hr, (Fewer.cleared s r).trans (Fewer.routes ?_)⟩
      intro r' hr'
      exact List.mem_of_mem_erase hr'
    · exact ⟨hok, Fewer.cleared s r⟩

theorem routeStep_ok {e : RouteEvent} (hok : s.routes.Ok cfg) (hstep : s.routeStep cfg e = some s') :
    s'.routes.Ok cfg ∧ Fewer s s' := by
  have hother : (s.routes.step cfg e).map (fun routes => { s with routes := routes }) = some s' →
      (∀ cache ipaddr length nexthop, e ≠ .add cache ipaddr length nexthop) →
      s'.routes.Ok cfg ∧ Fewer s s' := by
    intro hmap hne
    obtain ⟨routes, hroutes, rfl⟩ := Option.map_eq_some_iff.mp hmap
    refine ⟨hok.step hroutes, Fewer.routes fun r hr => ?_⟩
    rcases hok.mem_step hroutes hr with hold | ⟨cache, ipaddr, length, nexthop, heq, -⟩
    · exact hold
    · exact absurd heq (hne cache ipaddr length nexthop)
  cases e with
  | add cache ipaddr length nexthop =>
    cases hstep
    obtain ⟨hadd, hfewer, -⟩ := uipDs6RouteAdd_ok hok cache ipaddr length nexthop
    exact ⟨hadd, hfewer⟩
  | lookup addr => exact hother hstep (by simp)
  | rm r => exact hother hstep (by simp)
  | rmByNexthop cache nexthop => exact hother hstep (by simp)
  | nbrAdd table addr reason candidate => exact hother hstep (by simp)
  | nbrRemove table i => exact hother hstep (by simp)
  | nbrLock table i value => exact hother hstep (by simp)

/-- The table of routes is in order, and as long as numbers are different, what waits under them
was sent last with them. -/
structure Inv (cfg : RouteConfig) (s : DaoState) : Prop where
  ok : s.routes.Ok cfg
  recorded : s.Distinct → Recorded s

theorem init_inv : Inv cfg init :=
  ⟨RouteTable.init_ok, fun _ => ⟨by simp [init, RouteTable.init], by simp [init]⟩⟩

theorem Inv.step {e : DaoEvent} (h : Inv cfg s) (hcond : s.Cond e)
    (hstep : s.step cfg maxRetransmissions e = some s') : Inv cfg s' := by
  have hrecorded := h.recorded hcond.1
  cases e with
  | output lifetime hasAddr =>
    cases hstep
    refine ⟨?_, hrecorded.daoOutput lifetime hasAddr⟩
    simp only [DaoState.daoOutput]
    split_ifs <;> exact h.ok
  | retransmission hasAddr =>
    simp only [DaoState.step] at hstep
    split_ifs at hstep
    cases hstep
    refine ⟨?_, hrecorded.handleDaoRetransmission hasAddr⟩
    simp only [DaoState.handleDaoRetransmission]
    split_ifs <;> exact h.ok
  | stopRetransmission =>
    cases hstep
    exact ⟨h.ok, fun _ => ⟨hrecorded.route, by simp⟩⟩
  | input m =>
    cases hstep
    obtain ⟨hok, hrec⟩ := daoInputStoring_ok h.ok hrecorded m
    exact ⟨hok, hrec⟩
  | ack m =>
    cases hstep
    obtain ⟨hok, hfewer⟩ := daoAckInput_ok h.ok m
    exact ⟨hok, fun _ => hrecorded.fewer hfewer⟩
  | route e =>
    obtain ⟨hok, hfewer⟩ := routeStep_ok h.ok hstep
    exact ⟨hok, fun _ => hrecorded.fewer hfewer⟩

/-! ## Attribution -/

/-- **One acknowledgement** goes to the DAO that was last sent with its number. -/
theorem Inv.attribution (h : Inv cfg s) {m : DaoAckInput} (hcond : s.Cond (.ack m))
    (hparent : m.fromParent = true) (hroot : m.isRoot = false) :
    (s.daoAckInput cfg m).1 = s.attributionOf m.cache (s.outstandingDao m.sequence) := by
  have hrecorded := h.recorded hcond.1
  simp only [DaoState.daoAckInput, hparent, hroot, outstandingDao]
  simp only [Bool.not_true, Bool.or_self, Bool.false_eq_true, if_false]
  by_cases hown : m.sequence = s.myDaoSeqno
  · have htimer := hcond.2 hparent hroot hown
    rw [if_pos hown, hown, hrecorded.own htimer]
    simp [isOutstanding, htimer, attributionOf, Option.filter_some]
  · rw [if_neg hown]
    split
    · rename_i hnone
      cases hsent : s.lastSent m.sequence with
      | none => rfl
      | some d =>
        have hnot : s.isOutstanding m.sequence d = false := by
          cases d with
          | own => simp [isOutstanding, Ne.symm hown]
          | forwarded r sequence =>
            have hfind := List.find?_eq_none.mp hnone r
            simp only [isOutstanding]
            by_contra hwait
            simp only [Bool.not_eq_false, Bool.and_eq_true, decide_eq_true_iff] at hwait
            exact hfind hwait.1.1 (by simp [hwait.1.2, hwait.2])
        rw [Option.filter_some, hnot]
        rfl
    · rename_i r hfind
      obtain ⟨hr, hout, hpending⟩ := find_mem hfind
      have hsent := hrecorded.route r hr hpending
      rw [hout] at hsent
      rw [hsent, Option.filter_some]
      simp [isOutstanding, hr, hout, hpending, attributionOf, h.ok.nexthop r hr]

/-- **Attribution in every run.** As long as numbers that are waited for are different, and an
acknowledgement with the number of the last own DAO comes while that one is outstanding, each
acknowledgement is attributed to the DAO that was last sent with its number. -/
theorem dao_ack_attribution {es : List DaoEvent} {m : DaoAckInput}
    (hrun : run (step cfg maxRetransmissions) init es = some s)
    (halong : Along (step cfg maxRetransmissions) Cond init (es ++ [.ack m]))
    (hparent : m.fromParent = true) (hroot : m.isRoot = false) :
    (s.daoAckInput cfg m).1 = s.attributionOf m.cache (s.outstandingDao m.sequence) := by
  obtain ⟨hes, hack⟩ := (along_append hrun).mp halong
  have hinv : Inv cfg s := run_induction (Inv cfg)
    (fun _ _ _ hcond h hstep => h.step hcond hstep) init_inv hes hrun
  exact hinv.attribution hack.1 hparent hroot

/-- A DAO of a child for the same target, under a number. -/
def childDao (sequence : BitVec 8) : DaoEvent := .input
  { sender := RouteTable.everywhere 1
    unicast := true
    sequence := sequence
    target := RouteTable.everywhere 10
    prefixlen := 128
    lifetime := 30
    cache := RouteTable.twoNeighbors
    neighbors := some []
    hasParent := true }

/-- An acknowledgement of the parent. -/
def parentAck (sequence : BitVec 8) : DaoAckInput := ⟨sequence, 0, true, false, RouteTable.twoNeighbors⟩

/-- An own DAO and one of a child, which the parent acknowledges. -/
def ownThenChild : List DaoEvent := [.output 30 true, childDao 7]

theorem dao_ack_attribution_child : ∃ s, run (step RouteTable.twoRoutes 5) init ownThenChild = some s ∧
    s.outstandingDao 242 = some (.forwarded 0 7) ∧
    (s.daoAckInput RouteTable.twoRoutes (parentAck 242)).1 =
      s.attributionOf RouteTable.twoNeighbors (s.outstandingDao 242) :=
  ⟨_, rfl, by decide, @dao_ack_attribution RouteTable.twoRoutes 5 _ ownThenChild (parentAck 242) rfl
    (by decide) rfl rfl⟩

/-- Sixteen DAOs of a child before the first own one: the last is sent with the number 0. -/
def sixteenDaos : List DaoEvent := (List.range 16).map fun i => childDao (BitVec.ofNat 8 i)

/-- **An acknowledgement of a child's DAO is taken for one of an own DAO**, of which there has
been none. -/
theorem dao_ack_misattributed : ∃ s, run (step RouteTable.twoRoutes 5) init sixteenDaos = some s ∧
    s.outstandingDao 0 = some (.forwarded 0 15) ∧
    (s.daoAckInput RouteTable.twoRoutes (parentAck 0)).1 = .own :=
  ⟨_, rfl, by decide +kernel, by decide +kernel⟩

end DaoState

end Asap.Rpl
