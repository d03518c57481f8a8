import Asap.Sixtop.Evolution

/-!
# Exactly once

Each allocation of a block is a transaction, and the node's role in it is fixed then: it
answers in those that a received request has allocated. A packet is handed to the scheduling
function when the transition for it succeeds, and no rule leads back to a state in which the
transition would succeed again.

## Main definitions

* `sfInput` — the call of the scheduling function's `input` by `sixp_input`.
* `Reception` — what a received packet changes before any error is sent back.
* `Traced` — a state with the roles and the calls so far.
-/

namespace Asap.Sixtop

open Asap.Lib Asap.Tsch Function Option List

/-- A call of the scheduling function's `input`: the transaction, and what the packet has. -/
structure SfCall where
  trans : TransId
  alloc : ℕ
  type : SixpPktType
  seqno : BitVec 8
  srcAddr : LinkAddr
deriving DecidableEq

namespace Sixp

variable {maxTransactions : ℕ} {s t u : Sixp} {b : TransId} {o : Option SfCall}

/-- The packet is handed over if the transition succeeds. -/
def handOver (s : Sixp) (b : TransId) (newState : SixpTransState) (type : SixpPktType)
    (seqno : BitVec 8) (srcAddr : LinkAddr) : Option SfCall :=
  if (s.sixpTransTransitState b newState).1 then some ⟨b, s.allocs b, type, seqno, srcAddr⟩ else none

/-- The end of `sixp_input`: the call of the scheduling function, if it gets there. -/
def sfInput (maxTransactions : ℕ) (s : Sixp) (input : SixpInput) (srcAddr : LinkAddr) :
    Option SfCall :=
  match input with
  | .badVersion => none
  | .malformed => none
  | .pkt type cmd seqno sfKnown cellListEmpty =>
    if !sfKnown then none
    else
      match type, s.sixpTransFind srcAddr with
      | .request, none =>
        let s := if cmd = sixpPktCmdClear then s.updateSeqno srcAddr fun _ => 0 else s
        match s.sixpTransAlloc maxTransactions sfKnown srcAddr seqno cmd cellListEmpty with
        | none => none
        | some (b, s) =>
          if cmd ≠ sixpPktCmdClear ∧ s.inconsistent srcAddr seqno then none
          else s.handOver b .requestReceived type seqno srcAddr
      | .response, some b =>
        if (s.trans b).seqno ≠ seqno then none
        else s.handOver b .responseReceived type seqno srcAddr
      | .confirmation, some b =>
        if (s.trans b).seqno ≠ seqno then none
        else s.handOver b .confirmationReceived type seqno srcAddr
      | _, _ => none

/-- The state that a packet of a type is received in. -/
def receivedState : SixpPktType → SixpTransState
  | .request => .requestReceived
  | .response => .responseReceived
  | .confirmation => .confirmationReceived
  | .reserved => .unavailable

/-- The reception of a packet, before any error is sent back: nothing, a new transaction that
has received its request, or a transition of one there is. -/
inductive Reception (s t : Sixp) : Option SfCall → Prop
  | nothing (htrans : t.trans = s.trans) (hused : t.used = s.used) (hallocs : t.allocs = s.allocs) :
      Reception s t none
  | request {o : Option SfCall} {b : TransId} (hfree : s.used b = false)
      (hused : t.used = Function.update s.used b true)
      (hallocs : t.allocs = Function.update s.allocs b (s.allocs b + 1))
      (htrans : ∀ b' ≠ b, t.trans b' = s.trans b')
      (hstate : (t.trans b).state = .requestReceived)
      (hcall : ∀ c ∈ o, c = ⟨b, t.allocs b, .request, (t.trans b).seqno, (t.trans b).peerAddr⟩) :
      Reception s t o
  | answer {b : TransId} {type : SixpPktType} (hb : s.used b)
      (htype : type = .response ∨ type = .confirmation)
      (hmay : mayTransit (s.trans b).mode (s.trans b).state (receivedState type))
      (hused : t.used = s.used) (hallocs : t.allocs = s.allocs)
      (htrans : ∀ b' ≠ b, t.trans b' = s.trans b')
      (honward : (s.trans b).Onward Edge (t.trans b))
      (hstate : (t.trans b).state = receivedState type) :
      Reception s t (some ⟨b, t.allocs b, type, (t.trans b).seqno, (t.trans b).peerAddr⟩)

/-- A response or a confirmation. -/
theorem Consistent.answer (h : Consistent s) {type : SixpPktType} {seqno : BitVec 8}
    {srcAddr : LinkAddr} (htype : type = .response ∨ type = .confirmation)
    (hfind : s.sixpTransFind srcAddr = some b) :
    let t := if (s.trans b).seqno ≠ seqno then s
      else (s.sixpTransTransitState b (receivedState type)).2
    Consistent t ∧ Reception s t (if (s.trans b).seqno ≠ seqno then none
      else s.handOver b (receivedState type) type seqno srcAddr) := by
  have hb := h.used_of_find hfind
  have hpeer : (s.trans b).peerAddr = srcAddr := by simpa using List.find?_some hfind
  simp only
  split_ifs with hne
  · exact ⟨h, .nothing rfl rfl rfl⟩
  · have hseqno : (s.trans b).seqno = seqno := not_not.mp hne
    by_cases hmay : mayTransit (s.trans b).mode (s.trans b).state (receivedState type)
    · obtain ⟨hfst, htrans, hused, -, hallocs⟩ := transit_of hmay
      obtain ⟨hcons, -, -, -⟩ := h.transit (R := Edge) hb (receivedState type) fun _ _ hmay => hmay
      rw [handOver, if_pos hfst]
      generalize (s.sixpTransTransitState b (receivedState type)).2 = t at *
      refine ⟨hcons, ?_⟩
      have hself : t.trans b = { s.trans b with state := receivedState type, timer := some .process } := by
        rw [htrans, setTrans_trans_self]
      have hcall : (⟨b, s.allocs b, type, seqno, srcAddr⟩ : SfCall) =
          ⟨b, t.allocs b, type, (t.trans b).seqno, (t.trans b).peerAddr⟩ := by
        rw [hself, hallocs, hseqno, hpeer]
      rw [hcall]
      refine .answer hb htype hmay hused hallocs ?_ ?_ ?_
      · intro b' hb'
        rw [htrans, setTrans_trans_of_ne _ _ hb']
      · rw [hself]
        exact ⟨rfl, rfl, rfl, rfl, .single hmay⟩
      · rw [hself]
    · rw [handOver, transit_of_not (by simpa using hmay), if_neg (by simp)]
      exact ⟨h, .nothing rfl rfl rfl⟩

/-- A request for which there is a transaction to be had. -/
theorem Consistent.request (h : Consistent s) {sfKnown cellListEmpty : Bool} {srcAddr : LinkAddr}
    {seqno cmd : BitVec 8} {v : Sixp} (hframe : t.trans = s.trans ∧ t.used = s.used ∧
      t.transList = s.transList ∧ t.allocs = s.allocs)
    (halloc : t.sixpTransAlloc maxTransactions sfKnown srcAddr seqno cmd cellListEmpty = some (b, u))
    (hv : (u.sixpTransTransitState b .requestReceived).2 = v) (inconsistent : Prop)
    [Decidable inconsistent] :
    Consistent v ∧ Reception s v (if inconsistent then none
      else u.handOver b .requestReceived .request seqno srcAddr) := by
  obtain ⟨htrans, hused, hlist, hallocs⟩ := hframe
  have ht : Consistent t := h.frame htrans hused hlist
  obtain ⟨hu, -, hfree, hb, hnew, halloc'⟩ := ht.alloc halloc
  have hmay : mayTransit (u.trans b).mode (u.trans b).state .requestReceived := by
    rw [hnew]
    rfl
  obtain ⟨hfst, hvtrans, hvused, -, hvallocs⟩ := transit_of hmay
  obtain ⟨hcons, -, -, -⟩ := hu.transit (R := Edge) hb .requestReceived fun _ _ hmay => hmay
  rw [hv] at hvtrans hvused hvallocs hcons
  have hsame : u.used = update s.used b true ∧ ∀ b' ≠ b, u.trans b' = s.trans b' := by
    simp only [sixpTransAlloc] at halloc
    split_ifs at halloc
    obtain ⟨k, -, heq⟩ := map_eq_some_iff.mp halloc
    obtain ⟨rfl, rfl⟩ := Prod.mk.inj heq
    refine ⟨by rw [← hused], fun b' hb' => ?_⟩
    rw [← htrans]
    exact setTrans_trans_of_ne t _ hb'
  have hself : v.trans b = ⟨srcAddr, seqno, cmd, .requestReceived,
      determineTransMode cmd cellListEmpty, none, some .process⟩ := by
    rw [hvtrans, setTrans_trans_self, hnew]
  refine ⟨hcons, .request (hused ▸ hfree) (hvused.trans hsame.1) ?_ ?_ (by rw [hself]) ?_⟩
  · rw [hvallocs, halloc', hallocs]
  · intro b' hb'
    rw [hvtrans, setTrans_trans_of_ne _ _ hb', hsame.2 b' hb']
  · intro c hc
    split_ifs at hc
    · simp at hc
    · rw [handOver, if_pos hfst, mem_some_iff] at hc
      rw [← hc, hself, hvallocs]

/-! ### Errors sent back -/

section

variable (s : Sixp) (b : TransId)

@[simp] theorem allocs_transit (newState : SixpTransState) :
    (s.sixpTransTransitState b newState).2.allocs = s.allocs := by
  simp only [sixpTransTransitState]
  split
  · split <;> rfl
  · rfl

@[simp] theorem allocs_setCallback (func : Bool) :
    (s.sixpTransSetCallback b func).allocs = s.allocs := by
  cases func <;> rfl

@[simp] theorem allocs_free : (s.sixpTransFree b).allocs = s.allocs := by
  simp only [sixpTransFree]
  split_ifs <;> rfl

theorem allocs_macCallback (status : MacStatus) :
    (s.macCallback id b status).allocs = s.allocs := by
  have hinvoke : ∀ t : Sixp, (t.sixpTransInvokeCallback id b).allocs = t.allocs := by
    intro t
    simp only [sixpTransInvokeCallback]
    split <;> rfl
  simp only [Sixp.macCallback]
  split_ifs <;> simp [hinvoke]

end

/-- A response allocates nothing. -/
theorem allocs_sendTrans (s : Sixp) (args : OutputArgs) (b : TransId) (htype : args.type ≠ .request) :
    (s.sendTrans id args b).allocs = s.allocs := by
  have hout : ∀ t : Sixp, (t.sixtopOutput id b args.mac).2.allocs = t.allocs := by
    intro t
    cases args.mac with
    | refused called =>
      cases called with
      | false => rfl
      | true => exact allocs_macCallback t b .errFatal
    | held => rfl
    | returned status => exact allocs_macCallback t b status
  have hall : ((s.sixpTransSetCallback b args.func).sixtopOutput id b args.mac).2.allocs = s.allocs := by
    rw [hout, allocs_setCallback]
  simp only [Sixp.sendTrans]
  generalize (s.sixpTransSetCallback b args.func).sixtopOutput id b args.mac = r at *
  split
  · split
    · rw [allocs_transit]
      exact hall
    · rw [allocs_transit]
      exact hall
    · rw [allocs_transit]
      exact hall
    · exact hall
  · exact hall

theorem Consistent.sendBackSeqnumError (h : Consistent s) (srcAddr : LinkAddr)
    (nbrRoom created : Bool) (mac : MacSend) :
    Consistent (s.sendBackSeqnumError maxTransactions srcAddr nbrRoom created mac) ∧
      Grows ∅ s (s.sendBackSeqnumError maxTransactions srcAddr nbrRoom created mac) ∧
      (s.sendBackSeqnumError maxTransactions srcAddr nbrRoom created mac).allocs = s.allocs := by
  simp only [Sixp.sendBackSeqnumError]
  split
  · exact ⟨h, .refl s, rfl⟩
  · generalize hargs : (⟨.response, sixpPktRcErrSeqnum, srcAddr, false, true, nbrRoom, created, false,
      mac⟩ : OutputArgs) = args
    have htype : args.type ≠ .request := by simp [← hargs]
    obtain ⟨hcons, hgrows⟩ := @tame_sixpOutput maxTransactions _ tame_id args s h
    refine ⟨hcons, hgrows, ?_⟩
    rcases @sixpOutput_cases maxTransactions id args s with heq | ⟨o, t, htrans, hnbr, hcases⟩
    · rw [heq]
    · have hallocs := (outputNbr_frame hnbr).2.2.2
      rcases hcases with heq | ⟨b, -, heq⟩ | ⟨ho, b, u, -, -⟩
      · rw [heq, hallocs]
      · rw [heq, allocs_sendTrans t args b htype, hallocs]
      · exact absurd (request_of_outputTrans (ho ▸ htrans)) htype

/-- **A received packet**: its reception, and then an error that may be sent back. -/
theorem Consistent.input (h : Consistent s) (input : SixpInput) (srcAddr : LinkAddr)
    (nbrRoom created : Bool) (mac : MacSend) :
    let t := s.sixpInput maxTransactions input srcAddr nbrRoom created mac
    Consistent t ∧ ∃ u, Reception s u (s.sfInput maxTransactions input srcAddr) ∧ Grows ∅ u t ∧
      t.allocs = u.allocs := by
  have hdone : ∀ {u o}, Consistent u ∧ Reception s u o → Consistent u ∧
      ∃ u', Reception s u' o ∧ Grows ∅ u' u ∧ u.allocs = u'.allocs :=
    fun hu => ⟨hu.1, _, hu.2, .refl _, rfl⟩
  have hnothing : Consistent s ∧ Reception s s none := ⟨h, .nothing rfl rfl rfl⟩
  have herror : ∀ {u o}, Consistent u ∧ Reception s u o →
      let t := u.sendBackSeqnumError maxTransactions srcAddr nbrRoom created mac
      Consistent t ∧ ∃ u', Reception s u' o ∧ Grows ∅ u' t ∧ t.allocs = u'.allocs := by
    intro u o hu
    obtain ⟨hcons, hgrows, hallocs⟩ := hu.1.sendBackSeqnumError srcAddr nbrRoom created mac
    exact ⟨hcons, u, hu.2, hgrows, hallocs⟩
  cases input with
  | badVersion => exact hdone hnothing
  | malformed => exact hdone hnothing
  | pkt type cmd seqno sfKnown cellListEmpty =>
    simp only [sixpInput, sfInput]
    split
    · exact hdone hnothing
    cases type with
    | reserved =>
      cases s.sixpTransFind srcAddr <;> exact hdone hnothing
    | request =>
      cases hfind : s.sixpTransFind srcAddr with
      | some b =>
        simp only
        split
        · exact herror hnothing
        · exact hdone hnothing
      | none =>
        simp only
        generalize hreset : (if cmd = sixpPktCmdClear then s.updateSeqno srcAddr fun _ => 0 else s) = t
        have hframe : t.trans = s.trans ∧ t.used = s.used ∧ t.transList = s.transList ∧
            t.allocs = s.allocs := by
          rw [← hreset]
          split <;> exact ⟨rfl, rfl, rfl, rfl⟩
        cases halloc : t.sixpTransAlloc maxTransactions sfKnown srcAddr seqno cmd cellListEmpty with
        | none =>
          exact hdone ⟨h.frame hframe.1 hframe.2.1 hframe.2.2.1, .nothing hframe.1 hframe.2.1 hframe.2.2.2⟩
        | some r =>
          obtain ⟨b, u⟩ := r
          have hnew := h.request hframe halloc rfl (cmd ≠ sixpPktCmdClear ∧ u.inconsistent srcAddr seqno)
          simp only
          split_ifs at hnew ⊢
          · exact herror hnew
          · exact hdone hnew
    | response =>
      cases hfind : s.sixpTransFind srcAddr with
      | none => exact hdone hnothing
      | some b =>
        exact hdone (h.answer (Or.inl rfl) hfind)
    | confirmation =>
      cases hfind : s.sixpTransFind srcAddr with
      | none => exact hdone hnothing
      | some b =>
        exact hdone (h.answer (Or.inr rfl) hfind)

/-! ## Events -/

theorem Consistent.timeout (h : Consistent s) (hb : s.used b) {react : Sixp → Sixp}
    (hreact : Tame react) :
    Consistent (s.handleTransTimeout react b) ∧ Evolves OwnEdge s (s.handleTransTimeout react b) := by
  obtain ⟨hcons, hgrows⟩ := hreact s h
  obtain ⟨hterm, hterm'⟩ := hcons.own_transit (hgrows.used hb)
    (show SixpTransState.terminating.received = false from rfl)
  exact ⟨hterm, (hgrows.trans hterm').toEvolves⟩

theorem Consistent.init (h : Consistent s) :
    Consistent s.sixpInit ∧ Evolves OwnEdge s s.sixpInit := by
  obtain ⟨-, hallocs, -, -, -⟩ := foldl_stopAndFree h.nodup fun b hb => (h.listed b).mp hb
  refine ⟨⟨by simp [sixpInit], nodup_nil, fun _ _ => rfl, by simp [sixpInit],
    by simp [sixpInit]⟩, ⟨?_, by simp [sixpInit], by simp [sixpInit]⟩⟩
  intro b
  simp [sixpInit, hallocs]

theorem consistent_start : Consistent start := by
  constructor <;> simp [start]

end Sixp

/-- The role of the node in a transaction: it has sent the request, or received it. -/
inductive Role where
  | requester | responder
deriving DecidableEq

/-- The role in the transactions that an event allocates. -/
def SixpEvent.role : SixpEvent → Role
  | .input _ _ _ _ _ => .responder
  | _ => .requester

/-- The call of the scheduling function's `input` in an event. -/
def SixpEvent.sfCall (maxTransactions : ℕ) (s : Sixp) : SixpEvent → Option SfCall
  | .input pkt srcAddr _ _ _ => s.sfInput maxTransactions pkt srcAddr
  | _ => none

/-- **What the other events do.** -/
theorem Sixp.Consistent.step {maxTransactions : ℕ} {s t : Sixp} {e : SixpEvent} (h : Consistent s)
    (hrole : e.role = .requester) (hstep : s.step maxTransactions e = some t) :
    Consistent t ∧ Evolves OwnEdge s t := by
  have hused : ∀ {b}, (s.trans b).timer ≠ none → s.used b := by
    intro b htimer
    by_contra hunused
    rw [h.unused b (by simpa using hunused)] at htimer
    exact htimer rfl
  cases e with
  | output call =>
    cases hstep
    obtain ⟨hcons, hgrows⟩ := @tame_run maxTransactions call s h
    exact ⟨hcons, hgrows.toEvolves⟩
  | input _ _ _ _ _ => cases hrole
  | macSent arg status reaction =>
    simp only [Sixp.step] at hstep
    split_ifs at hstep
    cases hstep
    have herased : Consistent { s with macPending := s.macPending.erase arg } := h.frame rfl rfl rfl
    have hframe : Grows ∅ s { s with macPending := s.macPending.erase arg } := .frame rfl rfl rfl
    obtain ⟨hcons, hgrows⟩ :=
      herased.macCallback (@tame_runCalls maxTransactions reaction) arg.trans status
    exact ⟨hcons, (hframe.trans hgrows).toEvolves⟩
  | timer b reaction =>
    simp only [Sixp.step] at hstep
    split at hstep
    · cases hstep
    · rename_i htimer
      cases hstep
      exact h.timeout (hused (by simp [htimer])) (@tame_runCalls maxTransactions reaction)
    · rename_i htimer
      cases hstep
      have hb : s.used b := hused (by simp [htimer])
      obtain ⟨hcons, hgrows⟩ := h.processTrans hb
      exact ⟨hcons, hgrows.toEvolves⟩
  | terminate b =>
    simp only [Sixp.step] at hstep
    split_ifs at hstep with hb
    cases hstep
    obtain ⟨hcons, hgrows⟩ := h.own_transit ((h.listed b).mp hb)
      (show SixpTransState.terminating.received = false from rfl)
    exact ⟨hcons, hgrows.toEvolves⟩
  | abort b reaction =>
    simp only [Sixp.step] at hstep
    split_ifs at hstep with hb
    cases hstep
    obtain ⟨hcons, hgrows⟩ :=
      h.abort ((h.listed b).mp hb) (@tame_runCalls maxTransactions reaction)
    exact ⟨hcons, hgrows.toEvolves⟩
  | init =>
    cases hstep
    exact h.init

namespace Sixp

variable {maxTransactions : ℕ} {s t u : Sixp} {b : TransId} {o : Option SfCall}

/-- A reception is a transition of one transaction, or a new one. -/
theorem Reception.evolves (h : Reception s t o) : Evolves Edge s t := by
  cases h with
  | nothing htrans hused hallocs => exact .frame htrans hused hallocs
  | @request _ b hfree hused hallocs htrans hstate hcall =>
    have hne : ∀ b', s.used b' → b' ≠ b := by
      rintro b' hb' rfl
      rw [hfree] at hb'
      cases hb'
    refine ⟨?_, ?_, ?_⟩
    · intro b'
      by_cases hb' : b' = b <;> simp [hallocs, hb']
    · intro b' hs _ _
      rw [htrans b' (hne b' hs)]
      exact .refl _
    · intro b' ht hnew
      by_cases hb' : b' = b
      · subst hb'
        rw [hstate, hallocs, update_self]
        exact ⟨Nat.lt_succ_self _, .single rfl⟩
      · have hs : s.used b' := by simpa [hused, hb'] using ht
        exact absurd (by simp [hallocs, hb']) (hnew hs)
  | @answer b type hb htype hmay hused hallocs htrans honward hstate =>
    refine .of_eq hallocs hused fun b' _ => ?_
    by_cases hb' : b' = b
    · rw [hb']
      exact honward
    · rw [htrans b' hb']
      exact .refl _

/-- **An event**, as the transactions see it. -/
theorem Consistent.evolves {e : SixpEvent} (h : Consistent s)
    (hstep : s.step maxTransactions e = some t) : Consistent t ∧ Evolves Edge s t := by
  cases hrole : e.role with
  | requester =>
    obtain ⟨hcons, hevolves⟩ := h.step hrole hstep
    exact ⟨hcons, hevolves.mono fun _ _ _ hown => hown.1⟩
  | responder =>
    cases e with
    | input input srcAddr nbrRoom created mac =>
      cases hstep
      obtain ⟨hcons, u, hreception, hgrows, -⟩ :=
        @Consistent.input maxTransactions s h input srcAddr nbrRoom created mac
      exact ⟨hcons, hreception.evolves.trans (hgrows.toEvolves.mono fun _ _ _ hown => hown.1)⟩
    | _ => cases hrole

end Sixp

/-! ## Roles and calls -/

/-- The states of a transaction in which the node has a role. -/
def Role.Allows : Role → SixpTransState → Prop
  | .requester, state => state = .init ∨ state = .requestSending ∨ state = .requestSent ∨
      state = .responseReceived ∨ state = .confirmationSending ∨ state = .confirmationSent ∨
      state = .terminating
  | .responder, state => state = .requestReceived ∨ state = .responseSending ∨
      state = .responseSent ∨ state = .confirmationReceived ∨ state = .terminating

namespace SixpPktType

/-- The role of the node that receives a packet. -/
def receiver : SixpPktType → Role
  | .request | .confirmation => .responder
  | .response | .reserved => .requester

/-- A packet of the type has been received, or cannot be any more. -/
def Passed : SixpPktType → SixpTransState → Prop
  | .request, state => state ≠ .init ∧ state ≠ .requestSending ∧ state ≠ .requestSent
  | .response, state => state = .responseReceived ∨ state = .confirmationSending ∨
      state = .confirmationSent ∨ state = .terminating
  | .confirmation, state => state = .confirmationReceived ∨ state = .terminating
  | .reserved, _ => False

end SixpPktType

/-- A state with the role of the node in each transaction, and the calls of the scheduling
function's `input` so far. -/
structure Traced where
  sixp : Sixp
  role : TransId → ℕ → Role
  calls : List SfCall

namespace Traced

open Sixp

variable {maxTransactions : ℕ} {x y : Traced} {e : SixpEvent}

def start : Traced := ⟨Sixp.start, fun _ _ => .requester, []⟩

/-- The state after an event, with the roles of the transactions it has allocated and its call. -/
def step (maxTransactions : ℕ) (x : Traced) (e : SixpEvent) : Option Traced :=
  (x.sixp.step maxTransactions e).map fun t =>
    { sixp := t
      role := fun b n => if x.sixp.allocs b < n ∧ n ≤ t.allocs b then e.role else x.role b n
      calls := x.calls ++ (e.sfCall maxTransactions x.sixp).toList }

/-- The transaction and the type of packet of a call. -/
def key (c : SfCall) : TransId × ℕ × SixpPktType := (c.trans, c.alloc, c.type)

/-- Transactions are where their role allows, and each call was for one whose state is past it. -/
structure Inv (x : Traced) : Prop where
  consistent : Consistent x.sixp
  role : ∀ b, x.sixp.used b → (x.role b (x.sixp.allocs b)).Allows (x.sixp.trans b).state
  bound : ∀ c ∈ x.calls, c.alloc ≤ x.sixp.allocs c.trans
  passed : ∀ c ∈ x.calls, x.sixp.used c.trans → x.sixp.allocs c.trans = c.alloc →
    c.type.Passed (x.sixp.trans c.trans).state
  fits : ∀ c ∈ x.calls, x.role c.trans c.alloc = c.type.receiver
  once : (x.calls.map key).Nodup

theorem own_allows {role : Role} {mode : SixpTransMode} {a b : SixpTransState}
    (h : Relation.ReflTransGen (OwnEdge mode) a b) (ha : role.Allows a) : role.Allows b := by
  induction h with
  | refl => exact ha
  | @tail a b _ hedge ih =>
    obtain ⟨hmay, hown⟩ := hedge
    cases role <;> cases b <;> simp_all [mayTransit, Role.Allows, SixpTransState.received]

theorem edge_passed {type : SixpPktType} {mode : SixpTransMode} {a b : SixpTransState}
    (h : Relation.ReflTransGen (Edge mode) a b) (ha : type.Passed a) : type.Passed b := by
  induction h with
  | refl => exact ha
  | @tail a b _ hedge ih =>
    simp only [Edge] at hedge
    cases type <;> cases b <;> simp_all [mayTransit, SixpPktType.Passed] <;> grind

/-- A response or confirmation is received in the role for it, and for the first time. -/
theorem answer_received {role : Role} {type : SixpPktType} {mode : SixpTransMode}
    {state : SixpTransState} (htype : type = .response ∨ type = .confirmation)
    (hmay : mayTransit mode state (receivedState type)) (hrole : role.Allows state) :
    role = type.receiver ∧ role.Allows (receivedState type) ∧ ¬ type.Passed state ∧
      type.Passed (receivedState type) := by
  rcases htype with rfl | rfl <;> cases role <;> cases state <;>
    simp_all [mayTransit, receivedState, Role.Allows, SixpPktType.Passed, SixpPktType.receiver]

theorem inv_start : Inv start where
  consistent := consistent_start
  role := by simp [start, Sixp.start]
  bound := by simp [start]
  passed := by simp [start]
  fits := by simp [start]
  once := by simp [start]

/-- What was true of the calls so far is still true after an event. -/
theorem Inv.earlier (h : Inv x) {t : Sixp} (hevolves : Evolves Edge x.sixp t) {c : SfCall}
    (hc : c ∈ x.calls) :
    c.alloc ≤ t.allocs c.trans ∧
      (t.used c.trans → t.allocs c.trans = c.alloc → c.type.Passed (t.trans c.trans).state) := by
  have hbound := h.bound c hc
  have hmono := hevolves.allocs c.trans
  refine ⟨hbound.trans hmono, ?_⟩
  intro hused halloc
  by_cases hsame : x.sixp.used c.trans ∧ t.allocs c.trans = x.sixp.allocs c.trans
  · have hstate := (hevolves.same c.trans hsame.1 hused hsame.2).state
    exact edge_passed hstate (h.passed c hc hsame.1 (hsame.2.symm.trans halloc))
  · have hfresh := (hevolves.fresh c.trans hused fun hs heq => hsame ⟨hs, heq⟩).1
    omega

/-- **A packet is received.** The state right after the reception is as the invariant wants it,
and the call is the first of its kind for the transaction. -/
theorem Inv.reception (h : Inv x) {u : Sixp} {o : Option SfCall} (hu : Reception x.sixp u o) :
    (∀ b, u.used b → ∀ role, (if x.sixp.allocs b < u.allocs b then role = .responder
        else role = x.role b (u.allocs b)) → role.Allows (u.trans b).state) ∧
      ∀ c ∈ o, c.alloc = u.allocs c.trans ∧ u.used c.trans ∧ c.seqno = (u.trans c.trans).seqno ∧
        c.srcAddr = (u.trans c.trans).peerAddr ∧ c.type.Passed (u.trans c.trans).state ∧
        (∀ role, (if x.sixp.allocs c.trans < u.allocs c.trans then role = .responder
          else role = x.role c.trans (u.allocs c.trans)) → role = c.type.receiver) ∧
        key c ∉ x.calls.map key := by
  cases hu with
  | nothing htrans hused hallocs =>
    refine ⟨?_, by simp⟩
    intro b hb role hrole
    rw [hallocs, if_neg (lt_irrefl _)] at hrole
    rw [hrole, htrans]
    exact h.role b (hused ▸ hb)
  | @request _ b₀ hfree hused hallocs htrans hstate hcall =>
    refine ⟨?_, ?_⟩
    · intro b hb role hrole
      by_cases hb₀ : b = b₀
      · subst hb₀
        rw [hallocs, update_self, if_pos (Nat.lt_succ_self _)] at hrole
        rw [hrole, hstate]
        exact Or.inl rfl
      · rw [hallocs, update_of_ne hb₀, if_neg (lt_irrefl _)] at hrole
        rw [hused, update_of_ne hb₀] at hb
        rw [hrole, htrans b hb₀]
        exact h.role b hb
    · intro c hc
      obtain rfl := hcall c hc
      refine ⟨rfl, by simp [hused], rfl, rfl, by simp [hstate, SixpPktType.Passed], ?_, ?_⟩
      · intro role hrole
        rwa [hallocs, update_self, if_pos (Nat.lt_succ_self _)] at hrole
      · intro hmem
        obtain ⟨c', hc', heq⟩ := List.mem_map.mp hmem
        simp only [key, Prod.mk.injEq, hallocs, update_self] at heq
        have hbound := h.bound c' hc'
        rw [heq.1] at hbound
        omega
  | @answer b₀ type hb htype hmay hused hallocs htrans honward hstate =>
    obtain ⟨hreceiver, hallows, hnot, hpassed⟩ := answer_received htype hmay (h.role b₀ hb)
    refine ⟨?_, ?_⟩
    · intro b hb role hrole
      rw [hallocs, if_neg (lt_irrefl _)] at hrole
      by_cases hb₀ : b = b₀
      · subst hb₀
        rw [hrole, hstate]
        exact hallows
      · rw [hrole, htrans b hb₀]
        exact h.role b (hused ▸ hb)
    · intro c hc
      obtain rfl := mem_some_iff.mp hc
      refine ⟨rfl, hused ▸ hb, rfl, rfl, hstate ▸ hpassed, ?_, ?_⟩
      · intro role hrole
        rw [hallocs, if_neg (lt_irrefl _)] at hrole
        rw [hrole, hreceiver]
      · intro hmem
        obtain ⟨c', hc', heq⟩ := List.mem_map.mp hmem
        simp only [key, Prod.mk.injEq, hallocs] at heq
        obtain ⟨htrans', halloc, htype'⟩ := heq
        have hold := h.passed c' hc' (htrans' ▸ hb) (by rw [htrans', halloc])
        rw [htype', htrans'] at hold
        exact hnot hold

/-- An event that receives nothing: own transitions, and no call. -/
theorem Inv.step_own (h : Inv x) (hrole : e.role = .requester)
    (hstep : x.step maxTransactions e = some y) : Inv y ∧ e.sfCall maxTransactions x.sixp = none := by
  obtain ⟨t, ht, rfl⟩ := map_eq_some_iff.mp hstep
  have hnone : e.sfCall maxTransactions x.sixp = none := by
    cases e with
    | input _ _ _ _ _ => cases hrole
    | _ => rfl
  obtain ⟨hcons, hown⟩ := h.consistent.step hrole ht
  have hearlier := fun c hc => h.earlier (c := c) (hown.mono fun _ _ _ hedge => hedge.1) hc
  refine ⟨⟨hcons, ?_, ?_, ?_, ?_, ?_⟩, hnone⟩
  · intro b hb
    simp only [hrole]
    by_cases hsame : x.sixp.used b ∧ t.allocs b = x.sixp.allocs b
    · rw [if_neg (by omega), hsame.2]
      exact own_allows (hown.same b hsame.1 hb hsame.2).state (h.role b hsame.1)
    · obtain ⟨hlt, hstate⟩ := hown.fresh b hb fun hs heq => hsame ⟨hs, heq⟩
      rw [if_pos ⟨hlt, le_rfl⟩]
      exact own_allows hstate (Or.inl rfl)
  all_goals simp only [hnone, toList_none, append_nil]
  · exact fun c hc => (hearlier c hc).1
  · exact fun c hc => (hearlier c hc).2
  · intro c hc
    have hbound := h.bound c hc
    rw [if_neg (by omega)]
    exact h.fits c hc
  · exact h.once

/-- A packet is received: the call, if there is one, is for a transaction that waited for it. -/
theorem Inv.step_input (h : Inv x) {pkt : SixpInput} {srcAddr : LinkAddr} {nbrRoom created : Bool}
    {mac : MacSend} (hstep : x.step maxTransactions (.input pkt srcAddr nbrRoom created mac) = some y) :
    Inv y ∧ ∀ c ∈ x.sixp.sfInput maxTransactions pkt srcAddr,
      y.sixp.used c.trans ∧ y.sixp.allocs c.trans = c.alloc ∧
        (y.sixp.trans c.trans).seqno = c.seqno ∧ (y.sixp.trans c.trans).peerAddr = c.srcAddr ∧
        y.role c.trans c.alloc = c.type.receiver := by
  obtain ⟨t, ht, rfl⟩ := map_eq_some_iff.mp hstep
  obtain ⟨hcons, hevolves⟩ := h.consistent.evolves ht
  cases ht
  obtain ⟨-, u, hreception, hgrows, hallocs⟩ :=
    @Consistent.input maxTransactions _ h.consistent pkt srcAddr nbrRoom created mac
  obtain ⟨hroles, hcall⟩ := h.reception hreception
  generalize x.sixp.sixpInput maxTransactions pkt srcAddr nbrRoom created mac = t at *
  -- after the reception there are own transitions only
  have hback : ∀ b, t.used b → u.used b ∧ (u.trans b).Onward OwnEdge (t.trans b) := by
    intro b hb
    by_cases hub : u.used b
    · exact ⟨hub, hgrows.same b hub hb (by rw [hallocs])⟩
    · have hnew := (hgrows.fresh b hb fun hused => absurd hused hub).1
      rw [hallocs] at hnew
      exact absurd hnew (lt_irrefl _)
  have hif : ∀ b n, n = u.allocs b →
      if x.sixp.allocs b < u.allocs b then
        (if x.sixp.allocs b < n ∧ n ≤ t.allocs b then Role.responder else x.role b n) = .responder
      else
        (if x.sixp.allocs b < n ∧ n ≤ t.allocs b then Role.responder else x.role b n) =
          x.role b (u.allocs b) := by
    rintro b n rfl
    rw [hallocs]
    split_ifs <;> simp_all
  have hnew : ∀ c ∈ x.sixp.sfInput maxTransactions pkt srcAddr,
      t.used c.trans ∧ t.allocs c.trans = c.alloc ∧ (t.trans c.trans).seqno = c.seqno ∧
        (t.trans c.trans).peerAddr = c.srcAddr ∧ c.type.Passed (t.trans c.trans).state ∧
        (if x.sixp.allocs c.trans < c.alloc ∧ c.alloc ≤ t.allocs c.trans then Role.responder
          else x.role c.trans c.alloc) = c.type.receiver ∧ key c ∉ x.calls.map key := by
    intro c hc
    obtain ⟨halloc, hused, hseqno, hpeer, hpassed, hreceiver, hfirst⟩ := hcall c hc
    have hkept := hgrows.used hused
    obtain ⟨-, honward⟩ := hback c.trans hkept
    have hpath := honward.mono fun _ _ _ (hown : OwnEdge _ _ _) => hown.1
    exact ⟨hkept, by rw [hallocs, halloc], honward.seqno.trans hseqno.symm,
      honward.peerAddr.trans hpeer.symm, edge_passed hpath.state hpassed,
      hreceiver _ (hif c.trans c.alloc halloc), hfirst⟩
  refine ⟨⟨hcons, ?_, ?_, ?_, ?_, ?_⟩, ?_⟩
  · intro b hb
    obtain ⟨hub, honward⟩ := hback b hb
    exact own_allows honward.state (hroles b hub _ (hif b _ (by rw [hallocs])))
  · intro c hc
    rcases List.mem_append.mp hc with hc | hc
    · exact (h.earlier hevolves hc).1
    · exact (hnew c (mem_toList.mp hc)).2.1.ge
  · intro c hc
    rcases List.mem_append.mp hc with hc | hc
    · exact (h.earlier hevolves hc).2
    · exact fun _ _ => (hnew c (mem_toList.mp hc)).2.2.2.2.1
  · intro c hc
    rcases List.mem_append.mp hc with hc | hc
    · have hbound := h.bound c hc
      simp only
      rw [if_neg (by omega)]
      exact h.fits c hc
    · exact (hnew c (mem_toList.mp hc)).2.2.2.2.2.1
  · simp only [SixpEvent.sfCall, map_append]
    cases hsome : x.sixp.sfInput maxTransactions pkt srcAddr with
    | none => simpa using h.once
    | some c =>
      have hfirst := (hnew c hsome).2.2.2.2.2.2
      simp only [toList_some, map_singleton]
      exact List.nodup_append'.mpr ⟨h.once, nodup_singleton _, by simpa using hfirst⟩
  · intro c hc
    obtain ⟨hused, halloc, hseqno, hpeer, -, hreceiver, -⟩ := hnew c hc
    exact ⟨hused, halloc, hseqno, hpeer, hreceiver⟩

/-- **One event** keeps the invariant, and its call fits the transaction. -/
theorem Inv.step (h : Inv x) (hstep : x.step maxTransactions e = some y) :
    Inv y ∧ ∀ c ∈ e.sfCall maxTransactions x.sixp,
      y.sixp.used c.trans ∧ y.sixp.allocs c.trans = c.alloc ∧
        (y.sixp.trans c.trans).seqno = c.seqno ∧ (y.sixp.trans c.trans).peerAddr = c.srcAddr ∧
        y.role c.trans c.alloc = c.type.receiver := by
  cases e with
  | input pkt srcAddr nbrRoom created mac => exact h.step_input hstep
  | _ =>
    obtain ⟨hinv, hnone⟩ := h.step_own rfl hstep
    exact ⟨hinv, by simp [hnone]⟩

/-- States along a run. -/
theorem evolves_run {s t : Sixp} {es : List SixpEvent} (h : Consistent s)
    (hrun : run (Sixp.step maxTransactions) s es = some t) : Evolves Edge s t := by
  induction es generalizing s with
  | nil =>
    cases hrun
    exact .refl _
  | cons e es ih =>
    obtain ⟨u, hu, hrun⟩ := run_cons_eq_some.mp hrun
    obtain ⟨hcons, hevolves⟩ := h.evolves hu
    exact hevolves.trans (ih hcons hrun)

theorem edge_rank {mode : SixpTransMode} {a b : SixpTransState}
    (h : Relation.ReflTransGen (Edge mode) a b) (ha : a ≠ .waitFree) :
    b ≠ .waitFree ∧ a.rank ≤ b.rank := by
  induction h with
  | refl => exact ⟨ha, le_rfl⟩
  | tail _ hedge ih =>
    obtain ⟨-, hwait, hrank⟩ := mayTransit_new hedge
    refine ⟨hwait, ih.2.trans ?_⟩
    rcases hrank with hlt | rfl
    · exact hlt.le
    · exact SixpTransState.rank_le ih.1

/-- Every run is the run of a traced state. -/
theorem run_sixp (x : Traced) (es : List SixpEvent) :
    (run (step maxTransactions) x es).map (·.sixp) = run (Sixp.step maxTransactions) x.sixp es := by
  induction es generalizing x with
  | nil => rfl
  | cons e es ih =>
    simp only [run, step]
    cases x.sixp.step maxTransactions e with
    | none => rfl
    | some t => exact ih _

/-- **Exactly once.** In every run no two transactions have the same peer; a transaction keeps
what it is about, and its state moves forward along the rules only; the scheduling function
has got each type of packet at most once for a transaction, and only types that fit the
node's role; and what it gets next has the sequence number and the peer of the
transaction. -/
theorem sixp_exactly_once (maxTransactions : ℕ) (es : List SixpEvent)
    (hrun : run (step maxTransactions) start es = some x) :
    (∀ b b', x.sixp.used b → x.sixp.used b' →
      (x.sixp.trans b).peerAddr = (x.sixp.trans b').peerAddr → b = b') ∧
    (∀ es' t, run (Sixp.step maxTransactions) x.sixp es' = some t → ∀ b, x.sixp.used b → t.used b →
      t.allocs b = x.sixp.allocs b → (x.sixp.trans b).Onward Edge (t.trans b) ∧
        (x.sixp.trans b).state.rank ≤ (t.trans b).state.rank) ∧
    (x.calls.map key).Nodup ∧
    (∀ c ∈ x.calls, x.role c.trans c.alloc = c.type.receiver) ∧
    ∀ e y, x.step maxTransactions e = some y → ∀ c ∈ e.sfCall maxTransactions x.sixp,
      y.sixp.used c.trans ∧ y.sixp.allocs c.trans = c.alloc ∧
        (y.sixp.trans c.trans).seqno = c.seqno ∧ (y.sixp.trans c.trans).peerAddr = c.srcAddr ∧
        y.role c.trans c.alloc = c.type.receiver := by
  have h : Inv x := run_invariant Inv (fun _ _ _ hinv hstep => (hinv.step hstep).1) inv_start hrun
  refine ⟨h.consistent.peers, ?_, h.once, h.fits, fun e y hstep => (h.step hstep).2⟩
  intro es' t hrun' b hb ht halloc
  have honward := (evolves_run h.consistent hrun').same b hb ht halloc
  exact ⟨honward, (edge_rank honward.state (h.consistent.available b hb).2).2⟩

/-- A request of three steps is received twice, answered, and confirmed before the MAC layer
reports the response. -/
def confirmed : List SixpEvent :=
  [.input (.pkt .request sixpPktCmdAdd 0 true true) (fun _ => 1) true true .held,
    .input (.pkt .request sixpPktCmdAdd 0 true true) (fun _ => 1) true true .held,
    .output (.mk ⟨.response, 0, fun _ => 1, false, true, true, true, false, .held⟩ []),
    .input (.pkt .confirmation 0 0 true false) (fun _ => 1) true true .held]

theorem sixp_exactly_once_confirmed :
    ∃ x, run (step 1) start confirmed = some x ∧
      x.calls.map key = [(0, 1, .request), (0, 1, .confirmation)] ∧
      ∀ c ∈ x.calls, x.role c.trans c.alloc = c.type.receiver := by
  have hcalls : (run (step 1) start confirmed).map (fun x => x.calls.map key) =
      some [(0, 1, .request), (0, 1, .confirmation)] := by decide +kernel
  obtain ⟨x, hx, heq⟩ := Option.map_eq_some_iff.mp hcalls
  exact ⟨x, hx, heq, (sixp_exactly_once 1 confirmed hx).2.2.2.1⟩

end Traced

end Asap.Sixtop
