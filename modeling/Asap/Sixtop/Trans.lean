import Asap.Lib.Run
import Asap.Tsch.Queue

/-!
# 6P transactions

A transaction is a block of a pool, found by the address of its peer in a list. Its
timer runs one of two functions on it, and a frame of it at the MAC layer names it as
the argument of the sent callback. The scheduling function registers a callback of its
own with each packet it sends; a registration is a number here, counted up.

The MAC layer may call back before its send function returns, and the scheduling function
may send in its callback. So a call of `sixp_output` comes with a tree of further calls:
those made by the scheduling function's sent callback, should it run. What the other
callbacks of the scheduling function do after a handler's last action are events of
their own.

A block also counts its allocations and releases, and a frame remembers for which
allocation of the block it was sent. The program has no such counts.

## Main definitions

* `SixpTrans`, `Sixp` — a transaction, and all of them with the frames at the MAC layer.
* `sixpTransTransitState`, `processTrans`, `sixpTransFree` — the states of a transaction.
* `sixpOutput`, `OutputCall.run` — sending, with what is sent in callbacks.
* `sixpInput`, `macCallback` — what the MAC layer calls.
* `SixpEvent`, `Sixp.step` — the events.
-/

namespace Asap.Sixtop

open Asap.Tsch

/-- A pointer to a block of `trans_memb`. -/
abbrev TransId := ℕ

/-- `sixp_trans_state_t` -/
inductive SixpTransState where
  | unavailable | init | requestSending | requestSent | requestReceived | responseSending
  | responseSent | responseReceived | confirmationSending | confirmationSent
  | confirmationReceived | terminating | waitFree
deriving DecidableEq, Repr

/-- `sixp_trans_mode_t` -/
inductive SixpTransMode where
  | unavailable | twoStep | threeStep
deriving DecidableEq, Repr

/-- `sixp_pkt_type_t` -/
inductive SixpPktType where
  | request | response | confirmation | reserved
deriving DecidableEq, Repr

/-- The function the timer of a transaction runs: `handle_trans_timeout` or
`process_trans`. -/
inductive TransTimer where
  | timeout | process
deriving DecidableEq, Repr

/-- `sixp_trans_t`, with the number of the registered callback. -/
structure SixpTrans where
  peerAddr : LinkAddr
  seqno : BitVec 8
  cmd : BitVec 8
  state : SixpTransState
  mode : SixpTransMode
  callback : Option ℕ
  timer : Option TransTimer
deriving DecidableEq

/-- A block set to zero. -/
def SixpTrans.zero : SixpTrans := ⟨0, 0, 0, .unavailable, .unavailable, none, none⟩

/-- The argument of a sent callback: a block, and which of its allocations it was when the
frame was sent. -/
structure MacArg where
  trans : TransId
  alloc : ℕ
deriving DecidableEq

/-- The transactions, the sequence numbers of the neighbors, and the frames at the MAC layer
whose sent callback is to be called. -/
structure Sixp where
  trans : TransId → SixpTrans
  /-- the blocks of `trans_memb`, in use or not -/
  used : TransId → Bool
  transList : List TransId
  nextSeqno : LinkAddr → Option (BitVec 8)
  macPending : List MacArg
  allocs : TransId → ℕ
  frees : TransId → ℕ
  registered : ℕ
  /-- the registrations whose callback has been called, call by call -/
  invoked : List ℕ

/-- `SIXP_PKT_CMD_ADD` -/
def sixpPktCmdAdd : BitVec 8 := 0x01

/-- `SIXP_PKT_CMD_DELETE` -/
def sixpPktCmdDelete : BitVec 8 := 0x02

/-- `SIXP_PKT_CMD_CLEAR` -/
def sixpPktCmdClear : BitVec 8 := 0x07

/-- `SIXP_PKT_RC_ERR_VERSION` -/
def sixpPktRcErrVersion : BitVec 8 := 0x04

/-- `SIXP_PKT_RC_ERR_SFID` -/
def sixpPktRcErrSfid : BitVec 8 := 0x05

/-- `SIXP_PKT_RC_ERR_SEQNUM` -/
def sixpPktRcErrSeqnum : BitVec 8 := 0x06

/-- What `sixtop_output` comes to: it fails, before or after it has an argument to call
back with, or the MAC layer takes the frame, for later or until it calls back at once. -/
inductive MacSend where
  | refused (called : Bool)
  | held
  | returned (status : MacStatus)
deriving DecidableEq, Repr

/-- The arguments of `sixp_output`, with what it depends on: whether the scheduling function
is known, there is room for a neighbor, the packet could be made, and its list of cells is
empty. -/
structure OutputArgs where
  type : SixpPktType
  code : BitVec 8
  destAddr : LinkAddr
  func : Bool
  sfKnown : Bool
  nbrRoom : Bool
  created : Bool
  cellListEmpty : Bool
  mac : MacSend

/-- A call of `sixp_output`, with the calls made by the sent callback when it runs. -/
inductive OutputCall where
  | mk (args : OutputArgs) (reaction : List OutputCall)

namespace Sixp

/-- Change one block. -/
def setTrans (s : Sixp) (b : TransId) (t : SixpTrans) : Sixp :=
  { s with trans := Function.update s.trans b t }

/-- `sixp_trans_find` -/
def sixpTransFind (s : Sixp) (peerAddr : LinkAddr) : Option TransId :=
  s.transList.find? fun b => (s.trans b).peerAddr = peerAddr

/-- The next sequence number after one, which is never zero. -/
def incrementSeqno (n : BitVec 8) : BitVec 8 := if n + 1 = 0 then 1 else n + 1

/-- Change the sequence number of a neighbor, if it is known. -/
def updateSeqno (s : Sixp) (addr : LinkAddr) (f : BitVec 8 → BitVec 8) : Sixp :=
  { s with nextSeqno := Function.update s.nextSeqno addr ((s.nextSeqno addr).map f) }

/-! ## States of a transaction -/

/-- The transition rules of `sixp_trans_transit_state`. -/
def mayTransit (mode : SixpTransMode) (state newState : SixpTransState) : Bool :=
  match newState with
  | .terminating => true
  | .requestSending => state = .init
  | .requestSent => state = .requestSending
  | .requestReceived => state = .init
  | .responseSending => state = .requestReceived
  | .responseSent => state = .responseSending
  | .responseReceived => state = .requestSending ∨ state = .requestSent
  | .confirmationReceived =>
    (state = .responseSent ∨ state = .responseSending) ∧ mode = .threeStep
  | .confirmationSending => state = .responseReceived ∧ mode = .threeStep
  | .confirmationSent => state = .confirmationSending ∧ mode = .threeStep
  | _ => false

section

variable (s : Sixp) (b : TransId)

/-- `sixp_trans_transit_state`: whether it succeeds, and what it changes. -/
def sixpTransTransitState (newState : SixpTransState) : Bool × Sixp :=
  let t := s.trans b
  if mayTransit t.mode t.state newState then
    let s :=
      if newState = .responseSent ∧ t.cmd ≠ sixpPktCmdClear then
        s.updateSeqno t.peerAddr fun _ => incrementSeqno t.seqno
      else s
    -- `schedule_trans_process` sets the timer to expire immediately
    (true, s.setTrans b { t with state := newState, timer := some .process })
  else (false, s)

/-- `sixp_trans_free` -/
def sixpTransFree : Sixp :=
  let t := s.trans b
  let s :=
    if t.state = .waitFree then s.setTrans b { t with state := .unavailable }
    else
      { s with transList := s.transList.erase b }.setTrans b { t with timer := none }
  if t.state = .requestSending ∨ t.state = .responseSending ∨ t.state = .confirmationSending then
    s.setTrans b { s.trans b with state := .waitFree }
  else
    { s.setTrans b .zero with
      used := Function.update s.used b false
      frees := Function.update s.frees b (s.frees b + 1) }

/-- `process_trans` -/
def processTrans : Sixp :=
  let s := s.setTrans b { s.trans b with timer := none }
  let t := s.trans b
  if t.state = .terminating then s.sixpTransFree b
  else
    let s :=
      if ((t.state = .responseSent ∨ t.state = .responseReceived) ∧ t.mode = .twoStep) ∨
          t.state = .confirmationSent ∨ t.state = .confirmationReceived then
        (s.sixpTransTransitState b .terminating).2
      else s
    if (s.trans b).state ≠ .terminating then
      s.setTrans b { s.trans b with timer := some .timeout }
    else s

/-- `sixp_trans_set_callback` -/
def sixpTransSetCallback (func : Bool) : Sixp :=
  if func then
    { s.setTrans b { s.trans b with callback := some s.registered } with
      registered := s.registered + 1 }
  else s.setTrans b { s.trans b with callback := none }

end

/-- `sixp_trans_invoke_callback`; `react` is what the callback does. -/
def sixpTransInvokeCallback (react : Sixp → Sixp) (s : Sixp) (b : TransId) : Sixp :=
  match (s.trans b).callback with
  | none => s
  | some r => react { s with invoked := s.invoked ++ [r] }

/-- `sixp_trans_abort` -/
def sixpTransAbort (react : Sixp → Sixp) (s : Sixp) (b : TransId) : Sixp :=
  ((s.sixpTransTransitState b .terminating).2.sixpTransInvokeCallback react b).processTrans b

/-- `determine_trans_mode`, of a request. -/
def determineTransMode (cmd : BitVec 8) (cellListEmpty : Bool) : SixpTransMode :=
  if (cmd = sixpPktCmdAdd ∨ cmd = sixpPktCmdDelete) ∧ cellListEmpty then .threeStep else .twoStep

/-- `sixp_trans_alloc`, of a request, with the size of the pool. -/
def sixpTransAlloc (maxTransactions : ℕ) (s : Sixp) (sfKnown : Bool) (peerAddr : LinkAddr)
    (seqno cmd : BitVec 8) (cellListEmpty : Bool) : Option (TransId × Sixp) :=
  if !sfKnown then none
  else if (s.sixpTransFind peerAddr).isSome then none
  else
    ((List.range maxTransactions).find? fun b => !s.used b).map fun b =>
      (b, { s.setTrans b
              ⟨peerAddr, seqno, cmd, .init, determineTransMode cmd cellListEmpty, none,
                some .timeout⟩ with
            used := Function.update s.used b true
            transList := s.transList ++ [b]
            allocs := Function.update s.allocs b (s.allocs b + 1) })

/-! ## The MAC layer -/

/-- The state `mac_callback` moves a transaction to. -/
def stateAfterSent (status : MacStatus) (state : SixpTransState) : SixpTransState :=
  if status = .ok then
    match state with
    | .requestSending => .requestSent
    | .responseSending => .responseSent
    | .confirmationSending => .confirmationSent
    | state => state
  else if state = .requestSending then .terminating
  else state

/-- `mac_callback`; `react` is what the scheduling function's sent callback does. -/
def macCallback (react : Sixp → Sixp) (s : Sixp) (b : TransId) (status : MacStatus) : Sixp :=
  let currentState := (s.trans b).state
  if currentState = .waitFree then s.sixpTransFree b
  else
    let newState := stateAfterSent status currentState
    let (moved, s) :=
      if newState ≠ currentState then s.sixpTransTransitState b newState else (true, s)
    if !moved then (s.sixpTransTransitState b .terminating).2
    else (s.sixpTransInvokeCallback react b).sixpTransSetCallback b false

/-- `sixtop_output` with `mac_callback` and a transaction: whether it succeeds. -/
def sixtopOutput (react : Sixp → Sixp) (s : Sixp) (b : TransId) : MacSend → Bool × Sixp
  | .refused called => (false, if called then s.macCallback react b .errFatal else s)
  | .held => (true, { s with macPending := s.macPending ++ [⟨b, s.allocs b⟩] })
  | .returned status => (true, s.macCallback react b status)

/-! ## Sending -/

/-- The transaction of a packet to send, if its state lets it be sent; a request has none
yet. -/
def outputTrans (s : Sixp) (type : SixpPktType) (destAddr : LinkAddr) :
    Option (Option TransId) :=
  match type, s.sixpTransFind destAddr with
  | .request, none => some none
  | .response, some b => if (s.trans b).state = .requestReceived then some (some b) else none
  | .confirmation, some b =>
    if (s.trans b).state = .responseReceived then some (some b) else none
  | _, _ => none

/-- The neighbor of a packet to send is added where one is needed. -/
def outputNbr (s : Sixp) (args : OutputArgs) (b : Option TransId) : Option Sixp :=
  let needed : Bool := match b with
    | none => true
    | some b => args.type = .response ∧ (s.trans b).cmd ≠ sixpPktCmdClear ∧
        args.code ≠ sixpPktRcErrVersion ∧ args.code ≠ sixpPktRcErrSfid
  if s.nextSeqno args.destAddr = none ∧ needed then
    if args.nbrRoom then
      some { s with nextSeqno := Function.update s.nextSeqno args.destAddr (some 0) }
    else none
  else some s

/-- The end of `sixp_output`: the packet of a transaction is sent. -/
def sendTrans (react : Sixp → Sixp) (args : OutputArgs) (s : Sixp) (b : TransId) : Sixp :=
  let (sent, s) := (s.sixpTransSetCallback b args.func).sixtopOutput react b args.mac
  if sent then
    match (s.trans b).state with
    | .init =>
      let s := s.updateSeqno args.destAddr fun n =>
        if args.code = sixpPktCmdClear then 0 else incrementSeqno n
      (s.sixpTransTransitState b .requestSending).2
    | .requestReceived => (s.sixpTransTransitState b .responseSending).2
    | .responseReceived => (s.sixpTransTransitState b .confirmationSending).2
    | _ => s
  else if args.type = .request then s.sixpTransAbort react b
  else s

/-- `sixp_output`: whether it gets as far as sending, and the state after it. -/
def sixpOutput (maxTransactions : ℕ) (react : Sixp → Sixp) (args : OutputArgs) (s : Sixp) :
    Bool × Sixp :=
  match s.outputTrans args.type args.destAddr with
  | none => (false, s)
  | some b =>
    match s.outputNbr args b with
    | none => (false, s)
    | some s =>
      if !args.created then (false, s)
      else
        match b with
        | some b => (true, s.sendTrans react args b)
        | none =>
          match s.sixpTransAlloc maxTransactions args.sfKnown args.destAddr
              ((s.nextSeqno args.destAddr).getD 0) args.code args.cellListEmpty with
          | none => (false, s)
          | some (b, s) => (true, s.sendTrans react args b)

end Sixp

mutual

/-- A call of `sixp_output` with the calls of the sent callback. -/
def OutputCall.run (maxTransactions : ℕ) : OutputCall → Sixp → Sixp
  | .mk args reaction, s =>
    (s.sixpOutput maxTransactions (runCalls maxTransactions reaction) args).2

/-- Calls one after the other. -/
def runCalls (maxTransactions : ℕ) : List OutputCall → Sixp → Sixp
  | [], s => s
  | call :: calls, s => runCalls maxTransactions calls (call.run maxTransactions s)

end

/-! ## Receiving -/

/-- A packet after `sixp_pkt_parse`. -/
inductive SixpInput where
  | badVersion
  | malformed
  | pkt (type : SixpPktType) (cmd seqno : BitVec 8) (sfKnown cellListEmpty : Bool)

namespace Sixp

/-- There is a transaction that does not wait for a response to its request. -/
def underWay (s : Sixp) (addr : LinkAddr) : Bool :=
  match s.sixpTransFind addr with
  | some b => (s.trans b).state ≠ .requestReceived
  | none => false

/-- The sequence number of a request does not fit that of the neighbor. -/
def inconsistent (s : Sixp) (srcAddr : LinkAddr) (seqno : BitVec 8) : Bool :=
  match s.nextSeqno srcAddr with
  | none => seqno ≠ 0
  | some next => next ≠ 0 ∧ seqno = 0

/-- `send_back_error` with `SIXP_PKT_RC_ERR_SEQNUM`; other codes leave no trace here, as
their packets are sent without a transaction. -/
def sendBackSeqnumError (maxTransactions : ℕ) (s : Sixp) (srcAddr : LinkAddr)
    (nbrRoom created : Bool) (mac : MacSend) : Sixp :=
  if s.underWay srcAddr then s
  else
    (s.sixpOutput maxTransactions id
      ⟨.response, sixpPktRcErrSeqnum, srcAddr, false, true, nbrRoom, created, false, mac⟩).2

/-- `sixp_input`, up to the call of the scheduling function. -/
def sixpInput (maxTransactions : ℕ) (s : Sixp) (input : SixpInput) (srcAddr : LinkAddr)
    (nbrRoom created : Bool) (mac : MacSend) : Sixp :=
  match input with
  | .badVersion => s
  | .malformed => s
  | .pkt type cmd seqno sfKnown cellListEmpty =>
    if !sfKnown then s
    else
      match type, s.sixpTransFind srcAddr with
      | .reserved, _ => s
      | .request, some b =>
        let inProcess := (s.trans b).seqno
        if cmd ≠ sixpPktCmdClear ∧
            ((seqno = 0 ∧ inProcess ≠ 0) ∨ (seqno ≠ 0 ∧ inProcess = 0)) then
          s.sendBackSeqnumError maxTransactions srcAddr nbrRoom created mac
        else s
      | .request, none =>
        let s := if cmd = sixpPktCmdClear then s.updateSeqno srcAddr fun _ => 0 else s
        match s.sixpTransAlloc maxTransactions sfKnown srcAddr seqno cmd cellListEmpty with
        | none => s
        | some (b, s) =>
          let inconsistent := s.inconsistent srcAddr seqno
          let s := (s.sixpTransTransitState b .requestReceived).2
          if cmd ≠ sixpPktCmdClear ∧ inconsistent then
            s.sendBackSeqnumError maxTransactions srcAddr nbrRoom created mac
          else s
      | _, none => s
      | .response, some b =>
        if (s.trans b).seqno ≠ seqno then s
        else (s.sixpTransTransitState b .responseReceived).2
      | .confirmation, some b =>
        if (s.trans b).seqno ≠ seqno then s
        else (s.sixpTransTransitState b .confirmationReceived).2

/-- `handle_trans_timeout`; `react` is what the scheduling function's timeout handler does. -/
def handleTransTimeout (react : Sixp → Sixp) (s : Sixp) (b : TransId) : Sixp :=
  ((react s).sixpTransTransitState b .terminating).2

/-- One round of `sixp_trans_init`. -/
def stopAndFree (s : Sixp) (b : TransId) : Sixp :=
  (s.setTrans b { s.trans b with timer := none }).sixpTransFree b

/-- `sixp_init`: all transactions are freed, and the pool and the neighbors set up anew. -/
def sixpInit (s : Sixp) : Sixp :=
  let s := s.transList.foldl stopAndFree s
  { s with
    transList := []
    trans := fun _ => .zero
    used := fun _ => false
    frees := fun b => if s.used b then s.frees b + 1 else s.frees b
    nextSeqno := fun _ => none }

/-- No transaction, no neighbor, no frame. -/
def start : Sixp where
  trans := fun _ => .zero
  used := fun _ => false
  transList := []
  nextSeqno := fun _ => none
  macPending := []
  allocs := fun _ => 0
  frees := fun _ => 0
  registered := 0
  invoked := []

end Sixp

/-- What the scheduling function, the MAC layer and the timers do. -/
inductive SixpEvent where
  | output (call : OutputCall)
  | input (input : SixpInput) (srcAddr : LinkAddr) (nbrRoom created : Bool) (mac : MacSend)
  | macSent (arg : MacArg) (status : MacStatus) (reaction : List OutputCall)
  | timer (b : TransId) (reaction : List OutputCall)
  | terminate (b : TransId)
  | abort (b : TransId) (reaction : List OutputCall)
  | init

/-- The state after an event. The MAC layer calls back once for each frame, a timer expires
that runs, and transactions are ended that are listed. -/
def Sixp.step (maxTransactions : ℕ) (s : Sixp) : SixpEvent → Option Sixp
  | .output call => some (call.run maxTransactions s)
  | .input input srcAddr nbrRoom created mac =>
    some (s.sixpInput maxTransactions input srcAddr nbrRoom created mac)
  | .macSent arg status reaction =>
    if arg ∈ s.macPending then
      some ({ s with macPending := s.macPending.erase arg }.macCallback
        (runCalls maxTransactions reaction) arg.trans status)
    else none
  | .timer b reaction =>
    -- nothing reads the timer of `b` until its function sets or stops it
    match (s.trans b).timer with
    | none => none
    | some .timeout => some (s.handleTransTimeout (runCalls maxTransactions reaction) b)
    | some .process => some (s.processTrans b)
  | .terminate b =>
    if b ∈ s.transList then some (s.sixpTransTransitState b .terminating).2 else none
  | .abort b reaction =>
    if b ∈ s.transList then some (s.sixpTransAbort (runCalls maxTransactions reaction) b)
    else none
  | .init => some s.sixpInit

end Asap.Sixtop
