import Asap.Coap.Message
import Asap.Lib.Pool

/-!
# The transactions of CoAP

What is sent and may have to be sent again has a transaction: a block of a pool with the message
id, the endpoint, the message and a timer. Requests of clients, notifications and answers of
servers share one list, and an incoming message looks for the first entry with its message id. A
block keeps the callback of the transaction that it had before, where the next one sets none.

What is done to a transaction is traced: it is created, gets a callback and a message, is sent,
freed, and its callback is called.

## Main definitions

* `CoapTransaction`, `Transactions` — a transaction, and the list of them.
* `coapSendTransaction`, `coapRetransmitTransaction`, `coapClearTransaction` — the life of one.
* `coapReceive` — what a datagram does.
-/

namespace Asap.Coap

open Lib

/-- `COAP_MAX_OPEN_TRANSACTIONS`, `COAP_MAX_RETRANSMIT`, `COAP_RESPONSE_TIMEOUT_TICKS` and
`COAP_RESPONSE_TIMEOUT_BACKOFF_MASK`; the counter has one byte and the intervals have four. -/
structure TransactionConfig where
  maxOpenTransactions : ℕ
  maxRetransmit : ℕ
  responseTimeoutTicks : ℕ
  backoffMask : ℕ
  backoffMask_pos : 0 < backoffMask
  counter_fits : maxRetransmit + 1 < 256
  interval_fits : (responseTimeoutTicks + backoffMask) * 2 ^ maxRetransmit < 2 ^ 32

/-- `coap_transaction_t`, for endpoints `E` and callbacks with their data `C`. Of the message,
`type` is what its first byte says. -/
structure CoapTransaction (E C : Type) where
  mid : BitVec 16
  retransInterval : BitVec 32
  retransCounter : BitVec 8
  endpoint : E
  callback : Option C
  type : CoapType

/-- What is done to the transaction in a block. A callback is called with a response or without,
and a message that is sent may set the timer to an interval. -/
inductive Action (E C : Type)
  | create (b : ℕ) (endpoint : E) (mid : BitVec 16)
  | callback (b : ℕ) (c : C)
  | message (b : ℕ) (type : CoapType)
  | send (b : ℕ) (interval : Option (BitVec 32))
  | free (b : ℕ)
  | call (b : ℕ) (c : C) (response : Bool)

/-- The blocks of the transactions, those in use in the order of the list, the timers that are
set, and the trace. -/
structure Transactions (E C : Type) where
  cells : ℕ → CoapTransaction E C
  list : List ℕ
  timers : ℕ → Bool
  trace : List (Action E C)

variable {E C : Type}

namespace Transactions

variable (s : Transactions E C)

/-- Something is traced. -/
def emit (a : Action E C) : Transactions E C := { s with trace := s.trace ++ [a] }

/-- A block is changed. -/
def modify (b : ℕ) (f : CoapTransaction E C → CoapTransaction E C) : Transactions E C :=
  { s with cells := Function.update s.cells b (f (s.cells b)) }

/-- A timer is set or stopped. -/
def setTimer (b : ℕ) (on : Bool) : Transactions E C :=
  { s with timers := Function.update s.timers b on }

end Transactions

/-- `coap_new_transaction` -/
def coapNewTransaction (cfg : TransactionConfig) (s : Transactions E C) (mid : BitVec 16)
    (endpoint : E) : Option (ℕ × Transactions E C) :=
  (membAlloc cfg.maxOpenTransactions fun b => decide (b ∈ s.list)).map fun b =>
    -- the callback stays
    let s := s.modify b fun t => { t with mid, retransCounter := 0, endpoint }
    (b, { s with list := s.list ++ [b] }.emit (.create b endpoint mid))

/-- `coap_clear_transaction` -/
def coapClearTransaction (s : Transactions E C) (b : ℕ) : Transactions E C :=
  { s.setTimer b false with list := s.list.erase b }.emit (.free b)

/-- A callback, if there is one. -/
def callBack (s : Transactions E C) (b : ℕ) (callback : Option C) (response : Bool) :
    Transactions E C :=
  callback.elim s fun c => s.emit (.call b c response)

/-- `coap_send_transaction`, with what `rand` returns. The observers that a timeout removes are in
a list of their own. -/
def coapSendTransaction (cfg : TransactionConfig) (s : Transactions E C) (b rand : ℕ) :
    Transactions E C :=
  let t := s.cells b
  if t.type = .con then
    if t.retransCounter.toNat ≤ cfg.maxRetransmit then
      let interval := if t.retransCounter = 0 then
          BitVec.ofNat 32 (cfg.responseTimeoutTicks + rand % cfg.backoffMask)
        else t.retransInterval <<< 1
      ((s.modify b fun t => { t with retransInterval := interval }).setTimer b true).emit
        (.send b (some interval))
    else callBack (coapClearTransaction s b) b t.callback false
  else coapClearTransaction (s.emit (.send b none)) b

/-- `coap_retransmit_transaction`, for a timer that has expired. -/
def coapRetransmitTransaction (cfg : TransactionConfig) (s : Transactions E C) (b : ℕ) :
    Transactions E C :=
  coapSendTransaction cfg ((s.setTimer b false).modify b fun t =>
    { t with retransCounter := t.retransCounter + 1 }) b 0

/-- `coap_get_transaction_by_mid` -/
def coapGetTransactionByMid (s : Transactions E C) (mid : BitVec 16) : Option ℕ :=
  s.list.find? fun b => (s.cells b).mid = mid

/-- What is opened: a request with a callback, or a notification or separate response without. -/
structure Opening (E C : Type) where
  mid : BitVec 16
  endpoint : E
  callback : Option C
  type : CoapType
  rand : ℕ

/-- The message of a transaction is written. -/
def setMessage (s : Transactions E C) (b : ℕ) (type : CoapType) : Transactions E C :=
  (s.modify b fun t => { t with type }).emit (.message b type)

/-- A callback is set, if there is one. -/
def setCallback (s : Transactions E C) (b : ℕ) (callback : Option C) : Transactions E C :=
  callback.elim s fun c => (s.modify b fun t => { t with callback := some c }).emit (.callback b c)

/-- A transaction is created and sent, as in `progress_request` and `coap_notify_observers_sub`. -/
def openTransaction (cfg : TransactionConfig) (s : Transactions E C) (o : Opening E C) :
    Transactions E C :=
  (coapNewTransaction cfg s o.mid o.endpoint).elim s fun (b, s) =>
    coapSendTransaction cfg (setMessage (setCallback s b o.callback) b o.type) b o.rand

/-- What the handler of a request does: it opens transactions, and the answer is sent or not. -/
structure Handled (E C : Type) where
  opened : List (Opening E C)
  reply : Bool

/-- `coap_receive`, for a datagram that is parsed. A callback that is called, as well as the handler
of a request, opens transactions. -/
def coapReceive (cfg : TransactionConfig) (s : Transactions E C) (src : E)
    (message : CoapMessage Slice) (handled : Handled E C) : Transactions E C :=
  if 1 ≤ message.code.toNat ∧ message.code.toNat ≤ 4 then
    (coapNewTransaction cfg s message.mid src).elim s fun (b, s) =>
      let s := handled.opened.foldl (openTransaction cfg) s
      if handled.reply then
        coapSendTransaction cfg (setMessage s b (if message.type = .con then .ack else .non)) b 0
      else coapClearTransaction s b
  else
    let s := (coapGetTransactionByMid s message.mid).elim s fun b =>
      callBack (coapClearTransaction s b) b (s.cells b).callback true
    handled.opened.foldl (openTransaction cfg) s

/-- What happens to the transactions. -/
inductive TransactionEvent (E C : Type)
  | opened (o : Opening E C)
  | received (src : E) (message : CoapMessage Slice) (handled : Handled E C)
  | expired (b : ℕ) (opened : List (Opening E C))

/-- The transactions after an event. Only a timer that is set expires. -/
def Transactions.step (cfg : TransactionConfig) (s : Transactions E C) :
    TransactionEvent E C → Transactions E C
  | .opened o => openTransaction cfg s o
  | .received src message handled => coapReceive cfg s src message handled
  | .expired b opened =>
    if s.timers b then opened.foldl (openTransaction cfg) (coapRetransmitTransaction cfg s b) else s

end Asap.Coap
