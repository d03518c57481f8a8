import Asap.Coap.Serialize
import Asap.Lib.Pool

/-!
# The observers of a CoAP server

Who observes a resource has an entry in one list: the endpoint, the token of the request and its
path, cut to a buffer of the entry. The entries are blocks of a pool, and a block keeps its
counter from one observer to the next. Every removal goes over the list and clears the link of
what it removes, so the loop that the removal is in ends there. A notification is one message
that is changed for each observer in turn.

## Main definitions

* `Observer`, `Registry` — an entry, and the list of them.
* `coapObserveHandler`, `coapRemoveObserver` — registration and removal.
* `coapNotifyObserversSub` — a notification of the observers of a resource.
-/

namespace Asap.Coap

open Lib

/-- `COAP_MAX_OBSERVERS`, `COAP_OBSERVER_URL_LEN`, `COAP_OBSERVE_REFRESH_INTERVAL` and
`COAP_MAX_BLOCK_SIZE`. -/
structure ObserveConfig extends CoapConfig where
  maxObservers : ℕ
  observerUrlLen : ℕ
  observeRefreshInterval : ℕ
  maxBlockSize : BitVec 16

/-- `coap_observer_t`, with its url up to the first zero. -/
structure Observer (E : Type) where
  url : List Byte
  endpoint : E
  token : List Byte
  lastMid : BitVec 16
  obsCounter : BitVec 32

/-- The blocks of the observers, and those in use in the order of the list. -/
structure Registry (E : Type) where
  cells : ℕ → Observer E
  list : List ℕ

variable {E : Type} [DecidableEq E]

/-- A string up to its first zero. -/
def cString (bytes : List Byte) : List Byte := bytes.takeWhile (· != 0)

namespace Registry

/-- A block is changed. -/
def modify (s : Registry E) (o : ℕ) (f : Observer E → Observer E) : Registry E :=
  { s with cells := Function.update s.cells o (f (s.cells o)) }

/-- The counter of an observer is increased and masked out. -/
def count (s : Registry E) (o : ℕ) : Registry E :=
  s.modify o fun obs => { obs with obsCounter := (obs.obsCounter + 1) &&& 0xFFFFFF }

end Registry

/-! ## Removal -/

/-- `coap_remove_observer` -/
def coapRemoveObserver (s : Registry E) (o : ℕ) : Registry E := { s with list := s.list.erase o }

/-- The loop of the removals, over the rest of the list. -/
def removeLoop (hit : Observer E → Bool) : List ℕ → Registry E → Registry E
  | [], s => s
  | obs :: rest, s =>
    -- `list_remove` clears the link that the loop would follow
    if hit (s.cells obs) then coapRemoveObserver s obs else removeLoop hit rest s

/-- `memcmp` of the url of an observer with the bytes from a pointer on. -/
def urlHit (uri : ℕ → Byte) (obs : Observer E) : Bool := bytesAt uri 0 obs.url.length == obs.url

/-- The ways to cancel: `coap_remove_observer_by_token`, `_by_mid`, `_by_client` and `_by_uri`,
the last one for an endpoint or for all. -/
inductive Cancel (E : Type)
  | token (endpoint : E) (token : List Byte)
  | mid (endpoint : E) (mid : BitVec 16)
  | client (endpoint : E)
  | uri (endpoint : Option E) (uri : CString)

/-- The entries that a removal of a kind looks for. -/
def Cancel.hit : Cancel E → Observer E → Bool
  | .token ep t, obs => obs.endpoint = ep && obs.token = t
  | .mid ep i, obs => obs.endpoint = ep && obs.lastMid = i
  | .client ep, obs => obs.endpoint = ep
  | .uri ep u, obs => ep.all (obs.endpoint = ·) && urlHit u.memory obs

/-- A removal of one of these kinds. -/
def cancel (s : Registry E) (c : Cancel E) : Registry E := removeLoop c.hit s.list s

/-! ## Registration -/

/-- What is kept of a path. -/
def keptUrl (cfg : ObserveConfig) (uri : CStr) : List Byte :=
  cString (bytesAt uri.bytes 0 (min (cfg.observerUrlLen - 1) uri.len))

/-- `add_observer` -/
def addObserver (cfg : ObserveConfig) (s : Registry E) (endpoint : E) (token : List Byte)
    (uri : CStr) : Registry E × Option ℕ :=
  -- `coap_remove_observer_by_uri`, of a path that does not end with a zero
  let s := removeLoop (fun obs => obs.endpoint = endpoint && urlHit uri.bytes obs) s.list s
  match membAlloc cfg.maxObservers fun o => decide (o ∈ s.list) with
  | some o =>
    ({ s.modify o fun obs =>
        -- the counter stays
        { obs with url := keptUrl cfg uri, endpoint, token, lastMid := 0 } with
      list := s.list ++ [o] }, some o)
  | none => (s, none)

/-- What a request says to the observers. -/
inductive ObserveRequest (E : Type)
  | register (endpoint : E)
  | deregister (endpoint : E)
  | other

/-- The conditions of `coap_observe_handler`. -/
def observeRequest (src : Option E) (req res : CoapMessage CStr) : ObserveRequest E :=
  if req.code = 1 ∧ res.code.toNat < 128 ∧ req.isOption CoapOption.observe.number then
    match src with
    | none => .other
    | some src =>
      if req.observe = 0 then .register src
      else if req.observe = 1 then .deregister src
      else .other
  else .other

/-- The payload of an answer when there is no block. -/
def tooManyObservers : List Byte :=
  "TooManyObservers".toList.map fun c => BitVec.ofNat 8 c.toNat

/-- `coap_observe_handler`, with the answer. -/
def coapObserveHandler (cfg : ObserveConfig) (src : Option E) (req res : CoapMessage CStr)
    (s : Registry E) : CoapMessage CStr × Registry E :=
  match observeRequest src req res with
  | .register endpoint =>
    match addObserver cfg s endpoint req.token (req.strings .uriPath) with
    | (s, some obs) => (coapSetHeaderObserve res (s.cells obs).obsCounter, s.count obs)
    | (s, none) => (coapSetPayload { res with code := 0xA3 } cfg.toCoapConfig tooManyObservers, s)
  | .deregister endpoint => (res, cancel s (.token endpoint req.token))
  | .other => (res, s)

/-! ## Notification -/

/-- What is notified about: a resource with its flag `HAS_SUB_RESOURCES`, a path, or both. -/
structure Target where
  resource : Option (CString × Bool)
  subpath : Option CString

namespace Target

/-- The whole path, before it is cut. -/
def path (target : Target) : List Byte :=
  (target.resource.elim [] fun r => r.1.chars) ++ (target.subpath.elim [] CString.chars)

/-- The buffer `url`, for a resource or a path. -/
def url (cfg : ObserveConfig) (target : Target) : List Byte :=
  target.path.take (cfg.observerUrlLen - 1)

/-- `sub_ok` -/
def subOk (target : Target) : Bool := target.resource.all Prod.snd

/-- The observers that are told. -/
def concerns (cfg : ObserveConfig) (target : Target) (obs : Observer E) : Bool :=
  let url := target.url cfg
  (obs.url.length == url.length ||
      (decide (url.length < obs.url.length) && target.subOk &&
        obs.url[url.length]? == some 0x2F)) &&
    obs.url.take url.length == url

end Target

/-- What comes of the handler for one observer: the message id of the transaction, if there is a
free one; the calls of the setters, if there is a handler; where a next block starts; and the
observers that the handler removes. -/
structure Answer (E : Type) where
  mid : Option (BitVec 16)
  handler : Option (List Setter)
  newOffset : ℤ
  cancels : List (Cancel E)

/-- A notification that is sent. -/
structure Notification (E : Type) where
  observer : ℕ
  endpoint : E
  message : CoapMessage CStr

/-- The state of the loop over the observers: the list, the message that they share, and what has
been sent. `cancelled` records the removals by handlers, with the registry before each. -/
structure Notifying (E : Type) where
  registry : Registry E
  notification : CoapMessage CStr
  sent : List (Notification E)
  cancelled : List (Registry E × Cancel E)

/-- The removals of a handler. -/
def cancelAll (st : Notifying E) (cancels : List (Cancel E)) : Notifying E :=
  cancels.foldl (fun st c =>
    { st with registry := cancel st.registry c, cancelled := st.cancelled ++ [(st.registry, c)] }) st

section

variable (cfg : ObserveConfig)

/-- It is the turn of a confirmable message. -/
def refresh (obs : Observer E) : Bool :=
  cfg.observeRefreshInterval != 0 && obs.obsCounter.toNat % cfg.observeRefreshInterval == 0

/-- What the handler makes of the message; without a handler the code is 4.00. -/
def callHandlers (m : CoapMessage CStr) : Option (List Setter) →
    CoapMessage CStr
  | some setters => setters.foldl (Setter.apply cfg.toCoapConfig) m
  | none => { m with code := 0x80 }

/-- The message is finished: its token, and its block if there is a next one. -/
def finish (m : CoapMessage CStr) (token : List Byte) (newOffset : ℤ) :
    CoapMessage CStr :=
  let m := coapSetToken m token
  if newOffset ≠ 0 then
    let m := coapSetHeaderBlock2 m 0 (if newOffset ≠ -1 then 1 else 0) cfg.maxBlockSize
    coapSetPayload m cfg.toCoapConfig (m.payload.content.take cfg.maxBlockSize.toNat)
  else m

/-- The body of the loop of `coap_notify_observers_sub`, for an observer with a transaction. -/
def notifyOne (answer : Answer E) (mid : BitVec 16) (o : ℕ)
    (st : Notifying E) : Notifying E :=
  let obs := st.registry.cells o
  let m := if refresh cfg obs then { st.notification with type := .con } else st.notification
  let m := callHandlers cfg { m with mid } answer.handler
  let st := cancelAll
    { st with registry := st.registry.modify o fun obs => { obs with lastMid := mid } }
    answer.cancels
  if m.code.toNat < 128 then
    let m := finish cfg (coapSetHeaderObserve m obs.obsCounter) obs.token answer.newOffset
    { st with
      registry := st.registry.count o
      notification := m
      sent := st.sent ++ [⟨o, obs.endpoint, m⟩] }
  else
    let m := finish cfg m obs.token answer.newOffset
    { st with notification := m, sent := st.sent ++ [⟨o, obs.endpoint, m⟩] }

/-- The loop of `coap_notify_observers_sub`, over the rest of the list as it was at the start. An
observer that was removed is on no link any more, and there is no link behind one that its own
handler removes. -/
def notifyLoop (target : Target) (env : ℕ → Answer E) :
    List ℕ → Notifying E → Notifying E
  | [], st => st
  | o :: rest, st =>
    if o ∈ st.registry.list ∧ target.concerns cfg (st.registry.cells o) then
      match (env o).mid with
      | none => notifyLoop target env rest st
      | some mid =>
        let st := notifyOne cfg (env o) mid o st
        if o ∈ st.registry.list then notifyLoop target env rest st else st
    else notifyLoop target env rest st

/-- `coap_notify_observers_sub` -/
def coapNotifyObserversSub (target : Target) (env : ℕ → Answer E)
    (s : Registry E) : Notifying E :=
  let st : Notifying E := ⟨s, coapInitMessage .non 0x45 0, [], []⟩
  if target.resource.isNone ∧ target.subpath.isNone then st
  else notifyLoop cfg target env s.list st

end

end Asap.Coap
