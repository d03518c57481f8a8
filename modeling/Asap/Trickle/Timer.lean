import Asap.Lib.Run
import Asap.Sys.Timer

/-!
# Trickle timers

An interval of a trickle timer has a random point in its second half, where the protocol is called,
and an end, where the next interval starts that is twice as long. One callback timer is set to the
former and then to the latter. It is on a list of such timers while it runs; when it expires, an
event is posted, and it is the event that calls the callback, if the timer is on the list then.

With the timer goes a record of its intervals: how long each is, the point that has been drawn, the
alarm that has been set to it, the consistent events, and what the protocol has been told.

## Main definitions

* `trickleTimerConfig`, `trickleTimerSet` — a timer is configured and started.
* `consistency`, `inconsistency`, `fire`, `doubleInterval` — what changes it.
* `TtState.step` — what happens to it.
-/

namespace Asap.Trickle

open Lib Sys

variable {W : ℕ}

/-- The two callbacks. -/
inductive TtCallback
  | fire
  | doubleInterval
deriving DecidableEq

/-- `struct trickle_timer` but for its `ctimer`; whether a callback of the protocol is there. -/
structure TrickleTimer (W : ℕ) where
  iMin : BitVec W
  iCur : BitVec W
  iStart : BitVec W
  iMaxAbs : BitVec W
  cb : Bool
  iMax : BitVec 8
  k : BitVec 8
  c : BitVec 8
deriving DecidableEq

/-- `struct ctimer`: whether it is on the list of the callback timers, whether its timer is among
those that can expire, and how many events of it are in the queue. -/
structure Ctimer (W : ℕ) where
  onList : Bool
  f : TtCallback
  timer : Timer W
  armed : Bool
  posted : ℕ
deriving DecidableEq

/-- A call of the protocol: what it is told, the consistent events of the interval up to then, and
whether the alarm of the interval has expired. -/
structure Firing where
  allowed : Bool
  heard : ℕ
  due : Bool
deriving DecidableEq

/-- The record of an interval; one is cut short by a reset. -/
structure Interval (W : ℕ) where
  len : BitVec W
  start : BitVec W
  offset : BitVec W
  alarm : Timer W
  heard : ℕ
  firings : List Firing
  cut : Bool
deriving DecidableEq

/-- A timer with the record of its intervals, the present one first. -/
structure TtState (W : ℕ) where
  tt : TrickleTimer W
  ct : Ctimer W
  cur : Interval W
  past : List (Interval W)
deriving DecidableEq

/-! ## Configuration -/

/-- `TRICKLE_TIMER_CLOCK_MAX` -/
def clockMax : BitVec W := BitVec.allOnes W

/-- `TRICKLE_TIMER_IMIN_IS_BAD` -/
def iMinIsBad (iMin : BitVec W) : Bool := iMin.toNat < 2 ∨ clockMax >>> 1 < iMin

/-- `TRICKLE_TIMER_IPAIR_IS_BAD` -/
def iPairIsBad (iMin : BitVec W) (iMax : BitVec 8) : Bool :=
  clockMax >>> (iMax.toNat + 1) < iMin - 1

/-- The loop of `max_imax`: the number of bits that are looked at, the mask and the zeros so far. -/
def maxImaxLoop : ℕ → ℕ → BitVec W → BitVec W → ℕ → ℕ
  | 0, _, _, _, zeros => zeros
  | fuel + 1, i, mask, value, zeros =>
    if i = 0 then zeros
    else if value &&& mask <<< i = 0 then
      maxImaxLoop fuel (i / 2) (mask <<< i) (value <<< i) (zeros + i)
    else maxImaxLoop fuel (i / 2) (mask <<< i) value zeros

/-- `max_imax`, the generic one: `sizeof(clock_time_t) << 2` is half the width. -/
def maxImax (value : BitVec W) : BitVec 8 :=
  .ofNat 8 (maxImaxLoop W (W / 2) (.ofNat W 0xffff) (value - 1) 0 - 1)

/-- `trickle_timer_config`; `none` for `TRICKLE_TIMER_ERROR`. -/
def trickleTimerConfig (iMin : BitVec W) (iMax k : BitVec 8) : Option (TrickleTimer W) :=
  if iMinIsBad iMin then none
  else if iMax = 0 ∨ k = 0 then none
  else
    let iMax := if iPairIsBad iMin iMax then maxImax iMin else iMax
    some
      { iMin := iMin, iCur := 0, iStart := 0, iMaxAbs := iMin <<< iMax.toNat, cb := false
        iMax := iMax, k := k, c := 0 }

/-! ## Intervals -/

/-- `ctimer_set`: the timer is set, and on the list. -/
def Ctimer.set (ct : Ctimer W) (now interval : BitVec W) (f : TtCallback) : Ctimer W where
  onList := true
  f := f
  timer := timerSet now interval
  armed := true
  posted := ct.posted

/-- `TRICKLE_TIMER_INTERVAL_END` -/
def intervalEnd (tt : TrickleTimer W) : BitVec W := tt.iStart + tt.iCur

/-- `TRICKLE_TIMER_PROTO_TX_ALLOW` -/
def protoTxAllow (tt : TrickleTimer W) : Bool := tt.k = 0 ∨ tt.c < tt.k

/-- `get_t`, with what `tt_rand` returns. -/
def getT (iCur : BitVec W) (rand : BitVec 32) : BitVec W :=
  iCur >>> 1 + .ofNat W (rand.toNat % (iCur >>> 1).toNat)

/-- The time up to a point; none where it has passed already. -/
def untilPoint (point now : BitVec W) : BitVec W :=
  if clockMax >>> 1 < point - now then 0 else point - now

namespace TtState

variable (s : TtState W)

/-- `schedule_for_end` -/
def scheduleForEnd (now : BitVec W) : TtState W :=
  { s with ct := s.ct.set now (untilPoint (intervalEnd s.tt) now) .doubleInterval }

/-- An interval begins, of the length that has been set. -/
def begin (start offset : BitVec W) (cut : Bool) : TtState W :=
  { s with
    cur := ⟨s.tt.iCur, start, offset, s.ct.timer, 0, [], false⟩
    past := { s.cur with cut := cut } :: s.past }

/-- `double_interval`: the next interval starts at the end of the last one, whenever that is
noticed. -/
def doubleInterval (now : BitVec W) (rand : BitVec 32) : TtState W :=
  let lastEnd := intervalEnd s.tt
  let iCur := if s.tt.iCur ≤ s.tt.iMaxAbs >>> 1 then s.tt.iCur <<< 1 else s.tt.iMaxAbs
  let t := getT iCur rand
  let s := { s with
    tt := { s.tt with c := 0, iCur := iCur, iStart := lastEnd }
    ct := s.ct.set now (untilPoint (lastEnd + t) now) .fire }
  s.begin lastEnd t false

/-- `new_interval`; the interval before it is cut short. -/
def newInterval (now : BitVec W) (rand : BitVec 32) : TtState W :=
  let t := getT s.tt.iCur rand
  let s := { s with
    tt := { s.tt with c := 0, iStart := now }
    ct := s.ct.set now t .fire }
  s.begin now t true

/-- `trickle_timer_consistency` -/
def consistency : TtState W :=
  if s.tt.iCur = 0 then s
  else { s with
    tt := if s.tt.c < 0xff then { s.tt with c := s.tt.c + 1 } else s.tt
    cur := { s.cur with heard := s.cur.heard + 1 } }

/-- `trickle_timer_inconsistency` -/
def inconsistency (now : BitVec W) (rand : BitVec 32) : TtState W :=
  if s.tt.iCur = 0 then s
  else if s.tt.iCur ≠ s.tt.iMin then
    { s with tt := { s.tt with iCur := s.tt.iMin } }.newInterval now rand
  else s

end TtState

/-- What the protocol reports. -/
inductive TtReport (W : ℕ)
  | consistency
  | inconsistency (now : BitVec W) (rand : BitVec 32)

namespace TtState

variable (s : TtState W)

/-- A report of the protocol. -/
def report : TtReport W → TtState W
  | .consistency => s.consistency
  | .inconsistency now rand => s.inconsistency now rand

/-- The callback of the protocol is called. -/
def call : TtState W :=
  { s with cur := { s.cur with
      firings := s.cur.firings ++
        [⟨protoTxAllow s.tt, s.cur.heard, !s.ct.armed && s.ct.timer = s.cur.alarm⟩] } }

/-- `fire`: the callback reports what it likes, and then the end is scheduled. -/
def fire (reports : List (TtReport W)) (now : BitVec W) : TtState W :=
  let s := if s.tt.cb then reports.foldl report s.call else s
  if s.tt.iCur ≠ 0 then s.scheduleForEnd now else s

end TtState

/-- `trickle_timer_set` with a callback, on a timer that has been configured. -/
def trickleTimerSet (tt : TrickleTimer W) (now : BitVec W) (r r' : BitVec 32) : TtState W :=
  let tt := { tt with
    cb := true
    iCur := tt.iMin + .ofNat W (r.toNat % (tt.iMaxAbs - tt.iMin + 1).toNat)
    c := 0
    iStart := now }
  let t := getT tt.iCur r'
  { tt := tt
    ct := ⟨true, .fire, timerSet now t, true, 0⟩
    cur := ⟨tt.iCur, now, t, timerSet now t, 0, [], false⟩
    past := [] }

/-! ## Runs -/

/-- What happens: a report from anywhere, the expiry of the timer, which posts an event, and the
arrival of an event at the process of the callback timers. -/
inductive TtEvent (W : ℕ)
  | report (r : TtReport W)
  | expire (now : BitVec W)
  | deliver (reports : List (TtReport W)) (now : BitVec W) (rand : BitVec 32)

namespace TtState

/-- A callback timer is taken from the list, and its callback is called. -/
def callback (s : TtState W) (reports : List (TtReport W)) (now : BitVec W) (rand : BitVec 32) :
    TtState W :=
  match s.ct.f with
  | .fire => s.fire reports now
  | .doubleInterval => s.doubleInterval now rand

/-- One event. -/
def step (s : TtState W) : TtEvent W → Option (TtState W)
  | .report r => some (s.report r)
  | .expire now =>
    if s.ct.armed ∧ timerExpired now s.ct.timer then
      some { s with ct := { s.ct with armed := false, posted := s.ct.posted + 1 } }
    else none
  | .deliver reports now rand =>
    if s.ct.posted = 0 then none
    else
      let s := { s with ct := { s.ct with posted := s.ct.posted - 1 } }
      if s.ct.onList then
        some ({ s with ct := { s.ct with onList := false } }.callback reports now rand)
      else some s

end TtState

end Asap.Trickle
