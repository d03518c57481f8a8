import Mathlib.Data.BitVec
import Mathlib.Tactic.Common

/-!
# Timers

A timer is where it has been set and how long it runs. The clock has `W` bits and wraps.

## Main definitions

* `Timer`, `timerSet`, `timerExpired`, `timerRemaining`.
-/

namespace Asap.Sys

/-- `struct timer`. -/
structure Timer (W : ℕ) where
  start : BitVec W
  interval : BitVec W
deriving DecidableEq

variable {W : ℕ} (now : BitVec W)

/-- `timer_set` -/
def timerSet (interval : BitVec W) : Timer W := ⟨now, interval⟩

/-- `timer_expired`: one is added to the difference, as the comparison is strict. -/
def timerExpired (t : Timer W) : Bool := t.interval < now - t.start + 1

/-- `timer_remaining` -/
def timerRemaining (t : Timer W) : BitVec W := t.start + t.interval - now

end Asap.Sys
