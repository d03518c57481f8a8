import Mathlib.Logic.ExistsUnique
import Mathlib.Tactic.Common

/-!
# Custody

Items that are each held by exactly one of several holders. An operation that moves one
item, and leaves the others where they are, keeps it so, whatever holder the item came
from: `Exclusive.move` asks only where the item is afterwards.

## Main definitions

* `Exclusive At` — every item has exactly one holder.
-/

namespace Asap.Lib

variable {ι π : Type*} {At At' : ι → π → Prop}

/-- Every item has exactly one holder. -/
def Exclusive (At : ι → π → Prop) : Prop := ∀ i, ∃! x, At i x

namespace Exclusive

/-- Two holders of one item are the same. -/
theorem unique (h : Exclusive At) {i : ι} {x y : π} (hx : At i x) (hy : At i y) : x = y :=
  (h i).unique hx hy

/-- **Moving one item.** -/
theorem move (h : Exclusive At) {i : ι} {y : π} (hi : ∀ x, At' i x ↔ x = y)
    (hothers : ∀ j ≠ i, ∀ x, At' j x ↔ At j x) : Exclusive At' := by
  intro j
  by_cases hj : j = i
  · subst hj
    exact ⟨y, (hi y).mpr rfl, fun x hx => (hi x).mp hx⟩
  · obtain ⟨x, hx, huniq⟩ := h j
    exact ⟨x, (hothers j hj x).mpr hx, fun z hz => huniq z ((hothers j hj z).mp hz)⟩

end Exclusive

end Asap.Lib
