import Mathlib.Data.List.Basic
import Mathlib.Data.Nat.ModEq
import Mathlib.Logic.Function.Basic
import Mathlib.Tactic.Common

/-!
# The window of a ring buffer

A ring buffer is an array with a read position and a number of elements; its
contents are the elements found by walking from the read position and wrapping at
the end. `window` is that list. Every operation on a ring buffer is an operation on
this list: writing behind the window appends, moving the read position drops a
prefix, and writing inside the window replaces one element.

## Main definitions

* `window arr size get count` — the `count` elements from position `get` on.
-/

namespace Asap.Lib.Ring

open Function

variable {α : Type*} {arr : ℕ → α} {size get count : ℕ}

/-- The elements of a ring buffer, oldest first. -/
def window (arr : ℕ → α) (size get count : ℕ) : List α :=
  (List.range count).map fun i => arr ((get + i) % size)

@[simp] theorem length_window (arr : ℕ → α) (size get count : ℕ) :
    (window arr size get count).length = count := by
  simp [window]

@[simp] theorem window_zero (arr : ℕ → α) (size get : ℕ) : window arr size get 0 = [] := rfl

theorem getElem?_window {i : ℕ} (hi : i < count) :
    (window arr size get count)[i]? = some (arr ((get + i) % size)) := by
  simp [window, hi]

/-- Distinct offsets within one revolution are distinct positions. -/
theorem offset_inj {i j : ℕ} (hi : i < size) (hj : j < size)
    (h : (get + i) % size = (get + j) % size) : i = j := by
  have hmod : i ≡ j [MOD size] := Nat.ModEq.add_left_cancel' get h
  rw [Nat.ModEq, Nat.mod_eq_of_lt hi, Nat.mod_eq_of_lt hj] at hmod
  exact hmod

/-- Writing inside the window replaces the element at that offset. -/
theorem window_update {j : ℕ} (hj : j < count) (hcount : count ≤ size) (x : α) :
    window (update arr ((get + j) % size) x) size get count =
      (window arr size get count).set j x := by
  refine List.ext_getElem? fun i => ?_
  by_cases hi : i < count
  · rw [getElem?_window hi, List.getElem?_set]
    by_cases hij : j = i
    · subst hij
      simp [hj]
    · have hne : (get + i) % size ≠ (get + j) % size := by
        intro h
        exact hij (offset_inj (by omega) (by omega) h).symm
      rw [update_of_ne hne, if_neg hij, getElem?_window hi]
  · have h1 : (window (update arr ((get + j) % size) x) size get count)[i]? = none := by
      simp only [List.getElem?_eq_none_iff, length_window]
      omega
    have h2 : ((window arr size get count).set j x)[i]? = none := by
      simp only [List.getElem?_eq_none_iff, List.length_set, length_window]
      omega
    rw [h1, h2]

theorem window_succ (arr : ℕ → α) (size get count : ℕ) :
    window arr size get (count + 1) = window arr size get count ++ [arr ((get + count) % size)] := by
  simp [window, List.range_succ]

/-- Writing outside the window changes nothing. -/
theorem window_update_of_le {j : ℕ} (hj : count ≤ j) (hjs : j < size) (x : α) :
    window (update arr ((get + j) % size) x) size get count =
      window arr size get count := by
  refine List.map_congr_left fun i hi => ?_
  have hi' : i < count := List.mem_range.mp hi
  have hne : (get + i) % size ≠ (get + j) % size := by
    intro h
    have := offset_inj (by omega) hjs h
    omega
  exact update_of_ne hne x arr

/-- **Writing just behind the window appends.** -/
theorem window_push (hcount : count < size) (x : α) :
    window (update arr ((get + count) % size) x) size get (count + 1) =
      window arr size get count ++ [x] := by
  rw [window_succ, window_update_of_le (Nat.le_refl count) hcount, update_self]

/-- **Moving the read position drops a prefix.** -/
theorem window_drop {k : ℕ} (hk : k ≤ count) :
    window arr size ((get + k) % size) (count - k) = (window arr size get count).drop k := by
  refine List.ext_getElem? fun i => ?_
  rw [List.getElem?_drop]
  by_cases hi : i < count - k
  · rw [getElem?_window hi, getElem?_window (by omega), Nat.mod_add_mod, Nat.add_assoc]
  · have h1 : (window arr size ((get + k) % size) (count - k))[i]? = none := by
      simp only [List.getElem?_eq_none_iff, length_window]
      omega
    have h2 : (window arr size get count)[k + i]? = none := by
      simp only [List.getElem?_eq_none_iff, length_window]
      omega
    rw [h1, h2]

end Asap.Lib.Ring
