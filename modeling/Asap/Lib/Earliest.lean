import Mathlib.Order.Bounds.Basic
import Mathlib.Data.Set.Insert
import Mathlib.Order.Nat

/-!
# The earliest of some times

A scan for the earliest of some times often keeps a number for it, with zero as long as no time has
been seen. Two scans over different times have the same result exactly if neither has a time that is
before all times of the other.

## Main definitions

* `First` — a number is the earliest time, or zero when there is none.
* `Covered` — each time has one of the others at it or before it.
-/

namespace Asap.Lib

/-- A number is the earliest of some times, or zero when there is none. -/
def First (T : Set ℕ) (m : ℕ) : Prop := m = 0 ∧ T = ∅ ∨ IsLeast T m

/-- Each time has one of the others at it or before it. -/
def Covered (T U : Set ℕ) : Prop := ∀ t ∈ T, ∃ u ∈ U, u ≤ t

variable {T U V : Set ℕ} {m n t : ℕ}

theorem first_empty : First ∅ 0 := Or.inl ⟨rfl, rfl⟩

theorem First.eq_zero_iff (h : First T m) (hpos : 0 ∉ T) : m = 0 ↔ T = ∅ := by
  rcases h with ⟨hm, hT⟩ | hleast
  · exact iff_of_true hm hT
  · refine iff_of_false (fun hm => hpos (hm ▸ hleast.1)) fun hT => ?_
    rw [hT] at hleast
    exact hleast.1

theorem First.le (h : First T m) (ht : t ∈ T) : m ≤ t := by
  rcases h with ⟨-, hT⟩ | hleast
  · rw [hT] at ht
    exact absurd ht (Set.notMem_empty t)
  · exact hleast.2 ht

/-- **One more time** in a scan. -/
theorem First.insert (h : First T m) (hpos : 0 ∉ T) (t : ℕ) :
    First (insert t T) (if m = 0 ∨ t < m then t else m) := by
  have hzero := h.eq_zero_iff hpos
  refine Or.inr ⟨?_, fun u hu => ?_⟩
  · split_ifs with hc
    · exact Set.mem_insert t T
    · rcases h with ⟨hm, -⟩ | hleast
      · exact absurd (Or.inl hm) hc
      · exact Set.mem_insert_of_mem t hleast.1
  · rcases hu with rfl | hu
    · split_ifs with hc
      · exact le_rfl
      · omega
    · have hle := h.le hu
      have hne : m ≠ 0 := fun hm => by
        rw [hzero.mp hm] at hu
        exact hu
      split_ifs with hc <;> omega

/-- **Two scans agree** exactly if neither has a time before all of the other. -/
theorem First.eq_iff (h : First T m) (h' : First U n) (hT : 0 ∉ T) (hU : 0 ∉ U) :
    m = n ↔ Covered T U ∧ Covered U T := by
  constructor
  · rintro rfl
    have hmem : ∀ {V W : Set ℕ}, First V m → First W m → 0 ∉ V → Covered V W := by
      intro V W hV hW hpos t ht
      rcases hW with ⟨hm, -⟩ | hleast
      · rw [(hV.eq_zero_iff hpos).mp hm] at ht
        exact absurd ht (Set.notMem_empty t)
      · exact ⟨m, hleast.1, hV.le ht⟩
    exact ⟨hmem h h' hT, hmem h' h hU⟩
  · intro ⟨hTU, hUT⟩
    have hle : ∀ {V W : Set ℕ} {a b : ℕ}, First V a → First W b → Covered V W → Covered W V →
        b ≤ a := by
      intro V W a b hV hW hVW hWV
      rcases hV with ⟨rfl, rfl⟩ | hleast
      · rcases hW with ⟨rfl, -⟩ | hleast
        · exact le_rfl
        · obtain ⟨u, hu, -⟩ := hWV b hleast.1
          exact absurd hu (Set.notMem_empty u)
      · obtain ⟨u, hu, hua⟩ := hVW a hleast.1
        exact (hW.le hu).trans hua
    exact Nat.le_antisymm (hle h' h hUT hTU) (hle h h' hTU hUT)

theorem covered_refl (T : Set ℕ) : Covered T T := fun t ht => ⟨t, ht, le_rfl⟩

/-- What both have in common is covered. -/
theorem covered_union_iff : Covered (V ∪ T) (V ∪ U) ↔ Covered T (V ∪ U) := by
  refine ⟨fun h t ht => h t (Or.inr ht), fun h t ht => ?_⟩
  rcases ht with ht | ht
  · exact ⟨t, Or.inl ht, le_rfl⟩
  · exact h t ht

end Asap.Lib
