import Mathlib.Data.Nat.ModEq
import Mathlib.Data.Set.Basic
import Mathlib.Tactic.Ring

/-!
# Dyadic progressions

A dyadic progression is the set of numbers with a given remainder modulo a power of
two. Two of them are either nested or disjoint; they meet exactly when the offsets
agree modulo the smaller power. The progressions are the nodes of a binary tree: each
is contained in its parent, of half the power, and is the union of its two children.

## Main definitions

* `progression n t` — the numbers congruent to `t` modulo `2 ^ n`.
* `Meets n t m s` — the offsets agree modulo the smaller power.
-/

namespace Asap.Lib.Dyadic

open Nat

/-- The numbers congruent to `t` modulo `2 ^ n`. -/
def progression (n t : ℕ) : Set ℕ := {k | k % 2 ^ n = t % 2 ^ n}

/-- The offsets agree modulo the smaller of the two powers. -/
def Meets (n t m s : ℕ) : Prop := t % 2 ^ min n m = s % 2 ^ min n m

instance (n t m s : ℕ) : Decidable (Meets n t m s) := inferInstanceAs (Decidable (_ = _))

variable {n t m s : ℕ}

theorem meets_of_le (h : m ≤ n) : Meets n t m s ↔ t % 2 ^ m = s % 2 ^ m := by
  rw [Meets, Nat.min_eq_right h]

theorem meets_of_ge (h : n ≤ m) : Meets n t m s ↔ t % 2 ^ n = s % 2 ^ n := by
  rw [Meets, Nat.min_eq_left h]

/-- Reducing modulo a power, then modulo a smaller one. -/
theorem mod_pow_mod_pow (x : ℕ) (h : n ≤ m) : x % 2 ^ m % 2 ^ n = x % 2 ^ n :=
  mod_mod_of_dvd x (pow_dvd_pow 2 h)

/-- **Two progressions meet when they share a number.** -/
theorem meets_iff : Meets n t m s ↔ (progression n t ∩ progression m s).Nonempty := by
  constructor
  · intro h
    rcases Nat.le_total n m with hle | hle
    · refine ⟨s, ?_, rfl⟩
      exact ((meets_of_ge hle).mp h).symm
    · refine ⟨t, rfl, ?_⟩
      exact (meets_of_le hle).mp h
  · rintro ⟨k, hkt, hks⟩
    rcases Nat.le_total n m with hle | hle
    · rw [meets_of_ge hle, ← hkt, ← mod_pow_mod_pow k hle, hks, mod_pow_mod_pow s hle]
    · rw [meets_of_le hle, ← hks, ← mod_pow_mod_pow k hle, hkt, mod_pow_mod_pow t hle]

/-- Between offsets below one power, meeting is equality. -/
theorem meets_self (ht : t < 2 ^ n) (hs : s < 2 ^ n) : Meets n t n s ↔ t = s := by
  rw [meets_of_le le_rfl, mod_eq_of_lt ht, mod_eq_of_lt hs]

/-- A larger progression meets a smaller one when it meets its parent. -/
theorem meets_parent (h : n < m) : Meets n t (m - 1) (s % 2 ^ (m - 1)) ↔ Meets n t m s := by
  have hle : n ≤ m - 1 := by omega
  rw [meets_of_ge hle, meets_of_ge h.le, mod_pow_mod_pow s hle]

/-- A smaller progression meets a larger one when it meets one of its children. -/
theorem meets_children (h : m < n) :
    Meets n t m s ↔ Meets n t (m + 1) s ∨ Meets n t (m + 1) (s + 2 ^ m) := by
  have hpow := Nat.two_pow_pos m
  have hadd : (s + 2 ^ m) / 2 ^ m = s / 2 ^ m + 1 := add_div_right s hpow
  rw [meets_of_le h.le, meets_of_le (succ_le_of_lt h), meets_of_le (succ_le_of_lt h)]
  simp only [mod_pow_succ, hadd, add_mod_right]
  -- the bit above the smaller power decides between the children
  have hflip : (s / 2 ^ m + 1) % 2 = 1 - s / 2 ^ m % 2 := by omega
  have hlt := mod_lt t hpow
  have hlt' := mod_lt s hpow
  rw [hflip]
  rcases mod_two_eq_zero_or_one (t / 2 ^ m) with ht | ht <;>
    rcases mod_two_eq_zero_or_one (s / 2 ^ m) with hs | hs <;>
    simp only [ht, hs, Nat.mul_zero, Nat.mul_one, Nat.sub_zero, Nat.sub_self] <;> omega

end Asap.Lib.Dyadic
