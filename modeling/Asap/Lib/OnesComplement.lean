import Mathlib.Data.Nat.ModEq
import Mathlib.Algebra.BigOperators.Group.List.Basic
import Mathlib.Tactic.Common

/-!
# One's complement sums

In a one's complement sum a carry out of the word is added at its low end. The sum of some words
depends only on their sum as numbers: it is the number from one to `2 ^ w - 1` that is congruent to
that sum, or zero if all words are zero. The complement of a sum, added to it, gives the word of
ones.

## Main definitions

* `addCarry` — the sum of two words, where the carry is found by a comparison.
* `endAround` — the one's complement sum as a number.
-/

namespace Asap.Lib

open Nat

variable {w m n k : ℕ}

/-- The sum of two words with the carry added at its end. -/
def addCarry (s t : BitVec w) : BitVec w :=
  let u := s + t
  if u < t then u + 1 else u

/-- The number from one to `m` that is congruent to a number, and zero for zero. -/
def endAround (m n : ℕ) : ℕ := if n = 0 then 0 else (n - 1) % m + 1

@[simp] theorem endAround_zero : endAround m 0 = 0 := rfl

theorem endAround_of_pos (hn : 0 < n) : endAround m n = (n - 1) % m + 1 :=
  if_neg (Nat.ne_of_gt hn)

theorem endAround_of_le (h : n ≤ m) : endAround m n = n := by
  rcases Nat.eq_zero_or_pos n with rfl | hn
  · rfl
  · rw [endAround_of_pos hn, mod_eq_of_lt (by omega)]
    omega

theorem endAround_le (hm : 0 < m) (n : ℕ) : endAround m n ≤ m := by
  rw [endAround]
  split_ifs
  · exact Nat.zero_le m
  · exact mod_lt _ hm

theorem endAround_eq_zero : endAround m n = 0 ↔ n = 0 := by
  rcases Nat.eq_zero_or_pos n with rfl | hn
  · exact iff_of_true rfl rfl
  · rw [endAround_of_pos hn]
    exact iff_of_false (succ_ne_zero _) (Nat.ne_of_gt hn)

theorem endAround_modEq (m n : ℕ) : endAround m n ≡ n [MOD m] := by
  rcases Nat.eq_zero_or_pos n with rfl | hn
  · rfl
  · rw [endAround_of_pos hn]
    have hmod : (n - 1) % m + 1 ≡ n - 1 + 1 [MOD m] := (mod_modEq (n - 1) m).add_right 1
    rwa [Nat.sub_add_cancel hn] at hmod

/-- **Two numbers with the same residue** have the same sum, unless only one of them is zero. -/
theorem endAround_congr (h : n ≡ k [MOD m]) (hzero : n = 0 ↔ k = 0) :
    endAround m n = endAround m k := by
  rcases Nat.eq_zero_or_pos n with rfl | hn
  · rw [hzero.mp rfl]
  · have hk : 0 < k := Nat.pos_of_ne_zero fun heq => Nat.ne_of_gt hn (hzero.mpr heq)
    rw [endAround_of_pos hn, endAround_of_pos hk]
    have hpred : n - 1 ≡ k - 1 [MOD m] := by
      refine Nat.ModEq.add_right_cancel' 1 ?_
      rwa [Nat.sub_add_cancel hn, Nat.sub_add_cancel hk]
    rw [hpred]

/-- A sum can go on from the sum so far. -/
theorem endAround_add (m n k : ℕ) : endAround m (endAround m n + k) = endAround m (n + k) := by
  refine endAround_congr ((endAround_modEq m n).add_right k) ?_
  rw [Nat.add_eq_zero_iff, Nat.add_eq_zero_iff, endAround_eq_zero]

/-- A multiple of `m` that is not zero gives `m`. -/
theorem endAround_eq_iff (hm : 0 < m) : endAround m n = m ↔ 0 < n ∧ m ∣ n := by
  constructor
  · intro h
    refine ⟨Nat.pos_of_ne_zero fun hn => ?_, ?_⟩
    · rw [hn, endAround_zero] at h
      omega
    · have hmod := endAround_modEq m n
      rw [h] at hmod
      exact (Nat.modEq_zero_iff_dvd.mp (hmod.symm.trans (Nat.modEq_zero_iff_dvd.mpr dvd_rfl)))
  · rintro ⟨hn, hdvd⟩
    calc endAround m n = endAround m m :=
          endAround_congr ((Nat.modEq_zero_iff_dvd.mpr hdvd).trans
            (Nat.modEq_zero_iff_dvd.mpr dvd_rfl).symm) (by omega)
      _ = m := endAround_of_le le_rfl

/-- The word of ones counts like zero, beside other words. -/
theorem endAround_add_self (hn : 0 < n) : endAround m (n + m) = endAround m n :=
  endAround_congr add_modEq_right (by omega)

/-- **The complement** of a sum, added to it, gives the word of ones. -/
theorem endAround_complement (hm : 0 < m) (hn : 0 < n) :
    endAround m (n + (m - endAround m n)) = m := by
  refine (endAround_eq_iff hm).mpr ⟨Nat.add_pos_left hn _, Nat.modEq_zero_iff_dvd.mp ?_⟩
  calc n + (m - endAround m n) ≡ endAround m n + (m - endAround m n) [MOD m] :=
        (endAround_modEq m n).symm.add_right _
    _ = m := add_sub_of_le (endAround_le hm n)
    _ ≡ 0 [MOD m] := Nat.modEq_zero_iff_dvd.mpr dvd_rfl

/-- The carry is found where the sum of the words is less than one of them. -/
theorem toNat_addCarry (s t : BitVec w) :
    (addCarry s t).toNat = endAround (2 ^ w - 1) (s.toNat + t.toNat) := by
  have hs := s.isLt
  have ht := t.isLt
  by_cases hcarry : s.toNat + t.toNat < 2 ^ w
  · have hsum : (s + t).toNat = s.toNat + t.toNat := by
      rw [BitVec.toNat_add, mod_eq_of_lt hcarry]
    have hnot : ¬ s + t < t := by
      rw [BitVec.lt_def, hsum]
      omega
    rw [addCarry, if_neg hnot, hsum, endAround_of_le (le_sub_one_of_lt hcarry)]
  · have hsum : (s + t).toNat = s.toNat + t.toNat - 2 ^ w := by
      rw [BitVec.toNat_add, mod_eq_sub_mod (Nat.le_of_not_lt hcarry),
        mod_eq_of_lt (by omega)]
    have hlt : s + t < t := by
      rw [BitVec.lt_def, hsum]
      omega
    have hw : 1 < 2 ^ w := by omega
    have hone : (1 : BitVec w).toNat = 1 := by
      change (BitVec.ofNat w 1).toNat = 1
      rw [BitVec.toNat_ofNat, mod_eq_of_lt hw]
    have hnext : (s + t + 1).toNat = s.toNat + t.toNat - (2 ^ w - 1) := by
      rw [BitVec.toNat_add, hsum, hone, mod_eq_of_lt (by omega)]
      omega
    rw [addCarry, if_pos hlt, hnext, endAround_of_pos (by omega),
      mod_eq_sub_mod (by omega), mod_eq_of_lt (by omega)]
    omega

/-- **The sum of many words**, one after the other. -/
theorem toNat_foldl_addCarry (s : BitVec w) (ts : List (BitVec w)) :
    (ts.foldl addCarry s).toNat =
      endAround (2 ^ w - 1) (s.toNat + (ts.map BitVec.toNat).sum) := by
  induction ts generalizing s with
  | nil =>
    rw [List.map_nil, List.sum_nil, Nat.add_zero, endAround_of_le (le_sub_one_of_lt s.isLt)]
    rfl
  | cons t ts ih =>
    rw [List.foldl_cons, ih, toNat_addCarry, endAround_add, List.map_cons, List.sum_cons,
      Nat.add_assoc]

end Asap.Lib
