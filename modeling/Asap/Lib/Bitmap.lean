import Asap.Lib.Bytes
import Mathlib.Logic.Function.Basic

/-!
# A bitmap of blocks

Which blocks of a buffer have been filled is kept in a bitmap, eight blocks to a byte and the
highest bit first. A range of blocks is marked a byte at a time, with masks for the two ends, and
whether everything below a block is marked is looked up in the same way.

## Main definitions

* `tailMask i` — the bits from `i` on.
* `Marked map b` — block `b` is marked.
* `markRange map first last` — the blocks from `first` to before `last` are marked.
* `FullTo map n` — the blocks below `n`, and no others of the last byte, are marked.
-/

namespace Asap.Lib

open Function BitVec

variable {map : ℕ → Byte} {first last b n i j : ℕ}

/-- The bits of a byte from `i` on, the highest first. -/
def tailMask (i : ℕ) : Byte := (0xFF : Byte) >>> i

/-- A block is marked. -/
def Marked (map : ℕ → Byte) (b : ℕ) : Prop := (map (b / 8)).getLsbD (7 - b % 8) = true

/-- The blocks from `first` to before `last` are marked. -/
def markRange (map : ℕ → Byte) (first last : ℕ) : ℕ → Byte :=
  if first / 8 = last / 8 then
    Function.update map (first / 8)
      (map (first / 8) ||| tailMask (first % 8) &&& ~~~tailMask (last % 8))
  else
    let map := Function.update map (first / 8) (map (first / 8) ||| tailMask (first % 8))
    let map := fun i => if first / 8 < i ∧ i < last / 8 then 0xFF else map i
    Function.update map (last / 8) (map (last / 8) ||| ~~~tailMask (last % 8))

/-- The blocks below `n` are marked, and no others in the last byte. -/
def FullTo (map : ℕ → Byte) (n : ℕ) : Prop :=
  (∀ i < n / 8, map i = 0xFF) ∧ map (n / 8) = ~~~tailMask (n % 8)

instance (map : ℕ → Byte) (n : ℕ) : Decidable (FullTo map n) :=
  inferInstanceAs (Decidable (_ ∧ _))

theorem getLsbD_tailMask (hj : j < 8) : (tailMask i).getLsbD (7 - j) = decide (i ≤ j) := by
  have hall : ∀ k, (0xFF : Byte).getLsbD k = decide (k < 8) := by
    intro k
    by_cases hk : k < 8
    · have hcases : ∀ k < 8, (0xFF : Byte).getLsbD k = true := by decide
      rw [hcases k hk, decide_eq_true hk]
    · rw [getLsbD_of_ge _ _ (Nat.le_of_not_lt hk), decide_eq_false hk]
  rw [tailMask, getLsbD_ushiftRight, hall]
  congr 1
  apply propext
  omega

theorem getLsbD_not_tailMask (hj : j < 8) : (~~~tailMask i).getLsbD (7 - j) = decide (j < i) := by
  rw [getLsbD_not, getLsbD_tailMask hj, decide_eq_true (show 7 - j < 8 by omega),
    Bool.true_and, ← decide_not]
  congr 1
  apply propext
  omega

theorem getLsbD_ones (hj : j < 8) : (0xFF : Byte).getLsbD (7 - j) = true := by
  have hones := @getLsbD_tailMask 0 j hj
  rw [decide_eq_true (Nat.zero_le j)] at hones
  exact hones

/-- **A range is marked:** its blocks, and no others. -/
theorem marked_markRange (h : first ≤ last) :
    Marked (markRange map first last) b ↔ Marked map b ∨ (first ≤ b ∧ b < last) := by
  have hb : b % 8 < 8 := Nat.mod_lt b (by decide)
  rw [Marked, Marked, markRange]
  by_cases hsame : first / 8 = last / 8
  · rw [if_pos hsame]
    by_cases hbyte : b / 8 = first / 8
    · rw [hbyte, update_self, getLsbD_or, getLsbD_and, getLsbD_tailMask hb,
        getLsbD_not_tailMask hb, Bool.or_eq_true, Bool.and_eq_true, decide_eq_true_eq,
        decide_eq_true_eq]
      refine or_congr_right ?_
      omega
    · rw [update_of_ne hbyte]
      refine (or_iff_left ?_).symm
      omega
  · rw [if_neg hsame]
    by_cases hlast : b / 8 = last / 8
    · have hne : last / 8 ≠ first / 8 := fun heq => hsame heq.symm
      have hnot : ¬ (first / 8 < last / 8 ∧ last / 8 < last / 8) := fun h => Nat.lt_irrefl _ h.2
      rw [hlast, update_self]
      simp only
      rw [if_neg hnot, update_of_ne hne, getLsbD_or, getLsbD_not_tailMask hb,
        Bool.or_eq_true, decide_eq_true_eq]
      refine or_congr_right ?_
      omega
    · rw [update_of_ne hlast]
      by_cases hin : first / 8 < b / 8 ∧ b / 8 < last / 8
      · rw [if_pos hin, getLsbD_ones hb]
        refine iff_of_true rfl (.inr ?_)
        omega
      · rw [if_neg hin]
        by_cases hfirst : b / 8 = first / 8
        · rw [hfirst, update_self, getLsbD_or, getLsbD_tailMask hb,
            Bool.or_eq_true, decide_eq_true_eq]
          refine or_congr_right ?_
          omega
        · rw [update_of_ne hfirst]
          refine (or_iff_left ?_).symm
          omega

theorem not_marked_zero : ¬ Marked (fun _ => 0) b := by
  intro h
  have hbit : (0 : Byte).getLsbD (7 - b % 8) = false := getLsbD_zero
  exact absurd (hbit.symm.trans h) Bool.false_ne_true

/-- **What is full to a block** is marked below it. -/
theorem FullTo.marked (h : FullTo map n) (hb : b < n) : Marked map b := by
  have hmod : b % 8 < 8 := Nat.mod_lt b (by decide)
  rw [Marked]
  by_cases hlow : b / 8 < n / 8
  · rw [h.1 _ hlow, getLsbD_ones hmod]
  · have hbyte : b / 8 = n / 8 := by omega
    rw [hbyte, h.2, getLsbD_not_tailMask hmod, decide_eq_true_eq]
    omega

end Asap.Lib
