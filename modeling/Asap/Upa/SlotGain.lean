import Asap.Upa.Admission
import Mathlib.Data.Rat.Cast.Order
import Mathlib.Tactic.Ring

/-!
# The packets with the largest gain

The receiver of an aggregated exchange grants the number of packets for which the slots are used
best. It compares the packets for each slot, the triggering packet included, as percentages that
are rounded down, and keeps the last number that is not behind.

The byte that the sender announces allows for nine slots. Two ratios with denominators up to nine
differ by more than one hundredth, if they differ at all, so the percentages compare like the
ratios.

## Main definitions

* `maxGainLoop` — the loop, for any sequence of slots.
* `utility` — the packets for each slot.
* `Granted` — the number of packets that is to be granted.
-/

namespace Asap.Upa

/-- `upa_curr_gain`, for `i` packets that take `slots i` slots. -/
def gainOf (slots : ℕ → ℕ) (i : ℕ) : ℕ := (1 + i) * 100 / slots i

/-- One round of the loop over the numbers of packets. -/
def maxGainRound (slots : ℕ → ℕ) (best : ℕ × ℕ) (j : ℕ) : ℕ × ℕ :=
  let gain := gainOf slots (j + 1)
  if 100 < gain ∧ best.2 ≤ gain then (j + 1, gain) else best

/-- `upa_num_of_pkts_with_max_slot_utility`, of at most `n` packets. -/
def maxGainLoop (slots : ℕ → ℕ) (n : ℕ) : ℕ := ((List.range n).foldl (maxGainRound slots) (0, 100)).1

/-- The slots of a byte of the sender: the loop is that of the policy. -/
theorem accept_maxGain (bitmap : BitVec 8) (n : ℕ) :
    RxSlotPolicy.maxGain.accept bitmap n = maxGainLoop (slotsRequired bitmap) n := rfl

/-- The packets for each slot, with `i` packets granted. -/
def utility (slots : ℕ → ℕ) (i : ℕ) : ℚ := (1 + i) / slots i

/-- The slot counts that the byte of a sender allows for. -/
def Announced (slots : ℕ → ℕ) (n : ℕ) : Prop := ∀ i, 1 ≤ i → i ≤ n → 1 ≤ slots i ∧ slots i ≤ 9

/-- **The number of packets to grant** of at most `n`: none if there is no gain, and otherwise the
largest number with the best utility. -/
structure Granted (slots : ℕ → ℕ) (n k : ℕ) : Prop where
  none : (∀ i, 1 ≤ i → i ≤ n → utility slots i ≤ 1) → k = 0
  admissible : (∃ i, 1 ≤ i ∧ i ≤ n ∧ 1 < utility slots i) → 1 ≤ k ∧ k ≤ n ∧ 1 < utility slots k
  best : (∃ i, 1 ≤ i ∧ i ≤ n ∧ 1 < utility slots i) → ∀ i, 1 ≤ i → i ≤ n →
    utility slots i ≤ utility slots k ∧ (utility slots i = utility slots k → i ≤ k)

variable {slots : ℕ → ℕ} {n i k x a y b : ℕ}

/-! ## Percentages -/

/-- **The gap**: a ratio that is larger has a larger percentage. -/
theorem percent_lt (ha : 0 < a) (hb : 0 < b) (hab : a * b ≤ 100) (h : y * a < x * b) :
    y * 100 / b < x * 100 / a := by
  have hfloor : y * 100 / b * b ≤ y * 100 := Nat.div_mul_le_self _ _
  rw [Nat.lt_iff_add_one_le, Nat.le_div_iff_mul_le ha]
  refine Nat.le_of_mul_le_mul_right ?_ hb
  calc (y * 100 / b + 1) * a * b = y * 100 / b * b * a + a * b := by ring
    _ ≤ y * 100 * a + 100 := Nat.add_le_add (Nat.mul_le_mul_right a hfloor) hab
    _ = (y * a + 1) * 100 := by ring
    _ ≤ x * b * 100 := Nat.mul_le_mul_right 100 h
    _ = x * 100 * b := by ring

theorem utility_lt_iff (hi : 0 < slots i) (hk : 0 < slots k) :
    utility slots k < utility slots i ↔ (1 + k) * slots i < (1 + i) * slots k := by
  have hi' : (0 : ℚ) < slots i := by exact_mod_cast hi
  have hk' : (0 : ℚ) < slots k := by exact_mod_cast hk
  rw [utility, utility, div_lt_div_iff₀ hk' hi']
  exact_mod_cast Iff.rfl

theorem one_lt_utility_iff (hi : 0 < slots i) : 1 < utility slots i ↔ slots i < 1 + i := by
  have hi' : (0 : ℚ) < slots i := by exact_mod_cast hi
  rw [utility, one_lt_div₀ hi']
  exact_mod_cast Iff.rfl

/-- The percentages compare like the utilities. -/
theorem gain_lt_of_utility_lt (hi : 1 ≤ slots i ∧ slots i ≤ 9) (hk : 1 ≤ slots k ∧ slots k ≤ 9)
    (h : utility slots k < utility slots i) : gainOf slots k < gainOf slots i := by
  have hcross := (utility_lt_iff hi.1 hk.1).mp h
  have hab : slots i * slots k ≤ 9 * 9 := Nat.mul_le_mul hi.2 hk.2
  exact percent_lt hi.1 hk.1 (by omega) hcross

theorem gain_eq_of_utility_eq (hi : 0 < slots i) (hk : 0 < slots k)
    (h : utility slots i = utility slots k) : gainOf slots i = gainOf slots k := by
  have hcross : (1 + i) * slots k = (1 + k) * slots i := by
    have hle := mt (utility_lt_iff hi hk).mpr (not_lt.mpr (le_of_eq h))
    have hge := mt (utility_lt_iff hk hi).mpr (not_lt.mpr (le_of_eq h.symm))
    omega
  calc gainOf slots i = (1 + i) * 100 * slots k / (slots i * slots k) :=
        (Nat.mul_div_mul_right _ _ hk).symm
    _ = (1 + k) * 100 * slots i / (slots k * slots i) := by
        rw [Nat.mul_right_comm, hcross, Nat.mul_right_comm, Nat.mul_comm (slots i)]
    _ = gainOf slots k := Nat.mul_div_mul_right _ _ hi

/-- A gain is one of the percentages. -/
theorem gain_iff (hi : 1 ≤ slots i ∧ slots i ≤ 9) : 100 < gainOf slots i ↔ 1 < utility slots i := by
  rw [one_lt_utility_iff hi.1, gainOf, Nat.lt_iff_add_one_le, Nat.le_div_iff_mul_le hi.1]
  have hslots := hi.2
  omega

/-! ## The loop -/

/-- What the loop keeps after `n` rounds. -/
def Kept (slots : ℕ → ℕ) (n : ℕ) (best : ℕ × ℕ) : Prop :=
  (best = (0, 100) ∧ ∀ i, 1 ≤ i → i ≤ n → gainOf slots i ≤ 100) ∨
    (1 ≤ best.1 ∧ best.1 ≤ n ∧ best.2 = gainOf slots best.1 ∧ 100 < best.2 ∧
      ∀ i, 1 ≤ i → i ≤ n → gainOf slots i ≤ best.2 ∧ (gainOf slots i = best.2 → i ≤ best.1))

theorem Kept.round {best : ℕ × ℕ} (h : Kept slots n best) :
    Kept slots (n + 1) (maxGainRound slots best n) := by
  have hsplit : ∀ i, i ≤ n + 1 → i ≤ n ∨ i = n + 1 := fun i hi => by omega
  simp only [maxGainRound]
  split_ifs with hwins
  · have ⟨hgain, hle⟩ := hwins
    refine Or.inr ⟨Nat.le_add_left 1 n, Nat.le_refl _, rfl, hgain, fun i hi hin => ?_⟩
    refine ⟨?_, fun _ => hin⟩
    cases hsplit i hin with
    | inr hlast => rw [hlast]
    | inl hin =>
      cases h with
      | inl hnone =>
        have hi := hnone.2 i hi hin
        omega
      | inr hsome => exact Nat.le_trans (hsome.2.2.2.2 i hi hin).1 hle
  · cases h with
    | inl hnone =>
      have hstart : best.2 = 100 := by rw [hnone.1]
      refine Or.inl ⟨hnone.1, fun i hi hin => ?_⟩
      cases hsplit i hin with
      | inr hlast =>
        rw [hlast]
        omega
      | inl hin => exact hnone.2 i hi hin
    | inr hsome =>
      have ⟨hpos, hle, heq, hgain, hbest⟩ := hsome
      refine Or.inr ⟨hpos, Nat.le_succ_of_le hle, heq, hgain, fun i hi hin => ?_⟩
      cases hsplit i hin with
      | inr hlast =>
        rw [hlast]
        omega
      | inl hin => exact hbest i hi hin

/-- **The loop** keeps the last of the numbers with the largest percentage. -/
theorem kept_loop (slots : ℕ → ℕ) (n : ℕ) :
    Kept slots n ((List.range n).foldl (maxGainRound slots) (0, 100)) := by
  induction n with
  | zero => exact Or.inl ⟨rfl, fun i hi hin => by omega⟩
  | succ n ih =>
    rw [List.range_succ, List.foldl_append]
    exact ih.round

/-- **The loop grants the right number of packets.** -/
theorem granted_maxGainLoop (h : Announced slots n) : Granted slots n (maxGainLoop slots n) := by
  have hkept := kept_loop slots n
  rw [maxGainLoop]
  generalize (List.range n).foldl (maxGainRound slots) (0, 100) = best at hkept
  cases hkept with
  | inl hnone =>
    have hgains : ¬∃ i, 1 ≤ i ∧ i ≤ n ∧ 1 < utility slots i := by
      intro hsome
      have ⟨i, hi, hin, hgain⟩ := hsome
      have hpercent := (gain_iff (h i hi hin)).mpr hgain
      exact absurd (hnone.2 i hi hin) (Nat.not_le.mpr hpercent)
    rw [hnone.1]
    exact ⟨fun _ => rfl, fun hsome => absurd hsome hgains, fun hsome => absurd hsome hgains⟩
  | inr hsome =>
    have ⟨hpos, hle, heq, hgain, hbest⟩ := hsome
    have hk := h best.1 hpos hle
    rw [heq] at hgain hbest
    refine ⟨fun hnone => ?_, fun _ => ⟨hpos, hle, (gain_iff hk).mp hgain⟩, fun _ i hi hin => ?_⟩
    · exact absurd ((gain_iff hk).mp hgain) (not_lt.mpr (hnone best.1 hpos hle))
    · have hi' := h i hi hin
      have ⟨hmost, hlast⟩ := hbest i hi hin
      refine ⟨?_, fun hsame => hlast (gain_eq_of_utility_eq hi'.1 hk.1 hsame)⟩
      by_contra hbetter
      exact absurd hmost (Nat.not_le.mpr (gain_lt_of_utility_lt hi' hk (not_le.mp hbetter)))

/-! ## The byte of the sender -/

/-- Each of the bits counts for one slot. -/
theorem slotsRequired_bounds (bitmap : BitVec 8) (i : ℕ) :
    1 ≤ slotsRequired bitmap i ∧ slotsRequired bitmap i ≤ 2 + min i 7 := by
  induction i with
  | zero =>
    rw [slotsRequired]
    split_ifs
    · omega
    · omega
  | succ i ih =>
    rw [slotsRequired]
    split_ifs with hbit
    · have hlt := BitVec.lt_of_getLsbD ((upaBitValue_eq_one_iff bitmap (i + 1)).mp hbit)
      omega
    · omega

theorem announced_slotsRequired (bitmap : BitVec 8) (n : ℕ) : Announced (slotsRequired bitmap) n := by
  intro i _ _
  have hbounds := slotsRequired_bounds bitmap i
  omega

/-- **The second policy is optimal**: for each sequence of slots that a sender can announce, and so
for that of each byte. -/
theorem upa_policy_optimal :
    (∀ slots n, Announced slots n → Granted slots n (maxGainLoop slots n)) ∧
      ∀ (c : UpaSizes) (r : UpaReceiver) (f : TriggeringFrame), r.policy = .maxGain →
        f.framePending →
        Granted (slotsRequired (upaBitmapRequested f.infoRequested))
          (r.maxAcceptablePkts c f.infoRequested) (r.upaPktsToReceive c f) := by
  refine ⟨fun slots n h => granted_maxGainLoop h, fun c r f hpolicy hpending => ?_⟩
  rw [UpaReceiver.upaPktsToReceive, if_pos hpending, hpolicy, accept_maxGain]
  exact granted_maxGainLoop (announced_slotsRequired _ _)

/-- Three packets for each slot, with two, five or eight granted: the most are granted. -/
theorem upa_policy_optimal_ties : Granted (fun i => 1 + i / 3) 8 8 := by
  have hgranted := upa_policy_optimal.1 (fun i => 1 + i / 3) 8 fun i hi hin => by
    dsimp only
    omega
  have hloop : maxGainLoop (fun i => 1 + i / 3) 8 = 8 := by decide
  rwa [hloop] at hgranted

end Asap.Upa
