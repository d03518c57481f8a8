import Mathlib.Data.BitVec
import Mathlib.Tactic.Common

/-!
# The absolute slot number

An ASN has 40 bits, kept as a 32-bit low word and an 8-bit high byte, and every
operation works on the two parts. `TschAsn.val` is the number they stand for. The
increment is exact modulo `2 ^ 40`, and so are the decrement and the modulo operation
with a precomputed divisor; the difference and the division read the low word only,
which is why they are stated of `ls4b` and not of `val`.

## Main definitions

* `TschAsn`, `TschAsn.inc`, `TschAsn.dec`, `TschAsn.diff` — `struct tsch_asn_t` and
  its macros.
* `TschAsnDivisor`, `TschAsn.mod`, `TschAsn.division` — the divisor macros.
-/

namespace Asap.Tsch

/-- `struct tsch_asn_t`. -/
structure TschAsn where
  ls4b : BitVec 32
  ms1b : BitVec 8
deriving DecidableEq, Repr

namespace TschAsn

/-- The 40-bit number an ASN stands for. -/
def val (asn : TschAsn) : ℕ := asn.ms1b.toNat * 2 ^ 32 + asn.ls4b.toNat

/-- The ASN of a number, reduced modulo `2 ^ 40`. -/
def ofNat (n : ℕ) : TschAsn := ⟨BitVec.ofNat 32 n, BitVec.ofNat 8 (n / 2 ^ 32)⟩

/-- `TSCH_ASN_INC`: the carry is detected by the low word getting smaller. -/
def inc (asn : TschAsn) (n : BitVec 32) : TschAsn :=
  let newLs4b := asn.ls4b + n
  { ls4b := newLs4b
    ms1b := if newLs4b < asn.ls4b then asn.ms1b + 1 else asn.ms1b }

/-- `TSCH_ASN_DEC`: the borrow is detected by the low word getting larger. -/
def dec (asn : TschAsn) (n : BitVec 32) : TschAsn :=
  let newLs4b := asn.ls4b - n
  { ls4b := newLs4b
    ms1b := if asn.ls4b < newLs4b then asn.ms1b - 1 else asn.ms1b }

/-- `TSCH_ASN_DIFF`: the difference of the low words. -/
def diff (a b : TschAsn) : BitVec 32 := a.ls4b - b.ls4b

theorem val_lt (asn : TschAsn) : asn.val < 2 ^ 40 := by
  have h1 := asn.ls4b.isLt
  have h2 := asn.ms1b.isLt
  unfold val
  omega

theorem ext_val {a b : TschAsn} (h : a.val = b.val) : a = b := by
  obtain ⟨la, ma⟩ := a
  obtain ⟨lb, mb⟩ := b
  have h1 := la.isLt
  have h2 := lb.isLt
  simp only [val] at h
  have hm : ma.toNat = mb.toNat := by omega
  have hl : la.toNat = lb.toNat := by omega
  rw [BitVec.eq_of_toNat_eq hm, BitVec.eq_of_toNat_eq hl]

section

variable (asn : TschAsn)

/-- **Incrementing is addition modulo `2 ^ 40`.** -/
theorem val_inc (n : BitVec 32) :
    (asn.inc n).val = (asn.val + n.toNat) % 2 ^ 40 := by
  have h1 := asn.ls4b.isLt
  have h2 := asn.ms1b.isLt
  have h3 := n.isLt
  have hl : (asn.ls4b + n).toNat = (asn.ls4b.toNat + n.toNat) % 2 ^ 32 := BitVec.toNat_add _ _
  unfold inc val
  dsimp only
  by_cases hc : asn.ls4b + n < asn.ls4b
  · have hc' : (asn.ls4b + n).toNat < asn.ls4b.toNat := hc
    have hm : (asn.ms1b + 1).toNat = (asn.ms1b.toNat + 1) % 2 ^ 8 := BitVec.toNat_add _ _
    rw [if_pos hc, hm, hl]
    rw [hl] at hc'
    omega
  · have hc' : ¬ (asn.ls4b + n).toNat < asn.ls4b.toNat := hc
    rw [if_neg hc, hl]
    rw [hl] at hc'
    omega

/-- **Decrementing is subtraction modulo `2 ^ 40`.** -/
theorem val_dec_mod (n : BitVec 32) :
    (asn.dec n).val = (asn.val + (2 ^ 40 - n.toNat)) % 2 ^ 40 := by
  have h1 := asn.ls4b.isLt
  have h2 := asn.ms1b.isLt
  have h3 := n.isLt
  have hl : (asn.ls4b - n).toNat = (2 ^ 32 - n.toNat + asn.ls4b.toNat) % 2 ^ 32 :=
    BitVec.toNat_sub _ _
  simp only [dec, val]
  by_cases hb : asn.ls4b < asn.ls4b - n
  · have hb' : asn.ls4b.toNat < (asn.ls4b - n).toNat := hb
    have hm : (asn.ms1b - 1).toNat = (2 ^ 8 - 1 + asn.ms1b.toNat) % 2 ^ 8 := BitVec.toNat_sub _ _
    rw [if_pos hb, hm, hl]
    rw [hl] at hb'
    omega
  · have hb' : ¬ asn.ls4b.toNat < (asn.ls4b - n).toNat := hb
    rw [if_neg hb, hl]
    rw [hl] at hb'
    omega

/-- Decrementing is subtraction, as long as there is enough to take away. -/
theorem val_dec {n : BitVec 32} (h : n.toNat ≤ asn.val) :
    (asn.dec n).val = asn.val - n.toNat := by
  have hlt := asn.val_lt
  have hn := n.isLt
  rw [val_dec_mod]
  omega

/-- The low word of an ASN, as a number. -/
theorem toNat_ls4b : asn.ls4b.toNat = asn.val % 2 ^ 32 := by
  have h := asn.ls4b.isLt
  unfold val
  omega

end

end TschAsn

/-- `struct tsch_asn_divisor_t`; slotframe sizes and the hopping sequence length are
kept in this form. -/
structure TschAsnDivisor where
  val : BitVec 16
  asnMs1bRemainder : BitVec 16
deriving DecidableEq, Repr

/-- `TSCH_ASN_DIVISOR_INIT`. The remainder of `2 ^ 32` is computed from
`0xffffffff`. -/
def TschAsnDivisor.init (val : BitVec 16) : TschAsnDivisor where
  val := val
  asnMs1bRemainder := BitVec.ofNat 16 ((0xffffffff % val.toNat + 1) % val.toNat)

namespace TschAsn

/-- `TSCH_ASN_MOD`. Both remainders are cast to 16 bits before they are added. -/
def mod (asn : TschAsn) (div : TschAsnDivisor) : ℕ :=
  ((asn.ls4b.toNat % div.val.toNat) % 2 ^ 16 +
    (asn.ms1b.toNat * div.asnMs1bRemainder.toNat % div.val.toNat) % 2 ^ 16) % div.val.toNat

/-- `TSCH_ASN_DIVISION`: the quotient of the low word. -/
def division (asn : TschAsn) (div : TschAsnDivisor) : ℕ :=
  asn.ls4b.toNat / div.val.toNat

private theorem two_pow_32_mod (v : ℕ) : (0xffffffff % v + 1) % v = 2 ^ 32 % v := by
  rw [Nat.mod_add_mod]
  rfl

/-- **The modulo operation is exact** on the whole 40-bit range. -/
theorem mod_init (asn : TschAsn) {v : BitVec 16} (hv : 0 < v.toNat) :
    asn.mod (TschAsnDivisor.init v) = asn.val % v.toNat := by
  have hv16 := v.isLt
  have hcast : ∀ n, n % v.toNat % 2 ^ 16 = n % v.toNat := fun n =>
    Nat.mod_eq_of_lt (lt_trans (Nat.mod_lt n hv) hv16)
  have hrem : (BitVec.ofNat 16 ((0xffffffff % v.toNat + 1) % v.toNat)).toNat
      = 2 ^ 32 % v.toNat := by
    rw [BitVec.toNat_ofNat, two_pow_32_mod, hcast]
  unfold mod TschAsnDivisor.init
  dsimp only
  rw [hrem, hcast, hcast, Nat.add_mod_mod, Nat.mod_add_mod, Nat.add_mod, Nat.mul_mod_mod,
    ← Nat.add_mod, Nat.add_comm, val]

/-- The division is the quotient of the ASN as long as the high byte is zero. -/
theorem division_eq (asn : TschAsn) (div : TschAsnDivisor) (h : asn.val < 2 ^ 32) :
    asn.division div = asn.val / div.val.toNat := by
  rw [division, toNat_ls4b, Nat.mod_eq_of_lt h]

/-- **The division is the quotient** if and only if the high byte is zero: a divisor has sixteen
bits, so the high byte counts for more than a unit of the quotient. -/
theorem division_eq_iff (asn : TschAsn) {div : TschAsnDivisor} (hdiv : 0 < div.val.toNat) :
    asn.division div = asn.val / div.val.toNat ↔ asn.ms1b = 0 := by
  constructor
  · intro heq
    by_contra hhigh
    have hpos : 0 < asn.ms1b.toNat := by
      refine Nat.pos_of_ne_zero fun hzero => hhigh (BitVec.eq_of_toNat_eq ?_)
      rw [hzero]
      rfl
    have hd := div.val.isLt
    have hle : asn.ls4b.toNat + div.val.toNat ≤ asn.val := by
      unfold val
      omega
    have hquot := Nat.div_le_div_right (c := div.val.toNat) hle
    rw [Nat.add_div_right _ hdiv, ← heq, division] at hquot
    omega
  · intro hhigh
    refine asn.division_eq div ?_
    have hl := asn.ls4b.isLt
    rw [val, hhigh]
    simpa using hl

/-- **The arithmetic of ASNs**: adding, subtracting and the remainder are exact on 40 bits, and
the division is so for an ASN of 32 bits only. -/
theorem asn_arithmetic (asn : TschAsn) (n : BitVec 32) {v : BitVec 16} (hv : 0 < v.toNat) :
    (asn.inc n).val = (asn.val + n.toNat) % 2 ^ 40 ∧
      (asn.dec n).val = (asn.val + (2 ^ 40 - n.toNat)) % 2 ^ 40 ∧
      asn.mod (.init v) = asn.val % v.toNat ∧
      (asn.division (.init v) = asn.val / v.toNat ↔ asn.ms1b = 0) :=
  ⟨asn.val_inc n, asn.val_dec_mod n, asn.mod_init hv, asn.division_eq_iff hv⟩

/-- A slotframe of 17 slots, at the last ASN of 32 bits. -/
theorem asn_arithmetic_unicast :
    0 < (17 : BitVec 16).toNat ∧
      (⟨0xffffffff, 0⟩ : TschAsn).division (.init 17) = (⟨0xffffffff, 0⟩ : TschAsn).val / 17 :=
  ⟨by decide,
    ((⟨0xffffffff, 0⟩ : TschAsn).asn_arithmetic 1 (v := 17) (by decide)).2.2.2.mpr rfl⟩

/-- One slot later the number of the slotframe is zero again. -/
theorem division_forgets_high_byte :
    ((⟨0xffffffff, 0⟩ : TschAsn).inc 1).division (.init 17) = 0 ∧
      ((⟨0xffffffff, 0⟩ : TschAsn).inc 1).val / 17 = 252645135 := by
  decide

end TschAsn

end Asap.Tsch
