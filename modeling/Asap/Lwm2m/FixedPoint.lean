import Asap.Lwm2m.Tlv
import Mathlib.Data.Nat.Log
import Mathlib.Tactic.Ring

/-!
# Fixed-point values

A value is a number of 32 bits of which some are behind the point. It is sent as a float of 32 bits in a
TLV, or as a decimal number with two digits behind the point.

What C leaves undefined is `none` here: the negation of the lowest number, sums and products that a
signed number cannot hold, and shifts by the width of a number or more.

## Main definitions

* `lwm2mTlvWriteFloat32`, `lwm2mTlvFloat32ToFix` — a value as a float, in a TLV.
* `lwm2mPlainTextWriteFloat32fix`, `lwm2mPlainTextReadFloat32fix` — a value as text.
* `FloatLaw`, `TextLaw` — what is written is read.

## Main results

* `fixedPointLaw_iff` — the laws hold of all values but zero and the lowest number.
-/

namespace Asap.Lwm2m

open Lib Nat List

/-! ## Floats -/

/-- The magnitude of a number, as C computes it. -/
def magnitude (value : BitVec 32) : Option ℕ :=
  if value.toInt < 0 then if value.toInt = -2 ^ 31 then none else some (-value.toInt).toNat
  else some value.toInt.toNat

/-- The loop of `lwm2m_tlv_write_float32`: the fraction and the exponent. -/
def fractionLoop (v val e : ℕ) : ℕ × ℕ :=
  if 1 < v then
    fractionLoop (v >>> 1) (if v % 2 = 1 then val >>> 1 ||| 1 <<< 22 else val >>> 1) (e + 1)
  else (val, e)
termination_by v
decreasing_by
  rw [Nat.shiftRight_eq_div_pow]
  omega

/-- The bytes of a float. -/
def floatBytes (negative : Prop) [Decidable negative] (e val : ℕ) : List Byte :=
  [BitVec.ofNat 8 ((if negative then 0x80 else 0) ||| e >>> 1),
    BitVec.ofNat 8 (((e &&& 1) <<< 7) ||| ((val >>> 16) &&& 0x7f)),
    BitVec.ofNat 8 ((val >>> 8) &&& 0xff), BitVec.ofNat 8 (val &&& 0xff)]

/-- The float that `lwm2m_tlv_write_float32` makes. The exponent is not negative. -/
def float32Bytes (value : BitVec 32) (bits : ℕ) : Option (List Byte) :=
  (magnitude value).map fun v =>
    let loop := fractionLoop v 0 0
    floatBytes (value.toInt < 0)
      (if value.toInt = 0 then 0 else ((loop.2 : ℤ) - bits + 127).toNat) loop.1

/-- `lwm2m_tlv_write_float32` -/
def lwm2mTlvWriteFloat32 (type : Byte) (id : BitVec 16) (value : BitVec 32) (bits len : ℕ) :
    Option (List Byte) :=
  (float32Bytes value bits).map fun b => lwm2mTlvWrite ⟨type, id, 4, some fun i => b.getD i 0⟩ len

/-- `lwm2m_tlv_float32_to_fix` -/
def lwm2mTlvFloat32ToFix (tlv : Tlv) (bits : ℕ) : Option ℤ :=
  let b (i : ℕ) : ℕ := (tlv.byte i).toNat
  let sign := b 0 &&& 0x80 ≠ 0
  let e : ℤ := (((b 0 <<< 1) &&& 0xff ||| b 1 >>> 7 : ℕ) : ℤ) - 127 + bits - 23
  let val := ((b 1 &&& 0x7f) <<< 16 ||| b 2 <<< 8 ||| b 3) ||| 1 <<< 23
  let rolled : Option ℕ :=
    if 0 < e then if e < 32 ∧ val <<< e.toNat < 2 ^ 31 then some (val <<< e.toNat) else none
    else if -e < 32 then some (val >>> (-e).toNat) else none
  rolled.map fun v => if sign then -(v : ℤ) else v

/-! ## Text -/

/-- A digit. -/
def digit (n : ℕ) : Byte := BitVec.ofNat 8 (48 + n)

/-- `%lu` -/
def decimal (n : ℕ) : List Byte :=
  if n < 10 then [digit n] else decimal (n / 10) ++ [digit (n % 10)]
termination_by n

/-- `%02lu` of a number of at most two digits. -/
def decimal2 (n : ℕ) : List Byte := [digit (n / 10), digit (n % 10)]

/-- `lwm2m_plain_text_write_float32fix`: what is written, nothing when it returns zero. -/
def lwm2mPlainTextWriteFloat32fix (outlen : ℕ) (value : BitVec 32) (bits : ℕ) :
    Option (List Byte) :=
  (magnitude value).map fun v =>
    let sign : List Byte := if value.toInt < 0 then [45] else []
    let text := decimal (v >>> bits) ++ 46 :: decimal2 (((v - (v >>> bits) <<< bits) * 100) >>> bits)
    if outlen = 0 ∨ outlen ≤ sign.length + text.length then [] else sign ++ text

/-- The variables of `lwm2m_plain_text_read_float32fix`. -/
structure Reading where
  dot : Bool
  neg : Bool
  counter : ℕ
  integerpart : ℕ
  frac : ℕ

/-- The loop of `lwm2m_plain_text_read_float32fix`, from a character on. -/
def readLoop : ℕ → List Byte → Reading → Option (Reading × ℕ)
  | i, [], s => some (s, i)
  | i, c :: text, s =>
    if 48 ≤ c ∧ c ≤ 57 then
      let counter := s.counter * 10 + (c.toNat - 48)
      if counter < 2 ^ 31 ∧ s.frac * 10 < 2 ^ 31 then
        readLoop (i + 1) text { s with counter := counter, frac := s.frac * 10 }
      else none
    else if c = 46 ∧ s.dot = false then
      readLoop (i + 1) text { s with integerpart := s.counter, counter := 0, frac := 1, dot := true }
    else if c = 45 ∧ i = 0 then readLoop (i + 1) text { s with neg := true }
    else some (s, i)

/-- `lwm2m_plain_text_read_float32fix`: the value, and how many characters are read. -/
def lwm2mPlainTextReadFloat32fix (text : List Byte) (bits : ℕ) : Option (ℤ × ℕ) :=
  (readLoop 0 text ⟨false, false, 0, 0, 0⟩).bind fun (s, i) =>
    let s : Reading := if s.dot then s else { s with integerpart := s.counter, counter := 0, frac := 1 }
    let whole := s.integerpart <<< bits
    let part := if 1 < s.frac then s.counter <<< bits / s.frac else 0
    if whole < 2 ^ 31 ∧ (1 < s.frac → s.counter <<< bits < 2 ^ 31) ∧ whole + part < 2 ^ 31 then
      some (if s.neg then -((whole + part : ℕ) : ℤ) else (whole + part : ℕ), i)
    else none

/-! ## The laws -/

/-- The 24 leading bits of a number. -/
def leading24 (m : ℕ) : ℕ := m / 2 ^ (Nat.log 2 m - 23) * 2 ^ (Nat.log 2 m - 23)

/-- The float that is written in a TLV is read as the value, but that only the 24 leading bits are
left. -/
def FloatLaw (value : BitVec 32) (bits : ℕ) : Prop :=
  ∀ type id len, 7 ≤ len → ∃ bytes, lwm2mTlvWriteFloat32 type id value bits len = some bytes ∧
    bytes ≠ [] ∧ ∀ buffer, Holds buffer 0 bytes → ∃ r,
      lwm2mTlvFloat32ToFix (lwm2mTlvRead buffer).1 bits = some r ∧
      (value.toInt.natAbs < 2 ^ 24 → r = value.toInt) ∧
      (2 ^ 24 ≤ value.toInt.natAbs → r = value.toInt.sign * leading24 value.toInt.natAbs)

/-- The text that is written is read as a value that is a little nearer to zero. -/
def TextLaw (value : BitVec 32) (bits : ℕ) : Prop :=
  ∃ n, ∀ outlen, n ≤ outlen → ∃ text, lwm2mPlainTextWriteFloat32fix outlen value bits = some text ∧
    text ≠ [] ∧ ∃ r, lwm2mPlainTextReadFloat32fix text bits = some (r, text.length) ∧
      (r = 0 ∨ r.sign = value.toInt.sign) ∧ r.natAbs ≤ value.toInt.natAbs ∧
      (value.toInt.natAbs - r.natAbs) * 100 < 2 ^ bits + 200

variable {value : BitVec 32} {bits : ℕ}

theorem magnitude_eq_some (h : value.toInt ≠ -2 ^ 31) : magnitude value = some value.toInt.natAbs := by
  rw [magnitude]
  by_cases hneg : value.toInt < 0
  · rw [if_pos hneg, if_neg h]
    congr 1
    omega
  · rw [if_neg hneg]
    congr 1
    omega

theorem natAbs_lt (value : BitVec 32) (h : value.toInt ≠ -2 ^ 31) : value.toInt.natAbs < 2 ^ 31 := by
  have hlow := value.le_toInt
  have hhigh := value.toInt_lt
  norm_num at hlow hhigh h ⊢
  omega

/-! ## The fraction -/

/-- **The fraction** has the bits behind the first one, as far as there is room. -/
theorem fractionLoop_eq {v val e : ℕ} (hv : 1 ≤ v) (hval : val < 2 ^ 23) :
    fractionLoop v val e =
      ((val + (v - 2 ^ log 2 v) * 2 ^ 23) / 2 ^ log 2 v, e + log 2 v) := by
  induction v using Nat.strong_induction_on generalizing val e with
  | _ v ih =>
    rw [fractionLoop]
    by_cases hmore : 1 < v
    · have hshift : v >>> 1 = v / 2 := by rw [shiftRight_eq_div_pow, Nat.pow_one]
      have hval' : (if v % 2 = 1 then val >>> 1 ||| 1 <<< 22 else val >>> 1) =
          val / 2 + v % 2 * 2 ^ 22 := by
        rw [shiftRight_eq_div_pow, Nat.pow_one]
        split
        · rw [Nat.or_comm, shiftLeft_or (by omega)]
          omega
        · omega
      have hlog : log 2 v = log 2 (v / 2) + 1 :=
        log_of_one_lt_of_le (by decide) hmore
      have hle := pow_log_le_self 2 (show v / 2 ≠ 0 by omega)
      have hpow : 2 ^ (log 2 (v / 2) + 1) = 2 * 2 ^ log 2 (v / 2) := by ring
      rw [if_pos hmore, hshift, hval', ih (v / 2) (by omega) (by omega) (by omega), hlog, hpow,
        ← Nat.div_div_eq_div_mul]
      obtain ⟨p, hp⟩ : ∃ p, p = 2 ^ log 2 (v / 2) := ⟨_, rfl⟩
      rw [← hp] at hle ⊢
      have hhalf : (val + (v - 2 * p) * 2 ^ 23) / 2 =
          val / 2 + v % 2 * 2 ^ 22 + (v / 2 - p) * 2 ^ 23 := by omega
      rw [hhalf, Nat.add_assoc e 1, Nat.add_comm 1]
    · have hone : v = 1 := by omega
      rw [if_neg hmore, hone]
      simp

/-! ## Floats -/

/-- Four bytes are written, and read. -/
theorem lwm2mTlvRead_four (type : Byte) (id : BitVec 16) (b : List Byte) {len : ℕ} (hlen : 7 ≤ len) :
    lwm2mTlvWrite ⟨type, id, 4, some fun i => b.getD i 0⟩ len ≠ [] ∧ ∀ buffer,
      Holds buffer 0 (lwm2mTlvWrite ⟨type, id, 4, some fun i => b.getD i 0⟩ len) → ∀ i < 4,
        (lwm2mTlvRead buffer).1.byte i = b.getD i 0 := by
  have hroom : ¬(True ∧ len < 4 + (1 + getLenType 4) ∨ len < 1 + getLenType 4 + 2) := by
    rw [show getLenType 4 = 0 from rfl]
    omega
  have hne : lwm2mTlvWrite ⟨type, id, 4, some fun i => b.getD i 0⟩ len ≠ [] := by
    rw [lwm2mTlvWrite, if_neg (by simpa using hroom)]
    exact append_ne_nil_of_left_ne_nil (cons_ne_nil _ _) _
  exact ⟨hne, fun buffer h =>
    (lwm2mTlvRead_write (by show 4 < 2 ^ 24; decide) rfl hne h).value⟩

/-- **The bytes of a float are taken apart** as they were put together. -/
theorem floatBytes_parts (neg : Prop) [Decidable neg] {e val : ℕ} (he : e < 256)
    (hval : val < 2 ^ 23) :
    let b (i : ℕ) := ((floatBytes neg e val).getD i 0).toNat
    (b 0 &&& 0x80 ≠ 0 ↔ neg) ∧ (b 0 <<< 1) &&& 0xff ||| b 1 >>> 7 = e ∧
      ((b 1 &&& 0x7f) <<< 16 ||| b 2 <<< 8 ||| b 3) ||| 1 <<< 23 = 2 ^ 23 + val := by
  intro b
  have hlow : ∀ x : ℕ, x &&& 0xff = x % 2 ^ 8 := fun x => and_two_pow_sub_one_eq_mod x 8
  have hlow7 : ∀ x : ℕ, x &&& 0x7f = x % 2 ^ 7 := fun x => and_two_pow_sub_one_eq_mod x 7
  have hbit : e &&& 1 = e % 2 := and_one_is_mod e
  have h0 : b 0 = (if neg then 128 else 0) + e / 2 := by
    have hsign : ∀ x < 128, 0x80 ||| x = 128 + x := by decide
    refine (BitVec.toNat_ofNat ..).trans ?_
    rw [shiftRight_eq_div_pow, Nat.pow_one]
    by_cases hneg : neg
    · simp only [if_pos hneg, hsign (e / 2) (by omega)]
      omega
    · simp only [if_neg hneg, zero_or]
      omega
  have h1 : b 1 = e % 2 * 2 ^ 7 + val / 2 ^ 16 := by
    refine (BitVec.toNat_ofNat ..).trans ?_
    rw [hlow7, hbit, shiftRight_eq_div_pow, shiftLeft_or (by omega)]
    omega
  have h2 : b 2 = val / 2 ^ 8 % 2 ^ 8 := by
    refine (BitVec.toNat_ofNat ..).trans ?_
    rw [hlow, shiftRight_eq_div_pow]
    omega
  have h3 : b 3 = val % 2 ^ 8 := by
    refine (BitVec.toNat_ofNat ..).trans ?_
    rw [hlow]
    omega
  have hand : ∀ x : Byte, (x.toNat &&& 0x80 ≠ 0 ↔ 128 ≤ x.toNat) := by decide
  refine ⟨(hand _).trans ?_, ?_, ?_⟩
  · rw [show BitVec.toNat _ = _ from h0]
    by_cases hneg : neg
    · simp [hneg]
    · simp [hneg]
      omega
  · have hupper : ((if neg then 128 else 0) + e / 2) <<< 1 &&& 0xff = (e / 2) <<< 1 := by
      rw [hlow, shiftLeft_eq, shiftLeft_eq]
      split <;> omega
    rw [h0, hupper, h1, shiftRight_eq_div_pow, shiftLeft_or (by omega)]
    omega
  · have hinner : b 2 <<< 8 ||| b 3 = b 2 * 2 ^ 8 + b 3 := by
      refine shiftLeft_or ?_
      rw [h3]
      exact mod_lt _ (by decide)
    rw [hlow7, Nat.or_assoc (_ <<< 16), hinner, h1, h2, h3, shiftLeft_or (by omega), Nat.or_comm,
      shiftLeft_or (by omega)]
    omega

/-- **A float that is written is read**, with its 24 leading bits, and no shift is too wide. -/
theorem floatLaw (h : value.toInt ≠ -2 ^ 31) (h0 : value.toInt ≠ 0) (hbits : bits ≤ 20) :
    FloatLaw value bits := by
  intro type id len hlen
  have hlt := natAbs_lt value h
  obtain ⟨m, hm⟩ : ∃ m, m = value.toInt.natAbs := ⟨_, rfl⟩
  obtain ⟨k, hk⟩ : ∃ k, k = log 2 m := ⟨_, rfl⟩
  have hm0 : m ≠ 0 := by omega
  have hlow : 2 ^ k ≤ m := hk ▸ pow_log_le_self 2 hm0
  have hk31 : k < 31 := by
    rw [hk]
    exact log_lt_of_lt_pow hm0 (hm ▸ hlt)
  obtain ⟨f, hf⟩ : ∃ f, f = (m - 2 ^ k) * 2 ^ 23 / 2 ^ k := ⟨_, rfl⟩
  have hloop : fractionLoop m 0 0 = (f, k) := by
    rw [fractionLoop_eq (by omega) (by decide), Nat.zero_add, Nat.zero_add, ← hk, hf]
  have hhigh : m < 2 ^ (k + 1) := hk ▸ lt_pow_succ_log_self (by decide) m
  have hf23 : f < 2 ^ 23 := by
    rw [hf, Nat.div_lt_iff_lt_mul (Nat.two_pow_pos k), Nat.mul_comm]
    rw [Nat.pow_succ] at hhigh
    exact Nat.mul_lt_mul_of_pos_left (by omega) (Nat.two_pow_pos 23)
  -- with the first bit in front, the fraction has the leading bits
  have hleading : 2 ^ 23 + f = m * 2 ^ 23 / 2 ^ k := by
    have hsplit : m * 2 ^ 23 = (m - 2 ^ k) * 2 ^ 23 + 2 ^ 23 * 2 ^ k := by
      rw [Nat.mul_comm (2 ^ 23), ← Nat.add_mul, Nat.sub_add_cancel hlow]
    rw [hf, hsplit, add_mul_div_right _ _ (Nat.two_pow_pos k), Nat.add_comm]
  obtain ⟨e, he⟩ : ∃ e : ℕ, e = ((k : ℤ) - bits + 127).toNat := ⟨_, rfl⟩
  have hbytes : float32Bytes value bits = some (floatBytes (value.toInt < 0) e f) := by
    rw [float32Bytes, magnitude_eq_some h, Option.map_some, ← hm, hloop]
    simp only [if_neg h0, ← he]
  obtain ⟨hsign, hexponent, hfraction⟩ :=
    floatBytes_parts (value.toInt < 0) (show e < 256 by omega) hf23
  rw [lwm2mTlvWriteFloat32, hbytes, Option.map_some]
  obtain ⟨hne, hread⟩ := lwm2mTlvRead_four type id (floatBytes (value.toInt < 0) e f) hlen
  refine ⟨_, rfl, hne, fun buffer hholds => ?_⟩
  have hvalue := hread buffer hholds
  have hroll : ((e : ℕ) : ℤ) - 127 + bits - 23 = (k : ℤ) - 23 := by omega
  rw [lwm2mTlvFloat32ToFix]
  simp only [hvalue 0 (by decide), hvalue 1 (by decide), hvalue 2 (by decide), hvalue 3 (by decide)]
  simp only [hexponent, hfraction, hsign, hroll]
  have hvalueSign : value.toInt = if value.toInt < 0 then -(m : ℤ) else m := by
    split <;> omega
  by_cases hlarge : 23 < k
  · -- the bits behind the 24 leading ones are gone
    have hshift : ((k : ℤ) - 23).toNat = k - 23 := by omega
    have hpow : 2 ^ k = 2 ^ (k - 23) * 2 ^ 23 := by
      rw [← Nat.pow_add, Nat.sub_add_cancel (Nat.le_of_lt hlarge)]
    have hrolled : (2 ^ 23 + f) <<< (k - 23) = leading24 m := by
      rw [hleading, shiftLeft_eq, hpow, Nat.mul_div_mul_right _ _ (by decide), leading24, ← hk]
    have hle : leading24 m ≤ m := div_mul_le_self m _
    have h24 : 2 ^ 24 ≤ m := (Nat.pow_le_pow_right (by decide) hlarge).trans hlow
    rw [if_pos (by omega), hshift, hrolled, if_pos ⟨by omega, by omega⟩]
    refine ⟨_, rfl, fun hsmall => by omega, fun _ => ?_⟩
    simp only [← hm]
    by_cases hneg : value.toInt < 0
    · rw [if_pos hneg, Int.sign_eq_neg_one_of_neg hneg, Int.neg_one_mul]
    · rw [if_neg hneg, Int.sign_eq_one_of_pos (by omega), Int.one_mul]
  · have hshift : (-((k : ℤ) - 23)).toNat = 23 - k := by omega
    have hpow : m * 2 ^ 23 = m * 2 ^ (23 - k) * 2 ^ k := by
      rw [Nat.mul_assoc, ← Nat.pow_add, Nat.sub_add_cancel (Nat.not_lt.mp hlarge)]
    have hrolled : (2 ^ 23 + f) >>> (23 - k) = m := by
      rw [hleading, hpow, Nat.mul_div_cancel _ (Nat.two_pow_pos k), shiftRight_eq_div_pow,
        Nat.mul_div_cancel _ (Nat.two_pow_pos _)]
    have h24 : m < 2 ^ 24 :=
      hhigh.trans_le (Nat.pow_le_pow_right (by decide) (by omega))
    rw [if_neg (by omega), if_pos (by omega), hshift, hrolled]
    exact ⟨_, rfl, fun _ => hvalueSign.symm, fun hlargeM => by omega⟩

/-- Zero, and the lowest number, are not read. -/
theorem not_floatLaw (h : value.toInt = 0 ∨ value.toInt = -2 ^ 31) (hbits : bits ≤ 20) :
    ¬ FloatLaw value bits := by
  intro hlaw
  obtain ⟨bytes, hwrite, -, hread⟩ := hlaw 0 0 7 (Nat.le_refl 7)
  rcases h with h | h
  · have hbytes : float32Bytes value bits = some [0, 0, 0, 0] := by
      have hloop : fractionLoop 0 0 0 = (0, 0) := by rw [fractionLoop, if_neg (by decide)]
      rw [float32Bytes, magnitude, h]
      simp [hloop, floatBytes]
    rw [lwm2mTlvWriteFloat32, hbytes, Option.map_some, Option.some.injEq] at hwrite
    rw [← hwrite] at hread
    obtain ⟨r, hr, -⟩ := hread _ (holds_store (fun _ => 0) 0 _)
    have hvalue := (lwm2mTlvRead_four 0 0 [0, 0, 0, 0] (Nat.le_refl 7)).2 _
      (holds_store (fun _ => 0) 0 _)
    rw [lwm2mTlvFloat32ToFix] at hr
    simp only [hvalue 0 (by decide), hvalue 1 (by decide)] at hr
    -- the shift is wider than the number
    have hexponent : (((([0, 0, 0, 0] : List Byte).getD 0 0).toNat <<< 1 &&& 0xff |||
        (([0, 0, 0, 0] : List Byte).getD 1 0).toNat >>> 7 : ℕ) : ℤ) - 127 + bits - 23 =
          (bits : ℤ) - 150 := by
      simp
      omega
    rw [hexponent, if_neg (by omega), if_neg (by omega)] at hr
    cases hr
  · have hnone : magnitude value = none := by
      rw [magnitude, h]
      rfl
    rw [lwm2mTlvWriteFloat32, float32Bytes, hnone] at hwrite
    cases hwrite

/-! ## Text -/

theorem readLoop_digit {i d : ℕ} {text : List Byte} {s : Reading} (hd : d < 10)
    (hcounter : s.counter * 10 + d < 2 ^ 31) (hfrac : s.frac * 10 < 2 ^ 31) :
    readLoop i (digit d :: text) s = readLoop (i + 1) text
      { s with counter := s.counter * 10 + d, frac := s.frac * 10 } := by
  have hdigit : ∀ d < 10, (48 ≤ digit d ∧ digit d ≤ 57) ∧ (digit d).toNat - 48 = d := by decide
  obtain ⟨hrange, hvalue⟩ := hdigit d hd
  rw [readLoop, if_pos hrange]
  simp only [hvalue, if_pos (And.intro hcounter hfrac)]

/-- A number that is written is counted. -/
theorem readLoop_decimal {i n : ℕ} {text : List Byte} {s : Reading} (hn : n < 2 ^ 31)
    (hcounter : s.counter = 0) (hfrac : s.frac = 0) :
    readLoop i (decimal n ++ text) s =
      readLoop (i + (decimal n).length) text { s with counter := n } := by
  induction n using Nat.strong_induction_on generalizing text with
  | _ n ih =>
    rw [decimal]
    by_cases hlast : n < 10
    · rw [if_pos hlast, singleton_append, readLoop_digit hlast (by omega) (by omega), hcounter,
        hfrac, Nat.zero_mul, Nat.zero_add, ← hfrac]
      rfl
    · rw [if_neg hlast, append_assoc, ih (n / 10) (by omega) (by omega), singleton_append,
        readLoop_digit (mod_lt n (by decide)) (by simp only; omega) (by simp only; omega),
        length_append, length_singleton, ← Nat.add_assoc]
      simp only [hfrac, Nat.zero_mul]
      rw [show n / 10 * 10 + n % 10 = n by omega, ← hfrac]

/-- **A text that is written is read**, and rounded towards zero twice. -/
theorem textLaw (h : value.toInt ≠ -2 ^ 31) (hbits : bits ≤ 20) : TextLaw value bits := by
  have hlt := natAbs_lt value h
  obtain ⟨m, hm⟩ : ∃ m, m = value.toInt.natAbs := ⟨_, rfl⟩
  obtain ⟨p, hp⟩ : ∃ p, p = 2 ^ bits := ⟨_, rfl⟩
  have hp20 : p ≤ 2 ^ 20 := hp ▸ Nat.pow_le_pow_right (by decide) hbits
  have hppos : 0 < p := hp ▸ Nat.two_pow_pos bits
  obtain ⟨ip, hip⟩ : ∃ ip, ip = m / p := ⟨_, rfl⟩
  obtain ⟨c, hc⟩ : ∃ c, c = m % p * 100 / p := ⟨_, rfl⟩
  have hmod := mod_lt m hppos
  have hsplit : p * ip + m % p = m := hip ▸ div_add_mod m p
  have hc100 : c < 100 := by
    rw [hc, Nat.div_lt_iff_lt_mul hppos]
    omega
  have hcp : p * c + m % p * 100 % p = m % p * 100 := hc ▸ div_add_mod _ p
  have hcmod := mod_lt (m % p * 100) hppos
  obtain ⟨text, htext⟩ : ∃ text, text = decimal ip ++ 46 :: decimal2 c := ⟨_, rfl⟩
  obtain ⟨sign, hsign⟩ : ∃ sign : List Byte, sign = if value.toInt < 0 then [45] else [] := ⟨_, rfl⟩
  have hwrite : ∀ outlen, sign.length + text.length + 1 ≤ outlen →
      lwm2mPlainTextWriteFloat32fix outlen value bits = some (sign ++ text) := by
    intro outlen houtlen
    have hpart : ((m - (m >>> bits) <<< bits) * 100) >>> bits = c := by
      have hrest : m - p * ip = m % p := by omega
      rw [shiftRight_eq_div_pow, shiftRight_eq_div_pow, shiftLeft_eq, ← hp, ← hip,
        Nat.mul_comm ip, hrest, hc]
    rw [lwm2mPlainTextWriteFloat32fix, magnitude_eq_some h, Option.map_some, ← hm]
    have hwhole : m >>> bits = ip := by rw [shiftRight_eq_div_pow, ← hp, hip]
    simp only [hpart]
    simp only [hwhole, ← hsign, ← htext]
    rw [if_neg (by omega)]
  have hread : readLoop 0 (sign ++ text) ⟨false, false, 0, 0, 0⟩ =
      some (⟨true, decide (value.toInt < 0), c, ip, 100⟩, (sign ++ text).length) := by
    have hstart : readLoop 0 (sign ++ text) ⟨false, false, 0, 0, 0⟩ =
        readLoop sign.length text ⟨false, decide (value.toInt < 0), 0, 0, 0⟩ := by
      rw [hsign]
      by_cases hneg : value.toInt < 0
      · have hminus : ¬(48 ≤ (45 : Byte) ∧ (45 : Byte) ≤ 57) := by decide
        rw [if_pos hneg, singleton_append, readLoop, if_neg hminus, if_neg (by simp),
          if_pos ⟨rfl, rfl⟩]
        simp [hneg]
      · simp [hneg]
    have hdot : ¬(48 ≤ (46 : Byte) ∧ (46 : Byte) ≤ 57) := by decide
    have hip31 : ip < 2 ^ 31 := by
      rw [hip]
      exact Nat.lt_of_le_of_lt (Nat.div_le_self m p) (hm ▸ hlt)
    rw [hstart, htext, readLoop_decimal hip31 rfl rfl, readLoop, if_neg hdot, if_pos ⟨rfl, rfl⟩,
      decimal2, readLoop_digit (by omega) (by simp only; omega) (by simp only; omega),
      readLoop_digit (by omega) (by simp only; omega) (by simp only; omega), readLoop]
    simp only [length_append, length_cons, length_nil]
    rw [show (0 * 10 + c / 10) * 10 + c % 10 = c by omega]
    congr 2
  -- what is read back
  obtain ⟨q, hq⟩ : ∃ q, q = c * p / 100 := ⟨_, rfl⟩
  have hcomm : ip * p = p * ip := Nat.mul_comm _ _
  have hcomm' : c * p = p * c := Nat.mul_comm _ _
  have hle : c * p ≤ 99 * 2 ^ 20 := Nat.mul_le_mul (by omega) hp20
  have hresult : lwm2mPlainTextReadFloat32fix (sign ++ text) bits =
      some (if value.toInt < 0 then -((ip * p + q : ℕ) : ℤ) else (ip * p + q : ℕ),
        (sign ++ text).length) := by
    rw [lwm2mPlainTextReadFloat32fix, hread, Option.bind_some]
    simp only [if_true, shiftLeft_eq, ← hp, ← hq, decide_eq_true_eq]
    have hfrac : (if 1 < 100 then q else 0) = q := rfl
    simp only [hfrac]
    rw [if_pos ⟨by omega, fun _ => by omega, by omega⟩]
  have hnatAbs : (if value.toInt < 0 then -((ip * p + q : ℕ) : ℤ) else (ip * p + q : ℕ)).natAbs =
      ip * p + q := by
    split <;> omega
  refine ⟨sign.length + text.length + 1, fun outlen houtlen => ⟨_, hwrite outlen houtlen, ?_, _,
    hresult, ?_, ?_, ?_⟩⟩
  · rw [htext]
    simp
  · rcases Int.lt_trichotomy value.toInt 0 with hneg | hzero | hpos
    · rw [if_pos hneg]
      by_cases hr : ip * p + q = 0
      · exact .inl (by omega)
      · exact .inr (by rw [Int.sign_eq_neg_one_of_neg hneg, Int.sign_eq_neg_one_of_neg (by omega)])
    · exact .inl (by rw [if_neg (by omega)]; omega)
    · rw [if_neg (by omega)]
      by_cases hr : ip * p + q = 0
      · exact .inl (by omega)
      · exact .inr (by rw [Int.sign_eq_one_of_pos hpos, Int.sign_eq_one_of_pos (by omega)])
  · rw [hnatAbs, ← hm]
    omega
  · rw [hnatAbs, ← hm, ← hp]
    omega

/-- **What is written is read if and only if** the value is neither zero nor the lowest number. -/
theorem fixedPointLaw_iff (hbits : bits ≤ 20) :
    FloatLaw value bits ∧ TextLaw value bits ↔ value.toInt ≠ 0 ∧ value.toInt ≠ -2 ^ 31 := by
  constructor
  · intro ⟨hfloat, _⟩
    exact ⟨fun h => not_floatLaw (.inl h) hbits hfloat, fun h => not_floatLaw (.inr h) hbits hfloat⟩
  · intro ⟨h0, h⟩
    exact ⟨floatLaw h h0 hbits, textLaw h hbits⟩

/-- They hold of three halves. -/
theorem fixedPointLaw_three_halves : FloatLaw 1536 10 ∧ TextLaw 1536 10 :=
  (fixedPointLaw_iff (by decide)).mpr ⟨by decide, by decide⟩

/-- Zero is written as a float that is read with a shift by 140. -/
theorem zero_not_read : ¬ (FloatLaw 0 10 ∧ TextLaw 0 10) :=
  fun h => not_floatLaw (.inl (by decide)) (by decide) h.1

end Asap.Lwm2m
