import Asap.Lib.Ring
import Mathlib.Data.BitVec

/-!
# Ring buffer indices

`struct ringbufindex` keeps the two positions of a ring buffer whose size is a power
of two: differences and sums are reduced by a mask. `RingbufIndex.Ok` is what
`ringbufindex_init` establishes and every operation keeps, and under it the masked
operations are arithmetic modulo the size, which is what `Lib.Ring` is about. One
position is never used, so that a full buffer differs from an empty one.

## Main definitions

* `RingbufIndex` — the two positions and the mask.
* `RingbufIndex.Ok` — the mask is the size less one, and the positions are below it.
* `contents` — the elements of a ring buffer, oldest first.
-/

namespace Asap.Tsch

open Asap.Lib Nat

/-- `struct ringbufindex` -/
structure RingbufIndex where
  mask : BitVec 8
  putPtr : BitVec 8
  getPtr : BitVec 8
deriving DecidableEq, Repr

namespace RingbufIndex

/-- `ringbufindex_init` -/
def init (size : BitVec 8) : RingbufIndex := ⟨size - 1, 0, 0⟩

section

variable (r : RingbufIndex)

/-- `ringbufindex_elements` -/
def elements : ℕ := ((r.putPtr - r.getPtr) &&& r.mask).toNat

/-- `ringbufindex_full` -/
def full : Bool := (r.putPtr - r.getPtr) &&& r.mask == r.mask

/-- `ringbufindex_empty` -/
def empty : Bool := r.elements == 0

/-- `ringbufindex_size` -/
def size : ℕ := r.mask.toNat + 1

/-- `ringbufindex_put`; false when the buffer is full. -/
def put : RingbufIndex × Bool :=
  if (r.putPtr - r.getPtr) &&& r.mask = r.mask then (r, false)
  else ({ r with putPtr := (r.putPtr + 1) &&& r.mask }, true)

/-- `ringbufindex_peek_put`; `none` is `-1`. -/
def peekPut : Option ℕ :=
  if (r.putPtr - r.getPtr) &&& r.mask = r.mask then none else some r.putPtr.toNat

/-- `ringbufindex_get`; `none` is `-1`. -/
def get : RingbufIndex × Option ℕ :=
  if (r.putPtr - r.getPtr) &&& r.mask > 0 then
    ({ r with getPtr := (r.getPtr + 1) &&& r.mask }, some r.getPtr.toNat)
  else (r, none)

/-- `ringbufindex_peek_get`; `none` is `-1`. -/
def peekGet : Option ℕ :=
  if (r.putPtr - r.getPtr) &&& r.mask > 0 then some r.getPtr.toNat else none

/-- `ringbufindex_shift_get_ptr` -/
def shiftGetPtr (shift : ℕ) : RingbufIndex :=
  { r with getPtr := BitVec.ofNat 8 (r.getPtr.toNat + shift) &&& r.mask }

end

/-- A buffer of `2 ^ k` positions, both pointers below the size. -/
structure Ok (k : ℕ) (r : RingbufIndex) : Prop where
  le : k ≤ 7
  mask : r.mask = BitVec.ofNat 8 (2 ^ k - 1)
  put : r.putPtr.toNat < 2 ^ k
  get : r.getPtr.toNat < 2 ^ k

variable {k : ℕ} {r : RingbufIndex}

section

variable (h : r.Ok k)

include h

theorem Ok.pow_le : 2 ^ k ≤ 128 :=
  Nat.pow_le_pow_right (n := 2) (by omega) h.le

/-- Masking is reduction modulo the size. -/
theorem Ok.toNat_and (x : BitVec 8) : (x &&& r.mask).toNat = x.toNat % 2 ^ k := by
  have hpow := h.pow_le
  have hpos := Nat.two_pow_pos k
  have hmask : (BitVec.ofNat 8 (2 ^ k - 1)).toNat = 2 ^ k - 1 := by
    rw [BitVec.toNat_ofNat]
    exact mod_eq_of_lt (by omega)
  rw [h.mask, BitVec.toNat_and, hmask, and_two_pow_sub_one_eq_mod]

theorem Ok.size_eq : r.size = 2 ^ k := by
  have hpow := h.pow_le
  have hpos := Nat.two_pow_pos k
  rw [size, h.mask, BitVec.toNat_ofNat, mod_eq_of_lt (by omega)]
  omega

theorem Ok.elements_eq :
    r.elements = (r.putPtr.toNat + 2 ^ k - r.getPtr.toNat) % 2 ^ k := by
  have hput := h.put
  have hget := h.get
  have hdvd : 2 ^ k ∣ 2 ^ 8 := pow_dvd_pow 2 (by have := h.le; omega)
  obtain ⟨c, hc⟩ := hdvd
  rw [elements, h.toNat_and, BitVec.toNat_sub, mod_mod_of_dvd _ ⟨c, hc⟩]
  have hsum : 2 ^ 8 - r.getPtr.toNat + r.putPtr.toNat =
      r.putPtr.toNat + 2 ^ k - r.getPtr.toNat + 2 ^ k * (c - 1) := by
    have hc1 : 1 ≤ c := by
      rcases Nat.eq_zero_or_pos c with h0 | h0
      · rw [h0] at hc
        omega
      · exact h0
    rw [Nat.mul_sub, ← hc, Nat.mul_one]
    have := h.pow_le
    omega
  rw [hsum, add_mul_mod_self_left]

theorem Ok.elements_lt : r.elements < 2 ^ k := by
  rw [h.elements_eq]
  exact mod_lt _ (Nat.two_pow_pos k)

/-- The put position is just behind the elements. -/
theorem Ok.put_eq : r.putPtr.toNat = (r.getPtr.toNat + r.elements) % 2 ^ k := by
  have hput := h.put
  have hget := h.get
  rw [h.elements_eq, add_mod_mod]
  have hsum : r.getPtr.toNat + (r.putPtr.toNat + 2 ^ k - r.getPtr.toNat) =
      r.putPtr.toNat + 2 ^ k := by omega
  rw [hsum, add_mod_right, mod_eq_of_lt hput]

/-- The number of elements is determined by the positions. -/
theorem Ok.elements_unique {n : ℕ} (hn : n < 2 ^ k)
    (hput : r.putPtr.toNat = (r.getPtr.toNat + n) % 2 ^ k) : r.elements = n :=
  Ring.offset_inj h.elements_lt hn (by rw [← h.put_eq, hput])

theorem Ok.full_iff :
    (r.putPtr - r.getPtr) &&& r.mask = r.mask ↔ r.elements = 2 ^ k - 1 := by
  have hpow := h.pow_le
  have hpos := Nat.two_pow_pos k
  have hmask : r.mask.toNat = 2 ^ k - 1 := by
    rw [h.mask, BitVec.toNat_ofNat]
    exact mod_eq_of_lt (by omega)
  rw [elements, ← hmask]
  exact ⟨congrArg _, BitVec.eq_of_toNat_eq⟩

end

theorem init_ok {k : ℕ} (hk : k ≤ 7) : (init (BitVec.ofNat 8 (2 ^ k))).Ok k := by
  have hpow : 2 ^ k ≤ 128 := Nat.pow_le_pow_right (n := 2) (by omega) hk
  have hpos := Nat.two_pow_pos k
  refine ⟨hk, ?_, hpos, hpos⟩
  have hone : (1 : BitVec 8).toNat = 1 := rfl
  apply BitVec.eq_of_toNat_eq
  simp only [init, BitVec.toNat_sub, BitVec.toNat_ofNat, hone]
  omega

/-! ## The operations -/

/-- Putting an element. -/
theorem Ok.put_spec (h : r.Ok k) (hroom : r.elements < 2 ^ k - 1) :
    r.put = ({ r with putPtr := (r.putPtr + 1) &&& r.mask }, true) ∧
      r.peekPut = some ((r.getPtr.toNat + r.elements) % 2 ^ k) ∧
      r.put.1.Ok k ∧ r.put.1.elements = r.elements + 1 := by
  have hnot : ¬ (r.putPtr - r.getPtr) &&& r.mask = r.mask := by
    rw [h.full_iff]
    omega
  have hput : r.put = ({ r with putPtr := (r.putPtr + 1) &&& r.mask }, true) := if_neg hnot
  have hpow := h.pow_le
  have hlt := h.put
  have hone : (1 : BitVec 8).toNat = 1 := rfl
  have hptr : ((r.putPtr + 1) &&& r.mask).toNat = (r.putPtr.toNat + 1) % 2 ^ k := by
    rw [h.toNat_and, BitVec.toNat_add, hone, mod_eq_of_lt (b := 2 ^ 8) (by omega)]
  have hok : r.put.1.Ok k := by
    rw [hput]
    exact ⟨h.le, h.mask, by rw [hptr]; exact mod_lt _ (Nat.two_pow_pos k), h.get⟩
  refine ⟨hput, ?_, hok, ?_⟩
  · rw [peekPut, if_neg hnot, h.put_eq]
  · refine hok.elements_unique (by omega) ?_
    rw [hput]
    change ((r.putPtr + 1) &&& r.mask).toNat = _
    rw [hptr, h.put_eq, mod_add_mod, Nat.add_assoc]

/-- A full buffer refuses. -/
theorem Ok.put_full (h : r.Ok k) (hfull : ¬ r.elements < 2 ^ k - 1) :
    r.put = (r, false) ∧ r.peekPut = none := by
  have hlt := h.elements_lt
  have heq : (r.putPtr - r.getPtr) &&& r.mask = r.mask := h.full_iff.mpr (by omega)
  exact ⟨if_pos heq, if_pos heq⟩

/-- Moving the read position by at most the number of elements. -/
theorem Ok.shiftGetPtr_spec (h : r.Ok k) {n : ℕ} (hn : n ≤ r.elements) :
    (r.shiftGetPtr n).Ok k ∧ (r.shiftGetPtr n).elements = r.elements - n ∧
      (r.shiftGetPtr n).getPtr.toNat = (r.getPtr.toNat + n) % 2 ^ k := by
  have hpow := h.pow_le
  have hlt := h.elements_lt
  have hget := h.get
  have hptr : (BitVec.ofNat 8 (r.getPtr.toNat + n) &&& r.mask).toNat =
      (r.getPtr.toNat + n) % 2 ^ k := by
    rw [h.toNat_and, BitVec.toNat_ofNat, mod_eq_of_lt (b := 2 ^ 8) (by omega)]
  have hok : (r.shiftGetPtr n).Ok k :=
    ⟨h.le, h.mask, h.put, by
      change (BitVec.ofNat 8 (r.getPtr.toNat + n) &&& r.mask).toNat < 2 ^ k
      rw [hptr]
      exact mod_lt _ (Nat.two_pow_pos k)⟩
  refine ⟨hok, hok.elements_unique (by omega) ?_, hptr⟩
  change r.putPtr.toNat = ((BitVec.ofNat 8 (r.getPtr.toNat + n) &&& r.mask).toNat + _) % 2 ^ k
  rw [hptr, h.put_eq, mod_add_mod]
  congr 1
  omega

/-- Getting the first element. -/
theorem get_of_pos (hpos : 0 < r.elements) :
    r.peekGet = some r.getPtr.toNat ∧ r.get.2 = some r.getPtr.toNat ∧
      r.get.1 = r.shiftGetPtr 1 := by
  have hcond : (r.putPtr - r.getPtr) &&& r.mask > 0 := hpos
  have hone : BitVec.ofNat 8 (r.getPtr.toNat + 1) = r.getPtr + 1 := by
    rw [BitVec.ofNat_add, BitVec.ofNat_toNat, BitVec.setWidth_eq]
    rfl
  refine ⟨if_pos hcond, ?_, ?_⟩
  · rw [RingbufIndex.get, if_pos hcond]
  · rw [RingbufIndex.get, if_pos hcond, shiftGetPtr, hone]

/-- An empty buffer has nothing to get. -/
theorem get_of_empty (h : r.elements = 0) : r.peekGet = none ∧ r.get = (r, none) := by
  have hcond : ¬ (r.putPtr - r.getPtr) &&& r.mask > 0 := by
    intro hc
    have : 0 < r.elements := hc
    omega
  exact ⟨if_neg hcond, if_neg hcond⟩

/-- Getting leaves the put position alone. -/
theorem Ok.peekPut_get (h : r.Ok k) (hpos : 0 < r.elements) {i : ℕ} (hi : r.peekPut = some i) :
    r.get.1.peekPut = some i := by
  have hlt := h.elements_lt
  obtain ⟨-, -, hshift⟩ := get_of_pos hpos
  obtain ⟨hok, helems, -⟩ := h.shiftGetPtr_spec (n := 1) hpos
  have hput : (r.shiftGetPtr 1).putPtr = r.putPtr := rfl
  have hnot : ¬ ((r.shiftGetPtr 1).putPtr - (r.shiftGetPtr 1).getPtr) &&& (r.shiftGetPtr 1).mask =
      (r.shiftGetPtr 1).mask := by
    rw [hok.full_iff]
    omega
  simp only [peekPut] at hi
  split_ifs at hi
  rw [hshift, peekPut, if_neg hnot, hput]
  exact hi

/-! ## Contents -/

section Contents

variable {α : Type*} {arr : ℕ → α}

/-- The elements of a ring buffer over the array `arr`, oldest first. -/
def contents (r : RingbufIndex) (arr : ℕ → α) : List α :=
  Ring.window arr r.size r.getPtr.toNat r.elements

@[simp] theorem length_contents (r : RingbufIndex) (arr : ℕ → α) :
    (r.contents arr).length = r.elements :=
  Ring.length_window _ _ _ _

/-- **Storing at the put position and putting appends.** -/
theorem Ok.contents_put (h : r.Ok k) (hroom : r.elements < 2 ^ k - 1) (x : α) {i : ℕ}
    (hi : r.peekPut = some i) :
    r.put.1.contents (Function.update arr i x) = r.contents arr ++ [x] := by
  obtain ⟨hput, hpeek, hok, helems⟩ := h.put_spec hroom
  rw [hpeek, Option.some.injEq] at hi
  have hget : r.put.1.getPtr = r.getPtr := by rw [hput]
  rw [contents, helems, hok.size_eq, hget, ← hi, Ring.window_push (by omega), contents, h.size_eq]

/-- **Moving the read position drops a prefix.** -/
theorem Ok.contents_shiftGetPtr (h : r.Ok k) {n : ℕ} (hn : n ≤ r.elements) :
    (r.shiftGetPtr n).contents arr = (r.contents arr).drop n := by
  obtain ⟨hok, helems, hget⟩ := h.shiftGetPtr_spec hn
  rw [contents, helems, hok.size_eq, hget, Ring.window_drop hn, contents, h.size_eq]

/-- Writing inside the contents. -/
theorem Ok.contents_update (h : r.Ok k) {j : ℕ} (hj : j < r.elements) (x : α) :
    r.contents (Function.update arr ((r.getPtr.toNat + j) % 2 ^ k) x) =
      (r.contents arr).set j x := by
  have hlt := h.elements_lt
  rw [contents, h.size_eq, Ring.window_update hj (by omega), contents, h.size_eq]

theorem Ok.getElem?_contents (h : r.Ok k) {j : ℕ} (hj : j < r.elements) :
    (r.contents arr)[j]? = some (arr ((r.getPtr.toNat + j) % 2 ^ k)) := by
  rw [contents, h.size_eq, Ring.getElem?_window hj]

end Contents

end RingbufIndex

end Asap.Tsch
