import Mathlib.Data.List.Basic
import Mathlib.Tactic.Common

/-!
# Bytes in a memory

A memory gives a byte at every offset, and `Holds mem pos bs` says that it has the bytes
`bs` from `pos` on. What a writer puts one after the other is held piece by piece, which
is how a reader meets it: `holds_append` is the rule that takes the two apart.

## Main definitions

* `Holds` — a memory has a list of bytes from an offset on.
* `store`, `shift` — bytes are written at an offset, and bytes at the start move up.
* `le16`, `read16` — a 16-bit word in two bytes, low byte first.
-/

namespace Asap.Lib

/-- A byte. -/
abbrev Byte := BitVec 8

variable {mem : ℕ → Byte} {pos : ℕ}

/-- The memory has the bytes from an offset on. -/
def Holds (mem : ℕ → Byte) (pos : ℕ) (bs : List Byte) : Prop :=
  ∀ i, (h : i < bs.length) → mem (pos + i) = bs[i]

@[simp] theorem holds_nil : Holds mem pos [] := by
  intro i h
  simp at h

@[simp] theorem holds_cons {b : Byte} {bs : List Byte} :
    Holds mem pos (b :: bs) ↔ mem pos = b ∧ Holds mem (pos + 1) bs := by
  constructor
  · intro h
    refine ⟨h 0 (by simp), ?_⟩
    intro i hi
    have hsucc := h (i + 1) (by simpa using hi)
    rw [Nat.add_assoc, Nat.add_comm 1 i]
    simpa using hsucc
  · intro h i hi
    cases i with
    | zero => simpa using h.1
    | succ i =>
      have hrest := h.2 i (by simpa using hi)
      rw [Nat.add_assoc, Nat.add_comm 1 i] at hrest
      simpa using hrest

theorem holds_append {as bs : List Byte} :
    Holds mem pos (as ++ bs) ↔ Holds mem pos as ∧ Holds mem (pos + as.length) bs := by
  induction as generalizing pos with
  | nil => simp
  | cons a as ih => simp [ih, and_assoc, Nat.add_assoc, Nat.add_comm 1]

theorem length_flatMap_range {f : ℕ → List Byte} {k : ℕ} (hk : ∀ i, (f i).length = k) (n : ℕ) :
    ((List.range n).flatMap f).length = k * n := by
  induction n with
  | zero => rfl
  | succ n ih => simp [List.range_succ, ih, hk, Nat.mul_succ]

/-- What a loop writes in pieces of one length is held piece by piece. -/
theorem Holds.flatMap {f : ℕ → List Byte} {k n : ℕ} (h : Holds mem pos ((List.range n).flatMap f))
    (hk : ∀ i, (f i).length = k) : ∀ i < n, Holds mem (pos + k * i) (f i) := by
  induction n with
  | zero => nofun
  | succ n ih =>
    rw [List.range_succ, List.flatMap_append, holds_append, length_flatMap_range hk,
      List.flatMap_singleton] at h
    intro i hi
    obtain hlt | rfl := Nat.lt_succ_iff_lt_or_eq.mp hi
    · exact ih h.1 i hlt
    · exact h.2

/-- The bytes are written at an offset. -/
def store (mem : ℕ → Byte) (pos : ℕ) (bs : List Byte) : ℕ → Byte :=
  fun i => if pos ≤ i then (bs[i - pos]?).getD (mem i) else mem i

theorem store_of_lt {bs : List Byte} {i : ℕ} (h : i < pos) : store mem pos bs i = mem i :=
  if_neg (by omega)

/-- What is written is held. -/
theorem holds_store (mem : ℕ → Byte) (pos : ℕ) (bs : List Byte) :
    Holds (store mem pos bs) pos bs := by
  intro i hi
  simp [store, List.getElem?_eq_getElem hi]

/-- What is held is a matter of the offsets it is at. -/
theorem Holds.congr {mem' : ℕ → Byte} {bs : List Byte} (h : Holds mem pos bs)
    (heq : ∀ i, pos ≤ i → i < pos + bs.length → mem' i = mem i) : Holds mem' pos bs := by
  intro i hi
  rw [heq (pos + i) (by omega) (by omega)]
  exact h i hi

/-- Bytes between others are written over. -/
theorem Holds.replace {as bs cs bs' : List Byte} (h : Holds mem pos (as ++ (bs ++ cs)))
    (hlen : bs'.length = bs.length) :
    Holds (store mem (pos + as.length) bs') pos (as ++ (bs' ++ cs)) := by
  obtain ⟨has, h⟩ := holds_append.mp h
  obtain ⟨-, hcs⟩ := holds_append.mp h
  refine holds_append.mpr ⟨has.congr fun i _ hi => store_of_lt hi,
    holds_append.mpr ⟨holds_store _ _ _, ?_⟩⟩
  rw [hlen]
  refine hcs.congr fun i hi _ => ?_
  have hnone : bs'[i - (pos + as.length)]? = none := List.getElem?_eq_none (by omega)
  simp [store, hnone]

/-- Where the first of the written bytes are there, only the others can change. -/
theorem store_append_of_holds {as bs : List Byte} {i : ℕ} (h : Holds mem pos as)
    (hi : ¬(pos + as.length ≤ i ∧ i < pos + as.length + bs.length)) :
    store mem pos (as ++ bs) i = mem i := by
  by_cases hle : pos ≤ i
  · by_cases hlt : i - pos < as.length
    · have hbyte := h (i - pos) hlt
      rw [Nat.add_sub_cancel' hle] at hbyte
      simp [store, List.getElem?_append_left hlt, List.getElem?_eq_getElem hlt, hbyte]
    · have hnone : (as ++ bs)[i - pos]? = none := by
        rw [List.getElem?_eq_none]
        rw [List.length_append]
        omega
      simp [store, hnone]
  · exact store_of_lt (Nat.lt_of_not_le hle)

/-- The first `n` bytes are moved up by `k`. -/
def shift (mem : ℕ → Byte) (k n : ℕ) : ℕ → Byte :=
  fun i => if k ≤ i ∧ i < k + n then mem (i - k) else mem i

/-- What is moved up is held there. -/
theorem Holds.shift {bs : List Byte} {k n : ℕ} (h : Holds mem pos bs) (hn : pos + bs.length ≤ n) :
    Holds (shift mem k n) (pos + k) bs := by
  intro i hi
  have hsub : pos + k + i - k = pos + i := by omega
  simp only [Lib.shift, hsub]
  rw [if_pos (by omega)]
  exact h i hi

/-- Bytes are put before those at the start, which move up. -/
theorem Holds.prepend {as bs : List Byte} (h : Holds mem 0 bs) :
    Holds (store (Lib.shift mem as.length bs.length) 0 as) 0 (as ++ bs) := by
  refine holds_append.mpr ⟨holds_store _ 0 as, ?_⟩
  have hmoved : Holds (Lib.shift mem as.length bs.length) (0 + as.length) bs :=
    h.shift (by omega)
  refine hmoved.congr ?_
  intro i hle hlt
  have hnone : as[i]? = none := List.getElem?_eq_none (by omega)
  simp [store, hnone]

/-- A word, low byte first. -/
def le16 (w : BitVec 16) : List Byte := [w.setWidth 8, (w >>> 8).setWidth 8]

@[simp] theorem length_le16 (w : BitVec 16) : (le16 w).length = 2 := rfl

/-- The word at an offset. -/
def read16 (mem : ℕ → Byte) (pos : ℕ) : BitVec 16 :=
  (mem pos).setWidth 16 ||| (mem (pos + 1)).setWidth 16 <<< 8

theorem or_shiftLeft_setWidth (w : BitVec 16) :
    (w.setWidth 8).setWidth 16 ||| ((w >>> 8).setWidth 8).setWidth 16 <<< 8 = w := by
  apply BitVec.eq_of_getLsbD_eq
  intro i hi
  by_cases hlow : i < 8
  · simp [hlow, hi]
  · have hrest : 8 + (i - 8) = i := by omega
    have hsub : i - 8 < 8 := by omega
    simp [hlow, hi, hrest, hsub]

/-- A word is read as it was written. -/
theorem Holds.read16 {w : BitVec 16} (h : Holds mem pos (le16 w)) : Lib.read16 mem pos = w := by
  simp only [le16, holds_cons] at h
  rw [Lib.read16, h.1, h.2.1]
  exact or_shiftLeft_setWidth w

end Asap.Lib
