import Asap.Lib.Bytes
import Mathlib.Data.Int.Notation

/-!
# Bytes of a bounded buffer

The bytes of a memory at an offset are a list, and a write of a list of bytes to a buffer
has an outcome only when all of them are inside. A loop that fills a buffer from its end
down leaves the pieces in the reverse order, and succeeds exactly when there is room for
all of them.

## Main definitions

* `bytesAt mem pos n` — the `n` bytes from an offset on.
* `write size mem off bs` — the memory after a write to a buffer of `size` bytes.
* `writeDown size mem off pieces` — each piece is written below the one before.
-/

namespace Asap.Lib

open List

variable {mem : ℕ → Byte} {pos size : ℕ} {bs : List Byte}

section

variable (mem : ℕ → Byte) (pos n : ℕ)

/-- The bytes from an offset on. -/
def bytesAt : List Byte := (List.range n).map fun i => mem (pos + i)

@[simp] theorem length_bytesAt : (bytesAt mem pos n).length = n := by
  simp [bytesAt]

theorem bytesAt_succ :
    bytesAt mem pos (n + 1) = mem pos :: bytesAt mem (pos + 1) n := by
  simp only [bytesAt, range_succ_eq_map, map_cons, map_map, Nat.add_zero]
  congr 1
  refine map_congr_left fun a _ => ?_
  simp [Nat.add_assoc, Nat.add_comm 1]

end

theorem bytesAt_add (mem : ℕ → Byte) (pos m n : ℕ) :
    bytesAt mem pos (m + n) = bytesAt mem pos m ++ bytesAt mem (pos + m) n := by
  induction m generalizing pos with
  | zero => simp [bytesAt]
  | succ m ih =>
    rw [Nat.add_right_comm, bytesAt_succ, bytesAt_succ, ih]
    simp [Nat.add_assoc, Nat.add_comm 1]

theorem bytesAt_congr {mem' : ℕ → Byte} {n : ℕ} (h : ∀ i, pos ≤ i → i < pos + n → mem' i = mem i) :
    bytesAt mem' pos n = bytesAt mem pos n := by
  refine map_congr_left fun i hi => h (pos + i) (Nat.le_add_right pos i) ?_
  exact Nat.add_lt_add_left (mem_range.mp hi) pos

theorem holds_iff_bytesAt : Holds mem pos bs ↔ bytesAt mem pos bs.length = bs := by
  constructor
  · intro h
    refine ext_getElem (length_bytesAt mem pos bs.length) ?_
    intro i hi hi'
    simpa [bytesAt] using h i hi'
  · intro h i hi
    have hget : (bytesAt mem pos bs.length)[i]? = bs[i]? := by rw [h]
    simpa [bytesAt, hi] using hget

theorem Holds.bytesAt (h : Holds mem pos bs) : bytesAt mem pos bs.length = bs :=
  holds_iff_bytesAt.mp h

theorem store_of_le {i : ℕ} (h : pos + bs.length ≤ i) : store mem pos bs i = mem i := by
  have hnone : bs[i - pos]? = none := List.getElem?_eq_none (by omega)
  simp [store, hnone]

/-- Bytes beside a write stay. -/
theorem Holds.store {pos' : ℕ} {bs' : List Byte} (h : Holds mem pos bs)
    (hbeside : pos + bs.length ≤ pos' ∨ pos' + bs'.length ≤ pos) :
    Holds (Lib.store mem pos' bs') pos bs := by
  refine h.congr fun i hle hlt => ?_
  rcases hbeside with hlow | hhigh
  · exact store_of_lt (by omega)
  · exact store_of_le (by omega)

theorem bytesAt_store_of_beside {pos' n : ℕ} (hbeside : pos + n ≤ pos' ∨ pos' + bs.length ≤ pos) :
    bytesAt (store mem pos' bs) pos n = bytesAt mem pos n := by
  refine map_congr_left fun i hi => ?_
  rw [mem_range] at hi
  rcases hbeside with hlow | hhigh
  · exact store_of_lt (by omega)
  · exact store_of_le (by omega)

theorem bytesAt_store_self : bytesAt (store mem pos bs) pos bs.length = bs :=
  (holds_store mem pos bs).bytesAt

/-- Two writes one behind the other are one. -/
theorem store_append (mem : ℕ → Byte) (pos : ℕ) (as bs : List Byte) :
    store (store mem (pos + as.length) bs) pos as = store mem pos (as ++ bs) := by
  funext i
  by_cases hlow : i < pos
  · rw [store_of_lt hlow, store_of_lt hlow, store_of_lt (by omega)]
  · by_cases hin : i < pos + as.length
    · have hlt : i - pos < as.length := by omega
      simp [store, hlt, List.getElem?_append_left hlt, Nat.not_lt.mp hlow]
    · have hsub : i - pos - as.length = i - (pos + as.length) := by omega
      rw [store_of_le (by omega)]
      simp [store, List.getElem?_append_right (show as.length ≤ i - pos by omega), hsub,
        Nat.not_lt.mp hin, Nat.not_lt.mp hlow]

/-- One of the pieces of the same length that stand one behind the other. -/
theorem Holds.piece {pieces : List (List Byte)} {piece : List Byte} {k i : ℕ}
    (h : Holds mem pos pieces.flatten) (hk : ∀ piece ∈ pieces, piece.length = k)
    (hget : pieces[i]? = some piece) : Holds mem (pos + i * k) piece := by
  induction pieces generalizing pos i with
  | nil => simp at hget
  | cons first pieces ih =>
    rw [flatten_cons, holds_append, hk first mem_cons_self] at h
    cases i with
    | zero =>
      rw [Nat.zero_mul, Nat.add_zero, ← Option.some.inj hget]
      exact h.1
    | succ i =>
      have hrest := ih h.2 (fun piece hmem => hk piece (mem_cons_of_mem _ hmem)) hget
      rwa [Nat.add_assoc, Nat.add_comm k, ← Nat.succ_mul] at hrest

/-! ## Writes to a buffer -/

/-- The memory after a write to a buffer, if all of the bytes are inside. -/
def write (size : ℕ) (mem : ℕ → Byte) (off : ℤ) (bs : List Byte) : Option (ℕ → Byte) :=
  if 0 ≤ off ∧ off + bs.length ≤ size then some (store mem off.toNat bs) else none

theorem write_eq_some {off : ℤ} (hoff : off = pos) (h : pos + bs.length ≤ size) :
    write size mem off bs = some (store mem pos bs) := by
  subst hoff
  rw [write, if_pos (by omega), Int.toNat_natCast]

/-- Each piece is written below the one before, the first below `off`. -/
def writeDown (size : ℕ) (mem : ℕ → Byte) (off : ℤ) : List (List Byte) → Option (ℕ → Byte)
  | [] => some mem
  | piece :: pieces =>
    match write size mem (off - piece.length) piece with
    | none => none
    | some mem => writeDown size mem (off - piece.length) pieces

/-- **The pieces of a loop that writes down**, when there is room for them. -/
theorem writeDown_of_le {off : ℕ} {pieces : List (List Byte)} (hoff : off ≤ size)
    (hroom : pieces.flatten.length ≤ off) :
    writeDown size mem off pieces =
      some (store mem (off - pieces.flatten.length) pieces.reverse.flatten) := by
  induction pieces generalizing off mem with
  | nil =>
    have hsame : store mem off [] = mem := by
      funext i
      simp [store]
    simp [writeDown, hsame]
  | cons piece pieces ih =>
    rw [flatten_cons, length_append] at hroom
    have hcast : (off : ℤ) - piece.length = ((off - piece.length : ℕ) : ℤ) := by omega
    have hlen : pieces.reverse.flatten.length = pieces.flatten.length := by
      rw [length_flatten, length_flatten, map_reverse, sum_reverse]
    rw [writeDown, hcast, write_eq_some rfl (by omega)]
    simp only
    rw [ih (by omega) (by omega)]
    have hpos : off - piece.length - pieces.flatten.length =
        off - (piece :: pieces).flatten.length := by
      rw [flatten_cons, length_append]
      omega
    have hnext : off - piece.length = off - (piece :: pieces).flatten.length +
        pieces.reverse.flatten.length := by
      rw [flatten_cons, length_append, hlen]
      omega
    rw [hpos, hnext, store_append, reverse_cons, flatten_append]
    simp

/-- A loop that writes down fails when there is no room. -/
theorem writeDown_eq_none {off : ℤ} {pieces : List (List Byte)}
    (hroom : off < pieces.flatten.length) (hne : pieces ≠ []) :
    writeDown size mem off pieces = none := by
  induction pieces generalizing off mem with
  | nil => exact absurd rfl hne
  | cons piece pieces ih =>
    rw [flatten_cons, length_append, Int.natCast_add] at hroom
    simp only [writeDown]
    by_cases hneg : off - piece.length < 0
    · rw [write, if_neg (by omega)]
    · have hrest : pieces ≠ [] := by
        rintro rfl
        simp at hroom
        omega
      cases write size mem (off - piece.length) piece with
      | none => rfl
      | some mem' => exact ih (by omega) hrest

end Asap.Lib
