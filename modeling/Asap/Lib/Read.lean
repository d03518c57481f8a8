import Asap.Lib.Bytes

/-!
# Reads of a memory

A computation that reads a memory gives a value and how far it has read: one past the
highest offset it looked at. What it reads stays below a bound exactly if that number is
at most the bound, and the numbers of the steps of a computation combine by the maximum.

## Main definitions

* `Read` — a value, with how far a memory is read for it.
* `Read.byte`, `Read.word` — a byte, and a word with its low byte first.
* `Read.gather` — a loop that fills the start of an array.
-/

namespace Asap.Lib

universe u

/-- A computation over a memory, with one past the highest offset that it reads. -/
structure Read (α : Type u) where
  run : (ℕ → Byte) → α × ℕ

namespace Read

variable {α β : Type u} {mem : ℕ → Byte}

/-- The value. -/
def val (x : Read α) (mem : ℕ → Byte) : α := (x.run mem).1

/-- One past the highest offset that is read. -/
def extent (x : Read α) (mem : ℕ → Byte) : ℕ := (x.run mem).2

/-- Nothing is read. -/
def pure (a : α) : Read α := ⟨fun _ => (a, 0)⟩

/-- One computation after the other. -/
def bind (x : Read α) (f : α → Read β) : Read β :=
  ⟨fun mem => ((f (x.val mem)).val mem, max (x.extent mem) ((f (x.val mem)).extent mem))⟩

instance : Monad Read where
  pure := pure
  bind := bind

@[simp] theorem val_pure (a : α) : (Pure.pure a : Read α).val mem = a := rfl

@[simp] theorem extent_pure (a : α) : (Pure.pure a : Read α).extent mem = 0 := rfl

@[simp] theorem val_bind (x : Read α) (f : α → Read β) :
    (x >>= f).val mem = (f (x.val mem)).val mem := by
  cases x
  rfl

@[simp] theorem extent_bind (x : Read α) (f : α → Read β) :
    (x >>= f).extent mem = max (x.extent mem) ((f (x.val mem)).extent mem) := by
  cases x
  rfl

theorem val_ite {c : Prop} [Decidable c] (x y : Read α) :
    (if c then x else y).val mem = if c then x.val mem else y.val mem := by
  split <;> rfl

/-- What follows a step matters only for the value of the step. -/
theorem run_bind_congr {x : Read α} {f g : α → Read β}
    (h : (f (x.val mem)).run mem = (g (x.val mem)).run mem) :
    (x >>= f).run mem = (x >>= g).run mem := by
  have hval : (f (x.val mem)).val mem = (g (x.val mem)).val mem := congrArg Prod.fst h
  have hextent : (f (x.val mem)).extent mem = (g (x.val mem)).extent mem := congrArg Prod.snd h
  exact Prod.ext hval (congrArg (max (x.extent mem)) hextent)

/-- Two computations that read and give the same have the same continuation. -/
theorem run_bind_left {x y : Read α} {f : α → Read β} (h : x.run mem = y.run mem) :
    (x >>= f).run mem = (y >>= f).run mem := by
  have hval : x.val mem = y.val mem := congrArg Prod.fst h
  have hextent : x.extent mem = y.extent mem := congrArg Prod.snd h
  change ((f (x.val mem)).val mem, max (x.extent mem) ((f (x.val mem)).extent mem)) =
    ((f (y.val mem)).val mem, max (y.extent mem) ((f (y.val mem)).extent mem))
  rw [hval, hextent]

section

variable (pos : ℕ)

/-- The byte at an offset. -/
def byte : Read Byte := ⟨fun mem => (mem pos, pos + 1)⟩

@[simp] theorem val_byte : (byte pos).val mem = mem pos := rfl

@[simp] theorem extent_byte : (byte pos).extent mem = pos + 1 := rfl

/-- The word at an offset, low byte first. -/
def word : Read (BitVec 16) := do
  let low ← byte pos
  let high ← byte (pos + 1)
  return low.setWidth 16 ||| high.setWidth 16 <<< 8

@[simp] theorem val_word : (word pos).val mem = read16 mem pos := rfl

@[simp] theorem extent_word : (word pos).extent mem = pos + 2 := by
  simp [word]

end

/-- An array with its first `n` elements overwritten by what is read for them. -/
def gather (n : ℕ) (f : ℕ → Read α) (old : ℕ → α) : Read (ℕ → α) :=
  ⟨fun mem => (fun i => if i < n then (f i).val mem else old i,
    (List.range n).foldr (fun i m => max ((f i).extent mem) m) 0)⟩

@[simp] theorem val_gather (n : ℕ) (f : ℕ → Read α) (old : ℕ → α) :
    (gather n f old).val mem = fun i => if i < n then (f i).val mem else old i := rfl

/-- A loop reads below a bound exactly if each round does. -/
theorem extent_gather_le {n k : ℕ} {f : ℕ → Read α} {old : ℕ → α} :
    (gather n f old).extent mem ≤ k ↔ ∀ i < n, (f i).extent mem ≤ k := by
  have hlist : ∀ is : List ℕ, is.foldr (fun i m => max ((f i).extent mem) m) 0 ≤ k ↔
      ∀ i ∈ is, (f i).extent mem ≤ k := by
    intro is
    induction is with
    | nil => simp
    | cons i is ih => simp [Nat.max_le, ih]
  have hrange := hlist (List.range n)
  simp only [List.mem_range] at hrange
  exact hrange

end Read

end Asap.Lib
