import Asap.Lib.Buffer

/-!
# Computations over a buffer that is changed in place

`Read` is for a program that only looks at a memory. A parser that also moves bytes inside the
buffer it parses is an `Access`: it goes over a memory, gives a value and leaves a memory, and
one past the highest offset that it reads or writes is its extent.

## Main definitions

* `Access` — a computation that reads and writes.
* `Access.val`, `Access.after`, `Access.extent` — what it gives, leaves and touches.
* `Access.byte`, `Access.bytes`, `Access.write` — the primitives.
-/

namespace Asap.Lib

universe u

/-- A computation over a memory that it may change, with one past the highest offset touched. -/
structure Access (α : Type u) where
  run : (ℕ → Byte) → α × (ℕ → Byte) × ℕ

namespace Access

variable {α β : Type u} {mem : ℕ → Byte} {n k pos : ℕ}

section

variable (x : Access α) (mem : ℕ → Byte)

/-- The value. -/
def val : α := (x.run mem).1

/-- The memory that is left. -/
def after : ℕ → Byte := (x.run mem).2.1

/-- One past the highest offset that is read or written. -/
def extent : ℕ := (x.run mem).2.2

end

/-- Nothing is touched. -/
def pure (a : α) : Access α := ⟨fun mem => (a, mem, 0)⟩

/-- One computation after the other. -/
def bind (x : Access α) (f : α → Access β) : Access β :=
  ⟨fun mem =>
    ((f (x.val mem)).val (x.after mem), (f (x.val mem)).after (x.after mem),
      max (x.extent mem) ((f (x.val mem)).extent (x.after mem)))⟩

instance : Monad Access where
  pure := pure
  bind := bind

@[simp] theorem val_pure (a : α) : (Pure.pure a : Access α).val mem = a := rfl

@[simp] theorem after_pure (a : α) : (Pure.pure a : Access α).after mem = mem := rfl

@[simp] theorem extent_pure (a : α) : (Pure.pure a : Access α).extent mem = 0 := rfl

section

variable (x : Access α) (f : α → Access β)

@[simp] theorem val_bind :
    (x >>= f).val mem = (f (x.val mem)).val (x.after mem) := by
  cases x
  rfl

@[simp] theorem after_bind :
    (x >>= f).after mem = (f (x.val mem)).after (x.after mem) := by
  cases x
  rfl

@[simp] theorem extent_bind :
    (x >>= f).extent mem = max (x.extent mem) ((f (x.val mem)).extent (x.after mem)) := by
  cases x
  rfl

end

/-- The byte at an offset. -/
def byte (pos : ℕ) : Access Byte := ⟨fun mem => (mem pos, mem, pos + 1)⟩

@[simp] theorem val_byte : (byte pos).val mem = mem pos := rfl

@[simp] theorem after_byte : (byte pos).after mem = mem := rfl

@[simp] theorem extent_byte : (byte pos).extent mem = pos + 1 := rfl

/-- One past the last of `k` bytes from an offset on; nothing is touched when there are none. -/
def reach (pos k : ℕ) : ℕ := if k = 0 then 0 else pos + k

theorem reach_le : reach pos k ≤ n ↔ (k = 0 ∨ pos + k ≤ n) := by
  by_cases h : k = 0 <;> simp [reach, h]

theorem reach_le_of_le (h : pos + k ≤ n) : reach pos k ≤ n := reach_le.mpr (.inr h)

/-- The `k` bytes from an offset on. -/
def bytes (pos k : ℕ) : Access (List Byte) := ⟨fun mem => (bytesAt mem pos k, mem, reach pos k)⟩

@[simp] theorem val_bytes : (bytes pos k).val mem = bytesAt mem pos k := rfl

@[simp] theorem after_bytes : (bytes pos k).after mem = mem := rfl

@[simp] theorem extent_bytes : (bytes pos k).extent mem = reach pos k := rfl

/-- The bytes are written from an offset on. -/
def write (pos : ℕ) (bs : List Byte) : Access PUnit.{u + 1} :=
  ⟨fun mem => (⟨⟩, store mem pos bs, reach pos bs.length)⟩

@[simp] theorem after_write {bs : List Byte} : (write pos bs).after mem = store mem pos bs := rfl

@[simp] theorem extent_write {bs : List Byte} :
    (write pos bs).extent mem = reach pos bs.length := rfl

end Access

end Asap.Lib
