import Asap.Lib.Run
import Mathlib

/-!
# Checked arithmetic

Arithmetic on machine words that stops where the result is not well defined: a division or
a remainder by zero, a shift by the width of the word or more, a product that does not fit.
`Returns x P` says that a computation does not stop so, and that its value satisfies `P`.

## Main definitions

* `ArithFault`, `Checked` — why a computation stops, and a computation that may.
* `Checked.div`, `Checked.rem`, `Checked.shl`, `Checked.mul` — the checked operations.
* `Returns`, `faultOf` — a computation has a value, and what is known of it; or why it stops.
-/

namespace Asap.Lib

universe u v

/-- Why an arithmetic operation has no well-defined result. -/
inductive ArithFault where
  | divByZero
  | shiftTooWide
  | overflow
deriving DecidableEq, Repr

/-- A computation that stops at an operation without a well-defined result. -/
abbrev Checked (α : Type*) := Except ArithFault α

/-- The computation has a value, which satisfies `P`. -/
def Returns {φ : Type v} {α : Type u} (x : Except φ α) (P : α → Prop) : Prop := ∃ a, x = .ok a ∧ P a

/-- Why the computation stops, if it does. -/
def faultOf {φ : Type v} {α : Type u} : Except φ α → Option φ
  | .ok _ => none
  | .error e => some e

section Returns

variable {φ : Type v} {α β : Type u} {x : Except φ α} {P Q : α → Prop}

@[simp] theorem returns_pure {a : α} : Returns (pure a : Except φ α) P ↔ P a := by
  constructor
  · rintro ⟨b, hb, hP⟩
    cases hb
    exact hP
  · intro h
    exact ⟨a, rfl, h⟩

/-- What is known of the first value is used for the second computation. -/
theorem Returns.bind {f : α → Except φ β} {R : β → Prop} (h : Returns x P)
    (hf : ∀ a, P a → Returns (f a) R) : Returns (x >>= f) R := by
  obtain ⟨a, rfl, ha⟩ := h
  exact hf a ha

theorem Returns.mono (h : Returns x P) (hPQ : ∀ a, P a → Q a) : Returns x Q := by
  obtain ⟨a, ha, hP⟩ := h
  exact ⟨a, ha, hPQ a hP⟩

theorem Returns.ite {c : Prop} [Decidable c] {y : Except φ α} (hx : c → Returns x P)
    (hy : ¬ c → Returns y P) : Returns (if c then x else y) P := by
  split
  next h => exact hx h
  next h => exact hy h

end Returns

namespace Checked

/-- A division. -/
def div (a b : ℕ) : Checked ℕ := if b = 0 then throw .divByZero else pure (a / b)

/-- A remainder. -/
def rem (a b : ℕ) : Checked ℕ := if b = 0 then throw .divByZero else pure (a % b)

/-- One, shifted to the left in a word of `w` bits. -/
def shl (w e : ℕ) : Checked ℕ := if e < w then pure (2 ^ e) else throw .shiftTooWide

/-- A product in a word of `w` bits. -/
def mul (w a b : ℕ) : Checked ℕ := if a * b < 2 ^ w then pure (a * b) else throw .overflow

variable {w a b e : ℕ} {P : ℕ → Prop}

theorem returns_div (hb : b ≠ 0) : Returns (div a b) P ↔ P (a / b) := by
  simp [div, hb]

theorem returns_rem (hb : b ≠ 0) : Returns (rem a b) P ↔ P (a % b) := by
  simp [rem, hb]

theorem returns_shl (he : e < w) : Returns (shl w e) P ↔ P (2 ^ e) := by
  simp [shl, he]

theorem returns_mul (h : a * b < 2 ^ w) : Returns (mul w a b) P ↔ P (a * b) := by
  simp [mul, h]

end Checked

/-! ## Runs -/

/-- **The induction rule for runs that may stop.** If the steps that meet `P` return and keep an
invariant, then a run along `P` returns, and the invariant holds at its end. -/
theorem foldlM_returns {φ : Type v} {σ : Type u} {ε : Type*} {step : σ → ε → Except φ σ} {P : σ → ε → Prop}
    (Inv : σ → Prop) (hstep : ∀ s e, P s e → Inv s → Returns (step s e) Inv) :
    ∀ {s : σ} {es : List ε}, Inv s → Along (fun s e => (step s e).toOption) P s es →
      Returns (es.foldlM step s) Inv := by
  intro s es
  induction es generalizing s with
  | nil =>
    intro hs _
    rw [List.foldlM_nil, returns_pure]
    exact hs
  | cons e es ih =>
    intro hs halong
    have hhead : P s e := halong.1
    obtain ⟨t, ht, hinv⟩ := hstep s e hhead hs
    have hsome : (step s e).toOption = some t := by rw [ht]; rfl
    rw [@along_cons _ _ (fun s e => (step s e).toOption) _ _ _ _ _ hsome] at halong
    rw [List.foldlM_cons, ht]
    exact ih hinv halong.2

end Asap.Lib
