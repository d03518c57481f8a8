import Asap.Lib.Read

/-!
# Options one after the other

An option of type zero is a single byte; any other has its type, the length of what follows in
a byte, and then so many bytes. A loop walks over the options below a bound, and its body may
refuse one, which ends the loop.

What is read by such a loop, and whether it refuses, is read off the positions at which it
stands. `Tiled` is the other view: the bytes up to an end are a sequence of valid options.

## Main definitions

* `optLen`, `Read.optLen` — the size of an option, and how it is read.
* `walk` — the loop.
* `positions` — where the loop stands.
* `Tiled` — the bytes from an offset up to an end are options, each of which is valid.
-/

namespace Asap.Lib

variable {σ : Type} {mem : ℕ → Byte} {refuses : ℕ → Bool} {valid : ℕ → Prop}
  {bound fuel i j n : ℕ}

/-- The size of the option at an offset. -/
def optLen (mem : ℕ → Byte) (i : ℕ) : ℕ := if mem i = 0 then 1 else 2 + (mem (i + 1)).toNat

theorem optLen_pos : 0 < optLen mem i := by
  unfold optLen
  split <;> omega

theorem optLen_of_ne_zero (h : mem i ≠ 0) : optLen mem i = 2 + (mem (i + 1)).toNat := if_neg h

/-- The size of an option is read from its header. -/
def Read.optLen (i : ℕ) : Read ℕ := do
  let type ← Read.byte i
  if type = 0 then return 1
  else
    let length ← Read.byte (i + 1)
    return 2 + length.toNat

@[simp] theorem val_readOptLen : (Read.optLen i).val mem = optLen mem i := by
  by_cases h : mem i = 0#8 <;> simp [Read.optLen, optLen, h]

theorem extent_readOptLen_le :
    (Read.optLen i).extent mem ≤ n ↔ i + 1 ≤ n ∧ (mem i ≠ 0 → i + 2 ≤ n) := by
  by_cases h : mem i = 0#8
  · simp [Read.optLen, h]
  · simp [Read.optLen, h]
    omega

/-- The loop over the options from an offset on, with a number of rounds that is enough if it is
the distance to the bound. The body gets the offset and the size of the option. -/
def walk (bound : ℕ) (body : ℕ → ℕ → σ → Read (Option σ)) : ℕ → ℕ → σ → Read (Option σ)
  | 0, _, s => pure (some s)
  | fuel + 1, i, s =>
    if i < bound then do
      let len ← Read.optLen i
      let result ← body i len s
      match result with
      | none => pure none
      | some s => walk bound body fuel (i + len) s
    else pure (some s)

/-- The offsets at which the loop stands, up to one that is refused. -/
def positions (mem : ℕ → Byte) (refuses : ℕ → Bool) (bound : ℕ) : ℕ → ℕ → List ℕ
  | 0, _ => []
  | fuel + 1, i =>
    if i < bound then
      i :: if refuses i then [] else positions mem refuses bound fuel (i + optLen mem i)
    else []

/-- The bytes from an offset up to the end are valid options. -/
inductive Tiled (valid : ℕ → Prop) (mem : ℕ → Byte) (n : ℕ) : ℕ → Prop where
  | done : Tiled valid mem n n
  | step {i : ℕ} : i + optLen mem i ≤ n → valid i → Tiled valid mem n (i + optLen mem i) →
    Tiled valid mem n i

theorem walk_of_le {body : ℕ → ℕ → σ → Read (Option σ)} {s : σ} (h : bound ≤ i) :
    walk bound body fuel i s = pure (some s) := by
  cases fuel with
  | zero => rfl
  | succ fuel => rw [walk, if_neg (Nat.not_lt.mpr h)]

theorem lt_of_mem_positions (h : j ∈ positions mem refuses bound fuel i) : i ≤ j ∧ j < bound := by
  induction fuel generalizing i with
  | zero => simp [positions] at h
  | succ fuel ih =>
    rw [positions] at h
    split at h
    next hi =>
      rw [List.mem_cons] at h
      rcases h with rfl | h
      · exact ⟨Nat.le_refl _, hi⟩
      · split at h
        · simp at h
        · have := ih h
          omega
    next => simp at h

section Walk

variable {body : ℕ → ℕ → σ → Read (Option σ)} {s t : σ}

/-- **The rounds are enough:** from the distance to the bound on, their number does not matter. -/
theorem run_walk {fuel' : ℕ} (h : bound - i ≤ fuel) (h' : bound - i ≤ fuel') :
    (walk bound body fuel i s).run mem = (walk bound body fuel' i s).run mem := by
  induction fuel generalizing i s fuel' with
  | zero =>
    have hi : bound ≤ i := by omega
    rw [walk_of_le hi, walk_of_le hi]
  | succ fuel ih =>
    by_cases hi : i < bound
    · cases fuel' with
      | zero => omega
      | succ fuel' =>
        simp only [walk, if_pos hi]
        apply Read.run_bind_congr
        rw [val_readOptLen]
        apply Read.run_bind_congr
        cases (body i (optLen mem i) s).val mem with
        | none => rfl
        | some t =>
          have hlen := @optLen_pos mem i
          exact ih (by omega) (by omega)
    · rw [walk_of_le (Nat.not_lt.mp hi), walk_of_le (Nat.not_lt.mp hi)]

/-- What is read below an end, if what the body reads and refuses depends on the offset only. -/
theorem extent_walk_le {reads : ℕ → Prop}
    (hrefuses : ∀ i s, ((body i (optLen mem i) s).val mem).isNone = refuses i)
    (hreads : ∀ i s, (body i (optLen mem i) s).extent mem ≤ n ↔ reads i) :
    (walk bound body fuel i s).extent mem ≤ n ↔
      ∀ j ∈ positions mem refuses bound fuel i,
        j + 1 ≤ n ∧ (mem j ≠ 0 → j + 2 ≤ n) ∧ reads j := by
  induction fuel generalizing i s with
  | zero => simp [walk, positions]
  | succ fuel ih =>
    by_cases hi : i < bound
    · have hnone := hrefuses i s
      simp only [walk, positions, if_pos hi, Read.extent_bind, val_readOptLen, Nat.max_le,
        extent_readOptLen_le, hreads, List.forall_mem_cons, and_assoc]
      cases hbody : (body i (optLen mem i) s).val mem with
      | none =>
        rw [hbody] at hnone
        simp [← hnone]
      | some t =>
        rw [hbody] at hnone
        simp [← hnone, ih]
    · simp [walk, positions, hi]

/-- The loop refuses an option at one of its positions or none. -/
theorem isNone_val_walk
    (hrefuses : ∀ i s, ((body i (optLen mem i) s).val mem).isNone = refuses i) :
    (walk bound body fuel i s).val mem = none ↔
      ∃ j ∈ positions mem refuses bound fuel i, refuses j = true := by
  induction fuel generalizing i s with
  | zero => simp [walk, positions]
  | succ fuel ih =>
    by_cases hi : i < bound
    · have hnone := hrefuses i s
      simp only [walk, positions, if_pos hi, Read.val_bind, val_readOptLen, List.exists_mem_cons_iff]
      cases hbody : (body i (optLen mem i) s).val mem with
      | none =>
        rw [hbody] at hnone
        simp [← hnone]
      | some t =>
        rw [hbody] at hnone
        simp [← hnone, ih]
    · simp [walk, positions, hi]

/-- The induction rule of the loop. -/
theorem walk_induction {P : σ → Prop}
    (hbody : ∀ j ∈ positions mem refuses bound fuel i, ∀ s t, P s →
      (body j (optLen mem j) s).val mem = some t → P t)
    (hrefuses : ∀ i s, ((body i (optLen mem i) s).val mem).isNone = refuses i)
    (hs : P s) (ht : (walk bound body fuel i s).val mem = some t) : P t := by
  induction fuel generalizing i s with
  | zero =>
    cases ht
    exact hs
  | succ fuel ih =>
    by_cases hi : i < bound
    · have hnone := hrefuses i s
      simp only [positions, if_pos hi, List.forall_mem_cons] at hbody
      simp only [walk, if_pos hi, Read.val_bind, val_readOptLen] at ht
      cases hval : (body i (optLen mem i) s).val mem with
      | none =>
        rw [hval] at ht
        cases ht
      | some u =>
        rw [hval] at ht hnone
        rw [← hnone] at hbody
        exact ih hbody.2 (hbody.1 s u hs hval) ht
    · rw [walk_of_le (Nat.not_lt.mp hi)] at ht
      cases ht
      exact hs

end Walk

/-! ## Tilings -/

theorem Tiled.le (h : Tiled valid mem n i) : i ≤ n := by
  cases h with
  | done => exact Nat.le_refl _
  | step hle _ _ => omega

/-- In front of the end there is a valid option. -/
theorem tiled_iff_of_lt (h : i < n) :
    Tiled valid mem n i ↔ valid i ∧ Tiled valid mem n (i + optLen mem i) := by
  constructor
  · intro htiled
    cases htiled with
    | done => exact absurd h (Nat.lt_irrefl _)
    | step _ hvalid hrest => exact ⟨hvalid, hrest⟩
  · rintro ⟨hvalid, hrest⟩
    exact .step hrest.le hvalid hrest

/-- Options behind options. -/
theorem Tiled.trans {m : ℕ} (h : Tiled valid mem m i) (h' : Tiled valid mem n m) :
    Tiled valid mem n i := by
  induction h with
  | done => exact h'
  | step hle hvalid _ ih => exact .step (Nat.le_trans hle h'.le) hvalid ih

/-- Two sequences of options from one offset on are the same as far as both go. -/
theorem Tiled.from {valid' : ℕ → Prop} {m : ℕ} (h : Tiled valid mem m i) (h' : Tiled valid' mem n i)
    (hle : m ≤ n) : Tiled valid' mem n m := by
  induction h with
  | done => exact h'
  | step hstep _ hrest ih =>
    have hlen := @optLen_pos mem
    have hm := hrest.le
    rw [tiled_iff_of_lt (Nat.lt_of_lt_of_le (Nat.lt_of_lt_of_le (Nat.lt_add_of_pos_right hlen) hm)
      hle)] at h'
    exact ih h'.2

theorem Tiled.imp {valid' : ℕ → Prop} (h : Tiled valid mem n i)
    (himp : ∀ j, valid j → valid' j) : Tiled valid' mem n i := by
  induction h with
  | done => exact .done
  | step hle hvalid _ ih => exact .step hle (himp _ hvalid) ih

/-- Where the loop stands there is a valid option that ends below the end. -/
theorem Tiled.position (h : Tiled valid mem n i) (hbound : bound ≤ n)
    (hj : j ∈ positions mem refuses bound fuel i) : j + optLen mem j ≤ n ∧ valid j := by
  induction h generalizing fuel with
  | done =>
    have := lt_of_mem_positions hj
    omega
  | @step i hle hvalid _ ih =>
    cases fuel with
    | zero => simp [positions] at hj
    | succ fuel =>
      rw [positions] at hj
      split at hj
      · rw [List.mem_cons] at hj
        rcases hj with rfl | hj
        · exact ⟨hle, hvalid⟩
        · split at hj
          · simp at hj
          · exact ih hj
      · simp at hj

/-- A loop up to the end that meets valid options only, and refuses none. -/
theorem tiled_of_positions (hfuel : n - i ≤ fuel) (hi : i ≤ n)
    (hrefuses : ∀ j ∈ positions mem refuses n fuel i, refuses j = false)
    (hvalid : ∀ j ∈ positions mem refuses n fuel i, j + optLen mem j ≤ n ∧ valid j) :
    Tiled valid mem n i := by
  induction fuel generalizing i with
  | zero =>
    have hend : i = n := by omega
    rw [hend]
    exact .done
  | succ fuel ih =>
    by_cases hlt : i < n
    · have hlen := @optLen_pos mem i
      simp only [positions, if_pos hlt, List.forall_mem_cons] at hrefuses hvalid
      simp only [hrefuses.1, Bool.false_eq_true, if_false] at hrefuses hvalid
      exact .step hvalid.1.1 hvalid.1.2 (ih (by omega) hvalid.1.1 hrefuses.2 hvalid.2)
    · have hend : i = n := by omega
      rw [hend]
      exact .done

end Asap.Lib
