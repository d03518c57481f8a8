import Mathlib.Data.List.Basic
import Mathlib.Tactic.Common

/-!
# Runs of a deterministic event system

A system is a step function `σ → ε → Option σ`: the state, the event the
environment chooses, and the state after it, or `none` when the event cannot
happen there. Everything the environment decides is in the event, so a run is a
list of events and a property of every run is a property of every list.

An invariant rarely survives every event. `Along P` says that the condition `P`
held at each step actually taken, read on the state before it, and
`run_induction` is the one induction rule: an invariant kept by the steps that
meet `P` holds wherever a run along `P` ends.

## Main definitions

* `run step s es` — the state after the events `es`, if all of them happen.
* `Along step P s es` — every step of the run meets `P`.
* `visited step s es` — the states the run goes through, the first included.
-/

namespace Asap.Lib

variable {σ ε : Type*}

section

variable (step : σ → ε → Option σ)

/-- The state after the events `es`; `none` as soon as one of them is refused. -/
def run : σ → List ε → Option σ
  | s, [] => some s
  | s, e :: es =>
    match step s e with
    | none => none
    | some s' => run s' es

/-- `P` holds at every step the run takes, of the state it starts from. -/
def Along (P : σ → ε → Prop) : σ → List ε → Prop
  | _, [] => True
  | s, e :: es =>
    P s e ∧
      match step s e with
      | none => True
      | some s' => Along P s' es

instance decidableAlong (P : σ → ε → Prop)
    [∀ s e, Decidable (P s e)] : ∀ s es, Decidable (Along step P s es)
  | _, [] => isTrue trivial
  | s, e :: es =>
    match h : step s e with
    | none => decidable_of_iff (P s e) (by simp [Along, h])
    | some s' =>
      have := decidableAlong P s' es
      decidable_of_iff (P s e ∧ Along step P s' es) (by simp [Along, h])

/-- The states a run goes through, in order. -/
def visited : σ → List ε → List σ
  | s, [] => [s]
  | s, e :: es =>
    s :: match step s e with
      | none => []
      | some s' => visited s' es

@[simp] theorem run_nil (s : σ) : run step s [] = some s := rfl

end

section

variable {step : σ → ε → Option σ}

theorem run_cons_eq_some {s s' : σ} {e : ε} {es : List ε} :
    run step s (e :: es) = some s' ↔ ∃ t, step s e = some t ∧ run step t es = some s' := by
  cases h : step s e with
  | none => simp [run, h]
  | some t => simp [run, h]

theorem along_cons {P : σ → ε → Prop} {s t : σ} {e : ε}
    {es : List ε} (h : step s e = some t) :
    Along step P s (e :: es) ↔ P s e ∧ Along step P t es := by
  simp [Along, h]

theorem run_append {s t : σ} {es fs : List ε} :
    run step s (es ++ fs) = some t ↔ ∃ u, run step s es = some u ∧ run step u fs = some t := by
  induction es generalizing s with
  | nil => simp
  | cons e es ih =>
    rw [List.cons_append, run_cons_eq_some]
    constructor
    · rintro ⟨v, hv, hrun⟩
      obtain ⟨u, hu, hfs⟩ := ih.mp hrun
      exact ⟨u, run_cons_eq_some.mpr ⟨v, hv, hu⟩, hfs⟩
    · rintro ⟨u, hu, hfs⟩
      obtain ⟨v, hv, hrun⟩ := run_cons_eq_some.mp hu
      exact ⟨v, hv, ih.mpr ⟨u, hrun, hfs⟩⟩

theorem along_append {P : σ → ε → Prop} {s u : σ} {es fs : List ε}
    (h : run step s es = some u) :
    Along step P s (es ++ fs) ↔ Along step P s es ∧ Along step P u fs := by
  induction es generalizing s with
  | nil => cases h; simp [Along]
  | cons e es ih =>
    obtain ⟨v, hv, hrun⟩ := run_cons_eq_some.mp h
    rw [List.cons_append, along_cons hv, along_cons hv, ih hrun, and_assoc]

theorem along_and {P Q : σ → ε → Prop} {s : σ} {es : List ε} :
    Along step (fun s e => P s e ∧ Q s e) s es ↔ Along step P s es ∧ Along step Q s es := by
  induction es generalizing s with
  | nil => simp [Along]
  | cons e es ih =>
    cases h : step s e with
    | none => simp [Along, h]
    | some t => rw [along_cons h, along_cons h, along_cons h, ih, and_and_and_comm]

/-- **The induction rule for runs.** -/
theorem run_induction {P : σ → ε → Prop} (Inv : σ → Prop)
    (hstep : ∀ s e t, P s e → Inv s → step s e = some t → Inv t) :
    ∀ {s t : σ} {es : List ε}, Inv s → Along step P s es → run step s es = some t → Inv t := by
  intro s t es
  induction es generalizing s with
  | nil =>
    intro hs _ hrun
    cases hrun
    exact hs
  | cons e es ih =>
    intro hs halong hrun
    obtain ⟨u, hu, hrun⟩ := run_cons_eq_some.mp hrun
    obtain ⟨hP, halong⟩ := (along_cons hu).mp halong
    exact ih (hstep s e u hP hs hu) halong hrun

/-- The induction rule for an invariant that every step keeps. -/
theorem run_invariant (Inv : σ → Prop)
    (hstep : ∀ s e t, Inv s → step s e = some t → Inv t)
    {s t : σ} {es : List ε} (hs : Inv s) (hrun : run step s es = some t) : Inv t := by
  induction es generalizing s with
  | nil => cases hrun; exact hs
  | cons e es ih =>
    obtain ⟨u, hu, hrun⟩ := run_cons_eq_some.mp hrun
    exact ih (hstep s e u hs hu) hrun

end

/-- A system whose events are never refused. -/
theorem run_some (f : σ → ε → σ) (s : σ) (es : List ε) :
    run (fun s e => some (f s e)) s es = some (es.foldl f s) := by
  induction es generalizing s with
  | nil => rfl
  | cons e es ih => exact ih (f s e)

/-- A property that a step keeps exactly if it meets `P` holds of every state a run goes through
exactly if the run is along `P`. `J` is what every step keeps as long as the property holds. -/
theorem visited_iff_along {step : σ → ε → Option σ} {P : σ → ε → Prop} (J Inv : σ → Prop)
    (hJ : ∀ s e t, J s → Inv s → step s e = some t → J t)
    (hstep : ∀ s e t, J s → Inv s → step s e = some t → (Inv t ↔ P s e)) :
    ∀ {s t : σ} {es : List ε}, J s → Inv s → run step s es = some t →
      ((∀ u ∈ visited step s es, Inv u) ↔ Along step P s es) := by
  intro s t es
  induction es generalizing s with
  | nil =>
    intro _ hs _
    refine ⟨fun _ => trivial, fun _ u hu => ?_⟩
    rw [visited, List.mem_singleton] at hu
    exact hu ▸ hs
  | cons e es ih =>
    intro hJs hs hrun
    obtain ⟨u, hu, hrun⟩ := run_cons_eq_some.mp hrun
    have hJu := hJ s e u hJs hs hu
    have hfirst := hstep s e u hJs hs hu
    rw [along_cons hu, visited, hu, List.forall_mem_cons, ← hfirst]
    constructor
    · intro ⟨_, hrest⟩
      -- the state after the step is the first that the rest of the run goes through
      have hInv : Inv u := hrest u (by cases es <;> exact List.mem_cons_self)
      exact ⟨hInv, (ih hJu hInv hrun).mp hrest⟩
    · exact fun ⟨hInv, halong⟩ => ⟨hs, (ih hJu hInv hrun).mpr halong⟩

end Asap.Lib
