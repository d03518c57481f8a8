import Mathlib.Data.List.Nodup
import Mathlib.Data.List.Perm.Subperm
import Mathlib.Logic.Function.Basic
import Mathlib.Logic.Relation
import Mathlib.Tactic.Common

/-!
# Nodes that point at their parents

A partial function `next` gives each node its parent. A node reaches `r` when the chain of
its parents comes to `r`, and the nodes passed on the way are then its ascent. A chain
that returns to a node it has passed never leaves the loop, so an ascent has no node
twice, and a walk of as many steps as there are nodes finds `r` if anything does.

## Main definitions

* `Reaches next r a` — the parents of `a` come to `r`.
* `Ascent next r a l` — `l` has the nodes from `a` to `r`, in order and without `r`.
* `climb next stop d node` — at most `d` steps from a node that may be missing.
-/

namespace Asap.Lib

variable {α : Type*} {next next' : α → Option α} {r a b c : α} {l l' : List α}

/-- The parents of a node come to `r`. -/
def Reaches (next : α → Option α) (r a : α) : Prop :=
  Relation.ReflTransGen (fun a b => next a = some b) a r

/-- The nodes from a node to `r`, in order and without `r`. -/
inductive Ascent (next : α → Option α) (r : α) : α → List α → Prop
  | stop : Ascent next r r []
  | step {a b : α} {l : List α} (hne : a ≠ r) (hnext : next a = some b)
      (hrest : Ascent next r b l) : Ascent next r a (a :: l)

namespace Reaches

theorem refl (next : α → Option α) (r : α) : Reaches next r r :=
  Relation.ReflTransGen.refl

theorem head (hnext : next a = some b) (h : Reaches next r b) : Reaches next r a :=
  Relation.ReflTransGen.head hnext h

/-- Induction from `r` down. -/
theorem induction {P : α → Prop} (h : Reaches next r a) (hstop : P r)
    (hstep : ∀ a b, next a = some b → Reaches next r b → P b → P a) : P a :=
  Relation.ReflTransGen.head_induction_on h hstop fun hnext hrest => hstep _ _ hnext hrest

/-- A chain inside a set of nodes depends on the parents of those alone. -/
theorem congr {S : α → Prop} (h : Reaches next r a) (ha : S a)
    (hclosed : ∀ a b, S a → next a = some b → S b) (hsame : ∀ a, S a → next' a = next a) :
    Reaches next' r a := by
  have key : S a → Reaches next' r a := by
    refine h.induction (P := fun a => S a → Reaches next' r a) (fun _ => refl next' r) ?_
    intro a b hnext _ ih ha
    exact head ((hsame a ha).trans hnext) (ih (hclosed a b ha hnext))
  exact key ha

/-- **One node gets another parent.** If it reaches `r` by the new parent whenever it did by
the old one, no node loses `r`. -/
theorem update [DecidableEq α] {p : Option α} (h : Reaches next r a)
    (hc : Reaches next r c → Reaches (Function.update next c p) r c) :
    Reaches (Function.update next c p) r a := by
  refine h.induction (P := Reaches (Function.update next c p) r) (refl _ r) ?_
  intro a b hnext hrest ih
  by_cases hac : a = c
  · subst hac
    exact hc (head hnext hrest)
  · refine head ?_ ih
    rw [Function.update_of_ne hac]
    exact hnext

end Reaches

namespace Ascent

theorem reaches (h : Ascent next r a l) : Reaches next r a := by
  induction h with
  | stop => exact .refl next r
  | step _ hnext _ ih => exact .head hnext ih

theorem unique (h : Ascent next r a l) (h' : Ascent next r a l') : l = l' := by
  induction h generalizing l' with
  | stop =>
    cases h' with
    | stop => rfl
    | step hne _ _ => exact absurd rfl hne
  | step hne hnext _ ih =>
    cases h' with
    | stop => exact absurd rfl hne
    | step _ hnext' hrest' =>
      have hb := Option.some.inj (hnext.symm.trans hnext')
      subst hb
      rw [ih hrest']

/-- The rest of an ascent from one of its nodes on. -/
theorem suffix (h : Ascent next r a l) (hc : c ∈ l) :
    ∃ l', l'.length ≤ l.length ∧ Ascent next r c l' := by
  induction h with
  | stop => simp at hc
  | step hne hnext hrest ih =>
    rcases List.mem_cons.mp hc with rfl | hc
    · exact ⟨_, Nat.le_refl _, .step hne hnext hrest⟩
    · obtain ⟨l', hlen, hl'⟩ := ih hc
      exact ⟨l', Nat.le_succ_of_le hlen, hl'⟩

/-- **An ascent has no node twice**, and `r` is none of them. -/
theorem nodup (h : Ascent next r a l) : r ∉ l ∧ l.Nodup := by
  induction h with
  | stop => simp
  | @step a b l hne hnext hrest ih =>
    refine ⟨?_, List.nodup_cons.mpr ⟨?_, ih.2⟩⟩
    · simp only [List.mem_cons, not_or]
      exact ⟨fun heq => hne heq.symm, ih.1⟩
    · intro hmem
      obtain ⟨l', hlen, hl'⟩ := hrest.suffix hmem
      have heq := hl'.unique (.step hne hnext hrest)
      rw [heq, List.length_cons] at hlen
      omega

theorem subset {S : α → Prop} (h : Ascent next r a l) (ha : S a)
    (hclosed : ∀ a b, S a → next a = some b → S b) : ∀ c ∈ l, S c := by
  induction h with
  | stop => simp
  | step _ hnext _ ih =>
    intro c hc
    rcases List.mem_cons.mp hc with rfl | hc
    · exact ha
    · exact ih (hclosed _ _ ha hnext) c hc

end Ascent

theorem Reaches.ascent (h : Reaches next r a) : ∃ l, Ascent next r a l := by
  refine h.induction (P := fun a => ∃ l, Ascent next r a l) ⟨[], .stop⟩ ?_
  rintro a b hnext _ ⟨l, hl⟩
  by_cases hne : a = r
  · exact ⟨[], hne ▸ .stop⟩
  · exact ⟨a :: l, .step hne hnext hl⟩

/-! ## A walk of bounded length -/

/-- At most `d` steps from a node that may be missing, no further than `stop`. -/
def climb [DecidableEq α] (next : α → Option α) (stop : Option α) : ℕ → Option α → Option α
  | 0, node => node
  | _ + 1, none => none
  | d + 1, some a => if some a = stop then some a else climb next stop d (next a)

theorem climb_none [DecidableEq α] (next : α → Option α) (stop : Option α) (d : ℕ) :
    climb next stop d none = none := by
  cases d <;> rfl

/-- A walk finds `r` exactly if the ascent is no longer than the walk. -/
theorem climb_eq_some_iff [DecidableEq α] (d : ℕ) (a : α) :
    climb next (some r) d (some a) = some r ↔ ∃ l, Ascent next r a l ∧ l.length ≤ d := by
  induction d generalizing a with
  | zero =>
    constructor
    · intro h
      have har : a = r := Option.some.inj h
      exact ⟨[], har ▸ .stop, Nat.zero_le _⟩
    · rintro ⟨l, hl, hlen⟩
      cases hl with
      | stop => rfl
      | step => simp at hlen
  | succ d ih =>
    by_cases har : a = r
    · subst har
      exact ⟨fun _ => ⟨[], .stop, Nat.zero_le _⟩, fun _ => by simp [climb]⟩
    · have hstep : climb next (some r) (d + 1) (some a) = climb next (some r) d (next a) := by
        simp [climb, har]
      rw [hstep]
      constructor
      · intro h
        cases hnext : next a with
        | none => simp [hnext, climb_none] at h
        | some b =>
          rw [hnext] at h
          obtain ⟨l, hl, hlen⟩ := (ih b).mp h
          exact ⟨a :: l, .step har hnext hl, Nat.succ_le_succ hlen⟩
      · rintro ⟨l, hl, hlen⟩
        cases hl with
        | stop => exact absurd rfl har
        | step _ hnext hrest =>
          rw [hnext]
          exact (ih _).mpr ⟨_, hrest, Nat.le_of_succ_le_succ hlen⟩

/-- **As many steps as there are nodes are enough.** -/
theorem climb_eq_some_iff_reaches [DecidableEq α] {nodes : List α} {d : ℕ}
    (hd : nodes.length ≤ d) (ha : a ∈ nodes)
    (hclosed : ∀ a b, a ∈ nodes → next a = some b → b ∈ nodes) :
    climb next (some r) d (some a) = some r ↔ Reaches next r a := by
  rw [climb_eq_some_iff]
  constructor
  · rintro ⟨l, hl, -⟩
    exact hl.reaches
  · intro h
    obtain ⟨l, hl⟩ := h.ascent
    have hsubset : l ⊆ nodes := hl.subset (S := (· ∈ nodes)) ha hclosed
    exact ⟨l, hl, Nat.le_trans (List.subperm_of_subset hl.nodup.2 hsubset).length_le hd⟩

end Asap.Lib
