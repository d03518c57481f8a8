import Mathlib.Data.List.Nodup
import Mathlib.Data.List.Perm.Subperm
import Mathlib.Logic.Function.Basic
import Mathlib.Tactic.Common

/-!
# Pools of blocks

A pool has `n` blocks and a map of those in use; the first free block is taken. Where the
blocks in use are those of a list, the list has a block for each, and there is a free one
exactly as long as the list is shorter than the pool.

## Main definitions

* `membAlloc n used` — the first free block.
* `InUse n used l` — the blocks in use are those of `l`, each once.
-/

namespace Asap.Lib

open List

variable {n b : ℕ} {used : ℕ → Bool} {l l' : List ℕ}

/-- The first free block of a pool. -/
def membAlloc (n : ℕ) (used : ℕ → Bool) : Option ℕ := (List.range n).find? fun b => !used b

theorem membAlloc_eq_some (h : membAlloc n used = some b) : b < n ∧ used b = false := by
  have hmem := List.mem_of_find?_eq_some h
  have hfree := List.find?_some h
  exact ⟨List.mem_range.mp hmem, by simpa using hfree⟩

/-- The blocks in use are those of a list. -/
structure InUse (n : ℕ) (used : ℕ → Bool) (l : List ℕ) : Prop where
  nodup : l.Nodup
  mem : ∀ b, b ∈ l ↔ used b
  lt : ∀ b ∈ l, b < n

namespace InUse

theorem nil (n : ℕ) : InUse n (fun _ => false) [] := ⟨nodup_nil, by simp, by simp⟩

section

variable (h : InUse n used l)

include h

theorem perm (hl : l.Perm l') : InUse n used l' :=
  ⟨hl.nodup_iff.mp h.nodup, fun b => hl.mem_iff.symm.trans (h.mem b),
    fun b hb => h.lt b (hl.mem_iff.mpr hb)⟩

theorem length_le : l.length ≤ n := by
  have hsubset : l ⊆ range n := fun b hb => List.mem_range.mpr (h.lt b hb)
  have hle := (subperm_of_subset h.nodup hsubset).length_le
  rwa [length_range] at hle

/-- The list is as long as there are blocks in use. -/
theorem countP_eq : (range n).countP used = l.length := by
  have hperm : ((range n).filter used).Perm l := by
    rw [perm_ext_iff_of_nodup (List.nodup_range.filter _) h.nodup]
    intro b
    rw [mem_filter, mem_range, h.mem]
    exact ⟨fun hb => hb.2, fun hb => ⟨h.lt b ((h.mem b).mpr hb), hb⟩⟩
  rw [countP_eq_length_filter, hperm.length_eq]

/-- **There is a free block** as long as the list is shorter than the pool. -/
theorem exists_membAlloc (hlt : l.length < n) : ∃ b, membAlloc n used = some b := by
  cases halloc : membAlloc n used with
  | some b => exact ⟨b, rfl⟩
  | none =>
    have hall : ∀ b < n, used b := by
      intro b hb
      have hused := List.find?_eq_none.mp halloc b (List.mem_range.mpr hb)
      simpa using hused
    have hsubset : range n ⊆ l := fun b hb => (h.mem b).mpr (hall b (List.mem_range.mp hb))
    have hle := (subperm_of_subset nodup_range hsubset).length_le
    rw [length_range] at hle
    omega

theorem alloc (hb : membAlloc n used = some b) :
    InUse n (Function.update used b true) (b :: l) := by
  obtain ⟨hlt, hfree⟩ := membAlloc_eq_some hb
  have hnot : b ∉ l := by
    rw [h.mem, hfree]
    exact Bool.false_ne_true
  refine ⟨List.nodup_cons.mpr ⟨hnot, h.nodup⟩, ?_, ?_⟩
  · intro b'
    by_cases hb' : b' = b <;> simp [hb', h.mem]
  · intro b' hb'
    rcases List.mem_cons.mp hb' with rfl | hb'
    · exact hlt
    · exact h.lt b' hb'

theorem free (b : ℕ) :
    InUse n (Function.update used b false) (l.erase b) := by
  refine ⟨h.nodup.erase b, ?_, fun b' hb' => h.lt b' (mem_of_mem_erase hb')⟩
  intro b'
  by_cases hb' : b' = b <;> simp [hb', h.nodup.mem_erase_iff, h.mem]

end

end InUse

end Asap.Lib
