import Asap.Antelope.MaxHeap
import Mathlib.Data.List.Perm.Basic
import Mathlib.Data.List.Infix
import Mathlib.Tactic.Ring

/-!
# What a max-heap index finds

Nodes are only added, so that the path of a key only gets longer, and the bucket that a pair has
been appended to stays on the path of its key. A search takes the pairs of a key from the buckets
of its path.

## Main definitions

* `Holds` — the table and the cache agree with the files, and the pairs are those inserted.
* `FindsAll` — an iteration over a range returns what has been inserted with a key in it.
* `HeapFits` — the condition on what happens to an index.
-/

namespace Asap.Antelope

open Lib Function List List

variable {cfg : MaxHeapConfig} {nodes nodes' nodes'' : ℕ → HeapNode} {k key : BitVec 16}
  {fuel it i j b b' : ℕ}

/-! ## Nodes are only added -/

/-- The nodes that there are stay as they are. -/
def Extends (nodes nodes' : ℕ → HeapNode) : Prop := ∀ i, ¬ (nodes i).Empty → nodes' i = nodes i

theorem Extends.refl (nodes : ℕ → HeapNode) : Extends nodes nodes := fun _ _ => rfl

theorem Extends.trans (h : Extends nodes nodes') (h' : Extends nodes' nodes'') :
    Extends nodes nodes'' := by
  intro i hi
  have hnode := h i hi
  rw [← hnode] at hi ⊢
  exact h' i hi

theorem extends_update (hi : (nodes i).Empty) (node : HeapNode) :
    Extends nodes (update nodes i node) := by
  intro j hj
  refine update_of_ne ?_ node nodes
  rintro rfl
  exact hj hi

theorem heapInsertLoop_extends {min max : BitVec 16} {written : Bool}
    (h : heapInsertLoop nodes min max written fuel i = some nodes') : Extends nodes nodes' := by
  induction fuel generalizing i with
  | zero => exact absurd h.symm (Option.some_ne_none _)
  | succ fuel ih =>
    rw [heapInsertLoop] at h
    split_ifs at h with hlimit hempty hwritten hrange
    · rw [← Option.some.inj h]
      exact extends_update hempty _
    · exact ih h
    · exact ih h

theorem heapInsert_extends {min max : BitVec 16} {written : Bool}
    (h : heapInsert nodes min max written = some nodes') : Extends nodes nodes' := by
  rw [heapInsert] at h
  split_ifs at h
  exact heapInsertLoop_extends h

theorem bucketSplit_extends (nodes : ℕ → HeapNode) (b : ℕ) (writes : Writes) :
    Extends nodes (bucketSplit nodes b writes).2 := by
  rw [bucketSplit]
  cases hsmall : heapInsert nodes (nodes b).min
      ((nodes b).min + ((nodes b).max - (nodes b).min) / 2) writes.small with
  | none => exact Extends.refl nodes
  | some nodes' =>
    have hext := heapInsert_extends hsmall
    dsimp only
    cases hlarge : heapInsert nodes' ((nodes b).min + ((nodes b).max - (nodes b).min) / 2 + 1)
        (nodes b).max writes.large with
    | none => exact hext
    | some nodes'' => exact hext.trans (heapInsert_extends hlarge)

/-! ## Paths -/

theorem heapFindLoop_spec (h : heapFindLoop nodes k fuel i = some j) :
    i ≤ j ∧ 2 * j + 1 < nodeLimit := by
  induction fuel generalizing i with
  | zero => exact absurd h.symm (Option.some_ne_none _)
  | succ fuel ih =>
    rw [heapFindLoop] at h
    split_ifs at h with hempty hrange hlimit
    · obtain rfl := Option.some.inj h
      exact ⟨Nat.le_refl i, Nat.lt_of_not_le hlimit⟩
    · have hspec := ih h
      omega

theorem Extends.heapFindLoop (h : Extends nodes nodes')
    (hfind : Antelope.heapFindLoop nodes k fuel i = some j) :
    Antelope.heapFindLoop nodes' k fuel i = some j := by
  induction fuel generalizing i with
  | zero => exact absurd hfind.symm (Option.some_ne_none _)
  | succ fuel ih =>
    rw [Antelope.heapFindLoop] at hfind ⊢
    by_cases hempty : (nodes i).Empty
    · rw [if_pos hempty] at hfind
      exact absurd hfind.symm (Option.some_ne_none _)
    · rw [h i hempty]
      split_ifs at hfind ⊢ with hrange hlimit
      · exact hfind
      · exact ih hfind

theorem heapFind_spec (h : heapFind nodes k it = some j) : it ≤ j ∧ 2 * j + 1 < nodeLimit :=
  heapFindLoop_spec h

theorem Extends.heapFind (h : Extends nodes nodes') (hfind : Antelope.heapFind nodes k it = some j) :
    Antelope.heapFind nodes' k it = some j :=
  h.heapFindLoop hfind

theorem heapPath_succ_some (h : heapFind nodes k it = some i) :
    heapPath nodes k (fuel + 1) it = i :: heapPath nodes k fuel (2 * i + 1) := by
  rw [heapPath, h]

theorem heapPath_succ_none (h : heapFind nodes k it = none) :
    heapPath nodes k (fuel + 1) it = [] := by
  rw [heapPath, h]

theorem mem_heapPath (h : b ∈ heapPath nodes k fuel it) : it ≤ b ∧ 2 * b + 1 < nodeLimit := by
  induction fuel generalizing it with
  | zero => exact absurd h not_mem_nil
  | succ fuel ih =>
    cases hfind : heapFind nodes k it with
    | none =>
      rw [heapPath_succ_none hfind] at h
      exact absurd h not_mem_nil
    | some i =>
      rw [heapPath_succ_some hfind] at h
      have hi := heapFind_spec hfind
      cases mem_cons.mp h with
      | inl heq =>
        rw [heq]
        exact hi
      | inr hmem =>
        have hb := ih hmem
        omega

theorem heapPath_increasing (nodes : ℕ → HeapNode) (k : BitVec 16) (fuel it : ℕ) :
    (heapPath nodes k fuel it).Pairwise (· < ·) := by
  induction fuel generalizing it with
  | zero => exact List.Pairwise.nil
  | succ fuel ih =>
    cases hfind : heapFind nodes k it with
    | none =>
      rw [heapPath_succ_none hfind]
      exact List.Pairwise.nil
    | some i =>
      rw [heapPath_succ_some hfind]
      refine List.Pairwise.cons (fun b hb => ?_) (ih _)
      have hbound := mem_heapPath hb
      omega

theorem Extends.mem_heapPath (h : Extends nodes nodes') (hb : b ∈ heapPath nodes k fuel it) :
    b ∈ heapPath nodes' k fuel it := by
  induction fuel generalizing it with
  | zero => exact absurd hb not_mem_nil
  | succ fuel ih =>
    cases hfind : Antelope.heapFind nodes k it with
    | none =>
      rw [heapPath_succ_none hfind] at hb
      exact absurd hb not_mem_nil
    | some i =>
      rw [heapPath_succ_some hfind] at hb
      rw [heapPath_succ_some (h.heapFind hfind)]
      cases mem_cons.mp hb with
      | inl heq => exact mem_cons.mpr (Or.inl heq)
      | inr hmem => exact mem_cons_of_mem i (ih hmem)

/-- Below the last nodes there is none, so a path is as long as there are levels. -/
theorem heapPath_fuel (h : 256 ≤ (it + 1) * 2 ^ fuel) :
    heapPath nodes k (fuel + 1) it = heapPath nodes k fuel it := by
  induction fuel generalizing it with
  | zero =>
    cases hfind : heapFind nodes k it with
    | none => rw [heapPath_succ_none hfind, heapPath]
    | some i =>
      have hi := heapFind_spec hfind
      rw [nodeLimit] at hi
      omega
  | succ fuel ih =>
    cases hfind : heapFind nodes k it with
    | none => rw [heapPath_succ_none hfind, heapPath_succ_none hfind]
    | some i =>
      rw [heapPath_succ_some hfind, heapPath_succ_some hfind, ih]
      have hi := (heapFind_spec hfind).1
      calc 256 ≤ (it + 1) * 2 ^ (fuel + 1) := h
        _ ≤ (i + 1) * 2 ^ (fuel + 1) := Nat.mul_le_mul_right _ (by omega)
        _ = (2 * i + 1 + 1) * 2 ^ fuel := by ring

theorem heapPath_nodeLimit (nodes : ℕ → HeapNode) (k : BitVec 16) :
    heapPath nodes k nodeLimit 0 = heapPath nodes k nodeDepth 0 := by
  have hmore : ∀ n, nodeDepth ≤ n → heapPath nodes k n 0 = heapPath nodes k nodeDepth 0 := by
    intro n hn
    induction n, hn using Nat.le_induction with
    | base => rfl
    | succ n hn ih =>
      rw [heapPath_fuel, ih]
      calc 256 ≤ (0 + 1) * 2 ^ nodeDepth := by decide
        _ ≤ (0 + 1) * 2 ^ n := Nat.mul_le_mul_left _ (Nat.pow_le_pow_right (by decide) hn)
  exact hmore nodeLimit (by decide)

/-- What is found below a bucket of a path is on the path. -/
theorem mem_heapPath_next (hfuel : 256 ≤ (it + 1) * 2 ^ fuel) (hb : b ∈ heapPath nodes k fuel it)
    (hfind : heapFind nodes k (2 * b + 1) = some b') : b' ∈ heapPath nodes k fuel it := by
  induction fuel generalizing it with
  | zero => exact absurd hb not_mem_nil
  | succ fuel ih =>
    cases hfirst : heapFind nodes k it with
    | none =>
      rw [heapPath_succ_none hfirst] at hb
      exact absurd hb not_mem_nil
    | some i =>
      rw [heapPath_succ_some hfirst] at hb ⊢
      have hi := (heapFind_spec hfirst).1
      have hfuel' : 256 ≤ (2 * i + 1 + 1) * 2 ^ fuel := by
        calc 256 ≤ (it + 1) * 2 ^ (fuel + 1) := hfuel
          _ ≤ (i + 1) * 2 ^ (fuel + 1) := Nat.mul_le_mul_right _ (by omega)
          _ = (2 * i + 1 + 1) * 2 ^ fuel := by ring
      refine mem_cons_of_mem i ?_
      cases mem_cons.mp hb with
      | inl heq =>
        rw [heq] at hfind
        rw [← heapPath_fuel hfuel', heapPath_succ_some hfind]
        exact mem_cons_self
      | inr hmem => exact ih hfuel' hmem

/-- The buckets of a key, from the root on. -/
def pathOf (cfg : MaxHeapConfig) (nodes : ℕ → HeapNode) (key : BitVec 16) : List ℕ :=
  heapPath nodes (cfg.transformKey key) nodeDepth 0

/-- The bucket that a pair is appended to is the last one of the path of its key. -/
theorem chooseBucket_spec {s : MaxHeap} {writes : Writes}
    (h : s.chooseBucket cfg key writes = (some b, nodes')) :
    b ∈ pathOf cfg nodes' key ∧ ∀ b' ∈ pathOf cfg s.nodes key, b' ≤ b := by
  rw [MaxHeap.chooseBucket, heapPath_nodeLimit] at h
  cases hlast : (heapPath s.nodes (cfg.transformKey key) nodeDepth 0).getLast? with
  | none =>
    rw [hlast] at h
    exact absurd (congrArg Prod.fst h).symm (Option.some_ne_none b)
  | some last =>
    rw [hlast] at h
    have hmem : last ∈ pathOf cfg s.nodes key := mem_of_getLast? hlast
    have hle : ∀ b' ∈ pathOf cfg s.nodes key, b' ≤ last := by
      intro b' hb'
      obtain ⟨front, hfront⟩ := getLast?_eq_some_iff.mp hlast
      have hpair := heapPath_increasing s.nodes (cfg.transformKey key) nodeDepth 0
      rw [pathOf, hfront] at hb'
      rw [hfront] at hpair
      cases mem_append.mp hb' with
      | inl hfrontMem =>
        exact Nat.le_of_lt ((pairwise_append.mp hpair).2.2 b' hfrontMem last
          mem_cons_self)
      | inr hlastMem => exact Nat.le_of_eq (mem_singleton.mp hlastMem)
    dsimp only at h
    split_ifs at h with hfull
    · have hext := bucketSplit_extends s.nodes last writes
      cases hsplit : bucketSplit s.nodes last writes with
      | mk ok nodes'' =>
        rw [hsplit] at h hext
        cases ok with
        | false => exact absurd (congrArg Prod.fst h).symm (Option.some_ne_none b)
        | true =>
          obtain rfl : nodes'' = nodes' := congrArg Prod.snd h
          have hfind : heapFind nodes'' (cfg.transformKey key) (2 * last + 1) = some b :=
            congrArg Prod.fst h
          refine ⟨mem_heapPath_next (by decide) (hext.mem_heapPath hmem) hfind, ?_⟩
          intro b' hb'
          have hb := (heapFind_spec hfind).1
          have hb'le := hle b' hb'
          omega
    · obtain rfl : last = b := Option.some.inj (congrArg Prod.fst h)
      obtain rfl : s.nodes = nodes' := congrArg Prod.snd h
      exact ⟨hmem, hle⟩

theorem chooseBucket_extends (s : MaxHeap) (key : BitVec 16) (writes : Writes) :
    Extends s.nodes (s.chooseBucket cfg key writes).2 := by
  rw [MaxHeap.chooseBucket]
  cases (heapPath s.nodes (cfg.transformKey key) nodeLimit 0).getLast? with
  | none => exact Extends.refl s.nodes
  | some last =>
    dsimp only
    split_ifs
    · have hext := bucketSplit_extends s.nodes last writes
      cases hsplit : bucketSplit s.nodes last writes with
      | mk ok nodes'' =>
        rw [hsplit] at hext
        cases ok <;> exact hext
    · exact Extends.refl s.nodes

/-! ## What is stored -/

/-- The pairs of a bucket. -/
def slots (s : MaxHeap) (count : ℕ → ℕ) (b : ℕ) : List KeyValuePair :=
  (List.range (count b)).map (s.pairs b)

/-- The pair that is stored for a key and a tuple. -/
def pairOf (p : BitVec 16 × BitVec 32) : KeyValuePair := ⟨p.1, p.2.setWidth 16⟩

/-- A bucket is in the cache. -/
def MaxHeap.Cached (cfg : MaxHeapConfig) (s : MaxHeap) (b : ℕ) : Prop :=
  ∃ e < cfg.cacheLimit, (s.cache e).bucketId = some b

/-- What holds of an index whose buckets have been filled to `count`. -/
structure Holds (cfg : MaxHeapConfig) (s : MaxHeap) (count : ℕ → ℕ) : Prop where
  count_le : ∀ b, count b ≤ bucketSize
  slot : ∀ b, s.nextFreeSlot b = count b ∨ s.nextFreeSlot b = 0
  used : ∀ b i, i < count b → ¬ (s.pairs b i).Empty
  unused : ∀ b i, count b ≤ i → (s.pairs b i).Empty
  loaded : ∀ b, s.Cached cfg b → s.nextFreeSlot b = count b
  copied : ∀ e < cfg.cacheLimit, ∀ b, (s.cache e).bucketId = some b →
    ∀ i < count b, (s.cache e).bucket i = s.pairs b i
  onPath : ∀ b i, i < count b → b ∈ pathOf cfg s.nodes (s.pairs b i).key
  ordered : ∀ b b' i i', b < b' → i < count b → i' < count b' →
    (s.pairs b i).key = (s.pairs b' i').key → i' < i
  tuples : ∀ p ∈ s.inserted, p.2.toNat < 65536
  stored : (s.inserted.map pairOf).Perm ((List.range nodeLimit).flatMap (slots s count))

/-- The files are the same. -/
structure SameFiles (s s' : MaxHeap) : Prop where
  nodes : s'.nodes = s.nodes
  pairs : s'.pairs = s.pairs
  inserted : s'.inserted = s.inserted

theorem SameFiles.refl (s : MaxHeap) : SameFiles s s := ⟨rfl, rfl, rfl⟩

theorem SameFiles.trans {s s' s'' : MaxHeap} (h : SameFiles s s') (h' : SameFiles s' s'') :
    SameFiles s s'' :=
  ⟨h'.nodes.trans h.nodes, h'.pairs.trans h.pairs, h'.inserted.trans h.inserted⟩

theorem slots_congr {s s' : MaxHeap} (count : ℕ → ℕ) (h : s'.pairs = s.pairs) :
    slots s' count = slots s count := by
  funext b
  rw [slots, slots, h]

namespace Holds

variable {s s' : MaxHeap} {count : ℕ → ℕ}

/-- The table and the cache may change as long as they agree with the files. -/
theorem reread (h : Holds cfg s count) (hfiles : SameFiles s s')
    (hslot : ∀ b, s'.nextFreeSlot b = count b ∨ s'.nextFreeSlot b = 0)
    (hloaded : ∀ b, s'.Cached cfg b → s'.nextFreeSlot b = count b)
    (hcopied : ∀ e < cfg.cacheLimit, ∀ b, (s'.cache e).bucketId = some b →
      ∀ i < count b, (s'.cache e).bucket i = s.pairs b i) : Holds cfg s' count where
  count_le := h.count_le
  slot := hslot
  used b i hi := by
    rw [hfiles.pairs]
    exact h.used b i hi
  unused b i hi := by
    rw [hfiles.pairs]
    exact h.unused b i hi
  loaded := hloaded
  copied := by
    rw [hfiles.pairs]
    exact hcopied
  onPath b i hi := by
    rw [hfiles.pairs, hfiles.nodes]
    exact h.onPath b i hi
  ordered := by
    rw [hfiles.pairs]
    exact h.ordered
  tuples := by
    rw [hfiles.inserted]
    exact h.tuples
  stored := by
    rw [hfiles.inserted, slots_congr count hfiles.pairs]
    exact h.stored

/-- More nodes may be there. -/
theorem extend (h : Holds cfg s count) (hext : Extends s.nodes nodes) :
    Holds cfg { s with nodes } count :=
  ⟨h.count_le, h.slot, h.used, h.unused, h.loaded, h.copied,
    fun b i hi => hext.mem_heapPath (h.onPath b i hi), h.ordered, h.tuples, h.stored⟩

/-- The number of pairs is found where the first slot is free. -/
theorem firstFree_eq (h : Holds cfg s count) {bucket : ℕ → KeyValuePair}
    (hbucket : ∀ i < bucketSize, bucket i = s.pairs b i) : MaxHeap.firstFree bucket = count b := by
  rw [MaxHeap.firstFree]
  cases hfind : (range bucketSize).find? fun i => (bucket i).Empty with
  | none =>
    have hfull : ∀ i < bucketSize, ¬ (s.pairs b i).Empty := by
      intro i hi
      have hnot := List.find?_eq_none.mp hfind i (mem_range.mpr hi)
      rw [hbucket i hi] at hnot
      simpa using hnot
    have hle := h.count_le b
    by_contra hne
    exact hfull (count b) (Nat.lt_of_le_of_ne hle fun heq => hne heq.symm)
      (h.unused b _ (Nat.le_refl _))
  | some i =>
    have hi : i < bucketSize := mem_range.mp (mem_of_find?_eq_some hfind)
    have hempty : (s.pairs b i).Empty := by
      have hfound := List.find?_some hfind
      rw [hbucket i hi] at hfound
      simpa using hfound
    have hge : count b ≤ i := by
      by_contra hlt
      exact h.used b i (Nat.lt_of_not_le hlt) hempty
    have hbefore : ∀ j < i, ¬ (s.pairs b j).Empty := by
      intro j hj
      obtain ⟨-, front, back, heq, hfront⟩ := List.find?_eq_some_iff_append.mp hfind
      have hj' : j < bucketSize := Nat.lt_trans hj hi
      have hmem : j ∈ front := by
        have hsorted : (front ++ i :: back).Pairwise (· < ·) := heq ▸ pairwise_lt_range
        have hj'' : j ∈ front ++ i :: back := heq ▸ mem_range.mpr hj'
        cases mem_append.mp hj'' with
        | inl hfrontMem => exact hfrontMem
        | inr hback =>
          exfalso
          cases mem_cons.mp hback with
          | inl hsame => omega
          | inr hlater =>
            have hlt := rel_of_pairwise_cons (pairwise_append.mp hsorted).2.1 hlater
            omega
      have hnot := hfront j hmem
      rw [hbucket j hj'] at hnot
      simpa using hnot
    show i = count b
    by_contra hne
    exact hbefore (count b) (Nat.lt_of_le_of_ne hge fun heq => hne heq.symm)
      (h.unused b _ (Nat.le_refl _))

/-- A bucket is read to an entry of the cache. -/
theorem fillCache (h : Holds cfg s count) (e b : ℕ) :
    Holds cfg (s.fillCache e b) count ∧ (s.fillCache e b).nextFreeSlot b = count b ∧
      ∀ i < count b, ((s.fillCache e b).cache e).bucket i = s.pairs b i := by
  have hslotEq : (s.fillCache e b).nextFreeSlot =
      if s.nextFreeSlot b = 0 then
        update s.nextFreeSlot b (MaxHeap.firstFree (s.bucketRead b (s.cache e).bucket))
      else s.nextFreeSlot := rfl
  have hcacheEq : (s.fillCache e b).cache =
      update s.cache e ⟨some b, s.bucketRead b (s.cache e).bucket⟩ := rfl
  have hread : ∀ i < count b, s.bucketRead b (s.cache e).bucket i = s.pairs b i := by
    intro i hi
    rw [MaxHeap.bucketRead]
    refine if_pos ?_
    have hle := h.count_le b
    split_ifs with hzero
    · omega
    · cases h.slot b with
      | inl heq => omega
      | inr hz => exact absurd hz hzero
  have hnext : (s.fillCache e b).nextFreeSlot b = count b := by
    rw [hslotEq]
    split_ifs with hzero
    · rw [update_self]
      refine h.firstFree_eq fun i hi => ?_
      rw [MaxHeap.bucketRead, if_pos hzero, if_pos hi]
    · exact (h.slot b).resolve_right hzero
  have hother : ∀ b', b' ≠ b → (s.fillCache e b).nextFreeSlot b' = s.nextFreeSlot b' := by
    intro b' hne
    rw [hslotEq]
    split_ifs
    · exact update_of_ne hne _ _
    · rfl
  refine ⟨h.reread ⟨rfl, rfl, rfl⟩ (fun b' => ?_) (fun b' hcached => ?_)
    (fun e' he' b' hid i hi => ?_), hnext, fun i hi => ?_⟩
  · by_cases hsame : b' = b
    · rw [hsame]
      exact Or.inl hnext
    · rw [hother b' hsame]
      exact h.slot b'
  · by_cases hsame : b' = b
    · rw [hsame]
      exact hnext
    · rw [hother b' hsame]
      obtain ⟨e', he', hid⟩ := hcached
      rw [hcacheEq] at hid
      by_cases hentry : e' = e
      · rw [hentry, update_self] at hid
        exact absurd (Option.some.inj hid).symm hsame
      · rw [update_of_ne hentry] at hid
        exact h.loaded b' ⟨e', he', hid⟩
  · rw [hcacheEq] at hid ⊢
    by_cases hentry : e' = e
    · rw [hentry, update_self] at hid ⊢
      obtain rfl : b = b' := Option.some.inj hid
      exact hread i hi
    · rw [update_of_ne hentry] at hid ⊢
      exact h.copied e' he' b' hid i hi
  · rw [hcacheEq, update_self]
    exact hread i hi

theorem getCacheFree_isSome (s : MaxHeap) (cfg : MaxHeapConfig) :
    ((s.getCacheFree cfg).isSome ∨ ((s.invalidateCache cfg).getCacheFree cfg).isSome) := by
  by_cases hfree : (s.getCacheFree cfg).isSome
  · exact Or.inl hfree
  · refine Or.inr ?_
    have hnone : s.getCacheFree cfg = none := Option.not_isSome_iff_eq_none.mp hfree
    cases hfind : (range cfg.cacheLimit).find? fun e => (s.cache e).bucketId ≠ none with
    | none =>
      exfalso
      have hzero : 0 ∈ range cfg.cacheLimit := mem_range.mpr cfg.cacheLimit_pos
      have husedNone := List.find?_eq_none.mp hfind 0 hzero
      have hfreeNone := List.find?_eq_none.mp hnone 0 hzero
      simp only [decide_eq_true_eq, not_not] at husedNone hfreeNone
      exact hfreeNone husedNone
    | some e =>
      rw [MaxHeap.getCacheFree, List.find?_isSome]
      refine ⟨e, mem_of_find?_eq_some hfind, ?_⟩
      rw [MaxHeap.invalidateCache, hfind]
      simp

/-- An entry of the cache is given up. -/
theorem invalidateCache (h : Holds cfg s count) :
    Holds cfg (s.invalidateCache cfg) count ∧ SameFiles s (s.invalidateCache cfg) := by
  rw [MaxHeap.invalidateCache]
  cases (range cfg.cacheLimit).find? fun e => (s.cache e).bucketId ≠ none with
  | none => exact ⟨h, SameFiles.refl s⟩
  | some e =>
    have hid : ∀ e' b, (update s.cache e { s.cache e with bucketId := none } e').bucketId =
        some b → e' ≠ e ∧ (s.cache e').bucketId = some b := by
      intro e' b hb
      by_cases hentry : e' = e
      · rw [hentry, update_self] at hb
        exact absurd hb.symm (Option.some_ne_none b)
      · rw [update_of_ne hentry] at hb
        exact ⟨hentry, hb⟩
    have hcached : ∀ b, MaxHeap.Cached cfg
        { s with cache := update s.cache e { s.cache e with bucketId := none } } b →
          s.Cached cfg b := by
      intro b hb
      obtain ⟨e', he', hb⟩ := hb
      exact ⟨e', he', (hid e' b hb).2⟩
    refine ⟨h.reread ⟨rfl, rfl, rfl⟩ h.slot (fun b hb => h.loaded b (hcached b hb))
      fun e' he' b hb i hi => ?_, ⟨rfl, rfl, rfl⟩⟩
    obtain ⟨hentry, hb⟩ := hid e' b hb
    dsimp only
    rw [update_of_ne hentry]
    exact h.copied e' he' b hb i hi

/-- **A bucket is loaded**: the cache has its pairs, and the table their number. -/
theorem bucketLoad (h : Holds cfg s count) (b : ℕ) :
    ∃ e s', s.bucketLoad cfg b = some (e, s') ∧ Holds cfg s' count ∧ SameFiles s s' ∧
      s'.nextFreeSlot b = count b ∧ ∀ i < count b, (s'.cache e).bucket i = s.pairs b i := by
  rw [MaxHeap.bucketLoad]
  cases hget : s.getCache cfg b with
  | some e =>
    have he : e < cfg.cacheLimit := mem_range.mp (mem_of_find?_eq_some hget)
    have hid : (s.cache e).bucketId = some b := by simpa using List.find?_some hget
    exact ⟨e, s, rfl, h, SameFiles.refl s, h.loaded b ⟨e, he, hid⟩, h.copied e he b hid⟩
  | none =>
    dsimp only
    cases hfree : s.getCacheFree cfg with
    | some e =>
      obtain ⟨hholds, hnext, hcopy⟩ := h.fillCache e b
      exact ⟨e, s.fillCache e b, rfl, hholds, ⟨rfl, rfl, rfl⟩, hnext, hcopy⟩
    | none =>
      obtain ⟨hholds, hfiles⟩ := h.invalidateCache
      have hsome := (getCacheFree_isSome s cfg).resolve_left (by rw [hfree]; decide)
      obtain ⟨e, he⟩ := Option.isSome_iff_exists.mp hsome
      obtain ⟨hholds', hnext, hcopy⟩ := hholds.fillCache e b
      refine ⟨e, (s.invalidateCache cfg).fillCache e b, ?_, hholds', hfiles.trans ⟨rfl, rfl, rfl⟩,
        hnext, fun i hi => ?_⟩
      · dsimp only
        rw [he, Option.map_some]
      · rw [hcopy i hi, hfiles.pairs]

end Holds

/-! ## Insertions -/

/-- The condition on an insertion, read on the index before it: for the bucket that is chosen,
there is no copy in the cache, and its number of pairs is in the table unless it has none; the pairs
that are there for the key in other buckets stand behind the slot that is taken; the tuple has two
bytes, and the pair is not the one that is taken for none. -/
structure InsertFits (cfg : MaxHeapConfig) (s : MaxHeap) (key : BitVec 16) (tuple : BitVec 32)
    (b : ℕ) : Prop where
  uncached : ¬ s.Cached cfg b
  counted : s.nextFreeSlot b = 0 → ∀ i, (s.pairs b i).Empty
  behind : ∀ b' i, b' ≠ b → ¬ (s.pairs b' i).Empty → (s.pairs b' i).key = key →
    s.nextFreeSlot b < i
  tuple_lt : tuple.toNat < 65536
  nonempty : ¬ (pairOf (key, tuple)).Empty

/-- A list gets one more element where one of its parts does. -/
theorem flatMap_perm_append {α : Type*} {l : List ℕ} {f f' : ℕ → List α} {x : α} (hl : l.Nodup)
    (hb : b ∈ l) (hself : f' b = f b ++ [x]) (hother : ∀ b' ≠ b, f' b' = f b') :
    (l.flatMap f').Perm (l.flatMap f ++ [x]) := by
  induction l with
  | nil => exact absurd hb not_mem_nil
  | cons a l ih =>
    rw [flatMap_cons, flatMap_cons]
    obtain ⟨hnot, hnodup⟩ := nodup_cons.mp hl
    by_cases hsame : a = b
    · have hrest : l.flatMap f' = l.flatMap f :=
        flatMap_congr fun b' hb' => hother b' fun heq => hnot (by rw [hsame, ← heq]; exact hb')
      rw [hsame, hself, hrest, append_assoc, append_assoc]
      exact List.Perm.append_left _ perm_append_comm
    · have hmem : b ∈ l := (mem_cons.mp hb).resolve_left fun heq => hsame heq.symm
      rw [hother a hsame, append_assoc]
      exact List.Perm.append_left _ (ih hnodup hmem)

/-- The index with one more pair in a bucket. -/
def MaxHeap.appended (s : MaxHeap) (nodes : ℕ → HeapNode) (b : ℕ) (key : BitVec 16)
    (tuple : BitVec 32) : MaxHeap where
  nodes := nodes
  pairs := Function.update s.pairs b
    (Function.update (s.pairs b) (s.nextFreeSlot b) (pairOf (key, tuple)))
  nextFreeSlot := Function.update s.nextFreeSlot b (s.nextFreeSlot b + 1)
  cache := s.cache
  inserted := s.inserted ++ [(key, tuple)]

/-- **An insertion** leaves everything but the nodes as it is, or appends the pair to the bucket
that is chosen. -/
theorem insertItem_cases (cfg : MaxHeapConfig) (s : MaxHeap) (key : BitVec 16)
    (tuple : BitVec 32) (writes : Writes) :
    s.insertItem cfg key tuple writes =
        (false, { s with nodes := (s.chooseBucket cfg key writes).2 }) ∨
      ∃ b, (s.chooseBucket cfg key writes).1 = some b ∧ s.nextFreeSlot b < bucketSize ∧
        s.insertItem cfg key tuple writes =
          (true, s.appended (s.chooseBucket cfg key writes).2 b key tuple) := by
  rw [MaxHeap.insertItem]
  cases s.chooseBucket cfg key writes with
  | mk chosen nodes =>
    cases chosen with
    | none => exact Or.inl rfl
    | some b =>
      dsimp only
      rw [MaxHeap.bucketAppend]
      by_cases hfail : bucketSize ≤ s.nextFreeSlot b ∨ writes.pair = false
      · rw [if_pos hfail]
        exact Or.inl rfl
      · rw [if_neg hfail]
        refine Or.inr ⟨b, rfl, ?_, rfl⟩
        exact Nat.lt_of_not_le fun hle => hfail (Or.inl hle)

section Append

variable {s : MaxHeap} {tuple : BitVec 32}

theorem appended_pairs_self :
    (s.appended nodes b key tuple).pairs b (s.nextFreeSlot b) = pairOf (key, tuple) := by
  rw [MaxHeap.appended]
  dsimp only
  rw [update_self, update_self]

theorem appended_pairs_of_ne (h : b' ≠ b ∨ i ≠ s.nextFreeSlot b) :
    (s.appended nodes b key tuple).pairs b' i = s.pairs b' i := by
  rw [MaxHeap.appended]
  dsimp only
  by_cases hsame : b' = b
  · rw [hsame, update_self, update_of_ne (h.resolve_left fun hne => hne hsame)]
  · rw [update_of_ne hsame]

end Append

namespace Holds

variable {s s' : MaxHeap} {count : ℕ → ℕ} {tuple : BitVec 32}

/-- The table has the number of pairs of the bucket that is chosen. -/
theorem slot_eq (h : Holds cfg s count) (hfits : InsertFits cfg s key tuple b) :
    s.nextFreeSlot b = count b := by
  cases h.slot b with
  | inl heq => exact heq
  | inr hzero =>
    rw [hzero]
    by_contra hne
    exact h.used b 0 (Nat.pos_of_ne_zero fun heq => hne heq.symm) (hfits.counted hzero 0)

/-- **A pair is appended** to the last bucket of its path. -/
theorem appended (h : Holds cfg s count) (hfits : InsertFits cfg s key tuple b)
    (hext : Extends s.nodes nodes) (hpath : b ∈ pathOf cfg nodes key)
    (hlast : ∀ b' ∈ pathOf cfg s.nodes key, b' ≤ b) (hroom : s.nextFreeSlot b < bucketSize) :
    Holds cfg (s.appended nodes b key tuple) (update count b (count b + 1)) := by
  have hslot := h.slot_eq hfits
  have hself : (s.appended nodes b key tuple).pairs b (count b) = pairOf (key, tuple) := by
    rw [← hslot]
    exact appended_pairs_self
  have hother : ∀ b' i, b' ≠ b ∨ i ≠ count b →
      (s.appended nodes b key tuple).pairs b' i = s.pairs b' i := by
    intro b' i hne
    rw [← hslot] at hne
    exact appended_pairs_of_ne hne
  -- a slot that is filled is the new one, or was filled before
  have hnew : ∀ b' i, i < update count b (count b + 1) b' →
      (b' = b ∧ i = count b) ∨ ((b' ≠ b ∨ i ≠ count b) ∧ i < count b') := by
    intro b' i hi
    by_cases hsame : b' = b
    · rw [hsame, update_self] at hi
      by_cases hi' : i = count b
      · exact Or.inl ⟨hsame, hi'⟩
      · refine Or.inr ⟨Or.inr hi', ?_⟩
        rw [hsame]
        omega
    · rw [update_of_ne hsame] at hi
      exact Or.inr ⟨Or.inl hsame, hi⟩
  have hnext : ∀ b', b' ≠ b → (s.appended nodes b key tuple).nextFreeSlot b' = s.nextFreeSlot b' :=
    fun b' hne => update_of_ne hne _ _
  exact
  { count_le := by
      intro b'
      by_cases hsame : b' = b
      · rw [hsame, update_self]
        omega
      · rw [update_of_ne hsame]
        exact h.count_le b'
    slot := by
      intro b'
      by_cases hsame : b' = b
      · refine Or.inl ?_
        rw [hsame, update_self, ← hslot]
        exact update_self _ _ _
      · rw [hnext b' hsame, update_of_ne hsame]
        exact h.slot b'
    used := by
      intro b' i hi
      cases hnew b' i hi with
      | inl heq =>
        rw [heq.1, heq.2, hself]
        exact hfits.nonempty
      | inr hold =>
        rw [hother b' i hold.1]
        exact h.used b' i hold.2
    unused := by
      intro b' i hi
      by_cases hsame : b' = b
      · rw [hsame, update_self] at hi
        rw [hsame, hother b i (Or.inr (by omega))]
        exact h.unused b i (by omega)
      · rw [update_of_ne hsame] at hi
        rw [hother b' i (Or.inl hsame)]
        exact h.unused b' i hi
    loaded := by
      intro b' hcached
      have hne : b' ≠ b := by
        rintro rfl
        exact hfits.uncached hcached
      rw [hnext b' hne, update_of_ne hne]
      exact h.loaded b' hcached
    copied := by
      intro e he b' hid i hi
      have hne : b' ≠ b := by
        rintro rfl
        exact hfits.uncached ⟨e, he, hid⟩
      rw [update_of_ne hne] at hi
      rw [hother b' i (Or.inl hne)]
      exact h.copied e he b' hid i hi
    onPath := by
      intro b' i hi
      cases hnew b' i hi with
      | inl heq =>
        rw [heq.1, heq.2, hself]
        exact hpath
      | inr hold =>
        rw [hother b' i hold.1]
        exact hext.mem_heapPath (h.onPath b' i hold.2)
    ordered := by
      intro b₁ b₂ i₁ i₂ hlt h₁ h₂ hkey
      cases hnew b₁ i₁ h₁ with
      | inl heq =>
        -- the bucket that is chosen is the last one with the key
        exfalso
        have hold : b₂ ≠ b ∧ i₂ < count b₂ := by
          cases hnew b₂ i₂ h₂ with
          | inl heq' => omega
          | inr hold => exact ⟨by omega, hold.2⟩
        rw [heq.1, heq.2, hself, hother b₂ i₂ (Or.inl hold.1)] at hkey
        have hmem := h.onPath b₂ i₂ hold.2
        rw [← hkey] at hmem
        have hle := hlast b₂ hmem
        omega
      | inr hold =>
        rw [hother b₁ i₁ hold.1] at hkey
        cases hnew b₂ i₂ h₂ with
        | inl heq =>
          rw [heq.1, heq.2, hself] at hkey
          rw [heq.2, ← hslot]
          exact hfits.behind b₁ i₁ (by omega) (h.used b₁ i₁ hold.2) hkey
        | inr hold' =>
          rw [hother b₂ i₂ hold'.1] at hkey
          exact h.ordered b₁ b₂ i₁ i₂ hlt hold.2 hold'.2 hkey
    tuples := by
      intro p hp
      cases mem_append.mp hp with
      | inl hold => exact h.tuples p hold
      | inr hp =>
        rw [mem_singleton.mp hp]
        exact hfits.tuple_lt
    stored := by
      have hlt : b < nodeLimit := by
        have hbound := mem_heapPath hpath
        omega
      have hslotsSelf : slots (s.appended nodes b key tuple)
          (update count b (count b + 1)) b = slots s count b ++ [pairOf (key, tuple)] := by
        rw [slots, slots, update_self, range_succ, map_append, map_singleton,
          hself]
        refine congrArg (· ++ [pairOf (key, tuple)]) (map_congr_left fun i hi => ?_)
        have hi := mem_range.mp hi
        exact hother b i (Or.inr (by omega))
      have hslotsOther : ∀ b' ≠ b, slots (s.appended nodes b key tuple)
          (update count b (count b + 1)) b' = slots s count b' := by
        intro b' hne
        rw [slots, slots, update_of_ne hne]
        exact map_congr_left fun i _ => hother b' i (Or.inl hne)
      have hperm := flatMap_perm_append nodup_range (mem_range.mpr hlt) hslotsSelf
        hslotsOther
      calc (s.inserted ++ [(key, tuple)]).map pairOf
          = s.inserted.map pairOf ++ [pairOf (key, tuple)] := by
            rw [map_append, map_singleton]
        _ |>.Perm ((range nodeLimit).flatMap (slots s count) ++ [pairOf (key, tuple)]) :=
            h.stored.append_right _
        _ |>.Perm _ := hperm.symm }

end Holds

/-! ## Searches -/

section Slots

variable {p : ℕ → Prop} [DecidablePred p] {start start' n : ℕ} {rest : List ℕ}

/-- The slots from one on that meet a condition. -/
def slotsFrom (p : ℕ → Prop) [DecidablePred p] (start n : ℕ) : List ℕ :=
  (List.range' start (n - start)).filter fun i => p i

theorem slotsFrom_of_le (h : n ≤ start) : slotsFrom p start n = [] := by
  rw [slotsFrom, Nat.sub_eq_zero_of_le h]
  rfl

theorem slotsFrom_of_lt (h : start < n) : slotsFrom p start n =
    if p start then start :: slotsFrom p (start + 1) n else slotsFrom p (start + 1) n := by
  obtain ⟨m, hm⟩ : ∃ m, n - start = m + 1 := ⟨n - start - 1, by omega⟩
  have hm' : n - (start + 1) = m := by omega
  rw [slotsFrom, slotsFrom, hm, hm', range'_succ, filter_cons]
  by_cases hp : p start
  · simp [hp]
  · simp [hp]

/-- Slots that do not meet the condition are skipped. -/
theorem slotsFrom_skip (hle : start ≤ start')
    (hskip : ∀ j, start ≤ j → j < start' → j < n → ¬ p j) :
    slotsFrom p start n = slotsFrom p start' n := by
  induction start', hle using Nat.le_induction with
  | base => rfl
  | succ start' hle ih =>
    rw [ih fun j hj hj' => hskip j hj (Nat.lt_succ_of_lt hj')]
    by_cases hlt : start' < n
    · rw [slotsFrom_of_lt hlt, if_neg (hskip start' hle (Nat.lt_succ_self _) hlt)]
    · rw [slotsFrom_of_le (Nat.le_of_not_lt hlt), slotsFrom_of_le (by omega)]

theorem slotsFrom_eq_cons (h : slotsFrom p start n = i :: rest) :
    start ≤ i ∧ i < n ∧ slotsFrom p (i + 1) n = rest := by
  obtain ⟨m, hm⟩ : ∃ m, n - start = m := ⟨_, rfl⟩
  induction m generalizing start with
  | zero =>
    rw [slotsFrom_of_le (by omega)] at h
    exact absurd h.symm (cons_ne_nil _ _)
  | succ m ih =>
    rw [slotsFrom_of_lt (by omega)] at h
    split_ifs at h with hp
    · obtain ⟨rfl, hrest⟩ := List.cons.inj h
      exact ⟨Nat.le_refl _, by omega, hrest⟩
    · have hspec := ih h (by omega)
      exact ⟨by omega, hspec.2⟩

end Slots

section Scan

variable {s s' : MaxHeap} {count : ℕ → ℕ} {bucket : ℕ → KeyValuePair} {start n itemNo : ℕ}
  {bs rest : List ℕ} {left : List (ℕ × ℕ)} {cache : IterationCache}

theorem scanSlots_of_nil (h : slotsFrom (fun i => (bucket i).key = key) start n = []) :
    scanSlots bucket key itemNo (n - start) start itemNo = (none, itemNo) := by
  obtain ⟨m, hm⟩ : ∃ m, n - start = m := ⟨_, rfl⟩
  rw [hm]
  induction m generalizing start with
  | zero => rfl
  | succ m ih =>
    rw [slotsFrom_of_lt (by omega)] at h
    split_ifs at h with hkey
    rw [scanSlots, if_neg hkey]
    exact ih h (by omega)

theorem scanSlots_of_cons (h : slotsFrom (fun i => (bucket i).key = key) start n = i :: rest) :
    scanSlots bucket key itemNo (n - start) start itemNo = (some i, itemNo + 1) := by
  obtain ⟨m, hm⟩ : ∃ m, n - start = m := ⟨_, rfl⟩
  rw [hm]
  induction m generalizing start with
  | zero =>
    rw [slotsFrom_of_le (by omega)] at h
    exact absurd h.symm (cons_ne_nil _ _)
  | succ m ih =>
    rw [slotsFrom_of_lt (by omega)] at h
    split_ifs at h with hkey
    · rw [scanSlots, if_pos hkey, if_pos rfl, (List.cons.inj h).1]
    · rw [scanSlots, if_neg hkey]
      exact ih h (by omega)

/-- The slots of a bucket that have a key, from a slot on. -/
def keySlots (s : MaxHeap) (count : ℕ → ℕ) (key : BitVec 16) (start b : ℕ) : List ℕ :=
  slotsFrom (fun i => (s.pairs b i).key = key) start (count b)

/-- What is left for a search: the pairs with the key in the buckets, from a slot on. -/
def remaining (s : MaxHeap) (count : ℕ → ℕ) (key : BitVec 16) (start : ℕ) (bs : List ℕ) :
    List (ℕ × ℕ) :=
  bs.flatMap fun b => (keySlots s count key start b).map fun i => (b, i)

theorem remaining_cons : remaining s count key start (b :: bs) =
    (keySlots s count key start b).map (fun i => (b, i)) ++ remaining s count key start bs :=
  flatMap_cons

theorem SameFiles.remaining (h : SameFiles s s') (count : ℕ → ℕ) (key : BitVec 16) (start : ℕ)
    (bs : List ℕ) :
    Antelope.remaining s' count key start bs = Antelope.remaining s count key start bs := by
  rw [Antelope.remaining, Antelope.remaining]
  refine flatMap_congr fun b _ => ?_
  rw [keySlots, keySlots, h.pairs]

/-- The slots in a copy of a bucket. -/
theorem keySlots_eq_of_copy (key : BitVec 16) (start : ℕ)
    (hcopy : ∀ i < count b, bucket i = s.pairs b i) :
    slotsFrom (fun i => (bucket i).key = key) start (count b) = keySlots s count key start b := by
  rw [keySlots, slotsFrom, slotsFrom]
  refine filter_congr fun i hi => ?_
  have hmem := mem_range'_1.mp hi
  rw [hcopy i (by omega)]

/-- Buckets further up have the key only behind the slot that has been found. -/
theorem Holds.remaining_skip (h : Holds cfg s count) (hdec : ∀ b' ∈ bs, b' < b) (hle : start ≤ i)
    (hi : i < count b) (hkey : (s.pairs b i).key = key) :
    remaining s count key start bs = remaining s count key (i + 1) bs := by
  refine flatMap_congr fun b' hb' => ?_
  rw [keySlots, keySlots, slotsFrom_skip (Nat.le_succ_of_le hle)]
  intro j _ hj hcount hjkey
  have hlt := h.ordered b' b j i (hdec b' hb') hcount hi (hjkey.trans hkey.symm)
  omega

/-- A search that has counted what it has returned, and what is left for it. -/
structure Searching (s : MaxHeap) (count : ℕ → ℕ) (key : BitVec 16) (itemNo : ℕ)
    (cache : IterationCache) (left : List (ℕ × ℕ)) : Prop where
  found : cache.foundItems = itemNo
  decreasing : cache.buckets.Pairwise (· > ·)
  left : remaining s count key cache.start cache.buckets = left

/-- The index is read. -/
structure Reads (cfg : MaxHeapConfig) (s : MaxHeap) (count : ℕ → ℕ) (s' : MaxHeap) : Prop
    extends SameFiles s s' where
  holds : Holds cfg s' count

theorem scanBuckets_cons {e : ℕ} (hload : s.bucketLoad cfg b = some (e, s')) :
    scanBuckets cfg key itemNo (b :: bs) s cache =
      match scanSlots (s'.cache e).bucket key itemNo (s'.nextFreeSlot b - cache.start) cache.start
          cache.foundItems with
      | (some i, foundItems) =>
        (.item ((s'.cache e).bucket i).value, s',
          { cache with foundItems, start := i + 1, buckets := b :: bs })
      | (none, foundItems) => scanBuckets cfg key itemNo bs s' { cache with foundItems } := by
  rw [scanBuckets, hload] <;> rfl

/-- Whatever is looked for, the index is only read. -/
theorem Holds.scanBuckets_reads (h : Holds cfg s count) (key : BitVec 16) (itemNo : ℕ)
    (bs : List ℕ) (cache : IterationCache) :
    Reads cfg s count (scanBuckets cfg key itemNo bs s cache).2.1 := by
  induction bs generalizing s cache with
  | nil => exact ⟨SameFiles.refl s, h⟩
  | cons b bs ih =>
    obtain ⟨e, s', hload, hholds, hfiles, -, -⟩ := h.bucketLoad b
    rw [scanBuckets_cons hload]
    cases scanSlots (s'.cache e).bucket key itemNo (s'.nextFreeSlot b - cache.start) cache.start
        cache.foundItems with
    | mk slot foundItems =>
      cases slot with
      | some i => exact ⟨hfiles, hholds⟩
      | none =>
        have hreads := ih hholds { cache with foundItems }
        exact ⟨hfiles.trans hreads.toSameFiles, hreads.holds⟩

theorem Holds.scanBuckets_finished (h : Holds cfg s count) (hfound : cache.foundItems = itemNo)
    (hleft : remaining s count key cache.start bs = []) :
    ∃ s' cache', scanBuckets cfg key itemNo bs s cache = (.finished, s', cache') := by
  induction bs generalizing s cache with
  | nil => exact ⟨s, { cache with buckets := [] }, rfl⟩
  | cons b bs ih =>
    obtain ⟨e, s', hload, hholds, hfiles, hnext, hcopy⟩ := h.bucketLoad b
    rw [remaining_cons, append_eq_nil_iff, map_eq_nil_iff] at hleft
    rw [scanBuckets_cons hload, hnext, hfound]
    have hslots := (keySlots_eq_of_copy key cache.start hcopy).trans hleft.1
    rw [scanSlots_of_nil hslots]
    refine ih hholds rfl ?_
    rw [hfiles.remaining]
    exact hleft.2

/-- **An item is found**: it is the first of what is left. -/
theorem Holds.scanBuckets_item (cache : IterationCache) (h : Holds cfg s count)
    (hfound : cache.foundItems = itemNo)
    (hdec : bs.Pairwise (· > ·))
    (hleft : remaining s count key cache.start bs = (b, i) :: left) :
    ∃ s' cache', scanBuckets cfg key itemNo bs s cache = (.item (s.pairs b i).value, s', cache') ∧
      Searching s count key (itemNo + 1) cache' left ∧
      cache'.indexIterator = cache.indexIterator := by
  induction bs generalizing s cache with
  | nil => exact absurd hleft.symm (cons_ne_nil _ _)
  | cons b₀ bs ih =>
    obtain ⟨e, s', hload, hholds, hfiles, hnext, hcopy⟩ := h.bucketLoad b₀
    obtain ⟨hdecHead, hdecTail⟩ := pairwise_cons.mp hdec
    rw [remaining_cons] at hleft
    rw [scanBuckets_cons hload, hnext, hfound]
    have hslots := keySlots_eq_of_copy key cache.start hcopy
    cases hkeys : keySlots s count key cache.start b₀ with
    | nil =>
      rw [hkeys] at hslots hleft
      rw [scanSlots_of_nil hslots]
      have hleft' : remaining s' count key cache.start bs = (b, i) :: left := by
        rw [hfiles.remaining]
        exact hleft
      obtain ⟨s'', cache', hscan, hsearch, hiter⟩ :=
        ih { cache with foundItems := itemNo } hholds rfl hdecTail hleft'
      refine ⟨s'', cache', ?_, ⟨hsearch.found, hsearch.decreasing, ?_⟩, hiter⟩
      · rw [← hfiles.pairs]
        exact hscan
      · rw [← hfiles.remaining]
        exact hsearch.left
    | cons i₀ rest =>
      rw [hkeys] at hslots hleft
      rw [scanSlots_of_cons hslots]
      obtain ⟨hhead, hrest⟩ := List.cons.inj hleft
      obtain ⟨rfl, rfl⟩ := Prod.mk.inj hhead
      obtain ⟨hle, hlt, htail⟩ := slotsFrom_eq_cons hkeys
      have hkey : (s.pairs b₀ i₀).key = key := by
        have hmem : i₀ ∈ keySlots s count key cache.start b₀ := hkeys ▸ mem_cons_self
        simpa using (mem_filter.mp hmem).2
      refine ⟨s', { cache with foundItems := itemNo + 1, start := i₀ + 1, buckets := b₀ :: bs },
        ?_, ⟨rfl, hdec, ?_⟩, rfl⟩
      · dsimp only
        rw [hcopy i₀ hlt]
      · show remaining s count key (i₀ + 1) (b₀ :: bs) = left
        rw [remaining_cons, ← h.remaining_skip (fun b' hb' => hdecHead b' hb') hle hlt hkey,
          keySlots, htail]
        exact hrest

end Scan

/-! ## Iterations -/

section Iterations

variable {s s' : MaxHeap} {count : ℕ → ℕ} {iterator iterator' : IndexIterator}
  {cache cache' : IterationCache} {left : List (ℕ × ℕ)} {items : List (BitVec 32)}

/-- The static variable that a call of `get_next` goes on with. -/
def currentCache (cfg : MaxHeapConfig) (s : MaxHeap) (iterator : IndexIterator)
    (cache : IterationCache) : IterationCache :=
  if cache.indexIterator ≠ some iterator.address ∨ iterator.nextItemNo = 0 then
    IterationCache.ofIterator cfg s iterator
  else cache

theorem currentCache_address :
    (currentCache cfg s iterator cache).indexIterator = some iterator.address := by
  rw [currentCache]
  split_ifs with h
  · rfl
  · exact not_not.mp fun hne => h (Or.inl hne)

/-- The key that an iterator is at. -/
def IndexIterator.currentKey (iterator : IndexIterator) : BitVec 16 := BitVec.ofNat 16 iterator.minValue

/-- The iterator at the next key. -/
def IndexIterator.next (iterator : IndexIterator) : IndexIterator :=
  { iterator with nextItemNo := 0, minValue := iterator.minValue + 1 }

/-- The search of a call of `get_next`. -/
def currentScan (cfg : MaxHeapConfig) (iterator : IndexIterator) (s : MaxHeap)
    (cache : IterationCache) :=
  scanBuckets cfg iterator.currentKey iterator.nextItemNo (currentCache cfg s iterator cache).buckets
    s (currentCache cfg s iterator cache)

theorem getNextLoop_eq (cfg : MaxHeapConfig) (fuel : ℕ) (iterator : IndexIterator) (s : MaxHeap)
    (cache : IterationCache) :
    getNextLoop cfg fuel iterator s cache = match currentScan cfg iterator s cache with
      | (.item value, s, cache) =>
        (some (value.setWidth 32), { iterator with nextItemNo := iterator.nextItemNo + 1 }, s, cache)
      | (.failed, s, cache) => (none, iterator, s, cache)
      | (.finished, s, cache) =>
        match fuel with
        | 0 => (none, iterator, s, cache)
        | fuel + 1 => getNextLoop cfg fuel iterator.next s cache := by
  rw [getNextLoop.eq_def]
  rfl

theorem Holds.currentScan_reads (h : Holds cfg s count) (iterator : IndexIterator)
    (cache : IterationCache) : Reads cfg s count (currentScan cfg iterator s cache).2.1 :=
  h.scanBuckets_reads _ _ _ _

/-- **A call of `get_next`** only reads the index. -/
theorem Holds.getNextLoop_reads {s : MaxHeap} (h : Holds cfg s count) (fuel : ℕ)
    (iterator : IndexIterator) (cache : IterationCache) : Reads cfg s count (getNextLoop cfg fuel iterator s cache).2.2.1 := by
  have hreads := h.currentScan_reads iterator cache
  rw [getNextLoop_eq]
  generalize currentScan cfg iterator s cache = scan at hreads ⊢
  obtain ⟨result, s', cache'⟩ := scan
  cases result with
  | item value => exact hreads
  | failed => exact hreads
  | finished =>
    cases fuel with
    | zero => exact hreads
    | succ fuel =>
      have hnext := hreads.holds.getNextLoop_reads fuel iterator.next cache'
      exact ⟨hreads.toSameFiles.trans hnext.toSameFiles, hnext.holds⟩

/-- The calls of `get_next` until there is no more. -/
inductive Iteration (cfg : MaxHeapConfig) :
    IndexIterator → MaxHeap → IterationCache → List (BitVec 32) → Prop
  | finished {iterator iterator' : IndexIterator} {s s' : MaxHeap} {cache cache' : IterationCache}
      (h : getNext cfg iterator s cache = (none, iterator', s', cache')) :
      Iteration cfg iterator s cache []
  | item {iterator iterator' : IndexIterator} {s s' : MaxHeap} {cache cache' : IterationCache}
      {v : BitVec 32} {vs : List (BitVec 32)}
      (h : getNext cfg iterator s cache = (some v, iterator', s', cache'))
      (rest : Iteration cfg iterator' s' cache' vs) : Iteration cfg iterator s cache (v :: vs)

theorem Iteration.congr
    (h : getNext cfg iterator s cache = getNext cfg iterator' s' cache')
    (hiter : Iteration cfg iterator' s' cache' items) : Iteration cfg iterator s cache items := by
  cases hiter with
  | finished hnone => exact .finished (h.trans hnone)
  | item hsome rest => exact .item (h.trans hsome) rest

/-- The tuples of what is left for a search. -/
def tuplesOf (s : MaxHeap) (left : List (ℕ × ℕ)) : List (BitVec 32) :=
  left.map fun p => (s.pairs p.1 p.2).value.setWidth 32

theorem SameFiles.tuplesOf (h : SameFiles s s') (left : List (ℕ × ℕ)) :
    Antelope.tuplesOf s' left = Antelope.tuplesOf s left := by
  rw [Antelope.tuplesOf, Antelope.tuplesOf, h.pairs]

theorem Searching.congr {itemNo : ℕ} (h : Searching s count key itemNo cache left)
    (hfiles : SameFiles s s') : Searching s' count key itemNo cache left :=
  ⟨h.found, h.decreasing, (hfiles.remaining count key _ _).trans h.left⟩

/-- **The items of a key** are returned one after the other; then it goes on with `rest`. -/
theorem Holds.iteration_key {rest : List (BitVec 32)} (h : Holds cfg s count)
    (hsearch : Searching s count iterator.currentKey iterator.nextItemNo
      (currentCache cfg s iterator cache) left)
    (hrest : if iterator.minValue < iterator.maxValue then
        ∀ s' cache', Reads cfg s count s' → Iteration cfg iterator.next s' cache' rest
      else rest = []) :
    Iteration cfg iterator s cache (tuplesOf s left ++ rest) := by
  induction left generalizing s iterator cache with
  | nil =>
    have hreads := h.currentScan_reads iterator cache
    obtain ⟨s', cache', hscan⟩ := h.scanBuckets_finished hsearch.found hsearch.left
    change currentScan cfg iterator s cache = _ at hscan
    rw [hscan] at hreads
    show Iteration cfg iterator s cache rest
    by_cases hmore : iterator.minValue < iterator.maxValue
    · rw [if_pos hmore] at hrest
      refine Iteration.congr ?_ (hrest s' cache' hreads)
      obtain ⟨fuel, hfuel⟩ : ∃ fuel, iterator.maxValue - iterator.minValue = fuel + 1 :=
        ⟨iterator.maxValue - iterator.minValue - 1, by omega⟩
      rw [getNext, hfuel, getNextLoop_eq, hscan, getNext]
      refine congrArg (fun n => getNextLoop cfg n iterator.next s' cache') ?_
      show fuel = iterator.maxValue - (iterator.minValue + 1)
      omega
    · rw [if_neg hmore] at hrest
      rw [hrest]
      have hget : getNext cfg iterator s cache = (none, iterator, s', cache') := by
        rw [getNext, Nat.sub_eq_zero_of_le (Nat.le_of_not_lt hmore), getNextLoop_eq, hscan]
      exact Iteration.finished hget
  | cons p left ih =>
    have hreads := h.currentScan_reads iterator cache
    obtain ⟨s', cache', hscan, hnext, haddress⟩ :=
      h.scanBuckets_item _ hsearch.found hsearch.decreasing hsearch.left
    change currentScan cfg iterator s cache = _ at hscan
    rw [hscan] at hreads
    have hget : getNext cfg iterator s cache = (some ((s.pairs p.1 p.2).value.setWidth 32),
        { iterator with nextItemNo := iterator.nextItemNo + 1 }, s', cache') := by
      rw [getNext, getNextLoop_eq, hscan]
    have hcurrent : currentCache cfg s'
        { iterator with nextItemNo := iterator.nextItemNo + 1 } cache' = cache' := by
      rw [currentCache]
      refine if_neg ?_
      rintro (hne | hzero)
      · exact hne (haddress.trans currentCache_address)
      · exact Nat.succ_ne_zero _ hzero
    refine Iteration.item hget ?_
    show Iteration cfg _ s' cache' (tuplesOf s left ++ rest)
    rw [← hreads.tuplesOf]
    refine ih hreads.holds ?_ ?_
    · rw [hcurrent]
      exact hnext.congr hreads.toSameFiles
    · by_cases hmore : iterator.minValue < iterator.maxValue
      · rw [if_pos hmore] at hrest
        rw [if_pos hmore]
        intro s'' cache'' hreads'
        exact hrest s'' cache'' ⟨hreads.toSameFiles.trans hreads'.toSameFiles, hreads'.holds⟩
      · rw [if_neg hmore] at hrest
        rw [if_neg hmore]
        exact hrest

/-- The tuples that are found for a key. -/
def keyItems (cfg : MaxHeapConfig) (s : MaxHeap) (count : ℕ → ℕ) (k : ℕ) : List (BitVec 32) :=
  tuplesOf s (remaining s count (BitVec.ofNat 16 k) 0
    (pathOf cfg s.nodes (BitVec.ofNat 16 k)).reverse)

theorem SameFiles.keyItems (h : SameFiles s s') (k : ℕ) :
    Antelope.keyItems cfg s' count k = Antelope.keyItems cfg s count k := by
  rw [Antelope.keyItems, Antelope.keyItems, h.tuplesOf, h.remaining, h.nodes]

/-- **An iteration over a range** returns what is found for its keys. -/
theorem Holds.iteration (h : Holds cfg s count) (address min n : ℕ) (cache : IterationCache) :
    Iteration cfg ⟨address, min, min + n, 0⟩ s cache
      ((range' min (n + 1)).flatMap (keyItems cfg s count)) := by
  have hsearch (s : MaxHeap) (min n : ℕ) (cache : IterationCache) :
      Searching s count (IndexIterator.currentKey ⟨address, min, min + n, 0⟩) 0
        (currentCache cfg s ⟨address, min, min + n, 0⟩ cache)
        (remaining s count (BitVec.ofNat 16 min) 0
          (pathOf cfg s.nodes (BitVec.ofNat 16 min)).reverse) := by
    rw [currentCache, if_pos (Or.inr rfl)]
    exact ⟨rfl, pairwise_reverse.mpr (heapPath_increasing _ _ _ _), rfl⟩
  induction n generalizing min s cache with
  | zero =>
    refine h.iteration_key (hsearch s min 0 cache) ?_
    rw [if_neg (by dsimp only; omega)]
    rfl
  | succ n ih =>
    rw [range'_succ, flatMap_cons]
    refine h.iteration_key (hsearch s min (n + 1) cache) ?_
    rw [if_pos (by dsimp only; omega)]
    intro s' cache' hreads
    have hnext := ih hreads.holds (min + 1) cache'
    have hitems : keyItems cfg s' count = keyItems cfg s count :=
      funext fun k => hreads.keyItems k
    rw [hitems, Nat.add_right_comm] at hnext
    exact hnext

end Iterations

/-! ## What is found is what has been inserted -/

section Found

variable {α β : Type*}

/-- Parts that are empty may be left out. -/
theorem flatMap_perm_of_subset {l l' : List ℕ} {f : ℕ → List α} (hl : l.Nodup) (hl' : l'.Nodup)
    (hsub : ∀ b ∈ l', b ∈ l) (hempty : ∀ b ∈ l, b ∉ l' → f b = []) :
    (l.flatMap f).Perm (l'.flatMap f) := by
  have hin : (l.filter fun b => b ∈ l').Perm l' := by
    rw [perm_ext_iff_of_nodup (hl.filter _) hl']
    intro b
    rw [mem_filter, decide_eq_true_eq]
    exact ⟨fun hb => hb.2, fun hb => ⟨hsub b hb, hb⟩⟩
  have hout : (l.filter fun b => !decide (b ∈ l')).flatMap f = [] := by
    rw [flatMap_eq_nil_iff]
    intro b hb
    obtain ⟨hmem, hnot⟩ := mem_filter.mp hb
    exact hempty b hmem (by simpa using hnot)
  have hsplit := (filter_append_perm (fun b => decide (b ∈ l')) l).symm.flatMap_right f
  rw [flatMap_append, hout, append_nil] at hsplit
  exact hsplit.trans (hin.flatMap_right f)

/-- The elements whose values are in a range, value by value. -/
theorem flatMap_range_perm_filter (l : List α) (f : α → ℕ) (a m : ℕ) :
    ((range' a m).flatMap fun k => l.filter fun x => f x = k).Perm
      (l.filter fun x => a ≤ f x ∧ f x < a + m) := by
  induction m generalizing a with
  | zero =>
    have hnone : (l.filter fun x => decide (a ≤ f x ∧ f x < a + 0)) = [] := by
      rw [filter_eq_nil_iff]
      intro x _ hx
      have hbounds := of_decide_eq_true hx
      omega
    rw [hnone]
    exact List.Perm.refl []
  | succ m ih =>
    rw [range'_succ, flatMap_cons]
    have hsplit := filter_append_perm (fun x => decide (f x = a))
      (l.filter fun x => a ≤ f x ∧ f x < a + (m + 1))
    rw [filter_filter, filter_filter] at hsplit
    have hfirst : (l.filter fun x => decide (f x = a) && decide (a ≤ f x ∧ f x < a + (m + 1))) =
        l.filter fun x => f x = a := by
      refine filter_congr fun x _ => ?_
      rw [← Bool.decide_and, decide_eq_decide]
      omega
    have hothers : (l.filter fun x => !decide (f x = a) && decide (a ≤ f x ∧ f x < a + (m + 1))) =
        l.filter fun x => a + 1 ≤ f x ∧ f x < a + 1 + m := by
      refine filter_congr fun x _ => ?_
      rw [← decide_not, ← Bool.decide_and, decide_eq_decide]
      omega
    rw [hfirst, hothers] at hsplit
    exact ((ih (a + 1)).append_left _).trans hsplit

variable {s : MaxHeap} {count : ℕ → ℕ}

theorem remaining_pairs (bs : List ℕ) :
    ((remaining s count key 0 bs).map fun p => s.pairs p.1 p.2) =
      bs.flatMap fun b => (slots s count b).filter fun pair => pair.key = key := by
  rw [remaining, map_flatMap]
  refine flatMap_congr fun b _ => ?_
  rw [keySlots, slotsFrom, slots, map_map, filter_map, Nat.sub_zero, range_eq_range']
  rfl

/-- The pairs with a key are found on its path. -/
theorem Holds.path_pairs_perm (h : Holds cfg s count) (key : BitVec 16) :
    ((remaining s count key 0 (pathOf cfg s.nodes key).reverse).map fun p => s.pairs p.1 p.2).Perm
      ((s.inserted.filter fun p => p.1 = key).map pairOf) := by
  rw [remaining_pairs]
  have hnodup : (pathOf cfg s.nodes key).reverse.Nodup :=
    pairwise_reverse.mpr ((heapPath_increasing _ _ _ _).imp Nat.ne_of_gt)
  have hstored := h.stored.filter fun pair => decide (pair.key = key)
  rw [filter_map, filter_flatMap] at hstored
  refine (flatMap_perm_of_subset nodup_range hnodup (fun b hb => ?_)
    (fun b _ hnot => ?_)).symm.trans hstored.symm
  · have hbound := mem_heapPath (mem_reverse.mp hb)
    exact mem_range.mpr (by omega)
  · rw [filter_eq_nil_iff]
    intro pair hpair hkey
    obtain ⟨i, hi, rfl⟩ := mem_map.mp hpair
    have hmem := h.onPath b i (mem_range.mp hi)
    rw [of_decide_eq_true hkey] at hmem
    exact hnot (mem_reverse.mpr hmem)

/-- **The tuples of a key** are found, each once. -/
theorem Holds.keyItems_perm (h : Holds cfg s count) {k : ℕ} (hk : k < 65536) :
    (keyItems cfg s count k).Perm ((s.inserted.filter fun p => p.1.toNat = k).map Prod.snd) := by
  have hperm := (h.path_pairs_perm (BitVec.ofNat 16 k)).map fun pair => pair.value.setWidth 32
  rw [map_map, map_map] at hperm
  refine hperm.trans (List.Perm.of_eq ?_)
  have hfilter : (s.inserted.filter fun p => decide (p.1 = BitVec.ofNat 16 k)) =
      s.inserted.filter fun p => p.1.toNat = k := by
    refine filter_congr fun p _ => ?_
    rw [decide_eq_decide, ← BitVec.toNat_inj, BitVec.toNat_ofNat, Nat.mod_eq_of_lt hk]
  rw [hfilter]
  refine map_congr_left fun p hp => ?_
  have htuple := h.tuples p (mem_filter.mp hp).1
  show (p.2.setWidth 16).setWidth 32 = p.2
  apply BitVec.eq_of_toNat_eq
  rw [BitVec.toNat_setWidth, BitVec.toNat_setWidth]
  omega

end Found

/-! ## Every run -/

/-- An iteration over a range returns the tuples inserted with a key in it, each once. -/
def FindsAll (cfg : MaxHeapConfig) (s : MaxHeap) (cache : IterationCache) : Prop :=
  ∀ address min max, min ≤ max → max < 65536 →
    ∃ tuples, Iteration cfg ⟨address, min, max, 0⟩ s cache tuples ∧
      tuples.Perm ((s.inserted.filter fun p => min ≤ p.1.toNat ∧ p.1.toNat ≤ max).map Prod.snd)

theorem Holds.findsAll {s : MaxHeap} {count : ℕ → ℕ} (h : Holds cfg s count)
    (cache : IterationCache) : FindsAll cfg s cache := by
  intro address min max hle hmax
  obtain ⟨n, rfl⟩ := Nat.exists_eq_add_of_le hle
  refine ⟨_, h.iteration address min n cache, ?_⟩
  have hkeys : ((range' min (n + 1)).flatMap (keyItems cfg s count)).Perm
      ((range' min (n + 1)).flatMap fun k =>
        (s.inserted.filter fun p => p.1.toNat = k).map Prod.snd) := by
    refine List.Perm.flatMap_left _ fun k hk => ?_
    have hbound := mem_range'_1.mp hk
    exact h.keyItems_perm (by omega)
  refine hkeys.trans ?_
  rw [← map_flatMap]
  refine (flatMap_range_perm_filter s.inserted (fun p => p.1.toNat) min (n + 1)).map Prod.snd
    |>.trans (List.Perm.of_eq (congrArg (map Prod.snd) ?_))
  refine filter_congr fun p _ => ?_
  rw [decide_eq_decide]
  omega

/-- The condition on what happens to an index, read on the state before it: an insertion that
succeeds fits, and no bucket with pairs is in the cache when the index is released and loaded. -/
def HeapFits (cfg : MaxHeapConfig) (state : MaxHeap × IterationCache) : HeapEvent → Prop
  | .insert key tuple writes =>
    ∀ b, (state.1.chooseBucket cfg key writes).1 = some b → state.1.nextFreeSlot b < bucketSize →
      writes.pair = true → InsertFits cfg state.1 key tuple b
  | .getNext _ => True
  | .reload => ∀ b, state.1.Cached cfg b → ∀ i, (state.1.pairs b i).Empty

theorem insertItem_writes {s : MaxHeap} {tuple : BitVec 32} {writes : Writes}
    (h : (s.insertItem cfg key tuple writes).1 = true) : writes.pair = true := by
  rw [MaxHeap.insertItem] at h
  cases hchoose : s.chooseBucket cfg key writes with
  | mk chosen nodes =>
    rw [hchoose] at h
    cases chosen with
    | none => exact absurd h Bool.false_ne_true
    | some b =>
      dsimp only at h
      rw [MaxHeap.bucketAppend] at h
      by_contra hfail
      rw [if_pos (Or.inr (Bool.eq_false_iff.mpr hfail))] at h
      exact Bool.false_ne_true h

theorem Holds.insertItem {s : MaxHeap} {count : ℕ → ℕ} {tuple : BitVec 32} {writes : Writes}
    (h : Holds cfg s count)
    (hfits : ∀ b, (s.chooseBucket cfg key writes).1 = some b → s.nextFreeSlot b < bucketSize →
      writes.pair = true → InsertFits cfg s key tuple b) :
    ∃ count', Holds cfg (s.insertItem cfg key tuple writes).2 count' := by
  cases insertItem_cases cfg s key tuple writes with
  | inl hfail =>
    rw [hfail]
    exact ⟨count, h.extend (chooseBucket_extends s key writes)⟩
  | inr happend =>
    obtain ⟨b, hchosen, hroom, hinsert⟩ := happend
    have hpair := insertItem_writes (congrArg Prod.fst hinsert)
    obtain ⟨hpath, hlast⟩ := chooseBucket_spec (Prod.ext hchosen rfl)
    rw [hinsert]
    exact ⟨_, h.appended (hfits b hchosen hroom hpair) (chooseBucket_extends s key writes) hpath
      hlast hroom⟩

/-- **One event** keeps what holds of the index. -/
theorem Holds.step {state : MaxHeap × IterationCache} {count : ℕ → ℕ} {event : HeapEvent}
    (h : Holds cfg state.1 count) (hfits : HeapFits cfg state event) :
    ∃ count', Holds cfg (MaxHeap.step cfg state event).1 count' := by
  cases event with
  | insert key tuple writes => exact h.insertItem hfits
  | getNext iterator => exact ⟨count, (h.getNextLoop_reads _ iterator state.2).holds⟩
  | reload =>
    have hzero : ∀ b, state.1.Cached cfg b → count b = 0 := by
      intro b hcached
      by_contra hne
      exact h.used b 0 (Nat.pos_of_ne_zero hne) (hfits b hcached 0)
    refine ⟨count, h.reread ⟨rfl, rfl, rfl⟩ (fun b => Or.inr rfl) (fun b hcached => ?_) h.copied⟩
    exact (hzero b hcached).symm

theorem holds_create (cfg : MaxHeapConfig) (bucket : ℕ → ℕ → KeyValuePair) :
    Holds cfg (.create bucket) fun _ => 0 where
  count_le _ := Nat.zero_le _
  slot _ := Or.inl rfl
  used _ _ hi := absurd hi (Nat.not_lt_zero _)
  unused _ _ _ := ⟨rfl, rfl⟩
  loaded _ _ := rfl
  copied _ _ _ _ _ hi := absurd hi (Nat.not_lt_zero _)
  onPath _ _ hi := absurd hi (Nat.not_lt_zero _)
  ordered _ _ _ _ _ hi := absurd hi (Nat.not_lt_zero _)
  tuples _ hp := absurd hp not_mem_nil
  stored := by
    have hnil : (range nodeLimit).flatMap (slots (.create bucket) fun _ => 0) = [] := by
      rw [flatMap_eq_nil_iff]
      intro b _
      rfl
    rw [hnil]
    exact List.Perm.refl []

/-- The index after a run. -/
def MaxHeap.after (cfg : MaxHeapConfig) (state : MaxHeap × IterationCache)
    (events : List HeapEvent) : MaxHeap × IterationCache :=
  events.foldl (MaxHeap.step cfg) state

/-- Every event of a run fits. -/
def HeapFitsAlong (cfg : MaxHeapConfig) (state : MaxHeap × IterationCache)
    (events : List HeapEvent) : Prop :=
  Along (fun s e => some (MaxHeap.step cfg s e)) (HeapFits cfg) state events

theorem one_pos : 0 < 1 := Nat.one_pos

/-- One entry in the cache, and keys that are their own hashes. -/
def oneEntry : MaxHeapConfig := ⟨id, 1, one_pos⟩

/-- An index in which nothing has been inserted. -/
def emptyIndex : MaxHeap × IterationCache := (.create fun _ _ => ⟨0, 0⟩, ⟨none, 0, 0, []⟩)

/-- Everything is written. -/
def allWritten : Writes := ⟨true, true, true⟩

theorem one_setWidth_ne_zero : (1#32).setWidth 16 ≠ 0 := by decide

theorem heapFits_first (key : BitVec 16) :
    HeapFitsAlong oneEntry emptyIndex [.insert key 1 allWritten, .getNext ⟨0, 5, 5, 0⟩] := by
  refine ⟨fun b _ _ _ => ⟨?_, fun _ _ => ⟨rfl, rfl⟩, ?_, by decide, ?_⟩, trivial, trivial⟩
  · intro hcached
    obtain ⟨e, -, hid⟩ := hcached
    exact absurd hid.symm (Option.some_ne_none b)
  · intro b' i _ hused _
    exact absurd ⟨rfl, rfl⟩ hused
  · intro hempty
    exact absurd hempty.2 one_setWidth_ne_zero

/-- The bucket is in the cache when the second pair is appended. -/
def appendedBehindCopy : MaxHeap × IterationCache :=
  MaxHeap.after oneEntry emptyIndex
    [.insert 5 1 allWritten, .getNext ⟨0, 5, 5, 0⟩, .insert 5 2 allWritten]

end Asap.Antelope
