import Mathlib

/-!
# The inline index

The inline index of an attribute is the order of the rows: the attribute is non-decreasing from one
row to the next, and a value is looked up by bisection. A range of values is a range of rows, from
the row that the search for the least value ends at to the one for the greatest.

Numbers of rows are words, and the bounds of the bisection are not kept apart from their wrap: below
row 0 comes the greatest word. A row that is not in the file leaves the buffer for it as it is, and
the caller does not notice, because `DB_FINISHED` is no error. The search stops at whichever row with
the value it meets first.

## Main definitions

* `InlineIndex` — the rows, and what is in the buffer when there is no such row.
* `InlineIndex.iterate` — the rows that `get_next` returns one after the other.
* `SearchedRight` — what is wanted of the rows.
* `firstMiddle`, `SearchCondition` — when they are right.

## Main results

* `inline_search` — the rows are right exactly under the condition.
-/

namespace Asap.Antelope

open List Nat
open BitVec (toNat_sub_of_le toNat_add)

/-- `INVALID_TUPLE` -/
def invalidTuple : BitVec 32 := -1

/-- The attribute in the rows of the file, and what is in the buffer of a row that is not there. -/
structure InlineIndex where
  rows : List ℤ
  junk : BitVec 32 → ℤ
  fits : rows.length < 2 ^ 32 - 1

/-- `index_iterator_t` -/
structure InlineIterator where
  minValue : ℤ
  maxValue : ℤ
  nextItemNo : BitVec 32

/-- `cached_start` and `cached_end` -/
structure CachedRange where
  cachedStart : BitVec 32
  cachedEnd : BitVec 32

namespace InlineIndex

variable (ix : InlineIndex)

/-- `relation_cardinality` -/
def cardinality : BitVec 32 := BitVec.ofNat 32 ix.rows.length

/-- `get_value` -/
def getValue (index : BitVec 32) : ℤ := ix.rows[index.toNat]?.getD (ix.junk index)

/-- The loop of `binary_search`, with a number of rounds: the last row, and all that were read. -/
def binarySearchLoop (targetValue : ℤ) :
    ℕ → BitVec 32 → BitVec 32 → Option (BitVec 32 × List (BitVec 32))
  | 0, _, _ => none
  | fuel + 1, min, max =>
    let center := min + (max - min) / 2
    let cmpValue := ix.getValue center
    let min' := if targetValue > cmpValue then center + 1 else min
    let max' := if targetValue > cmpValue then max else center - 1
    if min' ≤ max' ∧ targetValue ≠ cmpValue then
      (binarySearchLoop targetValue fuel min' max').map fun found => (found.1, center :: found.2)
    else some (center, [center])

/-- `binary_search` -/
def binarySearch (fuel : ℕ) (targetValue : ℤ) (exactMatch : Bool) :
    Option (BitVec 32 × List (BitVec 32)) :=
  if ix.cardinality = invalidTuple then some (invalidTuple, [])
  else
    (ix.binarySearchLoop targetValue fuel 0 (ix.cardinality - 1)).map fun found =>
      (if exactMatch && targetValue ≠ ix.getValue found.1 then invalidTuple else found.1, found.2)

/-- `range_search`, with the rows that were read. Its result is left out: it is unsigned, so for
`DB_ERROR` it is never an error. -/
def rangeSearch (fuel : ℕ) (it : InlineIterator) (cache : CachedRange) :
    Option (CachedRange × List (BitVec 32)) := do
  let exactMatch := decide (it.minValue = it.maxValue)
  let (start, touched) ← ix.binarySearch fuel it.minValue exactMatch
  if start = invalidTuple then return ({ cache with cachedStart := start }, touched)
  let (stop, touched') ← ix.binarySearch fuel it.maxValue exactMatch
  return (⟨start, stop⟩, touched ++ touched')

/-- `get_next`, with the rows that were read. -/
def getNext (fuel : ℕ) (it : InlineIterator) (cache : CachedRange) :
    Option (BitVec 32 × InlineIterator × CachedRange × List (BitVec 32)) :=
  if it.nextItemNo = 0 then do
    let (cache, touched) ← ix.rangeSearch fuel it cache
    return (cache.cachedStart, { it with nextItemNo := it.nextItemNo + 1 }, cache, touched)
  else if cache.cachedStart + it.nextItemNo ≤ cache.cachedEnd then
    some (cache.cachedStart + it.nextItemNo, { it with nextItemNo := it.nextItemNo + 1 }, cache, [])
  else some (invalidTuple, it, cache, [])

/-- The rows that an iterator returns until there are no more, and the rows that were read. -/
def iterate (fuel : ℕ) : ℕ → InlineIterator → CachedRange →
    Option (List (BitVec 32) × List (BitVec 32))
  | 0, _, _ => none
  | rounds + 1, it, cache => do
    let (index, it, cache, touched) ← ix.getNext fuel it cache
    if index = invalidTuple then return ([], touched)
    let (indexes, touched') ← iterate fuel rounds it cache
    return (index :: indexes, touched ++ touched')

end InlineIndex

/-! ## What is expected -/

/-- The rows that are read are in the file, and so are those that are returned. They follow one
another, and all rows with a value in the range are among them; for a range of one value there are
no others. -/
structure SearchedRight (ix : InlineIndex) (least greatest : ℤ) (indexes touched : List (BitVec 32)) :
    Prop where
  touched_lt : ∀ i ∈ touched, i.toNat < ix.rows.length
  indexes_lt : ∀ i ∈ indexes, i.toNat < ix.rows.length
  contiguous : ∃ first, indexes.map BitVec.toNat = List.range' first indexes.length
  all : ∀ i (h : i < ix.rows.length), least ≤ ix.rows[i] → ix.rows[i] ≤ greatest →
    i ∈ indexes.map BitVec.toNat
  exact : least = greatest → ∀ i ∈ indexes, ix.rows[i.toNat]? = some least

/-- The iteration comes to its end, and its rows are right. -/
def Searches (ix : InlineIndex) (least greatest : ℤ) (cache : CachedRange) : Prop :=
  ∃ fuel rounds indexes touched,
    ix.iterate fuel rounds ⟨least, greatest, 0⟩ cache = some (indexes, touched) ∧
      SearchedRight ix least greatest indexes touched

/-- The first middle in a block of rows, when the rows from `min` to `max` are halved towards it. -/
def firstMiddle (first last min max : ℕ) : ℕ :=
  let center := min + (max - min) / 2
  if center < first ∧ center < max then firstMiddle first last (center + 1) max
  else if last < center ∧ min < center then firstMiddle first last min (center - 1)
  else center
termination_by max - min

/-- The rows with a value are those of a block. -/
def IsBlock (ix : InlineIndex) (value : ℤ) (first last : ℕ) : Prop :=
  first ≤ last ∧ ∀ i, ix.rows[i]? = some value ↔ first ≤ i ∧ i ≤ last

/-- **The condition**: some row has a value that is no more than the least one. Of the rows with the
least value, the halving of the file meets the first one before the others, and of those with the
greatest value the last one. -/
def SearchCondition (ix : InlineIndex) (least greatest : ℤ) : Prop :=
  (∃ value ∈ ix.rows, value ≤ least) ∧
    (∀ first last, IsBlock ix least first last →
      firstMiddle first last 0 (ix.rows.length - 1) = first) ∧
    ∀ first last, IsBlock ix greatest first last →
      firstMiddle first last 0 (ix.rows.length - 1) = last

/-! ## The search -/

variable {ix : InlineIndex} {target : ℤ}

/-- The value in a row of the file. -/
def InlineIndex.value (ix : InlineIndex) (i : ℕ) : ℤ := ix.rows.getD i 0

theorem InlineIndex.value_eq {i : ℕ} (hi : i < ix.rows.length) : ix.rows[i]? = some (ix.value i) := by
  rw [InlineIndex.value, getD_eq_getElem?_getD, List.getElem?_eq_getElem hi, Option.getD_some]

theorem getValue_eq {index : BitVec 32} (hi : index.toNat < ix.rows.length) :
    ix.getValue index = ix.value index.toNat := by
  rw [InlineIndex.getValue, InlineIndex.value_eq hi, Option.getD_some]

theorem value_mono (hsorted : ix.rows.Pairwise (· ≤ ·)) {i j : ℕ} (hij : i ≤ j)
    (hj : j < ix.rows.length) : ix.value i ≤ ix.value j := by
  have hi : i < ix.rows.length := Nat.lt_of_le_of_lt hij hj
  have hvi : ix.rows[i] = ix.value i := Option.some.inj
    ((List.getElem?_eq_getElem hi).symm.trans (InlineIndex.value_eq hi))
  have hvj : ix.rows[j] = ix.value j := Option.some.inj
    ((List.getElem?_eq_getElem hj).symm.trans (InlineIndex.value_eq hj))
  rcases Nat.lt_or_eq_of_le hij with hlt | rfl
  · rw [← hvi, ← hvj]
    exact List.pairwise_iff_getElem.mp hsorted i j hi hj hlt
  · exact le_rfl

/-- A block holds the rows with its value. -/
theorem IsBlock.value_iff {first last i : ℕ} (h : IsBlock ix target first last)
    (hi : i < ix.rows.length) : ix.value i = target ↔ first ≤ i ∧ i ≤ last := by
  rw [← h.2 i, InlineIndex.value_eq hi, Option.some.injEq]

theorem IsBlock.last_lt {first last : ℕ} (h : IsBlock ix target first last) :
    last < ix.rows.length := by
  have hlast := (h.2 last).mpr ⟨h.1, le_rfl⟩
  exact (List.getElem?_eq_some_iff.mp hlast).1

section

variable {first last min max center : ℕ}

section

variable (hc : center = min + (max - min) / 2)

include hc

theorem firstMiddle_of_lt (hfirst : center < first)
    (hmax : center < max) :
    firstMiddle first last min max = firstMiddle first last (center + 1) max := by
  rw [firstMiddle]
  simp only [← hc]
  rw [if_pos ⟨hfirst, hmax⟩]

theorem firstMiddle_of_gt (hle : first ≤ last)
    (hlast : last < center) (hmin : min < center) :
    firstMiddle first last min max = firstMiddle first last min (center - 1) := by
  rw [firstMiddle]
  simp only [← hc]
  rw [if_neg (by omega), if_pos ⟨hlast, hmin⟩]

theorem firstMiddle_of_mem (hfirst : first ≤ center)
    (hlast : center ≤ last) : firstMiddle first last min max = center := by
  rw [firstMiddle]
  simp only [← hc]
  rw [if_neg (by omega), if_neg (by omega)]

end

end

/-- What a search ends at: the row with the value that is met first, or, if there is none, a row
between the lesser and the greater ones. -/
def EndsAt (ix : InlineIndex) (target : ℤ) (min max c : ℕ) : Prop :=
  c < ix.rows.length ∧
    ((ix.value c = target ∧
        ∀ first last, IsBlock ix target first last → firstMiddle first last min max = c) ∨
      (ix.value c ≠ target ∧ (∀ i < c, ix.value i < target) ∧
        ∀ i, c < i → i < ix.rows.length → target < ix.value i))

/-- **The loop**, where some row has a value that is no more than the target: it comes to its end, and
reads rows of the file only. -/
theorem binarySearchLoop_spec (hsorted : ix.rows.Pairwise (· ≤ ·)) (hfirst : ix.value 0 ≤ target)
    (fuel : ℕ) (min max : BitVec 32) (hle : min.toNat ≤ max.toNat)
    (hmax : max.toNat < ix.rows.length) (hfuel : max.toNat - min.toNat < fuel)
    (hbelow : ∀ i < min.toNat, ix.value i < target)
    (habove : ∀ i, max.toNat < i → i < ix.rows.length → target < ix.value i) :
    ∃ c touched, ix.binarySearchLoop target fuel min max = some (c, touched) ∧
      (∀ i ∈ touched, i.toNat < ix.rows.length) ∧
      EndsAt ix target min.toNat max.toNat c.toNat := by
  have hfits := ix.fits
  induction fuel generalizing min max with
  | zero => exact absurd hfuel (Nat.not_lt_zero _)
  | succ fuel ih =>
    have hcenter : (min + (max - min) / 2).toNat = min.toNat + (max.toNat - min.toNat) / 2 := by
      have hsub : (max - min).toNat = max.toNat - min.toNat := toNat_sub_of_le hle
      have htwo : ((2 : BitVec 32)).toNat = 2 := rfl
      rw [toNat_add, BitVec.toNat_udiv, hsub, htwo, mod_eq_of_lt (by omega)]
    generalize hc : min + (max - min) / 2 = center at hcenter
    have hin : center.toNat < ix.rows.length := by omega
    have hvalue := getValue_eq hin
    rw [InlineIndex.binarySearchLoop]
    simp only [hc, hvalue]
    rcases lt_trichotomy (ix.value center.toNat) target with hlt | heq | hgt
    · have hnext : (center + 1).toNat = center.toNat + 1 := by
        have hone : ((1 : BitVec 32)).toNat = 1 := rfl
        rw [toNat_add, hone, mod_eq_of_lt (by omega)]
      have hbelow' : ∀ i < center.toNat + 1, ix.value i < target := fun i hi =>
        (value_mono hsorted (le_of_lt_succ hi) hin).trans_lt hlt
      rw [if_pos hlt, if_pos hlt]
      by_cases hgo : center + 1 ≤ max
      · rw [if_pos ⟨hgo, hlt.ne'⟩]
        rw [BitVec.le_def, hnext] at hgo
        obtain ⟨c, touched, hloop, htouched, hclt, hends⟩ := ih (center + 1) max (by omega) hmax
          (by omega) (by rwa [hnext]) habove
        refine ⟨c, center :: touched, by rw [hloop]; rfl, ?_, hclt, ?_⟩
        · exact List.forall_mem_cons.mpr ⟨hin, htouched⟩
        · refine hends.imp_left fun ⟨hhit, hblock⟩ => ⟨hhit, fun first last hb => ?_⟩
          have hbefore : center.toNat < first := Nat.lt_of_not_le fun hle' =>
            ((hb.value_iff (by have := hb.last_lt; have := hb.1; omega)).mpr ⟨le_rfl, hb.1⟩).not_lt
              (hbelow' first (lt_succ_of_le hle'))
          rw [firstMiddle_of_lt hcenter hbefore (by omega), ← hnext]
          exact hblock first last hb
      · rw [if_neg fun hboth => hgo hboth.1]
        rw [BitVec.le_def, hnext] at hgo
        refine ⟨center, [center], rfl, by simpa using hin, hin, Or.inr ⟨hlt.ne, ?_, ?_⟩⟩
        · exact fun i hi => hbelow' i (by omega)
        · exact fun i hi => habove i (by omega)
    · have hnot : ¬ target > ix.value center.toNat := not_lt.mpr heq.ge
      rw [if_neg hnot, if_neg hnot, if_neg fun hboth => hboth.2 heq.symm]
      refine ⟨center, [center], rfl, by simpa using hin, hin, Or.inl ⟨heq, fun first last hb => ?_⟩⟩
      obtain ⟨hfst, hlst⟩ := (hb.value_iff hin).mp heq
      exact firstMiddle_of_mem hcenter hfst hlst
    · have hpos : center.toNat ≠ 0 := fun hzero => by
        rw [hzero] at hgt
        omega
      have hprev : (center - 1).toNat = center.toNat - 1 := by
        have hone : ((1 : BitVec 32)).toNat = 1 := rfl
        rw [toNat_sub_of_le (by rw [BitVec.le_def, hone]; omega), hone]
      have habove' : ∀ i, center.toNat - 1 < i → i < ix.rows.length → target < ix.value i :=
        fun i hi hlt => hgt.trans_le (value_mono hsorted (by omega) hlt)
      have hnot : ¬ target > ix.value center.toNat := not_lt.mpr hgt.le
      rw [if_neg hnot, if_neg hnot]
      by_cases hgo : min ≤ center - 1
      · rw [if_pos ⟨hgo, hgt.ne⟩]
        rw [BitVec.le_def, hprev] at hgo
        obtain ⟨c, touched, hloop, htouched, hclt, hends⟩ := ih min (center - 1) (by omega) (by omega)
          (by omega) hbelow (by rwa [hprev])
        refine ⟨c, center :: touched, by rw [hloop]; rfl, ?_, hclt, ?_⟩
        · exact List.forall_mem_cons.mpr ⟨hin, htouched⟩
        · refine hends.imp_left fun ⟨hhit, hblock⟩ => ⟨hhit, fun first last hb => ?_⟩
          have hbehind : last < center.toNat := Nat.lt_of_not_le fun hle' =>
            ((hb.value_iff hb.last_lt).mpr ⟨hb.1, le_rfl⟩).not_gt
              (habove' last (by omega) hb.last_lt)
          rw [firstMiddle_of_gt hcenter hb.1 hbehind (by omega), ← hprev]
          exact hblock first last hb
      · rw [if_neg fun hboth => hgo hboth.1]
        rw [BitVec.le_def, hprev] at hgo
        refine ⟨center, [center], rfl, by simpa using hin, hin, Or.inr ⟨hgt.ne', ?_, ?_⟩⟩
        · exact fun i hi => hbelow i (by omega)
        · exact fun i hi => habove' i (by omega)

/-- The loop, where all values are greater than the target: below row 0 it goes on with the greatest
word, so it reads a row that is not in the file, unless it goes on for ever. -/
theorem binarySearchLoop_below (hall : ∀ i < ix.rows.length, target < ix.value i) {fuel : ℕ}
    {max c : BitVec 32} {touched : List (BitVec 32)}
    (h : ix.binarySearchLoop target fuel 0 max = some (c, touched)) :
    ∃ i ∈ touched, ix.rows.length ≤ i.toNat := by
  induction fuel generalizing max c touched with
  | zero => cases h
  | succ fuel ih =>
    rw [InlineIndex.binarySearchLoop] at h
    generalize 0 + (max - 0) / 2 = center at h
    by_cases hin : center.toNat < ix.rows.length
    · have hgt : target < ix.getValue center := by
        rw [getValue_eq hin]
        exact hall _ hin
      have hnot : ¬ target > ix.getValue center := not_lt.mpr hgt.le
      rw [if_neg hnot, if_neg hnot, if_pos ⟨BitVec.le_def.mpr (Nat.zero_le _), hgt.ne⟩] at h
      obtain ⟨⟨c', touched'⟩, hloop, heq⟩ := Option.map_eq_some_iff.mp h
      obtain ⟨i, hi, hout⟩ := ih hloop
      rw [Prod.mk.injEq] at heq
      rw [← heq.2]
      exact ⟨i, mem_cons_of_mem _ hi, hout⟩
    · refine ⟨center, ?_, Nat.le_of_not_lt hin⟩
      generalize (if target > ix.getValue center then center + 1 else 0) = min' at h
      generalize (if target > ix.getValue center then max else center - 1) = max' at h
      split at h
      · obtain ⟨found, -, heq⟩ := Option.map_eq_some_iff.mp h
        rw [Prod.mk.injEq] at heq
        rw [← heq.2]
        exact mem_cons_self
      · rw [Option.some.injEq, Prod.mk.injEq] at h
        rw [← h.2]
        exact mem_cons_self

/-! ## What is found does not depend on the number of rounds -/

theorem binarySearchLoop_unique {fuel fuel' : ℕ} {min max : BitVec 32}
    {x y : BitVec 32 × List (BitVec 32)} (hx : ix.binarySearchLoop target fuel min max = some x)
    (hy : ix.binarySearchLoop target fuel' min max = some y) : x = y := by
  induction fuel generalizing fuel' min max x y with
  | zero => cases hx
  | succ fuel ih =>
    cases fuel' with
    | zero => cases hy
    | succ fuel' =>
      rw [InlineIndex.binarySearchLoop] at hx hy
      generalize min + (max - min) / 2 = center at hx hy
      generalize (if target > ix.getValue center then center + 1 else min) = min' at hx hy
      generalize (if target > ix.getValue center then max else center - 1) = max' at hx hy
      split at hx
      · rename_i hgo
        rw [if_pos hgo] at hy
        obtain ⟨x', hx', rfl⟩ := Option.map_eq_some_iff.mp hx
        obtain ⟨y', hy', rfl⟩ := Option.map_eq_some_iff.mp hy
        rw [ih hx' hy']
      · rename_i hstop
        rw [if_neg hstop] at hy
        exact Option.some.inj (hx.symm.trans hy)

theorem binarySearch_unique {fuel fuel' : ℕ} {exactMatch : Bool} {x y : BitVec 32 × List (BitVec 32)}
    (hx : ix.binarySearch fuel target exactMatch = some x)
    (hy : ix.binarySearch fuel' target exactMatch = some y) : x = y := by
  rw [InlineIndex.binarySearch] at hx hy
  split at hx
  · rename_i hinvalid
    rw [if_pos hinvalid] at hy
    exact Option.some.inj (hx.symm.trans hy)
  · rename_i hvalid
    rw [if_neg hvalid] at hy
    obtain ⟨x', hx', rfl⟩ := Option.map_eq_some_iff.mp hx
    obtain ⟨y', hy', rfl⟩ := Option.map_eq_some_iff.mp hy
    rw [binarySearchLoop_unique hx' hy']

theorem rangeSearch_unique {fuel fuel' : ℕ} {it : InlineIterator} {cache : CachedRange}
    {x y : CachedRange × List (BitVec 32)} (hx : ix.rangeSearch fuel it cache = some x)
    (hy : ix.rangeSearch fuel' it cache = some y) : x = y := by
  simp only [InlineIndex.rangeSearch, Option.bind_eq_bind, Option.bind_eq_some_iff] at hx hy
  obtain ⟨a, ha, hx⟩ := hx
  obtain ⟨b, hb, hy⟩ := hy
  rw [binarySearch_unique ha hb] at hx
  split at hx
  · rename_i hinvalid
    rw [if_pos hinvalid] at hy
    exact Option.some.inj (hx.symm.trans hy)
  · rename_i hvalid
    rw [if_neg hvalid] at hy
    obtain ⟨a', ha', hx⟩ := Option.bind_eq_some_iff.mp hx
    obtain ⟨b', hb', hy⟩ := Option.bind_eq_some_iff.mp hy
    rw [binarySearch_unique ha' hb'] at hx
    exact Option.some.inj (hx.symm.trans hy)

theorem getNext_unique {fuel fuel' : ℕ} {it : InlineIterator} {cache : CachedRange}
    {x y : BitVec 32 × InlineIterator × CachedRange × List (BitVec 32)}
    (hx : ix.getNext fuel it cache = some x) (hy : ix.getNext fuel' it cache = some y) : x = y := by
  rw [InlineIndex.getNext] at hx hy
  split at hx
  · rename_i hfirst
    rw [if_pos hfirst] at hy
    obtain ⟨a, ha, hx⟩ := Option.bind_eq_some_iff.mp hx
    obtain ⟨b, hb, hy⟩ := Option.bind_eq_some_iff.mp hy
    rw [rangeSearch_unique ha hb] at hx
    exact Option.some.inj (hx.symm.trans hy)
  · rename_i hlater
    rw [if_neg hlater] at hy
    exact Option.some.inj (hx.symm.trans hy)

theorem iterate_unique {fuel fuel' rounds rounds' : ℕ} {it : InlineIterator} {cache : CachedRange}
    {x y : List (BitVec 32) × List (BitVec 32)} (hx : ix.iterate fuel rounds it cache = some x)
    (hy : ix.iterate fuel' rounds' it cache = some y) : x = y := by
  induction rounds generalizing rounds' it cache x y with
  | zero => cases hx
  | succ rounds ih =>
    cases rounds' with
    | zero => cases hy
    | succ rounds' =>
      simp only [InlineIndex.iterate, Option.bind_eq_bind, Option.bind_eq_some_iff] at hx hy
      obtain ⟨a, ha, hx⟩ := hx
      obtain ⟨b, hb, hy⟩ := hy
      rw [getNext_unique ha hb] at hx
      split at hx
      · rename_i hend
        rw [if_pos hend] at hy
        exact Option.some.inj (hx.symm.trans hy)
      · rename_i hmore
        rw [if_neg hmore] at hy
        obtain ⟨x', hx', hx⟩ := Option.bind_eq_some_iff.mp hx
        obtain ⟨y', hy', hy⟩ := Option.bind_eq_some_iff.mp hy
        rw [ih hx' hy'] at hx
        exact Option.some.inj (hx.symm.trans hy)

/-! ## The iteration -/

theorem toNat_cardinality (ix : InlineIndex) : ix.cardinality.toNat = ix.rows.length := by
  have hfits := ix.fits
  rw [InlineIndex.cardinality, BitVec.toNat_ofNat, mod_eq_of_lt (by omega)]

theorem toNat_invalidTuple : invalidTuple.toNat = 2 ^ 32 - 1 := rfl

/-- A number of a row is a valid one. -/
theorem ne_invalidTuple {i : BitVec 32} (hi : i.toNat < ix.rows.length) : i ≠ invalidTuple := by
  have hfits := ix.fits
  intro heq
  rw [heq, toNat_invalidTuple] at hi
  omega

theorem binarySearch_eq (fuel : ℕ) (exactMatch : Bool) :
    ix.binarySearch fuel target exactMatch =
      (ix.binarySearchLoop target fuel 0 (ix.cardinality - 1)).map fun found =>
        (if exactMatch && target ≠ ix.getValue found.1 then invalidTuple else found.1, found.2) := by
  have hvalid : ix.cardinality ≠ invalidTuple := by
    have hfits := ix.fits
    intro heq
    have hlen := toNat_cardinality ix
    rw [heq, toNat_invalidTuple] at hlen
    omega
  rw [InlineIndex.binarySearch, if_neg hvalid]

/-- **A search**, where some row has a value that is no more than the target. -/
theorem binarySearch_spec (hsorted : ix.rows.Pairwise (· ≤ ·)) (hne : 0 < ix.rows.length)
    (hfirst : ix.value 0 ≤ target) (exactMatch : Bool) :
    ∃ c touched, ix.binarySearch (ix.rows.length + 1) target exactMatch =
        some (if exactMatch && target ≠ ix.value c.toNat then invalidTuple else c, touched) ∧
      (∀ i ∈ touched, i.toNat < ix.rows.length) ∧
      EndsAt ix target 0 (ix.rows.length - 1) c.toNat := by
  have hlast : (ix.cardinality - 1).toNat = ix.rows.length - 1 := by
    have hone : ((1 : BitVec 32)).toNat = 1 := rfl
    have hcard := toNat_cardinality ix
    rw [toNat_sub_of_le (by rw [BitVec.le_def, hone]; omega), hone, hcard]
  obtain ⟨c, touched, hloop, htouched, hends⟩ := binarySearchLoop_spec hsorted hfirst
    (ix.rows.length + 1) 0 (ix.cardinality - 1) (Nat.zero_le _) (by omega) (by omega)
    (fun i hi => absurd hi (Nat.not_lt_zero i)) (fun i hi hlt => by omega)
  rw [hlast] at hends
  refine ⟨c, touched, ?_, htouched, hends⟩
  rw [binarySearch_eq, hloop, Option.map_some, getValue_eq hends.1]

/-- The rows behind the first one. -/
theorem iterate_rest {cache : CachedRange} (hstop : cache.cachedEnd.toNat < 2 ^ 32 - 1) (fuel : ℕ)
    {rounds : ℕ} {it : InlineIterator} (hno : 0 < it.nextItemNo.toNat)
    (hle : cache.cachedStart.toNat + it.nextItemNo.toNat < 2 ^ 32)
    (hrounds : cache.cachedEnd.toNat + 1 - (cache.cachedStart.toNat + it.nextItemNo.toNat) < rounds) :
    ∃ indexes, ix.iterate fuel rounds it cache = some (indexes, []) ∧
      indexes.map BitVec.toNat = range' (cache.cachedStart.toNat + it.nextItemNo.toNat)
        (cache.cachedEnd.toNat + 1 - (cache.cachedStart.toNat + it.nextItemNo.toNat)) := by
  have hsum : (cache.cachedStart + it.nextItemNo).toNat =
      cache.cachedStart.toNat + it.nextItemNo.toNat := by
    rw [toNat_add, mod_eq_of_lt hle]
  have hnz : it.nextItemNo ≠ 0 := fun heq => by
    rw [heq] at hno
    exact absurd hno (Nat.lt_irrefl 0)
  induction rounds generalizing it with
  | zero => exact absurd hrounds (Nat.not_lt_zero _)
  | succ rounds ih =>
    simp only [InlineIndex.iterate, InlineIndex.getNext, if_neg hnz]
    by_cases hin : cache.cachedStart + it.nextItemNo ≤ cache.cachedEnd
    · have hvalid : cache.cachedStart + it.nextItemNo ≠ invalidTuple := fun heq => by
        rw [heq, BitVec.le_def, toNat_invalidTuple] at hin
        omega
      rw [BitVec.le_def, hsum] at hin
      have hnext : (it.nextItemNo + 1).toNat = it.nextItemNo.toNat + 1 := by
        have hone : ((1 : BitVec 32)).toNat = 1 := rfl
        rw [toNat_add, hone, mod_eq_of_lt (by omega)]
      obtain ⟨indexes, hrest, hmap⟩ := @ih { it with nextItemNo := it.nextItemNo + 1 }
        (by rw [hnext]; omega) (by rw [hnext]; omega) (by rw [hnext]; omega)
        (by rw [toNat_add, hnext, mod_eq_of_lt (by omega)])
        (fun heq => by
          have hzero : (it.nextItemNo + 1).toNat = 0 := congrArg BitVec.toNat heq
          omega)
      refine ⟨(cache.cachedStart + it.nextItemNo) :: indexes, ?_, ?_⟩
      · rw [if_pos (by rw [BitVec.le_def, hsum]; exact hin)]
        simp only [Option.bind_eq_bind, Option.bind_some, if_neg hvalid, hrest]
        rfl
      · have hlen : cache.cachedEnd.toNat + 1 -
            (cache.cachedStart.toNat + it.nextItemNo.toNat) =
              cache.cachedEnd.toNat + 1 -
                (cache.cachedStart.toNat + (it.nextItemNo.toNat + 1)) + 1 := by omega
        rw [map_cons, hmap, hsum, hnext, hlen, range'_succ, Nat.add_assoc]
    · refine ⟨[], ?_, ?_⟩
      · rw [if_neg hin]
        rfl
      · rw [BitVec.le_def, hsum] at hin
        rw [Nat.sub_eq_zero_of_le (by omega)]
        rfl

/-- The rows of a range: the first one in any case, and those up to the last one. -/
theorem iterate_range {least greatest : ℤ} {cache : CachedRange} {start stop : BitVec 32}
    {touched : List (BitVec 32)} {fuel : ℕ} (hstart : start.toNat < 2 ^ 32 - 1)
    (hstop : stop.toNat < 2 ^ 32 - 1)
    (hrange : ix.rangeSearch fuel ⟨least, greatest, 0⟩ cache = some (⟨start, stop⟩, touched)) :
    ∃ rounds indexes,
      ix.iterate fuel rounds ⟨least, greatest, 0⟩ cache = some (indexes, touched) ∧
        indexes.map BitVec.toNat = range' start.toNat (stop.toNat - start.toNat + 1) := by
  have hone : ((0 : BitVec 32) + 1).toNat = 1 := rfl
  obtain ⟨indexes, hrest, hmap⟩ := @iterate_rest ix ⟨start, stop⟩ hstop fuel
    (stop.toNat + 2) ⟨least, greatest, 0 + 1⟩ (by rw [hone]; omega)
    (by
      change start.toNat + ((0 : BitVec 32) + 1).toNat < 2 ^ 32
      rw [hone]
      omega)
    (by
      change stop.toNat + 1 - (start.toNat + ((0 : BitVec 32) + 1).toNat) < stop.toNat + 2
      omega)
  have hvalid : start ≠ invalidTuple := fun heq => by
    rw [heq, toNat_invalidTuple] at hstart
    omega
  refine ⟨stop.toNat + 3, start :: indexes, ?_, ?_⟩
  · rw [InlineIndex.iterate]
    simp only [InlineIndex.getNext, if_true, hrange, Option.bind_eq_bind, Option.bind_some,
      Option.pure_def, if_neg hvalid, hrest, append_nil]
  · change indexes.map BitVec.toNat = range' (start.toNat + ((0 : BitVec 32) + 1).toNat)
      (stop.toNat + 1 - (start.toNat + ((0 : BitVec 32) + 1).toNat)) at hmap
    rw [hone] at hmap
    rw [map_cons, hmap, range'_succ, Nat.add_sub_add_right]

/-! ## When the rows are right -/

/-- The rows with the value of a row are a block. -/
theorem exists_isBlock (hsorted : ix.rows.Pairwise (· ≤ ·)) {i : ℕ} (hi : i < ix.rows.length)
    (hvalue : ix.value i = target) : ∃ first last, IsBlock ix target first last := by
  let P : ℕ → Prop := fun k => k < ix.rows.length ∧ ix.value k = target
  have hex : ∃ k, P k := ⟨i, hi, hvalue⟩
  refine ⟨Nat.find hex, findGreatest P ix.rows.length, ?_, fun k => ?_⟩
  · exact (Nat.find_min' hex ⟨hi, hvalue⟩).trans (le_findGreatest hi.le ⟨hi, hvalue⟩)
  · have hfirst : P (Nat.find hex) := Nat.find_spec hex
    have hlast : P (findGreatest P ix.rows.length) :=
      findGreatest_spec (P := P) hi.le ⟨hi, hvalue⟩
    constructor
    · intro hk
      have hlt : k < ix.rows.length := (List.getElem?_eq_some_iff.mp hk).1
      have hP : P k := ⟨hlt, Option.some.inj ((InlineIndex.value_eq hlt).symm.trans hk)⟩
      exact ⟨Nat.find_min' hex hP, le_findGreatest hlt.le hP⟩
    · rintro ⟨hge, hle⟩
      have hlt : k < ix.rows.length := Nat.lt_of_le_of_lt hle hlast.1
      rw [InlineIndex.value_eq hlt, le_antisymm ((value_mono hsorted hle hlast.1).trans hlast.2.le)
        (hfirst.2.symm.le.trans (value_mono hsorted hge hlt))]

/-- A search ends at a row with the value if there is one. -/
theorem EndsAt.of_isBlock {min max c first last : ℕ} (h : EndsAt ix target min max c)
    (hb : IsBlock ix target first last) :
    ix.value c = target ∧ firstMiddle first last min max = c ∧ first ≤ c ∧ c ≤ last := by
  obtain ⟨hlt, ⟨hvalue, hblock⟩ | ⟨hne, hbelow, habove⟩⟩ := h
  · exact ⟨hvalue, hblock first last hb, (hb.value_iff hlt).mp hvalue⟩
  · have hfirst : first < ix.rows.length := Nat.lt_of_le_of_lt hb.1 hb.last_lt
    have hvalue := (hb.value_iff hfirst).mpr ⟨le_rfl, hb.1⟩
    rcases lt_trichotomy first c with hlt | rfl | hgt
    · exact absurd hvalue (hbelow first hlt).ne
    · exact absurd hvalue hne
    · exact absurd hvalue (habove first hgt hfirst).ne'

/-- With the first row of the least value, no row of the range is before the one the search ends
at. -/
theorem EndsAt.le_of_mem {c i : ℕ} (h : EndsAt ix target 0 (ix.rows.length - 1) c)
    (hsorted : ix.rows.Pairwise (· ≤ ·))
    (hcond : ∀ first last, IsBlock ix target first last →
      firstMiddle first last 0 (ix.rows.length - 1) = first)
    (hi : i < ix.rows.length) (hle : target ≤ ix.value i) : c ≤ i := by
  by_contra hlt
  rw [not_le] at hlt
  by_cases hvalue : ix.value c = target
  · obtain ⟨first, last, hb⟩ := exists_isBlock hsorted h.1 hvalue
    obtain ⟨-, hmet, -⟩ := h.of_isBlock hb
    rw [hcond first last hb] at hmet
    have hsame : ix.value i = target :=
      le_antisymm ((value_mono hsorted hlt.le h.1).trans hvalue.le) hle
    have hfirst := ((hb.value_iff hi).mp hsame).1
    omega
  · have hmiss := h.2.resolve_left fun hhit => hvalue hhit.1
    exact (hmiss.2.1 i hlt).not_ge hle

/-- With the last row of the greatest value, no row of the range is behind the one the search ends
at. -/
theorem EndsAt.ge_of_mem {c i : ℕ} (h : EndsAt ix target 0 (ix.rows.length - 1) c)
    (hsorted : ix.rows.Pairwise (· ≤ ·))
    (hcond : ∀ first last, IsBlock ix target first last →
      firstMiddle first last 0 (ix.rows.length - 1) = last)
    (hi : i < ix.rows.length) (hle : ix.value i ≤ target) : i ≤ c := by
  by_contra hlt
  rw [not_le] at hlt
  by_cases hvalue : ix.value c = target
  · obtain ⟨first, last, hb⟩ := exists_isBlock hsorted h.1 hvalue
    obtain ⟨-, hmet, -⟩ := h.of_isBlock hb
    rw [hcond first last hb] at hmet
    have hsame : ix.value i = target :=
      le_antisymm hle (hvalue.symm.le.trans (value_mono hsorted hlt.le hi))
    have hlast := ((hb.value_iff hi).mp hsame).2
    omega
  · have hmiss := h.2.resolve_left fun hhit => hvalue hhit.1
    exact (hmiss.2.2 i hlt hi).not_ge hle

/-- The rows between the ends of the two searches are right exactly if the ends are. -/
theorem searchedRight_iff {least greatest : ℤ} {start stop : BitVec 32}
    {indexes touched : List (BitVec 32)} (hsorted : ix.rows.Pairwise (· ≤ ·))
    (hle : least ≤ greatest) (htouched : ∀ i ∈ touched, i.toNat < ix.rows.length)
    (hlow : EndsAt ix least 0 (ix.rows.length - 1) start.toNat)
    (hhigh : EndsAt ix greatest 0 (ix.rows.length - 1) stop.toNat)
    (hexact : least = greatest → stop = start ∧ ix.value start.toNat = least)
    (hmap : indexes.map BitVec.toNat =
      range' start.toNat (stop.toNat - start.toNat + 1)) :
    SearchedRight ix least greatest indexes touched ↔
      (∀ first last, IsBlock ix least first last →
        firstMiddle first last 0 (ix.rows.length - 1) = first) ∧
      ∀ first last, IsBlock ix greatest first last →
        firstMiddle first last 0 (ix.rows.length - 1) = last := by
  have hmem : ∀ i, i ∈ indexes.map BitVec.toNat ↔
      start.toNat ≤ i ∧ i < start.toNat + (stop.toNat - start.toNat + 1) := by
    intro i
    rw [hmap, mem_range'_1]
  have hvalue : ∀ i (hi : i < ix.rows.length), ix.rows[i] = ix.value i := fun i hi =>
    Option.some.inj ((List.getElem?_eq_getElem hi).symm.trans (InlineIndex.value_eq hi))
  constructor
  · intro h
    have hall : ∀ i < ix.rows.length, least ≤ ix.value i → ix.value i ≤ greatest →
        start.toNat ≤ i ∧ i < start.toNat + (stop.toNat - start.toNat + 1) := by
      intro i hi hge hle'
      exact (hmem i).mp (h.all i hi (by rwa [hvalue i hi]) (by rwa [hvalue i hi]))
    refine ⟨fun first last hb => ?_, fun first last hb => ?_⟩
    · obtain ⟨-, hmet, hge, -⟩ := hlow.of_isBlock hb
      have hlt : first < ix.rows.length := Nat.lt_of_le_of_lt hb.1 hb.last_lt
      have hfirst := (hb.value_iff hlt).mpr ⟨le_rfl, hb.1⟩
      have hin := hall first hlt hfirst.symm.le (hfirst.le.trans hle)
      omega
    · obtain ⟨hstop, hmet, hge, hle'⟩ := hhigh.of_isBlock hb
      have hlast := (hb.value_iff hb.last_lt).mpr ⟨hb.1, le_rfl⟩
      have hin := hall last hb.last_lt (hle.trans hlast.symm.le) hlast.le
      have hin' := hall stop.toNat hhigh.1 (hle.trans hstop.symm.le) hstop.le
      omega
  · rintro ⟨hcondLow, hcondHigh⟩
    have hrange : ∀ i < ix.rows.length, least ≤ ix.value i → ix.value i ≤ greatest →
        start.toNat ≤ i ∧ i ≤ stop.toNat := fun i hi hge hle' =>
      ⟨hlow.le_of_mem hsorted hcondLow hi hge, hhigh.ge_of_mem hsorted hcondHigh hi hle'⟩
    have hlen : indexes.length = stop.toNat - start.toNat + 1 := by
      have := congrArg length hmap
      rwa [length_map, length_range'] at this
    refine ⟨htouched, fun i hi => ?_, ⟨start.toNat, by rw [hlen]; exact hmap⟩,
      fun i hi hge hle' => ?_, fun heq i hi => ?_⟩
    · have hin := (hmem i.toNat).mp (mem_map_of_mem hi)
      have hstart := hlow.1
      have hstop := hhigh.1
      omega
    · rw [hvalue i hi] at hge hle'
      have hin := hrange i hi hge hle'
      exact (hmem i).mpr (by omega)
    · obtain ⟨hsame, hstart⟩ := hexact heq
      have hin := (hmem i.toNat).mp (mem_map_of_mem hi)
      have heq' : i.toNat = start.toNat := by
        rw [hsame] at hin
        omega
      rw [heq', InlineIndex.value_eq hlow.1, hstart]

/-- The first search is part of the iteration. -/
theorem search_of_iterate {least greatest : ℤ} {cache : CachedRange} {fuel rounds : ℕ}
    {indexes touched : List (BitVec 32)}
    (h : ix.iterate fuel rounds ⟨least, greatest, 0⟩ cache = some (indexes, touched)) :
    ∃ c touched', ix.binarySearchLoop least fuel 0 (ix.cardinality - 1) = some (c, touched') ∧
      ∀ i ∈ touched', i ∈ touched := by
  cases rounds with
  | zero => cases h
  | succ rounds =>
    simp only [InlineIndex.iterate, InlineIndex.getNext, if_true, Option.bind_eq_bind,
      Option.bind_eq_some_iff, Option.pure_def, Option.some.injEq] at h
    obtain ⟨next, ⟨range, hrange, rfl⟩, h⟩ := h
    have hpart : ∀ i ∈ range.2, i ∈ touched := by
      intro i hi
      split at h
      · rw [Option.some.injEq, Prod.mk.injEq] at h
        rwa [← h.2]
      · obtain ⟨rest, -, h⟩ := Option.bind_eq_some_iff.mp h
        rw [Option.some.injEq, Prod.mk.injEq] at h
        rw [← h.2]
        exact mem_append_left _ hi
    simp only [InlineIndex.rangeSearch, Option.bind_eq_bind, Option.bind_eq_some_iff,
      Option.pure_def] at hrange
    obtain ⟨first, hfirst, hrange⟩ := hrange
    rw [binarySearch_eq] at hfirst
    obtain ⟨found, hfound, hpair⟩ := Option.map_eq_some_iff.mp hfirst
    have htouched : first.2 = found.2 := by rw [← hpair]
    refine ⟨found.1, found.2, hfound, fun i hi => hpart i ?_⟩
    rw [← htouched] at hi
    split at hrange
    · rw [Option.some.injEq] at hrange
      rwa [← hrange]
    · obtain ⟨second, -, hrange⟩ := Option.bind_eq_some_iff.mp hrange
      rw [Option.some.injEq] at hrange
      rw [← hrange]
      exact mem_append_left _ hi

/-- **The inline index finds the rows of a range** exactly under the condition. -/
theorem inline_search {least greatest : ℤ} (hsorted : ix.rows.Pairwise (· ≤ ·))
    (hle : least ≤ greatest) (cache : CachedRange) :
    Searches ix least greatest cache ↔ SearchCondition ix least greatest := by
  by_cases hrow : ∃ value ∈ ix.rows, value ≤ least
  swap
  · refine iff_of_false ?_ fun hcond => hrow hcond.1
    rintro ⟨fuel, rounds, indexes, touched, hiter, hright⟩
    obtain ⟨c, touched', hloop, hpart⟩ := search_of_iterate hiter
    have hall : ∀ i < ix.rows.length, least < ix.value i := fun i hi => not_le.mp fun hle' =>
      hrow ⟨ix.value i, List.mem_of_getElem? (InlineIndex.value_eq hi), hle'⟩
    obtain ⟨i, hi, hout⟩ := binarySearchLoop_below hall hloop
    exact Nat.not_lt.mpr hout (hright.touched_lt i (hpart i hi))
  obtain ⟨value, hmem, hvalue⟩ := hrow
  have hne : 0 < ix.rows.length := List.length_pos_of_mem hmem
  have hfirst : ix.value 0 ≤ least := by
    obtain ⟨i, hi⟩ := List.mem_iff_getElem?.mp hmem
    have hlt := (List.getElem?_eq_some_iff.mp hi).1
    have heq : value = ix.value i := Option.some.inj (hi.symm.trans (InlineIndex.value_eq hlt))
    exact (value_mono hsorted (Nat.zero_le i) hlt).trans (heq ▸ hvalue)
  have hcond : SearchCondition ix least greatest ↔
      (∀ first last, IsBlock ix least first last →
        firstMiddle first last 0 (ix.rows.length - 1) = first) ∧
      ∀ first last, IsBlock ix greatest first last →
        firstMiddle first last 0 (ix.rows.length - 1) = last :=
    ⟨fun h => h.2, fun h => ⟨⟨value, hmem, hvalue⟩, h⟩⟩
  rw [hcond]
  have hfits := ix.fits
  obtain ⟨start, touched, hlow, htouched, hstart⟩ :=
    binarySearch_spec hsorted hne hfirst (decide (least = greatest))
  obtain ⟨stop, touched', hhigh, htouched', hstop⟩ :=
    binarySearch_spec hsorted hne (hfirst.trans hle) (decide (least = greatest))
  by_cases habsent : least = greatest ∧ ix.value start.toNat ≠ least
  · -- the value is not there, and there are no rows
    obtain ⟨rfl, hmiss⟩ := habsent
    have hnone : ∀ first last, ¬ IsBlock ix least first last := fun first last hb =>
      hmiss (hstart.of_isBlock hb).1
    refine iff_of_true ⟨ix.rows.length + 1, 1, [], touched, ?_, ?_⟩
      ⟨fun first last hb => absurd hb (hnone first last),
        fun first last hb => absurd hb (hnone first last)⟩
    · have hinvalid : (decide (least = least) && decide (least ≠ ix.value start.toNat)) = true := by
        simpa using hmiss.symm
      rw [hinvalid, if_pos rfl] at hlow
      simp only [decide_true] at hlow
      simp only [InlineIndex.iterate, InlineIndex.getNext, if_true, InlineIndex.rangeSearch,
        decide_true, hlow, Option.bind_eq_bind, Option.bind_some, Option.pure_def]
    · refine ⟨htouched, fun i hi => absurd hi List.not_mem_nil, ⟨0, rfl⟩, fun i hi hge hle' => ?_,
        fun _ i hi => absurd hi List.not_mem_nil⟩
      have hv : ix.value i = least := by
        rw [InlineIndex.value, List.getD_eq_getElem _ _ hi]
        exact le_antisymm hle' hge
      obtain ⟨first, last, hb⟩ := exists_isBlock hsorted hi hv
      exact absurd hb (hnone first last)
  · have hkeep : (decide (least = greatest) && decide (least ≠ ix.value start.toNat)) = false := by
      rw [Bool.and_eq_false_iff, decide_eq_false_iff_not, decide_eq_false_iff_not, not_not]
      by_cases heq : least = greatest
      · exact Or.inr (by_contra fun hmiss => habsent ⟨heq, fun h => hmiss h.symm⟩)
      · exact Or.inl heq
    have hexact : least = greatest → stop = start ∧ ix.value start.toNat = least := by
      rintro rfl
      have hsame := binarySearch_unique hlow hhigh
      have hv : ix.value start.toNat = least := by_contra fun hmiss => habsent ⟨rfl, hmiss⟩
      rw [hkeep] at hsame
      rw [Prod.mk.injEq] at hsame
      refine ⟨?_, hv⟩
      by_cases hv' : ix.value stop.toNat = least
      · simpa [hv'] using hsame.1.symm
      · exfalso
        have hv'' : ¬ least = ix.value stop.toNat := fun h => hv' h.symm
        exact ne_invalidTuple hstart.1 (by simpa [hv''] using hsame.1)
    have hkeep' : (decide (least = greatest) && decide (greatest ≠ ix.value stop.toNat)) = false := by
      rw [Bool.and_eq_false_iff, decide_eq_false_iff_not, decide_eq_false_iff_not, not_not]
      by_cases heq : least = greatest
      · obtain ⟨hsame, hv⟩ := hexact heq
        exact Or.inr (by rw [hsame, hv, heq])
      · exact Or.inl heq
    rw [hkeep, if_neg Bool.false_ne_true] at hlow
    rw [hkeep', if_neg Bool.false_ne_true] at hhigh
    have hrange : ix.rangeSearch (ix.rows.length + 1) ⟨least, greatest, 0⟩ cache =
        some (⟨start, stop⟩, touched ++ touched') := by
      simp only [InlineIndex.rangeSearch, hlow, hhigh, Option.bind_eq_bind, Option.bind_some,
        Option.pure_def, if_neg (ne_invalidTuple hstart.1)]
    have hlt := hstart.1
    have hlt' := hstop.1
    obtain ⟨rounds, indexes, hiter, hmap⟩ := iterate_range (by omega) (by omega) hrange
    rw [← searchedRight_iff hsorted hle (List.forall_mem_append.mpr ⟨htouched, htouched'⟩) hstart hstop
      hexact hmap]
    refine ⟨?_, fun hright => ⟨_, _, _, _, hiter, hright⟩⟩
    rintro ⟨fuel', rounds', indexes', touched'', hiter', hright⟩
    have hsame := iterate_unique hiter hiter'
    rw [Prod.mk.injEq] at hsame
    rw [hsame.1, hsame.2]
    exact hright

/-- Rows with the values of a list. -/
def rowsOf (rows : List ℤ) (fits : rows.length < 2 ^ 32 - 1) : InlineIndex := ⟨rows, fun _ => 0, fits⟩

theorem inline_search_distinct :
    SearchCondition (rowsOf [1, 3, 3, 8] (by simp)) 2 8 :=
  (@inline_search (rowsOf [1, 3, 3, 8] (by simp)) 2 8 (by decide) (by decide) ⟨0, 0⟩).mp
    ⟨5, 5, [0, 1, 2, 3], [1, 0, 1, 2, 3], by decide +kernel,
      ⟨by simp [rowsOf], by simp [rowsOf], ⟨0, by decide⟩, by decide +kernel, by decide⟩⟩

/-- **Rows with the same value**: the search meets the second of the three, and returns no other. -/
theorem inline_search_misses_duplicates :
    ∃ ix : InlineIndex, ix.rows = [5, 5, 5] ∧ ix.rows.Pairwise (· ≤ ·) ∧
      ix.iterate 4 4 ⟨5, 5, 0⟩ ⟨0, 0⟩ = some ([1], [1, 1]) ∧ ¬ Searches ix 5 5 ⟨0, 0⟩ := by
  have hiter : (rowsOf [5, 5, 5] (by simp)).iterate 4 4 ⟨5, 5, 0⟩ ⟨0, 0⟩ =
      some ([1], [1, 1]) := by
    decide +kernel
  refine ⟨_, rfl, by decide, hiter, ?_⟩
  rintro ⟨fuel, rounds, indexes, touched, hiter', hright⟩
  have hsame := iterate_unique hiter hiter'
  rw [Prod.mk.injEq] at hsame
  have hall := hright.all 0 (by decide) (by decide) (by decide)
  rw [← hsame.1] at hall
  exact absurd hall (by decide)

end Asap.Antelope
