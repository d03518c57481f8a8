import Asap.Snmp.Mib
import Mathlib.Data.List.Nodup

/-!
# Walks over the MIB

On a list in order, the answers to GET-NEXT requests are the resources behind the first OID, one after
the other, and then the end of the view. The varbinds of a GET-BULK request are the walks from the OIDs
of its repeaters, side by side, on any list.

The list is in order, and has every resource, only if the resources were added in order: one that is
added in front of another one does not come into the list, and the other one is taken out.

## Main definitions

* `behind` — the resources behind an OID.
* `MibLaw` — the list has all resources in order, finds each, and is walked through.

## Main results

* `snmpEngineGetBulk_answers` — the varbinds of a GET-BULK request.
* `mibLaw_iff` — the law holds if and only if the resources are added in order.
-/

namespace Asap.Snmp

open Function List List

variable {ρ : Type*} {oid : ρ → Oid} {mib adds : List ρ} {header : SnmpHeader} {o : Oid} {i j k n : ℕ}

/-! ## One request after the other -/

variable (oid) in
/-- The resources behind an OID. -/
def behind (mib : List ρ) (o : Oid) : List ρ := mib.filter fun r => o.key < (oid r).key

variable (oid) in
/-- The OID that is returned last in a walk that has come to its end. -/
def lastOid (mib : List ρ) (o : Oid) : Oid := ((behind oid mib o).getLast?.map oid).getD o

/-- Behind a resource are those that come after it. -/
theorem behind_of_getElem (hmib : mib.Pairwise fun r s => (oid r).key < (oid s).key) {r : ρ}
    (hr : (behind oid mib o)[k]? = some r) :
    behind oid mib (oid r) = (behind oid mib o).drop (k + 1) := by
  obtain ⟨hk, hget⟩ := List.getElem?_eq_some_iff.mp hr
  have hmem : r ∈ behind oid mib o := mem_of_getElem? hr
  have hlt : o.key < (oid r).key := by simpa using (mem_filter.mp hmem).2
  have hsplit := (take_append_drop k (behind oid mib o)).symm
  rw [drop_eq_getElem_cons hk, hget] at hsplit
  have hpair : (behind oid mib o).Pairwise fun r s => (oid r).key < (oid s).key := hmib.filter _
  rw [hsplit, pairwise_append, pairwise_cons] at hpair
  have hfilter : behind oid mib (oid r) =
      (behind oid mib o).filter fun s => (oid r).key < (oid s).key := by
    rw [behind, behind, filter_filter]
    refine filter_congr fun s _ => ?_
    by_cases hs : (oid r).key < (oid s).key
    · simp [hs, hlt.trans hs]
    · simp [hs]
  have hbefore : ((behind oid mib o).take k).filter (fun s => (oid r).key < (oid s).key) = [] := by
    refine filter_eq_nil_iff.mpr fun s hs => ?_
    simpa using le_of_lt (hpair.2.2 s hs r (mem_cons_self ..))
  have hafter : ((behind oid mib o).drop (k + 1)).filter (fun s => (oid r).key < (oid s).key) =
      (behind oid mib o).drop (k + 1) :=
    filter_eq_self.mpr fun s hs => decide_eq_true (hpair.2.1.1 s hs)
  rw [hfilter]
  conv_lhs => rw [hsplit]
  rw [filter_append, hbefore, nil_append, filter_cons_of_neg (by simp), hafter]

theorem getNextOne_eq (hmib : (behind oid mib o).head? = none) :
    getNextOne oid mib header i ⟨o, .unset⟩ = noNext header i ⟨o, .unset⟩ := by
  rw [behind, head?_filter, ← snmpMibFindNext_eq] at hmib
  rw [getNextOne, hmib]

theorem getNextOne_of_head {r : ρ} (hmib : (behind oid mib o).head? = some r) (v : Value ρ) :
    getNextOne oid mib header i ⟨o, v⟩ = (header, handled oid r) := by
  rw [behind, head?_filter, ← snmpMibFindNext_eq] at hmib
  rw [getNextOne, hmib]

theorem noNext_oid (v : Varbind ρ) : (noNext header i v).2.oid = v.oid := by
  rw [noNext]
  cases header.version <;> rfl

/-- **A walk visits the resources behind its start** one after the other, and then is told that there
are no more. -/
theorem walk_eq (hmib : mib.Pairwise fun r s => (oid r).key < (oid s).key) :
    walk oid mib header o k = match (behind oid mib o)[k]? with
      | some r => (header, handled oid r)
      | none => noNext header 0 ⟨lastOid oid mib o, .unset⟩ := by
  induction k with
  | zero =>
    rw [walk, ← head?_eq_getElem?]
    cases hhead : (behind oid mib o).head? with
    | some r => exact getNextOne_of_head hhead _
    | none =>
      have hnil : lastOid oid mib o = o := by
        rw [lastOid, head?_eq_none_iff.mp hhead]
        rfl
      rw [getNextOne_eq hhead, hnil]
  | succ k ih =>
    rw [walk, ih]
    cases hr : (behind oid mib o)[k]? with
    | some r =>
      have hdrop := behind_of_getElem hmib hr
      have hhead : (behind oid mib (oid r)).head? = (behind oid mib o)[k + 1]? := by
        rw [hdrop, head?_drop]
      cases hnext : (behind oid mib o)[k + 1]? with
      | some s => exact getNextOne_of_head (hhead.trans hnext) _
      | none =>
        have hlast : lastOid oid mib o = oid r := by
          obtain ⟨hk, hget⟩ := List.getElem?_eq_some_iff.mp hr
          have hle := List.getElem?_eq_none_iff.mp hnext
          have hlength : (behind oid mib o).length - 1 = k := by omega
          rw [lastOid, getLast?_eq_getElem?, hlength, hr]
          rfl
        rw [hlast]
        exact getNextOne_eq (hhead.trans hnext)
    | none =>
      have hle := List.getElem?_eq_none_iff.mp hr
      have hnext : (behind oid mib o)[k + 1]? = none :=
        List.getElem?_eq_none_iff.mpr (Nat.le_succ_of_le hle)
      rw [hnext]
      simp only [noNext_oid]
      refine getNextOne_eq ?_
      -- behind the last resource, and behind a start behind which there are none, there are none
      rw [lastOid]
      cases hlast : (behind oid mib o).getLast? with
      | none =>
        rw [getLast?_eq_none_iff] at hlast
        simp [hlast]
      | some r =>
        rw [getLast?_eq_getElem?] at hlast
        have hdrop := behind_of_getElem hmib hlast
        obtain ⟨hk, _⟩ := List.getElem?_eq_some_iff.mp hlast
        have hend : (behind oid mib o).length ≤ (behind oid mib o).length - 1 + 1 := by omega
        rw [Option.map_some, Option.getD_some, hdrop, drop_eq_nil_of_le hend, head?_nil]

/-- A walk goes on from its first answer. -/
theorem walk_succ : walk oid mib header o (k + 1) =
    walk oid mib header (walk oid mib header o 0).2.oid k := by
  induction k with
  | zero => rfl
  | succ k ih => exact congrArg (fun a => getNextOne oid mib header 0 ⟨a.2.oid, .unset⟩) ih

/-- Each varbind of a GET-NEXT request is answered on its own. -/
theorem snmpEngineGetNext_answers (varbinds : List (Varbind ρ)) :
    (snmpEngineGetNext oid mib header i varbinds).2 =
      varbinds.map fun v => (getNextOne oid mib header 0 v).2 := by
  have hone : ∀ (header' : SnmpHeader) (i : ℕ) (v : Varbind ρ), header'.version = header.version →
      (getNextOne oid mib header' i v).1.version = header.version ∧
        (getNextOne oid mib header' i v).2 = (getNextOne oid mib header 0 v).2 := by
    intro header' i v hversion
    rw [getNextOne, getNextOne]
    cases snmpMibFindNext oid mib v.oid with
    | some r => exact ⟨hversion, rfl⟩
    | none =>
      simp only [noNext, hversion]
      cases hv : header.version <;> exact ⟨hversion.trans hv, rfl⟩
  suffices h : ∀ (header' : SnmpHeader) (i : ℕ), header'.version = header.version →
      (snmpEngineGetNext oid mib header' i varbinds).2 =
        varbinds.map fun v => (getNextOne oid mib header 0 v).2 from h header i rfl
  induction varbinds with
  | nil => exact fun _ _ _ => rfl
  | cons v varbinds ih =>
    intro header' i hversion
    obtain ⟨hversion', hanswer⟩ := hone header' i v hversion
    rw [snmpEngineGetNext, map_cons, hanswer, ih _ _ hversion']

/-! ## Many at once -/

section Bulk

variable {maxNrValues varbindsLength : ℕ} {s : Bulk ρ}

theorem take_take_append {α : Type*} (as bs : List α) (m : ℕ) :
    (as.take m ++ bs).take m = (as ++ bs).take m := by
  rw [take_append, take_append, take_take, Nat.min_self, length_take]
  congr 2
  omega

theorem length_answers (s : Bulk ρ) : s.answers.length = s.length := by
  rw [Bulk.answers, length_map, length_range]

theorem take_answers (hs : s.length ≤ maxNrValues) :
    (s.answers ++ []).take maxNrValues = s.answers := by
  rw [append_nil, take_of_length_le]
  rwa [length_answers]

theorem answers_put (hs : s.length ≤ maxNrValues) (v : Varbind ρ) :
    (s.put maxNrValues v).answers = (s.answers ++ [v]).take maxNrValues ∧
      (s.put maxNrValues v).length ≤ maxNrValues ∧ s.length ≤ (s.put maxNrValues v).length := by
  have hlength := length_answers s
  rw [Bulk.put]
  split
  · rename_i hlt
    have hsame : ∀ i ∈ range s.length,
        update s.varbinds s.length v i = s.varbinds i :=
      fun i hi => update_of_ne (Nat.ne_of_lt (mem_range.mp hi)) ..
    refine ⟨?_, hlt, Nat.le_succ _⟩
    have hfits : (s.answers ++ [v]).length ≤ maxNrValues := by
      rw [length_append, hlength]
      exact hlt
    have hself : update s.varbinds s.length v s.length = v := update_self ..
    rw [take_of_length_le hfits, Bulk.answers, range_succ, map_append,
      map_congr_left hsame, map_singleton]
    exact congrArg (s.answers ++ [·]) hself
  · rename_i hlt
    refine ⟨?_, hs, Nat.le_refl _⟩
    rw [take_append_of_le_length (by omega), take_of_length_le (by omega)]

variable (hv : s.header.version = .v2c) (hs : s.length ≤ maxNrValues)
include hv hs

/-- The first loop: what is found is put in, the others leave a mark behind it. -/
theorem nonRepeaters_spec (hi : s.length ≤ i) :
    let s' := nonRepeaters oid maxNrValues mib n i s
    s'.header = s.header ∧ s'.oids = s.oids ∧ s'.length ≤ maxNrValues ∧
      s'.answers = (s.answers ++ (range' i
        (min n (s.header.errorStatusNonRepeaters.toNat - i))).filterMap fun j =>
          (snmpMibFindNext oid mib (s.oids j)).map (handled oid)).take maxNrValues := by
  induction n generalizing s i with
  | zero =>
    rw [Nat.zero_min]
    exact ⟨rfl, rfl, hs, (take_answers hs).symm⟩
  | succ n ih =>
    rw [nonRepeaters]
    by_cases hend : s.header.errorStatusNonRepeaters.toNat ≤ i
    · rw [if_pos hend, Nat.sub_eq_zero_of_le hend, Nat.min_zero]
      exact ⟨rfl, rfl, hs, (take_answers hs).symm⟩
    · have hcount : min (n + 1) (s.header.errorStatusNonRepeaters.toNat - i) =
          min n (s.header.errorStatusNonRepeaters.toNat - (i + 1)) + 1 := by omega
      rw [if_neg hend, hcount, range'_succ, filterMap_cons]
      cases hnext : snmpMibFindNext oid mib (s.oids i) with
      | some r =>
        have hput := answers_put hs (handled oid r)
        have hfields : (s.put maxNrValues (handled oid r)).header = s.header ∧
            (s.put maxNrValues (handled oid r)).oids = s.oids ∧
            (s.put maxNrValues (handled oid r)).length ≤ i + 1 := by
          rw [Bulk.put]
          split
          · exact ⟨rfl, rfl, Nat.succ_le_succ hi⟩
          · exact ⟨rfl, rfl, Nat.le_succ_of_le hi⟩
        obtain ⟨hheader, hoids, hle, hanswers⟩ :=
          @ih (i + 1) (s.put maxNrValues (handled oid r)) (by rw [hfields.1, hv]) hput.2.1 hfields.2.2
        refine ⟨hheader.trans hfields.1, hoids.trans hfields.2.1, hle, ?_⟩
        rw [hanswers, hput.1, take_take_append, hfields.1, hfields.2.1, append_assoc]
        rfl
      | none =>
        have hnoNext : noNext s.header i (s.varbinds i) =
            (s.header, ⟨(s.varbinds i).oid, .endOfMibView⟩) := by
          rw [noNext, hv]
        simp only [hnoNext]
        obtain ⟨s₁, hs₁⟩ : ∃ s₁ : Bulk ρ, s₁ = { s with
          varbinds := update s.varbinds i ⟨(s.varbinds i).oid, .endOfMibView⟩ } := ⟨_, rfl⟩
        have hanswers : s₁.answers = s.answers := by
          rw [hs₁]
          refine map_congr_left fun k hk => ?_
          have hlt : k < s.length := mem_range.mp hk
          exact update_of_ne (by omega) ..
        have hlength : s₁.length = s.length := by rw [hs₁]
        have ih := @ih (i + 1) s₁ (by rw [hs₁, hv]) (by omega) (by omega)
        rw [hanswers] at ih
        rw [hs₁] at ih
        exact ih

/-- A repeater: its answer is put in, and is what it goes on from. -/
theorem repeater_spec (j : ℕ) :
    let s' := repeater oid maxNrValues mib s j
    let answer := (walk oid mib s.header (s.oids j) 0).2
    s'.1.header = s.header ∧ s'.1.length ≤ maxNrValues ∧ s.length ≤ s'.1.length ∧
      s'.1.answers = (s.answers ++ [answer]).take maxNrValues ∧
      (s'.1.length < maxNrValues → s'.1.oids = update s.oids j answer.oid ∧
        (s'.2 = true ↔ answer.value ≠ .endOfMibView)) := by
  have hheader (v : Varbind ρ) : (s.put maxNrValues v).header = s.header := by
    rw [Bulk.put]
    split <;> rfl
  have hoids (v : Varbind ρ) : (s.put maxNrValues v).oids = s.oids := by
    rw [Bulk.put]
    split <;> rfl
  rw [repeater, walk, getNextOne]
  cases hnext : snmpMibFindNext oid mib (s.oids j) with
  | some r =>
    have hput := answers_put hs (handled oid r)
    by_cases hlt : s.length < maxNrValues
    · simp only [if_pos hlt]
      refine ⟨hheader _, hput.2.1, hput.2.2, hput.1, fun _ => ?_⟩
      simp [handled]
    · simp only [if_neg hlt]
      refine ⟨trivial, hs, Nat.le_refl _, ?_, fun h => absurd h hlt⟩
      have hsame : s.put maxNrValues (handled oid r) = s := if_neg hlt
      rw [← hput.1, hsame]
  | none =>
    have hput := answers_put hs ⟨s.oids j, .endOfMibView⟩
    have hnoNext : noNext s.header 0 (⟨s.oids j, .unset⟩ : Varbind ρ) =
        (s.header, ⟨s.oids j, .endOfMibView⟩) := by
      rw [noNext, hv]
    simp only [hv, hnoNext]
    refine ⟨hheader _, hput.2.1, hput.2.2, hput.1, fun _ => ⟨?_, by simp⟩⟩
    rw [hoids]
    exact (update_eq_self j s.oids).symm

/-- A repetition: an answer for each repeater. -/
theorem repetition_spec (n j : ℕ) :
    let s' := repetition oid maxNrValues mib n j s
    let answer := fun i => (walk oid mib s.header (s.oids i) 0).2
    s'.1.header = s.header ∧ s'.1.length ≤ maxNrValues ∧ s.length ≤ s'.1.length ∧
      s'.1.answers = (s.answers ++ (range' j n).map answer).take maxNrValues ∧
      (s'.1.length < maxNrValues →
        (∀ i, s'.1.oids i = if j ≤ i ∧ i < j + n then (answer i).oid else s.oids i) ∧
        (s'.2 = true ↔ ∃ i ∈ range' j n, (answer i).value ≠ .endOfMibView)) := by
  induction n generalizing s j with
  | zero =>
    refine ⟨rfl, hs, Nat.le_refl _, (take_answers hs).symm, fun _ => ⟨fun i => ?_, ?_⟩⟩
    · rw [if_neg (by omega)]
      rfl
    · simp [repetition]
  | succ n ih =>
    have hone := @repeater_spec ρ oid mib maxNrValues s hv hs j
    rw [repetition]
    generalize repeater oid maxNrValues mib s j = one at hone ⊢
    obtain ⟨hheader, hle, hge, hanswers, hmore⟩ := hone
    obtain ⟨hheader', hle', hge', hanswers', hmore'⟩ := ih (by rw [hheader, hv]) hle (j + 1)
    rw [hheader] at hanswers' hmore'
    refine ⟨hheader'.trans hheader, hle', hge.trans hge', ?_, fun hlt => ?_⟩
    · rw [hanswers', range'_succ, map_cons, append_cons,
        ← take_take_append (s.answers ++ _), ← hanswers]
      by_cases hroom : one.1.length < maxNrValues
      · have hoids := (hmore hroom).1
        have hsame : ∀ i ∈ range' (j + 1) n, one.1.oids i = s.oids i := by
          intro i hi
          have hi := (mem_range'_1.mp hi).1
          rw [hoids]
          exact update_of_ne (by omega) ..
        rw [map_congr_left fun i hi => by rw [hsame i hi]]
      · -- there is no room for what comes behind
        have hfull : one.1.answers.length = maxNrValues := by
          rw [length_answers]
          omega
        rw [← hfull, take_left, take_left]
    · obtain ⟨hoids, hflag⟩ := hmore (Nat.lt_of_le_of_lt hge' hlt)
      obtain ⟨hoids', hflag'⟩ := hmore' hlt
      have hself : one.1.oids j = (walk oid mib s.header (s.oids j) 0).2.oid := by
        rw [hoids, update_self]
      have hother : ∀ i, i ≠ j → one.1.oids i = s.oids i := by
        intro i hi
        rw [hoids, update_of_ne hi]
      refine ⟨fun i => ?_, ?_⟩
      · rw [hoids']
        by_cases hij : i = j
        · rw [if_neg (by omega), if_pos (by omega), hij, hself]
        · have hiff : (j + 1 ≤ i ∧ i < j + 1 + n) ↔ (j ≤ i ∧ i < j + (n + 1)) := by omega
          simp only [hiff, hother i hij]
      · rw [Bool.or_eq_true, hflag, hflag', range'_succ]
        simp only [mem_cons, exists_eq_or_imp]
        refine or_congr_right (exists_congr fun i => and_congr_right fun hi => ?_)
        rw [hother i (by have := (mem_range'_1.mp hi).1; omega)]

/-- The second loop: repetitions, until there are no more to be done, or all repeaters have come to
the end of the view. -/
theorem repetitions_spec {fuel : ℕ}
    (hfuel : s.header.errorIndexMaxRepetitions.toNat ≤ i + fuel) :
    let repeaters := range' s.header.errorStatusNonRepeaters.toNat
      (varbindsLength - s.header.errorStatusNonRepeaters.toNat)
    ∃ rows ≤ s.header.errorIndexMaxRepetitions.toNat - i,
      (rows = s.header.errorIndexMaxRepetitions.toNat - i ∨ ∃ k, rows = k + 1 ∧
        ∀ j ∈ repeaters, (walk oid mib s.header (s.oids j) k).2.value = .endOfMibView) ∧
      (repetitions oid maxNrValues mib varbindsLength fuel i s).answers =
        (s.answers ++ (range rows).flatMap fun k => repeaters.map fun j =>
          (walk oid mib s.header (s.oids j) k).2).take maxNrValues := by
  induction fuel generalizing s i with
  | zero => exact ⟨0, Nat.zero_le _, .inl (by omega), (take_answers hs).symm⟩
  | succ fuel ih =>
    rw [repetitions]
    by_cases hend : s.header.errorIndexMaxRepetitions.toNat ≤ i
    · rw [if_pos hend]
      exact ⟨0, Nat.zero_le _, .inl (by omega), (take_answers hs).symm⟩
    obtain ⟨m, hm⟩ : ∃ m, s.header.errorIndexMaxRepetitions.toNat - i = m + 1 :=
      ⟨s.header.errorIndexMaxRepetitions.toNat - i - 1, by omega⟩
    have hm' : s.header.errorIndexMaxRepetitions.toNat - (i + 1) = m := by omega
    rw [if_neg hend, hm]
    have hrow := @repetition_spec ρ oid mib maxNrValues s hv hs
      (varbindsLength - s.header.errorStatusNonRepeaters.toNat) s.header.errorStatusNonRepeaters.toNat
    simp only
    generalize repetition oid maxNrValues mib
      (varbindsLength - s.header.errorStatusNonRepeaters.toNat)
      s.header.errorStatusNonRepeaters.toNat s = one at hrow ⊢
    obtain ⟨hheader, hle, -, hanswers, hmore⟩ := hrow
    obtain ⟨rows, hrows, hstop, hrest⟩ := @ih (i + 1) one.1 (by rw [hheader, hv]) hle
      (by rw [hheader]; omega)
    rw [hheader, hm'] at hrows hstop
    rw [hheader] at hrest
    by_cases hroom : one.1.length < maxNrValues
    · obtain ⟨hoids, hflag⟩ := hmore hroom
      by_cases hone : one.2 = true
      · have hnext : ∀ j ∈ range' s.header.errorStatusNonRepeaters.toNat
            (varbindsLength - s.header.errorStatusNonRepeaters.toNat), ∀ k,
            walk oid mib s.header (one.1.oids j) k = walk oid mib s.header (s.oids j) (k + 1) := by
          intro j hj k
          rw [hoids, if_pos (mem_range'_1.mp hj), walk_succ]
        rw [if_pos hone]
        refine ⟨rows + 1, Nat.succ_le_succ hrows, ?_, ?_⟩
        · rcases hstop with hall | ⟨k, hk, hlast⟩
          · exact .inl (congrArg (· + 1) hall)
          · refine .inr ⟨k + 1, congrArg (· + 1) hk, fun j hj => ?_⟩
            rw [← hnext j hj]
            exact hlast j hj
        · rw [hrest, hanswers, take_take_append, append_assoc, range_succ_eq_map,
            flatMap_cons, flatMap_map]
          have hsame : ∀ k ∈ range rows, (range' s.header.errorStatusNonRepeaters.toNat
              (varbindsLength - s.header.errorStatusNonRepeaters.toNat)).map (fun j =>
                (walk oid mib s.header (one.1.oids j) k).2) =
              (range' s.header.errorStatusNonRepeaters.toNat
              (varbindsLength - s.header.errorStatusNonRepeaters.toNat)).map fun j =>
                (walk oid mib s.header (s.oids j) (k + 1)).2 :=
            fun k _ => map_congr_left fun j hj => by rw [hnext j hj]
          rw [flatMap_congr hsame]
      · rw [if_neg hone]
        refine ⟨1, Nat.succ_le_succ (Nat.zero_le m), .inr ⟨0, rfl, fun j hj => ?_⟩, by simpa using hanswers⟩
        by_contra hvalue
        exact hone (hflag.mpr ⟨j, hj, hvalue⟩)
    · -- there is no room for what comes behind
      have hfull : one.1.answers.length = maxNrValues := by
        rw [length_answers]
        omega
      have hsame : (if one.2 = true then repetitions oid maxNrValues mib varbindsLength fuel (i + 1)
          one.1 else one.1).answers = one.1.answers := by
        split
        · rw [hrest, ← hfull, take_left]
        · rfl
      refine ⟨_, Nat.le_refl _, .inl rfl, ?_⟩
      rw [hsame, range_succ_eq_map, flatMap_cons, ← append_assoc,
        ← take_take_append (s.answers ++ _), ← hanswers, ← hfull, take_left]

end Bulk

/-- The varbinds of a GET-BULK request: what is found for those that are not repeated, then the walks
of the others, side by side, as many repetitions as were asked for or until all of them have come to the
end of the view, and of all this as much as there is room for. -/
def BulkLaw (oid : ρ → Oid) (maxNrValues : ℕ) (mib : List ρ) (header : SnmpHeader)
    (varbinds : List (Varbind ρ)) : Prop :=
  let nonRepeaters := header.errorStatusNonRepeaters.toNat
  let maxRepetitions := header.errorIndexMaxRepetitions.toNat
  ∃ rows ≤ maxRepetitions,
    (rows = maxRepetitions ∨ ∃ k, rows = k + 1 ∧ ∀ v ∈ varbinds.drop nonRepeaters,
      (walk oid mib header v.oid k).2.value = .endOfMibView) ∧
    (snmpEngineGetBulk oid maxNrValues mib header varbinds).answers =
      ((varbinds.take nonRepeaters).filterMap
          (fun v => (snmpMibFindNext oid mib v.oid).map (handled oid)) ++
        (List.range rows).flatMap fun k => (varbinds.drop nonRepeaters).map fun v =>
          (walk oid mib header v.oid k).2).take maxNrValues

theorem map_range'_getD {α β : Type*} (l : List α) (d : α) (f : α → β) (i n : ℕ)
    (hin : n ≤ l.length - i) :
    (range' i n).map (fun j => f (l.getD j d)) = ((l.drop i).take n).map f := by
  refine ext_getElem ?_ fun k hk hk' => ?_
  · simp
    omega
  · have hlt : i + k < l.length := by
      have hkn : k < n := by simpa using hk
      omega
    simp [List.getElem?_eq_getElem hlt]

/-- **A GET-BULK request is answered by walks**, whatever the list is. -/
theorem snmpEngineGetBulk_answers (maxNrValues : ℕ) (mib : List ρ)
    (varbinds : List (Varbind ρ)) (hv : header.version = .v2c) :
    BulkLaw oid maxNrValues mib header varbinds := by
  obtain ⟨d, hd⟩ : ∃ d : Varbind ρ, d = ⟨⟨[], forall_mem_nil _, by decide⟩, .unset⟩ := ⟨_, rfl⟩
  obtain ⟨s, hs⟩ : ∃ s : Bulk ρ, s = ⟨header, fun i => varbinds.getD i d, 0,
      fun i => (varbinds.getD i d).oid⟩ := ⟨_, rfl⟩
  have hfirst := @nonRepeaters_spec ρ oid mib 0 varbinds.length maxNrValues s (by rw [hs, hv])
    (by rw [hs]; exact Nat.zero_le _) (by rw [hs])
  rw [BulkLaw, snmpEngineGetBulk]
  simp only [← hd, ← hs]
  generalize nonRepeaters oid maxNrValues mib varbinds.length 0 s = s₁ at hfirst ⊢
  obtain ⟨hheader, hoids, hle, hanswers⟩ := hfirst
  obtain ⟨rows, hrows, hstop, hrest⟩ := @repetitions_spec ρ oid mib 0 maxNrValues varbinds.length s₁
    (by rw [hheader, hs, hv]) hle (2 ^ 32) (by omega)
  rw [hanswers, take_take_append] at hrest
  rw [hheader, hoids] at hrest hstop
  rw [hheader] at hrows
  simp only [hs, Nat.sub_zero] at hrows hstop hrest
  have hwalks (k : ℕ) : (range' header.errorStatusNonRepeaters.toNat
      (varbinds.length - header.errorStatusNonRepeaters.toNat)).map (fun j =>
        (walk oid mib header (varbinds.getD j d).oid k).2) =
      (varbinds.drop header.errorStatusNonRepeaters.toNat).map fun v =>
        (walk oid mib header v.oid k).2 := by
    rw [map_range'_getD varbinds d (fun v => (walk oid mib header v.oid k).2) _ _ (Nat.le_refl _),
      take_of_length_le (by rw [length_drop])]
  have hfound : (range' 0 (min varbinds.length header.errorStatusNonRepeaters.toNat)).filterMap
      (fun j => (snmpMibFindNext oid mib (varbinds.getD j d).oid).map (handled oid)) =
      (varbinds.take header.errorStatusNonRepeaters.toNat).filterMap fun v =>
        (snmpMibFindNext oid mib v.oid).map (handled oid) := by
    have hmap := map_range'_getD varbinds d id 0
      (min varbinds.length header.errorStatusNonRepeaters.toNat) (by omega)
    rw [drop_zero, map_id, Nat.min_comm, ← take_eq_take_min] at hmap
    rw [← hmap, filterMap_map, Nat.min_comm]
    rfl
  refine ⟨rows, hrows, ?_, ?_⟩
  · rcases hstop with hall | ⟨k, hk, hend⟩
    · exact .inl hall
    · refine .inr ⟨k, hk, fun v hvmem => ?_⟩
      have hmem : (walk oid mib header v.oid k).2 ∈ (varbinds.drop
          header.errorStatusNonRepeaters.toNat).map fun v => (walk oid mib header v.oid k).2 :=
        mem_map_of_mem hvmem
      rw [← hwalks k, mem_map] at hmem
      obtain ⟨j, hj, hwalk⟩ := hmem
      rw [← hwalk]
      exact hend j hj
  · rw [hrest, hfound]
    simp only [hwalks]
    rfl

/-! ## The law -/

/-- The list has the resources that were added, in the order of their OIDs, and finds each; the walk
from any OID visits those behind it one after the other and then comes to the end of the view; and so do
the walks of a GET-BULK request. -/
structure MibLaw (oid : ρ → Oid) (maxNrValues : ℕ) (adds mib : List ρ) : Prop where
  complete : ∀ r, r ∈ mib ↔ r ∈ adds
  ordered : mib.Pairwise fun r s => (oid r).key < (oid s).key
  find : ∀ r ∈ adds, snmpMibFind oid mib (oid r) = some r
  getNext : ∀ header varbinds, (snmpEngineGetNext oid mib header 0 varbinds).2 =
    varbinds.map fun v => (getNextOne oid mib header 0 v).2
  walk : ∀ header o k, walk oid mib header o k = match (behind oid mib o)[k]? with
    | some r => (header, handled oid r)
    | none => noNext header 0 ⟨lastOid oid mib o, .unset⟩
  bulk : ∀ header varbinds, header.version = .v2c → BulkLaw oid maxNrValues mib header varbinds

/-- **The law holds if and only if** each resource is added behind the others. -/
theorem mibLaw_iff [DecidableEq ρ] {maxNrValues : ℕ}
    (hadds : adds.Pairwise fun r s => oid r ≠ oid s) :
    MibLaw oid maxNrValues adds (adds.foldl (snmpMibAdd oid) []) ↔
      adds.Pairwise fun r s => (oid r).key < (oid s).key := by
  have hnodup : adds.Nodup := hadds.imp fun hne heq => hne (congrArg oid heq)
  constructor
  · intro h
    have hsub : adds.Subperm (adds.foldl (snmpMibAdd oid) []) :=
      hnodup.subperm fun r hr => (h.complete r).mpr hr
    have hall := (@foldl_snmpMibAdd ρ oid [] adds _ hnodup fun r _ => List.not_mem_nil).2
      (by simpa using hsub.length_le)
    have hordered := h.ordered
    rw [hall] at hordered
    exact hordered
  · intro h
    have hall : adds.foldl (snmpMibAdd oid) [] = adds := foldl_snmpMibAdd_of_increasing h
    rw [hall]
    have hinj : ∀ r ∈ adds, ∀ s ∈ adds, oid s = oid r → s = r := fun r hr s hs heq =>
      List.inj_on_of_nodup_map (List.pairwise_map.mpr hadds) hs hr heq
    exact ⟨fun _ => Iff.rfl, h, fun r hr => snmpMibFind_of_mem hr (hinj r hr),
      fun _ => snmpEngineGetNext_answers, fun _ _ _ => walk_eq h,
      fun _ varbinds hv => snmpEngineGetBulk_answers maxNrValues adds varbinds hv⟩

/-- The OIDs 1 and 1.3. -/
def exampleOid (long : Bool) : Oid where
  subids := if long then [1, 3] else [1]
  ne_end := by cases long <;> simp [oidEnd]
  length_lt := by cases long <;> decide

theorem mibLaw_two : ([false, true].Pairwise fun r s => exampleOid r ≠ exampleOid s) ∧
    MibLaw exampleOid 2 [false, true] ([false, true].foldl (snmpMibAdd exampleOid) []) := by
  have hne : [false, true].Pairwise fun r s => exampleOid r ≠ exampleOid s := by
    simp [exampleOid]
  exact ⟨hne, (mibLaw_iff hne).mpr (by simp [exampleOid, Oid.key])⟩

/-- Added the other way, neither is in the list. -/
theorem lower_resource_lost :
    ¬ MibLaw exampleOid 2 [true, false] ([true, false].foldl (snmpMibAdd exampleOid) []) := by
  intro h
  have hmem := (h.complete true).mpr (List.mem_cons_self ..)
  have hnil : [true, false].foldl (snmpMibAdd exampleOid) [] = [] := by decide
  rw [hnil] at hmem
  cases hmem

end Asap.Snmp
