import Mathlib.Data.BitVec
import Mathlib.Data.List.Basic
import Mathlib.Tactic.Common
import Mathlib.Tactic.ByContra
import Mathlib.Algebra.Order.Ring.Int

/-!
# The index of a micro log

A file that is modified has a log: a table with a word for each record, and behind it the records.
The word of a record is the region of the file it is for, plus one, and words that are not written
yet are zero. How many records there are, and which is the most recent one for a region, is looked
up in the table, a batch of words at a time.

## Main definitions

* `LogState`, `LogState.writeRecord` — the table, and how a record comes into it.
* `findNextRecord`, `getRecordIndex` — the two searches.
* `MicroLogLaw` — both find what was written.
-/

namespace Asap.Coffee

/-- `COFFEE_LOG_TABLE_LIMIT` -/
structure LogConfig where
  tableLimit : ℕ
  tableLimit_pos : 0 < tableLimit

/-- The index table of a log, and how many records are written. -/
structure LogState where
  table : ℕ → BitVec 16
  records : ℕ

/-- A log that has just been created. -/
def LogState.created : LogState := ⟨fun _ => 0, 0⟩

/-- The part of `write_log_page` that writes the index. -/
def LogState.writeRecord (s : LogState) (region : BitVec 16) : LogState :=
  ⟨fun i => if i = s.records then region + 1 else s.table i, s.records + 1⟩

/-- The log after some records. -/
def LogState.written (regions : List (BitVec 16)) : LogState :=
  regions.foldl LogState.writeRecord .created

section

variable (cfg : LogConfig) (table : ℕ → BitVec 16)

/-- The inner loop of `find_next_record`, over the words of a batch. It leaves the number of words
where none of them is zero. -/
def findInBatch (processed batchSize : ℕ) : ℕ :=
  match (List.range batchSize).find? fun i => table (processed + i) = 0 with
  | some i => i + processed
  | none => batchSize

/-- The outer loop of `find_next_record`. -/
def nextRecordLoop (logRecords preferredBatchSize : ℕ) : ℕ → ℕ → ℕ → ℕ
  | 0, _, logRecord => logRecord
  | fuel + 1, processed, logRecord =>
    if processed < logRecords then
      let batchSize :=
        if preferredBatchSize ≤ logRecords - processed then preferredBatchSize
        else logRecords - processed
      nextRecordLoop logRecords preferredBatchSize fuel (processed + batchSize)
        (findInBatch table processed batchSize)
    else logRecord

/-- `find_next_record`, with as many rounds as there may be. -/
def findNextRecord (recordCount : ℤ) (logRecords : ℕ) : ℤ :=
  if 0 ≤ recordCount then recordCount
  else
    let preferredBatchSize := if cfg.tableLimit < logRecords then cfg.tableLimit else logRecords
    nextRecordLoop table logRecords preferredBatchSize (logRecords + 1) 0 logRecords

/-- The inner loop of `get_record_index`, from the last word of a batch down. -/
def matchInBatch (base : ℕ) (region : BitVec 16) : ℕ → Option ℕ
  | 0 => none
  | n + 1 =>
    if ((table (base + n)).toNat : ℤ) - 1 = region.toNat then some n
    else matchInBatch base region n

/-- The outer loop of `get_record_index`; `base` counts words from the start of the table, and
the index that matches has 16 bits. -/
def recordIndexLoop (searchRecords : ℕ) (region : BitVec 16) : ℕ → ℕ → ℕ → ℕ → ℤ → ℤ
  | 0, _, _, _, matchIndex => matchIndex
  | fuel + 1, processed, batchSize, base, matchIndex =>
    if processed < searchRecords ∧ matchIndex < 0 then
      let batchSize :=
        if searchRecords < batchSize + processed then searchRecords - processed else batchSize
      let base := base - batchSize
      let matchIndex :=
        match matchInBatch table base region batchSize with
        | some i => (BitVec.ofInt 16 (searchRecords - processed - (batchSize - i))).toInt
        | none => matchIndex
      recordIndexLoop searchRecords region fuel (processed + batchSize) batchSize base matchIndex
    else matchIndex

/-- `get_record_index`, with as many rounds as there may be. -/
def getRecordIndex (searchRecords : ℕ) (region : BitVec 16) : ℤ :=
  let batchSize := if cfg.tableLimit < searchRecords then cfg.tableLimit else searchRecords
  recordIndexLoop table searchRecords region (searchRecords + 1) 0 batchSize searchRecords (-1)

end

/-- The position of the most recent record for a region, or `-1`. -/
def MostRecent (regions : List (BitVec 16)) (region : BitVec 16) (m : ℤ) : Prop :=
  (m = -1 ∧ region ∉ regions) ∨
    ∃ i : ℕ, m = i ∧ regions[i]? = some region ∧ ∀ j > i, regions[j]? ≠ some region

/-- Without a cached number of records, the number of records is found, and for every region the
most recent record. The search goes over the records that are known, or over the whole table. -/
structure MicroLogLaw (cfg : LogConfig) (logRecords : ℕ) (regions : List (BitVec 16)) : Prop where
  next : ∀ recordCount < 0,
    findNextRecord cfg (LogState.written regions).table recordCount logRecords = regions.length
  index : ∀ searchRecords, regions.length ≤ searchRecords → searchRecords ≤ logRecords →
    ∀ region, MostRecent regions region
      (getRecordIndex cfg (LogState.written regions).table searchRecords region)

/-! ## What is written -/

variable {cfg : LogConfig} {table : ℕ → BitVec 16} {regions : List (BitVec 16)}
  {region : BitVec 16} {logRecords searchRecords : ℕ}

theorem written_append (regions : List (BitVec 16)) (region : BitVec 16) :
    LogState.written (regions ++ [region]) = (LogState.written regions).writeRecord region := by
  simp [LogState.written, List.foldl_append]

/-- The table has the regions in the order in which they were written, plus one. -/
theorem written_spec (regions : List (BitVec 16)) :
    (LogState.written regions).records = regions.length ∧
      ∀ i, (LogState.written regions).table i = (regions[i]?.map (· + 1)).getD 0 := by
  induction regions using List.reverseRecOn with
  | nil => exact ⟨rfl, fun _ => rfl⟩
  | append_singleton regions region ih =>
    rw [written_append]
    refine ⟨by simp [LogState.writeRecord, ih.1], fun i => ?_⟩
    simp only [LogState.writeRecord, ih.1]
    split_ifs with hi
    · simp [hi]
    · rw [ih.2]
      by_cases hlt : i < regions.length
      · rw [List.getElem?_append_left hlt]
      · have hgt : regions.length < i := by omega
        rw [List.getElem?_eq_none (by omega), List.getElem?_eq_none (by simp; omega)]

/-- A word stands for a region exactly if the record was for it, and for no record it stands for
the last region. -/
theorem stands_iff (i : ℕ) :
    (((LogState.written regions).table i).toNat : ℤ) - 1 = region.toNat ↔
      regions[i]? = some region ∧ region.toNat ≠ 65535 := by
  rw [(written_spec regions).2]
  have hregion := region.isLt
  cases hget : regions[i]? with
  | none =>
    simp only [Option.map_none, Option.getD_none]
    constructor
    · intro h
      exact absurd h (by simp)
    · intro h
      exact absurd h.1 (by simp)
  | some r =>
    have hr := r.isLt
    simp only [Option.map_some, Option.getD_some, Option.some.injEq, BitVec.toNat_add]
    constructor
    · intro h
      have hne : r.toNat ≠ 65535 := by
        intro hlast
        simp [hlast] at h
      have hsame : r.toNat = region.toNat := by
        simp at h
        omega
      exact ⟨BitVec.eq_of_toNat_eq hsame, by omega⟩
    · rintro ⟨rfl, hne⟩
      simp
      omega

theorem written_eq_zero_iff (hlast : 65535#16 ∉ regions) (i : ℕ) :
    (LogState.written regions).table i = 0 ↔ regions.length ≤ i := by
  rw [(written_spec regions).2]
  cases hget : regions[i]? with
  | none => simpa using hget
  | some r =>
    have hlt : i < regions.length := (List.getElem?_eq_some_iff.mp hget).1
    have hne : r ≠ 65535#16 := fun h => hlast (h ▸ List.mem_of_getElem? hget)
    simp only [Option.map_some, Option.getD_some]
    constructor
    · intro h
      exact absurd (by bv_omega) hne
    · intro h
      omega

/-! ## The next record -/

/-- The first word of the last batch. -/
def lastBatch (cfg : LogConfig) (logRecords : ℕ) : ℕ :=
  cfg.tableLimit * ((logRecords - 1) / cfg.tableLimit)

/-- The search in a batch, for the number of records written. -/
theorem findInBatch_written (hlast : 65535#16 ∉ regions) (processed batchSize : ℕ) :
    findInBatch (LogState.written regions).table processed batchSize =
      if regions.length ≤ processed ∧ 0 < batchSize then processed
      else if processed < regions.length ∧ regions.length < processed + batchSize then regions.length
      else batchSize := by
  have hzero := written_eq_zero_iff hlast
  rw [findInBatch]
  cases hfind : (List.range batchSize).find?
      fun i => decide ((LogState.written regions).table (processed + i) = 0) with
  | none =>
    simp only [List.find?_eq_none, List.mem_range, decide_eq_true_eq, hzero, not_le] at hfind
    rw [if_neg, if_neg]
    · intro h
      have hin := hfind (regions.length - processed) (by omega)
      omega
    · intro h
      have hin := hfind 0 h.2
      omega
  | some i =>
    rw [List.find?_range_eq_some] at hfind
    simp only [decide_eq_true_eq, hzero, List.mem_range, Bool.not_eq_true', decide_eq_false_iff_not,
      not_le] at hfind
    have ⟨hi, hbatch, hbefore⟩ := hfind
    by_cases hle : regions.length ≤ processed
    · have hfirst : i = 0 := by
        by_contra hne
        have hin := hbefore 0 (by omega)
        omega
      rw [if_pos ⟨hle, by omega⟩, hfirst]
      exact Nat.zero_add processed
    · have hexact : i + processed = regions.length := by
        by_contra hne
        have hin := hbefore (regions.length - processed) (by omega)
        omega
      rw [if_neg (by omega), if_pos (by omega)]
      exact hexact

/-- The outer loop leaves what is found in the last batch. -/
theorem nextRecordLoop_eq {fuel processed logRecord k : ℕ} (hprocessed : processed = cfg.tableLimit * k)
    (hlt : processed < logRecords) (hlimit : cfg.tableLimit < logRecords)
    (hfuel : logRecords < fuel + processed) :
    nextRecordLoop table logRecords cfg.tableLimit fuel processed logRecord =
      findInBatch table (lastBatch cfg logRecords) (logRecords - lastBatch cfg logRecords) := by
  have hpos := cfg.tableLimit_pos
  induction fuel generalizing processed logRecord k with
  | zero => omega
  | succ fuel ih =>
    rw [nextRecordLoop, if_pos hlt]
    simp only
    by_cases hlast : logRecords ≤ processed + cfg.tableLimit
    · have hbatch : lastBatch cfg logRecords = processed := by
        have hdiv : (logRecords - 1) / cfg.tableLimit = k := by
          rw [Nat.div_eq_iff hpos]
          rw [hprocessed, Nat.mul_comm] at hlt hlast
          omega
        rw [lastBatch, hdiv, hprocessed]
      have hsize : (if cfg.tableLimit ≤ logRecords - processed then cfg.tableLimit
          else logRecords - processed) = logRecords - processed := by
        split_ifs <;> omega
      have hdone : processed + (logRecords - processed) = logRecords := by omega
      rw [hsize, hbatch, hdone]
      cases fuel with
      | zero => rfl
      | succ fuel => rw [nextRecordLoop, if_neg (Nat.lt_irrefl _)]
    · rw [if_pos (show cfg.tableLimit ≤ logRecords - processed by omega)]
      exact ih (k := k + 1) (by rw [hprocessed, Nat.mul_succ]) (by omega) (by omega)

/-- **The number of records is found** exactly if the log has one batch, or the next record comes
into the last batch and there is room for it. -/
theorem findNextRecord_iff (hlast : 65535#16 ∉ regions) (hfit : regions.length ≤ logRecords) :
    (∀ recordCount < 0, findNextRecord cfg (LogState.written regions).table recordCount logRecords =
      regions.length) ↔ logRecords ≤ cfg.tableLimit ∨
        (lastBatch cfg logRecords ≤ regions.length ∧ regions.length < logRecords) := by
  have hpos := cfg.tableLimit_pos
  have hcount : ∀ n : ℕ, (∀ recordCount < (0 : ℤ), (if 0 ≤ recordCount then recordCount else n) =
      regions.length) ↔ n = regions.length := by
    intro n
    constructor
    · intro h
      have hone := h (-1) (by decide)
      rw [if_neg (by decide)] at hone
      exact Int.ofNat.inj hone
    · intro h recordCount hneg
      rw [if_neg (by omega), h]
  simp only [findNextRecord]
  rw [hcount]
  by_cases hlimit : cfg.tableLimit < logRecords
  · have hbelow : lastBatch cfg logRecords < logRecords := by
      have hle := Nat.mul_div_le (logRecords - 1) cfg.tableLimit
      rw [lastBatch]
      omega
    have habove : 0 < lastBatch cfg logRecords :=
      Nat.mul_pos hpos (Nat.div_pos (by omega) hpos)
    rw [if_pos hlimit, nextRecordLoop_eq (k := 0) (Nat.mul_zero _).symm (by omega) hlimit (by omega),
      findInBatch_written hlast]
    split_ifs <;> omega
  · rw [if_neg hlimit, nextRecordLoop]
    simp only [Nat.zero_add, Nat.sub_zero, le_refl, if_true]
    by_cases hzero : logRecords = 0
    · rw [if_neg (by omega)]
      omega
    · rw [if_pos (by omega), findInBatch_written hlast]
      cases logRecords with
      | zero => exact absurd rfl hzero
      | succ n =>
        rw [nextRecordLoop, if_neg (Nat.lt_irrefl _)]
        split_ifs <;> omega

/-! ## The most recent record -/

/-- The search from the last word of a batch down. -/
theorem matchInBatch_spec (base n : ℕ) :
    match matchInBatch table base region n with
    | some i => i < n ∧ ((table (base + i)).toNat : ℤ) - 1 = region.toNat ∧
        ∀ j, i < j → j < n → ((table (base + j)).toNat : ℤ) - 1 ≠ region.toNat
    | none => ∀ j < n, ((table (base + j)).toNat : ℤ) - 1 ≠ region.toNat := by
  induction n with
  | zero => exact fun j hj => absurd hj (Nat.not_lt_zero j)
  | succ n ih =>
    rw [matchInBatch]
    by_cases hmatch : ((table (base + n)).toNat : ℤ) - 1 = region.toNat
    · rw [if_pos hmatch]
      exact ⟨Nat.lt_succ_self n, hmatch, fun j hnj hjn => by omega⟩
    · rw [if_neg hmatch]
      have hbehind : ∀ j, ¬j < n → j < n + 1 → ((table (base + j)).toNat : ℤ) - 1 ≠ region.toNat := by
        intro j hn hj
        have heq : j = n := by omega
        rw [heq]
        exact hmatch
      cases hrest : matchInBatch table base region n with
      | none =>
        rw [hrest] at ih
        intro j hj
        by_cases hn : j < n
        · exact ih j hn
        · exact hbehind j hn hj
      | some i =>
        rw [hrest] at ih
        refine ⟨by omega, ih.2.1, fun j hij hj => ?_⟩
        by_cases hn : j < n
        · exact ih.2.2 j hij hn
        · exact hbehind j hn hj

/-- A word stands for a region, and no later one does. -/
def LastMatch (table : ℕ → BitVec 16) (region : BitVec 16) (n : ℕ) (m : ℤ) : Prop :=
  (m = -1 ∧ ∀ j < n, ((table j).toNat : ℤ) - 1 ≠ region.toNat) ∨
    ∃ i < n, m = i ∧ ((table i).toNat : ℤ) - 1 = region.toNat ∧
      ∀ j, i < j → j < n → ((table j).toNat : ℤ) - 1 ≠ region.toNat

theorem toInt_ofInt_of_lt {i : ℕ} (h : i < 32768) : (BitVec.ofInt 16 i).toInt = i := by
  rw [BitVec.toInt_ofInt]
  exact Int.bmod_eq_of_le (by omega) (by omega)

/-- **The outer loop finds the last word** for the region among those that are not searched yet,
as long as the words that stand for it are at places that fit in 16 bits. -/
theorem recordIndexLoop_spec {fuel processed batchSize base : ℕ}
    (hsmall : ∀ i < searchRecords, ((table i).toNat : ℤ) - 1 = region.toNat → i < 32768)
    (hbase : processed + base = searchRecords) (hbatch : 0 < batchSize ∨ base = 0)
    (hfuel : base < fuel) :
    LastMatch table region base
      (recordIndexLoop table searchRecords region fuel processed batchSize base (-1)) := by
  induction fuel generalizing processed batchSize base with
  | zero => omega
  | succ fuel ih =>
    rw [recordIndexLoop]
    by_cases hmore : processed < searchRecords
    · rw [if_pos ⟨hmore, by decide⟩]
      simp only
      have hsize : ∃ size, (if searchRecords < batchSize + processed then searchRecords - processed
          else batchSize) = size ∧ 0 < size ∧ size ≤ base := by
        refine ⟨_, rfl, ?_⟩
        split_ifs <;> omega
      have ⟨size, hif, hpos, hle⟩ := hsize
      rw [hif]
      have hspec := @matchInBatch_spec table region (base - size) size
      cases hmatch : matchInBatch table (base - size) region size with
      | none =>
        rw [hmatch] at hspec
        have hbatchfree : ∀ j, base - size ≤ j → j < base →
            ((table j).toNat : ℤ) - 1 ≠ region.toNat := by
          intro j hlow hhigh
          have hin := hspec (j - (base - size)) (by omega)
          rwa [Nat.add_sub_cancel' hlow] at hin
        cases @ih (processed + size) size (base - size) (by omega) (by omega) (by omega) with
        | inl hnone =>
          refine Or.inl ⟨hnone.1, fun j hj => ?_⟩
          by_cases hlow : j < base - size
          · exact hnone.2 j hlow
          · exact hbatchfree j (by omega) hj
        | inr hsome =>
          have ⟨i, hi, hm, hat, hlater⟩ := hsome
          refine Or.inr ⟨i, by omega, hm, hat, fun j hij hj => ?_⟩
          by_cases hlow : j < base - size
          · exact hlater j hij hlow
          · exact hbatchfree j (by omega) hj
      | some i =>
        rw [hmatch] at hspec
        have ⟨hi, hat, hlater⟩ := hspec
        have hplace : (searchRecords : ℤ) - processed - (size - i) = (base - size + i : ℕ) := by omega
        have hfits := hsmall (base - size + i) (by omega) hat
        simp only
        rw [hplace, toInt_ofInt_of_lt hfits]
        have hstop : recordIndexLoop table searchRecords region fuel (processed + size) size
            (base - size) (base - size + i : ℕ) = (base - size + i : ℕ) := by
          cases fuel with
          | zero => rfl
          | succ fuel =>
            rw [recordIndexLoop, if_neg]
            omega
        rw [hstop]
        refine Or.inr ⟨_, by omega, rfl, hat, fun j hij hj => ?_⟩
        have hin := hlater (j - (base - size)) (by omega) (by omega)
        rwa [Nat.add_sub_cancel' (by omega)] at hin
    · rw [if_neg (fun h => hmore h.1)]
      exact Or.inl ⟨rfl, fun j hj => by omega⟩

/-- An index has 16 bits. -/
theorem recordIndexLoop_lt {fuel processed batchSize base : ℕ} {m : ℤ} (hm : m < 32768) :
    recordIndexLoop table searchRecords region fuel processed batchSize base m < 32768 := by
  induction fuel generalizing processed batchSize base m with
  | zero => exact hm
  | succ fuel ih =>
    rw [recordIndexLoop]
    by_cases hgo : processed < searchRecords ∧ m < 0
    · rw [if_pos hgo]
      refine ih ?_
      split
      · exact lt_of_lt_of_le BitVec.toInt_lt (by decide)
      · exact hm
    · rw [if_neg hgo]
      exact hm

theorem getRecordIndex_spec
    (hsmall : ∀ i < searchRecords, ((table i).toNat : ℤ) - 1 = region.toNat → i < 32768) :
    LastMatch table region searchRecords (getRecordIndex cfg table searchRecords region) := by
  refine recordIndexLoop_spec hsmall (Nat.zero_add _) ?_ (Nat.lt_succ_self _)
  have hpos := cfg.tableLimit_pos
  split_ifs <;> omega

/-- In a table with the regions that were written, the last word is the most recent record. -/
theorem LastMatch.mostRecent {m : ℤ} (h : LastMatch (LogState.written regions).table region
    searchRecords m) (hall : regions.length ≤ searchRecords) (hlast : region ∈ regions →
      region.toNat ≠ 65535) : MostRecent regions region m := by
  cases h with
  | inl hnone =>
    refine Or.inl ⟨hnone.1, fun hmem => ?_⟩
    have ⟨i, hi, hget⟩ := List.getElem_of_mem hmem
    refine hnone.2 i (by omega) ((stands_iff i).mpr ⟨?_, hlast hmem⟩)
    rw [← hget, List.getElem?_eq_getElem hi]
  | inr hsome =>
    have ⟨i, hi, hm, hat, hlater⟩ := hsome
    have hget := (stands_iff i).mp hat
    refine Or.inr ⟨i, hm, hget.1, fun j hij hj => ?_⟩
    have hlt : j < regions.length := (List.getElem?_eq_some_iff.mp hj).1
    exact hlater j hij (by omega) ((stands_iff j).mpr ⟨hj, hget.2⟩)

/-- **Exactly when the searches agree with what was written.** The log is found to have as many
records as were written if the table is read in one batch, or the next record comes into the last
batch and there is room for it. The most recent record of each region is found if there are no more
than 32768 records and none of them is for the last region, whose word is zero. -/
theorem micro_log_law (cfg : LogConfig) (logRecords : ℕ) (regions : List (BitVec 16))
    (hfit : regions.length ≤ logRecords) :
    MicroLogLaw cfg logRecords regions ↔
      (logRecords ≤ cfg.tableLimit ∨
        (lastBatch cfg logRecords ≤ regions.length ∧ regions.length < logRecords)) ∧
      regions.length ≤ 32768 ∧ 65535#16 ∉ regions := by
  constructor
  · intro h
    have hlast : 65535#16 ∉ regions := by
      intro hmem
      have hspec : LastMatch (LogState.written regions).table 65535#16 logRecords
          (getRecordIndex cfg (LogState.written regions).table logRecords 65535#16) :=
        getRecordIndex_spec fun i _ hat => absurd ((stands_iff i).mp hat).2 (by decide)
      cases hspec with
      | inl hnone =>
        cases h.index logRecords hfit (le_refl _) 65535#16 with
        | inl habsent => exact habsent.2 hmem
        | inr hfound =>
          have ⟨i, hm, _⟩ := hfound
          omega
      | inr hsome =>
        have ⟨i, _, _, hat, _⟩ := hsome
        exact absurd ((stands_iff i).mp hat).2 (by decide)
    refine ⟨(findNextRecord_iff hlast hfit).mp h.next, ?_, hlast⟩
    by_contra hmany
    have hlt : regions.length - 1 < regions.length := by omega
    have hmem := List.getElem_mem hlt
    cases h.index logRecords hfit (le_refl _) (regions[regions.length - 1]) with
    | inl habsent => exact habsent.2 hmem
    | inr hfound =>
      have ⟨i, hm, hget, hlater⟩ := hfound
      have hbound : getRecordIndex cfg (LogState.written regions).table logRecords
          (regions[regions.length - 1]) < 32768 := recordIndexLoop_lt (by decide)
      refine hlater (regions.length - 1) (by omega) ?_
      rw [List.getElem?_eq_getElem hlt]
  · rintro ⟨hbatch, hmany, hlast⟩
    refine ⟨(findNextRecord_iff hlast hfit).mpr hbatch, fun searchRecords hall _ region => ?_⟩
    refine LastMatch.mostRecent (getRecordIndex_spec fun i _ hat => ?_) hall fun hmem hregion => ?_
    · have hlt := (List.getElem?_eq_some_iff.mp ((stands_iff i).mp hat).1).1
      omega
    · exact hlast (BitVec.eq_of_toNat_eq (y := 65535#16) hregion ▸ hmem)

/-- A log of 32 records behind a table that is read in two batches of 16. -/
def twoBatches : LogConfig := ⟨16, by decide⟩

theorem micro_log_law_second_batch :
    MicroLogLaw twoBatches 32 (List.replicate 20 3) :=
  (micro_log_law twoBatches 32 (List.replicate 20 3) (by decide)).mpr (by decide)

/-- **After one record the search says sixteen,** and in the full log it says sixteen as well. -/
theorem micro_log_short :
    findNextRecord twoBatches (LogState.written [3]).table (-1) 32 = 16 ∧
      findNextRecord twoBatches (LogState.written (List.replicate 32 3)).table (-1) 32 = 16 ∧
      ¬MicroLogLaw twoBatches 32 [3] := by
  refine ⟨by decide, by decide, fun h => ?_⟩
  exact absurd ((micro_log_law twoBatches 32 [3] (by decide)).mp h) (by decide)

end Asap.Coffee
