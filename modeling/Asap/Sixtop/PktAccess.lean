import Asap.Lib.Run
import Asap.Sixtop.Pkt
import Mathlib.Data.List.Pairwise

/-!
# What the getters and setters of a 6P message touch

A getter of a field that succeeds reads bytes of the body only, and a setter writes bytes of the
body only, unless its check of the length is missing; a payload that is copied to a larger buffer is
read beyond its end, too. Each getter returns what has been set, and a setter leaves the other
fields of the message as they are, unless it moves the end of the list of cells to relocate or
writes beyond it. The parser leaves one length open that a getter checks.

## Main definitions

* `ReadsInside`, `SetRight` — what is wanted of a getter and of a setter.
* `GetCond`, `SetCond` — when a getter and a setter are right.
* `FormatFits` — the lengths that the parser does not check.
-/

namespace Asap.Sixtop

open Asap.Lib Function List Option

/-- A getter that succeeds does the same whatever is behind the body. -/
def SixpField.ReadsInside (bufLen : ℕ) (type : SixpPktType) (code : SixpPktCode)
    (body : ℕ → Byte) (bodyLen : ℕ) (f : SixpField) : Prop :=
  ∀ v, f.get bufLen type code body bodyLen = some v → ∀ body' : ℕ → Byte,
    (∀ k < bodyLen, body' k = body k) → f.get bufLen type code body' bodyLen = some v

/-- Two fields are of one message. -/
def SameFormat (type : SixpPktType) (code : SixpPktCode) (f g : SixpField) : Prop :=
  ∃ fmt ∈ formats type code, f ∈ fmt ∧ g ∈ fmt

/-- A setter that succeeds writes nothing behind the body, whatever is there; the getter of the
field returns what is written; and the getters of the other fields return what they did before. -/
structure SixpSet.SetRight (type : SixpPktType) (code : SixpPktCode) (body : ℕ → Byte)
    (bodyLen : ℕ) (s : SixpSet) : Prop where
  inside : ∀ body' : ℕ → Byte, (∀ k < bodyLen, body' k = body k) →
    ∀ t, s.apply type code body' bodyLen = some t → ∀ k, bodyLen ≤ k → t k = body' k
  returned : ∀ t, s.apply type code body bodyLen = some t →
    ∀ bufLen v, s.field.get bufLen type code t bodyLen = some v → s.Returned v
  others : ∀ t, s.apply type code body bodyLen = some t →
    ∀ g, g ≠ s.field → SameFormat type code s.field g →
      ∀ bufLen, g.get bufLen type code t bodyLen = g.get bufLen type code body bodyLen

/-- A body has whole cells, and so many to relocate. -/
def ListsReadable (bodyLen numCells : ℕ) : Prop :=
  bodyLen % sizeofCell = 0 ∧ 4 + numCells * sizeofCell ≤ bodyLen

/-- The reserved field is in the body, and a buffer is not larger than the payload. -/
def SixpField.GetCond (bufLen : ℕ) (type : SixpPktType) (code : SixpPktCode) (bodyLen : ℕ) :
    SixpField → Prop
  | .reserved => ∀ o, getReservedOffset type code = some o → o < bodyLen
  | .payload => ∀ o, getPayloadOffset type code = some o → bufLen = 0 ∨ o + bufLen ≤ bodyLen
  | _ => True

/-- The numbers of cells are in the body, the number of cells to relocate is not changed when there
are lists of cells, and the list of cells to relocate ends where the other list begins. -/
def SixpSet.SetCond (type : SixpPktType) (code : SixpPktCode) (body : ℕ → Byte) (bodyLen : ℕ) :
    SixpSet → Prop
  | .numCells v => ∀ o, getNumCellsOffset type code = some o → o < bodyLen ∧
      (code = sixpPktCmdRelocate →
        v = body o ∨ ¬ListsReadable bodyLen (min v.toNat (body o).toNat))
  | .totalNumCells _ => ∀ o, getTotalNumCellsOffset type code = some o → o + 1 < bodyLen
  | .relCellList cells cellOffset => ∀ o, getRelCellListOffset type code = some o →
      ListsReadable bodyLen (body 3).toNat → cells.length ≤ (body 3).toNat * sizeofCell →
      cells.length % sizeofCell = 0 → o + cellOffset + cells.length ≤ bodyLen →
        cells = [] ∨ cellOffset + cells.length ≤ (body 3).toNat * sizeofCell
  | _ => True

/-- The lengths that the parser leaves open: a message to relocate has the cells it counts, and a
response is as long as the command wants that it answers. -/
def FormatFits (pkt : SixpPkt) (fmt : List SixpField) : Prop :=
  (.relCellList ∈ fmt → 4 + (pkt.body 3).toNat * sizeofCell ≤ pkt.bodyLen) ∧
    (pkt.code = sixpPktRcSuccess → .cellList ∈ fmt → pkt.bodyLen % sizeofCell = 0) ∧
    (.totalNumCells ∈ fmt → 2 ≤ pkt.bodyLen)

variable {type : SixpPktType} {code : SixpPktCode} {body body' t : ℕ → Byte}
  {bodyLen bufLen k o n size : ℕ} {f g : SixpField} {s : SixpSet} {v : List Byte}

/-! ## Offsets -/

theorem getRelCellListOffset_some (h : getRelCellListOffset type code = some o) :
    type = .request ∧ code = sixpPktCmdRelocate ∧ o = 4 := by
  rw [getRelCellListOffset] at h
  split_ifs at h with hfmt
  exact ⟨hfmt.1, hfmt.2, (Option.some.inj h).symm⟩

theorem getNumCellsOffset_some (h : getNumCellsOffset type code = some o) : o = 3 := by
  rw [getNumCellsOffset] at h
  split_ifs at h
  exact (Option.some.inj h).symm

theorem getTotalNumCellsOffset_some (h : getTotalNumCellsOffset type code = some o) : o = 0 := by
  rw [getTotalNumCellsOffset] at h
  split_ifs at h
  exact (Option.some.inj h).symm

/-! ## What is read -/

/-- The bytes of a field of one size. -/
def FieldReads (offset : Option ℕ) (size bodyLen k : ℕ) : Prop :=
  ∃ o, offset = some o ∧ o + size ≤ bodyLen ∧ o ≤ k ∧ k < o + size

/-- The bytes that a getter reads when it succeeds. -/
def SixpField.Reads (bufLen : ℕ) (type : SixpPktType) (code : SixpPktCode) (n bodyLen k : ℕ) :
    SixpField → Prop
  | .metadata => FieldReads (getMetadataOffset type) 2 bodyLen k
  | .cellOptions => FieldReads (getCellOptionsOffset type code) 1 bodyLen k
  | .numCells => FieldReads (getNumCellsOffset type code) 1 bodyLen k
  | .reserved => getReservedOffset type code = some k
  | .offset => FieldReads (getOffsetOffset type code) 2 bodyLen k
  | .maxNumCells => FieldReads (getMaxNumCellsOffset type code) 2 bodyLen k
  | .cellList => ∃ o, getCellListOffset type code = some o ∧ o ≤ k ∧ k < bodyLen
  | .relCellList => ∃ o, getRelCellListOffset type code = some o ∧ 4 ≤ bodyLen ∧ (k = 3 ∨
      o ≤ k ∧ k < o + n * sizeofCell ∧ o + n * sizeofCell ≤ bodyLen)
  | .candCellList => ∃ o, getRelCellListOffset type code = some o ∧ 4 ≤ bodyLen ∧ (k = 3 ∨
      o + n * sizeofCell ≤ k ∧ k < bodyLen)
  | .totalNumCells => FieldReads (getTotalNumCellsOffset type code) 2 bodyLen k
  | .payload => ∃ o, getPayloadOffset type code = some o ∧ o ≤ k ∧ k < o + bufLen

theorem read16_congr (h : ∀ k, o ≤ k → k < o + 2 → body' k = body k) :
    read16 body' o = read16 body o := by
  rw [read16, read16, h o (le_refl o) (by omega), h (o + 1) (by omega) (by omega)]

theorem read8_congr (h : ∀ k, o ≤ k → k < o + 1 → body' k = body k) :
    read8 body' o = read8 body o := h o (le_refl o) (by omega)

/-- A field is a matter of its bytes. -/
theorem getField_congr {α : Type} {offset : Option ℕ} {read : (ℕ → Byte) → ℕ → α}
    (hread : ∀ o, offset = some o → (∀ k, o ≤ k → k < o + size → body' k = body k) →
      read body' o = read body o)
    (h : ∀ k, FieldReads offset size bodyLen k → body' k = body k) :
    getField offset size read body' bodyLen = getField offset size read body bodyLen := by
  cases hoffset : offset with
  | none => rfl
  | some o =>
    simp only [getField, bind_some]
    split_ifs with hlen
    · rfl
    · rw [hread o hoffset fun k hle hlt => h k ⟨o, hoffset, Nat.le_of_not_lt hlen, hle, hlt⟩]

section

variable (body : ℕ → Byte) (bodyLen : ℕ)

theorem getNumCells_relocate :
    sixpPktGetNumCells .request sixpPktCmdRelocate body bodyLen =
      if bodyLen < 4 then none else some (body 3) := rfl

theorem getRelCellList_relocate :
    sixpPktGetRelCellList .request sixpPktCmdRelocate body bodyLen =
      if bodyLen < 4 then none
      else if bodyLen < 4 + (body 3).toNat * sizeofCell then none
      else if (bodyLen - 4) % sizeofCell ≠ 0 then none
      else some (bytesAt body 4 ((body 3).toNat * sizeofCell)) := by
  rw [sixpPktGetRelCellList, getNumCells_relocate]
  split_ifs <;> simp_all [getRelCellListOffset]

theorem getCandCellList_relocate :
    sixpPktGetCandCellList .request sixpPktCmdRelocate body bodyLen =
      if bodyLen < 4 then none
      else getCells (4 + (body 3).toNat * sizeofCell) body bodyLen := by
  rw [sixpPktGetCandCellList, getNumCells_relocate]
  split_ifs <;> simp [getRelCellListOffset]

end

/-- **A getter is a matter of the bytes it reads.** -/
theorem SixpField.get_congr
    (h : ∀ k, f.Reads bufLen type code (body 3).toNat bodyLen k → body' k = body k) :
    f.get bufLen type code body' bodyLen = f.get bufLen type code body bodyLen := by
  cases f with
  | metadata => exact congrArg (Option.map le16) (getField_congr (fun o _ => read16_congr) h)
  | cellOptions => exact congrArg (Option.map fun v => [v]) (getField_congr (fun o _ => read8_congr) h)
  | numCells => exact congrArg (Option.map fun v => [v]) (getField_congr (fun o _ => read8_congr) h)
  | reserved =>
    cases ho : getReservedOffset type code with
    | none => simp [SixpField.get, sixpPktGetReserved, ho]
    | some o => simp [SixpField.get, sixpPktGetReserved, ho, read8, h o ho]
  | offset => exact congrArg (Option.map le16) (getField_congr (fun o _ => read16_congr) h)
  | maxNumCells => exact congrArg (Option.map le16) (getField_congr (fun o _ => read16_congr) h)
  | cellList =>
    cases ho : getCellListOffset type code with
    | none => simp [SixpField.get, sixpPktGetCellList, ho]
    | some o =>
      have hbytes : bytesAt body' o (bodyLen - o) = bytesAt body o (bodyLen - o) :=
        bytesAt_congr fun k hle hlt => h k ⟨o, ho, hle, by omega⟩
      simp [SixpField.get, sixpPktGetCellList, ho, getCells, hbytes]
  | relCellList =>
    cases ho : getRelCellListOffset type code with
    | none => simp [SixpField.get, sixpPktGetRelCellList, ho]
    | some o =>
      have ⟨htype, hcode, h4⟩ := getRelCellListOffset_some ho
      subst htype hcode h4
      simp only [SixpField.get, getRelCellList_relocate]
      by_cases hlen : bodyLen < 4
      · rw [if_pos hlen, if_pos hlen]
      · have hlen' := Nat.le_of_not_lt hlen
        rw [if_neg hlen, if_neg hlen, h 3 ⟨4, ho, hlen', Or.inl rfl⟩]
        split_ifs with hshort
        · rfl
        · rfl
        · rw [bytesAt_congr fun k hle hlt =>
            h k ⟨4, ho, hlen', Or.inr ⟨hle, hlt, Nat.le_of_not_lt hshort⟩⟩]
  | candCellList =>
    cases ho : getRelCellListOffset type code with
    | none => simp [SixpField.get, sixpPktGetCandCellList, ho]
    | some o =>
      have ⟨htype, hcode, h4⟩ := getRelCellListOffset_some ho
      subst htype hcode h4
      simp only [SixpField.get, getCandCellList_relocate]
      by_cases hlen : bodyLen < 4
      · rw [if_pos hlen, if_pos hlen]
      · have hlen' := Nat.le_of_not_lt hlen
        rw [if_neg hlen, if_neg hlen, h 3 ⟨4, ho, hlen', Or.inl rfl⟩, getCells, getCells]
        split_ifs with hshort
        · rfl
        · rfl
        · rw [bytesAt_congr fun k hle hlt =>
            h k ⟨4, ho, hlen', Or.inr ⟨hle, by omega⟩⟩]
  | totalNumCells =>
    refine congrArg (Option.map le16) (getField_congr (fun o ho hbytes => ?_) h)
    rw [getTotalNumCellsOffset_some ho] at hbytes
    exact read16_congr hbytes
  | payload =>
    cases ho : getPayloadOffset type code with
    | none => simp [SixpField.get, sixpPktGetPayload, ho]
    | some o =>
      have hbytes : bytesAt body' o bufLen = bytesAt body o bufLen :=
        bytesAt_congr fun k hle hlt => h k ⟨o, ho, hle, hlt⟩
      simp [SixpField.get, sixpPktGetPayload, ho, hbytes]

theorem SixpField.reads_lt (hcond : f.GetCond bufLen type code bodyLen)
    (h : f.Reads bufLen type code n bodyLen k) : k < bodyLen := by
  have hfield : ∀ {offset : Option ℕ} {size : ℕ}, FieldReads offset size bodyLen k → k < bodyLen := by
    intro offset size hreads
    have ⟨o, _, hlen, _, hlt⟩ := hreads
    omega
  cases f with
  | reserved => exact hcond k h
  | cellList =>
    have ⟨_, _, _, hlt⟩ := h
    exact hlt
  | relCellList =>
    have ⟨_, _, hlen, hk⟩ := h
    omega
  | candCellList =>
    have ⟨_, _, hlen, hk⟩ := h
    omega
  | payload =>
    have ⟨o, ho, hle, hlt⟩ := h
    have hpayload := hcond o ho
    omega
  | _ => exact hfield h

theorem exists_ne_byte (b : Byte) : ∃ c : Byte, c ≠ b := by
  by_cases h : b = 0
  · exact ⟨1, by rw [h]; decide⟩
  · exact ⟨0, fun h0 => h h0.symm⟩

/-- Another body, with the same bytes but for one behind it. -/
theorem exists_outside (body : ℕ → Byte) (hk : bodyLen ≤ k) :
    ∃ body' : ℕ → Byte, (∀ j < bodyLen, body' j = body j) ∧ body' k ≠ body k := by
  have ⟨c, hc⟩ := exists_ne_byte (body k)
  refine ⟨update body k c, fun j hj => update_of_ne (by omega) _ _, ?_⟩
  rwa [update_self]

/-- **A getter reads bytes of the body only** if and only if its condition holds. -/
theorem SixpField.readsInside_iff : f.ReadsInside bufLen type code body bodyLen ↔
    f.GetCond bufLen type code bodyLen := by
  constructor
  · intro h
    cases f with
    | reserved =>
      intro o ho
      by_contra hlen
      have ⟨body', hsame, hne⟩ := exists_outside body (Nat.le_of_not_lt hlen)
      have hget : ∀ b : ℕ → Byte, SixpField.reserved.get bufLen type code b bodyLen = some [b o] := by
        intro b
        simp [SixpField.get, sixpPktGetReserved, ho, read8]
      have heq := h _ (hget body) body' hsame
      rw [hget] at heq
      exact hne (List.cons.inj (Option.some.inj heq)).1
    | payload =>
      intro o ho
      by_contra hcond
      have ⟨hpos, hlen⟩ := not_or.mp hcond
      have ⟨body', hsame, hne⟩ := exists_outside body (Nat.le_max_right o bodyLen)
      have hget : ∀ b : ℕ → Byte, SixpField.payload.get bufLen type code b bodyLen =
          some (bytesAt b o bufLen) := by
        intro b
        have hfits : ¬(bodyLen : ℤ) - o > bufLen := by omega
        simp only [SixpField.get, sixpPktGetPayload, ho, bind_some, if_neg hfits]
      have heq := h _ (hget body) body' hsame
      rw [hget] at heq
      have hmem : max o bodyLen - o ∈ List.range bufLen := mem_range.mpr (by omega)
      have hbyte := map_inj_left.mp (Option.some.inj heq) _ hmem
      rw [Nat.add_sub_of_le (Nat.le_max_left o bodyLen)] at hbyte
      exact hne hbyte
    | _ => trivial
  · intro hcond v hv body' hsame
    rw [SixpField.get_congr fun k hk => hsame k (SixpField.reads_lt hcond hk), hv]

/-! ## What is written -/

/-- The bytes that a setter writes. -/
def SixpSet.value : SixpSet → List Byte
  | .metadata v | .offset v | .maxNumCells v | .totalNumCells v => le16 v
  | .cellOptions v | .numCells v | .reserved v => [v]
  | .cellList cells _ | .relCellList cells _ | .candCellList cells _ => cells
  | .payload bytes => bytes

/-- Where a setter writes them. -/
def SixpSet.pos (type : SixpPktType) (code : SixpPktCode) (n : ℕ) : SixpSet → Option ℕ
  | .metadata _ => getMetadataOffset type
  | .cellOptions _ => getCellOptionsOffset type code
  | .numCells _ => getNumCellsOffset type code
  | .reserved _ => getReservedOffset type code
  | .offset _ => getOffsetOffset type code
  | .maxNumCells _ => getMaxNumCellsOffset type code
  | .cellList _ o => (getCellListOffset type code).map (· + o)
  | .relCellList _ o => (getRelCellListOffset type code).map (· + o)
  | .candCellList _ o => (getRelCellListOffset type code).map (· + (o + n * sizeofCell))
  | .totalNumCells _ => getTotalNumCellsOffset type code
  | .payload _ => getPayloadOffset type code

theorem setField_eq_some {offset : Option ℕ} :
    setField offset v body bodyLen = some t ↔
      ∃ o, offset = some o ∧ o + v.length ≤ bodyLen ∧ t = store body o v := by
  cases offset with
  | none => simp [setField]
  | some o =>
    simp only [setField, bind_some, Option.some.injEq, exists_eq_left']
    split_ifs with hlen
    · simp [hlen]
    · simp [Nat.le_of_not_lt hlen, eq_comm]

theorem setCells_eq_some : setCells o v body bodyLen = some t ↔
    o + v.length ≤ bodyLen ∧ v.length % sizeofCell = 0 ∧ t = store body o v := by
  rw [setCells]
  split_ifs with hlen hcells
  · simp [hlen]
  · simp [hcells]
  · simp [Nat.le_of_not_lt hlen, not_not.mp hcells, eq_comm]

/-- A list of cells to relocate is in the body and no longer than the number of cells says. -/
theorem setRelCellList_eq_some {cellOffset : ℕ} :
    sixpPktSetRelCellList type code v cellOffset body bodyLen = some t ↔
      getRelCellListOffset type code = some 4 ∧ 4 ≤ bodyLen ∧
        4 + cellOffset + v.length ≤ bodyLen ∧ v.length ≤ (body 3).toNat * sizeofCell ∧
        v.length % sizeofCell = 0 ∧ t = store body (4 + cellOffset) v := by
  cases ho : getRelCellListOffset type code with
  | none => simp [sixpPktSetRelCellList, ho]
  | some o =>
    have ⟨htype, hcode, h4⟩ := getRelCellListOffset_some ho
    subst htype hcode h4
    rw [sixpPktSetRelCellList, getNumCells_relocate, ho]
    by_cases hshort : bodyLen < 4
    · simp [hshort]
    · rw [if_neg hshort]
      change (if bodyLen < 4 + cellOffset + v.length then none
        else if 4 + cellOffset + v.length > 4 + cellOffset + (body 3).toNat * sizeofCell then none
        else if v.length % sizeofCell ≠ 0 then none
        else some (store body (4 + cellOffset) v)) = some t ↔ _
      split_ifs with hlen hlong hcells
      · simp [hlen]
      · have hlong' : ¬v.length ≤ (body 3).toNat * sizeofCell := by omega
        simp [hlong']
      · simp [hcells]
      · have hlong' : v.length ≤ (body 3).toNat * sizeofCell := by omega
        simp [hlong', not_not.mp hcells, Nat.le_of_not_lt hlen, Nat.le_of_not_lt hshort, eq_comm]

theorem setCandCellList_eq_some {cellOffset : ℕ} :
    sixpPktSetCandCellList type code v cellOffset body bodyLen = some t ↔
      getRelCellListOffset type code = some 4 ∧ 4 ≤ bodyLen ∧
        setCells (4 + (cellOffset + (body 3).toNat * sizeofCell)) v body bodyLen = some t := by
  cases ho : getRelCellListOffset type code with
  | none => simp [sixpPktSetCandCellList, ho]
  | some o =>
    have ⟨htype, hcode, h4⟩ := getRelCellListOffset_some ho
    subst htype hcode h4
    rw [sixpPktSetCandCellList, getNumCells_relocate, ho]
    split_ifs with hshort
    · simp [hshort]
    · simp [Nat.le_of_not_lt hshort]

/-- **A setter writes its bytes**, in the body if its condition holds. -/
theorem SixpSet.apply_eq_some (hcond : s.SetCond type code body' bodyLen)
    (h : s.apply type code body bodyLen = some t) :
    ∃ p, s.pos type code (body 3).toNat = some p ∧ p + s.value.length ≤ bodyLen ∧
      t = store body p s.value := by
  cases s with
  | numCells v =>
    have ⟨o, ho, ht⟩ := map_eq_some_iff.mp h
    exact ⟨o, ho, (hcond o ho).1, ht.symm⟩
  | totalNumCells v =>
    have ⟨o, ho, ht⟩ := map_eq_some_iff.mp h
    exact ⟨o, ho, hcond o ho, ht.symm⟩
  | cellList cells co =>
    have ⟨o, ho, hset⟩ := bind_eq_some_iff.mp h
    have ⟨hlen, _, ht⟩ := setCells_eq_some.mp hset
    exact ⟨o + co, by rw [SixpSet.pos, ho]; rfl, hlen, ht⟩
  | relCellList cells co =>
    have ⟨ho, _, hlen, _, _, ht⟩ := setRelCellList_eq_some.mp h
    exact ⟨4 + co, by rw [SixpSet.pos, ho]; rfl, hlen, ht⟩
  | candCellList cells co =>
    have ⟨ho, _, hset⟩ := setCandCellList_eq_some.mp h
    have ⟨hlen, _, ht⟩ := setCells_eq_some.mp hset
    exact ⟨_, by rw [SixpSet.pos, ho]; rfl, hlen, ht⟩
  | _ => exact setField_eq_some.mp h

/-- **A setter writes nothing behind the body** if its condition holds. -/
theorem SixpSet.inside (hcond : s.SetCond type code body' bodyLen)
    (h : s.apply type code body bodyLen = some t) (hk : bodyLen ≤ k) : t k = body k := by
  have ⟨p, _, hlen, ht⟩ := SixpSet.apply_eq_some hcond h
  rw [ht]
  exact store_of_le (by omega)

/-! ## What is returned -/

theorem getField_eq_some {α : Type} {offset : Option ℕ} {read : (ℕ → Byte) → ℕ → α} {x : α}
    (h : getField offset size read body bodyLen = some x) :
    ∃ o, offset = some o ∧ read body o = x := by
  have ⟨o, ho, hread⟩ := bind_eq_some_iff.mp h
  refine ⟨o, ho, ?_⟩
  split_ifs at hread
  exact Option.some.inj hread

theorem getCells_eq_some (h : getCells o body bodyLen = some v) :
    o ≤ bodyLen ∧ v = bytesAt body o (bodyLen - o) := by
  rw [getCells] at h
  split_ifs at h with hlen hcells
  exact ⟨Nat.le_of_not_lt hlen, (Option.some.inj h).symm⟩

theorem getRelCellList_eq_some
    (h : sixpPktGetRelCellList type code body bodyLen = some v) :
    getRelCellListOffset type code = some 4 ∧ ListsReadable bodyLen (body 3).toNat ∧
      v = bytesAt body 4 ((body 3).toNat * sizeofCell) := by
  have ⟨_, _, hbind⟩ := bind_eq_some_iff.mp h
  have ⟨o, ho, _⟩ := bind_eq_some_iff.mp hbind
  have ⟨htype, hcode, h4⟩ := getRelCellListOffset_some ho
  subst htype hcode h4
  rw [getRelCellList_relocate] at h
  split_ifs at h with hshort hlen hcells
  refine ⟨rfl, ⟨?_, Nat.le_of_not_lt hlen⟩, (Option.some.inj h).symm⟩
  rw [sizeofCell] at hcells ⊢
  omega

theorem getRelCellList_of_readable (body : ℕ → Byte) (h : ListsReadable bodyLen (body 3).toNat) :
    sixpPktGetRelCellList .request sixpPktCmdRelocate body bodyLen =
      some (bytesAt body 4 ((body 3).toNat * sizeofCell)) := by
  have ⟨hwhole, hlen⟩ := h
  rw [sizeofCell] at hwhole
  rw [getRelCellList_relocate, if_neg (by omega), if_neg (Nat.not_lt.mpr hlen),
    if_neg (by rw [sizeofCell] at hlen ⊢; omega)]

theorem getCandCellList_eq_some
    (h : sixpPktGetCandCellList type code body bodyLen = some v) :
    getRelCellListOffset type code = some 4 ∧ ListsReadable bodyLen (body 3).toNat ∧
      v = bytesAt body (4 + (body 3).toNat * sizeofCell)
        (bodyLen - (4 + (body 3).toNat * sizeofCell)) := by
  have ⟨_, _, hbind⟩ := bind_eq_some_iff.mp h
  have ⟨o, ho, _⟩ := bind_eq_some_iff.mp hbind
  have ⟨htype, hcode, h4⟩ := getRelCellListOffset_some ho
  subst htype hcode h4
  rw [getCandCellList_relocate, getCells] at h
  split_ifs at h with hshort hlen hcells
  refine ⟨rfl, ⟨?_, Nat.le_of_not_lt hlen⟩, (Option.some.inj h).symm⟩
  rw [sizeofCell] at hlen hcells ⊢
  omega

theorem read16_store (body : ℕ → Byte) (o : ℕ) (w : BitVec 16) :
    read16 (store body o (le16 w)) o = w := (holds_store body o (le16 w)).read16

theorem read8_store (body : ℕ → Byte) (o : ℕ) (b : Byte) : read8 (store body o [b]) o = b := by
  simp [read8, store]

/-- A part of the bytes from an offset on. -/
theorem take_drop_bytesAt {m : ℕ} (h : k + m ≤ n) :
    ((bytesAt body o n).drop k).take m = bytesAt body (o + k) m := by
  apply ext_getElem
  · rw [length_take, length_drop, length_bytesAt, length_bytesAt]
    omega
  · intro i _ _
    simp [bytesAt, Nat.add_assoc]

/-- What is written is a part of a list that ends behind it. -/
theorem take_drop_store {cells : List Byte} (h : k + cells.length ≤ n) :
    ((bytesAt (store body (o + k) cells) o n).drop k).take cells.length = cells := by
  rw [take_drop_bytesAt h, bytesAt_store_self]

/-- **A getter returns what has been set.** -/
theorem SixpSet.returned_of (hcond : s.SetCond type code body bodyLen)
    (h : s.apply type code body bodyLen = some t)
    (hget : s.field.get bufLen type code t bodyLen = some v) : s.Returned v := by
  have hword : ∀ {offset : Option ℕ} {w : BitVec 16},
      setField offset (le16 w) body bodyLen = some t →
      (getField offset 2 read16 t bodyLen).map le16 = some v → v = le16 w := by
    intro offset w hset hget
    have ⟨o, ho, _, ht⟩ := setField_eq_some.mp hset
    have ⟨x, hx, hv⟩ := map_eq_some_iff.mp hget
    have ⟨o', ho', hread⟩ := getField_eq_some hx
    rw [ho] at ho'
    rw [← hv, ← hread, ht, ← Option.some.inj ho', read16_store]
  have hbyte : ∀ {offset : Option ℕ} {b : Byte}, setField offset [b] body bodyLen = some t →
      (getField offset 1 read8 t bodyLen).map (fun x => [x]) = some v → v = [b] := by
    intro offset b hset hget
    have ⟨o, ho, _, ht⟩ := setField_eq_some.mp hset
    have ⟨x, hx, hv⟩ := map_eq_some_iff.mp hget
    have ⟨o', ho', hread⟩ := getField_eq_some hx
    rw [ho] at ho'
    rw [← hv, ← hread, ht, ← Option.some.inj ho', read8_store]
  cases s with
  | metadata w => exact hword h hget
  | cellOptions b => exact hbyte h hget
  | numCells b =>
    have ⟨o, ho, ht⟩ := map_eq_some_iff.mp h
    refine hbyte (setField_eq_some.mpr ⟨o, ho, ?_, ht.symm⟩) hget
    exact (hcond o ho).1
  | reserved b =>
    have ⟨o, ho, _, ht⟩ := setField_eq_some.mp h
    have ⟨x, hx, hv⟩ := map_eq_some_iff.mp hget
    have ⟨o', ho', hread⟩ := map_eq_some_iff.mp hx
    rw [ho] at ho'
    change v = [b]
    rw [← hv, ← hread, ht, ← Option.some.inj ho', read8_store]
  | offset w => exact hword h hget
  | maxNumCells w => exact hword h hget
  | cellList cells co =>
    have ⟨o, ho, hset⟩ := bind_eq_some_iff.mp h
    have ⟨hlen, _, ht⟩ := setCells_eq_some.mp hset
    have ⟨o', ho', hcells⟩ := bind_eq_some_iff.mp hget
    rw [ho] at ho'
    rw [← Option.some.inj ho'] at hcells
    change (v.drop co).take cells.length = cells
    rw [(getCells_eq_some hcells).2, ht]
    exact take_drop_store (by omega)
  | relCellList cells co =>
    have ⟨ho, _, hlen, hfits, hwhole, ht⟩ := setRelCellList_eq_some.mp h
    have ⟨_, hreadable, hv⟩ := getRelCellList_eq_some hget
    have h3 : t 3 = body 3 := by rw [ht]; exact store_of_lt (by omega)
    rw [h3] at hreadable hv
    change (v.drop co).take cells.length = cells
    rw [hv, ht]
    cases hcond 4 ho hreadable hfits hwhole hlen with
    | inl hnil => simp [hnil]
    | inr hinside => exact take_drop_store hinside
  | candCellList cells co =>
    have ⟨ho, _, hset⟩ := setCandCellList_eq_some.mp h
    have ⟨hlen, _, ht⟩ := setCells_eq_some.mp hset
    have ⟨_, _, hv⟩ := getCandCellList_eq_some hget
    have h3 : t 3 = body 3 := by rw [ht]; exact store_of_lt (by omega)
    have hpos : 4 + (co + (body 3).toNat * sizeofCell) =
        4 + (body 3).toNat * sizeofCell + co := by omega
    change (v.drop co).take cells.length = cells
    rw [hv, h3, ht, hpos]
    exact take_drop_store (by omega)
  | totalNumCells w =>
    have ⟨o, ho, ht⟩ := map_eq_some_iff.mp h
    have ⟨x, hx, hv⟩ := map_eq_some_iff.mp hget
    have ⟨_, _, hread⟩ := getField_eq_some hx
    change v = le16 w
    rw [← hv, ← hread, ← ht, getTotalNumCellsOffset_some ho, read16_store]
  | payload bytes =>
    have ⟨o, ho, hlen, ht⟩ := setField_eq_some.mp h
    have ⟨o', ho', hpayload⟩ := bind_eq_some_iff.mp hget
    rw [ho] at ho'
    rw [← Option.some.inj ho'] at hpayload
    split_ifs at hpayload with hfits
    change v.take bytes.length = bytes
    rw [← Option.some.inj hpayload, ht]
    exact @take_drop_store body 0 o bufLen bytes (by omega)

/-! ## What stays -/

/-- The place of a field in a request. -/
def SixpField.Place (n k : ℕ) : SixpField → Prop
  | .metadata => k < 2
  | .cellOptions => k = 2
  | .numCells | .reserved => k = 3
  | .offset => 4 ≤ k ∧ k < 6
  | .maxNumCells => 6 ≤ k ∧ k < 8
  | .cellList => 4 ≤ k
  | .relCellList => 4 ≤ k ∧ k < 4 + n * sizeofCell
  | .candCellList => 4 + n * sizeofCell ≤ k
  | .totalNumCells => False
  | .payload => 2 ≤ k

/-- The fields of a message stand one behind the other. -/
theorem formats_pairwise {fmt : List SixpField} (h : fmt ∈ formats type code) :
    fmt.Pairwise fun f g => ∀ k, f.Place n k → ¬g.Place n k := by
  cases type with
  | request =>
    simp only [formats] at h
    split_ifs at h
    all_goals first | rw [mem_singleton.mp h] | exact absurd h not_mem_nil
    all_goals
      simp only [pairwise_cons, mem_cons, not_mem_nil, or_false, forall_eq_or_imp,
        forall_eq, SixpField.Place, false_implies, implies_true, List.Pairwise.nil, and_true]
    all_goals grind
  | response =>
    simp only [formats] at h
    split_ifs at h <;> simp at h <;> aesop
  | confirmation =>
    simp only [formats] at h
    split_ifs at h <;> simp at h <;> aesop
  | reserved => simp [formats] at h

theorem SameFormat.disjoint (h : SameFormat type code f g) (hne : f ≠ g) (hf : f.Place n k) :
    ¬g.Place n k := by
  have ⟨fmt, hfmt, hmem, hmem'⟩ := h
  have hsymm : Std.Symm fun f g : SixpField => ∀ k, f.Place n k → ¬g.Place n k :=
    ⟨fun f g hdisjoint k hg hf => hdisjoint k hf hg⟩
  exact (formats_pairwise hfmt).forall hmem hmem' hne k hf

/-- Only requests have several fields. -/
theorem SameFormat.request (h : SameFormat type code f g) (hne : f ≠ g) : type = .request := by
  have ⟨fmt, hfmt, hf, hg⟩ := h
  cases type with
  | request => rfl
  | response =>
    simp only [formats] at hfmt
    split_ifs at hfmt <;> simp at hfmt <;> aesop
  | confirmation =>
    simp only [formats] at hfmt
    split_ifs at hfmt <;> simp at hfmt <;> aesop
  | reserved => simp [formats] at hfmt

/-- What is read in a request is the field, or the number of cells. -/
theorem SixpField.reads_place (h : f.Reads bufLen .request code n bodyLen k) :
    f.Place n k ∨ (f = .relCellList ∨ f = .candCellList) ∧
      code = sixpPktCmdRelocate ∧ SixpField.numCells.Place n k := by
  cases f with
  | metadata =>
    have ⟨o, ho, _, _, hlt⟩ := h
    rw [← Option.some.inj ho] at hlt
    exact Or.inl hlt
  | cellOptions =>
    have ⟨o, ho, _, hle, hlt⟩ := h
    simp only [getCellOptionsOffset] at ho
    split_ifs at ho
    cases ho
    exact Or.inl (show k = 2 by omega)
  | numCells =>
    have ⟨o, ho, _, hle, hlt⟩ := h
    cases getNumCellsOffset_some ho
    exact Or.inl (show k = 3 by omega)
  | reserved =>
    simp only [SixpField.Reads, getReservedOffset] at h
    split_ifs at h
    exact Or.inl (Option.some.inj h).symm
  | offset =>
    have ⟨o, ho, _, hle, hlt⟩ := h
    simp only [getOffsetOffset] at ho
    split_ifs at ho
    cases ho
    exact Or.inl ⟨hle, hlt⟩
  | maxNumCells =>
    have ⟨o, ho, _, hle, hlt⟩ := h
    simp only [getMaxNumCellsOffset] at ho
    split_ifs at ho
    cases ho
    exact Or.inl ⟨hle, hlt⟩
  | cellList =>
    have ⟨o, ho, hle, _⟩ := h
    simp only [getCellListOffset] at ho
    split_ifs at ho
    · cases ho
      exact Or.inl hle
    · simp_all
  | relCellList =>
    have ⟨o, ho, _, hk⟩ := h
    have ⟨_, hcode, h4⟩ := getRelCellListOffset_some ho
    rw [h4] at hk
    cases hk with
    | inl h3 => exact Or.inr ⟨Or.inl rfl, hcode, h3⟩
    | inr hin => exact Or.inl ⟨hin.1, hin.2.1⟩
  | candCellList =>
    have ⟨o, ho, _, hk⟩ := h
    have ⟨_, hcode, h4⟩ := getRelCellListOffset_some ho
    rw [h4] at hk
    cases hk with
    | inl h3 => exact Or.inr ⟨Or.inr rfl, hcode, h3⟩
    | inr hin => exact Or.inl hin.1
  | totalNumCells =>
    have ⟨o, ho, _⟩ := h
    simp [getTotalNumCellsOffset] at ho
  | payload =>
    have ⟨o, ho, hle, _⟩ := h
    simp only [getPayloadOffset] at ho
    split_ifs at ho
    · cases ho
      exact Or.inl hle
    · simp_all

/-- What is written in a request is the field; a list of cells to relocate may go beyond it. -/
theorem SixpSet.written_place {p : ℕ} (hpos : s.pos .request code n = some p) (hle : p ≤ k)
    (hlt : k < p + s.value.length) : s.field.Place n k ∨ ∃ cells o, s = .relCellList cells o ∧
      4 ≤ k ∧ ¬(cells = [] ∨ o + cells.length ≤ n * sizeofCell) := by
  cases s with
  | metadata w =>
    rw [← Option.some.inj hpos] at hlt
    exact Or.inl hlt
  | cellOptions b =>
    simp only [SixpSet.pos, getCellOptionsOffset] at hpos
    split_ifs at hpos
    cases hpos
    exact Or.inl (show k = 2 from Nat.le_antisymm (Nat.le_of_lt_succ hlt) hle)
  | numCells b =>
    cases getNumCellsOffset_some hpos
    exact Or.inl (show k = 3 from Nat.le_antisymm (Nat.le_of_lt_succ hlt) hle)
  | reserved b =>
    simp only [SixpSet.pos, getReservedOffset] at hpos
    split_ifs at hpos
    cases hpos
    exact Or.inl (show k = 3 from Nat.le_antisymm (Nat.le_of_lt_succ hlt) hle)
  | offset w =>
    simp only [SixpSet.pos, getOffsetOffset] at hpos
    split_ifs at hpos
    cases hpos
    exact Or.inl ⟨hle, hlt⟩
  | maxNumCells w =>
    simp only [SixpSet.pos, getMaxNumCellsOffset] at hpos
    split_ifs at hpos
    cases hpos
    exact Or.inl ⟨hle, hlt⟩
  | cellList cells o =>
    have ⟨o', ho', hp⟩ := map_eq_some_iff.mp hpos
    simp only [getCellListOffset] at ho'
    split_ifs at ho'
    · cases ho'
      exact Or.inl (show 4 ≤ k by omega)
    · simp_all
  | relCellList cells o =>
    have ⟨o', ho', hp⟩ := map_eq_some_iff.mp hpos
    cases (getRelCellListOffset_some ho').2.2
    by_cases hfits : cells = [] ∨ o + cells.length ≤ n * sizeofCell
    · cases hfits with
      | inl hnil => simp [SixpSet.value, hnil] at hlt; omega
      | inr hin =>
        change k < p + cells.length at hlt
        exact Or.inl ⟨by omega, by omega⟩
    · exact Or.inr ⟨cells, o, rfl, by omega, hfits⟩
  | candCellList cells o =>
    have ⟨o', ho', hp⟩ := map_eq_some_iff.mp hpos
    cases (getRelCellListOffset_some ho').2.2
    exact Or.inl (show 4 + n * sizeofCell ≤ k by omega)
  | totalNumCells w => simp [SixpSet.pos, getTotalNumCellsOffset] at hpos
  | payload bytes =>
    simp only [SixpSet.pos, getPayloadOffset] at hpos
    split_ifs at hpos
    · cases hpos
      exact Or.inl hle
    · simp_all

/-- Without whole lists their getters fail. -/
theorem lists_none {numCells : ℕ} (h : ¬ListsReadable bodyLen numCells)
    (hle : numCells ≤ (body 3).toNat) (hg : g = .relCellList ∨ g = .candCellList) :
    g.get bufLen type code body bodyLen = none := by
  have hmono : ListsReadable bodyLen (body 3).toNat → False := by
    intro hreadable
    have hcells : numCells * sizeofCell ≤ (body 3).toNat * sizeofCell := Nat.mul_le_mul_right _ hle
    exact h ⟨hreadable.1, (Nat.add_le_add_left hcells 4).trans hreadable.2⟩
  cases hg with
  | inl hrel =>
    rw [hrel]
    cases hget : SixpField.relCellList.get bufLen type code body bodyLen with
    | none => rfl
    | some v => exact (hmono (getRelCellList_eq_some hget).2.1).elim
  | inr hcand =>
    rw [hcand]
    cases hget : SixpField.candCellList.get bufLen type code body bodyLen with
    | none => rfl
    | some v => exact (hmono (getCandCellList_eq_some hget).2.1).elim

/-- **A setter leaves the other fields of the message as they are** if its condition holds. -/
theorem SixpSet.others_of (hcond : s.SetCond type code body bodyLen)
    (h : s.apply type code body bodyLen = some t) (hne : g ≠ s.field)
    (hsame : SameFormat type code s.field g) :
    g.get bufLen type code t bodyLen = g.get bufLen type code body bodyLen := by
  have hrequest := hsame.request hne.symm
  subst hrequest
  have ⟨p, hpos, hlen, ht⟩ := SixpSet.apply_eq_some hcond h
  by_cases hbeside : ∀ k, g.Reads bufLen .request code (body 3).toNat bodyLen k → t k = body k
  · exact SixpField.get_congr hbeside
  have ⟨k, hk⟩ := not_forall.mp hbeside
  have ⟨hreads, hchanged⟩ := Classical.not_imp.mp hk
  -- a byte is read that has been written
  have hwritten : p ≤ k ∧ k < p + s.value.length := by
    by_contra hout
    refine hchanged ?_
    rw [ht]
    by_cases hlow : k < p
    · exact store_of_lt hlow
    · exact store_of_le (by omega)
  cases SixpField.reads_place hreads with
  | inl hplace =>
    cases SixpSet.written_place hpos hwritten.1 hwritten.2 with
    | inl hfield => exact absurd hplace (hsame.disjoint hne.symm hfield)
    | inr hrel =>
      have ⟨cells, co, hs, hk4, hbeyond⟩ := hrel
      subst hs
      have ⟨ho, _, hfits, hcount, hwhole, ht'⟩ := setRelCellList_eq_some.mp h
      have h3 : t 3 = body 3 := by rw [ht']; exact store_of_lt (by omega)
      have hunreadable : ¬ListsReadable bodyLen (body 3).toNat := fun hreadable =>
        hbeyond (hcond 4 ho hreadable hcount hwhole hfits)
      have hcand : g = .relCellList ∨ g = .candCellList := by
        have ⟨fmt, hfmt, _, hg⟩ := hsame
        rw [(getRelCellListOffset_some ho).2.1] at hfmt
        rw [mem_singleton.mp hfmt] at hg
        simp only [mem_cons, not_mem_nil, or_false] at hg
        rcases hg with rfl | rfl | rfl | hg
        · exact absurd hplace (by rw [SixpField.Place]; omega)
        · exact absurd hplace (by rw [SixpField.Place]; omega)
        · exact absurd hplace (by rw [SixpField.Place]; omega)
        · exact hg
      rw [lists_none hunreadable (by rw [h3]) hcand, lists_none hunreadable (le_refl _) hcand]
  | inr hnum =>
    have ⟨hlists, hcode, h3⟩ := hnum
    have hnumCells : SameFormat .request code s.field .numCells := by
      have ⟨fmt, hfmt, hs, _⟩ := hsame
      refine ⟨fmt, hfmt, hs, ?_⟩
      rw [hcode] at hfmt
      rw [mem_singleton.mp hfmt]
      decide
    have hfield : s.field = .numCells := by
      by_contra hother
      cases SixpSet.written_place hpos hwritten.1 hwritten.2 with
      | inl hfield => exact hnumCells.disjoint hother hfield h3
      | inr hrel =>
        have ⟨_, _, _, hk4, _⟩ := hrel
        have hk3 : k = 3 := h3
        omega
    cases s with
    | numCells v =>
      have ⟨o, ho, ht'⟩ := map_eq_some_iff.mp h
      cases getNumCellsOffset_some ho
      have hv : t 3 = v := by rw [← ht']; exact read8_store body 3 v
      cases (hcond 3 ho).2 hcode with
      | inl hsame3 =>
        have hk3 : k = 3 := h3
        rw [hk3] at hchanged
        exact absurd (hv.trans hsame3) hchanged
      | inr hunreadable =>
        rw [lists_none hunreadable (by rw [hv]; exact Nat.min_le_left _ _) hlists,
          lists_none hunreadable (Nat.min_le_right _ _) hlists]
    | _ => cases hfield

/-- **A setter is right** if and only if its condition holds. -/
theorem SixpSet.setRight_iff : s.SetRight type code body bodyLen ↔
    s.SetCond type code body bodyLen := by
  constructor
  · intro h
    cases s with
    | numCells v =>
      intro o ho
      cases getNumCellsOffset_some ho
      have happly : ∀ b : ℕ → Byte, (SixpSet.numCells v).apply type code b bodyLen =
          some (store b 3 [v]) := by
        intro b
        simp only [SixpSet.apply, sixpPktSetNumCells, ho, map_some]
      refine ⟨?_, fun hcode => ?_⟩
      · by_contra hlen
        have ⟨c, hc⟩ := exists_ne_byte v
        have hinside := h.inside (update body 3 c)
          (fun k hk => update_of_ne (by omega) _ _) _ (happly _) 3 (Nat.le_of_not_lt hlen)
        rw [update_self] at hinside
        exact hc (hinside.symm.trans (read8_store _ 3 v))
      · by_contra hcond
        have ⟨hne, hreadable⟩ := not_or.mp hcond
        have hreadable := not_not.mp hreadable
        have htype : type = .request := by
          rw [getNumCellsOffset] at ho
          split_ifs at ho with hfmt
          exact hfmt.1
        subst htype hcode
        have hothers := h.others _ (happly body) .relCellList SixpField.noConfusion
          ⟨_, mem_singleton_self _, by simp [SixpSet.field], by simp⟩ 0
        have h3 : store body 3 [v] 3 = v := read8_store body 3 v
        -- the shorter of the two lists is there, so the other one is as long
        refine hne (BitVec.eq_of_toNat_eq ?_)
        cases Nat.le_total v.toNat (body 3).toNat with
        | inl hle =>
          rw [Nat.min_eq_left hle] at hreadable
          have hget := getRelCellList_of_readable (store body 3 [v]) (by rw [h3]; exact hreadable)
          have hlength := congrArg List.length (getRelCellList_eq_some (hothers.symm.trans hget)).2.2
          rw [length_bytesAt, length_bytesAt, h3] at hlength
          exact Nat.eq_of_mul_eq_mul_right (by decide) hlength
        | inr hle =>
          rw [Nat.min_eq_right hle] at hreadable
          have hget := getRelCellList_of_readable body hreadable
          have hlength := congrArg List.length (getRelCellList_eq_some (hothers.trans hget)).2.2
          rw [length_bytesAt, length_bytesAt, h3] at hlength
          exact (Nat.eq_of_mul_eq_mul_right (by decide) hlength).symm
    | totalNumCells w =>
      intro o ho
      cases getTotalNumCellsOffset_some ho
      have happly : ∀ b : ℕ → Byte, (SixpSet.totalNumCells w).apply type code b bodyLen =
          some (store b 0 (le16 w)) := by
        intro b
        simp only [SixpSet.apply, sixpPktSetTotalNumCells, ho, map_some]
      by_contra hlen
      have ⟨c, hc⟩ := exists_ne_byte ((w >>> 8).setWidth 8)
      have hinside := h.inside (update body 1 c)
        (fun k hk => update_of_ne (by omega) _ _) _ (happly _) 1 (Nat.le_of_not_lt hlen)
      rw [update_self] at hinside
      exact hc hinside.symm
    | relCellList cells co =>
      intro o ho hreadable hcount hwhole hlen
      have ⟨_, _, h4⟩ := getRelCellListOffset_some ho
      rw [h4] at ho hlen
      have hset := setRelCellList_eq_some.mpr
        ⟨ho, (Nat.le_add_right 4 _).trans hreadable.2, hlen, hcount, hwhole, rfl⟩
      have h3 : store body (4 + co) cells 3 = body 3 := store_of_lt (by omega)
      have ⟨htype, hcode, _⟩ := getRelCellListOffset_some ho
      subst htype hcode
      have hget := getRelCellList_of_readable (store body (4 + co) cells) (by rw [h3]; exact hreadable)
      have hlength := congrArg List.length (h.returned _ hset 0 _ hget)
      rw [length_take, length_drop, length_bytesAt, h3] at hlength
      cases hcells : cells with
      | nil => exact Or.inl rfl
      | cons c rest =>
        rw [hcells, length_cons] at hlength
        rw [length_cons]
        exact Or.inr (by omega)
    | _ => trivial
  · intro hcond
    refine ⟨fun body' hsame t ht k hk => ?_, fun t ht bufLen v => ?_, fun t ht g hne hsame bufLen => ?_⟩
    · exact SixpSet.inside hcond ht hk
    · exact SixpSet.returned_of hcond ht
    · exact SixpSet.others_of hcond ht hne hsame

/-- A call of a setter on a body. -/
def SixpSet.step (type : SixpPktType) (code : SixpPktCode) (bodyLen : ℕ) (body : ℕ → Byte)
    (s : SixpSet) : Option (ℕ → Byte) :=
  s.apply type code body bodyLen

/-- What is set stays until the field is set again. -/
theorem returned_of_run {after : List SixpSet}
    (hrun : run (SixpSet.step type code bodyLen) body (s :: after) = some t)
    (hcond : Along (SixpSet.step type code bodyLen)
      (fun b s => s.SetCond type code b bodyLen) body (s :: after))
    (hafter : ∀ c ∈ after, c.field ≠ s.field ∧ SameFormat type code c.field s.field)
    (hget : s.field.get bufLen type code t bodyLen = some v) : s.Returned v := by
  have ⟨u, hu, hrest⟩ := run_cons_eq_some.mp hrun
  have ⟨hs, hcond'⟩ := (along_cons hu).mp hcond
  have hsame : s.field.get bufLen type code t bodyLen = s.field.get bufLen type code u bodyLen := by
    clear hget hrun hu hs hcond
    rename' hcond' => hcond
    induction after generalizing u with
    | nil =>
      cases hrest
      rfl
    | cons c after ih =>
      have ⟨w, hw, hrest⟩ := run_cons_eq_some.mp hrest
      have ⟨hc, hcond⟩ := (along_cons hw).mp hcond
      have ⟨hne, hformat⟩ := hafter c mem_cons_self
      rw [ih (fun c hc => hafter c (mem_cons_of_mem _ hc)) w hrest hcond]
      exact SixpSet.others_of hc hw hne.symm hformat
  rw [hsame] at hget
  exact SixpSet.returned_of hs hu hget

/-! ## What the parser leaves open -/

/-- The getters of all fields of a message succeed, with a buffer for the payload. -/
def Readable (pkt : SixpPkt) (fmt : List SixpField) : Prop :=
  ∀ f ∈ fmt, ∃ bufLen, (f.get bufLen pkt.type pkt.code pkt.body pkt.bodyLen).isSome

theorem lengthFits_of_parse {buf : ℕ → Byte} {len : ℕ} {pkt : SixpPkt}
    (h : sixpPktParse buf len = some pkt) : lengthFits pkt.type pkt.code pkt.bodyLen := by
  simp only [sixpPktParse] at h
  split_ifs at h with _ _ hfits
  rw [← Option.some.inj h]
  exact hfits

theorem isSome_word {offset : Option ℕ} (ho : offset = some o) (h : o + 2 ≤ bodyLen) :
    ((getField offset 2 read16 body bodyLen).map le16).isSome := by
  simp [ho, getField, Nat.not_lt.mpr h]

theorem isSome_byte {offset : Option ℕ} (ho : offset = some o) (h : o + 1 ≤ bodyLen) :
    ((getField offset 1 read8 body bodyLen).map fun v => [v]).isSome := by
  rw [getField, ho, bind_some, if_neg (Nat.not_lt.mpr h)]
  rfl

theorem isSome_getCells : (getCells o body bodyLen).isSome ↔
    o ≤ bodyLen ∧ (bodyLen - o) % sizeofCell = 0 := by
  rw [getCells]
  split_ifs with hlen hcells <;> simp_all

theorem isSome_payload (ho : getPayloadOffset type code = some o) :
    (sixpPktGetPayload type code bodyLen body bodyLen).isSome := by
  rw [sixpPktGetPayload, ho, bind_some, if_neg (by omega)]
  rfl

/-- The cells of a response or a confirmation. -/
theorem readable_cellList {pkt : SixpPkt} (h : getCellListOffset pkt.type pkt.code = some 0)
    (hcode : pkt.code = sixpPktRcSuccess ∨ pkt.bodyLen % sizeofCell = 0) :
    Readable pkt [.cellList] ↔ FormatFits pkt [.cellList] := by
  have hiff : Readable pkt [.cellList] ↔ pkt.bodyLen % sizeofCell = 0 := by
    simp [Readable, SixpField.get, sixpPktGetCellList, h, isSome_getCells]
  rw [hiff]
  simp [FormatFits]
  tauto

/-- **The getters of a message that is parsed succeed** if and only if the length fits that the
parser leaves open. -/
theorem readable_iff {pkt : SixpPkt} {fmt : List SixpField}
    (h : lengthFits pkt.type pkt.code pkt.bodyLen) (hfmt : fmt ∈ formats pkt.type pkt.code) :
    Readable pkt fmt ↔ FormatFits pkt fmt := by
  obtain ⟨version, type, code, sfid, seqno, body, len⟩ := pkt
  simp only at h hfmt
  cases type with
  | request =>
    simp only [formats] at hfmt
    split_ifs at hfmt with hadd hrelocate hcount hlist hsignal hclear
    · rw [mem_singleton.mp hfmt]
      have hlen : 4 ≤ len ∧ len % 4 = 0 := by simpa [lengthFits, hadd] using h
      have hcode : getCellOptionsOffset .request code = some 2 ∧
          getNumCellsOffset .request code = some 3 ∧ getCellListOffset .request code = some 4 ∧
          code ≠ sixpPktRcSuccess := by
        rcases hadd with rfl | rfl <;> decide
      refine iff_of_true ?_ ⟨by simp, fun hsuccess => absurd hsuccess hcode.2.2.2, by simp⟩
      simp only [Readable, mem_cons, not_mem_nil, or_false, forall_eq_or_imp, forall_eq]
      refine ⟨⟨0, isSome_word rfl (by omega)⟩, ⟨0, isSome_byte hcode.1 (by omega)⟩,
        ⟨0, isSome_byte hcode.2.1 (by omega)⟩, ⟨0, ?_⟩⟩
      rw [SixpField.get, sixpPktGetCellList, hcode.2.2.1, bind_some, isSome_getCells,
        sizeofCell]
      omega
    · subst hrelocate
      rw [mem_singleton.mp hfmt]
      have hne : sixpPktCmdRelocate ≠ sixpPktRcSuccess := by decide
      have hlen : 4 ≤ len ∧ len % 4 = 0 := by simpa [lengthFits, hadd] using h
      constructor
      · intro hreadable
        refine ⟨fun _ => ?_, fun hsuccess => absurd hsuccess hne, by simp⟩
        have ⟨_, hsome⟩ := hreadable .relCellList (by simp)
        have ⟨_, hget⟩ := isSome_iff_exists.mp hsome
        exact (getRelCellList_eq_some hget).2.1.2
      · intro hfits
        have hcells : ListsReadable len (body 3).toNat := ⟨hlen.2, hfits.1 (by simp)⟩
        simp only [Readable, mem_cons, not_mem_nil, or_false, forall_eq_or_imp, forall_eq]
        refine ⟨⟨0, isSome_word rfl (by omega)⟩, ⟨0, isSome_byte rfl (by omega)⟩,
          ⟨0, isSome_byte rfl (by omega)⟩, ⟨0, ?_⟩, ⟨0, ?_⟩⟩
        · rw [SixpField.get, getRelCellList_of_readable body hcells, isSome_some]
        · have ⟨hwhole, hlong⟩ := hcells
          rw [SixpField.get, getCandCellList_relocate, if_neg (by omega), isSome_getCells]
          rw [sizeofCell] at hwhole hlong ⊢
          omega
    · subst hcount
      rw [mem_singleton.mp hfmt]
      have hne : sixpPktCmdCount ≠ sixpPktRcSuccess := by decide
      have hlen : len = 3 := of_decide_eq_true h
      refine iff_of_true ?_ ⟨by simp, fun hsuccess => absurd hsuccess hne, by simp⟩
      simp only [Readable, mem_cons, not_mem_nil, or_false, forall_eq_or_imp, forall_eq]
      exact ⟨⟨0, isSome_word rfl (by omega)⟩, ⟨0, isSome_byte rfl (by omega)⟩⟩
    · subst hlist
      rw [mem_singleton.mp hfmt]
      have hne : sixpPktCmdList ≠ sixpPktRcSuccess := by decide
      have hlen : len = 8 := of_decide_eq_true h
      refine iff_of_true ?_ ⟨by simp, fun hsuccess => absurd hsuccess hne, by simp⟩
      simp only [Readable, mem_cons, not_mem_nil, or_false, forall_eq_or_imp, forall_eq]
      exact ⟨⟨0, isSome_word rfl (by omega)⟩, ⟨0, isSome_byte rfl (by omega)⟩, ⟨0, rfl⟩,
        ⟨0, isSome_word rfl (by omega)⟩, ⟨0, isSome_word rfl (by omega)⟩⟩
    · subst hsignal
      rw [mem_singleton.mp hfmt]
      have hne : sixpPktCmdSignal ≠ sixpPktRcSuccess := by decide
      have hlen : ¬len < 2 := of_decide_eq_true h
      refine iff_of_true ?_ ⟨by simp, fun hsuccess => absurd hsuccess hne, by simp⟩
      simp only [Readable, mem_cons, not_mem_nil, or_false, forall_eq_or_imp, forall_eq]
      exact ⟨⟨0, isSome_word rfl (by omega)⟩, ⟨len, isSome_payload rfl⟩⟩
    · subst hclear
      rw [mem_singleton.mp hfmt]
      have hne : sixpPktCmdClear ≠ sixpPktRcSuccess := by decide
      have hlen : len = 2 := of_decide_eq_true h
      refine iff_of_true ?_ ⟨by simp, fun hsuccess => absurd hsuccess hne, by simp⟩
      simp only [Readable, mem_cons, not_mem_nil, or_false, forall_eq]
      exact ⟨0, isSome_word rfl (by omega)⟩
    · exact absurd hfmt not_mem_nil
  | response =>
    simp only [formats] at hfmt
    split_ifs at hfmt with hsuccess heol
    · subst hsuccess
      simp only [mem_cons, not_mem_nil, or_false] at hfmt
      rcases hfmt with rfl | rfl | rfl | rfl
      · exact iff_of_true (by simp [Readable]) (by simp [FormatFits])
      · exact readable_cellList rfl (Or.inl rfl)
      · simp only [Readable, FormatFits, mem_singleton, forall_eq]
        by_cases hlen : len < 2
        · have hnone : getField (some 0) 2 (fun body _ => read16 body 0) body len = none :=
            if_pos hlen
          simp [SixpField.get, sixpPktGetTotalNumCells, getTotalNumCellsOffset, hnone]
          omega
        · refine iff_of_true ⟨0, isSome_word rfl (by omega)⟩ ⟨by simp, by simp, fun _ => by omega⟩
      · exact iff_of_true (by simpa [Readable] using ⟨len, isSome_payload rfl⟩) (by simp [FormatFits])
    · subst heol
      rw [mem_singleton.mp hfmt]
      exact readable_cellList rfl (Or.inr (of_decide_eq_true h))
    · rw [mem_singleton.mp hfmt]
      exact iff_of_true (by simp [Readable]) (by simp [FormatFits])
  | confirmation =>
    simp only [formats] at hfmt
    split_ifs at hfmt with hsuccess heol
    · subst hsuccess
      simp only [mem_cons, not_mem_nil, or_false] at hfmt
      rcases hfmt with rfl | rfl | rfl
      · exact iff_of_true (by simp [Readable]) (by simp [FormatFits])
      · exact readable_cellList rfl (Or.inl rfl)
      · exact iff_of_true (by simpa [Readable] using ⟨len, isSome_payload rfl⟩) (by simp [FormatFits])
    · subst heol
      rw [mem_singleton.mp hfmt]
      exact readable_cellList rfl (Or.inr (of_decide_eq_true h))
    · rw [mem_singleton.mp hfmt]
      exact iff_of_true (by simp [Readable]) (by simp [FormatFits])
  | reserved => exact absurd hfmt not_mem_nil

/-- **The getters and setters of the fields of a 6P message.** A getter that succeeds reads bytes of
the body only, and a setter writes bytes of the body only, is read back, and leaves the other fields
as they are, each if and only if its condition holds. In a run of setters that meet theirs, a getter
returns what the last setter of its field wrote. And the getters of a message that is parsed succeed
if and only if its length is one that the parser leaves open. -/
theorem sixp_pkt_access (type : SixpPktType) (code : SixpPktCode) (bodyLen : ℕ) :
    (∀ bufLen body (f : SixpField),
      f.ReadsInside bufLen type code body bodyLen ↔ f.GetCond bufLen type code bodyLen) ∧
    (∀ body (s : SixpSet), s.SetRight type code body bodyLen ↔ s.SetCond type code body bodyLen) ∧
    (∀ bufLen body t (s : SixpSet) after v,
      run (SixpSet.step type code bodyLen) body (s :: after) = some t →
      Along (SixpSet.step type code bodyLen) (fun b s => s.SetCond type code b bodyLen) body
        (s :: after) →
      (∀ c ∈ after, c.field ≠ s.field ∧ SameFormat type code c.field s.field) →
      s.field.get bufLen type code t bodyLen = some v → s.Returned v) ∧
    ∀ buf len pkt, sixpPktParse buf len = some pkt →
      ∀ fmt ∈ formats pkt.type pkt.code, Readable pkt fmt ↔ FormatFits pkt fmt := by
  refine ⟨fun bufLen body f => SixpField.readsInside_iff, fun body s => SixpSet.setRight_iff, ?_, ?_⟩
  · intro bufLen body t s after v hrun hcond hafter hget
    exact returned_of_run hrun hcond hafter hget
  · intro buf len pkt hparse fmt hfmt
    exact readable_iff (lengthFits_of_parse hparse) hfmt

/-- The options of the cells are set after the metadata of a request. -/
theorem sixp_pkt_access_metadata : ∃ t,
    run (SixpSet.step .request sixpPktCmdCount 3) (fun _ => 0)
      [.metadata 0x1234, .cellOptions 5] = some t ∧
    (SixpField.metadata.get 0 .request sixpPktCmdCount t 3 = some (le16 0x1234) →
      (SixpSet.metadata 0x1234).Returned (le16 0x1234)) := by
  refine ⟨_, rfl, fun hget => ?_⟩
  refine (sixp_pkt_access .request sixpPktCmdCount 3).2.2.1 0 (fun _ => 0) _ (.metadata 0x1234)
    [.cellOptions 5] _ rfl ⟨trivial, trivial, trivial⟩ (fun c hc => ?_) hget
  rw [List.mem_singleton.mp hc]
  exact ⟨by decide, _, List.mem_singleton_self _, by decide, by decide⟩

/-- The number of cells is written behind a short body, the reserved field and a payload are read
behind one, a list of cells is written beyond its end, and a message is parsed without its cells. -/
theorem unchecked_accessors :
    ¬(SixpSet.numCells 1).SetRight .request sixpPktCmdAdd (fun _ => 0) 3 ∧
    ¬SixpField.reserved.ReadsInside 0 .request sixpPktCmdList (fun _ => 0) 3 ∧
    ¬SixpField.payload.ReadsInside 4 .request sixpPktCmdSignal (fun _ => 0) 3 ∧
    ¬(SixpSet.relCellList [1, 2, 3, 4] 4).SetRight .request sixpPktCmdRelocate (fun _ => 1) 12 ∧
    ∃ pkt, sixpPktParse (fun k => if k = 1 then 3 else if k = 7 then 1 else 0) 8 = some pkt ∧
      ¬Readable pkt [.metadata, .cellOptions, .numCells, .relCellList, .candCellList] := by
  refine ⟨fun h => ?_, fun h => ?_, fun h => ?_, fun h => ?_, _, rfl, fun h => ?_⟩
  · exact absurd (h.inside (fun _ => 0) (fun _ _ => rfl) _ rfl 3 (by decide)) (by decide)
  · have hsame : ∀ k < 3, (if k = 3 then (1 : Byte) else 0) = 0 := by decide
    exact absurd (h [0] rfl _ hsame) (by decide)
  · have hsame : ∀ k < 3, (if k = 3 then (1 : Byte) else 0) = 0 := by decide
    exact absurd (h [0, 0, 0, 0] rfl _ hsame) (by decide)
  · exact absurd (h.returned _ rfl 0 _ rfl) (show ¬_ = _ by decide)
  · exact absurd (((readable_iff rfl (List.mem_singleton_self _)).mp h).1 (by decide)) (by decide)

end Asap.Sixtop
