import Asap.Mpl.Consistency
import Asap.Mpl.ControlSafety
import Mathlib.Tactic.IntervalCases

/-!
# Two nodes of a domain

A node processes the control message of another. The records are read back as they were written,
and gone through twice; what is found is what either node lacks, for the seeds and vectors for which
the two passes do what they should.

## Main definitions

* `Detected` — what is found is what either node lacks.
* `PairFits` — the seeds and vectors for which it is.
-/

namespace Asap.Mpl

open List

open Lib Ipv6

/-! ## What should be detected -/

/-- A number of a seed that a node is willing to take, and does not have. -/
def Lacks (seeds : List MplSeed) (id : SeedId) (q : BitVec 8) : Prop :=
  ∀ seed ∈ seeds, seed.id = id → seed.Lacks q

/-- A node misses a message that another one has. -/
def Misses (seeds others : List MplSeed) : Prop :=
  ∃ other ∈ others, ∃ msg ∈ other.minSeq, Lacks seeds other.id msg.seq

/-- What a node finds is what it misses, and what the other node misses; it is the timers of those
messages that are restarted, and consistency is reported where there are none. -/
structure Detected (here there : List MplSeed) (found : IcmpIn) : Prop where
  lMissing : found.lMissing = true ↔ Misses here there
  rMissing : found.rMissing = true ↔ Misses there here
  restarted : ∀ ptr, ptr ∈ found.restarted ↔
    ∃ seed ∈ here, ∃ msg ∈ seed.minSeq, msg.ptr = ptr ∧ Lacks there seed.id msg.seq
  consistent : ∀ running, ControlTimer.consistency ∈ controlTimer running found ↔
    ¬ Misses here there ∧ ¬ Misses there here

/-! ## Seeds of two nodes -/

/-- An identifier is in the form of its type. -/
def MplSeed.IdOk (seed : MplSeed) : Prop :=
  match seed.s with
  | 0 | 3 => True
  | 1 => ∀ i : Fin 16, 2 ≤ i.val → i.val < 15 → seed.id i = 0
  | 2 => ∀ i : Fin 16, 8 ≤ i.val → seed.id i = 0
  | _ => False

/-- The seeds of two nodes in one domain: each has a seed once, and the numbers of a seed are in
half of the space. -/
structure PairOk (here there : List MplSeed) : Prop where
  here_ids : here.Pairwise fun seed seed' => seed.id ≠ seed'.id
  there_ids : there.Pairwise fun seed seed' => seed.id ≠ seed'.id
  idOk : ∀ seed ∈ there, seed.IdOk
  ordered : ∃ base : SeedId → BitVec 8, ∀ seed ∈ here ++ there, seed.Ordered (base seed.id)

/-- A message arrives as it has been sent; what lies behind it in the buffer is the receiver's. -/
structure ControlMsg.Receives (msg out : ControlMsg) : Prop where
  srcipaddr : msg.srcipaddr = out.srcipaddr
  destipaddr : msg.destipaddr = out.destipaddr
  ttl : msg.ttl = out.ttl
  type : msg.type = out.type
  icode : msg.icode = out.icode
  len : msg.len = out.len
  payload : ∀ i < out.len, msg.payload i = out.payload i

/-- The identifier of a seed is read back from its record, over an identifier that has been read
before. -/
def IdRead (cfg : MplConfig) (srcipaddr : UipIpaddr) (old : SeedId) (seed : MplSeed) : Prop :=
  match seed.s with
  | 0 => (List.finRange 16).map seed.id = srcipaddr.1 → ∀ i, seed.id i.rev = seed.id i
  | 1 => seed.id (.last 15) = old (.last 15)
  | 2 => cfg.seedInfoS2 = 10
  | _ => True

/-- The sets of each seed that both nodes have fit, with the vector in the record. -/
def RecordsFit (cfg : MplConfig) (msg : ControlMsg) (seeds : List MplSeed) :
    List MplSeed → ℕ → Prop
  | [], _ => True
  | there :: rest, pos =>
    (∀ here ∈ seeds, here.id = there.id →
      RecordFits (bitVectorGetBit msg (vectorOf cfg msg pos)) here there) ∧
      RecordsFit cfg msg seeds rest (pos + recordLen cfg msg.srcipaddr there)

/-- The seeds and the message for which what is found is what either node lacks: identifiers that
are read back, seeds that both have in the same order and before those that only the receiver has,
no seed of only one node without messages, and sets that fit. -/
structure PairFits (cfg : MplConfig) (msg : ControlMsg) (seedId : SeedId)
    (here there : List MplSeed) : Prop where
  ids : ∀ seed ∈ there, ∀ old ∈ seedId :: there.map MplSeed.id,
    IdRead cfg msg.srcipaddr old seed
  order : ∃ common missing, here = common ++ missing ∧
    (common.map MplSeed.id).Sublist (there.map MplSeed.id) ∧
    ∀ seed ∈ missing, seed.id ∉ there.map MplSeed.id ∧ seed.minSeq ≠ []
  unknown : ∀ seed ∈ there, seed.id ∉ here.map MplSeed.id → seed.minSeq ≠ []
  records : RecordsFit cfg msg here there 0

/-! ## Records are read back -/

section

variable {cfg : MplConfig} {msg : ControlMsg} {seed : MplSeed} {pos i : ℕ} {old : SeedId}

theorem bmLenS_toNat : (bmLenS msg.srcipaddr seed).toNat =
    recordType msg.srcipaddr seed + 4 * vecSize seed := by
  have hbits : ∀ s < 4, ∀ n < 33,
      ((BitVec.ofNat 8 s : Byte) ||| (BitVec.ofNat 8 n <<< 2)).toNat = s + 4 * n := by
    decide
  exact hbits _ (recordType_lt _ _) _ (Nat.lt_succ_of_le (vecSize_le seed))

section

variable (h : RecordAt cfg msg.srcipaddr msg.payload seed pos)

include h

theorem RecordAt.seedInfoGetS :
    seedInfoGetS msg pos = recordType msg.srcipaddr seed := by
  have hlt := recordType_lt msg.srcipaddr seed
  rw [Mpl.seedInfoGetS, h.head, bmLenS_toNat]
  omega

theorem RecordAt.seedInfoGetLen :
    seedInfoGetLen msg pos = vecSize seed := by
  have hlt := recordType_lt msg.srcipaddr seed
  rw [Mpl.seedInfoGetLen, h.head, bmLenS_toNat]
  omega

theorem RecordAt.nextRecord :
    nextRecord cfg msg pos = pos + recordLen cfg msg.srcipaddr seed := by
  rw [Mpl.nextRecord, h.seedInfoGetS, h.seedInfoGetLen, recordLen, Nat.add_assoc]

end

/-- The vector of a record announces the messages of its seed. -/
theorem RecordAt.announces {base : BitVec 8} (h : RecordAt cfg msg.srcipaddr msg.payload seed pos)
    (hseed : seed.Ordered base) :
    Announces (bitVectorGetBit msg (vectorOf cfg msg pos))
      (BitVec.ofNat 8 (Mpl.seedInfoGetLen msg pos * 8)) seed := by
  have hsize := hseed.vecSize_le
  refine ⟨?_, fun i hi => ?_⟩
  · rw [h.seedInfoGetLen, BitVec.toNat_ofNat]
    omega
  · have hbit : bitVectorGetBit msg (vectorOf cfg msg pos) i = vectorBit (vectorOut seed).2 i := by
      rw [bitVectorGetBit, vectorOf, h.seedInfoGetS, h.vector _ (by omega), vectorBit]
    rw [hbit, vectorOut_bit]
    rfl

theorem fifteen_sub_val (i : Fin 16) : (15 - i : Fin 16).val = 15 - i.val := by
  revert i
  decide

theorem fifteen_sub_sub (i : Fin 16) : (15 - (15 - i) : Fin 16) = i := by
  revert i
  decide

theorem fifteen_sub_eq_rev (i : Fin 16) : 15 - i = i.rev := by
  revert i
  decide

/-- An identifier of sixteen bytes is read back. -/
theorem netToHost_full {s : ℕ} {src : ℕ → Byte} {id : SeedId} (hs : s ≠ 1) (hs' : s ≠ 2)
    (hsrc : ∀ i : Fin 16, src i.val = id (15 - i)) : seedIdNetToHost old src s = id := by
  funext i
  have hbyte : src (15 - i.val) = id i := by
    rw [← fifteen_sub_val, hsrc, fifteen_sub_sub]
  rw [seedIdNetToHost.eq_def]
  split
  · exact absurd rfl hs
  · exact absurd rfl hs'
  · exact hbyte

/-- An identifier of two bytes is read back, over one with the same last byte. -/
theorem netToHost_two {src : ℕ → Byte} {id : SeedId} (h0 : src 0 = id 1) (h1 : src 1 = id 0)
    (hzero : ∀ i : Fin 16, 2 ≤ i.val → i.val < 15 → id i = 0) (hlast : id 15 = old 15) :
    seedIdNetToHost old src 1 = id := by
  funext i
  rw [seedIdNetToHost]
  split_ifs with hi hi' hi''
  · rw [h1, Fin.ext (a := i) (b := 0) hi]
  · rw [h0, Fin.ext (a := i) (b := 1) hi']
  · exact (hzero i (by omega) hi'').symm
  · have hbound := i.isLt
    rw [Fin.ext (a := i) (b := 15) (by omega : i.val = 15), hlast]

/-- An identifier of eight bytes is read back. -/
theorem netToHost_eight {src : ℕ → Byte} {id : SeedId}
    (hsrc : ∀ i : Fin 16, i.val < 8 → src (7 - i.val) = id i)
    (hzero : ∀ i : Fin 16, 8 ≤ i.val → id i = 0) : seedIdNetToHost old src 2 = id := by
  funext i
  rw [seedIdNetToHost]
  split_ifs with hi
  · exact hsrc i hi
  · exact (hzero i (Nat.le_of_not_lt hi)).symm

theorem hostToNet_full {s : ℕ} (hs : s = 0 ∨ s = 3) (id : SeedId) (i : Fin 16) :
    (seedIdHostToNet s id).getD i.val 0 = id (15 - i) := by
  have hlist : seedIdHostToNet s id = (List.finRange 16).map fun i => id (15 - i) := by
    cases hs with
    | inl hs => rw [hs, seedIdHostToNet]
    | inr hs => rw [hs, seedIdHostToNet]
  rw [hlist, getD_eq_getElem _ _ (by simp)]
  simp

theorem hostToNet_eight (id : SeedId) (i : Fin 16) (hi : i.val < 8) :
    (seedIdHostToNet 2 id).getD (7 - i.val) 0 = id i := by
  obtain ⟨i, hbound⟩ := i
  dsimp only at hi ⊢
  interval_cases i <;> rfl

theorem MplSeed.IdOk.cases (h : seed.IdOk) : (seed.s = 0 ∨ seed.s = 3) ∨
    (seed.s = 1 ∧ ∀ i : Fin 16, 2 ≤ i.val → i.val < 15 → seed.id i = 0) ∨
      (seed.s = 2 ∧ ∀ i : Fin 16, 8 ≤ i.val → seed.id i = 0) := by
  rw [MplSeed.IdOk] at h
  split at h
  · rename_i hs
    exact Or.inl (Or.inl hs)
  · rename_i hs
    exact Or.inl (Or.inr hs)
  · rename_i hs
    exact Or.inr (Or.inl ⟨hs, h⟩)
  · rename_i hs
    exact Or.inr (Or.inr ⟨hs, h⟩)
  · exact absurd h not_false

/-- The bytes of the identifier in a record, for a type. -/
theorem RecordAt.id_bytes {s : ℕ} (h : RecordAt cfg msg.srcipaddr msg.payload seed pos)
    (htype : recordType msg.srcipaddr seed = s) (hs : s ≠ 0) (hsize : seedInfoSize cfg s - seedIdLen s = 2)
    (hi : i < seedIdLen s) :
    msg.payload (pos + 2 + i) = (seedIdHostToNet seed.s seed.id).getD i 0 := by
  have hid := h.id i
  rw [recordIdOut, htype, if_neg hs, hsize] at hid
  exact hid hi

/-- The identifier of a record of its full length. -/
theorem RecordAt.recordId_full (h : RecordAt cfg msg.srcipaddr msg.payload seed pos)
    (hs : seed.s = 0 ∨ seed.s = 3) (hread : IdRead cfg msg.srcipaddr old seed) :
    Mpl.recordId msg old pos 2 = seed.id ∧ firstIdOffset cfg msg pos = 2 := by
  rw [Mpl.recordId, firstIdOffset, h.seedInfoGetS]
  by_cases hsrc : seed.s = 0 ∧ (List.finRange 16).map seed.id = msg.srcipaddr.1
  · -- the identifier is the source address
    have htype : recordType msg.srcipaddr seed = 0 := by
      rw [recordType, hsrc.1]
      exact if_pos hsrc.2
    rw [htype, if_pos rfl]
    refine ⟨netToHost_full (by decide) (by decide) fun i => ?_, rfl⟩
    rw [IdRead, hsrc.1] at hread
    rw [fifteen_sub_eq_rev, hread hsrc.2, addrByte, ← hsrc.2, getD_eq_getElem _ _ (by simp)]
    simp
  · have htype : recordType msg.srcipaddr seed = 3 := by
      rw [recordType]
      cases hs with
      | inl hs =>
        rw [hs]
        exact if_neg fun heq => hsrc ⟨hs, heq⟩
      | inr hs =>
        rw [hs]
        rfl
    rw [htype, if_neg (by decide)]
    refine ⟨netToHost_full (by decide) (by decide) fun i => ?_, rfl⟩
    rw [h.id_bytes htype (by decide) rfl i.isLt, hostToNet_full hs]

/-- **The identifier** of a record is the one that was written. -/
theorem RecordAt.recordId (h : RecordAt cfg msg.srcipaddr msg.payload seed pos) (hok : seed.IdOk)
    (hread : IdRead cfg msg.srcipaddr old seed) :
    Mpl.recordId msg old pos 2 = seed.id ∧ firstIdOffset cfg msg pos = 2 := by
  obtain hs | ⟨hs, hzero⟩ | ⟨hs, hzero⟩ := hok.cases
  · exact h.recordId_full hs hread
  · have htype : recordType msg.srcipaddr seed = 1 := by
      rw [recordType, hs]
      rfl
    rw [IdRead, hs] at hread
    rw [Mpl.recordId, firstIdOffset, h.seedInfoGetS, htype, if_neg (by decide)]
    refine ⟨netToHost_two ?_ ?_ hzero hread, rfl⟩
    · rw [h.id_bytes htype (by decide) rfl (by decide), hs]
      rfl
    · rw [h.id_bytes htype (by decide) rfl (by decide), hs]
      rfl
  · have htype : recordType msg.srcipaddr seed = 2 := by
      rw [recordType, hs]
      rfl
    rw [IdRead, hs] at hread
    have hsize : seedInfoSize cfg 2 - seedIdLen 2 = 2 := by
      rw [seedInfoSize, hread]
      rfl
    rw [Mpl.recordId, firstIdOffset, h.seedInfoGetS, htype, if_neg (by decide)]
    refine ⟨netToHost_eight (fun i hi => ?_) hzero, hsize⟩
    rw [h.id_bytes htype (by decide) hsize (Nat.lt_succ_of_le (Nat.sub_le 7 _)), hs]
    exact hostToNet_eight seed.id i hi

end

/-! ## The first pass -/

section

variable {cfg : MplConfig} {msg : ControlMsg} {seedId : SeedId} {here there rest : List MplSeed}
  {olds : List SeedId} {pos fuel : ℕ}

/-- Records whose identifiers are read back over any of some identifiers, their own among them. -/
structure Readable (cfg : MplConfig) (msg : ControlMsg) (olds : List SeedId) (rest : List MplSeed)
    (pos : ℕ) : Prop where
  records : RecordsAt cfg msg.srcipaddr msg.payload msg.len rest pos
  idOk : ∀ seed ∈ rest, seed.IdOk
  ids : ∀ seed ∈ rest, seed.id ∈ olds
  read : ∀ seed ∈ rest, ∀ old ∈ olds, IdRead cfg msg.srcipaddr old seed

section

variable {seed : MplSeed} (h : Readable cfg msg olds (seed :: rest) pos)

include h

theorem Readable.tail :
    Readable cfg msg olds rest (pos + recordLen cfg msg.srcipaddr seed) where
  records := h.records.2
  idOk := fun s hs => h.idOk s (mem_cons_of_mem _ hs)
  ids := fun s hs => h.ids s (mem_cons_of_mem _ hs)
  read := fun s hs => h.read s (mem_cons_of_mem _ hs)

theorem Readable.pos_lt :
    pos < msg.len := by
  have hlen := h.records.length_le
  rw [length_cons] at hlen
  omega

theorem Readable.head (hold : seedId ∈ olds) :
    recordId msg seedId pos 2 = seed.id ∧ firstIdOffset cfg msg pos = 2 :=
  h.records.1.recordId (h.idOk seed mem_cons_self) (h.read seed mem_cons_self seedId hold)

end

/-- **The search for a seed** ends behind its record, or at the end of the message. -/
theorem findSeed_found (id : SeedId) (h : Readable cfg msg olds rest pos) (hold : seedId ∈ olds)
    (hfuel : rest.length ≤ fuel) :
    (findSeed cfg msg id fuel pos seedId).seedId ∈ olds ∧
      ((∃ before seed after, rest = before ++ seed :: after ∧ id ∉ before.map MplSeed.id ∧
        seed.id = id ∧ (findSeed cfg msg id fuel pos seedId).found = true ∧
          Readable cfg msg olds after (findSeed cfg msg id fuel pos seedId).pos) ∨
        (id ∉ rest.map MplSeed.id ∧ (findSeed cfg msg id fuel pos seedId).found = false ∧
          (findSeed cfg msg id fuel pos seedId).pos = msg.len)) := by
  induction rest generalizing pos seedId fuel with
  | nil =>
    have hpos : pos = msg.len := h.records
    have hend : findSeed cfg msg id fuel pos seedId = ⟨false, pos, seedId, []⟩ := by
      cases fuel with
      | zero => rfl
      | succ fuel => rw [findSeed, if_neg (Nat.not_lt_of_le (Nat.le_of_eq hpos.symm))]
    rw [hend]
    exact ⟨hold, Or.inr ⟨not_mem_nil, rfl, hpos⟩⟩
  | cons seed rest ih =>
    obtain ⟨hid, hoffset⟩ := h.head hold
    cases fuel with
    | zero => exact absurd hfuel (Nat.not_succ_le_zero _)
    | succ fuel =>
      rw [findSeed, if_pos h.pos_lt]
      dsimp only
      rw [hoffset, hid, h.records.1.nextRecord]
      by_cases hfound : seed.id = id
      · rw [if_pos hfound]
        exact ⟨h.ids seed mem_cons_self,
          Or.inl ⟨[], seed, rest, rfl, not_mem_nil, hfound, rfl, h.tail⟩⟩
      · rw [if_neg hfound]
        obtain ⟨hmem, hcase⟩ := ih h.tail (h.ids seed mem_cons_self)
          (Nat.le_of_succ_le_succ hfuel)
        refine ⟨hmem, ?_⟩
        cases hcase with
        | inl hsome =>
          obtain ⟨before, s, after, hsplit, hnot, hs, hgot, hafter⟩ := hsome
          refine Or.inl ⟨seed :: before, s, after, by rw [hsplit, cons_append], ?_, hs, hgot,
            hafter⟩
          rw [map_cons]
          exact not_mem_cons_of_ne_of_not_mem (Ne.symm hfound) hnot
        | inr hnone =>
          obtain ⟨hnot, hgot, hend⟩ := hnone
          refine Or.inr ⟨?_, hgot, hend⟩
          rw [map_cons]
          exact not_mem_cons_of_ne_of_not_mem (Ne.symm hfound) hnot

theorem Readable.length_le (h : Readable cfg msg olds rest pos) : rest.length ≤ msg.len := by
  have hlen := h.records.length_le
  omega

/-- What the first pass finds for seeds that the message does not have. -/
theorem firstPass_missing {missing : List MplSeed} (h : Readable cfg msg olds rest pos)
    (hold : seedId ∈ olds) (hmissing : ∀ seed ∈ missing, seed.id ∉ rest.map MplSeed.id) :
    (firstPass cfg msg missing pos seedId).seedId ∈ olds ∧
      ((firstPass cfg msg missing pos seedId).rMissing = true ↔ missing ≠ []) ∧
      (firstPass cfg msg missing pos seedId).restarted =
        missing.flatMap fun seed => seed.minSeq.map MplMsg.ptr := by
  induction missing generalizing pos seedId rest with
  | nil => exact ⟨hold, by simp [firstPass], rfl⟩
  | cons seed missing ih =>
    obtain ⟨hmem, hcase⟩ := findSeed_found seed.id h hold h.length_le
    have hnone := hcase.resolve_left (by
      rintro ⟨before, s, after, hsplit, -, hs, -⟩
      refine hmissing seed mem_cons_self ?_
      rw [hsplit, map_append, map_cons, hs]
      exact mem_append_right _ mem_cons_self)
    obtain ⟨-, hgot, hend⟩ := hnone
    have hnil : Readable cfg msg olds []
        (findSeed cfg msg seed.id msg.len pos seedId).pos :=
      ⟨hend, fun s hs => absurd hs not_mem_nil, fun s hs => absurd hs not_mem_nil,
        fun s hs => absurd hs not_mem_nil⟩
    obtain ⟨hmem', -, hrestarted⟩ := ih hnil hmem fun s _ => not_mem_nil
    rw [firstPass]
    dsimp only
    rw [hgot, hrestarted]
    refine ⟨hmem', ?_, rfl⟩
    simp

theorem sublist_after {α : Type*} {a : α} {l before after : List α}
    (h : (a :: l).Sublist (before ++ a :: after)) (hnot : a ∉ before) : l.Sublist after := by
  induction before with
  | nil => exact cons_sublist_cons.mp h
  | cons b before ih =>
    obtain ⟨hne, hnot⟩ := not_or.mp (mt mem_cons.mpr hnot)
    exact ih (h.of_cons_of_ne hne) hnot

/-- **The first pass** finds the seeds that the message does not have, where the others are in the
same order and before them. -/
theorem firstPass_found {common missing : List MplSeed} (h : Readable cfg msg olds rest pos)
    (hold : seedId ∈ olds)
    (hcommon : (common.map MplSeed.id).Sublist (rest.map MplSeed.id))
    (hmissing : ∀ seed ∈ missing, seed.id ∉ rest.map MplSeed.id) :
    (firstPass cfg msg (common ++ missing) pos seedId).seedId ∈ olds ∧
      ((firstPass cfg msg (common ++ missing) pos seedId).rMissing = true ↔ missing ≠ []) ∧
      (firstPass cfg msg (common ++ missing) pos seedId).restarted =
        missing.flatMap fun seed => seed.minSeq.map MplMsg.ptr := by
  induction common generalizing pos seedId rest with
  | nil => exact firstPass_missing h hold hmissing
  | cons seed common ih =>
    obtain ⟨hmem, hcase⟩ := findSeed_found seed.id h hold h.length_le
    have hin : seed.id ∈ rest.map MplSeed.id := hcommon.subset mem_cons_self
    obtain ⟨before, s, after, hsplit, hnot, hs, hgot, hafter⟩ :=
      hcase.resolve_right fun hnone => hnone.1 hin
    have hrest : rest.map MplSeed.id = before.map MplSeed.id ++ seed.id :: after.map MplSeed.id := by
      rw [hsplit, map_append, map_cons, hs]
    rw [hrest] at hcommon
    have hcommon' := sublist_after hcommon hnot
    obtain ⟨hmem', hr, hrestarted⟩ := ih hafter hmem hcommon' fun s' hs' hin' =>
      hmissing s' hs' (by
        rw [hrest]
        exact mem_append_right _ (mem_cons_of_mem _ hin'))
    rw [cons_append, firstPass]
    dsimp only
    rw [hgot, hrestarted, Bool.not_true, Bool.false_or]
    exact ⟨hmem', hr, rfl⟩

end

/-! ## The second pass -/

section

variable {cfg : MplConfig} {msg : ControlMsg} {seedId : SeedId} {here there rest : List MplSeed}
  {seed : MplSeed} {olds : List SeedId} {pos fuel : ℕ} {base : SeedId → BitVec 8}

/-- What the second pass finds is what the nodes lack of the seeds in the records. -/
structure SecondFinds (here rest : List MplSeed) (result : IcmpIn) : Prop where
  lMissing : result.lMissing = true ↔
    ∃ seed ∈ rest, ∃ m ∈ seed.minSeq, Lacks here seed.id m.seq
  rMissing : result.rMissing = true ↔
    ∃ seed ∈ rest, ∃ mine ∈ here, mine.id = seed.id ∧ ∃ m ∈ mine.minSeq, seed.Lacks m.seq
  restarted : ∀ ptr, ptr ∈ result.restarted ↔
    ∃ seed ∈ rest, ∃ mine ∈ here, mine.id = seed.id ∧
      ∃ m ∈ mine.minSeq, m.ptr = ptr ∧ seed.Lacks m.seq

/-- A seed is there once. -/
theorem eq_of_id_eq {seeds : List MplSeed} {s s' : MplSeed}
    (hids : seeds.Pairwise fun seed seed' => seed.id ≠ seed'.id) (hs : s ∈ seeds) (hs' : s' ∈ seeds)
    (h : s.id = s'.id) : s = s' :=
  inj_on_of_nodup_map (pairwise_map.mpr hids) hs hs' h

theorem lacks_iff {seeds : List MplSeed} {s : MplSeed} {q : BitVec 8}
    (hids : seeds.Pairwise fun seed seed' => seed.id ≠ seed'.id) (hs : s ∈ seeds) :
    Lacks seeds s.id q ↔ s.Lacks q := by
  constructor
  · intro h
    exact h s hs rfl
  · intro h s' hs' hid
    rw [eq_of_id_eq hids hs' hs hid]
    exact h

theorem lacks_of_notMem {seeds : List MplSeed} {id : SeedId} {q : BitVec 8}
    (h : id ∉ seeds.map MplSeed.id) : Lacks seeds id q := fun s hs hid =>
  absurd (mem_map.mpr ⟨s, hs, hid⟩) h

/-- The record of a seed that is not known. -/
theorem SecondFinds.unknown {result : IcmpIn} (h : SecondFinds here rest result)
    (hunknown : seed.id ∉ here.map MplSeed.id) (hne : seed.minSeq ≠ []) (accesses : List Access) :
    SecondFinds here (seed :: rest) { result with lMissing := true, accesses := accesses } := by
  obtain ⟨m, hm⟩ := exists_mem_of_ne_nil _ hne
  have hnone : ∀ mine ∈ here, mine.id ≠ seed.id := fun mine hmine hid =>
    hunknown (mem_map.mpr ⟨mine, hmine, hid⟩)
  refine ⟨⟨fun _ => ⟨seed, mem_cons_self, m, hm, lacks_of_notMem hunknown⟩, fun _ => rfl⟩,
    h.rMissing.trans ?_, fun ptr => (h.restarted ptr).trans ?_⟩
  · rw [exists_mem_cons_iff]
    refine (or_iff_right ?_).symm
    rintro ⟨mine, hmine, hid, -⟩
    exact hnone mine hmine hid
  · rw [exists_mem_cons_iff]
    refine (or_iff_right ?_).symm
    rintro ⟨mine, hmine, hid, -⟩
    exact hnone mine hmine hid

/-- The record of a seed that is known. -/
theorem SecondFinds.known {result : IcmpIn} {mine : MplSeed} {found : Compared}
    (h : SecondFinds here rest result)
    (hids : here.Pairwise fun seed seed' => seed.id ≠ seed'.id) (hmine : mine ∈ here)
    (hid : mine.id = seed.id) (hagrees : Agrees mine seed found) (accesses : List Access) :
    SecondFinds here (seed :: rest)
      { result with
        lMissing := found.lMissing || result.lMissing
        rMissing := found.rMissing || result.rMissing
        restarted := found.restarted ++ result.restarted
        accesses := accesses } := by
  have hone : ∀ p : MplSeed → Prop, (∃ s ∈ here, s.id = seed.id ∧ p s) ↔ p mine := by
    intro p
    constructor
    · rintro ⟨s, hs, hsid, hp⟩
      rw [← eq_of_id_eq hids hs hmine (hsid.trans hid.symm)]
      exact hp
    · intro hp
      exact ⟨mine, hmine, hid, hp⟩
  refine ⟨?_, ?_, fun ptr => ?_⟩
  · rw [Bool.or_eq_true, exists_mem_cons_iff, hagrees.lMissing, h.lMissing, ← hid]
    simp only [lacks_iff hids hmine]
  · rw [Bool.or_eq_true, exists_mem_cons_iff, hagrees.rMissing, h.rMissing, hone]
  · rw [mem_append, exists_mem_cons_iff, hagrees.restarted, h.restarted, hone]

/-- **The second pass** finds what the nodes lack of the seeds in the records. -/
theorem secondPass_found (h : Readable cfg msg olds rest pos) (hold : seedId ∈ olds)
    (hfuel : rest.length ≤ fuel)
    (hids : here.Pairwise fun seed seed' => seed.id ≠ seed'.id)
    (hhere : ∀ seed ∈ here, seed.Ordered (base seed.id))
    (hthere : ∀ seed ∈ rest, seed.Ordered (base seed.id))
    (hunknown : ∀ seed ∈ rest, seed.id ∉ here.map MplSeed.id → seed.minSeq ≠ [])
    (hfits : RecordsFit cfg msg here rest pos) :
    ∃ searchFuel result, secondPass cfg msg here searchFuel fuel pos seedId = some result ∧
      SecondFinds here rest result := by
  induction rest generalizing pos seedId fuel with
  | nil =>
    have hpos : pos = msg.len := h.records
    exact ⟨0, _, secondPass_end (Nat.not_lt_of_le (Nat.le_of_eq hpos.symm)), by simp, by simp,
      by simp⟩
  | cons seed rest ih =>
    have hid := (h.head hold).1
    cases fuel with
    | zero => exact absurd hfuel (Nat.not_succ_le_zero _)
    | succ fuel =>
      obtain ⟨searchFuel, result, hresult, hfinds⟩ := ih h.tail (h.ids seed mem_cons_self)
        (Nat.le_of_succ_le_succ hfuel) (fun s hs => hthere s (mem_cons_of_mem _ hs))
        (fun s hs => hunknown s (mem_cons_of_mem _ hs)) hfits.2
      rw [← hid, ← h.records.1.nextRecord] at hresult
      cases hfind : here.find? fun s => s.id = recordId msg seedId pos 2 with
      | none =>
        have hstep : secondPass cfg msg here searchFuel (fuel + 1) pos seedId = _ :=
          secondPass_unknown h.pos_lt hfind
        rw [hresult] at hstep
        refine ⟨searchFuel, _, hstep, hfinds.unknown ?_ ?_ _⟩
        all_goals
          have hnot : seed.id ∉ here.map MplSeed.id := by
            intro hin
            obtain ⟨s, hs, hsid⟩ := mem_map.mp hin
            have hno := List.find?_eq_none.mp hfind s hs
            rw [hid] at hno
            exact hno (decide_eq_true hsid)
        · exact hnot
        · exact hunknown seed mem_cons_self hnot
      | some mine =>
        have hmine := mem_of_find?_eq_some hfind
        have hsame : mine.id = seed.id := by
          have hp := List.find?_some hfind
          rw [hid] at hp
          exact of_decide_eq_true hp
        have hseed := hthere seed mem_cons_self
        have hmineOrdered := hhere mine hmine
        rw [hsame] at hmineOrdered
        obtain ⟨searchFuel', found, hfound, hagrees⟩ := compareSeed_agrees hmineOrdered hseed
          (h.records.1.announces hseed) (hfits.1 mine hmine hsame)
        have hstep : secondPass cfg msg here (max searchFuel searchFuel') (fuel + 1) pos
            seedId = _ := secondPass_known h.pos_lt hfind
        rw [compareRecord, h.records.1.minSeqno,
          compareSeed_mono (Nat.le_max_right _ _) hfound, Option.bind_some,
          secondPass_mono (Nat.le_max_left _ _) hresult] at hstep
        exact ⟨max searchFuel searchFuel', _, hstep, hfinds.known hids hmine hsame hagrees _⟩

end

/-! ## The message -/

section

variable {cfg : MplConfig} {msg out : ControlMsg} {addrs : SourceAddrs} {st sender : MplNode}
  {here there : List MplSeed} {domain domainOut : ℕ} {dom : MplDomain} {buf : ℕ → Byte}
  {found : IcmpIn}

/-- The records of a message that arrives. -/
theorem icmpOut_records (hout : icmpOut cfg addrs sender domainOut dom buf = some out)
    (hmsg : msg.Receives out) :
    RecordsAt cfg msg.srcipaddr msg.payload msg.len (seedsOf sender domainOut) 0 := by
  rw [icmpOut] at hout
  cases hsrc : sourceOf addrs dom.ctrlAddr (seedsOf sender domainOut) with
  | none =>
    rw [hsrc] at hout
    exact absurd hout.symm (Option.some_ne_none out)
  | some srcipaddr =>
    rw [hsrc] at hout
    obtain rfl := Option.some.inj hout
    rw [hmsg.srcipaddr, hmsg.len]
    exact putRecords_at.congr fun i _ hi => hmsg.payload i hi

/-- A message that arrives passes the checks of its headers. -/
theorem icmpOut_headersOk (hout : icmpOut cfg addrs sender domainOut dom buf = some out)
    (hmsg : msg.Receives out) (hctrl : isAddrMcastNonRoutable dom.ctrlAddr = true) :
    headersOk cfg msg = true := by
  rw [icmpOut] at hout
  cases hsrc : sourceOf addrs dom.ctrlAddr (seedsOf sender domainOut) with
  | none =>
    rw [hsrc] at hout
    exact absurd hout.symm (Option.some_ne_none out)
  | some srcipaddr =>
    rw [hsrc] at hout
    obtain rfl := Option.some.inj hout
    rw [headersOk, hmsg.destipaddr, hmsg.type, hmsg.icode, hmsg.ttl, hctrl]
    simp

/-- A message that is not discarded is processed by both passes. -/
theorem icmpIn_processed {domains : List (Option MplDomain)} (hheaders : headersOk cfg msg = true)
    (hdomain : domainOf st msg.destipaddr = some (domain, domains)) (searchFuel : ℕ) :
    icmpIn cfg msg st searchFuel =
      (secondPass cfg msg (seedsOf st domain) searchFuel msg.len 0
        (firstPass cfg msg (seedsOf st domain) 0 st.seedId).seedId).map fun second =>
          .processed domain { second with
            rMissing :=
              (firstPass cfg msg (seedsOf st domain) 0 st.seedId).rMissing || second.rMissing
            restarted :=
              (firstPass cfg msg (seedsOf st domain) 0 st.seedId).restarted ++ second.restarted
            accesses :=
              (firstPass cfg msg (seedsOf st domain) 0 st.seedId).accesses ++ second.accesses } := by
  rw [icmpIn, if_pos hheaders, hdomain]

/-- Consistency is reported where no flag is set. -/
theorem consistency_mem_controlTimer (running : Bool) (found : IcmpIn) :
    ControlTimer.consistency ∈ controlTimer running found ↔
      ¬ found.lMissing = true ∧ ¬ found.rMissing = true := by
  rw [controlTimer]
  cases found.lMissing <;> cases found.rMissing <;> cases running <;> simp

/-- What both passes find. -/
theorem detected_of_passes {common missing : List MplSeed} {first second : IcmpIn}
    (hpair : PairOk here there) (hhere : here = common ++ missing)
    (hcommon : (common.map MplSeed.id).Sublist (there.map MplSeed.id))
    (hmissing : ∀ seed ∈ missing, seed.id ∉ there.map MplSeed.id ∧ seed.minSeq ≠ [])
    (hr : first.rMissing = true ↔ missing ≠ [])
    (hrestarted : first.restarted = missing.flatMap fun seed => seed.minSeq.map MplMsg.ptr)
    (hsecond : SecondFinds here there second) (hl : found.lMissing = second.lMissing)
    (hrFound : found.rMissing = (first.rMissing || second.rMissing))
    (hrestartedFound : found.restarted = first.restarted ++ second.restarted) :
    Detected here there found := by
  have hmine : ∀ seed ∈ here, seed ∈ missing ∨ ∃ other ∈ there, other.id = seed.id := by
    intro seed hseed
    rw [hhere] at hseed
    cases mem_append.mp hseed with
    | inl hin =>
      obtain ⟨other, hother, hid⟩ := mem_map.mp (hcommon.subset (mem_map_of_mem hin))
      exact Or.inr ⟨other, hother, hid⟩
    | inr hin => exact Or.inl hin
  have hlMissing : found.lMissing = true ↔ Misses here there := by
    rw [hl]
    exact hsecond.lMissing
  have hrMissing : found.rMissing = true ↔ Misses there here := by
    rw [hrFound, Bool.or_eq_true, hr, hsecond.rMissing]
    constructor
    · rintro (hne | ⟨other, hother, mine, hin, hid, m, hm, hlack⟩)
      · obtain ⟨mine, hin⟩ := exists_mem_of_ne_nil _ hne
        obtain ⟨m, hm⟩ := exists_mem_of_ne_nil _ (hmissing mine hin).2
        refine ⟨mine, ?_, m, hm, lacks_of_notMem (hmissing mine hin).1⟩
        rw [hhere]
        exact mem_append_right _ hin
      · refine ⟨mine, hin, m, hm, ?_⟩
        rw [hid, lacks_iff hpair.there_ids hother]
        exact hlack
    · rintro ⟨mine, hin, m, hm, hlack⟩
      cases hmine mine hin with
      | inl hin' => exact Or.inl (ne_nil_of_mem hin')
      | inr hother =>
        obtain ⟨other, hother, hid⟩ := hother
        rw [← hid, lacks_iff hpair.there_ids hother] at hlack
        exact Or.inr ⟨other, hother, mine, hin, hid.symm, m, hm, hlack⟩
  refine ⟨hlMissing, hrMissing, fun ptr => ?_, fun running => ?_⟩
  · rw [hrestartedFound, mem_append, hsecond.restarted, hrestarted, mem_flatMap]
    constructor
    · rintro (⟨mine, hin, hptr⟩ | ⟨other, hother, mine, hin, hid, m, hm, hptr, hlack⟩)
      · obtain ⟨m, hm, heq⟩ := mem_map.mp hptr
        refine ⟨mine, ?_, m, hm, heq, lacks_of_notMem (hmissing mine hin).1⟩
        rw [hhere]
        exact mem_append_right _ hin
      · refine ⟨mine, hin, m, hm, hptr, ?_⟩
        rw [hid, lacks_iff hpair.there_ids hother]
        exact hlack
    · rintro ⟨mine, hin, m, hm, hptr, hlack⟩
      cases hmine mine hin with
      | inl hin' => exact Or.inl ⟨mine, hin', mem_map.mpr ⟨m, hm, hptr⟩⟩
      | inr hother =>
        obtain ⟨other, hother, hid⟩ := hother
        rw [← hid, lacks_iff hpair.there_ids hother] at hlack
        exact Or.inr ⟨other, hother, mine, hin, hid.symm, m, hm, hptr, hlack⟩
  · rw [consistency_mem_controlTimer, hlMissing, hrMissing]

/-- **Consistency detection.** A node that processes the control message of another finds what
either of them misses, restarts the timers of the messages that the other misses, and reports
consistency where there are none, for the seeds and the message that fit. -/
theorem mpl_consistency_detected {domains : List (Option MplDomain)}
    (hout : icmpOut cfg addrs sender domainOut dom buf = some out) (hmsg : msg.Receives out)
    (hctrl : isAddrMcastNonRoutable dom.ctrlAddr = true)
    (hdomain : domainOf st msg.destipaddr = some (domain, domains))
    (hpair : PairOk (seedsOf st domain) (seedsOf sender domainOut))
    (hfits : PairFits cfg msg st.seedId (seedsOf st domain) (seedsOf sender domainOut)) :
    ∃ searchFuel found, icmpIn cfg msg st searchFuel = some (.processed domain found) ∧
      Detected (seedsOf st domain) (seedsOf sender domainOut) found := by
  obtain ⟨common, missing, hhere, hcommon, hmissing⟩ := hfits.order
  obtain ⟨base, hordered⟩ := hpair.ordered
  have hreadable : Readable cfg msg (st.seedId :: (seedsOf sender domainOut).map MplSeed.id)
      (seedsOf sender domainOut) 0 :=
    ⟨icmpOut_records hout hmsg, hpair.idOk,
      fun seed hseed => List.mem_cons_of_mem _ (List.mem_map_of_mem hseed), hfits.ids⟩
  obtain ⟨hold, hr, hrestarted⟩ := firstPass_found hreadable List.mem_cons_self hcommon
    fun seed hseed => (hmissing seed hseed).1
  rw [← hhere] at hold hr hrestarted
  obtain ⟨searchFuel, second, hsecond, hfinds⟩ := secondPass_found hreadable hold
    hreadable.length_le hpair.here_ids
    (fun seed hseed => hordered seed (List.mem_append_left _ hseed))
    (fun seed hseed => hordered seed (List.mem_append_right _ hseed)) hfits.unknown hfits.records
  have hresult := icmpIn_processed (icmpOut_headersOk hout hmsg hctrl) hdomain searchFuel
  rw [hsecond, Option.map_some] at hresult
  exact ⟨searchFuel, _, hresult,
    detected_of_passes hpair hhere hcommon hmissing hr hrestarted hfinds rfl rfl rfl⟩

/-- An identifier of two bytes. -/
def shortId (a b : Byte) : SeedId := fun i =>
  if i.val = 0 then b else if i.val = 1 then a else 0

/-- A node with seeds of one domain. -/
def nodeOf (seeds : List MplSeed) : MplNode where
  seedSet := seeds.map some
  domainSet := [some ⟨dataAddrAt, ctrlAddrAt⟩]
  maddr := fun _ => true
  maddrFree := true
  seedId := fun _ => 0

/-- A seed with messages, the first of which has the least number. -/
def seedWith (id : SeedId) (seqs : List (BitVec 8)) : MplSeed where
  s := 1
  id := id
  minSeqno := seqs.headD 0
  domain := 0
  minSeq := seqs.mapIdx MplMsg.mk

/-- The control message of a node. -/
def sentBy (node : MplNode) : Option ControlMsg :=
  icmpOut ⟨true, 10, Nat.le_refl 10⟩ ⟨some dataAddrAt, id⟩ node 0 ⟨dataAddrAt, ctrlAddrAt⟩ fun _ => 0

theorem receives_self (out : ControlMsg) : out.Receives out :=
  ⟨rfl, rfl, rfl, rfl, rfl, rfl, fun _ _ => rfl⟩

/-- The message 4 is on both sides, and 3 and 6 are on one. -/
theorem mpl_consistency_detected_two :
    ∃ out, sentBy (nodeOf [seedWith (shortId 1 2) [4, 6]]) = some out ∧
      ∃ searchFuel found, icmpIn ⟨true, 10, Nat.le_refl 10⟩ out
        (nodeOf [seedWith (shortId 1 2) [3, 4]]) searchFuel = some (.processed 0 found) ∧
      Detected (seedsOf (nodeOf [seedWith (shortId 1 2) [3, 4]]) 0)
        (seedsOf (nodeOf [seedWith (shortId 1 2) [4, 6]]) 0) found := by
  obtain ⟨out, hout⟩ : ∃ out, sentBy (nodeOf [seedWith (shortId 1 2) [4, 6]]) = some out := ⟨_, rfl⟩
  have hsrc : out.destipaddr = ctrlAddrAt := by
    rw [← Option.some.inj hout]
  have hzero : ∀ i : Fin 16, 2 ≤ i.val → i.val < 15 → shortId 1 2 i = 0 := by decide
  refine ⟨out, hout, mpl_consistency_detected hout (receives_self out) (by decide)
    (by rw [hsrc]; rfl) ⟨List.pairwise_singleton _ _, List.pairwise_singleton _ _,
      fun seed hseed => ?_, ⟨fun _ => 3, fun seed hseed => ?_⟩⟩ ⟨?_, ?_, ?_, ?_, trivial⟩⟩
  · obtain rfl := List.mem_singleton.mp hseed
    exact hzero
  · cases List.mem_cons.mp hseed with
    | inl hfirst =>
      rw [hfirst]
      exact ⟨by decide, by decide, by decide, by decide⟩
    | inr hsecond =>
      rw [List.mem_singleton.mp hsecond]
      exact ⟨by decide, by decide, by decide, by decide⟩
  · intro seed hseed old hold
    obtain rfl := List.mem_singleton.mp hseed
    show shortId 1 2 15 = old 15
    cases List.mem_cons.mp hold with
    | inl hfirst =>
      rw [hfirst]
      decide
    | inr hsecond => rw [List.mem_singleton.mp hsecond]; rfl
  · exact ⟨[seedWith (shortId 1 2) [3, 4]], [], rfl, List.Sublist.refl _,
      fun seed hseed => absurd hseed List.not_mem_nil⟩
  · intro seed hseed _
    obtain rfl := List.mem_singleton.mp hseed
    exact List.cons_ne_nil _ _
  · intro mine hmine _
    obtain rfl := List.mem_singleton.mp hmine
    have hoverlaps : Overlaps (seedWith (shortId 1 2) [3, 4]) (seedWith (shortId 1 2) [4, 6]) :=
      Or.inl (by decide)
    refine ⟨by decide, fun _ => ⟨by decide, fun last hlast i hlo hhi => ?_⟩,
      fun h => absurd hoverlaps h⟩
    have hoff : last.offset 4 = 0 := by
      obtain rfl : (⟨1, 4⟩ : MplMsg) = last := Option.some.inj hlast
      rfl
    have hsize : vecSize (seedWith (shortId 1 2) [4, 6]) = 1 := by decide
    rw [hsize] at hlo
    have hhi' : i ≤ last.offset 4 := hhi
    omega

/-- **The order of seeds.** Two nodes have the same messages of the same two seeds, and the node
that has the seeds in another order finds that the other misses one. -/
theorem mpl_seed_order_misread :
    ∃ out, sentBy (nodeOf [seedWith (shortId 1 2) [5], seedWith (shortId 1 3) [7]]) = some out ∧
      ¬ ∃ searchFuel found, icmpIn ⟨true, 10, Nat.le_refl 10⟩ out
          (nodeOf [seedWith (shortId 1 3) [7], seedWith (shortId 1 2) [5]]) searchFuel =
            some (.processed 0 found) ∧
        Detected (seedsOf (nodeOf [seedWith (shortId 1 3) [7], seedWith (shortId 1 2) [5]]) 0)
          (seedsOf (nodeOf [seedWith (shortId 1 2) [5], seedWith (shortId 1 3) [7]]) 0) found := by
  refine ⟨_, rfl, ?_⟩
  rintro ⟨searchFuel, found, hresult, hdetected⟩
  rw [icmpIn_processed (by decide) rfl, Option.map_eq_some_iff] at hresult
  obtain ⟨second, -, hfound⟩ := hresult
  have hr : found.rMissing = true := by
    obtain rfl := (IcmpResult.processed.inj hfound).2
    rfl
  obtain ⟨mine, hmine, m, hm, hlack⟩ := hdetected.rMissing.mp hr
  have hsame : ∀ mine ∈ seedsOf (nodeOf [seedWith (shortId 1 3) [7], seedWith (shortId 1 2) [5]]) 0,
      ∀ m ∈ mine.minSeq,
      ∃ other ∈ seedsOf (nodeOf [seedWith (shortId 1 2) [5], seedWith (shortId 1 3) [7]]) 0,
        other.id = mine.id ∧ m.seq ∈ other.seqs := by
    decide
  obtain ⟨other, hother, hid, hin⟩ := hsame mine hmine m hm
  exact (hlack other hother hid).2 hin

end

end Asap.Mpl
