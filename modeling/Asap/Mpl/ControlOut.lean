import Asap.Mpl.Control
import Mathlib.Data.List.GetD

/-!
# Control messages that are sent

For each seed of a domain, from the last on, a record is written behind the one before: the least
sequence number, the length of the vector with the type of the identifier, the identifier, and a
vector with a bit for each message.

## Main definitions

* `icmpOut` — the message for a domain.
* `RecordsAt` — the records of seeds, one behind the other.
-/

namespace Asap.Mpl

open Lib Ipv6

/-! ## Bit vectors -/

/-- `BIT_VECTOR_SET_BIT` -/
def bitVectorSetBit (vector : List Byte) (b : ℕ) : List Byte :=
  vector.set (b / 8) (vector.getD (b / 8) 0 ||| ((0x80 : Byte) >>> (b % 8)))

/-- A bit of a vector. -/
def vectorBit (vector : List Byte) (i : ℕ) : Bool := (vector.getD (i / 8) 0).getLsbD (7 - i % 8)

theorem bitVectorSetBit_length (vector : List Byte) (b : ℕ) :
    (bitVectorSetBit vector b).length = vector.length := List.length_set

theorem mask_bit (b i : ℕ) :
    ((0x80 : Byte) >>> (b % 8)).getLsbD (7 - i % 8) = decide (i % 8 = b % 8) := by
  have hmask : ∀ b < 8, ∀ i < 8, ((0x80 : Byte) >>> b).getLsbD (7 - i) = decide (i = b) := by
    decide
  exact hmask _ (Nat.mod_lt b (by decide)) _ (Nat.mod_lt i (by decide))

/-- One bit is set, and no other changes. -/
theorem vectorBit_setBit {vector : List Byte} {b : ℕ} (hb : b / 8 < vector.length) (i : ℕ) :
    vectorBit (bitVectorSetBit vector b) i = (decide (i = b) || vectorBit vector i) := by
  rw [vectorBit, bitVectorSetBit, List.getD_eq_getElem?_getD, List.getElem?_set]
  by_cases hbyte : b / 8 = i / 8
  · rw [if_pos hbyte, if_pos hb, Option.getD_some, BitVec.getLsbD_or, mask_bit, vectorBit, hbyte,
      Bool.or_comm]
    congr 1
    exact decide_eq_decide.mpr (by omega)
  · have hne : i ≠ b := fun heq => hbyte (by rw [heq])
    rw [if_neg hbyte, decide_eq_false hne, Bool.false_or, vectorBit, List.getD_eq_getElem?_getD]

section

variable (minSeqno : BitVec 8)

/-- The bits of a seed's messages from one on, and the length of the vector in bits. -/
def populate : List MplMsg → BitVec 8 → List Byte → BitVec 8 × List Byte
  | [], vecLen, vector => (vecLen, vector)
  | msg :: rest, vecLen, vector =>
    let curSeq := minSeqno + vecLen
    let vecLen := if msg.seq = curSeq then vecLen else vecLen + (msg.seq - curSeq)
    populate rest (vecLen + 1) (bitVectorSetBit vector vecLen.toNat)

/-- The cursor comes to the offset of each message. -/
theorem populate_cons (msg : MplMsg) (rest : List MplMsg) (vecLen : BitVec 8)
    (vector : List Byte) :
    populate minSeqno (msg :: rest) vecLen vector =
      populate minSeqno rest (msg.seq - minSeqno + 1)
        (bitVectorSetBit vector (msg.seq - minSeqno).toNat) := by
  have hoffset : (if msg.seq = minSeqno + vecLen then vecLen
      else vecLen + (msg.seq - (minSeqno + vecLen))) = msg.seq - minSeqno := by
    split_ifs with heq
    · rw [heq, BitVec.add_comm, BitVec.add_sub_cancel]
    · bv_omega
  rw [populate, hoffset]

theorem populate_length (msgs : List MplMsg) (vecLen : BitVec 8)
    (vector : List Byte) : (populate minSeqno msgs vecLen vector).2.length = vector.length := by
  induction msgs generalizing vecLen vector with
  | nil => rfl
  | cons msg rest ih => rw [populate_cons, ih, bitVectorSetBit_length]

/-- **The vector** has the bits of the messages, by their offsets. -/
theorem populate_bit (msgs : List MplMsg) (vecLen : BitVec 8)
    {vector : List Byte} (hlen : vector.length = 32) (i : ℕ) :
    vectorBit (populate minSeqno msgs vecLen vector).2 i = true ↔
      (∃ msg ∈ msgs, (msg.seq - minSeqno).toNat = i) ∨ vectorBit vector i = true := by
  induction msgs generalizing vecLen vector with
  | nil => simp [populate]
  | cons msg rest ih =>
    have hoffset := (msg.seq - minSeqno).isLt
    rw [populate_cons, ih _ (by rw [bitVectorSetBit_length, hlen]),
      vectorBit_setBit (by rw [hlen]; omega)]
    simp only [Bool.or_eq_true, decide_eq_true_eq, List.mem_cons, exists_eq_or_imp]
    constructor
    · rintro (hrest | hhere | hbefore)
      · exact Or.inl (Or.inr hrest)
      · exact Or.inl (Or.inl hhere.symm)
      · exact Or.inr hbefore
    · rintro ((hhere | hrest) | hbefore)
      · exact Or.inr (Or.inl hhere.symm)
      · exact Or.inl hrest
      · exact Or.inr (Or.inr hbefore)

theorem populate_vecLen (msgs : List MplMsg) (vecLen : BitVec 8)
    (vector : List Byte) : (populate minSeqno msgs vecLen vector).1 =
      (msgs.getLast?.map fun msg => msg.seq - minSeqno + 1).getD vecLen := by
  induction msgs generalizing vecLen vector with
  | nil => rfl
  | cons msg rest ih =>
    rw [populate_cons, ih, List.getLast?_cons]
    cases rest.getLast? with
    | none => rfl
    | some last => rfl

end

/-- The vector of a seed, and its length in bits. -/
def vectorOut (seed : MplSeed) : BitVec 8 × List Byte :=
  populate seed.minSeqno seed.minSeq 0 (List.replicate 32 0)

/-- The bytes of the vector that are sent. -/
def vecSize (seed : MplSeed) : ℕ := (((vectorOut seed).1.toNat - 1 : ℤ).tdiv 8 + 1).toNat

theorem vectorOut_length (seed : MplSeed) : (vectorOut seed).2.length = 32 :=
  populate_length _ _ _ _

theorem vectorBit_zero (i : ℕ) : vectorBit (List.replicate 32 0) i = false := by
  rw [vectorBit, List.getD_eq_getElem?_getD, List.getElem?_replicate]
  split_ifs
  · exact BitVec.getLsbD_zero
  · exact BitVec.getLsbD_zero

theorem vectorOut_bit (seed : MplSeed) (i : ℕ) : vectorBit (vectorOut seed).2 i = true ↔
    ∃ msg ∈ seed.minSeq, (msg.seq - seed.minSeqno).toNat = i := by
  have hbit := populate_bit seed.minSeqno seed.minSeq 0
    (List.length_replicate (a := (0 : Byte))) i
  rw [vectorBit_zero] at hbit
  rw [vectorOut, hbit]
  exact ⟨fun h => h.resolve_right Bool.false_ne_true, Or.inl⟩

theorem vecSize_eq (seed : MplSeed) :
    vecSize seed = ((vectorOut seed).1.toNat - 1) / 8 + 1 := by
  rw [vecSize]
  cases (vectorOut seed).1.toNat with
  | zero => rfl
  | succ n =>
    rw [Int.natCast_add, Int.natCast_one, Int.add_sub_cancel, Nat.add_sub_cancel]
    rfl

theorem one_le_vecSize (seed : MplSeed) : 1 ≤ vecSize seed := by
  rw [vecSize_eq]
  exact Nat.le_add_left _ _

theorem vecSize_le (seed : MplSeed) : vecSize seed ≤ 32 := by
  have hlen := (vectorOut seed).1.isLt
  rw [vecSize_eq]
  omega

/-- The bit of the last message is in the bytes that are sent, in the last of them. -/
theorem vecSize_last {seed : MplSeed} {last : MplMsg} (hlast : seed.minSeq.getLast? = some last)
    (hoffset : (last.seq - seed.minSeqno).toNat < 255) :
    vecSize seed = (last.seq - seed.minSeqno).toNat / 8 + 1 := by
  have hlen : (vectorOut seed).1 = last.seq - seed.minSeqno + 1 := by
    rw [vectorOut, populate_vecLen, hlast]
    rfl
  rw [vecSize_eq, hlen]
  bv_omega

/-! ## Records -/

section

variable (cfg : MplConfig) (srcipaddr : UipIpaddr)

/-- `seed_id_host_to_net` -/
def seedIdHostToNet (s : ℕ) (id : SeedId) : List Byte :=
  match s with
  | 0 | 3 => (List.finRange 16).map fun i => id (15 - i)
  | 1 => [id 1, id 0]
  | 2 => [id 7, id 6, id 5, id 4, id 3, id 2, id 1, id 0]
  | _ => []

/-- The type of the identifier in the record of a seed: it is left out where it is the source
address. -/
def recordType (seed : MplSeed) : ℕ :=
  match seed.s with
  | 0 => if (List.finRange 16).map seed.id = srcipaddr.1 then 0 else 3
  | 1 => 1
  | 2 => 2
  | 3 => 3
  | _ => 0

/-- The bytes of the identifier in the record of a seed. -/
def recordIdOut (seed : MplSeed) : List Byte :=
  if recordType srcipaddr seed = 0 then [] else seedIdHostToNet seed.s seed.id

/-- The member `bm_len_S`. -/
def bmLenS (seed : MplSeed) : Byte :=
  BitVec.ofNat 8 (recordType srcipaddr seed) ||| (BitVec.ofNat 8 (vecSize seed) <<< 2)

/-- Bytes are written at a place. -/
def writeBytes (mem : ℕ → Byte) (pos : ℕ) (bytes : List Byte) : ℕ → Byte := fun i =>
  if pos ≤ i ∧ i < pos + bytes.length then bytes.getD (i - pos) 0 else mem i

/-- The length of the record of a seed. -/
def recordLen (seed : MplSeed) : ℕ := seedInfoSize cfg (recordType srcipaddr seed) + vecSize seed

/-- The record of a seed. -/
def putRecord (seed : MplSeed) (mem : ℕ → Byte) (pos : ℕ) : ℕ → Byte :=
  let s := recordType srcipaddr seed
  let mem := writeBytes mem pos [seed.minSeqno, bmLenS srcipaddr seed]
  let mem := writeBytes mem (pos + (seedInfoSize cfg s - seedIdLen s)) (recordIdOut srcipaddr seed)
  writeBytes mem (pos + seedInfoSize cfg s) ((vectorOut seed).2.take (vecSize seed))

/-- The records of seeds, and where they end. -/
def putRecords : List MplSeed → (ℕ → Byte) → ℕ → (ℕ → Byte) × ℕ
  | [], mem, pos => (mem, pos)
  | seed :: seeds, mem, pos =>
    putRecords seeds (putRecord cfg srcipaddr seed mem pos) (pos + recordLen cfg srcipaddr seed)

end

/-! ## The message -/

/-- `uip_ds6_get_global` and `uip_ds6_select_src`. -/
structure SourceAddrs where
  global : Option UipIpaddr
  selectSrc : UipIpaddr → UipIpaddr

/-- The source address: the last one that is set for a seed. -/
def sourceOf (addrs : SourceAddrs) (ctrlAddr : UipIpaddr) (seeds : List MplSeed) :
    Option UipIpaddr :=
  match seeds, addrs.global with
  | [], _ => some (addrs.selectSrc ctrlAddr)
  | _ :: _, some addr => some addr
  | _ :: _, none =>
    if (addrs.selectSrc ctrlAddr).1 = List.replicate 16 0 then none
    else some (addrs.selectSrc ctrlAddr)

/-- `icmp_out`, over what has been in the buffer. -/
def icmpOut (cfg : MplConfig) (addrs : SourceAddrs) (st : MplNode) (domain : ℕ) (dom : MplDomain)
    (buf : ℕ → Byte) : Option ControlMsg :=
  match sourceOf addrs dom.ctrlAddr (seedsOf st domain) with
  | none => none
  | some srcipaddr =>
    let records := putRecords cfg srcipaddr (seedsOf st domain) buf 0
    some
      { srcipaddr := srcipaddr
        destipaddr := dom.ctrlAddr
        ttl := 0xFF
        type := 159
        icode := 0
        payload := records.1
        len := records.2 }

/-! ## What has been written -/

section

variable {cfg : MplConfig} {srcipaddr : UipIpaddr} {mem mem' : ℕ → Byte} {seed : MplSeed}
  {seeds : List MplSeed} {pos stop i : ℕ}

/-- The record of a seed is at a place of the memory. -/
structure RecordAt (cfg : MplConfig) (srcipaddr : UipIpaddr) (mem : ℕ → Byte) (seed : MplSeed)
    (pos : ℕ) : Prop where
  minSeqno : mem pos = seed.minSeqno
  head : mem (pos + 1) = bmLenS srcipaddr seed
  id : ∀ i < seedIdLen (recordType srcipaddr seed),
    mem (pos + (seedInfoSize cfg (recordType srcipaddr seed) -
      seedIdLen (recordType srcipaddr seed)) + i) = (recordIdOut srcipaddr seed).getD i 0
  vector : ∀ i < vecSize seed,
    mem (pos + seedInfoSize cfg (recordType srcipaddr seed) + i) = (vectorOut seed).2.getD i 0

/-- The records of seeds are one behind the other, up to an end. -/
def RecordsAt (cfg : MplConfig) (srcipaddr : UipIpaddr) (mem : ℕ → Byte) (stop : ℕ) :
    List MplSeed → ℕ → Prop
  | [], pos => pos = stop
  | seed :: seeds, pos => RecordAt cfg srcipaddr mem seed pos ∧
      RecordsAt cfg srcipaddr mem stop seeds (pos + recordLen cfg srcipaddr seed)

theorem seedIdLen_add_two_le (cfg : MplConfig) (s : ℕ) :
    seedIdLen s + 2 ≤ seedInfoSize cfg s := by
  have hten := cfg.ten_le
  rw [seedIdLen.eq_def, seedInfoSize.eq_def]
  split <;> omega

theorem recordType_lt (srcipaddr : UipIpaddr) (seed : MplSeed) :
    recordType srcipaddr seed < 4 := by
  rw [recordType]
  split
  · split_ifs <;> decide
  all_goals decide

theorem recordIdOut_length (srcipaddr : UipIpaddr) (seed : MplSeed) :
    (recordIdOut srcipaddr seed).length = seedIdLen (recordType srcipaddr seed) := by
  rw [recordIdOut]
  split_ifs with hzero
  · rw [hzero]
    rfl
  · rw [recordType] at hzero ⊢
    split at hzero
    · rename_i hs
      rw [if_neg fun heq => hzero (if_pos heq), hs]
      simp [seedIdHostToNet, seedIdLen]
    · rename_i hs
      rw [hs]
      rfl
    · rename_i hs
      rw [hs]
      simp [seedIdHostToNet, seedIdLen]
    · rename_i hs
      rw [hs]
      simp [seedIdHostToNet, seedIdLen]
    · exact absurd rfl hzero

theorem writeBytes_of_lt {bytes : List Byte} (h : i < pos) : writeBytes mem pos bytes i = mem i :=
  if_neg fun hin => Nat.not_le_of_lt h hin.1

theorem writeBytes_add {bytes : List Byte} (h : i < bytes.length) :
    writeBytes mem pos bytes (pos + i) = bytes.getD i 0 := by
  rw [writeBytes, if_pos ⟨Nat.le_add_right _ _, Nat.add_lt_add_left h _⟩, Nat.add_sub_cancel_left]

/-- What lies before a record stays. -/
theorem putRecord_of_lt (h : i < pos) : putRecord cfg srcipaddr seed mem pos i = mem i := by
  rw [putRecord, writeBytes_of_lt (by omega), writeBytes_of_lt (by omega), writeBytes_of_lt h]

theorem putRecord_at : RecordAt cfg srcipaddr (putRecord cfg srcipaddr seed mem pos) seed pos := by
  have hsize := seedIdLen_add_two_le cfg (recordType srcipaddr seed)
  have hid := recordIdOut_length srcipaddr seed
  have hvector : ((vectorOut seed).2.take (vecSize seed)).length = vecSize seed := by
    rw [List.length_take, vectorOut_length, Nat.min_eq_left (vecSize_le seed)]
  refine ⟨?_, ?_, fun i hi => ?_, fun i hi => ?_⟩
  · rw [putRecord, writeBytes_of_lt (by omega), writeBytes_of_lt (by omega)]
    exact writeBytes_add (i := 0) (Nat.succ_pos 1)
  · rw [putRecord, writeBytes_of_lt (by omega), writeBytes_of_lt (by omega)]
    exact writeBytes_add (i := 1) (Nat.lt_succ_self 1)
  · rw [putRecord, writeBytes_of_lt (by omega)]
    exact writeBytes_add (by rw [hid]; exact hi)
  · rw [putRecord, writeBytes_add (by rw [hvector]; exact hi), List.getD_eq_getElem?_getD,
      List.getElem?_take, if_pos hi, List.getD_eq_getElem?_getD]

theorem RecordAt.congr (h : RecordAt cfg srcipaddr mem seed pos)
    (hsame : ∀ i, pos ≤ i → i < pos + recordLen cfg srcipaddr seed → mem' i = mem i) :
    RecordAt cfg srcipaddr mem' seed pos := by
  have hsize := seedIdLen_add_two_le cfg (recordType srcipaddr seed)
  have hvector := one_le_vecSize seed
  rw [recordLen] at hsame
  refine ⟨?_, ?_, fun i hi => ?_, fun i hi => ?_⟩
  · rw [hsame pos (Nat.le_refl _) (by omega), h.minSeqno]
  · rw [hsame _ (by omega) (by omega), h.head]
  · rw [hsame _ (by omega) (by omega), h.id i hi]
  · rw [hsame _ (by omega) (by omega), h.vector i hi]

theorem two_lt_recordLen (cfg : MplConfig) (srcipaddr : UipIpaddr) (seed : MplSeed) :
    2 < recordLen cfg srcipaddr seed := by
  have hsize := seedIdLen_add_two_le cfg (recordType srcipaddr seed)
  have hvector := one_le_vecSize seed
  rw [recordLen]
  omega

theorem RecordsAt.le_stop (h : RecordsAt cfg srcipaddr mem stop seeds pos) : pos ≤ stop := by
  induction seeds generalizing pos with
  | nil => exact Nat.le_of_eq h
  | cons seed seeds ih => exact Nat.le_trans (Nat.le_add_right _ _) (ih h.2)

theorem RecordsAt.congr (h : RecordsAt cfg srcipaddr mem stop seeds pos)
    (hsame : ∀ i, pos ≤ i → i < stop → mem' i = mem i) :
    RecordsAt cfg srcipaddr mem' stop seeds pos := by
  induction seeds generalizing pos with
  | nil => exact h
  | cons seed seeds ih =>
    refine ⟨h.1.congr fun i hle hlt => hsame i hle (Nat.lt_of_lt_of_le hlt h.2.le_stop), ?_⟩
    exact ih h.2 fun i hle hlt => hsame i (by omega) hlt

theorem putRecords_of_lt (h : i < pos) :
    (putRecords cfg srcipaddr seeds mem pos).1 i = mem i := by
  induction seeds generalizing mem pos with
  | nil => rfl
  | cons seed seeds ih => rw [putRecords, ih (by omega), putRecord_of_lt h]

/-- **The records** are in the message, one behind the other. -/
theorem putRecords_at : RecordsAt cfg srcipaddr (putRecords cfg srcipaddr seeds mem pos).1
    (putRecords cfg srcipaddr seeds mem pos).2 seeds pos := by
  induction seeds generalizing mem pos with
  | nil => rfl
  | cons seed seeds ih =>
    rw [putRecords]
    refine ⟨putRecord_at.congr fun i _ hlt => putRecords_of_lt hlt, ih⟩

theorem RecordsAt.length_le (h : RecordsAt cfg srcipaddr mem stop seeds pos) :
    pos + seeds.length ≤ stop := by
  induction seeds generalizing pos with
  | nil => exact Nat.le_of_eq h
  | cons seed seeds ih =>
    have hrest := ih h.2
    have hlen := two_lt_recordLen cfg srcipaddr seed
    rw [List.length_cons]
    omega

end

end Asap.Mpl
