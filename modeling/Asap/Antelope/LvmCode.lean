import Asap.Antelope.Lvm

/-!
# Nodes of the code

What has been emitted is a list of nodes. A node is set at the end of the code, over room that was
left for it, or in front of code that is moved up.

## Main definitions

* `Node`, `encode` — the nodes and their bytes.
* `Emitted` — the bytes that an instance holds.
-/

namespace Asap.Antelope

open Lib List

/-! ## Words -/

/-- Two writes one behind the other are one. -/
theorem store_behind (mem : ℕ → Byte) (pos : ℕ) (as bs : List Byte) :
    store (store mem pos as) (pos + as.length) bs = store mem pos (as ++ bs) := by
  rw [← store_append]
  funext i
  by_cases h : i < pos + as.length
  · rw [store_of_lt h]
    by_cases hlow : i < pos
    · rw [store_of_lt hlow, store_of_lt hlow, store_of_lt h]
    · have hlt : i - pos < as.length := by omega
      simp [store, Nat.not_lt.mp hlow, hlt]
  · have hge : pos + as.length ≤ i := Nat.not_lt.mp h
    rw [store_of_le hge, store, if_pos hge, store_of_le hge, store, if_pos hge]

@[simp] theorem length_le32 (w : BitVec 32) : (le32 w).length = 4 := rfl

theorem append_bytes (w : BitVec 32) :
    ((w >>> 24).setWidth 8 ++ (w >>> 16).setWidth 8 ++ (w >>> 8).setWidth 8 ++ w.setWidth 8 :
      BitVec (8 + 8 + 8 + 8)) = w := by
  apply BitVec.eq_of_getLsbD_eq
  intro i hi
  rw [BitVec.getLsbD_append, BitVec.getLsbD_append, BitVec.getLsbD_append]
  simp only [BitVec.getLsbD_setWidth, BitVec.getLsbD_ushiftRight]
  by_cases h0 : i < 8
  · simp [h0]
  · by_cases h1 : i < 16
    · have hlt : i - 8 < 8 := by omega
      have hrest : 8 + (i - 8) = i := by omega
      simp [h0, hlt, hrest]
    · by_cases h2 : i < 24
      · have hge : ¬ i - 8 < 8 := by omega
        have hlt : i - 8 - 8 < 8 := by omega
        have hrest : 16 + (i - 8 - 8) = i := by omega
        simp [h0, hge, hlt, hrest]
      · have hge : ¬ i - 8 < 8 := by omega
        have hge' : ¬ i - 8 - 8 < 8 := by omega
        have hlt : i - 8 - 8 - 8 < 8 := by omega
        have hrest : 24 + (i - 8 - 8 - 8) = i := by omega
        simp [h0, hge, hge', hlt, hrest]

/-- A word is read as it was written. -/
theorem read32_of_holds {mem : ℕ → Byte} {pos : ℕ} {w : BitVec 32} (h : Holds mem pos (le32 w)) :
    read32 mem pos = w := by
  have h0 : mem pos = w.setWidth 8 := h 0 (by rw [length_le32]; decide)
  have h1 : mem (pos + 1) = (w >>> 8).setWidth 8 := h 1 (by rw [length_le32]; decide)
  have h2 : mem (pos + 2) = (w >>> 16).setWidth 8 := h 2 (by rw [length_le32]; decide)
  have h3 : mem (pos + 3) = (w >>> 24).setWidth 8 := h 3 (by rw [length_le32]; decide)
  rw [read32, h0, h1, h2, h3]
  exact append_bytes w

/-! ## Nodes -/

/-- A node of the code. -/
inductive Node
  | arith (op : ArithOp)
  | rel (op : RelOp)
  | operand (o : Operand)
deriving DecidableEq

/-- The bytes of a node. -/
def Node.bytes : Node → List Byte
  | .arith op => le32 lvmArithOp ++ le32 op.word
  | .rel op => le32 lvmCmpOp ++ le32 op.word
  | .operand o => le32 lvmOperand ++ o.bytes

/-- The bytes of nodes. -/
def encode (ns : List Node) : List Byte := ns.flatMap Node.bytes

@[simp] theorem encode_nil : encode [] = [] := rfl

@[simp] theorem encode_cons (n : Node) (ns : List Node) :
    encode (n :: ns) = n.bytes ++ encode ns := rfl

@[simp] theorem encode_append (ms ns : List Node) : encode (ms ++ ns) = encode ms ++ encode ns :=
  flatMap_append

@[simp] theorem length_operand (o : Operand) : o.bytes.length = 8 := by
  cases o <;> rfl

@[simp] theorem length_arith (op : ArithOp) : (Node.arith op).bytes.length = 8 := rfl

@[simp] theorem length_rel (op : RelOp) : (Node.rel op).bytes.length = 8 := rfl

@[simp] theorem length_node (o : Operand) : (Node.operand o).bytes.length = 12 := by
  rw [Node.bytes, length_append, length_operand, length_le32]

theorem length_pos (n : Node) : 0 < n.bytes.length := by
  cases n with
  | arith op => exact Nat.lt_of_lt_of_eq (by decide) (length_arith op).symm
  | rel op => exact Nat.lt_of_lt_of_eq (by decide) (length_rel op).symm
  | operand o => exact Nat.lt_of_lt_of_eq (by decide) (length_node o).symm

/-! ## Code that is emitted -/

/-- The bytes up to the end of the code. -/
structure Emitted (p : LvmInstance) (bs : List Byte) : Prop where
  code : Holds p.code 0 bs
  codeEnd : p.codeEnd = bs.length

/-- The instance once bytes were written at the end of its code. -/
def LvmInstance.append (p : LvmInstance) (bs : List Byte) : LvmInstance :=
  { p with
    code := store p.code p.codeEnd bs
    codeEnd := p.codeEnd + bs.length
    written := max p.written (p.codeEnd + bs.length) }

namespace LvmInstance

variable {p : LvmInstance} {bs : List Byte} {type : BitVec 32} {payload : List Byte}

@[simp] theorem append_codeEnd (p : LvmInstance) (bs : List Byte) :
    (p.append bs).codeEnd = p.codeEnd + bs.length := rfl

theorem emit_of_lt (hroom : p.codeEnd + bs.length < dbVmBytecodeSize) :
    p.emit bs = some (p.append bs) := if_neg (Nat.not_le.mpr hroom)

theorem append_append (p : LvmInstance) (as bs : List Byte) :
    (p.append as).append bs = p.append (as ++ bs) := by
  rw [append, append, append, store_behind, length_append]
  simp only [Nat.add_assoc, LvmInstance.mk.injEq, true_and]
  omega

/-- **A node is set** at the end, if there is room for it. -/
theorem setNode_of_lt (hroom : p.codeEnd + (4 + payload.length) < dbVmBytecodeSize) :
    p.setNode type payload = (true, p.append (le32 type ++ payload)) := by
  have htype : p.codeEnd + (le32 type).length < dbVmBytecodeSize := by
    rw [length_le32]
    omega
  have hpayload : (p.append (le32 type)).codeEnd + payload.length < dbVmBytecodeSize := by
    rw [append_codeEnd, length_le32]
    omega
  rw [setNode, emit_of_lt htype]
  simp only [emit_of_lt hpayload, append_append]

end LvmInstance

namespace Emitted

variable {p : LvmInstance} {bs as : List Byte} {type : BitVec 32} {payload : List Byte}

theorem append (h : Emitted p bs) (as : List Byte) : Emitted (p.append as) (bs ++ as) := by
  constructor
  · refine holds_append.mpr ⟨h.code.store (.inl ?_), ?_⟩
    · rw [h.codeEnd, Nat.zero_add]
    · rw [Nat.zero_add, ← h.codeEnd]
      exact holds_store _ _ _
  · rw [length_append, ← h.codeEnd]
    rfl

/-- **The code jumps** over room for an operator. -/
theorem jump (h : Emitted p bs) (hroom : p.codeEnd + LvmInstance.opSize < dbVmBytecodeSize) :
    p.lvmJumpToOperand.1 = bs.length ∧ p.lvmJumpToOperand.2.names = p.names ∧
      ∃ hole : List Byte, hole.length = 8 ∧ Emitted p.lvmJumpToOperand.2 (bs ++ hole) := by
  rw [LvmInstance.lvmJumpToOperand, if_neg (Nat.not_le.mpr hroom)]
  refine ⟨h.codeEnd, rfl, bytesAt p.code bs.length 8, length_bytesAt _ _ _, ?_, ?_⟩
  · refine holds_append.mpr ⟨h.code, ?_⟩
    rw [Nat.zero_add, holds_iff_bytesAt, length_bytesAt]
  · rw [length_append, length_bytesAt, ← h.codeEnd]
    rfl

/-- The code goes on from an end that was saved. -/
theorem setEnd (h : Emitted p (as ++ bs)) (hlt : p.codeEnd < dbVmBytecodeSize) :
    p.lvmSetEnd as.length = (p.codeEnd, { p with codeEnd := as.length }) ∧
      Emitted (p.lvmSetEnd as.length).2 as := by
  have hend := h.codeEnd
  rw [length_append] at hend
  have hset : p.lvmSetEnd as.length = (p.codeEnd, { p with codeEnd := as.length }) :=
    if_neg (by omega)
  exact ⟨hset, by rw [hset]; exact ⟨(holds_append.mp h.code).1, rfl⟩⟩

/-- **Code is written** over room that it has, and the end is set to what it was. -/
theorem fill {hole : List Byte} (h : Emitted p (as ++ (hole ++ bs)))
    (hhole : hole.length = 4 + payload.length) (hlt : p.codeEnd < dbVmBytecodeSize) :
    Emitted (({ p with codeEnd := as.length }.append (le32 type ++ payload)).lvmSetEnd p.codeEnd).2
      (as ++ (le32 type ++ payload ++ bs)) := by
  have hend := h.codeEnd
  rw [length_append, length_append, hhole] at hend
  have hsplit := holds_append.mp h.code
  have hpost := (holds_append.mp hsplit.2).2
  rw [LvmInstance.lvmSetEnd, if_neg (Nat.not_le.mpr hlt)]
  constructor
  · refine holds_append.mpr ⟨hsplit.1.store (.inl ?_), holds_append.mpr ⟨?_, ?_⟩⟩
    · exact Nat.le_of_eq (Nat.zero_add _)
    · rw [Nat.zero_add]
      exact holds_store _ _ _
    · have hlen : (le32 type ++ payload).length = hole.length := by
        rw [length_append, length_le32, hhole]
      rw [hlen]
      refine hpost.store (.inr ?_)
      rw [hlen, Nat.zero_add]
  · simp only [length_append, length_le32]
    omega

/-- **A node is put** in front of code that is moved up. -/
theorem put (type : BitVec 32) (h : Emitted p (as ++ bs)) (hbs : 0 < bs.length)
    (hpayload : payload.length = 4)
    (hroom : p.codeEnd + LvmInstance.opSize < dbVmBytecodeSize) :
    ∃ p', p.lvmShiftForOperator as.length = (p.codeEnd + LvmInstance.opSize, p') ∧
      ∃ p'', p'.setNode type payload = (true, p'') ∧
        Emitted (p''.lvmSetEnd (p.codeEnd + LvmInstance.opSize)).2
          (as ++ (le32 type ++ payload ++ bs)) ∧
        (p''.lvmSetEnd (p.codeEnd + LvmInstance.opSize)).2.names = p.names := by
  have hop : LvmInstance.opSize = 8 := rfl
  have hend := h.codeEnd
  rw [length_append] at hend
  have hsplit := holds_append.mp h.code
  rw [Nat.zero_add] at hsplit
  have hbytes : bytesAt p.code as.length (p.codeEnd - as.length) = bs := by
    rw [hend, Nat.add_sub_cancel_left]
    exact hsplit.2.bytesAt
  -- the room that is made is filled like any other
  have hmoved : Emitted { p with
      code := store p.code (as.length + LvmInstance.opSize) bs
      codeEnd := p.codeEnd + LvmInstance.opSize
      written := max p.written (p.codeEnd + LvmInstance.opSize) }
      (as ++ (bytesAt p.code as.length 8 ++ bs)) := by
    refine ⟨holds_append.mpr ⟨hsplit.1.store (.inl (by omega)), holds_append.mpr ⟨?_, ?_⟩⟩, ?_⟩
    · rw [Nat.zero_add]
      refine Holds.store ?_ (.inl (by rw [length_bytesAt]; omega))
      rw [holds_iff_bytesAt, length_bytesAt]
    · rw [Nat.zero_add, length_bytesAt]
      exact holds_store _ _ _
    · rw [length_append, length_append, length_bytesAt]
      change p.codeEnd + LvmInstance.opSize = _
      omega
  have hset : as.length + (4 + payload.length) < dbVmBytecodeSize := by omega
  refine ⟨_, if_neg (by omega), _, LvmInstance.setNode_of_lt hset, ?_, ?_⟩
  · rw [hbytes]
    exact hmoved.fill (by rw [length_bytesAt, hpayload]) hroom
  · rw [LvmInstance.lvmSetEnd, if_neg (Nat.not_le.mpr hroom)]
    rfl

end Emitted

end Asap.Antelope
