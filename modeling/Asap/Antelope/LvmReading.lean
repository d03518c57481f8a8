import Asap.Antelope.LvmCode

/-!
# Reading code

The nodes of the code are read back one behind the other: a node that stands at the instruction
pointer is taken apart, and the pointer is behind it.

## Main definitions

* `Operand.value` — what an operand stands for.
* `Registered` — a reader that looked at registered variables only.

## Main results

* `getOperand_eq` — an operand is read.
* `evalCondition_rel` — the operator of a condition is read.
-/

namespace Asap.Antelope

open Lib

/-! ## Bytes of nodes -/

section Bytes

variable {code : ℕ → Byte} {ip : ℕ} {ns : List Node}

/-- A word and what is behind it. -/
theorem holds_word {w : BitVec 32} {bs : List Byte} (h : Holds code ip (le32 w ++ bs)) :
    read32 code ip = w ∧ Holds code (ip + 4) bs := by
  have hsplit := holds_append.mp h
  exact ⟨read32_of_holds hsplit.1, hsplit.2⟩

theorem holds_arith {op : ArithOp} (h : Holds code ip (encode (.arith op :: ns))) :
    read32 code ip = lvmArithOp ∧ read32 code (ip + 4) = op.word ∧
      Holds code (ip + 8) (encode ns) := by
  rw [encode_cons, Node.bytes, List.append_assoc] at h
  have htype := holds_word h
  have hop := holds_word htype.2
  exact ⟨htype.1, hop.1, hop.2⟩

theorem holds_rel {op : RelOp} (h : Holds code ip (encode (.rel op :: ns))) :
    read32 code ip = lvmCmpOp ∧ read32 code (ip + 4) = op.word ∧
      Holds code (ip + 8) (encode ns) := by
  rw [encode_cons, Node.bytes, List.append_assoc] at h
  have htype := holds_word h
  have hop := holds_word htype.2
  exact ⟨htype.1, hop.1, hop.2⟩

/-- `operand_type_t` of an operand -/
def Operand.type : Operand → BitVec 32
  | .lvmVariable _ => 0
  | .lvmLong _ => 2

/-- The byte of an operand that is taken for the identifier of a variable. -/
def Operand.id : Operand → Byte
  | .lvmVariable id => id
  | .lvmLong l => l.setWidth 8

/-- What an operand stands for. -/
def Operand.value (values : ℕ → Long) : Operand → Long
  | .lvmVariable id => values id.toNat
  | .lvmLong l => l

theorem holds_operand {o : Operand} (h : Holds code ip (encode (.operand o :: ns))) :
    read32 code ip = lvmOperand ∧ read32 code (ip + 4) = o.type ∧ code (ip + 8) = o.id ∧
      (∀ l, o = .lvmLong l → read32 code (ip + 8) = l) ∧ Holds code (ip + 12) (encode ns) := by
  rw [encode_cons, Node.bytes, List.append_assoc] at h
  have htype := holds_word h
  have hbytes := htype.2
  cases o with
  | lvmVariable id =>
    rw [Operand.bytes, List.append_assoc] at hbytes
    have hoperand := holds_word hbytes
    have hid := holds_append.mp hoperand.2
    refine ⟨htype.1, hoperand.1, hid.1 0 (Nat.zero_lt_succ 3), ?_, hid.2⟩
    intro l hl
    cases hl
  | lvmLong l =>
    rw [Operand.bytes, List.append_assoc] at hbytes
    have hoperand := holds_word hbytes
    have hvalue := holds_word hoperand.2
    have hlow := (holds_append.mp hoperand.2).1 0 (by rw [length_le32]; decide)
    refine ⟨htype.1, hoperand.1, hlow, ?_, hvalue.2⟩
    rintro l' ⟨⟩
    exact hvalue.1

theorem length_le_encode (ns : List Node) : ns.length ≤ (encode ns).length := by
  induction ns with
  | nil => exact Nat.le_refl _
  | cons x ns ih =>
    have hpos := length_pos x
    rw [encode_cons, List.length_append, List.length_cons]
    omega

end Bytes

/-! ## Expressions and conditions -/

/-- A node of an expression, with a variable that is registered. -/
def ExprNode (n : ℕ) : Node → Prop
  | .arith _ => True
  | .operand (.lvmVariable id) => id.toNat < n
  | .operand (.lvmLong _) => True
  | .rel _ => False

section Eval

variable {code : ℕ → Byte} {values : ℕ → Long} {n : ℕ}

@[simp] theorem bindRun_ok {α β : Type} (a : α) (r : Reader) (k : α → Reader → Option (Run β)) :
    bindRun (some (.ok a, r)) k = k a r := rfl

/-- A reader that looked at registered variables only. -/
def Registered (n : ℕ) (r : Reader) : Prop := ∀ i ∈ r.ids, i < n

theorem Registered.look {r : Reader} (h : Registered n r) {i : ℕ} (hi : i < n) :
    Registered n { r with ids := r.ids ++ [i] } := by
  intro j hj
  rcases List.mem_append.mp hj with hold | hnew
  · exact h j hold
  · rw [List.mem_singleton.mp hnew]
    exact hi

/-- An operand is read. -/
theorem getOperand_eq (values : ℕ → Long) {o : Operand} {ns : List Node} {r : Reader}
    (h : Holds code r.ip (encode (.operand o :: ns))) :
    ∃ ids, getOperand code values { r with ip := r.ip + 4 } =
      (o.value values, ⟨r.ip + 12, ids⟩) ∧ (Registered n r → ExprNode n (.operand o) →
        Registered n ⟨r.ip + 12, ids⟩) := by
  have hread := holds_operand h
  cases o with
  | lvmVariable id =>
    have htype : read32 code (r.ip + 4) = 0 := hread.2.1
    have hid : code (r.ip + 8) = id := hread.2.2.1
    refine ⟨r.ids ++ [id.toNat], ?_, fun hreg hlt => hreg.look hlt⟩
    simp only [getOperand, htype, Nat.add_assoc, Nat.reduceAdd, hid]
    rfl
  | lvmLong l =>
    have htype : read32 code (r.ip + 4) = 2 := hread.2.1
    have hvalue : read32 code (r.ip + 8) = l := hread.2.2.2.1 l rfl
    refine ⟨r.ids, ?_, fun hreg _ => hreg⟩
    simp only [getOperand, htype, Nat.add_assoc, Nat.reduceAdd, hvalue]
    rfl

theorem evalCondition_rel {logic : BitVec 32 → Reader → Option (Run Bool)} {op : RelOp}
    {ns : List Node} {r : Reader} (hcode : Holds code r.ip (encode (.rel op :: ns))) :
    evalCondition code logic r = logic op.word { r with ip := r.ip + 8 } := by
  have hread := holds_rel hcode
  rw [evalCondition, getWord, hread.1]
  simp only [ne_eq, not_true, if_false, getWord, hread.2.1]

end Eval

end Asap.Antelope
