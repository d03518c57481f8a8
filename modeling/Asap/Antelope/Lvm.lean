import Asap.Lib.Buffer
import Mathlib.Data.BitVec
import Mathlib.Logic.Function.Basic

/-!
# The logic engine

The condition of a query is compiled to code in prefix notation and executed for each tuple. A node
of the code is a word that says what it is, and an operator or an operand; a new operator is put in
front of code that has been emitted already by moving that code up. The engine reads nodes without
looking for the end of the code.

## Main definitions

* `LvmInstance` — the code, and the variables.
* `lvmJumpToOperand`, `lvmShiftForOperator`, `lvmSetEnd`, `lvmSetOp`, `lvmSetOperand` — code is
  emitted.
* `evalExpr`, `evalLogic`, `lvmExecute` — the code is executed.
* `lvmDerive` — ranges of variables are derived from it.
-/

namespace Asap.Antelope

open Lib

/-- `long` -/
abbrev Long := BitVec 32

/-- The name of an attribute. -/
abbrev Name := List Byte

/-! ## Words and nodes -/

/-- A word of four bytes, low byte first. -/
def le32 (w : BitVec 32) : List Byte :=
  [w.setWidth 8, (w >>> 8).setWidth 8, (w >>> 16).setWidth 8, (w >>> 24).setWidth 8]

/-- The word at an offset. -/
def read32 (mem : ℕ → Byte) (pos : ℕ) : BitVec 32 :=
  (mem (pos + 3) ++ mem (pos + 2) ++ mem (pos + 1) ++ mem pos : BitVec (8 + 8 + 8 + 8))

/-- `LVM_ARITH_OP` -/
def lvmArithOp : BitVec 32 := 0x10

/-- `LVM_OPERAND` -/
def lvmOperand : BitVec 32 := 0x20

/-- `LVM_CMP_OP` -/
def lvmCmpOp : BitVec 32 := 0x40

/-- The arithmetic operators. -/
inductive ArithOp
  | add | sub | mul | div
deriving DecidableEq, Repr

/-- `operator_t` of an arithmetic operator -/
def ArithOp.word : ArithOp → BitVec 32
  | .add => 0x11
  | .sub => 0x12
  | .mul => 0x13
  | .div => 0x14

/-- The relations and the connectives. -/
inductive RelOp
  | eq | neq | ge | geq | le | leq | and | or
deriving DecidableEq, Repr

/-- `operator_t` of a relation or a connective -/
def RelOp.word : RelOp → BitVec 32
  | .eq => 0x41
  | .neq => 0x42
  | .ge => 0x43
  | .geq => 0x44
  | .le => 0x45
  | .leq => 0x46
  | .and => 0x81
  | .or => 0x82

/-- `LVM_NOT` -/
def lvmNot : BitVec 32 := 0x83

/-- `operand_t`: a variable or a number. -/
inductive Operand
  | lvmVariable (id : Byte)
  | lvmLong (l : Long)
deriving DecidableEq, Repr

/-- The bytes of an operand: its type and its value. -/
def Operand.bytes : Operand → List Byte
  | .lvmVariable id => le32 0 ++ [id, 0, 0, 0]
  | .lvmLong l => le32 2 ++ le32 l

/-! ## The instance -/

/-- `DB_VM_BYTECODE_SIZE` -/
def dbVmBytecodeSize : ℕ := 256

/-- `LVM_MAX_VARIABLE_ID` -/
def lvmMaxVariableId : ℕ := 4

/-- `LVM_MAX_NAME_LENGTH` -/
def lvmMaxNameLength : ℕ := 12

/-- `lvm_instance_t`, with the names of `variables`, and how far the code was written. -/
structure LvmInstance where
  code : ℕ → Byte
  codeEnd : ℕ
  error : Bool
  names : List Name
  written : ℕ

namespace LvmInstance

variable (p : LvmInstance)

/-- `lvm_reset` -/
def lvmReset : LvmInstance where
  code := fun _ => 0
  codeEnd := 0
  error := false
  names := []
  written := 0

/-- `sizeof(operator_t) + sizeof(node_type_t)` -/
def opSize : ℕ := 8

/-- `lvm_jump_to_operand`: the end that it had. -/
def lvmJumpToOperand : ℕ × LvmInstance :=
  if p.codeEnd + opSize ≥ dbVmBytecodeSize then (p.codeEnd, { p with error := true })
  else (p.codeEnd, { p with codeEnd := p.codeEnd + opSize })

/-- `lvm_shift_for_operator`: the end that the code has then. -/
def lvmShiftForOperator (pos : ℕ) : ℕ × LvmInstance :=
  if p.codeEnd + opSize > dbVmBytecodeSize ∨ pos ≥ p.codeEnd then (0, { p with error := true })
  else
    (p.codeEnd + opSize,
      { p with
        code := store p.code (pos + opSize) (bytesAt p.code pos (p.codeEnd - pos))
        codeEnd := pos
        written := max p.written (p.codeEnd + opSize) })

/-- `lvm_set_end`: the end that it had. -/
def lvmSetEnd (pos : ℕ) : ℕ × LvmInstance :=
  if pos ≥ dbVmBytecodeSize then (p.codeEnd, { p with error := true })
  else (p.codeEnd, { p with codeEnd := pos })

/-- Bytes are appended, if there is room. -/
def emit (bytes : List Byte) : Option LvmInstance :=
  if p.codeEnd + bytes.length ≥ dbVmBytecodeSize then none
  else
    some { p with
      code := store p.code p.codeEnd bytes
      codeEnd := p.codeEnd + bytes.length
      written := max p.written (p.codeEnd + bytes.length) }

/-- `lvm_set_type`, and what follows it: whether it succeeds. What is there of it stays, if there is
no room for the rest. -/
def setNode (type : BitVec 32) (payload : List Byte) : Bool × LvmInstance :=
  match p.emit (le32 type) with
  | none => (false, p)
  | some p =>
    match p.emit payload with
    | none => (false, p)
    | some p => (true, p)

/-- `lvm_set_op` -/
def lvmSetOp (op : ArithOp) : Bool × LvmInstance := p.setNode lvmArithOp (le32 op.word)

/-- `lvm_set_relation` -/
def lvmSetRelation (op : RelOp) : Bool × LvmInstance := p.setNode lvmCmpOp (le32 op.word)

/-- `lvm_set_operand` -/
def lvmSetOperand (o : Operand) : Bool × LvmInstance := p.setNode lvmOperand o.bytes

/-- `lvm_set_long` -/
def lvmSetLong (l : Long) : Bool × LvmInstance := p.lvmSetOperand (.lvmLong l)

/-- `lookup`: the variable of a name, or the first one without a name. -/
def lookup (name : Name) : ℕ := min (p.names.findIdx (· = name)) lvmMaxVariableId

/-- `lvm_register_variable` -/
def lvmRegisterVariable (name : Name) : Bool × LvmInstance :=
  if p.lookup name = lvmMaxVariableId then (false, p)
  else if p.lookup name < p.names.length then (true, p)
  else (true, { p with names := p.names ++ [name.take lvmMaxNameLength] })

/-- `lvm_set_variable` -/
def lvmSetVariable (name : Name) : Bool × LvmInstance :=
  if p.lookup name = lvmMaxVariableId then (false, p)
  else p.lvmSetOperand (.lvmVariable (BitVec.ofNat 8 (p.lookup name)))

end LvmInstance

/-! ## Execution -/

/-- `lvm_status_t` -/
inductive LvmStatus
  | false | true | semanticError | mathError | executionError | derivationError
deriving DecidableEq, Repr

/-- The code is read: the next byte, and the variables that were looked at. -/
structure Reader where
  ip : ℕ
  ids : List ℕ

/-- What a part of an execution gives: a value or an error, and how far the code was read. -/
abbrev Run (α : Type) := Except LvmStatus α × Reader

section Eval

variable (code : ℕ → Byte) (values : ℕ → Long)

/-- `get_type` and `get_operator`: a word is read. -/
def getWord (r : Reader) : BitVec 32 × Reader :=
  (read32 code r.ip, { r with ip := r.ip + 4 })

/-- `get_operand` and `operand_to_long` -/
def getOperand (r : Reader) : Long × Reader :=
  let type := read32 code r.ip
  let value := read32 code (r.ip + 4)
  let id := (code (r.ip + 4)).toNat
  let r := { r with ip := r.ip + 8 }
  if type = 2 then (value, r)
  else if type = 0 then (values id, { r with ids := r.ids ++ [id] })
  else (0, r)

/-- The value of an operator for two values. -/
def arith (op : BitVec 32) (a b : Long) : Except LvmStatus Long :=
  if op = ArithOp.add.word then .ok (a + b)
  else if op = ArithOp.sub.word then .ok (a - b)
  else if op = ArithOp.mul.word then .ok (a * b)
  else if op = ArithOp.div.word then if b = 0 then .error .mathError else .ok (a.sdiv b)
  else .error .executionError

/-- An argument of an operator or a relation: an expression or an operand. -/
def evalArg (evalExpr : BitVec 32 → Reader → Option (Run Long)) (r : Reader) :
    Option (Run Long) :=
  let t := getWord code r
  if t.1 = lvmArithOp then
    let op := getWord code t.2
    evalExpr op.1 op.2
  else if t.1 = lvmOperand then
    let o := getOperand code values t.2
    some (.ok o.1, o.2)
  else some (.error .semanticError, t.2)

/-- Two parts of an execution, of which the first that fails is the last. -/
def bindRun {α β : Type} (m : Option (Run α)) (k : α → Reader → Option (Run β)) :
    Option (Run β) :=
  m.bind fun run =>
    match run.1 with
    | .error e => some (.error e, run.2)
    | .ok a => k a run.2

/-- `eval_expr` -/
def evalExpr : ℕ → BitVec 32 → Reader → Option (Run Long)
  | 0, _, _ => none
  | fuel + 1, op, r =>
    bindRun (evalArg code values (evalExpr fuel) r) fun a r =>
      bindRun (evalArg code values (evalExpr fuel) r) fun b r => some (arith op a b, r)

/-- A relation of two values. -/
def relation (op : BitVec 32) (a b : Long) : Except LvmStatus Bool :=
  if op = RelOp.eq.word then .ok (a = b)
  else if op = RelOp.neq.word then .ok (a ≠ b)
  else if op = RelOp.ge.word then .ok (b.slt a)
  else if op = RelOp.geq.word then .ok (b.sle a)
  else if op = RelOp.le.word then .ok (a.slt b)
  else if op = RelOp.leq.word then .ok (a.sle b)
  else .error .executionError

/-- An argument of a connective. -/
def evalCondition (evalLogic : BitVec 32 → Reader → Option (Run Bool)) (r : Reader) :
    Option (Run Bool) :=
  let t := getWord code r
  if t.1 ≠ lvmCmpOp then some (.error .semanticError, t.2)
  else
    let op := getWord code t.2
    evalLogic op.1 op.2

/-- `IS_CONNECTIVE` -/
def isConnective (op : BitVec 32) : Bool := op &&& 0x80 ≠ 0

/-- `eval_logic` -/
def evalLogic : ℕ → BitVec 32 → Reader → Option (Run Bool)
  | 0, _, _ => none
  | fuel + 1, op, r =>
    if isConnective op then
      bindRun (evalCondition code (evalLogic fuel) r) fun a r =>
        if op = lvmNot then some (.ok !a, r)
        else
          bindRun (evalCondition code (evalLogic fuel) r) fun b r =>
            some (.ok (if op = RelOp.and.word then a && b else a || b), r)
    else
      bindRun (evalArg code values (evalExpr code values fuel) r) fun a r =>
        bindRun (evalArg code values (evalExpr code values fuel) r) fun b r =>
          some (relation op a b, r)

/-- `lvm_execute` -/
def lvmExecute (fuel : ℕ) : Option (Run Bool) :=
  let t := getWord code ⟨0, []⟩
  if t.1 ≠ lvmCmpOp then some (.error .executionError, t.2)
  else
    let op := getWord code t.2
    evalLogic code values fuel op.1 op.2

end Eval

/-! ## Derivation -/

/-- `derivation_t` of each variable: the least and the greatest value, if they were derived. -/
abbrev Derivations := ℕ → Option (Long × Long)

/-- `create_intersection` -/
def createIntersection (d₁ d₂ : Derivations) : Derivations := fun i =>
  match d₁ i, d₂ i with
  | none, d => d
  | some d, none => some d
  | some a, some b =>
    some (if b.1.slt a.1 then a.1 else b.1, if a.2.slt b.2 then a.2 else b.2)

/-- `create_union` -/
def createUnion (d₁ d₂ : Derivations) : Derivations := fun i =>
  match d₁ i, d₂ i with
  | none, d => d
  | some d, none => some d
  | some a, some b =>
    some (if b.1.slt a.1 then b.1 else a.1, if a.2.slt b.2 then b.2 else a.2)

/-- The range of a variable in relation to a value. -/
def derivedRange (op : BitVec 32) (value : Long) : Option (Long × Long) :=
  let longMin := BitVec.intMin 32
  let longMax := BitVec.intMax 32
  if op = RelOp.eq.word then some (value, value)
  else if op = RelOp.ge.word then some (value + 1, longMax)
  else if op = RelOp.geq.word then some (value, longMax)
  else if op = RelOp.le.word then some (longMin, value - 1)
  else if op = RelOp.leq.word then some (longMin, value)
  else none

/-- `operand_t` as it is read: its type, its value and its identifier. -/
structure RawOperand where
  type : BitVec 32
  value : Long
  id : ℕ

section Derive

variable (code : ℕ → Byte)

/-- An operand of a relation, which must not be an expression. -/
def deriveOperand (r : Reader) : Run RawOperand :=
  let t := getWord code r
  if t.1 ≠ lvmOperand then (.error .derivationError, t.2)
  else
    (.ok ⟨read32 code t.2.ip, read32 code (t.2.ip + 4), (code (t.2.ip + 4)).toNat⟩,
      { t.2 with ip := t.2.ip + 8 })

/-- What is derived from a relation of two operands. -/
def deriveOperands (op : BitVec 32) (a b : RawOperand) (r : Reader) : Run Derivations :=
  if a.type = 0 ∧ b.type = 0 then (.error .derivationError, r)
  else
    let id := if a.type = 0 then a.id else b.id
    let value := if a.type = 0 then b.value else a.value
    if id ≥ lvmMaxVariableId then (.error .derivationError, r)
    else
      let r := { r with ids := r.ids ++ [id] }
      match derivedRange op value with
      | none => (.error .derivationError, r)
      | some range => (.ok fun i => if i = id then some range else none, r)

/-- `derive_relation` -/
def deriveRelation : ℕ → Reader → Option (Run Derivations)
  | 0, _ => none
  | fuel + 1, r =>
    let t := getWord code r
    let op := getWord code t.2
    if isConnective op.1 then
      if op.1 ≠ RelOp.and.word ∧ op.1 ≠ RelOp.or.word then
        some (.error .derivationError, op.2)
      else
        bindRun (deriveRelation fuel op.2) fun d₁ r =>
          bindRun (deriveRelation fuel r) fun d₂ r =>
            some (.ok (if op.1 = RelOp.and.word then createIntersection d₁ d₂
              else createUnion d₁ d₂), r)
    else
      bindRun (some (deriveOperand code op.2)) fun a r =>
        bindRun (some (deriveOperand code r)) fun b r => some (deriveOperands op.1 a b r)

/-- `lvm_derive` -/
def lvmDerive (fuel : ℕ) : Option (Run Derivations) := deriveRelation code fuel ⟨0, []⟩

end Derive

end Asap.Antelope
