import Asap.Antelope.AqlLexer

/-!
# The parser

A query is parsed into a description of it, with the code of its condition. Operators are put in
front of the code of their operands once they are found, at ends of the code that were saved before.

The parser takes note of what it writes, and of the places where it goes on although something has
failed.

## Main definitions

* `AqlAdt` — the description of a query.
* `Aql` — the state of the parser.
* `parseExpr`, `parseComparison`, `parseWhere` — conditions.
* `aqlParse` — a query.
-/

namespace Asap.Antelope

open Lib

/-! ## The description of a query -/

/-- `domain_t` -/
inductive Domain
  | unspecified | int | long | string
deriving DecidableEq, Repr

/-- `aql_aggregator_t` -/
inductive AqlAggregator
  | none | count | sum | min | max | mean | median
deriving DecidableEq, Repr

/-- `optype` -/
inductive AqlType
  | none | select | insert | createAttribute | createIndex | createRelation | removeAttribute
  | removeIndex | removeRelation | removeTuples | join
deriving DecidableEq, Repr

/-- `index_type_t` -/
inductive IndexType
  | inline | maxheap | memhash
deriving DecidableEq, Repr

/-- `aql_attribute_t`, with `ATTRIBUTE_FLAG_NO_STORE`. -/
structure AqlAttribute where
  domain : Domain
  elementSize : BitVec 8
  noStore : Bool
  name : Name

/-- `attribute_value_t`: a number, or where a string is in `char_buf`. -/
inductive AttributeValue
  | long (l : Long)
  | string (offset : Option ℕ)

/-- An attribute that was not used. -/
def unusedAttribute : AqlAttribute := ⟨.unspecified, 0, false, []⟩

/-- `AQL_RELATION_LIMIT` -/
def aqlRelationLimit : ℕ := 3

/-- `AQL_ATTRIBUTE_LIMIT` -/
def aqlAttributeLimit : ℕ := 5

/-- `RELATION_NAME_LENGTH` -/
def relationNameLength : ℕ := 10

/-- `ATTRIBUTE_NAME_LENGTH` -/
def attributeNameLength : ℕ := 12

/-- `DB_MAX_CHAR_SIZE_PER_ROW` -/
def dbMaxCharSizePerRow : ℕ := 64

/-- `aql_adt_t`, with the next free place of `char_buf`. -/
structure AqlAdt where
  optype : AqlType
  relations : List Name
  attributes : ℕ → AqlAttribute
  attributeCount : ℕ
  aggregators : ℕ → AqlAggregator
  values : List AttributeValue
  nextFreeOffset : ℕ
  indexType : Option IndexType
  aggregate : Bool
  assign : Bool
  condition : Bool

/-! ## The state of the parser -/

/-- The arrays that the parser writes: those of the description and of the variables, one of the
names in each, the value of a token, and the name of an attribute that is created. -/
inductive AqlArray
  | relations | relationName | attributes | attributeName | aggregators | values | charBuf
  | variables | variableName | value | nameBuffer
deriving DecidableEq, Repr

/-- The length of an array. -/
def AqlArray.length : AqlArray → ℕ
  | .relations => aqlRelationLimit
  | .relationName => relationNameLength + 1
  | .attributes => aqlAttributeLimit
  | .attributeName => attributeNameLength + 1
  | .aggregators => aqlAttributeLimit
  | .values => aqlAttributeLimit
  | .charBuf => dbMaxCharSizePerRow
  | .variables => lvmMaxVariableId
  | .variableName => lvmMaxNameLength + 1
  | .value => dbMaxElementSize
  | .nameBuffer => attributeNameLength

/-- The elements before `stop` that are written, the last of them at least. -/
structure AqlWrite where
  array : AqlArray
  stop : ℕ

/-- What the parser passes over: an aggregate of more attributes than there can be, a string as an
operand, a name that is too long for a variable, code for which there is no room, a connective that
is put into the code of a condition, a relation of constants of which one could be a variable, and a
condition with an error. -/
inductive AqlSlip
  | aggregate | stringOperand | longName | noRoom | splitCondition | constants | ignoredError
deriving DecidableEq, Repr

/-- The state of the parser. -/
structure Aql where
  lexer : Lexer
  adt : AqlAdt
  lvm : LvmInstance
  writes : List AqlWrite
  slips : List AqlSlip

namespace Aql

variable (q : QueryString) (s : Aql)

/-- The token that was read last. -/
def token : Token := s.lexer.token

/-- How many bytes a token writes to `value`. -/
def valueSize : Token → ℕ
  | .integerValue _ => 4
  | .stringValue value => value.length + 1
  | .identifier name => name.length + 1
  | _ => 0

/-- `NEXT` -/
def next : Aql :=
  { s with
    lexer := (lexerNext q s.lexer).2
    writes := ⟨.value, valueSize (lexerNext q s.lexer).2.token⟩ :: s.writes }

/-- `REWIND` -/
def rewind : Aql := { s with lexer := lexerRewind s.lexer }

/-- An element is written. -/
def write (array : AqlArray) (index : ℕ) : Aql := { s with writes := ⟨array, index + 1⟩ :: s.writes }

/-- Something is passed over, if it happens. -/
def slip (what : AqlSlip) (happens : Bool) : Aql :=
  { s with slips := if happens then what :: s.slips else s.slips }

/-- The description is changed. -/
def setAdt (adt : AqlAdt) : Aql := { s with adt }

/-- The code is changed. -/
def setLvm (lvm : LvmInstance) : Aql := { s with lvm }

/-- `AQL_SET_TYPE` -/
def setType (optype : AqlType) : Aql := s.setAdt { s.adt with optype }

/-- `aql_add_relation` -/
def addRelation (name : Name) : Aql :=
  if s.adt.relations.length ≥ aqlRelationLimit then s
  else
    ((s.setAdt { s.adt with
      relations := s.adt.relations ++ [name.take relationNameLength] }).write .relations
        s.adt.relations.length).write .relationName relationNameLength

/-- `get_attribute`: there is an attribute of this name. -/
def hasAttribute (name : Name) : Bool :=
  (List.range s.adt.attributeCount).any fun i => (s.adt.attributes i).name = name

/-- `aql_add_attribute` -/
def addAttribute (name : Name) (domain : Domain) (elementSize : BitVec 8) (processedOnly : Bool) :
    Aql :=
  let count := s.adt.attributeCount
  if count = aqlAttributeLimit then s
  else if processedOnly && s.hasAttribute name then s
  else if name.length + 1 > attributeNameLength + 1 then
    -- the attribute is counted, and is what was there before
    s.setAdt { s.adt with attributeCount := count + 1 }
  else
    ((s.setAdt { s.adt with
      attributeCount := count + 1
      attributes := Function.update s.adt.attributes count
        ⟨domain, elementSize, processedOnly, name⟩ }).write .attributes count).write
          .attributeName name.length

/-- `AQL_ADD_AGGREGATE` -/
def addAggregate (function : AqlAggregator) (name : Name) : Aql :=
  let count := s.adt.attributeCount
  (((s.setAdt { s.adt with
    aggregators := Function.update s.adt.aggregators count function }).write .aggregators
      count).slip .aggregate (count = aqlAttributeLimit)).addAttribute name .unspecified 0 false

/-- `aql_add_value` of a number -/
def addLong (l : Long) : Aql :=
  if s.adt.values.length = aqlAttributeLimit then s
  else (s.setAdt { s.adt with values := s.adt.values ++ [.long l] }).write .values
    s.adt.values.length

/-- `aql_add_value` of a string, and `save_char` -/
def addString (value : List Byte) : Aql :=
  if s.adt.values.length = aqlAttributeLimit then s
  else
    let offset := s.adt.nextFreeOffset
    let length := value.length + 1
    if length + offset > dbMaxCharSizePerRow then
      (s.setAdt { s.adt with values := s.adt.values ++ [.string none] }).write .values
        s.adt.values.length
    else
      ((s.setAdt { s.adt with
        values := s.adt.values ++ [.string (some offset)]
        nextFreeOffset := offset + length }).write .values s.adt.values.length).write .charBuf
          (offset + value.length)

end Aql

/-! ## Parsers -/

/-- A parser, with its status. -/
abbrev AqlParser := Aql → Option (ℕ × Aql)

/-- `AQL_ERROR` -/
def aqlError (status : ℕ) : Bool := status ≥ 3

/-- `RETURN(OK)` -/
def done : AqlParser := fun s => some (2, s)

/-- `RETURN(SYNTAX_ERROR)` -/
def syntaxError : AqlParser := fun s => some (3, s)

/-- `PARSE`, with a syntax error if it fails. -/
def parsed (parser next : AqlParser) : AqlParser := fun s =>
  (parser s).bind fun r => if aqlError r.1 then syntaxError r.2 else next r.2

section Parsers

variable (q : QueryString)

/-- `CONSUME` -/
def consume (token : Token) (next : AqlParser) : AqlParser := fun s =>
  if (s.next q).token = token then next (s.next q) else syntaxError (s.next q)

/-- `CONSUME(IDENTIFIER)`, with its name. -/
def consumeIdentifier (next : Name → AqlParser) : AqlParser := fun s =>
  match (s.next q).token with
  | .identifier name => next name (s.next q)
  | _ => syntaxError (s.next q)

/-- A list goes on after a comma. -/
def moreAfterComma (parser : AqlParser) : AqlParser := fun s =>
  if (s.next q).token = .comma then parser (s.next q) else done (s.next q).rewind

/-- `parse_aggregator` -/
def aggregatorOf : Token → Option AqlAggregator
  | .count => some .count
  | .sum => some .sum
  | .mean => some .mean
  | .median => some .median
  | .max => some .max
  | .min => some .min
  | _ => none

/-- `parse_attributes` -/
def parseAttributes : ℕ → AqlParser
  | 0, _ => none
  | fuel + 1, s =>
    let more := moreAfterComma q (parsed (parseAttributes fuel) done)
    match aggregatorOf (s.next q).token with
    | some function =>
      consume q .leftParen
        (consumeIdentifier q fun name s =>
          consume q .rightParen more (s.addAggregate function name))
        ((s.next q).setAdt { (s.next q).adt with aggregate := true })
    | none =>
      consumeIdentifier q (fun name s => more (s.addAttribute name .unspecified 0 false))
        (s.next q).rewind

/-- `parse_relations` -/
def parseRelations : ℕ → AqlParser
  | 0, _ => none
  | fuel + 1, s =>
    consumeIdentifier q (fun name s =>
      moreAfterComma q (parsed (parseRelations fuel) done) (s.addRelation name)) s

/-- `return PARSE(…)`: it is no error, whether it has failed or not. -/
def returnParsed (parser : AqlParser) : AqlParser := fun s =>
  (parser s).map fun r => (if aqlError r.1 then 0 else 1, r.2)

/-- `parse_values` -/
def parseValues : ℕ → AqlParser
  | 0, _ => none
  | fuel + 1, s =>
    let more := moreAfterComma q (returnParsed (parseValues fuel))
    match (s.next q).token with
    | .stringValue value => more ((s.next q).addString value)
    | .integerValue value => more ((s.next q).addLong value)
    | _ => syntaxError (s.next q)

/-! ## Conditions -/

/-- `parse_operand` -/
def parseOperand : AqlParser := fun s =>
  let s := s.next q
  match s.token with
  | .identifier name =>
    let s := s.slip .longName (name.length > lvmMaxNameLength)
    let registered := s.lvm.lvmRegisterVariable name
    if !registered.1 then syntaxError s
    else
      let s := if s.lvm.lookup name = s.lvm.names.length then
        (s.write .variables s.lvm.names.length).write .variableName lvmMaxNameLength else s
      let set := registered.2.lvmSetVariable name
      if !set.1 then syntaxError ((s.slip .noRoom true).setLvm set.2)
      else done ((s.setLvm set.2).addAttribute name .unspecified 0 true)
  | .stringValue _ => done (s.slip .stringOperand true)
  | .integerValue l =>
    let set := s.lvm.lvmSetLong l
    if !set.1 then syntaxError ((s.slip .noRoom true).setLvm set.2) else done (s.setLvm set.2)
  | _ => syntaxError s

/-- The operator of a token. -/
def arithOpOf : Token → Option ArithOp
  | .add => some .add
  | .sub => some .sub
  | .mul => some .mul
  | .div => some .div
  | _ => none

/-- Room is made for a node at an end that was saved, the node is set, and the end is set again;
then it goes on with this end. -/
def putNode (pos : ℕ) (node : LvmInstance → Bool × LvmInstance) (next : ℕ → AqlParser) :
    AqlParser := fun s =>
  let shift := s.lvm.lvmShiftForOperator pos
  let s := s.slip .noRoom (s.lvm.codeEnd + LvmInstance.opSize ≥ dbVmBytecodeSize ∨
    pos ≥ s.lvm.codeEnd)
  let set := node shift.2
  if !set.1 then syntaxError (s.setLvm set.2)
  else next shift.1 (s.setLvm (set.2.lvmSetEnd shift.1).2)

/-- The loop of `parse_expr`. -/
def exprLoop (expr : AqlParser) : ℕ → ℕ → AqlParser
  | 0, _, _ => none
  | fuel + 1, savedEnd, s =>
    let s := s.next q
    if s.token = .rightParen then done s
    else
      match arithOpOf s.token with
      | none => done s.rewind
      | some op =>
        let put := putNode savedEnd (fun p => p.lvmSetOp op) (exprLoop expr fuel)
        (parseOperand q s).bind fun r => if aqlError r.1 then parsed expr put r.2 else put r.2

/-- `parse_expr` -/
def parseExpr : ℕ → AqlParser
  | 0, _ => none
  | fuel + 1, s =>
    let loop := exprLoop q (parseExpr fuel) fuel s.lvm.codeEnd
    if (s.next q).token = .leftParen then
      parsed (parseExpr fuel) (consume q .rightParen loop) (s.next q)
    else parsed (parseOperand q) loop (s.next q).rewind

/-- The relation of a token. -/
def relOpOf : Token → Option RelOp
  | .gt => some .ge
  | .geq => some .geq
  | .lt => some .le
  | .leq => some .leq
  | .equal => some .eq
  | .notEqual => some .neq
  | _ => none

/-- The relation at a position is the last one, and compares two constants. The second of them is
taken for a variable that is not there when ranges are derived. -/
def comparesConstants (p : LvmInstance) (pos : ℕ) : Bool :=
  let id := (p.code (pos + 28)).toNat
  p.codeEnd = pos + 32 ∧ read32 p.code (pos + 8) = lvmOperand ∧ read32 p.code (pos + 12) = 2 ∧
    read32 p.code (pos + 20) = lvmOperand ∧ read32 p.code (pos + 24) = 2 ∧
    p.names.length ≤ id ∧ id < lvmMaxVariableId

/-- `parse_comparison` -/
def parseComparison (fuel : ℕ) : AqlParser := fun s =>
  let jump := s.lvm.lvmJumpToOperand
  let s := (s.slip .noRoom (s.lvm.codeEnd + LvmInstance.opSize ≥ dbVmBytecodeSize)).setLvm jump.2
  parsed (parseExpr q fuel) (fun s =>
    let back := s.lvm.lvmSetEnd jump.1
    let s := (s.setLvm back.2).next q
    match relOpOf s.token with
    | none => syntaxError s
    | some rel =>
      let set := s.lvm.lvmSetRelation rel
      if !set.1 then syntaxError (s.setLvm set.2)
      else
        parsed (parseExpr q fuel)
          (fun s => done (s.slip .constants (comparesConstants s.lvm jump.1)))
          (s.setLvm (set.2.lvmSetEnd back.1).2)) s

/-- The connective of a token. -/
def connectiveOf : Token → Option RelOp
  | .and => some .and
  | .or => some .or
  | _ => none

/-- A condition starts at a position of the code, which is walked from `ip` on. -/
def conditionAt (code : ℕ → Byte) (pos : ℕ) : ℕ → ℕ → Bool
  | 0, _ => false
  | fuel + 1, ip =>
    if ip = pos then read32 code ip = lvmCmpOp
    else ip < pos && conditionAt code pos fuel (ip + if read32 code ip = lvmOperand then 12 else 8)

/-- The loop of `parse_where`. -/
def whereLoop (comparison nestedWhere : AqlParser) : ℕ → ℕ → AqlParser
  | 0, _, _ => none
  | fuel + 1, savedEnd, s =>
    let s := s.next q
    match connectiveOf s.token with
    | none => done s.rewind
    | some connective =>
      putNode savedEnd (fun p => p.lvmSetRelation connective) (fun savedEnd s =>
        let loop := whereLoop comparison nestedWhere fuel savedEnd
        if (s.next q).token = .leftParen then
          parsed nestedWhere (consume q .rightParen loop) (s.next q)
        else
          (comparison (s.next q).rewind).bind fun r =>
            -- the status of the failure is that of no error
            if aqlError r.1 then some (0, r.2.slip .ignoredError true) else loop r.2)
        (s.slip .splitCondition
          (!conditionAt s.lvm.code savedEnd dbVmBytecodeSize 0))

/-- `parse_where` -/
def parseWhere : ℕ → AqlParser
  | 0, _ => none
  | fuel + 1, s =>
    parsed (parseComparison q fuel)
      (whereLoop q (parseComparison q fuel) (parseWhere fuel) fuel 0) s

/-! ## Statements -/

/-- `lvm_reset`, before a condition. -/
def Aql.resetLvm (s : Aql) : Aql := s.setLvm .lvmReset

/-- `AQL_SET_CONDITION` -/
def Aql.setCondition (s : Aql) : Aql := s.setAdt { s.adt with condition := true }

/-- `parse_join` -/
def parseJoin (fuel : ℕ) : AqlParser := fun s =>
  consumeIdentifier q (fun left s => consume q .comma
    (consumeIdentifier q fun right s => consume q .on
      (consumeIdentifier q fun attr s => consume q .project
        (parsed (parseAttributes q fuel) (consume q .end_ done))
        (s.addAttribute attr .unspecified 0 false))
      (s.addRelation right))
    (s.addRelation left)) (s.setType .join)

/-- `parse_select` -/
def parseSelect (fuel : ℕ) : AqlParser := fun s =>
  parsed (parseAttributes q fuel) (consume q .from_ (parsed (parseRelations q fuel) fun s =>
    if (s.next q).token = .where_ then
      parsed (parseWhere q fuel) (fun s => consume q .end_ done s.setCondition)
        (s.next q).resetLvm
    else done (s.next q).rewind)) (s.setType .select)

/-- `parse_insert` -/
def parseInsert (fuel : ℕ) : AqlParser := fun s =>
  consume q .leftParen (parsed (parseValues q fuel) (consume q .rightParen
    (consume q .into (parsed (parseRelations q fuel) done)))) (s.setType .insert)

/-- A relation and an attribute of it: `parse_remove_attribute` and `parse_remove_index`. -/
def relationDotAttribute (optype : AqlType) (next : AqlParser) : AqlParser := fun s =>
  consumeIdentifier q (fun relation s => consume q .dot
    (consumeIdentifier q fun attr s => next (s.addAttribute attr .unspecified 0 false))
    (s.addRelation relation)) (s.setType optype)

/-- `parse_remove_attribute` -/
def parseRemoveAttribute : AqlParser := relationDotAttribute q .removeAttribute done

/-- `parse_remove_index` -/
def parseRemoveIndex : AqlParser := relationDotAttribute q .removeIndex done

/-- `REMOVE_RELATION` -/
def removeRelation : Name := ascii "db-remove"

/-- `parse_remove_from` -/
def parseRemoveFrom (fuel : ℕ) : AqlParser := fun s =>
  consumeIdentifier q (fun name s => consume q .where_ (fun s =>
      (parseWhere q fuel s.resetLvm.setCondition).map fun r =>
        if aqlError r.1 then (0, r.2.slip .ignoredError true) else (1, r.2))
    (s.addRelation name))
    (Aql.addRelation ((s.setType .removeTuples).setAdt
      { (s.setType .removeTuples).adt with assign := true }) removeRelation)

/-- `parse_remove_relation` -/
def parseRemoveRelation : AqlParser := fun s =>
  consumeIdentifier q (fun name s => done (s.addRelation name)) (s.setType .removeRelation)

/-- `parse_remove` -/
def parseRemove (fuel : ℕ) : AqlParser := fun s =>
  let s := s.next q
  let last := consume q .end_ done
  match s.token with
  | .attribute_ => parsed (parseRemoveAttribute q) last s
  | .from_ => parsed (parseRemoveFrom q fuel) last s
  | .index => parsed (parseRemoveIndex q) last s
  | .relation => parsed (parseRemoveRelation q) last s
  | _ => syntaxError s

/-- `parse_index_type` -/
def indexTypeOf : Token → Option IndexType
  | .inline => some .inline
  | .maxheap => some .maxheap
  | .memhash => some .memhash
  | _ => none

/-- `parse_create_index` -/
def parseCreateIndex : AqlParser :=
  relationDotAttribute q .createIndex (consume q .type fun s =>
    match indexTypeOf (s.next q).token with
    | none => syntaxError (s.next q)
    | some type => done ((s.next q).setAdt { (s.next q).adt with indexType := some type }))

/-- `parse_create_relation` -/
def parseCreateRelation : AqlParser := fun s =>
  consumeIdentifier q (fun name s => done ((s.setType .createRelation).addRelation name)) s

/-- `parse_domain`; `NONE` is an error like others. -/
def parseDomain (name : Name) (next : AqlParser) : AqlParser := fun s =>
  let s := s.next q
  match s.token with
  | .string =>
    consume q .leftParen (fun s =>
      let s := s.next q
      match s.token with
      | .integerValue size =>
        consume q .rightParen (fun s => next (s.addAttribute name .string (size.setWidth 8) false))
          s
      | _ => syntaxError s) s
  | .long => next (s.addAttribute name .long 4 false)
  | .int => next (s.addAttribute name .int 2 false)
  | _ => some (255, s)

/-- `parse_create_attributes`: the name is cut to the size of a buffer. -/
def parseCreateAttributes : AqlParser := fun s =>
  consumeIdentifier q (fun name s => consume q .domain
    (parseDomain q (name.take (attributeNameLength - 1)) (consume q .in_
      (consumeIdentifier q fun relation s => done (s.addRelation relation))))
    (s.write .nameBuffer (attributeNameLength - 1)))
    (s.setType .createAttribute)

/-- `parse_create` -/
def parseCreate : AqlParser := fun s =>
  let s := s.next q
  let last := consume q .end_ done
  match s.token with
  | .attribute_ => parsed (parseCreateAttributes q) last s
  | .index => parsed (parseCreateIndex q) last s
  | .relation => parsed (parseCreateRelation q) last s
  | _ => syntaxError s

/-- The parser before a query: `AQL_CLEAR`. The attributes are left of other queries, and so is the
code, which is reset before a condition. -/
def aqlStart (attributes : ℕ → AqlAttribute) : Aql where
  lexer := lexerStart
  adt :=
    { optype := .none
      relations := []
      attributes := attributes
      attributeCount := 0
      aggregators := fun _ => .none
      values := []
      nextFreeOffset := 0
      indexType := none
      aggregate := false
      assign := false
      condition := false }
  lvm := .lvmReset
  writes := []
  slips := []

/-- The result is assigned to a relation. -/
def parseAssign (fuel : ℕ) (name : Name) : AqlParser := fun s =>
  let s := s.addRelation name
  consume q .assign (fun s =>
    let s := s.next q
    match s.token with
    | .select => parseSelect q fuel s
    | .join => parseJoin q fuel s
    | _ => syntaxError s) (s.setAdt { s.adt with assign := true })

/-- `aql_parse` -/
def aqlParse (fuel : ℕ) (s : Aql) : Option (ℕ × Aql) :=
  let status := (lexerNext q s.lexer).1
  let s := s.next q
  if aqlError status then some (status, s)
  else
    match s.token with
    | .identifier name => parseAssign q fuel name s
    | .join => parseJoin q fuel s
    | .create => parseCreate q s
    | .remove => parseRemove q fuel s
    | .insert => parseInsert q fuel s
    | .select => parseSelect q fuel s
    | .none => done s
    | .comment => done s
    | .end_ => some (status, s)
    | _ => syntaxError s

end Parsers

end Asap.Antelope
