import Asap.Lib.Buffer
import Asap.Sixtop.Trans

/-!
# The fields of a 6P message

Where a field is in the body of a message depends on the type and on the code of the message, and
is not known where the message has no such field. A getter and a setter of each field check that the
body is long enough, but for `sixp_pkt_set_num_cells`, `sixp_pkt_get_reserved` and
`sixp_pkt_set_total_num_cells`. The list of cells to relocate and the list of candidates share what
is behind the number of cells, which says where the one ends and the other begins.

The body is a memory from its first byte on, which goes on behind the length that is given.

## Main definitions

* `sixpPktGetMetadata`, `sixpPktSetMetadata` and the others — the getters and setters.
* `sixpPktParse` — the header of a message, and the check of the length of its body.
* `SixpField`, `SixpSet`, `formats` — the fields, the calls of a setter, and the fields of a message.
-/

namespace Asap.Sixtop

open Asap.Lib

/-- `sixp_pkt_code_t`: a command or a return code. -/
abbrev SixpPktCode := BitVec 8

/-! ## Commands and return codes -/

def sixpPktCmdRelocate : SixpPktCode := 0x03
def sixpPktCmdCount : SixpPktCode := 0x04
def sixpPktCmdList : SixpPktCode := 0x05
def sixpPktCmdSignal : SixpPktCode := 0x06
def sixpPktRcSuccess : SixpPktCode := 0x00
def sixpPktRcEol : SixpPktCode := 0x01

/-- The return codes from `SIXP_PKT_RC_ERR` to `SIXP_PKT_RC_ERR_LOCKED`. -/
def sixpPktRcErrors : List SixpPktCode := [2, 3, 4, 5, 6, 7, 8, 9]

/-- The size of `sixp_pkt_cell_t`. -/
def sizeofCell : ℕ := 4

/-! ## Offsets -/

section offsets

variable (type : SixpPktType) (code : SixpPktCode)

/-- `get_metadata_offset` -/
def getMetadataOffset : Option ℕ := if type = .request then some 0 else none

/-- `get_cell_options_offset` -/
def getCellOptionsOffset : Option ℕ :=
  if type = .request ∧ (code = sixpPktCmdAdd ∨ code = sixpPktCmdDelete ∨
    code = sixpPktCmdRelocate ∨ code = sixpPktCmdCount ∨ code = sixpPktCmdList) then some 2
  else none

/-- `get_num_cells_offset` -/
def getNumCellsOffset : Option ℕ :=
  if type = .request ∧ (code = sixpPktCmdAdd ∨ code = sixpPktCmdDelete ∨
    code = sixpPktCmdRelocate) then some 3
  else none

/-- `get_reserved_offset` -/
def getReservedOffset : Option ℕ :=
  if type = .request ∧ code = sixpPktCmdList then some 3 else none

/-- `get_offset_offset` -/
def getOffsetOffset : Option ℕ :=
  if type = .request ∧ code = sixpPktCmdList then some 4 else none

/-- `get_max_num_cells_offset` -/
def getMaxNumCellsOffset : Option ℕ :=
  if type = .request ∧ code = sixpPktCmdList then some 6 else none

/-- `get_cell_list_offset` -/
def getCellListOffset : Option ℕ :=
  if type = .request ∧ (code = sixpPktCmdAdd ∨ code = sixpPktCmdDelete) then some 4
  else if (type = .response ∨ type = .confirmation) ∧
    (code = sixpPktRcSuccess ∨ code = sixpPktRcEol) then some 0
  else none

/-- `get_rel_cell_list_offset` -/
def getRelCellListOffset : Option ℕ :=
  if type = .request ∧ code = sixpPktCmdRelocate then some 4 else none

/-- `get_total_num_cells_offset` -/
def getTotalNumCellsOffset : Option ℕ :=
  if type = .response ∧ code = sixpPktRcSuccess then some 0 else none

/-- `get_payload_offset` -/
def getPayloadOffset : Option ℕ :=
  if type = .request ∧ code = sixpPktCmdSignal then some 2
  else if (type = .response ∨ type = .confirmation) ∧ code = sixpPktRcSuccess then some 0
  else none

end offsets

/-! ## Getters and setters -/

section accessors

/-- A field of `size` bytes is read, if the body has it. -/
def getField {α : Type} (offset : Option ℕ) (size : ℕ) (read : (ℕ → Byte) → ℕ → α)
    (body : ℕ → Byte) (bodyLen : ℕ) : Option α :=
  offset.bind fun o => if bodyLen < o + size then none else some (read body o)

/-- Bytes are written to a field, if the body has room for them. -/
def setField (offset : Option ℕ) (value : List Byte) (body : ℕ → Byte) (bodyLen : ℕ) :
    Option (ℕ → Byte) :=
  offset.bind fun o => if bodyLen < o + value.length then none else some (store body o value)

/-- The cells from an offset to the end of the body. -/
def getCells (o : ℕ) (body : ℕ → Byte) (bodyLen : ℕ) : Option (List Byte) :=
  if bodyLen < o then none
  else if (bodyLen - o) % sizeofCell ≠ 0 then none
  else some (bytesAt body o (bodyLen - o))

/-- Cells are written at an offset. -/
def setCells (o : ℕ) (cells : List Byte) (body : ℕ → Byte) (bodyLen : ℕ) : Option (ℕ → Byte) :=
  if bodyLen < o + cells.length then none
  else if cells.length % sizeofCell ≠ 0 then none
  else some (store body o cells)

/-- A byte of a body. -/
def read8 (body : ℕ → Byte) (o : ℕ) : BitVec 8 := body o

variable (type : SixpPktType) (code : SixpPktCode)

/-- `sixp_pkt_set_metadata` -/
def sixpPktSetMetadata (metadata : BitVec 16) : (ℕ → Byte) → ℕ → Option (ℕ → Byte) :=
  setField (getMetadataOffset type) (le16 metadata)

/-- `sixp_pkt_get_metadata` -/
def sixpPktGetMetadata : (ℕ → Byte) → ℕ → Option (BitVec 16) :=
  getField (getMetadataOffset type) 2 read16

/-- `sixp_pkt_set_cell_options` -/
def sixpPktSetCellOptions (cellOptions : BitVec 8) : (ℕ → Byte) → ℕ → Option (ℕ → Byte) :=
  setField (getCellOptionsOffset type code) [cellOptions]

/-- `sixp_pkt_get_cell_options` -/
def sixpPktGetCellOptions : (ℕ → Byte) → ℕ → Option (BitVec 8) :=
  getField (getCellOptionsOffset type code) 1 read8

/-- `sixp_pkt_set_num_cells`, which has no check of the length. -/
def sixpPktSetNumCells (numCells : BitVec 8) (body : ℕ → Byte) (_bodyLen : ℕ) :
    Option (ℕ → Byte) :=
  (getNumCellsOffset type code).map fun o => store body o [numCells]

/-- `sixp_pkt_get_num_cells` -/
def sixpPktGetNumCells : (ℕ → Byte) → ℕ → Option (BitVec 8) :=
  getField (getNumCellsOffset type code) 1 read8

/-- `sixp_pkt_set_reserved` -/
def sixpPktSetReserved (reserved : BitVec 8) : (ℕ → Byte) → ℕ → Option (ℕ → Byte) :=
  setField (getReservedOffset type code) [reserved]

/-- `sixp_pkt_get_reserved`, which has no check of the length. -/
def sixpPktGetReserved (body : ℕ → Byte) (_bodyLen : ℕ) : Option (BitVec 8) :=
  (getReservedOffset type code).map (read8 body)

/-- `sixp_pkt_set_offset` -/
def sixpPktSetOffset (cellOffset : BitVec 16) : (ℕ → Byte) → ℕ → Option (ℕ → Byte) :=
  setField (getOffsetOffset type code) (le16 cellOffset)

/-- `sixp_pkt_get_offset` -/
def sixpPktGetOffset : (ℕ → Byte) → ℕ → Option (BitVec 16) :=
  getField (getOffsetOffset type code) 2 read16

/-- `sixp_pkt_set_max_num_cells` -/
def sixpPktSetMaxNumCells (maxNumCells : BitVec 16) : (ℕ → Byte) → ℕ → Option (ℕ → Byte) :=
  setField (getMaxNumCellsOffset type code) (le16 maxNumCells)

/-- `sixp_pkt_get_max_num_cells` -/
def sixpPktGetMaxNumCells : (ℕ → Byte) → ℕ → Option (BitVec 16) :=
  getField (getMaxNumCellsOffset type code) 2 read16

/-- `sixp_pkt_set_cell_list` -/
def sixpPktSetCellList (cellList : List Byte) (cellOffset : ℕ) (body : ℕ → Byte) (bodyLen : ℕ) :
    Option (ℕ → Byte) :=
  (getCellListOffset type code).bind fun o => setCells (o + cellOffset) cellList body bodyLen

/-- `sixp_pkt_get_cell_list`: the bytes that the pointer and the length give. -/
def sixpPktGetCellList (body : ℕ → Byte) (bodyLen : ℕ) : Option (List Byte) :=
  (getCellListOffset type code).bind fun o => getCells o body bodyLen

/-- `sixp_pkt_set_rel_cell_list` -/
def sixpPktSetRelCellList (relCellList : List Byte) (cellOffset : ℕ) (body : ℕ → Byte)
    (bodyLen : ℕ) : Option (ℕ → Byte) :=
  (sixpPktGetNumCells type code body bodyLen).bind fun numCells =>
  (getRelCellListOffset type code).bind fun o =>
    let o := o + cellOffset
    if bodyLen < o + relCellList.length then none
    else if o + relCellList.length > o + numCells.toNat * sizeofCell then none
    else if relCellList.length % sizeofCell ≠ 0 then none
    else some (store body o relCellList)

/-- `sixp_pkt_get_rel_cell_list` -/
def sixpPktGetRelCellList (body : ℕ → Byte) (bodyLen : ℕ) : Option (List Byte) :=
  (sixpPktGetNumCells type code body bodyLen).bind fun numCells =>
  (getRelCellListOffset type code).bind fun o =>
    if bodyLen < o + numCells.toNat * sizeofCell then none
    else if (bodyLen - o) % sizeofCell ≠ 0 then none
    else some (bytesAt body o (numCells.toNat * sizeofCell))

/-- `sixp_pkt_set_cand_cell_list` -/
def sixpPktSetCandCellList (candCellList : List Byte) (cellOffset : ℕ) (body : ℕ → Byte)
    (bodyLen : ℕ) : Option (ℕ → Byte) :=
  (sixpPktGetNumCells type code body bodyLen).bind fun numCells =>
  (getRelCellListOffset type code).bind fun o =>
    setCells (o + (cellOffset + numCells.toNat * sizeofCell)) candCellList body bodyLen

/-- `sixp_pkt_get_cand_cell_list` -/
def sixpPktGetCandCellList (body : ℕ → Byte) (bodyLen : ℕ) : Option (List Byte) :=
  (sixpPktGetNumCells type code body bodyLen).bind fun numCells =>
  (getRelCellListOffset type code).bind fun o =>
    getCells (o + numCells.toNat * sizeofCell) body bodyLen

/-- `sixp_pkt_set_total_num_cells`, which has no check of the length. -/
def sixpPktSetTotalNumCells (totalNumCells : BitVec 16) (body : ℕ → Byte) (_bodyLen : ℕ) :
    Option (ℕ → Byte) :=
  (getTotalNumCellsOffset type code).map fun o => store body o (le16 totalNumCells)

/-- `sixp_pkt_get_total_num_cells`, which reads the first two bytes. -/
def sixpPktGetTotalNumCells : (ℕ → Byte) → ℕ → Option (BitVec 16) :=
  getField (getTotalNumCellsOffset type code) 2 fun body _ => read16 body 0

/-- `sixp_pkt_set_payload` -/
def sixpPktSetPayload (payload : List Byte) : (ℕ → Byte) → ℕ → Option (ℕ → Byte) :=
  setField (getPayloadOffset type code) payload

/-- `sixp_pkt_get_payload`: the buffer afterwards, which is filled. -/
def sixpPktGetPayload (bufLen : ℕ) (body : ℕ → Byte) (bodyLen : ℕ) : Option (List Byte) :=
  (getPayloadOffset type code).bind fun o =>
    if (bodyLen : ℤ) - o > bufLen then none else some (bytesAt body o bufLen)

end accessors

/-! ## The parser -/

/-- `sixp_pkt_t` -/
structure SixpPkt where
  version : BitVec 8
  type : SixpPktType
  code : SixpPktCode
  sfid : BitVec 8
  seqno : BitVec 8
  body : ℕ → Byte
  bodyLen : ℕ

/-- The two bits of the type. -/
def sixpPktType (b : Byte) : SixpPktType :=
  if b &&& 0x30 = 0x00 then .request else if b &&& 0x30 = 0x10 then .response
  else if b &&& 0x30 = 0x20 then .confirmation else .reserved

/-- The check of the length of a body. -/
def lengthFits (type : SixpPktType) (code : SixpPktCode) (len : ℕ) : Bool :=
  match type with
  | .request =>
    if code = sixpPktCmdAdd ∨ code = sixpPktCmdDelete then ¬(len < 4 ∨ len % 4 ≠ 0)
    else if code = sixpPktCmdRelocate then ¬(len < 4 ∨ len % 4 ≠ 0)
    else if code = sixpPktCmdCount then len = 3
    else if code = sixpPktCmdList then len = 8
    else if code = sixpPktCmdSignal then ¬len < 2
    else if code = sixpPktCmdClear then len = 2
    else false
  | .response | .confirmation =>
    if code = sixpPktRcSuccess then true
    else if code = sixpPktRcEol then len % 4 = 0
    else if code ∈ sixpPktRcErrors then len = 0
    else false
  | .reserved => false

/-- `sixp_pkt_parse` -/
def sixpPktParse (buf : ℕ → Byte) (len : ℕ) : Option SixpPkt :=
  if len < 4 then none
  else
    let pkt : SixpPkt :=
      ⟨buf 0 &&& 0x0f, sixpPktType (buf 0), buf 1, buf 2, buf 3, fun k => buf (4 + k), len - 4⟩
    -- `SIXP_PKT_VERSION`
    if pkt.version ≠ 0 then none
    else if lengthFits pkt.type pkt.code pkt.bodyLen then some pkt else none

/-! ## Fields -/

/-- The fields of the body. -/
inductive SixpField
  | metadata | cellOptions | numCells | reserved | offset | maxNumCells | cellList | relCellList
  | candCellList | totalNumCells | payload
deriving DecidableEq

/-- The getter of a field: its bytes. The length is that of the buffer for a payload. -/
def SixpField.get (bufLen : ℕ) (type : SixpPktType) (code : SixpPktCode) (body : ℕ → Byte)
    (bodyLen : ℕ) : SixpField → Option (List Byte)
  | metadata => (sixpPktGetMetadata type body bodyLen).map le16
  | cellOptions => (sixpPktGetCellOptions type code body bodyLen).map fun v => [v]
  | numCells => (sixpPktGetNumCells type code body bodyLen).map fun v => [v]
  | reserved => (sixpPktGetReserved type code body bodyLen).map fun v => [v]
  | offset => (sixpPktGetOffset type code body bodyLen).map le16
  | maxNumCells => (sixpPktGetMaxNumCells type code body bodyLen).map le16
  | cellList => sixpPktGetCellList type code body bodyLen
  | relCellList => sixpPktGetRelCellList type code body bodyLen
  | candCellList => sixpPktGetCandCellList type code body bodyLen
  | totalNumCells => (sixpPktGetTotalNumCells type code body bodyLen).map le16
  | payload => sixpPktGetPayload type code bufLen body bodyLen

/-- A call of a setter. -/
inductive SixpSet
  | metadata (v : BitVec 16)
  | cellOptions (v : BitVec 8)
  | numCells (v : BitVec 8)
  | reserved (v : BitVec 8)
  | offset (v : BitVec 16)
  | maxNumCells (v : BitVec 16)
  | cellList (cells : List Byte) (cellOffset : ℕ)
  | relCellList (cells : List Byte) (cellOffset : ℕ)
  | candCellList (cells : List Byte) (cellOffset : ℕ)
  | totalNumCells (v : BitVec 16)
  | payload (bytes : List Byte)

namespace SixpSet

/-- The field that is set. -/
def field : SixpSet → SixpField
  | metadata _ => .metadata
  | cellOptions _ => .cellOptions
  | numCells _ => .numCells
  | reserved _ => .reserved
  | offset _ => .offset
  | maxNumCells _ => .maxNumCells
  | cellList _ _ => .cellList
  | relCellList _ _ => .relCellList
  | candCellList _ _ => .candCellList
  | totalNumCells _ => .totalNumCells
  | payload _ => .payload

/-- The body afterwards, if the call succeeds. -/
def apply (type : SixpPktType) (code : SixpPktCode) (body : ℕ → Byte) (bodyLen : ℕ) :
    SixpSet → Option (ℕ → Byte)
  | metadata v => sixpPktSetMetadata type v body bodyLen
  | cellOptions v => sixpPktSetCellOptions type code v body bodyLen
  | numCells v => sixpPktSetNumCells type code v body bodyLen
  | reserved v => sixpPktSetReserved type code v body bodyLen
  | offset v => sixpPktSetOffset type code v body bodyLen
  | maxNumCells v => sixpPktSetMaxNumCells type code v body bodyLen
  | cellList cells o => sixpPktSetCellList type code cells o body bodyLen
  | relCellList cells o => sixpPktSetRelCellList type code cells o body bodyLen
  | candCellList cells o => sixpPktSetCandCellList type code cells o body bodyLen
  | totalNumCells v => sixpPktSetTotalNumCells type code v body bodyLen
  | payload bytes => sixpPktSetPayload type code bytes body bodyLen

/-- A getter returns what was written, or a list with it at its offset. -/
def Returned (v : List Byte) : SixpSet → Prop
  | metadata w | offset w | maxNumCells w | totalNumCells w => v = le16 w
  | cellOptions b | numCells b | reserved b => v = [b]
  | cellList cells o | relCellList cells o | candCellList cells o =>
    (v.drop o).take cells.length = cells
  | payload bytes => v.take bytes.length = bytes

end SixpSet

/-- The fields of a message. The format of a response with `SIXP_PKT_RC_SUCCESS` is that of the
command it answers. -/
def formats : SixpPktType → SixpPktCode → List (List SixpField)
  | .request, code =>
    if code = sixpPktCmdAdd ∨ code = sixpPktCmdDelete then
      [[.metadata, .cellOptions, .numCells, .cellList]]
    else if code = sixpPktCmdRelocate then
      [[.metadata, .cellOptions, .numCells, .relCellList, .candCellList]]
    else if code = sixpPktCmdCount then [[.metadata, .cellOptions]]
    else if code = sixpPktCmdList then
      [[.metadata, .cellOptions, .reserved, .offset, .maxNumCells]]
    else if code = sixpPktCmdSignal then [[.metadata, .payload]]
    else if code = sixpPktCmdClear then [[.metadata]]
    else []
  | .response, code =>
    if code = sixpPktRcSuccess then [[], [.cellList], [.totalNumCells], [.payload]]
    else if code = sixpPktRcEol then [[.cellList]]
    else [[]]
  | .confirmation, code =>
    if code = sixpPktRcSuccess then [[], [.cellList], [.payload]]
    else if code = sixpPktRcEol then [[.cellList]]
    else [[]]
  | .reserved, _ => []

end Asap.Sixtop
