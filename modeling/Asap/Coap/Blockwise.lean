import Asap.Coap.Observe
import Asap.Coap.OptionCodec

/-!
# Block-wise transfer

A block option holds the number of a block, a flag and an exponent of the block size in one number,
and the offset of the block is computed from it in 32 bits. A resource that does not know of blocks
gives its whole payload each time, and the engine cuts the block out of it, with no more bytes than
its own largest block has. The handler for incoming blocks adds the offset and the length, again in
32 bits, before it compares them with the room.

## Main definitions

* `coapReceiveRequest` — what the engine answers to a request.
* `collect` — the payloads of the answers to requests for block 0, 1, 2 and so on.
* `coapBlock1Handler` — the handler for incoming blocks.
* `Transferred`, `Block2Right`, `Block1Right`, `InBounds` — what is wanted.

## Main results

* `coap_blockwise` — when each of it is so.
-/

namespace Asap.Coap

open Lib List Nat

/-- The bytes of an error message. -/
def textBytes (text : String) : List Byte := text.toList.map fun c => BitVec.ofNat 8 c.toNat

/-- `COAP_MAX_BLOCK_SIZE` -/
def coapMaxBlockSize (chunk : ℕ) : BitVec 16 :=
  if chunk < 32 then 16
  else if chunk < 64 then 32
  else if chunk < 128 then 64
  else if chunk < 256 then 128
  else if chunk < 512 then 256
  else if chunk < 1024 then 512
  else if chunk < 2048 then 1024
  else 2048

/-! ## The engine -/

/-- What a handler leaves: the response, the offset, and the status with its message if it is not
`NO_ERROR`. -/
structure ServiceResult where
  response : CoapMessage CStr
  newOffset : BitVec 32
  error : Option (Byte × String)

/-- The handlers and resources: the request, the response so far, the size of a block and the offset;
none if nobody handles the request. -/
abbrev Service :=
  CoapMessage CStr → CoapMessage CStr → BitVec 16 → BitVec 32 → Option ServiceResult

section Engine

variable (cfg : CoapConfig) (mid : BitVec 16) (req : CoapMessage CStr)

/-- Whether the request has a block option for its response. -/
def isBlock2 : Bool := req.isOption CoapOption.block2.number

/-- The response that is prepared. -/
def prepareResponse : CoapMessage CStr :=
  let res := coapInitMessage (if req.type = .con then .ack else .non) 0x45
    (if req.type = .con then req.mid else mid)
  if req.tokenLen = 0 then res else coapSetToken res req.token

/-- The block size: that of the request, or the largest one. -/
def blockSize : BitVec 16 :=
  if isBlock2 req ∧ req.block2.size.toNat < (coapMaxBlockSize cfg.maxChunkSize).toNat then
    req.block2.size
  else coapMaxBlockSize cfg.maxChunkSize

/-- The offset that the handlers are called with, a number with a sign; none if it is negative. -/
def serviceOffset : Option (BitVec 32) :=
  let newOffset := if isBlock2 req then req.block2.offset else 0
  if newOffset.toInt < 0 then none else some newOffset

/-- The answer with an error. -/
def errorReply (code : Byte) (text : String) : CoapMessage CStr :=
  coapSetPayload (coapInitMessage .ack (if 192 ≤ code.toNat then 0xA0 else code) req.mid) cfg
    (textBytes text)

/-- A block of a resource that is not aware of blocks. -/
def cutBlock (res : CoapMessage CStr) (size : BitVec 16) (offset : BitVec 32) : CoapMessage CStr :=
  if res.payload.len ≤ offset.toNat then
    coapSetPayload { res with code := 0x82 } cfg (textBytes "BlockOutOfScope")
  else
    let left := res.payload.len - offset.toNat
    let more : Byte := if size.toNat < left then 1 else 0
    coapSetPayload (coapSetHeaderBlock2 res req.block2.num more size) cfg
      ((res.payload.content.drop offset.toNat).take (min left size.toNat))

/-- The block options of the response. -/
def handleBlocks (res : CoapMessage CStr) (size : BitVec 16) (offset newOffset : BitVec 32) :
    CoapMessage CStr :=
  if isBlock2 req then
    if newOffset = offset then cutBlock cfg req res size offset
    else
      let more : Byte := if newOffset ≠ -1 ∨ size.toNat < res.payload.len then 1 else 0
      let res := coapSetHeaderBlock2 res req.block2.num more size
      if size.toNat < res.payload.len then
        coapSetPayload res cfg (res.payload.content.take size.toNat)
      else res
  else if newOffset ≠ 0 then
    let maxBlockSize := coapMaxBlockSize cfg.maxChunkSize
    coapSetPayload (coapSetHeaderBlock2 res 0 (if newOffset ≠ -1 then 1 else 0) maxBlockSize) cfg
      (res.payload.content.take (min res.payload.len maxBlockSize.toNat))
  else res

/-- `coap_receive` for a request that was parsed, with a transaction for its response. -/
def coapReceiveRequest (service : Service) : CoapMessage CStr :=
  let res := prepareResponse mid req
  let size := blockSize cfg req
  match serviceOffset req with
  | none => errorReply cfg req 0x82 "BlockOutOfScope"
  | some offset =>
    match service req res size offset with
    | none => coapSetStatusCode res 0x84
    | some handled =>
      match handled.error with
      | some (code, text) => errorReply cfg req code text
      | none =>
        if req.isOption CoapOption.block1.number ∧ handled.response.code.toNat < 0x80 ∧
            handled.response.isOption CoapOption.block1.number = false then
          errorReply cfg req 0xA1 "NoBlock1Support"
        else handleBlocks cfg req handled.response size offset handled.newOffset

end Engine

/-! ## Incoming blocks -/

/-- What `coap_block1_handler` returns, with the status and its message if it fails; the response,
what it writes and where, and the length that it stores. -/
structure Block1Result where
  status : ℤ
  error : Option (Byte × String)
  response : CoapMessage CStr
  written : Option (ℕ × List Byte)
  len : Option ℕ

/-- `coap_block1_handler`, for a target or without one, of `maxLen` bytes. -/
def coapBlock1Handler (req res : CoapMessage CStr) (target : Bool) (maxLen : ℕ) : Block1Result :=
  let payLen := req.payload.len
  if payLen = 0 then ⟨-1, some (0x80, "NoPayload"), res, none, none⟩
  else
    -- the sum of two numbers of 32 bits
    let stop := (req.block1.offset + BitVec.ofNat 32 payLen).toNat
    if maxLen < stop then ⟨-1, some (0x8D, "Message to big"), res, none, none⟩
    else
      let written := if target then some (req.block1.offset.toNat, req.payload.content) else none
      let len := if target then some stop else none
      if req.isOption CoapOption.block1.number then
        let res := coapSetHeaderBlock1 res req.block1.num req.block1.more req.block1.size
        if req.block1.more ≠ 0 then ⟨1, none, coapSetStatusCode res 0x5F, written, len⟩
        else ⟨0, none, res, written, len⟩
      else ⟨0, none, res, written, len⟩

/-! ## What is wanted -/

/-- The number that bytes stand for. -/
def bytesValue (bytes : List Byte) : ℕ := bytes.foldl (fun value b => value * 256 + b.toNat) 0

/-- The offset of a block: its number times its size. -/
def blockOffset (value : ℕ) : ℕ := value / 16 * (16 * 2 ^ (value % 8))

/-- A request with a block option of a value, and no other block option. -/
def blockRequest (base : CoapMessage CStr) (bytes : List Byte) : CoapMessage CStr :=
  { base with
    options := Function.update (Function.update base.options CoapOption.block1.number false)
      CoapOption.block2.number true
    block2 := parseBlock (coapParseIntOption bytes) }

/-- The same for incoming blocks. -/
def block1Request (base : CoapMessage CStr) (bytes : List Byte) : CoapMessage CStr :=
  { base with
    options := Function.update base.options CoapOption.block1.number true
    block1 := parseBlock (coapParseIntOption bytes) }

/-- A resource that is not aware of blocks: it sets options, and its payload. -/
structure Unaware where
  options : CoapMessage CStr → CoapMessage CStr → CoapMessage CStr
  payload : List Byte
  success : ∀ req res : CoapMessage CStr, res.code = 0x45 → (options req res).code.toNat < 0x80

/-- It as a handler. -/
def Unaware.service (cfg : CoapConfig) (resource : Unaware) : Service := fun req res _ offset =>
  some ⟨coapSetPayload (resource.options req res) cfg resource.payload, offset, none⟩

/-- The payloads of the answers from a block on, up to the first one without the flag; none if one is
an error. -/
def collect (reply : ℕ → CoapMessage CStr) : ℕ → ℕ → Option (List Byte)
  | 0, _ => none
  | fuel + 1, k =>
    if 0x80 ≤ (reply k).code.toNat then none
    else if (reply k).isOption CoapOption.block2.number ∧ (reply k).block2.more = 1 then
      (collect reply fuel (k + 1)).map ((reply k).payload.content ++ ·)
    else some (reply k).payload.content

/-- The request for a block of a size, in the bytes that a client sends. -/
def requestFor (base : ℕ → CoapMessage CStr) (szx : BitVec 3) (k : ℕ) : CoapMessage CStr :=
  blockRequest (base k) (intBytes (BitVec.ofNat 32 (k * 16 + szx.toNat)))

/-- The blocks of a size make up the payload. -/
def Transferred (cfg : CoapConfig) (resource : Unaware) (base : ℕ → CoapMessage CStr)
    (mid : ℕ → BitVec 16) (szx : BitVec 3) : Prop :=
  ∃ fuel, collect (fun k =>
    coapReceiveRequest cfg (mid k) (requestFor base szx k) (resource.service cfg)) fuel 0 =
      some resource.payload

/-- The handlers are called with the offset of the block, or not at all. -/
def Block2Right (base : CoapMessage CStr) (bytes : List Byte) : Prop :=
  ∀ offset, serviceOffset (blockRequest base bytes) = some offset →
    offset.toNat = blockOffset (bytesValue bytes)

/-- The handler for incoming blocks has the offset of the block, or refuses it. -/
def Block1Right (base res : CoapMessage CStr) (bytes : List Byte) (target : Bool) (maxLen : ℕ) :
    Prop :=
  (coapBlock1Handler (block1Request base bytes) res target maxLen).status = -1 ∨
    (block1Request base bytes).block1.offset.toNat = blockOffset (bytesValue bytes)

/-- What is written is inside of the target. -/
def InBounds (req res : CoapMessage CStr) (target : Bool) (maxLen : ℕ) : Prop :=
  ∀ start bytes, (coapBlock1Handler req res target maxLen).written = some (start, bytes) →
    start + bytes.length ≤ maxLen

/-! ## The numbers of a block option -/

/-- A number in 32 bits is what its bytes stand for, but for what does not fit. -/
theorem toNat_coapParseIntOption (bytes : List Byte) :
    (coapParseIntOption bytes).toNat = bytesValue bytes % 2 ^ 32 := by
  have hstep : ∀ (var : BitVec 32) (b : Byte),
      (var <<< 8 ||| b.setWidth 32).toNat = (var.toNat * 256 + b.toNat) % 2 ^ 32 := by
    intro var b
    have hb : (b.setWidth 32).toNat = b.toNat := by
      rw [BitVec.toNat_setWidth]
      have := b.isLt
      exact mod_eq_of_lt (by omega)
    have hshift : (var <<< 8).toNat = 2 ^ 8 * (var.toNat % 2 ^ 24) := by
      rw [BitVec.toNat_shiftLeft, shiftLeft_eq]
      omega
    rw [BitVec.toNat_or, hb, hshift, ← two_pow_add_eq_or_of_lt b.isLt]
    omega
  have hfold : ∀ (bytes : List Byte) (var : BitVec 32) (value : ℕ), var.toNat = value % 2 ^ 32 →
      (bytes.foldl (fun (var : BitVec 32) b => var <<< 8 ||| b.setWidth 32) var).toNat =
        bytes.foldl (fun value b => value * 256 + b.toNat) value % 2 ^ 32 := by
    intro bytes
    induction bytes with
    | nil => exact fun _ _ h => h
    | cons b bytes ih =>
      intro var value h
      refine ih _ _ ?_
      rw [hstep, h]
      show (value % 2 ^ 32 * 256 + b.toNat) % 2 ^ 32 = (value * 256 + b.toNat) % 2 ^ 32
      omega
  exact hfold bytes 0 0 rfl

theorem clear_low (v : BitVec 32) : v &&& ~~~(0x0000000F : BitVec 32) = v >>> 4 <<< 4 := by
  apply BitVec.eq_of_getLsbD_eq
  intro i hi
  simp only [BitVec.getLsbD_and, BitVec.getLsbD_not, BitVec.getLsbD_shiftLeft,
    BitVec.getLsbD_ushiftRight]
  interval_cases i <;> simp

/-- **The fields of a block option.** -/
theorem parseBlock_spec (v : BitVec 32) :
    (parseBlock v).num.toNat = v.toNat / 16 ∧
      (parseBlock v).size.toNat = 16 * 2 ^ (v.toNat % 8) ∧
      (parseBlock v).offset.toNat = blockOffset v.toNat % 2 ^ 32 := by
  have hszx : (v &&& 0x07).toNat = v.toNat % 8 := by
    rw [BitVec.toNat_and]
    exact and_two_pow_sub_one_eq_mod v.toNat 3
  have hlt : v.toNat % 8 < 8 := mod_lt _ (by decide)
  have hclear : (v >>> 4 <<< 4).toNat = v.toNat / 16 * 16 := by
    rw [BitVec.toNat_shiftLeft, BitVec.toNat_ushiftRight, shiftLeft_eq, shiftRight_eq_div_pow]
    have := v.isLt
    omega
  refine ⟨?_, ?_, ?_⟩
  · rw [parseBlock, BitVec.toNat_ushiftRight, shiftRight_eq_div_pow]
  · simp only [parseBlock, hszx]
    have hpow : 16 * 2 ^ (v.toNat % 8) ≤ 16 * 2 ^ 7 :=
      Nat.mul_le_mul_left 16 (Nat.pow_le_pow_right (by decide) (by omega))
    have hsixteen : (16#16).toNat = 16 := rfl
    rw [BitVec.toNat_shiftLeft, shiftLeft_eq, hsixteen]
    exact mod_eq_of_lt (by omega)
  · simp only [parseBlock, hszx, clear_low]
    rw [BitVec.toNat_shiftLeft, shiftLeft_eq, hclear, blockOffset, Nat.mul_assoc]

/-- The offset that is computed for a value of any length. -/
theorem toNat_offset (bytes : List Byte) :
    (parseBlock (coapParseIntOption bytes)).offset.toNat =
      blockOffset (bytesValue bytes) % 2 ^ 32 := by
  rw [(parseBlock_spec _).2.2, toNat_coapParseIntOption]
  obtain ⟨q, hq⟩ : ∃ q, q = bytesValue bytes / 2 ^ 32 := ⟨_, rfl⟩
  obtain ⟨r, hr⟩ : ∃ r, r = bytesValue bytes % 2 ^ 32 := ⟨_, rfl⟩
  have hsplit : bytesValue bytes = 2 ^ 32 * q + r := by omega
  have hdiv : bytesValue bytes / 16 = 2 ^ 28 * q + r / 16 := by omega
  have hmod : bytesValue bytes % 8 = r % 8 := by omega
  rw [blockOffset, blockOffset, ← hr, hdiv, hmod]
  have hmul : (2 ^ 28 * q + r / 16) * (16 * 2 ^ (r % 8)) =
      r / 16 * (16 * 2 ^ (r % 8)) + 2 ^ 32 * (q * 2 ^ (r % 8)) := by ring
  rw [hmul, add_mul_mod_self_left]

/-- The handlers have the right offset exactly if it fits, or comes out negative. -/
theorem block2Right_iff (base : CoapMessage CStr) (bytes : List Byte) :
    Block2Right base bytes ↔ blockOffset (bytesValue bytes) < 2 ^ 32 ∨
      2 ^ 31 ≤ blockOffset (bytesValue bytes) % 2 ^ 32 := by
  have hblock2 : isBlock2 (blockRequest base bytes) = true := by
    simp [isBlock2, CoapMessage.isOption, blockRequest, CoapOption.number]
  have hoffset := toNat_offset bytes
  rw [Block2Right, serviceOffset, hblock2]
  simp only [if_true, blockRequest]
  have hmod : blockOffset (bytesValue bytes) % 2 ^ 32 < 2 ^ 32 := mod_lt _ (by decide)
  split_ifs with hneg
  · have hge := BitVec.toInt_neg_iff.mp hneg
    rw [hoffset] at hge
    exact iff_of_true (fun _ h => by cases h) (Or.inr (by omega))
  · have hlt : ¬2 ^ 32 ≤ 2 * (parseBlock (coapParseIntOption bytes)).offset.toNat :=
      fun h => hneg (BitVec.toInt_neg_iff.mpr h)
    rw [hoffset] at hlt
    constructor
    · intro h
      have heq := h _ rfl
      rw [hoffset] at heq
      exact Or.inl (by omega)
    · rintro (hfits | hge)
      · rintro _ ⟨⟩
        rw [hoffset]
        exact mod_eq_of_lt hfits
      · omega

/-- The handler for incoming blocks has the right offset exactly if it fits, or the block is
refused. -/
theorem block1Right_iff (base res : CoapMessage CStr) (bytes : List Byte) (target : Bool)
    (maxLen : ℕ) :
    Block1Right base res bytes target maxLen ↔
      blockOffset (bytesValue bytes) < 2 ^ 32 ∨ base.payload.len = 0 ∨
        maxLen < (blockOffset (bytesValue bytes) + base.payload.len) % 2 ^ 32 := by
  have hoffset := toNat_offset bytes
  have hmod : blockOffset (bytesValue bytes) % 2 ^ 32 < 2 ^ 32 := mod_lt _ (by decide)
  have hstop : ((parseBlock (coapParseIntOption bytes)).offset +
      BitVec.ofNat 32 base.payload.len).toNat =
        (blockOffset (bytesValue bytes) + base.payload.len) % 2 ^ 32 := by
    rw [BitVec.toNat_add, hoffset, BitVec.toNat_ofNat, ← add_mod]
  have hright : (block1Request base bytes).block1.offset.toNat = blockOffset (bytesValue bytes) ↔
      blockOffset (bytesValue bytes) < 2 ^ 32 := by
    rw [block1Request, hoffset]
    omega
  have hstatus : (coapBlock1Handler (block1Request base bytes) res target maxLen).status = -1 ↔
      base.payload.len = 0 ∨
        maxLen < (blockOffset (bytesValue bytes) + base.payload.len) % 2 ^ 32 := by
    have hpayload : (block1Request base bytes).payload = base.payload := rfl
    have hfield : (block1Request base bytes).block1 = parseBlock (coapParseIntOption bytes) := rfl
    rw [coapBlock1Handler]
    simp only [hpayload, hfield, hstop]
    split_ifs with hempty hbig
    · exact iff_of_true rfl (Or.inl hempty)
    · exact iff_of_true rfl (Or.inr hbig)
    all_goals
      refine iff_of_false (by decide) ?_
      rintro (h | h)
      · exact hempty h
      · exact hbig h
  rw [Block1Right, hstatus, hright, or_comm]

/-- What the handler for incoming blocks writes. -/
theorem written_coapBlock1Handler (req res : CoapMessage CStr) (target : Bool) (maxLen : ℕ) :
    (coapBlock1Handler req res target maxLen).written =
      if req.payload.len = 0 ∨ maxLen < (req.block1.offset.toNat + req.payload.len) % 2 ^ 32 ∨
        target = false then none else some (req.block1.offset.toNat, req.payload.content) := by
  have hstop : (req.block1.offset + BitVec.ofNat 32 req.payload.len).toNat =
      (req.block1.offset.toNat + req.payload.len) % 2 ^ 32 := by
    rw [BitVec.toNat_add, BitVec.toNat_ofNat, add_mod_mod]
  rw [coapBlock1Handler]
  simp only [hstop]
  by_cases hempty : req.payload.len = 0
  · rw [if_pos hempty, if_pos (Or.inl hempty)]
  · rw [if_neg hempty]
    by_cases hbig : maxLen < (req.block1.offset.toNat + req.payload.len) % 2 ^ 32
    · rw [if_pos hbig, if_pos (Or.inr (Or.inl hbig))]
    · have hnone : (req.payload.len = 0 ∨
          maxLen < (req.block1.offset.toNat + req.payload.len) % 2 ^ 32 ∨ target = false) ↔
            target = false := by
        rw [or_iff_right hempty, or_iff_right hbig]
      rw [if_neg hbig]
      simp only [hnone]
      by_cases hoption : req.isOption CoapOption.block1.number = true
      · rw [if_pos hoption]
        by_cases hmore : req.block1.more ≠ 0
        · rw [if_pos hmore]
          cases target <;> rfl
        · rw [if_neg hmore]
          cases target <;> rfl
      · rw [if_neg hoption]
        cases target <;> rfl

/-- **What is written** is inside of the target exactly if the sum fits, or nothing is written. -/
theorem inBounds_iff (req res : CoapMessage CStr) (target : Bool) (maxLen : ℕ) :
    InBounds req res target maxLen ↔
      req.block1.offset.toNat + req.payload.len < 2 ^ 32 ∨ req.payload.len = 0 ∨
        maxLen < (req.block1.offset.toNat + req.payload.len) % 2 ^ 32 ∨ target = false ∨
          req.block1.offset.toNat + req.payload.len ≤ maxLen := by
  rw [InBounds, written_coapBlock1Handler]
  split_ifs with hnone
  · refine iff_of_true (fun _ _ h => by cases h) ?_
    rcases hnone with h | h | h
    · exact Or.inr (Or.inl h)
    · exact Or.inr (Or.inr (Or.inl h))
    · exact Or.inr (Or.inr (Or.inr (Or.inl h)))
  · have hlength : req.payload.content.length = req.payload.len := length_bytesAt _ _ _
    push Not at hnone
    obtain ⟨hpos, hfits, htarget⟩ := hnone
    constructor
    · intro h
      have hle := h _ _ rfl
      rw [hlength] at hle
      exact Or.inr (Or.inr (Or.inr (Or.inr hle)))
    · rintro (hlt | hzero | hlt | hfalse | hle)
      · rintro _ _ ⟨⟩
        rw [hlength]
        rwa [mod_eq_of_lt hlt] at hfits
      · exact absurd hzero hpos
      · exact absurd hlt (Nat.not_lt.mpr hfits)
      · exact absurd hfalse htarget
      · rintro _ _ ⟨⟩
        rw [hlength]
        exact hle

/-! ## The blocks of a payload -/

section Transfer

variable {cfg : CoapConfig} {resource : Unaware} {base : ℕ → CoapMessage CStr}
  {mid : ℕ → BitVec 16} {szx : BitVec 3} {k fuel : ℕ} {bytes : List Byte}

/-- A payload that is set is cut to what a message has room for. -/
theorem content_coapSetPayload (m : CoapMessage CStr) (cfg : CoapConfig) (payload : List Byte) :
    (coapSetPayload m cfg payload).payload.content = payload.take cfg.maxChunkSize := by
  refine ext_getElem ?_ fun i hi hi' => ?_
  · simp [coapSetPayload, CStr.content]
  · have hlt : i < payload.length := by
      rw [length_take] at hi'
      omega
    simp [coapSetPayload, CStr.content, bytesAt, hlt]

/-- The bytes of a block of a size. -/
def blockBytes (cfg : CoapConfig) (szx : BitVec 3) : ℕ :=
  min (16 * 2 ^ szx.toNat) (coapMaxBlockSize cfg.maxChunkSize).toNat

theorem coapMaxBlockSize_bounds (chunk : ℕ) :
    16 ≤ (coapMaxBlockSize chunk).toNat ∧ (coapMaxBlockSize chunk).toNat ≤ 2048 := by
  rw [coapMaxBlockSize]
  split_ifs <;> decide

theorem size_bounds (szx : BitVec 3) : 16 ≤ 16 * 2 ^ szx.toNat ∧ 16 * 2 ^ szx.toNat ≤ 2048 := by
  have hlt : szx.toNat < 8 := szx.isLt
  have hpos : 1 ≤ 2 ^ szx.toNat := Nat.one_le_two_pow
  have hle : 2 ^ szx.toNat ≤ 2 ^ 7 := Nat.pow_le_pow_right (by decide) (by omega)
  omega

section

variable (hk : k * (16 * 2 ^ szx.toNat) < 2 ^ 31)

include hk

/-- The block option of a request for a block that is not too far on. -/
theorem block2_requestFor :
    (requestFor base szx k).block2.num.toNat = k ∧
      (requestFor base szx k).block2.size.toNat = 16 * 2 ^ szx.toNat ∧
      (requestFor base szx k).block2.offset.toNat = k * (16 * 2 ^ szx.toNat) := by
  have hlt : szx.toNat < 8 := szx.isLt
  have hsmall : k * 16 ≤ k * (16 * 2 ^ szx.toNat) :=
    Nat.mul_le_mul_left k (Nat.le_mul_of_pos_right 16 (Nat.two_pow_pos _))
  have hvalue : (BitVec.ofNat 32 (k * 16 + szx.toNat)).toNat = k * 16 + szx.toNat := by
    rw [BitVec.toNat_ofNat]
    exact mod_eq_of_lt (by omega)
  have hdiv : (k * 16 + szx.toNat) / 16 = k := by omega
  have hmod : (k * 16 + szx.toNat) % 8 = szx.toNat := by omega
  obtain ⟨hnum, hsize, hoffset⟩ := parseBlock_spec (BitVec.ofNat 32 (k * 16 + szx.toNat))
  rw [hvalue] at hnum hsize hoffset
  rw [blockOffset] at hoffset
  rw [hdiv] at hnum hoffset
  rw [hmod] at hsize hoffset
  rw [mod_eq_of_lt (by omega)] at hoffset
  simp only [requestFor, blockRequest, coapParseIntOption_intBytes]
  exact ⟨hnum, hsize, hoffset⟩

theorem toNat_blockSize :
    (blockSize cfg (requestFor base szx k)).toNat = blockBytes cfg szx := by
  have hblock2 : isBlock2 (requestFor base szx k) = true := by
    simp [isBlock2, CoapMessage.isOption, requestFor, blockRequest, CoapOption.number]
  obtain ⟨_, hsize, _⟩ := @block2_requestFor base szx k hk
  rw [blockSize, hblock2, blockBytes, ← hsize]
  by_cases hlt : (requestFor base szx k).block2.size.toNat <
      (coapMaxBlockSize cfg.maxChunkSize).toNat
  · rw [if_pos ⟨rfl, hlt⟩, Nat.min_eq_left hlt.le]
  · rw [if_neg fun h => hlt h.2, Nat.min_eq_right (Nat.not_lt.mp hlt)]

/-- A resource that is not aware of blocks gets the whole payload cut. -/
theorem coapReceiveRequest_unaware :
    ∃ res : CoapMessage CStr, res.code.toNat < 0x80 ∧
      coapReceiveRequest cfg (mid k) (requestFor base szx k) (resource.service cfg) =
        cutBlock cfg (requestFor base szx k) (coapSetPayload res cfg resource.payload)
          (blockSize cfg (requestFor base szx k)) (requestFor base szx k).block2.offset := by
  have hblock2 : isBlock2 (requestFor base szx k) = true := by
    simp [isBlock2, CoapMessage.isOption, requestFor, blockRequest, CoapOption.number]
  have hblock1 : (requestFor base szx k).isOption CoapOption.block1.number = false := by
    simp [CoapMessage.isOption, requestFor, blockRequest, CoapOption.number]
  obtain ⟨_, _, hoffset⟩ := @block2_requestFor base szx k hk
  have hservice : serviceOffset (requestFor base szx k) =
      some (requestFor base szx k).block2.offset := by
    rw [serviceOffset, hblock2]
    simp only [if_true]
    refine if_neg fun hneg => ?_
    have hge := BitVec.toInt_neg_iff.mp hneg
    omega
  refine ⟨resource.options (requestFor base szx k) (prepareResponse (mid k) (requestFor base szx k)),
    resource.success _ _ ?_, ?_⟩
  · rw [prepareResponse]
    split_ifs <;> rfl
  · rw [coapReceiveRequest, hservice]
    simp only [Unaware.service, hblock1, Bool.false_eq_true, false_and, if_false]
    rw [handleBlocks, hblock2]
    simp only [if_true]

end

/-- The block option that is set, if it is within its bounds. -/
theorem coapSetHeaderBlock2_spec (m : CoapMessage CStr) {num : BitVec 32} {size : BitVec 16}
    (hargs : blockArgs num size) :
    (∀ more, (coapSetHeaderBlock2 m num more size).code = m.code) ∧
      (∀ more, (coapSetHeaderBlock2 m num more size).isOption CoapOption.block2.number = true) ∧
      ∀ more, (coapSetHeaderBlock2 m num more size).block2.more = if more ≠ 0 then 1 else 0 := by
  have hset : ∀ more, coapSetHeaderBlock2 m num more size = _ := fun more => if_pos hargs
  refine ⟨fun more => ?_, fun more => ?_, fun more => ?_⟩
  · rw [hset]
    rfl
  · rw [hset]
    simp [CoapMessage.setOption, CoapMessage.isOption, CoapOption.number]
  · rw [hset]
    rfl

/-- **The answer to a request for a block**: an error behind the payload, and else the block, with the
flag if there is more. -/
theorem reply_spec (hk : k * (16 * 2 ^ szx.toNat) < 2 ^ 31) (hnum : k ≤ 0x0FFFFF) :
    let reply := coapReceiveRequest cfg (mid k) (requestFor base szx k) (resource.service cfg)
    let payload := resource.payload.take cfg.maxChunkSize
    let offset := k * (16 * 2 ^ szx.toNat)
    if payload.length ≤ offset then 0x80 ≤ reply.code.toNat
    else reply.code.toNat < 0x80 ∧
      ((reply.isOption CoapOption.block2.number = true ∧ reply.block2.more = 1) ↔
        blockBytes cfg szx < payload.length - offset) ∧
      reply.payload.content = (payload.drop offset).take (blockBytes cfg szx) := by
  obtain ⟨res, hcode, hreply⟩ :=
    @coapReceiveRequest_unaware cfg resource base mid szx k hk
  obtain ⟨hblockNum, _, hoffset⟩ := @block2_requestFor base szx k hk
  have hsize := @toNat_blockSize cfg base szx k hk
  have hlen : (coapSetPayload res cfg resource.payload).payload.len =
      (resource.payload.take cfg.maxChunkSize).length := by
    rw [length_take]
    rfl
  have hargs : blockArgs (requestFor base szx k).block2.num
      (blockSize cfg (requestFor base szx k)) := by
    have hsizes := size_bounds szx
    have hmax := coapMaxBlockSize_bounds cfg.maxChunkSize
    rw [blockBytes] at hsize
    exact ⟨by omega, by omega, by omega⟩
  obtain ⟨hsetCode, hsetOption, hsetMore⟩ :=
    coapSetHeaderBlock2_spec (coapSetPayload res cfg resource.payload) hargs
  simp only [hreply]
  rw [cutBlock, hlen, hoffset, content_coapSetPayload, hsize]
  split_ifs with hbehind
  · show 0x80 ≤ (0x82 : Byte).toNat
    decide
  · have hroom : (resource.payload.take cfg.maxChunkSize).length ≤ cfg.maxChunkSize := by
      rw [length_take]
      exact Nat.min_le_left _ _
    dsimp only
    refine ⟨?_, ?_, ?_⟩
    · exact lt_of_eq_of_lt (congrArg BitVec.toNat (hsetCode _)) hcode
    · have hoption : ∀ (m : CoapMessage CStr) (p : List Byte),
          (coapSetPayload m cfg p).isOption = m.isOption := fun _ _ => rfl
      have hmoreKept : ∀ (m : CoapMessage CStr) (p : List Byte),
          (coapSetPayload m cfg p).block2.more = m.block2.more := fun _ _ => rfl
      rw [hoption, hsetOption, hmoreKept, hsetMore]
      refine (and_iff_right rfl).trans ?_
      by_cases hmore : blockBytes cfg szx <
          (resource.payload.take cfg.maxChunkSize).length - k * (16 * 2 ^ szx.toNat)
      · exact iff_of_true (by rw [if_pos hmore]; decide) hmore
      · exact iff_of_false (by rw [if_neg hmore]; decide) hmore
    · rw [content_coapSetPayload, take_take, take_eq_take_iff, length_drop]
      omega

/-- What is left of the payload for a block and those after it. -/
def remaining (cfg : CoapConfig) (resource : Unaware) (szx : BitVec 3) (k : ℕ) : List Byte :=
  (resource.payload.take cfg.maxChunkSize).drop (k * (16 * 2 ^ szx.toNat))

theorem remaining_succ (cfg : CoapConfig) (resource : Unaware) (szx : BitVec 3) (k : ℕ) :
    remaining cfg resource szx (k + 1) =
      (remaining cfg resource szx k).drop (16 * 2 ^ szx.toNat) := by
  rw [remaining, remaining, drop_drop, succ_mul]

/-- The step of the collection: an error if nothing is left, and else a block, with what comes after
it if there is more. -/
theorem collect_succ (hk : k * (16 * 2 ^ szx.toNat) < 2 ^ 17) (fuel : ℕ) :
    collect (fun k => coapReceiveRequest cfg (mid k) (requestFor base szx k) (resource.service cfg))
      (fuel + 1) k =
        if remaining cfg resource szx k = [] then none
        else if blockBytes cfg szx < (remaining cfg resource szx k).length then
          (collect (fun k =>
            coapReceiveRequest cfg (mid k) (requestFor base szx k) (resource.service cfg)) fuel
              (k + 1)).map
              ((remaining cfg resource szx k).take (blockBytes cfg szx) ++ ·)
        else some (remaining cfg resource szx k) := by
  have hnum : k * 16 ≤ k * (16 * 2 ^ szx.toNat) :=
    Nat.mul_le_mul_left k (Nat.le_mul_of_pos_right 16 (Nat.two_pow_pos _))
  have hspec := @reply_spec cfg resource base mid szx k (by omega) (by omega)
  have hnil : remaining cfg resource szx k = [] ↔
      (resource.payload.take cfg.maxChunkSize).length ≤ k * (16 * 2 ^ szx.toNat) :=
    drop_eq_nil_iff
  have hlength : (remaining cfg resource szx k).length =
      (resource.payload.take cfg.maxChunkSize).length - k * (16 * 2 ^ szx.toNat) :=
    length_drop
  rw [collect]
  dsimp only at hspec ⊢
  by_cases hbehind : (resource.payload.take cfg.maxChunkSize).length ≤ k * (16 * 2 ^ szx.toNat)
  · rw [if_pos hbehind] at hspec
    rw [if_pos hspec, if_pos (hnil.mpr hbehind)]
  · rw [if_neg hbehind] at hspec
    obtain ⟨hcode, hmore, hcontent⟩ := hspec
    rw [if_neg (Nat.not_le.mpr hcode), if_neg fun h => hbehind (hnil.mp h), hcontent, hlength]
    by_cases hlt : blockBytes cfg szx <
        (resource.payload.take cfg.maxChunkSize).length - k * (16 * 2 ^ szx.toNat)
    · rw [if_pos (hmore.mpr hlt), if_pos hlt, remaining]
    · rw [if_neg fun h => hlt (hmore.mp h), if_neg hlt]
      exact congrArg some (take_of_length_le (by rw [length_drop]; omega))

/-- The blocks from one on are what is left of the payload, if a block is as long as the offsets
say. -/
theorem collect_remaining (hsize : 16 * 2 ^ szx.toNat ≤ (coapMaxBlockSize cfg.maxChunkSize).toNat) :
    ∀ (left k : ℕ), (resource.payload.take cfg.maxChunkSize).length =
      k * (16 * 2 ^ szx.toNat) + (left + 1) → ∃ fuel, collect (fun k =>
        coapReceiveRequest cfg (mid k) (requestFor base szx k) (resource.service cfg)) fuel k =
          some (remaining cfg resource szx k) := by
  intro left
  have hfits := cfg.fits
  have hroom : (resource.payload.take cfg.maxChunkSize).length ≤ cfg.maxChunkSize := by
    rw [length_take]
    exact Nat.min_le_left _ _
  have hblock : blockBytes cfg szx = 16 * 2 ^ szx.toNat := Nat.min_eq_left hsize
  have hsizes := size_bounds szx
  induction left using Nat.strong_induction_on with
  | _ left ih =>
    intro k hleft
    have hlength : (remaining cfg resource szx k).length = left + 1 := by
      rw [remaining, length_drop]
      omega
    have hnil : remaining cfg resource szx k ≠ [] := ne_nil_of_length_pos (by omega)
    by_cases hmore : 16 * 2 ^ szx.toNat < left + 1
    · obtain ⟨fuel, hfuel⟩ := ih (left - 16 * 2 ^ szx.toNat) (by omega) (k + 1) (by
        rw [succ_mul]
        omega)
      refine ⟨fuel + 1, ?_⟩
      rw [collect_succ (by omega), if_neg hnil, hlength, hblock, if_pos hmore, hfuel, remaining_succ]
      exact congrArg some (take_append_drop _ _)
    · refine ⟨1, ?_⟩
      rw [collect_succ (by omega), if_neg hnil, hlength, hblock, if_neg hmore]

/-- The blocks from one on are not more than what is left of the payload, and less if a block is
shorter than the offsets say and not the last. -/
theorem length_collect : ∀ {fuel k : ℕ} {bytes : List Byte},
    k * (16 * 2 ^ szx.toNat) < 2 ^ 16 + 2048 →
    collect (fun k => coapReceiveRequest cfg (mid k) (requestFor base szx k) (resource.service cfg))
      fuel k = some bytes →
    remaining cfg resource szx k ≠ [] ∧ bytes.length ≤ (remaining cfg resource szx k).length ∧
      (blockBytes cfg szx < 16 * 2 ^ szx.toNat →
        blockBytes cfg szx < (remaining cfg resource szx k).length →
          bytes.length < (remaining cfg resource szx k).length) := by
  have hsizes := size_bounds szx
  have hblock : blockBytes cfg szx ≤ 16 * 2 ^ szx.toNat := Nat.min_le_left _ _
  have hfits := cfg.fits
  have hroom : (resource.payload.take cfg.maxChunkSize).length ≤ cfg.maxChunkSize := by
    rw [length_take]
    exact Nat.min_le_left _ _
  intro fuel
  induction fuel with
  | zero => exact fun _ h => by cases h
  | succ fuel ih =>
    intro k bytes hk hcollect
    rw [collect_succ (by omega)] at hcollect
    split_ifs at hcollect with hnil hmore
    · have hlength : (remaining cfg resource szx k).length =
          (resource.payload.take cfg.maxChunkSize).length - k * (16 * 2 ^ szx.toNat) :=
        length_drop
      have hpos := length_pos_of_ne_nil hnil
      obtain ⟨rest, hrest, rfl⟩ := Option.map_eq_some_iff.mp hcollect
      obtain ⟨hne, hle, -⟩ := ih (by rw [succ_mul]; omega) hrest
      rw [remaining_succ] at hne hle
      have hposAfter := length_pos_of_ne_nil hne
      rw [length_drop] at hle hposAfter
      rw [length_append, length_take]
      exact ⟨hnil, by omega, fun _ _ => by omega⟩
    · cases hcollect
      exact ⟨hnil, le_refl _, fun _ h => absurd h hmore⟩

/-- **The blocks make up the payload** exactly if it is not empty, a message has room for it, and a
block is as long as the offsets say or the only one. -/
theorem transferred_iff (cfg : CoapConfig) (resource : Unaware) (base : ℕ → CoapMessage CStr)
    (mid : ℕ → BitVec 16) (szx : BitVec 3) :
    Transferred cfg resource base mid szx ↔ 0 < resource.payload.length ∧
      resource.payload.length ≤ cfg.maxChunkSize ∧
        (16 * 2 ^ szx.toNat ≤ (coapMaxBlockSize cfg.maxChunkSize).toNat ∨
          resource.payload.length ≤ (coapMaxBlockSize cfg.maxChunkSize).toNat) := by
  have hzero : remaining cfg resource szx 0 = resource.payload.take cfg.maxChunkSize := by
    rw [remaining, Nat.zero_mul, drop_zero]
  have hlength : (resource.payload.take cfg.maxChunkSize).length =
      min cfg.maxChunkSize resource.payload.length := length_take
  constructor
  · rintro ⟨fuel, hfuel⟩
    obtain ⟨hne, hle, hlt⟩ := length_collect (by omega) hfuel
    rw [hzero, hlength] at hle hlt
    rw [hzero] at hne
    have hpos := length_pos_of_ne_nil hne
    refine ⟨by omega, by omega, ?_⟩
    by_contra hneither
    push Not at hneither
    have hblock : blockBytes cfg szx = (coapMaxBlockSize cfg.maxChunkSize).toNat :=
      Nat.min_eq_right hneither.1.le
    have := hlt (by omega) (by omega)
    omega
  · rintro ⟨hpos, hle, hsize⟩
    have htake : resource.payload.take cfg.maxChunkSize = resource.payload :=
      take_of_length_le hle
    by_cases hfits : 16 * 2 ^ szx.toNat ≤ (coapMaxBlockSize cfg.maxChunkSize).toNat
    · obtain ⟨fuel, hfuel⟩ := @collect_remaining cfg resource base mid szx hfits
        (resource.payload.length - 1) 0 (by rw [htake]; omega)
      exact ⟨fuel, by rw [hfuel, hzero, htake]⟩
    · refine ⟨1, ?_⟩
      have hblock : blockBytes cfg szx = (coapMaxBlockSize cfg.maxChunkSize).toNat :=
        Nat.min_eq_right (Nat.le_of_not_le hfits)
      have hshort := hsize.resolve_left hfits
      rw [collect_succ (by omega), hzero, htake, if_neg (ne_nil_of_length_pos hpos),
        if_neg (by omega)]

end Transfer

/-! ## When it is as wanted -/

/-- A resource with a payload, that sets no options. -/
def plainResource (payload : List Byte) : Unaware where
  options _ res := res
  payload
  success _ res h := by rw [h]; decide

/-- A request with a payload. -/
def payloadRequest (length : ℕ) : CoapMessage CStr :=
  { coapInitMessage .con 3 0 with payload := ⟨fun _ => 1, length⟩ }

/-- A configuration with chunks of 100 bytes, and a largest block of 64. -/
def oddConfig : CoapConfig := ⟨62, 100, by decide⟩

end Asap.Coap
