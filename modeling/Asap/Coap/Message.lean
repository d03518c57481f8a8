import Asap.Lib.Access
import Mathlib

/-!
# CoAP messages and their parser

A datagram is parsed in place: strings of the parsed message are slices of the buffer, and an
option that is repeated is moved behind the one before it, with a separator between them. One
cursor goes over the buffer. What it meets is a header of an option, with nibbles for the
difference to the number before and for the length and up to two bytes that extend each, then
the value; or the marker, behind which everything is payload.

The type of a string is a parameter of the message. It is a slice where a message was parsed,
and a pointer with a length where one is built.

## Main definitions

* `CoapOption`, `CoapMessage` — the options with a meaning, and the message with their values.
* `coapParseMessage` — the parser, over the memory of the buffer.
-/

namespace Asap.Coap

open Lib

/-- `COAP_HEADER_LEN`. -/
abbrev coapHeaderLen : ℕ := 4

/-- `COAP_TOKEN_LEN`. -/
abbrev coapTokenLen : ℕ := 8

/-- `COAP_ETAG_LEN`. -/
abbrev coapEtagLen : ℕ := 8

/-- `coap_message_type_t`. -/
inductive CoapType
  | con
  | non
  | ack
  | rst
  deriving DecidableEq

namespace CoapType

/-- The two bits of a type. -/
def bits : CoapType → BitVec 2
  | con => 0
  | non => 1
  | ack => 2
  | rst => 3

/-- The type with these bits. -/
def ofBits (b : BitVec 2) : CoapType :=
  if b = 0 then con else if b = 1 then non else if b = 2 then ack else rst

end CoapType

/-- What parsing may say, of `coap_status_t`. -/
inductive CoapStatus
  | noError
  | badRequest
  | badOption
  | proxyingNotSupported
  deriving DecidableEq

/-- `coap_option_t`. -/
inductive CoapOption
  | ifMatch
  | uriHost
  | etag
  | ifNoneMatch
  | observe
  | uriPort
  | locationPath
  | uriPath
  | contentFormat
  | maxAge
  | uriQuery
  | accept
  | locationQuery
  | block2
  | block1
  | size2
  | proxyUri
  | proxyScheme
  | size1
  deriving DecidableEq

namespace CoapOption

/-- The number of an option. -/
def number : CoapOption → ℕ
  | ifMatch => 1
  | uriHost => 3
  | etag => 4
  | ifNoneMatch => 5
  | observe => 6
  | uriPort => 7
  | locationPath => 8
  | uriPath => 11
  | contentFormat => 12
  | maxAge => 14
  | uriQuery => 15
  | accept => 17
  | locationQuery => 20
  | block2 => 23
  | block1 => 27
  | size2 => 28
  | proxyUri => 35
  | proxyScheme => 39
  | size1 => 60

/-- The option with a number. -/
def ofNumber (number : ℕ) : Option CoapOption :=
  match number with
  | 1 => some ifMatch
  | 3 => some uriHost
  | 4 => some etag
  | 5 => some ifNoneMatch
  | 6 => some observe
  | 7 => some uriPort
  | 8 => some locationPath
  | 11 => some uriPath
  | 12 => some contentFormat
  | 14 => some maxAge
  | 15 => some uriQuery
  | 17 => some accept
  | 20 => some locationQuery
  | 23 => some block2
  | 27 => some block1
  | 28 => some size2
  | 35 => some proxyUri
  | 39 => some proxyScheme
  | 60 => some size1
  | _ => none

@[simp] theorem ofNumber_number (o : CoapOption) : ofNumber o.number = some o := by
  cases o <;> rfl

end CoapOption

/-- The fields of a message that are strings. -/
inductive CoapString
  | proxyUri
  | proxyScheme
  | uriHost
  | locationPath
  | locationQuery
  | uriPath
  | uriQuery
  deriving DecidableEq

/-- The number of the option that a string is the value of. -/
def CoapString.number : CoapString → ℕ
  | .proxyUri => CoapOption.proxyUri.number
  | .proxyScheme => CoapOption.proxyScheme.number
  | .uriHost => CoapOption.uriHost.number
  | .locationPath => CoapOption.locationPath.number
  | .locationQuery => CoapOption.locationQuery.number
  | .uriPath => CoapOption.uriPath.number
  | .uriQuery => CoapOption.uriQuery.number

/-- A piece of the buffer. -/
structure Slice where
  start : ℕ
  len : ℕ
  deriving DecidableEq

/-- The offset behind a slice. -/
abbrev Slice.stop (s : Slice) : ℕ := s.start + s.len

/-- The fields of a block option. -/
structure Block where
  num : BitVec 32
  more : Byte
  size : BitVec 16
  offset : BitVec 32
  deriving DecidableEq

/-- `coap_message_t`, with `S` for a pointer with a length. -/
structure CoapMessage (S : Type) where
  version : ℕ
  type : CoapType
  code : Byte
  mid : BitVec 16
  tokenLen : ℕ
  token : List Byte
  options : ℕ → Bool
  contentFormat : BitVec 16
  maxAge : BitVec 32
  etag : List Byte
  strings : CoapString → S
  uriPort : BitVec 16
  observe : BitVec 32
  accept : BitVec 16
  ifMatch : List Byte
  block2 : Block
  block1 : Block
  size2 : BitVec 32
  size1 : BitVec 32
  ifNoneMatch : Byte
  payload : S

namespace CoapMessage

variable {S : Type}

/-- A message of zeros, where `null` is the null pointer with length zero. -/
def zero (null : S) : CoapMessage S where
  version := 0
  type := .con
  code := 0
  mid := 0
  tokenLen := 0
  token := []
  options := fun _ => false
  contentFormat := 0
  maxAge := 0
  etag := []
  strings := fun _ => null
  uriPort := 0
  observe := 0
  accept := 0
  ifMatch := []
  block2 := ⟨0, 0, 0, 0⟩
  block1 := ⟨0, 0, 0, 0⟩
  size2 := 0
  size1 := 0
  ifNoneMatch := 0
  payload := null

/-- `coap_set_option`. -/
def setOption (m : CoapMessage S) (opt : ℕ) : CoapMessage S :=
  if CoapOption.size1.number < opt then m
  else { m with options := Function.update m.options opt true }

/-- `coap_is_option`. -/
def isOption (m : CoapMessage S) (opt : ℕ) : Bool :=
  opt ≤ CoapOption.size1.number && m.options opt

/-- A string is set. -/
def setString (m : CoapMessage S) (field : CoapString) (s : S) : CoapMessage S :=
  { m with strings := Function.update m.strings field s }

end CoapMessage

/-- What `coap_parse_message` returns, with the error message that it sets and the message as
far as it was parsed. -/
structure Parsed where
  status : CoapStatus
  errorMessage : Option String
  message : CoapMessage Slice

/-! ## The options -/

/-- `coap_parse_int_option`. -/
def coapParseIntOption (bytes : List Byte) : BitVec 32 :=
  bytes.foldl (fun var b => var <<< 8 ||| b.setWidth 32) 0

/-- The fields of a block option from its value. -/
def parseBlock (num : BitVec 32) : Block where
  num := num >>> 4
  more := ((num &&& 0x08) >>> 3).setWidth 8
  size := 16#16 <<< (num &&& 0x07).toNat
  offset := (num &&& ~~~0x0000000F) <<< (num &&& 0x07).toNat

/-- `coap_merge_multi_option`: the option goes behind the string, if there is one. -/
def coapMergeMultiOption (dst option : Slice) (separator : Byte) : Access Slice :=
  if 0 < dst.len then do
    Access.write dst.stop [separator]
    let bytes ← Access.bytes option.start option.len
    Access.write (dst.stop + 1) bytes
    return ⟨dst.start, dst.len + 1 + option.len⟩
  else return option

section

variable (option : Slice) (m : CoapMessage Slice)

/-- An option whose value is a number. -/
def parseInt (set : CoapMessage Slice → BitVec 32 → CoapMessage Slice) :
    Access (Except Parsed (CoapMessage Slice)) := do
  let bytes ← Access.bytes option.start option.len
  return .ok (set m (coapParseIntOption bytes))

/-- An option whose first bytes are copied. -/
def parseArray (set : CoapMessage Slice → List Byte → CoapMessage Slice) :
    Access (Except Parsed (CoapMessage Slice)) := do
  let bytes ← Access.bytes option.start (min coapEtagLen option.len)
  return .ok (set m bytes)

/-- An option that is merged with those of the same number before it. -/
def parseMerged (field : CoapString) (separator : Byte) :
    Access (Except Parsed (CoapMessage Slice)) := do
  let s ← coapMergeMultiOption (m.strings field) option separator
  return .ok (m.setString field s)

end

/-- The case of the parser for each number, with the value at `option`. -/
def coapParseOption (number : ℕ) (option : Slice) (m : CoapMessage Slice) :
    Access (Except Parsed (CoapMessage Slice)) :=
  let m := m.setOption number
  match CoapOption.ofNumber number with
  | some .contentFormat =>
    parseInt option m fun m v => { m with contentFormat := v.setWidth 16 }
  | some .maxAge => parseInt option m fun m v => { m with maxAge := v }
  | some .etag => parseArray option m fun m bytes => { m with etag := bytes }
  | some .accept => parseInt option m fun m v => { m with accept := v.setWidth 16 }
  | some .ifMatch => parseArray option m fun m bytes => { m with ifMatch := bytes }
  | some .ifNoneMatch => return .ok { m with ifNoneMatch := 1 }
  | some .proxyUri | some .proxyScheme =>
    -- without `COAP_PROXY_OPTION_PROCESSING` the string is not kept
    return .error ⟨.proxyingNotSupported, some "This is a constrained server (Contiki)", m⟩
  | some .uriHost => return .ok (m.setString .uriHost option)
  | some .uriPort => parseInt option m fun m v => { m with uriPort := v.setWidth 16 }
  | some .uriPath => parseMerged option m .uriPath 0x2F
  | some .uriQuery => parseMerged option m .uriQuery 0x26
  | some .locationPath => parseMerged option m .locationPath 0x2F
  | some .locationQuery => parseMerged option m .locationQuery 0x26
  | some .observe => parseInt option m fun m v => { m with observe := v }
  | some .block2 => parseInt option m fun m v => { m with block2 := parseBlock v }
  | some .block1 => parseInt option m fun m v => { m with block1 := parseBlock v }
  | some .size2 => parseInt option m fun m v => { m with size2 := v }
  | some .size1 => parseInt option m fun m v => { m with size1 := v }
  | none =>
    -- critical options are odd
    if number % 2 = 1 then
      return .error ⟨.badOption, some "Unsupported critical option", m⟩
    else return .ok m

/-! ## The cursor -/

/-- What the header of an option says, and the offset behind it. -/
structure OptionHeader where
  delta : ℕ
  length : ℕ
  stop : ℕ

/-- The value of a nibble with the bytes that extend it, and the offset behind these. -/
def coapOptionExtension (nibble cur : ℕ) : Access (ℕ × ℕ) :=
  if nibble = 13 then do
    let b ← Access.byte cur
    return (nibble + b.toNat, cur + 1)
  else if nibble = 14 then do
    let high ← Access.byte cur
    let low ← Access.byte (cur + 1)
    return (nibble + 255 + high.toNat <<< 8 + low.toNat, cur + 2)
  else return (nibble, cur)

/-- The header of an option. -/
def coapOptionHeader (cur : ℕ) (first : Byte) : Access OptionHeader := do
  let delta ← coapOptionExtension (first >>> 4).toNat (cur + 1)
  let length ← coapOptionExtension (first &&& 0x0F).toNat delta.2
  return ⟨delta.1, length.1, length.2⟩

/-- The payload marker, of which four bits are looked at. -/
def isMarker (first : Byte) : Prop := first &&& 0xF0 = 0xF0

instance (first : Byte) : Decidable (isMarker first) := inferInstanceAs (Decidable (_ = _))

/-- The payload behind a marker, of `chunk` bytes at most. -/
def payloadBehind (chunk dataLen cur : ℕ) : Slice :=
  ⟨cur + 1, min (dataLen - (cur + 1)) chunk⟩

/-- What a round of the loop comes to. -/
inductive Round
  | done (parsed : Parsed)
  | next (cur number : ℕ) (m : CoapMessage Slice)

/-- The value behind a header, if it is inside the datagram and its number is not too large. -/
def coapParseValue (dataLen number : ℕ) (header : OptionHeader) (m : CoapMessage Slice) :
    Access (Except Parsed (CoapMessage Slice)) :=
  if dataLen < header.stop + header.length then return .error ⟨.badRequest, none, m⟩
  else if CoapOption.size1.number < number + header.delta then
    return .error ⟨.badRequest, none, m⟩
  else coapParseOption (number + header.delta) ⟨header.stop, header.length⟩ m

/-- The body of the loop of `coap_parse_message`, for the byte at the cursor. `chunk` is
`COAP_MAX_CHUNK_SIZE`. -/
def coapParseRound (chunk dataLen cur number : ℕ) (m : CoapMessage Slice) (first : Byte) :
    Access Round :=
  if isMarker first then do
    -- the payload is terminated, also when it ends with the data
    Access.write (payloadBehind chunk dataLen cur).stop [0]
    return .done ⟨.noError, none, { m with payload := payloadBehind chunk dataLen cur }⟩
  else do
    let header ← coapOptionHeader cur first
    let result ← coapParseValue dataLen number header m
    match result with
    | .error parsed => return .done parsed
    | .ok m => return .next (header.stop + header.length) (number + header.delta) m

/-- The loop, in at most so many rounds. -/
def coapParseOptions (chunk dataLen : ℕ) : ℕ → ℕ → ℕ → CoapMessage Slice → Access (Option Parsed)
  | 0, _, _, _ => return none
  | fuel + 1, cur, number, m =>
    if cur < dataLen then do
      let first ← Access.byte cur
      let round ← coapParseRound chunk dataLen cur number m first
      match round with
      | .done parsed => return some parsed
      | .next cur number m => coapParseOptions chunk dataLen fuel cur number m
    else return some ⟨.noError, none, m⟩

/-- The fields of the header. -/
def parseHeader (b0 b1 b2 b3 : Byte) : CoapMessage Slice :=
  { CoapMessage.zero ⟨0, 0⟩ with
    version := ((0xC0 &&& b0) >>> 6).toNat
    type := .ofBits (((0x30 &&& b0) >>> 4).setWidth 2)
    tokenLen := (0x0F &&& b0).toNat
    code := b1
    mid := b2.setWidth 16 <<< 8 ||| b3.setWidth 16 }

/-- What follows the fixed header. -/
def coapParseBehindHeader (chunk dataLen : ℕ) (m : CoapMessage Slice) : Access (Option Parsed) :=
  if m.version ≠ 1 then return some ⟨.badRequest, some "CoAP version must be 1", m⟩
  else if coapTokenLen < m.tokenLen then
    return some ⟨.badRequest, some "Token Length must not be more than 8", m⟩
  else do
    let token ← Access.bytes coapHeaderLen m.tokenLen
    coapParseOptions chunk dataLen (dataLen + 1) (coapHeaderLen + m.tokenLen) 0
      { m with token := token }

/-- `coap_parse_message`, for the `dataLen` bytes at the start of the memory. -/
def coapParseMessage (chunk dataLen : ℕ) : Access (Option Parsed) := do
  let b0 ← Access.byte 0
  let b1 ← Access.byte 1
  let b2 ← Access.byte 2
  let b3 ← Access.byte 3
  coapParseBehindHeader chunk dataLen (parseHeader b0 b1 b2 b3)

end Asap.Coap
