import Asap.Coap.Message

/-!
# Building and serializing CoAP messages

A message is built by setters that keep a pointer to the string of the caller, and is written
with its options in the order of their numbers. A string with a separator becomes an option for
each piece. The loop that splits it goes one byte past the end of the string, and steps over the
byte behind a separator without looking at it.

## Main definitions

* `CString`, `CStr` — a string of the caller, and the pointer with a length that is kept of it.
* `Setter`, `build` — the setters, and the message after some of them.
* `coapSerializeMessage` — the bytes of a message.
-/

namespace Asap.Coap

open Lib

/-- `COAP_MAX_HEADER_SIZE` and `COAP_MAX_CHUNK_SIZE`; the length of a message has two bytes. -/
structure CoapConfig where
  maxHeaderSize : ℕ
  maxChunkSize : ℕ
  fits : maxHeaderSize + 1 + maxChunkSize < 65536

/-- A pointer with a length: the bytes from the pointer on. -/
structure CStr where
  bytes : ℕ → Byte
  len : ℕ

/-- The bytes of a string. -/
def CStr.content (s : CStr) : List Byte := bytesAt s.bytes 0 s.len

/-- A string that ends with a zero, and the memory behind it. -/
structure CString where
  chars : List Byte
  ne_zero : 0 ∉ chars
  behind : ℕ → Byte

namespace CString

section

variable (s : CString)

/-- The memory from the start of a string on. -/
def memory : ℕ → Byte := fun i => (s.chars ++ [0])[i]?.getD (s.behind i)

/-- `strlen` -/
def strlen : ℕ := s.chars.length

/-- The string from a later position on. -/
def drop (k : ℕ) : CString where
  chars := s.chars.drop k
  ne_zero := fun h => s.ne_zero (List.mem_of_mem_drop h)
  behind := fun i => s.behind (i + k)

/-- The string behind the leading characters `c`. -/
def skip (c : Byte) : CString := s.drop (s.chars.takeWhile (· == c)).length

/-- `strchr` -/
def strchr (c : Byte) : Option ℕ := s.chars.findIdx? (· == c)

/-- The pointer with the length of the string. -/
def toCStr : CStr := ⟨s.memory, s.strlen⟩

end

end CString

/-! ## The setters -/

section Setters

variable (m : CoapMessage CStr)

/-- `coap_init_message` -/
def coapInitMessage (type : CoapType) (code : Byte) (mid : BitVec 16) : CoapMessage CStr :=
  { CoapMessage.zero ⟨fun _ => 0, 0⟩ with type, code, mid }

/-- `coap_set_status_code` -/
def coapSetStatusCode (code : ℕ) : CoapMessage CStr :=
  if code ≤ 0xFF then { m with code := BitVec.ofNat 8 code } else m

/-- `coap_set_token` -/
def coapSetToken (token : List Byte) : CoapMessage CStr :=
  { m with tokenLen := min coapTokenLen token.length, token := token.take coapTokenLen }

/-- `coap_set_header_content_format` -/
def coapSetHeaderContentFormat (format : BitVec 32) : CoapMessage CStr :=
  { m with contentFormat := format.setWidth 16 }.setOption CoapOption.contentFormat.number

/-- `coap_set_header_accept` -/
def coapSetHeaderAccept (accept : BitVec 32) : CoapMessage CStr :=
  { m with accept := accept.setWidth 16 }.setOption CoapOption.accept.number

/-- `coap_set_header_max_age` -/
def coapSetHeaderMaxAge (age : BitVec 32) : CoapMessage CStr :=
  { m with maxAge := age }.setOption CoapOption.maxAge.number

/-- `coap_set_header_etag` -/
def coapSetHeaderEtag (etag : List Byte) : CoapMessage CStr :=
  { m with etag := etag.take coapEtagLen }.setOption CoapOption.etag.number

/-- `coap_set_header_if_match` -/
def coapSetHeaderIfMatch (etag : List Byte) : CoapMessage CStr :=
  { m with ifMatch := etag.take coapEtagLen }.setOption CoapOption.ifMatch.number

/-- `coap_set_header_if_none_match` -/
def coapSetHeaderIfNoneMatch : CoapMessage CStr := m.setOption CoapOption.ifNoneMatch.number

/-- `coap_set_header_proxy_uri` -/
def coapSetHeaderProxyUri (uri : CString) : CoapMessage CStr :=
  (m.setString .proxyUri uri.toCStr).setOption CoapOption.proxyUri.number

/-- `coap_set_header_uri_host` -/
def coapSetHeaderUriHost (host : CString) : CoapMessage CStr :=
  (m.setString .uriHost host.toCStr).setOption CoapOption.uriHost.number

/-- `coap_set_header_uri_path` -/
def coapSetHeaderUriPath (path : CString) : CoapMessage CStr :=
  (m.setString .uriPath (path.skip 0x2F).toCStr).setOption CoapOption.uriPath.number

/-- `coap_set_header_uri_query` -/
def coapSetHeaderUriQuery (query : CString) : CoapMessage CStr :=
  (m.setString .uriQuery (query.skip 0x3F).toCStr).setOption CoapOption.uriQuery.number

/-- `coap_set_header_location_query` -/
def coapSetHeaderLocationQuery (query : CString) : CoapMessage CStr :=
  (m.setString .locationQuery (query.skip 0x3F).toCStr).setOption CoapOption.locationQuery.number

/-- The end of `coap_set_header_location_path`. -/
def setLocationPath (path : CStr) : CoapMessage CStr :=
  if 0 < path.len then
    (m.setString .locationPath path).setOption CoapOption.locationPath.number
  else m.setString .locationPath path

/-- `coap_set_header_location_path` -/
def coapSetHeaderLocationPath (path : CString) : CoapMessage CStr :=
  match (path.skip 0x2F).strchr 0x3F with
  | some query =>
    setLocationPath (coapSetHeaderLocationQuery m ((path.skip 0x2F).drop (query + 1)))
      ⟨(path.skip 0x2F).memory, query⟩
  | none => setLocationPath m (path.skip 0x2F).toCStr

/-- `coap_set_header_observe` -/
def coapSetHeaderObserve (observe : BitVec 32) : CoapMessage CStr :=
  { m with observe := observe }.setOption CoapOption.observe.number

/-- The arguments that the setters of the block options take. -/
def blockArgs (num : BitVec 32) (size : BitVec 16) : Prop :=
  16 ≤ size.toNat ∧ size.toNat ≤ 2048 ∧ num.toNat ≤ 0x0FFFFF

instance (num : BitVec 32) (size : BitVec 16) : Decidable (blockArgs num size) :=
  inferInstanceAs (Decidable (_ ∧ _))

/-- `coap_set_header_block2` -/
def coapSetHeaderBlock2 (num : BitVec 32) (more : Byte) (size : BitVec 16) : CoapMessage CStr :=
  if blockArgs num size then
    { m with block2 := { m.block2 with num, more := if more ≠ 0 then 1 else 0, size } }.setOption
      CoapOption.block2.number
  else m

/-- `coap_set_header_block1`; here `more` stays as it is. -/
def coapSetHeaderBlock1 (num : BitVec 32) (more : Byte) (size : BitVec 16) : CoapMessage CStr :=
  if blockArgs num size then
    { m with block1 := { m.block1 with num, more, size } }.setOption CoapOption.block1.number
  else m

/-- `coap_set_header_size2` -/
def coapSetHeaderSize2 (size : BitVec 32) : CoapMessage CStr :=
  { m with size2 := size }.setOption CoapOption.size2.number

/-- `coap_set_header_size1` -/
def coapSetHeaderSize1 (size : BitVec 32) : CoapMessage CStr :=
  { m with size1 := size }.setOption CoapOption.size1.number

/-- `coap_set_payload` -/
def coapSetPayload (cfg : CoapConfig) (payload : List Byte) : CoapMessage CStr :=
  { m with payload := ⟨fun i => payload.getD i 0, min cfg.maxChunkSize payload.length⟩ }

end Setters

/-- A call of a setter. -/
inductive Setter
  | statusCode (code : ℕ)
  | token (token : List Byte)
  | contentFormat (format : BitVec 32)
  | accept (accept : BitVec 32)
  | maxAge (age : BitVec 32)
  | etag (etag : List Byte)
  | ifMatch (etag : List Byte)
  | ifNoneMatch
  | proxyUri (uri : CString)
  | uriHost (host : CString)
  | uriPath (path : CString)
  | uriQuery (query : CString)
  | locationPath (path : CString)
  | locationQuery (query : CString)
  | observe (observe : BitVec 32)
  | block2 (num : BitVec 32) (more : Byte) (size : BitVec 16)
  | block1 (num : BitVec 32) (more : Byte) (size : BitVec 16)
  | size2 (size : BitVec 32)
  | size1 (size : BitVec 32)
  | payload (payload : List Byte)

/-- The message after a setter. -/
def Setter.apply (cfg : CoapConfig) (m : CoapMessage CStr) : Setter → CoapMessage CStr
  | statusCode v => coapSetStatusCode m v
  | token v => coapSetToken m v
  | contentFormat v => coapSetHeaderContentFormat m v
  | accept v => coapSetHeaderAccept m v
  | maxAge v => coapSetHeaderMaxAge m v
  | etag v => coapSetHeaderEtag m v
  | ifMatch v => coapSetHeaderIfMatch m v
  | ifNoneMatch => coapSetHeaderIfNoneMatch m
  | proxyUri s => coapSetHeaderProxyUri m s
  | uriHost s => coapSetHeaderUriHost m s
  | uriPath s => coapSetHeaderUriPath m s
  | uriQuery s => coapSetHeaderUriQuery m s
  | locationPath s => coapSetHeaderLocationPath m s
  | locationQuery s => coapSetHeaderLocationQuery m s
  | observe v => coapSetHeaderObserve m v
  | block2 num more size => coapSetHeaderBlock2 m num more size
  | block1 num more size => coapSetHeaderBlock1 m num more size
  | size2 v => coapSetHeaderSize2 m v
  | size1 v => coapSetHeaderSize1 m v
  | payload v => coapSetPayload m cfg v

/-- A message that is built with the setters. -/
def build (cfg : CoapConfig) (type : CoapType) (code : Byte) (mid : BitVec 16)
    (setters : List Setter) : CoapMessage CStr :=
  setters.foldl (Setter.apply cfg) (coapInitMessage type code mid)

/-! ## The bytes of options -/

/-- `coap_option_nibble` -/
def coapOptionNibble (value : ℕ) : ℕ :=
  if value < 13 then value else if value ≤ 0xFF + 13 then 13 else 14

/-- The bytes that extend a nibble. -/
def extensionBytes (value : ℕ) : List Byte :=
  if 268 < value then
    [BitVec.ofNat 8 ((value - 269) >>> 8 &&& 0xFF), BitVec.ofNat 8 (value - 269 &&& 0xFF)]
  else if 12 < value then [BitVec.ofNat 8 (value - 13)] else []

/-- `coap_set_option_header` -/
def coapSetOptionHeader (delta length : ℕ) : List Byte :=
  BitVec.ofNat 8 (coapOptionNibble delta <<< 4 ||| coapOptionNibble length) ::
    (extensionBytes delta ++ extensionBytes length)

/-- The bytes of a number, without zeros at the start. -/
def intBytes (value : BitVec 32) : List Byte :=
  (if 0xFF000000 &&& value ≠ 0 then [(value >>> 24).setWidth 8] else []) ++
  (if 0xFFFF0000 &&& value ≠ 0 then [(value >>> 16).setWidth 8] else []) ++
  (if 0xFFFFFF00 &&& value ≠ 0 then [(value >>> 8).setWidth 8] else []) ++
  (if 0xFFFFFFFF &&& value ≠ 0 then [value.setWidth 8] else [])

/-- `coap_serialize_int_option` -/
def coapSerializeIntOption (number currentNumber : ℕ) (value : BitVec 32) : List Byte :=
  coapSetOptionHeader (number - currentNumber) (intBytes value).length ++ intBytes value

/-- The loop of `coap_serialize_array_option` for a string that is split, in at most so many
rounds. -/
def serializeParts (number : ℕ) (array : ℕ → Byte) (length : ℕ) (splitChar : Byte) :
    ℕ → ℕ → ℕ → ℕ → List Byte
  | 0, _, _, _ => []
  | fuel + 1, j, partStart, currentNumber =>
    if j ≤ length + 1 then
      if array j = splitChar ∨ j = length then
        coapSetOptionHeader (number - currentNumber) (j - partStart) ++
          bytesAt array partStart (j - partStart) ++
          -- the byte behind the splitter is skipped
          serializeParts number array length splitChar fuel (j + 2) (j + 1) number
      else serializeParts number array length splitChar fuel (j + 1) partStart currentNumber
    else []

/-- `coap_serialize_array_option` -/
def coapSerializeArrayOption (number currentNumber : ℕ) (array : ℕ → Byte) (length : ℕ)
    (splitChar : Byte) : List Byte :=
  if splitChar ≠ 0 then
    serializeParts number array length splitChar (length + 2) 0 0 currentNumber
  else coapSetOptionHeader (number - currentNumber) length ++ bytesAt array 0 length

/-- The loop of `coap_log_2`. -/
def logLoop : ℕ → ℕ → ℕ → ℕ
  | 0, _, result => result
  | fuel + 1, value, result =>
    if value >>> 1 ≠ 0 then logLoop fuel (value >>> 1) (result + 1) else result + 1

/-- `coap_log_2`, of a value with 16 bits. -/
def coapLog2 (value : ℕ) : ℕ := logLoop 17 value 0 - 1

/-- The value of a block option. -/
def blockValue (b : Block) : BitVec 32 :=
  (b.num <<< 4 ||| if b.more ≠ 0 then 0x8 else 0) |||
    (0xF &&& BitVec.ofNat 32 (coapLog2 (b.size.toNat / 16)))

/-! ## The bytes of a message -/

/-- The options that are written so far, with the number of the last. -/
structure Written where
  bytes : List Byte
  currentNumber : ℕ

namespace Written

variable (w : Written) (m : CoapMessage CStr)

/-- `COAP_SERIALIZE_INT_OPTION` -/
def int (number : ℕ) (value : BitVec 32) : Written :=
  if m.isOption number then
    ⟨w.bytes ++ coapSerializeIntOption number w.currentNumber value, number⟩
  else w

/-- `COAP_SERIALIZE_BYTE_OPTION` -/
def byte (number : ℕ) (field : List Byte) : Written :=
  if m.isOption number then
    ⟨w.bytes ++ coapSerializeArrayOption number w.currentNumber (fun i => field.getD i 0)
      field.length 0, number⟩
  else w

/-- `COAP_SERIALIZE_STRING_OPTION` -/
def string (number : ℕ) (field : CoapString) (splitter : Byte) : Written :=
  if m.isOption number then
    ⟨w.bytes ++ coapSerializeArrayOption number w.currentNumber (m.strings field).bytes
      (m.strings field).len splitter, number⟩
  else w

/-- `COAP_SERIALIZE_BLOCK_OPTION` -/
def block (number : ℕ) (field : Block) : Written := w.int m number (blockValue field)

end Written

/-- The options of a message, in the order of their numbers. -/
def serializeOptions (m : CoapMessage CStr) : Written :=
  let w : Written := ⟨[], 0⟩
  let w := w.byte m CoapOption.ifMatch.number m.ifMatch
  let w := w.string m CoapOption.uriHost.number .uriHost 0
  let w := w.byte m CoapOption.etag.number m.etag
  -- the field is zero
  let w := w.int m CoapOption.ifNoneMatch.number 0
  let w := w.int m CoapOption.observe.number m.observe
  let w := w.int m CoapOption.uriPort.number (m.uriPort.setWidth 32)
  let w := w.string m CoapOption.locationPath.number .locationPath 0x2F
  let w := w.string m CoapOption.uriPath.number .uriPath 0x2F
  let w := w.int m CoapOption.contentFormat.number (m.contentFormat.setWidth 32)
  let w := w.int m CoapOption.maxAge.number m.maxAge
  let w := w.string m CoapOption.uriQuery.number .uriQuery 0x26
  let w := w.int m CoapOption.accept.number (m.accept.setWidth 32)
  let w := w.string m CoapOption.locationQuery.number .locationQuery 0x26
  let w := w.block m CoapOption.block2.number m.block2
  let w := w.block m CoapOption.block1.number m.block1
  let w := w.int m CoapOption.size2.number m.size2
  let w := w.string m CoapOption.proxyUri.number .proxyUri 0
  let w := w.string m CoapOption.proxyScheme.number .proxyScheme 0
  w.int m CoapOption.size1.number m.size1

/-- The first byte: the version 1, the type and the length of the token. -/
def firstByte (type : CoapType) (tokenLen : ℕ) : Byte :=
  (0xC0#8 &&& (1#8 <<< 6)) ||| (0x30#8 &&& (type.bits.setWidth 8 <<< 4)) |||
    (0x0F#8 &&& BitVec.ofNat 8 tokenLen)

/-- The fixed header of a message. -/
def headerBytes (m : CoapMessage CStr) : List Byte :=
  [firstByte m.type m.tokenLen, m.code, (m.mid >>> 8).setWidth 8, m.mid.setWidth 8]

/-- `coap_serialize_message`; `none` is the length zero. -/
def coapSerializeMessage (cfg : CoapConfig) (m : CoapMessage CStr) : Option (List Byte) :=
  if m.code = 0 then some (headerBytes m)
  else
    let header := headerBytes m ++ m.token.take m.tokenLen ++ (serializeOptions m).bytes
    if header.length ≤ cfg.maxHeaderSize then
      some (header ++ (if m.payload.len ≠ 0 then [0xFF] else []) ++ m.payload.content)
    else none

end Asap.Coap
