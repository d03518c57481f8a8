import Asap.Ipv6.SourceRouting
import Asap.Lib.Buffer

/-!
# The packet buffer

The one buffer of the stack holds a packet: a header of 40 bytes, the extension headers and
the payload. The length of the packet and that of its extension headers stand beside it.

## Main definitions

* `Uipbuf` — the buffer with the two lengths.
* `Uipbuf.destipaddr` — the destination address.
* `uipbufSearchHeader` — an extension header is searched for along the chain of headers.
-/

namespace Asap.Ipv6

open Asap.Lib

/-- `UIP_LINK_MTU` and `UIP_BUFSIZE`; lengths of packets have two bytes. -/
structure UipConfig where
  linkMtu : ℕ
  bufsize : ℕ
  linkMtu_lt : linkMtu < 65536

/-- `uip_buf`, `uip_len` and `uip_ext_len`. The packet has a header and the extension headers. -/
structure Uipbuf where
  buf : ℕ → Byte
  uipLen : ℕ
  uipExtLen : ℕ
  headers_le : 40 + uipExtLen ≤ uipLen

/-- `UIP_IPH_LEN` -/
def uipIphLen : ℕ := 40

/-- `UIP_PROTO_ROUTING` -/
def uipProtoRouting : Byte := 43

/-- `UIP_IP_BUF->destipaddr` -/
def Uipbuf.destipaddr (p : Uipbuf) : UipIpaddr := ⟨bytesAt p.buf 24 16, length_bytesAt _ _ _⟩

/-- `uipbuf_get_len_field` -/
def uipbufGetLenField (buf : ℕ → Byte) : ℕ := (buf 4).toNat * 256 + (buf 5).toNat

/-- The bytes `uipbuf_set_len_field` writes. -/
def lenField (len : ℕ) : List Byte := [BitVec.ofNat 8 (len / 256), BitVec.ofNat 8 len]

/-- `uip_is_proto_ext_hdr` -/
def uipIsProtoExtHdr (proto : Byte) : Bool := proto ≠ 6 ∧ proto ≠ 17 ∧ proto ≠ 58

/-- The length of a header that is no extension header. -/
def upperHdrLen (proto : Byte) : ℕ := if proto = 6 then 20 else if proto = 17 then 8 else 4

/-- `uipbuf_get_next_header`: the protocol, and where the header is. -/
def uipbufGetNextHeader (buf : ℕ → Byte) (pos size : ℕ) (start : Bool) : Byte × Option ℕ :=
  let protocol := if start then buf (pos + 6) else buf pos
  let currHdrLen := if start then uipIphLen else (buf (pos + 1)).toNat * 8 + 8
  if size < currHdrLen then (protocol, none)
  else
    let next := pos + currHdrLen
    let nextHdrLen :=
      if uipIsProtoExtHdr protocol then (buf (next + 1)).toNat * 8 + 8 else upperHdrLen protocol
    if nextHdrLen = 0 ∨ size < currHdrLen + nextHdrLen then (protocol, none)
    else (protocol, some next)

/-- The loop of `uipbuf_search_header`. -/
def searchLoop (buf : ℕ → Byte) (size : ℕ) (protocol : Byte) :
    ℕ → Byte × Option ℕ → Byte × Option ℕ
  | 0, found => found
  | fuel + 1, (nextProto, some pos) =>
    if nextProto ≠ protocol ∧ uipIsProtoExtHdr nextProto then
      searchLoop buf size protocol fuel (uipbufGetNextHeader buf pos (size - pos) false)
    else (nextProto, some pos)
  | _ + 1, (nextProto, none) => (nextProto, none)

/-- `uipbuf_search_header`; a header has eight bytes at least, so the loop ends before the
packet does. -/
def uipbufSearchHeader (buf : ℕ → Byte) (size : ℕ) (protocol : Byte) : Option ℕ :=
  let found := searchLoop buf size protocol size (uipbufGetNextHeader buf 0 size true)
  if found.1 = protocol then found.2 else none

/-- An extension header directly behind the header of the packet. -/
theorem uipbufSearchHeader_first {buf : ℕ → Byte} {size : ℕ} {protocol : Byte}
    (hproto : buf 6 = protocol) (hext : uipIsProtoExtHdr protocol)
    (hsize : 40 + ((buf 41).toNat * 8 + 8) ≤ size) :
    uipbufSearchHeader buf size protocol = some 40 := by
  have hfirst : uipbufGetNextHeader buf 0 size true = (protocol, some 40) := by
    simp only [uipbufGetNextHeader, uipIphLen, if_true, Nat.zero_add, Nat.reduceAdd, hproto, hext]
    rw [if_neg (by omega), if_neg (by omega)]
  obtain ⟨fuel, rfl⟩ : ∃ fuel, size = fuel + 1 := ⟨size - 1, by omega⟩
  simp [uipbufSearchHeader, hfirst, searchLoop]

theorem uipbufGetLenField_of_holds {buf : ℕ → Byte} {len : ℕ} (h : Holds buf 4 (lenField len))
    (hlen : len < 65536) : uipbufGetLenField buf = len := by
  simp only [lenField, holds_cons] at h
  simp only [uipbufGetLenField, h.1, h.2.1, BitVec.toNat_ofNat]
  omega

end Asap.Ipv6
