import Asap.Ipv6.HeaderChain
import Asap.Lib.Bitmap

/-!
# Reassembly

One packet is reassembled at a time, in a buffer that begins with the headers of the packet. The
blocks of eight bytes that have been filled are kept in a bitmap.

A fragment comes in `uip_buf`, with the length `uip_ext_len` and the fragment header that
`uip_process` has found. The fragment header that is read is the one behind `uip_ext_len` bytes.
What has been written, and the fragments that have been copied, are traced.

## Main definitions

* `Fragment`, `Reass` — a fragment, and what is kept between fragments.
* `uipReass` — a fragment is added.
* `Reass.step` — a fragment, or the end of the time.
-/

namespace Asap.Ipv6

open Lib

/-- `UIP_BUFSIZE`; lengths of packets have two bytes. -/
structure ReassConfig where
  bufsize : ℕ
  bufsize_lt : bufsize < 65536

/-- `UIP_FRAGH_LEN` -/
def uipFraghLen : ℕ := 8

section

variable (buf : ℕ → Byte)

/-- The source and the destination of a packet. -/
def addresses : List Byte := bytesAt buf 8 32

/-- The `offsetresmore` of a fragment header, in the order of the host. -/
def offsetResMore (pos : ℕ) : ℕ :=
  (buf (pos + 2)).toNat * 256 + (buf (pos + 3)).toNat

/-- `offsetresmore & 0xfff8` -/
def fragOffset (pos : ℕ) : ℕ := offsetResMore buf pos / 8 * 8

/-- `offsetresmore & IP_MF` -/
def moreFragments (pos : ℕ) : Bool := offsetResMore buf pos % 2 = 1

/-- The `id` of a fragment header. -/
def fragId (pos : ℕ) : List Byte := bytesAt buf (pos + 4) 4

end

/-- `uip_buf`, `uip_len`, `uip_ext_len` and the fragment header of a packet. Behind the extension
headers there is the header of the upper layer. -/
structure Fragment (cfg : ReassConfig) where
  buf : ℕ → Byte
  uipLen : ℕ
  uipExtLen : ℕ
  header : ℕ
  headers_le : uipIphLen + uipExtLen + 4 ≤ uipLen
  le_bufsize : uipLen ≤ cfg.bufsize

/-- What is written: bytes of `uip_reassbuf`, or of `uip_reassbitmap`. -/
inductive ReassWrite
  | buf (pos len : ℕ)
  | bitmap (index len : ℕ)
deriving DecidableEq

/-- What is kept between fragments. The fragments that have been copied since the start, and what
has been written, are traced. -/
structure Reass (cfg : ReassConfig) where
  reassbuf : ℕ → Byte
  bitmap : ℕ → Byte
  reasslen : ℕ
  on : Bool
  firstFrag : Bool
  lastFrag : Bool
  errorMsg : Bool
  id : List Byte
  fragments : List (Fragment cfg)
  writes : List ReassWrite

/-- What `uip_reass` returns: zero, the length of an error message, or a packet. -/
inductive ReassResult
  | none
  | error
  | packet (buf : ℕ → Byte) (len : ℕ)

variable {cfg : ReassConfig}

namespace Fragment

variable (f : Fragment cfg)

/-- `frag_buf` -/
def fragBuf : ℕ := uipIphLen + f.uipExtLen

/-- `len`, in two bytes. -/
def len : ℕ := (f.uipLen + 65536 - f.uipExtLen - uipIphLen - uipFraghLen) % 65536

/-- `offset` -/
def offset : ℕ := fragOffset f.buf f.fragBuf

/-- `uip_buf`, after `prev_proto_ptr` is written where the first fragment is. -/
def buf' : ℕ → Byte :=
  if f.offset = 0 then Function.update f.buf f.header (f.buf f.fragBuf) else f.buf

end Fragment

namespace Reass

variable (s : Reass cfg) (f : Fragment cfg)

/-- The headers of a packet are copied. -/
def copyHeaders (buf : ℕ → Byte) : Reass cfg :=
  { s with
    reassbuf := store s.reassbuf 0 (bytesAt buf 0 f.fragBuf)
    writes := s.writes ++ [.buf 0 f.fragBuf] }

/-- The reassembly of a packet is started. -/
def start : Reass cfg :=
  { s.copyHeaders f f.buf with
    on := true
    firstFrag := false
    lastFrag := false
    errorMsg := false
    id := fragId f.buf f.fragBuf
    bitmap := fun i => if i < cfg.bufsize / 64 then 0 else s.bitmap i
    fragments := []
    writes := (s.copyHeaders f f.buf).writes ++ [.bitmap 0 (cfg.bufsize / 64)] }

/-- The fragment belongs to the packet that is reassembled. -/
def Matches : Prop := addresses s.reassbuf = addresses f.buf ∧ fragId f.buf f.fragBuf = s.id

instance : Decidable (s.Matches f) := inferInstanceAs (Decidable (_ ∧ _))

/-- The part of `uip_reass` for the fragment with the offset 0. -/
def first : Reass cfg :=
  if f.offset = 0 then { s.copyHeaders f f.buf' with firstFrag := true } else s

/-- The fragment is copied, and its blocks are marked. -/
def copy : Reass cfg :=
  { s with
    reassbuf := store s.reassbuf (f.fragBuf + f.offset)
      (bytesAt f.buf' (f.fragBuf + uipFraghLen) f.len)
    bitmap := markRange s.bitmap (f.offset / 8) ((f.offset + f.len) / 8)
    fragments := s.fragments ++ [f]
    writes := s.writes ++ [.buf (f.fragBuf + f.offset) f.len,
      .bitmap (f.offset / 64) ((f.offset + f.len) / 64 + 1 - f.offset / 64)] }

theorem copyHeaders_reassbuf (buf : ℕ → Byte) :
    (s.copyHeaders f buf).reassbuf = store s.reassbuf 0 (bytesAt buf 0 f.fragBuf) := rfl

theorem copy_reassbuf : (s.copy f).reassbuf = store s.reassbuf (f.fragBuf + f.offset)
    (bytesAt f.buf' (f.fragBuf + uipFraghLen) f.len) := rfl

theorem copy_bitmap :
    (s.copy f).bitmap = markRange s.bitmap (f.offset / 8) ((f.offset + f.len) / 8) := rfl

/-- A packet that is complete is returned. -/
def complete : Reass cfg × ReassResult :=
  if s.lastFrag ∧ FullTo s.bitmap (s.reasslen / 8) then
    let reasslen := (s.reasslen + f.fragBuf) % 65536
    ({ s with on := false, reasslen }, .packet s.reassbuf reasslen)
  else (s, .none)

end Reass

/-- `uip_reass` -/
def uipReass (s : Reass cfg) (f : Fragment cfg) : Reass cfg × ReassResult :=
  let s := if s.on then s else s.start f
  if s.Matches f then
    let s := s.first f
    if cfg.bufsize < f.offset ∨ cfg.bufsize < f.offset + f.len then
      ({ s with on := false }, .none)
    else if moreFragments f.buf' f.fragBuf = false then
      (({ s with lastFrag := true, reasslen := f.offset + f.len }).copy f).complete f
    else if f.len % 8 ≠ 0 then ({ s with errorMsg := true, on := false }, .error)
    else (s.copy f).complete f
  else (s, .none)

/-- What happens to the reassembly: a fragment, or `uip_reass_over`. -/
inductive ReassEvent (cfg : ReassConfig)
  | fragment (f : Fragment cfg)
  | tooLate

/-- The reassembly after an event. -/
def Reass.step (s : Reass cfg) : ReassEvent cfg → Reass cfg
  | .fragment f => (uipReass s f).1
  | .tooLate => { s with on := false }

end Asap.Ipv6
