import Asap.Ipv6.Checksum
import Asap.Ipv6.ExtOptions
import Asap.Rpl.ExtHeaderRemove

/-!
# Where errors are called for

`uip_process` takes the lengths of a packet and the protocol behind its extension headers from the
headers once, and then goes through the headers again. On the way an option of RPL and a source routing
header are changed in place. A dozen points call for an error, the last of them when the extension
headers of a UDP packet are gone already.

## Main definitions

* `uipProcess` — the way of a packet, to an error, to the next hop, or to the upper layer.
* `ErrorCall` — a call for an error, with the packet.
* `Parsed` — the lengths agree with the headers in the buffer.

## Main results

* `uipProcess_parsed` — they do at each call, if no address is swapped outside of its header.
-/

namespace Asap.Ipv6

open Lib Rpl Option List

/-! ## The calls -/

/-- `type` and `code` of an error. -/
structure ErrorKind where
  type : Byte
  code : Byte
deriving DecidableEq, Repr

namespace ErrorKind

/-- `ICMP6_DST_UNREACH` with `ICMP6_DST_UNREACH_NOTNEIGHBOR` -/
def notNeighbor : ErrorKind := ⟨1, 2⟩

/-- `ICMP6_DST_UNREACH` with `ICMP6_DST_UNREACH_NOPORT` -/
def noPort : ErrorKind := ⟨1, 4⟩

/-- `ICMP6_PACKET_TOO_BIG` -/
def packetTooBig : ErrorKind := ⟨2, 0⟩

/-- `ICMP6_TIME_EXCEEDED` with `ICMP6_TIME_EXCEED_TRANSIT` -/
def timeExceeded : ErrorKind := ⟨3, 0⟩

/-- `ICMP6_PARAM_PROB` with `ICMP6_PARAMPROB_NEXTHEADER` -/
def nextHeader : ErrorKind := ⟨4, 1⟩

/-- `ICMP6_PARAM_PROB` with `ICMP6_PARAMPROB_OPTION` -/
def option : ErrorKind := ⟨4, 2⟩

end ErrorKind

/-- A call of `uip_icmp6_error_output`: `uip_last_proto`, the packet as it was before a source routing
header was processed and as it is, and whether its extension headers are removed before the call. -/
structure ErrorCall where
  kind : ErrorKind
  uipLastProto : Byte
  received : Uipbuf
  packet : Uipbuf
  stripped : Bool

/-- The packet in the buffer at the call. -/
def ErrorCall.atCall (c : ErrorCall) : Uipbuf :=
  if c.stripped then (uipRemoveExtHdr c.uipLastProto c.packet).2 else c.packet

/-- What becomes of a packet: `outside` if a byte is written outside of the buffer. -/
inductive Outcome
  | drop
  | forward (packet : Uipbuf)
  | deliver (protocol : Byte)
  | outside
  | error (call : ErrorCall)

/-! ## The way of a packet -/

/-- An entry of `uip_udp_conns`, with its ports as they are in a packet. -/
structure UdpConn where
  lport : BitVec 16
  rport : BitVec 16
  ripaddr : UipIpaddr

/-- The addresses of the node and what is on its links, the size of the buffer, whether there is TCP
and UDP, and the connections of UDP. -/
structure ProcessEnv where
  order : ByteOrder
  mine : UipIpaddr → Bool
  onlink : UipIpaddr → Bool
  bufsize : ℕ
  tcp : Bool
  udp : Bool
  udpConns : List UdpConn

theorem uipLinkMtu_lt : uipLinkMtu < 65536 := by decide

/-- `UIP_LINK_MTU`, with the size of the buffer. -/
def mtuConfig (bufsize : ℕ) : UipConfig := ⟨uipLinkMtu, bufsize, uipLinkMtu_lt⟩

section Process

variable (selectDag : HbhDag → BitVec 16 → HbhDag) (env : ProcessEnv) (uipLastProto : Byte)
  (uip : Uipbuf)

/-- A call with the packet that is processed. -/
def callError (kind : ErrorKind) (p : Processing) : Outcome :=
  .error ⟨kind, uipLastProto, withBuf uip p.buf, withBuf uip p.buf, false⟩

/-- `uip_check_mtu` and `uip_update_ttl`, in front of forwarding. -/
def forwardOrError (received q : Uipbuf) : Outcome :=
  if uipLinkMtu < q.uipLen then .error ⟨.packetTooBig, uipLastProto, received, q, false⟩
  else if (q.buf 7).toNat ≤ 1 then .error ⟨.timeExceeded, uipLastProto, received, q, false⟩
  else .forward (withBuf q (store q.buf 7 [q.buf 7 - 1]))

section

variable (p : Processing)

/-- A packet that is not for the node. -/
def processNotMine : Outcome :=
  let src := addrAt p.buf 8
  let dest := addrAt p.buf 24
  if !isAddrMcast dest && !isAddrLinklocal dest && !isAddrLinklocal src && !isAddrUnspecified src &&
      !isAddrLoopback dest then forwardOrError uipLastProto (withBuf uip p.buf) (withBuf uip p.buf)
  else if isAddrLinklocal src && !isAddrUnspecified src && !isAddrLoopback dest &&
      !isAddrMcast dest && !env.onlink dest then callError uipLastProto uip .notNeighbor p
  else .drop

/-- The options of a header, and how it goes on if they are accepted. -/
def processOptions (pos : ℕ) (next : Processing → Outcome) : Outcome :=
  let processed := extHdrOptionsProcess selectDag p pos
  match processed.1 with
  | .accept => next processed.2
  | .drop => .drop
  | .error => callError uipLastProto uip .option processed.2

/-- A source routing header with segments left. -/
def processSrh : Outcome :=
  match rplExtHeaderSrhUpdate (mtuConfig env.bufsize) (withBuf uip p.buf) with
  | none => .outside
  | some (false, _) => callError uipLastProto uip .nextHeader p
  | some (true, q) => forwardOrError uipLastProto (withBuf uip p.buf) q

/-- A UDP packet: its extension headers are removed first. -/
def udpInput : Outcome :=
  let packet := withBuf uip p.buf
  let q := (uipRemoveExtHdr uipLastProto packet).2
  let srcport := env.order.load q.buf (uipIphLen + q.uipExtLen)
  let destport := env.order.load q.buf (uipIphLen + q.uipExtLen + 2)
  if !chksumOk env.order uipLastProto .udp packet then .drop
  else if destport = 0 then .drop
  else if env.udpConns.any fun conn =>
      conn.lport ≠ 0 && destport = conn.lport && (conn.rport = 0 || srcport = conn.rport) &&
        (isAddrUnspecified conn.ripaddr || addrAt q.buf 8 = conn.ripaddr) then .deliver 17
  else .error ⟨.noPort, uipLastProto, packet, packet, true⟩

/-- The upper layer of a packet that is for the node. -/
def processUpper (protocol : Byte) : Outcome :=
  if protocol = 6 ∧ env.tcp then .deliver 6
  else if protocol = 17 ∧ env.udp then udpInput env uipLastProto uip p
  else if protocol = 58 then .deliver 58
  else callError uipLastProto uip .nextHeader p

end

/-- The loop over the extension headers; a header has eight bytes at least, so it ends before the
packet does. -/
def processLoop : ℕ → ExtBitmap → Processing → Byte × Option ℕ → Outcome
  | 0, _, _, _ => .drop
  | _ + 1, _, p, (_, none) => callError uipLastProto uip .nextHeader p
  | fuel + 1, seen, p, (protocol, some pos) =>
    if !uipIsProtoExtHdr protocol then processUpper env uipLastProto uip p protocol
    else if protocol = 0 then
      if seen.hbho then callError uipLastProto uip .nextHeader p
      else
        processOptions selectDag uipLastProto uip p pos fun p =>
          processLoop fuel { seen with hbho := true } p
            (uipbufGetNextHeader p.buf pos (uip.uipLen - pos) false)
    else if protocol = 60 then
      if seen.desto = 2 then callError uipLastProto uip .nextHeader p
      else
        processOptions selectDag uipLastProto uip p pos fun p =>
          processLoop fuel { seen with desto := seen.desto + 1 } p
            (uipbufGetNextHeader p.buf pos (uip.uipLen - pos) false)
    else if protocol = uipProtoRouting then
      if seen.routing then callError uipLastProto uip .nextHeader p
      else if p.buf (pos + 3) ≠ 0 then processSrh env uipLastProto uip p
      else
        processLoop fuel { seen with routing := true } p
          (uipbufGetNextHeader p.buf pos (uip.uipLen - pos) false)
    -- there is no reassembly, and nothing behind a header that says so
    else if protocol = 44 ∨ protocol = 59 then .drop
    else callError uipLastProto uip .nextHeader p

/-- The headers of a packet with its lengths, in a router: the hop-by-hop header, and all of them if the
packet is for the node. -/
def processPacket (p : Processing) : Outcome :=
  let next (p : Processing) :=
    if env.mine (addrAt p.buf 24) then
      processLoop selectDag env uipLastProto uip uip.uipLen ⟨false, 0, false⟩ p
        (uipbufGetNextHeader p.buf 0 uip.uipLen true)
    else processNotMine env uipLastProto uip p
  match uipbufGetNextHeader p.buf 0 uip.uipLen true with
  | (protocol, some pos) =>
    if protocol = 0 then processOptions selectDag uipLastProto uip p pos next else next p
  | (_, none) => next p

end Process

/-! ## The chain of headers in the buffer -/

section Chain

variable {buf : ℕ → Byte} {size pos pos' fuel : ℕ} {protocol protocol' upper : Byte}

/-- The protocol of the next header is the byte that names it. -/
theorem getNextHeader_proto {start : Bool}
    (h : uipbufGetNextHeader buf pos size start = (protocol, some pos')) :
    protocol = if start then buf (pos + 6) else buf pos := by
  have hfst : (uipbufGetNextHeader buf pos size start).1 =
      if start then buf (pos + 6) else buf pos := by
    rw [uipbufGetNextHeader]
    dsimp only
    generalize (if start = true then buf (pos + 6) else buf pos) = proto
    generalize (if start = true then uipIphLen else (buf (pos + 1)).toNat * 8 + 8) = cur
    split_ifs <;> rfl
  rw [← hfst, h]

theorem holds_bytesAt (mem : ℕ → Byte) (pos n : ℕ) : Holds mem pos (bytesAt mem pos n) := by
  rw [holds_iff_bytesAt, length_bytesAt]

/-- The headers that the loop goes along, with what is behind them. -/
theorem chain_of_lastLoop {last : ℕ} (hfuel : size ≤ fuel + pos) (hpos : pos + 4 ≤ size)
    (h : lastLoop buf size fuel (protocol, some pos) = (upper, some last)) :
    ∃ hs, chainProto upper hs = protocol ∧
      Holds buf pos (chainBytes upper (bytesAt buf last (size - last)) hs) ∧
      last = pos + chainSize hs ∧ uipIsProtoExtHdr upper = false ∧ last + 4 ≤ size := by
  induction fuel generalizing protocol pos with
  | zero => omega
  | succ fuel ih =>
    rw [lastLoop] at h
    by_cases hext : uipIsProtoExtHdr protocol = true
    · rw [if_pos hext] at h
      cases hnext : uipbufGetNextHeader buf pos (size - pos) false with
      | mk next found =>
        rw [hnext] at h
        cases found with
        | none =>
          exfalso
          cases fuel <;> exact absurd (congrArg Prod.snd h) (some_ne_none last).symm
        | some pos' =>
          obtain ⟨hpos', hle⟩ := getNextHeader_spec hnext
          have hproto := getNextHeader_proto hnext
          rw [if_neg Bool.false_ne_true] at hpos' hproto
          obtain ⟨hs, hchain, hbytes, hlast, hupper, hsize⟩ := ih (by omega) (by omega) h
          refine ⟨⟨protocol, buf (pos + 1), bytesAt buf (pos + 2) ((buf (pos + 1)).toNat * 8 + 6),
            hext, length_bytesAt _ _ _⟩ :: hs, rfl, ?_, ?_, hupper, hsize⟩
          · rw [chainBytes, holds_cons, holds_cons, holds_append, length_bytesAt]
            refine ⟨by rw [hchain, hproto], rfl, holds_bytesAt _ _ _, ?_⟩
            have hat : pos + 1 + 1 + ((buf (pos + 1)).toNat * 8 + 6) = pos' := by omega
            rw [hat]
            exact hbytes
          · rw [hlast, chainSize_cons]
            show pos' + chainSize hs = pos + ((buf (pos + 1)).toNat * 8 + 8 + chainSize hs)
            omega
    · rw [if_neg hext] at h
      obtain ⟨rfl, hlast⟩ := Prod.ext_iff.mp h
      obtain rfl := Option.some.inj hlast
      exact ⟨[], rfl, holds_bytesAt _ _ _, rfl, Bool.eq_false_iff.mpr hext, hpos⟩

/-- **The chain of a packet** whose last header is found. -/
theorem chain_of_last {last : ℕ} (h : uipbufGetLastHeader buf size = (upper, some last)) :
    ∃ hs, chainProto upper hs = buf 6 ∧
      Holds buf 40 (chainBytes upper (bytesAt buf last (size - last)) hs) ∧
      last = 40 + chainSize hs ∧ uipIsProtoExtHdr upper = false ∧ last + 4 ≤ size := by
  rw [uipbufGetLastHeader] at h
  cases hfirst : uipbufGetNextHeader buf 0 size true with
  | mk protocol found =>
    rw [hfirst] at h
    cases found with
    | none =>
      exfalso
      cases size <;> exact absurd (congrArg Prod.snd h) (some_ne_none last).symm
    | some pos =>
      obtain ⟨rfl, hsize⟩ := first_spec hfirst
      have hproto := getNextHeader_proto hfirst
      obtain ⟨hs, hchain, hrest⟩ := chain_of_lastLoop (by omega) (by omega) h
      exact ⟨hs, hchain.trans hproto, hrest⟩

/-- Where the last header is, it is in the packet. -/
theorem last_le (h : uipbufGetLastHeader buf size = (protocol, some pos)) :
    40 + (pos - 40) ≤ size := by
  obtain ⟨hs, -, -, rfl, -, hsize⟩ := chain_of_last h
  omega

end Chain

/-- `uip_last_proto`, and the packet with `uip_ext_len`, if its chain of headers is inside of it. -/
def bookPacket (buf : ℕ → Byte) (uipLen : ℕ) : Option (Byte × Uipbuf) :=
  match h : uipbufGetLastHeader buf uipLen with
  | (uipLastProto, some last) => some (uipLastProto, ⟨buf, uipLen, last - uipIphLen, last_le h⟩)
  | (_, none) => none

/-- `uip_process` for a packet of a length, up to the upper layer. The length is that of the header from
then on; it is at most the size of the buffer, so the sum does not wrap. -/
def uipProcess (selectDag : HbhDag → BitVec 16 → HbhDag) (env : ProcessEnv) (rpl : RplTables)
    (buf : ℕ → Byte) (uipLen : ℕ) : Outcome :=
  if uipLen < uipIphLen then .drop
  else if buf 0 &&& 0xF0 ≠ 0x60 then .drop
  else if uipLen < uipbufGetLenField buf then .drop
  else
    let uipLen := uipbufGetLenField buf + uipIphLen
    if env.bufsize < uipLen then .drop
    else
      match bookPacket buf uipLen with
      | none => .drop
      | some (uipLastProto, uip) =>
        if isAddrMcast (addrAt buf 8) then .drop
        else processPacket selectDag env uipLastProto uip ⟨buf, rpl, []⟩

/-! ## The lengths agree with the headers -/

/-- The packet is a chain of headers, the last of them where `uip_ext_len` and `uip_last_proto` say. -/
def Parsed (uipLastProto : Byte) (p : Uipbuf) : Prop :=
  ∃ payload hs, IsPacket p uipLastProto payload hs ∧ uipIsProtoExtHdr uipLastProto = false ∧
    4 ≤ payload.length

/-- The same, with a header of the chain. -/
def ParsedAt (uipLastProto : Byte) (p : Uipbuf) (pos : ℕ) (protocol : Byte) : Prop :=
  ∃ payload ks hs, IsPacket p uipLastProto payload (ks ++ hs) ∧ uipIsProtoExtHdr uipLastProto = false ∧
    4 ≤ payload.length ∧ pos = 40 + chainSize ks ∧ protocol = chainProto uipLastProto hs

variable {uipLastProto protocol protocol' upper : Byte} {p q : Uipbuf} {pos pos' : ℕ}
  {payload : List Byte} {hs ks : List ExtHdr} {h : ExtHdr}

theorem ParsedAt.parsed (hat : ParsedAt uipLastProto p pos protocol) : Parsed uipLastProto p := by
  obtain ⟨payload, ks, hs, hp, hext, hlen, -, -⟩ := hat
  exact ⟨payload, ks ++ hs, hp, hext, hlen⟩

theorem chainSize_append (ks hs : List ExtHdr) :
    chainSize (ks ++ hs) = chainSize ks + chainSize hs := by
  rw [chainSize, map_append, sum_append, chainSize, chainSize]

/-- The headers of a chain, without what is behind them. -/
theorem chainBytes_append (upper : Byte) (payload : List Byte) (ks hs : List ExtHdr) :
    chainBytes upper payload (ks ++ hs) =
      chainBytes (chainProto upper hs) [] ks ++ chainBytes upper payload hs := by
  induction ks with
  | nil => rfl
  | cons k ks ih =>
    have hproto : chainProto upper (ks ++ hs) = chainProto (chainProto upper hs) ks := by
      cases ks <;> rfl
    rw [cons_append, chainBytes, chainBytes, ih, hproto]
    simp

/-- The rest of a packet from a header on. -/
theorem ParsedAt.atChain (hp : IsPacket p upper payload (ks ++ hs)) :
    AtChain p (40 + chainSize ks) upper payload hs := by
  refine ⟨holds_append_chain hp.bytes, ?_⟩
  rw [hp.len, chainSize_append]
  omega

/-- The first header. -/
theorem Parsed.first (hp : Parsed uipLastProto p)
    (hnext : uipbufGetNextHeader p.buf 0 p.uipLen true = (protocol, some pos)) :
    ParsedAt uipLastProto p pos protocol := by
  obtain ⟨payload, hs, hpacket, hext, hlen⟩ := hp
  obtain ⟨rfl, -⟩ := first_spec hnext
  exact ⟨payload, [], hs, hpacket, hext, hlen, rfl, (getNextHeader_proto hnext).trans hpacket.proto⟩

/-- **The next header** of the chain. -/
theorem ParsedAt.next (hat : ParsedAt uipLastProto p pos protocol) (hext : uipIsProtoExtHdr protocol)
    (hnext : uipbufGetNextHeader p.buf pos (p.uipLen - pos) false = (protocol', some pos')) :
    ParsedAt uipLastProto p pos' protocol' := by
  obtain ⟨payload, ks, hs, hpacket, hupper, hlen, rfl, rfl⟩ := hat
  cases hs with
  | nil => exact absurd (hupper.symm.trans hext) Bool.false_ne_true
  | cons h hs =>
    have hchain := ParsedAt.atChain hpacket
    obtain ⟨hpos', -⟩ := getNextHeader_spec hnext
    have hproto := getNextHeader_proto hnext
    rw [if_neg Bool.false_ne_true] at hpos' hproto
    refine ⟨payload, ks ++ [h], hs, ?_, hupper, hlen, ?_, hproto.trans hchain.proto⟩
    · rwa [append_assoc, singleton_append]
    · rw [hpos', hchain.hdrLen, chainSize_append, chainSize_cons, chainSize_nil]
      omega

/-- **Other data in a header** leave a chain, with a header of the same size. -/
theorem exists_setData (hp : IsPacket p upper payload (ks ++ h :: hs)) (hlen : q.uipLen = p.uipLen)
    (hext : q.uipExtLen = p.uipExtLen)
    (hsame : ∀ j, j ∈ [4, 5, 6] ∨ 40 ≤ j →
      ¬(40 + chainSize ks + 2 ≤ j ∧ j < 40 + chainSize ks + h.size) → q.buf j = p.buf j) :
    ∃ h', h'.proto = h.proto ∧ IsPacket q upper payload (ks ++ h' :: hs) := by
  have hsize : h.size = h.len.toNat * 8 + 8 := rfl
  obtain ⟨h', hproto', hlen', hdata'⟩ : ∃ h' : ExtHdr, h'.proto = h.proto ∧ h'.len = h.len ∧
      h'.data = bytesAt q.buf (40 + chainSize ks + 2) (h.len.toNat * 8 + 6) :=
    ⟨⟨h.proto, h.len, _, h.isExt, length_bytesAt _ _ _⟩, rfl, rfl, rfl⟩
  refine ⟨h', hproto', ?_⟩
  have hproto : chainProto upper (ks ++ h' :: hs) = chainProto upper (ks ++ h :: hs) := by
    cases ks with
    | nil => exact hproto'
    | cons k ks => rfl
  have hsizes : chainSize (ks ++ h' :: hs) = chainSize (ks ++ h :: hs) := by
    rw [chainSize_append, chainSize_append, chainSize_cons, chainSize_cons, ExtHdr.size, hlen', hsize]
  have hfour : ∀ j, j ∈ [4, 5, 6] → q.buf j = p.buf j := by
    intro j hj
    refine hsame j (Or.inl hj) ?_
    simp only [mem_cons, not_mem_nil, or_false] at hj
    omega
  refine ⟨?_, ?_, ?_, ?_, ?_⟩
  · rw [hfour 6 (by decide), hp.proto]
    exact hproto.symm
  · have hb := hp.bytes
    rw [chainBytes_append, holds_append, length_chainBytes, length_nil, Nat.add_zero, chainBytes,
      holds_cons, holds_cons, holds_append, h.length_data] at hb
    obtain ⟨hfront, hnext, hbyte, -, hrest⟩ := hb
    rw [chainBytes_append, holds_append, length_chainBytes, length_nil, Nat.add_zero, chainBytes,
      holds_cons, holds_cons, holds_append, hdata', length_bytesAt, hlen', chainProto, hproto']
    refine ⟨hfront.congr fun j hle hlt => ?_, ?_, ?_, holds_bytesAt _ _ _,
      hrest.congr fun j hle hlt => ?_⟩
    · rw [length_chainBytes, length_nil, Nat.add_zero] at hlt
      exact hsame j (Or.inr hle) (by omega)
    · rw [hsame _ (Or.inr (by omega)) (by omega)]
      exact hnext
    · rw [hsame _ (Or.inr (by omega)) (by omega)]
      exact hbyte
    · exact hsame j (Or.inr (by omega)) (by omega)
  · rw [hlen, hp.len, hsizes]
  · rw [hext, hp.extLen, hsizes]
  · rw [hlen]
    refine hp.field.congr fun j hle hlt => hfour j ?_
    have hlt : j < 4 + 2 := hlt
    simp only [mem_cons, not_mem_nil, or_false]
    omega

/-! ## Along the way of a packet -/

section Way

variable {selectDag : HbhDag → BitVec 16 → HbhDag} {env : ProcessEnv} {uip : Uipbuf} {w : Processing}
  {kind : ErrorKind} {seen : ExtBitmap} {fuel : ℕ} {next : Processing → Outcome}

/-- An option that is not acceptable leaves the packet as it is. -/
theorem visit_buf_of_not {ext i : ℕ} (hnot : ¬RplAcceptable selectDag w.rpl w.buf ext i) :
    (w.visit selectDag ext i).buf = w.buf := by
  by_cases hform : w.buf (ext + 1) = 0 ∧ w.buf i = uipExtHdrOptRpl ∧ w.buf (i + 1) = 4
  · rcases @rplExtHeaderHbhUpdate_cases selectDag w.rpl w.buf ext i hform with
      ⟨hok, -⟩ | ⟨-, -, hbuf⟩
    · exact absurd hok hnot
    · exact hbuf
  · rw [Processing.visit, rplExtHeaderHbhUpdate_of_form hform]

/-- The options of a header change one byte of it at most. -/
theorem extHdrOptionsProcess_buf {ext j : ℕ} (hj : j ≠ ext + 4) :
    (extHdrOptionsProcess selectDag w ext).2.buf j = w.buf j := by
  rcases @extHdrOptionsProcess_leaves selectDag w ext with ⟨-, -, hleft⟩ | ⟨-, -, hleft⟩
  · rcases hleft with hleft | ⟨-, -, hleft⟩
    · rw [hleft]
    · rw [hleft]
      exact visit_buf (by omega)
  · rcases hleft with hleft | ⟨i, -, -, hnot, hleft⟩
    · rw [hleft]
    · rw [hleft, visit_buf_of_not hnot]

/-- So the packet is the same chain, but for that. -/
theorem ParsedAt.options (hat : ParsedAt uipLastProto (withBuf uip w.buf) pos protocol)
    (hext : uipIsProtoExtHdr protocol) :
    ParsedAt uipLastProto (withBuf uip (extHdrOptionsProcess selectDag w pos).2.buf) pos protocol := by
  obtain ⟨payload, ks, hs, hpacket, hupper, hlen, rfl, rfl⟩ := hat
  cases hs with
  | nil => exact absurd (hupper.symm.trans hext) Bool.false_ne_true
  | cons h hs =>
    have hsize := h.eight_le_size
    obtain ⟨h', hproto, hpacket'⟩ := @exists_setData _ _
      (withBuf uip (extHdrOptionsProcess selectDag w (40 + chainSize ks)).2.buf) _ _ _ _ hpacket rfl
      rfl fun j _ hout => extHdrOptionsProcess_buf (by omega)
    exact ⟨payload, ks, h' :: hs, hpacket', hupper, hlen, rfl, hproto.symm⟩

/-- What is the case at a call: the lengths agree with the packet, before a source routing header is
processed, and it is processed only then; the extension headers are removed only of other packets. -/
structure CallOk (env : ProcessEnv) (c : ErrorCall) : Prop where
  received : Parsed c.uipLastProto c.received
  packet : c.packet = c.received ∨
    rplExtHeaderSrhUpdate (mtuConfig env.bufsize) c.received = some (true, c.packet)
  stripped : c.stripped → c.kind = .noPort ∧ c.packet = c.received

/-- A call, if there is one, is as it should be. -/
def Outcome.Ok (env : ProcessEnv) (o : Outcome) : Prop :=
  ∀ c, o = .error c → CallOk env c

theorem callError_ok (hp : Parsed uipLastProto (withBuf uip w.buf)) :
    (callError uipLastProto uip kind w).Ok env := by
  rintro c ⟨⟩
  exact ⟨hp, Or.inl rfl, fun h => absurd h Bool.false_ne_true⟩

theorem forwardOrError_ok {received : Uipbuf} (hp : Parsed uipLastProto received)
    (hq : q = received ∨
      rplExtHeaderSrhUpdate (mtuConfig env.bufsize) received = some (true, q)) :
    (forwardOrError uipLastProto received q).Ok env := by
  intro c hc
  rw [forwardOrError] at hc
  split_ifs at hc
  · cases hc
    exact ⟨hp, hq, fun h => absurd h Bool.false_ne_true⟩
  · cases hc
    exact ⟨hp, hq, fun h => absurd h Bool.false_ne_true⟩

theorem processNotMine_ok (hp : Parsed uipLastProto (withBuf uip w.buf)) :
    (processNotMine env uipLastProto uip w).Ok env := by
  intro c hc
  rw [processNotMine] at hc
  split_ifs at hc
  · exact forwardOrError_ok hp (Or.inl rfl) c hc
  · exact callError_ok hp c hc

theorem processOptions_ok (hat : ParsedAt uipLastProto (withBuf uip w.buf) pos protocol)
    (hext : uipIsProtoExtHdr protocol)
    (hnext : ∀ w', ParsedAt uipLastProto (withBuf uip w'.buf) pos protocol →
      (next w').Ok env) :
    (processOptions selectDag uipLastProto uip w pos next).Ok env := by
  intro c hc
  rw [processOptions] at hc
  have hat' := @ParsedAt.options _ _ _ selectDag _ _ hat hext
  split at hc
  · exact hnext _ hat' c hc
  · cases hc
  · exact callError_ok hat'.parsed c hc

theorem processSrh_ok (hp : Parsed uipLastProto (withBuf uip w.buf)) :
    (processSrh env uipLastProto uip w).Ok env := by
  intro c hc
  rw [processSrh] at hc
  split at hc
  · cases hc
  · exact callError_ok hp c hc
  · rename_i q hq
    exact forwardOrError_ok hp (Or.inr hq) c hc

theorem processUpper_ok (hp : Parsed uipLastProto (withBuf uip w.buf)) :
    (processUpper env uipLastProto uip w protocol).Ok env := by
  intro c hc
  rw [processUpper] at hc
  split_ifs at hc
  · rw [udpInput] at hc
    split_ifs at hc
    cases hc
    exact ⟨hp, Or.inl rfl, fun _ => ⟨rfl, rfl⟩⟩
  · exact callError_ok hp c hc

/-- **The loop over the headers.** -/
theorem processLoop_ok : ∀ (fuel : ℕ) (seen : ExtBitmap) (w : Processing) (found : Byte × Option ℕ),
    Parsed uipLastProto (withBuf uip w.buf) →
    (∀ protocol pos, found = (protocol, some pos) →
      ParsedAt uipLastProto (withBuf uip w.buf) pos protocol) →
    (processLoop selectDag env uipLastProto uip fuel seen w found).Ok env := by
  intro fuel
  induction fuel with
  | zero => exact fun _ _ _ _ _ c hc => by cases hc
  | succ fuel ih =>
    rintro seen w ⟨protocol, found⟩ hp hat
    cases found with
    | none => exact callError_ok hp
    | some pos =>
      have hat := hat protocol pos rfl
      have hnext : ∀ (seen : ExtBitmap) (w' : Processing), uipIsProtoExtHdr protocol →
          ParsedAt uipLastProto (withBuf uip w'.buf) pos protocol →
          (processLoop selectDag env uipLastProto uip fuel seen w'
            (uipbufGetNextHeader w'.buf pos (uip.uipLen - pos) false)).Ok env :=
        fun seen w' hext hat' => ih seen w' _ hat'.parsed fun _ _ h => hat'.next hext h
      rw [processLoop]
      split_ifs with hupper hhbho hseen hdesto hseen hrouting hseen hleft hdrop
      · exact processUpper_ok hp
      all_goals
        have hext : uipIsProtoExtHdr protocol := by simpa using hupper
      · exact callError_ok hp
      · exact processOptions_ok hat hext fun w' => hnext _ w' hext
      · exact callError_ok hp
      · exact processOptions_ok hat hext fun w' => hnext _ w' hext
      · exact callError_ok hp
      · exact processSrh_ok hp
      · exact hnext _ w hext hat
      · exact fun c hc => by cases hc
      · exact callError_ok hp

theorem processPacket_ok (hp : Parsed uipLastProto (withBuf uip w.buf)) :
    (processPacket selectDag env uipLastProto uip w).Ok env := by
  have hnext : ∀ w', Parsed uipLastProto (withBuf uip w'.buf) →
      Outcome.Ok env (if env.mine (addrAt w'.buf 24) then
        processLoop selectDag env uipLastProto uip uip.uipLen ⟨false, 0, false⟩ w'
          (uipbufGetNextHeader w'.buf 0 uip.uipLen true)
      else processNotMine env uipLastProto uip w') := by
    intro w' hp'
    split_ifs
    · exact processLoop_ok _ _ _ _ hp' fun _ _ h => hp'.first h
    · exact processNotMine_ok hp'
  rw [processPacket]
  split
  · rename_i protocol pos hfirst
    by_cases hhbho : protocol = 0
    · rw [if_pos hhbho]
      have hat := hp.first hfirst
      exact processOptions_ok hat (by rw [hhbho]; rfl) fun w' hat' => hnext w' hat'.parsed
    · rw [if_neg hhbho]
      exact hnext w hp
  · exact hnext w hp

end Way

/-! ## At a call -/

theorem holds_lenField (buf : ℕ → Byte) : Holds buf 4 (lenField (uipbufGetLenField buf)) := by
  have hhigh := (buf 4).isLt
  have hlow := (buf 5).isLt
  rw [lenField, holds_cons, holds_cons, uipbufGetLenField]
  refine ⟨BitVec.eq_of_toNat_eq ?_, BitVec.eq_of_toNat_eq ?_, holds_nil⟩
  · rw [BitVec.toNat_ofNat]
    omega
  · show (buf 5).toNat = _
    rw [BitVec.toNat_ofNat]
    omega

/-- **The lengths that are taken from a packet** agree with its headers. -/
theorem bookPacket_parsed {buf : ℕ → Byte} {uip : Uipbuf}
    (h : bookPacket buf (uipbufGetLenField buf + uipIphLen) = some (uipLastProto, uip)) :
    uip.buf = buf ∧ Parsed uipLastProto uip := by
  rw [bookPacket] at h
  split at h
  · rename_i proto last hlast
    obtain ⟨rfl, rfl⟩ := Prod.ext_iff.mp (Option.some.inj h)
    obtain ⟨hs, hproto, hbytes, hpos, hext, hsize⟩ := chain_of_last hlast
    refine ⟨rfl, _, hs, ⟨hproto.symm, hbytes, ?_, ?_, ?_⟩, hext, ?_⟩
    · rw [length_bytesAt]
      show uipbufGetLenField buf + uipIphLen = _
      omega
    · show last - uipIphLen = _
      rw [uipIphLen]
      omega
    · show Holds buf 4 (lenField (uipbufGetLenField buf + uipIphLen - uipIphLen))
      rw [Nat.add_sub_cancel]
      exact holds_lenField buf
    · rw [length_bytesAt]
      omega
  · cases h

/-- Each call is as it should be. -/
theorem uipProcess_ok {selectDag : HbhDag → BitVec 16 → HbhDag} {env : ProcessEnv} {rpl : RplTables}
    {buf : ℕ → Byte} {uipLen : ℕ} : (uipProcess selectDag env rpl buf uipLen).Ok env := by
  intro c hc
  rw [uipProcess] at hc
  cases hbook : bookPacket buf (uipbufGetLenField buf + uipIphLen) with
  | none =>
    simp only [hbook] at hc
    split_ifs at hc
  | some booked =>
    obtain ⟨last, uip⟩ := booked
    obtain ⟨rfl, hp⟩ := bookPacket_parsed hbook
    simp only [hbook] at hc
    split_ifs at hc
    exact processPacket_ok hp c hc

/-! ## Source routing headers -/

theorem ParsedAt.search {fuel : ℕ} {proto : Byte} (hat : ParsedAt uipLastProto p pos protocol)
    (h : searchLoop p.buf p.uipLen proto fuel (protocol, some pos) = (protocol', some pos')) :
    ParsedAt uipLastProto p pos' protocol' := by
  induction fuel generalizing protocol pos with
  | zero =>
    cases h
    exact hat
  | succ fuel ih =>
    rw [searchLoop] at h
    split_ifs at h with hmore
    · cases hnext : uipbufGetNextHeader p.buf pos (p.uipLen - pos) false with
      | mk next found =>
        rw [hnext] at h
        cases found with
        | none =>
          exfalso
          cases fuel <;> exact absurd (congrArg Prod.snd h) (some_ne_none pos').symm
        | some pos'' => exact ih (hat.next hmore.2 hnext) h
    · cases h
      exact hat

/-- The source routing header is a header of the chain. -/
theorem Parsed.routing {rh : ℕ} (hp : Parsed uipLastProto p) (h : srhHeader p = some rh) :
    ParsedAt uipLastProto p rh uipProtoRouting := by
  have hsearch : uipbufSearchHeader p.buf p.uipLen uipProtoRouting = some rh := by
    rw [srhHeader] at h
    split at h
    · cases h
    · rename_i pos hpos
      split_ifs at h
      rw [hpos, ← Option.some.inj h]
  rw [uipbufSearchHeader] at hsearch
  split_ifs at hsearch with hproto
  cases hfirst : uipbufGetNextHeader p.buf 0 p.uipLen true with
  | mk protocol found =>
    rw [hfirst] at hsearch hproto
    cases found with
    | none =>
      exfalso
      cases hlen : p.uipLen with
      | zero =>
        rw [hlen] at hsearch
        cases hsearch
      | succ n =>
        rw [hlen] at hsearch
        cases hsearch
    | some pos =>
      exact (hp.first hfirst).search (Prod.ext hproto hsearch)

theorem store_of_write {size : ℕ} {off : ℤ} {mem mem' : ℕ → Byte} {bs : List Byte}
    (h : write size mem off bs = some mem') (hoff : off = pos) : mem' = store mem pos bs := by
  rw [write, hoff, Int.toNat_natCast] at h
  split_ifs at h
  exact (Option.some.inj h).symm

/-- The next address of a source routing header, and how much of it is there. -/
def srhNext (buf : ℕ → Byte) (rh : ℕ) : ℕ × ℕ :=
  let cmpri := (buf (rh + 4) >>> 4).toNat
  (rh + 4 + 4 + (srhPathLen buf rh - buf (rh + 3)).toNat * (16 - cmpri),
    16 - if buf (rh + 3) = 1 then (buf (rh + 4) &&& 0x0f).toNat else cmpri)

/-- **What the update changes**: the destination, the address in its place, and the segments left. -/
theorem srhUpdate_buf {uip : UipConfig} {rh : ℕ} (hrh : srhHeader p = some rh)
    (h : rplExtHeaderSrhUpdate uip p = some (true, q)) :
    q.uipLen = p.uipLen ∧ q.uipExtLen = p.uipExtLen ∧
      ∀ j, ¬(24 ≤ j ∧ j < 40) →
        ¬((srhNext p.buf rh).1 ≤ j ∧ j < (srhNext p.buf rh).1 + (srhNext p.buf rh).2) →
        j ≠ rh + 3 → q.buf j = p.buf j := by
  have hlow : (p.buf (rh + 4) &&& 0x0f).toNat ≤ 16 := by
    have := Nat.and_le_right (n := (p.buf (rh + 4)).toNat) (m := 15)
    rw [BitVec.toNat_and]
    exact this.trans (by decide)
  have hhigh : (p.buf (rh + 4) >>> 4).toNat ≤ 16 := by
    rw [BitVec.toNat_ushiftRight, Nat.shiftRight_eq_div_pow]
    have := (p.buf (rh + 4)).isLt
    omega
  obtain ⟨cmpr, hcmpr⟩ : ∃ cmpr, (if p.buf (rh + 3) = 1 then (p.buf (rh + 4) &&& 0x0f).toNat
      else (p.buf (rh + 4) >>> 4).toNat) = cmpr := ⟨_, rfl⟩
  have hle : cmpr ≤ 16 := by
    rw [← hcmpr]
    split_ifs
    · exact hlow
    · exact hhigh
  rw [srhNext, hcmpr]
  rw [rplExtHeaderSrhUpdate, hrh] at h
  simp only [hcmpr] at h
  generalize rh + 4 + 4 + (srhPathLen p.buf rh - p.buf (rh + 3)).toNat *
    (16 - (p.buf (rh + 4) >>> 4).toNat) = addrPtr at h ⊢
  split_ifs at h with hzero hmany
  · cases h
    exact ⟨rfl, rfl, fun _ _ _ _ => rfl⟩
  · cases h
  · obtain ⟨dest, hdest, h⟩ := bind_eq_some_iff.mp h
    obtain ⟨swapped, hswapped, h⟩ := bind_eq_some_iff.mp h
    obtain ⟨buf, hbuf, h⟩ := bind_eq_some_iff.mp h
    cases h
    rw [@store_of_write (24 + cmpr) _ _ _ _ _ hdest (by push_cast; rfl)] at hswapped
    rw [@store_of_write addrPtr _ _ _ _ _ hswapped rfl] at hbuf
    rw [@store_of_write (rh + 3) _ _ _ _ _ hbuf (by push_cast; rfl)]
    refine ⟨rfl, rfl, fun j hj haddr hleft => ?_⟩
    have hdrop : (p.destipaddr.1.drop cmpr).length = 16 - cmpr := by
      rw [length_drop, p.destipaddr.2]
    have hbeside : ∀ (mem : ℕ → Byte) (start : ℕ) (bs : List Byte),
        ¬(start ≤ j ∧ j < start + bs.length) → store mem start bs j = mem j := by
      intro mem start bs hout
      by_cases hlt : j < start
      · exact store_of_lt hlt
      · exact store_of_le (by omega)
    rw [buf_withBuf, hbeside _ _ _ (by rw [length_singleton]; omega),
      hbeside _ _ _ (by rw [hdrop]; omega), hbeside _ _ _ (by rw [length_bytesAt]; omega)]

/-- The next address of a source routing header is inside of it. -/
def SrhInside (p : Uipbuf) : Prop :=
  ∀ rh, srhHeader p = some rh →
    (srhNext p.buf rh).1 + (srhNext p.buf rh).2 ≤ rh + ((p.buf (rh + 1)).toNat * 8 + 8)

/-- **A source routing header is updated**, and the packet is still a chain, if the next address is
inside of it. -/
theorem Parsed.srhUpdate {uip : UipConfig} (hp : Parsed uipLastProto p) (hinside : SrhInside p)
    (h : rplExtHeaderSrhUpdate uip p = some (true, q)) : Parsed uipLastProto q := by
  cases hrh : srhHeader p with
  | none =>
    rw [rplExtHeaderSrhUpdate, hrh] at h
    cases h
  | some rh =>
    have hinside := hinside rh hrh
    obtain ⟨hqlen, hqext, hbuf⟩ := srhUpdate_buf hrh h
    obtain ⟨payload, ks, hs, hpacket, hupper, hlen, rfl, hproto⟩ := hp.routing hrh
    cases hs with
    | nil =>
      rw [chainProto] at hproto
      rw [← hproto] at hupper
      cases hupper
    | cons hdr hs =>
      have hsize := (ParsedAt.atChain hpacket).hdrLen
      have height := hdr.eight_le_size
      have hstart : 40 + chainSize ks + 8 ≤ (srhNext p.buf (40 + chainSize ks)).1 := Nat.le_add_right _ _
      obtain ⟨h', -, hpacket'⟩ := exists_setData hpacket hqlen hqext fun j hj hout => by
        refine hbuf j ?_ (by omega) (by omega)
        simp only [mem_cons, not_mem_nil, or_false] at hj
        omega
      exact ⟨payload, ks ++ h' :: hs, hpacket', hupper, hlen⟩

/-- **The lengths agree with the packet at each call**, if an address that was swapped is inside of its
header. -/
theorem uipProcess_parsed {selectDag : HbhDag → BitVec 16 → HbhDag} {env : ProcessEnv}
    {rpl : RplTables} {buf : ℕ → Byte} {uipLen : ℕ} {c : ErrorCall}
    (hc : uipProcess selectDag env rpl buf uipLen = .error c)
    (hinside : c.packet = c.received ∨ SrhInside c.received) : Parsed c.uipLastProto c.packet := by
  have hok := uipProcess_ok c hc
  rcases hok.packet with hsame | hupdate
  · rw [hsame]
    exact hok.received
  · rcases hinside with hsame | hinside
    · rw [hsame]
      exact hok.received
    · exact hok.received.srhUpdate hinside hupdate

end Asap.Ipv6
