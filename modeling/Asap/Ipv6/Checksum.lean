import Asap.Rpl.ExtHeaderRemove
import Asap.Lib.OnesComplement
import Asap.Ipv6.NeighborDiscovery

/-!
# The checksums of upper-layer protocols

ICMPv6, TCP and UDP share one checksum: the one's complement sum of the words of a pseudo-header, the
header and the data. The sender sets the field of the checksum to zero, takes the sum, and puts its
complement there; the sum of the packet is then the word of ones, which is what the receiver looks
for. UDP has no checksum of zero, and the receiver takes a packet with a zero in the field as one
without a checksum.

The words of a packet are in network order, and those of the machine are in its own.

## Main definitions

* `upperLayerChksum` — the sum.
* `setChksum`, `chksumOk` — the field is filled in, and the packet is checked.
* `rfcSum` — the one's complement sum of the pseudo-header and the data.

## Main results

* `upper_layer_chksum_round_trip` — the sum is the right one, a packet that is sent passes the check,
  and a packet with another sum does not.
-/

namespace Asap.Ipv6

open Asap.Lib Asap.Rpl

/-! ## The functions -/

/-- The order of the bytes of a word in the memory of the machine. -/
inductive ByteOrder where
  | little
  | big
deriving DecidableEq

/-- `UIP_HTONS` -/
def ByteOrder.htons : ByteOrder → BitVec 16 → BitVec 16
  | .little, v => v <<< 8 ||| v >>> 8
  | .big, v => v

/-- The bytes of a word in memory. -/
def ByteOrder.bytes (order : ByteOrder) (v : BitVec 16) : List Byte := netBytes (order.htons v)

/-- The word of two bytes, the high byte first. -/
def netWord (high low : Byte) : BitVec 16 := high.setWidth 16 <<< 8 + low.setWidth 16

/-- The word at an offset in memory. -/
def ByteOrder.load (order : ByteOrder) (mem : ℕ → Byte) (pos : ℕ) : BitVec 16 :=
  order.htons (netWord (mem pos) (mem (pos + 1)))

/-- `chksum` -/
def chksum (sum : BitVec 16) : List Byte → BitVec 16
  | high :: low :: data =>
    let t := netWord high low
    let sum := sum + t
    chksum (if sum < t then sum + 1 else sum) data
  | [last] =>
    let t := netWord last 0
    let sum := sum + t
    if sum < t then sum + 1 else sum
  | [] => sum

/-- The upper-layer protocols. -/
inductive UpperProto where
  | icmp6
  | tcp
  | udp
deriving DecidableEq

/-- `UIP_PROTO_ICMP6`, `UIP_PROTO_TCP` and `UIP_PROTO_UDP` -/
def UpperProto.proto : UpperProto → Byte
  | .icmp6 => 58
  | .tcp => 6
  | .udp => 17

/-- Where the checksum is in the header: `icmpchksum`, `tcpchksum` and `udpchksum`. -/
def UpperProto.chksumOffset : UpperProto → ℕ
  | .icmp6 => 2
  | .tcp => 16
  | .udp => 6

/-- `upper_layer_len` -/
def upperLayerLen (p : Uipbuf) : BitVec 16 :=
  BitVec.ofNat 16 (uipbufGetLenField p.buf) - BitVec.ofNat 16 p.uipExtLen

/-- `upper_layer_chksum` -/
def upperLayerChksum (order : ByteOrder) (p : Uipbuf) (proto : Byte) : BitVec 16 :=
  let upperLayerLen := upperLayerLen p
  let sum := upperLayerLen + proto.setWidth 16
  let sum := chksum sum (bytesAt p.buf 8 32)
  let sum := chksum sum (bytesAt p.buf (uipIphLen + p.uipExtLen) upperLayerLen.toNat)
  if sum = 0 then 0xffff else order.htons sum

/-- Where the checksum is in the packet. -/
def chksumPos (u : UpperProto) (p : Uipbuf) : ℕ := uipIphLen + p.uipExtLen + u.chksumOffset

/-- A checksum is stored in the packet. -/
def storeChksum (order : ByteOrder) (u : UpperProto) (v : BitVec 16) (p : Uipbuf) : Uipbuf :=
  withBuf p (store p.buf (chksumPos u p) (order.bytes v))

/-- How the checksum of a packet is set: the complement of the sum with zero in its place. For UDP
the word of ones stands for zero. -/
def setChksum (order : ByteOrder) (u : UpperProto) (p : Uipbuf) : Uipbuf :=
  let p := storeChksum order u 0 p
  let v := ~~~ upperLayerChksum order p u.proto
  let p := storeChksum order u v p
  if u = .udp ∧ v = 0 then storeChksum order u 0xffff p else p

/-- `uip_remove_ext_hdr`. The packet has its extension headers, so it is not too short. -/
def uipRemoveExtHdr (uipLastProto : Byte) (p : Uipbuf) : Bool × Uipbuf :=
  if 0 < p.uipExtLen then
    let p := withBuf p (store p.buf 6 [uipLastProto])
    let p := withBuf p (moveLeft p.buf uipIphLen p.uipExtLen (p.uipLen - p.uipExtLen))
    match uipbufSubExtHdr ⟨uipLinkMtu, uipLinkMtu, by decide⟩ p p.uipExtLen with
    | none => (false, p)
    | some p => (true, withBuf p (store p.buf 4 (lenField (p.uipLen - uipIphLen))))
  else (true, p)

/-- The check of the checksum in `uip_process`, with `UIP_CONF_IPV6_CHECKS` and
`UIP_UDP_CHECKSUMS`. -/
def chksumOk (order : ByteOrder) (uipLastProto : Byte) (u : UpperProto) (p : Uipbuf) : Bool :=
  match u with
  | .icmp6 => upperLayerChksum order p u.proto = 0xffff
  | .tcp =>
    let p := (uipRemoveExtHdr uipLastProto p).2
    upperLayerChksum order p u.proto = 0xffff
  | .udp =>
    let p := (uipRemoveExtHdr uipLastProto p).2
    !(order.load p.buf (chksumPos u p) ≠ 0 && upperLayerChksum order p u.proto ≠ 0xffff)

/-! ## What is expected -/

/-- The lengths of the packet agree, it fits the MTU, and it has the field of the checksum. -/
structure Checksummed (u : UpperProto) (p : Uipbuf) : Prop where
  lenField : uipbufGetLenField p.buf + uipIphLen = p.uipLen
  mtu : p.uipLen ≤ uipLinkMtu
  field : chksumPos u p + 2 ≤ p.uipLen

/-- The data after the extension headers. -/
def upperLayer (p : Uipbuf) : List Byte :=
  bytesAt p.buf (uipIphLen + p.uipExtLen) (p.uipLen - uipIphLen - p.uipExtLen)

/-- The pseudo-header: the addresses, the length of the data in four bytes, and the protocol in the
last of four bytes. -/
def pseudoHeader (u : UpperProto) (p : Uipbuf) : List Byte :=
  bytesAt p.buf 8 32 ++ ([0, 0] ++ netBytes (BitVec.ofNat 16 (upperLayer p).length)) ++
    [0, 0, 0, u.proto]

/-- The words of some bytes in network order; a zero is put behind an odd number of bytes. -/
def netWords : List Byte → List (BitVec 16)
  | high :: low :: data => netWord high low :: netWords data
  | [last] => [netWord last 0]
  | [] => []

/-- The one's complement sum of the words of some bytes. -/
def onesSum (bs : List Byte) : ℕ := endAround (2 ^ 16 - 1) ((netWords bs).map BitVec.toNat).sum

/-- The sum of the pseudo-header and the data. -/
def rfcSum (u : UpperProto) (p : Uipbuf) : ℕ := onesSum (pseudoHeader u p ++ upperLayer p)

variable {order : ByteOrder} {u : UpperProto} {p r : Uipbuf} {uipLastProto : Byte}

/-! ## Sums of words -/

theorem htons_htons (order : ByteOrder) (v : BitVec 16) : order.htons (order.htons v) = v := by
  cases order with
  | little =>
    apply BitVec.eq_of_getLsbD_eq
    intro i hi
    have hout : v.getLsbD (8 + (8 + i)) = false := BitVec.getLsbD_of_ge v _ (by omega)
    by_cases hlow : i < 8
    · have hsub : 8 + i - 8 = i := by omega
      have hnext : 8 + i < 16 := by omega
      simp [ByteOrder.htons, hlow, hi, hsub, hnext, hout]
    · have hsub : 8 + (i - 8) = i := by omega
      have hnext : ¬ 8 + i < 16 := by omega
      have hprev : i - 8 < 8 := by omega
      simp [ByteOrder.htons, hlow, hi, hsub, hnext, hprev, hout]
  | big => rfl

theorem htons_eq_iff (order : ByteOrder) {v t : BitVec 16} :
    order.htons v = t ↔ v = order.htons t :=
  ⟨fun h => by rw [← h, htons_htons], fun h => by rw [h, htons_htons]⟩

theorem toNat_netWord (high low : Byte) :
    (netWord high low).toNat = high.toNat * 256 + low.toNat := by
  have hhigh := high.isLt
  have hlow := low.isLt
  simp only [netWord, BitVec.toNat_add, BitVec.toNat_shiftLeft, BitVec.toNat_setWidth,
    Nat.shiftLeft_eq]
  omega

/-- `chksum` is the one's complement sum of the words. -/
theorem chksum_eq (sum : BitVec 16) (bs : List Byte) :
    chksum sum bs = (netWords bs).foldl addCarry sum := by
  fun_induction chksum sum bs with
  | case1 sum high low data t sum' ih => exact ih
  | case2 sum last t sum' hlt => exact (if_pos hlt).symm
  | case3 sum last t sum' hlt => exact (if_neg hlt).symm
  | case4 sum => rfl

/-- The sum of the words of some bytes. -/
def wordSum (bs : List Byte) : ℕ := ((netWords bs).map BitVec.toNat).sum

@[simp] theorem wordSum_nil : wordSum [] = 0 := rfl

theorem wordSum_cons_cons (high low : Byte) (bs : List Byte) :
    wordSum (high :: low :: bs) = high.toNat * 256 + low.toNat + wordSum bs := by
  rw [wordSum, netWords, List.map_cons, List.sum_cons, toNat_netWord, wordSum]

/-- Behind an even number of bytes the words go on. -/
theorem wordSum_append {bs : List Byte} (heven : Even bs.length) (bs' : List Byte) :
    wordSum (bs ++ bs') = wordSum bs + wordSum bs' := by
  induction bs using netWords.induct with
  | case1 high low data ih =>
    have hdata : Even data.length := by simpa [Nat.even_add_one] using heven
    rw [List.cons_append, List.cons_append, wordSum_cons_cons, wordSum_cons_cons, ih hdata,
      ← Nat.add_assoc]
  | case2 last => simp at heven
  | case3 => rw [List.nil_append, wordSum_nil, Nat.zero_add]

theorem wordSum_netBytes (v : BitVec 16) : wordSum (netBytes v) = v.toNat := by
  rw [netBytes, wordSum_cons_cons, wordSum_nil, Nat.add_zero, BitVec.toNat_setWidth,
    BitVec.toNat_setWidth, BitVec.toNat_ushiftRight, Nat.shiftRight_eq_div_pow]
  have := v.isLt
  omega

theorem toNat_chksum (sum : BitVec 16) (bs : List Byte) :
    (chksum sum bs).toNat = endAround 65535 (sum.toNat + wordSum bs) := by
  rw [chksum_eq]
  exact toNat_foldl_addCarry sum (netWords bs)

/-! ## The sum of a packet -/

/-- The sum of all words of the pseudo-header and the data. -/
def wordTotal (u : UpperProto) (p : Uipbuf) : ℕ :=
  (upperLayer p).length + u.proto.toNat + wordSum (bytesAt p.buf 8 32) + wordSum (upperLayer p)

theorem wordTotal_pos (u : UpperProto) (p : Uipbuf) : 0 < wordTotal u p := by
  have hproto : 0 < u.proto.toNat := by cases u <;> decide
  rw [wordTotal]
  omega

theorem length_upperLayer (p : Uipbuf) :
    (upperLayer p).length = p.uipLen - uipIphLen - p.uipExtLen := length_bytesAt ..

theorem Checksummed.uipExtLen_le (h : Checksummed u p) :
    uipIphLen + p.uipExtLen + 2 ≤ p.uipLen ∧ p.uipLen ≤ 1280 :=
  ⟨by have := h.field; rw [chksumPos] at this; omega, h.mtu⟩

theorem rfcSum_eq (h : p.uipLen ≤ uipLinkMtu) : rfcSum u p = endAround 65535 (wordTotal u p) := by
  have hlen : (upperLayer p).length < 2 ^ 16 := by
    rw [length_upperLayer]
    rw [uipLinkMtu] at h
    omega
  have hpseudo : wordSum (pseudoHeader u p) =
      wordSum (bytesAt p.buf 8 32) + (upperLayer p).length + u.proto.toNat := by
    have hlast : wordSum [0, 0, 0, u.proto] = u.proto.toNat := by
      simp [wordSum_cons_cons]
    have hzero : wordSum [0, 0] = 0 := rfl
    rw [pseudoHeader, wordSum_append (by simp [netBytes]; decide), hlast,
      wordSum_append (by rw [length_bytesAt]; decide), wordSum_append (by decide), hzero,
      wordSum_netBytes, BitVec.toNat_ofNat, Nat.mod_eq_of_lt hlen, Nat.zero_add]
  have hsum : wordSum (pseudoHeader u p ++ upperLayer p) = wordTotal u p := by
    rw [wordSum_append (by simp [pseudoHeader, netBytes]; decide), hpseudo, wordTotal]
    omega
  rw [rfcSum, onesSum, ← hsum]
  rfl

theorem toNat_upperLayerLen (h : Checksummed u p) :
    (upperLayerLen p).toNat = (upperLayer p).length := by
  have hext := h.uipExtLen_le
  have hlen := h.lenField
  rw [upperLayerLen, length_upperLayer, BitVec.toNat_sub, BitVec.toNat_ofNat, BitVec.toNat_ofNat]
  rw [uipIphLen] at *
  omega

/-- **The value** is the one's complement sum, which is not zero. -/
theorem toNat_upperLayerChksum (h : Checksummed u p) :
    (order.htons (upperLayerChksum order p u.proto)).toNat = endAround 65535 (wordTotal u p) := by
  have hlen := toNat_upperLayerLen h
  have hstart : (upperLayerLen p + u.proto.setWidth 16).toNat =
      (upperLayer p).length + u.proto.toNat := by
    have hext := h.uipExtLen_le
    have hproto := u.proto.isLt
    rw [BitVec.toNat_add, BitVec.toNat_setWidth, hlen, length_upperLayer,
      Nat.mod_eq_of_lt (Nat.lt_of_lt_of_le hproto (by decide)), Nat.mod_eq_of_lt (by omega)]
  have hsum : (chksum (chksum (upperLayerLen p + u.proto.setWidth 16) (bytesAt p.buf 8 32))
      (bytesAt p.buf (uipIphLen + p.uipExtLen) (upperLayerLen p).toNat)).toNat =
        endAround 65535 (wordTotal u p) := by
    rw [toNat_chksum, toNat_chksum, endAround_add, hstart, hlen, length_upperLayer, wordTotal,
      length_upperLayer, upperLayer]
  have hne : chksum (chksum (upperLayerLen p + u.proto.setWidth 16) (bytesAt p.buf 8 32))
      (bytesAt p.buf (uipIphLen + p.uipExtLen) (upperLayerLen p).toNat) ≠ 0 := by
    intro hzero
    rw [hzero] at hsum
    exact Nat.ne_of_gt (wordTotal_pos u p) (endAround_eq_zero.mp hsum.symm)
  rw [upperLayerChksum]
  simp only [if_neg hne, htons_htons]
  exact hsum

/-- The sum is the word of ones if and only if it is a multiple of that word. -/
theorem upperLayerChksum_eq_ones (h : Checksummed u p) :
    upperLayerChksum order p u.proto = 0xffff ↔ rfcSum u p = 65535 := by
  have hones : order.htons 0xffff = 0xffff := by cases order <;> decide
  rw [rfcSum_eq h.mtu, ← @toNat_upperLayerChksum order _ _ h, ← hones, ← htons_eq_iff]
  exact ⟨fun heq => congrArg BitVec.toNat heq, fun heq => BitVec.eq_of_toNat_eq heq⟩

/-! ## The check -/

/-- The word in the field of the checksum. -/
def chksumField (order : ByteOrder) (u : UpperProto) (p : Uipbuf) : BitVec 16 :=
  order.load p.buf (chksumPos u p)

/-- The packet without its extension headers. -/
theorem uipRemoveExtHdr_of_pos (hpos : 0 < p.uipExtLen) (hmtu : p.uipLen ≤ 1280)
    (uipLastProto : Byte) :
    ∃ q, uipRemoveExtHdr uipLastProto p = (true, q) ∧ q.uipLen = p.uipLen - p.uipExtLen ∧
      q.uipExtLen = 0 ∧
      q.buf = store (moveLeft (store p.buf 6 [uipLastProto]) uipIphLen p.uipExtLen
        (p.uipLen - p.uipExtLen)) 4 (lenField (p.uipLen - p.uipExtLen - uipIphLen)) := by
  have hheaders := p.headers_le
  generalize hmoved : withBuf p (moveLeft (store p.buf 6 [uipLastProto]) uipIphLen p.uipExtLen
    (p.uipLen - p.uipExtLen)) = moved
  obtain ⟨q, hq, hbuf, hlen, hext⟩ :
      ∃ q, uipbufSubExtHdr ⟨uipLinkMtu, uipLinkMtu, by decide⟩ moved p.uipExtLen = some q ∧
        q.buf = moved.buf ∧ q.uipLen = moved.uipLen - p.uipExtLen ∧
        q.uipExtLen = moved.uipExtLen - p.uipExtLen := by
    have hcond : moved.uipLen - p.uipExtLen ≤ uipLinkMtu ∧ p.uipExtLen ≤ moved.uipLen ∧
        p.uipExtLen ≤ moved.uipExtLen := by
      rw [← hmoved]
      exact ⟨(Nat.sub_le ..).trans hmtu, by rw [uipLen_withBuf]; omega, le_rfl⟩
    rw [uipbufSubExtHdr, dif_pos hcond]
    exact ⟨_, rfl, rfl, rfl, rfl⟩
  have hremove : uipRemoveExtHdr uipLastProto p =
      (true, withBuf q (store q.buf 4 (lenField (q.uipLen - uipIphLen)))) := by
    rw [uipRemoveExtHdr, if_pos hpos]
    simp only [withBuf] at hmoved ⊢
    rw [hmoved, hq]
  refine ⟨_, hremove, ?_, ?_, ?_⟩
  · rw [uipLen_withBuf, hlen, ← hmoved, uipLen_withBuf]
  · rw [uipExtLen_withBuf, hext, ← hmoved, uipExtLen_withBuf, Nat.sub_self]
  · rw [buf_withBuf, hlen, hbuf, ← hmoved, buf_withBuf, uipLen_withBuf]

/-- What the removal of the extension headers leaves: the addresses, and the data at its place behind
the header. -/
theorem uipRemoveExtHdr_spec (h : Checksummed u p) (uipLastProto : Byte) :
    ∃ q, uipRemoveExtHdr uipLastProto p = (true, q) ∧ Checksummed u q ∧
      rfcSum u q = rfcSum u p ∧ chksumField order u q = chksumField order u p := by
  obtain ⟨hext, hmtu⟩ := h.uipExtLen_le
  by_cases hpos : 0 < p.uipExtLen
  · obtain ⟨q, hq, hqlen, hqext, hbuf⟩ := uipRemoveExtHdr_of_pos hpos hmtu uipLastProto
    have hlen : uipbufGetLenField q.buf + uipIphLen = q.uipLen := by
      have hset : uipbufGetLenField q.buf = p.uipLen - p.uipExtLen - uipIphLen := by
        refine uipbufGetLenField_of_holds ?_ (by omega)
        rw [hbuf]
        exact holds_store _ _ _
      rw [hset, hqlen]
      omega
    have haddr : bytesAt q.buf 8 32 = bytesAt p.buf 8 32 := by
      rw [hbuf, bytesAt_store_of_beside (Or.inr (by simp [lenField]))]
      refine bytesAt_congr fun i hle hlt => ?_
      rw [moveLeft, if_neg (by rw [uipIphLen]; omega), store_of_le (by simp; omega)]
    have hdata : ∀ i, uipIphLen ≤ i → i < q.uipLen → q.buf i = p.buf (i + p.uipExtLen) := by
      intro i hle hlt
      rw [uipIphLen] at hle
      rw [hbuf, store_of_le (by simp [lenField]; omega), moveLeft,
        if_pos ⟨hle, by rwa [← hqlen]⟩, store_of_le (by simp; omega)]
    have hupper : upperLayer q = upperLayer p := by
      rw [upperLayer, upperLayer, hqlen, hqext, Nat.sub_zero, Nat.add_zero, Nat.sub_right_comm]
      refine List.map_congr_left fun i hi => ?_
      rw [List.mem_range] at hi
      rw [hdata (uipIphLen + i) (Nat.le_add_right ..) (by omega), Nat.add_right_comm]
    have hpos' : chksumPos u q + p.uipExtLen = chksumPos u p := by
      rw [chksumPos, chksumPos, hqext]
      omega
    have hfield := h.field
    have hle : uipIphLen ≤ chksumPos u q := by
      rw [chksumPos, hqext]
      omega
    refine ⟨q, hq, ⟨hlen, ?_, by omega⟩, ?_, ?_⟩
    · rw [hqlen]
      exact (Nat.sub_le ..).trans h.mtu
    · rw [rfcSum, rfcSum, pseudoHeader, pseudoHeader, haddr, hupper]
    · rw [chksumField, chksumField, ByteOrder.load, ByteOrder.load, hdata _ hle (by omega),
        hdata _ (by omega) (by omega), Nat.add_right_comm, hpos']
  · refine ⟨p, ?_, h, rfl, rfl⟩
    rw [uipRemoveExtHdr, if_neg hpos]

/-- **The check** passes a packet with the sum of ones, and a UDP packet with a zero in the field. -/
theorem chksumOk_iff (h : Checksummed u p) :
    chksumOk order uipLastProto u p = true ↔
      rfcSum u p = 65535 ∨ u = .udp ∧ chksumField order u p = 0 := by
  obtain ⟨q, hq, hok, hsum, hfield⟩ := @uipRemoveExtHdr_spec order _ _ h uipLastProto
  cases u with
  | icmp6 =>
    simp only [chksumOk, decide_eq_true_eq, upperLayerChksum_eq_ones h, reduceCtorEq, false_and,
      or_false]
  | tcp =>
    simp only [chksumOk, hq, decide_eq_true_eq, upperLayerChksum_eq_ones hok, hsum, reduceCtorEq,
      false_and, or_false]
  | udp =>
    have hload : order.load q.buf (chksumPos .udp q) = chksumField order .udp p := hfield
    simp only [chksumOk, hq, hload, ne_eq, upperLayerChksum_eq_ones hok, hsum, Bool.not_eq_true',
      Bool.and_eq_false_iff, decide_eq_false_iff_not, not_not, true_and]
    exact or_comm

/-! ## Setting the checksum -/

theorem netWord_netBytes (v : BitVec 16) :
    netWord ((v >>> 8).setWidth 8) (v.setWidth 8) = v := by
  refine BitVec.eq_of_toNat_eq ?_
  have hsum := wordSum_netBytes v
  rwa [netBytes, wordSum_cons_cons, wordSum_nil, Nat.add_zero, ← toNat_netWord] at hsum

theorem even_chksumOffset (u : UpperProto) (p : Uipbuf) :
    Even (chksumPos u p - (uipIphLen + p.uipExtLen)) := by
  rw [chksumPos, Nat.add_sub_cancel_left]
  cases u <;> decide

/-- The packet with another word at a position. -/
def withWord (p : Uipbuf) (pos : ℕ) (v : BitVec 16) : Uipbuf :=
  withBuf p (store p.buf pos (netBytes v))

section

variable {pos : ℕ} (hpos : uipIphLen + p.uipExtLen ≤ pos) (hend : pos + 2 ≤ p.uipLen)

include hpos hend

/-- The data with a word in it. -/
theorem upperLayer_withWord (v : BitVec 16) : upperLayer (withWord p pos v) =
    bytesAt p.buf (uipIphLen + p.uipExtLen) (pos - (uipIphLen + p.uipExtLen)) ++
      (netBytes v ++ bytesAt p.buf (pos + 2) (p.uipLen - (pos + 2))) := by
  have hlen : p.uipLen - uipIphLen - p.uipExtLen =
      (pos - (uipIphLen + p.uipExtLen)) + (2 + (p.uipLen - (pos + 2))) := by omega
  have hself : bytesAt (store p.buf pos (netBytes v)) pos 2 = netBytes v := bytesAt_store_self
  have hrest : bytesAt (store p.buf pos (netBytes v)) (pos + 2) (p.uipLen - (pos + 2)) =
      bytesAt p.buf (pos + 2) (p.uipLen - (pos + 2)) := bytesAt_store_of_beside (Or.inr le_rfl)
  simp only [upperLayer, withWord, buf_withBuf, uipLen_withBuf, uipExtLen_withBuf, hlen,
    bytesAt_add, Nat.add_sub_cancel' hpos, hself, hrest]
  rw [bytesAt_store_of_beside (Or.inl (Nat.add_sub_cancel' hpos).le)]

/-- A word at an even offset counts with its value, beside the rest of the packet. -/
theorem withWord_spec (h : Checksummed u p) (heven : Even (pos - (uipIphLen + p.uipExtLen)))
    (v : BitVec 16) : Checksummed u (withWord p pos v) ∧
      wordTotal u (withWord p pos v) = wordTotal u (withWord p pos 0) + v.toNat := by
  have hforty : 40 ≤ pos := (Nat.le_add_right ..).trans hpos
  have hlen : uipbufGetLenField (withWord p pos v).buf = uipbufGetLenField p.buf := by
    rw [uipbufGetLenField, uipbufGetLenField, withWord, buf_withBuf, store_of_lt (by omega),
      store_of_lt (by omega)]
  refine ⟨⟨by rw [hlen]; exact h.lenField, h.mtu, h.field⟩, ?_⟩
  have haddr : ∀ v, bytesAt (withWord p pos v).buf 8 32 = bytesAt p.buf 8 32 := fun v =>
    bytesAt_store_of_beside (Or.inl (by omega))
  have hstart : Even (bytesAt p.buf (uipIphLen + p.uipExtLen)
      (pos - (uipIphLen + p.uipExtLen))).length := by rwa [length_bytesAt]
  have hword : ∀ v, Even (netBytes v).length := fun v => even_two
  have hlength : ∀ v, (netBytes v).length = 2 := fun v => rfl
  have hzero : (0 : BitVec 16).toNat = 0 := rfl
  simp only [wordTotal, upperLayer_withWord hpos hend, haddr, List.length_append, hlength,
    wordSum_append hstart, wordSum_append (hword _), wordSum_netBytes, hzero]
  omega

end

/-- A checksum in the packet counts with its value, beside the rest of the packet. -/
theorem storeChksum_spec (h : Checksummed u p) (v : BitVec 16) :
    Checksummed u (storeChksum order u v p) ∧ chksumField order u (storeChksum order u v p) = v ∧
      wordTotal u (storeChksum order u v p) =
        wordTotal u (storeChksum order u 0 p) + (order.htons v).toNat := by
  have hzero : order.htons 0 = 0 := by cases order <;> decide
  obtain ⟨hok, htotal⟩ := withWord_spec (Nat.le_add_right ..) h.field h (even_chksumOffset u p)
    (order.htons v)
  refine ⟨hok, ?_, ?_⟩
  · obtain ⟨hhigh, hlow, -⟩ : store p.buf (chksumPos u p) (order.bytes v) (chksumPos u p) = _ ∧
        store p.buf (chksumPos u p) (order.bytes v) (chksumPos u p + 1) = _ ∧ True := by
      have hstore := holds_store p.buf (chksumPos u p) (order.bytes v)
      simpa only [ByteOrder.bytes, netBytes, holds_cons, holds_nil] using hstore
    have hsame : chksumPos u (storeChksum order u v p) = chksumPos u p := rfl
    rw [chksumField, ByteOrder.load, hsame, storeChksum, buf_withBuf, hhigh, hlow, netWord_netBytes,
      htons_htons]
  · rw [storeChksum, storeChksum, ByteOrder.bytes, ByteOrder.bytes, hzero]
    exact htotal

theorem storeChksum_storeChksum (v t : BitVec 16) :
    storeChksum order u v (storeChksum order u t p) = storeChksum order u v p := by
  have hbuf : store (store p.buf (chksumPos u p) (order.bytes t)) (chksumPos u p) (order.bytes v) =
      store p.buf (chksumPos u p) (order.bytes v) := by
    funext i
    simp only [store]
    split_ifs with hle
    · by_cases hlt : i - chksumPos u p < 2
      · have hget : (order.bytes v)[i - chksumPos u p]? = some _ := List.getElem?_eq_getElem hlt
        rw [hget]
        rfl
      · have hnone : (order.bytes t)[i - chksumPos u p]? = none :=
          List.getElem?_eq_none (Nat.le_of_not_lt hlt)
        rw [hnone]
        rfl
    · rfl
  rw [storeChksum, storeChksum, storeChksum]
  exact congrArg (withBuf p) hbuf

theorem toNat_htons_not (order : ByteOrder) (v : BitVec 16) :
    (order.htons (~~~ v)).toNat = 65535 - (order.htons v).toNat := by
  have hnot : order.htons (~~~ v) = ~~~ order.htons v := by
    cases order with
    | little =>
      apply BitVec.eq_of_getLsbD_eq
      intro i hi
      by_cases hlow : i < 8
      · have hnext : 8 + i < 16 := by omega
        simp [ByteOrder.htons, hlow, hi, hnext]
      · have hout : v.getLsbD (8 + i) = false := BitVec.getLsbD_of_ge v _ (by omega)
        have hnext : ¬ 8 + i < 16 := by omega
        simp [ByteOrder.htons, hlow, hi, hnext, hout]
    | big => rfl
  rw [hnot, BitVec.toNat_not]

/-- **A packet with its checksum set** has the sum of ones. -/
theorem setChksum_spec (order : ByteOrder) (h : Checksummed u p) :
    Checksummed u (setChksum order u p) ∧ rfcSum u (setChksum order u p) = 65535 := by
  have hzero := (@storeChksum_spec order _ _ h 0).1
  generalize hv : ~~~ upperLayerChksum order (storeChksum order u 0 p) u.proto = v
  have hval : (order.htons v).toNat =
      65535 - endAround 65535 (wordTotal u (storeChksum order u 0 p)) := by
    rw [← hv, toNat_htons_not, toNat_upperLayerChksum hzero]
  have hset : setChksum order u p =
      storeChksum order u (if u = .udp ∧ v = 0 then 0xffff else v) p := by
    simp only [setChksum, hv, storeChksum_storeChksum]
    split_ifs <;> rfl
  obtain ⟨hok, -, htotal⟩ :=
    @storeChksum_spec order _ _ h (if u = .udp ∧ v = 0 then 0xffff else v)
  rw [← hset] at hok htotal
  refine ⟨hok, ?_⟩
  have hpos := wordTotal_pos u (storeChksum order u 0 p)
  have hcomplement : endAround 65535 (wordTotal u (storeChksum order u 0 p) +
      (order.htons v).toNat) = 65535 := by
    rw [hval]
    exact endAround_complement (by decide) hpos
  rw [rfcSum_eq hok.mtu, htotal]
  split_ifs with hudp
  · -- zero and the word of ones have the same residue
    have hones : (order.htons 0xffff).toNat = 65535 := by cases order <;> decide
    have hnone : (order.htons 0).toNat = 0 := by cases order <;> decide
    rw [hudp.2, hnone, Nat.add_zero] at hcomplement
    rw [hones, endAround_add_self hpos, hcomplement]
  · exact hcomplement

/-- **The round trip**: the sum is that of the pseudo-header and the data, a packet with its checksum
set passes the check, and a packet with another sum does not, unless it is a UDP packet with a zero
in the field. -/
theorem upper_layer_chksum_round_trip (order : ByteOrder) (uipLastProto : Byte)
    (h : Checksummed u p) :
    (order.htons (upperLayerChksum order p u.proto)).toNat = rfcSum u p ∧
      chksumOk order uipLastProto u (setChksum order u p) = true ∧
      ∀ r, Checksummed u r → rfcSum u r ≠ rfcSum u (setChksum order u p) →
        ¬ (u = .udp ∧ chksumField order u r = 0) → chksumOk order uipLastProto u r = false := by
  obtain ⟨hok, hsum⟩ := setChksum_spec order h
  refine ⟨by rw [rfcSum_eq h.mtu, toNat_upperLayerChksum h],
    (chksumOk_iff hok).mpr (Or.inl hsum), fun r hr hne hfield => ?_⟩
  rw [← Bool.not_eq_true, chksumOk_iff hr]
  rintro (hones | hzero)
  · exact hne (hones.trans hsum.symm)
  · exact hfield hzero

/-- **A change of one word is detected**: of two packets that differ in an aligned word, where one has
the sum of ones, the other passes the check only if its word has the same residue, as zero and the word
of ones have, or if it is a UDP packet with a zero in the field. -/
theorem chksumOk_withWord {pos : ℕ} (h : Checksummed u p) (hpos : uipIphLen + p.uipExtLen ≤ pos)
    (heven : Even (pos - (uipIphLen + p.uipExtLen))) (hend : pos + 2 ≤ p.uipLen) (v w : BitVec 16)
    (hv : chksumOk order uipLastProto u (withWord p pos v) = true)
    (hfield : ¬(u = .udp ∧ chksumField order u (withWord p pos v) = 0)) :
    chksumOk order uipLastProto u (withWord p pos w) = true ↔
      v.toNat % 65535 = w.toNat % 65535 ∨
        u = .udp ∧ chksumField order u (withWord p pos w) = 0 := by
  have hsum : ∀ w, rfcSum u (withWord p pos w) = 65535 ↔
      65535 ∣ wordTotal u (withWord p pos 0) + w.toNat := by
    intro w
    obtain ⟨hok, htotal⟩ := withWord_spec hpos hend h heven w
    rw [rfcSum_eq hok.mtu, endAround_eq_iff (by decide), htotal]
    have := wordTotal_pos u (withWord p pos 0)
    omega
  have hvsum := (hsum v).mp
    (((chksumOk_iff (withWord_spec hpos hend h heven v).1).mp hv).resolve_right hfield)
  rw [chksumOk_iff (withWord_spec hpos hend h heven w).1, hsum w]
  refine or_congr_left ?_
  omega

/-- A UDP packet without data, from the unspecified address. -/
def udpPacket (chksum : Byte) : Uipbuf :=
  ⟨fun i => if i = 5 then 8 else if i = 46 then chksum else 0, 48, 0, by decide⟩

theorem checksummed_udpPacket (chksum : Byte) : Checksummed .udp (udpPacket chksum) where
  lenField := by simp [uipbufGetLenField, udpPacket, uipIphLen]
  mtu := by simp [udpPacket, uipLinkMtu]
  field := by simp [udpPacket, chksumPos, uipIphLen, UpperProto.chksumOffset]

theorem udp_chksum_round_trip :
    chksumOk .little 17 .udp (setChksum .little .udp (udpPacket 0)) = true :=
  (upper_layer_chksum_round_trip .little 17 (checksummed_udpPacket 0)).2.1

theorem udp_change_detected :
    chksumOk .little 17 .udp (withWord (udpPacket 0xff) 44 231) = false := by
  rw [← Bool.not_eq_true, chksumOk_withWord (checksummed_udpPacket 0xff) (by decide) (by decide)
    (by decide) 230 231 (by decide +kernel) (by decide +kernel)]
  decide +kernel

/-- **A UDP packet with a zero in the field** passes, whatever its sum. -/
theorem udp_zero_chksum_passes :
    Checksummed .udp (udpPacket 0) ∧
      rfcSum .udp (udpPacket 0) ≠ rfcSum .udp (setChksum .little .udp (udpPacket 0)) ∧
      chksumOk .little 17 .udp (udpPacket 0) = true :=
  ⟨checksummed_udpPacket 0, by decide +kernel, by decide +kernel⟩

end Asap.Ipv6
