import Asap.Ipv6.ErrorCalls

/-!
# ICMPv6 errors

An error is built in place: extension headers of the routing protocol are taken out, the packet is moved
behind the headers of the error, and as much of it as fits stays. What is taken out is right for some
chains of headers only, and of a UDP packet without a port all extension headers are gone before.

## Main definitions

* `uipIcmp6ErrorOutput` — the function.
* `AnswerRight`, `QuoteCond` — what is wanted of the answer, and when it is so.

## Main results

* `icmp6_error_output` — the answer to a packet for which an error is called for.
-/

namespace Asap.Ipv6

open Lib Rpl List

/-! ## The function -/

/-- What is read of the node: the order of bytes, `uip_ds6_if.cur_hop_limit`, and the address that
`uip_ds6_select_src` takes for a destination. -/
structure ErrorEnv where
  order : ByteOrder
  curHopLimit : Byte
  selectSrc : UipIpaddr → UipIpaddr

/-- `UIP_PROTO_ICMP6` -/
def uipProtoIcmp6 : Byte := 58

/-- `shift`: the length of the headers of an error. -/
def errorShift : ℕ := 48

/-- The bytes of a long word in network order. -/
def netLong (w : BitVec 32) : List Byte :=
  [(w >>> 24).setWidth 8, (w >>> 16).setWidth 8, (w >>> 8).setWidth 8, w.setWidth 8]

section Output

variable (env : ErrorEnv) (kind : ErrorKind) (param : BitVec 32)

/-- The headers of an error, with its length; the field of the checksum is not set. -/
def errorHeader (src dest : UipIpaddr) (len : ℕ) : List Byte :=
  [0x60, 0, 0, 0] ++ lenField (len - uipIphLen) ++ [uipProtoIcmp6, env.curHopLimit] ++ src.1 ++
    dest.1 ++ [kind.type, kind.code, 0, 0] ++ netLong param

/-- The packet behind the headers of an error. -/
def wrapError (p : Uipbuf) : Uipbuf :=
  let len := min (p.uipLen + errorShift) uipLinkMtu
  let moved := store p.buf errorShift (bytesAt p.buf 0 (len - errorShift))
  let src := env.selectSrc (addrAt p.buf 24)
  ⟨store moved 0 (errorHeader env kind param src (addrAt p.buf 8) len), len, 0, by
    have hheaders := p.headers_le
    exact le_min (by rw [errorShift]; omega) (by decide)⟩

/-- `uip_icmp6_error_output`; nothing is left of the packet if nothing is sent. -/
def uipIcmp6ErrorOutput (uipLastProto : Byte) (p : Uipbuf) : Option Uipbuf :=
  if uipLastProto = uipProtoIcmp6 ∧ (p.buf (uipIphLen + p.uipExtLen)).toNat < 128 then none
  else if isAddrUnspecified (addrAt p.buf 8) || isAddrMcast (addrAt p.buf 8) then none
  else
    -- a failure is logged only
    let p := ((rplExtHeaderRemove (mtuConfig uipLinkMtu) p).map Prod.snd).getD p
    if isAddrMcast (addrAt p.buf 24) ∧ kind ≠ .option then none
    else some (setChksum env.order .icmp6 (wrapError env kind param p))

end Output

/-! ## What is wanted -/

/-- The packet with other extension headers. -/
def packetWith (p : Uipbuf) (upper : Byte) (payload : List Byte) (hs : List ExtHdr) : List Byte :=
  bytesAt p.buf 0 4 ++ (lenField (chainSize hs + payload.length) ++ ([chainProto upper hs] ++
    (bytesAt p.buf 7 33 ++ chainBytes upper payload hs)))

/-- The packet without the headers of the routing protocol. -/
def withoutRouting (p : Uipbuf) (upper : Byte) (payload : List Byte) (hs : List ExtHdr) : List Byte :=
  packetWith p upper payload (hs.filter fun h => !h.ofRpl)

/-- The packet is an error itself, its source is no address of a node, or its destination is a
multicast address and the error is not about an option. -/
def Silent (kind : ErrorKind) (p : Uipbuf) (upper : Byte) (payload : List Byte) : Prop :=
  upper = uipProtoIcmp6 ∧ (payload.headD 0).toNat < 128 ∨ isAddrUnspecified (addrAt p.buf 8) = true ∨
    isAddrMcast (addrAt p.buf 8) = true ∨ isAddrMcast (addrAt p.buf 24) = true ∧ kind ≠ .option

/-- The lengths and the checksum of an error, to the source of the packet, with as much of a packet as
there is room for. -/
structure QuoteRight (p : Uipbuf) (quoted : List Byte) (out : Uipbuf) : Prop where
  proto : out.buf 6 = uipProtoIcmp6 ∧ out.uipExtLen = 0
  field : uipbufGetLenField out.buf + uipIphLen = out.uipLen
  chksum : rfcSum .icmp6 out = 65535
  dest : addrAt out.buf 24 = addrAt p.buf 8
  len : out.uipLen = min (quoted.length + errorShift) uipLinkMtu
  quote : bytesAt out.buf errorShift (out.uipLen - errorShift) = quoted.take (out.uipLen - errorShift)

/-- Nothing is sent, for one of the reasons, or an error with the packet without the headers of the
routing protocol. -/
def AnswerRight (kind : ErrorKind) (p : Uipbuf) (upper : Byte) (payload : List Byte)
    (hs : List ExtHdr) : Option Uipbuf → Prop
  | none => Silent kind p upper payload
  | some out => QuoteRight p (withoutRouting p upper payload hs) out

/-- The headers are all of the routing protocol where they are removed before, and elsewhere those of
the routing protocol can be taken out. -/
def QuoteCond (c : ErrorCall) (payload : List Byte) (hs : List ExtHdr) : Prop :=
  if c.stripped then ∀ h ∈ hs, h.ofRpl = true else RemoveCond payload hs

variable {env : ErrorEnv} {kind : ErrorKind} {param : BitVec 32} {upper : Byte} {p q out : Uipbuf}
  {payload quoted : List Byte} {hs ks : List ExtHdr}

/-! ## The packet as bytes -/

theorem length_packetWith (p : Uipbuf) (upper : Byte) (payload : List Byte) (hs : List ExtHdr) :
    (packetWith p upper payload hs).length = 40 + (chainSize hs + payload.length) := by
  rw [packetWith, length_append, length_append, length_append, length_append,
    length_bytesAt, length_bytesAt, length_chainBytes, length_singleton]
  show 4 + (2 + (1 + (33 + _))) = _
  omega

/-- A packet with the header of another one, but for the length and the name of the first header. -/
theorem bytes_of_isPacket (hq : IsPacket q upper payload ks)
    (hsame : ∀ i < 40, i ∉ [4, 5, 6] → q.buf i = p.buf i) :
    bytesAt q.buf 0 q.uipLen = packetWith p upper payload ks := by
  have hlen := hq.len
  have hfield := hq.field
  have hnum : q.uipLen - uipIphLen = chainSize ks + payload.length := by
    rw [uipIphLen]
    omega
  rw [hnum] at hfield
  have hbytes := hq.bytes.bytesAt
  rw [length_chainBytes] at hbytes
  have hsplit : q.uipLen = 4 + (2 + (1 + (33 + (chainSize ks + payload.length)))) := by omega
  rw [packetWith, hsplit, bytesAt_add, bytesAt_add, bytesAt_add, bytesAt_add]
  refine congrArg₂ _ (bytesAt_congr fun i _ hi => hsame i (by omega) ?_)
    (congrArg₂ _ hfield.bytesAt (congrArg₂ _ ?_
      (congrArg₂ _ (bytesAt_congr fun i hle hi => hsame i (by omega) ?_) hbytes)))
  · simp only [mem_cons, not_mem_nil, or_false]
    omega
  · show [q.buf (0 + 4 + 2 + 0)] = _
    rw [← hq.proto]
  · simp only [mem_cons, not_mem_nil, or_false]
    omega

/-- The other way round. -/
theorem isPacket_of_bytes (hlen : q.uipLen = 40 + (chainSize ks + payload.length))
    (hext : q.uipExtLen = chainSize ks)
    (hbytes : bytesAt q.buf 0 q.uipLen = packetWith p upper payload ks) :
    IsPacket q upper payload ks := by
  have hholds : Holds q.buf 0 (packetWith p upper payload ks) := by
    rw [holds_iff_bytesAt, length_packetWith, ← hlen, hbytes]
  rw [packetWith, holds_append, holds_append, holds_append, holds_append, length_bytesAt,
    length_bytesAt, length_singleton] at hholds
  obtain ⟨-, hfield, hproto, -, hrest⟩ := hholds
  have hnum : q.uipLen - uipIphLen = chainSize ks + payload.length := by
    rw [uipIphLen]
    omega
  refine ⟨?_, hrest, hlen, hext, ?_⟩
  · exact (holds_cons.mp hproto).1
  · rw [hnum]
    exact hfield

/-! ## The error -/

/-- The checksum changes two bytes. -/
theorem setChksum_frame (order : ByteOrder) (u : UpperProto) (p : Uipbuf) :
    (setChksum order u p).uipLen = p.uipLen ∧ (setChksum order u p).uipExtLen = p.uipExtLen ∧
      ∀ i, i < chksumPos u p ∨ chksumPos u p + 2 ≤ i → (setChksum order u p).buf i = p.buf i := by
  have hstore : ∀ (v : BitVec 16) (r : Uipbuf) (i : ℕ), chksumPos u r = chksumPos u p →
      i < chksumPos u p ∨ chksumPos u p + 2 ≤ i → (storeChksum order u v r).buf i = r.buf i := by
    intro v r i hpos hi
    rw [storeChksum, buf_withBuf, hpos]
    rcases hi with hlt | hle
    · exact store_of_lt hlt
    · exact store_of_le hle
  have htwice : ∀ (v : BitVec 16) (i : ℕ), i < chksumPos u p ∨ chksumPos u p + 2 ≤ i →
      (storeChksum order u v (storeChksum order u 0 p)).buf i = p.buf i := fun v i hi =>
    (hstore v (storeChksum order u 0 p) i rfl hi).trans (hstore 0 p i rfl hi)
  simp only [setChksum]
  generalize ~~~upperLayerChksum order (storeChksum order u 0 p) u.proto = v
  split_ifs
  · exact ⟨rfl, rfl, fun i hi => (hstore _ (storeChksum order u v (storeChksum order u 0 p)) i rfl
      hi).trans (htwice v i hi)⟩
  · exact ⟨rfl, rfl, htwice v⟩

theorem length_errorHeader (src dest : UipIpaddr) (len : ℕ) :
    (errorHeader env kind param src dest len).length = 48 := by
  simp [errorHeader, lenField, netLong, src.2, dest.2]

/-- The bytes of the error, before the checksum is set. -/
theorem wrapError_spec (q : Uipbuf) :
    (wrapError env kind param q).buf 6 = uipProtoIcmp6 ∧
      uipbufGetLenField (wrapError env kind param q).buf =
        (wrapError env kind param q).uipLen - uipIphLen ∧
      addrAt (wrapError env kind param q).buf 24 = addrAt q.buf 8 ∧
      bytesAt (wrapError env kind param q).buf errorShift
        ((wrapError env kind param q).uipLen - errorShift) =
          bytesAt q.buf 0 ((wrapError env kind param q).uipLen - errorShift) := by
  have hlen : (wrapError env kind param q).uipLen = min (q.uipLen + errorShift) uipLinkMtu := rfl
  have hbuf : (wrapError env kind param q).buf = store (store q.buf errorShift
      (bytesAt q.buf 0 ((wrapError env kind param q).uipLen - errorShift))) 0
        (errorHeader env kind param (env.selectSrc (addrAt q.buf 24)) (addrAt q.buf 8)
          (wrapError env kind param q).uipLen) := rfl
  have hmtu : (wrapError env kind param q).uipLen < 65536 :=
    lt_of_le_of_lt (Nat.min_le_right _ _) (by decide)
  generalize (wrapError env kind param q).uipLen = len at hlen hbuf hmtu ⊢
  generalize (wrapError env kind param q).buf = buf at hbuf ⊢
  have hheader : Holds buf 0 (errorHeader env kind param (env.selectSrc (addrAt q.buf 24))
      (addrAt q.buf 8) len) := by
    rw [hbuf]
    exact holds_store _ _ _
  have hfirst : ([0x60, 0, 0, 0] : List Byte).length = 4 := rfl
  have hfield : (lenField (len - uipIphLen)).length = 2 := rfl
  have hproto : [uipProtoIcmp6, env.curHopLimit].length = 2 := rfl
  simp only [errorHeader, append_assoc] at hheader
  rw [holds_append, holds_append, holds_append, holds_append, holds_append, hfirst, hfield, hproto,
    (env.selectSrc (addrAt q.buf 24)).2] at hheader
  obtain ⟨-, hlenField, hnames, -, hdest, -⟩ := hheader
  refine ⟨(holds_cons.mp hnames).1, uipbufGetLenField_of_holds hlenField (by omega), ?_, ?_⟩
  · exact Subtype.ext (by rw [addrAt, ← hdest.bytesAt, (addrAt q.buf 8).2])
  · rw [hbuf, bytesAt_store_of_beside (Or.inr (by rw [length_errorHeader]; decide))]
    have hself : bytesAt (store q.buf errorShift (bytesAt q.buf 0 (len - errorShift))) errorShift
        (bytesAt q.buf 0 (len - errorShift)).length = bytesAt q.buf 0 (len - errorShift) :=
      bytesAt_store_self
    rwa [length_bytesAt] at hself

/-- **An error is right** exactly if the packet behind its headers is. -/
theorem quoteRight_iff (hsrc : addrAt q.buf 8 = addrAt p.buf 8) :
    QuoteRight p quoted (setChksum env.order .icmp6 (wrapError env kind param q)) ↔
      min (q.uipLen + errorShift) uipLinkMtu = min (quoted.length + errorShift) uipLinkMtu ∧
        bytesAt q.buf 0 (min (q.uipLen + errorShift) uipLinkMtu - errorShift) =
          quoted.take (min (q.uipLen + errorShift) uipLinkMtu - errorShift) := by
  obtain ⟨hproto, hfield, hdest, hquote⟩ := @wrapError_spec env kind param q
  have hlen : (wrapError env kind param q).uipLen = min (q.uipLen + errorShift) uipLinkMtu := rfl
  have hheaders := q.headers_le
  have hlong : 88 ≤ (wrapError env kind param q).uipLen :=
    le_min (by rw [errorShift]; omega) (by decide)
  have hext : (wrapError env kind param q).uipExtLen = 0 := rfl
  have hpos : chksumPos .icmp6 (wrapError env kind param q) = 42 := rfl
  have hsummed : Checksummed .icmp6 (wrapError env kind param q) := by
    refine ⟨?_, Nat.min_le_right _ _, by rw [hpos]; omega⟩
    rw [hfield, uipIphLen]
    omega
  obtain ⟨hok, hsum⟩ := setChksum_spec env.order hsummed
  obtain ⟨hsetLen, hsetExt, hset⟩ := setChksum_frame env.order .icmp6 (wrapError env kind param q)
  rw [hpos] at hset
  have hdest' : addrAt (setChksum env.order .icmp6 (wrapError env kind param q)).buf 24 =
      addrAt q.buf 8 := by
    rw [← hdest]
    exact Subtype.ext (bytesAt_congr fun i _ hi => hset i (by omega))
  have hquote' : bytesAt (setChksum env.order .icmp6 (wrapError env kind param q)).buf errorShift
      ((wrapError env kind param q).uipLen - errorShift) =
        bytesAt q.buf 0 ((wrapError env kind param q).uipLen - errorShift) := by
    rw [← hquote]
    refine bytesAt_congr fun i hi _ => hset i ?_
    rw [errorShift] at hi
    omega
  rw [← hlen]
  constructor
  · rintro ⟨-, -, -, -, hlenRight, hquoteRight⟩
    rw [hsetLen] at hlenRight hquoteRight
    exact ⟨hlenRight, hquote'.symm.trans hquoteRight⟩
  · rintro ⟨hlenRight, hquoteRight⟩
    refine ⟨⟨?_, hsetExt.trans hext⟩, hok.lenField, hsum, hdest'.trans hsrc, ?_, ?_⟩
    · rw [hset 6 (by omega), hproto]
    · rw [hsetLen, hlenRight]
    · rw [hsetLen, hquote', hquoteRight]

/-! ## The answer -/

/-- The first byte of the upper layer. -/
theorem buf_upper (hp : IsPacket p upper payload hs) (hlen : 4 ≤ payload.length) :
    p.buf (uipIphLen + p.uipExtLen) = payload.headD 0 := by
  have hbytes := hp.bytes
  rw [← append_nil hs] at hbytes
  have hrest : Holds p.buf (40 + chainSize hs) payload := holds_append_chain hbytes
  rw [hp.extLen]
  cases payload with
  | nil => exact absurd hlen (by decide)
  | cons b bs => exact (holds_cons.mp hrest).1

/-- **What is sent**: nothing for one of the reasons, and else an error with what the removal leaves. -/
theorem output_cases (env : ErrorEnv) (kind : ErrorKind) (param : BitVec 32)
    (hp : IsPacket p upper payload hs) (hlen : 4 ≤ payload.length) :
    ∃ res, rplExtHeaderRemove (mtuConfig uipLinkMtu) p = some res ∧
      (Silent kind p upper payload ∧ uipIcmp6ErrorOutput env kind param upper p = none ∨
        ¬Silent kind p upper payload ∧ uipIcmp6ErrorOutput env kind param upper p =
          some (setChksum env.order .icmp6 (wrapError env kind param res.2))) := by
  obtain ⟨res, hres⟩ := rplExtHeaderRemove_isSome (mtuConfig uipLinkMtu) p
  obtain ⟨hstays, -, -⟩ := rplExtHeaderRemove_stays hres
  have hdest : addrAt res.2.buf 24 = addrAt p.buf 24 :=
    Subtype.ext (bytesAt_congr fun i hle hlt => hstays i (by omega) (by simp; omega))
  refine ⟨res, hres, ?_⟩
  rw [uipIcmp6ErrorOutput, buf_upper hp hlen, hres, Silent]
  simp only [Option.map_some, Option.getD_some, hdest, Bool.or_eq_true]
  by_cases herror : upper = uipProtoIcmp6 ∧ (payload.headD 0).toNat < 128
  · exact Or.inl ⟨Or.inl herror, if_pos herror⟩
  · rw [if_neg herror]
    by_cases hsrc : isAddrUnspecified (addrAt p.buf 8) = true ∨ isAddrMcast (addrAt p.buf 8) = true
    · refine Or.inl ⟨?_, if_pos hsrc⟩
      rcases hsrc with h | h
      · exact Or.inr (Or.inl h)
      · exact Or.inr (Or.inr (Or.inl h))
    · rw [if_neg hsrc]
      by_cases hmcast : isAddrMcast (addrAt p.buf 24) = true ∧ kind ≠ .option
      · exact Or.inl ⟨Or.inr (Or.inr (Or.inr hmcast)), if_pos hmcast⟩
      · refine Or.inr ⟨?_, if_neg hmcast⟩
        rintro (h | h | h | h)
        · exact herror h
        · exact hsrc (Or.inl h)
        · exact hsrc (Or.inr h)
        · exact hmcast h

theorem addrAt_eq (hsame : ∀ i < 40, i ∉ [4, 5, 6] → q.buf i = p.buf i) :
    addrAt q.buf 8 = addrAt p.buf 8 :=
  Subtype.ext (bytesAt_congr fun i hle hlt => hsame i (by omega) (by simp; omega))

/-- The packet behind the headers is the one wanted. -/
theorem quoteRight_of_isPacket (hq : IsPacket q upper payload ks)
    (hsame : ∀ i < 40, i ∉ [4, 5, 6] → q.buf i = p.buf i) :
    QuoteRight p (packetWith p upper payload ks)
      (setChksum env.order .icmp6 (wrapError env kind param q)) := by
  have hbytes := bytes_of_isPacket hq hsame
  have hlen : (packetWith p upper payload ks).length = q.uipLen := by
    rw [← hbytes, length_bytesAt]
  rw [quoteRight_iff (addrAt_eq hsame), hlen]
  refine ⟨rfl, ?_⟩
  have hle : min (q.uipLen + errorShift) uipLinkMtu - errorShift ≤ q.uipLen := by
    rw [errorShift]
    omega
  rw [← hbytes, bytesAt, bytesAt, ← map_take, take_range, Nat.min_eq_left hle]

/-- The chain has no header of the routing protocol. -/
theorem withoutRouting_of (hof : ∀ h ∈ hs, h.ofRpl = true) :
    withoutRouting p upper payload hs = packetWith p upper payload [] := by
  rw [withoutRouting, filter_eq_nil_iff.mpr fun h hh => by simp [hof h hh]]

section Kept

variable (hp : IsPacket p upper payload hs) (hupper : uipIsProtoExtHdr upper = false)
  (hlen : 4 ≤ payload.length)

include hp hupper hlen

/-- **The condition is enough** where the extension headers are still there. -/
theorem answerRight_of_cond (env : ErrorEnv) (kind : ErrorKind) (param : BitVec 32)
    (hmtu : p.uipLen ≤ uipLinkMtu) (hcond : Silent kind p upper payload ∨ RemoveCond payload hs) :
    AnswerRight kind p upper payload hs (uipIcmp6ErrorOutput env kind param upper p) := by
  obtain ⟨res, hres, ⟨hsilent, hout⟩ | ⟨hsent, hout⟩⟩ := output_cases env kind param hp hlen
  · rw [hout]
    exact hsilent
  · rw [hout]
    have hright := (hcond.resolve_left hsent).right hp
      (fun hext => absurd (hupper.symm.trans hext) Bool.false_ne_true) hmtu hres
    exact quoteRight_of_isPacket hright.2.1 hright.2.2

/-- **The condition is needed**, in a chain whose hop-by-hop header is the first one, if all of the
packet fits behind the headers of the error. -/
theorem cond_of_answerRight (hfits : p.uipLen + errorShift ≤ uipLinkMtu)
    (hfirst : ∀ h ∈ hs.tail, h.proto ≠ uipProtoHbho)
    (hright : AnswerRight kind p upper payload hs (uipIcmp6ErrorOutput env kind param upper p)) :
    Silent kind p upper payload ∨ RemoveCond payload hs := by
  obtain ⟨res, hres, ⟨hsilent, -⟩ | ⟨-, hout⟩⟩ := output_cases env kind param hp hlen
  · exact Or.inl hsilent
  · right
    rw [hout] at hright
    obtain ⟨hsame, hshort, hlengths⟩ := rplExtHeaderRemove_stays hres
    obtain ⟨hlenRight, hbytes⟩ := (quoteRight_iff (addrAt_eq hsame)).mp hright
    have hmtu : p.uipLen ≤ uipLinkMtu := (Nat.le_add_right _ _).trans hfits
    have hplen := hp.len
    have hpext := hp.extLen
    have hheaders := res.2.headers_le
    have hle : chainSize (hs.filter fun h => !h.ofRpl) ≤ chainSize hs :=
      (filter_sublist.map _).sum_le_sum fun _ _ => Nat.zero_le _
    have hquoted : (withoutRouting p upper payload hs).length =
        40 + (chainSize (hs.filter fun h => !h.ofRpl) + payload.length) := length_packetWith _ _ _ _
    rw [Nat.min_eq_left (by omega), hquoted, Nat.min_eq_left (by omega)] at hlenRight
    have hwantedLen := Nat.add_right_cancel hlenRight
    rw [Nat.min_eq_left (by omega), Nat.add_sub_cancel,
      take_of_length_le (by rw [hquoted, hwantedLen])] at hbytes
    have hwanted := isPacket_of_bytes hwantedLen (by omega) hbytes
    have hw : WellFormed upper payload hs :=
      ⟨hfirst, fun hext => absurd (hupper.symm.trans hext) Bool.false_ne_true⟩
    have hof := first_option_of_wanted hwanted hp hw hres
    refine ⟨hof, behind_of_wanted hwanted hp hw hmtu hres hof, Or.inr (Or.inl ?_)⟩
    exact ne_nil_of_length_pos (by omega)

end Kept

/-! ## Without extension headers -/

theorem chainSize_eq_zero : chainSize hs = 0 ↔ hs = [] := by
  cases hs with
  | nil => exact iff_of_true rfl rfl
  | cons h hs =>
    have hsize := h.eight_le_size
    rw [chainSize_cons]
    exact iff_of_false (by omega) (cons_ne_nil h hs)

/-- The packet without its extension headers. -/
theorem isPacket_uipRemoveExtHdr (hp : IsPacket p upper payload hs) (hmtu : p.uipLen ≤ uipLinkMtu) :
    IsPacket (uipRemoveExtHdr upper p).2 upper payload [] ∧
      ∀ i < 40, i ∉ [4, 5, 6] → (uipRemoveExtHdr upper p).2.buf i = p.buf i := by
  have hext := hp.extLen
  have hplen := hp.len
  by_cases hpos : 0 < p.uipExtLen
  · obtain ⟨q, hq, hqlen, hqext, hbuf⟩ := uipRemoveExtHdr_of_pos hpos hmtu upper
    rw [hq]
    have hstore : ∀ (b : ℕ → Byte) (n j : ℕ), 6 ≤ j ∨ j < 4 → store b 4 (lenField n) j = b j := by
      intro b n j hj
      rcases hj with hle | hlt
      · exact store_of_le (show 4 + 2 ≤ j from hle)
      · exact store_of_lt hlt
    have hrest := hp.bytes
    rw [← append_nil hs] at hrest
    have hpayload : Holds p.buf (40 + p.uipExtLen) payload := by
      rw [hext]
      exact holds_append_chain hrest
    have hmoved : Holds (moveLeft (store p.buf 6 [upper]) 40 p.uipExtLen (p.uipLen - p.uipExtLen)) 40
        payload := by
      refine holds_moveLeft (hpayload.congr fun j hle _ => store_of_le ?_) (by omega)
      rw [length_singleton]
      omega
    refine ⟨⟨?_, ?_, ?_, hqext, ?_⟩, fun i hi hlist => ?_⟩
    · rw [hbuf, hstore _ _ _ (by omega), moveLeft, if_neg (by rw [uipIphLen]; omega)]
      simp [store, chainProto]
    · rw [hbuf]
      exact hmoved.congr fun j hle _ => hstore _ _ _ (by omega)
    · rw [chainSize_nil, Nat.zero_add, hqlen]
      omega
    · rw [hqlen, hbuf]
      exact holds_store _ _ _
    · simp only [mem_cons, not_mem_nil, or_false, not_or] at hlist
      rw [hbuf, hstore _ _ _ (by omega), moveLeft, if_neg (by rw [uipIphLen]; omega)]
      by_cases hlow : i < 6
      · exact store_of_lt hlow
      · exact store_of_le (by rw [length_singleton]; omega)
  · have hnil : hs = [] := chainSize_eq_zero.mp (by omega)
    have hsame : (uipRemoveExtHdr upper p).2 = p := by rw [uipRemoveExtHdr, if_neg hpos]
    rw [hsame]
    exact ⟨hnil ▸ hp, fun _ _ _ => rfl⟩

/-- The name of the first header is in the packet. -/
theorem packetWith_proto (p : Uipbuf) (upper : Byte) (payload : List Byte) (hs : List ExtHdr) :
    (packetWith p upper payload hs)[6]? = some (chainProto upper hs) := by
  rw [packetWith, List.getElem?_append_right (by rw [length_bytesAt]; decide), length_bytesAt,
    List.getElem?_append_right (show 2 ≤ 6 - 4 by decide)]
  rfl

/-- **If the extension headers are removed before**, the answer is right exactly if they are all of the
routing protocol. -/
theorem stripped_answerRight_iff (hp : IsPacket p upper payload hs)
    (hupper : uipIsProtoExtHdr upper = false) (hlen : 4 ≤ payload.length)
    (hmtu : p.uipLen ≤ uipLinkMtu) :
    AnswerRight kind p upper payload hs
        (uipIcmp6ErrorOutput env kind param upper (uipRemoveExtHdr upper p).2) ↔
      Silent kind p upper payload ∨ ∀ h ∈ hs, h.ofRpl = true := by
  obtain ⟨hq, hsame⟩ := isPacket_uipRemoveExtHdr hp hmtu
  generalize (uipRemoveExtHdr upper p).2 = q at hq hsame ⊢
  have hdest : addrAt q.buf 24 = addrAt p.buf 24 :=
    Subtype.ext (bytesAt_congr fun i hle hlt => hsame i (by omega) (by simp; omega))
  have hsilent : Silent kind q upper payload ↔ Silent kind p upper payload := by
    rw [Silent, Silent, addrAt_eq hsame, hdest]
  obtain ⟨res, hres, ⟨hquiet, hout⟩ | ⟨hsent, hout⟩⟩ := output_cases env kind param hq hlen
  · rw [hout]
    exact iff_of_true (hsilent.mp hquiet) (Or.inl (hsilent.mp hquiet))
  · rw [hq.remove_nil fun hext => absurd (hupper.symm.trans hext) Bool.false_ne_true] at hres
    obtain rfl := Option.some.inj hres
    rw [hout]
    rw [hsilent] at hsent
    constructor
    · intro hright
      right
      obtain ⟨-, hbytes⟩ := (quoteRight_iff (addrAt_eq hsame)).mp hright
      have hheaders := q.headers_le
      obtain ⟨n, hn⟩ : ∃ n, min (q.uipLen + errorShift) uipLinkMtu - errorShift = n + 7 :=
        ⟨min (q.uipLen + errorShift) uipLinkMtu - errorShift - 7, by rw [errorShift, uipLinkMtu]; omega⟩
      have hsix := congrArg (fun bs : List Byte => bs[6]?) hbytes
      simp only [hn] at hsix
      rw [List.getElem?_take_of_lt (by omega), withoutRouting, packetWith_proto,
        bytesAt, List.getElem?_map, List.getElem?_range (by omega)] at hsix
      have hproto : upper = chainProto upper (hs.filter fun h => !h.ofRpl) :=
        hq.proto.symm.trans (Option.some.inj hsix)
      cases hkept : hs.filter fun h => !h.ofRpl with
      | nil =>
        intro h hh
        simpa using filter_eq_nil_iff.mp hkept h hh
      | cons k ks =>
        rw [hkept] at hproto
        have hext := k.isExt
        rw [show k.proto = upper from hproto.symm, hupper] at hext
        exact absurd hext Bool.false_ne_true
    · intro hcond
      show QuoteRight p (withoutRouting p upper payload hs) _
      rw [withoutRouting_of (hcond.resolve_left hsent)]
      exact quoteRight_of_isPacket hq hsame

/-! ## Every call -/

/-- **ICMPv6 errors.** For a packet that an error is called for, the answer is right if there is a
reason to send nothing, or the headers of the routing protocol can be taken out, or, where the extension
headers are removed before, they are all of the routing protocol; and it is right only then if the
hop-by-hop header is the first one and all of the packet fits. An address that was swapped has to be
inside of its source routing header. -/
theorem icmp6_error_output {selectDag : HbhDag → BitVec 16 → HbhDag} {env : ProcessEnv}
    {rpl : RplTables} {buf : ℕ → Byte} {uipLen : ℕ} {c : ErrorCall}
    (hc : uipProcess selectDag env rpl buf uipLen = .error c) (hmtu : c.packet.uipLen ≤ uipLinkMtu)
    (hinside : c.packet = c.received ∨ SrhInside c.received) (node : ErrorEnv) (param : BitVec 32) :
    ∃ payload hs, IsPacket c.packet c.uipLastProto payload hs ∧
      (Silent c.kind c.packet c.uipLastProto payload ∨ QuoteCond c payload hs →
        AnswerRight c.kind c.packet c.uipLastProto payload hs
          (uipIcmp6ErrorOutput node c.kind param c.uipLastProto c.atCall)) ∧
      (c.stripped = true ∨ c.packet.uipLen + errorShift ≤ uipLinkMtu ∧
          (∀ h ∈ hs.tail, h.proto ≠ uipProtoHbho) →
        AnswerRight c.kind c.packet c.uipLastProto payload hs
          (uipIcmp6ErrorOutput node c.kind param c.uipLastProto c.atCall) →
        Silent c.kind c.packet c.uipLastProto payload ∨ QuoteCond c payload hs) := by
  obtain ⟨payload, hs, hp, hupper, hlen⟩ := uipProcess_parsed hc hinside
  refine ⟨payload, hs, hp, ?_⟩
  rw [ErrorCall.atCall, QuoteCond]
  by_cases hstripped : c.stripped = true
  · rw [if_pos hstripped, if_pos hstripped]
    have hiff := @stripped_answerRight_iff node c.kind param _ _ _ _ hp hupper hlen hmtu
    exact ⟨hiff.mpr, fun _ => hiff.mp⟩
  · rw [if_neg hstripped, if_neg hstripped]
    refine ⟨answerRight_of_cond hp hupper hlen node c.kind param hmtu, ?_⟩
    rintro (h | ⟨hfits, hfirst⟩) hright
    · exact absurd h hstripped
    · exact cond_of_answerRight hp hupper hlen hfits hfirst hright

/-- A UDP packet from `2001::1` to `2001::2`, with extension headers and a hop limit. -/
def udpBytes (ttl proto : Byte) (headers : List Byte) (i : ℕ) : Byte :=
  ([0x60, 0, 0, 0, 0, BitVec.ofNat 8 (headers.length + 8), proto, ttl] ++
    ([0x20, 1] ++ List.replicate 13 0 ++ [1]) ++ ([0x20, 1] ++ List.replicate 13 0 ++ [2]) ++
      headers ++ [0x10, 0, 0x10, 0, 0, 8, 0, 0]).getD i 0

/-- A node without connections, that the packet is for, or not. -/
def udpEnv (mine : Bool) : ProcessEnv := ⟨.little, fun _ => mine, fun _ => false, 1280, false, true, []⟩

/-- A node that is part of no DAG. -/
def noRpl : RplTables := ⟨fun _ => none, none, false, [], [], 0, 0, 0⟩

/-- What is looked at of a call: what it is for, the lengths and names of the packet, and its
addresses. -/
structure CallSummary where
  kind : ErrorKind
  stripped : Bool
  lengths : ℕ × ℕ
  protos : Byte × Byte
  srh : Option ℕ
  addrs : Bool × Bool × Bool
deriving DecidableEq

/-- A summary of the call, if there is one. -/
def Outcome.summary : Outcome → Option CallSummary
  | .error c => some ⟨c.kind, c.stripped, (c.packet.uipLen, c.packet.uipExtLen),
      (c.packet.buf 6, c.uipLastProto), srhHeader c.received,
      (isAddrUnspecified (addrAt c.packet.buf 8), isAddrMcast (addrAt c.packet.buf 8),
        isAddrMcast (addrAt c.packet.buf 24))⟩
  | _ => none

theorem Outcome.of_summary {o : Outcome} {summary : CallSummary} (h : o.summary = some summary) :
    ∃ c, o = .error c ∧ (Outcome.error c).summary = some summary := by
  cases o with
  | error c => exact ⟨c, rfl, h⟩
  | drop => cases h
  | forward packet => cases h
  | deliver protocol => cases h
  | outside => cases h

/-- A packet that may not be forwarded. -/
theorem icmp6_error_output_time_exceeded :
    ∃ c payload hs, uipProcess (fun dag _ => dag) (udpEnv false) noRpl (udpBytes 1 17 []) 48 =
        .error c ∧ c.kind = .timeExceeded ∧ IsPacket c.packet c.uipLastProto payload hs ∧
      AnswerRight c.kind c.packet c.uipLastProto payload hs
        (uipIcmp6ErrorOutput ⟨.little, 64, id⟩ c.kind 0 c.uipLastProto c.atCall) := by
  have hsummary : (uipProcess (fun dag _ => dag) (udpEnv false) noRpl (udpBytes 1 17 []) 48).summary =
      some ⟨.timeExceeded, false, (48, 0), (17, 17), none, (false, false, false)⟩ := by decide +kernel
  obtain ⟨c, hc, hcall⟩ := Outcome.of_summary hsummary
  simp only [Outcome.summary, Option.some.injEq, CallSummary.mk.injEq, Prod.mk.injEq] at hcall
  obtain ⟨hkind, hstripped, ⟨hlen, hext⟩, -, hsrh, -⟩ := hcall
  have hinside : SrhInside c.received := fun rh h => by rw [hsrh] at h; cases h
  obtain ⟨payload, hs, hp, hright, -⟩ := icmp6_error_output hc (by rw [hlen]; decide)
    (Or.inr hinside) ⟨.little, 64, id⟩ 0
  refine ⟨c, payload, hs, hc, hkind, hp, hright (Or.inr ?_)⟩
  have hnil : hs = [] := chainSize_eq_zero.mp (hp.extLen.symm.trans hext)
  rw [QuoteCond, hstripped, hnil]
  exact ⟨fun _ h => absurd h List.not_mem_nil, List.Pairwise.nil, Or.inl rfl⟩

/-- A UDP packet with options for the destination, for a port that nobody has: the error has the packet
without its options. -/
theorem icmp6_error_output_fails :
    ∃ c payload hs, uipProcess (fun dag _ => dag) (udpEnv true) noRpl
        (udpBytes 64 60 [17, 0, 1, 4, 0, 0, 0, 0]) 56 = .error c ∧
      IsPacket c.packet c.uipLastProto payload hs ∧ c.packet.uipLen ≤ uipLinkMtu ∧
      ¬AnswerRight c.kind c.packet c.uipLastProto payload hs
        (uipIcmp6ErrorOutput ⟨.little, 64, id⟩ c.kind 0 c.uipLastProto c.atCall) := by
  have hsummary : (uipProcess (fun dag _ => dag) (udpEnv true) noRpl
      (udpBytes 64 60 [17, 0, 1, 4, 0, 0, 0, 0]) 56).summary =
        some ⟨.noPort, true, (56, 8), (60, 17), none, (false, false, false)⟩ := by decide +kernel
  obtain ⟨c, hc, hcall⟩ := Outcome.of_summary hsummary
  simp only [Outcome.summary, Option.some.injEq, CallSummary.mk.injEq, Prod.mk.injEq] at hcall
  obtain ⟨-, hstripped, ⟨hlen, -⟩, ⟨hproto, hlast⟩, hsrh, hsrc, hmulti, hdest⟩ := hcall
  have hinside : SrhInside c.received := fun rh h => by rw [hsrh] at h; cases h
  have hmtu : c.packet.uipLen ≤ uipLinkMtu := by rw [hlen]; decide
  obtain ⟨payload, hs, hp, hupper, hlong⟩ := uipProcess_parsed hc (Or.inr hinside)
  refine ⟨c, payload, hs, hc, hp, hmtu, ?_⟩
  rw [ErrorCall.atCall, if_pos hstripped, stripped_answerRight_iff hp hupper hlong hmtu, Silent, hlast,
    hsrc, hmulti, hdest]
  rintro ((h | h | h | h) | hall)
  · exact absurd h.1 (by decide)
  · exact Bool.false_ne_true h
  · exact Bool.false_ne_true h
  · exact Bool.false_ne_true h.1
  · have hfirst := hp.proto
    rw [hproto, hlast] at hfirst
    cases hs with
    | nil => exact absurd hfirst (by decide)
    | cons h hs =>
      have hproto : h.proto = 60 := hfirst.symm
      have hof := hall h List.mem_cons_self
      simp [ExtHdr.ofRpl, hproto, uipProtoRouting, uipProtoHbho] at hof

end Asap.Ipv6
