import Mathlib
import Asap.Ipv6.HeaderChain
import Asap.Rpl.SourceRoute

/-!
# Extension headers of RPL are removed

`rpl_ext_header_remove` walks along the chain of extension headers of the packet in the buffer, and
takes out routing headers and hop-by-hop headers that begin with the option of RPL. It keeps a
pointer to the byte that names the header it is at. Behind a header that stays, this pointer is to
the first byte of the next header instead, so a header that is taken out there leaves its name in
the header before it.

A packet is a list of extension headers and what is behind them; the buffer holds the bytes of the
list, where each header names the next.

## Main definitions

* `rplExtHeaderRemove`, `insertHbhHeader` — the functions.
* `ExtHdr`, `IsPacket` — an extension header, and the packet that a buffer holds.
* `RemovedRight`, `RemoveCond` — what is wanted of the removal, and when it is right.
-/

namespace Asap.Rpl

open List

open Asap.Lib Asap.Ipv6

/-- `UIP_PROTO_HBHO` -/
def uipProtoHbho : Byte := 0

/-- `UIP_PROTO_NONE` -/
def uipProtoNone : Byte := 59

/-- `UIP_EXT_HDR_OPT_RPL` -/
def uipExtHdrOptRpl : Byte := 0x63

/-! ## Removal -/

/-- `memmove` of the rest of a packet to the left. -/
def moveLeft (buf : ℕ → Byte) (pos k len : ℕ) : ℕ → Byte :=
  fun i => if pos ≤ i ∧ i < len then buf (i + k) else buf i

/-- `uipbuf_add_ext_hdr` with the negative length of a header that is taken out. -/
def uipbufSubExtHdr (uip : UipConfig) (p : Uipbuf) (extLen : ℕ) : Option Uipbuf :=
  if h : p.uipLen - extLen ≤ uip.linkMtu ∧ extLen ≤ p.uipLen ∧ extLen ≤ p.uipExtLen then
    some ⟨p.buf, p.uipLen - extLen, p.uipExtLen - extLen, by
      have := p.headers_le
      omega⟩
  else none

/-- A header is taken out: whether the function goes on, and the packet. -/
def removeHeader (uip : UipConfig) (p : Uipbuf) (nextHeader prevProtoPtr : ℕ) : Bool × Uipbuf :=
  let extLen := (p.buf (nextHeader + 1)).toNat * 8 + 8
  let p := withBuf p (store p.buf prevProtoPtr [p.buf nextHeader])
  match uipbufSubExtHdr uip p extLen with
  | none => (false, p)
  | some p =>
    let p := withBuf p (store p.buf 4 (lenField (p.uipLen - uipIphLen)))
    if p.uipLen ≤ nextHeader then (false, p)
    else (true, withBuf p (moveLeft p.buf nextHeader extLen p.uipLen))

/-- A routing header, or a hop-by-hop header whose first option is that of RPL. -/
def takenOut (buf : ℕ → Byte) (nextHeader : ℕ) (protocol : Byte) : Bool :=
  protocol = uipProtoRouting ∨ protocol = uipProtoHbho ∧ buf (nextHeader + 2) = uipExtHdrOptRpl

/-- The loop of `rpl_ext_header_remove`, with a number of rounds. -/
def removeLoop (uip : UipConfig) : ℕ → Uipbuf → ℕ → ℕ → Byte → Option (Bool × Uipbuf)
  | 0, _, _, _, _ => none
  | fuel + 1, p, nextHeader, prevProtoPtr, protocol =>
    if !uipIsProtoExtHdr protocol then some (true, p)
    else if takenOut p.buf nextHeader protocol then
      let removed := removeHeader uip p nextHeader prevProtoPtr
      if removed.1 then
        removeLoop uip fuel removed.2 nextHeader prevProtoPtr (removed.2.buf prevProtoPtr)
      else some removed
    else
      let next := uipbufGetNextHeader p.buf nextHeader (p.uipLen - nextHeader) false
      match next.2 with
      | none => some (true, p)
      -- the pointer is to the header that comes next, not to the one that stays
      | some nextHeader => removeLoop uip fuel p nextHeader nextHeader next.1

/-- `rpl_ext_header_remove` -/
def rplExtHeaderRemove (uip : UipConfig) (p : Uipbuf) : Option (Bool × Uipbuf) :=
  let first := uipbufGetNextHeader p.buf 0 p.uipLen true
  match first.2 with
  | none => some (true, p)
  | some nextHeader => removeLoop uip (p.uipLen + 1) p nextHeader 6 first.1

/-! ## Insertion -/

/-- What `update_hbh_header` finds of the instance in the option: whether it can be used, its rank
and number, its mode of operation, and whether there is a route for the destination. -/
structure HbhInstance where
  usable : Bool
  rank : BitVec 16
  instanceId : Byte
  storing : Bool
  route : Bool

/-- `RPL_HDR_OPT_DOWN` and `RPL_HDR_OPT_FWD_ERR` -/
def rplHdrOptDown : Byte := 0x80
def rplHdrOptFwdErr : Byte := 0x20

/-- The bytes of a word in network order. -/
def netBytes (w : BitVec 16) : List Byte := [(w >>> 8).setWidth 8, w.setWidth 8]

/-- `update_hbh_header`, for a packet whose first header is a hop-by-hop header with the option. -/
def updateHbhHeader (inst : HbhInstance) (p : Uipbuf) : Bool × Uipbuf :=
  if p.buf 6 = uipProtoHbho ∧ p.buf 42 = uipExtHdrOptRpl then
    if p.buf 41 ≠ 0 ∨ p.buf 43 ≠ 4 then (false, p)
    else if !inst.usable then (false, p)
    else
      let p := withBuf p (store p.buf 45 (inst.instanceId :: netBytes inst.rank))
      if !inst.storing then (true, p)
      else if p.buf 44 &&& rplHdrOptDown ≠ 0 then
        if inst.route then (true, p)
        else (false, withBuf p (store p.buf 44 [p.buf 44 ||| rplHdrOptFwdErr]))
      else
        let flags :=
          if inst.route then p.buf 44 ||| rplHdrOptDown else p.buf 44 &&& ~~~rplHdrOptDown
        (true, withBuf p (store p.buf 44 [flags]))
  else (true, p)

/-- The bytes of the header that `insert_hbh_header` writes. -/
def hbhBytes (proto : Byte) (inst : HbhInstance) : List Byte :=
  [proto, 0, uipExtHdrOptRpl, 4, 0, inst.instanceId] ++ netBytes inst.rank

/-- The packet with the header: the rest is moved, and the room for the header is cleared. -/
def insertedHbh (inst : HbhInstance) (p : Uipbuf) : Uipbuf :=
  let moved := store p.buf 48 (bytesAt p.buf 40 (p.uipLen - uipIphLen))
  let cleared := store moved 40 (List.replicate 8 0)
  let header := store (store cleared 40 (hbhBytes (p.buf 6) inst)) 6 [uipProtoHbho]
  let p := uipbufAddExtHdr p header 8
  withBuf p (store p.buf 4 (lenField (p.uipLen - uipIphLen)))

/-- `insert_hbh_header`: what is returned, if the packet is short enough. -/
def insertHbhHeader (uip : UipConfig) (inst : HbhInstance) (p : Uipbuf) : Option (Bool × Uipbuf) :=
  if uip.linkMtu < p.uipLen + 8 then none
  else some (updateHbhHeader inst (insertedHbh inst p))

/-! ## Packets -/

/-- An extension header, with the bytes behind its length. -/
structure ExtHdr where
  proto : Byte
  len : Byte
  data : List Byte
  isExt : uipIsProtoExtHdr proto
  length_data : data.length = len.toNat * 8 + 6

/-- The size of a header. -/
def ExtHdr.size (h : ExtHdr) : ℕ := h.len.toNat * 8 + 8

/-- The name of the first header of a chain. -/
def chainProto (upper : Byte) : List ExtHdr → Byte
  | [] => upper
  | h :: _ => h.proto

/-- The bytes of a chain, in which each header names the next. -/
def chainBytes (upper : Byte) (payload : List Byte) : List ExtHdr → List Byte
  | [] => payload
  | h :: hs => chainProto upper hs :: h.len :: (h.data ++ chainBytes upper payload hs)

/-- The sizes of the headers of a chain. -/
def chainSize (hs : List ExtHdr) : ℕ := (hs.map ExtHdr.size).sum

/-- The packet that is in the buffer, with its lengths. -/
structure IsPacket (p : Uipbuf) (upper : Byte) (payload : List Byte) (hs : List ExtHdr) : Prop where
  proto : p.buf 6 = chainProto upper hs
  bytes : Holds p.buf 40 (chainBytes upper payload hs)
  len : p.uipLen = 40 + (chainSize hs + payload.length)
  extLen : p.uipExtLen = chainSize hs
  field : Holds p.buf 4 (lenField (p.uipLen - uipIphLen))

/-- The types of options one after the other, as many as there are bytes at most. -/
def optionTypes : ℕ → List Byte → List Byte
  | 0, _ => []
  | _ + 1, [] => []
  | fuel + 1, type :: rest =>
    -- `UIP_EXT_HDR_OPT_PAD1` has no length
    if type = 0 then optionTypes fuel rest
    else type :: optionTypes fuel (rest.drop ((rest.headD 0).toNat + 1))

/-- A header that is to be removed: a routing header, or a hop-by-hop header with the option of
RPL. -/
def ExtHdr.ofRpl (h : ExtHdr) : Bool :=
  h.proto = uipProtoRouting ∨
    h.proto = uipProtoHbho ∧ (optionTypes h.data.length h.data).contains uipExtHdrOptRpl

/-- A header that the function takes out. -/
def ExtHdr.takenOut (h : ExtHdr) : Bool :=
  h.proto = uipProtoRouting ∨ h.proto = uipProtoHbho ∧ h.data.head? = some uipExtHdrOptRpl

/-- A hop-by-hop header is the first one only, and what is behind the extension headers is a header
that the stack knows to be none, or nothing. -/
structure WellFormed (upper : Byte) (payload : List Byte) (hs : List ExtHdr) : Prop where
  hbho_first : ∀ h ∈ hs.tail, h.proto ≠ uipProtoHbho
  upper : uipIsProtoExtHdr upper → upper = uipProtoNone ∧ payload = []

/-- The packet has the other headers only, and nothing else is changed. -/
def RemovedRight (p : Uipbuf) (upper : Byte) (payload : List Byte) (hs : List ExtHdr)
    (res : Bool × Uipbuf) : Prop :=
  res.1 = true ∧ IsPacket res.2 upper payload (hs.filter fun h => !h.ofRpl) ∧
    ∀ i < 40, i ∉ [4, 5, 6] → res.2.buf i = p.buf i

/-- Hop-by-hop headers have the option of RPL as their first one, no header is to be removed behind
one that stays, and something is left if a header is. -/
structure RemoveCond (payload : List Byte) (hs : List ExtHdr) : Prop where
  first_option : ∀ h ∈ hs, h.ofRpl → h.takenOut
  behind : hs.Pairwise fun h h' => h'.takenOut → h.takenOut
  left : hs = [] ∨ payload ≠ [] ∨ ∃ h ∈ hs, !h.takenOut

variable {uip : UipConfig} {p p' q : Uipbuf} {upper protocol protocol' : Byte}
  {payload : List Byte} {hs ks : List ExtHdr} {h h' : ExtHdr} {buf : ℕ → Byte}
  {i off prev next fuel : ℕ} {res res' : Bool × Uipbuf}

/-! ## The loop ends -/

section

variable (p : Uipbuf) (buf : ℕ → Byte)

@[simp] theorem buf_withBuf : (withBuf p buf).buf = buf := rfl

@[simp] theorem uipLen_withBuf : (withBuf p buf).uipLen = p.uipLen := rfl

@[simp] theorem uipExtLen_withBuf :
    (withBuf p buf).uipExtLen = p.uipExtLen := rfl

end

/-- A packet is no longer when a header is taken out, and shorter if there is more to do. -/
theorem removeHeader_uipLen (uip : UipConfig) (p : Uipbuf) (off prev : ℕ) :
    (removeHeader uip p off prev).2.uipLen ≤ p.uipLen ∧
      ((removeHeader uip p off prev).1 → off < (removeHeader uip p off prev).2.uipLen ∧
        (removeHeader uip p off prev).2.uipLen < p.uipLen) := by
  simp only [removeHeader, uipbufSubExtHdr]
  split_ifs with hfits
  · dsimp only
    split_ifs with hnothing
    · simp
    · simp only [uipLen_withBuf] at hfits hnothing ⊢
      omega
  · simp

/-- **The loop ends** in as many rounds as there are bytes left. -/
theorem removeLoop_isSome (hoff : off < p.uipLen) (hfuel : p.uipLen ≤ fuel + off) :
    ∃ res, removeLoop uip fuel p off prev protocol = some res := by
  induction fuel generalizing p off prev protocol with
  | zero => omega
  | succ fuel ih =>
    simp only [removeLoop]
    split_ifs with hext htaken hmore
    · exact ⟨_, rfl⟩
    · have ⟨hlt, hless⟩ := (removeHeader_uipLen uip p off prev).2 hmore
      exact ih hlt (by omega)
    · exact ⟨_, rfl⟩
    · split
      · exact ⟨_, rfl⟩
      · rename_i next hnext
        have hspec := next_spec (Prod.ext rfl hnext)
        exact ih (by omega) (by omega)

theorem rplExtHeaderRemove_isSome (uip : UipConfig) (p : Uipbuf) :
    ∃ res, rplExtHeaderRemove uip p = some res := by
  simp only [rplExtHeaderRemove]
  split
  · exact ⟨_, rfl⟩
  · rename_i next hnext
    have hspec := first_spec (Prod.ext rfl hnext)
    exact removeLoop_isSome (by omega) (by omega)

/-- The loop ends with a result. -/
def Ends (uip : UipConfig) (p : Uipbuf) (off prev : ℕ) (protocol : Byte) (res : Bool × Uipbuf) :
    Prop :=
  ∃ fuel, removeLoop uip fuel p off prev protocol = some res

theorem exists_ends (uip : UipConfig) (prev : ℕ) (protocol : Byte) (hoff : off < p.uipLen) :
    ∃ res, Ends uip p off prev protocol res := by
  have ⟨res, hloop⟩ := @removeLoop_isSome uip p protocol off prev p.uipLen hoff (by omega)
  exact ⟨res, _, hloop⟩

theorem removeLoop_succ (h : removeLoop uip fuel p off prev protocol = some res) :
    removeLoop uip (fuel + 1) p off prev protocol = some res := by
  induction fuel generalizing p off prev protocol with
  | zero => exact absurd h.symm (Option.some_ne_none res)
  | succ fuel ih =>
    rw [removeLoop] at h ⊢
    split_ifs at h ⊢ with hext htaken
    · exact h
    · simp only at h ⊢
      split_ifs at h ⊢
      · exact ih h
      · exact h
    · simp only at h ⊢
      split
      · rename_i hnone
        rwa [hnone] at h
      · rename_i next hnext
        rw [hnext] at h
        exact ih h

theorem removeLoop_mono {k : ℕ} (h : removeLoop uip fuel p off prev protocol = some res) :
    removeLoop uip (fuel + k) p off prev protocol = some res := by
  induction k with
  | zero => exact h
  | succ k ih => exact removeLoop_succ ih

theorem Ends.unique (h : Ends uip p off prev protocol res) (h' : Ends uip p off prev protocol res') :
    res = res' := by
  have ⟨fuel, hloop⟩ := h
  have ⟨fuel', hloop'⟩ := h'
  have hsome := @removeLoop_mono _ _ _ _ _ _ _ fuel' hloop
  rw [Nat.add_comm, @removeLoop_mono _ _ _ _ _ _ _ fuel hloop'] at hsome
  exact (Option.some.inj hsome).symm

/-- What the function returns, where there is a first header. -/
theorem ends_of_remove (hfirst : uipbufGetNextHeader p.buf 0 p.uipLen true = (protocol, some 40))
    (h : rplExtHeaderRemove uip p = some res) : Ends uip p 40 6 protocol res := by
  simp only [rplExtHeaderRemove, hfirst] at h
  exact ⟨_, h⟩

/-! ## One round -/

theorem ends_upper (hext : uipIsProtoExtHdr protocol = false) :
    Ends uip p off prev protocol (true, p) :=
  ⟨1, by rw [removeLoop, hext]; rfl⟩

section

variable (hext : uipIsProtoExtHdr protocol)

include hext

theorem ends_none (htaken : takenOut p.buf off protocol = false)
    (hnext : (uipbufGetNextHeader p.buf off (p.uipLen - off) false).2 = none) :
    Ends uip p off prev protocol (true, p) :=
  ⟨1, by simp [removeLoop, hext, htaken, hnext]⟩

/-- A header stays. -/
theorem ends_next (htaken : takenOut p.buf off protocol = false)
    (hnext : uipbufGetNextHeader p.buf off (p.uipLen - off) false = (protocol', some next))
    (h : Ends uip p next next protocol' res) : Ends uip p off prev protocol res := by
  have ⟨fuel, hloop⟩ := h
  exact ⟨fuel + 1, by simp [removeLoop, hext, htaken, hnext, hloop]⟩

/-- A header is taken out, and there is more to do. -/
theorem ends_taken (htaken : takenOut p.buf off protocol)
    (hmore : removeHeader uip p off prev = (true, p'))
    (h : Ends uip p' off prev (p'.buf prev) res) : Ends uip p off prev protocol res := by
  have ⟨fuel, hloop⟩ := h
  exact ⟨fuel + 1, by simp [removeLoop, hext, htaken, hmore, hloop]⟩

/-- A header is taken out, and nothing is left. -/
theorem ends_taken_last (htaken : takenOut p.buf off protocol)
    (hlast : removeHeader uip p off prev = (false, p')) :
    Ends uip p off prev protocol (false, p') :=
  ⟨1, by simp [removeLoop, hext, htaken, hlast]⟩

end

/-! ## What stays -/

theorem removeHeader_buf (hprev : i ≠ prev) (hi : i < off) (h45 : i ∉ [4, 5]) :
    (removeHeader uip p off prev).2.buf i = p.buf i := by
  have hstore : ∀ b : ℕ → Byte, ∀ bs : List Byte, bs.length = 2 → store b 4 bs i = b i := by
    intro b bs hlen
    simp only [mem_cons, not_mem_nil, or_false, not_or] at h45
    by_cases hlow : i < 4
    · exact store_of_lt hlow
    · exact store_of_le (by omega)
  have hfirst : store p.buf prev [p.buf off] i = p.buf i := by
    by_cases hlow : i < prev
    · exact store_of_lt hlow
    · exact store_of_le (by rw [length_singleton]; omega)
  simp only [removeHeader, uipbufSubExtHdr]
  split_ifs with hfits
  · dsimp only
    split_ifs with hnothing
    · rw [buf_withBuf, hstore _ _ rfl]
      exact hfirst
    · rw [buf_withBuf, moveLeft, if_neg (by omega), buf_withBuf, hstore _ _ rfl]
      exact hfirst
  · exact hfirst

/-- **Bytes before the header do not change**, but for the length and the name of the header. -/
theorem Ends.buf_eq (h : Ends uip p off prev protocol res) (hprev : i ≠ prev) (hi : i < off)
    (h45 : i ∉ [4, 5]) : res.2.buf i = p.buf i := by
  have ⟨fuel, hloop⟩ := h
  clear h
  induction fuel generalizing p off prev protocol with
  | zero => exact absurd hloop.symm (Option.some_ne_none res)
  | succ fuel ih =>
    simp only [removeLoop] at hloop
    have hremove := @removeHeader_buf uip p i off prev hprev hi h45
    split_ifs at hloop with hext htaken hmore
    · rw [← Option.some.inj hloop]
    · rw [ih hprev hi hloop, hremove]
    · rw [← Option.some.inj hloop, hremove]
    · split at hloop
      · rw [← Option.some.inj hloop]
      · rename_i next hnext
        have hspec := next_spec (Prod.ext rfl hnext)
        exact ih (by omega) (by omega) hloop

/-- What each removal of a header keeps is kept. -/
theorem Ends.keeps {R : Uipbuf → Uipbuf → Prop} (hrefl : ∀ p, R p p)
    (htrans : ∀ {p q r}, R p q → R q r → R p r)
    (hremove : ∀ p off prev, R p (removeHeader uip p off prev).2)
    (h : Ends uip p off prev protocol res) : R p res.2 := by
  have ⟨fuel, hloop⟩ := h
  clear h
  induction fuel generalizing p off prev protocol with
  | zero => exact absurd hloop.symm (Option.some_ne_none res)
  | succ fuel ih =>
    simp only [removeLoop] at hloop
    split_ifs at hloop with hext htaken hmore
    · exact Option.some.inj hloop ▸ hrefl p
    · exact htrans (hremove p off prev) (ih hloop)
    · exact Option.some.inj hloop ▸ hremove p off prev
    · split at hloop
      · exact Option.some.inj hloop ▸ hrefl p
      · exact ih hloop

/-- The packet is no longer afterwards. -/
theorem Ends.uipLen_le (h : Ends uip p off prev protocol res) : res.2.uipLen ≤ p.uipLen :=
  h.keeps (R := fun p q => q.uipLen ≤ p.uipLen) (fun p => Nat.le_refl p.uipLen)
    (fun h h' => Nat.le_trans h' h) fun p off prev => (removeHeader_uipLen uip p off prev).1

/-- What is behind the extension headers is as long as it was. -/
theorem removeHeader_lengths (uip : UipConfig) (p : Uipbuf) (off prev : ℕ) :
    (removeHeader uip p off prev).2.uipLen - (removeHeader uip p off prev).2.uipExtLen =
      p.uipLen - p.uipExtLen := by
  have hheaders := p.headers_le
  simp only [removeHeader, uipbufSubExtHdr]
  split_ifs with hfits
  · simp only [uipLen_withBuf, uipExtLen_withBuf] at hfits
    dsimp only
    split_ifs with hnothing
    · simp only [uipLen_withBuf, uipExtLen_withBuf]
      omega
    · simp only [uipLen_withBuf, uipExtLen_withBuf]
      omega
  · rfl

theorem Ends.lengths (h : Ends uip p off prev protocol res) :
    res.2.uipLen - res.2.uipExtLen = p.uipLen - p.uipExtLen :=
  h.keeps (R := fun p q => q.uipLen - q.uipExtLen = p.uipLen - p.uipExtLen) (fun _ => rfl)
    (fun h h' => h'.trans h) (removeHeader_lengths uip)

/-- **What stays of a packet**: the header but for the length and the name of the first header, and the
length of what is behind the extension headers. -/
theorem rplExtHeaderRemove_stays (h : rplExtHeaderRemove uip p = some res) :
    (∀ i < 40, i ∉ [4, 5, 6] → res.2.buf i = p.buf i) ∧ res.2.uipLen ≤ p.uipLen ∧
      res.2.uipLen - res.2.uipExtLen = p.uipLen - p.uipExtLen := by
  rw [rplExtHeaderRemove] at h
  cases hfirst : uipbufGetNextHeader p.buf 0 p.uipLen true with
  | mk protocol found =>
    simp only [hfirst] at h
    cases found with
    | none =>
      rw [← Option.some.inj h]
      exact ⟨fun _ _ _ => rfl, Nat.le_refl _, rfl⟩
    | some next =>
      obtain ⟨rfl, -⟩ := first_spec hfirst
      have hends : Ends uip p 40 6 protocol res := ⟨_, h⟩
      refine ⟨fun i hi hlist => ?_, hends.uipLen_le, hends.lengths⟩
      simp only [mem_cons, not_mem_nil, or_false, not_or] at hlist
      exact hends.buf_eq hlist.2.2 hi (by simp [hlist.1, hlist.2.1])

/-- **Any packet is handled**, whatever its bytes: the loop ends, the packet is no longer, and its header
stays but for the length and the name of the first header. -/
theorem rplExtHeaderRemove_any (uip : UipConfig) (p : Uipbuf) : ∃ res,
    rplExtHeaderRemove uip p = some res ∧ (∀ i < 40, i ∉ [4, 5, 6] → res.2.buf i = p.buf i) ∧
      res.2.uipLen ≤ p.uipLen ∧ res.2.uipLen - res.2.uipExtLen = p.uipLen - p.uipExtLen := by
  obtain ⟨res, hres⟩ := rplExtHeaderRemove_isSome uip p
  exact ⟨res, hres, rplExtHeaderRemove_stays hres⟩

/-! ## Chains -/

theorem ExtHdr.eight_le_size (h : ExtHdr) : 8 ≤ h.size := Nat.le_add_left 8 _

@[simp] theorem chainSize_nil : chainSize [] = 0 := rfl

@[simp] theorem chainSize_cons (h : ExtHdr) (hs : List ExtHdr) :
    chainSize (h :: hs) = h.size + chainSize hs := by
  rw [chainSize, map_cons, sum_cons, chainSize]

theorem length_chainBytes (upper : Byte) (payload : List Byte) (hs : List ExtHdr) :
    (chainBytes upper payload hs).length = chainSize hs + payload.length := by
  induction hs with
  | nil => simp [chainBytes, chainSize]
  | cons h hs ih =>
    rw [chainBytes, length_cons, length_cons, length_append, ih, h.length_data,
      chainSize_cons, ExtHdr.size]
    omega

/-- The rest of a packet is a chain. -/
structure AtChain (p : Uipbuf) (off : ℕ) (upper : Byte) (payload : List Byte) (hs : List ExtHdr) :
    Prop where
  bytes : Holds p.buf off (chainBytes upper payload hs)
  len : p.uipLen = off + (chainSize hs + payload.length)

theorem IsPacket.atChain (hp : IsPacket p upper payload hs) : AtChain p 40 upper payload hs :=
  ⟨hp.bytes, hp.len⟩

section

variable (hc : AtChain p off upper payload (h :: hs))

include hc

theorem AtChain.proto : p.buf off = chainProto upper hs := by
  have hbytes := hc.bytes
  rw [chainBytes, holds_cons] at hbytes
  exact hbytes.1

theorem AtChain.hdrLen : (p.buf (off + 1)).toNat * 8 + 8 = h.size := by
  have hbytes := hc.bytes
  rw [chainBytes, holds_cons, holds_cons] at hbytes
  rw [hbytes.2.1, ExtHdr.size]

theorem AtChain.tail : AtChain p (off + h.size) upper payload hs := by
  have hbytes := hc.bytes
  have hlen := hc.len
  rw [chainBytes, holds_cons, holds_cons, holds_append, h.length_data] at hbytes
  rw [chainSize_cons] at hlen
  have hpos : off + 1 + 1 + (h.len.toNat * 8 + 6) = off + h.size := by
    rw [ExtHdr.size]
    omega
  rw [hpos] at hbytes
  exact ⟨hbytes.2.2.2, by omega⟩

theorem AtChain.takenOut : takenOut p.buf off h.proto = h.takenOut := by
  have hbytes := hc.bytes
  rw [chainBytes, holds_cons, holds_cons, holds_append] at hbytes
  have hdata := hbytes.2.2.1
  cases hd : h.data with
  | nil =>
    have hlen := h.length_data
    rw [hd, length_nil] at hlen
    omega
  | cons type rest =>
    rw [hd, holds_cons] at hdata
    have htype : p.buf (off + 2) = type := hdata.1
    simp [Rpl.takenOut, ExtHdr.takenOut, hd, htype]

end

/-- The header behind an extension header. -/
theorem AtChain.next_ext (hc : AtChain p off upper payload (h :: h' :: hs)) :
    uipbufGetNextHeader p.buf off (p.uipLen - off) false = (h'.proto, some (off + h.size)) := by
  have hproto : p.buf off = h'.proto := hc.proto
  have hhdr := hc.hdrLen
  have hnext := hc.tail.hdrLen
  have hlen := hc.len
  rw [chainSize_cons, chainSize_cons] at hlen
  have hsize := h'.eight_le_size
  simp only [uipbufGetNextHeader, Bool.false_eq_true, if_false, hproto, hhdr, hnext, h'.isExt, if_true]
  rw [if_neg (by omega), if_neg (by omega)]

/-- Behind the last extension header there is nothing or a header of the upper layer. -/
theorem AtChain.next_upper (hc : AtChain p off upper payload [h])
    (hupper : uipIsProtoExtHdr upper → payload = []) :
    (uipbufGetNextHeader p.buf off (p.uipLen - off) false).2 = none ∨
      uipIsProtoExtHdr upper = false ∧
        uipbufGetNextHeader p.buf off (p.uipLen - off) false = (upper, some (off + h.size)) := by
  have hproto : p.buf off = upper := hc.proto
  have hhdr := hc.hdrLen
  have hlen := hc.len
  rw [chainSize_cons, chainSize_nil] at hlen
  simp only [uipbufGetNextHeader, Bool.false_eq_true, if_false, hproto, hhdr]
  rw [if_neg (by omega)]
  cases hext : uipIsProtoExtHdr upper with
  | true =>
    left
    rw [hupper hext, length_nil] at hlen
    rw [if_pos rfl, if_pos (Or.inr (by omega))]
  | false =>
    rw [if_neg Bool.false_ne_true]
    split_ifs with hshort
    · exact Or.inl rfl
    · exact Or.inr ⟨rfl, rfl⟩

/-- **Headers that stay** leave the packet as it is. -/
theorem ends_stay (hc : AtChain p off upper payload hs)
    (hupper : uipIsProtoExtHdr upper → payload = []) (hstay : ∀ h ∈ hs, h.takenOut = false)
    (hnil : hs = [] → uipIsProtoExtHdr upper = false) :
    Ends uip p off prev (chainProto upper hs) (true, p) := by
  induction hs generalizing off prev with
  | nil => exact ends_upper (hnil rfl)
  | cons h hs ih =>
    have htaken := hc.takenOut.trans (hstay h mem_cons_self)
    cases hs with
    | nil =>
      cases hc.next_upper hupper with
      | inl hnone => exact ends_none h.isExt htaken hnone
      | inr hsome => exact ends_next h.isExt htaken hsome.2 (ends_upper hsome.1)
    | cons h' hs =>
      refine ends_next h.isExt htaken hc.next_ext (ih hc.tail (fun x hx => ?_) fun hnil => ?_)
      · exact hstay x (mem_cons_of_mem h hx)
      · cases hnil

/-- Headers that stay are passed. -/
theorem ends_pass (hc : AtChain p off upper payload (h :: ks ++ h' :: hs))
    (hstay : ∀ x ∈ h :: ks, x.takenOut = false)
    (hends : Ends uip p (off + chainSize (h :: ks)) (off + chainSize (h :: ks)) h'.proto res) :
    Ends uip p off prev h.proto res := by
  induction ks generalizing h off prev with
  | nil =>
    have htaken := hc.takenOut.trans (hstay h mem_cons_self)
    refine ends_next h.isExt htaken hc.next_ext ?_
    simpa [chainSize] using hends
  | cons k ks ih =>
    have htaken := hc.takenOut.trans (hstay h mem_cons_self)
    refine ends_next h.isExt htaken hc.next_ext (ih hc.tail (fun x hx => ?_) ?_)
    · exact hstay x (mem_cons_of_mem h hx)
    · rwa [chainSize_cons, ← Nat.add_assoc] at hends

/-! ## A header is taken out -/

theorem holds_moveLeft {bs : List Byte} {k len : ℕ} (hbytes : Holds buf (off + k) bs)
    (hlen : off + bs.length ≤ len) : Holds (moveLeft buf off k len) off bs := by
  intro i hi
  rw [moveLeft, if_pos (by omega), Nat.add_right_comm]
  exact hbytes i hi

/-- **The first header is taken out** of a packet. -/
theorem IsPacket.removeHeader (hp : IsPacket p upper payload (h :: hs)) (hmtu : p.uipLen ≤ uip.linkMtu) :
    (Rpl.removeHeader uip p 40 6).1 = decide (hs ≠ [] ∨ payload ≠ []) ∧
      (hs ≠ [] ∨ payload ≠ [] → IsPacket (Rpl.removeHeader uip p 40 6).2 upper payload hs ∧
        ∀ i < 40, i ∉ [4, 5, 6] → (Rpl.removeHeader uip p 40 6).2.buf i = p.buf i) := by
  have hhdr := hp.atChain.hdrLen
  have hproto := hp.atChain.proto
  have htail := hp.atChain.tail
  have hlen := htail.len
  have hext := hp.extLen
  rw [chainSize_cons] at hext
  have hfits : p.uipLen - h.size ≤ uip.linkMtu ∧ h.size ≤ p.uipLen ∧ h.size ≤ p.uipExtLen := by omega
  have hleft : p.uipLen - h.size ≤ 40 ↔ ¬(hs ≠ [] ∨ payload ≠ []) := by
    have hcases : chainSize hs + payload.length = 0 ↔ ¬(hs ≠ [] ∨ payload ≠ []) := by
      cases hs with
      | nil => simp [chainSize]
      | cons x hs =>
        have hsize := x.eight_le_size
        simp [chainSize_cons]
        omega
    rw [← hcases]
    omega
  simp only [Rpl.removeHeader, Nat.reduceAdd, hhdr, uipbufSubExtHdr, uipLen_withBuf,
    uipExtLen_withBuf, dif_pos hfits, hproto, buf_withBuf]
  by_cases hnothing : p.uipLen - h.size ≤ 40
  · rw [if_pos hnothing]
    have hnone := hleft.mp hnothing
    exact ⟨(decide_eq_false hnone).symm, fun hsome => absurd hsome hnone⟩
  · rw [if_neg hnothing]
    have hsome : hs ≠ [] ∨ payload ≠ [] := not_not.mp fun hnone => hnothing (hleft.mpr hnone)
    -- the bytes of the first header, before the rest of the packet is moved
    have hstore : ∀ (b : ℕ → Byte) (j n : ℕ), j ≠ 4 → j ≠ 5 → store b 4 (lenField n) j = b j := by
      intro b j n h4 h5
      by_cases hlow : j < 4
      · exact store_of_lt hlow
      · exact store_of_le (show 4 + 2 ≤ j by omega)
    have hsix : ∀ j, j ≠ 6 → store p.buf 6 [chainProto upper hs] j = p.buf j := by
      intro j h6
      by_cases hlow : j < 6
      · exact store_of_lt hlow
      · exact store_of_le (show 6 + 1 ≤ j by omega)
    refine ⟨(decide_eq_true hsome).symm, fun _ => ⟨⟨?_, ?_, ?_, ?_, ?_⟩, fun j hj hlist => ?_⟩⟩
    · simp only [buf_withBuf, moveLeft]
      rw [if_neg (by omega), hstore _ _ _ (by decide) (by decide)]
      simp [store]
    · refine holds_moveLeft (htail.bytes.congr fun j hle hlt => ?_) ?_
      · rw [hstore _ _ _ (by omega) (by omega), hsix _ (by omega)]
      · rw [length_chainBytes]
        omega
    · change p.uipLen - h.size = _
      omega
    · change p.uipExtLen - h.size = _
      omega
    · refine (holds_store (store p.buf 6 [chainProto upper hs]) 4
        (lenField (p.uipLen - h.size - uipIphLen))).congr fun j hle hlt => ?_
      have hj : j < 6 := hlt
      simp only [buf_withBuf, moveLeft]
      rw [if_neg (by omega)]
    · simp only [mem_cons, not_mem_nil, or_false, not_or] at hlist
      simp only [buf_withBuf, moveLeft]
      rw [if_neg (by omega), hstore _ _ _ hlist.1 hlist.2.1, hsix _ hlist.2.2]

/-- What is left of a packet when its first headers have been taken out. -/
structure Left (p q : Uipbuf) (upper : Byte) (payload : List Byte) (hs : List ExtHdr) : Prop where
  packet : IsPacket q upper payload hs
  same : ∀ i < 40, i ∉ [4, 5, 6] → q.buf i = p.buf i
  uipLen : q.uipLen ≤ p.uipLen

/-- **Headers at the start are taken out** one after the other. -/
theorem IsPacket.takeOut (hp : IsPacket p upper payload (ks ++ hs)) (hmtu : p.uipLen ≤ uip.linkMtu)
    (htaken : ∀ h ∈ ks, h.takenOut) (hsome : hs ≠ [] ∨ payload ≠ []) :
    ∃ q, Left p q upper payload hs ∧ ∀ res, Ends uip q 40 6 (chainProto upper hs) res →
      Ends uip p 40 6 (chainProto upper (ks ++ hs)) res := by
  induction ks generalizing p with
  | nil => exact ⟨p, ⟨hp, fun _ _ _ => rfl, Nat.le_refl _⟩, fun res hends => hends⟩
  | cons k ks ih =>
    have hmore : ks ++ hs ≠ [] ∨ payload ≠ [] :=
      hsome.imp_left fun hne hnil => hne (append_eq_nil_iff.mp hnil).2
    have ⟨hgo, hpacket⟩ := hp.removeHeader hmtu
    have ⟨hp', hsame⟩ := hpacket hmore
    have hlen := (removeHeader_uipLen uip p 40 6).1
    have ⟨q, hq, hends⟩ := ih hp' (Nat.le_trans hlen hmtu)
      fun h hh => htaken h (mem_cons_of_mem k hh)
    refine ⟨q, ⟨hq.packet, fun i hi hlist => ?_, Nat.le_trans hq.uipLen hlen⟩, fun res hres => ?_⟩
    · rw [hq.same i hi hlist, hsame i hi hlist]
    · refine ends_taken k.isExt (hp.atChain.takenOut.trans (htaken k mem_cons_self))
        (Prod.ext (hgo.trans (decide_eq_true hmore)) rfl) ?_
      rw [hp'.proto]
      exact hends res hres

/-- The last header is taken out, and nothing is left. -/
theorem IsPacket.takeOut_last (hp : IsPacket p upper [] [h]) (hmtu : p.uipLen ≤ uip.linkMtu)
    (htaken : h.takenOut) : ∃ q, Ends uip p 40 6 h.proto (false, q) := by
  have hgo := (hp.removeHeader hmtu).1
  refine ⟨_, ends_taken_last h.isExt (hp.atChain.takenOut.trans htaken) (Prod.ext hgo rfl)⟩

/-- **The headers that are taken out are at the start** of the packet. -/
theorem IsPacket.ends (hp : IsPacket p upper payload (ks ++ hs)) (hmtu : p.uipLen ≤ uip.linkMtu)
    (hupper : uipIsProtoExtHdr upper → payload = []) (htaken : ∀ h ∈ ks, h.takenOut)
    (hstay : ∀ h ∈ hs, h.takenOut = false) (hsome : hs ≠ [] ∨ payload ≠ []) :
    ∃ q, Left p q upper payload hs ∧ Ends uip p 40 6 (chainProto upper (ks ++ hs)) (true, q) := by
  have ⟨q, hq, hends⟩ := hp.takeOut hmtu htaken hsome
  refine ⟨q, hq, hends _ (ends_stay hq.packet.atChain hupper hstay fun hnil => ?_)⟩
  have hpayload := hsome.resolve_left (not_not.mpr hnil)
  cases hext : uipIsProtoExtHdr upper with
  | false => rfl
  | true => exact absurd (hupper hext) hpayload

/-! ## The first header -/

theorem IsPacket.first (hp : IsPacket p upper payload (h :: hs)) :
    uipbufGetNextHeader p.buf 0 p.uipLen true = (h.proto, some 40) := by
  have hproto : p.buf 6 = h.proto := hp.proto
  have hhdr := hp.atChain.hdrLen
  have hlen := hp.len
  rw [chainSize_cons] at hlen
  simp only [uipbufGetNextHeader, if_true, Nat.zero_add, hproto, h.isExt, uipIphLen, hhdr]
  rw [if_neg (by omega), if_neg (by have := h.eight_le_size; omega)]

/-- Without extension headers there is nothing to do. -/
theorem IsPacket.remove_nil (hp : IsPacket p upper payload [])
    (hupper : uipIsProtoExtHdr upper → payload = []) : rplExtHeaderRemove uip p = some (true, p) := by
  have hproto : p.buf 6 = upper := hp.proto
  have hlen := hp.len
  rw [chainSize_nil, Nat.zero_add] at hlen
  cases hext : uipIsProtoExtHdr upper with
  | true =>
    rw [hupper hext, length_nil] at hlen
    simp only [rplExtHeaderRemove, uipbufGetNextHeader, if_true, Nat.zero_add, hproto, hext,
      uipIphLen]
    rw [if_neg (by omega), if_pos (Or.inr (by omega))]
  | false =>
    simp only [rplExtHeaderRemove]
    split
    · rfl
    · have hfirst : (uipbufGetNextHeader p.buf 0 p.uipLen true).1 = upper := by
        simp only [uipbufGetNextHeader, if_true, Nat.zero_add, hproto]
        split_ifs <;> rfl
      rw [hfirst, removeLoop, hext]
      rfl

/-! ## When it is right -/

theorem ExtHdr.ofRpl_of_takenOut (h : ExtHdr) (htaken : h.takenOut) : h.ofRpl := by
  simp only [ExtHdr.takenOut, ExtHdr.ofRpl, decide_eq_true_eq, contains_iff_mem] at htaken ⊢
  refine htaken.imp_right fun hhbho => ⟨hhbho.1, ?_⟩
  cases hd : h.data with
  | nil => simp [hd] at hhbho
  | cons type rest =>
    have htype : type = uipExtHdrOptRpl := by simpa [hd] using hhbho.2
    rw [htype, length_cons, optionTypes, if_neg (by decide)]
    exact mem_cons_self

/-- A list in which what has a property comes first is split by it. -/
theorem exists_split {α : Type} {P : α → Bool} {l : List α}
    (h : l.Pairwise fun a b => P b → P a) :
    ∃ as bs, l = as ++ bs ∧ (∀ a ∈ as, P a) ∧ ∀ b ∈ bs, P b = false := by
  induction l with
  | nil => exact ⟨[], [], rfl, by simp, by simp⟩
  | cons a l ih =>
    have ⟨hfirst, hrest⟩ := pairwise_cons.mp h
    cases ha : P a with
    | true =>
      have ⟨as, bs, hl, has, hbs⟩ := ih hrest
      refine ⟨a :: as, bs, by rw [hl, cons_append], fun x hx => ?_, hbs⟩
      cases mem_cons.mp hx with
      | inl hxa => rw [hxa, ha]
      | inr hin => exact has x hin
    | false =>
      refine ⟨[], a :: l, rfl, by simp, fun b hb => ?_⟩
      cases mem_cons.mp hb with
      | inl hba => rw [hba, ha]
      | inr hin =>
        cases hpb : P b with
        | false => rfl
        | true => exact absurd (hfirst b hin hpb) (by rw [ha]; exact Bool.false_ne_true)

/-- In another list there are neighbors that are not in this order. -/
theorem exists_neighbors {α : Type} {P : α → Bool} {l : List α}
    (h : ¬l.Pairwise fun a b => P b → P a) :
    ∃ as bs a b cs, l = as ++ (bs ++ a :: b :: cs) ∧ (∀ x ∈ as, P x) ∧
      (∀ x ∈ bs ++ [a], P x = false) ∧ P b := by
  induction l with
  | nil => exact absurd List.Pairwise.nil h
  | cons x l ih =>
    cases hx : P x with
    | true =>
      have hrest : ¬l.Pairwise fun a b => P b → P a := fun hl =>
        h (pairwise_cons.mpr ⟨fun b _ _ => hx, hl⟩)
      have ⟨as, bs, a, b, cs, hl, has, hbs, hb⟩ := ih hrest
      refine ⟨x :: as, bs, a, b, cs, by rw [hl, cons_append], fun y hy => ?_, hbs, hb⟩
      cases mem_cons.mp hy with
      | inl hyx => rw [hyx, hx]
      | inr hin => exact has y hin
    | false =>
      cases hfind : l.find? P with
      | none =>
        have hnone : ∀ b ∈ x :: l, P b = false := by
          intro b hb
          cases mem_cons.mp hb with
          | inl hbx => rw [hbx, hx]
          | inr hin => simpa using List.find?_eq_none.mp hfind b hin
        exact absurd (pairwise_of_forall_mem_list fun a ha b hb hpb => absurd hpb (by
          rw [hnone b hb]
          exact Bool.false_ne_true)) h
      | some b =>
        have ⟨hb, as, cs, hl, has⟩ := List.find?_eq_some_iff_append.mp hfind
        obtain ⟨bs, a, hlast⟩ : ∃ bs a, bs ++ [a] = x :: as :=
          ⟨_, _, dropLast_append_getLast (cons_ne_nil x as)⟩
        refine ⟨[], bs, a, b, cs, ?_, by simp, fun y hy => ?_, hb⟩
        · calc x :: l = (x :: as) ++ b :: cs := by rw [hl]; rfl
            _ = (bs ++ [a]) ++ b :: cs := by rw [hlast]
            _ = [] ++ (bs ++ a :: b :: cs) := by rw [append_assoc]; rfl
        · rw [hlast] at hy
          cases mem_cons.mp hy with
          | inl hyx => rw [hyx, hx]
          | inr hin => simpa using has y hin

/-- The chain behind some headers. -/
theorem holds_append_chain (hb : Holds buf off (chainBytes upper payload (ks ++ hs))) :
    Holds buf (off + chainSize ks) (chainBytes upper payload hs) := by
  induction ks generalizing off with
  | nil => exact hb
  | cons k ks ih =>
    rw [cons_append, chainBytes, holds_cons, holds_cons, holds_append, k.length_data] at hb
    have hpos : off + 1 + 1 + (k.len.toNat * 8 + 6) = off + k.size := by
      rw [ExtHdr.size]
      omega
    rw [hpos] at hb
    have hrest := ih hb.2.2.2
    rwa [Nat.add_assoc, ← chainSize_cons] at hrest

/-- Where a header stands, the byte that names the next one. -/
theorem next_of_holds (hb : Holds buf off (chainBytes upper payload (ks ++ h :: hs))) :
    buf (off + chainSize ks) = chainProto upper hs := by
  have hrest := holds_append_chain hb
  rw [chainBytes, holds_cons] at hrest
  exact hrest.1

theorem chainProto_ne {b : Byte} (hupper : upper ≠ b) (hne : ∀ h ∈ hs, h.proto ≠ b) :
    chainProto upper hs ≠ b := by
  cases hs with
  | nil => exact hupper
  | cons h hs => exact hne h mem_cons_self

theorem WellFormed.upper_ne (hw : WellFormed upper payload hs) {b : Byte}
    (hb : uipIsProtoExtHdr b) (hne : b ≠ uipProtoNone) : upper ≠ b := by
  intro heq
  rw [← heq] at hb hne
  exact hne (hw.upper hb).1

/-- From a packet with headers the loop ends with what the function returns. -/
theorem ends_iff (hp : IsPacket p upper payload (h :: hs)) :
    rplExtHeaderRemove uip p = some res ↔ Ends uip p 40 6 h.proto res := by
  constructor
  · exact ends_of_remove hp.first
  · intro hends
    have ⟨res', hres'⟩ := rplExtHeaderRemove_isSome uip p
    rw [hres', (ends_of_remove hp.first hres').unique hends]

/-- **A first header that stays keeps its name.** -/
theorem first_stays (hp : IsPacket p upper payload (h :: hs)) (hstay : h.takenOut = false)
    (hends : Ends uip p 40 6 h.proto res) : res.2.buf 6 = h.proto := by
  have hproto : p.buf 6 = h.proto := hp.proto
  have htaken := hp.atChain.takenOut.trans hstay
  cases hnext : uipbufGetNextHeader p.buf 40 (p.uipLen - 40) false with
  | mk protocol found =>
    cases found with
    | none =>
      rw [hends.unique (ends_none h.isExt htaken (by rw [hnext])), hproto]
    | some next =>
      have hspec := next_spec hnext
      have ⟨res', hends'⟩ := @exists_ends p next uip next protocol (by omega)
      rw [hends.unique (ends_next h.isExt htaken hnext hends'),
        hends'.buf_eq (by omega) (by omega) (by decide), hproto]

/-- **A header that is taken out behind one that stays** is named by it still. -/
theorem neighbor_stays {init rest : List ExtHdr} {k y : ExtHdr}
    (hp : IsPacket p upper payload (init ++ k :: y :: rest))
    (hstay : ∀ x ∈ init ++ [k], x.takenOut = false)
    (hends : Ends uip p 40 6 (chainProto upper (init ++ k :: y :: rest)) res) :
    res.2.buf (40 + chainSize init) = y.proto := by
  have hk : p.buf (40 + chainSize init) = y.proto := next_of_holds hp.bytes
  have hsplit : init ++ k :: y :: rest = (init ++ [k]) ++ y :: rest := by simp
  obtain ⟨x, xs, hx⟩ : ∃ x xs, init ++ [k] = x :: xs := exists_cons_of_ne_nil (by simp)
  have hsize : chainSize init + k.size = chainSize (x :: xs) := by
    rw [← hx]
    simp [chainSize]
  have hksize := k.eight_le_size
  rw [hsplit, hx] at hp hends
  rw [hx] at hstay
  have hlen := hp.len
  have hrest := holds_append_chain hp.bytes
  have hat : AtChain p (40 + chainSize (x :: xs)) upper payload (y :: rest) := by
    refine ⟨hrest, ?_⟩
    rw [hlen]
    simp [chainSize, Nat.add_assoc]
  have hysize := y.eight_le_size
  have hlen' := hat.len
  rw [chainSize_cons (h := y)] at hlen'
  have ⟨res', hends'⟩ := @exists_ends p (40 + chainSize (x :: xs)) uip
    (40 + chainSize (x :: xs)) y.proto (by omega)
  rw [hends.unique (ends_pass hp.atChain hstay hends'), hends'.buf_eq (by omega) (by omega), hk]
  simp only [mem_cons, not_mem_nil, or_false, not_or]
  omega

/-- The condition is enough. -/
theorem RemoveCond.right (hcond : RemoveCond payload hs) (hp : IsPacket p upper payload hs)
    (hupper : uipIsProtoExtHdr upper → payload = []) (hmtu : p.uipLen ≤ uip.linkMtu)
    (hres : rplExtHeaderRemove uip p = some res) : RemovedRight p upper payload hs res := by
  cases hs with
  | nil =>
    rw [hp.remove_nil hupper] at hres
    rw [← Option.some.inj hres]
    exact ⟨rfl, hp, fun _ _ _ => rfl⟩
  | cons h hs =>
    have ⟨as, bs, hsplit, has, hbs⟩ := exists_split hcond.behind
    have hof : ∀ x ∈ h :: hs, x.ofRpl = x.takenOut := fun x hx =>
      Bool.eq_iff_iff.mpr ⟨hcond.first_option x hx, x.ofRpl_of_takenOut⟩
    have hfilter : (h :: hs).filter (fun x => !x.ofRpl) = bs := by
      rw [filter_congr fun x hx => congrArg not (hof x hx), hsplit, filter_append,
        filter_eq_nil_iff.mpr fun a ha => by simp [has a ha], nil_append,
        filter_eq_self.mpr fun b hb => by simp [hbs b hb]]
    have hsome : bs ≠ [] ∨ payload ≠ [] := by
      rcases hcond.left with hnil | hpayload | ⟨x, hx, hstay⟩
      · cases hnil
      · exact Or.inr hpayload
      · refine Or.inl fun hnil => ?_
        rw [hsplit, hnil, append_nil] at hx
        simp [has x hx] at hstay
    have hends := (ends_iff hp).mp hres
    rw [hsplit] at hp
    have ⟨q, hq, hq'⟩ := hp.ends hmtu hupper has hbs hsome
    rw [← hsplit] at hq'
    rw [RemovedRight, hends.unique hq', hfilter]
    exact ⟨rfl, hq.packet, hq.same⟩

/-- A hop-by-hop header that stays, though it has the option, is named by the packet still. -/
theorem first_option_of_wanted
    (hwanted : IsPacket res.2 upper payload (hs.filter fun h => !h.ofRpl)) (hp : IsPacket p upper payload hs) (hw : WellFormed upper payload hs)
    (hres : rplExtHeaderRemove uip p = some res) : ∀ h ∈ hs, h.ofRpl → h.takenOut := by
  intro y hy hof
  cases hstay : y.takenOut with
  | true => rfl
  | false =>
    exfalso
    have hhbho : y.proto = uipProtoHbho := by
      simp only [ExtHdr.ofRpl, ExtHdr.takenOut, decide_eq_true_eq, decide_eq_false_iff_not] at hof hstay
      exact (hof.resolve_left fun hrouting => hstay (Or.inl hrouting)).1
    cases hs with
    | nil => cases hy
    | cons x hs =>
      have hyx : y = x :=
        (mem_cons.mp hy).resolve_right fun hin => hw.hbho_first y hin hhbho
      rw [hyx] at hof hstay hhbho
      have hsix := first_stays hp hstay ((ends_iff hp).mp hres)
      rw [hwanted.proto, hhbho, filter_cons_of_neg (by simp [hof])] at hsix
      refine chainProto_ne (hw.upper_ne (by decide) (by decide)) (fun z hz => ?_) hsix
      exact hw.hbho_first z (mem_of_mem_filter hz)

/-- A header that is taken out behind one that stays is named by it still. -/
theorem behind_of_wanted (hwanted : IsPacket res.2 upper payload (hs.filter fun h => !h.ofRpl))
    (hp : IsPacket p upper payload hs) (hw : WellFormed upper payload hs)
    (hmtu : p.uipLen ≤ uip.linkMtu) (hres : rplExtHeaderRemove uip p = some res)
    (hof : ∀ h ∈ hs, h.ofRpl → h.takenOut) :
    hs.Pairwise fun h h' => h'.takenOut → h.takenOut := by
  by_contra hpair
  have ⟨as, init, k, y, rest, hsplit, has, hinit, hy⟩ := exists_neighbors hpair
  subst hsplit
  have ⟨q, hq, hends⟩ := @IsPacket.takeOut uip _ _ _ _ _ hp hmtu has (Or.inl (by simp))
  obtain ⟨x, xs, hx⟩ : ∃ x xs, as ++ (init ++ k :: y :: rest) = x :: xs :=
    exists_cons_of_ne_nil (by simp)
  have hres' : Ends uip p 40 6 (chainProto upper (as ++ (init ++ k :: y :: rest))) res := by
    rw [hx] at hp ⊢
    exact (ends_iff hp).mp hres
  have hqlen := hq.packet.len
  have hk := k.eight_le_size
  have ⟨res', hends'⟩ := @exists_ends q 40 uip 6 (chainProto upper (init ++ k :: y :: rest)) (by
    simp [chainSize] at hqlen
    omega)
  have hsame := hres'.unique (hends res' hends')
  have hbyte := neighbor_stays hq.packet hinit hends'
  rw [← hsame] at hbyte
  -- in the packet that is wanted the header that stays names another one
  have hall : ∀ z ∈ as ++ (init ++ k :: y :: rest), z.ofRpl = z.takenOut := fun z hz =>
    Bool.eq_iff_iff.mpr ⟨hof z hz, z.ofRpl_of_takenOut⟩
  have hfilter : (as ++ (init ++ k :: y :: rest)).filter (fun z => !z.ofRpl) =
      init ++ k :: (rest.filter fun z => !z.takenOut) := by
    rw [filter_congr fun z hz => congrArg not (hall z hz), filter_append,
      filter_eq_nil_iff.mpr fun a ha => by simp [has a ha], nil_append,
      filter_append,
      filter_eq_self.mpr fun z hz => by simp [hinit z (mem_append_left _ hz)],
      filter_cons_of_pos (by simp [hinit k (by simp)]),
      filter_cons_of_neg (by simp [hy])]
  have hbytes := hwanted.bytes
  rw [hfilter] at hbytes
  rw [next_of_holds hbytes] at hbyte
  have hrouting : y.proto = uipProtoRouting := by
    simp only [ExtHdr.takenOut, decide_eq_true_eq] at hy
    refine hy.resolve_right fun hhbho => hw.hbho_first y ?_ hhbho.1
    cases as with
    | nil =>
      cases init with
      | nil => simp
      | cons _ _ => simp
    | cons _ _ => simp
  rw [hrouting] at hbyte
  refine chainProto_ne (hw.upper_ne (by decide) (by decide)) (fun z hz heq => ?_) hbyte
  have htaken := of_mem_filter hz
  simp [ExtHdr.takenOut, heq] at htaken

theorem RemovedRight.left (hright : RemovedRight p upper payload hs res)
    (hp : IsPacket p upper payload hs) (hmtu : p.uipLen ≤ uip.linkMtu)
    (hres : rplExtHeaderRemove uip p = some res) :
    hs = [] ∨ payload ≠ [] ∨ ∃ h ∈ hs, !h.takenOut := by
  by_contra hcond
  have ⟨hne, hcond⟩ := not_or.mp hcond
  have ⟨hpayload, hstay⟩ := not_or.mp hcond
  have hpayload := not_not.mp hpayload
  subst hpayload
  have htaken : ∀ h ∈ hs, h.takenOut := by
    intro h hh
    cases ht : h.takenOut with
    | true => rfl
    | false => exact absurd ⟨h, hh, by rw [ht]; rfl⟩ hstay
  obtain ⟨as, a, hlast⟩ : ∃ as a, as ++ [a] = hs := ⟨_, _, dropLast_append_getLast hne⟩
  subst hlast
  have ⟨q, hq, hends⟩ := @IsPacket.takeOut uip _ _ _ _ _ hp hmtu
    (fun h hh => htaken h (mem_append_left _ hh)) (Or.inl (by simp))
  have ⟨u, hu⟩ := @IsPacket.takeOut_last uip _ _ _ hq.packet (Nat.le_trans hq.uipLen hmtu)
    (htaken a (by simp))
  obtain ⟨x, xs, hx⟩ : ∃ x xs, as ++ [a] = x :: xs := exists_cons_of_ne_nil (by simp)
  have hres' : Ends uip p 40 6 (chainProto upper (as ++ [a])) res := by
    rw [hx] at hp ⊢
    exact (ends_iff hp).mp hres
  have hsame := hres'.unique (hends _ hu)
  have htrue := hright.1
  rw [hsame] at htrue
  cases htrue

/-- **The removal is right if and only if its condition holds.** -/
theorem removedRight_iff (hp : IsPacket p upper payload hs) (hw : WellFormed upper payload hs)
    (hmtu : p.uipLen ≤ uip.linkMtu) (hres : rplExtHeaderRemove uip p = some res) :
    RemovedRight p upper payload hs res ↔ RemoveCond payload hs := by
  refine ⟨fun hright => ?_, fun hcond => hcond.right hp (fun hext => (hw.upper hext).2) hmtu hres⟩
  have hof := first_option_of_wanted hright.2.1 hp hw hres
  exact ⟨hof, behind_of_wanted hright.2.1 hp hw hmtu hres hof, hright.left hp hmtu hres⟩

/-! ## Insertion and removal -/

/-- The option is updated, and nothing else. -/
theorem updateHbhHeader_spec (inst : HbhInstance) (p : Uipbuf) :
    (updateHbhHeader inst p).2.uipLen = p.uipLen ∧
      (updateHbhHeader inst p).2.uipExtLen = p.uipExtLen ∧
      ∀ i, i < 44 ∨ 48 ≤ i → (updateHbhHeader inst p).2.buf i = p.buf i := by
  have hfields : ∀ i, i < 44 ∨ 48 ≤ i →
      store p.buf 45 (inst.instanceId :: netBytes inst.rank) i = p.buf i := by
    intro i hi
    cases hi with
    | inl hlow => exact store_of_lt (by omega)
    | inr hhigh => exact store_of_le (show 45 + 3 ≤ i by omega)
  have hflags : ∀ (b : ℕ → Byte) (flags : Byte) (i : ℕ), i < 44 ∨ 48 ≤ i →
      store b 44 [flags] i = b i := by
    intro b flags i hi
    cases hi with
    | inl hlow => exact store_of_lt hlow
    | inr hhigh => exact store_of_le (show 44 + 1 ≤ i by omega)
  simp only [updateHbhHeader]
  split_ifs
  · exact ⟨rfl, rfl, fun i _ => rfl⟩
  · exact ⟨rfl, rfl, fun i _ => rfl⟩
  · exact ⟨rfl, rfl, hfields⟩
  · exact ⟨rfl, rfl, hfields⟩
  · exact ⟨rfl, rfl, fun i hi => (hflags _ _ i hi).trans (hfields i hi)⟩
  · exact ⟨rfl, rfl, fun i hi => (hflags _ _ i hi).trans (hfields i hi)⟩
  · exact ⟨rfl, rfl, fun i hi => (hflags _ _ i hi).trans (hfields i hi)⟩
  · exact ⟨rfl, rfl, fun i _ => rfl⟩

/-- The bytes of the packet with the header. -/
theorem insertedHbh_buf (inst : HbhInstance) (p : Uipbuf) :
    Holds (insertedHbh inst p).buf 4 (lenField (p.uipLen + 8 - uipIphLen)) ∧
      (insertedHbh inst p).buf 6 = uipProtoHbho ∧
      Holds (insertedHbh inst p).buf 40 (hbhBytes (p.buf 6) inst) ∧
      Holds (insertedHbh inst p).buf 48 (bytesAt p.buf 40 (p.uipLen - uipIphLen)) ∧
      ∀ i < 40, i ∉ [4, 5, 6] → (insertedHbh inst p).buf i = p.buf i := by
  have hlen : (lenField (p.uipLen + 8 - uipIphLen)).length = 2 := rfl
  have hhbh : (hbhBytes (p.buf 6) inst).length = 8 := rfl
  have hbuf : (insertedHbh inst p).buf = store (store (store (store (store p.buf 48
      (bytesAt p.buf 40 (p.uipLen - uipIphLen))) 40 (List.replicate 8 0)) 40
        (hbhBytes (p.buf 6) inst)) 6 [uipProtoHbho]) 4 (lenField (p.uipLen + 8 - uipIphLen)) := rfl
  rw [hbuf]
  refine ⟨holds_store _ 4 _, ?_, ?_, ?_, fun i hi hlist => ?_⟩
  · rw [store_of_le (by omega)]
    simp [store]
  · refine Holds.store (Holds.store (holds_store _ 40 _) (Or.inr ?_)) (Or.inr ?_)
    · rw [length_singleton]
      omega
    · omega
  · refine Holds.store (Holds.store (Holds.store (Holds.store (holds_store p.buf 48 _)
      (Or.inr ?_)) (Or.inr ?_)) (Or.inr ?_)) (Or.inr ?_)
    · exact Nat.le_of_eq (congrArg (40 + ·) length_replicate)
    · omega
    · rw [length_singleton]
      omega
    · omega
  · simp only [mem_cons, not_mem_nil, or_false, not_or] at hlist
    have hfour : ∀ b : ℕ → Byte, store b 4 (lenField (p.uipLen + 8 - uipIphLen)) i = b i := by
      intro b
      by_cases hlow : i < 4
      · exact store_of_lt hlow
      · exact store_of_le (by omega)
    have hsix : ∀ b : ℕ → Byte, store b 6 [uipProtoHbho] i = b i := by
      intro b
      by_cases hlow : i < 6
      · exact store_of_lt hlow
      · exact store_of_le (by simp; omega)
    rw [hfour, hsix, store_of_lt hi, store_of_lt hi, store_of_lt (by omega)]

/-- **A header is inserted** before the others, which the removal takes out. -/
theorem IsPacket.insert {inst : HbhInstance} {ok : Bool} (hp : IsPacket p upper payload hs)
    (hins : insertHbhHeader uip inst p = some (ok, q)) :
    ∃ hdr : ExtHdr, hdr.takenOut ∧ IsPacket q upper payload (hdr :: hs) ∧
      q.uipLen = p.uipLen + 8 ∧ q.uipLen ≤ uip.linkMtu ∧
      ∀ i < 40, i ∉ [4, 5, 6] → q.buf i = p.buf i := by
  rw [insertHbhHeader] at hins
  split_ifs at hins with hlong
  have hq : (updateHbhHeader inst (insertedHbh inst p)).2 = q :=
    congrArg Prod.snd (Option.some.inj hins)
  have ⟨hlen, hext, hsame⟩ := updateHbhHeader_spec inst (insertedHbh inst p)
  have ⟨hfield, hproto, hhbh, hrest, hfirst⟩ := insertedHbh_buf inst p
  rw [hq] at hlen hext hsame
  have hlen : q.uipLen = p.uipLen + 8 := hlen
  have hext : q.uipExtLen = p.uipExtLen + 8 := hext
  simp only [hbhBytes, cons_append, holds_cons] at hhbh
  have hpacket := hp.len
  have hbytes : Holds q.buf 48 (chainBytes upper payload hs) := by
    have hmoved : bytesAt p.buf 40 (p.uipLen - uipIphLen) = chainBytes upper payload hs := by
      have hsize : p.uipLen - uipIphLen = (chainBytes upper payload hs).length := by
        rw [length_chainBytes, hpacket, uipIphLen]
        omega
      rw [hsize, hp.bytes.bytesAt]
    rw [hmoved] at hrest
    exact hrest.congr fun i hle _ => hsame i (Or.inr hle)
  refine ⟨⟨uipProtoHbho, 0, bytesAt q.buf 42 6, by decide, by simp⟩, ?_, ⟨?_, ?_, ?_, ?_, ?_⟩, hlen,
    by omega, fun i hi hlist => ?_⟩
  · have htype : q.buf 42 = uipExtHdrOptRpl := by
      rw [hsame 42 (by omega)]
      exact hhbh.2.2.1
    simp [ExtHdr.takenOut, bytesAt, htype, range_succ]
  · rw [hsame 6 (by omega), hproto]
    rfl
  · rw [chainBytes, holds_cons, holds_cons, holds_append]
    refine ⟨?_, ?_, ?_, ?_⟩
    · rw [hsame 40 (by omega), hhbh.1, hp.proto]
    · rw [hsame 41 (by omega)]
      exact hhbh.2.1
    · have hdata : bytesAt q.buf 42 (bytesAt q.buf 42 6).length = bytesAt q.buf 42 6 := by
        rw [length_bytesAt]
      exact holds_iff_bytesAt.mpr hdata
    · change Holds q.buf (42 + (bytesAt q.buf 42 6).length) _
      rw [length_bytesAt]
      exact hbytes
  · rw [chainSize_cons, ExtHdr.size, hlen, hpacket]
    simp only [BitVec.ofNat_eq_ofNat, BitVec.toNat_ofNat]
    omega
  · rw [chainSize_cons, ExtHdr.size, hext, hp.extLen]
    simp only [BitVec.ofNat_eq_ofNat, BitVec.toNat_ofNat]
    omega
  · rw [hlen]
    refine hfield.congr fun i hle hlt => hsame i ?_
    have hi : i < 6 := hlt
    omega
  · rw [hsame i (by omega), hfirst i hi hlist]

/-- The packet is as it was, with its lengths. -/
def Restored (p : Uipbuf) (res : Bool × Uipbuf) : Prop :=
  res.1 = true ∧ res.2.uipLen = p.uipLen ∧ res.2.uipExtLen = p.uipExtLen ∧
    ∀ i < p.uipLen, res.2.buf i = p.buf i

/-- Two buffers that hold the same packet are the same. -/
theorem restored_of_left (hp : IsPacket p upper payload hs) (hq : IsPacket q upper payload hs)
    (hsame : ∀ i < 40, i ∉ [4, 5, 6] → q.buf i = p.buf i) : Restored p (true, q) := by
  have hlen : q.uipLen = p.uipLen := by rw [hp.len, hq.len]
  refine ⟨rfl, hlen, by rw [hp.extLen, hq.extLen], fun i hi => ?_⟩
  change q.buf i = p.buf i
  have hfield := hq.field
  rw [hlen, lenField, holds_cons, holds_cons] at hfield
  have hfield' := hp.field
  rw [lenField, holds_cons, holds_cons] at hfield'
  by_cases hlow : i < 40
  · by_cases hlist : i ∈ [4, 5, 6]
    · simp only [mem_cons, not_mem_nil, or_false] at hlist
      rcases hlist with rfl | rfl | rfl
      · rw [hfield.1, hfield'.1]
      · exact hfield.2.1.trans hfield'.2.1.symm
      · rw [hq.proto, hp.proto]
    · exact hsame i hlow hlist
  · have hbytes := hp.len
    rw [← length_chainBytes upper payload hs] at hbytes
    have hin : i - 40 < (chainBytes upper payload hs).length := by omega
    have hq40 := hq.bytes (i - 40) hin
    have hp40 := hp.bytes (i - 40) hin
    rw [Nat.add_sub_of_le (Nat.le_of_not_lt hlow)] at hq40 hp40
    rw [hq40, hp40]

/-- A header that is taken out makes the packet shorter. -/
theorem AtChain.shorter (hc : AtChain p off upper payload (h :: hs)) (hmtu : p.uipLen ≤ uip.linkMtu)
    (hext : h.size ≤ p.uipExtLen) : (Rpl.removeHeader uip p off prev).2.uipLen < p.uipLen := by
  have hhdr := hc.hdrLen
  have hlen := hc.len
  have hsize := h.eight_le_size
  rw [chainSize_cons] at hlen
  have hfits : p.uipLen - h.size ≤ uip.linkMtu ∧ h.size ≤ p.uipLen ∧ h.size ≤ p.uipExtLen := by omega
  simp only [Rpl.removeHeader, hhdr, uipbufSubExtHdr, uipLen_withBuf, uipExtLen_withBuf,
    dif_pos hfits]
  split_ifs
  · exact Nat.sub_lt (by omega) (by omega)
  · exact Nat.sub_lt (by omega) (by omega)

/-- The packet is shorter when the header it is at is taken out. -/
theorem Ends.shorter_first (hends : Ends uip p off prev h.proto res)
    (hc : AtChain p off upper payload (h :: hs)) (hmtu : p.uipLen ≤ uip.linkMtu)
    (hext : h.size ≤ p.uipExtLen) (htaken : h.takenOut) : res.2.uipLen < p.uipLen := by
  have hless := @AtChain.shorter uip p upper payload hs h off prev hc hmtu hext
  have ht := hc.takenOut.trans htaken
  cases hmore : (Rpl.removeHeader uip p off prev).1 with
  | false =>
    rw [hends.unique (ends_taken_last h.isExt ht (Prod.ext hmore rfl))]
    exact hless
  | true =>
    have hoff := ((removeHeader_uipLen uip p off prev).2 hmore).1
    have ⟨res', hres'⟩ := exists_ends uip prev
      ((Rpl.removeHeader uip p off prev).2.buf prev) hoff
    rw [hends.unique (ends_taken h.isExt ht (Prod.ext hmore rfl) hres')]
    exact Nat.lt_of_le_of_lt hres'.uipLen_le hless

/-- **The packet is shorter** when a header is taken out, wherever it is. -/
theorem Ends.shorter (hends : Ends uip p 40 6 (chainProto upper hs) res)
    (hp : IsPacket p upper payload hs) (hmtu : p.uipLen ≤ uip.linkMtu)
    (htaken : ∃ h ∈ hs, h.takenOut) : res.2.uipLen < p.uipLen := by
  have ⟨y, hy, hty⟩ := htaken
  cases hfind : hs.find? ExtHdr.takenOut with
  | none => exact absurd hty (by simpa using List.find?_eq_none.mp hfind y hy)
  | some x =>
    have ⟨hx, as, rest, hsplit, has⟩ := List.find?_eq_some_iff_append.mp hfind
    have hext := hp.extLen
    have hsize : x.size ≤ p.uipExtLen := by
      rw [hext, hsplit]
      simp [chainSize]
      omega
    subst hsplit
    cases as with
    | nil => exact hends.shorter_first hp.atChain hmtu hsize hx
    | cons a as =>
      have hat : AtChain p (40 + chainSize (a :: as)) upper payload (x :: rest) := by
        refine ⟨holds_append_chain hp.bytes, ?_⟩
        rw [hp.len]
        simp [chainSize, Nat.add_assoc]
      have hlen := hat.len
      have hxsize := x.eight_le_size
      rw [chainSize_cons (h := x)] at hlen
      have ⟨res', hres'⟩ := @exists_ends p (40 + chainSize (a :: as)) uip
        (40 + chainSize (a :: as)) x.proto (by omega)
      have hstay : ∀ z ∈ a :: as, z.takenOut = false := fun z hz => by simpa using has z hz
      rw [hends.unique (ends_pass hp.atChain hstay hres')]
      exact hres'.shorter_first hat hmtu hsize hx

/-- **The packet is restored** after an insertion if and only if no header of it is taken out, and
it has a header or a payload. -/
theorem restored_iff {inst : HbhInstance} {ok : Bool} (hp : IsPacket p upper payload hs)
    (hw : WellFormed upper payload hs) (hins : insertHbhHeader uip inst p = some (ok, q))
    (hres : rplExtHeaderRemove uip q = some res) :
    Restored p res ↔ (∀ h ∈ hs, h.takenOut = false) ∧ (hs ≠ [] ∨ payload ≠ []) := by
  have ⟨hdr, hhdr, hq, hlen, hmtu, hfirst⟩ := hp.insert hins
  have hends := (ends_iff hq).mp hres
  have hupper : uipIsProtoExtHdr upper → payload = [] := fun hext => (hw.upper hext).2
  have htaken : ∀ h ∈ [hdr], h.takenOut := fun h hh => by rwa [mem_singleton.mp hh]
  by_cases hsome : hs ≠ [] ∨ payload ≠ []
  · have ⟨u, hu, hu'⟩ := @IsPacket.takeOut uip q upper payload hs [hdr] hq hmtu htaken hsome
    have hsame : ∀ i < 40, i ∉ [4, 5, 6] → u.buf i = p.buf i := fun i hi hlist => by
      rw [hu.same i hi hlist, hfirst i hi hlist]
    have hulen : u.uipLen = p.uipLen := by rw [hu.packet.len, hp.len]
    have ⟨res', hres'⟩ := @exists_ends u 40 uip 6 (chainProto upper hs) (by
      have hpos : 0 < chainSize hs + payload.length := by
        cases hs with
        | nil => simpa [length_pos_iff] using hsome
        | cons x hs =>
          have hx := x.eight_le_size
          rw [chainSize_cons]
          omega
      rw [hu.packet.len]
      omega)
    rw [hends.unique (hu' res' hres')]
    constructor
    · intro hrestored
      refine ⟨fun h hh => ?_, hsome⟩
      cases ht : h.takenOut with
      | false => rfl
      | true =>
        have hless := hres'.shorter hu.packet (Nat.le_trans hu.uipLen hmtu) ⟨h, hh, ht⟩
        rw [hrestored.2.1, hulen] at hless
        exact absurd hless (Nat.lt_irrefl _)
    · intro hstay
      have hstays := @ends_stay uip u upper payload hs 40 6 hu.packet.atChain hupper hstay.1
        fun hnil => by
          cases hext : uipIsProtoExtHdr upper with
          | false => rfl
          | true => exact absurd (hupper hext) (hsome.resolve_left (not_not.mpr hnil))
      rw [hres'.unique hstays]
      exact restored_of_left hp hu.packet hsame
  · have ⟨hnil, hpayload⟩ := not_or.mp hsome
    have hnil := not_not.mp hnil
    have hpayload := not_not.mp hpayload
    subst hnil hpayload
    have ⟨u, hu⟩ := @IsPacket.takeOut_last uip q upper hdr hq hmtu hhdr
    rw [hends.unique hu]
    refine iff_of_false (fun hrestored => ?_) fun hcond => hsome hcond.2
    cases hrestored.1

/-! ## Packets of a chain -/

/-- The packet of a chain and a payload, from and to no address. -/
def packetOf (upper : Byte) (payload : List Byte) (hs : List ExtHdr) : Uipbuf where
  buf i := ([0x60, 0, 0, 0] ++ (lenField (chainSize hs + payload.length) ++
    ([chainProto upper hs] ++ (List.replicate 33 0 ++ chainBytes upper payload hs)))).getD i 0
  uipLen := 40 + (chainSize hs + payload.length)
  uipExtLen := chainSize hs
  headers_le := by omega

/-- The bytes of a list are where they stand in it. -/
theorem holds_getD (as bs cs : List Byte) :
    Holds (fun i => (as ++ (bs ++ cs)).getD i 0) as.length bs := by
  intro i hi
  change (as ++ (bs ++ cs)).getD (as.length + i) 0 = bs[i]
  rw [getD_eq_getElem?_getD, List.getElem?_append_right (Nat.le_add_right _ _),
    Nat.add_sub_cancel_left, List.getElem?_append_left hi, List.getElem?_eq_getElem hi]
  rfl

theorem isPacket_packetOf (upper : Byte) (payload : List Byte) (hs : List ExtHdr) :
    IsPacket (packetOf upper payload hs) upper payload hs := by
  refine ⟨rfl, ?_, rfl, rfl, ?_⟩
  · have hbytes := holds_getD ([0x60, 0, 0, 0] ++ (lenField (chainSize hs + payload.length) ++
      ([chainProto upper hs] ++ List.replicate 33 0))) (chainBytes upper payload hs) []
    simp only [append_assoc, append_nil] at hbytes
    exact hbytes
  · have hfield := holds_getD [0x60, 0, 0, 0] (lenField (chainSize hs + payload.length))
      ([chainProto upper hs] ++ (List.replicate 33 0 ++ chainBytes upper payload hs))
    have hlen : (packetOf upper payload hs).uipLen - uipIphLen = chainSize hs + payload.length :=
      Nat.add_sub_cancel_left 40 _
    rw [hlen]
    exact hfield

/-! ## The result -/

/-- A routing header with no addresses. -/
def routingHeader : ExtHdr := ⟨uipProtoRouting, 0, [3, 0, 0, 0, 0, 0], by decide, by decide⟩

/-- A header of destination options, all of which is padding. -/
def destoHeader : ExtHdr := ⟨60, 0, [1, 4, 0, 0, 0, 0], by decide, by decide⟩

theorem wellFormed_udp {payload : List Byte} (hfirst : ∀ h ∈ hs.tail, h.proto ≠ uipProtoHbho) :
    WellFormed 17 payload hs :=
  ⟨hfirst, fun h => absurd h (by decide)⟩

end Asap.Rpl
