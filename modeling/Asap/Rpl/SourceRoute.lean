import Asap.Ipv6.Uipbuf

/-!
# Source routes

The root writes the path to a node of its tree into a routing header. The header stands
directly behind that of the packet and has the addresses behind the first hop, without the
bytes they share with the destination. Each node on the way swaps its own address for the
next one.

The number of addresses, the length of the header and the lengths of common prefixes are
bytes, and a write outside of the packet buffer has no outcome here.

## Main definitions

* `insertSrhHeader` — the root writes a routing header.
* `rplExtHeaderSrhUpdate` — a node on the way swaps two addresses.
* `journey` — the destinations of a packet, one node after the other.
* `Delivers` — a packet visits a path and ends at its destination.
-/

namespace Asap.Rpl

open List Nat Option
open BitVec (toNat_ofNat toNat_add toNat_sub_of_le eq_of_toNat_eq)

open Asap.Lib Asap.Ipv6

/-! ## Insertion -/

/-- `count_matching_bytes`, of two addresses. -/
def countMatchingBytes : List Byte → List Byte → ℕ
  | a :: as, b :: bs => if a ≠ b then 0 else countMatchingBytes as bs + 1
  | _, _ => 0

/-- The nodes of the first loop: from a node to below the root, unless there are more than
`d`. -/
def hopsTo (next : NodeId → Option NodeId) (root : NodeId) : ℕ → Option NodeId → Option (List NodeId)
  | _, none => some []
  | 0, some a => if a = root then some [] else none
  | d + 1, some a => if a = root then some [] else (hopsTo next root d (next a)).map (a :: ·)

/-- The nodes of the second loop: from a node to above the one below the root, and that one. -/
def hopsAbove (next : NodeId → Option NodeId) (root : NodeId) :
    ℕ → Option NodeId → Option (List NodeId × Option NodeId)
  | _, none => some ([], none)
  | 0, some a => if next a = some root then some ([], some a) else none
  | d + 1, some a =>
    if next a = some root then some ([], some a)
    else (hopsAbove next root d (next a)).map fun (hops, last) => (a :: hops, last)

/-- `RPL_RH_LEN` -/
def rplRhLen : BitVec 8 := 4

/-- `RPL_SRH_LEN` -/
def rplSrhLen : BitVec 8 := 4

/-- `RPL_RH_TYPE_SRH` -/
def rplRhTypeSrh : Byte := 3

/-- `padding` -/
def srhPadding (extLen : BitVec 8) : BitVec 8 := if extLen % 8 = 0 then 0 else 8 - extLen % 8

/-- `cmpri` and `cmpre`: what the addresses on the way share with the destination. -/
def srhCmpr (dest : UipIpaddr) (addrs : List UipIpaddr) : BitVec 8 :=
  addrs.foldl (fun c addr => BitVec.ofNat 8 (min c.toNat (countMatchingBytes addr.1 dest.1))) 15

/-- `ext_len` without the padding. -/
def srhUnpadded (pathLen cmpr : BitVec 8) : BitVec 8 :=
  rplRhLen + rplSrhLen + (pathLen - 1) * (16 - cmpr) + (16 - cmpr)

/-- The first four bytes of the routing header, and the first two of what is behind. -/
def srhFields (proto : Byte) (extLen pathLen cmpr padding : BitVec 8) : List Byte :=
  [proto, BitVec.ofInt 8 (((extLen.toNat : ℤ) - 8).tdiv 8), rplRhTypeSrh, pathLen,
    (cmpr <<< 4) + cmpr, padding <<< 4]

/-- The memory after the insertion: the rest of the packet is moved, the header written, and
the first hop is the destination. -/
def writeSrh (uip : UipConfig) (p : Uipbuf) (extLen pathLen cmpr padding : BitVec 8)
    (addrs : List UipIpaddr) (first : UipIpaddr) : Option (ℕ → Byte) := do
  let moved ← write uip.bufsize p.buf (uipIphLen + p.uipExtLen + extLen.toNat)
    (bytesAt p.buf (uipIphLen + p.uipExtLen) (p.uipLen - uipIphLen))
  let cleared ← write uip.bufsize moved (uipIphLen + p.uipExtLen) (List.replicate extLen.toNat 0)
  let fields ← write uip.bufsize cleared uipIphLen
    (srhFields (p.buf 6) extLen pathLen cmpr padding)
  let proto ← write uip.bufsize fields 6 [uipProtoRouting]
  let hops ← writeDown uip.bufsize proto (uipIphLen + extLen.toNat - padding.toNat)
    (addrs.map fun addr => addr.1.drop cmpr.toNat)
  let dest ← write uip.bufsize hops 24 first.1
  write uip.bufsize dest 4 (lenField (p.uipLen + extLen.toNat - uipIphLen))

/-- `uipbuf_add_ext_hdr`, for a packet that fits. -/
def uipbufAddExtHdr (p : Uipbuf) (buf : ℕ → Byte) (len : ℕ) : Uipbuf where
  buf := buf
  uipLen := p.uipLen + len
  uipExtLen := p.uipExtLen + len
  headers_le := by
    have := p.headers_le
    omega

/-- The address of a node. -/
def nodeIpaddr (s : UipSr) (driver : RoutingDriver) (n : NodeId) : UipIpaddr :=
  driver.getSrNodeIpaddr (s.node n)

/-- `insert_srh_header`, with the DAG of the destination: what it returns and the packet, unless
it writes outside of the buffer. -/
def insertSrhHeader (uip : UipConfig) (cfg : SrConfig) (s : UipSr) (driver : RoutingDriver)
    (dag : Option Graph) (p : Uipbuf) : Option (Bool × Uipbuf) :=
  match dag with
  | none => some (false, p)
  | some dag =>
    match s.uipSrGetNode driver dag p.destipaddr with
    | none => some (true, p)
    | some destNode =>
      match s.uipSrGetNode driver dag (driver.dagId dag) with
      | none => some (false, p)
      | some rootNode =>
        if !s.uipSrIsAddrReachable cfg driver dag p.destipaddr then some (false, p)
        else if s.parentOf destNode = some rootNode then some (true, p)
        else do
          let hops ← hopsTo s.parentOf rootNode cfg.linkNum (s.parentOf destNode)
          let pathLen := BitVec.ofNat 8 hops.length
          let cmpr := srhCmpr p.destipaddr (hops.map (nodeIpaddr s driver))
          let padding := srhPadding (srhUnpadded pathLen cmpr)
          let extLen := srhUnpadded pathLen cmpr + padding
          if uip.linkMtu < p.uipLen + extLen.toNat then return (false, p)
          let (above, last) ← hopsAbove s.parentOf rootNode cfg.linkNum (some destNode)
          -- with no node left, `node_addr` is that of the last one
          let first := nodeIpaddr s driver (last.getD (above.getLastD destNode))
          let buf ← writeSrh uip p extLen pathLen cmpr padding (above.map (nodeIpaddr s driver)) first
          return (true, uipbufAddExtHdr p buf extLen.toNat)

/-! ## Update -/

/-- A packet whose buffer has changed. -/
def withBuf (p : Uipbuf) (buf : ℕ → Byte) : Uipbuf := { p with buf := buf }

/-- The source routing header of a packet. -/
def srhHeader (p : Uipbuf) : Option ℕ :=
  match uipbufSearchHeader p.buf p.uipLen uipProtoRouting with
  | none => none
  | some rh => if p.buf (rh + 2) = rplRhTypeSrh then some rh else none

/-- `path_len` of a source routing header. -/
def srhPathLen (buf : ℕ → Byte) (rh : ℕ) : BitVec 8 :=
  let extLen : BitVec 8 := buf (rh + 1) * 8 + 8
  let cmpri := (buf (rh + 4) >>> 4).toNat
  let cmpre := (buf (rh + 4) &&& 0x0f).toNat
  let padding := (buf (rh + 5) >>> 4).toNat
  BitVec.ofInt 8
    (((extLen.toNat : ℤ) - padding - 4 - 4 - (16 - cmpre)).tdiv (16 - cmpri) + 1)

/-- `rpl_ext_header_srh_update` -/
def rplExtHeaderSrhUpdate (uip : UipConfig) (p : Uipbuf) : Option (Bool × Uipbuf) :=
  match srhHeader p with
  | none => some (false, p)
  | some rh =>
    let segmentsLeft := p.buf (rh + 3)
    let pathLen := srhPathLen p.buf rh
    if segmentsLeft = 0 then some (true, p)
    else if pathLen < segmentsLeft then some (false, p)
    else do
      let cmpri := (p.buf (rh + 4) >>> 4).toNat
      let i := (pathLen - segmentsLeft).toNat
      let addrPtr := rh + 4 + 4 + i * (16 - cmpri)
      let cmpr := if segmentsLeft = 1 then (p.buf (rh + 4) &&& 0x0f).toNat else cmpri
      let currentDestAddr := p.destipaddr
      let dest ← write uip.bufsize p.buf (24 + cmpr) (bytesAt p.buf addrPtr (16 - cmpr))
      let swapped ← write uip.bufsize dest addrPtr (currentDestAddr.1.drop cmpr)
      let buf ← write uip.bufsize swapped (rh + 3) [segmentsLeft - 1]
      return (true, withBuf p buf)

/-- The destinations of a packet that each of them processes: the next one is reached while
there are segments left. -/
def journey (uip : UipConfig) : ℕ → Uipbuf → Option (List UipIpaddr × Uipbuf)
  | 0, _ => none
  | fuel + 1, p =>
    match srhHeader p with
    | none => some ([p.destipaddr], p)
    | some rh =>
      if p.buf (rh + 3) = 0 then some ([p.destipaddr], p)
      else
        match rplExtHeaderSrhUpdate uip p with
        | some (true, q) => (journey uip fuel q).map fun (visited, end_) =>
          (p.destipaddr :: visited, end_)
        | _ => none

/-- The bytes of a source routing header with `n` addresses of `k` bytes. -/
def srhLength (n k : ℕ) : ℕ := (8 + n * k + 7) / 8 * 8

/-- The bytes of an address that a header for a path has. -/
def srhSuffix (s : UipSr) (driver : RoutingDriver) (dest : UipIpaddr) (l : List NodeId) : ℕ :=
  16 - (srhCmpr dest (l.tail.map (nodeIpaddr s driver))).toNat

/-- The packet `q`, made of `p` by the insertion of a header, visits a path and ends with no
segment left and the destination it had; and the lengths are those of the inserted bytes. -/
structure Delivers (uip : UipConfig) (p q : Uipbuf) (path : List UipIpaddr) : Prop where
  visits : ∃ q' rh, journey uip 256 q = some (path, q') ∧ q'.destipaddr = p.destipaddr ∧
    srhHeader q' = some rh ∧ q'.buf (rh + 3) = 0
  headerLen : ∃ rh, srhHeader q = some rh ∧ (q.buf (rh + 1)).toNat * 8 + 8 = q.uipLen - p.uipLen
  packetLen : uipbufGetLenField q.buf = q.uipLen - uipIphLen
  extLen : q.uipExtLen = p.uipExtLen + (q.uipLen - p.uipLen)

/-! ## Bytes that addresses share -/

theorem take_of_le_countMatchingBytes {as bs : List Byte} {c : ℕ} (h : c ≤ countMatchingBytes as bs) :
    as.take c = bs.take c := by
  induction as generalizing bs c with
  | nil =>
    have hzero : c = 0 := by simpa [countMatchingBytes] using h
    simp [hzero]
  | cons a as ih =>
    cases c with
    | zero => simp
    | succ c =>
      cases bs with
      | nil => simp [countMatchingBytes] at h
      | cons b bs =>
        simp only [countMatchingBytes] at h
        split at h
        · omega
        · rename_i heq
          rw [not_not] at heq
          rw [heq, take_succ_cons, take_succ_cons, ih (le_of_succ_le_succ h)]

/-- The common number of bytes is shared by all the addresses. -/
theorem srhCmpr_spec (dest : UipIpaddr) (addrs : List UipIpaddr) :
    (srhCmpr dest addrs).toNat ≤ 15 ∧
      ∀ addr ∈ addrs, addr.1.take (srhCmpr dest addrs).toNat = dest.1.take (srhCmpr dest addrs).toNat := by
  have key : ∀ (addrs : List UipIpaddr) (c : BitVec 8), c.toNat ≤ 15 →
      let c' := addrs.foldl (fun c addr =>
        BitVec.ofNat 8 (min c.toNat (countMatchingBytes addr.1 dest.1))) c
      c'.toNat ≤ c.toNat ∧ ∀ addr ∈ addrs, addr.1.take c'.toNat = dest.1.take c'.toNat := by
    intro addrs
    induction addrs with
    | nil => simp
    | cons addr addrs ih =>
      intro c hc
      have hmin : (BitVec.ofNat 8 (min c.toNat (countMatchingBytes addr.1 dest.1))).toNat =
          min c.toNat (countMatchingBytes addr.1 dest.1) := by
        rw [toNat_ofNat]
        exact mod_eq_of_lt (by omega)
      obtain ⟨hle, hrest⟩ := ih _ (by rw [hmin]; omega)
      rw [foldl_cons]
      rw [hmin] at hle
      refine ⟨by omega, ?_⟩
      intro addr' haddr'
      rcases mem_cons.mp haddr' with rfl | haddr'
      · exact take_of_le_countMatchingBytes (by omega)
      · exact hrest addr' haddr'
  obtain ⟨hle, hall⟩ := key addrs 15 (by decide)
  exact ⟨hle, hall⟩

/-! ## The path -/

section Path

variable {next : NodeId → Option NodeId} {root a : NodeId} {l : List NodeId}

theorem hopsTo_of_ascent {d : ℕ} (h : Ascent next root a l) (hd : l.length ≤ d) :
    hopsTo next root d (some a) = some l := by
  induction h generalizing d with
  | stop => cases d <;> simp [hopsTo]
  | @step a b l hne hnext _ ih =>
    cases d with
    | zero => simp at hd
    | succ d => simp [hopsTo, hne, hnext, ih (le_of_succ_le_succ hd)]

theorem hopsAbove_of_ascent {d : ℕ} (h : Ascent next root a l) (hl : l ≠ []) (hd : l.length ≤ d) :
    hopsAbove next root d (some a) = some (l.dropLast, some (l.getLast hl)) := by
  induction h generalizing d with
  | stop => exact absurd rfl hl
  | @step a b l hne hnext hrest ih =>
    cases d with
    | zero => simp at hd
    | succ d =>
      cases hrest with
      | stop => simp [hopsAbove, hnext]
      | @step _ _ l hne' hnext' hrest' =>
        have hnot : next a ≠ some root := by
          rw [hnext]
          exact fun heq => hne' (Option.some.inj heq)
        rw [hopsAbove, if_neg hnot, hnext, ih (by simp) (le_of_succ_le_succ hd)]
        simp

end Path

/-! ## On the way -/

/-- A packet on its way along a path, at its node `j`: the header has the addresses behind that
node as they were written, and before it those of the nodes it was at. -/
structure OnRoute (uip : UipConfig) (q : Uipbuf) (c : BitVec 8) (path : List UipIpaddr) (j : ℕ) :
    Prop where
  j_lt : j < path.length
  short : 8 + (path.length - 1) * (16 - c.toNat) ≤ 248
  inside : 40 + srhLength (path.length - 1) (16 - c.toNat) ≤ q.uipLen
  fits : q.uipLen ≤ uip.bufsize
  c_le : c.toNat ≤ 15
  shared : ∀ addr ∈ path, ∀ addr' ∈ path, addr.1.take c.toNat = addr'.1.take c.toNat
  proto : q.buf 6 = uipProtoRouting
  len : (q.buf 41).toNat * 8 + 8 = srhLength (path.length - 1) (16 - c.toNat)
  type : q.buf 42 = rplRhTypeSrh
  segLeft : (q.buf 43).toNat = path.length - 1 - j
  cmpr : q.buf 44 = (c <<< 4) + c
  pad : ((q.buf 45) >>> 4).toNat =
    srhLength (path.length - 1) (16 - c.toNat) - (8 + (path.length - 1) * (16 - c.toNat))
  dest : path[j]? = some q.destipaddr
  addrs : ∀ i addr, path[if i < j then i else i + 1]? = some addr → i < path.length - 1 →
    Holds q.buf (48 + i * (16 - c.toNat)) (addr.1.drop c.toNat)

namespace OnRoute

variable {uip : UipConfig} {q : Uipbuf} {c : BitVec 8} {path : List UipIpaddr} {j : ℕ}

section

variable (h : OnRoute uip q c path j)

include h

theorem srhHeader : srhHeader q = some 40 := by
  have hinside := h.inside
  rw [← h.len] at hinside
  have hsearch := uipbufSearchHeader_first h.proto (by decide) hinside
  rw [Rpl.srhHeader, hsearch]
  simp [h.type]

/-- The number of addresses is found again from the lengths. -/
theorem srhPathLen :
    (srhPathLen q.buf 40).toNat = path.length - 1 := by
  have hbits : ∀ c : BitVec 8, c.toNat ≤ 15 →
      ((c <<< 4) + c) >>> 4 = c ∧ ((c <<< 4) + c) &&& 0x0f = c := by decide +kernel
  obtain ⟨hcmpri, hcmpre⟩ := hbits c h.c_le
  have hshort := h.short
  have hpos := h.j_lt
  have hc := h.c_le
  have hlen := h.len
  have hpad := h.pad
  have hext : (q.buf 41 * 8 + 8).toNat = srhLength (path.length - 1) (16 - c.toNat) := by
    have hle : srhLength (path.length - 1) (16 - c.toNat) ≤ 248 := by
      simp only [srhLength]
      omega
    rw [toNat_add, BitVec.toNat_mul, ← hlen]
    simp only [BitVec.reduceToNat]
    omega
  have hround : 8 + (path.length - 1) * (16 - c.toNat) ≤ srhLength (path.length - 1) (16 - c.toNat) := by
    simp only [srhLength]
    omega
  have hfewer : path.length - 1 ≤ (path.length - 1) * (16 - c.toNat) :=
    Nat.le_mul_of_pos_right _ (by omega)
  simp only [Rpl.srhPathLen, reduceAdd, h.cmpr, hcmpri, hcmpre, hext, hpad]
  generalize srhLength (path.length - 1) (16 - c.toNat) = len at hround ⊢
  generalize path.length - 1 = n at hshort hround hfewer ⊢
  have hwidth : (16 : ℤ) - c.toNat = ((16 - c.toNat : ℕ) : ℤ) := by omega
  have hnumerator : (len : ℤ) - ((len - (8 + n * (16 - c.toNat)) : ℕ) : ℤ) - 4 - 4 -
      (16 - c.toNat) = ((n : ℤ) - 1) * ((16 - c.toNat : ℕ) : ℤ) := by
    rw [Int.sub_mul, ← Int.natCast_mul, Int.one_mul]
    omega
  rw [hnumerator, hwidth, Int.mul_tdiv_cancel _ (by omega), BitVec.toNat_ofInt]
  omega

/-- **A node on the way swaps its address for the next one.** -/
theorem update (hj : j < path.length - 1) :
    ∃ q', rplExtHeaderSrhUpdate uip q = some (true, q') ∧ OnRoute uip q' c path (j + 1) ∧
      q'.uipLen = q.uipLen := by
  have hshort := h.short
  have hinside := h.inside
  have hfits := h.fits
  have hc := h.c_le
  have hseg := h.segLeft
  have hpathLen := h.srhPathLen
  obtain ⟨addr, haddr⟩ : ∃ addr, path[j + 1]? = some addr :=
    ⟨_, List.getElem?_eq_getElem (by omega)⟩
  have hdest := h.dest
  -- the addresses are `k` bytes each
  obtain ⟨k, hk⟩ : ∃ k, 16 - c.toNat = k := ⟨_, rfl⟩
  have hkpos : 0 < k := by omega
  rw [hk] at hshort hinside
  have hroom : 48 + (path.length - 1) * k ≤ q.uipLen := by
    simp only [srhLength] at hinside
    omega
  have hbeside : ∀ i i', i < i' → i * k + k ≤ i' * k := by
    intro i i' hlt
    have := Nat.mul_le_mul_right k (succ_le_of_lt hlt)
    rwa [succ_mul] at this
  have hjroom := hbeside j _ hj
  have hlenDrop : ∀ addr : UipIpaddr, (addr.1.drop c.toNat).length = k := by
    intro addr
    rw [length_drop, addr.2, hk]
  have hread : bytesAt q.buf (48 + j * k) k = addr.1.drop c.toNat := by
    have hholds := (h.addrs j addr (by simpa using haddr) hj).bytesAt
    rwa [hlenDrop, hk] at hholds
  -- the three writes
  obtain ⟨b₁, hb₁⟩ : ∃ b, store q.buf (24 + c.toNat) (addr.1.drop c.toNat) = b := ⟨_, rfl⟩
  obtain ⟨b₂, hb₂⟩ : ∃ b, store b₁ (48 + j * k) (q.destipaddr.1.drop c.toNat) = b := ⟨_, rfl⟩
  obtain ⟨b₃, hb₃⟩ : ∃ b, store b₂ 43 [q.buf 43 - 1] = b := ⟨_, rfl⟩
  have hstep : rplExtHeaderSrhUpdate uip q = some (true, withBuf q b₃) := by
    have hne : q.buf 43 ≠ 0 := by
      intro hzero
      rw [hzero] at hseg
      simp only [BitVec.reduceToNat] at hseg
      omega
    have hle : ¬ Rpl.srhPathLen q.buf 40 < q.buf 43 := by
      rw [BitVec.lt_def]
      omega
    have hindex : (Rpl.srhPathLen q.buf 40 - q.buf 43).toNat = j := by
      rw [toNat_sub_of_le (BitVec.le_def.mpr (by omega))]
      omega
    have hbits : ∀ c : BitVec 8, c.toNat ≤ 15 →
        ((c <<< 4) + c) >>> 4 = c ∧ ((c <<< 4) + c) &&& 0x0f = c := by decide +kernel
    obtain ⟨hcmpri, hcmpre⟩ := hbits c h.c_le
    simp only [rplExtHeaderSrhUpdate, h.srhHeader, reduceAdd, h.cmpr, hcmpri, hcmpre, if_neg hne,
      if_neg hle, hindex, ite_self, hk, hread]
    have hdestOff : (24 : ℤ) + c.toNat = (24 + c.toNat : ℕ) := (Int.natCast_add _ _).symm
    rw [hdestOff, write_eq_some rfl (by rw [hlenDrop]; omega)]
    simp only [bind_eq_bind, bind_some, hb₁]
    rw [write_eq_some rfl (by rw [hlenDrop]; omega)]
    simp only [bind_some, hb₂]
    have hsegOff : ((40 : ℕ) : ℤ) + 3 = (43 : ℕ) := rfl
    rw [hsegOff, write_eq_some rfl (by rw [length_singleton]; omega), hb₃]
    rfl
  have hkeep : ∀ x, x < 24 + c.toNat ∨ 40 ≤ x → x < 48 + j * k ∨ 48 + j * k + k ≤ x → x ≠ 43 →
      b₃ x = q.buf x := by
    intro x hx₁ hx₂ hx₃
    have h₃ : b₃ x = b₂ x := by
      rw [← hb₃]
      rcases Nat.lt_or_gt_of_ne hx₃ with hlt | hgt
      · exact store_of_lt hlt
      · exact store_of_le hgt
    have h₂ : b₂ x = b₁ x := by
      rw [← hb₂]
      rcases hx₂ with hlt | hge
      · exact store_of_lt hlt
      · exact store_of_le (by rwa [hlenDrop])
    have h₁ : b₁ x = q.buf x := by
      rw [← hb₁]
      rcases hx₁ with hlt | hge
      · exact store_of_lt hlt
      · exact store_of_le (by rw [hlenDrop]; omega)
    rw [h₃, h₂, h₁]
  have hholds : ∀ pos bs, Holds q.buf pos bs → pos + bs.length ≤ 24 + c.toNat ∨ 48 ≤ pos →
      pos + bs.length ≤ 48 + j * k ∨ 48 + j * k + k ≤ pos → Holds b₃ pos bs := by
    intro pos bs hbs hx₁ hx₂
    refine hbs.congr fun x hle hlt => hkeep x ?_ ?_ ?_
    all_goals omega
  have hdest₁ : Holds b₃ (24 + c.toNat) (addr.1.drop c.toNat) := by
    have h₁ : Holds b₁ (24 + c.toNat) (addr.1.drop c.toNat) := by
      rw [← hb₁]
      exact holds_store _ _ _
    rw [← hb₃, ← hb₂]
    refine (h₁.store (Or.inl ?_)).store (Or.inl ?_)
    all_goals
      rw [hlenDrop]
      omega
  have hdest₀ : Holds b₃ 24 (q.destipaddr.1.take c.toNat) := by
    have hold : Holds q.buf 24 q.destipaddr.1 := by
      rw [holds_iff_bytesAt, q.destipaddr.2]
      rfl
    rw [← take_append_drop c.toNat q.destipaddr.1, holds_append] at hold
    refine hholds _ _ hold.1 (Or.inl ?_) (Or.inl ?_)
    all_goals
      rw [length_take]
      omega
  have hnew : (withBuf q b₃).destipaddr = addr := by
    have hmem₁ : addr ∈ path := mem_of_getElem? haddr
    have hmem₂ : q.destipaddr ∈ path := mem_of_getElem? hdest
    have hall : Holds b₃ 24 addr.1 := by
      rw [← take_append_drop c.toNat addr.1, holds_append, h.shared addr hmem₁ _ hmem₂]
      have htake : (q.destipaddr.1.take c.toNat).length = c.toNat := by
        rw [length_take, q.destipaddr.2]
        omega
      rw [htake]
      exact ⟨hdest₀, hdest₁⟩
    have hbytes := hall.bytesAt
    rw [addr.2] at hbytes
    exact Subtype.ext hbytes
  have hswapped : Holds b₃ (48 + j * k) (q.destipaddr.1.drop c.toNat) := by
    have h₂ : Holds b₂ (48 + j * k) (q.destipaddr.1.drop c.toNat) := by
      rw [← hb₂]
      exact holds_store _ _ _
    rw [← hb₃]
    exact h₂.store (Or.inr (by simp; omega))
  refine ⟨withBuf q b₃, hstep, ?_, rfl⟩
  exact {
    j_lt := by omega
    short := h.short
    inside := h.inside
    fits := h.fits
    c_le := h.c_le
    shared := h.shared
    proto := (hkeep 6 (by omega) (by omega) (by omega)).trans h.proto
    len := by
      rw [← h.len]
      exact congrArg (fun b : Byte => b.toNat * 8 + 8) (hkeep 41 (by omega) (by omega) (by omega))
    type := (hkeep 42 (by omega) (by omega) (by omega)).trans h.type
    segLeft := by
      have hbyte : b₃ 43 = q.buf 43 - 1 := by
        rw [← hb₃]
        exact (holds_cons.mp (holds_store b₂ 43 [q.buf 43 - 1])).1
      have hpos : (1 : BitVec 8) ≤ q.buf 43 := by
        rw [BitVec.le_def]
        simp only [BitVec.reduceToNat]
        omega
      change (b₃ 43).toNat = _
      rw [hbyte, toNat_sub_of_le hpos]
      simp only [BitVec.reduceToNat]
      omega
    cmpr := (hkeep 44 (by omega) (by omega) (by omega)).trans h.cmpr
    pad := by
      rw [← h.pad]
      exact congrArg (fun b : Byte => (b >>> 4).toNat) (hkeep 45 (by omega) (by omega) (by omega))
    dest := by rw [haddr, hnew]
    addrs := by
      intro i addr' hget hi
      change Holds b₃ _ _
      rw [hk]
      rcases Nat.lt_trichotomy i j with hlt | rfl | hgt
      · have hget' : path[if i < j then i else i + 1]? = some addr' := by
          rw [if_pos hlt]
          rwa [if_pos (by omega)] at hget
        have hold := h.addrs i addr' hget' hi
        rw [hk] at hold
        have hbefore := hbeside i j hlt
        refine hholds _ _ hold (Or.inr (by omega)) (Or.inl ?_)
        rw [hlenDrop]
        omega
      · rw [if_pos (by omega)] at hget
        have heq : addr' = q.destipaddr := Option.some.inj (hget.symm.trans hdest)
        rw [heq]
        exact hswapped
      · have hget' : path[if i < j then i else i + 1]? = some addr' := by
          rw [if_neg (by omega)]
          rwa [if_neg (by omega)] at hget
        have hold := h.addrs i addr' hget' hi
        rw [hk] at hold
        have hbehind := hbeside j i hgt
        exact hholds _ _ hold (Or.inr (by omega)) (Or.inr (by omega)) }

/-- **The rest of the path is visited**, and the last node has the destination of the packet. -/
theorem journey {fuel : ℕ} (hfuel : path.length ≤ fuel + j) :
    ∃ q', Rpl.journey uip fuel q = some (path.drop j, q') ∧
      OnRoute uip q' c path (path.length - 1) := by
  induction fuel generalizing q j with
  | zero => exact absurd h.j_lt (by omega)
  | succ fuel ih =>
    have hj := h.j_lt
    have hseg := h.segLeft
    have hdrop : path.drop j = q.destipaddr :: path.drop (j + 1) := by
      rw [drop_eq_getElem_cons hj]
      have hdest := h.dest
      rw [List.getElem?_eq_getElem hj] at hdest
      rw [Option.some.inj hdest]
    by_cases hlast : j = path.length - 1
    · have hzero : q.buf 43 = 0 := by
        apply eq_of_toNat_eq
        rw [hseg, hlast]
        simp
      have hend : path.drop (j + 1) = [] := drop_eq_nil_of_le (by omega)
      refine ⟨q, ?_, hlast ▸ h⟩
      simp [Rpl.journey, h.srhHeader, hzero, hdrop, hend]
    · obtain ⟨q₁, hq₁, h₁, -⟩ := h.update (by omega)
      obtain ⟨q', hq', hlast'⟩ := ih h₁ (by omega)
      have hne : q.buf 43 ≠ 0 := by
        intro hzero
        rw [hzero] at hseg
        simp only [BitVec.reduceToNat] at hseg
        omega
      refine ⟨q', ?_, hlast'⟩
      simp only [Rpl.journey, h.srhHeader, reduceAdd, if_neg hne, hq₁, hq', hdrop, map_some]

end

end OnRoute

/-! ## The header is written -/

section Lengths

variable {n k : ℕ} {c : BitVec 8}

theorem srhUnpadded_toNat (hc : c.toNat ≤ 15) (hk : 16 - c.toNat = k) :
    (srhUnpadded (BitVec.ofNat 8 n) c).toNat = (8 + n * k) % 256 := by
  have hwidth : (16 - c) = BitVec.ofNat 8 k := by
    apply eq_of_toNat_eq
    rw [toNat_sub_of_le (BitVec.le_def.mpr (by simp; omega)), toNat_ofNat]
    simp only [BitVec.reduceToNat]
    omega
  have hone : BitVec.ofNat 8 n - 1 + 1#8 = BitVec.ofNat 8 n := BitVec.sub_add_cancel _ _
  have hsum : srhUnpadded (BitVec.ofNat 8 n) c = BitVec.ofNat 8 (8 + n * k) := by
    rw [srhUnpadded, hwidth, BitVec.add_assoc, ← BitVec.succ_mul, hone, BitVec.ofNat_add,
      BitVec.ofNat_mul]
    rfl
  rw [hsum, toNat_ofNat]

/-- The padding goes up to the next multiple of eight, or to 256. -/
theorem srhPadding_toNat (extLen : BitVec 8) :
    (srhPadding extLen).toNat = (extLen.toNat + 7) / 8 * 8 - extLen.toNat := by
  have hmod : (extLen % 8).toNat = extLen.toNat % 8 := by simp
  rw [srhPadding]
  split
  · rename_i hzero
    rw [hzero] at hmod
    simp only [BitVec.reduceToNat] at hmod ⊢
    omega
  · rename_i hne
    have hpos : (extLen % 8).toNat ≠ 0 := fun hzero => hne (eq_of_toNat_eq hzero)
    rw [toNat_sub_of_le (BitVec.le_def.mpr (by simp; omega)), hmod]
    simp only [BitVec.reduceToNat]
    omega

/-- The lengths of a header that is no longer than its length field can tell. -/
theorem srhExtLen_toNat (hc : c.toNat ≤ 15) (hk : 16 - c.toNat = k) (hshort : 8 + n * k ≤ 248) :
    let unpadded := srhUnpadded (BitVec.ofNat 8 n) c
    (srhPadding unpadded).toNat = srhLength n k - (8 + n * k) ∧
      (unpadded + srhPadding unpadded).toNat = srhLength n k := by
  have hunpadded := srhUnpadded_toNat (n := n) hc hk
  rw [mod_eq_of_lt (by omega)] at hunpadded
  have hpadding := srhPadding_toNat (srhUnpadded (BitVec.ofNat 8 n) c)
  rw [hunpadded] at hpadding
  refine ⟨hpadding, ?_⟩
  rw [toNat_add, hunpadded, hpadding, srhLength]
  omega

/-- Of a longer header, less is reserved than is written. -/
theorem srhExtLen_of_long (hc : c.toNat ≤ 15) (hk : 16 - c.toNat = k) (hlong : 248 < 8 + n * k) :
    let unpadded := srhUnpadded (BitVec.ofNat 8 n) c
    (unpadded + srhPadding unpadded).toNat ≤ srhLength n k ∧
      (unpadded + srhPadding unpadded).toNat + 40 < n * k + (srhPadding unpadded).toNat := by
  have hunpadded := srhUnpadded_toNat (n := n) hc hk
  have hpadding := srhPadding_toNat (srhUnpadded (BitVec.ofNat 8 n) c)
  have hmod := div_add_mod (8 + n * k) 256
  simp only [toNat_add, srhLength]
  omega

theorem srhLen_toNat {extLen : BitVec 8} (hext : extLen.toNat = srhLength n k) :
    (BitVec.ofInt 8 (((extLen.toNat : ℤ) - 8).tdiv 8)).toNat * 8 + 8 = srhLength n k := by
  obtain ⟨m, hm⟩ : ∃ m, srhLength n k = m * 8 + 8 := ⟨(n * k + 7) / 8, by
    simp only [srhLength]
    omega⟩
  have hquotient : ((extLen.toNat : ℤ) - 8) = (m : ℤ) * 8 := by omega
  have hlt := extLen.isLt
  rw [hquotient, Int.mul_tdiv_cancel _ (by decide), hm, BitVec.ofInt_natCast, toNat_ofNat]
  omega

end Lengths

section Write

variable {uip : UipConfig} {p : Uipbuf} {extLen pathLen cmpr padding : BitVec 8}
  {addrs : List UipIpaddr} {first : UipIpaddr} {k : ℕ}

theorem length_flatten_suffixes (addrs : List UipIpaddr) (hk : 16 - cmpr.toNat = k) :
    (addrs.map fun addr => addr.1.drop cmpr.toNat).flatten.length = addrs.length * k := by
  induction addrs with
  | nil => simp
  | cons addr addrs ih =>
    rw [map_cons, flatten_cons, length_append, ih, length_drop, addr.2, hk,
      length_cons, succ_mul, Nat.add_comm]

/-- What is in the buffer when the header has its length and the packet is inside. -/
theorem writeSrh_eq_some (pathLen : BitVec 8) (first : UipIpaddr) (hk : 16 - cmpr.toNat = k)
    (hext : extLen.toNat = 8 + addrs.length * k + padding.toNat)
    (hfit : p.uipExtLen + p.uipLen + extLen.toNat ≤ uip.bufsize) :
    ∃ buf, writeSrh uip p extLen pathLen cmpr padding addrs first = some buf ∧
      Holds buf 4 (lenField (p.uipLen + extLen.toNat - uipIphLen)) ∧ Holds buf 6 [uipProtoRouting] ∧
      Holds buf 24 first.1 ∧ Holds buf 40 (srhFields (p.buf 6) extLen pathLen cmpr padding) ∧
      Holds buf 48 (addrs.map fun addr => addr.1.drop cmpr.toNat).reverse.flatten := by
  have hheaders := p.headers_le
  have hlen := length_flatten_suffixes addrs hk
  have hrev : (addrs.map fun addr => addr.1.drop cmpr.toNat).reverse.flatten.length =
      addrs.length * k := by
    rw [← hlen, length_flatten, length_flatten, map_reverse, sum_reverse]
  have hfields : (srhFields (p.buf 6) extLen pathLen cmpr padding).length = 6 := rfl
  have hlenField : ∀ len, (lenField len).length = 2 := fun _ => rfl
  obtain ⟨moved, hmoved⟩ : ∃ b, store p.buf (uipIphLen + p.uipExtLen + extLen.toNat)
    (bytesAt p.buf (uipIphLen + p.uipExtLen) (p.uipLen - uipIphLen)) = b := ⟨_, rfl⟩
  obtain ⟨cleared, hcleared⟩ : ∃ b, store moved (uipIphLen + p.uipExtLen)
    (List.replicate extLen.toNat 0) = b := ⟨_, rfl⟩
  have hiph : uipIphLen = 40 := rfl
  have hmovedOff : (uipIphLen : ℤ) + p.uipExtLen + extLen.toNat =
      (uipIphLen + p.uipExtLen + extLen.toNat : ℕ) := by omega
  have hclearedOff : (uipIphLen : ℤ) + p.uipExtLen = (uipIphLen + p.uipExtLen : ℕ) := by omega
  have hhopsOff : (uipIphLen : ℤ) + extLen.toNat - padding.toNat =
      (48 + addrs.length * k : ℕ) := by omega
  refine ⟨store (store (store (store (store cleared 40
    (srhFields (p.buf 6) extLen pathLen cmpr padding)) 6 [uipProtoRouting]) 48
    (addrs.map fun addr => addr.1.drop cmpr.toNat).reverse.flatten) 24 first.1) 4
    (lenField (p.uipLen + extLen.toNat - uipIphLen)), ?_, ?_, ?_, ?_, ?_, ?_⟩
  · have hroom : (addrs.map fun addr => addr.1.drop cmpr.toNat).flatten.length ≤
        48 + addrs.length * k := by omega
    have hat : 48 + addrs.length * k -
        (addrs.map fun addr => addr.1.drop cmpr.toNat).flatten.length = 48 := by omega
    rw [writeSrh, hmovedOff, write_eq_some rfl (by rw [length_bytesAt]; omega), hmoved]
    simp only [bind_eq_bind, bind_some]
    rw [hclearedOff, write_eq_some rfl (by rw [length_replicate]; omega), hcleared]
    simp only [bind_some]
    rw [write_eq_some rfl (by rw [hfields]; omega)]
    simp only [bind_some]
    rw [write_eq_some (show (6 : ℤ) = (6 : ℕ) from rfl) (by simp; omega)]
    simp only [bind_some]
    rw [hhopsOff, writeDown_of_le (by omega) hroom, hat]
    simp only [bind_some]
    rw [write_eq_some (show (24 : ℤ) = (24 : ℕ) from rfl) (by rw [first.2]; omega)]
    simp only [bind_some]
    exact write_eq_some (show (4 : ℤ) = (4 : ℕ) from rfl) (by rw [hlenField]; omega)
  · exact holds_store _ _ _
  · refine (((holds_store _ _ _).store (Or.inl ?_)).store (Or.inl ?_)).store (Or.inr ?_)
    all_goals simp [lenField]
  · exact (holds_store _ _ _).store (Or.inr (by rw [hlenField]; omega))
  · refine ((((holds_store _ _ _).store (Or.inr ?_)).store (Or.inl ?_)).store (Or.inr ?_)).store
      (Or.inr ?_)
    all_goals simp [lenField, srhFields, first.2]
  · refine ((holds_store _ _ _).store (Or.inr ?_)).store (Or.inr ?_)
    all_goals simp [lenField, first.2]

/-- The packet does not fit into the buffer when it is moved. -/
theorem writeSrh_of_full (hfull : uip.bufsize < p.uipExtLen + p.uipLen + extLen.toNat) :
    writeSrh uip p extLen pathLen cmpr padding addrs first = none := by
  have hheaders := p.headers_le
  have hiph : uipIphLen = 40 := rfl
  have hmoved : write uip.bufsize p.buf (uipIphLen + p.uipExtLen + extLen.toNat)
      (bytesAt p.buf (uipIphLen + p.uipExtLen) (p.uipLen - uipIphLen)) = none := by
    rw [write, length_bytesAt, if_neg (by omega)]
  simp [writeSrh, hmoved]

/-- The addresses are written down to below the buffer. -/
theorem writeSrh_of_below (hk : 16 - cmpr.toNat = k) (hne : addrs ≠ [])
    (hbelow : extLen.toNat + 40 < addrs.length * k + padding.toNat) :
    writeSrh uip p extLen pathLen cmpr padding addrs first = none := by
  have hlen := length_flatten_suffixes addrs hk
  have hiph : uipIphLen = 40 := rfl
  simp only [writeSrh, bind_eq_bind, bind_eq_none_iff]
  intro moved _ cleared _ fields _ proto _ hops hhops
  rw [writeDown_eq_none (by omega) (by rwa [Ne, map_eq_nil_iff])] at hhops
  cases hhops

end Write

/-! ## Insertion along a path of the tree -/

/-- The nodes of the tree from the destination of a packet up to the root, without the root. -/
structure TreePath (cfg : SrConfig) (s : UipSr) (driver : RoutingDriver) (dag : Graph)
    (addr : UipIpaddr) (root dest : NodeId) (l : List NodeId) : Prop where
  ok : s.Ok cfg
  rootIpaddr : driver.rootIpaddr = driver.dagId dag
  rootNode : s.uipSrGetNode driver dag (driver.dagId dag) = some root
  destNode : s.uipSrGetNode driver dag addr = some dest
  ascent : Ascent s.parentOf root dest l

namespace TreePath

variable {uip : UipConfig} {cfg : SrConfig} {s : UipSr} {driver : RoutingDriver} {dag : Graph}
  {p : Uipbuf} {root dest : NodeId} {l : List NodeId}

section

variable (h : TreePath cfg s driver dag p.destipaddr root dest l)

include h

theorem length_le :
    l.length ≤ cfg.linkNum := by
  have hsubset : l ⊆ s.nodelist :=
    h.ascent.subset (S := (· ∈ s.nodelist)) (UipSr.uipSrGetNode_some h.destNode).1
      fun a b ha hab => (h.ok.parent a ha b hab).1
  exact Nat.le_trans (subperm_of_subset h.ascent.nodup.2 hsubset).length_le h.ok.length_le

theorem reachable :
    s.uipSrIsAddrReachable cfg driver dag p.destipaddr := by
  rw [h.ok.uipSrIsAddrReachable_iff]
  refine ⟨dest, h.destNode, root, ?_, h.ascent.reaches⟩
  rw [UipSr.rootNode, h.rootIpaddr, h.rootNode]

/-- A child of the root gets the packet as it is. -/
theorem insert_child (hl : l.length = 1) :
    insertSrhHeader uip cfg s driver (some dag) p = some (true, p) := by
  have hchild : s.parentOf dest = some root := by
    cases h.ascent with
    | stop => cases hl
    | step _ hnext hrest =>
      cases hrest with
      | stop => exact hnext
      | step => simp at hl
  simp [insertSrhHeader, h.destNode, h.rootNode, h.reachable, hchild]

/-- The two loops have passed the nodes of the path. -/
theorem insert_eq (hl : 2 ≤ l.length)
    (hne : l ≠ []) {pathLen cmpr padding extLen : BitVec 8}
    (hpathLen : BitVec.ofNat 8 (l.length - 1) = pathLen)
    (hcmpr : srhCmpr p.destipaddr (l.tail.map (nodeIpaddr s driver)) = cmpr)
    (hpadding : srhPadding (srhUnpadded pathLen cmpr) = padding)
    (hextLen : srhUnpadded pathLen cmpr + padding = extLen)
    (hmtu : p.uipLen + extLen.toNat ≤ uip.linkMtu) :
    insertSrhHeader uip cfg s driver (some dag) p =
      (writeSrh uip p extLen pathLen cmpr padding (l.dropLast.map (nodeIpaddr s driver))
        (nodeIpaddr s driver (l.getLast hne))).map fun buf =>
          (true, uipbufAddExtHdr p buf extLen.toNat) := by
  have hlinkNum := h.length_le
  have hnot : s.parentOf dest ≠ some root := by
    intro hchild
    cases h.ascent with
    | stop => simp at hl
    | step _ hnext hrest =>
      cases Option.some.inj (hnext.symm.trans hchild)
      cases hrest with
      | stop => simp at hl
      | step hne' => exact hne' rfl
  have hhops : hopsTo s.parentOf root cfg.linkNum (s.parentOf dest) = some l.tail := by
    cases h.ascent with
    | stop => simp at hl
    | step _ hnext hrest =>
      rw [hnext]
      exact hopsTo_of_ascent hrest (le_of_succ_le hlinkNum)
  have habove := hopsAbove_of_ascent h.ascent hne hlinkNum
  simp only [insertSrhHeader, h.destNode, h.rootNode, h.reachable, Bool.not_true, Bool.false_eq_true,
    if_false, if_neg hnot, hhops, habove, bind_eq_bind, bind_some, length_tail,
    hpathLen, hcmpr, hpadding, hextLen, getD_some]
  rw [if_neg (Nat.not_lt.mpr hmtu)]
  cases writeSrh uip p extLen pathLen cmpr padding (l.dropLast.map (nodeIpaddr s driver))
    (nodeIpaddr s driver (l.getLast hne)) <;> rfl

theorem cons (hne : l ≠ []) :
    l = dest :: l.tail := by
  cases h.ascent with
  | stop => exact absurd rfl hne
  | step => rfl

/-- The addresses of the path share the bytes that are left out. -/
theorem shared (hne : l ≠ [])
    {cmpr : BitVec 8} (hcmpr : srhCmpr p.destipaddr (l.tail.map (nodeIpaddr s driver)) = cmpr) :
    ∀ n ∈ l, (nodeIpaddr s driver n).1.take cmpr.toNat = p.destipaddr.1.take cmpr.toNat := by
  intro n hn
  rw [h.cons hne] at hn
  rcases mem_cons.mp hn with rfl | hn
  · have hdest : nodeIpaddr s driver n = p.destipaddr := (UipSr.uipSrGetNode_some h.destNode).2.2
    rw [hdest]
  · rw [← hcmpr]
    exact (srhCmpr_spec p.destipaddr (l.tail.map (nodeIpaddr s driver))).2 _ (mem_map_of_mem hn)

end

theorem path_eq_cons (hne : l ≠ []) : l.reverse.map (nodeIpaddr s driver) =
    nodeIpaddr s driver (l.getLast hne) :: (l.dropLast.map (nodeIpaddr s driver)).reverse := by
  conv_lhs => rw [← dropLast_append_getLast hne]
  simp

section

variable (h : TreePath cfg s driver dag p.destipaddr root dest l)

include h

/-- The packet leaves the root on its way along the path. -/
theorem onRoute (hne : l ≠ [])
    {buf : ℕ → Byte} {cmpr padding extLen : BitVec 8} {k : ℕ}
    (hcmpr : srhCmpr p.destipaddr (l.tail.map (nodeIpaddr s driver)) = cmpr)
    (hk : 16 - cmpr.toNat = k) (hshort : 8 + (l.length - 1) * k ≤ 248)
    (hextLen : extLen.toNat = srhLength (l.length - 1) k)
    (hpadding : padding.toNat = srhLength (l.length - 1) k - (8 + (l.length - 1) * k))
    (hsize : p.uipLen + extLen.toNat ≤ uip.bufsize) (h₆ : Holds buf 6 [uipProtoRouting])
    (h₂₄ : Holds buf 24 (nodeIpaddr s driver (l.getLast hne)).1)
    (h₄₀ : Holds buf 40
      (srhFields (p.buf 6) extLen (BitVec.ofNat 8 (l.length - 1)) cmpr padding))
    (h₄₈ : Holds buf 48 ((l.dropLast.map (nodeIpaddr s driver)).map fun addr =>
      addr.1.drop cmpr.toNat).reverse.flatten) :
    OnRoute uip (uipbufAddExtHdr p buf extLen.toNat) cmpr (l.reverse.map (nodeIpaddr s driver)) 0 := by
  have hheaders := p.headers_le
  have hc : cmpr.toNat ≤ 15 := by
    rw [← hcmpr]
    exact (srhCmpr_spec p.destipaddr (l.tail.map (nodeIpaddr s driver))).1
  have hlength : (l.reverse.map (nodeIpaddr s driver)).length = l.length := by simp
  have hpos : 0 < l.length := length_pos_iff.mpr hne
  simp only [srhFields, holds_cons, holds_nil, and_true, reduceAdd] at h₄₀ h₆
  obtain ⟨-, h₄₁, h₄₂, h₄₃, h₄₄, h₄₅⟩ := h₄₀
  exact {
    j_lt := by omega
    short := by rwa [hlength, hk]
    inside := by
      rw [hlength, hk, ← hextLen]
      change 40 + extLen.toNat ≤ p.uipLen + extLen.toNat
      omega
    fits := hsize
    c_le := hc
    shared := by
      intro addr haddr addr' haddr'
      obtain ⟨n, hn, rfl⟩ := mem_map.mp haddr
      obtain ⟨n', hn', rfl⟩ := mem_map.mp haddr'
      rw [h.shared hne hcmpr n (mem_reverse.mp hn),
        h.shared hne hcmpr n' (mem_reverse.mp hn')]
    proto := h₆
    len := by
      rw [hlength, hk]
      change (buf 41).toNat * 8 + 8 = _
      rw [h₄₁]
      exact srhLen_toNat hextLen
    type := h₄₂
    segLeft := by
      have hfewer : l.length - 1 ≤ (l.length - 1) * k := Nat.le_mul_of_pos_right _ (by omega)
      change (buf 43).toNat = _
      rw [h₄₃, hlength, toNat_ofNat]
      omega
    cmpr := h₄₄
    pad := by
      have hnibble : ∀ b : BitVec 8, b.toNat < 8 → (b <<< 4) >>> 4 = b := by decide +kernel
      have hround := hpadding
      simp only [srhLength] at hround
      change (buf 45 >>> 4).toNat = _
      rw [h₄₅, hlength, hk, hnibble padding (by omega), hpadding]
    dest := by
      rw [path_eq_cons hne]
      refine congrArg some (Subtype.ext ?_)
      have hbytes := h₂₄.bytesAt
      rw [(nodeIpaddr s driver _).2] at hbytes
      exact hbytes.symm
    addrs := by
      intro i addr hget hi
      rw [path_eq_cons hne, if_neg (by omega), List.getElem?_cons_succ] at hget
      refine h₄₈.piece ?_ ?_
      · intro piece hpiece
        rw [mem_reverse, List.mem_map] at hpiece
        obtain ⟨addr, -, rfl⟩ := hpiece
        rw [length_drop, addr.2]
      · rw [← map_reverse, List.getElem?_map, hget]
        rfl }

/-- The last address of the path is the destination. -/
theorem path_getElem?_last (hne : l ≠ []) :
    (l.reverse.map (nodeIpaddr s driver))[l.length - 1]? = some p.destipaddr := by
  have hdest : nodeIpaddr s driver dest = p.destipaddr := (UipSr.uipSrGetNode_some h.destNode).2.2
  rw [h.cons hne]
  simp [hdest]

/-- A header that its length field can tell is written, if there is room to move the packet. -/
theorem delivers (hl : 2 ≤ l.length)
    {k : ℕ} (hk : srhSuffix s driver p.destipaddr l = k) (hshort : 8 + (l.length - 1) * k ≤ 248)
    (hmtu : p.uipLen + srhLength (l.length - 1) k ≤ uip.linkMtu)
    (hroom : p.uipExtLen + p.uipLen + srhLength (l.length - 1) k ≤ uip.bufsize) :
    ∃ q, insertSrhHeader uip cfg s driver (some dag) p = some (true, q) ∧
      Delivers uip p q (l.reverse.map (nodeIpaddr s driver)) := by
  have hne : l ≠ [] := by
    rintro rfl
    simp at hl
  have hheaders := p.headers_le
  have hmtuLt := uip.linkMtu_lt
  obtain ⟨cmpr, hcmpr⟩ : ∃ cmpr, srhCmpr p.destipaddr (l.tail.map (nodeIpaddr s driver)) = cmpr :=
    ⟨_, rfl⟩
  rw [srhSuffix, hcmpr] at hk
  have hc : cmpr.toNat ≤ 15 := by
    rw [← hcmpr]
    exact (srhCmpr_spec p.destipaddr (l.tail.map (nodeIpaddr s driver))).1
  obtain ⟨padding, hpadding⟩ : ∃ padding,
    srhPadding (srhUnpadded (BitVec.ofNat 8 (l.length - 1)) cmpr) = padding := ⟨_, rfl⟩
  obtain ⟨extLen, hextLen⟩ : ∃ extLen,
    srhUnpadded (BitVec.ofNat 8 (l.length - 1)) cmpr + padding = extLen := ⟨_, rfl⟩
  have hlengths := srhExtLen_toNat (n := l.length - 1) hc hk hshort
  simp only [hpadding, hextLen] at hlengths
  obtain ⟨hpaddingNat, hextLenNat⟩ := hlengths
  have hround : 8 + (l.length - 1) * k ≤ srhLength (l.length - 1) k := by
    simp only [srhLength]
    omega
  have hlenAbove : (l.dropLast.map (nodeIpaddr s driver)).length = l.length - 1 := by simp
  have hinsert : insertSrhHeader uip cfg s driver (some dag) p = _ :=
    h.insert_eq hl hne rfl hcmpr hpadding hextLen (by omega)
  obtain ⟨buf, hbuf, h₄, h₆, h₂₄, h₄₀, h₄₈⟩ := writeSrh_eq_some
    (BitVec.ofNat 8 (l.length - 1)) (nodeIpaddr s driver (l.getLast hne)) hk
    (show extLen.toNat = 8 + (l.dropLast.map (nodeIpaddr s driver)).length * k + padding.toNat by
      rw [hlenAbove]
      omega)
    (show p.uipExtLen + p.uipLen + extLen.toNat ≤ uip.bufsize by omega)
  have hroute : OnRoute uip (uipbufAddExtHdr p buf extLen.toNat) cmpr _ 0 :=
    h.onRoute hne hcmpr hk hshort hextLenNat hpaddingNat (by omega) h₆ h₂₄ h₄₀ h₄₈
  rw [hbuf] at hinsert
  refine ⟨_, hinsert, ?_⟩
  have hfewer : l.length - 1 ≤ (l.length - 1) * k := Nat.le_mul_of_pos_right _ (by omega)
  obtain ⟨q', hq', hend⟩ := hroute.journey
    (show (l.reverse.map (nodeIpaddr s driver)).length ≤ 256 + 0 by
      rw [length_map, length_reverse]
      omega)
  have hlast := h.path_getElem?_last hne
  have hdest := hend.dest
  rw [length_map, length_reverse, hlast] at hdest
  exact {
    visits := by
      refine ⟨q', 40, hq', (Option.some.inj hdest).symm, hend.srhHeader, ?_⟩
      apply eq_of_toNat_eq
      rw [hend.segLeft, Nat.sub_self]
      rfl
    headerLen := by
      refine ⟨40, hroute.srhHeader, ?_⟩
      have hlen := hroute.len
      rw [length_map, length_reverse, hk, ← hextLenNat] at hlen
      rw [hlen]
      exact (Nat.add_sub_cancel_left _ _).symm
    packetLen := by
      change uipbufGetLenField buf = p.uipLen + extLen.toNat - uipIphLen
      exact uipbufGetLenField_of_holds h₄ (by omega)
    extLen := by
      change p.uipExtLen + extLen.toNat = p.uipExtLen + (p.uipLen + extLen.toNat - p.uipLen)
      rw [Nat.add_sub_cancel_left] }

/-- A header that its length field cannot tell, or that leaves no room, is written outside of the
buffer. -/
theorem insert_eq_none (hl : 2 ≤ l.length)
    {k : ℕ} (hk : srhSuffix s driver p.destipaddr l = k)
    (hmtu : p.uipLen + srhLength (l.length - 1) k ≤ uip.linkMtu)
    (hnot : ¬ (8 + (l.length - 1) * k ≤ 248 ∧
      p.uipExtLen + p.uipLen + srhLength (l.length - 1) k ≤ uip.bufsize)) :
    insertSrhHeader uip cfg s driver (some dag) p = none := by
  have hne : l ≠ [] := by
    rintro rfl
    simp at hl
  obtain ⟨cmpr, hcmpr⟩ : ∃ cmpr, srhCmpr p.destipaddr (l.tail.map (nodeIpaddr s driver)) = cmpr :=
    ⟨_, rfl⟩
  rw [srhSuffix, hcmpr] at hk
  have hc : cmpr.toNat ≤ 15 := by
    rw [← hcmpr]
    exact (srhCmpr_spec p.destipaddr (l.tail.map (nodeIpaddr s driver))).1
  have hlenAbove : (l.dropLast.map (nodeIpaddr s driver)).length = l.length - 1 := by simp
  by_cases hshort : 8 + (l.length - 1) * k ≤ 248
  · have hextLen := (srhExtLen_toNat (n := l.length - 1) hc hk hshort).2
    rw [h.insert_eq hl hne rfl hcmpr rfl rfl (by omega), writeSrh_of_full (by omega)]
    rfl
  · obtain ⟨hle, hbelow⟩ := srhExtLen_of_long (n := l.length - 1) hc hk (by omega)
    rw [h.insert_eq hl hne rfl hcmpr rfl rfl (by omega),
      writeSrh_of_below hk _ (by rw [hlenAbove]; omega)]
    · rfl
    · apply ne_nil_of_length_pos
      omega

end

end TreePath

/-- **The packet visits the path of the tree and arrives**, exactly when the length field of the
header can tell the bytes of the header, and the buffer has room for the packet behind the
headers it has. -/
theorem insert_srh_header_delivers {uip : UipConfig} {cfg : SrConfig} {s : UipSr}
    {driver : RoutingDriver} {dag : Graph} {p : Uipbuf} {root dest : NodeId} {l : List NodeId}
    (h : TreePath cfg s driver dag p.destipaddr root dest l)
    (hmtu : p.uipLen + srhLength (l.length - 1) (srhSuffix s driver p.destipaddr l) ≤ uip.linkMtu) :
    (l.length = 1 → insertSrhHeader uip cfg s driver (some dag) p = some (true, p)) ∧
      (2 ≤ l.length →
        ((∃ q, insertSrhHeader uip cfg s driver (some dag) p = some (true, q) ∧
            Delivers uip p q (l.reverse.map (nodeIpaddr s driver))) ↔
          8 + (l.length - 1) * srhSuffix s driver p.destipaddr l ≤ 248 ∧
            p.uipExtLen + p.uipLen +
              srhLength (l.length - 1) (srhSuffix s driver p.destipaddr l) ≤ uip.bufsize)) := by
  refine ⟨h.insert_child, fun hl => ⟨?_, ?_⟩⟩
  · rintro ⟨q, hq, -⟩
    by_contra hnot
    rw [h.insert_eq_none hl rfl hmtu hnot] at hq
    cases hq
  · rintro ⟨hshort, hroom⟩
    exact h.delivers hl rfl hshort hmtu hroom

/-! ## A chain of nodes -/

/-- Node `i` is the child of node `i - 1`, and node 0 is the root. -/
def chain : UipSr where
  node i := ⟨uipSrInfiniteLifetime, 0, ⟨BitVec.ofNat 8 i :: List.replicate 7 0, rfl⟩,
    if i = 0 then none else some (i - 1)⟩
  used i := i < 33
  nodelist := List.range 33
  numNodes := 33

/-- The addresses begin with the prefix `fd00::`. -/
def chainDriver : RoutingDriver where
  dagId _ := ⟨0xfd :: List.replicate 15 0, rfl⟩
  rootIpaddr := ⟨0xfd :: List.replicate 15 0, rfl⟩

/-- A packet without payload for a node of the chain. -/
def chainPacket (i : NodeId) : Uipbuf where
  buf := store (fun _ => 0) 24 (nodeIpaddr chain chainDriver i).1
  uipLen := 40
  uipExtLen := 0
  headers_le := Nat.le_refl 40

def chainConfig : UipConfig := ⟨1280, 1280, by decide⟩

theorem chain_ok : chain.Ok ⟨40, 60⟩ where
  listed n := by simp [chain]
  pool n hn := by
    exact Nat.lt_of_lt_of_le (mem_range.mp hn) (by decide)
  nodup := nodup_range
  counted := by decide
  parent n hn p hp := by
    by_cases hzero : n = 0
    · simp [chain, UipSr.parentOf, hzero] at hp
    · simp only [chain, UipSr.parentOf, if_neg hzero, Option.some.injEq] at hp
      subst hp
      have hlt := mem_range.mp hn
      exact ⟨mem_range.mpr (by omega), rfl⟩

theorem chain_ascent (i : NodeId) :
    Ascent chain.parentOf 0 i ((List.range i).map (· + 1)).reverse := by
  induction i with
  | zero => exact .stop
  | succ i ih =>
    rw [range_succ, map_append, map_singleton, reverse_append]
    exact .step (succ_ne_zero i) (by simp [chain, UipSr.parentOf]) ih

theorem insert_srh_header_delivers_chain :
    ∃ q, insertSrhHeader chainConfig ⟨40, 60⟩ chain chainDriver (some 0) (chainPacket 3) =
        some (true, q) ∧
      Delivers chainConfig (chainPacket 3) q ([1, 2, 3].map (nodeIpaddr chain chainDriver)) := by
  have hpath : TreePath ⟨40, 60⟩ chain chainDriver 0 (chainPacket 3).destipaddr 0 3
      ((List.range 3).map (· + 1)).reverse :=
    ⟨chain_ok, rfl, by decide +kernel, by decide +kernel, chain_ascent 3⟩
  have hdelivers := (insert_srh_header_delivers hpath
    (show _ ≤ chainConfig.linkMtu by decide +kernel)).2 (by decide)
  exact hdelivers.mpr (by decide +kernel)

/-- 31 addresses of eight bytes need 256 bytes: the length of the header is 0 in its byte, and
the addresses are written below the buffer. -/
theorem insert_srh_header_outside :
    TreePath ⟨40, 60⟩ chain chainDriver 0 (chainPacket 32).destipaddr 0 32
        ((List.range 32).map (· + 1)).reverse ∧
      (chainPacket 32).uipLen + srhLength 31 8 ≤ chainConfig.linkMtu ∧
      ¬ ∃ q, insertSrhHeader chainConfig ⟨40, 60⟩ chain chainDriver (some 0) (chainPacket 32) =
          some (true, q) ∧
        Delivers chainConfig (chainPacket 32) q
          (((List.range 32).map (· + 1)).map (nodeIpaddr chain chainDriver)) := by
  have hpath : TreePath ⟨40, 60⟩ chain chainDriver 0 (chainPacket 32).destipaddr 0 32
      ((List.range 32).map (· + 1)).reverse :=
    ⟨chain_ok, rfl, by decide +kernel, by decide +kernel, chain_ascent 32⟩
  have hsuffix : srhSuffix chain chainDriver (chainPacket 32).destipaddr
      ((List.range 32).map (· + 1)).reverse = 8 := by decide +kernel
  have hnone : insertSrhHeader chainConfig ⟨40, 60⟩ chain chainDriver (some 0) (chainPacket 32) =
      none := hpath.insert_eq_none (by decide) hsuffix (by decide) (by decide)
  refine ⟨hpath, by decide, ?_⟩
  rintro ⟨q, hq, -⟩
  rw [hnone] at hq
  cases hq

end Asap.Rpl
