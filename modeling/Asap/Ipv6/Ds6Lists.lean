import Asap.Ipv6.SourceRouting
import Mathlib.Logic.Function.Basic

/-!
# The lists of addresses and prefixes

One loop looks for an address in each of the lists: an entry in use that agrees with it in a number of
whole bytes, or else the last free entry. With an address the loop asks for all of its bytes; with a
prefix for those that the prefix has in full, whatever the length of the entry is.

The node listens to the solicited-node address of each of its addresses. Addresses with the same last
three bytes share it, and it goes with the first of them that is removed.

## Main definitions

* `listLoop` — the loop.
* `Ds6`, `Ds6.step` — the lists, and the calls.
* `StepRight`, `CallCond` — what is wanted of a call, and when it is so.
* `RunRight`, `RunCond` — the same of a sequence of calls.

## Main results

* `ds6_lists` — a sequence of calls is right exactly if each of its calls meets the condition.
-/

namespace Asap.Ipv6

open Lib Function

/-! ## The loop -/

/-- `uip_ipaddr_prefixcmp`: as many whole bytes are the same. -/
def prefixcmp (a b : UipIpaddr) (len : ℕ) : Bool := a.1.take (len / 8) = b.1.take (len / 8)

/-- `FOUND`, `FREESPACE` and `NOSPACE`, with the element. -/
inductive LoopResult
  | found (i : ℕ) | freespace (i : ℕ) | nospace
deriving DecidableEq, Repr

section Loop

variable (isused : ℕ → Bool) (ipaddr : ℕ → UipIpaddr) (addr : UipIpaddr) (len : ℕ)

/-- The elements from one on, with the last free one before. -/
def listLoopFrom : ℕ → ℕ → Option ℕ → LoopResult
  | 0, _, some out => .freespace out
  | 0, _, none => .nospace
  | rest + 1, i, out =>
    if isused i then
      if prefixcmp (ipaddr i) addr len then .found i else listLoopFrom rest (i + 1) out
    else listLoopFrom rest (i + 1) (some i)

/-- `uip_ds6_list_loop` -/
def listLoop (size : ℕ) : LoopResult := listLoopFrom isused ipaddr addr len size 0 none

variable {isused ipaddr addr len}

/-- What the loop has seen: no element in use agrees, and it has a free one if there is any. -/
structure Seen (isused : ℕ → Bool) (ipaddr : ℕ → UipIpaddr) (addr : UipIpaddr) (len i : ℕ)
    (out : Option ℕ) : Prop where
  differs : ∀ j < i, isused j = true → prefixcmp (ipaddr j) addr len = false
  free : ∀ j, out = some j → j < i ∧ isused j = false
  full : out = none → ∀ j < i, isused j = true

/-- What the loop ends with. -/
def Ends (isused : ℕ → Bool) (ipaddr : ℕ → UipIpaddr) (addr : UipIpaddr) (len size : ℕ) :
    LoopResult → Prop
  | .found i => i < size ∧ isused i = true ∧ prefixcmp (ipaddr i) addr len = true ∧
      ∀ j < i, isused j = true → prefixcmp (ipaddr j) addr len = false
  | .freespace i => i < size ∧ isused i = false ∧
      ∀ j < size, isused j = true → prefixcmp (ipaddr j) addr len = false
  | .nospace => ∀ j < size, isused j = true ∧ prefixcmp (ipaddr j) addr len = false

theorem listLoopFrom_ends (size : ℕ) : ∀ (rest i : ℕ) (out : Option ℕ), i + rest = size →
    Seen isused ipaddr addr len i out →
    Ends isused ipaddr addr len size (listLoopFrom isused ipaddr addr len rest i out) := by
  intro rest
  induction rest with
  | zero =>
    rintro i out rfl hseen
    cases out with
    | none =>
      intro j hj
      exact ⟨hseen.full rfl j hj, hseen.differs j hj (hseen.full rfl j hj)⟩
    | some out =>
      obtain ⟨hlt, hfree⟩ := hseen.free out rfl
      exact ⟨hlt, hfree, hseen.differs⟩
  | succ rest ih =>
    intro i out hsize hseen
    have hnext : i + 1 + rest = size := by omega
    rw [listLoopFrom]
    cases hused : isused i with
    | true =>
      simp only [if_true]
      cases hcmp : prefixcmp (ipaddr i) addr len with
      | true => exact ⟨by omega, hused, hcmp, hseen.differs⟩
      | false =>
        simp only [Bool.false_eq_true, if_false]
        refine ih (i + 1) out hnext ⟨fun j hj hjused => ?_, fun j hj => ?_, fun hout j hj => ?_⟩
        · rcases Nat.lt_succ_iff_lt_or_eq.mp hj with hlt | rfl
          · exact hseen.differs j hlt hjused
          · exact hcmp
        · obtain ⟨hlt, hfree⟩ := hseen.free j hj
          exact ⟨Nat.lt_succ_of_lt hlt, hfree⟩
        · rcases Nat.lt_succ_iff_lt_or_eq.mp hj with hlt | rfl
          · exact hseen.full hout j hlt
          · exact hused
    | false =>
      simp only [Bool.false_eq_true, if_false]
      refine ih (i + 1) (some i) hnext ⟨fun j hj hjused => ?_, fun j hj => ?_, fun hout => ?_⟩
      · rcases Nat.lt_succ_iff_lt_or_eq.mp hj with hlt | rfl
        · exact hseen.differs j hlt hjused
        · cases hused.symm.trans hjused
      · cases hj
        exact ⟨Nat.lt_succ_self i, hused⟩
      · cases hout

/-- **What the loop finds**: the first element in use that agrees, or a free one if there is none. -/
theorem listLoop_ends (isused : ℕ → Bool) (ipaddr : ℕ → UipIpaddr) (addr : UipIpaddr)
    (len size : ℕ) :
    Ends isused ipaddr addr len size (listLoop isused ipaddr addr len size) := by
  refine listLoopFrom_ends size size 0 none (Nat.zero_add size) ⟨?_, ?_, ?_⟩
  · exact fun j hj => absurd hj (Nat.not_lt_zero j)
  · exact fun j hj => absurd hj (Option.some_ne_none j).symm
  · exact fun _ j hj => absurd hj (Nat.not_lt_zero j)

end Loop

/-- No two entries in use have the same key. -/
def Once {α κ : Type} (used : α → Bool) (key : α → κ) (size : ℕ) (table : ℕ → α) : Prop :=
  ∀ i < size, ∀ j < size, used (table i) = true → used (table j) = true →
    key (table i) = key (table j) → i = j

/-- An entry is changed, and has the key of no other one in use if it is in use itself. -/
theorem Once.update {α κ : Type} {used : α → Bool} {key : α → κ} {size i : ℕ} {table : ℕ → α}
    {entry : α} (h : Once used key size table)
    (hnew : used entry = true → ∀ j < size, used (table j) = true →
      key (table j) = key entry → j = i) :
    Once used key size (update table i entry) := by
  intro a ha b hb
  by_cases hai : a = i
  · subst hai
    by_cases hba : b = a
    · exact fun _ _ _ => hba.symm
    · rw [update_self, update_of_ne hba]
      exact fun hused hbused hkey => (hnew hused b hb hbused hkey.symm).symm
  · rw [update_of_ne hai]
    by_cases hbi : b = i
    · subst hbi
      rw [update_self]
      exact fun haused hused hkey => hnew hused a ha haused hkey
    · rw [update_of_ne hbi]
      exact h a ha b hb

/-! ## The lists -/

/-- `uip_ds6_addr_t` -/
structure Ds6Addr where
  isused : Bool
  ipaddr : UipIpaddr
  type : Byte
  isinfinite : Bool
  vlifetime : ℕ

/-- `uip_ds6_maddr_t` -/
structure Ds6Maddr where
  isused : Bool
  ipaddr : UipIpaddr

/-- `uip_ds6_prefix_t` of a router -/
structure Ds6Prefix where
  isused : Bool
  ipaddr : UipIpaddr
  length : ℕ
  advertise : Byte
  flags : Byte
  vlifetime : ℕ
  plifetime : ℕ

/-- `UIP_DS6_ADDR_NB`, `UIP_DS6_MADDR_NB` and `UIP_DS6_PREFIX_NB` -/
structure Ds6Config where
  addrNb : ℕ
  maddrNb : ℕ
  prefixNb : ℕ

/-- The lists of the interface, and the prefix list. -/
structure Ds6 where
  addrs : ℕ → Ds6Addr
  maddrs : ℕ → Ds6Maddr
  prefixes : ℕ → Ds6Prefix

/-- `uip_create_solicited_node` -/
def solicitedNode (addr : UipIpaddr) : UipIpaddr :=
  ⟨[0xFF, 0x02, 0, 0, 0, 0, 0, 0, 0, 0, 0, 0x01, 0xFF] ++ addr.1.drop 13, by
    rw [List.length_append, List.length_drop, addr.2]
    rfl⟩

/-- A call; of an entry that is removed, where it is, if the pointer is not `NULL`. -/
inductive Ds6Call
  | addrAdd (ipaddr : UipIpaddr) (vlifetime : ℕ) (type : Byte)
  | addrRm (i : Option ℕ)
  | addrLookup (ipaddr : UipIpaddr)
  | maddrAdd (ipaddr : UipIpaddr)
  | maddrRm (i : Option ℕ)
  | maddrLookup (ipaddr : UipIpaddr)
  | prefixAdd (ipaddr : UipIpaddr) (len : ℕ) (advertise flags : Byte) (vtime ptime : ℕ)
  | prefixRm (i : Option ℕ)
  | prefixLookup (ipaddr : UipIpaddr) (len : ℕ)

namespace Ds6

variable (cfg : Ds6Config) (s : Ds6)

/-- The lists are cleared in `uip_ds6_init`. -/
def init : Ds6 where
  addrs := fun _ => ⟨false, ⟨List.replicate 16 0, rfl⟩, 0, false, 0⟩
  maddrs := fun _ => ⟨false, ⟨List.replicate 16 0, rfl⟩⟩
  prefixes := fun _ => ⟨false, ⟨List.replicate 16 0, rfl⟩, 0, 0, 0, 0, 0⟩

/-- The loop over the unicast addresses. -/
def addrLoop (ipaddr : UipIpaddr) : LoopResult :=
  listLoop (fun i => (s.addrs i).isused) (fun i => (s.addrs i).ipaddr) ipaddr 128 cfg.addrNb

/-- The loop over the multicast addresses. -/
def maddrLoop (ipaddr : UipIpaddr) : LoopResult :=
  listLoop (fun i => (s.maddrs i).isused) (fun i => (s.maddrs i).ipaddr) ipaddr 128 cfg.maddrNb

/-- The loop over the prefixes. -/
def prefixLoop (ipaddr : UipIpaddr) (len : ℕ) : LoopResult :=
  listLoop (fun i => (s.prefixes i).isused) (fun i => (s.prefixes i).ipaddr) ipaddr len cfg.prefixNb

/-- An element that was found. -/
def lookup : LoopResult → Option ℕ
  | .found i => some i
  | .freespace _ => none
  | .nospace => none

/-- `uip_ds6_maddr_add` -/
def maddrAdd (ipaddr : UipIpaddr) : Option ℕ × Ds6 :=
  match s.maddrLoop cfg ipaddr with
  | .freespace i => (some i, { s with maddrs := Function.update s.maddrs i ⟨true, ipaddr⟩ })
  | _ => (none, s)

/-- `uip_ds6_maddr_rm` -/
def maddrRm : Option ℕ → Ds6
  | none => s
  | some i => { s with maddrs := Function.update s.maddrs i { s.maddrs i with isused := false } }

/-- `uip_ds6_maddr_lookup` -/
def maddrLookup (ipaddr : UipIpaddr) : Option ℕ := lookup (s.maddrLoop cfg ipaddr)

/-- `uip_ds6_addr_add` -/
def addrAdd (ipaddr : UipIpaddr) (vlifetime : ℕ) (type : Byte) : Option ℕ × Ds6 :=
  match s.addrLoop cfg ipaddr with
  | .freespace i =>
    let addr : Ds6Addr := ⟨true, ipaddr, type, vlifetime = 0, vlifetime⟩
    let s := { s with addrs := Function.update s.addrs i addr }
    (some i, (s.maddrAdd cfg (solicitedNode ipaddr)).2)
  | _ => (none, s)

/-- `uip_ds6_addr_rm` -/
def addrRm : Option ℕ → Ds6
  | none => s
  | some i =>
    let s := s.maddrRm (s.maddrLookup cfg (solicitedNode (s.addrs i).ipaddr))
    { s with addrs := Function.update s.addrs i { s.addrs i with isused := false } }

/-- `uip_ds6_prefix_add` -/
def prefixAdd (ipaddr : UipIpaddr) (len : ℕ) (advertise flags : Byte) (vtime ptime : ℕ) :
    Option ℕ × Ds6 :=
  match s.prefixLoop cfg ipaddr len with
  | .freespace i =>
    let entry : Ds6Prefix := ⟨true, ipaddr, len, advertise, flags, vtime, ptime⟩
    (some i, { s with prefixes := Function.update s.prefixes i entry })
  | _ => (none, s)

/-- `uip_ds6_prefix_rm` -/
def prefixRm : Option ℕ → Ds6
  | none => s
  | some i => { s with prefixes := Function.update s.prefixes i { s.prefixes i with isused := false } }

/-- A call: the entry that it returns, and the lists. -/
def step : Ds6Call → Option ℕ × Ds6
  | .addrAdd ipaddr vlifetime type => s.addrAdd cfg ipaddr vlifetime type
  | .addrRm i => (none, s.addrRm cfg i)
  | .addrLookup ipaddr => (lookup (s.addrLoop cfg ipaddr), s)
  | .maddrAdd ipaddr => s.maddrAdd cfg ipaddr
  | .maddrRm i => (none, s.maddrRm i)
  | .maddrLookup ipaddr => (s.maddrLookup cfg ipaddr, s)
  | .prefixAdd ipaddr len advertise flags vtime ptime =>
    s.prefixAdd cfg ipaddr len advertise flags vtime ptime
  | .prefixRm i => (none, s.prefixRm i)
  | .prefixLookup ipaddr len => (lookup (s.prefixLoop cfg ipaddr len), s)

/-! ## What is wanted -/

/-- A bit of an address, the first one first. -/
def addrBit (addr : UipIpaddr) (k : ℕ) : Bool := (addr.1.getD (k / 8) 0).getLsbD (7 - k % 8)

/-- The length of a prefix and its bits. -/
def prefixKey (ipaddr : UipIpaddr) (len : ℕ) : ℕ × (ℕ → Bool) :=
  (len, fun k => decide (k < len) && addrBit ipaddr k)

/-- The entry of a prefix. -/
def IsPrefix (e : Ds6Prefix) (ipaddr : UipIpaddr) (len : ℕ) : Prop :=
  e.isused = true ∧ prefixKey e.ipaddr e.length = prefixKey ipaddr len

/-- Each unicast address occurs once, and the node listens to its solicited-node address. -/
structure Right : Prop where
  once : Once Ds6Addr.isused Ds6Addr.ipaddr cfg.addrNb s.addrs
  listens : ∀ i < cfg.addrNb, (s.addrs i).isused = true →
    ∃ j < cfg.maddrNb, (s.maddrs j).isused = true ∧
      (s.maddrs j).ipaddr = solicitedNode (s.addrs i).ipaddr

/-- What a call returns: a lookup finds the entry of the prefix, and a prefix is added unless it is
there. -/
def ResultRight (s' : Ds6) (result : Option ℕ) : Ds6Call → Prop
  | .prefixLookup ipaddr len =>
    ∀ i, result = some i ↔ i < cfg.prefixNb ∧ IsPrefix (s.prefixes i) ipaddr len
  | .prefixAdd ipaddr len advertise flags vtime ptime =>
    (∀ i < cfg.prefixNb, ¬ IsPrefix (s.prefixes i) ipaddr len) →
      ∃ i < cfg.prefixNb, result = some i ∧ (s.prefixes i).isused = false ∧
        s'.prefixes =
          Function.update s.prefixes i ⟨true, ipaddr, len, advertise, flags, vtime, ptime⟩
  | _ => True

/-- The lists are right after a call, and so is what it returns. -/
def StepRight (call : Ds6Call) : Prop :=
  (s.step cfg call).2.Right cfg ∧ s.ResultRight cfg (s.step cfg call).2 (s.step cfg call).1 call

/-- No list overflows, and entries are where the lists are. -/
def Fits : Ds6Call → Prop
  | .addrAdd ipaddr _ _ =>
    s.addrLoop cfg ipaddr ≠ .nospace ∧
      ((∃ i, s.addrLoop cfg ipaddr = .freespace i) →
        s.maddrLoop cfg (solicitedNode ipaddr) ≠ .nospace)
  | .addrRm i => ∀ j, i = some j → j < cfg.addrNb
  | .maddrAdd ipaddr => s.maddrLoop cfg ipaddr ≠ .nospace
  | .maddrRm i => ∀ j, i = some j → j < cfg.maddrNb
  | .prefixAdd ipaddr len _ _ _ _ => len ≤ 128 ∧ s.prefixLoop cfg ipaddr len ≠ .nospace
  | .prefixRm i => ∀ j, i = some j → j < cfg.prefixNb
  | .prefixLookup _ len => len ≤ 128
  | _ => True

/-- No address that is removed shares its solicited-node address with another one, and none that is
in use is removed itself; the first entry that agrees in the whole bytes of a prefix that is looked
for is that of the prefix, and a prefix that is added agrees in this way with an entry only if it is
there. -/
def CallCond : Ds6Call → Prop
  | .addrRm (some i) => ∀ j < cfg.addrNb, j ≠ i → (s.addrs j).isused = true →
      solicitedNode (s.addrs j).ipaddr ≠ solicitedNode (s.addrs i).ipaddr
  | .maddrRm (some i) => (s.maddrs i).isused = true → ∀ j < cfg.addrNb,
      (s.addrs j).isused = true → solicitedNode (s.addrs j).ipaddr ≠ (s.maddrs i).ipaddr
  | .prefixAdd ipaddr len _ _ _ _ =>
    (∃ i < cfg.prefixNb, (s.prefixes i).isused = true ∧
      prefixcmp (s.prefixes i).ipaddr ipaddr len = true) →
    ∃ i < cfg.prefixNb, IsPrefix (s.prefixes i) ipaddr len
  | .prefixLookup ipaddr len =>
    ∀ i < cfg.prefixNb, (s.prefixes i).isused = true →
      prefixcmp (s.prefixes i).ipaddr ipaddr len = true →
      (∀ j < i, (s.prefixes j).isused = true →
        prefixcmp (s.prefixes j).ipaddr ipaddr len = false) →
      IsPrefix (s.prefixes i) ipaddr len
  | _ => True

/-- All calls of a sequence fit. -/
def RunFits : Ds6 → List Ds6Call → Prop
  | _, [] => True
  | s, call :: calls => s.Fits cfg call ∧ RunFits (s.step cfg call).2 calls

/-- All calls of a sequence are right. -/
def RunRight : Ds6 → List Ds6Call → Prop
  | _, [] => True
  | s, call :: calls => s.StepRight cfg call ∧ RunRight (s.step cfg call).2 calls

/-- All calls of a sequence meet the condition. -/
def RunCond : Ds6 → List Ds6Call → Prop
  | _, [] => True
  | s, call :: calls => s.CallCond cfg call ∧ RunCond (s.step cfg call).2 calls

/-! ## What always holds -/

/-- No address and no prefix is in a list twice. -/
structure Distinct : Prop where
  addrs : Once Ds6Addr.isused Ds6Addr.ipaddr cfg.addrNb s.addrs
  maddrs : Once Ds6Maddr.isused Ds6Maddr.ipaddr cfg.maddrNb s.maddrs
  prefixes : Once Ds6Prefix.isused (fun e => prefixKey e.ipaddr e.length) cfg.prefixNb s.prefixes

variable {cfg s} {ipaddr : UipIpaddr}

theorem prefixcmp_addr (a b : UipIpaddr) : prefixcmp a b 128 = true ↔ a = b := by
  have htake : ∀ addr : UipIpaddr, addr.1.take (128 / 8) = addr.1 := fun addr =>
    List.take_of_length_le (Nat.le_of_eq addr.2)
  rw [prefixcmp, decide_eq_true_eq, htake, htake, Subtype.ext_iff]

/-- Prefixes that are the same agree in their whole bytes. -/
theorem prefixcmp_of_key {a b : UipIpaddr} {len : ℕ} (h : prefixKey a len = prefixKey b len)
    (hlen : len ≤ 128) : prefixcmp a b len = true := by
  rw [prefixcmp, decide_eq_true_eq]
  have hbits : ∀ k < len, addrBit a k = addrBit b k := by
    intro k hk
    have hk' := congrFun (Prod.mk.inj h).2 k
    simpa [hk] using hk'
  apply List.ext_getElem
  · rw [List.length_take, List.length_take, a.2, b.2]
  · intro i hi _
    rw [List.length_take, a.2] at hi
    have hi16 : i < 16 := by omega
    rw [List.getElem_take, List.getElem_take]
    apply BitVec.eq_of_getLsbD_eq
    intro bit hbit
    have hsame := hbits (8 * i + (7 - bit)) (by omega)
    have hbyte : (8 * i + (7 - bit)) / 8 = i := by omega
    have hin : 7 - (8 * i + (7 - bit)) % 8 = bit := by omega
    rw [addrBit, addrBit, hbyte, hin, List.getD_eq_getElem?_getD, List.getD_eq_getElem?_getD,
      List.getElem?_eq_getElem (by rw [a.2]; exact hi16),
      List.getElem?_eq_getElem (by rw [b.2]; exact hi16)] at hsame
    exact hsame

/-- A multicast address is added, or is there. -/
theorem maddrAdd_spec (hdistinct : Once Ds6Maddr.isused Ds6Maddr.ipaddr cfg.maddrNb s.maddrs)
    (hfits : s.maddrLoop cfg ipaddr ≠ .nospace) :
    (s.maddrAdd cfg ipaddr).2.addrs = s.addrs ∧ (s.maddrAdd cfg ipaddr).2.prefixes = s.prefixes ∧
      (∀ j < cfg.maddrNb, (s.maddrs j).isused = true →
        (s.maddrAdd cfg ipaddr).2.maddrs j = s.maddrs j) ∧
      (∃ j < cfg.maddrNb, ((s.maddrAdd cfg ipaddr).2.maddrs j).isused = true ∧
        ((s.maddrAdd cfg ipaddr).2.maddrs j).ipaddr = ipaddr) ∧
      Once Ds6Maddr.isused Ds6Maddr.ipaddr cfg.maddrNb (s.maddrAdd cfg ipaddr).2.maddrs := by
  have hends := listLoop_ends (fun i => (s.maddrs i).isused) (fun i => (s.maddrs i).ipaddr) ipaddr
    128 cfg.maddrNb
  rw [maddrAdd]
  rw [maddrLoop] at hfits ⊢
  cases hloop : listLoop (fun i => (s.maddrs i).isused) (fun i => (s.maddrs i).ipaddr) ipaddr 128
      cfg.maddrNb with
  | nospace => exact absurd hloop hfits
  | found i =>
    rw [hloop] at hends
    obtain ⟨hi, hused, hcmp, _⟩ := hends
    exact ⟨rfl, rfl, fun _ _ _ => rfl, ⟨i, hi, hused, (prefixcmp_addr _ _).mp hcmp⟩, hdistinct⟩
  | freespace i =>
    rw [hloop] at hends
    obtain ⟨hi, hfree, hdiffers⟩ := hends
    refine ⟨rfl, rfl, fun j _ hused => ?_, ⟨i, hi, ?_⟩, hdistinct.update fun _ j hj hused hkey => ?_⟩
    · refine update_of_ne (fun hji => ?_) _ _
      rw [hji] at hused
      exact Bool.noConfusion (hused.symm.trans hfree)
    · simp only [update_self, and_self]
    · have hcmp := (prefixcmp_addr _ _).mpr hkey
      exact Bool.noConfusion (hcmp.symm.trans (hdiffers j hj hused))

/-- An address that is looked up among the multicast addresses. -/
theorem maddrLookup_eq_some {k : ℕ} (h : s.maddrLookup cfg ipaddr = some k) :
    k < cfg.maddrNb ∧ (s.maddrs k).isused = true ∧ (s.maddrs k).ipaddr = ipaddr := by
  have hends := listLoop_ends (fun i => (s.maddrs i).isused) (fun i => (s.maddrs i).ipaddr) ipaddr
    128 cfg.maddrNb
  rw [maddrLookup, maddrLoop] at h
  cases hloop : listLoop (fun i => (s.maddrs i).isused) (fun i => (s.maddrs i).ipaddr) ipaddr 128
      cfg.maddrNb with
  | found i =>
    rw [hloop] at h hends
    cases h
    exact ⟨hends.1, hends.2.1, (prefixcmp_addr _ _).mp hends.2.2.1⟩
  | freespace i =>
    rw [hloop] at h
    cases h
  | nospace =>
    rw [hloop] at h
    cases h

/-- A multicast address in use is found. -/
theorem maddrLookup_of_mem (hdistinct : s.Distinct cfg) {k : ℕ} (hk : k < cfg.maddrNb)
    (hused : (s.maddrs k).isused = true) (hipaddr : (s.maddrs k).ipaddr = ipaddr) :
    s.maddrLookup cfg ipaddr = some k := by
  have hends := listLoop_ends (fun i => (s.maddrs i).isused) (fun i => (s.maddrs i).ipaddr) ipaddr
    128 cfg.maddrNb
  have hcmp := (prefixcmp_addr _ _).mpr hipaddr
  rw [maddrLookup, maddrLoop]
  cases hloop : listLoop (fun i => (s.maddrs i).isused) (fun i => (s.maddrs i).ipaddr) ipaddr 128
      cfg.maddrNb with
  | found i =>
    rw [hloop] at hends
    have hi := (prefixcmp_addr _ _).mp hends.2.2.1
    exact congrArg some (hdistinct.maddrs i hends.1 k hk hends.2.1 hused (hi.trans hipaddr.symm))
  | freespace i =>
    rw [hloop] at hends
    exact Bool.noConfusion (hcmp.symm.trans (hends.2.2 k hk hused))
  | nospace =>
    rw [hloop] at hends
    exact Bool.noConfusion (hcmp.symm.trans (hends k hk).2)

/-! ## One call -/

theorem maddrs_maddrRm (s : Ds6) (k : ℕ) : (s.maddrRm (some k)).maddrs =
    update s.maddrs k { s.maddrs k with isused := false } := rfl

@[simp] theorem addrs_maddrRm (s : Ds6) (i : Option ℕ) : (s.maddrRm i).addrs = s.addrs := by
  cases i <;> rfl

theorem addrs_addrRm (cfg : Ds6Config) (s : Ds6) (i : ℕ) : (s.addrRm cfg (some i)).addrs =
    update s.addrs i { s.addrs i with isused := false } := by
  rw [addrRm]
  simp only [addrs_maddrRm]

/-- The lists once a multicast address is removed: the node listens to the others. -/
theorem listens_maddrRm {k : ℕ} (hdistinct : s.Distinct cfg) (hk : k < cfg.maddrNb)
    (hused : (s.maddrs k).isused = true) (addr : UipIpaddr) :
    (∃ j < cfg.maddrNb, ((s.maddrRm (some k)).maddrs j).isused = true ∧
        ((s.maddrRm (some k)).maddrs j).ipaddr = addr) ↔
      (∃ j < cfg.maddrNb, (s.maddrs j).isused = true ∧ (s.maddrs j).ipaddr = addr) ∧
        (s.maddrs k).ipaddr ≠ addr := by
  have hother : ∀ j ≠ k, (s.maddrRm (some k)).maddrs j = s.maddrs j :=
    fun j hj => update_of_ne hj _ _
  have hself : ((s.maddrRm (some k)).maddrs k).isused = false := by
    rw [maddrs_maddrRm, update_self]
  constructor
  · rintro ⟨j, hj, hjused, hjaddr⟩
    have hjk : j ≠ k := by
      rintro rfl
      exact Bool.noConfusion (hself.symm.trans hjused)
    rw [hother j hjk] at hjused hjaddr
    refine ⟨⟨j, hj, hjused, hjaddr⟩, fun hkaddr => hjk ?_⟩
    exact hdistinct.maddrs j hj k hk hjused hused (hjaddr.trans hkaddr.symm)
  · rintro ⟨⟨j, hj, hjused, hjaddr⟩, hne⟩
    have hjk : j ≠ k := by
      rintro rfl
      exact hne hjaddr
    refine ⟨j, hj, ?_, ?_⟩
    · rw [hother j hjk, hjused]
    · rw [hother j hjk, hjaddr]

section

variable (hdistinct : s.Distinct cfg)

include hdistinct

/-- An entry that is not in use any more is not in a list twice. -/
theorem distinct_maddrRm (i : Option ℕ) :
    (s.maddrRm i).Distinct cfg := by
  cases i with
  | none => exact hdistinct
  | some i =>
    exact ⟨hdistinct.addrs, hdistinct.maddrs.update fun h => Bool.noConfusion h, hdistinct.prefixes⟩

theorem distinct_addrRm (i : Option ℕ) :
    (s.addrRm cfg i).Distinct cfg := by
  cases i with
  | none => exact hdistinct
  | some i =>
    have hmaddr := distinct_maddrRm hdistinct
      (s.maddrLookup cfg (solicitedNode (s.addrs i).ipaddr))
    exact ⟨hmaddr.addrs.update fun h => Bool.noConfusion h, hmaddr.maddrs, hmaddr.prefixes⟩

/-- **An address is added.** -/
theorem addrAdd_right (hright : s.Right cfg) {vlifetime : ℕ}
    {type : Byte} (hfits : s.Fits cfg (.addrAdd ipaddr vlifetime type)) :
    (s.addrAdd cfg ipaddr vlifetime type).2.Distinct cfg ∧
      (s.addrAdd cfg ipaddr vlifetime type).2.Right cfg := by
  obtain ⟨hroom, hmaddrRoom⟩ := hfits
  have hends := listLoop_ends (fun i => (s.addrs i).isused) (fun i => (s.addrs i).ipaddr) ipaddr
    128 cfg.addrNb
  rw [addrAdd]
  cases hloop : s.addrLoop cfg ipaddr with
  | nospace => exact absurd hloop hroom
  | found i => exact ⟨hdistinct, hright⟩
  | freespace i =>
    rw [addrLoop] at hloop
    rw [hloop] at hends
    obtain ⟨hi, hfree, hdiffers⟩ := hends
    have honce : Once Ds6Addr.isused Ds6Addr.ipaddr cfg.addrNb
        (update s.addrs i ⟨true, ipaddr, type, vlifetime = 0, vlifetime⟩) := by
      refine hdistinct.addrs.update fun _ j hj hused hkey => ?_
      have hcmp := (prefixcmp_addr _ _).mpr hkey
      exact Bool.noConfusion (hcmp.symm.trans (hdiffers j hj hused))
    obtain ⟨haddrs, hprefixes, hkept, hadded, hmaddrs⟩ := @maddrAdd_spec cfg
      { s with addrs := update s.addrs i ⟨true, ipaddr, type, vlifetime = 0, vlifetime⟩ }
      (solicitedNode ipaddr) hdistinct.maddrs (hmaddrRoom ⟨i, hloop⟩)
    simp only
    refine ⟨⟨?_, hmaddrs, ?_⟩, ?_, fun j hj hused => ?_⟩
    · rw [haddrs]
      exact honce
    · rw [hprefixes]
      exact hdistinct.prefixes
    · rw [haddrs]
      exact honce
    · rw [haddrs] at hused ⊢
      by_cases hji : j = i
      · simp only [hji, update_self]
        exact hadded
      · simp only [update_of_ne hji] at hused ⊢
        obtain ⟨k, hk, hkused, hkaddr⟩ := hright.listens j hj hused
        refine ⟨k, hk, ?_, ?_⟩
        · rw [hkept k hk hkused]
          exact hkused
        · rw [hkept k hk hkused]
          exact hkaddr

/-- **An address is removed**: the node listens to the others if none of them shares its
solicited-node address. -/
theorem addrRm_right (hright : s.Right cfg) (i : ℕ) :
    (s.addrRm cfg (some i)).Right cfg ↔ s.CallCond cfg (.addrRm (some i)) := by
  have haddrs : ∀ j ≠ i, (s.addrRm cfg (some i)).addrs j = s.addrs j := by
    intro j hj
    rw [addrs_addrRm, update_of_ne hj]
  have hself : ((s.addrRm cfg (some i)).addrs i).isused = false := by
    rw [addrs_addrRm, update_self]
  have hlistens : ∀ j < cfg.addrNb, (s.addrs j).isused = true →
      ((∃ m < cfg.maddrNb, ((s.addrRm cfg (some i)).maddrs m).isused = true ∧
        ((s.addrRm cfg (some i)).maddrs m).ipaddr = solicitedNode (s.addrs j).ipaddr) ↔
      solicitedNode (s.addrs j).ipaddr ≠ solicitedNode (s.addrs i).ipaddr) := by
    intro j hj hused
    obtain ⟨m, hm, hmused, hmaddr⟩ := hright.listens j hj hused
    cases hlookup : s.maddrLookup cfg (solicitedNode (s.addrs i).ipaddr) with
    | none =>
      have hmaddrs : (s.addrRm cfg (some i)).maddrs = s.maddrs := by
        rw [addrRm, hlookup]
        rfl
      rw [hmaddrs]
      refine iff_of_true ⟨m, hm, hmused, hmaddr⟩ fun hsame => ?_
      rw [maddrLookup_of_mem hdistinct hm hmused (hmaddr.trans hsame)] at hlookup
      cases hlookup
    | some k =>
      obtain ⟨hk, hkused, hkaddr⟩ := maddrLookup_eq_some hlookup
      have hmaddrs : (s.addrRm cfg (some i)).maddrs = (s.maddrRm (some k)).maddrs := by
        rw [addrRm, hlookup]
      rw [hmaddrs, listens_maddrRm hdistinct hk hkused, hkaddr]
      exact ⟨fun h => h.2.symm, fun h => ⟨⟨m, hm, hmused, hmaddr⟩, h.symm⟩⟩
  constructor
  · intro hright' j hj hji hused
    have hused' : ((s.addrRm cfg (some i)).addrs j).isused = true := by
      rw [haddrs j hji]
      exact hused
    have hlisten := hright'.listens j hj hused'
    rw [haddrs j hji] at hlisten
    exact (hlistens j hj hused).mp hlisten
  · intro hcond
    refine ⟨(distinct_addrRm hdistinct (some i)).addrs, fun j hj hused => ?_⟩
    have hji : j ≠ i := by
      rintro rfl
      exact Bool.noConfusion (hself.symm.trans hused)
    rw [haddrs j hji] at hused ⊢
    exact (hlistens j hj hused).mpr (hcond j hj hji hused)

/-- **A multicast address is removed**: the node listens to its addresses if it is that of none. -/
theorem maddrRm_right (hright : s.Right cfg) {i : ℕ}
    (hi : i < cfg.maddrNb) :
    (s.maddrRm (some i)).Right cfg ↔ s.CallCond cfg (.maddrRm (some i)) := by
  cases hused : (s.maddrs i).isused with
  | true =>
    constructor
    · intro hright' _ j hj hjused
      have hlisten := (listens_maddrRm hdistinct hi hused _).mp (hright'.listens j hj hjused)
      exact hlisten.2.symm
    · intro hcond
      refine ⟨hright.once, fun j hj hjused => ?_⟩
      exact (listens_maddrRm hdistinct hi hused _).mpr
        ⟨hright.listens j hj hjused, (hcond hused j hj hjused).symm⟩
  | false =>
    refine iff_of_true ⟨hright.once, fun j hj hjused => ?_⟩ fun h => ?_
    · obtain ⟨m, hm, hmused, hmaddr⟩ := hright.listens j hj hjused
      have hmi : m ≠ i := by
        rintro rfl
        exact Bool.noConfusion (hused.symm.trans hmused)
      have hother : (s.maddrRm (some i)).maddrs m = s.maddrs m := update_of_ne hmi _ _
      refine ⟨m, hm, ?_, ?_⟩
      · rw [hother, hmused]
      · rw [hother, hmaddr, addrs_maddrRm]
    · exact Bool.noConfusion (hused.symm.trans h)

end

/-- The entry of a prefix agrees in the whole bytes. -/
theorem IsPrefix.prefixcmp {e : Ds6Prefix} {len : ℕ} (h : IsPrefix e ipaddr len)
    (hlen : len ≤ 128) : prefixcmp e.ipaddr ipaddr len = true := by
  have hkey := h.2
  have hlength : e.length = len := (Prod.mk.inj hkey).1
  rw [hlength] at hkey
  exact prefixcmp_of_key hkey hlen

/-- **A prefix is added**, unless it is there. -/
theorem prefixAdd_right (hdistinct : s.Distinct cfg) {len vtime ptime : ℕ} {advertise flags : Byte}
    (hfits : s.Fits cfg (.prefixAdd ipaddr len advertise flags vtime ptime)) :
    (s.prefixAdd cfg ipaddr len advertise flags vtime ptime).2.Distinct cfg ∧
      (s.ResultRight cfg (s.prefixAdd cfg ipaddr len advertise flags vtime ptime).2
          (s.prefixAdd cfg ipaddr len advertise flags vtime ptime).1
          (.prefixAdd ipaddr len advertise flags vtime ptime) ↔
        s.CallCond cfg (.prefixAdd ipaddr len advertise flags vtime ptime)) := by
  obtain ⟨hlen, hroom⟩ := hfits
  have hends := listLoop_ends (fun i => (s.prefixes i).isused) (fun i => (s.prefixes i).ipaddr)
    ipaddr len cfg.prefixNb
  rw [prefixAdd]
  cases hloop : s.prefixLoop cfg ipaddr len with
  | nospace => exact absurd hloop hroom
  | found i =>
    rw [prefixLoop] at hloop
    rw [hloop] at hends
    refine ⟨hdistinct, fun hright _ => ?_, fun hcond hnone => ?_⟩
    · by_contra hnot
      obtain ⟨j, _, hresult, _⟩ := hright fun j hj h => hnot ⟨j, hj, h⟩
      cases hresult
    · obtain ⟨j, hj, h⟩ := hcond ⟨i, hends.1, hends.2.1, hends.2.2.1⟩
      exact absurd h (hnone j hj)
  | freespace i =>
    rw [prefixLoop] at hloop
    rw [hloop] at hends
    obtain ⟨hi, hfree, hdiffers⟩ := hends
    refine ⟨⟨hdistinct.addrs, hdistinct.maddrs, ?_⟩, iff_of_true ?_ ?_⟩
    · refine hdistinct.prefixes.update fun _ j hj hused hkey => ?_
      have hcmp := IsPrefix.prefixcmp ⟨hused, hkey⟩ hlen
      exact Bool.noConfusion (hcmp.symm.trans (hdiffers j hj hused))
    · exact fun _ => ⟨i, hi, rfl, hfree, rfl⟩
    · rintro ⟨j, hj, hused, hcmp⟩
      exact Bool.noConfusion (hcmp.symm.trans (hdiffers j hj hused))

/-- **A prefix is looked up.** -/
theorem prefixLookup_right (hdistinct : s.Distinct cfg) {len : ℕ} (hlen : len ≤ 128) (s' : Ds6) :
    s.ResultRight cfg s' (lookup (s.prefixLoop cfg ipaddr len)) (.prefixLookup ipaddr len) ↔
      s.CallCond cfg (.prefixLookup ipaddr len) := by
  have hends := listLoop_ends (fun i => (s.prefixes i).isused) (fun i => (s.prefixes i).ipaddr)
    ipaddr len cfg.prefixNb
  -- nothing is found that is not there
  have hnone : (∀ j < cfg.prefixNb, (s.prefixes j).isused = true →
      Ipv6.prefixcmp (s.prefixes j).ipaddr ipaddr len = false) →
      (s.ResultRight cfg s' none (.prefixLookup ipaddr len) ↔
        s.CallCond cfg (.prefixLookup ipaddr len)) := by
    intro hdiffers
    refine iff_of_true (fun i => iff_of_false (Option.some_ne_none i).symm ?_) ?_
    · rintro ⟨hi, h⟩
      exact Bool.noConfusion ((h.prefixcmp hlen).symm.trans (hdiffers i hi h.1))
    · intro i hi hused hcmp
      exact Bool.noConfusion (hcmp.symm.trans (hdiffers i hi hused))
  rw [prefixLoop]
  cases hloop : listLoop (fun i => (s.prefixes i).isused) (fun i => (s.prefixes i).ipaddr) ipaddr
      len cfg.prefixNb with
  | nospace =>
    rw [hloop] at hends
    exact hnone fun j hj _ => (hends j hj).2
  | freespace i =>
    rw [hloop] at hends
    exact hnone hends.2.2
  | found i =>
    rw [hloop] at hends
    obtain ⟨hi, hused, hcmp, hfirst⟩ := hends
    constructor
    · intro hright j hj hjused hjcmp hjfirst
      have hij : i = j := by
        rcases Nat.lt_trichotomy i j with hlt | heq | hgt
        · exact Bool.noConfusion (hcmp.symm.trans (hjfirst i hlt hused))
        · exact heq
        · exact Bool.noConfusion (hjcmp.symm.trans (hfirst j hgt hjused))
      subst hij
      exact ((hright i).mp rfl).2
    · intro hcond j
      have hequal := hcond i hi hused hcmp hfirst
      constructor
      · rintro ⟨⟩
        exact ⟨hi, hequal⟩
      · rintro ⟨hj, h⟩
        exact congrArg some (hdistinct.prefixes i hi j hj hused h.1 (hequal.2.trans h.2.symm))

/-- **One call** of lists that are right: it is right exactly under the condition. -/
theorem step_right (hdistinct : s.Distinct cfg) (hright : s.Right cfg) {call : Ds6Call}
    (hfits : s.Fits cfg call) :
    (s.step cfg call).2.Distinct cfg ∧ (s.StepRight cfg call ↔ s.CallCond cfg call) := by
  cases call with
  | addrAdd ipaddr vlifetime type =>
    obtain ⟨hdistinct', hright'⟩ := addrAdd_right hdistinct hright hfits
    exact ⟨hdistinct', iff_of_true ⟨hright', trivial⟩ trivial⟩
  | addrRm i =>
    refine ⟨distinct_addrRm hdistinct i, ?_⟩
    cases i with
    | none => exact iff_of_true ⟨hright, trivial⟩ trivial
    | some i => exact (and_iff_left trivial).trans (addrRm_right hdistinct hright i)
  | addrLookup ipaddr => exact ⟨hdistinct, iff_of_true ⟨hright, trivial⟩ trivial⟩
  | maddrAdd ipaddr =>
    obtain ⟨haddrs, hprefixes, hkept, _, hmaddrs⟩ := maddrAdd_spec hdistinct.maddrs hfits
    refine ⟨⟨?_, hmaddrs, ?_⟩, iff_of_true ⟨⟨?_, fun j hj hused => ?_⟩, trivial⟩ trivial⟩
    · rw [step, haddrs]
      exact hdistinct.addrs
    · rw [step, hprefixes]
      exact hdistinct.prefixes
    · rw [step, haddrs]
      exact hdistinct.addrs
    · rw [step, haddrs] at hused ⊢
      obtain ⟨k, hk, hkused, hkaddr⟩ := hright.listens j hj hused
      refine ⟨k, hk, ?_, ?_⟩
      · rw [hkept k hk hkused]
        exact hkused
      · rw [hkept k hk hkused]
        exact hkaddr
  | maddrRm i =>
    refine ⟨distinct_maddrRm hdistinct i, ?_⟩
    cases i with
    | none => exact iff_of_true ⟨hright, trivial⟩ trivial
    | some i => exact (and_iff_left trivial).trans (maddrRm_right hdistinct hright (hfits i rfl))
  | maddrLookup ipaddr => exact ⟨hdistinct, iff_of_true ⟨hright, trivial⟩ trivial⟩
  | prefixAdd ipaddr len advertise flags vtime ptime =>
    obtain ⟨hdistinct', hresult⟩ := prefixAdd_right hdistinct hfits
    have hright' : (s.prefixAdd cfg ipaddr len advertise flags vtime ptime).2.Right cfg := by
      rw [prefixAdd]
      split
      · exact ⟨hright.once, hright.listens⟩
      · exact hright
    exact ⟨hdistinct', (and_iff_right hright').trans hresult⟩
  | prefixRm i =>
    cases i with
    | none => exact ⟨hdistinct, iff_of_true ⟨hright, trivial⟩ trivial⟩
    | some i =>
      have honce : Once Ds6Prefix.isused (fun e => prefixKey e.ipaddr e.length) cfg.prefixNb
          (update s.prefixes i { s.prefixes i with isused := false }) :=
        hdistinct.prefixes.update fun h => Bool.noConfusion h
      exact ⟨⟨hdistinct.addrs, hdistinct.maddrs, honce⟩,
        iff_of_true ⟨⟨hright.once, hright.listens⟩, trivial⟩ trivial⟩
  | prefixLookup ipaddr len =>
    exact ⟨hdistinct, (and_iff_right hright).trans (prefixLookup_right hdistinct hfits s)⟩

theorem distinct_init (cfg : Ds6Config) : init.Distinct cfg :=
  ⟨fun _ _ _ _ h => Bool.noConfusion h, fun _ _ _ _ h => Bool.noConfusion h,
    fun _ _ _ _ h => Bool.noConfusion h⟩

theorem right_init (cfg : Ds6Config) : init.Right cfg :=
  ⟨(distinct_init cfg).addrs, fun _ _ h => Bool.noConfusion h⟩

/-- **A sequence of calls** from lists that are right. -/
theorem run_right : ∀ {calls : List Ds6Call} {s : Ds6}, s.Distinct cfg → s.Right cfg →
    RunFits cfg s calls → (RunRight cfg s calls ↔ RunCond cfg s calls) := by
  intro calls
  induction calls with
  | nil =>
    intro s _ _ _
    exact Iff.rfl
  | cons call calls ih =>
    rintro s hdistinct hright ⟨hfits, hrest⟩
    obtain ⟨hdistinct', hstep⟩ := step_right hdistinct hright hfits
    constructor
    · rintro ⟨hnow, hlater⟩
      exact ⟨hstep.mp hnow, (ih hdistinct' hnow.1 hrest).mp hlater⟩
    · rintro ⟨hnow, hlater⟩
      have hnow := hstep.mpr hnow
      exact ⟨hnow, (ih hdistinct' hnow.1 hrest).mpr hlater⟩

end Ds6

/-! ## The theorem -/

/-- **A sequence of calls is right** exactly if each of its calls meets the condition: in each state
that is reached, an address in use occurs once and the node listens to its solicited-node address,
each lookup finds the entry of its prefix, and each prefix is added unless it is there. -/
theorem ds6_lists (cfg : Ds6Config) (calls : List Ds6Call) (hfits : Ds6.RunFits cfg Ds6.init calls) :
    Ds6.RunRight cfg Ds6.init calls ↔ Ds6.RunCond cfg Ds6.init calls :=
  Ds6.run_right (Ds6.distinct_init cfg) (Ds6.right_init cfg) hfits

/-! ## Calls -/

/-- Room for three addresses, five multicast addresses and three prefixes. -/
def routerLists : Ds6Config := ⟨3, 5, 3⟩

/-- `fd00::k` and `fe80::k` -/
def globalAddr (k : Byte) : UipIpaddr := ⟨[0xFD] ++ List.replicate 14 0 ++ [k], rfl⟩

def linkLocalAddr (k : Byte) : UipIpaddr := ⟨[0xFE, 0x80] ++ List.replicate 13 0 ++ [k], rfl⟩

/-- Two addresses that share nothing, of which one is removed, and a prefix that is looked up. -/
def separateCalls : List Ds6Call :=
  [.addrAdd (globalAddr 1) 0 1, .addrAdd (linkLocalAddr 2) 0 1, .addrRm (some 2),
    .prefixAdd (globalAddr 0) 64 0 0 0 0, .prefixLookup (globalAddr 0) 64]

theorem ds6_lists_separate : Ds6.RunRight routerLists Ds6.init separateCalls := by
  refine (ds6_lists routerLists separateCalls ?_).mpr ?_
  · exact ⟨⟨by decide, fun _ => by decide⟩, ⟨by decide, fun _ => by decide⟩,
      fun j hj => by cases hj; decide, ⟨by decide, by decide⟩,
      (by decide : 64 ≤ 128), trivial⟩
  · refine ⟨trivial, trivial, ?_, ?_, ?_, trivial⟩
    · have hshared : ∀ j < 3, j ≠ 2 →
          (((Ds6.init.step routerLists (.addrAdd (globalAddr 1) 0 1)).2.step routerLists
            (.addrAdd (linkLocalAddr 2) 0 1)).2.addrs j).isused = true →
          solicitedNode (((Ds6.init.step routerLists (.addrAdd (globalAddr 1) 0 1)).2.step
            routerLists (.addrAdd (linkLocalAddr 2) 0 1)).2.addrs j).ipaddr ≠
          solicitedNode (((Ds6.init.step routerLists (.addrAdd (globalAddr 1) 0 1)).2.step
            routerLists (.addrAdd (linkLocalAddr 2) 0 1)).2.addrs 2).ipaddr := by
        decide
      exact hshared
    · rintro ⟨i, hi, hused, _⟩
      exact Bool.noConfusion hused
    · intro i hi hused _ _
      have hfree : ∀ i < 3, ((Ds6.init.step routerLists
          (.prefixAdd (globalAddr 0) 64 0 0 0 0)).2.prefixes i).isused = true → i = 2 := by decide
      rw [hfree i hi hused]
      exact ⟨rfl, rfl⟩

/-- Two addresses with the same last bytes, of which one is removed: the node does not listen to the
other one any more. And `fd00::/64` is in the way of `fd00::/48`. -/
theorem ds6_lists_fails :
    Ds6.RunFits routerLists Ds6.init
        [.addrAdd (globalAddr 1) 0 1, .addrAdd (linkLocalAddr 1) 0 1, .addrRm (some 2)] ∧
      ¬ Ds6.RunRight routerLists Ds6.init
        [.addrAdd (globalAddr 1) 0 1, .addrAdd (linkLocalAddr 1) 0 1, .addrRm (some 2)] ∧
      Ds6.RunFits routerLists Ds6.init
        [.prefixAdd (globalAddr 0) 64 0 0 0 0, .prefixAdd (globalAddr 0) 48 0 0 0 0] ∧
      ¬ Ds6.RunRight routerLists Ds6.init
        [.prefixAdd (globalAddr 0) 64 0 0 0 0, .prefixAdd (globalAddr 0) 48 0 0 0 0] := by
  have hfits : Ds6.RunFits routerLists Ds6.init
      [.addrAdd (globalAddr 1) 0 1, .addrAdd (linkLocalAddr 1) 0 1, .addrRm (some 2)] :=
    ⟨⟨by decide, fun _ => by decide⟩, ⟨by decide, fun _ => by decide⟩,
      fun j hj => by cases hj; decide, trivial⟩
  have hfits' : Ds6.RunFits routerLists Ds6.init
      [.prefixAdd (globalAddr 0) 64 0 0 0 0, .prefixAdd (globalAddr 0) 48 0 0 0 0] :=
    ⟨⟨by decide, by decide⟩, ⟨by decide, by decide⟩, trivial⟩
  refine ⟨hfits, fun hright => ?_, hfits', fun hright => ?_⟩
  · obtain ⟨_, _, hcond, _⟩ :=
      (Ds6.run_right (Ds6.distinct_init _) (Ds6.right_init _) hfits).mp hright
    exact hcond 1 (by decide) (by decide) (by decide) (by decide)
  · obtain ⟨_, ⟨_, hresult⟩, _⟩ := hright
    have hother : ∀ i < 3, ((Ds6.init.step routerLists
        (.prefixAdd (globalAddr 0) 64 0 0 0 0)).2.prefixes i).isused = true →
        ((Ds6.init.step routerLists
          (.prefixAdd (globalAddr 0) 64 0 0 0 0)).2.prefixes i).length ≠ 48 := by decide
    obtain ⟨i, _, hi, _⟩ := hresult fun i hi h => hother i hi h.1 (Prod.mk.inj h.2).1
    exact Option.some_ne_none i hi.symm

end Asap.Ipv6
