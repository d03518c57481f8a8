import Asap.Ipv6.Uipbuf

/-!
# The chain of headers

From the header of a packet on, each header names the next. `uipbuf_get_last_header` follows the
chain to the header of the upper layer, and `uip_process` follows it again, header by header.

## Main definitions

* `uipbufGetLastHeader` — the header of the upper layer.
* `InChain` — the headers that are met on the way.
-/

namespace Asap.Ipv6

open Lib

section

variable (buf : ℕ → Byte) (size : ℕ)

/-- The loop of `uipbuf_get_last_header`. -/
def lastLoop : ℕ → Byte × Option ℕ → Byte × Option ℕ
  | 0, found => found
  | fuel + 1, (protocol, some pos) =>
    if uipIsProtoExtHdr protocol then
      lastLoop fuel (uipbufGetNextHeader buf pos (size - pos) false)
    else (protocol, some pos)
  | _ + 1, (protocol, none) => (protocol, none)

/-- `uipbuf_get_last_header`; a header has eight bytes at least, so the loop ends before the packet
does. -/
def uipbufGetLastHeader : Byte × Option ℕ :=
  lastLoop buf size size (uipbufGetNextHeader buf 0 size true)

/-- A header is met along the chain. -/
inductive InChain : Byte → ℕ → Prop
  | first {protocol : Byte} {pos : ℕ}
      (h : uipbufGetNextHeader buf 0 size true = (protocol, some pos)) :
      InChain protocol pos
  | next {protocol protocol' : Byte} {pos pos' : ℕ} (h : InChain protocol pos)
      (hext : uipIsProtoExtHdr protocol = true)
      (hnext : uipbufGetNextHeader buf pos (size - pos) false = (protocol', some pos')) :
      InChain protocol' pos'

end

section

variable {buf : ℕ → Byte} {size pos pos' fuel : ℕ} {protocol protocol' : Byte}

theorem four_le_upperHdrLen (protocol : Byte) : 4 ≤ upperHdrLen protocol := by
  unfold upperHdrLen
  split_ifs <;> decide

/-- A header that is found is behind the one before it, and inside the packet. -/
theorem getNextHeader_spec {start : Bool}
    (h : uipbufGetNextHeader buf pos size start = (protocol, some pos')) :
    pos' = pos + (if start then 40 else (buf (pos + 1)).toNat * 8 + 8) ∧ pos' + 4 ≤ pos + size := by
  obtain ⟨cur, hcur⟩ : ∃ cur, (if start = true then 40 else (buf (pos + 1)).toNat * 8 + 8) = cur :=
    ⟨_, rfl⟩
  obtain ⟨proto, hproto⟩ : ∃ proto, (if start = true then buf (pos + 6) else buf pos) = proto :=
    ⟨_, rfl⟩
  obtain ⟨len, hlen⟩ : ∃ len, (if uipIsProtoExtHdr proto = true then
      (buf (pos + cur + 1)).toNat * 8 + 8 else upperHdrLen proto) = len := ⟨_, rfl⟩
  have hfour : 4 ≤ len := by
    rw [← hlen]
    by_cases hext : uipIsProtoExtHdr proto = true
    · rw [if_pos hext]
      omega
    · rw [if_neg hext]
      exact four_le_upperHdrLen proto
  simp only [uipbufGetNextHeader, uipIphLen, hcur, hproto, hlen] at h ⊢
  by_cases hshort : size < cur
  · rw [if_pos hshort] at h
    exact absurd (congrArg Prod.snd h) (Option.some_ne_none pos').symm
  · rw [if_neg hshort] at h
    by_cases hnone : len = 0 ∨ size < cur + len
    · rw [if_pos hnone] at h
      exact absurd (congrArg Prod.snd h) (Option.some_ne_none pos').symm
    · rw [if_neg hnone] at h
      have hpos : pos + cur = pos' := Option.some.inj (congrArg Prod.snd h)
      omega

/-- A header behind another one. -/
theorem next_spec (h : uipbufGetNextHeader buf pos size false = (protocol, some pos')) :
    pos + 8 ≤ pos' ∧ pos' + 4 ≤ pos + size := by
  have hspec := getNextHeader_spec h
  rw [if_neg Bool.false_ne_true] at hspec
  omega

/-- The first header. -/
theorem first_spec (h : uipbufGetNextHeader buf 0 size true = (protocol, some pos)) :
    pos = 40 ∧ 44 ≤ size := by
  have hspec := getNextHeader_spec h
  rw [if_pos rfl] at hspec
  omega

theorem InChain.bounds (h : InChain buf size protocol pos) : 40 ≤ pos ∧ pos + 4 ≤ size := by
  induction h with
  | first hfirst =>
    obtain ⟨rfl, hsize⟩ := first_spec hfirst
    exact ⟨Nat.le_refl 40, hsize⟩
  | next _ _ hnext ih =>
    have hspec := next_spec hnext
    omega

/-- Where the loop ends is behind where it is. -/
theorem le_of_lastLoop (h : lastLoop buf size fuel (protocol, some pos) = (protocol', some pos')) :
    pos ≤ pos' := by
  induction fuel generalizing protocol pos with
  | zero => exact Nat.le_of_eq (Option.some.inj (congrArg Prod.snd h))
  | succ fuel ih =>
    rw [lastLoop] at h
    split_ifs at h with hext
    · cases hnext : uipbufGetNextHeader buf pos (size - pos) false with
      | mk p found =>
        rw [hnext] at h
        cases found with
        | none =>
          exfalso
          cases fuel <;> exact absurd (congrArg Prod.snd h) (Option.some_ne_none pos').symm
        | some next =>
          have hspec := next_spec hnext
          have hle := ih h
          omega
    · exact Nat.le_of_eq (Option.some.inj (congrArg Prod.snd h))

/-- The loop passes every header of the chain. -/
theorem InChain.passed (h : InChain buf size protocol pos) :
    ∃ fuel, size ≤ fuel + pos ∧
      uipbufGetLastHeader buf size = lastLoop buf size fuel (protocol, some pos) := by
  induction h with
  | first hfirst =>
    refine ⟨size, Nat.le_add_right _ _, ?_⟩
    rw [uipbufGetLastHeader, hfirst]
  | @next protocol protocol' pos pos' hchain hext hnext ih =>
    obtain ⟨fuel, hfuel, hlast⟩ := ih
    have hspec := next_spec hnext
    have hbounds := hchain.bounds
    cases fuel with
    | zero => omega
    | succ fuel =>
      refine ⟨fuel, by omega, ?_⟩
      rw [hlast, lastLoop, if_pos hext, hnext]

/-- **The last header** is behind every extension header of the chain. -/
theorem InChain.lt_last (h : InChain buf size protocol pos) (hext : uipIsProtoExtHdr protocol = true)
    (hlast : uipbufGetLastHeader buf size = (protocol', some pos')) : pos + 8 ≤ pos' := by
  obtain ⟨fuel, hfuel, hpassed⟩ := h.passed
  have hbounds := h.bounds
  rw [hpassed] at hlast
  cases fuel with
  | zero => omega
  | succ fuel =>
    rw [lastLoop, if_pos hext] at hlast
    cases hnext : uipbufGetNextHeader buf pos (size - pos) false with
    | mk p found =>
      rw [hnext] at hlast
      cases found with
      | none =>
        exfalso
        cases fuel <;> exact absurd (congrArg Prod.snd hlast) (Option.some_ne_none pos').symm
      | some next =>
        have hspec := next_spec hnext
        have hle := le_of_lastLoop hlast
        omega

end

end Asap.Ipv6
