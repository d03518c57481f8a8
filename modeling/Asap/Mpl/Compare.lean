import Mathlib.Data.List.Basic
import Mathlib.Tactic.Common

/-!
# A buffered set and a bit vector

A seed's messages are announced by the least sequence number and a vector with a bit for each
number from it on. A node compares its own messages with the vector: a cursor in the list and a
cursor in the vector are brought to the same number, and go on together. The cursor in the vector
has eight bits, and so has the length of the vector in bits.

The bits that are looked at are traced, from whatever memory they come.

## Main definitions

* `compareSeed` — what is missing on either side, and whose timers are restarted.
* `VectorFits` — the vectors in which only bits below a limit are looked at.
-/

namespace Asap.Mpl

open List

/-- A message of a seed, by its place in `buffered_message_set`, with its number. -/
structure MplMsg where
  ptr : ℕ
  seq : BitVec 8
deriving DecidableEq

/-- `SEQ_VAL_IS_GT` -/
def seqValIsGt (i₁ i₂ : BitVec 8) : Bool :=
  i₁ ≠ i₂ ∧ ((i₁.toNat < i₂.toNat ∧ i₂.toNat - i₁.toNat > 0x100) ∨
    (i₂.toNat < i₁.toNat ∧ i₁.toNat - i₂.toNat < 0x100))

theorem seqValIsGt_iff {i₁ i₂ : BitVec 8} : seqValIsGt i₁ i₂ = true ↔ i₂.toNat < i₁.toNat := by
  rw [seqValIsGt, decide_eq_true_eq]
  have h₁ := i₁.isLt
  have h₂ := i₂.isLt
  constructor
  · rintro ⟨-, ⟨-, hgap⟩ | ⟨hlt, -⟩⟩
    · omega
    · exact hlt
  · intro hlt
    refine ⟨fun heq => ?_, Or.inr ⟨hlt, by omega⟩⟩
    rw [heq] at hlt
    exact Nat.lt_irrefl _ hlt

/-- What a comparison finds: whether a message is missing here or there, the messages whose timers
are restarted, and the bits that it has looked at. -/
structure Compared where
  lMissing : Bool
  rMissing : Bool
  restarted : List ℕ
  bits : List ℕ

/-- Nothing is found. -/
def Compared.none : Compared := ⟨false, false, [], []⟩

/-- Both are found, one after the other. -/
def Compared.append (c c' : Compared) : Compared where
  lMissing := c.lMissing || c'.lMissing
  rMissing := c.rMissing || c'.rMissing
  restarted := c.restarted ++ c'.restarted
  bits := c.bits ++ c'.bits

section

variable (minSeqno vectorLen : BitVec 8) (bit : ℕ → Bool)

/-! ## The offsets of the two sets -/

/-- The offset in the vector of a message that comes later than its start. -/
def seekRemote (seq : BitVec 8) : ℕ → BitVec 8 → BitVec 8
  | 0, r => r
  | fuel + 1, r =>
    if seq ≠ minSeqno + r ∧ r ≤ vectorLen then seekRemote seq fuel (r + 1) else r

/-- Where the two sets begin to overlap: the messages from there on, and the offset. -/
def overlapStart : List MplMsg → Option (List MplMsg × BitVec 8)
  | [] => none
  | head :: rest =>
    if head.seq = minSeqno then some (head :: rest, 0)
    else if seqValIsGt head.seq minSeqno then
      let r := seekRemote minSeqno vectorLen head.seq 256 0
      if vectorLen < r then none else some (head :: rest, r)
    else
      match (head :: rest).dropWhile fun msg => msg.seq ≠ minSeqno with
      | [] => none
      | rest => some (rest, 0)

/-! ## Sets without overlap -/

/-- The last bit of the vector, searched downwards; the search goes on until there is one. -/
def lastBit : ℕ → BitVec 8 → Option (BitVec 8 × List ℕ)
  | 0, _ => none
  | fuel + 1, r =>
    if bit r.toNat then some (r, [r.toNat])
    else (lastBit fuel (r - 1)).map fun (last, bits) => (last, r.toNat :: bits)

/-- There is no overlap: the set whose last number is less misses the other's. -/
def noOverlap (fuel : ℕ) (msgs : List MplMsg) : Option Compared :=
  (lastBit bit fuel vectorLen).map fun (r, bits) =>
    if seqValIsGt ((msgs.getLast?.map MplMsg.seq).getD 0) (minSeqno + r) then
      ⟨false, true, msgs.map MplMsg.ptr, bits⟩
    else ⟨true, false, [], bits⟩

/-! ## Sets that overlap -/

/-- The cursor in the vector is brought to a message. Bits on the way are messages that are missing
here. -/
def resync (seq : BitVec 8) : ℕ → BitVec 8 → BitVec 8 × Compared
  | 0, r => (r, .none)
  | fuel + 1, r =>
    if seq = minSeqno + r then (r, .none)
    else
      let (r', found) := resync seq fuel (r + 1)
      (r', Compared.append ⟨bit r.toNat, false, [], [r.toNat]⟩ found)

/-- The rest of the vector. -/
def tail : ℕ → BitVec 8 → Compared
  | 0, _ => .none
  | fuel + 1, r =>
    if r < vectorLen then
      Compared.append ⟨bit r.toNat, false, [], [r.toNat]⟩ (tail fuel (r + 1))
    else .none

/-- The messages from one on are compared with the vector. Where the list is left with messages in
it, it is still the rest of the vector that is looked at: the branch for the rest of the list is
never taken. -/
def overlap : List MplMsg → BitVec 8 → Compared
  | [], _ => .none
  | msg :: rest, r =>
    let (r, gap) := resync minSeqno bit msg.seq 256 r
    let here : Compared :=
      if bit r.toNat then ⟨false, false, [], [r.toNat]⟩
      else ⟨false, true, [msg.ptr], [r.toNat]⟩
    (gap.append here).append
      (if rest ≠ [] ∧ r + 1 ≤ vectorLen then overlap rest (r + 1)
      else tail vectorLen bit 256 (r + 1))

/-- The part of `icmp_in` for a seed that both have. -/
def compareSeed (fuel : ℕ) (msgs : List MplMsg) : Option Compared :=
  match msgs with
  | [] => some ⟨(List.range 8).any bit, false, [], List.range 8⟩
  | head :: rest =>
    match overlapStart minSeqno vectorLen (head :: rest) with
    | none => noOverlap minSeqno vectorLen bit fuel (head :: rest)
    | some (msgs, r) => some (overlap minSeqno vectorLen bit msgs r)

end

/-! ## The bits that are looked at -/

section

variable {minSeqno vectorLen r r' : BitVec 8} {bit : ℕ → Bool} {limit fuel : ℕ}

/-- The offsets of the messages that are come to are below a limit, and the cursor does not pass
the end of eight bits unless the limit is behind it; the vector ends below the limit unless the
cursor has passed it. -/
def OffsetsFit (minSeqno vectorLen : BitVec 8) (limit : ℕ) : List MplMsg → BitVec 8 → Prop
  | [], _ => True
  | msg :: rest, r =>
    let r' := msg.seq - minSeqno
    r'.toNat < limit ∧ (r ≤ r' ∨ 256 ≤ limit) ∧
      if rest ≠ [] ∧ r' + 1 ≤ vectorLen then OffsetsFit minSeqno vectorLen limit rest (r' + 1)
      else r' + 1 < vectorLen → vectorLen.toNat ≤ limit

/-- The vectors in which only bits below a limit are looked at. -/
def VectorFits (minSeqno vectorLen : BitVec 8) (bit : ℕ → Bool) (limit : ℕ)
    (msgs : List MplMsg) : Prop :=
  match msgs with
  | [] => 8 ≤ limit
  | head :: rest =>
    match overlapStart minSeqno vectorLen (head :: rest) with
    | none => (vectorLen.toNat < limit ∧ ∃ i ≤ vectorLen.toNat, bit i) ∨
        (256 ≤ limit ∧ ∃ i < 256, bit i)
    | some (msgs, r) => OffsetsFit minSeqno vectorLen limit msgs r

/-- The cursor comes to the offset of the message, and the bits on the way are those between. -/
theorem resync_spec (minSeqno : BitVec 8) (bit : ℕ → Bool) (seq r : BitVec 8)
    (hfuel : ((seq - minSeqno) - r).toNat < fuel) :
    (resync minSeqno bit seq fuel r).1 = seq - minSeqno ∧
      (resync minSeqno bit seq fuel r).2.bits =
        (range ((seq - minSeqno) - r).toNat).map fun i => (r + BitVec.ofNat 8 i).toNat := by
  induction fuel generalizing r with
  | zero => exact absurd hfuel (Nat.not_lt_zero _)
  | succ fuel ih =>
    rw [resync]
    by_cases heq : seq = minSeqno + r
    · have hoff : seq - minSeqno = r := by
        rw [heq, BitVec.add_comm, BitVec.add_sub_cancel]
      rw [if_pos heq, hoff, BitVec.sub_self]
      exact ⟨rfl, rfl⟩
    · rw [if_neg heq]
      have hne : (seq - minSeqno) - r ≠ 0 := by
        intro hzero
        apply heq
        have hoff : seq - minSeqno = r := by
          have hadd := congrArg (· + r) hzero
          simpa [BitVec.sub_add_cancel] using hadd
        rw [← hoff, BitVec.add_comm, BitVec.sub_add_cancel]
      have hstep : ((seq - minSeqno) - (r + 1)).toNat + 1 = ((seq - minSeqno) - r).toNat := by
        generalize seq - minSeqno = off at hne ⊢
        bv_omega
      have hspec := ih (r + 1) (by omega)
      refine ⟨hspec.1, ?_⟩
      show r.toNat :: (resync minSeqno bit seq fuel (r + 1)).2.bits = _
      rw [hspec.2, ← hstep, range_succ_eq_map, map_cons, map_map]
      refine congrArg₂ cons (by simp) (map_congr_left fun i _ => ?_)
      simp only [Function.comp_apply]
      congr 1
      bv_omega

theorem tail_bits (hfuel : (vectorLen - r).toNat ≤ fuel) {i : ℕ} :
    i ∈ (tail vectorLen bit fuel r).bits ↔ r.toNat ≤ i ∧ i < vectorLen.toNat := by
  induction fuel generalizing r with
  | zero =>
    have hnone : (tail vectorLen bit 0 r).bits = [] := rfl
    rw [hnone]
    have hle : vectorLen.toNat ≤ r.toNat := by bv_omega
    constructor
    · intro hi
      exact absurd hi not_mem_nil
    · intro hi
      omega
  | succ fuel ih =>
    rw [tail]
    by_cases hlt : r < vectorLen
    · rw [if_pos hlt]
      have hlt' : r.toNat < vectorLen.toNat := hlt
      have hnext := ih (r := r + 1) (by bv_omega)
      have hsucc : (r + 1).toNat = r.toNat + 1 := by bv_omega
      show i ∈ r.toNat :: (tail vectorLen bit fuel (r + 1)).bits ↔ _
      rw [mem_cons, hnext, hsucc]
      omega
    · rw [if_neg hlt]
      have hle : ¬ r.toNat < vectorLen.toNat := hlt
      constructor
      · intro hi
        exact absurd hi not_mem_nil
      · intro hi
        omega

/-- The bits between two offsets, and the second of them, are below the limit. -/
theorem forall_bits_between :
    ((∀ i < (r' - r).toNat, (r + BitVec.ofNat 8 i).toNat < limit) ∧ r'.toNat < limit) ↔
      r'.toNat < limit ∧ (r ≤ r' ∨ 256 ≤ limit) := by
  constructor
  · rintro ⟨hbetween, hlast⟩
    refine ⟨hlast, ?_⟩
    by_contra hnot
    obtain ⟨hlt, hlimit⟩ := not_or.mp hnot
    -- the cursor passes the end
    have hlt' : r'.toNat < r.toNat := Nat.lt_of_not_le hlt
    have hr := r.isLt
    have hend := hbetween (255 - r.toNat) (by bv_omega)
    have hvalue : (r + BitVec.ofNat 8 (255 - r.toNat)).toNat = 255 := by bv_omega
    omega
  · rintro ⟨hlast, hside⟩
    refine ⟨fun i hi => ?_, hlast⟩
    have hbound := (r + BitVec.ofNat 8 i).isLt
    cases hside with
    | inl hle =>
      have hle' : r.toNat ≤ r'.toNat := hle
      have hr' := r'.isLt
      have hdiff : (r' - r).toNat = r'.toNat - r.toNat := by bv_omega
      have hvalue : (r + BitVec.ofNat 8 i).toNat = r.toNat + i := by bv_omega
      omega
    | inr hlimit => omega

theorem tail_fits :
    (∀ i ∈ (tail vectorLen bit 256 r).bits, i < limit) ↔
      (r < vectorLen → vectorLen.toNat ≤ limit) := by
  have hfuel : (vectorLen - r).toNat ≤ 256 := Nat.le_of_lt (vectorLen - r).isLt
  constructor
  · intro h hlt
    have hlt' : r.toNat < vectorLen.toNat := hlt
    have hlast := h (vectorLen.toNat - 1) ((tail_bits hfuel).mpr (by omega))
    omega
  · intro h i hi
    obtain ⟨hle, hlt⟩ := (tail_bits hfuel).mp hi
    have hbound := h (show r.toNat < vectorLen.toNat by omega)
    omega

/-- **The bits of an overlap** are below the limit exactly where the offsets fit. -/
theorem overlap_fits (bit : ℕ → Bool) {msgs : List MplMsg} :
    (∀ i ∈ (overlap minSeqno vectorLen bit msgs r).bits, i < limit) ↔
      OffsetsFit minSeqno vectorLen limit msgs r := by
  induction msgs generalizing r with
  | nil =>
    refine ⟨fun _ => trivial, fun _ i hi => ?_⟩
    exact absurd hi not_mem_nil
  | cons msg rest ih =>
    obtain ⟨hcursor, hgap⟩ :=
      resync_spec minSeqno bit msg.seq r ((msg.seq - minSeqno) - r).isLt
    have hbits : (overlap minSeqno vectorLen bit (msg :: rest) r).bits =
        ((range ((msg.seq - minSeqno) - r).toNat).map fun i => (r + BitVec.ofNat 8 i).toNat) ++
          [(msg.seq - minSeqno).toNat] ++
            (if rest ≠ [] ∧ (msg.seq - minSeqno) + 1 ≤ vectorLen then
              overlap minSeqno vectorLen bit rest ((msg.seq - minSeqno) + 1)
            else tail vectorLen bit 256 ((msg.seq - minSeqno) + 1)).bits := by
      rw [overlap]
      dsimp only [Compared.append]
      rw [hgap, hcursor]
      split_ifs <;> rfl
    rw [hbits]
    simp only [forall_mem_append, forall_mem_map, mem_range, mem_singleton,
      forall_eq]
    rw [forall_bits_between, and_assoc, OffsetsFit]
    refine and_congr_right fun _ => and_congr_right fun _ => ?_
    split_ifs with hmore
    · exact ih
    · exact tail_fits

/-- A search that ends looks at bits below a limit only. -/
def SearchFits (bit : ℕ → Bool) (limit : ℕ) (r : BitVec 8) : Prop :=
  ∃ fuel last bits, lastBit bit fuel r = some (last, bits) ∧ ∀ i ∈ bits, i < limit

theorem searchFits_of_bit (h : bit r.toNat) : SearchFits bit limit r ↔ r.toNat < limit := by
  constructor
  · rintro ⟨fuel, last, bits, hlast, hbits⟩
    cases fuel with
    | zero => exact absurd hlast.symm (Option.some_ne_none _)
    | succ fuel =>
      rw [lastBit, if_pos h] at hlast
      obtain ⟨-, rfl⟩ := Prod.mk.inj (Option.some.inj hlast)
      exact hbits _ mem_cons_self
  · intro hlt
    refine ⟨1, r, [r.toNat], ?_, fun i hi => ?_⟩
    · rw [lastBit, if_pos h]
    · rw [List.mem_singleton.mp hi]
      exact hlt

theorem searchFits_of_not_bit (h : ¬ bit r.toNat) :
    SearchFits bit limit r ↔ r.toNat < limit ∧ SearchFits bit limit (r - 1) := by
  constructor
  · rintro ⟨fuel, last, bits, hlast, hbits⟩
    cases fuel with
    | zero => exact absurd hlast.symm (Option.some_ne_none _)
    | succ fuel =>
      rw [lastBit, if_neg h] at hlast
      cases hrest : lastBit bit fuel (r - 1) with
      | none =>
        rw [hrest] at hlast
        exact absurd hlast.symm (Option.some_ne_none _)
      | some found =>
        rw [hrest] at hlast
        obtain ⟨-, rfl⟩ := Prod.mk.inj (Option.some.inj hlast)
        exact ⟨hbits _ mem_cons_self,
          ⟨fuel, found.1, found.2, hrest, fun i hi => hbits i (mem_cons_of_mem _ hi)⟩⟩
  · rintro ⟨hlt, fuel, last, bits, hlast, hbits⟩
    refine ⟨fuel + 1, last, r.toNat :: bits, ?_, fun i hi => ?_⟩
    · rw [lastBit, if_neg h, hlast]
      rfl
    · cases List.mem_cons.mp hi with
      | inl heq =>
        rw [heq]
        exact hlt
      | inr hmem => exact hbits i hmem

/-- A bit below the cursor is found. -/
theorem searchFits_of_below (hlt : r.toNat < limit) (hbit : ∃ i ≤ r.toNat, bit i) :
    SearchFits bit limit r := by
  obtain ⟨n, hn⟩ : ∃ n, r.toNat = n := ⟨_, rfl⟩
  induction n generalizing r with
  | zero =>
    obtain ⟨i, hi, hset⟩ := hbit
    have hzero : i = r.toNat := by omega
    exact (searchFits_of_bit (hzero ▸ hset)).mpr hlt
  | succ n ih =>
    by_cases hset : bit r.toNat
    · exact (searchFits_of_bit hset).mpr hlt
    · have hpred : (r - 1).toNat = n := by bv_omega
      refine (searchFits_of_not_bit hset).mpr ⟨hlt, ih (by omega) ?_ hpred⟩
      obtain ⟨i, hi, hi'⟩ := hbit
      refine ⟨i, ?_, hi'⟩
      have hne : i ≠ r.toNat := by
        rintro rfl
        exact hset hi'
      omega

/-- The cursor passes the end where there is no bit below it. -/
theorem searchFits_of_wrap (hlimit : 256 ≤ limit) (hbit : ∃ i < 256, bit i) :
    SearchFits bit limit r := by
  obtain ⟨n, hn⟩ : ∃ n, r.toNat = n := ⟨_, rfl⟩
  induction n generalizing r with
  | zero =>
    by_cases hset : bit r.toNat
    · exact (searchFits_of_bit hset).mpr (by omega)
    · refine (searchFits_of_not_bit hset).mpr ⟨by omega, searchFits_of_below ?_ ?_⟩
      · have hbound := (r - 1).isLt
        omega
      · obtain ⟨i, hi, hi'⟩ := hbit
        exact ⟨i, by bv_omega, hi'⟩
  | succ n ih =>
    have hr := r.isLt
    by_cases hset : bit r.toNat
    · exact (searchFits_of_bit hset).mpr (by omega)
    · exact (searchFits_of_not_bit hset).mpr ⟨by omega, ih (by bv_omega)⟩

theorem searchFits_iff : SearchFits bit limit r ↔
    (r.toNat < limit ∧ ∃ i ≤ r.toNat, bit i) ∨ (256 ≤ limit ∧ ∃ i < 256, bit i) := by
  constructor
  · rintro ⟨fuel, last, bits, hlast, hbits⟩
    induction fuel generalizing r bits with
    | zero => exact absurd hlast.symm (Option.some_ne_none _)
    | succ fuel ih =>
      by_cases hset : bit r.toNat
      · have hfits : SearchFits bit limit r := ⟨fuel + 1, last, bits, hlast, hbits⟩
        exact Or.inl ⟨(searchFits_of_bit hset).mp hfits, r.toNat, Nat.le_refl _, hset⟩
      · rw [lastBit, if_neg hset] at hlast
        cases hrest : lastBit bit fuel (r - 1) with
        | none =>
          rw [hrest] at hlast
          exact absurd hlast.symm (Option.some_ne_none _)
        | some found =>
          rw [hrest] at hlast
          obtain ⟨rfl, rfl⟩ := Prod.mk.inj (Option.some.inj hlast)
          have hlt := hbits _ mem_cons_self
          cases ih _ hrest fun i hi => hbits i (mem_cons_of_mem _ hi) with
          | inl hbelow =>
            obtain ⟨hlt', i, hi, hi'⟩ := hbelow
            have hr := r.isLt
            by_cases hzero : r.toNat = 0
            · have hwrap : (r - 1).toNat = 255 := by bv_omega
              exact Or.inr ⟨by omega, i, by omega, hi'⟩
            · have hpred : (r - 1).toNat = r.toNat - 1 := by bv_omega
              exact Or.inl ⟨hlt, i, by omega, hi'⟩
          | inr hwrap => exact Or.inr hwrap
  · rintro (⟨hlt, hbit⟩ | ⟨hlimit, hbit⟩)
    · exact searchFits_of_below hlt hbit
    · exact searchFits_of_wrap hlimit hbit

/-- **A comparison** ends and looks only at bits below a limit exactly where the vector fits. -/
theorem compareSeed_fits {msgs : List MplMsg} :
    (∃ fuel found, compareSeed minSeqno vectorLen bit fuel msgs = some found ∧
      ∀ i ∈ found.bits, i < limit) ↔ VectorFits minSeqno vectorLen bit limit msgs := by
  cases msgs with
  | nil =>
    constructor
    · rintro ⟨fuel, found, hfound, hbits⟩
      obtain rfl := Option.some.inj hfound
      exact hbits 7 (List.mem_range.mpr (by decide))
    · intro hlimit
      exact ⟨0, _, rfl, fun i hi => Nat.lt_of_lt_of_le (List.mem_range.mp hi) hlimit⟩
  | cons head rest =>
    rw [VectorFits]
    simp only [compareSeed]
    cases overlapStart minSeqno vectorLen (head :: rest) with
    | some start =>
      refine Iff.trans ?_ (overlap_fits bit)
      constructor
      · rintro ⟨fuel, found, hfound, hbits⟩
        rw [← Option.some.inj hfound] at hbits
        exact hbits
      · intro hbits
        exact ⟨0, _, rfl, hbits⟩
    | none =>
      refine Iff.trans ?_ searchFits_iff
      constructor
      · rintro ⟨fuel, found, hfound, hbits⟩
        dsimp only [noOverlap] at hfound
        cases hlast : lastBit bit fuel vectorLen with
        | none =>
          rw [hlast] at hfound
          exact absurd hfound.symm (Option.some_ne_none _)
        | some last =>
          rw [hlast] at hfound
          refine ⟨fuel, last.1, last.2, hlast, ?_⟩
          have hsame : found.bits = last.2 := by
            rw [← Option.some.inj hfound]
            dsimp only
            split_ifs <;> rfl
          rw [← hsame]
          exact hbits
      · rintro ⟨fuel, last, bits, hlast, hbits⟩
        dsimp only [noOverlap]
        refine ⟨fuel, _, by rw [hlast]; rfl, ?_⟩
        dsimp only
        split_ifs <;> exact hbits

end

end Asap.Mpl
