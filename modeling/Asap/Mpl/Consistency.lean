import Asap.Mpl.ControlOut

/-!
# The sets of a seed, compared

Two nodes have messages of one seed, with numbers in half of the space. One of them has announced
its own, and the other compares. What it should find is said by the two sets alone.

## Main definitions

* `MplSeed.Lacks` — a number that a node is willing to take, and does not have.
* `Agrees` — a comparison finds what is lacking on either side.
* `RecordFits` — the sets and vectors for which it does.
-/

namespace Asap.Mpl

open Lib List MplSeed

/-! ## Numbers in half of the space -/

/-- A number is not below another. -/
def SeqGe (q m : BitVec 8) : Prop := (q - m).toNat < 128

instance (q m : BitVec 8) : Decidable (SeqGe q m) := inferInstanceAs (Decidable (_ < _))

/-- The comparison of `SEQ_VAL_IS_GT` is the one in half of the space: there is no zero between the
two numbers. -/
def NoWrap (q m : BitVec 8) : Prop := seqValIsGt q m = true ↔ q ≠ m ∧ SeqGe q m

instance (q m : BitVec 8) : Decidable (NoWrap q m) := inferInstanceAs (Decidable (_ ↔ _))

section

variable {q m base : BitVec 8}

theorem seqGe_iff (hq : SeqGe q base) (hm : SeqGe m base) :
    SeqGe q m ↔ (m - base).toNat ≤ (q - base).toNat := by
  rw [SeqGe] at hq hm ⊢
  bv_omega

theorem toNat_sub_eq (hq : SeqGe q base) (hm : SeqGe m base) (h : SeqGe q m) :
    (q - m).toNat = (q - base).toNat - (m - base).toNat := by
  rw [SeqGe] at hq hm h
  bv_omega

theorem eq_of_sub_eq (h : (q - base).toNat = (m - base).toNat) : q = m := by
  bv_omega

end

/-- The offset of a message in a vector. -/
def MplMsg.offset (msg : MplMsg) (minSeqno : BitVec 8) : ℕ := (msg.seq - minSeqno).toNat

/-- The numbers of a seed's messages. -/
def MplSeed.seqs (seed : MplSeed) : List (BitVec 8) := seed.minSeq.map MplMsg.seq

/-- A number that a node is willing to take for a seed, and does not have. -/
def MplSeed.Lacks (seed : MplSeed) (q : BitVec 8) : Prop :=
  SeqGe q seed.minSeqno ∧ q ∉ seed.seqs

/-- The numbers of a seed are in the half of the space that begins at a number, in order, and
the least is that of the first message. -/
structure MplSeed.Ordered (base : BitVec 8) (seed : MplSeed) : Prop where
  minSeqno : SeqGe seed.minSeqno base
  within : ∀ msg ∈ seed.minSeq, SeqGe msg.seq base
  sorted : seed.minSeq.Pairwise fun m m' => m.offset base < m'.offset base
  head : ∀ msg ∈ seed.minSeq.head?, msg.seq = seed.minSeqno

/-- What is found for a seed is what either side lacks. -/
structure Agrees (here there : MplSeed) (found : Compared) : Prop where
  lMissing : found.lMissing = true ↔ ∃ msg ∈ there.minSeq, here.Lacks msg.seq
  rMissing : found.rMissing = true ↔ ∃ msg ∈ here.minSeq, there.Lacks msg.seq
  restarted : ∀ ptr, ptr ∈ found.restarted ↔
    ∃ msg ∈ here.minSeq, msg.ptr = ptr ∧ there.Lacks msg.seq

/-! ## Sets that are compared as they should be -/

/-- The messages of a seed from a number on. -/
def MplSeed.onward (seed : MplSeed) (q : BitVec 8) : List MplMsg :=
  seed.minSeq.filter fun msg => SeqGe msg.seq q

/-- The sets overlap: the other node's least number is here, or the vector reaches up to the first
message. -/
def Overlaps (here there : MplSeed) : Prop :=
  there.minSeqno ∈ here.seqs ∨ (SeqGe here.minSeqno there.minSeqno ∧
    (here.minSeqno - there.minSeqno).toNat ≤ 8 * vecSize there)

section

variable (bit : ℕ → Bool) (here there : MplSeed)

/-- At most the last message from the other node's least number on is behind the vector, and the
bits up to it are clear. -/
def OverlapFits : Prop :=
  (∀ msg ∈ (here.onward there.minSeqno).dropLast,
    msg.offset there.minSeqno < 8 * vecSize there) ∧
  ∀ last ∈ (here.onward there.minSeqno).getLast?,
    ∀ i, 8 * vecSize there ≤ i → i ≤ last.offset there.minSeqno → bit i = false

/-- There is a message there, and the bit behind the vector is clear. Either the set is behind the
other, or nothing of it is missing there. -/
def DisjointFits : Prop :=
  bit (8 * vecSize there) = false ∧
  ∃ lastHere ∈ here.minSeq.getLast?, ∃ lastThere ∈ there.minSeq.getLast?,
    NoWrap lastHere.seq lastThere.seq ∧
    (SeqGe here.minSeqno there.minSeqno ∨
      ∀ msg ∈ here.onward there.minSeqno, msg.seq ∈ there.seqs)

/-- The sets of a seed that are compared as they should be, with a vector in the memory. -/
def RecordFits : Prop :=
  match here.minSeq with
  | [] => there.minSeq = [] ∨ ∃ msg ∈ there.minSeq, SeqGe msg.seq here.minSeqno
  | _ :: _ => NoWrap here.minSeqno there.minSeqno ∧
      (Overlaps here there → OverlapFits bit here there) ∧
      (¬ Overlaps here there → DisjointFits bit here there)

end

/-! ## The walk over sets that overlap -/

section

variable {minSeqno vectorLen r : BitVec 8} {bit : ℕ → Bool} {fuel : ℕ}

/-- The bits on the way to a message. -/
theorem resync_found (bit : ℕ → Bool) {seq : BitVec 8} (hle : r.toNat ≤ (seq - minSeqno).toNat)
    (hfuel : ((seq - minSeqno) - r).toNat < fuel) :
    ((resync minSeqno bit seq fuel r).2.lMissing = true ↔
      ∃ i, r.toNat ≤ i ∧ i < (seq - minSeqno).toNat ∧ bit i = true) ∧
    (resync minSeqno bit seq fuel r).2.rMissing = false ∧
    (resync minSeqno bit seq fuel r).2.restarted = [] := by
  induction fuel generalizing r with
  | zero => exact absurd hfuel (Nat.not_lt_zero _)
  | succ fuel ih =>
    rw [resync]
    by_cases heq : seq = minSeqno + r
    · have hoff : seq - minSeqno = r := by
        rw [heq, BitVec.add_comm, BitVec.add_sub_cancel]
      rw [if_pos heq, hoff]
      refine ⟨⟨fun h => absurd h Bool.false_ne_true, ?_⟩, rfl, rfl⟩
      rintro ⟨i, hlo, hhi, -⟩
      exact absurd hlo (Nat.not_le_of_lt hhi)
    · rw [if_neg heq]
      have hne : r.toNat ≠ (seq - minSeqno).toNat := by
        intro hoff
        apply heq
        bv_omega
      have hlt : r.toNat < (seq - minSeqno).toNat := Nat.lt_of_le_of_ne hle hne
      have hsucc : (r + 1).toNat = r.toNat + 1 := by
        have hbound := (seq - minSeqno).isLt
        bv_omega
      obtain ⟨hl, hr, hrestarted⟩ := ih (r := r + 1) (by omega) (by
        generalize seq - minSeqno = off at *
        bv_omega)
      refine ⟨?_, hr, hrestarted⟩
      show (bit r.toNat || (resync minSeqno bit seq fuel (r + 1)).2.lMissing) = true ↔ _
      rw [Bool.or_eq_true, hl, hsucc]
      constructor
      · rintro (hbit | ⟨i, hlo, hhi, hbit⟩)
        · exact ⟨r.toNat, Nat.le_refl _, hlt, hbit⟩
        · exact ⟨i, Nat.le_of_succ_le hlo, hhi, hbit⟩
      · rintro ⟨i, hlo, hhi, hbit⟩
        cases Nat.eq_or_lt_of_le hlo with
        | inl heq => exact Or.inl (heq ▸ hbit)
        | inr hlt => exact Or.inr ⟨i, hlt, hhi, hbit⟩

theorem tail_found (bit : ℕ → Bool) (hfuel : (vectorLen - r).toNat ≤ fuel) :
    ((tail vectorLen bit fuel r).lMissing = true ↔
      ∃ i, r.toNat ≤ i ∧ i < vectorLen.toNat ∧ bit i = true) ∧
    (tail vectorLen bit fuel r).rMissing = false ∧
    (tail vectorLen bit fuel r).restarted = [] := by
  induction fuel generalizing r with
  | zero =>
    have hle : vectorLen.toNat ≤ r.toNat := by bv_omega
    refine ⟨⟨fun h => absurd h Bool.false_ne_true, ?_⟩, rfl, rfl⟩
    rintro ⟨i, hlo, hhi, -⟩
    omega
  | succ fuel ih =>
    rw [tail]
    by_cases hlt : r < vectorLen
    · rw [if_pos hlt]
      have hlt' : r.toNat < vectorLen.toNat := hlt
      have hsucc : (r + 1).toNat = r.toNat + 1 := by bv_omega
      obtain ⟨hl, hr, hrestarted⟩ := ih (r := r + 1) (by bv_omega)
      refine ⟨?_, hr, hrestarted⟩
      show (bit r.toNat || (tail vectorLen bit fuel (r + 1)).lMissing) = true ↔ _
      rw [Bool.or_eq_true, hl, hsucc]
      constructor
      · rintro (hbit | ⟨i, hlo, hhi, hbit⟩)
        · exact ⟨r.toNat, Nat.le_refl _, hlt', hbit⟩
        · exact ⟨i, Nat.le_of_succ_le hlo, hhi, hbit⟩
      · rintro ⟨i, hlo, hhi, hbit⟩
        cases Nat.eq_or_lt_of_le hlo with
        | inl heq => exact Or.inl (heq ▸ hbit)
        | inr hlt => exact Or.inr ⟨i, hlt, hhi, hbit⟩
    · rw [if_neg hlt]
      have hle : ¬ r.toNat < vectorLen.toNat := hlt
      refine ⟨⟨fun h => absurd h Bool.false_ne_true, ?_⟩, rfl, rfl⟩
      rintro ⟨i, hlo, hhi, -⟩
      omega

/-- Messages in order, the first of them not before the cursor, and at most the last of them behind
the vector. -/
structure WalkFits (minSeqno vectorLen : BitVec 8) (bit : ℕ → Bool) (msgs : List MplMsg)
    (r : BitVec 8) : Prop where
  nonempty : msgs ≠ []
  sorted : msgs.Pairwise fun m m' => m.offset minSeqno < m'.offset minSeqno
  start : ∀ msg ∈ msgs, r.toNat ≤ msg.offset minSeqno
  half : ∀ msg ∈ msgs, msg.offset minSeqno < 128
  inside : ∀ msg ∈ msgs.dropLast, msg.offset minSeqno < vectorLen.toNat
  clear : ∀ last ∈ msgs.getLast?, ∀ i, vectorLen.toNat ≤ i → i ≤ last.offset minSeqno →
    bit i = false

/-- What a walk finds: the bits from the cursor on that are no message's, and the messages without a
bit. -/
structure WalkFinds (minSeqno vectorLen : BitVec 8) (bit : ℕ → Bool) (msgs : List MplMsg)
    (r : BitVec 8) (found : Compared) : Prop where
  lMissing : found.lMissing = true ↔ ∃ i, r.toNat ≤ i ∧ i < vectorLen.toNat ∧ bit i = true ∧
    ∀ msg ∈ msgs, msg.offset minSeqno ≠ i
  rMissing : found.rMissing = true ↔ ∃ msg ∈ msgs, bit (msg.offset minSeqno) = false
  restarted : ∀ ptr, ptr ∈ found.restarted ↔
    ∃ msg ∈ msgs, msg.ptr = ptr ∧ bit (msg.offset minSeqno) = false

/-- What is found at a message. -/
def foundAt (bit : ℕ → Bool) (minSeqno : BitVec 8) (msg : MplMsg) : Compared :=
  if bit (msg.offset minSeqno) then ⟨false, false, [], [msg.offset minSeqno]⟩
  else ⟨false, true, [msg.ptr], [msg.offset minSeqno]⟩

theorem foundAt_lMissing (msg : MplMsg) : (foundAt bit minSeqno msg).lMissing = false := by
  rw [foundAt]
  split_ifs <;> rfl

theorem foundAt_rMissing (msg : MplMsg) :
    (foundAt bit minSeqno msg).rMissing = true ↔ bit (msg.offset minSeqno) = false := by
  rw [foundAt]
  split_ifs with hbit
  · simp [hbit]
  · simp [hbit]

theorem mem_foundAt_restarted (msg : MplMsg) (ptr : ℕ) :
    ptr ∈ (foundAt bit minSeqno msg).restarted ↔
      msg.ptr = ptr ∧ bit (msg.offset minSeqno) = false := by
  rw [foundAt]
  split_ifs with hbit
  · simp [hbit]
  · simp [hbit, eq_comm]

/-- The walk at a message. -/
theorem overlap_cons (msg : MplMsg) (rest : List MplMsg) :
    overlap minSeqno vectorLen bit (msg :: rest) r =
      ((resync minSeqno bit msg.seq 256 r).2.append (foundAt bit minSeqno msg)).append
        (if rest ≠ [] ∧ msg.seq - minSeqno + 1 ≤ vectorLen then
          overlap minSeqno vectorLen bit rest (msg.seq - minSeqno + 1)
        else tail vectorLen bit 256 (msg.seq - minSeqno + 1)) := by
  have hcursor := (resync_spec minSeqno bit msg.seq r ((msg.seq - minSeqno) - r).isLt).1
  rw [overlap]
  dsimp only
  rw [hcursor]
  rfl

/-- What is found behind a message. -/
theorem WalkFinds.cons {msg : MplMsg} {rest : List MplMsg} {found : Compared}
    (hfits : WalkFits minSeqno vectorLen bit (msg :: rest) r)
    (hrest : WalkFinds minSeqno vectorLen bit rest (msg.seq - minSeqno + 1) found)
    (hclear : ∀ i < msg.offset minSeqno, bit i = true → i < vectorLen.toNat) :
    WalkFinds minSeqno vectorLen bit (msg :: rest) r
      (((resync minSeqno bit msg.seq 256 r).2.append (foundAt bit minSeqno msg)).append found) := by
  obtain ⟨hl, hr, hrestarted⟩ := resync_found bit
    (hfits.start msg mem_cons_self) ((msg.seq - minSeqno) - r).isLt
  have hhalf := hfits.half msg mem_cons_self
  have hstart := hfits.start msg mem_cons_self
  have hsorted := (pairwise_cons.mp hfits.sorted).1
  have hsucc : (msg.seq - minSeqno + 1).toNat = msg.offset minSeqno + 1 := by
    rw [MplMsg.offset] at hhalf ⊢
    bv_omega
  refine ⟨?_, ?_, fun ptr => ?_⟩
  · rw [Compared.append, Compared.append]
    simp only [Bool.or_eq_true, foundAt_lMissing, Bool.false_eq_true, or_false]
    rw [hl, hrest.lMissing, hsucc]
    constructor
    · rintro (⟨i, hlo, hhi, hbit⟩ | ⟨i, hlo, hhi, hbit, hnone⟩)
      · refine ⟨i, hlo, hclear i hhi hbit, hbit, forall_mem_cons.mpr ⟨?_, fun m hm => ?_⟩⟩
        · exact Nat.ne_of_gt hhi
        · exact Nat.ne_of_gt (Nat.lt_trans hhi (hsorted m hm))
      · exact ⟨i, by omega, hhi, hbit, forall_mem_cons.mpr ⟨by omega, hnone⟩⟩
    · rintro ⟨i, hlo, hhi, hbit, hnone⟩
      obtain ⟨hne, hrestNone⟩ := forall_mem_cons.mp hnone
      cases Nat.lt_or_gt_of_ne hne with
      | inl hgt => exact Or.inr ⟨i, hgt, hhi, hbit, hrestNone⟩
      | inr hlt => exact Or.inl ⟨i, hlo, hlt, hbit⟩
  · rw [Compared.append, Compared.append]
    simp only [Bool.or_eq_true, hr, Bool.false_eq_true, false_or]
    rw [foundAt_rMissing, hrest.rMissing]
    simp only [mem_cons, exists_eq_or_imp]
  · rw [Compared.append, Compared.append]
    simp only [mem_append, hrestarted, not_mem_nil, false_or]
    rw [mem_foundAt_restarted, hrest.restarted]
    simp only [mem_cons, exists_eq_or_imp]

theorem WalkFits.rest {msg next : MplMsg} {rest : List MplMsg}
    (h : WalkFits minSeqno vectorLen bit (msg :: next :: rest) r) :
    WalkFits minSeqno vectorLen bit (next :: rest) (msg.seq - minSeqno + 1) := by
  obtain ⟨hsorted, hrest⟩ := pairwise_cons.mp h.sorted
  refine ⟨cons_ne_nil _ _, hrest, fun m hm => ?_, fun m hm => ?_, fun m hm => ?_, ?_⟩
  · have hlt := hsorted m hm
    have hhalf := h.half msg mem_cons_self
    rw [MplMsg.offset] at hlt hhalf
    bv_omega
  · exact h.half m (mem_cons_of_mem _ hm)
  · exact h.inside m (mem_cons_of_mem _ hm)
  · exact h.clear

/-- **The walk** over messages in order finds what it should. -/
theorem overlap_found {msgs : List MplMsg} (hfits : WalkFits minSeqno vectorLen bit msgs r) :
    WalkFinds minSeqno vectorLen bit msgs r (overlap minSeqno vectorLen bit msgs r) := by
  induction msgs generalizing r with
  | nil => exact absurd rfl hfits.nonempty
  | cons msg rest ih =>
    have hhalf := hfits.half msg mem_cons_self
    rw [overlap_cons]
    cases rest with
    | nil =>
      rw [if_neg fun h => h.1 rfl]
      refine WalkFinds.cons hfits ?_ fun i hi hbit => ?_
      · obtain ⟨hl, hr, hrestarted⟩ := tail_found bit (r := msg.seq - minSeqno + 1)
          (Nat.le_of_lt (vectorLen - _).isLt)
        refine ⟨?_, ?_, fun ptr => ?_⟩
        · rw [hl]
          simp
        · rw [hr]
          simp
        · rw [hrestarted]
          simp
      · by_contra hge
        have hoff := hfits.clear msg rfl i (Nat.le_of_not_lt hge) (Nat.le_of_lt hi)
        rw [hoff] at hbit
        exact Bool.false_ne_true hbit
    | cons next rest =>
      have hin := hfits.inside msg mem_cons_self
      have hmore : msg.seq - minSeqno + 1 ≤ vectorLen := by
        rw [MplMsg.offset] at hin hhalf
        bv_omega
      rw [if_pos ⟨cons_ne_nil _ _, hmore⟩]
      exact WalkFinds.cons hfits (ih hfits.rest) fun i hi _ => Nat.lt_trans hi hin

end

/-! ## The vector that is announced -/

section

variable {vectorLen r base : BitVec 8} {bit : ℕ → Bool} {here there : MplSeed}

/-- A vector announces the messages of a seed. -/
structure Announces (bit : ℕ → Bool) (vectorLen : BitVec 8) (there : MplSeed) : Prop where
  len : vectorLen.toNat = 8 * vecSize there
  bits : ∀ i < 8 * vecSize there, bit i = true ↔
    ∃ msg ∈ there.minSeq, msg.offset there.minSeqno = i

section

variable {seed : MplSeed}

theorem mem_onward {q : BitVec 8} {msg : MplMsg} :
    msg ∈ seed.onward q ↔ msg ∈ seed.minSeq ∧ SeqGe msg.seq q := by
  rw [MplSeed.onward, mem_filter, decide_eq_true_eq]

theorem mem_seqs_of_mem {msg : MplMsg} (h : msg ∈ seed.minSeq) :
    msg.seq ∈ seed.seqs := mem_map_of_mem h

section

variable (h : seed.Ordered base)

include h

/-- No message of a seed is below its least number. -/
theorem MplSeed.Ordered.seqGe {msg : MplMsg}
    (hmsg : msg ∈ seed.minSeq) : SeqGe msg.seq seed.minSeqno := by
  rw [seqGe_iff (h.within msg hmsg) h.minSeqno]
  have hsorted := h.sorted
  have hhead := h.head
  cases hmsgs : seed.minSeq with
  | nil =>
    rw [hmsgs] at hmsg
    exact absurd hmsg not_mem_nil
  | cons first rest =>
    rw [hmsgs] at hmsg hsorted hhead
    rw [← hhead first rfl]
    cases mem_cons.mp hmsg with
    | inl heq => rw [heq]
    | inr hrest => exact Nat.le_of_lt ((pairwise_cons.mp hsorted).1 msg hrest)

/-- The last message has the greatest number. -/
theorem MplSeed.Ordered.le_last {msg last : MplMsg}
    (hmsg : msg ∈ seed.minSeq) (hlast : last ∈ seed.minSeq.getLast?) :
    msg.offset base ≤ last.offset base := by
  obtain ⟨init, hinit⟩ : ∃ init, init ++ [last] = seed.minSeq :=
    ⟨seed.minSeq.dropLast, dropLast_append_getLast? last hlast⟩
  have hsorted := h.sorted
  rw [← hinit] at hmsg hsorted
  cases mem_append.mp hmsg with
  | inl hbefore =>
    exact Nat.le_of_lt ((pairwise_append.mp hsorted).2.2 msg hbefore last
      mem_cons_self)
  | inr heq => rw [mem_singleton.mp heq]

theorem MplSeed.Ordered.offset_eq {msg : MplMsg}
    (hmsg : msg ∈ seed.minSeq) : msg.offset seed.minSeqno =
      msg.offset base - (seed.minSeqno - base).toNat :=
  toNat_sub_eq (h.within msg hmsg) h.minSeqno (h.seqGe hmsg)

/-- The vector reaches up to the last message, in half of the space. -/
theorem MplSeed.Ordered.offset_lt {msg : MplMsg}
    (hmsg : msg ∈ seed.minSeq) : msg.offset seed.minSeqno < 8 * vecSize seed := by
  obtain ⟨last, hlast⟩ : ∃ last, seed.minSeq.getLast? = some last :=
    ⟨_, List.getLast?_eq_some_getLast (ne_nil_of_mem hmsg)⟩
  have hhalf : (last.seq - seed.minSeqno).toNat < 128 := h.seqGe (mem_of_getLast? hlast)
  have hle := h.le_last hmsg hlast
  have hsize := vecSize_last hlast (by omega)
  have hoff := h.offset_eq (mem_of_getLast? hlast)
  rw [MplMsg.offset] at hoff
  rw [h.offset_eq hmsg, hsize]
  omega

theorem MplSeed.Ordered.vecSize_le :
    vecSize seed ≤ 16 := by
  cases hlast : seed.minSeq.getLast? with
  | none =>
    have hlen : (vectorOut seed).1 = 0 := by
      rw [vectorOut, populate_vecLen, hlast]
      rfl
    rw [vecSize_eq, hlen]
    decide
  | some last =>
    have hhalf : (last.seq - seed.minSeqno).toNat < 128 := h.seqGe (mem_of_getLast? hlast)
    rw [vecSize_last hlast (by omega)]
    omega

end

end

/-- A message from the other node's least number on has its bit where it is there. -/
theorem bit_onward (hthere : there.Ordered base)
    (hannounced : Announces bit vectorLen there)
    (hfits : WalkFits there.minSeqno vectorLen bit (here.onward there.minSeqno) r) {msg : MplMsg}
    (hmsg : msg ∈ here.onward there.minSeqno) :
    bit (msg.offset there.minSeqno) = false ↔ msg.seq ∉ there.seqs := by
  rw [← Bool.not_eq_true, not_iff_not]
  by_cases hin : msg.offset there.minSeqno < 8 * vecSize there
  · rw [hannounced.bits _ hin]
    constructor
    · rintro ⟨m, hm, heq⟩
      rw [← eq_of_sub_eq heq]
      exact mem_seqs_of_mem hm
    · intro hseq
      obtain ⟨m, hm, heq⟩ := mem_map.mp hseq
      exact ⟨m, hm, by rw [MplMsg.offset, heq, MplMsg.offset]⟩
  · have hlast : msg ∈ (here.onward there.minSeqno).getLast? := by
      by_contra hnot
      have hinit : msg ∈ (here.onward there.minSeqno).dropLast := by
        have hne := ne_nil_of_mem hmsg
        have hsplit := dropLast_append_getLast hne
        rw [← hsplit] at hmsg
        refine (mem_append.mp hmsg).resolve_right fun heq => hnot ?_
        rw [mem_singleton.mp heq]
        exact List.getLast?_eq_some_getLast hne
      have hlt := hfits.inside msg hinit
      rw [hannounced.len] at hlt
      exact hin hlt
    have hclear := hfits.clear msg hlast _ (by rw [hannounced.len]; omega) (Nat.le_refl _)
    rw [hclear]
    refine ⟨fun h => absurd h Bool.false_ne_true, fun hseq => absurd ?_ hin⟩
    obtain ⟨m, hm, heq⟩ := mem_map.mp hseq
    have hlt := hthere.offset_lt hm
    rw [MplMsg.offset, heq] at hlt
    exact hlt

/-- **A walk** from the other node's least number on finds what either side lacks. -/
theorem walk_agrees (hthere : there.Ordered base)
    (hannounced : Announces bit vectorLen there)
    (hstart : ∀ msg ∈ there.minSeq,
      r.toNat ≤ msg.offset there.minSeqno ↔ SeqGe msg.seq here.minSeqno)
    (hfits : WalkFits there.minSeqno vectorLen bit (here.onward there.minSeqno) r) :
    Agrees here there
      (overlap there.minSeqno vectorLen bit (here.onward there.minSeqno) r) := by
  obtain ⟨hl, hr, hrestarted⟩ := overlap_found hfits
  have hlacks : ∀ msg ∈ here.onward there.minSeqno,
      bit (msg.offset there.minSeqno) = false ↔ there.Lacks msg.seq := fun msg hmsg =>
    (bit_onward hthere hannounced hfits hmsg).trans
      (and_iff_right (mem_onward.mp hmsg).2).symm
  refine ⟨?_, ?_, fun ptr => ?_⟩
  · rw [hl, hannounced.len]
    constructor
    · rintro ⟨i, hlo, hhi, hbit, hnone⟩
      obtain ⟨msg, hmsg, rfl⟩ := (hannounced.bits i hhi).mp hbit
      refine ⟨msg, hmsg, (hstart msg hmsg).mp hlo, fun hseq => ?_⟩
      obtain ⟨m, hm, heq⟩ := mem_map.mp hseq
      refine hnone m (mem_onward.mpr ⟨hm, ?_⟩) (by rw [MplMsg.offset, heq, MplMsg.offset])
      rw [heq]
      exact hthere.seqGe hmsg
    · rintro ⟨msg, hmsg, hge, hseq⟩
      have hin := hthere.offset_lt hmsg
      refine ⟨_, (hstart msg hmsg).mpr hge, hin, (hannounced.bits _ hin).mpr ⟨msg, hmsg, rfl⟩, ?_⟩
      intro m hm heq
      rw [← eq_of_sub_eq heq] at hseq
      exact hseq (mem_seqs_of_mem (mem_onward.mp hm).1)
  · rw [hr]
    constructor
    · rintro ⟨msg, hmsg, hbit⟩
      exact ⟨msg, (mem_onward.mp hmsg).1, (hlacks msg hmsg).mp hbit⟩
    · rintro ⟨msg, hmsg, hmissing⟩
      have honward := mem_onward.mpr ⟨hmsg, hmissing.1⟩
      exact ⟨msg, honward, (hlacks msg honward).mpr hmissing⟩
  · rw [hrestarted]
    constructor
    · rintro ⟨msg, hmsg, hptr, hbit⟩
      exact ⟨msg, (mem_onward.mp hmsg).1, hptr, (hlacks msg hmsg).mp hbit⟩
    · rintro ⟨msg, hmsg, hptr, hmissing⟩
      have honward := mem_onward.mpr ⟨hmsg, hmissing.1⟩
      exact ⟨msg, honward, hptr, (hlacks msg honward).mpr hmissing⟩

/-- Sets that overlap as they should are walked over. -/
theorem OverlapFits.walkFits (h : OverlapFits bit here there) (hhere : here.Ordered base)
    (hthere : there.Ordered base) (hlen : vectorLen.toNat = 8 * vecSize there)
    (hne : here.onward there.minSeqno ≠ [])
    (hstart : ∀ msg ∈ here.onward there.minSeqno, r.toNat ≤ msg.offset there.minSeqno) :
    WalkFits there.minSeqno vectorLen bit (here.onward there.minSeqno) r := by
  refine ⟨hne, ?_, hstart, fun msg hmsg => (mem_onward.mp hmsg).2, ?_, ?_⟩
  · have hsorted := hhere.sorted.filter fun msg => decide (SeqGe msg.seq there.minSeqno)
    refine hsorted.imp_of_mem fun {m m'} hm hm' hlt => ?_
    obtain ⟨hmem, hge⟩ := mem_onward.mp hm
    obtain ⟨hmem', hge'⟩ := mem_onward.mp hm'
    rw [MplMsg.offset, MplMsg.offset, toNat_sub_eq (hhere.within m hmem) hthere.minSeqno hge,
      toNat_sub_eq (hhere.within m' hmem') hthere.minSeqno hge']
    have hle := (seqGe_iff (hhere.within m hmem) hthere.minSeqno).mp hge
    rw [MplMsg.offset, MplMsg.offset] at hlt
    omega
  · rw [hlen]
    exact h.1
  · rw [hlen]
    exact h.2

/-! ## Sets that do not overlap -/

/-- The last bit of the vector is the last message's. -/
theorem lastBit_announced (hthere : there.Ordered base) (hannounced : Announces bit vectorLen there)
    {last : MplMsg} (hlast : last ∈ there.minSeq.getLast?)
    (hclear : bit (8 * vecSize there) = false) :
    ∃ fuel bits, lastBit bit fuel vectorLen = some (last.seq - there.minSeqno, bits) := by
  have hset : ∀ i, last.offset there.minSeqno ≤ i → i ≤ 8 * vecSize there →
      (bit i = true ↔ i = last.offset there.minSeqno) := by
    intro i hlo hhi
    cases Nat.eq_or_lt_of_le hhi with
    | inl heq =>
      have hlt := hthere.offset_lt (mem_of_getLast? hlast)
      rw [heq, hclear]
      exact ⟨fun h => absurd h Bool.false_ne_true, fun h => absurd h (Nat.ne_of_gt hlt)⟩
    | inr hlt =>
      rw [hannounced.bits i hlt]
      constructor
      · rintro ⟨msg, hmsg, rfl⟩
        have hle := hthere.le_last hmsg hlast
        rw [hthere.offset_eq hmsg, hthere.offset_eq (mem_of_getLast? hlast)] at hlo ⊢
        omega
      · intro heq
        exact ⟨last, mem_of_getLast? hlast, heq.symm⟩
  have hsearch : ∀ n, ∀ r : BitVec 8, r.toNat = last.offset there.minSeqno + n →
      r.toNat ≤ 8 * vecSize there →
      ∃ fuel bits, lastBit bit fuel r = some (last.seq - there.minSeqno, bits) := by
    intro n
    induction n with
    | zero =>
      intro r hr hle
      have hbit : bit r.toNat = true := (hset _ (by omega) hle).mpr (by omega)
      refine ⟨1, [r.toNat], ?_⟩
      rw [lastBit, if_pos hbit, BitVec.eq_of_toNat_eq (x := r) (y := last.seq - there.minSeqno) hr]
    | succ n ih =>
      intro r hr hle
      have hbit : ¬ bit r.toNat = true := by
        rw [hset _ (by omega) hle]
        omega
      have hpred : (r - 1).toNat = r.toNat - 1 := by
        have hbound := r.isLt
        bv_omega
      obtain ⟨fuel, bits, hfound⟩ := ih (r - 1) (by omega) (by omega)
      refine ⟨fuel + 1, r.toNat :: bits, ?_⟩
      rw [lastBit, if_neg hbit, hfound]
      rfl
  have hlt := hthere.offset_lt (mem_of_getLast? hlast)
  refine hsearch (8 * vecSize there - last.offset there.minSeqno) vectorLen ?_ ?_
  · rw [hannounced.len]
    omega
  · rw [hannounced.len]

/-- **Sets that do not overlap**, where one is behind the other, or nothing of it is missing. -/
theorem disjoint_agrees (hhere : here.Ordered base) (hthere : there.Ordered base)
    (hannounced : Announces bit vectorLen there) (hfits : DisjointFits bit here there)
    (hdisjoint : ¬ Overlaps here there) :
    ∃ fuel found, noOverlap there.minSeqno vectorLen bit fuel here.minSeq = some found ∧
      Agrees here there found := by
  obtain ⟨hclear, lastHere, hlastHere, lastThere, hlastThere, hwrap, hcase⟩ := hfits
  obtain ⟨fuel, bits, hfound⟩ := lastBit_announced hthere hannounced hlastThere hclear
  obtain ⟨hnone, hfar⟩ := not_or.mp hdisjoint
  have hmemHere := mem_of_getLast? hlastHere
  have hmemThere := mem_of_getLast? hlastThere
  have hsearch : noOverlap there.minSeqno vectorLen bit fuel here.minSeq = some
      (if seqValIsGt lastHere.seq lastThere.seq then
        ⟨false, true, here.minSeq.map MplMsg.ptr, bits⟩ else ⟨true, false, [], bits⟩) := by
    rw [noOverlap, hfound, Option.mem_def.mp hlastHere, Option.map_some]
    dsimp only
    rw [BitVec.add_comm, BitVec.sub_add_cancel, Option.map_some, Option.getD_some]
  refine ⟨fuel, _, hsearch, ?_⟩
  by_cases hge : SeqGe here.minSeqno there.minSeqno
  · -- the set here is behind the vector
    have hbehind : ∀ msg ∈ here.minSeq, ∀ m ∈ there.minSeq, m.offset base < msg.offset base := by
      intro msg hmsg m hm
      have hlt := hthere.offset_lt hm
      rw [hthere.offset_eq hm] at hlt
      have hoff := toNat_sub_eq hhere.minSeqno hthere.minSeqno hge
      have hle := (seqGe_iff (hhere.within msg hmsg) hhere.minSeqno).mp (hhere.seqGe hmsg)
      have hfirst := (seqGe_iff hhere.minSeqno hthere.minSeqno).mp hge
      have hreach : ¬ (here.minSeqno - there.minSeqno).toNat ≤ 8 * vecSize there := fun h =>
        hfar ⟨hge, h⟩
      rw [MplMsg.offset] at hlt ⊢
      rw [MplMsg.offset]
      omega
    have hlacks : ∀ msg ∈ here.minSeq, there.Lacks msg.seq := by
      intro msg hmsg
      refine ⟨?_, fun hseq => ?_⟩
      · rw [seqGe_iff (hhere.within msg hmsg) hthere.minSeqno]
        have hle := (seqGe_iff (hhere.within msg hmsg) hhere.minSeqno).mp (hhere.seqGe hmsg)
        have hfirst := (seqGe_iff hhere.minSeqno hthere.minSeqno).mp hge
        omega
      · obtain ⟨m, hm, heq⟩ := mem_map.mp hseq
        have hlt := hbehind msg hmsg m hm
        rw [MplMsg.offset, heq, MplMsg.offset] at hlt
        exact Nat.lt_irrefl _ hlt
    have hgt : seqValIsGt lastHere.seq lastThere.seq = true := by
      have hlt := hbehind lastHere hmemHere lastThere hmemThere
      refine hwrap.mpr ⟨fun heq => ?_, ?_⟩
      · rw [MplMsg.offset, MplMsg.offset, heq] at hlt
        exact Nat.lt_irrefl _ hlt
      · exact (seqGe_iff (hhere.within _ hmemHere) (hthere.within _ hmemThere)).mpr
          (Nat.le_of_lt hlt)
    rw [if_pos hgt]
    refine ⟨⟨fun h => absurd h Bool.false_ne_true, ?_⟩, ⟨fun _ => ?_, fun _ => rfl⟩, fun ptr => ?_⟩
    · rintro ⟨m, hm, hlack⟩
      obtain ⟨first, hfirst⟩ : ∃ first, here.minSeq.head? = some first :=
        ⟨_, List.head?_eq_some_head (ne_nil_of_mem hmemHere)⟩
      have hlt := hbehind first (mem_of_mem_head? hfirst) m hm
      have hle := (seqGe_iff (hthere.within m hm) hhere.minSeqno).mp hlack.1
      rw [← hhere.head first hfirst] at hle
      exact absurd hle (Nat.not_le_of_lt hlt)
    · exact ⟨lastHere, hmemHere, hlacks lastHere hmemHere⟩
    · rw [mem_map]
      constructor
      · rintro ⟨msg, hmsg, hptr⟩
        exact ⟨msg, hmsg, hptr, hlacks msg hmsg⟩
      · rintro ⟨msg, hmsg, hptr, -⟩
        exact ⟨msg, hmsg, hptr⟩
  · -- nothing of the set here is missing there
    have hall := hcase.resolve_left hge
    have hlower : (here.minSeqno - base).toNat < (there.minSeqno - base).toNat := by
      rw [seqGe_iff hhere.minSeqno hthere.minSeqno] at hge
      exact Nat.lt_of_not_le hge
    have hnotLacks : ∀ msg ∈ here.minSeq, ¬ there.Lacks msg.seq := fun msg hmsg hlack =>
      hlack.2 (hall msg (mem_onward.mpr ⟨hmsg, hlack.1⟩))
    have hgt : ¬ seqValIsGt lastHere.seq lastThere.seq = true := by
      intro hgt
      obtain ⟨hne, hgeLast⟩ := hwrap.mp hgt
      have hle := (seqGe_iff (hhere.within _ hmemHere) (hthere.within _ hmemThere)).mp hgeLast
      have hleast := (seqGe_iff (hthere.within _ hmemThere) hthere.minSeqno).mp
        (hthere.seqGe hmemThere)
      have hgeMin : SeqGe lastHere.seq there.minSeqno :=
        (seqGe_iff (hhere.within _ hmemHere) hthere.minSeqno).mpr (by omega)
      obtain ⟨m, hm, heq⟩ := mem_map.mp
        (hall lastHere (mem_onward.mpr ⟨hmemHere, hgeMin⟩))
      have hgreatest := hthere.le_last hm hlastThere
      rw [MplMsg.offset, heq, MplMsg.offset] at hgreatest
      exact hne (eq_of_sub_eq (Nat.le_antisymm hgreatest hle))
    rw [if_neg hgt]
    refine ⟨⟨fun _ => ?_, fun _ => rfl⟩, ⟨fun h => absurd h Bool.false_ne_true, ?_⟩, fun ptr => ?_⟩
    · obtain ⟨first, hfirst⟩ : ∃ first, there.minSeq.head? = some first :=
        ⟨_, List.head?_eq_some_head (ne_nil_of_mem hmemThere)⟩
      refine ⟨first, mem_of_mem_head? hfirst, ?_⟩
      rw [hthere.head first hfirst]
      refine ⟨?_, hnone⟩
      rw [seqGe_iff hthere.minSeqno hhere.minSeqno]
      exact Nat.le_of_lt hlower
    · rintro ⟨msg, hmsg, hlack⟩
      exact absurd hlack (hnotLacks msg hmsg)
    · refine ⟨fun h => absurd h not_mem_nil, ?_⟩
      rintro ⟨msg, hmsg, -, hlack⟩
      exact absurd hlack (hnotLacks msg hmsg)

/-! ## The comparison -/

/-- The cursor in the vector comes to the first message, or behind the vector. -/
theorem seekRemote_eq {minSeqno seq : BitVec 8} {fuel : ℕ} (hlen : vectorLen.toNat < 255)
    (hle : r.toNat ≤ (seq - minSeqno).toNat) (hr : r.toNat ≤ vectorLen.toNat + 1)
    (hfuel : vectorLen.toNat + 1 - r.toNat < fuel) :
    seekRemote minSeqno vectorLen seq fuel r =
      if (seq - minSeqno).toNat ≤ vectorLen.toNat then seq - minSeqno else vectorLen + 1 := by
  induction fuel generalizing r with
  | zero => exact absurd hfuel (Nat.not_lt_zero _)
  | succ fuel ih =>
    rw [seekRemote]
    by_cases hstop : seq ≠ minSeqno + r ∧ r ≤ vectorLen
    · rw [if_pos hstop]
      have hne : r.toNat ≠ (seq - minSeqno).toNat := by
        intro hoff
        apply hstop.1
        bv_omega
      have hin : r.toNat ≤ vectorLen.toNat := hstop.2
      have hsucc : (r + 1).toNat = r.toNat + 1 := by bv_omega
      exact ih (by omega) (by omega) (by omega)
    · rw [if_neg hstop]
      by_cases heq : seq = minSeqno + r
      · have hoff : seq - minSeqno = r := by
          rw [heq, BitVec.add_comm, BitVec.add_sub_cancel]
        rw [hoff] at hle ⊢
        split_ifs with hin
        · rfl
        · bv_omega
      · have hout : ¬ r.toNat ≤ vectorLen.toNat := fun h => hstop ⟨heq, h⟩
        rw [if_neg (by omega)]
        bv_omega

/-- The messages from the other node's least number on, where it is here. -/
theorem dropWhile_eq_onward (hhere : here.Ordered base) (hthere : SeqGe there.minSeqno base) :
    (here.minSeq.dropWhile fun msg => msg.seq ≠ there.minSeqno) =
      if there.minSeqno ∈ here.seqs then here.onward there.minSeqno else [] := by
  have hwithin := hhere.within
  have hsorted := hhere.sorted
  rw [MplSeed.seqs, MplSeed.onward]
  generalize here.minSeq = msgs at hwithin hsorted ⊢
  induction msgs with
  | nil => simp
  | cons msg rest ih =>
    obtain ⟨hlt, hrest⟩ := pairwise_cons.mp hsorted
    have hmsg := hwithin msg mem_cons_self
    have hmem := fun m hm => hwithin m (mem_cons_of_mem _ hm)
    rw [dropWhile_cons]
    by_cases heq : msg.seq = there.minSeqno
    · -- the messages behind it are greater
      have hge : ∀ m ∈ msg :: rest, decide (SeqGe m.seq there.minSeqno) = true := by
        intro m hm
        rw [decide_eq_true_eq, seqGe_iff (hwithin m hm) hthere, ← heq]
        cases mem_cons.mp hm with
        | inl hsame => rw [hsame]
        | inr hmore => exact Nat.le_of_lt (hlt m hmore)
      rw [filter_eq_self.mpr hge]
      simp [heq]
    · have hmore : there.minSeqno ∈ rest.map MplMsg.seq → ¬ SeqGe msg.seq there.minSeqno := by
        intro hin
        obtain ⟨m, hm, hseq⟩ := mem_map.mp hin
        have hbefore := hlt m hm
        rw [MplMsg.offset, MplMsg.offset, hseq] at hbefore
        rw [seqGe_iff hmsg hthere]
        exact Nat.not_le_of_lt hbefore
      have hdrop : decide (msg.seq ≠ there.minSeqno) = true := decide_eq_true heq
      have hmem' : there.minSeqno ∈ (msg :: rest).map MplMsg.seq ↔
          there.minSeqno ∈ rest.map MplMsg.seq := by
        rw [map_cons, mem_cons, or_iff_right (Ne.symm heq)]
      rw [hdrop, if_pos rfl, ih hmem hrest]
      by_cases hin : there.minSeqno ∈ rest.map MplMsg.seq
      · rw [if_pos hin, if_pos (hmem'.mpr hin), filter_cons_of_neg (by simpa using hmore hin)]
      · rw [if_neg hin, if_neg (fun h => hin (hmem'.mp h))]

/-- One of the first eight bits is set exactly where there is a message. -/
theorem any_announced (hthere : there.Ordered base) (hannounced : Announces bit vectorLen there) :
    (List.range 8).any bit = true ↔ there.minSeq ≠ [] := by
  have hsize := one_le_vecSize there
  rw [any_eq_true]
  constructor
  · rintro ⟨i, hi, hbit⟩
    obtain ⟨msg, hmsg, -⟩ := (hannounced.bits i (by
      have hlt := mem_range.mp hi
      omega)).mp hbit
    exact ne_nil_of_mem hmsg
  · intro hne
    obtain ⟨first, hfirst⟩ : ∃ first, there.minSeq.head? = some first :=
      ⟨_, List.head?_eq_some_head hne⟩
    refine ⟨0, by decide, (hannounced.bits 0 (by omega)).mpr
      ⟨first, mem_of_mem_head? hfirst, ?_⟩⟩
    rw [MplMsg.offset, hthere.head first hfirst, BitVec.sub_self]
    rfl

/-- A node without messages compares as it should. -/
theorem compareEmpty_agrees (hthere : there.Ordered base)
    (hannounced : Announces bit vectorLen there) (hnil : here.minSeq = [])
    (hfits : there.minSeq = [] ∨ ∃ msg ∈ there.minSeq, SeqGe msg.seq here.minSeqno) :
    Agrees here there ⟨(List.range 8).any bit, false, [], List.range 8⟩ := by
  refine ⟨?_, ?_, fun ptr => ?_⟩
  · rw [any_announced hthere hannounced]
    constructor
    · intro hne
      obtain ⟨msg, hmsg, hge⟩ := hfits.resolve_left hne
      refine ⟨msg, hmsg, hge, ?_⟩
      rw [MplSeed.seqs, hnil]
      exact not_mem_nil
    · rintro ⟨msg, hmsg, -⟩
      exact ne_nil_of_mem hmsg
  · rw [hnil]
    simp
  · rw [hnil]
    simp

/-- **A record is compared** as it should be where the sets and the vector fit. -/
theorem compareSeed_agrees (hhere : here.Ordered base) (hthere : there.Ordered base)
    (hannounced : Announces bit vectorLen there) (hfits : RecordFits bit here there) :
    ∃ fuel found, compareSeed there.minSeqno vectorLen bit fuel here.minSeq = some found ∧
      Agrees here there found := by
  rw [RecordFits] at hfits
  have hsize := hthere.vecSize_le
  have hlen := hannounced.len
  cases hmsgs : here.minSeq with
  | nil =>
    rw [hmsgs] at hfits
    exact ⟨0, _, rfl, compareEmpty_agrees hthere hannounced hmsgs hfits⟩
  | cons head rest =>
    rw [hmsgs] at hfits
    obtain ⟨hwrap, hoverlap, hdisjoint⟩ := hfits
    have hhead : head.seq = here.minSeqno := hhere.head head (by rw [hmsgs]; rfl)
    -- the walk from a message on
    have hwalk : ∀ r, overlapStart there.minSeqno vectorLen (head :: rest) =
        some (here.onward there.minSeqno, r) → Overlaps here there →
        here.onward there.minSeqno ≠ [] →
        (∀ msg ∈ here.onward there.minSeqno, r.toNat ≤ msg.offset there.minSeqno) →
        (∀ msg ∈ there.minSeq,
          r.toNat ≤ msg.offset there.minSeqno ↔ SeqGe msg.seq here.minSeqno) →
        ∃ fuel found, compareSeed there.minSeqno vectorLen bit fuel (head :: rest) = some found ∧
          Agrees here there found := by
      intro r hstart hoverlaps hne hfrom hbits
      refine ⟨0, _, ?_, walk_agrees hthere hannounced hbits
        ((hoverlap hoverlaps).walkFits hhere hthere hlen hne hfrom)⟩
      rw [compareSeed, hstart]
    have hsearch : overlapStart there.minSeqno vectorLen (head :: rest) = none →
        ¬ Overlaps here there →
        ∃ fuel found, compareSeed there.minSeqno vectorLen bit fuel (head :: rest) = some found ∧
          Agrees here there found := by
      intro hstart hapart
      obtain ⟨fuel, found, hfound, hagrees⟩ :=
        disjoint_agrees hhere hthere hannounced (hdisjoint hapart) hapart
      refine ⟨fuel, found, ?_, hagrees⟩
      rw [compareSeed, hstart, ← hmsgs]
      exact hfound
    by_cases hge : SeqGe here.minSeqno there.minSeqno
    · -- the messages here are all from the other's least number on
      have hmin := (seqGe_iff hhere.minSeqno hthere.minSeqno).mp hge
      have hall : here.onward there.minSeqno = head :: rest := by
        rw [← hmsgs]
        refine filter_eq_self.mpr fun msg hmsg => decide_eq_true ?_
        have hle := (seqGe_iff (hhere.within msg hmsg) hhere.minSeqno).mp (hhere.seqGe hmsg)
        exact (seqGe_iff (hhere.within msg hmsg) hthere.minSeqno).mpr (Nat.le_trans hmin hle)
      have hoff := toNat_sub_eq hhere.minSeqno hthere.minSeqno hge
      have hfrom : ∀ msg ∈ here.onward there.minSeqno,
          (here.minSeqno - there.minSeqno).toNat ≤ msg.offset there.minSeqno := by
        intro msg hmsg
        obtain ⟨hmem, hgeMsg⟩ := mem_onward.mp hmsg
        have hle := (seqGe_iff (hhere.within msg hmem) hhere.minSeqno).mp (hhere.seqGe hmem)
        rw [hoff, MplMsg.offset, toNat_sub_eq (hhere.within msg hmem) hthere.minSeqno hgeMsg]
        omega
      have hbits : ∀ msg ∈ there.minSeq,
          (here.minSeqno - there.minSeqno).toNat ≤ msg.offset there.minSeqno ↔
            SeqGe msg.seq here.minSeqno := by
        intro msg hmsg
        have hle := (seqGe_iff (hthere.within msg hmsg) hthere.minSeqno).mp (hthere.seqGe hmsg)
        rw [hoff, hthere.offset_eq hmsg, seqGe_iff (hthere.within msg hmsg) hhere.minSeqno,
          MplMsg.offset]
        omega
      by_cases hreach : (here.minSeqno - there.minSeqno).toNat ≤ vectorLen.toNat
      · refine hwalk (here.minSeqno - there.minSeqno) ?_ (Or.inr ⟨hge, by omega⟩)
          (by rw [hall]; exact cons_ne_nil _ _) hfrom hbits
        rw [overlapStart, hall, hhead]
        by_cases heq : here.minSeqno = there.minSeqno
        · rw [if_pos heq, heq, BitVec.sub_self]
          rfl
        · rw [if_neg heq, if_pos (hwrap.mpr ⟨heq, hge⟩),
            seekRemote_eq (by omega) (Nat.zero_le _) (Nat.zero_le _)
              (by rw [hlen]; exact Nat.lt_of_le_of_lt (Nat.sub_le _ _) (by omega)), if_pos hreach]
          exact if_neg (Nat.not_lt_of_le hreach)
      · have hne : ¬ here.minSeqno = there.minSeqno := by
          intro heq
          rw [heq, BitVec.sub_self] at hreach
          exact hreach (Nat.zero_le _)
        refine hsearch ?_ ?_
        · rw [overlapStart, hhead, if_neg hne, if_pos (hwrap.mpr ⟨hne, hge⟩),
            seekRemote_eq (by omega) (Nat.zero_le _) (Nat.zero_le _)
              (by rw [hlen]; exact Nat.lt_of_le_of_lt (Nat.sub_le _ _) (by omega)), if_neg hreach]
          refine if_pos ?_
          have hsucc : (vectorLen + 1).toNat = vectorLen.toNat + 1 := by bv_omega
          exact Nat.lt_of_lt_of_eq (Nat.lt_succ_self _) hsucc.symm
        · rintro (hmem | hnear)
          · obtain ⟨msg, hmsg, heq⟩ := mem_map.mp hmem
            have hle := (seqGe_iff (hhere.within msg hmsg) hhere.minSeqno).mp (hhere.seqGe hmsg)
            rw [heq] at hle
            exact hne (eq_of_sub_eq (Nat.le_antisymm hle hmin))
          · exact hreach (by rw [hlen]; exact hnear.2)
    · -- the messages here begin before the other's
      have hlower : (here.minSeqno - base).toNat < (there.minSeqno - base).toNat := by
        rw [seqGe_iff hhere.minSeqno hthere.minSeqno] at hge
        exact Nat.lt_of_not_le hge
      have hne : ¬ here.minSeqno = there.minSeqno := by
        intro heq
        rw [heq] at hlower
        exact Nat.lt_irrefl _ hlower
      have hgt : ¬ seqValIsGt here.minSeqno there.minSeqno = true := fun h =>
        hge (hwrap.mp h).2
      have hdrop := dropWhile_eq_onward hhere hthere.minSeqno
      rw [hmsgs] at hdrop
      by_cases hmem : there.minSeqno ∈ here.seqs
      · have honward : here.onward there.minSeqno ≠ [] := by
          obtain ⟨msg, hmsg, heq⟩ := mem_map.mp hmem
          refine ne_nil_of_mem (mem_onward.mpr ⟨hmsg, ?_⟩)
          rw [heq, SeqGe, BitVec.sub_self]
          decide
        refine hwalk 0 ?_ (Or.inl hmem) honward (fun _ _ => Nat.zero_le _) fun msg hmsg => ?_
        · rw [overlapStart, hhead, if_neg hne, if_neg hgt, hdrop, if_pos hmem]
          cases hlist : here.onward there.minSeqno with
          | nil => exact absurd hlist honward
          | cons first more => rfl
        · have hle := (seqGe_iff (hthere.within msg hmsg) hthere.minSeqno).mp (hthere.seqGe hmsg)
          refine ⟨fun _ => ?_, fun _ => Nat.zero_le _⟩
          exact (seqGe_iff (hthere.within msg hmsg) hhere.minSeqno).mpr (by omega)
      · refine hsearch ?_ (not_or.mpr ⟨hmem, fun h => hge h.1⟩)
        rw [overlapStart, hhead, if_neg hne, if_neg hgt, hdrop, if_neg hmem]

end

end Asap.Mpl
