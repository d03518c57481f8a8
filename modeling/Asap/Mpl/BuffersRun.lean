import Asap.Mpl.Buffers
import Asap.Mpl.Consistency

/-!
# Buffered messages stay in order

Two numbers are compared as they are, without a wrap, and a message is placed behind the first one
of its seed. So the lists stay in order as long as no number is taken that is more than half of the
space above the least one, and no message is taken for which the second message of its own seed
becomes the first. A number is not delivered twice as long as it is not that of the last message of
a seed that has been given up.

## Main definitions

* `BuffersOk` — the lists, the counts and the buffers as they should be.
* `InOrder` — what keeps them so.
* `SetsOk`, `Covered` — the invariant, with the comparison as it is.
-/

namespace Asap.Mpl

open Lib MplSets Function List

/-! ## The property -/

/-- A number is before another in half of the space. -/
def SerialLt (q r : BitVec 8) : Prop := q ≠ r ∧ SeqGe r q

instance (q r : BitVec 8) : Decidable (SerialLt q r) := inferInstanceAs (Decidable (_ ∧ _))

/-- Each used buffer is on the list of one seed and each list is of used buffers, in serial order,
not below the least number, and as long as the count says. -/
structure BuffersOk (cfg : MplSetsConfig) (st : MplSets) : Prop where
  owner : ∀ b < cfg.bufferedMessageSetSize, st.msgUsed b →
    ∃! i, i < cfg.seedSetSize ∧ st.seedUsed i ∧ b ∈ (st.seedSet i).minSeq
  held : ∀ i < cfg.seedSetSize, st.seedUsed i → ∀ b ∈ (st.seedSet i).minSeq,
    b < cfg.bufferedMessageSetSize ∧ st.msgUsed b
  ordered : ∀ i < cfg.seedSetSize, st.seedUsed i →
    ((st.seedSet i).minSeq.map st.seqOf).Pairwise SerialLt
  minSeqno : ∀ i < cfg.seedSetSize, st.seedUsed i → ∀ b ∈ (st.seedSet i).minSeq,
    SeqGe (st.seqOf b) (st.seedSet i).minSeqno
  count : ∀ i < cfg.seedSetSize, st.seedUsed i →
    (st.seedSet i).count.toNat = (st.seedSet i).minSeq.length

/-- A message that its seed takes does not break the order: its number is in half of the space
above the least one, it is not the number of the last message that has been given up, and where a
message has to be reclaimed, it is not one of the memory behind the seeds, and the message is not
before the second one of its seed if the first is reclaimed. A domain that goes is not the one that
the memory behind the seeds reads as. -/
def InOrder (cfg : MplSetsConfig) (w : MplWorld) : MplEvent → Prop
  | .receive msg => ∀ st i, w.sets.seedFor cfg msg = (st, some i) →
    (w.sets.seedSetLookup cfg msg.id msg.domain = some i →
      ((st.seedSet i).minSeq = [] → msg.seq ≠ (st.seedSet i).minSeqno) ∧
      ((st.seedSet i).minSeq ≠ [] → msg.seq.toNat < (st.seedSet i).minSeqno.toNat + 128)) ∧
    (st.freeBuffer cfg = none → st.largest cfg ≠ some cfg.seedSetSize ∧
      (st.largest cfg = some i → ∀ b c l, (st.seedSet i).minSeq = b :: c :: l →
        (st.seqOf c).toNat < msg.seq.toNat))
  | .freeDomain domain => (w.sets.seedSet cfg.seedSetSize).domain ≠ some domain
  | _ => True

/-! ## The invariant -/

/-- The invariant: the messages of a seed are in the order of their numbers, the first one has the
least number and the others are in half of the space above it. -/
structure SetsOk (cfg : MplSetsConfig) (st : MplSets) : Prop where
  owner : ∀ b < cfg.bufferedMessageSetSize, ∀ i, (st.bufferedMessageSet b).seed = some i →
    i < cfg.seedSetSize ∧ st.seedUsed i ∧ b ∈ (st.seedSet i).minSeq
  held : ∀ i < cfg.seedSetSize, st.seedUsed i → ∀ b ∈ (st.seedSet i).minSeq,
    b < cfg.bufferedMessageSetSize ∧ (st.bufferedMessageSet b).seed = some i
  sorted : ∀ i < cfg.seedSetSize, st.seedUsed i →
    (st.seedSet i).minSeq.Pairwise fun b c => (st.seqOf b).toNat < (st.seqOf c).toNat
  head : ∀ i < cfg.seedSetSize, st.seedUsed i → ∀ b ∈ (st.seedSet i).minSeq.head?,
    st.seqOf b = (st.seedSet i).minSeqno
  within : ∀ i < cfg.seedSetSize, st.seedUsed i → ∀ b ∈ (st.seedSet i).minSeq,
    (st.seqOf b).toNat < (st.seedSet i).minSeqno.toNat + 128
  count : ∀ i < cfg.seedSetSize, st.seedUsed i →
    (st.seedSet i).count.toNat = (st.seedSet i).minSeq.length

section

variable {cfg : MplSetsConfig} {st st' : MplSets} {i j b c : ℕ}

theorem SetsOk.init : SetsOk cfg MplWorld.init.sets where
  owner _ _ _ h := by cases h
  held _ _ h := Bool.noConfusion h
  sorted _ _ h := Bool.noConfusion h
  head _ _ h := Bool.noConfusion h
  within _ _ h := Bool.noConfusion h
  count _ _ h := Bool.noConfusion h

section

variable (h : SetsOk cfg st)

include h

/-- A message is not before the first one. -/
theorem SetsOk.minSeqno_le (hi : i < cfg.seedSetSize) (hu : st.seedUsed i)
    (hb : b ∈ (st.seedSet i).minSeq) : (st.seedSet i).minSeqno.toNat ≤ (st.seqOf b).toNat := by
  have hsorted := h.sorted i hi hu
  have hhead := h.head i hi hu
  cases hl : (st.seedSet i).minSeq with
  | nil => rw [hl] at hb; cases hb
  | cons x l =>
    rw [hl] at hb hsorted hhead
    rw [← hhead x rfl]
    rcases mem_cons.mp hb with rfl | hb
    · exact le_rfl
    · exact Nat.le_of_lt ((pairwise_cons.mp hsorted).1 b hb)

theorem SetsOk.buffersOk : BuffersOk cfg st where
  owner b hb hused := by
    have ⟨i, hi⟩ := Option.isSome_iff_exists.mp hused
    refine ⟨i, h.owner b hb i hi, fun j hj => ?_⟩
    have hseed := (h.held j hj.1 hj.2.1 b hj.2.2).2
    exact Option.some.inj (hseed.symm.trans hi)
  held i hi hu b hb := by
    have ⟨hlt, hseed⟩ := h.held i hi hu b hb
    exact ⟨hlt, by rw [msgUsed, hseed]; rfl⟩
  ordered i hi hu := by
    rw [pairwise_map]
    refine List.Pairwise.imp_of_mem ?_ (h.sorted i hi hu)
    intro b c hb hc hlt
    have hle := h.minSeqno_le hi hu hb
    have hwithin := h.within i hi hu c hc
    refine ⟨fun heq => ?_, ?_⟩
    · rw [heq] at hlt
      exact Nat.lt_irrefl _ hlt
    · rw [SeqGe]
      bv_omega
  minSeqno i hi hu b hb := by
    have hle := h.minSeqno_le hi hu hb
    have hwithin := h.within i hi hu b hb
    rw [SeqGe]
    bv_omega
  count := h.count

section

variable (hi : i < cfg.seedSetSize) (hu : st.seedUsed i)

include hi hu

/-- A list is no longer than half of the space. -/
theorem SetsOk.length_le :
    (st.seedSet i).minSeq.length ≤ 128 := by
  have hlow : ∀ b ∈ (st.seedSet i).minSeq, (st.seedSet i).minSeqno.toNat ≤ (st.seqOf b).toNat :=
    fun b hb => h.minSeqno_le hi hu hb
  have hnodup : ((st.seedSet i).minSeq.map fun b =>
      (st.seqOf b).toNat - (st.seedSet i).minSeqno.toNat).Nodup := by
    rw [List.Nodup, pairwise_map]
    refine List.Pairwise.imp_of_mem ?_ (h.sorted i hi hu)
    intro b c hb hc hlt
    have hle := hlow b hb
    omega
  have hsubset : ((st.seedSet i).minSeq.map fun b =>
      (st.seqOf b).toNat - (st.seedSet i).minSeqno.toNat) ⊆ List.range 128 := by
    intro x hx
    have ⟨b, hb, hbx⟩ := mem_map.mp hx
    have hwithin := h.within i hi hu b hb
    rw [mem_range]
    omega
  have hle := (subperm_of_subset hnodup hsubset).length_le
  rwa [length_map, length_range] at hle

theorem SetsOk.nodup :
    (st.seedSet i).minSeq.Nodup := by
  refine List.Pairwise.imp ?_ (h.sorted i hi hu)
  intro b c hlt heq
  rw [heq] at hlt
  exact Nat.lt_irrefl _ hlt

/-- A buffer is on the list of one seed. -/
theorem SetsOk.unique
    (hj : j < cfg.seedSetSize) (hv : st.seedUsed j) (hb : b ∈ (st.seedSet i).minSeq)
    (hc : b ∈ (st.seedSet j).minSeq) : i = j :=
  Option.some.inj ((h.held i hi hu b hb).2.symm.trans (h.held j hj hv b hc).2)

end

end

/-! ## Seeds that go -/

theorem bufferFrees_seedSet (l : List ℕ) : (l.foldl bufferFree st).seedSet = st.seedSet := by
  induction l generalizing st with
  | nil => rfl
  | cons b l ih => exact ih.trans rfl

theorem bufferFrees_seqOf (l : List ℕ) : (l.foldl bufferFree st).seqOf c = st.seqOf c := by
  induction l generalizing st with
  | nil => rfl
  | cons b l ih =>
    refine ih.trans ?_
    by_cases hc : c = b
    · rw [seqOf, bufferFree, hc, setMsg_self]
    · rw [seqOf, bufferFree, setMsg_of_ne st hc, seqOf]

theorem bufferFrees_seed (l : List ℕ) : ((l.foldl bufferFree st).bufferedMessageSet c).seed =
    if c ∈ l then none else (st.bufferedMessageSet c).seed := by
  induction l generalizing st with
  | nil => rfl
  | cons b l ih =>
    rw [foldl_cons, ih]
    by_cases hcl : c ∈ l
    · rw [if_pos hcl, if_pos (mem_cons_of_mem b hcl)]
    rw [if_neg hcl]
    by_cases hc : c = b
    · rw [hc, bufferFree, setMsg_self, if_pos (mem_cons_self ..)]
    · rw [bufferFree, setMsg_of_ne st hc, if_neg fun hmem => (mem_cons.mp hmem).elim hc hcl]

/-- What `seed_set_free` leaves. -/
theorem seedSetFree_seedSet (h : j ≠ i) : (st.seedSetFree i).seedSet j = st.seedSet j := by
  rw [seedSetFree, setSeed_of_ne _ h, bufferFrees_seedSet]

theorem seedSetFree_seqOf : (st.seedSetFree i).seqOf b = st.seqOf b := by
  show ((st.seedSet i).minSeq.foldl bufferFree st).seqOf b = st.seqOf b
  exact bufferFrees_seqOf _

theorem seedSetFree_seed : ((st.seedSetFree i).bufferedMessageSet b).seed =
    if b ∈ (st.seedSet i).minSeq then none else (st.bufferedMessageSet b).seed :=
  bufferFrees_seed _

theorem not_seedUsed_seedSetFree : (st.seedSetFree i).seedUsed i = false := by
  rw [seedUsed, seedSetFree, setSeed_self]
  rfl

/-- The seeds that are left have their messages. -/
structure SeedsLeft (cfg : MplSetsConfig) (st st' : MplSets) : Prop where
  used : ∀ i < cfg.seedSetSize, st'.seedUsed i → st.seedUsed i
  minSeq : ∀ i < cfg.seedSetSize, st'.seedUsed i → (st'.seedSet i).minSeq = (st.seedSet i).minSeq
  minSeqno : ∀ i < cfg.seedSetSize, st'.seedUsed i →
    (st'.seedSet i).minSeqno = (st.seedSet i).minSeqno
  count : ∀ i < cfg.seedSetSize, st'.seedUsed i → (st'.seedSet i).count = (st.seedSet i).count
  seqOf : ∀ b, st'.seqOf b = st.seqOf b
  seed : ∀ b < cfg.bufferedMessageSetSize, ∀ i, (st'.bufferedMessageSet b).seed = some i →
    (st.bufferedMessageSet b).seed = some i ∧ st'.seedUsed i
  held : ∀ i < cfg.seedSetSize, st'.seedUsed i → ∀ b ∈ (st.seedSet i).minSeq,
    (st.bufferedMessageSet b).seed = some i → (st'.bufferedMessageSet b).seed = some i

theorem SetsOk.left (h : SetsOk cfg st) (hleft : SeedsLeft cfg st st') : SetsOk cfg st' where
  owner b hb i hseed := by
    have ⟨hseed, hu⟩ := hleft.seed b hb i hseed
    have ⟨hi, _, hmem⟩ := h.owner b hb i hseed
    exact ⟨hi, hu, by rwa [hleft.minSeq i hi hu]⟩
  held i hi hu b hb := by
    rw [hleft.minSeq i hi hu] at hb
    have ⟨hlt, hseed⟩ := h.held i hi (hleft.used i hi hu) b hb
    exact ⟨hlt, hleft.held i hi hu b hb hseed⟩
  sorted i hi hu := by
    rw [hleft.minSeq i hi hu]
    simp only [hleft.seqOf]
    exact h.sorted i hi (hleft.used i hi hu)
  head i hi hu b hb := by
    rw [hleft.minSeq i hi hu] at hb
    rw [hleft.seqOf, hleft.minSeqno i hi hu]
    exact h.head i hi (hleft.used i hi hu) b hb
  within i hi hu b hb := by
    rw [hleft.minSeq i hi hu] at hb
    rw [hleft.seqOf, hleft.minSeqno i hi hu]
    exact h.within i hi (hleft.used i hi hu) b hb
  count i hi hu := by
    rw [hleft.minSeq i hi hu, hleft.count i hi hu]
    exact h.count i hi (hleft.used i hi hu)

theorem SeedsLeft.refl (h : SetsOk cfg st) : SeedsLeft cfg st st where
  used _ _ hu := hu
  minSeq _ _ _ := rfl
  minSeqno _ _ _ := rfl
  count _ _ _ := rfl
  seqOf _ := rfl
  seed b hb i hseed := ⟨hseed, (h.owner b hb i hseed).2.1⟩
  held _ _ _ _ _ hseed := hseed

theorem SeedsLeft.trans {st'' : MplSets} (h : SeedsLeft cfg st st')
    (h' : SeedsLeft cfg st' st'') : SeedsLeft cfg st st'' where
  used i hi hu := h.used i hi (h'.used i hi hu)
  minSeq i hi hu := (h'.minSeq i hi hu).trans (h.minSeq i hi (h'.used i hi hu))
  minSeqno i hi hu := (h'.minSeqno i hi hu).trans (h.minSeqno i hi (h'.used i hi hu))
  count i hi hu := (h'.count i hi hu).trans (h.count i hi (h'.used i hi hu))
  seqOf b := (h'.seqOf b).trans (h.seqOf b)
  seed b hb i hseed := by
    have ⟨hseed', hu⟩ := h'.seed b hb i hseed
    exact ⟨(h.seed b hb i hseed').1, hu⟩
  held i hi hu b hb hseed := by
    have hu' := h'.used i hi hu
    refine h'.held i hi hu b ?_ (h.held i hi hu' b hb hseed)
    rwa [h.minSeq i hi hu']

/-- A seed goes, with its messages. -/
theorem SetsOk.seedSetFree (h : SetsOk cfg st) (hi : i < cfg.seedSetSize) (hu : st.seedUsed i) :
    SeedsLeft cfg st (st.seedSetFree i) := by
  have hne : ∀ j, (st.seedSetFree i).seedUsed j → j ≠ i := by
    intro j hj heq
    rw [heq, not_seedUsed_seedSetFree] at hj
    cases hj
  have hsame : ∀ j, (st.seedSetFree i).seedUsed j →
      (st.seedSetFree i).seedSet j = st.seedSet j := fun j hj => seedSetFree_seedSet (hne j hj)
  have hused : ∀ j, (st.seedSetFree i).seedUsed j → st.seedUsed j := by
    intro j hj
    rw [seedUsed, hsame j hj] at hj
    exact hj
  refine ⟨fun j _ hj => hused j hj, fun j _ hj => by rw [hsame j hj],
    fun j _ hj => by rw [hsame j hj], fun j _ hj => by rw [hsame j hj],
    fun b => seedSetFree_seqOf, fun b hb j hseed => ?_,
    fun j hj hv b hb hseed => ?_⟩
  · rw [seedSetFree_seed] at hseed
    split at hseed
    · cases hseed
    · rename_i hmem
      refine ⟨hseed, ?_⟩
      have ⟨_, hv, hb'⟩ := h.owner b hb j hseed
      have hji : j ≠ i := fun heq => hmem (heq ▸ hb')
      rwa [seedUsed, seedSetFree_seedSet hji]
  · rw [seedSetFree_seed, if_neg fun hmem => hne j hv ?_]
    · exact hseed
    · exact (h.unique hi hu hj (hused j hv) hmem hb).symm

/-- A seed is rewritten, with its messages. -/
theorem SetsOk.setLifetime (h : SetsOk cfg st) (lifetime : BitVec 8) :
    SeedsLeft cfg st (st.setSeed i { st.seedSet i with lifetime := lifetime }) := by
  have hsame : ∀ j, ((st.setSeed i { st.seedSet i with lifetime := lifetime }).seedSet j).domain =
      (st.seedSet j).domain := by
    intro j
    by_cases hji : j = i
    · rw [hji, setSeed_self]
    · rw [setSeed_of_ne st hji]
  have hfields : ∀ j, ((st.setSeed i { st.seedSet i with lifetime := lifetime }).seedSet j).minSeq =
      (st.seedSet j).minSeq ∧ ((st.setSeed i { st.seedSet i with lifetime := lifetime }).seedSet
      j).minSeqno = (st.seedSet j).minSeqno ∧ ((st.setSeed i { st.seedSet i with
      lifetime := lifetime }).seedSet j).count = (st.seedSet j).count := by
    intro j
    by_cases hji : j = i
    · rw [hji, setSeed_self]
      exact ⟨rfl, rfl, rfl⟩
    · rw [setSeed_of_ne st hji]
      exact ⟨rfl, rfl, rfl⟩
  have hused : ∀ j, (st.setSeed i { st.seedSet i with lifetime := lifetime }).seedUsed j =
      st.seedUsed j := fun j => by rw [seedUsed, hsame, seedUsed]
  exact ⟨fun j _ hj => hused j ▸ hj, fun j _ _ => (hfields j).1, fun j _ _ => (hfields j).2.1,
    fun j _ _ => (hfields j).2.2, fun _ => rfl,
    fun b hb j hseed => ⟨hseed, (hused j).symm ▸ (h.owner b hb j hseed).2.1⟩,
    fun _ _ _ _ _ hseed => hseed⟩

theorem SetsOk.expireSeed (h : SetsOk cfg st) (hi : i < cfg.seedSetSize) (running : ℕ → Bool) :
    SeedsLeft cfg st (expireSeed running st i) := by
  have hfree : SeedsLeft cfg st (st.freeExpired running i) := by
    rw [freeExpired]
    split
    · rename_i hexpired
      exact h.seedSetFree hi hexpired.1
    · exact .refl h
  rw [MplSets.expireSeed, countDown]
  split
  · exact hfree.trans ((h.left hfree).setLifetime _)
  · exact hfree

/-- The loop over the seeds leaves some of them. -/
theorem SetsOk.foldl_left {f : MplSets → ℕ → MplSets} {l : List ℕ}
    (hf : ∀ st, SetsOk cfg st → ∀ i ∈ l, SeedsLeft cfg st (f st i)) (h : SetsOk cfg st) :
    SeedsLeft cfg st (l.foldl f st) := by
  induction l generalizing st with
  | nil => exact .refl h
  | cons i l ih =>
    have hi := hf st h i (mem_cons_self ..)
    exact hi.trans (ih (fun st hst j hj => hf st hst j (mem_cons_of_mem i hj)) (h.left hi))

theorem SetsOk.lifetimeTimerExpiration (h : SetsOk cfg st) (running : ℕ → Bool) :
    SeedsLeft cfg st (st.lifetimeTimerExpiration cfg running) :=
  h.foldl_left fun _ hst _ hi =>
    hst.expireSeed (mem_range.mp (mem_reverse.mp hi)) running

/-- A domain goes that the memory behind the seeds does not read as. -/
theorem SetsOk.domainSetFree (h : SetsOk cfg st) {domain : ℕ}
    (hbehind : (st.seedSet cfg.seedSetSize).domain ≠ some domain) :
    SeedsLeft cfg st (st.domainSetFree cfg domain) := by
  rw [MplSets.domainSetFree, range_succ, reverse_append, reverse_singleton,
    singleton_append, foldl_cons, if_neg hbehind]
  refine h.foldl_left fun st hst i hi => ?_
  split
  · rename_i hdomain
    exact hst.seedSetFree (mem_range.mp (mem_reverse.mp hi))
      (by rw [seedUsed, hdomain]; rfl)
  · exact .refl hst

/-! ## Reclaiming -/

/-- The loop of `buffer_reclaim` goes on with the larger seed. -/
theorem largestLoop_spec {l : List ℕ} {acc : Option ℕ} (h : st.largestLoop l acc = some i) :
    (acc = some i ∨ i ∈ l ∧ st.seedUsed i) ∧
      (∀ a, acc = some a → (st.seedSet a).count ≤ (st.seedSet i).count) ∧
      ∀ j ∈ l, st.seedUsed j → (st.seedSet j).count ≤ (st.seedSet i).count := by
  induction l generalizing acc with
  | nil =>
    refine ⟨.inl h, fun a ha => ?_, fun j hj => absurd hj not_mem_nil⟩
    rw [largestLoop, ha, Option.some.injEq] at h
    rw [h]
    exact BitVec.le_refl _
  | cons x l ih =>
    rw [largestLoop] at h
    split at h
    · rename_i hlarger
      rw [Bool.and_eq_true] at hlarger
      have ⟨hmem, hle, hall⟩ := ih h
      have hx := hle x rfl
      refine ⟨.inr ?_, fun a ha => ?_, fun j hj hu => ?_⟩
      · rcases hmem with hx | ⟨hmem, hu⟩
        · cases hx
          exact ⟨mem_cons_self .., hlarger.1⟩
        · exact ⟨mem_cons_of_mem x hmem, hu⟩
      · rw [ha, larger, decide_eq_true_eq] at hlarger
        exact BitVec.le_trans (BitVec.le_of_lt hlarger.2) hx
      · rcases mem_cons.mp hj with rfl | hj
        · exact hx
        · exact hall j hj hu
    · rename_i hlarger
      rw [Bool.and_eq_true] at hlarger
      have ⟨hmem, hle, hall⟩ := ih h
      refine ⟨hmem.imp_right fun hi => ⟨mem_cons_of_mem x hi.1, hi.2⟩, hle, fun j hj hu => ?_⟩
      rcases mem_cons.mp hj with rfl | hj
      · cases acc with
        | none => exact absurd ⟨hu, rfl⟩ hlarger
        | some a =>
          have hnot : ¬(st.seedSet a).count < (st.seedSet j).count :=
            fun hlt => hlarger ⟨hu, by rw [larger, decide_eq_true_eq]; exact hlt⟩
          exact BitVec.le_trans (BitVec.not_lt.mp hnot) (hle a rfl)
      · exact hall j hj hu

theorem largestLoop_none {l : List ℕ} {acc : Option ℕ} (h : st.largestLoop l acc = none) :
    acc = none ∧ ∀ j ∈ l, st.seedUsed j = false := by
  induction l generalizing acc with
  | nil => exact ⟨h, fun j hj => absurd hj not_mem_nil⟩
  | cons x l ih =>
    rw [largestLoop] at h
    split at h
    · have hsome := (ih h).1
      cases hsome
    · rename_i hlarger
      have ⟨hacc, hall⟩ := ih h
      refine ⟨hacc, fun j hj => ?_⟩
      rcases mem_cons.mp hj with rfl | hj
      · rw [hacc, larger, Bool.and_true, Bool.not_eq_true] at hlarger
        exact hlarger
      · exact hall j hj

/-- The largest seed, where it is not one of the memory behind the seeds. -/
theorem largest_spec (h : st.largest cfg = some i) (hbehind : i ≠ cfg.seedSetSize) :
    i < cfg.seedSetSize ∧ st.seedUsed i ∧
      ∀ j < cfg.seedSetSize, st.seedUsed j → (st.seedSet j).count ≤ (st.seedSet i).count := by
  have ⟨hmem, _, hall⟩ := largestLoop_spec h
  have ⟨hmem, hu⟩ := hmem.resolve_left fun hnone => by cases hnone
  rw [mem_reverse, mem_range] at hmem
  exact ⟨by omega, hu, fun j hj => hall j (mem_reverse.mpr (mem_range.mpr (by omega)))⟩

/-- What a message gives way to: the state after the first message of a seed has been given up. -/
structure Reclaimed (cfg : MplSetsConfig) (st : MplSets) (i b : ℕ) (rest : List ℕ) (st' : MplSets) :
    Prop where
  lt : i < cfg.seedSetSize
  used : st.seedUsed i
  largest : ∀ j < cfg.seedSetSize, st.seedUsed j → (st.seedSet j).count ≤ (st.seedSet i).count
  minSeq : (st.seedSet i).minSeq = b :: rest
  eq : st' = (st.setSeed i { st.seedSet i with
    minSeq := rest
    minSeqno := st.seqOf (rest.headD b)
    count := (st.seedSet i).count - 1 }).setMsg b ⟨none, 0⟩

/-- **A buffer can be reclaimed** where all are used. -/
theorem SetsOk.reclaim (h : SetsOk cfg st) (hpos : 0 < cfg.bufferedMessageSetSize)
    (hfree : st.freeBuffer cfg = none) (hbehind : st.largest cfg ≠ some cfg.seedSetSize) :
    ∃ i b rest st', st.largest cfg = some i ∧ Reclaimed cfg st i b rest st' ∧
      st.bufferReclaim cfg = some (st', some b) := by
  have hused : st.msgUsed 0 := by
    have hnot := List.find?_eq_none.mp hfree 0 (mem_reverse.mpr (mem_range.mpr hpos))
    simpa using hnot
  have ⟨k, hk⟩ := Option.isSome_iff_exists.mp hused
  have ⟨hlt, hku, hmem⟩ := h.owner 0 hpos k hk
  cases hlargest : st.largest cfg with
  | none =>
    have hall := (largestLoop_none hlargest).2 k
      (mem_reverse.mpr (mem_range.mpr (by omega)))
    rw [hall] at hku
    cases hku
  | some i =>
    rw [hlargest] at hbehind
    have ⟨hi, hu, hle⟩ := largest_spec hlargest fun heq => hbehind (congrArg some heq)
    cases hl : (st.seedSet i).minSeq with
    | nil =>
      have hcount := h.count i hi hu
      have hcountk := h.count k hlt hku
      have hlek := hle k hlt hku
      have hlen := length_pos_of_mem hmem
      rw [hl, length_nil] at hcount
      rw [BitVec.le_def] at hlek
      omega
    | cons b rest =>
      refine ⟨i, b, rest, _, rfl, ⟨hi, hu, hle, hl, rfl⟩, ?_⟩
      rw [bufferReclaim, hlargest]
      simp only [hl]

namespace Reclaimed

variable {rest : List ℕ}

section

variable (h : Reclaimed cfg st i b rest st')

include h

theorem seedSet_self : st'.seedSet i =
    { st.seedSet i with
      minSeq := rest, minSeqno := st.seqOf (rest.headD b), count := (st.seedSet i).count - 1 } := by
  rw [h.eq, setMsg_seed, setSeed_self]

theorem seedSet_of_ne (hj : j ≠ i) :
    st'.seedSet j = st.seedSet j := by
  rw [h.eq, setMsg_seed, setSeed_of_ne st hj]

theorem seqOf_of_ne (hc : c ≠ b) :
    st'.seqOf c = st.seqOf c := by
  rw [seqOf, h.eq, setMsg_of_ne _ hc, setSeed_msg, seqOf]

theorem seed_self : (st'.bufferedMessageSet b).seed = none := by
  rw [h.eq, setMsg_self]

theorem seed_of_ne (hc : c ≠ b) :
    (st'.bufferedMessageSet c).seed = (st.bufferedMessageSet c).seed := by
  rw [h.eq, setMsg_of_ne _ hc, setSeed_msg]

theorem seedUsed : st'.seedUsed j = st.seedUsed j := by
  by_cases hj : j = i
  · rw [MplSets.seedUsed, hj, h.seedSet_self, MplSets.seedUsed]
  · rw [MplSets.seedUsed, h.seedSet_of_ne hj, MplSets.seedUsed]

/-- The buffer is on no list any more. -/
theorem not_mem (hok : SetsOk cfg st)
    (hj : j < cfg.seedSetSize) (hu : st.seedUsed j) : b ∉ (st'.seedSet j).minSeq := by
  have hb : b ∈ (st.seedSet i).minSeq := h.minSeq ▸ mem_cons_self ..
  by_cases hji : j = i
  · rw [hji, h.seedSet_self]
    have hnodup := hok.nodup h.lt h.used
    rw [h.minSeq] at hnodup
    exact (nodup_cons.mp hnodup).1
  · rw [h.seedSet_of_ne hji]
    exact fun hmem => hji (hok.unique hj hu h.lt h.used hmem hb)

/-- **The invariant after a reclaim.** -/
theorem setsOk (hok : SetsOk cfg st) : SetsOk cfg st' := by
  have hsub : ∀ j < cfg.seedSetSize, st.seedUsed j →
      ((st'.seedSet j).minSeq).Sublist (st.seedSet j).minSeq := by
    intro j _ _
    by_cases hji : j = i
    · rw [hji, h.seedSet_self, h.minSeq]
      exact sublist_cons_self b rest
    · rw [h.seedSet_of_ne hji]
  have hne : ∀ j < cfg.seedSetSize, st.seedUsed j → ∀ c ∈ (st'.seedSet j).minSeq, c ≠ b :=
    fun j hj hu c hc heq => h.not_mem hok hj hu (heq ▸ hc)
  have hmin := hok.minSeqno_le h.lt h.used (h.minSeq ▸ mem_cons_self ..)
  have hsorted := hok.sorted i h.lt h.used
  rw [h.minSeq, pairwise_cons] at hsorted
  refine ⟨fun c hc j hseed => ?_, fun j hj hv c hc => ?_, fun j hj hv => ?_, fun j hj hv c hc => ?_,
    fun j hj hv c hc => ?_, fun j hj hv => ?_⟩
  · have hcb : c ≠ b := fun heq => by rw [heq, h.seed_self] at hseed; cases hseed
    rw [h.seed_of_ne hcb] at hseed
    have ⟨hj, hu, hmem⟩ := hok.owner c hc j hseed
    refine ⟨hj, h.seedUsed.trans hu, ?_⟩
    by_cases hji : j = i
    · rw [hji, h.minSeq, mem_cons] at hmem
      rw [hji, h.seedSet_self]
      exact hmem.resolve_left hcb
    · rwa [h.seedSet_of_ne hji]
  · rw [h.seedUsed] at hv
    have ⟨hlt, hseed⟩ := hok.held j hj hv c ((hsub j hj hv).subset hc)
    exact ⟨hlt, (h.seed_of_ne (hne j hj hv c hc)).trans hseed⟩
  · rw [h.seedUsed] at hv
    refine ((hok.sorted j hj hv).sublist (hsub j hj hv)).imp_of_mem ?_
    intro c d hc hd hlt
    rwa [h.seqOf_of_ne (hne j hj hv c hc), h.seqOf_of_ne (hne j hj hv d hd)]
  · rw [h.seedUsed] at hv
    rw [h.seqOf_of_ne (hne j hj hv c (mem_of_mem_head? hc))]
    by_cases hji : j = i
    · rw [hji, h.seedSet_self] at hc ⊢
      cases rest with
      | nil => cases hc
      | cons x rest => cases hc; rfl
    · rw [h.seedSet_of_ne hji] at hc ⊢
      exact hok.head j hj hv c hc
  · rw [h.seedUsed] at hv
    have hwithin := hok.within j hj hv c ((hsub j hj hv).subset hc)
    rw [h.seqOf_of_ne (hne j hj hv c hc)]
    by_cases hji : j = i
    · rw [hji] at hwithin
      rw [hji, h.seedSet_self] at hc ⊢
      cases rest with
      | nil => cases hc
      | cons x rest =>
        have hlt := hsorted.1 x (mem_cons_self ..)
        show (st.seqOf c).toNat < (st.seqOf x).toNat + 128
        omega
    · rwa [h.seedSet_of_ne hji]
  · rw [h.seedUsed] at hv
    by_cases hji : j = i
    · have hcount := hok.count i h.lt h.used
      rw [h.minSeq, length_cons] at hcount
      rw [hji, h.seedSet_self]
      show ((st.seedSet i).count - 1).toNat = rest.length
      bv_omega
    · rw [h.seedSet_of_ne hji]
      exact hok.count j hj hv

end

end Reclaimed

/-! ## Placing a message -/

/-- **A message behind the first one** is placed in order. -/
theorem insertMsg_spec {x : ℕ} {l : List ℕ}
    (hsorted : (x :: l).Pairwise fun b c => (st.seqOf b).toNat < (st.seqOf c).toNat)
    (hx : (st.seqOf x).toNat < (st.seqOf b).toNat) (hne : ∀ c ∈ l, st.seqOf c ≠ st.seqOf b) :
    ∃ l', st.insertMsg b (x :: l) = x :: l' ∧ l'.Perm (b :: l) ∧
      (x :: l').Pairwise fun b c => (st.seqOf b).toNat < (st.seqOf c).toNat := by
  induction l generalizing x with
  | nil => exact ⟨[b], rfl, .refl _, pairwise_pair.mpr hx⟩
  | cons y l ih =>
    have ⟨hxl, hyl⟩ := pairwise_cons.mp hsorted
    rw [insertMsg]
    split
    · rename_i hbetween
      have hby := seqValIsLt_iff.mp hbetween.2
      refine ⟨b :: y :: l, rfl, .refl _, pairwise_cons.mpr ⟨fun c hc => ?_,
        pairwise_cons.mpr ⟨fun c hc => ?_, hyl⟩⟩⟩
      · rcases mem_cons.mp hc with rfl | hc
        · exact hx
        · exact hxl c hc
      · rcases mem_cons.mp hc with rfl | hc
        · exact hby
        · exact Nat.lt_trans hby ((pairwise_cons.mp hyl).1 c hc)
    · rename_i hnot
      have hy : (st.seqOf y).toNat < (st.seqOf b).toNat := by
        have hney : (st.seqOf y).toNat ≠ (st.seqOf b).toNat :=
          fun heq => hne y (mem_cons_self ..) (BitVec.eq_of_toNat_eq heq)
        rw [seqValIsGt_iff, seqValIsLt_iff] at hnot
        omega
      have ⟨l', hl', hperm, hsorted'⟩ := ih hyl hy fun c hc => hne c (mem_cons_of_mem y hc)
      rw [hl']
      refine ⟨y :: l', rfl, (hperm.cons y).trans (.swap b y l),
        pairwise_cons.mpr ⟨fun c hc => ?_, hsorted'⟩⟩
      rcases mem_cons.mp hc with rfl | hc
      · exact hxl c (mem_cons_self ..)
      · rcases mem_cons.mp (hperm.subset hc) with rfl | hc
        · exact hx
        · exact hxl c (mem_cons_of_mem y hc)

/-- A number fits a list: it comes behind the first one, within half of the space, and is not
there. -/
def Fits (st : MplSets) (i : ℕ) (seq : BitVec 8) : Prop :=
  (st.seedSet i).minSeq ≠ [] → (st.seedSet i).minSeqno.toNat < seq.toNat ∧
    seq.toNat < (st.seedSet i).minSeqno.toNat + 128 ∧
    ∀ c ∈ (st.seedSet i).minSeq, st.seqOf c ≠ seq

/-- What a placed message leaves: its list has it and begins as before, or with it. -/
structure Placed (cfg : MplSetsConfig) (st : MplSets) (i b : ℕ) (seq : BitVec 8) (st' : MplSets) :
    Prop where
  perm : (st'.seedSet i).minSeq.Perm (b :: (st.seedSet i).minSeq)
  minSeqno : (st'.seedSet i).minSeqno =
    if (st.seedSet i).minSeq = [] then seq else (st.seedSet i).minSeqno
  head : ∀ c ∈ (st'.seedSet i).minSeq.head?, st'.seqOf c = (st'.seedSet i).minSeqno
  sorted : (st'.seedSet i).minSeq.Pairwise fun b c => (st'.seqOf b).toNat < (st'.seqOf c).toNat
  count : (st'.seedSet i).count = (st.seedSet i).count + 1
  domain : (st'.seedSet i).domain = (st.seedSet i).domain
  seedSet : ∀ j, j ≠ i → st'.seedSet j = st.seedSet j
  seqOf_self : st'.seqOf b = seq
  seqOf : ∀ c, c ≠ b → st'.seqOf c = st.seqOf c
  seed_self : (st'.bufferedMessageSet b).seed = some i
  seed : ∀ c, c ≠ b → (st'.bufferedMessageSet c).seed = (st.bufferedMessageSet c).seed

theorem SetsOk.place {seq : BitVec 8} (h : SetsOk cfg st) (hi : i < cfg.seedSetSize)
    (hu : st.seedUsed i) (hfits : Fits st i seq) (hb : b ∉ (st.seedSet i).minSeq) :
    Placed cfg st i b seq (st.place cfg i b seq) := by
  have hmsg : (st.place cfg i b seq).bufferedMessageSet =
      update st.bufferedMessageSet b ⟨some i, seq⟩ := rfl
  have hseqOf : ∀ c, c ≠ b → (st.place cfg i b seq).seqOf c = st.seqOf c := by
    intro c hc
    rw [MplSets.seqOf, hmsg, update_of_ne hc, MplSets.seqOf]
  have hself : (st.place cfg i b seq).seqOf b = seq := by
    rw [MplSets.seqOf, hmsg, update_self]
  have hseed : (st.place cfg i b seq).seedSet i =
      let seed := if (st.seedSet i).minSeq = [] then
          { st.seedSet i with minSeq := [b], minSeqno := seq }
        else { st.seedSet i with
          minSeq := (st.setMsg b ⟨some i, seq⟩).insertMsg b (st.seedSet i).minSeq }
      { seed with count := seed.count + 1, lifetime := cfg.entryLifetime } := setSeed_self ..
  have hrest : (∀ j, j ≠ i → (st.place cfg i b seq).seedSet j = st.seedSet j) ∧
      ((st.place cfg i b seq).bufferedMessageSet b).seed = some i ∧
      ∀ c, c ≠ b → ((st.place cfg i b seq).bufferedMessageSet c).seed =
        (st.bufferedMessageSet c).seed := by
    refine ⟨fun j hj => setSeed_of_ne _ hj _, ?_, fun c hc => ?_⟩
    · rw [hmsg, update_self]
    · rw [hmsg, update_of_ne hc]
  cases hl : (st.seedSet i).minSeq with
  | nil =>
    simp only [if_pos hl] at hseed
    refine ⟨?_, ?_, fun c hc => ?_, ?_, ?_, ?_, hrest.1, hself, hseqOf, hrest.2.1, hrest.2.2⟩
    · rw [hseed, hl]
    · rw [hseed, if_pos hl]
    · rw [hseed] at hc ⊢
      rw [← Option.some.inj hc]
      exact hself
    · rw [hseed]
      exact pairwise_singleton _ b
    · rw [hseed]
    · rw [hseed]
  | cons x l =>
    have hne : (st.seedSet i).minSeq ≠ [] := by rw [hl]; exact cons_ne_nil x l
    have ⟨hlt, _, hnew⟩ := hfits hne
    have hcb : ∀ c ∈ x :: l, c ≠ b := fun c hc heq => hb (hl ▸ heq ▸ hc)
    have hold : ∀ c ∈ x :: l, (st.place cfg i b seq).seqOf c = st.seqOf c :=
      fun c hc => hseqOf c (hcb c hc)
    have hsorted := h.sorted i hi hu
    have hhead := h.head i hi hu x (by rw [hl]; rfl)
    rw [hl] at hsorted hnew
    -- the numbers are read after the message has been written to its buffer
    let st₁ := st.setMsg b ⟨some i, seq⟩
    have hold₁ : ∀ c ∈ x :: l, st₁.seqOf c = st.seqOf c := hold
    have hself₁ : st₁.seqOf b = seq := hself
    have hsorted₁ : (x :: l).Pairwise fun b c => (st₁.seqOf b).toNat < (st₁.seqOf c).toNat :=
      hsorted.imp_of_mem fun hc hd hlt => by rwa [hold₁ _ hc, hold₁ _ hd]
    have hx : (st₁.seqOf x).toNat < (st₁.seqOf b).toNat := by
      rw [hold₁ x (mem_cons_self ..), hself₁, hhead]
      exact hlt
    have hnew₁ : ∀ c ∈ l, st₁.seqOf c ≠ st₁.seqOf b := by
      intro c hc
      rw [hold₁ c (mem_cons_of_mem x hc), hself₁]
      exact hnew c (mem_cons_of_mem x hc)
    have ⟨l', hinsert, hperm, hsorted'⟩ := insertMsg_spec hsorted₁ hx hnew₁
    simp only [if_neg hne] at hseed
    have hminSeq : ((st.place cfg i b seq).seedSet i).minSeq = x :: l' := by
      rw [hseed]
      show st₁.insertMsg b (st.seedSet i).minSeq = x :: l'
      rw [hl, hinsert]
    refine ⟨?_, ?_, fun c hc => ?_, ?_, ?_, ?_, hrest.1, hself, hseqOf, hrest.2.1, hrest.2.2⟩
    · rw [hminSeq, hl]
      exact (hperm.cons x).trans (.swap b x l)
    · rw [hseed, if_neg hne]
    · rw [hminSeq] at hc
      rw [← Option.some.inj hc, hold x (mem_cons_self ..), hseed, hhead]
    · rw [hminSeq]
      exact hsorted'
    · rw [hseed]
    · rw [hseed]

theorem Placed.setsOk {seq : BitVec 8} (hp : Placed cfg st i b seq st') (h : SetsOk cfg st)
    (hi : i < cfg.seedSetSize) (hu : st.seedUsed i) (hfits : Fits st i seq)
    (hb : b < cfg.bufferedMessageSetSize) (hfree : (st.bufferedMessageSet b).seed = none) :
    SetsOk cfg st' := by
  have hused : ∀ j, st'.seedUsed j = st.seedUsed j := by
    intro j
    by_cases hj : j = i
    · rw [seedUsed, hj, hp.domain, seedUsed]
    · rw [seedUsed, hp.seedSet j hj, seedUsed]
  have hnot : ∀ j < cfg.seedSetSize, st.seedUsed j → ∀ c ∈ (st.seedSet j).minSeq, c ≠ b := by
    intro j hj hv c hc heq
    have hseed := (h.held j hj hv c hc).2
    rw [heq, hfree] at hseed
    cases hseed
  refine ⟨fun c hc j hseed => ?_, fun j hj hv c hc => ?_, fun j hj hv => ?_, fun j hj hv c hc => ?_,
    fun j hj hv c hc => ?_, fun j hj hv => ?_⟩
  · by_cases hcb : c = b
    · rw [hcb, hp.seed_self] at hseed
      cases hseed
      exact ⟨hi, (hused i).trans hu, hcb ▸ hp.perm.symm.subset (mem_cons_self ..)⟩
    · rw [hp.seed c hcb] at hseed
      have ⟨hj, hv, hmem⟩ := h.owner c hc j hseed
      refine ⟨hj, (hused j).trans hv, ?_⟩
      by_cases hji : j = i
      · rw [hji] at hmem ⊢
        exact hp.perm.symm.subset (mem_cons_of_mem b hmem)
      · rwa [hp.seedSet j hji]
  · rw [hused] at hv
    by_cases hji : j = i
    · rw [hji] at hc ⊢
      rcases mem_cons.mp (hp.perm.subset hc) with rfl | hc
      · exact ⟨hb, hp.seed_self⟩
      · have ⟨hlt, hseed⟩ := h.held i hi hu c hc
        exact ⟨hlt, (hp.seed c (hnot i hi hu c hc)).trans hseed⟩
    · rw [hp.seedSet j hji] at hc
      have ⟨hlt, hseed⟩ := h.held j hj hv c hc
      exact ⟨hlt, (hp.seed c (hnot j hj hv c hc)).trans hseed⟩
  · rw [hused] at hv
    by_cases hji : j = i
    · rw [hji]
      exact hp.sorted
    · rw [hp.seedSet j hji]
      refine (h.sorted j hj hv).imp_of_mem ?_
      intro c d hc hd hlt
      rwa [hp.seqOf c (hnot j hj hv c hc), hp.seqOf d (hnot j hj hv d hd)]
  · rw [hused] at hv
    by_cases hji : j = i
    · rw [hji] at hc ⊢
      exact hp.head c hc
    · rw [hp.seedSet j hji] at hc ⊢
      rw [hp.seqOf c (hnot j hj hv c (mem_of_mem_head? hc))]
      exact h.head j hj hv c hc
  · rw [hused] at hv
    by_cases hji : j = i
    · rw [hji] at hc ⊢
      rw [hp.minSeqno]
      rcases mem_cons.mp (hp.perm.subset hc) with rfl | hc
      · rw [hp.seqOf_self]
        split
        · omega
        · rename_i hne
          exact (hfits hne).2.1
      · rw [hp.seqOf c (hnot i hi hu c hc), if_neg (ne_nil_of_mem hc)]
        exact h.within i hi hu c hc
    · rw [hp.seedSet j hji] at hc ⊢
      rw [hp.seqOf c (hnot j hj hv c hc)]
      exact h.within j hj hv c hc
  · rw [hused] at hv
    by_cases hji : j = i
    · have hcount := h.count i hi hu
      have hlen := h.length_le hi hu
      rw [hji, hp.count, hp.perm.length_eq, length_cons]
      bv_omega
    · rw [hp.seedSet j hji]
      exact h.count j hj hv

/-! ## Delivered numbers -/

/-- A number that has been delivered cannot be taken again: it is buffered, below the least number,
or that of the last message, which has been given up. -/
def Covered (st : MplSets) (i : ℕ) (d : BitVec 8) : Prop :=
  (∃ b ∈ (st.seedSet i).minSeq, st.seqOf b = d) ∨ d.toNat < (st.seedSet i).minSeqno.toNat ∨
    (st.seedSet i).minSeq = [] ∧ d = (st.seedSet i).minSeqno

/-- The invariant of a run. -/
structure MplOk (cfg : MplSetsConfig) (w : MplWorld) : Prop where
  sets : SetsOk cfg w.sets
  nodup : ∀ i < cfg.seedSetSize, w.sets.seedUsed i → (w.delivered i).Nodup
  covered : ∀ i < cfg.seedSetSize, w.sets.seedUsed i → ∀ d ∈ w.delivered i, Covered w.sets i d

theorem Covered.left {d : BitVec 8} (h : Covered st i d) (hleft : SeedsLeft cfg st st')
    (hi : i < cfg.seedSetSize) (hu : st'.seedUsed i) : Covered st' i d := by
  rw [Covered, hleft.minSeq i hi hu, hleft.minSeqno i hi hu]
  simp only [hleft.seqOf]
  exact h

theorem MplOk.left {w : MplWorld} (h : MplOk cfg w) (hleft : SeedsLeft cfg w.sets st) :
    MplOk cfg ⟨st, w.delivered⟩ where
  sets := h.sets.left hleft
  nodup i hi hu := h.nodup i hi (hleft.used i hi hu)
  covered i hi hu d hd := (h.covered i hi (hleft.used i hi hu) d hd).left hleft hi hu

/-- What has been delivered is covered after a reclaim. -/
theorem Covered.reclaimed {rest : List ℕ} {d : BitVec 8} (h : Covered st j d)
    (hr : Reclaimed cfg st i b rest st') (hok : SetsOk cfg st) (hj : j < cfg.seedSetSize)
    (hu : st.seedUsed j) : Covered st' j d := by
  by_cases hji : j = i
  · have hhead := hok.head i hr.lt hr.used b (by rw [hr.minSeq]; rfl)
    have hsorted := hok.sorted i hr.lt hr.used
    have hnot := hr.not_mem hok hr.lt hr.used
    rw [hr.seedSet_self] at hnot
    rw [hr.minSeq, pairwise_cons] at hsorted
    rw [hji, Covered, hr.minSeq] at h
    rw [hji, Covered, hr.seedSet_self]
    have hlow : d.toNat ≤ (st.seqOf b).toNat → d.toNat < (st.seqOf (rest.headD b)).toNat ∨
        rest = [] ∧ d.toNat ≤ (st.seqOf (rest.headD b)).toNat := by
      intro hle
      cases rest with
      | nil => exact .inr ⟨rfl, hle⟩
      | cons x rest => exact .inl (Nat.lt_of_le_of_lt hle (hsorted.1 x (mem_cons_self ..)))
    have hcovered : d.toNat ≤ (st.seqOf b).toNat →
        (∃ c ∈ rest, st'.seqOf c = d) ∨ d.toNat < (st.seqOf (rest.headD b)).toNat ∨
          rest = [] ∧ d = st.seqOf (rest.headD b) := by
      intro hle
      rcases hlow hle with hlt | ⟨hnil, hle⟩
      · exact .inr (.inl hlt)
      · rcases Nat.lt_or_eq_of_le hle with hlt | heq
        · exact .inr (.inl hlt)
        · exact .inr (.inr ⟨hnil, BitVec.eq_of_toNat_eq heq⟩)
    rcases h with ⟨c, hc, hd⟩ | hlt | ⟨hnil, _⟩
    · rcases mem_cons.mp hc with rfl | hc
      · exact hcovered (by rw [hd])
      · left
        refine ⟨c, hc, ?_⟩
        rw [hr.seqOf_of_ne fun heq => hnot (heq ▸ hc), hd]
    · exact hcovered (by rw [hhead]; omega)
    · cases hnil
  · rw [Covered, hr.seedSet_of_ne hji]
    rcases h with ⟨c, hc, hd⟩ | h
    · left
      refine ⟨c, hc, ?_⟩
      have hnot := hr.not_mem hok hj hu
      rw [hr.seedSet_of_ne hji] at hnot
      rw [hr.seqOf_of_ne fun heq => hnot (heq ▸ hc), hd]
    · exact .inr h

/-- What has been delivered is covered after a number above the least one has been placed. -/
theorem Covered.placed {seq d : BitVec 8} (h : Covered st j d) (hp : Placed cfg st i b seq st')
    (hseq : j = i → (st.seedSet i).minSeqno.toNat < seq.toNat)
    (hnot : b ∉ (st.seedSet j).minSeq) : Covered st' j d := by
  have hold : ∀ c ∈ (st.seedSet j).minSeq, st'.seqOf c = st.seqOf c :=
    fun c hc => hp.seqOf c fun heq => hnot (heq ▸ hc)
  by_cases hji : j = i
  · have hlt := hseq hji
    rw [hji] at hold
    rw [hji, Covered] at h ⊢
    rcases h with ⟨c, hc, hd⟩ | hd | ⟨hnil, hd⟩
    · exact .inl ⟨c, hp.perm.symm.subset (mem_cons_of_mem b hc), (hold c hc).trans hd⟩
    · right; left
      rw [hp.minSeqno]
      split
      · omega
      · exact hd
    · right; left
      rw [hp.minSeqno, if_pos hnil, hd]
      exact hlt
  · rw [Covered, hp.seedSet j hji]
    rcases h with ⟨c, hc, hd⟩ | h
    · exact .inl ⟨c, hc, (hold c hc).trans hd⟩
    · exact .inr h

/-- A number above the least one that is not buffered has not been delivered. -/
theorem Covered.ne {d seq : BitVec 8} (h : Covered st i d)
    (hseq : (st.seedSet i).minSeqno.toNat < seq.toNat)
    (hnew : ∀ c ∈ (st.seedSet i).minSeq, st.seqOf c ≠ seq) : d ≠ seq := by
  intro heq
  rcases h with ⟨c, hc, hd⟩ | hd | ⟨_, hd⟩
  · exact hnew c hc (hd.trans heq)
  · rw [heq] at hd
    omega
  · rw [← hd, heq] at hseq
    exact Nat.lt_irrefl _ hseq

/-! ## A message that is taken -/

/-- The seed that a message is taken for: one that is known, or a new entry. -/
theorem seedFor_spec {msg : DataMsg} (h : st.seedFor cfg msg = (st', some i)) :
    i < cfg.seedSetSize ∧
    (st.seedSetLookup cfg msg.id msg.domain = some i ∧ st' = st ∧ st.seedUsed i ∧
        (st.seedSet i).minSeqno.toNat ≤ msg.seq.toNat ∧
        (∀ b ∈ (st.seedSet i).minSeq, st.seqOf b ≠ msg.seq) ∨
      st.seedSetLookup cfg msg.id msg.domain = none ∧ st.freeSeed cfg = some i ∧
        st.seedUsed i = false ∧
        st' = st.setSeed i ⟨msg.id, 0, 0, 0, [], some msg.domain⟩) := by
  rw [seedFor] at h
  cases hlookup : st.seedSetLookup cfg msg.id msg.domain with
  | some k =>
    rw [hlookup] at h
    have hmem := mem_range.mp (mem_reverse.mp (mem_of_find?_eq_some hlookup))
    have hk := List.find?_some hlookup
    rw [decide_eq_true_eq] at hk
    simp only at h
    split at h
    · cases h
    · rename_i hold
      split at h
      · cases h
      · rename_i hseen
        cases h
        refine ⟨hmem, .inl ⟨rfl, rfl, hk.1, ?_, fun b hb heq => ?_⟩⟩
        · rw [seqValIsLt_iff] at hold
          omega
        · exact hseen (any_eq_true.mpr ⟨b, hb, decide_eq_true heq⟩)
  | none =>
    rw [hlookup] at h
    simp only at h
    cases hfree : st.freeSeed cfg with
    | none => rw [hfree] at h; cases h
    | some k =>
      rw [hfree] at h
      have hmem := mem_range.mp (mem_reverse.mp (mem_of_find?_eq_some hfree))
      have hk := List.find?_some hfree
      rw [Bool.not_eq_true'] at hk
      cases h
      exact ⟨hmem, .inr ⟨rfl, rfl, hk, rfl⟩⟩

/-- A new entry has no messages. -/
theorem SetsOk.fresh (h : SetsOk cfg st) (hu : st.seedUsed i = false) {e : SeedEntry}
    (hnil : e.minSeq = []) (hcount : e.count = 0) : SetsOk cfg (st.setSeed i e) := by
  have hne : ∀ j, st.seedUsed j → j ≠ i := by
    intro j hj heq
    rw [heq, hu] at hj
    cases hj
  have hcases : ∀ j, ((st.setSeed i e).seedSet j).minSeq = [] ∧
      ((st.setSeed i e).seedSet j).count = 0 ∨ (st.setSeed i e).seedSet j = st.seedSet j := by
    intro j
    by_cases hji : j = i
    · left
      rw [hji, setSeed_self]
      exact ⟨hnil, hcount⟩
    · exact .inr (setSeed_of_ne st hji e)
  have hkept : ∀ j, (st.setSeed i e).seedUsed j → (st.setSeed i e).seedSet j = st.seedSet j →
      st.seedUsed j := fun j hv heq => by rwa [seedUsed, heq] at hv
  refine ⟨fun b hb j hseed => ?_, fun j hj hv b hb => ?_, fun j hj hv => ?_, fun j hj hv b hb => ?_,
    fun j hj hv b hb => ?_, fun j hj hv => ?_⟩
  · have ⟨hj, hv, hmem⟩ := h.owner b hb j hseed
    have heq := setSeed_of_ne st (hne j hv) e
    exact ⟨hj, by rwa [seedUsed, heq], by rwa [heq]⟩
  · rcases hcases j with ⟨hnil, _⟩ | heq
    · rw [hnil] at hb; cases hb
    · rw [heq] at hb
      exact h.held j hj (hkept j hv heq) b hb
  · rcases hcases j with ⟨hnil, _⟩ | heq
    · rw [hnil]; exact .nil
    · rw [heq]
      exact h.sorted j hj (hkept j hv heq)
  · rcases hcases j with ⟨hnil, _⟩ | heq
    · rw [hnil] at hb; cases hb
    · rw [heq] at hb ⊢
      exact h.head j hj (hkept j hv heq) b hb
  · rcases hcases j with ⟨hnil, _⟩ | heq
    · rw [hnil] at hb; cases hb
    · rw [heq] at hb ⊢
      exact h.within j hj (hkept j hv heq) b hb
  · rcases hcases j with ⟨hnil, hcount⟩ | heq
    · rw [hnil, hcount]; rfl
    · rw [heq]
      exact h.count j hj (hkept j hv heq)

/-- A number fits after a reclaim as well, unless the second message of its list is above it. -/
theorem Reclaimed.fits {rest : List ℕ} {seq : BitVec 8} (h : Reclaimed cfg st j b rest st')
    (hok : SetsOk cfg st) (hi : i < cfg.seedSetSize) (hu : st.seedUsed i) (hfits : Fits st i seq)
    (hsecond : j = i → ∀ c l, rest = c :: l → (st.seqOf c).toNat < seq.toNat) :
    Fits st' i seq := by
  intro hne
  have hold : ∀ c ∈ (st'.seedSet i).minSeq, st'.seqOf c = st.seqOf c :=
    fun c hc => h.seqOf_of_ne fun heq => h.not_mem hok hi hu (heq ▸ hc)
  by_cases hij : i = j
  · have hlow := hok.minSeqno_le h.lt h.used (h.minSeq ▸ mem_cons_self ..)
    have hsorted := hok.sorted j h.lt h.used
    rw [hij] at hfits hne hold ⊢
    have ⟨_, hwithin, hnew⟩ := hfits (by rw [h.minSeq]; exact cons_ne_nil b rest)
    rw [h.seedSet_self] at hne hold ⊢
    cases rest with
    | nil => exact absurd rfl hne
    | cons c l =>
      rw [h.minSeq, pairwise_cons] at hsorted
      have hlt := hsorted.1 c (mem_cons_self ..)
      refine ⟨hsecond hij.symm c l rfl, ?_, fun d hd => ?_⟩
      · show seq.toNat < (st.seqOf c).toNat + 128
        omega
      · rw [hold d hd]
        exact hnew d (h.minSeq ▸ mem_cons_of_mem b hd)
  · rw [h.seedSet_of_ne hij] at hne hold ⊢
    have ⟨hlt, hwithin, hnew⟩ := hfits hne
    exact ⟨hlt, hwithin, fun c hc => by rw [hold c hc]; exact hnew c hc⟩

/-- The least number stays below the one that is taken. -/
theorem Reclaimed.minSeqno_lt {rest : List ℕ} {seq : BitVec 8}
    (h : Reclaimed cfg st j b rest st') (hok : SetsOk cfg st)
    (hlt : (st.seedSet i).minSeqno.toNat < seq.toNat)
    (hsecond : j = i → ∀ c l, rest = c :: l → (st.seqOf c).toNat < seq.toNat) :
    (st'.seedSet i).minSeqno.toNat < seq.toNat := by
  by_cases hij : i = j
  · rw [hij] at hlt ⊢
    rw [h.seedSet_self]
    cases rest with
    | nil =>
      have hhead := hok.head j h.lt h.used b (by rw [h.minSeq]; rfl)
      show (st.seqOf b).toNat < seq.toNat
      rwa [hhead]
    | cons c l => exact hsecond hij.symm c l rfl
  · rwa [h.seedSet_of_ne hij]

/-- What a message needs to be taken in order. -/
def Room (cfg : MplSetsConfig) (st : MplSets) (i : ℕ) (seq : BitVec 8) : Prop :=
  st.freeBuffer cfg = none → st.largest cfg ≠ some cfg.seedSetSize ∧
    (st.largest cfg = some i → ∀ b c l, (st.seedSet i).minSeq = b :: c :: l →
      (st.seqOf c).toNat < seq.toNat)

/-- The buffer of a message that is taken, after another one has been given up or not. -/
structure Stored (cfg : MplSetsConfig) (st : MplSets) (i b : ℕ) (seq : BitVec 8) (st₁ : MplSets) :
    Prop where
  store : st.store cfg i seq = some (st₁.place cfg i b seq, true)
  setsOk : SetsOk cfg st₁
  lt : b < cfg.bufferedMessageSetSize
  free : (st₁.bufferedMessageSet b).seed = none
  fits : Fits st₁ i seq
  seedUsed : ∀ j, st₁.seedUsed j = st.seedUsed j
  minSeqno : (st.seedSet i).minSeqno.toNat < seq.toNat →
    (st₁.seedSet i).minSeqno.toNat < seq.toNat
  covered : ∀ j < cfg.seedSetSize, st.seedUsed j → ∀ d, Covered st j d → Covered st₁ j d

/-- **A message is stored** in a free buffer or in one that is reclaimed. -/
theorem SetsOk.store {seq : BitVec 8} (h : SetsOk cfg st) (hpos : 0 < cfg.bufferedMessageSetSize)
    (hi : i < cfg.seedSetSize) (hu : st.seedUsed i) (hfits : Fits st i seq)
    (hroom : Room cfg st i seq) : ∃ b st₁, Stored cfg st i b seq st₁ := by
  cases hfree : st.freeBuffer cfg with
  | some b =>
    have hlt := mem_range.mp (mem_reverse.mp (mem_of_find?_eq_some hfree))
    have hb := List.find?_some hfree
    rw [msgUsed, Option.not_isSome, Option.isNone_iff_eq_none] at hb
    refine ⟨b, st, ⟨?_, h, hlt, hb, hfits, fun _ => rfl, fun hlt => hlt, fun _ _ _ _ hd => hd⟩⟩
    rw [MplSets.store, hfree]
  | none =>
    have ⟨hbehind, hsecond⟩ := hroom hfree
    have ⟨j, b, rest, st₁, hlargest, hr, hreclaim⟩ := h.reclaim hpos hfree hbehind
    have hsecond' : j = i → ∀ c l, rest = c :: l → (st.seqOf c).toNat < seq.toNat := by
      intro hji c l hrest
      rw [hji] at hlargest
      exact hsecond hlargest b c l (by rw [← hji, hr.minSeq, hrest])
    have hlt := (h.held j hr.lt hr.used b (hr.minSeq ▸ mem_cons_self ..)).1
    refine ⟨b, st₁, ⟨?_, hr.setsOk h, hlt, hr.seed_self, hr.fits h hi hu hfits hsecond',
      fun _ => hr.seedUsed, fun hlt => hr.minSeqno_lt h hlt hsecond',
      fun j hj hv d hd => hd.reclaimed hr h hj hv⟩⟩
    rw [MplSets.store, hfree]
    simp only [hreclaim]

/-- A message that is dropped before it gets a seed changes nothing. -/
theorem seedFor_none {msg : DataMsg} (h : st.seedFor cfg msg = (st', none)) : st' = st := by
  rw [seedFor] at h
  split at h
  · split at h
    · exact (congrArg Prod.fst h).symm
    · split at h
      · exact (congrArg Prod.fst h).symm
      · cases h
  · split at h
    · exact (congrArg Prod.fst h).symm
    · cases h

/-- The invariant after a message has been stored, with the numbers of its seed before it. -/
theorem Stored.mplOk {seq : BitVec 8} {delivered : ℕ → List (BitVec 8)} {l : List (BitVec 8)}
    (h : Stored cfg st i b seq st') (hi : i < cfg.seedSetSize) (hu : st.seedUsed i)
    (hothers : ∀ j < cfg.seedSetSize, st.seedUsed j → j ≠ i →
      (delivered j).Nodup ∧ ∀ d ∈ delivered j, Covered st j d)
    (hl : l.Nodup) (hown : ∀ d ∈ l, Covered st i d ∧ d ≠ seq)
    (hseq : l ≠ [] → (st.seedSet i).minSeqno.toNat < seq.toNat) :
    MplOk cfg ⟨st'.place cfg i b seq, update delivered i (seq :: l)⟩ := by
  have hused' : ∀ j, st'.seedUsed j → st.seedUsed j := fun j hj => h.seedUsed j ▸ hj
  have hnot : ∀ j < cfg.seedSetSize, st'.seedUsed j → b ∉ (st'.seedSet j).minSeq := by
    intro j hj hv hmem
    have hseed := (h.setsOk.held j hj hv b hmem).2
    rw [h.free] at hseed
    cases hseed
  have hui : st'.seedUsed i := (h.seedUsed i).trans hu
  have hp := h.setsOk.place hi hui h.fits (hnot i hi hui)
  have hused : ∀ j, (st'.place cfg i b seq).seedUsed j → st'.seedUsed j := by
    intro j hj
    by_cases hji : j = i
    · rw [hji]
      exact hui
    · rwa [MplSets.seedUsed, hp.seedSet j hji] at hj
  refine ⟨hp.setsOk h.setsOk hi hui h.fits h.lt h.free, fun j hj hv => ?_, fun j hj hv d hd => ?_⟩
  · show (update delivered i (seq :: l) j).Nodup
    by_cases hji : j = i
    · rw [hji, update_self]
      exact nodup_cons.mpr ⟨fun hmem => (hown seq hmem).2 rfl, hl⟩
    · rw [update_of_ne hji]
      exact (hothers j hj (hused' j (hused j hv)) hji).1
  · have hv' := hused j hv
    replace hd : d ∈ update delivered i (seq :: l) j := hd
    by_cases hji : j = i
    · rw [hji, update_self] at hd
      rw [hji]
      rcases mem_cons.mp hd with rfl | hd
      · left
        exact ⟨b, hp.perm.symm.subset (mem_cons_self ..), hp.seqOf_self⟩
      · have hlt := h.minSeqno (hseq (ne_nil_of_mem hd))
        exact (h.covered i hi hu d (hown d hd).1).placed hp (fun _ => hlt) (hnot i hi hui)
    · rw [update_of_ne hji] at hd
      have hcovered := (hothers j hj (hused' j hv') hji).2 d hd
      exact (h.covered j hj (hused' j hv') d hcovered).placed hp (fun heq => absurd heq hji)
        (hnot j hj hv')

/-- A message for a seed that is known. -/
theorem MplOk.known {w : MplWorld} {seq : BitVec 8} (h : MplOk cfg w)
    (hs : Stored cfg w.sets i b seq st) (hi : i < cfg.seedSetSize) (hu : w.sets.seedUsed i)
    (hlt : (w.sets.seedSet i).minSeqno.toNat < seq.toNat)
    (hnew : ∀ b ∈ (w.sets.seedSet i).minSeq, w.sets.seqOf b ≠ seq) :
    MplOk cfg ⟨st.place cfg i b seq, update w.delivered i (seq :: w.delivered i)⟩ :=
  hs.mplOk hi hu (fun j hj hv _ => ⟨h.nodup j hj hv, h.covered j hj hv⟩) (h.nodup i hi hu)
    (fun d hd => ⟨h.covered i hi hu d hd, (h.covered i hi hu d hd).ne hlt hnew⟩) fun _ => hlt

/-- A message for a seed that gets an entry. -/
theorem MplOk.fresh {w : MplWorld} {seq : BitVec 8} {e : SeedEntry} (h : MplOk cfg w)
    (hs : Stored cfg (w.sets.setSeed i e) i b seq st) (hi : i < cfg.seedSetSize)
    (hu : (w.sets.setSeed i e).seedUsed i) :
    MplOk cfg ⟨st.place cfg i b seq, update w.delivered i [seq]⟩ := by
  refine hs.mplOk hi hu (fun j hj hv hji => ?_) .nil (fun d hd => absurd hd not_mem_nil)
    fun hne => absurd rfl hne
  have heq := setSeed_of_ne w.sets hji e
  have hv' : w.sets.seedUsed j := by rwa [seedUsed, heq] at hv
  refine ⟨h.nodup j hj hv', fun d hd => ?_⟩
  rw [Covered, heq]
  exact h.covered j hj hv' d hd

/-- The numbers above the least one of a seed that is known. -/
theorem SetsOk.above {seq : BitVec 8} (h : SetsOk cfg st) (hi : i < cfg.seedSetSize)
    (hu : st.seedUsed i) (hle : (st.seedSet i).minSeqno.toNat ≤ seq.toNat)
    (hnew : ∀ b ∈ (st.seedSet i).minSeq, st.seqOf b ≠ seq)
    (hnil : (st.seedSet i).minSeq = [] → seq ≠ (st.seedSet i).minSeqno) :
    (st.seedSet i).minSeqno.toNat < seq.toNat := by
  refine Nat.lt_of_le_of_ne hle fun heq => ?_
  have heq' := BitVec.eq_of_toNat_eq heq
  cases hl : (st.seedSet i).minSeq with
  | nil => exact hnil hl heq'.symm
  | cons x l =>
    have hhead := h.head i hi hu x (by rw [hl]; rfl)
    exact hnew x (hl ▸ mem_cons_self ..) (hhead.trans heq')

/-- **A message is taken** in order, or dropped. -/
theorem MplOk.receive {w : MplWorld} {msg : DataMsg} (h : MplOk cfg w)
    (hpos : 0 < cfg.bufferedMessageSetSize) (horder : InOrder cfg w (.receive msg)) :
    ∃ w', w.step cfg (.receive msg) = some w' ∧ MplOk cfg w' := by
  rw [MplWorld.step, accept]
  cases hfor : w.sets.seedFor cfg msg with
  | mk st seed =>
  cases seed with
  | none => exact ⟨_, rfl, (seedFor_none hfor) ▸ h⟩
  | some i =>
    have ⟨hknown, hroom⟩ := horder st i hfor
    have ⟨hi, hspec⟩ := seedFor_spec hfor
    rcases hspec with ⟨hlookup, heq, hu, hle, hnew⟩ | ⟨hlookup, hfree, hu, heq⟩
    · rw [heq] at hknown hroom
      have ⟨hnil, hwithin⟩ := hknown hlookup
      have hlt := h.sets.above hi hu hle hnew hnil
      have ⟨b, st₁, hs⟩ := h.sets.store hpos hi hu (fun hne => ⟨hlt, hwithin hne, hnew⟩) hroom
      rw [heq]
      simp only [hs.store]
      refine ⟨_, rfl, ?_⟩
      rw [MplWorld.deliver, hlookup]
      exact h.known hs hi hu hlt hnew
    · have hsets := h.sets.fresh hu (e := ⟨msg.id, 0, 0, 0, [], some msg.domain⟩) rfl rfl
      have hfits : Fits (w.sets.setSeed i ⟨msg.id, 0, 0, 0, [], some msg.domain⟩) i msg.seq := by
        intro hne
        rw [setSeed_self] at hne
        exact absurd rfl hne
      have hu' : (w.sets.setSeed i ⟨msg.id, 0, 0, 0, [], some msg.domain⟩).seedUsed i := by
        rw [seedUsed, setSeed_self]
        rfl
      rw [heq] at hroom
      have ⟨b, st₁, hs⟩ := hsets.store hpos hi hu' hfits hroom
      rw [heq]
      simp only [hs.store]
      refine ⟨_, rfl, ?_⟩
      rw [MplWorld.deliver, hlookup, hfree]
      exact h.fresh hs hi hu'

/-- The memory behind the seeds is not a seed. -/
theorem SetsOk.behind (h : SetsOk cfg st) (e : SeedEntry) :
    SeedsLeft cfg st (st.setSeed cfg.seedSetSize e) := by
  have hsame : ∀ i < cfg.seedSetSize, (st.setSeed cfg.seedSetSize e).seedSet i = st.seedSet i :=
    fun i hi => setSeed_of_ne st (Nat.ne_of_lt hi) e
  refine ⟨fun i hi hu => by rwa [seedUsed, hsame i hi] at hu, fun i hi _ => by rw [hsame i hi],
    fun i hi _ => by rw [hsame i hi], fun i hi _ => by rw [hsame i hi], fun _ => rfl,
    fun b hb i hseed => ⟨hseed, ?_⟩, fun _ _ _ _ _ hseed => hseed⟩
  have ⟨hi, hu, _⟩ := h.owner b hb i hseed
  rwa [seedUsed, hsame i hi]

/-- **One event** that does not break the order keeps the invariant. -/
theorem MplOk.step {w : MplWorld} {e : MplEvent} (h : MplOk cfg w)
    (hpos : 0 < cfg.bufferedMessageSetSize) (horder : InOrder cfg w e) :
    ∃ w', w.step cfg e = some w' ∧ MplOk cfg w' := by
  cases e with
  | receive msg => exact h.receive hpos horder
  | lifetime running => exact ⟨_, rfl, h.left (h.sets.lifetimeTimerExpiration running)⟩
  | freeDomain domain => exact ⟨_, rfl, h.left (h.sets.domainSetFree horder)⟩
  | behind e => exact ⟨_, rfl, h.left (h.sets.behind e)⟩

theorem MplOk.init : MplOk cfg MplWorld.init where
  sets := .init
  nodup _ _ hu := Bool.noConfusion hu
  covered _ _ hu := Bool.noConfusion hu

end

/-! ## Runs -/

/-- The sets are as they should be, no number of a seed has been delivered twice, and a message for
which there is no free buffer gets that of the first message of a largest seed. -/
structure MplLaw (cfg : MplSetsConfig) (w : MplWorld) : Prop where
  buffers : BuffersOk cfg w.sets
  once : ∀ i < cfg.seedSetSize, w.sets.seedUsed i → (w.delivered i).Nodup
  reclaim : ∀ msg st i, w.sets.seedFor cfg msg = (st, some i) → st.freeBuffer cfg = none →
    InOrder cfg w (.receive msg) → ∃ j b rest st', Reclaimed cfg st j b rest st' ∧
      st.bufferReclaim cfg = some (st', some b) ∧ BuffersOk cfg st'
  total : ∀ e, InOrder cfg w e → (w.step cfg e).isSome

theorem MplOk.law {cfg : MplSetsConfig} {w : MplWorld} (h : MplOk cfg w)
    (hpos : 0 < cfg.bufferedMessageSetSize) : MplLaw cfg w where
  buffers := h.sets.buffersOk
  once := h.nodup
  reclaim msg st i hfor hfree horder := by
    have ⟨_, hroom⟩ := horder st i hfor
    have ⟨hi, hspec⟩ := seedFor_spec hfor
    have hsets : SetsOk cfg st := by
      rcases hspec with ⟨_, rfl, _⟩ | ⟨_, _, hu, rfl⟩
      · exact h.sets
      · exact h.sets.fresh hu rfl rfl
    have ⟨j, b, rest, st', _, hr, hreclaim⟩ := hsets.reclaim hpos hfree (hroom hfree).1
    exact ⟨j, b, rest, st', hr, hreclaim, (hr.setsOk hsets).buffersOk⟩
  total e horder := by
    have ⟨w', hw', _⟩ := h.step hpos horder
    rw [hw']
    rfl

theorem inOrder_receive {cfg : MplSetsConfig} {w : MplWorld} {msg : DataMsg} {st : MplSets}
    {i : ℕ} (hfor : w.sets.seedFor cfg msg = (st, some i)) (hfree : st.freeBuffer cfg ≠ none)
    (hknown : w.sets.seedSetLookup cfg msg.id msg.domain = some i →
      ((st.seedSet i).minSeq = [] → msg.seq ≠ (st.seedSet i).minSeqno) ∧
      ((st.seedSet i).minSeq ≠ [] → msg.seq.toNat < (st.seedSet i).minSeqno.toNat + 128)) :
    InOrder cfg w (.receive msg) := by
  intro st' i' hfor'
  cases hfor.symm.trans hfor'
  exact ⟨hknown, fun hnone => absurd hnone hfree⟩

/-- The default sizes. -/
def defaultSets : MplSetsConfig := ⟨2, 6, 30⟩

/-- A data message of a seed with a number. -/
def dataMsg (n : Byte) (seq : BitVec 8) : MplEvent := .receive ⟨fun _ => n, 0, seq⟩

end Asap.Mpl
