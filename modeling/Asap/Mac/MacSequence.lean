import Asap.Tsch.Queue
import Mathlib.Data.List.Basic

/-!
# The filter for duplicates

The node keeps, for each sender, the sequence numbers that it has registered last, in an array with
the most recent one first. A number that is registered again moves to the front, and otherwise the
last entry falls out of the array. A frame is a duplicate if its number is found and its entry is
not too old.

The array begins as zeros, which look like the sequence number zero registered when the clock
started.

## Main definitions

* `macSequenceIsDuplicate`, `macSequenceRegisterSeqno` — the functions.
* `recent` — the sequence numbers registered last, without repetition.
* `Expected` — when a frame is a duplicate.
-/

namespace Asap.Mac

open Asap.Tsch List

/-- The build: `MAX_SEQNOS`, `SEQNO_MAX_AGE` and `NODE_NUM`, for a clock of `w` bits. -/
structure SeqnoConfig (w : ℕ) where
  maxSeqnos : ℕ
  seqnoMaxAge : BitVec w
  nodeNum : ℕ
  maxSeqnos_pos : 0 < maxSeqnos

/-- `struct seqno` -/
structure Seqno (w : ℕ) where
  timestamp : BitVec w
  seqno : BitVec 8
deriving DecidableEq, Repr

/-- A frame that is received, with the time that has passed since the clock started. -/
structure ReceivedFrame where
  sender : LinkAddr
  seqno : BitVec 8
  time : ℕ

variable {w : ℕ}

/-- `clock_time` -/
def clockTime (time : ℕ) : BitVec w := BitVec.ofNat w time

/-- `HCK_GET_NODE_ID_FROM_LINKADDR` -/
def hckGetNodeIdFromLinkaddr (addr : LinkAddr) : ℕ := (addr 6).toNat <<< 8 ||| (addr 7).toNat

namespace SeqnoConfig

variable (cfg : SeqnoConfig w)

/-- `sender_index`, of a valid node id. -/
def senderIndex (sender : LinkAddr) : Option ℕ :=
  let senderId := hckGetNodeIdFromLinkaddr sender
  if 0 < senderId ∧ senderId ≤ cfg.nodeNum then some (senderId - 1) else none

/-- An entry is too old; with a maximum of zero none is. -/
def tooOld (now timestamp : BitVec w) : Bool :=
  cfg.seqnoMaxAge ≠ 0 ∧ cfg.seqnoMaxAge < now - timestamp

end SeqnoConfig

/-- `received_seqnos`, the array of each sender. -/
abbrev ReceivedSeqnos (w : ℕ) := ℕ → List (Seqno w)

/-- `mac_sequence_is_duplicate` -/
def macSequenceIsDuplicate (cfg : SeqnoConfig w) (r : ReceivedSeqnos w) (f : ReceivedFrame) : Bool :=
  match cfg.senderIndex f.sender with
  | none => true
  | some index =>
    match (r index).find? fun e => f.seqno == e.seqno with
    | none => false
    | some e => !cfg.tooOld (clockTime f.time) e.timestamp

/-- The loop that moves the first entries up by one, from the last of them on. -/
def moveUp : ℕ → List (Seqno w) → List (Seqno w)
  | 0, a => a
  | j + 1, a => moveUp j (a.set (j + 1) (a.getD j ⟨0, 0⟩))

/-- `mac_sequence_register_seqno` -/
def macSequenceRegisterSeqno (cfg : SeqnoConfig w) (r : ReceivedSeqnos w) (f : ReceivedFrame) :
    ReceivedSeqnos w :=
  match cfg.senderIndex f.sender with
  | none => r
  | some index =>
    let a := r index
    let i := match a.findIdx? fun e => f.seqno == e.seqno with
      | none => cfg.maxSeqnos
      | some i => i + 1
    Function.update r index ((moveUp (i - 1) a).set 0 ⟨clockTime f.time, f.seqno⟩)

/-! ## Sequences of frames -/

/-- The arrays, with the frames of each sender that have been registered, the last one first. -/
structure SeqnoFilter (w : ℕ) where
  received : ReceivedSeqnos w
  registered : ℕ → List ReceivedFrame

section

variable (cfg : SeqnoConfig w)

/-- Nothing is registered. -/
def SeqnoFilter.start : SeqnoFilter w where
  received _ := List.replicate cfg.maxSeqnos ⟨0, 0⟩
  registered _ := []

/-- A frame is registered. -/
def SeqnoFilter.register (s : SeqnoFilter w) (f : ReceivedFrame) :
    SeqnoFilter w where
  received := macSequenceRegisterSeqno cfg s.received f
  registered :=
    match cfg.senderIndex f.sender with
    | none => s.registered
    | some index => Function.update s.registered index (f :: s.registered index)

/-- A frame is received: one that is not a duplicate is registered. -/
def SeqnoFilter.process (s : SeqnoFilter w) (f : ReceivedFrame) :
    SeqnoFilter w :=
  if macSequenceIsDuplicate cfg s.received f then s else s.register cfg f

/-- Frames are received one after the other. -/
def SeqnoFilter.after (fs : List ReceivedFrame) : SeqnoFilter w :=
  fs.foldl (SeqnoFilter.process cfg) (.start cfg)

end

/-- The last registration of each sequence number, the most recent one first. -/
def recent : List ReceivedFrame → List ReceivedFrame
  | [] => []
  | f :: fs => f :: (recent fs).filter fun g => f.seqno != g.seqno

/-- **A frame is expected to be a duplicate** if its number is among the ones registered last, and
its last registration is not too old. -/
def Expected (cfg : SeqnoConfig w) (registered : List ReceivedFrame) (f : ReceivedFrame) : Prop :=
  ∃ g, registered.find? (fun g => f.seqno == g.seqno) = some g ∧
    g ∈ (recent registered).take cfg.maxSeqnos ∧
    cfg.tooOld (clockTime f.time) (clockTime g.time) = false

/-- The number zero is found in the part of the array that is as it was at the start, and the clock
has not left the first interval. -/
def AsAtStart (cfg : SeqnoConfig w) (registered : List ReceivedFrame) (f : ReceivedFrame) : Prop :=
  f.seqno = 0 ∧ (∀ g ∈ registered, g.seqno ≠ 0) ∧ (recent registered).length < cfg.maxSeqnos ∧
    cfg.tooOld (clockTime f.time) 0 = false

variable {cfg : SeqnoConfig w} {s : SeqnoFilter w} {f g : ReceivedFrame} {fs : List ReceivedFrame}
  {a es : List (Seqno w)} {x z : Seqno w} {q : BitVec 8} {m : ℕ}

/-! ## Recent numbers -/

theorem mem_recent : g ∈ recent fs ↔ fs.find? (fun h => g.seqno == h.seqno) = some g := by
  induction fs with
  | nil => simp [recent]
  | cons f fs ih =>
    rw [recent, mem_cons, mem_filter, ih, List.find?_cons]
    by_cases hsame : g.seqno = f.seqno
    · simp [hsame, eq_comm]
    · have hne : g ≠ f := fun heq => hsame (congrArg ReceivedFrame.seqno heq)
      rw [beq_false_of_ne hsame]
      simp [hne, Ne.symm hsame]

theorem recent_pairwise (fs : List ReceivedFrame) :
    (recent fs).Pairwise fun g h => g.seqno ≠ h.seqno := by
  induction fs with
  | nil => exact List.Pairwise.nil
  | cons f fs ih =>
    refine List.Pairwise.cons (fun g hg => ?_) (ih.filter _)
    simpa using (mem_filter.mp hg).2

/-! ## The array -/

/-- An entry that has been moved up is taken from its old place. -/
theorem set_eraseIdx {j : ℕ} (hj : j + 1 < a.length) :
    (a.set (j + 1) (a.getD j z)).eraseIdx j = a.eraseIdx (j + 1) := by
  induction j generalizing a with
  | zero =>
    cases a with
    | nil => rfl
    | cons y a =>
      cases a with
      | nil => exact absurd hj (Nat.lt_irrefl 1)
      | cons y' a => rfl
  | succ j ih =>
    cases a with
    | nil => rfl
    | cons y a =>
      have hj : j + 1 < a.length := by simpa using hj
      exact congrArg (y :: ·) (ih hj)

/-- **The rotation**: the new entry is the first one, and the others stay in order. -/
theorem set_moveUp {j : ℕ} (hj : j < a.length) : (moveUp j a).set 0 x = x :: a.eraseIdx j := by
  induction j generalizing a with
  | zero =>
    cases a with
    | nil => exact absurd hj (Nat.not_lt_zero 0)
    | cons y a => rfl
  | succ j ih =>
    rw [moveUp, ih (by rw [length_set]; omega), set_eraseIdx hj]

/-- The entry that is given up is the first one with the number, or else the last one. -/
theorem eraseIdx_take {L : List (Seqno w)} (p : Seqno w → Bool) (hm : m < L.length) :
    (L.take (m + 1)).eraseIdx (((L.take (m + 1)).findIdx? p).getD m) = (L.eraseP p).take m := by
  induction L generalizing m with
  | nil => exact absurd hm (Nat.not_lt_zero m)
  | cons y L ih =>
    rw [take_succ_cons, List.findIdx?_cons, eraseP_cons]
    cases hp : p y with
    | true => rfl
    | false =>
      cases m with
      | zero => simp
      | succ m =>
        have hm : m < L.length := by simpa using hm
        rw [cond_false, take_succ_cons, ← ih hm]
        cases (L.take (m + 1)).findIdx? p with
        | none => rfl
        | some i => rfl

/-! ## Every sequence of frames -/

/-- The entry of a frame that is registered. -/
def entry (f : ReceivedFrame) : Seqno w := ⟨clockTime f.time, f.seqno⟩

/-- The entries for the recent numbers, and zeros. -/
def contents (cfg : SeqnoConfig w) (fs : List ReceivedFrame) : List (Seqno w) :=
  (recent fs).map entry ++ List.replicate cfg.maxSeqnos ⟨0, 0⟩

theorem length_contents (cfg : SeqnoConfig w) (fs : List ReceivedFrame) :
    cfg.maxSeqnos ≤ (contents cfg fs).length := by
  simp [contents]

/-- As many zeros as there are entries are as good as one less. -/
theorem take_zeros {k : ℕ} (hk : m ≤ k) :
    (es ++ List.replicate k x).take m = (es ++ List.replicate m x).take m := by
  rw [take_append, take_append, take_replicate, take_replicate]
  congr 2
  omega

/-- The only frame with the number is the one that is taken out. -/
theorem eraseP_recent {L : List ReceivedFrame} (hL : L.Pairwise fun g h => g.seqno ≠ h.seqno) :
    L.eraseP (fun g => q == g.seqno) = L.filter fun g => q != g.seqno := by
  induction L with
  | nil => rfl
  | cons g L ih =>
    have ⟨hg, hL⟩ := pairwise_cons.mp hL
    rw [eraseP_cons, filter_cons]
    by_cases hq : q = g.seqno
    · have hrest : L.filter (fun g => q != g.seqno) = L :=
        filter_eq_self.mpr fun h hh => bne_iff_ne.mpr (hq ▸ hg h hh)
      simp [hq ▸ hrest, hq]
    · rw [beq_false_of_ne hq]
      simp [hq, ih hL]

/-- A number that is registered moves to the front. -/
theorem contents_cons (cfg : SeqnoConfig w) (f : ReceivedFrame) (fs : List ReceivedFrame) :
    (entry f :: (contents cfg fs).eraseP fun e => f.seqno == e.seqno).take cfg.maxSeqnos =
      (contents cfg (f :: fs)).take cfg.maxSeqnos := by
  obtain ⟨m, hm⟩ := Nat.exists_eq_succ_of_ne_zero (Nat.pos_iff_ne_zero.mp cfg.maxSeqnos_pos)
  rw [contents, contents, recent, hm, map_cons, cons_append, take_succ_cons,
    take_succ_cons, ← eraseP_recent (recent_pairwise fs)]
  congr 1
  by_cases hfound : ∃ g ∈ recent fs, f.seqno = g.seqno
  · have ⟨g, hg, hsame⟩ := hfound
    rw [eraseP_append_left (a := entry g) (by simpa [entry] using hsame) _
      (mem_map_of_mem hg), eraseP_map]
    rfl
  · -- the number is new, so at most one of the zeros is taken out
    have hnone : ∀ g ∈ recent fs, ¬ (f.seqno == g.seqno) = true :=
      fun g hg hsame => hfound ⟨g, hg, beq_iff_eq.mp hsame⟩
    rw [eraseP_of_forall_not hnone, eraseP_append_right, eraseP_replicate]
    · split
      · rw [Nat.succ_sub_one, take_zeros (Nat.le_succ m)]
      · rfl
    · intro e he
      have ⟨g, hg, hge⟩ := mem_map.mp he
      exact hge ▸ hnone g hg

/-- The array of each sender holds its recent numbers. -/
def Holds (cfg : SeqnoConfig w) (s : SeqnoFilter w) : Prop :=
  ∀ index, s.received index = (contents cfg (s.registered index)).take cfg.maxSeqnos

theorem Holds.start (cfg : SeqnoConfig w) : Holds cfg (.start cfg) := fun _ =>
  (take_of_length_le (Nat.le_of_eq length_replicate)).symm

theorem Holds.register (h : Holds cfg s) (f : ReceivedFrame) : Holds cfg (s.register cfg f) := by
  intro index
  cases hsender : cfg.senderIndex f.sender with
  | none => simpa [SeqnoFilter.register, macSequenceRegisterSeqno, hsender] using h index
  | some sender =>
    by_cases hindex : index = sender
    · subst hindex
      have hlength := length_contents cfg (s.registered index)
      have hpos := cfg.maxSeqnos_pos
      obtain ⟨m, hm⟩ := Nat.exists_eq_succ_of_ne_zero (Nat.pos_iff_ne_zero.mp hpos)
      have ha : (s.received index).length = m + 1 := by
        rw [h index, length_take, Nat.min_eq_left hlength, hm]
      have hplace : ((match (s.received index).findIdx? fun e => f.seqno == e.seqno with
          | none => cfg.maxSeqnos
          | some i => i + 1) - 1) =
          ((s.received index).findIdx? fun e => f.seqno == e.seqno).getD m := by
        cases (s.received index).findIdx? fun e => f.seqno == e.seqno with
        | none => rw [hm]; rfl
        | some i => rfl
      have hlt : ((s.received index).findIdx? fun e => f.seqno == e.seqno).getD m < m + 1 := by
        cases hfind : (s.received index).findIdx? fun e => f.seqno == e.seqno with
        | none => exact Nat.lt_succ_self m
        | some i => exact ha ▸ (List.findIdx?_eq_some_iff_getElem.mp hfind).1
      have hrotated : (s.register cfg f).received index = entry f ::
          (s.received index).eraseIdx
            (((s.received index).findIdx? fun e => f.seqno == e.seqno).getD m) := by
        simp only [SeqnoFilter.register, macSequenceRegisterSeqno, hsender,
          Function.update_self, hplace]
        exact set_moveUp (by rw [ha]; exact hlt)
      have hregistered : (s.register cfg f).registered index = f :: s.registered index := by
        simp [SeqnoFilter.register, hsender]
      rw [hrotated, hregistered, ← contents_cons, h index, hm, eraseIdx_take _ (by omega),
        take_succ_cons]
    · simpa [SeqnoFilter.register, macSequenceRegisterSeqno, hsender, hindex] using h index

theorem Holds.after (cfg : SeqnoConfig w) (fs : List ReceivedFrame) :
    Holds cfg (.after cfg fs) := by
  refine List.foldlRecOn fs _ (Holds.start cfg) fun s hs f _ => ?_
  rw [SeqnoFilter.process]
  split
  · exact hs
  · exact hs.register f

/-! ## Duplicates -/

/-- There is one frame for a number. -/
theorem find_of_pairwise {L : List ReceivedFrame}
    (hL : L.Pairwise fun g h => g.seqno ≠ h.seqno) :
    L.find? (fun g => q == g.seqno) = some g ↔ g ∈ L ∧ q = g.seqno := by
  induction L with
  | nil => simp
  | cons h L ih =>
    have ⟨hh, hL⟩ := pairwise_cons.mp hL
    rw [List.find?_cons, mem_cons]
    by_cases hq : q = h.seqno
    · rw [beq_iff_eq.mpr hq]
      refine ⟨fun hg => ⟨.inl (Option.some.inj hg).symm, Option.some.inj hg ▸ hq⟩, ?_⟩
      intro ⟨hg, hsame⟩
      exact hg.elim (fun hg => congrArg some hg.symm)
        fun hg => absurd (hq.symm.trans hsame) (hh g hg)
    · rw [beq_false_of_ne hq, ih hL]
      exact and_congr_left fun hsame =>
        ⟨.inr, fun hg => hg.resolve_left fun hg => hq (hg ▸ hsame)⟩

/-- What the search finds: a recent number, or a zero of the array at the start. -/
theorem find_contents (cfg : SeqnoConfig w) (fs : List ReceivedFrame) (q : BitVec 8) :
    ((contents cfg fs).take cfg.maxSeqnos).find? (fun e => q == e.seqno) =
      ((((recent fs).take cfg.maxSeqnos).find? fun g => q == g.seqno).map entry).or
        (if (recent fs).length < cfg.maxSeqnos ∧ q = 0 then some ⟨0, 0⟩ else none) := by
  rw [contents, take_append, List.find?_append, ← map_take, List.find?_map,
    take_replicate, length_map, List.find?_replicate]
  congr 1
  by_cases hroom : (recent fs).length < cfg.maxSeqnos
  · by_cases hq : q = 0
    · simp [hroom, hq, Nat.sub_eq_zero_iff_le]
    · have hne : ¬ (q == (0 : BitVec 8)) = true := fun heq => hq (beq_iff_eq.mp heq)
      simp only [if_neg hne, ite_self, if_neg (show ¬ (_ ∧ q = 0) from fun h => hq h.2)]
  · simp [hroom, Nat.sub_eq_zero_of_le (Nat.le_of_not_lt hroom)]

theorem expected_iff :
    Expected cfg fs f ↔ ∃ g : ReceivedFrame,
      ((recent fs).take cfg.maxSeqnos).find? (fun g => f.seqno == g.seqno) =
        some g ∧
      cfg.tooOld (clockTime f.time) (clockTime g.time) = false := by
  refine exists_congr fun g => ?_
  rw [find_of_pairwise ((recent_pairwise fs).sublist (take_sublist _ _)), ← and_assoc]
  refine and_congr_left fun _ => ⟨fun ⟨hlast, hrecent⟩ => ?_, fun ⟨hrecent, hsame⟩ => ?_⟩
  · exact ⟨hrecent,
      beq_iff_eq.mp (List.find?_some (p := fun g : ReceivedFrame => f.seqno == g.seqno) hlast)⟩
  · rw [hsame]
    exact ⟨mem_recent.mp (mem_of_mem_take hrecent), hrecent⟩

/-- A number that has been registered is a recent one. -/
theorem exists_recent (hg : g ∈ fs) : ∃ h ∈ recent fs, h.seqno = g.seqno := by
  induction fs with
  | nil => exact absurd hg not_mem_nil
  | cons f fs ih =>
    by_cases hsame : f.seqno = g.seqno
    · exact ⟨f, mem_cons_self, hsame⟩
    · have ⟨h, hh, hq⟩ := ih ((mem_cons.mp hg).resolve_left fun hgf => hsame (hgf ▸ rfl))
      have hkept : (f.seqno != h.seqno) = true := bne_iff_ne.mpr fun heq => hsame (heq.trans hq)
      exact ⟨h, mem_cons_of_mem f (mem_filter.mpr ⟨hh, hkept⟩), hq⟩

/-- The search finds a registered number before a zero of the start. -/
theorem not_asAtStart (hg : g ∈ recent fs) (hsame : f.seqno = g.seqno) : ¬ AsAtStart cfg fs f :=
  fun ⟨hzero, hnone, _⟩ =>
    hnone g (mem_of_find?_eq_some (mem_recent.mp hg)) (hsame.symm.trans hzero)

theorem asAtStart_iff
    (hnone : ((recent fs).take cfg.maxSeqnos).find? (fun g => f.seqno == g.seqno) = none) :
    AsAtStart cfg fs f ↔ ((recent fs).length < cfg.maxSeqnos ∧ f.seqno = 0) ∧
      cfg.tooOld (clockTime f.time) 0 = false := by
  refine ⟨fun ⟨hzero, _, hroom, hage⟩ => ⟨⟨hroom, hzero⟩, hage⟩, fun ⟨⟨hroom, hzero⟩, hage⟩ => ?_⟩
  refine ⟨hzero, fun g hg hgzero => ?_, hroom, hage⟩
  have ⟨h, hh, hsame⟩ := exists_recent hg
  rw [take_of_length_le (Nat.le_of_lt hroom)] at hnone
  refine List.find?_eq_none.mp hnone h hh (beq_iff_eq.mpr ?_)
  rw [hzero, hsame, hgzero]

/-- **The filter for duplicates**: after every sequence of frames, a frame of a valid node is
reported exactly if it is expected to be a duplicate, or if it has the number zero and finds the
array as it was at the start. A frame of any other sender is reported. -/
theorem mac_sequence_duplicates (cfg : SeqnoConfig w) (fs : List ReceivedFrame)
    (f : ReceivedFrame) :
    (cfg.senderIndex f.sender = none →
      macSequenceIsDuplicate cfg (SeqnoFilter.after cfg fs).received f = true) ∧
    ∀ index, cfg.senderIndex f.sender = some index →
      (macSequenceIsDuplicate cfg (SeqnoFilter.after cfg fs).received f = true ↔
        Expected cfg ((SeqnoFilter.after cfg fs).registered index) f ∨
        AsAtStart cfg ((SeqnoFilter.after cfg fs).registered index) f) := by
  refine ⟨fun hsender => by simp [macSequenceIsDuplicate, hsender], fun index hsender => ?_⟩
  generalize hfs : (SeqnoFilter.after cfg fs).registered index = registered
  have hholds := Holds.after cfg fs index
  rw [hfs] at hholds
  have hsearch := find_contents cfg registered f.seqno
  simp only [macSequenceIsDuplicate, hsender, hholds, hsearch]
  rw [expected_iff]
  cases hfind : ((recent registered).take cfg.maxSeqnos).find? fun g => f.seqno == g.seqno with
  | some g =>
    have hg : g ∈ recent registered := List.mem_of_mem_take (List.mem_of_find?_eq_some hfind)
    have hsame : f.seqno = g.seqno :=
      beq_iff_eq.mp (List.find?_some (p := fun g : ReceivedFrame => f.seqno == g.seqno) hfind)
    simp [not_asAtStart hg hsame, entry]
  | none =>
    rw [asAtStart_iff hfind]
    by_cases hzero : (recent registered).length < cfg.maxSeqnos ∧ f.seqno = 0
    · simp [hzero]
    · simp only [Option.map_none, Option.none_or, if_neg hzero]
      simp only [Bool.false_eq_true, false_iff, reduceCtorEq, false_and, exists_false, false_or]
      exact fun h => hzero h.1

/-- Two neighbors, of which the first sends a frame again. -/
theorem mac_sequence_duplicates_resent :
    let cfg : SeqnoConfig 32 := ⟨2, 2560, 79, by decide⟩
    let f : ReceivedFrame := ⟨fun i => if i = 7 then 1 else 0, 5, 100⟩
    let g : ReceivedFrame := ⟨fun i => if i = 7 then 2 else 0, 5, 101⟩
    Expected cfg ((SeqnoFilter.after cfg [f, g]).registered 0) { f with time := 102 } ∨
      AsAtStart cfg ((SeqnoFilter.after cfg [f, g]).registered 0) { f with time := 102 } := by
  intro cfg f g
  exact ((mac_sequence_duplicates cfg [f, g] { f with time := 102 }).2 0 (by decide)).mp (by decide)

/-- Frames that are no duplicates, and are reported: one of a sender whose node id is not valid, one
with the number zero after the start, and one that is as late as the range of the clock. -/
theorem invalid_sender_reported :
    let sender : ℕ → LinkAddr := fun id i => if i = 7 then BitVec.ofNat 8 id else 0
    let cfg : SeqnoConfig 32 := ⟨2, 2560, 79, by decide⟩
    macSequenceIsDuplicate cfg (SeqnoFilter.after cfg []).received ⟨sender 80, 5, 100⟩ = true ∧
    macSequenceIsDuplicate cfg (SeqnoFilter.after cfg []).received ⟨sender 1, 0, 100⟩ = true ∧
    macSequenceIsDuplicate cfg (SeqnoFilter.after cfg [⟨sender 1, 5, 100⟩]).received
      ⟨sender 1, 5, 4294967396⟩ = true := by
  decide

end Asap.Mac
