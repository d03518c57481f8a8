import Asap.Rpl.ExtHeaderRemove

/-!
# The RPL option is processed

A router that receives a packet with the RPL option compares its rank to that of the sender. A packet
that goes in the wrong direction gets the rank-error flag, and a packet that has the flag already is
dropped.

## Main definitions

* `RplTables` — what is read of the instances and the neighbors, and what is changed.
* `rplExtHeaderHbhUpdate` — the option is processed.
* `RplAcceptable` — an option for which the packet goes on.
-/

namespace Asap.Rpl

open Asap.Lib Asap.Ipv6

/-- `RPL_HDR_OPT_RANK_ERR` -/
def rplHdrOptRankErr : Byte := 0x40

/-- What is read of an instance: its mode of operation, and of its current DAG whether it is joined,
and the rank. -/
structure HbhDag where
  storing : Bool
  nonStoring : Bool
  joined : Bool
  rank : BitVec 16

/-- The instances, the rank of the parent that sent the packet, if it is one, and whether there is a
route to the destination; how often the timer of the DIOs was reset and an immediate DIO scheduled
for an instance, and `rpl_stats`. -/
structure RplTables where
  instances : Byte → Option HbhDag
  senderRank : Option (BitVec 16)
  route : Bool
  dioResets : List Byte
  unicastDios : List Byte
  forwardErrors : ℕ
  loopErrors : ℕ
  loopWarnings : ℕ

/-- What the function returns; of a packet that is dropped, whether it is for a rank error. -/
inductive HbhVerdict
  | accept | drop | rankError
deriving DecidableEq, Repr

section Update

variable (selectDag : HbhDag → BitVec 16 → HbhDag)

/-- The rank of the sender in the option at an offset. -/
def optionRank (buf : ℕ → Byte) (opt : ℕ) : BitVec 16 :=
  (buf (opt + 4) ++ buf (opt + 5) : BitVec (8 + 8))

/-- The instance once a rank error of a parent was noticed. -/
def repaired (s : RplTables) (dag : HbhDag) (flags : Byte) (rank : BitVec 16) : HbhDag :=
  if s.senderRank.isSome ∧ flags &&& rplHdrOptRankErr ≠ 0 ∧ dag.nonStoring then selectDag dag rank
  else dag

/-- The tables once a rank error of a parent was noticed. -/
def repairedTables (s : RplTables) (instanceId : Byte) (dag : HbhDag) (flags : Byte)
    (rank : BitVec 16) : RplTables :=
  { s with
    instances := fun i =>
      if i = instanceId then some (repaired selectDag s dag flags rank) else s.instances i
    senderRank :=
      if s.senderRank.isSome ∧ flags &&& rplHdrOptRankErr ≠ 0 then some rank else s.senderRank }

/-- The direction of a packet does not fit the ranks. -/
def loopDetected (flags : Byte) (senderRank rank : BitVec 16) : Bool :=
  let down := flags &&& rplHdrOptDown ≠ 0
  let senderCloser := senderRank.ult rank
  (down && !senderCloser) || (!down && senderCloser)

/-- `rpl_ext_header_hbh_update`. What `rpl_select_dag` does to the instance is a parameter. -/
def rplExtHeaderHbhUpdate (s : RplTables) (buf : ℕ → Byte) (ext opt : ℕ) :
    HbhVerdict × RplTables × (ℕ → Byte) :=
  if buf (ext + 1) ≠ 0 ∨ buf opt ≠ uipExtHdrOptRpl ∨ buf (opt + 1) ≠ 4 then (.drop, s, buf)
  else
    let flags := buf (opt + 2)
    let id := buf (opt + 3)
    match s.instances id with
    | none => (.drop, s, buf)
    | some dag =>
      if flags &&& rplHdrOptFwdErr ≠ 0 then
        (.drop,
          { s with
            route := if dag.storing then false else s.route
            forwardErrors := s.forwardErrors + 1
            dioResets := s.dioResets ++ [id] }, buf)
      else if !dag.joined then (.drop, s, buf)
      else
        let senderRank := optionRank buf opt
        let s' := repairedTables selectDag s id dag flags senderRank
        if loopDetected flags senderRank (repaired selectDag s dag flags senderRank).rank then
          let s' :=
            if s.senderRank.isSome then { s' with unicastDios := s'.unicastDios ++ [id] } else s'
          if flags &&& rplHdrOptRankErr ≠ 0 then
            (.rankError,
              { s' with loopErrors := s'.loopErrors + 1, dioResets := s'.dioResets ++ [id] }, buf)
          else
            (.accept, { s' with loopWarnings := s'.loopWarnings + 1 },
              store buf (opt + 2) [flags ||| rplHdrOptRankErr])
        else (.accept, s', buf)

/-- The option of a header of this size is of an instance that the node has joined, there is no
forwarding error, and no second rank error. -/
def RplAcceptable (s : RplTables) (buf : ℕ → Byte) (ext opt : ℕ) : Prop :=
  buf (ext + 1) = 0 ∧ buf opt = uipExtHdrOptRpl ∧ buf (opt + 1) = 4 ∧
    ∃ dag, s.instances (buf (opt + 3)) = some dag ∧ buf (opt + 2) &&& rplHdrOptFwdErr = 0 ∧
      dag.joined = true ∧
      ¬ (buf (opt + 2) &&& rplHdrOptRankErr ≠ 0 ∧
        loopDetected (buf (opt + 2)) (optionRank buf opt)
          (repaired selectDag s dag (buf (opt + 2)) (optionRank buf opt)).rank = true)

variable {selectDag} {s : RplTables} {buf : ℕ → Byte} {ext opt : ℕ}

/-- What the function does with an option of the right form. -/
theorem rplExtHeaderHbhUpdate_cases (hform : buf (ext + 1) = 0 ∧ buf opt = uipExtHdrOptRpl ∧
    buf (opt + 1) = 4) :
    (RplAcceptable selectDag s buf ext opt ∧
      (rplExtHeaderHbhUpdate selectDag s buf ext opt).1 = .accept ∧
      ∀ i ≠ opt + 2, (rplExtHeaderHbhUpdate selectDag s buf ext opt).2.2 i = buf i) ∨
    (¬ RplAcceptable selectDag s buf ext opt ∧
      ((rplExtHeaderHbhUpdate selectDag s buf ext opt).1 = .drop ∨
        (rplExtHeaderHbhUpdate selectDag s buf ext opt).1 = .rankError ∧
          buf (opt + 2) &&& rplHdrOptRankErr ≠ 0) ∧
      (rplExtHeaderHbhUpdate selectDag s buf ext opt).2.2 = buf) := by
  obtain ⟨hlen, htype, hopt⟩ := hform
  have hgood : ¬ (buf (ext + 1) ≠ 0 ∨ buf opt ≠ uipExtHdrOptRpl ∨ buf (opt + 1) ≠ 4) := by
    rw [not_or, not_or, not_not, not_not, not_not]
    exact ⟨hlen, htype, hopt⟩
  have hacceptable : RplAcceptable selectDag s buf ext opt ↔
      ∃ dag, s.instances (buf (opt + 3)) = some dag ∧ buf (opt + 2) &&& rplHdrOptFwdErr = 0 ∧
        dag.joined = true ∧
        ¬ (buf (opt + 2) &&& rplHdrOptRankErr ≠ 0 ∧
          loopDetected (buf (opt + 2)) (optionRank buf opt)
            (repaired selectDag s dag (buf (opt + 2)) (optionRank buf opt)).rank = true) :=
    ⟨fun h => h.2.2.2, fun h => ⟨hlen, htype, hopt, h⟩⟩
  rw [hacceptable, rplExtHeaderHbhUpdate, if_neg hgood]
  cases hinst : s.instances (buf (opt + 3)) with
  | none =>
    simp only [hinst]
    exact .inr ⟨fun ⟨dag, hdag, _⟩ => Option.some_ne_none dag hdag.symm, .inl trivial, trivial⟩
  | some dag =>
    simp only [hinst, Option.some.injEq, exists_eq_left']
    by_cases hfwd : buf (opt + 2) &&& rplHdrOptFwdErr = 0
    · simp only [hfwd, ne_eq, not_true_eq_false, if_false, true_and]
      cases hjoined : dag.joined with
      | false =>
        simp only [Bool.not_false, if_true]
        exact .inr ⟨fun h => Bool.noConfusion h.1, .inl trivial, trivial⟩
      | true =>
        simp only [Bool.not_true, Bool.false_eq_true, if_false, true_and]
        by_cases hloop : loopDetected (buf (opt + 2)) (optionRank buf opt)
            (repaired selectDag s dag (buf (opt + 2)) (optionRank buf opt)).rank = true
        · simp only [hloop, if_true, and_true]
          by_cases hflag : buf (opt + 2) &&& rplHdrOptRankErr = 0
          · simp only [hflag, not_true_eq_false, if_false, not_false_eq_true]
            refine .inl ⟨trivial, trivial, fun i hi => ?_⟩
            rcases Nat.lt_or_gt_of_ne hi with hlt | hgt
            · exact store_of_lt hlt
            · exact store_of_le hgt
          · simp only [hflag, not_false_eq_true, if_true, not_true_eq_false]
            exact .inr ⟨trivial, .inr ⟨trivial, trivial⟩, trivial⟩
        · simp only [hloop, Bool.false_eq_true, if_false, and_false, not_false_eq_true]
          exact .inl ⟨trivial, trivial, fun _ _ => trivial⟩
    · simp only [hfwd, ne_eq, not_false_eq_true, if_true, false_and]
      exact .inr ⟨trivial, .inl trivial, trivial⟩

/-- An option of another form is refused. -/
theorem rplExtHeaderHbhUpdate_of_form (hform : ¬ (buf (ext + 1) = 0 ∧ buf opt = uipExtHdrOptRpl ∧
    buf (opt + 1) = 4)) : rplExtHeaderHbhUpdate selectDag s buf ext opt = (.drop, s, buf) := by
  refine if_pos ?_
  by_contra h
  rw [not_or, not_or, not_not, not_not, not_not] at h
  exact hform h

/-- **The packet goes on** exactly if the option is acceptable. -/
theorem rplExtHeaderHbhUpdate_accept :
    (rplExtHeaderHbhUpdate selectDag s buf ext opt).1 = .accept ↔
      RplAcceptable selectDag s buf ext opt := by
  by_cases hform : buf (ext + 1) = 0 ∧ buf opt = uipExtHdrOptRpl ∧ buf (opt + 1) = 4
  · rcases @rplExtHeaderHbhUpdate_cases selectDag s buf ext opt hform with
      ⟨hok, hverdict, _⟩ | ⟨hnot, hverdict | ⟨hverdict, _⟩, _⟩
    · exact iff_of_true hverdict hok
    · exact iff_of_false (by rw [hverdict]; decide) hnot
    · exact iff_of_false (by rw [hverdict]; decide) hnot
  · rw [rplExtHeaderHbhUpdate_of_form hform]
    exact iff_of_false HbhVerdict.noConfusion fun h => hform ⟨h.1, h.2.1, h.2.2.1⟩

/-- **A packet that is dropped for a rank error** has the flag. -/
theorem flag_of_rankError (h : (rplExtHeaderHbhUpdate selectDag s buf ext opt).1 = .rankError) :
    buf (opt + 2) &&& rplHdrOptRankErr ≠ 0 := by
  by_cases hform : buf (ext + 1) = 0 ∧ buf opt = uipExtHdrOptRpl ∧ buf (opt + 1) = 4
  · rcases @rplExtHeaderHbhUpdate_cases selectDag s buf ext opt hform with
      ⟨_, hverdict, _⟩ | ⟨_, hverdict | ⟨_, hflag⟩, _⟩
    · cases hverdict.symm.trans h
    · cases hverdict.symm.trans h
    · exact hflag
  · rw [rplExtHeaderHbhUpdate_of_form hform] at h
    cases h

/-- Nothing is changed of the packet but the flags. -/
theorem rplExtHeaderHbhUpdate_buf {i : ℕ} (hi : i ≠ opt + 2) :
    (rplExtHeaderHbhUpdate selectDag s buf ext opt).2.2 i = buf i := by
  by_cases hform : buf (ext + 1) = 0 ∧ buf opt = uipExtHdrOptRpl ∧ buf (opt + 1) = 4
  · rcases @rplExtHeaderHbhUpdate_cases selectDag s buf ext opt hform with
      ⟨_, _, hbuf⟩ | ⟨_, _, hbuf⟩
    · exact hbuf i hi
    · rw [hbuf]
  · rw [rplExtHeaderHbhUpdate_of_form hform]

end Update

end Asap.Rpl
