import Asap.Tsch.EbInput

/-!
# The divisors of a node are positive

A node divides by the length of the hopping sequence, by the timeslot length and by the sizes
of its slotframes. The sizes are checked when a slotframe is added. The others come from the
beacons, and no beacon is refused because of them, so that it depends on what is in each beacon
that is accepted whether they stay positive: also the timeslot length that it announces, which
is used from the triggering ASN on.

## Main definitions

* `DivisorsPositive` — what a node divides by is positive.
* `AssociateKeeps`, `EbInputKeeps` — a beacon has what it takes.
* `divisors_positive_iff` — they stay positive exactly after such beacons.
-/

namespace Asap.Tsch

open Asap.Lib Asap.Framer

variable {w : ℕ} {cfg : EbConfig w} {s t u : TschNode w}

namespace TschNode

/-! ## Specification -/

/-- What a node divides by is positive. -/
structure DivisorsPositive (s : TschNode w) : Prop where
  hoppingSequence : s.tschHoppingSequenceLength.val ≠ 0
  timeslotLength : s.tschTiming tschTsTimeslotLength ≠ 0
  slotframes : ∀ sf ∈ s.slotframeList, sf.size.val ≠ 0

/-- It is so from now on, as long as the slot operation goes on. -/
def StaysPositive (cfg : EbConfig w) (s : TschNode w) : Prop :=
  ∀ ns t, run (slotOperation cfg) s ns = some t → t.DivisorsPositive

/-- A beacon has a hopping sequence that is not empty, if it has one. -/
def HoppingSequenceOk (ies : Ieee802154Ies) : Prop :=
  ies.ieChannelHoppingSequenceId = 0 ∨ ies.ieHoppingSequenceLen ≠ 0

section

variable (cfg : EbConfig w)

/-- The condition on a beacon that is accepted at association. -/
structure AssociateOk (ies : Ieee802154Ies) : Prop where
  hoppingSequence : HoppingSequenceOk ies
  timeslotLength : cfg.usToRtimerticks (timingOfEb cfg ies tschTsTimeslotLength) ≠ 0
  next : cfg.ie.withSla → cfg.usToRtimerticks ies.ieSlaNextTimeslotLen ≠ 0

/-- A node that is still associated after a later beacon of its time source. -/
def StaysAssociated (rxAsn : TschAsn) (ies : Ieee802154Ies) (s : TschNode w) :
    Prop :=
  s.tschIsAssociated ∧ rxAsn.diff ies.ieAsn = 0 ∧ ies.ieJoinPriority < cfg.tschMaxJoinPriority ∧
    s.tschTimingUs tschTsTimeslotLength = ies.ieSlaCurrTimeslotLen

/-- The condition on a later beacon of the time source. -/
structure EbInputOk (rxAsn : TschAsn) (s : TschNode w) (ies : Ieee802154Ies) :
    Prop where
  hoppingSequence : HoppingSequenceOk ies
  next : cfg.ie.withSla → StaysAssociated cfg rxAsn ies s →
    cfg.usToRtimerticks ies.ieSlaNextTimeslotLen ≠ 0

/-- A frame that is received while scanning meets the condition, if it is a beacon that is not
refused before anything is taken from it. -/
def AssociateKeeps (e : ReceivedEb) : Prop :=
  ∀ frame ies, tschPacketParseEb cfg e.rounds e.mem e.len e.frame false = some (some (frame, ies)) →
    refusesEb cfg e frame ies = false → AssociateOk cfg ies

/-- A frame that is received later meets the condition, if it is a beacon of the time source. -/
def EbInputKeeps (e : ReceivedEb) (rxAsn : TschAsn) (s : TschNode w) : Prop :=
  ∀ frame ies, tschPacketParseEb cfg e.rounds e.mem e.len e.frame true = some (some (frame, ies)) →
    s.timeSource = some frame.srcAddr → EbInputOk cfg rxAsn s ies

/-- The condition on an event. -/
def EventKeeps (s : TschNode w) : NodeEvent → Prop
  | .associate e => AssociateKeeps cfg e
  | .ebInput e rxAsn => EbInputKeeps cfg e rxAsn s
  | _ => True

end

/-! ## The invariant -/

/-- The divisors are positive and will be: the timeslot length in ticks is that in microseconds,
and that of an associated node goes over to another one that is positive. -/
structure Good (cfg : EbConfig w) (s : TschNode w) : Prop extends DivisorsPositive s where
  ticks : s.tschTiming tschTsTimeslotLength =
    cfg.usToRtimerticks (s.tschTimingUs tschTsTimeslotLength)
  next : cfg.ie.withSla → s.tschIsAssociated → cfg.usToRtimerticks s.slaNextTimeslotLength ≠ 0

/-- The invariant does not depend on anything else. -/
theorem Good.congr (h : Good cfg s) (hlen : t.tschHoppingSequenceLength = s.tschHoppingSequenceLength)
    (hus : t.tschTimingUs = s.tschTimingUs) (hticks : t.tschTiming = s.tschTiming)
    (hnext : t.slaNextTimeslotLength = s.slaNextTimeslotLength)
    (hassociated : t.tschIsAssociated → s.tschIsAssociated) : Good cfg t where
  hoppingSequence := hlen ▸ h.hoppingSequence
  timeslotLength := hticks ▸ h.timeslotLength
  slotframes := fun sf _ => sf.size_ne
  ticks := by
    rw [hticks, hus]
    exact h.ticks
  next := by
    rw [hnext]
    exact fun hsla h' => h.next hsla (hassociated h')

theorem tsTimeslotLength_lt (cfg : IeConfig) : tschTsTimeslotLength < cfg.tsElementsCount := by
  simp only [tschTsTimeslotLength, IeConfig.tsElementsCount]
  split_ifs <;> omega

/-! ## Schedules -/

/-- A slotframe changes nothing but the list of slotframes. -/
theorem addSlotframe_eq (cfg : EbConfig w) (s : TschNode w) (handle size : BitVec 16) :
    ∃ sfs, s.tschScheduleAddSlotframe cfg handle size = { s with slotframeList := sfs } := by
  rw [tschScheduleAddSlotframe]
  split_ifs
  · exact ⟨s.slotframeList, rfl⟩
  · exact ⟨s.slotframeList, rfl⟩
  · exact ⟨_, rfl⟩
  · exact ⟨s.slotframeList, rfl⟩

theorem initSchedule_eq {ies : Ieee802154Ies} (h : s.initSchedule cfg ies = some t) :
    ∃ sfs, t = { s with slotframeList := sfs } := by
  simp only [initSchedule, tschScheduleCreateMinimal] at h
  split_ifs at h
  · obtain rfl := Option.some.inj h
    exact addSlotframe_eq cfg s.tschScheduleRemoveAllSlotframes _ _
  · obtain rfl := Option.some.inj h
    exact ⟨s.slotframeList, rfl⟩
  · obtain rfl := Option.some.inj h
    exact addSlotframe_eq cfg s.tschScheduleRemoveAllSlotframes _ _

/-! ## The next timeslot length -/

/-- The slot operation keeps the invariant. -/
theorem slotOperation_good {n : BitVec 16} (h : Good cfg s) (hslot : s.slotOperation cfg n = some t) :
    Good cfg t := by
  rw [slotOperation] at hslot
  by_cases hassociated : s.tschIsAssociated
  · rw [if_pos hassociated] at hslot
    obtain rfl := Option.some.inj hslot
    split_ifs with hswitch
    · have hnext := h.next hswitch.1 hassociated
      exact {
        hoppingSequence := h.hoppingSequence
        timeslotLength := hnext
        slotframes := fun sf _ => sf.size_ne
        ticks := rfl
        next := fun _ _ => hnext }
    · exact h.congr rfl rfl rfl rfl id
  · rw [if_neg hassociated] at hslot
    cases hslot

/-- The divisors stay positive. -/
theorem Good.staysPositive (h : Good cfg s) : StaysPositive cfg s := by
  intro ns t hrun
  have hgood : Good cfg t :=
    run_invariant (Good cfg) (fun _ _ _ hs hstep => slotOperation_good hs hstep) h hrun
  exact hgood.toDivisorsPositive

/-- At the triggering ASN the timeslot length changes. -/
theorem slotOperation_switch {n : BitVec 16} (hsla : cfg.ie.withSla) (hassociated : s.tschIsAssociated)
    (hne : s.tschTimingUs tschTsTimeslotLength ≠ s.slaNextTimeslotLength)
    (hasn : s.tschCurrentAsn.inc (n.setWidth 32) = s.slaTriggeringAsn) :
    ∃ t, s.slotOperation cfg n = some t ∧
      t.tschTiming tschTsTimeslotLength = cfg.usToRtimerticks s.slaNextTimeslotLength := by
  rw [slotOperation, if_pos hassociated]
  refine ⟨_, rfl, ?_⟩
  rw [if_pos ⟨hsla, hasn, hne⟩]
  rfl

/-- At another ASN nothing but the ASN changes. -/
theorem slotOperation_other {n : BitVec 16} (hassociated : s.tschIsAssociated)
    (hasn : s.tschCurrentAsn.inc (n.setWidth 32) ≠ s.slaTriggeringAsn) :
    s.slotOperation cfg n =
      some { s with tschCurrentAsn := s.tschCurrentAsn.inc (n.setWidth 32) } := by
  rw [slotOperation, if_pos hassociated]
  exact congrArg some (if_neg fun h => hasn h.2.1)

/-- **The next timeslot length becomes the timeslot length**: the node comes to the triggering
ASN when the slot operation wakes up in each timeslot. -/
theorem exists_slots_switch (hsla : cfg.ie.withSla) (k : ℕ) : ∀ s : TschNode w,
    s.tschIsAssociated → s.tschTimingUs tschTsTimeslotLength ≠ s.slaNextTimeslotLength →
      (s.tschCurrentAsn.val + (k + 1)) % 2 ^ 40 = s.slaTriggeringAsn.val →
        ∃ ns t, run (slotOperation cfg) s ns = some t ∧
          t.tschTiming tschTsTimeslotLength = cfg.usToRtimerticks s.slaNextTimeslotLength := by
  have hone : ((1 : BitVec 16).setWidth 32).toNat = 1 := rfl
  induction k with
  | zero =>
    intro s hassociated hne hasn
    have hinc : s.tschCurrentAsn.inc ((1 : BitVec 16).setWidth 32) = s.slaTriggeringAsn := by
      apply TschAsn.ext_val
      rw [TschAsn.val_inc, hone]
      exact hasn
    obtain ⟨t, hslot, hticks⟩ := slotOperation_switch hsla hassociated hne hinc
    exact ⟨[1], t, run_cons_eq_some.mpr ⟨t, hslot, rfl⟩, hticks⟩
  | succ k ih =>
    intro s hassociated hne hasn
    by_cases hinc : s.tschCurrentAsn.inc ((1 : BitVec 16).setWidth 32) = s.slaTriggeringAsn
    · obtain ⟨t, hslot, hticks⟩ := slotOperation_switch hsla hassociated hne hinc
      exact ⟨[1], t, run_cons_eq_some.mpr ⟨t, hslot, rfl⟩, hticks⟩
    · have hslot : s.slotOperation cfg 1 = some _ := slotOperation_other hassociated hinc
      have hval : (s.tschCurrentAsn.inc ((1 : BitVec 16).setWidth 32)).val + (k + 1) =
          (s.tschCurrentAsn.val + 1) % 2 ^ 40 + (k + 1) := by
        rw [TschAsn.val_inc, hone]
      obtain ⟨ns, t, hrun, hticks⟩ :=
        ih { s with tschCurrentAsn := s.tschCurrentAsn.inc ((1 : BitVec 16).setWidth 32) }
          hassociated hne (by simp only [hval]; omega)
      exact ⟨1 :: ns, t, run_cons_eq_some.mpr ⟨_, hslot, hrun⟩, hticks⟩

/-- A node whose divisors stay positive goes over to a timeslot length that is positive. -/
theorem StaysPositive.good (h : StaysPositive cfg s)
    (hticks : s.tschTiming tschTsTimeslotLength =
      cfg.usToRtimerticks (s.tschTimingUs tschTsTimeslotLength)) : Good cfg s := by
  have hpositive : s.DivisorsPositive := h [] s rfl
  refine ⟨hpositive, hticks, ?_⟩
  intro hsla hassociated
  by_cases hne : s.tschTimingUs tschTsTimeslotLength = s.slaNextTimeslotLength
  · rw [← hne, ← hticks]
    exact hpositive.timeslotLength
  · have hlt := s.tschCurrentAsn.val_lt
    have hlt' := s.slaTriggeringAsn.val_lt
    obtain ⟨ns, t, hrun, hswitched⟩ := exists_slots_switch hsla
      ((s.slaTriggeringAsn.val + 2 ^ 40 - s.tschCurrentAsn.val - 1) % 2 ^ 40) s hassociated hne
      (by omega)
    rw [← hswitched]
    exact (h ns t hrun).timeslotLength

/-- The divisors stay positive exactly if the invariant holds. -/
theorem staysPositive_iff_good (hticks : s.tschTiming tschTsTimeslotLength =
    cfg.usToRtimerticks (s.tschTimingUs tschTsTimeslotLength)) :
    StaysPositive cfg s ↔ Good cfg s :=
  ⟨fun h => h.good hticks, Good.staysPositive⟩

/-! ## Association -/

/-- What a node has after everything was taken from a beacon. -/
structure Taken (cfg : EbConfig w) (ies : Ieee802154Ies) (t : TschNode w) : Prop where
  timing : t.tschTiming tschTsTimeslotLength =
    cfg.usToRtimerticks (timingOfEb cfg ies tschTsTimeslotLength)
  timingUs : t.tschTimingUs tschTsTimeslotLength = timingOfEb cfg ies tschTsTimeslotLength
  next : cfg.ie.withSla → t.slaNextTimeslotLength = ies.ieSlaNextTimeslotLen
  hoppingSequence : t.tschHoppingSequenceLength.val = if ies.ieChannelHoppingSequenceId = 0 then
    BitVec.ofNat 16 cfg.tschDefaultHoppingSequence.length else ies.ieHoppingSequenceLen

theorem Taken.ticks {ies : Ieee802154Ies} (h : Taken cfg ies t) :
    t.tschTiming tschTsTimeslotLength =
      cfg.usToRtimerticks (t.tschTimingUs tschTsTimeslotLength) := by
  rw [h.timing, h.timingUs]

/-- The timing is that of the beacon. -/
theorem setTiming_timing (ies : Ieee802154Ies) (s : TschNode w) :
    (s.setTiming cfg ies).tschTiming tschTsTimeslotLength =
        cfg.usToRtimerticks (timingOfEb cfg ies tschTsTimeslotLength) ∧
      (s.setTiming cfg ies).tschTimingUs tschTsTimeslotLength =
        timingOfEb cfg ies tschTsTimeslotLength :=
  ⟨if_pos (tsTimeslotLength_lt cfg.ie), if_pos (tsTimeslotLength_lt cfg.ie)⟩

section

variable {ies : Ieee802154Ies}

theorem taken_setHoppingSequence
    (h : (s.setTiming cfg ies).setHoppingSequence cfg ies = some t) : Taken cfg ies t := by
  obtain ⟨htiming, htimingUs⟩ := @setTiming_timing _ cfg ies s
  simp only [setHoppingSequence] at h
  split_ifs at h with hid hlen
  · obtain rfl := Option.some.inj h
    exact ⟨htiming, htimingUs, fun hsla => if_pos hsla, (if_pos hid).symm⟩
  · obtain rfl := Option.some.inj h
    exact ⟨htiming, htimingUs, fun hsla => if_pos hsla, (if_neg hid).symm⟩

theorem Taken.initSchedule (h : Taken cfg ies s)
    (hinit : s.initSchedule cfg ies = some t) : Taken cfg ies t := by
  obtain ⟨sfs, rfl⟩ := initSchedule_eq hinit
  exact ⟨h.timing, h.timingUs, h.next, h.hoppingSequence⟩

theorem Taken.removeAllSlotframes (h : Taken cfg ies s) :
    Taken cfg ies s.tschScheduleRemoveAllSlotframes :=
  ⟨h.timing, h.timingUs, h.next, h.hoppingSequence⟩

theorem Taken.join (h : Taken cfg ies s) (e : ReceivedEb)
    (frame : Frame802154) : Taken cfg ies (s.join cfg e frame).2 := by
  rw [TschNode.join]
  split_ifs
  · exact ⟨h.timing, h.timingUs, h.next, h.hoppingSequence⟩
  · exact h

end

theorem join_associated {e : ReceivedEb} {frame : Frame802154}
    (h : (s.join cfg e frame).1 = true) : (s.join cfg e frame).2.tschIsAssociated := by
  rw [TschNode.join] at h ⊢
  split_ifs at h ⊢
  · rfl

/-- What can come of a frame that is received while scanning: the frame is not a beacon or
refused, its hopping sequence is too long, or everything is taken from it. -/
theorem tschAssociate_cases {e : ReceivedEb} {accepted : Bool}
    (h : s.tschAssociate cfg e = some (accepted, t)) :
    (accepted = false ∧ ∃ asn jp, t = { s with tschCurrentAsn := asn, tschJoinPriority := jp }) ∨
      ∃ frame ies, tschPacketParseEb cfg e.rounds e.mem e.len e.frame false =
          some (some (frame, ies)) ∧ refusesEb cfg e frame ies = false ∧
        ((accepted = false ∧ ∃ asn jp, t =
            ({ s with tschCurrentAsn := asn, tschJoinPriority := jp }).setTiming cfg ies) ∨
          Taken cfg ies t ∧ (accepted = true → t.tschIsAssociated)) := by
  rw [tschAssociate] at h
  cases hparse : tschPacketParseEb cfg e.rounds e.mem e.len e.frame false with
  | none =>
    rw [hparse] at h
    cases h
  | some r =>
    rw [hparse] at h
    cases r with
    | none =>
      cases h
      exact Or.inl ⟨rfl, s.tschCurrentAsn, s.tschJoinPriority, rfl⟩
    | some r =>
      obtain ⟨frame, ies⟩ := r
      dsimp only at h
      cases hrefuses : refusesEb cfg e frame ies with
      | true =>
        rw [hrefuses, if_pos rfl] at h
        cases h
        exact Or.inl ⟨rfl, _, _, rfl⟩
      | false =>
        rw [hrefuses, if_neg Bool.false_ne_true] at h
        refine Or.inr ⟨frame, ies, rfl, hrefuses, ?_⟩
        cases hset : (({ s with
            tschCurrentAsn := ies.ieAsn
            tschJoinPriority := ies.ieJoinPriority + 1 } : TschNode w).setTiming cfg
              ies).setHoppingSequence cfg ies with
        | none =>
          rw [hset] at h
          cases h
          exact Or.inl ⟨rfl, _, _, rfl⟩
        | some s' =>
          rw [hset] at h
          dsimp only at h
          have htaken : Taken cfg ies s' := taken_setHoppingSequence hset
          right
          by_cases hinit : cfg.tschInitScheduleFromEb
          · rw [if_pos hinit] at h
            cases hschedule : s'.initSchedule cfg ies with
            | none =>
              rw [hschedule] at h
              cases h
              exact ⟨htaken.removeAllSlotframes, nofun⟩
            | some s'' =>
              rw [hschedule] at h
              have hjoin : s''.join cfg e frame = (accepted, t) := Option.some.inj h
              have htaken' := (htaken.initSchedule hschedule).join e frame
              have hassociated := @join_associated _ cfg s'' e frame
              rw [hjoin] at htaken' hassociated
              exact ⟨htaken', hassociated⟩
          · rw [if_neg hinit] at h
            have hjoin : s'.join cfg e frame = (accepted, t) := Option.some.inj h
            have htaken' := htaken.join e frame
            have hassociated := @join_associated _ cfg s' e frame
            rw [hjoin] at htaken' hassociated
            exact ⟨htaken', hassociated⟩

/-- The divisors that are taken from a beacon that meets the condition are positive. -/
theorem Taken.good {ies : Ieee802154Ies} (h : Taken cfg ies t) (hok : AssociateOk cfg ies) :
    Good cfg t where
  hoppingSequence := by
    rw [h.hoppingSequence]
    split_ifs with hid
    · exact cfg.hoppingSequence_ne
    · exact hok.hoppingSequence.resolve_left hid
  timeslotLength := by
    rw [h.timing]
    exact hok.timeslotLength
  slotframes := fun sf _ => sf.size_ne
  ticks := h.ticks
  next := by
    intro hsla _
    rw [h.next hsla]
    exact hok.next hsla

/-- They are positive at a node that is associated only if the condition is met. -/
theorem Taken.associateOk {ies : Ieee802154Ies} (h : Taken cfg ies t)
    (hassociated : t.tschIsAssociated) (hgood : Good cfg t) : AssociateOk cfg ies where
  hoppingSequence := by
    by_cases hid : ies.ieChannelHoppingSequenceId = 0
    · exact Or.inl hid
    · have hne := hgood.hoppingSequence
      rw [h.hoppingSequence, if_neg hid] at hne
      exact Or.inr hne
  timeslotLength := by
    rw [← h.timing]
    exact hgood.timeslotLength
  next := by
    intro hsla
    rw [← h.next hsla]
    exact hgood.next hsla hassociated

section

variable {e : ReceivedEb} (h : s.tschAssociate cfg e = some (true, t))

include h

/-- Everything is taken from a beacon that is accepted. -/
theorem taken_of_accepted :
    ∃ frame ies, tschPacketParseEb cfg e.rounds e.mem e.len e.frame false =
        some (some (frame, ies)) ∧ refusesEb cfg e frame ies = false ∧
      Taken cfg ies t ∧ t.tschIsAssociated := by
  rcases tschAssociate_cases h with ⟨hnot, -⟩ | ⟨frame, ies, hparse, hrefuses, hcases⟩
  · cases hnot
  · rcases hcases with ⟨hnot, -⟩ | ⟨htaken, hassociated⟩
    · cases hnot
    · exact ⟨frame, ies, hparse, hrefuses, htaken, hassociated rfl⟩

/-- The invariant holds after association with a beacon exactly if the condition is met. -/
theorem tschAssociate_good_iff :
    Good cfg t ↔ AssociateKeeps cfg e := by
  obtain ⟨frame, ies, hparse, hrefuses, htaken, hassociated⟩ := taken_of_accepted h
  constructor
  · intro hgood frame' ies' hparse' _
    rw [hparse] at hparse'
    cases hparse'
    exact htaken.associateOk hassociated hgood
  · intro hkeeps
    exact htaken.good (hkeeps frame ies hparse hrefuses)

/-- The timeslot length in ticks is that in microseconds. -/
theorem tschAssociate_ticks :
    t.tschTiming tschTsTimeslotLength =
      cfg.usToRtimerticks (t.tschTimingUs tschTsTimeslotLength) := by
  obtain ⟨frame, ies, -, -, htaken, -⟩ := taken_of_accepted h
  exact htaken.ticks

end

/-- A frame that is received while scanning keeps the invariant. -/
theorem tschAssociate_good {e : ReceivedEb} {accepted : Bool} (hgood : Good cfg s)
    (hkeeps : AssociateKeeps cfg e) (h : s.tschAssociate cfg e = some (accepted, t)) :
    Good cfg t := by
  rcases tschAssociate_cases h with ⟨-, asn, jp, rfl⟩ | ⟨frame, ies, hparse, hrefuses, hcases⟩
  · exact hgood.congr rfl rfl rfl rfl id
  have hok := hkeeps frame ies hparse hrefuses
  rcases hcases with ⟨-, asn, jp, rfl⟩ | ⟨htaken, -⟩
  · obtain ⟨htiming, htimingUs⟩ := @setTiming_timing _ cfg ies
      { s with tschCurrentAsn := asn, tschJoinPriority := jp }
    refine ⟨⟨hgood.hoppingSequence, ?_, fun sf _ => sf.size_ne⟩, ?_, ?_⟩
    · rw [htiming]
      exact hok.timeslotLength
    · rw [htiming, htimingUs]
    · intro hsla _
      simp only [setTiming, if_pos hsla]
      exact hok.next hsla
  · exact htaken.good hok

/-! ## Later beacons -/

/-- What can come of a frame that is received later. -/
theorem ebInput_cases {e : ReceivedEb} {rxAsn : TschAsn} (h : s.ebInput cfg e rxAsn = some t) :
    (t = s ∧ ∀ frame ies, tschPacketParseEb cfg e.rounds e.mem e.len e.frame true =
        some (some (frame, ies)) → s.timeSource ≠ some frame.srcAddr) ∨
      ∃ frame ies, tschPacketParseEb cfg e.rounds e.mem e.len e.frame true =
          some (some (frame, ies)) ∧ s.timeSource = some frame.srcAddr ∧
        t = if cfg.ie.withSla then
          ((s.checkEb cfg rxAsn ies).updateHoppingSequence cfg ies).slaEbInput ies
        else (s.checkEb cfg rxAsn ies).updateHoppingSequence cfg ies := by
  rw [ebInput] at h
  cases hparse : tschPacketParseEb cfg e.rounds e.mem e.len e.frame true with
  | none =>
    rw [hparse] at h
    cases h
  | some r =>
    rw [hparse] at h
    cases r with
    | none =>
      cases h
      exact Or.inl ⟨rfl, nofun⟩
    | some r =>
      obtain ⟨frame, ies⟩ := r
      dsimp only at h
      by_cases hsource : s.timeSource = some frame.srcAddr
      · rw [if_pos hsource] at h
        exact Or.inr ⟨frame, ies, rfl, hsource, (Option.some.inj h).symm⟩
      · rw [if_neg hsource] at h
        refine Or.inl ⟨(Option.some.inj h).symm, ?_⟩
        intro frame' ies' heq
        cases heq
        exact hsource

theorem checkEb_eq (cfg : EbConfig w) (rxAsn : TschAsn) (ies : Ieee802154Ies) (s : TschNode w) :
    s.checkEb cfg rxAsn ies = { s with
      tschIsAssociated := s.tschIsAssociated &&
        decide (rxAsn.diff ies.ieAsn = 0 ∧ ies.ieJoinPriority < cfg.tschMaxJoinPriority) } := by
  rw [checkEb]
  by_cases h : rxAsn.diff ies.ieAsn = 0 ∧ ies.ieJoinPriority < cfg.tschMaxJoinPriority
  · rw [if_neg (by rw [not_or, not_not, not_not]; exact h), decide_eq_true h, Bool.and_true]
  · rw [if_pos (by rw [← not_and_or]; exact h), decide_eq_false h, Bool.and_false]
    rfl

/-- The length of the hopping sequence after a beacon. -/
theorem updateHoppingSequence_ne {ies : Ieee802154Ies} (h : s.tschHoppingSequenceLength.val ≠ 0) :
    (s.updateHoppingSequence cfg ies).tschHoppingSequenceLength.val ≠ 0 ↔ HoppingSequenceOk ies := by
  simp only [updateHoppingSequence]
  by_cases hid : ies.ieChannelHoppingSequenceId = 0
  · rw [if_neg (fun hne => hne.1 hid)]
    exact iff_of_true h (Or.inl hid)
  · by_cases hzero : ies.ieHoppingSequenceLen = 0
    · have hlen : ies.ieHoppingSequenceLen ≠ s.tschHoppingSequenceLength.val := by
        rw [hzero]
        exact h.symm
      have hfits : ies.ieHoppingSequenceLen.toNat ≤ cfg.ie.hoppingSequenceMaxLen := by
        rw [hzero]
        exact Nat.zero_le _
      rw [if_pos ⟨hid, Or.inl hlen, hfits⟩]
      exact iff_of_false (fun hne => hne hzero) (fun hok => (hok.resolve_left hid) hzero)
    · refine iff_of_true ?_ (Or.inr hzero)
      split_ifs
      · exact hzero
      · exact h

/-- A beacon changes nothing else of what the timing and the announcement are about. -/
theorem updateHoppingSequence_eq (cfg : EbConfig w) (ies : Ieee802154Ies) (s : TschNode w) :
    ∃ list len, s.updateHoppingSequence cfg ies =
      { s with tschHoppingSequence := list, tschHoppingSequenceLength := len } := by
  simp only [updateHoppingSequence]
  split_ifs
  · exact ⟨_, _, rfl⟩
  · exact ⟨s.tschHoppingSequence, s.tschHoppingSequenceLength, rfl⟩

/-- What a beacon of the time source leaves. -/
structure EbTaken (cfg : EbConfig w) (rxAsn : TschAsn) (ies : Ieee802154Ies) (s t : TschNode w) :
    Prop where
  timing : t.tschTiming = s.tschTiming
  timingUs : t.tschTimingUs = s.tschTimingUs
  hoppingSequence : s.tschHoppingSequenceLength.val ≠ 0 →
    (t.tschHoppingSequenceLength.val ≠ 0 ↔ HoppingSequenceOk ies)
  associated : cfg.ie.withSla → (t.tschIsAssociated ↔ StaysAssociated cfg rxAsn ies s)
  next : cfg.ie.withSla → t.tschIsAssociated → t.slaNextTimeslotLength = ies.ieSlaNextTimeslotLen

theorem ebTaken_of_timeSource (cfg : EbConfig w) (rxAsn : TschAsn) (ies : Ieee802154Ies)
    (s : TschNode w) : EbTaken cfg rxAsn ies s
      (if cfg.ie.withSla then
        ((s.checkEb cfg rxAsn ies).updateHoppingSequence cfg ies).slaEbInput ies
      else (s.checkEb cfg rxAsn ies).updateHoppingSequence cfg ies) := by
  have hne : s.tschHoppingSequenceLength.val ≠ 0 →
      (((s.checkEb cfg rxAsn ies).updateHoppingSequence cfg ies).tschHoppingSequenceLength.val ≠ 0 ↔
        HoppingSequenceOk ies) := by
    intro hlen
    refine updateHoppingSequence_ne ?_
    rw [checkEb_eq]
    exact hlen
  obtain ⟨list, len, heq⟩ := updateHoppingSequence_eq cfg ies (s.checkEb cfg rxAsn ies)
  rw [checkEb_eq] at heq hne ⊢
  by_cases hsla : cfg.ie.withSla
  · rw [if_pos hsla, slaEbInput, heq]
    rw [heq] at hne
    by_cases hcurr : s.tschTimingUs tschTsTimeslotLength = ies.ieSlaCurrTimeslotLen
    · rw [if_neg (not_not.mpr hcurr)]
      refine ⟨rfl, rfl, hne, fun _ => ?_, fun _ _ => rfl⟩
      simp only [StaysAssociated, Bool.and_eq_true, decide_eq_true_eq, hcurr, and_true]
    · rw [if_pos hcurr]
      refine ⟨rfl, rfl, hne, fun _ => ?_, fun _ h => ?_⟩
      · exact iff_of_false nofun fun h => hcurr h.2.2.2
      · cases h
  · rw [if_neg hsla, heq]
    rw [heq] at hne
    exact ⟨rfl, rfl, hne, fun h => absurd h hsla, fun h => absurd h hsla⟩

/-- The invariant holds after a beacon of the time source exactly if the condition is met. -/
theorem EbTaken.good_iff {rxAsn : TschAsn} {ies : Ieee802154Ies} (h : EbTaken cfg rxAsn ies s t)
    (hgood : Good cfg s) : Good cfg t ↔ EbInputOk cfg rxAsn s ies := by
  constructor
  · intro ht
    refine ⟨(h.hoppingSequence hgood.hoppingSequence).mp ht.hoppingSequence, ?_⟩
    intro hsla hstays
    have hassociated := (h.associated hsla).mpr hstays
    rw [← h.next hsla hassociated]
    exact ht.next hsla hassociated
  · intro hok
    refine ⟨⟨(h.hoppingSequence hgood.hoppingSequence).mpr hok.hoppingSequence, ?_,
      fun sf _ => sf.size_ne⟩, ?_, ?_⟩
    · rw [h.timing]
      exact hgood.timeslotLength
    · rw [h.timing, h.timingUs]
      exact hgood.ticks
    · intro hsla hassociated
      rw [h.next hsla hassociated]
      exact hok.next hsla ((h.associated hsla).mp hassociated)

/-- The invariant holds after a later frame exactly if the condition is met. -/
theorem ebInput_good_iff {e : ReceivedEb} {rxAsn : TschAsn} (hgood : Good cfg s)
    (h : s.ebInput cfg e rxAsn = some t) : Good cfg t ↔ EbInputKeeps cfg e rxAsn s := by
  rcases ebInput_cases h with ⟨rfl, hnot⟩ | ⟨frame, ies, hparse, hsource, rfl⟩
  · exact iff_of_true hgood fun frame ies hparse hsource => absurd hsource (hnot frame ies hparse)
  · rw [(ebTaken_of_timeSource cfg rxAsn ies s).good_iff hgood]
    constructor
    · intro hok frame' ies' hparse' _
      rw [hparse] at hparse'
      cases hparse'
      exact hok
    · intro hkeeps
      exact hkeeps frame ies hparse hsource

/-- The timeslot length in ticks stays that in microseconds. -/
theorem ebInput_ticks {e : ReceivedEb} {rxAsn : TschAsn} (hgood : Good cfg s)
    (h : s.ebInput cfg e rxAsn = some t) :
    t.tschTiming tschTsTimeslotLength =
      cfg.usToRtimerticks (t.tschTimingUs tschTsTimeslotLength) := by
  rcases ebInput_cases h with ⟨rfl, -⟩ | ⟨frame, ies, -, -, rfl⟩
  · exact hgood.ticks
  · have htaken := ebTaken_of_timeSource cfg rxAsn ies s
    rw [htaken.timing, htaken.timingUs]
    exact hgood.ticks

/-! ## Runs -/

/-- A reset takes the default timing. -/
theorem tschReset_good (hgood : Good cfg s) : Good cfg (s.tschReset cfg) := by
  have hlt := tsTimeslotLength_lt cfg.ie
  refine ⟨⟨hgood.hoppingSequence, ?_, fun sf _ => sf.size_ne⟩, ?_, ?_⟩
  · simp only [tschReset, if_pos hlt]
    exact cfg.timeslotLength_ne
  · simp only [tschReset, if_pos hlt]
  · intro hsla _
    simp only [tschReset, if_pos hsla]
    exact cfg.timeslotLength_ne

/-- Every event that meets the condition keeps the invariant. -/
theorem step_good {e : NodeEvent} (hkeeps : EventKeeps cfg s e) (hgood : Good cfg s)
    (h : s.step cfg e = some t) : Good cfg t := by
  cases e with
  | associate e =>
    obtain ⟨⟨accepted, t'⟩, hassociate, rfl⟩ := Option.map_eq_some_iff.mp h
    exact tschAssociate_good hgood hkeeps hassociate
  | ebInput e rxAsn => exact (ebInput_good_iff hgood h).mpr hkeeps
  | slot n => exact slotOperation_good hgood h
  | disassociate =>
    obtain rfl := Option.some.inj h
    exact hgood.congr rfl rfl rfl rfl nofun
  | reset =>
    obtain rfl := Option.some.inj h
    exact tschReset_good hgood
  | updateTimeSource addr =>
    obtain rfl := Option.some.inj h
    exact hgood.congr rfl rfl rfl rfl id
  | addSlotframe handle size =>
    obtain rfl := Option.some.inj h
    obtain ⟨sfs, hsfs⟩ := addSlotframe_eq cfg s handle size
    rw [hsfs]
    exact hgood.congr rfl rfl rfl rfl id
  | removeAllSlotframes =>
    obtain rfl := Option.some.inj h
    exact hgood.congr rfl rfl rfl rfl id

/-- Every run whose events meet the condition keeps the invariant. -/
theorem run_good {es : List NodeEvent} (hgood : Good cfg s)
    (halong : Along (step cfg) (EventKeeps cfg) s es) (hrun : run (step cfg) s es = some t) :
    Good cfg t :=
  run_induction (Good cfg) (fun _ _ _ hkeeps hs hstep => step_good hkeeps hs hstep) hgood halong hrun

/-- **What a node divides by stays positive exactly after the beacons that meet the condition**:
after association with a beacon, after a later beacon, and in every run whose beacons all do. -/
theorem divisors_positive_iff (cfg : EbConfig w) :
    (∀ (s : TschNode w) e t, s.tschAssociate cfg e = some (true, t) →
      (StaysPositive cfg t ↔ AssociateKeeps cfg e) ∧ (AssociateKeeps cfg e → Good cfg t)) ∧
    (∀ (s : TschNode w) e rxAsn t, Good cfg s → s.ebInput cfg e rxAsn = some t →
      (StaysPositive cfg t ↔ EbInputKeeps cfg e rxAsn s)) ∧
    ∀ (s : TschNode w) es t, Good cfg s → Along (step cfg) (EventKeeps cfg) s es →
      run (step cfg) s es = some t → t.DivisorsPositive := by
  refine ⟨?_, ?_, ?_⟩
  · intro s e t h
    rw [staysPositive_iff_good (tschAssociate_ticks h)]
    exact ⟨tschAssociate_good_iff h, (tschAssociate_good_iff h).mpr⟩
  · intro s e rxAsn t hgood h
    rw [staysPositive_iff_good (ebInput_ticks hgood h)]
    exact ebInput_good_iff hgood h
  · intro s es t hgood halong hrun
    exact (run_good hgood halong hrun).toDivisorsPositive

/-- A build without SLA for a clock of one tick a microsecond, with four channels and a timeslot
length of ten milliseconds. -/
def plainConfig : EbConfig 64 where
  framer := ⟨false, false, false, false⟩
  ie := ⟨false, false, false, false, 4⟩
  llsec802154Enabled := false
  tschJoinSecuredOnly := false
  tschJoinMyPanidOnly := false
  ieee802154Panid := 0xabcd
  tschInitScheduleFromEb := true
  tschScheduleWith6tischMinimal := true
  tschScheduleDefaultLength := 7
  tschScheduleMaxSlotframes := 4
  tschMaxJoinPriority := 32
  usToRtimerticks us := us.setWidth 64
  tschDefaultTimingUs _ := 10000
  tschDefaultHoppingSequence := [15, 25, 26, 20]
  hoppingSequence_ne := by decide
  timeslotLength_ne := by decide

/-- A node after boot. -/
def bootNode : TschNode 64 where
  tschIsAssociated := false
  tschIsPanSecured := 0
  panId := 0xffff
  tschCurrentAsn := ⟨0, 0⟩
  tschJoinPriority := 0xff
  timeSource := none
  tschTimingUs _ := 10000
  tschTiming _ := 10000
  tschHoppingSequence _ := 0
  tschHoppingSequenceLength := ⟨0, 0⟩
  slaTriggeringAsn := ⟨0, 0⟩
  slaNextTimeslotLength := 0
  slotframeList := []

/-- A beacon with the given bytes behind its header, and behind the element that synchronizes. -/
def beaconOf (mlmeLen : Byte) (rest : List Byte) : ReceivedEb where
  mem := fun i => ([0x00, 0xe2, 0x01, 0xcd, 0xab, 8, 7, 6, 5, 4, 3, 2, 1, 0x00, 0x3f, mlmeLen, 0x88,
    0x06, 0x1a, 0x10, 0x00, 0x00, 0x00, 0x00, 0x00] ++ rest).getD i 0
  len := 25 + rest.length
  rounds := 8
  frame := ⟨0, 0, ⟨0, 0, 0, 0, 0, 0, 0, 0, 0, 0⟩, 0, 0, 0, 0, 0, ⟨⟨0, 0, 0, 0⟩, 0, 0, 0⟩, 0, 0⟩
  authentic := true
  room := true

/-- A beacon with a hopping sequence of two channels. -/
def twoChannelsBeacon : ReceivedEb :=
  beaconOf 0x18 [0x0e, 0xc8, 1, 0, 0, 0, 0, 0, 0, 0, 2, 0, 15, 20, 0, 0]

/-- A beacon whose hopping sequence has an identifier only. -/
def emptySequenceBeacon : ReceivedEb := beaconOf 0x0b [0x01, 0xc8, 1]

theorem divisors_positive_two_channels :
    ∃ t, bootNode.tschAssociate plainConfig twoChannelsBeacon = some (true, t) ∧
      StaysPositive plainConfig t := by
  obtain ⟨t, ht⟩ : ∃ t, bootNode.tschAssociate plainConfig twoChannelsBeacon = some (true, t) :=
    ⟨_, rfl⟩
  obtain ⟨frame, ies, hparse, hlen, hid⟩ : ∃ frame ies,
      tschPacketParseEb plainConfig twoChannelsBeacon.rounds twoChannelsBeacon.mem
        twoChannelsBeacon.len twoChannelsBeacon.frame false = some (some (frame, ies)) ∧
      ies.ieHoppingSequenceLen = 2 ∧ ies.ieTschTimeslotId = 0 := ⟨_, _, rfl, rfl, rfl⟩
  refine ⟨t, ht, ((divisors_positive_iff plainConfig).1 _ _ t ht).1.mpr ?_⟩
  intro frame' ies' hparse' _
  rw [hparse] at hparse'
  cases hparse'
  refine ⟨Or.inr (by rw [hlen]; decide), ?_, nofun⟩
  rw [timingOfEb, if_neg nofun, if_pos hid]
  exact plainConfig.timeslotLength_ne

/-- The beacon is accepted, and the length of the hopping sequence is zero. -/
theorem empty_hopping_sequence_accepted :
    ∃ t, bootNode.tschAssociate plainConfig emptySequenceBeacon = some (true, t) ∧
      t.tschHoppingSequenceLength.val = 0 ∧ ¬StaysPositive plainConfig t := by
  obtain ⟨t, ht, hzero⟩ :
      ∃ t, bootNode.tschAssociate plainConfig emptySequenceBeacon = some (true, t) ∧
        t.tschHoppingSequenceLength.val = 0 := ⟨_, rfl, rfl⟩
  refine ⟨t, ht, hzero, ?_⟩
  intro h
  exact (h [] t rfl).hoppingSequence hzero

end TschNode

end Asap.Tsch
