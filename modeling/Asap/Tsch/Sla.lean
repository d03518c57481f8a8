import Asap.Tsch.SlotClock

/-!
# The switch to the next timeslot length

An EB advertises the timeslot length to come and the ASN at which every node changes
to it. A node changes the length when it wakes up with exactly that ASN, so whether
it ever does depends on the ASNs it wakes up at. `Pending` is the invariant behind
the switch: as long as the length has not been changed, the triggering ASN is not
behind. It survives an interval between two wake-ups when the interval does not step
over the triggering ASN, which takes three things: the slot is over before that ASN,
the schedule never answers with a link beyond it, and the deadline of the wake-up at
it is met.

## Main definitions

* `Pending` — the switch has been made or is still to come.
* `StopsAt` — the passes of the re-scheduling loop do not step over an ASN.
* `SlaCondition` — the condition under which an event keeps the switch ahead.
-/

namespace Asap.Tsch

namespace SlotOperation

variable {w : ℕ} {σ ε : Type*} {cfg : SlotConfig w} {sched : Scheduler σ ε}

/-- The switch has been made or is still to come. While a slot is running its ASN is
already behind, so the triggering ASN is then at least one slot further. -/
structure Pending (cfg : SlotConfig w) (running : Bool) (s : SlotOperation w σ) : Prop where
  ticks : s.timeslotLength = cfg.usToRtimerticks s.timeslotLengthUs
  ahead : s.tschCurrentAsn.val + running.toNat ≤ s.slaTriggeringAsn.val ∨
    s.timeslotLengthUs = s.slaNextTimeslotLength

/-- The condition on an advertisement: it does not name an ASN that has passed, or it
announces no change. -/
def AdvertisesAhead (cfg : SlotConfig w) (running : Bool) (s : SlotOperation w σ) :
    ProcessEvent ε → Prop
  | .ebInput trig curr next =>
    s.timeslotLengthUs = curr →
      s.tschCurrentAsn.val + running.toNat ≤ trig.val ∨ s.timeslotLengthUs = next
  | .slaDetermine asn hopsTtl hopsDao next =>
    s.tschCurrentAsn.val + running.toNat ≤
        (slaCalculateTriggeringAsn cfg asn
          (slaNextRefHopDistance s.slaCurrRefHopDistance hopsTtl hopsDao)).val ∨
      s.timeslotLengthUs = next
  | _ => True

/-- The passes wake up at `trig` rather than beyond it: no answer of the schedule lies
beyond `trig`, and a deadline that is missed is one before `trig`. -/
def StopsAt (sched : Scheduler σ ε) (trig : ℕ) : SlotOperation w σ → List (Pass w) → Prop
  | _, [] => True
  | s, p :: ps =>
    s.tschCurrentAsn.val + (s.lookup sched).2.toNat ≤ trig ∧
      (ps = [] ∨ s.tschCurrentAsn.val + (s.lookup sched).2.toNat < trig) ∧
      StopsAt sched trig (s.reschedulePass sched p) ps

/-- The same for the passes of `tsch_slot_operation_start`. -/
def StartStopsAt (sched : Scheduler σ ε) (trig : ℕ) : SlotOperation w σ → List (Pass w) → Prop
  | _, [] => True
  | s, p :: ps =>
    s.tschCurrentAsn.val + (nextTimeslotDiff sched s.tschCurrentAsn s.sched).2.toNat ≤ trig ∧
      StartStopsAt sched trig (s.startPass sched p) ps

section

variable (cfg : SlotConfig w) (sched : Scheduler σ ε) (s : SlotOperation w σ)

/-- The process context during a slot. -/
def processStep (e : ProcessEvent ε) : Option (SlotOperation w σ) :=
  some (s.process cfg sched e)

/-- The condition on a slot: the advertisements accepted while it runs are ahead, and
if the switch is still to come, the slot is over before the triggering ASN and the
passes stop at it. -/
def SlotStopsAt (o : SlotOutcome w ε) (ps : List (Pass w)) : Prop :=
  let t := s.endOfSlot cfg sched o
  ((s.slaTrigger cfg).skips sched = true ∨
      Lib.Along (processStep cfg sched) (AdvertisesAhead cfg true)
        (s.slaTrigger cfg).clearAfterUpaLink o.during) ∧
    (t.timeslotLengthUs = t.slaNextTimeslotLength ∨
      (s.tschCurrentAsn.val + (s.extraTimeslots cfg o).toNat < t.slaTriggeringAsn.val ∧
        StopsAt sched t.slaTriggeringAsn.val t ps))

/-- The condition on an event of a run. -/
def SlaCondition :
    SlotEvent w ε → Prop
  | .slot o ps => SlotStopsAt cfg sched s o ps
  | .associate a ps =>
    a.timeslotLengthUs = a.slaNextTimeslotLength ∨
      StartStopsAt sched a.slaTriggeringAsn.val (s.associate cfg sched a) ps
  | .process e => AdvertisesAhead cfg false s e

end

/-! ## The steps -/

/-- **The head of the slot operation makes a due switch.** -/
theorem slaTrigger_pending {s : SlotOperation w σ} (h : Pending cfg false s) :
    Pending cfg true (s.slaTrigger cfg) := by
  unfold slaTrigger
  by_cases hasn : s.tschCurrentAsn.ls4b = s.slaTriggeringAsn.ls4b ∧
      s.tschCurrentAsn.ms1b = s.slaTriggeringAsn.ms1b
  · rw [if_pos hasn]
    by_cases hlen : s.timeslotLengthUs = s.slaNextTimeslotLength
    · rw [if_neg (not_not_intro hlen)]
      exact ⟨h.ticks, Or.inr hlen⟩
    · rw [if_pos hlen]
      exact ⟨rfl, Or.inr rfl⟩
  · rw [if_neg hasn]
    have hne : s.tschCurrentAsn.val ≠ s.slaTriggeringAsn.val := by
      intro heq
      rw [TschAsn.ext_val heq] at hasn
      exact hasn ⟨rfl, rfl⟩
    have hahead : s.tschCurrentAsn.val + 1 ≤ s.slaTriggeringAsn.val ∨
        s.timeslotLengthUs = s.slaNextTimeslotLength := by
      rcases h.ahead with hle | hlen
      · simp only [Bool.toNat_false] at hle
        exact Or.inl (by omega)
      · exact Or.inr hlen
    split
    · exact ⟨h.ticks, hahead⟩
    · exact ⟨h.ticks, hahead⟩

theorem process_pending {running : Bool} {s : SlotOperation w σ} {e : ProcessEvent ε}
    (he : AdvertisesAhead cfg running s e) (h : Pending cfg running s) :
    Pending cfg running (s.process cfg sched e) := by
  cases e with
  | ebInput trig curr next =>
      by_cases hcurr : s.timeslotLengthUs = curr
      · rw [process, ebInput, if_neg (not_not_intro hcurr)]
        exact ⟨h.ticks, he hcurr⟩
      · rw [process, ebInput, if_pos hcurr]
        exact ⟨h.ticks, h.ahead⟩
  | slaDetermine asn hopsTtl hopsDao next => exact ⟨h.ticks, he⟩
  | lock requested => exact ⟨h.ticks, h.ahead⟩
  | schedule e => exact ⟨h.ticks, h.ahead⟩

theorem clearAfterUpaLink_pending {running : Bool} {s : SlotOperation w σ}
    (h : Pending cfg running s) : Pending cfg running s.clearAfterUpaLink := by
  unfold clearAfterUpaLink
  split <;> exact ⟨h.ticks, h.ahead⟩

theorem process_tschIsAssociated {s : SlotOperation w σ} {e : ProcessEvent ε}
    (h : (s.process cfg sched e).tschIsAssociated = true) : s.tschIsAssociated = true := by
  cases e with
  | ebInput trig curr next =>
      by_cases hcurr : s.timeslotLengthUs = curr
      · simpa [process, ebInput, hcurr] using h
      · simp [process, ebInput, hcurr] at h
  | slaDetermine asn hopsTtl hopsDao next => exact h
  | lock requested => exact h
  | schedule e => exact h

/-- After the slot: the length, the triggering ASN and the next length are those the
process context has left, and the switch is still ahead of the slot's ASN. -/
theorem endOfSlot_pending {s : SlotOperation w σ} {o : SlotOutcome w ε}
    (hduring : (s.slaTrigger cfg).skips sched = true ∨
      Lib.Along (processStep cfg sched) (AdvertisesAhead cfg true)
        (s.slaTrigger cfg).clearAfterUpaLink o.during)
    (h : Pending cfg false s) :
    let t := s.endOfSlot cfg sched o
    t.timeslotLength = cfg.usToRtimerticks t.timeslotLengthUs ∧
      (s.tschCurrentAsn.val + 1 ≤ t.slaTriggeringAsn.val ∨
        t.timeslotLengthUs = t.slaNextTimeslotLength) := by
  have hhead := clearAfterUpaLink_pending (slaTrigger_pending h)
  have hasn : (s.slaTrigger cfg).clearAfterUpaLink.tschCurrentAsn = s.tschCurrentAsn := by
    rw [clearAfterUpaLink_asn, slaTrigger_asn]
  unfold endOfSlot asapCountPassedTimeslots executeSlot
  by_cases hskip : (s.slaTrigger cfg).skips sched = true
  · rw [clearAfterUpaLink_skips, if_pos hskip]
    have hahead := hhead.ahead
    rw [hasn] at hahead
    exact ⟨hhead.ticks, hahead⟩
  · rw [clearAfterUpaLink_skips, if_neg hskip]
    have halong := hduring.resolve_left hskip
    have hlast := Lib.run_induction (Pending cfg true)
      (by
        intro u e v he hu hv
        cases hv
        exact process_pending he hu)
      hhead halong (Lib.run_some (process cfg sched) _ o.during)
    have hahead := hlast.ahead
    rw [(foldl_process_sameClock cfg sched o.during _).asn, hasn] at hahead
    exact ⟨hlast.ticks, hahead⟩

/-- The re-scheduling loop only moves the ASN: the SLA variables are untouched. -/
theorem reschedulePass_sla (sched : Scheduler σ ε) (p : Pass w) (s : SlotOperation w σ) :
    (s.reschedulePass sched p).timeslotLengthUs = s.timeslotLengthUs ∧
      (s.reschedulePass sched p).timeslotLength = s.timeslotLength ∧
      (s.reschedulePass sched p).slaTriggeringAsn = s.slaTriggeringAsn ∧
      (s.reschedulePass sched p).slaNextTimeslotLength = s.slaNextTimeslotLength := by
  unfold reschedulePass clearAfterUpaLink
  split <;> exact ⟨rfl, rfl, rfl, rfl⟩

/-- **The loop keeps the switch ahead** when its passes stop at the triggering ASN. -/
theorem reschedule_pending {s s' : SlotOperation w σ} {ps : List (Pass w)}
    (hticks : s.timeslotLength = cfg.usToRtimerticks s.timeslotLengthUs)
    (hstop : s.timeslotLengthUs = s.slaNextTimeslotLength ∨
      StopsAt sched s.slaTriggeringAsn.val s ps)
    (h : s.reschedule cfg sched ps = some s') : Pending cfg false s' := by
  induction ps generalizing s with
  | nil => cases h
  | cons p ps ih =>
      obtain ⟨hus, hlen, htrig, hnext⟩ := reschedulePass_sla sched p s
      have hpass : (s.reschedulePass sched p).tschCurrentAsn.val =
          (s.tschCurrentAsn.val + (s.lookup sched).2.toNat) % 2 ^ 40 := by
        rw [reschedulePass_asn, val_inc_setWidth]
      have hticks' : (s.reschedulePass sched p).timeslotLength =
          cfg.usToRtimerticks (s.reschedulePass sched p).timeslotLengthUs := by
        rw [hlen, hus, hticks]
      simp only [reschedule] at h
      split at h
      · split at h
        · cases h
          refine ⟨hticks', ?_⟩
          rw [hus, hnext, htrig]
          rcases hstop with hsame | ⟨hle, -⟩
          · exact Or.inr hsame
          · refine Or.inl ?_
            have hlt := s.slaTriggeringAsn.val_lt
            rw [hpass, Nat.mod_eq_of_lt (by omega)]
            simpa using hle
        · cases h
      · refine ih hticks' ?_ h
        rw [hus, hnext, htrig]
        rcases hstop with hsame | ⟨-, -, hrest⟩
        · exact Or.inl hsame
        · exact Or.inr hrest

theorem slotOperationStart_pending {s s' : SlotOperation w σ} {ps : List (Pass w)}
    (hticks : s.timeslotLength = cfg.usToRtimerticks s.timeslotLengthUs)
    (hstop : s.timeslotLengthUs = s.slaNextTimeslotLength ∨
      StartStopsAt sched s.slaTriggeringAsn.val s ps)
    (h : s.slotOperationStart cfg sched ps = some s') : Pending cfg false s' := by
  induction ps generalizing s with
  | nil => cases h
  | cons p ps ih =>
      have hpass : (s.startPass sched p).tschCurrentAsn.val = (s.tschCurrentAsn.val +
          (nextTimeslotDiff sched s.tschCurrentAsn s.sched).2.toNat) % 2 ^ 40 :=
        val_inc_setWidth _ _
      have htrig : (s.startPass sched p).slaTriggeringAsn = s.slaTriggeringAsn := rfl
      simp only [slotOperationStart] at h
      split at h
      · split at h
        · cases h
          refine ⟨hticks, ?_⟩
          rcases hstop with hsame | ⟨hle, -⟩
          · exact Or.inr hsame
          · refine Or.inl ?_
            have hlt := s.slaTriggeringAsn.val_lt
            rw [htrig, hpass, Nat.mod_eq_of_lt (by omega)]
            simpa using hle
        · cases h
      · refine @ih (s.startPass sched p) hticks ?_ h
        rcases hstop with hsame | ⟨-, hrest⟩
        · exact Or.inl hsame
        · exact Or.inr hrest

/-- A step that meets the condition keeps the switch ahead. -/
theorem step_pending {s t : SlotOperation w σ} {e : SlotEvent w ε}
    (he : SlaCondition cfg sched s e)
    (h : s.tschIsAssociated = true → Pending cfg false s)
    (hstep : step cfg sched s e = some t) : t.tschIsAssociated = true → Pending cfg false t := by
  intro hassoc
  cases e with
  | slot o ps =>
      simp only [step, slotOperation] at hstep
      split at hstep
      · rename_i hs
        split at hstep
        · cases hstep
        · obtain ⟨hduring, hstop⟩ := he
          obtain ⟨hticks, -⟩ := endOfSlot_pending hduring (h hs)
          refine reschedule_pending hticks ?_ hstep
          exact hstop.imp id And.right
      · cases hstep
  | associate a ps =>
    exact @slotOperationStart_pending _ _ _ _ _ (s.associate cfg sched a) t ps rfl he hstep
  | process e =>
      cases hstep
      exact process_pending he (h (process_tschIsAssociated hassoc))

/-! ## Runs -/

/-- **The switch is made at the triggering ASN.** In every run from before the first
association whose events meet the condition, an associated node that wakes up with an
ASN that has reached the triggering one uses the next timeslot length, and it is at
the triggering ASN that the length changes. -/
theorem timeslotLength_switched {s₀ s : SlotOperation w σ} {es : List (SlotEvent w ε)}
    (hinit : s₀.tschIsAssociated = false)
    (hcond : Lib.Along (step cfg sched) (SlaCondition cfg sched) s₀ es)
    (hrun : Lib.run (step cfg sched) s₀ es = some s) (hassoc : s.tschIsAssociated = true) :
    (s.slaTriggeringAsn.val ≤ s.tschCurrentAsn.val →
      (s.slaTrigger cfg).timeslotLengthUs = s.slaNextTimeslotLength ∧
      (s.slaTrigger cfg).timeslotLength = cfg.usToRtimerticks s.slaNextTimeslotLength) ∧
    ((s.slaTrigger cfg).timeslotLengthUs ≠ s.timeslotLengthUs →
      s.tschCurrentAsn = s.slaTriggeringAsn) := by
  have hinv := Lib.run_induction
    (fun s : SlotOperation w σ => s.tschIsAssociated = true → Pending cfg false s)
    (fun _ _ _ he hs hstep => step_pending he hs hstep)
    (fun h => by rw [hinit] at h; cases h) hcond hrun hassoc
  have hhead := slaTrigger_pending hinv
  have htrig : (s.slaTrigger cfg).slaTriggeringAsn = s.slaTriggeringAsn ∧
      (s.slaTrigger cfg).slaNextTimeslotLength = s.slaNextTimeslotLength := by
    unfold slaTrigger slaApplyNextTimeslotLength
    split_ifs <;> exact ⟨rfl, rfl⟩
  constructor
  · intro hreached
    have hlen : (s.slaTrigger cfg).timeslotLengthUs = s.slaNextTimeslotLength := by
      rcases hhead.ahead with hlt | hlen
      · rw [slaTrigger_asn, htrig.1, Bool.toNat_true] at hlt
        omega
      · rw [hlen, htrig.2]
    exact ⟨hlen, by rw [hhead.ticks, hlen]⟩
  · intro hchange
    by_contra hne
    refine hchange ?_
    have hfields : ¬ (s.tschCurrentAsn.ls4b = s.slaTriggeringAsn.ls4b ∧
        s.tschCurrentAsn.ms1b = s.slaTriggeringAsn.ms1b) := by
      rintro ⟨hl, hm⟩
      refine hne ?_
      cases hc : s.tschCurrentAsn
      cases ht : s.slaTriggeringAsn
      simp_all
    unfold slaTrigger
    rw [if_neg hfields]
    split <;> rfl

instance decidableStopsAt (sched : Scheduler σ ε) (trig : ℕ) :
    ∀ (s : SlotOperation w σ) (ps : List (Pass w)), Decidable (StopsAt sched trig s ps)
  | _, [] => isTrue trivial
  | s, p :: ps =>
    have := decidableStopsAt sched trig (s.reschedulePass sched p) ps
    by unfold StopsAt; infer_instance

instance decidableStartStopsAt (sched : Scheduler σ ε) (trig : ℕ) :
    ∀ (s : SlotOperation w σ) (ps : List (Pass w)), Decidable (StartStopsAt sched trig s ps)
  | _, [] => isTrue trivial
  | s, p :: ps =>
    have := decidableStartStopsAt sched trig (s.startPass sched p) ps
    by unfold StartStopsAt; infer_instance

instance (cfg : SlotConfig w) (running : Bool) (s : SlotOperation w σ) :
    (e : ProcessEvent ε) → Decidable (AdvertisesAhead cfg running s e)
  | .ebInput .. => by unfold AdvertisesAhead; infer_instance
  | .slaDetermine .. => by unfold AdvertisesAhead; infer_instance
  | .lock .. => isTrue trivial
  | .schedule .. => isTrue trivial

instance (cfg : SlotConfig w) (sched : Scheduler σ ε) (s : SlotOperation w σ) :
    (e : SlotEvent w ε) → Decidable (SlaCondition cfg sched s e)
  | .slot o ps => by unfold SlaCondition SlotStopsAt; infer_instance
  | .associate .. => by unfold SlaCondition; infer_instance
  | .process e => by unfold SlaCondition; infer_instance

/-- A node before its first association. -/
def bootNode : SlotOperation 64 Unit :=
  { minimalNode 0 0 with tschIsAssociated := false }

/-- Association two slots before the triggering ASN; the guard time skips the slot in
between, and the node changes the length at the triggering ASN. -/
theorem timeslotLength_switched_minimal :
    let es : List (SlotEvent 64 Unit) :=
      [.associate ⟨1000000, .ofNat 1000, 10000, .ofNat 1002, 8000⟩ [⟨0, 1000100, true⟩],
        .slot ⟨1010100, 0, false, false, []⟩ [⟨0, 1010200, true⟩]]
    ∃ s, Lib.run (step (coojaConfig false) minimalSchedule) bootNode es = some s ∧
      s.tschCurrentAsn = .ofNat 1002 ∧
      (s.slaTrigger (coojaConfig false)).timeslotLengthUs = 8000 := by
  intro es
  have hrun : (Lib.run (step (coojaConfig false) minimalSchedule) bootNode es).map
      (fun s => (s.tschIsAssociated, s.tschCurrentAsn, s.slaTriggeringAsn,
        s.slaNextTimeslotLength)) = some (true, .ofNat 1002, .ofNat 1002, 8000) := by decide
  obtain ⟨s, hs, heq⟩ := Option.map_eq_some_iff.mp hrun
  simp only [Prod.mk.injEq] at heq
  obtain ⟨hassoc, hasn, htrig, hnext⟩ := heq
  have hswitch := (timeslotLength_switched (by decide) (by decide) hs hassoc).1
    (by rw [htrig, hasn])
  exact ⟨s, hs, hasn, by rw [hswitch.1, hnext]⟩

/-- An aggregated exchange of eight timeslots that starts seven slots before the
triggering ASN, one slot before the guard time: the node wakes up just after the
triggering ASN and keeps the old length. -/
theorem aggregated_steps_over_trigger :
    let es : List (SlotEvent 64 Unit) :=
      [.associate ⟨1000000, .ofNat 1000, 10000, .ofNat 1008, 8000⟩ [⟨0, 1000100, true⟩],
        .slot ⟨1085000, 0, true, true, []⟩ [⟨0, 1085100, true⟩]]
    ∃ s, Lib.run (step (coojaConfig false) minimalSchedule) bootNode es = some s ∧
      s.tschIsAssociated = true ∧ s.slaTriggeringAsn.val ≤ s.tschCurrentAsn.val ∧
      (s.slaTrigger (coojaConfig false)).timeslotLengthUs ≠ s.slaNextTimeslotLength := by
  intro es
  have hrun : (Lib.run (step (coojaConfig false) minimalSchedule) bootNode es).map
      (fun s => decide (s.tschIsAssociated = true ∧
        s.slaTriggeringAsn.val ≤ s.tschCurrentAsn.val ∧
        (s.slaTrigger (coojaConfig false)).timeslotLengthUs ≠ s.slaNextTimeslotLength)) =
      some true := by decide
  obtain ⟨s, hs, heq⟩ := Option.map_eq_some_iff.mp hrun
  exact ⟨s, hs, of_decide_eq_true heq⟩

end SlotOperation

end Asap.Tsch
