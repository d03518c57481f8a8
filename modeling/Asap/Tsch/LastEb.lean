import Asap.Tsch.Divisors

/-!
# The neighbor to fall back on

A node keeps the sender of a beacon, and the join priority of it, to synchronize on when its time
source does not answer. It is meant to be the sender of the last beacon of another neighbor than
the time source. The code compares the time source with the address that it has, and not with the
sender of the beacon.

## Main definitions

* `LastEb.ebInput` — a beacon is received.
* `LastEb.resynchronize` — the time source has not answered.
* `Recorded` — the record is the last beacon of another neighbor.
-/

namespace Asap.Tsch

open Asap.Lib Asap.Framer

/-- `linkaddr_null` -/
def linkaddrNull : FrameAddr := fun _ => 0

/-- A node with the record, and the sender and the join priority of the last beacon that has not
come from what was the time source then. -/
structure LastEb (w : ℕ) where
  node : TschNode w
  lastEbNbrAddr : FrameAddr
  lastEbNbrJp : Byte
  heard : Option (FrameAddr × Byte)

/-- What can happen: what happens to a node, and a keep-alive packet that is not acknowledged, with
its receiver, whether the node has been synchronized in this session, and whether there is room
for the record as a neighbor. -/
inductive LastEbEvent where
  | node (e : NodeEvent)
  | resynchronize (originalTimeSourceAddr : FrameAddr) (synced room : Bool)

variable {w : ℕ}

namespace LastEb

/-- The record of `eb_input`, for the sender of a beacon and its join priority. -/
def updateLastEbNbr (s : LastEb w) (srcAddr : FrameAddr) (jp : Byte) : LastEb w :=
  if s.node.timeSource = none ∨ s.node.timeSource ≠ some s.lastEbNbrAddr then
    { s with
      lastEbNbrAddr := srcAddr
      lastEbNbrJp := jp }
  else s

/-- A beacon has come from another neighbor than the time source. -/
def hear (s : LastEb w) (srcAddr : FrameAddr) (jp : Byte) : LastEb w :=
  if s.node.timeSource = some srcAddr then s else { s with heard := some (srcAddr, jp) }

/-- `eb_input`: the record, then the rest. -/
def ebInput (cfg : EbConfig w) (e : ReceivedEb) (rxAsn : TschAsn) (s : LastEb w) :
    Option (LastEb w) :=
  match tschPacketParseEb cfg e.rounds e.mem e.len e.frame true with
  | none => none
  | some none => some s
  | some (some (frame, ies)) =>
    (s.node.ebInput cfg e rxAsn).map fun node =>
      { (s.updateLastEbNbr frame.srcAddr ies.ieJoinPriority).hear frame.srcAddr
          ies.ieJoinPriority with
        node := node }

/-- `tsch_reset` -/
def tschReset (cfg : EbConfig w) (s : LastEb w) : LastEb w where
  node := s.node.tschReset cfg
  lastEbNbrAddr := linkaddrNull
  lastEbNbrJp := s.lastEbNbrJp
  heard := none

/-- `resynchronize`, when the keep-alive packet went to the given address. -/
def resynchronize (s : LastEb w) (originalTimeSourceAddr : FrameAddr) (synced room : Bool) :
    LastEb w :=
  if s.node.timeSource ≠ none ∧ s.node.timeSource ≠ some originalTimeSourceAddr then s
  else if s.lastEbNbrAddr = linkaddrNull then
    if synced then s else { s with node := s.node.tschDisassociate }
  else
    { s with
      node := { s.node with
        timeSource := if room then some s.lastEbNbrAddr else none
        tschJoinPriority := s.lastEbNbrJp + 1 } }

/-- One event; `none` when it cannot happen. -/
def step (cfg : EbConfig w) (s : LastEb w) : LastEbEvent → Option (LastEb w)
  | .node (.ebInput e rxAsn) => s.ebInput cfg e rxAsn
  | .node .reset => some (s.tschReset cfg)
  | .node e => (s.node.step cfg e).map fun node => { s with node := node }
  | .resynchronize originalTimeSourceAddr synced room =>
    some (s.resynchronize originalTimeSourceAddr synced room)

end LastEb

/-- **The record is the last beacon of another neighbor**; without one there is no record. -/
def Recorded (s : LastEb w) : Prop :=
  match s.heard with
  | none => s.lastEbNbrAddr = linkaddrNull
  | some (srcAddr, jp) => s.lastEbNbrAddr = srcAddr ∧ s.lastEbNbrJp = jp

/-- The fallback picks the last neighbor of which a beacon has been heard. -/
def FallsBackOnHeard (s : LastEb w) : Prop :=
  ∀ srcAddr jp originalTimeSourceAddr synced,
    s.heard = some (srcAddr, jp) → srcAddr ≠ linkaddrNull →
    (s.node.timeSource = none ∨ s.node.timeSource = some originalTimeSourceAddr) →
    (s.resynchronize originalTimeSourceAddr synced true).node.timeSource = some srcAddr ∧
      (s.resynchronize originalTimeSourceAddr synced true).node.tschJoinPriority = jp + 1

/-- A beacon is recorded as it should be: without a time source, or when it comes from the time
source exactly if that is the record. -/
def RecordsEb (cfg : EbConfig w) (s : LastEb w) : LastEbEvent → Prop
  | .node (.ebInput e _) =>
    ∀ frame ies, tschPacketParseEb cfg e.rounds e.mem e.len e.frame true = some (some (frame, ies)) →
      s.node.timeSource = none ∨
        (s.node.timeSource = some frame.srcAddr ↔ s.node.timeSource = some s.lastEbNbrAddr)
  | _ => True

variable {cfg : EbConfig w} {s t : LastEb w} {srcAddr : FrameAddr} {jp : Byte}

/-! ## One event -/

/-- Nothing but the node changes. -/
theorem recorded_setNode (node : TschNode w) : Recorded { s with node := node } ↔ Recorded s :=
  Iff.rfl

/-- The record after a beacon. -/
theorem recorded_hear (hs : Recorded s) :
    Recorded ((s.updateLastEbNbr srcAddr jp).hear srcAddr jp) ↔
      s.node.timeSource = none ∨
        (s.node.timeSource = some srcAddr ↔ s.node.timeSource = some s.lastEbNbrAddr) := by
  by_cases hkept : s.node.timeSource = some s.lastEbNbrAddr
  · have hupdate : s.updateLastEbNbr srcAddr jp = s := by
      simp [LastEb.updateLastEbNbr, hkept]
    rw [hupdate, hkept]
    by_cases hsrc : s.lastEbNbrAddr = srcAddr
    · simp [LastEb.hear, hkept, hsrc, hs]
    · simp [LastEb.hear, hkept, hsrc, Recorded]
  · have hupdate : s.updateLastEbNbr srcAddr jp =
        { s with lastEbNbrAddr := srcAddr, lastEbNbrJp := jp } := by
      simp [LastEb.updateLastEbNbr, hkept]
    rw [hupdate]
    by_cases hsrc : s.node.timeSource = some srcAddr
    · -- the time source has been recorded, which neither the beacon before nor the null address is
      have hne : s.lastEbNbrAddr ≠ srcAddr := fun heq => hkept (heq ▸ hsrc)
      simp only [LastEb.hear, hsrc, if_true, Recorded] at hs ⊢
      cases hheard : s.heard with
      | none =>
        rw [hheard] at hs
        simp [hs.symm, hne.symm]
      | some eb =>
        rw [hheard] at hs
        simpa [hs.1 ▸ hne.symm] using hs.1 ▸ hne.symm
    · simp [LastEb.hear, hsrc, hkept, Recorded]

/-- **One event** keeps the record as it should be exactly if a beacon is recorded so. -/
theorem recorded_step {e : LastEbEvent} (hs : Recorded s) (hstep : s.step cfg e = some t) :
    Recorded t ↔ RecordsEb cfg s e := by
  cases e with
  | resynchronize originalTimeSourceAddr synced room =>
    cases hstep
    refine iff_of_true ?_ trivial
    unfold LastEb.resynchronize
    split_ifs <;> exact hs
  | node e =>
    cases e with
    | ebInput e rxAsn =>
      have hstep : s.ebInput cfg e rxAsn = some t := hstep
      rw [LastEb.ebInput] at hstep
      split at hstep
      · cases hstep
      · rename_i hparse
        cases hstep
        exact iff_of_true hs fun frame ies hsome => by rw [hparse] at hsome; cases hsome
      · rename_i frame ies hparse
        have ⟨node, _, ht⟩ := Option.map_eq_some_iff.mp hstep
        rw [← ht, recorded_setNode, recorded_hear hs]
        refine ⟨fun h frame ies hsome => ?_, fun h => h frame ies hparse⟩
        rw [hparse] at hsome
        cases hsome
        exact h
    | reset =>
      cases hstep
      exact iff_of_true rfl trivial
    | disassociate | updateTimeSource | addSlotframe | removeAllSlotframes =>
      cases hstep
      exact iff_of_true hs trivial
    | associate | slot =>
      have ⟨node, _, ht⟩ := Option.map_eq_some_iff.mp hstep
      exact iff_of_true (ht ▸ hs) trivial

theorem Recorded.fallsBackOnHeard (hs : Recorded s) : FallsBackOnHeard s := by
  intro srcAddr jp originalTimeSourceAddr synced hheard hsrc hasked
  rw [Recorded, hheard] at hs
  have ⟨haddr, hjp⟩ := hs
  have hsame : ¬ (s.node.timeSource ≠ none ∧ s.node.timeSource ≠ some originalTimeSourceAddr) :=
    fun h => hasked.elim h.1 h.2
  rw [LastEb.resynchronize, if_neg hsame, if_neg (haddr ▸ hsrc)]
  simp [haddr, hjp]

/-! ## Every run -/

/-- A beacon without information elements. -/
def plainBeacon (src : Byte) : ReceivedEb where
  mem := fun i => [0x00, 0xe0, 0x01, 0xcd, 0xab, 0, 0, 0, 0, 0, 0, 0, src].getD i 0
  len := 13
  rounds := 1
  frame := ⟨0, 0, ⟨0, 0, 0, 0, 0, 0, 0, 0, 0, 0⟩, 0, 0, 0, 0, 0, ⟨⟨0, 0, 0, 0⟩, 0, 0, 0⟩, 0, 0⟩
  authentic := true
  room := true

/-- The address that a plain beacon comes from. -/
def plainAddr (src : Byte) : FrameAddr := fun i => if i = 0 then src else 0

/-- A node after boot with a time source. -/
def nodeWithTimeSource : LastEb 64 where
  node := { TschNode.bootNode with timeSource := some (plainAddr 1) }
  lastEbNbrAddr := linkaddrNull
  lastEbNbrJp := 0
  heard := none

end Asap.Tsch
