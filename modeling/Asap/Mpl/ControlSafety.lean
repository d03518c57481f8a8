import Asap.Mpl.Control

/-!
# What is read of a control message

The pointer to a record is compared with the end of the payload, but neither the header of a record
nor its vector is. A message is processed safely where its records fit.

## Main definitions

* `ControlSafe` — a message is processed, and what is read is inside.
* `ControlFits` — the records of a message fit.
-/

namespace Asap.Mpl

open Option

open Lib Ipv6

variable {cfg : MplConfig} {msg : ControlMsg} {seeds : List MplSeed} {seed : MplSeed}
  {fuel fuel' searchFuel searchFuel' pos offset : ℕ} {seedId id : SeedId} {result : IcmpIn}

/-- What is read is inside the payload, and a bit inside the vector that has been announced. -/
def Access.Inside (len : ℕ) : Access → Prop
  | .bytes pos n => pos + n ≤ len
  | .bit vector announced index => index < 8 * announced ∧ vector + index / 8 < len

/-- A message is processed, and what is read is inside. -/
def ControlSafe (cfg : MplConfig) (msg : ControlMsg) (st : MplNode) : Prop :=
  ∃ searchFuel result, icmpIn cfg msg st searchFuel = some result ∧
    match result with
    | .discarded => True
    | .processed _ found => ∀ access ∈ found.accesses, access.Inside msg.len

/-! ## Messages that fit -/

/-- The header of a record is inside, with an identifier that begins at an offset. -/
def HeaderFits (msg : ControlMsg) (pos offset : ℕ) : Prop :=
  pos + 2 ≤ msg.len ∧ pos + offset + seedIdLen (seedInfoGetS msg pos) ≤ msg.len

section

variable (cfg : MplConfig) (msg : ControlMsg)

/-- The headers fit that are met in a search for a seed. -/
def FindFits (id : SeedId) : ℕ → ℕ → SeedId → Prop
  | 0, _, _ => True
  | fuel + 1, pos, seedId =>
    pos < msg.len → HeaderFits msg pos (firstIdOffset cfg msg pos) ∧
      (recordId msg seedId pos (firstIdOffset cfg msg pos) ≠ id →
        FindFits id fuel (nextRecord cfg msg pos)
          (recordId msg seedId pos (firstIdOffset cfg msg pos)))

/-- The headers fit that are met in the search for the seeds, one after the other. -/
def FirstFits : List MplSeed → ℕ → SeedId → Prop
  | [], _, _ => True
  | seed :: seeds, pos, seedId =>
    FindFits cfg msg seed.id msg.len pos seedId ∧
      FirstFits seeds (findSeed cfg msg seed.id msg.len pos seedId).pos
        (findSeed cfg msg seed.id msg.len pos seedId).seedId

/-- The bits of a record that are inside its vector and inside the payload. -/
def bitLimit (pos : ℕ) : ℕ :=
  min (8 * seedInfoGetLen msg pos) (8 * (msg.len - vectorOf cfg msg pos))

/-- The records from one on fit: their headers, and the vectors of the seeds that are known. -/
def SecondFits (seeds : List MplSeed) : ℕ → ℕ → SeedId → Prop
  | 0, _, _ => True
  | fuel + 1, pos, seedId =>
    pos < msg.len → HeaderFits msg pos 2 ∧
      (∀ seed, (seeds.find? fun seed => seed.id = recordId msg seedId pos 2) = some seed →
        VectorFits (msg.payload pos) (BitVec.ofNat 8 (seedInfoGetLen msg pos * 8))
          (bitVectorGetBit msg (vectorOf cfg msg pos)) (bitLimit cfg msg pos) seed.minSeq) ∧
      SecondFits seeds fuel (nextRecord cfg msg pos) (recordId msg seedId pos 2)

/-- The records of a message fit, if they are looked at. -/
def ControlFits (st : MplNode) : Prop :=
  headersOk cfg msg = true → ∀ domain domains,
    domainOf st msg.destipaddr = some (domain, domains) →
      FirstFits cfg msg (seedsOf st domain) 0 st.seedId ∧
        SecondFits cfg msg (seedsOf st domain) msg.len 0
          (firstPass cfg msg (seedsOf st domain) 0 st.seedId).seedId

end

/-! ## The first pass -/

theorem recordReads_inside :
    (∀ access ∈ recordReads msg pos offset, access.Inside msg.len) ↔ HeaderFits msg pos offset := by
  simp only [recordReads, List.forall_mem_cons, Access.Inside, HeaderFits]
  constructor
  · rintro ⟨hhead, hid, -⟩
    exact ⟨hhead, hid⟩
  · rintro ⟨hhead, hid⟩
    exact ⟨hhead, hid, fun _ hnone => absurd hnone List.not_mem_nil⟩

theorem findSeed_inside :
    (∀ access ∈ (findSeed cfg msg id fuel pos seedId).accesses, access.Inside msg.len) ↔
      FindFits cfg msg id fuel pos seedId := by
  induction fuel generalizing pos seedId with
  | zero => exact ⟨fun _ => trivial, fun _ _ hnone => absurd hnone List.not_mem_nil⟩
  | succ fuel ih =>
    rw [findSeed, FindFits]
    by_cases hpos : pos < msg.len
    · rw [if_pos hpos, forall_prop_of_true hpos]
      dsimp only
      by_cases hid : recordId msg seedId pos (firstIdOffset cfg msg pos) = id
      · rw [if_pos hid, recordReads_inside]
        exact ⟨fun h => ⟨h, fun hne => absurd hid hne⟩, fun h => h.1⟩
      · rw [if_neg hid]
        dsimp only
        rw [List.forall_mem_append, recordReads_inside, ih, forall_prop_of_true hid]
    · rw [if_neg hpos]
      exact ⟨fun _ h => absurd h hpos, fun _ _ hnone => absurd hnone List.not_mem_nil⟩

theorem firstPass_inside :
    (∀ access ∈ (firstPass cfg msg seeds pos seedId).accesses, access.Inside msg.len) ↔
      FirstFits cfg msg seeds pos seedId := by
  induction seeds generalizing pos seedId with
  | nil => exact ⟨fun _ => trivial, fun _ _ hnone => absurd hnone List.not_mem_nil⟩
  | cons seed seeds ih =>
    rw [firstPass, FirstFits]
    dsimp only
    rw [List.forall_mem_append, findSeed_inside, ih]

/-! ## The second pass -/

section Fuel

variable {minSeqno vectorLen : BitVec 8} {bit : ℕ → Bool} {msgs : List MplMsg} {r : BitVec 8}

theorem lastBit_mono {found : BitVec 8 × List ℕ} (hle : fuel ≤ fuel')
    (h : lastBit bit fuel r = some found) : lastBit bit fuel' r = some found := by
  induction fuel generalizing fuel' r found with
  | zero => exact absurd h.symm (some_ne_none _)
  | succ fuel ih =>
    obtain ⟨fuel', rfl⟩ : ∃ n, fuel' = n + 1 := ⟨fuel' - 1, by omega⟩
    rw [lastBit] at h ⊢
    split_ifs at h ⊢ with hbit
    · exact h
    · cases hrest : lastBit bit fuel (r - 1) with
      | none =>
        rw [hrest] at h
        exact absurd h.symm (some_ne_none _)
      | some rest =>
        rw [hrest] at h
        rw [ih (Nat.le_of_succ_le_succ hle) hrest]
        exact h

theorem compareSeed_mono {found : Compared} (hle : fuel ≤ fuel')
    (h : compareSeed minSeqno vectorLen bit fuel msgs = some found) :
    compareSeed minSeqno vectorLen bit fuel' msgs = some found := by
  cases msgs with
  | nil => exact h
  | cons head rest =>
    simp only [compareSeed] at h ⊢
    cases hstart : overlapStart minSeqno vectorLen (head :: rest) with
    | some start =>
      rw [hstart] at h
      exact h
    | none =>
      rw [hstart] at h
      dsimp only [noOverlap] at h ⊢
      cases hlast : lastBit bit fuel vectorLen with
      | none =>
        rw [hlast] at h
        exact absurd h.symm (some_ne_none _)
      | some last =>
        rw [hlast] at h
        rw [lastBit_mono hle hlast]
        exact h

end Fuel

/-- A record of a seed that is not known. -/
theorem secondPass_unknown (hpos : pos < msg.len)
    (hnone : (seeds.find? fun seed => seed.id = recordId msg seedId pos 2) = none) :
    secondPass cfg msg seeds searchFuel (fuel + 1) pos seedId =
      (secondPass cfg msg seeds searchFuel fuel (nextRecord cfg msg pos)
        (recordId msg seedId pos 2)).map fun rest =>
          { rest with lMissing := true, accesses := recordReads msg pos 2 ++ rest.accesses } := by
  rw [secondPass, if_pos hpos]
  dsimp only
  rw [hnone]

/-- A record of a seed that is known. -/
theorem secondPass_known (hpos : pos < msg.len)
    (hseed : (seeds.find? fun seed => seed.id = recordId msg seedId pos 2) = some seed) :
    secondPass cfg msg seeds searchFuel (fuel + 1) pos seedId =
      (compareRecord cfg msg searchFuel pos seed).bind fun found =>
        (secondPass cfg msg seeds searchFuel fuel (nextRecord cfg msg pos)
          (recordId msg seedId pos 2)).map fun rest =>
            { rest with
              lMissing := found.lMissing || rest.lMissing
              rMissing := found.rMissing || rest.rMissing
              restarted := found.restarted ++ rest.restarted
              accesses := recordReads msg pos 2 ++ (.bytes pos 1 ::
                found.bits.map (.bit (vectorOf cfg msg pos) (seedInfoGetLen msg pos))) ++
                  rest.accesses } := by
  rw [secondPass, if_pos hpos]
  dsimp only
  rw [hseed]
  dsimp only
  cases compareRecord cfg msg searchFuel pos seed with
  | none => rfl
  | some found => rfl

theorem secondPass_end (hpos : ¬ pos < msg.len) :
    secondPass cfg msg seeds searchFuel fuel pos seedId = some ⟨false, false, [], seedId, []⟩ := by
  cases fuel with
  | zero => rfl
  | succ fuel => rw [secondPass, if_neg hpos]

theorem secondPass_mono (hle : searchFuel ≤ searchFuel')
    (h : secondPass cfg msg seeds searchFuel fuel pos seedId = some result) :
    secondPass cfg msg seeds searchFuel' fuel pos seedId = some result := by
  induction fuel generalizing pos seedId result with
  | zero => exact h
  | succ fuel ih =>
    by_cases hpos : pos < msg.len
    · cases hfind : seeds.find? fun seed => seed.id = recordId msg seedId pos 2 with
      | none =>
        rw [secondPass_unknown hpos hfind, map_eq_some_iff] at h ⊢
        obtain ⟨rest, hrest, hresult⟩ := h
        exact ⟨rest, ih hrest, hresult⟩
      | some seed =>
        rw [secondPass_known hpos hfind, bind_eq_some_iff] at h ⊢
        obtain ⟨found, hfound, hmap⟩ := h
        rw [map_eq_some_iff] at hmap
        obtain ⟨rest, hrest, hresult⟩ := hmap
        exact ⟨found, compareSeed_mono hle hfound, map_eq_some_iff.mpr
          ⟨rest, ih hrest, hresult⟩⟩
    · rw [secondPass_end hpos] at h ⊢
      exact h

theorem bits_inside {bits : List ℕ} :
    (∀ access ∈ bits.map (Access.bit (vectorOf cfg msg pos) (seedInfoGetLen msg pos)),
      access.Inside msg.len) ↔ ∀ i ∈ bits, i < bitLimit cfg msg pos := by
  rw [List.forall_mem_map]
  refine forall_congr' fun i => imp_congr_right fun _ => ?_
  rw [Access.Inside, bitLimit]
  omega

/-- The accesses of a record of a seed that is known. -/
theorem known_inside {bits : List ℕ} {accesses : List Access} (hpos : pos < msg.len) :
    (∀ access ∈ recordReads msg pos 2 ++ (.bytes pos 1 ::
      bits.map (.bit (vectorOf cfg msg pos) (seedInfoGetLen msg pos))) ++ accesses,
        access.Inside msg.len) ↔
      HeaderFits msg pos 2 ∧ (∀ i ∈ bits, i < bitLimit cfg msg pos) ∧
        ∀ access ∈ accesses, access.Inside msg.len := by
  rw [List.forall_mem_append, List.forall_mem_append, List.forall_mem_cons, recordReads_inside,
    bits_inside, and_assoc]
  refine and_congr_right fun _ => and_congr_left fun _ => ?_
  exact ⟨fun h => h.2, fun h => ⟨hpos, h⟩⟩

/-- **The second pass** ends and reads inside exactly where the records fit. -/
theorem secondPass_inside :
    (∃ searchFuel result, secondPass cfg msg seeds searchFuel fuel pos seedId = some result ∧
      ∀ access ∈ result.accesses, access.Inside msg.len) ↔
        SecondFits cfg msg seeds fuel pos seedId := by
  induction fuel generalizing pos seedId with
  | zero =>
    refine ⟨fun _ => trivial, fun _ => ⟨0, _, rfl, fun _ hnone => ?_⟩⟩
    exact absurd hnone List.not_mem_nil
  | succ fuel ih =>
    rw [SecondFits]
    by_cases hpos : pos < msg.len
    · rw [forall_prop_of_true hpos, ← ih]
      cases hfind : seeds.find? fun seed => seed.id = recordId msg seedId pos 2 with
      | none =>
        constructor
        · rintro ⟨searchFuel, result, hresult, hinside⟩
          rw [secondPass_unknown hpos hfind, map_eq_some_iff] at hresult
          obtain ⟨rest, hrest, rfl⟩ := hresult
          rw [List.forall_mem_append, recordReads_inside] at hinside
          exact ⟨hinside.1, fun seed hseed => absurd hseed.symm (some_ne_none seed),
            searchFuel, rest, hrest, hinside.2⟩
        · rintro ⟨hheader, -, searchFuel, rest, hrest, hinside⟩
          have hresult : secondPass cfg msg seeds searchFuel (fuel + 1) pos seedId = _ :=
            secondPass_unknown hpos hfind
          rw [hrest] at hresult
          exact ⟨searchFuel, _, hresult,
            List.forall_mem_append.mpr ⟨recordReads_inside.mpr hheader, hinside⟩⟩
      | some seed =>
        constructor
        · rintro ⟨searchFuel, result, hresult, hinside⟩
          rw [secondPass_known hpos hfind, bind_eq_some_iff] at hresult
          obtain ⟨found, hfound, hmap⟩ := hresult
          obtain ⟨rest, hrest, rfl⟩ := map_eq_some_iff.mp hmap
          obtain ⟨hheader, hbits, hrestInside⟩ := (known_inside hpos).mp hinside
          refine ⟨hheader, fun seed' hseed' => ?_, searchFuel, rest, hrest, hrestInside⟩
          obtain rfl := Option.some.inj hseed'
          exact compareSeed_fits.mp ⟨searchFuel, found, hfound, hbits⟩
        · rintro ⟨hheader, hvector, searchFuel, rest, hrest, hinside⟩
          obtain ⟨searchFuel', found, hfound, hbits⟩ := compareSeed_fits.mpr (hvector seed rfl)
          have hresult : secondPass cfg msg seeds (max searchFuel searchFuel') (fuel + 1) pos
              seedId = _ := secondPass_known hpos hfind
          rw [compareRecord, compareSeed_mono (Nat.le_max_right _ _) hfound, bind_some,
            secondPass_mono (Nat.le_max_left _ _) hrest] at hresult
          exact ⟨max searchFuel searchFuel', _, hresult, (known_inside hpos).mpr ⟨hheader, hbits, hinside⟩⟩
    · refine ⟨fun _ h => absurd h hpos, fun _ => ⟨0, _, secondPass_end hpos, fun _ hnone => ?_⟩⟩
      exact absurd hnone List.not_mem_nil

/-! ## The message -/

/-- **Control messages.** For every payload and every local state, a message is processed to its
end, with what is read inside its records, if and only if its records fit. -/
theorem mpl_control_safety (cfg : MplConfig) (msg : ControlMsg) (st : MplNode) :
    ControlSafe cfg msg st ↔ ControlFits cfg msg st := by
  rw [ControlSafe, ControlFits]
  by_cases hheaders : headersOk cfg msg = true
  · rw [forall_prop_of_true hheaders]
    simp only [icmpIn, hheaders, if_true]
    cases hdomain : domainOf st msg.destipaddr with
    | none =>
      refine ⟨fun _ _ _ hsome => absurd hsome.symm (Option.some_ne_none _), fun _ => ?_⟩
      exact ⟨0, .discarded, rfl, trivial⟩
    | some found =>
      dsimp only
      constructor
      · rintro ⟨searchFuel, result, hresult, hinside⟩ domain domains hsome
        obtain rfl := Option.some.inj hsome
        obtain ⟨second, hsecond, rfl⟩ := Option.map_eq_some_iff.mp hresult
        obtain ⟨hfirst, hrest⟩ := List.forall_mem_append.mp hinside
        exact ⟨firstPass_inside.mp hfirst, secondPass_inside.mp ⟨searchFuel, second, hsecond, hrest⟩⟩
      · intro hfits
        obtain ⟨hfirst, hsecond⟩ := hfits found.1 found.2 rfl
        obtain ⟨searchFuel, second, hresult, hinside⟩ := secondPass_inside.mpr hsecond
        refine ⟨searchFuel, _, Option.map_eq_some_iff.mpr ⟨second, hresult, rfl⟩, ?_⟩
        exact List.forall_mem_append.mpr ⟨firstPass_inside.mpr hfirst, hinside⟩
  · refine ⟨fun _ h => absurd h hheaders, fun _ => ⟨0, .discarded, ?_, trivial⟩⟩
    rw [icmpIn, if_neg hheaders]

/-! ## A vector without bytes -/

/-- The control address of a domain. -/
def ctrlAddrAt : UipIpaddr := ⟨[0xFF, 0x02, 0, 0, 0, 0, 0, 0, 0, 0, 0, 0, 0, 0, 0, 0xFC], rfl⟩

/-- The data address of a domain. -/
def dataAddrAt : UipIpaddr := ⟨[0xFF, 0x03, 0, 0, 0, 0, 0, 0, 0, 0, 0, 0, 0, 0, 0, 0xFC], rfl⟩

/-- A record for the seed `0x0102`, from the number 5 on, with a vector of no bytes. -/
def emptyVector : ControlMsg where
  srcipaddr := ctrlAddrAt
  destipaddr := ctrlAddrAt
  ttl := 0xFF
  type := 159
  icode := 0
  payload := fun i => [5, 1, 1, 2].getD i 0
  len := 4

/-- A node that has the message 5 of the seed. -/
def oneMessage : MplNode where
  seedSet := [some ⟨1, fun i => if i.val = 0 then 2 else if i.val = 1 then 1 else 0, 5, 0, [⟨0, 5⟩]⟩]
  domainSet := [some ⟨dataAddrAt, ctrlAddrAt⟩]
  maddr := fun _ => true
  maddrFree := true
  seedId := fun _ => 0

/-- **A vector without bytes.** The message that the node has is looked up in it, behind the end of
the payload. -/
theorem mpl_empty_vector_read :
    ¬ ControlSafe ⟨true, 10, Nat.le_refl 10⟩ emptyVector oneMessage := by
  rintro ⟨searchFuel, result, hresult, hinside⟩
  have hrun : ∃ found, icmpIn ⟨true, 10, Nat.le_refl 10⟩ emptyVector oneMessage searchFuel =
      some (.processed 0 found) ∧ found.accesses =
        [.bytes 1 1, .bytes 2 2, .bytes 1 1, .bytes 2 2, .bytes 0 1, .bit 4 0 0] :=
    ⟨_, rfl, rfl⟩
  obtain ⟨found, hfound, haccesses⟩ := hrun
  obtain rfl := Option.some.inj (hfound.symm.trans hresult)
  have hbit : (Access.bit 4 0 0).Inside emptyVector.len := by
    refine hinside _ ?_
    rw [haccesses]
    exact List.mem_of_getLast? rfl
  exact absurd hbit.1 (by decide)

end Asap.Mpl
