import Asap.Rpl.Icmp6

/-!
# Safety of the message handlers

The handlers validate different subsets of what they read. For each of them, the payloads for
which nothing outside the payload is read, nothing outside of a prefix is written, and a
malformed message has no effect, are characterised by what is in the payload.

The DIO parser checks that options end below the length and discards most invalid ones, but
reads the header of an option and a metric container before it knows that they are there, and
lets any length of a prefix pass. The DAO handlers check nothing, so that they are safe for
messages that need no check.

## Main definitions

* `DioWellFormed`, `DaoWellFormed` — a complete base object, and options with valid prefix
  lengths that end where the payload does.
* `DioSafe`, `DaoSafe`, `DaoAckSafe` — the property of a payload.
* `DioCondition`, `DaoCondition` — when it holds.
-/

namespace Asap.Rpl

open Asap.Lib Asap.Ipv6
open Read (val_bind val_pure val_byte extent_bind extent_pure extent_byte run_bind_congr run_bind_left)

/-- A prefix in a DIO has a valid length, and the option has its bytes. -/
def DioPrefixValid (mem : ℕ → Byte) (i : ℕ) : Prop :=
  (mem i = 3 → (mem (i + 2)).toNat ≤ 128 ∧ prefixBytes (mem (i + 2)) + 8 ≤ optLen mem i) ∧
    (mem i = 8 → (mem (i + 2)).toNat ≤ 128)

/-- A DIO of `n` bytes with a complete base object, options that end where the payload does, and
valid prefix lengths. -/
def DioWellFormed (mem : ℕ → Byte) (n : ℕ) : Prop := Tiled (DioPrefixValid mem) mem n 24

/-- A DIO payload is handled safely: nothing beyond it is read, no prefix is written beyond its
end, neither by the parser nor where an address is made of it, and a malformed DIO leaves every
node as it is. -/
structure DioSafe (cfg : RplConfig) (mem : ℕ → Byte) (n : ℕ) : Prop where
  reads : (dioInput n n).extent mem ≤ n
  writes : ∀ p, (dioInput n n).val mem = some p → p.written ≤ 16 ∧
    (RplNode.acceptsMop cfg p.dio.mop = true → prefixBytes p.dio.prefixInfo.length ≤ 16)
  effect : ¬ DioWellFormed mem n → ∀ p, (dioInput n n).val mem = some p →
    ∀ s ctx, RplNode.rplProcessDio cfg s p.dio ctx = .ok s

/-- The option of a DIO is one that the parser refuses. -/
def dioRefuses (mem : ℕ → Byte) (bufferLength i : ℕ) : Bool :=
  decide (bufferLength < optLen mem i + i) ||
    (decide (mem i = 2) && (decide (optLen mem i < 6) ||
      decide (mem (i + 2) ≠ 0 ∧ mem (i + 2) ≠ 7 ∧ mem (i + 2) ≠ 2))) ||
    (decide (mem i = 3) && (decide (optLen mem i < 9) ||
      !decide (prefixBytes (mem (i + 2)) + 8 ≤ optLen mem i ∧ (mem (i + 2)).toNat ≤ 128))) ||
    (decide (mem i = 4) && decide (optLen mem i ≠ 16)) ||
    (decide (mem i = 8) && decide (optLen mem i ≠ 32))

/-- The offsets at which the DIO parser looks at an option. -/
def dioPositions (mem : ℕ → Byte) (n : ℕ) : List ℕ :=
  positions mem (dioRefuses mem (n % 256)) (n % 256) n 24

/-- Whether the option at an offset is a metric container with a metric that the parser reads. -/
def IsMetric (mem : ℕ → Byte) (bufferLength i : ℕ) : Prop :=
  mem i = 2 ∧ i + optLen mem i ≤ bufferLength ∧ 6 ≤ optLen mem i ∧
    (mem (i + 2) = 7 ∨ mem (i + 2) = 2)

instance (mem : ℕ → Byte) (bufferLength i : ℕ) : Decidable (IsMetric mem bufferLength i) :=
  inferInstanceAs (Decidable (_ ∧ _ ∧ _ ∧ _))

/-- When a DIO payload is handled safely: the base object is complete; no option starts with the
last byte, unless it is padding of one byte; the metric of a container is in the payload; and if
the DIO has a mode of operation that is looked at and no option that is refused, then its prefix
lengths are valid, and if it is longer than 255 bytes it is well formed as a whole. -/
structure DioCondition (cfg : RplConfig) (mem : ℕ → Byte) (n : ℕ) : Prop where
  base : 24 ≤ n
  header : ∀ j ∈ dioPositions mem n, mem j ≠ 0 → j + 2 ≤ n
  metric : ∀ j ∈ dioPositions mem n, IsMetric mem (n % 256) j → j + 8 ≤ n
  prefixes : RplNode.acceptsMop cfg (dioMop (mem 4)) = true →
    (∀ j ∈ dioPositions mem n, dioRefuses mem (n % 256) j = false) →
    (∀ j ∈ dioPositions mem n, mem j = 8 → (mem (j + 2)).toNat ≤ 128) ∧
      (256 ≤ n → DioWellFormed mem n)

/-- A target in a DAO has a valid length, and the option has its bytes. -/
def DaoPrefixValid (mem : ℕ → Byte) (i : ℕ) : Prop :=
  mem i = 5 → (mem (i + 3)).toNat ≤ 128 ∧ prefixBytes (mem (i + 3)) + 4 ≤ optLen mem i

/-- The end of the base object of a DAO, with the DAG ID if there is one. -/
def daoBase (mem : ℕ → Byte) : ℕ := if mem 1 &&& 0x40 = 0 then 4 else 20

/-- A DAO of `n` bytes with a complete base object, options that end where the payload does, and
valid prefix lengths. -/
def DaoWellFormed (mem : ℕ → Byte) (n : ℕ) : Prop := Tiled (DaoPrefixValid mem) mem n (daoBase mem)

/-- A DAO payload is handled safely, whatever node it comes to: nothing beyond it is read, the
prefix is not written beyond its end, and a malformed DAO has no effect. -/
structure DaoSafe (storing : Bool) (mem : ℕ → Byte) (n : ℕ) : Prop where
  reads : ∀ ctx, (daoInput storing n n ctx).extent mem ≤ n
  writes : ∀ ctx, ((daoInput storing n n ctx).val mem).written ≤ 16
  effect : ¬ DaoWellFormed mem n → ∀ ctx, (daoInput storing n n ctx).val mem = .discarded

/-- The offsets at which a DAO handler looks at an option. -/
def daoPositions (mem : ℕ → Byte) (n : ℕ) : List ℕ :=
  positions mem (fun _ => false) (n % 256) n (daoBase mem)

/-- When a DAO payload is handled safely: it is well formed, and what is read of a transit option
is in the payload, which is its lifetime, and in non-storing mode the parent address if the option
has 20 bytes or more. -/
structure DaoCondition (storing : Bool) (mem : ℕ → Byte) (n : ℕ) : Prop where
  wellFormed : DaoWellFormed mem n
  lifetime : ∀ j ∈ daoPositions mem n, mem j = 6 → j + 6 ≤ n
  parent : storing = false → ∀ j ∈ daoPositions mem n, mem j = 6 → 20 ≤ optLen mem j → j + 22 ≤ n

/-- A payload of a DAO acknowledgement is handled safely. -/
structure DaoAckSafe (mem : ℕ → Byte) (n : ℕ) : Prop where
  reads : ∀ known, (daoAckInput known).extent mem ≤ n
  effect : n < 4 → ∀ known, (daoAckInput known).val mem = none

/-! ## Reading a DIO -/

variable {cfg : RplConfig} {mem : ℕ → Byte} {n i j len pos bufferLength rounds : ℕ}

@[simp] theorem val_copy : (copy pos n).val mem = bytesAt mem pos n := rfl

@[simp] theorem extent_copy : (copy pos n).extent mem = if n = 0 then 0 else pos + n := rfl

@[simp] theorem extent_get16 : (get16 pos).extent mem = pos + 2 := by
  simp [get16]

@[simp] theorem extent_get32 : (get32 pos).extent mem = pos + 4 := by
  simp [get32]

theorem extent_dioBase : (dioBase).extent mem = 24 := by
  simp [dioBase]

theorem mop_val_dioBase : (dioBase.val mem).mop = dioMop (mem 4) := by
  simp [dioBase]

theorem isNone_val_dioMetricContainer (p : DioParse) :
    ((dioMetricContainer i len p).val mem).isNone =
      (decide (len < 6) || decide (mem (i + 2) ≠ 0 ∧ mem (i + 2) ≠ 7 ∧ mem (i + 2) ≠ 2)) := by
  by_cases hlen : len < 6
  · simp [dioMetricContainer, hlen]
  · by_cases h0 : mem (i + 2) = 0#8
    · simp [dioMetricContainer, hlen, h0]
    · by_cases h7 : mem (i + 2) = 7#8
      · simp [dioMetricContainer, hlen, h7]
      · by_cases h2 : mem (i + 2) = 2#8 <;> simp [dioMetricContainer, hlen, h0, h7, h2]

theorem isNone_val_dioRouteInfo (p : DioParse) :
    ((dioRouteInfo i len p).val mem).isNone =
      (decide (len < 9) ||
        !decide (prefixBytes (mem (i + 2)) + 8 ≤ len ∧ (mem (i + 2)).toNat ≤ 128)) := by
  by_cases hlen : len < 9
  · simp [dioRouteInfo, hlen]
  · simp only [dioRouteInfo, if_neg hlen, val_bind, val_byte]
    unfold dioDestination
    by_cases hpfx : prefixBytes (mem (i + 2)) + 8 ≤ len ∧ (mem (i + 2)).toNat ≤ 128
    · simp [hlen, hpfx]
    · rw [if_neg hpfx]
      simp [hlen, hpfx]

theorem isNone_val_dioDagConf (p : DioParse) :
    ((dioDagConf i len p).val mem).isNone = decide (len ≠ 16) := by
  by_cases hlen : len = 16 <;> simp [dioDagConf, hlen]

theorem isNone_val_dioPrefixInfo (p : DioParse) :
    ((dioPrefixInfo i len p).val mem).isNone = decide (len ≠ 32) := by
  by_cases hlen : len = 32 <;> simp [dioPrefixInfo, hlen]

/-- An option is refused whatever was parsed before it. -/
theorem isNone_val_dioOption (i : ℕ) (p : DioParse) :
    ((dioOption bufferLength i (optLen mem i) p).val mem).isNone =
      dioRefuses mem bufferLength i := by
  by_cases hover : bufferLength < optLen mem i + i
  · simp [dioOption, dioRefuses, hover]
  · simp only [dioOption, if_neg hover, val_bind, val_byte]
    unfold dioSwitch
    by_cases h2 : mem i = 2
    · rw [if_pos h2, isNone_val_dioMetricContainer]
      simp [dioRefuses, hover, h2]
    · rw [if_neg h2]
      by_cases h3 : mem i = 3
      · rw [if_pos h3, isNone_val_dioRouteInfo]
        simp [dioRefuses, hover, h3]
      · rw [if_neg h3]
        by_cases h4 : mem i = 4
        · rw [if_pos h4, isNone_val_dioDagConf]
          simp [dioRefuses, hover, h4]
        · rw [if_neg h4]
          by_cases h8 : mem i = 8
          · rw [if_pos h8, isNone_val_dioPrefixInfo]
            simp [dioRefuses, hover, h8]
          · rw [if_neg h8]
            have h2' : mem i ≠ 2#8 := h2
            have h3' : mem i ≠ 3#8 := h3
            have h4' : mem i ≠ 4#8 := h4
            have h8' : mem i ≠ 8#8 := h8
            simp [dioRefuses, hover, h2', h3', h4', h8']

section

variable (p : DioParse) (hlen : i + len ≤ n)

include hlen

theorem extent_dioMetricContainer_le :
    (dioMetricContainer i len p).extent mem ≤ n ↔
      (6 ≤ len ∧ (mem (i + 2) = 7 ∨ mem (i + 2) = 2) → i + 8 ≤ n) := by
  by_cases h6 : len < 6
  · simp [dioMetricContainer, h6]
  · by_cases h0 : mem (i + 2) = 0#8
    · simp [dioMetricContainer, h6, h0]
      omega
    · by_cases h7 : mem (i + 2) = 7#8
      · simp [dioMetricContainer, h6, h7]
        omega
      · by_cases h2 : mem (i + 2) = 2#8
        · simp [dioMetricContainer, h6, h2]
          omega
        · simp [dioMetricContainer, h6, h0, h7, h2]
          omega

theorem extent_dioRouteInfo_le :
    (dioRouteInfo i len p).extent mem ≤ n := by
  by_cases h9 : len < 9
  · simp [dioRouteInfo, h9]
  · simp only [dioRouteInfo, if_neg h9, extent_bind, extent_byte, val_byte,
      extent_get32]
    unfold dioDestination
    by_cases hpfx : prefixBytes (mem (i + 2)) + 8 ≤ len ∧ (mem (i + 2)).toNat ≤ 128
    · have hbytes := hpfx.1
      rw [if_pos hpfx]
      simp only [extent_bind, extent_copy, extent_pure, Nat.max_le]
      refine ⟨by omega, by omega, by omega, ?_, by omega⟩
      split <;> omega
    · rw [if_neg hpfx, extent_pure]
      omega

theorem extent_dioDagConf_le :
    (dioDagConf i len p).extent mem ≤ n := by
  by_cases h16 : len = 16
  · simp [dioDagConf, h16]
    omega
  · simp [dioDagConf, h16]

theorem extent_dioPrefixInfo_le :
    (dioPrefixInfo i len p).extent mem ≤ n := by
  by_cases h32 : len = 32
  · simp [dioPrefixInfo, h32]
    omega
  · simp [dioPrefixInfo, h32]

end

/-- Of what an option reads, only the metric may be beyond the payload. -/
theorem extent_dioOption_le (hbound : bufferLength ≤ n) (i : ℕ) (p : DioParse) :
    (dioOption bufferLength i (optLen mem i) p).extent mem ≤ n ↔
      (IsMetric mem bufferLength i → i + 8 ≤ n) := by
  have hpos := @optLen_pos mem i
  by_cases hover : bufferLength < optLen mem i + i
  · simp only [dioOption, if_pos hover, extent_pure, IsMetric]
    omega
  · have hlen : i + optLen mem i ≤ n := by omega
    have hin : i + optLen mem i ≤ bufferLength := by omega
    simp only [dioOption, if_neg hover, extent_bind, val_byte, extent_byte,
      Nat.max_le]
    unfold dioSwitch
    by_cases h2 : mem i = 2
    · rw [if_pos h2, extent_dioMetricContainer_le p hlen]
      simp [IsMetric, h2, hin]
      omega
    · rw [if_neg h2]
      have hnot : ¬ IsMetric mem bufferLength i := fun h => h2 h.1
      simp only [hnot, false_implies, iff_true]
      refine ⟨by omega, ?_⟩
      split_ifs
      · exact extent_dioRouteInfo_le p hlen
      · exact extent_dioDagConf_le p hlen
      · exact extent_dioPrefixInfo_le p hlen
      · exact Nat.zero_le _

/-- What is read of a DIO is in the payload. -/
theorem extent_dioInput_le :
    (dioInput n n).extent mem ≤ n ↔
      24 ≤ n ∧ ∀ j ∈ dioPositions mem n,
        j + 1 ≤ n ∧ (mem j ≠ 0 → j + 2 ≤ n) ∧ (IsMetric mem (n % 256) j → j + 8 ≤ n) := by
  unfold dioInput
  rw [extent_bind, Nat.max_le, extent_dioBase,
    extent_walk_le isNone_val_dioOption (extent_dioOption_le (Nat.mod_le n 256))]
  rfl

/-- A DIO is handed over if no option is refused. -/
theorem val_dioInput_eq_none :
    (dioInput n n).val mem = none ↔
      ∃ j ∈ dioPositions mem n, dioRefuses mem (n % 256) j = true := by
  unfold dioInput
  rw [val_bind]
  exact isNone_val_walk isNone_val_dioOption

/-- What an option leaves as it is: the mode of operation, the bound on what is copied into a
prefix, and the prefix length, unless the option has one. -/
structure DioKeeps (mem : ℕ → Byte) (i : ℕ) (p q : DioParse) : Prop where
  mop : q.dio.mop = p.dio.mop
  written : p.written ≤ 16 → q.written ≤ 16
  length : q.dio.prefixInfo.length = p.dio.prefixInfo.length ∨
    mem i = 8 ∧ q.dio.prefixInfo.length = mem (i + 2)

theorem dioMetricContainer_keeps {p q : DioParse}
    (h : (dioMetricContainer i len p).val mem = some q) : DioKeeps mem i p q := by
  by_cases hlen : len < 6
  · simp [dioMetricContainer, hlen] at h
  · by_cases h0 : mem (i + 2) = 0#8
    · simp [dioMetricContainer, hlen, h0] at h
      rw [← h]
      exact ⟨rfl, id, .inl rfl⟩
    · by_cases h7 : mem (i + 2) = 7#8
      · simp [dioMetricContainer, hlen, h7] at h
        rw [← h]
        exact ⟨rfl, id, .inl rfl⟩
      · by_cases h2 : mem (i + 2) = 2#8
        · simp [dioMetricContainer, hlen, h2] at h
          rw [← h]
          exact ⟨rfl, id, .inl rfl⟩
        · simp [dioMetricContainer, hlen, h0, h7, h2] at h

theorem prefixBytes_le {length : Byte} (h : length.toNat ≤ 128) : prefixBytes length ≤ 16 := by
  unfold prefixBytes
  omega

theorem dioRouteInfo_keeps {p q : DioParse} (h : (dioRouteInfo i len p).val mem = some q) :
    DioKeeps mem i p q := by
  by_cases hlen : len < 9
  · simp [dioRouteInfo, hlen] at h
  · simp only [dioRouteInfo, if_neg hlen, val_bind, val_byte] at h
    unfold dioDestination at h
    split at h
    next hpfx =>
      cases h
      exact ⟨rfl, fun hp => Nat.max_le.mpr ⟨hp, prefixBytes_le hpfx.2⟩, .inl rfl⟩
    next => cases h

theorem dioDagConf_keeps {p q : DioParse} (h : (dioDagConf i len p).val mem = some q) :
    DioKeeps mem i p q := by
  by_cases hlen : len = 16
  · simp [dioDagConf, hlen] at h
    rw [← h]
    exact ⟨rfl, id, .inl rfl⟩
  · simp [dioDagConf, hlen] at h

theorem dioPrefixInfo_keeps {p q : DioParse} (h8 : mem i = 8)
    (h : (dioPrefixInfo i len p).val mem = some q) : DioKeeps mem i p q := by
  by_cases hlen : len = 32
  · simp [dioPrefixInfo, hlen] at h
    rw [← h]
    exact ⟨rfl, fun hp => Nat.max_le.mpr ⟨hp, Nat.le_refl 16⟩, .inr ⟨h8, rfl⟩⟩
  · simp [dioPrefixInfo, hlen] at h

theorem dioOption_keeps {p q : DioParse} (h : (dioOption bufferLength i len p).val mem = some q) :
    DioKeeps mem i p q := by
  unfold dioOption at h
  split at h
  · cases h
  · simp only [val_bind, val_byte] at h
    unfold dioSwitch at h
    split_ifs at h with h2 h3 h4 h8
    · exact dioMetricContainer_keeps h
    · exact dioRouteInfo_keeps h
    · exact dioDagConf_keeps h
    · exact dioPrefixInfo_keeps h8 h
    · cases h
      exact ⟨rfl, id, .inl rfl⟩

/-- What is handed over has the mode of operation of the base object. -/
theorem mop_of_val_dioInput {p : DioParse} (h : (dioInput n n).val mem = some p) :
    p.dio.mop = dioMop (mem 4) ∧ p.written ≤ 16 := by
  unfold dioInput at h
  rw [val_bind] at h
  refine walk_induction (P := fun q => q.dio.mop = dioMop (mem 4) ∧ q.written ≤ 16) ?_
    isNone_val_dioOption ?_ h
  · intro j _ q r hq hr
    have hkeeps := dioOption_keeps hr
    exact ⟨hkeeps.mop.trans hq.1, hkeeps.written hq.2⟩
  · simp only [mop_val_dioBase, Nat.zero_le, and_self]

/-- The prefix length that is handed over is that of an option, or zero. -/
theorem prefixLength_of_val_dioInput {p : DioParse} (h : (dioInput n n).val mem = some p)
    (hvalid : ∀ j ∈ dioPositions mem n, mem j = 8 → (mem (j + 2)).toNat ≤ 128) :
    p.dio.prefixInfo.length.toNat ≤ 128 := by
  unfold dioInput at h
  rw [val_bind] at h
  refine walk_induction (P := fun q => q.dio.prefixInfo.length.toNat ≤ 128) ?_
    isNone_val_dioOption (by simp [dioBase, dioDefault]) h
  intro j hj q r hq hr
  rcases (dioOption_keeps hr).length with hsame | ⟨h8, hlength⟩
  · rw [hsame]
    exact hq
  · rw [hlength]
    exact hvalid j hj h8

/-- In a DIO of at most 255 bytes of which no option is refused, only the prefix length of a
prefix information option can be invalid. -/
theorem dioWellFormed_of_accepted (hn : n < 256) (hbase : 24 ≤ n)
    (haccepted : ∀ j ∈ dioPositions mem n, dioRefuses mem (n % 256) j = false)
    (hpfx : ∀ j ∈ dioPositions mem n, mem j = 8 → (mem (j + 2)).toNat ≤ 128) :
    DioWellFormed mem n := by
  have hmod : n % 256 = n := Nat.mod_eq_of_lt hn
  unfold dioPositions at haccepted hpfx
  rw [hmod] at haccepted hpfx
  refine tiled_of_positions (Nat.sub_le n 24) hbase haccepted ?_
  intro j hj
  have hrefuses := haccepted j hj
  simp only [dioRefuses, Bool.or_eq_false_iff, decide_eq_false_iff_not, Nat.not_lt] at hrefuses
  obtain ⟨⟨⟨⟨hlen, -⟩, h3⟩, -⟩, -⟩ := hrefuses
  refine ⟨by omega, ?_, hpfx j hj⟩
  intro htype
  simp [htype] at h3
  exact ⟨h3.2.2, h3.2.1⟩

/-! ## Effect of a DIO -/

/-- An instance with the DAG of a DIO, which it has heard of some time ago. -/
def heardInstance (dio : RplDio) : RplInstance where
  instanceId := dio.instanceId
  mop := dio.mop
  maxRankinc := 0
  minHoprankinc := 0
  dioIntdoubl := 0
  dioIntmin := 0
  dioIntcurrent := 0
  dioRedundancy := 0
  defaultLifetime := 0
  lifetimeUnit := 0
  dioSend := false
  dioNextDelay := 0
  dioTimer := false
  daoTimer := false
  daoLifetimeTimer := false
  dags := [⟨dio.dagId, dio.version, true, 1, 1, 7⟩]
  currentDag := dio.dagId

/-- The sender is a neighbor, and there is no room for a parent. -/
def noParentContext : DioContext where
  of := true
  sameOf := true
  nbrAdded := true
  parentAdded := false
  rankViaParent := 0
  fromPreferred := false
  event := ⟨0, false, false, ⟨0, none, false⟩⟩
  preferredAfter := false
  refreshRoutes := false

/-- The DIO sets the lifetime of the DAG again. -/
theorem processCandidate_heard {s : RplNode} {dio : RplDio}
    (hs : s.instanceTable 0 = some (heardInstance dio)) :
    s.processCandidate cfg 0 dio noParentContext =
      .ok (s.set 0 ((heardInstance dio).updateDag dio.dagId fun dag =>
        { dag with lifetime := 0 })) := by
  simp only [RplNode.processCandidate, hs]
  have hshl : Checked.shl 32 ((heardInstance dio).dioIntmin.toNat +
      (heardInstance dio).dioIntdoubl.toNat) = .ok 1 := rfl
  rw [hshl]
  rfl

/-- A DIO with a mode of operation that is looked at changes some node. -/
theorem exists_rplProcessDio_ne (hcfg : 0 < cfg.maxInstances) {dio : RplDio}
    (hmop : RplNode.acceptsMop cfg dio.mop = true) :
    ∃ s ctx, RplNode.rplProcessDio cfg s dio ctx ≠ .ok s := by
  obtain ⟨s, hs⟩ : ∃ s, RplNode.init.set 0 (heardInstance dio) = s := ⟨_, rfl⟩
  have htable : s.instanceTable 0 = some (heardInstance dio) := by
    rw [← hs]
    simp [RplNode.set]
  have hget : s.rplGetInstance cfg dio.instanceId = some 0 := by
    obtain ⟨k, hk⟩ : ∃ k, cfg.maxInstances = k + 1 := ⟨cfg.maxInstances - 1, by omega⟩
    simp [RplNode.rplGetInstance, hk, List.range_succ_eq_map, htable, heardInstance]
  have hdag : (heardInstance dio).getDag dio.dagId =
      some ⟨dio.dagId, dio.version, true, 1, 1, 7⟩ := by
    simp [RplInstance.getDag, heardInstance]
  have hcurrentDag : (heardInstance dio).currentDag = dio.dagId := rfl
  have hmin : (heardInstance dio).minHoprankinc = 0 := rfl
  have hnbr : noParentContext.nbrAdded = true := rfl
  have hversion : lollipopGreaterThan dio.version dio.version = false := by
    simp [lollipopGreaterThan]
  have hcurrent : (heardInstance dio).currentRank = 1 := by
    rw [RplInstance.currentRank, hcurrentDag, hdag]
    rfl
  have hrank : s.rankOf 0 dio.dagId = some 1 := by
    simp [RplNode.rankOf, htable, hdag]
  have hresult : RplNode.rplProcessDio cfg s dio noParentContext =
      s.processCandidate cfg 0 dio noParentContext := by
    simp only [RplNode.rplProcessDio, hmop, hget, htable, hdag, hversion]
    simp [RplNode.processKnown, RplNode.addUnknownDag, hdag, hcurrent, hrank, hcurrentDag, hmin,
      hnbr]
  refine ⟨s, noParentContext, ?_⟩
  rw [hresult, processCandidate_heard htable]
  intro hsame
  have hlife := congrArg (fun t : RplNode => (t.instanceTable 0).map RplInstance.dags)
    (Except.ok.inj hsame)
  simp [RplNode.set, htable, RplInstance.updateDag, heardInstance] at hlife

/-- **DIOs:** when a payload is handled safely. -/
theorem dioSafe_iff (hcfg : 0 < cfg.maxInstances) : DioSafe cfg mem n ↔ DioCondition cfg mem n := by
  constructor
  · intro h
    obtain ⟨hbase, hpositions⟩ := extent_dioInput_le.mp h.reads
    refine ⟨hbase, fun j hj => (hpositions j hj).2.1, fun j hj => (hpositions j hj).2.2, ?_⟩
    intro haccepts haccepted
    cases hval : (dioInput n n).val mem with
    | none =>
      obtain ⟨j, hj, hrefuses⟩ := val_dioInput_eq_none.mp hval
      rw [haccepted j hj] at hrefuses
      cases hrefuses
    | some p =>
      rw [← (mop_of_val_dioInput hval).1] at haccepts
      obtain ⟨s, ctx, hne⟩ := exists_rplProcessDio_ne hcfg haccepts
      have hwell : DioWellFormed mem n := by
        by_contra hnot
        exact hne (h.effect hnot p hval s ctx)
      refine ⟨?_, fun _ => hwell⟩
      intro j hj
      exact (hwell.position (Nat.mod_le n 256) hj).2.2
  · intro h
    have haccepted : ∀ p, (dioInput n n).val mem = some p →
        ∀ j ∈ dioPositions mem n, dioRefuses mem (n % 256) j = false := by
      intro p hp j hj
      by_contra hrefuses
      rw [Bool.not_eq_false] at hrefuses
      rw [val_dioInput_eq_none.mpr ⟨j, hj, hrefuses⟩] at hp
      cases hp
    refine ⟨?_, ?_, ?_⟩
    · refine extent_dioInput_le.mpr ⟨h.base, ?_⟩
      intro j hj
      have hlt := (lt_of_mem_positions hj).2
      have hmod := Nat.mod_le n 256
      exact ⟨by omega, h.header j hj, h.metric j hj⟩
    · intro p hp
      obtain ⟨hmop, hwritten⟩ := mop_of_val_dioInput hp
      refine ⟨hwritten, ?_⟩
      intro haccepts
      rw [hmop] at haccepts
      exact prefixBytes_le
        (prefixLength_of_val_dioInput hp (h.prefixes haccepts (haccepted p hp)).1)
    · intro hnot p hp s ctx
      by_cases haccepts : RplNode.acceptsMop cfg p.dio.mop = true
      · rw [(mop_of_val_dioInput hp).1] at haccepts
        obtain ⟨hpfx, hlong⟩ := h.prefixes haccepts (haccepted p hp)
        by_cases hn : n < 256
        · exact absurd (dioWellFormed_of_accepted hn h.base (haccepted p hp) hpfx) hnot
        · exact absurd (hlong (Nat.not_lt.mp hn)) hnot
      · rw [Bool.not_eq_true] at haccepts
        simp only [RplNode.rplProcessDio, haccepts]
        rfl

/-! ## DAOs -/

variable {storing : Bool} {ctx : DaoContext} {o o' : DaoOptions}

/-- What the round at an offset reads is in the payload. -/
structure DaoReads (storing : Bool) (mem : ℕ → Byte) (n i : ℕ) : Prop where
  type : i + 1 ≤ n
  target : mem i = 5 → i + 4 ≤ n ∧ (prefixBytes (mem (i + 3)) ≠ 0 →
    i + 4 + prefixBytes (mem (i + 3)) ≤ n)
  lifetime : mem i = 6 → i + 6 ≤ n
  parent : mem i = 6 → storing = false → 20 ≤ optLen mem i → i + 22 ≤ n

theorem isNone_val_daoOption (i : ℕ) (o : DaoOptions) :
    ((daoOption storing i (optLen mem i) o).val mem).isNone = false := by
  by_cases h5 : mem i = 5#8
  · simp [daoOption, h5]
  · by_cases h6 : mem i = 6#8
    · by_cases hparent : storing = false ∧ 20 ≤ optLen mem i
      · simp [daoOption, h6, hparent]
      · simp [daoOption, h6, hparent]
    · simp [daoOption, h5, h6]

theorem extent_daoOption_le (i : ℕ) (o : DaoOptions) :
    (daoOption storing i (optLen mem i) o).extent mem ≤ n ↔ DaoReads storing mem n i := by
  by_cases h5 : mem i = 5#8
  · have hextent : (daoOption storing i (optLen mem i) o).extent mem ≤ n ↔ i + 4 ≤ n ∧
        (prefixBytes (mem (i + 3)) ≠ 0 → i + 4 + prefixBytes (mem (i + 3)) ≤ n) := by
      simp [daoOption, h5]
      split <;> omega
    rw [hextent]
    constructor
    · intro h
      exact ⟨by omega, fun _ => h, by simp [h5], by simp [h5]⟩
    · intro h
      exact h.target h5
  · by_cases h6 : mem i = 6#8
    · by_cases hparent : storing = false ∧ 20 ≤ optLen mem i
      · have hextent : (daoOption storing i (optLen mem i) o).extent mem ≤ n ↔ i + 22 ≤ n := by
          simp [daoOption, h6, hparent]
        rw [hextent]
        constructor
        · intro h
          exact ⟨by omega, by simp [h6], fun _ => by omega, fun _ _ _ => h⟩
        · intro h
          exact h.parent h6 hparent.1 hparent.2
      · have hextent : (daoOption storing i (optLen mem i) o).extent mem ≤ n ↔ i + 6 ≤ n := by
          simp [daoOption, h6, hparent]
          omega
        rw [hextent]
        constructor
        · intro h
          exact ⟨by omega, by simp [h6], fun _ => h, fun _ hs hlen => absurd ⟨hs, hlen⟩ hparent⟩
        · intro h
          exact h.lifetime h6
    · have hextent : (daoOption storing i (optLen mem i) o).extent mem ≤ n ↔ i + 1 ≤ n := by
        simp [daoOption, h5, h6]
      rw [hextent]
      constructor
      · intro h
        exact ⟨h, fun h' => absurd h' h5, fun h' => absurd h' h6, fun h' => absurd h' h6⟩
      · intro h
        exact h.type

/-- A round copies no more than its option announces. -/
theorem written_of_val_daoOption (h : (daoOption storing i len o).val mem = some o')
    (hvalid : mem i = 5 → (mem (i + 3)).toNat ≤ 128) (ho : o.written ≤ 16) : o'.written ≤ 16 := by
  by_cases h5 : mem i = 5#8
  · simp [daoOption, h5] at h
    rw [← h]
    exact Nat.max_le.mpr ⟨ho, prefixBytes_le (hvalid h5)⟩
  · by_cases h6 : mem i = 6#8
    · by_cases hparent : storing = false ∧ 20 ≤ len
      · simp [daoOption, h6, hparent] at h
        rw [← h]
        exact ho
      · simp [daoOption, h6, hparent] at h
        rw [← h]
        exact ho
    · simp [daoOption, h5, h6] at h
      rw [← h]
      exact ho

variable {view : InstanceView} {instanceId flags sequence : Byte}

/-- The loop of a DAO handler refuses nothing. -/
theorem exists_val_daoWalk : ∃ o, (daoWalk storing n n ctx view pos).val mem = some o := by
  cases hval : (daoWalk storing n n ctx view pos).val mem with
  | none =>
    obtain ⟨j, -, hj⟩ := (isNone_val_walk isNone_val_daoOption).mp hval
    cases hj
  | some o => exact ⟨o, rfl⟩

theorem extent_daoWalk_le :
    (daoWalk storing n n ctx view pos).extent mem ≤ n ↔
      ∀ j ∈ positions mem (fun _ => false) (n % 256) n pos,
        j + 1 ≤ n ∧ (mem j ≠ 0 → j + 2 ≤ n) ∧ DaoReads storing mem n j :=
  extent_walk_le isNone_val_daoOption extent_daoOption_le

/-- What a well-formed DAO is read for is in the payload, given what is read of transit
options. -/
theorem DaoCondition.extent_daoWalk_le (h : DaoCondition storing mem n) :
    (daoWalk storing n n ctx view (daoBase mem)).extent mem ≤ n := by
  rw [Rpl.extent_daoWalk_le]
  intro j hj
  obtain ⟨hlen, hvalid⟩ := h.wellFormed.position (Nat.mod_le n 256) hj
  have hpos := @optLen_pos mem j
  refine ⟨by omega, ?_, by omega, ?_, h.lifetime j hj, fun h6 hs => h.parent hs j hj h6⟩
  · intro hne
    rw [optLen_of_ne_zero hne] at hlen
    omega
  · intro h5
    have hbytes := (hvalid h5).2
    exact ⟨by omega, fun _ => by omega⟩

theorem DaoWellFormed.written (h : DaoWellFormed mem n)
    (ho : (daoWalk storing n n ctx view (daoBase mem)).val mem = some o) : o.written ≤ 16 := by
  refine walk_induction (P := fun o => o.written ≤ 16) ?_ isNone_val_daoOption (Nat.zero_le 16) ho
  intro j hj o o' ho ho'
  have hvalid := (h.position (Nat.mod_le n 256) hj).2
  exact written_of_val_daoOption ho' (fun h5 => (hvalid h5).1) ho

/-- A handler that gets to the options reads them, or finds a loop. -/
theorem extent_daoParse_le (h : (daoWalk storing n n ctx view pos).extent mem ≤ n) :
    (daoParse storing n n ctx instanceId view flags sequence pos).extent mem ≤ n := by
  unfold daoParse
  split
  · exact Nat.zero_le n
  · obtain ⟨o, ho⟩ := @exists_val_daoWalk mem n pos storing ctx view
    simp only [extent_bind, ho, extent_pure, Nat.max_le]
    exact ⟨h, Nat.zero_le n⟩

theorem val_daoParse_accepted {id f q : Byte}
    (h : (daoParse storing n n ctx instanceId view flags sequence pos).val mem =
      .accepted id f q o) : (daoWalk storing n n ctx view pos).val mem = some o := by
  unfold daoParse at h
  split at h
  · cases h
  · obtain ⟨o', ho'⟩ := @exists_val_daoWalk mem n pos storing ctx view
    simp only [val_bind, ho', val_pure] at h
    cases h
    exact ho'

/-- A node that knows the instance and the DAG, and for which the sender is no parent. -/
def knowingContext (mem : ℕ → Byte) : DaoContext where
  instances := fun _ => some ⟨⟨bytesAt mem 4 16, length_bytesAt mem 4 16⟩, 0, 0, 0, none⟩
  unicast := true
  stack := zeroAddr

/-- A node that knows the instance gets to the options. -/
theorem daoInput_knowing :
    ∃ view, (∀ o, (daoWalk storing n n (knowingContext mem) view (daoBase mem)).val mem = some o →
        (daoInput storing n n (knowingContext mem)).val mem =
          .accepted (mem 0) (mem 1) (mem 3) o) ∧
      ((daoInput storing n n (knowingContext mem)).extent mem ≤ n →
        (daoWalk storing n n (knowingContext mem) view (daoBase mem)).extent mem ≤ n) := by
  refine ⟨⟨⟨bytesAt mem 4 16, length_bytesAt mem 4 16⟩, 0, 0, 0, none⟩, ?_⟩
  obtain ⟨view, hview⟩ : ∃ view : InstanceView,
      ⟨⟨bytesAt mem 4 16, length_bytesAt mem 4 16⟩, 0, 0, 0, none⟩ = view := ⟨_, rfl⟩
  have hinstances : (knowingContext mem).instances (mem 0) = some view := by
    rw [← hview]
    rfl
  have hdag : bytesAt mem 4 16 = view.dagId.val := by rw [← hview]
  have hloop : ¬ (storing = true ∧ (knowingContext mem).unicast = true ∧ view.loop = true) := by
    rw [← hview]
    simp [InstanceView.loop]
  rw [hview]
  have hparse : ∀ pos, daoParse storing n n (knowingContext mem) (mem 0) view (mem 1) (mem 3) pos =
      (daoWalk storing n n (knowingContext mem) view pos >>= fun options =>
        options.elim (pure .discarded) fun o => pure (.accepted (mem 0) (mem 1) (mem 3) o)) := by
    intro pos
    rw [daoParse, if_neg hloop]
    congr 1
    funext options
    cases options <;> rfl
  by_cases hflag : mem 1 &&& 0x40 = 0
  · have hbase : daoBase mem = 4 := if_pos hflag
    simp only [daoInput, val_bind, val_byte, daoForInstance, hinstances, extent_bind]
    simp only [daoFlags, if_pos hflag, hparse, hbase, val_bind, extent_bind, Nat.max_le]
    refine ⟨?_, fun h => h.2.2.2.1⟩
    intro o ho
    rw [ho]
    rfl
  · have hbase : daoBase mem = 20 := if_neg hflag
    simp only [daoInput, val_bind, val_byte, daoForInstance, hinstances, extent_bind]
    simp only [daoFlags, if_neg hflag, val_bind, extent_bind, val_copy]
    simp only [daoForDag, if_pos hdag, hparse, hbase, val_bind, extent_bind, Nat.max_le]
    refine ⟨?_, fun h => h.2.2.2.2.1⟩
    intro o ho
    rw [ho]
    rfl

theorem four_le_daoBase : 4 ≤ daoBase mem := by
  unfold daoBase
  split <;> omega

/-- Before the options, a handler reads the base object. -/
theorem extent_daoInput_le (hbase : daoBase mem ≤ n)
    (hwalk : ∀ view, (daoWalk storing n n ctx view (daoBase mem)).extent mem ≤ n) :
    (daoInput storing n n ctx).extent mem ≤ n := by
  have hfour := @four_le_daoBase mem
  simp only [daoInput, extent_bind, extent_byte, val_byte, Nat.max_le]
  refine ⟨by omega, ?_⟩
  unfold daoForInstance
  cases ctx.instances (mem 0) with
  | none => exact Nat.zero_le n
  | some view =>
    simp only [extent_bind, extent_byte, val_byte, Nat.max_le]
    refine ⟨by omega, by omega, ?_⟩
    unfold daoFlags
    by_cases hflag : mem 1 &&& 0x40 = 0
    · have heq : daoBase mem = 4 := if_pos hflag
      rw [if_pos hflag]
      exact extent_daoParse_le (heq ▸ hwalk view)
    · have heq : daoBase mem = 20 := if_neg hflag
      rw [if_neg hflag]
      simp only [extent_bind, extent_copy, Nat.max_le]
      refine ⟨by rw [if_neg (by omega)]; omega, ?_⟩
      unfold daoForDag
      split
      · exact extent_daoParse_le (heq ▸ hwalk view)
      · exact Nat.zero_le n

/-- What is accepted are the options after the base object. -/
theorem val_daoInput_accepted {id f q : Byte}
    (h : (daoInput storing n n ctx).val mem = .accepted id f q o) :
    ∃ view, (daoWalk storing n n ctx view (daoBase mem)).val mem = some o := by
  simp only [daoInput, val_bind, val_byte] at h
  unfold daoForInstance at h
  cases hview : ctx.instances (mem 0) with
  | none =>
    rw [hview] at h
    cases h
  | some view =>
    refine ⟨view, ?_⟩
    rw [hview] at h
    simp only [val_bind, val_byte] at h
    unfold daoFlags at h
    by_cases hflag : mem 1 &&& 0x40 = 0
    · have heq : daoBase mem = 4 := if_pos hflag
      rw [if_pos hflag] at h
      rw [heq]
      exact val_daoParse_accepted h
    · have heq : daoBase mem = 20 := if_neg hflag
      rw [if_neg hflag, val_bind] at h
      unfold daoForDag at h
      split at h
      · rw [heq]
        exact val_daoParse_accepted h
      · cases h

/-- **DAOs:** when a payload is handled safely. -/
theorem daoSafe_iff : DaoSafe storing mem n ↔ DaoCondition storing mem n := by
  constructor
  · intro h
    obtain ⟨view, hval, hextent⟩ := @daoInput_knowing mem n storing
    obtain ⟨o, ho⟩ := @exists_val_daoWalk mem n (daoBase mem) storing (knowingContext mem) view
    have hreads := extent_daoWalk_le.mp (hextent (h.reads _))
    refine ⟨?_, fun j hj => (hreads j hj).2.2.lifetime,
      fun hs j hj h6 => (hreads j hj).2.2.parent h6 hs⟩
    by_contra hnot
    have hdiscarded := h.effect hnot (knowingContext mem)
    rw [hval o ho] at hdiscarded
    cases hdiscarded
  · intro h
    refine ⟨?_, ?_, fun hnot => absurd h.wellFormed hnot⟩
    · intro ctx
      exact extent_daoInput_le h.wellFormed.le fun view => h.extent_daoWalk_le
    · intro ctx
      cases hval : (daoInput storing n n ctx).val mem with
      | discarded => exact Nat.zero_le 16
      | loop _ => exact Nat.zero_le 16
      | accepted id f q o =>
        obtain ⟨view, hview⟩ := val_daoInput_accepted hval
        exact h.wellFormed.written hview

/-! ## Acknowledgements, and all handlers -/

/-- **Acknowledgements:** when a payload is handled safely. -/
theorem daoAckSafe_iff : DaoAckSafe mem n ↔ 4 ≤ n := by
  have hextent : ∀ known, (daoAckInput known).extent mem = 4 := by
    intro known
    simp [daoAckInput]
  constructor
  · intro h
    have hreads := h.reads fun _ => false
    rw [hextent] at hreads
    exact hreads
  · intro h
    refine ⟨?_, fun hlt => absurd h (Nat.not_le.mpr hlt)⟩
    intro known
    rw [hextent]
    exact h

/-- The loop of the DIO parser is over after as many rounds as the payload has bytes. -/
theorem run_dioInput (h : n ≤ rounds) :
    (dioInput rounds n).run mem = (dioInput n n).run mem := by
  have hmod := Nat.mod_le n 256
  unfold dioInput
  apply run_bind_congr
  exact run_walk (by omega) (by omega)

theorem run_daoParse (h : n ≤ rounds) :
    (daoParse storing rounds n ctx instanceId view flags sequence pos).run mem =
      (daoParse storing n n ctx instanceId view flags sequence pos).run mem := by
  have hmod := Nat.mod_le n 256
  have hwalk : (daoWalk storing rounds n ctx view pos).run mem =
      (daoWalk storing n n ctx view pos).run mem := run_walk (by omega) (by omega)
  unfold daoParse
  split
  · rfl
  · exact run_bind_left hwalk

/-- The loop of a DAO handler is over after as many rounds as the payload has bytes. -/
theorem run_daoInput (h : n ≤ rounds) :
    (daoInput storing rounds n ctx).run mem = (daoInput storing n n ctx).run mem := by
  unfold daoInput
  apply run_bind_congr
  unfold daoForInstance
  split
  · rfl
  · apply run_bind_congr
    apply run_bind_congr
    unfold daoFlags
    split
    · exact run_daoParse h
    · apply run_bind_congr
      unfold daoForDag
      split
      · exact run_daoParse h
      · rfl

/-- **Message handling is safe for the payloads that need no check.** The handlers end for every
payload, and for each of them the payloads that are handled safely are those that meet its
condition. -/
theorem rpl_message_safety (hcfg : 0 < cfg.maxInstances) (mem : ℕ → Byte) (n : ℕ) :
    (∀ rounds, n ≤ rounds → (dioInput rounds n).run mem = (dioInput n n).run mem ∧
      ∀ storing ctx, (daoInput storing rounds n ctx).run mem =
        (daoInput storing n n ctx).run mem) ∧
      (DioSafe cfg mem n ↔ DioCondition cfg mem n) ∧
      (∀ storing, DaoSafe storing mem n ↔ DaoCondition storing mem n) ∧
      (DaoAckSafe mem n ↔ 4 ≤ n) :=
  ⟨fun _ h => ⟨run_dioInput h, fun _ _ => run_daoInput h⟩, dioSafe_iff hcfg,
    fun _ => daoSafe_iff, daoAckSafe_iff⟩

/-- A payload of a list of bytes, with zeros after it. -/
def payload (bs : List Byte) (i : ℕ) : Byte := bs.getD i 0

/-- One instance, and storing mode. -/
def storingConfig : RplConfig where
  clockSecond := 128
  maxInstances := 1
  maxDagPerInstance := 1
  mopDefault := 2
  withMulticast := false
  defaultRouteInfiniteLifetime := false
  randomRand := fun _ => 0

/-- A DIO without options. -/
def baseDio : List Byte := [30, 240, 1, 0, 0x10, 240, 0, 0] ++ List.replicate 16 0

/-- A DAO with a target of 128 bits and a transit option without a parent address. -/
def targetDao : List Byte :=
  [30, 0, 0, 240, 5, 18, 0, 128] ++ List.replicate 16 7 ++ [6, 4, 0, 0, 0, 30]

theorem rpl_message_safety_base :
    0 < storingConfig.maxInstances ∧ DioSafe storingConfig (payload baseDio) 24 ∧
      DaoSafe true (payload targetDao) 30 := by
  have hcfg : 0 < storingConfig.maxInstances := by decide
  have hwell : DaoWellFormed (payload targetDao) 30 :=
    .step (by decide) (fun _ => by decide) (.step (by decide) (fun h => absurd h (by decide)) .done)
  exact ⟨hcfg, (rpl_message_safety hcfg (payload baseDio) 24).2.1.mpr
      ⟨by decide, by decide, by decide, fun _ _ => ⟨by decide, fun h => absurd h (by decide)⟩⟩,
    ((rpl_message_safety hcfg (payload targetDao) 30).2.2.1 true).mpr
      ⟨hwell, by decide, fun h => absurd h (by decide)⟩⟩

/-- A DAO whose target has a length of 255 bits. -/
def wideTarget : List Byte := [30, 0, 0, 240, 5, 2, 0, 255]

/-- A DIO with a prefix information option whose prefix has a length of 255 bits. -/
def widePrefix : List Byte :=
  [30, 240, 1, 0, 0x10, 240, 0, 0] ++ List.replicate 16 0 ++ [8, 30, 255, 64] ++
    List.replicate 28 0

/-- **A prefix length is not checked:** out of a DAO of eight bytes, 32 bytes are copied into a
prefix of 16, and an address of 16 bytes is made of a prefix of 32. -/
theorem wide_prefixes_unsafe :
    ¬ DaoSafe true (payload wideTarget) 8 ∧ ¬ DioSafe storingConfig (payload widePrefix) 56 := by
  constructor
  · intro h
    exact absurd (h.writes (knowingContext (payload wideTarget))) (by decide +kernel)
  · intro h
    have hval : ((dioInput 56 56).val (payload widePrefix)).map (fun p =>
        (p.dio.mop, prefixBytes p.dio.prefixInfo.length)) = some (2, 32) := by decide +kernel
    obtain ⟨p, hp, hfields⟩ := Option.map_eq_some_iff.mp hval
    have hmop : p.dio.mop = 2 := congrArg Prod.fst hfields
    have hbytes : prefixBytes p.dio.prefixInfo.length = 32 := congrArg Prod.snd hfields
    have hwrites := (h.writes p hp).2 (by rw [hmop]; decide)
    rw [hbytes] at hwrites
    exact absurd hwrites (by decide)

end Asap.Rpl
