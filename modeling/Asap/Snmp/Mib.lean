import Mathlib.Data.List.Lex
import Mathlib.Data.Finset.Defs
import Mathlib.Data.List.Perm.Subperm
import Mathlib.Tactic.Ring

/-!
# The MIB and its walks

The resources are in a list that should be in the order of their OIDs. A resource is looked up by its
OID, or as the first one behind an OID, and a GET-NEXT request tells which one that is. A GET-BULK
request goes on from several OIDs at once and puts as many answers into its varbinds as there is room
for.

## Main definitions

* `snmpOidCmpOid` — OIDs are compared.
* `snmpMibAdd`, `snmpMibFind`, `snmpMibFindNext` — the list of the resources.
* `snmpEngineGetNext`, `snmpEngineGetBulk` — the requests.
* `walk` — the answers to GET-NEXT requests, each with the OID returned last.
-/

namespace Asap.Snmp

open List

/-! ## OIDs -/

/-- `(uint32_t)-1`, behind the last number of an OID. -/
def oidEnd : BitVec 32 := -1

/-- An OID. The functions count its numbers in eight bits. -/
structure Oid where
  subids : List (BitVec 32)
  ne_end : ∀ x ∈ subids, x ≠ oidEnd
  length_lt : subids.length < 2 ^ 8

namespace Oid

/-- The array of an OID. -/
def array (o : Oid) : List (BitVec 32) := o.subids ++ [oidEnd]

/-- The numbers of an OID. They are compared lexicographically. -/
def key (o : Oid) : List ℕ := o.subids.map BitVec.toNat

theorem key_inj {o p : Oid} : o.key = p.key ↔ o = p := by
  constructor
  · intro h
    cases o
    cases p
    congr
    exact map_injective_iff.mpr (fun _ _ => BitVec.eq_of_toNat_eq) h
  · exact congrArg key

end Oid

/-- `snmp_oid_cmp_oid`, from an index of both arrays on. -/
def snmpOidCmpOid : List (BitVec 32) → List (BitVec 32) → ℤ
  | a :: oid1, b :: oid2 =>
    if a ≠ oidEnd ∧ b ≠ oidEnd then
      if a ≠ b then (if a < b then -1 else 1) else snmpOidCmpOid oid1 oid2
    else if a = oidEnd ∧ b ≠ oidEnd then -1
    else if a ≠ oidEnd ∧ b = oidEnd then 1
    else 0
  | _, _ => 0

/-! ## The list of the resources -/

section Mib

variable {ρ : Type*} [DecidableEq ρ]

/-- `list_add` -/
def listAdd (list : List ρ) (item : ρ) : List ρ := list.erase item ++ [item]

/-- `list_insert` behind an item: the new item comes behind the previous one where that is on the
list. -/
def listInsert (list : List ρ) (previtem newitem : ρ) : List ρ :=
  (list.erase newitem).flatMap fun x => if x = previtem then [x, newitem] else [x]

variable (oid : ρ → Oid)

/-- `snmp_mib_find` -/
def snmpMibFind (mib : List ρ) (o : Oid) : Option ρ :=
  mib.find? fun r => snmpOidCmpOid o.array (oid r).array = 0

/-- `snmp_mib_find_next` -/
def snmpMibFindNext (mib : List ρ) (o : Oid) : Option ρ :=
  mib.find? fun r => 0 < snmpOidCmpOid (oid r).array o.array

/-- `snmp_mib_add` -/
def snmpMibAdd (mib : List ρ) (newResource : ρ) : List ρ :=
  match mib.find? fun r => 0 < snmpOidCmpOid (oid r).array (oid newResource).array with
  | none => listAdd mib newResource
  | some resource => listInsert mib newResource resource

end Mib

/-! ## Requests -/

/-- The versions that are told apart. -/
inductive SnmpVersion
  | v1 | v2c | other
deriving DecidableEq, Repr

/-- What is known of the value of a varbind: nothing, that the handler of a resource has set it, or
that there is no next resource. -/
inductive Value (ρ : Type*)
  | unset
  | resource (r : ρ)
  | endOfMibView
deriving DecidableEq, Repr

/-- `snmp_varbind_t` -/
structure Varbind (ρ : Type*) where
  oid : Oid
  value : Value ρ

/-- `snmp_header_t`, with its two unions. -/
structure SnmpHeader where
  version : SnmpVersion
  errorStatusNonRepeaters : BitVec 32
  errorIndexMaxRepetitions : BitVec 32

/-- `SNMP_STATUS_NO_SUCH_NAME` -/
def snmpStatusNoSuchName : BitVec 32 := 2

/-- The error is put into the unions. -/
def SnmpHeader.noSuchName (header : SnmpHeader) (index : BitVec 32) : SnmpHeader :=
  { header with
    errorStatusNonRepeaters := snmpStatusNoSuchName
    errorIndexMaxRepetitions := index }

section Engine

variable {ρ : Type*} (oid : ρ → Oid)

/-- The varbind that the handler of a resource sets. The handlers set the OID, too. -/
def handled (r : ρ) : Varbind ρ := ⟨oid r, .resource r⟩

/-- A varbind for which there is no next resource. -/
def noNext (header : SnmpHeader) (i : ℕ) (v : Varbind ρ) : SnmpHeader × Varbind ρ :=
  match header.version with
  | .v1 => (header.noSuchName (BitVec.ofNat 32 (i + 1)), v)
  | .v2c => (header, { v with value := .endOfMibView })
  | .other => (header.noSuchName 0, v)

/-- A varbind in `snmp_engine_get_next`. -/
def getNextOne (mib : List ρ) (header : SnmpHeader) (i : ℕ) (v : Varbind ρ) :
    SnmpHeader × Varbind ρ :=
  match snmpMibFindNext oid mib v.oid with
  | some r => (header, handled oid r)
  | none => noNext header i v

/-- `snmp_engine_get_next`, from a varbind on. -/
def snmpEngineGetNext (mib : List ρ) (header : SnmpHeader) (i : ℕ) :
    List (Varbind ρ) → SnmpHeader × List (Varbind ρ)
  | [] => (header, [])
  | v :: varbinds =>
    let one := getNextOne oid mib header i v
    let more := snmpEngineGetNext mib one.1 (i + 1) varbinds
    (more.1, one.2 :: more.2)

/-- What `snmp_engine_get_bulk` works on: the varbinds and how many there are, and the copies of the
OIDs. -/
structure Bulk (ρ : Type*) where
  header : SnmpHeader
  varbinds : ℕ → Varbind ρ
  length : ℕ
  oids : ℕ → Oid

/-- The varbinds of the response. -/
def Bulk.answers (s : Bulk ρ) : List (Varbind ρ) := (List.range s.length).map s.varbinds

variable (maxNrValues : ℕ)

/-- A varbind behind the others, if there is room. -/
def Bulk.put (s : Bulk ρ) (v : Varbind ρ) : Bulk ρ :=
  if s.length < maxNrValues then
    { s with varbinds := Function.update s.varbinds s.length v, length := s.length + 1 }
  else s

variable (mib : List ρ)

/-- The first loop of `snmp_engine_get_bulk`, with the number of varbinds that are left. -/
def nonRepeaters : ℕ → ℕ → Bulk ρ → Bulk ρ
  | 0, _, s => s
  | n + 1, i, s =>
    if s.header.errorStatusNonRepeaters.toNat ≤ i then s
    else
      match snmpMibFindNext oid mib (s.oids i) with
      | some r => nonRepeaters n (i + 1) (s.put maxNrValues (handled oid r))
      | none =>
        let one := noNext s.header i (s.varbinds i)
        nonRepeaters n (i + 1)
          { s with header := one.1, varbinds := Function.update s.varbinds i one.2 }

/-- A repeater: whether it has got further. -/
def repeater (s : Bulk ρ) (j : ℕ) : Bulk ρ × Bool :=
  match snmpMibFindNext oid mib (s.oids j) with
  | some r =>
    if s.length < maxNrValues then
      ({ s.put maxNrValues (handled oid r) with oids := Function.update s.oids j (oid r) }, true)
    else (s, false)
  | none =>
    match s.header.version with
    | .v1 => ({ s with header := s.header.noSuchName (BitVec.ofNat 32 (s.length + 1)) }, false)
    | .v2c => (s.put maxNrValues ⟨s.oids j, .endOfMibView⟩, false)
    | .other => ({ s with header := s.header.noSuchName 0 }, false)

/-- A repetition, with the number of repeaters that are left: whether any has got further. -/
def repetition : ℕ → ℕ → Bulk ρ → Bulk ρ × Bool
  | 0, _, s => (s, false)
  | n + 1, j, s =>
    let one := repeater oid maxNrValues mib s j
    let more := repetition n (j + 1) one.1
    (more.1, one.2 || more.2)

/-- The second loop of `snmp_engine_get_bulk`. Its counter stays below a number of 32 bits. -/
def repetitions (varbindsLength : ℕ) : ℕ → ℕ → Bulk ρ → Bulk ρ
  | 0, _, s => s
  | fuel + 1, i, s =>
    if s.header.errorIndexMaxRepetitions.toNat ≤ i then s
    else
      let first := s.header.errorStatusNonRepeaters.toNat
      let one := repetition oid maxNrValues mib (varbindsLength - first) first s
      if one.2 then repetitions varbindsLength fuel (i + 1) one.1 else one.1

/-- `snmp_engine_get_bulk` -/
def snmpEngineGetBulk (header : SnmpHeader) (varbinds : List (Varbind ρ)) : Bulk ρ :=
  let requested (i : ℕ) : Varbind ρ := varbinds.getD i ⟨⟨[], nofun, by decide⟩, .unset⟩
  let s : Bulk ρ := ⟨header, requested, 0, fun i => (requested i).oid⟩
  repetitions oid maxNrValues mib varbinds.length (2 ^ 32) 0
    (nonRepeaters oid maxNrValues mib varbinds.length 0 s)

/-- The answers to GET-NEXT requests with one varbind, the first with an OID, and each other one with
the OID that was returned last. -/
def walk (header : SnmpHeader) (o : Oid) : ℕ → SnmpHeader × Varbind ρ
  | 0 => getNextOne oid mib header 0 ⟨o, .unset⟩
  | k + 1 => getNextOne oid mib header 0 ⟨(walk header o k).2.oid, .unset⟩

end Engine

/-! ## OIDs in order -/

theorem snmpOidCmpOid_spec {as bs : List (BitVec 32)} (ha : ∀ x ∈ as, x ≠ oidEnd)
    (hb : ∀ x ∈ bs, x ≠ oidEnd) :
    (0 < snmpOidCmpOid (as ++ [oidEnd]) (bs ++ [oidEnd]) ↔
        bs.map BitVec.toNat < as.map BitVec.toNat) ∧
      (snmpOidCmpOid (as ++ [oidEnd]) (bs ++ [oidEnd]) = 0 ↔ as = bs) := by
  induction as generalizing bs with
  | nil =>
    cases bs with
    | nil => simp [snmpOidCmpOid]
    | cons b bs =>
      have hend : b ≠ oidEnd := hb b (mem_cons_self ..)
      simp [snmpOidCmpOid, hend]
  | cons a as ih =>
    have haend : a ≠ oidEnd := ha a (mem_cons_self ..)
    cases bs with
    | nil => simp [snmpOidCmpOid, haend]
    | cons b bs =>
      have hbend : b ≠ oidEnd := hb b (mem_cons_self ..)
      have ih := ih (fun x hx => ha x (mem_cons_of_mem _ hx))
        fun x hx => hb x (mem_cons_of_mem _ hx)
      rw [cons_append, cons_append, snmpOidCmpOid, if_pos ⟨haend, hbend⟩, map_cons,
        map_cons, cons_lt_cons_iff]
      by_cases hab : a = b
      · rw [if_neg (not_not_intro hab), hab]
        simpa using ih
      · have hne : b.toNat ≠ a.toNat := fun h => hab (BitVec.eq_of_toNat_eq h.symm)
        rw [if_pos hab]
        by_cases hlt : a < b
        · have hle : ¬ b.toNat < a.toNat := Nat.lt_asymm hlt
          simp [hlt, hab, hne, hle]
        · have hgt : b.toNat < a.toNat := by
            have hle : ¬ a.toNat < b.toNat := hlt
            omega
          simp [hlt, hab, hgt]

section Mib

variable {ρ : Type*} {oid : ρ → Oid} {mib adds : List ρ} {new : ρ} {o : Oid}

theorem snmpMibFindNext_eq :
    snmpMibFindNext oid mib o = mib.find? fun r => o.key < (oid r).key := by
  have hcmp : ∀ r, decide (0 < snmpOidCmpOid (oid r).array o.array) = decide (o.key < (oid r).key) :=
    fun r => decide_eq_decide.mpr (snmpOidCmpOid_spec (oid r).ne_end o.ne_end).1
  rw [snmpMibFindNext]
  simp only [hcmp]

/-- A resource is found if no other one has its OID. -/
theorem snmpMibFind_of_mem {r : ρ} (hr : r ∈ mib) (hinj : ∀ s ∈ mib, oid s = oid r → s = r) :
    snmpMibFind oid mib (oid r) = some r := by
  have hcmp : ∀ s, snmpOidCmpOid (oid r).array (oid s).array = 0 ↔ oid r = oid s := by
    intro s
    rw [← Oid.key_inj, Oid.key, Oid.key, map_injective_iff.mpr
      (fun _ _ => BitVec.eq_of_toNat_eq) |>.eq_iff]
    exact (snmpOidCmpOid_spec (oid r).ne_end (oid s).ne_end).2
  rw [snmpMibFind]
  cases hfind : mib.find? fun s => decide (snmpOidCmpOid (oid r).array (oid s).array = 0) with
  | none => exact absurd (decide_eq_true ((hcmp r).mpr rfl)) (List.find?_eq_none.mp hfind r hr)
  | some s =>
    have hzero := List.find?_some hfind
    have hoid := (hcmp s).mp (by simpa using hzero)
    rw [hinj s (mem_of_find?_eq_some hfind) hoid.symm]

/-! ## Resources are added -/

variable [DecidableEq ρ]

/-- A resource whose OID is behind all others comes last. -/
theorem snmpMibAdd_last (hnew : new ∉ mib) (h : ∀ r ∈ mib, ¬ (oid new).key < (oid r).key) :
    snmpMibAdd oid mib new = mib ++ [new] := by
  have hnone : snmpMibFindNext oid mib (oid new) = none := by
    rw [snmpMibFindNext_eq, List.find?_eq_none]
    exact fun r hr => by simpa using h r hr
  rw [snmpMibFindNext] at hnone
  rw [snmpMibAdd, hnone]
  exact congrArg (· ++ [new]) (erase_of_not_mem hnew)

/-- In front of another one, it does not come in, and the other one goes. -/
theorem snmpMibAdd_before (hnew : new ∉ mib) (h : ∃ r ∈ mib, (oid new).key < (oid r).key) :
    ∃ r ∈ mib, snmpMibAdd oid mib new = mib.erase r := by
  obtain ⟨r, hr, hlt⟩ := h
  obtain ⟨s, hs⟩ : ∃ s, snmpMibFindNext oid mib (oid new) = some s := by
    rw [snmpMibFindNext_eq]
    exact Option.isSome_iff_exists.mp (List.find?_isSome.mpr ⟨r, hr, decide_eq_true hlt⟩)
  rw [snmpMibFindNext] at hs
  refine ⟨s, mem_of_find?_eq_some hs, ?_⟩
  simp only [snmpMibAdd, hs, listInsert]
  have hsame : ∀ x ∈ mib.erase s, (if x = new then [x, s] else [x]) = [x] := by
    intro x hx
    refine if_neg fun heq => hnew ?_
    rw [← heq]
    exact mem_of_mem_erase hx
  rw [flatMap_congr hsame, flatMap_singleton']

/-- **The list has all resources only if each came last.** -/
theorem foldl_snmpMibAdd (hadds : adds.Nodup) (hnew : ∀ r ∈ adds, r ∉ mib) :
    (adds.foldl (snmpMibAdd oid) mib).length ≤ mib.length + adds.length ∧
      (mib.length + adds.length ≤ (adds.foldl (snmpMibAdd oid) mib).length →
        adds.foldl (snmpMibAdd oid) mib = mib ++ adds) := by
  induction adds generalizing mib with
  | nil => simp
  | cons new adds ih =>
    obtain ⟨hnot, hadds⟩ := nodup_cons.mp hadds
    have hmem : new ∉ mib := hnew new (mem_cons_self ..)
    rw [foldl_cons, length_cons]
    by_cases h : ∃ r ∈ mib, (oid new).key < (oid r).key
    · obtain ⟨r, hr, hadd⟩ := snmpMibAdd_before hmem h
      have hlength := length_erase_of_mem hr
      have hpos := length_pos_of_mem hr
      have ih := @ih (mib.erase r) hadds
        fun x hx hxm => hnew x (mem_cons_of_mem _ hx) (mem_of_mem_erase hxm)
      rw [hadd]
      exact ⟨by omega, fun hle => absurd hle (by omega)⟩
    · have hadd := snmpMibAdd_last hmem fun r hr hlt => h ⟨r, hr, hlt⟩
      have ih := @ih (mib ++ [new]) hadds fun x hx hxm => by
        rcases mem_append.mp hxm with hxm | hxm
        · exact hnew x (mem_cons_of_mem _ hx) hxm
        · exact hnot (mem_singleton.mp hxm ▸ hx)
      rw [hadd]
      simp only [length_append, length_singleton, append_assoc,
        singleton_append] at ih
      exact ⟨by omega, fun hle => ih.2 (by omega)⟩

/-- Resources that are added in order are in the list in order. -/
theorem foldl_snmpMibAdd_of_increasing
    (h : (mib ++ adds).Pairwise fun r s => (oid r).key < (oid s).key) :
    adds.foldl (snmpMibAdd oid) mib = mib ++ adds := by
  induction adds generalizing mib with
  | nil => simp
  | cons new adds ih =>
    have hlt : ∀ r ∈ mib, (oid r).key < (oid new).key :=
      fun r hr => (pairwise_append.mp h).2.2 r hr new (mem_cons_self ..)
    have hadd : snmpMibAdd oid mib new = mib ++ [new] :=
      snmpMibAdd_last (fun hmem => lt_irrefl _ (hlt new hmem)) fun r hr => not_lt_of_gt (hlt r hr)
    rw [foldl_cons, hadd, ih (by simpa using h)]
    simp

end Mib

end Asap.Snmp
