import Asap.Ip64.AddrMap
import Asap.Lib.Run

/-!
# The mapped ports

The search for a port compares the port with that of the first entry of the list only: behind it
comes what is behind the new entry, which is not on the list yet. So the port of a new mapping is
the first candidate that is not the port of the first entry, and it is the port of one mapping as
long as no other mapping has it.

## Main definitions

* `Addrmap.Ok` — the list and the pool.
* `Addrmap.PortsUnique`, `Addrmap.FlowsUnique` — a mapping is the only one for its port, and for its
  flow.
* `Addrmap.FindsFree`, `PicksFree` — the search ends at a port that is free.
* `AfterLookup` — a mapping is created for a flow that has none.
-/

namespace Asap.Ip64

open Lib Sys List

variable {W : ℕ} {n m : ℕ} {now : BitVec W}

namespace Addrmap

variable {s t u : Addrmap W} {flow : Flow} {rand : ℕ → BitVec 16}

/-- The entries of the list are the blocks in use, and nothing is behind the others. -/
structure Ok (n : ℕ) (s : Addrmap W) : Prop where
  inUse : InUse n s.used s.entrylist
  next : ∀ m ∉ s.entrylist, s.next m = none

/-- The port of a mapping. -/
def port (s : Addrmap W) (e : ℕ) : Port := (s.entry e).mappedPort

/-- The flow of a mapping. -/
def flowOf (s : Addrmap W) (e : ℕ) : Flow := (s.entry e).flow

/-- Two mappings of a protocol have different ports. -/
def PortsUnique (s : Addrmap W) : Prop :=
  ∀ e ∈ s.entrylist, ∀ e' ∈ s.entrylist,
    (s.flowOf e).protocol = (s.flowOf e').protocol → s.port e = s.port e' → e = e'

/-- A flow has one mapping. -/
def FlowsUnique (s : Addrmap W) : Prop :=
  ∀ e ∈ s.entrylist, ∀ e' ∈ s.entrylist, s.flowOf e = s.flowOf e' → e = e'

/-- The ports that the search goes through, from one on. -/
def candidates (port : Port) (rand : ℕ → BitVec 16) : ℕ → Port
  | 0 => port
  | k + 1 => increaseMappedPort (rand k)

/-- The first candidate that is not the port of the first entry is there, and it is the port of no
mapping of the protocol. -/
def FindsFree (s : Addrmap W) (protocol : BitVec 8) (rand : ℕ → BitVec 16) : Prop :=
  ∀ h, s.entrylist.head? = some h → ∃ k,
    (∀ j < k, candidates s.mappedPort rand j = s.port h) ∧
    candidates s.mappedPort rand k ≠ s.port h ∧
    ∀ e ∈ s.entrylist, (s.flowOf e).protocol = protocol →
      s.port e ≠ candidates s.mappedPort rand k

/-- Where there is room for a mapping, the search for its port finds one that is free. -/
def CreatesFree (n : ℕ) (now : BitVec W) (s : Addrmap W) (protocol : BitVec 8)
    (rand : ℕ → BitVec 16) : Prop :=
  ∀ t m, (s.checkAge now).allocate n now = (t, some m) → t.FindsFree protocol rand

/-! ## Mappings that go -/

/-- Mappings have gone, and those that are left have their flows and ports. -/
structure Shrinks (s t : Addrmap W) : Prop where
  mem : ∀ e ∈ t.entrylist, e ∈ s.entrylist
  flow : ∀ e ∈ t.entrylist, t.flowOf e = s.flowOf e
  port : ∀ e ∈ t.entrylist, t.port e = s.port e

namespace Shrinks

theorem refl (s : Addrmap W) : Shrinks s s := ⟨fun _ he => he, fun _ _ => rfl, fun _ _ => rfl⟩

theorem trans (h : Shrinks s t) (h' : Shrinks t u) : Shrinks s u where
  mem e he := h.mem e (h'.mem e he)
  flow e he := (h'.flow e he).trans (h.flow e (h'.mem e he))
  port e he := (h'.port e he).trans (h.port e (h'.mem e he))

theorem portsUnique (h : Shrinks s t) (hs : s.PortsUnique) : t.PortsUnique := by
  intro e he e' he' hproto hport
  rw [h.flow e he, h.flow e' he'] at hproto
  rw [h.port e he, h.port e' he'] at hport
  exact hs e (h.mem e he) e' (h.mem e' he') hproto hport

theorem flowsUnique (h : Shrinks s t) (hs : s.FlowsUnique) : t.FlowsUnique := by
  intro e he e' he' hflow
  rw [h.flow e he, h.flow e' he'] at hflow
  exact hs e (h.mem e he) e' (h.mem e' he') hflow

end Shrinks

theorem shrinks_remove (m : ℕ) : Shrinks s (s.remove m) :=
  ⟨fun _ he => mem_of_mem_erase he, fun _ _ => rfl, fun _ _ => rfl⟩

/-- A mapping is rewritten, with its flow and port. -/
theorem shrinks_write {e : AddrmapEntry W} (hflow : e.flow = s.flowOf m)
    (hport : e.mappedPort = s.port m) : Shrinks s (s.write m e) := by
  refine ⟨fun _ he => he, fun e' _ => ?_, fun e' _ => ?_⟩
  · by_cases hm : e' = m
    · rw [flowOf, hm, write_entry_self, hflow]
    · rw [flowOf, write_entry_of_ne s hm, flowOf]
  · by_cases hm : e' = m
    · rw [port, hm, write_entry_self, hport]
    · rw [port, write_entry_of_ne s hm, port]

theorem Ok.remove (h : Ok n s) (m : ℕ) : Ok n (s.remove m) := by
  refine ⟨h.inUse.free m, fun m' hm' => ?_⟩
  by_cases hm : m' = m
  · simp [Addrmap.remove, hm]
  · have hmem : m' ∉ s.entrylist := fun hmem => hm' ((mem_erase_of_ne hm).mpr hmem)
    simpa [Addrmap.remove, hm] using h.next m' hmem

theorem Ok.write (h : Ok n s) (m : ℕ) (e : AddrmapEntry W) : Ok n (s.write m e) :=
  ⟨h.inUse, h.next⟩

theorem shrinks_checkAgeLoop (k : ℕ) : Shrinks s (checkAgeLoop now k s) := by
  induction k generalizing s with
  | zero => exact .refl s
  | succ k ih =>
    rw [checkAgeLoop]
    split
    · exact .refl s
    · exact (shrinks_remove _).trans ih

theorem Ok.checkAgeLoop (h : Ok n s) (k : ℕ) : Ok n (checkAgeLoop now k s) := by
  induction k generalizing s with
  | zero => exact h
  | succ k ih =>
    rw [Addrmap.checkAgeLoop]
    split
    · exact h
    · exact ih (h.remove _)

theorem shrinks_checkAge : Shrinks s (s.checkAge now) := shrinks_checkAgeLoop _

theorem Ok.checkAge (h : Ok n s) : Ok n (s.checkAge now) := h.checkAgeLoop _

theorem recycle_eq_some (h : s.recycle now = some t) : ∃ m, t = s.remove m := by
  rw [recycle, Option.map_eq_some_iff] at h
  have ⟨m, _, hm⟩ := h
  exact ⟨m, hm.symm⟩

/-! ## A block for a new mapping -/

/-- The blocks in use are the entries of the list and a new one. -/
structure Room (n : ℕ) (s : Addrmap W) (m : ℕ) : Prop where
  inUse : InUse n s.used (m :: s.entrylist)
  next : ∀ m ∉ s.entrylist, s.next m = none

theorem Room.not_mem (h : Room n s m) : m ∉ s.entrylist := (List.nodup_cons.mp h.inUse.nodup).1

theorem Ok.room (h : Ok n s) (hm : membAlloc n s.used = some m) :
    Room n { s with used := Function.update s.used m true } m :=
  ⟨h.inUse.alloc hm, h.next⟩

theorem Ok.allocate_some (h : Ok n s) (hm : s.allocate n now = (t, some m)) :
    Shrinks s t ∧ Room n t m := by
  rw [allocate] at hm
  split at hm
  · rename_i m' hm'
    cases hm
    exact ⟨⟨fun _ he => he, fun _ _ => rfl, fun _ _ => rfl⟩, h.room hm'⟩
  · split at hm
    · cases hm
    · rename_i u hu
      have ⟨m₀, hm₀⟩ := recycle_eq_some hu
      subst hm₀
      split at hm
      · cases hm
      · rename_i m' hm'
        cases hm
        have hshrinks := shrinks_remove (s := s) m₀
        exact ⟨⟨hshrinks.mem, hshrinks.flow, hshrinks.port⟩, (h.remove m₀).room hm'⟩

theorem Ok.allocate_none (h : Ok n s) (hm : s.allocate n now = (t, none)) :
    Shrinks s t ∧ Ok n t := by
  rw [allocate] at hm
  split at hm
  · cases hm
  · split at hm
    · cases hm
      exact ⟨.refl s, h⟩
    · rename_i u hu
      have ⟨m₀, hm₀⟩ := recycle_eq_some hu
      subst hm₀
      split at hm
      · cases hm
        exact ⟨shrinks_remove m₀, h.remove m₀⟩
      · cases hm

/-! ## The search for a port -/

/-- Nothing is behind a new entry. -/
theorem Room.listItemNext (h : Room n s m) : s.listItemNext m = none := by
  rw [Addrmap.listItemNext, if_neg h.not_mem]
  exact h.next m h.not_mem

/-- The candidates behind the first one. -/
theorem candidates_shift (p : Port) (i l : ℕ) :
    candidates (increaseMappedPort (rand i)) (fun l => rand (i + 1 + l)) l =
      candidates p (fun l => rand (i + l)) (l + 1) := by
  cases l with
  | zero => exact congrArg (fun j => increaseMappedPort (rand j)) (Nat.add_zero i).symm
  | succ l => exact congrArg (fun j => increaseMappedPort (rand j)) (by omega)

/-- What the search has found: the first candidate that is not the port of the first entry. -/
theorem pickPort_spec (hm : s.listItemNext m = none) {h : ℕ} (hh : s.entrylist.head? = some h)
    {fuel i j : ℕ} {p q : Port} (hpick : s.pickPort m rand fuel i (some h) p = some (q, j)) :
    ∃ k, q = candidates p (fun l => rand (i + l)) k ∧ q ≠ s.port h ∧
      ∀ l < k, candidates p (fun l => rand (i + l)) l = s.port h := by
  induction fuel generalizing i p with
  | zero => simp [pickPort] at hpick
  | succ fuel ih =>
    rw [pickPort] at hpick
    split at hpick
    · rename_i hclash
      rw [hh] at hpick
      have ⟨k, hq, hne, hall⟩ := ih hpick
      refine ⟨k + 1, by rw [hq, candidates_shift], hne, fun l hl => ?_⟩
      cases l with
      | zero => exact hclash.symm
      | succ l =>
        rw [← candidates_shift]
        exact hall l (by omega)
    · rename_i hclash
      rw [hm] at hpick
      cases fuel with
      | zero => simp [pickPort] at hpick
      | succ fuel =>
        cases hpick
        exact ⟨0, rfl, fun hq => hclash hq.symm, fun l hl => absurd hl (Nat.not_lt_zero l)⟩

variable (rand) in
/-- The search ends where a candidate is not the port of the first entry. -/
theorem exists_pickPort (hm : s.listItemNext m = none) {h : ℕ} (hh : s.entrylist.head? = some h)
    {k i : ℕ} {p : Port} (hne : candidates p (fun l => rand (i + l)) k ≠ s.port h)
    (hall : ∀ l < k, candidates p (fun l => rand (i + l)) l = s.port h) :
    s.pickPort m rand (k + 2) i (some h) p =
      some (candidates p (fun l => rand (i + l)) k, i + k) := by
  induction k generalizing i p with
  | zero =>
    have hp : (s.entry h).mappedPort ≠ p := fun heq => hne heq.symm
    rw [pickPort, if_neg hp, hm]
    rfl
  | succ k ih =>
    have hp : (s.entry h).mappedPort = p := (hall 0 (Nat.succ_pos k)).symm
    have hrec := ih (i := i + 1) (p := increaseMappedPort (rand i)) (by rwa [candidates_shift])
      (fun l hl => by rw [candidates_shift]; exact hall (l + 1) (by omega))
    rw [pickPort, if_pos hp, hh, hrec, candidates_shift, Nat.add_right_comm, Nat.add_assoc]

/-! ## A new mapping -/

section

variable {q next : Port}

theorem add_flowOf_self (s : Addrmap W) : (s.add now m flow q next).flowOf m = flow := by
  simp [flowOf, add]

theorem add_port_self (s : Addrmap W) : (s.add now m flow q next).port m = q := by
  simp [port, add]

theorem add_flowOf_of_ne {e : ℕ} (s : Addrmap W) (h : e ≠ m) :
    (s.add now m flow q next).flowOf e = s.flowOf e := by
  simp [flowOf, add, h]

theorem add_port_of_ne {e : ℕ} (s : Addrmap W) (h : e ≠ m) :
    (s.add now m flow q next).port e = s.port e := by
  simp [port, add, h]

theorem mem_add {e : ℕ} (s : Addrmap W) :
    e ∈ (s.add now m flow q next).entrylist ↔ e ∈ s.entrylist ∨ e = m := by
  rw [add, mem_append, mem_singleton]

theorem Room.add (h : Room n s m) : Ok n (s.add now m flow q next) := by
  refine ⟨h.inUse.perm (perm_append_singleton m s.entrylist).symm, fun e he => h.next e ?_⟩
  exact fun hmem => he ((mem_add s).mpr (.inl hmem))

theorem Room.ne (h : Room n s m) {e : ℕ} (he : e ∈ s.entrylist) : e ≠ m :=
  fun heq => h.not_mem (heq ▸ he)

/-- The ports are unique with the new mapping exactly if its port is free. -/
theorem Room.portsUnique_add (h : Room n s m) (hs : s.PortsUnique) :
    (s.add now m flow q next).PortsUnique ↔
      ∀ e ∈ s.entrylist, (s.flowOf e).protocol = flow.protocol → s.port e ≠ q := by
  constructor
  · intro hadd e he hproto hport
    refine h.ne he (hadd e ((mem_add s).mpr (.inl he)) m ((mem_add s).mpr (.inr rfl)) ?_ ?_)
    · rw [add_flowOf_of_ne s (h.ne he), add_flowOf_self, hproto]
    · rw [add_port_of_ne s (h.ne he), add_port_self, hport]
  · intro hfree e hmem e' hmem' hproto hport
    rcases (mem_add s).mp hmem with he | rfl <;> rcases (mem_add s).mp hmem' with he' | rfl
    · rw [add_flowOf_of_ne s (h.ne he), add_flowOf_of_ne s (h.ne he')] at hproto
      rw [add_port_of_ne s (h.ne he), add_port_of_ne s (h.ne he')] at hport
      exact hs e he e' he' hproto hport
    · rw [add_flowOf_of_ne s (h.ne he), add_flowOf_self] at hproto
      rw [add_port_of_ne s (h.ne he), add_port_self] at hport
      exact absurd hport (hfree e he hproto)
    · rw [add_flowOf_self, add_flowOf_of_ne s (h.ne he')] at hproto
      rw [add_port_self, add_port_of_ne s (h.ne he')] at hport
      exact absurd hport.symm (hfree e' he' hproto.symm)
    · rfl

theorem Room.flowsUnique_add (h : Room n s m) (hs : s.FlowsUnique)
    (hnew : ∀ e ∈ s.entrylist, s.flowOf e ≠ flow) :
    (s.add now m flow q next).FlowsUnique := by
  intro e hmem e' hmem' hflow
  rcases (mem_add s).mp hmem with he | rfl <;> rcases (mem_add s).mp hmem' with he' | rfl
  · rw [add_flowOf_of_ne s (h.ne he), add_flowOf_of_ne s (h.ne he')] at hflow
    exact hs e he e' he' hflow
  · rw [add_flowOf_of_ne s (h.ne he), add_flowOf_self] at hflow
    exact absurd hflow (hnew e he)
  · rw [add_flowOf_self, add_flowOf_of_ne s (h.ne he')] at hflow
    exact absurd hflow.symm (hnew e' he')
  · rfl

end

/-- The port that the search ends with. -/
def Picks (s : Addrmap W) (rand : ℕ → BitVec 16) (q : Port) : Prop :=
  ∀ h, s.entrylist.head? = some h → ∃ k, q = candidates s.mappedPort rand k ∧ q ≠ s.port h ∧
    ∀ l < k, candidates s.mappedPort rand l = s.port h

/-- The port is free exactly if the search finds one that is. -/
theorem Picks.free_iff {q : Port} (h : s.Picks rand q) {protocol : BitVec 8} :
    (∀ e ∈ s.entrylist, (s.flowOf e).protocol = protocol → s.port e ≠ q) ↔
      s.FindsFree protocol rand := by
  constructor
  · intro hfree hd hhd
    have ⟨k, hq, hne, hall⟩ := h hd hhd
    rw [hq] at hne hfree
    exact ⟨k, hall, hne, hfree⟩
  · intro hfinds e he
    cases hhd : s.entrylist.head? with
    | none => rw [head?_eq_none_iff.mp hhd] at he; cases he
    | some hd =>
      have ⟨k, hq, hne, hall⟩ := h hd hhd
      have ⟨k', hall', hne', hfree⟩ := hfinds hd hhd
      have hk : k = k' := by
        rcases Nat.lt_trichotomy k k' with hlt | heq | hgt
        · exact absurd (hq.trans (hall' k hlt)) hne
        · exact heq
        · exact absurd (hall k' hgt) hne'
      rw [hq, hk]
      exact hfree e he

/-- **What a creation does**: mappings have gone, and where there is room the new one is added with
the port of the search. -/
inductive Created (n : ℕ) (now : BitVec W) (s : Addrmap W) (flow : Flow) (rand : ℕ → BitVec 16) :
    Addrmap W → Option ℕ → Prop
  | full {t : Addrmap W} : (s.checkAge now).allocate n now = (t, none) →
      Shrinks (s.checkAge now) t → Ok n t → Created n now s flow rand t none
  | added {u : Addrmap W} {m : ℕ} {q next : Port} : (s.checkAge now).allocate n now = (u, some m) →
      Shrinks (s.checkAge now) u → Room n u m → u.Picks rand q →
        Created n now s flow rand (u.add now m flow q next) (some m)

theorem Ok.created {fuel : ℕ} {r : Option ℕ} (h : Ok n s)
    (hcreate : s.ip64AddrmapCreate n now flow rand fuel = some (t, r)) :
    Created n now s flow rand t r := by
  rw [ip64AddrmapCreate] at hcreate
  split at hcreate
  · rename_i u halloc
    cases hcreate
    have ⟨hshrinks, hok⟩ := h.checkAge.allocate_none halloc
    exact .full halloc hshrinks hok
  · rename_i u m halloc
    have ⟨hshrinks, hroom⟩ := h.checkAge.allocate_some halloc
    split at hcreate
    · cases hcreate
    · rename_i q i hpick
      cases hcreate
      refine .added halloc hshrinks hroom fun hd hhd => ?_
      rw [hhd] at hpick
      have ⟨k, hq, hne, hall⟩ := pickPort_spec hroom.listItemNext hhd hpick
      simp only [Nat.zero_add] at hq hall
      exact ⟨k, hq, hne, hall⟩

/-- A creation returns where the search finds a free port. -/
theorem Ok.exists_create (h : Ok n s) (hfree : s.CreatesFree n now flow.protocol rand) :
    ∃ fuel t r, s.ip64AddrmapCreate n now flow rand fuel = some (t, r) := by
  rcases halloc : (s.checkAge now).allocate n now with ⟨u, _ | m⟩
  · exact ⟨0, u, none, by rw [ip64AddrmapCreate, halloc]⟩
  · have hroom := (h.checkAge.allocate_some halloc).2
    cases hhd : u.entrylist.head? with
    | none =>
      refine ⟨1, u.add now m flow u.mappedPort (increaseMappedPort (rand 0)), some m, ?_⟩
      rw [ip64AddrmapCreate, halloc]
      simp only [hhd, pickPort]
    | some hd =>
      have ⟨k, hall, hne, _⟩ := hfree u m halloc hd hhd
      have hzero : (fun l => rand (0 + l)) = rand := by simp
      have hpick := exists_pickPort rand (i := 0) (p := u.mappedPort)
        hroom.listItemNext hhd (by rwa [hzero]) (by rwa [hzero])
      refine ⟨k + 2, u.add now m flow (candidates u.mappedPort rand k)
        (increaseMappedPort (rand k)), some m, ?_⟩
      rw [ip64AddrmapCreate, halloc]
      simp only [hhd, hpick, Nat.zero_add]

/-- **Exactly when a creation is right**: it returns and every port is that of one mapping if and
only if the search finds a port that is free. -/
theorem Ok.create_iff (h : Ok n s) (hs : s.PortsUnique) :
    (∃ fuel t r, s.ip64AddrmapCreate n now flow rand fuel = some (t, r) ∧ t.PortsUnique) ↔
      s.CreatesFree n now flow.protocol rand := by
  constructor
  · intro ⟨fuel, t, r, hcreate, ht⟩ u m halloc
    cases h.created hcreate with
    | full halloc' =>
      rw [halloc] at halloc'
      cases halloc'
    | added halloc' hshrinks hroom hpicks =>
      rw [halloc] at halloc'
      cases halloc'
      exact hpicks.free_iff.mp
        ((hroom.portsUnique_add ((shrinks_checkAge.trans hshrinks).portsUnique hs)).mp ht)
  · intro hfree
    have ⟨fuel, t, r, hcreate⟩ := h.exists_create hfree
    refine ⟨fuel, t, r, hcreate, ?_⟩
    cases h.created hcreate with
    | full _ hshrinks _ => exact (shrinks_checkAge.trans hshrinks).portsUnique hs
    | added halloc hshrinks hroom hpicks =>
      exact (hroom.portsUnique_add ((shrinks_checkAge.trans hshrinks).portsUnique hs)).mpr
        (hpicks.free_iff.mpr (hfree _ _ halloc))

/-- The port that is tried first is free. -/
theorem createsFree_of_forall {protocol : BitVec 8}
    (h : ∀ e ∈ ((s.checkAge now).allocate n now).1.entrylist,
      ((s.checkAge now).allocate n now).1.port e ≠
        ((s.checkAge now).allocate n now).1.mappedPort) :
    s.CreatesFree n now protocol rand := by
  intro t m halloc hd hhd
  rw [halloc] at h
  refine ⟨0, fun j hj => absurd hj (Nat.not_lt_zero j), ?_, fun e he _ => h e he⟩
  exact (h hd (List.mem_of_mem_head? hhd)).symm

/-! ## Lookups -/

variable {protocol : BitVec 8} {q : Port}

/-- A lookup that finds nothing. -/
theorem lookup_none (h : s.ip64AddrmapLookup now flow = (t, none)) :
    t = s.checkAge now ∧ ∀ e ∈ t.entrylist, t.flowOf e ≠ flow := by
  rw [ip64AddrmapLookup] at h
  split at h
  · rename_i hnone
    cases h
    refine ⟨rfl, fun e he => ?_⟩
    simpa [flowOf] using List.find?_eq_none.mp hnone e he
  · cases h

/-- A lookup that finds a mapping counts it. -/
theorem lookup_some (h : s.ip64AddrmapLookup now flow = (t, some m)) :
    Shrinks s t ∧ m ∈ t.entrylist ∧ t.flowOf m = flow := by
  rw [ip64AddrmapLookup] at h
  split at h
  · cases h
  · rename_i m' hsome
    cases h
    have hflow : ((s.checkAge now).entry m).flow = flow := by
      simpa using List.find?_some hsome
    refine ⟨shrinks_checkAge.trans (shrinks_write rfl rfl), List.mem_of_find?_eq_some hsome, ?_⟩
    rw [flowOf, write_entry_self, hflow]

theorem Ok.lookup (h : Ok n s) : Ok n (s.ip64AddrmapLookup now flow).1 := by
  rw [ip64AddrmapLookup]
  split
  · exact h.checkAge
  · exact h.checkAge.write _ _

theorem shrinks_lookup : Shrinks s (s.ip64AddrmapLookup now flow).1 := by
  rcases hlookup : s.ip64AddrmapLookup now flow with ⟨t, _ | m⟩
  · rw [(lookup_none hlookup).1]
    exact shrinks_checkAge
  · exact (lookup_some hlookup).1

theorem lookupPort_some (h : s.ip64AddrmapLookupPort now q protocol = (t, some m)) :
    m ∈ t.entrylist ∧ t.port m = q ∧ (t.flowOf m).protocol = protocol := by
  rw [ip64AddrmapLookupPort] at h
  split at h
  · cases h
  · rename_i m' hsome
    cases h
    have hfound : ((s.checkAge now).entry m).mappedPort = q ∧
        ((s.checkAge now).entry m).flow.protocol = protocol := by
      simpa using List.find?_some hsome
    refine ⟨List.mem_of_find?_eq_some hsome, ?_, ?_⟩
    · rw [port, write_entry_self, hfound.1]
    · rw [flowOf, write_entry_self, hfound.2]

theorem shrinks_lookupPort : Shrinks s (s.ip64AddrmapLookupPort now q protocol).1 := by
  rw [ip64AddrmapLookupPort]
  split
  · exact shrinks_checkAge
  · exact shrinks_checkAge.trans (shrinks_write rfl rfl)

theorem Ok.lookupPort (h : Ok n s) : Ok n (s.ip64AddrmapLookupPort now q protocol).1 := by
  rw [ip64AddrmapLookupPort]
  split
  · exact h.checkAge
  · exact h.checkAge.write _ _

theorem shrinks_setLifetime (time : BitVec W) : Shrinks s (s.setLifetime now m time) :=
  shrinks_write rfl rfl

theorem shrinks_setRecycleble : Shrinks s (s.setRecycleble m) := shrinks_write rfl rfl

variable (cfg : Ip64Config) (p : Outgoing)

theorem shrinks_send : Shrinks s (s.send cfg now m p).1 := by
  rw [send]
  split
  · exact (shrinks_setLifetime _).trans shrinks_setRecycleble
  · exact shrinks_setLifetime _

theorem Ok.send (h : Ok n s) : Ok n (s.send cfg now m p).1 := by
  rw [Addrmap.send]
  split
  · exact (h.write _ _).write _ _
  · exact h.write _ _

theorem send_entrylist : (s.send cfg now m p).1.entrylist = s.entrylist := by
  rw [send]
  split <;> rfl

theorem send_port : (s.send cfg now m p).2 = .mapped ((s.send cfg now m p).1.port m) := by
  rw [send, port]

end Addrmap

/-! ## Runs -/

open Addrmap

section

variable {s t : Addrmap W} {cfg : Ip64Config} {w w' : World W} {es : List (AddrmapEvent W)}

/-- The mappings are in order, and the port of each has last been given to its node. -/
structure WorldOk (n : ℕ) (w : World W) : Prop where
  ok : Ok n w.map
  ports : w.map.PortsUnique
  given : ∀ e ∈ w.map.entrylist, w.lastGiven (w.map.port e) (w.map.flowOf e).protocol =
    some ((w.map.flowOf e).ip6addr, (w.map.flowOf e).ip6port)

theorem WorldOk.init : WorldOk n (World.init : World W) where
  ok := ⟨.nil n, fun _ _ => rfl⟩
  ports _ he := absurd he (not_mem_nil)
  given _ he := absurd he (not_mem_nil)

theorem WorldOk.shrinks (h : WorldOk n w) (hshrinks : Shrinks w.map t) (ht : Ok n t) :
    WorldOk n ⟨t, w.given⟩ := by
  refine ⟨ht, hshrinks.portsUnique h.ports, fun e he => ?_⟩
  show w.lastGiven (t.port e) (t.flowOf e).protocol = _
  rw [hshrinks.flow e he, hshrinks.port e he]
  exact h.given e (hshrinks.mem e he)

/-- A port is given: it is that of no other mapping of the protocol. -/
theorem WorldOk.give (h : WorldOk n w) (ht : Ok n t) (hports : t.PortsUnique)
    (hm : m ∈ t.entrylist)
    (hold : ∀ e ∈ t.entrylist, e ≠ m → e ∈ w.map.entrylist ∧ t.flowOf e = w.map.flowOf e ∧
      t.port e = w.map.port e) : WorldOk n (.give t w.given m) := by
  refine ⟨ht, hports, fun e he => ?_⟩
  by_cases hem : e = m
  · simp [World.lastGiven, World.give, hem, port, flowOf]
  · have ⟨hmem, hflow, hport⟩ := hold e he hem
    have hskip : ¬(t.port m = t.port e ∧ (t.flowOf m).protocol = (t.flowOf e).protocol) :=
      fun heq => hem (hports e he m hm heq.2.symm heq.1.symm)
    have hgiven := h.given e hmem
    rw [World.lastGiven] at hgiven ⊢
    rw [World.give, List.find?_cons_of_neg (by rw [decide_eq_true_eq]; exact hskip)]
    show (w.given.find? fun g => g.port = t.port e ∧ g.flow.protocol = (t.flowOf e).protocol).map _
      = some ((t.flowOf e).ip6addr, (t.flowOf e).ip6port)
    rw [hflow, hport]
    exact hgiven

/-- The search of a creation finds a port that is free. -/
def PicksFree (cfg : Ip64Config) (w : World W) : AddrmapEvent W → Prop
  | .create now flow rand _ => w.map.CreatesFree cfg.numEntries now flow.protocol rand
  | .outgoing now p rand _ =>
    (p.flow.protocol = ipProtoUdp ∨ p.flow.protocol = ipProtoTcp) →
    cfg.outgoingIsSpecial p.flow.ip6port = false → ephemeralPortrange ≤ p.flow.ip6port →
    (w.map.ip64AddrmapLookup now p.flow).2 = none →
    (w.map.ip64AddrmapLookup now p.flow).1.CreatesFree cfg.numEntries now p.flow.protocol rand
  | _ => True

/-- A mapping is created where the lookup has found none. -/
def AfterLookup (w : World W) : AddrmapEvent W → Prop
  | .create now flow _ _ => (w.map.ip64AddrmapLookup now flow).2 = none
  | _ => True

/-- A new mapping has a port of its own. -/
theorem WorldOk.created {s : Addrmap W} {flow : Flow} {rand : ℕ → BitVec 16} {fuel : ℕ}
    {r : Option ℕ} (h : WorldOk n w) (hs : Shrinks w.map s) (hok : Ok n s)
    (hfree : s.CreatesFree n now flow.protocol rand)
    (hcreate : s.ip64AddrmapCreate n now flow rand fuel = some (t, r)) :
    match r with
    | none => WorldOk n ⟨t, w.given⟩
    | some m => WorldOk n (.give t w.given m) ∧ m ∈ t.entrylist ∧ t.flowOf m = flow := by
  cases hok.created hcreate with
  | full _ hshrinks ht => exact h.shrinks (hs.trans (shrinks_checkAge.trans hshrinks)) ht
  | @added u m q next halloc hshrinks hroom hpicks =>
    have hu := hs.trans (shrinks_checkAge.trans hshrinks)
    have hports : (u.add now m flow q next).PortsUnique :=
      (hroom.portsUnique_add (hu.portsUnique h.ports)).mpr (hpicks.free_iff.mpr (hfree _ _ halloc))
    have hm : m ∈ (u.add now m flow q next).entrylist := (mem_add u).mpr (.inr rfl)
    refine ⟨h.give hroom.add hports hm fun e he hem => ?_, hm, add_flowOf_self u⟩
    have hmem := ((mem_add u).mp he).resolve_right hem
    rw [add_flowOf_of_ne u hem, add_port_of_ne u hem]
    exact ⟨hu.mem e hmem, hu.flow e hmem, hu.port e hmem⟩

/-- A packet goes out with the port of a mapping. -/
theorem WorldOk.send {p : Outgoing} (h : WorldOk n (.give s w.given m)) (hm : m ∈ s.entrylist)
    (hflow : s.flowOf m = p.flow) :
    WorldOk n ⟨(s.send cfg now m p).1,
      ⟨(s.send cfg now m p).1.port m, p.flow⟩ :: w.given⟩ := by
  have hshrinks : Shrinks s (s.send cfg now m p).1 := shrinks_send cfg p
  have hm' : m ∈ (s.send cfg now m p).1.entrylist := by rwa [send_entrylist]
  have hport := hshrinks.port m hm'
  rw [hport, ← hflow]
  exact h.shrinks hshrinks (h.ok.send cfg p)

/-- How a packet is translated that goes through the table. -/
inductive Translated (cfg : Ip64Config) (now : BitVec W) (s : Addrmap W) (p : Outgoing)
    (rand : ℕ → BitVec 16) (fuel : ℕ) : Addrmap W → SourcePort → Prop
  | plain {port : Port} : Translated cfg now s p rand fuel s (.plain port)
  | found {t : Addrmap W} {m : ℕ} : s.ip64AddrmapLookup now p.flow = (t, some m) →
      Translated cfg now s p rand fuel (t.send cfg now m p).1 (t.send cfg now m p).2
  | failed {t u : Addrmap W} : s.ip64AddrmapLookup now p.flow = (t, none) →
      t.CreatesFree cfg.numEntries now p.flow.protocol rand →
      t.ip64AddrmapCreate cfg.numEntries now p.flow rand fuel = some (u, none) →
      Translated cfg now s p rand fuel u .dropped
  | created {t u : Addrmap W} {m : ℕ} : s.ip64AddrmapLookup now p.flow = (t, none) →
      t.CreatesFree cfg.numEntries now p.flow.protocol rand →
      t.ip64AddrmapCreate cfg.numEntries now p.flow rand fuel = some (u, some m) →
      Translated cfg now s p rand fuel (u.send cfg now m p).1 (u.send cfg now m p).2

theorem translated {p : Outgoing} {rand : ℕ → BitVec 16} {fuel : ℕ} {r : SourcePort}
    (hfree : PicksFree cfg w (.outgoing now p rand fuel))
    (h : ip646to4 cfg now w.map p rand fuel = some (t, r)) :
    Translated cfg now w.map p rand fuel t r := by
  rw [ip646to4] at h
  split at h
  · rename_i hproto
    split at h
    · cases h; exact .plain
    · rename_i hspecial
      split at h
      · rename_i hport
        have hcreates := hfree hproto (Bool.eq_false_iff.mpr hspecial) hport
        split at h
        · rename_i u m hlookup
          cases h
          exact .found hlookup
        · rename_i u hlookup
          rw [hlookup] at hcreates
          split at h
          · cases h
          · rename_i v hcreate
            cases h
            exact .failed hlookup (hcreates rfl) hcreate
          · rename_i v m hcreate
            cases h
            exact .created hlookup (hcreates rfl) hcreate
      · cases h; exact .plain
  · cases h; exact .plain

/-- A mapping that a lookup finds gives its port again. -/
theorem WorldOk.found {flow : Flow} (h : WorldOk n w)
    (hlookup : w.map.ip64AddrmapLookup now flow = (t, some m)) :
    WorldOk n (.give t w.given m) := by
  have ⟨hshrinks, hm, _⟩ := lookup_some hlookup
  have ht : Ok n t := by
    have hok : Ok n (w.map.ip64AddrmapLookup now flow).1 := h.ok.lookup
    rwa [hlookup] at hok
  exact h.give ht (hshrinks.portsUnique h.ports) hm fun e he _ =>
    ⟨hshrinks.mem e he, hshrinks.flow e he, hshrinks.port e he⟩

/-- **A step along the condition** keeps the mappings in order. -/
theorem WorldOk.step {e : AddrmapEvent W} (h : WorldOk cfg.numEntries w)
    (hfree : PicksFree cfg w e) (hstep : w.step cfg e = some w') : WorldOk cfg.numEntries w' := by
  cases e with
  | create now flow rand fuel =>
    rw [World.step] at hstep
    split at hstep
    · cases hstep
    · rename_i t hcreate
      cases hstep
      exact h.created (.refl _) h.ok hfree hcreate
    · rename_i t m hcreate
      cases hstep
      exact (h.created (.refl _) h.ok hfree hcreate).1
  | lookup now flow => cases hstep; exact h.shrinks shrinks_lookup h.ok.lookup
  | lookupPort now q protocol => cases hstep; exact h.shrinks shrinks_lookupPort h.ok.lookupPort
  | setLifetime now m time =>
    cases hstep; exact h.shrinks (shrinks_setLifetime time) (h.ok.write _ _)
  | setRecycleble m => cases hstep; exact h.shrinks shrinks_setRecycleble (h.ok.write _ _)
  | incoming now destport proto =>
    cases hstep
    rw [ip644to6]
    split
    · exact h
    split
    · split <;> exact h
    · have hlookup : WorldOk _ ⟨(w.map.ip64AddrmapLookupPort now destport proto).1, w.given⟩ :=
        h.shrinks shrinks_lookupPort h.ok.lookupPort
      split <;> (rename_i hfound; rw [hfound] at hlookup; exact hlookup)
  | outgoing now p rand fuel =>
    rw [World.step] at hstep
    cases hsent : ip646to4 cfg now w.map p rand fuel with
    | none => simp [hsent] at hstep
    | some r =>
      have ⟨t, r⟩ := r
      simp only [hsent] at hstep
      have hshrinks : Shrinks w.map (w.map.ip64AddrmapLookup now p.flow).1 := shrinks_lookup
      have hok : Ok cfg.numEntries (w.map.ip64AddrmapLookup now p.flow).1 := h.ok.lookup
      cases translated hfree hsent with
      | plain => cases hstep; exact h
      | found hlookup =>
        have ⟨_, hm, hflow⟩ := lookup_some hlookup
        rw [send_port] at hstep
        cases hstep
        exact (h.found hlookup).send hm hflow
      | failed hlookup hcreates hcreate =>
        cases hstep
        rw [hlookup] at hshrinks hok
        exact h.created hshrinks hok hcreates hcreate
      | created hlookup hcreates hcreate =>
        rw [hlookup] at hshrinks hok
        have ⟨hgive, hm, hflow⟩ := h.created hshrinks hok hcreates hcreate
        rw [send_port] at hstep
        cases hstep
        exact hgive.send hm hflow

/-- A flow gets a mapping only where it has none. -/
theorem flowsUnique_created {flow : Flow} {rand : ℕ → BitVec 16} {fuel : ℕ} {r : Option ℕ}
    (hok : Ok n s) (hs : s.FlowsUnique)
    (hnew : ∀ e ∈ (s.checkAge now).entrylist, (s.checkAge now).flowOf e ≠ flow)
    (hcreate : s.ip64AddrmapCreate n now flow rand fuel = some (t, r)) : t.FlowsUnique := by
  cases hok.created hcreate with
  | full _ hshrinks _ => exact (shrinks_checkAge.trans hshrinks).flowsUnique hs
  | added halloc hshrinks hroom hpicks =>
    refine hroom.flowsUnique_add ((shrinks_checkAge.trans hshrinks).flowsUnique hs) fun e he => ?_
    rw [hshrinks.flow e he]
    exact hnew e (hshrinks.mem e he)

/-- A lookup that has failed: the flow has no mapping, now or later. -/
theorem not_flow_of_lookup {flow : Flow} (hlookup : s.ip64AddrmapLookup now flow = (t, none)) :
    ∀ e ∈ (t.checkAge now).entrylist, (t.checkAge now).flowOf e ≠ flow := by
  have ⟨_, hnew⟩ := lookup_none hlookup
  have hage : Shrinks t (t.checkAge now) := shrinks_checkAge
  intro e he
  rw [hage.flow e he]
  exact hnew e (hage.mem e he)

/-- **A step after failed lookups** keeps one mapping for a flow. -/
theorem flowsUnique_step {e : AddrmapEvent W} (h : WorldOk cfg.numEntries w)
    (hs : w.map.FlowsUnique) (hfree : PicksFree cfg w e) (hafter : AfterLookup w e)
    (hstep : w.step cfg e = some w') : w'.map.FlowsUnique := by
  cases e with
  | create now flow rand fuel =>
    have hnew : ∀ e ∈ (w.map.checkAge now).entrylist, (w.map.checkAge now).flowOf e ≠ flow := by
      rcases hlookup : w.map.ip64AddrmapLookup now flow with ⟨t, _ | m⟩
      · have ⟨ht, hnew⟩ := lookup_none hlookup
        rwa [ht] at hnew
      · rw [AfterLookup, hlookup] at hafter
        cases hafter
    rw [World.step] at hstep
    split at hstep
    · cases hstep
    · rename_i t hcreate
      cases hstep
      exact flowsUnique_created h.ok hs hnew hcreate
    · rename_i t m hcreate
      cases hstep
      exact flowsUnique_created h.ok hs hnew hcreate
  | lookup now flow => cases hstep; exact shrinks_lookup.flowsUnique hs
  | lookupPort now q protocol => cases hstep; exact shrinks_lookupPort.flowsUnique hs
  | setLifetime now m time => cases hstep; exact (shrinks_setLifetime time).flowsUnique hs
  | setRecycleble m => cases hstep; exact shrinks_setRecycleble.flowsUnique hs
  | incoming now destport proto =>
    cases hstep
    rw [ip644to6]
    split
    · exact hs
    split
    · split <;> exact hs
    · have hlookup : (w.map.ip64AddrmapLookupPort now destport proto).1.FlowsUnique :=
        shrinks_lookupPort.flowsUnique hs
      split <;> (rename_i hfound; rw [hfound] at hlookup; exact hlookup)
  | outgoing now p rand fuel =>
    rw [World.step] at hstep
    cases hsent : ip646to4 cfg now w.map p rand fuel with
    | none => simp [hsent] at hstep
    | some r =>
      have ⟨t, r⟩ := r
      simp only [hsent] at hstep
      have hmap : w'.map = t := by
        cases r <;> (cases hstep; rfl)
      rw [hmap]
      have hlooked : (w.map.ip64AddrmapLookup now p.flow).1.FlowsUnique :=
        shrinks_lookup.flowsUnique hs
      have hok : Ok cfg.numEntries (w.map.ip64AddrmapLookup now p.flow).1 := h.ok.lookup
      cases translated hfree hsent with
      | plain => exact hs
      | found hlookup =>
        rw [hlookup] at hlooked
        exact (shrinks_send cfg p).flowsUnique hlooked
      | failed hlookup hcreates hcreate =>
        rw [hlookup] at hlooked hok
        exact flowsUnique_created hok hlooked (not_flow_of_lookup hlookup) hcreate
      | created hlookup hcreates hcreate =>
        rw [hlookup] at hlooked hok
        exact (shrinks_send cfg p).flowsUnique
          (flowsUnique_created hok hlooked (not_flow_of_lookup hlookup) hcreate)

/-- A packet that is translated through the table goes where its port has been given last. -/
theorem WorldOk.lastGiven (h : WorldOk n w) {destport port : Port} {proto : BitVec 8}
    {ip6addr : BitVec 128}
    (hmapped : (ip644to6 cfg now w.map destport proto).2 = .mapped ip6addr port) :
    w.lastGiven destport proto = some (ip6addr, port) := by
  rw [ip644to6] at hmapped
  split at hmapped
  · cases hmapped
  split at hmapped
  · split at hmapped <;> cases hmapped
  · split at hmapped
    · cases hmapped
    · rename_i t m hlookup
      cases hmapped
      have ⟨hm, hport, hproto⟩ := lookupPort_some hlookup
      have hkeeps : WorldOk _ ⟨(w.map.ip64AddrmapLookupPort now destport proto).1, w.given⟩ :=
        h.shrinks shrinks_lookupPort h.ok.lookupPort
      rw [hlookup] at hkeeps
      have hgiven := hkeeps.given m hm
      rwa [hport, hproto] at hgiven

/-- **The mapped ports**: along searches that find a free port, every mapping of a protocol has its
own port, a flow has one mapping if one is created only after a failed lookup, and a packet that is
translated through the table goes to the node that its port has been given to last. A creation
returns with unique ports exactly if its search finds a free one. -/
theorem mappedPorts_unique {es : List (AddrmapEvent W)}
    (hrun : run (World.step cfg) World.init es = some w)
    (hfree : Along (World.step cfg) (PicksFree cfg) World.init es) :
    w.map.PortsUnique ∧
    (Along (World.step cfg) AfterLookup World.init es → w.map.FlowsUnique) ∧
    (∀ now destport proto ip6addr port,
      (ip644to6 cfg now w.map destport proto).2 = .mapped ip6addr port →
        w.lastGiven destport proto = some (ip6addr, port)) ∧
    ∀ now flow rand,
      (∃ fuel t r, w.map.ip64AddrmapCreate cfg.numEntries now flow rand fuel = some (t, r) ∧
        t.PortsUnique) ↔ w.map.CreatesFree cfg.numEntries now flow.protocol rand := by
  have hw : WorldOk cfg.numEntries w :=
    run_induction (WorldOk cfg.numEntries) (fun _ _ _ hP h hstep => h.step hP hstep)
      .init hfree hrun
  refine ⟨hw.ports, fun hafter => ?_, fun _ _ _ _ _ h => hw.lastGiven h,
    fun _ _ _ => hw.ok.create_iff hw.ports⟩
  have hboth : Along (World.step cfg) (fun w e => PicksFree cfg w e ∧ AfterLookup w e)
      World.init es := along_and.mpr ⟨hfree, hafter⟩
  have hinv := run_induction (fun w => WorldOk cfg.numEntries w ∧ w.map.FlowsUnique)
    (fun _ _ _ hP h hstep => ⟨h.1.step hP.1 hstep, flowsUnique_step h.1 h.2 hP.1 hP.2 hstep⟩)
    ⟨.init, fun _ he => absurd he List.not_mem_nil⟩ hboth hrun
  exact hinv.2

/-! ## Three nodes -/

/-- The default configuration, without special ports. -/
def ip64Defaults : Ip64Config where
  numEntries := 32
  clockSecond := 128
  outgoingIsSpecial _ := false
  translateOutgoing _ _ := none
  incomingIsSpecial _ := false
  translateIncoming _ := none

/-- A datagram of a node to one host; all the numbers drawn are `r`. -/
def datagramOf (node : BitVec 128) (r : BitVec 16) : AddrmapEvent 32 :=
  .outgoing 0 ⟨⟨node, 5000, 0x0a000001, 4000, ipProtoUdp⟩, 0⟩ (fun _ => r) 2

/-- The mappings after a run. -/
def worldAfter (es : List (AddrmapEvent 32)) : World 32 :=
  (run (World.step ip64Defaults) World.init es).getD World.init

theorem run_worldAfter (es : List (AddrmapEvent 32))
    (h : (run (World.step ip64Defaults) World.init es).isSome) :
    run (World.step ip64Defaults) World.init es = some (worldAfter es) := by
  have ⟨w, hw⟩ := Option.isSome_iff_exists.mp h
  rw [worldAfter, hw, Option.getD_some]

/-- The mappings of two nodes, with the ports 10000 and 10001. -/
theorem mappedPorts_twoNodes :
    (worldAfter [datagramOf 1 1, datagramOf 2 2]).map.PortsUnique ∧
      (worldAfter [datagramOf 1 1, datagramOf 2 2]).map.FlowsUnique ∧
      (worldAfter [datagramOf 1 1, datagramOf 2 2]).lastGiven 10001 ipProtoUdp =
        some (2, 5000) := by
  have hfirst : World.step ip64Defaults World.init (datagramOf 1 1) =
      some (worldAfter [datagramOf 1 1]) := by
    have hrun := run_worldAfter [datagramOf 1 1] (by decide +kernel)
    have ⟨w, hw, hnil⟩ := run_cons_eq_some.mp hrun
    exact hw.trans hnil
  have h := mappedPorts_unique (run_worldAfter [datagramOf 1 1, datagramOf 2 2]
      (by decide +kernel)) ((along_cons hfirst).mpr
    ⟨fun _ _ _ _ => createsFree_of_forall (by decide +kernel),
      fun _ _ _ _ => createsFree_of_forall (by decide +kernel), by split <;> trivial⟩)
  have hafter : Along (World.step ip64Defaults) AfterLookup World.init
      [datagramOf 1 1, datagramOf 2 2] :=
    (along_cons hfirst).mpr ⟨trivial, trivial, by split <;> trivial⟩
  exact ⟨h.1, h.2.1 hafter, h.2.2.1 0 _ _ _ _ (by decide +kernel)⟩

/-- **A port of two mappings**: the third node gets the port of the second, as only the port of the
first is compared. A packet to that port goes to the second node, while it is the third that the
port has been given to last. -/
theorem mappedPorts_collide :
    let es := [datagramOf 1 1, datagramOf 2 1, datagramOf 3 1]
    run (World.step ip64Defaults) World.init es = some (worldAfter es) ∧
      ¬(worldAfter es).map.PortsUnique ∧
      (ip644to6 ip64Defaults 0 (worldAfter es).map 10001 ipProtoUdp).2 = .mapped 2 5000 ∧
      (worldAfter es).lastGiven 10001 ipProtoUdp = some (3, 5000) := by
  refine ⟨run_worldAfter _ (by decide +kernel), fun h => ?_, by decide +kernel, by decide +kernel⟩
  exact absurd (h 1 (by decide +kernel) 2 (by decide +kernel) (by decide +kernel)
    (by decide +kernel)) (by decide)

end

end Asap.Ip64
