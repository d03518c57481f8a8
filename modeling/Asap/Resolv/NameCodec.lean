import Asap.Lib.Buffer
import Asap.Resolv.Names

/-!
# Names written and read

A host name is written label by label, each behind its length. What is written is skipped, decoded and
compared by loops that go through the labels themselves, and through a pointer to another name.

The room for a name counts down with each character, and the name is refused when there is none left, be
it behind the last character. So a name that just fits into the buffer is not decoded.

## Main definitions

* `encodeName` — a name is written.
* `NameAt` — a name in a packet, with at most one pointer.
* `NameCodecLaw` — what is written of a name is read.

## Main results

* `nameCodecLaw_iff` — the law holds of the names that leave room for one more character.
-/

namespace Asap.Resolv

open Lib List

/-! ## Names that are written -/

/-- The loop of `encode_name`, with the label that is being written. -/
def encodeLabels : List Byte → List Byte → List Byte
  | label, [] => BitVec.ofNat 8 label.length :: label ++ [0]
  | label, c :: name =>
    if c = 46 then BitVec.ofNat 8 label.length :: label ++ encodeLabels [] name
    else encodeLabels (label ++ [c]) name

/-- `encode_name`: what is written for a string. -/
def encodeName (name : List Byte) : List Byte := encodeLabels [] name

/-- A label of a host name. -/
structure IsLabel (l : List Byte) : Prop where
  ne_nil : l ≠ []
  length_lt : l.length < 64
  ne_dot : ∀ c ∈ l, c ≠ 46
  ne_zero : ∀ c ∈ l, c ≠ 0

/-- Labels with dots between them. -/
def hostName : List (List Byte) → List Byte
  | [] => []
  | l :: ls => l ++ if ls = [] then [] else 46 :: hostName ls

/-- A string without the dot at its end. -/
def withoutDot (name : List Byte) : List Byte :=
  if name.getLast? = some 46 then name.dropLast else name

/-- A name in a packet. The flag tells whether it may have a pointer, to a name without one. -/
inductive NameAt (mem : ℕ → Byte) : Bool → ℕ → List (List Byte) → Prop
  | last {compressed : Bool} {pos : ℕ} {l : List Byte} : IsLabel l →
      Holds mem pos (BitVec.ofNat 8 l.length :: l ++ [0]) → NameAt mem compressed pos [l]
  | label {compressed : Bool} {pos : ℕ} {l : List Byte} {ls : List (List Byte)} : IsLabel l →
      Holds mem pos (BitVec.ofNat 8 l.length :: l) →
      NameAt mem compressed (pos + 1 + l.length) ls → NameAt mem compressed pos (l :: ls)
  | pointer {pos : ℕ} {ls : List (List Byte)} : mem pos &&& 0xC0 = 0xC0 →
      NameAt mem false (pointee mem (mem pos) (pos + 1)) ls → NameAt mem true pos ls

variable {mem : ℕ → Byte} {compressed : Bool} {pos start fuel room max : ℕ} {l name rest : List Byte}
  {ls : List (List Byte)}

theorem encodeLabels_append (hl : ∀ c ∈ l, c ≠ 46) (label : List Byte) :
    encodeLabels label (l ++ rest) = encodeLabels (label ++ l) rest := by
  induction l generalizing label with
  | nil => rw [nil_append, append_nil]
  | cons c l ih =>
    rw [cons_append, encodeLabels, if_neg (hl c (mem_cons_self ..)),
      ih fun x hx => hl x (mem_cons_of_mem _ hx), append_assoc, singleton_append]

/-- What is written for a host name. -/
theorem encodeName_hostName (hls : ∀ l ∈ ls, IsLabel l) (hne : ls ≠ []) :
    encodeName (hostName ls) = ls.flatMap (fun l => BitVec.ofNat 8 l.length :: l) ++ [0] := by
  induction ls with
  | nil => exact absurd rfl hne
  | cons l ls ih =>
    have hl := hls l (mem_cons_self ..)
    rw [encodeName, hostName, encodeLabels_append hl.ne_dot, nil_append, flatMap_cons,
      append_assoc]
    by_cases hend : ls = []
    · rw [if_pos hend, hend]
      rfl
    · have ih := ih (fun x hx => hls x (mem_cons_of_mem _ hx)) hend
      rw [if_neg hend, encodeLabels, if_pos rfl, ← ih]
      rfl

theorem nameAt_of_holds (hls : ∀ l ∈ ls, IsLabel l) (hne : ls ≠ [])
    (h : Holds mem pos (encodeName (hostName ls))) : NameAt mem compressed pos ls := by
  rw [encodeName_hostName hls hne] at h
  induction ls generalizing pos with
  | nil => exact absurd rfl hne
  | cons l ls ih =>
    have hl := hls l (mem_cons_self ..)
    by_cases hend : ls = []
    · subst hend
      exact .last hl (by simpa using h)
    · rw [flatMap_cons, append_assoc] at h
      obtain ⟨hlabel, hmore⟩ := holds_append.mp h
      refine .label hl hlabel (ih (fun x hx => hls x (mem_cons_of_mem _ hx)) hend ?_)
      rwa [length_cons, Nat.add_comm l.length 1, ← Nat.add_assoc] at hmore

/-! ## The labels of a name -/

theorem isPointer_eq_false : ∀ n : Byte, n.toNat < 64 → isPointer n = false := by decide

theorem isPointer_of_and : ∀ n : Byte, n &&& 0xC0 = 0xC0 → isPointer n = true ∧ n ≠ 0 := by decide

theorem IsLabel.toNat_length (hl : IsLabel l) : (BitVec.ofNat 8 l.length).toNat = l.length := by
  have hlt := hl.length_lt
  rw [BitVec.toNat_ofNat]
  exact Nat.mod_eq_of_lt (by omega)

theorem IsLabel.length_ne_zero (hl : IsLabel l) : BitVec.ofNat 8 l.length ≠ 0 := by
  intro h
  have hzero := congrArg BitVec.toNat h
  rw [hl.toNat_length] at hzero
  exact hl.ne_nil (length_eq_zero_iff.mp hzero)

/-- What is read first of a name: its first label, and whether there is another one. -/
structure First (mem : ℕ → Byte) (pos : ℕ) (l : List Byte) (ls : List (List Byte)) (start : ℕ) :
    Prop where
  label : IsLabel l
  ne_zero : mem pos ≠ 0
  labelAt : labelAt mem (mem pos) (pos + 1) = (BitVec.ofNat 8 l.length, start)
  holds : Holds mem start l
  next : (ls = [] ∧ mem (start + l.length) = 0) ∨
    (ls ≠ [] ∧ mem (start + l.length) ≠ 0 ∧ ∃ compressed, NameAt mem compressed (start + l.length) ls)

theorem labelAt_of_label (hl : IsLabel l) (h : mem pos = BitVec.ofNat 8 l.length) :
    labelAt mem (mem pos) (pos + 1) = (BitVec.ofNat 8 l.length, pos + 1) := by
  have hplain : isPointer (mem pos) = false := by
    refine isPointer_eq_false _ ?_
    rw [h, hl.toNat_length]
    exact hl.length_lt
  rw [Resolv.labelAt, hplain, h]
  rfl

/-- A name begins with a label, here or behind a pointer. -/
theorem NameAt.first (h : NameAt mem compressed pos ls) :
    ∃ l ls' start, ls = l :: ls' ∧ First mem pos l ls' start := by
  induction h with
  | @last _ pos l hl hholds =>
    obtain ⟨hlength, hmore⟩ := holds_cons.mp hholds
    obtain ⟨hbytes, hzero⟩ := holds_append.mp hmore
    exact ⟨l, [], pos + 1, rfl, hl, hlength ▸ hl.length_ne_zero, labelAt_of_label hl hlength, hbytes,
      .inl ⟨rfl, (holds_cons.mp hzero).1⟩⟩
  | @label compressed pos l ls hl hholds hrest ih =>
    obtain ⟨hlength, hbytes⟩ := holds_cons.mp hholds
    obtain ⟨l', ls', _, hls, hfirst⟩ := ih
    refine ⟨l, ls, pos + 1, rfl, hl, hlength ▸ hl.length_ne_zero, labelAt_of_label hl hlength, hbytes,
      .inr ⟨?_, hfirst.ne_zero, compressed, hrest⟩⟩
    rw [hls]
    exact cons_ne_nil _ _
  | @pointer pos ls hpointer hrest ih =>
    obtain ⟨l, ls', start, hls, hfirst⟩ := ih
    obtain ⟨hpointer, hne⟩ := isPointer_of_and _ hpointer
    refine ⟨l, ls', start, hls, hfirst.label, hne, ?_, hfirst.holds, hfirst.next⟩
    -- behind the pointer there is a label, and not another pointer
    have hplain : isPointer (mem (pointee mem (mem pos) (pos + 1))) = false := by
      cases hrest with
      | last hl hholds =>
        rw [(holds_cons.mp hholds).1]
        exact isPointer_eq_false _ (by rw [hl.toNat_length]; exact hl.length_lt)
      | label hl hholds _ =>
        rw [(holds_cons.mp hholds).1]
        exact isPointer_eq_false _ (by rw [hl.toNat_length]; exact hl.length_lt)
    have hlabel := hfirst.labelAt
    rw [Resolv.labelAt, hplain] at hlabel
    rw [Resolv.labelAt, if_pos hpointer]
    exact hlabel

/-! ## Names that are skipped -/

/-- A name is skipped with all that has been written for it. -/
theorem skipName_encodeName (hls : ∀ l ∈ ls, IsLabel l) (hne : ls ≠ [])
    (h : Holds mem pos (encodeName (hostName ls))) (hfuel : (encodeName (hostName ls)).length ≤ fuel) :
    ∃ reads, skipName mem fuel pos = some (pos + (encodeName (hostName ls)).length, reads) := by
  rw [encodeName_hostName hls hne] at h hfuel ⊢
  induction ls generalizing pos fuel with
  | nil => exact absurd rfl hne
  | cons l ls ih =>
    have hl := hls l (mem_cons_self ..)
    rw [flatMap_cons, append_assoc] at h hfuel ⊢
    obtain ⟨hlabel, hmore⟩ := holds_append.mp h
    have hlength := (holds_cons.mp hlabel).1
    have hplain : isPointer (mem pos) = false := by
      refine isPointer_eq_false _ ?_
      rw [hlength, hl.toNat_length]
      exact hl.length_lt
    have hnext : pos + (BitVec.ofNat 8 l.length :: l).length = pos + 1 + l.length := by
      rw [length_cons]
      omega
    rw [hnext] at hmore
    rw [length_append, length_cons] at hfuel
    obtain ⟨fuel, rfl⟩ : ∃ k, fuel = k + 1 := ⟨fuel - 1, by omega⟩
    rw [skipName, hplain, if_neg Bool.false_ne_true, hlength, hl.toNat_length, length_append,
      ← Nat.add_assoc, hnext]
    by_cases hend : ls = []
    · subst hend
      have hzero : mem (pos + 1 + l.length) = 0 := (holds_cons.mp hmore).1
      simp only [if_pos hzero]
      exact ⟨_, rfl⟩
    · have hls' : ∀ x ∈ ls, IsLabel x := fun x hx => hls x (mem_cons_of_mem _ hx)
      have hname : NameAt mem false (pos + 1 + l.length) ls :=
        nameAt_of_holds hls' hend (by rwa [encodeName_hostName hls' hend])
      obtain ⟨_, _, _, _, hfirst⟩ := hname.first
      obtain ⟨reads, hreads⟩ := ih hls' hend hmore (show _ ≤ fuel by omega)
      simp only [if_neg hfirst.ne_zero, hreads]
      exact ⟨_, rfl⟩

/-! ## Names that are decoded -/

theorem copyLabel_of_lt (h : Holds mem start l) (hroom : l.length < room) :
    copyLabel mem l.length start room = (l, room - l.length) := by
  induction l generalizing start room with
  | nil => rfl
  | cons c l ih =>
    obtain ⟨hc, hl⟩ := holds_cons.mp h
    rw [length_cons] at hroom
    rw [length_cons, copyLabel, if_neg (by omega), ih hl (by omega), hc]
    exact Prod.ext rfl (by simp only; omega)

/-- **A name is decoded** if there is room for it and one more character. -/
theorem decodeLoop_name (h : NameAt mem compressed pos ls) (hfuel : room < fuel) :
    ((decodeLoop mem fuel (mem pos) (pos + 1) room).fits = true ↔ (hostName ls).length < room) ∧
      ((hostName ls).length < room →
        (decodeLoop mem fuel (mem pos) (pos + 1) room).bytes = hostName ls) := by
  induction ls generalizing compressed pos room fuel with
  | nil =>
    obtain ⟨_, _, _, hnil, _⟩ := h.first
    cases hnil
  | cons l ls ih =>
    obtain ⟨_, _, start, hcons, hfirst⟩ := h.first
    obtain ⟨rfl, rfl⟩ := List.cons.inj hcons
    obtain ⟨fuel, rfl⟩ : ∃ k, fuel = k + 1 := ⟨fuel - 1, by omega⟩
    have hlength : (hostName (l :: ls)).length =
        l.length + (if ls = [] then [] else 46 :: hostName ls).length := length_append
    rw [decodeLoop]
    by_cases hroom : room = 0
    · rw [if_pos (.inl hroom), hroom]
      exact ⟨by simp, fun hlt => absurd hlt (Nat.not_lt_zero _)⟩
    rw [if_neg (not_or.mpr ⟨hroom, hfirst.ne_zero⟩), hfirst.labelAt]
    simp only [if_neg hfirst.label.length_ne_zero, hfirst.label.toNat_length]
    by_cases hlt : l.length < room
    · simp only [copyLabel_of_lt hfirst.holds hlt, if_neg (show room - l.length ≠ 0 by omega)]
      rcases hfirst.next with ⟨hend, hzero⟩ | ⟨hmore, hne, compressed', hname⟩
      · obtain ⟨fuel, rfl⟩ : ∃ k, fuel = k + 1 := ⟨fuel - 1, by omega⟩
        have hleft : room - l.length ≠ 0 := by omega
        rw [hlength, if_pos hend, hostName, if_pos hend]
        simp [hzero, decodeLoop, hleft, hlt]
      · rw [hlength, if_neg hmore, hostName, if_neg hmore]
        simp only [if_neg hne, length_cons, length_nil]
        obtain ⟨hfits, hbytes⟩ := @ih compressed' (start + l.length) fuel (room - l.length - 1) hname
          (by omega)
        refine ⟨hfits.trans ⟨fun h => by omega, fun h => by omega⟩, fun h => ?_⟩
        rw [hbytes (by omega), append_assoc]
        rfl
    · have hfull := (@copyLabel_length mem room l.length start (Nat.pos_of_ne_zero hroom)).2
      rw [Nat.min_eq_right (Nat.not_lt.mp hlt), Nat.sub_self] at hfull
      simp only [if_pos hfull]
      exact ⟨by simp; omega, fun h => absurd h (by omega)⟩

theorem decodeName_name (h : NameAt mem compressed pos ls) :
    ((decodeName mem max pos).fits = true ↔ (hostName ls).length < max) ∧
      ((hostName ls).length < max → (decodeName mem max pos).bytes = hostName ls) :=
  decodeLoop_name h (Nat.lt_succ_self max)

/-! ## Names that are compared -/

/-- A string is a name, but for the case of letters and a dot at the end. -/
def SameName (name host : List Byte) : Prop :=
  ∃ s tail, (tail = [] ∨ tail = [46]) ∧ name = s ++ tail ∧ s.map toLower = host.map toLower

theorem toLower_eq_dot : ∀ c : Byte, toLower c = 46 ↔ c = 46 := by decide

/-- A label, and behind a dot the other ones. -/
theorem sameName_label {host : List Byte} : SameName name (l ++ 46 :: host) ↔
    ∃ s rest, name = s ++ 46 :: rest ∧ s.map toLower = l.map toLower ∧ SameName rest host := by
  constructor
  · rintro ⟨s, tail, htail, rfl, hs⟩
    rw [map_append, map_cons, map_eq_append_iff] at hs
    obtain ⟨s₁, s₂, rfl, hs₁, hs₂⟩ := hs
    obtain ⟨c, s₃, rfl, hc, hs₃⟩ := map_eq_cons_iff.mp hs₂
    have hdot : c = 46 := (toLower_eq_dot c).mp (hc.trans ((toLower_eq_dot 46).mpr rfl))
    exact ⟨s₁, s₃ ++ tail, by rw [hdot]; simp, hs₁, s₃, tail, htail, rfl, hs₃⟩
  · rintro ⟨s₁, _, rfl, hs₁, s₂, tail, htail, rfl, hs₂⟩
    exact ⟨s₁ ++ 46 :: s₂, tail, htail, by simp, by simp [hs₁, hs₂]⟩

/-- A label is compared: what is left of the string. -/
theorem equalLabel_eq_some (h : Holds mem start l) :
    (equalLabel mem l.length start name).1 = some rest ↔
      ∃ s, name = s ++ rest ∧ s.map toLower = l.map toLower := by
  induction l generalizing start name with
  | nil =>
    rw [length_nil, equalLabel]
    constructor
    · intro heq
      exact ⟨[], Option.some.inj heq, rfl⟩
    · rintro ⟨s, rfl, hs⟩
      rw [map_eq_nil_iff.mp hs]
      rfl
  | cons c l ih =>
    obtain ⟨hc, hl⟩ := holds_cons.mp h
    rw [length_cons]
    cases name with
    | nil =>
      rw [equalLabel]
      refine iff_of_false (Option.some_ne_none rest).symm ?_
      rintro ⟨s, hs, hmap⟩
      rw [(append_eq_nil_iff.mp hs.symm).1] at hmap
      cases hmap
    | cons x name =>
      rw [equalLabel, hc]
      by_cases hx : toLower x = toLower c
      · rw [if_neg (not_not_intro hx)]
        refine (ih hl).trans ⟨?_, ?_⟩
        · rintro ⟨s, hname, hs⟩
          refine ⟨x :: s, ?_, ?_⟩
          · rw [hname, cons_append]
          · rw [map_cons, map_cons, hx, hs]
        · rintro ⟨s, hname, hs⟩
          obtain ⟨y, s, rfl⟩ : ∃ y s', s = y :: s' :=
            exists_cons_of_ne_nil fun hnil => by simp [hnil] at hs
          exact ⟨s, (List.cons.inj hname).2, (List.cons.inj hs).2⟩
      · rw [if_pos hx]
        refine iff_of_false (Option.some_ne_none rest).symm ?_
        rintro ⟨s, hname, hs⟩
        obtain ⟨y, s, rfl⟩ : ∃ y s', s = y :: s' :=
          exists_cons_of_ne_nil fun hnil => by simp [hnil] at hs
        exact hx ((List.cons.inj hname).1 ▸ (List.cons.inj hs).1)

theorem endsName_iff : endsName rest = true ↔ rest = [] ∨ rest = [46] := by
  match rest with
  | [] => simp [endsName]
  | [c] => simp [endsName]
  | c :: c' :: rest => simp [endsName]

section

variable (h : NameAt mem compressed pos ls)

include h

/-- **A name is compared** label by label, to the same effect. -/
theorem equalLoop_name (hfuel : name.length < fuel) :
    (equalLoop mem fuel (mem pos) (pos + 1) name).1 = true ↔ SameName name (hostName ls) := by
  induction ls generalizing compressed pos name fuel with
  | nil =>
    obtain ⟨_, _, _, hnil, _⟩ := h.first
    cases hnil
  | cons l ls ih =>
    obtain ⟨_, _, start, hcons, hfirst⟩ := h.first
    obtain ⟨rfl, rfl⟩ := List.cons.inj hcons
    obtain ⟨fuel, rfl⟩ : ∃ k, fuel = k + 1 := ⟨fuel - 1, by omega⟩
    have hlabel (rest : List Byte) := @equalLabel_eq_some mem start l name rest hfirst.holds
    have hrest_eq {s s' rest rest' : List Byte} (h : s ++ rest = s' ++ rest')
        (hs : s.map toLower = l.map toLower) (hs' : s'.map toLower = l.map toLower) :
        rest = rest' :=
      (append_inj h (by simpa using congrArg List.length (hs.trans hs'.symm))).2
    rw [equalLoop, if_neg hfirst.ne_zero, hfirst.labelAt]
    simp only [hfirst.label.toNat_length]
    cases hfound : (equalLabel mem l.length start name).1 with
    | none =>
      -- then the string does not begin with the label
      have hnone : ∀ s rest, name = s ++ rest → s.map toLower ≠ l.map toLower :=
        fun s rest hname hs => by cases hfound.symm.trans ((hlabel rest).mpr ⟨s, hname, hs⟩)
      refine iff_of_false Bool.false_ne_true fun hsame => ?_
      by_cases hend : ls = []
      · rw [hostName, if_pos hend, append_nil] at hsame
        obtain ⟨s, tail, _, hname, hs⟩ := hsame
        exact hnone s tail hname hs
      · rw [hostName, if_neg hend, sameName_label] at hsame
        obtain ⟨s, rest, hname, hs, _⟩ := hsame
        exact hnone s _ hname hs
    | some rest =>
      obtain ⟨s, hname, hs⟩ := (hlabel rest).mp hfound
      simp only
      rcases hfirst.next with ⟨hend, hzero⟩ | ⟨hmore, hne, compressed', hrest⟩
      · rw [if_pos hzero, endsName_iff, hostName, if_pos hend, append_nil]
        refine ⟨fun htail => ⟨s, rest, htail, hname, hs⟩, ?_⟩
        rintro ⟨s', tail, htail, hname', hs'⟩
        rwa [hrest_eq (hname.symm.trans hname') hs hs']
      · rw [if_neg hne, hostName, if_neg hmore, sameName_label]
        cases rest with
        | nil =>
          refine iff_of_false Bool.false_ne_true ?_
          rintro ⟨s', rest', hname', hs', _⟩
          cases hrest_eq (hname.symm.trans hname') hs hs'
        | cons c rest =>
          by_cases hdot : c = 46
          · simp only [if_pos hdot]
            refine (ih hrest ?_).trans ⟨fun hsame => ⟨s, rest, by rw [hname, hdot], hs, hsame⟩, ?_⟩
            · rw [hname, length_append, length_cons] at hfuel
              omega
            · rintro ⟨s', rest', hname', hs', hsame⟩
              rwa [(List.cons.inj (hrest_eq (hname.symm.trans hname') hs hs')).2]
          · simp only [if_neg hdot]
            refine iff_of_false Bool.false_ne_true ?_
            rintro ⟨s', rest', hname', hs', _⟩
            exact hdot (List.cons.inj (hrest_eq (hname.symm.trans hname') hs hs')).1

theorem hostName_ne_nil : hostName ls ≠ [] := by
  obtain ⟨l, ls', _, rfl, hfirst⟩ := h.first
  rw [hostName]
  exact append_ne_nil_of_left_ne_nil hfirst.label.ne_nil _

/-- A string that is a host name but for the case of letters does not end with a dot. -/
theorem getLast_of_map
    (hmap : name.map toLower = (hostName ls).map toLower) : name.getLast? ≠ some 46 := by
  have hhost : (hostName ls).getLast? ≠ some 46 := by
    clear hmap
    induction ls generalizing compressed pos with
    | nil =>
      obtain ⟨_, _, _, hnil, _⟩ := h.first
      cases hnil
    | cons l ls ih =>
      obtain ⟨_, _, start, hcons, hfirst⟩ := h.first
      obtain ⟨rfl, rfl⟩ := List.cons.inj hcons
      rcases hfirst.next with ⟨hend, _⟩ | ⟨hmore, _, compressed', hrest⟩
      · rw [hostName, if_pos hend, append_nil]
        exact fun hlast => hfirst.label.ne_dot 46 (mem_of_getLast? hlast) rfl
      · obtain ⟨c, host, hhost⟩ := exists_cons_of_ne_nil (hostName_ne_nil hrest)
        have ih := ih hrest
        rw [hhost] at ih
        rw [hostName, if_neg hmore, hhost]
        simpa using ih
  intro hlast
  have hlower := congrArg List.getLast? hmap
  rw [List.getLast?_map, List.getLast?_map, hlast, Option.map_some] at hlower
  obtain ⟨c, hc, hdot⟩ := Option.map_eq_some_iff.mp hlower.symm
  exact hhost (hc.trans (congrArg some ((toLower_eq_dot c).mp (hdot.trans
    ((toLower_eq_dot 46).mpr rfl)))))

/-- The same name, once the dot at the end has been taken away. -/
theorem sameName_iff : SameName name (hostName ls) ↔
    (withoutDot name).map toLower = (hostName ls).map toLower := by
  constructor
  · rintro ⟨s, _, rfl | rfl, rfl, hs⟩
    · rwa [append_nil, withoutDot, if_neg (getLast_of_map h hs)]
    · rwa [withoutDot, List.getLast?_concat, if_pos rfl, dropLast_concat]
  · intro hsame
    rw [withoutDot] at hsame
    by_cases hdot : name.getLast? = some 46
    · rw [if_pos hdot] at hsame
      exact ⟨_, [46], .inr rfl, (dropLast_append_getLast? 46 hdot).symm, hsame⟩
    · rw [if_neg hdot] at hsame
      exact ⟨name, [], .inl rfl, (append_nil name).symm, hsame⟩

end

/-! ## The law -/

/-- What `encode_name` writes of a name is decoded to the name, and skipped; and wherever it stands in
a packet, with a pointer or not, a string is found equal to it exactly if the string is what the name is
decoded to, but for the case of letters and a dot at its end. -/
structure NameCodecLaw (max : ℕ) (ls : List (List Byte)) : Prop where
  decode : ∀ mem pos, Holds mem pos (encodeName (hostName ls)) →
    (decodeName mem max pos).fits = true ∧ (decodeName mem max pos).bytes = hostName ls
  skip : ∀ mem pos fuel, Holds mem pos (encodeName (hostName ls)) →
    (encodeName (hostName ls)).length ≤ fuel →
    ∃ reads, skipName mem fuel pos = some (pos + (encodeName (hostName ls)).length, reads)
  equal : ∀ mem pos, NameAt mem true pos ls → (decodeName mem max pos).fits = true → ∀ name,
    ((dnsNameIsequal mem pos name).1 = true ↔
      (withoutDot name).map toLower = (decodeName mem max pos).bytes.map toLower)

/-- **The law holds exactly if** there is room for one more character. -/
theorem nameCodecLaw_iff (hls : ∀ l ∈ ls, IsLabel l) (hne : ls ≠ []) :
    NameCodecLaw max ls ↔ (hostName ls).length < max := by
  constructor
  · intro h
    have hholds := holds_store (fun _ => 0) 0 (encodeName (hostName ls))
    have hname := @decodeName_name _ true 0 max ls (nameAt_of_holds hls hne hholds)
    exact hname.1.mp (h.decode _ 0 hholds).1
  · intro hlt
    refine ⟨fun mem pos h => ?_, fun mem pos fuel h hfuel => skipName_encodeName hls hne h hfuel,
      fun mem pos h _ name => ?_⟩
    · have hname := @decodeName_name mem true pos max ls (nameAt_of_holds hls hne h)
      exact ⟨hname.1.mpr hlt, hname.2 hlt⟩
    · rw [(decodeName_name h).2 hlt, ← sameName_iff h, dnsNameIsequal]
      by_cases hnil : name = []
      · rw [if_pos hnil, hnil]
        refine iff_of_false Bool.false_ne_true ?_
        rintro ⟨s, tail, _, hs, hmap⟩
        rw [(List.append_eq_nil_iff.mp hs.symm).1] at hmap
        exact hostName_ne_nil h (List.map_eq_nil_iff.mp hmap.symm)
      · rw [if_neg hnil]
        exact equalLoop_name h (Nat.lt_succ_self _)

/-- The name `a`, in a buffer for 32 characters. -/
theorem nameCodecLaw_a : ((∀ l ∈ [[(97 : Byte)]], IsLabel l) ∧ [[(97 : Byte)]] ≠ []) ∧
    NameCodecLaw 32 [[97]] := by
  have hls : ∀ l ∈ [[(97 : Byte)]], IsLabel l := by
    intro l hl
    rw [List.mem_singleton.mp hl]
    exact ⟨by simp, by simp, by simp, by simp⟩
  exact ⟨⟨hls, by simp⟩, (nameCodecLaw_iff hls (by simp)).mpr (by decide)⟩

/-- A name of 32 characters fits into the buffer and is not decoded. -/
theorem name_of_full_length_refused : (hostName [List.replicate 32 97]).length ≤ 32 ∧
    ¬ NameCodecLaw 32 [List.replicate 32 97] := by
  refine ⟨by decide, fun h => ?_⟩
  have hls : ∀ l ∈ [List.replicate 32 (97 : Byte)], IsLabel l := by
    intro l hl
    rw [List.mem_singleton.mp hl]
    exact ⟨by simp, by simp, by simp, by simp⟩
  have hholds := holds_store (fun _ => 0) 0 (encodeName (hostName [List.replicate 32 97]))
  have hname := @decodeName_name _ true 0 32 _ (nameAt_of_holds hls (by simp) hholds)
  exact absurd (hname.1.mp (h.decode _ 0 hholds).1) (by decide)

end Asap.Resolv
