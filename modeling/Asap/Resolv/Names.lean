import Asap.Lib.Bytes

/-!
# Names in a DNS message

A name is a sequence of labels, each behind its length, up to a length of zero or to a pointer into
the message. The functions that go through a name are given where it begins, and not where the
message ends.

Positions are from the beginning of the message on; bytes behind its end are in memory, too. What is
read is traced.

## Main definitions

* `skipName`, `dnsNameIsequal`, `decodeName` — what is read of a name, and what for.
* `NameEnds`, `EqualFits`, `DecodeFits` — the names of which only bytes of the message are read.
-/

namespace Asap.Resolv

open Lib List

section

variable (mem : ℕ → Byte)

/-- A length that is the first byte of a pointer. -/
def isPointer (n : Byte) : Bool := n &&& 0xC0 ≠ 0

/-- Where a pointer leads, whose second byte is at a place. -/
def pointee (n : Byte) (pos : ℕ) : ℕ := (mem pos).toNat + (n &&& 0x3F).toNat * 256

/-- A label with its length: it is behind a pointer, or here. -/
def labelAt (n : Byte) (pos : ℕ) : Byte × ℕ :=
  if isPointer n then (mem (pointee mem n pos), pointee mem n pos + 1) else (n, pos)

/-- What is read for a label besides its bytes. -/
def labelReads (n : Byte) (pos : ℕ) : List ℕ :=
  if isPointer n then [pos, pointee mem n pos] else []

/-- `skip_name`: where the name ends. -/
def skipName : ℕ → ℕ → Option (ℕ × List ℕ)
  | 0, _ => none
  | fuel + 1, pos =>
    if isPointer (mem pos) then some (pos + 2, [pos])
    else
      let next := pos + 1 + (mem pos).toNat
      if mem next = 0 then some (next + 1, [pos, next])
      else (skipName fuel next).map fun (stop, reads) => (stop, pos :: next :: reads)

/-! ## Names that are compared -/

/-- `tolower` -/
def toLower (c : Byte) : Byte := if 65 ≤ c ∧ c ≤ 90 then c + 32 else c

/-- The bytes of a label are compared with those of a string: what is left of the string. -/
def equalLabel : ℕ → ℕ → List Byte → Option (List Byte) × List ℕ
  | 0, _, name => (some name, [])
  | _ + 1, _, [] => (none, [])
  | n + 1, pos, c :: name =>
    if toLower c ≠ toLower (mem pos) then (none, [pos])
    else
      let more := equalLabel n (pos + 1) name
      (more.1, pos :: more.2)

/-- The end of a string, but for one dot. -/
def endsName : List Byte → Bool
  | [] => true
  | [c] => c = 46
  | _ => false

/-- The loop of `dns_name_isequal`, with the length `n` that has been read. -/
def equalLoop : ℕ → Byte → ℕ → List Byte → Bool × List ℕ
  | 0, _, _, _ => (false, [])
  | fuel + 1, n, pos, name =>
    if n = 0 then (endsName name, [])
    else
      let label := labelAt mem n pos
      let compared := equalLabel mem label.1.toNat label.2 name
      let reads := labelReads mem n pos ++ compared.2
      match compared.1 with
      | none => (false, reads)
      | some rest =>
        let stop := label.2 + label.1.toNat
        if mem stop = 0 then (endsName rest, reads ++ [stop])
        else
          match rest with
          | [] => (false, reads ++ [stop])
          | c :: rest =>
            if c = 46 then
              let more := equalLoop fuel (mem stop) (stop + 1) rest
              (more.1, reads ++ stop :: more.2)
            else (false, reads ++ [stop])

/-- `dns_name_isequal`, with a string. -/
def dnsNameIsequal (pos : ℕ) (name : List Byte) : Bool × List ℕ :=
  if name = [] then (false, [pos])
  else
    let found := equalLoop mem (name.length + 1) (mem pos) (pos + 1) name
    (found.1, pos :: found.2)

/-! ## Names that are decoded -/

/-- The bytes of a label are copied while there is room: the bytes, and the room that is left. -/
def copyLabel : ℕ → ℕ → ℕ → List Byte × ℕ
  | 0, _, room => ([], room)
  | n + 1, pos, room =>
    if room - 1 = 0 then ([mem pos], 0)
    else
      let more := copyLabel n (pos + 1) (room - 1)
      (mem pos :: more.1, more.2)

/-- What is decoded of a name: whether it has been small enough, what has been written, and what has
been read. -/
structure Decoded where
  fits : Bool
  bytes : List Byte
  reads : List ℕ

/-- The loop of `decode_name`, with the length `n` that has been read. -/
def decodeLoop : ℕ → Byte → ℕ → ℕ → Decoded
  | 0, _, _, _ => ⟨false, [], []⟩
  | fuel + 1, n, pos, room =>
    if room = 0 ∨ n = 0 then ⟨room ≠ 0, [], []⟩
    else
      let label := labelAt mem n pos
      if label.1 = 0 then ⟨true, [], labelReads mem n pos⟩
      else
        let copied := copyLabel mem label.1.toNat label.2 room
        let reads := labelReads mem n pos ++ (List.range copied.1.length).map (label.2 + ·)
        if copied.2 = 0 then ⟨false, copied.1, reads⟩
        else
          let stop := label.2 + label.1.toNat
          let dot := if mem stop = 0 then [] else [46]
          let more := decodeLoop fuel (mem stop) (stop + 1) (copied.2 - dot.length)
          ⟨more.fits, copied.1 ++ dot ++ more.bytes, reads ++ stop :: more.reads⟩

/-- `decode_name`, for a buffer of `RESOLV_CONF_MAX_DOMAIN_NAME_SIZE` bytes and one. The bytes that
are written are followed by a zero. -/
def decodeName (room pos : ℕ) : Decoded :=
  let found := decodeLoop mem (room + 1) (mem pos) (pos + 1) room
  { found with reads := pos :: found.reads }

end

/-! ## Names of which only bytes of the message are read -/

section

variable {mem : ℕ → Byte} {len fuel pos stop room : ℕ} {n : Byte} {name : List Byte}

/-- A name ends in a message of a length. -/
inductive NameEnds (mem : ℕ → Byte) (len : ℕ) : ℕ → ℕ → Prop
  | pointer {pos : ℕ} : pos < len → isPointer (mem pos) = true → NameEnds mem len pos (pos + 2)
  | last {pos : ℕ} : pos < len → isPointer (mem pos) = false →
      pos + 1 + (mem pos).toNat < len → mem (pos + 1 + (mem pos).toNat) = 0 →
      NameEnds mem len pos (pos + 1 + (mem pos).toNat + 1)
  | label {pos stop : ℕ} : pos < len → isPointer (mem pos) = false →
      mem (pos + 1 + (mem pos).toNat) ≠ 0 → NameEnds mem len (pos + 1 + (mem pos).toNat) stop →
      NameEnds mem len pos stop

theorem NameEnds.pos_lt (h : NameEnds mem len pos stop) : pos < len := by
  cases h with
  | pointer hpos _ => exact hpos
  | last hpos _ _ _ => exact hpos
  | label hpos _ _ _ => exact hpos

/-- A name that is gone through inside a message ends in it. -/
theorem nameEnds_of_skipName {reads : List ℕ} (h : skipName mem fuel pos = some (stop, reads))
    (hin : ∀ r ∈ reads, r < len) : NameEnds mem len pos stop := by
  induction fuel generalizing pos reads with
  | zero => exact absurd h.symm (Option.some_ne_none _)
  | succ fuel ih =>
    rw [skipName] at h
    by_cases hpointer : isPointer (mem pos) = true
    · rw [if_pos hpointer] at h
      obtain ⟨rfl, rfl⟩ := Prod.mk.inj (Option.some.inj h)
      exact .pointer (hin pos mem_cons_self) hpointer
    · rw [if_neg hpointer] at h
      have hlabel := Bool.eq_false_iff.mpr hpointer
      dsimp only at h
      by_cases hzero : mem (pos + 1 + (mem pos).toNat) = 0
      · rw [if_pos hzero] at h
        obtain ⟨rfl, rfl⟩ := Prod.mk.inj (Option.some.inj h)
        exact .last (hin pos mem_cons_self) hlabel
          (hin _ (mem_cons_of_mem _ mem_cons_self)) hzero
      · rw [if_neg hzero, Option.map_eq_some_iff] at h
        obtain ⟨found, hfound, heq⟩ := h
        obtain ⟨rfl, rfl⟩ := Prod.mk.inj heq
        exact .label (hin pos mem_cons_self) hlabel hzero (ih hfound fun r hr =>
          hin r (mem_cons_of_mem _ (mem_cons_of_mem _ hr)))

/-- A name that ends in a message is gone through inside it. -/
theorem NameEnds.skipName (h : NameEnds mem len pos stop) (hfuel : len ≤ fuel + pos) :
    ∃ reads, skipName mem fuel pos = some (stop, reads) ∧ ∀ r ∈ reads, r < len := by
  induction h generalizing fuel with
  | pointer hpos hpointer =>
    obtain ⟨fuel, rfl⟩ : ∃ k, fuel = k + 1 := ⟨fuel - 1, by omega⟩
    refine ⟨_, by rw [Resolv.skipName, if_pos hpointer], ?_⟩
    simpa using hpos
  | @last pos hpos hlabel hnext hzero =>
    obtain ⟨fuel, rfl⟩ : ∃ k, fuel = k + 1 := ⟨fuel - 1, by omega⟩
    refine ⟨[pos, pos + 1 + (mem pos).toNat], ?_, ?_⟩
    · rw [Resolv.skipName, hlabel, if_neg Bool.false_ne_true]
      exact if_pos hzero
    · simpa using ⟨hpos, hnext⟩
  | @label pos stop hpos hlabel hne hrest ih =>
    obtain ⟨fuel, rfl⟩ : ∃ k, fuel = k + 1 := ⟨fuel - 1, by omega⟩
    obtain ⟨reads, hreads, hin⟩ := ih (show len ≤ fuel + (pos + 1 + (mem pos).toNat) by omega)
    refine ⟨pos :: (pos + 1 + (mem pos).toNat) :: reads, ?_, ?_⟩
    · rw [Resolv.skipName, hlabel, if_neg Bool.false_ne_true]
      dsimp only
      rw [if_neg hne, hreads]
      rfl
    · simpa using ⟨hpos, hrest.pos_lt, hin⟩

section

variable (mem : ℕ → Byte) (len : ℕ)

/-- The bytes of a label are in the message, up to the first that is not the string's. -/
def LabelFits : ℕ → ℕ → List Byte → Prop
  | 0, _, _ => True
  | _ + 1, _, [] => True
  | n + 1, pos, c :: name =>
    pos < len ∧ (toLower c = toLower (mem pos) → LabelFits n (pos + 1) name)

/-- A pointer is in the message, and what it leads to. -/
def PointerFits (n : Byte) (pos : ℕ) : Prop :=
  isPointer n = true → pos < len ∧ pointee mem n pos < len

/-- The labels of a name are in the message, up to the first that is not the string's. -/
def EqualFits : ℕ → Byte → ℕ → List Byte → Prop
  | 0, _, _, _ => True
  | fuel + 1, n, pos, name =>
    n = 0 ∨ (PointerFits mem len n pos ∧
      LabelFits mem len (labelAt mem n pos).1.toNat (labelAt mem n pos).2 name ∧
      ∀ rest, (equalLabel mem (labelAt mem n pos).1.toNat (labelAt mem n pos).2 name).1 =
          some rest →
        let stop := (labelAt mem n pos).2 + (labelAt mem n pos).1.toNat
        stop < len ∧ (mem stop ≠ 0 → ∀ name', rest = 46 :: name' →
          EqualFits fuel (mem stop) (stop + 1) name'))

/-- The labels of a name are in the message, as far as there is room for them. -/
def DecodeFits : ℕ → Byte → ℕ → ℕ → Prop
  | 0, _, _, _ => True
  | fuel + 1, n, pos, room =>
    room = 0 ∨ n = 0 ∨ (PointerFits mem len n pos ∧
      ((labelAt mem n pos).1 ≠ 0 →
        (labelAt mem n pos).2 + min (labelAt mem n pos).1.toNat room ≤ len ∧
        ((labelAt mem n pos).1.toNat < room →
          let stop := (labelAt mem n pos).2 + (labelAt mem n pos).1.toNat
          let left := room - (labelAt mem n pos).1.toNat
          stop < len ∧ DecodeFits fuel (mem stop) (stop + 1)
            (if mem stop = 0 then left else left - 1))))

end

theorem equalLabel_inside {k : ℕ} :
    (∀ r ∈ (equalLabel mem k pos name).2, r < len) ↔ LabelFits mem len k pos name := by
  induction k generalizing pos name with
  | zero => exact ⟨fun _ => trivial, fun _ _ hr => absurd hr not_mem_nil⟩
  | succ k ih =>
    cases name with
    | nil => exact ⟨fun _ => trivial, fun _ _ hr => absurd hr not_mem_nil⟩
    | cons c name =>
      rw [equalLabel, LabelFits]
      by_cases heq : toLower c = toLower (mem pos)
      · rw [if_neg (not_not.mpr heq), forall_prop_of_true heq, ← ih]
        exact forall_mem_cons
      · rw [if_pos heq, forall_prop_of_false heq, and_true]
        exact forall_mem_singleton

theorem labelReads_inside :
    (∀ r ∈ labelReads mem n pos, r < len) ↔ PointerFits mem len n pos := by
  rw [labelReads, PointerFits]
  by_cases hpointer : isPointer n = true
  · rw [if_pos hpointer, forall_prop_of_true hpointer]
    simp
  · rw [if_neg hpointer]
    exact ⟨fun _ h => absurd h hpointer, fun _ _ hr => absurd hr not_mem_nil⟩

/-- **A name is compared** inside the message exactly where its labels fit. -/
theorem equalLoop_inside :
    (∀ r ∈ (equalLoop mem fuel n pos name).2, r < len) ↔ EqualFits mem len fuel n pos name := by
  induction fuel generalizing n pos name with
  | zero => exact ⟨fun _ => trivial, fun _ _ hr => absurd hr not_mem_nil⟩
  | succ fuel ih =>
    rw [equalLoop, EqualFits]
    by_cases hn : n = 0
    · rw [if_pos hn]
      exact ⟨fun _ => Or.inl hn, fun _ _ hr => absurd hr not_mem_nil⟩
    · rw [if_neg hn, or_iff_right hn, ← labelReads_inside, ← equalLabel_inside, ← and_assoc,
        ← forall_mem_append]
      dsimp only
      cases hlabel : (equalLabel mem (labelAt mem n pos).1.toNat (labelAt mem n pos).2 name).1 with
      | none =>
        dsimp only
        refine (and_iff_left ?_).symm
        intro rest hrest
        exact absurd hrest.symm (Option.some_ne_none rest)
      | some rest =>
        dsimp only
        simp only [Option.some.injEq, forall_eq']
        by_cases hstop : mem ((labelAt mem n pos).2 + (labelAt mem n pos).1.toNat) = 0
        · rw [if_pos hstop, forall_mem_append, forall_mem_singleton]
          exact and_congr_right fun _ => (and_iff_left fun h => absurd hstop h).symm
        · rw [if_neg hstop, forall_prop_of_true hstop]
          cases rest with
          | nil =>
            rw [forall_mem_append, forall_mem_singleton]
            refine and_congr_right fun _ => (and_iff_left fun name' hname => ?_).symm
            exact absurd hname (cons_ne_nil _ _).symm
          | cons c rest =>
            dsimp only
            by_cases hdot : c = 46
            · rw [if_pos hdot, hdot, forall_mem_append, forall_mem_cons, ih]
              simp only [List.cons.injEq, true_and, forall_eq']
            · rw [if_neg hdot, forall_mem_append, forall_mem_singleton]
              refine and_congr_right fun _ => (and_iff_left fun name' hname => ?_).symm
              exact absurd (List.cons.inj hname).1 hdot

theorem copyLabel_length (k pos : ℕ) (hroom : 0 < room) :
    (copyLabel mem k pos room).1.length = min k room ∧
      (copyLabel mem k pos room).2 = room - min k room := by
  induction k generalizing pos room with
  | zero => exact ⟨(Nat.zero_min room).symm, by rw [Nat.zero_min]; rfl⟩
  | succ k ih =>
    rw [copyLabel]
    by_cases hlast : room - 1 = 0
    · rw [if_pos hlast]
      have hone : room = 1 := by omega
      rw [hone, Nat.min_eq_right (Nat.succ_le_succ (Nat.zero_le k))]
      exact ⟨rfl, rfl⟩
    · rw [if_neg hlast]
      obtain ⟨hlength, hleft⟩ := ih (pos + 1) (show 0 < room - 1 by omega)
      dsimp only
      rw [length_cons, hlength, hleft]
      omega

/-- **A name is decoded** from inside the message exactly where its labels fit. -/
theorem decodeLoop_inside :
    (∀ r ∈ (decodeLoop mem fuel n pos room).reads, r < len) ↔
      DecodeFits mem len fuel n pos room := by
  induction fuel generalizing n pos room with
  | zero => exact ⟨fun _ => trivial, fun _ _ hr => absurd hr not_mem_nil⟩
  | succ fuel ih =>
    rw [decodeLoop, DecodeFits]
    by_cases hend : room = 0 ∨ n = 0
    · rw [if_pos hend]
      refine ⟨fun _ => ?_, fun _ _ hr => absurd hr not_mem_nil⟩
      exact hend.elim Or.inl fun hn => Or.inr (Or.inl hn)
    · obtain ⟨hroom, hn⟩ := not_or.mp hend
      rw [if_neg hend, or_iff_right hroom, or_iff_right hn]
      dsimp only
      by_cases hzero : (labelAt mem n pos).1 = 0
      · rw [if_pos hzero, labelReads_inside]
        exact (and_iff_left fun h => absurd hzero h).symm
      · obtain ⟨hlength, hleft⟩ := copyLabel_length (labelAt mem n pos).1.toNat
          (labelAt mem n pos).2 (Nat.pos_of_ne_zero hroom)
        have hpos : 0 < min (labelAt mem n pos).1.toNat room := by
          have hne : (labelAt mem n pos).1.toNat ≠ 0 := fun h => hzero (BitVec.eq_of_toNat_eq h)
          omega
        have hbytes : (∀ r ∈ (List.range (min (labelAt mem n pos).1.toNat room)).map
            ((labelAt mem n pos).2 + ·), r < len) ↔
              (labelAt mem n pos).2 + min (labelAt mem n pos).1.toNat room ≤ len := by
          simp only [forall_mem_map, mem_range]
          constructor
          · intro h
            have hlast := h (min (labelAt mem n pos).1.toNat room - 1) (by omega)
            omega
          · intro h i hi
            omega
        rw [if_neg hzero, forall_prop_of_true hzero, hlength, hleft]
        by_cases hfull : (labelAt mem n pos).1.toNat < room
        · rw [if_neg (by omega), forall_prop_of_true hfull, forall_mem_append,
            forall_mem_append, labelReads_inside, hbytes, forall_mem_cons, ih, and_assoc]
          rw [Nat.min_eq_left (Nat.le_of_lt hfull)]
          split_ifs with hstop
          · exact Iff.rfl
          · exact Iff.rfl
        · rw [if_pos (by omega), forall_mem_append, labelReads_inside, hbytes]
          exact and_congr_right fun _ => (and_iff_left fun h => absurd h hfull).symm

theorem dnsNameIsequal_inside :
    (∀ r ∈ (dnsNameIsequal mem pos name).2, r < len) ↔
      pos < len ∧ (name ≠ [] → EqualFits mem len (name.length + 1) (mem pos) (pos + 1) name) := by
  rw [dnsNameIsequal]
  by_cases hname : name = []
  · rw [if_pos hname, forall_mem_singleton]
    exact (and_iff_left fun h => absurd hname h).symm
  · rw [if_neg hname, forall_prop_of_true hname, ← equalLoop_inside]
    exact forall_mem_cons

theorem decodeName_inside :
    (∀ r ∈ (decodeName mem room pos).reads, r < len) ↔
      pos < len ∧ DecodeFits mem len (room + 1) (mem pos) (pos + 1) room := by
  rw [decodeName, ← decodeLoop_inside]
  exact forall_mem_cons

/-- **What is decoded** fits in the buffer, with the zero behind it. -/
theorem decodeLoop_length : (decodeLoop mem fuel n pos room).bytes.length ≤ room := by
  induction fuel generalizing n pos room with
  | zero => exact Nat.zero_le _
  | succ fuel ih =>
    rw [decodeLoop]
    by_cases hend : room = 0 ∨ n = 0
    · rw [if_pos hend]
      exact Nat.zero_le _
    · obtain ⟨hlength, hleft⟩ := copyLabel_length (labelAt mem n pos).1.toNat
        (labelAt mem n pos).2 (Nat.pos_of_ne_zero fun h => hend (Or.inl h))
      rw [if_neg hend]
      dsimp only
      by_cases hzero : (labelAt mem n pos).1 = 0
      · rw [if_pos hzero]
        exact Nat.zero_le _
      · rw [if_neg hzero]
        by_cases hfull :
            (copyLabel mem (labelAt mem n pos).1.toNat (labelAt mem n pos).2 room).2 = 0
        · rw [if_pos hfull, hlength]
          exact Nat.min_le_right _ _
        · rw [if_neg hfull]
          dsimp only
          rw [length_append, length_append, hlength]
          rw [hleft] at hfull ⊢
          have hmore : ∀ left, (decodeLoop mem fuel
              (mem ((labelAt mem n pos).2 + (labelAt mem n pos).1.toNat))
              ((labelAt mem n pos).2 + (labelAt mem n pos).1.toNat + 1) left).bytes.length ≤ left :=
            fun left => ih
          split_ifs with hstop
          · have hrest := hmore (room - min (labelAt mem n pos).1.toNat room - 0)
            rw [length_nil]
            omega
          · have hrest := hmore (room - min (labelAt mem n pos).1.toNat room - 1)
            rw [length_singleton]
            omega

end

end Asap.Resolv
